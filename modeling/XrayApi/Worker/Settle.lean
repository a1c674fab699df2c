import XrayApi.Worker.Interruptions

/-!
# The state a pass leads to

`settle n` says what a pass of node `n` is for: tombstones of the node are gone, the rows of its
other assignments to active users are marked as applied, accounts of assignments that are due to go
are removed, and every other assignment has an account, the one that was there before or the one
built from its row. It is a function of the world the pass starts in, so neither the order in which
the queries return their rows nor the order of the statements shows in the result.

`Passing n b p w` is the invariant that ties a running pass to it: the pass was started when the
part of the world that belongs to `n` was that of `b`, and stands at `p` now. The part that belongs
to a node is compared by `SameAt`; passes on other nodes leave it alone.
-/

set_option autoImplicit false

namespace XrayApi.Worker

open Transition Store Xray Relational

/-! ## The settled world -/

/-- The row that is left of an assignment when its node has been settled. -/
def Target.left (a : Target) : Option UserInbound :=
  if a.row.syncStatus = .removing then none
  else if a.user.status = .active ∧ a.row.syncStatus ≠ .applied then some (marked a.row)
  else some a.row

/-- What settling the node `n` leaves of a row. -/
def settleRow (t : Tables) (n : ID) (r : UserInbound) : Option UserInbound :=
  match lookup Inbound.id r.inboundID t.inbounds, lookup User.id r.userID t.users with
  | some i, some u => if i.nodeID = n then Target.left ⟨r, i, u⟩ else some r
  | _, _ => some r

/-- The tables when the node `n` has been settled. -/
def settleTables (t : Tables) (n : ID) : Tables :=
  { t with userInbounds := t.userInbounds.filterMap (settleRow t n) }

/-- The accounts of the node `n` when it has been settled. -/
def settleAccounts (t : Tables) (n : ID) (accounts : AccountTable) : AccountTable := fun k =>
  if k ∈ (removalsForNode t n).map key then none
  else
    match (desiredForNode t n).find? fun d => decide (key d = k) with
    | none => accounts k
    | some d =>
      match buildUser (accountFor d) with
      | .ok user => some ((accounts k).getD user)
      | .error _ => accounts k

theorem Target.left_key {a : Target} {r : UserInbound} (h : a.left = some r) :
    (r.userID, r.inboundID) = (a.row.userID, a.row.inboundID) := by
  unfold Target.left at h
  split_ifs at h with hs hact
  · cases h
    rfl
  · cases h
    rfl

theorem settleRow_key (t : Tables) (n : ID) (r r' : UserInbound)
    (h : settleRow t n r = some r') : (r'.userID, r'.inboundID) = (r.userID, r.inboundID) := by
  unfold settleRow at h
  split at h
  · split_ifs at h with hn
    · exact Target.left_key h
    · cases h
      rfl
  · cases h
    rfl

theorem settleTables_valid {t : Tables} (ht : t.Valid) (n : ID) : (settleTables t n).Valid where
  nodes_id := ht.nodes_id
  nodes_name := ht.nodes_name
  inbounds_id := ht.inbounds_id
  inbounds_tag := ht.inbounds_tag
  inbounds_node := ht.inbounds_node
  plans_id := ht.plans_id
  plans_name := ht.plans_name
  users_id := ht.users_id
  users_email := ht.users_email
  users_uuid := ht.users_uuid
  users_trojanPassword := ht.users_trojanPassword
  users_subToken := ht.users_subToken
  users_externalID := ht.users_externalID
  users_plan := ht.users_plan
  userInbounds_key := nodup_map_filterMap ht.userInbounds_key (settleRow_key t n)
  userInbounds_user r hr := by
    obtain ⟨r₀, hr₀, h⟩ := List.mem_filterMap.1 hr
    rw [(Prod.mk.inj (settleRow_key t n r₀ r h)).1]
    exact ht.userInbounds_user r₀ hr₀
  userInbounds_inbound r hr := by
    obtain ⟨r₀, hr₀, h⟩ := List.mem_filterMap.1 hr
    rw [(Prod.mk.inj (settleRow_key t n r₀ r h)).2]
    exact ht.userInbounds_inbound r₀ hr₀
  trafficSnapshots_user := ht.trafficSnapshots_user
  trafficSnapshots_node := ht.trafficSnapshots_node
  webhookEvents_id := ht.webhookEvents_id

/-- The world when the node `n` has been settled. -/
def settle (n : ID) (w : World) : World :=
  { w with
    db := ⟨settleTables w.tables n, settleTables_valid w.db.valid n⟩
    accounts := Function.update w.accounts n (settleAccounts w.tables n (w.accounts n)) }

@[simp] theorem settle_users (n : ID) (w : World) :
    (settle n w).tables.users = w.tables.users := rfl

@[simp] theorem settle_inbounds (n : ID) (w : World) :
    (settle n w).tables.inbounds = w.tables.inbounds := rfl

theorem settle_accounts (n : ID) (w : World) :
    (settle n w).accounts n = settleAccounts w.tables n (w.accounts n) :=
  Function.update_self n _ _

theorem settle_accounts_of_ne {m n : ID} (h : m ≠ n) (w : World) :
    (settle n w).accounts m = w.accounts m :=
  Function.update_of_ne h _ _

theorem assignment_settle (n : ID) (w : World) (userID inboundID : ID) :
    assignment (settle n w).tables userID inboundID =
      (assignment w.tables userID inboundID).bind (settleRow w.tables n) :=
  lookup_filterMap (settleRow_key w.tables n) w.db.valid.userInbounds_key _

section Targets

variable {a b : Target} {t : Tables} {n : ID} {k : Key} {accounts : AccountTable}

theorem Target.In.settleRow (ha : a.In t) (n : ID) :
    settleRow t n a.row = if a.inbound.nodeID = n then a.left else some a.row := by
  unfold Worker.settleRow
  rw [ha.inbound, ha.user]

/-- A place has one owner. -/
theorem Target.Owns.eq (ht : t.Valid) (ha : a.Owns t n k) (hb : b.Owns t n k) : a = b := by
  obtain ⟨hinbound, huser⟩ := ha.unique ht hb
  obtain ⟨hauid, haiid⟩ := ha.known.ids
  obtain ⟨hbuid, hbiid⟩ := hb.known.ids
  have hkey : (a.row.userID, a.row.inboundID) = (b.row.userID, b.row.inboundID) := by
    rw [← hauid, ← haiid, ← hbuid, ← hbiid, hinbound, huser]
  have hrow : a.row = b.row :=
    List.inj_on_of_nodup_map ht.userInbounds_key ha.row hb.row hkey
  obtain ⟨ra, ia, ua⟩ := a
  obtain ⟨rb, ib, ub⟩ := b
  cases hrow
  cases hinbound
  cases huser
  rfl

/-- The removals of a node are the assignments that are due to go. -/
theorem mem_removalsForNode {d : DesiredAssignment} :
    d ∈ removalsForNode t n ↔ ∃ a : Target, a.Owns t n (key d) ∧ a.Due ∧ d = a.desired := by
  unfold removalsForNode
  rw [mem_queryDesired]
  constructor
  · rintro ⟨ui, hui, i, u, hi, hu, hc, rfl⟩
    obtain ⟨hn, hdue⟩ := of_decide_eq_true hc
    exact ⟨⟨ui, i, u⟩, ⟨hui, ⟨hi, hu⟩, hn, rfl⟩, hdue, rfl⟩
  · rintro ⟨a, ⟨hui, ⟨hi, hu⟩, hn, -⟩, hdue, rfl⟩
    exact ⟨a.row, hui, a.inbound, a.user, hi, hu, decide_eq_true ⟨hn, hdue⟩, rfl⟩

theorem Target.Owns.key_desired (ha : a.Owns t n k) : key a.desired = k := ha.place

theorem settleAccounts_of_due (ha : a.Owns t n k) (hdue : a.Due) :
    settleAccounts t n accounts k = none := by
  have hmem : k ∈ (removalsForNode t n).map key := by
    obtain rfl := ha.key_desired
    exact List.mem_map_of_mem (mem_removalsForNode.2 ⟨a, ha, hdue, rfl⟩)
  exact if_pos hmem

/-- The account of an assignment that stays; one that cannot be built is not stored. -/
theorem settleAccounts_of_stays (ht : t.Valid) (ha : a.Owns t n k) (hdue : ¬ a.Due) :
    settleAccounts t n accounts k =
      match buildUser (accountFor a.desired) with
      | .ok user => some ((accounts k).getD user)
      | .error _ => accounts k := by
  have hnot : k ∉ (removalsForNode t n).map key := by
    intro hmem
    obtain ⟨d, hd, rfl⟩ := List.mem_map.1 hmem
    obtain ⟨b, hb, hbdue, -⟩ := mem_removalsForNode.1 hd
    rw [hb.eq ht ha] at hbdue
    exact hdue hbdue
  have hfind : (desiredForNode t n).find? (fun d => decide (key d = k)) = some a.desired := by
    obtain rfl := ha.key_desired
    have hmem : a.desired ∈ desiredForNode t n := mem_desiredForNode.2 ⟨a, ha, hdue, rfl⟩
    cases hf : (desiredForNode t n).find? fun d => decide (key d = key a.desired) with
    | none =>
        have hno := List.find?_eq_none.1 hf a.desired hmem
        exact (hno (decide_eq_true rfl)).elim
    | some d =>
        -- the first row with the key belongs to the same assignment
        have hkey : key d = key a.desired := by simpa using List.find?_some hf
        obtain ⟨b, hb, -, rfl⟩ := mem_desiredForNode.1 (List.mem_of_find?_eq_some hf)
        rw [hkey] at hb
        rw [hb.eq ht ha]
  unfold settleAccounts
  rw [if_neg hnot, hfind]

theorem settleAccounts_of_free (hk : ¬ Assigned t n k) :
    settleAccounts t n accounts k = accounts k := by
  have hnot : k ∉ (removalsForNode t n).map key := by
    intro hmem
    obtain ⟨d, hd, rfl⟩ := List.mem_map.1 hmem
    obtain ⟨b, hb, -⟩ := mem_removalsForNode.1 hd
    exact hk ⟨b, hb⟩
  have hfind : (desiredForNode t n).find? (fun d => decide (key d = k)) = none := by
    refine List.find?_eq_none.2 fun d hd hdk => hk ?_
    obtain ⟨b, hb, -⟩ := mem_desiredForNode.1 hd
    exact ⟨b, of_decide_eq_true hdk ▸ hb⟩
  unfold settleAccounts
  rw [if_neg hnot, hfind]

end Targets

/-! ## The part of the world that belongs to a node -/

/-- The two worlds agree on what a pass of the node `n` reads and writes. -/
structure SameAt (n : ID) (w w' : World) : Prop where
  users : w'.tables.users = w.tables.users
  inbounds : w'.tables.inbounds = w.tables.inbounds
  accounts : w'.accounts n = w.accounts n
  rows : ∀ userID inboundID, onNode w.tables n inboundID = true →
    assignment w'.tables userID inboundID = assignment w.tables userID inboundID

theorem onNode_congr {t t' : Tables} (h : t'.inbounds = t.inbounds) (n inboundID : ID) :
    onNode t' n inboundID = onNode t n inboundID := by
  unfold onNode
  rw [h]

theorem Target.In.onNode {a : Target} {t : Tables} (ha : a.In t) :
    onNode t a.inbound.nodeID a.row.inboundID = true :=
  decide_eq_true ⟨a.inbound, mem_of_lookup ha.inbound, key_of_lookup ha.inbound, rfl⟩

/-- An inbound is on one node. -/
theorem eq_of_onNode {t : Tables} (ht : t.Valid) {m n inboundID : ID}
    (hm : onNode t m inboundID = true) (hn : onNode t n inboundID = true) : m = n := by
  obtain ⟨i, hi, hiid, rfl⟩ := of_decide_eq_true hm
  obtain ⟨j, hj, hjid, rfl⟩ := of_decide_eq_true hn
  rw [List.inj_on_of_nodup_map ht.inbounds_id hi hj (hiid.trans hjid.symm)]

theorem Target.In.node_of_onNode {a : Target} {t : Tables} (ht : t.Valid) (ha : a.In t) {n : ID}
    (hn : Store.onNode t n a.row.inboundID = true) : a.inbound.nodeID = n :=
  eq_of_onNode ht ha.onNode hn

namespace SameAt

variable {n : ID} {w w₁ w₂ : World}

theorem refl (n : ID) (w : World) : SameAt n w w := ⟨rfl, rfl, rfl, fun _ _ _ => rfl⟩

theorem symm (h : SameAt n w w₁) : SameAt n w₁ w where
  users := h.users.symm
  inbounds := h.inbounds.symm
  accounts := h.accounts.symm
  rows userID inboundID hn := by
    rw [onNode_congr h.inbounds] at hn
    exact (h.rows userID inboundID hn).symm

theorem trans (h : SameAt n w w₁) (h' : SameAt n w₁ w₂) : SameAt n w w₂ where
  users := h'.users.trans h.users
  inbounds := h'.inbounds.trans h.inbounds
  accounts := h'.accounts.trans h.accounts
  rows userID inboundID hn := by
    have hn₁ : onNode w₁.tables n inboundID = true := by rwa [onNode_congr h.inbounds]
    exact (h'.rows userID inboundID hn₁).trans (h.rows userID inboundID hn)

theorem known {a : Target} (h : SameAt n w w₁) (ha : a.In w.tables) : a.In w₁.tables := by
  constructor
  · rw [h.inbounds]
    exact ha.inbound
  · rw [h.users]
    exact ha.user

theorem owns {a : Target} {k : Key} (h : SameAt n w w₁) (ha : a.Owns w.tables n k) :
    a.Owns w₁.tables n k := by
  obtain ⟨-, hknown, rfl, hplace⟩ := id ha
  have hrow := h.rows a.row.userID a.row.inboundID hknown.onNode
  rw [show assignment w.tables a.row.userID a.row.inboundID = some a.row from ha.rowIn] at hrow
  exact ⟨(w₁.db.valid.assignment_eq_some.1 hrow).1, h.known hknown, rfl, hplace⟩

/-- Settling a node depends on the part that belongs to it. -/
theorem settleAccounts_eq (h : SameAt n w w₁) (k : Key) :
    settleAccounts w₁.tables n (w₁.accounts n) k = settleAccounts w.tables n (w.accounts n) k := by
  by_cases hk : Assigned w.tables n k
  · obtain ⟨a, ha⟩ := hk
    have ha₁ := h.owns ha
    by_cases hdue : a.Due
    · rw [settleAccounts_of_due ha hdue, settleAccounts_of_due ha₁ hdue]
    · rw [settleAccounts_of_stays w.db.valid ha hdue, settleAccounts_of_stays w₁.db.valid ha₁ hdue,
        h.accounts]
  · have hk₁ : ¬ Assigned w₁.tables n k := by
      rintro ⟨a, ha⟩
      exact hk ⟨a, h.symm.owns ha⟩
    rw [settleAccounts_of_free hk, settleAccounts_of_free hk₁, h.accounts]

theorem settle (h : SameAt n w w₁) : SameAt n (settle n w) (settle n w₁) where
  users := h.users
  inbounds := h.inbounds
  accounts := by
    rw [settle_accounts, settle_accounts]
    exact funext fun k => h.settleAccounts_eq k
  rows userID inboundID hn := by
    have hfate : settleRow w₁.tables n = settleRow w.tables n := by
      funext r
      unfold settleRow
      rw [h.inbounds, h.users]
    rw [assignment_settle, assignment_settle, hfate, h.rows userID inboundID hn]

end SameAt

/-- Settling a node leaves what belongs to the other nodes alone. -/
theorem sameAt_settle {m n : ID} (h : m ≠ n) (w : World) : SameAt m w (settle n w) where
  users := rfl
  inbounds := rfl
  accounts := settle_accounts_of_ne h w
  rows userID inboundID hn := by
    rw [assignment_settle]
    cases hrow : assignment w.tables userID inboundID with
    | none => rfl
    | some ui =>
        obtain ⟨a, rfl, ha, rfl, rfl⟩ := exists_target w hrow
        rw [Option.bind_some, ha.settleRow]
        exact if_neg fun hna => h ((ha.node_of_onNode w.db.valid hn).symm.trans hna)

/-- A row that is left is left as it is. -/
theorem Target.left_left {a : Target} {r : UserInbound} (h : a.left = some r) :
    Target.left ⟨r, a.inbound, a.user⟩ = some r := by
  unfold Target.left at h ⊢
  split_ifs at h with hs hact
  · cases h
    simp [marked]
  · cases h
    simp only [hs, if_false]
    exact if_neg hact

section Again

variable {a : Target} {t : Tables} {n : ID} {k : Key}

/-- An assignment that is left owns its place still. -/
theorem Target.Owns.settle (ha : a.Owns t n k) {r : UserInbound} (hr : a.left = some r) :
    (⟨r, a.inbound, a.user⟩ : Target).Owns (settleTables t n) n k where
  row := by
    refine List.mem_filterMap.2 ⟨a.row, ha.row, ?_⟩
    rw [ha.known.settleRow, if_pos ha.node]
    exact hr
  known := by
    obtain ⟨huid, hiid⟩ := Prod.mk.inj (Target.left_key hr)
    constructor
    · exact (congrArg (lookup Inbound.id · t.inbounds) hiid).trans ha.known.inbound
    · exact (congrArg (lookup User.id · t.users) huid).trans ha.known.user
  node := ha.node
  place := ha.place

/-- An owner in the settled tables is what is left of an owner. -/
theorem Target.Owns.of_settle (ha : a.Owns (settleTables t n) n k) :
    ∃ r, (⟨r, a.inbound, a.user⟩ : Target).Owns t n k ∧
      Target.left ⟨r, a.inbound, a.user⟩ = some a.row := by
  obtain ⟨r, hr, hleft⟩ := List.mem_filterMap.1 ha.row
  obtain ⟨huid, hiid⟩ := Prod.mk.inj (settleRow_key t n r _ hleft)
  have hknown : (⟨r, a.inbound, a.user⟩ : Target).In t := by
    constructor
    · exact (congrArg (lookup Inbound.id · t.inbounds) hiid.symm).trans ha.known.inbound
    · exact (congrArg (lookup User.id · t.users) huid.symm).trans ha.known.user
  refine ⟨r, ⟨hr, hknown, ha.node, ha.place⟩, ?_⟩
  have hfate := hknown.settleRow n
  rw [if_pos ha.node] at hfate
  rw [← hfate]
  exact hleft

theorem Target.left_of_due (hdue : a.Due) {r : UserInbound} (h : a.left = some r) :
    a.user.status ≠ .active := by
  unfold Target.left at h
  split_ifs at h with hs hact
  · exact (hdue.resolve_left hs)
  · exact (hdue.resolve_left hs)

/-- What is left of an assignment that stays. -/
theorem Target.left_of_stays (hdue : ¬ a.Due) :
    ∃ r, a.left = some r ∧ r.syncStatus = .applied := by
  unfold Target.Due at hdue
  push Not at hdue
  unfold Target.left
  rw [if_neg hdue.1]
  split_ifs with hact
  · exact ⟨marked a.row, rfl, rfl⟩
  · exact ⟨a.row, rfl, not_not.1 fun hs => hact ⟨hdue.2, hs⟩⟩

theorem settleAccounts_settle (ht : t.Valid) (accounts : AccountTable) :
    settleAccounts (settleTables t n) n (settleAccounts t n accounts) k =
      settleAccounts t n accounts k := by
  by_cases hk : Assigned (settleTables t n) n k
  · obtain ⟨b, hb⟩ := hk
    obtain ⟨r, ha, hleft⟩ := hb.of_settle
    by_cases hdue : Target.Due ⟨r, b.inbound, b.user⟩
    · -- the user is inactive, so the assignment is still due to go
      have hbdue : b.Due := Or.inr (Target.left_of_due (a := ⟨r, b.inbound, b.user⟩) hdue hleft)
      rw [settleAccounts_of_due hb hbdue, settleAccounts_of_due ha hdue]
    · obtain ⟨r', hleft', hr'⟩ := Target.left_of_stays hdue
      have hsame : r' = b.row := Option.some.inj (hleft'.symm.trans hleft)
      have hbdue : ¬ b.Due := by
        rintro (hs | hact)
        · rw [← hsame, hr'] at hs
          cases hs
        · exact hdue (Or.inr hact)
      rw [settleAccounts_of_stays (settleTables_valid ht n) hb hbdue,
        settleAccounts_of_stays ht ha hdue]
      -- the account is built from the inbound and the user alone
      change (match buildUser (accountFor (Target.desired ⟨r, b.inbound, b.user⟩)) with
        | .ok user => some (Option.getD _ user)
        | .error _ => _) = _
      cases buildUser (accountFor (Target.desired ⟨r, b.inbound, b.user⟩)) with
      | ok user => rfl
      | error e => rfl
  · exact settleAccounts_of_free hk

/-- A row of the settled tables is left as it is. -/
theorem settleRow_settle {w : World} {r : UserInbound}
    (hr : r ∈ (settle n w).tables.userInbounds) : settleRow (settle n w).tables n r = some r := by
  have hrow : assignment (settle n w).tables r.userID r.inboundID = some r :=
    (settle n w).db.valid.assignment_eq_some.2 ⟨hr, rfl, rfl⟩
  obtain ⟨a, rfl, ha, -, -⟩ := exists_target _ hrow
  rw [ha.settleRow]
  split_ifs with hn
  · obtain ⟨r, -, hleft⟩ := Target.Owns.of_settle (t := w.tables) ⟨hr, ha, hn, rfl⟩
    exact Target.left_left (a := ⟨r, a.inbound, a.user⟩) hleft
  · rfl

/-- Settling a node once more changes nothing that belongs to it. -/
theorem sameAt_settle_settle (n : ID) (w : World) :
    SameAt n (settle n w) (settle n (settle n w)) where
  users := rfl
  inbounds := rfl
  accounts := by
    rw [settle_accounts, settle_accounts]
    exact funext fun k => settleAccounts_settle w.db.valid (w.accounts n)
  rows userID inboundID _ := by
    rw [assignment_settle n (settle n w)]
    cases hrow : assignment (settle n w).tables userID inboundID with
    | none => rfl
    | some r => exact settleRow_settle ((settle n w).db.valid.assignment_eq_some.1 hrow).1

end Again

/-! ## What passes do at most -/

/-- `w'` is `w` with some assignments dropped or rewritten and some accounts changed. -/
structure Thins (w w' : World) : Prop where
  rows : Thinned (fun r => (r.userID, r.inboundID)) w.tables.userInbounds w'.tables.userInbounds
  tables : w'.tables = { w.tables with userInbounds := w'.tables.userInbounds }
  traffic : w'.traffic = w.traffic
  uptime : w'.uptime = w.uptime
  reconcileCh : w'.reconcileCh = w.reconcileCh

namespace Thins

variable {w w₁ w₂ : World}

theorem refl (w : World) : Thins w w := ⟨Thinned.refl _ _, rfl, rfl, rfl, rfl⟩

theorem trans (h : Thins w w₁) (h' : Thins w₁ w₂) : Thins w w₂ where
  rows := h.rows.trans h'.rows
  tables := by
    rw [h'.tables, h.tables]
  traffic := h'.traffic.trans h.traffic
  uptime := h'.uptime.trans h.uptime
  reconcileCh := h'.reconcileCh.trans h.reconcileCh

/-- Every row belongs to some node, so two worlds that agree on every node are equal. -/
theorem eq_of_sameAt (h₁ : Thins w w₁) (h₂ : Thins w w₂) (h : ∀ n, SameAt n w₁ w₂) : w₁ = w₂ := by
  have hsub : ∀ v₁ v₂ : World, (∀ n, SameAt n v₁ v₂) → ∀ userID inboundID ui,
      assignment v₁.tables userID inboundID = some ui →
        assignment v₂.tables userID inboundID = some ui := by
    intro v₁ v₂ hv userID inboundID ui hrow
    obtain ⟨a, rfl, ha, rfl, rfl⟩ := exists_target v₁ hrow
    rw [(hv a.inbound.nodeID).rows _ _ ha.onNode]
    exact hrow
  have hrows : w₁.tables.userInbounds = w₂.tables.userInbounds := by
    refine Thinned.ext w.db.valid.userInbounds_key h₁.rows h₂.rows fun k => ?_
    refine Option.ext fun ui => ⟨?_, ?_⟩
    · exact hsub w₁ w₂ h k.1 k.2 ui
    · exact hsub w₂ w₁ (fun n => (h n).symm) k.1 k.2 ui
  have htables : w₁.tables = w₂.tables := by
    rw [h₁.tables, h₂.tables, hrows]
  have haccounts : w₁.accounts = w₂.accounts := funext fun n => (h n).accounts.symm
  have htraffic := h₁.traffic.trans h₂.traffic.symm
  have huptime := h₁.uptime.trans h₂.uptime.symm
  have hch := h₁.reconcileCh.trans h₂.reconcileCh.symm
  obtain ⟨⟨t₁, ht₁⟩, accounts₁, traffic₁, uptime₁, ch₁⟩ := w₁
  obtain ⟨⟨t₂, ht₂⟩, accounts₂, traffic₂, uptime₂, ch₂⟩ := w₂
  cases htables
  cases haccounts
  cases htraffic
  cases huptime
  cases hch
  rfl

end Thins

theorem thins_settle (n : ID) (w : World) : Thins w (settle n w) :=
  ⟨⟨settleRow w.tables n, settleRow_key w.tables n, rfl⟩, rfl, rfl, rfl, rfl⟩

/-- Settling a node once more changes nothing. -/
theorem settle_settle (n : ID) (w : World) : settle n (settle n w) = settle n w := by
  refine Thins.eq_of_sameAt ((thins_settle n w).trans (thins_settle n _)) (thins_settle n w)
    fun m => SameAt.symm ?_
  by_cases hm : m = n
  · subst hm
    exact sameAt_settle_settle m w
  · exact sameAt_settle hm _

/-- A step of a pass drops or marks rows and changes accounts. -/
theorem Pass.Step.thins {n : ID} {p p' : Pass} {s : Stmt} {r : s.Res} {w w' : World}
    (h : Pass.Step n p s r p') (hw : Answers s w r w') : Thins w w' := by
  have hdb : ∀ {q : StoreCall} {o : q.Out} {t : Tables} {r : Except StoreErr q.Out},
      q.apply w.tables = .ok (o, t) → Answers (.db q) w r w' →
      Thinned (fun r => (r.userID, r.inboundID)) w.tables.userInbounds t.userInbounds →
      t = { w.tables with userInbounds := t.userInbounds } → Thins w w' := by
    intro q o t r hq hr hthin htables
    obtain ⟨-, -, -, ht⟩ := answers_db_of_ok hq hr
    obtain ⟨-, htraffic, hch⟩ := answers_db_frame hr
    have huptime : w'.uptime = w.uptime := by rw [hr.1]
    subst ht
    exact ⟨hthin, htables, htraffic, huptime, hch⟩
  have hmark : ∀ (d : DesiredAssignment) (status : SyncStatus) (errMsg : String),
      Thinned (fun r => (r.userID, r.inboundID)) w.tables.userInbounds
        (markAssignmentSynced w.tables d.userID d.inboundID status errMsg).userInbounds := by
    intro d status errMsg
    refine thinned_updateWhere _ (fun r => ?_) _
    rfl
  cases h with
  | dialed =>
      rw [(answers_dial hw).2]
      exact Thins.refl w
  | dialFailed e =>
      rw [(answers_dial hw).2]
      exact Thins.refl w
  | listed ds => exact hdb rfl hw (Thinned.refl _ _) rfl
  | listFailed e =>
      rw [(answers_db_error hw).2]
      exact Thins.refl w
  | removed d rest =>
      rw [(answers_removeUser hw).2]
      exact ⟨Thinned.refl _ _, rfl, rfl, rfl, rfl⟩
  | removeFailed d rest e => cases (answers_removeUser hw).1
  | dropped d rest r => exact hdb rfl hw (thinned_filter _ _ _) rfl
  | desired ds => exact hdb rfl hw (Thinned.refl _ _) rfl
  | desiredFailed e =>
      rw [(answers_db_error hw).2]
      exact Thins.refl w
  | added d rest =>
      obtain ⟨user, rfl⟩ := answers_addUser_ok hw
      exact ⟨Thinned.refl _ _, rfl, rfl, rfl, rfl⟩
  | addFailed d rest e =>
      rw [answers_addUser_error hw]
      exact Thins.refl w
  | marked d rest r => exact hdb rfl hw (hmark d _ _) rfl
  | gaveUp d e r => exact hdb rfl hw (hmark d _ _) rfl

end XrayApi.Worker
