import XrayApi.Store.Entries
import XrayApi.Worker.Parallel

/-!
# Quota and expiry on the nodes

A collector's transaction suspends the active users whose usage reaches their limit, and the expiry
sweep flips those whose expiry has come. Both only write `users`; the accounts follow when the nodes
have run a pass. `Enforcement` are the two statements, in any order and number, and
`Enforcement.Spares` says whom one of them leaves in service. The main result puts the stages
together: after enforcement and passes in any interleaving, a node has the account of an assignment
exactly when the user was active, every statement spared the user and the assignment is no
tombstone.
-/

set_option autoImplicit false

namespace XrayApi.EndToEnd

open Transition Store Xray Relational Worker

/-- A statement that may end the service of users. -/
inductive Enforcement
  | commit (nodeID : ID) (deltas : List TrafficDelta) (collectedAt : Time)
  | sweep (now : Time)

namespace Enforcement

/-- The statement is carried out and succeeds. -/
def Step (w : World) : Enforcement → World → Prop
  | commit n deltas collectedAt, w' =>
    ∃ ids, Answers (.db (.applyTrafficDeltas n deltas collectedAt)) w (.ok ids) w'
  | sweep now, w' => ∃ ids, Answers (.db (.expireDueUsers now)) w (.ok ids) w'

/-- What the statement does to the row of a user. -/
def onUser : Enforcement → User → User
  | commit _ deltas _ => chargeAll deltas
  | sweep now => expireDue now

/-- The deltas that have been charged. -/
def charges : List Enforcement → List TrafficDelta
  | [] => []
  | commit _ deltas _ :: es => deltas ++ charges es
  | sweep _ :: es => charges es

/-- The statement, run after `es`, does not end the service of a user whose row was `u`. -/
def Spares (es : List Enforcement) (u : User) : Enforcement → Prop
  | commit _ deltas _ => ((charges es ++ deltas).foldl charge u).overQuota = false
  | sweep now => u.expiredAt now = false

/-! ## One row -/

theorem charges_append (es es' : List Enforcement) :
    charges (es ++ es') = charges es ++ charges es' := by
  induction es with
  | nil => rfl
  | cons e es ih =>
      cases e with
      | commit n deltas collectedAt =>
          change deltas ++ charges (es ++ es') = deltas ++ charges es ++ charges es'
          rw [ih, List.append_assoc]
      | sweep now => exact ih

/-- The rows agree but for the status. -/
def SameBill (u v : User) : Prop := ∃ status, v = { u with status }

theorem charge_sameBill {u v : User} (h : SameBill u v) (d : TrafficDelta) :
    SameBill (charge u d) (charge v d) := by
  obtain ⟨status, rfl⟩ := h
  refine ⟨status, ?_⟩
  unfold charge
  split_ifs <;> rfl

theorem foldl_charge_sameBill {u v : User} (h : SameBill u v) (deltas : List TrafficDelta) :
    SameBill (deltas.foldl charge u) (deltas.foldl charge v) := by
  induction deltas generalizing u v with
  | nil => exact h
  | cons d deltas ih => exact ih (charge_sameBill h d)

theorem SameBill.status {u v : User} (h : SameBill u v) (status : UserStatus) :
    SameBill u { v with status } := by
  obtain ⟨s, rfl⟩ := h
  exact ⟨status, rfl⟩

theorem SameBill.overQuota {u v : User} (h : SameBill u v) : v.overQuota = u.overQuota := by
  obtain ⟨status, rfl⟩ := h
  rfl

theorem SameBill.expiredAt {u v : User} (h : SameBill u v) (now : Time) :
    v.expiredAt now = u.expiredAt now := by
  obtain ⟨status, rfl⟩ := h
  rfl

theorem charge_status (u : User) (d : TrafficDelta) : (charge u d).status = u.status := by
  unfold charge
  split_ifs <;> rfl

theorem charge_expiresAt (u : User) (d : TrafficDelta) : (charge u d).expiresAt = u.expiresAt := by
  unfold charge
  split_ifs <;> rfl

theorem foldl_charge_status (deltas : List TrafficDelta) (u : User) :
    (deltas.foldl charge u).status = u.status := by
  induction deltas generalizing u with
  | nil => rfl
  | cons d deltas ih => rw [List.foldl_cons, ih, charge_status]

theorem foldl_charge_expiredAt (deltas : List TrafficDelta) (u : User) (now : Time) :
    (deltas.foldl charge u).expiredAt now = u.expiredAt now := by
  induction deltas generalizing u with
  | nil => rfl
  | cons d deltas ih =>
      rw [List.foldl_cons, ih]
      unfold User.expiredAt
      rw [charge_expiresAt]

/-- After the statements the row is the charged one, with another status perhaps. -/
theorem foldl_onUser_sameBill (es : List Enforcement) (u : User) :
    SameBill ((charges es).foldl charge u) (es.foldl (fun u e => e.onUser u) u) := by
  induction es using List.reverseRecOn with
  | nil => exact ⟨u.status, rfl⟩
  | append_singleton es e ih =>
      rw [List.foldl_append, charges_append, List.foldl_append]
      cases e with
      | commit n deltas collectedAt =>
          have hcharged := foldl_charge_sameBill ih deltas
          change SameBill ((deltas ++ []).foldl charge _) (suspendCrossed (deltas.foldl charge _))
          rw [List.append_nil]
          unfold suspendCrossed
          split_ifs with hcross
          · exact hcharged.status _
          · exact hcharged
      | sweep now =>
          change SameBill _ (expireDue now _)
          unfold expireDue
          split_ifs with hdue
          · exact ih.status _
          · exact ih

/-- One more statement leaves the user in service. -/
theorem onUser_active (es : List Enforcement) (u : User) (e : Enforcement) :
    (e.onUser (es.foldl (fun u e => e.onUser u) u)).status = .active ↔
      (es.foldl (fun u e => e.onUser u) u).status = .active ∧ e.Spares es u := by
  have hbill := foldl_onUser_sameBill es u
  set v := es.foldl (fun u e => e.onUser u) u with hv
  cases e with
  | commit n deltas collectedAt =>
      have hquota : (deltas.foldl charge v).overQuota =
          ((charges es ++ deltas).foldl charge u).overQuota := by
        rw [List.foldl_append]
        exact (foldl_charge_sameBill hbill deltas).overQuota
      change (suspendCrossed (deltas.foldl charge v)).status = .active ↔ _ ∧ _ = false
      rw [← hquota, ← foldl_charge_status deltas v]
      unfold suspendCrossed crossedLimit
      cases hq : (deltas.foldl charge v).overQuota with
      | false => simp
      | true =>
          by_cases hact : (deltas.foldl charge v).status = .active
          · simp [hact]
          · simp [hact]
  | sweep now =>
      have hexp : v.expiredAt now = u.expiredAt now :=
        (hbill.expiredAt now).trans (foldl_charge_expiredAt _ u now)
      change (expireDue now v).status = .active ↔ _ ∧ _ = false
      rw [← hexp]
      unfold expireDue dueAt
      cases hx : v.expiredAt now with
      | false => simp
      | true =>
          by_cases hact : v.status = .active
          · simp [hact]
          · simp [hact]

/-- A user is still active exactly when every statement spared the user. -/
theorem active_iff (es : List Enforcement) (u : User) :
    (es.foldl (fun u e => e.onUser u) u).status = .active ↔
      u.status = .active ∧ ∀ es₁ e es₂, es = es₁ ++ e :: es₂ → e.Spares es₁ u := by
  induction es using List.reverseRecOn with
  | nil => simp
  | append_singleton es e ih =>
      rw [List.foldl_append, List.foldl_cons, List.foldl_nil, onUser_active, ih]
      constructor
      · rintro ⟨⟨hact, hall⟩, hlast⟩
        refine ⟨hact, fun es₁ e' es₂ hsplit => ?_⟩
        -- the statement is the last one or one before
        rcases List.eq_nil_or_concat es₂ with rfl | ⟨es₃, e₃, rfl⟩
        · obtain ⟨rfl, hlast'⟩ := List.append_inj' hsplit rfl
          cases hlast'
          exact hlast
        · rw [List.concat_eq_append, ← List.cons_append, ← List.append_assoc] at hsplit
          exact hall es₁ e' es₃ (List.append_inj' hsplit rfl).1
      · rintro ⟨hact, hall⟩
        refine ⟨⟨hact, fun es₁ e' es₂ hsplit => hall es₁ e' (es₂ ++ [e]) ?_⟩, hall es e [] rfl⟩
        rw [hsplit, List.append_assoc]
        rfl

/-! ## The tables -/

/-- Enforcement writes the users row by row, and neither assignments, inbounds nor accounts. -/
theorem Step.frame {w w' : World} {e : Enforcement} (h : Step w e w') :
    w'.tables.users = w.tables.users.map e.onUser ∧ w'.tables.inbounds = w.tables.inbounds ∧
      w'.tables.userInbounds = w.tables.userInbounds ∧ w'.accounts = w.accounts := by
  cases e with
  | commit n deltas collectedAt =>
      obtain ⟨ids, h⟩ := h
      obtain ⟨o, t, hq, -, -, rfl⟩ := answers_db_ok h
      have happly : applyTrafficDeltas w.tables n deltas collectedAt = .ok (o, w'.tables) := hq
      obtain ⟨t₁, hloop, -, -, ht⟩ := applyTrafficDeltas_inv happly
      obtain ⟨hrows, hinbounds⟩ := foldlM_applyDeltaTx_static hloop
      refine ⟨applyTrafficDeltas_users happly, ?_, ?_, (answers_db_frame h).1⟩
      · rw [ht]
        exact hinbounds
      · rw [ht]
        exact hrows
  | sweep now =>
      obtain ⟨ids, h⟩ := h
      obtain ⟨-, -, -, ht⟩ := answers_db_of_ok rfl h
      rw [ht]
      exact ⟨rfl, rfl, rfl, (answers_db_frame h).1⟩

theorem onUser_id (e : Enforcement) (u : User) : (e.onUser u).id = u.id := by
  cases e with
  | commit n deltas collectedAt => exact chargeAll_id deltas u
  | sweep now => exact expireDue_id now u

theorem foldl_onUser_id (es : List Enforcement) (u : User) :
    (es.foldl (fun u e => e.onUser u) u).id = u.id := by
  induction es generalizing u with
  | nil => rfl
  | cons e es ih => rw [List.foldl_cons, ih, onUser_id]

/-- A run of enforcement. -/
theorem frame {w w' : World} {es : List Enforcement} (h : Path Step w es w') :
    w'.tables.users = w.tables.users.map (fun u => es.foldl (fun u e => e.onUser u) u) ∧
      w'.tables.inbounds = w.tables.inbounds ∧ w'.tables.userInbounds = w.tables.userInbounds ∧
      w'.accounts = w.accounts := by
  induction h with
  | nil => exact ⟨List.map_id'' (fun _ => rfl) _ |>.symm, rfl, rfl, rfl⟩
  | snoc _ hstep ih =>
      obtain ⟨husers, hinbounds, hrows, haccounts⟩ := ih
      obtain ⟨husers', hinbounds', hrows', haccounts'⟩ := hstep.frame
      refine ⟨?_, hinbounds'.trans hinbounds, hrows'.trans hrows, haccounts'.trans haccounts⟩
      rw [husers', husers, List.map_map]
      refine List.map_congr_left fun u _ => ?_
      rw [List.foldl_append]
      rfl

section Targets

variable {w w' : World} {es : List Enforcement} {a : Target} {n : ID} {k : Key}

/-- The assignment with the row of the user as enforcement leaves it. -/
def after (es : List Enforcement) (a : Target) : Target :=
  { a with user := es.foldl (fun u e => e.onUser u) a.user }

/-- What a node needs to know of a user is not touched. -/
theorem accountFor_after (es : List Enforcement) (a : Target) :
    (es.foldl (fun u e => e.onUser u) a.user).email = a.user.email ∧
      accountFor (after es a).desired = accountFor a.desired := by
  have hcharge : ∀ (ds : List TrafficDelta) (u : User), (ds.foldl charge u).email = u.email ∧
      (ds.foldl charge u).uuid = u.uuid ∧
      (ds.foldl charge u).trojanPassword = u.trojanPassword := by
    intro ds
    induction ds with
    | nil => exact fun u => ⟨rfl, rfl, rfl⟩
    | cons d ds ih =>
        intro u
        obtain ⟨h₁, h₂, h₃⟩ := ih (charge u d)
        rw [List.foldl_cons, h₁, h₂, h₃]
        unfold charge
        split_ifs <;> exact ⟨rfl, rfl, rfl⟩
  obtain ⟨status, hbill⟩ := foldl_onUser_sameBill es a.user
  obtain ⟨hemail, huuid, hpass⟩ := hcharge (charges es) a.user
  unfold after accountFor Target.desired desiredRow
  simp only [hbill, hemail, huuid, hpass, and_self]

theorem owns_after (h : Path Step w es w') (ha : a.Owns w.tables n k) :
    (after es a).Owns w'.tables n k := by
  obtain ⟨husers, hinbounds, hrows, -⟩ := frame h
  refine ⟨?_, ⟨?_, ?_⟩, ha.node, ?_⟩
  · rw [hrows]
    exact ha.row
  · rw [hinbounds]
    exact ha.known.inbound
  · have hid : (after es a).row = a.row := rfl
    rw [husers, hid, lookup_map fun u _ => foldl_onUser_id es u, ha.known.user]
    rfl
  · have hplace := ha.place
    rw [← (accountFor_after es a).1] at hplace
    exact hplace

/-- The accounts to push after enforcement were to be pushed before. -/
theorem desired_of_after (h : Path Step w es w') {d : DesiredAssignment}
    (hd : d ∈ desiredForNode w'.tables n) :
    ∃ d₀ ∈ desiredForNode w.tables n, accountFor d = accountFor d₀ := by
  obtain ⟨c, hc, hdue, rfl⟩ := mem_desiredForNode.1 hd
  obtain ⟨husers, hinbounds, hrows, -⟩ := frame h
  have hrow := hc.row
  rw [hrows] at hrow
  have hui : assignment w.tables c.row.userID c.row.inboundID = some c.row :=
    w.db.valid.assignment_eq_some.2 ⟨hrow, rfl, rfl⟩
  obtain ⟨a, harow, ha, -, -⟩ := exists_target w hui
  have hinbound : a.inbound = c.inbound := by
    have hci := hc.known.inbound
    rw [hinbounds, ← harow, ha.inbound] at hci
    exact Option.some.inj hci
  have howns : a.Owns w.tables n (a.inbound.tag, a.user.email) :=
    ⟨harow ▸ hrow, ha, by rw [hinbound]; exact hc.node, rfl⟩
  have huser : c.user = (after es a).user := by
    have hcu := hc.known.user
    have hau := (owns_after h howns).known.user
    have hid : (after es a).row.userID = c.row.userID := congrArg UserInbound.userID harow
    rw [hid, hcu] at hau
    exact Option.some.inj hau
  have hcafter : c = after es a := by
    obtain ⟨cr, ci, cu⟩ := c
    cases harow
    cases hinbound
    cases huser
    rfl
  subst hcafter
  refine ⟨a.desired, mem_desiredForNode.2 ⟨a, howns, fun hadue => hdue ?_, rfl⟩,
    (accountFor_after es a).2⟩
  -- a user who was inactive is inactive still
  refine hadue.imp id fun hact hafter => hact ?_
  exact ((active_iff es a.user).1 hafter).1

end Targets

end Enforcement

/-- Quota and expiry are enforced on every node: after any run of collectors' transactions and
expiry sweeps and any interleaving of complete passes, a node that ran has the account of an
assignment exactly when the user was active, every statement spared the user and the assignment is
no tombstone. -/
theorem enforced_on_nodes {w w' : World} {es : List Enforcement} {ls : List FleetAct} {Q : Fleet}
    {a : Target} {n : ID} {k : Key}
    (hbuild : ∀ n, ∀ d ∈ desiredForNode w.tables n, ∃ user, buildUser (accountFor d) = .ok user)
    (hes : Path Enforcement.Step w es w')
    (h : Path (Pool.Step Answers Fleet.passes) (Fleet.idle w') ls Q)
    (hidle : ∀ n, ∃ r, Q.prog (.actor n) = .ret r)
    (ha : a.Owns w.tables n k) (hn : ∃ p, Act.start (.actor n) p ∈ ls) :
    Q.world.accounts n k ≠ none ↔
      a.row.syncStatus ≠ .removing ∧ a.user.status = .active ∧
        ∀ es₁ e es₂, es = es₁ ++ e :: es₂ → e.Spares es₁ a.user := by
  have hbuild' : ∀ n, ∀ d ∈ desiredForNode w'.tables n,
      ∃ user, buildUser (accountFor d) = .ok user := by
    intro m d hd
    obtain ⟨d₀, hd₀, heq⟩ := Enforcement.desired_of_after hes hd
    rw [heq]
    exact hbuild m d₀ hd₀
  have hsettled := ((fleet_settled hbuild' h hidle).2 n).1 hn
  have ha' := Enforcement.owns_after hes ha
  rw [hsettled.accounts, settle_accounts, ← Enforcement.active_iff]
  by_cases hdue : (Enforcement.after es a).Due
  · rw [settleAccounts_of_due ha' hdue]
    refine iff_of_false (fun hne => hne rfl) ?_
    rintro ⟨hlive, hact⟩
    exact hdue.elim hlive fun hno => hno hact
  · obtain ⟨user, hb⟩ :=
      hbuild' n _ (mem_desiredForNode.2 ⟨_, ha'.key_desired.symm ▸ ha', hdue, rfl⟩)
    rw [settleAccounts_of_stays w'.db.valid ha' hdue, hb]
    refine iff_of_true (Option.some_ne_none _) ?_
    unfold Target.Due at hdue
    push Not at hdue
    exact hdue

/-- A user with a limit of ten bytes on one inbound. -/
def limited : Target := ⟨⟨"u1", "i1", .applied, ""⟩, .plain "i1" "n1" "in1" .vless,
  { User.plain "u1" "a@example.com" with dataLimitBytes := some 10 }⟩

/-- The user is served. -/
def serving : World :=
  World.setAccount (.still ⟨.assigned limited.inbound limited.user .applied,
    Tables.assigned_valid _ _ _ rfl⟩) "n1" ("in1", "a@example.com")
    (some ⟨"a@example.com", .vless "u1" ""⟩)

/-- A collector has charged the user with all of it. -/
def usedUp : World := (exec (.db (.applyTrafficDeltas "n1" [⟨"u1", 6, 4⟩] 0)) serving).2

/-- One pass on the node. -/
def onePass : Schedule :=
  [.start (.actor "n1") (reconcile "n1").prog, .fire (.actor "n1"), .fire (.actor "n1"),
    .fire (.actor "n1"), .fire (.actor "n1")]

/-- The user is cut off by the pass after the charge. -/
theorem enforced_on_nodes_limited :
    serving.accounts "n1" ("in1", "a@example.com") ≠ none ∧
      (Pool.play exec onePass (Fleet.idle usedUp)).2.world.accounts "n1"
        ("in1", "a@example.com") = none := by
  have hallowed : Pool.Allowed Fleet.passes onePass := by
    intro i p h
    simp only [onePass, List.mem_cons, List.not_mem_nil, or_false, reduceCtorEq,
      Pool.Move.start.injEq] at h
    obtain ⟨rfl, rfl⟩ := h
    rfl
  have hpath := Pool.play_path_of_exec answers_exec hallowed (Fleet.idle usedUp)
  have hcommit : Path Enforcement.Step serving [.commit "n1" [⟨"u1", 6, 4⟩] 0] usedUp :=
    Path.single ⟨["u1"], answers_exec (.db (.applyTrafficDeltas "n1" [⟨"u1", 6, 4⟩] 0)) serving⟩
  have hmem : ∀ n, Thread.actor n ∈
      (Pool.play exec onePass (Fleet.idle usedUp)).1.map Act.thread → n ∈ ["n1"] := by
    intro n hn
    have hthreads : (Pool.play exec onePass (Fleet.idle usedUp)).1.map Act.thread =
        List.replicate 5 (.actor "n1") := rfl
    rw [hthreads] at hn
    simpa using hn
  have hidle := Fleet.idle_of_threads hpath hmem fun n hn => by
    obtain rfl := List.mem_singleton.1 hn
    exact ⟨_, rfl⟩
  have hbuild : ∀ n, ∀ d ∈ desiredForNode serving.tables n,
      ∃ user, buildUser (accountFor d) = .ok user := by
    intro n d hd
    obtain ⟨a, ha, -, rfl⟩ := mem_desiredForNode.1 hd
    have hproto : a.inbound.protocol = .vless := by
      rw [List.mem_singleton.1 (mem_of_lookup ha.known.inbound)]
      rfl
    unfold accountFor Target.desired desiredRow buildUser
    rw [hproto]
    exact ⟨_, rfl⟩
  have hiff := enforced_on_nodes (a := limited) (n := "n1") (k := ("in1", "a@example.com")) hbuild
    hcommit hpath hidle ⟨List.mem_singleton.2 rfl, ⟨rfl, rfl⟩, rfl, rfl⟩ ⟨_, List.mem_cons_self⟩
  refine ⟨by decide, ?_⟩
  by_contra hne
  -- the limit is reached, so the commit does not spare the user
  have hspared := (hiff.1 hne).2.2 [] _ [] rfl
  revert hspared
  unfold Enforcement.Spares
  decide

end XrayApi.EndToEnd
