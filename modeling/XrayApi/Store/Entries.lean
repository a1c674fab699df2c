import XrayApi.Store.Assignments
import XrayApi.Store.Call

/-!
# A user's entries on a node

The reconciler of a node works on two lists, `desiredForNode` and `removalsForNode`. `Changed` says
that the entries of one user in these lists differ between two states of the tables. For each write
of the user service the file says whose entries it can change, and on which nodes: a status changes
the entries of assignments that are no tombstones (`changed_of_map`), an assignment set those of the
inbounds it lists and of the rows it finds (`changed_setAssignmentsForUserTx`), a new user its own
(`changed_createWithAssignmentsTx`).
-/

set_option autoImplicit false

namespace XrayApi.Store

open XrayApi.Relational

variable {t t' : Tables} {userID nodeID : ID}

/-- The entries of the user in the lists of the node's reconciler differ. -/
def Changed (userID nodeID : ID) (t t' : Tables) : Prop :=
  ∃ d : DesiredAssignment, d.userID = userID ∧
    (¬ (d ∈ desiredForNode t nodeID ↔ d ∈ desiredForNode t' nodeID) ∨
      ¬ (d ∈ removalsForNode t nodeID ↔ d ∈ removalsForNode t' nodeID))

/-- The user has an assignment on the node that is no tombstone. -/
def ServedOn (t : Tables) (userID nodeID : ID) : Prop :=
  ∃ inboundID row, assignment t userID inboundID = some row ∧ row.syncStatus ≠ .removing ∧
    ∃ i ∈ t.inbounds, i.id = inboundID ∧ i.nodeID = nodeID

/-- An assignment set for the user reaches the node: by a listed inbound or by a row. -/
def Affected (t : Tables) (userID : ID) (inboundIDs : List ID) (nodeID : ID) : Prop :=
  ∃ i ∈ t.inbounds, i.nodeID = nodeID ∧
    (i.id ∈ inboundIDs ∨ ∃ row, assignment t userID i.id = some row)

/-! ## Joined rows -/

section Joined

variable {cond : UserInbound → Inbound → User → Bool} {d : DesiredAssignment}

/-- A joined row by the keys of its parts. -/
theorem Tables.Valid.mem_queryDesired_iff (ht : t.Valid) :
    d ∈ queryDesired t cond ↔
      ∃ ui i u, assignment t d.userID d.inboundID = some ui ∧
        lookup Inbound.id d.inboundID t.inbounds = some i ∧
        lookup User.id d.userID t.users = some u ∧ cond ui i u = true ∧ d = desiredRow ui i u := by
  rw [mem_queryDesired]
  constructor
  · rintro ⟨ui, hui, i, u, hi, hu, hc, rfl⟩
    exact ⟨ui, i, u, ht.assignment_eq_some.2 ⟨hui, rfl, rfl⟩, hi, hu, hc, rfl⟩
  · rintro ⟨ui, i, u, hui, hi, hu, hc, hd⟩
    obtain ⟨hmem, huid, hiid⟩ := ht.assignment_eq_some.1 hui
    rw [← hiid] at hi
    rw [← huid] at hu
    exact ⟨ui, hmem, i, u, hi, hu, hc, hd⟩

/-- Whether a row is in a join depends on the three rows with its keys. -/
theorem mem_queryDesired_congr (ht : t.Valid) (ht' : t'.Valid)
    (hrow : assignment t' d.userID d.inboundID = assignment t d.userID d.inboundID)
    (hinbounds : t'.inbounds = t.inbounds)
    (huser : lookup User.id d.userID t'.users = lookup User.id d.userID t.users) :
    d ∈ queryDesired t cond ↔ d ∈ queryDesired t' cond := by
  rw [ht.mem_queryDesired_iff, ht'.mem_queryDesired_iff, hrow, hinbounds, huser]

theorem not_changed_of_congr (ht : t.Valid) (ht' : t'.Valid)
    (hrow : ∀ inboundID, assignment t' userID inboundID = assignment t userID inboundID)
    (hinbounds : t'.inbounds = t.inbounds)
    (huser : lookup User.id userID t'.users = lookup User.id userID t.users) :
    ¬ Changed userID nodeID t t' := by
  rintro ⟨d, rfl, h | h⟩
  · exact h (mem_queryDesired_congr ht ht' (hrow _) hinbounds huser)
  · exact h (mem_queryDesired_congr ht ht' (hrow _) hinbounds huser)

/-- An entry that changed is in one of the lists, before or after. -/
theorem Changed.exists_entry (h : Changed userID nodeID t t') (ht : t.Valid) (ht' : t'.Valid) :
    ∃ inboundID s, (s = t ∨ s = t') ∧ ∃ ui i u, assignment s userID inboundID = some ui ∧
      lookup Inbound.id inboundID s.inbounds = some i ∧ lookup User.id userID s.users = some u ∧
      i.nodeID = nodeID := by
  obtain ⟨d, rfl, h⟩ := h
  -- membership in one of the four lists is enough
  have hlist : ∀ s : Tables, s.Valid → ∀ {p : UserInbound → Inbound → User → Prop}
      [∀ ui i u, Decidable (p ui i u)], (∀ {ui i u}, p ui i u → i.nodeID = nodeID) →
      d ∈ queryDesired s (fun ui i u => decide (p ui i u)) →
      ∃ ui i u, assignment s d.userID d.inboundID = some ui ∧
        lookup Inbound.id d.inboundID s.inbounds = some i ∧
        lookup User.id d.userID s.users = some u ∧ i.nodeID = nodeID := by
    intro s hs p _ hp hd
    obtain ⟨ui, i, u, hui, hi, hu, hc, -⟩ := hs.mem_queryDesired_iff.1 hd
    exact ⟨ui, i, u, hui, hi, hu, hp (of_decide_eq_true hc)⟩
  refine ⟨d.inboundID, ?_⟩
  obtain h | h := h
  · by_cases hd : d ∈ desiredForNode t nodeID
    · exact ⟨t, Or.inl rfl, hlist t ht And.left hd⟩
    · have hd' : d ∈ desiredForNode t' nodeID := by tauto
      exact ⟨t', Or.inr rfl, hlist t' ht' And.left hd'⟩
  · by_cases hd : d ∈ removalsForNode t nodeID
    · exact ⟨t, Or.inl rfl, hlist t ht And.left hd⟩
    · have hd' : d ∈ removalsForNode t' nodeID := by tauto
      exact ⟨t', Or.inr rfl, hlist t' ht' And.left hd'⟩

end Joined

/-! ## Writes of users -/

/-- A change of a user row that leaves alone what the entries show of it. -/
structure KeepsIdentity (f : User → User) : Prop where
  id : ∀ r, (f r).id = r.id
  email : ∀ r, (f r).email = r.email
  uuid : ∀ r, (f r).uuid = r.uuid
  trojanPassword : ∀ r, (f r).trojanPassword = r.trojanPassword

theorem KeepsIdentity.desiredRow_eq {f : User → User} (hf : KeepsIdentity f) (ui : UserInbound)
    (i : Inbound) (u : User) : desiredRow ui i (f u) = desiredRow ui i u := by
  simp only [desiredRow, hf.email, hf.uuid, hf.trojanPassword]

section Users

variable {f : User → User}

/-- A join after such a write, for rows whose condition does not notice it. -/
theorem mem_queryDesired_map (hf : KeepsIdentity f) (ht : t.Valid) (ht' : t'.Valid)
    (husers : t'.users = t.users.map f) (hrows : t'.userInbounds = t.userInbounds)
    (hinbounds : t'.inbounds = t.inbounds) {cond : UserInbound → Inbound → User → Bool}
    {d : DesiredAssignment}
    (hcond : ∀ ui i u, assignment t d.userID d.inboundID = some ui →
      lookup Inbound.id d.inboundID t.inbounds = some i →
      lookup User.id d.userID t.users = some u → cond ui i (f u) = cond ui i u) :
    d ∈ queryDesired t cond ↔ d ∈ queryDesired t' cond := by
  rw [ht.mem_queryDesired_iff, ht'.mem_queryDesired_iff, assignment_congr hrows, hinbounds, husers,
    lookup_map fun r _ => hf.id r]
  constructor
  · rintro ⟨ui, i, u, hui, hi, hu, hc, hd⟩
    refine ⟨ui, i, f u, hui, hi, by rw [hu]; rfl, ?_, ?_⟩
    · rw [hcond ui i u hui hi hu]
      exact hc
    · rw [hf.desiredRow_eq]
      exact hd
  · rintro ⟨ui, i, u', hui, hi, hu', hc, hd⟩
    obtain ⟨u, hu, rfl⟩ := Option.map_eq_some_iff.1 hu'
    rw [hcond ui i u hui hi hu] at hc
    rw [hf.desiredRow_eq] at hd
    exact ⟨ui, i, u, hui, hi, hu, hc, hd⟩

/-- A write of users changes entries only by making a user active or inactive, and only those of
assignments that are no tombstones. -/
theorem changed_of_map (hf : KeepsIdentity f) (ht : t.Valid) (ht' : t'.Valid)
    (husers : t'.users = t.users.map f) (hrows : t'.userInbounds = t.userInbounds)
    (hinbounds : t'.inbounds = t.inbounds) (h : Changed userID nodeID t t') :
    (∃ u, lookup User.id userID t.users = some u ∧ (f u).status ≠ u.status) ∧
      ServedOn t' userID nodeID := by
  by_contra hnone
  -- no live row of the node belongs to a user whose status changes
  have hkeep : ∀ inboundID ui i u, assignment t userID inboundID = some ui →
      lookup Inbound.id inboundID t.inbounds = some i → lookup User.id userID t.users = some u →
      i.nodeID = nodeID → ui.syncStatus ≠ .removing → (f u).status = u.status := by
    intro inboundID ui i u hui hi hu hn hs
    by_contra hst
    refine hnone ⟨⟨u, hu, hst⟩, inboundID, ui, ?_, hs, i, ?_, key_of_lookup hi, hn⟩
    · rw [assignment_congr hrows]
      exact hui
    · rw [hinbounds]
      exact mem_of_lookup hi
  obtain ⟨d, rfl, h⟩ := h
  refine h.elim (fun h => h ?_) (fun h => h ?_)
  · refine mem_queryDesired_map hf ht ht' husers hrows hinbounds fun ui i u hui hi hu => ?_
    refine decide_eq_decide.2 (and_congr_right fun hn => ?_)
    by_cases hs : ui.syncStatus = .removing
    · simp [hs]
    · rw [hkeep _ ui i u hui hi hu hn hs]
  · refine mem_queryDesired_map hf ht ht' husers hrows hinbounds fun ui i u hui hi hu => ?_
    refine decide_eq_decide.2 (and_congr_right fun hn => ?_)
    by_cases hs : ui.syncStatus = .removing
    · simp [hs]
    · rw [hkeep _ ui i u hui hi hu hn hs]

theorem KeepsIdentity.onRow {id : ID} (hf : KeepsIdentity f) : KeepsIdentity (onRow id f) := by
  constructor <;> intro r <;> unfold Store.onRow <;> split_ifs
  all_goals first | rfl | skip
  · exact hf.id r
  · exact hf.email r
  · exact hf.uuid r
  · exact hf.trojanPassword r

theorem keepsIdentity_persist (u : User) : KeepsIdentity (persist u) :=
  ⟨fun _ => rfl, fun _ => rfl, fun _ => rfl, fun _ => rfl⟩

theorem keepsIdentity_setStatus (status : UserStatus) : KeepsIdentity (setStatus status) :=
  ⟨fun _ => rfl, fun _ => rfl, fun _ => rfl, fun _ => rfl⟩

theorem keepsIdentity_zeroUsage : KeepsIdentity zeroUsage :=
  ⟨fun _ => rfl, fun _ => rfl, fun _ => rfl, fun _ => rfl⟩

/-- A status set on the rows with `p`. -/
theorem keepsIdentity_statusIf (p : User → Bool) (status : UserStatus) :
    KeepsIdentity fun r => if p r then { r with status := status } else r := by
  constructor <;> intro r <;> split_ifs <;> rfl

theorem keepsIdentity_charge (d : TrafficDelta) : KeepsIdentity fun r => charge r d := by
  constructor <;> intro r <;> unfold charge <;> split_ifs <;> rfl

theorem KeepsIdentity.comp {g : User → User} (hg : KeepsIdentity g) (hf : KeepsIdentity f) :
    KeepsIdentity (g ∘ f) where
  id r := (hg.id _).trans (hf.id r)
  email r := (hg.email _).trans (hf.email r)
  uuid r := (hg.uuid _).trans (hf.uuid r)
  trojanPassword r := (hg.trojanPassword _).trans (hf.trojanPassword r)

/-- A row after the deltas of a cycle, before the suspension. -/
theorem keepsIdentity_foldl_charge (deltas : List TrafficDelta) :
    KeepsIdentity fun r => deltas.foldl charge r := by
  induction deltas with
  | nil => exact ⟨fun _ => rfl, fun _ => rfl, fun _ => rfl, fun _ => rfl⟩
  | cons d deltas ih => exact ih.comp (keepsIdentity_charge d)

theorem status_foldl_charge (deltas : List TrafficDelta) (r : User) :
    (deltas.foldl charge r).status = r.status := by
  induction deltas generalizing r with
  | nil => rfl
  | cons d deltas ih =>
      rw [List.foldl_cons, ih, charge]
      split_ifs <;> rfl

/-- The calls that write existing users and nothing a join reads. -/
def StoreCall.WritesUsers : StoreCall → Prop
  | .updateUser _ => True
  | .setUserStatus _ _ => True
  | .resetTraffic _ => True
  | .expireDueUsers _ => True
  | .applyTrafficDeltas _ _ _ => True
  | _ => False

/-- The users whose status such a call may change, given its answer. -/
def StoreCall.restated : (q : StoreCall) → q.Out → List ID
  | .updateUser u, _ => [u.id]
  | .setUserStatus id _, _ => [id]
  | .expireDueUsers _, ids => ids
  | .applyTrafficDeltas _ _ _, ids => ids
  | _, _ => []

/-- Such a call acts row by row and keeps the status of the other users. -/
structure StoreCall.Restates (q : StoreCall) (o : q.Out) (f : User → User) (t t' : Tables) :
    Prop where
  identity : KeepsIdentity f
  users : t'.users = t.users.map f
  rows : t'.userInbounds = t.userInbounds
  inbounds : t'.inbounds = t.inbounds
  status : ∀ u ∈ t.users, (f u).status ≠ u.status → u.id ∈ q.restated o

/-- A function on one row changes the status of that row only. -/
theorem eq_of_onRow_ne {id : ID} {u : User} (h : (onRow id f u).status ≠ u.status) : u.id = id := by
  by_contra hne
  rw [onRow_of_ne hne] at h
  exact h rfl

theorem foldlM_applyDeltaTx_static {nodeID : ID} {collectedAt : Time} {deltas : List TrafficDelta}
    (h : deltas.foldlM (applyDeltaTx nodeID collectedAt) t = .ok t') :
    t'.userInbounds = t.userInbounds ∧ t'.inbounds = t.inbounds := by
  refine foldlM_invariant (I := fun s => s.userInbounds = t.userInbounds ∧
    s.inbounds = t.inbounds) (fun s d s' hs hd => ?_) deltas ⟨rfl, rfl⟩ h
  obtain ⟨-, -, rfl⟩ | ⟨-, -, -, -, rfl⟩ := applyDeltaTx_eq_ok hd
  · exact hs
  · exact hs

theorem StoreCall.WritesUsers.restates {q : StoreCall} (hq : q.WritesUsers) {o : q.Out}
    (h : q.apply t = .ok (o, t')) : ∃ f, q.Restates o f t t' := by
  cases q with
  | updateUser u =>
      have h := StoreCall.wrote_eq_ok.1 h
      refine ⟨_, (keepsIdentity_persist u).onRow, updateUser_users h, ?_, ?_, fun v _ hv => ?_⟩
      · obtain ⟨-, -, -, rfl⟩ := updateUser_eq_ok h
        rfl
      · obtain ⟨-, -, -, rfl⟩ := updateUser_eq_ok h
        rfl
      · exact List.mem_singleton.2 (eq_of_onRow_ne hv)
  | setUserStatus id status =>
      have h := StoreCall.wrote_eq_ok.1 h
      refine ⟨_, (keepsIdentity_setStatus status).onRow, setUserStatus_users h, ?_, ?_,
        fun v _ hv => ?_⟩
      · cases (requireUser_eq_ok.1 h).2
        rfl
      · cases (requireUser_eq_ok.1 h).2
        rfl
      · exact List.mem_singleton.2 (eq_of_onRow_ne hv)
  | resetTraffic id =>
      have h := StoreCall.wrote_eq_ok.1 h
      refine ⟨_, keepsIdentity_zeroUsage.onRow, resetTraffic_users h, ?_, ?_, fun v _ hv => ?_⟩
      · cases (requireUser_eq_ok.1 h).2
        rfl
      · cases (requireUser_eq_ok.1 h).2
        rfl
      · refine (hv ?_).elim
        unfold Store.onRow
        split_ifs <;> rfl
  | expireDueUsers now =>
      cases h
      refine ⟨_, keepsIdentity_statusIf (dueAt now) .expired, rfl, rfl, rfl, fun v hv hst => ?_⟩
      have hdue : dueAt now v = true := by
        by_contra hnot
        rw [if_neg hnot] at hst
        exact hst rfl
      exact List.mem_map_of_mem (List.mem_filter.2 ⟨hv, hdue⟩)
  | applyTrafficDeltas nodeID deltas collectedAt =>
      have husers := applyTrafficDeltas_users h
      obtain ⟨t₁, hloop, -, hids, rfl⟩ := applyTrafficDeltas_inv h
      obtain ⟨hrows, hinbounds⟩ := foldlM_applyDeltaTx_static hloop
      refine ⟨_, (keepsIdentity_statusIf crossedLimit .suspended).comp
        (keepsIdentity_foldl_charge deltas), husers, hrows, hinbounds, fun v hv hst => ?_⟩
      have hcrossed : crossedLimit (deltas.foldl charge v) = true := by
        by_contra hnot
        refine hst ?_
        simp only [Function.comp_apply, if_neg hnot, status_foldl_charge]
      have hmem : deltas.foldl charge v ∈ t₁.users := by
        rw [foldlM_applyDeltaTx_users hloop]
        exact List.mem_map_of_mem (f := fun r => deltas.foldl charge r) hv
      change v.id ∈ o
      rw [hids, ← foldl_charge_id deltas v]
      exact List.mem_map_of_mem (List.mem_filter.2 ⟨hmem, hcrossed⟩)
  | _ => exact hq.elim

/-- Whose entries such a call changes. -/
theorem StoreCall.WritesUsers.changed {q : StoreCall} (hq : q.WritesUsers) {o : q.Out}
    (ht : t.Valid) (ht' : t'.Valid) (h : q.apply t = .ok (o, t'))
    (hch : Changed userID nodeID t t') : userID ∈ q.restated o ∧ ServedOn t' userID nodeID := by
  obtain ⟨f, hf⟩ := hq.restates h
  obtain ⟨⟨u, hu, hst⟩, hserved⟩ :=
    changed_of_map hf.identity ht ht' hf.users hf.rows hf.inbounds hch
  refine ⟨?_, hserved⟩
  have hid := hf.status u (mem_of_lookup hu) hst
  rwa [key_of_lookup hu] at hid

end Users

/-! ## Writes of assignments -/

/-- An assignment set changes entries of its user, on the nodes it reaches. -/
theorem changed_setAssignmentsForUserTx (ht : t.Valid) (ht' : t'.Valid) {id : ID} {ids : Slice ID}
    (h : setAssignmentsForUserTx t id ids = .ok t') (hch : Changed userID nodeID t t') :
    userID = id ∧ Affected t id ids.elems nodeID := by
  obtain ⟨husers, hinbounds, -, -⟩ := setAssignmentsForUserTx_static h
  have hrow : ∀ i, assignment t' userID i = _ := fun i => assignment_setAssignmentsForUserTx h
  obtain rfl : userID = id := by
    by_contra hne
    refine not_changed_of_congr ht ht' (fun i => ?_) hinbounds (by rw [husers]) hch
    rw [hrow, if_neg hne]
  refine ⟨rfl, ?_⟩
  obtain ⟨inboundID, s, hs, ui, i, u, hui, hi, -, hn⟩ := hch.exists_entry ht ht'
  have hsi : s.inbounds = t.inbounds := by
    obtain rfl | rfl := hs
    · rfl
    · exact hinbounds
  rw [hsi] at hi
  obtain rfl := key_of_lookup hi
  refine ⟨i, mem_of_lookup hi, hn, ?_⟩
  by_cases hmem : i.id ∈ ids.elems
  · exact Or.inl hmem
  · -- the set does not insert it, so the row was there before
    refine Or.inr ?_
    obtain rfl | rfl := hs
    · exact ⟨ui, hui⟩
    · rw [hrow, if_pos rfl, if_neg hmem] at hui
      split_ifs at hui with hex
      · obtain ⟨row, hold, -⟩ := Option.map_eq_some_iff.1 hui
        exact ⟨row, hold⟩
      · exact ⟨ui, hui⟩

/-- Without a user there is no assignment. -/
theorem Tables.Valid.assignment_eq_none (ht : t.Valid) {inboundID : ID}
    (h : userID ∉ t.users.map User.id) : assignment t userID inboundID = none := by
  by_contra hne
  obtain ⟨row, hrow⟩ := Option.ne_none_iff_exists'.1 hne
  obtain ⟨hmem, rfl, -⟩ := ht.assignment_eq_some.1 hrow
  exact h (ht.userInbounds_user row hmem)

/-- A new user changes its own entries, which are none of a tombstone. -/
theorem changed_createWithAssignmentsTx (ht : t.Valid) (ht' : t'.Valid) {u : User} {ids : List ID}
    (h : createWithAssignmentsTx t u ids = .ok t') (hch : Changed userID nodeID t t') :
    userID = u.id ∧ ServedOn t' userID nodeID := by
  obtain ⟨hconf, -, husers⟩ := createWithAssignmentsTx_eq_ok h
  obtain ⟨hinbounds, -⟩ := createWithAssignmentsTx_static h
  have hrow : ∀ i, assignment t' userID i = _ := fun i => assignment_createWithAssignmentsTx h
  obtain rfl : userID = u.id := by
    by_contra hne
    refine not_changed_of_congr ht ht' (fun i => ?_) hinbounds ?_ hch
    · rw [hrow, if_neg fun h => hne h.1]
    · have hid : (zeroUsage u).id ≠ userID := Ne.symm hne
      rw [husers, lookup_append_singleton, if_neg hid, Option.or_none]
  refine ⟨rfl, ?_⟩
  have hnew : u.id ∉ t.users.map User.id := by
    intro hmem
    rw [insertConflict, if_pos hmem] at hconf
    cases hconf
  obtain ⟨inboundID, s, hs, ui, i, v, hui, hi, hv, hn⟩ := hch.exists_entry ht ht'
  obtain rfl | rfl := hs
  · rw [lookup_eq_none_iff.2 hnew] at hv
    cases hv
  · refine ⟨inboundID, ui, hui, ?_, i, mem_of_lookup hi, key_of_lookup hi, hn⟩
    rw [hrow, ht.assignment_eq_none hnew] at hui
    split_ifs at hui with hids
    cases hui
    exact nofun

end XrayApi.Store
