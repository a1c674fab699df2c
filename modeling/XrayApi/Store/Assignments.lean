import XrayApi.Store.Rows

/-!
# Assignment rows

`assignment` is the row of `user_inbounds` for a user and an inbound. The lemmas say what the writes
do to it, and that the joins of the reconciler have one row for it: by the keys of `users`,
`inbounds` and `user_inbounds`, two joined rows with the same node, tag and email come from the same
assignment.
-/

set_option autoImplicit false

namespace XrayApi.Store

open XrayApi.Relational

variable {t t' : Tables} {userID inboundID : ID}

/-- The row of an assignment. -/
def assignment (t : Tables) (userID inboundID : ID) : Option UserInbound :=
  lookup (fun r => (r.userID, r.inboundID)) (userID, inboundID) t.userInbounds

theorem assignment_congr (h : t'.userInbounds = t.userInbounds) :
    assignment t' userID inboundID = assignment t userID inboundID := by
  unfold assignment
  rw [h]

theorem Tables.Valid.assignment_eq_some (ht : t.Valid) {ui : UserInbound} :
    assignment t userID inboundID = some ui ↔
      ui ∈ t.userInbounds ∧ ui.userID = userID ∧ ui.inboundID = inboundID := by
  unfold assignment
  rw [lookup_eq_some_iff ht.userInbounds_key, Prod.mk.injEq]

/-! ## The writes -/

theorem assignment_deleteAssignment (a b : ID) :
    assignment (deleteAssignment t a b) userID inboundID =
      if a = userID ∧ b = inboundID then none else assignment t userID inboundID := by
  unfold assignment deleteAssignment
  split_ifs with h
  · obtain ⟨rfl, rfl⟩ := h
    refine lookup_filter_of_drop fun r _ hr => decide_eq_false ?_
    rw [Prod.mk.injEq] at hr
    exact not_not.2 hr
  · refine lookup_filter_of_keep fun r _ hr => decide_eq_true ?_
    rw [Prod.mk.injEq] at hr
    rintro ⟨rfl, rfl⟩
    exact h hr

/-- An update of `user_inbounds` that keeps the key shows in the assignment's row. -/
theorem assignment_of_updateWhere {p : UserInbound → Bool} {f : UserInbound → UserInbound}
    (h : t'.userInbounds = updateWhere p f t.userInbounds)
    (hf : ∀ r, (f r).userID = r.userID ∧ (f r).inboundID = r.inboundID) :
    assignment t' userID inboundID =
      (assignment t userID inboundID).map fun r => if p r then f r else r := by
  unfold assignment
  rw [h]
  exact lookup_updateWhere p f fun r _ => Prod.ext (hf r).1 (hf r).2

theorem assignment_markAssignmentSynced (a b : ID) (status : SyncStatus) (errMsg : String) :
    assignment (markAssignmentSynced t a b status errMsg) userID inboundID =
      if a = userID ∧ b = inboundID then
        (assignment t userID inboundID).map fun r =>
          { r with syncStatus := status, lastError := errMsg }
      else assignment t userID inboundID := by
  have hrows : assignment (markAssignmentSynced t a b status errMsg) userID inboundID = _ :=
    assignment_of_updateWhere rfl fun _ => ⟨rfl, rfl⟩
  rw [hrows]
  cases hl : assignment t userID inboundID with
  | none => simp
  | some r =>
      have hr := key_of_lookup hl
      rw [Prod.mk.injEq] at hr
      obtain ⟨rfl, rfl⟩ := hr
      simp only [Option.map_some, decide_eq_true_eq, eq_comm (a := a), eq_comm (a := b)]
      split_ifs with h
      · rfl
      · rfl

theorem assignment_addAssignmentTx {a b : ID} (h : addAssignmentTx t a b = .ok t') :
    assignment t' userID inboundID =
      if userID = a ∧ inboundID = b then
        some ((assignment t userID inboundID).getD ⟨a, b, .pending, ""⟩)
      else assignment t userID inboundID := by
  obtain ⟨hmem, rfl⟩ | ⟨hmem, -, -, rfl⟩ := addAssignmentTx_eq_ok h
  · split_ifs with hab
    · obtain ⟨rfl, rfl⟩ := hab
      obtain ⟨r, hr⟩ := exists_lookup_of_mem hmem
      have hr : assignment t' userID inboundID = some r := hr
      rw [hr]
      rfl
    · rfl
  · have hrows : assignment { t with userInbounds := t.userInbounds ++ [⟨a, b, .pending, ""⟩] }
        userID inboundID = _ := lookup_append_singleton _
    rw [hrows]
    split_ifs with hkey hab hab
    · obtain ⟨rfl, rfl⟩ := hab
      have hnone : assignment t userID inboundID = none := lookup_eq_none_iff.2 hmem
      unfold assignment at hnone ⊢
      rw [hnone]
      rfl
    · rw [Prod.mk.injEq] at hkey
      exact (hab ⟨hkey.1.symm, hkey.2.symm⟩).elim
    · exact (hkey (Prod.ext hab.1.symm hab.2.symm)).elim
    · exact Option.or_none

theorem assignment_foldlM_addAssignmentTx {a : ID} {ids : List ID}
    (h : ids.foldlM (fun t id => addAssignmentTx t a id) t = .ok t') :
    assignment t' userID inboundID =
      if userID = a ∧ inboundID ∈ ids then
        some ((assignment t userID inboundID).getD ⟨a, inboundID, .pending, ""⟩)
      else assignment t userID inboundID := by
  induction ids generalizing t with
  | nil =>
      cases h
      simp
  | cons b ids ih =>
      rw [List.foldlM_cons] at h
      cases hb : addAssignmentTx t a b with
      | error e => rw [hb] at h; cases h
      | ok t₁ =>
          rw [hb] at h
          rw [ih h, assignment_addAssignmentTx hb]
          by_cases ha : userID = a
          · by_cases hib : inboundID = b
            · subst ha hib
              simp
            · simp [hib]
          · simp [ha]

theorem assignment_createWithAssignmentsTx {u : User} {ids : List ID}
    (h : createWithAssignmentsTx t u ids = .ok t') :
    assignment t' userID inboundID =
      if userID = u.id ∧ inboundID ∈ ids then
        some ((assignment t userID inboundID).getD ⟨u.id, inboundID, .pending, ""⟩)
      else assignment t userID inboundID := by
  unfold createWithAssignmentsTx at h
  cases hc : createUserTx t u with
  | error e => rw [hc] at h; cases h
  | ok t₁ =>
      rw [hc] at h
      have hrows : assignment t' userID inboundID = _ := assignment_foldlM_addAssignmentTx h
      obtain ⟨-, -, rfl⟩ := createUserTx_eq_ok hc
      exact hrows

/-- The row with its assignment tombstoned. -/
def tombstoned (r : UserInbound) : UserInbound := { r with syncStatus := .removing }

/-- `SetAssignmentsForUserTx` on one assignment. A row that is already there and listed stays as it
is, also when it is a tombstone; with a nil list every row stays. -/
theorem assignment_setAssignmentsForUserTx {a : ID} {ids : Slice ID}
    (h : setAssignmentsForUserTx t a ids = .ok t') :
    assignment t' userID inboundID =
      if userID = a then
        if inboundID ∈ ids.elems then
          some ((assignment t userID inboundID).getD ⟨a, inboundID, .pending, ""⟩)
        else if ids.excludes inboundID = true then
          (assignment t userID inboundID).map tombstoned
        else assignment t userID inboundID
      else assignment t userID inboundID := by
  have htomb : assignment (tombstoneOthersTx t a ids) userID inboundID = _ :=
    assignment_of_updateWhere rfl fun _ => ⟨rfl, rfl⟩
  rw [assignment_foldlM_addAssignmentTx h, htomb]
  cases hl : assignment t userID inboundID with
  | none =>
      by_cases ha : userID = a
      · simp [ha]
      · simp [ha]
  | some r =>
      have hr := key_of_lookup hl
      rw [Prod.mk.injEq] at hr
      by_cases ha : userID = a
      · by_cases hi : inboundID ∈ ids.elems
        · have hkept : ids.excludes inboundID ≠ true := fun hex => Slice.not_mem_of_excludes hex hi
          simp [ha, hi, hr.1, hr.2, hkept]
        · by_cases hex : ids.excludes inboundID = true
          · simp [ha, hi, hr.1, hr.2, hex, tombstoned]
          · simp [ha, hi, hr.1, hr.2, hex]
      · simp [ha, hr.1]

/-! ## The joins -/

section Joins

variable {i : Inbound} {u : User} {cond : UserInbound → Inbound → User → Bool}
  {d : DesiredAssignment}

/-- The joined row of an assignment. -/
theorem Tables.Valid.mem_queryDesired_ids (ht : t.Valid)
    (hi : lookup Inbound.id inboundID t.inbounds = some i)
    (hu : lookup User.id userID t.users = some u) :
    (d ∈ queryDesired t cond ∧ d.userID = userID ∧ d.inboundID = inboundID) ↔
      ∃ ui, assignment t userID inboundID = some ui ∧ cond ui i u = true ∧
        d = desiredRow ui i u := by
  simp only [mem_queryDesired, ht.assignment_eq_some]
  constructor
  · rintro ⟨⟨ui, hui, i', u', hi', hu', hc, rfl⟩, huid, hiid⟩
    have huid : ui.userID = userID := huid
    have hiid : ui.inboundID = inboundID := hiid
    rw [hiid, hi] at hi'
    rw [huid, hu] at hu'
    cases hi'
    cases hu'
    exact ⟨ui, ⟨hui, huid, hiid⟩, hc, rfl⟩
  · rintro ⟨ui, ⟨hui, rfl, rfl⟩, hc, rfl⟩
    exact ⟨⟨ui, hui, i, u, hi, hu, hc, rfl⟩, rfl, rfl⟩

/-- A joined row is on the account of an assignment exactly when it is the assignment's. -/
theorem Tables.Valid.key_eq_iff (ht : t.Valid)
    (hi : lookup Inbound.id inboundID t.inbounds = some i)
    (hu : lookup User.id userID t.users = some u) (hd : d ∈ queryDesired t cond)
    (hn : d.nodeID = i.nodeID) :
    (d.inboundTag, d.email) = (i.tag, u.email) ↔ d.userID = userID ∧ d.inboundID = inboundID := by
  obtain ⟨ui, -, i', u', hi', hu', -, rfl⟩ := mem_queryDesired.1 hd
  have hn : i'.nodeID = i.nodeID := hn
  change (i'.tag, u'.email) = (i.tag, u.email) ↔ ui.userID = userID ∧ ui.inboundID = inboundID
  rw [Prod.mk.injEq]
  constructor
  · rintro ⟨htag, hmail⟩
    have hii : i' = i := List.inj_on_of_nodup_map ht.inbounds_tag (mem_of_lookup hi')
      (mem_of_lookup hi) (Prod.ext hn htag)
    have huu : u' = u := List.inj_on_of_nodup_map ht.users_email (mem_of_lookup hu')
      (mem_of_lookup hu) hmail
    subst hii huu
    exact ⟨(key_of_lookup hu').symm.trans (key_of_lookup hu),
      (key_of_lookup hi').symm.trans (key_of_lookup hi)⟩
  · rintro ⟨rfl, rfl⟩
    rw [hi] at hi'
    rw [hu] at hu'
    cases hi'
    cases hu'
    exact ⟨rfl, rfl⟩

end Joins

end XrayApi.Store
