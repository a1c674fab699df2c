import XrayApi.Store.Valid

/-!
# Writes of user rows

Every write of existing users acts row by row. For each write, `..._users` gives the function that
it applies to the rows; the row with a given id is then found by `getUser_map`.
-/

set_option autoImplicit false

namespace XrayApi.Store

open XrayApi.Relational

variable {t t' : Tables} {id : ID}

theorem getUser_eq_ok {u : User} : getUser t id = .ok u ↔ lookup User.id id t.users = some u := by
  unfold getUser oneRow
  cases lookup User.id id t.users with
  | none => simp
  | some v => simp

theorem getUser_id {u : User} (h : getUser t id = .ok u) : u.id = id :=
  key_of_lookup (getUser_eq_ok.1 h)

theorem getUser_mem {u : User} (h : getUser t id = .ok u) : u ∈ t.users :=
  mem_of_lookup (getUser_eq_ok.1 h)

theorem exists_getUser_iff : (∃ u, getUser t id = .ok u) ↔ id ∈ t.users.map User.id := by
  rw [← lookup_isSome_iff, Option.isSome_iff_exists]
  exact exists_congr fun u => getUser_eq_ok

/-- Ids identify rows. -/
theorem Tables.Valid.getUser_eq_ok_iff (ht : t.Valid) {u : User} :
    getUser t id = .ok u ↔ u ∈ t.users ∧ u.id = id := by
  rw [getUser_eq_ok, lookup_eq_some_iff ht.users_id]

/-- After a write that acts row by row, the row with a given id is the changed one. -/
theorem getUser_map {f : User → User} (hf : ∀ r, (f r).id = r.id)
    (h : t'.users = t.users.map f) : getUser t' id = (getUser t id).map f := by
  unfold getUser
  rw [h, lookup_map fun r _ => hf r]
  cases lookup User.id id t.users with
  | none => rfl
  | some r => rfl

theorem getUser_map_eq_ok {f : User → User} (hf : ∀ r, (f r).id = r.id)
    (h : t'.users = t.users.map f) {u : User} :
    getUser t' id = .ok u ↔ ∃ r, getUser t id = .ok r ∧ u = f r := by
  rw [getUser_map hf h]
  cases getUser t id with
  | error e => simp [Except.map]
  | ok r => simp [Except.map, eq_comm]

/-- `f` on the row with the given id. -/
def onRow (id : ID) (f : User → User) (r : User) : User :=
  if r.id = id then f r else r

theorem onRow_id {f : User → User} (hf : ∀ r, (f r).id = r.id) (r : User) :
    (onRow id f r).id = r.id := by
  unfold onRow
  split_ifs with h
  · exact hf r
  · rfl

theorem onRow_of_eq {f : User → User} {r : User} (h : r.id = id) : onRow id f r = f r :=
  if_pos h

theorem onRow_of_ne {f : User → User} {r : User} (h : r.id ≠ id) : onRow id f r = r :=
  if_neg h

/-- A write that acts row by row keeps the ids. -/
theorem map_id_of_map {f : User → User} (hf : ∀ r, (f r).id = r.id)
    (h : t'.users = t.users.map f) : t'.users.map User.id = t.users.map User.id := by
  rw [h, List.map_map]
  exact List.map_congr_left fun r _ => hf r

theorem updateWhere_id_eq_map (f : User → User) (rows : List User) :
    updateWhere (fun r => decide (r.id = id)) f rows = rows.map (onRow id f) := by
  unfold updateWhere onRow
  simp only [decide_eq_true_eq]

theorem KeepsKeys.onRow {f : User → User} (hf : KeepsKeys f) : KeepsKeys (onRow id f) := by
  constructor <;> intro r <;> unfold Store.onRow <;> split_ifs
  all_goals first | rfl | skip
  · exact hf.id r
  · exact hf.email r
  · exact hf.uuid r
  · exact hf.trojanPassword r
  · exact hf.planID r
  · exact hf.subToken r
  · exact hf.externalID r

theorem keepsKeys_zeroUsage : KeepsKeys zeroUsage :=
  ⟨fun _ => rfl, fun _ => rfl, fun _ => rfl, fun _ => rfl, fun _ => rfl, fun _ => rfl,
    fun _ => rfl⟩

theorem keepsKeys_id : KeepsKeys fun r => r :=
  ⟨fun _ => rfl, fun _ => rfl, fun _ => rfl, fun _ => rfl, fun _ => rfl, fun _ => rfl,
    fun _ => rfl⟩

/-! ## The writes -/

theorem updateUser_users {u : User} (h : updateUser t u = .ok t') :
    t'.users = t.users.map (onRow u.id (persist u)) := by
  obtain ⟨-, -, -, rfl⟩ := updateUser_eq_ok h
  exact updateWhere_id_eq_map _ _

/-- A row with another status. -/
def setStatus (status : UserStatus) (r : User) : User := { r with status }

theorem setUserStatus_users {status : UserStatus} (h : setUserStatus t id status = .ok t') :
    t'.users = t.users.map (onRow id (setStatus status)) := by
  obtain ⟨-, h⟩ := requireUser_eq_ok.1 h
  cases h
  exact updateWhere_id_eq_map _ _

theorem resetTraffic_users (h : resetTraffic t id = .ok t') :
    t'.users = t.users.map (onRow id zeroUsage) := by
  obtain ⟨-, h⟩ := requireUser_eq_ok.1 h
  cases h
  exact updateWhere_id_eq_map _ _

/-- The expiry sweep on one row. -/
def expireDue (now : Time) (r : User) : User :=
  if dueAt now r then { r with status := .expired } else r

theorem expireDueUsers_users (now : Time) :
    (expireDueUsers t now).2.users = t.users.map (expireDue now) := rfl

/-- One delta on one row. -/
def charge (r : User) (d : TrafficDelta) : User :=
  if d.userID = r.id then
    { r with
      usedUploadBytes := r.usedUploadBytes + d.uplink
      usedDownloadBytes := r.usedDownloadBytes + d.downlink }
  else r

/-- The suspension at the end of a collector's transaction, on one row. -/
def suspendCrossed (r : User) : User :=
  if crossedLimit r then { r with status := .suspended } else r

/-- A collector's transaction on one row. -/
def chargeAll (deltas : List TrafficDelta) (r : User) : User :=
  suspendCrossed (deltas.foldl charge r)

@[simp] theorem expireDue_id (now : Time) (r : User) : (expireDue now r).id = r.id := by
  unfold expireDue
  split_ifs <;> rfl

@[simp] theorem charge_id (r : User) (d : TrafficDelta) : (charge r d).id = r.id := by
  unfold charge
  split_ifs <;> rfl

@[simp] theorem suspendCrossed_id (r : User) : (suspendCrossed r).id = r.id := by
  unfold suspendCrossed
  split_ifs <;> rfl

@[simp] theorem foldl_charge_id (deltas : List TrafficDelta) (r : User) :
    (deltas.foldl charge r).id = r.id := by
  induction deltas generalizing r with
  | nil => rfl
  | cons d deltas ih => rw [List.foldl_cons, ih, charge_id]

@[simp] theorem chargeAll_id (deltas : List TrafficDelta) (r : User) :
    (chargeAll deltas r).id = r.id := by
  rw [chargeAll, suspendCrossed_id, foldl_charge_id]

/-- The counter update of one delta, row by row. -/
theorem updateWhere_eq_charge (d : TrafficDelta) (rows : List User) :
    updateWhere (fun r => decide (r.id = d.userID))
      (fun r => { r with
        usedUploadBytes := r.usedUploadBytes + d.uplink
        usedDownloadBytes := r.usedDownloadBytes + d.downlink }) rows =
      rows.map fun r => charge r d := by
  unfold updateWhere charge
  simp only [decide_eq_true_eq]
  exact List.map_congr_left fun r _ => by simp only [eq_comm]

theorem applyDeltaTx_users {nodeID : ID} {collectedAt : Time} {d : TrafficDelta}
    (h : applyDeltaTx nodeID collectedAt t d = .ok t') :
    t'.users = t.users.map fun r => charge r d := by
  obtain ⟨hu, hd, rfl⟩ | ⟨-, -, -, -, rfl⟩ := applyDeltaTx_eq_ok h
  · have hsame : ∀ r, charge r d = r := by
      intro r
      unfold charge
      rw [hu, hd]
      simp
    simp only [hsame, List.map_id']
  · exact updateWhere_eq_charge d t.users

theorem foldlM_applyDeltaTx_users {nodeID : ID} {collectedAt : Time} {deltas : List TrafficDelta}
    (h : deltas.foldlM (applyDeltaTx nodeID collectedAt) t = .ok t') :
    t'.users = t.users.map fun r => deltas.foldl charge r := by
  induction deltas generalizing t with
  | nil =>
      cases h
      simp
  | cons d deltas ih =>
      rw [List.foldlM_cons] at h
      cases hd : applyDeltaTx nodeID collectedAt t d with
      | error e => rw [hd] at h; cases h
      | ok t₁ =>
          rw [hd] at h
          rw [ih h, applyDeltaTx_users hd, List.map_map]
          rfl

theorem applyTrafficDeltas_users {nodeID : ID} {deltas : List TrafficDelta} {collectedAt : Time}
    {ids : List ID} (h : applyTrafficDeltas t nodeID deltas collectedAt = .ok (ids, t')) :
    t'.users = t.users.map (chargeAll deltas) := by
  obtain ⟨t₁, hloop, -, -, rfl⟩ := applyTrafficDeltas_inv h
  change updateWhere crossedLimit _ t₁.users = _
  rw [foldlM_applyDeltaTx_users hloop, updateWhere, List.map_map]
  rfl

/-! ## Writes that succeed -/

theorem setUserStatus_succeeds {status : UserStatus} (h : id ∈ t.users.map User.id) :
    ∃ t', setUserStatus t id status = .ok t' :=
  ⟨_, requireUser_eq_ok.2 ⟨h, rfl⟩⟩

theorem resetTraffic_succeeds (h : id ∈ t.users.map User.id) :
    ∃ t', resetTraffic t id = .ok t' :=
  ⟨_, requireUser_eq_ok.2 ⟨h, rfl⟩⟩

/-- A row written back with its token and external id breaks no constraint. -/
theorem updateUser_succeeds (ht : t.Valid) {u v : User} (hv : v ∈ t.users) (hid : u.id = v.id)
    (htok : u.subToken = v.subToken) (hext : u.externalID = v.externalID)
    (hplan : ∀ p ∈ u.planID, p ∈ t.plans.map Plan.id) : ∃ t', updateUser t u = .ok t' := by
  have hmem : u.id ∈ t.users.map User.id := hid ▸ List.mem_map_of_mem hv
  have hne : ∀ r ∈ t.users, r.id ≠ u.id → r ≠ v := by
    rintro r - hr rfl
    exact hr hid.symm
  have hconf : updateConflict t.users u = none := by
    unfold updateConflict
    rw [if_neg, if_neg]
    · rintro ⟨r, hr, hri, x, hx, hrx⟩
      rw [hext] at hx
      exact hne r hr hri (ht.users_externalID.eq_of_eq_some hr hv hrx hx)
    · rintro ⟨r, hr, hri, hrt⟩
      exact hne r hr hri
        (List.inj_on_of_nodup_map ht.users_subToken hr hv (hrt.trans htok))
  have hplans : planExists t u = true := decide_eq_true hplan
  refine ⟨{ t with users := updateWhere (fun r => decide (r.id = u.id)) (persist u) t.users }, ?_⟩
  unfold updateUser
  rw [requireUser_eq_ok, hconf]
  exact ⟨hmem, if_pos hplans⟩

/-! ## Assignment inserts -/

/-- An assignment insert writes `user_inbounds` only. -/
theorem addAssignmentTx_static {userID inboundID : ID}
    (h : addAssignmentTx t userID inboundID = .ok t') :
    t'.users = t.users ∧ t'.inbounds = t.inbounds ∧ t'.plans = t.plans ∧
      t'.webhookEvents = t.webhookEvents := by
  obtain ⟨-, rfl⟩ | ⟨-, -, -, rfl⟩ := addAssignmentTx_eq_ok h
  · exact ⟨rfl, rfl, rfl, rfl⟩
  · exact ⟨rfl, rfl, rfl, rfl⟩

theorem foldlM_addAssignmentTx_static {userID : ID} {ids : List ID}
    (h : ids.foldlM (fun t id => addAssignmentTx t userID id) t = .ok t') :
    t'.users = t.users ∧ t'.inbounds = t.inbounds ∧ t'.plans = t.plans ∧
      t'.webhookEvents = t.webhookEvents := by
  refine foldlM_invariant (I := fun s => s.users = t.users ∧ s.inbounds = t.inbounds ∧
    s.plans = t.plans ∧ s.webhookEvents = t.webhookEvents) (fun s id s' hs hadd => ?_) ids
    ⟨rfl, rfl, rfl, rfl⟩ h
  obtain ⟨h₁, h₂, h₃, h₄⟩ := addAssignmentTx_static hadd
  exact ⟨h₁.trans hs.1, h₂.trans hs.2.1, h₃.trans hs.2.2.1, h₄.trans hs.2.2.2⟩

/-- `SetAssignmentsForUserTx` writes `user_inbounds` only. -/
theorem setAssignmentsForUserTx_static {userID : ID} {ids : Slice ID}
    (h : setAssignmentsForUserTx t userID ids = .ok t') :
    t'.users = t.users ∧ t'.inbounds = t.inbounds ∧ t'.plans = t.plans ∧
      t'.webhookEvents = t.webhookEvents := by
  have hstatic := foldlM_addAssignmentTx_static h
  exact hstatic

/-- Inserting assignments of an existing user to existing inbounds succeeds. -/
theorem foldlM_addAssignmentTx_succeeds {userID : ID} {ids : List ID}
    (hu : userID ∈ t.users.map User.id) (hids : ∀ i ∈ ids, i ∈ t.inbounds.map Inbound.id) :
    ∃ t', ids.foldlM (fun t id => addAssignmentTx t userID id) t = .ok t' := by
  induction ids generalizing t with
  | nil => exact ⟨t, rfl⟩
  | cons i ids ih =>
      obtain ⟨t₁, h₁⟩ : ∃ t₁, addAssignmentTx t userID i = .ok t₁ := by
        have hi : i ∈ t.inbounds.map Inbound.id := hids i List.mem_cons_self
        unfold addAssignmentTx
        rw [if_neg (not_not.2 hu), if_neg (not_not.2 hi)]
        split_ifs with hrow
        · exact ⟨_, rfl⟩
        · exact ⟨_, rfl⟩
      obtain ⟨husers, hinbounds, -, -⟩ := addAssignmentTx_static h₁
      rw [List.foldlM_cons, h₁]
      refine ih (by rw [husers]; exact hu) fun j hj => ?_
      rw [hinbounds]
      exact hids j (List.mem_cons_of_mem _ hj)

/-- The transaction of `Create` on the users. -/
theorem createWithAssignmentsTx_eq_ok {u : User} {ids : List ID}
    (h : createWithAssignmentsTx t u ids = .ok t') :
    insertConflict t.users u = none ∧ planExists t u = true ∧
      t'.users = t.users ++ [zeroUsage u] := by
  unfold createWithAssignmentsTx at h
  cases hc : createUserTx t u with
  | error e => rw [hc] at h; cases h
  | ok t₁ =>
      rw [hc] at h
      obtain ⟨hconf, hplan, rfl⟩ := createUserTx_eq_ok hc
      exact ⟨hconf, hplan, (foldlM_addAssignmentTx_static h).1⟩

/-- The transaction of `Create` writes `users` and `user_inbounds` only. -/
theorem createWithAssignmentsTx_static {u : User} {ids : List ID}
    (h : createWithAssignmentsTx t u ids = .ok t') :
    t'.inbounds = t.inbounds ∧ t'.plans = t.plans ∧ t'.webhookEvents = t.webhookEvents := by
  unfold createWithAssignmentsTx at h
  cases hc : createUserTx t u with
  | error e => rw [hc] at h; cases h
  | ok t₁ =>
      rw [hc] at h
      obtain ⟨-, -, rfl⟩ := createUserTx_eq_ok hc
      exact (foldlM_addAssignmentTx_static h).2

theorem createWithAssignmentsTx_succeeds {u : User} {ids : List ID}
    (hconf : insertConflict t.users u = none) (hplan : planExists t u = true)
    (hids : ∀ i ∈ ids, i ∈ t.inbounds.map Inbound.id) :
    ∃ t', createWithAssignmentsTx t u ids = .ok t' := by
  have hc : createUserTx t u = .ok { t with users := t.users ++ [zeroUsage u] } := by
    unfold createUserTx
    rw [hconf]
    exact if_pos hplan
  unfold createWithAssignmentsTx
  rw [hc]
  refine foldlM_addAssignmentTx_succeeds ?_ hids
  simp [zeroUsage]

end XrayApi.Store
