import XrayApi.Store.Entries
import XrayApi.Worker.Conservation

/-!
# Metering

`ApplyTrafficDeltas` as a whole. `Meters` is what a commit does: the counters grow by the deltas,
every delta that is not zero leaves a snapshot, and exactly the active users who reach their limit
are suspended and returned. The counters and the snapshots tell the same story in two places;
`Reconciled` says that they agree, and every call but a traffic reset and the deletion of a node
keeps it, whatever runs in between (`reconciled_exec`, `reconciled_execAll`).
-/

set_option autoImplicit false

namespace XrayApi.Worker

open Store Relational Service

/-! ## Snapshots -/

def Direction.ofSnapshot : Direction → TrafficSnapshot → Int64
  | uplink, s => s.uplinkBytes
  | downlink, s => s.downlinkBytes

/-- What the snapshots have for the user. -/
def snapshotted (dir : Direction) (id : ID) (l : List TrafficSnapshot) : ℤ :=
  ((l.filter fun s => decide (s.userID = id)).map fun s => (dir.ofSnapshot s).toInt).sum

/-- The delta is not zero in both directions. -/
def recorded (d : TrafficDelta) : Bool := !decide (d.uplink = 0 ∧ d.downlink = 0)

/-- The snapshot of a delta. -/
def snapshotOf (nodeID : ID) (collectedAt : Time) (d : TrafficDelta) : TrafficSnapshot :=
  ⟨d.userID, nodeID, d.uplink, d.downlink, collectedAt⟩

section Snapshots

variable {t t' : Tables} {dir : Direction} {id nodeID : ID} {collectedAt : Time}
  {deltas : List TrafficDelta}

theorem snapshotted_append (l l' : List TrafficSnapshot) :
    snapshotted dir id (l ++ l') = snapshotted dir id l + snapshotted dir id l' := by
  unfold snapshotted
  rw [List.filter_append, List.map_append, List.sum_append]

/-- Deltas of zero leave no snapshot, and count for nothing. -/
theorem snapshotted_snapshotOf :
    snapshotted dir id ((deltas.filter recorded).map (snapshotOf nodeID collectedAt)) =
      charged dir id deltas := by
  induction deltas with
  | nil => rfl
  | cons d deltas ih =>
      rw [charged_cons, ← ih]
      by_cases hzero : d.uplink = 0 ∧ d.downlink = 0
      · have hd : (dir.ofDelta d).toInt = 0 := by
          cases dir with
          | uplink => exact congrArg Int64.toInt hzero.1
          | downlink => exact congrArg Int64.toInt hzero.2
        simp [recorded, hzero, hd]
      · have hd : (dir.ofSnapshot (snapshotOf nodeID collectedAt d)).toInt =
            (dir.ofDelta d).toInt := by
          cases dir <;> rfl
        have hcons : (d :: deltas).filter recorded = d :: deltas.filter recorded :=
          List.filter_cons_of_pos (by simp [recorded, hzero])
        rw [hcons, List.map_cons, ← List.singleton_append, snapshotted_append]
        refine congrArg (· + _) ?_
        by_cases hid : d.userID = id
        · simp [snapshotted, snapshotOf, hid, ← hd]
        · simp [snapshotted, snapshotOf, hid]

theorem applyDeltaTx_snapshots {d : TrafficDelta}
    (h : applyDeltaTx nodeID collectedAt t d = .ok t') :
    t'.trafficSnapshots =
      t.trafficSnapshots ++ ([d].filter recorded).map (snapshotOf nodeID collectedAt) := by
  obtain ⟨hu, hd, rfl⟩ | ⟨hne, -, -, -, rfl⟩ := applyDeltaTx_eq_ok h
  · simp [recorded, hu, hd]
  · simp [recorded, hne, snapshotOf]

theorem foldlM_applyDeltaTx_snapshots
    (h : deltas.foldlM (applyDeltaTx nodeID collectedAt) t = .ok t') :
    t'.trafficSnapshots =
      t.trafficSnapshots ++ (deltas.filter recorded).map (snapshotOf nodeID collectedAt) := by
  induction deltas generalizing t with
  | nil =>
      cases h
      simp
  | cons d deltas ih =>
      rw [List.foldlM_cons] at h
      cases hd : applyDeltaTx nodeID collectedAt t d with
      | error e => rw [hd] at h; cases h
      | ok t₁ =>
          rw [hd] at h
          rw [ih h, applyDeltaTx_snapshots hd, List.append_assoc, ← List.map_append,
            ← List.filter_append, List.singleton_append]

theorem applyTrafficDeltas_snapshots {ids : List ID}
    (h : applyTrafficDeltas t nodeID deltas collectedAt = .ok (ids, t')) :
    t'.trafficSnapshots =
      t.trafficSnapshots ++ (deltas.filter recorded).map (snapshotOf nodeID collectedAt) := by
  obtain ⟨t₁, hloop, -, -, ht'⟩ := applyTrafficDeltas_inv h
  rw [ht', ← foldlM_applyDeltaTx_snapshots hloop]

end Snapshots

/-! ## One commit -/

/-- What a commit does to the row of a user; `ids` are the users it returns. -/
structure ChargesRow (deltas : List TrafficDelta) (ids : List ID) (u u' : User) : Prop where
  id : u'.id = u.id
  counters : ∀ dir : Direction,
    (dir.ofUser u').toInt = (dir.ofUser u).toInt + charged dir u.id deltas
  limit : u'.dataLimitBytes = u.dataLimitBytes
  status : u'.status = if u.id ∈ ids then .suspended else u.status

/-- What a commit does. -/
structure Meters (t : Tables) (nodeID : ID) (deltas : List TrafficDelta) (collectedAt : Time)
    (ids : List ID) (t' : Tables) : Prop where
  rows : List.Forall₂ (ChargesRow deltas ids) t.users t'.users
  snapshots : t'.trafficSnapshots =
    t.trafficSnapshots ++ (deltas.filter recorded).map (snapshotOf nodeID collectedAt)
  others : t' = { t with users := t'.users, trafficSnapshots := t'.trafficSnapshots }
  once : ids.Nodup
  crossed : ∀ id, id ∈ ids ↔ ∃ u ∈ t.users, u.id = id ∧ u.status = .active ∧
    ∃ limit ∈ u.dataLimitBytes, limit.toInt ≤
      (u.usedUploadBytes.toInt + charged .uplink id deltas) +
        (u.usedDownloadBytes.toInt + charged .downlink id deltas)
  within : ∀ u ∈ t'.users, u.status = .active → u.overQuota = false

section Commit

variable {t t' : Tables} {nodeID : ID} {collectedAt : Time} {deltas : List TrafficDelta}
  {ids : List ID}

theorem stored_of_mem (ht : t.Valid) {u : User} (hu : u ∈ t.users) (dir : Direction) :
    stored dir u.id t = (dir.ofUser u).toInt := by
  rw [stored, (lookup_eq_some_iff ht.users_id).2 ⟨hu, rfl⟩]
  rfl

theorem foldlM_applyDeltaTx_valid (ht : t.Valid)
    (h : deltas.foldlM (applyDeltaTx nodeID collectedAt) t = .ok t') : t'.Valid :=
  foldlM_invariant (fun _ _ _ h₁ h₂ => applyDeltaTx_valid h₁ h₂) deltas ht h

theorem mem_foldlM_applyDeltaTx (h : deltas.foldlM (applyDeltaTx nodeID collectedAt) t = .ok t')
    {r : User} : r ∈ t'.users ↔ ∃ u ∈ t.users, deltas.foldl charge u = r := by
  rw [foldlM_applyDeltaTx_users h, List.mem_map]

theorem limit_foldl_charge (deltas : List TrafficDelta) (u : User) :
    (deltas.foldl charge u).dataLimitBytes = u.dataLimitBytes := by
  induction deltas generalizing u with
  | nil => rfl
  | cons d deltas ih =>
      rw [List.foldl_cons, ih, charge]
      split_ifs <;> rfl

/-- The loop on one row: the counters are exact. -/
theorem ofUser_foldl_charge (ht : t.Valid)
    (h : deltas.foldlM (applyDeltaTx nodeID collectedAt) t = .ok t') {u : User} (hu : u ∈ t.users)
    (dir : Direction) :
    (dir.ofUser (deltas.foldl charge u)).toInt =
      (dir.ofUser u).toInt + charged dir u.id deltas := by
  have hu' : deltas.foldl charge u ∈ t'.users := (mem_foldlM_applyDeltaTx h).2 ⟨u, hu, rfl⟩
  rw [← stored_of_mem (foldlM_applyDeltaTx_valid ht h) hu', foldl_charge_id,
    stored_foldlM_applyDeltaTx h, stored_of_mem ht hu]

/-- The comparison of the last statement, in exact numbers. -/
theorem overQuota_iff {u : User}
    (hfit : u.dataLimitBytes ≠ none → fitsBigint u.usedUploadBytes u.usedDownloadBytes = true) :
    u.overQuota = true ↔ ∃ limit ∈ u.dataLimitBytes,
      limit.toInt ≤ u.usedUploadBytes.toInt + u.usedDownloadBytes.toInt := by
  unfold User.overQuota User.usedTotalBytes
  cases hlimit : u.dataLimitBytes with
  | none => simp
  | some limit =>
      have hfit := hfit (by rw [hlimit]; exact Option.some_ne_none limit)
      rw [← toInt_add_of_fitsBigint hfit, decide_eq_true_eq, Int64.le_iff_toInt_le]
      simp

theorem foldl_charge_others (h : deltas.foldlM (applyDeltaTx nodeID collectedAt) t = .ok t') :
    t' = { t with users := t'.users, trafficSnapshots := t'.trafficSnapshots } := by
  refine foldlM_invariant (I := fun s =>
    s = { t with users := s.users, trafficSnapshots := s.trafficSnapshots })
    (fun s d s' hs hd => ?_) deltas rfl h
  obtain ⟨-, -, rfl⟩ | ⟨-, -, -, -, rfl⟩ := applyDeltaTx_eq_ok hd
  · exact hs
  · rw [hs]

theorem ofUser_suspendCrossed (u : User) (dir : Direction) :
    dir.ofUser (suspendCrossed u) = dir.ofUser u := by
  unfold suspendCrossed
  split_ifs
  · cases dir <;> rfl
  · rfl

theorem limit_suspendCrossed (u : User) : (suspendCrossed u).dataLimitBytes = u.dataLimitBytes := by
  unfold suspendCrossed
  split_ifs <;> rfl

/-- A user is returned when the row after the loop is active and at its limit. -/
theorem mem_ids_iff (ht : t.Valid)
    (h : applyTrafficDeltas t nodeID deltas collectedAt = .ok (ids, t')) {u : User}
    (hu : u ∈ t.users) : u.id ∈ ids ↔ crossedLimit (deltas.foldl charge u) = true := by
  obtain ⟨t₁, hloop, -, rfl, -⟩ := applyTrafficDeltas_inv h
  have hrow : deltas.foldl charge u ∈ t₁.users := (mem_foldlM_applyDeltaTx hloop).2 ⟨u, hu, rfl⟩
  constructor
  · intro hid
    obtain ⟨r, hr, hid⟩ := List.mem_map.1 hid
    obtain ⟨hr, hcrossed⟩ := List.mem_filter.1 hr
    -- no two rows have one id, so the row that was returned is that of the user
    have heq : r = deltas.foldl charge u :=
      List.inj_on_of_nodup_map (foldlM_applyDeltaTx_valid ht hloop).users_id hr hrow
        (hid.trans (foldl_charge_id deltas u).symm)
    exact heq ▸ hcrossed
  · intro hcrossed
    rw [← foldl_charge_id deltas u]
    exact List.mem_map_of_mem (List.mem_filter.2 ⟨hrow, hcrossed⟩)

theorem chargesRow_chargeAll (ht : t.Valid)
    (h : applyTrafficDeltas t nodeID deltas collectedAt = .ok (ids, t')) {u : User}
    (hu : u ∈ t.users) : ChargesRow deltas ids u (chargeAll deltas u) := by
  have hids := mem_ids_iff ht h hu
  obtain ⟨t₁, hloop, -⟩ := applyTrafficDeltas_eq_ok h
  refine ⟨chargeAll_id deltas u, fun dir => ?_, ?_, ?_⟩
  · rw [chargeAll, ofUser_suspendCrossed, ofUser_foldl_charge ht hloop hu]
  · rw [chargeAll, limit_suspendCrossed, limit_foldl_charge]
  · unfold chargeAll suspendCrossed
    by_cases hcrossed : crossedLimit (deltas.foldl charge u) = true
    · rw [if_pos hcrossed, if_pos (hids.2 hcrossed)]
    · rw [if_neg hcrossed, if_neg (mt hids.1 hcrossed), status_foldl_charge]

/-- Who crosses the limit, in terms of the row before. -/
theorem crossedLimit_foldl_charge (ht : t.Valid)
    (h : applyTrafficDeltas t nodeID deltas collectedAt = .ok (ids, t')) {u : User}
    (hu : u ∈ t.users) : crossedLimit (deltas.foldl charge u) = true ↔ u.status = .active ∧
      ∃ limit ∈ u.dataLimitBytes, limit.toInt ≤
        (u.usedUploadBytes.toInt + charged .uplink u.id deltas) +
          (u.usedDownloadBytes.toInt + charged .downlink u.id deltas) := by
  obtain ⟨t₁, hloop, hfit, -, -⟩ := applyTrafficDeltas_inv h
  have hrow : deltas.foldl charge u ∈ t₁.users := (mem_foldlM_applyDeltaTx hloop).2 ⟨u, hu, rfl⟩
  have hup := ofUser_foldl_charge ht hloop hu .uplink
  have hdown := ofUser_foldl_charge ht hloop hu .downlink
  rw [crossedLimit, Bool.and_eq_true, decide_eq_true_eq, status_foldl_charge]
  refine and_congr_right fun hactive => ?_
  have hstatus := (status_foldl_charge deltas u).trans hactive
  rw [overQuota_iff (hfit _ hrow hstatus), limit_foldl_charge]
  simp only [Direction.ofUser] at hup hdown
  rw [hup, hdown]

theorem meters_applyTrafficDeltas (ht : t.Valid)
    (h : applyTrafficDeltas t nodeID deltas collectedAt = .ok (ids, t')) :
    Meters t nodeID deltas collectedAt ids t' where
  rows := by
    rw [applyTrafficDeltas_users h, List.forall₂_map_right_iff, List.forall₂_same]
    exact fun u hu => chargesRow_chargeAll ht h hu
  snapshots := applyTrafficDeltas_snapshots h
  others := by
    obtain ⟨t₁, hloop, -, -, rfl⟩ := applyTrafficDeltas_inv h
    dsimp only
    rw [foldl_charge_others hloop]
  once := by
    obtain ⟨t₁, hloop, -, rfl, -⟩ := applyTrafficDeltas_inv h
    exact nodup_map_filter (foldlM_applyDeltaTx_valid ht hloop).users_id _
  crossed := by
    intro id
    constructor
    · intro hid
      have hreturned := hid
      obtain ⟨t₁, hloop, -, hids, -⟩ := applyTrafficDeltas_inv h
      rw [hids] at hid
      obtain ⟨r, hr, rfl⟩ := List.mem_map.1 hid
      obtain ⟨u, hu, rfl⟩ := (mem_foldlM_applyDeltaTx hloop).1 (List.mem_of_mem_filter hr)
      rw [foldl_charge_id] at hreturned ⊢
      exact ⟨u, hu, rfl, (crossedLimit_foldl_charge ht h hu).1 ((mem_ids_iff ht h hu).1 hreturned)⟩
    · rintro ⟨u, hu, rfl, hcrossed⟩
      exact (mem_ids_iff ht h hu).2 ((crossedLimit_foldl_charge ht h hu).2 hcrossed)
  within := by
    rw [applyTrafficDeltas_users h]
    intro u' hu' hactive
    obtain ⟨u, hu, rfl⟩ := List.mem_map.1 hu'
    unfold chargeAll suspendCrossed at hactive ⊢
    by_cases hcrossed : crossedLimit (deltas.foldl charge u) = true
    · rw [if_pos hcrossed] at hactive
      cases hactive
    · rw [if_neg hcrossed] at hactive ⊢
      rw [crossedLimit, decide_eq_true hactive, Bool.true_and] at hcrossed
      exact Bool.eq_false_iff.2 hcrossed

/-- Two deltas of a user, and one of zero: the limit of 10 is reached. -/
example : (applyTrafficDeltas (.assigned (.plain "i" "n" "in" .vless)
      { User.plain "u" "u@x" with dataLimitBytes := some 10 } .applied) "n"
      [⟨"u", 4, 0⟩, ⟨"u", 0, 0⟩, ⟨"u", 0, 6⟩] 0).map (fun r => (r.1, r.2.trafficSnapshots.length)) =
    .ok (["u"], 2) := by
  decide

end Commit

/-! ## Counters and snapshots -/

/-- The counters of every user are the sums of the user's snapshots. -/
def Reconciled (t : Tables) : Prop :=
  ∀ u ∈ t.users, ∀ dir : Direction,
    (dir.ofUser u).toInt = snapshotted dir u.id t.trafficSnapshots

/-- The calls that forget traffic in one of the two places. -/
def forgets : StoreCall → Bool
  | .resetTraffic _ => true
  | .deleteNode _ => true
  | _ => false

/-- The users keep their counters, and the snapshots stay. -/
structure KeepsUsage (t t' : Tables) : Prop where
  users : ∀ u' ∈ t'.users, ∃ u ∈ t.users, u'.id = u.id ∧
    ∀ dir : Direction, dir.ofUser u' = dir.ofUser u
  snapshots : t'.trafficSnapshots = t.trafficSnapshots

section Calls

variable {t t' : Tables}

theorem KeepsUsage.reconciled (h : KeepsUsage t t') (ht : Reconciled t) : Reconciled t' := by
  intro u' hu' dir
  obtain ⟨u, hu, hid, hcounters⟩ := h.users u' hu'
  rw [hcounters, hid, h.snapshots]
  exact ht u hu dir

theorem KeepsUsage.of_eq (husers : t'.users = t.users)
    (hsnapshots : t'.trafficSnapshots = t.trafficSnapshots) : KeepsUsage t t' :=
  ⟨fun u hu => ⟨u, husers ▸ hu, rfl, fun _ => rfl⟩, hsnapshots⟩

/-- The function keeps the counters of a row. -/
def KeepsCounters (f : User → User) : Prop :=
  ∀ u, (f u).id = u.id ∧ ∀ dir : Direction, dir.ofUser (f u) = dir.ofUser u

theorem KeepsCounters.onRow {f : User → User} (hf : KeepsCounters f) {id : ID} :
    KeepsCounters (onRow id f) := by
  intro u
  unfold Store.onRow
  split_ifs
  · exact hf u
  · exact ⟨rfl, fun _ => rfl⟩

theorem keepsCounters_unsetPlan (id : ID) : KeepsCounters (unsetPlan id) :=
  fun _ => ⟨rfl, fun dir => by cases dir <;> rfl⟩

theorem keepsCounters_persist (u : User) : KeepsCounters (persist u) :=
  fun _ => ⟨rfl, fun dir => by cases dir <;> rfl⟩

theorem keepsCounters_setStatus (status : UserStatus) : KeepsCounters (setStatus status) :=
  fun _ => ⟨rfl, fun dir => by cases dir <;> rfl⟩

theorem keepsCounters_expireDue (now : Time) : KeepsCounters (expireDue now) := by
  intro u
  unfold expireDue
  split_ifs
  · exact keepsCounters_setStatus .expired u
  · exact ⟨rfl, fun _ => rfl⟩

theorem KeepsUsage.of_map {f : User → User} (hf : KeepsCounters f)
    (husers : t'.users = t.users.map f) (hsnapshots : t'.trafficSnapshots = t.trafficSnapshots) :
    KeepsUsage t t' := by
  refine ⟨fun u' hu' => ?_, hsnapshots⟩
  rw [husers] at hu'
  obtain ⟨u, hu, rfl⟩ := List.mem_map.1 hu'
  exact ⟨u, hu, hf u⟩

theorem foldlM_addAssignmentTx_snapshots {userID : ID} {ids : List ID}
    (h : ids.foldlM (fun t id => addAssignmentTx t userID id) t = .ok t') :
    t'.trafficSnapshots = t.trafficSnapshots := by
  refine foldlM_invariant (I := fun s => s.trafficSnapshots = t.trafficSnapshots)
    (fun s id s' hs hadd => ?_) ids rfl h
  obtain ⟨-, rfl⟩ | ⟨-, -, -, rfl⟩ := addAssignmentTx_eq_ok hadd
  · exact hs
  · exact hs

/-- A new user has no counters and no snapshots. -/
theorem reconciled_createWithAssignmentsTx (ht : t.Valid) {u : User} {ids : List ID}
    (h : createWithAssignmentsTx t u ids = .ok t') (hr : Reconciled t) : Reconciled t' := by
  obtain ⟨hconflict, -, husers⟩ := createWithAssignmentsTx_eq_ok h
  have hsnapshots : t'.trafficSnapshots = t.trafficSnapshots := by
    unfold createWithAssignmentsTx at h
    cases hc : createUserTx t u with
    | error e => rw [hc] at h; cases h
    | ok t₁ =>
        rw [hc] at h
        obtain ⟨-, -, rfl⟩ := createUserTx_eq_ok hc
        have hrows := foldlM_addAssignmentTx_snapshots h
        exact hrows
  intro u' hu' dir
  rw [hsnapshots]
  rw [husers, List.mem_append, List.mem_singleton] at hu'
  obtain hu' | rfl := hu'
  · exact hr u' hu' dir
  · have hnew : u.id ∉ t.users.map User.id := by
      intro hmem
      rw [insertConflict, if_pos hmem] at hconflict
      cases hconflict
    have hnone : (t.trafficSnapshots.filter fun s => decide (s.userID = u.id)) = [] :=
      List.filter_eq_nil_iff.2 fun s hs heq =>
        hnew (of_decide_eq_true heq ▸ ht.trafficSnapshots_user s hs)
    have hzero : dir.ofUser (zeroUsage u) = 0 := by cases dir <;> rfl
    change (dir.ofUser (zeroUsage u)).toInt = snapshotted dir u.id t.trafficSnapshots
    rw [hzero, snapshotted, hnone]
    rfl

theorem reconciled_deleteUser {id : ID} (h : deleteUser t id = .ok t') (hr : Reconciled t) :
    Reconciled t' := by
  cases (requireUser_eq_ok.1 h).2
  intro u hu dir
  obtain ⟨hu, hne⟩ := List.mem_filter.1 hu
  have hne := of_decide_eq_true hne
  -- the cascade takes snapshots of the deleted user only
  rw [hr u hu dir, snapshotted, snapshotted, List.filter_filter]
  refine congrArg (fun l => (List.map _ l).sum) (List.filter_congr fun s _ => ?_)
  by_cases hs : s.userID = u.id
  · simp [hs, hne]
  · simp [hs]

theorem reconciled_applyTrafficDeltas (ht : t.Valid) {nodeID : ID} {deltas : List TrafficDelta}
    {collectedAt : Time} {ids : List ID}
    (h : applyTrafficDeltas t nodeID deltas collectedAt = .ok (ids, t')) (hr : Reconciled t) :
    Reconciled t' := by
  have husers := applyTrafficDeltas_users h
  intro u' hu' dir
  rw [husers] at hu'
  obtain ⟨u, hu, rfl⟩ := List.mem_map.1 hu'
  -- the counter and the sum of the snapshots grow by the same deltas
  rw [(chargesRow_chargeAll ht h hu).counters, chargeAll_id, applyTrafficDeltas_snapshots h,
    snapshotted_append, snapshotted_snapshotOf, hr u hu dir]

/-- Every call but those that forget keeps the counters and the snapshots together. -/
theorem reconciled_apply {q : StoreCall} {o : q.Out} (ht : t.Valid) (hq : forgets q = false)
    (h : q.apply t = .ok (o, t')) (hr : Reconciled t) : Reconciled t' := by
  by_cases hw : q.isWrite = false
  · rw [StoreCall.apply_of_isWrite_eq_false hw h]
    exact hr
  · -- most calls write other tables; the others write rows of users, or insert and delete them
    cases q with
    | createPlan p =>
        obtain ⟨-, -, rfl⟩ := createPlan_eq_ok (StoreCall.wrote_eq_ok.1 h)
        exact hr
    | updatePlan p =>
        obtain ⟨-, -, rfl⟩ := updatePlan_eq_ok (StoreCall.wrote_eq_ok.1 h)
        exact hr
    | deletePlan id =>
        cases (requirePlan_eq_ok.1 (StoreCall.wrote_eq_ok.1 h)).2
        exact KeepsUsage.reconciled (t := t) (.of_map (keepsCounters_unsetPlan id) rfl rfl) hr
    | createNode n =>
        obtain ⟨-, -, rfl⟩ := createNode_eq_ok (StoreCall.wrote_eq_ok.1 h)
        exact hr
    | updateNode n =>
        obtain ⟨-, -, rfl⟩ := updateNode_eq_ok (StoreCall.wrote_eq_ok.1 h)
        exact hr
    | setNodeHealth id status lastErr seenAt =>
        obtain ⟨-, rfl⟩ := setNodeHealth_eq_ok (StoreCall.wrote_eq_ok.1 h)
        exact hr
    | updateInbound ib =>
        obtain ⟨-, -, rfl⟩ := updateInbound_eq_ok (StoreCall.wrote_eq_ok.1 h)
        exact hr
    | deleteInbound id =>
        cases (requireInbound_eq_ok.1 (StoreCall.wrote_eq_ok.1 h)).2
        exact hr
    | createWithAssignmentsTx u ids =>
        exact reconciled_createWithAssignmentsTx ht (StoreCall.wrote_eq_ok.1 h) hr
    | updateUser u =>
        have h := StoreCall.wrote_eq_ok.1 h
        have husers := updateUser_users h
        obtain ⟨-, -, -, rfl⟩ := updateUser_eq_ok h
        exact (KeepsUsage.of_map (keepsCounters_persist u).onRow husers rfl).reconciled hr
    | setUserStatus id status =>
        have h := StoreCall.wrote_eq_ok.1 h
        have husers := setUserStatus_users h
        cases (requireUser_eq_ok.1 h).2
        exact (KeepsUsage.of_map (keepsCounters_setStatus status).onRow husers rfl).reconciled hr
    | resetTraffic id => cases hq
    | deleteNode id => cases hq
    | deleteUser id => exact reconciled_deleteUser (StoreCall.wrote_eq_ok.1 h) hr
    | expireDueUsers now =>
        cases h
        exact (KeepsUsage.of_map (keepsCounters_expireDue now) (expireDueUsers_users now)
          rfl).reconciled hr
    | recordWebhookEvent eventID action =>
        have hsame : (recordWebhookEvent t eventID action).2.users = t.users ∧
            (recordWebhookEvent t eventID action).2.trafficSnapshots = t.trafficSnapshots := by
          unfold recordWebhookEvent
          split_ifs <;> exact ⟨rfl, rfl⟩
        rw [Except.ok.inj h] at hsame
        exact (KeepsUsage.of_eq hsame.1 hsame.2).reconciled hr
    | markAssignmentSynced userID inboundID status errMsg =>
        cases h
        exact hr
    | markAssignmentsRemovingForUser userID =>
        cases h
        exact hr
    | deleteAssignment userID inboundID =>
        cases h
        exact hr
    | setAssignmentsForUserTx userID ids =>
        have h := StoreCall.wrote_eq_ok.1 h
        have hsnapshots := foldlM_addAssignmentTx_snapshots h
        exact (KeepsUsage.of_eq (setAssignmentsForUserTx_static h).1 hsnapshots).reconciled hr
    | applyTrafficDeltas nodeID deltas collectedAt => exact reconciled_applyTrafficDeltas ht h hr
    | _ => exact (hw rfl).elim

end Calls

/-- The database after the calls, failed ones included. -/
def execAll (db : Database) (qs : List StoreCall) : Database :=
  qs.foldl (fun db q => (db.exec q).2) db

theorem reconciled_exec {db : Database} {q : StoreCall} (hq : forgets q = false)
    (hr : Reconciled db.tables) : Reconciled (db.exec q).2.tables := by
  obtain ⟨e, -, hexec⟩ | ⟨o, t, happly, -, htables⟩ := Database.exec_cases q db
  · rw [hexec]
    exact hr
  · rw [htables]
    exact reconciled_apply db.valid hq happly hr

theorem reconciled_execAll {db : Database} {qs : List StoreCall} (hqs : ∀ q ∈ qs, forgets q = false)
    (hr : Reconciled db.tables) : Reconciled (execAll db qs).tables := by
  induction qs generalizing db with
  | nil => exact hr
  | cons q qs ih =>
      rw [List.forall_mem_cons] at hqs
      exact ih hqs.2 (reconciled_exec hqs.1 hr)

/-- A delta of a user who is gone fails the transaction. -/
theorem applyTrafficDeltas_unknown {t : Tables} (ht : t.Valid) {nodeID : ID}
    {deltas : List TrafficDelta}
    {collectedAt : Time} {d : TrafficDelta} (hd : d ∈ deltas) (hrecorded : recorded d = true)
    (hgone : d.userID ∉ t.users.map User.id) :
    ∃ e, applyTrafficDeltas t nodeID deltas collectedAt = .error e := by
  cases h : applyTrafficDeltas t nodeID deltas collectedAt with
  | error e => exact ⟨e, rfl⟩
  | ok a =>
      obtain ⟨ids, t'⟩ := a
      -- its snapshot would refer to a user that is not there
      have hsnapshot : snapshotOf nodeID collectedAt d ∈ t'.trafficSnapshots := by
        rw [applyTrafficDeltas_snapshots h]
        exact List.mem_append_right _ (List.mem_map_of_mem (List.mem_filter.2 ⟨hd, hrecorded⟩))
      have huser : d.userID ∈ t'.users.map User.id :=
        (applyTrafficDeltas_valid ht h).trafficSnapshots_user _ hsnapshot
      rw [applyTrafficDeltas_users h, List.map_map] at huser
      obtain ⟨u, hu, hid⟩ := List.mem_map.1 huser
      rw [Function.comp_apply, chargeAll_id] at hid
      exact (hgone (hid ▸ List.mem_map_of_mem hu)).elim

/-- `ApplyTrafficDeltas` meters and enforces exactly, or it changes nothing; and the counters stay
the sums of the snapshots over any run of calls that forgets no traffic. -/
theorem applyTrafficDeltas_exact (db : Database) :
    (∀ nodeID deltas collectedAt ids db',
      db.exec (.applyTrafficDeltas nodeID deltas collectedAt) = (.ok ids, db') →
        Meters db.tables nodeID deltas collectedAt ids db'.tables) ∧
    (∀ nodeID deltas collectedAt e db',
      db.exec (.applyTrafficDeltas nodeID deltas collectedAt) = (.error e, db') → db' = db) ∧
    (∀ nodeID deltas collectedAt, (∃ d ∈ deltas, recorded d = true ∧
        d.userID ∉ db.tables.users.map User.id) →
      ∃ e, db.exec (.applyTrafficDeltas nodeID deltas collectedAt) = (.error e, db)) ∧
    ∀ qs, (∀ q ∈ qs, forgets q = false) → Reconciled db.tables →
      Reconciled (execAll db qs).tables := by
  refine ⟨fun nodeID deltas collectedAt ids db' h => ?_,
    fun nodeID deltas collectedAt e db' h => ?_,
    fun nodeID deltas collectedAt ⟨d, hd, hrecorded, hgone⟩ => ?_, fun qs => reconciled_execAll⟩
  · obtain ⟨e, -, hexec⟩ | ⟨o, t, happly, hanswer, htables⟩ := Database.exec_cases _ db
    · rw [hexec] at h
      cases h
    · rw [h] at hanswer htables
      cases hanswer
      cases htables
      exact meters_applyTrafficDeltas db.valid happly
  · obtain ⟨e', -, hexec⟩ | ⟨o, t, -, hanswer, -⟩ := Database.exec_cases _ db
    · rw [hexec] at h
      exact (Prod.mk.inj h).2.symm
    · rw [h] at hanswer
      cases hanswer
  · obtain ⟨e, he⟩ := applyTrafficDeltas_unknown db.valid hd hrecorded hgone
    exact ⟨e, Database.exec_of_error he⟩

/-- Two deltas of one user and an empty one. -/
def threeDeltas : List TrafficDelta := [⟨"u", 5, 1⟩, ⟨"u", 2, 0⟩, ⟨"u", 0, 0⟩]

/-- They leave two snapshots; a delta of nobody changes nothing. -/
theorem applyTrafficDeltas_exact_metered :
    (∃ ids db', metered.db.exec (.applyTrafficDeltas "n" threeDeltas 0) = (.ok ids, db') ∧
      db'.tables.trafficSnapshots.length = 2 ∧
      Meters metered.tables "n" threeDeltas 0 ids db'.tables) ∧
    (∃ e, metered.db.exec (.applyTrafficDeltas "n" [⟨"gone", 1, 0⟩] 0) = (.error e, metered.db)) ∧
    Reconciled (execAll metered.db [.applyTrafficDeltas "n" threeDeltas 0]).tables := by
  obtain ⟨hcommit, -, hgone, hrun⟩ := applyTrafficDeltas_exact metered.db
  have hfirst : metered.db.exec (.applyTrafficDeltas "n" threeDeltas 0) = (.ok [], _) := rfl
  have hreconciled : Reconciled metered.tables := by
    intro u hu dir
    obtain rfl := List.mem_singleton.1 hu
    cases dir with
    | uplink => rfl
    | downlink => rfl
  exact ⟨⟨_, _, hfirst, rfl, hcommit _ _ _ _ _ hfirst⟩,
    hgone _ _ _ ⟨_, List.mem_singleton.2 rfl, rfl, by decide⟩,
    hrun _ (List.forall_mem_singleton.2 rfl) hreconciled⟩

end XrayApi.Worker
