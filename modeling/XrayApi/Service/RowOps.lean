import XrayApi.Service.Acceptance
import XrayApi.Worker.Collector

/-!
# Operations on a user row

`RowOp` has the operations that write existing user rows: four of the user service, on one user, the
expiry sweep and the commit of a collector. `RowOp.Effect` is what an operation run alone does to
the tables (`RowOp.Effect.returns`). The rest of the file is about the writes themselves:
`UpdateUser` looks at the columns it writes back only, and the sweep and a commit pass over a
suspended row.
-/

set_option autoImplicit false

namespace XrayApi.Service

open Transition Store Relational Worker

/-- An operation that writes user rows, with its arguments and clock readings. -/
inductive RowOp
  | update (inp : UpdateInput) (now : Time)
  | rotateSubToken (token : String)
  | resetTraffic (now : Time)
  | suspend
  | expireDueUsers (now : Time)
  | applyTrafficDeltas (nodeID : ID) (deltas : List TrafficDelta) (collectedAt : Time)

namespace RowOp

/-- The operation on the user `id`; its result is dropped. -/
def service (id : ID) : RowOp → Service Unit
  | update inp now => do
    let _ ← Service.update id inp now
    pure ()
  | rotateSubToken token => do
    let _ ← Service.rotateSubToken id token
    pure ()
  | resetTraffic now => do
    let _ ← Service.resetTraffic id now
    pure ()
  | suspend => do
    let _ ← Service.suspend id
    pure ()
  | expireDueUsers now => sweepExpired now
  | applyTrafficDeltas nodeID deltas collectedAt => commitDeltas nodeID deltas collectedAt

/-- What the operation, run alone, does to the tables. -/
def Effect (id : ID) : RowOp → Tables → Tables → Prop
  | update inp now, t, t' => ∃ v, getUser t id = .ok v ∧ updateUser t (inp.patch now v) = .ok t'
  | rotateSubToken token, t, t' =>
    ∃ v, getUser t id = .ok v ∧ updateUser t { v with subToken := token } = .ok t'
  | resetTraffic now, t, t' => ∃ v t₁, getUser t id = .ok v ∧ Store.resetTraffic t id = .ok t₁ ∧
    reactivateSuspendedTx t₁ id v now = .ok t'
  | suspend, t, t' => setUserStatus t id .disabled = .ok t'
  | expireDueUsers now, t, t' => (Store.expireDueUsers t now).2 = t'
  | applyTrafficDeltas nodeID deltas collectedAt, t, t' =>
    ∃ ids, Store.applyTrafficDeltas t nodeID deltas collectedAt = .ok (ids, t')

end RowOp

/-! ## Running an operation alone -/

section Alone

variable {w : World} {id : ID} {t : Tables}

/-- A service whose result is dropped. -/
theorem returns_dropped {α : Type} {p : Service α} {a : α} {w' : World} (h : Returns p w a w') :
    Returns (p >>= fun _ => pure ()) w () w' :=
  returns_bind.2 ⟨a, w', h, returns_pure.2 ⟨rfl, rfl⟩⟩

theorem query_bind_returns {β : Type} {q : StoreCall} {o : q.Out} {f : q.Out → Service β}
    {b : β} {t' : Tables} (hq : q.apply w.tables = .ok (o, t))
    (hf : ∀ w₁ : World, w₁.tables = t → ∃ w', Returns (f o) w₁ b w' ∧ w'.tables = t') :
    ∃ w', Returns (query q >>= f) w b w' ∧ w'.tables = t' := by
  obtain ⟨w₁, h₁, ht₁⟩ := query_returns hq
  obtain ⟨w', h₂, ht'⟩ := hf w₁ ht₁
  exact ⟨w', returns_bind.2 ⟨o, w₁, h₁, h₂⟩, ht'⟩

theorem getUser_returns {u : User} (hu : getUser w.tables id = .ok u) :
    ∃ w', Returns (query (.getUser id)) w u w' ∧ w'.tables = w.tables :=
  query_returns (StoreCall.read_eq_ok.2 ⟨hu, rfl⟩)

theorem reconcile_getUser_returns {id' : ID} {u : User} (hu : getUser w.tables id = .ok u) :
    ∃ w', Returns (reconcileForUser id' >>= fun _ => query (.getUser id)) w u w' ∧
      w'.tables = w.tables := by
  obtain ⟨w₁, hdb, h₁⟩ := reconcileForUser_returns id' w
  have ht : w₁.tables = w.tables := congrArg Database.tables hdb
  obtain ⟨w', h₂, ht'⟩ := getUser_returns (w := w₁) (by rw [ht]; exact hu)
  exact ⟨w', returns_bind.2 ⟨(), w₁, h₁, h₂⟩, ht'.trans ht⟩

theorem reconcileEach_returns (ids : List ID) (w : World) :
    ∃ w', Returns (reconcileEach ids) w () w' ∧ w'.tables = w.tables := by
  induction ids generalizing w with
  | nil => exact ⟨w, rfl, rfl⟩
  | cons id rest ih =>
      obtain ⟨w₁, hdb, h₁⟩ := reconcileForUser_returns id w
      obtain ⟨w', h₂, ht⟩ := ih w₁
      exact ⟨w', returns_bind.2 ⟨(), w₁, h₁, h₂⟩, ht.trans (congrArg Database.tables hdb)⟩

/-- The row is still there after a write of rows. -/
theorem exists_getUser_of_map {t' : Tables} {f : User → User} (hf : ∀ r, (f r).id = r.id)
    (h : t'.users = t.users.map f) (hid : id ∈ t.users.map User.id) :
    ∃ u, getUser t' id = .ok u :=
  exists_getUser_iff.2 (by rw [map_id_of_map hf h]; exact hid)

theorem reactivateSuspendedTx_getUser {v : User} {now : Time} {t' : Tables}
    (h : reactivateSuspendedTx t id v now = .ok t') (hid : id ∈ t.users.map User.id) :
    ∃ u, getUser t' id = .ok u := by
  unfold reactivateSuspendedTx at h
  split_ifs at h with hc
  · exact exists_getUser_of_map (onRow_id fun _ => by rfl) (setUserStatus_users h) hid
  · cases h
    exact exists_getUser_iff.2 hid

theorem reactivateSuspended_runs {v : User} {now : Time} {t' : Tables}
    (h : reactivateSuspendedTx w.tables id v now = .ok t') :
    ∃ w', Returns (reactivateSuspended id v now) w () w' ∧ w'.tables = t' := by
  unfold reactivateSuspendedTx at h
  unfold reactivateSuspended
  split_ifs at h ⊢ with hc
  · exact query_returns (StoreCall.wrote_eq_ok.2 h)
  · cases h
    exact ⟨w, rfl, rfl⟩

namespace RowOp

/-- An operation with an effect on the tables returns, and has it. -/
theorem Effect.returns {x : RowOp} {t' : Tables} (h : x.Effect id w.tables t') :
    ∃ w', Returns (x.service id) w () w' ∧ w'.tables = t' := by
  -- every operation ends with triggers, which cannot fail, and most read the row back: it is there
  cases x with
  | update inp now =>
      obtain ⟨v, hv, hwrite⟩ := h
      obtain ⟨hmem, -⟩ := updateUser_eq_ok hwrite
      have hid : (inp.patch now v).id = id := by
        rw [← getUser_id hv]
        unfold UpdateInput.patch
        split_ifs <;> rfl
      obtain ⟨u, hu⟩ := exists_getUser_of_map (onRow_id fun _ => by rfl)
        (updateUser_users hwrite) (hid ▸ hmem)
      obtain ⟨w', hrun, ht⟩ : ∃ w', Returns (Service.update id inp now) w u w' ∧
          w'.tables = t' := by
        refine query_bind_returns (StoreCall.read_eq_ok.2 ⟨hv, rfl⟩) fun w₁ h₁ => ?_
        refine query_bind_returns (StoreCall.wrote_eq_ok.2 (h₁ ▸ hwrite)) fun w₂ h₂ => ?_
        rw [← h₂]
        exact reconcile_getUser_returns (by rw [h₂]; exact hu)
      exact ⟨w', returns_dropped hrun, ht⟩
  | rotateSubToken token =>
      obtain ⟨v, hv, hwrite⟩ := h
      obtain ⟨hmem, -⟩ := updateUser_eq_ok hwrite
      obtain ⟨u, hu⟩ := exists_getUser_of_map (onRow_id fun _ => by rfl)
        (updateUser_users hwrite) (getUser_id hv ▸ hmem)
      obtain ⟨w', hrun, ht⟩ : ∃ w', Returns (Service.rotateSubToken id token) w u w' ∧
          w'.tables = t' := by
        refine query_bind_returns (StoreCall.read_eq_ok.2 ⟨hv, rfl⟩) fun w₁ h₁ => ?_
        refine query_bind_returns (StoreCall.wrote_eq_ok.2 (h₁ ▸ hwrite)) fun w₂ h₂ => ?_
        rw [← h₂]
        exact getUser_returns (by rw [h₂]; exact hu)
      exact ⟨w', returns_dropped hrun, ht⟩
  | resetTraffic now =>
      obtain ⟨v, t₁, hv, hreset, hact⟩ := h
      have hmem : id ∈ t₁.users.map User.id := by
        rw [map_id_of_map (onRow_id fun _ => by rfl) (resetTraffic_users hreset)]
        exact exists_getUser_iff.1 ⟨v, hv⟩
      obtain ⟨u, hu⟩ := reactivateSuspendedTx_getUser hact hmem
      obtain ⟨w', hrun, ht⟩ : ∃ w', Returns (Service.resetTraffic id now) w u w' ∧
          w'.tables = t' := by
        refine query_bind_returns (StoreCall.read_eq_ok.2 ⟨hv, rfl⟩) fun w₁ h₁ => ?_
        refine query_bind_returns (StoreCall.wrote_eq_ok.2 (h₁ ▸ hreset)) fun w₂ h₂ => ?_
        obtain ⟨w₃, hact', h₃⟩ := reactivateSuspended_runs (h₂ ▸ hact)
        have hu₃ : getUser w₃.tables id = .ok u := by rw [h₃]; exact hu
        obtain ⟨w', hlast, h₄⟩ := reconcile_getUser_returns hu₃
        exact ⟨w', returns_bind.2 ⟨(), w₃, hact', hlast⟩, h₄.trans h₃⟩
      exact ⟨w', returns_dropped hrun, ht⟩
  | suspend =>
      have hwrite : setUserStatus w.tables id .disabled = .ok t' := h
      obtain ⟨u, hu⟩ := exists_getUser_of_map (onRow_id fun _ => by rfl)
        (setUserStatus_users hwrite) (requireUser_eq_ok.1 hwrite).1
      obtain ⟨w', hrun, ht⟩ : ∃ w', Returns (Service.suspend id) w u w' ∧ w'.tables = t' := by
        refine query_bind_returns (StoreCall.wrote_eq_ok.2 hwrite) fun w₁ h₁ => ?_
        rw [← h₁]
        exact reconcile_getUser_returns (by rw [h₁]; exact hu)
      exact ⟨w', returns_dropped hrun, ht⟩
  | expireDueUsers now =>
      have ht : (Store.expireDueUsers w.tables now).2 = t' := h
      refine query_bind_returns (o := (Store.expireDueUsers w.tables now).1) (t := t')
        (by rw [← ht]; rfl) fun w₁ h₁ => ?_
      rw [← h₁]
      exact reconcileEach_returns _ w₁
  | applyTrafficDeltas nodeID deltas collectedAt =>
      obtain ⟨ids, hwrite⟩ := h
      refine query_bind_returns (q := .applyTrafficDeltas nodeID deltas collectedAt) hwrite
        fun w₁ h₁ => ?_
      rw [← h₁]
      exact reconcileEach_returns _ w₁

end RowOp

end Alone

/-! ## What the writes look at -/

/-- The columns `UpdateUser` writes back. -/
structure Columns where
  planID : Option ID
  status : UserStatus
  dataLimitBytes : Option Int64
  expiresAt : Option Time
  note : String
  subToken : String
  externalID : Option String
  deriving DecidableEq

def columns (u : User) : Columns where
  planID := u.planID
  status := u.status
  dataLimitBytes := u.dataLimitBytes
  expiresAt := u.expiresAt
  note := u.note
  subToken := u.subToken
  externalID := u.externalID

theorem updateUser_congr {t : Tables} {u v : User} (hid : u.id = v.id)
    (h : columns u = columns v) : updateUser t u = updateUser t v := by
  cases u
  cases v
  simp only [columns, Columns.mk.injEq] at h hid
  obtain ⟨rfl, rfl, rfl, rfl, rfl, rfl, rfl⟩ := h
  subst hid
  rfl

/-- The patch of the columns depends on the columns only. -/
theorem columns_patch {inp : UpdateInput} {now : Time} {u v : User}
    (h : columns u = columns v) : columns (inp.patch now u) = columns (inp.patch now v) := by
  cases u
  cases v
  simp only [columns, Columns.mk.injEq] at h
  obtain ⟨rfl, rfl, rfl, rfl, rfl, rfl, rfl⟩ := h
  unfold UpdateInput.patch
  rw [apply_ite columns, apply_ite columns]
  rfl

/-- The tables with the usage of one user zeroed: what the first write of `ResetTraffic` leaves. -/
def zeroed (id : ID) (t : Tables) : Tables :=
  { t with users := t.users.map (onRow id zeroUsage) }

theorem resetTraffic_eq_ok_iff {t t' : Tables} {id : ID} :
    Store.resetTraffic t id = .ok t' ↔ id ∈ t.users.map User.id ∧ t' = zeroed id t := by
  unfold Store.resetTraffic
  rw [requireUser_eq_ok, updateWhere_id_eq_map, Except.ok.injEq]
  exact and_congr_right fun _ => eq_comm

/-- The call writes the row of the user, whatever the row is. -/
def touches (id : ID) : Stmt → Bool
  | .db (.updateUser u) => decide (u.id = id)
  | .db (.setUserStatus id' _) => decide (id' = id)
  | .db (.resetTraffic id') => decide (id' = id)
  | .db (.applyTrafficDeltas _ deltas _) => decide (id ∈ deltas.map TrafficDelta.userID)
  | _ => false

section Suspended

variable {id : ID} {t t' : Tables}

/-- A row-by-row write that passes over the row of the user commutes with zeroing its usage. -/
theorem map_zeroed {f : User → User} {rows : List User} (hf : ∀ r, (f r).id = r.id)
    (hpass : ∀ r ∈ rows, r.id = id → f r = r ∧ f (zeroUsage r) = zeroUsage r) :
    (rows.map (onRow id zeroUsage)).map f = (rows.map f).map (onRow id zeroUsage) := by
  rw [List.map_map, List.map_map]
  refine List.map_congr_left fun r hr => ?_
  by_cases hid : r.id = id
  · obtain ⟨h₁, h₂⟩ := hpass r hr hid
    simp only [Function.comp_apply, h₁, onRow_of_eq hid, h₂]
  · simp only [Function.comp_apply, onRow_of_ne hid,
      onRow_of_ne (fun h => hid ((hf r).symm.trans h))]

/-- Every row of the user is suspended. -/
def Suspended (id : ID) (t : Tables) : Prop :=
  ∀ r ∈ t.users, r.id = id → r.status = .suspended

theorem Suspended.of_users (h : Suspended id t) {f : User → User}
    (hf : ∀ r, (f r).id = r.id) (hpass : ∀ r ∈ t.users, r.id = id → f r = r)
    (hu : t'.users = t.users.map f) : Suspended id t' := by
  intro r hr hid
  rw [hu] at hr
  obtain ⟨r', hr', rfl⟩ := List.mem_map.1 hr
  have hid' : r'.id = id := (hf r').symm.trans hid
  rw [hpass r' hr' hid']
  exact h r' hr' hid'

theorem expireDue_of_suspended {now : Time} {r : User} (h : r.status = .suspended) :
    expireDue now r = r := by
  unfold expireDue dueAt
  rw [h]
  rfl

theorem expireDueUsers_zeroed (h : Suspended id t) (now : Time) :
    (Store.expireDueUsers (zeroed id t) now).2 = zeroed id (Store.expireDueUsers t now).2 := by
  have hmap : (t.users.map (onRow id zeroUsage)).map (expireDue now) =
      (t.users.map (expireDue now)).map (onRow id zeroUsage) :=
    map_zeroed (fun r => expireDue_id now r) fun r hr hid =>
      ⟨expireDue_of_suspended (h r hr hid), expireDue_of_suspended (h r hr hid)⟩
  exact congrArg (fun rows => { t with users := rows }) hmap

theorem mem_users_zeroed {r : User} (hr : r ∈ t.users) (hid : r.id ≠ id) :
    r ∈ (zeroed id t).users :=
  List.mem_map.2 ⟨r, hr, onRow_of_ne hid⟩

theorem map_id_zeroed (id : ID) (t : Tables) :
    (zeroed id t).users.map User.id = t.users.map User.id :=
  map_id_of_map (onRow_id fun _ => by rfl) rfl

theorem applyDeltaTx_zeroed {nodeID : ID} {collectedAt : Time} {d : TrafficDelta}
    (hd : d.userID ≠ id) (h : applyDeltaTx nodeID collectedAt (zeroed id t) d = .ok t') :
    ∃ t₁, applyDeltaTx nodeID collectedAt t d = .ok t₁ ∧ t' = zeroed id t₁ := by
  obtain ⟨hu, hdown, rfl⟩ | ⟨hne, hmem, hnode, hfit, rfl⟩ := applyDeltaTx_eq_ok h
  · exact ⟨t, if_pos ⟨hu, hdown⟩, rfl⟩
  · rw [map_id_zeroed] at hmem
    have hfit' : ¬ ∃ r ∈ t.users, r.id = d.userID ∧
        ¬ (fitsBigint r.usedUploadBytes d.uplink ∧ fitsBigint r.usedDownloadBytes d.downlink) := by
      rintro ⟨r, hr, hrd, hno⟩
      exact hno (hfit r (mem_users_zeroed hr fun hrid => hd (hrd.symm.trans hrid)) hrd)
    have happly : applyDeltaTx nodeID collectedAt t d = _ :=
      (if_neg hne).trans ((if_neg (not_not.2 hmem)).trans ((if_neg (not_not.2 hnode)).trans
        (if_neg hfit')))
    refine ⟨_, happly, ?_⟩
    have hmap : (t.users.map (onRow id zeroUsage)).map (fun r => charge r d) =
        (t.users.map fun r => charge r d).map (onRow id zeroUsage) :=
      map_zeroed (fun r => charge_id r d) fun r _ hid =>
        have hrd : d.userID ≠ r.id := fun hdr => hd (hdr.trans hid)
        ⟨if_neg hrd, if_neg hrd⟩
    simp only [zeroed, updateWhere_eq_charge, hmap]

theorem foldlM_applyDeltaTx_zeroed {nodeID : ID} {collectedAt : Time} {ds : List TrafficDelta}
    (hds : id ∉ ds.map TrafficDelta.userID)
    (h : ds.foldlM (applyDeltaTx nodeID collectedAt) (zeroed id t) = .ok t') :
    ∃ t₁, ds.foldlM (applyDeltaTx nodeID collectedAt) t = .ok t₁ ∧ t' = zeroed id t₁ := by
  induction ds generalizing t with
  | nil =>
      cases h
      exact ⟨t, rfl, rfl⟩
  | cons d ds ih =>
      rw [List.map_cons, List.mem_cons, not_or] at hds
      rw [List.foldlM_cons] at h
      cases hd : applyDeltaTx nodeID collectedAt (zeroed id t) d with
      | error e => rw [hd] at h; cases h
      | ok t₂ =>
          rw [hd] at h
          obtain ⟨t₁, h₁, rfl⟩ := applyDeltaTx_zeroed (fun he => hds.1 he.symm) hd
          obtain ⟨t₃, h₃, ht'⟩ := ih hds.2 h
          refine ⟨t₃, ?_, ht'⟩
          rw [List.foldlM_cons, h₁]
          exact h₃

theorem foldl_charge_of_not_mem {ds : List TrafficDelta} {r : User}
    (h : r.id ∉ ds.map TrafficDelta.userID) : ds.foldl charge r = r := by
  induction ds with
  | nil => rfl
  | cons d ds ih =>
      rw [List.map_cons, List.mem_cons, not_or] at h
      have hcharge : charge r d = r := if_neg fun he => h.1 he.symm
      rw [List.foldl_cons, hcharge, ih h.2]

theorem suspendCrossed_of_suspended {r : User} (h : r.status = .suspended) :
    suspendCrossed r = r := by
  unfold suspendCrossed crossedLimit
  rw [h]
  rfl

theorem suspendOverQuotaTx_zeroed {ids : List ID} (ht : Suspended id t)
    (h : suspendOverQuotaTx (zeroed id t) = .ok (ids, t')) :
    ∃ ids' t₁, suspendOverQuotaTx t = .ok (ids', t₁) ∧ t' = zeroed id t₁ := by
  obtain ⟨hfit, -, rfl⟩ := suspendOverQuotaTx_eq_ok h
  have hfit' : ¬ ∃ r ∈ t.users, r.status = .active ∧ r.dataLimitBytes ≠ none ∧
      fitsBigint r.usedUploadBytes r.usedDownloadBytes = false := by
    rintro ⟨r, hr, hact, hlim, hno⟩
    have hid : r.id ≠ id := fun hid => by
      rw [ht r hr hid] at hact
      cases hact
    rw [hfit r (mem_users_zeroed hr hid) hact hlim] at hno
    cases hno
  have hsuspend : suspendOverQuotaTx t = _ := if_neg hfit'
  refine ⟨_, _, hsuspend, ?_⟩
  have hmap : (t.users.map (onRow id zeroUsage)).map suspendCrossed =
      (t.users.map suspendCrossed).map (onRow id zeroUsage) :=
    map_zeroed suspendCrossed_id fun r hr hid =>
      ⟨suspendCrossed_of_suspended (ht r hr hid), suspendCrossed_of_suspended (ht r hr hid)⟩
  exact congrArg (fun rows => { t with users := rows }) hmap

/-- A commit without a delta for a suspended user does not look at the user's usage. -/
theorem applyTrafficDeltas_zeroed {nodeID : ID} {collectedAt : Time} {ds : List TrafficDelta}
    {ids : List ID} (ht : Suspended id t) (hds : id ∉ ds.map TrafficDelta.userID)
    (h : Store.applyTrafficDeltas (zeroed id t) nodeID ds collectedAt = .ok (ids, t')) :
    ∃ ids' t₁, Store.applyTrafficDeltas t nodeID ds collectedAt = .ok (ids', t₁) ∧
      t' = zeroed id t₁ := by
  obtain ⟨t₂, hloop, hlast⟩ := applyTrafficDeltas_eq_ok h
  obtain ⟨t₃, hloop', rfl⟩ := foldlM_applyDeltaTx_zeroed hds hloop
  have ht₃ : Suspended id t₃ := ht.of_users (fun r => foldl_charge_id ds r)
    (fun r _ hid => foldl_charge_of_not_mem (hid ▸ hds)) (foldlM_applyDeltaTx_users hloop')
  obtain ⟨ids', t₁, hlast', ht'⟩ := suspendOverQuotaTx_zeroed ht₃ hlast
  refine ⟨ids', t₁, ?_, ht'⟩
  unfold Store.applyTrafficDeltas
  rw [hloop']
  exact hlast'

end Suspended

end XrayApi.Service
