import XrayApi.Service.RowOps

/-!
# Operations one after the other

`UserOp` has the operations of the user service and of the workers that write users, on any user.
`UserOp.Effect` is what an operation does to the tables when it does something, and
`UserOp.effect_of_run` says that an operation run alone, whatever it returns, leaves the tables as
they were or has its effect.
-/

set_option autoImplicit false

namespace XrayApi.Service

open Transition Store Relational Worker

/-! ## What a run leaves -/

section Leaves

variable {α β : Type} {w : World}

/-- Alone on `w`, the request leaves tables that satisfy `post`, whatever it returns. -/
def Leaves (p : Service α) (w : World) (post : Tables → Prop) : Prop :=
  post (p.run exec w).2.tables

theorem leaves_throw {e : Err} {post : Tables → Prop} (h : post w.tables) :
    Leaves (Req.throw e : Service α) w post := h

theorem leaves_pure {a : α} {post : Tables → Prop} (h : post w.tables) :
    Leaves (pure a : Service α) w post := h

/-- A request that only reads leaves the tables. -/
theorem leaves_of_readsOnly {p : Service α} (hp : Prog.Forall ReadsOnly p) {post : Tables → Prop}
    (h : post w.tables) : Leaves p w post := by
  have hkeep : (p.run exec w).2.tables = w.tables :=
    Prog.Forall.run_invariant (I := fun v => v.tables = w.tables)
      (fun s v hs hv => (hs v _ _ (mayFail_exec s v)).trans hv) hp rfl
  unfold Leaves
  rw [hkeep]
  exact h

theorem leaves_bind {p : Service α} {f : α → Service β} {post : Tables → Prop}
    (herr : ∀ e w₁, p.run exec w = (.error e, w₁) → post w₁.tables)
    (hok : ∀ a w₁, Returns p w a w₁ → Leaves (f a) w₁ post) : Leaves (p >>= f) w post := by
  unfold Leaves
  rw [Req.run_bind]
  rcases hp : p.run exec w with ⟨r, w₁⟩
  cases r with
  | error e => exact herr e w₁ hp
  | ok a => exact hok a w₁ hp

/-- A store call that fails leaves the tables and ends the request. -/
theorem leaves_query_bind {q : StoreCall} {f : q.Out → Service β} {post : Tables → Prop}
    (herr : post w.tables)
    (hok : ∀ o t, q.apply w.tables = .ok (o, t) → ∀ w₁ : World, w₁.tables = t →
      Leaves (f o) w₁ post) : Leaves (query q >>= f) w post := by
  refine leaves_bind (fun e w₁ h => ?_) (fun o w₁ h => ?_)
  · have hrun : (query q).run exec w = ((w.db.exec q).1.mapError Err.store, World.after w q) := rfl
    rw [hrun] at h
    obtain ⟨e', -, hx⟩ | ⟨o, t, -, hx, -⟩ := w.db.exec_cases q
    · have hw₁ : World.after w q = w₁ := congrArg Prod.snd h
      rw [← hw₁]
      unfold World.after World.tables
      rw [hx]
      exact herr
    · rw [hx] at h
      cases congrArg Prod.fst h
  · obtain ⟨happly, -⟩ := returns_query.1 h
    exact hok o _ happly w₁ rfl

/-- A write followed by reads. -/
theorem leaves_write {q : StoreCall} {f : q.Out → Service β} {post : Tables → Prop}
    (herr : post w.tables) (hok : ∀ o t, q.apply w.tables = .ok (o, t) → post t)
    (hf : ∀ o, Prog.Forall ReadsOnly (f o)) : Leaves (query q >>= f) w post :=
  leaves_query_bind herr fun o t happly w₁ hw₁ =>
    leaves_of_readsOnly (hf o) (by rw [hw₁]; exact hok o t happly)

/-- A read of a row. -/
theorem leaves_getUser_bind {id : ID} {f : User → Service β} {post : Tables → Prop}
    (herr : post w.tables)
    (hok : ∀ v, getUser w.tables id = .ok v → ∀ w₁ : World, w₁.tables = w.tables →
      Leaves (f v) w₁ post) : Leaves (query (.getUser id) >>= f) w post := by
  refine leaves_query_bind herr fun v t happly w₁ hw₁ => ?_
  obtain ⟨hv, rfl⟩ := StoreCall.read_eq_ok.1 happly
  exact hok v hv w₁ hw₁

theorem leaves_dropped {p : Service α} {post : Tables → Prop} (h : Leaves p w post) :
    Leaves (p >>= fun _ => pure ()) w post := by
  refine leaves_bind (fun e w₁ hp => ?_) (fun a w₁ hp => leaves_pure ?_)
  · unfold Leaves at h
    rwa [hp] at h
  · unfold Leaves at h
    rwa [show p.run exec w = (.ok a, w₁) from hp] at h

end Leaves

theorem readsOnly_reconcileForUser (id : ID) : Prog.Forall ReadsOnly (reconcileForUser id) :=
  reconcileForUser_forall (readsOnly_assignmentTargetsForUser id) readsOnly_trigger

theorem readsOnly_reconcileEach (ids : List ID) : Prog.Forall ReadsOnly (reconcileEach ids) :=
  reconcileEach_forall readsOnly_assignmentTargetsForUser readsOnly_trigger ids

theorem readsOnly_triggerAll (ns : List ID) : Prog.Forall ReadsOnly (triggerAll ns) :=
  triggerAll_forall readsOnly_trigger ns

theorem readsOnly_query_getUser (id : ID) : Prog.Forall ReadsOnly (query (.getUser id)) :=
  ⟨readsOnly_getUser id, fun _ => trivial⟩

/-- The triggers and the last read of an operation. -/
theorem readsOnly_reconcile_getUser (id id' : ID) :
    Prog.Forall ReadsOnly (reconcileForUser id' >>= fun _ => query (.getUser id) : Service User) :=
  Req.forall_bind (readsOnly_reconcileForUser id') fun _ => readsOnly_query_getUser id

/-- After the last write an operation reads only. -/
theorem readsOnly_tail (id id' : ID) :
    Prog.Forall ReadsOnly ((reconcileForUser id' >>= fun _ => query (.getUser id)) >>=
      fun _ => pure () : Service Unit) :=
  Req.forall_bind (readsOnly_reconcile_getUser id id') fun _ => trivial

/-! ## The operations -/

/-- An operation with its arguments and clock readings. -/
inductive UserOp
  | create (inp : CreateInput) (fresh : Fresh) (now : Time)
  | row (id : ID) (x : RowOp)
  | setInbounds (id : ID) (inboundIDs : Slice ID)
  | resume (id : ID) (now : Time)
  | renew (id : ID) (inp : RenewInput) (now now' : Time)

namespace UserOp

/-- The operation; its result is dropped. -/
def service : UserOp → Service Unit
  | create inp fresh now => do
    let _ ← Service.create inp fresh now
    pure ()
  | row id x => x.service id
  | setInbounds id inboundIDs => do
    let _ ← Service.setInbounds id inboundIDs
    pure ()
  | resume id now => do
    let _ ← Service.resume id now
    pure ()
  | renew id inp now now' => do
    let _ ← Service.renew id inp now now'
    pure ()

/-- What the operation does to the tables when it does something. -/
def Effect : UserOp → Tables → Tables → Prop
  | create inp fresh now, t, t' =>
    isBlank inp.email = false ∧ inp.inboundIDs ≠ [] ∧ inboundsExist t inp.inboundIDs ∧
      ∃ limits, snapshot t inp now = .ok limits ∧
        createWithAssignmentsTx t (newUser inp fresh limits.1 limits.2)
          ((listInboundsByIDs t inp.inboundIDs).map Inbound.id) = .ok t'
  | row id x, t, t' => x.Effect id t t'
  | setInbounds id inboundIDs, t, t' => (∃ v, getUser t id = .ok v) ∧
    inboundsExist t inboundIDs.elems ∧ setAssignmentsForUserTx t id inboundIDs = .ok t'
  | resume id now, t, t' => ∃ v, getUser t id = .ok v ∧ v.overQuota = false ∧
    v.expiredAt now = false ∧ setUserStatus t id .active = .ok t'
  | renew id inp now now', t, t' => inp.nonempty ∧ ∃ v v₁ t₁, getUser t id = .ok v ∧
    switchedPlan t inp v = .ok v₁ ∧ resetUsageTx t id inp = .ok t₁ ∧
    updateUser t₁ (renewed inp now now' v₁) = .ok t'

variable {w w' : World}

/-! ### What an operation leaves -/

theorem create_leaves (inp : CreateInput) (fresh : Fresh) (now : Time) (w : World) :
    Leaves (Service.create inp fresh now) w fun t =>
      t = w.tables ∨ (create inp fresh now).Effect w.tables t := by
  unfold Service.create
  split_ifs with hblank hids
  · exact leaves_throw (Or.inl rfl)
  · exact leaves_throw (Or.inl rfl)
  · refine leaves_bind (fun e w₁ h => Or.inl ?_) (fun limits w₁ h₁ => ?_)
    · have hread : Prog.Forall ReadsOnly (snapshotLimits inp now) := by
        unfold snapshotLimits
        cases inp.planID with
        | none => trivial
        | some planID => exact ⟨readsOnly_getPlan planID, fun r => by cases r <;> trivial⟩
      have hkeep : Leaves (snapshotLimits inp now) w fun t => t = w.tables :=
        leaves_of_readsOnly hread rfl
      unfold Leaves at hkeep
      rwa [h] at hkeep
    · obtain ⟨hsnap, ht₁⟩ := snapshotLimits_returns h₁
      refine leaves_query_bind (Or.inl ht₁) fun inbounds t happly w₂ hw₂ => ?_
      obtain ⟨rfl, rfl⟩ := Prod.mk.inj (Except.ok.inj happly)
      split_ifs with hlen
      · exact leaves_throw (Or.inl (hw₂.trans ht₁))
      · refine leaves_write (Or.inl (hw₂.trans ht₁)) (fun o t hq => Or.inr ?_)
          fun o => readsOnly_reconcile_getUser _ _
        rw [hw₂, ht₁] at hq
        rw [ht₁] at hlen
        exact ⟨Bool.eq_false_iff.2 hblank, hids, not_not.1 hlen, limits, hsnap,
          StoreCall.wrote_eq_ok.1 hq⟩

theorem setInbounds_leaves (id : ID) (ids : Slice ID) (w : World) :
    Leaves (Service.setInbounds id ids) w fun t =>
      t = w.tables ∨ (setInbounds id ids).Effect w.tables t := by
  refine leaves_getUser_bind (Or.inl rfl) fun v hv w₁ hw₁ => ?_
  refine leaves_query_bind (Or.inl hw₁) fun inbounds t happly w₂ hw₂ => ?_
  obtain ⟨rfl, rfl⟩ := Prod.mk.inj (Except.ok.inj happly)
  have ht₂ : w₂.tables = w.tables := hw₂.trans hw₁
  split_ifs with hlen
  · exact leaves_throw (Or.inl ht₂)
  · refine leaves_bind (fun e w₃ h => Or.inl ?_) (fun targets w₃ h₃ => ?_)
    · cases h
    · have ht₃ : w₃.tables = w.tables := by
        rw [(returns_attempt.1 h₃).2]
        exact (World.tables_after rfl).trans ht₂
      refine leaves_write (Or.inl ht₃) (fun o t hq => Or.inr ?_) fun o =>
        Req.forall_bind (readsOnly_triggerAll _) fun _ => readsOnly_query_getUser id
      rw [ht₃] at hq
      rw [hw₁] at hlen
      exact ⟨⟨v, hv⟩, not_not.1 hlen, StoreCall.wrote_eq_ok.1 hq⟩

theorem resume_leaves (id : ID) (now : Time) (w : World) :
    Leaves (Service.resume id now) w fun t =>
      t = w.tables ∨ (resume id now).Effect w.tables t := by
  refine leaves_getUser_bind (Or.inl rfl) fun v hv w₁ hw₁ => ?_
  split_ifs with hquota hexp
  · exact leaves_throw (Or.inl hw₁)
  · exact leaves_throw (Or.inl hw₁)
  · refine leaves_write (Or.inl hw₁) (fun o t hq => Or.inr ?_)
      fun o => readsOnly_reconcile_getUser _ _
    rw [hw₁] at hq
    exact ⟨v, hv, Bool.eq_false_iff.2 hquota, Bool.eq_false_iff.2 hexp, StoreCall.wrote_eq_ok.1 hq⟩

/-- `Renew` that returns an error has written nothing. -/
theorem renew_leaves (id : ID) (inp : RenewInput) (now now' : Time) (w : World) :
    Leaves (Service.renew id inp now now') w fun t =>
      t = w.tables ∨ (renew id inp now now').Effect w.tables t := by
  by_cases hs : Succeeds (Service.renew id inp now now') w
  · obtain ⟨u, w', h⟩ := hs
    obtain ⟨hne, v, v₁, t₁, hv, hplan, hreset, hwrite, -⟩ := renew_returns h
    unfold Leaves
    rw [show (Service.renew id inp now now').run exec w = (.ok u, w') from h]
    exact Or.inr ⟨hne, v, v₁, t₁, hv, hplan, hreset, hwrite⟩
  · rw [renew_succeeds_iff, not_and_or, not_and_or] at hs
    unfold Service.renew
    split_ifs with hempty
    · exact leaves_throw (Or.inl rfl)
    · have hne : inp.nonempty := by
        by_contra hno
        simp only [RenewInput.nonempty, not_or, Int.not_lt, Bool.not_eq_true, ne_eq, not_not] at hno
        exact hempty hno
      refine leaves_getUser_bind (Or.inl rfl) fun v hv w₁ hw₁ => ?_
      have hid : id ∈ w.tables.users.map User.id := exists_getUser_iff.1 ⟨v, hv⟩
      refine leaves_bind (fun e w₂ h => Or.inl ?_) (fun v₁ w₂ h₂ => ?_)
      · have hread : Prog.Forall ReadsOnly (switchPlan inp v) := by
          unfold switchPlan
          cases inp.planID with
          | none => trivial
          | some planID => exact ⟨readsOnly_getPlan planID, fun r => by cases r <;> trivial⟩
        have hkeep : Leaves (switchPlan inp v) w₁ fun t => t = w.tables :=
          leaves_of_readsOnly hread hw₁
        unfold Leaves at hkeep
        rwa [h] at hkeep
      · have hknown : PlanKnown w.tables inp.planID := by
          have hplan := (switchPlan_returns h₂).1
          rw [hw₁] at hplan
          exact switchedPlan_succeeds_iff.1 ⟨v₁, hplan⟩
        obtain h | h | h := hs
        · exact (h hne).elim
        · exact (h hid).elim
        · exact (h hknown).elim

/-- `ResetTraffic` writes nothing or everything: the second write finds the row of the first. -/
theorem resetTraffic_leaves (id : ID) (now : Time) (w : World) :
    Leaves (Service.resetTraffic id now) w fun t =>
      t = w.tables ∨ (RowOp.resetTraffic now).Effect id w.tables t := by
  refine leaves_getUser_bind (Or.inl rfl) fun v hv w₁ hw₁ => ?_
  refine leaves_query_bind (Or.inl hw₁) fun o t happly w₂ hw₂ => ?_
  have hreset := StoreCall.wrote_eq_ok.1 happly
  rw [hw₁] at hreset
  obtain ⟨t', hact⟩ : ∃ t', reactivateSuspendedTx t id v now = .ok t' := by
    unfold reactivateSuspendedTx
    split_ifs with hc
    · refine setUserStatus_succeeds ?_
      rw [map_id_of_map (onRow_id fun _ => by rfl) (resetTraffic_users hreset)]
      exact exists_getUser_iff.1 ⟨v, hv⟩
    · exact ⟨t, rfl⟩
  obtain ⟨w₃, h₃, ht₃⟩ := reactivateSuspended_runs (w := w₂) (by rw [hw₂]; exact hact)
  refine leaves_bind (fun e w₄ h => ?_) (fun a w₄ h => ?_)
  · rw [show (reactivateSuspended id v now).run exec w₂ = (.ok (), w₃) from h₃] at h
    cases congrArg Prod.fst h
  · refine leaves_of_readsOnly (readsOnly_reconcile_getUser id id) (Or.inr ⟨v, t, hv, hreset, ?_⟩)
    rw [(h.unique h₃).2, ht₃]
    exact hact

theorem row_leaves (id : ID) (x : RowOp) (w : World) :
    Leaves (x.service id) w fun t => t = w.tables ∨ x.Effect id w.tables t := by
  cases x with
  | update inp now =>
      refine leaves_dropped (leaves_getUser_bind (Or.inl rfl) fun v hv w₁ hw₁ => ?_)
      refine leaves_write (Or.inl hw₁) (fun o t hq => Or.inr ?_)
        fun o => readsOnly_reconcile_getUser _ _
      rw [hw₁] at hq
      exact ⟨v, hv, StoreCall.wrote_eq_ok.1 hq⟩
  | rotateSubToken token =>
      refine leaves_dropped (leaves_getUser_bind (Or.inl rfl) fun v hv w₁ hw₁ => ?_)
      refine leaves_write (Or.inl hw₁) (fun o t hq => Or.inr ?_) fun o => readsOnly_query_getUser id
      rw [hw₁] at hq
      exact ⟨v, hv, StoreCall.wrote_eq_ok.1 hq⟩
  | resetTraffic now => exact leaves_dropped (resetTraffic_leaves id now w)
  | suspend =>
      refine leaves_dropped (leaves_write (Or.inl rfl) (fun o t hq => Or.inr ?_)
        fun o => readsOnly_reconcile_getUser _ _)
      exact StoreCall.wrote_eq_ok.1 hq
  | expireDueUsers now =>
      refine leaves_write (Or.inl rfl) (fun o t hq => Or.inr ?_) readsOnly_reconcileEach
      exact congrArg Prod.snd (Except.ok.inj hq)
  | applyTrafficDeltas n ds collectedAt =>
      exact leaves_write (Or.inl rfl) (fun o t hq => Or.inr ⟨o, hq⟩) readsOnly_reconcileEach

/-- An operation run alone, whatever it returns, leaves the tables or has its effect. -/
theorem effect_of_run (x : UserOp) (w : World) :
    (x.service.run exec w).2.tables = w.tables ∨
      x.Effect w.tables (x.service.run exec w).2.tables := by
  cases x with
  | create inp fresh now => exact leaves_dropped (create_leaves inp fresh now w)
  | row id x => exact row_leaves id x w
  | setInbounds id ids => exact leaves_dropped (setInbounds_leaves id ids w)
  | resume id now => exact leaves_dropped (resume_leaves id now w)
  | renew id inp now now' => exact leaves_dropped (renew_leaves id inp now now' w)

theorem of_returns_dropped {α : Type} {p : Service α}
    (h : Returns (p >>= fun _ => pure ()) w () w') :
    ∃ a, Returns p w a w' := by
  obtain ⟨a, w₁, hp, hpure⟩ := returns_bind.1 h
  obtain ⟨-, rfl⟩ := returns_pure.1 hpure
  exact ⟨a, hp⟩

/-- An operation that returns a value has had its effect. -/
theorem effect_of_returns {x : UserOp} (h : Returns x.service w () w') :
    x.Effect w.tables w'.tables := by
  cases x with
  | create inp fresh now =>
      obtain ⟨u, hu⟩ := of_returns_dropped h
      obtain ⟨hblank, hids, hexist, limits, hsnap, hwrite, -⟩ := create_returns hu
      exact ⟨hblank, hids, hexist, limits, hsnap, hwrite⟩
  | setInbounds id ids =>
      obtain ⟨u, hu⟩ := of_returns_dropped h
      obtain ⟨v, hv, hexist, hwrite, -⟩ := setInbounds_returns hu
      exact ⟨⟨v, hv⟩, hexist, hwrite⟩
  | resume id now =>
      obtain ⟨u, hu⟩ := of_returns_dropped h
      obtain ⟨v, hv, hquota, hexp, hwrite, -⟩ := resume_returns hu
      exact ⟨v, hv, hquota, hexp, hwrite⟩
  | renew id inp now now' =>
      obtain ⟨u, hu⟩ := of_returns_dropped h
      obtain ⟨hne, v, v₁, t₁, hv, hplan, hreset, hwrite, -⟩ := renew_returns hu
      exact ⟨hne, v, v₁, t₁, hv, hplan, hreset, hwrite⟩
  | row id x =>
      cases x with
      | update inp now =>
          obtain ⟨u, hu⟩ := of_returns_dropped h
          obtain ⟨v, hv, hwrite, -⟩ := update_returns hu
          exact ⟨v, hv, hwrite⟩
      | rotateSubToken token =>
          obtain ⟨u, hu⟩ := of_returns_dropped h
          obtain ⟨v, hv, hwrite, -⟩ := rotateSubToken_returns hu
          exact ⟨v, hv, hwrite⟩
      | resetTraffic now =>
          obtain ⟨u, hu⟩ := of_returns_dropped h
          obtain ⟨v, t, hv, hreset, hact, -⟩ := resetTraffic_returns hu
          exact ⟨v, t, hv, hreset, hact⟩
      | suspend =>
          obtain ⟨u, hu⟩ := of_returns_dropped h
          exact (setStatusAndReconcile_returns hu).1
      | expireDueUsers now =>
          obtain ⟨ids, w₁, h₁, h₂⟩ := returns_bind.1 h
          have hq := (returns_query.1 h₁).1
          obtain ⟨w₂, h₃, ht⟩ := reconcileEach_returns ids w₁
          rw [(h₂.unique h₃).2, ht]
          exact congrArg Prod.snd (Except.ok.inj hq)
      | applyTrafficDeltas n ds collectedAt =>
          obtain ⟨ids, w₁, h₁, h₂⟩ := returns_bind.1 h
          have hq := (returns_query.1 h₁).1
          obtain ⟨w₂, h₃, ht⟩ := reconcileEach_returns ids w₁
          rw [(h₂.unique h₃).2, ht]
          exact ⟨ids, hq⟩

/-- An operation with an effect on the tables succeeds. -/
theorem Effect.succeeds {x : UserOp} {t : Tables} (h : x.Effect w.tables t) :
    Succeeds x.service w := by
  cases x with
  | create inp fresh now =>
      obtain ⟨hblank, hids, hexist, limits, hsnap, hwrite⟩ := h
      obtain ⟨hconf, -, -⟩ := createWithAssignmentsTx_eq_ok hwrite
      have hplan := snapshot_succeeds_iff.1 ⟨limits, hsnap⟩
      exact succeeds_bind_pure.2 (create_succeeds_iff.2 ⟨hblank, hids, hexist, hplan, hconf⟩)
  | row id x =>
      obtain ⟨w', h, -⟩ := RowOp.Effect.returns h
      exact ⟨(), w', h⟩
  | setInbounds id ids =>
      obtain ⟨⟨v, hv⟩, hexist, hwrite⟩ := h
      -- its statements one by one; the tables change at the fourth only
      refine succeeds_bind_pure.2 (succeeds_query_bind (StoreCall.read_eq_ok.2 ⟨hv, rfl⟩)
        fun w₁ ht₁ => succeeds_query_bind rfl fun w₂ ht₂ => ?_)
      have hexist' : (listInboundsByIDs w₁.tables ids.elems).length = (dedup ids.elems).length := by
        rw [ht₁]
        exact hexist
      rw [if_neg (not_not.2 hexist')]
      have hattempt : Returns (attempt (.assignmentTargetsForUser id)) w₂ _
        (World.after w₂ (.assignmentTargetsForUser id)) := returns_attempt.2 ⟨rfl, rfl⟩
      refine succeeds_bind hattempt ?_
      have ht₃ : (World.after w₂ (.assignmentTargetsForUser id)).tables = w.tables :=
        (World.tables_after rfl).trans (ht₂.trans ht₁)
      refine succeeds_query_bind (StoreCall.wrote_eq_ok.2 (by rw [ht₃]; exact hwrite))
        fun w₄ ht₄ => ?_
      obtain ⟨w₅, hdb, h₅⟩ := triggerAll_returns (dedup
        (((w₂.db.exec (.assignmentTargetsForUser id)).1.toOption.getD []).map
          DesiredAssignment.nodeID ++
            (listInboundsByIDs w₁.tables ids.elems).map Inbound.nodeID)) w₄
      refine succeeds_bind h₅ ?_
      have ht₅ : w₅.tables = t := (congrArg Database.tables hdb).trans ht₄
      have hv₅ : getUser w₅.tables id = .ok v := by
        rw [getUser_eq_ok, ht₅, (setAssignmentsForUserTx_static hwrite).1]
        exact getUser_eq_ok.1 hv
      obtain ⟨w₆, h₆, -⟩ := getUser_returns hv₅
      exact ⟨v, w₆, h₆⟩
  | resume id now =>
      obtain ⟨v, hv, hquota, hexp, -⟩ := h
      exact succeeds_bind_pure.2 (resume_succeeds_iff.2 ⟨v, hv, hquota, hexp⟩)
  | renew id inp now now' =>
      obtain ⟨hne, v, v₁, t₁, hv, hplan, -, -⟩ := h
      exact succeeds_bind_pure.2 (renew_succeeds_iff.2
        ⟨hne, exists_getUser_iff.1 ⟨v, hv⟩, switchedPlan_succeeds_iff.1 ⟨v₁, hplan⟩⟩)

/-- An operation that is refused has written nothing. -/
theorem unchanged_of_not_succeeds {x : UserOp} (h : ¬ Succeeds x.service w) :
    (x.service.run exec w).2.tables = w.tables :=
  (effect_of_run x w).resolve_right fun heffect => h heffect.succeeds

end UserOp

end XrayApi.Service
