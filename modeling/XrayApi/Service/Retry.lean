import XrayApi.Service.Acceptance
import XrayApi.Service.Faults

/-!
# Redelivery of failed events

`Process` records the id of an event before it executes the action, in a statement of its own, and
never takes the record back. A delivery that fails after that is answered as a duplicate when it
comes again. `process_retriable_iff` says when a failed delivery can be repeated.
-/

set_option autoImplicit false

namespace XrayApi.Service

open Transition Store Relational

/-! ## Recorded events stay -/

theorem applyTrafficDeltas_webhookEvents {t t' : Tables} {nodeID : ID}
    {deltas : List TrafficDelta} {collectedAt : Time} {ids : List ID}
    (h : applyTrafficDeltas t nodeID deltas collectedAt = .ok (ids, t')) :
    t'.webhookEvents = t.webhookEvents := by
  obtain ⟨t₁, hloop, -, -, rfl⟩ := applyTrafficDeltas_inv h
  have hround : ∀ s d s', s.webhookEvents = t.webhookEvents →
      applyDeltaTx nodeID collectedAt s d = .ok s' → s'.webhookEvents = t.webhookEvents := by
    intro s d s' hs hd
    obtain ⟨-, -, rfl⟩ | ⟨-, -, -, -, rfl⟩ := applyDeltaTx_eq_ok hd
    · exact hs
    · exact hs
  have hkeep : t₁.webhookEvents = t.webhookEvents := foldlM_invariant hround deltas rfl hloop
  exact hkeep

/-- No store call deletes a recorded event. -/
theorem apply_webhookEvents (q : StoreCall) {t t' : Tables} {o : q.Out}
    (h : q.apply t = .ok (o, t')) {x : String} (hx : x ∈ t.webhookEvents.map WebhookEvent.id) :
    x ∈ t'.webhookEvents.map WebhookEvent.id := by
  by_cases hq : q.isWrite = false
  · rw [StoreCall.apply_of_isWrite_eq_false hq h]
    exact hx
  · -- one call writes this table, and it appends; the others write other tables
    cases q with
    | createPlan p =>
        obtain ⟨-, -, rfl⟩ := createPlan_eq_ok (StoreCall.wrote_eq_ok.1 h)
        exact hx
    | updatePlan p =>
        obtain ⟨-, -, rfl⟩ := updatePlan_eq_ok (StoreCall.wrote_eq_ok.1 h)
        exact hx
    | deletePlan id =>
        cases (requirePlan_eq_ok.1 (StoreCall.wrote_eq_ok.1 h)).2
        exact hx
    | createNode n =>
        obtain ⟨-, -, rfl⟩ := createNode_eq_ok (StoreCall.wrote_eq_ok.1 h)
        exact hx
    | updateNode n =>
        obtain ⟨-, -, rfl⟩ := updateNode_eq_ok (StoreCall.wrote_eq_ok.1 h)
        exact hx
    | deleteNode id =>
        cases (requireNode_eq_ok.1 (StoreCall.wrote_eq_ok.1 h)).2
        exact hx
    | setNodeHealth id status lastErr seenAt =>
        rw [(setNodeHealth_eq_ok (StoreCall.wrote_eq_ok.1 h)).2]
        exact hx
    | updateInbound ib =>
        obtain ⟨-, -, rfl⟩ := updateInbound_eq_ok (StoreCall.wrote_eq_ok.1 h)
        exact hx
    | deleteInbound id =>
        cases (requireInbound_eq_ok.1 (StoreCall.wrote_eq_ok.1 h)).2
        exact hx
    | createWithAssignmentsTx u ids =>
        rw [(createWithAssignmentsTx_static (StoreCall.wrote_eq_ok.1 h)).2.2]
        exact hx
    | updateUser u =>
        obtain ⟨-, -, -, rfl⟩ := updateUser_eq_ok (StoreCall.wrote_eq_ok.1 h)
        exact hx
    | setUserStatus id status =>
        cases (requireUser_eq_ok.1 (StoreCall.wrote_eq_ok.1 h)).2
        exact hx
    | resetTraffic id =>
        cases (requireUser_eq_ok.1 (StoreCall.wrote_eq_ok.1 h)).2
        exact hx
    | deleteUser id =>
        cases (requireUser_eq_ok.1 (StoreCall.wrote_eq_ok.1 h)).2
        exact hx
    | expireDueUsers now => cases h; exact hx
    | recordWebhookEvent eventID action =>
        have ht : t' = (recordWebhookEvent t eventID action).2 := by
          rw [Except.ok.inj h]
        rw [ht]
        unfold recordWebhookEvent
        split_ifs with hmem
        · exact hx
        · rw [List.map_append]
          exact List.mem_append_left _ hx
    | markAssignmentSynced userID inboundID status errMsg => cases h; exact hx
    | markAssignmentsRemovingForUser userID => cases h; exact hx
    | deleteAssignment userID inboundID => cases h; exact hx
    | setAssignmentsForUserTx userID ids =>
        rw [(setAssignmentsForUserTx_static (StoreCall.wrote_eq_ok.1 h)).2.2.2]
        exact hx
    | applyTrafficDeltas nodeID deltas collectedAt =>
        rw [applyTrafficDeltas_webhookEvents h]
        exact hx
    | _ => exact (hq rfl).elim

/-- The event id is recorded. -/
def Recorded (eventID : String) (w : World) : Prop :=
  eventID ∈ w.tables.webhookEvents.map WebhookEvent.id

theorem exec_recorded {eventID : String} {w : World} (h : Recorded eventID w) (s : Stmt) :
    Recorded eventID (exec s w).2 := by
  cases s with
  | db q =>
      change eventID ∈ (w.db.exec q).2.tables.webhookEvents.map WebhookEvent.id
      obtain ⟨e, -, hx⟩ | ⟨o, t, hq, -, ht⟩ := w.db.exec_cases q
      · rw [hx]
        exact h
      · rw [ht]
        exact apply_webhookEvents q hq h
  | dial n => exact h
  | removeUser n tag email => exact h
  | addUser n tag acc => exact h
  | queryUserTraffic n => exact h
  | ping n => exact h
  | trigger n => exact h
  | startNode node => exact h
  | stopNode n => exact h

theorem run_faulty_recorded {α : Type} {eventID : String} (p : Prog Stmt Stmt.Res α)
    {fw : Faulty Stmt World String} (h : Recorded eventID fw.world) :
    Recorded eventID (p.run faultyExec fw).2.world := by
  induction p generalizing fw with
  | ret a => exact h
  | call s k ih =>
      rw [Prog.run_call]
      refine ih _ ?_
      obtain ⟨fs, hx⟩ | ⟨text, r, fs, -, hx⟩ := Faulty.exec_cases exec Stmt.fail s fw
      · rw [faultyExec, hx]
        exact exec_recorded h s
      · rw [faultyExec, hx]
        exact h

/-! ## Deliveries -/

/-- The action of a delivery and its result. -/
def act (action : Action) (ev : BillingEvent) (d : Delivery) : Service BillingResult := do
  let user ← dispatch action ev d
  pure ⟨false, ev.action, user⟩

/-- A delivery of `ev` after `w`, in any world where nothing else recorded the event, executes the
action after it recorded the event. -/
def Reexecutes (action : Action) (ev : BillingEvent) (w : World) : Prop :=
  ∀ (w' : World) (d : Delivery), (Recorded ev.eventID w' → Recorded ev.eventID w) →
    (process (.ok ev) d).run exec w' =
      (act action ev d).run exec (World.after w' (.recordWebhookEvent ev.eventID ev.action))

/-- If the delivery failed, the event can be delivered again. -/
def Retriable (action : Action) (ev : BillingEvent)
    (out : Except Err BillingResult × Faulty Stmt World String) : Prop :=
  ∀ e, out.1 = .error e → Reexecutes action ev out.2.world

variable {action : Action} {ev : BillingEvent} {w : World} {d : Delivery}

theorem process_eq_execute (hid : ev.eventID ≠ "") (haction : parseAction ev.action = some action) :
    process (.ok ev) d = execute action ev d := by
  unfold process
  simp only [if_neg hid, haction]

theorem exec_record_fresh (h : ¬ Recorded ev.eventID w) :
    (w.db.exec (.recordWebhookEvent ev.eventID ev.action)).1 = .ok true ∧
      (World.after w (.recordWebhookEvent ev.eventID ev.action)).tables =
        { w.tables with webhookEvents := w.tables.webhookEvents ++ [⟨ev.eventID, ev.action⟩] } := by
  have hrec : recordWebhookEvent w.tables ev.eventID ev.action =
      (true, { w.tables with
        webhookEvents := w.tables.webhookEvents ++ [⟨ev.eventID, ev.action⟩] }) := if_neg h
  have happly : (StoreCall.recordWebhookEvent ev.eventID ev.action).apply w.tables =
      .ok (recordWebhookEvent w.tables ev.eventID ev.action) := rfl
  rw [hrec] at happly
  exact Database.exec_of_ok happly

theorem exec_record_known (h : Recorded ev.eventID w) :
    (w.db.exec (.recordWebhookEvent ev.eventID ev.action)).1 = .ok false := by
  have hrec : recordWebhookEvent w.tables ev.eventID ev.action = (false, w.tables) := if_pos h
  have happly : (StoreCall.recordWebhookEvent ev.eventID ev.action).apply w.tables =
      .ok (recordWebhookEvent w.tables ev.eventID ev.action) := rfl
  rw [hrec] at happly
  exact (Database.exec_of_ok happly).1

theorem execute_run_fresh (h : ¬ Recorded ev.eventID w) :
    (execute action ev d).run exec w =
      (act action ev d).run exec (World.after w (.recordWebhookEvent ev.eventID ev.action)) := by
  refine Req.run_bind_of_ok (a := true) ?_
  change ((w.db.exec _).1.mapError Err.store, _) = _
  rw [(exec_record_fresh h).1]
  rfl

theorem execute_run_known (h : Recorded ev.eventID w) :
    (execute action ev d).run exec w = (.ok ⟨true, ev.action, none⟩,
      World.after w (.recordWebhookEvent ev.eventID ev.action)) := by
  refine Req.run_bind_of_ok (a := false) ?_
  change ((w.db.exec _).1.mapError Err.store, _) = _
  rw [exec_record_known h]
  rfl

/-- An executed action is not reported as a duplicate. -/
theorem act_returns {r : BillingResult} {w' : World} (h : Returns (act action ev d) w r w') :
    r.duplicate = false := by
  obtain ⟨user, w₁, -, h₂⟩ := returns_bind.1 h
  rw [(returns_pure.1 h₂).1]

/-- A redelivery executes the action exactly when the event is not recorded. -/
theorem reexecutes_iff (hid : ev.eventID ≠ "") (haction : parseAction ev.action = some action)
    (d : Delivery) : Reexecutes action ev w ↔ ¬ Recorded ev.eventID w := by
  constructor
  · intro h hrec
    have hrun := h w d id
    rw [process_eq_execute hid haction, execute_run_known hrec] at hrun
    have hdup := act_returns (Eq.symm hrun)
    cases hdup
  · intro h w' d' hw'
    rw [process_eq_execute hid haction]
    exact execute_run_fresh fun hrec => h (hw' hrec)

theorem strict_act (action : Action) (ev : BillingEvent) (d : Delivery) :
    Strict (act action ev d) :=
  (strict_dispatch action ev d).bind fun _ => strict_pure _

/-- Recording the event does not change what the action finds. -/
theorem act_succeeds_iff (h : ¬ Recorded ev.eventID w) :
    Succeeds (act action ev d) (World.after w (.recordWebhookEvent ev.eventID ev.action)) ↔
      Accepts w.tables ev d action := by
  refine succeeds_bind_pure.trans ((dispatch_succeeds_iff action).trans ?_)
  rw [(exec_record_fresh h).2]
  cases action with
  | provision =>
      refine exists_congr fun p => and_congr_right fun _ => and_congr_right fun _ =>
        or_congr_right ?_
      exact ⟨fun h => ⟨h.email, h.inbounds, h.exist, h.plan, h.unused⟩,
        fun h => ⟨h.email, h.inbounds, h.exist, h.plan, h.unused⟩⟩
  | renew => exact Iff.rfl
  | suspend => exact Iff.rfl
  | resume => exact Iff.rfl
  | cancel => exact Iff.rfl

theorem succeeds_iff_run {α : Type} {p : Service α} {w : World} :
    Succeeds p w ↔ ∃ a, (Prog.run exec p w).1 = .ok a := by
  constructor
  · rintro ⟨a, w', h⟩
    exact ⟨a, congrArg Prod.fst h⟩
  · rintro ⟨a, h⟩
    exact ⟨a, _, Prod.ext h rfl⟩

/-- A first delivery whose record was written. -/
theorem process_run_recorded (hid : ev.eventID ≠ "")
    (haction : parseAction ev.action = some action) (hnew : ¬ Recorded ev.eventID w)
    {faults : List (Option String)} (hf : ¬ ∃ text fs, faults = some text :: fs) :
    ∃ fs, (process (.ok ev) d).run faultyExec ⟨w, faults, []⟩ =
      (act action ev d).run faultyExec
        ⟨World.after w (.recordWebhookEvent ev.eventID ev.action), fs, []⟩ := by
  rw [process_eq_execute hid haction]
  obtain ⟨fs, hx⟩ : ∃ fs, faultyExec (.db (.recordWebhookEvent ev.eventID ev.action))
      ⟨w, faults, []⟩ = (.ok true,
        ⟨World.after w (.recordWebhookEvent ev.eventID ev.action), fs, []⟩) := by
    have hans := (exec_record_fresh hnew).1
    unfold faultyExec Faulty.exec
    cases faults with
    | nil => exact ⟨[], Prod.ext hans rfl⟩
    | cons f fs =>
        cases f with
        | none => exact ⟨fs, Prod.ext hans rfl⟩
        | some text => exact (hf ⟨text, fs, rfl⟩).elim
  refine ⟨fs, Req.run_bind_of_ok (a := true) ?_⟩
  have hq : (query (.recordWebhookEvent ev.eventID ev.action)).run faultyExec ⟨w, faults, []⟩ =
      (Except.mapError Err.store
        (faultyExec (.db (.recordWebhookEvent ev.eventID ev.action)) ⟨w, faults, []⟩).1,
        (faultyExec (.db (.recordWebhookEvent ev.eventID ev.action)) ⟨w, faults, []⟩).2) := rfl
  rw [hq, hx]
  rfl

/-- A delivery of a new, well-formed event can be repeated after a failure exactly when it fails at
the record itself or does not fail at all: the action is accepted, and no statement fails but a
listing of reconcile targets. -/
theorem process_retriable_iff (hid : ev.eventID ≠ "")
    (haction : parseAction ev.action = some action) (hnew : ¬ Recorded ev.eventID w)
    (d : Delivery) (faults : List (Option String)) :
    Retriable action ev ((process (.ok ev) d).run faultyExec ⟨w, faults, []⟩) ↔
      (∃ text fs, faults = some text :: fs) ∨
        (Accepts w.tables ev d action ∧
          ∀ s ∈ ((process (.ok ev) d).run faultyExec ⟨w, faults, []⟩).2.failed, Tolerated s) := by
  by_cases hf : ∃ text fs, faults = some text :: fs
  · -- the record fails and nothing has been written
    refine ⟨fun _ => Or.inl hf, fun _ e _ => (reexecutes_iff hid haction d).2 ?_⟩
    obtain ⟨text, fs, rfl⟩ := hf
    rw [process_eq_execute hid haction]
    exact hnew
  · rw [or_iff_right hf]
    obtain ⟨fs, hrun⟩ := process_run_recorded (d := d) hid haction hnew hf
    rw [hrun]
    have hrec : Recorded ev.eventID (World.after w (.recordWebhookEvent ev.eventID ev.action)) := by
      unfold Recorded
      rw [(exec_record_fresh hnew).2]
      simp
    have hstay : Recorded ev.eventID ((act action ev d).run faultyExec
        ⟨World.after w (.recordWebhookEvent ev.eventID ev.action), fs, []⟩).2.world :=
      run_faulty_recorded _ hrec
    have hok := (strict_act action ev d).run_ok_iff
      ⟨World.after w (.recordWebhookEvent ev.eventID ev.action), fs, []⟩ (fun s hs => by cases hs)
    rw [← succeeds_iff_run, act_succeeds_iff hnew] at hok
    refine Iff.trans ?_ hok
    unfold Retriable
    constructor
    · intro h
      cases hres : ((act action ev d).run faultyExec
          ⟨World.after w (.recordWebhookEvent ev.eventID ev.action), fs, []⟩).1 with
      | ok a => exact ⟨a, hres⟩
      | error e => exact ((reexecutes_iff hid haction d).1 (h e hres) hstay).elim
    · rintro ⟨a, ha⟩ e he
      have hae := Eq.trans (Eq.symm ha) he
      cases hae

/-! ## A delivery that cannot be repeated -/

/-- One inbound and no user. -/
def unsold : World :=
  .still ⟨{ Tables.empty with
      nodes := [.plain "n1"], inbounds := [.plain "i1" "n1" "in1" .vless] },
    by constructor <;> simp [Tables.empty, UniqueNonNull, Inbound.plain, Node.plain]⟩

/-- A `suspend` event that names its user by email. -/
def suspendEvent : BillingEvent := ⟨"evt-1", "suspend", "", "a@example.com", none, none⟩

def firstDelivery : Delivery := ⟨⟨"u1", "u1", "pw", "tok"⟩, 0, 0⟩

/-- The first delivery finds no user. -/
def refused : Except Err BillingResult × Faulty Stmt World String :=
  (process (.ok suspendEvent) firstDelivery).run faultyExec ⟨unsold, [], []⟩

/-- The user is created afterwards. -/
def sold : Except Err User × World :=
  (create ⟨"a@example.com", none, ["i1"], none, none, "", none⟩ firstDelivery.fresh 0).run exec
    refused.2.world

/-- The suspension fails for want of the user. When the user exists and the event is delivered
again it is answered as a duplicate, and the user stays active. -/
theorem failed_suspend_answered_duplicate :
    refused.1 = .error (.userWith "email" "a@example.com" .notFound) ∧
      ((process (.ok suspendEvent) firstDelivery).run exec sold.2).1 =
        .ok ⟨true, "suspend", none⟩ ∧
      ((process (.ok suspendEvent) firstDelivery).run exec sold.2).2.tables.users.map User.status =
        [.active] ∧
      ¬ Retriable .suspend suspendEvent refused := by
  refine ⟨by decide, by decide, by decide, fun h => ?_⟩
  have hrun := h (.userWith "email" "a@example.com" .notFound) (by decide) sold.2 firstDelivery
    fun _ => by unfold Recorded; decide
  have hfst := congrArg Prod.fst hrun
  revert hfst
  decide

/-- A suspension whose listing of reconcile targets fails is carried out; one whose status update
fails cannot be repeated. -/
theorem process_retriable_iff_sold :
    Retriable .suspend { suspendEvent with eventID := "evt-2" }
        ((process (.ok { suspendEvent with eventID := "evt-2" }) firstDelivery).run faultyExec
          ⟨sold.2, [none, none, none, some "timeout"], []⟩) ∧
      ¬ Retriable .suspend { suspendEvent with eventID := "evt-2" }
        ((process (.ok { suspendEvent with eventID := "evt-2" }) firstDelivery).run faultyExec
          ⟨sold.2, [none, none, some "timeout"], []⟩) := by
  constructor
  · rw [process_retriable_iff (by decide) rfl (by unfold Recorded; decide)]
    refine Or.inr ⟨⟨_, rfl⟩, fun s hs => ⟨"u1", ?_⟩⟩
    exact List.mem_singleton.1 hs
  · rw [process_retriable_iff (by decide) rfl (by unfold Recorded; decide)]
    rintro (⟨text, fs, h⟩ | ⟨-, h⟩)
    · cases h
    · obtain ⟨id, hid⟩ := h (.db (.setUserStatus "u1" .disabled)) (List.mem_singleton.2 rfl)
      cases hid

end XrayApi.Service
