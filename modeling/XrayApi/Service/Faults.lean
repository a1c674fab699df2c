import XrayApi.Service.Sequential

/-!
# Requests under failing statements

A request of the services ends with an error as soon as a statement of it fails, with one exception:
a failure to list the reconcile targets is logged and dropped, and only the triggers are lost
(`Strict`). So a request returns a value under given failures exactly when it does so alone and no
statement failed but such a listing (`Strict.run_ok_iff`).
-/

set_option autoImplicit false

namespace XrayApi.Service

open Transition Store

/-- The executor that fails the statements it is told to. -/
def faultyExec : (s : Stmt) → Faulty Stmt World String → s.Res × Faulty Stmt World String :=
  Faulty.exec exec Stmt.fail

/-- The statement whose failure a request survives. -/
def Tolerated (s : Stmt) : Prop :=
  ∃ id, s = .db (.assignmentTargetsForUser id)

/-! ## Worlds that differ in the triggers -/

/-- Equal up to the trigger channels. -/
def SameButTriggers (w w' : World) : Prop :=
  w.db = w'.db ∧ w.accounts = w'.accounts ∧ w.traffic = w'.traffic ∧ w.uptime = w'.uptime

theorem exec_sameButTriggers {w w' : World} (h : SameButTriggers w w') (s : Stmt) :
    (exec s w).1 = (exec s w').1 ∧ SameButTriggers (exec s w).2 (exec s w').2 := by
  obtain ⟨hdb, hacc, htr, hup⟩ := h
  cases s with
  | db q =>
      exact ⟨by simp only [exec, hdb], by simp only [exec, hdb], hacc, htr, hup⟩
  | dial n => exact ⟨rfl, hdb, hacc, htr, hup⟩
  | removeUser n tag email =>
      exact ⟨by simp only [exec, hacc], hdb, by simp only [exec, hacc], htr, hup⟩
  | addUser n tag acc =>
      exact ⟨by simp only [exec, hacc], hdb, by simp only [exec, hacc], htr, hup⟩
  | queryUserTraffic n =>
      exact ⟨by simp only [exec, htr], hdb, hacc, by simp only [exec, htr], hup⟩
  | ping n => exact ⟨by simp only [exec, hup], hdb, hacc, htr, hup⟩
  | trigger n => exact ⟨rfl, hdb, hacc, htr, hup⟩
  | startNode node => exact ⟨rfl, hdb, hacc, htr, hup⟩
  | stopNode n => exact ⟨rfl, hdb, hacc, htr, hup⟩

/-- No program sees the trigger channels. -/
theorem run_sameButTriggers {α : Type} (p : Prog Stmt Stmt.Res α) {w w' : World}
    (h : SameButTriggers w w') : (p.run exec w).1 = (p.run exec w').1 := by
  induction p generalizing w w' with
  | ret a => rfl
  | call s k ih =>
      obtain ⟨hr, hw⟩ := exec_sameButTriggers h s
      rw [Prog.run_call, Prog.run_call, hr]
      exact ih _ hw

theorem triggerAll_run (ns : List ID) (w : World) :
    (Prog.run exec (triggerAll ns).prog w).1 = .ok () ∧
      SameButTriggers (Prog.run exec (triggerAll ns).prog w).2 w := by
  induction ns generalizing w with
  | nil => exact ⟨rfl, rfl, rfl, rfl, rfl⟩
  | cons n ns ih => exact ih (exec (.trigger n) w).2

/-! ## Strict requests -/

/-- A failed statement makes the request return an error at once; where the reconcile targets
cannot be listed, the request goes on without its triggers. -/
inductive Strict {α : Type} : Prog Stmt Stmt.Res (Except Err α) → Prop
  | ret (a : Except Err α) : Strict (.ret a)
  | strict {s : Stmt} {k : s.Res → Prog Stmt Stmt.Res (Except Err α)} : ¬ Tolerated s →
      (∀ text r, s.fail text = some r → ∃ e, k r = .ret (.error e)) → (∀ r, Strict (k r)) →
      Strict (.call s k)
  | lenient {id : ID}
      {k : Except StoreErr (List DesiredAssignment) → Prog Stmt Stmt.Res (Except Err α)}
      {rest : Prog Stmt Stmt.Res (Except Err α)} : (∀ e, k (.error e) = rest) →
      (∀ ts, k (.ok ts) = Prog.bind (triggerAll (distinctNodes ts)).prog fun _ => rest) →
      (∀ r, Strict (k r)) → Strict (.call (.db (.assignmentTargetsForUser id)) k)

theorem Strict.bind {α β : Type} {p : Service α} {f : α → Service β} (hp : Strict p)
    (hf : ∀ a, Strict (f a)) : Strict (p >>= f : Service β) := by
  change Strict (Prog.bind p (Req.continueWith f))
  induction hp with
  | ret a =>
      cases a with
      | ok a => exact hf a
      | error e => exact Strict.ret _
  | strict hs hfail hk ih =>
      refine Strict.strict hs (fun text r hr => ?_) ih
      obtain ⟨e, he⟩ := hfail text r hr
      rw [he]
      exact ⟨e, rfl⟩
  | @lenient id k rest herr hok hk ih =>
      refine @Strict.lenient β id _ (Prog.bind rest (Req.continueWith f)) (fun e => ?_)
        (fun ts => ?_) ih
      · rw [herr]
      · rw [hok, Prog.bind_assoc]

/-- A strict request returns a value under failures exactly when it does so alone and every failure
is a tolerated one. -/
theorem Strict.run_ok_iff {α : Type} {p : Prog Stmt Stmt.Res (Except Err α)} (hp : Strict p)
    (fw : Faulty Stmt World String) (hlog : ∀ s ∈ fw.failed, Tolerated s) :
    (∃ a, (p.run faultyExec fw).1 = .ok a) ↔
      (∃ a, (p.run exec fw.world).1 = .ok a) ∧
        ∀ s ∈ (p.run faultyExec fw).2.failed, Tolerated s := by
  -- statement by statement: it is answered as it would be alone, or it fails and is logged
  induction hp generalizing fw with
  | ret a => exact ⟨fun h => ⟨h, hlog⟩, fun h => h.1⟩
  | @strict s k hs hfail hk ih =>
      simp only [Prog.run_call]
      obtain ⟨fs, hx⟩ | ⟨text, r, fs, hr, hx⟩ := Faulty.exec_cases exec Stmt.fail s fw
      · rw [faultyExec, hx]
        exact ih _ ⟨(exec s fw.world).2, fs, fw.failed⟩ hlog
      · obtain ⟨e, he⟩ := hfail text r hr
        rw [faultyExec, hx, he]
        constructor
        · rintro ⟨a, ha⟩
          cases ha
        · rintro ⟨-, hall⟩
          exact (hs (hall s (List.mem_append_right _ (List.mem_singleton.2 rfl)))).elim
  | @lenient id k rest herr hok hk ih =>
      simp only [Prog.run_call]
      obtain ⟨fs, hx⟩ | ⟨text, r, fs, hr, hx⟩ :=
        Faulty.exec_cases exec Stmt.fail (.db (.assignmentTargetsForUser id)) fw
      · rw [faultyExec, hx]
        exact ih _ ⟨(exec (.db (.assignmentTargetsForUser id)) fw.world).2, fs, fw.failed⟩ hlog
      · -- without the triggers the rest of the request runs as it would with them
        cases hr
        have hq : (StoreCall.assignmentTargetsForUser id).apply fw.world.tables =
            .ok (assignmentTargetsForUser fw.world.tables id, fw.world.tables) := rfl
        have hans : (exec (.db (.assignmentTargetsForUser id)) fw.world).1 =
            .ok (assignmentTargetsForUser fw.world.tables id) := (Database.exec_of_ok hq).1
        have hsame : SameButTriggers (exec (.db (.assignmentTargetsForUser id)) fw.world).2
            fw.world := ⟨Database.ext (Database.exec_of_ok hq).2, rfl, rfl, rfl⟩
        have hlog' : ∀ s ∈ fw.failed ++ [.db (.assignmentTargetsForUser id)], Tolerated s := by
          intro s hs
          rcases List.mem_append.1 hs with hs | hs
          · exact hlog s hs
          · rw [List.mem_singleton.1 hs]
            exact ⟨id, rfl⟩
        have hrest : (Prog.run exec (k (exec (.db (.assignmentTargetsForUser id)) fw.world).1)
            (exec (.db (.assignmentTargetsForUser id)) fw.world).2).1 =
              (rest.run exec fw.world).1 := by
          rw [hans, hok, Prog.run_bind]
          have htrig := (triggerAll_run
            (distinctNodes (assignmentTargetsForUser fw.world.tables id))
            (exec (.db (.assignmentTargetsForUser id)) fw.world).2).2
          exact run_sameButTriggers rest ⟨htrig.1.trans hsame.1, htrig.2.1.trans hsame.2.1,
            htrig.2.2.1.trans hsame.2.2.1, htrig.2.2.2.trans hsame.2.2.2⟩
        rw [faultyExec, hx, hrest]
        have hih := ih (.error (.internal text))
          ⟨fw.world, fs, fw.failed ++ [.db (.assignmentTargetsForUser id)]⟩ hlog'
        rw [herr] at hih ⊢
        exact hih

/-! ## The services are strict -/

theorem not_tolerated_db {q : StoreCall} (hq : ∀ id, q ≠ .assignmentTargetsForUser id) :
    ¬ Tolerated (.db q) := by
  rintro ⟨id, h⟩
  exact hq id (Stmt.db.inj h)

theorem strict_pure {α : Type} (a : α) : Strict (pure a : Service α) := Strict.ret _

theorem strict_throw {α : Type} (e : Err) : Strict (Req.throw e : Service α) := Strict.ret _

theorem strict_query {q : StoreCall} (hq : ∀ id, q ≠ .assignmentTargetsForUser id) :
    Strict (query q) := by
  refine Strict.strict (not_tolerated_db hq) (fun text r hr => ?_) fun r => Strict.ret _
  cases hr
  exact ⟨_, rfl⟩

/-- A call whose failure the caller turns into an error of its own. -/
theorem strict_attempt_bind {α : Type} {q : StoreCall}
    (hq : ∀ id, q ≠ .assignmentTargetsForUser id) {f : Except StoreErr q.Out → Service α}
    (herr : ∀ text, ∃ e, f (.error (.internal text)) = Req.throw e) (hf : ∀ r, Strict (f r)) :
    Strict (attempt q >>= f : Service α) := by
  refine Strict.strict (not_tolerated_db hq) (fun text r hr => ?_) fun r => hf r
  cases hr
  exact herr text

theorem strict_triggerAll (ns : List ID) : Strict (triggerAll ns) := by
  induction ns with
  | nil => exact Strict.ret _
  | cons n ns ih =>
      refine Strict.strict ?_ (fun text r hr => ?_) fun _ => ih
      · rintro ⟨id, h⟩
        cases h
      · cases hr

/-- Triggers end without a value to pass on. -/
theorem triggerAll_bind_ret (ns : List ID) :
    Prog.bind (triggerAll ns).prog (fun _ => .ret (.ok ())) = (triggerAll ns).prog := by
  induction ns with
  | nil => rfl
  | cons n ns ih => exact congrArg (Prog.call (.trigger n)) (funext fun _ => ih)

theorem strict_reconcileForUser (id : ID) : Strict (reconcileForUser id) := by
  refine @Strict.lenient Unit id _ (.ret (.ok ())) (fun e => rfl) (fun ts => ?_) fun r => ?_
  · exact (triggerAll_bind_ret _).symm
  · cases r with
    | error e => exact Strict.ret _
    | ok ts => exact strict_triggerAll _

/-- The triggers and the final read of an operation. -/
theorem strict_reconcile_getUser (id id' : ID) :
    Strict (reconcileForUser id >>= fun _ => query (.getUser id') : Service User) :=
  (strict_reconcileForUser id).bind fun _ => strict_query (by simp)

theorem strict_create (inp : CreateInput) (fresh : Fresh) (now : Time) :
    Strict (create inp fresh now) := by
  unfold create
  split_ifs with hblank hids
  · exact strict_throw _
  · exact strict_throw _
  · refine Strict.bind ?_ fun limits => ?_
    · unfold snapshotLimits
      cases inp.planID with
      | none => exact strict_pure _
      | some planID => exact (strict_query (by simp)).bind fun plan => strict_pure _
    · refine (strict_query (by simp)).bind fun inbounds => ?_
      split_ifs with hlen
      · exact strict_throw _
      · exact (strict_query (by simp)).bind fun _ => strict_reconcile_getUser _ _

theorem strict_setStatusAndReconcile (id : ID) (status : UserStatus) :
    Strict (setStatusAndReconcile id status) :=
  (strict_query (by simp)).bind fun _ => strict_reconcile_getUser _ _

theorem strict_resume (id : ID) (now : Time) : Strict (resume id now) := by
  refine (strict_query (by simp)).bind fun u => ?_
  split_ifs with hquota hexp
  · exact strict_throw _
  · exact strict_throw _
  · exact strict_setStatusAndReconcile _ _

theorem strict_renew (id : ID) (inp : RenewInput) (now now' : Time) :
    Strict (renew id inp now now') := by
  unfold renew
  split_ifs with hempty
  · exact strict_throw _
  · refine (strict_query (by simp)).bind fun u => ?_
    refine Strict.bind ?_ fun u => ?_
    · unfold switchPlan
      cases inp.planID with
      | none => exact strict_pure _
      | some planID => exact (strict_query (by simp)).bind fun plan => strict_pure _
    · refine Strict.bind ?_ fun u => ?_
      · unfold resetUsage
        split_ifs with hr
        · exact (strict_query (by simp)).bind fun _ => strict_pure _
        · exact strict_pure _
      · exact (strict_query (by simp)).bind fun _ => strict_reconcile_getUser _ _

theorem strict_resolveUser (ev : BillingEvent) : Strict (resolveUser ev) := by
  have hor : ∀ field value r, Strict (orUserWith field value r) := by
    intro field value r
    cases r with
    | ok u => exact strict_pure u
    | error e => exact strict_throw _
  unfold resolveUser
  split_ifs with hext hmail
  · exact strict_attempt_bind (by simp) (fun text => ⟨_, rfl⟩) fun r => hor _ _ r
  · exact strict_attempt_bind (by simp) (fun text => ⟨_, rfl⟩) fun r => hor _ _ r
  · exact strict_throw _

theorem strict_orCreate (ev : BillingEvent) (p : ProvisionPayload) (d : Delivery)
    (r : Except StoreErr User) : Strict (orCreate ev p d r) := by
  unfold orCreate
  split
  · exact strict_pure _
  · exact strict_create _ _ _
  · exact strict_throw _

theorem strict_provision (ev : BillingEvent) (d : Delivery) : Strict (provision ev d) := by
  unfold provision
  split
  · exact strict_throw _
  · next p hp =>
      split_ifs with hext
      · exact strict_throw _
      · exact strict_attempt_bind (by simp) (fun text => ⟨_, rfl⟩) fun r => strict_orCreate ev p d r

/-- Every action is strict. -/
theorem strict_dispatch (action : Action) (ev : BillingEvent) (d : Delivery) :
    Strict (dispatch action ev d) := by
  cases action with
  | provision => exact (strict_provision ev d).bind fun u => strict_pure _
  | renew =>
      refine Strict.bind ?_ fun u => strict_pure _
      unfold renewEvent
      cases ev.renew with
      | none => exact strict_throw _
      | some p => exact (strict_resolveUser ev).bind fun u => strict_renew _ _ _ _
  | suspend =>
      refine Strict.bind ?_ fun u => strict_pure _
      exact (strict_resolveUser ev).bind fun u => strict_setStatusAndReconcile _ _
  | resume =>
      refine Strict.bind ?_ fun u => strict_pure _
      exact (strict_resolveUser ev).bind fun u => strict_resume _ _
  | cancel =>
      refine Strict.bind ?_ fun u => strict_pure _
      refine (strict_resolveUser ev).bind fun u => ?_
      exact (strict_setStatusAndReconcile _ _).bind fun _ => strict_pure _

end XrayApi.Service
