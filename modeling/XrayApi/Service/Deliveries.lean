import XrayApi.Service.Payments
import XrayApi.Transition.Erase

/-!
# Concurrent deliveries

Any number of `Process` calls, their statements interleaved in any order. The first statement of a
call that passes the checks of its body records the event id; its answer decides whether the action
is executed. `events_execute_once` says that at most one call per event id executes its action, and
that the calls answered as duplicates can be taken out of the run without a trace.
-/

set_option autoImplicit false

namespace XrayApi.Service

open Transition Store Relational

variable {ι : Type}

/-- Concurrent calls of `Process`. -/
abbrev DeliveryPool (ι : Type) : Type := Pool ι Stmt Stmt.Res World (Except Err BillingResult)

/-- A step of one of the calls. -/
abbrev DeliveryAct (ι : Type) : Type := Act ι Stmt Stmt.Res (Except Err BillingResult)

/-- The calls, each with its body and its clock readings and random values, before their first
statement. -/
def deliveries (c : ι → Except String BillingEvent × Delivery) (w : World) : DeliveryPool ι :=
  ⟨w, fun i => process (c i).1 (c i).2⟩

/-- The body is an event that passes the checks before the record. -/
def Checked (body : Except String BillingEvent) (ev : BillingEvent) : Prop :=
  body = .ok ev ∧ ev.eventID ≠ "" ∧ parseAction ev.action ≠ none

/-- The statement that records the event. -/
abbrev record (ev : BillingEvent) : Stmt := .db (.recordWebhookEvent ev.eventID ev.action)

/-- The call recorded the event, and so goes on to execute its action. -/
def Executes (as : List (DeliveryAct ι)) (i : ι) (ev : BillingEvent) : Prop :=
  Act.call i (record ev) (.ok true) ∈ as

/-- The call has been answered as a duplicate. -/
def answeredDuplicate : Prog Stmt Stmt.Res (Except Err BillingResult) → Bool
  | .ret (.ok r) => r.duplicate
  | _ => false

/-! ## The record -/

section Record

variable {ev : BillingEvent} {w w' : World}

/-- A record that succeeds inserted the event, or found it. -/
theorem record_ok {fresh : Bool} (h : MayFail (record ev) w (.ok fresh) w') :
    (fresh = true ∧ ¬ Recorded ev.eventID w ∧ w'.tables = { w.tables with
      webhookEvents := w.tables.webhookEvents ++ [⟨ev.eventID, ev.action⟩] }) ∨
    (fresh = false ∧ Recorded ev.eventID w ∧ w' = w) := by
  obtain ⟨o, t, happly, hrows, hw', ht⟩ := answers_db_ok (mayFail_ok h rfl)
  have hrows : fresh = o := hrows
  have happly : recordWebhookEvent w.tables ev.eventID ev.action = (o, t) :=
    Except.ok.inj happly
  unfold recordWebhookEvent at happly
  split_ifs at happly with hmem
  · obtain ⟨rfl, rfl⟩ := Prod.mk.inj happly
    have hdb : w'.db = w.db := Database.ext ht
    rw [hw'] at hdb ⊢
    exact Or.inr ⟨hrows, hmem, congrArg (fun db => { w with db }) hdb⟩
  · obtain ⟨rfl, rfl⟩ := Prod.mk.inj happly
    exact Or.inl ⟨hrows, hmem, ht⟩

theorem recorded_append {eventID : String}
    (h : w'.tables = { w.tables with
      webhookEvents := w.tables.webhookEvents ++ [⟨ev.eventID, ev.action⟩] }) :
    Recorded eventID w' ↔ Recorded eventID w ∨ eventID = ev.eventID := by
  unfold Recorded
  rw [h]
  simp

/-- No statement deletes a record. -/
theorem mayFail_recorded {s : Stmt} {r : s.Res} {eventID : String} (h : MayFail s w r w')
    (hrec : Recorded eventID w) : Recorded eventID w' := by
  cases s with
  | db q =>
      obtain ⟨e, -, ht⟩ | ⟨a, o, -, -, happly⟩ := mayFail_db h
      · unfold Recorded
        rw [ht]
        exact hrec
      · exact apply_webhookEvents q happly hrec
  | dial n =>
      obtain h | ⟨rfl, -⟩ := mayFail_cases h
      · cases h; exact hrec
      · exact hrec
  | removeUser n tag email =>
      obtain h | ⟨rfl, -⟩ := mayFail_cases h
      · cases h; exact hrec
      · exact hrec
  | addUser n tag acc =>
      obtain h | ⟨rfl, -⟩ := mayFail_cases h
      · cases h; exact hrec
      · exact hrec
  | queryUserTraffic n =>
      obtain h | ⟨rfl, -⟩ := mayFail_cases h
      · cases h; exact hrec
      · exact hrec
  | ping n =>
      obtain h | ⟨rfl, -⟩ := mayFail_cases h
      · cases h; exact hrec
      · exact hrec
  | trigger n =>
      obtain h | ⟨rfl, -⟩ := mayFail_cases h
      · cases h; exact hrec
      · exact hrec
  | startNode node =>
      obtain h | ⟨rfl, -⟩ := mayFail_cases h
      · cases h; exact hrec
      · exact hrec
  | stopNode n =>
      obtain h | ⟨rfl, -⟩ := mayFail_cases h
      · cases h; exact hrec
      · exact hrec

end Record

/-! ## Where a call is -/

/-- The call has not begun; it executes its action, and will not be answered as a duplicate; or it
has been, and its only statement was the record. -/
def Handled (c : ι → Except String BillingEvent × Delivery) (as : List (DeliveryAct ι))
    (P : DeliveryPool ι) (i : ι) : Prop :=
  (P.prog i = process (c i).1 (c i).2 ∧ ∀ a ∈ as, a.thread ≠ i) ∨
    ∃ ev, Checked (c i).1 ev ∧
      ((Executes as i ev ∧ (P.prog i).Yields fun r => ∀ b, r = .ok b → b.duplicate = false) ∨
        (P.prog i = .ret (.ok ⟨true, ev.action, none⟩) ∧
          ∀ a ∈ as, a.thread = i → a = .call i (record ev) (.ok false)))

/-- The executed calls have recorded their events, each another one. -/
structure Distinct (as : List (DeliveryAct ι)) (w : World) : Prop where
  recorded : ∀ i ev, Executes as i ev → Recorded ev.eventID w
  once : ∀ i j ev ev', Executes as i ev → Executes as j ev' → ev.eventID = ev'.eventID → i = j

/-- A call that issues a statement has passed the checks, and the statement is the record. -/
theorem process_call {body : Except String BillingEvent} {d : Delivery} {s : Stmt}
    {k : s.Res → Prog Stmt Stmt.Res (Except Err BillingResult)}
    (h : process body d = Prog.call s k) :
    ∃ ev action, Checked body ev ∧ parseAction ev.action = some action ∧
      (execute action ev d : Service BillingResult) = Prog.call s k := by
  unfold process at h
  cases body with
  | error text => cases h
  | ok ev =>
      dsimp only at h
      split_ifs at h with hid
      · cases h
      · cases hact : parseAction ev.action with
        | none =>
            rw [hact] at h
            cases h
        | some action =>
            rw [hact] at h
            exact ⟨ev, action, ⟨rfl, hid, by rw [hact]; exact Option.some_ne_none _⟩, hact, h⟩

theorem act_yields (action : Action) (ev : BillingEvent) (d : Delivery) :
    Prog.Yields (fun r => ∀ b, r = .ok b → b.duplicate = false) (act action ev d) := by
  refine Req.yields_bind _ (fun e b hb => by cases hb) fun user b hb => ?_
  cases hb
  rfl

section Steps

variable {c : ι → Except String BillingEvent × Delivery} {as : List (DeliveryAct ι)}
  {P Q : DeliveryPool ι} {i j : ι} {s : Stmt} {r : s.Res}

theorem Executes.append {ev : BillingEvent} (h : Executes as i ev) (a : DeliveryAct ι) :
    Executes (as ++ [a]) i ev :=
  List.mem_append_left _ h

/-- The last step is the record of the call. -/
theorem executes_append_iff {ev : BillingEvent} {a : DeliveryAct ι} :
    Executes (as ++ [a]) i ev ↔ Executes as i ev ∨ a = .call i (record ev) (.ok true) := by
  unfold Executes
  rw [List.mem_append, List.mem_singleton, eq_comm (a := a)]

/-- A step of another call. -/
theorem Handled.other (h : Handled c as P i) (hij : i ≠ j) (hprog : Q.prog i = P.prog i) :
    Handled c (as ++ [.call j s r]) Q i := by
  have hne : (Act.call j s r : DeliveryAct ι).thread ≠ i := fun h => hij h.symm
  rw [Handled, hprog]
  obtain ⟨hfresh, hnone⟩ | ⟨ev, hev, ⟨hexec, hyields⟩ | ⟨hret, honly⟩⟩ := h
  · refine Or.inl ⟨hfresh, fun a ha => ?_⟩
    obtain ha | ha := List.mem_append.1 ha
    · exact hnone a ha
    · rw [List.mem_singleton.1 ha]
      exact hne
  · exact Or.inr ⟨ev, hev, Or.inl ⟨hexec.append _, hyields⟩⟩
  · refine Or.inr ⟨ev, hev, Or.inr ⟨hret, fun a ha hai => ?_⟩⟩
    obtain ha | ha := List.mem_append.1 ha
    · exact honly a ha hai
    · rw [List.mem_singleton.1 ha] at hai
      exact (hne hai).elim

/-- The first statement of a call. -/
theorem handled_first {k : s.Res → Prog Stmt Stmt.Res (Except Err BillingResult)}
    (hfresh : process (c i).1 (c i).2 = Prog.call s k) (hnone : ∀ a ∈ as, a.thread ≠ i)
    (hprog : Q.prog i = k r)
    (hrec : ∀ eventID action e, (⟨s, r⟩ : Event Stmt Stmt.Res) ≠
      ⟨.db (.recordWebhookEvent eventID action), .error e⟩) :
    Handled c (as ++ [.call i s r]) Q i := by
  obtain ⟨ev, action, hev, -, hexec⟩ := process_call hfresh
  -- the record: its answer says whether the action follows
  cases hexec
  cases r with
  | error e => exact (hrec _ _ e rfl).elim
  | ok fresh =>
      cases fresh with
      | true =>
          refine Or.inr ⟨ev, hev, Or.inl ⟨executes_append_iff.2 (Or.inr rfl), ?_⟩⟩
          rw [hprog]
          exact act_yields action ev (c i).2
      | false =>
          refine Or.inr ⟨ev, hev, Or.inr ⟨hprog, fun a ha hai => ?_⟩⟩
          obtain ha | ha := List.mem_append.1 ha
          · exact (hnone a ha hai).elim
          · exact List.mem_singleton.1 ha

variable [DecidableEq ι]

/-- A step of any call. -/
theorem Handled.step {sem : Sem Stmt Stmt.Res World} (h : Handled c as P i)
    (hstep : Pool.Step sem (fun _ _ => False) P (.call j s r) Q)
    (hrec : ∀ eventID action e, (⟨s, r⟩ : Event Stmt Stmt.Res) ≠
      ⟨.db (.recordWebhookEvent eventID action), .error e⟩) :
    Handled c (as ++ [.call j s r]) Q i := by
  obtain ⟨k, hj, -, hself, hothers⟩ := hstep.call_inv
  by_cases hij : i = j
  · subst hij
    obtain ⟨hfresh, hnone⟩ | ⟨ev, hev, ⟨hexec, hyields⟩ | ⟨hret, honly⟩⟩ := h
    · exact handled_first (hfresh.symm.trans hj) hnone hself hrec
    · refine Or.inr ⟨ev, hev, Or.inl ⟨hexec.append _, ?_⟩⟩
      rw [hj] at hyields
      rw [hself]
      exact hyields r
    · rw [hret] at hj
      cases hj
  · exact h.other hij (hothers i hij)

theorem Distinct.step (h : Distinct as P.world)
    (hstep : Pool.Step MayFail (fun _ _ => False) P (.call j s r) Q) :
    Distinct (as ++ [.call j s r]) Q.world := by
  obtain ⟨k, -, hsem, -, -⟩ := hstep.call_inv
  -- an earlier execution of the same event has left its record
  have hnew : ∀ i ev ev', Executes as i ev → ev.eventID = ev'.eventID →
      (Act.call j s r : DeliveryAct ι) ≠ .call j (record ev') (.ok true) := by
    intro i ev ev' hexec heq hlast
    cases hlast
    obtain ⟨-, hnot, -⟩ | ⟨hf, -, -⟩ := record_ok hsem
    · exact hnot (heq ▸ h.recorded i ev hexec)
    · cases hf
  constructor
  · intro i ev hexec
    obtain hold | hlast := executes_append_iff.1 hexec
    · exact mayFail_recorded hsem (h.recorded i ev hold)
    · cases hlast
      obtain ⟨-, -, ht⟩ | ⟨hf, -, -⟩ := record_ok hsem
      · exact (recorded_append ht).2 (Or.inr rfl)
      · cases hf
  · intro i i' ev ev' h₁ h₂ heq
    obtain h₁ | hlast₁ := executes_append_iff.1 h₁
    · obtain h₂ | hlast₂ := executes_append_iff.1 h₂
      · exact h.once i i' ev ev' h₁ h₂ heq
      · have hj : j = i' := congrArg Act.thread hlast₂
        exact (hnew i ev ev' h₁ heq (hlast₂.trans (by rw [hj]))).elim
    · have hj : j = i := congrArg Act.thread hlast₁
      obtain h₂ | hlast₂ := executes_append_iff.1 h₂
      · exact (hnew i' ev' ev h₂ heq.symm (hlast₁.trans (by rw [hj]))).elim
      · exact hj.symm.trans (congrArg Act.thread hlast₂)

end Steps

/-! ## Whole runs -/

/-- No record fails. -/
def RecordsAnswer (as : List (DeliveryAct ι)) : Prop :=
  ∀ i eventID action e, Act.call i (.db (.recordWebhookEvent eventID action)) (.error e) ∉ as

variable {c : ι → Except String BillingEvent × Delivery} {w : World} {as : List (DeliveryAct ι)}
  {Q : DeliveryPool ι}

/-- The steps of a call that ends as a duplicate have no effect. -/
theorem silent_of_duplicate (hhandled : ∀ i, Handled c as Q i) {a : DeliveryAct ι} (ha : a ∈ as)
    (hdup : answeredDuplicate (Q.prog a.thread) = true) :
    ∃ ev, a = .call a.thread (record ev) (.ok false) := by
  obtain ⟨-, hnone⟩ | ⟨ev, -, ⟨-, hyields⟩ | ⟨-, honly⟩⟩ := hhandled a.thread
  · exact (hnone a ha rfl).elim
  · cases hprog : Q.prog a.thread with
    | call s k =>
        rw [hprog] at hdup
        cases hdup
    | ret res =>
        rw [hprog] at hdup hyields
        cases res with
        | error e => cases hdup
        | ok b =>
            have hb : b.duplicate = true := hdup
            rw [hyields b rfl] at hb
            cases hb
  · exact ⟨ev, honly a ha rfl⟩

variable [DecidableEq ι]

/-- What a run of the calls `c` from the world `w` to the pool `Q` is to satisfy. -/
structure ExecutedOnce (c : ι → Except String BillingEvent × Delivery) (w : World)
    (as : List (DeliveryAct ι)) (Q : DeliveryPool ι) : Prop where
  /-- At most one call per event id executes its action. -/
  once : ∀ i j ev ev', Executes as i ev → Executes as j ev' → ev.eventID = ev'.eventID → i = j
  /-- A call that passed the checks has not begun, executes its action, or has been answered as a
  duplicate after a single statement, the record that found the event. -/
  others : ∀ i ev, Checked (c i).1 ev → (∀ a ∈ as, a.thread ≠ i) ∨ Executes as i ev ∨
    (Q.prog i = .ret (.ok ⟨true, ev.action, none⟩) ∧
      ∀ a ∈ as, a.thread = i → a = .call i (record ev) (.ok false))
  /-- The same run without the duplicates ends with the same tables and the same answers. -/
  without : ∃ Q', Path (Pool.Step MayFail fun _ _ => False)
      (deliveries (fun i : {i // !answeredDuplicate (Q.prog i)} => c i) w)
      (as.filterMap (Act.only fun i => !answeredDuplicate (Q.prog i))) Q' ∧
    Q'.world.tables = Q.world.tables ∧ ∀ i, Q'.prog i = Q.prog i

theorem run_handled
    (h : Path (Pool.Step MayFail fun _ _ => False) (deliveries c w) as Q)
    (hrec : RecordsAnswer as) :
    Distinct as Q.world ∧ ∀ i, Handled c as Q i := by
  induction h with
  | nil =>
      refine ⟨⟨fun i ev h => ?_, fun i j ev ev' h => ?_⟩, fun i => Or.inl ⟨rfl, fun a ha => ?_⟩⟩
      · cases h
      · cases h
      · cases ha
  | @snoc P' Q' as a _ hlast ih =>
      obtain ⟨hdistinct, hhandled⟩ := ih fun i e x err hmem =>
        hrec i e x err (List.mem_append_left _ hmem)
      cases a with
      | start i p => exact hlast.2.1.elim
      | call i s r =>
          refine ⟨hdistinct.step hlast, fun j => (hhandled j).step hlast fun e x err heq => ?_⟩
          cases heq
          exact hrec i e x err (List.mem_append_right _ (List.mem_singleton.2 rfl))

/-- In every interleaving in which no record fails, each event is executed at most once. -/
theorem events_execute_once
    (h : Path (Pool.Step MayFail fun _ _ => False) (deliveries c w) as Q)
    (hrec : RecordsAnswer as) :
    ExecutedOnce c w as Q := by
  obtain ⟨hdistinct, hhandled⟩ := run_handled h hrec
  refine ⟨hdistinct.once, fun i ev hev => ?_, ?_⟩
  · obtain ⟨-, hnone⟩ | ⟨ev', hev', hdone⟩ := hhandled i
    · exact Or.inl hnone
    · obtain rfl : ev = ev' := Except.ok.inj (hev.1.symm.trans hev'.1)
      obtain ⟨hexec, -⟩ | hdup := hdone
      · exact Or.inr (Or.inl hexec)
      · exact Or.inr (Or.inr hdup)
  · -- every step of a duplicate is a record that found the event
    have hlabels := h.restrict (C := fun a => (!answeredDuplicate (Q.prog a.thread)) = false →
      ∃ ev, a = .call a.thread (record ev) (.ok false)) fun a ha hdup =>
        silent_of_duplicate hhandled ha (by simpa using hdup)
    have hsilent : Path (fun P a P' => Pool.Step MayFail (fun _ _ => False) P a P' ∧
        ((!answeredDuplicate (Q.prog a.thread)) = false → P'.world = P.world))
        (deliveries c w) as Q := by
      refine hlabels.mono ?_
      rintro P a P' ⟨hstep, hlabel⟩
      refine ⟨hstep, fun hdup => ?_⟩
      obtain ⟨ev, ha⟩ := hlabel hdup
      rw [ha] at hstep
      obtain ⟨k, -, hsem, -, -⟩ := hstep.call_inv
      obtain ⟨hf, -, -⟩ | ⟨-, -, hw⟩ := record_ok hsem
      · cases hf
      · exact hw
    have hpath := Pool.path_only (fun i => !answeredDuplicate (Q.prog i)) hsilent
    exact ⟨Q.only _, hpath, rfl, fun i => rfl⟩

/-! ## Two deliveries of one event id -/

omit [DecidableEq ι] in
theorem recordsAnswer_of_all_ok (h : as.all (Pool.Answered Stmt.isOk) = true) :
    RecordsAnswer as := by
  intro i eventID action e hmem
  have hok := List.all_eq_true.1 h _ hmem
  cases hok

/-- The event id comes with two actions. -/
def bothActions : Bool → Except String BillingEvent × Delivery
  | false => (.ok cancelEvent, atNoon)
  | true => (.ok { cancelEvent with action := "suspend" }, atNoon)

/-- The second delivery comes in while the first one is executed. -/
def secondInBetween : List (Pool.Move Bool Stmt Stmt.Res (Except Err BillingResult)) :=
  [.fire true, .fire false] ++ List.replicate 5 (.fire true)

theorem events_execute_once_bothActions :
    ExecutedOnce bothActions customer
        (Pool.play exec secondInBetween (deliveries bothActions customer)).1
        (Pool.play exec secondInBetween (deliveries bothActions customer)).2 ∧
      (Pool.play exec secondInBetween (deliveries bothActions customer)).2.prog false =
        .ret (.ok ⟨true, "cancel", none⟩) ∧
      (getUser (Pool.play exec secondInBetween (deliveries bothActions customer)).2.world.tables
        "u").map User.status = .ok .disabled :=
  ⟨events_execute_once
    (Pool.play_path_of_exec mayFail_exec (fun i p h => by simp [secondInBetween] at h) _)
    (recordsAnswer_of_all_ok (by decide)), rfl, rfl⟩

end XrayApi.Service
