import XrayApi.Service.Deliveries
import XrayApi.Transition.Rely

/-!
# Concurrent provisioning

Any number of `provision` events for one external id, their statements interleaved. `provision`
looks the user up and creates it if there is none; the two are separate statements, and the
constraints of the table let only one insert through. `provision_idempotent_iff`: one user is
created in every run, and every delivery returns it exactly when no two deliveries looked before the
first insert.
-/

set_option autoImplicit false

namespace XrayApi.Service

open Transition Store Relational

/-! ## One delivery -/

/-- The statements of `Create` and of its tail but the insert. -/
def quietCreate : Stmt → Bool
  | .db (.getPlan _) => true
  | .db (.listInboundsByIDs _) => true
  | .db (.assignmentTargetsForUser _) => true
  | .db (.getUser _) => true
  | .trigger _ => true
  | _ => false

theorem readsOnly_of_quietCreate {s : Stmt} (h : quietCreate s = true) : ReadsOnly s := by
  cases s with
  | db q =>
      cases q with
      | getPlan id => exact readsOnly_getPlan id
      | listInboundsByIDs ids => exact readsOnly_listInboundsByIDs ids
      | assignmentTargetsForUser id => exact readsOnly_assignmentTargetsForUser id
      | getUser id => exact readsOnly_getUser id
      | _ => cases h
  | trigger n => exact readsOnly_trigger n
  | _ => cases h

/-- The answer of a delivery that has its user. -/
def sale (action : String) (u : User) : Service BillingResult := pure ⟨false, action, some u⟩

/-- In worlds with `I`, a part of a delivery reads up to a return with `post` or a statement with
`mark`. -/
abbrev Reads {β : Type} (I : World → Prop) (post : Except Err β → Prop)
    (mark : (s : Stmt) → (s.Res → Prog Stmt Stmt.Res (Except Err β)) → Prop)
    (p : Service β) : Prop :=
  Prog.Leads Answers I (fun s => quietCreate s = true) post mark p

section Rules

variable {β : Type} {I : World → Prop} {post : Except Err β → Prop}
  {mark : (s : Stmt) → (s.Res → Prog Stmt Stmt.Res (Except Err β)) → Prop}

/-- A quiet store call that succeeds in every world with `I`. -/
theorem reads_query_bind {q : StoreCall} {f : q.Out → Service β} (hq : quietCreate (.db q) = true)
    (h : ∀ w r w', I w → Answers (.db q) w r w' → ∃ o, r = .ok o ∧ Reads I post mark (f o)) :
    Reads I post mark (query q >>= f) := by
  refine Req.leads_bind (p := query q) (Or.inr ⟨hq, fun w r w' hw hsem => ?_⟩)
  obtain ⟨o, rfl, ho⟩ := h w r w' hw hsem
  exact ⟨o, rfl, ho⟩

theorem reads_triggerAll_bind {f : Unit → Service β} (ns : List ID)
    (h : Reads I post mark (f ())) : Reads I post mark (triggerAll ns >>= f) := by
  induction ns with
  | nil => exact h
  | cons n ns ih => exact Or.inr ⟨rfl, fun _ _ _ _ _ => ih⟩

theorem reads_reconcileForUser_bind {f : Unit → Service β} (id : ID)
    (h : Reads I post mark (f ())) : Reads I post mark (reconcileForUser id >>= f) := by
  refine Or.inr ⟨rfl, fun w r w' _ _ => ?_⟩
  cases r with
  | error e => exact h
  | ok targets => exact reads_triggerAll_bind _ h

end Rules

/-- The plans and inbounds of `t`. -/
def SameCatalog (t : Tables) (w : World) : Prop :=
  w.tables.plans = t.plans ∧ w.tables.inbounds = t.inbounds

/-- The users are `rows`. -/
def SameUsers (rows : List User) (w : World) : Prop := w.tables.users = rows

/-- The row `Create` inserts. -/
def insertedRow (inp : CreateInput) (fresh : Fresh) (limits : Option Int64 × Option Time) : User :=
  zeroUsage (newUser inp fresh limits.1 limits.2)

/-- The insert of `Create` in a delivery. Its failure is the delivery's; after its success the
delivery reads the new row back and returns it. -/
def Inserts (t : Tables) (inp : CreateInput) (fresh : Fresh) (action : String) (s : Stmt)
    (k : s.Res → Prog Stmt Stmt.Res (Except Err BillingResult)) : Prop :=
  ∃ limits ids, ∃ hs : s = .db (.createWithAssignmentsTx (newUser inp fresh limits.1 limits.2) ids),
    (∀ i ∈ ids, i ∈ t.inbounds.map Inbound.id) ∧
    (∀ e, k (hs ▸ (.error e : Except StoreErr Unit)) = .ret (.error (.store e))) ∧
    (k (hs ▸ (.ok () : Except StoreErr Unit))).Leads Answers
      (SameUsers (t.users ++ [insertedRow inp fresh limits])) (fun s => quietCreate s = true)
      (fun r => r = .ok ⟨false, action, some (insertedRow inp fresh limits)⟩) fun _ _ => False

variable {t : Tables} {inp : CreateInput} {fresh : Fresh} {now : Time} {action : String}

/-- After the insert. -/
theorem tail_reads (hid : fresh.id ∉ t.users.map User.id) (limits : Option Int64 × Option Time) :
    Reads (SameUsers (t.users ++ [insertedRow inp fresh limits]))
      (fun r => r = .ok ⟨false, action, some (insertedRow inp fresh limits)⟩) (fun _ _ => False)
      (reconcileForUser fresh.id >>= fun _ => query (.getUser fresh.id) >>= sale action) := by
  refine reads_reconcileForUser_bind fresh.id (reads_query_bind rfl fun w r w' hw hsem => ?_)
  have hget : getUser w.tables fresh.id = .ok (insertedRow inp fresh limits) := by
    have hkey : (insertedRow inp fresh limits).id = fresh.id := rfl
    rw [getUser_eq_ok, hw, lookup_append_singleton, lookup_eq_none_iff.2 hid, if_pos hkey]
    rfl
  have happly : (StoreCall.getUser fresh.id).apply w.tables =
      .ok (insertedRow inp fresh limits, w.tables) := StoreCall.read_eq_ok.2 ⟨hget, rfl⟩
  obtain ⟨u, rfl, hu, -⟩ := answers_db_of_ok happly hsem
  have hu : u = insertedRow inp fresh limits := hu
  exact ⟨u, rfl, by rw [hu]; rfl⟩

/-- From the list of inbounds on, whatever the limits. -/
theorem list_reads (hc : CanCreate t inp fresh) (limits : Option Int64 × Option Time) :
    Reads (SameCatalog t) (fun _ => False) (Inserts t inp fresh action)
      ((query (.listInboundsByIDs inp.inboundIDs) >>= fun inbounds : List Inbound =>
        if inbounds.length ≠ (dedup inp.inboundIDs).length then
          Req.throw (.validation "one or more inbound_ids do not exist")
        else do
          let u := newUser inp fresh limits.1 limits.2
          query (.createWithAssignmentsTx u (inbounds.map Inbound.id))
          reconcileForUser u.id
          query (.getUser u.id)) >>= sale action) := by
  have hid : fresh.id ∉ t.users.map User.id := (insertConflict_eq_none hc.unused).1
  rw [Req.bind_assoc]
  refine reads_query_bind rfl fun w r w' hw hsem => ?_
  obtain ⟨inbounds, rfl, hrows, -⟩ := answers_db_of_ok rfl hsem
  have hrows : inbounds.Perm (listInboundsByIDs w.tables inp.inboundIDs) := hrows
  have hlist : listInboundsByIDs w.tables inp.inboundIDs = listInboundsByIDs t inp.inboundIDs := by
    unfold listInboundsByIDs
    rw [hw.2]
  rw [hlist] at hrows
  refine ⟨inbounds, rfl, ?_⟩
  rw [if_neg (not_not.2 (hrows.length_eq.trans hc.exist))]
  simp only [Req.bind_assoc]
  refine Or.inl ⟨limits, _, rfl, fun i hi => ?_, fun _ => rfl, tail_reads hid limits⟩
  obtain ⟨b, hb, rfl⟩ := List.mem_map.1 hi
  exact List.mem_map_of_mem (List.mem_filter.1 (hrows.mem_iff.1 hb)).1

/-- `Create` comes to its insert, in every world with the plans and inbounds it needs. -/
theorem create_reads (hc : CanCreate t inp fresh) :
    Reads (SameCatalog t) (fun _ => False) (Inserts t inp fresh action)
      (create inp fresh now >>= sale action) := by
  unfold create
  rw [hc.email, if_neg hc.inbounds]
  simp only [Bool.false_eq_true, if_false]
  rw [Req.bind_assoc]
  unfold snapshotLimits
  have hplan := hc.plan
  cases hp : inp.planID with
  | none => exact list_reads hc _
  | some planID =>
      rw [hp, planKnown_some] at hplan
      obtain ⟨plan, hget⟩ := hplan
      dsimp only
      rw [Req.bind_assoc]
      refine reads_query_bind rfl fun w r w' hw hsem => ?_
      have happly : (StoreCall.getPlan planID).apply w.tables = .ok (plan, w.tables) := by
        refine StoreCall.read_eq_ok.2 ⟨?_, rfl⟩
        unfold getPlan
        rw [hw.1]
        exact hget
      obtain ⟨plan', rfl, -, -⟩ := answers_db_of_ok happly hsem
      exact ⟨plan', rfl, list_reads hc _⟩

/-! ## The statements of the deliveries -/

theorem answers_getUserByExternalID {x : String} {w w' : World} {r : Except StoreErr User}
    (h : Answers (.db (.getUserByExternalID x)) w r w') :
    r = getUserByExternalID w.tables x ∧ w'.tables = w.tables := by
  obtain ⟨hw, hr⟩ := h
  rw [Database.exec_of_read (q := .getUserByExternalID x) rfl] at hw hr
  refine ⟨?_, by rw [hw]⟩
  dsimp only at hr
  cases r with
  | ok u =>
      cases hget : getUserByExternalID w.tables x with
      | ok v =>
          rw [hget] at hr
          exact congrArg Except.ok hr
      | error e =>
          rw [hget] at hr
          exact hr.elim
  | error e =>
      cases hget : getUserByExternalID w.tables x with
      | ok v =>
          rw [hget] at hr
          exact hr.elim
      | error e' =>
          rw [hget] at hr
          exact congrArg Except.error hr

theorem answers_readsOnly {s : Stmt} {w w' : World} {r : s.Res} (hs : ReadsOnly s)
    (h : Answers s w r w') : w'.tables = w.tables :=
  hs w r w' (Or.inl h)

variable {ι : Type} {x : String} {p : ProvisionPayload} {ev : ι → BillingEvent} {d : ι → Delivery}

/-- Deliveries of one order: new events with ids of their own, one external id and one payload,
which each of them could carry out on the tables `t`. -/
structure Order (t : Tables) (x : String) (p : ProvisionPayload) (ev : ι → BillingEvent)
    (d : ι → Delivery) : Prop where
  action : ∀ i, (ev i).action = "provision"
  payload : ∀ i, (ev i).provision = some p
  external : ∀ i, (ev i).externalID = x
  named : x ≠ ""
  eventID : ∀ i, (ev i).eventID ≠ ""
  distinct : Function.Injective fun i => (ev i).eventID
  fresh : ∀ i, (ev i).eventID ∉ t.webhookEvents.map WebhookEvent.id
  valid : ∀ i, CanCreate t (createInput (ev i) p) (d i).fresh

namespace Order

theorem parse (ho : Order t x p ev d) (i : ι) : parseAction (ev i).action = some .provision := by
  rw [ho.action i]
  rfl

/-- The first statement of a delivery. -/
theorem process_eq (ho : Order t x p ev d) (i : ι) :
    process (.ok (ev i)) (d i) = execute .provision (ev i) (d i) :=
  process_eq_execute (ho.eventID i) (ho.parse i)

/-- The action, with the lookup first. -/
theorem act_eq (ho : Order t x p ev d) (i : ι) :
    (act .provision (ev i) (d i) : Prog Stmt Stmt.Res (Except Err BillingResult)) =
      Prog.call (.db (.getUserByExternalID x)) fun r =>
        (orCreate (ev i) p (d i) r >>= sale "provision" : Service BillingResult) := by
  have hx : (ev i).externalID ≠ "" := by rw [ho.external i]; exact ho.named
  have hprov : provision (ev i) (d i) =
      (attempt (.getUserByExternalID x) >>= orCreate (ev i) p (d i)) := by
    unfold provision
    rw [ho.payload i]
    dsimp only
    rw [if_neg hx, ho.external i]
  have hact : act .provision (ev i) (d i) = provision (ev i) (d i) >>= sale "provision" := by
    unfold act dispatch
    rw [Req.bind_assoc, ho.action i]
    rfl
  rw [hact, hprov, Req.bind_assoc]
  rfl

theorem input_external (ho : Order t x p ev d) (i : ι) :
    (createInput (ev i) p).externalID = some x :=
  congrArg some (ho.external i)

/-- Nobody has the external id yet. -/
theorem unknown (ho : Order t x p ev d) (i : ι) : some x ∉ t.users.map User.externalID := by
  intro hmem
  obtain ⟨u, hu, hux⟩ := List.mem_map.1 hmem
  have hfree := (insertConflict_eq_none (ho.valid i).unused).2.2.2.2.2
  exact hfree x (ho.input_external i) (List.mem_filterMap.2 ⟨u, hu, hux⟩)

end Order

/-! ## Phases of a run -/

/-- The delivery has looked the user up. -/
def LooksUp (x : String) (as : List (DeliveryAct ι)) (i : ι) : Prop :=
  ∃ r, Act.call i (.db (.getUserByExternalID x)) r ∈ as

/-- No delivery has come to its insert. -/
def NoInsert (as : List (DeliveryAct ι)) : Prop :=
  ∀ i u ids r, Act.call i (.db (.createWithAssignmentsTx u ids)) r ∉ as

/-- The delivery looked the user up before any insert. -/
def LooksEarly (x : String) (as : List (DeliveryAct ι)) (i : ι) : Prop :=
  ∃ pre post, as = pre ++ post ∧ NoInsert pre ∧ LooksUp x pre i

section Phases

variable (t x p ev d)

/-- The delivery has not looked the user up. -/
def Waiting (P : DeliveryPool ι) (i : ι) : Prop :=
  (P.prog i = process (.ok (ev i)) (d i) ∧ ¬ Recorded (ev i).eventID P.world) ∨
    P.prog i = act .provision (ev i) (d i)

/-- The delivery has found no user and is on its way to the insert. -/
def Trying (P : DeliveryPool ι) (i : ι) : Prop :=
  Reads (SameCatalog t) (fun _ => False) (Inserts t (createInput (ev i) p) (d i).fresh "provision")
    (P.prog i)

/-- The delivery returns the user, or has returned it. -/
def Serving (row : User) (P : DeliveryPool ι) (i : ι) : Prop :=
  Reads (SameUsers (t.users ++ [row])) (fun r => r = .ok ⟨false, "provision", some row⟩)
    (fun _ _ => False) (P.prog i)

/-- Before the insert. -/
structure Unprovisioned (as : List (DeliveryAct ι)) (P : DeliveryPool ι) : Prop where
  catalog : SameCatalog t P.world
  users : P.world.tables.users = t.users
  noInsert : NoInsert as
  calls : ∀ i, (¬ LooksUp x as i ∧ Waiting ev d P i) ∨ (LooksUp x as i ∧ Trying t p ev d P i)

/-- After the insert of `row`; the deliveries in `lost` found no user and did not insert it. -/
structure Provisioned (row : User) (lost : ι → Prop) (P : DeliveryPool ι) : Prop where
  catalog : SameCatalog t P.world
  users : P.world.tables.users = t.users ++ [row]
  external : row.externalID = some x
  calls : ∀ i, (¬ lost i ∧ (Waiting ev d P i ∨ Serving t row P i)) ∨
    (lost i ∧ (Trying t p ev d P i ∨ ∃ e, P.prog i = .ret (.error e)))

end Phases

/-! ### Histories -/

section Histories

variable {as : List (DeliveryAct ι)} {a : DeliveryAct ι} {i : ι}

theorem looksUp_append_iff :
    LooksUp x (as ++ [a]) i ↔
      LooksUp x as i ∨ ∃ r, a = .call i (.db (.getUserByExternalID x)) r := by
  unfold LooksUp
  constructor
  · rintro ⟨r, hr⟩
    obtain hr | hr := List.mem_append.1 hr
    · exact Or.inl ⟨r, hr⟩
    · exact Or.inr ⟨r, (List.mem_singleton.1 hr).symm⟩
  · rintro (⟨r, hr⟩ | ⟨r, rfl⟩)
    · exact ⟨r, List.mem_append_left _ hr⟩
    · exact ⟨r, List.mem_append_right _ (List.mem_singleton.2 rfl)⟩

theorem NoInsert.append (h : NoInsert as)
    (ha : ∀ i u ids r, a ≠ .call i (.db (.createWithAssignmentsTx u ids)) r) :
    NoInsert (as ++ [a]) := by
  intro i u ids r hmem
  obtain hmem | hmem := List.mem_append.1 hmem
  · exact h i u ids r hmem
  · exact ha i u ids r (List.mem_singleton.1 hmem).symm

/-- Up to the first insert every lookup is early. -/
theorem looksEarly_of_noInsert (h : NoInsert as) : LooksEarly x as i ↔ LooksUp x as i := by
  constructor
  · rintro ⟨pre, post, rfl, -, r, hr⟩
    exact ⟨r, List.mem_append_left _ hr⟩
  · exact fun hl => ⟨as, [], (List.append_nil as).symm, h, hl⟩

/-- The insert and what follows it do not make lookups early. -/
theorem looksEarly_append_iff (h : ¬ NoInsert (as ++ [a])) :
    LooksEarly x (as ++ [a]) i ↔ LooksEarly x as i := by
  constructor
  · rintro ⟨pre, post, heq, hpre, hl⟩
    obtain rfl | ⟨post', b, rfl⟩ := List.eq_nil_or_concat post
    · rw [List.append_nil] at heq
      exact (h (heq ▸ hpre)).elim
    · rw [List.concat_eq_append, ← List.append_assoc] at heq
      exact ⟨pre, post', (List.append_inj' heq rfl).1, hpre, hl⟩
  · rintro ⟨pre, post, rfl, hpre, hl⟩
    exact ⟨pre, post ++ [a], List.append_assoc _ _ _, hpre, hl⟩

theorem looksUp_append_of_ne {j : ι} {s : Stmt} {r : s.Res} (hij : i ≠ j) :
    LooksUp x (as ++ [.call j s r]) i ↔ LooksUp x as i := by
  rw [looksUp_append_iff, or_iff_left]
  rintro ⟨r', hr'⟩
  exact hij (congrArg Act.thread hr').symm

end Histories

/-! ### Steps -/

section Steps

variable {P Q : DeliveryPool ι} {as : List (DeliveryAct ι)} {i j : ι} {s : Stmt}
  {r : s.Res} {row : User} {lost : ι → Prop}

theorem Waiting.frame (h : Waiting ev d P i) (hprog : Q.prog i = P.prog i)
    (hrec : Recorded (ev i).eventID Q.world → Recorded (ev i).eventID P.world) :
    Waiting ev d Q i := by
  obtain ⟨hp, hnew⟩ | hp := h
  · exact Or.inl ⟨hprog.trans hp, fun h => hnew (hrec h)⟩
  · exact Or.inr (hprog.trans hp)

/-- The same tables have the same records. -/
theorem recorded_of_tables {eventID : String} {w w' : World} (h : w'.tables = w.tables)
    (hrec : Recorded eventID w') : Recorded eventID w := by
  unfold Recorded at hrec ⊢
  rw [h] at hrec
  exact hrec

/-- The record of one delivery is not that of another. -/
theorem Order.recorded_other (ho : Order t x p ev d) (hij : i ≠ j) {w w' : World}
    (ht : w'.tables = { w.tables with
      webhookEvents := w.tables.webhookEvents ++ [⟨(ev j).eventID, (ev j).action⟩] })
    (hrec : Recorded (ev i).eventID w') : Recorded (ev i).eventID w := by
  obtain h | h := (recorded_append ht).1 hrec
  · exact h
  · exact (hij (ho.distinct h)).elim

/-- The insert succeeds on the users of `t`. -/
theorem insert_first (hc : CanCreate t inp fresh) {limits : Option Int64 × Option Time}
    {ids : List ID} (hids : ∀ i ∈ ids, i ∈ t.inbounds.map Inbound.id) {w w' : World}
    {r : Except StoreErr Unit} (hcat : SameCatalog t w) (husers : w.tables.users = t.users)
    (h : Answers
      (.db (.createWithAssignmentsTx (newUser inp fresh limits.1 limits.2) ids)) w r w') :
    r = .ok () ∧ SameCatalog t w' ∧ w'.tables.users = t.users ++ [insertedRow inp fresh limits] ∧
      w'.tables.webhookEvents = w.tables.webhookEvents := by
  obtain ⟨t', hcreate⟩ : ∃ t', createWithAssignmentsTx w.tables
      (newUser inp fresh limits.1 limits.2) ids = .ok t' := by
    refine createWithAssignmentsTx_succeeds ?_ ?_ ?_
    · rw [husers]
      exact hc.unused
    · unfold planExists
      rw [hcat.1]
      exact decide_eq_true hc.plan
    · rw [hcat.2]
      exact hids
  have happly : (StoreCall.createWithAssignmentsTx (newUser inp fresh limits.1 limits.2) ids).apply
      w.tables = .ok ((), t') := StoreCall.wrote_eq_ok.2 hcreate
  obtain ⟨⟨⟩, rfl, -, ht⟩ := answers_db_of_ok happly h
  obtain ⟨hinbounds, hplans, hevents⟩ := createWithAssignmentsTx_static hcreate
  rw [SameCatalog, ht, hplans, hinbounds, hevents,
    (createWithAssignmentsTx_eq_ok hcreate).2.2, husers]
  exact ⟨rfl, hcat, rfl, rfl⟩

/-- The insert fails once the external id is taken. -/
theorem insert_again (hx : inp.externalID = some x) {limits : Option Int64 × Option Time}
    {ids : List ID} {w w' : World} {r : Except StoreErr Unit} {row : User}
    (hrow : row ∈ w.tables.users) (hext : row.externalID = some x)
    (h : Answers
      (.db (.createWithAssignmentsTx (newUser inp fresh limits.1 limits.2) ids)) w r w') :
    ∃ e, r = .error e ∧ w' = w := by
  cases r with
  | error e => exact ⟨e, rfl, (answers_db_error h).2⟩
  | ok o =>
      obtain ⟨⟨⟩, t', happly, -, -, -⟩ := answers_db_ok h
      obtain ⟨hconf, -, -⟩ := createWithAssignmentsTx_eq_ok (StoreCall.wrote_eq_ok.1 happly)
      have hfree := (insertConflict_eq_none hconf).2.2.2.2.2
      exact (hfree x hx (List.mem_filterMap.2 ⟨row, hrow, hext⟩)).elim

variable [DecidableEq ι]

/-- A waiting delivery records its event or looks the user up. -/
theorem Waiting.step (ho : Order t x p ev d) (h : Waiting ev d P j)
    (hstep : Pool.Step Answers (fun _ _ => False) P (.call j s r) Q) :
    ((Act.call j s r : DeliveryAct ι) = .call j (record (ev j)) (.ok true) ∧
        Q.prog j = act .provision (ev j) (d j) ∧
        Q.world.tables = { P.world.tables with webhookEvents :=
          P.world.tables.webhookEvents ++ [⟨(ev j).eventID, (ev j).action⟩] }) ∨
      (Act.call j s r : DeliveryAct ι) =
          .call j (.db (.getUserByExternalID x)) (getUserByExternalID P.world.tables x) ∧
        Q.prog j = (orCreate (ev j) p (d j) (getUserByExternalID P.world.tables x) >>=
          sale "provision" : Service BillingResult) ∧
        Q.world.tables = P.world.tables := by
  obtain ⟨k, hj, hsem, hself, -⟩ := hstep.call_inv
  obtain ⟨hp, hnew⟩ | hp := h
  · have hcall := (ho.process_eq j).symm.trans (hp.symm.trans hj)
    cases hcall
    cases r with
    | error e =>
        have happly := (answers_db_error hsem).1
        cases happly
    | ok fresh =>
        obtain ⟨rfl, -, ht⟩ | ⟨rfl, hrec, -⟩ := record_ok (Or.inl hsem)
        · exact Or.inl ⟨rfl, hself, ht⟩
        · exact (hnew hrec).elim
  · have hcall := (ho.act_eq j).symm.trans (hp.symm.trans hj)
    cases hcall
    obtain ⟨rfl, ht⟩ := answers_getUserByExternalID hsem
    exact Or.inr ⟨rfl, hself, ht⟩

omit [DecidableEq ι] in
/-- A step that leaves plans, inbounds and users. -/
theorem Unprovisioned.keep (h : Unprovisioned t x p ev d as P) (hcat : SameCatalog t Q.world)
    (husers : Q.world.tables.users = t.users)
    (hlabel : ∀ i u ids r', (Act.call j s r : DeliveryAct ι) ≠
      .call i (.db (.createWithAssignmentsTx u ids)) r')
    (hothers : ∀ i, i ≠ j → Q.prog i = P.prog i)
    (hrec : ∀ i, i ≠ j → Recorded (ev i).eventID Q.world → Recorded (ev i).eventID P.world)
    (hself : (¬ LooksUp x (as ++ [.call j s r]) j ∧ Waiting ev d Q j) ∨
      (LooksUp x (as ++ [.call j s r]) j ∧ Trying t p ev d Q j)) :
    Unprovisioned t x p ev d (as ++ [.call j s r]) Q := by
  refine ⟨hcat, husers, h.noInsert.append hlabel, fun i => ?_⟩
  by_cases hij : i = j
  · subst hij
    exact hself
  · rw [looksUp_append_of_ne hij]
    refine (h.calls i).imp (fun hi => ⟨hi.1, ?_⟩) fun hi => ⟨hi.1, ?_⟩
    · exact hi.2.frame (hothers i hij) (hrec i hij)
    · rw [Trying, hothers i hij]
      exact hi.2

/-- A step of a waiting delivery before the insert. -/
theorem Unprovisioned.step_waiting (ho : Order t x p ev d) (h : Unprovisioned t x p ev d as P)
    (hstep : Pool.Step Answers (fun _ _ => False) P (.call j s r) Q) (hnot : ¬ LooksUp x as j)
    (hwait : Waiting ev d P j) : Unprovisioned t x p ev d (as ++ [.call j s r]) Q := by
  obtain ⟨k, -, -, -, hothers⟩ := hstep.call_inv
  obtain ⟨hlabel, hprog, ht⟩ | ⟨hlabel, hprog, ht⟩ := hwait.step ho hstep
  · rw [hlabel]
    refine h.keep ?_ ?_ (fun _ _ _ _ h => by cases h) hothers
      (fun i hij => ho.recorded_other hij ht) (Or.inl ⟨?_, Or.inr hprog⟩)
    · rw [SameCatalog, ht]
      exact h.catalog
    · rw [ht]
      exact h.users
    · rw [looksUp_append_iff, not_or]
      exact ⟨hnot, fun ⟨_, h⟩ => by cases h⟩
  · -- the lookup finds nothing, and `Create` begins
    have hnone : getUserByExternalID P.world.tables x = .error .notFound := by
      unfold getUserByExternalID
      rw [h.users, lookup_eq_none_iff.2 (ho.unknown j)]
      rfl
    rw [hnone] at hlabel hprog
    rw [hlabel]
    refine h.keep ?_ ?_ (fun _ _ _ _ h => by cases h) hothers
      (fun i _ => recorded_of_tables ht) (Or.inr ⟨looksUp_append_iff.2 (Or.inr ⟨_, rfl⟩), ?_⟩)
    · rw [SameCatalog, ht]
      exact h.catalog
    · rw [ht]
      exact h.users
    · rw [Trying, hprog]
      exact create_reads (ho.valid j)

/-- Any step before the insert: it is the insert, or the phase goes on. -/
theorem Unprovisioned.step (ho : Order t x p ev d) (h : Unprovisioned t x p ev d as P)
    (hstep : Pool.Step Answers (fun _ _ => False) P (.call j s r) Q) :
    Unprovisioned t x p ev d (as ++ [.call j s r]) Q ∨
      ¬ NoInsert (as ++ [.call j s r]) ∧ LooksEarly x (as ++ [.call j s r]) j ∧
        ∃ row, Provisioned t x p ev d row
          (fun i => LooksEarly x (as ++ [.call j s r]) i ∧ i ≠ j) Q := by
  obtain ⟨k, hj, hsem, hself, hothers⟩ := hstep.call_inv
  obtain ⟨hnot, hwait⟩ | ⟨hlook, htry⟩ := h.calls j
  · exact Or.inl (h.step_waiting ho hstep hnot hwait)
  · rw [Trying, hj] at htry
    obtain ⟨limits, ids, rfl, hids, -, hserve⟩ | ⟨hquiet, hk⟩ := htry
    · obtain ⟨rfl, hcat, husers, hevents⟩ := insert_first (ho.valid j) hids h.catalog h.users hsem
      have hinsert : ¬ NoInsert (as ++ [.call j (.db (.createWithAssignmentsTx
          (newUser (createInput (ev j) p) (d j).fresh limits.1 limits.2) ids)) (.ok ())]) :=
        fun hno => hno j _ _ _ (List.mem_append_right _ (List.mem_singleton.2 rfl))
      have hearly : ∀ i, LooksEarly x (as ++ [.call j (.db (.createWithAssignmentsTx
          (newUser (createInput (ev j) p) (d j).fresh limits.1 limits.2) ids)) (.ok ())]) i ↔
          LooksUp x as i := fun i =>
        (looksEarly_append_iff hinsert).trans (looksEarly_of_noInsert h.noInsert)
      -- `j` has inserted the user; the others that had looked by then will be refused
      refine Or.inr ⟨hinsert, (hearly j).2 hlook, _, hcat, husers, ho.input_external j, fun i => ?_⟩
      rw [hearly]
      by_cases hij : i = j
      · subst hij
        refine Or.inl ⟨fun h => h.2 rfl, Or.inr ?_⟩
        rw [Serving, hself]
        exact hserve
      · obtain ⟨hnot, hwait⟩ | ⟨hlook', htry⟩ := h.calls i
        · refine Or.inl ⟨fun h => hnot h.1, Or.inl (hwait.frame (hothers i hij) fun hrec => ?_)⟩
          unfold Recorded at hrec ⊢
          rw [hevents] at hrec
          exact hrec
        · refine Or.inr ⟨⟨hlook', hij⟩, Or.inl ?_⟩
          rw [Trying, hothers i hij]
          exact htry
    · have ht := answers_readsOnly (readsOnly_of_quietCreate hquiet) hsem
      refine Or.inl (h.keep ?_ ?_ (fun _ _ _ _ h => by cases h; cases hquiet) hothers
        (fun i _ => recorded_of_tables ht) (Or.inr ⟨looksUp_append_iff.2 (Or.inl hlook), ?_⟩))
      · rw [SameCatalog, ht]
        exact h.catalog
      · rw [ht]
        exact h.users
      · rw [Trying, hself]
        exact hk _ _ _ h.catalog hsem

omit [DecidableEq ι] in
/-- A step that leaves plans, inbounds and users. -/
theorem Provisioned.keep (h : Provisioned t x p ev d row lost P) (hcat : SameCatalog t Q.world)
    (husers : Q.world.tables.users = t.users ++ [row])
    (hothers : ∀ i, i ≠ j → Q.prog i = P.prog i)
    (hrec : ∀ i, i ≠ j → Recorded (ev i).eventID Q.world → Recorded (ev i).eventID P.world)
    (hself : (¬ lost j ∧ (Waiting ev d Q j ∨ Serving t row Q j)) ∨
      (lost j ∧ (Trying t p ev d Q j ∨ ∃ e, Q.prog j = .ret (.error e)))) :
    Provisioned t x p ev d row lost Q := by
  refine ⟨hcat, husers, h.external, fun i => ?_⟩
  by_cases hij : i = j
  · subst hij
    exact hself
  · obtain ⟨hl, hwait | hserve⟩ | ⟨hl, hlost⟩ := h.calls i
    · exact Or.inl ⟨hl, Or.inl (hwait.frame (hothers i hij) (hrec i hij))⟩
    · refine Or.inl ⟨hl, Or.inr ?_⟩
      rw [Serving, hothers i hij]
      exact hserve
    · refine Or.inr ⟨hl, ?_⟩
      rw [Trying, hothers i hij]
      exact hlost

/-- A step that leaves the tables. -/
theorem Provisioned.keep_of_tables (h : Provisioned t x p ev d row lost P)
    (hstep : Pool.Step Answers (fun _ _ => False) P (.call j s r) Q)
    (ht : Q.world.tables = P.world.tables)
    (hself : (¬ lost j ∧ (Waiting ev d Q j ∨ Serving t row Q j)) ∨
      (lost j ∧ (Trying t p ev d Q j ∨ ∃ e, Q.prog j = .ret (.error e)))) :
    Provisioned t x p ev d row lost Q := by
  obtain ⟨k, -, -, -, hothers⟩ := hstep.call_inv
  refine h.keep ?_ ?_ hothers (fun i _ => recorded_of_tables ht) hself
  · rw [SameCatalog, ht]
    exact h.catalog
  · rw [ht]
    exact h.users

/-- A step of a waiting delivery after the insert: its lookup finds the user. -/
theorem Provisioned.step_waiting (ho : Order t x p ev d) (h : Provisioned t x p ev d row lost P)
    (hstep : Pool.Step Answers (fun _ _ => False) P (.call j s r) Q) (hl : ¬ lost j)
    (hwait : Waiting ev d P j) : Provisioned t x p ev d row lost Q := by
  obtain ⟨k, -, -, -, hothers⟩ := hstep.call_inv
  obtain ⟨-, hprog, ht⟩ | ⟨-, hprog, ht⟩ := hwait.step ho hstep
  · refine h.keep ?_ ?_ hothers (fun i hij => ho.recorded_other hij ht)
      (Or.inl ⟨hl, Or.inl (Or.inr hprog)⟩)
    · rw [SameCatalog, ht]
      exact h.catalog
    · rw [ht]
      exact h.users
  · have hfound : getUserByExternalID P.world.tables x = .ok row := by
      unfold getUserByExternalID
      rw [h.users, lookup_append_singleton, lookup_eq_none_iff.2 (ho.unknown j), if_pos h.external]
      rfl
    rw [hfound] at hprog
    refine h.keep_of_tables hstep ht (Or.inl ⟨hl, Or.inr ?_⟩)
    rw [Serving, hprog]
    exact rfl

/-- Any step after the insert. -/
theorem Provisioned.step (ho : Order t x p ev d) (h : Provisioned t x p ev d row lost P)
    (hstep : Pool.Step Answers (fun _ _ => False) P (.call j s r) Q) :
    Provisioned t x p ev d row lost Q := by
  obtain ⟨k, hj, hsem, hself, -⟩ := hstep.call_inv
  obtain ⟨hl, hwait | hserve⟩ | ⟨hl, htry | ⟨e, he⟩⟩ := h.calls j
  · exact h.step_waiting ho hstep hl hwait
  · rw [Serving, hj] at hserve
    obtain hmark | ⟨hquiet, hk⟩ := hserve
    · exact hmark.elim
    · have ht := answers_readsOnly (readsOnly_of_quietCreate hquiet) hsem
      refine h.keep_of_tables hstep ht (Or.inl ⟨hl, Or.inr ?_⟩)
      rw [Serving, hself]
      exact hk _ _ _ h.users hsem
  · rw [Trying, hj] at htry
    obtain ⟨limits, ids, rfl, -, hfail, -⟩ | ⟨hquiet, hk⟩ := htry
    · -- the second insert runs into the constraint
      have hmem : row ∈ P.world.tables.users := by
        rw [h.users]
        exact List.mem_append_right _ (List.mem_singleton.2 rfl)
      obtain ⟨e, rfl, hw⟩ := insert_again (ho.input_external j) hmem h.external hsem
      refine h.keep_of_tables hstep (by rw [hw]) (Or.inr ⟨hl, Or.inr ⟨_, hself.trans (hfail e)⟩⟩)
    · have ht := answers_readsOnly (readsOnly_of_quietCreate hquiet) hsem
      refine h.keep_of_tables hstep ht (Or.inr ⟨hl, Or.inl ?_⟩)
      rw [Trying, hself]
      exact hk _ _ _ h.catalog hsem
  · rw [he] at hj
    cases hj

end Steps

/-! ## Whole runs -/

section Runs

variable [DecidableEq ι] {w : World} {as : List (DeliveryAct ι)} {Q : DeliveryPool ι}

/-- A run is before the insert, or after the insert of one delivery; the deliveries that looked
before it and are not that one are lost. -/
theorem run_phases (ho : Order w.tables x p ev d)
    (h : Path (Pool.Step Answers fun _ _ => False)
      (deliveries (fun i => (.ok (ev i), d i)) w) as Q) :
    Unprovisioned w.tables x p ev d as Q ∨ ¬ NoInsert as ∧ ∃ i₀ row, LooksEarly x as i₀ ∧
      Provisioned w.tables x p ev d row (fun i => LooksEarly x as i ∧ i ≠ i₀) Q := by
  induction h with
  | nil =>
      refine Or.inl ⟨⟨rfl, rfl⟩, rfl, (fun i u ids r h => by cases h), fun i => Or.inl ⟨?_, ?_⟩⟩
      · rintro ⟨r, hr⟩
        cases hr
      · exact Or.inl ⟨rfl, ho.fresh i⟩
  | @snoc P Q as a _ hlast ih =>
      cases a with
      | start j q => exact hlast.2.1.elim
      | call j s r =>
          obtain hbefore | ⟨hinsert, i₀, row, hearly, hafter⟩ := ih
          · obtain h | ⟨hinsert, hearly, row, hafter⟩ := hbefore.step ho hlast
            · exact Or.inl h
            · exact Or.inr ⟨hinsert, j, row, hearly, hafter⟩
          · have hinsert' : ¬ NoInsert (as ++ [.call j s r]) := fun hno =>
              hinsert fun i u ids r' hmem => hno i u ids r' (List.mem_append_left _ hmem)
            refine Or.inr ⟨hinsert', i₀, row, (looksEarly_append_iff hinsert').2 hearly, ?_⟩
            simp only [looksEarly_append_iff hinsert']
            exact hafter.step ho hlast

omit [DecidableEq ι] in
theorem Waiting.not_ret (ho : Order w.tables x p ev d) {i : ι} (h : Waiting ev d Q i)
    {r : Except Err BillingResult} : Q.prog i ≠ .ret r := by
  intro hr
  obtain ⟨hp, -⟩ | hp := h
  · have hret := (ho.process_eq i).symm.trans (hp.symm.trans hr)
    cases hret
  · have hret := (ho.act_eq i).symm.trans (hp.symm.trans hr)
    cases hret

omit [DecidableEq ι] in
theorem Trying.not_ret {t : Tables} {i : ι} (h : Trying t p ev d Q i)
    {r : Except Err BillingResult} : Q.prog i ≠ .ret r := by
  intro hr
  rw [Trying, hr] at h
  exact h

/-- When all deliveries of an order have returned, one user has been created. All of them have
returned it exactly when no two looked for it before the first insert. -/
theorem provision_idempotent_iff [Nonempty ι] (ho : Order w.tables x p ev d)
    (h : Path (Pool.Step Answers fun _ _ => False) (deliveries (fun i => (.ok (ev i), d i)) w) as Q)
    (hdone : ∀ i, ∃ r, Q.prog i = .ret r) :
    ∃ row, Q.world.tables.users = w.tables.users ++ [row] ∧
      (∀ u ∈ Q.world.tables.users, u.externalID = some x ↔ u = row) ∧
      ((∀ i, Q.prog i = .ret (.ok ⟨false, "provision", some row⟩)) ↔
        ¬ ∃ i j, i ≠ j ∧ LooksEarly x as i ∧ LooksEarly x as j) := by
  obtain hbefore | ⟨-, i₀, row, hearly, hafter⟩ := run_phases ho h
  · -- a delivery that has not passed the insert has not returned
    obtain ⟨i⟩ := (inferInstance : Nonempty ι)
    obtain ⟨r, hr⟩ := hdone i
    obtain ⟨-, hwait⟩ | ⟨-, htry⟩ := hbefore.calls i
    · exact (hwait.not_ret ho hr).elim
    · exact (htry.not_ret hr).elim
  · refine ⟨row, hafter.users, fun u hu => ⟨fun hux => ?_, fun h => h ▸ hafter.external⟩, ?_, ?_⟩
    · rw [hafter.users, List.mem_append, List.mem_singleton] at hu
      obtain hu | hu := hu
      · exact (ho.unknown i₀ (List.mem_map.2 ⟨u, hu, hux⟩)).elim
      · exact hu
    · rintro hall ⟨i, j, hij, hi, hj⟩
      -- one of the two is not the delivery that inserted, and has returned an error
      obtain ⟨i', hi', hne⟩ : ∃ i', LooksEarly x as i' ∧ i' ≠ i₀ := by
        by_cases hi₀ : i = i₀
        · exact ⟨j, hj, fun h => hij (hi₀.trans h.symm)⟩
        · exact ⟨i, hi, hi₀⟩
      obtain ⟨hl, -⟩ | ⟨-, htry | ⟨e, he⟩⟩ := hafter.calls i'
      · exact hl ⟨hi', hne⟩
      · exact htry.not_ret (hall i')
      · rw [hall i'] at he
        cases he
    · intro hapart i
      obtain ⟨r, hr⟩ := hdone i
      obtain ⟨-, hwait | hserve⟩ | ⟨⟨hi, hne⟩, -⟩ := hafter.calls i
      · exact (hwait.not_ret ho hr).elim
      · rw [Serving, hr] at hserve
        have hserve : r = .ok ⟨false, "provision", some row⟩ := hserve
        rw [hr, hserve]
      · exact (hapart ⟨i, i₀, hne, hi, hearly⟩).elim

end Runs

/-! ## Two deliveries of one order -/

def orderPayload : ProvisionPayload := ⟨"a@example.com", none, ["i1"], none, none, ""⟩

/-- The billing system sends the order twice, with event ids of their own. -/
def orderEvent : Bool → BillingEvent
  | false => ⟨"evt-1", "provision", "c", "", some orderPayload, none⟩
  | true => ⟨"evt-2", "provision", "c", "", some orderPayload, none⟩

def orderDelivery : Bool → Delivery
  | false => ⟨⟨"u1", "uuid1", "pw1", "tok1"⟩, 0, 0⟩
  | true => ⟨⟨"u2", "uuid2", "pw2", "tok2"⟩, 0, 0⟩

def orders : DeliveryPool Bool := deliveries (fun i => (.ok (orderEvent i), orderDelivery i)) unsold

theorem order_valid : Order unsold.tables "c" orderPayload orderEvent orderDelivery where
  action i := by cases i <;> rfl
  payload i := by cases i <;> rfl
  external i := by cases i <;> rfl
  named := by decide
  eventID i := by cases i <;> decide
  distinct i j h := by cases i <;> cases j <;> first | rfl | exact absurd h (by decide)
  fresh i := by cases i <;> decide
  valid i := by
    cases i <;> exact ⟨by decide, by decide, rfl, (fun p hp => by cases hp), by decide⟩

/-- One delivery after the other. -/
def oneByOne : List (Pool.Move Bool Stmt Stmt.Res (Except Err BillingResult)) :=
  List.replicate 7 (.fire false) ++ List.replicate 2 (.fire true)

/-- Both deliveries look the user up before one of them inserts it. -/
def bothLook : List (Pool.Move Bool Stmt Stmt.Res (Except Err BillingResult)) :=
  List.replicate 2 (.fire false) ++ List.replicate 2 (.fire true) ++
    List.replicate 5 (.fire false) ++
    List.replicate 2 (.fire true)

/-- The row of the first delivery. -/
def orderedRow : User := insertedRow (createInput (orderEvent false) orderPayload)
  (orderDelivery false).fresh (none, none)

theorem provision_idempotent_iff_oneByOne :
    (∀ i, (Pool.play exec oneByOne orders).2.prog i =
        .ret (.ok ⟨false, "provision", some orderedRow⟩)) ∧
      ¬ ∃ i j, i ≠ j ∧ LooksEarly "c" (Pool.play exec oneByOne orders).1 i ∧
        LooksEarly "c" (Pool.play exec oneByOne orders).1 j := by
  have hall : ∀ i, (Pool.play exec oneByOne orders).2.prog i =
      .ret (.ok ⟨false, "provision", some orderedRow⟩) := by
    intro i
    cases i <;> rfl
  obtain ⟨row, husers, -, hiff⟩ := provision_idempotent_iff order_valid
    (Pool.play_path_of_exec answers_exec (fun i p h => by simp [oneByOne] at h) _)
    fun i => ⟨_, hall i⟩
  have hrow : [orderedRow] = [row] := husers
  cases hrow
  exact ⟨hall, hiff.1 hall⟩

/-- The second delivery of the order is answered with a conflict. -/
theorem provision_conflict :
    Order unsold.tables "c" orderPayload orderEvent orderDelivery ∧
      Path (Pool.Step Answers fun _ _ => False) orders (Pool.play exec bothLook orders).1
        (Pool.play exec bothLook orders).2 ∧
      (Pool.play exec bothLook orders).2.prog false =
        .ret (.ok ⟨false, "provision", some orderedRow⟩) ∧
      (Pool.play exec bothLook orders).2.prog true =
        .ret (.error (.store (.conflict "users_email_key"))) :=
  ⟨order_valid, Pool.play_path_of_exec answers_exec (fun i p h => by simp [bothLook] at h) _, rfl,
    rfl⟩

end XrayApi.Service
