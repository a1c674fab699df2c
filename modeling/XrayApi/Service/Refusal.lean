import XrayApi.Service.Atomicity
import XrayApi.Service.Footprint
import XrayApi.Service.Mirror
import XrayApi.Transition.Ensures

/-!
# Requests that are refused

A request that runs alone and fails for a reason that lies with the request (`Refusal`: a payload
that is not valid, an object that is not there, a conflict) has changed no table: `Clean`. The
operations check before they write, and after its first write an operation is not refused any more:
what follows succeeds on the tables that the write left, or fails for want of a connection
(`Accepted`).

A deletion of a user marks the assignments before it looks for the user. There are none if the user
does not exist.
-/

set_option autoImplicit false

namespace XrayApi.Service

open Transition Store Relational

/-- The error lies with the request and not with the server. -/
def Refusal : Err → Prop
  | .store (.internal _) => False
  | .userWith _ _ (.internal _) => False
  | _ => True

/-- A request that is refused leaves the tables `t`. -/
def Clean {α : Type} (t : Tables) (r : Except Err α) (w : World) : Prop :=
  ∀ e, r = .error e → Refusal e → w.tables = t

/-- The request is not refused. -/
def Accepted {α : Type} (r : Except Err α) (_ : World) : Prop := ∀ e, r = .error e → ¬ Refusal e

/-- Run alone, the request is not refused unless the tables are still `t`. -/
abbrev RunsClean {α : Type} (t : Tables) (p : Service α) (w : World) : Prop :=
  Prog.Ensures Meets (Clean t) p w

/-- Run alone, the request is not refused. -/
abbrev RunsAccepted {α : Type} (p : Service α) (w : World) : Prop :=
  Prog.Ensures Meets Accepted p w

section Rules

variable {α β : Type} {t : Tables} {w : World}

theorem clean_of_accepted {p : Service α} (h : RunsAccepted p w) : RunsClean t p w :=
  h.mono fun _ _ hr e he href => absurd href (hr e he)

theorem clean_throw {e : Err} (hw : w.tables = t) : RunsClean t (Req.throw e : Service α) w :=
  fun _ _ _ => hw

theorem accepted_pure (a : α) : RunsAccepted (pure a : Service α) w := fun _ h => by cases h

/-- A call: its failure changes nothing, and its success leaves the tables that `apply` says. -/
theorem clean_query_bind {q : StoreCall} {f : q.Out → Service β} (hw : w.tables = t)
    (hf : ∀ a o w', SameRows q a o → q.apply t = .ok (o, w'.tables) → RunsClean t (f a) w') :
    RunsClean t (query q >>= f) w := by
  intro r w' h
  obtain ⟨e, rfl, ht⟩ | ⟨a, o, rfl, hrows, hq⟩ := mayFail_db (meets_db.1 h)
  · exact fun _ _ _ => ht.trans hw
  · rw [hw] at hq
    exact hf a o w' hrows hq

/-- A read. -/
theorem clean_read_bind {q : StoreCall} {f : q.Out → Service β} (hq : q.isWrite = false)
    (hw : w.tables = t)
    (hf : ∀ a o w', SameRows q a o → q.apply t = .ok (o, t) → w'.tables = t →
      RunsClean t (f a) w') : RunsClean t (query q >>= f) w := by
  refine clean_query_bind hw fun a o w' hrows happly => ?_
  have ht := StoreCall.apply_of_isWrite_eq_false hq happly
  rw [ht] at happly
  exact hf a o w' hrows happly ht

theorem clean_query {q : StoreCall} (hw : w.tables = t) : RunsClean t (query q) w := by
  intro r w' h
  obtain ⟨e, rfl, ht⟩ | ⟨a, o, rfl, -, -⟩ := mayFail_db (meets_db.1 h)
  · exact fun _ _ _ => ht.trans hw
  · exact fun _ he => by cases he

/-- A part that only reads. -/
theorem clean_reads_bind {p : Service α} {f : α → Service β} (hp : Prog.Forall ReadsOnly p)
    (hw : w.tables = t) (hf : ∀ a w', w'.tables = t → RunsClean t (f a) w') :
    RunsClean t (p >>= f) w := by
  refine Req.ensures_bind (Prog.Ensures.mono (Prog.Forall.ensures (I := fun w => w.tables = t) hp
    (fun _ _ _ _ hs hsem hI => (ReadsOnly.tables hs hsem).trans hI) hw) fun r w' hw' => ?_)
  exact ⟨fun a _ => hf a w' hw', fun _ _ _ _ _ => hw'⟩

/-- A call that succeeds on the tables it finds can only fail for want of a connection. -/
theorem accepted_query_bind {q : StoreCall} {f : q.Out → Service β} {o : q.Out} {t' : Tables}
    (hq : q.apply w.tables = .ok (o, t'))
    (hf : ∀ a w', SameRows q a o → w'.tables = t' → RunsAccepted (f a) w') :
    RunsAccepted (query q >>= f) w := by
  intro r w' h
  obtain h | ⟨-, text, hr⟩ := meets_db.1 h
  · obtain ⟨a, rfl, hrows, ht⟩ := answers_db_of_ok hq h
    exact hf a w' hrows ht
  · cases hr
    intro e he
    cases he
    exact id

theorem accepted_query {q : StoreCall} {o : q.Out} {t' : Tables}
    (hq : q.apply w.tables = .ok (o, t')) : RunsAccepted (query q) w := by
  intro r w' h
  obtain h | ⟨-, text, hr⟩ := meets_db.1 h
  · obtain ⟨a, rfl, -, -⟩ := answers_db_of_ok hq h
    exact fun _ he => by cases he
  · cases hr
    intro e he
    cases he
    exact id

/-- A part that returns whatever happens, and keeps what the rest relies on. -/
theorem accepted_bind {I : World → Prop} {p : Service α} {f : α → Service β}
    (hkeeps : Prog.Forall (fun s => ∀ w r w', Meets s w r w' → I w → I w') p)
    (hreturns : Prog.Yields (fun r => ∃ a, r = .ok a) p) (hw : I w)
    (hf : ∀ a w', I w' → RunsAccepted (f a) w') : RunsAccepted (p >>= f) w := by
  have hI : Prog.Ensures Meets (fun _ w' => I w') p w :=
    Prog.Forall.ensures hkeeps (fun _ _ _ _ hs hsem => hs _ _ _ hsem) hw
  refine Req.ensures_bind ((hI.and (hreturns.ensures w)).mono fun r w' h => ?_)
  obtain ⟨hw', a, rfl⟩ := h
  exact ⟨fun _ ha => hf _ w' hw', fun _ he => by cases he⟩

/-! ### Steps of the manager -/

/-- The program returns, and leaves the tables as they are. -/
def Silent (p : Service Unit) : Prop :=
  ∀ w, Prog.Ensures Meets (fun r w' => r = .ok () ∧ w'.tables = w.tables) p w

theorem Silent.bind {post : Except Err β → World → Prop} {p : Service Unit}
    {f : Unit → Service β} (hp : Silent p)
    (hf : ∀ w', w'.tables = w.tables → Prog.Ensures Meets post (f ()) w') :
    Prog.Ensures Meets post (p >>= f : Service β) w := by
  refine Req.ensures_bind ((hp w).mono ?_)
  rintro r w' ⟨rfl, ht⟩
  exact ⟨fun _ _ => hf w' ht, fun e he => by cases he⟩

theorem silent_trigger (n : ID) : Silent (trigger n) :=
  fun _ _ _ h => ⟨rfl, (readsOnly_trigger n).tables h⟩

/-- A step other than a store call. -/
theorem readsOnly_of_ne {s : Stmt} (hs : ∀ q, s ≠ .db q) : ReadsOnly s := by
  intro w r w' h
  obtain h | ⟨rfl, -⟩ := mayFail_cases h
  · exact answers_tables_of_ne hs h
  · rfl

theorem silent_startNode (node : Node) : Silent (startNode node) :=
  fun _ _ _ h => ⟨rfl, (readsOnly_of_ne fun _ h => by cases h).tables h⟩

theorem silent_stopNode (n : ID) : Silent (stopNode n) :=
  fun _ _ _ h => ⟨rfl, (readsOnly_of_ne fun _ h => by cases h).tables h⟩

theorem silent_triggerAll (ns : List ID) : Silent (triggerAll ns) := by
  induction ns with
  | nil => exact fun _ => ⟨rfl, rfl⟩
  | cons n ns ih =>
      intro w
      refine (silent_trigger n).bind fun w' hw => (ih w').mono fun r w'' h => ?_
      exact ⟨h.1, h.2.trans hw⟩

theorem silent_reconcileForUser (id : ID) : Silent (reconcileForUser id) := by
  intro w r w' h
  have ht := (readsOnly_assignmentTargetsForUser id).tables h
  cases r with
  | error e => exact ⟨rfl, ht⟩
  | ok targets =>
      exact (silent_triggerAll _ w').mono fun r w'' h => ⟨h.1, h.2.trans ht⟩

end Rules

/-! ## Users -/

section Users

variable {t t' : Tables} {w : World} {id : ID}

theorem apply_getUser (h : id ∈ t.users.map User.id) :
    ∃ u, (StoreCall.getUser id).apply t = .ok (u, t) := by
  obtain ⟨u, hu⟩ := exists_getUser_iff.2 h
  exact ⟨u, StoreCall.read_eq_ok.2 ⟨hu, rfl⟩⟩

theorem mem_userIDs_of_getUser {u : User} (h : (StoreCall.getUser id).apply t = .ok (u, t)) :
    id ∈ t.users.map User.id :=
  exists_getUser_iff.1 ⟨u, (StoreCall.read_eq_ok.1 h).1⟩

/-- A call other than a deletion keeps the users. -/
theorem mem_userIDs_apply {q : StoreCall} {o : q.Out} (hq : ∀ id, q ≠ .deleteUser id)
    (h : q.apply t = .ok (o, t')) (hid : id ∈ t.users.map User.id) :
    id ∈ t'.users.map User.id := by
  obtain heq | ⟨id', heq⟩ := userIDs_apply hq h
  · rw [heq]
    exact hid
  · rw [heq]
    exact List.mem_append_left _ hid

theorem accepted_getUser (h : id ∈ w.tables.users.map User.id) :
    RunsAccepted (query (.getUser id)) w := by
  obtain ⟨u, hu⟩ := apply_getUser h
  exact accepted_query hu

/-- The end of an operation on a user that exists. -/
theorem accepted_tail {id' : ID} (h : id ∈ w.tables.users.map User.id) :
    RunsAccepted (reconcileForUser id' >>= fun _ => query (.getUser id)) w := by
  refine (silent_reconcileForUser id').bind fun w' hw => accepted_getUser ?_
  rw [hw]
  exact h

theorem clean_create (inp : CreateInput) (fresh : Fresh) (now : Time) (hw : w.tables = t) :
    RunsClean t (create inp fresh now) w := by
  unfold create
  split_ifs with hemail hids
  · exact clean_throw hw
  · exact clean_throw hw
  · have hlimits : Prog.Forall ReadsOnly (snapshotLimits inp now) := by
      unfold snapshotLimits
      cases inp.planID with
      | none => trivial
      | some planID =>
          exact Req.forall_bind ⟨readsOnly_getPlan _, fun _ => trivial⟩ fun _ => trivial
    refine clean_reads_bind hlimits hw fun limits w₁ hw₁ => ?_
    refine clean_read_bind rfl hw₁ fun inbounds o w₂ _ _ hw₂ => ?_
    split_ifs with hlen
    · exact clean_throw hw₂
    · refine clean_query_bind hw₂ fun _ _ w₃ _ happly => clean_of_accepted (accepted_tail ?_)
      -- the user that was created is there
      obtain ⟨-, -, husers⟩ := createWithAssignmentsTx_eq_ok (StoreCall.wrote_eq_ok.1 happly)
      rw [husers, List.map_append]
      exact List.mem_append_right _ (List.mem_singleton.2 rfl)

theorem clean_update (id : ID) (inp : UpdateInput) (now : Time) (hw : w.tables = t) :
    RunsClean t (update id inp now) w := by
  refine clean_read_bind rfl hw fun u o w₁ _ hget hw₁ => ?_
  have hmem := mem_userIDs_of_getUser hget
  refine clean_query_bind hw₁ fun _ _ w₂ _ happly => clean_of_accepted (accepted_tail ?_)
  exact mem_userIDs_apply (fun _ h => by cases h) happly hmem

theorem clean_setInbounds (id : ID) (ids : Slice ID) (hw : w.tables = t) :
    RunsClean t (setInbounds id ids) w := by
  refine clean_read_bind rfl hw fun u o w₁ _ hget hw₁ => ?_
  have hmem := mem_userIDs_of_getUser hget
  refine clean_read_bind rfl hw₁ fun inbounds _ w₂ _ _ hw₂ => ?_
  split_ifs with hlen
  · exact clean_throw hw₂
  · refine clean_reads_bind ⟨readsOnly_assignmentTargetsForUser id, fun _ => trivial⟩ hw₂
      fun targets w₃ hw₃ => ?_
    refine clean_query_bind hw₃ fun _ _ w₄ _ happly => clean_of_accepted ?_
    refine (silent_triggerAll _).bind fun w₅ hw₅ => accepted_getUser ?_
    rw [hw₅]
    exact mem_userIDs_apply (fun _ h => by cases h) happly hmem

theorem clean_setStatusAndReconcile (id : ID) (status : UserStatus) (hw : w.tables = t) :
    RunsClean t (setStatusAndReconcile id status) w := by
  refine clean_query_bind hw fun _ _ w₁ _ happly => clean_of_accepted (accepted_tail ?_)
  obtain ⟨hmem, -⟩ := requireUser_eq_ok.1 (StoreCall.wrote_eq_ok.1 happly)
  exact mem_userIDs_apply (fun _ h => by cases h) happly hmem

theorem clean_resume (id : ID) (now : Time) (hw : w.tables = t) :
    RunsClean t (resume id now) w := by
  refine clean_read_bind rfl hw fun u _ w₁ _ _ hw₁ => ?_
  split_ifs with hquota hexpired
  · exact clean_throw hw₁
  · exact clean_throw hw₁
  · exact clean_setStatusAndReconcile id .active hw₁

/-- The second write of a reset finds the user. -/
theorem accepted_reactivateSuspended {u : User} {now : Time} {f : Unit → Service User}
    (h : id ∈ w.tables.users.map User.id)
    (hf : ∀ w', id ∈ w'.tables.users.map User.id → RunsAccepted (f ()) w') :
    RunsAccepted (reactivateSuspended id u now >>= f) w := by
  unfold reactivateSuspended
  split_ifs with hstatus
  · obtain ⟨t', ht⟩ : ∃ t', setUserStatus w.tables id .active = .ok t' := setUserStatus_succeeds h
    have happly : (StoreCall.setUserStatus id .active).apply w.tables = .ok ((), t') :=
      StoreCall.wrote_eq_ok.2 ht
    refine accepted_query_bind happly fun _ w' _ hw' => hf w' ?_
    rw [hw']
    exact mem_userIDs_apply (fun _ h => by cases h) happly h
  · exact hf w h

theorem clean_resetTraffic (id : ID) (now : Time) (hw : w.tables = t) :
    RunsClean t (resetTraffic id now) w := by
  refine clean_read_bind rfl hw fun u o w₁ _ hget hw₁ => ?_
  have hmem := mem_userIDs_of_getUser hget
  refine clean_query_bind hw₁ fun _ _ w₂ _ happly => clean_of_accepted ?_
  have hmem₂ := mem_userIDs_apply (fun _ h => by cases h) happly hmem
  exact accepted_reactivateSuspended hmem₂ fun w₃ hmem₃ => accepted_tail hmem₃

theorem clean_rotateSubToken (id : ID) (token : String) (hw : w.tables = t) :
    RunsClean t (rotateSubToken id token) w := by
  refine clean_read_bind rfl hw fun u o w₁ _ hget hw₁ => ?_
  have hmem := mem_userIDs_of_getUser hget
  refine clean_query_bind hw₁ fun _ _ w₂ _ happly => clean_of_accepted (accepted_getUser ?_)
  exact mem_userIDs_apply (fun _ h => by cases h) happly hmem

/-- Without the user there is no assignment to mark. -/
theorem markAssignmentsRemovingForUser_of_notMem (ht : t.Valid) (h : id ∉ t.users.map User.id) :
    markAssignmentsRemovingForUser t id = t := by
  unfold markAssignmentsRemovingForUser
  rw [updateWhere_eq_self_iff.2]
  intro r hr hid
  exact (h (of_decide_eq_true hid ▸ ht.userInbounds_user r hr)).elim

theorem clean_delete (id : ID) (hw : w.tables = t) : RunsClean t (delete id) w := by
  refine clean_read_bind rfl hw fun targets _ w₁ _ _ hw₁ => ?_
  refine clean_query_bind hw₁ fun _ _ w₂ _ hmark => ?_
  obtain hmark : w₂.tables = markAssignmentsRemovingForUser t id :=
    (congrArg Prod.snd (Except.ok.inj hmark)).symm
  refine (silent_triggerAll _).bind fun w₃ hw₃ => ?_
  by_cases hmem : id ∈ t.users.map User.id
  · -- the user is there, so the deletion succeeds
    have hmem₃ : id ∈ w₃.tables.users.map User.id := by
      rw [hw₃, hmark]
      exact hmem
    obtain ⟨t', ht⟩ : ∃ t', deleteUser w₃.tables id = .ok t' :=
      ⟨_, requireUser_eq_ok.2 ⟨hmem₃, rfl⟩⟩
    exact clean_of_accepted (accepted_query (StoreCall.wrote_eq_ok.2 ht))
  · refine clean_query ?_
    rw [hw₃, hmark]
    exact markAssignmentsRemovingForUser_of_notMem (hw ▸ w.db.valid) hmem

/-! ### Renewals -/

/-- What a renewal writes back for the row `v`: its token and external id are those of the row, and
its plan exists. -/
structure Rewrites (t : Tables) (v u : User) : Prop where
  id : u.id = v.id
  subToken : u.subToken = v.subToken
  externalID : u.externalID = v.externalID
  plan : ∀ p ∈ u.planID, p ∈ t.plans.map Plan.id

variable {v u : User}

theorem Rewrites.extendExpiry (h : Rewrites t v u) (inp : RenewInput) (now : Time) :
    Rewrites t v (extendExpiry inp now u) := by
  unfold Service.extendExpiry
  split_ifs with hdays
  · exact ⟨h.id, h.subToken, h.externalID, h.plan⟩
  · exact h

theorem Rewrites.zeroUsage (h : Rewrites t v u) : Rewrites t v (zeroUsage u) :=
  ⟨h.id, h.subToken, h.externalID, h.plan⟩

theorem Rewrites.reactivate (h : Rewrites t v u) (now : Time) :
    Rewrites t v (reactivate now u) := by
  unfold Service.reactivate
  split_ifs with hstatus
  · exact ⟨h.id, h.subToken, h.externalID, h.plan⟩
  · exact h

theorem clean_switchPlan_bind {inp : RenewInput} {f : User → Service User} (hu : Rewrites t u u)
    (hw : w.tables = t)
    (hf : ∀ u' w', Rewrites t u u' → w'.tables = t → RunsClean t (f u') w') :
    RunsClean t (switchPlan inp u >>= f) w := by
  unfold switchPlan
  cases inp.planID with
  | none => exact hf u w hu hw
  | some planID =>
      rw [Req.bind_assoc]
      refine clean_read_bind rfl hw fun plan o w' _ hget hw' => hf _ w' ⟨rfl, rfl, rfl, ?_⟩ hw'
      rintro p ⟨⟩
      have hplan := (StoreCall.read_eq_ok.1 hget).1
      exact List.mem_map.2 ⟨o, PlanService.getPlan_mem hplan, PlanService.getPlan_id hplan⟩

/-- After the counters have been reset, the row can be written back. -/
theorem accepted_writeBack {f : Unit → Service User} (hu : Rewrites t v u) (hv : v ∈ t.users)
    (hid : v.id = id) (hreset : Store.resetTraffic t id = .ok w.tables)
    (hf : ∀ w', id ∈ w'.tables.users.map User.id → RunsAccepted (f ()) w') :
    RunsAccepted (query (.updateUser u) >>= f) w := by
  obtain ⟨-, hok⟩ := requireUser_eq_ok.1 hreset
  have htables := (Except.ok.inj hok).symm
  have hmem : Store.zeroUsage v ∈ w.tables.users := by
    rw [htables]
    exact List.mem_map.2 ⟨v, hv, if_pos (decide_eq_true hid)⟩
  have hplan : ∀ p ∈ u.planID, p ∈ w.tables.plans.map Plan.id := by
    rw [htables]
    exact hu.plan
  obtain ⟨t', ht'⟩ := updateUser_succeeds w.db.valid hmem hu.id hu.subToken hu.externalID hplan
  have happly : (StoreCall.updateUser u).apply w.tables = .ok ((), t') :=
    StoreCall.wrote_eq_ok.2 ht'
  refine accepted_query_bind happly fun _ w' _ hw' => hf w' ?_
  rw [hw']
  exact mem_userIDs_apply (fun _ h => by cases h) happly (List.mem_map.2 ⟨_, hmem, hid⟩)

theorem clean_renew (id : ID) (inp : RenewInput) (now now' : Time) (hw : w.tables = t) :
    RunsClean t (renew id inp now now') w := by
  unfold renew
  split_ifs with hempty
  · exact clean_throw hw
  · refine clean_read_bind rfl hw fun u o w₁ hrows hget hw₁ => ?_
    obtain rfl : u = o := hrows
    have hget := (StoreCall.read_eq_ok.1 hget).1
    have hmem : u ∈ t.users := getUser_mem hget
    have hid : u.id = id := getUser_id hget
    have hvalid : t.Valid := hw ▸ w.db.valid
    have hself : Rewrites t u u := ⟨rfl, rfl, rfl, fun p hp => hvalid.users_plan u hmem p hp⟩
    refine clean_switchPlan_bind hself hw₁ fun u₁ w₂ hu₁ hw₂ => ?_
    have hu₂ := hu₁.extendExpiry inp now
    unfold resetUsage
    split_ifs with hreset
    · rw [Req.bind_assoc]
      refine clean_query_bind hw₂ fun _ _ w₃ _ happly => clean_of_accepted ?_
      refine accepted_writeBack (hu₂.zeroUsage.reactivate now') hmem hid
        (StoreCall.wrote_eq_ok.1 happly) fun w₄ hmem₄ => accepted_tail hmem₄
    · refine clean_query_bind hw₂ fun _ _ w₃ _ happly => clean_of_accepted (accepted_tail ?_)
      exact mem_userIDs_apply (fun _ h => by cases h) happly (List.mem_map.2 ⟨u, hmem, hid⟩)

end Users

/-! ## Plans -/

section Plans

variable {t : Tables} {w : World}

theorem clean_plan_create (inp : PlanService.PlanInput) (id : ID) (hw : w.tables = t) :
    RunsClean t (PlanService.create inp id) w := by
  unfold PlanService.create
  split_ifs with hname hlimit hdays
  · exact clean_throw hw
  · exact clean_throw hw
  · exact clean_throw hw
  · refine clean_query_bind hw fun _ _ w₁ _ happly => clean_of_accepted ?_
    obtain ⟨-, -, ht⟩ := createPlan_eq_ok (StoreCall.wrote_eq_ok.1 happly)
    have hmem : id ∈ w₁.tables.plans.map Plan.id := by
      rw [ht, List.map_append]
      exact List.mem_append_right _ (List.mem_singleton.2 rfl)
    obtain ⟨p, hp⟩ := exists_lookup_of_mem hmem
    exact accepted_query (StoreCall.read_eq_ok.2 ⟨PlanService.getPlan_eq_ok.2 hp, rfl⟩)

theorem clean_plan_update (id : ID) (inp : PlanService.PlanInput) (hw : w.tables = t) :
    RunsClean t (PlanService.update id inp) w := by
  refine clean_read_bind rfl hw fun p o w₁ hrows hget hw₁ => ?_
  obtain rfl : p = o := hrows
  have hid : p.id = id := PlanService.getPlan_id (StoreCall.read_eq_ok.1 hget).1
  refine clean_query_bind hw₁ fun _ _ w₂ _ happly => clean_of_accepted ?_
  have hrow : getPlan w₂.tables p.id = .ok (inp.patch p) :=
    PlanService.getPlan_updatePlan (StoreCall.wrote_eq_ok.1 happly)
  rw [hid] at hrow
  exact accepted_query (StoreCall.read_eq_ok.2 ⟨hrow, rfl⟩)

end Plans

/-! ## Nodes and inbounds -/

section Nodes

open NodeService

variable {t : Tables} {w : World} {id : ID}

theorem accepted_getNode (h : id ∈ nodeIDs w) : RunsAccepted (query (.getNode id)) w := by
  obtain ⟨n, hn⟩ := exists_getNode_iff.2 h
  exact accepted_query (StoreCall.read_eq_ok.2 ⟨hn, rfl⟩)

theorem mem_nodeIDs_of_ne {s : Stmt} (hs : ∀ q, s ≠ .db q) :
    ∀ w r w', Meets s w r w' → id ∈ nodeIDs w → id ∈ nodeIDs w' := by
  intro w r w' h hid
  unfold nodeIDs
  rw [(readsOnly_of_ne hs).tables h]
  exact hid

/-- A node that has been inserted is probed, started and read. -/
theorem accepted_announce (n : Node) (now : Time) (h : n.id ∈ nodeIDs w) :
    RunsAccepted (announce n now) w := by
  have hprobe : Prog.Forall (fun s => ∀ w r w', Meets s w r w' → n.id ∈ nodeIDs w →
      n.id ∈ nodeIDs w') (probe n.id) := by
    refine Req.forall_bind ⟨mem_nodeIDs_of_ne (fun _ h => by cases h), fun r => ?_⟩ fun r => ?_
    · cases r with
      | error e => trivial
      | ok _ => exact ⟨mem_nodeIDs_of_ne (fun _ h => by cases h), fun _ => trivial⟩
    · cases r with
      | error e => trivial
      | ok _ => trivial
  have hreturns : Prog.Yields (fun r => ∃ a, r = .ok a) (probe n.id) := by
    intro r
    cases r with
    | error e => exact ⟨_, rfl⟩
    | ok _ =>
        intro r
        cases r with
        | error e => exact ⟨_, rfl⟩
        | ok _ => exact ⟨_, rfl⟩
  refine accepted_bind hprobe hreturns h fun outcome w₁ h₁ => ?_
  refine accepted_bind (I := fun w => n.id ∈ nodeIDs w)
    ⟨fun w r w' hsem hid => ?_, fun _ => trivial⟩
    (fun r => ⟨_, rfl⟩) h₁ fun _ w₂ h₂ => ?_
  · rw [nodeIDs_setNodeHealth (meets_db.1 hsem)]
    exact hid
  · refine (silent_startNode _).bind fun w₃ hw₃ => accepted_getNode ?_
    unfold nodeIDs
    rw [hw₃]
    exact h₂

theorem clean_node_create (pem : Xray.PemParser) (inp : NodeInput) (id : ID) (now : Time)
    (hw : w.tables = t) : RunsClean t (NodeService.create pem inp id now) w := by
  unfold NodeService.create
  split_ifs with hname haddress hport
  · exact clean_throw hw
  · exact clean_throw hw
  · exact clean_throw hw
  · split
    · exact clean_throw hw
    · next n hn =>
        refine clean_query_bind hw fun _ _ w₁ _ happly => clean_of_accepted ?_
        refine accepted_announce n now ?_
        obtain ⟨-, -, ht⟩ := createNode_eq_ok (StoreCall.wrote_eq_ok.1 happly)
        unfold nodeIDs
        rw [ht, List.map_append]
        exact List.mem_append_right _ (List.mem_singleton.2 rfl)

theorem clean_node_update (pem : Xray.PemParser) (id : ID) (inp : NodeInput) (hw : w.tables = t) :
    RunsClean t (NodeService.update pem id inp) w := by
  refine clean_read_bind rfl hw fun n o w₁ hrows hget hw₁ => ?_
  obtain rfl : n = o := hrows
  have hold : n.id = id := getNode_id (StoreCall.read_eq_ok.1 hget).1
  split
  · exact clean_throw hw₁
  · next n' hn' =>
      have hid : n'.id = id := by rw [applyTLSMaterial_id hn', id_patch, hold]
      refine clean_query_bind hw₁ fun _ _ w₂ _ happly => clean_of_accepted ?_
      obtain ⟨hmem, -, ht⟩ := updateNode_eq_ok (StoreCall.wrote_eq_ok.1 happly)
      refine (silent_startNode n').bind fun w₃ hw₃ => accepted_getNode ?_
      unfold nodeIDs
      rw [hw₃, ht, ← hid]
      have hids := map_updateWhere (fun r => decide (r.id = n'.id)) (persistNode n') Node.id
        (fun _ _ => rfl) t.nodes
      exact hids ▸ hmem

theorem clean_node_delete (id : ID) (hw : w.tables = t) :
    RunsClean t (NodeService.delete id) w := by
  refine (silent_stopNode id).bind fun w₁ hw₁ => clean_query ?_
  rw [hw₁]
  exact hw

theorem clean_node_reconcile (id : ID) (hw : w.tables = t) :
    RunsClean t (NodeService.reconcile id) w :=
  clean_read_bind rfl hw fun _ _ _ _ _ _ => (silent_trigger id _).mono fun r _ h e he => by
    rw [h.1] at he
    cases he

theorem apply_getInbound (h : id ∈ t.inbounds.map Inbound.id) :
    ∃ i, (StoreCall.getInbound id).apply t = .ok (i, t) := by
  obtain ⟨i, hi⟩ := exists_lookup_of_mem h
  exact ⟨i, StoreCall.read_eq_ok.2 ⟨getInbound_eq_ok.2 hi, rfl⟩⟩

theorem clean_updateInbound (id : ID) (inp : InboundInput) (hw : w.tables = t) :
    RunsClean t (updateInbound id inp) w := by
  refine clean_read_bind rfl hw fun i o w₁ hrows hget hw₁ => ?_
  obtain rfl : i = o := hrows
  have hid : i.id = id := getInbound_id (StoreCall.read_eq_ok.1 hget).1
  split
  · exact clean_throw hw₁
  · refine clean_query_bind hw₁ fun _ _ w₂ _ happly => clean_of_accepted ?_
    obtain ⟨hmem, -, ht⟩ := updateInbound_eq_ok (StoreCall.wrote_eq_ok.1 happly)
    refine (silent_trigger _).bind fun w₃ hw₃ => ?_
    have hids : w₃.tables.inbounds.map Inbound.id = t.inbounds.map Inbound.id := by
      rw [hw₃, ht]
      exact map_updateWhere _ (persistInbound (inp.row i)) Inbound.id (fun _ _ => rfl) _
    have hmem₃ : id ∈ w₃.tables.inbounds.map Inbound.id := by
      rw [hids, ← hid]
      exact hmem
    obtain ⟨i', hi'⟩ := apply_getInbound hmem₃
    exact accepted_query hi'

end Nodes

end XrayApi.Service
