import XrayApi.Service.NodeOps
import XrayApi.Service.Plans
import XrayApi.Service.UserOps
import XrayApi.Transition.Branches

/-!
# What creation checks

A node has a name that is not blank and a port in range, a plan a name that is not blank and no
negative limit, a user one of the four statuses. `fine` says of a statement that the row it writes
is such a row, and `good` of an answer that the row it brings is. A creation checks its payload, so
all its statements are fine; an update writes what it is sent, so its statements are fine if the
payload is (`AdminOp.Sound`). From there the invariant rule for programs takes over:
`updates_keep_wellFormed`.
-/

set_option autoImplicit false

namespace XrayApi

open Transition Store Relational Service Worker

/-! ## Well-formed rows -/

/-- The values the lifecycle queries know. -/
def UserStatus.known : UserStatus → Bool
  | other _ => false
  | _ => true

structure Node.WellFormed (n : Node) : Prop where
  name : isBlank n.name = false
  port : 1 ≤ n.apiPort ∧ n.apiPort ≤ 65535

structure Plan.WellFormed (p : Plan) : Prop where
  name : isBlank p.name = false
  limit : ∀ x ∈ p.dataLimitBytes, 0 ≤ x
  duration : ∀ d ∈ p.durationDays, 0 ≤ d

structure Store.Tables.WellFormed (t : Tables) : Prop where
  nodes : ∀ n ∈ t.nodes, n.WellFormed
  plans : ∀ p ∈ t.plans, p.WellFormed
  users : ∀ u ∈ t.users, u.status.known = true

namespace Service

section Writes

variable {t t' : Tables}

theorem mem_updateWhere {α : Type} {I : α → Prop} {p : α → Bool} {f : α → α} {rows : List α}
    (h : ∀ r ∈ rows, I r) (hf : ∀ r, I r → I (f r)) : ∀ r ∈ updateWhere p f rows, I r := by
  intro r hr
  obtain ⟨s, hs, rfl⟩ := List.mem_map.1 hr
  split_ifs with hp
  · exact hf s (h s hs)
  · exact h s hs

theorem mem_append_one {α : Type} {I : α → Prop} {rows : List α} {a : α} (h : ∀ r ∈ rows, I r)
    (ha : I a) : ∀ r ∈ rows ++ [a], I r := by
  intro r hr
  obtain hr | hr := List.mem_append.1 hr
  · exact h r hr
  · rw [List.mem_singleton.1 hr]
    exact ha

theorem addAssignmentTx_wellFormed {userID inboundID : ID} (ht : t.WellFormed)
    (h : addAssignmentTx t userID inboundID = .ok t') : t'.WellFormed := by
  obtain ⟨-, rfl⟩ | ⟨-, -, -, rfl⟩ := addAssignmentTx_eq_ok h
  · exact ht
  · exact ⟨ht.nodes, ht.plans, ht.users⟩

theorem createWithAssignmentsTx_wellFormed {u : User} {ids : List ID} (ht : t.WellFormed)
    (hu : u.status.known = true)
    (h : createWithAssignmentsTx t u ids = .ok t') : t'.WellFormed := by
  unfold createWithAssignmentsTx at h
  cases hc : createUserTx t u with
  | error e => rw [hc] at h; cases h
  | ok t₁ =>
      rw [hc] at h
      have ht₁ : t₁.WellFormed := by
        obtain ⟨-, -, rfl⟩ := createUserTx_eq_ok hc
        exact ⟨ht.nodes, ht.plans, mem_append_one ht.users hu⟩
      exact foldlM_invariant (fun _ _ _ h₁ h₂ => addAssignmentTx_wellFormed h₁ h₂) ids ht₁ h

theorem setAssignmentsForUserTx_wellFormed {userID : ID} {ids : Slice ID} (ht : t.WellFormed)
    (h : setAssignmentsForUserTx t userID ids = .ok t') : t'.WellFormed := by
  have htomb : (tombstoneOthersTx t userID ids).WellFormed := ⟨ht.nodes, ht.plans, ht.users⟩
  exact foldlM_invariant (fun _ _ _ h₁ h₂ => addAssignmentTx_wellFormed h₁ h₂) ids.elems htomb h

theorem applyTrafficDeltas_wellFormed {nodeID : ID} {deltas : List TrafficDelta}
    {collectedAt : Time} {ids : List ID} (ht : t.WellFormed)
    (h : applyTrafficDeltas t nodeID deltas collectedAt = .ok (ids, t')) : t'.WellFormed := by
  obtain ⟨t₁, hloop, -, -, rfl⟩ := applyTrafficDeltas_inv h
  have hround : ∀ s d s', s.WellFormed → applyDeltaTx nodeID collectedAt s d = .ok s' →
      s'.WellFormed := by
    intro s d s' hs hd
    obtain ⟨-, -, rfl⟩ | ⟨-, -, -, -, rfl⟩ := applyDeltaTx_eq_ok hd
    · exact hs
    · exact ⟨hs.nodes, hs.plans, mem_updateWhere hs.users fun _ hr => hr⟩
  have ht₁ : t₁.WellFormed := foldlM_invariant hround deltas ht hloop
  exact ⟨ht₁.nodes, ht₁.plans, mem_updateWhere ht₁.users fun _ _ => rfl⟩

end Writes

/-! ## Statements and answers -/

/-- The statements of the operations below, where those that write a whole row or a status write a
well-formed one. -/
def fine : Stmt → Prop
  | .db (.createPlan p) => p.WellFormed
  | .db (.updatePlan p) => p.WellFormed
  | .db (.createNode n) => n.WellFormed
  | .db (.updateNode n) => n.WellFormed
  | .db (.createWithAssignmentsTx u _) => u.status.known = true
  | .db (.updateUser u) => u.status.known = true
  | .db (.setUserStatus _ status) => status.known = true
  | .db (.getUser _) => True
  | .db (.getPlan _) => True
  | .db (.getNode _) => True
  | .db (.deletePlan _) => True
  | .db (.deleteNode _) => True
  | .db (.setNodeHealth _ _ _ _) => True
  | .db (.listInboundsByIDs _) => True
  | .db (.resetTraffic _) => True
  | .db (.expireDueUsers _) => True
  | .db (.assignmentTargetsForUser _) => True
  | .db (.setAssignmentsForUserTx _ _) => True
  | .db (.applyTrafficDeltas _ _ _) => True
  | .db _ => False
  | _ => True

/-- A row that is read is well-formed. -/
def good : (s : Stmt) → s.Res → Prop
  | .db (.getUser _), .ok u => u.status.known = true
  | .db (.getPlan _), .ok p => p.WellFormed
  | .db (.getNode _), .ok n => n.WellFormed
  | _, _ => True

/-- A statement that is fine keeps the rows well-formed. -/
theorem apply_wellFormed {q : StoreCall} {t t' : Tables} {o : q.Out} (hq : fine (.db q))
    (ht : t.WellFormed) (h : q.apply t = .ok (o, t')) : t'.WellFormed := by
  cases q with
  | getUser id => exact (StoreCall.read_eq_ok.1 h).2 ▸ ht
  | getPlan id => exact (StoreCall.read_eq_ok.1 h).2 ▸ ht
  | getNode id => exact (StoreCall.read_eq_ok.1 h).2 ▸ ht
  | listInboundsByIDs ids => cases h; exact ht
  | assignmentTargetsForUser id => cases h; exact ht
  | createPlan p =>
      obtain ⟨-, -, rfl⟩ := createPlan_eq_ok (StoreCall.wrote_eq_ok.1 h)
      exact ⟨ht.nodes, mem_append_one ht.plans hq, ht.users⟩
  | updatePlan p =>
      obtain ⟨-, -, rfl⟩ := updatePlan_eq_ok (StoreCall.wrote_eq_ok.1 h)
      exact ⟨ht.nodes, mem_updateWhere ht.plans fun _ _ => hq, ht.users⟩
  | deletePlan id =>
      cases (requirePlan_eq_ok.1 (StoreCall.wrote_eq_ok.1 h)).2
      refine ⟨ht.nodes, fun p hp => ht.plans p (List.mem_filter.1 hp).1, fun u hu => ?_⟩
      obtain ⟨r, hr, rfl⟩ := List.mem_map.1 hu
      exact ht.users r hr
  | createNode n =>
      obtain ⟨-, -, rfl⟩ := createNode_eq_ok (StoreCall.wrote_eq_ok.1 h)
      exact ⟨mem_append_one ht.nodes ⟨hq.name, hq.port⟩, ht.plans, ht.users⟩
  | updateNode n =>
      obtain ⟨-, -, rfl⟩ := updateNode_eq_ok (StoreCall.wrote_eq_ok.1 h)
      exact ⟨mem_updateWhere ht.nodes fun _ _ => ⟨hq.name, hq.port⟩, ht.plans, ht.users⟩
  | deleteNode id =>
      cases (requireNode_eq_ok.1 (StoreCall.wrote_eq_ok.1 h)).2
      exact ⟨fun n hn => ht.nodes n (List.mem_filter.1 hn).1, ht.plans, ht.users⟩
  | setNodeHealth id status lastErr seenAt =>
      obtain ⟨-, rfl⟩ := setNodeHealth_eq_ok (StoreCall.wrote_eq_ok.1 h)
      exact ⟨mem_updateWhere ht.nodes fun _ hr => ⟨hr.name, hr.port⟩, ht.plans, ht.users⟩
  | createWithAssignmentsTx u ids =>
      exact createWithAssignmentsTx_wellFormed ht hq (StoreCall.wrote_eq_ok.1 h)
  | updateUser u =>
      obtain ⟨-, -, -, rfl⟩ := updateUser_eq_ok (StoreCall.wrote_eq_ok.1 h)
      exact ⟨ht.nodes, ht.plans, mem_updateWhere ht.users fun _ _ => hq⟩
  | setUserStatus id status =>
      cases (requireUser_eq_ok.1 (StoreCall.wrote_eq_ok.1 h)).2
      exact ⟨ht.nodes, ht.plans, mem_updateWhere ht.users fun _ _ => hq⟩
  | resetTraffic id =>
      cases (requireUser_eq_ok.1 (StoreCall.wrote_eq_ok.1 h)).2
      exact ⟨ht.nodes, ht.plans, mem_updateWhere ht.users fun _ hr => hr⟩
  | expireDueUsers now =>
      cases h
      exact ⟨ht.nodes, ht.plans, mem_updateWhere ht.users fun _ _ => rfl⟩
  | setAssignmentsForUserTx id ids =>
      exact setAssignmentsForUserTx_wellFormed ht (StoreCall.wrote_eq_ok.1 h)
  | applyTrafficDeltas n ds collectedAt => exact applyTrafficDeltas_wellFormed ht h
  | _ => exact hq.elim

theorem fine_keeps {s : Stmt} {r : s.Res} {w w' : World} (hw : w.tables.WellFormed) (hs : fine s)
    (h : MayFail s w r w') : w'.tables.WellFormed := by
  cases s with
  | db q =>
      obtain ⟨e, -, ht⟩ | ⟨a, o, -, -, hq⟩ := mayFail_db h
      · rw [ht]
        exact hw
      · exact apply_wellFormed hs hw hq
  | _ =>
      obtain h | ⟨rfl, -⟩ := mayFail_cases h
      · cases h
        exact hw
      · exact hw

/-- Well-formed rows are what is read. -/
theorem good_answer {s : Stmt} {r : s.Res} {w w' : World} (hw : w.tables.WellFormed)
    (h : MayFail s w r w') : good s r := by
  unfold good
  split
  · next id u =>
      exact hw.users u (mem_of_lookup (getUser_eq_ok.1 (mayFail_getUser h)))
  · next id p =>
      obtain ⟨o, hrows, hq⟩ := mayFail_db_ok h
      have hrows : p = o := hrows
      subst hrows
      exact hw.plans p (PlanService.getPlan_mem (StoreCall.read_eq_ok.1 hq).1)
  · next id n =>
      obtain ⟨o, hrows, hq⟩ := mayFail_db_ok h
      have hrows : n = o := hrows
      subst hrows
      exact hw.nodes n (NodeService.getNode_mem (StoreCall.read_eq_ok.1 hq).1)
  · trivial

/-! ## Programs -/

section Programs

variable {α β : Type}

/-- The request writes well-formed rows only, as long as it reads well-formed rows. -/
abbrev Tidy (p : Service α) (post : α → Prop) : Prop := Req.Within good fine post p

theorem tidy_throw {e : Err} {post : α → Prop} : Tidy (Req.throw e : Service α) post := nofun

theorem tidy_pure {a : α} {post : α → Prop} (h : post a) : Tidy (pure a : Service α) post := by
  intro b hb
  cases hb
  exact h

theorem tidy_query {q : StoreCall} {post : q.Out → Prop} (hq : fine (.db q))
    (h : ∀ o, good (.db q) (.ok o) → post o) : Tidy (query q) post := by
  refine ⟨hq, fun r hr o ho => ?_⟩
  cases r with
  | error e => cases ho
  | ok o' =>
      cases ho
      exact h o hr

/-- A query whose answer does not matter, and what follows it. -/
theorem tidy_query_bind {q : StoreCall} {f : q.Out → Service β} {post : β → Prop}
    (hq : fine (.db q)) (h : ∀ o, good (.db q) (.ok o) → Tidy (f o) post) :
    Tidy (query q >>= f) post :=
  Req.Within.bind (tidy_query hq h)

theorem tidy_of_forall {p : Service α} (h : Prog.Forall fine p) : Tidy p fun _ => True :=
  h.within fun _ _ _ => trivial

theorem tidy_dropped {p : Service α} (h : Tidy p fun _ => True) :
    Tidy (p >>= fun _ => pure ()) fun _ => True :=
  Req.Within.bind (Req.Within.mono (fun _ _ => tidy_pure trivial) h)

theorem forall_reconcileForUser (id : ID) : Prog.Forall fine (reconcileForUser id) :=
  reconcileForUser_forall trivial fun _ => trivial

/-- The triggers and the last read of an operation on a user. -/
theorem tidy_tail (id id' : ID) :
    Tidy (reconcileForUser id' >>= fun _ => query (.getUser id)) fun _ => True :=
  tidy_of_forall (Req.forall_bind (forall_reconcileForUser id') fun _ =>
    ⟨trivial, fun _ => trivial⟩)

/-- A write of a user, and the end of the operation. -/
theorem tidy_write {q : StoreCall} (hq : fine (.db q)) (id id' : ID) :
    Tidy (query q >>= fun _ => reconcileForUser id' >>= fun _ => query (.getUser id))
      fun _ => True :=
  tidy_query_bind hq fun _ _ => tidy_tail id id'

end Programs

/-! ## The operations -/

/-- An operation on nodes, on plans or on users, or a background write. -/
inductive AdminOp
  | node (op : NodeService.NodeOp)
  | plan (op : PlanService.PlanOp)
  | user (op : UserOp)

namespace AdminOp

def service (pem : Xray.PemParser) : AdminOp → Service Unit
  | node op => op.service pem
  | plan op => op.service
  | user op => op.service

/-- A name that is left out, or that creation would accept. -/
def SoundName (name : String) : Prop := name = "" ∨ isBlank name = false

/-- The payload of an update would pass the checks of a creation; the other operations check for
themselves. -/
def Sound : AdminOp → Prop
  | node (.update _ inp) => SoundName inp.name ∧
    (inp.apiPort = 0 ∨ (1 ≤ inp.apiPort ∧ inp.apiPort ≤ 65535))
  | plan (.update _ inp) => SoundName inp.name ∧ (∀ x ∈ inp.dataLimitBytes, 0 ≤ x) ∧
    ∀ d ∈ inp.durationDays, 0 ≤ d
  | user (.row _ (.update inp _)) => ∀ status ∈ inp.status, UserStatus.known status = true
  | _ => True

end AdminOp

section Operations

open AdminOp

theorem soundName_getD {name stored : String} (h : SoundName name)
    (hstored : isBlank stored = false) :
    isBlank (if name ≠ "" then name else stored) = false := by
  split_ifs with hname
  · exact h.resolve_left hname
  · exact hstored

theorem forall_announce (n : Node) (now : Time) :
    Prog.Forall fine (NodeService.announce n now) := by
  refine Req.forall_bind (Req.forall_bind ⟨trivial, fun r => ?_⟩ fun r => ?_) fun _ => ?_
  · cases r with
    | error e => trivial
    | ok u => exact ⟨trivial, fun _ => trivial⟩
  · cases r with
    | error e => trivial
    | ok u => trivial
  · refine Req.forall_bind ⟨trivial, fun _ => trivial⟩ fun _ => ?_
    exact Req.forall_bind ⟨trivial, fun _ => trivial⟩ fun _ => ⟨trivial, fun _ => trivial⟩

theorem tidy_node_create (pem : Xray.PemParser) (inp : NodeService.NodeInput) (id : ID)
    (now : Time) :
    Tidy (NodeService.create pem inp id now) fun _ => True := by
  unfold NodeService.create
  split_ifs with hname haddress hport
  · exact tidy_throw
  · exact tidy_throw
  · exact tidy_throw
  · cases hm : inp.applyTLSMaterial pem (inp.newNode id) with
    | error e => exact tidy_throw
    | ok n =>
        obtain ⟨rfl, -⟩ := NodeService.applyTLSMaterial_eq_ok.1 hm
        refine tidy_query_bind ⟨Bool.eq_false_iff.2 hname, ?_⟩ fun _ _ =>
          tidy_of_forall (forall_announce _ now)
        change 1 ≤ inp.apiPort ∧ inp.apiPort ≤ 65535
        omega

theorem tidy_node_update (pem : Xray.PemParser) {id : ID} {inp : NodeService.NodeInput}
    (h : Sound (.node (.update id inp))) :
    Tidy (NodeService.update pem id inp) fun _ => True := by
  refine tidy_query_bind trivial fun n hn => ?_
  cases hm : inp.applyTLSMaterial pem (inp.patch n) with
  | error e => exact tidy_throw
  | ok n' =>
      obtain ⟨rfl, -⟩ := NodeService.applyTLSMaterial_eq_ok.1 hm
      have hn : n.WellFormed := hn
      refine tidy_query_bind ⟨soundName_getD h.1 hn.name, ?_⟩ fun _ _ => ?_
      · change 1 ≤ (if inp.apiPort ≠ 0 then inp.apiPort else n.apiPort) ∧
          (if inp.apiPort ≠ 0 then inp.apiPort else n.apiPort) ≤ 65535
        split_ifs with hport
        · exact h.2.resolve_left hport
        · exact hn.port
      · exact tidy_of_forall (Req.forall_bind ⟨trivial, fun _ => trivial⟩ fun _ =>
          ⟨trivial, fun _ => trivial⟩)

theorem tidy_plan_create (inp : PlanService.PlanInput) (id : ID) :
    Tidy (PlanService.create inp id) fun _ => True := by
  unfold PlanService.create
  split_ifs with hname hlimit hdays
  · exact tidy_throw
  · exact tidy_throw
  · exact tidy_throw
  · refine tidy_query_bind ⟨Bool.eq_false_iff.2 hname, fun x hx => ?_, fun d hd => ?_⟩ fun _ _ =>
      tidy_query trivial fun _ _ => trivial
    · exact Int64.not_lt.1 fun hneg => hlimit ⟨x, hx, hneg⟩
    · exact Int.not_lt.1 fun hneg => hdays ⟨d, hd, hneg⟩

theorem tidy_plan_update {id : ID} {inp : PlanService.PlanInput}
    (h : Sound (.plan (.update id inp))) :
    Tidy (PlanService.update id inp) fun _ => True :=
  tidy_query_bind trivial fun _ hp => tidy_query_bind
    ⟨soundName_getD h.1 (Plan.WellFormed.name hp), h.2.1, h.2.2⟩ fun _ _ =>
      tidy_query trivial fun _ _ => trivial

/-- A reactivation writes a known status. -/
theorem known_patch {inp : UpdateInput} {now : Time} {u : User}
    (h : ∀ status ∈ inp.status, UserStatus.known status = true) (hu : u.status.known = true) :
    (inp.patch now u).status.known = true := by
  have hfields : (inp.fields u).status.known = true := by
    change (inp.status.getD u.status).known = true
    cases hs : inp.status with
    | none => exact hu
    | some status => exact h status hs
  unfold UpdateInput.patch
  split_ifs with hc
  · rfl
  · exact hfields

theorem tidy_user_create (inp : CreateInput) (fresh : Fresh) (now : Time) :
    Tidy (Service.create inp fresh now) fun _ => True := by
  unfold Service.create
  split_ifs with hemail hids
  · exact tidy_throw
  · exact tidy_throw
  · have hlimits : Tidy (snapshotLimits inp now) fun _ => True := by
      unfold snapshotLimits
      cases inp.planID with
      | none => exact tidy_pure trivial
      | some planID => exact tidy_query_bind trivial fun _ _ => tidy_pure trivial
    refine Req.Within.bind (Req.Within.mono (fun limits _ => ?_) hlimits)
    refine tidy_query_bind trivial fun inbounds _ => ?_
    split_ifs with hlen
    · exact tidy_throw
    · exact tidy_write
        (q := .createWithAssignmentsTx (newUser inp fresh limits.1 limits.2) _) rfl _ _

theorem tidy_setInbounds (id : ID) (ids : Slice ID) :
    Tidy (Service.setInbounds id ids) fun _ => True := by
  refine tidy_query_bind trivial fun _ _ => tidy_query_bind trivial fun inbounds _ => ?_
  split_ifs with hlen
  · exact tidy_throw
  · refine tidy_of_forall (Req.forall_bind ⟨trivial, fun _ => trivial⟩ fun targets => ?_)
    refine Req.forall_bind ⟨trivial, fun _ => trivial⟩ fun _ => ?_
    exact Req.forall_bind (triggerAll_forall (fun _ => trivial) _) fun _ =>
      ⟨trivial, fun _ => trivial⟩

theorem tidy_resume (id : ID) (now : Time) : Tidy (Service.resume id now) fun _ => True := by
  refine tidy_query_bind trivial fun u _ => ?_
  split_ifs with hquota hexpired
  · exact tidy_throw
  · exact tidy_throw
  · exact tidy_write (q := .setUserStatus id .active) rfl id id

theorem tidy_resetTraffic (id : ID) (now : Time) :
    Tidy (Service.resetTraffic id now) fun _ => True := by
  refine tidy_query_bind trivial fun u _ => tidy_query_bind trivial fun _ _ => ?_
  have hreactivate : Tidy (reactivateSuspended id u now) fun _ => True := by
    unfold reactivateSuspended
    split_ifs with hc
    · exact tidy_query rfl fun _ _ => trivial
    · exact tidy_pure trivial
  exact Req.Within.bind (Req.Within.mono (fun _ _ => tidy_tail id id) hreactivate)

theorem tidy_renew (id : ID) (inp : RenewInput) (now now' : Time) :
    Tidy (Service.renew id inp now now') fun _ => True := by
  unfold Service.renew
  split_ifs with hempty
  · exact tidy_throw
  · refine tidy_query_bind trivial fun u hu => ?_
    have hplan : Tidy (switchPlan inp u) fun v => v.status.known = true := by
      unfold switchPlan
      cases inp.planID with
      | none => exact tidy_pure hu
      | some planID => exact tidy_query_bind trivial fun _ _ => tidy_pure hu
    refine Req.Within.bind (Req.Within.mono (fun v hv => ?_) hplan)
    have hextend : (extendExpiry inp now v).status.known = true := by
      unfold extendExpiry
      split_ifs with hdays
      · exact hv
      · exact hv
    have hreset : Tidy (resetUsage id inp (extendExpiry inp now v)) fun x =>
        x.status.known = true := by
      unfold resetUsage
      split_ifs with hr
      · exact tidy_query_bind trivial fun _ _ => tidy_pure hextend
      · exact tidy_pure hextend
    refine Req.Within.bind (Req.Within.mono (fun x hx => ?_) hreset)
    refine tidy_write ?_ _ _
    change (reactivate now' x).status.known = true
    unfold reactivate
    split_ifs with hc
    · rfl
    · exact hx

theorem forall_reconcileEach (ids : List ID) : Prog.Forall fine (reconcileEach ids) :=
  reconcileEach_forall (fun _ => trivial) (fun _ => trivial) ids

theorem tidy_row (id : ID) (x : RowOp) (h : Sound (.user (.row id x))) :
    Tidy (x.service id) fun _ => True := by
  cases x with
  | update inp now =>
      refine tidy_dropped (tidy_query_bind trivial fun u hu => ?_)
      exact tidy_write (q := .updateUser (inp.patch now u)) (known_patch h hu) _ _
  | rotateSubToken token =>
      refine tidy_dropped (tidy_query_bind trivial fun u hu => ?_)
      exact tidy_query_bind hu fun _ _ => tidy_query trivial fun _ _ => trivial
  | resetTraffic now => exact tidy_dropped (tidy_resetTraffic id now)
  | suspend => exact tidy_dropped (tidy_write (q := .setUserStatus id .disabled) rfl id id)
  | expireDueUsers now =>
      exact tidy_query_bind trivial fun ids _ => tidy_of_forall (forall_reconcileEach ids)
  | applyTrafficDeltas n ds collectedAt =>
      exact tidy_query_bind trivial fun ids _ => tidy_of_forall (forall_reconcileEach ids)

/-- An operation with a sound payload writes well-formed rows only. -/
theorem tidy_service (pem : Xray.PemParser) (op : AdminOp) (h : op.Sound) :
    Tidy (op.service pem) fun _ => True := by
  cases op with
  | node op =>
      cases op with
      | create inp id now => exact tidy_dropped (tidy_node_create pem inp id now)
      | update id inp => exact tidy_dropped (tidy_node_update pem h)
      | delete id =>
          exact tidy_of_forall (Req.forall_bind ⟨trivial, fun _ => trivial⟩ fun _ =>
            ⟨trivial, fun _ => trivial⟩)
      | setHealth id status lastErr seenAt => exact tidy_query trivial fun _ _ => trivial
  | plan op =>
      cases op with
      | create inp id => exact tidy_dropped (tidy_plan_create inp id)
      | update id inp => exact tidy_dropped (tidy_plan_update h)
      | delete id => exact tidy_query trivial fun _ _ => trivial
  | user op =>
      cases op with
      | create inp fresh now => exact tidy_dropped (tidy_user_create inp fresh now)
      | row id x => exact tidy_row id x h
      | setInbounds id ids => exact tidy_dropped (tidy_setInbounds id ids)
      | resume id now => exact tidy_dropped (tidy_resume id now)
      | renew id inp now now' => exact tidy_dropped (tidy_renew id inp now now')

end Operations

/-! ## Runs -/

/-- The operations in flight, one per thread. -/
abbrev Office : Type := Pool Nat Stmt Stmt.Res World (Except Err Unit)

/-- An empty database and nothing in flight. -/
def Office.opened : Office where
  world := .still ⟨.empty, Tables.empty_valid⟩
  prog _ := Prog.ret (.ok ())

/-- A thread may start any operation that is `allowed`. -/
def Office.serving (pem : Xray.PemParser) (allowed : AdminOp → Prop) (_ : Nat) (p : Job) : Prop :=
  ∃ op, allowed op ∧ p = (op.service pem).prog

/-- In every state reached from the empty database by operations with sound payloads, interleaved in
any way and with any statement allowed to fail, all rows are well-formed. -/
theorem updates_keep_wellFormed (pem : Xray.PemParser)
    {ls : List (Act Nat Stmt Stmt.Res (Except Err Unit))} {P : Office}
    (hrun : Path (Pool.Step MayFail (Office.serving pem AdminOp.Sound)) Office.opened ls P) :
    P.world.tables.WellFormed := by
  have hspawn : ∀ (i : Nat) (p : Job), Office.serving pem AdminOp.Sound i p →
      p.Within good fine fun _ => True := by
    rintro i p ⟨op, hop, rfl⟩
    exact Prog.Within.mono (fun _ _ => trivial) (tidy_service pem op hop)
  have hempty : Office.opened.world.tables.WellFormed :=
    ⟨fun _ h => (List.not_mem_nil h).elim, fun _ h => (List.not_mem_nil h).elim,
      fun _ h => (List.not_mem_nil h).elim⟩
  have hgood : ∀ (s : Stmt) (w : World) (r : s.Res) (w' : World), w.tables.WellFormed →
      MayFail s w r w' → good s r := fun _ _ _ _ hw h => good_answer hw h
  have hfine : ∀ (s : Stmt) (w : World) (r : s.Res) (w' : World), w.tables.WellFormed → fine s →
      MayFail s w r w' → w'.tables.WellFormed := fun _ _ _ _ hw hs h => fine_keeps hw hs h
  exact (Pool.within_invariant hgood hfine hspawn hrun hempty fun _ => trivial).1

/-! ## Updates that are not checked -/

/-- A payload for a node with this name and port. -/
def nodePayload (name : String) (port : Int) : NodeService.NodeInput :=
  ⟨name, "10.0.0.1", port, false, "", false, none, none, none⟩

/-- A parser that is not asked. -/
def anyPem : Xray.PemParser := ⟨fun _ => true, fun _ _ => .ok ()⟩

/-- One operation after the other, each to its end. -/
def sequentially (ops : List AdminOp) : List (Pool.Move Nat Stmt Stmt.Res (Except Err Unit)) :=
  ops.flatMap fun op => .start 0 (op.service anyPem).prog :: List.replicate 6 (.fire 0)

theorem serving_sequentially {allowed : AdminOp → Prop} (ops : List AdminOp)
    (h : ∀ op ∈ ops, allowed op) :
    Pool.Allowed (Office.serving anyPem allowed) (sequentially ops) := by
  intro i p hp
  obtain ⟨op, hop, hp⟩ := List.mem_flatMap.1 hp
  obtain hp | hp := List.mem_cons.1 hp
  · cases hp
    exact ⟨op, h op hop, rfl⟩
  · cases List.eq_of_mem_replicate hp

/-- A node and a plan are created and changed, with payloads that creation would accept. -/
def soundOps : List AdminOp :=
  [.node (.create (nodePayload "n" 10085) "n" 0), .node (.update "n" (nodePayload "m" 443)),
    .plan (.create ⟨"basic", some 5, none⟩ "p"), .plan (.update "p" ⟨"", some 6, some 30⟩)]

theorem updates_keep_wellFormed_sound :
    (Pool.play exec (sequentially soundOps) Office.opened).2.world.tables.plans =
        [⟨"p", "basic", some 6, some 30⟩] ∧
      (Pool.play exec (sequentially soundOps) Office.opened).2.world.tables.WellFormed := by
  have hsound : ∀ op ∈ soundOps, AdminOp.Sound op := by
    simp [soundOps, AdminOp.Sound, AdminOp.SoundName, nodePayload, isBlank]
    decide
  exact ⟨rfl, updates_keep_wellFormed anyPem
    (Pool.play_path_of_exec mayFail_exec (serving_sequentially soundOps hsound) Office.opened)⟩

/-- The node gets a port that no creation would accept, the plan a blank name and a negative limit.
-/
def uncheckedOps : List AdminOp :=
  [.node (.create (nodePayload "n" 10085) "n" 0), .node (.update "n" (nodePayload "" 70000)),
    .plan (.create ⟨"basic", some 5, none⟩ "p"), .plan (.update "p" ⟨" ", some (-6), none⟩)]

/-- Both updates succeed and store rows that no creation would store. -/
theorem unchecked_update_stored :
    ∃ ls P, Path (Pool.Step MayFail (Office.serving anyPem fun _ => True)) Office.opened ls P ∧
      P.world.tables.nodes.map (fun n => (n.name, n.apiPort)) = [("n", 70000)] ∧
      P.world.tables.plans = [⟨"p", " ", some (-6), none⟩] ∧ ¬ P.world.tables.WellFormed := by
  refine ⟨_, _, Pool.play_path_of_exec mayFail_exec
    (serving_sequentially uncheckedOps fun _ _ => trivial) Office.opened, rfl, rfl, fun h => ?_⟩
  have hname := (h.plans ⟨"p", " ", some (-6), none⟩ List.mem_cons_self).name
  revert hname
  decide

end Service

end XrayApi
