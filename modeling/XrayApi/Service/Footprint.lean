import XrayApi.Service.Billing
import XrayApi.Service.Admin
import XrayApi.Service.Subscriptions
import XrayApi.System.Parts
import XrayApi.Worker.Manager

/-!
# What the services can change

The footprint of a program is a list of parts of the state that has all the parts its statements can
change, whatever they are answered. Each operation of the services and each round of the workers has
its own.
-/

set_option autoImplicit false

namespace XrayApi

open Transition Store

/-- The statement changes parts of the list only. -/
def Stmt.within (parts : List Part) (s : Stmt) : Bool := s.changes.all parts.contains

/-- So do all statements of the operation. -/
abbrev Footprint {α : Type} (parts : List Part) (p : Service α) : Prop :=
  Prog.Forall (fun s => s.within parts = true) p

section Rules

variable {α β : Type} {parts : List Part}

theorem Footprint.mono {parts' : List Part} (hparts : parts ⊆ parts') {p : Service α}
    (hp : Footprint parts p) : Footprint parts' p := by
  refine Prog.Forall.mono (fun s hs => ?_) hp
  refine List.all_eq_true.2 fun part hpart => ?_
  have hmem := List.contains_iff_mem.1 (List.all_eq_true.1 hs part hpart)
  exact List.contains_iff_mem.2 (hparts hmem)

theorem footprint_query {q : StoreCall} (hq : (Stmt.db q).within parts = true) :
    Footprint parts (query q) :=
  ⟨hq, fun _ => trivial⟩

theorem footprint_attempt {q : StoreCall} (hq : (Stmt.db q).within parts = true) :
    Footprint parts (attempt q) :=
  ⟨hq, fun _ => trivial⟩

/-- A call and what follows it. -/
theorem footprint_query_bind {q : StoreCall} (hq : (Stmt.db q).within parts = true)
    {f : q.Out → Service β} (hf : ∀ o, Footprint parts (f o)) : Footprint parts (query q >>= f) :=
  Req.forall_bind (footprint_query hq) hf

end Rules

/-! ## Users -/

namespace Service

theorem footprint_reconcileForUser (id : ID) : Footprint [.reconcileCh] (reconcileForUser id) :=
  reconcileForUser_forall rfl fun _ => rfl

/-- The triggers and the last read of an operation on a user. -/
theorem footprint_tail (id id' : ID) :
    Footprint [.reconcileCh] (reconcileForUser id' >>= fun _ => query (.getUser id)) :=
  Req.forall_bind (footprint_reconcileForUser id') fun _ => footprint_query rfl

theorem footprint_create (inp : CreateInput) (fresh : Fresh) (now : Time) :
    Footprint [.users, .userInbounds, .reconcileCh] (create inp fresh now) := by
  unfold create
  split_ifs with hemail hids
  · trivial
  · trivial
  · have hlimits : Footprint [.users, .userInbounds, .reconcileCh] (snapshotLimits inp now) := by
      unfold snapshotLimits
      cases inp.planID with
      | none => trivial
      | some planID => exact footprint_query_bind rfl fun _ => trivial
    refine Req.forall_bind hlimits fun limits => footprint_query_bind rfl fun inbounds => ?_
    split_ifs with hlen
    · trivial
    · exact footprint_query_bind rfl fun _ => (footprint_tail _ _).mono (by decide)

theorem footprint_update (id : ID) (inp : UpdateInput) (now : Time) :
    Footprint [.users, .reconcileCh] (update id inp now) :=
  footprint_query_bind rfl fun _ => footprint_query_bind rfl fun _ =>
    (footprint_tail _ _).mono (by decide)

theorem footprint_setInbounds (id : ID) (ids : Slice ID) :
    Footprint [.userInbounds, .reconcileCh] (setInbounds id ids) := by
  refine footprint_query_bind rfl fun _ => footprint_query_bind rfl fun inbounds => ?_
  split_ifs with hlen
  · trivial
  · refine Req.forall_bind (footprint_attempt rfl) fun _ => footprint_query_bind rfl fun _ => ?_
    exact Req.forall_bind (triggerAll_forall (fun _ => rfl) _) fun _ => footprint_query rfl

theorem footprint_setStatusAndReconcile (id : ID) (status : UserStatus) :
    Footprint [.users, .reconcileCh] (setStatusAndReconcile id status) :=
  footprint_query_bind rfl fun _ => (footprint_tail _ _).mono (by decide)

theorem footprint_resume (id : ID) (now : Time) :
    Footprint [.users, .reconcileCh] (resume id now) := by
  refine footprint_query_bind rfl fun u => ?_
  split_ifs with hquota hexpired
  · trivial
  · trivial
  · exact footprint_setStatusAndReconcile id .active

theorem footprint_resetTraffic (id : ID) (now : Time) :
    Footprint [.users, .reconcileCh] (resetTraffic id now) := by
  refine footprint_query_bind rfl fun u => footprint_query_bind rfl fun _ => ?_
  refine Req.forall_bind ?_ fun _ => (footprint_tail id id).mono (by decide)
  unfold reactivateSuspended
  split_ifs with hc
  · exact footprint_query rfl
  · trivial

theorem footprint_renew (id : ID) (inp : RenewInput) (now now' : Time) :
    Footprint [.users, .reconcileCh] (renew id inp now now') := by
  unfold renew
  split_ifs with hempty
  · trivial
  · refine footprint_query_bind rfl fun u => Req.forall_bind ?_ fun v => Req.forall_bind ?_ fun x =>
      footprint_query_bind rfl fun _ => (footprint_tail _ _).mono (by decide)
    · unfold switchPlan
      cases inp.planID with
      | none => trivial
      | some planID => exact footprint_query_bind rfl fun _ => trivial
    · unfold resetUsage
      split_ifs with hreset
      · exact footprint_query_bind rfl fun _ => trivial
      · trivial

theorem footprint_rotateSubToken (id : ID) (token : String) :
    Footprint [.users] (rotateSubToken id token) :=
  footprint_query_bind rfl fun _ => footprint_query_bind rfl fun _ => footprint_query rfl

theorem footprint_delete (id : ID) :
    Footprint [.users, .userInbounds, .trafficSnapshots, .reconcileCh] (delete id) :=
  footprint_query_bind rfl fun _ => footprint_query_bind rfl fun _ =>
    Req.forall_bind (triggerAll_forall (fun _ => rfl) _) fun _ => footprint_query rfl

theorem footprint_subscriptionByToken (token : String) :
    Footprint [] (subscriptionByToken token) :=
  footprint_query_bind rfl fun _ => footprint_query_bind rfl fun _ => trivial

/-! ## Billing -/

theorem footprint_resolveUser (ev : BillingEvent) : Footprint [] (resolveUser ev) := by
  have hor : ∀ (field value : String) (r : Except StoreErr User),
      Footprint [] (orUserWith field value r) := by
    intro field value r
    cases r with
    | error e => trivial
    | ok u => trivial
  unfold resolveUser
  split_ifs with hext hemail
  · exact Req.forall_bind (footprint_attempt rfl) fun r => hor _ _ r
  · exact Req.forall_bind (footprint_attempt rfl) fun r => hor _ _ r
  · trivial

theorem footprint_provision (ev : BillingEvent) (d : Delivery) :
    Footprint [.users, .userInbounds, .reconcileCh] (provision ev d) := by
  unfold provision
  cases ev.provision with
  | none => trivial
  | some p =>
      dsimp only
      split_ifs with hext
      · trivial
      · refine Req.forall_bind (footprint_attempt rfl) fun r => ?_
        unfold orCreate
        split
        · trivial
        · exact footprint_create _ _ _
        · trivial

theorem footprint_renewEvent (ev : BillingEvent) (d : Delivery) :
    Footprint [.users, .reconcileCh] (renewEvent ev d) := by
  unfold renewEvent
  cases ev.renew with
  | none => trivial
  | some p =>
      exact Req.forall_bind ((footprint_resolveUser ev).mono (by decide)) fun _ =>
        footprint_renew _ _ _ _

theorem footprint_withUser (ev : BillingEvent) {parts : List Part} {fn : ID → Service User}
    (hfn : ∀ id, Footprint parts (fn id)) : Footprint parts (withUser ev fn) :=
  Req.forall_bind ((footprint_resolveUser ev).mono (List.nil_subset _)) fun u => hfn u.id

theorem footprint_dispatch (action : Action) (ev : BillingEvent) (d : Delivery) :
    Footprint [.users, .userInbounds, .reconcileCh] (dispatch action ev d) := by
  cases action with
  | provision => exact Req.forall_bind (footprint_provision ev d) fun _ => trivial
  | renew =>
      exact Req.forall_bind ((footprint_renewEvent ev d).mono (by decide)) fun _ => trivial
  | suspend =>
      refine Req.forall_bind ?_ fun _ => trivial
      exact (footprint_withUser ev fun id => footprint_setStatusAndReconcile id .disabled).mono
        (by decide)
  | resume =>
      refine Req.forall_bind ?_ fun _ => trivial
      exact (footprint_withUser ev fun id => footprint_resume id d.now).mono (by decide)
  | cancel =>
      refine Req.forall_bind (Req.forall_bind ?_ fun u => ?_) fun _ => trivial
      · exact (footprint_resolveUser ev).mono (by decide)
      · exact Req.forall_bind ((footprint_setStatusAndReconcile u.id .disabled).mono (by decide))
          fun _ => trivial

theorem footprint_process (decoded : Except String BillingEvent) (d : Delivery) :
    Footprint [.webhookEvents, .users, .userInbounds, .reconcileCh] (process decoded d) := by
  unfold process
  cases decoded with
  | error text => trivial
  | ok ev =>
      dsimp only
      split_ifs with hid
      · trivial
      · split
        · trivial
        · next action haction =>
            refine footprint_query_bind rfl fun fresh => ?_
            cases fresh with
            | true =>
                exact Req.forall_bind ((footprint_dispatch action ev d).mono (by decide))
                  fun _ => trivial
            | false => trivial

/-! ## Inbounds -/

theorem footprint_updateInbound (id : ID) (inp : InboundInput) :
    Footprint [.inbounds, .reconcileCh] (updateInbound id inp) := by
  refine footprint_query_bind rfl fun existing => ?_
  cases inp.validate with
  | error e => trivial
  | ok _ =>
      exact footprint_query_bind rfl fun _ =>
        Req.forall_bind ⟨rfl, fun _ => trivial⟩ fun _ => footprint_query rfl

end Service

/-! ## Nodes and plans -/

namespace NodeService

theorem footprint_ping (n : ID) : Footprint [] (Worker.ping n) := by
  refine ⟨rfl, fun r => ?_⟩
  cases r with
  | error e => trivial
  | ok u => exact ⟨rfl, fun _ => trivial⟩

theorem footprint_announce (n : Node) (now : Time) :
    Footprint [.nodes, .reconcileCh] (announce n now) := by
  refine Req.forall_bind (Req.forall_bind ((footprint_ping n.id).mono (by decide)) fun r => ?_)
    fun _ => ?_
  · cases r with
    | error e => trivial
    | ok u => trivial
  · refine Req.forall_bind (footprint_attempt rfl) fun _ => ?_
    exact Req.forall_bind ⟨rfl, fun _ => trivial⟩ fun _ => footprint_query rfl

theorem footprint_create (pem : Xray.PemParser) (inp : NodeInput) (id : ID) (now : Time) :
    Footprint [.nodes, .reconcileCh] (create pem inp id now) := by
  unfold create
  split_ifs with hname haddress hport
  · trivial
  · trivial
  · trivial
  · cases inp.applyTLSMaterial pem (inp.newNode id) with
    | error e => trivial
    | ok n => exact footprint_query_bind rfl fun _ => footprint_announce n now

theorem footprint_update (pem : Xray.PemParser) (id : ID) (inp : NodeInput) :
    Footprint [.nodes, .reconcileCh] (update pem id inp) := by
  refine footprint_query_bind rfl fun n => ?_
  cases inp.applyTLSMaterial pem (inp.patch n) with
  | error e => trivial
  | ok n' =>
      exact footprint_query_bind rfl fun _ =>
        Req.forall_bind ⟨rfl, fun _ => trivial⟩ fun _ => footprint_query rfl

theorem footprint_delete (id : ID) :
    Footprint [.nodes, .inbounds, .userInbounds, .trafficSnapshots, .reconcileCh] (delete id) :=
  Req.forall_bind ⟨rfl, fun _ => trivial⟩ fun _ => footprint_query rfl

theorem footprint_reconcile (id : ID) : Footprint [.reconcileCh] (reconcile id) :=
  footprint_query_bind rfl fun _ => ⟨rfl, fun _ => trivial⟩

theorem footprint_start : Footprint [.reconcileCh] start := by
  have hall : ∀ nodes : List Node, Footprint [.reconcileCh] (startAll nodes) := by
    intro nodes
    induction nodes with
    | nil => trivial
    | cons n rest ih =>
        unfold startAll
        split_ifs with hstatus
        · exact Req.forall_bind ⟨rfl, fun _ => trivial⟩ fun _ => ih
        · exact ih
  exact footprint_query_bind rfl fun nodes => hall nodes

end NodeService

namespace PlanService

theorem footprint_create (inp : PlanInput) (id : ID) : Footprint [.plans] (create inp id) := by
  unfold create
  split_ifs with hname hlimit hdays
  · trivial
  · trivial
  · trivial
  · exact footprint_query_bind rfl fun _ => footprint_query rfl

theorem footprint_update (id : ID) (inp : PlanInput) : Footprint [.plans] (update id inp) :=
  footprint_query_bind rfl fun _ => footprint_query_bind rfl fun _ => footprint_query rfl

end PlanService

/-! ## Workers -/

namespace Worker

theorem footprint_removeAll (n : ID) (ds : List DesiredAssignment) :
    Footprint [.userInbounds, .accounts] (removeAll n ds) := by
  induction ds with
  | nil => trivial
  | cons d rest ih =>
      refine Req.forall_bind ⟨rfl, fun _ => trivial⟩ fun _ => Req.forall_bind ?_ fun _ => ih
      unfold dropTombstone
      split_ifs with hstatus
      · exact Req.forall_bind (footprint_attempt rfl) fun _ => trivial
      · trivial

theorem footprint_addAll (n : ID) (ds : List DesiredAssignment) :
    Footprint [.userInbounds, .accounts] (addAll n ds) := by
  induction ds with
  | nil => trivial
  | cons d rest ih =>
      refine Req.forall_bind ⟨rfl, fun _ => trivial⟩ fun r => ?_
      cases r with
      | error e => exact Req.forall_bind (footprint_attempt rfl) fun _ => trivial
      | ok u =>
          refine Req.forall_bind ?_ fun _ => ih
          unfold markApplied
          split_ifs with hstatus
          · exact Req.forall_bind (footprint_attempt rfl) fun _ => trivial
          · trivial

theorem footprint_reconcile (n : ID) : Footprint [.userInbounds, .accounts] (reconcile n) :=
  Req.forall_bind ⟨rfl, fun _ => trivial⟩ fun _ => footprint_query_bind rfl fun removals =>
    Req.forall_bind (footprint_removeAll n removals) fun _ =>
      footprint_query_bind rfl fun desired => footprint_addAll n desired

theorem footprint_runPass (n : ID) : Footprint [.userInbounds, .accounts] (runPass n) :=
  Prog.Forall.bind (footprint_reconcile n) fun _ => trivial

theorem footprint_setHealth (a : NodeActor) (status : NodeStatus) (errMsg : String)
    (seen : Option Time) : Footprint [.nodes] (setHealth a status errMsg seen) :=
  Req.forall_bind (footprint_attempt rfl) fun _ => trivial

theorem footprint_checkHealth (a : NodeActor) (now : Time) :
    Footprint [.nodes, .userInbounds, .accounts] (checkHealth a now) := by
  refine Req.forall_bind ((NodeService.footprint_ping _).mono (by decide)) fun r => ?_
  cases r with
  | error e =>
      dsimp only
      unfold probeFailed
      split_ifs with hoffline hfew
      · exact (footprint_setHealth _ _ _ _).mono (by decide)
      · exact (footprint_setHealth _ _ _ _).mono (by decide)
      · trivial
  | ok uptime =>
      refine Req.forall_bind ((footprint_setHealth _ _ _ _).mono (by decide)) fun b => ?_
      split_ifs with hreconciles
      · exact Req.forall_bind ((footprint_runPass b.node.id).mono (by decide)) fun _ => trivial
      · trivial

theorem footprint_collect (n : ID) (c : Cycle) (p : PendingDeltas) :
    Footprint [.users, .trafficSnapshots, .traffic, .reconcileCh] (collect n c p) := by
  refine Req.forall_bind ⟨rfl, fun _ => trivial⟩ fun r => ?_
  cases r with
  | error e => trivial
  | ok u =>
      refine Req.forall_bind ⟨rfl, fun _ => trivial⟩ fun r => ?_
      cases r with
      | error e => trivial
      | ok traffic =>
          dsimp only
          unfold resolve
          split_ifs with hempty
          · trivial
          · refine Req.forall_bind (footprint_attempt rfl) fun r => ?_
            cases r with
            | error e => trivial
            | ok idByEmail =>
                refine Req.forall_bind (footprint_attempt rfl) fun r => ?_
                cases r with
                | error e => trivial
                | ok overQuota =>
                    exact Req.forall_bind (reconcileEach_forall (fun _ => rfl) (fun _ => rfl) _)
                      fun _ => trivial

theorem footprint_sweepExpired (now : Time) :
    Footprint [.users, .reconcileCh] (sweepExpired now) :=
  footprint_query_bind rfl fun ids =>
    reconcileEach_forall (fun _ => rfl) (fun _ => rfl) ids

/-- The parts that a round of a node actor can change. -/
def Round.changes : Round → List Part
  | checkHealth _ => [.nodes, .userInbounds, .accounts]
  | collect _ => [.users, .trafficSnapshots, .traffic, .reconcileCh]
  | reconcile => [.userInbounds, .accounts]
  | triggered => [.userInbounds, .accounts]

theorem footprint_round (a : ActorState) (rd : Round) :
    (rd.prog a).Forall fun s => s.within rd.changes = true := by
  cases rd with
  | checkHealth now =>
      refine Prog.Forall.bind (footprint_checkHealth a.health now) fun r => ?_
      cases r with
      | error e => trivial
      | ok health => trivial
  | collect c =>
      refine Prog.Forall.bind (footprint_collect _ c _) fun r => ?_
      cases r with
      | error e => trivial
      | ok p => trivial
  | reconcile => exact Prog.Forall.bind (footprint_runPass _) fun _ => trivial
  | triggered => exact Prog.Forall.bind (footprint_runPass _) fun _ => trivial

end Worker

end XrayApi
