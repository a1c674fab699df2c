import XrayApi.Http.Authority
import XrayApi.Service.Footprint

/-!
# What a request can change

Every route says which parts of the state its requests can change, and so do the jobs of the
workers. A request to read something says none: the list of a `GET` route is empty. These lists are
complete: a part that none of the programs started in a run lists is at the end of the run what it
was at the start (`untouched`), however the server has interleaved them and whatever their
statements were answered. So the requests of the admin API never change an account on a node: they
leave that to the actor of the node, which they wake.
-/

set_option autoImplicit false

namespace XrayApi.HttpApi

open Transition Store

/-- The parts that a request to the admin API can change. -/
def AdminRoute.changes : AdminRoute → List Part
  | .createNode _ => [.nodes, .reconcileCh]
  | .updateNode _ _ => [.nodes, .reconcileCh]
  | .deleteNode _ => [.nodes, .inbounds, .userInbounds, .trafficSnapshots, .reconcileCh]
  | .reconcileNode _ => [.reconcileCh]
  | .createInbound _ _ => [.inbounds]
  | .updateInbound _ _ => [.inbounds, .reconcileCh]
  | .deleteInbound _ => [.inbounds, .userInbounds]
  | .createPlan _ => [.plans]
  | .updatePlan _ _ => [.plans]
  | .deletePlan _ => [.plans, .users]
  | .createUser _ => [.users, .userInbounds, .reconcileCh]
  | .updateUser _ _ => [.users, .reconcileCh]
  | .deleteUser _ => [.users, .userInbounds, .trafficSnapshots, .reconcileCh]
  | .setUserInbounds _ _ => [.userInbounds, .reconcileCh]
  | .suspendUser _ => [.users, .reconcileCh]
  | .resumeUser _ => [.users, .reconcileCh]
  | .renewUser _ _ => [.users, .reconcileCh]
  | .resetTraffic _ => [.users, .reconcileCh]
  | .rotateSubToken _ => [.users]
  | .createAPIKey _ => [.apiKeys]
  | .revokeAPIKey _ => [.apiKeys]
  | _ => []

def PublicRoute.changes : PublicRoute → List Part
  | .subscription _ _ _ => []
  | .subscriptionInfo _ => []
  | .billingWebhook _ _ => [.webhookEvents, .users, .userInbounds, .reconcileCh]

def Route.changes : Route → List Part
  | .healthz => []
  | .metrics => []
  | .limited r => .limiter :: r.changes
  | .admin r => r.changes

def WorkerJob.changes : WorkerJob → List Part
  | start => [.reconcileCh]
  | round _ rd => rd.changes
  | sweepExpired _ => [.users, .reconcileCh]
  | prune _ _ => [.trafficSnapshots]

/-- The thread runs a program of the source, which says that it can change these parts. -/
def Server.Declares (s : Server) : SiteThread → SiteJob → List Part → Prop
  | .http _, p, parts => ∃ req : Request, p = s.serve req ∧ parts = req.route.changes
  | .cli _, p, parts => ∃ name id token, p = s.genKey name id token ∧ parts = [.apiKeys]
  | .worker _, p, parts => ∃ job : WorkerJob, p = job.prog ∧ parts = job.changes

/-! ## Programs on the server -/

/-- The statement changes parts of the list only. -/
def Keeps (parts : List Part) (st : SiteStmt) : Prop := st.changes ⊆ parts

section Programs

variable {α : Type} {parts : List Part}

theorem Keeps.mono {parts' : List Part} (h : parts ⊆ parts') {p : Prog SiteStmt SiteStmt.Res α}
    (hp : p.Forall (Keeps parts)) : p.Forall (Keeps parts') :=
  hp.mono fun _ hst => List.Subset.trans hst h

theorem keeps_core_of_within {s : Stmt} (hs : s.within parts = true) : Keeps parts (.core s) :=
  fun part hpart => List.contains_iff_mem.1 (List.all_eq_true.1 hs part hpart)

theorem keeps_core {p : Service α} (hp : Footprint parts p) : Prog.Forall (Keeps parts) (core p) :=
  core_forall (fun _ hs => keeps_core_of_within hs) hp

theorem keeps_ask {q : AdminCall} (hq : q.changes ⊆ parts) : Prog.Forall (Keeps parts) (ask q) :=
  ask_forall hq

end Programs

theorem keeps_createInbound (nodeID : ID) (inp : Service.InboundInput) (id : ID) :
    Prog.Forall (Keeps [.inbounds]) (NodeService.createInbound nodeID inp id) := by
  refine Req.forall_bind (keeps_core (footprint_query rfl)) fun _ => ?_
  cases inp.validate with
  | error e => trivial
  | ok u =>
      exact Req.forall_bind (keeps_ask (List.Subset.refl _)) fun _ =>
        keeps_core (footprint_query rfl)

theorem keeps_createAPIKey (hashKey : String → String) (name : String) (id : ID) (token : String) :
    Prog.Forall (Keeps [.apiKeys]) (APIKeyService.create hashKey name id token) := by
  unfold APIKeyService.create
  split_ifs with hname
  · trivial
  · exact Req.forall_bind (keeps_ask (List.Subset.refl _)) fun _ => trivial

theorem keeps_handleUserUsage (d : Draws) (id : ID) (since upto : TimeParam) (groupBy : String) :
    (handleUserUsage d id since upto groupBy).Forall (Keeps []) := by
  unfold handleUserUsage
  split
  · trivial
  · split
    · trivial
    · exact respond_forall (Req.forall_bind (keeps_core (footprint_query rfl)) fun _ =>
        keeps_ask (List.nil_subset _))

section Handlers

variable (s : Server)

theorem keeps_handleAdmin (d : Draws) (r : AdminRoute) :
    (s.handleAdmin d r).Forall (Keeps r.changes) := by
  cases r with
  | openAPI => trivial
  | systemStats => exact respond_forall (keeps_core (footprint_query rfl))
  | listNodes => exact respond_forall (keeps_core (footprint_query rfl))
  | createNode body =>
      exact decoded_forall fun _ _ =>
        respond_forall (keeps_core (NodeService.footprint_create _ _ _ _))
  | getNode id => exact respond_forall (keeps_core (footprint_query rfl))
  | updateNode id body =>
      exact decoded_forall fun _ _ =>
        respond_forall (keeps_core (NodeService.footprint_update _ _ _))
  | deleteNode id => exact respond_forall (keeps_core (NodeService.footprint_delete id))
  | reconcileNode id => exact respond_forall (keeps_core (NodeService.footprint_reconcile id))
  | listInbounds id => exact respond_forall (keeps_ask (List.nil_subset _))
  | createInbound id body =>
      exact decoded_forall fun _ _ => respond_forall (keeps_createInbound id _ _)
  | getInbound id => exact respond_forall (keeps_core (footprint_query rfl))
  | updateInbound id body =>
      exact decoded_forall fun _ _ =>
        respond_forall (keeps_core (Service.footprint_updateInbound _ _))
  | deleteInbound id => exact respond_forall (keeps_core (footprint_query rfl))
  | listPlans => exact respond_forall (keeps_ask (List.nil_subset _))
  | createPlan body =>
      exact decoded_forall fun _ _ => respond_forall (keeps_core (PlanService.footprint_create _ _))
  | getPlan id => exact respond_forall (keeps_core (footprint_query rfl))
  | updatePlan id body =>
      exact decoded_forall fun _ _ => respond_forall (keeps_core (PlanService.footprint_update _ _))
  | deletePlan id => exact respond_forall (keeps_core (footprint_query rfl))
  | listUsers q =>
      exact respond_forall (Req.forall_bind (keeps_ask (List.nil_subset _)) fun _ =>
        Req.forall_bind (keeps_ask (List.nil_subset _)) fun _ => trivial)
  | createUser body =>
      exact decoded_forall fun _ _ => respond_forall (keeps_core (Service.footprint_create _ _ _))
  | getUser id => exact respond_forall (keeps_core (footprint_query rfl))
  | updateUser id body =>
      exact decoded_forall fun _ _ => respond_forall (keeps_core (Service.footprint_update _ _ _))
  | deleteUser id => exact respond_forall (keeps_core (Service.footprint_delete id))
  | setUserInbounds id body =>
      exact decoded_forall fun _ _ =>
        respond_forall (keeps_core (Service.footprint_setInbounds _ _))
  | suspendUser id =>
      exact respond_forall (keeps_core (Service.footprint_setStatusAndReconcile id .disabled))
  | resumeUser id => exact respond_forall (keeps_core (Service.footprint_resume id _))
  | renewUser id body =>
      exact decoded_forall fun _ _ => respond_forall (keeps_core (Service.footprint_renew _ _ _ _))
  | resetTraffic id => exact respond_forall (keeps_core (Service.footprint_resetTraffic id _))
  | rotateSubToken id => exact respond_forall (keeps_core (Service.footprint_rotateSubToken id _))
  | userUsage id since upto groupBy => exact keeps_handleUserUsage d id since upto groupBy
  | listAPIKeys => exact respond_forall (keeps_ask (List.nil_subset _))
  | createAPIKey body =>
      exact decoded_forall fun _ _ => respond_forall (keeps_createAPIKey _ _ _ _)
  | revokeAPIKey id => exact respond_forall (keeps_ask (List.Subset.refl _))

theorem keeps_handlePublic (d : Draws) (r : PublicRoute) :
    (s.handlePublic d r).Forall (Keeps r.changes) := by
  cases r with
  | subscription token format userAgent =>
      exact respond_forall (keeps_core (Service.footprint_subscriptionByToken token))
  | subscriptionInfo token =>
      exact respond_forall (keeps_core (Service.footprint_subscriptionByToken token))
  | billingWebhook body signature =>
      unfold Server.handlePublic Server.handleBillingWebhook
      dsimp only
      split_ifs with hsecret
      · trivial
      · split
        · trivial
        · split_ifs with hverify
          · exact respond_forall (keeps_core (Service.footprint_process _ _))
          · trivial

/-- A request keeps to the list of its route; the lookup of its key changes nothing. -/
theorem keeps_serve (req : Request) : (s.serve req).Forall (Keeps req.route.changes) := by
  refine serve_forall (fun _ _ => List.nil_subset _) (fun r hr => ?_) fun r hr => ?_
  · rw [hr]
    exact ⟨List.cons_subset_cons _ (List.nil_subset _),
      Keeps.mono (List.subset_cons_self _ _) (keeps_handlePublic s req.draws r)⟩
  · rw [hr]
    exact keeps_handleAdmin s req.draws r

theorem keeps_worker (job : WorkerJob) : job.prog.Forall (Keeps job.changes) := by
  cases job with
  | start => exact silently_forall (keeps_core NodeService.footprint_start)
  | round a rd =>
      exact silently_forall (Prog.Forall.embed (fun _ hs => keeps_core_of_within hs)
        (Worker.footprint_round a rd))
  | sweepExpired now => exact silently_forall (keeps_core (Worker.footprint_sweepExpired now))
  | prune retentionDays now =>
      refine silently_forall ?_
      unfold Worker.prune
      split_ifs with hdisabled
      · trivial
      · exact ⟨List.Subset.refl _, fun _ => trivial⟩

theorem keeps_of_declares {i : SiteThread} {p : SiteJob} {parts : List Part}
    (h : s.Declares i p parts) : p.Forall (Keeps parts) := by
  cases i with
  | http n =>
      obtain ⟨req, rfl, rfl⟩ := h
      exact keeps_serve s req
  | cli n =>
      obtain ⟨name, id, token, rfl, rfl⟩ := h
      exact silently_forall (keeps_createAPIKey _ _ _ _)
  | worker n =>
      obtain ⟨job, rfl, rfl⟩ := h
      exact keeps_worker job

end Handlers

/-! ## Runs -/

/-- A part of the state that no program started in a run can change is never changed, whatever runs
at the same time. -/
theorem untouched (s : Server) (σ : Site) {ls : List SiteAct} {Q : Serving}
    (h : Path s.Step (Serving.idle σ) ls Q) {part : Part}
    (hls : ∀ i p, Act.start i p ∈ ls → ∃ parts, s.Declares i p parts ∧ part ∉ parts) :
    Same σ Q.world part := by
  induction h with
  | nil => exact Same.refl σ part
  | @snoc M M' ls a hpre hstep ih =>
      have hbefore := ih fun i p hmem => hls i p (List.mem_append_left _ hmem)
      refine hbefore.trans ?_
      cases a with
      | start i p =>
          rw [hstep.start_inv.2.2.1]
          exact Same.refl _ part
      | call i st r =>
          obtain ⟨k, hk, hsem, -⟩ := hstep.call_inv
          obtain ⟨p, hstart, hG⟩ := Pool.started_of_call hpre rfl hk
          obtain ⟨parts, hdeclares, hpart⟩ := hls i p (List.mem_append_left _ hstart)
          have hst : Keeps parts st := hG _ (keeps_of_declares s hdeclares)
          exact same_of_siteMay hsem fun hmem => hpart (hst hmem)

/-- The requests that use and guess a key leave the users alone. -/
theorem untouched_used : Same oneKey revokable.world .users := by
  refine untouched plainServer oneKey used_path fun i p hmem => ?_
  simp only [used, List.mem_cons, List.not_mem_nil, or_false, reduceCtorEq, Act.start.injEq] at hmem
  obtain ⟨rfl, rfl⟩ | ⟨rfl, rfl⟩ := hmem
  · exact ⟨_, ⟨revoking "secret", rfl, rfl⟩, by decide⟩
  · exact ⟨_, ⟨revoking "guess", rfl, rfl⟩, by decide⟩

end XrayApi.HttpApi
