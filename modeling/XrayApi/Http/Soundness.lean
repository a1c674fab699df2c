import XrayApi.EndToEnd.Provisioning
import XrayApi.Http.Footprint

/-!
# Stored inbounds can be served

Inbounds are written by two routes, and both check their input first. So in every state of a running
server all inbounds are ones that the checks have passed, whatever requests and workers have done to
the database in which order (`inbounds_accepted`). From there on nothing that depends on an inbound
can fail because of it: an account can be built for every assignment that a node is to have, and a
subscription is answered with its links unless the rate limit, the token or the database stand in
the way (`subscription_renders`).
-/

set_option autoImplicit false

namespace XrayApi.HttpApi

open Transition Store Relational Sublink Service

/-- All inbounds have passed the checks. -/
def AllAccepted (σ : Site) : Prop := ∀ i ∈ σ.tables.inbounds, Accepted i

/-- An inbound that the statement writes has passed the checks. -/
def WritesAccepted : SiteStmt → Prop
  | .core (.db (.updateInbound ib)) => Accepted ib
  | .admin (.createInbound ib) => Accepted ib
  | _ => True

/-! ## Steps -/

section Steps

variable {σ σ' : Site}

theorem Accepted.persist {ib : Inbound} (h : Accepted ib) (r : Inbound) :
    Accepted (persistInbound ib r) := by
  obtain ⟨inp, existing, hvalid, rfl⟩ := h
  exact ⟨inp, r, hvalid, rfl⟩

theorem accepted_newInbound {inp : InboundInput} (h : inp.validate = .ok ()) (id nodeID : ID) :
    Accepted (NodeService.newInbound inp id nodeID) :=
  ⟨inp, NodeService.newInbound inp id nodeID, h, rfl⟩

theorem accepted_apply {q : StoreCall} {t t' : Tables} {o : q.Out}
    (ht : ∀ i ∈ t.inbounds, Accepted i) (hq : WritesAccepted (.core (.db q)))
    (h : q.apply t = .ok (o, t')) : ∀ i ∈ t'.inbounds, Accepted i := by
  by_cases hchanges : .inbounds ∈ q.changes
  · cases q with
    | updateInbound ib =>
        obtain ⟨-, -, rfl⟩ := updateInbound_eq_ok (StoreCall.wrote_eq_ok.1 h)
        intro i hi
        obtain ⟨r, hr, rfl⟩ := mem_updateWhere.1 hi
        split_ifs with hid
        · exact Accepted.persist hq r
        · exact ht r hr
    | deleteInbound id =>
        obtain ⟨-, hok⟩ := requireInbound_eq_ok.1 (StoreCall.wrote_eq_ok.1 h)
        cases hok
        exact fun i hi => ht i (List.mem_of_mem_filter hi)
    | deleteNode id =>
        obtain ⟨-, hok⟩ := requireNode_eq_ok.1 (StoreCall.wrote_eq_ok.1 h)
        cases hok
        exact fun i hi => ht i (List.mem_of_mem_filter hi)
    | _ => exact absurd hchanges (by simp [StoreCall.changes])
  · rw [(frame_apply h).inbounds hchanges]
    exact ht

/-- A step that writes accepted inbounds leaves accepted inbounds. -/
theorem AllAccepted.step {st : SiteStmt} {r : st.Res} (hσ : AllAccepted σ) (hst : WritesAccepted st)
    (h : SiteMay st σ r σ') : AllAccepted σ' := by
  by_cases hchanges : .inbounds ∈ st.changes
  · cases st with
    | allow ip now => exact absurd hchanges (by simp [SiteStmt.changes])
    | core s =>
        cases s with
        | db q =>
            obtain ⟨w', created, hmeets, -, rfl⟩ := h
            obtain ⟨e, -, htables⟩ | ⟨a, o, -, -, happly⟩ := mayFail_db (meets_db.1 hmeets)
            · unfold AllAccepted Site.tables
              rw [htables]
              exact hσ
            · exact accepted_apply hσ hst happly
        | _ => exact absurd hchanges (by simp [SiteStmt.changes, Stmt.changes])
    | admin q =>
        cases q with
        | createInbound ib =>
            obtain ⟨-, rfl⟩ | ⟨text, -, rfl⟩ := h
            · unfold Archive.exec
              dsimp only
              split
              · exact hσ
              · next t ht =>
                  obtain ⟨-, -, -, rfl⟩ := createInbound_eq_ok ht
                  intro i hi
                  obtain hi | hi := List.mem_append.1 hi
                  · exact hσ i hi
                  · rw [List.mem_singleton.1 hi]
                    exact hst
            · exact hσ
        | _ => exact absurd hchanges (by simp [SiteStmt.changes, AdminCall.changes])
  · have hsame : σ'.tables.inbounds = σ.tables.inbounds := same_of_siteMay h hchanges
    unfold AllAccepted
    rw [hsame]
    exact hσ

end Steps

/-! ## Programs -/

/-- A statement that cannot change inbounds writes none. -/
theorem writesAccepted_of_keeps {parts : List Part} (hparts : .inbounds ∉ parts) {st : SiteStmt}
    (h : Keeps parts st) : WritesAccepted st := by
  unfold WritesAccepted
  split
  · exact (hparts (h List.mem_cons_self)).elim
  · exact (hparts (h List.mem_cons_self)).elim
  · trivial

theorem writesAccepted_updateInbound (id : ID) (inp : InboundInput) :
    Prog.Forall WritesAccepted (core (updateInbound id inp)) := by
  refine core_forall (P := fun s => WritesAccepted (.core s)) (fun _ h => h) ?_
  refine Req.forall_bind ⟨trivial, fun _ => trivial⟩ fun existing => ?_
  cases hvalid : inp.validate with
  | error e => trivial
  | ok u =>
      refine Req.forall_bind ⟨⟨inp, existing, hvalid, rfl⟩, fun _ => trivial⟩ fun _ => ?_
      exact Req.forall_bind ⟨trivial, fun _ => trivial⟩ fun _ => ⟨trivial, fun _ => trivial⟩

theorem writesAccepted_createInbound (nodeID : ID) (inp : InboundInput) (id : ID) :
    Prog.Forall WritesAccepted (NodeService.createInbound nodeID inp id) := by
  refine Req.forall_bind ⟨trivial, fun _ => trivial⟩ fun _ => ?_
  cases hvalid : inp.validate with
  | error e => trivial
  | ok u =>
      exact Req.forall_bind (ask_forall (accepted_newInbound hvalid id nodeID)) fun _ =>
        ⟨trivial, fun _ => trivial⟩

section Server

variable (s : Server)

theorem writesAccepted_handleAdmin (d : Draws) (r : AdminRoute) :
    (s.handleAdmin d r).Forall WritesAccepted := by
  by_cases hr : .inbounds ∈ r.changes
  · cases r with
    | createInbound id body =>
        exact decoded_forall fun inp _ => respond_forall (writesAccepted_createInbound id inp d.id)
    | updateInbound id body =>
        exact decoded_forall fun inp _ => respond_forall (writesAccepted_updateInbound id inp)
    | deleteInbound id => exact respond_forall ⟨trivial, fun _ => trivial⟩
    | deleteNode id =>
        exact respond_forall ⟨trivial, fun _ => ⟨trivial, fun _ => trivial⟩⟩
    | _ => exact absurd hr (by simp [AdminRoute.changes])
  · exact (keeps_handleAdmin s d r).mono fun _ => writesAccepted_of_keeps hr

theorem writesAccepted_of_spawns {i : SiteThread} {p : SiteJob} (h : s.Spawns i p) :
    p.Forall WritesAccepted := by
  cases i with
  | http n =>
      obtain ⟨req, rfl⟩ := h
      refine serve_forall (fun _ _ => trivial) (fun r _ => ⟨trivial, ?_⟩) fun r _ =>
        writesAccepted_handleAdmin s req.draws r
      exact (keeps_handlePublic s req.draws r).mono fun _ =>
        writesAccepted_of_keeps (by cases r <;> simp [PublicRoute.changes])
  | cli n =>
      obtain ⟨name, id, token, rfl⟩ := h
      exact silently_forall ((keeps_createAPIKey _ _ _ _).mono fun _ =>
        writesAccepted_of_keeps (by decide))
  | worker n =>
      obtain ⟨job, rfl⟩ := h
      refine (keeps_worker job).mono fun _ => writesAccepted_of_keeps ?_
      cases job with
      | round a rd => cases rd <;> simp [WorkerJob.changes, Worker.Round.changes]
      | _ => simp [WorkerJob.changes]

end Server

/-! ## Runs -/

section Runs

variable {s : Server} {σ : Site} {ls : List SiteAct} {P Q : Serving}

theorem allAccepted_of_path (h : Path s.Step (Serving.idle σ) ls Q) (hσ : AllAccepted σ) :
    AllAccepted Q.world := by
  have hspawn : ∀ (i : SiteThread) (p : SiteJob), s.Spawns i p →
      p.Within (fun _ _ => True) WritesAccepted fun _ => True :=
    fun i p hp => (writesAccepted_of_spawns s hp).within fun _ => trivial
  have hfine : ∀ (st : SiteStmt) (σ : Site) (r : st.Res) (σ' : Site), AllAccepted σ →
      WritesAccepted st → SiteMay st σ r σ' → AllAccepted σ' :=
    fun _ _ _ _ hσ hst hsem => hσ.step hst hsem
  exact (Pool.within_invariant (fun _ _ _ _ _ _ => trivial) hfine hspawn h hσ fun _ => trivial).1

/-- In every state of a server whose inbounds have passed the checks at first, they all have: every
account that a node is to have can be built, and every user has a bundle of links. -/
theorem inbounds_accepted (s : Server) (σ : Site) (h : Path s.Step (Serving.idle σ) ls Q)
    (hσ : AllAccepted σ) :
    AllAccepted Q.world ∧
      (∀ n, ∀ d ∈ desiredForNode Q.world.tables n,
        ∃ user, Xray.buildUser (Worker.accountFor d) = .ok user) ∧
      ∀ u, ∃ text, v2Ray u (listInboundsForUser Q.world.tables u.id) = .ok text := by
  have hall := allAccepted_of_path h hσ
  refine ⟨hall, EndToEnd.buildable_of_accepted hall, fun u => ?_⟩
  obtain ⟨text, htext, -⟩ := linesOf_v2Ray u fun i hi => hall i (mem_listInboundsForUser.1 hi).1
  exact ⟨text, htext⟩

/-- The shop after its first sale, with one key. -/
def opened : Site := { oneKey with world := EndToEnd.sold }

theorem allAccepted_opened : AllAccepted opened := by
  intro i hi
  have hinbounds : opened.tables.inbounds = [EndToEnd.offered] := rfl
  rw [hinbounds, List.mem_singleton] at hi
  rw [hi]
  exact ⟨_, _, rfl, rfl⟩

/-- A second inbound. -/
def addingInbound : Request :=
  { revoking "secret" with
    route := .admin (.createInbound "n1" (.ok { xhttpInput .trojan with tag := "in2" }))
    draws := ⟨0, 0, "i2", ⟨"", "", "", ""⟩, ""⟩ }

/-- The customer is put on both. -/
def puttingOnBoth : Request :=
  { revoking "secret" with route := .admin (.setUserInbounds "u1" (.ok (some ["i1", "i2"]))) }

def expand : List (Pool.Move SiteThread SiteStmt SiteStmt.Res (Option Response)) :=
  [.start (.http 0) (plainServer.serve addingInbound),
    .fire (.http 0), .fire (.http 0), .fire (.http 0), .fire (.http 0),
    .start (.http 1) (plainServer.serve puttingOnBoth),
    .fire (.http 1), .fire (.http 1), .fire (.http 1), .fire (.http 1), .fire (.http 1)]

/-- Both accounts of the customer can be built. -/
theorem inbounds_accepted_expand :
    (desiredForNode (Pool.play siteExec expand (Serving.idle opened)).2.world.tables "n1").map
        DesiredAssignment.inboundID = ["i1", "i2"] ∧
      ∀ d ∈ desiredForNode (Pool.play siteExec expand (Serving.idle opened)).2.world.tables "n1",
        ∃ user, Xray.buildUser (Worker.accountFor d) = .ok user := by
  have hallowed : Pool.Allowed plainServer.Spawns expand := by
    intro i p h
    simp only [expand, List.mem_cons, List.not_mem_nil, or_false, reduceCtorEq, false_or,
      Pool.Move.start.injEq] at h
    obtain ⟨rfl, rfl⟩ | ⟨rfl, rfl⟩ := h
    · exact ⟨_, rfl⟩
    · exact ⟨_, rfl⟩
  have hpath := Pool.play_path_of_exec siteMay_exec hallowed (Serving.idle opened)
  exact ⟨rfl, (inbounds_accepted plainServer opened hpath allAccepted_opened).2.1 "n1"⟩

/-! ## Subscriptions -/

/-- The statement did what it was asked to; a question to the limiter was granted. -/
def Succeeded : (st : SiteStmt) → st.Res → Prop
  | .core st, r => st.isOk r = true
  | .admin _, r => r.isOk = true
  | .allow _ _, r => r = true

/-- The inbounds of a user that the statement brings have passed the checks. -/
def BringsAccepted : (st : SiteStmt) → st.Res → Prop
  | .core (.db (.listInboundsForUser _)), r => ∀ inbounds, r = .ok inbounds →
      ∀ i ∈ inbounds, Accepted i
  | _, _ => True

theorem AllAccepted.brings {σ σ' : Site} {st : SiteStmt} {r : st.Res} (hσ : AllAccepted σ)
    (h : SiteMay st σ r σ') : BringsAccepted st r := by
  unfold BringsAccepted
  split
  · next userID r =>
      rintro inbounds rfl i hi
      obtain ⟨w', created, hmeets, -, -⟩ := h
      obtain ⟨e, he, -⟩ | ⟨a, o, ha, hrows, happly⟩ := mayFail_db (meets_db.1 hmeets)
      · cases he
      · cases ha
        have ho : listInboundsForUser σ.tables userID = o :=
          congrArg Prod.fst (Except.ok.inj happly)
        have hmem : i ∈ listInboundsForUser σ.tables userID := by
          rw [ho]
          exact (List.Perm.mem_iff hrows).1 hi
        exact hσ i (mem_listInboundsForUser.1 hmem).1
  · trivial

theorem status_render (s : Server) (format : String) {sub : Subscription}
    (h : ∀ i ∈ sub.inbounds, Accepted i) : (s.render format sub).status = 200 := by
  unfold Server.render
  split_ifs with hformat
  · rfl
  · obtain ⟨text, htext, -⟩ := linesOf_v2Ray sub.user h
    rw [htext]

/-- A request for a subscription whose statements all succeed is answered. -/
theorem subscription_within {req : Request} {token format userAgent : String}
    (hroute : req.route = .limited (.subscription token format userAgent)) :
    (s.serve req).Within (fun st r => Succeeded st r ∧ BringsAccepted st r) (fun _ => True)
      fun a => ∃ resp, a = some resp ∧ resp.status = 200 := by
  unfold Server.serve Server.handle
  rw [hroute]
  refine ⟨trivial, fun ok hok => ?_⟩
  cases ok with
  | false => cases hok.1
  | true =>
      refine ⟨trivial, fun r hr => ?_⟩
      cases r with
      | error e => cases hr.1
      | ok u =>
          refine ⟨trivial, fun r hr => ?_⟩
          cases r with
          | error e => cases hr.1
          | ok inbounds => exact ⟨_, rfl, status_render s _ (hr.2 inbounds rfl)⟩

/-- A request for a subscription is answered with its links, unless the rate limit, the token or the
database stand in the way: no inbound that the server has stored, by whatever requests, does. -/
theorem subscription_renders (s : Server) (σ : Site) (h : Path s.Step (Serving.idle σ) ls Q)
    (hσ : AllAccepted σ) {n : Nat} {req : Request} {token format userAgent : String}
    (hroute : req.route = .limited (.subscription token format userAgent))
    {es : List (Event SiteStmt SiteStmt.Res)}
    (hsession : session (.http n) ls = some (s.serve req, es))
    (hes : ∀ e ∈ es, Succeeded e.stmt e.answer) {a : Option Response}
    (ha : Q.prog (.http n) = .ret a) : ∃ resp, a = some resp ∧ resp.status = 200 := by
  obtain ⟨-, hemits⟩ := Pool.emits_of_session h hsession
  rw [ha] at hemits
  refine hemits.within (subscription_within hroute) fun e he => ⟨hes e he, ?_⟩
  obtain ⟨ls₁, ls₂, M, M', es', -, hpre, hsem, -⟩ := Pool.call_of_session h hsession he
  exact (allAccepted_of_path hpre hσ).brings hsem

/-- A client fetches the subscription. -/
def fetching : Request where
  route := .limited (.subscription "t1" "" "")
  authorization := ""
  xAPIKey := ""
  ip := ""
  arrival := 0
  draws := ⟨0, 0, "", ⟨"", "", "", ""⟩, ""⟩

def fetch : List (Pool.Move SiteThread SiteStmt SiteStmt.Res (Option Response)) :=
  [.start (.http 0) (plainServer.serve fetching), .fire (.http 0), .fire (.http 0), .fire (.http 0)]

theorem fetch_path : Path plainServer.Step (Serving.idle opened)
    (Pool.play siteExec fetch (Serving.idle opened)).1
    (Pool.play siteExec fetch (Serving.idle opened)).2 := by
  refine Pool.play_path_of_exec siteMay_exec ?_ (Serving.idle opened)
  intro i p h
  simp only [fetch, List.mem_cons, List.not_mem_nil, or_false, reduceCtorEq,
    Pool.Move.start.injEq] at h
  obtain ⟨rfl, rfl⟩ := h
  exact ⟨_, rfl⟩

/-- The customer gets the links. -/
theorem subscription_renders_fetch : ∃ resp,
    (Pool.play siteExec fetch (Serving.idle opened)).2.prog (.http 0) = .ret (some resp) ∧
      resp.status = 200 := by
  have hsession : session (.http 0) (Pool.play siteExec fetch (Serving.idle opened)).1 =
      some (plainServer.serve fetching, [⟨.allow "" 0, true⟩,
        ⟨.core (.db (.getUserBySubToken "t1")),
          .ok (newUser EndToEnd.order ⟨"u1", "x1", "p1", "t1"⟩ none none)⟩,
        ⟨.core (.db (.listInboundsForUser "u1")), .ok [EndToEnd.offered]⟩]) := rfl
  obtain ⟨a, ha⟩ : ∃ a, (Pool.play siteExec fetch (Serving.idle opened)).2.prog (.http 0) =
      .ret a := ⟨_, rfl⟩
  obtain ⟨resp, rfl, hstatus⟩ :=
    subscription_renders plainServer opened fetch_path allAccepted_opened rfl hsession (by
      intro e he
      simp only [List.mem_cons, List.not_mem_nil, or_false] at he
      obtain rfl | rfl | rfl := he
      · exact rfl
      · exact rfl
      · exact rfl) ha
  exact ⟨resp, ha, hstatus⟩

end Runs

end XrayApi.HttpApi
