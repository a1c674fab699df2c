import XrayApi.Http.Authority
import XrayApi.Service.Refusal

/-!
# A response with a client error

A request that runs alone and is answered with a status from 400 to 499 has changed no row of the
database, the time a key was last used apart. This is so for every route but the billing webhook,
which records an event before it acts on it.
-/

set_option autoImplicit false

namespace XrayApi.HttpApi

open Transition Store Service

/-- The response blames the client. -/
def Response.Rejects (resp : Response) : Prop := 400 ≤ resp.status ∧ resp.status < 500

/-- The response reports success. -/
def Response.succeeds (resp : Response) : Bool := decide (resp.status < 400)

/-- The database has the rows it had; the time at which a key was last used does not count. -/
structure Kept (σ σ' : Site) : Prop where
  tables : σ'.tables = σ.tables
  apiKeys : Same σ σ' .apiKeys

/-- A response that blames the client leaves the database as it was. -/
def Unchanged (σ : Site) (resp : Response) (σ' : Site) : Prop := resp.Rejects → Kept σ σ'

/-- A request that is refused leaves the database as it was. -/
def KeptOnRefusal {α : Type} (σ : Site) (r : Except Err α) (σ' : Site) : Prop :=
  ∀ e, r = .error e → Refusal e → Kept σ σ'

section Rules

variable {α β : Type} {σ₀ σ σ' : Site}

theorem Kept.refl (σ : Site) : Kept σ σ := ⟨rfl, Same.refl σ .apiKeys⟩

theorem refusal_of_rejects {e : Err} (h : (writeError e).Rejects) : Refusal e := by
  obtain ⟨hlow, hhigh⟩ := h
  cases e with
  | store e =>
      cases e with
      | internal text => exact (Nat.lt_irrefl 500 hhigh).elim
      | _ => trivial
  | validation msg => trivial
  | userWith field value cause =>
      cases cause with
      | internal text => exact (Nat.lt_irrefl 500 hhigh).elim
      | _ => trivial

/-- The response to a request that may be refused. -/
theorem unchanged_respond {p : SiteService α} {ok : α → Response} (hok : ∀ a, ¬ (ok a).Rejects)
    (h : Prog.Ensures SiteMay (KeptOnRefusal σ₀) p σ) :
    (respond p ok).Ensures SiteMay (Unchanged σ₀) σ := by
  refine Prog.Ensures.bind (h.mono fun r σ' hr => ?_)
  cases r with
  | ok a => exact fun hreject => absurd hreject (hok a)
  | error e => exact fun hreject => hr e rfl (refusal_of_rejects hreject)

/-- A program of the services, on the server. -/
theorem ensures_core {p : Service α} {post : Except Err α → World → Prop}
    (h : Prog.Ensures Meets post p σ.world) :
    Prog.Ensures SiteMay (fun r σ' => post r σ'.world ∧ σ'.apiKeys = σ.apiKeys) (core p) σ := by
  refine Prog.Ensures.embed Site.world (fun v v' => v'.apiKeys = v.apiKeys) (fun _ => rfl)
    (fun _ _ _ huv hvv => hvv.trans huv) (fun s v r v' hstep => ?_) h
  refine ⟨?_, apiKeys_core hstep⟩
  obtain ⟨w', created, hmeets, -, rfl⟩ := hstep
  exact hmeets

theorem kept_core {p : Service α} (hσ : Kept σ₀ σ) (h : RunsClean σ₀.tables p σ.world) :
    Prog.Ensures SiteMay (KeptOnRefusal σ₀) (core p) σ := by
  refine (ensures_core h).mono fun r σ' hr e he href => ⟨hr.1 e he href, ?_⟩
  change σ'.apiKeys.rows.map APIKey.unused = _
  rw [hr.2]
  exact hσ.apiKeys

/-- A read of the services and what follows it. -/
theorem kept_read_bind {q : StoreCall} {f : q.Out → SiteService β} (hq : q.isWrite = false)
    (hσ : Kept σ₀ σ)
    (hf : ∀ a σ', Kept σ₀ σ' → Prog.Ensures SiteMay (KeptOnRefusal σ₀) (f a) σ') :
    Prog.Ensures SiteMay (KeptOnRefusal σ₀) (core (query q) >>= f : SiteService β) σ := by
  intro r σ' h
  have hkept : Kept σ₀ σ' := by
    obtain ⟨w', created, hmeets, -, rfl⟩ := h
    exact ⟨((readsOnly_of_isWrite_eq_false hq).tables hmeets).trans hσ.tables, hσ.apiKeys⟩
  cases r with
  | error e => exact fun _ _ _ => hkept
  | ok a => exact hf a σ' hkept

/-- A call of the admin API that fails changes nothing. -/
theorem kept_of_ask_error {q : AdminCall} {e : StoreErr} (hσ : Kept σ₀ σ)
    (h : SiteMay (.admin q) σ (.error e) σ') : Kept σ₀ σ' := by
  obtain ⟨hanswer, rfl⟩ | ⟨text, -, rfl⟩ := h
  · have harchive : (Archive.exec q σ.archive).2 = σ.archive := by
      cases q with
      | createAPIKey k | revokeAPIKey id now =>
          have herror := Eq.symm hanswer
          unfold Archive.exec Archive.writesKeys at herror ⊢
          dsimp only at herror ⊢
          split at herror
          · rfl
          · cases herror
      | findAPIKeyByHash hash now | createInbound ib =>
          have herror := Eq.symm hanswer
          unfold Archive.exec at herror ⊢
          dsimp only at herror ⊢
          split at herror
          · rfl
          · cases herror
      | pruneSnapshots before => cases hanswer
      | _ => rfl
    rw [harchive]
    exact hσ
  · exact hσ

theorem kept_ask {q : AdminCall} (hσ : Kept σ₀ σ) :
    Prog.Ensures SiteMay (KeptOnRefusal σ₀) (ask q) σ := by
  intro r σ' h
  cases r with
  | error e => exact fun _ _ _ => kept_of_ask_error hσ h
  | ok a => exact fun _ he => by cases he

end Rules

/-! ## Handlers -/

section Handlers

variable {σ₀ σ : Site} {s : Server}

theorem kept_ret {resp : Response} (hσ : Kept σ₀ σ) :
    Prog.Ensures SiteMay (Unchanged σ₀) (.ret resp : Handler) σ := fun _ => hσ

theorem unchanged_core {α : Type} {p : Service α} {ok : α → Response}
    (hok : ∀ a, ¬ (ok a).Rejects) (hσ : Kept σ₀ σ) (h : RunsClean σ₀.tables p σ.world) :
    (respond (core p) ok).Ensures SiteMay (Unchanged σ₀) σ :=
  unchanged_respond hok (kept_core hσ h)

theorem unchanged_decoded {α : Type} {body : Except String α} {next : α → Handler}
    (hσ : Kept σ₀ σ) (h : ∀ a, (next a).Ensures SiteMay (Unchanged σ₀) σ) :
    (decoded body next).Ensures SiteMay (Unchanged σ₀) σ := by
  cases body with
  | error text => exact kept_ret hσ
  | ok a => exact h a

theorem not_rejects {resp : Response} (h : resp.succeeds = true) : ¬ resp.Rejects :=
  fun hreject => absurd hreject.1 (Nat.not_le.2 (of_decide_eq_true h))

/-- The inbound is read back after it has been inserted. -/
theorem kept_createInbound (nodeID : ID) (inp : InboundInput) (id : ID) (hσ : Kept σ₀ σ) :
    Prog.Ensures SiteMay (KeptOnRefusal σ₀) (NodeService.createInbound nodeID inp id) σ := by
  refine kept_read_bind rfl hσ fun _ σ₁ hσ₁ => ?_
  split
  · exact fun _ _ _ => hσ₁
  · intro r σ₂ h
    cases r with
    | error e => exact fun _ _ _ => kept_of_ask_error hσ₁ h
    | ok _ =>
        obtain ⟨hanswer, rfl⟩ | ⟨text, hr, -⟩ := h
        · have hmem : id ∈ (Archive.exec (.createInbound (NodeService.newInbound inp id nodeID))
              σ₁.archive).2.db.tables.inbounds.map Inbound.id := by
            have hok := Eq.symm hanswer
            unfold Archive.exec at hok ⊢
            dsimp only at hok ⊢
            split at hok
            · cases hok
            · next t ht =>
                obtain ⟨-, -, -, rfl⟩ := createInbound_eq_ok ht
                rw [List.map_append]
                exact List.mem_append_right _ (List.mem_singleton.2 rfl)
          obtain ⟨i, hi⟩ := apply_getInbound hmem
          refine (ensures_core (accepted_query hi)).mono fun r σ' hr e he href => ?_
          exact absurd href (hr.1 e he)
        · cases hr

theorem unchanged_handleAdmin (d : Draws) (r : AdminRoute) (hσ : Kept σ₀ σ) :
    (s.handleAdmin d r).Ensures SiteMay (Unchanged σ₀) σ := by
  have ht : σ.world.tables = σ₀.tables := hσ.tables
  cases r with
  | openAPI => exact kept_ret hσ
  | systemStats | listNodes | getNode id | getInbound id | getPlan id | getUser id =>
      exact unchanged_core (fun _ => not_rejects rfl) hσ (clean_query ht)
  | createNode body =>
      exact unchanged_decoded hσ fun _ => unchanged_core (fun _ => not_rejects rfl) hσ
        (clean_node_create _ _ _ _ ht)
  | updateNode id body =>
      exact unchanged_decoded hσ fun _ => unchanged_core (fun _ => not_rejects rfl) hσ
        (clean_node_update _ _ _ ht)
  | deleteNode id =>
      exact unchanged_core (fun _ => not_rejects rfl) hσ (clean_node_delete id ht)
  | reconcileNode id =>
      exact unchanged_core (fun _ => not_rejects rfl) hσ (clean_node_reconcile id ht)
  | listInbounds id | listPlans | listAPIKeys | revokeAPIKey id =>
      exact unchanged_respond (fun _ => not_rejects rfl) (kept_ask hσ)
  | createInbound id body =>
      exact unchanged_decoded hσ fun _ => unchanged_respond (fun _ => not_rejects rfl)
        (kept_createInbound id _ _ hσ)
  | updateInbound id body =>
      exact unchanged_decoded hσ fun _ => unchanged_core (fun _ => not_rejects rfl) hσ
        (clean_updateInbound _ _ ht)
  | deleteInbound id | deletePlan id =>
      exact unchanged_core (fun _ => not_rejects rfl) hσ (clean_query ht)
  | createPlan body =>
      exact unchanged_decoded hσ fun _ => unchanged_core (fun _ => not_rejects rfl) hσ
        (clean_plan_create _ _ ht)
  | updatePlan id body =>
      exact unchanged_decoded hσ fun _ => unchanged_core (fun _ => not_rejects rfl) hσ
        (clean_plan_update _ _ ht)
  | listUsers q =>
      refine unchanged_respond (fun _ => not_rejects rfl) ?_
      intro r σ₁ h
      have hσ₁ : Kept σ₀ σ₁ := by
        obtain ⟨-, rfl⟩ | ⟨text, -, rfl⟩ := h
        · exact ⟨hσ.tables, hσ.apiKeys⟩
        · exact hσ
      cases r with
      | error e => exact fun _ _ _ => hσ₁
      | ok total =>
          intro r σ₂ h
          cases r with
          | error e => exact fun _ _ _ => kept_of_ask_error hσ₁ h
          | ok users => exact fun _ he => by cases he
  | createUser body =>
      exact unchanged_decoded hσ fun _ => unchanged_core (fun _ => not_rejects rfl) hσ
        (clean_create _ _ _ ht)
  | updateUser id body =>
      exact unchanged_decoded hσ fun _ => unchanged_core (fun _ => not_rejects rfl) hσ
        (clean_update _ _ _ ht)
  | deleteUser id =>
      exact unchanged_core (fun _ => not_rejects rfl) hσ (clean_delete id ht)
  | setUserInbounds id body =>
      exact unchanged_decoded hσ fun _ => unchanged_core (fun _ => not_rejects rfl) hσ
        (clean_setInbounds _ _ ht)
  | suspendUser id =>
      exact unchanged_core (fun _ => not_rejects rfl) hσ
        (clean_setStatusAndReconcile _ _ ht)
  | resumeUser id =>
      exact unchanged_core (fun _ => not_rejects rfl) hσ (clean_resume _ _ ht)
  | renewUser id body =>
      exact unchanged_decoded hσ fun _ => unchanged_core (fun _ => not_rejects rfl) hσ
        (clean_renew _ _ _ _ ht)
  | resetTraffic id =>
      exact unchanged_core (fun _ => not_rejects rfl) hσ (clean_resetTraffic _ _ ht)
  | rotateSubToken id =>
      exact unchanged_core (fun _ => not_rejects rfl) hσ (clean_rotateSubToken _ _ ht)
  | userUsage id since upto groupBy =>
      change (handleUserUsage d id since upto groupBy).Ensures SiteMay (Unchanged σ₀) σ
      unfold handleUserUsage
      split
      · exact kept_ret hσ
      · split
        · exact kept_ret hσ
        · exact unchanged_respond (fun _ => not_rejects rfl)
            (kept_read_bind rfl hσ fun _ _ hσ₁ => kept_ask hσ₁)
  | createAPIKey body =>
      refine unchanged_decoded hσ fun name => unchanged_respond (fun _ => not_rejects rfl) ?_
      unfold APIKeyService.create
      split_ifs with hname
      · exact fun _ _ _ => hσ
      · intro r σ₁ h
        cases r with
        | error e => exact fun _ _ _ => kept_of_ask_error hσ h
        | ok _ => exact fun _ he => by cases he

/-- A subscription is read and rendered. -/
theorem clean_subscriptionByToken (token : String) {w : World} {t : Tables} (hw : w.tables = t) :
    RunsClean t (subscriptionByToken token) w :=
  clean_read_bind rfl hw fun _ _ _ _ _ hw₁ =>
    clean_read_bind rfl hw₁ fun _ _ _ _ _ _ => clean_of_accepted (accepted_pure _)

theorem render_not_rejects (s : Server) (format : String) (sub : Subscription) :
    ¬ (s.render format sub).Rejects := by
  unfold Server.render
  split_ifs with hformat
  · exact not_rejects rfl
  · split
    · exact fun hreject => Nat.lt_irrefl 500 hreject.2
    · exact not_rejects rfl

theorem unchanged_authMiddleware {req : Request} {next : Handler} (hσ : Kept σ₀ σ)
    (h : ∀ σ', Kept σ₀ σ' → next.Ensures SiteMay (Unchanged σ₀) σ') :
    (s.authMiddleware req next).Ensures SiteMay (Unchanged σ₀) σ := by
  unfold Server.authMiddleware APIKeyService.verify
  split_ifs with hempty hboot
  · exact kept_ret hσ
  · exact h σ hσ
  · intro r σ₁ hstep
    -- the lookup of the key changes at most the time it was last used
    have hσ₁ : Kept σ₀ σ₁ := by
      refine ⟨?_, hσ.apiKeys.trans (same_of_siteMay hstep List.not_mem_nil)⟩
      obtain ⟨-, rfl⟩ | ⟨text, -, rfl⟩ := hstep
      · refine Eq.trans ?_ hσ.tables
        unfold Archive.exec
        dsimp only
        split <;> rfl
      · exact hσ.tables
    cases r with
    | error e => exact kept_ret hσ₁
    | ok k => exact h σ₁ hσ₁

/-- What the server runs for a request, the billing webhook apart. -/
theorem unchanged_handle {req : Request}
    (hroute : ∀ body signature, req.route ≠ .limited (.billingWebhook body signature)) :
    (s.handle req).Ensures SiteMay (Unchanged σ) σ := by
  unfold Server.handle
  cases hr : req.route with
  | healthz => exact kept_ret (.refl σ)
  | metrics => exact kept_ret (.refl σ)
  | admin r =>
      exact unchanged_authMiddleware (.refl σ) fun σ₁ hσ₁ => unchanged_handleAdmin _ r hσ₁
  | limited r =>
      intro ok σ₁ hstep
      have hσ₁ : Kept σ σ₁ := by
        refine ⟨?_, same_of_siteMay hstep (by simp [SiteStmt.changes])⟩
        obtain rfl : (siteExec (.allow req.ip req.arrival) σ).2 = σ₁ := congrArg Prod.snd hstep
        rw [siteExec]
        split <;> rfl
      cases ok with
      | false => exact kept_ret hσ₁
      | true =>
          cases r with
          | subscription token format userAgent =>
              exact unchanged_core (fun sub => render_not_rejects s _ sub) hσ₁
                (clean_subscriptionByToken token hσ₁.tables)
          | subscriptionInfo token =>
              exact unchanged_core (fun _ => not_rejects rfl) hσ₁
                (clean_subscriptionByToken token hσ₁.tables)
          | billingWebhook body signature => exact (hroute body signature hr).elim

end Handlers

/-- A request that runs alone and is answered with a status from 400 to 499 has left every table as
it was, and every key but for the time it was last used, whichever of its statements fail for want
of a connection. The billing webhook is the one exception. -/
theorem refused_unchanged (s : Server) {req : Request} {σ σ' : Site}
    {tr : List (Event SiteStmt SiteStmt.Res)} {resp : Response}
    (hroute : ∀ body signature, req.route ≠ .limited (.billingWebhook body signature))
    (h : Runs SiteMay Eq (s.handle req) σ tr resp σ') (hreject : resp.Rejects) :
    σ'.tables = σ.tables ∧ Same σ σ' .apiKeys := by
  obtain ⟨htables, hkeys⟩ := (unchanged_handle hroute).of_runs h hreject
  exact ⟨htables, hkeys⟩

/-- A request to renew a user that does not exist. -/
def renewingNobody : Request :=
  { revoking "secret" with route := .admin (.renewUser "u9" (.ok ⟨30, true, none⟩)) }

theorem refused_unchanged_nobody :
    ((plainServer.handle renewingNobody).run siteExec oneKey).1.status = 404 ∧
      ((plainServer.handle renewingNobody).run siteExec oneKey).2.tables = oneKey.tables := by
  have hstatus : ((plainServer.handle renewingNobody).run siteExec oneKey).1.status = 404 := rfl
  obtain ⟨tr, hrun⟩ := Runs.of_run siteMay_exec (fun _ => rfl) (plainServer.handle renewingNobody)
    oneKey
  refine ⟨hstatus, (refused_unchanged plainServer (fun _ _ h => by cases h) hrun ?_).1⟩
  unfold Response.Rejects
  rw [hstatus]
  decide

end XrayApi.HttpApi
