import XrayApi.Http.Serving

/-!
# Who may do what

Every statement of the admin API is behind a key. `Open` has the statements that any visitor's
request may issue: they change nothing but the rate limiter and the time a key was last used. All
others need a credential (`Trusted`, or a key that is found live), whatever else the server does at
the same time: `statement_authorised`.

Keys come from keys: a request can only create one if it was let in. So visitors that hold neither
the bootstrap key, nor a key that was live at first, nor one that somebody else created, stay
outside for ever (`strangers_stay_out`), and a key that has been revoked lets nobody in again
(`revocation_final`).
-/

set_option autoImplicit false

namespace XrayApi.HttpApi

open Transition Store

/-! ## The standing of keys -/

/-- What a statement with its answer does to the keys. -/
inductive KeyStep : (s : SiteStmt) → s.Res → APIKeys → APIKeys → Prop
  | create {k : APIKey} {t t' : APIKeys} :
      t.create k = .ok t' → KeyStep (.admin (.createAPIKey k)) (.ok ()) t t'
  | find {hash : String} {now : Time} {k : APIKey} {t t' : APIKeys} :
      t.findByHash hash now = .ok (k, t') →
      KeyStep (.admin (.findAPIKeyByHash hash now)) (.ok k) t t'
  | revoke {id : ID} {now : Time} {t t' : APIKeys} :
      t.revoke id now = .ok t' → KeyStep (.admin (.revokeAPIKey id now)) (.ok ()) t t'
  | keep (s : SiteStmt) (r : s.Res) (t : APIKeys) : KeyStep s r t t

/-- The statement has created a key with the hash. -/
def creates (hash : String) : (s : SiteStmt) → s.Res → Prop
  | .admin (.createAPIKey k), r => k.keyHash = hash ∧ r = .ok ()
  | _, _ => False

section Keys

variable {σ σ' : Site} {hash : String}

theorem keyStep_exec (q : AdminCall) (a : Archive) {r : Except StoreErr q.Out}
    (h : Archive.Answers q a r) :
    KeyStep (.admin q) r a.apiKeys (Archive.exec q a).2.apiKeys := by
  cases q with
  | createAPIKey k =>
      cases h
      unfold Archive.exec Archive.writesKeys
      dsimp only
      split
      · exact .keep _ _ _
      · next t ht => exact .create ht
  | findAPIKeyByHash hash now =>
      cases h
      rw [Archive.exec]
      split
      · exact .keep _ _ _
      · next k t ht => exact .find ht
  | revokeAPIKey id now =>
      cases h
      unfold Archive.exec Archive.writesKeys
      dsimp only
      split
      · exact .keep _ _ _
      · next t ht => exact .revoke ht
  | createInbound ib =>
      have hkeys : (Archive.exec (.createInbound ib) a).2.apiKeys = a.apiKeys := by
        rw [Archive.exec]
        split <;> rfl
      rw [hkeys]
      exact .keep _ _ _
  | listAPIKeys => exact .keep _ _ _
  | listInboundsByNode nodeID => exact .keep _ _ _
  | listPlans => exact .keep _ _ _
  | countUsers f => exact .keep _ _ _
  | selectUsers f => exact .keep _ _ _
  | userUsage userID since upto groupBy => exact .keep _ _ _
  | pruneSnapshots before => exact .keep _ _ _

/-- Every step does one of these to the keys. -/
theorem keyStep_of_siteMay {s : SiteStmt} {r : s.Res} (h : SiteMay s σ r σ') :
    KeyStep s r σ.apiKeys σ'.apiKeys := by
  cases s with
  | core s =>
      rw [apiKeys_core h]
      exact .keep _ _ _
  | admin q =>
      obtain ⟨hanswer, rfl⟩ | ⟨text, -, rfl⟩ := h
      · exact keyStep_exec q σ.archive hanswer
      · exact .keep _ _ _
  | allow ip now =>
      rw [apiKeys_allow h]
      exact .keep _ _ _

/-- A hash becomes live by the creation of a key only. -/
theorem KeyStep.live {s : SiteStmt} {r : s.Res} {t t' : APIKeys} (h : KeyStep s r t t')
    (hl : t'.Live hash) : t.Live hash ∨ creates hash s r := by
  cases h with
  | create hc => exact ((APIKeys.live_create hc).1 hl).imp_right fun heq => ⟨heq.symm, rfl⟩
  | find hf => exact Or.inl ((APIKeys.live_findByHash hf).1 hl)
  | revoke hr => exact Or.inl (hl.of_revoke hr)
  | keep => exact Or.inl hl

/-- A revoked hash stays revoked. -/
theorem KeyStep.revoked {s : SiteStmt} {r : s.Res} {t t' : APIKeys} (h : KeyStep s r t t')
    (hr : t.Revoked hash) : t'.Revoked hash := by
  cases h with
  | create hc => exact hr.create hc
  | find hf => exact (APIKeys.revoked_findByHash hf).2 hr
  | revoke hk => exact hr.revoke hk
  | keep => exact hr

/-- A key that is found is live. -/
theorem live_of_find {now : Time} {k : APIKey}
    (h : SiteMay (.admin (.findAPIKeyByHash hash now)) σ (.ok k) σ') : σ.apiKeys.Live hash := by
  obtain ⟨hanswer, -⟩ | ⟨text, hr, -⟩ := h
  · have hexec : (.ok k : Except StoreErr APIKey) =
        (Archive.exec (.findAPIKeyByHash hash now) σ.archive).1 := hanswer
    rw [Archive.exec] at hexec
    split at hexec
    · cases hexec
    · next k' t ht => exact (APIKeys.findByHash_eq_ok ht).1
  · cases hr

end Keys

section Runs

variable {s : Server} {P Q : Serving} {ls : List SiteAct} {hash : String}

/-- The standing of keys changes by calls only. -/
theorem keyStep_of_step {a : SiteAct} (h : s.Step P a Q) :
    Q.world.apiKeys = P.world.apiKeys ∨ ∃ i st r, a = .call i st r ∧
      KeyStep st r P.world.apiKeys Q.world.apiKeys := by
  cases a with
  | start i p =>
      rw [h.start_inv.2.2.1]
      exact Or.inl rfl
  | call i st r =>
      obtain ⟨-, -, hsem, -⟩ := h.call_inv
      exact Or.inr ⟨i, st, r, rfl, keyStep_of_siteMay hsem⟩

/-- A hash that is live was live at first, or a key with it has been created. -/
theorem live_of_path (h : Path s.Step P ls Q) (hl : Q.world.apiKeys.Live hash) :
    P.world.apiKeys.Live hash ∨ ∃ i st r, Act.call i st r ∈ ls ∧ creates hash st r := by
  induction h with
  | nil => exact Or.inl hl
  | @snoc P' Q' ls a _ hstep ih =>
      have hbefore : P'.world.apiKeys.Live hash → P.world.apiKeys.Live hash ∨
          ∃ i st r, Act.call i st r ∈ ls ++ [a] ∧ creates hash st r := by
        intro hlive
        refine (ih hlive).imp_right ?_
        rintro ⟨i, st, r, hmem, hc⟩
        exact ⟨i, st, r, List.mem_append_left _ hmem, hc⟩
      obtain heq | ⟨i, st, r, rfl, hkey⟩ := keyStep_of_step hstep
      · rw [heq] at hl
        exact hbefore hl
      · obtain hlive | hc := hkey.live hl
        · exact hbefore hlive
        · exact Or.inr ⟨i, st, r, List.mem_append_right _ (List.mem_singleton.2 rfl), hc⟩

theorem revoked_of_path (h : Path s.Step P ls Q) (hr : P.world.apiKeys.Revoked hash) :
    Q.world.apiKeys.Revoked hash := by
  refine h.invariant (I := fun P => P.world.apiKeys.Revoked hash) (fun P a Q hr hstep => ?_) hr
  obtain heq | ⟨i, st, r, -, hkey⟩ := keyStep_of_step hstep
  · rw [heq]
    exact hr
  · exact hkey.revoked hr

end Runs

/-! ## Gates -/

/-- The statements that a request without a credential may issue. -/
def Open : SiteStmt → Prop
  | .core (.db (.getUserBySubToken _)) => True
  | .core (.db (.listInboundsForUser _)) => True
  | .admin (.findAPIKeyByHash _ _) => True
  | .allow _ _ => True
  | _ => False

/-- A lookup of the hash. -/
def Lookup (hash : String) : SiteStmt → Prop
  | .admin (.findAPIKeyByHash h _) => h = hash
  | _ => False

/-- A lookup of the hash that found a live key. -/
def Found (hash : String) : (st : SiteStmt) → st.Res → Prop
  | .admin (.findAPIKeyByHash h _), r => h = hash ∧ ∃ k, r = .ok k
  | _, _ => False

theorem Found.live {σ σ' : Site} {hash : String} {st : SiteStmt} {r : st.Res}
    (hf : Found hash st r) (h : SiteMay st σ r σ') : σ.apiKeys.Live hash := by
  cases st with
  | admin q =>
      cases q with
      | findAPIKeyByHash hash' now =>
          obtain ⟨rfl, k, rfl⟩ := hf
          exact live_of_find h
      | _ => exact hf.elim
  | core st => exact hf.elim
  | allow ip now => exact hf.elim

/-- The hash of the key that the request presents. -/
def Server.presented (s : Server) (req : Request) : String := s.hashKey (extractKey req)

/-- The request is to the admin API. -/
def Request.isAdmin (req : Request) : Bool :=
  match req.route with
  | .admin _ => true
  | _ => false

/-- The request presents the bootstrap key to the admin API. -/
def Server.Bootstrapped (s : Server) (req : Request) : Prop :=
  req.isAdmin = true ∧ s.bootstrapKey ≠ "" ∧ extractKey req = s.bootstrapKey

/-- The request is a billing webhook that was signed with the secret. -/
def Server.Signed (s : Server) (req : Request) : Prop :=
  ∃ body signature, req.route = .limited (.billingWebhook (some body) signature) ∧
    s.verifySignature body signature = true

theorem Lookup.isOpen {hash : String} {st : SiteStmt} (h : Lookup hash st) : Open st := by
  unfold Lookup at h
  split at h
  · trivial
  · exact h.elim

section Gates

variable {s : Server} {req : Request}

/-- An admin request without the bootstrap key looks its key up, and is refused unless the key is
live. -/
theorem serve_admin_behind (hadmin : req.isAdmin = true) (hboot : ¬ s.Bootstrapped req) :
    (s.serve req).Behind (Lookup (s.presented req)) (Found (s.presented req))
      fun a => a = some unauthorized := by
  obtain ⟨r, hr⟩ : ∃ r, req.route = .admin r := by
    unfold Request.isAdmin at hadmin
    split at hadmin
    · next r hr => exact ⟨r, hr⟩
    · cases hadmin
  unfold Server.serve Server.handle Server.authMiddleware APIKeyService.verify
  simp only [hr]
  split_ifs with hempty hkey
  · exact rfl
  · exact (hboot ⟨hadmin, hkey⟩).elim
  · refine ⟨rfl, fun ans => ?_⟩
    cases ans with
    | ok k => exact Or.inl ⟨rfl, k, rfl⟩
    | error e => exact Or.inr rfl

theorem open_subscriptionByToken (token : String) :
    Prog.Forall Open (core (Service.subscriptionByToken token)) :=
  core_forall (P := fun st => Open (.core st)) (fun _ h => h)
    (Req.forall_bind ⟨trivial, fun _ => trivial⟩ fun _ =>
      Req.forall_bind ⟨trivial, fun _ => trivial⟩ fun _ => trivial)

/-- Any other request without a signature issues open statements only. -/
theorem serve_public_forall (hadmin : req.isAdmin = false) (hsigned : ¬ s.Signed req) :
    (s.serve req).Forall Open := by
  refine serve_forall (fun _ _ => trivial) (fun r hr => ⟨trivial, ?_⟩) fun r hr => ?_
  · cases r with
    | subscription token format userAgent =>
        exact respond_forall (open_subscriptionByToken token)
    | subscriptionInfo token => exact respond_forall (open_subscriptionByToken token)
    | billingWebhook body signature =>
        unfold Server.handlePublic Server.handleBillingWebhook
        dsimp only
        split_ifs with hsecret
        · trivial
        · split
          · trivial
          · next b hb =>
              obtain ⟨hbody, -⟩ := Option.filter_eq_some_iff.1 hb
              rw [if_neg fun hv => hsigned ⟨b, signature, by rw [hr, hbody], hv⟩]
              trivial
  · simp [Request.isAdmin, hr] at hadmin

/-- A request that is neither bootstrapped nor signed issues open statements only, until its key is
found live. -/
theorem serve_behind (hboot : ¬ s.Bootstrapped req) (hsigned : ¬ s.Signed req) :
    (s.serve req).Behind Open
      (fun st r => req.isAdmin = true ∧ Found (s.presented req) st r) fun _ => True := by
  cases hadmin : req.isAdmin with
  | true =>
      exact (serve_admin_behind hadmin hboot).mono (fun _ h => h.isOpen) (fun _ _ h => ⟨rfl, h⟩)
        fun _ _ => trivial
  | false => exact (serve_public_forall hadmin hsigned).behind fun _ => trivial

end Gates

/-! ## Authorisation -/

section Authorisation

variable {s : Server} {σ : Site} {ls ls₁ ls₂ : List SiteAct} {P Q M : Serving} {n : Nat}

/-- The gate of a call that is not open: the request of its session is trusted, or its key was found
live since it started. -/
theorem gate_of_call (h : Path s.Step (Serving.idle σ) ls M) {st : SiteStmt}
    {k : st.Res → SiteJob} (hk : M.prog (.http n) = .call st k) (hst : ¬ Open st) :
    ∃ req es, session (.http n) ls = some (s.serve req, es) ∧
      (s.Bootstrapped req ∨ s.Signed req ∨
        req.isAdmin = true ∧ ∃ e ∈ es, Found (s.presented req) e.stmt e.answer) := by
  obtain ⟨p, es, hsession, ⟨req, rfl⟩, hemits⟩ := Pool.session_of_call h rfl hk
  refine ⟨req, es, hsession, ?_⟩
  by_cases hboot : s.Bootstrapped req
  · exact Or.inl hboot
  by_cases hsigned : s.Signed req
  · exact Or.inr (Or.inl hsigned)
  obtain ⟨e, he, hadmin, hfound⟩ | ⟨-, hrest⟩ := hemits.behind (serve_behind hboot hsigned)
  · exact Or.inr (Or.inr ⟨hadmin, e, he, hfound⟩)
  · exact (hst hrest.1).elim

/-- A lookup that found a live key was made in a state where the key is live, and the thread has
started nothing since. -/
theorem live_of_found {p : SiteJob} {es : List (Event SiteStmt SiteStmt.Res)} {hash : String}
    (h : Path s.Step P ls Q) (hs : session (.http n) ls = some (p, es))
    {e : Event SiteStmt SiteStmt.Res} (he : e ∈ es) (hfound : Found hash e.stmt e.answer) :
    ∃ ls₁ ls₂ M es', ls = ls₁ ++ ls₂ ∧ Path s.Step P ls₁ M ∧
      session (.http n) ls₁ = some (p, es') ∧ es' <+: es ∧
      (∀ q, Act.start (.http n) q ∉ ls₂) ∧ M.world.apiKeys.Live hash := by
  obtain ⟨ls₁, ls₂, M, M', es', hls, hpath, hsem, -, hs₁, hes, hstart⟩ :=
    Pool.call_of_session h hs he
  exact ⟨ls₁, _, M, es', hls, hpath, hs₁, (List.prefix_append _ _).trans hes, hstart,
    hfound.live hsem⟩

/-- A server with neither a bootstrap key nor billing, which stores keys as they are. -/
def plainServer : Server where
  bootstrapKey := ""
  billingSecret := ""
  publicBaseURL := ""
  metricsEnabled := false
  updateIntervalHours := 0
  profileTitle := ""
  version := ""
  commit := ""
  hashKey := id
  hmac _ body := body
  unmarshalEvent _ := .error ""
  pem := ⟨fun _ => false, fun _ _ => .ok ()⟩

/-- One key is live. -/
def oneKey : Site where
  world := World.still ⟨.empty, Tables.empty_valid⟩
  apiKeys := ⟨[⟨"k1", "ops", "secret", none, none⟩], by decide, by decide⟩
  createdAt _ := 0
  lower := Char.toLower
  zone := .utc
  limiter := none

/-- A request to revoke the key. -/
def revoking (key : String) : Request where
  route := .admin (.revokeAPIKey "k1")
  authorization := ""
  xAPIKey := key
  ip := ""
  arrival := 0
  draws := ⟨0, 0, "", ⟨"", "", "", ""⟩, ""⟩

/-- The key is used to revoke itself, while somebody guesses. -/
def revokes : List (Pool.Move SiteThread SiteStmt SiteStmt.Res (Option Response)) :=
  [.start (.http 0) (plainServer.serve (revoking "secret")),
    .start (.http 1) (plainServer.serve (revoking "guess")), .fire (.http 0), .fire (.http 1)]

/-- What happens in it. -/
def used : List SiteAct :=
  [.start (.http 0) (plainServer.serve (revoking "secret")),
    .start (.http 1) (plainServer.serve (revoking "guess")),
    .call (.http 0) (.admin (.findAPIKeyByHash "secret" 0))
      (.ok ⟨"k1", "ops", "secret", some 0, none⟩),
    .call (.http 1) (.admin (.findAPIKeyByHash "guess" 0)) (.error .notFound)]

theorem revokes_allowed : Pool.Allowed plainServer.Spawns revokes := by
  intro i p h
  simp only [revokes, List.mem_cons, List.not_mem_nil, or_false, reduceCtorEq,
    Pool.Move.start.injEq] at h
  obtain ⟨rfl, rfl⟩ | ⟨rfl, rfl⟩ := h
  · exact ⟨_, rfl⟩
  · exact ⟨_, rfl⟩

/-- The server before and after the key is revoked. -/
def revokable : Serving := (Pool.play siteExec revokes (Serving.idle oneKey)).2

def revoked : Serving := (Pool.play siteExec [.fire (.http 0)] revokable).2

theorem used_path : Path plainServer.Step (Serving.idle oneKey) used revokable :=
  Pool.play_path_of_exec siteMay_exec revokes_allowed (Serving.idle oneKey)

theorem revoked_step : plainServer.Step revokable
    (.call (.http 0) (.admin (.revokeAPIKey "k1" 0)) (.ok ())) revoked :=
  ⟨_, rfl, siteMay_exec _ _, rfl⟩

theorem not_bootstrapped_plainServer (req : Request) : ¬ plainServer.Bootstrapped req :=
  fun h => h.2.1 rfl

theorem not_signed_plainServer (req : Request) : ¬ plainServer.Signed req := by
  rintro ⟨body, signature, -, h⟩
  exact (of_decide_eq_true h).1 rfl

/-- Whatever the server does at the same time, a request issues a statement that is not open only if
it presents the bootstrap key, or is a signed webhook, or presents a key that was live at some
moment since the request started. -/
theorem statement_authorised (s : Server) (σ : Site) {st : SiteStmt} {r : st.Res}
    (h : Path s.Step (Serving.idle σ) (ls₁ ++ .call (.http n) st r :: ls₂) Q) (hst : ¬ Open st) :
    ∃ req es, session (.http n) ls₁ = some (s.serve req, es) ∧
      (s.Bootstrapped req ∨ s.Signed req ∨ req.isAdmin = true ∧
        ∃ la lb M es', ls₁ = la ++ lb ∧ Path s.Step (Serving.idle σ) la M ∧
          session (.http n) la = some (s.serve req, es') ∧ es' <+: es ∧
          (∀ q, Act.start (.http n) q ∉ lb) ∧ M.world.apiKeys.Live (s.presented req)) := by
  obtain ⟨M, hpre, hrest⟩ := h.split
  obtain ⟨M', hstep, -⟩ := hrest.cons_inv
  obtain ⟨k, hk, -⟩ := hstep.call_inv
  obtain ⟨req, es, hsession, hgate⟩ := gate_of_call hpre hk hst
  refine ⟨req, es, hsession, hgate.imp_right (Or.imp_right ?_)⟩
  rintro ⟨hadmin, e, he, hfound⟩
  exact ⟨hadmin, live_of_found hpre hsession he hfound⟩

/-- The key was live when the request that revokes it was under way. -/
theorem statement_authorised_revoke : ∃ req la lb M es, used = la ++ lb ∧
    Path plainServer.Step (Serving.idle oneKey) la M ∧
    session (.http 0) la = some (plainServer.serve req, es) ∧
    (∀ q, Act.start (.http 0) q ∉ lb) ∧ M.world.apiKeys.Live (plainServer.presented req) := by
  obtain ⟨req, es, -, hboot | hsigned | ⟨-, la, lb, M, es', hla, hpath, hs, -, hlive⟩⟩ :=
    statement_authorised plainServer oneKey (used_path.snoc revoked_step) id
  · exact (not_bootstrapped_plainServer req hboot).elim
  · exact (not_signed_plainServer req hsigned).elim
  · exact ⟨req, la, lb, M, es', hla, hpath, hs, hlive⟩

/-! ## Strangers -/

/-- The request has no credential: not the bootstrap key, no signature, no key that was live at
first and none that a thread outside `T` has created. -/
structure Stranger (s : Server) (σ : Site) (T : Nat → Prop) (ls : List SiteAct) (req : Request) :
    Prop where
  bootstrapped : ¬ s.Bootstrapped req
  signed : ¬ s.Signed req
  initial : req.isAdmin = true → ¬ σ.apiKeys.Live (s.presented req)
  others : req.isAdmin = true → ∀ i st r, (∀ m, i = .http m → ¬ T m) → Act.call i st r ∈ ls →
    ¬ creates (s.presented req) st r

/-- The step changes neither the database of the services, nor a node, nor the standing of a key. -/
structure Unharmed (σ σ' : Site) : Prop where
  world : σ'.world = σ.world
  live : ∀ hash, σ'.apiKeys.Live hash ↔ σ.apiKeys.Live hash
  revoked : ∀ hash, σ'.apiKeys.Revoked hash ↔ σ.apiKeys.Revoked hash

theorem not_open_of_creates {hash : String} {st : SiteStmt} {r : st.Res} (h : creates hash st r) :
    ¬ Open st := by
  unfold creates at h
  split at h
  · exact id
  · exact h.elim

theorem KeyStep.unharmed_of_find {hash : String} {now : Time} {r : Except StoreErr APIKey}
    {t t' : APIKeys} (h : KeyStep (.admin (.findAPIKeyByHash hash now)) r t t') (hash' : String) :
    (t'.Live hash' ↔ t.Live hash') ∧ (t'.Revoked hash' ↔ t.Revoked hash') := by
  cases h with
  | find hf => exact ⟨APIKeys.live_findByHash hf, APIKeys.revoked_findByHash hf⟩
  | keep => exact ⟨Iff.rfl, Iff.rfl⟩

theorem world_of_read {q : StoreCall} {w w' : World} {r : Except StoreErr q.Out}
    (hq : q.isWrite = false) (h : MayFail (.db q) w r w') : w' = w := by
  obtain ⟨hw, -⟩ | ⟨hw, -⟩ := mayFail_cases h
  · obtain ⟨e, -, hexec⟩ | ⟨o, t, happly, -, ht⟩ := w.db.exec_cases q
    · rw [hw, hexec]
    · rw [hw, Database.ext (ht.trans (StoreCall.apply_of_isWrite_eq_false hq happly))]
  · exact hw

theorem open_unharmed {σ σ' : Site} {st : SiteStmt} {r : st.Res} (hst : Open st)
    (h : SiteMay st σ r σ') : Unharmed σ σ' := by
  cases st with
  | allow ip now =>
      have hσ : σ' = (siteExec (.allow ip now) σ).2 := (congrArg Prod.snd h).symm
      have hkeys := apiKeys_allow h
      refine ⟨?_, fun hash => by rw [hkeys], fun hash => by rw [hkeys]⟩
      rw [hσ, siteExec]
      split <;> rfl
  | admin q =>
      cases q with
      | findAPIKeyByHash hash now =>
          have hkeys := (keyStep_of_siteMay h).unharmed_of_find
          refine ⟨?_, fun hash' => (hkeys hash').1, fun hash' => (hkeys hash').2⟩
          obtain ⟨-, rfl⟩ | ⟨text, -, rfl⟩ := h
          · unfold Archive.exec
            dsimp only
            split <;> rfl
          · rfl
      | _ => exact hst.elim
  | core st =>
      have hkeys := apiKeys_core h
      refine ⟨?_, fun hash => by rw [hkeys], fun hash => by rw [hkeys]⟩
      obtain ⟨w', created, hmeets, -, rfl⟩ := h
      cases st with
      | db q =>
          cases q with
          | getUserBySubToken token => exact world_of_read rfl (meets_db.1 hmeets)
          | listInboundsForUser userID => exact world_of_read rfl (meets_db.1 hmeets)
          | _ => exact hst.elim
      | _ => exact hst.elim

/-- While strangers issue open statements only, the key that one of them presents is not live. -/
theorem Stranger.not_live {T : Nat → Prop} {req : Request} (hreq : Stranger s σ T ls req)
    (hadmin : req.isAdmin = true) {pre : List SiteAct} (hsub : pre ⊆ ls)
    (h : Path s.Step (Serving.idle σ) pre M)
    (hopen : ∀ m st r, T m → Act.call (.http m) st r ∈ pre → Open st) :
    ¬ M.world.apiKeys.Live (s.presented req) := by
  intro hlive
  obtain hfirst | ⟨i, st, r, hcall, hcreates⟩ := live_of_path h hlive
  · exact hreq.initial hadmin hfirst
  · -- somebody has created it, but a stranger cannot: that statement is not open
    by_cases hi : ∃ m, i = .http m ∧ T m
    · obtain ⟨m, rfl, hm⟩ := hi
      exact not_open_of_creates hcreates (hopen m st r hm hcall)
    · exact hreq.others hadmin i st r (fun m heq hm => hi ⟨m, heq, hm⟩) (hsub hcall) hcreates

theorem Stranger.not_found {T : Nat → Prop} {req : Request} (hreq : Stranger s σ T ls req)
    (hadmin : req.isAdmin = true) {pre : List SiteAct} (hsub : pre ⊆ ls)
    (h : Path s.Step (Serving.idle σ) pre M)
    (hopen : ∀ m st r, T m → Act.call (.http m) st r ∈ pre → Open st)
    {es : List (Event SiteStmt SiteStmt.Res)}
    (hsession : session (.http n) pre = some (s.serve req, es)) :
    ∀ e ∈ es, ¬ Found (s.presented req) e.stmt e.answer := by
  intro e he hfound
  obtain ⟨la, lb, M₀, es', hla, hpath, -, -, -, hlive⟩ := live_of_found h hsession he hfound
  have hsub' : la ⊆ pre := by
    rw [hla]
    exact List.subset_append_left la lb
  exact hreq.not_live hadmin (fun _ hb => hsub (hsub' hb)) hpath
    (fun m st r hm hcall => hopen m st r hm (hsub' hcall)) hlive

/-- All statements of strangers are open. -/
theorem open_of_strangers {T : Nat → Prop}
    (hT : ∀ m p, T m → Act.start (.http m) p ∈ ls → ∃ req, p = s.serve req ∧ Stranger s σ T ls req)
    {pre : List SiteAct} (hsub : pre ⊆ ls) (h : Path s.Step (Serving.idle σ) pre M) :
    ∀ m st r, T m → Act.call (.http m) st r ∈ pre → Open st := by
  induction h with
  | nil => exact fun _ _ _ _ hmem => (List.not_mem_nil hmem).elim
  | @snoc M M' pre a hpre hstep ih =>
      have hsub' : pre ⊆ ls := fun b hb => hsub (List.mem_append_left _ hb)
      intro m st r hm hmem
      obtain hmem | hmem := List.mem_append.1 hmem
      · exact ih hsub' m st r hm hmem
      · rw [← List.mem_singleton.1 hmem] at hstep
        obtain ⟨k, hk, -⟩ := hstep.call_inv
        obtain ⟨p, es, hsession, -, hemits⟩ := Pool.session_of_call hpre rfl hk
        obtain ⟨req, rfl, hreq⟩ := hT m p hm (hsub' (start_of_session hsession))
        obtain ⟨e, he, hadmin, hfound⟩ | ⟨-, hrest⟩ :=
          hemits.behind (serve_behind hreq.bootstrapped hreq.signed)
        · exact (hreq.not_found hadmin hsub' hpre (ih hsub') hsession e he hfound).elim
        · exact hrest.1

/-- Requests without a credential do no harm, however many there are and whatever else the server
does meanwhile: each of their statements leaves the database of the services, the nodes and the
standing of every key as they are, and the admin API refuses them all. -/
theorem strangers_stay_out (s : Server) (σ : Site) (T : Nat → Prop)
    (h : Path s.Step (Serving.idle σ) ls Q)
    (hT : ∀ m p, T m → Act.start (.http m) p ∈ ls →
      ∃ req, p = s.serve req ∧ Stranger s σ T ls req) :
    (∀ m st r ls₁ ls₂, T m → ls = ls₁ ++ Act.call (.http m) st r :: ls₂ →
      Open st ∧ ∃ M M', Path s.Step (Serving.idle σ) ls₁ M ∧
        s.Step M (.call (.http m) st r) M' ∧ Path s.Step M' ls₂ Q ∧
        Unharmed M.world M'.world) ∧
      ∀ m p es a, T m → session (.http m) ls = some (p, es) → Q.prog (.http m) = .ret a →
        ∃ req, p = s.serve req ∧ (req.isAdmin = true → a = some unauthorized) := by
  have hopen := open_of_strangers hT (List.Subset.refl _) h
  constructor
  · rintro m st r ls₁ ls₂ hm rfl
    have hst : Open st := hopen m st r hm (List.mem_append_right _ List.mem_cons_self)
    obtain ⟨M, hpre, hrest⟩ := h.split
    obtain ⟨M', hstep, hpost⟩ := hrest.cons_inv
    obtain ⟨k, -, hsem, -⟩ := hstep.call_inv
    exact ⟨hst, M, M', hpre, hstep, hpost, open_unharmed hst hsem⟩
  · intro m p es a hm hsession ha
    obtain ⟨req, rfl, hreq⟩ := hT m p hm (start_of_session hsession)
    refine ⟨req, rfl, fun hadmin => ?_⟩
    obtain ⟨-, hemits⟩ := Pool.emits_of_session h hsession
    obtain ⟨e, he, hfound⟩ | ⟨-, hrest⟩ :=
      hemits.behind (serve_admin_behind hadmin hreq.bootstrapped)
    · exact (hreq.not_found hadmin (List.Subset.refl _) h hopen hsession e he hfound).elim
    · rw [ha] at hrest
      exact hrest

/-- The guess does no harm. -/
theorem strangers_stay_out_guess :
    ∃ M M', plainServer.Step M (.call (.http 1) (.admin (.findAPIKeyByHash "guess" 0))
      (.error .notFound)) M' ∧ Unharmed M.world M'.world := by
  have hstranger : Stranger plainServer oneKey (fun m => m = 1) used (revoking "guess") := by
    refine ⟨not_bootstrapped_plainServer _, not_signed_plainServer _, fun _ => ?_, ?_⟩
    · rintro ⟨k, hk, hkh, -⟩
      rw [List.mem_singleton.1 hk] at hkh
      exact absurd hkh (by decide)
    · intro _ i st r _ hmem hcreates
      simp only [used, List.mem_cons, List.not_mem_nil, or_false, reduceCtorEq, false_or,
        Act.call.injEq] at hmem
      obtain ⟨-, rfl, -⟩ | ⟨-, rfl, -⟩ := hmem
      · exact hcreates
      · exact hcreates
  obtain ⟨hharm, -⟩ := strangers_stay_out plainServer oneKey (fun m => m = 1) used_path (by
    rintro m p rfl hmem
    simp only [used, List.mem_cons, List.not_mem_nil, or_false, reduceCtorEq,
      Act.start.injEq, SiteThread.http.injEq, false_and, true_and, false_or, one_ne_zero] at hmem
    exact ⟨_, hmem, hstranger⟩)
  obtain ⟨-, M, M', -, hstep, -, hunharmed⟩ := hharm 1 _ _ (used.take 3) [] rfl rfl
  exact ⟨M, M', hstep, hunharmed⟩

/-! ## Revocation -/

theorem revoke_of_siteMay {σ σ' : Site} {id : ID} {now : Time}
    (h : SiteMay (.admin (.revokeAPIKey id now)) σ (.ok ()) σ') :
    σ.apiKeys.revoke id now = .ok σ'.apiKeys := by
  obtain ⟨hanswer, rfl⟩ | ⟨text, hr, -⟩ := h
  · have hexec : (.ok () : Except StoreErr Unit) =
        (Archive.exec (.revokeAPIKey id now) σ.archive).1 := hanswer
    unfold Archive.exec Archive.writesKeys at hexec ⊢
    dsimp only at hexec ⊢
    split at hexec
    · cases hexec
    · next t ht =>
        exact ht
  · cases hr

/-- After a key has been revoked, a request that presents it is refused and does nothing but look it
up, whatever else the server does. -/
theorem revocation_final (s : Server) {i : SiteThread} {id : ID} {now : Time}
    (hrevoke : s.Step P (.call i (.admin (.revokeAPIKey id now)) (.ok ())) M)
    (h : Path s.Step M ls Q) {k : APIKey} (hk : k ∈ P.world.apiKeys.rows) (hid : k.id = id)
    {req : Request} {es : List (Event SiteStmt SiteStmt.Res)}
    (hsession : session (.http n) ls = some (s.serve req, es)) (hadmin : req.isAdmin = true)
    (hkey : s.presented req = k.keyHash) (hboot : ¬ s.Bootstrapped req) :
    (∀ e ∈ es, Lookup k.keyHash e.stmt) ∧
      ∀ a, Q.prog (.http n) = .ret a → a = some unauthorized := by
  have hrevoked : M.world.apiKeys.Revoked k.keyHash := by
    obtain ⟨-, -, hsem, -⟩ := hrevoke.call_inv
    exact APIKeys.revoked_of_revoke (revoke_of_siteMay hsem) hk hid
  obtain ⟨-, hemits⟩ := Pool.emits_of_session h hsession
  have hgate := serve_admin_behind hadmin hboot
  rw [hkey] at hgate
  obtain ⟨e, he, hfound⟩ | ⟨hquiet, hrest⟩ := hemits.behind hgate
  · -- a lookup cannot have found it
    obtain ⟨la, lb, M₀, es', -, hpath, -, -, -, hlive⟩ := live_of_found h hsession he hfound
    exact ((revoked_of_path hpath hrevoked).not_live hlive).elim
  · refine ⟨hquiet, fun a ha => ?_⟩
    rw [ha] at hrest
    exact hrest

/-- The key is used once more. -/
def retry : List (Pool.Move SiteThread SiteStmt SiteStmt.Res (Option Response)) :=
  [.start (.http 2) (plainServer.serve (revoking "secret")), .fire (.http 2)]

/-- It was live, and is refused. -/
theorem revocation_final_retry : revokable.world.apiKeys.Live "secret" ∧
    ∀ a, (Pool.play siteExec retry revoked).2.prog (.http 2) = .ret a →
      a = some unauthorized := by
  have hk : (⟨"k1", "ops", "secret", some 0, none⟩ : APIKey) ∈ revokable.world.apiKeys.rows :=
    List.mem_cons_self
  have hallowed : Pool.Allowed plainServer.Spawns retry := by
    intro i p h
    simp only [retry, List.mem_cons, List.not_mem_nil, or_false, reduceCtorEq,
      Pool.Move.start.injEq] at h
    obtain ⟨rfl, rfl⟩ := h
    exact ⟨_, rfl⟩
  have hpath := Pool.play_path_of_exec siteMay_exec hallowed revoked
  exact ⟨⟨_, hk, rfl, rfl⟩, (revocation_final plainServer revoked_step hpath hk rfl rfl rfl rfl
    (not_bootstrapped_plainServer _)).2⟩

end Authorisation

end XrayApi.HttpApi
