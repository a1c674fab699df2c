import XrayApi.Http.Patch
import XrayApi.Service.Admin
import XrayApi.Service.Billing
import XrayApi.Service.Subscriptions
import XrayApi.Sublink.Bundles
import XrayApi.Sublink.UserInfo

/-!
# The HTTP API

The handlers and the middleware of `internal/httpapi`: `handle` is the program that the server runs
for a request. A request has been matched to its route and its body decoded (or the decoder's error
is given); the response has a status, the headers the handlers set and the value that is encoded as
its body. The clock readings and the random values of a request come with it.

The two guards are in front of everything else: `authMiddleware` before the routes of the admin API,
`rateLimitMiddleware` before the public ones. The billing webhook checks its signature.
-/

set_option autoImplicit false

namespace XrayApi.HttpApi

open Transition Store Service

/-! ## The server and its requests -/

/-- What the server is configured with, and the functions it takes from libraries. -/
structure Server where
  bootstrapKey : String
  billingSecret : String
  publicBaseURL : String
  metricsEnabled : Bool
  updateIntervalHours : Int
  profileTitle : String
  version : String
  commit : String
  /-- Hex SHA-256. -/
  hashKey : String → String
  /-- Hex HMAC-SHA256 of a body under a secret. -/
  hmac : String → String → String
  /-- `json.Unmarshal` of a billing event. -/
  unmarshalEvent : String → Except String BillingEvent
  pem : Xray.PemParser

/-- The clock readings and random values of one request. -/
structure Draws where
  now : Time
  /-- The second reading of `Renew`. -/
  now' : Time
  id : ID
  fresh : Fresh
  token : String

/-- The body of `POST /users`; there is no external id. -/
structure CreateUserRequest where
  email : String
  planID : Option ID
  inboundIDs : List ID
  dataLimitBytes : Option Int64
  expiresAt : Option Time
  note : String
  deriving DecidableEq, Repr

def CreateUserRequest.toInput (req : CreateUserRequest) : CreateInput where
  email := req.email
  planID := req.planID
  inboundIDs := req.inboundIDs
  dataLimitBytes := req.dataLimitBytes
  expiresAt := req.expiresAt
  note := req.note
  externalID := none

/-- The query of `GET /users`; a number that is missing or no number is zero. -/
structure UserQuery where
  status : String
  planID : String
  query : String
  page : Int64
  perPage : Int64
  deriving DecidableEq, Repr

/-- A time in a query. -/
inductive TimeParam
  | absent
  | invalid
  | at (t : Time)
  deriving DecidableEq, Repr

/-- The routes behind the API key. -/
inductive AdminRoute
  | openAPI
  | systemStats
  | listNodes
  | createNode (body : Except String NodeRequest)
  | getNode (id : ID)
  | updateNode (id : ID) (body : Except String NodeRequest)
  | deleteNode (id : ID)
  | reconcileNode (id : ID)
  | listInbounds (id : ID)
  | createInbound (id : ID) (body : Except String InboundInput)
  | getInbound (id : ID)
  | updateInbound (id : ID) (body : Except String InboundInput)
  | deleteInbound (id : ID)
  | listPlans
  | createPlan (body : Except String PlanRequest)
  | getPlan (id : ID)
  | updatePlan (id : ID) (body : Except String PlanRequest)
  | deletePlan (id : ID)
  | listUsers (q : UserQuery)
  | createUser (body : Except String CreateUserRequest)
  | getUser (id : ID)
  | updateUser (id : ID) (body : Except String UpdateInput)
  | deleteUser (id : ID)
  | setUserInbounds (id : ID) (body : Except String (Slice ID))
  | suspendUser (id : ID)
  | resumeUser (id : ID)
  | renewUser (id : ID) (body : Except String RenewInput)
  | resetTraffic (id : ID)
  | rotateSubToken (id : ID)
  | userUsage (id : ID) (since upto : TimeParam) (groupBy : String)
  | listAPIKeys
  | createAPIKey (body : Except String String)
  | revokeAPIKey (id : ID)

/-- The public routes behind the rate limit. A body is `none` when it cannot be read. -/
inductive PublicRoute
  | subscription (token format userAgent : String)
  | subscriptionInfo (token : String)
  | billingWebhook (body : Option String) (signature : String)

inductive Route
  | healthz
  | metrics
  | limited (r : PublicRoute)
  | admin (r : AdminRoute)

structure Request where
  route : Route
  /-- The header `Authorization`, empty when it is missing. -/
  authorization : String
  /-- The header `X-API-Key`. -/
  xAPIKey : String
  /-- The host of the remote address. -/
  ip : String
  /-- The time at which the limiter is asked. -/
  arrival : ℚ
  draws : Draws

/-! ## Responses -/

/-- A user with its subscription URL. -/
structure UserResponse where
  user : User
  subURL : String
  deriving DecidableEq, Repr

/-- The value of a response. -/
inductive Body
  | empty
  | error (code message : String)
  | status (text : String)
  | openAPI
  | metrics
  | notFoundPage
  | stats (version commit : String) (total online offline unknown disabled : Nat)
  | nodes (l : List Node)
  | node (n : Node)
  | inbounds (l : List Inbound)
  | inbound (ib : Inbound)
  | plans (l : List Plan)
  | plan (p : Plan)
  | users (l : List UserResponse) (total : Nat) (page perPage : Int64)
  | user (u : UserResponse)
  | usage (since upto : Time) (groupBy : String) (buckets : List UsageBucket)
  | apiKeys (l : List APIKey)
  | createdKey (id : ID) (name key : String)
  | billing (action : String) (duplicate : Bool) (user : Option UserResponse)
  | v2Ray (text : String)
  | clash (cfg : Sublink.ClashConfig)
  | info (email : String) (status : UserStatus) (upload download total : Int64) (expire : Int)

structure Response where
  status : Nat
  headers : List (String × String)
  body : Body

/-- `writeJSON`. -/
def writeJSON (status : Nat) (body : Body) : Response :=
  ⟨status, [("Content-Type", "application/json")], body⟩

/-- `w.WriteHeader(http.StatusNoContent)`. -/
def noContent : Response := ⟨204, [], .empty⟩

/-- `err.Error()`; the reference of a wrapped error is quoted. -/
def errText : Err → String
  | .store e => e.text
  | .validation msg => msg
  | .userWith field value cause => "user with " ++ field ++ " " ++ value.quote ++ ": " ++ cause.text

/-- The status and the code of a store error, as `errors.Is` finds it. -/
def storeStatus : StoreErr → Nat × String
  | .notFound => (404, "not_found")
  | .conflict _ => (409, "conflict")
  | .foreignKey _ => (400, "validation_error")
  | .internal _ => (500, "internal_error")

def errStatus : Err → Nat × String
  | .store e => storeStatus e
  | .validation _ => (400, "validation_error")
  | .userWith _ _ cause => storeStatus cause

def writeError (e : Err) : Response :=
  writeJSON (errStatus e).1 (.error (errStatus e).2 (errText e))

def badRequest (msg : String) : Response := writeJSON 400 (.error "validation_error" msg)

def unauthorized : Response :=
  writeJSON 401 (.error "unauthorized" "missing or invalid API key")

/-! ## Handlers -/

/-- What the server runs for a request. -/
abbrev Handler : Type := Prog SiteStmt SiteStmt.Res Response

/-- Run an operation; its error is written. -/
def respond {α : Type} (p : SiteService α) (ok : α → Response) : Handler :=
  Prog.bind p.prog fun r => .ret (match r with
    | .ok a => ok a
    | .error e => writeError e)

/-- A body that could not be decoded is answered with the error of the decoder. -/
def decoded {α : Type} (body : Except String α) (next : α → Handler) : Handler :=
  match body with
  | .error text => .ret (badRequest text)
  | .ok a => next a

/-- `NodeStatus` counts of `handleSystemStats`. -/
def countStatus (nodes : List Node) (status : NodeStatus) : Nat :=
  nodes.countP fun n => decide (n.status = status)

/-- `page` and `perPage`, with their defaults. -/
def UserQuery.pageOf (q : UserQuery) : Int64 := if q.page < 1 then 1 else q.page

def UserQuery.perPageOf (q : UserQuery) : Int64 :=
  if q.perPage < 1 ∨ 200 < q.perPage then 50 else q.perPage

def UserQuery.filter (q : UserQuery) : UserFilter where
  status := q.status
  planID := q.planID
  query := q.query
  limit := q.perPageOf
  offset := (q.pageOf - 1) * q.perPageOf

/-- A time of a query, or its default; `none` if it cannot be read. -/
def TimeParam.orDefault (p : TimeParam) (t : Time) : Option Time :=
  match p with
  | absent => some t
  | invalid => none
  | .at t => some t

def handleUserUsage (d : Draws) (id : ID) (since upto : TimeParam) (groupBy : String) : Handler :=
  match since.orDefault (addDays d.now (-30)) with
  | none => .ret (badRequest "invalid from (want RFC3339)")
  | some since =>
    match upto.orDefault d.now with
    | none => .ret (badRequest "invalid to (want RFC3339)")
    | some upto =>
      let groupBy := if groupBy ≠ "node" then "day" else groupBy
      respond (UserService.usage id since upto groupBy) fun buckets =>
        writeJSON 200 (.usage since upto groupBy buckets)

namespace Server

variable (s : Server)

def userResponse (u : User) : UserResponse := ⟨u, s.publicBaseURL ++ "/sub/" ++ u.subToken⟩

/-- `userAction`: run an operation and render its user. -/
def userAction (p : Service User) : Handler :=
  respond (core p) fun u => writeJSON 200 (.user (s.userResponse u))

/-- The handlers of the admin API. -/
def handleAdmin (d : Draws) : AdminRoute → Handler
  | .openAPI => .ret ⟨200, [("Content-Type", "application/yaml")], .openAPI⟩
  | .systemStats => respond (core NodeService.list) fun nodes =>
      writeJSON 200 (.stats s.version s.commit nodes.length (countStatus nodes .online)
        (countStatus nodes .offline) (countStatus nodes .unknown) (countStatus nodes .disabled))
  | .listNodes => respond (core NodeService.list) fun nodes => writeJSON 200 (.nodes nodes)
  | .createNode body => decoded body fun req =>
      respond (core (NodeService.create s.pem req.toInput d.id d.now)) fun n =>
        writeJSON 201 (.node n)
  | .getNode id => respond (core (NodeService.get id)) fun n => writeJSON 200 (.node n)
  | .updateNode id body => decoded body fun req =>
      respond (core (NodeService.update s.pem id req.toInput)) fun n => writeJSON 200 (.node n)
  | .deleteNode id => respond (core (NodeService.delete id)) fun _ => noContent
  | .reconcileNode id => respond (core (NodeService.reconcile id)) fun _ =>
      writeJSON 202 (.status "reconcile_triggered")
  | .listInbounds id => respond (NodeService.listInbounds id) fun l => writeJSON 200 (.inbounds l)
  | .createInbound id body => decoded body fun inp =>
      respond (NodeService.createInbound id inp d.id) fun ib => writeJSON 201 (.inbound ib)
  | .getInbound id => respond (core (NodeService.getInbound id)) fun ib =>
      writeJSON 200 (.inbound ib)
  | .updateInbound id body => decoded body fun inp =>
      respond (core (Service.updateInbound id inp)) fun ib => writeJSON 200 (.inbound ib)
  | .deleteInbound id => respond (core (Service.deleteInbound id)) fun _ => noContent
  | .listPlans => respond PlanService.list fun l => writeJSON 200 (.plans l)
  | .createPlan body => decoded body fun req =>
      respond (core (PlanService.create req.toInput d.id)) fun p => writeJSON 201 (.plan p)
  | .getPlan id => respond (core (PlanService.get id)) fun p => writeJSON 200 (.plan p)
  | .updatePlan id body => decoded body fun req =>
      respond (core (PlanService.update id req.toInput)) fun p => writeJSON 200 (.plan p)
  | .deletePlan id => respond (core (PlanService.delete id)) fun _ => noContent
  | .listUsers q => respond (UserService.list q.filter) fun r =>
      writeJSON 200 (.users (r.1.map s.userResponse) r.2 q.pageOf q.perPageOf)
  | .createUser body => decoded body fun req =>
      respond (core (Service.create req.toInput d.fresh d.now)) fun u =>
        writeJSON 201 (.user (s.userResponse u))
  | .getUser id => s.userAction (UserService.get id)
  | .updateUser id body => decoded body fun inp => s.userAction (Service.update id inp d.now)
  | .deleteUser id => respond (core (Service.delete id)) fun _ => noContent
  | .setUserInbounds id body => decoded body fun ids => s.userAction (Service.setInbounds id ids)
  | .suspendUser id => s.userAction (Service.suspend id)
  | .resumeUser id => s.userAction (Service.resume id d.now)
  | .renewUser id body => decoded body fun inp =>
      s.userAction (Service.renew id inp d.now d.now')
  | .resetTraffic id => s.userAction (Service.resetTraffic id d.now)
  | .rotateSubToken id => s.userAction (Service.rotateSubToken id d.token)
  | .userUsage id since upto groupBy => handleUserUsage d id since upto groupBy
  | .listAPIKeys => respond APIKeyService.list fun l => writeJSON 200 (.apiKeys l)
  | .createAPIKey body => decoded body fun name =>
      respond (APIKeyService.create s.hashKey name d.id d.token) fun c =>
        writeJSON 201 (.createdKey c.key.id c.key.name c.plaintext)
  | .revokeAPIKey id => respond (APIKeyService.revoke id d.now) fun _ => noContent

/-! ### Public routes -/

/-- `setSubHeaders`. -/
def subHeaders (u : User) : List (String × String) :=
  [("Subscription-Userinfo", Sublink.userInfoHeader u)] ++
    (if 0 < s.updateIntervalHours then
      [("Profile-Update-Interval", toString s.updateIntervalHours)] else []) ++
    [("Profile-Title", "base64:" ++ String.ofList (Codec.Base64.encodePadded
        (Codec.bytes (if s.profileTitle = "" then u.email else s.profileTitle)))),
      ("Content-Disposition", "inline; filename=" ++ "\"" ++ u.email ++ "\"")]

end Server

/-- The text contains the word, whatever the case of its letters. -/
def mentions (text word : String) : Bool :=
  decide (word.toList <:+: text.toList.map Char.toLower)

def sniffFormat (userAgent : String) : String :=
  if mentions userAgent "clash" || mentions userAgent "mihomo" || mentions userAgent "meta" then
    "clash"
  else "v2ray"

def handleSubscriptionInfo (token : String) : Handler :=
  respond (core (subscriptionByToken token)) fun sub =>
    writeJSON 200 (.info sub.user.email sub.user.status sub.user.usedUploadBytes
      sub.user.usedDownloadBytes (sub.user.dataLimitBytes.getD 0)
      ((sub.user.expiresAt.map Time.unix).getD 0))

namespace Server

variable (s : Server)

/-- The body of a subscription in its format. A link that cannot be built is an error that is none
of the known ones; the headers have been set by then. -/
def render (format : String) (sub : Subscription) : Response :=
  if format = "clash" then
    ⟨200, s.subHeaders sub.user ++ [("Content-Type", "text/yaml; charset=utf-8")],
      .clash (Sublink.clash sub.user sub.inbounds)⟩
  else
    match Sublink.v2Ray sub.user sub.inbounds with
    | .error text =>
      let failed := writeError (.store (.internal text))
      ⟨failed.status, s.subHeaders sub.user ++ failed.headers, failed.body⟩
    | .ok text =>
      ⟨200, s.subHeaders sub.user ++ [("Content-Type", "text/plain; charset=utf-8")], .v2Ray text⟩

def handleSubscription (token format userAgent : String) : Handler :=
  respond (core (subscriptionByToken token))
    (s.render (if format = "" then sniffFormat userAgent else format))

/-- `service.VerifySignature`. -/
def verifySignature (body signature : String) : Bool :=
  decide (s.billingSecret ≠ "" ∧ signature ≠ "" ∧ s.hmac s.billingSecret body = signature)

def maxWebhookBody : Nat := 1048576

/-- The body that is handed to the billing service: it can be read, it is not too long and its
signature is good. -/
def handleBillingWebhook (d : Draws) (body : Option String) (signature : String) : Handler :=
  if s.billingSecret = "" then .ret ⟨404, [], .notFoundPage⟩
  else
    match body.filter fun b => decide (b.utf8ByteSize ≤ maxWebhookBody) with
    | none => .ret (badRequest "unreadable or oversized body")
    | some b =>
      if s.verifySignature b signature then
        respond (core (process (s.unmarshalEvent b) ⟨d.fresh, d.now, d.now'⟩)) fun res =>
          writeJSON 200 (.billing res.action res.duplicate (res.user.map s.userResponse))
      else
        .ret (writeJSON 401 (.error "invalid_signature" "signature verification failed"))

def handlePublic (d : Draws) : PublicRoute → Handler
  | .subscription token format userAgent => s.handleSubscription token format userAgent
  | .subscriptionInfo token => handleSubscriptionInfo token
  | .billingWebhook body signature => s.handleBillingWebhook d body signature

end Server

/-! ## Middleware -/

/-- `strings.TrimSpace`. -/
def trimSpace (s : String) : String :=
  String.ofList (((s.toList.dropWhile isSpace).reverse.dropWhile isSpace).reverse)

/-- `strings.CutPrefix(h, "Bearer ")`. -/
def cutBearer (h : String) : Option String :=
  if "Bearer ".toList.isPrefixOf h.toList then
    some (String.ofList (h.toList.drop "Bearer ".toList.length))
  else none

def extractKey (req : Request) : String :=
  match cutBearer req.authorization with
  | some after => trimSpace after
  | none => trimSpace req.xAPIKey

/-- `authMiddleware`. -/
def Server.authMiddleware (s : Server) (req : Request) (next : Handler) : Handler :=
  Prog.bind (APIKeyService.verify s.hashKey (extractKey req) s.bootstrapKey req.draws.now) fun ok =>
    if ok then next else .ret unauthorized

/-- `rateLimitMiddleware`. -/
def rateLimitMiddleware (req : Request) (next : Handler) : Handler :=
  .call (.allow req.ip req.arrival) fun ok =>
    if ok then next
    else .ret ⟨429, [("Retry-After", "60"), ("Content-Type", "application/json")],
      .error "rate_limited" "too many requests"⟩

/-- What the server runs for a request. -/
def Server.handle (s : Server) (req : Request) : Handler :=
  match req.route with
  | .healthz => .ret (writeJSON 200 (.status "ok"))
  | .metrics => .ret (if s.metricsEnabled then ⟨200, [], .metrics⟩ else ⟨404, [], .notFoundPage⟩)
  | .limited r => rateLimitMiddleware req (s.handlePublic req.draws r)
  | .admin r => s.authMiddleware req (s.handleAdmin req.draws r)

end XrayApi.HttpApi
