import XrayApi.Service.Users

/-!
# The billing webhook

`BillingService.Process` of `internal/service/billing.go`. The body has been checked against its
signature; `decoded` is what `json.Unmarshal` makes of it, or its error text.
-/

set_option autoImplicit false

namespace XrayApi.Service

open Transition Store

structure ProvisionPayload where
  email : String
  planID : Option ID
  inboundIDs : List ID
  dataLimitBytes : Option Int64
  expiresAt : Option Time
  note : String
  deriving DecidableEq, Repr

structure RenewPayload where
  days : Int
  resetTraffic : Bool
  planID : Option ID
  deriving DecidableEq, Repr

structure BillingEvent where
  eventID : String
  action : String
  externalID : String
  email : String
  provision : Option ProvisionPayload
  renew : Option RenewPayload
  deriving DecidableEq, Repr

structure BillingResult where
  duplicate : Bool
  action : String
  user : Option User
  deriving DecidableEq, Repr

/-- The actions of the two `switch` statements. -/
inductive Action
  | provision
  | renew
  | suspend
  | resume
  | cancel
  deriving DecidableEq, Repr

def parseAction (s : String) : Option Action :=
  if s = "provision" then some .provision
  else if s = "renew" then some .renew
  else if s = "suspend" then some .suspend
  else if s = "resume" then some .resume
  else if s = "cancel" then some .cancel
  else none

/-- The clock readings and random values of one delivery. -/
structure Delivery where
  fresh : Fresh
  now : Time
  now' : Time

/-- A failed lookup of the user an event refers to, with the reference. -/
def orUserWith (field value : String) : Except StoreErr User → Service User
  | .ok u => pure u
  | .error e => Req.throw (.userWith field value e)

/-- The user of an event: by external id, else by email. -/
def resolveUser (ev : BillingEvent) : Service User :=
  if ev.externalID ≠ "" then do
    let r ← attempt (.getUserByExternalID ev.externalID)
    orUserWith "external_id" ev.externalID r
  else if ev.email ≠ "" then do
    let r ← attempt (.getUserByEmail ev.email)
    orUserWith "email" ev.email r
  else Req.throw (.validation "external_id or email is required")

def createInput (ev : BillingEvent) (p : ProvisionPayload) : CreateInput where
  email := p.email
  planID := p.planID
  inboundIDs := p.inboundIDs
  dataLimitBytes := p.dataLimitBytes
  expiresAt := p.expiresAt
  note := p.note
  externalID := some ev.externalID

def renewInput (p : RenewPayload) : RenewInput where
  days := p.days
  resetTraffic := p.resetTraffic
  planID := p.planID

/-- A user that exists is returned as it is; without one it is created. -/
def orCreate (ev : BillingEvent) (p : ProvisionPayload) (d : Delivery) :
    Except StoreErr User → Service User
  | .ok u => pure u
  | .error .notFound => create (createInput ev p) d.fresh d.now
  | .error e => Req.throw (.store e)

def provision (ev : BillingEvent) (d : Delivery) : Service User :=
  match ev.provision with
  | none => Req.throw (.validation "provision payload is required")
  | some p =>
    if ev.externalID = "" then Req.throw (.validation "external_id is required for provision")
    else do
      let r ← attempt (.getUserByExternalID ev.externalID)
      orCreate ev p d r

def renewEvent (ev : BillingEvent) (d : Delivery) : Service User :=
  match ev.renew with
  | none => Req.throw (.validation "renew payload is required")
  | some p => do
    let u ← resolveUser ev
    renew u.id (renewInput p) d.now d.now'

/-- Disable the user and keep the record. -/
def cancel (ev : BillingEvent) : Service Unit := do
  let u ← resolveUser ev
  let _ ← suspend u.id
  pure ()

def withUser (ev : BillingEvent) (fn : ID → Service User) : Service User := do
  let u ← resolveUser ev
  fn u.id

/-- The second `switch` of `Process`; `cancel` returns no user. -/
def dispatch (action : Action) (ev : BillingEvent) (d : Delivery) : Service (Option User) :=
  match action with
  | .provision => do
    let u ← provision ev d
    pure (some u)
  | .renew => do
    let u ← renewEvent ev d
    pure (some u)
  | .suspend => do
    let u ← withUser ev suspend
    pure (some u)
  | .resume => do
    let u ← withUser ev fun id => resume id d.now
    pure (some u)
  | .cancel => do
    cancel ev
    pure none

/-- The part of `Process` after the checks of the body: record the event id, and execute the action
if it is new. -/
def execute (action : Action) (ev : BillingEvent) (d : Delivery) : Service BillingResult := do
  let fresh : Bool ← query (.recordWebhookEvent ev.eventID ev.action)
  if fresh then do
    let user ← dispatch action ev d
    pure ⟨false, ev.action, user⟩
  else pure ⟨true, ev.action, none⟩

def process (decoded : Except String BillingEvent) (d : Delivery) : Service BillingResult :=
  match decoded with
  | .error text => Req.throw (.validation ("invalid JSON: " ++ text))
  | .ok ev =>
    if ev.eventID = "" then Req.throw (.validation "event_id is required")
    else
      match parseAction ev.action with
      | none => Req.throw (.validation "action must be provision|renew|suspend|resume|cancel")
      | some action => execute action ev d

end XrayApi.Service
