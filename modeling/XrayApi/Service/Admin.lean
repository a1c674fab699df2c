import XrayApi.Service.Inbounds
import XrayApi.Service.Nodes
import XrayApi.Service.Plans
import XrayApi.System.Site

/-!
# The services of the admin API

The operations of `internal/service` that need more of the database than the other services: the
API keys, the creation of inbounds, the listings and the usage reports. With them comes
`runSnapshotPruner` of `internal/worker/expiry.go`.

`hashKey` is the hash of a key, hex SHA-256 in the source.
-/

set_option autoImplicit false

namespace XrayApi

open Transition Store

/-! ## API keys -/

namespace APIKeyService

/-- What a creation returns: the row, and the key itself, which is not stored. -/
structure CreatedKey where
  key : APIKey
  plaintext : String
  deriving DecidableEq, Repr

/-- `id` is the new UUID and `token` the random token. -/
def create (hashKey : String → String) (name : String) (id : ID) (token : String) :
    SiteService CreatedKey :=
  if Service.isBlank name then Req.throw (.validation "name is required")
  else do
    let plaintext := "xapi_" ++ token
    let k : APIKey := ⟨id, name, hashKey plaintext, none, none⟩
    ask (.createAPIKey k)
    pure ⟨k, plaintext⟩

def list : SiteService (List APIKey) := ask .listAPIKeys

def revoke (id : ID) (now : Time) : SiteService Unit := ask (.revokeAPIKey id now)

/-- A key is good if it is the bootstrap key, or if its hash is that of a live key. A lookup that
fails counts as a key that is not good. -/
def verify (hashKey : String → String) (plaintext bootstrap : String) (now : Time) :
    Prog SiteStmt SiteStmt.Res Bool :=
  if plaintext = "" then .ret false
  else if bootstrap ≠ "" ∧ plaintext = bootstrap then .ret true
  else .call (.admin (.findAPIKeyByHash (hashKey plaintext) now)) fun r => .ret r.isOk

end APIKeyService

/-! ## Nodes and plans -/

namespace NodeService

def get (id : ID) : Service Node := query (.getNode id)

def list : Service (List Node) := query .listNodes

def reconcile (id : ID) : Service Unit := do
  let _ ← query (.getNode id)
  trigger id

/-- The row of a new inbound. -/
def newInbound (inp : Service.InboundInput) (id nodeID : ID) : Inbound :=
  { Service.inboundFromInput inp with id := id, nodeID := nodeID }

/-- `id` is the new UUID. -/
def createInbound (nodeID : ID) (inp : Service.InboundInput) (id : ID) : SiteService Inbound := do
  let _ ← core (query (.getNode nodeID))
  match inp.validate with
  | .error e => Req.throw e
  | .ok _ => do
    ask (.createInbound (newInbound inp id nodeID))
    core (query (.getInbound id))

def getInbound (id : ID) : Service Inbound := query (.getInbound id)

def listInbounds (nodeID : ID) : SiteService (List Inbound) := ask (.listInboundsByNode nodeID)

end NodeService

namespace PlanService

def list : SiteService (List Plan) := ask .listPlans

def get (id : ID) : Service Plan := query (.getPlan id)

end PlanService

/-! ## Users -/

namespace UserService

def get (id : ID) : Service User := query (.getUser id)

/-- The page and the number of all users the filter selects; the count comes first. -/
def list (f : UserFilter) : SiteService (List User × Nat) := do
  let total : Nat ← ask (.countUsers f)
  let users : List User ← ask (.selectUsers f)
  pure (users, total)

def usage (id : ID) (since upto : Time) (groupBy : String) : SiteService (List UsageBucket) := do
  let _ ← core (query (.getUser id))
  ask (.userUsage id since upto groupBy)

end UserService

/-! ## Retention -/

namespace Worker

/-- One round of the snapshot pruner; an error is logged and dropped. -/
def prune (retentionDays : Int) (now : Time) : Prog SiteStmt SiteStmt.Res Unit :=
  if retentionDays ≤ 0 then .ret ()
  else .call (.admin (.pruneSnapshots (addDays now (-retentionDays)))) fun _ => .ret ()

end Worker

end XrayApi
