import Mathlib.Data.Option.Basic
import Mathlib.Data.Int.Order.Basic

/-!
# Domain types

The records of `internal/domain` and the error values of the store and service layers. Identifiers
are canonical UUID texts. Byte counts are `Int64`, as in the source, so sums made in Go wrap around;
sums made in SQL are checked (`Store.fitsBigint`).

Timestamps are whole microseconds, the resolution of `TIMESTAMPTZ`. The columns `created_at`,
`updated_at`, `last_synced_at` and `received_at` are written and never read by the modelled code,
and are left out.
-/

set_option autoImplicit false

namespace XrayApi

/-- A UUID in canonical text form. -/
abbrev ID : Type := String

/-- Microseconds since the epoch. -/
abbrev Time : Type := Int

/-- One day of 24 hours. -/
def day : Time := 24 * 60 * 60 * 1000000

/-- `t.AddDate(0, 0, days)` in UTC. -/
def addDays (t : Time) (days : Int) : Time := t + days * day

/-- A slice that was decoded from JSON. `none` is the nil slice, which an absent key or `null`
leaves; it has no elements, but a query gets NULL for it and not an empty array. -/
abbrev Slice (α : Type) : Type := Option (List α)

namespace Slice

variable {α : Type}

def elems (s : Slice α) : List α := s.getD []

/-- `x <> ALL(s)`, which is not true of any `x` when `s` is NULL. -/
def excludes [DecidableEq α] (s : Slice α) (x : α) : Bool :=
  match s with
  | none => false
  | some l => decide (x ∉ l)

@[simp] theorem elems_some (l : List α) : elems (some l) = l := rfl

@[simp] theorem elems_none : elems (none : Slice α) = [] := rfl

@[simp] theorem excludes_some [DecidableEq α] (l : List α) (x : α) :
    excludes (some l) x = decide (x ∉ l) := rfl

@[simp] theorem excludes_none [DecidableEq α] (x : α) : excludes none x = false := rfl

/-- What is excluded is not among the elements. -/
theorem not_mem_of_excludes [DecidableEq α] {s : Slice α} {x : α} (h : s.excludes x = true) :
    x ∉ s.elems := by
  cases s with
  | none => cases h
  | some l => exact of_decide_eq_true h

end Slice

/-- The lifecycle state of a user. The API stores any text an administrator sends; `other` is a text
that is none of the four constants. -/
inductive UserStatus
  | active
  | suspended
  | expired
  | disabled
  | other (text : String)
  deriving DecidableEq, Repr

/-- Whether an assignment has been pushed to its node. -/
inductive SyncStatus
  | pending
  | applied
  | failed
  | removing
  deriving DecidableEq, Repr

/-- The proxy protocol of an inbound; `other` is a name the control plane does not provision. -/
inductive Protocol
  | vless
  | vmess
  | trojan
  | shadowsocks
  | other (name : String)
  deriving DecidableEq, Repr

/-- `Protocol.Valid`. -/
def Protocol.valid : Protocol → Bool
  | other _ => false
  | _ => true

/-- The ciphers `ShadowsocksMethods` offers. -/
def shadowsocksMethods : List String :=
  ["aes-128-gcm", "aes-256-gcm", "chacha20-ietf-poly1305", "xchacha20-ietf-poly1305", "none"]

/-- The stream transport of an inbound; `other` is a text that is no constant, the empty one
included. -/
inductive Network
  | tcp
  | ws
  | grpc
  | httpupgrade
  | xhttp
  | other (text : String)
  deriving DecidableEq, Repr

/-- `Network.Valid`. -/
def Network.valid : Network → Bool
  | other _ => false
  | _ => true

/-- The stream security of an inbound; `other` is a text that is no constant. -/
inductive Security
  | none
  | tls
  | reality
  | other (text : String)
  deriving DecidableEq, Repr

/-- `Security.Valid`. -/
def Security.valid : Security → Bool
  | other _ => false
  | _ => true

/-- The observed health of a node. -/
inductive NodeStatus
  | unknown
  | online
  | offline
  | disabled
  | other (text : String)
  deriving DecidableEq, Repr

/-- A node: how its gRPC API is reached and the outcome of the last probes. The three PEM texts are
the pinned CA and the client certificate with its key. -/
structure Node where
  id : ID
  name : String
  apiAddress : String
  apiPort : Int
  apiTLS : Bool
  apiTLSServerName : String
  apiTLSInsecure : Bool
  apiCACert : String
  apiClientCert : String
  apiClientKey : String
  status : NodeStatus
  lastSeenAt : Option Time
  lastError : String
  deriving DecidableEq, Repr

/-- A node without TLS that has not been probed yet. -/
def Node.plain (id : ID) : Node where
  id := id
  name := id
  apiAddress := id
  apiPort := 10085
  apiTLS := false
  apiTLSServerName := ""
  apiTLSInsecure := false
  apiCACert := ""
  apiClientCert := ""
  apiClientKey := ""
  status := .unknown
  lastSeenAt := none
  lastError := ""

/-- An inbound of a node's configuration. The reconciler pushes the tag, the protocol, the flow and
the method; the rest is the connection advertised to clients. -/
structure Inbound where
  id : ID
  nodeID : ID
  tag : String
  protocol : Protocol
  listenPort : Int
  publicHost : String
  publicPort : Int
  network : Network
  security : Security
  wsPath : String
  hostHeader : String
  grpcServiceName : String
  sni : String
  fingerprint : String
  realityPublicKey : String
  realityShortID : String
  flow : String
  method : String
  xhttpMode : String
  remark : String
  deriving DecidableEq, Repr

/-- An inbound on port 443 of its node, over plain TCP. -/
def Inbound.plain (id nodeID : ID) (tag : String) (protocol : Protocol) : Inbound where
  id := id
  nodeID := nodeID
  tag := tag
  protocol := protocol
  listenPort := 443
  publicHost := nodeID
  publicPort := 443
  network := .tcp
  security := .none
  wsPath := ""
  hostHeader := ""
  grpcServiceName := ""
  sni := ""
  fingerprint := ""
  realityPublicKey := ""
  realityShortID := ""
  flow := ""
  method := ""
  xhttpMode := ""
  remark := ""

/-- A sellable plan; an absent limit or duration means unlimited. -/
structure Plan where
  id : ID
  name : String
  dataLimitBytes : Option Int64
  durationDays : Option Int
  deriving DecidableEq, Repr

/-- A provisioned subscriber. -/
structure User where
  id : ID
  email : String
  uuid : ID
  trojanPassword : String
  planID : Option ID
  status : UserStatus
  dataLimitBytes : Option Int64
  usedUploadBytes : Int64
  usedDownloadBytes : Int64
  expiresAt : Option Time
  subToken : String
  note : String
  externalID : Option String
  deriving DecidableEq, Repr

namespace User

/-- An active user without plan, limit, expiry or usage; the secrets repeat the id. -/
def plain (id : ID) (email : String) : User where
  id := id
  email := email
  uuid := id
  trojanPassword := id
  planID := none
  status := .active
  dataLimitBytes := none
  usedUploadBytes := 0
  usedDownloadBytes := 0
  expiresAt := none
  subToken := id
  note := ""
  externalID := none

/-- The combined usage, a wrapping 64-bit sum. -/
def usedTotalBytes (u : User) : Int64 := u.usedUploadBytes + u.usedDownloadBytes

/-- Usage has reached the data limit, if any. -/
def overQuota (u : User) : Bool :=
  match u.dataLimitBytes with
  | none => false
  | some limit => decide (limit ≤ u.usedTotalBytes)

/-- The expiry is set and not after `now`. -/
def expiredAt (u : User) (now : Time) : Bool :=
  match u.expiresAt with
  | none => false
  | some t => decide (t ≤ now)

theorem expiredAt_eq_true {u : User} {now : Time} :
    u.expiredAt now = true ↔ ∃ t, u.expiresAt = some t ∧ t ≤ now := by
  unfold expiredAt
  cases u.expiresAt with
  | none => simp
  | some t => simp

theorem expiredAt_mono {u : User} {now later : Time} (h : u.expiredAt now = true)
    (hle : now ≤ later) : u.expiredAt later = true := by
  obtain ⟨t, ht, htn⟩ := expiredAt_eq_true.1 h
  exact expiredAt_eq_true.2 ⟨t, ht, Int.le_trans htn hle⟩

end User

/-- The desired presence of a user on an inbound. -/
structure UserInbound where
  userID : ID
  inboundID : ID
  syncStatus : SyncStatus
  lastError : String
  deriving DecidableEq, Repr

/-- One polling interval's traffic of a user on a node. -/
structure TrafficSnapshot where
  userID : ID
  nodeID : ID
  uplinkBytes : Int64
  downlinkBytes : Int64
  collectedAt : Time
  deriving DecidableEq, Repr

/-- A recorded webhook event. -/
structure WebhookEvent where
  id : String
  action : String
  deriving DecidableEq, Repr

/-! ## Errors -/

/-- What a store or gRPC call fails with: the errors `mapErr` and `requireRow` produce, or any other
error with its text. -/
inductive StoreErr
  | notFound
  | conflict (constraint : String)
  | foreignKey (constraint : String)
  | internal (text : String)
  deriving DecidableEq, Repr

/-- `err.Error()`. -/
def StoreErr.text : StoreErr → String
  | .notFound => "not found"
  | .conflict c => "conflict: " ++ c
  | .foreignKey c => "validation error: " ++ c
  | .internal t => t

/-- What a service call returns as its error: a store error, a `ValidationError`, or a store error
wrapped with the user reference that was looked up (`user with <field> <value>: <cause>`). -/
inductive Err
  | store (e : StoreErr)
  | validation (msg : String)
  | userWith (field value : String) (cause : StoreErr)
  deriving DecidableEq, Repr

end XrayApi
