import XrayApi.Service.Users
import XrayApi.Worker.Health
import XrayApi.Xray.Tls

/-!
# The node service

The operations of `internal/service/nodes.go` on nodes, and `Manager.Start`. A creation and an
update write the row before they start the actor; a deletion stops the actor before it deletes the
row.
-/

set_option autoImplicit false

namespace XrayApi.NodeService

open Transition Store Relational Xray

/-- The payload of a creation or an update. A PEM text that is `none` leaves the stored one. -/
structure NodeInput where
  name : String
  apiAddress : String
  apiPort : Int
  apiTLS : Bool
  apiTLSServerName : String
  apiTLSInsecure : Bool
  apiCACert : Option String
  apiClientCert : Option String
  apiClientKey : Option String
  deriving DecidableEq, Repr

namespace NodeInput

/-- The row with the PEM texts of the payload. -/
def withMaterial (inp : NodeInput) (n : Node) : Node :=
  { n with
    apiCACert := inp.apiCACert.getD n.apiCACert
    apiClientCert := inp.apiClientCert.getD n.apiClientCert
    apiClientKey := inp.apiClientKey.getD n.apiClientKey }

/-- Take over the PEM texts and check the result. -/
def applyTLSMaterial (pem : PemParser) (inp : NodeInput) (n : Node) : Except Err Node :=
  match validateTLSMaterial pem (inp.withMaterial n).apiCACert (inp.withMaterial n).apiClientCert
      (inp.withMaterial n).apiClientKey with
  | .error e => .error (.validation e)
  | .ok _ => .ok (inp.withMaterial n)

/-- The new row, without PEM texts. -/
def newNode (inp : NodeInput) (id : ID) : Node where
  id := id
  name := inp.name
  apiAddress := inp.apiAddress
  apiPort := inp.apiPort
  apiTLS := inp.apiTLS
  apiTLSServerName := inp.apiTLSServerName
  apiTLSInsecure := inp.apiTLSInsecure
  apiCACert := ""
  apiClientCert := ""
  apiClientKey := ""
  status := .unknown
  lastSeenAt := none
  lastError := ""

/-- The columns an update takes from its payload, the PEM texts apart. An empty name or address and
a port of zero leave the stored value; the three TLS settings are copied as they are. -/
def patch (inp : NodeInput) (n : Node) : Node :=
  { n with
    name := if inp.name ≠ "" then inp.name else n.name
    apiAddress := if inp.apiAddress ≠ "" then inp.apiAddress else n.apiAddress
    apiPort := if inp.apiPort ≠ 0 then inp.apiPort else n.apiPort
    apiTLS := inp.apiTLS
    apiTLSServerName := inp.apiTLSServerName
    apiTLSInsecure := inp.apiTLSInsecure }

end NodeInput

/-- Dial the node and ping it once. -/
def probe (nodeID : ID) : Service (NodeStatus × String) := do
  let r ← Worker.ping nodeID
  match r with
  | .error e => pure (.offline, e.text)
  | .ok _ => pure (.online, "")

/-- The row a creation hands to the manager. -/
def probed (n : Node) (outcome : NodeStatus × String) (now : Time) : Node :=
  { n with
    status := outcome.1
    lastError := outcome.2
    lastSeenAt := if outcome.1 = .online then some now else n.lastSeenAt }

/-- The part of a creation after the insert. -/
def announce (n : Node) (now : Time) : Service Node := do
  let outcome ← probe n.id
  let _ ← attempt (.setNodeHealth n.id (probed n outcome now).status
    (probed n outcome now).lastError (probed n outcome now).lastSeenAt)
  startNode (probed n outcome now)
  query (.getNode n.id)

/-- `NodeService.Create`; `id` is the new UUID and `now` the clock after the probe. -/
def create (pem : PemParser) (inp : NodeInput) (id : ID) (now : Time) : Service Node :=
  if Service.isBlank inp.name then Req.throw (.validation "name is required")
  else if inp.apiAddress = "" then Req.throw (.validation "api_address is required")
  else if inp.apiPort ≤ 0 ∨ 65535 < inp.apiPort then
    Req.throw (.validation "api_port must be 1-65535")
  else
    match inp.applyTLSMaterial pem (inp.newNode id) with
    | .error e => Req.throw e
    | .ok n => do
      query (.createNode n)
      announce n now

def update (pem : PemParser) (id : ID) (inp : NodeInput) : Service Node := do
  let n : Node ← query (.getNode id)
  match inp.applyTLSMaterial pem (inp.patch n) with
  | .error e => Req.throw e
  | .ok n' => do
    query (.updateNode n')
    startNode n'
    query (.getNode id)

def delete (id : ID) : Service Unit := do
  stopNode id
  query (.deleteNode id)

/-- Start the actors of the rows that are not disabled. -/
def startAll : List Node → Service Unit
  | [] => pure ()
  | n :: rest =>
    if n.status ≠ .disabled then do
      startNode n
      startAll rest
    else startAll rest

/-- `Manager.Start`, up to the sweepers. -/
def start : Service Unit := do
  let nodes : List Node ← query .listNodes
  startAll nodes

/-! ## The row of an operation -/

section Rows

variable {pem : PemParser} {inp : NodeInput} {n n' : Node}

@[simp] theorem id_withMaterial : (inp.withMaterial n).id = n.id := rfl

@[simp] theorem id_patch : (inp.patch n).id = n.id := rfl

@[simp] theorem id_newNode {id : ID} : (inp.newNode id).id = id := rfl

@[simp] theorem id_probed {outcome : NodeStatus × String} {now : Time} :
    (probed n outcome now).id = n.id := rfl

/-- The row that passes is the merged one, and it passes as a whole. -/
theorem applyTLSMaterial_eq_ok :
    inp.applyTLSMaterial pem n = .ok n' ↔ n' = inp.withMaterial n ∧ Usable pem n' := by
  unfold NodeInput.applyTLSMaterial Usable
  split
  · next e he =>
      constructor
      · intro h
        cases h
      · rintro ⟨rfl, hok⟩
        rw [he] at hok
        cases hok
  · next u he =>
      constructor
      · intro h
        cases h
        exact ⟨rfl, he⟩
      · rintro ⟨rfl, -⟩
        rfl

theorem applyTLSMaterial_id (h : inp.applyTLSMaterial pem n = .ok n') : n'.id = n.id := by
  rw [(applyTLSMaterial_eq_ok.1 h).1, id_withMaterial]

end Rows

section Store

variable {t t' : Tables} {id : ID} {n : Node}

theorem getNode_eq_ok : getNode t id = .ok n ↔ lookup Node.id id t.nodes = some n := by
  unfold getNode oneRow
  cases lookup Node.id id t.nodes with
  | none => simp
  | some v => simp

theorem getNode_id (h : getNode t id = .ok n) : n.id = id :=
  key_of_lookup (getNode_eq_ok.1 h)

theorem getNode_mem (h : getNode t id = .ok n) : n ∈ t.nodes :=
  mem_of_lookup (getNode_eq_ok.1 h)

/-- A row with a key that is there is found. -/
theorem exists_getNode_iff : (∃ n, getNode t id = .ok n) ↔ id ∈ t.nodes.map Node.id := by
  constructor
  · rintro ⟨n, h⟩
    exact List.mem_map.2 ⟨n, getNode_mem h, getNode_id h⟩
  · intro h
    obtain ⟨n, hn⟩ := exists_lookup_of_mem h
    exact ⟨n, getNode_eq_ok.2 hn⟩

end Store

end XrayApi.NodeService
