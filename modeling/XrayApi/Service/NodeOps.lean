import XrayApi.Service.Nodes

/-!
# Control points of the node operations

`NodeOp` has the requests of the node service and the health writes of the actors. `Point` names
where such an operation can stand, `Point.code` is the rest of its program from there, and
`Point.Step` says what one statement and its answer lead to. `code_step` shows that the programs
take these steps and no others; facts about interleaved operations are proved from `Point.Step`.
-/

set_option autoImplicit false

namespace XrayApi.NodeService

open Transition Store Relational Xray

/-- An operation on nodes, with its arguments and clock readings. -/
inductive NodeOp
  | create (inp : NodeInput) (id : ID) (now : Time)
  | update (id : ID) (inp : NodeInput)
  | delete (id : ID)
  | setHealth (id : ID) (status : NodeStatus) (lastErr : String) (seenAt : Option Time)

/-- The operation; its result is dropped. -/
def NodeOp.service (pem : PemParser) : NodeOp → Service Unit
  | create inp id now => do
    let _ ← NodeService.create pem inp id now
    pure ()
  | update id inp => do
    let _ ← NodeService.update pem id inp
    pure ()
  | delete id => NodeService.delete id
  | setHealth id status lastErr seenAt => query (.setNodeHealth id status lastErr seenAt)

/-- Where an operation stands. -/
inductive Point
  | done (r : Except Err Unit)
  | insert (n : Node) (now : Time)
  | dial (n : Node) (now : Time)
  | ping (n : Node) (now : Time)
  | record (n : Node) (outcome : NodeStatus × String) (now : Time)
  | launch (n : Node) (id : ID)
  | readBack (id : ID)
  | load (id : ID) (inp : NodeInput)
  | write (n : Node) (id : ID)
  | halt (id : ID)
  | erase (id : ID)
  | heal (id : ID) (status : NodeStatus) (lastErr : String) (seenAt : Option Time)

namespace Point

/-- The status and error text a probe leads to. -/
def outcome : Except StoreErr UInt32 → NodeStatus × String
  | .error e => (.offline, e.text)
  | .ok _ => (.online, "")

/-- The rest of a creation once the status is known. -/
def settle (n : Node) (result : NodeStatus × String) (now : Time) : Service Node := do
  let _ ← attempt (.setNodeHealth n.id (probed n result now).status (probed n result now).lastError
    (probed n result now).lastSeenAt)
  startNode (probed n result now)
  query (.getNode n.id)

/-- Write the row, start the actor and read the row back. -/
def persist (n : Node) (id : ID) : Service Node := do
  query (.updateNode n)
  startNode n
  query (.getNode id)

/-- A request whose result is dropped. -/
def discard (p : Service Node) : Job :=
  Req.prog do
    let _ ← p
    pure ()

/-- The rest of the program. -/
def code (pem : PemParser) : Point → Job
  | done r => Prog.ret r
  | insert n now => discard do
    query (.createNode n)
    announce n now
  | dial n now => discard (announce n now)
  | ping n now => Prog.call (.ping n.id) fun r => discard (settle n (outcome r) now)
  | record n result now => discard (settle n result now)
  | launch n id => discard do
    startNode n
    query (.getNode id)
  | readBack id => discard (query (.getNode id))
  | load id inp => discard (update pem id inp)
  | write n id => discard (persist n id)
  | halt id => (delete id).prog
  | erase id => (query (.deleteNode id)).prog
  | heal id status lastErr seenAt => (query (.setNodeHealth id status lastErr seenAt)).prog

/-- Where an operation starts; a creation that is refused is done at once. -/
def ofOp (pem : PemParser) : NodeOp → Point
  | .create inp id now =>
    if Service.isBlank inp.name then done (.error (.validation "name is required"))
    else if inp.apiAddress = "" then done (.error (.validation "api_address is required"))
    else if inp.apiPort ≤ 0 ∨ 65535 < inp.apiPort then
      done (.error (.validation "api_port must be 1-65535"))
    else
      match inp.applyTLSMaterial pem (inp.newNode id) with
      | .error e => done (.error e)
      | .ok n => insert n now
  | .update id inp => load id inp
  | .delete id => halt id
  | .setHealth id status lastErr seenAt => heal id status lastErr seenAt

/-- After the row was read by an update. -/
def loaded (pem : PemParser) (id : ID) (inp : NodeInput) (n : Node) : Point :=
  match inp.applyTLSMaterial pem (inp.patch n) with
  | .error e => done (.error e)
  | .ok n' => write n' id

/-- One statement of an operation, its answer and the next control point. -/
inductive Step (pem : PemParser) : Point → (s : Stmt) → s.Res → Point → Prop
  | inserted (n : Node) (now : Time) :
      Step pem (insert n now) (.db (.createNode n)) (.ok ()) (dial n now)
  | insertFailed (n : Node) (now : Time) (e : StoreErr) :
      Step pem (insert n now) (.db (.createNode n)) (.error e) (done (.error (.store e)))
  | dialed (n : Node) (now : Time) : Step pem (dial n now) (.dial n.id) (.ok ()) (ping n now)
  | dialFailed (n : Node) (now : Time) (e : StoreErr) :
      Step pem (dial n now) (.dial n.id) (.error e) (record n (.offline, e.text) now)
  | pinged (n : Node) (now : Time) (r : Except StoreErr UInt32) :
      Step pem (ping n now) (.ping n.id) r (record n (outcome r) now)
  | recorded (n : Node) (result : NodeStatus × String) (now : Time) (r : Except StoreErr Unit) :
      Step pem (record n result now) (.db (.setNodeHealth n.id (probed n result now).status
        (probed n result now).lastError (probed n result now).lastSeenAt)) r
        (launch (probed n result now) n.id)
  | launched (n : Node) (id : ID) : Step pem (launch n id) (.startNode n) () (readBack id)
  | readBack (id : ID) (r : Except StoreErr Node) :
      Step pem (readBack id) (.db (.getNode id)) r (done ((r.mapError Err.store).map fun _ => ()))
  | loaded (id : ID) (inp : NodeInput) (n : Node) :
      Step pem (load id inp) (.db (.getNode id)) (.ok n) (loaded pem id inp n)
  | loadFailed (id : ID) (inp : NodeInput) (e : StoreErr) :
      Step pem (load id inp) (.db (.getNode id)) (.error e) (done (.error (.store e)))
  | written (n : Node) (id : ID) :
      Step pem (write n id) (.db (.updateNode n)) (.ok ()) (launch n id)
  | writeFailed (n : Node) (id : ID) (e : StoreErr) :
      Step pem (write n id) (.db (.updateNode n)) (.error e) (done (.error (.store e)))
  | halted (id : ID) : Step pem (halt id) (.stopNode id) () (erase id)
  | erased (id : ID) (r : Except StoreErr Unit) :
      Step pem (erase id) (.db (.deleteNode id)) r (done (r.mapError Err.store))
  | healed (id : ID) (status : NodeStatus) (lastErr : String) (seenAt : Option Time)
      (r : Except StoreErr Unit) :
      Step pem (heal id status lastErr seenAt) (.db (.setNodeHealth id status lastErr seenAt)) r
        (done (r.mapError Err.store))

variable {pem : PemParser}

theorem code_loaded (id : ID) (inp : NodeInput) (n : Node) :
    (loaded pem id inp n).code pem = discard (match inp.applyTLSMaterial pem (inp.patch n) with
      | .error e => Req.throw e
      | .ok n' => persist n' id) := by
  unfold loaded
  cases inp.applyTLSMaterial pem (inp.patch n) with
  | error e => rfl
  | ok n' => rfl

/-- An operation starts at its point. -/
theorem code_ofOp (op : NodeOp) : (ofOp pem op).code pem = (op.service pem).prog := by
  cases op with
  | create inp id now =>
      change (ofOp pem (.create inp id now)).code pem = discard (create pem inp id now)
      simp only [ofOp, create]
      split_ifs with hname haddress hport
      · rfl
      · rfl
      · rfl
      · cases inp.applyTLSMaterial pem (inp.newNode id) with
        | error e => rfl
        | ok n => rfl
  | update id inp => rfl
  | delete id => rfl
  | setHealth id status lastErr seenAt => rfl

/-- The program stands at a control point after every answer. -/
theorem code_step {c : Point} {s : Stmt} {k : s.Res → Job} (h : c.code pem = Prog.call s k)
    (r : s.Res) : ∃ c', Step pem c s r c' ∧ k r = c'.code pem := by
  -- a point issues one statement; where its answers part, so do the points that follow
  cases c with
  | done a => cases h
  | insert n now =>
      cases h
      cases r with
      | ok u => exact ⟨_, Step.inserted n now, rfl⟩
      | error e => exact ⟨_, Step.insertFailed n now e, rfl⟩
  | dial n now =>
      cases h
      cases r with
      | ok u =>
          refine ⟨_, Step.dialed n now, ?_⟩
          change Prog.call (Stmt.ping n.id) _ = Prog.call (Stmt.ping n.id) _
          congr 1
          funext r
          cases r with
          | ok u => rfl
          | error e => rfl
      | error e => exact ⟨_, Step.dialFailed n now e, rfl⟩
  | ping n now =>
      cases h
      exact ⟨_, Step.pinged n now r, rfl⟩
  | record n result now =>
      cases h
      exact ⟨_, Step.recorded n result now r, rfl⟩
  | launch n id =>
      cases h
      exact ⟨_, Step.launched n id, rfl⟩
  | readBack id =>
      cases h
      cases r with
      | ok n => exact ⟨_, Step.readBack id (.ok n), rfl⟩
      | error e => exact ⟨_, Step.readBack id (.error e), rfl⟩
  | load id inp =>
      cases h
      cases r with
      | ok n => exact ⟨_, Step.loaded id inp n, (code_loaded id inp n).symm⟩
      | error e => exact ⟨_, Step.loadFailed id inp e, rfl⟩
  | write n id =>
      cases h
      cases r with
      | ok u => exact ⟨_, Step.written n id, rfl⟩
      | error e => exact ⟨_, Step.writeFailed n id e, rfl⟩
  | halt id =>
      cases h
      exact ⟨_, Step.halted id, rfl⟩
  | erase id =>
      cases h
      exact ⟨_, Step.erased id r, rfl⟩
  | heal id status lastErr seenAt =>
      cases h
      exact ⟨_, Step.healed id status lastErr seenAt r, rfl⟩

end Point

end XrayApi.NodeService
