import XrayApi.Store.Valid

/-!
# Store calls

`StoreCall` has one constructor per store method the modelled code calls, each one autocommitted
statement or one transaction. `StoreCall.apply` runs a call on tables; `Database.exec` runs it on a
database, where a call that fails changes nothing.
-/

set_option autoImplicit false

namespace XrayApi.Store

/-- A method of the store with its arguments. -/
inductive StoreCall
  | getUser (id : ID)
  | getUserByExternalID (externalID : String)
  | getUserByEmail (email : String)
  | getUserBySubToken (token : String)
  | getPlan (id : ID)
  | createPlan (p : Plan)
  | updatePlan (p : Plan)
  | deletePlan (id : ID)
  | listInboundsByIDs (ids : List ID)
  | listInboundsForUser (userID : ID)
  | userIDsByEmail (emails : List String)
  | getNode (id : ID)
  | listNodes
  | createNode (n : Node)
  | updateNode (n : Node)
  | deleteNode (id : ID)
  | setNodeHealth (id : ID) (status : NodeStatus) (lastErr : String) (seenAt : Option Time)
  | getInbound (id : ID)
  | updateInbound (ib : Inbound)
  | deleteInbound (id : ID)
  | createWithAssignmentsTx (u : User) (inboundIDs : List ID)
  | updateUser (u : User)
  | setUserStatus (id : ID) (status : UserStatus)
  | resetTraffic (id : ID)
  | deleteUser (id : ID)
  | expireDueUsers (now : Time)
  | recordWebhookEvent (eventID action : String)
  | desiredForNode (nodeID : ID)
  | removalsForNode (nodeID : ID)
  | assignmentTargetsForUser (userID : ID)
  | markAssignmentSynced (userID inboundID : ID) (status : SyncStatus) (errMsg : String)
  | markAssignmentsRemovingForUser (userID : ID)
  | deleteAssignment (userID inboundID : ID)
  | setAssignmentsForUserTx (userID : ID) (inboundIDs : Slice ID)
  | applyTrafficDeltas (nodeID : ID) (deltas : List TrafficDelta) (collectedAt : Time)

namespace StoreCall

/-- What a call returns besides an error. -/
@[reducible] def Out : StoreCall → Type
  | getUser _ => User
  | getUserByExternalID _ => User
  | getUserByEmail _ => User
  | getUserBySubToken _ => User
  | getPlan _ => Plan
  | createPlan _ => Unit
  | updatePlan _ => Unit
  | deletePlan _ => Unit
  | listInboundsByIDs _ => List Inbound
  | listInboundsForUser _ => List Inbound
  | userIDsByEmail _ => String → Option ID
  | getNode _ => Node
  | listNodes => List Node
  | createNode _ => Unit
  | updateNode _ => Unit
  | deleteNode _ => Unit
  | setNodeHealth _ _ _ _ => Unit
  | getInbound _ => Inbound
  | updateInbound _ => Unit
  | deleteInbound _ => Unit
  | createWithAssignmentsTx _ _ => Unit
  | updateUser _ => Unit
  | setUserStatus _ _ => Unit
  | resetTraffic _ => Unit
  | deleteUser _ => Unit
  | expireDueUsers _ => List ID
  | recordWebhookEvent _ _ => Bool
  | desiredForNode _ => List DesiredAssignment
  | removalsForNode _ => List DesiredAssignment
  | assignmentTargetsForUser _ => List DesiredAssignment
  | markAssignmentSynced _ _ _ _ => Unit
  | markAssignmentsRemovingForUser _ => Unit
  | deleteAssignment _ _ => Unit
  | setAssignmentsForUserTx _ _ => Unit
  | applyTrafficDeltas _ _ _ => List ID

/-- The answer of a read, with the tables it was made on. -/
def read {α : Type} (t : Tables) (r : Except StoreErr α) : Except StoreErr (α × Tables) :=
  r.map fun a => (a, t)

/-- The answer of a write that returns nothing. -/
def wrote (r : Except StoreErr Tables) : Except StoreErr (Unit × Tables) :=
  r.map fun t => ((), t)

/-- The call on tables: its answer and the new tables, or its error. -/
def apply : (q : StoreCall) → Tables → Except StoreErr (q.Out × Tables)
  | .getUser id, t => read t (Store.getUser t id)
  | .getUserByExternalID x, t => read t (Store.getUserByExternalID t x)
  | .getUserByEmail email, t => read t (Store.getUserByEmail t email)
  | .getUserBySubToken token, t => read t (Store.getUserBySubToken t token)
  | .getPlan id, t => read t (Store.getPlan t id)
  | .createPlan p, t => wrote (Store.createPlan t p)
  | .updatePlan p, t => wrote (Store.updatePlan t p)
  | .deletePlan id, t => wrote (Store.deletePlan t id)
  | .listInboundsByIDs ids, t => .ok (Store.listInboundsByIDs t ids, t)
  | .listInboundsForUser userID, t => .ok (Store.listInboundsForUser t userID, t)
  | .userIDsByEmail emails, t => .ok (Store.userIDsByEmail t emails, t)
  | .getNode id, t => read t (Store.getNode t id)
  | .listNodes, t => .ok (t.nodes, t)
  | .createNode n, t => wrote (Store.createNode t n)
  | .updateNode n, t => wrote (Store.updateNode t n)
  | .deleteNode id, t => wrote (Store.deleteNode t id)
  | .setNodeHealth id status lastErr seenAt, t =>
    wrote (Store.setNodeHealth t id status lastErr seenAt)
  | .getInbound id, t => read t (Store.getInbound t id)
  | .updateInbound ib, t => wrote (Store.updateInbound t ib)
  | .deleteInbound id, t => wrote (Store.deleteInbound t id)
  | .createWithAssignmentsTx u ids, t => wrote (Store.createWithAssignmentsTx t u ids)
  | .updateUser u, t => wrote (Store.updateUser t u)
  | .setUserStatus id status, t => wrote (Store.setUserStatus t id status)
  | .resetTraffic id, t => wrote (Store.resetTraffic t id)
  | .deleteUser id, t => wrote (Store.deleteUser t id)
  | .expireDueUsers now, t => .ok (Store.expireDueUsers t now)
  | .recordWebhookEvent eventID action, t => .ok (Store.recordWebhookEvent t eventID action)
  | .desiredForNode nodeID, t => .ok (Store.desiredForNode t nodeID, t)
  | .removalsForNode nodeID, t => .ok (Store.removalsForNode t nodeID, t)
  | .assignmentTargetsForUser userID, t => .ok (Store.assignmentTargetsForUser t userID, t)
  | .markAssignmentSynced userID inboundID status errMsg, t =>
    .ok ((), Store.markAssignmentSynced t userID inboundID status errMsg)
  | .markAssignmentsRemovingForUser userID, t =>
    .ok ((), Store.markAssignmentsRemovingForUser t userID)
  | .deleteAssignment userID inboundID, t => .ok ((), Store.deleteAssignment t userID inboundID)
  | .setAssignmentsForUserTx userID ids, t => wrote (Store.setAssignmentsForUserTx t userID ids)
  | .applyTrafficDeltas nodeID deltas collectedAt, t =>
    Store.applyTrafficDeltas t nodeID deltas collectedAt

theorem read_eq_ok {α : Type} {t t' : Tables} {r : Except StoreErr α} {a : α} :
    read t r = .ok (a, t') ↔ r = .ok a ∧ t' = t := by
  cases r with
  | error e => simp [read, Except.map]
  | ok b =>
      simp only [read, Except.map, Except.ok.injEq, Prod.mk.injEq]
      exact ⟨fun h => ⟨h.1, h.2.symm⟩, fun h => ⟨h.1, h.2.symm⟩⟩

theorem wrote_eq_ok {t' : Tables} {r : Except StoreErr Tables} :
    wrote r = .ok ((), t') ↔ r = .ok t' := by
  cases r with
  | error e => simp [wrote, Except.map]
  | ok t => simp [wrote, Except.map]

/-- The calls that write. -/
def isWrite : StoreCall → Bool
  | getUser _ => false
  | getUserByExternalID _ => false
  | getUserByEmail _ => false
  | getUserBySubToken _ => false
  | getPlan _ => false
  | listInboundsByIDs _ => false
  | listInboundsForUser _ => false
  | userIDsByEmail _ => false
  | getNode _ => false
  | listNodes => false
  | getInbound _ => false
  | desiredForNode _ => false
  | removalsForNode _ => false
  | assignmentTargetsForUser _ => false
  | _ => true

/-- The other calls leave the tables as they are. -/
theorem apply_of_isWrite_eq_false {q : StoreCall} {t t' : Tables} {o : q.Out}
    (hq : q.isWrite = false) (h : q.apply t = .ok (o, t')) : t' = t := by
  cases q with
  | getUser id => exact (read_eq_ok.1 h).2
  | getUserByExternalID x => exact (read_eq_ok.1 h).2
  | getUserByEmail email => exact (read_eq_ok.1 h).2
  | getUserBySubToken token => exact (read_eq_ok.1 h).2
  | getPlan id => exact (read_eq_ok.1 h).2
  | listInboundsByIDs ids => cases h; rfl
  | listInboundsForUser userID => cases h; rfl
  | userIDsByEmail emails => cases h; rfl
  | getNode id => exact (read_eq_ok.1 h).2
  | listNodes => cases h; rfl
  | getInbound id => exact (read_eq_ok.1 h).2
  | desiredForNode nodeID => cases h; rfl
  | removalsForNode nodeID => cases h; rfl
  | assignmentTargetsForUser userID => cases h; rfl
  | _ => cases hq

/-- Every call that succeeds leaves valid tables. -/
theorem apply_valid (q : StoreCall) {t t' : Tables} {o : q.Out} (ht : t.Valid)
    (h : q.apply t = .ok (o, t')) : t'.Valid := by
  by_cases hq : q.isWrite = false
  · rw [apply_of_isWrite_eq_false hq h]
    exact ht
  · cases q with
    | createPlan p => exact createPlan_valid ht (wrote_eq_ok.1 h)
    | updatePlan p => exact updatePlan_valid ht (wrote_eq_ok.1 h)
    | deletePlan id => exact deletePlan_valid ht (wrote_eq_ok.1 h)
    | createNode n => exact createNode_valid ht (wrote_eq_ok.1 h)
    | updateNode n => exact updateNode_valid ht (wrote_eq_ok.1 h)
    | deleteNode id => exact deleteNode_valid ht (wrote_eq_ok.1 h)
    | setNodeHealth id status lastErr seenAt => exact setNodeHealth_valid ht (wrote_eq_ok.1 h)
    | updateInbound ib => exact updateInbound_valid ht (wrote_eq_ok.1 h)
    | deleteInbound id => exact deleteInbound_valid ht (wrote_eq_ok.1 h)
    | createWithAssignmentsTx u ids => exact createWithAssignmentsTx_valid ht (wrote_eq_ok.1 h)
    | updateUser u => exact updateUser_valid ht (wrote_eq_ok.1 h)
    | setUserStatus id status => exact setUserStatus_valid ht (wrote_eq_ok.1 h)
    | resetTraffic id => exact resetTraffic_valid ht (wrote_eq_ok.1 h)
    | deleteUser id => exact deleteUser_valid ht (wrote_eq_ok.1 h)
    | expireDueUsers now => cases h; exact expireDueUsers_valid ht
    | recordWebhookEvent eventID action =>
        have hv : (Store.recordWebhookEvent t eventID action).2.Valid := recordWebhookEvent_valid ht
        rw [Except.ok.inj h] at hv
        exact hv
    | markAssignmentSynced userID inboundID status errMsg =>
        cases h; exact markAssignmentSynced_valid ht
    | markAssignmentsRemovingForUser userID =>
        cases h; exact markAssignmentsRemovingForUser_valid ht
    | deleteAssignment userID inboundID => cases h; exact deleteAssignment_valid ht
    | setAssignmentsForUserTx userID ids => exact setAssignmentsForUserTx_valid ht (wrote_eq_ok.1 h)
    | applyTrafficDeltas nodeID deltas collectedAt => exact applyTrafficDeltas_valid ht h
    | _ => exact (hq rfl).elim

end StoreCall

namespace Database

@[ext] theorem ext {db db' : Database} (h : db.tables = db'.tables) : db = db' := by
  cases db
  cases db'
  cases h
  rfl

/-- The call on a database; a failed call leaves it as it is. -/
def exec (q : StoreCall) (db : Database) : Except StoreErr q.Out × Database :=
  match h : q.apply db.tables with
  | .ok a => (.ok a.1, ⟨a.2, q.apply_valid db.valid h⟩)
  | .error e => (.error e, db)

theorem exec_of_ok {q : StoreCall} {db : Database} {o : q.Out} {t : Tables}
    (h : q.apply db.tables = .ok (o, t)) :
    (exec q db).1 = .ok o ∧ (exec q db).2.tables = t := by
  unfold exec
  split
  · next a ha =>
      rw [h] at ha
      cases ha
      exact ⟨rfl, rfl⟩
  · next e he =>
      rw [h] at he
      cases he

theorem exec_of_error {q : StoreCall} {db : Database} {e : StoreErr}
    (h : q.apply db.tables = .error e) : exec q db = (.error e, db) := by
  unfold exec
  split
  · next a ha =>
      rw [h] at ha
      cases ha
  · next e' he =>
      rw [h] at he
      cases he
      rfl

/-- A read answers from the tables and changes nothing. -/
theorem exec_of_read {q : StoreCall} {db : Database} {r : Except StoreErr q.Out}
    (h : q.apply db.tables = StoreCall.read db.tables r) : exec q db = (r, db) := by
  cases r with
  | error e => exact exec_of_error h
  | ok o =>
      obtain ⟨h₁, h₂⟩ := exec_of_ok h
      exact Prod.ext h₁ (ext h₂)

/-- A call changes the database only when it succeeds, and then to the tables of `apply`. -/
theorem exec_cases (q : StoreCall) (db : Database) :
    (∃ e, q.apply db.tables = .error e ∧ exec q db = (.error e, db)) ∨
      ∃ o t, q.apply db.tables = .ok (o, t) ∧ (exec q db).1 = .ok o ∧
        (exec q db).2.tables = t := by
  cases h : q.apply db.tables with
  | error e => exact Or.inl ⟨e, rfl, exec_of_error h⟩
  | ok a => exact Or.inr ⟨a.1, a.2, rfl, exec_of_ok h⟩

end Database

end XrayApi.Store
