import Mathlib.Logic.Relation
import XrayApi.Store.Call
import XrayApi.Transition.Pool
import XrayApi.Xray.Client

/-!
# The running system

The world is the database, the account table, traffic counters and uptime of every node, and the
trigger channel of every node actor. `Stmt` has the steps the services and the workers take on it:
store calls, gRPC calls and calls of the manager. `exec` runs one step.

The order in which a query returns its rows is not fixed by the source; `Answers` leaves it open.
`MayFail` adds the failures of the connection, and `Meets` what the nodes do on their own. Programs
over these statements are written with `query`, `attempt` and `trigger`.
-/

set_option autoImplicit false

namespace XrayApi

open Transition Store Xray

/-- The traffic a node reports for a user. -/
structure UserTraffic where
  email : String
  uplink : Int64
  downlink : Int64
  deriving DecidableEq, Repr

/-- What a traffic query returns: one entry per email. -/
structure TrafficReport where
  entries : List UserTraffic
  distinct : (entries.map UserTraffic.email).Nodup

def TrafficReport.empty : TrafficReport := ⟨[], List.nodup_nil⟩

/-- The counters after they were read: those of a user stay, at zero. -/
def TrafficReport.reset (p : TrafficReport) : TrafficReport where
  entries := p.entries.map fun t => ⟨t.email, 0, 0⟩
  distinct := by
    rw [List.map_map]
    exact p.distinct

/-- The shared state. -/
structure World where
  db : Database
  /-- The accounts of each node. -/
  accounts : ID → AccountTable
  /-- The counters of each node since they were last read. -/
  traffic : ID → TrafficReport
  /-- The seconds each node reports to have been up. -/
  uptime : ID → UInt32
  /-- The trigger channel of each node's actor, of capacity one; `none` without an actor. -/
  reconcileCh : ID → Option Bool

/-- The tables of the database. -/
abbrev World.tables (w : World) : Tables := w.db.tables

/-- A database with nodes that have no account and no traffic. -/
def World.still (db : Database) : World where
  db := db
  accounts _ _ := none
  traffic _ := .empty
  uptime _ := 0
  reconcileCh _ := some false

/-- One step on the shared state. -/
inductive Stmt
  | db (q : StoreCall)
  | dial (nodeID : ID)
  | removeUser (nodeID : ID) (tag email : String)
  | addUser (nodeID : ID) (tag : String) (acc : Account)
  | queryUserTraffic (nodeID : ID)
  | ping (nodeID : ID)
  | trigger (nodeID : ID)
  | startNode (node : Node)
  | stopNode (nodeID : ID)

namespace Stmt

/-- The type of a step's answer. -/
@[reducible] def Res : Stmt → Type
  | db q => Except StoreErr q.Out
  | dial _ => Except StoreErr Unit
  | removeUser _ _ _ => Except StoreErr Unit
  | addUser _ _ _ => Except StoreErr Unit
  | queryUserTraffic _ => Except StoreErr (List UserTraffic)
  | ping _ => Except StoreErr UInt32
  | trigger _ => Unit
  | startNode _ => Unit
  | stopNode _ => Unit

/-- The answer of a step that fails, with the text of the error (a lost connection, a timeout); a
step of the manager does not fail. -/
def fail : (s : Stmt) → String → Option s.Res
  | db _, text => some (.error (.internal text))
  | dial _, text => some (.error (.internal text))
  | removeUser _ _ _, text => some (.error (.internal text))
  | addUser _ _ _, text => some (.error (.internal text))
  | queryUserTraffic _, text => some (.error (.internal text))
  | ping _, text => some (.error (.internal text))
  | trigger _, _ => none
  | startNode _, _ => none
  | stopNode _, _ => none

end Stmt

/-- One step. A traffic query resets the counters it returns; a trigger fills the channel unless it
is full, and is dropped when the node has no actor. `StartNode` registers a new actor, with an empty
channel, in place of the one there may be, and `StopNode` takes it away. -/
def exec : (s : Stmt) → World → s.Res × World
  | .db q, w => ((w.db.exec q).1, { w with db := (w.db.exec q).2 })
  | .dial _, w => (.ok (), w)
  | .removeUser n tag email, w =>
    ((Xray.removeUser (w.accounts n) tag email).1,
      { w with
        accounts := Function.update w.accounts n (Xray.removeUser (w.accounts n) tag email).2 })
  | .addUser n tag acc, w =>
    ((Xray.addUser (w.accounts n) tag acc).1,
      { w with accounts := Function.update w.accounts n (Xray.addUser (w.accounts n) tag acc).2 })
  | .queryUserTraffic n, w =>
    (.ok (w.traffic n).entries,
      { w with traffic := Function.update w.traffic n (w.traffic n).reset })
  | .ping n, w => (.ok (w.uptime n), w)
  | .trigger n, w =>
    ((), { w with
      reconcileCh := Function.update w.reconcileCh n ((w.reconcileCh n).map fun _ => true) })
  | .startNode node, w =>
    ((), { w with reconcileCh := Function.update w.reconcileCh node.id (some false) })
  | .stopNode n, w => ((), { w with reconcileCh := Function.update w.reconcileCh n none })

/-- Equal answers, or answers of a query that have the same rows in another order. -/
def SameRows : (q : StoreCall) → q.Out → q.Out → Prop
  | .listInboundsByIDs _ => List.Perm
  | .listInboundsForUser _ => List.Perm
  | .listNodes => List.Perm
  | .expireDueUsers _ => List.Perm
  | .desiredForNode _ => List.Perm
  | .removalsForNode _ => List.Perm
  | .assignmentTargetsForUser _ => List.Perm
  | .applyTrafficDeltas _ _ _ => List.Perm
  | _ => Eq

/-- What a step that does not fail may answer and do. -/
def Answers : Sem Stmt Stmt.Res World
  | .db q, w, r, w' => w' = { w with db := (w.db.exec q).2 } ∧
      (match r, (w.db.exec q).1 with
        | .ok a, .ok b => SameRows q a b
        | .error e, .error e' => e = e'
        | _, _ => False)
  | s, w, r, w' => exec s w = (r, w')

theorem sameRows_refl (q : StoreCall) (o : q.Out) : SameRows q o o := by
  cases q <;> first | exact rfl | exact List.Perm.refl _

/-- The rows in table order are one of the answers. -/
theorem answers_exec (s : Stmt) (w : World) : Answers s w (exec s w).1 (exec s w).2 := by
  cases s with
  | db q =>
      refine ⟨rfl, ?_⟩
      simp only [exec]
      cases (w.db.exec q).1 with
      | ok o => exact sameRows_refl q o
      | error e => rfl
  | dial n => rfl
  | removeUser n tag email => rfl
  | addUser n tag acc => rfl
  | queryUserTraffic n => rfl
  | ping n => rfl
  | trigger n => rfl
  | startNode node => rfl
  | stopNode n => rfl

/-- A store call that succeeds, with some order of its rows. -/
theorem answers_db_ok {q : StoreCall} {w w' : World} {a : q.Out}
    (h : Answers (.db q) w (.ok a) w') :
    ∃ o t, q.apply w.tables = .ok (o, t) ∧ SameRows q a o ∧
      w' = { w with db := (w.db.exec q).2 } ∧ w'.tables = t := by
  obtain ⟨hw, hr⟩ := h
  obtain ⟨e, -, hx⟩ | ⟨o, t, hq, hx, ht⟩ := w.db.exec_cases q
  · rw [hx] at hr
    exact hr.elim
  · rw [hx] at hr
    refine ⟨o, t, hq, hr, hw, ?_⟩
    rw [hw]
    exact ht

/-- A store call that fails on its own, on the tables it finds. -/
theorem answers_db_error {q : StoreCall} {w w' : World} {e : StoreErr}
    (h : Answers (.db q) w (.error e) w') : q.apply w.tables = .error e ∧ w' = w := by
  obtain ⟨hw, hr⟩ := h
  obtain ⟨e', hq, hx⟩ | ⟨o, t, hq, hx, ht⟩ := w.db.exec_cases q
  · rw [hx] at hr hw
    cases hr
    exact ⟨hq, hw⟩
  · rw [hx] at hr
    exact hr.elim

/-- A store call that cannot fail on the tables it finds. -/
theorem answers_db_of_ok {q : StoreCall} {w w' : World} {r : Except StoreErr q.Out} {o : q.Out}
    {t : Tables} (hq : q.apply w.tables = .ok (o, t)) (h : Answers (.db q) w r w') :
    ∃ a, r = .ok a ∧ SameRows q a o ∧ w'.tables = t := by
  cases r with
  | error e =>
      rw [(answers_db_error h).1] at hq
      cases hq
  | ok a =>
      obtain ⟨o', t', hq', hrows, -, ht⟩ := answers_db_ok h
      rw [hq] at hq'
      cases hq'
      exact ⟨a, rfl, hrows, ht⟩

/-- A store call leaves the nodes and the trigger channels alone. -/
theorem answers_db_frame {q : StoreCall} {w w' : World} {r : Except StoreErr q.Out}
    (h : Answers (.db q) w r w') :
    w'.accounts = w.accounts ∧ w'.traffic = w.traffic ∧ w'.reconcileCh = w.reconcileCh := by
  rw [h.1]
  exact ⟨rfl, rfl, rfl⟩

/-- The world with one account of one node changed. -/
def World.setAccount (w : World) (n : ID) (k : Key) (a : Option ProtocolUser) : World :=
  { w with accounts := Function.update w.accounts n (Function.update (w.accounts n) k a) }

@[simp] theorem World.db_setAccount (w : World) (n : ID) (k : Key) (a : Option ProtocolUser) :
    (w.setAccount n k a).db = w.db := rfl

@[simp] theorem World.accounts_setAccount (w : World) (n : ID) (k : Key)
    (a : Option ProtocolUser) :
    (w.setAccount n k a).accounts n = Function.update (w.accounts n) k a :=
  Function.update_self n _ _

theorem World.accounts_setAccount_of_ne (w : World) {m n : ID} (h : m ≠ n) (k : Key)
    (a : Option ProtocolUser) : (w.setAccount n k a).accounts m = w.accounts m :=
  Function.update_of_ne h _ _

theorem answers_dial {n : ID} {w w' : World} {r : Except StoreErr Unit}
    (h : Answers (.dial n) w r w') : r = .ok () ∧ w' = w := by
  cases h
  exact ⟨rfl, rfl⟩

/-- A removal succeeds and clears its key. -/
theorem answers_removeUser {n : ID} {tag email : String} {w w' : World} {r : Except StoreErr Unit}
    (h : Answers (.removeUser n tag email) w r w') :
    r = .ok () ∧ w' = w.setAccount n (tag, email) none := by
  obtain ⟨hr, hw⟩ := Prod.ext_iff.1 h
  simp only [exec, removeUser_eq] at hr hw
  exact ⟨hr.symm, hw.symm⟩

/-- A push that succeeds fills its key with the account, unless the node has one there already. -/
theorem answers_addUser_stored {n : ID} {tag : String} {acc : Account} {w w' : World}
    (h : Answers (.addUser n tag acc) w (.ok ()) w') :
    ∃ user, buildUser acc = .ok user ∧ w' = w.setAccount n (tag, acc.email)
      (some ((w.accounts n (tag, acc.email)).getD user)) := by
  obtain ⟨hr, hw⟩ := Prod.ext_iff.1 h
  simp only [exec, addUser_eq] at hr hw
  cases hb : buildUser acc with
  | error e =>
      rw [hb] at hr
      cases hr
  | ok user =>
      rw [hb] at hw
      exact ⟨user, rfl, hw.symm⟩

/-- A push that succeeds fills its key. -/
theorem answers_addUser_ok {n : ID} {tag : String} {acc : Account} {w w' : World}
    (h : Answers (.addUser n tag acc) w (.ok ()) w') :
    ∃ user : ProtocolUser, w' = w.setAccount n (tag, acc.email) (some user) := by
  obtain ⟨user, -, hw⟩ := answers_addUser_stored h
  exact ⟨_, hw⟩

/-- A push that fails leaves the node as it is. -/
theorem answers_addUser_error {n : ID} {tag : String} {acc : Account} {w w' : World} {e : StoreErr}
    (h : Answers (.addUser n tag acc) w (.error e) w') : w' = w := by
  obtain ⟨hr, hw⟩ := Prod.ext_iff.1 h
  simp only [exec, addUser_eq] at hr hw
  cases hb : buildUser acc with
  | error e' =>
      rw [hb] at hw
      rw [← hw]
      simp only [Function.update_eq_self]
  | ok user =>
      rw [hb] at hr
      cases hr

/-! ## Failures -/

/-- The answer is not an error. -/
def Stmt.isOk : (s : Stmt) → s.Res → Bool
  | .db _, r => r.isOk
  | .dial _, r => r.isOk
  | .removeUser _ _ _, r => r.isOk
  | .addUser _ _ _, r => r.isOk
  | .queryUserTraffic _, r => r.isOk
  | .ping _, r => r.isOk
  | .trigger _, _ => true
  | .startNode _, _ => true
  | .stopNode _, _ => true

/-- What a step may answer and do when it may also fail for want of a connection. -/
def MayFail : Sem Stmt Stmt.Res World := Sem.orFail Answers Stmt.fail

theorem mayFail_exec (s : Stmt) (w : World) : MayFail s w (exec s w).1 (exec s w).2 :=
  Or.inl (answers_exec s w)

/-- A step that failed for want of a connection did nothing and answered an error. -/
theorem mayFail_cases {s : Stmt} {w w' : World} {r : s.Res} (h : MayFail s w r w') :
    Answers s w r w' ∨ (w' = w ∧ s.isOk r = false) := by
  obtain h | ⟨hw, text, hr⟩ := h
  · exact Or.inl h
  · refine Or.inr ⟨hw, ?_⟩
    cases s with
    | db q => cases hr; rfl
    | dial n => cases hr; rfl
    | removeUser n tag email => cases hr; rfl
    | addUser n tag acc => cases hr; rfl
    | queryUserTraffic n => cases hr; rfl
    | ping n => cases hr; rfl
    | trigger n => cases hr
    | startNode node => cases hr
    | stopNode n => cases hr

theorem mayFail_ok {s : Stmt} {w w' : World} {r : s.Res} (h : MayFail s w r w')
    (hr : s.isOk r = true) : Answers s w r w' := by
  obtain h | ⟨-, hr'⟩ := mayFail_cases h
  · exact h
  · rw [hr] at hr'
    cases hr'

/-- A store call changes the tables only when it succeeds, and then as `apply` says. -/
theorem mayFail_db {q : StoreCall} {w w' : World} {r : Except StoreErr q.Out}
    (h : MayFail (.db q) w r w') :
    (∃ e, r = .error e ∧ w'.tables = w.tables) ∨
      ∃ a o, r = .ok a ∧ SameRows q a o ∧ q.apply w.tables = .ok (o, w'.tables) := by
  cases r with
  | error e =>
      refine Or.inl ⟨e, rfl, ?_⟩
      obtain h | ⟨rfl, -⟩ := mayFail_cases h
      · rw [(answers_db_error h).2]
      · rfl
  | ok a =>
      obtain ⟨o, t, hq, hrows, -, ht⟩ := answers_db_ok (mayFail_ok h rfl)
      exact Or.inr ⟨a, o, rfl, hrows, by rw [ht]; exact hq⟩

/-- A failed store call changes nothing. -/
theorem mayFail_db_error {q : StoreCall} {w w' : World} {e : StoreErr}
    (h : MayFail (.db q) w (.error e) w') : w'.tables = w.tables := by
  obtain ⟨-, -, ht⟩ | ⟨_, _, hr, -⟩ := mayFail_db h
  · exact ht
  · cases hr

/-- A store call that succeeded. -/
theorem mayFail_db_ok {q : StoreCall} {w w' : World} {a : q.Out}
    (h : MayFail (.db q) w (.ok a) w') :
    ∃ o, SameRows q a o ∧ q.apply w.tables = .ok (o, w'.tables) := by
  obtain ⟨_, hr, -⟩ | ⟨_, o, hr, hrows, hq⟩ := mayFail_db h
  · cases hr
  · cases hr
    exact ⟨o, hrows, hq⟩

/-- A store call leaves the manager alone. -/
theorem mayFail_db_reconcileCh {q : StoreCall} {w w' : World} {r : Except StoreErr q.Out}
    (h : MayFail (.db q) w r w') : w'.reconcileCh = w.reconcileCh := by
  obtain h | ⟨rfl, -⟩ := mayFail_cases h
  · exact (answers_db_frame h).2.2
  · rfl

/-- A step that never writes the database. -/
def ReadsOnly (s : Stmt) : Prop :=
  ∀ w r w', MayFail s w r w' → w'.tables = w.tables

theorem readsOnly_db {q : StoreCall} (hq : ∀ t o t', q.apply t = .ok (o, t') → t' = t) :
    ReadsOnly (.db q) := by
  intro w r w' h
  obtain ⟨e, -, ht⟩ | ⟨a, o, -, -, ho⟩ := mayFail_db h
  · exact ht
  · exact hq _ o _ ho

theorem readsOnly_of_isWrite_eq_false {q : StoreCall} (hq : q.isWrite = false) :
    ReadsOnly (.db q) :=
  readsOnly_db fun _ _ _ h => StoreCall.apply_of_isWrite_eq_false hq h

theorem readsOnly_getUser (id : ID) : ReadsOnly (.db (.getUser id)) :=
  readsOnly_of_isWrite_eq_false rfl

theorem readsOnly_getPlan (id : ID) : ReadsOnly (.db (.getPlan id)) :=
  readsOnly_of_isWrite_eq_false rfl

theorem readsOnly_listInboundsByIDs (ids : List ID) : ReadsOnly (.db (.listInboundsByIDs ids)) :=
  readsOnly_of_isWrite_eq_false rfl

theorem readsOnly_assignmentTargetsForUser (id : ID) :
    ReadsOnly (.db (.assignmentTargetsForUser id)) :=
  readsOnly_of_isWrite_eq_false rfl

theorem readsOnly_trigger (n : ID) : ReadsOnly (.trigger n) := by
  intro w r w' h
  obtain h | ⟨rfl, -⟩ := mayFail_cases h
  · cases h
    rfl
  · rfl

/-- The user a read of the row returns. -/
theorem mayFail_getUser {id : ID} {w w' : World} {u : User}
    (h : MayFail (.db (.getUser id)) w (.ok u) w') : getUser w.tables id = .ok u := by
  obtain ⟨o, t, hq, hrows, -, -⟩ := answers_db_ok (mayFail_ok h rfl)
  have hrows : u = o := hrows
  rw [hrows]
  exact (StoreCall.read_eq_ok.1 hq).1

/-! ## Nodes that run on -/

/-- What a step finds at the node it calls. Since the last step the node may have counted traffic,
run on or started again; a step shows no more of that than what it asks for. -/
def Finds : Stmt → World → World → Prop
  | .removeUser n _ _, w, w' | .addUser n _ _, w, w' =>
    ∃ accounts, w' = { w with accounts := Function.update w.accounts n accounts }
  | .queryUserTraffic n, w, w' =>
    ∃ report, w' = { w with traffic := Function.update w.traffic n report }
  | .ping n, w, w' => ∃ up, w' = { w with uptime := Function.update w.uptime n up }
  | _, w, w' => w' = w

/-- What a step may answer and do on the nodes as it finds them. -/
def Meets : Sem Stmt Stmt.Res World := fun s w r w' => ∃ w₀, Finds s w w₀ ∧ MayFail s w₀ r w'

/-- A node may be as it was. -/
theorem finds_refl (s : Stmt) (w : World) : Finds s w w := by
  cases s with
  | removeUser n tag email => exact ⟨w.accounts n, by rw [Function.update_eq_self]⟩
  | addUser n tag acc => exact ⟨w.accounts n, by rw [Function.update_eq_self]⟩
  | queryUserTraffic n => exact ⟨w.traffic n, by rw [Function.update_eq_self]⟩
  | ping n => exact ⟨w.uptime n, by rw [Function.update_eq_self]⟩
  | db _ | dial _ | trigger _ | startNode _ | stopNode _ => rfl

/-- The nodes do not touch the database. -/
theorem Finds.tables {s : Stmt} {w w' : World} (h : Finds s w w') : w'.tables = w.tables := by
  cases s with
  | removeUser _ _ _ | addUser _ _ _ | queryUserTraffic _ | ping _ =>
      obtain ⟨_, rfl⟩ := h
      rfl
  | db _ | dial _ | trigger _ | startNode _ | stopNode _ => rw [show w' = w from h]

theorem MayFail.meets {s : Stmt} {w w' : World} {r : s.Res} (h : MayFail s w r w') :
    Meets s w r w' :=
  ⟨w, finds_refl s w, h⟩

/-- A store call does not depend on the nodes. -/
theorem meets_db {q : StoreCall} {w w' : World} {r : Except StoreErr q.Out} :
    Meets (.db q) w r w' ↔ MayFail (.db q) w r w' := by
  refine ⟨?_, MayFail.meets⟩
  rintro ⟨w₀, rfl, h⟩
  exact h

theorem ReadsOnly.tables {s : Stmt} (hs : ReadsOnly s) {w w' : World} {r : s.Res}
    (h : Meets s w r w') : w'.tables = w.tables := by
  obtain ⟨w₀, hfinds, hmay⟩ := h
  rw [hs _ _ _ hmay, hfinds.tables]

/-! ## Programs -/

/-- A request or a job of a worker. An error ends it; in a worker that is an early return. -/
abbrev Service (α : Type) : Type := Req Stmt Stmt.Res Err α

/-- What a thread of the running system executes. -/
abbrev Job : Type := Prog Stmt Stmt.Res (Except Err Unit)

/-- A store call whose error is returned. -/
def query (q : StoreCall) : Service q.Out :=
  Prog.call (.db q) fun r => Prog.ret (r.mapError Err.store)

/-- A store call whose error the caller looks at or drops. -/
def attempt (q : StoreCall) : Service (Except StoreErr q.Out) :=
  Prog.call (.db q) fun r => Prog.ret (.ok r)

/-- `Manager.Reconcile`. -/
def trigger (nodeID : ID) : Service Unit :=
  Prog.call (.trigger nodeID) fun _ => Prog.ret (.ok ())

/-- `Manager.StartNode`. -/
def startNode (node : Node) : Service Unit :=
  Prog.call (.startNode node) fun _ => Prog.ret (.ok ())

/-- `Manager.StopNode`. -/
def stopNode (nodeID : ID) : Service Unit :=
  Prog.call (.stopNode nodeID) fun _ => Prog.ret (.ok ())

end XrayApi
