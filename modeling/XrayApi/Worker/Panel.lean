import XrayApi.Store.Entries
import XrayApi.Transition.Branches
import XrayApi.Worker.Fleet
import XrayApi.Worker.Manager

/-!
# The panel at work

Operations on users, the expiry sweep and the actors of the nodes side by side. A request executes
an operation, an actor one round after the other as in `Round`; a round that is started by the token
takes it out of the channel. Writes and gRPC calls may fail, reads of the store do not, and no actor
is started or stopped. The nodes do what they like in between: they count traffic, restart and lose
accounts.

`users` notes for each thread whose users its operation is about, which for the sweep and for a
collector is known once they have flipped them. No step depends on it. `Panel.Apart` is the
discipline that operations on one user do not overlap.
-/

set_option autoImplicit false

namespace XrayApi.Worker

open Transition Store Relational Service

/-! ## Operations and rounds -/

/-- An operation with its arguments, random values and clock readings. -/
inductive Op
  | create (inp : CreateInput) (fresh : Fresh) (now : Time)
  | update (id : ID) (inp : UpdateInput) (now : Time)
  | setInbounds (id : ID) (inboundIDs : Slice ID)
  | suspend (id : ID)
  | resume (id : ID) (now : Time)
  | resetTraffic (id : ID) (now : Time)
  | renew (id : ID) (inp : RenewInput) (now now' : Time)
  | sweepExpired (now : Time)

/-- What a thread has still to do; a round leaves the fields of its actor. -/
abbrev Task : Type := Prog Stmt Stmt.Res (Option ActorState)

/-- A request whose result is dropped. -/
def asTask {α : Type} (p : Service α) : Task := Prog.bind p.prog fun _ => Prog.ret none

def Op.task : Op → Task
  | create inp fresh now => asTask (Service.create inp fresh now)
  | update id inp now => asTask (Service.update id inp now)
  | setInbounds id inboundIDs => asTask (Service.setInbounds id inboundIDs)
  | suspend id => asTask (Service.suspend id)
  | resume id now => asTask (Service.resume id now)
  | resetTraffic id now => asTask (Service.resetTraffic id now)
  | renew id inp now now' => asTask (Service.renew id inp now now')
  | sweepExpired now => asTask (Worker.sweepExpired now)

/-- The user an operation is about; the sweep has none until it has flipped them. -/
def Op.users : Op → List ID
  | create _ fresh _ => [fresh.id]
  | update id _ _ => [id]
  | setInbounds id _ => [id]
  | suspend id => [id]
  | resume id _ => [id]
  | resetTraffic id _ => [id]
  | renew id _ _ _ => [id]
  | sweepExpired _ => []

def Round.task (a : ActorState) (rd : Round) : Task :=
  Prog.bind (rd.prog a) fun a => Prog.ret (some a)

/-! ## The system -/

/-- The fields of the actor of a node. -/
abbrev FieldsOf (n : ID) : Type := { a : ActorState // a.health.node.id = n }

/-- The shared state, what each thread has still to do, and the users it is about. -/
structure Panel extends Pool Thread Stmt Stmt.Res World (Option ActorState) where
  users : Thread → List ID

/-- A query of the store. -/
def isRead : Stmt → Bool
  | .db q => !q.isWrite
  | _ => false

/-- Any step may fail but a query of the store. -/
def ReadsSucceed : Sem Stmt Stmt.Res World := fun s w r w' =>
  MayFail s w r w' ∧ (isRead s = true → Answers s w r w')

/-- The users a statement has just made inactive on its own account. -/
def flipped : (s : Stmt) → s.Res → List ID
  | .db (.expireDueUsers _), .ok ids => ids
  | .db (.applyTrafficDeltas _ _ _), .ok ids => ids
  | _, _ => []

/-- What happens in a step. -/
inductive PanelAct
  | call (i : Thread) (s : Stmt) (r : s.Res)
  | begins (j : Nat) (op : Op)
  | select (n : ID) (rd : Round)
  | nodes

namespace Panel

/-- Nothing runs; the actors wait in their `select`. -/
def idle (w : World) (fields : (n : ID) → FieldsOf n) : Panel where
  world := w
  prog
    | .api _ => Prog.ret none
    | .actor n => Prog.ret (some (fields n).1)
  users _ := []

/-- The thread has returned from its last operation or round. -/
def Idle (P : Panel) (i : Thread) : Prop := ∃ o, P.prog i = Prog.ret o

/-- The node has an actor, and its token if the round is started by it. -/
def Ready (w : World) (n : ID) : Round → Prop
  | .triggered => w.reconcileCh n = some true
  | _ => w.reconcileCh n ≠ none

/-- Take the token. -/
def receive (w : World) (n : ID) : Round → World
  | .triggered => { w with reconcileCh := Function.update w.reconcileCh n (some false) }
  | _ => w

/-- The steps of the panel. -/
inductive Step : Panel → PanelAct → Panel → Prop
  | call {P : Panel} {i : Thread} {s : Stmt} {k : s.Res → Task} {r : s.Res} {w : World} :
      P.prog i = Prog.call s k → ReadsSucceed s P.world r w →
      Step P (.call i s r) ⟨⟨w, Function.update P.prog i (k r)⟩,
        Function.update P.users i (flipped s r ++ P.users i)⟩
  | begins {P : Panel} {j : Nat} {op : Op} {o : Option ActorState} :
      P.prog (.api j) = Prog.ret o →
      Step P (.begins j op) ⟨⟨P.world, Function.update P.prog (.api j) op.task⟩,
        Function.update P.users (.api j) op.users⟩
  | select {P : Panel} {n : ID} {rd : Round} {a : ActorState} :
      P.prog (.actor n) = Prog.ret (some a) → Ready P.world n rd →
      Step P (.select n rd) ⟨⟨receive P.world n rd, Function.update P.prog (.actor n) (rd.task a)⟩,
        Function.update P.users (.actor n) []⟩
  | nodes {P : Panel} {w : World} : w.db = P.world.db → w.reconcileCh = P.world.reconcileCh →
      Step P .nodes { P with world := w }

/-- No other thread is at work on one of these users. -/
def Free (P : Panel) (i : Thread) (users : List ID) : Prop :=
  ∀ j, j ≠ i → ∀ id ∈ users, id ∈ P.users j → P.Idle j

/-- Operations on one user do not overlap: an operation begins, and the sweep or a collector flips
users, while nobody else is at work on them. -/
def Apart (P : Panel) : PanelAct → Prop
  | .call i s r => P.Free i (flipped s r)
  | .begins j op => P.Free (.api j) op.users
  | .select _ _ => True
  | .nodes => True

def ApartStep (P : Panel) (a : PanelAct) (Q : Panel) : Prop := Step P a Q ∧ P.Apart a

end Panel

/-! ## The statements and what they do -/

/-- The statements of an operation on these users. -/
def Operating (users : List ID) : Stmt → Prop
  | .db (.getUser _) => True
  | .db (.getPlan _) => True
  | .db (.listInboundsByIDs _) => True
  | .db (.assignmentTargetsForUser _) => True
  | .db (.resetTraffic _) => True
  | .db (.expireDueUsers _) => True
  | .db (.setUserStatus id _) => id ∈ users
  | .db (.updateUser u) => u.id ∈ users
  | .db (.createWithAssignmentsTx u _) => u.id ∈ users
  | .db (.setAssignmentsForUserTx id _) => id ∈ users
  | .trigger _ => True
  | _ => False

/-- The statements of an actor outside its passes. -/
def Tending : Stmt → Prop
  | .dial _ => True
  | .ping _ => True
  | .queryUserTraffic _ => True
  | .db (.setNodeHealth _ _ _ _) => True
  | .db (.userIDsByEmail _) => True
  | .db (.applyTrafficDeltas _ _ _) => True
  | .db (.assignmentTargetsForUser _) => True
  | .trigger _ => True
  | _ => False

/-- The statements after a commit: lists of targets, triggers and the read of the result. -/
def Waking : Stmt → Prop
  | .db (.getUser _) => True
  | .db (.assignmentTargetsForUser _) => True
  | .trigger _ => True
  | _ => False

/-- The statement writes neither assignments nor inbounds. -/
def KeepsRows (s : Stmt) : Prop :=
  ∀ w r w', MayFail s w r w' → w'.tables.userInbounds = w.tables.userInbounds ∧
    w'.tables.inbounds = w.tables.inbounds

theorem keepsRows_of_readsOnly {s : Stmt} (h : ReadsOnly s) : KeepsRows s := by
  intro w r w' hw
  rw [h w r w' hw]
  exact ⟨rfl, rfl⟩

theorem keepsRows_db {q : StoreCall}
    (hq : ∀ t o t', q.apply t = .ok (o, t') →
      t'.userInbounds = t.userInbounds ∧ t'.inbounds = t.inbounds) : KeepsRows (.db q) := by
  intro w r w' h
  obtain ⟨e, -, ht⟩ | ⟨a, o, -, -, ho⟩ := mayFail_db h
  · rw [ht]
    exact ⟨rfl, rfl⟩
  · exact hq _ o _ ho

theorem keepsRows_of_writesUsers {q : StoreCall} (hq : q.WritesUsers) : KeepsRows (.db q) :=
  keepsRows_db fun _ _ _ h => (hq.restates h).elim fun _ hf => ⟨hf.rows, hf.inbounds⟩

/-- A step on a node or a channel. -/
theorem keepsRows_of_exec {s : Stmt} (hs : ∀ w r w', Answers s w r w' → w'.db = w.db) :
    KeepsRows s := by
  intro w r w' h
  obtain h | ⟨rfl, -⟩ := mayFail_cases h
  · rw [World.tables, hs w r w' h]
    exact ⟨rfl, rfl⟩
  · exact ⟨rfl, rfl⟩

theorem Waking.readsOnly {s : Stmt} (hs : Waking s) : ReadsOnly s := by
  unfold Waking at hs
  split at hs
  · exact readsOnly_getUser _
  · exact readsOnly_assignmentTargetsForUser _
  · exact readsOnly_trigger _
  · exact hs.elim

theorem Tending.keepsRows {s : Stmt} (hs : Tending s) : KeepsRows s := by
  unfold Tending at hs
  split at hs
  · exact keepsRows_of_exec fun _ _ _ h => by cases h; rfl
  · exact keepsRows_of_exec fun _ _ _ h => by cases h; rfl
  · exact keepsRows_of_exec fun _ _ _ h => by cases h; rfl
  · refine keepsRows_db fun t _ t' h => ?_
    have h := StoreCall.wrote_eq_ok.1 h
    unfold setNodeHealth at h
    split_ifs at h
    cases h
    exact ⟨rfl, rfl⟩
  · exact keepsRows_of_readsOnly (readsOnly_of_isWrite_eq_false rfl)
  · exact keepsRows_of_writesUsers trivial
  · exact keepsRows_of_readsOnly (readsOnly_of_isWrite_eq_false rfl)
  · exact keepsRows_of_readsOnly (readsOnly_trigger _)
  · exact hs.elim

/-- What becomes of an assignment that is set or inserted: a row that is there stays, or becomes a
tombstone. -/
def Resets (old new : Option UserInbound) : Prop :=
  new = old.map tombstoned ∨ ∃ row, new = some (old.getD row)

/-- An operation writes assignments of its own users only, and inserts or tombstones them. -/
theorem Operating.rows {users : List ID} {s : Stmt} {r : s.Res} {w w' : World}
    (hs : Operating users s) (h : MayFail s w r w') :
    w'.tables.inbounds = w.tables.inbounds ∧ ∀ id inboundID,
      assignment w'.tables id inboundID = assignment w.tables id inboundID ∨
        (id ∈ users ∧
          Resets (assignment w.tables id inboundID) (assignment w'.tables id inboundID)) := by
  have hkept : KeepsRows s → w'.tables.inbounds = w.tables.inbounds ∧ ∀ id inboundID,
      assignment w'.tables id inboundID = assignment w.tables id inboundID ∨
        (id ∈ users ∧
          Resets (assignment w.tables id inboundID) (assignment w'.tables id inboundID)) := by
    intro hs
    obtain ⟨hrows, hinbounds⟩ := hs w r w' h
    exact ⟨hinbounds, fun _ _ => Or.inl (assignment_congr hrows)⟩
  unfold Operating at hs
  split at hs
  · exact hkept (keepsRows_of_readsOnly (readsOnly_of_isWrite_eq_false rfl))
  · exact hkept (keepsRows_of_readsOnly (readsOnly_of_isWrite_eq_false rfl))
  · exact hkept (keepsRows_of_readsOnly (readsOnly_of_isWrite_eq_false rfl))
  · exact hkept (keepsRows_of_readsOnly (readsOnly_of_isWrite_eq_false rfl))
  · exact hkept (keepsRows_of_writesUsers trivial)
  · exact hkept (keepsRows_of_writesUsers trivial)
  · exact hkept (keepsRows_of_writesUsers trivial)
  · exact hkept (keepsRows_of_writesUsers trivial)
  · next u ids =>
      obtain ⟨e, -, ht⟩ | ⟨a, o, -, -, ho⟩ := mayFail_db h
      · rw [ht]
        exact ⟨rfl, fun _ _ => Or.inl rfl⟩
      · have ho := StoreCall.wrote_eq_ok.1 ho
        refine ⟨(createWithAssignmentsTx_static ho).1, fun id inboundID => ?_⟩
        rw [assignment_createWithAssignmentsTx ho]
        split_ifs with hid
        · exact Or.inr ⟨hid.1 ▸ hs, Or.inr ⟨_, rfl⟩⟩
        · exact Or.inl rfl
  · next a ids =>
      obtain ⟨e, -, ht⟩ | ⟨_, o, -, -, ho⟩ := mayFail_db h
      · rw [ht]
        exact ⟨rfl, fun _ _ => Or.inl rfl⟩
      · have ho := StoreCall.wrote_eq_ok.1 ho
        refine ⟨(setAssignmentsForUserTx_static ho).2.1, fun id inboundID => ?_⟩
        rw [assignment_setAssignmentsForUserTx ho]
        split_ifs with hid hmem hex
        · exact Or.inr ⟨hid ▸ hs, Or.inr ⟨_, rfl⟩⟩
        · exact Or.inr ⟨hid ▸ hs, Or.inl rfl⟩
        · exact Or.inl rfl
        · exact Or.inl rfl
  · exact hkept (keepsRows_of_readsOnly (readsOnly_trigger _))
  · exact hs.elim

/-! ## Whose entries a statement changes -/

/-- The users whose entries a statement may change without changing their assignments, or whom it
has just created. -/
def altered : (s : Stmt) → s.Res → List ID
  | .db (.createWithAssignmentsTx u _), .ok _ => [u.id]
  | .db q, .ok o => q.restated o
  | _, _ => []

theorem mem_restated_of_sameRows {q : StoreCall} {a o : q.Out} (h : SameRows q a o) {id : ID}
    (hid : id ∈ q.restated o) : id ∈ q.restated a := by
  cases q with
  | updateUser u => exact hid
  | setUserStatus id status => exact hid
  | expireDueUsers now => exact (List.Perm.mem_iff h).2 hid
  | applyTrafficDeltas n deltas collectedAt => exact (List.Perm.mem_iff h).2 hid
  | _ => exact hid

theorem altered_of_writesUsers {q : StoreCall} (hq : q.WritesUsers) (o : q.Out) :
    altered (.db q) (.ok o) = q.restated o := by
  cases q with
  | createWithAssignmentsTx u ids => exact hq.elim
  | _ => rfl

theorem not_changed_self {id n : ID} {t : Tables} : ¬ Changed id n t t := by
  rintro ⟨d, -, h | h⟩
  · exact h Iff.rfl
  · exact h Iff.rfl

/-- A write of users that changes entries has altered the user. -/
theorem changed_of_writesUsers {q : StoreCall} (hq : q.WritesUsers) {r : Except StoreErr q.Out}
    {w w' : World} (h : MayFail (.db q) w r w') {id n : ID}
    (hch : Changed id n w.tables w'.tables) :
    id ∈ altered (.db q) r ∧ ServedOn w'.tables id n := by
  obtain ⟨e, -, ht⟩ | ⟨a, o, rfl, hrows, ho⟩ := mayFail_db h
  · rw [ht] at hch
    exact (not_changed_self hch).elim
  · obtain ⟨hid, hserved⟩ := hq.changed w.db.valid w'.db.valid ho hch
    rw [altered_of_writesUsers hq]
    exact ⟨mem_restated_of_sameRows hrows hid, hserved⟩

/-- A statement of an operation that changes entries has altered their user, who has a live
assignment on the node, or has set the user's assignments and reaches the node. -/
theorem Operating.changed {users : List ID} {s : Stmt} {r : s.Res} {w w' : World}
    (hs : Operating users s) (h : MayFail s w r w') {id n : ID}
    (hch : Changed id n w.tables w'.tables) :
    (id ∈ altered s r ∧ ServedOn w'.tables id n) ∨
      ∃ ids, (⟨s, r⟩ : Event Stmt Stmt.Res) = ⟨.db (.setAssignmentsForUserTx id ids), .ok ()⟩ ∧
        Affected w.tables id ids.elems n := by
  have hread : ReadsOnly s → False := by
    intro hs
    rw [hs w r w' h] at hch
    exact not_changed_self hch
  unfold Operating at hs
  split at hs
  · exact (hread (readsOnly_of_isWrite_eq_false rfl)).elim
  · exact (hread (readsOnly_of_isWrite_eq_false rfl)).elim
  · exact (hread (readsOnly_of_isWrite_eq_false rfl)).elim
  · exact (hread (readsOnly_of_isWrite_eq_false rfl)).elim
  · exact Or.inl (changed_of_writesUsers (q := .resetTraffic _) trivial h hch)
  · exact Or.inl (changed_of_writesUsers (q := .expireDueUsers _) trivial h hch)
  · exact Or.inl (changed_of_writesUsers (q := .setUserStatus _ _) trivial h hch)
  · exact Or.inl (changed_of_writesUsers (q := .updateUser _) trivial h hch)
  · next u ids =>
      obtain ⟨e, -, ht⟩ | ⟨a, o, rfl, -, ho⟩ := mayFail_db h
      · rw [ht] at hch
        exact (not_changed_self hch).elim
      · obtain ⟨rfl, hserved⟩ := changed_createWithAssignmentsTx w.db.valid w'.db.valid
          (StoreCall.wrote_eq_ok.1 ho) hch
        exact Or.inl ⟨List.mem_singleton.2 rfl, hserved⟩
  · next a ids =>
      obtain ⟨e, -, ht⟩ | ⟨_, o, rfl, -, ho⟩ := mayFail_db h
      · rw [ht] at hch
        exact (not_changed_self hch).elim
      · obtain ⟨rfl, haff⟩ := changed_setAssignmentsForUserTx w.db.valid w'.db.valid
          (StoreCall.wrote_eq_ok.1 ho) hch
        exact Or.inr ⟨ids, rfl, haff⟩
  · exact (hread (readsOnly_trigger _)).elim
  · exact hs.elim

/-- Whom an operation alters it is about, or has just flipped. -/
theorem Operating.mem_users {users : List ID} {s : Stmt} {r : s.Res} (hs : Operating users s)
    {id : ID} (hid : id ∈ altered s r) : id ∈ flipped s r ++ users := by
  cases s with
  | db q =>
      cases r with
      | error e => cases q <;> cases hid
      | ok o =>
          cases q with
          | updateUser u => exact List.mem_singleton.1 hid ▸ hs
          | setUserStatus a status => exact List.mem_singleton.1 hid ▸ hs
          | createWithAssignmentsTx u ids => exact List.mem_singleton.1 hid ▸ hs
          | expireDueUsers now => exact List.mem_append_left users hid
          | applyTrafficDeltas n deltas collectedAt => exact List.mem_append_left users hid
          | _ => cases hid
  | _ => cases hid

end XrayApi.Worker
