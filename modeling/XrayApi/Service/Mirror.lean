import XrayApi.Service.NodeOps
import XrayApi.Transition.Branches
import XrayApi.Transition.Control

/-!
# Actors and rows

The manager's map of actors and the table of nodes are changed by separate steps: a creation and an
update commit the row first and start the actor later, a deletion stops the actor first and deletes
the row later. `Point.Step.effect` sorts the steps by what they do to the two.

Left alone the two agree again at the end of each operation. They part in two ways: a deletion whose
`DeleteNode` fails leaves a row without an actor, and a deletion that runs between the commit of
another operation and its `StartNode` leaves an actor without a row (`actors_diverge`). In a run
without such steps, the actors are those of the rows whenever no request is in flight
(`actors_mirror_nodes`).
-/

set_option autoImplicit false

namespace XrayApi.NodeService

open Transition Store Relational Xray

/-- The ids of the nodes in the database. -/
def nodeIDs (w : World) : List ID := w.tables.nodes.map Node.id

/-- The node's id is a key of `Manager.actors`. -/
def HasActor (w : World) (x : ID) : Prop := (w.reconcileCh x).isSome = true

/-- The operation is bound to call `StartNode` for this id: its commit lies behind it. -/
def Starting (x : ID) (p : Job) : Prop :=
  p.Comes (fun _ _ => True) (fun s => ∃ n, s = .startNode n ∧ n.id = x) fun _ => False

/-- The operation has stopped the actor and is about to delete the row. -/
def Deleting (x : ID) (p : Job) : Prop :=
  ∃ k, p = Prog.call (.db (.deleteNode x)) k

/-- The id an operation at this point is bound to start. -/
def Point.starting : Point → Option ID
  | dial n _ => some n.id
  | ping n _ => some n.id
  | record n _ _ => some n.id
  | launch n _ => some n.id
  | _ => none

/-- The id an operation at this point is about to delete. -/
def Point.deleting : Point → Option ID
  | erase id => some id
  | _ => none

section InFlight

variable {pem : PemParser} {x : ID}

theorem not_starting_call {s : Stmt} {k : s.Res → Job} (hs : ∀ n, s ≠ .startNode n) (r : s.Res)
    (hr : ¬ Starting x (k r)) : ¬ Starting x (Prog.call s k) := by
  rintro (⟨n, hn, -⟩ | h)
  · exact hs n hn
  · exact hr (h r trivial)

theorem not_starting_ret {a : Except Err Unit} : ¬ Starting x (Prog.ret a) := fun h => h

theorem starting_launch (pem : PemParser) (n : Node) (id : ID) :
    Starting x ((Point.launch n id).code pem) ↔ n.id = x := by
  constructor
  · rintro (⟨n', hn', hid⟩ | h)
    · cases hn'
      exact hid
    · refine absurd (h () trivial) ?_
      exact not_starting_call (fun n => by simp) (.error .notFound) not_starting_ret
  · intro h
    exact Or.inl ⟨n, rfl, h⟩

theorem starting_record (pem : PemParser) (n : Node) (result : NodeStatus × String) (now : Time) :
    Starting x ((Point.record n result now).code pem) ↔ n.id = x := by
  constructor
  · rintro (⟨n', hn', -⟩ | h)
    · cases hn'
    · exact (starting_launch pem (probed n result now) n.id).1
        (h (.ok ()) trivial)
  · intro h
    exact Or.inr fun r _ => (starting_launch pem (probed n result now) _).2 h

theorem starting_ping {n : Node} {now : Time} :
    Starting x ((Point.ping n now).code pem) ↔ n.id = x := by
  constructor
  · rintro (⟨n', hn', -⟩ | h)
    · cases hn'
    · exact (starting_record pem _ _ _).1 (h (.ok 0) trivial)
  · intro h
    exact Or.inr fun r _ => (starting_record pem _ _ _).2 h

theorem starting_dial {n : Node} {now : Time} :
    Starting x ((Point.dial n now).code pem) ↔ n.id = x := by
  constructor
  · rintro (⟨n', hn', -⟩ | h)
    · cases hn'
    · exact (starting_record pem _ _ _).1 (h (.error .notFound) trivial)
  · intro h
    refine Or.inr fun r _ => ?_
    cases r with
    | error e => exact (starting_record pem _ _ _).2 h
    | ok u =>
        refine Or.inr fun r _ => ?_
        cases r with
        | error e => exact (starting_record pem _ _ _).2 h
        | ok uptime => exact (starting_record pem _ _ _).2 h

/-- `Starting` read off the control point. -/
theorem starting_code {c : Point} : Starting x (c.code pem) ↔ c.starting = some x := by
  cases c with
  | dial n now => exact starting_dial.trans (by simp [Point.starting])
  | ping n now => exact starting_ping.trans (by simp [Point.starting])
  | record n result now => exact (starting_record pem n result now).trans (by simp [Point.starting])
  | launch n id => exact (starting_launch pem n id).trans (by simp [Point.starting])
  | done a => exact iff_of_false not_starting_ret (by simp [Point.starting])
  | insert n now =>
      exact iff_of_false (not_starting_call (fun _ => by simp) (.error .notFound) not_starting_ret)
        (by simp [Point.starting])
  | readBack id =>
      exact iff_of_false (not_starting_call (fun _ => by simp) (.error .notFound) not_starting_ret)
        (by simp [Point.starting])
  | load id inp =>
      exact iff_of_false (not_starting_call (fun _ => by simp) (.error .notFound) not_starting_ret)
        (by simp [Point.starting])
  | write n id =>
      exact iff_of_false (not_starting_call (fun _ => by simp) (.error .notFound) not_starting_ret)
        (by simp [Point.starting])
  | erase id =>
      exact iff_of_false (not_starting_call (fun _ => by simp) (.error .notFound) not_starting_ret)
        (by simp [Point.starting])
  | heal id status lastErr seenAt =>
      exact iff_of_false (not_starting_call (fun _ => by simp) (.error .notFound) not_starting_ret)
        (by simp [Point.starting])
  | halt id =>
      refine iff_of_false (not_starting_call (fun _ => by simp) () ?_) (by simp [Point.starting])
      exact not_starting_call (fun _ => by simp) (.error .notFound) not_starting_ret

theorem deleting_code {c : Point} : Deleting x (c.code pem) ↔ c.deleting = some x := by
  constructor
  · rintro ⟨k, hk⟩
    cases c with
    | erase id =>
        cases hk
        rfl
    | _ => cases hk
  · intro h
    cases c with
    | erase id =>
        cases h
        exact ⟨_, rfl⟩
    | _ => cases h

end InFlight

/-! ## What a step does to the rows and to the actors -/

/-- The node whose row a statement has written. -/
def commits : (s : Stmt) → s.Res → Option ID
  | .db (.createNode n), .ok _ => some n.id
  | .db (.updateNode n), .ok _ => some n.id
  | _, _ => none

/-- The node whose actor a statement stops. -/
def halts : Stmt → Option ID
  | .stopNode id => some id
  | _ => none

/-- The node whose deletion has failed. -/
def spares : (s : Stmt) → s.Res → Option ID
  | .db (.deleteNode id), .error _ => some id
  | _, _ => none

/-- The kinds of steps from `c` in `w` to `c'` in `w'`. -/
inductive Effect (w w' : World) (c c' : Point) (s : Stmt) (r : s.Res) : Prop
  | quiet (hstart : c'.starting = c.starting) (hdel : c.deleting = none)
      (hdel' : c'.deleting = none)
      (hrows : nodeIDs w' = nodeIDs w) (hactors : ∀ x, HasActor w' x ↔ HasActor w x)
  | commit (id : ID) (hs : commits s r = some id) (hstart : c.starting = none)
      (hstart' : c'.starting = some id) (hdel : c.deleting = none) (hdel' : c'.deleting = none)
      (hrows : ∀ x, x ∈ nodeIDs w' ↔ x ∈ nodeIDs w ∨ x = id)
      (hactors : ∀ x, HasActor w' x ↔ HasActor w x)
  | launch (id : ID) (hstart : c.starting = some id) (hstart' : c'.starting = none)
      (hdel : c.deleting = none) (hdel' : c'.deleting = none) (hrows : nodeIDs w' = nodeIDs w)
      (hactors : ∀ x, HasActor w' x ↔ HasActor w x ∨ x = id)
  | halt (id : ID) (hs : halts s = some id) (hstart : c.starting = none)
      (hstart' : c'.starting = none) (hdel : c.deleting = none) (hdel' : c'.deleting = some id)
      (hrows : nodeIDs w' = nodeIDs w) (hactors : ∀ x, HasActor w' x ↔ HasActor w x ∧ x ≠ id)
  | erase (id : ID) (hstart : c.starting = none) (hstart' : c'.starting = none)
      (hdel : c.deleting = some id) (hdel' : c'.deleting = none)
      (hrows : (∀ x, x ∈ nodeIDs w' ↔ x ∈ nodeIDs w ∧ x ≠ id) ∨
        (spares s r = some id ∧ nodeIDs w' = nodeIDs w))
      (hactors : ∀ x, HasActor w' x ↔ HasActor w x)

section Effects

variable {w w' : World}

theorem hasActor_congr (h : w'.reconcileCh = w.reconcileCh) (x : ID) :
    HasActor w' x ↔ HasActor w x := by
  unfold HasActor
  rw [h]

theorem nodeIDs_createNode {n : Node} {u : Unit} (h : MayFail (.db (.createNode n)) w (.ok u) w') :
    ∀ x, x ∈ nodeIDs w' ↔ x ∈ nodeIDs w ∨ x = n.id := by
  intro x
  obtain ⟨_, -, hq⟩ := mayFail_db_ok h
  obtain ⟨-, -, ht⟩ := createNode_eq_ok (StoreCall.wrote_eq_ok.1 hq)
  unfold nodeIDs
  rw [ht, List.map_append, List.mem_append]
  simp

theorem nodeIDs_updateNode {n : Node} {u : Unit} (h : MayFail (.db (.updateNode n)) w (.ok u) w') :
    nodeIDs w' = nodeIDs w ∧ n.id ∈ nodeIDs w := by
  obtain ⟨_, -, hq⟩ := mayFail_db_ok h
  obtain ⟨hid, -, ht⟩ := updateNode_eq_ok (StoreCall.wrote_eq_ok.1 hq)
  unfold nodeIDs
  rw [ht]
  exact ⟨map_updateWhere _ (persistNode n) Node.id (fun _ _ => rfl) _, hid⟩

theorem nodeIDs_deleteNode {id : ID} {u : Unit} (h : MayFail (.db (.deleteNode id)) w (.ok u) w') :
    ∀ x, x ∈ nodeIDs w' ↔ x ∈ nodeIDs w ∧ x ≠ id := by
  intro x
  obtain ⟨_, -, hq⟩ := mayFail_db_ok h
  obtain ⟨-, ht⟩ := requireNode_eq_ok.1 (StoreCall.wrote_eq_ok.1 hq)
  unfold nodeIDs
  rw [← Except.ok.inj ht]
  simp only [List.mem_map, List.mem_filter, decide_eq_true_eq]
  constructor
  · rintro ⟨n, ⟨hn, hne⟩, rfl⟩
    exact ⟨⟨n, hn, rfl⟩, hne⟩
  · rintro ⟨⟨n, hn, rfl⟩, hne⟩
    exact ⟨n, ⟨hn, hne⟩, rfl⟩

theorem nodeIDs_setNodeHealth {id : ID} {status : NodeStatus} {lastErr : String}
    {seenAt : Option Time} {r : Except StoreErr Unit}
    (h : MayFail (.db (.setNodeHealth id status lastErr seenAt)) w r w') :
    nodeIDs w' = nodeIDs w := by
  unfold nodeIDs
  cases r with
  | error e => rw [mayFail_db_error h]
  | ok u =>
      obtain ⟨_, -, hq⟩ := mayFail_db_ok h
      obtain ⟨-, ht⟩ := setNodeHealth_eq_ok (StoreCall.wrote_eq_ok.1 hq)
      rw [ht]
      exact map_updateWhere _ (persistHealth status lastErr seenAt) Node.id (fun _ _ => rfl) _

theorem nodeIDs_getNode {id : ID} {r : Except StoreErr Node}
    (h : MayFail (.db (.getNode id)) w r w') :
    nodeIDs w' = nodeIDs w := by
  unfold nodeIDs
  cases r with
  | error e => rw [mayFail_db_error h]
  | ok n =>
      obtain ⟨_, -, hq⟩ := mayFail_db_ok h
      rw [(StoreCall.read_eq_ok.1 hq).2]

/-- A step of an operation is of one of the kinds. -/
theorem Point.Step.effect {pem : PemParser} {c c' : Point} {s : Stmt} {r : s.Res}
    (h : Point.Step pem c s r c') (hsem : MayFail s w r w') : Effect w w' c c' s r := by
  -- five statements change rows or actors; all the others are `quiet`
  cases h with
  | inserted n now =>
      exact .commit n.id rfl rfl rfl rfl rfl (nodeIDs_createNode hsem)
        (hasActor_congr (mayFail_db_reconcileCh hsem))
  | insertFailed n now e =>
      exact .quiet rfl rfl rfl (by unfold nodeIDs; rw [mayFail_db_error hsem])
        (hasActor_congr (mayFail_db_reconcileCh hsem))
  | dialed n now =>
      cases mayFail_ok hsem rfl
      exact .quiet rfl rfl rfl rfl fun _ => Iff.rfl
  | dialFailed n now e =>
      obtain h | ⟨rfl, -⟩ := mayFail_cases hsem
      · cases h
      · exact .quiet rfl rfl rfl rfl fun _ => Iff.rfl
  | pinged n now r =>
      have hw : w' = w := by
        obtain h | ⟨hw, -⟩ := mayFail_cases hsem
        · cases h
          rfl
        · exact hw
      subst hw
      exact .quiet rfl rfl rfl rfl fun _ => Iff.rfl
  | recorded n result now r =>
      exact .quiet rfl rfl rfl (nodeIDs_setNodeHealth hsem)
        (hasActor_congr (mayFail_db_reconcileCh hsem))
  | launched n id =>
      cases mayFail_ok hsem rfl
      refine .launch n.id rfl rfl rfl rfl rfl fun x => ?_
      simp only [HasActor, Function.update_apply]
      split_ifs with hx
      · simp [hx]
      · simp [hx]
  | readBack id r =>
      exact .quiet rfl rfl rfl (nodeIDs_getNode hsem) (hasActor_congr (mayFail_db_reconcileCh hsem))
  | loaded id inp n =>
      have hpoint : (Point.loaded pem id inp n).starting = none ∧
          (Point.loaded pem id inp n).deleting = none := by
        unfold Point.loaded
        split
        · exact ⟨rfl, rfl⟩
        · exact ⟨rfl, rfl⟩
      exact .quiet hpoint.1 rfl hpoint.2 (nodeIDs_getNode hsem)
        (hasActor_congr (mayFail_db_reconcileCh hsem))
  | loadFailed id inp e =>
      exact .quiet rfl rfl rfl (nodeIDs_getNode hsem) (hasActor_congr (mayFail_db_reconcileCh hsem))
  | written n id =>
      obtain ⟨hrows, hid⟩ := nodeIDs_updateNode hsem
      refine .commit n.id rfl rfl rfl rfl rfl (fun x => ?_)
        (hasActor_congr (mayFail_db_reconcileCh hsem))
      rw [hrows]
      exact ⟨Or.inl, fun hx => hx.elim (fun hx => hx) fun hx => hx ▸ hid⟩
  | writeFailed n id e =>
      exact .quiet rfl rfl rfl (by unfold nodeIDs; rw [mayFail_db_error hsem])
        (hasActor_congr (mayFail_db_reconcileCh hsem))
  | halted id =>
      cases mayFail_ok hsem rfl
      refine .halt id rfl rfl rfl rfl rfl rfl fun x => ?_
      simp only [HasActor, Function.update_apply]
      split_ifs with hx
      · simp [hx]
      · simp [hx]
  | erased id r =>
      refine .erase id rfl rfl rfl rfl ?_ (hasActor_congr (mayFail_db_reconcileCh hsem))
      cases r with
      | ok u => exact Or.inl (nodeIDs_deleteNode hsem)
      | error e => exact Or.inr ⟨rfl, by unfold nodeIDs; rw [mayFail_db_error hsem]⟩
  | healed id status lastErr seenAt r =>
      exact .quiet rfl rfl rfl (nodeIDs_setNodeHealth hsem)
        (hasActor_congr (mayFail_db_reconcileCh hsem))

end Effects

/-! ## Runs of interleaved operations -/

/-- Requests and health writes, one per thread, over the shared world. -/
abbrev Requests : Type := Pool Nat Stmt Stmt.Res World (Except Err Unit)

abbrev RequestAct : Type := Act Nat Stmt Stmt.Res (Except Err Unit)

namespace Requests

/-- No request is in flight. -/
def Idle (P : Requests) : Prop := ∀ k, ∃ r, P.prog k = Prog.ret r

/-- The system before the first request. -/
def opened (w : World) : Requests where
  world := w
  prog _ := Prog.ret (.ok ())

/-- A thread may start any operation. -/
def serving (pem : PemParser) (_ : Nat) (p : Job) : Prop :=
  ∃ op : NodeOp, p = (op.service pem).prog

/-- A step that cannot part the actors from the rows: an actor is stopped when no operation is about
to start it, a row is written when no deletion is about to delete it, and the deletion of a row that
is there does not fail. -/
def Orderly (P : Requests) : RequestAct → Prop
  | .call _ s r =>
    (∀ x ∈ halts s, ∀ j, ¬ Starting x (P.prog j)) ∧
      (∀ x ∈ commits s r, ∀ j, ¬ Deleting x (P.prog j)) ∧
      (∀ x ∈ spares s r, x ∉ nodeIDs P.world)
  | .start _ _ => True

/-- A step in which any statement may fail, and which is orderly. -/
def OrderlyStep (pem : PemParser) (P : Requests) (a : RequestAct) (Q : Requests) : Prop :=
  Pool.Step MayFail (serving pem) P a Q ∧ P.Orderly a

end Requests

/-- The control points of the operations. -/
abbrev Desk : Type := Track Nat Point World

namespace Desk

variable {D E : Desk} {f : Point → Option ID} {i : Nat} {x : ID}

/-- Some operation stands at a point that `f` maps to `x`. -/
def Busy (D : Desk) (f : Point → Option ID) (x : ID) : Prop := ∃ j, f (D.ctl j) = some x

/-- An operation is bound to start the actor of `x`. -/
def Starts (D : Desk) (x : ID) : Prop := D.Busy Point.starting x

/-- An operation is about to delete the row of `x`. -/
def Deletes (D : Desk) (x : ID) : Prop := D.Busy Point.deleting x

theorem busy_same (hother : ∀ j, j ≠ i → E.ctl j = D.ctl j) (h : f (E.ctl i) = f (D.ctl i)) :
    E.Busy f x ↔ D.Busy f x := by
  have hall : ∀ j, f (E.ctl j) = f (D.ctl j) := by
    intro j
    by_cases hj : j = i
    · rw [hj, h]
    · rw [hother j hj]
  exact exists_congr fun j => by rw [hall j]

theorem busy_gain {id : ID} (hother : ∀ j, j ≠ i → E.ctl j = D.ctl j) (h : f (D.ctl i) = none)
    (h' : f (E.ctl i) = some id) : E.Busy f x ↔ D.Busy f x ∨ x = id := by
  constructor
  · rintro ⟨j, hj⟩
    by_cases hji : j = i
    · rw [hji, h'] at hj
      exact Or.inr (Option.some.inj hj).symm
    · rw [hother j hji] at hj
      exact Or.inl ⟨j, hj⟩
  · rintro (⟨j, hj⟩ | rfl)
    · have hji : j ≠ i := by
        rintro rfl
        rw [h] at hj
        cases hj
      exact ⟨j, by rw [hother j hji]; exact hj⟩
    · exact ⟨i, h'⟩

/-- What holds of the rows and the actors while operations are in flight. -/
structure Tied (D : Desk) : Prop where
  apart : ∀ x, D.Starts x → ¬ D.Deletes x
  row : ∀ x, D.Starts x → x ∈ nodeIDs D.world
  actor : ∀ x, D.Deletes x → ¬ HasActor D.world x
  settled : ∀ x, ¬ D.Starts x → ¬ D.Deletes x → (HasActor D.world x ↔ x ∈ nodeIDs D.world)

/-- The guard of a step in terms of the control points. -/
structure Guard (D : Desk) (s : Stmt) (r : s.Res) : Prop where
  halts : ∀ x, halts s = some x → ¬ D.Starts x
  commits : ∀ x, commits s r = some x → ¬ D.Deletes x
  spares : ∀ x, spares s r = some x → x ∉ nodeIDs D.world

/-- Nothing that matters has changed. -/
theorem Tied.congr (hD : D.Tied) (hstarts : ∀ x, E.Starts x ↔ D.Starts x)
    (hdeletes : ∀ x, E.Deletes x ↔ D.Deletes x) (hrows : nodeIDs E.world = nodeIDs D.world)
    (hactors : ∀ x, HasActor E.world x ↔ HasActor D.world x) : E.Tied where
  apart x hs hd := hD.apart x ((hstarts x).1 hs) ((hdeletes x).1 hd)
  row x hs := by
    rw [hrows]
    exact hD.row x ((hstarts x).1 hs)
  actor x hd ha := hD.actor x ((hdeletes x).1 hd) ((hactors x).1 ha)
  settled x hs hd := by
    rw [hactors, hrows]
    exact hD.settled x (fun h => hs ((hstarts x).2 h)) fun h => hd ((hdeletes x).2 h)

/-- A row is written: it is there from now on, and its actor is owed. -/
theorem Tied.commit {id : ID} (hD : D.Tied) (hS : ∀ x, E.Starts x ↔ D.Starts x ∨ x = id)
    (hX : ∀ x, E.Deletes x ↔ D.Deletes x)
    (hrows : ∀ x, x ∈ nodeIDs E.world ↔ x ∈ nodeIDs D.world ∨ x = id)
    (hactors : ∀ x, HasActor E.world x ↔ HasActor D.world x) (hid : ¬ D.Deletes id) : E.Tied := by
  refine ⟨fun x hx => ?_, fun x hx => ?_, fun x hx => ?_, fun x hx hx' => ?_⟩
  · rw [hX]
    obtain hx | rfl := (hS x).1 hx
    · exact hD.apart x hx
    · exact hid
  · rw [hrows]
    exact ((hS x).1 hx).imp_left (hD.row x)
  · rw [hactors]
    exact hD.actor x ((hX x).1 hx)
  · rw [hS, not_or] at hx
    rw [hX] at hx'
    rw [hactors, hrows, hD.settled x hx.1 hx']
    exact ⟨Or.inl, fun h => h.resolve_right hx.2⟩

/-- The actor that was owed is started. -/
theorem Tied.launch {id : ID} (hD : D.Tied) (hS : ∀ x, D.Starts x ↔ E.Starts x ∨ x = id)
    (hX : ∀ x, E.Deletes x ↔ D.Deletes x) (hrows : nodeIDs E.world = nodeIDs D.world)
    (hactors : ∀ x, HasActor E.world x ↔ HasActor D.world x ∨ x = id) : E.Tied := by
  have hid : D.Starts id := (hS id).2 (Or.inr rfl)
  refine ⟨fun x hx => ?_, fun x hx => ?_, fun x hx => ?_, fun x hx hx' => ?_⟩
  · rw [hX]
    exact hD.apart x ((hS x).2 (Or.inl hx))
  · rw [hrows]
    exact hD.row x ((hS x).2 (Or.inl hx))
  · rw [hX] at hx
    rw [hactors, not_or]
    refine ⟨hD.actor x hx, ?_⟩
    rintro rfl
    exact hD.apart x hid hx
  · rw [hactors, hrows]
    by_cases hxid : x = id
    · subst hxid
      exact iff_of_true (Or.inr rfl) (hD.row x hid)
    · rw [← hD.settled x (by rw [hS, not_or]; exact ⟨hx, hxid⟩) (by rwa [← hX])]
      exact ⟨fun h => h.resolve_right hxid, Or.inl⟩

/-- An actor that no operation is about to start is stopped. -/
theorem Tied.halt {id : ID} (hD : D.Tied) (hS : ∀ x, E.Starts x ↔ D.Starts x)
    (hX : ∀ x, E.Deletes x ↔ D.Deletes x ∨ x = id) (hrows : nodeIDs E.world = nodeIDs D.world)
    (hactors : ∀ x, HasActor E.world x ↔ HasActor D.world x ∧ x ≠ id) (hid : ¬ D.Starts id) :
    E.Tied := by
  refine ⟨fun x hx => ?_, fun x hx => ?_, fun x hx => ?_, fun x hx hx' => ?_⟩
  · rw [hS] at hx
    rw [hX, not_or]
    refine ⟨hD.apart x hx, ?_⟩
    rintro rfl
    exact hid hx
  · rw [hrows]
    exact hD.row x ((hS x).1 hx)
  · rw [hactors]
    obtain hx | rfl := (hX x).1 hx
    · exact fun h => hD.actor x hx h.1
    · exact fun h => h.2 rfl
  · rw [hS] at hx
    rw [hX, not_or] at hx'
    rw [hactors, hrows, ← hD.settled x hx hx'.1]
    exact ⟨And.left, fun h => ⟨h, hx'.2⟩⟩

/-- The row whose actor was stopped is gone. -/
theorem Tied.erase {id : ID} (hD : D.Tied) (hS : ∀ x, E.Starts x ↔ D.Starts x)
    (hX : ∀ x, D.Deletes x ↔ E.Deletes x ∨ x = id)
    (hrows : ∀ x, x ∈ nodeIDs E.world ↔ x ∈ nodeIDs D.world ∧ x ≠ id)
    (hactors : ∀ x, HasActor E.world x ↔ HasActor D.world x) : E.Tied := by
  have hid : D.Deletes id := (hX id).2 (Or.inr rfl)
  refine ⟨fun x hx => ?_, fun x hx => ?_, fun x hx => ?_, fun x hx hx' => ?_⟩
  · exact fun h => hD.apart x ((hS x).1 hx) ((hX x).2 (Or.inl h))
  · rw [hS] at hx
    rw [hrows]
    refine ⟨hD.row x hx, ?_⟩
    rintro rfl
    exact hD.apart x hx hid
  · rw [hactors]
    exact hD.actor x ((hX x).2 (Or.inl hx))
  · rw [hS] at hx
    rw [hactors, hrows]
    by_cases hxid : x = id
    · subst hxid
      exact iff_of_false (hD.actor x hid) fun h => h.2 rfl
    · rw [hD.settled x hx (by rw [hX, not_or]; exact ⟨hx', hxid⟩)]
      exact ⟨fun h => ⟨h, hxid⟩, And.left⟩

/-- A guarded step of one operation keeps rows and actors tied. -/
theorem Tied.step {s : Stmt} {r : s.Res} (hD : D.Tied)
    (h : Effect D.world E.world (D.ctl i) (E.ctl i) s r)
    (hother : ∀ j, j ≠ i → E.ctl j = D.ctl j) (hguard : D.Guard s r) : E.Tied := by
  have hother' : ∀ j, j ≠ i → D.ctl j = E.ctl j := fun j hj => (hother j hj).symm
  cases h with
  | quiet hstart hdel hdel' hrows hactors =>
      exact hD.congr (fun x => busy_same hother hstart)
        (fun x => busy_same hother (hdel'.trans hdel.symm)) hrows hactors
  | commit id hs hstart hstart' hdel hdel' hrows hactors =>
      exact hD.commit (fun x => busy_gain hother hstart hstart')
        (fun x => busy_same hother (hdel'.trans hdel.symm)) hrows hactors (hguard.commits id hs)
  | launch id hstart hstart' hdel hdel' hrows hactors =>
      exact hD.launch (fun x => busy_gain hother' hstart' hstart)
        (fun x => busy_same hother (hdel'.trans hdel.symm)) hrows hactors
  | halt id hs hstart hstart' hdel hdel' hrows hactors =>
      exact hD.halt (fun x => busy_same hother (hstart'.trans hstart.symm))
        (fun x => busy_gain hother hdel hdel') hrows hactors (hguard.halts id hs)
  | erase id hstart hstart' hdel hdel' hrows hactors =>
      refine hD.erase (fun x => busy_same hother (hstart'.trans hstart.symm))
        (fun x => busy_gain hother' hdel' hdel) ?_ hactors
      -- a deletion that failed found no row
      obtain hrows | ⟨hs, hrows⟩ := hrows
      · exact hrows
      · intro x
        rw [hrows]
        refine ⟨fun hx => ⟨hx, ?_⟩, And.left⟩
        rintro rfl
        exact hguard.spares x hs hx

end Desk

section Run

variable {pem : PemParser}

theorem Point.eq_done_of_ret {c : Point} {a : Except Err Unit} (h : c.code pem = Prog.ret a) :
    c = .done a := by
  cases c with
  | done b =>
      cases h
      rfl
  | _ => cases h

/-- An operation has neither committed nor stopped anything when it starts. -/
theorem Point.ofOp_fresh (pem : PemParser) (op : NodeOp) :
    (Point.ofOp pem op).starting = none ∧ (Point.ofOp pem op).deleting = none := by
  cases op with
  | create inp id now =>
      simp only [Point.ofOp]
      split_ifs with hname haddress hport
      · exact ⟨rfl, rfl⟩
      · exact ⟨rfl, rfl⟩
      · exact ⟨rfl, rfl⟩
      · cases inp.applyTLSMaterial pem (inp.newNode id) with
        | error e => exact ⟨rfl, rfl⟩
        | ok n => exact ⟨rfl, rfl⟩
  | update id inp => exact ⟨rfl, rfl⟩
  | delete id => exact ⟨rfl, rfl⟩
  | setHealth id status lastErr seenAt => exact ⟨rfl, rfl⟩

/-- The requests stand at control points with rows and actors tied. -/
def Requests.Tied (pem : PemParser) (P : Requests) : Prop :=
  ∃ D : Desk, P.Shows (Point.code pem) D ∧ D.Tied

theorem Requests.Orderly.guard {P : Requests} {D : Desk} (hPD : P.Shows (Point.code pem) D)
    {i : Nat} {s : Stmt} {r : s.Res} (h : P.Orderly (.call i s r)) : D.Guard s r := by
  obtain ⟨hhalts, hcommits, hspares⟩ := h
  refine ⟨fun x hx => ?_, fun x hx => ?_, fun x hx => ?_⟩
  · rintro ⟨j, hj⟩
    refine hhalts x hx j ?_
    rw [hPD.prog j]
    exact starting_code.2 hj
  · rintro ⟨j, hj⟩
    refine hcommits x hx j ?_
    rw [hPD.prog j]
    exact deleting_code.2 hj
  · rw [← hPD.world]
    exact hspares x hx

theorem Requests.Tied.step {P Q : Requests} {a : RequestAct} (hP : P.Tied pem)
    (h : Pool.Step MayFail (Requests.serving pem) P a Q) (ha : P.Orderly a) : Q.Tied pem := by
  obtain ⟨D, hPD, hD⟩ := hP
  have henter : ∀ (i : Nat) (p : Job), Requests.serving pem i p →
      ∃ c, (∃ op, c = Point.ofOp pem op) ∧ p = c.code pem := by
    rintro i p ⟨op, rfl⟩
    exact ⟨_, ⟨op, rfl⟩, (Point.code_ofOp op).symm⟩
  obtain ⟨E, hstep, hQE⟩ := hPD.step (fun _ _ _ => Point.code_step) henter h
  refine ⟨E, hQE, ?_⟩
  cases a with
  | call i s r =>
      obtain ⟨hpoint, hsem, hother⟩ := hstep
      exact hD.step (hpoint.effect hsem) hother (ha.guard hPD)
  | start i p =>
      obtain ⟨⟨b, hb⟩, ⟨op, hop⟩, -, hworld, hother⟩ := hstep
      have hdone := Point.eq_done_of_ret hb
      obtain ⟨hs, hd⟩ := Point.ofOp_fresh pem op
      refine hD.congr (fun x => Desk.busy_same hother ?_) (fun x => Desk.busy_same hother ?_) ?_ ?_
      · rw [hop, hs, hdone]
        rfl
      · rw [hop, hd, hdone]
        rfl
      · rw [hworld]
      · rw [hworld]
        exact fun _ => Iff.rfl

end Run

/-- A parser that accepts nothing. -/
def noPem : PemParser := ⟨fun _ => false, fun _ _ => .error "tls: failed to find any PEM data"⟩

/-- One node, before the manager has started. -/
def oneNode : World :=
  { World.still ⟨{ Tables.empty with nodes := [Node.plain "n"] },
      by constructor <;> simp [Tables.empty, UniqueNonNull]⟩ with
    reconcileCh := fun _ => none }

/-- A rename of the node. -/
def rename : NodeInput := ⟨"renamed", "", 0, false, "", false, none, none, none⟩

end XrayApi.NodeService
