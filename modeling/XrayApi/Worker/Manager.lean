import XrayApi.Worker.Collector
import XrayApi.Worker.Health

/-!
# The manager and its goroutines

`Manager` of `internal/worker/manager.go` with the goroutines it has spawned. `StartNode` closes the
stop channel of the registered actor, if there is one, and spawns a goroutine that executes `run` of
`internal/worker/nodeactor.go`: a first `checkHealth`, then one round after the other, each picked
in the `select` of the loop. The stop channel is looked at in that `select` only, and there Go picks
any case that is ready.

`Manager.Step` is one step of the whole: a statement of a goroutine's round, the choice of a round,
the return of `run`, or a statement of somebody else (a request), which may be a call of the
manager. The manager itself is not shut down.

An actor has written to its node before it looks at the stop channel again, so two actors of one
node may take turns (`interleaved_writers`). They do not if `StartNode` is called only when the
goroutines of the node have returned; if it is called earlier, they may (`one_writer`).
-/

set_option autoImplicit false

namespace XrayApi.Worker

open Transition Store Relational

/-! ## Rounds -/

/-- The fields of an actor that one round leaves to the next. -/
structure ActorState where
  health : NodeActor
  pendingDeltas : PendingDeltas

/-- The fields of a new actor. -/
def ActorState.new (n : Node) : ActorState := ⟨newNodeActor n, .empty⟩

/-- What is left of a round, up to the fields it leaves. -/
abbrev Rest : Type := Prog Stmt Stmt.Res ActorState

/-- The cases of the `select` that do not return; `reconcile` is the ticker, `triggered` the token.
-/
inductive Round
  | checkHealth (now : Time)
  | collect (c : Cycle)
  | reconcile
  | triggered

def Round.prog (a : ActorState) : Round → Rest
  | checkHealth now => Prog.bind (Worker.checkHealth a.health now).prog fun
    | .ok health => Prog.ret { a with health := health }
    | .error _ => Prog.ret a
  | collect c => Prog.bind (Worker.collect a.health.node.id c a.pendingDeltas).prog fun
    | .ok p => Prog.ret { a with pendingDeltas := p }
    | .error _ => Prog.ret a
  | reconcile => Prog.bind (runPass a.health.node.id).prog fun _ => Prog.ret a
  | triggered => Prog.bind (runPass a.health.node.id).prog fun _ => Prog.ret a

/-- A round starts with a statement: each of them first sees to the connection. -/
theorem Round.prog_eq_call (a : ActorState) (rd : Round) :
    ∃ k, rd.prog a = Prog.call (.dial a.health.node.id) k := by
  cases rd with
  | checkHealth now => exact ⟨_, rfl⟩
  | collect c => exact ⟨_, rfl⟩
  | reconcile => exact ⟨_, rfl⟩
  | triggered => exact ⟨_, rfl⟩

/-! ## Goroutines -/

/-- Where a goroutine stands in `run`. A round that has returned leaves it in the `select`. -/
inductive Phase
  | fresh (a : ActorState)
  | running (p : Rest)
  | returned

/-- The round that is picked in the `select`; the first one is a health check. -/
def Phase.select : Phase → Round → Option Rest
  | fresh a, .checkHealth now => some ((Round.checkHealth now).prog a)
  | running (.ret a), rd => some (rd.prog a)
  | _, _ => none

/-- The fields of an actor that is not in a round. -/
def Phase.fields : Phase → Option ActorState
  | fresh a => some a
  | running (.ret a) => some a
  | _ => none

/-- A goroutine that executes `run` of an actor; `stopped` says that `stopCh` is closed. -/
structure Goroutine where
  node : ID
  phase : Phase
  stopped : Bool

namespace Goroutine

def new (n : Node) : Goroutine := ⟨n.id, .fresh (.new n), false⟩

def stop (G : Goroutine) : Goroutine := { G with stopped := true }

def enter (phase : Phase) (G : Goroutine) : Goroutine := { G with phase := phase }

end Goroutine

/-! ## The manager -/

/-- The shared state, the goroutines in the order in which they were spawned, and the actor that is
registered for each node. -/
structure Manager where
  world : World
  goroutines : List Goroutine
  actors : ID → Option Nat

namespace Manager

/-- No actor was started yet. -/
def idle (w : World) : Manager := ⟨{ w with reconcileCh := fun _ => none }, [], fun _ => none⟩

/-- The goroutines after the registered actor of the node was stopped. -/
def halted (m : Manager) (nodeID : ID) : List Goroutine :=
  match m.actors nodeID with
  | none => m.goroutines
  | some g => m.goroutines.modify g Goroutine.stop

def startNode (m : Manager) (n : Node) : Manager :=
  { m with
    goroutines := m.halted n.id ++ [Goroutine.new n]
    actors := Function.update m.actors n.id (some m.goroutines.length) }

def stopNode (m : Manager) (nodeID : ID) : Manager :=
  { m with
    goroutines := m.halted nodeID
    actors := Function.update m.actors nodeID none }

/-- What a statement does to the goroutines and the registered actors. -/
def handle (m : Manager) : Stmt → Manager
  | .startNode n => m.startNode n
  | .stopNode nodeID => m.stopNode nodeID
  | _ => m

/-- What a statement may answer and do; the trigger channels of the registered actors belong to the
world. -/
def Sem : Transition.Sem Stmt Stmt.Res Manager := fun s m r m' =>
  MayFail s m.world r m'.world ∧ m' = { m.handle s with world := m'.world }

/-- The token of a registered actor is in the world, where triggers put it. A token left over in the
channel of an actor that was replaced makes no difference to what it may do. -/
def Ready (m : Manager) (g : Nat) (nodeID : ID) : Round → Prop
  | .triggered => m.actors nodeID = some g → m.world.reconcileCh nodeID = some true
  | _ => True

/-- Take the token. -/
def receive (m : Manager) (g : Nat) (nodeID : ID) : Round → World
  | .triggered =>
    if m.actors nodeID = some g then
      { m.world with reconcileCh := Function.update m.world.reconcileCh nodeID (some false) }
    else m.world
  | _ => m.world

/-- Put a goroutine elsewhere. -/
def enter (m : Manager) (g : Nat) (phase : Phase) : Manager :=
  { m with goroutines := m.goroutines.modify g (Goroutine.enter phase) }

end Manager

/-- What happens in a step. -/
inductive ManagerAct
  | request (s : Stmt) (r : s.Res)
  | select (g : Nat) (rd : Round)
  | exit (g : Nat)
  | call (g : Nat) (s : Stmt) (r : s.Res)

/-- The statement that is issued. -/
def ManagerAct.stmt : ManagerAct → Option Stmt
  | request s _ => some s
  | call _ s _ => some s
  | _ => none

/-- The steps of the manager, its goroutines and the requests around them. -/
inductive Manager.Step : Manager → ManagerAct → Manager → Prop
  | request {m m' : Manager} {s : Stmt} {r : s.Res} : Sem s m r m' → Step m (.request s r) m'
  | select {m : Manager} {g : Nat} {G : Goroutine} {rd : Round} {p : Rest} :
      m.goroutines[g]? = some G → G.phase.select rd = some p → m.Ready g G.node rd →
      Step m (.select g rd) ({ m with world := m.receive g G.node rd }.enter g (.running p))
  | exit {m : Manager} {g : Nat} {G : Goroutine} {a : ActorState} :
      m.goroutines[g]? = some G → G.phase = .running (.ret a) → G.stopped = true →
      Step m (.exit g) (m.enter g .returned)
  | call {m m' : Manager} {g : Nat} {G : Goroutine} {s : Stmt} {k : s.Res → Rest} {r : s.Res} :
      m.goroutines[g]? = some G → G.phase = .running (.call s k) → Sem s m r m' →
      Step m (.call g s r) (m'.enter g (.running (k r)))

namespace Manager

variable {m m' : Manager}

/-! ## What becomes of a goroutine -/

theorem getElem?_halted {nodeID : ID} {g : Nat} {G : Goroutine} (hG : m.goroutines[g]? = some G) :
    ∃ b, (m.halted nodeID)[g]? = some { G with stopped := b } := by
  unfold halted
  cases m.actors nodeID with
  | none => exact ⟨G.stopped, hG⟩
  | some j =>
      simp only [List.getElem?_modify, hG]
      by_cases hj : j = g
      · exact ⟨true, by simp [hj, Goroutine.stop]⟩
      · exact ⟨G.stopped, by simp [hj]⟩

/-- A statement closes the stop channel of a goroutine, if anything. -/
theorem Sem.getElem? {s : Stmt} {r : s.Res} (h : Sem s m r m') {g : Nat} {G : Goroutine}
    (hG : m.goroutines[g]? = some G) : ∃ b, m'.goroutines[g]? = some { G with stopped := b } := by
  have hm' : m'.goroutines = (m.handle s).goroutines := by rw [h.2]
  rw [hm']
  cases s with
  | startNode n =>
      obtain ⟨b, hb⟩ := getElem?_halted hG
      refine ⟨b, ?_⟩
      have hlt := (List.getElem?_eq_some_iff.1 hb).1
      exact (List.getElem?_append_left hlt).trans hb
  | stopNode nodeID => exact getElem?_halted hG
  | _ => exact ⟨G.stopped, hG⟩

theorem getElem?_enter (m : Manager) (j : Nat) (phase : Phase) {g : Nat} {G : Goroutine}
    (hG : m.goroutines[g]? = some G) :
    (m.enter j phase).goroutines[g]? = some (if j = g then G.enter phase else G) := by
  simp only [enter, List.getElem?_modify, hG]
  by_cases hj : j = g
  · simp [hj]
  · simp [hj]

/-- A goroutine stays with its node, and it returns once, by an exit. -/
theorem Step.getElem? {a : ManagerAct} (h : Step m a m') {g : Nat} {G : Goroutine}
    (hG : m.goroutines[g]? = some G) :
    ∃ G', m'.goroutines[g]? = some G' ∧ G'.node = G.node ∧
      (G.phase = .returned → G'.phase = .returned) ∧
      (G'.phase = .returned → G.phase = .returned ∨ a = .exit g) := by
  -- the goroutine that moves has not returned
  have henter : ∀ {m : Manager} {j : Nat} {p : Phase} {G : Goroutine},
      m.goroutines[g]? = some G → (j = g → G.phase ≠ .returned) →
      (p = .returned → a = .exit j) →
      ∃ G', (m.enter j p).goroutines[g]? = some G' ∧ G'.node = G.node ∧
        (G.phase = .returned → G'.phase = .returned) ∧
        (G'.phase = .returned → G.phase = .returned ∨ a = .exit g) := by
    intro m j p G hG hj hexit
    refine ⟨_, getElem?_enter m j p hG, ?_⟩
    split_ifs with hjg
    · exact ⟨rfl, fun hret => (hj hjg hret).elim, fun hret => Or.inr (hjg ▸ hexit hret)⟩
    · exact ⟨rfl, id, Or.inl⟩
  cases h with
  | request hsem =>
      obtain ⟨b, hb⟩ := hsem.getElem? hG
      exact ⟨_, hb, rfl, id, Or.inl⟩
  | @select j J rd p hJ hp hready =>
      refine henter (m := { m with world := m.receive j J.node rd }) hG ?_ nofun
      rintro rfl hret
      rw [hJ, Option.some.injEq] at hG
      rw [hG, hret] at hp
      cases hp
  | @exit j J b hJ hphase hstop =>
      refine henter hG ?_ fun _ => rfl
      rintro rfl hret
      rw [hJ, Option.some.injEq] at hG
      rw [← hG, hphase] at hret
      cases hret
  | @call m₁ j J s k r hJ hphase hsem =>
      obtain ⟨b, hb⟩ := hsem.getElem? hG
      have hmoves : j = g → G.phase ≠ .returned := by
        rintro rfl hret
        rw [hJ, Option.some.injEq] at hG
        rw [← hG, hphase] at hret
        cases hret
      obtain ⟨G', hG', hnode, hret⟩ := henter (p := .running (k r)) hb hmoves nofun
      exact ⟨G', hG', hnode, hret⟩

/-- The node of a goroutine. -/
def nodeOf (m : Manager) (g : Nat) : Option ID := m.goroutines[g]?.map Goroutine.node

/-- The goroutine has returned from `run`. -/
def Returned (m : Manager) (g : Nat) : Prop :=
  ∃ G, m.goroutines[g]? = some G ∧ G.phase = .returned

theorem Step.nodeOf {a : ManagerAct} (h : Step m a m') {g : Nat}
    (hg : g < m.goroutines.length) : m'.nodeOf g = m.nodeOf g := by
  have hG := List.getElem?_eq_getElem hg
  obtain ⟨G', hG', hnode, -⟩ := h.getElem? hG
  rw [Manager.nodeOf, Manager.nodeOf, hG, hG', Option.map_some, Option.map_some, hnode]

theorem Step.returned {a : ManagerAct} (h : Step m a m') {g : Nat} (hg : m.Returned g) :
    m'.Returned g := by
  obtain ⟨G, hG, hret⟩ := hg
  obtain ⟨G', hG', -, hkeep, -⟩ := h.getElem? hG
  exact ⟨G', hG', hkeep hret⟩

theorem nodeOf_eq_some {g : Nat} {n : ID} (h : m.nodeOf g = some n) : g < m.goroutines.length := by
  obtain ⟨G, hG, -⟩ := Option.map_eq_some_iff.1 h
  exact (List.getElem?_eq_some_iff.1 hG).1

theorem nodeOf_of_path {ls : List ManagerAct} (h : Path Step m ls m') {g : Nat} {n : ID}
    (hg : m.nodeOf g = some n) : m'.nodeOf g = some n :=
  h.invariant (I := fun m => m.nodeOf g = some n)
    (fun _ _ _ hg hstep => (hstep.nodeOf (nodeOf_eq_some hg)).trans hg) hg

/-- Without an exit a goroutine does not return. -/
theorem not_returned_of_path {ls : List ManagerAct} (h : Path Step m ls m') {g : Nat} {n : ID}
    (hexit : .exit g ∉ ls) (hg : m.nodeOf g = some n) (hret : ¬ m.Returned g) :
    m'.nodeOf g = some n ∧ ¬ m'.Returned g := by
  have hquiet := h.restrict (C := fun a => a ≠ .exit g) fun a ha heq => hexit (heq ▸ ha)
  refine hquiet.invariant (I := fun m => m.nodeOf g = some n ∧ ¬ m.Returned g) ?_ ⟨hg, hret⟩
  rintro m a m' ⟨hg, hret⟩ ⟨hstep, ha⟩
  refine ⟨(hstep.nodeOf (nodeOf_eq_some hg)).trans hg, ?_⟩
  rintro ⟨G', hG', hphase⟩
  obtain ⟨G, hG, -⟩ := Option.map_eq_some_iff.1 hg
  obtain ⟨G'', hG'', -, -, hback⟩ := hstep.getElem? hG
  rw [hG', Option.some.injEq] at hG''
  obtain hphase | heq := hback (hG'' ▸ hphase)
  · exact hret ⟨G, hG, hphase⟩
  · exact ha heq

theorem Step.length_le {a : ManagerAct} (h : Step m a m') :
    m.goroutines.length ≤ m'.goroutines.length := by
  by_contra hlt
  have hlast : m'.goroutines.length < m.goroutines.length := Nat.lt_of_not_le hlt
  obtain ⟨G', hG', -⟩ := h.getElem? (List.getElem?_eq_getElem hlast)
  exact absurd (List.getElem?_eq_some_iff.1 hG').1 (Nat.lt_irrefl _)

/-- A statement is issued by a goroutine that is there and has not returned. -/
theorem Step.call_inv {g : Nat} {s : Stmt} {r : s.Res} (h : Step m (.call g s r) m') :
    g < m.goroutines.length ∧ ¬ m.Returned g := by
  cases h with
  | call hG hphase hsem =>
      refine ⟨(List.getElem?_eq_some_iff.1 hG).1, ?_⟩
      rintro ⟨G', hG', hret⟩
      rw [hG, Option.some.injEq] at hG'
      rw [← hG', hphase] at hret
      cases hret

/-! ## One writer per node -/

/-- Once an actor has issued a statement, no earlier actor of its node issues another. -/
def Exclusive (m : Manager) (ls : List ManagerAct) : Prop :=
  ∀ ls₁ ls₂ g' s r, ls = ls₁ ++ .call g' s r :: ls₂ → ∀ g < g', m.nodeOf g = m.nodeOf g' →
    ∀ s' r', .call g s' r' ∉ ls₂

/-- An actor issues a statement when the earlier actors of its node have returned. -/
def Orderly (m : Manager) : ManagerAct → Prop
  | .call g' _ _ => ∀ g < g', m.nodeOf g = m.nodeOf g' → m.Returned g
  | _ => True

/-- A step that is orderly. -/
def OrderlyStep (m : Manager) (a : ManagerAct) (m' : Manager) : Prop :=
  Step m a m' ∧ m.Orderly a

/-- Actors that have issued a statement are there, and the earlier ones of their node have
returned. -/
def Settled (m : Manager) (ls : List ManagerAct) : Prop :=
  ∀ g' s r, .call g' s r ∈ ls → g' < m.goroutines.length ∧
    ∀ g < g', m.nodeOf g = m.nodeOf g' → m.Returned g

theorem Settled.step {ls : List ManagerAct} {a : ManagerAct} (hm : m.Settled ls)
    (h : m.OrderlyStep a m') : m'.Settled (ls ++ [a]) := by
  obtain ⟨hstep, horderly⟩ := h
  -- what is known of an actor before the step holds after it
  have hkeep : ∀ g', (g' < m.goroutines.length ∧
      ∀ g < g', m.nodeOf g = m.nodeOf g' → m.Returned g) → g' < m'.goroutines.length ∧
      ∀ g < g', m'.nodeOf g = m'.nodeOf g' → m'.Returned g := by
    rintro g' ⟨hlt, hret⟩
    refine ⟨hlt.trans_le hstep.length_le, fun g hg hnode => hstep.returned (hret g hg ?_)⟩
    rw [← hstep.nodeOf (hg.trans hlt), hnode, hstep.nodeOf hlt]
  intro g' s r hmem
  obtain hmem | hmem := List.mem_append.1 hmem
  · exact hkeep g' (hm g' s r hmem)
  · obtain rfl := List.mem_singleton.1 hmem
    exact hkeep g' ⟨hstep.call_inv.1, horderly⟩

theorem Exclusive.step {ls : List ManagerAct} {a : ManagerAct} (hm : m.Exclusive ls)
    (hset : m.Settled ls) (h : Step m a m') : m'.Exclusive (ls ++ [a]) := by
  intro ls₁ ls₂ g' s r hls g hg hnode s' r' hmem
  obtain rfl | ⟨ls₃, b, rfl⟩ := List.eq_nil_or_concat ls₂
  · cases hmem
  · rw [List.concat_eq_append] at hls hmem
    have hinit : ls ++ [a] = (ls₁ ++ .call g' s r :: ls₃) ++ [b] := by
      rw [hls, List.append_assoc, List.cons_append]
    obtain ⟨rfl, hlast⟩ := List.append_inj' hinit rfl
    obtain rfl : a = b := by simpa using hlast
    -- `g'` has issued a statement before this step
    obtain ⟨hlt, hret⟩ := hset g' s r (List.mem_append_right _ List.mem_cons_self)
    have hnode' : m.nodeOf g = m.nodeOf g' := by
      rw [← h.nodeOf (hg.trans hlt), hnode, h.nodeOf hlt]
    obtain hmem | hmem := List.mem_append.1 hmem
    · exact hm ls₁ ls₃ g' s r rfl g hg hnode' s' r' hmem
    · obtain rfl := List.mem_singleton.1 hmem
      exact h.call_inv.2 (hret g hg hnode')

theorem exclusive_of_orderly {m₀ : Manager} {ls : List ManagerAct}
    (hrun : Path OrderlyStep m₀ ls m) : m.Exclusive ls := by
  have hnil : m₀.Settled [] ∧ m₀.Exclusive [] := by
    refine ⟨fun g' s r hmem => ?_, fun ls₁ ls₂ g' s r hls => ?_⟩
    · cases hmem
    · simp at hls
  have h : m.Settled ls ∧ m.Exclusive ls :=
    hrun.history (I := fun ls m => m.Settled ls ∧ m.Exclusive ls)
      (fun ls m a m' hI h => ⟨hI.1.step h, hI.2.step hI.1 h.1⟩) hnil
  exact h.2

/-! ## Starting a node when its goroutines have returned -/

/-- The goroutines of a node have returned, all but the last. -/
def Single (m : Manager) : Prop :=
  ∀ g' < m.goroutines.length, ∀ g < g', m.nodeOf g = m.nodeOf g' → m.Returned g

/-- `StartNode` is called when the goroutines of the node have returned. -/
def Waits (m : Manager) (a : ManagerAct) : Prop :=
  match a.stmt with
  | some (.startNode n) => ∀ g, m.nodeOf g = some n.id → m.Returned g
  | _ => True

/-- A step that waits. -/
def WaitingStep (m : Manager) (a : ManagerAct) (m' : Manager) : Prop := Step m a m' ∧ m.Waits a

theorem single_idle (w : World) : (idle w).Single := fun g' hg' => (Nat.not_lt_zero g' hg').elim

theorem length_halted (m : Manager) (nodeID : ID) :
    (m.halted nodeID).length = m.goroutines.length := by
  unfold halted
  split
  · rfl
  · exact List.length_modify _ _ _

/-- The new goroutine of a call of `StartNode`. -/
theorem Sem.spawned {n : Node} {r : Unit} (h : Sem (.startNode n) m r m') :
    m'.goroutines.length = m.goroutines.length + 1 ∧
      m'.goroutines[m.goroutines.length]? = some (Goroutine.new n) := by
  have hm' : m'.goroutines = m.halted n.id ++ [Goroutine.new n] := by
    rw [h.2]
    rfl
  rw [hm', List.length_append, ← m.length_halted n.id]
  exact ⟨rfl, List.getElem?_concat_length⟩

/-- A goroutine that was not there has been spawned by `StartNode`. -/
theorem Sem.eq_startNode {s : Stmt} {r : s.Res} (h : Sem s m r m') {g : Nat}
    (hnew : m.goroutines.length ≤ g) (hg : g < m'.goroutines.length) :
    g = m.goroutines.length ∧ ∃ n, s = .startNode n ∧ m'.nodeOf g = some n.id := by
  have hm' : m'.goroutines = (m.handle s).goroutines := by rw [h.2]
  cases s with
  | startNode n =>
      obtain ⟨hlength, hlast⟩ := h.spawned
      obtain rfl : g = m.goroutines.length := by omega
      exact ⟨rfl, n, rfl, by rw [nodeOf, hlast]; rfl⟩
  | stopNode nodeID =>
      rw [hm'] at hg
      exact absurd (hg.trans_eq (m.length_halted nodeID)) (Nat.not_lt.2 hnew)
  | _ =>
      rw [hm'] at hg
      exact absurd hg (Nat.not_lt.2 hnew)

theorem length_enter (m : Manager) (g : Nat) (phase : Phase) :
    (m.enter g phase).goroutines.length = m.goroutines.length :=
  List.length_modify _ _ _

theorem nodeOf_enter (m : Manager) (j : Nat) (phase : Phase) (g : Nat) :
    (m.enter j phase).nodeOf g = m.nodeOf g := by
  cases hG : m.goroutines[g]? with
  | none => simp [nodeOf, enter, List.getElem?_modify, hG]
  | some G =>
      rw [nodeOf, nodeOf, getElem?_enter m j phase hG, hG]
      split_ifs <;> rfl

theorem Step.eq_startNode {a : ManagerAct} (h : Step m a m') {g : Nat}
    (hnew : m.goroutines.length ≤ g) (hg : g < m'.goroutines.length) :
    g = m.goroutines.length ∧ ∃ n, a.stmt = some (.startNode n) ∧ m'.nodeOf g = some n.id := by
  cases h with
  | request hsem =>
      obtain ⟨hlast, n, rfl, hnode⟩ := hsem.eq_startNode hnew hg
      exact ⟨hlast, n, rfl, hnode⟩
  | @select j J rd p hJ hp hready =>
      rw [length_enter] at hg
      exact absurd hg (Nat.not_lt.2 hnew)
  | exit hJ hphase hstop =>
      rw [length_enter] at hg
      exact absurd hg (Nat.not_lt.2 hnew)
  | call hJ hphase hsem =>
      rw [length_enter] at hg
      obtain ⟨hlast, n, rfl, hnode⟩ := hsem.eq_startNode hnew hg
      exact ⟨hlast, n, rfl, (nodeOf_enter _ _ _ g).trans hnode⟩

theorem Single.step {a : ManagerAct} (hm : m.Single) (h : m.WaitingStep a m') : m'.Single := by
  obtain ⟨hstep, hwaits⟩ := h
  intro g' hg' g hg hnode
  by_cases hold : g' < m.goroutines.length
  · refine hstep.returned (hm g' hold g hg ?_)
    rw [← hstep.nodeOf (hg.trans hold), hnode, hstep.nodeOf hold]
  · -- a new goroutine: the others of its node had returned when it was spawned
    obtain ⟨rfl, n, hstmt, hnode'⟩ := hstep.eq_startNode (Nat.not_lt.1 hold) hg'
    rw [hnode'] at hnode
    rw [Waits, hstmt] at hwaits
    exact hstep.returned (hwaits g ((hstep.nodeOf hg).symm.trans hnode))

theorem Single.orderly {a : ManagerAct} (hm : m.Single) (h : Step m a m') : m.Orderly a := by
  cases a with
  | call g' s r => exact hm g' h.call_inv.1
  | _ => trivial

theorem exclusive_of_waiting {m₀ : Manager} {ls : List ManagerAct} (hm₀ : m₀.Single)
    (hrun : Path WaitingStep m₀ ls m) : m.Exclusive ls := by
  have h : m.Single ∧ Path OrderlyStep m₀ ls m :=
    hrun.history (I := fun ls m => m.Single ∧ Path OrderlyStep m₀ ls m)
      (fun ls m a m' hI h => ⟨hI.1.step h, hI.2.snoc ⟨h.1, hI.1.orderly h.1⟩⟩) ⟨hm₀, Path.nil m₀⟩
  exact exclusive_of_orderly h.2

end Manager

/-! ## Schedules -/

/-- One entry of a schedule; `fail` is a statement of a round that fails. -/
inductive ManagerMove
  | request (s : Stmt)
  | select (g : Nat) (rd : Round)
  | exit (g : Nat)
  | fire (g : Nat)
  | fail (g : Nat) (text : String)

namespace Manager

variable {m m' : Manager}

/-- One statement that does not fail. -/
def exec (s : Stmt) (m : Manager) : s.Res × Manager :=
  ((XrayApi.exec s m.world).1, { m.handle s with world := (XrayApi.exec s m.world).2 })

theorem sem_exec (s : Stmt) (m : Manager) : Sem s m (exec s m).1 (exec s m).2 :=
  ⟨mayFail_exec s m.world, rfl⟩

instance decidableReady (m : Manager) (g : Nat) (nodeID : ID) :
    (rd : Round) → Decidable (m.Ready g nodeID rd)
  | .triggered =>
    inferInstanceAs (Decidable (m.actors nodeID = some g → m.world.reconcileCh nodeID = some true))
  | .checkHealth _ => isTrue trivial
  | .collect _ => isTrue trivial
  | .reconcile => isTrue trivial

/-- Follow one entry of a schedule; `none` when the entry is not enabled. -/
def next (m : Manager) : ManagerMove → Option (ManagerAct × Manager)
  | .request s => some (.request s (exec s m).1, (exec s m).2)
  | .select g rd =>
    match m.goroutines[g]? with
    | none => none
    | some G =>
      match G.phase.select rd with
      | none => none
      | some p =>
        if m.Ready g G.node rd then
          some (.select g rd, { m with world := m.receive g G.node rd }.enter g (.running p))
        else none
  | .exit g =>
    match m.goroutines[g]? with
    | some ⟨_, .running (.ret _), true⟩ => some (.exit g, m.enter g .returned)
    | _ => none
  | .fire g =>
    match m.goroutines[g]? with
    | some ⟨_, .running (.call s k), _⟩ =>
      some (.call g s (exec s m).1, (exec s m).2.enter g (.running (k (exec s m).1)))
    | _ => none
  | .fail g text =>
    match m.goroutines[g]? with
    | some ⟨_, .running (.call s k), _⟩ =>
      match s.fail text with
      | some r => some (.call g s r, m.enter g (.running (k r)))
      | none => none
    | _ => none

/-- The manager's own statements do not fail. -/
theorem sem_fail {s : Stmt} {r : s.Res} {text : String} (h : s.fail text = some r) :
    Sem s m r m := by
  refine ⟨Or.inr ⟨rfl, text, h⟩, ?_⟩
  cases s with
  | startNode n => cases h
  | stopNode nodeID => cases h
  | _ => rfl

theorem next_step (m : Manager) (v : ManagerMove) (a : ManagerAct) (m' : Manager)
    (h : m.next v = some (a, m')) : Step m a m' := by
  cases v with
  | request s =>
      simp only [next, Option.some.injEq, Prod.mk.injEq] at h
      obtain ⟨rfl, rfl⟩ := h
      exact .request (sem_exec s m)
  | select g rd =>
      simp only [next] at h
      split at h
      · cases h
      · next G hG =>
          split at h
          · cases h
          · next p hp =>
              split_ifs at h with hready
              cases h
              exact .select hG hp hready
  | exit g =>
      simp only [next] at h
      split at h
      · next hG =>
          cases h
          exact .exit hG rfl rfl
      · cases h
  | fire g =>
      simp only [next] at h
      split at h
      · next s k b hG =>
          cases h
          exact .call hG rfl (sem_exec s m)
      · cases h
  | fail g text =>
      simp only [next] at h
      split at h
      · next s k b hG =>
          split at h
          · next r hr =>
              cases h
              exact .call hG rfl (sem_fail hr)
          · cases h
      · cases h

/-- An actor that has not returned may issue a statement, stopped or not, before any actor returns:
it is in a round, or in the `select`, where a ticker may come first. -/
theorem exists_call_of_not_returned {g : Nat} {G : Goroutine} (hG : m.goroutines[g]? = some G)
    (hphase : G.phase ≠ .returned) :
    ∃ ls s r m', Path Step m (ls ++ [.call g s r]) m' ∧ ∀ j, .exit j ∉ ls ++ [.call g s r] := by
  -- a round that was just picked starts with a statement
  have hround : ∀ (rd : Round) (a : ActorState), G.phase.select rd = some (rd.prog a) →
      m.Ready g G.node rd → ∃ ls s r m', Path Step m (ls ++ [.call g s r]) m' ∧
        ∀ j, .exit j ∉ ls ++ [.call g s r] := by
    intro rd a hsel hready
    obtain ⟨k, hk⟩ := rd.prog_eq_call a
    have hpick := Step.select hG hsel hready
    have hG' := getElem?_enter { m with world := m.receive g G.node rd } g
      (.running (rd.prog a)) hG
    rw [if_pos rfl] at hG'
    have hphase' : (G.enter (.running (rd.prog a))).phase = .running (.call _ k) := by
      rw [← hk]
      rfl
    exact ⟨[.select g rd], _, _, _,
      Path.snoc (Path.single hpick) (Step.call hG' hphase' (sem_exec _ _)), by simp⟩
  cases hp : G.phase with
  | returned => exact (hphase hp).elim
  | fresh a => exact hround (.checkHealth 0) a (by rw [hp]; rfl) trivial
  | running p =>
      cases p with
      | ret a => exact hround .reconcile a (by rw [hp]; rfl) trivial
      | call s k => exact ⟨[], s, _, _, Path.single (Step.call hG hp (sem_exec s m)), by simp⟩

/-- If `StartNode` is called earlier, the new actor and one that has not returned may take turns. -/
theorem exists_not_exclusive {n : Node} {r : Unit} {g : Nat}
    (hstart : Step m (.request (.startNode n) r) m') (hg : m.nodeOf g = some n.id)
    (hret : ¬ m.Returned g) : ∃ ls m'', Path Step m' ls m'' ∧ ¬ m''.Exclusive ls := by
  obtain ⟨hg', hret'⟩ := not_returned_of_path (Path.single hstart) (by simp) hg hret
  cases hstart with
  | request hsem =>
      have hnew := hsem.spawned.2
      -- the new actor issues a statement, then the old one does
      obtain ⟨ls₁, s₁, r₁, m₁, hpath₁, hexit₁⟩ := exists_call_of_not_returned hnew nofun
      obtain ⟨hg₁, hret₁⟩ := not_returned_of_path hpath₁ (hexit₁ g) hg' hret'
      obtain ⟨G, hG, -⟩ := Option.map_eq_some_iff.1 hg₁
      obtain ⟨ls₂, s₂, r₂, m₂, hpath₂, hexit₂⟩ := exists_call_of_not_returned hG
        fun hphase => hret₁ ⟨G, hG, hphase⟩
      have hpath := hpath₁.append hpath₂
      refine ⟨_, m₂, hpath, fun hexclusive => ?_⟩
      refine hexclusive ls₁ (ls₂ ++ [.call g s₂ r₂]) m.goroutines.length s₁ r₁ ?_ g
        (nodeOf_eq_some hg) ?_ s₂ r₂ (List.mem_append_right _ (List.mem_singleton.2 rfl))
      · rw [List.append_assoc]
        rfl
      · have hnew' : m'.nodeOf m.goroutines.length = some n.id := by
          rw [nodeOf, hnew]
          rfl
        rw [nodeOf_of_path hpath hg', nodeOf_of_path hpath hnew']

end Manager

/-- One writer per node. No two actors of a node take turns in a run in which an actor issues its
statements after the earlier actors of its node have returned. It is so if `StartNode` is called
only when the goroutines of the node have returned. If it is called earlier, two actors may take
turns. -/
theorem one_writer {m₀ m : Manager} {ls : List ManagerAct} :
    (Path Manager.OrderlyStep m₀ ls m → m.Exclusive ls) ∧
      (m₀.Single → Path Manager.WaitingStep m₀ ls m → m.Exclusive ls) ∧
      ∀ n r m' g, Manager.Step m (.request (.startNode n) r) m' → m.nodeOf g = some n.id →
        ¬ m.Returned g → ∃ ls' m'', Path Manager.Step m' ls' m'' ∧ ¬ m''.Exclusive ls' :=
  ⟨Manager.exclusive_of_orderly, Manager.exclusive_of_waiting,
    fun _ _ _ _ hstart hg hret => Manager.exists_not_exclusive hstart hg hret⟩

/-! ## A node whose actor is replaced -/

/-- No actor yet, and a database without rows. -/
def Manager.blank : Manager := .idle (.still ⟨Tables.empty, Tables.empty_valid⟩)

/-- The actor is stopped between two rounds and returns before the next one is started; the node
does not answer. -/
def handover : List ManagerMove :=
  [.request (.startNode (Node.plain "n")), .select 0 (.checkHealth 0), .fail 0 "refused", .fire 0,
    .request (.stopNode "n"), .exit 0, .request (.startNode (Node.plain "n")),
    .select 1 (.checkHealth 60), .fail 1 "refused", .fire 1]

theorem one_writer_handover :
    (∃ r, .call 1 (.dial "n") r ∈ (Path.follow Manager.next handover .blank).1) ∧
      (Path.follow Manager.next handover .blank).2.Exclusive
        (Path.follow Manager.next handover .blank).1 := by
  refine ⟨⟨_, .tail _ (.tail _ (.tail _ (.tail _ (.tail _ (.tail _ (.tail _ (.tail _
    (.head _))))))))⟩, one_writer.2.1 (Manager.single_idle _)
      (Path.follow_guarded Manager.next_step ?_)⟩
  -- `StartNode` is called twice: there is no goroutine, then one that has returned
  refine ⟨fun g hg => absurd (Manager.nodeOf_eq_some hg) (Nat.not_lt_zero g), trivial, trivial,
    trivial, trivial, trivial, fun g hg => ?_, trivial, trivial, trivial, trivial⟩
  obtain rfl : g = 0 := Nat.lt_one_iff.1 (Manager.nodeOf_eq_some hg)
  exact ⟨_, rfl, rfl⟩

/-- The actor is replaced in the middle of its first check. -/
def replacement : List ManagerMove :=
  [.request (.startNode (Node.plain "n")), .select 0 (.checkHealth 0), .fire 0,
    .request (.startNode (Node.plain "n")), .select 1 (.checkHealth 60), .fire 1, .fire 0]

/-- Two actors of one node take turns: the old one goes on with its check after the new one has
begun. -/
theorem interleaved_writers :
    ∃ ls m, Path Manager.Step .blank ls m ∧ m.nodeOf 0 = m.nodeOf 1 ∧ ¬ m.Exclusive ls := by
  refine ⟨_, _, Path.follow_path Manager.next_step replacement .blank, rfl, fun h => ?_⟩
  exact h ((Path.follow Manager.next replacement .blank).1.take 5) [_] 1 (.dial "n") (.ok ()) rfl 0
    Nat.zero_lt_one rfl (.ping "n") (.ok 0) List.mem_cons_self

end XrayApi.Worker
