import XrayApi.Service.Mirror
import XrayApi.Worker.Conservation
import XrayApi.Worker.Manager

/-!
# The buffer of an actor that is replaced

An actor keeps the bytes it has read from its node and could not write in `pendingDeltas`.
`NodeService.Update` calls `StartNode`, which registers a new actor with an empty buffer in place of
the old one. What the old buffer held for a user is then neither in the user's row nor in the buffer
of the registered actor (`renamed_node_loses_traffic`). It is kept exactly when the update does not
come to `StartNode`, or when the buffer held nothing for a user (`update_keeps_traffic_iff`).
-/

set_option autoImplicit false

namespace XrayApi.Worker

open Transition Store Relational

/-- The registered actor of the node is between two rounds and has these fields. -/
def Manager.AtRest (m : Manager) (nodeID : ID) (a : ActorState) : Prop :=
  ∃ g G, m.actors nodeID = some g ∧ m.goroutines[g]? = some G ∧ G.phase.fields = some a

/-- What `p` held for a user was added to the user's row, or is held by the registered actor. -/
def Manager.Accounts (m m' : Manager) (nodeID : ID) (p : PendingDeltas) : Prop :=
  ∀ u ∈ m.world.tables.users, ∀ dir : Direction,
    stored dir u.id m'.world.tables =
        stored dir u.id m.world.tables + (held dir u.email p).toInt ∨
      ∃ a, m'.AtRest nodeID a ∧ held dir u.email a.pendingDeltas = held dir u.email p

/-- The buffer holds nothing for a user of the database. -/
def NothingHeld (t : Tables) (p : PendingDeltas) : Prop :=
  ∀ u ∈ t.users, ∀ dir : Direction, held dir u.email p = 0

namespace Manager

variable {m m' : Manager} {nodeID : ID} {a b : ActorState}

theorem AtRest.unique (h : m.AtRest nodeID a) (h' : m.AtRest nodeID b) : a = b := by
  obtain ⟨g, G, hg, hG, ha⟩ := h
  obtain ⟨g', G', hg', hG', hb⟩ := h'
  obtain rfl : g = g' := by simpa [hg] using hg'
  obtain rfl : G = G' := by simpa [hG] using hG'
  exact Option.some.inj (ha.symm.trans hb)

/-- A new actor has not begun its first round. -/
theorem atRest_startNode (m : Manager) (n : Node) : (m.startNode n).AtRest n.id (.new n) := by
  refine ⟨m.goroutines.length, Goroutine.new n, Function.update_self _ _ _, ?_, rfl⟩
  have hlen : (m.halted n.id).length = m.goroutines.length := by
    unfold halted
    split
    · rfl
    · exact List.length_modify _ _ _
  simp only [startNode]
  rw [← hlen, List.getElem?_concat_length]

/-- A store call leaves the actors alone. -/
theorem AtRest.db (h : m.AtRest nodeID a) {q : StoreCall} {r : Except StoreErr q.Out}
    (hsem : Sem (.db q) m r m') : m'.AtRest nodeID a := by
  rw [hsem.2]
  exact h

end Manager

/-! ## The course of an update -/

section Update

variable {m m' : Manager} {pem : Xray.PemParser} {id : ID} {inp : NodeService.NodeInput} {n : Node}
  {tr : Trace} {r : Except Err Node}

theorem readsOnly_getNode (id : ID) : ReadsOnly (.db (.getNode id)) :=
  readsOnly_of_isWrite_eq_false rfl

theorem readsOnly_startNode (n : Node) : ReadsOnly (.startNode n) := by
  intro w r w' h
  obtain h | ⟨rfl, -⟩ := mayFail_cases h
  · cases h
    rfl
  · rfl

theorem mayFail_getNode_id {w w' : World} (h : MayFail (.db (.getNode id)) w (.ok n) w') :
    n.id = id := by
  obtain ⟨o, rfl, hq⟩ := mayFail_db_ok h
  exact NodeService.getNode_id (StoreCall.read_eq_ok.1 hq).1

theorem mayFail_updateNode_users {w w' : World} {x : Except StoreErr Unit}
    (h : MayFail (.db (.updateNode n)) w x w') : w'.tables.users = w.tables.users := by
  obtain ⟨-, -, ht⟩ | ⟨-, o, -, -, hq⟩ := mayFail_db h
  · rw [ht]
  · obtain ⟨-, -, ht⟩ := updateNode_eq_ok (StoreCall.wrote_eq_ok.1 hq)
    rw [ht]

/-- The part of an update after its checks. -/
theorem persist_inv (hn : n.id = id)
    (h : Runs Manager.Sem Eq (Req.prog (do
      query (.updateNode n)
      startNode n
      query (.getNode id))) m tr r m') :
    m'.world.tables.users = m.world.tables.users ∧
      (((∀ n, ⟨.startNode n, ()⟩ ∉ tr) ∧ ∀ a, m.AtRest id a → m'.AtRest id a) ∨
        ∃ n, ⟨.startNode n, ()⟩ ∈ tr ∧ m'.AtRest id (.new n)) := by
  obtain ⟨_, x, m₁, tr₁, rfl, hwrite, rfl, hrest⟩ := Runs.call_inv h
  have husers := mayFail_updateNode_users hwrite.1
  cases x with
  | error e =>
      obtain ⟨-, rfl, rfl⟩ := Runs.ret_inv hrest
      exact ⟨husers, Or.inl ⟨by simp, fun a ha => ha.db hwrite⟩⟩
  | ok u =>
      obtain ⟨_, y, m₂, tr₂, rfl, hstart, rfl, hread⟩ := Runs.call_inv hrest
      obtain ⟨_, z, m₃, tr₃, rfl, hget, rfl, hend⟩ := Runs.call_inv hread
      have hnew : m₂.AtRest id (.new n) := by
        rw [hstart.2, ← hn]
        exact Manager.atRest_startNode m₁ n
      -- what is left returns what was read
      have hm' : m₃ = m' := by
        cases z with
        | error e => exact (Runs.ret_inv hend).2.2
        | ok row => exact (Runs.ret_inv hend).2.2
      subst hm'
      refine ⟨?_, Or.inr ⟨n, by simp, hnew.db hget⟩⟩
      rw [readsOnly_getNode id _ _ _ hget.1, readsOnly_startNode n _ _ _ hstart.1, husers]

/-- An update writes no user's row. It comes to `StartNode` and leaves a new actor, or it leaves the
actors alone. -/
theorem update_inv (h : Runs Manager.Sem Eq (NodeService.update pem id inp).prog m tr r m') :
    m'.world.tables.users = m.world.tables.users ∧
      (((∀ n, ⟨.startNode n, ()⟩ ∉ tr) ∧ ∀ a, m.AtRest id a → m'.AtRest id a) ∨
        ∃ n, ⟨.startNode n, ()⟩ ∈ tr ∧ m'.AtRest id (.new n)) := by
  obtain ⟨_, x, m₁, tr₁, rfl, hget, rfl, hrest⟩ := Runs.call_inv h
  have htables := readsOnly_getNode id _ _ _ hget.1
  have hkeep : ∀ a, m.AtRest id a → m₁.AtRest id a := fun a ha => ha.db hget
  cases x with
  | error e =>
      obtain ⟨-, rfl, rfl⟩ := Runs.ret_inv hrest
      exact ⟨by rw [htables], Or.inl ⟨by simp, hkeep⟩⟩
  | ok row =>
      have hrow := mayFail_getNode_id hget.1
      dsimp only [Prog.bind, Req.continueWith, Except.mapError] at hrest
      cases hmat : inp.applyTLSMaterial pem (inp.patch row) with
      | error e =>
          rw [hmat] at hrest
          obtain ⟨-, rfl, rfl⟩ := Runs.ret_inv hrest
          exact ⟨by rw [htables], Or.inl ⟨by simp, hkeep⟩⟩
      | ok n' =>
          rw [hmat] at hrest
          have hn' : n'.id = id := by
            rw [NodeService.applyTLSMaterial_id hmat, NodeService.id_patch, hrow]
          obtain ⟨husers, hcases⟩ := persist_inv hn' hrest
          refine ⟨by rw [husers, htables], ?_⟩
          obtain ⟨hnone, hsame⟩ | ⟨n, hmem, hnew⟩ := hcases
          · exact Or.inl ⟨by simpa using hnone, fun a ha => hsame a (hkeep a ha)⟩
          · exact Or.inr ⟨n, List.mem_cons_of_mem _ hmem, hnew⟩

end Update

/-- What the registered actor holds for users is kept by an update exactly when the update does not
come to `StartNode` or nothing is held. -/
theorem update_keeps_traffic_iff {m m' : Manager} {pem : Xray.PemParser} {id : ID}
    {inp : NodeService.NodeInput} {a : ActorState} {tr : Trace} {r : Except Err Node}
    (ha : m.AtRest id a)
    (h : Runs Manager.Sem Eq (NodeService.update pem id inp).prog m tr r m') :
    m.Accounts m' id a.pendingDeltas ↔
      (∀ n, ⟨.startNode n, ()⟩ ∉ tr) ∨ NothingHeld m.world.tables a.pendingDeltas := by
  obtain ⟨husers, ⟨hnone, hkeep⟩ | ⟨n, hmem, hnew⟩⟩ := update_inv h
  · exact iff_of_true (fun u _ dir => Or.inr ⟨a, hkeep a ha, rfl⟩) (Or.inl hnone)
  · -- neither the rows of the users nor the new buffer have any of it
    have hstored : ∀ (dir : Direction) (uid : ID),
        stored dir uid m'.world.tables = stored dir uid m.world.tables := by
      intro dir uid
      rw [stored, husers, stored]
    constructor
    · intro hacc
      refine Or.inr fun u hu dir => ?_
      obtain hrow | ⟨b, hb, hheld⟩ := hacc u hu dir
      · rw [hstored] at hrow
        exact Int64.toInt_inj.1 (by simpa using hrow)
      · rw [hb.unique hnew] at hheld
        exact hheld.symm
    · rintro (hnone | hzero) u hu dir
      · exact (hnone n hmem).elim
      · left
        rw [hstored, hzero u hu dir]
        simp

/-! ## A node is renamed -/

/-- The actor of a metered node is started, checks the node and runs a pass; then it collects and is
about to write. -/
def collected : List ManagerMove :=
  [.request (.startNode (Node.plain "n")), .select 0 (.checkHealth 0)] ++
    List.replicate 8 (.fire 0) ++ [.select 0 (.collect inOrder), .fire 0, .fire 0, .fire 0]

/-- The node gets another name. -/
def newName : Service Node :=
  NodeService.update NodeService.noPem "n" NodeService.rename

/-- A cycle has written what it read. -/
def written : Manager :=
  (Path.follow Manager.next (collected ++ [.fire 0]) (.idle metered)).2

/-- A cycle could not write what it read. -/
def unwritten : Manager :=
  (Path.follow Manager.next (collected ++ [.fail 0 "connection refused"]) (.idle metered)).2

theorem update_keeps_traffic_iff_written :
    ∃ a tr r m', written.AtRest "n" a ∧
      Runs Manager.Sem Eq newName.prog written tr r m' ∧
      written.Accounts m' "n" a.pendingDeltas := by
  obtain ⟨tr, hrun⟩ := Runs.of_run Manager.sem_exec (fun _ => rfl) newName.prog written
  have ha : written.AtRest "n" _ := ⟨0, _, rfl, rfl, rfl⟩
  exact ⟨_, tr, _, _, ha, hrun,
    (update_keeps_traffic_iff ha hrun).2 (Or.inr fun u hu dir => held_empty)⟩

/-- Traffic was read, the write failed, the node is renamed: the user was charged nothing and
the registered actor holds nothing. -/
theorem renamed_node_loses_traffic :
    ∃ ls a tr r m', Path Manager.Step (.idle metered) ls unwritten ∧ unwritten.AtRest "n" a ∧
      Runs Manager.Sem Eq newName.prog unwritten tr r m' ∧
      ¬ unwritten.Accounts m' "n" a.pendingDeltas := by
  obtain ⟨tr, hrun⟩ := Runs.of_run Manager.sem_exec (fun _ => rfl) newName.prog unwritten
  have ha : unwritten.AtRest "n" _ := ⟨0, _, rfl, rfl, rfl⟩
  refine ⟨_, _, tr, _, _, Path.follow_path Manager.next_step _ _, ha, hrun, fun hacc => ?_⟩
  obtain hrow | ⟨b, hb, hheld⟩ := hacc (User.plain "u" "u@x") List.mem_cons_self .uplink
  · revert hrow
    decide +kernel
  · -- the registered actor is the one the rename has started
    have hnew : Manager.AtRest (newName.prog.run Manager.exec unwritten).2 "n" _ :=
      ⟨1, _, rfl, rfl, rfl⟩
    rw [hb.unique hnew] at hheld
    revert hheld
    decide +kernel

end XrayApi.Worker
