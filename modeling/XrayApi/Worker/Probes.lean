import XrayApi.Worker.Health

/-!
# The status that is reported

A run of health checks of one actor, from its start on a row of the database, while the writes of
`setHealth` succeed and nobody else writes the status of the node. `statusAfter` is the status in
the database after the outcomes so far: once the node has answered, it follows the probes, but until
then it is what the row said when the actor started, however often the node fails to answer.
-/

set_option autoImplicit false

namespace XrayApi.Worker

open Transition Store Xray Relational

/-- The status of the node in the database. -/
def persisted (w : World) (id : ID) : Option NodeStatus :=
  (lookup Node.id id w.tables.nodes).map Node.status

/-- The status of the node is as before. -/
def KeepsStatus (id : ID) (w w' : World) : Prop := persisted w' id = persisted w id

theorem keepsStatus_refl (id : ID) (w : World) : KeepsStatus id w w := rfl

/-- Every write of a status succeeded. -/
def HealthWritten (tr : Trace) : Prop :=
  ∀ id status errMsg seen res,
    (⟨.db (.setNodeHealth id status errMsg seen), res⟩ : Event Stmt Stmt.Res) ∈ tr → res = .ok ()

/-! ## One check -/

theorem persisted_of_write {id : ID} {status : NodeStatus} {errMsg : String} {seen : Option Time}
    {w w' : World} (h : MayFail (.db (.setNodeHealth id status errMsg seen)) w (.ok ()) w') :
    persisted w' id = some status := by
  obtain ⟨o, t, hq, -, -, ht⟩ := answers_db_ok (mayFail_ok h rfl)
  obtain ⟨hid, hnodes⟩ := setNodeHealth_eq_ok (StoreCall.wrote_eq_ok.1 hq)
  obtain ⟨r, hr⟩ := exists_lookup_of_mem hid
  unfold persisted
  rw [ht, hnodes, lookup_updateWhere _ (persistHealth status errMsg seen) fun _ _ => rfl, hr,
    Option.map_some, Option.map_some, if_pos (decide_eq_true (key_of_lookup hr))]
  rfl

theorem persisted_of_pass {id n : ID} {w w' : World} {tr : Trace} {x : Except Err Unit}
    {st : Option NodeStatus} (h : Runs MayFail (KeepsStatus id) (runPass n).prog w tr x w')
    (hw : persisted w id = st) : persisted w' id = st := by
  refine (Runs.forall_keeps (I := fun v => persisted v id = st) (fun _ _ hv hI => hv.trans hI)
    (fun s v r v' hs hv hI => ?_) h (runPass_ofPass n) hw).2
  unfold persisted at hI ⊢
  rw [ofPass_nodes hs hv]
  exact hI

/-- The status in the database stays the one of the actor's copy. -/
theorem checkHealth_persisted {a a' : NodeActor} {now : Time} {w w' : World} {tr : Trace}
    (h : Runs MayFail (KeepsStatus a.node.id) (checkHealth a now).prog w tr (.ok a') w')
    (hwritten : HealthWritten tr) (hw : persisted w a.node.id = some a.node.status) :
    persisted w' a.node.id = some a'.node.status := by
  obtain ⟨e, v, tr₁, tr₂, -, rfl, hv, hrest⟩ | ⟨u, v, tr₂, rfl, hv, hrest⟩ :=
    checkHealth_inv (I := fun v => persisted v a.node.id = some a.node.status)
      (fun _ _ hr hI => hr.trans hI) h hw
  · obtain ⟨hr, ⟨-, hrely, hsame⟩ | ⟨res, w₁, w₂, rfl, -, hsem, hrely⟩⟩ := probeFailed_inv hrest
    · cases hr
      rw [hsame]
      exact hrely.trans hv
    · cases hr
      cases hwritten _ _ _ _ res (List.mem_append_right _ List.mem_cons_self)
      exact hrely.trans (persisted_of_write hsem)
  · obtain ⟨hr, res, w₁, w₂, tr', rfl, -, hsem, hpass⟩ :=
      probeAnswered_inv (keepsStatus_refl _) hrest
    cases hr
    cases hwritten _ _ _ _ res
      (List.mem_cons_of_mem _ (List.mem_cons_of_mem _ List.mem_cons_self))
    have honline := persisted_of_write hsem
    obtain ⟨-, x, w₃, hrun, hrely⟩ | ⟨-, -, hrely⟩ := hpass
    · exact hrely.trans (persisted_of_pass hrun honline)
    · exact hrely.trans honline

/-! ## Runs of checks -/

/-- The number of failures since the last success. -/
def failuresAtEnd (outcomes : List Bool) : Nat :=
  (outcomes.reverse.takeWhile fun ok => !ok).length

@[simp] theorem failuresAtEnd_success (outcomes : List Bool) :
    failuresAtEnd (outcomes ++ [true]) = 0 := by
  simp [failuresAtEnd]

@[simp] theorem failuresAtEnd_failure (outcomes : List Bool) :
    failuresAtEnd (outcomes ++ [false]) = failuresAtEnd outcomes + 1 := by
  simp [failuresAtEnd]

/-- What is reported after these outcomes by an actor that started on a row with status `initial`.
-/
def statusAfter (initial : NodeStatus) (outcomes : List Bool) : NodeStatus :=
  if true ∈ outcomes then
    if failuresAtEnd outcomes < healthFailThreshold then .online else .offline
  else initial

/-- The state of the actor after these outcomes. -/
structure Tracks (initial : NodeStatus) (outcomes : List Bool) (a : NodeActor) : Prop where
  count : a.failCount = failuresAtEnd outcomes
  online : a.online = true ↔ true ∈ outcomes ∧ failuresAtEnd outcomes < healthFailThreshold
  status : a.node.status = statusAfter initial outcomes

section Tracks

variable {initial : NodeStatus} {outcomes : List Bool} {a : NodeActor}

theorem tracks_start (n : Node) : Tracks n.status [] (newNodeActor n) where
  count := rfl
  online := by simp [newNodeActor]
  status := rfl

theorem tracks_answered (u : UInt32) : Tracks initial (outcomes ++ [true]) (a.answered u) where
  count := (failuresAtEnd_success outcomes).symm
  online := by simp [NodeActor.answered, healthFailThreshold]
  status := by simp [statusAfter, NodeActor.answered, healthFailThreshold]

theorem Tracks.failed (h : Tracks initial outcomes a) :
    Tracks initial (outcomes ++ [false]) a.failed := by
  have hcount := h.count
  unfold NodeActor.failed
  split_ifs with hoff
  · -- the third failure of a node that was online
    obtain ⟨hmany, honline⟩ := hoff
    obtain ⟨hseen, -⟩ := h.online.1 honline
    rw [hcount] at hmany
    refine ⟨?_, ⟨fun hno => (by cases hno), fun hfew => ?_⟩, ?_⟩
    · rw [failuresAtEnd_failure, ← hcount]
    · have hfew := hfew.2
      rw [failuresAtEnd_failure] at hfew
      omega
    · rw [statusAfter, if_pos (List.mem_append_left _ hseen), failuresAtEnd_failure,
        if_neg (Nat.not_lt.2 hmany)]
  · -- the status stays: the node is still online, or it was reported before
    have hstays : a.online = true → failuresAtEnd outcomes + 1 < healthFailThreshold := by
      intro honline
      rw [← hcount]
      exact Nat.lt_of_not_le fun hmany => hoff ⟨hmany, honline⟩
    refine ⟨?_, ⟨fun honline => ?_, fun hfew => ?_⟩, ?_⟩
    · rw [failuresAtEnd_failure, ← hcount]
    · rw [failuresAtEnd_failure]
      exact ⟨List.mem_append_left _ (h.online.1 honline).1, hstays honline⟩
    · obtain ⟨hseen, hfew⟩ := hfew
      rw [failuresAtEnd_failure] at hfew
      refine h.online.2 ⟨?_, by omega⟩
      simpa using hseen
    · have hstatus : a.node.status = statusAfter initial outcomes := h.status
      have hmem : true ∈ outcomes ++ [false] ↔ true ∈ outcomes := by simp
      rw [hstatus]
      unfold statusAfter
      simp only [hmem, failuresAtEnd_failure]
      by_cases hfew : true ∈ outcomes ∧ failuresAtEnd outcomes < healthFailThreshold
      · have hfew' := hstays (h.online.2 hfew)
        rw [if_pos hfew.1, if_pos hfew.1, if_pos hfew.2, if_pos hfew']
      · by_cases hseen : true ∈ outcomes
        · have hmany : ¬ failuresAtEnd outcomes < healthFailThreshold := fun h => hfew ⟨hseen, h⟩
          rw [if_pos hseen, if_pos hseen, if_neg hmany, if_neg (by omega)]
        · rw [if_neg hseen, if_neg hseen]

end Tracks

/-- One check of a run, with its outcome; the writes of the status succeed. -/
def Probe (s : NodeActor × World) (ok : Bool) (s' : NodeActor × World) : Prop :=
  ∃ now tr, Runs MayFail (KeepsStatus s.1.node.id) (checkHealth s.1 now).prog s.2 tr (.ok s'.1)
      s'.2 ∧
    HealthWritten tr ∧ (ok = true ↔ ∃ u, Answered s.1.node.id tr u)

/-- What a check does to the actor is a matter of its outcome. -/
theorem Probe.actor {s s' : NodeActor × World} {ok : Bool} (h : Probe s ok s') :
    (ok = false ∧ s'.1 = s.1.failed) ∨ (ok = true ∧ ∃ u, s'.1 = s.1.answered u) := by
  obtain ⟨now, tr, hrun, -, hok⟩ := h
  obtain ⟨hr, hno⟩ | ⟨u, hr, hu, -⟩ := checkHealth_actor (keepsStatus_refl _) hrun
  · refine Or.inl ⟨?_, Except.ok.inj hr⟩
    exact Bool.eq_false_iff.2 fun htrue => (hok.1 htrue).elim hno
  · exact Or.inr ⟨hok.2 ⟨u, (hu u).2 rfl⟩, u, Except.ok.inj hr⟩

/-- The status after a run. -/
theorem persisted_of_probes {n : Node} {w : World} {outcomes : List Bool}
    {s : NodeActor × World} (hn : lookup Node.id n.id w.tables.nodes = some n)
    (h : Path Probe (newNodeActor n, w) outcomes s) :
    persisted s.2 n.id = some (statusAfter n.status outcomes) := by
  have hstart : persisted w n.id = some n.status := by
    unfold persisted
    rw [hn]
    rfl
  have hkeep : ∀ (outcomes : List Bool) (s : NodeActor × World) (ok : Bool)
    (s' : NodeActor × World), s.1.node.id = n.id ∧ persisted s.2 n.id = some s.1.node.status ∧
        Tracks n.status outcomes s.1 → Probe s ok s' →
      s'.1.node.id = n.id ∧ persisted s'.2 n.id = some s'.1.node.status ∧
        Tracks n.status (outcomes ++ [ok]) s'.1 := by
    rintro outcomes s ok s' ⟨hid, hstatus, htracks⟩ hstep
    have hactor := hstep.actor
    obtain ⟨now, tr, hrun, hwritten, -⟩ := hstep
    have hafter := checkHealth_persisted hrun hwritten (by rw [hid]; exact hstatus)
    rw [hid] at hafter
    obtain ⟨rfl, hfailed⟩ | ⟨rfl, u, hanswered⟩ := hactor
    · refine ⟨?_, hafter, ?_⟩
      · rw [hfailed, NodeActor.id_failed, hid]
      · rw [hfailed]
        exact htracks.failed
    · refine ⟨?_, hafter, ?_⟩
      · rw [hanswered, NodeActor.id_answered, hid]
      · rw [hanswered]
        exact tracks_answered u
  obtain ⟨-, hstatus, htracks⟩ := Path.history
    (I := fun outcomes (s : NodeActor × World) => s.1.node.id = n.id ∧
      persisted s.2 n.id = some s.1.node.status ∧ Tracks n.status outcomes s.1)
    hkeep h ⟨rfl, hstart, tracks_start n⟩
  rw [hstatus, htracks.status]

/-! ## Does the report follow the probes -/

/-- After a success the status is `online`, and after three failures in a row it is `offline`. -/
def Follows (outcomes : List Bool) (status : Option NodeStatus) : Prop :=
  (∀ earlier, outcomes = earlier ++ [true] → status = some .online) ∧
    ∀ earlier, outcomes = earlier ++ [false, false, false] → status = some .offline

theorem follows_statusAfter_iff (initial : NodeStatus) (outcomes : List Bool) :
    Follows outcomes (some (statusAfter initial outcomes)) ↔
      initial = .offline ∨ outcomes.length < healthFailThreshold ∨ true ∈ outcomes := by
  constructor
  · intro h
    by_contra hno
    push Not at hno
    obtain ⟨hinitial, hlen, hnever⟩ := hno
    -- only failures, three at least: the row should say `offline`, and says what it said
    have hall : outcomes = List.replicate outcomes.length false :=
      List.eq_replicate_iff.2 ⟨rfl, fun b hb => by cases b with
        | false => rfl
        | true => exact (hnever hb).elim⟩
    have hthree : outcomes =
        List.replicate (outcomes.length - healthFailThreshold) false ++ [false, false, false] := by
      have hsplit := Nat.sub_add_cancel hlen
      nth_rewrite 1 [hall]
      rw [← hsplit, List.replicate_add, hsplit]
      rfl
    have hoff := h.2 _ hthree
    rw [statusAfter, if_neg hnever] at hoff
    exact hinitial (Option.some.inj hoff)
  · intro h
    refine ⟨fun earlier heq => ?_, fun earlier heq => ?_⟩
    · rw [heq, statusAfter, if_pos (by simp), failuresAtEnd_success, if_pos (by decide)]
    · have hmany : ¬ failuresAtEnd outcomes < healthFailThreshold := by
        have hthree : failuresAtEnd outcomes = failuresAtEnd earlier + 3 := by
          rw [heq]
          simp [failuresAtEnd]
        rw [hthree, healthFailThreshold]
        omega
      rw [statusAfter]
      split_ifs with hseen
      · rfl
      · obtain rfl | hlen | hseen' := h
        · rfl
        · rw [heq, List.length_append] at hlen
          have hlen : earlier.length + 3 < 3 := hlen
          omega
        · exact (hseen hseen').elim

/-- For every stored row and every run of an actor on it: the status in the database follows the
probes exactly when the row said `offline` at the start, fewer than three probes have been made, or
one of them was answered. -/
theorem health_follows_probes_iff {n : Node} {w : World} {outcomes : List Bool}
    {s : NodeActor × World} (hn : lookup Node.id n.id w.tables.nodes = some n)
    (h : Path Probe (newNodeActor n, w) outcomes s) :
    Follows outcomes (persisted s.2 n.id) ↔
      n.status = .offline ∨ outcomes.length < healthFailThreshold ∨ true ∈ outcomes := by
  rw [persisted_of_probes hn h]
  exact follows_statusAfter_iff n.status outcomes

/-! ## A node that cannot be reached -/

/-- The error of a ping. The connection is lazy, so it is the ping that fails, not the dial. -/
def refused : StoreErr := .internal "get sys stats: connection refused"

section Refused

variable {a : NodeActor} {w w' : World}

/-- A check whose ping is refused goes on with the failure branch. -/
theorem probe_refused (tr : Trace) {a' : NodeActor}
    (h : Runs MayFail (KeepsStatus a.node.id) (probeFailed a refused).prog w tr (.ok a') w')
    (hwritten : HealthWritten tr) (hquiet : ∀ u, ¬ Answered a.node.id tr u) :
    Probe (a, w) false (a', w') := by
  have hping : MayFail (.ping a.node.id) w (.error refused) w :=
    Or.inr ⟨rfl, "get sys stats: connection refused", rfl⟩
  refine ⟨0, ⟨.dial a.node.id, .ok ()⟩ :: ⟨.ping a.node.id, .error refused⟩ :: tr,
    Runs.call (keepsStatus_refl _ w) (mayFail_exec (.dial a.node.id) w)
      (Runs.call (keepsStatus_refl _ w) hping h), ?_, ?_⟩
  · intro id status errMsg seen res hmem
    obtain hmem | hmem := List.mem_cons.1 hmem
    · cases hmem
    · obtain hmem | hmem := List.mem_cons.1 hmem
      · cases hmem
      · exact hwritten id status errMsg seen res hmem
  · refine ⟨fun hno => (by cases hno), ?_⟩
    rintro ⟨u, hu⟩
    obtain hu | hu := List.mem_cons.1 hu
    · cases hu
    · obtain hu | hu := List.mem_cons.1 hu
      · cases hu
      · exact (hquiet u hu).elim

/-- Below the threshold the status is written again as it is. -/
theorem probe_refused_early (hfew : a.failCount + 1 < healthFailThreshold)
    (hw : MayFail (.db (.setNodeHealth a.node.id a.node.status refused.text none)) w (.ok ()) w') :
    Probe (a, w) false ({ a with failCount := a.failCount + 1 }, w') := by
  have hprog : probeFailed a refused =
      setHealth { a with failCount := a.failCount + 1 } a.node.status refused.text none := by
    unfold probeFailed
    rw [if_neg fun h => absurd hfew (Nat.not_lt.2 h.1), if_pos hfew]
  refine probe_refused [⟨.db (.setNodeHealth a.node.id a.node.status refused.text none), .ok ()⟩]
    ?_ ?_ ?_
  · rw [hprog]
    exact Runs.call (keepsStatus_refl _ w) hw (Runs.ret (keepsStatus_refl _ w'))
  · intro id status errMsg seen res hmem
    cases List.mem_singleton.1 hmem
    rfl
  · intro u hu
    cases List.mem_singleton.1 hu

/-- From there on nothing is written for a node that is not online. -/
theorem probe_refused_late (hmany : healthFailThreshold ≤ a.failCount + 1)
    (hoff : a.online = false) :
    Probe (a, w) false ({ a with failCount := a.failCount + 1 }, w) := by
  have hprog : probeFailed a refused = pure { a with failCount := a.failCount + 1 } := by
    unfold probeFailed
    rw [if_neg fun h => absurd (hoff.symm.trans h.2) Bool.false_ne_true,
      if_neg (Nat.not_lt.2 hmany)]
  refine probe_refused [] ?_ (fun _ _ _ _ _ h => absurd h List.not_mem_nil)
    fun _ h => absurd h List.not_mem_nil
  rw [hprog]
  exact Runs.ret (keepsStatus_refl _ w)

end Refused

/-- One node and nothing else. -/
def loneWorld (n : Node) : World :=
  .still ⟨{ Tables.empty with nodes := [n] },
    by constructor <;> simp [Tables.empty, UniqueNonNull]⟩

/-- A stored node with the given status. -/
def storedAs (status : NodeStatus) : Node := { Node.plain "n1" with status := status }

def afterRefusal (status : NodeStatus) (w : World) : World :=
  (exec (.db (.setNodeHealth "n1" status refused.text none)) w).2

/-- An actor whose node is never reached. -/
theorem silent_probes (status : NodeStatus) :
    ∃ s, Path Probe (newNodeActor (storedAs status), loneWorld (storedAs status))
      [false, false, false]
      s := by
  have hfirst : Probe (newNodeActor (storedAs status), loneWorld (storedAs status)) false
      (⟨storedAs status, 1, false, 0⟩, afterRefusal status (loneWorld (storedAs status))) :=
    probe_refused_early (by decide : 0 + 1 < healthFailThreshold)
      (mayFail_exec (.db (.setNodeHealth "n1" status refused.text none)) _)
  have hsecond : Probe (⟨storedAs status, 1, false, 0⟩,
    afterRefusal status (loneWorld (storedAs status)))
      false (⟨storedAs status, 2, false, 0⟩,
        afterRefusal status (afterRefusal status (loneWorld (storedAs status)))) :=
    probe_refused_early (by decide : 1 + 1 < healthFailThreshold)
      (mayFail_exec (.db (.setNodeHealth "n1" status refused.text none)) _)
  exact ⟨_, Path.cons hfirst (Path.cons hsecond (Path.single
    (probe_refused_late (by decide : healthFailThreshold ≤ 2 + 1) rfl)))⟩

/-- A node that was stored as offline is reported as offline. -/
theorem health_follows_probes_iff_offline :
    ∃ s, Path Probe (newNodeActor (storedAs .offline), loneWorld (storedAs .offline))
        [false, false, false] s ∧ Follows [false, false, false] (persisted s.2 "n1") := by
  obtain ⟨s, h⟩ := silent_probes .offline
  have hrow : lookup Node.id "n1" (loneWorld (storedAs .offline)).tables.nodes =
      some (storedAs .offline) := rfl
  exact ⟨s, h, (health_follows_probes_iff hrow h).2 (Or.inl rfl)⟩

/-- A node that was stored as online and does not answer is reported as online. -/
theorem silent_node_reported_online :
    ∃ s, Path Probe (newNodeActor (storedAs .online), loneWorld (storedAs .online))
        [false, false, false] s ∧ persisted s.2 "n1" = some .online ∧
      ¬ Follows [false, false, false] (persisted s.2 "n1") := by
  obtain ⟨s, h⟩ := silent_probes .online
  have hrow : lookup Node.id "n1" (loneWorld (storedAs .online)).tables.nodes =
      some (storedAs .online) := rfl
  have honline : persisted s.2 "n1" = some .online := persisted_of_probes hrow h
  refine ⟨s, h, honline, fun hfollows => ?_⟩
  have hoff := hfollows.2 [] rfl
  rw [honline] at hoff
  cases hoff

end XrayApi.Worker
