import XrayApi.Worker.Reconciler

/-!
# Health checks

`nodeActor.checkHealth` of `internal/worker/nodeactor.go` with the part of the actor it reads and
writes. A check pings the node, records the outcome with `SetNodeHealth` and, when the node was
offline so far or its uptime has dropped, runs a pass. Besides its own state the actor keeps a copy
of the node's row; `setHealth` keeps the status of the copy in step with what it writes.

`checkHealth_inv` cuts a check into the probe and what follows it, and `checkHealth_actor` says what
becomes of the actor.
-/

set_option autoImplicit false

namespace XrayApi.Worker

open Transition Store Xray Relational

/-! ## The actor -/

def healthFailThreshold : Nat := 3

/-- The state of a node's actor that health checks use. -/
structure NodeActor where
  node : Node
  failCount : Nat
  online : Bool
  /-- The uptime at the last successful ping. -/
  lastUptime : UInt32
  deriving DecidableEq, Repr

/-- An actor starts on a row of the database, with a node it has not reached yet. -/
def newNodeActor (n : Node) : NodeActor := ⟨n, 0, false, 0⟩

/-- Dial the node and ping it; an error of either is the outcome of the probe. -/
def ping (n : ID) : Service (Except StoreErr UInt32) :=
  Prog.call (.dial n) fun
    | .error e => Prog.ret (.ok (.error e))
    | .ok _ => Prog.call (.ping n) fun r => Prog.ret (.ok r)

/-- Record a status. A failure of the write is logged and dropped. -/
def setHealth (a : NodeActor) (status : NodeStatus) (errMsg : String) (seen : Option Time) :
    Service NodeActor := do
  let _ ← attempt (.setNodeHealth a.node.id status errMsg seen)
  pure { a with node := { a.node with status := status } }

/-- A pass started by the actor itself; its error is logged where it occurs. -/
def runPass (n : ID) : Service Unit :=
  Prog.bind (reconcile n).prog fun _ => Prog.ret (.ok ())

/-- The part of `checkHealth` after a failed probe. -/
def probeFailed (a : NodeActor) (e : StoreErr) : Service NodeActor :=
  if healthFailThreshold ≤ a.failCount + 1 ∧ a.online = true then
    setHealth { a with failCount := a.failCount + 1, online := false } .offline e.text none
  else if a.failCount + 1 < healthFailThreshold then
    setHealth { a with failCount := a.failCount + 1 } a.node.status e.text none
  else pure { a with failCount := a.failCount + 1 }

/-- A node that answers with this uptime is reconciled. -/
def NodeActor.reconciles (a : NodeActor) (uptime : UInt32) : Bool :=
  let wasOffline := !a.online
  let restarted := decide (0 < a.lastUptime) && decide (uptime < a.lastUptime)
  wasOffline || restarted

/-- The part of `checkHealth` after a successful probe. -/
def probeAnswered (a : NodeActor) (uptime : UInt32) (now : Time) : Service NodeActor := do
  let b ← setHealth { a with failCount := 0, lastUptime := uptime, online := true } .online ""
    (some now)
  if a.reconciles uptime then do
    runPass b.node.id
    pure b
  else pure b

def checkHealth (a : NodeActor) (now : Time) : Service NodeActor := do
  let r ← ping a.node.id
  match r with
  | .error e => probeFailed a e
  | .ok uptime => probeAnswered a uptime now

/-- The actor after a failed probe. -/
def NodeActor.failed (a : NodeActor) : NodeActor :=
  if healthFailThreshold ≤ a.failCount + 1 ∧ a.online = true then
    { a with
      failCount := a.failCount + 1
      online := false
      node := { a.node with status := .offline } }
  else { a with failCount := a.failCount + 1 }

/-- The actor after a successful probe. -/
def NodeActor.answered (a : NodeActor) (uptime : UInt32) : NodeActor where
  node := { a.node with status := .online }
  failCount := 0
  online := true
  lastUptime := uptime

@[simp] theorem NodeActor.id_failed (a : NodeActor) : a.failed.node.id = a.node.id := by
  unfold failed
  split_ifs with h
  · rfl
  · rfl

@[simp] theorem NodeActor.id_answered (a : NodeActor) (u : UInt32) :
    (a.answered u).node.id = a.node.id := rfl

@[simp] theorem NodeActor.lastUptime_failed (a : NodeActor) :
    a.failed.lastUptime = a.lastUptime := by
  unfold failed
  split_ifs with h
  · rfl
  · rfl

/-! ## The statements of a pass -/

/-- The statements a pass is made of. -/
def OfPass : Stmt → Prop
  | .dial _ => True
  | .removeUser _ _ _ => True
  | .addUser _ _ _ => True
  | .db (.removalsForNode _) => True
  | .db (.desiredForNode _) => True
  | .db (.deleteAssignment _ _) => True
  | .db (.markAssignmentSynced _ _ _ _) => True
  | _ => False

theorem removeAll_ofPass (n : ID) (ds : List DesiredAssignment) :
    Prog.Forall OfPass (removeAll n ds).prog := by
  induction ds with
  | nil => trivial
  | cons d rest ih =>
      refine Req.forall_bind ⟨trivial, fun _ => trivial⟩ fun _ => Req.forall_bind ?_ fun _ => ih
      unfold dropTombstone
      split_ifs with hs
      · exact ⟨trivial, fun _ => trivial⟩
      · trivial

theorem addAll_ofPass (n : ID) (ds : List DesiredAssignment) :
    Prog.Forall OfPass (addAll n ds).prog := by
  induction ds with
  | nil => trivial
  | cons d rest ih =>
      refine Req.forall_bind ⟨trivial, fun _ => trivial⟩ fun r => ?_
      cases r with
      | error e => exact ⟨trivial, fun _ => trivial⟩
      | ok u =>
          refine Req.forall_bind ?_ fun _ => ih
          unfold markApplied
          split_ifs with hs
          · exact ⟨trivial, fun _ => trivial⟩
          · trivial

theorem runPass_ofPass (n : ID) : Prog.Forall OfPass (runPass n).prog := by
  refine Prog.Forall.bind ?_ fun _ => trivial
  refine Req.forall_bind ⟨trivial, fun _ => trivial⟩ fun _ => ?_
  refine Req.forall_bind ⟨trivial, fun _ => trivial⟩ fun removals => ?_
  refine Req.forall_bind (removeAll_ofPass n removals) fun _ => ?_
  exact Req.forall_bind ⟨trivial, fun _ => trivial⟩ fun desired => addAll_ofPass n desired

/-- A pass writes no node's row. -/
theorem ofPass_nodes {s : Stmt} {r : s.Res} {w w' : World} (hs : OfPass s) (h : MayFail s w r w') :
    w'.tables.nodes = w.tables.nodes := by
  obtain h | ⟨rfl, -⟩ := mayFail_cases h
  swap
  · rfl
  cases s with
  | dial n => rw [(answers_dial h).2]
  | removeUser n tag email => rw [(answers_removeUser h).2]; rfl
  | addUser n tag acc => cases h; rfl
  | db q =>
      cases q with
      | removalsForNode n =>
          obtain ⟨-, -, -, ht⟩ := answers_db_of_ok rfl h
          rw [ht]
      | desiredForNode n =>
          obtain ⟨-, -, -, ht⟩ := answers_db_of_ok rfl h
          rw [ht]
      | deleteAssignment userID inboundID =>
          obtain ⟨-, -, -, ht⟩ := answers_db_of_ok rfl h
          rw [ht]
          rfl
      | markAssignmentSynced userID inboundID status errMsg =>
          obtain ⟨-, -, -, ht⟩ := answers_db_of_ok rfl h
          rw [ht]
          rfl
      | _ => exact hs.elim
  | _ => exact hs.elim

/-! ## The course of a check -/

/-- What the statements of a check were answered. -/
abbrev Trace : Type := List (Event Stmt Stmt.Res)

/-- The node answered the ping with this uptime. -/
def Answered (n : ID) (tr : Trace) (uptime : UInt32) : Prop :=
  (⟨.ping n, .ok uptime⟩ : Event Stmt Stmt.Res) ∈ tr

/-- A pass is started. The first statement of a check is its own `dial`; a further one begins a
pass. -/
def StartsPass (n : ID) (tr : Trace) : Prop :=
  ∃ r, (⟨.dial n, r⟩ : Event Stmt Stmt.Res) ∈ tr.tail

section Course

variable {rely : World → World → Prop} {a : NodeActor} {now : Time} {w w' : World} {tr : Trace}
  {r : Except Err NodeActor}

theorem setHealth_inv {status : NodeStatus} {errMsg : String} {seen : Option Time}
    (h : Runs MayFail rely (setHealth a status errMsg seen).prog w tr r w') :
    r = .ok { a with node := { a.node with status := status } } ∧
      ∃ res w₁ w₂, tr = [⟨.db (.setNodeHealth a.node.id status errMsg seen), res⟩] ∧ rely w w₁ ∧
        MayFail (.db (.setNodeHealth a.node.id status errMsg seen)) w₁ res w₂ ∧ rely w₂ w' := by
  obtain ⟨w₁, res, w₂, tr', hr, hsem, rfl, hend⟩ := Runs.call_inv h
  obtain ⟨rfl, rfl, hr'⟩ := Runs.ret_inv hend
  exact ⟨rfl, res, w₁, w₂, rfl, hr, hsem, hr'⟩

/-- After a failed probe the status of the copy is written, or the actor leaves things as they
are. -/
theorem probeFailed_inv {e : StoreErr} (h : Runs MayFail rely (probeFailed a e).prog w tr r w') :
    r = .ok a.failed ∧
      ((tr = [] ∧ rely w w' ∧ a.failed.node.status = a.node.status) ∨
        ∃ res w₁ w₂, tr = [⟨.db (.setNodeHealth a.node.id a.failed.node.status e.text none), res⟩] ∧
          rely w w₁ ∧
          MayFail (.db (.setNodeHealth a.node.id a.failed.node.status e.text none)) w₁ res w₂ ∧
          rely w₂ w') := by
  unfold probeFailed at h
  unfold NodeActor.failed
  split_ifs at h with hoff hfew
  · rw [if_pos hoff]
    obtain ⟨hr, hwrite⟩ := setHealth_inv h
    exact ⟨hr, Or.inr hwrite⟩
  · rw [if_neg hoff]
    obtain ⟨hr, hwrite⟩ := setHealth_inv h
    exact ⟨hr, Or.inr hwrite⟩
  · rw [if_neg hoff]
    obtain ⟨rfl, rfl, hr⟩ := Runs.ret_inv h
    exact ⟨rfl, Or.inl ⟨rfl, hr, rfl⟩⟩

theorem runPass_inv (hrefl : ∀ v, rely v v) {n : ID} {x : Except Err Unit}
    (h : Runs MayFail rely (runPass n).prog w tr x w') :
    x = .ok () ∧ (∀ e ∈ tr, OfPass e.stmt) ∧ ∃ res tr', tr = ⟨.dial n, res⟩ :: tr' := by
  obtain ⟨hall, -⟩ := Runs.forall_keeps (I := fun _ => True) (fun _ _ _ _ => trivial)
    (fun _ _ _ _ _ _ _ => trivial) h (runPass_ofPass n) trivial
  obtain ⟨-, w₁, tr₁, tr₂, -, hend, -⟩ := Runs.bind_inv hrefl h
  obtain ⟨-, res, -, tr', -, -, htr, -⟩ := Runs.call_inv h
  exact ⟨(Runs.ret_inv hend).1, hall, res, tr', htr⟩

/-- After a successful probe the node is recorded as online, and a pass follows or not. -/
theorem probeAnswered_inv (hrefl : ∀ v, rely v v) {u : UInt32}
    (h : Runs MayFail rely (probeAnswered a u now).prog w tr r w') :
    r = .ok (a.answered u) ∧
      ∃ res w₁ w₂ tr', tr = ⟨.db (.setNodeHealth a.node.id .online "" (some now)), res⟩ :: tr' ∧
        rely w w₁ ∧ MayFail (.db (.setNodeHealth a.node.id .online "" (some now))) w₁ res w₂ ∧
        ((a.reconciles u = true ∧ ∃ x w₃, Runs MayFail rely (runPass a.node.id).prog w₂ tr' x w₃ ∧
            rely w₃ w') ∨
          (a.reconciles u = false ∧ tr' = [] ∧ rely w₂ w')) := by
  obtain ⟨w₁, res, w₂, tr', hr, hsem, rfl, hrest⟩ := Runs.call_inv h
  have hrest : Runs MayFail rely (Req.prog (if a.reconciles u = true
      then runPass a.node.id >>= fun _ => pure (a.answered u) else pure (a.answered u)))
      w₂ tr' r w' := hrest
  cases hrec : a.reconciles u with
  | true =>
      rw [hrec, if_pos rfl] at hrest
      obtain ⟨x, w₃, tr₁, tr₂, hpass, hend, rfl⟩ := Runs.bind_inv hrefl hrest
      obtain ⟨rfl, -, -⟩ := runPass_inv hrefl hpass
      obtain ⟨rfl, rfl, hr'⟩ := Runs.ret_inv hend
      refine ⟨rfl, res, w₁, w₂, _, rfl, hr, hsem, Or.inl ⟨rfl, .ok (), w₃, ?_, hr'⟩⟩
      rw [List.append_nil]
      exact hpass
  | false =>
      rw [hrec, if_neg Bool.false_ne_true] at hrest
      obtain ⟨rfl, rfl, hr'⟩ := Runs.ret_inv hrest
      exact ⟨rfl, res, w₁, w₂, [], rfl, hr, hsem, Or.inr ⟨rfl, rfl, hr'⟩⟩

/-- The trace of a probe that fails. -/
def FailedProbe (n : ID) (e : StoreErr) (tr : Trace) : Prop :=
  tr = [⟨.dial n, .error e⟩] ∨ tr = [⟨.dial n, .ok ()⟩, ⟨.ping n, .error e⟩]

/-- A check is a probe and what follows it. The probe changes nothing. -/
theorem checkHealth_inv {I : World → Prop} (hrely : ∀ v v', rely v v' → I v → I v')
    (h : Runs MayFail rely (checkHealth a now).prog w tr r w') (hI : I w) :
    (∃ e v tr₁ tr₂, FailedProbe a.node.id e tr₁ ∧ tr = tr₁ ++ tr₂ ∧ I v ∧
        Runs MayFail rely (probeFailed a e).prog v tr₂ r w') ∨
      ∃ u v tr₂, tr = ⟨.dial a.node.id, .ok ()⟩ :: ⟨.ping a.node.id, .ok u⟩ :: tr₂ ∧ I v ∧
        Runs MayFail rely (probeAnswered a u now).prog v tr₂ r w' := by
  obtain ⟨w₁, res, w₂, tr₁, hr, hdial, rfl, hrest⟩ := Runs.call_inv h
  have hI₁ := hrely _ _ hr hI
  have hsame : w₂ = w₁ := by
    obtain hans | ⟨hw, -⟩ := mayFail_cases hdial
    · exact (answers_dial hans).2
    · exact hw
  subst hsame
  cases res with
  | error e => exact Or.inl ⟨e, w₂, _, tr₁, Or.inl rfl, rfl, hI₁, hrest⟩
  | ok o =>
      obtain ⟨w₃, res, w₄, tr₂, hr', hping, rfl, hend⟩ := Runs.call_inv hrest
      have hI₃ := hrely _ _ hr' hI₁
      have hsame : w₄ = w₃ := by
        obtain hans | ⟨hw, -⟩ := mayFail_cases hping
        · cases hans
          rfl
        · exact hw
      subst hsame
      cases res with
      | error e => exact Or.inl ⟨e, w₄, _, tr₂, Or.inr rfl, rfl, hI₃, hend⟩
      | ok u => exact Or.inr ⟨u, w₄, tr₂, rfl, hI₃, hend⟩

/-- What becomes of the actor in a check, whatever happens around it. -/
theorem checkHealth_actor (hrefl : ∀ v, rely v v)
    (h : Runs MayFail rely (checkHealth a now).prog w tr r w') :
    (r = .ok a.failed ∧ (∀ u, ¬ Answered a.node.id tr u)) ∨
      ∃ u, r = .ok (a.answered u) ∧ (∀ u', Answered a.node.id tr u' ↔ u' = u) ∧
        (StartsPass a.node.id tr ↔ a.reconciles u = true) := by
  obtain ⟨e, v, tr₁, tr₂, hprobe, rfl, -, hrest⟩ | ⟨u, v, tr₂, rfl, -, hrest⟩ :=
    checkHealth_inv (I := fun _ => True) (fun _ _ _ _ => trivial) h trivial
  · obtain ⟨rfl, hwrite⟩ := probeFailed_inv hrest
    refine Or.inl ⟨rfl, fun u hu => ?_⟩
    obtain hu | hu := List.mem_append.1 hu
    · obtain rfl | rfl := hprobe
      · simp at hu
      · simp at hu
    · obtain ⟨rfl, -⟩ | ⟨res, _, _, rfl, -⟩ := hwrite
      · cases hu
      · simp at hu
  · obtain ⟨rfl, res, w₁, w₂, tr', rfl, -, -, hpass⟩ := probeAnswered_inv hrefl hrest
    -- after the probe there are the write and the statements of a pass, if there is one
    have hlater : ∀ e ∈ tr', OfPass e.stmt := by
      obtain ⟨-, x, w₃, hrun, -⟩ | ⟨-, rfl, -⟩ := hpass
      · exact (runPass_inv hrefl hrun).2.1
      · exact fun e he => (List.not_mem_nil he).elim
    refine Or.inr ⟨u, rfl, fun u' => ⟨fun hu => ?_, fun hu => ?_⟩, ?_⟩
    · obtain hu | hu := List.mem_cons.1 hu
      · cases hu
      · obtain hu | hu := List.mem_cons.1 hu
        · cases hu
          rfl
        · obtain hu | hu := List.mem_cons.1 hu
          · cases hu
          · exact (hlater _ hu).elim
    · rw [hu]
      exact List.mem_cons_of_mem _ List.mem_cons_self
    · obtain ⟨hrec, x, w₃, hrun, -⟩ | ⟨hrec, rfl, -⟩ := hpass
      · obtain ⟨-, -, res', tr₃, rfl⟩ := runPass_inv hrefl hrun
        exact ⟨fun _ => hrec, fun _ => ⟨res', List.mem_cons_of_mem _
          (List.mem_cons_of_mem _ List.mem_cons_self)⟩⟩
      · refine ⟨?_, fun h => absurd (hrec.symm.trans h) Bool.false_ne_true⟩
        rintro ⟨res', hmem⟩
        simp at hmem

end Course

end XrayApi.Worker
