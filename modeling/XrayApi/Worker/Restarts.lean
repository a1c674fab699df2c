import XrayApi.Worker.Probes

/-!
# Restarts between pings

A node loses its users when it restarts, and its actor is to notice. A node is given by its start
times; a ping is answered with the whole seconds since the latest one. The actor compares the
uptimes of two successful pings, so it notices a restart exactly when the second uptime is lower or
when it has given the node up in between (`RestartsShow`). A node that restarts soon after its start
is up for longer at the second ping than at the first, and its restart stays hidden. For a node that
has been up for longer than the time between two pings this cannot happen (`LongLived`).
-/

set_option autoImplicit false

namespace XrayApi.Worker

open Transition Store Xray

/-! ## Uptimes -/

/-- One second. -/
def second : Time := 1000000

/-- The latest of the start times up to `t`. -/
def latestStart (starts : List Time) (t : Time) : Option Time :=
  (starts.filter fun s => decide (s ≤ t)).max?

/-- The uptime a node with these start times reports at `t`, in whole seconds. -/
def uptimeAt (starts : List Time) (t : Time) : Option UInt32 :=
  (latestStart starts t).map fun s => UInt32.ofNat ((t - s) / second).toNat

/-- The node started after `t₁`, not later than `t₂`. -/
def RestartsBetween (starts : List Time) (t₁ t₂ : Time) : Prop :=
  ∃ s ∈ starts, t₁ < s ∧ s ≤ t₂

/-- The uptime reported at `t₂` is lower than the one reported at `t₁`. -/
def UptimeDrops (starts : List Time) (t₁ t₂ : Time) : Prop :=
  ∃ u₁ u₂, uptimeAt starts t₁ = some u₁ ∧ uptimeAt starts t₂ = some u₂ ∧ u₂ < u₁

/-! ## Checks of one actor -/

/-- A check of the node's health: its time and its statements with their answers. -/
structure Check where
  time : Time
  trace : Trace

/-- The ping of the check was answered. -/
def Check.Success (n : ID) (c : Check) : Prop := ∃ u, Answered n c.trace u

/-- A check, while anything may happen to the world around the actor. A node that answers reports
its uptime. -/
def Checks (starts : List Time) (s : NodeActor × World) (c : Check) (s' : NodeActor × World) :
    Prop :=
  Runs MayFail (fun _ _ => True) (checkHealth s.1 c.time).prog s.2 c.trace (.ok s'.1) s'.2 ∧
    ∀ u, Answered s.1.node.id c.trace u → uptimeAt starts c.time = some u

section Steps

variable {starts : List Time} {s s' : NodeActor × World} {c : Check} {cs : List Check}

theorem Checks.of_failure (h : Checks starts s c s') (hno : ¬ c.Success s.1.node.id) :
    s'.1 = s.1.failed := by
  obtain ⟨hr, -⟩ | ⟨u, -, hu, -⟩ := checkHealth_actor (fun _ => trivial) h.1
  · exact Except.ok.inj hr
  · exact (hno ⟨u, (hu u).2 rfl⟩).elim

theorem Checks.of_success (h : Checks starts s c s') (hsuccess : c.Success s.1.node.id) :
    ∃ u, uptimeAt starts c.time = some u ∧ s'.1 = s.1.answered u ∧
      (StartsPass s.1.node.id c.trace ↔ s.1.reconciles u = true) := by
  obtain ⟨u, hu⟩ := hsuccess
  obtain ⟨-, hno⟩ | ⟨v, hr, hv, hpass⟩ := checkHealth_actor (fun _ => trivial) h.1
  · exact (hno u hu).elim
  · obtain rfl := (hv u).1 hu
    exact ⟨u, h.2 u hu, Except.ok.inj hr, hpass⟩

theorem Checks.id_eq (h : Checks starts s c s') : s'.1.node.id = s.1.node.id := by
  by_cases hsuccess : c.Success s.1.node.id
  · obtain ⟨u, -, hs, -⟩ := h.of_success hsuccess
    rw [hs, NodeActor.id_answered]
  · rw [h.of_failure hsuccess, NodeActor.id_failed]

theorem id_of_checks (h : Path (Checks starts) s cs s') : s'.1.node.id = s.1.node.id :=
  Path.invariant (I := fun t : NodeActor × World => t.1.node.id = s.1.node.id)
    (fun _ _ _ ht hstep => hstep.id_eq.trans ht) h rfl

end Steps

/-! ## Between two successes -/

/-- The actor after `k` failures in a row since the node answered with `uptime`. -/
structure Waiting (uptime : UInt32) (k : Nat) (a : NodeActor) : Prop where
  lastUptime : a.lastUptime = uptime
  failCount : a.failCount = k
  online : a.online = true ↔ k < healthFailThreshold

section Waiting

variable {u : UInt32} {k : Nat} {a : NodeActor}

theorem waiting_answered (a : NodeActor) (u : UInt32) : Waiting u 0 (a.answered u) where
  lastUptime := rfl
  failCount := rfl
  online := iff_of_true rfl (by decide)

theorem Waiting.failed (h : Waiting u k a) : Waiting u (k + 1) a.failed := by
  have hcount := h.failCount
  refine ⟨a.lastUptime_failed.trans h.lastUptime, ?_, ?_⟩
  · unfold NodeActor.failed
    split_ifs with hoff
    · exact congrArg (· + 1) hcount
    · exact congrArg (· + 1) hcount
  · unfold NodeActor.failed
    split_ifs with hoff
    · -- the failure that reaches the threshold
      rw [hcount] at hoff
      exact iff_of_false not_false (Nat.not_lt.2 hoff.1)
    · rw [hcount] at hoff
      refine ⟨fun honline => ?_, fun hfew => h.online.2 (Nat.lt_of_succ_lt hfew)⟩
      exact Nat.lt_of_not_le fun hmany => hoff ⟨hmany, honline⟩

/-- When the node answers again, a pass is due after three failures or a drop of the uptime. -/
theorem Waiting.reconciles_iff (h : Waiting u k a) (u' : UInt32) :
    a.reconciles u' = true ↔ healthFailThreshold ≤ k ∨ u' < u := by
  have hoffline : (!a.online) = true ↔ healthFailThreshold ≤ k := by
    rw [Bool.not_eq_true', ← Bool.not_eq_true, h.online, Nat.not_lt]
  -- a drop is from an uptime above 0, so the test of `lastUptime` never hides one
  have hdrop : 0 < a.lastUptime ∧ u' < a.lastUptime ↔ u' < u := by
    rw [h.lastUptime]
    exact ⟨fun hboth => hboth.2, fun hlt => ⟨UInt32.lt_of_le_of_lt UInt32.zero_le hlt, hlt⟩⟩
  simp only [NodeActor.reconciles, Bool.or_eq_true, Bool.and_eq_true, decide_eq_true_eq, hoffline,
    hdrop]

theorem waiting_of_failures {starts : List Time} {s s' : NodeActor × World} {cs : List Check}
    (h : Path (Checks starts) s cs s') (hno : ∀ c ∈ cs, ¬ c.Success s.1.node.id)
    (hs : Waiting u 0 s.1) : Waiting u cs.length s'.1 := by
  have hkeep : ∀ (cs : List Check) (t : NodeActor × World) (c : Check) (t' : NodeActor × World),
      t.1.node.id = s.1.node.id ∧ Waiting u cs.length t.1 →
      Checks starts t c t' ∧ ¬ c.Success s.1.node.id →
      t'.1.node.id = s.1.node.id ∧ Waiting u (cs ++ [c]).length t'.1 := by
    rintro cs t c t' ⟨hid, hwait⟩ ⟨hstep, hfail⟩
    rw [← hid] at hfail
    refine ⟨hstep.id_eq.trans hid, ?_⟩
    rw [hstep.of_failure hfail, List.length_append]
    exact hwait.failed
  exact (Path.history (I := fun cs (t : NodeActor × World) => t.1.node.id = s.1.node.id ∧
    Waiting u cs.length t.1) hkeep (h.restrict hno) ⟨rfl, hs⟩).2

end Waiting

/-- `c₁` and `c₂` are successes of the run with nothing but failures between them. -/
structure Successive (n : ID) (cs : List Check) (c₁ : Check) (failures : List Check) (c₂ : Check) :
    Prop where
  split : ∃ earlier later, cs = earlier ++ c₁ :: (failures ++ c₂ :: later)
  first : c₁.Success n
  between : ∀ c ∈ failures, ¬ c.Success n
  second : c₂.Success n

/-- At the second of two successive successes a pass is run exactly if three pings failed in between
or the uptime has dropped. -/
theorem startsPass_iff {starts : List Time} {s s' : NodeActor × World} {cs failures : List Check}
    {c₁ c₂ : Check} (h : Path (Checks starts) s cs s')
    (hsucc : Successive s.1.node.id cs c₁ failures c₂) :
    StartsPass s.1.node.id c₂.trace ↔
      healthFailThreshold ≤ failures.length ∨ UptimeDrops starts c₁.time c₂.time := by
  obtain ⟨⟨earlier, later, rfl⟩, hfirst, hbetween, hsecond⟩ := hsucc
  -- the states before and after the two checks
  obtain ⟨t₁, hearlier, hrest⟩ := h.split
  obtain ⟨t₂, hc₁, hrest⟩ := hrest.cons_inv
  obtain ⟨t₃, hfailures, hrest⟩ := hrest.split
  obtain ⟨t₄, hc₂, -⟩ := hrest.cons_inv
  have hid₁ : t₁.1.node.id = s.1.node.id := id_of_checks hearlier
  have hid₂ : t₂.1.node.id = s.1.node.id := hc₁.id_eq.trans hid₁
  have hid₃ : t₃.1.node.id = s.1.node.id := (id_of_checks hfailures).trans hid₂
  rw [← hid₁] at hfirst
  obtain ⟨u₁, hu₁, hactor, -⟩ := hc₁.of_success hfirst
  have hwait : Waiting u₁ failures.length t₃.1 := by
    refine waiting_of_failures hfailures (fun c hc => ?_) ?_
    · rw [hid₂]
      exact hbetween c hc
    · rw [hactor]
      exact waiting_answered t₁.1 u₁
  rw [← hid₃] at hsecond ⊢
  obtain ⟨u₂, hu₂, -, hpass⟩ := hc₂.of_success hsecond
  rw [hpass, hwait.reconciles_iff]
  refine or_congr_right ⟨fun hlt => ⟨u₁, u₂, hu₁, hu₂, hlt⟩, ?_⟩
  rintro ⟨v₁, v₂, hv₁, hv₂, hlt⟩
  rw [hu₁] at hv₁
  rw [hu₂] at hv₂
  cases hv₁
  cases hv₂
  exact hlt

/-! ## Are restarts noticed -/

/-- A node that restarted between two successive successes is reconciled at the second. -/
def NoticesRestarts (n : ID) (starts : List Time) (cs : List Check) : Prop :=
  ∀ c₁ failures c₂, Successive n cs c₁ failures c₂ → RestartsBetween starts c₁.time c₂.time →
    StartsPass n c₂.trace

/-- Wherever the node restarted between two successive successes, at least three pings failed in
between or the uptime it reports has dropped. -/
def RestartsShow (n : ID) (starts : List Time) (cs : List Check) : Prop :=
  ∀ c₁ failures c₂, Successive n cs c₁ failures c₂ → RestartsBetween starts c₁.time c₂.time →
    healthFailThreshold ≤ failures.length ∨ UptimeDrops starts c₁.time c₂.time

/-! ## Nodes that have been up for long -/

theorem latestStart_eq_some {starts : List Time} {t s : Time} :
    latestStart starts t = some s ↔ (s ∈ starts ∧ s ≤ t) ∧ ∀ s' ∈ starts, s' ≤ t → s' ≤ s := by
  unfold latestStart
  rw [List.max?_eq_some_iff]
  simp [List.mem_filter]

/-- At `t₁` the node has been up for a second longer than the time from `t₁` to `t₂`, and not so
long that the counter of its uptime has overflown. -/
def LongLived (starts : List Time) (t₁ t₂ : Time) : Prop :=
  ∃ s, latestStart starts t₁ = some s ∧ t₂ - t₁ + second ≤ t₁ - s ∧ t₁ - s < 2 ^ 32 * second

theorem uptime_lt {x y : Int} (hx : 0 ≤ x) (hxy : x + second ≤ y) (hy : y < 2 ^ 32 * second) :
    UInt32.ofNat (x / second).toNat < UInt32.ofNat (y / second).toNat := by
  unfold second at hxy hy ⊢
  have hlt : (x / 1000000).toNat < (y / 1000000).toNat := by omega
  have hsize : (y / 1000000).toNat < UInt32.size := by
    change _ < 2 ^ 32
    omega
  exact (UInt32.ofNat_lt_iff_lt (hlt.trans hsize) hsize).2 hlt

/-- A restart of such a node shows. -/
theorem LongLived.uptimeDrops {starts : List Time} {t₁ t₂ : Time} (h : LongLived starts t₁ t₂)
    (hrestart : RestartsBetween starts t₁ t₂) : UptimeDrops starts t₁ t₂ := by
  obtain ⟨s₁, hs₁, hlong, hsize⟩ := h
  obtain ⟨s, hs, hafter, hbefore⟩ := hrestart
  -- the latest start at the second ping is not before `s`
  have hsome : (latestStart starts t₂).isSome := by
    unfold latestStart
    rw [List.isSome_max?_iff]
    exact List.ne_nil_of_mem (List.mem_filter.2 ⟨hs, decide_eq_true hbefore⟩)
  obtain ⟨s₂, hs₂⟩ := Option.isSome_iff_exists.1 hsome
  obtain ⟨⟨-, hle⟩, hlatest⟩ := latestStart_eq_some.1 hs₂
  have hge : s ≤ s₂ := hlatest s hs hbefore
  have hshort : t₂ - s₂ ≤ t₂ - t₁ := Int.sub_le_sub_left (hafter.le.trans hge) t₂
  refine ⟨_, _, congrArg (Option.map _) hs₁, congrArg (Option.map _) hs₂, ?_⟩
  exact uptime_lt (Int.sub_nonneg_of_le hle) ((Int.add_le_add_right hshort _).trans hlong) hsize

/-- For all start times of the node, all ping times and all outcomes of the pings: the actor notices
every restart exactly when every restart shows. It does if the node has been up for long at each
ping. -/
theorem notices_restarts_iff {starts : List Time} {s s' : NodeActor × World} {cs : List Check}
    (h : Path (Checks starts) s cs s') :
    (NoticesRestarts s.1.node.id starts cs ↔ RestartsShow s.1.node.id starts cs) ∧
      ((∀ c₁ failures c₂, Successive s.1.node.id cs c₁ failures c₂ →
        LongLived starts c₁.time c₂.time) → NoticesRestarts s.1.node.id starts cs) := by
  refine ⟨⟨fun hnotices c₁ failures c₂ hsucc hrestart => ?_,
    fun hshow c₁ failures c₂ hsucc hrestart => ?_⟩, fun hlong c₁ failures c₂ hsucc hrestart => ?_⟩
  · exact (startsPass_iff h hsucc).1 (hnotices c₁ failures c₂ hsucc hrestart)
  · exact (startsPass_iff h hsucc).2 (hshow c₁ failures c₂ hsucc hrestart)
  · exact (startsPass_iff h hsucc).2
      (Or.inr ((hlong c₁ failures c₂ hsucc).uptimeDrops hrestart))

/-! ## Two pings -/

/-- A node that is up can be reached. -/
theorem exists_check {starts : List Time} {t : Time} {u : UInt32} (hup : uptimeAt starts t = some u)
    (a : NodeActor) (w : World) : ∃ c w', c.time = t ∧ c.Success a.node.id ∧
      Checks starts (a, w) c (a.answered u, w') := by
  -- what the node reports is up to its surroundings
  let up : World := { w with uptime := fun _ => u }
  let after := (probeAnswered a u t).prog.run exec up
  obtain ⟨tr, hrest⟩ : ∃ tr, Runs MayFail (fun _ _ => True) (probeAnswered a u t).prog up tr
      after.1 after.2 := Runs.of_run mayFail_exec (fun _ => trivial) _ _
  rw [(probeAnswered_inv (fun _ => trivial) hrest).1] at hrest
  let trace : Trace := ⟨.dial a.node.id, .ok ()⟩ :: ⟨.ping a.node.id, .ok u⟩ :: tr
  have hrun : Runs MayFail (fun _ _ => True) (checkHealth a t).prog w trace
      (.ok (a.answered u)) after.2 :=
    Runs.call trivial (mayFail_exec (.dial a.node.id) w)
      (Runs.call trivial (mayFail_exec (.ping a.node.id) up) hrest)
  have hu : Answered a.node.id trace u := List.mem_cons_of_mem _ List.mem_cons_self
  refine ⟨⟨t, trace⟩, after.2, rfl, ⟨u, hu⟩, hrun, fun v hv => ?_⟩
  obtain ⟨-, hno⟩ | ⟨u', -, huniq, -⟩ := checkHealth_actor (fun _ => trivial) hrun
  · exact (hno u hu).elim
  · rw [(huniq v).1 hv, ← (huniq u).1 hu]
    exact hup

/-- A run of two pings, both answered. -/
theorem exists_two_checks {starts : List Time} {t₁ t₂ : Time} {u₁ u₂ : UInt32}
    (h₁ : uptimeAt starts t₁ = some u₁) (h₂ : uptimeAt starts t₂ = some u₂) (a : NodeActor)
    (w : World) : ∃ c₁ c₂ s, c₁.time = t₁ ∧ c₂.time = t₂ ∧ Path (Checks starts) (a, w) [c₁, c₂] s ∧
      Successive a.node.id [c₁, c₂] c₁ [] c₂ := by
  obtain ⟨c₁, w₁, htime₁, hsuccess₁, hstep₁⟩ := exists_check h₁ a w
  obtain ⟨c₂, w₂, htime₂, hsuccess₂, hstep₂⟩ := exists_check h₂ (a.answered u₁) w₁
  exact ⟨c₁, c₂, _, htime₁, htime₂, Path.cons hstep₁ (Path.single hstep₂), ⟨[], [], rfl⟩, hsuccess₁,
    fun c hc => absurd hc List.not_mem_nil, hsuccess₂⟩

/-- A run of two checks has one pair of successive successes at most. -/
theorem Successive.eq_of_two {n : ID} {c₁ c₂ d₁ d₂ : Check} {failures : List Check}
    (h : Successive n [c₁, c₂] d₁ failures d₂) : d₁ = c₁ ∧ failures = [] ∧ d₂ = c₂ := by
  obtain ⟨earlier, later, heq⟩ := h.split
  have hlen := congrArg List.length heq
  simp only [List.length_cons, List.length_append, List.length_nil] at hlen
  obtain rfl := List.length_eq_zero_iff.1 (show earlier.length = 0 by omega)
  obtain rfl := List.length_eq_zero_iff.1 (show failures.length = 0 by omega)
  cases heq
  exact ⟨rfl, rfl, rfl⟩

/-- A node that was up for 35 seconds and restarted a second later is reconciled at the next ping.
-/
theorem notices_restarts_iff_late :
    ∃ c₁ c₂ s, c₁.time = 35 * second ∧ c₂.time = 65 * second ∧
      Path (Checks [0, 36 * second]) (newNodeActor (storedAs .online), loneWorld (storedAs .online))
        [c₁, c₂] s ∧
      NoticesRestarts "n1" [0, 36 * second] [c₁, c₂] := by
  have h₁ : uptimeAt [0, 36 * second] (35 * second) = some 35 := by decide
  have h₂ : uptimeAt [0, 36 * second] (65 * second) = some 29 := by decide
  obtain ⟨c₁, c₂, s, htime₁, htime₂, hrun, -⟩ :=
    exists_two_checks h₁ h₂ (newNodeActor (storedAs .online)) (loneWorld (storedAs .online))
  refine ⟨c₁, c₂, s, htime₁, htime₂, hrun, (notices_restarts_iff hrun).1.2 ?_⟩
  intro d₁ failures d₂ hsucc hrestart
  obtain ⟨rfl, rfl, rfl⟩ := hsucc.eq_of_two
  rw [htime₁, htime₂]
  exact Or.inr ⟨35, 29, h₁, h₂, by decide⟩

/-- A node that was up for 5 seconds and restarted a second later is not reconciled at the next
ping: by then it has been up for 29 seconds. -/
theorem early_restart_unnoticed :
    ∃ c₁ c₂ s, c₁.time = 5 * second ∧ c₂.time = 35 * second ∧
      Path (Checks [0, 6 * second]) (newNodeActor (storedAs .online), loneWorld (storedAs .online))
        [c₁, c₂] s ∧
      Successive "n1" [c₁, c₂] c₁ [] c₂ ∧
      RestartsBetween [0, 6 * second] c₁.time c₂.time ∧
      ¬ StartsPass "n1" c₂.trace ∧ ¬ NoticesRestarts "n1" [0, 6 * second] [c₁, c₂] := by
  have h₁ : uptimeAt [0, 6 * second] (5 * second) = some 5 := by decide
  have h₂ : uptimeAt [0, 6 * second] (35 * second) = some 29 := by decide
  obtain ⟨c₁, c₂, s, htime₁, htime₂, hrun, hsucc⟩ :=
    exists_two_checks h₁ h₂ (newNodeActor (storedAs .online)) (loneWorld (storedAs .online))
  have hrestart : RestartsBetween [0, 6 * second] c₁.time c₂.time := by
    rw [htime₁, htime₂]
    exact ⟨6 * second, by simp, by decide, by decide⟩
  have hquiet : ¬ StartsPass "n1" c₂.trace := by
    intro hpass
    obtain hmany | ⟨v₁, v₂, hv₁, hv₂, hlt⟩ := (startsPass_iff hrun hsucc).1 hpass
    · exact absurd hmany (by decide)
    · rw [htime₁, h₁] at hv₁
      rw [htime₂, h₂] at hv₂
      cases hv₁
      cases hv₂
      exact absurd hlt (by decide)
  exact ⟨c₁, c₂, s, htime₁, htime₂, hrun, hsucc, hrestart, hquiet, fun hnotices =>
    hquiet (hnotices c₁ [] c₂ hsucc hrestart)⟩

end XrayApi.Worker
