import XrayApi.Http.Footprint

/-!
# The rate limit of the running server

Each public request asks the limiter before anything else. The questions of a run and their answers
(`asks`) are those of one limiter, whatever the threads do in between (`outputs_asks`), and the
limiter answers each address as a token bucket of its own would (`outputs_asksOf`).

So in any period no address gets more than its allowance (`granted_le`), and an address that keeps
to the rate is never refused, however many requests the others make (`paced_granted`).
-/

set_option autoImplicit false

namespace XrayApi.HttpApi

open Transition

/-- The question to the limiter that a step is, with its answer. -/
def asked : SiteAct → Option ((String × ℚ) × Bool)
  | .call _ (.allow ip now) ok => some ((ip, now), ok)
  | _ => none

/-- The questions of a run. -/
def asks (ls : List SiteAct) : List ((String × ℚ) × Bool) := ls.filterMap asked

/-- The times at which an address has asked, with the answers. -/
def asksOf (ip : String) (ls : List SiteAct) : List (ℚ × Bool) := ofKey ip (asks ls)

/-- The clock that the limiter reads does not go back. -/
def Clocked (ls : List SiteAct) : Prop := ((asks ls).map fun io => io.1.2).Pairwise (· ≤ ·)

section Runs

variable {s : Server} {P Q : Serving} {ls : List SiteAct} {l : IpLimiter}

theorem asks_snoc (ls : List SiteAct) (a : SiteAct) :
    asks (ls ++ [a]) = asks ls ++ (asked a).toList := by
  simp only [asks, List.filterMap_eq_flatMap_toList, List.flatMap_append, List.flatMap_singleton]

/-- A step asks the limiter or leaves it alone. -/
theorem limiter_of_step {a : SiteAct} (h : s.Step P a Q) (hl : P.world.limiter = some l) :
    (asked a = none ∧ Q.world.limiter = some l) ∨
      ∃ req, asked a = some (req, (l.allow req).2) ∧ Q.world.limiter = some (l.allow req).1 := by
  cases a with
  | start i p =>
      refine Or.inl ⟨rfl, ?_⟩
      rw [h.start_inv.2.2.1]
      exact hl
  | call i st r =>
      obtain ⟨-, -, hsem, -⟩ := h.call_inv
      cases st with
      | allow ip now =>
          refine Or.inr ⟨(ip, now), ?_⟩
          have hexec : siteExec (.allow ip now) P.world = (r, Q.world) := hsem
          rw [siteExec, hl] at hexec
          obtain ⟨hr, hQ⟩ := Prod.mk.inj hexec
          rw [← hr, ← hQ]
          exact ⟨rfl, rfl⟩
      | core st =>
          obtain ⟨w', created, -, -, hQ⟩ := hsem
          exact Or.inl ⟨rfl, by rw [hQ]; exact hl⟩
      | admin q =>
          obtain ⟨-, hQ⟩ | ⟨text, -, hQ⟩ := hsem
          · exact Or.inl ⟨rfl, by rw [hQ]; exact hl⟩
          · exact Or.inl ⟨rfl, by rw [hQ]; exact hl⟩

/-- The answers of a run are those of the limiter to its questions. -/
theorem outputs_asks (h : Path s.Step P ls Q) (hl : P.world.limiter = some l) :
    outputs IpLimiter.allow l ((asks ls).map Prod.fst) = (asks ls).map Prod.snd ∧
      Q.world.limiter = some (after IpLimiter.allow l ((asks ls).map Prod.fst)) := by
  induction h with
  | nil => exact ⟨rfl, hl⟩
  | @snoc M M' ls a _ hstep ih =>
      obtain ⟨hanswers, hlimiter⟩ := ih
      rw [asks_snoc, List.map_append, List.map_append, outputs_append, hanswers]
      obtain ⟨hnone, hkept⟩ | ⟨req, hsome, hnext⟩ := limiter_of_step hstep hlimiter
      · rw [hnone]
        simp only [Option.toList_none, List.map_nil, List.append_nil]
        exact ⟨by rw [outputs, List.append_nil], hkept⟩
      · rw [hsome]
        refine ⟨rfl, hnext.trans ?_⟩
        unfold after
        rw [List.foldl_append]
        rfl

/-- An address gets the answers of a token bucket of its own. -/
theorem outputs_asksOf (h : Path s.Step P ls Q) {perMinute : ℤ}
    (hl : newIPLimiter perMinute = some l) (hP : P.world.limiter = some l) (hclock : Clocked ls)
    (ip : String) :
    outputs (TokenBucket.allow (perMinute / 60 : ℚ) perMinute) (.full (perMinute : ℚ))
      ((asksOf ip ls).map Prod.fst) = (asksOf ip ls).map Prod.snd := by
  have hsorted : (((asks ls).map Prod.fst).map Prod.snd).Pairwise (· ≤ ·) := by
    rw [List.map_map]
    exact hclock
  have hspec := IpLimiter.outputs_eq_spec hl IpLimiter.harmless_pruneIfMany hsorted
  have hanswers := (outputs_asks h hP).1
  unfold IpLimiter.allow at hanswers
  rw [hspec] at hanswers
  exact outputs_ofKey hanswers ip

theorem sorted_asksOf (hclock : Clocked ls) (ip : String) :
    ((asksOf ip ls).map Prod.fst).Pairwise (· ≤ ·) := by
  unfold asksOf ofKey
  rw [List.map_map]
  exact hclock.sublist (List.filter_sublist.map _)

/-- A server without users that lets an address pass once a minute. -/
def throttled : Site := { oneKey with limiter := newIPLimiter 1 }

def visit (ip : String) (arrival : ℚ) : Request :=
  { revoking "" with
    route := .limited (.subscription "t1" "" "")
    ip := ip
    arrival := arrival }

/-- One address is in a hurry, the other is not. -/
def crowd : List (Pool.Move SiteThread SiteStmt SiteStmt.Res (Option Response)) :=
  [.start (.http 0) (plainServer.serve (visit "1.1.1.1" 0)), .fire (.http 0),
    .start (.http 1) (plainServer.serve (visit "1.1.1.1" 0)), .fire (.http 1),
    .start (.http 2) (plainServer.serve (visit "2.2.2.2" 1)), .fire (.http 2),
    .start (.http 3) (plainServer.serve (visit "1.1.1.1" 60)), .fire (.http 3),
    .start (.http 4) (plainServer.serve (visit "2.2.2.2" 61)), .fire (.http 4)]

theorem crowd_path : Path plainServer.Step (Serving.idle throttled)
    (Pool.play siteExec crowd (Serving.idle throttled)).1
    (Pool.play siteExec crowd (Serving.idle throttled)).2 := by
  refine Pool.play_path_of_exec siteMay_exec (fun i p h => ?_) (Serving.idle throttled)
  simp only [crowd, List.mem_cons, List.not_mem_nil, or_false, reduceCtorEq, false_or,
    Pool.Move.start.injEq] at h
  obtain ⟨rfl, rfl⟩ | ⟨rfl, rfl⟩ | ⟨rfl, rfl⟩ | ⟨rfl, rfl⟩ | ⟨rfl, rfl⟩ := h
  all_goals exact ⟨_, rfl⟩

theorem asks_crowd : asks (Pool.play siteExec crowd (Serving.idle throttled)).1 =
    [(("1.1.1.1", 0), true), (("1.1.1.1", 0), false), (("2.2.2.2", 1), true),
      (("1.1.1.1", 60), true), (("2.2.2.2", 61), true)] := by
  decide +kernel

theorem clocked_crowd : Clocked (Pool.play siteExec crowd (Serving.idle throttled)).1 := by
  unfold Clocked
  rw [asks_crowd]
  decide +kernel

/-- In any period, the public endpoints let an address pass no more often than its allowance for a
minute and what it gains in the period, whatever the addresses send and the server does. -/
theorem granted_le (s : Server) (σ : Site) (h : Path s.Step (Serving.idle σ) ls Q) (perMinute : ℤ)
    (hpos : 0 < perMinute) (hσ : σ.limiter = newIPLimiter perMinute) (hclock : Clocked ls)
    (ip : String) (t t' : ℚ) (ht : t ≤ t') :
    ((asksOf ip ls).countP (fun io => io.2 && decide (t ≤ io.1 ∧ io.1 ≤ t')) : ℚ) ≤
      perMinute + perMinute / 60 * (t' - t) := by
  obtain ⟨l, hl⟩ : ∃ l, newIPLimiter perMinute = some l := ⟨_, if_neg (not_le.2 hpos)⟩
  have hburst : (0 : ℚ) ≤ perMinute := by exact_mod_cast hpos.le
  have hrate : (0 : ℚ) ≤ perMinute / 60 := div_nonneg hburst (by norm_num)
  exact TokenBucket.countP_granted_period_le hrate hburst hburst
    (outputs_asksOf h hl (hσ.trans hl) hclock ip) (sorted_asksOf hclock ip) ht

/-- The bound is reached. -/
theorem granted_le_crowd : (asksOf "1.1.1.1" (Pool.play siteExec crowd (Serving.idle throttled)).1
      ).countP (fun io => io.2 && decide (0 ≤ io.1 ∧ io.1 ≤ 60)) = 2 ∧
    ((2 : ℕ) : ℚ) ≤ 1 + 1 / 60 * (60 - 0) := by
  have hcount : (asksOf "1.1.1.1" (Pool.play siteExec crowd (Serving.idle throttled)).1
      ).countP (fun io => io.2 && decide (0 ≤ io.1 ∧ io.1 ≤ 60)) = 2 := by
    unfold asksOf
    rw [asks_crowd]
    decide +kernel
  have hle := granted_le plainServer throttled crowd_path 1 (by decide) rfl clocked_crowd "1.1.1.1"
    0 60 (by norm_num)
  rw [hcount] at hle
  exact ⟨hcount, by simpa using hle⟩

/-- An address whose requests are as far apart as the rate demands is never refused, whatever the
other addresses send. -/
theorem paced_granted (s : Server) (σ : Site) (h : Path s.Step (Serving.idle σ) ls Q)
    (perMinute : ℤ) (hpos : 0 < perMinute) (hσ : σ.limiter = newIPLimiter perMinute)
    (hclock : Clocked ls) {ip : String}
    (hpaced : ((asksOf ip ls).map Prod.fst).Pairwise fun t t' : ℚ => t + 60 / perMinute ≤ t') :
    ∀ io ∈ asksOf ip ls, io.2 = true := by
  obtain ⟨l, hl⟩ : ∃ l, newIPLimiter perMinute = some l := ⟨_, if_neg (not_le.2 hpos)⟩
  have hburst : (1 : ℚ) ≤ perMinute := by exact_mod_cast hpos
  have hrate : (0 : ℚ) < perMinute / 60 := by linarith
  refine TokenBucket.forall_granted_of_paced hrate hburst
    (outputs_asksOf h hl (hσ.trans hl) hclock ip) ?_ fun io _ => ?_
  · rw [one_div_div]
    exact hpaced
  · rw [TokenBucket.fullFrom_full hrate.le io.1 le_rfl]
    exact hburst

/-- The address that is in no hurry is served. -/
theorem paced_granted_crowd :
    (asksOf "2.2.2.2" (Pool.play siteExec crowd (Serving.idle throttled)).1).map Prod.fst =
        [1, 61] ∧
      ∀ io ∈ asksOf "2.2.2.2" (Pool.play siteExec crowd (Serving.idle throttled)).1,
        io.2 = true := by
  have htimes : (asksOf "2.2.2.2" (Pool.play siteExec crowd (Serving.idle throttled)).1).map
      Prod.fst = [1, 61] := by
    unfold asksOf
    rw [asks_crowd]
    decide +kernel
  refine ⟨htimes, paced_granted plainServer throttled crowd_path 1 (by decide) rfl clocked_crowd ?_⟩
  rw [htimes]
  decide +kernel

end Runs

end XrayApi.HttpApi
