import XrayApi.Transition.Pool

/-!
# Control points in place of programs

When every program of a pool is the code of some control point, a step of the pool is a step of the
control points. `Track` keeps the world and one control point per thread; `Pool.Shows.step` says
that it follows the pool, so that an invariant of the pool can be proved by cases on the steps of
the control points.
-/

set_option autoImplicit false

namespace XrayApi.Transition

variable {ι : Type} {S : Type} {R : S → Type} {W α Ctl : Type}

/-- A world and one control point per thread. -/
structure Track (ι Ctl W : Type) where
  world : W
  ctl : ι → Ctl

/-- A step of the control points: a thread moves as `step` says, or a thread that has returned
stands at a point where it may `enter`. -/
def Track.Step (code : Ctl → Prog S R α) (step : Ctl → (s : S) → R s → Ctl → Prop)
    (sem : Sem S R W) (enter : Ctl → Prop) (T : Track ι Ctl W) :
    Act ι S R α → Track ι Ctl W → Prop
  | .call i s r, U => step (T.ctl i) s r (U.ctl i) ∧ sem s T.world r U.world ∧
      ∀ j, j ≠ i → U.ctl j = T.ctl j
  | .start i p, U => (∃ a, code (T.ctl i) = .ret a) ∧ enter (U.ctl i) ∧ p = code (U.ctl i) ∧
      U.world = T.world ∧ ∀ j, j ≠ i → U.ctl j = T.ctl j

/-- The programs of the pool are the codes of the control points. -/
structure Pool.Shows (code : Ctl → Prog S R α) (P : Pool ι S R W α) (T : Track ι Ctl W) : Prop where
  world : P.world = T.world
  prog : ∀ i, P.prog i = code (T.ctl i)

/-- The control points follow the pool. -/
theorem Pool.Shows.step [DecidableEq ι] {code : Ctl → Prog S R α}
    {step : Ctl → (s : S) → R s → Ctl → Prop} {sem : Sem S R W} {spawn : ι → Prog S R α → Prop}
    {enter : Ctl → Prop}
    (hcode : ∀ c s k, code c = .call s k → ∀ r, ∃ c', step c s r c' ∧ k r = code c')
    (henter : ∀ i p, spawn i p → ∃ c, enter c ∧ p = code c) {P Q : Pool ι S R W α}
    {T : Track ι Ctl W} {a : Act ι S R α} (hPT : P.Shows code T) (h : Pool.Step sem spawn P a Q) :
    ∃ U, Track.Step code step sem enter T a U ∧ Q.Shows code U := by
  -- the thread that moves stands at `c`, the others where they were
  have hshows : ∀ i c, Q.prog i = code c → (∀ j, j ≠ i → Q.prog j = P.prog j) →
      Q.Shows code ⟨Q.world, Function.update T.ctl i c⟩ := by
    intro i c hi hother
    refine ⟨rfl, fun j => ?_⟩
    by_cases hj : j = i
    · subst hj
      simp only [Function.update_self]
      exact hi
    · simp only [Function.update_of_ne hj, hother j hj]
      exact hPT.prog j
  cases a with
  | call i s r =>
      obtain ⟨k, hk, hsem, hi, hother⟩ := h.call_inv
      rw [hPT.prog i] at hk
      obtain ⟨c, hc, hkc⟩ := hcode _ s k hk r
      refine ⟨_, ⟨?_, ?_, fun j hj => ?_⟩, hshows i c (hi.trans hkc) hother⟩
      · simp only [Function.update_self]
        exact hc
      · rw [← hPT.world]
        exact hsem
      · exact Function.update_of_ne hj _ _
  | start i p =>
      obtain ⟨⟨b, hb⟩, hp, hw, hi, hother⟩ := h.start_inv
      rw [hPT.prog i] at hb
      obtain ⟨c, hc, hpc⟩ := henter i p hp
      refine ⟨_, ⟨⟨b, hb⟩, ?_, ?_, ?_, fun j hj => ?_⟩, hshows i c (hi.trans hpc) hother⟩
      · simp only [Function.update_self]
        exact hc
      · simp only [Function.update_self]
        exact hpc
      · rw [← hPT.world]
        exact hw
      · exact Function.update_of_ne hj _ _

end XrayApi.Transition
