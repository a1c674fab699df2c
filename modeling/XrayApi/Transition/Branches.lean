import XrayApi.Transition.Pool

/-!
# What a program is bound to do

`Prog.Comes good stop post` looks at the branches of a program on which every answer is `good`: each
of them comes to a statement with `stop`, or returns a value with `post`. With `post` false the
program is bound to issue such a statement, whatever other threads do; with `stop` false it is bound
to return a value with `post`.

`Prog.Within good fine post` looks at the same branches and says that all their statements are
`fine`. It carries an invariant of the world through a pool: statements that are `fine` keep it, and
while it holds all answers are `good` (`Pool.within_invariant`).
-/

set_option autoImplicit false

namespace XrayApi.Transition

variable {ι : Type} {S : Type} {R : S → Type} {W α β : Type}

/-- Every branch with `good` answers comes to a statement with `stop`, or returns with `post`. -/
def Prog.Comes (good : (s : S) → R s → Prop) (stop : S → Prop) (post : α → Prop) :
    Prog S R α → Prop
  | ret a => post a
  | call s k => stop s ∨ ∀ r, good s r → (k r).Comes good stop post

variable {good : (s : S) → R s → Prop} {stop : S → Prop}

theorem Prog.Comes.bind {post : β → Prop} {p : Prog S R α} {f : α → Prog S R β}
    (h : p.Comes good stop fun a => (f a).Comes good stop post) :
    (p.bind f).Comes good stop post := by
  induction p with
  | ret a => exact h
  | call s k ih => exact h.imp_right fun hk r hr => ih r (hk r hr)

theorem Prog.Comes.mono {post post' : α → Prop} (hpost : ∀ a, post a → post' a) {p : Prog S R α}
    (h : p.Comes good stop post) : p.Comes good stop post' := by
  induction p with
  | ret a => exact hpost a h
  | call s k ih => exact h.imp_right fun hk r hr => ih r (hk r hr)

/-! ## Statements that keep an invariant -/

/-- On every branch with `good` answers all statements are `fine`, and a return has `post`. -/
def Prog.Within (good : (s : S) → R s → Prop) (fine : S → Prop) (post : α → Prop) :
    Prog S R α → Prop
  | ret a => post a
  | call s k => fine s ∧ ∀ r, good s r → (k r).Within good fine post

variable {fine : S → Prop}

theorem Prog.Within.bind {post : β → Prop} {p : Prog S R α} {f : α → Prog S R β}
    (h : p.Within good fine fun a => (f a).Within good fine post) :
    (p.bind f).Within good fine post := by
  induction p with
  | ret a => exact h
  | call s k ih => exact ⟨h.1, fun r hr => ih r (h.2 r hr)⟩

theorem Prog.Within.mono {post post' : α → Prop} (hpost : ∀ a, post a → post' a) {p : Prog S R α}
    (h : p.Within good fine post) : p.Within good fine post' := by
  induction p with
  | ret a => exact hpost a h
  | call s k ih => exact ⟨h.1, fun r hr => ih r (h.2 r hr)⟩

/-- The same for a request: a value it returns has `post`, an error ends it. -/
def Req.Within {E : Type} (good : (s : S) → R s → Prop) (fine : S → Prop) (post : α → Prop)
    (p : Req S R E α) : Prop :=
  Prog.Within good fine (fun r => ∀ a, r = .ok a → post a) p

theorem Req.Within.bind {E : Type} {post : β → Prop} {p : Req S R E α} {f : α → Req S R E β}
    (h : p.Within good fine fun a => (f a).Within good fine post) :
    (p >>= f).Within good fine post := by
  refine Prog.Within.bind (Prog.Within.mono (fun r hr => ?_) h)
  cases r with
  | ok a => exact hr a rfl
  | error e => exact nofun

theorem Req.Within.mono {E : Type} {post post' : α → Prop} (hpost : ∀ a, post a → post' a)
    {p : Req S R E α} (h : p.Within good fine post) : p.Within good fine post' :=
  Prog.Within.mono (fun _ hr a ha => hpost a (hr a ha)) h

/-- Statements that are fine whatever the answers. -/
theorem Prog.Forall.within {post : α → Prop} (hpost : ∀ a, post a) {p : Prog S R α}
    (h : p.Forall fine) : p.Within good fine post := by
  induction p with
  | ret a => exact hpost a
  | call s k ih => exact ⟨h.1, fun r _ => ih r (h.2 r)⟩

/-- The invariant rule for a pool of programs that keep within `fine` statements. -/
theorem Pool.within_invariant [DecidableEq ι] {sem : Sem S R W} {spawn : ι → Prog S R α → Prop}
    {I : W → Prop} {post : α → Prop} (hgood : ∀ s w r w', I w → sem s w r w' → good s r)
    (hfine : ∀ s w r w', I w → fine s → sem s w r w' → I w')
    (hspawn : ∀ i p, spawn i p → p.Within good fine post) {P Q : Pool ι S R W α}
    {ls : List (Act ι S R α)} (h : Path (Pool.Step sem spawn) P ls Q) (hw : I P.world)
    (hP : ∀ i, (P.prog i).Within good fine post) :
    I Q.world ∧ ∀ i, (Q.prog i).Within good fine post := by
  refine h.invariant (I := fun P => I P.world ∧ ∀ i, (P.prog i).Within good fine post) ?_ ⟨hw, hP⟩
  rintro P a Q ⟨hw, hP⟩ hstep
  -- a thread that does not move keeps its program
  have hothers : ∀ i, (Q.prog i).Within good fine post → (∀ j, j ≠ i → Q.prog j = P.prog j) →
      ∀ j, (Q.prog j).Within good fine post := by
    intro i hi hother j
    by_cases hj : j = i
    · rw [hj]
      exact hi
    · rw [hother j hj]
      exact hP j
  cases a with
  | call i s r =>
      obtain ⟨k, hk, hsem, hi, hother⟩ := hstep.call_inv
      have hp := hP i
      rw [hk] at hp
      refine ⟨hfine s _ r _ hw hp.1 hsem, hothers i ?_ hother⟩
      rw [hi]
      exact hp.2 r (hgood s _ r _ hw hsem)
  | start i p =>
      obtain ⟨-, hp, hworld, hi, hother⟩ := hstep.start_inv
      refine ⟨by rw [hworld]; exact hw, hothers i ?_ hother⟩
      rw [hi]
      exact hspawn i p hp

end XrayApi.Transition
