import XrayApi.Transition.Embed

/-!
# Postconditions of programs that run alone

`p.Ensures sem post w` says that the program, started in the world `w` and left alone, can only
return a value and leave a world with `post`, whichever of the answers that `sem` allows it gets.
The rules follow the program: a statement, a sequence, a request that may end with an error, a
program over a larger set of statements.
-/

set_option autoImplicit false

namespace XrayApi.Transition

variable {S S' : Type} {R : S → Type} {R' : S' → Type} {W W' α β E : Type}

/-- Whatever the answers are, the program returns with `post`. -/
def Prog.Ensures (sem : Sem S R W) (post : α → W → Prop) : Prog S R α → W → Prop
  | ret a, w => post a w
  | call s k, w => ∀ r w', sem s w r w' → (k r).Ensures sem post w'

variable {sem : Sem S R W} {post : α → W → Prop} {p : Prog S R α} {w w' : W}

namespace Prog.Ensures

theorem of_runs {tr : List (Event S R)} {a : α} (h : p.Ensures sem post w)
    (hrun : Runs sem Eq p w tr a w') : post a w' := by
  induction hrun with
  | ret hw =>
      subst hw
      exact h
  | call hw hsem _ ih =>
      subst hw
      exact ih (h _ _ hsem)

theorem mono {post' : α → W → Prop} (h : p.Ensures sem post w)
    (hpost : ∀ a w', post a w' → post' a w') : p.Ensures sem post' w := by
  induction p generalizing w with
  | ret a => exact hpost a w h
  | call s k ih => exact fun r w' hsem => ih r (h r w' hsem)

theorem bind {post : β → W → Prop} {f : α → Prog S R β}
    (h : p.Ensures sem (fun a w' => (f a).Ensures sem post w') w) :
    (p.bind f).Ensures sem post w := by
  induction p generalizing w with
  | ret a => exact h
  | call s k ih => exact fun r w' hsem => ih r (h r w' hsem)

theorem and {post' : α → W → Prop} (h : p.Ensures sem post w) (h' : p.Ensures sem post' w) :
    p.Ensures sem (fun a w' => post a w' ∧ post' a w') w := by
  induction p generalizing w with
  | ret a => exact ⟨h, h'⟩
  | call s k ih => exact fun r w' hsem => ih r (h r w' hsem) (h' r w' hsem)

end Prog.Ensures

theorem Prog.Yields.ensures {Q : α → Prop} (hp : p.Yields Q) (w : W) :
    p.Ensures sem (fun a _ => Q a) w := by
  induction p generalizing w with
  | ret a => exact hp
  | call s k ih => exact fun r w' _ => ih r (hp r) w'

/-- What no statement of the program changes is as it was. -/
theorem Prog.Forall.ensures {quiet : S → Prop} {I : W → Prop} (hp : p.Forall quiet)
    (hquiet : ∀ s w r w', quiet s → sem s w r w' → I w → I w') (hw : I w) :
    p.Ensures sem (fun _ w' => I w') w := by
  induction p generalizing w with
  | ret a => exact hw
  | call s k ih => exact fun r w' hsem => ih r (hp.2 r) (hquiet s w r w' hp.1 hsem hw)

/-- A request goes on with the value of its first part, or ends with its error. -/
theorem Req.ensures_bind {post : Except E β → W → Prop} {p : Req S R E α} {f : α → Req S R E β}
    (h : Prog.Ensures sem (fun r w' =>
      (∀ a, r = .ok a → Prog.Ensures sem post (f a) w') ∧ ∀ e, r = .error e → post (.error e) w')
      p w) :
    Prog.Ensures sem post (p >>= f : Req S R E β) w := by
  refine Prog.Ensures.bind (h.mono fun r w' hr => ?_)
  cases r with
  | ok a => exact hr.1 a rfl
  | error e => exact hr.2 e rfl

/-- A program that is embedded does on the part `view` of a larger world what it does alone. The
rest of that world stays within `rest`. -/
theorem Prog.Ensures.embed {f : S → S'} {g : (s : S) → R' (f s) → R s} {sem' : Sem S' R' W'}
    (view : W' → W) (rest : W' → W' → Prop) (hrefl : ∀ v, rest v v)
    (htrans : ∀ u v v', rest u v → rest v v' → rest u v')
    (hsem : ∀ s v r v', sem' (f s) v r v' → sem s (view v) (g s r) (view v') ∧ rest v v')
    {v : W'} (h : p.Ensures sem post (view v)) :
    (p.embed f g).Ensures sem' (fun a v' => post a (view v') ∧ rest v v') v := by
  induction p generalizing v with
  | ret a => exact ⟨h, hrefl v⟩
  | call s k ih =>
      intro r v' hstep
      obtain ⟨hview, hrest⟩ := hsem s v r v' hstep
      refine (ih _ (h _ _ hview)).mono fun a v'' hpost => ⟨hpost.1, htrans _ _ _ hrest hpost.2⟩

end XrayApi.Transition
