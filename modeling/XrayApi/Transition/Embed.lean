import XrayApi.Transition.Branches

/-!
# Programs over a larger set of statements

A program over some statements is a program over any larger set of them: `Prog.embed` renames the
statements along `f` and reads their answers back along `g`. What holds of every statement, or of
every branch, of the one holds of the other.
-/

set_option autoImplicit false

namespace XrayApi.Transition

variable {S S' : Type} {R : S → Type} {R' : S' → Type} {α β : Type}

/-- The program with every statement renamed. -/
def Prog.embed (f : S → S') (g : (s : S) → R' (f s) → R s) : Prog S R α → Prog S' R' α
  | .ret a => .ret a
  | .call s k => .call (f s) fun r => Prog.embed f g (k (g s r))

variable {f : S → S'} {g : (s : S) → R' (f s) → R s}

theorem Prog.Forall.embed {P : S → Prop} {P' : S' → Prop} (hP : ∀ s, P s → P' (f s))
    {p : Prog S R α} (hp : p.Forall P) : (p.embed f g).Forall P' := by
  induction p with
  | ret a => trivial
  | call s k ih => exact ⟨hP s hp.1, fun r => ih _ (hp.2 _)⟩

end XrayApi.Transition
