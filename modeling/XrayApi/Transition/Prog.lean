import XrayApi.Transition.Path

/-!
# Programs as trees of statements

A program is a tree: it has returned a value, or it issues one statement `s` and goes on with the
answer, of type `R s`. A statement is the unit of atomicity, so one tree has several meanings: `run`
executes it alone, `Runs` executes it while an environment may change the world between two
statements, and `Pool` (next file) interleaves several trees. `Faulty` turns an executor into one
that fails chosen statements, without changing the tree.

`Req` is the monad of programs that return a value or an error, the error ending the program.
-/

set_option autoImplicit false

namespace XrayApi.Transition

/-- A program over statements `S` whose answers have types `R`. -/
inductive Prog (S : Type) (R : S → Type) (α : Type) : Type
  | ret (a : α) : Prog S R α
  | call (s : S) (k : R s → Prog S R α) : Prog S R α

namespace Prog

variable {S : Type} {R : S → Type} {W α β γ : Type}

/-- Sequencing: the second program replaces the returns of the first. -/
def bind : Prog S R α → (α → Prog S R β) → Prog S R β
  | ret a, f => f a
  | call s k, f => call s fun r => (k r).bind f

theorem bind_assoc (p : Prog S R α) (f : α → Prog S R β) (g : β → Prog S R γ) :
    (p.bind f).bind g = p.bind fun a => (f a).bind g := by
  induction p with
  | ret a => rfl
  | call s k ih => simp only [bind, ih]

/-- The program run alone. -/
def run (exec : (s : S) → W → R s × W) : Prog S R α → W → α × W
  | ret a, w => (a, w)
  | call s k, w => (k (exec s w).1).run exec (exec s w).2

@[simp] theorem run_ret (exec : (s : S) → W → R s × W) (a : α) (w : W) :
    run exec (.ret a : Prog S R α) w = (a, w) := rfl

@[simp] theorem run_call (exec : (s : S) → W → R s × W) (s : S) (k : R s → Prog S R α) (w : W) :
    run exec (.call s k) w = (k (exec s w).1).run exec (exec s w).2 := rfl

theorem run_bind (exec : (s : S) → W → R s × W) (p : Prog S R α) (f : α → Prog S R β) (w : W) :
    run exec (p.bind f) w = run exec (f (run exec p w).1) (run exec p w).2 := by
  induction p generalizing w with
  | ret a => rfl
  | call s k ih => exact ih _ _

/-- Every statement of the tree, on every branch, satisfies `P`. -/
def Forall (P : S → Prop) : Prog S R α → Prop
  | ret _ => True
  | call s k => P s ∧ ∀ r, (k r).Forall P

theorem Forall.bind {P : S → Prop} {p : Prog S R α} {f : α → Prog S R β} (hp : p.Forall P)
    (hf : ∀ a, (f a).Forall P) : (p.bind f).Forall P := by
  induction p with
  | ret a => exact hf a
  | call s k ih => exact ⟨hp.1, fun r => ih r (hp.2 r)⟩

theorem Forall.mono {P Q : S → Prop} (h : ∀ s, P s → Q s) {p : Prog S R α} (hp : p.Forall P) :
    p.Forall Q := by
  induction p with
  | ret a => trivial
  | call s k ih => exact ⟨h s hp.1, fun r => ih r (hp.2 r)⟩

/-- Every value the tree may return satisfies `Q`. -/
def Yields (Q : α → Prop) : Prog S R α → Prop
  | ret a => Q a
  | call _ k => ∀ r, (k r).Yields Q

theorem Yields.bind {Q : β → Prop} (p : Prog S R α) {f : α → Prog S R β}
    (hf : ∀ a, (f a).Yields Q) : (p.bind f).Yields Q := by
  induction p with
  | ret a => exact hf a
  | call s k ih => exact fun r => ih r

/-- The statements up to the first one that satisfies `mark`, which may look at the rest of the
program too, are all `quiet`; a return before that is `early`. -/
def Until (early : α → Prop) (quiet : S → Prop) (mark : (s : S) → (R s → Prog S R α) → Prop) :
    Prog S R α → Prop
  | ret a => early a
  | call s k => mark s k ∨ (quiet s ∧ ∀ r, (k r).Until early quiet mark)

theorem Forall.until_of_quiet {early : α → Prop} {quiet : S → Prop}
    {mark : (s : S) → (R s → Prog S R α) → Prop} {p : Prog S R α} (hearly : ∀ a, early a)
    (hp : p.Forall quiet) : p.Until early quiet mark := by
  induction p with
  | ret a => exact hearly a
  | call s k ih => exact Or.inr ⟨hp.1, fun r => ih r (hp.2 r)⟩

theorem Forall.until_bind {early : β → Prop} {quiet : S → Prop}
    {mark : (s : S) → (R s → Prog S R β) → Prop} {p : Prog S R α} {f : α → Prog S R β}
    (hp : p.Forall quiet) (hf : ∀ a, (f a).Until early quiet mark) :
    (p.bind f).Until early quiet mark := by
  induction p with
  | ret a => exact hf a
  | call s k ih => exact Or.inr ⟨hp.1, fun r => ih r (hp.2 r)⟩

/-- What every statement of a program keeps, the program run alone keeps. -/
theorem Forall.run_invariant {P : S → Prop} {I : W → Prop} {exec : (s : S) → W → R s × W}
    (hexec : ∀ s w, P s → I w → I (exec s w).2) {p : Prog S R α} (hp : p.Forall P) {w : W}
    (hw : I w) : I (run exec p w).2 := by
  induction p generalizing w with
  | ret a => exact hw
  | call s k ih => exact ih _ (hp.2 _) (hexec s w hp.1 hw)

end Prog

/-! ## Failing statements -/

/-- A world whose executor fails statements on demand: `faults` says of each statement to come
whether it fails, and `failed` lists the statements that failed so far. -/
structure Faulty (S W E : Type) where
  world : W
  faults : List (Option E)
  failed : List S

namespace Faulty

variable {S : Type} {R : S → Type} {W E : Type}

/-- The next statement fails with the error at the head of `faults`, if there is one and the
statement can fail at all, and leaves the world as it is; otherwise it is executed. -/
def exec (ex : (s : S) → W → R s × W) (fail : (s : S) → E → Option (R s)) (s : S)
    (w : Faulty S W E) : R s × Faulty S W E :=
  match w.faults with
  | [] => ((ex s w.world).1, ⟨(ex s w.world).2, [], w.failed⟩)
  | none :: fs => ((ex s w.world).1, ⟨(ex s w.world).2, fs, w.failed⟩)
  | some e :: fs =>
    match fail s e with
    | none => ((ex s w.world).1, ⟨(ex s w.world).2, fs, w.failed⟩)
    | some r => (r, ⟨w.world, fs, w.failed ++ [s]⟩)

/-- A statement is executed, or fails, leaving the world and being logged. -/
theorem exec_cases (ex : (s : S) → W → R s × W) (fail : (s : S) → E → Option (R s)) (s : S)
    (w : Faulty S W E) :
    (∃ fs, exec ex fail s w = ((ex s w.world).1, ⟨(ex s w.world).2, fs, w.failed⟩)) ∨
      ∃ e r fs, fail s e = some r ∧ exec ex fail s w = (r, ⟨w.world, fs, w.failed ++ [s]⟩) := by
  unfold exec
  split
  · exact Or.inl ⟨[], rfl⟩
  · next fs h => exact Or.inl ⟨fs, rfl⟩
  · next e fs h =>
      cases hf : fail s e with
      | none => exact Or.inl ⟨fs, rfl⟩
      | some r => exact Or.inr ⟨e, r, fs, hf, rfl⟩

end Faulty

/-! ## Runs with interference -/

/-- What a statement may do: `sem s w r w'` says that `s`, started in `w`, may answer `r` and leave
the world `w'`. -/
abbrev Sem (S : Type) (R : S → Type) (W : Type) : Type :=
  (s : S) → W → R s → W → Prop

/-- `sem`, or a failure of the statement that leaves the world as it is. -/
def Sem.orFail {S : Type} {R : S → Type} {W E : Type} (sem : Sem S R W)
    (fail : (s : S) → E → Option (R s)) : Sem S R W :=
  fun s w r w' => sem s w r w' ∨ (w' = w ∧ ∃ e, fail s e = some r)

/-- A statement with the answer it got. -/
structure Event (S : Type) (R : S → Type) where
  stmt : S
  answer : R stmt

/-- `Runs sem rely p w tr a w'`: started in `w`, the program may return `a` and leave `w'` after the
statements `tr`, when the environment may change the world as `rely` says before each statement and
before the return. -/
inductive Runs {S : Type} {R : S → Type} {W α : Type} (sem : Sem S R W) (rely : W → W → Prop) :
    Prog S R α → W → List (Event S R) → α → W → Prop
  | ret {a : α} {w w' : W} : rely w w' → Runs sem rely (.ret a) w [] a w'
  | call {s : S} {k : R s → Prog S R α} {w w₁ w₂ w' : W} {r : R s} {tr : List (Event S R)} {a : α} :
      rely w w₁ → sem s w₁ r w₂ → Runs sem rely (k r) w₂ tr a w' →
      Runs sem rely (.call s k) w (⟨s, r⟩ :: tr) a w'

namespace Runs

variable {S : Type} {R : S → Type} {W α β : Type} {sem : Sem S R W} {rely : W → W → Prop}

theorem ret_inv {a b : α} {w w' : W} {tr : List (Event S R)}
    (h : Runs sem rely (.ret a) w tr b w') : b = a ∧ tr = [] ∧ rely w w' := by
  cases h with
  | ret hrely => exact ⟨rfl, rfl, hrely⟩

theorem call_inv {s : S} {k : R s → Prog S R α} {w w' : W} {tr : List (Event S R)} {a : α}
    (h : Runs sem rely (.call s k) w tr a w') :
    ∃ w₁ r w₂ tr', rely w w₁ ∧ sem s w₁ r w₂ ∧ tr = ⟨s, r⟩ :: tr' ∧
      Runs sem rely (k r) w₂ tr' a w' := by
  cases h with
  | call hrely hsem hrest => exact ⟨_, _, _, _, hrely, hsem, rfl, hrest⟩

/-- A run of a sequence is a run of its first part followed by a run of its second. -/
theorem bind_inv (hrefl : ∀ w, rely w w) {p : Prog S R α} {f : α → Prog S R β} {w w' : W}
    {tr : List (Event S R)} {b : β} (h : Runs sem rely (p.bind f) w tr b w') :
    ∃ a w₁ tr₁ tr₂, Runs sem rely p w tr₁ a w₁ ∧ Runs sem rely (f a) w₁ tr₂ b w' ∧
      tr = tr₁ ++ tr₂ := by
  induction p generalizing w tr with
  | ret a => exact ⟨a, w, [], tr, Runs.ret (hrefl w), h, rfl⟩
  | call s k ih =>
      obtain ⟨w₁, r, w₂, tr', hrely, hsem, rfl, hrest⟩ := call_inv h
      obtain ⟨a, w₃, tr₁, tr₂, h₁, h₂, rfl⟩ := ih r hrest
      exact ⟨a, w₃, ⟨s, r⟩ :: tr₁, tr₂, Runs.call hrely hsem h₁, h₂, rfl⟩

/-- The program run alone is one of its runs. -/
theorem of_run {exec : (s : S) → W → R s × W}
    (hexec : ∀ s w, sem s w (exec s w).1 (exec s w).2) (hrefl : ∀ w, rely w w) (p : Prog S R α)
    (w : W) : ∃ tr, Runs sem rely p w tr (p.run exec w).1 (p.run exec w).2 := by
  induction p generalizing w with
  | ret a => exact ⟨[], Runs.ret (hrefl w)⟩
  | call s k ih =>
      obtain ⟨tr, htr⟩ := ih (exec s w).1 (exec s w).2
      exact ⟨⟨s, (exec s w).1⟩ :: tr, Runs.call (hrefl w) (hexec s w) htr⟩

/-- The invariant rule for a program with control points `c`, whose code is `code c` and which moves
as `step` says: what the environment keeps at every control point, and every step whose event
satisfies `G` keeps, holds at the return. -/
theorem invariant {Ctl : Type} {code : Ctl → Prog S R α}
    {step : Ctl → (s : S) → R s → Ctl → Prop}
    (hcode : ∀ c s k, code c = .call s k → ∀ r, ∃ c', step c s r c' ∧ k r = code c')
    {I : Ctl → W → Prop} {G : Event S R → Prop}
    (hrely : ∀ c w w', rely w w' → I c w → I c w')
    (hstep : ∀ c s r c' w w', step c s r c' → sem s w r w' → G ⟨s, r⟩ → I c w → I c' w')
    {c : Ctl} {w w' : W} {tr : List (Event S R)} {a : α} (h : Runs sem rely (code c) w tr a w')
    (hG : ∀ e ∈ tr, G e) (hI : I c w) : ∃ c', code c' = .ret a ∧ I c' w' := by
  generalize hp : code c = p at h
  induction h generalizing c with
  | ret hr => exact ⟨c, hp, hrely c _ _ hr hI⟩
  | call hr hsem _ ih =>
      obtain ⟨c', hc', hk⟩ := hcode c _ _ hp _
      have hmid := hrely c _ _ hr hI
      exact ih (fun e he => hG e (List.mem_cons_of_mem _ he))
        (hstep c _ _ c' _ _ hc' hsem (hG _ List.mem_cons_self) hmid) hk.symm

/-- Every statement of a run satisfies `E`, if those that may be taken where the invariant holds
do. -/
theorem events {Ctl : Type} {code : Ctl → Prog S R α} {step : Ctl → (s : S) → R s → Ctl → Prop}
    (hcode : ∀ c s k, code c = .call s k → ∀ r, ∃ c', step c s r c' ∧ k r = code c')
    {I : Ctl → W → Prop} {E : Event S R → Prop} (hrely : ∀ c w w', rely w w' → I c w → I c w')
    (hstep : ∀ c s r c' w w', step c s r c' → sem s w r w' → I c w → E ⟨s, r⟩ ∧ I c' w')
    {c : Ctl} {w w' : W} {tr : List (Event S R)} {a : α} (h : Runs sem rely (code c) w tr a w')
    (hI : I c w) : ∀ e ∈ tr, E e := by
  generalize hp : code c = p at h
  induction h generalizing c with
  | ret hr => exact fun e he => (List.not_mem_nil he).elim
  | call hr hsem _ ih =>
      obtain ⟨c', hc', hk⟩ := hcode c _ _ hp _
      obtain ⟨hE, hI'⟩ := hstep c _ _ c' _ _ hc' hsem (hrely c _ _ hr hI)
      exact List.forall_mem_cons.2 ⟨hE, ih hI' hk.symm⟩

/-- A run that starts within `I`, where the program never returns, leaves `I` by a statement that
satisfies `E`, and goes on from there. -/
theorem reaches {Ctl : Type} {code : Ctl → Prog S R α} {step : Ctl → (s : S) → R s → Ctl → Prop}
    (hcode : ∀ c s k, code c = .call s k → ∀ r, ∃ c', step c s r c' ∧ k r = code c')
    {I : Ctl → W → Prop} {E : Event S R → Prop} (hrely : ∀ c w w', rely w w' → I c w → I c w')
    (hstep : ∀ c s r c' w w', step c s r c' → sem s w r w' → I c w → E ⟨s, r⟩ ∨ I c' w')
    (hret : ∀ c w a, I c w → code c ≠ .ret a) {c : Ctl} {w w' : W} {tr : List (Event S R)} {a : α}
    (h : Runs sem rely (code c) w tr a w') (hI : I c w) :
    ∃ c₁ s r c₂ w₁ w₂ tr₂, (⟨s, r⟩ : Event S R) ∈ tr ∧ E ⟨s, r⟩ ∧ I c₁ w₁ ∧ step c₁ s r c₂ ∧
      sem s w₁ r w₂ ∧ Runs sem rely (code c₂) w₂ tr₂ a w' := by
  generalize hp : code c = p at h
  induction h generalizing c with
  | ret hr => exact (hret c _ _ hI hp).elim
  | @call s k w w₁ w₂ w' r tr a hr hsem hrest ih =>
      obtain ⟨c', hc', hk⟩ := hcode c s k hp r
      have hmid := hrely c _ _ hr hI
      obtain hE | hI' := hstep c s r c' _ _ hc' hsem hmid
      · rw [hk] at hrest
        exact ⟨c, s, r, c', _, _, tr, List.mem_cons_self, hE, hmid, hc', hsem, hrest⟩
      · obtain ⟨c₁, s', r', c₂, x₁, x₂, tr₂, hmem, hfound⟩ := ih hI' hk.symm
        exact ⟨c₁, s', r', c₂, x₁, x₂, tr₂, List.mem_cons_of_mem _ hmem, hfound⟩

section Quiet

variable {quiet : S → Prop} {I : W → Prop} {p : Prog S R α} {w w' : W} {tr : List (Event S R)}
  {a : α}

/-- A program of quiet statements keeps what each of them keeps. -/
theorem forall_keeps (hrely : ∀ w w', rely w w' → I w → I w')
    (hquiet : ∀ s w r w', quiet s → sem s w r w' → I w → I w') (h : Runs sem rely p w tr a w')
    (hp : p.Forall quiet) (hI : I w) : (∀ e ∈ tr, quiet e.stmt) ∧ I w' := by
  induction h with
  | ret hr => exact ⟨fun e he => (List.not_mem_nil he).elim, hrely _ _ hr hI⟩
  | call hr hsem _ ih =>
      obtain ⟨hrest, hI'⟩ := ih (hp.2 _) (hquiet _ _ _ _ hp.1 hsem (hrely _ _ hr hI))
      exact ⟨List.forall_mem_cons.2 ⟨hp.1, hrest⟩, hI'⟩

/-- A run of a program that is quiet until a mark returns early, or comes to the mark after quiet
statements. -/
theorem until_cases {early : α → Prop} {mark : (s : S) → (R s → Prog S R α) → Prop}
    (hrely : ∀ w w', rely w w' → I w → I w')
    (hquiet : ∀ s w r w', quiet s → sem s w r w' → I w → I w') (h : Runs sem rely p w tr a w')
    (hp : p.Until early quiet mark) (hI : I w) :
    ((∀ e ∈ tr, quiet e.stmt) ∧ early a ∧ I w') ∨
      ∃ s k r tr₁ tr₂ w₁ w₂, tr = tr₁ ++ ⟨s, r⟩ :: tr₂ ∧ (∀ e ∈ tr₁, quiet e.stmt) ∧ mark s k ∧
        I w₁ ∧ sem s w₁ r w₂ ∧ Runs sem rely (k r) w₂ tr₂ a w' := by
  induction h with
  | ret hr => exact Or.inl ⟨fun e he => (List.not_mem_nil he).elim, hp, hrely _ _ hr hI⟩
  | @call s k w w₁ w₂ w' r tr a hr hsem hrest ih =>
      have hI₁ := hrely _ _ hr hI
      obtain hm | ⟨hq, hk⟩ := hp
      · exact Or.inr ⟨s, k, r, [], tr, w₁, w₂, rfl, fun e he => (List.not_mem_nil he).elim, hm,
          hI₁, hsem, hrest⟩
      · obtain ⟨hall, hend⟩ | ⟨s', k', r', tr₁, tr₂, x₁, x₂, rfl, hall, hend⟩ :=
          ih (hk r) (hquiet _ _ _ _ hq hsem hI₁)
        · exact Or.inl ⟨List.forall_mem_cons.2 ⟨hq, hall⟩, hend⟩
        · exact Or.inr ⟨s', k', r', ⟨s, r⟩ :: tr₁, tr₂, x₁, x₂, rfl,
            List.forall_mem_cons.2 ⟨hq, hall⟩, hend⟩

end Quiet

end Runs

/-- Started in `w`, the program may have left `w'` when it is cut off before one of its statements,
or when it returns. -/
inductive Cut {S : Type} {R : S → Type} {W α : Type} (sem : Sem S R W) (rely : W → W → Prop) :
    Prog S R α → W → W → Prop
  | stop {p : Prog S R α} {w w' : W} : rely w w' → Cut sem rely p w w'
  | call {s : S} {k : R s → Prog S R α} {w w₁ w₂ w' : W} {r : R s} :
      rely w w₁ → sem s w₁ r w₂ → Cut sem rely (k r) w₂ w' → Cut sem rely (.call s k) w w'

/-- A run to the end, of statements that may do less. -/
theorem Runs.cut {S : Type} {R : S → Type} {W α : Type} {sem sem' : Sem S R W}
    {rely : W → W → Prop} (hsem : ∀ s w r w', sem s w r w' → sem' s w r w') {p : Prog S R α}
    {w w' : W} {tr : List (Event S R)} {a : α} (h : Runs sem rely p w tr a w') :
    Cut sem' rely p w w' := by
  induction h with
  | ret hr => exact Cut.stop hr
  | call hr hs _ ih => exact Cut.call hr (hsem _ _ _ _ hs) ih

/-- The invariant rule for a program that may be cut off. -/
theorem Cut.invariant {S : Type} {R : S → Type} {W α Ctl : Type} {sem : Sem S R W}
    {rely : W → W → Prop} {code : Ctl → Prog S R α} {step : Ctl → (s : S) → R s → Ctl → Prop}
    (hcode : ∀ c s k, code c = .call s k → ∀ r, ∃ c', step c s r c' ∧ k r = code c')
    {I : Ctl → W → Prop} (hrely : ∀ c w w', rely w w' → I c w → I c w')
    (hstep : ∀ c s r c' w w', step c s r c' → sem s w r w' → I c w → I c' w')
    {c : Ctl} {w w' : W} (h : Cut sem rely (code c) w w') (hI : I c w) : ∃ c', I c' w' := by
  generalize hp : code c = p at h
  induction h generalizing c with
  | stop hr => exact ⟨c, hrely c _ _ hr hI⟩
  | call hr hs _ ih =>
      obtain ⟨c', hc', hk⟩ := hcode c _ _ hp _
      exact ih (hstep c _ _ c' _ _ hc' hs (hrely c _ _ hr hI)) hk.symm

/-! ## Requests -/

/-- A program that returns a value or an error. -/
def Req (S : Type) (R : S → Type) (E α : Type) : Type :=
  Prog S R (Except E α)

namespace Req

variable {S : Type} {R : S → Type} {W E α β : Type}

/-- Return an error. -/
def throw (e : E) : Req S R E α := Prog.ret (.error e)

/-- The rest of a request after a first part that returned `r`: an error ends the request. -/
def continueWith (f : α → Req S R E β) : Except E α → Prog S R (Except E β)
  | .ok a => f a
  | .error e => Prog.ret (.error e)

instance : Monad (Req S R E) where
  pure a := Prog.ret (.ok a)
  bind p f := Prog.bind p (continueWith f)

theorem pure_eq (a : α) : (pure a : Req S R E α) = Prog.ret (.ok a) := rfl

/-- The request as a program, as a thread runs it. -/
def prog (p : Req S R E α) : Prog S R (Except E α) := p

/-- The request run alone. -/
def run (exec : (s : S) → W → R s × W) (p : Req S R E α) (w : W) : Except E α × W :=
  Prog.run exec p w

theorem forall_bind {P : S → Prop} {p : Req S R E α} {f : α → Req S R E β}
    (hp : Prog.Forall P p) (hf : ∀ a, Prog.Forall P (f a)) :
    Prog.Forall P (p >>= f : Req S R E β) := by
  refine Prog.Forall.bind hp fun r => ?_
  cases r with
  | ok a => exact hf a
  | error e => trivial

theorem yields_bind {Q : Except E β → Prop} (p : Req S R E α) {f : α → Req S R E β}
    (herr : ∀ e, Q (.error e)) (hf : ∀ a, Prog.Yields Q (f a)) :
    Prog.Yields Q (p >>= f : Req S R E β) := by
  refine Prog.Yields.bind p fun r => ?_
  cases r with
  | ok a => exact hf a
  | error e => exact herr e

theorem bind_assoc {γ : Type} (p : Req S R E α) (f : α → Req S R E β) (g : β → Req S R E γ) :
    (p >>= f) >>= g = p >>= fun a => f a >>= g := by
  refine (Prog.bind_assoc p (continueWith f) (continueWith g)).trans ?_
  refine congrArg (Prog.bind p) (funext fun r => ?_)
  cases r with
  | ok a => rfl
  | error e => rfl

theorem until_bind {early : Except E β → Prop} {quiet : S → Prop}
    {mark : (s : S) → (R s → Prog S R (Except E β)) → Prop} {p : Req S R E α}
    {f : α → Req S R E β} (hearly : ∀ e, early (.error e)) (hp : Prog.Forall quiet p)
    (hf : ∀ a, Prog.Until early quiet mark (f a)) :
    Prog.Until early quiet mark (p >>= f : Req S R E β) := by
  refine Prog.Forall.until_bind hp fun r => ?_
  cases r with
  | ok a => exact hf a
  | error e => exact hearly e

theorem run_bind (exec : (s : S) → W → R s × W) (p : Req S R E α) (f : α → Req S R E β) (w : W) :
    (p >>= f).run exec w = Prog.run exec (continueWith f (p.run exec w).1) (p.run exec w).2 :=
  Prog.run_bind exec p (continueWith f) w

theorem run_bind_of_ok {exec : (s : S) → W → R s × W} {p : Req S R E α} {f : α → Req S R E β}
    {w w₁ : W} {a : α} (h : p.run exec w = (.ok a, w₁)) :
    (p >>= f).run exec w = (f a).run exec w₁ := by
  rw [run_bind, h]
  rfl

theorem run_bind_of_error {exec : (s : S) → W → R s × W} {p : Req S R E α} {f : α → Req S R E β}
    {w w₁ : W} {e : E} (h : p.run exec w = (.error e, w₁)) :
    (p >>= f).run exec w = (.error e, w₁) := by
  rw [run_bind, h]
  rfl

/-- A sequence returns a value exactly when both parts do. -/
theorem run_bind_ok_iff {exec : (s : S) → W → R s × W} {p : Req S R E α} {f : α → Req S R E β}
    {w w' : W} {b : β} :
    (p >>= f).run exec w = (.ok b, w') ↔
      ∃ a w₁, p.run exec w = (.ok a, w₁) ∧ (f a).run exec w₁ = (.ok b, w') := by
  rcases hp : p.run exec w with ⟨r, w₁⟩
  cases r with
  | ok a =>
      rw [run_bind_of_ok hp]
      constructor
      · exact fun h => ⟨a, w₁, rfl, h⟩
      · rintro ⟨a', w₁', h, h'⟩
        simp only [Prod.mk.injEq, Except.ok.injEq] at h
        obtain ⟨rfl, rfl⟩ := h
        exact h'
  | error e =>
      rw [run_bind_of_error hp]
      constructor
      · intro h
        simp at h
      · rintro ⟨a', w₁', h, -⟩
        simp at h

end Req

end XrayApi.Transition
