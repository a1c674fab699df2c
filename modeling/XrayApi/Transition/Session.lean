import Mathlib.Data.List.Induction
import XrayApi.Transition.Branches

/-!
# What a thread has done since it started

The labels of a run tell for each thread which program it started last and which statements it has
issued since, with their answers: its `session`. `Emits p es q` says that a program that has issued
`es` is left with `q`; by `Pool.emits_of_session` this is so for the session of every thread, so
that what a thread may do next follows from its own program and its own answers, whatever the other
threads do.

A program is `Behind` a gate if it issues quiet statements only until an answer opens the gate.
-/

set_option autoImplicit false

namespace XrayApi.Transition

variable {ι : Type} {S : Type} {R : S → Type} {W α β : Type}

/-- After the events `es`, the program `p` is left with `q`. -/
inductive Prog.Emits : Prog S R α → List (Event S R) → Prog S R α → Prop
  | nil (p : Prog S R α) : Emits p [] p
  | cons {s : S} {k : R s → Prog S R α} {r : R s} {es : List (Event S R)} {q : Prog S R α} :
      Emits (k r) es q → Emits (.call s k) (⟨s, r⟩ :: es) q

theorem Prog.Emits.snoc {p : Prog S R α} {es : List (Event S R)} {s : S} {k : R s → Prog S R α}
    (h : Prog.Emits p es (.call s k)) (r : R s) : Prog.Emits p (es ++ [⟨s, r⟩]) (k r) := by
  generalize hq : Prog.call s k = q at h
  induction h with
  | nil p =>
      subst hq
      exact Emits.cons (Emits.nil _)
  | cons _ ih => exact Emits.cons (ih hq)

/-- What holds of all statements of a program holds of those it still has to issue. -/
theorem Prog.Emits.forall_rest {G : S → Prop} {p q : Prog S R α} {es : List (Event S R)}
    (h : p.Emits es q) (hp : p.Forall G) : q.Forall G := by
  induction h with
  | nil p => exact hp
  | @cons s k r es q _ ih => exact ih (hp.2 r)

/-- A program that keeps within its bounds on good answers still does after good answers. -/
theorem Prog.Emits.within {good : (s : S) → R s → Prop} {fine : S → Prop} {post : α → Prop}
    {p q : Prog S R α} {es : List (Event S R)} (h : p.Emits es q) (hp : p.Within good fine post)
    (hes : ∀ e ∈ es, good e.stmt e.answer) : q.Within good fine post := by
  induction h with
  | nil p => exact hp
  | @cons s k r es q _ ih =>
      rw [List.forall_mem_cons] at hes
      exact ih (hp.2 r hes.1) hes.2

/-! ## Sessions -/

/-- The session of the thread `i` after one more label. -/
def Act.record [DecidableEq ι] (i : ι) (session : Option (Prog S R α × List (Event S R))) :
    Act ι S R α → Option (Prog S R α × List (Event S R))
  | .start j p => if j = i then some (p, []) else session
  | .call j s r => if j = i then session.map fun x => (x.1, x.2 ++ [⟨s, r⟩]) else session

/-- The program that `i` started last and what it has issued since. -/
def session [DecidableEq ι] (i : ι) (ls : List (Act ι S R α)) :
    Option (Prog S R α × List (Event S R)) :=
  ls.foldl (Act.record i) none

section Pool

variable [DecidableEq ι] {sem : Sem S R W} {spawn : ι → Prog S R α → Prop}
  {P Q : Pool ι S R W α} {ls : List (Act ι S R α)} {i : ι}

theorem session_snoc (i : ι) (ls : List (Act ι S R α)) (l : Act ι S R α) :
    session i (ls ++ [l]) = Act.record i (session i ls) l := by
  unfold session
  rw [List.foldl_append]
  rfl

/-- The program of a session has been started. -/
theorem start_of_session {p : Prog S R α} {es : List (Event S R)}
    (hs : session i ls = some (p, es)) : Act.start i p ∈ ls := by
  induction ls using List.reverseRecOn generalizing es with
  | nil => cases hs
  | append_singleton ls l ih =>
      rw [session_snoc] at hs
      cases l with
      | start j q =>
          dsimp only [Act.record] at hs
          split_ifs at hs with hj
          · cases hs
            rw [hj]
            exact List.mem_append_right _ (List.mem_singleton.2 rfl)
          · exact List.mem_append_left _ (ih hs)
      | call j s r =>
          dsimp only [Act.record] at hs
          split_ifs at hs with hj
          · obtain ⟨⟨p', es'⟩, hsession, heq⟩ := Option.map_eq_some_iff.1 hs
            cases heq
            exact List.mem_append_left _ (ih hsession)
          · exact List.mem_append_left _ (ih hs)

/-- A thread that has started a program is left with the rest of its session. -/
theorem Pool.emits_of_session (h : Path (Pool.Step sem spawn) P ls Q) {p : Prog S R α}
    {es : List (Event S R)} (hs : session i ls = some (p, es)) :
    spawn i p ∧ p.Emits es (Q.prog i) := by
  induction h generalizing p es with
  | nil => cases hs
  | @snoc P' Q' ls l _ hstep ih =>
      rw [session_snoc] at hs
      cases l with
      | start j q =>
          obtain ⟨-, hq, -, hself, hother⟩ := hstep.start_inv
          dsimp only [Act.record] at hs
          split_ifs at hs with hj
          · cases hs
            rw [← hj, hself]
            exact ⟨hq, Prog.Emits.nil _⟩
          · rw [hother i (Ne.symm hj)]
            exact ih hs
      | call j s r =>
          obtain ⟨k, hk, -, hself, hother⟩ := hstep.call_inv
          dsimp only [Act.record] at hs
          split_ifs at hs with hj
          · obtain ⟨⟨p', es'⟩, hsession, heq⟩ := Option.map_eq_some_iff.1 hs
            cases heq
            obtain ⟨hspawn, hemits⟩ := ih hsession
            rw [← hj, hk] at hemits
            rw [← hj, hself]
            rw [← hj] at hspawn
            exact ⟨hspawn, hemits.snoc r⟩
          · rw [hother i (Ne.symm hj)]
            exact ih hs

/-- A thread without a session is as it was. -/
theorem Pool.prog_of_session_eq_none (h : Path (Pool.Step sem spawn) P ls Q) {a : α}
    (hi : P.prog i = .ret a) (hs : session i ls = none) : Q.prog i = .ret a := by
  induction h with
  | nil => exact hi
  | @snoc P' Q' ls l _ hstep ih =>
      rw [session_snoc] at hs
      cases l with
      | start j q =>
          dsimp only [Act.record] at hs
          split_ifs at hs with hj
          rw [hstep.start_inv.2.2.2.2 i (Ne.symm hj)]
          exact ih hs
      | call j s r =>
          obtain ⟨k, hk, -, -, hother⟩ := hstep.call_inv
          dsimp only [Act.record] at hs
          split_ifs at hs with hj
          · -- an idle thread issues no call
            rw [hj, ih (Option.map_eq_none_iff.1 hs)] at hk
            cases hk
          · rw [hother i (Ne.symm hj)]
            exact ih hs

/-- A call of a thread that was idle at first belongs to a session. -/
theorem Pool.session_of_call (h : Path (Pool.Step sem spawn) P ls Q) {a : α}
    (hi : P.prog i = .ret a) {s : S} {k : R s → Prog S R α} (hk : Q.prog i = .call s k) :
    ∃ p es, session i ls = some (p, es) ∧ spawn i p ∧ p.Emits es (.call s k) := by
  cases hs : session i ls with
  | none =>
      rw [Pool.prog_of_session_eq_none h hi hs] at hk
      cases hk
  | some x =>
      obtain ⟨hspawn, hemits⟩ := Pool.emits_of_session h hs
      rw [hk] at hemits
      exact ⟨x.1, x.2, rfl, hspawn, hemits⟩

/-- Such a call is a statement of a program that the thread has started. -/
theorem Pool.started_of_call (h : Path (Pool.Step sem spawn) P ls Q) {a : α}
    (hi : P.prog i = .ret a) {s : S} {k : R s → Prog S R α} (hk : Q.prog i = .call s k) :
    ∃ p, Act.start i p ∈ ls ∧ ∀ G : S → Prop, p.Forall G → G s := by
  obtain ⟨p, es, hs, -, hemits⟩ := Pool.session_of_call h hi hk
  exact ⟨p, start_of_session hs, fun G hG => (hemits.forall_rest hG).1⟩

/-- An event of a session is a call that was made since the program started, after the events before
it. -/
theorem Pool.call_of_session (h : Path (Pool.Step sem spawn) P ls Q) {p : Prog S R α}
    {es : List (Event S R)} (hs : session i ls = some (p, es)) {e : Event S R} (he : e ∈ es) :
    ∃ ls₁ ls₂ M M' es', ls = ls₁ ++ .call i e.stmt e.answer :: ls₂ ∧
      Path (Pool.Step sem spawn) P ls₁ M ∧ sem e.stmt M.world e.answer M'.world ∧
      Path (Pool.Step sem spawn) M' ls₂ Q ∧ session i ls₁ = some (p, es') ∧ es' ++ [e] <+: es ∧
      ∀ q, Act.start i q ∉ Act.call i e.stmt e.answer :: ls₂ := by
  induction h generalizing es with
  | nil => cases hs
  | @snoc P' Q' ls l hpre hstep ih =>
      rw [session_snoc] at hs
      -- an event of the run before
      have hearlier : ∀ {es'}, session i ls = some (p, es') → e ∈ es' → es' <+: es →
          (∀ q, l ≠ .start i q) →
          ∃ ls₁ ls₂ M M' es', ls ++ [l] = ls₁ ++ .call i e.stmt e.answer :: ls₂ ∧
            Path (Pool.Step sem spawn) P ls₁ M ∧ sem e.stmt M.world e.answer M'.world ∧
            Path (Pool.Step sem spawn) M' ls₂ Q' ∧ session i ls₁ = some (p, es') ∧
            es' ++ [e] <+: es ∧ ∀ q, Act.start i q ∉ Act.call i e.stmt e.answer :: ls₂ := by
        intro es' hs' he' hes hl
        obtain ⟨ls₁, ls₂, M, M', es'', rfl, h₁, hsem, h₂, hs₁, hbefore, hstart⟩ := ih hs' he'
        refine ⟨ls₁, ls₂ ++ [l], M, M', es'', by simp, h₁, hsem, h₂.snoc hstep, hs₁,
          hbefore.trans hes, fun q hq => ?_⟩
        rw [← List.cons_append] at hq
        obtain hq | hq := List.mem_append.1 hq
        · exact hstart q hq
        · exact hl q (List.mem_singleton.1 hq).symm
      cases l with
      | start j q =>
          dsimp only [Act.record] at hs
          split_ifs at hs with hj
          · cases hs
            cases he
          · exact hearlier hs he (List.prefix_refl es) fun _ heq => by cases heq; exact hj rfl
      | call j s r =>
          dsimp only [Act.record] at hs
          split_ifs at hs with hj
          · subst hj
            obtain ⟨⟨p', es'⟩, hsession, heq⟩ := Option.map_eq_some_iff.1 hs
            cases heq
            obtain he | he := List.mem_append.1 he
            · exact hearlier hsession he (List.prefix_append _ _) nofun
            · rw [List.mem_singleton.1 he]
              obtain ⟨k, -, hsem, -, -⟩ := hstep.call_inv
              exact ⟨ls, [], P', Q', es', rfl, hpre, hsem, Path.nil Q', hsession,
                List.prefix_refl _, fun _ hq => by cases List.mem_singleton.1 hq⟩
          · exact hearlier hs he (List.prefix_refl es) nofun

end Pool

/-! ## Gates -/

/-- The program issues quiet statements only, until an answer opens the gate; if it returns before
that, its value is in `shut`. -/
def Prog.Behind (quiet : S → Prop) (opens : (s : S) → R s → Prop) (shut : α → Prop) :
    Prog S R α → Prop
  | .ret a => shut a
  | .call s k => quiet s ∧ ∀ r, opens s r ∨ Prog.Behind quiet opens shut (k r)

section Gate

variable {quiet : S → Prop} {opens : (s : S) → R s → Prop} {shut : α → Prop}

theorem Prog.Forall.behind {p : Prog S R α} (hp : p.Forall quiet) (hshut : ∀ a, shut a) :
    p.Behind quiet opens shut := by
  induction p with
  | ret a => exact hshut a
  | call s k ih => exact ⟨hp.1, fun r => Or.inr (ih r (hp.2 r))⟩

theorem Prog.Behind.mono {quiet' : S → Prop} {opens' : (s : S) → R s → Prop} {shut' : α → Prop}
    (hquiet : ∀ s, quiet s → quiet' s) (hopens : ∀ s r, opens s r → opens' s r)
    (hshut : ∀ a, shut a → shut' a) {p : Prog S R α} (hp : p.Behind quiet opens shut) :
    p.Behind quiet' opens' shut' := by
  induction p with
  | ret a => exact hshut a hp
  | call s k ih => exact ⟨hquiet s hp.1, fun r => (hp.2 r).imp (hopens s r) (ih r)⟩

/-- The gate has been opened, or only quiet statements have been issued and it is still shut. -/
theorem Prog.Emits.behind {p q : Prog S R α} {es : List (Event S R)} (h : p.Emits es q)
    (hp : p.Behind quiet opens shut) :
    (∃ e ∈ es, opens e.stmt e.answer) ∨
      ((∀ e ∈ es, quiet e.stmt) ∧ q.Behind quiet opens shut) := by
  induction h with
  | nil p => exact Or.inr ⟨fun e he => (List.not_mem_nil he).elim, hp⟩
  | @cons s k r es q _ ih =>
      obtain hopen | hrest := hp.2 r
      · exact Or.inl ⟨⟨s, r⟩, List.mem_cons_self, hopen⟩
      · obtain ⟨e, he, hopen⟩ | ⟨hquiet, hq⟩ := ih hrest
        · exact Or.inl ⟨e, List.mem_cons_of_mem _ he, hopen⟩
        · exact Or.inr ⟨List.forall_mem_cons.2 ⟨hp.1, hquiet⟩, hq⟩

end Gate

end XrayApi.Transition
