import Mathlib.Logic.Function.Basic
import XrayApi.Transition.Prog

/-!
# Pools of interleaved programs

A pool holds one program per thread over a shared world. A step issues the next statement of one
thread, or starts a new program in a thread whose last one has returned; `spawn` says which programs
a thread may start. The steps of the threads come in any order, so a `Path` of `Pool.Step` is one
interleaving of the statements.

`Pool.play` follows a given schedule with a deterministic executor and `Pool.play_path` turns it
into a path, which is how concrete interleavings are exhibited.
-/

set_option autoImplicit false

namespace XrayApi.Transition

variable {ι : Type} {S : Type} {R : S → Type} {W α : Type}

/-- A shared world and one program per thread. -/
structure Pool (ι S : Type) (R : S → Type) (W α : Type) where
  world : W
  prog : ι → Prog S R α

/-- What one step of a pool does. -/
inductive Act (ι S : Type) (R : S → Type) (α : Type)
  | call (i : ι) (s : S) (r : R s) : Act ι S R α
  | start (i : ι) (p : Prog S R α) : Act ι S R α

namespace Pool

variable [DecidableEq ι]

/-- The steps of a pool. -/
def Step (sem : Sem S R W) (spawn : ι → Prog S R α → Prop) (P : Pool ι S R W α) :
    Act ι S R α → Pool ι S R W α → Prop
  | .call i s r, Q => ∃ k, P.prog i = .call s k ∧ sem s P.world r Q.world ∧
      Q.prog = Function.update P.prog i (k r)
  | .start i p, Q => (∃ a, P.prog i = .ret a) ∧ spawn i p ∧ Q.world = P.world ∧
      Q.prog = Function.update P.prog i p

variable {sem : Sem S R W} {spawn : ι → Prog S R α → Prop} {P Q : Pool ι S R W α}

/-- A call changes the world as its statement may and advances its own thread only. -/
theorem Step.call_inv {i : ι} {s : S} {r : R s} (h : Step sem spawn P (.call i s r) Q) :
    ∃ k, P.prog i = .call s k ∧ sem s P.world r Q.world ∧ Q.prog i = k r ∧
      ∀ j, j ≠ i → Q.prog j = P.prog j := by
  obtain ⟨k, hk, hsem, hprog⟩ := h
  refine ⟨k, hk, hsem, ?_, fun j hj => ?_⟩
  · rw [hprog, Function.update_self]
  · rw [hprog, Function.update_of_ne hj]

/-- A start gives its own thread a program and changes nothing else. -/
theorem Step.start_inv {i : ι} {p : Prog S R α} (h : Step sem spawn P (.start i p) Q) :
    (∃ a, P.prog i = .ret a) ∧ spawn i p ∧ Q.world = P.world ∧ Q.prog i = p ∧
      ∀ j, j ≠ i → Q.prog j = P.prog j := by
  obtain ⟨hi, hp, hw, hprog⟩ := h
  refine ⟨hi, hp, hw, ?_, fun j hj => ?_⟩
  · rw [hprog, Function.update_self]
  · rw [hprog, Function.update_of_ne hj]

/-- A step of statements that may do less. -/
theorem Step.mono {sem' : Sem S R W} (hsem : ∀ s w r w', sem s w r w' → sem' s w r w')
    {a : Act ι S R α} (h : Step sem spawn P a Q) : Step sem' spawn P a Q := by
  cases a with
  | call i s r =>
      obtain ⟨k, hk, hs, hprog⟩ := h
      exact ⟨k, hk, hsem _ _ _ _ hs, hprog⟩
  | start i p => exact h

/-- A thread that has returned issues no call. -/
theorem Step.not_call_of_ret {i : ι} {s : S} {r : R s} {a : α} (hi : P.prog i = .ret a) :
    ¬ Step sem spawn P (.call i s r) Q := by
  rintro ⟨k, hk, -, -⟩
  rw [hi] at hk
  cases hk

/-! ## Schedules -/

/-- One entry of a schedule. -/
inductive Move (ι S : Type) (R : S → Type) (α : Type)
  | fire (i : ι) : Move ι S R α
  | start (i : ι) (p : Prog S R α) : Move ι S R α

/-- Follow one entry of a schedule; `none` when the entry is not enabled. -/
def move (exec : (s : S) → W → R s × W) (P : Pool ι S R W α) :
    Move ι S R α → Option (Act ι S R α × Pool ι S R W α)
  | .fire i =>
    match P.prog i with
    | .ret _ => none
    | .call s k =>
      some (.call i s (exec s P.world).1,
        ⟨(exec s P.world).2, Function.update P.prog i (k (exec s P.world).1)⟩)
  | .start i p =>
    match P.prog i with
    | .ret _ => some (.start i p, ⟨P.world, Function.update P.prog i p⟩)
    | .call _ _ => none

/-- Follow a schedule, skipping the entries that are not enabled. -/
def play (exec : (s : S) → W → R s × W) :
    List (Move ι S R α) → Pool ι S R W α → List (Act ι S R α) × Pool ι S R W α
  | [], P => ([], P)
  | m :: ms, P =>
    match move exec P m with
    | none => play exec ms P
    | some (a, Q) => (a :: (play exec ms Q).1, (play exec ms Q).2)

/-- The programs a schedule starts are ones that may be started. -/
def Allowed (spawn : ι → Prog S R α → Prop) (ms : List (Move ι S R α)) : Prop :=
  ∀ i p, Move.start i p ∈ ms → spawn i p

/-- The answer in a label, if it has one, is `good`. -/
def Answered (good : (s : S) → R s → Bool) : Act ι S R α → Bool
  | .call _ s r => good s r
  | .start _ _ => true

theorem move_step {exec : (s : S) → W → R s × W} {good : (s : S) → R s → Bool}
    (hexec : ∀ s w, good s (exec s w).1 = true → sem s w (exec s w).1 (exec s w).2)
    {m : Move ι S R α} {a : Act ι S R α} (hm : ∀ i p, m = .start i p → spawn i p)
    (h : move exec P m = some (a, Q)) (ha : Answered good a = true) : Step sem spawn P a Q := by
  cases m with
  | fire i =>
      cases hi : P.prog i with
      | ret b => simp [move, hi] at h
      | call s k =>
          simp only [move, hi, Option.some.injEq, Prod.mk.injEq] at h
          obtain ⟨rfl, rfl⟩ := h
          exact ⟨k, hi, hexec s P.world ha, rfl⟩
  | start i p =>
      cases hi : P.prog i with
      | ret b =>
          simp only [move, hi, Option.some.injEq, Prod.mk.injEq] at h
          obtain ⟨rfl, rfl⟩ := h
          exact ⟨⟨b, hi⟩, hm i p rfl, rfl, rfl⟩
      | call s k => simp [move, hi] at h

/-- A schedule followed with an executor whose good answers `sem` allows is a path of the pool, if
all answers along it are good. -/
theorem play_path {exec : (s : S) → W → R s × W} {good : (s : S) → R s → Bool}
    (hexec : ∀ s w, good s (exec s w).1 = true → sem s w (exec s w).1 (exec s w).2)
    (ms : List (Move ι S R α)) (hms : Allowed spawn ms) (P : Pool ι S R W α)
    (hgood : (play exec ms P).1.all (Answered good) = true) :
    Path (Step sem spawn) P (play exec ms P).1 (play exec ms P).2 := by
  induction ms generalizing P with
  | nil => exact Path.nil P
  | cons m ms ih =>
      have hrest : Allowed spawn ms := fun i p h => hms i p (List.mem_cons_of_mem _ h)
      cases hm : move exec P m with
      | none =>
          simp only [play, hm] at hgood ⊢
          exact ih hrest P hgood
      | some aQ =>
          obtain ⟨a, Q⟩ := aQ
          simp only [play, hm, List.all_cons, Bool.and_eq_true] at hgood ⊢
          refine Path.cons (move_step hexec ?_ hm hgood.1) (ih hrest Q hgood.2)
          intro i p heq
          exact hms i p (by rw [heq]; exact List.mem_cons_self)

/-- The same with an executor all of whose answers `sem` allows. -/
theorem play_path_of_exec {exec : (s : S) → W → R s × W}
    (hexec : ∀ s w, sem s w (exec s w).1 (exec s w).2) {ms : List (Move ι S R α)}
    (hms : Allowed spawn ms) (P : Pool ι S R W α) :
    Path (Step sem spawn) P (play exec ms P).1 (play exec ms P).2 := by
  have hgood : ∀ ls : List (Act ι S R α), ls.all (Answered fun _ _ => true) = true := by
    intro ls
    rw [List.all_eq_true]
    intro a _
    cases a with
    | call i s r => rfl
    | start i p => rfl
  exact play_path (fun s w _ => hexec s w) ms hms P (hgood _)

/-- Every step of a schedule satisfies `G`. -/
def Guarded (exec : (s : S) → W → R s × W)
    (G : Pool ι S R W α → Act ι S R α → Pool ι S R W α → Prop) :
    List (Move ι S R α) → Pool ι S R W α → Prop
  | [], _ => True
  | m :: ms, P =>
    match move exec P m with
    | none => Guarded exec G ms P
    | some (a, Q) => G P a Q ∧ Guarded exec G ms Q

instance Guarded.decidable (exec : (s : S) → W → R s × W)
    (G : Pool ι S R W α → Act ι S R α → Pool ι S R W α → Prop) [∀ P a Q, Decidable (G P a Q)] :
    (ms : List (Move ι S R α)) → (P : Pool ι S R W α) → Decidable (Guarded exec G ms P)
  | [], _ => isTrue trivial
  | m :: ms, P => by
    show Decidable (match move exec P m with
      | none => Guarded exec G ms P
      | some (a, Q) => G P a Q ∧ Guarded exec G ms Q)
    cases move exec P m with
    | none => exact Guarded.decidable exec G ms P
    | some aQ =>
        have := Guarded.decidable exec G ms aQ.2
        exact inferInstanceAs (Decidable (_ ∧ _))

/-- A schedule whose steps satisfy `G` is a path of such steps. -/
theorem play_path_guarded {exec : (s : S) → W → R s × W}
    (hexec : ∀ s w, sem s w (exec s w).1 (exec s w).2)
    {G : Pool ι S R W α → Act ι S R α → Pool ι S R W α → Prop} {ms : List (Move ι S R α)}
    (hms : Allowed spawn ms) {P : Pool ι S R W α} (hG : Guarded exec G ms P) :
    Path (fun P a Q => Step sem spawn P a Q ∧ G P a Q) P (play exec ms P).1 (play exec ms P).2 := by
  induction ms generalizing P with
  | nil => exact Path.nil P
  | cons m ms ih =>
      have hrest : Allowed spawn ms := fun i p h => hms i p (List.mem_cons_of_mem _ h)
      cases hm : move exec P m with
      | none =>
          simp only [play, Guarded, hm] at hG ⊢
          exact ih hrest hG
      | some aQ =>
          obtain ⟨a, Q⟩ := aQ
          simp only [play, Guarded, hm] at hG ⊢
          have hgood : Answered (fun _ _ => true) a = true := by cases a <;> rfl
          refine Path.cons ⟨move_step (fun s w _ => hexec s w) ?_ hm hgood, hG.1⟩ (ih hrest hG.2)
          intro i p heq
          exact hms i p (by rw [heq]; exact List.mem_cons_self)

end Pool

end XrayApi.Transition
