import XrayApi.Worker.Pass

/-!
# Requests and actors side by side

A fleet has a thread for each API request and one for the actor of each node. An actor that is
between passes may start one; that is what its tickers and its trigger channel amount to. Which
requests there are is up to the initial state and to `spawn`.
-/

set_option autoImplicit false

namespace XrayApi.Worker

open Transition Store Xray

/-- The goroutines that touch the shared state. -/
inductive Thread
  | api (k : Nat)
  | actor (n : ID)
  deriving DecidableEq

/-- The shared state and what each thread has still to do. -/
abbrev Fleet : Type := Pool Thread Stmt Stmt.Res World (Except Err Unit)

/-- A label of a fleet's step. -/
abbrev FleetAct : Type := Act Thread Stmt Stmt.Res (Except Err Unit)

/-- A schedule of a fleet. -/
abbrev Schedule : Type := List (Pool.Move Thread Stmt Stmt.Res (Except Err Unit))

namespace Fleet

/-- One request, and every actor between two passes. -/
def request (w : World) (p : Job) : Fleet where
  world := w
  prog
    | .api 0 => p
    | _ => Prog.ret (.ok ())

/-- Actors start passes on their own node; no request is started. -/
def passes : Thread → Job → Prop
  | .api _, _ => False
  | .actor n, p => p = (reconcile n).prog

/-- Every actor stands at a control point of a pass on its node. -/
def AtPass (P : Fleet) : Prop :=
  ∀ n, ∃ p : Pass, P.prog (.actor n) = p.prog n

theorem atPass_request (w : World) (p : Job) : AtPass (request w p) :=
  fun _ => ⟨.done (.ok ()), rfl⟩

variable {sem : Sem Stmt Stmt.Res World} {spawn : Thread → Job → Prop} {P Q : Fleet}

/-- A call of an actor is a step of its pass. -/
theorem actor_call {n : ID} {s : Stmt} {r : s.Res}
    (h : Pool.Step sem spawn P (.call (.actor n) s r) Q) {p : Pass}
    (hp : P.prog (.actor n) = p.prog n) :
    ∃ p', Pass.Step n p s r p' ∧ sem s P.world r Q.world ∧ Q.prog (.actor n) = p'.prog n ∧
      ∀ j, j ≠ .actor n → Q.prog j = P.prog j := by
  obtain ⟨k, hk, hsem, hself, hother⟩ := h.call_inv
  rw [hp] at hk
  obtain ⟨p', hstep, hp'⟩ := Pass.prog_step hk r
  exact ⟨p', hstep, hsem, hself.trans hp', hother⟩

theorem atPass_step (hspawn : ∀ n p, spawn (.actor n) p → p = (reconcile n).prog) {a : FleetAct}
    (hP : AtPass P) (h : Pool.Step sem spawn P a Q) : AtPass Q := by
  intro n
  cases a with
  | call i s r =>
      by_cases hi : i = .actor n
      · subst hi
        obtain ⟨p, hp⟩ := hP n
        obtain ⟨p', -, -, hp', -⟩ := actor_call h hp
        exact ⟨p', hp'⟩
      · obtain ⟨-, -, -, -, hother⟩ := h.call_inv
        rw [hother _ (Ne.symm hi)]
        exact hP n
  | start i q =>
      obtain ⟨-, hq, -, hself, hother⟩ := h.start_inv
      by_cases hi : i = .actor n
      · subst hi
        exact ⟨.dial, hself.trans (hspawn n q hq)⟩
      · rw [hother _ (Ne.symm hi)]
        exact hP n

/-- Every thread is idle. -/
def idle (w : World) : Fleet where
  world := w
  prog _ := Prog.ret (.ok ())

end Fleet

/-! ## Control points in place of programs -/

/-- The world and the control point of every actor. -/
structure Crew where
  world : World
  ctl : ID → Pass

/-- A fleet's step as seen on the control points; requests issue statements that are `allowed`. -/
inductive Crew.Step (sem : Sem Stmt Stmt.Res World) (allowed : Stmt → Prop) :
    Crew → FleetAct → Crew → Prop
  | pass {C D : Crew} {n : ID} {s : Stmt} {r : s.Res} :
      Pass.Step n (C.ctl n) s r (D.ctl n) → sem s C.world r D.world →
      (∀ m, m ≠ n → D.ctl m = C.ctl m) → Step sem allowed C (.call (.actor n) s r) D
  | begins {C D : Crew} {n : ID} {q : Job} {a : Except Err Unit} :
      C.ctl n = .done a → D.ctl n = .dial → D.world = C.world →
      (∀ m, m ≠ n → D.ctl m = C.ctl m) → Step sem allowed C (.start (.actor n) q) D
  | request {C D : Crew} {k : Nat} {s : Stmt} {r : s.Res} :
      allowed s → sem s C.world r D.world → D.ctl = C.ctl →
      Step sem allowed C (.call (.api k) s r) D
  | opens {C : Crew} {k : Nat} {q : Job} : Step sem allowed C (.start (.api k) q) C

/-- What can happen to the control point of an actor: nothing, the start of a pass, or a step. -/
theorem Crew.Step.ctl {sem : Sem Stmt Stmt.Res World} {allowed : Stmt → Prop} {C D : Crew}
    {a : FleetAct} (h : Crew.Step sem allowed C a D) (m : ID) :
    D.ctl m = C.ctl m ∨
      ((∃ b, C.ctl m = .done b) ∧ D.ctl m = .dial ∧ D.world = C.world) ∨
      ∃ s r, a = .call (.actor m) s r ∧ Pass.Step m (C.ctl m) s r (D.ctl m) ∧
        sem s C.world r D.world := by
  cases h with
  | @pass _ n s r hstep hsem hother =>
      by_cases hm : m = n
      · subst hm
        exact Or.inr (Or.inr ⟨s, r, rfl, hstep, hsem⟩)
      · exact Or.inl (hother m hm)
  | @begins _ n q b hdone hdial hw hother =>
      by_cases hm : m = n
      · subst hm
        exact Or.inr (Or.inl ⟨⟨b, hdone⟩, hdial, hw⟩)
      · exact Or.inl (hother m hm)
  | request hs hsem hctl => exact Or.inl (congrFun hctl m)
  | opens => exact Or.inl rfl

/-- The fleet stands at these control points, and its requests have `allowed` statements left. -/
structure Fleet.Shows (allowed : Stmt → Prop) (P : Fleet) (C : Crew) : Prop where
  world : P.world = C.world
  ctl : ∀ n, P.prog (.actor n) = (C.ctl n).prog n
  api : ∀ k, Prog.Forall allowed (P.prog (.api k))

theorem Fleet.shows_idle (allowed : Stmt → Prop) (w : World) :
    Fleet.Shows allowed (.idle w) ⟨w, fun _ => .done (.ok ())⟩ :=
  ⟨rfl, fun _ => rfl, fun _ => trivial⟩

section Follow

variable {allowed : Stmt → Prop} {P Q : Fleet} {C : Crew}

/-- Only the thread of the actor of `n` has changed. -/
theorem Fleet.Shows.setActor (hPC : P.Shows allowed C) {n : ID} {p' : Pass} {w : World}
    (hw : Q.world = w) (hself : Q.prog (.actor n) = p'.prog n)
    (hother : ∀ i, i ≠ .actor n → Q.prog i = P.prog i) :
    Q.Shows allowed ⟨w, Function.update C.ctl n p'⟩ := by
  refine ⟨hw, fun m => ?_, fun j => ?_⟩
  · by_cases hm : m = n
    · subst hm
      simp only [Function.update_self]
      exact hself
    · simp only [Function.update_of_ne hm, hother (.actor m) (by simpa using hm)]
      exact hPC.ctl m
  · rw [hother _ (by simp)]
    exact hPC.api j

/-- Only the thread of request `j` has changed. -/
theorem Fleet.Shows.setApi (hPC : P.Shows allowed C) {j : Nat} {w : World} (hw : Q.world = w)
    (hself : Prog.Forall allowed (Q.prog (.api j)))
    (hother : ∀ i, i ≠ .api j → Q.prog i = P.prog i) : Q.Shows allowed ⟨w, C.ctl⟩ := by
  refine ⟨hw, fun m => ?_, fun j' => ?_⟩
  · rw [hother _ (by simp)]
    exact hPC.ctl m
  · by_cases hj' : j' = j
    · subst hj'
      exact hself
    · rw [hother _ (by simpa using hj')]
      exact hPC.api j'

/-- The control points follow the fleet. -/
theorem Fleet.Shows.step {sem : Sem Stmt Stmt.Res World} {spawn : Thread → Job → Prop}
    (hactor : ∀ n p, spawn (.actor n) p → p = (reconcile n).prog)
    (hapi : ∀ k p, spawn (.api k) p → Prog.Forall allowed p) {a : FleetAct}
    (hPC : P.Shows allowed C) (h : Pool.Step sem spawn P a Q) :
    ∃ D, Crew.Step sem allowed C a D ∧ Q.Shows allowed D := by
  cases a with
  | call i s r =>
      obtain ⟨k, hk, hsem, hself, hother⟩ := h.call_inv
      rw [hPC.world] at hsem
      cases i with
      | actor n =>
          -- the program is that of a control point, so the statement leads to another one
          rw [hPC.ctl n] at hk
          obtain ⟨p', hstep, hp'⟩ := Pass.prog_step hk r
          refine ⟨⟨Q.world, Function.update C.ctl n p'⟩, .pass ?_ hsem ?_,
            hPC.setActor rfl (hself.trans hp') hother⟩
          · simp only [Function.update_self]
            exact hstep
          · exact fun m hm => Function.update_of_ne hm _ _
      | api j =>
          have hj := hPC.api j
          rw [hk] at hj
          exact ⟨⟨Q.world, C.ctl⟩, .request hj.1 hsem rfl,
            hPC.setApi rfl (hself ▸ hj.2 r) hother⟩
  | start i q =>
      obtain ⟨⟨b, hb⟩, hq, hw, hself, hother⟩ := h.start_inv
      have hworld : Q.world = C.world := hw.trans hPC.world
      cases i with
      | actor n =>
          -- an actor starts a pass when the one before has ended
          rw [hPC.ctl n] at hb
          exact ⟨⟨C.world, Function.update C.ctl n .dial⟩,
            .begins (Pass.prog_eq_ret hb) (Function.update_self _ _ _) rfl
              fun m hm => Function.update_of_ne hm _ _,
            hPC.setActor hworld (hself.trans (hactor n q hq)) hother⟩
      | api j => exact ⟨C, .opens, hPC.setApi hworld (hself ▸ hapi j q hq) hother⟩

end Follow

end XrayApi.Worker
