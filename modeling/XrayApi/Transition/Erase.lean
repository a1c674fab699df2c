import XrayApi.Transition.Pool

/-!
# Threads without effect

A thread of a pool whose steps leave the world as it is can be taken out of a run: what is left is a
run of the other threads, with the same world at the end (`Pool.path_only`).
-/

set_option autoImplicit false

namespace XrayApi.Transition

variable {ι : Type} {S : Type} {R : S → Type} {W α : Type}

namespace Act

/-- The thread that takes the step. -/
def thread : Act ι S R α → ι
  | call i _ _ => i
  | start i _ => i

/-- The step, if it is one of a thread to keep. -/
def only (keep : ι → Bool) : Act ι S R α → Option (Act {i // keep i = true} S R α)
  | call i s r => if h : keep i = true then some (.call ⟨i, h⟩ s r) else none
  | start i p => if h : keep i = true then some (.start ⟨i, h⟩ p) else none

end Act

namespace Pool

/-- The threads to keep. -/
def only (keep : ι → Bool) (P : Pool ι S R W α) : Pool {i // keep i = true} S R W α :=
  ⟨P.world, fun i => P.prog i⟩

variable [DecidableEq ι] {sem : Sem S R W} {spawn : ι → Prog S R α → Prop} {P Q : Pool ι S R W α}
  {keep : ι → Bool} {a : Act ι S R α}

/-- A thread that takes no step has the program it had. -/
theorem prog_of_not_mem_threads {as : List (Act ι S R α)} (h : Path (Step sem spawn) P as Q) {i : ι}
    (hi : i ∉ as.map Act.thread) : Q.prog i = P.prog i := by
  induction h with
  | nil => rfl
  | @snoc P' Q' as a _ hstep ih =>
      rw [List.map_append, List.mem_append, not_or] at hi
      refine Eq.trans ?_ (ih hi.1)
      have ha : i ≠ a.thread := by simpa using hi.2
      cases a with
      | call j s r =>
          obtain ⟨-, -, -, -, hother⟩ := hstep.call_inv
          exact hother i ha
      | start j p =>
          obtain ⟨-, -, -, -, hother⟩ := hstep.start_inv
          exact hother i ha

theorem update_only_of_keep (f : ι → Prog S R α) (i : {i // keep i = true}) (p : Prog S R α) :
    (fun j : {i // keep i = true} => Function.update f i p j) =
      Function.update (fun j : {i // keep i = true} => f j) i p :=
  Function.update_comp_eq_of_injective f Subtype.val_injective i p

theorem update_only_of_drop (f : ι → Prog S R α) {i : ι} (h : keep i = false) (p : Prog S R α) :
    (fun j : {i // keep i = true} => Function.update f i p j) =
      fun j : {i // keep i = true} => f j := by
  funext j
  rw [Function.update_of_ne]
  intro hj
  have hkeep := j.2
  rw [hj, h] at hkeep
  cases hkeep

/-- A step of a thread to keep. -/
theorem Step.only_of_keep (h : Step sem spawn P a Q) (hk : keep a.thread = true) :
    ∃ b, Act.only keep a = some b ∧
      Step sem (fun (i : {i // keep i = true}) p => spawn i p) (P.only keep) b (Q.only keep) := by
  cases a with
  | call i s r =>
      obtain ⟨k, hi, hsem, hprog⟩ := h
      have hk : keep i = true := hk
      refine ⟨.call ⟨i, hk⟩ s r, dif_pos hk, k, hi, hsem, ?_⟩
      unfold only
      rw [hprog]
      exact update_only_of_keep P.prog ⟨i, hk⟩ (k r)
  | start i p =>
      obtain ⟨hi, hp, hw, hprog⟩ := h
      have hk : keep i = true := hk
      refine ⟨.start ⟨i, hk⟩ p, dif_pos hk, hi, hp, hw, ?_⟩
      unfold only
      rw [hprog]
      exact update_only_of_keep P.prog ⟨i, hk⟩ p

/-- A step of another thread, if it leaves the world as it is. -/
theorem Step.only_of_drop (h : Step sem spawn P a Q) (hk : keep a.thread = false)
    (hw : Q.world = P.world) : Act.only keep a = none ∧ Q.only keep = P.only keep := by
  cases a with
  | call i s r =>
      obtain ⟨k, -, -, hprog⟩ := h
      have hk : keep i = false := hk
      refine ⟨dif_neg (by rw [hk]; exact Bool.false_ne_true), ?_⟩
      unfold only
      rw [hw, hprog, update_only_of_drop P.prog hk]
  | start i p =>
      obtain ⟨-, -, -, hprog⟩ := h
      have hk : keep i = false := hk
      refine ⟨dif_neg (by rw [hk]; exact Bool.false_ne_true), ?_⟩
      unfold only
      rw [hw, hprog, update_only_of_drop P.prog hk]

/-- A run in which the other threads have no effect, without the other threads. -/
theorem path_only (keep : ι → Bool) {as : List (Act ι S R α)}
    (h : Path (fun P a Q => Step sem spawn P a Q ∧ (keep a.thread = false → Q.world = P.world))
      P as Q) :
    Path (Step sem fun (i : {i // keep i = true}) p => spawn i p) (P.only keep)
      (as.filterMap (Act.only keep)) (Q.only keep) := by
  induction h with
  | nil => exact Path.nil _
  | @snoc P' Q' as a _ hlast ih =>
      rw [List.filterMap_append]
      cases hk : keep a.thread with
      | true =>
          obtain ⟨b, hb, hstep⟩ := hlast.1.only_of_keep hk
          rw [List.filterMap_cons_some hb]
          exact ih.snoc hstep
      | false =>
          obtain ⟨hnone, hsame⟩ := hlast.1.only_of_drop hk (hlast.2 hk)
          rw [List.filterMap_cons_none hnone, hsame, List.filterMap_nil, List.append_nil]
          exact ih

end Pool

end XrayApi.Transition
