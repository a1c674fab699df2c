import Mathlib.Algebra.BigOperators.Group.Finset.Basic
import Mathlib.Algebra.Order.Group.Defs
import Mathlib.Tactic.Abel
import XrayApi.Transition.Path

/-!
# Lost updates on a shared value

Each client adds an amount to a shared value once: it reads the value and writes, in a later step,
the sum of what it read and its amount. A write that falls between the read and the write of another
client is lost to the value. `Shared.value_eq_sum_iff` says that nothing is lost exactly when the
history has no such overlap.
-/

set_option autoImplicit false

namespace XrayApi.Transition

/-- An entry of a history. -/
inductive Access (ι : Type)
  | read (i : ι)
  | write (i : ι)
  | other
  deriving DecidableEq

variable {ι V : Type}

/-- A write of `j` falls between the read of `i` and its write. -/
def Overlap (h : List (Access ι)) : Prop :=
  ∃ i j, j ≠ i ∧ List.Sublist [.read i, .write j, .write i] h

/-- After the read of `i` another client has written. -/
def Outdated (h : List (Access ι)) (i : ι) : Prop :=
  ∃ j, j ≠ i ∧ List.Sublist [.read i, .write j] h

/-! ## Histories -/

theorem concat_sublist_concat {α : Type} {l r : List α} {a b : α} :
    List.Sublist (l ++ [a]) (r ++ [b]) ↔
      List.Sublist (l ++ [a]) r ∨ (a = b ∧ List.Sublist l r) := by
  constructor
  · intro h
    rw [List.sublist_append_iff] at h
    obtain ⟨l₁, l₂, heq, h₁, h₂⟩ := h
    obtain rfl | rfl := List.sublist_singleton.1 h₂
    · rw [List.append_nil] at heq
      rw [heq]
      exact Or.inl h₁
    · obtain ⟨rfl, hab⟩ := List.append_inj' heq rfl
      rw [List.cons.injEq] at hab
      exact Or.inr ⟨hab.1, h₁⟩
  · rintro (h | ⟨rfl, h⟩)
    · exact h.trans (List.sublist_append_left r [b])
    · exact h.append (List.Sublist.refl [a])

section Histories

variable {h : List (Access ι)} {i j : ι}

theorem overlap_write :
    Overlap (h ++ [Access.write i]) ↔ Overlap h ∨ Outdated h i := by
  have hsplit : ∀ k j : ι, List.Sublist [Access.read k, .write j, .write k]
    (h ++ [Access.write i]) ↔
      List.Sublist [Access.read k, .write j, .write k] h ∨
        (Access.write k = .write i ∧ List.Sublist [Access.read k, .write j] h) := fun k j =>
    concat_sublist_concat (l := [Access.read k, Access.write j])
  unfold Overlap Outdated
  constructor
  · rintro ⟨k, j, hjk, hsub⟩
    obtain hold | ⟨hk, hread⟩ := (hsplit k j).1 hsub
    · exact Or.inl ⟨k, j, hjk, hold⟩
    · cases hk
      exact Or.inr ⟨j, hjk, hread⟩
  · rintro (⟨k, j, hjk, hold⟩ | ⟨j, hj, hsub⟩)
    · exact ⟨k, j, hjk, (hsplit k j).2 (Or.inl hold)⟩
    · exact ⟨i, j, hj, (hsplit i j).2 (Or.inr ⟨rfl, hsub⟩)⟩

theorem outdated_write :
    Outdated (h ++ [Access.write j]) i ↔ Outdated h i ∨ (j ≠ i ∧ .read i ∈ h) := by
  have hsplit : ∀ k : ι, List.Sublist [Access.read i, .write k] (h ++ [Access.write j]) ↔
      List.Sublist [Access.read i, .write k] h ∨
        (Access.write k = .write j ∧ List.Sublist [Access.read i] h) := fun k =>
    concat_sublist_concat (l := [Access.read i])
  unfold Outdated
  constructor
  · rintro ⟨k, hk, hsub⟩
    obtain hold | ⟨hkj, hread⟩ := (hsplit k).1 hsub
    · exact Or.inl ⟨k, hk, hold⟩
    · cases hkj
      exact Or.inr ⟨hk, List.singleton_sublist.1 hread⟩
  · rintro (⟨k, hk, hold⟩ | ⟨hj, hmem⟩)
    · exact ⟨k, hk, (hsplit k).2 (Or.inl hold)⟩
    · exact ⟨j, hj, (hsplit j).2 (Or.inr ⟨rfl, List.singleton_sublist.2 hmem⟩)⟩

/-- An entry that is not a write matters to neither. -/
theorem overlap_concat {x : Access ι} (hx : ∀ k, x ≠ .write k) :
    Overlap (h ++ [x]) ↔ Overlap h := by
  unfold Overlap
  refine exists_congr fun k => exists_congr fun j => and_congr_right fun _ => ?_
  refine (concat_sublist_concat (l := [Access.read k, Access.write j])).trans (or_iff_left ?_)
  exact fun hk => hx k hk.1.symm

theorem outdated_concat {x : Access ι} (hx : ∀ k, x ≠ .write k) :
    Outdated (h ++ [x]) i ↔ Outdated h i := by
  unfold Outdated
  refine exists_congr fun k => and_congr_right fun _ => ?_
  refine (concat_sublist_concat (l := [Access.read i])).trans (or_iff_left ?_)
  exact fun hk => hx k hk.1.symm

theorem Outdated.read_mem (ho : Outdated h i) : .read i ∈ h := by
  obtain ⟨j, -, hsub⟩ := ho
  exact hsub.subset List.mem_cons_self

end Histories

/-! ## The clients -/

/-- Where a client stands. -/
inductive Client (V : Type)
  | idle
  | holding (v : V)
  | done
  | failed

/-- What a client has added. -/
def Client.paid [Zero V] : Client V → V → V
  | done, d => d
  | _, _ => 0

/-- The value and its clients. -/
structure Shared (ι V : Type) where
  value : V
  client : ι → Client V

namespace Shared

/-- The steps of the clients. A client that is done may read again, and one that is not may fail. -/
inductive Step [Add V] (amount : ι → V) : Shared ι V → Access ι → Shared ι V → Prop
  | read {C D : Shared ι V} {i : ι} : C.client i = .idle → D.client i = .holding C.value →
      D.value = C.value → (∀ j, j ≠ i → D.client j = C.client j) → Step amount C (.read i) D
  | write {C D : Shared ι V} {i : ι} {v : V} : C.client i = .holding v → D.client i = .done →
      D.value = v + amount i → (∀ j, j ≠ i → D.client j = C.client j) →
      Step amount C (.write i) D
  | reread {C : Shared ι V} {i : ι} : C.client i = .done → Step amount C (.read i) C
  | fail {C D : Shared ι V} {i : ι} : C.client i ≠ .done → D.client i = .failed →
      D.value = C.value → (∀ j, j ≠ i → D.client j = C.client j) → Step amount C .other D
  | skip {C : Shared ι V} : Step amount C .other C

section Sum

variable [Fintype ι] [DecidableEq ι] [AddCommGroup V] {amount : ι → V} {C D : Shared ι V} {i : ι}

/-- The amounts of the clients that are done. -/
def total (amount : ι → V) (C : Shared ι V) : V :=
  ∑ i, (C.client i).paid (amount i)

/-- The total after a change of one client. -/
theorem total_change (amount : ι → V) (hother : ∀ j, j ≠ i → D.client j = C.client j) :
    D.total amount + (C.client i).paid (amount i) =
      C.total amount + (D.client i).paid (amount i) := by
  have hrest : ∑ j ∈ Finset.univ.erase i, (D.client j).paid (amount j) =
      ∑ j ∈ Finset.univ.erase i, (C.client j).paid (amount j) :=
    Finset.sum_congr rfl fun j hj => by rw [hother j (Finset.ne_of_mem_erase hj)]
  unfold total
  rw [← Finset.add_sum_erase Finset.univ _ (Finset.mem_univ i),
    ← Finset.add_sum_erase Finset.univ (fun j => (C.client j).paid (amount j))
      (Finset.mem_univ i), hrest]
  abel

theorem total_of_unpaid (hother : ∀ j, j ≠ i → D.client j = C.client j)
    (hC : (C.client i).paid (amount i) = 0) (hD : (D.client i).paid (amount i) = 0) :
    D.total amount = C.total amount := by
  have h := total_change amount hother
  rwa [hC, hD, add_zero, add_zero] at h

theorem total_of_done {v : V} (hother : ∀ j, j ≠ i → D.client j = C.client j)
    (hC : C.client i = .holding v) (hD : D.client i = .done) :
    D.total amount = C.total amount + amount i := by
  have h := total_change amount hother
  rw [hC, hD] at h
  simpa only [Client.paid, add_zero] using h

end Sum

section Invariant

variable [Fintype ι] [AddCommGroup V] [LinearOrder V] {amount : ι → V} {v₀ : V}
  {h : List (Access ι)} {C D : Shared ι V} {x : Access ι}

/-- What the steps keep, with the history so far: the value is at most what it should be, and is
what it should be exactly if there was no overlap; a client holds the current value, or another
client has written since. -/
structure Sound (amount : ι → V) (v₀ : V) (h : List (Access ι)) (C : Shared ι V) : Prop where
  unread : ∀ i, C.client i = .idle → .read i ∉ h
  read : ∀ i v, C.client i = .holding v → .read i ∈ h
  grown : v₀ ≤ C.value
  bound : C.value ≤ v₀ + C.total amount
  exact : C.value = v₀ + C.total amount ↔ ¬ Overlap h
  held_bound : ∀ i v, C.client i = .holding v → v₀ ≤ v ∧ v ≤ v₀ + C.total amount
  held_lt : ∀ i v, C.client i = .holding v → Outdated h i → v < v₀ + C.total amount
  held_eq : ∀ i v, C.client i = .holding v → ¬ Outdated h i → v = C.value

theorem sound_init {C : Shared ι V} (hC : ∀ i, C.client i = .idle) :
    Sound amount C.value [] C := by
  have htotal : C.total amount = 0 := by
    unfold total
    exact Finset.sum_eq_zero fun i _ => by rw [hC i]; rfl
  have hno : ∀ i v, C.client i ≠ .holding v := fun i v h => by
    rw [hC i] at h
    cases h
  refine ⟨fun _ _ => List.not_mem_nil, fun i v h => (hno i v h).elim, le_rfl, ?_, ?_,
    fun i v h => (hno i v h).elim, fun i v h => (hno i v h).elim, fun i v h => (hno i v h).elim⟩
  · rw [htotal, add_zero]
  · rw [htotal, add_zero]
    refine iff_of_true rfl ?_
    rintro ⟨i, j, -, hsub⟩
    cases hsub

/-- Entries that are no write, while the value and the total stay. -/
theorem Sound.concat (hC : Sound amount v₀ h C) (hx : ∀ k, x ≠ .write k)
    (hvalue : D.value = C.value) (htotal : D.total amount = C.total amount)
    (hidle : ∀ i, D.client i = .idle → C.client i = .idle ∧ x ≠ .read i)
    (hheld : ∀ i v, D.client i = .holding v →
      C.client i = .holding v ∨ (C.client i = .idle ∧ x = .read i ∧ v = C.value)) :
    Sound amount v₀ (h ++ [x]) D where
  unread i hi := by
    rw [List.mem_append, List.mem_singleton, not_or]
    exact ⟨hC.unread i (hidle i hi).1, (hidle i hi).2.symm⟩
  read i v hi := by
    rw [List.mem_append, List.mem_singleton]
    obtain hold | ⟨-, hread, -⟩ := hheld i v hi
    · exact Or.inl (hC.read i v hold)
    · exact Or.inr hread.symm
  grown := hvalue ▸ hC.grown
  bound := by
    rw [hvalue, htotal]
    exact hC.bound
  exact := by
    rw [hvalue, htotal, overlap_concat hx]
    exact hC.exact
  held_bound i v hi := by
    rw [htotal]
    obtain hold | ⟨-, -, rfl⟩ := hheld i v hi
    · exact hC.held_bound i v hold
    · exact ⟨hC.grown, hC.bound⟩
  held_lt i v hi ho := by
    rw [htotal]
    rw [outdated_concat hx] at ho
    obtain hold | ⟨hidle, -, -⟩ := hheld i v hi
    · exact hC.held_lt i v hold ho
    · exact (hC.unread i hidle ho.read_mem).elim
  held_eq i v hi ho := by
    rw [hvalue]
    rw [outdated_concat hx] at ho
    obtain hold | ⟨-, -, hv⟩ := hheld i v hi
    · exact hC.held_eq i v hold ho
    · exact hv

variable [DecidableEq ι] [IsOrderedAddMonoid V]

/-- A write keeps the invariant: its value is short by what was short when it was read, and by what
has been written since. -/
theorem Sound.write (hC : Sound amount v₀ h C) (hpos : ∀ i, 0 < amount i) {i : ι} {v : V}
    (hi : C.client i = .holding v) (hdone : D.client i = .done) (hvalue : D.value = v + amount i)
    (hother : ∀ j, j ≠ i → D.client j = C.client j) :
    Sound amount v₀ (h ++ [Access.write i]) D := by
  have htotal : D.total amount = C.total amount + amount i := total_of_done hother hi hdone
  obtain ⟨hlow, hup⟩ := hC.held_bound i v hi
  have hkeep : ∀ j v, D.client j = .holding v → j ≠ i ∧ C.client j = .holding v := by
    intro j u hj
    have hne : j ≠ i := by
      rintro rfl
      rw [hdone] at hj
      cases hj
    exact ⟨hne, hother j hne ▸ hj⟩
  refine ⟨fun j hj => ?_, fun j u hj => ?_, ?_, ?_, ?_, fun j u hj => ?_, fun j u hj _ => ?_,
    fun j u hj ho => ?_⟩
  · have hne : j ≠ i := by
      rintro rfl
      rw [hdone] at hj
      cases hj
    rw [hother j hne] at hj
    rw [List.mem_append, List.mem_singleton, not_or]
    exact ⟨hC.unread j hj, fun h => by cases h⟩
  · exact List.mem_append_left _ (hC.read j u (hkeep j u hj).2)
  · rw [hvalue]
    exact hlow.trans (le_add_of_nonneg_right (hpos i).le)
  · rw [hvalue, htotal, ← add_assoc]
    exact add_le_add_left hup _
  · rw [hvalue, htotal, ← add_assoc, add_left_inj, overlap_write, not_or]
    by_cases ho : Outdated h i
    · exact iff_of_false (hC.held_lt i v hi ho).ne fun h => h.2 ho
    · rw [hC.held_eq i v hi ho, hC.exact]
      exact (and_iff_left ho).symm
  · rw [htotal, ← add_assoc]
    obtain ⟨hl, hu⟩ := hC.held_bound j u (hkeep j u hj).2
    exact ⟨hl, hu.trans (le_add_of_nonneg_right (hpos i).le)⟩
  · rw [htotal, ← add_assoc]
    exact lt_add_of_le_of_pos (hC.held_bound j u (hkeep j u hj).2).2 (hpos i)
  · -- every other holder is outdated now
    obtain ⟨hne, hold⟩ := hkeep j u hj
    exact (ho (outdated_write.2 (Or.inr ⟨hne.symm, hC.read j u hold⟩))).elim

theorem Sound.step (hC : Sound amount v₀ h C) (hpos : ∀ i, 0 < amount i)
    (hstep : Step amount C x D) : Sound amount v₀ (h ++ [x]) D := by
  cases hstep with
  | @read _ i hidle hhold hvalue hother =>
      -- the reader holds the value of now; nobody else has moved
      have hcase : ∀ j, j = i ∨ D.client j = C.client j := fun j =>
        (eq_or_ne j i).imp_right (hother j)
      refine hC.concat (fun k h => by cases h) hvalue
        (total_of_unpaid hother (by rw [hidle]; rfl) (by rw [hhold]; rfl)) (fun j hj => ?_)
        fun j v hj => ?_
      · obtain rfl | hsame := hcase j
        · rw [hhold] at hj
          cases hj
        · rw [hsame] at hj
          refine ⟨hj, fun h => ?_⟩
          cases h
          rw [hsame, hj] at hhold
          cases hhold
      · obtain rfl | hsame := hcase j
        · rw [hhold] at hj
          cases hj
          exact Or.inr ⟨hidle, rfl, rfl⟩
        · rw [hsame] at hj
          exact Or.inl hj
  | write hi hdone hvalue hother => exact hC.write hpos hi hdone hvalue hother
  | @reread i hdone =>
      refine hC.concat (fun k h => by cases h) rfl rfl (fun j hj => ⟨hj, fun h => ?_⟩)
        fun j v hj => Or.inl hj
      cases h
      rw [hdone] at hj
      cases hj
  | @fail _ i hnd hfail hvalue hother =>
      have hcase : ∀ j, j = i ∨ D.client j = C.client j := fun j =>
        (eq_or_ne j i).imp_right (hother j)
      -- a client that fails has added nothing, whether it had read or not
      have hunpaid : (C.client i).paid (amount i) = 0 := by
        cases hc : C.client i with
        | done => exact (hnd hc).elim
        | idle => rfl
        | holding v => rfl
        | failed => rfl
      refine hC.concat (fun k h => by cases h) hvalue
        (total_of_unpaid hother hunpaid (by rw [hfail]; rfl)) (fun j hj => ?_) fun j v hj => ?_
      · obtain rfl | hsame := hcase j
        · rw [hfail] at hj
          cases hj
        · rw [hsame] at hj
          exact ⟨hj, fun h => by cases h⟩
      · obtain rfl | hsame := hcase j
        · rw [hfail] at hj
          cases hj
        · rw [hsame] at hj
          exact Or.inl hj
  | skip =>
      exact hC.concat (fun k h => by cases h) rfl rfl (fun j hj => ⟨hj, fun h => by cases h⟩)
        fun j v hj => Or.inl hj

/-- Once every client is done, the value has grown by the sum of the amounts exactly when no write
fell between the read and the write of another client. -/
theorem value_eq_sum_iff (hpos : ∀ i, 0 < amount i) (hinit : ∀ i, C.client i = .idle)
    (hrun : Path (Step amount) C h D) (hdone : ∀ i, D.client i = .done) :
    D.value = C.value + ∑ i, amount i ↔ ¬ Overlap h := by
  have hD : Sound amount C.value h D :=
    hrun.history (fun _ _ _ _ hI hstep => hI.step hpos hstep) (sound_init hinit)
  have htotal : D.total amount = ∑ i, amount i :=
    Finset.sum_congr rfl fun i _ => by rw [hdone i]; rfl
  rw [← htotal]
  exact hD.exact

end Invariant

end Shared

end XrayApi.Transition
