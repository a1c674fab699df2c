import Mathlib.Algebra.BigOperators.Group.List.Basic
import Mathlib.Algebra.Order.Ring.Int
import Mathlib.Data.List.Dedup
import Mathlib.Data.List.Sort

/-!
# Grouped sums

`groups key rows` is `SELECT key, ... GROUP BY key ORDER BY key`: each key of the rows once, in
ascending order, with its rows. A column is summed over a list of rows by `total`; the totals of the
groups add up to the total of all rows, whatever they are grouped by (`sum_total_groups`).
-/

set_option autoImplicit false

namespace XrayApi.Relational

universe u v

variable {α : Type u} {κ : Type v}

/-- `SELECT sum(col)`; zero for no rows. -/
def total (col : α → Int) (rows : List α) : Int := (rows.map col).sum

@[simp] theorem total_nil (col : α → Int) : total col [] = 0 := rfl

@[simp] theorem total_cons (col : α → Int) (r : α) (rows : List α) :
    total col (r :: rows) = col r + total col rows := by
  simp [total]

@[simp] theorem total_append (col : α → Int) (rows rows' : List α) :
    total col (rows ++ rows') = total col rows + total col rows' := by
  simp [total]

variable [LinearOrder κ]

/-- The keys of the rows, each once, in ascending order. -/
def groupKeys (key : α → κ) (rows : List α) : List κ :=
  (rows.map key).dedup.insertionSort (· ≤ ·)

/-- The rows of one key. -/
def group (key : α → κ) (rows : List α) (k : κ) : List α :=
  rows.filter fun r => decide (key r = k)

/-- Each key with its rows. -/
def groups (key : α → κ) (rows : List α) : List (κ × List α) :=
  (groupKeys key rows).map fun k => (k, group key rows k)

section Facts

variable {key : α → κ} {rows : List α}

theorem mem_groupKeys {k : κ} : k ∈ groupKeys key rows ↔ ∃ r ∈ rows, key r = k := by
  rw [groupKeys, List.mem_insertionSort, List.mem_dedup, List.mem_map]

theorem nodup_groupKeys : (groupKeys key rows).Nodup :=
  (List.perm_insertionSort _ _).nodup_iff.2 (List.nodup_dedup _)

/-- The keys are strictly ascending. -/
theorem groupKeys_ascending : (groupKeys key rows).Pairwise (· < ·) := by
  have hle : (groupKeys key rows).Pairwise (· ≤ ·) := List.pairwise_insertionSort _ _
  refine (hle.and nodup_groupKeys).imp ?_
  rintro a b ⟨hab, hne⟩
  exact lt_of_le_of_ne hab hne

/-- Keys that are renamed in their order. -/
theorem groupKeys_map {κ' : Type v} [LinearOrder κ'] (key : α → κ) (f : κ → κ')
    (hf : ∀ a ∈ rows, ∀ b ∈ rows, key a < key b → f (key a) < f (key b)) :
    groupKeys (fun r => f (key r)) rows = (groupKeys key rows).map f := by
  have hmap : ((groupKeys key rows).map f).Pairwise (· < ·) := by
    rw [List.pairwise_map]
    refine groupKeys_ascending.imp_of_mem fun hk hk' hlt => ?_
    obtain ⟨a, ha, rfl⟩ := mem_groupKeys.1 hk
    obtain ⟨b, hb, rfl⟩ := mem_groupKeys.1 hk'
    exact hf a ha b hb hlt
  -- both are strictly ascending and have the same members
  refine List.Perm.eq_of_pairwise (fun a b _ _ hab hba => (lt_asymm hab hba).elim)
    groupKeys_ascending hmap ?_
  refine (List.perm_ext_iff_of_nodup nodup_groupKeys (hmap.imp ne_of_lt)).2 fun k => ?_
  rw [mem_groupKeys, List.mem_map]
  constructor
  · rintro ⟨r, hr, rfl⟩
    exact ⟨key r, mem_groupKeys.2 ⟨r, hr, rfl⟩, rfl⟩
  · rintro ⟨_, hk, rfl⟩
    obtain ⟨r, hr, rfl⟩ := mem_groupKeys.1 hk
    exact ⟨r, hr, rfl⟩

/-- A group under its new name. -/
theorem group_map {κ' : Type v} [LinearOrder κ'] (key : α → κ) (f : κ → κ') {k : κ}
    (hf : ∀ r ∈ rows, f (key r) = f k → key r = k) :
    group (fun r => f (key r)) rows (f k) = group key rows k := by
  refine List.filter_congr fun r hr => ?_
  exact decide_eq_decide.2 ⟨hf r hr, congrArg f⟩

theorem map_fst_groups : (groups key rows).map Prod.fst = groupKeys key rows := by
  rw [groups, List.map_map]
  exact List.map_id _

/-- A row counts in the group of its own key. -/
theorem sum_total_group_cons {ks : List κ} (hks : ks.Nodup) (col : α → Int) {r : α}
    (hr : key r ∈ ks) :
    (ks.map fun k => total col (group key (r :: rows) k)).sum =
      col r + (ks.map fun k => total col (group key rows k)).sum := by
  have hcons : ∀ k, total col (group key (r :: rows) k) =
      (if k = key r then col r else 0) + total col (group key rows k) := by
    intro k
    unfold group
    rw [List.filter_cons]
    by_cases hk : k = key r
    · simp [hk]
    · simp [hk, Ne.symm hk]
  simp only [hcons, List.sum_map_add]
  rw [List.sum_map_ite_eq, List.count_eq_one_of_mem hks hr]
  simp

/-- The groups add up. -/
theorem sum_total_groups (key : α → κ) (col : α → Int) (rows : List α) :
    ((groups key rows).map fun g => total col g.2).sum = total col rows := by
  -- more generally, over any list that has every key once
  have hgeneral : ∀ {ks : List κ}, ks.Nodup → ∀ rows : List α, (∀ r ∈ rows, key r ∈ ks) →
      (ks.map fun k => total col (group key rows k)).sum = total col rows := by
    intro ks hks rows
    induction rows with
    | nil =>
        intro _
        simp [group]
    | cons r rows ih =>
        intro hmem
        obtain ⟨hr, hrows⟩ := List.forall_mem_cons.1 hmem
        rw [sum_total_group_cons hks col hr, ih hrows, total_cons]
  rw [groups, List.map_map]
  exact hgeneral nodup_groupKeys rows fun r hr => mem_groupKeys.2 ⟨r, hr, rfl⟩

/-- A list with one entry for each key adds up to all rows, if each entry is the total of its
key. -/
theorem sum_eq_total {β : Type v} {bs : List β} {keyOf : β → κ} {f : β → Int} {col : α → Int}
    (hkeys : bs.map keyOf = groupKeys key rows)
    (hf : ∀ b ∈ bs, f b = total col (group key rows (keyOf b))) :
    (bs.map f).sum = total col rows := by
  have hcols : bs.map f = (bs.map keyOf).map fun k => total col (group key rows k) := by
    rw [List.map_map]
    exact List.map_congr_left hf
  have hsum := sum_total_groups key col rows
  rw [groups, List.map_map] at hsum
  rw [hcols, hkeys]
  exact hsum

end Facts

end XrayApi.Relational
