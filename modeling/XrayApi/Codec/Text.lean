import Mathlib.Data.Bool.AllAny
import Mathlib.Data.List.Sort
import XrayApi.Relational.Table

/-!
# Bytes, cuts and maps of text

What the text formats of this directory share. `bytes` is a text in UTF-8 and `ofBytes` reads it
back. `cut` splits a text at the first occurrence of a character, `cutLast` at the last one;
`lastIndex` finds the last occurrence of a separator. Texts joined by a separator are split again
when it is in none of them (`splitOn_intercalate_iff`).
`TextMap` is a map from texts to texts as a list of entries with distinct keys; formats write its
entries in the order of their keys, and a reader finds the same values in that order
(`TextMap.valueOf_sorted`).
-/

set_option autoImplicit false

namespace XrayApi.Codec

open Relational

/-! ## Bytes -/

/-- The text in UTF-8. -/
def bytes (s : String) : List UInt8 := s.toByteArray.data.toList

/-- The text with these bytes, if they are UTF-8. -/
def ofBytes (l : List UInt8) : Option String := String.fromUTF8? ⟨l.toArray⟩

@[simp] theorem ofBytes_bytes (s : String) : ofBytes (bytes s) = some s := by
  unfold ofBytes bytes String.fromUTF8?
  rw [Array.toArray_toList, dif_pos s.isValidUTF8]
  rfl

/-! ## Cuts -/

/-- What stands before and after the first `c`. -/
def cut (c : Char) : List Char → Option (List Char × List Char)
  | [] => none
  | x :: l => if x = c then some ([], l) else (cut c l).map fun p => (x :: p.1, p.2)

theorem cut_append {c : Char} {l : List Char} (h : c ∉ l) (r : List Char) :
    cut c (l ++ c :: r) = some (l, r) := by
  induction l with
  | nil => simp [cut]
  | cons x l ih =>
      rw [List.mem_cons, not_or] at h
      simp [cut, ih h.2, Ne.symm h.1]

theorem cut_eq_none {c : Char} {l : List Char} (h : c ∉ l) : cut c l = none := by
  induction l with
  | nil => rfl
  | cons x l ih =>
      rw [List.mem_cons, not_or] at h
      simp [cut, ih h.2, Ne.symm h.1]

/-- What stands before and after the last `c`. -/
def cutLast (c : Char) : List Char → Option (List Char × List Char)
  | [] => none
  | x :: l =>
    match cutLast c l with
    | some p => some (x :: p.1, p.2)
    | none => if x = c then some ([], l) else none

theorem cutLast_eq_none {c : Char} {l : List Char} (h : c ∉ l) : cutLast c l = none := by
  induction l with
  | nil => rfl
  | cons x l ih =>
      rw [List.mem_cons, not_or] at h
      simp [cutLast, ih h.2, Ne.symm h.1]

theorem cutLast_append {c : Char} {r : List Char} (h : c ∉ r) (l : List Char) :
    cutLast c (l ++ c :: r) = some (l, r) := by
  induction l with
  | nil => simp [cutLast, cutLast_eq_none h]
  | cons x l ih => simp [cutLast, ih]

/-! ## Search -/

section Search

variable {α : Type} [DecidableEq α] {sep l after : List α}

/-- Where the last occurrence of `sep` begins. -/
def lastIndex (sep : List α) : List α → Option Nat
  | [] => if sep = [] then some 0 else none
  | x :: l =>
    match lastIndex sep l with
    | some i => some (i + 1)
    | none => if sep <+: x :: l then some 0 else none

theorem occurs_of_lastIndex {i : Nat} (h : lastIndex sep l = some i) :
    l = l.take i ++ (sep ++ l.drop (i + sep.length)) := by
  induction l generalizing i with
  | nil =>
      rw [lastIndex] at h
      split_ifs at h with hsep
      subst hsep
      simp
  | cons x l ih =>
      rw [lastIndex] at h
      cases hl : lastIndex sep l with
      | some j =>
          rw [hl] at h
          cases h
          rw [Nat.succ_add, List.take_succ_cons, List.drop_succ_cons, List.cons_append, ← ih hl]
      | none =>
          rw [hl] at h
          dsimp only at h
          split_ifs at h with hsep
          cases h
          obtain ⟨r, hr⟩ := hsep
          rw [← hr]
          simp

theorem lastIndex_eq_none (h : ¬ sep <:+: l) : lastIndex sep l = none := by
  induction l with
  | nil =>
      rw [lastIndex, if_neg]
      rintro rfl
      exact h (List.nil_infix)
  | cons x l ih =>
      rw [lastIndex, ih fun hl => h (hl.trans (List.suffix_cons x l).isInfix), if_neg]
      exact fun hsep => h hsep.isInfix

/-- Nothing of what follows is the last symbol of the separator, so it is found where it was put. -/
theorem lastIndex_append {c : α} (hafter : c ∉ after) (before : List α) :
    lastIndex (sep ++ [c]) (before ++ ((sep ++ [c]) ++ after)) = some before.length := by
  induction before with
  | nil =>
      -- a later occurrence would have its last symbol in `after`
      have hlater : ∀ y l, y :: l = (sep ++ [c]) ++ after → ¬ (sep ++ [c]) <:+: l := by
        rintro y _ hy ⟨p, q, rfl⟩
        have hsplit : (y :: (p ++ sep)) ++ (c :: q) = (sep ++ [c]) ++ after := by
          rw [← hy]
          simp
        obtain ⟨r, hr, hq⟩ | ⟨r, hr, hq⟩ := List.append_eq_append_iff.1 hsplit
        · have hlen := congrArg List.length hr
          simp only [List.length_append, List.length_cons, List.length_nil] at hlen
          have hr : r = [] := List.length_eq_zero_iff.1 (by omega)
          rw [hr, List.nil_append] at hq
          exact hafter (hq ▸ List.mem_cons_self)
        · rw [hq] at hafter
          exact hafter (List.mem_append_right _ List.mem_cons_self)
      cases htext : (sep ++ [c]) ++ after with
      | nil => simp at htext
      | cons y l =>
          rw [List.nil_append, lastIndex, lastIndex_eq_none (hlater y l htext.symm)]
          exact if_pos ⟨after, htext⟩
  | cons x before ih =>
      rw [List.cons_append, lastIndex, ih]
      rfl

end Search

/-! ## Lines -/

theorem notMem_of_mem_splitOn {c : Char} {l t : List Char} (h : t ∈ l.splitOn c) : c ∉ t := by
  induction l generalizing t with
  | nil =>
      rw [List.splitOn_nil, List.mem_singleton] at h
      rw [h]
      exact List.not_mem_nil
  | cons x l ih =>
      rw [List.splitOn_cons_eq_if_modifyHead] at h
      split_ifs at h with hx
      · obtain rfl | h := List.mem_cons.1 h
        · exact List.not_mem_nil
        · exact ih h
      · -- `x` goes to the front of the first part of the rest
        cases hl : l.splitOn c with
        | nil => exact (List.splitOn_ne_nil c l hl).elim
        | cons t' ts =>
            rw [hl] at h ih
            obtain rfl | h := List.mem_cons.1 h
            · rw [List.mem_cons, not_or]
              exact ⟨fun heq => hx (beq_iff_eq.2 heq.symm), ih List.mem_cons_self⟩
            · exact ih (List.mem_cons_of_mem _ h)

/-- Texts that were joined are split again exactly when none of them has the separator. -/
theorem splitOn_intercalate_iff {c : Char} {ts : List (List Char)} (h : ts ≠ []) :
    ([c].intercalate ts).splitOn c = ts ↔ ∀ t ∈ ts, c ∉ t :=
  ⟨fun heq _ ht => notMem_of_mem_splitOn (heq ▸ ht), fun hts => List.splitOn_intercalate c hts h⟩

/-! ## Maps -/

/-- A text unless it is empty. -/
def nonempty (s : String) : Option String := if s = "" then none else some s

@[simp] theorem nonempty_bind (s : String) : (nonempty s).bind nonempty = nonempty s := by
  unfold nonempty
  by_cases h : s = "" <;> simp [h]

/-- A map from texts to texts. -/
structure TextMap where
  entries : List (String × String)
  distinct : (entries.map Prod.fst).Nodup

/-- The value of a key in a list of entries. -/
def valueOf (k : String) (l : List (String × String)) : Option String :=
  (lookup Prod.fst k l).map Prod.snd

namespace TextMap

variable {m : TextMap} {k k' v : String}

def empty : TextMap := ⟨[], List.nodup_nil⟩

/-- Set a key; an entry it had is replaced. -/
def set (m : TextMap) (k v : String) : TextMap where
  entries := m.entries.filter (fun e => decide (e.1 ≠ k)) ++ [(k, v)]
  distinct := by
    refine nodup_map_append_singleton (nodup_map_filter m.distinct _) ?_
    rintro h
    obtain ⟨e, he, hk⟩ := List.mem_map.1 h
    simp only [List.mem_filter, decide_eq_true_eq] at he
    exact he.2 hk

def get (m : TextMap) (k : String) : Option String := valueOf k m.entries

@[simp] theorem get_empty : empty.get k = none := rfl

theorem get_set : (m.set k v).get k' = if k' = k then some v else m.get k' := by
  unfold get valueOf set
  rw [lookup_append_singleton]
  by_cases h : k' = k
  · subst h
    have hnone : lookup Prod.fst k' (m.entries.filter fun e => decide (e.1 ≠ k')) = none :=
      lookup_filter_of_drop fun e _ he => by simp [he]
    rw [hnone]
    simp
  · have hkeep : lookup Prod.fst k' (m.entries.filter fun e => decide (e.1 ≠ k)) =
        lookup Prod.fst k' m.entries :=
      lookup_filter_of_keep fun e _ he => by simp [he, h]
    rw [hkeep]
    simp [h, Ne.symm h]

/-- Set a key unless the value is empty. -/
def setNonempty (m : TextMap) (k v : String) : TextMap := if v ≠ "" then m.set k v else m

theorem get_setNonempty :
    (m.setNonempty k v).get k' = if k' = k then (nonempty v).or (m.get k') else m.get k' := by
  unfold setNonempty nonempty
  by_cases hv : v = ""
  · simp [hv]
  · simp [hv, get_set]

/-- The entries in the order of their keys. -/
def sorted (m : TextMap) : List (String × String) :=
  m.entries.insertionSort fun a b => a.1 ≤ b.1

theorem valueOf_sorted : valueOf k m.sorted = m.get k := by
  have hperm : m.sorted.Perm m.entries := List.perm_insertionSort _ _
  have hdistinct : (m.sorted.map Prod.fst).Nodup :=
    (hperm.map Prod.fst).nodup_iff.2 m.distinct
  unfold get valueOf
  congr 1
  cases h : lookup Prod.fst k m.entries with
  | none =>
      rw [lookup_eq_none_iff, (hperm.map Prod.fst).mem_iff]
      exact lookup_eq_none_iff.1 h
  | some e =>
      rw [lookup_eq_some_iff hdistinct, hperm.mem_iff, ← lookup_eq_some_iff m.distinct]
      exact h

end TextMap

end XrayApi.Codec
