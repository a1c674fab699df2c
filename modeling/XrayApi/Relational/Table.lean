import Mathlib.Data.List.Nodup
import Mathlib.Data.List.Pairwise
import Mathlib.Data.List.Perm.Basic

/-!
# Tables as lists of rows

A table is the list of its rows. `updateWhere` is `UPDATE ... WHERE`, `List.filter` is `DELETE`,
`lookup` is a `SELECT` by a key and `UniqueNonNull` is a `UNIQUE` constraint on a nullable column (a
null key clashes with nothing). The lemmas say how the statements act on lookups and that they keep
the constraints.
-/

set_option autoImplicit false

namespace XrayApi.Relational

universe u v w

variable {α : Type u} {κ : Type v} {ν : Type w}

/-- Apply `f` to the rows that satisfy `p`. -/
def updateWhere (p : α → Bool) (f : α → α) (l : List α) : List α :=
  l.map fun r => if p r then f r else r

/-- The first row whose key is `k`. -/
def lookup [DecidableEq κ] (key : α → κ) (k : κ) (l : List α) : Option α :=
  l.find? fun r => decide (key r = k)

/-- The non-null keys are pairwise different. -/
def UniqueNonNull (key : α → Option κ) (l : List α) : Prop :=
  (l.filterMap key).Nodup

instance [DecidableEq κ] (key : α → Option κ) (l : List α) : Decidable (UniqueNonNull key l) :=
  inferInstanceAs (Decidable (List.Nodup _))

/-! ## Updates -/

theorem mem_updateWhere {p : α → Bool} {f : α → α} {l : List α} {r : α} :
    r ∈ updateWhere p f l ↔ ∃ s ∈ l, r = if p s then f s else s := by
  simp only [updateWhere, List.mem_map, eq_comm]

/-- An update that does not touch a column keeps the column. -/
theorem map_updateWhere (p : α → Bool) (f : α → α) (col : α → κ)
    (hf : ∀ r, p r = true → col (f r) = col r) (l : List α) :
    (updateWhere p f l).map col = l.map col := by
  simp only [updateWhere, List.map_map]
  refine List.map_congr_left fun r _ => ?_
  by_cases h : p r = true
  · simp [h, hf r h]
  · simp [h]

theorem filterMap_updateWhere (p : α → Bool) (f : α → α) (col : α → Option κ)
    (hf : ∀ r, p r = true → col (f r) = col r) (l : List α) :
    (updateWhere p f l).filterMap col = l.filterMap col := by
  simp only [updateWhere, List.filterMap_map]
  congr 1
  funext r
  by_cases h : p r = true
  · simp [h, hf r h]
  · simp [h]

/-- An update changes nothing exactly when it keeps the rows it is made on. -/
theorem updateWhere_eq_self_iff {p : α → Bool} {f : α → α} {l : List α} :
    updateWhere p f l = l ↔ ∀ r ∈ l, p r = true → f r = r := by
  constructor
  · intro h r hr hp
    have hid : updateWhere p f l = l.map id := by rw [h, List.map_id]
    have hrow := List.map_inj_left.1 hid r hr
    rwa [if_pos hp] at hrow
  · intro h
    have hid : updateWhere p f l = l.map id := by
      refine List.map_congr_left fun r hr => ?_
      split_ifs with hp
      · exact h r hr hp
      · rfl
    rw [hid, List.map_id]

/-! ## Lookups -/

section Lookup

variable [DecidableEq κ] {key : α → κ} {k : κ} {l : List α} {r : α}

theorem mem_of_lookup (h : lookup key k l = some r) : r ∈ l :=
  List.mem_of_find?_eq_some h

theorem key_of_lookup (h : lookup key k l = some r) : key r = k := by
  have := List.find?_some h
  simpa using this

theorem lookup_eq_none_iff : lookup key k l = none ↔ k ∉ l.map key := by
  simp only [lookup, List.find?_eq_none, List.mem_map, decide_eq_true_eq, not_exists, not_and]

theorem lookup_isSome_iff : (lookup key k l).isSome ↔ k ∈ l.map key := by
  rw [← not_iff_not, Bool.not_eq_true, Option.isSome_eq_false_iff, Option.isNone_iff_eq_none,
    lookup_eq_none_iff]

theorem exists_lookup_of_mem (h : k ∈ l.map key) : ∃ r, lookup key k l = some r :=
  Option.isSome_iff_exists.1 (lookup_isSome_iff.2 h)

/-- With unique keys, a lookup finds the row with the key. -/
theorem lookup_eq_some_iff (hl : (l.map key).Nodup) :
    lookup key k l = some r ↔ r ∈ l ∧ key r = k := by
  constructor
  · exact fun h => ⟨mem_of_lookup h, key_of_lookup h⟩
  · rintro ⟨hr, rfl⟩
    obtain ⟨s, hs⟩ := exists_lookup_of_mem (List.mem_map_of_mem hr : key r ∈ l.map key)
    rw [hs, List.inj_on_of_nodup_map hl (mem_of_lookup hs) hr (key_of_lookup hs)]

/-- A change of every row that keeps the key shows in the row that is found. -/
theorem lookup_map {f : α → α} (hf : ∀ r ∈ l, key (f r) = key r) :
    lookup key k (l.map f) = (lookup key k l).map f := by
  induction l with
  | nil => rfl
  | cons r l ih =>
      have hr : key (f r) = key r := hf r List.mem_cons_self
      have ih := ih fun s hs => hf s (List.mem_cons_of_mem r hs)
      unfold lookup at ih ⊢
      rw [List.map_cons, List.find?_cons, List.find?_cons, hr]
      by_cases h : key r = k
      · simp [h]
      · simp [h, ih]

/-- Lookups after an update that keeps the key. -/
theorem lookup_updateWhere (p : α → Bool) (f : α → α) (hf : ∀ r, p r = true → key (f r) = key r) :
    lookup key k (updateWhere p f l) = (lookup key k l).map fun r => if p r then f r else r := by
  refine lookup_map fun r _ => ?_
  by_cases h : p r = true
  · simp [h, hf r h]
  · simp [h]

/-- Deleting rows with other keys does not change a lookup. -/
theorem lookup_filter_of_keep {p : α → Bool} (h : ∀ r ∈ l, key r = k → p r = true) :
    lookup key k (l.filter p) = lookup key k l := by
  induction l with
  | nil => rfl
  | cons r l ih =>
      have ih' := ih fun s hs => h s (List.mem_cons_of_mem _ hs)
      by_cases hk : key r = k
      · simp [lookup, h r List.mem_cons_self hk, hk]
      · by_cases hp : p r = true
        · simpa [lookup, hp, hk] using ih'
        · simpa [lookup, hp, hk] using ih'

/-- Deleting all rows with the key. -/
theorem lookup_filter_of_drop {p : α → Bool} (h : ∀ r ∈ l, key r = k → p r = false) :
    lookup key k (l.filter p) = none := by
  rw [lookup_eq_none_iff, List.mem_map]
  rintro ⟨r, hr, hk⟩
  obtain ⟨hrl, hp⟩ := List.mem_filter.1 hr
  rw [h r hrl hk] at hp
  exact Bool.false_ne_true hp

/-- An inserted row with a new key is found, and other lookups do not change. -/
theorem lookup_append_singleton (s : α) :
    lookup key k (l ++ [s]) = (lookup key k l).or (if key s = k then some s else none) := by
  by_cases h : key s = k
  · simp [lookup, List.find?_append, h]
  · simp [lookup, List.find?_append, h]

end Lookup

/-! ## Upserts -/

/-- Change the row with the key of `new`; if there is none, `new` is inserted first. -/
def upsert [DecidableEq κ] (key : α → κ) (f : α → α) (new : α) (l : List α) : List α :=
  if key new ∈ l.map key then updateWhere (fun r => decide (key r = key new)) f l else l ++ [f new]

section Upsert

variable [DecidableEq κ] {key : α → κ} {f : α → α} {new : α} {l : List α}

theorem map_upsert (hf : ∀ r, key (f r) = key r) :
    (upsert key f new l).map key =
      if key new ∈ l.map key then l.map key else l.map key ++ [key new] := by
  unfold upsert
  split_ifs with h
  · exact map_updateWhere _ f key (fun r _ => hf r) l
  · rw [List.map_append, List.map_singleton, hf]

theorem mem_map_upsert (hf : ∀ r, key (f r) = key r) {k : κ} :
    k ∈ (upsert key f new l).map key ↔ k ∈ l.map key ∨ k = key new := by
  rw [map_upsert hf]
  split_ifs with h
  · exact ⟨Or.inl, fun hk => hk.elim id fun heq => heq ▸ h⟩
  · rw [List.mem_append, List.mem_singleton]

theorem nodup_map_upsert (hf : ∀ r, key (f r) = key r) (h : (l.map key).Nodup) :
    ((upsert key f new l).map key).Nodup := by
  rw [map_upsert hf]
  split_ifs with hnew
  · exact h
  · exact List.Nodup.append h (List.nodup_singleton _) (by simpa using hnew)

theorem lookup_upsert (hf : ∀ r, key (f r) = key r) {k : κ} :
    lookup key k (upsert key f new l) =
      if k = key new then some (f ((lookup key k l).getD new)) else lookup key k l := by
  unfold upsert
  split_ifs with hnew hk hk
  · -- the row is there
    subst hk
    obtain ⟨r, hr⟩ := exists_lookup_of_mem hnew
    rw [lookup_updateWhere _ f fun r _ => hf r, hr, Option.map_some, Option.getD_some]
    exact congrArg some (if_pos (decide_eq_true (key_of_lookup hr)))
  · rw [lookup_updateWhere _ f fun r _ => hf r]
    cases hr : lookup key k l with
    | none => rfl
    | some r =>
        have hne : ¬ key r = key new := fun heq => hk ((key_of_lookup hr).symm.trans heq)
        rw [Option.map_some, decide_eq_false hne]
        rfl
  · subst hk
    rw [lookup_append_singleton, lookup_eq_none_iff.2 hnew, hf]
    simp
  · rw [lookup_append_singleton, hf]
    simp [Ne.symm hk]

end Upsert

/-! ## Constraints -/

theorem nodup_map_filter {col : α → κ} {l : List α} (h : (l.map col).Nodup) (p : α → Bool) :
    ((l.filter p).map col).Nodup :=
  h.sublist (List.Sublist.map col List.filter_sublist)

/-- Rows computed from some of the rows, with their keys. -/
theorem nodup_map_filterMap {col : α → κ} {l : List α} (h : (l.map col).Nodup)
    {f : α → Option ν} {col' : ν → κ} (hf : ∀ a b, f a = some b → col' b = col a) :
    ((l.filterMap f).map col').Nodup := by
  refine h.sublist ?_
  clear h
  induction l with
  | nil => exact List.Sublist.refl _
  | cons a l ih =>
      cases ha : f a with
      | none =>
          rw [List.filterMap_cons_none ha]
          exact ih.cons (col a)
      | some b =>
          rw [List.filterMap_cons_some ha, List.map_cons, hf a b ha]
          exact ih.cons_cons (col a)

theorem nodup_map_append_singleton {col : α → κ} {l : List α} {s : α} (h : (l.map col).Nodup)
    (hs : col s ∉ l.map col) : ((l ++ [s]).map col).Nodup := by
  rw [List.map_append, List.map_singleton]
  exact List.Nodup.append h (List.nodup_singleton _) (by simpa using hs)

theorem uniqueNonNull_singleton (col : α → Option κ) (r : α) : UniqueNonNull col [r] := by
  unfold UniqueNonNull
  cases h : col r with
  | none => simp [h]
  | some x => simp [h]

theorem UniqueNonNull.filter {col : α → Option κ} {l : List α} (h : UniqueNonNull col l)
    (p : α → Bool) :
    UniqueNonNull col (l.filter p) :=
  List.Nodup.sublist (List.Sublist.filterMap col List.filter_sublist) h

theorem UniqueNonNull.append_singleton {col : α → Option κ} {l : List α} {s : α}
    (h : UniqueNonNull col l)
    (hs : ∀ v, col s = some v → v ∉ l.filterMap col) : UniqueNonNull col (l ++ [s]) := by
  unfold UniqueNonNull at h ⊢
  rw [List.filterMap_append]
  cases hc : col s with
  | none => simpa [hc] using h
  | some v =>
      have hv := hs v hc
      simp only [hc, List.filterMap_cons, List.filterMap_nil]
      exact List.Nodup.append h (List.nodup_singleton _) (by simpa using hv)

theorem uniqueNonNull_iff_pairwise {col : α → Option κ} {l : List α} :
    UniqueNonNull col l ↔ l.Pairwise fun a b => ∀ v, col a = some v → col b ≠ some v := by
  unfold UniqueNonNull List.Nodup
  rw [List.pairwise_filterMap]
  constructor
  · intro h
    refine h.imp fun {a b} hab v ha hb => ?_
    exact hab v ha v hb rfl
  · intro h
    refine h.imp fun {a b} hab v ha v' hb heq => ?_
    exact hab v ha (by rw [hb, heq])

/-- A non-null key identifies its row. -/
theorem UniqueNonNull.eq_of_eq_some {col : α → Option κ} {l : List α} (h : UniqueNonNull col l)
    {a b : α} {v : κ} (ha : a ∈ l) (hb : b ∈ l) (hav : col a = some v) (hbv : col b = some v) :
    a = b := by
  rw [uniqueNonNull_iff_pairwise] at h
  by_contra hne
  have hsymm : Std.Symm fun a b : α => ∀ v, col a = some v → col b ≠ some v :=
    ⟨fun a b hab v hbv hav => hab v hav hbv⟩
  exact h.forall ha hb hne v hav hbv

/-- Rewriting the row with identity `i` keeps a constraint when no other row has the new key. -/
theorem UniqueNonNull.updateWhere_one [DecidableEq ν] {ident : α → ν} {i : ν} {f : α → α}
    {col : α → Option κ} {l : List α} (hid : (l.map ident).Nodup) (h : UniqueNonNull col l)
    (hf : ∀ r ∈ l, ident r = i → ∀ s ∈ l, ident s ≠ i → ∀ v, col (f r) = some v → col s ≠ some v) :
    UniqueNonNull col (updateWhere (fun r => decide (ident r = i)) f l) := by
  rw [uniqueNonNull_iff_pairwise] at h ⊢
  unfold List.Nodup at hid
  rw [List.pairwise_map] at hid
  unfold updateWhere
  rw [List.pairwise_map]
  have hboth := List.Pairwise.and hid h
  refine List.Pairwise.imp_of_mem ?_ hboth
  rintro a b ha hb ⟨hne, hab⟩ v
  by_cases hai : ident a = i
  · have hbi : ident b ≠ i := fun hb' => hne (hai.trans hb'.symm)
    simpa [hai, hbi] using hf a ha hai b hb hbi v
  · by_cases hbi : ident b = i
    · intro hav hbv
      simp only [hai, hbi, decide_true, decide_false, if_true, Bool.false_eq_true, if_false]
        at hav hbv
      exact hf b hb hbi a ha hai v hbv hav
    · simpa [hai, hbi] using hab v

/-- The same for a column without nulls. -/
theorem nodup_map_updateWhere_one [DecidableEq ν] {ident : α → ν} {i : ν} {f : α → α}
    {col : α → κ} {l : List α} (hid : (l.map ident).Nodup) (h : (l.map col).Nodup)
    (hf : ∀ r ∈ l, ident r = i → ∀ s ∈ l, ident s ≠ i → col (f r) ≠ col s) :
    ((updateWhere (fun r => decide (ident r = i)) f l).map col).Nodup := by
  have hu : UniqueNonNull (fun r => some (col r)) l := by
    unfold UniqueNonNull
    simpa [List.filterMap_eq_map'] using h
  have := UniqueNonNull.updateWhere_one (i := i) (f := f) hid hu (by
    intro r hr hri s hs hsi v hv hsv
    simp only [Option.some.injEq] at hv hsv
    exact hf r hr hri s hs hsi (hv.trans hsv.symm))
  unfold UniqueNonNull at this
  simpa [List.filterMap_eq_map'] using this

/-! ## Rows that are dropped or rewritten -/

/-- `l'` is `l` with some rows dropped and others rewritten under the same key. -/
def Thinned (key : α → κ) (l l' : List α) : Prop :=
  ∃ f : α → Option α, (∀ a b, f a = some b → key b = key a) ∧ l' = l.filterMap f

section Thinned

variable {key : α → κ} {l l₁ l₂ : List α}

theorem Thinned.refl (key : α → κ) (l : List α) : Thinned key l l := by
  refine ⟨some, fun a b hab => ?_, List.filterMap_some.symm⟩
  cases hab
  rfl

theorem Thinned.trans (h : Thinned key l l₁) (h' : Thinned key l₁ l₂) : Thinned key l l₂ := by
  obtain ⟨f, hf, rfl⟩ := h
  obtain ⟨g, hg, rfl⟩ := h'
  refine ⟨fun a => (f a).bind g, fun a c hac => ?_, List.filterMap_filterMap⟩
  obtain ⟨b, hb, hc⟩ := Option.bind_eq_some_iff.1 hac
  exact (hg b c hc).trans (hf a b hb)

theorem thinned_filter (key : α → κ) (p : α → Bool) (l : List α) :
    Thinned key l (l.filter p) := by
  refine ⟨Option.guard p, fun a b hab => ?_, ?_⟩
  · rw [(Option.guard_eq_some_iff.1 hab).1]
  · rw [← List.filterMap_eq_filter]

theorem thinned_updateWhere {f : α → α} (p : α → Bool) (hf : ∀ r, key (f r) = key r)
    (l : List α) : Thinned key l (updateWhere p f l) := by
  refine ⟨fun r => some (if p r then f r else r), fun a b hab => ?_, ?_⟩
  · cases hab
    split_ifs with hp
    · exact hf a
    · rfl
  · rw [List.filterMap_eq_map', updateWhere]

variable [DecidableEq κ]

theorem lookup_filterMap {f : α → Option α} (hf : ∀ a b, f a = some b → key b = key a)
    (hl : (l.map key).Nodup) (k : κ) :
    lookup key k (l.filterMap f) = (lookup key k l).bind f := by
  have hl' : ((l.filterMap f).map key).Nodup := nodup_map_filterMap hl hf
  refine Option.ext fun b => ?_
  rw [lookup_eq_some_iff hl', List.mem_filterMap, Option.bind_eq_some_iff]
  constructor
  · rintro ⟨⟨a, ha, hab⟩, rfl⟩
    exact ⟨a, (lookup_eq_some_iff hl).2 ⟨ha, (hf a b hab).symm⟩, hab⟩
  · rintro ⟨a, ha, hab⟩
    obtain ⟨hmem, rfl⟩ := (lookup_eq_some_iff hl).1 ha
    exact ⟨⟨a, hmem, hab⟩, hf a b hab⟩

/-- What is left of a table is determined by the rows that are found in it. -/
theorem Thinned.ext (hl : (l.map key).Nodup) (h₁ : Thinned key l l₁) (h₂ : Thinned key l l₂)
    (h : ∀ k, lookup key k l₁ = lookup key k l₂) : l₁ = l₂ := by
  obtain ⟨f, hf, rfl⟩ := h₁
  obtain ⟨g, hg, rfl⟩ := h₂
  refine List.filterMap_congr fun a ha => ?_
  have hrow := h (key a)
  rw [lookup_filterMap hf hl, lookup_filterMap hg hl,
    (lookup_eq_some_iff hl).2 ⟨ha, rfl⟩] at hrow
  exact hrow

end Thinned

end XrayApi.Relational
