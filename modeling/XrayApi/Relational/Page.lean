import Mathlib.Data.List.Sort

/-!
# Listings read page by page

`Ranked rank rows l` says that `l` is the answer of `SELECT ... ORDER BY rank DESC` on `rows`; rows
of the same rank come in any order. A page is a slice of such an answer.

A client that reads page after page sees a table that changes under it. `Scan` is that reading:
between two reads the table may grow by rows of a higher rank, which come first and so push the
others to later places. A row is then read twice at times, but none of the rows that were there at
the start is missed: each of them has been read or lies ahead (`Scan.Covers`), and once a page is
not full, all of them have been read (`Scan.Covers.complete`).
-/

set_option autoImplicit false

namespace XrayApi.Relational

universe u v

variable {α : Type u} {ρ : Type v} [LinearOrder ρ] {rank : α → ρ}

/-- `l` has the rows in descending order of rank. -/
structure Ranked (rank : α → ρ) (rows l : List α) : Prop where
  perm : l.Perm rows
  descending : l.Pairwise fun a b => rank b ≤ rank a

/-- `LIMIT limit OFFSET offset`. -/
def slice (offset limit : Nat) (l : List α) : List α := (l.drop offset).take limit

/-- The rows in descending order of rank, those of the same rank in table order. -/
def rankSort (rank : α → ρ) (rows : List α) : List α :=
  rows.insertionSort fun a b => rank b ≤ rank a

theorem ranked_rankSort (rank : α → ρ) (rows : List α) : Ranked rank rows (rankSort rank rows) := by
  have htotal : Std.Total fun a b => rank b ≤ rank a := ⟨fun a b => le_total (rank b) (rank a)⟩
  have htrans : IsTrans α fun a b => rank b ≤ rank a := ⟨fun _ _ _ hab hbc => hbc.trans hab⟩
  exact ⟨List.perm_insertionSort _ rows, List.pairwise_insertionSort _ rows⟩

section Order

variable {rows rows' l l' : List α}

/-- With pairwise different ranks there is one order. -/
theorem Ranked.unique (hrows : (rows.map rank).Nodup) (h : Ranked rank rows l)
    (h' : Ranked rank rows l') : l = l' := by
  refine List.Perm.eq_of_pairwise (fun a b ha hb hab hba => ?_) h.descending h'.descending
    (h.perm.trans h'.perm.symm)
  have heq : rank a = rank b := le_antisymm hba hab
  exact List.inj_on_of_nodup_map hrows (h.perm.mem_iff.1 ha) (h'.perm.mem_iff.1 hb) heq

/-- `rows'` has the rows and new ones of a higher rank. -/
structure Grows (rank : α → ρ) (rows rows' : List α) : Prop where
  distinct : (rows'.map rank).Nodup
  newer : ∃ new, rows'.Perm (new ++ rows) ∧ ∀ a ∈ new, ∀ b ∈ rows, rank b < rank a

/-- The new rows come first. -/
theorem Grows.ranked (h : Grows rank rows rows') (hl : Ranked rank rows l)
    (hl' : Ranked rank rows' l') : ∃ new, l' = new ++ l := by
  obtain ⟨new, hperm, hnewer⟩ := h.newer
  obtain ⟨hnew, hsorted⟩ := ranked_rankSort rank new
  refine ⟨rankSort rank new, Ranked.unique h.distinct hl' ⟨?_, ?_⟩⟩
  · exact (hnew.append hl.perm).trans hperm.symm
  · refine List.pairwise_append.2 ⟨hsorted, hl.descending, fun a ha b hb => ?_⟩
    exact (hnewer a (hnew.mem_iff.1 ha) b (hl.perm.mem_iff.1 hb)).le

end Order

/-! ## Scans -/

/-- A table that is read page by page: its rows, the number of pages read and what they had. -/
structure Scan (α : Type u) where
  rows : List α
  pages : Nat
  seen : List α

namespace Scan

/-- One step of a scan. -/
inductive Act (α : Type u)
  | read (page : List α)
  | grow (rows : List α)

/-- The next page is read, or the table grows. -/
def Step (rank : α → ρ) (size : Nat) (s : Scan α) : Act α → Scan α → Prop
  | .read page, s' => ∃ l, Ranked rank s.rows l ∧ page = slice (s.pages * size) size l ∧
      s' = ⟨s.rows, s.pages + 1, s.seen ++ page⟩
  | .grow rows, s' => Grows rank s.rows rows ∧ s' = { s with rows := rows }

/-- The scan of a table before its first page. -/
def start (rows : List α) : Scan α := ⟨rows, 0, []⟩

/-- Each of the rows has been seen, or is on a page that is still to come. -/
structure Covers (rank : α → ρ) (size : Nat) (rows : List α) (s : Scan α) : Prop where
  distinct : (s.rows.map rank).Nodup
  ahead : ∀ l, Ranked rank s.rows l → ∀ x ∈ rows, x ∈ s.seen ∨ x ∈ l.drop (s.pages * size)

variable {size : Nat} {rows : List α} {s s' : Scan α}

theorem covers_start (hrows : (rows.map rank).Nodup) : Covers rank size rows (start rows) where
  distinct := hrows
  ahead l hl x hx := by
    refine Or.inr ?_
    rw [start, Nat.zero_mul, List.drop_zero]
    exact hl.perm.mem_iff.2 hx

/-- What is on the page has been seen; the rest comes later. -/
theorem Covers.read (h : Covers rank size rows s) {page : List α}
    (hstep : Step rank size s (.read page) s') : Covers rank size rows s' := by
  obtain ⟨l, hl, rfl, rfl⟩ := hstep
  refine ⟨h.distinct, fun l' hl' x hx => ?_⟩
  have heq : l' = l := Ranked.unique h.distinct hl' hl
  subst heq
  obtain hseen | hahead := h.ahead l' hl' x hx
  · exact Or.inl (List.mem_append_left _ hseen)
  · rw [← List.take_append_drop size (l'.drop (s.pages * size)), List.drop_drop] at hahead
    obtain hpage | hlater := List.mem_append.1 hahead
    · exact Or.inl (List.mem_append_right _ hpage)
    · refine Or.inr ?_
      rw [Nat.add_one_mul]
      exact hlater

/-- New rows push the others back, never forward. -/
theorem Covers.grow (h : Covers rank size rows s) {rows' : List α}
    (hstep : Step rank size s (.grow rows') s') : Covers rank size rows s' := by
  obtain ⟨hgrows, rfl⟩ := hstep
  refine ⟨hgrows.distinct, fun l' hl' x hx => ?_⟩
  have hl := ranked_rankSort rank s.rows
  obtain ⟨new, rfl⟩ := hgrows.ranked hl hl'
  refine (h.ahead _ hl x hx).imp_right fun hahead => ?_
  rw [List.drop_append]
  exact List.mem_append_right _ (List.drop_subset_drop_left _ (Nat.sub_le _ _) hahead)

/-- Only the ranks of the rows count. -/
theorem Covers.congr {rank' : α → ρ} (h : Covers rank size rows s)
    (hrank : ∀ x ∈ s.rows, rank' x = rank x) : Covers rank' size rows s := by
  refine ⟨?_, fun l hl x hx => h.ahead l ⟨hl.perm, ?_⟩ x hx⟩
  · rw [List.map_congr_left hrank]
    exact h.distinct
  · refine hl.descending.imp_of_mem fun ha hb hle => ?_
    rw [hrank _ (hl.perm.mem_iff.1 ha), hrank _ (hl.perm.mem_iff.1 hb)] at hle
    exact hle

/-- When a page is not full, nothing lies ahead. -/
theorem Covers.complete (h : Covers rank size rows s) {page : List α}
    (hstep : Step rank size s (.read page) s') (hshort : page.length < size) :
    ∀ x ∈ rows, x ∈ s'.seen := by
  have hcovers := h.read hstep
  obtain ⟨l, hl, rfl, rfl⟩ := hstep
  intro x hx
  refine (hcovers.ahead l hl x hx).resolve_right fun hahead => ?_
  have hlen : l.length ≤ (s.pages + 1) * size := by
    rw [slice, List.length_take, List.length_drop] at hshort
    rw [Nat.add_one_mul]
    omega
  dsimp only at hahead
  rw [List.drop_eq_nil_of_le hlen] at hahead
  exact List.not_mem_nil hahead

end Scan

end XrayApi.Relational
