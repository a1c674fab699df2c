import Mathlib.Data.List.Infix

/-!
# LIKE patterns

A pattern is read as a list of tokens: `%` stands for any text, `_` for one character, and a
backslash takes the next character as it is. `accepts_contains` is the case that searches are made
for: a text without special characters between two `%` matches exactly the texts that contain it.
-/

set_option autoImplicit false

namespace XrayApi.Codec.Like

/-- A part of a pattern. -/
inductive Token
  | many
  | one
  | lit (c : Char)
  deriving DecidableEq, Repr

/-- The tokens of a pattern; `none` if it ends with a backslash that takes nothing. -/
def parse : List Char → Option (List Token)
  | [] => some []
  | '\\' :: [] => none
  | '\\' :: c :: cs => (parse cs).map (.lit c :: ·)
  | '%' :: cs => (parse cs).map (.many :: ·)
  | '_' :: cs => (parse cs).map (.one :: ·)
  | c :: cs => (parse cs).map (.lit c :: ·)

/-- The text matches the pattern as a whole. -/
def accepts : List Token → List Char → Bool
  | [], s => s.isEmpty
  | .many :: p, s => s.tails.any (accepts p)
  | .one :: p, s =>
    match s with
    | [] => false
    | _ :: s => accepts p s
  | .lit c :: p, s =>
    match s with
    | [] => false
    | d :: s => decide (c = d) && accepts p s

/-- The characters that stand for themselves. -/
def Plain (c : Char) : Prop := c ≠ '\\' ∧ c ≠ '%' ∧ c ≠ '_'

instance Plain.decidable (c : Char) : Decidable (Plain c) := inferInstanceAs (Decidable (_ ∧ _))

/-! ## Reading -/

theorem parse_cons_plain {c : Char} (hc : Plain c) (cs : List Char) :
    parse (c :: cs) = (parse cs).map (.lit c :: ·) := by
  obtain ⟨hescape, hmany, hone⟩ := hc
  rw [parse]
  · exact fun h => (hescape h).elim
  · exact fun _ _ h => (hescape h).elim
  · exact hmany
  · exact hone

/-- Plain characters are read as they are. -/
theorem parse_plain_append {q : List Char} (hq : ∀ c ∈ q, Plain c) (cs : List Char) :
    parse (q ++ cs) = (parse cs).map (q.map Token.lit ++ ·) := by
  induction q with
  | nil => simp
  | cons c q ih =>
      obtain ⟨hc, hq⟩ := List.forall_mem_cons.1 hq
      rw [List.cons_append, parse_cons_plain hc, ih hq, Option.map_map]
      rfl

/-- A pattern that ends with `%` can be read. -/
theorem exists_parse_append_many (cs : List Char) : ∃ p, parse (cs ++ ['%']) = some p := by
  induction cs using parse.induct with
  | case1 => exact ⟨[.many], rfl⟩
  | case2 => exact ⟨[.lit '%'], rfl⟩
  | case3 c cs ih =>
      obtain ⟨p, hp⟩ := ih
      refine ⟨.lit c :: p, ?_⟩
      rw [List.cons_append, List.cons_append, parse, hp]
      rfl
  | case4 cs ih =>
      obtain ⟨p, hp⟩ := ih
      refine ⟨.many :: p, ?_⟩
      rw [List.cons_append, parse, hp]
      rfl
  | case5 cs ih =>
      obtain ⟨p, hp⟩ := ih
      refine ⟨.one :: p, ?_⟩
      rw [List.cons_append, parse, hp]
      rfl
  | case6 c cs hlast hescape hmany hone ih =>
      obtain ⟨p, hp⟩ := ih
      have hc : Plain c := by
        refine ⟨?_, hmany, hone⟩
        -- a backslash is the last character or takes the next one
        rintro rfl
        cases cs with
        | nil => exact hlast rfl rfl
        | cons d ds => exact hescape d ds rfl rfl
      refine ⟨.lit c :: p, ?_⟩
      rw [List.cons_append, parse_cons_plain hc, hp]
      rfl

/-! ## Matching -/

theorem accepts_many {p : List Token} {s : List Char} :
    accepts (.many :: p) s = true ↔ ∃ t, t <:+ s ∧ accepts p t = true := by
  rw [accepts, List.any_eq_true]
  simp only [List.mem_tails]

/-- A text of plain characters matches itself, with what the rest of the pattern matches. -/
theorem accepts_lits_append {q : List Char} {p : List Token} {s : List Char} :
    accepts (q.map Token.lit ++ p) s = true ↔ ∃ t, s = q ++ t ∧ accepts p t = true := by
  induction q generalizing s with
  | nil => exact ⟨fun h => ⟨s, rfl, h⟩, fun ⟨t, ht, h⟩ => ht ▸ h⟩
  | cons c q ih =>
      cases s with
      | nil => simp [accepts]
      | cons d s =>
          rw [List.map_cons, List.cons_append, accepts, Bool.and_eq_true, decide_eq_true_iff, ih]
          constructor
          · rintro ⟨rfl, t, rfl, h⟩
            exact ⟨t, rfl, h⟩
          · rintro ⟨t, ht, h⟩
            obtain ⟨rfl, rfl⟩ := List.cons_eq_cons.1 ht
            exact ⟨rfl, t, rfl, h⟩

/-- A text between two `%` is searched for. -/
theorem accepts_contains {q s : List Char} :
    accepts (.many :: (q.map Token.lit ++ [.many])) s = true ↔ q <:+: s := by
  rw [accepts_many]
  constructor
  · rintro ⟨t, ⟨u, rfl⟩, ht⟩
    obtain ⟨v, rfl, -⟩ := accepts_lits_append.1 ht
    exact ⟨u, v, List.append_assoc u q v⟩
  · rintro ⟨u, v, rfl⟩
    refine ⟨q ++ v, ⟨u, (List.append_assoc u q v).symm⟩, accepts_lits_append.2 ⟨v, rfl, ?_⟩⟩
    exact accepts_many.2 ⟨[], List.nil_suffix, rfl⟩

end XrayApi.Codec.Like
