import XrayApi.Codec.Like
import XrayApi.Relational.Page
import XrayApi.Store.Queries

/-!
# The listing of users

`Store.ListUsers`: a count and a page of the users that a filter selects, the newest first. The
column `created_at` of `users` is given as a function of the id. `lower` is the mapping to lower
case that `ILIKE` uses, character by character.
-/

set_option autoImplicit false

namespace XrayApi.Store

open XrayApi.Relational XrayApi.Codec

/-- The text of a status in the column `status`. -/
def statusText : UserStatus → String
  | .active => "active"
  | .suspended => "suspended"
  | .expired => "expired"
  | .disabled => "disabled"
  | .other text => text

/-- The filter of `ListUsers`; an empty text selects all. -/
structure UserFilter where
  status : String
  planID : String
  query : String
  limit : Int64
  offset : Int64
  deriving DecidableEq, Repr

/-- `s ILIKE pattern`. -/
def ilike (lower : Char → Char) (pattern s : List Char) : Option Bool :=
  (Like.parse (pattern.map lower)).map fun p => Like.accepts p (s.map lower)

namespace UserFilter

variable (lower : Char → Char) (f : UserFilter)

/-- `"%" + f.Query + "%"`. -/
def pattern : List Char := '%' :: (f.query.toList ++ ['%'])

/-- The `WHERE` clause. A pattern that cannot be read would be an error; this one always can. -/
def selects (u : User) : Bool :=
  decide (f.status = "" ∨ statusText u.status = f.status) &&
    decide (f.planID = "" ∨ u.planID = some f.planID) &&
    (decide (f.query = "") || (ilike lower f.pattern u.email.toList).getD false ||
      (ilike lower f.pattern u.note.toList).getD false)

/-- The users that the filter selects. -/
def selected (t : Tables) : List User := t.users.filter (f.selects lower)

/-- The limit, with its default. -/
def rowLimit : Nat := if f.limit ≤ 0 then 50 else f.limit.toInt.toNat

end UserFilter

/-- `SELECT count(*)`. -/
def countUsers (lower : Char → Char) (t : Tables) (f : UserFilter) : Nat :=
  (f.selected lower t).length

def negativeOffset : StoreErr := .internal "OFFSET must not be negative"

/-- What `SELECT ... ORDER BY created_at DESC LIMIT ... OFFSET ...` may answer. -/
def SelectsUsers (lower : Char → Char) (t : Tables) (created : ID → Time) (f : UserFilter) :
    Except StoreErr (List User) → Prop
  | .error e => f.offset < 0 ∧ e = negativeOffset
  | .ok rows => 0 ≤ f.offset ∧ ∃ l, Ranked (fun u => created u.id) (f.selected lower t) l ∧
      rows = slice f.offset.toInt.toNat f.rowLimit l

/-- The answer with the users of one time in table order. -/
def selectUsers (lower : Char → Char) (t : Tables) (created : ID → Time) (f : UserFilter) :
    Except StoreErr (List User) :=
  if f.offset < 0 then .error negativeOffset
  else .ok (slice f.offset.toInt.toNat f.rowLimit
    (rankSort (fun u => created u.id) (f.selected lower t)))

theorem selectsUsers_selectUsers (lower : Char → Char) (t : Tables) (created : ID → Time)
    (f : UserFilter) : SelectsUsers lower t created f (selectUsers lower t created f) := by
  unfold selectUsers
  split_ifs with h
  · exact ⟨h, rfl⟩
  · exact ⟨Int64.not_lt.1 h, _, ranked_rankSort _ _, rfl⟩

/-! ## The search -/

section Search

variable {lower : Char → Char} {f : UserFilter}

/-- Lower case leaves the special characters of patterns alone, and makes no others. -/
structure KeepsSpecial (lower : Char → Char) : Prop where
  fixed : ∀ c, ¬ Like.Plain c → lower c = c
  plain : ∀ c, Like.Plain c → Like.Plain (lower c)

theorem KeepsSpecial.many (h : KeepsSpecial lower) : lower '%' = '%' := h.fixed '%' (by decide)

/-- The pattern of a filter can be read. -/
theorem exists_ilike_pattern (hmany : lower '%' = '%') (s : List Char) :
    ∃ b, ilike lower f.pattern s = some b := by
  obtain ⟨p, hp⟩ := Like.exists_parse_append_many ('%' :: f.query.toList.map lower)
  refine ⟨Like.accepts p (s.map lower), ?_⟩
  unfold ilike UserFilter.pattern
  rw [List.map_cons, List.map_append, List.map_cons, List.map_nil, hmany, ← List.cons_append, hp]
  rfl

/-- A query of plain characters is searched for, whatever the case of its letters. -/
theorem ilike_pattern_plain (hlower : KeepsSpecial lower)
    (hplain : ∀ c ∈ f.query.toList, Like.Plain c) (s : List Char) :
    (ilike lower f.pattern s).getD false = true ↔
      f.query.toList.map lower <:+: s.map lower := by
  have hparse : Like.parse (f.pattern.map lower) =
      some (.many :: (f.query.toList.map lower).map Like.Token.lit ++ [.many]) := by
    have hquery : ∀ c ∈ f.query.toList.map lower, Like.Plain c := by
      intro c hc
      obtain ⟨d, hd, rfl⟩ := List.mem_map.1 hc
      exact hlower.plain d (hplain d hd)
    unfold UserFilter.pattern
    rw [List.map_cons, List.map_append, List.map_cons, List.map_nil, hlower.many, Like.parse,
      Like.parse_plain_append hquery]
    rfl
  unfold ilike
  rw [hparse]
  exact Like.accepts_contains

/-- The pattern of a query can always be read. A query of plain characters lists the users of the
status and the plan whose email or note contains it, whatever the case of the letters. -/
theorem mem_selected_iff (lower : Char → Char) (hlower : KeepsSpecial lower) (f : UserFilter) :
    (∀ s, ∃ b, ilike lower f.pattern s = some b) ∧
      ((∀ c ∈ f.query.toList, Like.Plain c) → ∀ (t : Tables) (u : User),
        (u ∈ f.selected lower t ↔ u ∈ t.users ∧
          (f.status = "" ∨ statusText u.status = f.status) ∧
          (f.planID = "" ∨ u.planID = some f.planID) ∧
          (f.query.toList.map lower <:+: u.email.toList.map lower ∨
            f.query.toList.map lower <:+: u.note.toList.map lower))) := by
  refine ⟨exists_ilike_pattern hlower.many, fun hplain t u => ?_⟩
  have hquery : f.query = "" → f.query.toList.map lower <:+: u.email.toList.map lower := by
    intro h
    rw [h]
    exact List.nil_infix
  unfold UserFilter.selected UserFilter.selects
  rw [List.mem_filter, Bool.and_eq_true, Bool.and_eq_true, decide_eq_true_iff, decide_eq_true_iff,
    Bool.or_eq_true, Bool.or_eq_true, decide_eq_true_iff, ilike_pattern_plain hlower hplain,
    ilike_pattern_plain hlower hplain, and_assoc, or_iff_right_of_imp (a := f.query = "") hquery]

theorem keepsSpecial_toLower : KeepsSpecial Char.toLower := by
  refine ⟨fun c hc => ?_, fun c hc => ?_⟩
  · obtain rfl | rfl | rfl : c = '\\' ∨ c = '%' ∨ c = '_' := by
      by_contra h
      obtain ⟨hescape, h⟩ := not_or.1 h
      exact hc ⟨hescape, not_or.1 h⟩
    all_goals rfl
  · unfold Char.toLower
    split_ifs with hupper
    · -- a letter becomes one of a higher code than the special characters
      have hmin : 65 ≤ c.val.toNat := hupper.1
      have hmax : c.val.toNat ≤ 90 := hupper.2
      have hval : (c.val + ('a'.val - 'A'.val)).toNat = c.val.toNat + 32 := by
        rw [UInt32.toNat_add]
        change (c.val.toNat + 32) % 2 ^ 32 = _
        omega
      have hne : ∀ d : Char, d.val.toNat < 97 →
          ∀ h, (⟨c.val + ('a'.val - 'A'.val), h⟩ : Char) ≠ d := by
        rintro d hd h rfl
        simp only [hval] at hd
        omega
      exact ⟨hne _ (by decide) _, hne _ (by decide) _, hne _ (by decide) _⟩
    · exact hc

/-- `ALI` finds Alice and not Bob. -/
theorem mem_selected_iff_alice :
    let f : UserFilter := ⟨"", "", "ALI", 0, 0⟩
    let alice : User := .plain "u1" "Alice@example.com"
    let bob : User := .plain "u2" "bob@example.com"
    alice ∈ f.selected Char.toLower { Tables.empty with users := [alice, bob] } ∧
      bob ∉ f.selected Char.toLower { Tables.empty with users := [alice, bob] } := by
  intro f alice bob
  have hplain : ∀ c ∈ f.query.toList, Like.Plain c := by
    intro c hc
    obtain rfl | rfl | rfl : c = 'A' ∨ c = 'L' ∨ c = 'I' := by
      simpa [f] using hc
    all_goals decide
  have hfinds := (mem_selected_iff Char.toLower keepsSpecial_toLower f).2 hplain
  refine ⟨?_, ?_⟩
  · refine (hfinds _ _).2 ⟨List.mem_cons_self, .inl rfl, .inl rfl, .inl ?_⟩
    decide
  · intro h
    obtain ⟨-, -, -, hfound⟩ := (hfinds _ _).1 h
    revert hfound
    decide

end Search

end XrayApi.Store
