import Mathlib.Data.Int.Init
import Mathlib.Data.String.Basic
import Mathlib.Logic.Function.Iterate

/-!
# Calendar dates and their texts

The date of a day is found by counting from an epoch, day by day, with the lengths of the months of
the Gregorian calendar; `ofDay_before_ofDay` says that later days have later dates. The text of a
date is `YYYY-MM-DD`. Decimal numbers of a fixed width are compared as texts as they are as numbers
(`pad_append_lt`), so up to the year 9999 texts are in the order of the dates (`text_lt_text`).
-/

set_option autoImplicit false

namespace XrayApi.Codec.Calendar

/-! ## Decimal numbers of a fixed width -/

/-- The last `w` decimal digits. -/
def pad : Nat → Nat → List Char
  | 0, _ => []
  | w + 1, n => pad w (n / 10) ++ [Nat.digitChar (n % 10)]

/-- The number has at most `w` digits. -/
def Fits : Nat → Nat → Prop
  | 0, n => n = 0
  | w + 1, n => Fits w (n / 10)

theorem digitChar_lt {a b : Nat} (ha : a < 10) (hb : b < 10) :
    Nat.digitChar a < Nat.digitChar b ↔ a < b := by
  have h : ∀ a b : Fin 10, Nat.digitChar a < Nat.digitChar b ↔ a < b := by decide
  exact h ⟨a, ha⟩ ⟨b, hb⟩

theorem digitChar_inj {a b : Nat} (ha : a < 10) (hb : b < 10) :
    Nat.digitChar a = Nat.digitChar b ↔ a = b := by
  have h : ∀ a b : Fin 10, Nat.digitChar a = Nat.digitChar b ↔ a = b := by decide
  rw [h ⟨a, ha⟩ ⟨b, hb⟩, Fin.mk.injEq]

/-- Texts that begin with numbers of one width are compared by the numbers first. -/
theorem pad_append_lt {w a b : Nat} (ha : Fits w a) (hb : Fits w b) {s t : List Char} :
    pad w a ++ s < pad w b ++ t ↔ a < b ∨ a = b ∧ s < t := by
  induction w generalizing a b s t with
  | zero =>
      cases ha
      cases hb
      simp [pad]
  | succ w ih =>
      have ha' : a % 10 < 10 := Nat.mod_lt a (by decide)
      have hb' : b % 10 < 10 := Nat.mod_lt b (by decide)
      simp only [pad, List.append_assoc, List.singleton_append]
      rw [ih ha hb, List.cons_lt_cons_iff, digitChar_lt ha' hb', digitChar_inj ha' hb']
      constructor
      · rintro (h | ⟨h, h' | ⟨h', hst⟩⟩)
        · exact Or.inl (by omega)
        · exact Or.inl (by omega)
        · exact Or.inr ⟨by omega, hst⟩
      · rintro (h | ⟨rfl, hst⟩)
        · by_cases hdiv : a / 10 < b / 10
          · exact Or.inl hdiv
          · exact Or.inr ⟨by omega, Or.inl (by omega)⟩
        · exact Or.inr ⟨rfl, Or.inr ⟨rfl, hst⟩⟩

/-! ## Dates -/

/-- A date of the Gregorian calendar. -/
structure Date where
  year : Int
  month : Nat
  day : Nat
  deriving DecidableEq, Repr

def isLeap (year : Int) : Bool :=
  decide (year % 4 = 0 ∧ (year % 100 ≠ 0 ∨ year % 400 = 0))

/-- The length of a month. -/
def daysIn (year : Int) (month : Nat) : Nat :=
  if month = 2 then (if isLeap year then 29 else 28)
  else if month = 4 ∨ month = 6 ∨ month = 9 ∨ month = 11 then 30
  else 31

theorem daysIn_bounds (year : Int) (month : Nat) :
    1 ≤ daysIn year month ∧ daysIn year month ≤ 31 := by
  unfold daysIn
  split_ifs <;> decide

namespace Date

/-- The date of the next day. -/
def next (d : Date) : Date :=
  if d.day < daysIn d.year d.month then { d with day := d.day + 1 }
  else if d.month < 12 then ⟨d.year, d.month + 1, 1⟩
  else ⟨d.year + 1, 1, 1⟩

/-- The date of the day before. -/
def prev (d : Date) : Date :=
  if 1 < d.day then { d with day := d.day - 1 }
  else if 1 < d.month then ⟨d.year, d.month - 1, daysIn d.year (d.month - 1)⟩
  else ⟨d.year - 1, 12, 31⟩

/-- The first date is before the second. -/
def Before (a b : Date) : Prop :=
  a.year < b.year ∨ a.year = b.year ∧ (a.month < b.month ∨ a.month = b.month ∧ a.day < b.day)

/-- The month and the day exist. -/
structure Valid (d : Date) : Prop where
  month_pos : 1 ≤ d.month
  month_le : d.month ≤ 12
  day_pos : 1 ≤ d.day
  day_le : d.day ≤ 31

theorem Before.trans {a b c : Date} (h : a.Before b) (h' : b.Before c) : a.Before c := by
  unfold Before at *
  omega

theorem Before.irrefl (a : Date) : ¬ a.Before a := by
  unfold Before
  omega

theorem before_next (d : Date) : d.Before d.next := by
  unfold next Before
  split_ifs <;> dsimp only <;> omega

theorem prev_before {d : Date} (h : d.Valid) : d.prev.Before d := by
  obtain ⟨h₁, h₂, h₃, h₄⟩ := h
  unfold prev Before
  split_ifs <;> dsimp only <;> omega

theorem Valid.next {d : Date} (h : d.Valid) : d.next.Valid := by
  obtain ⟨h₁, h₂, h₃, h₄⟩ := h
  have hdays := daysIn_bounds d.year d.month
  unfold Date.next
  split_ifs <;> constructor <;> dsimp only <;> omega

theorem Valid.prev {d : Date} (h : d.Valid) : d.prev.Valid := by
  obtain ⟨h₁, h₂, h₃, h₄⟩ := h
  have hdays := daysIn_bounds d.year (d.month - 1)
  unfold Date.prev
  split_ifs <;> constructor <;> dsimp only <;> omega

end Date

/-- The date of day zero. -/
def epoch : Date := ⟨1970, 1, 1⟩

/-- The date of a day, counted from the epoch. -/
def ofDay : Int → Date
  | .ofNat n => Date.next^[n] epoch
  | .negSucc n => Date.prev^[n + 1] epoch

theorem epoch_valid : epoch.Valid := by
  constructor <;> decide

theorem valid_ofDay (z : Int) : (ofDay z).Valid := by
  cases z with
  | ofNat n =>
      induction n with
      | zero => exact epoch_valid
      | succ n ih =>
          change (Date.next^[n + 1] epoch).Valid
          rw [Function.iterate_succ_apply']
          exact ih.next
  | negSucc n =>
      induction n with
      | zero => exact epoch_valid.prev
      | succ n ih =>
          change (Date.prev^[n + 1 + 1] epoch).Valid
          rw [Function.iterate_succ_apply']
          exact ih.prev

/-- The next day has a later date. -/
theorem ofDay_before_succ (z : Int) : (ofDay z).Before (ofDay (z + 1)) := by
  cases z with
  | ofNat n =>
      change (Date.next^[n] epoch).Before (Date.next^[n + 1] epoch)
      rw [Function.iterate_succ_apply']
      exact Date.before_next _
  | negSucc n =>
      cases n with
      | zero => exact Date.prev_before epoch_valid
      | succ n =>
          change (Date.prev^[n + 1 + 1] epoch).Before (ofDay (.negSucc n))
          rw [Function.iterate_succ_apply']
          exact Date.prev_before (valid_ofDay (.negSucc n))

/-- Later days have later dates. -/
theorem ofDay_before_ofDay {y z : Int} (h : y < z) : (ofDay y).Before (ofDay z) := by
  induction z, Int.add_one_le_iff.2 h using Int.leInduction with
  | base => exact ofDay_before_succ y
  | succ z hz ih => exact (ih (Int.add_one_le_iff.1 hz)).trans (ofDay_before_succ z)

/-! ## Texts -/

/-- The year with at least four digits. -/
def yearText (year : Nat) : List Char := if year < 10000 then pad 4 year else Nat.toDigits 10 year

/-- `YYYY-MM-DD`; a year before the first one is not written. -/
def Date.text (d : Date) : String :=
  String.ofList (yearText d.year.toNat ++ '-' :: (pad 2 d.month ++ '-' :: pad 2 d.day))

/-- The year can be written with four digits. -/
def Date.FourDigits (d : Date) : Prop := 0 ≤ d.year ∧ d.year ≤ 9999

/-- Texts are in the order of the dates. -/
theorem text_lt_text {a b : Date} (ha : a.Valid) (hb : b.Valid) (ha' : a.FourDigits)
    (hb' : b.FourDigits) : a.text < b.text ↔ a.Before b := by
  have hfits : ∀ {n}, n ≤ 31 → Fits 2 n := by
    intro n hn
    simp only [Fits]
    omega
  have hyear : ∀ {d : Date}, d.FourDigits → yearText d.year.toNat = pad 4 d.year.toNat ∧
      Fits 4 d.year.toNat := by
    rintro d ⟨h₀, h₁⟩
    refine ⟨if_pos (by omega), ?_⟩
    simp only [Fits]
    omega
  have hmonth : ∀ {d : Date}, d.Valid → Fits 2 d.month :=
    fun h => hfits (h.month_le.trans (by decide))
  have hday : pad 2 a.day < pad 2 b.day ↔ a.day < b.day := by
    have h := pad_append_lt (hfits ha.day_le) (hfits hb.day_le) (s := []) (t := [])
    simpa using h
  have hto : a.year.toNat < b.year.toNat ↔ a.year < b.year := by
    have := ha'.1
    omega
  have hto' : a.year.toNat = b.year.toNat ↔ a.year = b.year := by
    have := ha'.1
    have := hb'.1
    omega
  unfold Date.text Date.Before
  rw [String.lt_iff_toList_lt, String.toList_ofList, String.toList_ofList, (hyear ha').1,
    (hyear hb').1, pad_append_lt (hyear ha').2 (hyear hb').2, List.cons_lt_cons_iff,
    pad_append_lt (hmonth ha) (hmonth hb), List.cons_lt_cons_iff, hday, hto, hto']
  simp

end XrayApi.Codec.Calendar
