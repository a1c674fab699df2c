import XrayApi.Codec.Text

/-!
# Base64

Three bytes are four digits of six bits; a last group of one or two bytes has two or three digits.
`Alphabet` is the choice of characters for the digits. The standard alphabet ends in `+` and `/`,
the one for URLs in `-` and `_`; the standard encoding is padded to a multiple of four characters.
Decoding undoes either (`decode_encode`, `decodePadded_encodePadded`).
-/

set_option autoImplicit false

namespace XrayApi.Codec.Base64

/-- The two alphabets. -/
inductive Alphabet
  | std
  | url
  deriving DecidableEq

namespace Alphabet

/-- The last two characters. -/
def last : Alphabet → Char × Char
  | std => ('+', '/')
  | url => ('-', '_')

/-- The character of a digit below 64. -/
def char (a : Alphabet) (n : Nat) : Char :=
  if n < 26 then Char.ofNat (65 + n)
  else if n < 52 then Char.ofNat (71 + n)
  else if n < 62 then Char.ofNat (n - 4)
  else if n = 62 then a.last.1
  else a.last.2

/-- The digit of a character. -/
def digit (a : Alphabet) (c : Char) : Option Nat :=
  if c.isUpper then some (c.toNat - 65)
  else if c.isLower then some (c.toNat - 71)
  else if c.isDigit then some (c.toNat + 4)
  else if c = a.last.1 then some 62
  else if c = a.last.2 then some 63
  else none

theorem digit_char (a : Alphabet) {n : Nat} (h : n < 64) : a.digit (a.char n) = some n := by
  have hall : ∀ n < 64, a.digit (a.char n) = some n := by
    cases a with
    | std => decide
    | url => decide
  exact hall n h

/-- The characters of the alphabet for URLs mean nothing in a URL. -/
theorem char_url_ne {c : Char} (hc : c ∈ ['@', ':', '/', '?', '#']) {n : Nat} (h : n < 64) :
    url.char n ≠ c := by
  have hall : ∀ c ∈ ['@', ':', '/', '?', '#'], ∀ n < 64, url.char n ≠ c :=
    List.all_iff_forall_prop.1 (by decide)
  exact hall c hc n h

theorem char_std_ne_pad {n : Nat} (h : n < 64) : std.char n ≠ '=' := by
  have hall : ∀ n < 64, std.char n ≠ '=' := by decide
  exact hall n h

end Alphabet

/-! ## Groups of digits -/

/-- The digits of the bytes. -/
def digits : List UInt8 → List Nat
  | a :: b :: c :: rest =>
    a.toNat / 4 :: (a.toNat % 4 * 16 + b.toNat / 16) :: (b.toNat % 16 * 4 + c.toNat / 64) ::
      c.toNat % 64 :: digits rest
  | [a, b] => [a.toNat / 4, a.toNat % 4 * 16 + b.toNat / 16, b.toNat % 16 * 4]
  | [a] => [a.toNat / 4, a.toNat % 4 * 16]
  | [] => []

/-- The bytes of the digits. A single digit is left over in no encoding. -/
def ofDigits : List Nat → Option (List UInt8)
  | w :: x :: y :: z :: rest => (ofDigits rest).map fun l =>
    UInt8.ofNat (w * 4 + x / 16) :: UInt8.ofNat (x % 16 * 16 + y / 4) ::
      UInt8.ofNat (y % 4 * 64 + z) :: l
  | [w, x, y] => some [UInt8.ofNat (w * 4 + x / 16), UInt8.ofNat (x % 16 * 16 + y / 4)]
  | [w, x] => some [UInt8.ofNat (w * 4 + x / 16)]
  | [_] => none
  | [] => some []

theorem lt_of_mem_digits (l : List UInt8) : ∀ n ∈ digits l, n < 64 := by
  induction l using digits.induct with
  | case1 a b c rest ih =>
      have ha := a.toNat_lt
      have hb := b.toNat_lt
      have hc := c.toNat_lt
      simp only [digits, List.forall_mem_cons]
      exact ⟨by omega, by omega, by omega, by omega, ih⟩
  | case2 a b =>
      have ha := a.toNat_lt
      have hb := b.toNat_lt
      simp only [digits, List.forall_mem_cons]
      exact ⟨by omega, by omega, by omega, by simp⟩
  | case3 a =>
      have ha := a.toNat_lt
      simp only [digits, List.forall_mem_cons]
      exact ⟨by omega, by omega, by simp⟩
  | case4 => simp [digits]

/-- A byte from the pieces of its digits. -/
theorem ofNat_eq {a : UInt8} {n : Nat} (h : n = a.toNat) : UInt8.ofNat n = a := by
  rw [h, UInt8.ofNat_toNat]

theorem ofDigits_digits (l : List UInt8) : ofDigits (digits l) = some l := by
  induction l using digits.induct with
  | case1 a b c rest ih =>
      have hb := b.toNat_lt
      have hc := c.toNat_lt
      simp only [digits, ofDigits, ih, Option.map_some]
      rw [ofNat_eq (a := a) (by omega), ofNat_eq (a := b) (by omega), ofNat_eq (a := c) (by omega)]
  | case2 a b =>
      have hb := b.toNat_lt
      simp only [digits, ofDigits]
      rw [ofNat_eq (a := a) (by omega), ofNat_eq (a := b) (by omega)]
  | case3 a =>
      simp only [digits, ofDigits]
      rw [ofNat_eq (a := a) (by omega)]
  | case4 => rfl

/-! ## Encoding -/

/-- The encoding without padding. -/
def encode (a : Alphabet) (l : List UInt8) : List Char := (digits l).map a.char

def decode (a : Alphabet) (t : List Char) : Option (List UInt8) :=
  (t.mapM a.digit).bind ofDigits

theorem mapM_digit (a : Alphabet) {ds : List Nat} (h : ∀ n ∈ ds, n < 64) :
    (ds.map a.char).mapM a.digit = some ds := by
  induction ds with
  | nil => rfl
  | cons n ds ih =>
      rw [List.forall_mem_cons] at h
      simp [List.mapM_cons, a.digit_char h.1, ih h.2]

@[simp] theorem decode_encode (a : Alphabet) (l : List UInt8) : decode a (encode a l) = some l := by
  rw [decode, encode, mapM_digit a (lt_of_mem_digits l), Option.bind_some, ofDigits_digits]

theorem notMem_encode {a : Alphabet} {c : Char} (hc : ∀ n < 64, a.char n ≠ c) (l : List UInt8) :
    c ∉ encode a l := by
  intro h
  obtain ⟨n, hn, rfl⟩ := List.mem_map.1 h
  exact hc n (lt_of_mem_digits l n hn) rfl

/-- What completes a text of this length to a multiple of four. -/
def padding (n : Nat) : List Char := List.replicate ((4 - n % 4) % 4) '='

/-- The standard encoding. -/
def encodePadded (l : List UInt8) : List Char :=
  encode .std l ++ padding (encode .std l).length

theorem notMem_encodePadded {c : Char} (hc : ∀ n < 64, Alphabet.std.char n ≠ c) (hpad : c ≠ '=')
    (l : List UInt8) : c ∉ encodePadded l := by
  rw [encodePadded, List.mem_append, not_or]
  exact ⟨notMem_encode hc l, fun h => hpad (List.eq_of_mem_replicate h)⟩

/-- Read a text that is padded as it should be. -/
def decodePadded (t : List Char) : Option (List UInt8) :=
  let body := t.takeWhile (· ≠ '=')
  if t = body ++ padding body.length then decode .std body else none

@[simp] theorem decodePadded_encodePadded (l : List UInt8) :
    decodePadded (encodePadded l) = some l := by
  have hbody : (encodePadded l).takeWhile (· ≠ '=') = encode .std l := by
    unfold encodePadded
    rw [List.takeWhile_append_of_pos]
    · unfold padding
      cases (4 - (encode .std l).length % 4) % 4 with
      | zero => simp
      | succ k => simp [List.replicate_succ]
    · intro c hc
      have hne : c ≠ '=' := fun h =>
        notMem_encode (fun _ hn => Alphabet.char_std_ne_pad hn) l (h ▸ hc)
      simpa using hne
  have hpadded : encodePadded l = encode .std l ++ padding (encode .std l).length := rfl
  simp only [decodePadded, hbody]
  rw [if_pos hpadded, decode_encode]

end XrayApi.Codec.Base64
