import XrayApi.Codec.Percent

/-!
# JSON objects of strings

`encodeObject` is what Go's `encoding/json` writes for a map from texts to texts: the entries in the
order of their keys, without blanks. In a string the quote and the backslash are escaped by a
backslash, five control characters by their letter, the other control characters, the characters
`<`, `>` and `&` and the two line separators by their number. `decodeObject` reads such an object
back (`decodeObject_encodeObject`): `lex` cuts the text into strings and punctuation, and `members`
takes the entries from them. A number that is half of a surrogate pair is not read; the encoder
writes none.
-/

set_option autoImplicit false

namespace XrayApi.Codec.Json

open Percent

def quote : Char := Char.ofNat 34
def backslash : Char := Char.ofNat 92
def openBrace : Char := Char.ofNat 123
def closeBrace : Char := Char.ofNat 125

/-! ## Encoding -/

/-- A hexadecimal digit, in lower case. -/
def lowerHex (n : Nat) : Char := if n < 10 then Char.ofNat (48 + n) else Char.ofNat (87 + n)

/-- The letter that stands for a control character after a backslash. -/
def letterOf (n : Nat) : Option Char :=
  if n = 8 then some 'b'
  else if n = 9 then some 't'
  else if n = 10 then some 'n'
  else if n = 12 then some 'f'
  else if n = 13 then some 'r'
  else none

/-- The characters that are written by their number, besides control characters. -/
def numbered (n : Nat) : Bool :=
  decide (n < 32 ∨ n = 60 ∨ n = 62 ∨ n = 38 ∨ n = 0x2028 ∨ n = 0x2029)

def escapeChar (c : Char) : List Char :=
  if c = quote ∨ c = backslash then [backslash, c]
  else
    match letterOf c.toNat with
    | some l => [backslash, l]
    | none =>
      if numbered c.toNat then
        [backslash, 'u', lowerHex (c.toNat / 4096), lowerHex (c.toNat / 256 % 16),
          lowerHex (c.toNat / 16 % 16), lowerHex (c.toNat % 16)]
      else [c]

def encodeString (s : String) : List Char := quote :: (s.toList.flatMap escapeChar ++ [quote])

def encodeMember (e : String × String) : List Char := encodeString e.1 ++ ':' :: encodeString e.2

def encodeObject (l : List (String × String)) : List Char :=
  openBrace :: ([','].intercalate (l.map encodeMember) ++ [closeBrace])

/-! ## Decoding -/

/-- A string, or a character between strings. -/
inductive Token
  | str (s : String)
  | mark (c : Char)
  deriving DecidableEq

/-- The character a letter stands for after a backslash. -/
def unletter (l : Char) : Option Char :=
  if l = quote ∨ l = backslash ∨ l = '/' then some l
  else if l = 'b' then some (Char.ofNat 8)
  else if l = 't' then some (Char.ofNat 9)
  else if l = 'n' then some (Char.ofNat 10)
  else if l = 'f' then some (Char.ofNat 12)
  else if l = 'r' then some (Char.ofNat 13)
  else none

/-- The character with the number of four digits. -/
def unnumber (a b c d : Char) : Option Char :=
  match unhex a, unhex b, unhex c, unhex d with
  | some a, some b, some c, some d =>
    let n := a * 4096 + b * 256 + c * 16 + d
    if n.isValidChar then some (Char.ofNat n) else none
  | _, _, _, _ => none

/-- Where the lexer stands: between strings, in a string (with what was read of it, in reverse), or
in it after a backslash with the digits of a number so far. -/
inductive Lexer
  | between
  | inside (acc : List Char)
  | escaped (acc : List Char)
  | number (acc digits : List Char)

/-- Cut a text into tokens. -/
def lex : Lexer → List Char → Option (List Token)
  | .between, [] => some []
  | .between, c :: t =>
    if c = quote then lex (.inside []) t
    else if c ∈ [openBrace, closeBrace, ':', ','] then (lex .between t).map (.mark c :: ·)
    else none
  | .inside acc, c :: t =>
    if c = quote then (lex .between t).map (.str (String.ofList acc.reverse) :: ·)
    else if c = backslash then lex (.escaped acc) t
    else if c.toNat < 32 then none
    else lex (.inside (c :: acc)) t
  | .escaped acc, c :: t =>
    if c = 'u' then lex (.number acc []) t
    else
      match unletter c with
      | some x => lex (.inside (x :: acc)) t
      | none => none
  | .number acc [d₁, d₂, d₃], d₄ :: t =>
    match unnumber d₁ d₂ d₃ d₄ with
    | some x => lex (.inside (x :: acc)) t
    | none => none
  | .number acc ds, d :: t => lex (.number acc (ds ++ [d])) t
  | _, [] => none

/-- The entries after the opening brace. -/
def members : List Token → Option (List (String × String))
  | .str k :: .mark ':' :: .str v :: .mark c :: rest =>
    if c = ',' then (members rest).map ((k, v) :: ·)
    else if c = closeBrace ∧ rest = [] then some [(k, v)]
    else none
  | _ => none

def decodeObject (t : List Char) : Option (List (String × String)) :=
  match lex .between t with
  | some (.mark c :: rest) =>
    if c = openBrace then if rest = [.mark closeBrace] then some [] else members rest else none
  | _ => none

/-! ## Round trip -/

theorem unhex_lowerHex {n : Nat} (h : n < 16) : unhex (lowerHex n) = some n := by
  have hall : ∀ n < 16, unhex (lowerHex n) = some n := by decide
  exact hall n h

/-- The letters of control characters are read as these. -/
theorem unletter_of_letterOf {n : Nat} {l : Char} (h : letterOf n = some l) :
    unletter l = some (Char.ofNat n) ∧ l ≠ 'u' := by
  unfold letterOf at h
  split_ifs at h with h₁ h₂ h₃ h₄ h₅
  all_goals
    cases h
    simp only [*]
    decide

/-- The number of a character is read as the character. -/
theorem unnumber_lowerHex {c : Char} (h : c.toNat < 65536) :
    unnumber (lowerHex (c.toNat / 4096)) (lowerHex (c.toNat / 256 % 16))
      (lowerHex (c.toNat / 16 % 16)) (lowerHex (c.toNat % 16)) = some c := by
  have hsum : c.toNat / 4096 * 4096 + c.toNat / 256 % 16 * 256 + c.toNat / 16 % 16 * 16 +
      c.toNat % 16 = c.toNat := by
    omega
  have hvalid : c.toNat.isValidChar := c.valid
  simp only [unnumber, unhex_lowerHex (n := c.toNat / 4096) (by omega),
    unhex_lowerHex (n := c.toNat / 256 % 16) (by omega),
    unhex_lowerHex (n := c.toNat / 16 % 16) (by omega),
    unhex_lowerHex (n := c.toNat % 16) (by omega), hsum, if_pos hvalid, Char.ofNat_toNat]

theorem lex_backslash (acc t : List Char) :
    lex (.inside acc) (backslash :: t) = lex (.escaped acc) t := by
  have hne : backslash ≠ quote := by decide
  rw [lex, if_neg hne, if_pos rfl]

theorem lex_letter {acc t : List Char} {l c : Char} (hl : unletter l = some c) (hu : l ≠ 'u') :
    lex (.escaped acc) (l :: t) = lex (.inside (c :: acc)) t := by
  rw [lex, if_neg hu]
  simp only [hl]

theorem lex_number {acc t : List Char} {a b c d x : Char} (h : unnumber a b c d = some x) :
    lex (.escaped acc) ('u' :: a :: b :: c :: d :: t) = lex (.inside (x :: acc)) t := by
  rw [lex, if_pos rfl]
  simp only [lex, List.nil_append, List.cons_append, h]

/-- A character of a string is read as it was. -/
theorem lex_escapeChar (acc : List Char) (c : Char) (t : List Char) :
    lex (.inside acc) (escapeChar c ++ t) = lex (.inside (c :: acc)) t := by
  unfold escapeChar
  by_cases hsign : c = quote ∨ c = backslash
  · have hc : unletter c = some c ∧ c ≠ 'u' := by
      obtain rfl | rfl := hsign
      · decide
      · decide
    rw [if_pos hsign]
    exact (lex_backslash acc (c :: t)).trans (lex_letter hc.1 hc.2)
  · rw [if_neg hsign]
    cases hl : letterOf c.toNat with
    | some l =>
        obtain ⟨hc, hu⟩ := unletter_of_letterOf hl
        rw [Char.ofNat_toNat] at hc
        exact (lex_backslash acc (l :: t)).trans (lex_letter hc hu)
    | none =>
        by_cases hnum : numbered c.toNat = true
        · have hlt : c.toNat < 65536 := by
            have := of_decide_eq_true hnum
            omega
          simp only [if_pos hnum]
          exact (lex_backslash acc _).trans (lex_number (unnumber_lowerHex hlt))
        · obtain ⟨hquote, hback⟩ := not_or.1 hsign
          have hctrl : ¬ c.toNat < 32 := fun h => hnum (decide_eq_true (Or.inl h))
          simp only [if_neg hnum]
          rw [List.singleton_append, lex, if_neg hquote, if_neg hback, if_neg hctrl]

/-- A string is one token. -/
theorem lex_encodeString (s : String) (t : List Char) :
    lex .between (encodeString s ++ t) = (lex .between t).map (.str s :: ·) := by
  have hbody : ∀ (l acc : List Char), lex (.inside acc) (l.flatMap escapeChar ++ quote :: t) =
      (lex .between t).map (.str (String.ofList (acc.reverse ++ l)) :: ·) := by
    intro l
    induction l with
    | nil =>
        intro acc
        rw [List.flatMap_nil, List.nil_append, lex, if_pos rfl, List.append_nil]
    | cons c l ih =>
        intro acc
        rw [List.flatMap_cons, List.append_assoc, lex_escapeChar, ih, List.reverse_cons,
          List.append_assoc, List.singleton_append]
  have h := hbody s.toList []
  rw [List.reverse_nil, List.nil_append, String.ofList_toList] at h
  rw [encodeString, List.cons_append, List.append_assoc, List.singleton_append, lex, if_pos rfl, h]

theorem lex_mark {c : Char} (hc : c ∈ [openBrace, closeBrace, ':', ',']) (t : List Char) :
    lex .between (c :: t) = (lex .between t).map (.mark c :: ·) := by
  have hne : c ≠ quote := by
    rintro rfl
    revert hc
    decide
  rw [lex, if_neg hne, if_pos hc]

/-- The tokens of an entry. -/
def memberTokens (e : String × String) : List Token := [.str e.1, .mark ':', .str e.2]

theorem lex_encodeMember (e : String × String) (t : List Char) :
    lex .between (encodeMember e ++ t) = (lex .between t).map (memberTokens e ++ ·) := by
  rw [encodeMember, List.append_assoc, lex_encodeString, List.cons_append,
    lex_mark (by decide), lex_encodeString]
  cases lex .between t with
  | none => rfl
  | some ts => rfl

/-- The tokens of the entries, up to the closing brace. -/
def tokensOf : List (String × String) → List Token
  | [] => [.mark closeBrace]
  | [e] => memberTokens e ++ [.mark closeBrace]
  | e :: l => memberTokens e ++ .mark ',' :: tokensOf l

theorem lex_members (l : List (String × String)) :
    lex .between ([','].intercalate (l.map encodeMember) ++ [closeBrace]) = some (tokensOf l) := by
  induction l using tokensOf.induct with
  | case1 => decide
  | case2 e =>
      have hone : [','].intercalate ([e].map encodeMember) = encodeMember e := by
        simp [List.intercalate]
      rw [hone, lex_encodeMember, lex_mark (by decide)]
      rfl
  | case3 e l hne ih =>
      cases l with
      | nil => exact (hne rfl).elim
      | cons e' l =>
          have hstep : [','].intercalate ((e :: e' :: l).map encodeMember) =
              encodeMember e ++ [','] ++ [','].intercalate ((e' :: l).map encodeMember) :=
            List.intercalate_cons_cons
          rw [hstep, List.append_assoc, List.append_assoc, lex_encodeMember, List.singleton_append,
            lex_mark (by decide), ih]
          rfl

theorem members_tokensOf {l : List (String × String)} (hl : l ≠ []) :
    members (tokensOf l) = some l := by
  induction l using tokensOf.induct with
  | case1 => exact (hl rfl).elim
  | case2 e =>
      have hne : closeBrace ≠ ',' := by decide
      simp [tokensOf, memberTokens, members, hne]
  | case3 e l hne ih =>
      cases l with
      | nil => exact (hne rfl).elim
      | cons e' l =>
          have hstep : tokensOf (e :: e' :: l) = .str e.1 :: .mark ':' :: .str e.2 :: .mark ',' ::
              tokensOf (e' :: l) := rfl
          rw [hstep, members, if_pos rfl, ih (List.cons_ne_nil _ _)]
          rfl

theorem decodeObject_encodeObject (l : List (String × String)) :
    decodeObject (encodeObject l) = some l := by
  have hlex : lex .between (encodeObject l) = some (.mark openBrace :: tokensOf l) := by
    rw [encodeObject, lex_mark (by decide), lex_members]
    rfl
  simp only [decodeObject, hlex, if_true]
  cases l with
  | nil => rfl
  | cons e l =>
      have hne : tokensOf (e :: l) ≠ [.mark closeBrace] := by
        cases l <;> simp [tokensOf, memberTokens]
      rw [if_neg hne, members_tokensOf (List.cons_ne_nil _ _)]

end XrayApi.Codec.Json
