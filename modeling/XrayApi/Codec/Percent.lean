import XrayApi.Codec.Text

/-!
# Percent-encoding and query strings

The escaping of Go's `net/url`. Letters and digits stand for themselves, and so do a few marks that
depend on the part of the URL; every other byte of the text is a percent sign and two hexadecimal
digits, except that a blank of a query is a plus sign. `unescape` reads the text back
(`unescape_escape`), and an escaped text has none of the characters that end its part of the URL
(`notMem_escape`).

A query string is the escaped pairs of a map in the order of their keys; `parseQuery` reads the
pairs back (`parseQuery_encodeQuery`).
-/

set_option autoImplicit false

namespace XrayApi.Codec.Percent

/-! ## Hexadecimal digits -/

/-- A hexadecimal digit, in upper case. -/
def upperHex (n : Nat) : Char := if n < 10 then Char.ofNat (48 + n) else Char.ofNat (55 + n)

/-- The value of a hexadecimal digit. -/
def unhex (c : Char) : Option Nat :=
  if c.isDigit then some (c.toNat - 48)
  else if 'a' ≤ c ∧ c ≤ 'f' then some (c.toNat - 87)
  else if 'A' ≤ c ∧ c ≤ 'F' then some (c.toNat - 55)
  else none

theorem unhex_upperHex {n : Nat} (h : n < 16) : unhex (upperHex n) = some n := by
  have hall : ∀ n < 16, unhex (upperHex n) = some n := by decide
  exact hall n h

theorem isAlphanum_upperHex {n : Nat} (h : n < 16) : (upperHex n).isAlphanum = true := by
  have hall : ∀ n < 16, (upperHex n).isAlphanum = true := by decide
  exact hall n h

/-! ## Escaping -/

/-- The part of a URL a text is escaped for. -/
inductive Mode
  | queryComponent
  | userPassword
  | host
  | fragment
  | pathSegment
  deriving DecidableEq

/-- The marks that stand for themselves. -/
def Mode.marks : Mode → List Char
  | queryComponent => ['-', '_', '.', '~']
  | userPassword => ['-', '_', '.', '~', '$', '&', '+', ',', ';', '=']
  | host => ['-', '_', '.', '~', '!', '$', '&', '(', ')', '*', '+', ',', ';', '=', ':', '[', ']',
      '<', '>', Char.ofNat 34, Char.ofNat 39]
  | fragment => ['-', '_', '.', '~', '$', '&', '+', ',', '/', ':', ';', '=', '?', '@', '!',
      '(', ')', '*']
  | pathSegment => ['-', '_', '.', '~', '$', '&', '+', ':', '=', '@']

/-- The character of a byte below 128. -/
def ascii (b : UInt8) : Char := Char.ofNat b.toNat

def shouldEscape (mode : Mode) (b : UInt8) : Bool :=
  !((ascii b).isAlphanum || decide (ascii b ∈ mode.marks))

def escapeByte (mode : Mode) (b : UInt8) : List Char :=
  if b = 32 ∧ mode = .queryComponent then ['+']
  else if shouldEscape mode b then ['%', upperHex (b.toNat / 16), upperHex (b.toNat % 16)]
  else [ascii b]

def escape (mode : Mode) (s : String) : List Char := (bytes s).flatMap (escapeByte mode)

/-- The bytes of an escaped text; a character that is not escaped is its bytes in UTF-8. -/
def unescapeBytes (mode : Mode) : List Char → Option (List UInt8)
  | [] => some []
  | '%' :: h :: l :: rest =>
    match unhex h, unhex l with
    | some hi, some lo => (unescapeBytes mode rest).map (UInt8.ofNat (16 * hi + lo) :: ·)
    | _, _ => none
  | c :: rest =>
    if c = '%' then none
    else if c = '+' ∧ mode = .queryComponent then (unescapeBytes mode rest).map (32 :: ·)
    else (unescapeBytes mode rest).map (String.utf8EncodeChar c ++ ·)

def unescape (mode : Mode) (t : List Char) : Option String :=
  (unescapeBytes mode t).bind ofBytes

/-! ## Round trip -/

theorem lt_of_isAlphanum {c : Char} (h : c.isAlphanum = true) : c.toNat < 128 := by
  have hbelow : ∀ d : Char, d.toNat < 128 → c.val ≤ d.val → c.toNat < 128 :=
    fun d hd hle => (UInt32.le_iff_toNat_le.1 hle).trans_lt hd
  -- letters and digits are three ranges of code points
  obtain hletter | hdigit := Bool.or_eq_true_iff.1 h
  · obtain hupper | hlower := Bool.or_eq_true_iff.1 hletter
    · exact hbelow 'Z' (by decide) (of_decide_eq_true hupper).2
    · exact hbelow 'z' (by decide) (of_decide_eq_true (Bool.and_eq_true_iff.1 hlower).2)
  · exact hbelow '9' (by decide) (of_decide_eq_true (Bool.and_eq_true_iff.1 hdigit).2)

theorem toNat_ascii (b : UInt8) : (ascii b).toNat = b.toNat := by
  have hvalid : b.toNat.isValidChar := Or.inl (b.toNat_lt.trans (by decide))
  unfold ascii Char.ofNat
  rw [dif_pos hvalid]
  rfl

theorem lt_of_mem_marks {mode : Mode} {c : Char} (h : c ∈ mode.marks) :
    c.toNat < 128 ∧ c ≠ '%' ∧ ¬ (c = '+' ∧ mode = .queryComponent) := by
  have hall : ∀ c ∈ mode.marks, c.toNat < 128 ∧ c ≠ '%' ∧ ¬ (c = '+' ∧ mode = .queryComponent) := by
    cases mode <;> exact List.all_iff_forall_prop.1 (by decide)
  exact hall c h

/-- A byte that stands for itself is below 128, and is no percent sign and no plus sign of a
query. -/
theorem ascii_of_kept {mode : Mode} {b : UInt8} (h : shouldEscape mode b = false) :
    String.utf8EncodeChar (ascii b) = [b] ∧ ascii b ≠ '%' ∧
      ¬ (ascii b = '+' ∧ mode = .queryComponent) := by
  have hkept : (ascii b).isAlphanum = true ∨ ascii b ∈ mode.marks := by
    simpa [shouldEscape, or_iff_not_imp_left] using h
  have hmarks : (ascii b).toNat < 128 ∧ ascii b ≠ '%' ∧
      ¬ (ascii b = '+' ∧ mode = .queryComponent) := by
    obtain hletter | hmark := hkept
    · refine ⟨lt_of_isAlphanum hletter, fun h => ?_, fun h => ?_⟩
      · rw [h] at hletter
        cases hletter
      · rw [h.1] at hletter
        cases hletter
    · exact lt_of_mem_marks hmark
  refine ⟨?_, hmarks.2⟩
  have hlt : b.toNat ≤ 127 := Nat.le_of_lt_succ (toNat_ascii b ▸ hmarks.1)
  simp [String.utf8EncodeChar, toNat_ascii, hlt]

theorem unescapeBytes_escapeByte (mode : Mode) (b : UInt8) (t : List Char) :
    unescapeBytes mode (escapeByte mode b ++ t) = (unescapeBytes mode t).map (b :: ·) := by
  unfold escapeByte
  split_ifs with hblank hesc
  · obtain ⟨rfl, rfl⟩ := hblank
    rfl
  · have hb := b.toNat_lt
    simp only [List.cons_append, List.nil_append, unescapeBytes, unhex_upperHex (n := b.toNat / 16)
      (by omega), unhex_upperHex (n := b.toNat % 16) (by omega)]
    have hsum : UInt8.ofNat (16 * (b.toNat / 16) + b.toNat % 16) = b := by
      rw [Nat.div_add_mod, UInt8.ofNat_toNat]
    rw [hsum]
  · obtain ⟨hchar, hpercent, hplus⟩ := ascii_of_kept (Bool.not_eq_true _ ▸ hesc)
    rw [List.singleton_append, unescapeBytes]
    · rw [if_neg hpercent, if_neg hplus, hchar]
      rfl
    · exact fun h l rest hc _ => hpercent hc

theorem unescape_escape (mode : Mode) (s : String) : unescape mode (escape mode s) = some s := by
  have hbytes : ∀ l : List UInt8, unescapeBytes mode (l.flatMap (escapeByte mode)) = some l := by
    intro l
    induction l with
    | nil => rfl
    | cons b l ih =>
        rw [List.flatMap_cons, unescapeBytes_escapeByte, ih]
        rfl
  rw [unescape, escape, hbytes, Option.bind_some, ofBytes_bytes]

/-- An escaped text is made of letters, digits, marks, percent and plus signs. -/
theorem notMem_escape {mode : Mode} {c : Char} (hsign : c ≠ '%' ∧ c ≠ '+')
    (hletter : c.isAlphanum = false) (hmark : c ∉ mode.marks) (s : String) :
    c ∉ escape mode s := by
  intro h
  obtain ⟨b, -, hb⟩ := List.mem_flatMap.1 h
  have hlt := b.toNat_lt
  unfold escapeByte at hb
  split_ifs at hb with hblank hesc
  · exact hsign.2 (List.mem_singleton.1 hb)
  · simp only [List.mem_cons, List.not_mem_nil, or_false] at hb
    obtain hb | hb | hb := hb
    · exact hsign.1 hb
    · rw [hb, isAlphanum_upperHex (by omega)] at hletter
      cases hletter
    · rw [hb, isAlphanum_upperHex (by omega)] at hletter
      cases hletter
  · rw [List.mem_singleton.1 hb] at hletter hmark
    exact hesc (by simp [shouldEscape, hletter, hmark])

/-! ## Query strings -/

def encodePair (e : String × String) : List Char :=
  escape .queryComponent e.1 ++ '=' :: escape .queryComponent e.2

def encodeQuery (l : List (String × String)) : List Char := ['&'].intercalate (l.map encodePair)

/-- A key and its value; without an equals sign the value is empty. -/
def parsePair (t : List Char) : Option (String × String) :=
  match cut '=' t with
  | some (k, v) =>
    match unescape .queryComponent k, unescape .queryComponent v with
    | some k, some v => some (k, v)
    | _, _ => none
  | none => (unescape .queryComponent t).map fun k => (k, "")

/-- The pairs of a query string; empty ones are skipped. -/
def parseQuery (t : List Char) : Option (List (String × String)) :=
  ((t.splitOn '&').filter (fun p => decide (p ≠ []))).mapM parsePair

theorem parsePair_encodePair (e : String × String) : parsePair (encodePair e) = some e := by
  have hcut : cut '=' (encodePair e) =
      some (escape .queryComponent e.1, escape .queryComponent e.2) :=
    cut_append (notMem_escape (by decide) (by decide) (by decide) e.1) _
  simp only [parsePair, hcut, unescape_escape]

theorem notMem_encodePair {c : Char} (hsign : c ≠ '%' ∧ c ≠ '+' ∧ c ≠ '=')
    (hletter : c.isAlphanum = false) (hmark : c ∉ Mode.queryComponent.marks) (e : String × String) :
    c ∉ encodePair e := by
  have hpart : ∀ s, c ∉ escape .queryComponent s :=
    notMem_escape ⟨hsign.1, hsign.2.1⟩ hletter hmark
  simp [encodePair, hpart, hsign.2.2]

theorem parseQuery_encodeQuery (l : List (String × String)) :
    parseQuery (encodeQuery l) = some l := by
  have hnonempty : ∀ p ∈ l.map encodePair, decide (p ≠ []) = true := by
    intro p hp
    obtain ⟨e, -, rfl⟩ := List.mem_map.1 hp
    simp [encodePair]
  have hpairs : ((encodeQuery l).splitOn '&').filter (fun p => decide (p ≠ [])) =
      l.map encodePair := by
    cases l with
    | nil => rfl
    | cons e l =>
        rw [encodeQuery, List.splitOn_intercalate, List.filter_eq_self.2 hnonempty]
        · intro p hp
          obtain ⟨e, -, rfl⟩ := List.mem_map.1 hp
          exact notMem_encodePair (by decide) (by decide) (by decide) e
        · simp
  rw [parseQuery, hpairs]
  clear hnonempty hpairs
  induction l with
  | nil => rfl
  | cons e l ih => simp [List.mapM_cons, parsePair_encodePair, ih]

theorem notMem_encodeQuery {c : Char} (hsign : c ≠ '%' ∧ c ≠ '+' ∧ c ≠ '=') (hamp : c ≠ '&')
    (hletter : c.isAlphanum = false) (hmark : c ∉ Mode.queryComponent.marks)
    (l : List (String × String)) : c ∉ encodeQuery l := by
  induction l with
  | nil => exact List.not_mem_nil
  | cons e l ih =>
      have hpair := notMem_encodePair hsign hletter hmark e
      cases l with
      | nil => simpa [encodeQuery] using hpair
      | cons e' l =>
          have hstep : encodeQuery (e :: e' :: l) = encodePair e ++ ['&'] ++
            encodeQuery (e' :: l) :=
            List.intercalate_cons_cons
          rw [hstep]
          simp [hpair, hamp, ih]

end XrayApi.Codec.Percent
