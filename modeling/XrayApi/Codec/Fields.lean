import XrayApi.Codec.Text

/-!
# Lists of decimal fields

A text such as `a=1; b=-2`: names with integers in decimal. The reader takes blanks away before a
name. `readFields_writeFields` is the round trip for names without the marks of the format.
-/

set_option autoImplicit false

namespace XrayApi.Codec

/-! ## Decimal numbers -/

/-- Digits, at least one. -/
def readNat (t : List Char) : Option Nat :=
  if t ≠ [] ∧ t.all Char.isDigit = true then some (Nat.ofDigitChars 10 t 0) else none

/-- Digits, after a sign for the negative numbers. -/
def readInt (t : List Char) : Option Int :=
  if t.head? = some '-' then (readNat t.tail).map fun n => -(n : Int) else (readNat t).map Int.ofNat

theorem toList_repr (m : Nat) : m.repr.toList = Nat.toDigits 10 m := by
  rw [Nat.repr_eq_ofList_toDigits]
  exact String.toList_ofList

theorem isDigit_of_mem_repr {m : Nat} {c : Char} (h : c ∈ m.repr.toList) : c.isDigit = true := by
  rw [toList_repr] at h
  exact Nat.isDigit_of_mem_toDigits (by decide) (by decide) h

theorem readNat_repr (m : Nat) : readNat m.repr.toList = some m := by
  have hdigits : m.repr.toList ≠ [] ∧ m.repr.toList.all Char.isDigit = true := by
    refine ⟨?_, List.all_eq_true.2 fun c => isDigit_of_mem_repr⟩
    rw [toList_repr]
    exact Nat.toDigits_ne_nil
  rw [readNat, if_pos hdigits, toList_repr, Nat.ofDigitChars_toDigits (by decide) (by decide)]

theorem toList_repr_negSucc (m : Nat) :
    (Int.negSucc m).repr.toList = '-' :: m.succ.repr.toList := by
  rw [Int.repr, String.toList_append]
  rfl

theorem readInt_repr (n : Int) : readInt n.repr.toList = some n := by
  cases n with
  | ofNat m =>
      -- a natural number starts with a digit
      have hsign : m.repr.toList.head? ≠ some '-' := fun h =>
        absurd (isDigit_of_mem_repr (List.mem_of_head? h)) (by decide)
      exact (if_neg hsign).trans (congrArg _ (readNat_repr m))
  | negSucc m =>
      rw [readInt, toList_repr_negSucc, List.head?_cons, if_pos rfl, List.tail_cons, readNat_repr]
      rfl

/-- No mark but the sign occurs in a number. -/
theorem notMem_repr (n : Int) {c : Char} (hdigit : c.isDigit = false) (hsign : c ≠ '-') :
    c ∉ n.repr.toList := by
  have hnat : ∀ m : Nat, c ∉ m.repr.toList := by
    intro m h
    rw [isDigit_of_mem_repr h] at hdigit
    cases hdigit
  cases n with
  | ofNat m => exact hnat m
  | negSucc m =>
      rw [toList_repr_negSucc, List.mem_cons, not_or]
      exact ⟨hsign, hnat _⟩

/-! ## Fields -/

def writeField (e : String × Int) : List Char := e.1.toList ++ '=' :: e.2.repr.toList

def writeFields (l : List (String × Int)) : List Char := "; ".toList.intercalate (l.map writeField)

/-- One field, after the blanks before it. -/
def readField (t : List Char) : Option (String × Int) :=
  (cut '=' (t.dropWhile fun c => decide (c = ' '))).bind fun p =>
    (readInt p.2).map fun n => (String.ofList p.1, n)

def readFields (t : List Char) : Option (List (String × Int)) := (t.splitOn ';').mapM readField

/-- Names without the marks of the format. -/
def FieldName (name : String) : Prop := ∀ c ∈ [';', '=', ' '], c ∉ name.toList

instance (name : String) : Decidable (FieldName name) :=
  List.decidableBAll (fun c => c ∉ name.toList) [';', '=', ' ']

section RoundTrip

variable {e : String × Int} {l : List (String × Int)}

theorem notMem_writeField (h : FieldName e.1) : ';' ∉ writeField e := by
  rw [writeField, List.mem_append, List.mem_cons, not_or, not_or]
  exact ⟨h ';' (by decide), by decide, notMem_repr _ (by decide) (by decide)⟩

theorem dropWhile_writeField (h : FieldName e.1) :
    (writeField e).dropWhile (fun c => decide (c = ' ')) = writeField e := by
  unfold writeField
  cases hname : e.1.toList with
  | nil => rfl
  | cons c name =>
      have hc : c ≠ ' ' := by
        intro heq
        refine h ' ' (by decide) ?_
        rw [hname, heq]
        exact List.mem_cons_self
      rw [List.cons_append, List.dropWhile_cons_of_neg (by simpa using hc)]

theorem readField_writeField (h : FieldName e.1) : readField (writeField e) = some e := by
  have hcut : cut '=' (writeField e) = some (e.1.toList, e.2.repr.toList) :=
    cut_append (h '=' (by decide)) _
  rw [readField, dropWhile_writeField h, hcut, Option.bind_some, readInt_repr]
  simp

theorem readField_blank (t : List Char) : readField (' ' :: t) = readField t := by
  rw [readField, List.dropWhile_cons_of_pos (by decide)]
  rfl

/-- The blank after a semicolon counts as the start of the next field. -/
theorem intercalate_blank (t : List Char) (ts : List (List Char)) :
    "; ".toList.intercalate (t :: ts) = [';'].intercalate (t :: ts.map (' ' :: ·)) := by
  induction ts generalizing t with
  | nil => rfl
  | cons t' ts ih =>
      rw [List.intercalate_cons_cons, ih, List.map_cons, List.intercalate_cons_cons]
      cases ts with
      | nil => simp
      | cons t'' ts => simp [List.intercalate_cons_cons]

theorem splitOn_writeFields (h : ∀ e' ∈ e :: l, FieldName e'.1) :
    (writeFields (e :: l)).splitOn ';' = writeField e :: l.map fun e => ' ' :: writeField e := by
  rw [writeFields, List.map_cons, intercalate_blank, List.map_map,
    List.splitOn_intercalate _ ?_ (List.cons_ne_nil _ _)]
  · rfl
  · intro t ht
    obtain rfl | ht := List.mem_cons.1 ht
    · exact notMem_writeField (h e List.mem_cons_self)
    · obtain ⟨e', he', rfl⟩ := List.mem_map.1 ht
      rw [Function.comp_apply, List.mem_cons, not_or]
      exact ⟨by decide, notMem_writeField (h e' (List.mem_cons_of_mem e he'))⟩

theorem mapM_readField_blank (h : ∀ e ∈ l, FieldName e.1) :
    (l.map fun e => ' ' :: writeField e).mapM readField = some l := by
  induction l with
  | nil => rfl
  | cons e l ih =>
      rw [List.map_cons, List.mapM_cons, readField_blank,
        readField_writeField (h e List.mem_cons_self),
        ih fun e' he' => h e' (List.mem_cons_of_mem e he')]
      rfl

theorem readFields_writeFields (h : ∀ e ∈ l, FieldName e.1) (hl : l ≠ []) :
    readFields (writeFields l) = some l := by
  cases l with
  | nil => exact (hl rfl).elim
  | cons e l =>
      rw [readFields, splitOn_writeFields h, List.mapM_cons,
        readField_writeField (h e List.mem_cons_self),
        mapM_readField_blank fun e' he' => h e' (List.mem_cons_of_mem e he')]
      rfl

end RoundTrip

end XrayApi.Codec
