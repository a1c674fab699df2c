import Mathlib.Algebra.Ring.Int.Defs
import XrayApi.Codec.Fields
import XrayApi.Service.Sequential

/-!
# The usage header of a subscription

`UserInfoHeader` writes the counters, the limit and the expiry of a user for the clients. A missing
limit or expiry is written as 0, and a client reads 0 so; `quota_recovered_iff` says that this is
all that can go wrong. A limit of 0 is one that the API stores and that is exhausted at once, and
the client takes it for no limit (`zero_limit_reads_unlimited`).
-/

set_option autoImplicit false

namespace XrayApi

/-- The whole seconds since the epoch. Those of a stored time fit 64 bits. -/
def Time.unix (t : Time) : Int := t / 1000000

namespace Sublink

open Codec Service Store

def userInfoHeader (u : User) : String :=
  let total : Int64 := u.dataLimitBytes.getD 0
  let expire : Int := (u.expiresAt.map Time.unix).getD 0
  "upload=" ++ toString u.usedUploadBytes ++ "; download=" ++ toString u.usedDownloadBytes ++
    "; total=" ++ toString total ++ "; expire=" ++ toString expire

/-! ## The client -/

/-- What a client shows of the header. -/
structure UserInfo where
  upload : Int64
  download : Int64
  total : Option Int64
  expire : Option Int
  deriving DecidableEq, Repr

/-- A value of 0 stands for none. -/
def nonzero {α : Type} [DecidableEq α] [Zero α] (a : α) : Option α := if a = 0 then none else some a

/-- A client reads the four fields wherever they stand. -/
def readUserInfo (header : String) : Option UserInfo := do
  let fields ← readFields header.toList
  let value := fun name => (Relational.lookup Prod.fst name fields).map Prod.snd
  let upload ← value "upload"
  let download ← value "download"
  let total ← value "total"
  let expire ← value "expire"
  pure ⟨.ofInt upload, .ofInt download, nonzero (.ofInt total), nonzero expire⟩

/-- The limit, if there is one, is reached. -/
def UserInfo.exhausted (i : UserInfo) : Bool :=
  match i.total with
  | none => false
  | some limit => decide (limit ≤ i.upload + i.download)

/-- The quota state of a user, as a client should show it. -/
def quotaState (u : User) : UserInfo where
  upload := u.usedUploadBytes
  download := u.usedDownloadBytes
  total := u.dataLimitBytes
  expire := u.expiresAt.map Time.unix

/-! ## What is read from the header -/

/-- The fields of the header. -/
def headerFields (u : User) : List (String × Int) :=
  [("upload", u.usedUploadBytes.toInt), ("download", u.usedDownloadBytes.toInt),
    ("total", (u.dataLimitBytes.getD 0).toInt), ("expire", (u.expiresAt.map Time.unix).getD 0)]

theorem toList_userInfoHeader (u : User) :
    (userInfoHeader u).toList = writeFields (headerFields u) := by
  have hint64 : ∀ n : Int64, toString n = n.toInt.repr := fun _ => rfl
  have hint : ∀ n : Int, toString n = n.repr := fun _ => rfl
  simp only [userInfoHeader, headerFields, writeFields, writeField, List.map_cons, List.map_nil,
    List.intercalate_cons_cons, List.intercalate_singleton, hint64, hint, String.toList_append,
    List.append_assoc]
  rfl

/-- The header read back: the two values that may be missing are so when they are 0. -/
theorem readUserInfo_userInfoHeader (u : User) :
    readUserInfo (userInfoHeader u) = some { quotaState u with
      total := nonzero (u.dataLimitBytes.getD 0)
      expire := nonzero ((u.expiresAt.map Time.unix).getD 0) } := by
  have hnames : ∀ name ∈ (headerFields u).map Prod.fst, FieldName name := by
    change ∀ name ∈ ["upload", "download", "total", "expire"], FieldName name
    decide
  have hread : readFields (userInfoHeader u).toList = some (headerFields u) := by
    rw [toList_userInfoHeader]
    exact readFields_writeFields (fun e he => hnames _ (List.mem_map_of_mem he))
      (List.cons_ne_nil _ _)
  rw [readUserInfo, hread]
  simp [headerFields, Relational.lookup, quotaState]

theorem nonzero_getD_iff {α : Type} [DecidableEq α] [Zero α] {o : Option α} :
    nonzero (o.getD 0) = o ↔ o ≠ some 0 := by
  cases o with
  | none => simp [nonzero]
  | some a =>
      by_cases h : a = 0
      · simp [nonzero, h]
      · simp [nonzero, h]

/-- The client recovers the quota state, and so finds the quota exhausted when the panel does,
unless the limit is 0 or the expiry is at second 0. -/
theorem quota_recovered_iff (u : User) :
    (∃ i, readUserInfo (userInfoHeader u) = some i ∧ i.upload = u.usedUploadBytes ∧
        i.download = u.usedDownloadBytes ∧ i.total = u.dataLimitBytes ∧
        i.expire = u.expiresAt.map Time.unix ∧ (i.exhausted = true ↔ u.overQuota = true)) ↔
      u.dataLimitBytes ≠ some 0 ∧ ∀ t ∈ u.expiresAt, t.unix ≠ 0 := by
  have hexpiry : (∀ t ∈ u.expiresAt, t.unix ≠ 0) ↔ u.expiresAt.map Time.unix ≠ some 0 := by
    cases u.expiresAt with
    | none => simp
    | some t => simp
  rw [readUserInfo_userInfoHeader, hexpiry, ← nonzero_getD_iff, ← nonzero_getD_iff]
  -- the counters are always right; limit and expiry are what was read, if neither stood for none
  constructor
  · rintro ⟨i, hi, -, -, htotal, hexpire, -⟩
    cases hi
    exact ⟨htotal, hexpire⟩
  · rintro ⟨htotal, hexpire⟩
    refine ⟨_, rfl, rfl, rfl, htotal, hexpire, ?_⟩
    rw [htotal, hexpire]
    exact Iff.rfl

/-- A limit of 0 set by `Update`: the user is over quota, the client shows no limit. -/
theorem zero_limit_reads_unlimited :
    ∃ u w', Returns (update "u" ⟨none, some 0, none, false, none, none⟩ 0)
        (World.still ⟨Tables.sole (User.plain "u" "u@x"), Tables.sole_valid _ rfl⟩) u w' ∧
      u.dataLimitBytes = some 0 ∧ u.overQuota = true ∧
      ∃ i, readUserInfo (userInfoHeader u) = some i ∧ i.total = none ∧ i.exhausted = false := by
  have h : Returns (update "u" ⟨none, some 0, none, false, none, none⟩ 0)
      (World.still ⟨Tables.sole (User.plain "u" "u@x"), Tables.sole_valid _ rfl⟩)
      { User.plain "u" "u@x" with dataLimitBytes := some 0 } _ := rfl
  exact ⟨_, _, h, rfl, by decide, _, readUserInfo_userInfoHeader _, rfl, rfl⟩

end Sublink

end XrayApi
