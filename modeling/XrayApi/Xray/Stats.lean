import Mathlib.Algebra.BigOperators.Group.List.Basic
import XrayApi.Codec.Text
import XrayApi.System.Exec

/-!
# Traffic statistics of a node

A node counts traffic under names such as `user>>>a@x>>>traffic>>>uplink`. `parseUserStatName` takes
a name apart at the last separator, since an email may contain the separator itself; it reads
exactly the names that `statName` writes. `queryUserTraffic` adds up the counters by email and
direction.
-/

set_option autoImplicit false

namespace XrayApi.Xray

open Codec Relational

/-! ## Names -/

/-- The email and the direction of a counter, if the name is that of one. -/
def parseUserStatName (name : String) : Option (String × String) :=
  let mid := ">>>traffic>>>".toList
  if "user>>>".toList <+: name.toList then
    let rest := name.toList.drop "user>>>".toList.length
    match lastIndex mid rest with
    | none => none
    | some i =>
      let email := String.ofList (rest.take i)
      let dir := String.ofList (rest.drop (i + mid.length))
      if email = "" ∨ (dir ≠ "uplink" ∧ dir ≠ "downlink") then none else some (email, dir)
  else none

/-- The name of the counter of an email and a direction. -/
def statName (email dir : String) : String :=
  "user>>>" ++ email ++ ">>>traffic>>>" ++ dir

theorem toList_statName (email dir : String) :
    (statName email dir).toList =
      "user>>>".toList ++ (email.toList ++ (">>>traffic>>>".toList ++ dir.toList)) := by
  simp only [statName, String.toList_append, List.append_assoc]

/-- Neither direction has the last character of the separator in it. -/
theorem lastIndex_stat {dir : String} (hdir : dir = "uplink" ∨ dir = "downlink") (email : String) :
    lastIndex ">>>traffic>>>".toList (email.toList ++ (">>>traffic>>>".toList ++ dir.toList)) =
      some email.toList.length := by
  have hafter : '>' ∉ dir.toList := by
    obtain rfl | rfl := hdir
    · decide
    · decide
  have hsep : ">>>traffic>>>".toList = ">>>traffic>>".toList ++ ['>'] := rfl
  rw [hsep]
  exact lastIndex_append hafter email.toList

/-- Counters are named by what is parsed from their names. -/
theorem eq_statName_of_parse {name email dir : String}
    (h : parseUserStatName name = some (email, dir)) :
    email ≠ "" ∧ (dir = "uplink" ∨ dir = "downlink") ∧ name = statName email dir := by
  unfold parseUserStatName at h
  dsimp only at h
  split_ifs at h with hstart
  obtain ⟨rest, hrest⟩ := hstart
  rw [← hrest, List.drop_left] at h
  cases hi : lastIndex ">>>traffic>>>".toList rest with
  | none =>
      rw [hi] at h
      cases h
  | some i =>
      rw [hi] at h
      dsimp only at h
      split_ifs at h with hbad
      rw [not_or, not_and_or, not_not, not_not] at hbad
      cases h
      -- what stands before and after the last separator makes up the rest again
      have hemail : (String.ofList (rest.take i)).toList = rest.take i := String.toList_ofList
      have hdir : (String.ofList (rest.drop (i + ">>>traffic>>>".toList.length))).toList =
          rest.drop (i + ">>>traffic>>>".toList.length) := String.toList_ofList
      refine ⟨hbad.1, hbad.2, String.toList_inj.1 ?_⟩
      rw [toList_statName, hemail, hdir, ← occurs_of_lastIndex hi, hrest]

theorem parse_statName {email dir : String} (hemail : email ≠ "")
    (hdir : dir = "uplink" ∨ dir = "downlink") :
    parseUserStatName (statName email dir) = some (email, dir) := by
  have htake : String.ofList ((email.toList ++ (">>>traffic>>>".toList ++ dir.toList)).take
      email.toList.length) = email := by
    rw [List.take_left]
    exact String.ofList_toList
  have hdrop : String.ofList ((email.toList ++ (">>>traffic>>>".toList ++ dir.toList)).drop
      (email.toList.length + ">>>traffic>>>".toList.length)) = dir := by
    rw [← List.drop_drop, List.drop_left, List.drop_left]
    exact String.ofList_toList
  have hgood : ¬ (email = "" ∨ (dir ≠ "uplink" ∧ dir ≠ "downlink")) := by
    rw [not_or, not_and_or, not_not, not_not]
    exact ⟨hemail, hdir⟩
  unfold parseUserStatName
  simp only [toList_statName, List.prefix_append, if_true, List.drop_left,
    lastIndex_stat hdir, htake, hdrop, if_neg hgood]

/-- A name is parsed exactly when it is that of a counter, and no name is that of two. -/
theorem parseUserStatName_exact :
    (∀ name email dir, parseUserStatName name = some (email, dir) ↔
      email ≠ "" ∧ (dir = "uplink" ∨ dir = "downlink") ∧
        name = "user>>>" ++ email ++ ">>>traffic>>>" ++ dir) ∧
    ∀ name, { p : String × String | p.1 ≠ "" ∧ (p.2 = "uplink" ∨ p.2 = "downlink") ∧
      name = "user>>>" ++ p.1 ++ ">>>traffic>>>" ++ p.2 }.Subsingleton := by
  refine ⟨fun name email dir => ⟨eq_statName_of_parse, ?_⟩, ?_⟩
  · rintro ⟨hemail, hdir, rfl⟩
    exact parse_statName hemail hdir
  · rintro _ p ⟨hemail, hdir, rfl⟩ q ⟨hemail', hdir', hname⟩
    -- both pairs are what is parsed from the one name
    have hq : parseUserStatName (statName p.1 p.2) = some q := by
      unfold statName
      rw [hname]
      exact parse_statName hemail' hdir'
    rw [parse_statName hemail hdir] at hq
    exact Option.some.inj hq

example : parseUserStatName "user>>>a>>>traffic>>>b>>>>traffic>>>uplink" =
    some ("a>>>traffic>>>b>", "uplink") := by
  decide

/-! ## Counters -/

/-- Add a value to the counter of a direction. -/
def count (dir : String) (value : Int64) (t : UserTraffic) : UserTraffic :=
  if dir = "uplink" then { t with uplink := t.uplink + value }
  else if dir = "downlink" then { t with downlink := t.downlink + value }
  else t

/-- One round of the loop: the entry of the email, a new one if there is none, counts the value. -/
def tally (byEmail : List UserTraffic) (st : String × Int64) : List UserTraffic :=
  match parseUserStatName st.1 with
  | none => byEmail
  | some (email, dir) => upsert UserTraffic.email (count dir st.2) ⟨email, 0, 0⟩ byEmail

/-- The counters by email. The entries of a Go map come in any order; here they stand as they were
made. -/
def queryUserTraffic (stats : List (String × Int64)) : List UserTraffic :=
  stats.foldl tally []

/-- Additions of 64-bit integers wrap around. -/
instance instAddCommMonoidInt64 : AddCommMonoid Int64 where
  add_assoc := Int64.add_assoc
  zero_add := Int64.zero_add
  add_zero := Int64.add_zero
  add_comm := Int64.add_comm
  nsmul := nsmulRec

/-- The values counted for the email in the direction. -/
def valuesFor (email dir : String) (stats : List (String × Int64)) : List Int64 :=
  (stats.filter fun st => decide (parseUserStatName st.1 = some (email, dir))).map Prod.snd

/-- The values under names that are parsed. -/
def acceptedValues (stats : List (String × Int64)) : List Int64 :=
  (stats.filter fun st => (parseUserStatName st.1).isSome).map Prod.snd

/-- The email has a name that is parsed. -/
def Occurs (email : String) (stats : List (String × Int64)) : Prop :=
  ∃ st ∈ stats, ∃ dir, parseUserStatName st.1 = some (email, dir)

section Tally

variable {l : List UserTraffic} {st : String × Int64} {email : String}

@[simp] theorem email_count (dir : String) (value : Int64) (t : UserTraffic) :
    (count dir value t).email = t.email := by
  unfold count
  split_ifs <;> rfl

theorem nodup_tally (h : (l.map UserTraffic.email).Nodup) :
    ((tally l st).map UserTraffic.email).Nodup := by
  unfold tally
  split
  · exact h
  · exact nodup_map_upsert (email_count _ _) h

theorem mem_tally : email ∈ (tally l st).map UserTraffic.email ↔
    email ∈ l.map UserTraffic.email ∨ ∃ dir, parseUserStatName st.1 = some (email, dir) := by
  unfold tally
  split
  · next hparse => simp [hparse]
  · next e dir hparse =>
      rw [mem_map_upsert (email_count _ _), hparse]
      simp only [Option.some.injEq, Prod.mk.injEq, exists_and_left, exists_eq', and_true]
      exact or_congr_right eq_comm

/-- The counters of the email before the next value. -/
def countersOf (l : List UserTraffic) (email : String) : Int64 × Int64 :=
  ((lookup UserTraffic.email email l).map fun t => (t.uplink, t.downlink)).getD (0, 0)

theorem countersOf_tally :
    countersOf (tally l st) email =
      ((countersOf l email).1 + (valuesFor email "uplink" [st]).sum,
        (countersOf l email).2 + (valuesFor email "downlink" [st]).sum) := by
  unfold tally
  split
  · next hparse => simp [valuesFor, hparse]
  · next e dir hparse =>
      obtain ⟨-, hdir, -⟩ := eq_statName_of_parse hparse
      unfold countersOf
      rw [lookup_upsert (email_count _ _)]
      by_cases he : email = e
      · subst he
        -- the value goes to one of the two counters
        obtain rfl | rfl := hdir
        · cases lookup UserTraffic.email email l <;> simp [valuesFor, hparse, count]
        · cases lookup UserTraffic.email email l <;> simp [valuesFor, hparse, count]
      · simp [valuesFor, hparse, he, Ne.symm he]

/-- A change of one row shows in the sum over all rows. -/
theorem sum_upsert {α κ M : Type} [DecidableEq κ] [AddCommMonoid M] {key : α → κ} {f : α → α}
    {new : α} {rows : List α} {g : α → M} {v : M} (hf : ∀ r, g (f r) = g r + v) (hnew : g new = 0)
    (h : (rows.map key).Nodup) : ((upsert key f new rows).map g).sum = (rows.map g).sum + v := by
  unfold upsert
  split_ifs with hmem
  · induction rows with
    | nil => cases hmem
    | cons r rows ih =>
        rw [List.map_cons, List.nodup_cons] at h
        simp only [updateWhere, List.map_cons, List.sum_cons]
        by_cases hr : key r = key new
        · -- the other rows have other keys
          have hrest : updateWhere (fun r => decide (key r = key new)) f rows = rows := by
            refine (List.map_congr_left fun s hs => ?_).trans (List.map_id' rows)
            have hne : ¬ key s = key new := fun heq =>
              h.1 (List.mem_map.2 ⟨s, hs, heq.trans hr.symm⟩)
            exact if_neg (mt of_decide_eq_true hne)
          unfold updateWhere at hrest
          rw [hrest, if_pos (decide_eq_true hr), hf, add_right_comm]
        · have hmem : key new ∈ rows.map key :=
            (List.mem_cons.1 hmem).resolve_left fun heq => hr heq.symm
          have ih := ih h.2 hmem
          unfold updateWhere at ih
          rw [ih, if_neg (mt of_decide_eq_true hr), add_assoc]
  · rw [List.map_append, List.map_singleton, List.sum_append, List.sum_singleton, hf,
      hnew, zero_add]

theorem total_tally (h : (l.map UserTraffic.email).Nodup) :
    ((tally l st).map fun t => t.uplink + t.downlink).sum =
      (l.map fun t => t.uplink + t.downlink).sum + (acceptedValues [st]).sum := by
  unfold tally
  split
  · next hparse => simp [acceptedValues, hparse]
  · next e dir hparse =>
      obtain ⟨-, hdir, -⟩ := eq_statName_of_parse hparse
      have haccepted : (acceptedValues [st]).sum = st.2 := by simp [acceptedValues, hparse]
      rw [haccepted]
      refine sum_upsert (fun t => ?_) (by simp) h
      obtain rfl | rfl := hdir
      · simp only [count, if_true]
        exact add_right_comm _ _ _
      · simp only [count, if_true, if_neg (by decide : ¬ "downlink" = "uplink")]
        exact (add_assoc _ _ _).symm

end Tally

/-! ## The whole reply -/

section Reply

variable {stats stats' : List (String × Int64)} {email dir : String}

theorem valuesFor_cons (st : String × Int64) :
    valuesFor email dir (st :: stats) = valuesFor email dir [st] ++ valuesFor email dir stats := by
  unfold valuesFor
  rw [← List.map_append, ← List.filter_append]
  rfl

theorem acceptedValues_cons (st : String × Int64) :
    acceptedValues (st :: stats) = acceptedValues [st] ++ acceptedValues stats := by
  unfold acceptedValues
  rw [← List.map_append, ← List.filter_append]
  rfl

theorem nodup_foldl_tally {l : List UserTraffic} (h : (l.map UserTraffic.email).Nodup) :
    ((stats.foldl tally l).map UserTraffic.email).Nodup := by
  induction stats generalizing l with
  | nil => exact h
  | cons st stats ih => exact ih (nodup_tally h)

theorem mem_foldl_tally {l : List UserTraffic} :
    email ∈ (stats.foldl tally l).map UserTraffic.email ↔
      email ∈ l.map UserTraffic.email ∨ Occurs email stats := by
  induction stats generalizing l with
  | nil => simp [Occurs]
  | cons st stats ih =>
      rw [List.foldl_cons, ih, mem_tally, or_assoc]
      simp [Occurs]

theorem countersOf_foldl_tally {l : List UserTraffic} :
    countersOf (stats.foldl tally l) email =
      ((countersOf l email).1 + (valuesFor email "uplink" stats).sum,
        (countersOf l email).2 + (valuesFor email "downlink" stats).sum) := by
  induction stats generalizing l with
  | nil => simp [valuesFor]
  | cons st stats ih =>
      have hcons : ∀ dir, (valuesFor email dir (st :: stats)).sum =
          (valuesFor email dir [st]).sum + (valuesFor email dir stats).sum := by
        intro dir
        rw [valuesFor_cons, List.sum_append]
      rw [List.foldl_cons, ih, countersOf_tally, hcons, hcons, ← add_assoc, ← add_assoc]

theorem total_foldl_tally {l : List UserTraffic} (h : (l.map UserTraffic.email).Nodup) :
    ((stats.foldl tally l).map fun t => t.uplink + t.downlink).sum =
      (l.map fun t => t.uplink + t.downlink).sum + (acceptedValues stats).sum := by
  induction stats generalizing l with
  | nil => simp [acceptedValues]
  | cons st stats ih =>
      have hcons : (acceptedValues (st :: stats)).sum =
          (acceptedValues [st]).sum + (acceptedValues stats).sum := by
        rw [acceptedValues_cons, List.sum_append]
      rw [List.foldl_cons, ih (nodup_tally h), total_tally h, hcons, add_assoc]

theorem nodup_queryUserTraffic : ((queryUserTraffic stats).map UserTraffic.email).Nodup :=
  nodup_foldl_tally List.nodup_nil

/-- The entries of the reply: those of the emails that occur, with their sums. -/
theorem mem_queryUserTraffic {t : UserTraffic} :
    t ∈ queryUserTraffic stats ↔ Occurs t.email stats ∧
      t.uplink = (valuesFor t.email "uplink" stats).sum ∧
      t.downlink = (valuesFor t.email "downlink" stats).sum := by
  have hcounters : ∀ email, countersOf (queryUserTraffic stats) email =
      ((valuesFor email "uplink" stats).sum, (valuesFor email "downlink" stats).sum) := by
    intro email
    rw [queryUserTraffic, countersOf_foldl_tally]
    simp [countersOf, lookup]
  have hemail : ∀ email, email ∈ (queryUserTraffic stats).map UserTraffic.email ↔
      Occurs email stats := by
    intro email
    rw [queryUserTraffic, mem_foldl_tally]
    simp
  constructor
  · intro ht
    have hlookup : lookup UserTraffic.email t.email (queryUserTraffic stats) = some t :=
      (lookup_eq_some_iff nodup_queryUserTraffic).2 ⟨ht, rfl⟩
    have ht' := hcounters t.email
    rw [countersOf, hlookup] at ht'
    obtain ⟨hup, hdown⟩ := Prod.mk.inj ht'
    exact ⟨(hemail _).1 (List.mem_map_of_mem ht), hup, hdown⟩
  · -- the email has an entry, and an entry is its email and its sums
    rintro ⟨hoccurs, hup, hdown⟩
    obtain ⟨r, hr⟩ := exists_lookup_of_mem ((hemail _).2 hoccurs)
    have hr' := hcounters t.email
    rw [countersOf, hr] at hr'
    obtain ⟨hup', hdown'⟩ := Prod.mk.inj hr'
    have heq : r = t := by
      obtain ⟨email, up, down⟩ := r
      obtain ⟨email', up', down'⟩ := t
      have hkey : email = email' := key_of_lookup hr
      dsimp only at hup hdown hup' hdown'
      rw [hkey, hup', hdown', hup, hdown]
    exact heq ▸ mem_of_lookup hr

/-- Two replies to the same statistics in another order have the same entries. -/
theorem queryUserTraffic_perm (h : stats.Perm stats') :
    (queryUserTraffic stats).Perm (queryUserTraffic stats') := by
  have hnodup : ∀ stats, (queryUserTraffic stats).Nodup := fun _ =>
    List.Nodup.of_map _ nodup_queryUserTraffic
  refine (List.perm_ext_iff_of_nodup (hnodup _) (hnodup _)).2 fun t => ?_
  have hsum : ∀ dir, (valuesFor t.email dir stats).sum = (valuesFor t.email dir stats').sum :=
    fun _ => ((h.filter _).map _).sum_eq
  have hoccurs : Occurs t.email stats ↔ Occurs t.email stats' :=
    exists_congr fun _ => and_congr_left fun _ => h.mem_iff
  rw [mem_queryUserTraffic, mem_queryUserTraffic, hsum, hsum, hoccurs]

end Reply

/-- Nothing is lost or mixed up: whatever the order of the entries, there is one for each email with
a name that is parsed, it has the sums of the email's values, the order of the statistics does not
matter, and all values under such names are counted. -/
theorem queryUserTraffic_exact (stats : List (String × Int64)) (out : List UserTraffic)
    (h : out.Perm (queryUserTraffic stats)) :
    (out.map UserTraffic.email).Nodup ∧
    (∀ email, email ∈ out.map UserTraffic.email ↔
      ∃ st ∈ stats, ∃ dir, parseUserStatName st.1 = some (email, dir)) ∧
    (∀ t ∈ out, t.uplink = (valuesFor t.email "uplink" stats).sum ∧
      t.downlink = (valuesFor t.email "downlink" stats).sum) ∧
    (∀ (stats' : List (String × Int64)) (out' : List UserTraffic),
      stats'.Perm stats → out'.Perm (queryUserTraffic stats') → out'.Perm out) ∧
    (out.map fun t => t.uplink + t.downlink).sum = (acceptedValues stats).sum := by
  refine ⟨(h.map _).nodup_iff.2 nodup_queryUserTraffic, fun email => ?_, fun t ht => ?_, ?_, ?_⟩
  · rw [(h.map _).mem_iff, queryUserTraffic, mem_foldl_tally]
    simp [Occurs]
  · exact (mem_queryUserTraffic.1 (h.mem_iff.1 ht)).2
  · intro stats' out' hstats hout
    exact (hout.trans (queryUserTraffic_perm hstats)).trans h.symm
  · rw [(h.map _).sum_eq, queryUserTraffic, total_foldl_tally (l := []) List.nodup_nil]
    exact zero_add _

theorem queryUserTraffic_exact_two :
    [(⟨"b", 0, 4⟩ : UserTraffic), ⟨"a", 3, 0⟩].Perm (queryUserTraffic
      [("user>>>a>>>traffic>>>uplink", 1), ("user>>>b>>>traffic>>>downlink", 4), ("inbound>>>a", 9),
        ("user>>>a>>>traffic>>>uplink", 2)]) ∧
    ([(⟨"b", 0, 4⟩ : UserTraffic), ⟨"a", 3, 0⟩].map fun t => t.uplink + t.downlink).sum =
      (acceptedValues [("user>>>a>>>traffic>>>uplink", 1), ("user>>>b>>>traffic>>>downlink", 4),
        ("inbound>>>a", 9), ("user>>>a>>>traffic>>>uplink", 2)]).sum := by
  have h : [(⟨"b", 0, 4⟩ : UserTraffic), ⟨"a", 3, 0⟩].Perm (queryUserTraffic
      [("user>>>a>>>traffic>>>uplink", 1), ("user>>>b>>>traffic>>>downlink", 4), ("inbound>>>a", 9),
        ("user>>>a>>>traffic>>>uplink", 2)]) := by decide
  exact ⟨h, (queryUserTraffic_exact _ _ h).2.2.2.2⟩

end XrayApi.Xray
