import Mathlib.Algebra.Group.Int.Defs
import XrayApi.Codec.Calendar
import XrayApi.Relational.Grouping
import XrayApi.Store.Valid

/-!
# Usage reports and retention

`Store.UserUsage` sums a user's snapshots of a period, by day or by node, and `Store.PruneSnapshots`
drops old ones. The sums are made in `NUMERIC`, so they do not overflow; one that does not fit an
`int64` fails when it is read. Days are those of the time zone of the session, which is a setting of
the database and not of the source; a `Zone` says how far its clocks are ahead of UTC.
-/

set_option autoImplicit false

namespace XrayApi.Store

open XrayApi.Relational XrayApi.Codec

structure UsageBucket where
  key : String
  uplink : Int64
  downlink : Int64
  deriving DecidableEq, Repr

/-- A time zone: how far its clocks are ahead of UTC at each time. -/
abbrev Zone : Type := Time → Int

def Zone.utc : Zone := fun _ => 0

/-- The number of the day, by the clocks of the zone. -/
def dayOf (zone : Zone) (t : Time) : Int := (t + zone t) / day

/-- `to_char(date_trunc('day', t), 'YYYY-MM-DD')`. -/
def dayText (zone : Zone) (t : Time) : String := (Calendar.ofDay (dayOf zone t)).text

/-- The expression that the rows are grouped by. -/
def usageKey (zone : Zone) (groupBy : String) (r : TrafficSnapshot) : String :=
  if groupBy = "node" then r.nodeID else dayText zone r.collectedAt

/-- The user's snapshots from `since` on, before `upto`. -/
def inPeriod (userID : ID) (since upto : Time) (r : TrafficSnapshot) : Bool :=
  decide (r.userID = userID ∧ since ≤ r.collectedAt ∧ r.collectedAt < upto)

def period (t : Tables) (userID : ID) (since upto : Time) : List TrafficSnapshot :=
  t.trafficSnapshots.filter (inPeriod userID since upto)

def uplinkTotal : List TrafficSnapshot → Int := total fun r => r.uplinkBytes.toInt

def downlinkTotal : List TrafficSnapshot → Int := total fun r => r.downlinkBytes.toInt

def sumOutOfRange : StoreErr := .internal "converting driver.Value type string to a int64"

/-- The value can be read into an `int64`. -/
def fitsInt64 (x : Int) : Bool := decide (-2 ^ 63 ≤ x ∧ x < 2 ^ 63)

/-- One row of the answer. -/
def toBucket (g : String × List TrafficSnapshot) : Except StoreErr UsageBucket :=
  if fitsInt64 (uplinkTotal g.2) ∧ fitsInt64 (downlinkTotal g.2) then
    .ok ⟨g.1, .ofInt (uplinkTotal g.2), .ofInt (downlinkTotal g.2)⟩
  else .error sumOutOfRange

def userUsage (zone : Zone) (t : Tables) (userID : ID) (since upto : Time) (groupBy : String) :
    Except StoreErr (List UsageBucket) :=
  (groups (usageKey zone groupBy) (period t userID since upto)).mapM toBucket

/-- The number of snapshots before the cutoff, and the tables without them. -/
def pruneSnapshots (t : Tables) (before : Time) : Nat × Tables :=
  (t.trafficSnapshots.countP fun r => decide (r.collectedAt < before),
    { t with
      trafficSnapshots := t.trafficSnapshots.filter fun r => !decide (r.collectedAt < before) })

theorem pruneSnapshots_valid {t : Tables} {before : Time} (ht : t.Valid) :
    (pruneSnapshots t before).2.Valid :=
  { ht with
    trafficSnapshots_user := fun r hr => ht.trafficSnapshots_user r (List.mem_of_mem_filter hr)
    trafficSnapshots_node := fun r hr => ht.trafficSnapshots_node r (List.mem_of_mem_filter hr) }

/-! ## What a report says -/

/-- The buckets of the rows: one for each key, in the order of the keys, with its sums. -/
structure Reports (zone : Zone) (groupBy : String) (rows : List TrafficSnapshot)
    (buckets : List UsageBucket) : Prop where
  keys : buckets.map UsageBucket.key = groupKeys (usageKey zone groupBy) rows
  uplink : ∀ b ∈ buckets, b.uplink.toInt = uplinkTotal (group (usageKey zone groupBy) rows b.key)
  downlink : ∀ b ∈ buckets,
    b.downlink.toInt = downlinkTotal (group (usageKey zone groupBy) rows b.key)

section Reports

variable {zone : Zone} {groupBy : String} {rows : List TrafficSnapshot} {buckets : List UsageBucket}

theorem toInt_ofInt_of_fits {x : Int} (h : fitsInt64 x = true) : (Int64.ofInt x).toInt = x := by
  obtain ⟨hmin, hmax⟩ := of_decide_eq_true h
  exact Int64.toInt_ofInt_of_le hmin hmax

theorem toBucket_eq_ok {g : String × List TrafficSnapshot} {b : UsageBucket}
    (h : toBucket g = .ok b) : b.key = g.1 ∧ b.uplink.toInt = uplinkTotal g.2 ∧
      b.downlink.toInt = downlinkTotal g.2 := by
  unfold toBucket at h
  split_ifs at h with hfits
  cases h
  exact ⟨rfl, toInt_ofInt_of_fits hfits.1, toInt_ofInt_of_fits hfits.2⟩

/-- Each group has its bucket, in order. -/
theorem mapM_toBucket_eq_ok {gs : List (String × List TrafficSnapshot)}
    (h : gs.mapM toBucket = .ok buckets) :
    buckets.map UsageBucket.key = gs.map Prod.fst ∧
      ∀ b ∈ buckets, ∃ g ∈ gs, toBucket g = .ok b := by
  induction gs generalizing buckets with
  | nil =>
      cases h
      exact ⟨rfl, fun b hb => (List.not_mem_nil hb).elim⟩
  | cons g gs ih =>
      rw [List.mapM_cons] at h
      cases hg : toBucket g with
      | error e => rw [hg] at h; cases h
      | ok b =>
          rw [hg] at h
          cases hgs : gs.mapM toBucket with
          | error e => rw [hgs] at h; cases h
          | ok bs =>
              rw [hgs] at h
              cases h
              obtain ⟨hkeys, hmem⟩ := ih hgs
              refine ⟨by rw [List.map_cons, List.map_cons, hkeys, (toBucket_eq_ok hg).1], ?_⟩
              refine List.forall_mem_cons.2 ⟨⟨g, List.mem_cons_self, hg⟩, fun b' hb' => ?_⟩
              obtain ⟨g', hg', hb'⟩ := hmem b' hb'
              exact ⟨g', List.mem_cons_of_mem _ hg', hb'⟩

theorem reports_of_mapM (h : (groups (usageKey zone groupBy) rows).mapM toBucket = .ok buckets) :
    Reports zone groupBy rows buckets := by
  obtain ⟨hkeys, hmem⟩ := mapM_toBucket_eq_ok h
  have hbucket : ∀ b ∈ buckets,
      b.uplink.toInt = uplinkTotal (group (usageKey zone groupBy) rows b.key) ∧
        b.downlink.toInt = downlinkTotal (group (usageKey zone groupBy) rows b.key) := by
    intro b hb
    obtain ⟨g, hg, hok⟩ := hmem b hb
    obtain ⟨k, -, rfl⟩ := List.mem_map.1 hg
    obtain ⟨hkey, hup, hdown⟩ := toBucket_eq_ok hok
    rw [hkey]
    exact ⟨hup, hdown⟩
  exact ⟨hkeys.trans map_fst_groups, fun b hb => (hbucket b hb).1, fun b hb => (hbucket b hb).2⟩

/-- The buckets add up to the rows, whatever they are grouped by. -/
theorem Reports.sum_uplink (h : Reports zone groupBy rows buckets) :
    (buckets.map fun b => b.uplink.toInt).sum = uplinkTotal rows :=
  sum_eq_total h.keys h.uplink

theorem Reports.sum_downlink (h : Reports zone groupBy rows buckets) :
    (buckets.map fun b => b.downlink.toInt).sum = downlinkTotal rows :=
  sum_eq_total h.keys h.downlink

end Reports

/-! ## Days -/

section Days

variable {zone : Zone} {a b : Time}

/-- The date of the time has a year of four digits. -/
def FourDigits (zone : Zone) (t : Time) : Prop := (Calendar.ofDay (dayOf zone t)).FourDigits

instance FourDigits.decidable (zone : Zone) (t : Time) : Decidable (FourDigits zone t) :=
  inferInstanceAs (Decidable (0 ≤ (Calendar.ofDay (dayOf zone t)).year ∧
    (Calendar.ofDay (dayOf zone t)).year ≤ 9999))

/-- Day texts are in the order of the days. -/
theorem dayText_lt (ha : FourDigits zone a) (hb : FourDigits zone b) :
    dayText zone a < dayText zone b ↔ dayOf zone a < dayOf zone b := by
  unfold dayText
  rw [Calendar.text_lt_text (Calendar.valid_ofDay _) (Calendar.valid_ofDay _) ha hb]
  refine ⟨fun h => ?_, Calendar.ofDay_before_ofDay⟩
  by_contra hle
  obtain hlt | heq := Int.lt_or_eq_of_le (Int.not_lt.1 hle)
  · exact Calendar.Date.Before.irrefl _ (h.trans (Calendar.ofDay_before_ofDay hlt))
  · rw [heq] at h
    exact Calendar.Date.Before.irrefl _ h

/-- A day text names one day. -/
theorem dayText_inj (ha : FourDigits zone a) (hb : FourDigits zone b) :
    dayText zone a = dayText zone b ↔ dayOf zone a = dayOf zone b := by
  refine ⟨fun h => ?_, fun h => by rw [dayText, dayText, h]⟩
  have hab : ¬ dayOf zone a < dayOf zone b := fun hlt => (h ▸ (dayText_lt ha hb).2 hlt).false
  have hba : ¬ dayOf zone b < dayOf zone a := fun hlt => (h ▸ (dayText_lt hb ha).2 hlt).false
  omega

/-- A report by day has one bucket for each day of the session's zone with traffic, in the order of
the days, with what was collected on that day. -/
theorem userUsage_by_day (zone : Zone) {t : Tables} {userID : ID} {since upto : Time}
    {groupBy : String} {buckets : List UsageBucket} (hgroup : groupBy ≠ "node")
    (hyears : ∀ r ∈ period t userID since upto, FourDigits zone r.collectedAt)
    (h : userUsage zone t userID since upto groupBy = .ok buckets) :
    ∃ days : List Int, days.Pairwise (· < ·) ∧
      (∀ d, d ∈ days ↔ ∃ r ∈ period t userID since upto, dayOf zone r.collectedAt = d) ∧
      buckets.map UsageBucket.key = days.map (fun d => (Calendar.ofDay d).text) ∧
      ∀ b ∈ buckets, ∀ d ∈ days, b.key = (Calendar.ofDay d).text →
        b.uplink.toInt = uplinkTotal ((period t userID since upto).filter fun r =>
          decide (dayOf zone r.collectedAt = d)) ∧
        b.downlink.toInt = downlinkTotal ((period t userID since upto).filter fun r =>
          decide (dayOf zone r.collectedAt = d)) := by
  have hreports := reports_of_mapM h
  have hkey : usageKey zone groupBy =
      fun r => (Calendar.ofDay (dayOf zone r.collectedAt)).text := by
    funext r
    rw [usageKey, if_neg hgroup]
    rfl
  have hkeys : groupKeys (usageKey zone groupBy) (period t userID since upto) =
      (groupKeys (fun r : TrafficSnapshot => dayOf zone r.collectedAt)
        (period t userID since upto)).map fun d => (Calendar.ofDay d).text := by
    rw [hkey]
    exact groupKeys_map (fun r : TrafficSnapshot => dayOf zone r.collectedAt)
      (fun d => (Calendar.ofDay d).text) fun a ha b hb hlt =>
        (dayText_lt (hyears a ha) (hyears b hb)).2 hlt
  refine ⟨_, groupKeys_ascending, fun d => mem_groupKeys, hreports.keys.trans hkeys, ?_⟩
  intro b hb d hd hbd
  obtain ⟨r₀, hr₀, rfl⟩ := mem_groupKeys.1 hd
  have hrows : group (usageKey zone groupBy) (period t userID since upto) b.key =
      group (fun r => dayOf zone r.collectedAt) (period t userID since upto)
        (dayOf zone r₀.collectedAt) := by
    rw [hbd, hkey]
    exact group_map (fun r : TrafficSnapshot => dayOf zone r.collectedAt)
      (fun d => (Calendar.ofDay d).text) fun r hr heq =>
        (dayText_inj (hyears r hr) (hyears r₀ hr₀)).1 heq
  rw [hreports.uplink b hb, hreports.downlink b hb, hrows]
  exact ⟨rfl, rfl⟩

/-- The clocks are three and a half hours ahead, as in Tehran. -/
def tehran : Zone := fun _ => 7 * (day / 48)

/-- Traffic of an evening, in three snapshots. -/
def evening : Tables :=
  { Tables.empty with
    trafficSnapshots := [⟨"u", "n", 3, 1, day - 1⟩, ⟨"u", "n", 2, 0, 0⟩, ⟨"u", "n", 5, 0, day⟩] }

/-- The last snapshot of the first day in UTC belongs to the next day in Tehran. -/
theorem userUsage_by_day_evening :
    (userUsage .utc evening "u" 0 (2 * day) "day" =
        .ok [⟨"1970-01-01", 5, 1⟩, ⟨"1970-01-02", 5, 0⟩] ∧
      userUsage tehran evening "u" 0 (2 * day) "day" =
        .ok [⟨"1970-01-01", 2, 0⟩, ⟨"1970-01-02", 8, 1⟩]) ∧
      ∃ days : List Int, days.Pairwise (· < ·) ∧
        ["1970-01-01", "1970-01-02"] = days.map fun d => (Calendar.ofDay d).text := by
  have hreport : userUsage tehran evening "u" 0 (2 * day) "day" =
      .ok [⟨"1970-01-01", 2, 0⟩, ⟨"1970-01-02", 8, 1⟩] := by decide +kernel
  have hyears : ∀ r ∈ period evening "u" 0 (2 * day), FourDigits tehran r.collectedAt := by
    decide +kernel
  obtain ⟨days, hascending, -, hkeys, -⟩ := userUsage_by_day tehran (by decide) hyears hreport
  exact ⟨⟨by decide +kernel, hreport⟩, days, hascending, hkeys⟩

end Days

end XrayApi.Store
