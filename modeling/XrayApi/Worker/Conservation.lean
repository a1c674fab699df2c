import Mathlib.Algebra.Order.BigOperators.Group.List
import Mathlib.Data.Int.ModEq
import XrayApi.Store.Rows
import XrayApi.Worker.Collector

/-!
# No traffic is lost or counted twice

`Actor.Step` is one step of a collector that runs the program `collect`, cycle after cycle, among
others that may do anything to the world, with every statement free to fail. The run keeps a log:
the counters that were read from the node, and the commits, each with the world in which its cycle
resolved the emails and the worlds before and after it. From the log one reads, for each direction
and email, what was read, what was committed for the email's user, what that added to the user's
row, and what was dropped because no user had the email when it was resolved. At every point of
every run these balance with the buffer.

Go's `int64` sums wrap around, so they balance modulo `2 ^ 64`, and exactly while the total fits.
-/

set_option autoImplicit false

namespace XrayApi.Worker

open Transition Store Relational Service

/-- A direction of traffic. -/
inductive Direction
  | uplink
  | downlink
  deriving DecidableEq, Repr

namespace Direction

def ofTraffic : Direction → UserTraffic → Int64
  | uplink, t => t.uplink
  | downlink, t => t.downlink

def ofDelta : Direction → TrafficDelta → Int64
  | uplink, d => d.uplink
  | downlink, d => d.downlink

def ofUser : Direction → User → Int64
  | uplink, u => u.usedUploadBytes
  | downlink, u => u.usedDownloadBytes

end Direction

section Amounts

variable (dir : Direction)

/-- What the list of counters has for the email. -/
def reported (email : String) (l : List UserTraffic) : ℤ :=
  ((l.filter fun t => decide (t.email = email)).map fun t => (dir.ofTraffic t).toInt).sum

/-- What the buffer has for the email. -/
def held (email : String) (p : PendingDeltas) : Int64 :=
  ((lookup UserTraffic.email email p.entries).map dir.ofTraffic).getD 0

/-- What the deltas have for the user. -/
def charged (id : ID) (ds : List TrafficDelta) : ℤ :=
  ((ds.filter fun d => decide (d.userID = id)).map fun d => (dir.ofDelta d).toInt).sum

/-- The running total in the user's row. -/
def stored (id : ID) (t : Tables) : ℤ :=
  ((lookup User.id id t.users).map fun u => (dir.ofUser u).toInt).getD 0

end Amounts

section

variable {dir : Direction} {email : String} {id : ID}

@[simp] theorem reported_nil : reported dir email [] = 0 := rfl

theorem reported_cons (t : UserTraffic) (l : List UserTraffic) :
    reported dir email (t :: l) =
      (if t.email = email then (dir.ofTraffic t).toInt else 0) + reported dir email l := by
  unfold reported
  by_cases h : t.email = email <;> simp [h]

@[simp] theorem charged_nil : charged dir id [] = 0 := rfl

theorem charged_cons (d : TrafficDelta) (ds : List TrafficDelta) :
    charged dir id (d :: ds) =
      (if d.userID = id then (dir.ofDelta d).toInt else 0) + charged dir id ds := by
  unfold charged
  by_cases h : d.userID = id <;> simp [h]

theorem charged_perm {ds ds' : List TrafficDelta} (h : ds.Perm ds') :
    charged dir id ds = charged dir id ds' :=
  ((h.filter _).map _).sum_eq

@[simp] theorem held_empty : held dir email .empty = 0 := rfl

theorem reported_eq_zero {l : List UserTraffic} (h : email ∉ l.map UserTraffic.email) :
    reported dir email l = 0 := by
  have hnone : (l.filter fun t => decide (t.email = email)) = [] := by
    refine List.filter_eq_nil_iff.2 fun t ht hdec => ?_
    exact h (List.mem_map.2 ⟨t, ht, of_decide_eq_true hdec⟩)
  rw [reported, hnone]
  rfl

/-- The buffer has one entry per email. -/
theorem reported_entries (p : PendingDeltas) :
    reported dir email p.entries = (held dir email p).toInt := by
  obtain ⟨l, hl⟩ := p
  induction l with
  | nil => rfl
  | cons t l ih =>
      rw [List.map_cons, List.nodup_cons] at hl
      rw [reported_cons]
      by_cases ht : t.email = email
      · rw [reported_eq_zero (ht ▸ hl.1)]
        simp [held, lookup, ht]
      · rw [ih hl.2]
        simp [held, lookup, ht]

/-! ## Merging -/

/-- A wrapped sum, up to the wrap. -/
theorem toInt_add_modEq (a b : Int64) : (a + b).toInt ≡ a.toInt + b.toInt [ZMOD 2 ^ 64] := by
  rw [Int64.toInt_add]
  exact Int.bmod_emod

theorem toInt_add_of_fitsBigint {a b : Int64} (h : fitsBigint a b) :
    (a + b).toInt = a.toInt + b.toInt := by
  have hfit := of_decide_eq_true h
  rw [Int64.toInt_add]
  exact Int.bmod_eq_of_le (by omega) (by omega)

theorem held_add (p : PendingDeltas) (t : UserTraffic) :
    held dir email (p.add t) =
      if t.email = email then held dir email p + dir.ofTraffic t else held dir email p := by
  unfold held TrafficReport.add
  by_cases hmem : t.email ∈ p.entries.map UserTraffic.email
  · simp only [if_pos hmem]
    rw [lookup_updateWhere _ _ fun _ _ => by rfl]
    by_cases ht : t.email = email
    · obtain ⟨r, hr⟩ := exists_lookup_of_mem hmem
      rw [ht] at hr
      have hre := key_of_lookup hr
      rw [hr]
      cases dir <;> simp [ht, hre, Direction.ofTraffic]
    · cases hr : lookup UserTraffic.email email p.entries with
      | none => simp [ht]
      | some r =>
          have hne : r.email ≠ t.email := fun h => ht (h.symm.trans (key_of_lookup hr))
          simp [ht, hne]
  · simp only [if_neg hmem]
    rw [lookup_append_singleton]
    by_cases ht : t.email = email
    · have hnone := lookup_eq_none_iff.2 (ht ▸ hmem)
      simp [hnone, ht]
    · simp [ht]

/-- The buffer after the merge loop, up to the wrap. -/
theorem held_merge_modEq (p : PendingDeltas) (traffic : List UserTraffic) :
    (held dir email (p.merge traffic)).toInt ≡
      (held dir email p).toInt + reported dir email traffic [ZMOD 2 ^ 64] := by
  induction traffic generalizing p with
  | nil => simp [TrafficReport.merge]
  | cons t traffic ih =>
      refine (ih (p.add t)).trans ?_
      rw [held_add, reported_cons, ← add_assoc]
      refine Int.ModEq.add_right _ ?_
      split_ifs with ht
      · exact toInt_add_modEq _ _
      · rw [add_zero]

theorem reported_nonneg {traffic : List UserTraffic}
    (h : ∀ t ∈ traffic, 0 ≤ (dir.ofTraffic t).toInt) : 0 ≤ reported dir email traffic := by
  refine List.sum_nonneg fun x hx => ?_
  obtain ⟨t, ht, rfl⟩ := List.mem_map.1 hx
  exact h t (List.mem_of_mem_filter ht)

/-- The buffer after the merge loop, while the sum fits. -/
theorem held_merge_of_lt {p : PendingDeltas} {traffic : List UserTraffic}
    (hp : 0 ≤ (held dir email p).toInt) (h : ∀ t ∈ traffic, 0 ≤ (dir.ofTraffic t).toInt)
    (hlt : (held dir email p).toInt + reported dir email traffic < 2 ^ 63) :
    (held dir email (p.merge traffic)).toInt =
      (held dir email p).toInt + reported dir email traffic := by
  induction traffic generalizing p with
  | nil => simp [TrafficReport.merge]
  | cons t traffic ih =>
      have ht := h t List.mem_cons_self
      have hrest := fun t' ht' => h t' (List.mem_cons_of_mem t ht')
      have hnn : 0 ≤ reported dir email traffic := reported_nonneg hrest
      rw [reported_cons] at hlt
      have hadd : (held dir email (p.add t)).toInt =
          (held dir email p).toInt + if t.email = email then (dir.ofTraffic t).toInt else 0 := by
        rw [held_add]
        split_ifs with hte
        · rw [if_pos hte] at hlt
          exact toInt_add_of_fitsBigint (decide_eq_true ⟨by omega, by omega⟩)
        · rw [add_zero]
      have hstep : held dir email (p.merge (t :: traffic)) =
          held dir email ((p.add t).merge traffic) := rfl
      rw [hstep, ih _ hrest _, hadd, reported_cons, add_assoc]
      · rw [hadd]
        split_ifs <;> omega
      · rw [hadd]
        omega

/-! ## Writing -/

theorem stored_applyDeltaTx {n : ID} {collectedAt : Time} {t t' : Tables} {d : TrafficDelta}
    (h : applyDeltaTx n collectedAt t d = .ok t') :
    stored dir id t' =
      stored dir id t + if d.userID = id then (dir.ofDelta d).toInt else 0 := by
  obtain ⟨hu, hd, rfl⟩ | ⟨-, hmem, -, hfit, rfl⟩ := applyDeltaTx_eq_ok h
  · have hzero : (dir.ofDelta d).toInt = 0 := by
      cases dir with
      | uplink => exact congrArg Int64.toInt hu
      | downlink => exact congrArg Int64.toInt hd
    simp [hzero]
  · unfold stored
    rw [lookup_updateWhere _ _ fun _ _ => by rfl]
    cases hr : lookup User.id id t.users with
    | none =>
        have hne : d.userID ≠ id := fun he => lookup_eq_none_iff.1 hr (he ▸ hmem)
        simp [hne]
    | some r =>
        have hid := key_of_lookup hr
        by_cases he : d.userID = id
        · have hf := hfit r (mem_of_lookup hr) (hid.trans he.symm)
          cases dir with
          | uplink => simp [he, hid, Direction.ofUser, Direction.ofDelta,
              toInt_add_of_fitsBigint hf.1]
          | downlink => simp [he, hid, Direction.ofUser, Direction.ofDelta,
              toInt_add_of_fitsBigint hf.2]
        · have hne : ¬ id = d.userID := fun h => he h.symm
          simp [he, hid, hne]

theorem stored_foldlM_applyDeltaTx {n : ID} {collectedAt : Time} {t t' : Tables}
    {ds : List TrafficDelta} (h : ds.foldlM (applyDeltaTx n collectedAt) t = .ok t') :
    stored dir id t' = stored dir id t + charged dir id ds := by
  induction ds generalizing t with
  | nil =>
      cases h
      simp
  | cons d ds ih =>
      rw [List.foldlM_cons] at h
      cases hd : applyDeltaTx n collectedAt t d with
      | error e => rw [hd] at h; cases h
      | ok t₁ =>
          rw [hd] at h
          rw [ih h, stored_applyDeltaTx hd, charged_cons, add_assoc]

/-- A commit adds to each user's row what its deltas have for the user, without a wrap. -/
theorem stored_applyTrafficDeltas {n : ID} {collectedAt : Time} {t t' : Tables}
    {ds : List TrafficDelta} {ids : List ID}
    (h : applyTrafficDeltas t n ds collectedAt = .ok (ids, t')) :
    stored dir id t' = stored dir id t + charged dir id ds := by
  obtain ⟨t₁, hloop, -, -, rfl⟩ := applyTrafficDeltas_inv h
  rw [← stored_foldlM_applyDeltaTx hloop]
  unfold stored
  rw [lookup_updateWhere _ _ fun _ _ => by rfl]
  cases lookup User.id id t₁.users with
  | none => rfl
  | some r =>
      cases dir <;> by_cases hc : crossedLimit r <;> simp [hc, Direction.ofUser]

/-- The id of the user with the email. -/
def owner (t : Tables) (email : String) : Option ID := (lookup User.email email t.users).map User.id

/-- Two emails never belong to one user. -/
theorem owner_inj {t : Tables} (ht : t.Valid) {email' : String} (h : owner t email = some id)
    (h' : owner t email' = some id) : email' = email := by
  obtain ⟨u, hu, rfl⟩ := Option.map_eq_some_iff.1 h
  obtain ⟨u', hu', hid⟩ := Option.map_eq_some_iff.1 h'
  have hsame : u' = u := List.inj_on_of_nodup_map ht.users_id (mem_of_lookup hu')
    (mem_of_lookup hu) hid
  rw [← key_of_lookup hu', ← key_of_lookup hu, hsame]

theorem owner_eq_none {t : Tables} : owner t email = none ↔ ∀ u ∈ t.users, u.email ≠ email := by
  rw [owner, Option.map_eq_none_iff, lookup_eq_none_iff]
  simp only [List.mem_map, not_exists, not_and, ne_eq]

theorem charged_filterMap {idByEmail : String → Option ID} {l : List UserTraffic}
    (h : ∀ t ∈ l, idByEmail t.email = some id ↔ t.email = email) :
    charged dir id (l.filterMap fun t =>
        (idByEmail t.email).map fun i => ⟨i, t.uplink, t.downlink⟩) = reported dir email l := by
  induction l with
  | nil => rfl
  | cons t l ih =>
      have ht := h t List.mem_cons_self
      have hl := ih fun t' ht' => h t' (List.mem_cons_of_mem t ht')
      rw [reported_cons, ← hl]
      cases hi : idByEmail t.email with
      | none =>
          have hne : t.email ≠ email := fun he => by rw [ht.2 he] at hi; cases hi
          simp [hi, hne]
      | some i =>
          rw [hi, Option.some.injEq] at ht
          have hval : (dir.ofDelta ⟨i, t.uplink, t.downlink⟩) = dir.ofTraffic t := by
            cases dir <;> rfl
          simp [hi, charged_cons, hval, ht]

/-- The write of a cycle has for the user of an email what the buffer has for the email. -/
theorem charged_deltas {t : Tables} (ht : t.Valid) (c : Cycle) (p : PendingDeltas)
    (h : owner t email = some id) :
    charged dir id (deltas c p (userIDsByEmail t p.emails)) = (held dir email p).toInt := by
  rw [← reported_entries, deltas, charged_perm ((c.perm p.entries).filterMap _)]
  refine charged_filterMap fun e he => ?_
  have hmem : e.email ∈ p.emails := List.mem_map_of_mem he
  have howner : userIDsByEmail t p.emails e.email = owner t e.email := if_pos hmem
  rw [howner]
  refine ⟨fun hid => owner_inj ht h hid, ?_⟩
  rintro rfl
  exact h

end

/-! ## The run of a collector -/

/-- A commit of a collector: the world in which its cycle resolved the emails, the worlds before and
after it, the deltas it wrote and the buffer that was cleared. -/
structure Commit where
  resolvedIn : World
  before : World
  after : World
  deltas : List TrafficDelta
  buffer : PendingDeltas

namespace Commit

variable (dir : Direction) (email : String) (c : Commit)

/-- What was written for the user the email belonged to. -/
def committed : ℤ := (owner c.resolvedIn.tables email).elim 0 fun id => charged dir id c.deltas

/-- What was added to the row of that user. -/
def added : ℤ := (owner c.resolvedIn.tables email).elim 0 fun id =>
  stored dir id c.after.tables - stored dir id c.before.tables

/-- What was cleared of an email that belonged to no user. -/
def dropped : ℤ := (owner c.resolvedIn.tables email).elim (held dir email c.buffer).toInt fun _ => 0

/-- What the buffer held for an email was written for its user, who got it, or it was dropped. -/
def Settles : Prop :=
  c.added dir email = c.committed dir email ∧
    c.committed dir email + c.dropped dir email = (held dir email c.buffer).toInt ∧
    (c.committed dir email = 0 ∨ c.dropped dir email = 0)

end Commit

/-- A collector in the world, with the rest of its cycle, and what its statements so far tell: the
field `pendingDeltas`, the world in which emails were last resolved, the counters it has read and
its commits. -/
structure Actor where
  world : World
  rest : Service PendingDeltas
  pendingDeltas : PendingDeltas
  resolvedIn : World
  readings : List (List UserTraffic)
  commits : List Commit

namespace Actor

/-- A collector that has just started, with an empty buffer. -/
def start (w : World) : Actor := ⟨w, pure .empty, .empty, w, [], []⟩

/-- The log after a statement that leaves the world `w'`. A reading is merged into the buffer, and a
commit clears it. -/
def note (A : Actor) (w' : World) : (s : Stmt) → s.Res → Actor
  | .queryUserTraffic _, .ok traffic =>
    { A with
      pendingDeltas := A.pendingDeltas.merge traffic
      readings := A.readings ++ [traffic] }
  | .db (.userIDsByEmail _), .ok _ => { A with resolvedIn := A.world }
  | .db (.applyTrafficDeltas _ ds _), .ok _ =>
    { A with
      pendingDeltas := .empty
      commits := A.commits ++ [⟨A.resolvedIn, A.world, w', ds, A.pendingDeltas⟩] }
  | _, _ => A

/-- One step: the rest of the system changes the world in any way, a cycle begins with the buffer
that the last one has returned, or the cycle executes a statement. -/
inductive Step (n : ID) : Actor → Option (Event Stmt Stmt.Res) → Actor → Prop
  | others (A : Actor) (w' : World) : Step n A none { A with world := w' }
  | begins {A : Actor} {p : PendingDeltas} (c : Cycle) :
      A.rest = pure p → Step n A none { A with rest := collect n c p }
  | executes {A : Actor} {s : Stmt} {k : s.Res → Service PendingDeltas} {r : s.Res} {w' : World} :
      A.rest = Prog.call s k → MayFail s A.world r w' →
      Step n A (some ⟨s, r⟩) { A.note w' s r with world := w', rest := k r }

section Sums

variable (A : Actor) (dir : Direction) (email : String)

def read : ℤ := (A.readings.map (reported dir email)).sum

def committed : ℤ := (A.commits.map (Commit.committed dir email)).sum

def added : ℤ := (A.commits.map (Commit.added dir email)).sum

def dropped : ℤ := (A.commits.map (Commit.dropped dir email)).sum

/-- What the buffer has for the email. -/
def pending : ℤ := (held dir email A.pendingDeltas).toInt

end Sums

/-! ## The log follows the program -/

/-- The statements after a commit. -/
def Waker : Stmt → Prop
  | .db (.assignmentTargetsForUser _) => True
  | .trigger _ => True
  | _ => False

/-- The collector stands at the control point: its program is the rest of the cycle from there, the
buffer of the log is the one there, and a cycle that is about to write has the owners of the emails
in the world in which it resolved them. -/
structure Keeps (n : ID) (A : Actor) (q : Collecting) : Prop where
  rest : A.rest = q.prog n
  buffer : A.pendingDeltas = q.pendingDeltas
  resolved : ∀ c p idByEmail, q = .writing c p idByEmail →
    idByEmail = userIDsByEmail A.resolvedIn.tables p.emails
  waking : ∀ rest, q = .waking rest → Prog.Forall Waker rest

/-- What a step does to the log: nothing, a reading, or a commit that settles what the buffer
held. -/
inductive Booked (A A' : Actor) : Option (Event Stmt Stmt.Res) → Prop
  | quiet (l : Option (Event Stmt Stmt.Res)) : A'.readings = A.readings → A'.commits = A.commits →
      A'.pendingDeltas = A.pendingDeltas → Booked A A' l
  | reading (m : ID) (traffic : List UserTraffic) : A'.readings = A.readings ++ [traffic] →
      A'.commits = A.commits → A'.pendingDeltas = A.pendingDeltas.merge traffic →
      Booked A A' (some ⟨.queryUserTraffic m, .ok traffic⟩)
  | commit (l : Option (Event Stmt Stmt.Res)) (c : Commit) : A'.readings = A.readings →
      A'.commits = A.commits ++ [c] → A'.pendingDeltas = .empty → c.buffer = A.pendingDeltas →
      (∀ dir email, c.Settles dir email) → Booked A A' l

variable {n : ID} {A A' : Actor} {l : Option (Event Stmt Stmt.Res)} {q : Collecting}

theorem note_of_waker {s : Stmt} (hs : Waker s) (w' : World) (r : s.Res) : A.note w' s r = A := by
  unfold Waker at hs
  split at hs
  · rfl
  · rfl
  · exact hs.elim

/-- The commit of a cycle settles its buffer. -/
theorem settles_of_write {w w' v : World} {c : Cycle} {p : PendingDeltas} {overQuota : List ID}
    (hsem : MayFail (.db (.applyTrafficDeltas n
      (deltas c p (userIDsByEmail v.tables p.emails)) c.collectedAt)) w (.ok overQuota) w')
    (dir : Direction) (email : String) :
    (⟨v, w, w', deltas c p (userIDsByEmail v.tables p.emails), p⟩ : Commit).Settles dir email := by
  obtain ⟨ids, t, happly, -, -, ht⟩ := answers_db_ok (mayFail_ok hsem rfl)
  unfold Commit.Settles Commit.added Commit.committed Commit.dropped
  cases hid : owner v.tables email with
  | none => exact ⟨rfl, zero_add _, Or.inl rfl⟩
  | some id =>
      have hstored : stored dir id w'.tables = stored dir id w.tables + _ :=
        ht ▸ stored_applyTrafficDeltas happly
      refine ⟨sub_eq_of_eq_add' hstored, ?_, Or.inr rfl⟩
      exact (add_zero _).trans (charged_deltas v.db.valid c p hid)

/-- Every step keeps to the program, and the log has what it did. -/
theorem Keeps.step (hq : Keeps n A q) (h : Step n A l A') :
    (∃ q', Keeps n A' q') ∧ Booked A A' l := by
  -- a control point other than the last two
  have hpoint : ∀ {A' : Actor} (q' : Collecting), A'.rest = q'.prog n →
      A'.pendingDeltas = q'.pendingDeltas → (∀ c p f, q' ≠ .writing c p f) →
      (∀ rest, q' ≠ .waking rest) → ∃ q', Keeps n A' q' :=
    fun q' hrest hbuffer hwriting hwaking => ⟨q', hrest, hbuffer,
      fun c p f heq => (hwriting c p f heq).elim, fun rest heq => (hwaking rest heq).elim⟩
  cases h with
  | others w' => exact ⟨⟨q, hq.rest, hq.buffer, hq.resolved, hq.waking⟩, .quiet _ rfl rfl rfl⟩
  | @begins p c hret =>
      have hp : p = q.pendingDeltas := Collecting.pendingDeltas_of_ret (hq.rest.symm.trans hret)
      refine ⟨hpoint (.dialing c p) rfl ?_ nofun nofun, .quiet _ rfl rfl rfl⟩
      rw [hp]
      exact hq.buffer
  | @executes s k r w' hcall hsem =>
      obtain ⟨q', hstep, hk⟩ := Collecting.prog_step (hq.rest.symm.trans hcall) r
      have hbuffer := hq.buffer
      cases hstep with
      | dialed c p | dialFailed c p e | queryFailed c p e | resolveFailed c p e hne
      | writeFailed c p f e =>
          exact ⟨hpoint _ hk hbuffer nofun nofun, .quiet _ rfl rfl rfl⟩
      | queried c p traffic =>
          exact ⟨hpoint _ hk (congrArg (TrafficReport.merge · traffic) hbuffer) nofun nofun,
            .reading n traffic rfl rfl rfl⟩
      | resolved c p f hne =>
          refine ⟨⟨_, hk, hbuffer, ?_, nofun⟩, .quiet _ rfl rfl rfl⟩
          rintro _ _ _ heq
          cases heq
          obtain ⟨o, t, happly, hrows, -, -⟩ := answers_db_ok (mayFail_ok hsem rfl)
          have hrows : f = o := hrows
          cases happly
          exact hrows
      | wrote c p f overQuota =>
          obtain rfl := hq.resolved c p f rfl
          refine ⟨⟨_, hk, rfl, nofun, ?_⟩, .commit _ _ rfl rfl rfl rfl ?_⟩
          · rintro _ heq
            cases heq
            exact reconcileEach_forall (fun _ => trivial) (fun _ => trivial) overQuota
          · have hp : A.pendingDeltas = p := hbuffer
            rw [hp]
            exact settles_of_write hsem
      | woke _ k' =>
          have hrest := hq.waking _ rfl
          have hnote : A.note w' s r = A := note_of_waker hrest.1 w' r
          rw [hnote]
          refine ⟨⟨_, hk, hbuffer, nofun, ?_⟩, .quiet _ rfl rfl rfl⟩
          rintro _ heq
          cases heq
          exact hrest.2 r

theorem keeps_start (w : World) : ∃ q, Keeps n (start w) q :=
  ⟨.idle .empty, rfl, rfl, nofun, nofun⟩

/-! ## The sums balance -/

/-- What a step does to the sums of an email: nothing, a reading that goes into the buffer, or a
commit that clears it. -/
theorem Booked.sums (h : Booked A A' l) (dir : Direction) (email : String) :
    (A'.read dir email = A.read dir email ∧ A'.committed dir email = A.committed dir email ∧
      A'.added dir email = A.added dir email ∧ A'.dropped dir email = A.dropped dir email ∧
      A'.pending dir email = A.pending dir email) ∨
    (∃ m traffic, l = some ⟨.queryUserTraffic m, .ok traffic⟩ ∧
      A'.read dir email = A.read dir email + reported dir email traffic ∧
      A'.committed dir email = A.committed dir email ∧ A'.added dir email = A.added dir email ∧
      A'.dropped dir email = A.dropped dir email ∧
      A'.pendingDeltas = A.pendingDeltas.merge traffic) ∨
    (A'.read dir email = A.read dir email ∧ A'.pending dir email = 0 ∧
      ∃ x y, A'.committed dir email = A.committed dir email + x ∧
        A'.added dir email = A.added dir email + x ∧
        A'.dropped dir email = A.dropped dir email + y ∧ x + y = A.pending dir email ∧
        (x = 0 ∨ y = 0)) := by
  unfold read committed added dropped pending
  cases h with
  | quiet _ hr hc hp =>
      rw [hr, hc, hp]
      exact Or.inl ⟨rfl, rfl, rfl, rfl, rfl⟩
  | reading m traffic hr hc hp =>
      rw [hr, hc, List.map_append, List.sum_append, List.map_singleton, List.sum_singleton]
      exact Or.inr (Or.inl ⟨m, traffic, rfl, rfl, rfl, rfl, rfl, hp⟩)
  | commit _ c hr hc hp hbuffer hsettles =>
      obtain ⟨hadded, hsum, hone⟩ := hsettles dir email
      rw [hbuffer] at hsum
      simp only [hr, hc, hp, List.map_append, List.sum_append, List.map_singleton,
        List.sum_singleton, hadded]
      exact Or.inr (Or.inr ⟨trivial, rfl, _, _, rfl, rfl, rfl, hsum, hone⟩)

/-- The sums balance up to the wrap, and the rows of users have what was committed. -/
structure Balanced (A : Actor) : Prop where
  added : ∀ dir email, A.added dir email = A.committed dir email
  balance : ∀ dir email, A.read dir email ≡
    A.committed dir email + A.pending dir email + A.dropped dir email [ZMOD 2 ^ 64]

theorem balanced_start (w : World) : (start w).Balanced :=
  ⟨fun _ _ => rfl, fun _ _ => Int.ModEq.refl _⟩

theorem Booked.balanced (h : Booked A A' l) (hA : A.Balanced) : A'.Balanced := by
  refine ⟨fun dir email => ?_, fun dir email => ?_⟩
  · have hadded := hA.added dir email
    obtain ⟨-, hc, ha, -⟩ | ⟨-, -, -, -, hc, ha, -⟩ | ⟨-, -, x, -, hc, ha, -⟩ := h.sums dir email
    all_goals rw [hc, ha, hadded]
  · have hbal := hA.balance dir email
    -- a reading moves bytes into the buffer, a commit moves them out; both sides move alike
    obtain ⟨hr, hc, -, hd, hp⟩ | ⟨m, traffic, -, hr, hc, -, hd, hp⟩ |
      ⟨hr, hp, x, y, hc, -, hd, hxy, -⟩ := h.sums dir email
    · rw [hr, hc, hd, hp]
      exact hbal
    · have hmerge : A'.pending dir email ≡ A.pending dir email + reported dir email traffic
          [ZMOD 2 ^ 64] := by
        rw [pending, hp]
        exact held_merge_modEq _ _
      rw [hr, hc, hd]
      calc A.read dir email + reported dir email traffic
          ≡ A.committed dir email + A.pending dir email + A.dropped dir email +
              reported dir email traffic [ZMOD 2 ^ 64] := hbal.add_right _
        _ = A.committed dir email + (A.pending dir email + reported dir email traffic) +
              A.dropped dir email := by omega
        _ ≡ A.committed dir email + A'.pending dir email + A.dropped dir email
              [ZMOD 2 ^ 64] := (hmerge.symm.add_left _).add_right _
    · have hsum : A'.committed dir email + A'.pending dir email + A'.dropped dir email =
          A.committed dir email + A.pending dir email + A.dropped dir email := by omega
      rw [hr, hsum]
      exact hbal

/-! ## Exact sums -/

/-- The counters a step reads from the node. -/
def counters : Option (Event Stmt Stmt.Res) → List UserTraffic
  | some ⟨.queryUserTraffic _, .ok traffic⟩ => traffic
  | _ => []

/-- They are not negative. -/
def Counts (l : Option (Event Stmt Stmt.Res)) : Prop :=
  ∀ t ∈ counters l, 0 ≤ t.uplink.toInt ∧ 0 ≤ t.downlink.toInt

instance (l : Option (Event Stmt Stmt.Res)) : Decidable (Counts l) :=
  inferInstanceAs (Decidable (∀ t ∈ counters l, _))

/-- The sums balance exactly. -/
structure Exact (A : Actor) (dir : Direction) (email : String) : Prop where
  balance : A.read dir email =
    A.committed dir email + A.pending dir email + A.dropped dir email
  committed : 0 ≤ A.committed dir email
  pending : 0 ≤ A.pending dir email
  dropped : 0 ≤ A.dropped dir email

variable {dir : Direction} {email : String}

theorem exact_start (w : World) : (start w).Exact dir email :=
  ⟨rfl, le_refl _, le_refl _, le_refl _⟩

theorem Booked.exact (h : Booked A A' l) (hl : Counts l)
    (hx : A.read dir email < 2 ^ 63 → A.Exact dir email) (hlt : A'.read dir email < 2 ^ 63) :
    A'.Exact dir email := by
  obtain ⟨hr, hc, -, hd, hp⟩ | ⟨m, traffic, rfl, hr, hc, -, hd, hp⟩ |
    ⟨hr, hp, x, y, hc, -, hd, hxy, hone⟩ := h.sums dir email
  · obtain ⟨h₁, h₂, h₃, h₄⟩ := hx (by omega)
    exact ⟨by omega, by omega, by omega, by omega⟩
  · have hnn : ∀ t ∈ traffic, 0 ≤ (dir.ofTraffic t).toInt := fun t ht => by
      cases dir with
      | uplink => exact (hl t ht).1
      | downlink => exact (hl t ht).2
    have hrep : 0 ≤ reported dir email traffic := reported_nonneg hnn
    obtain ⟨h₁, h₂, h₃, h₄⟩ := hx (by omega)
    -- the buffer is at most what was read, so the merge does not wrap
    have hfit : A.pending dir email + reported dir email traffic < 2 ^ 63 := by omega
    have hpend : A'.pending dir email = A.pending dir email + reported dir email traffic := by
      rw [Actor.pending, hp]
      exact held_merge_of_lt h₃ hnn hfit
    exact ⟨by omega, by omega, by omega, by omega⟩
  · obtain ⟨h₁, h₂, h₃, h₄⟩ := hx (by omega)
    -- all of the buffer was committed or all of it dropped, and it is not negative
    exact ⟨by omega, by omega, by omega, by omega⟩

/-- Nothing is dropped of an email that has belonged to a user whenever it was resolved. -/
theorem dropped_eq_zero
    (h : ∀ c ∈ A.commits, ∃ u ∈ c.resolvedIn.tables.users, u.email = email) :
    A.dropped dir email = 0 := by
  refine List.sum_eq_zero fun x hx => ?_
  obtain ⟨c, hc, rfl⟩ := List.mem_map.1 hx
  obtain ⟨u, hu, hemail⟩ := h c hc
  obtain ⟨id, hid⟩ := Option.ne_none_iff_exists'.1 fun hnone => owner_eq_none.1 hnone u hu hemail
  rw [Commit.dropped, hid]
  rfl

end Actor

/-- At every point of every run of a collector, whatever fails and whatever others do: what was read
from the node for an email is what was committed for the email's user, what is held, and what was
dropped by commits of cycles that resolved the emails in a world where no user had this one; so
nothing is dropped of an email that had a user each time. What was committed is what the commits
added to the user's row, and what is held is what the cycle returns to the next one. -/
theorem traffic_conserved {n : ID} {w : World} {ls : List (Option (Event Stmt Stmt.Res))}
    {A : Actor} (h : Path (Actor.Step n) (Actor.start w) ls A) (dir : Direction)
    (email : String) :
    A.read dir email ≡ A.committed dir email + A.pending dir email + A.dropped dir email
        [ZMOD 2 ^ 64] ∧
      ((∀ l ∈ ls, Actor.Counts l) → A.read dir email < 2 ^ 63 →
        A.read dir email =
          A.committed dir email + A.pending dir email + A.dropped dir email) ∧
      ((∀ c ∈ A.commits, ∃ u ∈ c.resolvedIn.tables.users, u.email = email) →
        A.dropped dir email = 0) ∧
      A.added dir email = A.committed dir email ∧
      ∀ p, A.rest = pure p → p = A.pendingDeltas := by
  have hbal : (∃ q, Actor.Keeps n A q) ∧ A.Balanced :=
    Path.invariant (I := fun B => (∃ q, Actor.Keeps n B q) ∧ B.Balanced)
      (fun _ _ _ ⟨⟨_, hq⟩, hB⟩ hstep => ⟨(hq.step hstep).1, (hq.step hstep).2.balanced hB⟩) h
      ⟨Actor.keeps_start w, Actor.balanced_start w⟩
  obtain ⟨⟨q, hq⟩, hbal⟩ := hbal
  refine ⟨hbal.balance dir email, fun hcounts hlt => ?_, Actor.dropped_eq_zero,
    hbal.added dir email, fun p hp => ?_⟩
  · have hexact : (∃ q, Actor.Keeps n A q) ∧ (A.read dir email < 2 ^ 63 → A.Exact dir email) :=
      Path.invariant
        (I := fun B => (∃ q, Actor.Keeps n B q) ∧
          (B.read dir email < 2 ^ 63 → B.Exact dir email))
        (fun _ _ _ ⟨⟨_, hq⟩, hx⟩ hstep =>
          ⟨(hq.step hstep.1).1, (hq.step hstep.1).2.exact hstep.2 hx⟩)
        (h.restrict hcounts) ⟨Actor.keeps_start w, fun _ => Actor.exact_start w⟩
    exact (hexact.2 hlt).balance
  · rw [hq.buffer]
    exact Collecting.pendingDeltas_of_ret (hq.rest.symm.trans hp)

/-- A node that has counted traffic of its user and of an email nobody has. -/
def metered : World where
  db := ⟨Tables.assigned (.plain "i" "n" "in" .vless) (User.plain "u" "u@x") .applied,
    Tables.assigned_plain_valid _⟩
  accounts _ _ := none
  traffic _ := ⟨[⟨"u@x", 5, 1⟩, ⟨"v@x", 7, 0⟩], by decide⟩
  uptime _ := 0
  reconcileCh _ := some false

/-- A cycle that ranges over the buffer in the order of its entries. -/
def inOrder : Cycle := ⟨id, fun _ => List.Perm.refl _, 0⟩

/-- One entry of a schedule: a cycle begins, a statement is executed, or it fails. -/
inductive CollectorMove
  | begins
  | fire
  | fail (text : String)

/-- Follow one entry; `none` when it is not enabled. -/
def Actor.next (n : ID) (A : Actor) : CollectorMove → Option (Option (Event Stmt Stmt.Res) × Actor)
  | .begins =>
    match A.rest with
    | .ret (.ok p) => some (none, { A with rest := collect n inOrder p })
    | _ => none
  | .fire =>
    match A.rest with
    | .call s k => some (some ⟨s, (exec s A.world).1⟩,
        { A.note (exec s A.world).2 s (exec s A.world).1 with
          world := (exec s A.world).2
          rest := k (exec s A.world).1 })
    | _ => none
  | .fail text =>
    match A.rest with
    | .call s k =>
      match s.fail text with
      | some r => some (some ⟨s, r⟩, { A.note A.world s r with world := A.world, rest := k r })
      | none => none
    | _ => none

theorem Actor.next_step (n : ID) (A : Actor) (v : CollectorMove)
    (l : Option (Event Stmt Stmt.Res)) (A' : Actor) (h : A.next n v = some (l, A')) :
    Actor.Step n A l A' := by
  unfold Actor.next at h
  split at h
  · split at h
    · next p hp =>
        cases h
        exact .begins inOrder hp
    · cases h
  · split at h
    · next s k hk =>
        cases h
        exact .executes hk (mayFail_exec s A.world)
    · cases h
  · next text =>
      split at h
      · next s k hk =>
          split at h
          · next r hr =>
              cases h
              exact .executes hk (Or.inr ⟨rfl, text, hr⟩)
          · cases h
      · cases h

/-- A first cycle whose write fails, and a second one that finds nothing new and writes. -/
def secondTry : List CollectorMove :=
  [.begins, .fire, .fire, .fire, .fail "lost", .begins, .fire, .fire, .fire, .fire]

/-- The user has been charged once and the other email dropped. -/
theorem traffic_conserved_metered :
    ∃ ls A, Path (Actor.Step "n") (Actor.start metered) ls A ∧ (∀ l ∈ ls, Actor.Counts l) ∧
      A.committed .uplink "u@x" = 5 ∧ A.dropped .uplink "v@x" = 7 ∧
      A.read .uplink "u@x" =
        A.committed .uplink "u@x" + A.pending .uplink "u@x" + A.dropped .uplink "u@x" ∧
      A.dropped .uplink "u@x" = 0 := by
  have h := Path.follow_path (Actor.next_step "n") secondTry (Actor.start metered)
  have hcounts : ∀ l ∈ (Path.follow (Actor.next "n") secondTry (Actor.start metered)).1,
      Actor.Counts l := by decide
  obtain ⟨-, hexact, hdropped, -, -⟩ := traffic_conserved h .uplink "u@x"
  refine ⟨_, _, h, hcounts, by decide, by decide, hexact hcounts (by decide), hdropped ?_⟩
  decide

end XrayApi.Worker
