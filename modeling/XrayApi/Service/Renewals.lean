import Mathlib.Algebra.BigOperators.Ring.Finset
import Mathlib.Algebra.Order.Group.Int
import XrayApi.Service.Users
import XrayApi.Store.Rows
import XrayApi.Transition.Counter

/-!
# Renewals side by side

`Renew` reads the row, computes the new expiry from what it read and writes the row back in a later
statement. Several renewals of one user are clients of a shared value, the expiry, to which each
adds its days (`Transition.Shared`): `Renewal.simulates` follows their programs, and
`renewals_add_up_iff` says which interleavings keep every renewal.
-/

set_option autoImplicit false

namespace XrayApi.Service

open Transition Store Relational

/-! ## The expiry of a user -/

/-- The expiry in the row of the user, if there is a row and it has one. -/
def expiry (id : ID) (w : World) : Option Time :=
  (lookup User.id id w.tables.users).bind User.expiresAt

theorem expiry_congr {id : ID} {w w' : World} (h : w'.tables = w.tables) :
    expiry id w' = expiry id w := by
  unfold expiry
  rw [h]

theorem expiry_of_getUser {id : ID} {w : World} {u : User} (h : getUser w.tables id = .ok u) :
    expiry id w = u.expiresAt := by
  unfold expiry
  rw [getUser_eq_ok.1 h]
  rfl

/-- A change of every row that keeps id and expiry. -/
theorem expiry_of_map {id : ID} {w w' : World} {f : User → User}
    (h : w'.tables.users = w.tables.users.map f) (hid : ∀ r, (f r).id = r.id)
    (hexp : ∀ r, (f r).expiresAt = r.expiresAt) : expiry id w' = expiry id w := by
  unfold expiry
  rw [h, lookup_map fun r _ => hid r]
  cases lookup User.id id w.tables.users with
  | none => rfl
  | some r => exact hexp r

/-- A statement that keeps the expiry of the user. -/
def KeepsExpiry (id : ID) (s : Stmt) : Prop :=
  ∀ w r w', MayFail s w r w' → expiry id w' = expiry id w

theorem keepsExpiry_of_readsOnly {s : Stmt} (h : ReadsOnly s) (id : ID) : KeepsExpiry id s :=
  fun w r w' hw => expiry_congr (h w r w' hw)

theorem keepsExpiry_resetTraffic (id id' : ID) : KeepsExpiry id (.db (.resetTraffic id')) := by
  intro w r w' h
  obtain h | ⟨rfl, -⟩ := mayFail_cases h
  · cases r with
    | error e => rw [(answers_db_error h).2]
    | ok a =>
        obtain ⟨o, t, hq, -, -, ht⟩ := answers_db_ok h
        have husers := resetTraffic_users (StoreCall.wrote_eq_ok.1 hq)
        rw [← ht] at husers
        refine expiry_of_map husers (onRow_id fun _ => by rfl) fun r => ?_
        unfold onRow
        split_ifs with hr
        · rfl
        · rfl
  · rfl

/-- A row that is written back carries its expiry. -/
theorem expiry_updateUser {w w' : World} {u : User} {o : Unit}
    (h : MayFail (.db (.updateUser u)) w (.ok o) w') : expiry u.id w' = u.expiresAt := by
  obtain ⟨o', t, hq, -, -, ht⟩ := answers_db_ok (mayFail_ok h rfl)
  have hq := StoreCall.wrote_eq_ok.1 hq
  obtain ⟨hmem, -⟩ := updateUser_eq_ok hq
  obtain ⟨r, hr⟩ := exists_lookup_of_mem hmem
  unfold expiry
  rw [ht, updateUser_users hq, lookup_map fun r _ => onRow_id (fun _ => by rfl) r, hr]
  have hrid := key_of_lookup hr
  change (onRow u.id (persist u) r).expiresAt = u.expiresAt
  rw [onRow_of_eq hrid]
  rfl

/-! ## The program of one renewal -/

/-- A renewal: its input and clock readings. -/
structure Renewal where
  inp : RenewInput
  now : Time
  now' : Time

/-- The calls of a pool of requests that return users. -/
abbrev UserAct (ι : Type) : Type := Act ι Stmt Stmt.Res (Except Err User)

/-- Reads and writes of user rows in the label of a step. -/
def access {ι : Type} : UserAct ι → Access ι
  | .call i (.db (.getUser _)) (.ok _) => .read i
  | .call i (.db (.updateUser _)) (.ok _) => .write i
  | _ => .other

/-- A statement between the read and the write of a renewal. -/
def Between (id : ID) (s : Stmt) : Prop :=
  KeepsExpiry id s ∧ ∀ (ι : Type) (i : ι) r, access (.call i s r) = .other

/-- A statement after the write. -/
def After (id : ID) (s : Stmt) : Prop :=
  KeepsExpiry id s ∧ ∀ (ι : Type) (i : ι) r,
    access (.call i s r) = .other ∨ access (.call i s r) = .read i

/-- The row is written back with the expiry `t`. -/
inductive Writes (id : ID) (t : Time) :
    (s : Stmt) → (s.Res → Prog Stmt Stmt.Res (Except Err User)) → Prop
  | mk {u : User} {k : Except StoreErr Unit → Prog Stmt Stmt.Res (Except Err User)} :
      u.id = id → u.expiresAt = some t → (∀ o, Prog.Forall (After id) (k (.ok o))) →
      (∀ e, ∃ e', k (.error e) = .ret (.error e')) → Writes id t (.db (.updateUser u)) k

namespace Renewal

variable (id : ID) (x : Renewal)

def prog : Prog Stmt Stmt.Res (Except Err User) :=
  (renew id x.inp x.now x.now').prog

/-- The renewal after it read the row. -/
def rest (u : User) : Service User := do
  let u ← switchPlan x.inp u
  let u ← resetUsage id x.inp (extendExpiry x.inp x.now u)
  let u := reactivate x.now' u
  query (.updateUser u)
  reconcileForUser u.id
  query (.getUser id)

/-- Still to write the expiry `t`, or to fail. -/
def Writing (t : Time) (p : Prog Stmt Stmt.Res (Except Err User)) : Prop :=
  Prog.Until (fun a => ∃ e, a = .error e) (Between id) (Writes id t) p

variable {id x}

theorem prog_eq (hdays : 0 < x.inp.days) :
    x.prog id = Prog.call (.db (.getUser id)) fun r =>
      Req.continueWith (x.rest id) (Except.mapError Err.store r) := by
  unfold prog renew
  rw [if_neg fun h => absurd h.1 (not_le.2 hdays)]
  rfl

theorem after_getUser (id id' : ID) : After id (.db (.getUser id')) :=
  ⟨keepsExpiry_of_readsOnly (readsOnly_getUser id') id, fun _ _ r => by
    cases r with
    | ok u => exact Or.inr rfl
    | error e => exact Or.inl rfl⟩

theorem between_getPlan (id planID : ID) : Between id (.db (.getPlan planID)) :=
  ⟨keepsExpiry_of_readsOnly (readsOnly_getPlan planID) id, fun _ _ _ => rfl⟩

theorem between_resetTraffic (id id' : ID) : Between id (.db (.resetTraffic id')) :=
  ⟨keepsExpiry_resetTraffic id id', fun _ _ _ => rfl⟩

theorem reconcileForUser_after (id id' : ID) :
    Prog.Forall (After id) (reconcileForUser id') :=
  reconcileForUser_forall
    ⟨keepsExpiry_of_readsOnly (readsOnly_assignmentTargetsForUser id') id, fun _ _ _ => Or.inl rfl⟩
    fun n => ⟨keepsExpiry_of_readsOnly (readsOnly_trigger n) id, fun _ _ _ => Or.inl rfl⟩

/-- From the write on. -/
theorem writing_updateUser {u : User} {t : Time} (hid : u.id = id) (ht : u.expiresAt = some t) :
    Writing id t (Req.prog do
      query (.updateUser u)
      reconcileForUser u.id
      query (.getUser id)) := by
  have htail : Prog.Forall (After id)
      (reconcileForUser u.id >>= fun _ => query (.getUser id) : Service User) :=
    Req.forall_bind (reconcileForUser_after id u.id)
      fun _ => ⟨after_getUser id id, fun _ => trivial⟩
  exact Or.inl (Writes.mk hid ht (fun _ => htail) fun e => ⟨_, rfl⟩)

theorem reactivate_expiresAt (now : Time) (u : User) :
    (reactivate now u).expiresAt = u.expiresAt := by
  unfold reactivate
  split_ifs with h
  · rfl
  · rfl

/-- From the optional reset of the counters on. -/
theorem writing_resetUsage {u : User} {t : Time} (hid : u.id = id) (ht : u.expiresAt = some t) :
    Writing id t (Req.prog do
      let u ← resetUsage id x.inp u
      let u := reactivate x.now' u
      query (.updateUser u)
      reconcileForUser u.id
      query (.getUser id)) := by
  have hwrite : ∀ v : User, v.id = id → v.expiresAt = some t →
      Writing id t (Req.prog do
        query (.updateUser (reactivate x.now' v))
        reconcileForUser (reactivate x.now' v).id
        query (.getUser id)) := fun v hv hvt =>
    writing_updateUser ((reactivate_id _ v).trans hv) ((reactivate_expiresAt _ v).trans hvt)
  unfold resetUsage
  split_ifs with hreset
  · refine Or.inr ⟨between_resetTraffic id id, fun r => ?_⟩
    cases r with
    | ok o => exact hwrite (zeroUsage u) hid ht
    | error e => exact ⟨_, rfl⟩
  · exact hwrite u hid ht

theorem extendExpiry_expiresAt {u : User} {t : Time} (hdays : 0 < x.inp.days)
    (ht : u.expiresAt = some t) (hnow : x.now < t) :
    (extendExpiry x.inp x.now u).expiresAt = some (addDays t x.inp.days) := by
  unfold extendExpiry renewBase
  rw [if_pos hdays, ht]
  simp only [if_pos hnow]

theorem extendExpiry_id (now : Time) (inp : RenewInput) (u : User) :
    (extendExpiry inp now u).id = u.id := by
  unfold extendExpiry
  split_ifs with h
  · rfl
  · rfl

/-- After it read an expiry `t` in the future, a renewal will write `t` and its days. -/
theorem writing_rest {u : User} {t : Time} (hdays : 0 < x.inp.days) (hid : u.id = id)
    (ht : u.expiresAt = some t) (hnow : x.now < t) :
    Writing id (addDays t x.inp.days) (x.rest id u).prog := by
  have hext : ∀ v : User, v.id = id → v.expiresAt = some t →
      Writing id (addDays t x.inp.days) (Req.prog do
        let u ← resetUsage id x.inp (extendExpiry x.inp x.now v)
        let u := reactivate x.now' u
        query (.updateUser u)
        reconcileForUser u.id
        query (.getUser id)) := fun v hv hvt =>
    writing_resetUsage ((extendExpiry_id _ _ v).trans hv)
      (extendExpiry_expiresAt hdays hvt hnow)
  unfold rest switchPlan
  cases hplan : x.inp.planID with
  | none => exact hext u hid ht
  | some planID =>
      refine Or.inr ⟨between_getPlan id planID, fun r => ?_⟩
      cases r with
      | ok plan =>
          exact hext { u with planID := some planID, dataLimitBytes := plan.dataLimitBytes } hid ht
      | error e => exact ⟨_, rfl⟩

/-- What is left of a renewal, by where it stands as a client of the expiry. -/
def Phase (id : ID) (x : Renewal) (q : Prog Stmt Stmt.Res (Except Err User)) :
    Client Time → Prop
  | .idle => q = x.prog id
  | .holding t => Writing id (addDays t x.inp.days) q
  | .done => Prog.Forall (After id) q
  | .failed => ∃ e, q = .ret (.error e)

end Renewal

/-! ## Renewals as clients -/

/-- Requests that return users, and the shared state. -/
abbrev UserPool (ι : Type) : Type := Pool ι Stmt Stmt.Res World (Except Err User)

section Clients

variable {ι : Type} {id : ID} {x : ι → Renewal} {E : Time} {P Q : UserPool ι} {C : Shared ι Time}
  {a : UserAct ι}

/-- The renewals about to start. -/
def renewals (id : ID) (x : ι → Renewal) (w : World) : UserPool ι where
  world := w
  prog i := (x i).prog id

/-- What a renewal adds to the expiry. -/
def added (x : ι → Renewal) (i : ι) : Time := (x i).inp.days * day

/-- The pool is in the state `C` of the shared value; `E` is the initial expiry. -/
structure Showing (id : ID) (x : ι → Renewal) (E : Time) (P : UserPool ι) (C : Shared ι Time) :
    Prop where
  value : expiry id P.world = some C.value
  grown : E ≤ C.value
  held : ∀ i t, C.client i = .holding t → E ≤ t
  phase : ∀ i, (x i).Phase id (P.prog i) (C.client i)

theorem showing_renewals {w : World} (hE : expiry id w = some E) :
    Showing id x E (renewals id x w) ⟨E, fun _ => .idle⟩ :=
  ⟨hE, le_rfl, (fun _ _ h => by cases h), fun _ => rfl⟩

/-- A renewal that has returned a user has written. -/
theorem Showing.done (hdays : ∀ i, 0 < (x i).inp.days) (h : Showing id x E P C) {i : ι} {u : User}
    (hi : P.prog i = .ret (.ok u)) : C.client i = .done := by
  have hphase := h.phase i
  rw [hi] at hphase
  cases hc : C.client i with
  | done => rfl
  | idle =>
      rw [hc] at hphase
      have hprog : Prog.ret (.ok u) = (x i).prog id := hphase
      rw [Renewal.prog_eq (hdays i)] at hprog
      cases hprog
  | holding t =>
      rw [hc] at hphase
      obtain ⟨e, he⟩ : ∃ e, (.ok u : Except Err User) = .error e := hphase
      cases he
  | failed =>
      rw [hc] at hphase
      obtain ⟨e, he⟩ := hphase
      cases he

variable [DecidableEq ι]

/-- A step of client `i` that gives it the state `c` and the value `t`. -/
theorem Showing.change (h : Showing id x E P C) {i : ι} {c : Client Time} {t : Time}
    (hvalue : expiry id Q.world = some t) (hgrown : E ≤ t)
    (hheld : ∀ t', c = .holding t' → E ≤ t') (hphase : (x i).Phase id (Q.prog i) c)
    (hother : ∀ j, j ≠ i → Q.prog j = P.prog j) :
    Showing id x E Q ⟨t, Function.update C.client i c⟩ := by
  refine ⟨hvalue, hgrown, fun j t' hj => ?_, fun j => ?_⟩
  · by_cases hji : j = i
    · subst hji
      simp only [Function.update_self] at hj
      exact hheld t' hj
    · simp only [Function.update_of_ne hji] at hj
      exact h.held j t' hj
  · by_cases hji : j = i
    · subst hji
      simp only [Function.update_self]
      exact hphase
    · simp only [Function.update_of_ne hji, hother j hji]
      exact h.phase j

/-- A step of client `i` after which it is where it was. -/
theorem Showing.keep (h : Showing id x E P C) {i : ι}
    (hvalue : expiry id Q.world = expiry id P.world)
    (hphase : (x i).Phase id (Q.prog i) (C.client i))
    (hother : ∀ j, j ≠ i → Q.prog j = P.prog j) : Showing id x E Q C := by
  refine ⟨hvalue.trans h.value, h.grown, h.held, fun j => ?_⟩
  by_cases hji : j = i
  · subst hji
    exact hphase
  · rw [hother j hji]
    exact h.phase j

/-- A step of client `i` that fails and leaves no trace. -/
theorem Showing.fail (h : Showing id x E P C) {i : ι} (hi : C.client i ≠ .done)
    (hvalue : expiry id Q.world = expiry id P.world) (hend : ∃ e, Q.prog i = .ret (.error e))
    (hother : ∀ j, j ≠ i → Q.prog j = P.prog j) :
    ∃ D, Shared.Step (added x) C .other D ∧ Showing id x E Q D :=
  ⟨⟨C.value, Function.update C.client i .failed⟩,
    .fail hi (Function.update_self i _ _) rfl fun _ hj => Function.update_of_ne hj _ _,
    h.change (hvalue.trans h.value) h.grown (fun _ ht => by cases ht) hend hother⟩

/-! ### One statement -/

section Call

variable {i : ι} {s : Stmt} {r : s.Res}

/-- The first statement reads the expiry. -/
theorem Showing.step_idle (hdays : 0 < (x i).inp.days) (hnow : (x i).now < E)
    (h : Showing id x E P C) (hc : C.client i = .idle)
    (hstep : Pool.Step MayFail (fun _ _ => False) P (.call i s r) Q) :
    ∃ D, Shared.Step (added x) C (access (.call i s r)) D ∧ Showing id x E Q D := by
  obtain ⟨k, hk, hsem, hself, hother⟩ := hstep.call_inv
  have hphase := h.phase i
  rw [hc] at hphase
  have hprog : P.prog i = (x i).prog id := hphase
  rw [hk, Renewal.prog_eq hdays] at hprog
  cases hprog
  have hread : expiry id Q.world = expiry id P.world :=
    expiry_congr (readsOnly_getUser id _ _ _ hsem)
  cases r with
  | ok u =>
      have hu := mayFail_getUser hsem
      have ht : u.expiresAt = some C.value := (expiry_of_getUser hu).symm.trans h.value
      refine ⟨⟨C.value, Function.update C.client i (.holding C.value)⟩,
        .read hc (Function.update_self i _ _) rfl fun _ hj => Function.update_of_ne hj _ _,
        h.change (hread.trans h.value) h.grown (fun t' ht' => ?_) ?_ hother⟩
      · cases ht'
        exact h.grown
      · -- the expiry lies ahead, so the days are added to it and not to the clock
        rw [hself]
        exact Renewal.writing_rest hdays (getUser_id hu) ht (hnow.trans_le h.grown)
  | error e =>
      have hidle : C.client i ≠ .done := by
        rw [hc]
        nofun
      exact h.fail hidle hread ⟨_, hself⟩ hother

/-- From the read on, the next write is that of the row. -/
theorem Showing.step_holding {t : Time} (hdays : 0 < (x i).inp.days) (h : Showing id x E P C)
    (hc : C.client i = .holding t)
    (hstep : Pool.Step MayFail (fun _ _ => False) P (.call i s r) Q) :
    ∃ D, Shared.Step (added x) C (access (.call i s r)) D ∧ Showing id x E Q D := by
  obtain ⟨k, hk, hsem, hself, hother⟩ := hstep.call_inv
  have hphase := h.phase i
  rw [hc] at hphase
  have hw : Renewal.Writing id (addDays t (x i).inp.days) (P.prog i) := hphase
  rw [hk] at hw
  obtain hmark | ⟨hquiet, hrest⟩ := hw
  · cases hmark with
    | @mk u k hid ht hok herr =>
        cases r with
        | ok o =>
            have hexp := expiry_updateUser hsem
            rw [hid, ht] at hexp
            have hle : E ≤ addDays t (x i).inp.days :=
              (h.held i t hc).trans (le_add_of_nonneg_right
                (Int.mul_nonneg hdays.le (by decide)))
            refine ⟨⟨addDays t (x i).inp.days, Function.update C.client i .done⟩,
              .write hc (Function.update_self i _ _) rfl fun _ hj => Function.update_of_ne hj _ _,
              h.change hexp hle (fun t' ht' => by cases ht') ?_ hother⟩
            rw [hself]
            exact hok o
        | error e =>
            -- a refused write is no write, whether the database or the network refused it
            have hsame : expiry id Q.world = expiry id P.world := by
              obtain hans | ⟨hw, -⟩ := mayFail_cases hsem
              · rw [(answers_db_error hans).2]
              · rw [hw]
            have hholding : C.client i ≠ .done := by
              rw [hc]
              nofun
            exact h.fail hholding hsame (hself ▸ herr e) hother
  · rw [hquiet.2 ι i r]
    refine ⟨C, .skip, h.keep (hquiet.1 _ _ _ hsem) ?_ hother⟩
    rw [hc, hself]
    exact hrest r

/-- After its write a renewal may read once more, to answer. -/
theorem Showing.step_done (h : Showing id x E P C) (hc : C.client i = .done)
    (hstep : Pool.Step MayFail (fun _ _ => False) P (.call i s r) Q) :
    ∃ D, Shared.Step (added x) C (access (.call i s r)) D ∧ Showing id x E Q D := by
  obtain ⟨k, hk, hsem, hself, hother⟩ := hstep.call_inv
  have hphase := h.phase i
  rw [hc] at hphase
  have hw : Prog.Forall (After id) (P.prog i) := hphase
  rw [hk] at hw
  have hkeep : Showing id x E Q C := by
    refine h.keep (hw.1.1 _ _ _ hsem) ?_ hother
    rw [hc, hself]
    exact hw.2 r
  obtain hother' | hread := hw.1.2 ι i r
  · rw [hother']
    exact ⟨C, .skip, hkeep⟩
  · rw [hread]
    exact ⟨C, .reread hc, hkeep⟩

end Call

/-- The steps of the renewals are steps of the clients. -/
theorem Showing.step (hdays : ∀ i, 0 < (x i).inp.days) (hnow : ∀ i, (x i).now < E)
    (h : Showing id x E P C) (hstep : Pool.Step MayFail (fun _ _ => False) P a Q) :
    ∃ D, Shared.Step (added x) C (access a) D ∧ Showing id x E Q D := by
  cases a with
  | start i q =>
      obtain ⟨-, hfalse, -⟩ := hstep.start_inv
      exact hfalse.elim
  | call i s r =>
      cases hc : C.client i with
      | idle => exact h.step_idle (hdays i) (hnow i) hc hstep
      | holding t => exact h.step_holding (hdays i) hc hstep
      | done => exact h.step_done hc hstep
      | failed =>
          -- a request that has failed issues no statement
          obtain ⟨k, hk, -⟩ := hstep.call_inv
          have hphase := h.phase i
          rw [hc] at hphase
          obtain ⟨e, he⟩ := hphase
          rw [hk] at he
          cases he

/-- Renewals of a user whose expiry `E` lies in the future, which all return the user: the final
expiry is `E` and the days of all of them exactly when no renewal writes between the read and the
write of another. -/
theorem renewals_add_up_iff [Fintype ι] {w : World} {ls : List (UserAct ι)}
    (hE : expiry id w = some E) (hdays : ∀ i, 0 < (x i).inp.days) (hnow : ∀ i, (x i).now < E)
    (hrun : Path (Pool.Step MayFail fun _ _ => False) (renewals id x w) ls P)
    (hok : ∀ i, ∃ u, P.prog i = .ret (.ok u)) :
    expiry id P.world = some (addDays E (∑ i, (x i).inp.days)) ↔ ¬ Overlap (ls.map access) := by
  obtain ⟨D, hD, hPD⟩ := hrun.simulate (fun _ _ _ _ h hstep => h.step hdays hnow hstep)
    (showing_renewals hE)
  have hpos : ∀ i, 0 < added x i := fun i => Int.mul_pos (hdays i) (by decide)
  have hdone : ∀ i, D.client i = .done := fun i => by
    obtain ⟨u, hu⟩ := hok i
    exact hPD.done hdays hu
  have hsum : addDays E (∑ i, (x i).inp.days) = E + ∑ i, added x i := by
    unfold addDays added
    rw [Finset.sum_mul]
  rw [hPD.value, Option.some.injEq, hsum]
  exact Shared.value_eq_sum_iff hpos (fun _ => rfl) hD hdone

end Clients

/-! ## Two renewals -/

/-- A user whose expiry is a day away. -/
def subscriber : World :=
  .still ⟨.sole { User.plain "u1" "a@example.com" with expiresAt := some day },
    Tables.sole_valid _ rfl⟩

/-- Two payments of thirty days. -/
def payments : Bool → Renewal := fun _ => ⟨⟨30, false, none⟩, 0, 0⟩

/-- Both renewals read before one of them writes. -/
def crossed : List (Pool.Move Bool Stmt Stmt.Res (Except Err User)) :=
  [.fire false, .fire true] ++ List.replicate 3 (.fire false) ++ List.replicate 3 (.fire true)

/-- One renewal after the other. -/
def inTurn : List (Pool.Move Bool Stmt Stmt.Res (Except Err User)) :=
  List.replicate 4 (.fire false) ++ List.replicate 4 (.fire true)

theorem returned {P : UserPool Bool} {u v : User} (hu : P.prog false = .ret (.ok u))
    (hv : P.prog true = .ret (.ok v)) (i : Bool) : ∃ u, P.prog i = .ret (.ok u) := by
  cases i with
  | false => exact ⟨u, hu⟩
  | true => exact ⟨v, hv⟩

/-- Both renewals succeed and thirty paid days are lost. -/
theorem renewals_lose_days :
    Path (Pool.Step MayFail fun _ _ => False) (renewals "u1" payments subscriber)
        (Pool.play exec crossed (renewals "u1" payments subscriber)).1
        (Pool.play exec crossed (renewals "u1" payments subscriber)).2 ∧
      (∀ i, ∃ u, (Pool.play exec crossed (renewals "u1" payments subscriber)).2.prog i =
        .ret (.ok u)) ∧
      expiry "u1" subscriber = some day ∧
      expiry "u1" (Pool.play exec crossed (renewals "u1" payments subscriber)).2.world =
        some (addDays day 30) :=
  ⟨Pool.play_path_of_exec mayFail_exec (fun i p h => by simp [crossed] at h) _, returned rfl rfl,
    rfl, rfl⟩

/-- One after the other they add up. -/
theorem renewals_add_up_iff_inTurn :
    expiry "u1" (Pool.play exec inTurn (renewals "u1" payments subscriber)).2.world =
      some (addDays day 60) := by
  refine (renewals_add_up_iff (E := day) rfl (by decide) (by decide)
    (Pool.play_path_of_exec mayFail_exec (fun i p h => by simp [inTurn] at h) _)
    (returned rfl rfl)).2 ?_
  unfold Overlap
  decide

end XrayApi.Service
