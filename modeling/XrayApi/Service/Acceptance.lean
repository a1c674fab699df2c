import XrayApi.Service.Sequential
import XrayApi.Store.Rows

/-!
# Which events are accepted

For each billing action, the condition on the tables and the event under which the action, run
alone, returns no error (`dispatch_succeeds_iff`).
-/

set_option autoImplicit false

namespace XrayApi.Service

open Transition Store Relational

section Rules

variable {α β : Type} {w : World}

/-- Alone on `w`, the request returns a value. -/
def Succeeds (p : Service α) (w : World) : Prop :=
  ∃ a w', Returns p w a w'

theorem succeeds_pure (a : α) : Succeeds (pure a : Service α) w := ⟨a, w, rfl⟩

theorem not_succeeds_throw (e : Err) : ¬ Succeeds (Req.throw e : Service α) w := by
  rintro ⟨a, w', h⟩
  exact not_returns_throw h

theorem succeeds_bind {p : Service α} {f : α → Service β} {a : α} {w₁ : World}
    (hp : Returns p w a w₁) (hf : Succeeds (f a) w₁) : Succeeds (p >>= f) w := by
  obtain ⟨b, w', h⟩ := hf
  exact ⟨b, w', returns_bind.2 ⟨a, w₁, hp, h⟩⟩

theorem Succeeds.of_bind {p : Service α} {f : α → Service β} (h : Succeeds (p >>= f) w) :
    Succeeds p w := by
  obtain ⟨b, w', h⟩ := h
  obtain ⟨a, w₁, hp, -⟩ := returns_bind.1 h
  exact ⟨a, w₁, hp⟩

/-- A last step that cannot fail does not matter. -/
theorem succeeds_bind_pure {p : Service α} {f : α → β} :
    Succeeds (p >>= fun a => pure (f a)) w ↔ Succeeds p w := by
  constructor
  · exact Succeeds.of_bind
  · rintro ⟨a, w₁, hp⟩
    exact succeeds_bind hp (succeeds_pure _)

/-- A store call that succeeds on the tables. -/
theorem query_returns {q : StoreCall} {o : q.Out} {t : Tables}
    (h : q.apply w.tables = .ok (o, t)) : ∃ w₁, Returns (query q) w o w₁ ∧ w₁.tables = t := by
  have ht : (World.after w q).tables = t := World.tables_after h
  exact ⟨World.after w q, returns_query.2 ⟨by rw [ht]; exact h, rfl⟩, ht⟩

theorem succeeds_query_bind {q : StoreCall} {o : q.Out} {t : Tables} {f : q.Out → Service β}
    (hq : q.apply w.tables = .ok (o, t)) (hf : ∀ w₁ : World, w₁.tables = t → Succeeds (f o) w₁) :
    Succeeds (query q >>= f) w := by
  obtain ⟨w₁, h, ht⟩ := query_returns hq
  exact succeeds_bind h (hf w₁ ht)

theorem succeeds_reconcile_getUser {id id' : ID} (h : id' ∈ w.tables.users.map User.id) :
    Succeeds (reconcileForUser id >>= fun _ => query (.getUser id') : Service User) w := by
  obtain ⟨w₁, hdb, h₁⟩ := reconcileForUser_returns id w
  have ht : w₁.tables = w.tables := congrArg Database.tables hdb
  obtain ⟨u, hu⟩ := exists_getUser_iff.2 h
  obtain ⟨w₂, h₂, -⟩ := query_returns (w := w₁) (q := .getUser id') (o := u) (t := w₁.tables)
    (StoreCall.read_eq_ok.2 ⟨by rw [ht]; exact hu, rfl⟩)
  exact succeeds_bind h₁ ⟨u, w₂, h₂⟩

end Rules

section Operations

variable {w : World} {id : ID}

theorem setStatusAndReconcile_succeeds_iff {status : UserStatus} :
    Succeeds (setStatusAndReconcile id status) w ↔ id ∈ w.tables.users.map User.id := by
  constructor
  · rintro ⟨u, w', h⟩
    exact (requireUser_eq_ok.1 (setStatusAndReconcile_returns h).1).1
  · intro h
    obtain ⟨t, ht⟩ : ∃ t, setUserStatus w.tables id status = .ok t := setUserStatus_succeeds h
    refine succeeds_query_bind (StoreCall.wrote_eq_ok.2 ht) fun w₁ hw₁ => ?_
    refine succeeds_reconcile_getUser ?_
    rw [hw₁, map_id_of_map (onRow_id fun _ => by rfl) (setUserStatus_users ht)]
    exact h

theorem resume_succeeds_iff {now : Time} :
    Succeeds (resume id now) w ↔
      ∃ u, getUser w.tables id = .ok u ∧ u.overQuota = false ∧ u.expiredAt now = false := by
  constructor
  · rintro ⟨u, w', h⟩
    obtain ⟨v, hv, hquota, hexp, -, -⟩ := resume_returns h
    exact ⟨v, hv, hquota, hexp⟩
  · rintro ⟨u, hu, hquota, hexp⟩
    refine succeeds_query_bind (StoreCall.read_eq_ok.2 ⟨hu, rfl⟩) fun w₁ hw₁ => ?_
    rw [hquota, hexp]
    refine setStatusAndReconcile_succeeds_iff.2 ?_
    rw [hw₁]
    exact exists_getUser_iff.1 ⟨u, hu⟩

/-- The plan of an input, if it names one, exists. -/
def PlanKnown (t : Tables) (planID : Option ID) : Prop :=
  ∀ p ∈ planID, p ∈ t.plans.map Plan.id

theorem exists_getPlan_iff {t : Tables} {planID : ID} :
    (∃ plan, getPlan t planID = .ok plan) ↔ planID ∈ t.plans.map Plan.id := by
  rw [← lookup_isSome_iff, Option.isSome_iff_exists]
  refine exists_congr fun plan => ?_
  unfold getPlan oneRow
  cases lookup Plan.id planID t.plans with
  | none => simp
  | some p => simp

theorem planKnown_some {t : Tables} {planID : ID} :
    PlanKnown t (some planID) ↔ ∃ plan, getPlan t planID = .ok plan := by
  rw [exists_getPlan_iff]
  simp [PlanKnown]

theorem switchedPlan_succeeds_iff {t : Tables} {inp : RenewInput} {u : User} :
    (∃ v, switchedPlan t inp u = .ok v) ↔ PlanKnown t inp.planID := by
  unfold switchedPlan
  cases inp.planID with
  | none => simp [PlanKnown]
  | some planID =>
      rw [planKnown_some]
      cases h : getPlan t planID with
      | error e => simp [Except.map, h]
      | ok plan => simp [Except.map, h]

/-- Switching the plan writes the plan and the limit. -/
theorem switchedPlan_eq {t : Tables} {inp : RenewInput} {u v : User}
    (h : switchedPlan t inp u = .ok v) :
    v = { u with planID := inp.planID.or u.planID, dataLimitBytes := v.dataLimitBytes } := by
  unfold switchedPlan at h
  cases hp : inp.planID with
  | none =>
      rw [hp] at h
      cases h
      rfl
  | some planID =>
      simp only [hp] at h
      cases hplan : getPlan t planID with
      | error e =>
          rw [hplan] at h
          cases h
      | ok plan =>
          rw [hplan] at h
          cases h
          rfl

/-- What switching the plan does to the columns the constraints are on. -/
theorem switchedPlan_keys {t : Tables} {inp : RenewInput} {u v : User}
    (h : switchedPlan t inp u = .ok v) :
    v.id = u.id ∧ v.subToken = u.subToken ∧ v.externalID = u.externalID ∧
      v.planID = inp.planID.or u.planID := by
  rw [switchedPlan_eq h]
  exact ⟨rfl, rfl, rfl, rfl⟩

/-- `Renew` writes neither the identity of the row nor its plan, token or external id. -/
theorem renewed_keys (inp : RenewInput) (now now' : Time) (u : User) :
    (renewed inp now now' u).id = u.id ∧ (renewed inp now now' u).subToken = u.subToken ∧
      (renewed inp now now' u).externalID = u.externalID ∧
      (renewed inp now now' u).planID = u.planID := by
  have hact : ∀ v : User, (reactivate now' v).id = v.id ∧
      (reactivate now' v).subToken = v.subToken ∧
      (reactivate now' v).externalID = v.externalID ∧ (reactivate now' v).planID = v.planID := by
    intro v
    unfold reactivate
    split_ifs <;> exact ⟨rfl, rfl, rfl, rfl⟩
  obtain ⟨h₁, h₂, h₃, h₄⟩ := hact (usageReset inp (extendExpiry inp now u))
  unfold renewed
  rw [h₁, h₂, h₃, h₄]
  unfold usageReset extendExpiry zeroUsage
  split_ifs <;> exact ⟨rfl, rfl, rfl, rfl⟩

theorem keepsKeys_usageReset (inp : RenewInput) : KeepsKeys (usageReset inp) := by
  unfold usageReset
  by_cases hr : inp.resetTraffic = true
  · simp only [hr, if_true]
    exact keepsKeys_zeroUsage
  · simp only [hr, Bool.false_eq_true, if_false]
    exact keepsKeys_id

/-- The counter reset of `Renew` on the rows. -/
theorem resetUsageTx_users {t t' : Tables} {inp : RenewInput}
    (h : resetUsageTx t id inp = .ok t') :
    t'.users = t.users.map (onRow id (usageReset inp)) ∧ t'.plans = t.plans := by
  unfold resetUsageTx at h
  split_ifs at h with hr
  · have hreset : usageReset inp = zeroUsage := funext fun _ => if_pos hr
    rw [hreset]
    refine ⟨resetTraffic_users h, ?_⟩
    obtain ⟨-, h⟩ := requireUser_eq_ok.1 h
    cases h
    rfl
  · cases h
    have hsame : onRow id (usageReset inp) = fun r => r := by
      funext r
      unfold onRow usageReset
      rw [if_neg hr, ite_self]
    rw [hsame]
    exact ⟨(List.map_id' _).symm, rfl⟩

theorem resetUsageTx_succeeds {t : Tables} {inp : RenewInput} (h : id ∈ t.users.map User.id) :
    ∃ t', resetUsageTx t id inp = .ok t' := by
  unfold resetUsageTx
  split_ifs with hr
  · exact resetTraffic_succeeds h
  · exact ⟨t, rfl⟩

theorem switchPlan_of_ok {inp : RenewInput} {v v₁ : User}
    (h : switchedPlan w.tables inp v = .ok v₁) :
    ∃ w₁ : World, Returns (switchPlan inp v) w v₁ w₁ ∧ w₁.tables = w.tables := by
  unfold switchedPlan at h
  unfold switchPlan
  cases hp : inp.planID with
  | none =>
      rw [hp] at h
      cases h
      exact ⟨w, rfl, rfl⟩
  | some planID =>
      simp only [hp] at h
      cases hplan : getPlan w.tables planID with
      | error e =>
          rw [hplan] at h
          cases h
      | ok plan =>
          rw [hplan] at h
          cases h
          obtain ⟨w₁, h₁, ht⟩ := query_returns (q := .getPlan planID)
            (StoreCall.read_eq_ok.2 ⟨hplan, rfl⟩)
          exact ⟨w₁, returns_bind.2 ⟨plan, w₁, h₁, rfl⟩, ht⟩

theorem resetUsage_of_ok {inp : RenewInput} {v : User} {t : Tables}
    (h : resetUsageTx w.tables id inp = .ok t) :
    ∃ w₁ : World, Returns (resetUsage id inp v) w (usageReset inp v) w₁ ∧ w₁.tables = t := by
  unfold resetUsageTx at h
  unfold resetUsage usageReset
  split_ifs at h ⊢ with hr
  · obtain ⟨w₁, h₁, ht⟩ := query_returns (q := .resetTraffic id) (StoreCall.wrote_eq_ok.2 h)
    exact ⟨w₁, returns_bind.2 ⟨(), w₁, h₁, rfl⟩, ht⟩
  · cases h
    exact ⟨w, rfl, rfl⟩

/-- A row after the counter reset of `Renew` still has its keys. -/
theorem resetUsageTx_row {t t' : Tables} {inp : RenewInput} {v : User}
    (h : resetUsageTx t id inp = .ok t') (hv : v ∈ t.users) :
    ∃ v' ∈ t'.users, v'.id = v.id ∧ v'.subToken = v.subToken ∧ v'.externalID = v.externalID := by
  rw [(resetUsageTx_users h).1]
  have hkeys : KeepsKeys (onRow id (usageReset inp)) := (keepsKeys_usageReset inp).onRow
  exact ⟨_, List.mem_map_of_mem hv, hkeys.id v, hkeys.subToken v, hkeys.externalID v⟩

/-- The write of `Renew` breaks no constraint: it changes no key, and the plan exists. -/
theorem updateUser_renewed_succeeds {w₁ : World} {inp : RenewInput} {now now' : Time} {v v₁ : User}
    (hv : v ∈ w.tables.users) (hplan : switchedPlan w.tables inp v = .ok v₁)
    (hreset : resetUsageTx w.tables id inp = .ok w₁.tables) :
    ∃ t, updateUser w₁.tables (renewed inp now now' v₁) = .ok t := by
  obtain ⟨hi, htok, hext, hpl⟩ := switchedPlan_keys hplan
  obtain ⟨hi', htok', hext', hpl'⟩ := renewed_keys inp now now' v₁
  obtain ⟨v', hv', hvi, hvt, hve⟩ := resetUsageTx_row hreset hv
  refine updateUser_succeeds w₁.db.valid hv' (by rw [hi', hi, hvi]) (by rw [htok', htok, hvt])
    (by rw [hext', hext, hve]) fun p hp => ?_
  rw [(resetUsageTx_users hreset).2]
  rw [hpl', hpl] at hp
  have hknown := switchedPlan_succeeds_iff.1 ⟨v₁, hplan⟩
  cases hinp : inp.planID with
  | none =>
      rw [hinp, Option.none_or] at hp
      exact w.db.valid.users_plan v hv p hp
  | some q =>
      rw [hinp, Option.some_or] at hp
      exact hknown p (hinp ▸ hp)

theorem renew_succeeds_iff {inp : RenewInput} {now now' : Time} :
    Succeeds (renew id inp now now') w ↔
      inp.nonempty ∧ id ∈ w.tables.users.map User.id ∧ PlanKnown w.tables inp.planID := by
  constructor
  · rintro ⟨u, w', h⟩
    obtain ⟨hne, v, v₁, t, hv, hplan, -, -, -⟩ := renew_returns h
    exact ⟨hne, exists_getUser_iff.1 ⟨v, hv⟩, switchedPlan_succeeds_iff.1 ⟨v₁, hplan⟩⟩
  · rintro ⟨hne, hid, hknown⟩
    obtain ⟨v, hv⟩ := exists_getUser_iff.2 hid
    obtain ⟨v₁, hplan⟩ := (switchedPlan_succeeds_iff (u := v)).2 hknown
    obtain ⟨t, hreset⟩ : ∃ t, resetUsageTx w.tables id inp = .ok t := resetUsageTx_succeeds hid
    have hnot : ¬ (inp.days ≤ 0 ∧ inp.resetTraffic = false ∧ inp.planID = none) := by
      rintro ⟨hdays, hr, hp⟩
      rcases hne with h | h | h
      · omega
      · simp [hr] at h
      · exact h hp
    unfold renew
    rw [if_neg hnot]
    refine succeeds_query_bind (StoreCall.read_eq_ok.2 ⟨hv, rfl⟩) fun w₁ ht₁ => ?_
    obtain ⟨w₂, h₂, ht₂⟩ := switchPlan_of_ok (w := w₁) (by rw [ht₁]; exact hplan)
    refine succeeds_bind h₂ ?_
    obtain ⟨w₃, h₃, ht₃⟩ := resetUsage_of_ok (w := w₂) (v := extendExpiry inp now v₁)
      (by rw [ht₂, ht₁]; exact hreset)
    refine succeeds_bind h₃ ?_
    obtain ⟨t', hwrite⟩ : ∃ t, updateUser w₃.tables (renewed inp now now' v₁) = .ok t :=
      updateUser_renewed_succeeds (getUser_mem hv) hplan (by rw [ht₃]; exact hreset)
    refine succeeds_query_bind (StoreCall.wrote_eq_ok.2 hwrite) fun w₄ ht₄ => ?_
    refine succeeds_reconcile_getUser ?_
    have hid' : (renewed inp now now' v₁).id = id := by
      rw [(renewed_keys inp now now' v₁).1, (switchedPlan_keys hplan).1, getUser_id hv]
    rw [ht₄, map_id_of_map (onRow_id fun _ => by rfl) (updateUser_users hwrite)]
    rw [← hid']
    exact (updateUser_eq_ok hwrite).1

theorem snapshot_succeeds_iff {t : Tables} {inp : CreateInput} {now : Time} :
    (∃ limits, snapshot t inp now = .ok limits) ↔ PlanKnown t inp.planID := by
  unfold snapshot
  cases inp.planID with
  | none => simp [PlanKnown]
  | some planID =>
      rw [planKnown_some]
      cases h : getPlan t planID with
      | error e => simp [Except.map, h]
      | ok plan => simp [Except.map, h]

theorem snapshotLimits_of_ok {inp : CreateInput} {now : Time} {limits : Option Int64 × Option Time}
    (h : snapshot w.tables inp now = .ok limits) :
    ∃ w₁ : World, Returns (snapshotLimits inp now) w limits w₁ ∧ w₁.tables = w.tables := by
  unfold snapshot at h
  unfold snapshotLimits
  cases hp : inp.planID with
  | none =>
      rw [hp] at h
      cases h
      exact ⟨w, rfl, rfl⟩
  | some planID =>
      simp only [hp] at h
      cases hplan : getPlan w.tables planID with
      | error e =>
          rw [hplan] at h
          cases h
      | ok plan =>
          rw [hplan] at h
          cases h
          obtain ⟨w₁, h₁, ht⟩ := query_returns (q := .getPlan planID)
            (StoreCall.read_eq_ok.2 ⟨hplan, rfl⟩)
          exact ⟨w₁, returns_bind.2 ⟨plan, w₁, h₁, rfl⟩, ht⟩

/-- The input passes the checks of `Create`, and its email and external id and the random values are
unused. -/
structure CanCreate (t : Tables) (inp : CreateInput) (fresh : Fresh) : Prop where
  email : isBlank inp.email = false
  inbounds : inp.inboundIDs ≠ []
  exist : inboundsExist t inp.inboundIDs
  plan : PlanKnown t inp.planID
  unused : insertConflict t.users (newUser inp fresh none none) = none

theorem create_succeeds_iff {inp : CreateInput} {fresh : Fresh} {now : Time} :
    Succeeds (create inp fresh now) w ↔ CanCreate w.tables inp fresh := by
  constructor
  · rintro ⟨u, w', h⟩
    obtain ⟨hblank, hids, hexist, limits, hsnap, hcreate, -⟩ := create_returns h
    obtain ⟨hconf, -, -⟩ := createWithAssignmentsTx_eq_ok hcreate
    exact ⟨hblank, hids, hexist, snapshot_succeeds_iff.1 ⟨limits, hsnap⟩, hconf⟩
  · intro h
    obtain ⟨limits, hsnap⟩ : ∃ limits, snapshot w.tables inp now = .ok limits :=
      snapshot_succeeds_iff.2 h.plan
    unfold create
    rw [h.email, if_neg h.inbounds]
    obtain ⟨w₁, h₁, ht₁⟩ := snapshotLimits_of_ok hsnap
    refine succeeds_bind h₁ ?_
    refine succeeds_query_bind rfl fun w₂ ht₂ => ?_
    have hexist : (listInboundsByIDs w₁.tables inp.inboundIDs).length =
        (dedup inp.inboundIDs).length := by
      rw [ht₁]
      exact h.exist
    rw [if_neg (not_not.2 hexist)]
    rw [ht₁] at ht₂
    obtain ⟨t, hcreate⟩ : ∃ t, createWithAssignmentsTx w₂.tables
        (newUser inp fresh limits.1 limits.2)
        ((listInboundsByIDs w₁.tables inp.inboundIDs).map Inbound.id) = .ok t := by
      rw [ht₁, ht₂]
      refine createWithAssignmentsTx_succeeds h.unused (decide_eq_true h.plan) fun i hi => ?_
      obtain ⟨b, hb, rfl⟩ := List.mem_map.1 hi
      exact List.mem_map_of_mem (List.mem_filter.1 hb).1
    refine succeeds_query_bind (StoreCall.wrote_eq_ok.2 hcreate) fun w₃ ht₃ => ?_
    refine succeeds_reconcile_getUser ?_
    rw [ht₃, (createWithAssignmentsTx_eq_ok hcreate).2.2]
    simp [zeroUsage]

end Operations

/-! ## The user an event refers to -/

section Events

variable {w w' : World} {ev : BillingEvent}

/-- The user with the external id of the event or, without one, with its email. -/
def referred (t : Tables) (ev : BillingEvent) : Option User :=
  if ev.externalID ≠ "" then lookup User.externalID (some ev.externalID) t.users
  else if ev.email ≠ "" then lookup User.email ev.email t.users
  else none

theorem referred_mem {t : Tables} {u : User} (h : referred t ev = some u) : u ∈ t.users := by
  unfold referred at h
  split_ifs at h with hext hmail
  · exact mem_of_lookup h
  · exact mem_of_lookup h

theorem orUserWith_returns {field value : String} {r : Option User} {u : User} :
    Returns (orUserWith field value (oneRow r)) w u w' ↔ r = some u ∧ w' = w := by
  cases r with
  | none =>
      constructor
      · exact fun h => (not_returns_throw h).elim
      · rintro ⟨h, -⟩
        cases h
  | some v =>
      refine returns_pure.trans ?_
      simp only [Option.some.injEq]
      exact and_congr_left fun _ => eq_comm

theorem resolveUser_returns {u : User} :
    Returns (resolveUser ev) w u w' ↔ referred w.tables ev = some u ∧ w' = w := by
  unfold resolveUser referred
  split_ifs with hext hmail
  · exact (returns_attempt_bind (q := .getUserByExternalID ev.externalID) rfl).trans
      orUserWith_returns
  · exact (returns_attempt_bind (q := .getUserByEmail ev.email) rfl).trans orUserWith_returns
  · constructor
    · exact fun h => (not_returns_throw h).elim
    · rintro ⟨h, -⟩
      cases h

/-- An operation on the user of the event. -/
theorem resolveUser_bind_succeeds_iff {α : Type} {f : User → Service α} :
    Succeeds (resolveUser ev >>= f) w ↔ ∃ u, referred w.tables ev = some u ∧ Succeeds (f u) w := by
  constructor
  · rintro ⟨b, w', h⟩
    obtain ⟨u, w₁, h₁, h₂⟩ := returns_bind.1 h
    obtain ⟨hu, rfl⟩ := resolveUser_returns.1 h₁
    exact ⟨u, hu, b, w', h₂⟩
  · rintro ⟨u, hu, hf⟩
    exact succeeds_bind (resolveUser_returns.2 ⟨hu, rfl⟩) hf

/-! ## The actions -/

/-- The event names what its action needs, the tables have it, and the action may be carried out. -/
def Accepts (t : Tables) (ev : BillingEvent) (d : Delivery) : Action → Prop
  | .provision => ∃ p, ev.provision = some p ∧ ev.externalID ≠ "" ∧
      ((∃ u ∈ t.users, u.externalID = some ev.externalID) ∨
        CanCreate t (createInput ev p) d.fresh)
  | .renew => ∃ p, ev.renew = some p ∧ (∃ u, referred t ev = some u) ∧
      (renewInput p).nonempty ∧ PlanKnown t p.planID
  | .suspend => ∃ u, referred t ev = some u
  | .resume => ∃ u, referred t ev = some u ∧ u.overQuota = false ∧ u.expiredAt d.now = false
  | .cancel => ∃ u, referred t ev = some u

theorem provision_succeeds_iff {d : Delivery} :
    Succeeds (provision ev d) w ↔ Accepts w.tables ev d .provision := by
  unfold provision Accepts
  cases hp : ev.provision with
  | none =>
      constructor
      · exact fun h => (not_succeeds_throw _ h).elim
      · rintro ⟨p, h, -⟩
        cases h
  | some p =>
      simp only [Option.some.injEq, exists_eq_left']
      split_ifs with hext
      · constructor
        · exact fun h => (not_succeeds_throw _ h).elim
        · exact fun h => (h.1 hext).elim
      · have hread : ∀ a w', Returns (attempt (.getUserByExternalID ev.externalID) >>=
            fun r => orCreate ev p d r) w a w' ↔
            Returns (orCreate ev p d (getUserByExternalID w.tables ev.externalID)) w a w' :=
          fun a w' => returns_attempt_bind rfl
        have hmem : (∃ u ∈ w.tables.users, u.externalID = some ev.externalID) ↔
            some ev.externalID ∈ w.tables.users.map User.externalID := by
          rw [List.mem_map]
        rw [hmem, ← lookup_isSome_iff]
        unfold Succeeds
        simp only [hread, getUserByExternalID]
        cases hl : lookup User.externalID (some ev.externalID) w.tables.users with
        | some u =>
            refine ⟨fun _ => ⟨hext, Or.inl rfl⟩, fun _ => ⟨u, w, rfl⟩⟩
        | none =>
            simp only [Option.isSome_none, Bool.false_eq_true, false_or]
            exact create_succeeds_iff.trans ⟨fun h => ⟨hext, h⟩, fun h => h.2⟩

/-- Run alone, an action returns no error exactly when it is accepted. -/
theorem dispatch_succeeds_iff {d : Delivery} (action : Action) :
    Succeeds (dispatch action ev d) w ↔ Accepts w.tables ev d action := by
  have hid : ∀ {u}, referred w.tables ev = some u → u.id ∈ w.tables.users.map User.id :=
    fun hu => List.mem_map_of_mem (referred_mem hu)
  have hget : ∀ {u}, referred w.tables ev = some u → getUser w.tables u.id = .ok u :=
    fun hu => w.db.valid.getUser_eq_ok_iff.2 ⟨referred_mem hu, rfl⟩
  cases action with
  | provision => exact succeeds_bind_pure.trans provision_succeeds_iff
  | renew =>
      refine succeeds_bind_pure.trans ?_
      unfold renewEvent Accepts
      cases hp : ev.renew with
      | none =>
          constructor
          · exact fun h => (not_succeeds_throw _ h).elim
          · rintro ⟨p, h, -⟩
            cases h
      | some p =>
          simp only [Option.some.injEq, exists_eq_left', resolveUser_bind_succeeds_iff,
            renew_succeeds_iff]
          constructor
          · rintro ⟨u, hu, hne, -, hplan⟩
            exact ⟨⟨u, hu⟩, hne, hplan⟩
          · rintro ⟨⟨u, hu⟩, hne, hplan⟩
            exact ⟨u, hu, hne, hid hu, hplan⟩
  | suspend =>
      refine succeeds_bind_pure.trans (resolveUser_bind_succeeds_iff.trans ?_)
      exact exists_congr fun u =>
        ⟨fun h => h.1, fun h => ⟨h, setStatusAndReconcile_succeeds_iff.2 (hid h)⟩⟩
  | resume =>
      refine succeeds_bind_pure.trans (resolveUser_bind_succeeds_iff.trans ?_)
      refine exists_congr fun u => and_congr_right fun hu => resume_succeeds_iff.trans ?_
      rw [hget hu]
      simp
  | cancel =>
      refine succeeds_bind_pure.trans (resolveUser_bind_succeeds_iff.trans ?_)
      exact exists_congr fun u => ⟨fun h => h.1,
        fun h => ⟨h, succeeds_bind_pure.2 (setStatusAndReconcile_succeeds_iff.2 (hid h))⟩⟩

end Events

end XrayApi.Service
