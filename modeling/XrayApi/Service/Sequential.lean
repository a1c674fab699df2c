import XrayApi.Service.Billing

/-!
# Operations run alone

What each operation of the user service reads and writes when no other request interferes and no
statement is failed from outside. `Returns` is a run that returns a value. For each operation, the
lemma `..._returns` says what a run that returns did to the tables.
-/

set_option autoImplicit false

namespace XrayApi.Service

open Transition Store Relational

section Rules

variable {α β : Type} {w w' : World}

/-- Alone on `w`, the request returns `a` and leaves `w'`. -/
def Returns (p : Service α) (w : World) (a : α) (w' : World) : Prop :=
  p.run exec w = (.ok a, w')

/-- A run alone has one outcome. -/
theorem Returns.unique {p : Service α} {a b : α} {w₁ w₂ : World} (h₁ : Returns p w a w₁)
    (h₂ : Returns p w b w₂) : a = b ∧ w₁ = w₂ := by
  have h : ((.ok a, w₁) : Except Err α × World) = (.ok b, w₂) := Eq.trans (Eq.symm h₁) h₂
  cases h
  exact ⟨rfl, rfl⟩

theorem returns_bind {p : Service α} {f : α → Service β} {b : β} :
    Returns (p >>= f) w b w' ↔ ∃ a w₁, Returns p w a w₁ ∧ Returns (f a) w₁ b w' :=
  Req.run_bind_ok_iff

theorem returns_pure {a b : α} : Returns (pure a : Service α) w b w' ↔ b = a ∧ w' = w := by
  unfold Returns Req.run
  rw [Req.pure_eq, Prog.run_ret]
  simp only [Prod.mk.injEq, Except.ok.injEq]
  exact ⟨fun h => ⟨h.1.symm, h.2.symm⟩, fun h => ⟨h.1.symm, h.2.symm⟩⟩

theorem not_returns_throw {e : Err} {a : α} : ¬ Returns (Req.throw e : Service α) w a w' := by
  intro h
  cases h

/-- The world after a store call. -/
def World.after (w : World) (q : StoreCall) : World :=
  { w with db := (w.db.exec q).2 }

theorem World.tables_after {q : StoreCall} {o : q.Out} {t : Tables}
    (h : q.apply w.tables = .ok (o, t)) : (World.after w q).tables = t :=
  (Database.exec_of_ok h).2

theorem returns_query {q : StoreCall} {o : q.Out} :
    Returns (query q) w o w' ↔
      q.apply w.tables = .ok (o, w'.tables) ∧ w' = World.after w q := by
  have hrun : (query q).run exec w = ((w.db.exec q).1.mapError Err.store, World.after w q) := rfl
  unfold Returns
  rw [hrun]
  obtain ⟨e, hq, hx⟩ | ⟨o', t, hq, hx, ht⟩ := w.db.exec_cases q
  · rw [hx, hq]
    constructor
    · intro h
      cases h
    · intro h
      cases h.1
  · rw [hx, hq]
    constructor
    · intro h
      cases h
      exact ⟨by rw [World.tables_after hq], rfl⟩
    · rintro ⟨h, rfl⟩
      cases h
      rfl

theorem returns_attempt {q : StoreCall} {r : Except StoreErr q.Out} :
    Returns (attempt q) w r w' ↔ (w.db.exec q).1 = r ∧ w' = World.after w q := by
  have hrun : (attempt q).run exec w = (.ok (w.db.exec q).1, World.after w q) := rfl
  unfold Returns
  rw [hrun]
  simp only [Prod.mk.injEq, Except.ok.injEq]
  exact and_congr_right fun _ => eq_comm

/-- A read whose error the caller looks at. -/
theorem returns_attempt_bind {q : StoreCall} {r : Except StoreErr q.Out}
    {f : Except StoreErr q.Out → Service β} {b : β}
    (hq : q.apply w.tables = StoreCall.read w.tables r) :
    Returns (attempt q >>= f) w b w' ↔ Returns (f r) w b w' := by
  have hexec : w.db.exec q = (r, w.db) := Database.exec_of_read hq
  have hafter : World.after w q = w := by
    unfold World.after
    rw [hexec]
  rw [returns_bind]
  constructor
  · rintro ⟨a, w₁, h₁, h₂⟩
    obtain ⟨ha, hw₁⟩ := returns_attempt.1 h₁
    rw [hexec] at ha
    rw [hw₁, hafter, ← ha] at h₂
    exact h₂
  · intro h
    exact ⟨r, w, returns_attempt.2 ⟨by rw [hexec], hafter.symm⟩, h⟩

/-- Triggers always return and leave the database alone. -/
theorem triggerAll_returns (ns : List ID) (w : World) :
    ∃ w', w'.db = w.db ∧ Returns (triggerAll ns) w () w' := by
  induction ns generalizing w with
  | nil => exact ⟨w, rfl, rfl⟩
  | cons n ns ih =>
      obtain ⟨w', hdb, h⟩ := ih (exec (.trigger n) w).2
      exact ⟨w', hdb, returns_bind.2 ⟨(), _, rfl, h⟩⟩

theorem reconcileForUser_returns (id : ID) (w : World) :
    ∃ w', w'.db = w.db ∧ Returns (reconcileForUser id) w () w' := by
  have hq : (StoreCall.assignmentTargetsForUser id).apply w.tables =
      .ok (assignmentTargetsForUser w.tables id, w.tables) := rfl
  have hdb : (World.after w (.assignmentTargetsForUser id)).db = w.db :=
    Database.ext (World.tables_after hq)
  obtain ⟨w', hw', h⟩ := triggerAll_returns (distinctNodes (assignmentTargetsForUser w.tables id))
    (World.after w (.assignmentTargetsForUser id))
  refine ⟨w', hw'.trans hdb, returns_bind.2 ⟨_, _, returns_attempt.2 ⟨rfl, rfl⟩, ?_⟩⟩
  rw [(Database.exec_of_ok hq).1]
  exact h

/-- The triggers of a request do not show in the database. -/
theorem returns_reconcileForUser {id : ID} {a : Unit} (h : Returns (reconcileForUser id) w a w') :
    w'.db = w.db := by
  obtain ⟨w₂, hdb, h₂⟩ := reconcileForUser_returns id w
  rw [(h.unique h₂).2]
  exact hdb

/-- The last read of a request, after the triggers. -/
theorem returns_reconcile_getUser {id id' : ID} {u : User} :
    Returns (reconcileForUser id >>= fun _ => query (.getUser id')) w u w' ↔
      getUser w.tables id' = .ok u ∧ w'.db = w.db ∧
        ∃ w₁, Returns (reconcileForUser id) w () w₁ ∧ w' = World.after w₁ (.getUser id') := by
  rw [returns_bind]
  constructor
  · rintro ⟨⟨⟩, w₁, h₁, h₂⟩
    obtain ⟨hq, hw'⟩ := returns_query.1 h₂
    obtain ⟨hu, ht⟩ := StoreCall.read_eq_ok.1 hq
    have hdb := returns_reconcileForUser h₁
    have htables : w₁.tables = w.tables := congrArg Database.tables hdb
    rw [htables] at hu ht
    exact ⟨hu, Database.ext ht, w₁, h₁, hw'⟩
  · rintro ⟨hu, hdb, w₁, h₁, hw'⟩
    have htables : w₁.tables = w.tables := congrArg Database.tables (returns_reconcileForUser h₁)
    refine ⟨(), w₁, h₁, returns_query.2 ⟨StoreCall.read_eq_ok.2 ⟨?_, ?_⟩, hw'⟩⟩
    · rw [htables]
      exact hu
    · rw [htables]
      exact congrArg Database.tables hdb

end Rules

/-! ## The operations -/

section Operations

variable {w w' : World} {id : ID} {u : User}

/-- A row that is looked up is returned, with nothing written. -/
theorem returns_getUser {v : User} (h : Returns (query (.getUser id)) w v w') :
    getUser w.tables id = .ok v ∧ w'.tables = w.tables := by
  obtain ⟨hq, -⟩ := returns_query.1 h
  exact StoreCall.read_eq_ok.1 hq

theorem returns_listInboundsByIDs {ids : List ID} {inbounds : List Inbound}
    (h : Returns (query (.listInboundsByIDs ids)) w inbounds w') :
    inbounds = listInboundsByIDs w.tables ids ∧ w'.tables = w.tables := by
  obtain ⟨hq, -⟩ := returns_query.1 h
  obtain ⟨hl, ht⟩ := Prod.mk.inj (Except.ok.inj hq)
  exact ⟨hl.symm, ht.symm⟩

/-- The write, the triggers and the final read of an operation. -/
theorem returns_write {q : StoreCall} {id' : ID}
    (h : Returns (query q >>= fun _ => reconcileForUser id >>= fun _ => query (.getUser id'))
      w u w') : (∃ o, q.apply w.tables = .ok (o, w'.tables)) ∧ getUser w'.tables id' = .ok u := by
  obtain ⟨o, w₁, h₁, h₂⟩ := returns_bind.1 h
  obtain ⟨happly, -⟩ := returns_query.1 h₁
  obtain ⟨hu, hdb, -⟩ := returns_reconcile_getUser.1 h₂
  have ht : w'.tables = w₁.tables := congrArg Database.tables hdb
  rw [ht]
  exact ⟨⟨o, happly⟩, hu⟩

theorem update_returns {inp : UpdateInput} {now : Time} (h : Returns (update id inp now) w u w') :
    ∃ v, getUser w.tables id = .ok v ∧
      updateUser w.tables (inp.patch now v) = .ok w'.tables ∧ getUser w'.tables id = .ok u := by
  obtain ⟨v, w₁, h₁, h₂⟩ := returns_bind.1 h
  obtain ⟨hv, ht⟩ := returns_getUser h₁
  obtain ⟨⟨⟨⟩, hq⟩, hu⟩ := returns_write h₂
  rw [ht] at hq
  exact ⟨v, hv, StoreCall.wrote_eq_ok.1 hq, hu⟩

theorem setStatusAndReconcile_returns {status : UserStatus}
    (h : Returns (setStatusAndReconcile id status) w u w') :
    setUserStatus w.tables id status = .ok w'.tables ∧ getUser w'.tables id = .ok u := by
  obtain ⟨⟨⟨⟩, hq⟩, hu⟩ := returns_write h
  exact ⟨StoreCall.wrote_eq_ok.1 hq, hu⟩

theorem resume_returns {now : Time} (h : Returns (resume id now) w u w') :
    ∃ v, getUser w.tables id = .ok v ∧ v.overQuota = false ∧ v.expiredAt now = false ∧
      setUserStatus w.tables id .active = .ok w'.tables ∧ getUser w'.tables id = .ok u := by
  obtain ⟨v, w₁, h₁, h₂⟩ := returns_bind.1 h
  obtain ⟨hv, ht⟩ := returns_getUser h₁
  split_ifs at h₂ with hquota hexp
  · exact (not_returns_throw h₂).elim
  · exact (not_returns_throw h₂).elim
  · obtain ⟨hwrite, hu⟩ := setStatusAndReconcile_returns h₂
    rw [ht] at hwrite
    exact ⟨v, hv, Bool.eq_false_iff.2 hquota, Bool.eq_false_iff.2 hexp, hwrite, hu⟩

theorem rotateSubToken_returns {token : String} (h : Returns (rotateSubToken id token) w u w') :
    ∃ v, getUser w.tables id = .ok v ∧
      updateUser w.tables { v with subToken := token } = .ok w'.tables ∧
        getUser w'.tables id = .ok u := by
  obtain ⟨v, w₁, h₁, h₂⟩ := returns_bind.1 h
  obtain ⟨hv, ht⟩ := returns_getUser h₁
  obtain ⟨⟨⟩, w₂, h₃, h₄⟩ := returns_bind.1 h₂
  obtain ⟨happly, -⟩ := returns_query.1 h₃
  obtain ⟨hu, ht'⟩ := returns_getUser h₄
  have hwrite := StoreCall.wrote_eq_ok.1 happly
  rw [ht, ← ht'] at hwrite
  rw [← ht'] at hu
  exact ⟨v, hv, hwrite, hu⟩

/-- The status write of `ResetTraffic`, on the tables with the counters reset. -/
def reactivateSuspendedTx (t : Tables) (id : ID) (u : User) (now : Time) :
    Except StoreErr Tables :=
  if u.status = .suspended ∧ u.expiredAt now = false then setUserStatus t id .active else .ok t

theorem reactivateSuspended_returns {v : User} {now : Time} {a : Unit}
    (h : Returns (reactivateSuspended id v now) w a w') :
    reactivateSuspendedTx w.tables id v now = .ok w'.tables := by
  unfold reactivateSuspended at h
  unfold reactivateSuspendedTx
  split_ifs at h ⊢ with hc
  · exact StoreCall.wrote_eq_ok.1 (returns_query.1 h).1
  · rw [(returns_pure.1 h).2]

theorem resetTraffic_returns {now : Time} (h : Returns (resetTraffic id now) w u w') :
    ∃ v t, getUser w.tables id = .ok v ∧ Store.resetTraffic w.tables id = .ok t ∧
      reactivateSuspendedTx t id v now = .ok w'.tables ∧ getUser w'.tables id = .ok u := by
  obtain ⟨v, w₁, h₁, h₂⟩ := returns_bind.1 h
  obtain ⟨hv, ht⟩ := returns_getUser h₁
  obtain ⟨⟨⟩, w₂, h₃, h₄⟩ := returns_bind.1 h₂
  have hreset := StoreCall.wrote_eq_ok.1 (returns_query.1 h₃).1
  obtain ⟨⟨⟩, w₃, h₅, h₆⟩ := returns_bind.1 h₄
  have hact := reactivateSuspended_returns h₅
  obtain ⟨hu, hdb, -⟩ := returns_reconcile_getUser.1 h₆
  have ht' : w'.tables = w₃.tables := congrArg Database.tables hdb
  rw [ht] at hreset
  rw [← ht'] at hact hu
  exact ⟨v, w₂.tables, hv, hreset, hact, hu⟩

/-- The row `Renew` extends, with the new plan's limit if the plan is switched. -/
def switchedPlan (t : Tables) (inp : RenewInput) (u : User) : Except StoreErr User :=
  match inp.planID with
  | none => .ok u
  | some planID =>
    (getPlan t planID).map fun plan =>
      { u with planID := some planID, dataLimitBytes := plan.dataLimitBytes }

theorem switchPlan_returns {inp : RenewInput} {v v₁ : User}
    (h : Returns (switchPlan inp v) w v₁ w') :
    switchedPlan w.tables inp v = .ok v₁ ∧ w'.tables = w.tables := by
  unfold switchPlan at h
  unfold switchedPlan
  cases hp : inp.planID with
  | none =>
      rw [hp] at h
      obtain ⟨rfl, rfl⟩ := returns_pure.1 h
      exact ⟨rfl, rfl⟩
  | some planID =>
      rw [hp] at h
      obtain ⟨plan, w₁, h₁, h₂⟩ := returns_bind.1 h
      obtain ⟨hplan, ht⟩ := StoreCall.read_eq_ok.1 (returns_query.1 h₁).1
      obtain ⟨rfl, rfl⟩ := returns_pure.1 h₂
      exact ⟨by simp only [hplan, Except.map], ht⟩

/-- The counter reset of `Renew`, if asked for. -/
def resetUsageTx (t : Tables) (id : ID) (inp : RenewInput) : Except StoreErr Tables :=
  if inp.resetTraffic then Store.resetTraffic t id else .ok t

/-- The copy of the row after the counter reset. -/
def usageReset (inp : RenewInput) (u : User) : User :=
  if inp.resetTraffic then zeroUsage u else u

theorem resetUsage_returns {inp : RenewInput} {v v₁ : User}
    (h : Returns (resetUsage id inp v) w v₁ w') :
    resetUsageTx w.tables id inp = .ok w'.tables ∧ v₁ = usageReset inp v := by
  unfold resetUsage at h
  unfold resetUsageTx usageReset
  split_ifs at h ⊢ with hr
  · obtain ⟨⟨⟩, w₁, h₁, h₂⟩ := returns_bind.1 h
    obtain ⟨rfl, rfl⟩ := returns_pure.1 h₂
    exact ⟨StoreCall.wrote_eq_ok.1 (returns_query.1 h₁).1, rfl⟩
  · obtain ⟨rfl, rfl⟩ := returns_pure.1 h
    exact ⟨rfl, rfl⟩

/-- The input asks for something. -/
def RenewInput.nonempty (inp : RenewInput) : Prop :=
  0 < inp.days ∨ inp.resetTraffic = true ∨ inp.planID ≠ none

/-- The row `Renew` writes back, from the row with the plan switched. -/
def renewed (inp : RenewInput) (now now' : Time) (u : User) : User :=
  reactivate now' (usageReset inp (extendExpiry inp now u))

theorem renew_returns {inp : RenewInput} {now now' : Time}
    (h : Returns (renew id inp now now') w u w') :
    inp.nonempty ∧ ∃ v v₁ t, getUser w.tables id = .ok v ∧ switchedPlan w.tables inp v = .ok v₁ ∧
      resetUsageTx w.tables id inp = .ok t ∧
      updateUser t (renewed inp now now' v₁) = .ok w'.tables ∧ getUser w'.tables id = .ok u := by
  unfold renew at h
  split_ifs at h with hempty
  · exact (not_returns_throw h).elim
  · obtain ⟨v, w₁, h₁, h₂⟩ := returns_bind.1 h
    obtain ⟨hv, ht₁⟩ := returns_getUser h₁
    obtain ⟨v₁, w₂, h₃, h₄⟩ := returns_bind.1 h₂
    obtain ⟨hplan, ht₂⟩ := switchPlan_returns h₃
    obtain ⟨v₂, w₃, h₅, h₆⟩ := returns_bind.1 h₄
    obtain ⟨hreset, rfl⟩ := resetUsage_returns h₅
    obtain ⟨⟨⟨⟩, hq⟩, hu⟩ := returns_write h₆
    rw [ht₂, ht₁] at hreset
    rw [ht₁] at hplan
    refine ⟨?_, v, v₁, w₃.tables, hv, hplan, hreset, StoreCall.wrote_eq_ok.1 hq, hu⟩
    by_contra hno
    simp only [RenewInput.nonempty, not_or, Int.not_lt, Bool.not_eq_true, ne_eq, not_not] at hno
    exact hempty hno

/-- The limits of a new user. -/
def snapshot (t : Tables) (inp : CreateInput) (now : Time) :
    Except StoreErr (Option Int64 × Option Time) :=
  match inp.planID with
  | none => .ok (inp.dataLimitBytes, inp.expiresAt)
  | some planID =>
    (getPlan t planID).map fun plan =>
      (inp.dataLimitBytes.or plan.dataLimitBytes,
        inp.expiresAt.or (plan.durationDays.map (addDays now)))

theorem snapshotLimits_returns {inp : CreateInput} {now : Time}
    {limits : Option Int64 × Option Time} (h : Returns (snapshotLimits inp now) w limits w') :
    snapshot w.tables inp now = .ok limits ∧ w'.tables = w.tables := by
  unfold snapshotLimits at h
  unfold snapshot
  cases hp : inp.planID with
  | none =>
      rw [hp] at h
      obtain ⟨rfl, rfl⟩ := returns_pure.1 h
      exact ⟨rfl, rfl⟩
  | some planID =>
      rw [hp] at h
      obtain ⟨plan, w₁, h₁, h₂⟩ := returns_bind.1 h
      obtain ⟨hplan, ht⟩ := StoreCall.read_eq_ok.1 (returns_query.1 h₁).1
      obtain ⟨rfl, rfl⟩ := returns_pure.1 h₂
      exact ⟨by simp only [hplan, Except.map], ht⟩

/-- Every id of the list is an inbound, as `Create` and `SetInbounds` check it. -/
def inboundsExist (t : Tables) (ids : List ID) : Prop :=
  (listInboundsByIDs t ids).length = (dedup ids).length

theorem create_returns {inp : CreateInput} {fresh : Fresh} {now : Time}
    (h : Returns (create inp fresh now) w u w') :
    isBlank inp.email = false ∧ inp.inboundIDs ≠ [] ∧ inboundsExist w.tables inp.inboundIDs ∧
      ∃ limits, snapshot w.tables inp now = .ok limits ∧
        createWithAssignmentsTx w.tables (newUser inp fresh limits.1 limits.2)
          ((listInboundsByIDs w.tables inp.inboundIDs).map Inbound.id) = .ok w'.tables ∧
        getUser w'.tables fresh.id = .ok u := by
  unfold create at h
  split_ifs at h with hblank hids
  · exact (not_returns_throw h).elim
  · exact (not_returns_throw h).elim
  · obtain ⟨limits, w₁, h₁, h₂⟩ := returns_bind.1 h
    obtain ⟨hsnap, ht₁⟩ := snapshotLimits_returns h₁
    obtain ⟨inbounds, w₂, h₃, h₄⟩ := returns_bind.1 h₂
    obtain ⟨rfl, ht₂⟩ := returns_listInboundsByIDs h₃
    rw [ht₁] at h₄ ht₂
    split_ifs at h₄ with hlen
    · exact (not_returns_throw h₄).elim
    · obtain ⟨⟨⟨⟩, hq⟩, hu⟩ := returns_write h₄
      rw [ht₂] at hq
      exact ⟨Bool.eq_false_iff.2 hblank, hids, not_not.1 hlen, limits, hsnap,
        StoreCall.wrote_eq_ok.1 hq, hu⟩

theorem setInbounds_returns {ids : Slice ID} (h : Returns (setInbounds id ids) w u w') :
    ∃ v, getUser w.tables id = .ok v ∧ inboundsExist w.tables ids.elems ∧
      setAssignmentsForUserTx w.tables id ids = .ok w'.tables ∧ getUser w'.tables id = .ok u := by
  obtain ⟨v, w₁, h₁, h₂⟩ := returns_bind.1 h
  obtain ⟨hv, ht₁⟩ := returns_getUser h₁
  obtain ⟨inbounds, w₂, h₃, h₄⟩ := returns_bind.1 h₂
  obtain ⟨rfl, ht₂⟩ := returns_listInboundsByIDs h₃
  rw [ht₁] at h₄ ht₂
  split_ifs at h₄ with hlen
  · exact (not_returns_throw h₄).elim
  · obtain ⟨targets, w₃, h₅, h₆⟩ := returns_bind.1 h₄
    have ht₃ : w₃.tables = w₂.tables := by
      rw [(returns_attempt.1 h₅).2]
      exact World.tables_after rfl
    obtain ⟨⟨⟩, w₄, h₇, h₈⟩ := returns_bind.1 h₆
    have hwrite := StoreCall.wrote_eq_ok.1 (returns_query.1 h₇).1
    obtain ⟨⟨⟩, w₅, h₉, h₁₀⟩ := returns_bind.1 h₈
    obtain ⟨w₆, hdb, h₁₁⟩ := triggerAll_returns _ w₄
    have ht₅ : w₅.tables = w₄.tables := by
      rw [(Returns.unique h₉ h₁₁).2]
      exact congrArg Database.tables hdb
    obtain ⟨hu, ht'⟩ := returns_getUser h₁₀
    rw [← ht'] at hu
    rw [ht₃, ht₂, ← ht₅, ← ht'] at hwrite
    exact ⟨v, hv, not_not.1 hlen, hwrite, hu⟩

end Operations

end XrayApi.Service
