import XrayApi.Service.Retry
import XrayApi.Service.Standing

/-!
# Payment after a suspension

A `suspend` or `cancel` event disables the user, and `Renew` reactivates everybody but disabled
users. `renewal_restores_iff` says what is left of a renewal that follows such an event: the user is
active afterwards exactly when the event was a replay that did nothing, and the user was not
disabled before.
-/

set_option autoImplicit false

namespace XrayApi.Service

open Transition Store Relational

variable {w w' : World} {ev : BillingEvent} {d : Delivery} {action : Action}

/-- A delivery of an event that is recorded leaves the tables. -/
theorem process_returns_known {r : BillingResult} (haction : parseAction ev.action = some action)
    (h : Returns (process (.ok ev) d) w r w') (hrec : Recorded ev.eventID w) :
    w'.tables = w.tables := by
  have hid : ev.eventID ≠ "" := by
    intro hid
    unfold process at h
    simp only [if_pos hid] at h
    exact not_returns_throw h
  rw [process_eq_execute hid haction] at h
  have hrun := Eq.trans (Eq.symm (execute_run_known hrec)) h
  have hw' : World.after w (.recordWebhookEvent ev.eventID ev.action) = w' :=
    congrArg Prod.snd hrun
  have happly : (StoreCall.recordWebhookEvent ev.eventID ev.action).apply w.tables =
      .ok (false, w.tables) := congrArg Except.ok (if_pos hrec)
  rw [← hw']
  exact World.tables_after happly

/-- A delivery of a new event executes its action, on the same users. -/
theorem process_returns_fresh {r : BillingResult} (haction : parseAction ev.action = some action)
    (h : Returns (process (.ok ev) d) w r w') (hnew : ¬ Recorded ev.eventID w) :
    ∃ w₀ user, Returns (dispatch action ev d) w₀ user w' ∧ w₀.tables.users = w.tables.users := by
  have hid : ev.eventID ≠ "" := by
    intro hid
    unfold process at h
    simp only [if_pos hid] at h
    exact not_returns_throw h
  rw [process_eq_execute hid haction] at h
  unfold Returns at h
  rw [execute_run_fresh hnew] at h
  obtain ⟨user, w₁, h₁, h₂⟩ := returns_bind.1 h
  obtain ⟨-, rfl⟩ := returns_pure.1 h₂
  refine ⟨_, user, h₁, ?_⟩
  rw [(exec_record_fresh hnew).2]

theorem referred_of_users {t t' : Tables} (h : t'.users = t.users) :
    referred t' ev = referred t ev := by
  unfold referred
  rw [h]

theorem getUser_of_referred {u : User} (h : referred w.tables ev = some u) :
    getUser w.tables u.id = .ok u :=
  w.db.valid.getUser_eq_ok_iff.2 ⟨referred_mem h, rfl⟩

/-- An executed `suspend` or `cancel` disables the user. -/
theorem dispatch_suspends {u : User} {user : Option User}
    (haction : action = .suspend ∨ action = .cancel)
    (hu : referred w.tables ev = some u) (h : Returns (dispatch action ev d) w user w') :
    getUser w'.tables u.id = .ok (setStatus .disabled u) := by
  have hrun : ∃ v, Returns (withUser ev suspend) w v w' := by
    obtain rfl | rfl := haction
    · obtain ⟨v, w₁, h₁, h₂⟩ := returns_bind.1 h
      obtain ⟨-, rfl⟩ := returns_pure.1 h₂
      exact ⟨v, h₁⟩
    · obtain ⟨⟨⟩, w₁, h₁, h₂⟩ := returns_bind.1 h
      obtain ⟨-, rfl⟩ := returns_pure.1 h₂
      obtain ⟨u', w₂, h₃, h₄⟩ := returns_bind.1 h₁
      obtain ⟨v, w₃, h₅, h₆⟩ := returns_bind.1 h₄
      obtain ⟨-, rfl⟩ := returns_pure.1 h₆
      exact ⟨v, returns_bind.2 ⟨u', w₂, h₃, h₅⟩⟩
  obtain ⟨v, hrun⟩ := hrun
  obtain ⟨u', w₁, h₁, h₂⟩ := returns_bind.1 hrun
  obtain ⟨hu', rfl⟩ := resolveUser_returns.1 h₁
  rw [hu] at hu'
  cases hu'
  have hwrite := (setStatusAndReconcile_returns h₂).1
  rw [getUser_map_eq_ok (onRow_id fun _ => by rfl) (setUserStatus_users hwrite)]
  exact ⟨u, getUser_of_referred hu, (onRow_of_eq rfl).symm⟩

/-- The row of the user after a delivery of a `suspend` or `cancel` event. -/
theorem process_stops {u : User} {r : BillingResult}
    (haction : parseAction ev.action = some .suspend ∨ parseAction ev.action = some .cancel)
    (hu : referred w.tables ev = some u) (h : Returns (process (.ok ev) d) w r w') :
    ∃ v, getUser w'.tables u.id = .ok v ∧
      (v.status = .disabled ↔ ¬ Recorded ev.eventID w ∨ u.status = .disabled) := by
  obtain ⟨action, hparse, hact⟩ : ∃ action, parseAction ev.action = some action ∧
      (action = .suspend ∨ action = .cancel) := by
    obtain h | h := haction
    · exact ⟨_, h, Or.inl rfl⟩
    · exact ⟨_, h, Or.inr rfl⟩
  by_cases hrec : Recorded ev.eventID w
  · refine ⟨u, ?_, ?_⟩
    · rw [process_returns_known hparse h hrec]
      exact getUser_of_referred hu
    · simp [hrec]
  · obtain ⟨w₀, user, hrun, husers⟩ := process_returns_fresh hparse h hrec
    refine ⟨_, dispatch_suspends hact ?_ hrun, iff_of_true rfl (Or.inl hrec)⟩
    rw [referred_of_users husers]
    exact hu

theorem le_renewBase (u : User) (now : Time) : now ≤ renewBase u now := by
  unfold renewBase
  cases u.expiresAt with
  | none => exact Int.le_refl now
  | some t =>
      dsimp only
      split_ifs with h
      · exact Int.le_of_lt h
      · exact Int.le_refl now

/-- What `Renew` with days makes of the status, within the quota. -/
theorem renewed_status_iff {inp : RenewInput} {now now' : Time} {u : User} (hdays : 0 < inp.days)
    (hclock : now' < addDays now inp.days) (hquota : (renewed inp now now' u).overQuota = false) :
    (renewed inp now now' u).status = .active ↔ u.status ≠ .disabled := by
  obtain ⟨c, hc⟩ : ∃ c, c = usageReset inp (extendExpiry inp now u) := ⟨_, rfl⟩
  have hext : extendExpiry inp now u =
      { u with expiresAt := some (addDays (renewBase u now) inp.days) } := if_pos hdays
  have hstatus : c.status = u.status := by
    rw [hc, hext]
    unfold usageReset
    split_ifs <;> rfl
  have hexpires : c.expiresAt = some (addDays (renewBase u now) inp.days) := by
    rw [hc, hext]
    unfold usageReset
    split_ifs <;> rfl
  have hdate : c.expiredAt now' = false := by
    refine expiredAt_eq_false_iff.2 fun e he => ?_
    rw [hexpires] at he
    cases he
    exact Int.lt_of_lt_of_le hclock (Int.add_le_add_right (le_renewBase u now) _)
  unfold renewed at hquota ⊢
  rw [← hc] at hquota ⊢
  unfold reactivate at hquota ⊢
  split_ifs at hquota ⊢ with hif
  · exact iff_of_true rfl (hstatus ▸ hif.1)
  · have hdis : c.status = .disabled := by
      by_contra hne
      exact hif ⟨hne, hquota, hdate⟩
    rw [← hstatus, hdis]
    simp

/-- A renewal with days, after which the user is within the quota, makes everybody active who is not
disabled. -/
theorem dispatch_renews {p : RenewPayload} {u v : User} {user : Option User}
    (hp : ev.renew = some p) (hdays : 0 < p.days) (hclock : d.now' < addDays d.now p.days)
    (hu : referred w.tables ev = some u) (h : Returns (dispatch .renew ev d) w user w')
    (hv : getUser w'.tables u.id = .ok v) (hquota : v.overQuota = false) :
    v.status = .active ↔ u.status ≠ .disabled := by
  obtain ⟨a, w₁, h₁, h₂⟩ := returns_bind.1 h
  obtain ⟨-, rfl⟩ := returns_pure.1 h₂
  unfold renewEvent at h₁
  simp only [hp] at h₁
  obtain ⟨u', w₂, h₃, h₄⟩ := returns_bind.1 h₁
  obtain ⟨hu', rfl⟩ := resolveUser_returns.1 h₃
  rw [hu] at hu'
  cases hu'
  have heffect : (UserOp.renew u.id (renewInput p) d.now d.now').Effect w₂.tables w'.tables :=
    UserOp.effect_of_returns (returns_dropped h₄)
  obtain ⟨u', v₁, hu', hplan, husers, hrow⟩ := Activation.renew_users heffect
  rw [getUser_of_referred hu] at hu'
  cases hu'
  have hids : ∀ r, (persist (renewed (renewInput p) d.now d.now' v₁)
      (usageReset (renewInput p) r)).id = r.id := fun r => (keepsKeys_usageReset _).id r
  obtain ⟨r, hr, rfl⟩ := (getUser_map_eq_ok (onRow_id hids) husers).1 hv
  rw [getUser_of_referred hu] at hr
  cases hr
  rw [onRow_of_eq rfl, hrow] at hquota ⊢
  rw [renewed_status_iff hdays hclock hquota, switchedPlan_eq hplan]

/-- After a delivered `suspend` or `cancel` event and an executed renewal with days that leaves the
user within the quota, the user is active exactly when the first event was a replay and the user was
not disabled before it. The two clock readings of the renewal are less than the paid days apart. -/
theorem renewal_restores_iff {w w₁ w₂ : World} {stop renewal : BillingEvent} {d₁ d₂ : Delivery}
    {r₁ r₂ : BillingResult} {u v : User} {p : RenewPayload}
    (hstop : parseAction stop.action = some .suspend ∨ parseAction stop.action = some .cancel)
    (hu : referred w.tables stop = some u) (h₁ : Returns (process (.ok stop) d₁) w r₁ w₁)
    (hrenew : parseAction renewal.action = some .renew) (hp : renewal.renew = some p)
    (hdays : 0 < p.days) (hclock : d₂.now' < addDays d₂.now p.days)
    (hsame : (referred w₁.tables renewal).map User.id = some u.id)
    (hnew : ¬ Recorded renewal.eventID w₁) (h₂ : Returns (process (.ok renewal) d₂) w₁ r₂ w₂)
    (hv : getUser w₂.tables u.id = .ok v) (hquota : v.overQuota = false) :
    v.status = .active ↔ Recorded stop.eventID w ∧ u.status ≠ .disabled := by
  obtain ⟨u₁, hu₁, hdisabled⟩ := process_stops hstop hu h₁
  obtain ⟨w₀, user, hrun, husers⟩ := process_returns_fresh hrenew h₂ hnew
  obtain ⟨u', hu', hid⟩ := Option.map_eq_some_iff.1 hsame
  have hget := getUser_of_referred hu'
  rw [hid, hu₁] at hget
  cases hget
  rw [← hid] at hv
  rw [← referred_of_users husers] at hu'
  rw [dispatch_renews hp hdays hclock hu' hrun hv hquota, ne_eq, hdisabled, not_or, not_not]

/-! ## A cancelled subscription -/

/-- An active user with an external id. -/
def customer : World :=
  .still ⟨.sole { User.plain "u" "u@x" with externalID := some "c" }, Tables.sole_valid _ rfl⟩

def cancelEvent : BillingEvent := ⟨"evt-1", "cancel", "c", "", none, none⟩

/-- A payment of thirty days. -/
def payment : BillingEvent := ⟨"evt-2", "renew", "c", "", none, some ⟨30, false, none⟩⟩

def atNoon : Delivery := ⟨⟨"u2", "u2", "pw", "tok"⟩, 0, 0⟩

/-- The world after a delivery. -/
def delivered (ev : BillingEvent) (w : World) : World :=
  ((process (.ok ev) atNoon).run exec w).2

/-- The user has cancelled and resumed. -/
def resumed : World :=
  delivered ⟨"evt-3", "resume", "c", "", none, none⟩ (delivered cancelEvent customer)

/-- The user's row after the payment. -/
def paid (status : UserStatus) : User :=
  { User.plain "u" "u@x" with externalID := some "c", status, expiresAt := some (30 * day) }

/-- The cancellation is delivered once more, and then the payment. -/
theorem renewal_restores_iff_replayed :
    getUser (delivered payment (delivered cancelEvent resumed)).tables "u" = .ok (paid .active) ∧
      (paid .active).status = .active := by
  have hstop : parseAction cancelEvent.action = some .suspend ∨
      parseAction cancelEvent.action = some .cancel := Or.inr rfl
  have hu : referred resumed.tables cancelEvent =
      some { User.plain "u" "u@x" with externalID := some "c" } := rfl
  have h₁ : Returns (process (.ok cancelEvent) atNoon) resumed ⟨true, "cancel", none⟩
      (delivered cancelEvent resumed) := rfl
  have h₂ : Returns (process (.ok payment) atNoon) (delivered cancelEvent resumed)
      ⟨false, "renew", some (paid .active)⟩
        (delivered payment (delivered cancelEvent resumed)) := rfl
  have hnew : ¬ Recorded payment.eventID (delivered cancelEvent resumed) := by
    unfold Recorded
    decide
  have hreplay : Recorded cancelEvent.eventID resumed := by
    unfold Recorded
    decide
  refine ⟨rfl, (renewal_restores_iff hstop hu h₁ rfl rfl (by decide) (by decide) rfl hnew h₂ rfl
    rfl).2 ⟨hreplay, by decide⟩⟩

/-- The customer has cancelled and pays again. The payment is accepted, the user is within the
limits, and stays disabled. -/
theorem payment_leaves_disabled :
    ((process (.ok cancelEvent) atNoon).run exec customer).1 = .ok ⟨false, "cancel", none⟩ ∧
      ((process (.ok payment) atNoon).run exec (delivered cancelEvent customer)).1 =
        .ok ⟨false, "renew", some (paid .disabled)⟩ ∧
      getUser (delivered payment (delivered cancelEvent customer)).tables "u" =
        .ok (paid .disabled) ∧
      (paid .disabled).overQuota = false := by
  exact ⟨by rfl, by rfl, by rfl, by rfl⟩

end XrayApi.Service
