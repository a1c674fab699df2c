import XrayApi.Service.UserOps

/-!
# Who may be active

Five operations make users active, each with its own test of quota and expiry.
`activation_sound_iff` says when a user that an operation makes active is within its quota and not
past its expiry.
-/

set_option autoImplicit false

namespace XrayApi.Service

open Transition Store Relational Worker

/-! ## Rows that become active -/

/-- Whoever is active and was not is within quota and not past the expiry at `now`. -/
def ActivatesSoundly (now : Time) (t t' : Tables) : Prop :=
  ∀ id v, getUser t' id = .ok v → v.status = .active →
    (∀ u, getUser t id = .ok u → u.status ≠ .active) →
    v.overQuota = false ∧ v.expiredAt now = false

section Activation

variable {t t' : Tables} {id : ID} {now : Time}

/-- A write of one row makes nobody else active. -/
theorem activatesSoundly_onRow_iff {f : User → User} {u : User} (hf : ∀ r, (f r).id = r.id)
    (hu : getUser t id = .ok u) (h : t'.users = t.users.map (onRow id f)) :
    ActivatesSoundly now t t' ↔
      ((f u).status = .active → u.status ≠ .active →
        (f u).overQuota = false ∧ (f u).expiredAt now = false) := by
  have hself : getUser t' id = .ok (f u) := by
    rw [getUser_map_eq_ok (onRow_id hf) h]
    exact ⟨u, hu, (onRow_of_eq (getUser_id hu)).symm⟩
  constructor
  · intro hs hact hnot
    refine hs id (f u) hself hact fun u' hu' => ?_
    rw [hu] at hu'
    cases hu'
    exact hnot
  · intro hs id' v hv hact hnot
    by_cases hid : id' = id
    · subst hid
      rw [hself] at hv
      cases hv
      exact hs hact (hnot u hu)
    · obtain ⟨r, hr, rfl⟩ := (getUser_map_eq_ok (onRow_id hf) h).1 hv
      rw [onRow_of_ne (fun he => hid ((getUser_id hr).symm.trans he))] at hact
      exact (hnot r hr hact).elim

/-- A new row. -/
theorem activatesSoundly_append_iff {v : User} (hid : v.id ∉ t.users.map User.id)
    (hact : v.status = .active) (h : t'.users = t.users ++ [v]) :
    ActivatesSoundly now t t' ↔ v.overQuota = false ∧ v.expiredAt now = false := by
  have hlookup : ∀ id, lookup User.id id t'.users =
      (lookup User.id id t.users).or (if v.id = id then some v else none) := by
    intro id
    rw [h, lookup_append_singleton]
  constructor
  · intro hs
    refine hs v.id v (getUser_eq_ok.2 ?_) hact fun u hu => ?_
    · rw [hlookup, lookup_eq_none_iff.2 hid, if_pos rfl]
      rfl
    · exact (hid (exists_getUser_iff.1 ⟨u, hu⟩)).elim
  · intro hs id v' hv' hact' hnot
    have hv' := getUser_eq_ok.1 hv'
    rw [hlookup] at hv'
    cases hu : lookup User.id id t.users with
    | some u =>
        rw [hu] at hv'
        cases hv'
        exact (hnot _ (getUser_eq_ok.2 hu) hact').elim
    | none =>
        rw [hu, Option.none_or] at hv'
        split_ifs at hv' with hid'
        cases hv'
        exact hs

end Activation

/-! ## The operations that make users active -/

theorem overQuota_eq_false_iff {u : User} :
    u.overQuota = false ↔ ∀ l, u.dataLimitBytes = some l → u.usedTotalBytes < l := by
  unfold User.overQuota
  cases u.dataLimitBytes with
  | none => simp
  | some limit => simp

theorem expiredAt_eq_false_iff {u : User} {now : Time} :
    u.expiredAt now = false ↔ ∀ e, u.expiresAt = some e → now < e := by
  unfold User.expiredAt
  cases u.expiresAt with
  | none => simp
  | some t => simp

theorem expiresAfter_iff {u : User} {now : Time} :
    expiresAfter u now = true ↔ ∃ e, u.expiresAt = some e ∧ now < e := by
  unfold expiresAfter
  cases u.expiresAt with
  | none => simp
  | some t => simp

theorem expiredAt_of_expiresAfter {u : User} {now : Time} (h : expiresAfter u now = true) :
    u.expiredAt now = false := by
  obtain ⟨e, he, hlt⟩ := expiresAfter_iff.1 h
  refine expiredAt_eq_false_iff.2 fun e' he' => ?_
  rw [he] at he'
  cases he'
  exact hlt

/-- One of the five operations, with its arguments and clock readings. -/
inductive Activation
  | create (inp : CreateInput) (fresh : Fresh) (now : Time)
  | update (id : ID) (inp : UpdateInput) (now : Time) (h : inp.status = none)
  | resume (id : ID) (now : Time)
  | resetTraffic (id : ID) (now : Time)
  | renew (id : ID) (inp : RenewInput) (now now' : Time)

/-- The plan a new user gets. -/
def planOf (t : Tables) (inp : CreateInput) : Option Plan :=
  inp.planID.bind fun planID => lookup Plan.id planID t.plans

namespace Activation

def op : Activation → UserOp
  | create inp fresh now => .create inp fresh now
  | update id inp now _ => .row id (.update inp now)
  | resume id now => .resume id now
  | resetTraffic id now => .row id (.resetTraffic now)
  | renew id inp now now' => .renew id inp now now'

/-- The time of the operation's own check. -/
def moment : Activation → Time
  | create _ _ now => now
  | update _ _ now _ => now
  | resume _ now => now
  | resetTraffic _ now => now
  | renew _ _ _ now' => now'

/-- The cases in which the operation's own test is enough. A new user needs a positive limit and an
expiry ahead, an expired user whose expiry is moved ahead needs usage below its limit, and a
suspended user whose usage is reset needs a positive limit. -/
def Safe : Activation → Tables → Prop
  | create inp _ now, t =>
    (∀ l, inp.dataLimitBytes.or ((planOf t inp).bind Plan.dataLimitBytes) = some l → 0 < l) ∧
      (∀ e, inp.expiresAt = some e → now < e) ∧
      (inp.expiresAt = none → ∀ d, (planOf t inp).bind Plan.durationDays = some d → 0 < d)
  | update id inp now _, t => ∀ u, getUser t id = .ok u → u.status = .expired →
    inp.clearExpiry = false → (∃ e, inp.expiresAt.or u.expiresAt = some e ∧ now < e) →
    ∀ l, inp.dataLimitBytes.or u.dataLimitBytes = some l → u.usedTotalBytes < l
  | resetTraffic id now, t => ∀ u, getUser t id = .ok u → u.status = .suspended →
    u.expiredAt now = false → ∀ l, u.dataLimitBytes = some l → 0 < l
  | resume _ _, _ => True
  | renew _ _ _ _, _ => True

variable {t t' : Tables}

theorem snapshot_eq {inp : CreateInput} {now : Time} {limits : Option Int64 × Option Time}
    (h : snapshot t inp now = .ok limits) :
    limits = (inp.dataLimitBytes.or ((planOf t inp).bind Plan.dataLimitBytes),
      inp.expiresAt.or (((planOf t inp).bind Plan.durationDays).map (addDays now))) := by
  unfold snapshot at h
  unfold planOf
  cases hp : inp.planID with
  | none =>
      rw [hp] at h
      cases h
      simp
  | some planID =>
      simp only [hp, getPlan, oneRow] at h
      cases hl : lookup Plan.id planID t.plans with
      | none =>
          rw [hl] at h
          cases h
      | some plan =>
          rw [hl] at h
          cases h
          simp [hl]

theorem lt_addDays_iff {now : Time} {d : Int} : now < addDays now d ↔ 0 < d := by
  have h : ∀ n : Int, n < n + d * 86400000000 ↔ 0 < d := by omega
  exact h now

theorem create_sound_iff {inp : CreateInput} {fresh : Fresh} {now : Time}
    (h : (create inp fresh now).op.Effect t t') :
    ActivatesSoundly now t t' ↔ (create inp fresh now).Safe t := by
  obtain ⟨-, -, -, limits, hsnap, hwrite⟩ := h
  obtain ⟨hconf, -, husers⟩ := createWithAssignmentsTx_eq_ok hwrite
  have hid := (insertConflict_eq_none hconf).1
  rw [activatesSoundly_append_iff hid rfl husers, overQuota_eq_false_iff, expiredAt_eq_false_iff]
  have hl := snapshot_eq hsnap
  have h₁ : (newUser inp fresh limits.1 limits.2).dataLimitBytes = limits.1 := rfl
  have h₂ : (newUser inp fresh limits.1 limits.2).expiresAt = limits.2 := rfl
  have h₃ : (newUser inp fresh limits.1 limits.2).usedTotalBytes = 0 := rfl
  rw [h₁, h₂, h₃, hl]
  refine and_congr Iff.rfl ?_
  cases hexp : inp.expiresAt with
  | some e => simp
  | none =>
      cases (planOf t inp).bind Plan.durationDays with
      | none => simp
      | some d => simp [lt_addDays_iff]

theorem persist_patch (inp : UpdateInput) (now : Time) (u : User) :
    persist (inp.patch now u) u = inp.patch now u := by
  unfold UpdateInput.patch
  split_ifs with h
  · rfl
  · rfl

theorem expiresAfter_fields_iff {inp : UpdateInput} {u : User} {now : Time} :
    expiresAfter (inp.fields u) now = true ↔
      inp.clearExpiry = false ∧ ∃ e, inp.expiresAt.or u.expiresAt = some e ∧ now < e := by
  rw [expiresAfter_iff]
  unfold UpdateInput.fields
  cases inp.clearExpiry with
  | true => simp
  | false => simp

theorem update_sound_iff {id : ID} {inp : UpdateInput} {now : Time} {hs : inp.status = none}
    (h : (update id inp now hs).op.Effect t t') :
    ActivatesSoundly now t t' ↔ (update id inp now hs).Safe t := by
  obtain ⟨u, hu, hwrite⟩ := h
  have husers := updateUser_users hwrite
  rw [patch_id, getUser_id hu] at husers
  rw [activatesSoundly_onRow_iff (fun _ => by rfl) hu husers, persist_patch]
  have hstatus : (inp.fields u).status = u.status := by simp [UpdateInput.fields, hs]
  have hquota : (inp.fields u).overQuota = false ↔
      ∀ l, inp.dataLimitBytes.or u.dataLimitBytes = some l → u.usedTotalBytes < l :=
    overQuota_eq_false_iff
  unfold Safe
  constructor
  · intro hsound u' hu' hexp hclear hahead
    rw [hu] at hu'
    cases hu'
    have hafter := expiresAfter_fields_iff.2 ⟨hclear, hahead⟩
    have hpatch : inp.patch now u = { inp.fields u with status := .active } :=
      if_pos ⟨hstatus.trans hexp, hafter⟩
    rw [hpatch] at hsound
    exact hquota.1 (hsound rfl (by rw [hexp]; exact fun h => by cases h)).1
  · intro hsafe hact hnot
    by_cases hc : (inp.fields u).status = .expired ∧ expiresAfter (inp.fields u) now
    · have hpatch : inp.patch now u = { inp.fields u with status := .active } := if_pos hc
      obtain ⟨hclear, hahead⟩ := expiresAfter_fields_iff.1 hc.2
      rw [hpatch]
      exact ⟨hquota.2 (hsafe u hu (hstatus.symm.trans hc.1) hclear hahead),
        expiredAt_of_expiresAfter hc.2⟩
    · have hpatch : inp.patch now u = inp.fields u := if_neg hc
      rw [hpatch, hstatus] at hact
      exact (hnot hact).elim

theorem resetTraffic_sound_iff {id : ID} {now : Time}
    (h : (resetTraffic id now).op.Effect t t') :
    ActivatesSoundly now t t' ↔ (resetTraffic id now).Safe t := by
  obtain ⟨u, t₁, hu, hreset, hact⟩ := h
  have hzero := resetTraffic_users hreset
  have hquota : (zeroUsage u).overQuota = false ↔ ∀ l, u.dataLimitBytes = some l → 0 < l :=
    overQuota_eq_false_iff
  have hsafe : (resetTraffic id now).Safe t ↔
      (u.status = .suspended → u.expiredAt now = false → (zeroUsage u).overQuota = false) := by
    rw [hquota]
    constructor
    · exact fun hs => hs u hu
    · intro hs u' hu'
      rw [hu] at hu'
      cases hu'
      exact hs
  rw [hsafe]
  unfold reactivateSuspendedTx at hact
  split_ifs at hact with hc
  · have husers : t'.users = t.users.map (onRow id fun r => setStatus .active (zeroUsage r)) := by
      rw [setUserStatus_users hact, hzero, List.map_map]
      refine List.map_congr_left fun r _ => ?_
      by_cases hr : r.id = id
      · simp only [Function.comp_apply, onRow_of_eq hr]
        exact onRow_of_eq hr
      · simp only [Function.comp_apply, onRow_of_ne hr]
    rw [activatesSoundly_onRow_iff (fun _ => by rfl) hu husers]
    have hne : u.status ≠ .active := by rw [hc.1]; exact fun h => by cases h
    exact ⟨fun hs _ _ => (hs rfl hne).1, fun hs _ _ => ⟨hs hc.1 hc.2, hc.2⟩⟩
  · cases hact
    rw [activatesSoundly_onRow_iff (fun _ => by rfl) hu hzero]
    exact ⟨fun _ h₁ h₂ => (hc ⟨h₁, h₂⟩).elim, fun _ h₁ h₂ => (h₂ h₁).elim⟩

theorem resume_sound {id : ID} {now : Time} (h : (resume id now).op.Effect t t') :
    ActivatesSoundly now t t' := by
  obtain ⟨u, hu, hquota, hexp, hwrite⟩ := h
  rw [activatesSoundly_onRow_iff (fun _ => by rfl) hu (setUserStatus_users hwrite)]
  exact fun _ _ => ⟨hquota, hexp⟩

/-- The two writes of `Renew` on the row: what it writes back is what it computed. -/
theorem renew_users {id : ID} {inp : RenewInput} {now now' : Time}
    (h : (UserOp.renew id inp now now').Effect t t') :
    ∃ v v₁, getUser t id = .ok v ∧ switchedPlan t inp v = .ok v₁ ∧
      t'.users = t.users.map (onRow id fun r =>
        persist (renewed inp now now' v₁) (usageReset inp r)) ∧
      persist (renewed inp now now' v₁) (usageReset inp v) = renewed inp now now' v₁ := by
  obtain ⟨-, v, v₁, t₁, hv, hplan, hreset, hwrite⟩ := h
  have hid : (renewed inp now now' v₁).id = id := by
    rw [(renewed_keys inp now now' v₁).1, (switchedPlan_keys hplan).1, getUser_id hv]
  refine ⟨v, v₁, hv, hplan, ?_, ?_⟩
  · rw [updateUser_users hwrite, hid, (resetUsageTx_users hreset).1, List.map_map]
    refine List.map_congr_left fun r _ => ?_
    by_cases hr : r.id = id
    · have hr' : (usageReset inp r).id = id := by
        rw [← hr]
        exact (keepsKeys_usageReset inp).id r
      simp only [Function.comp_apply, onRow_of_eq hr, onRow_of_eq hr']
    · simp only [Function.comp_apply, onRow_of_ne hr]
  · rw [switchedPlan_eq hplan]
    unfold renewed reactivate usageReset extendExpiry
    split_ifs <;> rfl

theorem renew_sound {id : ID} {inp : RenewInput} {now now' : Time}
    (h : (renew id inp now now').op.Effect t t') : ActivatesSoundly now' t t' := by
  obtain ⟨v, v₁, hv, hplan, husers, hrow⟩ := renew_users h
  have hids : ∀ r, (persist (renewed inp now now' v₁) (usageReset inp r)).id = r.id :=
    fun r => (keepsKeys_usageReset inp).id r
  rw [activatesSoundly_onRow_iff hids hv husers, hrow]
  intro hact hnot
  unfold renewed reactivate at hact ⊢
  split_ifs at hact ⊢ with hc
  · exact hc.2
  · have hstatus : (usageReset inp (extendExpiry inp now v₁)).status = v.status := by
      rw [switchedPlan_eq hplan]
      unfold usageReset extendExpiry
      split_ifs <;> rfl
    exact (hnot (hstatus.symm.trans hact)).elim

end Activation

/-- A user that an accepted operation makes active is within its quota and not past its expiry
exactly in the safe cases; an operation that is refused makes nobody active. -/
theorem activation_sound_iff (x : Activation) (w : World) :
    (∀ w', Returns x.op.service w () w' →
        (ActivatesSoundly x.moment w.tables w'.tables ↔ x.Safe w.tables)) ∧
      (¬ Succeeds x.op.service w →
        ActivatesSoundly x.moment w.tables (x.op.service.run exec w).2.tables) := by
  constructor
  · intro w' h
    have heffect := UserOp.effect_of_returns h
    cases x with
    | create inp fresh now => exact Activation.create_sound_iff heffect
    | update id inp now hs => exact Activation.update_sound_iff heffect
    | resume id now => exact iff_of_true (Activation.resume_sound heffect) trivial
    | resetTraffic id now => exact Activation.resetTraffic_sound_iff heffect
    | renew id inp now now' => exact iff_of_true (Activation.renew_sound heffect) trivial
  · intro h
    rw [UserOp.unchanged_of_not_succeeds h]
    exact fun id v hv hact hnot => (hnot v hv hact).elim

/-- A user expired at time 0 who has used 150 bytes of `limit`. -/
def lapsed (limit : Int64) : World :=
  .still ⟨.sole { User.plain "u" "u@x" with
    status := .expired, expiresAt := some 0, dataLimitBytes := some limit, usedUploadBytes := 150 },
    Tables.sole_valid _ rfl⟩

/-- At the end of the first day the expiry is moved to the end of the second. -/
def extension : Activation :=
  .update "u" ⟨none, none, some (2 * day), false, none, none⟩ day rfl

theorem activation_sound_iff_extension :
    ActivatesSoundly day (lapsed 200).tables
      (extension.op.service.run exec (lapsed 200)).2.tables := by
  have hrun : Returns extension.op.service (lapsed 200) ()
      (extension.op.service.run exec (lapsed 200)).2 := rfl
  refine ((activation_sound_iff extension (lapsed 200)).1 _ hrun).2 fun u hu _ _ _ l hl => ?_
  cases hu
  cases hl
  decide

/-- An extension makes a user active that has used more than its limit. -/
theorem extension_activates_over_quota :
    Returns extension.op.service (lapsed 100) () (extension.op.service.run exec (lapsed 100)).2 ∧
      ¬ ActivatesSoundly extension.moment (lapsed 100).tables
        (extension.op.service.run exec (lapsed 100)).2.tables := by
  refine ⟨rfl, fun h => ?_⟩
  have hquota := (h "u" _ rfl rfl fun u hu => by cases hu; decide).1
  revert hquota
  decide

end XrayApi.Service
