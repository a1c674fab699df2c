import XrayApi.Service.Standing
import XrayApi.Worker.Conservation

/-!
# Who stays expired

Runs of operations, one after the other, under a clock that does not go back. A user is cut off for
a reason: the expiry has passed, or the limit is reached. `expired_justified` says for which runs
nobody is left expired without one. Three operations can take the reason away and leave the status:
`Update` when it clears the expiry or raises the limit, `ResetTraffic`, which reactivates suspended
users only, and a commit of deltas that makes the total smaller.
-/

set_option autoImplicit false

namespace XrayApi.Service

open Transition Store Relational Worker

/-! ## Reasons -/

/-- A reason to be cut off at `now`. -/
def CutOff (now : Time) (u : User) : Prop :=
  u.expiredAt now = true ∨ u.overQuota = true

/-- Everyone who is expired has a reason to be cut off. -/
def Justified (now : Time) (t : Tables) : Prop :=
  ∀ id u, getUser t id = .ok u → u.status = .expired → CutOff now u

theorem overQuota_eq_true_iff {u : User} :
    u.overQuota = true ↔ ∃ l, u.dataLimitBytes = some l ∧ l ≤ u.usedTotalBytes := by
  unfold User.overQuota
  cases u.dataLimitBytes with
  | none => simp
  | some limit => simp

section Reasons

variable {t t' : Tables} {a b : Time} {id : ID} {f : User → User}

theorem CutOff.mono {u : User} (hab : a ≤ b) (h : CutOff a u) : CutOff b u :=
  h.imp_left fun h => User.expiredAt_mono h hab

theorem Justified.mono (hab : a ≤ b) (h : Justified a t) : Justified b t :=
  fun id u hu hexp => (h id u hu hexp).mono hab

theorem Justified.of_users (h : Justified a t) (hu : t'.users = t.users) : Justified a t' := by
  intro id u hget
  rw [getUser_eq_ok, hu, ← getUser_eq_ok] at hget
  exact h id u hget

/-- A write of rows. -/
theorem justified_of_map (hf : ∀ r, (f r).id = r.id) (h : t'.users = t.users.map f)
    (hrow : ∀ id u, getUser t id = .ok u → (f u).status = .expired → CutOff b (f u)) :
    Justified b t' := by
  intro id v hv hexp
  obtain ⟨u, hu, rfl⟩ := (getUser_map_eq_ok hf h).1 hv
  exact hrow id u hu hexp

/-- A write of one row. -/
theorem Justified.onRow (hJ : Justified a t) (hab : a ≤ b) (hf : ∀ r, (f r).id = r.id)
    (h : t'.users = t.users.map (onRow id f))
    (hrow : ∀ u, getUser t id = .ok u → (f u).status = .expired → CutOff b (f u)) :
    Justified b t' := by
  refine justified_of_map (onRow_id hf) h fun id' u hu => ?_
  have huid := getUser_id hu
  by_cases hid : id' = id
  · subst hid
    rw [onRow_of_eq huid]
    exact hrow u hu
  · rw [onRow_of_ne (fun he => hid (huid.symm.trans he))]
    exact (hJ.mono hab) id' u hu

/-- A new row that is not expired. -/
theorem Justified.append {v : User} (hJ : Justified a t) (hv : v.status ≠ .expired)
    (h : t'.users = t.users ++ [v]) : Justified a t' := by
  intro id u hu hexp
  rw [getUser_eq_ok, h, lookup_append_singleton] at hu
  cases hl : lookup User.id id t.users with
  | some r =>
      rw [hl] at hu
      cases hu
      exact hJ id _ (getUser_eq_ok.2 hl) hexp
  | none =>
      rw [hl, Option.none_or] at hu
      split_ifs at hu
      cases hu
      exact (hv hexp).elim

end Reasons

/-! ## Deltas and the total -/

theorem foldl_charge_standing (ds : List TrafficDelta) (r : User) :
    (ds.foldl charge r).status = r.status ∧ (ds.foldl charge r).expiresAt = r.expiresAt ∧
      (ds.foldl charge r).dataLimitBytes = r.dataLimitBytes := by
  induction ds generalizing r with
  | nil => exact ⟨rfl, rfl, rfl⟩
  | cons d ds ih =>
      obtain ⟨h₁, h₂, h₃⟩ := ih (charge r d)
      rw [List.foldl_cons, h₁, h₂, h₃]
      unfold charge
      split_ifs <;> exact ⟨rfl, rfl, rfl⟩

theorem charge_usedTotalBytes_modEq (r : User) (d : TrafficDelta) :
    (charge r d).usedTotalBytes.toInt ≡ r.usedTotalBytes.toInt +
      ((if d.userID = r.id then d.uplink.toInt else 0) +
        if d.userID = r.id then d.downlink.toInt else 0) [ZMOD 2 ^ 64] := by
  unfold charge
  split_ifs with h
  · have hsum : r.usedUploadBytes + d.uplink + (r.usedDownloadBytes + d.downlink) =
        r.usedTotalBytes + (d.uplink + d.downlink) := by
      unfold User.usedTotalBytes
      ac_rfl
    change (r.usedUploadBytes + d.uplink + (r.usedDownloadBytes + d.downlink)).toInt ≡ _
      [ZMOD 2 ^ 64]
    rw [hsum]
    exact (toInt_add_modEq _ _).trans ((toInt_add_modEq _ _).add_left _)
  · simp

/-- The total after a list of deltas, up to the wrap. -/
theorem foldl_charge_usedTotalBytes_modEq (ds : List TrafficDelta) (r : User) :
    (ds.foldl charge r).usedTotalBytes.toInt ≡ r.usedTotalBytes.toInt +
      (charged .uplink r.id ds + charged .downlink r.id ds) [ZMOD 2 ^ 64] := by
  induction ds generalizing r with
  | nil => simp
  | cons d ds ih =>
      rw [List.foldl_cons, charged_cons, charged_cons]
      have hrest := ih (charge r d)
      rw [charge_id] at hrest
      have hhead := (charge_usedTotalBytes_modEq r d).add_right
        (charged .uplink r.id ds + charged .downlink r.id ds)
      simpa only [Direction.ofDelta, add_assoc, add_left_comm] using hrest.trans hhead

/-- A total that fits is not wrapped. -/
theorem foldl_charge_usedTotalBytes {ds : List TrafficDelta} {r : User}
    (hnn : 0 ≤ charged .uplink r.id ds + charged .downlink r.id ds)
    (hfit : r.usedTotalBytes.toInt +
      (charged .uplink r.id ds + charged .downlink r.id ds) < 2 ^ 63) :
    (ds.foldl charge r).usedTotalBytes.toInt = r.usedTotalBytes.toInt +
      (charged .uplink r.id ds + charged .downlink r.id ds) := by
  have hmod := foldl_charge_usedTotalBytes_modEq ds r
  have h₁ := Int64.le_toInt r.usedTotalBytes
  have h₂ := Int64.le_toInt (ds.foldl charge r).usedTotalBytes
  have h₃ := Int64.toInt_lt (ds.foldl charge r).usedTotalBytes
  unfold Int.ModEq at hmod
  omega

theorem charged_nonneg {dir : Direction} {id : ID} {ds : List TrafficDelta}
    (h : ∀ d ∈ ds, d.userID = id → 0 ≤ (dir.ofDelta d).toInt) : 0 ≤ charged dir id ds := by
  refine List.sum_nonneg fun x hx => ?_
  obtain ⟨d, hd, rfl⟩ := List.mem_map.1 hx
  obtain ⟨hmem, hid⟩ := List.mem_filter.1 hd
  exact h d hmem (of_decide_eq_true hid)

/-! ## Runs -/

/-- The operation's clock readings lie between `a` and `b`, in their order. -/
def RowOp.Within (a b : Time) : RowOp → Prop
  | update _ now => a ≤ now ∧ now ≤ b
  | resetTraffic now => a ≤ now ∧ now ≤ b
  | expireDueUsers now => a ≤ now ∧ now ≤ b
  | applyTrafficDeltas _ _ collectedAt => a ≤ collectedAt ∧ collectedAt ≤ b
  | rotateSubToken _ => a ≤ b
  | suspend => a ≤ b

namespace UserOp

@[inherit_doc RowOp.Within]
def Within (a b : Time) : UserOp → Prop
  | create _ _ now => a ≤ now ∧ now ≤ b
  | row _ x => x.Within a b
  | setInbounds _ _ => a ≤ b
  | resume _ now => a ≤ now ∧ now ≤ b
  | renew _ _ now now' => a ≤ now ∧ now ≤ now' ∧ now' ≤ b

/-- An update without an explicit status, or another operation. -/
def NoStatus : UserOp → Prop
  | row _ (.update inp _) => inp.status = none
  | _ => True

/-- The operation does not take an expired user's last reason away. An update leaves an expiry or a
limit that is reached. A traffic reset is for a user past its expiry, or one with a limit that no
usage is below. Deltas are not negative and do not wrap the total. -/
def LeavesReason : UserOp → Tables → Prop
  | row id (.update inp _), t => ∀ u, getUser t id = .ok u → u.status = .expired →
    (inp.clearExpiry = false ∧ inp.expiresAt.or u.expiresAt ≠ none) ∨
      ∃ l, inp.dataLimitBytes.or u.dataLimitBytes = some l ∧ l ≤ u.usedTotalBytes
  | row id (.resetTraffic now), t => ∀ u, getUser t id = .ok u → u.status = .expired →
    u.expiredAt now = true ∨ ∃ l, u.dataLimitBytes = some l ∧ l ≤ 0
  | row _ (.applyTrafficDeltas _ deltas collectedAt), t => ∀ id u, getUser t id = .ok u →
    u.status = .expired → u.expiredAt collectedAt = true ∨
      (∀ d ∈ deltas, d.userID = id → 0 ≤ d.uplink.toInt ∧ 0 ≤ d.downlink.toInt) ∧
        u.usedTotalBytes.toInt + (charged .uplink id deltas + charged .downlink id deltas) < 2 ^ 63
  | _, _ => True

theorem Within.le {x : UserOp} {a b : Time} (h : x.Within a b) : a ≤ b := by
  cases x with
  | create inp fresh now => exact Int.le_trans h.1 h.2
  | setInbounds id ids => exact h
  | resume id now => exact Int.le_trans h.1 h.2
  | renew id inp now now' => exact Int.le_trans h.1 (Int.le_trans h.2.1 h.2.2)
  | row id x =>
      cases x with
      | update inp now => exact Int.le_trans h.1 h.2
      | resetTraffic now => exact Int.le_trans h.1 h.2
      | expireDueUsers now => exact Int.le_trans h.1 h.2
      | applyTrafficDeltas n ds collectedAt => exact Int.le_trans h.1 h.2
      | rotateSubToken token => exact h
      | suspend => exact h

end UserOp

section Steps

variable {t t' : Tables} {a b : Time} {id : ID}

theorem update_cutOff {inp : UpdateInput} {now : Time} {u : User} (hs : inp.status = none)
    (hb : now ≤ b) (hguard : u.status = .expired →
      (inp.clearExpiry = false ∧ inp.expiresAt.or u.expiresAt ≠ none) ∨
        ∃ l, inp.dataLimitBytes.or u.dataLimitBytes = some l ∧ l ≤ u.usedTotalBytes)
    (hexp : (inp.patch now u).status = .expired) : CutOff b (inp.patch now u) := by
  by_cases hc : (inp.fields u).status = .expired ∧ expiresAfter (inp.fields u) now
  · rw [show inp.patch now u = { inp.fields u with status := .active } from if_pos hc] at hexp
    cases hexp
  · have hpatch : inp.patch now u = inp.fields u := if_neg hc
    rw [hpatch] at hexp ⊢
    have hstatus : (inp.fields u).status = u.status := by simp [UpdateInput.fields, hs]
    obtain ⟨hclear, hset⟩ | hquota := hguard (hstatus.symm.trans hexp)
    · obtain ⟨e, he⟩ := Option.ne_none_iff_exists'.1 hset
      have hnot : ¬ now < e := fun hlt =>
        hc ⟨hexp, Activation.expiresAfter_fields_iff.2 ⟨hclear, e, he, hlt⟩⟩
      refine Or.inl (User.expiredAt_eq_true.2 ⟨e, ?_, Int.le_trans (Int.not_lt.1 hnot) hb⟩)
      simp [UpdateInput.fields, hclear, he]
    · exact Or.inr (overQuota_eq_true_iff.2 hquota)

/-- `Renew` reactivates, or there is a reason not to. -/
theorem renewed_cutOff {inp : RenewInput} {now now' : Time} {u : User} (hb : now' ≤ b)
    (hexp : (renewed inp now now' u).status = .expired) : CutOff b (renewed inp now now' u) := by
  unfold renewed reactivate at hexp ⊢
  split_ifs at hexp ⊢ with hc
  · rw [hexp] at hc
    by_contra hno
    obtain ⟨hno₁, hno₂⟩ := not_or.1 hno
    refine hc ⟨(fun h => by cases h), Bool.eq_false_iff.2 hno₂, Bool.eq_false_iff.2 fun h => ?_⟩
    exact hno₁ (User.expiredAt_mono h hb)

theorem chargeAll_cutOff {ds : List TrafficDelta} {u : User}
    (hcut : u.status = .expired → CutOff b u)
    (hguard : u.status = .expired → u.expiredAt b = true ∨
      (∀ d ∈ ds, d.userID = u.id → 0 ≤ d.uplink.toInt ∧ 0 ≤ d.downlink.toInt) ∧
        u.usedTotalBytes.toInt + (charged .uplink u.id ds + charged .downlink u.id ds) < 2 ^ 63)
    (hexp : (chargeAll ds u).status = .expired) : CutOff b (chargeAll ds u) := by
  obtain ⟨hstatus, hexpires, hlimit⟩ := foldl_charge_standing ds u
  unfold chargeAll suspendCrossed at hexp ⊢
  split_ifs at hexp ⊢ with hc
  · rw [hstatus] at hexp
    have hdate : u.expiredAt b = true → CutOff b (ds.foldl charge u) := by
      intro h
      obtain ⟨e, he, hle⟩ := User.expiredAt_eq_true.1 h
      exact Or.inl (User.expiredAt_eq_true.2 ⟨e, hexpires.trans he, hle⟩)
    obtain h | ⟨hnn, hfit⟩ := hguard hexp
    · exact hdate h
    · obtain h | hquota := hcut hexp
      · exact hdate h
      · obtain ⟨l, hl, hle⟩ := overQuota_eq_true_iff.1 hquota
        have hup : 0 ≤ charged .uplink u.id ds := charged_nonneg fun d hd hid => (hnn d hd hid).1
        have hdown : 0 ≤ charged .downlink u.id ds :=
          charged_nonneg fun d hd hid => (hnn d hd hid).2
        refine Or.inr (overQuota_eq_true_iff.2 ⟨l, hlimit.trans hl, ?_⟩)
        rw [Int64.le_iff_toInt_le] at hle ⊢
        rw [foldl_charge_usedTotalBytes (by omega) hfit]
        omega

/-- An operation keeps the reasons. -/
theorem UserOp.Effect.justified {x : UserOp} (hJ : Justified a t) (hw : x.Within a b)
    (hs : x.NoStatus) (hr : x.LeavesReason t) (h : x.Effect t t') : Justified b t' := by
  have hab := hw.le
  -- a row that is written as active needs no reason; the others keep theirs, or `hr` leaves one
  cases x with
  | create inp fresh now =>
      obtain ⟨-, -, -, limits, -, hwrite⟩ := h
      obtain ⟨-, -, husers⟩ := createWithAssignmentsTx_eq_ok hwrite
      exact (hJ.mono hab).append (fun h => by cases h) husers
  | setInbounds id ids => exact (hJ.mono hab).of_users (setAssignmentsForUserTx_static h.2.2).1
  | resume id now =>
      obtain ⟨v, -, -, -, hwrite⟩ := h
      exact hJ.onRow hab (fun _ => by rfl) (setUserStatus_users hwrite) fun u _ h => by cases h
  | renew id inp now now' =>
      obtain ⟨v, v₁, hv, -, husers, hrow⟩ := Activation.renew_users h
      have hids : ∀ r, (persist (renewed inp now now' v₁) (usageReset inp r)).id = r.id :=
        fun r => (keepsKeys_usageReset inp).id r
      refine hJ.onRow hab hids husers fun u hu => ?_
      rw [hv] at hu
      cases hu
      rw [hrow]
      exact renewed_cutOff hw.2.2
  | row id x =>
      cases x with
      | update inp now =>
          obtain ⟨v, hv, hwrite⟩ := h
          have husers := updateUser_users hwrite
          rw [patch_id, getUser_id hv] at husers
          refine hJ.onRow hab (fun _ => by rfl) husers fun u hu => ?_
          rw [hv] at hu
          cases hu
          rw [Activation.persist_patch]
          exact update_cutOff hs hw.2 (hr _ hv)
      | rotateSubToken token =>
          obtain ⟨v, hv, hwrite⟩ := h
          have husers := updateUser_users hwrite
          have hid : v.id = id := getUser_id hv
          rw [hid] at husers
          refine hJ.onRow hab (fun _ => by rfl) husers fun u hu hexp => ?_
          rw [hv] at hu
          cases hu
          exact (hJ id _ hv hexp).mono hab
      | resetTraffic now =>
          obtain ⟨v, t₁, hv, hreset, hact⟩ := h
          -- the counters are gone before the status is looked at
          have hJ₁ : Justified b t₁ := by
            refine hJ.onRow hab (fun _ => by rfl) (resetTraffic_users hreset) fun u hu hexp => ?_
            obtain hdate | hquota := hr u hu hexp
            · exact Or.inl (User.expiredAt_mono hdate hw.2)
            · exact Or.inr (overQuota_eq_true_iff.2 hquota)
          unfold reactivateSuspendedTx at hact
          split_ifs at hact with hc
          · exact hJ₁.onRow (Int.le_refl b) (fun _ => by rfl) (setUserStatus_users hact)
              fun u _ h => by cases h
          · cases hact
            exact hJ₁
      | suspend =>
          exact hJ.onRow hab (fun _ => by rfl) (setUserStatus_users h) fun u _ h => by cases h
      | expireDueUsers now =>
          cases h
          refine justified_of_map (fun r => expireDue_id now r) (expireDueUsers_users now)
            fun id u hu => ?_
          unfold expireDue
          split_ifs with hdue
          · -- the sweep marks rows that are past their date
            have hdate := (Bool.and_eq_true_iff.1 hdue).2
            exact fun _ => Or.inl (User.expiredAt_mono (u := u) hdate hw.2)
          · exact (hJ.mono hab) id u hu
      | applyTrafficDeltas n ds collectedAt =>
          obtain ⟨ids, happly⟩ := h
          refine justified_of_map (fun r => chargeAll_id ds r) (applyTrafficDeltas_users happly)
            fun id u hu => ?_
          refine chargeAll_cutOff ((hJ.mono hab) id u hu) fun hexp => ?_
          rw [getUser_id hu]
          exact (hr id u hu hexp).imp_left fun h => User.expiredAt_mono h hw.2

end Steps

/-- One operation, run alone in the time from the first clock to the second, whatever it returns. -/
def Alone (s : World × Time) (x : UserOp) (s' : World × Time) : Prop :=
  x.Within s.2 s'.2 ∧ x.NoStatus ∧ s'.1 = (x.service.run exec s.1).2

/-- In a run whose operations leave expired users a reason, everyone expired has one. -/
theorem expired_justified {s s' : World × Time} {xs : List UserOp}
    (h : Path (fun s x s' => Alone s x s' ∧ x.LeavesReason s.1.tables) s xs s')
    (hs : Justified s.2 s.1.tables) : Justified s'.2 s'.1.tables := by
  refine Path.invariant (I := fun s => Justified s.2 s.1.tables) ?_ h hs
  rintro ⟨w, a⟩ x ⟨w', b⟩ hJ ⟨⟨hw, hno, hrun⟩, hr⟩
  have hrun : w' = (x.service.run exec w).2 := hrun
  subst hrun
  obtain hsame | heffect := UserOp.effect_of_run x w
  · change Justified b (x.service.run exec w).2.tables
    rw [hsame]
    exact Justified.mono hw.le hJ
  · exact UserOp.Effect.justified hJ hw hno hr heffect

/-! ## A sweep and an update -/

/-- An active user whose expiry is at time 0, without a limit. -/
def lastDay : World :=
  .still ⟨.sole { User.plain "u" "u@x" with expiresAt := some 0 }, Tables.sole_valid _ rfl⟩

theorem lastDay_justified : Justified 0 lastDay.tables := by
  intro id u hu hexp
  obtain rfl := List.mem_singleton.1 (getUser_mem hu)
  cases hexp

def sweep : UserOp := .row "u" (.expireDueUsers 1)

/-- An update that only clears the expiry. -/
def clearing : UserOp := .row "u" (.update ⟨none, none, none, true, none, none⟩ 2)

/-- A new note. -/
def noting : UserOp := .row "u" (.update ⟨none, none, none, false, some "vip", none⟩ 2)

/-- The user after the sweep. -/
def swept : World := (sweep.service.run exec lastDay).2

theorem alone_sweep : Alone (lastDay, 0) sweep (swept, 1) :=
  ⟨(by decide : (0 : Time) ≤ 1 ∧ (1 : Time) ≤ 1), trivial, rfl⟩

theorem expired_justified_noting :
    Justified 2 ((noting.service.run exec swept).2).tables := by
  have hlast : Alone (swept, 1) noting ((noting.service.run exec swept).2, 2) :=
    ⟨(by decide : (1 : Time) ≤ 2 ∧ (2 : Time) ≤ 2), rfl, rfl⟩
  have hkeeps : noting.LeavesReason swept.tables := by
    intro u hu _
    obtain rfl := List.mem_singleton.1 (getUser_mem hu)
    exact Or.inl ⟨rfl, fun h => by cases h⟩
  exact expired_justified (Path.cons ⟨alone_sweep, trivial⟩ (Path.single ⟨hlast, hkeeps⟩))
    lastDay_justified

/-- The user stays expired when the expiry is cleared, without an expiry and without a limit. -/
theorem expired_after_clearing :
    Justified 0 lastDay.tables ∧
      Path Alone (lastDay, 0) [sweep, clearing] ((clearing.service.run exec swept).2, 2) ∧
      ¬ Justified 2 (clearing.service.run exec swept).2.tables := by
  have hlast : Alone (swept, 1) clearing ((clearing.service.run exec swept).2, 2) :=
    ⟨(by decide : (1 : Time) ≤ 2 ∧ (2 : Time) ≤ 2), rfl, rfl⟩
  refine ⟨lastDay_justified, Path.cons alone_sweep (Path.single hlast), fun h => ?_⟩
  obtain hdate | hquota := h "u" _ rfl rfl
  · cases hdate
  · cases hquota

end XrayApi.Service
