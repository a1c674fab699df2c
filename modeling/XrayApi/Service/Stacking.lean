import XrayApi.Service.Renewals
import XrayApi.Transition.Rely
import XrayApi.Transition.Timed

/-!
# Renewals one after the other

Renewals of one user that do not overlap, in `Renewed`: each succeeds, and whatever else runs,
before them, between their statements and after them, leaves the expiry of the user alone. One
renewal is one `extend` of the expiry (`expiry_renew`), so the expiry after all of them is the
latest of the `endings` (`renewals_stack`).
-/

set_option autoImplicit false

namespace XrayApi.Service

open Transition Store Relational

/-- The others may do anything but change the expiry of the user. -/
def Others (id : ID) (w w' : World) : Prop := expiry id w' = expiry id w

theorem others_refl (id : ID) (w : World) : Others id w w := rfl

namespace Renewal

/-- The times and the durations of the extensions that were bought. -/
def purchases (xs : List Renewal) : List (Time × Time) :=
  (xs.filter fun x => decide (0 < x.inp.days)).map fun x => (x.now, x.inp.days * day)

/-- Successful renewals, one after the other. -/
inductive Renewed (id : ID) : World → List Renewal → World → Prop
  | nil {w w' : World} : Others id w w' → Renewed id w [] w'
  | cons {w w₁ w' : World} {x : Renewal} {xs : List Renewal} {u : User}
      {tr : List (Event Stmt Stmt.Res)} :
      Runs MayFail (Others id) (x.prog id) w tr (.ok u) w₁ → Renewed id w₁ xs w' →
      Renewed id w (x :: xs) w'

section Run

variable {id : ID} {w w' : World} {tr : List (Event Stmt Stmt.Res)} {u v : User} {inp : RenewInput}
  {now now' : Time}

/-- Statements that keep the expiry, among others that do. -/
theorem expiry_of_forall {α : Type} {p : Service α} {r : Except Err α}
    (h : Runs MayFail (Others id) p.prog w tr r w') (hp : Prog.Forall (KeepsExpiry id) p) :
    expiry id w' = expiry id w := by
  obtain ⟨-, hsame⟩ := Runs.forall_keeps (I := fun v => expiry id v = expiry id w)
    (fun _ _ hr hI => Eq.trans hr hI) (fun _ _ _ _ hq hsem hI => (hq _ _ _ hsem).trans hI) h hp rfl
  exact hsame

theorem runs_query_ok {q : StoreCall} {a : q.Out}
    (h : Runs MayFail (Others id) (query q).prog w tr (.ok a) w') :
    ∃ w₁ w₂, Others id w w₁ ∧ MayFail (.db q) w₁ (.ok a) w₂ ∧ Others id w₂ w' := by
  obtain ⟨w₁, r, w₂, tr', hr, hsem, -, hend⟩ := Runs.call_inv h
  obtain ⟨hok, -, hr'⟩ := Runs.ret_inv hend
  cases r with
  | ok a' =>
      cases hok
      exact ⟨w₁, w₂, hr, hsem, hr'⟩
  | error e => cases hok

theorem runs_getUser (h : Runs MayFail (Others id) (query (.getUser id)).prog w tr (.ok v) w') :
    v.id = id ∧ v.expiresAt = expiry id w ∧ expiry id w' = expiry id w := by
  have hkeeps := expiry_of_forall h
    ⟨keepsExpiry_of_readsOnly (readsOnly_getUser id) id, fun _ => trivial⟩
  obtain ⟨w₁, w₂, hr, hsem, -⟩ := runs_query_ok h
  have hrow := mayFail_getUser hsem
  exact ⟨key_of_lookup (getUser_eq_ok.1 hrow), (expiry_of_getUser hrow).symm.trans hr, hkeeps⟩

theorem runs_switchPlan (h : Runs MayFail (Others id) (switchPlan inp u).prog w tr (.ok v) w') :
    v.id = u.id ∧ v.expiresAt = u.expiresAt ∧ expiry id w' = expiry id w := by
  unfold switchPlan at h
  cases hplan : inp.planID with
  | none =>
      rw [hplan] at h
      obtain ⟨hv, -, hr⟩ := Runs.ret_inv h
      cases hv
      exact ⟨rfl, rfl, hr⟩
  | some planID =>
      rw [hplan] at h
      obtain ⟨plan, w₁, tr₁, tr₂, h₁, h₂⟩ := Req.runs_bind_ok (others_refl id) h
      have hkeeps := expiry_of_forall h₁
        ⟨keepsExpiry_of_readsOnly (readsOnly_getPlan planID) id, fun _ => trivial⟩
      obtain ⟨hv, -, hr⟩ := Runs.ret_inv h₂
      cases hv
      exact ⟨rfl, rfl, Eq.trans hr hkeeps⟩

theorem runs_resetUsage (h : Runs MayFail (Others id) (resetUsage id inp u).prog w tr (.ok v) w') :
    v.id = u.id ∧ v.expiresAt = u.expiresAt ∧ expiry id w' = expiry id w := by
  unfold resetUsage at h
  split_ifs at h with hreset
  · obtain ⟨o, w₁, tr₁, tr₂, h₁, h₂⟩ := Req.runs_bind_ok (others_refl id) h
    have hkeeps := expiry_of_forall h₁ ⟨keepsExpiry_resetTraffic id id, fun _ => trivial⟩
    obtain ⟨hv, -, hr⟩ := Runs.ret_inv h₂
    cases hv
    exact ⟨rfl, rfl, Eq.trans hr hkeeps⟩
  · obtain ⟨hv, -, hr⟩ := Runs.ret_inv h
    cases hv
    exact ⟨rfl, rfl, hr⟩

/-- The row is written back; what follows keeps it. -/
theorem runs_updateUser {v : User} (hid : v.id = id)
    (h : Runs MayFail (Others id) (Req.prog do
      query (.updateUser v)
      reconcileForUser v.id
      query (.getUser id)) w tr (.ok u) w') : expiry id w' = v.expiresAt := by
  obtain ⟨o, w₁, tr₁, tr₂, h₁, h₂⟩ := Req.runs_bind_ok (others_refl id) h
  obtain ⟨w₂, w₃, -, hsem, hr⟩ := runs_query_ok h₁
  have hwritten : expiry id w₃ = v.expiresAt := hid ▸ expiry_updateUser hsem
  have hrest : Prog.Forall (KeepsExpiry id)
      (reconcileForUser v.id >>= fun _ => query (.getUser id) : Service User) :=
    Req.forall_bind
      (reconcileForUser_forall
        (keepsExpiry_of_readsOnly (readsOnly_assignmentTargetsForUser v.id) id)
        fun n => keepsExpiry_of_readsOnly (readsOnly_trigger n) id)
      fun _ => ⟨keepsExpiry_of_readsOnly (readsOnly_getUser id) id, fun _ => trivial⟩
  rw [expiry_of_forall h₂ hrest, hr, hwritten]

theorem extendExpiry_eq_extend (inp : RenewInput) (now : Time) (v : User) :
    (extendExpiry inp now v).expiresAt =
      if 0 < inp.days then extend v.expiresAt (now, inp.days * day) else v.expiresAt := by
  unfold extendExpiry
  split_ifs with hdays
  · have hbase : renewBase v now = v.expiresAt.elim now (max now) := by
      unfold renewBase
      cases v.expiresAt with
      | none => rfl
      | some t =>
          change (if now < t then t else now) = max now t
          split_ifs with hlt
          · exact (max_eq_right hlt.le).symm
          · exact (max_eq_left (not_lt.1 hlt)).symm
    change some (renewBase v now + inp.days * day) = _
    rw [hbase]
    rfl
  · rfl

/-- One renewal: the expiry is extended if days were bought, and stays otherwise. -/
theorem expiry_renew (h : Runs MayFail (Others id) (renew id inp now now').prog w tr (.ok u) w') :
    expiry id w' =
      if 0 < inp.days then extend (expiry id w) (now, inp.days * day) else expiry id w := by
  unfold renew at h
  split_ifs at h with hempty
  · cases (Runs.ret_inv h).1
  · obtain ⟨v, w₁, tr₁, tr₂, hread, h⟩ := Req.runs_bind_ok (others_refl id) h
    obtain ⟨hid, hexpires, -⟩ := runs_getUser hread
    obtain ⟨v₁, w₂, tr₃, tr₄, hplan, h⟩ := Req.runs_bind_ok (others_refl id) h
    obtain ⟨hid₁, hexpires₁, -⟩ := runs_switchPlan hplan
    obtain ⟨v₂, w₃, tr₅, tr₆, hreset, h⟩ := Req.runs_bind_ok (others_refl id) h
    obtain ⟨hid₂, hexpires₂, -⟩ := runs_resetUsage hreset
    have hwrites : (reactivate now' v₂).id = id := by
      rw [reactivate_id, hid₂, extendExpiry_id, hid₁, hid]
    -- what is written is the expiry that was read first, extended: nobody has changed it since
    rw [runs_updateUser hwrites h, reactivate_expiresAt, hexpires₂, extendExpiry_eq_extend,
      hexpires₁, hexpires]

end Run

/-- All of them: the expiry is extended by the purchases, in their order. -/
theorem Renewed.expiry_eq {id : ID} {w w' : World} {xs : List Renewal} (h : Renewed id w xs w') :
    expiry id w' = (purchases xs).foldl extend (expiry id w) := by
  induction h with
  | nil hr => exact hr
  | @cons w w₁ w' x xs u tr hrun _ ih =>
      rw [ih, expiry_renew hrun, purchases, purchases, List.filter_cons]
      simp only [decide_eq_true_eq]
      split_ifs with hdays
      · rfl
      · rfl

theorem nonneg_of_mem_purchases {xs : List Renewal} {t d : Time} (h : (t, d) ∈ purchases xs) :
    0 ≤ d := by
  obtain ⟨x, hx, heq⟩ := List.mem_map.1 h
  cases heq
  have hdays := of_decide_eq_true (List.mem_filter.1 hx).2
  exact Int.mul_nonneg hdays.le (by decide)

end Renewal

open Renewal

/-- The expiry after renewals that do not overlap is the latest of the first expiry with all days
and of the times of the purchases with the days from there on. Days bought at one time may be bought
in one call or in several; every call adds at least its days; and a call that comes late counts from
its own time. -/
theorem renewals_stack (id : ID) :
    (∀ w xs w', Renewed id w xs w' → Stacks (expiry id w) (purchases xs) (expiry id w')) ∧
    (∀ w xs w' v ys v' before t ds after, Renewed id w xs w' → Renewed id v ys v' →
      expiry id v = expiry id w → ds ≠ [] →
      purchases xs = before ++ ds.map (fun d => (t, d)) ++ after →
      purchases ys = before ++ (t, ds.sum) :: after → expiry id v' = expiry id w') ∧
    ∀ w x w', Renewed id w [x] w' → 0 < x.inp.days →
      ∃ e, expiry id w' = some e ∧ (∀ e₀ ∈ expiry id w, e₀ + x.inp.days * day ≤ e) ∧
        ((∀ e₀ ∈ expiry id w, e₀ ≤ x.now) → e = x.now + x.inp.days * day) := by
  refine ⟨fun w xs w' h => ?_, ?_, fun w x w' h hdays => ?_⟩
  · rw [h.expiry_eq]
    exact stacks_foldl_extend _ _
  · intro w xs w' v ys v' before t ds after hx hy hsame hds hxs hys
    -- one block, bought at one time, is one extension by the sum
    have hpos : ∀ d ∈ ds, 0 ≤ d := by
      intro d hd
      have hmem : (t, d) ∈ purchases xs := by
        rw [hxs]
        exact List.mem_append_left _ (List.mem_append_right _ (List.mem_map_of_mem hd))
      exact nonneg_of_mem_purchases hmem
    rw [hx.expiry_eq, hy.expiry_eq, hsame, hxs, hys, List.foldl_append, List.foldl_append,
      List.foldl_append, List.foldl_cons, foldl_extend_block hds hpos]
  · have hpurchases : purchases [x] = [(x.now, x.inp.days * day)] := by
      simp [purchases, hdays]
    rw [h.expiry_eq, hpurchases, List.foldl_cons, List.foldl_nil]
    refine ⟨_, rfl, ?_, ?_⟩
    · intro e₀ he₀
      rw [he₀]
      exact Int.add_le_add_right (le_max_right _ _) _
    · intro hlate
      cases he₀ : expiry id w with
      | none => rfl
      | some e₀ =>
          change max x.now e₀ + _ = _
          rw [max_eq_left (hlate e₀ he₀)]

/-- Thirty days, bought a day after the expiry. -/
theorem renewals_stack_late :
    ∃ w', Renewed "u1" subscriber [⟨⟨30, false, none⟩, 2 * day, 2 * day⟩] w' ∧
      ∃ e, expiry "u1" w' = some e ∧ e = 2 * day + 30 * day := by
  obtain ⟨tr, hrun⟩ := Runs.of_run mayFail_exec (others_refl "u1")
    (prog "u1" ⟨⟨30, false, none⟩, 2 * day, 2 * day⟩) subscriber
  have h : Renewed "u1" subscriber [⟨⟨30, false, none⟩, 2 * day, 2 * day⟩] _ :=
    .cons hrun (.nil rfl)
  obtain ⟨e, he, -, hlate⟩ := (renewals_stack "u1").2.2 _ _ _ h (by decide)
  exact ⟨_, h, e, he, hlate (by decide)⟩

end XrayApi.Service
