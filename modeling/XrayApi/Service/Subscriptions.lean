import XrayApi.Service.Sequential
import XrayApi.Store.Assignments

/-!
# Subscriptions

`SubscriptionByToken` of `internal/service/users.go`: what the public endpoint renders is the user
of the token and the inbounds of a join that was written apart from the one the reconciler uses.
Both start from the assignments of the user; only the reconciler's leaves out those that are being
removed. So the two agree for an active user exactly when no assignment of the user is
(`subscription_eq_provisioned_iff`).
-/

set_option autoImplicit false

namespace XrayApi.Service

open Transition Store Relational

/-- What the endpoint renders. -/
structure Subscription where
  user : User
  inbounds : List Inbound
  deriving DecidableEq, Repr

def subscriptionByToken (token : String) : Service Subscription := do
  let u : User ← query (.getUserBySubToken token)
  let inbounds : List Inbound ← query (.listInboundsForUser u.id)
  pure ⟨u, inbounds⟩

/-- The user has an entry for the inbound in `DesiredForNode` of the inbound's node. -/
def HasEntry (t : Tables) (u : User) (i : Inbound) : Prop :=
  i ∈ t.inbounds ∧ ∃ d ∈ desiredForNode t i.nodeID, d.userID = u.id ∧ d.inboundID = i.id

section Join

variable {t : Tables} {u : User} {i : Inbound}

theorem mem_listInboundsForUser {userID : ID} :
    i ∈ listInboundsForUser t userID ↔
      i ∈ t.inbounds ∧ ∃ ui ∈ t.userInbounds, ui.inboundID = i.id ∧ ui.userID = userID := by
  unfold listInboundsForUser
  simp only [List.mem_flatMap, List.mem_map, List.mem_filter, decide_eq_true_eq]
  constructor
  · rintro ⟨j, hj, ui, ⟨hui, hid, huser⟩, rfl⟩
    exact ⟨hj, ui, hui, hid, huser⟩
  · rintro ⟨hi, ui, hui, hid, huser⟩
    exact ⟨i, hi, ui, ⟨hui, hid, huser⟩, rfl⟩

/-- A user has at most one assignment to an inbound. -/
theorem assignments_le_one (ht : t.Valid) (userID inboundID : ID) :
    (t.userInbounds.filter fun ui =>
      decide (ui.inboundID = inboundID ∧ ui.userID = userID)).length ≤ 1 := by
  have hnodup := nodup_map_filter ht.userInbounds_key
    fun ui => decide (ui.inboundID = inboundID ∧ ui.userID = userID)
  have hkey : ∀ k ∈ (t.userInbounds.filter fun ui =>
      decide (ui.inboundID = inboundID ∧ ui.userID = userID)).map
        (fun r => (r.userID, r.inboundID)),
      k = (userID, inboundID) := by
    intro k hk
    obtain ⟨ui, hui, rfl⟩ := List.mem_map.1 hk
    obtain ⟨hid, huser⟩ := of_decide_eq_true (List.mem_filter.1 hui).2
    rw [hid, huser]
  have hlen := (List.nodup_iff_count_le_one.1 hnodup) (userID, inboundID)
  rw [List.eq_replicate_of_mem hkey, List.count_replicate_self, List.length_map] at hlen
  exact hlen

/-- No inbound is listed twice. -/
theorem nodup_listInboundsForUser (ht : t.Valid) (userID : ID) :
    (listInboundsForUser t userID).Nodup := by
  unfold listInboundsForUser
  refine List.nodup_flatMap.2 ⟨fun i _ => ?_, ?_⟩
  · rw [List.map_const']
    have hlen := assignments_le_one ht userID i.id
    exact List.nodup_replicate.2 hlen
  · refine (List.Nodup.of_map _ ht.inbounds_id).imp fun {i j} hij => ?_
    refine List.disjoint_left.2 fun x hx hx' => hij ?_
    obtain ⟨-, -, rfl⟩ := List.mem_map.1 hx
    obtain ⟨-, -, h⟩ := List.mem_map.1 hx'
    exact h.symm

/-- The entry of an active user in `DesiredForNode` is an assignment that is not being removed. -/
theorem hasEntry_iff (ht : t.Valid) (hu : u ∈ t.users) (hactive : u.status = .active) :
    HasEntry t u i ↔ i ∈ t.inbounds ∧
      ∃ ui ∈ t.userInbounds, ui.inboundID = i.id ∧ ui.userID = u.id ∧
        ui.syncStatus ≠ .removing := by
  refine and_congr_right fun hi => ?_
  have hli : lookup Inbound.id i.id t.inbounds = some i :=
    (lookup_eq_some_iff ht.inbounds_id).2 ⟨hi, rfl⟩
  have hlu : lookup User.id u.id t.users = some u :=
    (lookup_eq_some_iff ht.users_id).2 ⟨hu, rfl⟩
  constructor
  · rintro ⟨d, hd, huser, hid⟩
    obtain ⟨ui, hui, hc, -⟩ := (ht.mem_queryDesired_ids hli hlu).1 ⟨hd, huser, hid⟩
    obtain ⟨hui, huser, hid⟩ := ht.assignment_eq_some.1 hui
    exact ⟨ui, hui, hid, huser, (of_decide_eq_true hc).2.2⟩
  · rintro ⟨ui, hui, hid, huser, hsync⟩
    have hd : desiredRow ui i u ∈ desiredForNode t i.nodeID :=
      mem_queryDesired.2 ⟨ui, hui, i, u, by rw [hid]; exact hli, by rw [huser]; exact hlu,
        decide_eq_true ⟨rfl, hactive, hsync⟩, rfl⟩
    exact ⟨_, hd, huser, hid⟩

/-- The two joins agree for an active user without an assignment that is being removed, and for no
other. -/
theorem listed_eq_provisioned_iff (ht : t.Valid) (hu : u ∈ t.users) (hactive : u.status = .active) :
    (∀ i, i ∈ listInboundsForUser t u.id ↔ HasEntry t u i) ↔
      ∀ ui ∈ t.userInbounds, ui.userID = u.id → ui.syncStatus ≠ .removing := by
  constructor
  · intro h ui hui huser hsync
    obtain ⟨i, hi, hid⟩ := List.mem_map.1 (ht.userInbounds_inbound ui hui)
    have hlisted : i ∈ listInboundsForUser t u.id :=
      mem_listInboundsForUser.2 ⟨hi, ui, hui, hid.symm, huser⟩
    obtain ⟨-, ui', hui', hid', huser', hsync'⟩ := (hasEntry_iff ht hu hactive).1 ((h i).1 hlisted)
    have hsame : ui' = ui := List.inj_on_of_nodup_map ht.userInbounds_key hui' hui
      (Prod.ext (huser'.trans huser.symm) (hid'.trans hid))
    exact hsync' (hsame ▸ hsync)
  · intro h i
    rw [mem_listInboundsForUser, hasEntry_iff ht hu hactive]
    refine and_congr_right fun _ => ⟨?_, ?_⟩
    · rintro ⟨ui, hui, hid, huser⟩
      exact ⟨ui, hui, hid, huser, h ui hui huser⟩
    · rintro ⟨ui, hui, hid, huser, -⟩
      exact ⟨ui, hui, hid, huser⟩

end Join

/-- The subscription of a user, for rows in any order: it succeeds, with the user and the rows of
the join. -/
theorem subscriptionByToken_runs {w w' : World} {tr : List (Event Stmt Stmt.Res)} {u : User}
    {r : Except Err Subscription} (hu : u ∈ w.tables.users)
    (h : Runs Answers Eq (subscriptionByToken u.subToken).prog w tr r w') :
    ∃ inbounds, r = .ok ⟨u, inbounds⟩ ∧ inbounds.Perm (listInboundsForUser w.tables u.id) := by
  have hlookup : getUserBySubToken w.tables u.subToken = .ok u := by
    unfold getUserBySubToken
    rw [(lookup_eq_some_iff w.db.valid.users_subToken).2 ⟨hu, rfl⟩]
    rfl
  have hread : (StoreCall.getUserBySubToken u.subToken).apply w.tables = .ok (u, w.tables) :=
    StoreCall.read_eq_ok.2 ⟨hlookup, rfl⟩
  obtain ⟨w₁, res, w₂, tr₁, rfl, hsem, -, hrest⟩ := Runs.call_inv h
  obtain ⟨a, rfl, hrows, ht⟩ := answers_db_of_ok hread hsem
  have hrows : a = u := hrows
  rw [hrows] at hrest
  obtain ⟨w₃, res, w₄, tr₂, rfl, hsem', -, hend⟩ := Runs.call_inv hrest
  obtain ⟨inbounds, rfl, hperm, -⟩ := answers_db_of_ok rfl hsem'
  obtain ⟨rfl, -, -⟩ := Runs.ret_inv hend
  rw [ht] at hperm
  exact ⟨inbounds, rfl, hperm⟩

/-- The subscription of an active user lists every inbound once and lists exactly what is
provisioned, if and only if no assignment of the user is being removed. -/
theorem subscription_eq_provisioned_iff {w w' : World} {tr : List (Event Stmt Stmt.Res)} {u : User}
    {r : Except Err Subscription} (hu : u ∈ w.tables.users) (hactive : u.status = .active)
    (h : Runs Answers Eq (subscriptionByToken u.subToken).prog w tr r w') :
    ∃ sub, r = .ok sub ∧ sub.user = u ∧
      ((sub.inbounds.Nodup ∧ ∀ i, i ∈ sub.inbounds ↔ HasEntry w.tables u i) ↔
        ∀ ui ∈ w.tables.userInbounds, ui.userID = u.id → ui.syncStatus ≠ .removing) := by
  obtain ⟨inbounds, rfl, hperm⟩ := subscriptionByToken_runs hu h
  refine ⟨_, rfl, rfl, ?_⟩
  have hnodup : inbounds.Nodup := hperm.nodup_iff.2 (nodup_listInboundsForUser w.db.valid u.id)
  rw [← listed_eq_provisioned_iff w.db.valid hu hactive]
  simp only [hnodup, true_and, hperm.mem_iff]

/-! ## An inbound that is being removed -/

/-- An active user with one assignment. -/
def subscribed (status : SyncStatus) : World :=
  .still ⟨.assigned (.plain "i" "n" "in" .vless) (User.plain "u" "u@x") status,
    Tables.assigned_plain_valid _⟩

theorem subscription_eq_provisioned_iff_applied :
    ∃ sub,
      ((subscriptionByToken (User.plain "u" "u@x").subToken).run exec (subscribed .applied)).1 =
        .ok sub ∧ sub.user = User.plain "u" "u@x" ∧
      sub.inbounds.Nodup ∧
      ∀ i, i ∈ sub.inbounds ↔ HasEntry (subscribed .applied).tables (User.plain "u" "u@x") i := by
  obtain ⟨tr, hrun⟩ : ∃ tr, Runs Answers Eq
      (subscriptionByToken (User.plain "u" "u@x").subToken).prog (subscribed .applied) tr _ _ :=
    Runs.of_run answers_exec (fun _ => rfl) _ _
  obtain ⟨sub, hsub, huser, hiff⟩ :=
    subscription_eq_provisioned_iff (u := User.plain "u" "u@x") List.mem_cons_self rfl hrun
  refine ⟨sub, hsub, huser, hiff.2 fun ui hui _ => ?_⟩
  rw [List.mem_singleton.1 hui]
  decide

/-- The inbound is still advertised when the reconciler has been told to remove it. -/
theorem removing_inbound_advertised :
    (subscribed .removing).tables.users = [User.plain "u" "u@x"] ∧
      (User.plain "u" "u@x").status = .active ∧
      ((subscriptionByToken (User.plain "u" "u@x").subToken).run exec (subscribed .removing)).1 =
        .ok ⟨User.plain "u" "u@x", [.plain "i" "n" "in" .vless]⟩ ∧
      ¬ HasEntry (subscribed .removing).tables (User.plain "u" "u@x")
        (.plain "i" "n" "in" .vless) := by
  refine ⟨rfl, rfl, rfl, ?_⟩
  rintro ⟨-, d, hd, -⟩
  exact (List.not_mem_nil hd).elim

end XrayApi.Service
