import XrayApi.Service.Users
import XrayApi.Worker.Fleet

/-!
# Deleting a user while passes run

`UserService.Delete` tombstones the assignments, triggers the nodes and deletes the user at once;
the deletion cascades to the tombstones. Passes on the nodes run meanwhile. What is left on a node
is settled at the deletion: no later read has a row of the user, so only the rows that the pass in
flight already holds can still change the user's accounts (`Pass.Leaves`).
-/

set_option autoImplicit false

namespace XrayApi.Worker

open Transition Store Xray Relational

/-- The answer is not the error of a gRPC call. -/
def grpcOk : (s : Stmt) → s.Res → Bool
  | .dial _, .error _ => false
  | .removeUser _ _ _, .error _ => false
  | .addUser _ _ _, .error _ => false
  | .queryUserTraffic _, .error _ => false
  | .ping _, .error _ => false
  | _, _ => true

/-- The steps with a node that is reachable and carries out every call. -/
def NodeUp : Sem Stmt Stmt.Res World :=
  fun s w r w' => Answers s w r w' ∧ grpcOk s r = true

theorem nodeUp_exec (s : Stmt) (w : World) (h : grpcOk s (exec s w).1 = true) :
    NodeUp s w (exec s w).1 (exec s w).2 :=
  ⟨answers_exec s w, h⟩

/-! ## What the pass in flight leaves -/

/-- A pass that reads no further row for `k` leaves an account at `k`: it has one to push, or the
node has one that it will not remove. -/
def Pass.Leaves (p : Pass) (t : AccountTable) (k : Key) : Prop :=
  (∃ d ∈ p.pushes, key d = k) ∨ (t k ≠ none ∧ ∀ d ∈ p.removes, key d ≠ k)

namespace Pass

/-- With nothing to push and nothing to remove, the node stays as it is. -/
theorem leaves_of_nil (p : Pass) (hpush : p.pushes = []) (hrem : p.removes = []) (t : AccountTable)
    (k : Key) : p.Leaves t k ↔ t k ≠ none := by
  simp [Leaves, hpush, hrem]

theorem leaves_of_removes (p : Pass) (ds : List DesiredAssignment) (hpush : p.pushes = [])
    (hrem : p.removes = ds) (t : AccountTable) (k : Key) :
    p.Leaves t k ↔ t k ≠ none ∧ ∀ d ∈ ds, key d ≠ k := by
  simp [Leaves, hpush, hrem]

theorem leaves_of_pushes (p : Pass) (ds : List DesiredAssignment) (hpush : p.pushes = ds)
    (hrem : p.removes = []) (t : AccountTable) (k : Key) :
    p.Leaves t k ↔ (∃ d ∈ ds, key d = k) ∨ t k ≠ none := by
  simp [Leaves, hpush, hrem]

/-- Nothing is left at `k`: no push for it, and no account that stays. -/
theorem not_leaves_iff (p : Pass) (t : AccountTable) (k : Key) :
    ¬ p.Leaves t k ↔
      (∀ e ∈ p.pushes, key e ≠ k) ∧ (t k = none ∨ ∃ e ∈ p.removes, key e = k) := by
  unfold Leaves
  rw [not_or, Classical.not_and_iff_not_or_not, not_ne_iff]
  push Not
  rfl

end Pass

/-- The joins return rows of existing users only. -/
theorem exists_user_of_mem_queryDesired {t : Tables} {cond : UserInbound → Inbound → User → Bool}
    {d : DesiredAssignment} (h : d ∈ queryDesired t cond) :
    ∃ u ∈ t.users, u.id = d.userID ∧ u.email = d.email := by
  obtain ⟨ui, -, i, u, -, hu, -, rfl⟩ := mem_queryDesired.1 h
  exact ⟨u, mem_of_lookup hu, key_of_lookup hu, rfl⟩

/-- While no user has the email of `k`, a step of the pass does not change what it leaves at `k`. -/
theorem Pass.Step.leaves {n : ID} {p p' : Pass} {s : Stmt} {r : s.Res} {w w' : World}
    (h : Pass.Step n p s r p') (hw : NodeUp s w r w') {k : Key}
    (hk : ∀ u ∈ w.tables.users, u.email ≠ k.2) :
    p'.Leaves (w'.accounts n) k ↔ p.Leaves (w.accounts n) k := by
  obtain ⟨hans, hok⟩ := hw
  -- what the pass reads is about users who exist, and none of them has the email
  have hread : ∀ cond, ∀ d ∈ queryDesired w.tables cond, key d ≠ k := by
    rintro cond d hd rfl
    obtain ⟨u, hu, -, he⟩ := exists_user_of_mem_queryDesired hd
    exact hk u hu he
  cases h with
  | dialed =>
      rw [(answers_dial hans).2, leaves_of_nil dial rfl rfl, leaves_of_nil listRemovals rfl rfl]
  | dialFailed e => cases hok
  | listed ds =>
      obtain ⟨a, ha, hrows, -⟩ := answers_db_of_ok rfl hans
      cases ha
      have hds : ∀ d ∈ ds, key d ≠ k := fun d hd => hread _ d ((List.Perm.mem_iff hrows).1 hd)
      rw [(answers_db_frame hans).1, leaves_of_nil listRemovals rfl rfl,
        leaves_of_removes _ ds (pushes_toRemove ds) (removes_toRemove ds)]
      exact ⟨fun h => h.1, fun h => ⟨h, hds⟩⟩
  | listFailed e => cases (answers_db_error hans).1
  | removed d rest =>
      rw [(answers_removeUser hans).2, leaves_of_removes (remove d rest) (d :: rest) rfl rfl,
        leaves_of_removes _ rest (pushes_removed d rest) (removes_removed d rest),
        List.forall_mem_cons, World.accounts_setAccount]
      by_cases hd : k = key d
      · subst hd
        simp [key]
      · have hne : k ≠ (d.inboundTag, d.email) := hd
        rw [Function.update_of_ne hne]
        exact and_congr_right fun _ => ⟨fun h => ⟨Ne.symm hd, h⟩, fun h => h.2⟩
  | removeFailed d rest e => cases hok
  | dropped d rest r =>
      rw [(answers_db_frame hans).1, leaves_of_removes (drop d rest) rest rfl rfl,
        leaves_of_removes _ rest (pushes_toRemove rest) (removes_toRemove rest)]
  | desired ds =>
      obtain ⟨a, ha, hrows, -⟩ := answers_db_of_ok rfl hans
      cases ha
      have hds : ¬ ∃ d ∈ ds, key d = k := by
        rintro ⟨d, hd, he⟩
        exact hread _ d ((List.Perm.mem_iff hrows).1 hd) he
      rw [(answers_db_frame hans).1, leaves_of_nil listDesired rfl rfl,
        leaves_of_pushes _ ds (pushes_toAdd ds) (removes_toAdd ds)]
      exact ⟨fun h => h.resolve_left hds, Or.inr⟩
  | desiredFailed e => cases (answers_db_error hans).1
  | added d rest =>
      obtain ⟨user, rfl⟩ := answers_addUser_ok hans
      rw [leaves_of_pushes (add d rest) (d :: rest) rfl rfl,
        leaves_of_pushes _ rest (pushes_added d rest) (removes_added d rest),
        List.exists_mem_cons_iff, World.accounts_setAccount]
      by_cases hd : k = key d
      · subst hd
        simp [key, accountFor]
      · have hne : k ≠ (d.inboundTag, (accountFor d).email) := hd
        rw [Function.update_of_ne hne]
        exact or_congr_left ⟨Or.inr, fun h => h.resolve_left (Ne.symm hd)⟩
  | addFailed d rest e => cases hok
  | marked d rest r =>
      rw [(answers_db_frame hans).1, leaves_of_pushes (mark d rest) rest rfl rfl,
        leaves_of_pushes _ rest (pushes_toAdd rest) (removes_toAdd rest)]
  | gaveUp d e r =>
      rw [(answers_db_frame hans).1, leaves_of_nil (giveUp d e) rfl rfl, leaves_of_nil _ rfl rfl]

/-! ## Up to the deletion -/

/-- A statement that writes no user. -/
def KeepsUsers (s : Stmt) : Prop :=
  ∀ w r w', Answers s w r w' → w'.tables.users = w.tables.users

theorem keepsUsers_db {q : StoreCall}
    (h : ∀ t o t', q.apply t = .ok (o, t') → t'.users = t.users) : KeepsUsers (.db q) := by
  intro w r w' hw
  cases r with
  | error e => rw [(answers_db_error hw).2]
  | ok a =>
      obtain ⟨o, t, hq, -, -, ht⟩ := answers_db_ok hw
      rw [ht]
      exact h _ o t hq

theorem keepsUsers_trigger (n : ID) : KeepsUsers (.trigger n) := by
  intro w r w' hw
  cases hw
  rfl

/-- The deletion of the user, after which the request returns. -/
def LastDelete (id : ID) (s : Stmt) (k : s.Res → Job) : Prop :=
  s = .db (.deleteUser id) ∧ ∀ r, ∃ a, k r = .ret a

/-- `Delete` writes no user before its last statement. -/
theorem delete_until (id : ID) :
    Prog.Until (fun _ => True) KeepsUsers (LastDelete id) (Service.delete id).prog := by
  refine Req.until_bind (fun _ => trivial) ⟨keepsUsers_db ?_, fun _ => trivial⟩ fun targets => ?_
  · intro t o t' h
    cases h
    rfl
  refine Req.until_bind (fun _ => trivial) ⟨keepsUsers_db ?_, fun _ => trivial⟩ fun _ => ?_
  · intro t o t' h
    cases h
    rfl
  refine Req.until_bind (fun _ => trivial)
    (Service.triggerAll_forall keepsUsers_trigger _) fun _ => ?_
  exact Or.inl ⟨rfl, fun r => ⟨_, rfl⟩⟩

/-- Before the deletion the users are the initial ones. -/
structure Deleting (id : ID) (users : List User) (P : Fleet) : Prop where
  atPass : P.AtPass
  idle : ∀ k, k ≠ 0 → ∃ a, P.prog (.api k) = .ret a
  request : (P.world.tables.users = users ∧
      Prog.Until (fun _ => True) KeepsUsers (LastDelete id) (P.prog (.api 0))) ∨
        ∃ a, P.prog (.api 0) = .ret a

theorem deleting_request (id : ID) (w : World) :
    Deleting id w.tables.users (.request w (Service.delete id).prog) where
  atPass := Fleet.atPass_request _ _
  idle
    | 0, h => absurd rfl h
    | _ + 1, _ => ⟨_, rfl⟩
  request := Or.inl ⟨rfl, delete_until id⟩

theorem Deleting.step {id : ID} {users : List User} {P Q : Fleet} {a : FleetAct}
    (hP : Deleting id users P) (h : Pool.Step NodeUp Fleet.passes P a Q) : Deleting id users Q := by
  have hAt : Q.AtPass := Fleet.atPass_step (fun _ _ h => h) hP.atPass h
  cases a with
  | start i q =>
      obtain ⟨-, hq, hw, -, hother⟩ := h.start_inv
      cases i with
      | api k => exact hq.elim
      | actor m =>
          have hapi : ∀ k, Q.prog (.api k) = P.prog (.api k) := fun k => hother _ (by simp)
          refine ⟨hAt, fun k hk => ?_, ?_⟩
          · rw [hapi]
            exact hP.idle k hk
          · rw [hapi, hw]
            exact hP.request
  | call i s r =>
      obtain ⟨k, hk, hsem, hself, hother⟩ := h.call_inv
      cases i with
      | actor m =>
          have hapi : ∀ k, Q.prog (.api k) = P.prog (.api k) := fun k => hother _ (by simp)
          obtain ⟨p, hp⟩ := hP.atPass m
          obtain ⟨p', hstep, -, -, -⟩ := Fleet.actor_call h hp
          refine ⟨hAt, fun k hk => ?_, ?_⟩
          · rw [hapi]
            exact hP.idle k hk
          · rw [hapi, (hstep.static hsem.1).1]
            exact hP.request
      | api j =>
          -- only the deleting request has a statement left
          have hj : j = 0 := by
            by_contra hj
            obtain ⟨b, hb⟩ := hP.idle j hj
            rw [hb] at hk
            cases hk
          subst hj
          refine ⟨hAt, fun j hj => ?_, ?_⟩
          · rw [hother _ (by simpa using hj)]
            exact hP.idle j hj
          · obtain ⟨husers, huntil⟩ | ⟨b, hb⟩ := hP.request
            · rw [hk] at huntil
              rw [hself]
              obtain ⟨-, hret⟩ | ⟨hquiet, hrest⟩ := huntil
              · exact Or.inr (hret r)
              · exact Or.inl ⟨(hquiet _ _ _ hsem.1).trans husers, hrest r⟩
            · rw [hb] at hk
              cases hk

/-! ## From the deletion on -/

/-- After the deletion: no user has the email of `k`, no request runs, and what the actor of `n`
leaves at `k` has been settled to be `C`. -/
structure Settled (n : ID) (k : Key) (C : Prop) (P : Fleet) : Prop where
  atPass : P.AtPass
  idle : ∀ j, ∃ a, P.prog (.api j) = .ret a
  gone : ∀ u ∈ P.world.tables.users, u.email ≠ k.2
  outcome : ∃ p : Pass, P.prog (.actor n) = p.prog n ∧ (p.Leaves (P.world.accounts n) k ↔ C)

theorem Settled.step {n : ID} {k : Key} {C : Prop} {P Q : Fleet} {a : FleetAct}
    (hP : Settled n k C P) (h : Pool.Step NodeUp Fleet.passes P a Q) : Settled n k C Q := by
  have hAt : Q.AtPass := Fleet.atPass_step (fun _ _ h => h) hP.atPass h
  obtain ⟨p, hp, hC⟩ := hP.outcome
  cases a with
  | start i q =>
      obtain ⟨⟨b, hb⟩, hq, hw, hself, hother⟩ := h.start_inv
      cases i with
      | api j => exact hq.elim
      | actor m =>
          refine ⟨hAt, fun j => ?_, ?_, ?_⟩
          · rw [hother _ (by simp)]
            exact hP.idle j
          · rw [hw]
            exact hP.gone
          · by_cases hm : m = n
            · subst hm
              -- a new pass finds the table that the last one left
              rw [hp] at hb
              cases Pass.prog_eq_ret hb
              refine ⟨.dial, hself.trans hq, ?_⟩
              rw [hw, ← hC, Pass.leaves_of_nil .dial rfl rfl, Pass.leaves_of_nil (.done b) rfl rfl]
            · refine ⟨p, (hother _ ?_).trans hp, ?_⟩
              · simpa using Ne.symm hm
              · rw [hw]
                exact hC
  | call i s r =>
      cases i with
      | api j =>
          obtain ⟨b, hb⟩ := hP.idle j
          exact (Pool.Step.not_call_of_ret hb h).elim
      | actor m =>
          obtain ⟨q, hq⟩ := hP.atPass m
          obtain ⟨q', hstep, hsem, hself, hother⟩ := Fleet.actor_call h hq
          refine ⟨hAt, fun j => ?_, ?_, ?_⟩
          · rw [hother _ (by simp)]
            exact hP.idle j
          · rw [(hstep.static hsem.1).1]
            exact hP.gone
          · by_cases hm : m = n
            · subst hm
              obtain ⟨p', hstep', -, hself', -⟩ := Fleet.actor_call h hp
              exact ⟨p', hself', (hstep'.leaves hsem hP.gone).trans hC⟩
            · refine ⟨p, (hother _ ?_).trans hp, ?_⟩
              · simpa using Ne.symm hm
              · rw [hstep.accounts_of_ne hsem.1 (Ne.symm hm)]
                exact hC

theorem answers_deleteUser {w w' : World} {id : ID} {o : Unit}
    (h : Answers (.db (.deleteUser id)) w (.ok o) w') :
    id ∈ w.tables.users.map User.id ∧
      w'.tables.users = w.tables.users.filter fun r => decide (r.id ≠ id) := by
  obtain ⟨o, t, hq, -, -, ht⟩ := answers_db_ok h
  obtain ⟨hmem, hok⟩ := requireUser_eq_ok.1 (StoreCall.wrote_eq_ok.1 hq)
  cases hok
  exact ⟨hmem, by rw [ht]⟩

/-- The deletion is not one of the statements that write no user. -/
theorem not_keepsUsers_deleteUser {w w' : World} {id : ID} {o : Unit}
    (h : Answers (.db (.deleteUser id)) w (.ok o) w') : ¬ KeepsUsers (.db (.deleteUser id)) := by
  intro hkeep
  obtain ⟨hmem, husers⟩ := answers_deleteUser h
  obtain ⟨u, hu, hui⟩ := List.mem_map.1 hmem
  rw [← hkeep _ _ _ h, husers] at hu
  exact of_decide_eq_true (List.mem_filter.1 hu).2 hui

/-- Without the user, no one has the email of the user's targets. -/
theorem email_unused {t : Tables} (ht : t.Valid) {id : ID} {d : DesiredAssignment}
    (hd : d ∈ assignmentTargetsForUser t id) :
    ∀ u ∈ t.users.filter fun r => decide (r.id ≠ id), u.email ≠ d.email := by
  obtain ⟨ui, -, i, v, -, hv, hcond, rfl⟩ := mem_queryDesired.1 hd
  have hvid : v.id = id := (key_of_lookup hv).trans (of_decide_eq_true hcond)
  intro u hu hmail
  obtain ⟨hu, hne⟩ := List.mem_filter.1 hu
  have huv : u = v := List.inj_on_of_nodup_map ht.users_email hu (mem_of_lookup hv) hmail
  exact of_decide_eq_true hne (huv ▸ hvid)

/-- Right after the deletion, what the pass in flight leaves is settled. -/
theorem settled_of_delete {w : World} {id n : ID} {ls : List FleetAct} {P Q : Fleet}
    (h : Path (Pool.Step NodeUp Fleet.passes) (Fleet.request w (Service.delete id).prog) ls P)
    (hdel : Pool.Step NodeUp Fleet.passes P (.call (.api 0) (.db (.deleteUser id)) (.ok ())) Q)
    {p : Pass} (hp : P.prog (.actor n) = p.prog n) {d : DesiredAssignment}
    (hd : d ∈ assignmentTargetsForUser w.tables id) :
    Settled n (key d) (p.Leaves (P.world.accounts n) (key d)) Q := by
  have hP : Deleting id w.tables.users P :=
    h.invariant (fun _ _ _ hs hstep => hs.step hstep) (deleting_request id w)
  have hQ : Deleting id w.tables.users Q := hP.step hdel
  obtain ⟨k, hk, hsem, hself, hother⟩ := hdel.call_inv
  have hreq := hP.request
  rw [hk] at hreq
  obtain ⟨husers, hlast | ⟨hquiet, -⟩⟩ | ⟨b, hb⟩ := hreq
  · refine ⟨hQ.atPass, fun j => ?_, ?_, ⟨p, (hother _ (by simp)).trans hp, ?_⟩⟩
    · by_cases hj : j = 0
      · rw [hj, hself]
        exact hlast.2 _
      · exact hQ.idle j hj
    · rw [(answers_deleteUser hsem.1).2, husers]
      exact email_unused w.db.valid hd
    · rw [(answers_db_frame hsem.1).1]
  · exact (not_keepsUsers_deleteUser hsem.1 hquiet).elim
  · cases hb

/-- `Delete` clears a node exactly when, at the deletion of the user, the pass in flight on the node
has no push of the user's accounts left, and each account is off the node or has its removal left in
that pass. The trigger sent before the deletion does not matter: a pass that starts later finds no
row of the user. -/
theorem delete_clears_node_iff {w : World} {id n : ID} {before after : List FleetAct}
    {P Q R : Fleet}
    (hbefore : Path (Pool.Step NodeUp Fleet.passes) (Fleet.request w (Service.delete id).prog)
      before P)
    (hdel : Pool.Step NodeUp Fleet.passes P (.call (.api 0) (.db (.deleteUser id)) (.ok ())) Q)
    (hafter : Path (Pool.Step NodeUp Fleet.passes) Q after R)
    (hrest : R.prog (.actor n) = .ret (.ok ())) :
    ∃ p : Pass, P.prog (.actor n) = p.prog n ∧
      ((∀ d ∈ assignmentTargetsForUser w.tables id, d.nodeID = n →
          R.world.accounts n (key d) = none) ↔
        ∀ d ∈ assignmentTargetsForUser w.tables id, d.nodeID = n →
          (∀ e ∈ p.pushes, key e ≠ key d) ∧
            (P.world.accounts n (key d) = none ∨ ∃ e ∈ p.removes, key e = key d)) := by
  have hP : Deleting id w.tables.users P :=
    hbefore.invariant (fun _ _ _ hs hstep => hs.step hstep) (deleting_request id w)
  obtain ⟨p, hp⟩ := hP.atPass n
  refine ⟨p, hp, forall_congr' fun d => forall_congr' fun hd => imp_congr_right fun _ => ?_⟩
  have hR : Settled n (key d) (p.Leaves (P.world.accounts n) (key d)) R :=
    hafter.invariant (fun _ _ _ hs hstep => hs.step hstep) (settled_of_delete hbefore hdel hp hd)
  obtain ⟨q, hq, hleaves⟩ := hR.outcome
  rw [hrest] at hq
  rw [Pass.prog_eq_ret hq.symm, Pass.leaves_of_nil (.done (.ok ())) rfl rfl] at hleaves
  rw [← Pass.not_leaves_iff, ← hleaves, not_ne_iff]

/-! ## A run that leaves an account -/

/-- A user in sync on one inbound of node `n1`. -/
def provisioned : World :=
  (World.still ⟨Tables.assigned (.plain "i1" "n1" "in1" .vless) (.plain "u1" "a@example.com")
    .applied, Tables.assigned_valid _ _ _ rfl⟩).setAccount "n1" ("in1", "a@example.com")
      (some ⟨"a@example.com", .vless "u1" ""⟩)

/-- The statements of `Delete` on `provisioned` before the deletion: targets, tombstones and one
trigger. -/
def deleteToTrigger : Schedule :=
  [.fire (.api 0), .fire (.api 0), .fire (.api 0)]

/-- A pass on `n1` that finds no row. -/
def passAfterDelete : Schedule :=
  [.start (.actor "n1") (reconcile "n1").prog, .fire (.actor "n1"), .fire (.actor "n1"),
    .fire (.actor "n1")]

def atDeletion : Fleet :=
  (Pool.play exec deleteToTrigger (Fleet.request provisioned (Service.delete "u1").prog)).2

def deleted : Fleet := (Pool.play exec [.fire (.api 0)] atDeletion).2

def afterPass : Fleet := (Pool.play exec passAfterDelete deleted).2

theorem path_atDeletion : Path (Pool.Step NodeUp Fleet.passes)
    (Fleet.request provisioned (Service.delete "u1").prog) (Pool.play exec deleteToTrigger
      (Fleet.request provisioned (Service.delete "u1").prog)).1 atDeletion :=
  Pool.play_path nodeUp_exec deleteToTrigger (fun i p h => by simp [deleteToTrigger] at h) _
    (by decide)

theorem step_deleted : Pool.Step NodeUp Fleet.passes atDeletion
    (.call (.api 0) (.db (.deleteUser "u1")) (.ok ())) deleted :=
  ⟨_, rfl, ⟨answers_exec _ _, rfl⟩, rfl⟩

theorem path_afterPass : Path (Pool.Step NodeUp Fleet.passes) deleted
    (Pool.play exec passAfterDelete deleted).1 afterPass := by
  refine Pool.play_path nodeUp_exec passAfterDelete (fun i p h => ?_) deleted (by decide)
  simp only [passAfterDelete, List.mem_cons, Pool.Move.start.injEq, reduceCtorEq, List.not_mem_nil,
    or_false] at h
  obtain ⟨rfl, rfl⟩ := h
  rfl

/-- `Delete` returns, a complete pass runs on the node, and the account is still there. -/
theorem delete_leaves_account :
    ¬ ∀ (w : World) (id n : ID) (before after : List FleetAct) (P Q : Fleet),
      Path (Pool.Step NodeUp Fleet.passes) (Fleet.request w (Service.delete id).prog) before P →
      P.prog (.api 0) = .ret (.ok ()) →
      Path (Pool.Step NodeUp Fleet.passes) P
        (.start (.actor n) (reconcile n).prog :: after) Q →
      Q.prog (.actor n) = .ret (.ok ()) →
      ∀ d ∈ assignmentTargetsForUser w.tables id, d.nodeID = n →
        Q.world.accounts n (key d) = none := by
  intro h
  have hkey := h provisioned "u1" "n1" _ _ deleted afterPass (path_atDeletion.snoc step_deleted)
    rfl path_afterPass rfl _ (List.mem_singleton.2 rfl) rfl
  revert hkey
  decide

/-- On that run the condition fails: the account is on the node and no pass is about to remove
it. -/
theorem delete_clears_node_iff_provisioned :
    ∃ p : Pass, atDeletion.prog (.actor "n1") = p.prog "n1" ∧
      ¬ ∀ d ∈ assignmentTargetsForUser provisioned.tables "u1", d.nodeID = "n1" →
        (∀ e ∈ p.pushes, key e ≠ key d) ∧
          (atDeletion.world.accounts "n1" (key d) = none ∨ ∃ e ∈ p.removes, key e = key d) := by
  obtain ⟨p, hp, hiff⟩ :=
    delete_clears_node_iff (n := "n1") path_atDeletion step_deleted path_afterPass rfl
  refine ⟨p, hp, ?_⟩
  rw [← hiff]
  decide

end XrayApi.Worker
