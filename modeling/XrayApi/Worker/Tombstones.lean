import XrayApi.Service.Users
import XrayApi.Worker.Fleet

/-!
# Tombstones while passes run

`SetInbounds` tombstones the assignments it drops, and the reconciler removes their accounts and
then their rows. The reconciler also marks rows as applied or failed, by their key, some time after
it read them. A tombstone is safe as long as no pass still has a mark for the row when it is set
(`Fleet.Calm`); otherwise the mark wins and the removal is forgotten.

Any number of requests and all actors run interleaved here, and any statement may fail.
-/

set_option autoImplicit false

namespace XrayApi.Worker

open Transition Store Xray Relational

/-! ## The requests -/

/-- The statements of `SetInbounds`. -/
def Assigning : Stmt → Prop
  | .db (.getUser _) => True
  | .db (.listInboundsByIDs _) => True
  | .db (.assignmentTargetsForUser _) => True
  | .db (.setAssignmentsForUserTx _ _) => True
  | .trigger _ => True
  | _ => False

/-- `SetInbounds` as a job. -/
def assignJob (id : ID) (inboundIDs : Slice ID) : Job :=
  Req.prog do
    let _ ← Service.setInbounds id inboundIDs
    pure ()

/-- Requests are `SetInbounds` of any user; actors start passes on their own node. -/
def Fleet.assigning : Thread → Job → Prop
  | .api _, p => ∃ id inboundIDs, p = assignJob id inboundIDs
  | .actor n, p => p = (reconcile n).prog

theorem assignJob_assigning (id : ID) (inboundIDs : Slice ID) :
    Prog.Forall Assigning (assignJob id inboundIDs) := by
  refine Req.forall_bind (Req.forall_bind ⟨trivial, fun _ => trivial⟩ fun _ => ?_)
    fun _ => trivial
  refine Req.forall_bind ⟨trivial, fun _ => trivial⟩ fun inbounds => ?_
  split
  · trivial
  · refine Req.forall_bind ⟨trivial, fun _ => trivial⟩ fun _ => ?_
    refine Req.forall_bind ⟨trivial, fun _ => trivial⟩ fun _ => ?_
    exact Req.forall_bind (Service.triggerAll_forall (fun _ => trivial) _) fun _ =>
      ⟨trivial, fun _ => trivial⟩

/-- A request changes nothing but assignments, and those by the transaction. -/
theorem assigning_effect {s : Stmt} {r : s.Res} {w w' : World} (hs : Assigning s)
    (h : MayFail s w r w') :
    (w'.accounts = w.accounts ∧ w'.tables.users = w.tables.users ∧
        w'.tables.inbounds = w.tables.inbounds) ∧
      (w'.tables.userInbounds = w.tables.userInbounds ∨
        ∃ userID ids, (⟨s, r⟩ : Event Stmt Stmt.Res) =
            ⟨.db (.setAssignmentsForUserTx userID ids), .ok ()⟩ ∧
          setAssignmentsForUserTx w.tables userID ids = .ok w'.tables) := by
  obtain h | ⟨rfl, -⟩ := mayFail_cases h
  swap
  · exact ⟨⟨rfl, rfl, rfl⟩, Or.inl rfl⟩
  cases s with
  | trigger n =>
      cases h
      exact ⟨⟨rfl, rfl, rfl⟩, Or.inl rfl⟩
  | db q =>
      cases q with
      | getUser id =>
          have ht := readsOnly_getUser id _ _ _ (Or.inl h)
          exact ⟨⟨(answers_db_frame h).1, by rw [ht], by rw [ht]⟩, Or.inl (by rw [ht])⟩
      | listInboundsByIDs ids =>
          have ht := readsOnly_listInboundsByIDs ids _ _ _ (Or.inl h)
          exact ⟨⟨(answers_db_frame h).1, by rw [ht], by rw [ht]⟩, Or.inl (by rw [ht])⟩
      | assignmentTargetsForUser id =>
          have ht := readsOnly_assignmentTargetsForUser id _ _ _ (Or.inl h)
          exact ⟨⟨(answers_db_frame h).1, by rw [ht], by rw [ht]⟩, Or.inl (by rw [ht])⟩
      | setAssignmentsForUserTx userID ids =>
          cases r with
          | error e =>
              rw [(answers_db_error h).2]
              exact ⟨⟨rfl, rfl, rfl⟩, Or.inl rfl⟩
          | ok o =>
              obtain ⟨o', t, hq, -, -, ht⟩ := answers_db_ok h
              have hq := StoreCall.wrote_eq_ok.1 hq
              have hstatic := foldlM_addAssignmentTx_static hq
              refine ⟨⟨(answers_db_frame h).1, ?_, ?_⟩, Or.inr ⟨userID, ids, rfl, ?_⟩⟩
              · rw [ht]
                exact hstatic.1
              · rw [ht]
                exact hstatic.2.1
              · rw [ht]
                exact hq
      | _ => exact hs.elim
  | _ => exact hs.elim

/-! ## The condition -/

/-- The assignment has no row that is a tombstone. -/
def Live (t : Tables) (userID inboundID : ID) : Prop :=
  ∀ row, assignment t userID inboundID = some row → row.syncStatus ≠ .removing

/-- A step from `P` is calm: a transaction of `SetInbounds` tombstones no row that a pass in flight
has still to mark, and a push does not fail after its row has become a tombstone. -/
structure Fleet.Calm (P : Fleet) (a : FleetAct) : Prop where
  commit : ∀ k userID ids,
    a = .call (.api k) (.db (.setAssignmentsForUserTx userID ids)) (.ok ()) →
      ∀ n p, P.prog (.actor n) = Pass.prog n p →
        ∀ d ∈ p.marks, d.userID = userID → ids.excludes d.inboundID = false
  push : ∀ n s r, a = .call (.actor n) s r → s.isOk r = false →
    ∀ d rest, P.prog (.actor n) = (Pass.add d rest).prog n →
      Live P.world.tables d.userID d.inboundID

/-- The same on control points. -/
structure Crew.Calm (C : Crew) (a : FleetAct) : Prop where
  commit : ∀ k userID ids,
    a = .call (.api k) (.db (.setAssignmentsForUserTx userID ids)) (.ok ()) →
      ∀ n, ∀ d ∈ (C.ctl n).marks, d.userID = userID → ids.excludes d.inboundID = false
  push : ∀ n s r, a = .call (.actor n) s r → s.isOk r = false →
    ∀ d rest, C.ctl n = .add d rest → Live C.world.tables d.userID d.inboundID

/-- The calm steps of requests and actors. -/
def Fleet.CalmStep (P : Fleet) (a : FleetAct) (Q : Fleet) : Prop :=
  Pool.Step MayFail Fleet.assigning P a Q ∧ P.Calm a

def Crew.CalmStep (C : Crew) (a : FleetAct) (D : Crew) : Prop :=
  Crew.Step MayFail Assigning C a D ∧ C.Calm a

section Effects

variable {C D : Crew} {a : FleetAct}

/-- Users and inbounds stay. -/
theorem Crew.Step.static (h : Crew.Step MayFail Assigning C a D) :
    D.world.tables.users = C.world.tables.users ∧
      D.world.tables.inbounds = C.world.tables.inbounds := by
  cases h with
  | pass hstep hsem hother =>
      obtain hans | ⟨hw, -⟩ := mayFail_cases hsem
      · exact hstep.static hans
      · rw [hw]
        exact ⟨rfl, rfl⟩
  | begins hdone hdial hw hother =>
      rw [hw]
      exact ⟨rfl, rfl⟩
  | request hs hsem hctl => exact (assigning_effect hs hsem).1.2
  | opens => exact ⟨rfl, rfl⟩

/-- What can happen to the row of an assignment: nothing, the deletion of a tombstone by an actor, a
mark by an actor, or a transaction of the user. -/
theorem Crew.Step.row (h : Crew.Step MayFail Assigning C a D) (userID inboundID : ID) :
    assignment D.world.tables userID inboundID = assignment C.world.tables userID inboundID ∨
      (∃ n d rest, C.ctl n = .drop d rest ∧ D.ctl n = .toRemove rest ∧ d.userID = userID ∧
        d.inboundID = inboundID ∧ D.world.accounts = C.world.accounts ∧
        assignment D.world.tables userID inboundID = none) ∨
      (∃ n, ∃ d ∈ (C.ctl n).marks, d.userID = userID ∧ d.inboundID = inboundID ∧
        ∃ status errMsg, status ≠ SyncStatus.removing ∧
          assignment D.world.tables userID inboundID =
            (assignment C.world.tables userID inboundID).map fun r =>
              { r with syncStatus := status, lastError := errMsg }) ∨
      ∃ k ids, a = .call (.api k) (.db (.setAssignmentsForUserTx userID ids)) (.ok ()) ∧
        assignment D.world.tables userID inboundID =
          if inboundID ∈ ids.elems then
            some ((assignment C.world.tables userID inboundID).getD
              ⟨userID, inboundID, .pending, ""⟩)
          else if ids.excludes inboundID = true then
            (assignment C.world.tables userID inboundID).map tombstoned
          else assignment C.world.tables userID inboundID := by
  cases h with
  | pass hstep hsem hother =>
      obtain hans | ⟨hw, -⟩ := mayFail_cases hsem
      · obtain hsame | ⟨d, rest, hp, hp', hu, hi, hrow⟩ | ⟨d, hd, hu, hi, hrow⟩ :=
          hstep.row hans userID inboundID
        · exact Or.inl hsame
        · refine Or.inr (Or.inl ⟨_, d, rest, hp, hp', hu, hi, ?_, hrow⟩)
          rw [hp] at hstep
          generalize hq : D.ctl _ = q at hstep
          cases hstep with
          | dropped => exact (answers_db_frame hans).1
        · exact Or.inr (Or.inr (Or.inl ⟨_, d, hd, hu, hi, hrow⟩))
      · rw [hw]
        exact Or.inl rfl
  | begins hdone hdial hw hother =>
      rw [hw]
      exact Or.inl rfl
  | request hs hsem hctl =>
      obtain ⟨-, hrows | ⟨uid, ids, hev, htx⟩⟩ := assigning_effect hs hsem
      · exact Or.inl (assignment_congr hrows)
      · have hrow : assignment _ userID inboundID = _ := assignment_setAssignmentsForUserTx htx
        by_cases hu : userID = uid
        · subst hu
          rw [if_pos rfl] at hrow
          cases hev
          exact Or.inr (Or.inr (Or.inr ⟨_, ids, rfl, hrow⟩))
        · rw [if_neg hu] at hrow
          exact Or.inl hrow
  | opens => exact Or.inl rfl

/-- What can happen to an account of a node: nothing, a removal or a push by the node's actor. -/
theorem Crew.Step.account (h : Crew.Step MayFail Assigning C a D) (n : ID) (k : Key) :
    D.world.accounts n k = C.world.accounts n k ∨
      (∃ d rest, C.ctl n = .remove d rest ∧ key d = k ∧ D.world.accounts n k = none) ∨
      ∃ d ∈ (C.ctl n).pushes, key d = k := by
  cases h with
  | @pass _ m s r hstep hsem hother =>
      obtain hans | ⟨hw, -⟩ := mayFail_cases hsem
      · by_cases hm : n = m
        · subst hm
          exact (hstep.account hans k).imp_right (Or.imp_right fun ⟨d, hd, hk, _⟩ => ⟨d, hd, hk⟩)
        · rw [hstep.accounts_of_ne hans hm]
          exact Or.inl rfl
      · rw [hw]
        exact Or.inl rfl
  | begins hdone hdial hw hother =>
      rw [hw]
      exact Or.inl rfl
  | request hs hsem hctl =>
      rw [(assigning_effect hs hsem).1.1]
      exact Or.inl rfl
  | opens => exact Or.inl rfl

end Effects

/-! ## The rows in the hands of the passes -/

/-- A row in the hands of a pass on `n` has its inbound, on that node, and its user. -/
structure Joined (n : ID) (t : Tables) (d : DesiredAssignment) : Prop where
  inbound : ∃ i ∈ t.inbounds, i.id = d.inboundID ∧ i.nodeID = n ∧ i.tag = d.inboundTag
  user : ∃ u ∈ t.users, u.id = d.userID ∧ u.email = d.email

theorem joined_of_mem_queryDesired {n : ID} {t : Tables}
    {cond : UserInbound → Inbound → User → Bool} {d : DesiredAssignment}
    (hd : d ∈ queryDesired t cond) (hn : d.nodeID = n) : Joined n t d := by
  obtain ⟨ui, -, i, u, hi, hu, -, rfl⟩ := mem_queryDesired.1 hd
  exact ⟨⟨i, mem_of_lookup hi, key_of_lookup hi, hn, rfl⟩,
    ⟨u, mem_of_lookup hu, key_of_lookup hu, rfl⟩⟩

section Joined

variable {n : ID} {t t' : Tables} {d : DesiredAssignment} {i : Inbound} {u : User}

theorem Joined.congr (h : Joined n t d) (hu : t'.users = t.users)
    (hi : t'.inbounds = t.inbounds) : Joined n t' d := by
  refine ⟨?_, ?_⟩
  · rw [hi]
    exact h.inbound
  · rw [hu]
    exact h.user

/-- The node of the row is that of its inbound. -/
theorem Joined.node_eq (h : Joined n t d) (ht : t.Valid) (hi : i ∈ t.inbounds)
    (hid : d.inboundID = i.id) : n = i.nodeID := by
  obtain ⟨j, hj, hjd, hjn, -⟩ := h.inbound
  rw [← hjn, List.inj_on_of_nodup_map ht.inbounds_id hj hi (hjd.trans hid)]

/-- On the node of an inbound, the account of a row is that of the assignment exactly when the row
is the assignment's. -/
theorem Joined.key_iff (h : Joined i.nodeID t d) (ht : t.Valid) (hi : i ∈ t.inbounds)
    (hu : u ∈ t.users) : key d = (i.tag, u.email) ↔ d.userID = u.id ∧ d.inboundID = i.id := by
  obtain ⟨j, hj, hjd, hjn, hjt⟩ := h.inbound
  obtain ⟨v, hv, hvd, hve⟩ := h.user
  unfold key
  rw [Prod.mk.injEq, ← hjd, ← hvd, ← hjt, ← hve]
  constructor
  · rintro ⟨htag, hmail⟩
    rw [List.inj_on_of_nodup_map ht.inbounds_tag hj hi (Prod.ext hjn htag),
      List.inj_on_of_nodup_map ht.users_email hv hu hmail]
    exact ⟨rfl, rfl⟩
  · rintro ⟨hvu, hji⟩
    rw [List.inj_on_of_nodup_map ht.inbounds_id hj hi hji,
      List.inj_on_of_nodup_map ht.users_id hv hu hvu]
    exact ⟨rfl, rfl⟩

end Joined

/-- The rows in the hands of the passes stay joined rows. -/
theorem Crew.Step.joined {C D : Crew} {a : FleetAct} (h : Crew.Step MayFail Assigning C a D)
    (hC : ∀ n, ∀ d ∈ (C.ctl n).held, Joined n C.world.tables d) :
    ∀ n, ∀ d ∈ (D.ctl n).held, Joined n D.world.tables d := by
  intro m d hd
  obtain ⟨husers, hinbounds⟩ := h.static
  obtain hsame | ⟨-, hdial, -⟩ | ⟨s, r, -, hstep, hsem⟩ := h.ctl m
  · rw [hsame] at hd
    exact (hC m d hd).congr husers hinbounds
  · rw [hdial] at hd
    cases hd
  · obtain hold | hread := hstep.held hd
    · exact (hC m d hold).congr husers hinbounds
    · obtain ⟨cond, hmem, hn⟩ := hstep.read (Pass.answers_of_read hsem hread) hread
      exact (joined_of_mem_queryDesired hmem hn).congr husers hinbounds

/-- What calm steps keep: the rows in the hands of the passes are joined rows, and no row that will
be marked is a tombstone. -/
structure Tidy (C : Crew) : Prop where
  joined : ∀ n, ∀ d ∈ (C.ctl n).held, Joined n C.world.tables d
  unmarked : ∀ n, ∀ d ∈ (C.ctl n).marks, Live C.world.tables d.userID d.inboundID

section Tidy

variable {C D : Crew} {a : FleetAct}

/-- A calm step keeps a row that is about to be marked from being tombstoned. -/
theorem Crew.CalmStep.live (h : C.CalmStep a D) {n : ID} {d : DesiredAssignment}
    (hd : d ∈ (C.ctl n).marks) (hlive : Live C.world.tables d.userID d.inboundID) :
    Live D.world.tables d.userID d.inboundID := by
  intro row hrow
  obtain hsame | ⟨_, _, _, _, _, _, _, _, hnone⟩ | ⟨_, _, _, _, _, status, msg, hst, hmap⟩ |
    ⟨k, ids, ha, htx⟩ := h.1.row d.userID d.inboundID
  · rw [hsame] at hrow
    exact hlive row hrow
  · rw [hnone] at hrow
    cases hrow
  · rw [hmap, Option.map_eq_some_iff] at hrow
    obtain ⟨r, -, rfl⟩ := hrow
    exact hst
  · have hkept : ids.excludes d.inboundID ≠ true := by
      rw [h.2.commit k _ ids ha n d hd rfl]
      exact Bool.false_ne_true
    rw [htx, if_neg hkept] at hrow
    split_ifs at hrow
    · cases hold : assignment C.world.tables d.userID d.inboundID with
      | none =>
          rw [hold] at hrow
          cases hrow
          exact fun h => by cases h
      | some r =>
          rw [hold] at hrow
          cases hrow
          exact hlive r hold
    · exact hlive row hrow

/-- What a pass has just read and will mark was not a tombstone. -/
theorem live_of_desired {n : ID} {s : Stmt} {r : s.Res} {p' : Pass} {w w' : World}
    (h : Pass.Step n .listDesired s r p') (hw : Answers s w r w') {d : DesiredAssignment}
    (hd : d ∈ Pass.readRows s r) : Live w'.tables d.userID d.inboundID := by
  obtain ⟨ui, hui, i, u, -, -, hc, rfl⟩ := mem_queryDesired.1 (h.desired_of_read hw hd)
  have hsame : w'.tables = w.tables := by
    cases h with
    | desiredFailed e => cases hd
    | desired ds =>
        obtain ⟨-, -, -, ht⟩ := answers_db_of_ok rfl hw
        exact ht
  intro row hrow
  have hrow : assignment w.tables ui.userID ui.inboundID = some row := by
    rw [← hsame]
    exact hrow
  have hui' := w.db.valid.assignment_eq_some.2 ⟨hui, rfl, rfl⟩
  rw [hui'] at hrow
  cases hrow
  exact (of_decide_eq_true hc).2.2

theorem Tidy.step (hC : Tidy C) (h : C.CalmStep a D) : Tidy D := by
  refine ⟨h.1.joined hC.joined, fun m d hd => ?_⟩
  obtain hsame | ⟨-, hdial, -⟩ | ⟨s, r, ha, hstep, hsem⟩ := h.1.ctl m
  · rw [hsame] at hd
    exact h.live hd (hC.unmarked m d hd)
  · rw [hdial] at hd
    cases hd
  · obtain hold | ⟨hp, hread⟩ | ⟨rest, hp, hr⟩ := hstep.marks hd
    · exact h.live hold (hC.unmarked m d hold)
    · rw [hp] at hstep
      exact live_of_desired hstep (Pass.answers_of_read hsem hread) hread
    · -- a failed push changes nothing
      rw [hp] at hstep
      rw [hstep.world_of_add_failed hsem hr]
      exact h.2.push m s r ha hr d rest hp

end Tidy

/-! ## Tombstones stay -/

/-- The assignment has no row, or a tombstone. -/
def Going (t : Tables) (userID inboundID : ID) : Prop :=
  ∀ row, assignment t userID inboundID = some row → row.syncStatus = .removing

/-- The step is not a transaction that sets the inbounds of the user. -/
def NotSetting (userID : ID) (a : FleetAct) : Prop :=
  ∀ k ids, a ≠ .call (.api k) (.db (.setAssignmentsForUserTx userID ids)) (.ok ())

section Going

variable {C D : Crew} {a : FleetAct} {userID inboundID : ID}

/-- Only a transaction of the user inserts a row. -/
theorem Crew.Step.absent (h : Crew.Step MayFail Assigning C a D) (ha : NotSetting userID a)
    (hnone : assignment C.world.tables userID inboundID = none) :
    assignment D.world.tables userID inboundID = none := by
  obtain hsame | ⟨_, _, _, _, _, _, _, _, hnone'⟩ | ⟨_, _, _, _, _, _, _, _, hmap⟩ |
    ⟨k, ids, htx, -⟩ := h.row userID inboundID
  · rw [hsame, hnone]
  · exact hnone'
  · rw [hmap, hnone]
    rfl
  · exact (ha k ids htx).elim

/-- A tombstone stays one until it is deleted. -/
theorem Going.step (hC : Tidy C) (h : C.CalmStep a D) (ha : NotSetting userID a)
    (hgo : Going C.world.tables userID inboundID) : Going D.world.tables userID inboundID := by
  intro row hrow
  obtain hsame | ⟨_, _, _, _, _, _, _, _, hnone⟩ | ⟨n, d, hd, rfl, rfl, _, _, _, hmap⟩ |
    ⟨k, ids, htx, -⟩ := h.1.row userID inboundID
  · rw [hsame] at hrow
    exact hgo row hrow
  · rw [hnone] at hrow
    cases hrow
  · rw [hmap, Option.map_eq_some_iff] at hrow
    obtain ⟨r, hr, -⟩ := hrow
    exact (hC.unmarked n d hd r hr (hgo r hr)).elim
  · exact (ha k ids htx).elim

end Going

/-! ## Accounts and rows -/

section Matched

variable {i : Inbound} {u : User} {C D : Crew} {a : FleetAct}

/-- An assignment without a row has no account on its node, and none is about to be pushed. -/
structure Matched (i : Inbound) (u : User) (C : Crew) : Prop where
  inbound : i ∈ C.world.tables.inbounds
  user : u ∈ C.world.tables.users
  dropping : ∀ d rest, C.ctl i.nodeID = .drop d rest → d.userID = u.id → d.inboundID = i.id →
    C.world.accounts i.nodeID (i.tag, u.email) = none
  absent : assignment C.world.tables u.id i.id = none →
    C.world.accounts i.nodeID (i.tag, u.email) = none ∧
      ∀ d ∈ (C.ctl i.nodeID).pushes, key d ≠ (i.tag, u.email)

/-- A joined row comes from an assignment. -/
theorem exists_assignment_of_mem {t : Tables} (ht : t.Valid)
    {cond : UserInbound → Inbound → User → Bool} {d : DesiredAssignment}
    (hd : d ∈ queryDesired t cond) : ∃ row, assignment t d.userID d.inboundID = some row := by
  obtain ⟨ui, hui, i, u, -, -, -, rfl⟩ := mem_queryDesired.1 hd
  exact ⟨ui, ht.assignment_eq_some.2 ⟨hui, rfl, rfl⟩⟩

/-- While the row is absent the account stays absent. -/
theorem Matched.absent_step (h : C.CalmStep a D) (hM : Matched i u C)
    (hnone : assignment C.world.tables u.id i.id = none) :
    D.world.accounts i.nodeID (i.tag, u.email) = none ∧
      ∀ d ∈ (D.ctl i.nodeID).pushes, key d ≠ (i.tag, u.email) := by
  obtain ⟨hacct, hpush⟩ := hM.absent hnone
  constructor
  · obtain hsame | ⟨d, rest, -, -, hgone⟩ | ⟨d, hd, hk⟩ :=
      h.1.account i.nodeID (i.tag, u.email)
    · rw [hsame]
      exact hacct
    · exact hgone
    · exact (hpush d hd hk).elim
  · intro d hd
    obtain hsame | ⟨-, hdial, -⟩ | ⟨s, r, -, hstep, hsem⟩ := h.1.ctl i.nodeID
    · rw [hsame] at hd
      exact hpush d hd
    · rw [hdial] at hd
      cases hd
    · obtain hold | ⟨-, hread⟩ := hstep.pushes hd
      · exact hpush d hold
      · -- the query returns rows of assignments that exist
        obtain ⟨cond, hmem, hn⟩ := hstep.read (Pass.answers_of_read hsem hread) hread
        intro hk
        obtain ⟨row, hrow⟩ := exists_assignment_of_mem C.world.db.valid hmem
        obtain ⟨hu, hi⟩ := ((joined_of_mem_queryDesired hmem hn).key_iff C.world.db.valid
          hM.inbound hM.user).1 hk
        rw [hu, hi, hnone] at hrow
        cases hrow

theorem Matched.step (hC : Tidy C) (h : C.CalmStep a D) (hM : Matched i u C) :
    Matched i u D := by
  obtain ⟨husers, hinbounds⟩ := h.1.static
  have hi : i ∈ D.world.tables.inbounds := by
    rw [hinbounds]
    exact hM.inbound
  have hu : u ∈ D.world.tables.users := by
    rw [husers]
    exact hM.user
  refine ⟨hi, hu, fun d rest hctl hdu hdi => ?_, fun hnone => ?_⟩
  · -- a pass that is about to drop the row has just removed the account, or was there before
    obtain hsame | ⟨-, hdial, -⟩ | ⟨s, r, -, hstep, hsem⟩ := h.1.ctl i.nodeID
    · rw [hctl] at hsame
      obtain hacct | ⟨e, rest', hrem, -⟩ | ⟨e, he, -⟩ := h.1.account i.nodeID (i.tag, u.email)
      · rw [hacct]
        exact hM.dropping d rest hsame.symm hdu hdi
      · rw [← hsame] at hrem
        cases hrem
      · rw [← hsame] at he
        cases he
    · rw [hctl] at hdial
      cases hdial
    · have hheld : d ∈ (D.ctl i.nodeID).held := by
        rw [hctl]
        exact List.mem_cons_self
      have hkey := (((hC.step h).joined i.nodeID d hheld).key_iff D.world.db.valid hi hu).2
        ⟨hdu, hdi⟩
      rw [hctl] at hstep
      rw [← hkey]
      exact hstep.to_drop hsem
  · -- a row that is missing was so before, or it has just been dropped
    obtain hsame | ⟨n, d, rest, hdrop, hctl, hdu, hdi, hacct, -⟩ |
      ⟨_, _, _, _, _, _, _, _, hmap⟩ | ⟨k, ids, -, htx⟩ := h.1.row u.id i.id
    · rw [hsame] at hnone
      exact hM.absent_step h hnone
    · have hheld : d ∈ (C.ctl n).held := by
        rw [hdrop]
        exact List.mem_cons_self
      have hn : n = i.nodeID := (hC.joined n d hheld).node_eq C.world.db.valid hM.inbound hdi
      subst hn
      rw [hacct, hctl, Pass.pushes_toRemove]
      exact ⟨hM.dropping d rest hdrop hdu hdi, fun e he => absurd he List.not_mem_nil⟩
    · rw [hmap, Option.map_eq_none_iff] at hnone
      exact hM.absent_step h hnone
    · rw [htx] at hnone
      split_ifs at hnone with hid hex
      · rw [Option.map_eq_none_iff] at hnone
        exact hM.absent_step h hnone
      · exact hM.absent_step h hnone

end Matched

/-! ## A pass that sweeps -/

section Sweeping

variable {i : Inbound} {u : User} {C D : Crew} {a : FleetAct}

/-- A pass on the inbound's node has still to list the removals, or it will delete the tombstone, or
the row is gone. -/
def Sweeping (i : Inbound) (u : User) (C : Crew) : Prop :=
  (C.ctl i.nodeID = .dial ∨ C.ctl i.nodeID = .listRemovals) ∨
    assignment C.world.tables u.id i.id = none ∨
    ∃ d ∈ (C.ctl i.nodeID).drops, d.userID = u.id ∧ d.inboundID = i.id

/-- The removal query returns the tombstone. -/
theorem exists_drop_of_listed {s : Stmt} {r : s.Res} {p' : Pass} {w w' : World}
    (h : Pass.Step i.nodeID .listRemovals s r p') (hw : Answers s w r w') (hok : s.isOk r = true)
    (hi : i ∈ w.tables.inbounds) (hu : u ∈ w.tables.users) {row : UserInbound}
    (hrow : assignment w.tables u.id i.id = some row) (hrem : row.syncStatus = .removing) :
    ∃ d ∈ p'.drops, d.userID = u.id ∧ d.inboundID = i.id := by
  cases h with
  | listFailed e => cases hok
  | listed ds =>
      obtain ⟨b, hb, hrows, -⟩ := answers_db_of_ok rfl hw
      cases hb
      have hli : lookup Inbound.id i.id w.tables.inbounds = some i :=
        (lookup_eq_some_iff w.db.valid.inbounds_id).2 ⟨hi, rfl⟩
      have hlu : lookup User.id u.id w.tables.users = some u :=
        (lookup_eq_some_iff w.db.valid.users_id).2 ⟨hu, rfl⟩
      have hmem : desiredRow row i u ∈ removalsForNode w.tables i.nodeID ∧ _ :=
        (w.db.valid.mem_queryDesired_ids hli hlu).2
          ⟨row, hrow, decide_eq_true ⟨rfl, Or.inl hrem⟩, rfl⟩
      refine ⟨desiredRow row i u, ?_, hmem.2⟩
      rw [Pass.drops_toRemove, List.mem_filter]
      exact ⟨(List.Perm.mem_iff hrows).2 hmem.1, decide_eq_true hrem⟩

theorem Sweeping.step (hgo : Going C.world.tables u.id i.id) (hM : Matched i u C)
    (h : C.CalmStep a D) (ha : NotSetting u.id a)
    (hok : ∀ s r, a = .call (.actor i.nodeID) s r → s.isOk r = true) (hsw : Sweeping i u C) :
    Sweeping i u D := by
  obtain hearly | hnone | ⟨d, hd, hdu, hdi⟩ := hsw
  · obtain hsame | ⟨-, hdial, -⟩ | ⟨s, r, hact, hstep, hsem⟩ := h.1.ctl i.nodeID
    · unfold Sweeping
      rw [hsame]
      exact Or.inl hearly
    · exact Or.inl (Or.inl hdial)
    · have hr := hok s r hact
      obtain hdial | hlist := hearly
      · rw [hdial] at hstep
        generalize hq : D.ctl i.nodeID = q at hstep
        cases hstep with
        | dialed => exact Or.inl (Or.inr hq)
        | dialFailed e => cases hr
      · rw [hlist] at hstep
        cases hrow : assignment C.world.tables u.id i.id with
        | none => exact Or.inr (Or.inl (h.1.absent ha hrow))
        | some row =>
            exact Or.inr (Or.inr (exists_drop_of_listed hstep (mayFail_ok hsem hr) hr hM.inbound
              hM.user hrow (hgo row hrow)))
  · exact Or.inr (Or.inl (h.1.absent ha hnone))
  · obtain hsame | ⟨⟨b, hdone⟩, -, -⟩ | ⟨s, r, hact, hstep, hsem⟩ := h.1.ctl i.nodeID
    · unfold Sweeping
      rw [hsame]
      exact Or.inr (Or.inr ⟨d, hd, hdu, hdi⟩)
    · rw [hdone] at hd
      cases hd
    · have hr := hok s r hact
      obtain hkeep | hgone := hstep.drops (mayFail_ok hsem hr) hr hd
      · exact Or.inr (Or.inr ⟨d, hkeep, hdu, hdi⟩)
      · rw [hdu, hdi] at hgone
        exact Or.inr (Or.inl hgone)

end Sweeping

/-! ## Whole runs -/

section Runs

variable {i : Inbound} {u : User} {C D E : Crew} {a : FleetAct}

/-- An assignment in a run of calm steps. -/
structure Tracked (i : Inbound) (u : User) (C : Crew) : Prop where
  tidy : Tidy C
  matched : Matched i u C

theorem Tracked.step (hC : Tracked i u C) (h : C.CalmStep a D) : Tracked i u D :=
  ⟨hC.tidy.step h, hC.matched.step hC.tidy h⟩

/-- An assignment left out by the last transaction of its user. -/
structure Leaving (i : Inbound) (u : User) (C : Crew) : Prop extends Tracked i u C where
  going : Going C.world.tables u.id i.id

theorem Leaving.step (hC : Leaving i u C) (h : C.CalmStep a D) (ha : NotSetting u.id a) :
    Leaving i u D :=
  ⟨hC.toTracked.step h, hC.going.step hC.tidy h ha⟩

/-- A pass that starts then and whose calls all succeed deletes the row and the account. -/
theorem Leaving.swept (hC : Leaving i u C) {q : Job}
    (hstart : C.CalmStep (.start (.actor i.nodeID) q) D) {pass : List FleetAct}
    (hpass : Path Crew.CalmStep D pass E) (hlast : ∀ a ∈ pass, NotSetting u.id a)
    (hok : ∀ s r, .call (.actor i.nodeID) s r ∈ pass → s.isOk r = true)
    {b : Except Err Unit} (hdone : E.ctl i.nodeID = .done b) :
    assignment E.world.tables u.id i.id = none ∧
      E.world.accounts i.nodeID (i.tag, u.email) = none := by
  have hD : Leaving i u D := hC.step hstart fun k ids h => by cases h
  have hsw : Sweeping i u D := by
    obtain ⟨hstep, -⟩ := hstart
    cases hstep with
    | begins hd hdial hw hother => exact Or.inl (Or.inl hdial)
  have hgood : ∀ a ∈ pass, NotSetting u.id a ∧
      ∀ s r, a = .call (.actor i.nodeID) s r → s.isOk r = true :=
    fun a ha => ⟨hlast a ha, fun s r h => hok s r (h ▸ ha)⟩
  obtain ⟨hE, hsw⟩ : Leaving i u E ∧ Sweeping i u E :=
    (hpass.restrict hgood).invariant (I := fun C => Leaving i u C ∧ Sweeping i u C)
      (fun _ _ _ hI h => ⟨hI.1.step h.1 h.2.1,
        hI.2.step hI.1.going hI.1.matched h.1 h.2.1 h.2.2⟩) ⟨hD, hsw⟩
  have hnone : assignment E.world.tables u.id i.id = none := by
    unfold Sweeping at hsw
    rw [hdone] at hsw
    obtain (h | h) | hnone | ⟨d, hd, -⟩ := hsw
    · cases h
    · cases h
    · exact hnone
    · cases hd
  exact ⟨hnone, (hE.matched.absent hnone).1⟩

end Runs

theorem allowed_fires (i : Thread) (m : Nat) :
    Pool.Allowed Fleet.assigning (List.replicate m (.fire i)) := by
  intro j p h
  cases List.eq_of_mem_replicate h

theorem allowed_pass (n : ID) (m : Nat) : Pool.Allowed Fleet.assigning
    (.start (.actor n) (reconcile n).prog :: List.replicate m (.fire (.actor n))) := by
  intro j p h
  obtain h | h := List.mem_cons.1 h
  · cases h
    rfl
  · exact allowed_fires _ _ j p h

def sweep : Schedule := List.replicate 5 (.fire (.actor "n1"))

end XrayApi.Worker
