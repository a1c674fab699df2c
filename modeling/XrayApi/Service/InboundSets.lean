import XrayApi.Service.Acceptance
import XrayApi.Store.Entries

/-!
# Sets of inbounds

`Create` and `SetInbounds` take a list of inbound ids. Both decide whether all of them exist by
comparing two lengths; `inboundsExist_iff` says that this is exact. `Create` then inserts one
pending row for each of them. `SetInbounds` tombstones the rows that are not listed and inserts
those that are missing; a listed row that is there stays as it is, so a tombstone of an earlier
removal stays a tombstone (`live_setAssignmentsForUserTx`). With a nil list, which the handler gets
from a body without `inbound_ids`, it changes nothing (`setAssignmentsForUserTx_nil`).
-/

set_option autoImplicit false

namespace XrayApi.Service

open Transition Store Relational

variable {t t' : Tables} {ids : List ID}

/-! ## The existence check -/

theorem mem_listInboundsByIDs {id : ID} :
    id ∈ (listInboundsByIDs t ids).map Inbound.id ↔ id ∈ t.inbounds.map Inbound.id ∧ id ∈ ids := by
  simp only [listInboundsByIDs, List.mem_map, List.mem_filter, decide_eq_true_eq]
  constructor
  · rintro ⟨i, ⟨hi, hid⟩, rfl⟩
    exact ⟨⟨i, hi, rfl⟩, hid⟩
  · rintro ⟨⟨i, hi, rfl⟩, hid⟩
    exact ⟨i, ⟨hi, hid⟩, rfl⟩

/-- The inbounds of the list are as many as its distinct ids exactly when each id is that of one. -/
theorem inboundsExist_iff (ht : (t.inbounds.map Inbound.id).Nodup) :
    inboundsExist t ids ↔ ∀ id ∈ ids, id ∈ t.inbounds.map Inbound.id := by
  have hnodup : ((listInboundsByIDs t ids).map Inbound.id).Nodup := nodup_map_filter ht _
  -- what is found is part of what was asked for, so with equal lengths it is all of it
  have hsub : ((listInboundsByIDs t ids).map Inbound.id).Subperm (dedup ids) :=
    List.subperm_of_subset hnodup fun id hid => mem_dedup.2 (mem_listInboundsByIDs.1 hid).2
  unfold inboundsExist
  rw [← List.length_map Inbound.id]
  constructor
  · intro hlen id hid
    have hperm := hsub.perm_of_length_le hlen.ge
    exact (mem_listInboundsByIDs.1 (hperm.mem_iff.2 (mem_dedup.2 hid))).1
  · intro h
    refine List.Perm.length_eq
      ((List.perm_ext_iff_of_nodup hnodup (nodup_dedup ids)).2 fun id => ?_)
    rw [mem_listInboundsByIDs, mem_dedup]
    exact ⟨And.right, fun hid => ⟨h id hid, hid⟩⟩

/-- The checks of `Create` other than that of its inbounds, and the constraints of its insert. -/
structure OtherwiseValid (t : Tables) (inp : CreateInput) (fresh : Fresh) : Prop where
  email : isBlank inp.email = false
  inbounds : inp.inboundIDs ≠ []
  plan : PlanKnown t inp.planID
  unused : insertConflict t.users (newUser inp fresh none none) = none

section Create

variable {w w' : World} {inp : CreateInput} {fresh : Fresh} {now : Time}

theorem create_rejects (h : OtherwiseValid w.tables inp fresh)
    (hnot : ¬ inboundsExist w.tables inp.inboundIDs) :
    ((create inp fresh now).run exec w).1 =
      .error (.validation "one or more inbound_ids do not exist") := by
  obtain ⟨limits, hsnap⟩ : ∃ limits, snapshot w.tables inp now = .ok limits :=
    snapshot_succeeds_iff.2 h.plan
  obtain ⟨w₁, h₁, ht₁⟩ := snapshotLimits_of_ok hsnap
  obtain ⟨w₂, h₂, -⟩ := query_returns (w := w₁) (q := .listInboundsByIDs inp.inboundIDs) rfl
  have hlen : (listInboundsByIDs w₁.tables inp.inboundIDs).length ≠
      (dedup inp.inboundIDs).length := by
    rw [ht₁]
    exact hnot
  unfold create
  rw [h.email, if_neg h.inbounds, if_neg Bool.false_ne_true, Req.run_bind_of_ok h₁,
    Req.run_bind_of_ok h₂, if_pos hlen]
  rfl

/-- The rows of a user who has just been created: one for each inbound of the list, pending. -/
theorem rows_createWithAssignmentsTx (ht : t.Valid) (ht' : t'.Valid) {u : User}
    (h : createWithAssignmentsTx t u ids = .ok t') :
    (t'.userInbounds.filter fun r => decide (r.userID = u.id)).Perm
      ((dedup ids).map fun i => ⟨u.id, i, .pending, ""⟩) := by
  have hnew : u.id ∉ t.users.map User.id := by
    obtain ⟨hconf, -, -⟩ := createWithAssignmentsTx_eq_ok h
    intro hmem
    rw [insertConflict, if_pos hmem] at hconf
    cases hconf
  -- a user who is new had no rows, so each row was inserted for an id of the list
  have hrow : ∀ i r, assignment t' u.id i = some r ↔ i ∈ ids ∧ r = ⟨u.id, i, .pending, ""⟩ := by
    intro i r
    rw [assignment_createWithAssignmentsTx h, ht.assignment_eq_none hnew]
    by_cases hi : i ∈ ids
    · rw [if_pos ⟨rfl, hi⟩, Option.getD_none, Option.some.injEq]
      exact ⟨fun heq => ⟨hi, heq.symm⟩, fun heq => heq.2.symm⟩
    · rw [if_neg fun hmem => hi hmem.2]
      exact iff_of_false (Option.some_ne_none r).symm fun heq => hi heq.1
  have hrows : t'.userInbounds.Nodup := List.Nodup.of_map _ ht'.userInbounds_key
  have hinj : Function.Injective fun i : ID => (⟨u.id, i, .pending, ""⟩ : UserInbound) :=
    fun i j hij => congrArg UserInbound.inboundID hij
  refine (List.perm_ext_iff_of_nodup (hrows.filter _) ((nodup_dedup ids).map hinj)).2 fun r => ?_
  rw [List.mem_filter, decide_eq_true_eq, List.mem_map]
  constructor
  · rintro ⟨hmem, huser⟩
    obtain ⟨hi, hr⟩ := (hrow r.inboundID r).1 (ht'.assignment_eq_some.2 ⟨hmem, huser, rfl⟩)
    exact ⟨r.inboundID, mem_dedup.2 hi, hr.symm⟩
  · rintro ⟨i, hi, rfl⟩
    obtain ⟨hmem, huser, -⟩ := ht'.assignment_eq_some.1 ((hrow i _).2 ⟨mem_dedup.1 hi, rfl⟩)
    exact ⟨hmem, huser⟩

end Create

/-- The check is exact. With an input that is valid otherwise, `Create` succeeds exactly when all
its inbounds exist, and answers the error of the check when one does not; the new user then has one
pending row for each distinct id of the list. -/
theorem create_inbounds_exact :
    (∀ (t : Tables) (ids : List ID), (t.inbounds.map Inbound.id).Nodup → ids ≠ [] →
      ((listInboundsByIDs t ids).length = (dedup ids).length ↔
        ∀ id ∈ ids, ∃ i ∈ t.inbounds, i.id = id)) ∧
    ∀ (w : World) (inp : CreateInput) (fresh : Fresh) (now : Time),
      OtherwiseValid w.tables inp fresh →
      (Succeeds (create inp fresh now) w ↔
        ∀ id ∈ inp.inboundIDs, ∃ i ∈ w.tables.inbounds, i.id = id) ∧
      ((∃ id ∈ inp.inboundIDs, ∀ i ∈ w.tables.inbounds, i.id ≠ id) →
        ((create inp fresh now).run exec w).1 =
          .error (.validation "one or more inbound_ids do not exist")) ∧
      ∀ u w', Returns (create inp fresh now) w u w' →
        (w'.tables.userInbounds.filter fun r => decide (r.userID = u.id)).Perm
          ((dedup inp.inboundIDs).map fun i => ⟨u.id, i, .pending, ""⟩) := by
  have hexist : ∀ (t : Tables) (ids : List ID), (t.inbounds.map Inbound.id).Nodup →
      (inboundsExist t ids ↔ ∀ id ∈ ids, ∃ i ∈ t.inbounds, i.id = id) := by
    intro t ids ht
    rw [inboundsExist_iff ht]
    simp only [List.mem_map]
  refine ⟨fun t ids ht _ => hexist t ids ht, fun w inp fresh now h => ⟨?_, ?_, ?_⟩⟩
  · rw [create_succeeds_iff, ← hexist _ _ w.db.valid.inbounds_id]
    exact ⟨CanCreate.exist, fun hex => ⟨h.email, h.inbounds, hex, h.plan, h.unused⟩⟩
  · rintro ⟨id, hid, hnone⟩
    refine create_rejects h fun hex => ?_
    obtain ⟨i, hi, heq⟩ := (hexist _ _ w.db.valid.inbounds_id).1 hex id hid
    exact hnone i hi heq
  · intro u w' hret
    obtain ⟨-, -, hex, limits, -, hcreate, hu⟩ := create_returns hret
    rw [getUser_id hu]
    refine (rows_createWithAssignmentsTx w.db.valid w'.db.valid hcreate).trans (List.Perm.map _ ?_)
    refine (List.perm_ext_iff_of_nodup (nodup_dedup _) (nodup_dedup _)).2 fun id => ?_
    rw [mem_dedup, mem_dedup, mem_listInboundsByIDs]
    exact ⟨And.right, fun hid => ⟨(inboundsExist_iff w.db.valid.inbounds_id).1 hex id hid, hid⟩⟩

/-- A user whose only assignment has the given status. -/
def onInbound (status : SyncStatus) : World :=
  .still ⟨.assigned (.plain "i" "n" "in" .vless) (User.plain "u" "u@x") status,
    Tables.assigned_plain_valid _⟩

/-- A second user, on the given inbounds. -/
def second (inboundIDs : List ID) : CreateInput := ⟨"v@x", none, inboundIDs, none, none, "", none⟩

/-- The inbound is there, however often it is listed; another is not. -/
theorem create_inbounds_exact_second :
    let fresh : Fresh := ⟨"v", "x2", "p2", "t2"⟩
    Succeeds (create (second ["i", "i"]) fresh 0) (onInbound .applied) ∧
      ((create (second ["i", "j"]) fresh 0).run exec (onInbound .applied)).1 =
        .error (.validation "one or more inbound_ids do not exist") ∧
      ∃ u w', Returns (create (second ["i", "i"]) fresh 0) (onInbound .applied) u w' ∧
        (w'.tables.userInbounds.filter fun r => decide (r.userID = u.id)).Perm
          [⟨u.id, "i", .pending, ""⟩] := by
  intro fresh
  have hemail : isBlank "v@x" = false := by decide
  have hvalid : ∀ ids, ids ≠ [] →
      OtherwiseValid (onInbound .applied).tables (second ids) fresh :=
    fun ids hids => ⟨hemail, hids, nofun, rfl⟩
  obtain ⟨hsucceeds, -, hrows⟩ := create_inbounds_exact.2 _ _ _ 0 (hvalid ["i", "i"] (by decide))
  obtain ⟨-, hrejects, -⟩ := create_inbounds_exact.2 _ _ _ 0 (hvalid ["i", "j"] (by decide))
  have hreturns : Returns (create (second ["i", "i"]) fresh 0) (onInbound .applied) _ _ := rfl
  exact ⟨hsucceeds.2 (by decide), hrejects (by decide), _, _, hreturns, hrows _ _ hreturns⟩

/-! ## Replacing the set -/

/-- The user has an assignment to the inbound that is no tombstone. -/
def HasLive (t : Tables) (userID inboundID : ID) : Prop :=
  ∃ r ∈ t.userInbounds, r.userID = userID ∧ r.inboundID = inboundID ∧ r.syncStatus ≠ .removing

theorem hasLive_iff (ht : t.Valid) {userID inboundID : ID} :
    HasLive t userID inboundID ↔
      ∃ r, assignment t userID inboundID = some r ∧ r.syncStatus ≠ .removing := by
  constructor
  · rintro ⟨r, hr, huser, hinbound, hs⟩
    exact ⟨r, ht.assignment_eq_some.2 ⟨hr, huser, hinbound⟩, hs⟩
  · rintro ⟨r, hr, hs⟩
    obtain ⟨hr, huser, hinbound⟩ := ht.assignment_eq_some.1 hr
    exact ⟨r, hr, huser, hinbound, hs⟩

/-- After the set is replaced, the live inbounds are those of the list without a tombstone. -/
theorem live_setAssignmentsForUserTx (ht : t.Valid) (ht' : t'.Valid) {userID inboundID : ID}
    (h : setAssignmentsForUserTx t userID (some ids) = .ok t') :
    HasLive t' userID inboundID ↔ inboundID ∈ ids ∧
      ∀ r ∈ t.userInbounds, r.userID = userID → r.inboundID = inboundID →
        r.syncStatus ≠ .removing := by
  rw [hasLive_iff ht', assignment_setAssignmentsForUserTx h, if_pos rfl, Slice.elems_some,
    Slice.excludes_some]
  have hold : (∀ r ∈ t.userInbounds, r.userID = userID → r.inboundID = inboundID →
      r.syncStatus ≠ .removing) ↔ ∀ r, assignment t userID inboundID = some r →
        r.syncStatus ≠ .removing := by
    simp only [ht.assignment_eq_some, and_imp]
  rw [hold]
  -- a listed row stays as it is, and a missing one is inserted; any other becomes a tombstone
  by_cases hlisted : inboundID ∈ ids
  · rw [if_pos hlisted]
    cases hrow : assignment t userID inboundID with
    | none => simp [hlisted]
    | some r => simp [hlisted]
  · rw [if_neg hlisted, if_pos (decide_eq_true hlisted)]
    simp only [hlisted, false_and, iff_false]
    rintro ⟨r, hr, hs⟩
    obtain ⟨old, -, rfl⟩ := Option.map_eq_some_iff.1 hr
    exact hs rfl

/-- A nil list tombstones nothing and inserts nothing. -/
theorem setAssignmentsForUserTx_nil (t : Tables) (userID : ID) :
    setAssignmentsForUserTx t userID none = .ok t := by
  have hsame : tombstoneOthersTx t userID none = t := by
    unfold tombstoneOthersTx
    rw [updateWhere_eq_self_iff.2 fun r _ h => absurd (of_decide_eq_true h).2 Bool.false_ne_true]
  unfold setAssignmentsForUserTx
  rw [hsame]
  rfl

/-- The rows of other users are left alone. -/
theorem other_setAssignmentsForUserTx (ht : t.Valid) (ht' : t'.Valid) {userID : ID} {ids : Slice ID}
    (h : setAssignmentsForUserTx t userID ids = .ok t') {r : UserInbound} (hr : r.userID ≠ userID) :
    r ∈ t'.userInbounds ↔ r ∈ t.userInbounds := by
  have hsome : ∀ {s : Tables}, s.Valid →
      (r ∈ s.userInbounds ↔ assignment s r.userID r.inboundID = some r) := by
    intro s hs
    rw [hs.assignment_eq_some]
    exact ⟨fun hmem => ⟨hmem, rfl, rfl⟩, And.left⟩
  rw [hsome ht', hsome ht, assignment_setAssignmentsForUserTx h, if_neg hr]

/-- `SetInbounds` sets exactly the given set if and only if no listed inbound has a tombstone left
and, should the list be nil, all rows of the user are tombstones. -/
theorem setInbounds_exact_iff {w w' : World} {id : ID} {ids : Slice ID} {u : User}
    (h : Returns (setInbounds id ids) w u w') :
    ((∀ inboundID, HasLive w'.tables id inboundID ↔ inboundID ∈ ids.elems) ∧
      ∀ r, r.userID ≠ id → (r ∈ w'.tables.userInbounds ↔ r ∈ w.tables.userInbounds)) ↔
    (∀ r ∈ w.tables.userInbounds, r.userID = id → r.inboundID ∈ ids.elems →
        r.syncStatus ≠ .removing) ∧
      (ids = none → ∀ r ∈ w.tables.userInbounds, r.userID = id → r.syncStatus = .removing) := by
  obtain ⟨-, -, -, hset, -⟩ := setInbounds_returns h
  have hothers : ∀ r, r.userID ≠ id →
      (r ∈ w'.tables.userInbounds ↔ r ∈ w.tables.userInbounds) :=
    fun r hr => other_setAssignmentsForUserTx w.db.valid w'.db.valid hset hr
  rw [and_iff_left hothers]
  cases ids with
  | none =>
      rw [setAssignmentsForUserTx_nil, Except.ok.injEq] at hset
      rw [← hset]
      -- the set is that of the live rows there are, and it should be empty
      simp only [Slice.elems_none, List.not_mem_nil, iff_false, false_implies, implies_true,
        true_and, forall_const]
      constructor
      · intro hnone r hr huser
        by_contra hs
        exact hnone r.inboundID ⟨r, hr, huser, rfl, hs⟩
      · rintro hall inboundID ⟨r, hr, huser, -, hs⟩
        exact hs (hall r hr huser)
  | some ids =>
      have hlive : ∀ {inboundID}, HasLive w'.tables id inboundID ↔ _ :=
        live_setAssignmentsForUserTx w.db.valid w'.db.valid hset
      rw [Slice.elems_some, and_iff_left fun hnil => by cases hnil]
      constructor
      · intro hexact r hr huser hlisted
        exact (hlive.1 ((hexact r.inboundID).2 hlisted)).2 r hr huser rfl
      · intro hnone inboundID
        rw [hlive]
        refine ⟨And.left, fun hlisted => ⟨hlisted, fun r hr huser hinbound => ?_⟩⟩
        exact hnone r hr huser (hinbound ▸ hlisted)

theorem setInbounds_exact_applied :
    ∃ u w', Returns (setInbounds "u" (some ["i", "i"])) (onInbound .applied) u w' ∧
      ((∀ inboundID, HasLive w'.tables "u" inboundID ↔ inboundID ∈ ["i", "i"]) ∧
        ∀ r, r.userID ≠ "u" →
          (r ∈ w'.tables.userInbounds ↔ r ∈ (onInbound .applied).tables.userInbounds)) := by
  have h : Returns (setInbounds "u" (some ["i", "i"])) (onInbound .applied) _ _ := rfl
  exact ⟨_, _, h, (setInbounds_exact_iff h).2 ⟨by decide, fun hnil => by cases hnil⟩⟩

/-- The inbound is added again while its removal is pending: the row stays a tombstone. All inbounds
are taken away by a nil list: the row stays live. -/
theorem setInbounds_inexact :
    (∃ u w', Returns (setInbounds "u" (some ["i"])) (onInbound .removing) u w' ∧
      ¬ HasLive w'.tables "u" "i") ∧
    ∃ u w', Returns (setInbounds "u" none) (onInbound .applied) u w' ∧
      HasLive w'.tables "u" "i" := by
  have hremoving : Returns (setInbounds "u" (some ["i"])) (onInbound .removing) _ _ := rfl
  have hnil : Returns (setInbounds "u" none) (onInbound .applied) _ _ := rfl
  refine ⟨⟨_, _, hremoving, ?_⟩, _, _, hnil, ?_⟩
  · unfold HasLive
    decide
  · unfold HasLive
    decide

end XrayApi.Service
