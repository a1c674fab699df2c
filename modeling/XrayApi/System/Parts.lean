import XrayApi.Store.Rows
import XrayApi.System.Site

/-!
# What a step can change

The state of the server has parts: the tables, the keys, the accounts and the counters of the nodes,
the trigger channels, the rate limiter. `SiteStmt.changes` says of a step which of them it can
change, cascades included, and `same_of_siteMay` that it leaves the others as they are, whatever it
answers.
-/

set_option autoImplicit false

namespace XrayApi

open Transition Store

/-- A part of the state of the server. -/
inductive Part
  | nodes
  | inbounds
  | plans
  | users
  | userInbounds
  | trafficSnapshots
  | webhookEvents
  | apiKeys
  | accounts
  | traffic
  | reconcileCh
  | limiter
  deriving DecidableEq, Repr

/-- The key, whenever it was used. -/
def Store.APIKey.unused (k : APIKey) : APIKey := { k with lastUsedAt := none }

/-- Both states have the same part. The time at which a key was last used does not count. -/
def Same (σ σ' : Site) : Part → Prop
  | .nodes => σ'.tables.nodes = σ.tables.nodes
  | .inbounds => σ'.tables.inbounds = σ.tables.inbounds
  | .plans => σ'.tables.plans = σ.tables.plans
  | .users => σ'.tables.users = σ.tables.users
  | .userInbounds => σ'.tables.userInbounds = σ.tables.userInbounds
  | .trafficSnapshots => σ'.tables.trafficSnapshots = σ.tables.trafficSnapshots
  | .webhookEvents => σ'.tables.webhookEvents = σ.tables.webhookEvents
  | .apiKeys => σ'.apiKeys.rows.map APIKey.unused = σ.apiKeys.rows.map APIKey.unused
  | .accounts => σ'.world.accounts = σ.world.accounts
  | .traffic => σ'.world.traffic = σ.world.traffic
  | .reconcileCh => σ'.world.reconcileCh = σ.world.reconcileCh
  | .limiter => σ'.limiter = σ.limiter

theorem Same.refl (σ : Site) (part : Part) : Same σ σ part := by
  cases part <;> exact rfl

theorem Same.trans {σ σ' σ'' : Site} {part : Part} (h : Same σ σ' part) (h' : Same σ' σ'' part) :
    Same σ σ'' part := by
  cases part <;> exact Eq.trans h' h

/-! ## Tables -/

namespace Store

/-- The tables that a call can change. -/
def StoreCall.changes : StoreCall → List Part
  | createPlan _ => [.plans]
  | updatePlan _ => [.plans]
  | deletePlan _ => [.plans, .users]
  | createNode _ => [.nodes]
  | updateNode _ => [.nodes]
  | deleteNode _ => [.nodes, .inbounds, .userInbounds, .trafficSnapshots]
  | setNodeHealth _ _ _ _ => [.nodes]
  | updateInbound _ => [.inbounds]
  | deleteInbound _ => [.inbounds, .userInbounds]
  | createWithAssignmentsTx _ _ => [.users, .userInbounds]
  | updateUser _ => [.users]
  | setUserStatus _ _ => [.users]
  | resetTraffic _ => [.users]
  | deleteUser _ => [.users, .userInbounds, .trafficSnapshots]
  | expireDueUsers _ => [.users]
  | recordWebhookEvent _ _ => [.webhookEvents]
  | markAssignmentSynced _ _ _ _ => [.userInbounds]
  | markAssignmentsRemovingForUser _ => [.userInbounds]
  | deleteAssignment _ _ => [.userInbounds]
  | setAssignmentsForUserTx _ _ => [.userInbounds]
  | applyTrafficDeltas _ _ _ => [.users, .trafficSnapshots]
  | _ => []

/-- `t'` has every table of `t` but those listed. -/
structure Frame (parts : List Part) (t t' : Tables) : Prop where
  nodes : .nodes ∉ parts → t'.nodes = t.nodes
  inbounds : .inbounds ∉ parts → t'.inbounds = t.inbounds
  plans : .plans ∉ parts → t'.plans = t.plans
  users : .users ∉ parts → t'.users = t.users
  userInbounds : .userInbounds ∉ parts → t'.userInbounds = t.userInbounds
  trafficSnapshots : .trafficSnapshots ∉ parts → t'.trafficSnapshots = t.trafficSnapshots
  webhookEvents : .webhookEvents ∉ parts → t'.webhookEvents = t.webhookEvents

section Frames

variable {parts : List Part} {t t' t'' : Tables}

theorem Frame.refl (parts : List Part) (t : Tables) : Frame parts t t :=
  ⟨fun _ => rfl, fun _ => rfl, fun _ => rfl, fun _ => rfl, fun _ => rfl, fun _ => rfl, fun _ => rfl⟩

theorem Frame.trans (h : Frame parts t t') (h' : Frame parts t' t'') : Frame parts t t'' where
  nodes hp := (h'.nodes hp).trans (h.nodes hp)
  inbounds hp := (h'.inbounds hp).trans (h.inbounds hp)
  plans hp := (h'.plans hp).trans (h.plans hp)
  users hp := (h'.users hp).trans (h.users hp)
  userInbounds hp := (h'.userInbounds hp).trans (h.userInbounds hp)
  trafficSnapshots hp := (h'.trafficSnapshots hp).trans (h.trafficSnapshots hp)
  webhookEvents hp := (h'.webhookEvents hp).trans (h.webhookEvents hp)

theorem Frame.mono {parts' : List Part} (hparts : parts ⊆ parts') (h : Frame parts t t') :
    Frame parts' t t' where
  nodes hp := h.nodes fun hmem => hp (hparts hmem)
  inbounds hp := h.inbounds fun hmem => hp (hparts hmem)
  plans hp := h.plans fun hmem => hp (hparts hmem)
  users hp := h.users fun hmem => hp (hparts hmem)
  userInbounds hp := h.userInbounds fun hmem => hp (hparts hmem)
  trafficSnapshots hp := h.trafficSnapshots fun hmem => hp (hparts hmem)
  webhookEvents hp := h.webhookEvents fun hmem => hp (hparts hmem)

theorem frame_foldlM {α : Type} {f : Tables → α → Except StoreErr Tables}
    (hf : ∀ t a t', f t a = .ok t' → Frame parts t t') (l : List α) (h : l.foldlM f t = .ok t') :
    Frame parts t t' :=
  foldlM_invariant (I := Frame parts t) (fun _ a _ hs hstep => hs.trans (hf _ a _ hstep)) l
    (Frame.refl parts t) h

theorem frame_addAssignmentTx {userID inboundID : ID}
    (h : addAssignmentTx t userID inboundID = .ok t') : Frame [.userInbounds] t t' := by
  obtain ⟨-, rfl⟩ | ⟨-, -, -, rfl⟩ := addAssignmentTx_eq_ok h
  · constructor <;> simp
  · constructor <;> simp

theorem frame_createWithAssignmentsTx {u : User} {ids : List ID}
    (h : createWithAssignmentsTx t u ids = .ok t') : Frame [.users, .userInbounds] t t' := by
  unfold createWithAssignmentsTx at h
  cases hc : createUserTx t u with
  | error e =>
      rw [hc] at h
      cases h
  | ok t₁ =>
      rw [hc] at h
      obtain ⟨-, -, rfl⟩ := createUserTx_eq_ok hc
      have hinsert :
          Frame [.users, .userInbounds] t { t with users := t.users ++ [zeroUsage u] } := by
        constructor <;> simp
      exact hinsert.trans ((frame_foldlM (fun _ _ _ => frame_addAssignmentTx) ids h).mono (by simp))

theorem frame_applyTrafficDeltas {nodeID : ID} {deltas : List TrafficDelta} {collectedAt : Time}
    {ids : List ID} (h : applyTrafficDeltas t nodeID deltas collectedAt = .ok (ids, t')) :
    Frame [.users, .trafficSnapshots] t t' := by
  obtain ⟨t₁, hloop, -, -, rfl⟩ := applyTrafficDeltas_inv h
  refine (frame_foldlM (fun t d t' hd => ?_) deltas hloop).trans ?_
  · obtain ⟨-, -, rfl⟩ | ⟨-, -, -, -, rfl⟩ := applyDeltaTx_eq_ok hd
    · exact Frame.refl _ _
    · constructor <;> simp
  · constructor <;> simp

/-- A call changes the tables it lists only. -/
theorem frame_apply {q : StoreCall} {o : q.Out} (h : q.apply t = .ok (o, t')) :
    Frame q.changes t t' := by
  by_cases hq : q.isWrite = false
  · rw [StoreCall.apply_of_isWrite_eq_false hq h]
    exact Frame.refl _ _
  · cases q with
    | createPlan p =>
        obtain ⟨-, -, rfl⟩ := createPlan_eq_ok (StoreCall.wrote_eq_ok.1 h)
        constructor <;> simp [StoreCall.changes]
    | updatePlan p =>
        obtain ⟨-, -, rfl⟩ := updatePlan_eq_ok (StoreCall.wrote_eq_ok.1 h)
        constructor <;> simp [StoreCall.changes]
    | deletePlan id =>
        obtain ⟨-, hok⟩ := requirePlan_eq_ok.1 (StoreCall.wrote_eq_ok.1 h)
        cases hok
        constructor <;> simp [StoreCall.changes]
    | createNode n =>
        obtain ⟨-, -, rfl⟩ := createNode_eq_ok (StoreCall.wrote_eq_ok.1 h)
        constructor <;> simp [StoreCall.changes]
    | updateNode n =>
        obtain ⟨-, -, rfl⟩ := updateNode_eq_ok (StoreCall.wrote_eq_ok.1 h)
        constructor <;> simp [StoreCall.changes]
    | deleteNode id =>
        obtain ⟨-, hok⟩ := requireNode_eq_ok.1 (StoreCall.wrote_eq_ok.1 h)
        cases hok
        constructor <;> simp [StoreCall.changes]
    | setNodeHealth id status lastErr seenAt =>
        obtain ⟨-, rfl⟩ := setNodeHealth_eq_ok (StoreCall.wrote_eq_ok.1 h)
        constructor <;> simp [StoreCall.changes]
    | updateInbound ib =>
        obtain ⟨-, -, rfl⟩ := updateInbound_eq_ok (StoreCall.wrote_eq_ok.1 h)
        constructor <;> simp [StoreCall.changes]
    | deleteInbound id =>
        obtain ⟨-, hok⟩ := requireInbound_eq_ok.1 (StoreCall.wrote_eq_ok.1 h)
        cases hok
        constructor <;> simp [StoreCall.changes]
    | createWithAssignmentsTx u ids =>
        exact frame_createWithAssignmentsTx (StoreCall.wrote_eq_ok.1 h)
    | updateUser u =>
        obtain ⟨-, -, -, rfl⟩ := updateUser_eq_ok (StoreCall.wrote_eq_ok.1 h)
        constructor <;> simp [StoreCall.changes]
    | setUserStatus id status =>
        obtain ⟨-, hok⟩ := requireUser_eq_ok.1 (StoreCall.wrote_eq_ok.1 h)
        cases hok
        constructor <;> simp [StoreCall.changes]
    | resetTraffic id =>
        obtain ⟨-, hok⟩ := requireUser_eq_ok.1 (StoreCall.wrote_eq_ok.1 h)
        cases hok
        constructor <;> simp [StoreCall.changes]
    | deleteUser id =>
        obtain ⟨-, hok⟩ := requireUser_eq_ok.1 (StoreCall.wrote_eq_ok.1 h)
        cases hok
        constructor <;> simp [StoreCall.changes]
    | expireDueUsers now =>
        cases h
        constructor <;> simp [StoreCall.changes]
    | recordWebhookEvent eventID action =>
        obtain rfl : (recordWebhookEvent t eventID action).2 = t' :=
          congrArg Prod.snd (Except.ok.inj h)
        unfold recordWebhookEvent
        split_ifs with hseen
        · exact Frame.refl _ _
        · constructor <;> simp [StoreCall.changes]
    | markAssignmentSynced userID inboundID status errMsg =>
        cases h
        constructor <;> simp [StoreCall.changes, markAssignmentSynced]
    | markAssignmentsRemovingForUser userID =>
        cases h
        constructor <;> simp [StoreCall.changes, markAssignmentsRemovingForUser]
    | deleteAssignment userID inboundID =>
        cases h
        constructor <;> simp [StoreCall.changes, deleteAssignment]
    | setAssignmentsForUserTx userID ids =>
        have htomb : Frame [.userInbounds] t (tombstoneOthersTx t userID ids) := by
          constructor <;> simp [tombstoneOthersTx]
        exact htomb.trans
          (frame_foldlM (fun _ _ _ => frame_addAssignmentTx) ids.elems (StoreCall.wrote_eq_ok.1 h))
    | applyTrafficDeltas nodeID deltas collectedAt => exact frame_applyTrafficDeltas h
    | _ => exact (hq rfl).elim

/-- A store call other than a deletion keeps the users and adds one at most. -/
theorem userIDs_apply {q : StoreCall} {o : q.Out} (hq : ∀ id, q ≠ .deleteUser id)
    (h : q.apply t = .ok (o, t')) :
    t'.users.map User.id = t.users.map User.id ∨
      ∃ id, t'.users.map User.id = t.users.map User.id ++ [id] := by
  by_cases hchanges : .users ∈ q.changes
  · cases q with
    | deleteUser id => exact (hq id rfl).elim
    | createWithAssignmentsTx u ids =>
        obtain ⟨-, -, husers⟩ := createWithAssignmentsTx_eq_ok (StoreCall.wrote_eq_ok.1 h)
        refine Or.inr ⟨u.id, ?_⟩
        rw [husers, List.map_append]
        rfl
    | deletePlan id =>
        obtain ⟨-, hok⟩ := requirePlan_eq_ok.1 (StoreCall.wrote_eq_ok.1 h)
        cases hok
        refine Or.inl ?_
        rw [List.map_map]
        exact List.map_congr_left fun _ _ => rfl
    | updateUser u =>
        refine Or.inl (map_id_of_map ?_ (updateUser_users (StoreCall.wrote_eq_ok.1 h)))
        exact onRow_id fun _ => rfl
    | setUserStatus id status =>
        refine Or.inl (map_id_of_map ?_ (setUserStatus_users (StoreCall.wrote_eq_ok.1 h)))
        exact onRow_id fun _ => rfl
    | resetTraffic id =>
        refine Or.inl (map_id_of_map ?_ (resetTraffic_users (StoreCall.wrote_eq_ok.1 h)))
        exact onRow_id fun _ => rfl
    | expireDueUsers now =>
        cases h
        refine Or.inl (map_id_of_map (fun r => ?_) (expireDueUsers_users now))
        unfold expireDue
        split_ifs <;> rfl
    | applyTrafficDeltas nodeID deltas collectedAt =>
        exact Or.inl (map_id_of_map (chargeAll_id deltas) (applyTrafficDeltas_users h))
    | _ => exact absurd hchanges (by simp [StoreCall.changes])
  · rw [(frame_apply h).users hchanges]
    exact Or.inl rfl

end Frames

end Store

/-! ## Steps -/

/-- The parts that a step of the services can change. -/
def Stmt.changes : Stmt → List Part
  | .db q => q.changes
  | .dial _ => []
  | .removeUser _ _ _ => [.accounts]
  | .addUser _ _ _ => [.accounts]
  | .queryUserTraffic _ => [.traffic]
  | .ping _ => []
  | .trigger _ => [.reconcileCh]
  | .startNode _ => [.reconcileCh]
  | .stopNode _ => [.reconcileCh]

def Store.AdminCall.changes : AdminCall → List Part
  | createAPIKey _ => [.apiKeys]
  | revokeAPIKey _ _ => [.apiKeys]
  | createInbound _ => [.inbounds]
  | pruneSnapshots _ => [.trafficSnapshots]
  | _ => []

def SiteStmt.changes : SiteStmt → List Part
  | .core s => s.changes
  | .admin q => q.changes
  | .allow _ _ => [.limiter]

section Steps

variable {σ σ' : Site} {part : Part}

/-- Two states with the same database and the same keys, up to the parts listed. -/
theorem same_of_frame {parts : List Part} (htables : Frame parts σ.tables σ'.tables)
    (hkeys : .apiKeys ∉ parts → Same σ σ' .apiKeys)
    (hworld : σ'.world.accounts = σ.world.accounts ∧ σ'.world.traffic = σ.world.traffic ∧
      σ'.world.reconcileCh = σ.world.reconcileCh)
    (hlimiter : .limiter ∉ parts → σ'.limiter = σ.limiter) (hpart : part ∉ parts) :
    Same σ σ' part := by
  cases part with
  | nodes => exact htables.nodes hpart
  | inbounds => exact htables.inbounds hpart
  | plans => exact htables.plans hpart
  | users => exact htables.users hpart
  | userInbounds => exact htables.userInbounds hpart
  | trafficSnapshots => exact htables.trafficSnapshots hpart
  | webhookEvents => exact htables.webhookEvents hpart
  | apiKeys => exact hkeys hpart
  | accounts => exact hworld.1
  | traffic => exact hworld.2.1
  | reconcileCh => exact hworld.2.2
  | limiter => exact hlimiter hpart

/-- A step that does not fail moves to the state of `exec`, whatever the order of its rows. -/
theorem eq_exec_of_answers {s : Stmt} {r : s.Res} {w w' : World} (h : Answers s w r w') :
    w' = (exec s w).2 := by
  cases s with
  | db q => exact h.1
  | _ => exact (congrArg Prod.snd h).symm

theorem same_exec {s : Stmt} {created : ID → Time} (hpart : part ∉ s.changes) :
    Same σ { σ with world := (exec s σ.world).2, createdAt := created } part := by
  cases s with
  | db q =>
      have htables : Frame q.changes σ.tables (σ.world.db.exec q).2.tables := by
        obtain ⟨e, -, hexec⟩ | ⟨o, t, happly, -, ht⟩ := σ.world.db.exec_cases q
        · rw [hexec]
          exact Frame.refl _ _
        · rw [ht]
          exact frame_apply happly
      exact same_of_frame htables (fun _ => Same.refl σ .apiKeys) ⟨rfl, rfl, rfl⟩ (fun _ => rfl)
        hpart
  | dial n | ping n => exact Same.refl σ part
  | removeUser n tag email | addUser n tag acc | queryUserTraffic n | trigger n | startNode n
  | stopNode n =>
      cases part <;> first | exact rfl | exact (hpart List.mem_cons_self).elim

/-- What a step finds at a node is part of what it may change. -/
theorem same_of_finds {s : Stmt} {w : World} (h : Finds s σ.world w) (hpart : part ∉ s.changes) :
    Same σ { σ with world := w } part := by
  cases s with
  | removeUser n tag email | addUser n tag acc | queryUserTraffic n =>
      obtain ⟨_, rfl⟩ := h
      cases part <;> first | exact rfl | exact (hpart List.mem_cons_self).elim
  | ping n =>
      obtain ⟨_, rfl⟩ := h
      cases part <;> exact rfl
  | db q | dial n | trigger n | startNode n | stopNode n =>
      obtain rfl : w = σ.world := h
      exact Same.refl σ part

/-- Looking a key up changes the time of its last use only. -/
theorem same_findByHash {hash : String} {now : Time} {k : APIKey} {t' : APIKeys}
    (h : σ.apiKeys.findByHash hash now = .ok (k, t')) :
    Same σ { σ with apiKeys := t' } .apiKeys := by
  change t'.rows.map APIKey.unused = σ.apiKeys.rows.map APIKey.unused
  rw [(APIKeys.findByHash_eq_ok h).2.2]
  refine Relational.map_updateWhere _ _ _ ?_ _
  exact fun _ _ => rfl

theorem same_archive {q : AdminCall} (hpart : part ∉ q.changes) :
    Same σ (σ.withArchive (Archive.exec q σ.archive).2) part := by
  cases q with
  | createAPIKey k | revokeAPIKey id now =>
      unfold Archive.exec Archive.writesKeys
      dsimp only
      split
      · exact Same.refl σ part
      · exact same_of_frame (Frame.refl _ _) (fun h => (h List.mem_cons_self).elim)
          ⟨rfl, rfl, rfl⟩ (fun _ => rfl) hpart
  | findAPIKeyByHash hash now =>
      unfold Archive.exec
      dsimp only
      split
      · exact Same.refl σ part
      · next k t ht =>
          exact same_of_frame (Frame.refl _ _) (fun _ => same_findByHash ht) ⟨rfl, rfl, rfl⟩
            (fun _ => rfl) hpart
  | createInbound ib =>
      unfold Archive.exec
      dsimp only
      split
      · exact Same.refl σ part
      · next t ht =>
          obtain ⟨-, -, -, rfl⟩ := createInbound_eq_ok ht
          refine same_of_frame ?_ (fun _ => Same.refl σ .apiKeys)
            ⟨rfl, rfl, rfl⟩ (fun _ => rfl) hpart
          constructor <;> simp [AdminCall.changes, Site.withArchive, Site.archive]
  | pruneSnapshots before =>
      refine same_of_frame ?_ (fun _ => Same.refl σ .apiKeys)
        ⟨rfl, rfl, rfl⟩ (fun _ => rfl) hpart
      constructor <;> simp [AdminCall.changes, Archive.exec, Site.withArchive, Site.archive,
        pruneSnapshots]
  | listAPIKeys | listInboundsByNode nodeID | listPlans | countUsers f | selectUsers f
  | userUsage userID since upto groupBy => exact Same.refl σ part

/-- A step leaves every part it does not list as it is. -/
theorem same_of_siteMay {s : SiteStmt} {r : s.Res} (h : SiteMay s σ r σ')
    (hpart : part ∉ s.changes) : Same σ σ' part := by
  cases s with
  | core s =>
      obtain ⟨w', created, ⟨w₀, hfinds, hmay⟩, -, rfl⟩ := h
      refine (same_of_finds hfinds hpart).trans ?_
      obtain hanswer | ⟨rfl, -⟩ := mayFail_cases hmay
      · rw [eq_exec_of_answers hanswer]
        exact same_exec (σ := { σ with world := w₀ }) hpart
      · cases part <;> exact rfl
  | admin q =>
      obtain ⟨-, rfl⟩ | ⟨text, -, rfl⟩ := h
      · exact same_archive hpart
      · exact Same.refl σ' part
  | allow ip now =>
      obtain rfl : (siteExec (.allow ip now) σ).2 = σ' := congrArg Prod.snd h
      rw [siteExec]
      split
      · exact Same.refl σ part
      · exact same_of_frame (Frame.refl _ _) (fun _ => Same.refl σ .apiKeys)
          ⟨rfl, rfl, rfl⟩ (fun h => (h List.mem_cons_self).elim) hpart

end Steps

end XrayApi
