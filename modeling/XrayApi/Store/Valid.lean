import XrayApi.Store.Queries

/-!
# The statements keep the constraints

Every write of `Store.Queries` that succeeds leaves valid tables. Writes that touch no constrained
column go through `Tables.Valid.updateUsers` and `Tables.Valid.updateAssignments`.
-/

set_option autoImplicit false

namespace XrayApi.Store

open XrayApi.Relational

variable {t t' : Tables}

/-- A change of a user row that leaves the constrained columns alone. -/
structure KeepsKeys (f : User → User) : Prop where
  id : ∀ r, (f r).id = r.id
  email : ∀ r, (f r).email = r.email
  uuid : ∀ r, (f r).uuid = r.uuid
  trojanPassword : ∀ r, (f r).trojanPassword = r.trojanPassword
  planID : ∀ r, (f r).planID = r.planID
  subToken : ∀ r, (f r).subToken = r.subToken
  externalID : ∀ r, (f r).externalID = r.externalID

theorem Tables.Valid.updateUsers (h : t.Valid) (p : User → Bool) {f : User → User}
    (hf : KeepsKeys f) : Tables.Valid { t with users := updateWhere p f t.users } := by
  have hids : (updateWhere p f t.users).map User.id = t.users.map User.id :=
    map_updateWhere p f User.id (fun r _ => hf.id r) t.users
  exact {
    h with
    users_id := by rw [hids]; exact h.users_id
    users_email := by
      rw [map_updateWhere p f User.email fun r _ => hf.email r]
      exact h.users_email
    users_uuid := by
      rw [map_updateWhere p f User.uuid fun r _ => hf.uuid r]
      exact h.users_uuid
    users_trojanPassword := by
      rw [map_updateWhere p f User.trojanPassword fun r _ => hf.trojanPassword r]
      exact h.users_trojanPassword
    users_subToken := by
      rw [map_updateWhere p f User.subToken fun r _ => hf.subToken r]
      exact h.users_subToken
    users_externalID := by
      unfold UniqueNonNull
      rw [filterMap_updateWhere p f User.externalID fun r _ => hf.externalID r]
      exact h.users_externalID
    users_plan := by
      intro u hu q hq
      obtain ⟨r, hr, rfl⟩ := mem_updateWhere.1 hu
      have hplan : (if p r then f r else r).planID = r.planID := by
        split
        · exact hf.planID r
        · rfl
      rw [hplan] at hq
      exact h.users_plan r hr q hq
    userInbounds_user := by
      intro r hr
      rw [hids]
      exact h.userInbounds_user r hr
    trafficSnapshots_user := by
      intro r hr
      rw [hids]
      exact h.trafficSnapshots_user r hr }

theorem Tables.Valid.updateAssignments (h : t.Valid) (p : UserInbound → Bool)
    {f : UserInbound → UserInbound} (hu : ∀ r, (f r).userID = r.userID)
    (hi : ∀ r, (f r).inboundID = r.inboundID) :
    Tables.Valid { t with userInbounds := updateWhere p f t.userInbounds } := by
  have hrow : ∀ r : UserInbound, (if p r then f r else r).userID = r.userID ∧
      (if p r then f r else r).inboundID = r.inboundID := by
    intro r
    split
    · exact ⟨hu r, hi r⟩
    · exact ⟨rfl, rfl⟩
  exact {
    h with
    userInbounds_key := by
      rw [map_updateWhere p f (fun r => (r.userID, r.inboundID)) fun r _ => by rw [hu, hi]]
      exact h.userInbounds_key
    userInbounds_user := by
      intro r hr
      obtain ⟨s, hs, rfl⟩ := mem_updateWhere.1 hr
      rw [(hrow s).1]
      exact h.userInbounds_user s hs
    userInbounds_inbound := by
      intro r hr
      obtain ⟨s, hs, rfl⟩ := mem_updateWhere.1 hr
      rw [(hrow s).2]
      exact h.userInbounds_inbound s hs }

/-! ## Inserts -/

/-- What an insert without a conflict knows about the other rows. -/
theorem insertConflict_eq_none {rows : List User} {u : User} (h : insertConflict rows u = none) :
    u.id ∉ rows.map User.id ∧ u.email ∉ rows.map User.email ∧ u.uuid ∉ rows.map User.uuid ∧
      u.trojanPassword ∉ rows.map User.trojanPassword ∧ u.subToken ∉ rows.map User.subToken ∧
      ∀ x, u.externalID = some x → x ∉ rows.filterMap User.externalID := by
  unfold insertConflict at h
  split_ifs at h with h₁ h₂ h₃ h₄ h₅ h₆
  refine ⟨h₁, h₂, h₃, h₄, h₅, fun x hx hmem => h₆ ⟨x, hx, hmem⟩⟩

theorem createUserTx_eq_ok {u : User} (h : createUserTx t u = .ok t') :
    insertConflict t.users u = none ∧ planExists t u = true ∧
      t' = { t with
        users := t.users ++ [{ u with usedUploadBytes := 0, usedDownloadBytes := 0 }] } := by
  unfold createUserTx at h
  cases hc : insertConflict t.users u with
  | some c => simp [hc] at h
  | none =>
      simp only [hc] at h
      split_ifs at h with hp
      cases h
      exact ⟨rfl, hp, rfl⟩

theorem createUserTx_valid {u : User} (ht : t.Valid) (h : createUserTx t u = .ok t') :
    t'.Valid := by
  obtain ⟨hc, hp, rfl⟩ := createUserTx_eq_ok h
  obtain ⟨h₁, h₂, h₃, h₄, h₅, h₆⟩ := insertConflict_eq_none hc
  have hsub : ∀ x ∈ t.users.map User.id,
      x ∈ (t.users ++ [{ u with usedUploadBytes := 0, usedDownloadBytes := 0 }]).map User.id := by
    intro x hx
    rw [List.map_append]
    exact List.mem_append_left _ hx
  exact {
    ht with
    users_id := nodup_map_append_singleton ht.users_id h₁
    users_email := nodup_map_append_singleton ht.users_email h₂
    users_uuid := nodup_map_append_singleton ht.users_uuid h₃
    users_trojanPassword := nodup_map_append_singleton ht.users_trojanPassword h₄
    users_subToken := nodup_map_append_singleton ht.users_subToken h₅
    users_externalID := ht.users_externalID.append_singleton h₆
    users_plan := by
      intro v hv q hq
      rcases List.mem_append.1 hv with hv | hv
      · exact ht.users_plan v hv q hq
      · rw [List.mem_singleton] at hv
        subst hv
        exact of_decide_eq_true hp q hq
    userInbounds_user := fun r hr => hsub _ (ht.userInbounds_user r hr)
    trafficSnapshots_user := fun r hr => hsub _ (ht.trafficSnapshots_user r hr) }

/-- An assignment is there already, or is inserted as pending. -/
theorem addAssignmentTx_eq_ok {userID inboundID : ID}
    (h : addAssignmentTx t userID inboundID = .ok t') :
    ((userID, inboundID) ∈ t.userInbounds.map (fun r => (r.userID, r.inboundID)) ∧ t' = t) ∨
      ((userID, inboundID) ∉ t.userInbounds.map (fun r => (r.userID, r.inboundID)) ∧
        userID ∈ t.users.map User.id ∧ inboundID ∈ t.inbounds.map Inbound.id ∧
        t' = { t with
          userInbounds := t.userInbounds ++ [⟨userID, inboundID, .pending, ""⟩] }) := by
  unfold addAssignmentTx at h
  split_ifs at h with h₁ h₂ h₃
  · cases h
    exact Or.inl ⟨h₁, rfl⟩
  · cases h
    exact Or.inr ⟨h₁, h₂, h₃, rfl⟩

theorem addAssignmentTx_valid {userID inboundID : ID} (ht : t.Valid)
    (h : addAssignmentTx t userID inboundID = .ok t') : t'.Valid := by
  obtain ⟨-, rfl⟩ | ⟨hnew, hu, hi, rfl⟩ := addAssignmentTx_eq_ok h
  · exact ht
  · exact {
      ht with
      userInbounds_key := nodup_map_append_singleton ht.userInbounds_key hnew
      userInbounds_user := by
        intro r hr
        rcases List.mem_append.1 hr with hr | hr
        · exact ht.userInbounds_user r hr
        · rw [List.mem_singleton] at hr
          subst hr
          exact hu
      userInbounds_inbound := by
        intro r hr
        rcases List.mem_append.1 hr with hr | hr
        · exact ht.userInbounds_inbound r hr
        · rw [List.mem_singleton] at hr
          subst hr
          exact hi }

/-- What every round of a transaction loop keeps, the loop keeps. -/
theorem foldlM_invariant {α : Type} {I : Tables → Prop} {f : Tables → α → Except StoreErr Tables}
    (hf : ∀ t a t', I t → f t a = .ok t' → I t') (l : List α) (ht : I t)
    (h : l.foldlM f t = .ok t') : I t' := by
  induction l generalizing t with
  | nil =>
      cases h
      exact ht
  | cons a l ih =>
      rw [List.foldlM_cons] at h
      cases ha : f t a with
      | error e => rw [ha] at h; cases h
      | ok t₁ =>
          rw [ha] at h
          exact ih (hf t a t₁ ht ha) h

theorem createWithAssignmentsTx_valid {u : User} {ids : List ID} (ht : t.Valid)
    (h : createWithAssignmentsTx t u ids = .ok t') : t'.Valid := by
  unfold createWithAssignmentsTx at h
  cases hc : createUserTx t u with
  | error e => rw [hc] at h; cases h
  | ok t₁ =>
      rw [hc] at h
      exact foldlM_invariant (fun _ _ _ h₁ h₂ => addAssignmentTx_valid h₁ h₂) ids
        (createUserTx_valid ht hc) h

/-! ## Updates and deletes of users -/

theorem requireUser_eq_ok {id : ID} {r : Except StoreErr Tables} :
    requireUser t id r = .ok t' ↔ id ∈ t.users.map User.id ∧ r = .ok t' := by
  unfold requireUser
  split_ifs with h
  · simp [h]
  · simp [h]

theorem updateConflict_eq_none {rows : List User} {u : User} (h : updateConflict rows u = none) :
    (∀ r ∈ rows, r.id ≠ u.id → r.subToken ≠ u.subToken) ∧
      ∀ r ∈ rows, r.id ≠ u.id → ∀ x, u.externalID = some x → r.externalID ≠ some x := by
  unfold updateConflict at h
  split_ifs at h with h₁ h₂
  refine ⟨fun r hr hne heq => h₁ ⟨r, hr, hne, heq⟩, fun r hr hne x hx heq => ?_⟩
  exact h₂ ⟨r, hr, hne, x, hx, heq⟩

theorem updateUser_eq_ok {u : User} (h : updateUser t u = .ok t') :
    u.id ∈ t.users.map User.id ∧ updateConflict t.users u = none ∧ planExists t u = true ∧
      t' = { t with users := updateWhere (fun r => decide (r.id = u.id)) (persist u) t.users } := by
  obtain ⟨hid, h⟩ := requireUser_eq_ok.1 h
  cases hc : updateConflict t.users u with
  | some c => simp [hc] at h
  | none =>
      simp only [hc] at h
      split_ifs at h with hp
      cases h
      exact ⟨hid, rfl, hp, rfl⟩

theorem updateUser_valid {u : User} (ht : t.Valid) (h : updateUser t u = .ok t') : t'.Valid := by
  obtain ⟨-, hc, hp, rfl⟩ := updateUser_eq_ok h
  obtain ⟨htok, hext⟩ := updateConflict_eq_none hc
  have hids : (updateWhere (fun r => decide (r.id = u.id)) (persist u) t.users).map User.id =
      t.users.map User.id := map_updateWhere _ (persist u) User.id (fun _ _ => rfl) t.users
  exact {
    ht with
    users_id := by rw [hids]; exact ht.users_id
    users_email := by
      rw [map_updateWhere _ (persist u) User.email fun _ _ => rfl]
      exact ht.users_email
    users_uuid := by
      rw [map_updateWhere _ (persist u) User.uuid fun _ _ => rfl]
      exact ht.users_uuid
    users_trojanPassword := by
      rw [map_updateWhere _ (persist u) User.trojanPassword fun _ _ => rfl]
      exact ht.users_trojanPassword
    users_subToken :=
      nodup_map_updateWhere_one ht.users_id ht.users_subToken
        fun _ _ _ s hs hne heq => htok s hs hne heq.symm
    users_externalID :=
      ht.users_externalID.updateWhere_one ht.users_id
        fun _ _ _ s hs hne x hx => hext s hs hne x hx
    users_plan := by
      intro v hv q hq
      obtain ⟨r, hr, rfl⟩ := mem_updateWhere.1 hv
      by_cases hri : r.id = u.id
      · simp only [hri, decide_true, if_true] at hq
        exact of_decide_eq_true hp q hq
      · simp only [hri, decide_false, Bool.false_eq_true, if_false] at hq
        exact ht.users_plan r hr q hq
    userInbounds_user := by
      intro r hr
      rw [hids]
      exact ht.userInbounds_user r hr
    trafficSnapshots_user := by
      intro r hr
      rw [hids]
      exact ht.trafficSnapshots_user r hr }

theorem setUserStatus_valid {id : ID} {status : UserStatus} (ht : t.Valid)
    (h : setUserStatus t id status = .ok t') : t'.Valid := by
  obtain ⟨-, h⟩ := requireUser_eq_ok.1 h
  cases h
  exact ht.updateUsers _ ⟨fun _ => rfl, fun _ => rfl, fun _ => rfl, fun _ => rfl, fun _ => rfl,
    fun _ => rfl, fun _ => rfl⟩

theorem resetTraffic_valid {id : ID} (ht : t.Valid) (h : resetTraffic t id = .ok t') :
    t'.Valid := by
  obtain ⟨-, h⟩ := requireUser_eq_ok.1 h
  cases h
  exact ht.updateUsers _ ⟨fun _ => rfl, fun _ => rfl, fun _ => rfl, fun _ => rfl, fun _ => rfl,
    fun _ => rfl, fun _ => rfl⟩

theorem expireDueUsers_valid {now : Time} (ht : t.Valid) : (expireDueUsers t now).2.Valid :=
  ht.updateUsers _ ⟨fun _ => rfl, fun _ => rfl, fun _ => rfl, fun _ => rfl, fun _ => rfl,
    fun _ => rfl, fun _ => rfl⟩

theorem deleteUser_valid {id : ID} (ht : t.Valid) (h : deleteUser t id = .ok t') : t'.Valid := by
  obtain ⟨-, h⟩ := requireUser_eq_ok.1 h
  cases h
  have hkeep : ∀ x ∈ t.users.map User.id, x ≠ id →
      x ∈ (t.users.filter fun r => decide (r.id ≠ id)).map User.id := by
    intro x hx hne
    obtain ⟨r, hr, rfl⟩ := List.mem_map.1 hx
    exact List.mem_map_of_mem (List.mem_filter.2 ⟨hr, decide_eq_true hne⟩)
  exact {
    ht with
    users_id := nodup_map_filter ht.users_id _
    users_email := nodup_map_filter ht.users_email _
    users_uuid := nodup_map_filter ht.users_uuid _
    users_trojanPassword := nodup_map_filter ht.users_trojanPassword _
    users_subToken := nodup_map_filter ht.users_subToken _
    users_externalID := ht.users_externalID.filter _
    users_plan := fun v hv => ht.users_plan v (List.mem_filter.1 hv).1
    userInbounds_key := nodup_map_filter ht.userInbounds_key _
    userInbounds_user := by
      intro r hr
      obtain ⟨hr, hne⟩ := List.mem_filter.1 hr
      exact hkeep _ (ht.userInbounds_user r hr) (of_decide_eq_true hne)
    userInbounds_inbound := fun r hr => ht.userInbounds_inbound r (List.mem_filter.1 hr).1
    trafficSnapshots_user := by
      intro r hr
      obtain ⟨hr, hne⟩ := List.mem_filter.1 hr
      exact hkeep _ (ht.trafficSnapshots_user r hr) (of_decide_eq_true hne)
    trafficSnapshots_node := fun r hr => ht.trafficSnapshots_node r (List.mem_filter.1 hr).1 }

/-! ## Plans -/

theorem requirePlan_eq_ok {id : ID} {r : Except StoreErr Tables} :
    requirePlan t id r = .ok t' ↔ id ∈ t.plans.map Plan.id ∧ r = .ok t' := by
  unfold requirePlan
  split_ifs with h
  · simp [h]
  · simp [h]

theorem createPlan_eq_ok {p : Plan} (h : createPlan t p = .ok t') :
    p.id ∉ t.plans.map Plan.id ∧ p.name ∉ t.plans.map Plan.name ∧
      t' = { t with plans := t.plans ++ [p] } := by
  unfold createPlan at h
  split_ifs at h with hint hid hname
  cases h
  exact ⟨hid, hname, rfl⟩

theorem createPlan_valid {p : Plan} (ht : t.Valid) (h : createPlan t p = .ok t') : t'.Valid := by
  obtain ⟨hid, hname, rfl⟩ := createPlan_eq_ok h
  exact {
    ht with
    plans_id := nodup_map_append_singleton ht.plans_id hid
    plans_name := nodup_map_append_singleton ht.plans_name hname
    users_plan := by
      intro u hu q hq
      rw [List.map_append]
      exact List.mem_append_left _ (ht.users_plan u hu q hq) }

theorem updatePlan_eq_ok {p : Plan} (h : updatePlan t p = .ok t') :
    p.id ∈ t.plans.map Plan.id ∧ (∀ r ∈ t.plans, r.id ≠ p.id → r.name ≠ p.name) ∧
      t' = { t with
        plans := updateWhere (fun r => decide (r.id = p.id)) (fun _ => p) t.plans } := by
  unfold updatePlan at h
  split_ifs at h with hint hname
  · obtain ⟨-, h⟩ := requirePlan_eq_ok.1 h
    cases h
  · obtain ⟨hid, h⟩ := requirePlan_eq_ok.1 h
    cases h
    exact ⟨hid, fun r hr hne heq => hname ⟨r, hr, hne, heq⟩, rfl⟩

theorem updatePlan_valid {p : Plan} (ht : t.Valid) (h : updatePlan t p = .ok t') : t'.Valid := by
  obtain ⟨-, hname, rfl⟩ := updatePlan_eq_ok h
  have hids : (updateWhere (fun r => decide (r.id = p.id)) (fun _ => p) t.plans).map Plan.id =
      t.plans.map Plan.id :=
    map_updateWhere _ _ Plan.id (fun r hr => (of_decide_eq_true hr).symm) t.plans
  exact {
    ht with
    plans_id := by rw [hids]; exact ht.plans_id
    plans_name := nodup_map_updateWhere_one ht.plans_id ht.plans_name
      fun _ _ _ s hs hne heq => hname s hs hne heq.symm
    users_plan := by rw [hids]; exact ht.users_plan }

theorem deletePlan_valid {id : ID} (ht : t.Valid) (h : deletePlan t id = .ok t') : t'.Valid := by
  obtain ⟨-, h⟩ := requirePlan_eq_ok.1 h
  cases h
  have hcol : ∀ {κ : Type} (col : User → κ), (∀ r, col (unsetPlan id r) = col r) →
      (t.users.map (unsetPlan id)).map col = t.users.map col := by
    intro κ col hkeep
    rw [List.map_map]
    exact List.map_congr_left fun r _ => hkeep r
  have hids := hcol User.id fun _ => rfl
  exact {
    ht with
    plans_id := nodup_map_filter ht.plans_id _
    plans_name := nodup_map_filter ht.plans_name _
    users_id := by rw [hids]; exact ht.users_id
    users_email := by rw [hcol User.email fun _ => rfl]; exact ht.users_email
    users_uuid := by rw [hcol User.uuid fun _ => rfl]; exact ht.users_uuid
    users_trojanPassword := by
      rw [hcol User.trojanPassword fun _ => rfl]
      exact ht.users_trojanPassword
    users_subToken := by rw [hcol User.subToken fun _ => rfl]; exact ht.users_subToken
    users_externalID := by
      unfold UniqueNonNull
      rw [List.filterMap_map]
      exact ht.users_externalID
    users_plan := by
      intro u hu q hq
      obtain ⟨r, hr, rfl⟩ := List.mem_map.1 hu
      -- a reference that is left is to another plan
      unfold unsetPlan at hq
      split_ifs at hq with hplan
      · cases hq
      · obtain ⟨p, hp, hpq⟩ := List.mem_map.1 (ht.users_plan r hr q hq)
        refine List.mem_map.2 ⟨p, List.mem_filter.2 ⟨hp, decide_eq_true fun hid => hplan ?_⟩, hpq⟩
        rw [← hid, hpq]
        exact hq
    userInbounds_user := by rw [hids]; exact ht.userInbounds_user
    trafficSnapshots_user := by rw [hids]; exact ht.trafficSnapshots_user }

/-! ## Nodes -/

theorem requireNode_eq_ok {id : ID} {r : Except StoreErr Tables} :
    requireNode t id r = .ok t' ↔ id ∈ t.nodes.map Node.id ∧ r = .ok t' := by
  unfold requireNode
  split_ifs with h
  · simp [h]
  · simp [h]

theorem createNode_eq_ok {n : Node} (h : createNode t n = .ok t') :
    n.id ∉ t.nodes.map Node.id ∧ n.name ∉ t.nodes.map Node.name ∧
      t' = { t with nodes := t.nodes ++ [{ n with lastSeenAt := none, lastError := "" }] } := by
  unfold createNode at h
  split_ifs at h with hint hid hname
  cases h
  exact ⟨hid, hname, rfl⟩

theorem createNode_valid {n : Node} (ht : t.Valid) (h : createNode t n = .ok t') : t'.Valid := by
  obtain ⟨hid, hname, rfl⟩ := createNode_eq_ok h
  exact {
    ht with
    nodes_id := nodup_map_append_singleton ht.nodes_id hid
    nodes_name := nodup_map_append_singleton ht.nodes_name hname
    inbounds_node := by
      intro i hi
      rw [List.map_append]
      exact List.mem_append_left _ (ht.inbounds_node i hi)
    trafficSnapshots_node := by
      intro r hr
      rw [List.map_append]
      exact List.mem_append_left _ (ht.trafficSnapshots_node r hr) }

theorem updateNode_eq_ok {n : Node} (h : updateNode t n = .ok t') :
    n.id ∈ t.nodes.map Node.id ∧ (∀ r ∈ t.nodes, r.id ≠ n.id → r.name ≠ n.name) ∧
      t' = { t with
        nodes := updateWhere (fun r => decide (r.id = n.id)) (persistNode n) t.nodes } := by
  unfold updateNode at h
  split_ifs at h with hint hname
  · obtain ⟨-, h⟩ := requireNode_eq_ok.1 h
    cases h
  · obtain ⟨hid, h⟩ := requireNode_eq_ok.1 h
    cases h
    exact ⟨hid, fun r hr hne heq => hname ⟨r, hr, hne, heq⟩, rfl⟩

theorem updateNode_valid {n : Node} (ht : t.Valid) (h : updateNode t n = .ok t') : t'.Valid := by
  obtain ⟨-, hname, rfl⟩ := updateNode_eq_ok h
  have hids := map_updateWhere (fun r => decide (r.id = n.id)) (persistNode n) Node.id
    (fun _ _ => rfl) t.nodes
  exact {
    ht with
    nodes_id := by rw [hids]; exact ht.nodes_id
    nodes_name := nodup_map_updateWhere_one ht.nodes_id ht.nodes_name
      fun _ _ _ s hs hne heq => hname s hs hne heq.symm
    inbounds_node := by rw [hids]; exact ht.inbounds_node
    trafficSnapshots_node := by rw [hids]; exact ht.trafficSnapshots_node }

theorem deleteNode_valid {id : ID} (ht : t.Valid) (h : deleteNode t id = .ok t') : t'.Valid := by
  obtain ⟨-, h⟩ := requireNode_eq_ok.1 h
  cases h
  have hkeep : ∀ n ∈ t.nodes.map Node.id, n ≠ id →
      n ∈ (t.nodes.filter fun r => decide (r.id ≠ id)).map Node.id := by
    intro n hn hne
    obtain ⟨r, hr, rfl⟩ := List.mem_map.1 hn
    exact List.mem_map_of_mem (List.mem_filter.2 ⟨hr, decide_eq_true hne⟩)
  exact {
    ht with
    nodes_id := nodup_map_filter ht.nodes_id _
    nodes_name := nodup_map_filter ht.nodes_name _
    inbounds_id := nodup_map_filter ht.inbounds_id _
    inbounds_tag := nodup_map_filter ht.inbounds_tag _
    inbounds_node := by
      intro i hi
      obtain ⟨hi, hne⟩ := List.mem_filter.1 hi
      exact hkeep _ (ht.inbounds_node i hi) (of_decide_eq_true hne)
    userInbounds_key := nodup_map_filter ht.userInbounds_key _
    userInbounds_user := fun r hr => ht.userInbounds_user r (List.mem_filter.1 hr).1
    userInbounds_inbound := by
      intro r hr
      obtain ⟨hr, hoff⟩ := List.mem_filter.1 hr
      obtain ⟨i, hi, hid⟩ := List.mem_map.1 (ht.userInbounds_inbound r hr)
      rw [Bool.not_eq_true', onNode, decide_eq_false_iff_not] at hoff
      refine List.mem_map.2 ⟨i, List.mem_filter.2 ⟨hi, decide_eq_true fun hnode => ?_⟩, hid⟩
      exact hoff ⟨i, hi, hid, hnode⟩
    trafficSnapshots_user := fun r hr => ht.trafficSnapshots_user r (List.mem_filter.1 hr).1
    trafficSnapshots_node := by
      intro r hr
      obtain ⟨hr, hne⟩ := List.mem_filter.1 hr
      exact hkeep _ (ht.trafficSnapshots_node r hr) (of_decide_eq_true hne) }

theorem setNodeHealth_eq_ok {id : ID} {status : NodeStatus} {lastErr : String}
    {seenAt : Option Time} (h : setNodeHealth t id status lastErr seenAt = .ok t') :
    id ∈ t.nodes.map Node.id ∧ t' = { t with
      nodes := updateWhere (fun r => decide (r.id = id)) (persistHealth status lastErr seenAt)
        t.nodes } := by
  unfold setNodeHealth at h
  split_ifs at h with hid
  cases h
  exact ⟨hid, rfl⟩

theorem setNodeHealth_valid {id : ID} {status : NodeStatus} {lastErr : String}
    {seenAt : Option Time} (ht : t.Valid) (h : setNodeHealth t id status lastErr seenAt = .ok t') :
    t'.Valid := by
  rw [(setNodeHealth_eq_ok h).2]
  have hids := map_updateWhere (fun r => decide (r.id = id)) (persistHealth status lastErr seenAt)
    Node.id (fun _ _ => rfl) t.nodes
  exact {
    ht with
    nodes_id := by rw [hids]; exact ht.nodes_id
    nodes_name := by
      rw [map_updateWhere _ (persistHealth status lastErr seenAt) Node.name fun _ _ => rfl]
      exact ht.nodes_name
    inbounds_node := by rw [hids]; exact ht.inbounds_node
    trafficSnapshots_node := by rw [hids]; exact ht.trafficSnapshots_node }

/-! ## Inbounds -/

theorem requireInbound_eq_ok {id : ID} {r : Except StoreErr Tables} :
    requireInbound t id r = .ok t' ↔ id ∈ t.inbounds.map Inbound.id ∧ r = .ok t' := by
  unfold requireInbound
  split_ifs with h
  · simp [h]
  · simp [h]

theorem updateInbound_eq_ok {ib : Inbound} (h : updateInbound t ib = .ok t') :
    ib.id ∈ t.inbounds.map Inbound.id ∧ tagTaken t.inbounds ib = false ∧
      t' = { t with
        inbounds := updateWhere (fun r => decide (r.id = ib.id))
          (persistInbound ib) t.inbounds } := by
  unfold updateInbound at h
  split_ifs at h with hports hc
  · obtain ⟨-, h⟩ := requireInbound_eq_ok.1 h
    cases h
  · obtain ⟨hid, h⟩ := requireInbound_eq_ok.1 h
    cases h
    exact ⟨hid, Bool.eq_false_iff.2 hc, rfl⟩

theorem updateInbound_valid {ib : Inbound} (ht : t.Valid) (h : updateInbound t ib = .ok t') :
    t'.Valid := by
  obtain ⟨-, hc, rfl⟩ := updateInbound_eq_ok h
  have hids : (updateWhere (fun r => decide (r.id = ib.id)) (persistInbound ib) t.inbounds).map
      Inbound.id = t.inbounds.map Inbound.id :=
    map_updateWhere _ (persistInbound ib) Inbound.id (fun _ _ => rfl) t.inbounds
  exact {
    ht with
    inbounds_id := by rw [hids]; exact ht.inbounds_id
    inbounds_tag := by
      refine nodup_map_updateWhere_one ht.inbounds_id ht.inbounds_tag
        fun r hr hri s hs hne heq => of_decide_eq_false hc ⟨r, hr, hri, s, hs, hne, ?_⟩
      obtain ⟨hnode, htag⟩ := Prod.mk.inj heq
      exact ⟨hnode.symm, htag.symm⟩
    inbounds_node := by
      intro i hi
      obtain ⟨r, hr, rfl⟩ := mem_updateWhere.1 hi
      have hnode :
          (if decide (r.id = ib.id) then persistInbound ib r else r).nodeID = r.nodeID := by
        split
        · rfl
        · rfl
      rw [hnode]
      exact ht.inbounds_node r hr
    userInbounds_inbound := by
      intro r hr
      rw [hids]
      exact ht.userInbounds_inbound r hr }

theorem deleteInbound_valid {id : ID} (ht : t.Valid) (h : deleteInbound t id = .ok t') :
    t'.Valid := by
  obtain ⟨-, h⟩ := requireInbound_eq_ok.1 h
  cases h
  exact {
    ht with
    inbounds_id := nodup_map_filter ht.inbounds_id _
    inbounds_tag := nodup_map_filter ht.inbounds_tag _
    inbounds_node := fun i hi => ht.inbounds_node i (List.mem_filter.1 hi).1
    userInbounds_key := nodup_map_filter ht.userInbounds_key _
    userInbounds_user := fun r hr => ht.userInbounds_user r (List.mem_filter.1 hr).1
    userInbounds_inbound := by
      intro r hr
      obtain ⟨hr, hne⟩ := List.mem_filter.1 hr
      obtain ⟨i, hi, hid⟩ := List.mem_map.1 (ht.userInbounds_inbound r hr)
      rw [← hid] at hne ⊢
      exact List.mem_map_of_mem (List.mem_filter.2 ⟨hi, hne⟩) }

/-! ## Events, assignments and traffic -/

theorem recordWebhookEvent_valid {eventID action : String} (ht : t.Valid) :
    (recordWebhookEvent t eventID action).2.Valid := by
  unfold recordWebhookEvent
  split_ifs with h
  · exact ht
  · exact { ht with webhookEvents_id := nodup_map_append_singleton ht.webhookEvents_id h }

theorem markAssignmentSynced_valid {userID inboundID : ID} {status : SyncStatus} {msg : String}
    (ht : t.Valid) : (markAssignmentSynced t userID inboundID status msg).Valid :=
  ht.updateAssignments _ (fun _ => rfl) fun _ => rfl

theorem markAssignmentsRemovingForUser_valid {userID : ID} (ht : t.Valid) :
    (markAssignmentsRemovingForUser t userID).Valid :=
  ht.updateAssignments _ (fun _ => rfl) fun _ => rfl

theorem deleteAssignment_valid {userID inboundID : ID} (ht : t.Valid) :
    (deleteAssignment t userID inboundID).Valid :=
  { ht with
    userInbounds_key := nodup_map_filter ht.userInbounds_key _
    userInbounds_user := fun r hr => ht.userInbounds_user r (List.mem_filter.1 hr).1
    userInbounds_inbound := fun r hr => ht.userInbounds_inbound r (List.mem_filter.1 hr).1 }

theorem setAssignmentsForUserTx_valid {userID : ID} {ids : Slice ID} (ht : t.Valid)
    (h : setAssignmentsForUserTx t userID ids = .ok t') : t'.Valid := by
  have htomb : (tombstoneOthersTx t userID ids).Valid :=
    ht.updateAssignments _ (fun _ => rfl) fun _ => rfl
  exact foldlM_invariant (fun _ _ _ h₁ h₂ => addAssignmentTx_valid h₁ h₂) ids.elems htomb h

theorem applyDeltaTx_eq_ok {nodeID : ID} {collectedAt : Time} {d : TrafficDelta}
    (h : applyDeltaTx nodeID collectedAt t d = .ok t') :
    (d.uplink = 0 ∧ d.downlink = 0 ∧ t' = t) ∨
      (¬ (d.uplink = 0 ∧ d.downlink = 0) ∧ d.userID ∈ t.users.map User.id ∧
        nodeID ∈ t.nodes.map Node.id ∧
        (∀ r ∈ t.users, r.id = d.userID →
          fitsBigint r.usedUploadBytes d.uplink ∧ fitsBigint r.usedDownloadBytes d.downlink) ∧
        t' = { t with
          trafficSnapshots :=
            t.trafficSnapshots ++ [⟨d.userID, nodeID, d.uplink, d.downlink, collectedAt⟩]
          users := updateWhere (fun r => decide (r.id = d.userID))
            (fun r => { r with
              usedUploadBytes := r.usedUploadBytes + d.uplink
              usedDownloadBytes := r.usedDownloadBytes + d.downlink }) t.users }) := by
  unfold applyDeltaTx at h
  split_ifs at h with h₁ h₂ h₃ h₄
  · cases h
    exact Or.inl ⟨h₁.1, h₁.2, rfl⟩
  · cases h
    refine Or.inr ⟨h₁, h₂, h₃, fun r hr hri => ?_, rfl⟩
    by_contra hfit
    exact h₄ ⟨r, hr, hri, hfit⟩

theorem applyDeltaTx_valid {nodeID : ID} {collectedAt : Time} {d : TrafficDelta} (ht : t.Valid)
    (h : applyDeltaTx nodeID collectedAt t d = .ok t') : t'.Valid := by
  obtain ⟨-, -, rfl⟩ | ⟨-, hu, hn, -, rfl⟩ := applyDeltaTx_eq_ok h
  · exact ht
  · have hsnap : Tables.Valid { t with
        trafficSnapshots :=
          t.trafficSnapshots ++ [⟨d.userID, nodeID, d.uplink, d.downlink, collectedAt⟩] } := {
      ht with
      trafficSnapshots_user := by
        intro r hr
        rcases List.mem_append.1 hr with hr | hr
        · exact ht.trafficSnapshots_user r hr
        · rw [List.mem_singleton] at hr
          subst hr
          exact hu
      trafficSnapshots_node := by
        intro r hr
        rcases List.mem_append.1 hr with hr | hr
        · exact ht.trafficSnapshots_node r hr
        · rw [List.mem_singleton] at hr
          subst hr
          exact hn }
    exact hsnap.updateUsers _ ⟨fun _ => rfl, fun _ => rfl, fun _ => rfl, fun _ => rfl,
      fun _ => rfl, fun _ => rfl, fun _ => rfl⟩

theorem suspendOverQuotaTx_eq_ok {ids : List ID} (h : suspendOverQuotaTx t = .ok (ids, t')) :
    (∀ r ∈ t.users, r.status = .active → r.dataLimitBytes ≠ none →
        fitsBigint r.usedUploadBytes r.usedDownloadBytes = true) ∧
      ids = (t.users.filter crossedLimit).map User.id ∧
      t' = { t with
        users := updateWhere crossedLimit (fun r => { r with status := .suspended }) t.users } := by
  unfold suspendOverQuotaTx at h
  split_ifs at h with hfit
  cases h
  refine ⟨fun r hr hact hlim => ?_, rfl, rfl⟩
  by_contra hno
  exact hfit ⟨r, hr, hact, hlim, Bool.eq_false_iff.2 hno⟩

theorem suspendOverQuotaTx_valid {ids : List ID} (ht : t.Valid)
    (h : suspendOverQuotaTx t = .ok (ids, t')) : t'.Valid := by
  obtain ⟨-, -, rfl⟩ := suspendOverQuotaTx_eq_ok h
  exact ht.updateUsers _ ⟨fun _ => rfl, fun _ => rfl, fun _ => rfl, fun _ => rfl, fun _ => rfl,
    fun _ => rfl, fun _ => rfl⟩

/-- A committed `ApplyTrafficDeltas` is its loop followed by the suspension. -/
theorem applyTrafficDeltas_eq_ok {nodeID : ID} {deltas : List TrafficDelta} {collectedAt : Time}
    {ids : List ID} (h : applyTrafficDeltas t nodeID deltas collectedAt = .ok (ids, t')) :
    ∃ t₁, deltas.foldlM (applyDeltaTx nodeID collectedAt) t = .ok t₁ ∧
      suspendOverQuotaTx t₁ = .ok (ids, t') := by
  unfold applyTrafficDeltas at h
  cases hf : deltas.foldlM (applyDeltaTx nodeID collectedAt) t with
  | error e => rw [hf] at h; cases h
  | ok t₁ =>
      rw [hf] at h
      exact ⟨t₁, rfl, h⟩

/-- The loop, and what the last statement does to the tables it leaves. -/
theorem applyTrafficDeltas_inv {nodeID : ID} {deltas : List TrafficDelta} {collectedAt : Time}
    {ids : List ID} (h : applyTrafficDeltas t nodeID deltas collectedAt = .ok (ids, t')) :
    ∃ t₁, deltas.foldlM (applyDeltaTx nodeID collectedAt) t = .ok t₁ ∧
      (∀ r ∈ t₁.users, r.status = .active → r.dataLimitBytes ≠ none →
        fitsBigint r.usedUploadBytes r.usedDownloadBytes = true) ∧
      ids = (t₁.users.filter crossedLimit).map User.id ∧
      t' = { t₁ with
        users :=
          updateWhere crossedLimit (fun r => { r with status := .suspended }) t₁.users } := by
  obtain ⟨t₁, hloop, hlast⟩ := applyTrafficDeltas_eq_ok h
  exact ⟨t₁, hloop, suspendOverQuotaTx_eq_ok hlast⟩

theorem applyTrafficDeltas_valid {nodeID : ID} {deltas : List TrafficDelta} {collectedAt : Time}
    {ids : List ID} (ht : t.Valid)
    (h : applyTrafficDeltas t nodeID deltas collectedAt = .ok (ids, t')) : t'.Valid := by
  obtain ⟨t₁, hloop, hlast⟩ := applyTrafficDeltas_eq_ok h
  exact suspendOverQuotaTx_valid
    (foldlM_invariant (fun _ _ _ h₁ h₂ => applyDeltaTx_valid h₁ h₂) deltas ht hloop) hlast

end XrayApi.Store
