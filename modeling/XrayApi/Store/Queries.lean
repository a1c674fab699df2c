import Mathlib.Algebra.Group.Int.Defs
import XrayApi.Store.Schema

/-!
# Store statements

The methods of `internal/store` as functions on `Tables`, under the source's names. A read returns
its rows in table order. A write returns the new tables, or the error the driver reports, in which
case nothing is written. A function whose name ends in `Tx` is part of, or is, one transaction.
-/

set_option autoImplicit false

namespace XrayApi.Store

open XrayApi.Relational

/-- `scanUser` and `scanPlan`: no row is `ErrNotFound`. -/
def oneRow {α : Type} : Option α → Except StoreErr α
  | some r => .ok r
  | none => .error .notFound

/-! ## Users and plans -/

def getUser (t : Tables) (id : ID) : Except StoreErr User :=
  oneRow (lookup User.id id t.users)

def getUserByExternalID (t : Tables) (externalID : String) : Except StoreErr User :=
  oneRow (lookup User.externalID (some externalID) t.users)

def getUserByEmail (t : Tables) (email : String) : Except StoreErr User :=
  oneRow (lookup User.email email t.users)

def getUserBySubToken (t : Tables) (token : String) : Except StoreErr User :=
  oneRow (lookup User.subToken token t.users)

def getPlan (t : Tables) (id : ID) : Except StoreErr Plan :=
  oneRow (lookup Plan.id id t.plans)

/-- Inbounds with an id in the list; an id that occurs twice is one row. -/
def listInboundsByIDs (t : Tables) (ids : List ID) : List Inbound :=
  t.inbounds.filter fun i => decide (i.id ∈ ids)

/-- The constraint a new row breaks, in the order of the indexes. -/
def insertConflict (rows : List User) (u : User) : Option String :=
  if u.id ∈ rows.map User.id then some "users_pkey"
  else if u.email ∈ rows.map User.email then some "users_email_key"
  else if u.uuid ∈ rows.map User.uuid then some "users_uuid_key"
  else if u.trojanPassword ∈ rows.map User.trojanPassword then some "users_trojan_password_key"
  else if u.subToken ∈ rows.map User.subToken then some "users_sub_token_key"
  else if ∃ x ∈ u.externalID, x ∈ rows.filterMap User.externalID then
    some "users_external_id_key"
  else none

/-- The plan reference of a row holds. -/
def planExists (t : Tables) (u : User) : Bool :=
  decide (∀ p ∈ u.planID, p ∈ t.plans.map Plan.id)

/-- Insert a user; the usage columns take their defaults. -/
def createUserTx (t : Tables) (u : User) : Except StoreErr Tables :=
  match insertConflict t.users u with
  | some c => .error (.conflict c)
  | none =>
    if planExists t u then
      .ok { t with users := t.users ++ [{ u with usedUploadBytes := 0, usedDownloadBytes := 0 }] }
    else .error (.foreignKey "users_plan_id_fkey")

/-- Insert a pending assignment unless there is one. -/
def addAssignmentTx (t : Tables) (userID inboundID : ID) : Except StoreErr Tables :=
  if (userID, inboundID) ∈ t.userInbounds.map (fun r => (r.userID, r.inboundID)) then .ok t
  else if userID ∉ t.users.map User.id then .error (.foreignKey "user_inbounds_user_id_fkey")
  else if inboundID ∉ t.inbounds.map Inbound.id then
    .error (.foreignKey "user_inbounds_inbound_id_fkey")
  else .ok { t with userInbounds := t.userInbounds ++ [⟨userID, inboundID, .pending, ""⟩] }

/-- The transaction of `UserService.Create`: the user and one assignment per inbound. -/
def createWithAssignmentsTx (t : Tables) (u : User) (inboundIDs : List ID) :
    Except StoreErr Tables := do
  let t ← createUserTx t u
  inboundIDs.foldlM (fun t id => addAssignmentTx t u.id id) t

/-- `r` with the columns `UpdateUser` writes taken from `u`. -/
def persist (u r : User) : User :=
  { r with
    planID := u.planID
    status := u.status
    dataLimitBytes := u.dataLimitBytes
    expiresAt := u.expiresAt
    note := u.note
    subToken := u.subToken
    externalID := u.externalID }

/-- The constraint an updated row breaks against the other rows. -/
def updateConflict (rows : List User) (u : User) : Option String :=
  if ∃ r ∈ rows, r.id ≠ u.id ∧ r.subToken = u.subToken then some "users_sub_token_key"
  else if ∃ r ∈ rows, r.id ≠ u.id ∧ ∃ x ∈ u.externalID, r.externalID = some x then
    some "users_external_id_key"
  else none

/-- `requireRow`: a write that affects no row is `ErrNotFound`. -/
def requireUser (t : Tables) (id : ID) (written : Except StoreErr Tables) :
    Except StoreErr Tables :=
  if id ∈ t.users.map User.id then written else .error .notFound

def updateUser (t : Tables) (u : User) : Except StoreErr Tables :=
  requireUser t u.id <|
    match updateConflict t.users u with
    | some c => .error (.conflict c)
    | none =>
      if planExists t u then
        .ok { t with users := updateWhere (fun r => decide (r.id = u.id)) (persist u) t.users }
      else .error (.foreignKey "users_plan_id_fkey")

def setUserStatus (t : Tables) (id : ID) (status : UserStatus) : Except StoreErr Tables :=
  requireUser t id <|
    .ok { t with
      users := updateWhere (fun r => decide (r.id = id)) (fun r => { r with status }) t.users }

/-- `r` with zero usage. -/
def zeroUsage (r : User) : User :=
  { r with usedUploadBytes := 0, usedDownloadBytes := 0 }

def resetTraffic (t : Tables) (id : ID) : Except StoreErr Tables :=
  requireUser t id <|
    .ok { t with users := updateWhere (fun r => decide (r.id = id)) zeroUsage t.users }

/-- Delete a user; assignments and snapshots go with it. -/
def deleteUser (t : Tables) (id : ID) : Except StoreErr Tables :=
  requireUser t id <|
    .ok { t with
      users := t.users.filter fun r => decide (r.id ≠ id)
      userInbounds := t.userInbounds.filter fun r => decide (r.userID ≠ id)
      trafficSnapshots := t.trafficSnapshots.filter fun r => decide (r.userID ≠ id) }

/-- The ids of the users with the given emails. -/
def userIDsByEmail (t : Tables) (emails : List String) (email : String) : Option ID :=
  if email ∈ emails then (lookup User.email email t.users).map User.id else none

/-- An active user whose expiry has come. -/
def dueAt (now : Time) (u : User) : Bool :=
  decide (u.status = .active) && u.expiredAt now

/-- Flip due users to expired; returns their ids. -/
def expireDueUsers (t : Tables) (now : Time) : List ID × Tables :=
  ((t.users.filter (dueAt now)).map User.id,
    { t with users := updateWhere (dueAt now) (fun r => { r with status := .expired }) t.users })

/-! ## Plans -/

/-- The value fits an `INTEGER` column; the driver rejects any other. -/
def fitsInteger (x : Int) : Bool := decide (-2 ^ 31 ≤ x ∧ x < 2 ^ 31)

def integerOutOfRange : StoreErr := .internal "value is out of range for int4"

def createPlan (t : Tables) (p : Plan) : Except StoreErr Tables :=
  if ∃ d ∈ p.durationDays, fitsInteger d = false then .error integerOutOfRange
  else if p.id ∈ t.plans.map Plan.id then .error (.conflict "plans_pkey")
  else if p.name ∈ t.plans.map Plan.name then .error (.conflict "plans_name_key")
  else .ok { t with plans := t.plans ++ [p] }

/-- `requireRow` for a write to `plans`. -/
def requirePlan (t : Tables) (id : ID) (written : Except StoreErr Tables) :
    Except StoreErr Tables :=
  if id ∈ t.plans.map Plan.id then written else .error .notFound

def updatePlan (t : Tables) (p : Plan) : Except StoreErr Tables :=
  if ∃ d ∈ p.durationDays, fitsInteger d = false then .error integerOutOfRange
  else requirePlan t p.id <|
    if ∃ r ∈ t.plans, r.id ≠ p.id ∧ r.name = p.name then .error (.conflict "plans_name_key")
    else .ok { t with plans := updateWhere (fun r => decide (r.id = p.id)) (fun _ => p) t.plans }

/-- `r` without a reference to the plan. -/
def unsetPlan (id : ID) (r : User) : User :=
  { r with planID := if r.planID = some id then none else r.planID }

/-- Delete a plan; its users stay, without a plan. -/
def deletePlan (t : Tables) (id : ID) : Except StoreErr Tables :=
  requirePlan t id <|
    .ok { t with
      plans := t.plans.filter fun r => decide (r.id ≠ id)
      users := t.users.map (unsetPlan id) }

/-! ## Nodes -/

def getNode (t : Tables) (id : ID) : Except StoreErr Node :=
  oneRow (lookup Node.id id t.nodes)

/-- Insert a node; the outcome of the last probe takes its defaults. -/
def createNode (t : Tables) (n : Node) : Except StoreErr Tables :=
  if fitsInteger n.apiPort = false then .error integerOutOfRange
  else if n.id ∈ t.nodes.map Node.id then .error (.conflict "nodes_pkey")
  else if n.name ∈ t.nodes.map Node.name then .error (.conflict "nodes_name_key")
  else .ok { t with nodes := t.nodes ++ [{ n with lastSeenAt := none, lastError := "" }] }

/-- `requireRow` for a write to `nodes`. -/
def requireNode (t : Tables) (id : ID) (written : Except StoreErr Tables) :
    Except StoreErr Tables :=
  if id ∈ t.nodes.map Node.id then written else .error .notFound

/-- `r` with the columns `UpdateNode` writes taken from `n`. -/
def persistNode (n r : Node) : Node :=
  { n with id := r.id, lastSeenAt := r.lastSeenAt, lastError := r.lastError }

def updateNode (t : Tables) (n : Node) : Except StoreErr Tables :=
  if fitsInteger n.apiPort = false then .error integerOutOfRange
  else requireNode t n.id <|
    if ∃ r ∈ t.nodes, r.id ≠ n.id ∧ r.name = n.name then .error (.conflict "nodes_name_key")
    else .ok { t with
      nodes := updateWhere (fun r => decide (r.id = n.id)) (persistNode n) t.nodes }

/-- The inbound is on the node. -/
def onNode (t : Tables) (nodeID inboundID : ID) : Bool :=
  decide (∃ i ∈ t.inbounds, i.id = inboundID ∧ i.nodeID = nodeID)

/-- Delete a node; its inbounds with their assignments and its snapshots go with it. -/
def deleteNode (t : Tables) (id : ID) : Except StoreErr Tables :=
  requireNode t id <|
    .ok { t with
      nodes := t.nodes.filter fun r => decide (r.id ≠ id)
      inbounds := t.inbounds.filter fun r => decide (r.nodeID ≠ id)
      userInbounds := t.userInbounds.filter fun r => !onNode t id r.inboundID
      trafficSnapshots := t.trafficSnapshots.filter fun r => decide (r.nodeID ≠ id) }

/-- `r` with the columns `SetNodeHealth` writes; without a time the last one stays. -/
def persistHealth (status : NodeStatus) (lastErr : String) (seenAt : Option Time)
    (r : Node) : Node :=
  { r with status := status, lastError := lastErr, lastSeenAt := seenAt <|> r.lastSeenAt }

/-- Record the outcome of a health probe. -/
def setNodeHealth (t : Tables) (id : ID) (status : NodeStatus) (lastErr : String)
    (seenAt : Option Time) : Except StoreErr Tables :=
  if id ∈ t.nodes.map Node.id then
    .ok { t with
      nodes := updateWhere (fun r => decide (r.id = id)) (persistHealth status lastErr seenAt)
        t.nodes }
  else .error .notFound

/-! ## Inbounds -/

def getInbound (t : Tables) (id : ID) : Except StoreErr Inbound :=
  oneRow (lookup Inbound.id id t.inbounds)

/-- `inbounds` joined with the assignments of a user. -/
def listInboundsForUser (t : Tables) (userID : ID) : List Inbound :=
  t.inbounds.flatMap fun i =>
    (t.userInbounds.filter fun ui => decide (ui.inboundID = i.id ∧ ui.userID = userID)).map
      fun _ => i

/-- `requireRow` for a write to `inbounds`. -/
def requireInbound (t : Tables) (id : ID) (written : Except StoreErr Tables) :
    Except StoreErr Tables :=
  if id ∈ t.inbounds.map Inbound.id then written else .error .notFound

/-- The updated row would have the tag of another inbound of its node. -/
def tagTaken (rows : List Inbound) (ib : Inbound) : Bool :=
  decide (∃ s ∈ rows, s.id = ib.id ∧ ∃ r ∈ rows, r.id ≠ ib.id ∧ r.nodeID = s.nodeID ∧
    r.tag = ib.tag)

/-- `r` with the columns `UpdateInbound` writes taken from `ib`: all but the key and the node. -/
def persistInbound (ib r : Inbound) : Inbound :=
  { ib with id := r.id, nodeID := r.nodeID }

/-- The ports of an inbound fit their columns. -/
def portsFit (ib : Inbound) : Bool := fitsInteger ib.listenPort && fitsInteger ib.publicPort

def updateInbound (t : Tables) (ib : Inbound) : Except StoreErr Tables :=
  if portsFit ib = false then .error integerOutOfRange
  else requireInbound t ib.id <|
    if tagTaken t.inbounds ib then .error (.conflict "inbounds_node_id_tag_key")
    else .ok { t with
      inbounds := updateWhere (fun r => decide (r.id = ib.id)) (persistInbound ib) t.inbounds }

/-- Delete an inbound; its assignments go with it. -/
def deleteInbound (t : Tables) (id : ID) : Except StoreErr Tables :=
  requireInbound t id <|
    .ok { t with
      inbounds := t.inbounds.filter fun r => decide (r.id ≠ id)
      userInbounds := t.userInbounds.filter fun r => decide (r.inboundID ≠ id) }

/-! ## Webhook events -/

/-- Insert an event id; returns whether it was new. -/
def recordWebhookEvent (t : Tables) (eventID action : String) : Bool × Tables :=
  if eventID ∈ t.webhookEvents.map WebhookEvent.id then (false, t)
  else (true, { t with webhookEvents := t.webhookEvents ++ [⟨eventID, action⟩] })

/-! ## Assignments -/

/-- A user, inbound and node joined for the reconciler. -/
structure DesiredAssignment where
  userID : ID
  inboundID : ID
  nodeID : ID
  inboundTag : String
  protocol : Protocol
  flow : String
  method : String
  email : String
  uuid : ID
  trojanPass : String
  syncStatus : SyncStatus
  deriving DecidableEq, Repr

/-- The columns the three join queries select. -/
def desiredRow (ui : UserInbound) (i : Inbound) (u : User) : DesiredAssignment where
  userID := ui.userID
  inboundID := ui.inboundID
  nodeID := i.nodeID
  inboundTag := i.tag
  protocol := i.protocol
  flow := i.flow
  method := i.method
  email := u.email
  uuid := u.uuid
  trojanPass := u.trojanPassword
  syncStatus := ui.syncStatus

/-- `user_inbounds` joined with `inbounds` and `users` on their primary keys. -/
def queryDesired (t : Tables) (cond : UserInbound → Inbound → User → Bool) :
    List DesiredAssignment :=
  t.userInbounds.filterMap fun ui =>
    match lookup Inbound.id ui.inboundID t.inbounds, lookup User.id ui.userID t.users with
    | some i, some u => if cond ui i u then some (desiredRow ui i u) else none
    | _, _ => none

theorem mem_queryDesired {t : Tables} {cond : UserInbound → Inbound → User → Bool}
    {d : DesiredAssignment} :
    d ∈ queryDesired t cond ↔
      ∃ ui ∈ t.userInbounds, ∃ i u, lookup Inbound.id ui.inboundID t.inbounds = some i ∧
        lookup User.id ui.userID t.users = some u ∧ cond ui i u = true ∧ d = desiredRow ui i u := by
  unfold queryDesired
  rw [List.mem_filterMap]
  refine exists_congr fun ui => and_congr_right fun _ => ?_
  constructor
  · intro h
    split at h
    · next i u hi hu =>
        split_ifs at h with hc
        cases h
        exact ⟨i, u, hi, hu, hc, rfl⟩
    · cases h
  · rintro ⟨i, u, hi, hu, hc, rfl⟩
    simp only [hi, hu, hc, if_true]

def desiredForNode (t : Tables) (nodeID : ID) : List DesiredAssignment :=
  queryDesired t fun ui i u =>
    decide (i.nodeID = nodeID ∧ u.status = .active ∧ ui.syncStatus ≠ .removing)

def removalsForNode (t : Tables) (nodeID : ID) : List DesiredAssignment :=
  queryDesired t fun ui i u =>
    decide (i.nodeID = nodeID ∧ (ui.syncStatus = .removing ∨ u.status ≠ .active))

def assignmentTargetsForUser (t : Tables) (userID : ID) : List DesiredAssignment :=
  queryDesired t fun ui _ _ => decide (ui.userID = userID)

def markAssignmentSynced (t : Tables) (userID inboundID : ID) (status : SyncStatus)
    (errMsg : String) : Tables :=
  { t with
    userInbounds := updateWhere
      (fun r => decide (r.userID = userID ∧ r.inboundID = inboundID))
      (fun r => { r with syncStatus := status, lastError := errMsg }) t.userInbounds }

def markAssignmentsRemovingForUser (t : Tables) (userID : ID) : Tables :=
  { t with
    userInbounds := updateWhere (fun r => decide (r.userID = userID))
      (fun r => { r with syncStatus := .removing }) t.userInbounds }

def deleteAssignment (t : Tables) (userID inboundID : ID) : Tables :=
  { t with
    userInbounds := t.userInbounds.filter fun r =>
      decide (¬ (r.userID = userID ∧ r.inboundID = inboundID)) }

/-- The first statement of `SetAssignmentsForUserTx`: tombstone what is not in the list, which is
nothing when the list is nil. -/
def tombstoneOthersTx (t : Tables) (userID : ID) (inboundIDs : Slice ID) : Tables :=
  { t with
    userInbounds := updateWhere
      (fun r => decide (r.userID = userID ∧ inboundIDs.excludes r.inboundID = true))
      (fun r => { r with syncStatus := .removing }) t.userInbounds }

/-- Replace a user's assignment set: tombstone what is not in the list, insert what is missing. -/
def setAssignmentsForUserTx (t : Tables) (userID : ID) (inboundIDs : Slice ID) :
    Except StoreErr Tables :=
  inboundIDs.elems.foldlM (fun t id => addAssignmentTx t userID id)
    (tombstoneOthersTx t userID inboundIDs)

/-! ## Traffic -/

/-- One user's traffic increment of a collection cycle. -/
structure TrafficDelta where
  userID : ID
  uplink : Int64
  downlink : Int64
  deriving DecidableEq, Repr

/-- The mathematical sum fits a `BIGINT`; otherwise SQL addition is an error. -/
def fitsBigint (a b : Int64) : Bool :=
  decide (-2 ^ 63 ≤ a.toInt + b.toInt ∧ a.toInt + b.toInt < 2 ^ 63)

def outOfRange : StoreErr := .internal "ERROR: bigint out of range (SQLSTATE 22003)"

/-- One round of the loop of `ApplyTrafficDeltas`: a snapshot row and the running totals. -/
def applyDeltaTx (nodeID : ID) (collectedAt : Time) (t : Tables) (d : TrafficDelta) :
    Except StoreErr Tables :=
  if d.uplink = 0 ∧ d.downlink = 0 then .ok t
  else if d.userID ∉ t.users.map User.id then
    .error (.foreignKey "traffic_snapshots_user_id_fkey")
  else if nodeID ∉ t.nodes.map Node.id then
    .error (.foreignKey "traffic_snapshots_node_id_fkey")
  else if ∃ r ∈ t.users, r.id = d.userID ∧
      ¬ (fitsBigint r.usedUploadBytes d.uplink ∧ fitsBigint r.usedDownloadBytes d.downlink) then
    .error outOfRange
  else .ok { t with
    trafficSnapshots :=
      t.trafficSnapshots ++ [⟨d.userID, nodeID, d.uplink, d.downlink, collectedAt⟩]
    users := updateWhere (fun r => decide (r.id = d.userID))
      (fun r => { r with
        usedUploadBytes := r.usedUploadBytes + d.uplink
        usedDownloadBytes := r.usedDownloadBytes + d.downlink }) t.users }

/-- An active user whose usage reaches a set limit. -/
def crossedLimit (u : User) : Bool :=
  decide (u.status = .active) && u.overQuota

/-- The last statement of `ApplyTrafficDeltas`: suspend active users at their limit. -/
def suspendOverQuotaTx (t : Tables) : Except StoreErr (List ID × Tables) :=
  if ∃ r ∈ t.users, r.status = .active ∧ r.dataLimitBytes ≠ none ∧
      fitsBigint r.usedUploadBytes r.usedDownloadBytes = false then .error outOfRange
  else .ok ((t.users.filter crossedLimit).map User.id,
    { t with users := updateWhere crossedLimit (fun r => { r with status := .suspended }) t.users })

/-- Record the deltas of a cycle and suspend who crossed the limit; returns their ids. -/
def applyTrafficDeltas (t : Tables) (nodeID : ID) (deltas : List TrafficDelta)
    (collectedAt : Time) : Except StoreErr (List ID × Tables) := do
  let t ← deltas.foldlM (applyDeltaTx nodeID collectedAt) t
  suspendOverQuotaTx t

end XrayApi.Store
