import XrayApi.Domain.Types
import XrayApi.Relational.Table

/-!
# The database schema

`Tables` has the tables of the migrations that the modelled code reads or writes, and `Tables.Valid`
their `PRIMARY KEY`, `UNIQUE` and `REFERENCES` constraints. A `Database` is a value of `Tables` that
satisfies them.
-/

set_option autoImplicit false

namespace XrayApi.Store

open XrayApi.Relational

/-- The rows of the database, table by table. -/
structure Tables where
  nodes : List Node
  inbounds : List Inbound
  plans : List Plan
  users : List User
  userInbounds : List UserInbound
  trafficSnapshots : List TrafficSnapshot
  webhookEvents : List WebhookEvent
  deriving DecidableEq, Repr

/-- The constraints of the schema. -/
structure Tables.Valid (t : Tables) : Prop where
  nodes_id : (t.nodes.map Node.id).Nodup
  nodes_name : (t.nodes.map Node.name).Nodup
  inbounds_id : (t.inbounds.map Inbound.id).Nodup
  inbounds_tag : (t.inbounds.map fun i => (i.nodeID, i.tag)).Nodup
  inbounds_node : ∀ i ∈ t.inbounds, i.nodeID ∈ t.nodes.map Node.id
  plans_id : (t.plans.map Plan.id).Nodup
  plans_name : (t.plans.map Plan.name).Nodup
  users_id : (t.users.map User.id).Nodup
  users_email : (t.users.map User.email).Nodup
  users_uuid : (t.users.map User.uuid).Nodup
  users_trojanPassword : (t.users.map User.trojanPassword).Nodup
  users_subToken : (t.users.map User.subToken).Nodup
  users_externalID : UniqueNonNull User.externalID t.users
  users_plan : ∀ u ∈ t.users, ∀ p ∈ u.planID, p ∈ t.plans.map Plan.id
  userInbounds_key : (t.userInbounds.map fun r => (r.userID, r.inboundID)).Nodup
  userInbounds_user : ∀ r ∈ t.userInbounds, r.userID ∈ t.users.map User.id
  userInbounds_inbound : ∀ r ∈ t.userInbounds, r.inboundID ∈ t.inbounds.map Inbound.id
  trafficSnapshots_user : ∀ r ∈ t.trafficSnapshots, r.userID ∈ t.users.map User.id
  trafficSnapshots_node : ∀ r ∈ t.trafficSnapshots, r.nodeID ∈ t.nodes.map Node.id
  webhookEvents_id : (t.webhookEvents.map WebhookEvent.id).Nodup

/-- Tables that satisfy the constraints. -/
structure Database where
  tables : Tables
  valid : tables.Valid

/-- The empty database. -/
def Tables.empty : Tables := ⟨[], [], [], [], [], [], []⟩

theorem Tables.empty_valid : Tables.empty.Valid := by
  constructor <;> simp [Tables.empty, UniqueNonNull]

/-- One user and nothing else. -/
def Tables.sole (u : User) : Tables := { Tables.empty with users := [u] }

theorem Tables.sole_valid (u : User) (hu : u.planID = none) : (Tables.sole u).Valid := by
  have hext := uniqueNonNull_singleton User.externalID u
  constructor <;> simp [Tables.sole, Tables.empty, hext, hu]

/-- One user on one inbound of one node. -/
def Tables.assigned (i : Inbound) (u : User) (status : SyncStatus) : Tables :=
  { Tables.empty with
    nodes := [.plain i.nodeID]
    inbounds := [i]
    users := [u]
    userInbounds := [⟨u.id, i.id, status, ""⟩] }

theorem Tables.assigned_valid (i : Inbound) (u : User) (status : SyncStatus)
    (hu : u.planID = none) : (Tables.assigned i u status).Valid := by
  have hext := uniqueNonNull_singleton User.externalID u
  constructor <;> simp [Tables.assigned, Tables.empty, Node.plain, hext, hu]

theorem Tables.assigned_plain_valid (status : SyncStatus) :
    (Tables.assigned (.plain "i" "n" "in" .vless) (.plain "u" "u@x") status).Valid :=
  Tables.assigned_valid _ _ _ rfl

end XrayApi.Store
