import XrayApi.Store.APIKeys
import XrayApi.Store.Call
import XrayApi.Store.Listing
import XrayApi.Store.Usage

/-!
# The store calls of the admin API

The methods of the store that only the admin API, the command line and the snapshot pruner call, as
functions on an `Archive`: the database with the table `api_keys` and the column `created_at` of the
users, which the services do not look at.
-/

set_option autoImplicit false

namespace XrayApi.Store

open XrayApi.Relational

/-! ## Inbounds -/

/-- Insert an inbound. Uniqueness is checked with the row, the reference at the end. -/
def createInbound (t : Tables) (ib : Inbound) : Except StoreErr Tables :=
  if portsFit ib = false then .error integerOutOfRange
  else if ib.id ∈ t.inbounds.map Inbound.id then .error (.conflict "inbounds_pkey")
  else if (ib.nodeID, ib.tag) ∈ t.inbounds.map fun i => (i.nodeID, i.tag) then
    .error (.conflict "inbounds_node_id_tag_key")
  else if ib.nodeID ∉ t.nodes.map Node.id then .error (.foreignKey "inbounds_node_id_fkey")
  else .ok { t with inbounds := t.inbounds ++ [ib] }

theorem createInbound_eq_ok {t t' : Tables} {ib : Inbound} (h : createInbound t ib = .ok t') :
    ib.id ∉ t.inbounds.map Inbound.id ∧
      (ib.nodeID, ib.tag) ∉ (t.inbounds.map fun i => (i.nodeID, i.tag)) ∧
      ib.nodeID ∈ t.nodes.map Node.id ∧ t' = { t with inbounds := t.inbounds ++ [ib] } := by
  unfold createInbound at h
  split_ifs at h with hfits hid htag hnode
  cases h
  exact ⟨hid, htag, hnode, rfl⟩

theorem createInbound_valid {t t' : Tables} {ib : Inbound} (ht : t.Valid)
    (h : createInbound t ib = .ok t') : t'.Valid := by
  obtain ⟨hid, htag, hnode, rfl⟩ := createInbound_eq_ok h
  exact {
    ht with
    inbounds_id := nodup_map_append_singleton ht.inbounds_id hid
    inbounds_tag := nodup_map_append_singleton ht.inbounds_tag htag
    inbounds_node := by
      intro i hi
      obtain hi | hi := List.mem_append.1 hi
      · exact ht.inbounds_node i hi
      · rw [List.mem_singleton.1 hi]
        exact hnode
    userInbounds_inbound := by
      intro r hr
      rw [List.map_append]
      exact List.mem_append_left _ (ht.userInbounds_inbound r hr) }

def listInboundsByNode (t : Tables) (nodeID : ID) : List Inbound :=
  t.inbounds.filter fun i => decide (i.nodeID = nodeID)

/-! ## Calls -/

/-- A method of the store with its arguments; `now` is the clock of the database. -/
inductive AdminCall
  | createAPIKey (k : APIKey)
  | findAPIKeyByHash (hash : String) (now : Time)
  | listAPIKeys
  | revokeAPIKey (id : ID) (now : Time)
  | createInbound (ib : Inbound)
  | listInboundsByNode (nodeID : ID)
  | listPlans
  | countUsers (f : UserFilter)
  | selectUsers (f : UserFilter)
  | userUsage (userID : ID) (since upto : Time) (groupBy : String)
  | pruneSnapshots (before : Time)

namespace AdminCall

/-- What a call returns besides an error. -/
@[reducible] def Out : AdminCall → Type
  | createAPIKey _ => Unit
  | findAPIKeyByHash _ _ => APIKey
  | listAPIKeys => List APIKey
  | revokeAPIKey _ _ => Unit
  | createInbound _ => Unit
  | listInboundsByNode _ => List Inbound
  | listPlans => List Plan
  | countUsers _ => Nat
  | selectUsers _ => List User
  | userUsage _ _ _ _ => List UsageBucket
  | pruneSnapshots _ => Nat

end AdminCall

/-- The whole database. -/
structure Archive where
  db : Database
  apiKeys : APIKeys
  /-- The column `created_at` of the user with the id. -/
  createdAt : ID → Time
  /-- The lower case of a character, in the locale of the database. -/
  lower : Char → Char
  /-- The time zone of the sessions. -/
  zone : Zone

namespace Archive

variable (a : Archive)

/-- A read. -/
def reads {α : Type} (r : Except StoreErr α) : Except StoreErr α × Archive := (r, a)

/-- A write of `api_keys`; one that fails changes nothing. -/
def writesKeys (r : Except StoreErr APIKeys) : Except StoreErr Unit × Archive :=
  match r with
  | .error e => (.error e, a)
  | .ok keys => (.ok (), { a with apiKeys := keys })

/-- The call, the rows of a query in table order. -/
def exec : (q : AdminCall) → Archive → Except StoreErr q.Out × Archive
  | .createAPIKey k, a => a.writesKeys (a.apiKeys.create k)
  | .findAPIKeyByHash hash now, a =>
    match a.apiKeys.findByHash hash now with
    | .error e => (.error e, a)
    | .ok (k, keys) => (.ok k, { a with apiKeys := keys })
  | .listAPIKeys, a => a.reads (.ok a.apiKeys.rows)
  | .revokeAPIKey id now, a => a.writesKeys (a.apiKeys.revoke id now)
  | .createInbound ib, a =>
    match h : Store.createInbound a.db.tables ib with
    | .error e => (.error e, a)
    | .ok t => (.ok (), { a with db := ⟨t, createInbound_valid a.db.valid h⟩ })
  | .listInboundsByNode nodeID, a => a.reads (.ok (Store.listInboundsByNode a.db.tables nodeID))
  | .listPlans, a => a.reads (.ok a.db.tables.plans)
  | .countUsers f, a => a.reads (.ok (Store.countUsers a.lower a.db.tables f))
  | .selectUsers f, a => a.reads (Store.selectUsers a.lower a.db.tables a.createdAt f)
  | .userUsage userID since upto groupBy, a =>
    a.reads (Store.userUsage a.zone a.db.tables userID since upto groupBy)
  | .pruneSnapshots before, a =>
    (.ok (Store.pruneSnapshots a.db.tables before).1,
      { a with
        db := ⟨(Store.pruneSnapshots a.db.tables before).2, pruneSnapshots_valid a.db.valid⟩ })

/-- What a call that reaches the database may answer: the order of rows is open where the source
leaves it open. -/
def Answers : (q : AdminCall) → Archive → Except StoreErr q.Out → Prop
  | .listAPIKeys, a, r => ∃ keys, r = .ok keys ∧ keys.Perm a.apiKeys.rows
  | .listInboundsByNode nodeID, a, r =>
    ∃ inbounds, r = .ok inbounds ∧ inbounds.Perm (Store.listInboundsByNode a.db.tables nodeID)
  | .listPlans, a, r => ∃ plans, r = .ok plans ∧ plans.Perm a.db.tables.plans
  | .selectUsers f, a, r => SelectsUsers a.lower a.db.tables a.createdAt f r
  | q, a, r => r = (exec q a).1

theorem answers_exec (q : AdminCall) : Answers q a (exec q a).1 := by
  cases q with
  | listAPIKeys => exact ⟨_, rfl, .refl _⟩
  | listInboundsByNode nodeID => exact ⟨_, rfl, .refl _⟩
  | listPlans => exact ⟨_, rfl, .refl _⟩
  | selectUsers f => exact selectsUsers_selectUsers _ _ _ f
  | createAPIKey k => rfl
  | findAPIKeyByHash hash now => rfl
  | revokeAPIKey id now => rfl
  | createInbound ib => rfl
  | countUsers f => rfl
  | userUsage userID since upto groupBy => rfl
  | pruneSnapshots before => rfl

/-- No call changes a time of creation or a setting of the database. -/
theorem exec_keeps (q : AdminCall) :
    (exec q a).2.createdAt = a.createdAt ∧ (exec q a).2.zone = a.zone := by
  cases q with
  | createAPIKey k | revokeAPIKey id now =>
      unfold exec writesKeys
      dsimp only
      split <;> exact ⟨rfl, rfl⟩
  | findAPIKeyByHash hash now | createInbound ib =>
      unfold exec
      dsimp only
      split <;> exact ⟨rfl, rfl⟩
  | _ => exact ⟨rfl, rfl⟩

end Archive

end XrayApi.Store
