import XrayApi.Service.UserOps

/-!
# The inbounds of a node

The part of `internal/service/nodes.go` that changes inbounds. An update checks its input, writes
every column but the key and the node, and triggers the node; a deletion is one statement, and
triggers nothing. `InboundChange.Effect` is what a change does to the tables when it does something.
-/

set_option autoImplicit false

namespace XrayApi.Service

open Transition Store Relational

/-- The payload of an update; an absent network or security is the empty text. -/
structure InboundInput where
  tag : String
  protocol : Protocol
  listenPort : Int
  publicHost : String
  publicPort : Int
  network : Network
  security : Security
  wsPath : String
  hostHeader : String
  grpcServiceName : String
  sni : String
  fingerprint : String
  realityPublicKey : String
  realityShortID : String
  flow : String
  method : String
  xhttpMode : String
  remark : String
  deriving DecidableEq, Repr

/-- `InboundInput.validate`; the first check that fails gives the error. -/
def InboundInput.validate (inp : InboundInput) : Except Err Unit :=
  if inp.tag = "" then .error (.validation "tag is required")
  else if inp.protocol.valid = false then
    .error (.validation "protocol must be vless|vmess|trojan")
  else if inp.publicHost = "" then .error (.validation "public_host is required")
  else if inp.publicPort ≤ 0 ∨ 65535 < inp.publicPort then
    .error (.validation "public_port must be 1-65535")
  else if inp.network ≠ .other "" ∧ inp.network.valid = false then
    .error (.validation "invalid network")
  else if inp.security ≠ .other "" ∧ inp.security.valid = false then
    .error (.validation "invalid security")
  else if inp.protocol = .shadowsocks ∧ inp.method = "" then
    .error (.validation "method is required for shadowsocks")
  else if inp.protocol = .shadowsocks ∧ inp.method ∉ shadowsocksMethods then
    .error (.validation "unsupported shadowsocks method")
  else if inp.xhttpMode ≠ "" ∧ inp.xhttpMode ∉ ["auto", "packet-up", "stream-up", "stream-one"] then
    .error (.validation "invalid xhttp_mode")
  else .ok ()

/-- A payload that passes every check. An empty network or security stands for its default. -/
structure InboundInput.Valid (inp : InboundInput) : Prop where
  tag : inp.tag ≠ ""
  protocol : inp.protocol.valid = true
  publicHost : inp.publicHost ≠ ""
  publicPort : 0 < inp.publicPort ∧ inp.publicPort ≤ 65535
  network : inp.network ≠ .other "" → inp.network.valid = true
  security : inp.security ≠ .other "" → inp.security.valid = true
  method : inp.protocol = .shadowsocks → inp.method ∈ shadowsocksMethods
  xhttpMode : inp.xhttpMode ≠ "" →
    inp.xhttpMode ∈ ["auto", "packet-up", "stream-up", "stream-one"]

theorem ite_error_eq_ok {ε α : Type} {c : Prop} [Decidable c] {e : ε} {x : Except ε α} {a : α} :
    (if c then .error e else x) = .ok a ↔ ¬ c ∧ x = .ok a := by
  split_ifs with h <;> simp [h]

theorem InboundInput.validate_eq_ok {inp : InboundInput} (h : inp.validate = .ok ()) :
    inp.Valid := by
  simp only [InboundInput.validate, ite_error_eq_ok, not_and, not_or, not_lt, not_le,
    Bool.not_eq_false, Classical.not_not] at h
  obtain ⟨htag, hprotocol, hhost, hport, hnetwork, hsecurity, -, hmethod, hmode, -⟩ := h
  exact ⟨htag, hprotocol, hhost, hport, hnetwork, hsecurity, hmethod, hmode⟩

/-- The row of a payload, without its key and its node. -/
def inboundFromInput (inp : InboundInput) : Inbound where
  id := ""
  nodeID := ""
  tag := inp.tag
  protocol := inp.protocol
  listenPort := inp.listenPort
  publicHost := inp.publicHost
  publicPort := inp.publicPort
  network := if inp.network = .other "" then .tcp else inp.network
  security := if inp.security = .other "" then .none else inp.security
  wsPath := inp.wsPath
  hostHeader := inp.hostHeader
  grpcServiceName := inp.grpcServiceName
  sni := inp.sni
  fingerprint := inp.fingerprint
  realityPublicKey := inp.realityPublicKey
  realityShortID := inp.realityShortID
  flow := inp.flow
  method := inp.method
  xhttpMode := inp.xhttpMode
  remark := inp.remark

/-- The row an update of `existing` writes. -/
def InboundInput.row (inp : InboundInput) (existing : Inbound) : Inbound :=
  { inboundFromInput inp with id := existing.id, nodeID := existing.nodeID }

def updateInbound (id : ID) (inp : InboundInput) : Service Inbound := do
  let existing : Inbound ← query (.getInbound id)
  match inp.validate with
  | .error e => Req.throw e
  | .ok _ => do
    query (.updateInbound (inp.row existing))
    trigger existing.nodeID
    query (.getInbound id)

def deleteInbound (id : ID) : Service Unit := query (.deleteInbound id)

/-! ## Rows of the inbounds -/

section Rows

variable {t t' : Tables} {id : ID} {i : Inbound}

theorem getInbound_eq_ok : getInbound t id = .ok i ↔ lookup Inbound.id id t.inbounds = some i := by
  unfold getInbound oneRow
  cases lookup Inbound.id id t.inbounds with
  | none => simp
  | some v => simp

theorem getInbound_id (h : getInbound t id = .ok i) : i.id = id :=
  key_of_lookup (getInbound_eq_ok.1 h)

/-- An update changes the row with its key and no other. -/
theorem lookup_updateInbound {ib : Inbound} (h : Store.updateInbound t ib = .ok t') :
    lookup Inbound.id id t'.inbounds =
      (lookup Inbound.id id t.inbounds).map fun r =>
        if id = ib.id then persistInbound ib r else r := by
  obtain ⟨-, -, rfl⟩ := updateInbound_eq_ok h
  have hrow : lookup Inbound.id id (updateWhere (fun r => decide (r.id = ib.id)) (persistInbound ib)
      t.inbounds) = _ := lookup_updateWhere _ (persistInbound ib) fun _ _ => rfl
  refine hrow.trans ?_
  cases hl : lookup Inbound.id id t.inbounds with
  | none => rfl
  | some r =>
      have hid := key_of_lookup hl
      simp only [Option.map_some, decide_eq_true_eq, hid]

/-- A deletion takes the row with its key away and no other. -/
theorem lookup_deleteInbound {id' : ID} (h : Store.deleteInbound t id' = .ok t') :
    lookup Inbound.id id t'.inbounds =
      if id = id' then none else lookup Inbound.id id t.inbounds := by
  cases (requireInbound_eq_ok.1 h).2
  split_ifs with heq
  · subst heq
    exact lookup_filter_of_drop fun r _ hr => decide_eq_false (not_not.2 hr)
  · exact lookup_filter_of_keep fun r _ hr => decide_eq_true (by rw [hr]; exact heq)

end Rows

/-! ## Changes -/

/-- A change of an inbound. -/
inductive InboundChange
  | update (id : ID) (inp : InboundInput)
  | delete (id : ID)

namespace InboundChange

/-- The inbound that is changed. -/
def id : InboundChange → ID
  | update id _ => id
  | delete id => id

/-- The change; its result is dropped. -/
def service : InboundChange → Service Unit
  | update id inp => do
    let _ ← updateInbound id inp
    pure ()
  | delete id => deleteInbound id

/-- What the change does to the tables when it does something. -/
def Effect : InboundChange → Tables → Tables → Prop
  | update id inp, t, t' => ∃ i, getInbound t id = .ok i ∧ inp.validate = .ok () ∧
    Store.updateInbound t (inp.row i) = .ok t'
  | delete id, t, t' => Store.deleteInbound t id = .ok t'

/-- The row of the inbound `i` after the change. -/
def result (i : Inbound) : InboundChange → Option Inbound
  | update _ inp => some (inp.row i)
  | delete _ => none

section Effect

variable {c : InboundChange} {t t' : Tables}

/-- Users and the rows of other inbounds are as before. -/
theorem Effect.rows (h : c.Effect t t') :
    t'.users = t.users ∧ ∀ r ∈ t.userInbounds, r.inboundID ≠ c.id → r ∈ t'.userInbounds := by
  cases c with
  | update id inp =>
      obtain ⟨i, -, -, hwrite⟩ := h
      obtain ⟨-, -, rfl⟩ := updateInbound_eq_ok hwrite
      exact ⟨rfl, fun r hr _ => hr⟩
  | delete id =>
      cases (requireInbound_eq_ok.1 h).2
      exact ⟨rfl, fun r hr hne => List.mem_filter.2 ⟨hr, decide_eq_true hne⟩⟩

theorem Effect.lookup_of_ne (h : c.Effect t t') {id : ID} (hid : id ≠ c.id) :
    lookup Inbound.id id t'.inbounds = lookup Inbound.id id t.inbounds := by
  cases c with
  | update id' inp =>
      obtain ⟨i, hi, -, hwrite⟩ := h
      have hiid := getInbound_id hi
      have hne : id ≠ (inp.row i).id := fun he => hid (he.trans hiid)
      rw [lookup_updateInbound hwrite]
      simp only [hne, if_false]
      exact Option.map_id'
  | delete id' =>
      rw [lookup_deleteInbound h]
      exact if_neg hid

theorem Effect.lookup_self {i : Inbound} (h : c.Effect t t') (hi : getInbound t c.id = .ok i) :
    lookup Inbound.id c.id t'.inbounds = c.result i := by
  cases c with
  | update id inp =>
      obtain ⟨i', hi', -, hwrite⟩ := h
      cases hi.symm.trans hi'
      have hiid := getInbound_id hi'
      have hid : id = (inp.row i).id := hiid.symm
      change lookup Inbound.id id t'.inbounds = some (inp.row i)
      rw [lookup_updateInbound hwrite, getInbound_eq_ok.1 hi', Option.map_some, if_pos hid]
      rfl
  | delete id =>
      rw [lookup_deleteInbound h]
      exact if_pos rfl

end Effect

theorem readsOnly_getInbound (id : ID) : ReadsOnly (.db (.getInbound id)) :=
  readsOnly_of_isWrite_eq_false rfl

theorem update_leaves (id : ID) (inp : InboundInput) (w : World) :
    Leaves (updateInbound id inp) w fun t => t = w.tables ∨ (update id inp).Effect w.tables t := by
  refine leaves_query_bind (Or.inl rfl) fun i t happly w₁ hw₁ => ?_
  obtain ⟨hi, rfl⟩ := StoreCall.read_eq_ok.1 happly
  cases hvalid : inp.validate with
  | error e => exact leaves_throw (Or.inl hw₁)
  | ok u =>
      refine leaves_write (Or.inl hw₁) (fun o t hq => Or.inr ?_) fun o => ?_
      · rw [hw₁] at hq
        exact ⟨i, hi, hvalid, StoreCall.wrote_eq_ok.1 hq⟩
      · exact Req.forall_bind ⟨readsOnly_trigger i.nodeID, fun _ => trivial⟩
          fun _ => ⟨readsOnly_getInbound id, fun _ => trivial⟩

/-- A change run alone, whatever it returns, leaves the tables or has its effect. -/
theorem effect_of_run (c : InboundChange) (w : World) :
    (c.service.run exec w).2.tables = w.tables ∨
      c.Effect w.tables (c.service.run exec w).2.tables := by
  cases c with
  | update id inp => exact leaves_dropped (update_leaves id inp w)
  | delete id =>
      obtain ⟨e, -, hx⟩ | ⟨o, t, hq, -, ht⟩ := w.db.exec_cases (.deleteInbound id)
      · refine Or.inl ?_
        change (w.db.exec (.deleteInbound id)).2.tables = w.tables
        rw [hx]
      · refine Or.inr ?_
        change Store.deleteInbound w.tables id = .ok (w.db.exec (.deleteInbound id)).2.tables
        rw [ht]
        exact StoreCall.wrote_eq_ok.1 hq

/-- A change that succeeds has had its effect. -/
theorem effect_of_returns {c : InboundChange} {w w' : World} (h : Returns c.service w () w') :
    c.Effect w.tables w'.tables := by
  cases c with
  | update id inp =>
      obtain ⟨u, h⟩ := UserOp.of_returns_dropped h
      obtain ⟨i, w₁, h₁, h⟩ := returns_bind.1 h
      obtain ⟨hi, ht₁⟩ := StoreCall.read_eq_ok.1 (returns_query.1 h₁).1
      cases hvalid : inp.validate with
      | error e =>
          rw [hvalid] at h
          exact (not_returns_throw h).elim
      | ok u =>
          rw [hvalid] at h
          obtain ⟨⟨⟩, w₂, h₂, h⟩ := returns_bind.1 h
          obtain ⟨⟨⟩, w₃, h₃, h⟩ := returns_bind.1 h
          have hq := StoreCall.wrote_eq_ok.1 (returns_query.1 h₂).1
          have ht₃ : w₃.tables = w₂.tables := by
            have hw₃ : (exec (.trigger i.nodeID) w₂).2 = w₃ := congrArg Prod.snd h₃
            rw [← hw₃]
            rfl
          have ht : w'.tables = w₃.tables := (StoreCall.read_eq_ok.1 (returns_query.1 h).1).2
          rw [ht₁] at hq
          rw [ht, ht₃]
          exact ⟨i, hi, hvalid, hq⟩
  | delete id => exact StoreCall.wrote_eq_ok.1 (returns_query.1 h).1

end InboundChange

/-! ## Requests and the nodes -/

/-- The step is on the database or a trigger channel. -/
def OffNode : Stmt → Prop
  | .db _ => True
  | .trigger _ => True
  | _ => False

/-- A request does not talk to the nodes: it leaves their accounts alone. -/
theorem accounts_of_run {α : Type} {p : Service α} (hp : Prog.Forall OffNode p) (w : World) :
    (p.run exec w).2.accounts = w.accounts := by
  refine Prog.Forall.run_invariant (I := fun v : World => v.accounts = w.accounts)
    (fun s v hs hv => ?_) hp rfl
  cases s with
  | db q => exact hv
  | trigger n => exact hv
  | _ => exact hs.elim

theorem offNode_query (q : StoreCall) : Prog.Forall OffNode (query q) :=
  ⟨trivial, fun _ => trivial⟩

theorem offNode_reconcile_getUser (id id' : ID) :
    Prog.Forall OffNode (reconcileForUser id >>= fun _ => query (.getUser id') : Service User) :=
  Req.forall_bind (reconcileForUser_forall trivial fun _ => trivial) fun _ => offNode_query _

theorem offNode_create (inp : CreateInput) (fresh : Fresh) (now : Time) :
    Prog.Forall OffNode (create inp fresh now) := by
  unfold create
  split_ifs with hblank hids
  · trivial
  · trivial
  · refine Req.forall_bind ?_ fun limits => ?_
    · unfold snapshotLimits
      cases inp.planID with
      | none => trivial
      | some planID => exact Req.forall_bind (offNode_query _) fun plan => trivial
    · refine Req.forall_bind (offNode_query _) fun inbounds => ?_
      split_ifs with hlen
      · trivial
      · exact Req.forall_bind (offNode_query _) fun _ => offNode_reconcile_getUser _ _

theorem offNode_delete (id : ID) : Prog.Forall OffNode (delete id) := by
  refine Req.forall_bind (offNode_query _) fun targets => ?_
  refine Req.forall_bind (offNode_query _) fun _ => ?_
  exact Req.forall_bind (triggerAll_forall (fun _ => trivial) _) fun _ => offNode_query _

theorem InboundChange.offNode (c : InboundChange) : Prog.Forall OffNode c.service := by
  cases c with
  | update id inp =>
      refine Req.forall_bind ?_ fun _ => trivial
      refine Req.forall_bind (offNode_query _) fun i => ?_
      cases inp.validate with
      | error e => trivial
      | ok u =>
          refine Req.forall_bind (offNode_query _) fun _ => ?_
          exact Req.forall_bind ⟨trivial, fun _ => trivial⟩ fun _ => offNode_query _
  | delete id => exact offNode_query _

end XrayApi.Service
