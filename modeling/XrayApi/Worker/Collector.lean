import XrayApi.Service.Users
import XrayApi.Worker.Reconciler

/-!
# The collector and the expiry sweep

`nodeActor.collect` of `internal/worker/collector.go`: read the node's counters, merge them into the
buffer of deltas not yet written, resolve the emails, write the deltas in one transaction. The
buffer is passed in and returned; every early return of the source returns it as it then is.

Go ranges over the buffer in an order of its own, so a cycle takes that order as an argument.
`Collecting` names the points at which a collector can stand, with the buffer as it is there.

`sweepExpired` is one round of `runExpirySweeper` of `internal/worker/expiry.go`.
-/

set_option autoImplicit false

namespace XrayApi

open Transition Store Relational Service

/-! ## The buffer -/

namespace TrafficReport

/-- A counter that was just read, merged into the buffer: added to the entry of its email, or
entered. Go's `+=` on `int64` wraps around. -/
def add (p : TrafficReport) (t : UserTraffic) : TrafficReport where
  entries :=
    if t.email ∈ p.entries.map UserTraffic.email then
      updateWhere (fun r => decide (r.email = t.email))
        (fun r => { r with
          uplink := r.uplink + t.uplink
          downlink := r.downlink + t.downlink }) p.entries
    else p.entries ++ [t]
  distinct := by
    split_ifs with h
    · rw [map_updateWhere _ _ UserTraffic.email fun _ => by intro _; rfl]
      exact p.distinct
    · exact nodup_map_append_singleton p.distinct h

/-- The merge loop. -/
def merge (p : TrafficReport) (traffic : List UserTraffic) : TrafficReport :=
  traffic.foldl add p

/-- The emails of the buffer. -/
def emails (p : TrafficReport) : List String := p.entries.map UserTraffic.email

end TrafficReport

namespace Worker

/-- The deltas read and not yet written, by email. -/
abbrev PendingDeltas : Type := TrafficReport

/-- What a cycle gets from outside: the order in which Go ranges over the buffer, and the time. -/
structure Cycle where
  order : List UserTraffic → List UserTraffic
  perm : ∀ l, (order l).Perm l
  collectedAt : Time

/-- The deltas to write; an email without a user is dropped. -/
def deltas (c : Cycle) (p : PendingDeltas) (idByEmail : String → Option ID) : List TrafficDelta :=
  (c.order p.entries).filterMap fun t =>
    (idByEmail t.email).map fun id => ⟨id, t.uplink, t.downlink⟩

/-! ## The program -/

/-- `ReconcileForUser` for each of the users. -/
def reconcileEach : List ID → Service Unit
  | [] => pure ()
  | id :: rest => do
    reconcileForUser id
    reconcileEach rest

theorem reconcileEach_forall {P : Stmt → Prop}
    (hlist : ∀ id, P (.db (.assignmentTargetsForUser id))) (htrigger : ∀ n, P (.trigger n))
    (ids : List ID) : Prog.Forall P (reconcileEach ids) := by
  induction ids with
  | nil => trivial
  | cons id rest ih =>
      exact Req.forall_bind (reconcileForUser_forall (hlist id) htrigger) fun _ => ih

/-- Flip due users to expired and wake their nodes. -/
def sweepExpired (now : Time) : Service Unit := do
  let ids ← query (.expireDueUsers now)
  reconcileEach ids

/-- Write deltas and wake the nodes of the users over quota: the part of a cycle that changes the
database. -/
def commitDeltas (n : ID) (ds : List TrafficDelta) (collectedAt : Time) : Service Unit := do
  let overQuota ← query (.applyTrafficDeltas n ds collectedAt)
  reconcileEach overQuota

/-- Write the deltas and clear the buffer; keep it if the write fails. -/
def writeDeltas (n : ID) (c : Cycle) (p : PendingDeltas) (idByEmail : String → Option ID) :
    Service PendingDeltas := do
  match ← attempt (.applyTrafficDeltas n (deltas c p idByEmail) c.collectedAt) with
  | .error _ => pure p
  | .ok overQuota => do
    reconcileEach overQuota
    pure .empty

/-- Resolve the emails of the merged buffer; keep it if that fails. -/
def resolve (n : ID) (c : Cycle) (p : PendingDeltas) : Service PendingDeltas :=
  if p.entries = [] then pure p
  else do
    match ← attempt (.userIDsByEmail p.emails) with
    | .error _ => pure p
    | .ok idByEmail => writeDeltas n c p idByEmail

/-- Read and reset the node's counters. -/
def queryTraffic (n : ID) (c : Cycle) (p : PendingDeltas) : Service PendingDeltas := do
  let r ← (Prog.call (.queryUserTraffic n) fun r => Prog.ret (.ok r) :
    Service (Except StoreErr (List UserTraffic)))
  match r with
  | .error _ => pure p
  | .ok traffic => resolve n c (p.merge traffic)

/-- One cycle of a node's collector. -/
def collect (n : ID) (c : Cycle) (p : PendingDeltas) : Service PendingDeltas := do
  let r ← (Prog.call (.dial n) fun r => Prog.ret (.ok r) : Service (Except StoreErr Unit))
  match r with
  | .error _ => pure p
  | .ok _ => queryTraffic n c p

/-! ## Control points -/

/-- Where a collector stands; `waking` is the loop over the suspended users, after the commit. -/
inductive Collecting
  | idle (p : PendingDeltas)
  | dialing (c : Cycle) (p : PendingDeltas)
  | querying (c : Cycle) (p : PendingDeltas)
  | resolving (c : Cycle) (p : PendingDeltas)
  | writing (c : Cycle) (p : PendingDeltas) (idByEmail : String → Option ID)
  | waking (rest : Service Unit)

namespace Collecting

/-- The rest of the cycle. -/
def prog (n : ID) : Collecting → Service PendingDeltas
  | idle p => pure p
  | dialing c p => collect n c p
  | querying c p => queryTraffic n c p
  | resolving c p => resolve n c p
  | writing c p idByEmail => writeDeltas n c p idByEmail
  | waking rest => rest >>= fun _ => pure .empty

/-- The field `pendingDeltas` of the actor. -/
def pendingDeltas : Collecting → PendingDeltas
  | idle p => p
  | dialing _ p => p
  | querying _ p => p
  | resolving _ p => p
  | writing _ p _ => p
  | waking _ => .empty

/-- One statement of a cycle, its answer and the next control point. -/
inductive Step (n : ID) : Collecting → (s : Stmt) → s.Res → Collecting → Prop
  | dialed (c : Cycle) (p : PendingDeltas) :
      Step n (dialing c p) (.dial n) (.ok ()) (querying c p)
  | dialFailed (c : Cycle) (p : PendingDeltas) (e : StoreErr) :
      Step n (dialing c p) (.dial n) (.error e) (idle p)
  | queried (c : Cycle) (p : PendingDeltas) (traffic : List UserTraffic) :
      Step n (querying c p) (.queryUserTraffic n) (.ok traffic) (resolving c (p.merge traffic))
  | queryFailed (c : Cycle) (p : PendingDeltas) (e : StoreErr) :
      Step n (querying c p) (.queryUserTraffic n) (.error e) (idle p)
  | resolved (c : Cycle) (p : PendingDeltas) (idByEmail : String → Option ID) :
      p.entries ≠ [] →
      Step n (resolving c p) (.db (.userIDsByEmail p.emails)) (.ok idByEmail)
        (writing c p idByEmail)
  | resolveFailed (c : Cycle) (p : PendingDeltas) (e : StoreErr) : p.entries ≠ [] →
      Step n (resolving c p) (.db (.userIDsByEmail p.emails)) (.error e) (idle p)
  | wrote (c : Cycle) (p : PendingDeltas) (idByEmail : String → Option ID) (overQuota : List ID) :
      Step n (writing c p idByEmail)
        (.db (.applyTrafficDeltas n (deltas c p idByEmail) c.collectedAt)) (.ok overQuota)
        (waking (reconcileEach overQuota))
  | writeFailed (c : Cycle) (p : PendingDeltas) (idByEmail : String → Option ID) (e : StoreErr) :
      Step n (writing c p idByEmail)
        (.db (.applyTrafficDeltas n (deltas c p idByEmail) c.collectedAt)) (.error e) (idle p)
  | woke (s : Stmt) (k : s.Res → Service Unit) (r : s.Res) :
      Step n (waking (Prog.call s k)) s r (waking (k r))

/-- The program stands at a control point after every answer. -/
theorem prog_step {n : ID} {q : Collecting} {s : Stmt}
    {k : s.Res → Prog Stmt Stmt.Res (Except Err PendingDeltas)}
    (h : q.prog n = Prog.call s k) (r : s.Res) : ∃ q', Step n q s r q' ∧ k r = q'.prog n := by
  cases q with
  | idle p => cases h
  | dialing c p =>
      cases h
      cases r with
      | ok u => exact ⟨_, Step.dialed c p, rfl⟩
      | error e => exact ⟨_, Step.dialFailed c p e, rfl⟩
  | querying c p =>
      cases h
      cases r with
      | ok traffic => exact ⟨_, Step.queried c p traffic, rfl⟩
      | error e => exact ⟨_, Step.queryFailed c p e, rfl⟩
  | resolving c p =>
      simp only [prog, resolve] at h
      split_ifs at h with hp
      cases h
      cases r with
      | ok idByEmail => exact ⟨_, Step.resolved c p idByEmail hp, rfl⟩
      | error e => exact ⟨_, Step.resolveFailed c p e hp, rfl⟩
  | writing c p idByEmail =>
      cases h
      cases r with
      | ok overQuota => exact ⟨_, Step.wrote c p idByEmail overQuota, rfl⟩
      | error e => exact ⟨_, Step.writeFailed c p idByEmail e, rfl⟩
  | waking rest =>
      cases rest with
      | ret a => cases a <;> cases h
      | call s' k' =>
          cases h
          exact ⟨_, Step.woke _ k' r, rfl⟩

/-- What a cycle returns is the field it leaves. -/
theorem pendingDeltas_of_ret {n : ID} {q : Collecting} {p : PendingDeltas}
    (h : q.prog n = Prog.ret (.ok p)) : p = q.pendingDeltas := by
  cases q with
  | idle p' => cases h; rfl
  | dialing c p' => cases h
  | querying c p' => cases h
  | resolving c p' =>
      simp only [prog, resolve] at h
      split_ifs at h with hp
      · cases h; rfl
      · cases h
  | writing c p' idByEmail => cases h
  | waking rest =>
      cases rest with
      | ret a =>
          cases a with
          | ok u => cases h; rfl
          | error e => cases h
      | call s k => cases h

end Collecting

end Worker

end XrayApi
