import XrayApi.System.Exec

/-!
# The user service

`internal/service/users.go`, with `Manager.ReconcileForUser`. Each operation is a program over store
calls and triggers. The readings of the clock and the random values an operation makes are its
parameters; `Renew` reads the clock twice.
-/

set_option autoImplicit false

namespace XrayApi.Service

open Transition Store

/-! ## Helpers -/

/-- `unicode.IsSpace`. -/
def isSpace (c : Char) : Bool :=
  decide (c.toNat ∈ [9, 10, 11, 12, 13, 32, 0x85, 0xA0, 0x1680, 0x2028, 0x2029, 0x202F, 0x205F,
    0x3000]) || decide (0x2000 ≤ c.toNat ∧ c.toNat ≤ 0x200A)

/-- `strings.TrimSpace(s) == ""`. -/
def isBlank (s : String) : Bool := s.toList.all isSpace

/-- `dedup` with the ids seen so far. -/
def dedupFrom (seen : List ID) : List ID → List ID
  | [] => []
  | id :: ids => if id ∈ seen then dedupFrom seen ids else id :: dedupFrom (id :: seen) ids

/-- The first occurrence of each id, in order. -/
def dedup (ids : List ID) : List ID := dedupFrom [] ids

theorem mem_dedupFrom {id : ID} {seen ids : List ID} :
    id ∈ dedupFrom seen ids ↔ id ∈ ids ∧ id ∉ seen := by
  induction ids generalizing seen with
  | nil => simp [dedupFrom]
  | cons a ids ih =>
      rw [dedupFrom]
      split_ifs with ha
      · rw [ih, List.mem_cons]
        exact ⟨fun h => ⟨Or.inr h.1, h.2⟩,
          fun h => ⟨h.1.resolve_left fun heq => h.2 (heq ▸ ha), h.2⟩⟩
      · rw [List.mem_cons, ih, List.mem_cons, List.mem_cons]
        by_cases heq : id = a
        · simp [heq, ha]
        · simp [heq]

@[simp] theorem mem_dedup {id : ID} {ids : List ID} : id ∈ dedup ids ↔ id ∈ ids := by
  simp [dedup, mem_dedupFrom]

theorem nodup_dedup (ids : List ID) : (dedup ids).Nodup := by
  have hfrom : ∀ seen, (dedupFrom seen ids).Nodup := by
    induction ids with
    | nil => exact fun _ => List.nodup_nil
    | cons a ids ih =>
        intro seen
        rw [dedupFrom]
        split_ifs with ha
        · exact ih seen
        · refine List.nodup_cons.2 ⟨fun hmem => ?_, ih (a :: seen)⟩
          exact (mem_dedupFrom.1 hmem).2 List.mem_cons_self
  exact hfrom []

/-- The nodes of a list of targets, each once. -/
def distinctNodes (targets : List DesiredAssignment) : List ID :=
  dedup (targets.map DesiredAssignment.nodeID)

/-- Trigger the nodes of a list, in order. -/
def triggerAll : List ID → Service Unit
  | [] => pure ()
  | n :: ns => do
    trigger n
    triggerAll ns

theorem triggerAll_forall {P : Stmt → Prop} (hP : ∀ n, P (.trigger n)) (ns : List ID) :
    Prog.Forall P (triggerAll ns) := by
  induction ns with
  | nil => trivial
  | cons n ns ih => exact Req.forall_bind ⟨hP n, fun _ => trivial⟩ fun _ => ih

/-- Trigger every node the user is assigned to; a failure to list them is logged and dropped. -/
def reconcileForUser (userID : ID) : Service Unit := do
  match ← attempt (.assignmentTargetsForUser userID) with
  | .error _ => pure ()
  | .ok targets => triggerAll (distinctNodes targets)

theorem reconcileForUser_forall {P : Stmt → Prop} {id : ID}
    (hlist : P (.db (.assignmentTargetsForUser id))) (htrigger : ∀ n, P (.trigger n)) :
    Prog.Forall P (reconcileForUser id) := by
  refine Req.forall_bind ⟨hlist, fun _ => trivial⟩ fun r => ?_
  cases r with
  | ok targets => exact triggerAll_forall htrigger _
  | error e => trivial

/-- The expiry is set and lies after `now`. -/
def expiresAfter (u : User) (now : Time) : Bool :=
  match u.expiresAt with
  | none => false
  | some t => decide (now < t)

/-! ## Create -/

structure CreateInput where
  email : String
  planID : Option ID
  inboundIDs : List ID
  dataLimitBytes : Option Int64
  expiresAt : Option Time
  note : String
  externalID : Option String
  deriving DecidableEq, Repr

/-- The random values of a new user. -/
structure Fresh where
  id : ID
  uuid : ID
  trojanPassword : String
  subToken : String
  deriving DecidableEq, Repr

/-- The limit and the expiry, from the plan where the input does not override them. -/
def snapshotLimits (inp : CreateInput) (now : Time) : Service (Option Int64 × Option Time) :=
  match inp.planID with
  | none => pure (inp.dataLimitBytes, inp.expiresAt)
  | some planID => do
    let plan : Plan ← query (.getPlan planID)
    pure (inp.dataLimitBytes.or plan.dataLimitBytes,
      inp.expiresAt.or (plan.durationDays.map (addDays now)))

def newUser (inp : CreateInput) (fresh : Fresh) (limit : Option Int64) (expires : Option Time) :
    User where
  id := fresh.id
  email := inp.email
  uuid := fresh.uuid
  trojanPassword := fresh.trojanPassword
  planID := inp.planID
  status := .active
  dataLimitBytes := limit
  usedUploadBytes := 0
  usedDownloadBytes := 0
  expiresAt := expires
  subToken := fresh.subToken
  note := inp.note
  externalID := inp.externalID

def create (inp : CreateInput) (fresh : Fresh) (now : Time) : Service User :=
  if isBlank inp.email then Req.throw (.validation "email is required")
  else if inp.inboundIDs = [] then
    Req.throw (.validation "at least one inbound_id is required")
  else do
    let limits ← snapshotLimits inp now
    let inbounds : List Inbound ← query (.listInboundsByIDs inp.inboundIDs)
    if inbounds.length ≠ (dedup inp.inboundIDs).length then
      Req.throw (.validation "one or more inbound_ids do not exist")
    else do
      let u := newUser inp fresh limits.1 limits.2
      query (.createWithAssignmentsTx u (inbounds.map Inbound.id))
      reconcileForUser u.id
      query (.getUser u.id)

/-! ## Update and assignments -/

/-- A patch; fields that are absent leave the column as it is. -/
structure UpdateInput where
  planID : Option ID
  dataLimitBytes : Option Int64
  expiresAt : Option Time
  clearExpiry : Bool
  note : Option String
  status : Option UserStatus
  deriving DecidableEq, Repr

/-- The columns of the patch, before the reactivation. -/
def UpdateInput.fields (inp : UpdateInput) (u : User) : User :=
  { u with
    planID := inp.planID.or u.planID
    dataLimitBytes := inp.dataLimitBytes.or u.dataLimitBytes
    expiresAt := if inp.clearExpiry then none else inp.expiresAt.or u.expiresAt
    note := inp.note.getD u.note
    status := inp.status.getD u.status }

/-- The patch; an expired user whose expiry now lies in the future is reactivated. -/
def UpdateInput.patch (inp : UpdateInput) (now : Time) (u : User) : User :=
  if (inp.fields u).status = .expired ∧ expiresAfter (inp.fields u) now then
    { inp.fields u with status := .active }
  else inp.fields u

theorem patch_id (inp : UpdateInput) (now : Time) (u : User) : (inp.patch now u).id = u.id := by
  unfold UpdateInput.patch
  split_ifs <;> rfl

def update (id : ID) (inp : UpdateInput) (now : Time) : Service User := do
  let u : User ← query (.getUser id)
  query (.updateUser (inp.patch now u))
  reconcileForUser u.id
  query (.getUser id)

/-- The nodes of the old targets and of the new inbounds, each once. -/
def reconcileNodes (oldTargets : List DesiredAssignment) (newInbounds : List Inbound) :
    Service Unit :=
  triggerAll (dedup (oldTargets.map DesiredAssignment.nodeID ++ newInbounds.map Inbound.nodeID))

/-- Replace the assignment set of a user. A nil list passes the check and tombstones nothing. -/
def setInbounds (id : ID) (inboundIDs : Slice ID) : Service User := do
  let _ ← query (.getUser id)
  let inbounds : List Inbound ← query (.listInboundsByIDs inboundIDs.elems)
  if inbounds.length ≠ (dedup inboundIDs.elems).length then
    Req.throw (.validation "one or more inbound_ids do not exist")
  else do
    -- the error of this read is dropped
    let oldTargets ← attempt (.assignmentTargetsForUser id)
    query (.setAssignmentsForUserTx id inboundIDs)
    reconcileNodes (oldTargets.toOption.getD []) inbounds
    query (.getUser id)

/-! ## Suspend, resume and traffic reset -/

def setStatusAndReconcile (id : ID) (status : UserStatus) : Service User := do
  query (.setUserStatus id status)
  reconcileForUser id
  query (.getUser id)

def suspend (id : ID) : Service User := setStatusAndReconcile id .disabled

def resume (id : ID) (now : Time) : Service User := do
  let u : User ← query (.getUser id)
  if u.overQuota then
    Req.throw (.validation "user is over data limit; reset traffic or raise the limit first")
  else if u.expiredAt now then
    Req.throw (.validation "user is expired; extend expiry first")
  else setStatusAndReconcile id .active

/-- Reactivate a suspended user that is not past its expiry. -/
def reactivateSuspended (id : ID) (u : User) (now : Time) : Service Unit :=
  if u.status = .suspended ∧ u.expiredAt now = false then query (.setUserStatus id .active)
  else pure ()

def resetTraffic (id : ID) (now : Time) : Service User := do
  let u : User ← query (.getUser id)
  query (.resetTraffic id)
  reactivateSuspended id u now
  reconcileForUser id
  query (.getUser id)

/-! ## Renew -/

structure RenewInput where
  days : Int
  resetTraffic : Bool
  planID : Option ID
  deriving DecidableEq, Repr

/-- Switch the plan and take over its limit. -/
def switchPlan (inp : RenewInput) (u : User) : Service User :=
  match inp.planID with
  | none => pure u
  | some planID => do
    let plan : Plan ← query (.getPlan planID)
    pure { u with planID := some planID, dataLimitBytes := plan.dataLimitBytes }

/-- The later of `now` and the current expiry. -/
def renewBase (u : User) (now : Time) : Time :=
  match u.expiresAt with
  | none => now
  | some t => if now < t then t else now

def extendExpiry (inp : RenewInput) (now : Time) (u : User) : User :=
  if 0 < inp.days then { u with expiresAt := some (addDays (renewBase u now) inp.days) } else u

/-- Zero the counters, in the store and in the copy at hand. -/
def resetUsage (id : ID) (inp : RenewInput) (u : User) : Service User :=
  if inp.resetTraffic then do
    query (.resetTraffic id)
    pure (zeroUsage u)
  else pure u

/-- Active, unless disabled, over quota or past the expiry. -/
def reactivate (now : Time) (u : User) : User :=
  if u.status ≠ .disabled ∧ u.overQuota = false ∧ u.expiredAt now = false then
    { u with status := .active }
  else u

theorem reactivate_id (now : Time) (u : User) : (reactivate now u).id = u.id := by
  unfold reactivate
  split_ifs with h
  · rfl
  · rfl

/-- `now` is the base of the extension and `now'` the time of the reactivation check. -/
def renew (id : ID) (inp : RenewInput) (now now' : Time) : Service User :=
  if inp.days ≤ 0 ∧ inp.resetTraffic = false ∧ inp.planID = none then
    Req.throw (.validation "renew requires days > 0, reset_traffic, or plan_id")
  else do
    let u : User ← query (.getUser id)
    let u ← switchPlan inp u
    let u ← resetUsage id inp (extendExpiry inp now u)
    let u := reactivate now' u
    query (.updateUser u)
    reconcileForUser u.id
    query (.getUser id)

/-! ## Token rotation and deletion -/

def rotateSubToken (id : ID) (token : String) : Service User := do
  let u : User ← query (.getUser id)
  query (.updateUser { u with subToken := token })
  query (.getUser id)

def delete (id : ID) : Service Unit := do
  let targets ← query (.assignmentTargetsForUser id)
  query (.markAssignmentsRemovingForUser id)
  triggerAll (distinctNodes targets)
  query (.deleteUser id)

end XrayApi.Service
