import XrayApi.System.Exec

/-!
# The reconciler

`nodeActor.reconcile` of `internal/worker/reconciler.go`: removals first, then additions. An early
return of the source is the error that caused it. `ensureClient` reuses an open connection or dials;
both are the step `dial`.
-/

set_option autoImplicit false

namespace XrayApi.Worker

open Transition Store Xray

def ensureClient (n : ID) : Service Unit :=
  Prog.call (.dial n) fun r => Prog.ret (r.mapError Err.store)

/-- The identity to push for an assignment. -/
def accountFor (d : DesiredAssignment) : Account where
  protocol := d.protocol
  email := d.email
  uuid := d.uuid
  password := d.trojanPass
  flow := d.flow
  method := d.method

/-- The place of an assignment's account on its node. -/
def key (d : DesiredAssignment) : Key := (d.inboundTag, d.email)

/-- Delete a tombstoned assignment; the row of a merely inactive user stays. A failure is logged and
dropped. -/
def dropTombstone (d : DesiredAssignment) : Service Unit :=
  if d.syncStatus = .removing then do
    let _ ← attempt (.deleteAssignment d.userID d.inboundID)
    pure ()
  else pure ()

/-- The removal loop. -/
def removeAll (n : ID) : List DesiredAssignment → Service Unit
  | [] => pure ()
  | d :: rest => do
    Prog.call (.removeUser n d.inboundTag d.email) fun r => Prog.ret (r.mapError Err.store)
    dropTombstone d
    removeAll n rest

/-- Record the success of a push unless the row says so already. A failure is dropped. -/
def markApplied (d : DesiredAssignment) : Service Unit :=
  if d.syncStatus ≠ .applied then do
    let _ ← attempt (.markAssignmentSynced d.userID d.inboundID .applied "")
    pure ()
  else pure ()

/-- Record the failure of a push and give up the pass. -/
def markFailed (d : DesiredAssignment) (e : StoreErr) : Service Unit := do
  let _ ← attempt (.markAssignmentSynced d.userID d.inboundID .failed e.text)
  Req.throw (.store e)

/-- The addition loop. -/
def addAll (n : ID) : List DesiredAssignment → Service Unit
  | [] => pure ()
  | d :: rest => do
    let r ← (Prog.call (.addUser n d.inboundTag (accountFor d)) fun r => Prog.ret (.ok r) :
      Service (Except StoreErr Unit))
    match r with
    | .error e => markFailed d e
    | .ok _ => do
      markApplied d
      addAll n rest

/-- Read the desired assignments and push them. -/
def additions (n : ID) : Service Unit := do
  let desired ← query (.desiredForNode n)
  addAll n desired

/-- One pass of a node's reconciler. -/
def reconcile (n : ID) : Service Unit := do
  ensureClient n
  let removals ← query (.removalsForNode n)
  removeAll n removals
  additions n

end XrayApi.Worker
