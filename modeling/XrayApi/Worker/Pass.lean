import XrayApi.Store.Assignments
import XrayApi.Worker.Reconciler

/-!
# Control points of a pass

`Pass` names the points at which a running pass of the reconciler can stand and `Pass.prog` is the
rest of the program from there. `Pass.Step` says what one statement and its answer lead to;
`Pass.prog_step` shows that the program takes these steps and no others. `Pass.pushes` and
`Pass.removes` are the rows of the lists read earlier that the pass has not dealt with yet.
-/

set_option autoImplicit false

namespace XrayApi.Worker

open Transition Store Xray

/-- Where a pass stands; the rows it holds were read by an earlier step. -/
inductive Pass
  | done (r : Except Err Unit)
  | dial
  | listRemovals
  | remove (d : DesiredAssignment) (rest : List DesiredAssignment)
  | drop (d : DesiredAssignment) (rest : List DesiredAssignment)
  | listDesired
  | add (d : DesiredAssignment) (rest : List DesiredAssignment)
  | mark (d : DesiredAssignment) (rest : List DesiredAssignment)
  | giveUp (d : DesiredAssignment) (e : StoreErr)

namespace Pass

/-- The removal loop with `ds` left. -/
def toRemove : List DesiredAssignment → Pass
  | [] => listDesired
  | d :: rest => remove d rest

/-- The addition loop with `ds` left. -/
def toAdd : List DesiredAssignment → Pass
  | [] => done (.ok ())
  | d :: rest => add d rest

/-- After the removal of `d` from the node. -/
def removed (d : DesiredAssignment) (rest : List DesiredAssignment) : Pass :=
  if d.syncStatus = .removing then drop d rest else toRemove rest

/-- After the push of `d` to the node. -/
def added (d : DesiredAssignment) (rest : List DesiredAssignment) : Pass :=
  if d.syncStatus ≠ .applied then mark d rest else toAdd rest

/-- The rest of the program. -/
def prog (n : ID) : Pass → Job
  | done r => Prog.ret r
  | dial => (reconcile n).prog
  | listRemovals => Req.prog do
    let removals ← query (.removalsForNode n)
    removeAll n removals
    additions n
  | remove d rest => Req.prog do
    removeAll n (d :: rest)
    additions n
  | drop d rest => Req.prog do
    let _ ← attempt (.deleteAssignment d.userID d.inboundID)
    removeAll n rest
    additions n
  | listDesired => (additions n).prog
  | add d rest => (addAll n (d :: rest)).prog
  | mark d rest => Req.prog do
    let _ ← attempt (.markAssignmentSynced d.userID d.inboundID .applied "")
    addAll n rest
  | giveUp d e => (markFailed d e).prog

/-- One statement of the pass, its answer and the next control point. -/
inductive Step (n : ID) : Pass → (s : Stmt) → s.Res → Pass → Prop
  | dialed : Step n dial (.dial n) (.ok ()) listRemovals
  | dialFailed (e : StoreErr) : Step n dial (.dial n) (.error e) (done (.error (.store e)))
  | listed (ds : List DesiredAssignment) :
      Step n listRemovals (.db (.removalsForNode n)) (.ok ds) (toRemove ds)
  | listFailed (e : StoreErr) :
      Step n listRemovals (.db (.removalsForNode n)) (.error e) (done (.error (.store e)))
  | removed (d : DesiredAssignment) (rest : List DesiredAssignment) :
      Step n (remove d rest) (.removeUser n d.inboundTag d.email) (.ok ()) (removed d rest)
  | removeFailed (d : DesiredAssignment) (rest : List DesiredAssignment) (e : StoreErr) :
      Step n (remove d rest) (.removeUser n d.inboundTag d.email) (.error e)
        (done (.error (.store e)))
  | dropped (d : DesiredAssignment) (rest : List DesiredAssignment) (r : Except StoreErr Unit) :
      Step n (drop d rest) (.db (.deleteAssignment d.userID d.inboundID)) r (toRemove rest)
  | desired (ds : List DesiredAssignment) :
      Step n listDesired (.db (.desiredForNode n)) (.ok ds) (toAdd ds)
  | desiredFailed (e : StoreErr) :
      Step n listDesired (.db (.desiredForNode n)) (.error e) (done (.error (.store e)))
  | added (d : DesiredAssignment) (rest : List DesiredAssignment) :
      Step n (add d rest) (.addUser n d.inboundTag (accountFor d)) (.ok ()) (added d rest)
  | addFailed (d : DesiredAssignment) (rest : List DesiredAssignment) (e : StoreErr) :
      Step n (add d rest) (.addUser n d.inboundTag (accountFor d)) (.error e) (giveUp d e)
  | marked (d : DesiredAssignment) (rest : List DesiredAssignment) (r : Except StoreErr Unit) :
      Step n (mark d rest) (.db (.markAssignmentSynced d.userID d.inboundID .applied "")) r
        (toAdd rest)
  | gaveUp (d : DesiredAssignment) (e : StoreErr) (r : Except StoreErr Unit) :
      Step n (giveUp d e) (.db (.markAssignmentSynced d.userID d.inboundID .failed e.text)) r
        (done (.error (.store e)))

theorem prog_toRemove (n : ID) (ds : List DesiredAssignment) :
    (toRemove ds).prog n = Req.prog (removeAll n ds >>= fun _ => additions n) := by
  cases ds with
  | nil => rfl
  | cons d rest => rfl

theorem prog_toAdd (n : ID) (ds : List DesiredAssignment) :
    (toAdd ds).prog n = (addAll n ds).prog := by
  cases ds with
  | nil => rfl
  | cons d rest => rfl

theorem prog_removed (n : ID) (d : DesiredAssignment) (rest : List DesiredAssignment) :
    (removed d rest).prog n =
      Req.prog (dropTombstone d >>= fun _ => removeAll n rest >>= fun _ => additions n) := by
  unfold removed dropTombstone
  split_ifs with h
  · rfl
  · rw [prog_toRemove]
    rfl

theorem prog_added (n : ID) (d : DesiredAssignment) (rest : List DesiredAssignment) :
    (added d rest).prog n = Req.prog (markApplied d >>= fun _ => addAll n rest) := by
  unfold added markApplied
  split_ifs with h
  · rfl
  · rw [prog_toAdd]
    rfl

/-- The program stands at a control point after every answer. -/
theorem prog_step {n : ID} {p : Pass} {s : Stmt} {k : s.Res → Job}
    (h : p.prog n = Prog.call s k) (r : s.Res) : ∃ p', Step n p s r p' ∧ k r = p'.prog n := by
  cases p with
  | done a => cases h
  | dial =>
      cases h
      cases r with
      | ok u => exact ⟨_, Step.dialed, rfl⟩
      | error e => exact ⟨_, Step.dialFailed e, rfl⟩
  | listRemovals =>
      cases h
      cases r with
      | ok ds => exact ⟨_, Step.listed ds, (prog_toRemove n ds).symm⟩
      | error e => exact ⟨_, Step.listFailed e, rfl⟩
  | remove d rest =>
      cases h
      cases r with
      | ok u =>
          -- the two sides group the same three steps differently
          refine ⟨_, Step.removed d rest, ?_⟩
          rw [prog_removed]
          exact Req.bind_assoc (dropTombstone d) _ _
      | error e => exact ⟨_, Step.removeFailed d rest e, rfl⟩
  | drop d rest =>
      cases h
      exact ⟨_, Step.dropped d rest r, (prog_toRemove n rest).symm⟩
  | listDesired =>
      cases h
      cases r with
      | ok ds => exact ⟨_, Step.desired ds, (prog_toAdd n ds).symm⟩
      | error e => exact ⟨_, Step.desiredFailed e, rfl⟩
  | add d rest =>
      cases h
      cases r with
      | ok u => exact ⟨_, Step.added d rest, (prog_added n d rest).symm⟩
      | error e => exact ⟨_, Step.addFailed d rest e, rfl⟩
  | mark d rest =>
      cases h
      exact ⟨_, Step.marked d rest r, (prog_toAdd n rest).symm⟩
  | giveUp d e =>
      cases h
      exact ⟨_, Step.gaveUp d e r, rfl⟩

theorem prog_eq_ret {n : ID} {p : Pass} {a : Except Err Unit} (h : p.prog n = Prog.ret a) :
    p = done a := by
  cases p with
  | done r => cases h; rfl
  | dial => cases h
  | listRemovals => cases h
  | remove d rest => cases h
  | drop d rest => cases h
  | listDesired => cases h
  | add d rest => cases h
  | mark d rest => cases h
  | giveUp d e => cases h

/-! ## What a pass still holds -/

/-- Rows of the removal list whose account is still to be removed. -/
def removes : Pass → List DesiredAssignment
  | remove d rest => d :: rest
  | drop _ rest => rest
  | _ => []

/-- Rows of the desired list whose account is still to be pushed. -/
def pushes : Pass → List DesiredAssignment
  | add d rest => d :: rest
  | mark _ rest => rest
  | _ => []

/-- Every row the pass may still act on. -/
def held : Pass → List DesiredAssignment
  | remove d rest => d :: rest
  | drop d rest => d :: rest
  | add d rest => d :: rest
  | mark d rest => d :: rest
  | giveUp d _ => [d]
  | _ => []

@[simp] theorem removes_toRemove (ds : List DesiredAssignment) : (toRemove ds).removes = ds := by
  cases ds with
  | nil => rfl
  | cons d rest => rfl

@[simp] theorem pushes_toRemove (ds : List DesiredAssignment) : (toRemove ds).pushes = [] := by
  cases ds with
  | nil => rfl
  | cons d rest => rfl

@[simp] theorem held_toRemove (ds : List DesiredAssignment) : (toRemove ds).held = ds := by
  cases ds with
  | nil => rfl
  | cons d rest => rfl

@[simp] theorem removes_toAdd (ds : List DesiredAssignment) : (toAdd ds).removes = [] := by
  cases ds with
  | nil => rfl
  | cons d rest => rfl

@[simp] theorem pushes_toAdd (ds : List DesiredAssignment) : (toAdd ds).pushes = ds := by
  cases ds with
  | nil => rfl
  | cons d rest => rfl

@[simp] theorem held_toAdd (ds : List DesiredAssignment) : (toAdd ds).held = ds := by
  cases ds with
  | nil => rfl
  | cons d rest => rfl

@[simp] theorem removes_removed (d : DesiredAssignment) (rest : List DesiredAssignment) :
    (removed d rest).removes = rest := by
  unfold removed
  split_ifs with h
  · rfl
  · exact removes_toRemove rest

@[simp] theorem pushes_removed (d : DesiredAssignment) (rest : List DesiredAssignment) :
    (removed d rest).pushes = [] := by
  unfold removed
  split_ifs with h
  · rfl
  · exact pushes_toRemove rest

@[simp] theorem removes_added (d : DesiredAssignment) (rest : List DesiredAssignment) :
    (added d rest).removes = [] := by
  unfold added
  split_ifs with h
  · rfl
  · exact removes_toAdd rest

@[simp] theorem pushes_added (d : DesiredAssignment) (rest : List DesiredAssignment) :
    (added d rest).pushes = rest := by
  unfold added
  split_ifs with h
  · rfl
  · exact pushes_toAdd rest

theorem held_removed {d e : DesiredAssignment} {rest : List DesiredAssignment}
    (h : e ∈ (removed d rest).held) : e ∈ d :: rest := by
  unfold removed at h
  split_ifs at h with hs
  · exact h
  · rw [held_toRemove] at h
    exact List.mem_cons_of_mem d h

theorem held_added {d e : DesiredAssignment} {rest : List DesiredAssignment}
    (h : e ∈ (added d rest).held) : e ∈ d :: rest := by
  unfold added at h
  split_ifs at h with hs
  · exact h
  · rw [held_toAdd] at h
    exact List.mem_cons_of_mem d h

/-- Rows the pass will mark, unless a push fails first: not those it read as applied, except the one
whose push has failed. -/
def marks : Pass → List DesiredAssignment
  | add d rest => (d :: rest).filter fun e => decide (e.syncStatus ≠ .applied)
  | mark d rest => d :: rest.filter fun e => decide (e.syncStatus ≠ .applied)
  | giveUp d _ => [d]
  | _ => []

/-- Tombstones the pass will delete. -/
def drops : Pass → List DesiredAssignment
  | remove d rest => (d :: rest).filter fun e => decide (e.syncStatus = .removing)
  | drop d rest => d :: rest.filter fun e => decide (e.syncStatus = .removing)
  | _ => []

@[simp] theorem marks_toRemove (ds : List DesiredAssignment) : (toRemove ds).marks = [] := by
  cases ds with
  | nil => rfl
  | cons d rest => rfl

@[simp] theorem marks_toAdd (ds : List DesiredAssignment) :
    (toAdd ds).marks = ds.filter fun e => decide (e.syncStatus ≠ .applied) := by
  cases ds with
  | nil => rfl
  | cons d rest => rfl

@[simp] theorem drops_toRemove (ds : List DesiredAssignment) :
    (toRemove ds).drops = ds.filter fun e => decide (e.syncStatus = .removing) := by
  cases ds with
  | nil => rfl
  | cons d rest => rfl

theorem marks_removed (d : DesiredAssignment) (rest : List DesiredAssignment) :
    (removed d rest).marks = [] := by
  unfold removed
  split_ifs with h
  · rfl
  · exact marks_toRemove rest

theorem marks_added (d : DesiredAssignment) (rest : List DesiredAssignment) :
    (added d rest).marks = (add d rest).marks := by
  unfold added
  split_ifs with h
  · simp [marks, h]
  · rw [marks_toAdd]
    simp [marks, h]

theorem drops_removed (d : DesiredAssignment) (rest : List DesiredAssignment) :
    (removed d rest).drops = (remove d rest).drops := by
  unfold removed
  split_ifs with h
  · simp [drops, h]
  · rw [drops_toRemove]
    simp [drops, h]

theorem mem_held_of_mem_pushes {p : Pass} {e : DesiredAssignment} (h : e ∈ p.pushes) :
    e ∈ p.held := by
  cases p with
  | add d rest => exact h
  | mark d rest => exact List.mem_cons_of_mem d h
  | done a => cases h
  | dial => cases h
  | listRemovals => cases h
  | remove d rest => cases h
  | drop d rest => cases h
  | listDesired => cases h
  | giveUp d e => cases h

theorem mem_held_of_mem_marks {p : Pass} {e : DesiredAssignment} (h : e ∈ p.marks) :
    e ∈ p.held := by
  cases p with
  | add d rest =>
      rw [marks] at h
      exact List.mem_of_mem_filter h
  | mark d rest =>
      obtain rfl | h := List.mem_cons.1 h
      · exact List.mem_cons_self
      · exact List.mem_cons_of_mem d (List.mem_of_mem_filter h)
  | giveUp d err => exact h
  | done a => cases h
  | dial => cases h
  | listRemovals => cases h
  | remove d rest => cases h
  | drop d rest => cases h
  | listDesired => cases h

/-- The assignment rows in the answer of a read. -/
def readRows : (s : Stmt) → s.Res → List DesiredAssignment
  | .db (.removalsForNode _), .ok ds => ds
  | .db (.desiredForNode _), .ok ds => ds
  | _, _ => []

/-- A read that has rows did not fail. -/
theorem answers_of_read {s : Stmt} {r : s.Res} {w w' : World} (hw : MayFail s w r w')
    {e : DesiredAssignment} (he : e ∈ readRows s r) : Answers s w r w' := by
  refine mayFail_ok hw ?_
  unfold readRows at he
  split at he
  · rfl
  · rfl
  · cases he

/-! ## Effects of a step -/

section Effects

variable {n : ID} {p p' : Pass} {s : Stmt} {r : s.Res} {w w' : World}

/-- A pass holds what it held or has just read. -/
theorem Step.held (h : Step n p s r p') {e : DesiredAssignment} (he : e ∈ p'.held) :
    e ∈ p.held ∨ e ∈ readRows s r := by
  cases h with
  | dialed => cases he
  | dialFailed e => cases he
  | listed ds =>
      rw [held_toRemove] at he
      exact Or.inr he
  | listFailed e => cases he
  | removed d rest => exact Or.inl (held_removed he)
  | removeFailed d rest e => cases he
  | dropped d rest r =>
      rw [held_toRemove] at he
      exact Or.inl (List.mem_cons_of_mem d he)
  | desired ds =>
      rw [held_toAdd] at he
      exact Or.inr he
  | desiredFailed e => cases he
  | added d rest => exact Or.inl (held_added he)
  | addFailed d rest e =>
      rw [List.mem_singleton.1 he]
      exact Or.inl List.mem_cons_self
  | marked d rest r =>
      rw [held_toAdd] at he
      exact Or.inl (List.mem_cons_of_mem d he)
  | gaveUp d e r => cases he

/-- What a pass reads are joined rows of its node. -/
theorem Step.read (h : Step n p s r p') (hw : Answers s w r w') {e : DesiredAssignment}
    (he : e ∈ readRows s r) :
    ∃ cond, e ∈ queryDesired w.tables cond ∧ e.nodeID = n := by
  cases h with
  | listed ds =>
      obtain ⟨a, ha, hrows, -⟩ := answers_db_of_ok rfl hw
      cases ha
      have hmem := (List.Perm.mem_iff hrows).1 he
      obtain ⟨ui, -, i, u, -, -, hc, rfl⟩ := mem_queryDesired.1 hmem
      exact ⟨_, hmem, (of_decide_eq_true hc).1⟩
  | desired ds =>
      obtain ⟨a, ha, hrows, -⟩ := answers_db_of_ok rfl hw
      cases ha
      have hmem := (List.Perm.mem_iff hrows).1 he
      obtain ⟨ui, -, i, u, -, -, hc, rfl⟩ := mem_queryDesired.1 hmem
      exact ⟨_, hmem, (of_decide_eq_true hc).1⟩
  | dialed => cases he
  | dialFailed e => cases he
  | listFailed e => cases he
  | removed d rest => cases he
  | removeFailed d rest e => cases he
  | dropped d rest r => cases he
  | desiredFailed e => cases he
  | added d rest => cases he
  | addFailed d rest e => cases he
  | marked d rest r => cases he
  | gaveUp d e r => cases he

/-- What a pass reads before its addition loop are the desired rows. -/
theorem Step.desired_of_read (h : Step n listDesired s r p') (hw : Answers s w r w')
    {e : DesiredAssignment} (he : e ∈ readRows s r) : e ∈ desiredForNode w.tables n := by
  cases h with
  | desiredFailed err => cases he
  | desired ds =>
      obtain ⟨a, ha, hrows, -⟩ := answers_db_of_ok rfl hw
      cases ha
      exact (List.Perm.mem_iff hrows).1 he

/-- A pass writes neither users nor inbounds. -/
theorem Step.static (h : Step n p s r p') (hw : Answers s w r w') :
    w'.tables.users = w.tables.users ∧ w'.tables.inbounds = w.tables.inbounds := by
  cases h with
  | dialed =>
      rw [(answers_dial hw).2]
      exact ⟨rfl, rfl⟩
  | dialFailed e =>
      rw [(answers_dial hw).2]
      exact ⟨rfl, rfl⟩
  | listed ds =>
      obtain ⟨-, -, -, ht⟩ := answers_db_of_ok rfl hw
      rw [ht]
      exact ⟨rfl, rfl⟩
  | listFailed e =>
      rw [(answers_db_error hw).2]
      exact ⟨rfl, rfl⟩
  | removed d rest =>
      rw [(answers_removeUser hw).2]
      exact ⟨rfl, rfl⟩
  | removeFailed d rest e =>
      rw [(answers_removeUser hw).2]
      exact ⟨rfl, rfl⟩
  | dropped d rest r =>
      obtain ⟨-, -, -, ht⟩ := answers_db_of_ok rfl hw
      rw [ht]
      exact ⟨rfl, rfl⟩
  | desired ds =>
      obtain ⟨-, -, -, ht⟩ := answers_db_of_ok rfl hw
      rw [ht]
      exact ⟨rfl, rfl⟩
  | desiredFailed e =>
      rw [(answers_db_error hw).2]
      exact ⟨rfl, rfl⟩
  | added d rest =>
      obtain ⟨user, rfl⟩ := answers_addUser_ok hw
      exact ⟨rfl, rfl⟩
  | addFailed d rest e =>
      rw [answers_addUser_error hw]
      exact ⟨rfl, rfl⟩
  | marked d rest r =>
      obtain ⟨-, -, -, ht⟩ := answers_db_of_ok rfl hw
      rw [ht]
      exact ⟨rfl, rfl⟩
  | gaveUp d e r =>
      obtain ⟨-, -, -, ht⟩ := answers_db_of_ok rfl hw
      rw [ht]
      exact ⟨rfl, rfl⟩

/-- A pass touches the accounts of its own node only. -/
theorem Step.accounts_of_ne (h : Step n p s r p') (hw : Answers s w r w') {m : ID} (hm : m ≠ n) :
    w'.accounts m = w.accounts m := by
  cases h with
  | dialed => rw [(answers_dial hw).2]
  | dialFailed e => rw [(answers_dial hw).2]
  | listed ds => rw [(answers_db_frame hw).1]
  | listFailed e => rw [(answers_db_frame hw).1]
  | removed d rest =>
      rw [(answers_removeUser hw).2]
      exact w.accounts_setAccount_of_ne hm _ _
  | removeFailed d rest e =>
      rw [(answers_removeUser hw).2]
      exact w.accounts_setAccount_of_ne hm _ _
  | dropped d rest r => rw [(answers_db_frame hw).1]
  | desired ds => rw [(answers_db_frame hw).1]
  | desiredFailed e => rw [(answers_db_frame hw).1]
  | added d rest =>
      obtain ⟨user, rfl⟩ := answers_addUser_ok hw
      exact w.accounts_setAccount_of_ne hm _ _
  | addFailed d rest e => rw [answers_addUser_error hw]
  | marked d rest r => rw [(answers_db_frame hw).1]
  | gaveUp d e r => rw [(answers_db_frame hw).1]

/-- What a step does to the row of an assignment: nothing, the deletion of a tombstone, or a mark,
which is never a tombstone. -/
theorem Step.row (h : Step n p s r p') (hw : Answers s w r w') (userID inboundID : ID) :
    assignment w'.tables userID inboundID = assignment w.tables userID inboundID ∨
      (∃ d rest, p = drop d rest ∧ p' = toRemove rest ∧ d.userID = userID ∧
        d.inboundID = inboundID ∧ assignment w'.tables userID inboundID = none) ∨
      ∃ d ∈ p.marks, d.userID = userID ∧ d.inboundID = inboundID ∧
        ∃ status errMsg, status ≠ SyncStatus.removing ∧
          assignment w'.tables userID inboundID =
            (assignment w.tables userID inboundID).map fun r =>
              { r with syncStatus := status, lastError := errMsg } := by
  -- the deletion of a tombstone and the two kinds of marks are all that writes the table
  cases h with
  | dialed =>
      rw [(answers_dial hw).2]
      exact Or.inl rfl
  | dialFailed e => cases (answers_dial hw).1
  | listed ds =>
      obtain ⟨-, -, -, ht⟩ := answers_db_of_ok rfl hw
      rw [ht]
      exact Or.inl rfl
  | listFailed e =>
      rw [(answers_db_error hw).2]
      exact Or.inl rfl
  | removed d rest =>
      rw [(answers_removeUser hw).2]
      exact Or.inl rfl
  | removeFailed d rest e => cases (answers_removeUser hw).1
  | dropped d rest r =>
      obtain ⟨-, -, -, ht⟩ := answers_db_of_ok rfl hw
      rw [ht, assignment_deleteAssignment]
      split_ifs with hd
      · exact Or.inr (Or.inl ⟨d, rest, rfl, rfl, hd.1, hd.2, rfl⟩)
      · exact Or.inl rfl
  | desired ds =>
      obtain ⟨-, -, -, ht⟩ := answers_db_of_ok rfl hw
      rw [ht]
      exact Or.inl rfl
  | desiredFailed e =>
      rw [(answers_db_error hw).2]
      exact Or.inl rfl
  | added d rest =>
      obtain ⟨user, rfl⟩ := answers_addUser_ok hw
      exact Or.inl rfl
  | addFailed d rest e =>
      rw [answers_addUser_error hw]
      exact Or.inl rfl
  | marked d rest r =>
      obtain ⟨-, -, -, ht⟩ := answers_db_of_ok rfl hw
      rw [ht, assignment_markAssignmentSynced]
      split_ifs with hd
      · exact Or.inr (Or.inr ⟨d, List.mem_cons_self, hd.1, hd.2, _, _, by decide, rfl⟩)
      · exact Or.inl rfl
  | gaveUp d e r =>
      obtain ⟨-, -, -, ht⟩ := answers_db_of_ok rfl hw
      rw [ht, assignment_markAssignmentSynced]
      split_ifs with hd
      · exact Or.inr (Or.inr ⟨d, List.mem_cons_self, hd.1, hd.2, _, _, by decide, rfl⟩)
      · exact Or.inl rfl

/-- What a step does to an account of the node: nothing, a removal, or a push, which stores the
account of its row unless the node has one there. -/
theorem Step.account (h : Step n p s r p') (hw : Answers s w r w') (k : Key) :
    w'.accounts n k = w.accounts n k ∨
      (∃ d rest, p = remove d rest ∧ key d = k ∧ w'.accounts n k = none) ∨
      ∃ d ∈ p.pushes, key d = k ∧ ∃ user, buildUser (accountFor d) = .ok user ∧
        w'.accounts n k = some ((w.accounts n k).getD user) := by
  cases h with
  | dialed =>
      rw [(answers_dial hw).2]
      exact Or.inl rfl
  | dialFailed e => cases (answers_dial hw).1
  | listed ds => exact Or.inl (by rw [(answers_db_frame hw).1])
  | listFailed e => exact Or.inl (by rw [(answers_db_frame hw).1])
  | removed d rest =>
      rw [(answers_removeUser hw).2, World.accounts_setAccount]
      by_cases hk : key d = k
      · subst hk
        exact Or.inr (Or.inl ⟨d, rest, rfl, rfl, Function.update_self _ _ _⟩)
      · exact Or.inl (Function.update_of_ne (Ne.symm hk) _ _)
  | removeFailed d rest e => cases (answers_removeUser hw).1
  | dropped d rest r => exact Or.inl (by rw [(answers_db_frame hw).1])
  | desired ds => exact Or.inl (by rw [(answers_db_frame hw).1])
  | desiredFailed e => exact Or.inl (by rw [(answers_db_frame hw).1])
  | added d rest =>
      obtain ⟨user, hb, rfl⟩ := answers_addUser_stored hw
      rw [World.accounts_setAccount]
      by_cases hk : key d = k
      · subst hk
        exact Or.inr (Or.inr ⟨d, List.mem_cons_self, rfl, user, hb, Function.update_self _ _ _⟩)
      · exact Or.inl (Function.update_of_ne (Ne.symm hk) _ _)
  | addFailed d rest e => exact Or.inl (by rw [answers_addUser_error hw])
  | marked d rest r => exact Or.inl (by rw [(answers_db_frame hw).1])
  | gaveUp d e r => exact Or.inl (by rw [(answers_db_frame hw).1])

/-- A pass pushes what it had to push or has just read as desired. -/
theorem Step.pushes (h : Step n p s r p') {e : DesiredAssignment} (he : e ∈ p'.pushes) :
    e ∈ p.pushes ∨ (p = listDesired ∧ e ∈ readRows s r) := by
  cases h with
  | dialed => cases he
  | dialFailed e => cases he
  | listed ds =>
      rw [pushes_toRemove] at he
      cases he
  | listFailed e => cases he
  | removed d rest =>
      rw [pushes_removed] at he
      cases he
  | removeFailed d rest e => cases he
  | dropped d rest r =>
      rw [pushes_toRemove] at he
      cases he
  | desired ds =>
      rw [pushes_toAdd] at he
      exact Or.inr ⟨rfl, he⟩
  | desiredFailed e => cases he
  | added d rest =>
      rw [pushes_added] at he
      exact Or.inl (List.mem_cons_of_mem d he)
  | addFailed d rest e => cases he
  | marked d rest r =>
      rw [pushes_toAdd] at he
      exact Or.inl he
  | gaveUp d e r => cases he

/-- A pass marks what it had to mark, what it has just read as desired, or the row whose push has
failed. -/
theorem Step.marks (h : Step n p s r p') {e : DesiredAssignment} (he : e ∈ p'.marks) :
    e ∈ p.marks ∨ (p = listDesired ∧ e ∈ readRows s r) ∨
      ∃ rest, p = add e rest ∧ s.isOk r = false := by
  cases h with
  | dialed => cases he
  | dialFailed e => cases he
  | listed ds =>
      rw [marks_toRemove] at he
      cases he
  | listFailed e => cases he
  | removed d rest =>
      rw [marks_removed] at he
      cases he
  | removeFailed d rest e => cases he
  | dropped d rest r =>
      rw [marks_toRemove] at he
      cases he
  | desired ds =>
      rw [marks_toAdd] at he
      exact Or.inr (Or.inl ⟨rfl, List.mem_of_mem_filter he⟩)
  | desiredFailed e => cases he
  | added d rest =>
      rw [marks_added] at he
      exact Or.inl he
  | addFailed d rest err =>
      rw [List.mem_singleton.1 he]
      exact Or.inr (Or.inr ⟨rest, rfl, rfl⟩)
  | marked d rest r =>
      rw [marks_toAdd] at he
      exact Or.inl (List.mem_cons_of_mem d he)
  | gaveUp d e r => cases he

/-- Without failures, a tombstone to delete stays to be deleted until it is. -/
theorem Step.drops (h : Step n p s r p') (hw : Answers s w r w') (hok : s.isOk r = true)
    {e : DesiredAssignment} (he : e ∈ p.drops) :
    e ∈ p'.drops ∨ assignment w'.tables e.userID e.inboundID = none := by
  cases h with
  | dialed => cases he
  | dialFailed e => cases he
  | listed ds => cases he
  | listFailed e => cases he
  | removed d rest =>
      rw [drops_removed]
      exact Or.inl he
  | removeFailed d rest e => cases hok
  | dropped d rest r =>
      obtain ⟨-, -, -, ht⟩ := answers_db_of_ok rfl hw
      rw [drops_toRemove]
      obtain rfl | he := List.mem_cons.1 he
      · refine Or.inr ?_
        rw [ht, assignment_deleteAssignment]
        exact if_pos ⟨rfl, rfl⟩
      · exact Or.inl he
  | desired ds => cases he
  | desiredFailed e => cases he
  | added d rest => cases he
  | addFailed d rest e => cases he
  | marked d rest r => cases he
  | gaveUp d e r => cases he

/-- A tombstone to delete was one before, or has just been read as a tombstone. -/
theorem Step.drops_inv (h : Step n p s r p') {e : DesiredAssignment} (he : e ∈ p'.drops) :
    e ∈ p.drops ∨ (e ∈ readRows s r ∧ e.syncStatus = .removing) := by
  cases h with
  | dialed => cases he
  | dialFailed e => cases he
  | listed ds =>
      rw [drops_toRemove] at he
      obtain ⟨hmem, hs⟩ := List.mem_filter.1 he
      exact Or.inr ⟨hmem, of_decide_eq_true hs⟩
  | listFailed e => cases he
  | removed d rest =>
      rw [drops_removed] at he
      exact Or.inl he
  | removeFailed d rest e => cases he
  | dropped d rest r =>
      rw [drops_toRemove] at he
      exact Or.inl (List.mem_cons_of_mem d he)
  | desired ds =>
      cases ds with
      | nil => cases he
      | cons d rest => cases he
  | desiredFailed e => cases he
  | added d rest =>
      unfold Pass.added at he
      split_ifs at he with hs
      · cases he
      · cases rest with
        | nil => cases he
        | cons e rest => cases he
  | addFailed d rest e => cases he
  | marked d rest r =>
      cases rest with
      | nil => cases he
      | cons e rest => cases he
  | gaveUp d e r => cases he

/-- A pass comes to delete a row only by removing its account. -/
theorem Step.to_drop {d : DesiredAssignment} {rest : List DesiredAssignment}
    (h : Step n p s r (drop d rest)) (hw : MayFail s w r w') : w'.accounts n (key d) = none := by
  generalize hp' : drop d rest = q at h
  cases h with
  | removed e rest' =>
      unfold Pass.removed at hp'
      split_ifs at hp' with hs
      · cases hp'
        rw [(answers_removeUser (mayFail_ok hw rfl)).2, World.accounts_setAccount]
        exact Function.update_self _ _ _
      · cases rest' with
        | nil => cases hp'
        | cons e rest => cases hp'
  | listed ds =>
      cases ds with
      | nil => cases hp'
      | cons e rest => cases hp'
  | dropped e rest' r =>
      cases rest' with
      | nil => cases hp'
      | cons e rest => cases hp'
  | desired ds =>
      cases ds with
      | nil => cases hp'
      | cons e rest => cases hp'
  | added e rest' =>
      unfold Pass.added at hp'
      split_ifs at hp' with hs
      cases rest' with
      | nil => cases hp'
      | cons e rest => cases hp'
  | marked e rest' r =>
      cases rest' with
      | nil => cases hp'
      | cons e rest => cases hp'
  | dialed => cases hp'
  | dialFailed e => cases hp'
  | listFailed e => cases hp'
  | removeFailed e rest' err => cases hp'
  | desiredFailed e => cases hp'
  | addFailed e rest' err => cases hp'
  | gaveUp e err r => cases hp'

/-- A push that fails leaves the world as it is. -/
theorem Step.world_of_add_failed {d : DesiredAssignment} {rest : List DesiredAssignment}
    (h : Step n (add d rest) s r p') (hw : MayFail s w r w') (hr : s.isOk r = false) : w' = w := by
  obtain hans | ⟨hw, -⟩ := mayFail_cases hw
  · cases h with
    | added => cases hr
    | addFailed => exact answers_addUser_error hans
  · exact hw

end Effects

end Pass

end XrayApi.Worker
