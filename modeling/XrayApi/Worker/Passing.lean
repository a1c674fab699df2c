import XrayApi.Worker.Settle

/-!
# Passes compute the settled world

`Passing n b p w`: a pass of node `n` that was started when the part of the world that belongs to
`n` was that of `b` stands at `p` now. The invariant is kept by the steps of the pass and by
whatever leaves the part of `n` alone; at the end of the pass the part of `n` is that of
`settle n b`. A pass that nobody disturbs therefore computes `settle`, and a second one finds
nothing to do.
-/

set_option autoImplicit false

namespace XrayApi.Worker

open Transition Store Xray Relational

/-! ## The row of an assignment that stays -/

namespace Target

variable {a : Target} {row : Option UserInbound} {d : DesiredAssignment}
  {rest ds : List DesiredAssignment}

/-- The row is as it was, or it has been marked and was not before. -/
def Standing (a : Target) (row : Option UserInbound) : Prop :=
  row = some a.row ∨ (a.row.syncStatus ≠ .applied ∧ row = some (marked a.row))

/-- The row of an assignment that is not due to go, while the pass has not failed. -/
def RowKept (a : Target) (row : Option UserInbound) : Pass → Prop
  | .mark d _ => d.syncStatus ≠ .applied ∧ a.Standing row
  | .giveUp _ _ => True
  | .done (.error _) => True
  | _ => a.Standing row

theorem rowKept_toRemove : a.RowKept row (.toRemove ds) ↔ a.Standing row := by
  cases ds with
  | nil => exact Iff.rfl
  | cons d rest => exact Iff.rfl

theorem rowKept_toAdd : a.RowKept row (.toAdd ds) ↔ a.Standing row := by
  cases ds with
  | nil => exact Iff.rfl
  | cons d rest => exact Iff.rfl

theorem RowKept.removed (h : a.Standing row) : a.RowKept row (.removed d rest) := by
  unfold Pass.removed
  split_ifs with hs
  · exact h
  · exact rowKept_toRemove.2 h

theorem RowKept.added (h : a.Standing row) : a.RowKept row (.added d rest) := by
  unfold Pass.added
  split_ifs with hs
  · exact ⟨hs, h⟩
  · exact rowKept_toAdd.2 h

theorem Standing.mark (h : a.Standing row) (hs : a.row.syncStatus ≠ .applied) :
    a.Standing (row.map marked) := by
  obtain rfl | ⟨-, rfl⟩ := h
  · exact Or.inr ⟨hs, rfl⟩
  · exact Or.inr ⟨hs, rfl⟩

section Step

variable {p p' : Pass} {s : Stmt} {r : s.Res} {w w' : World}

theorem RowKept.step (h : Pass.Step a.inbound.nodeID p s r p') (hw : Answers s w r w')
    (hf : a.Followed p w) (hdue : ¬ a.Due) (hk : a.RowKept (a.rowIn w) p) :
    a.RowKept (a.rowIn w') p' := by
  have hread : w'.tables = w.tables → a.rowIn w' = a.rowIn w :=
    fun h => congrArg (assignment · _ _) h
  cases h with
  | dialed =>
      rw [(answers_dial hw).2]
      exact hk
  | dialFailed e => trivial
  | listed ds =>
      obtain ⟨-, -, -, ht⟩ := answers_db_of_ok rfl hw
      rw [rowKept_toRemove, hread ht]
      exact hk
  | listFailed e => trivial
  | removed d rest =>
      rw [(answers_removeUser hw).2]
      exact RowKept.removed hk
  | removeFailed d rest e => trivial
  | dropped d rest r =>
      obtain ⟨-, -, -, ht⟩ := answers_db_of_ok rfl hw
      have hrow : a.rowIn w' = if a.Mine d then none else a.rowIn w := by
        unfold rowIn
        rw [ht]
        exact assignment_deleteAssignment _ _
      have hother : ¬ a.Mine d := by
        intro hm
        have hprogress : a.Removing rest (if a.Mine d then none else a.rowIn w) (a.acctIn w) :=
          hf.progress
        rw [if_pos hm] at hprogress
        obtain ⟨hdue', -⟩ | ⟨-, -, hnone⟩ := hprogress
        · exact hdue hdue'
        · cases hnone
      rw [rowKept_toRemove, hrow, if_neg hother]
      exact hk
  | desired ds =>
      obtain ⟨-, -, -, ht⟩ := answers_db_of_ok rfl hw
      rw [rowKept_toAdd, hread ht]
      exact hk
  | desiredFailed e => trivial
  | added d rest =>
      obtain ⟨user, rfl⟩ := answers_addUser_ok hw
      exact RowKept.added hk
  | addFailed d rest e => trivial
  | marked d rest r =>
      obtain ⟨-, -, -, ht⟩ := answers_db_of_ok rfl hw
      have hrow : a.rowIn w' = if a.Mine d then (a.rowIn w).map marked else a.rowIn w := by
        unfold rowIn
        rw [ht]
        exact assignment_markAssignmentSynced _ _ _ _
      obtain ⟨hs, hstand⟩ := hk
      rw [rowKept_toAdd, hrow]
      split_ifs with hm
      · -- the pass marks the row because it read it as not applied
        rw [(hf.honest d List.mem_cons_self).eq_desired hm] at hs
        exact hstand.mark hs
      · exact hstand
  | gaveUp d e r => trivial

end Step

/-- A row that stands and is applied is what is left of the assignment. -/
theorem Standing.left (h : a.Standing row) (hdue : ¬ a.Due) {r : UserInbound} (hrow : row = some r)
    (hr : r.syncStatus = .applied) : row = a.left := by
  unfold Due at hdue
  push Not at hdue
  unfold Target.left
  rw [if_neg hdue.1]
  obtain rfl | ⟨hs, rfl⟩ := h
  · cases hrow
    rw [if_neg fun h => h.2 hr]
  · rw [if_pos ⟨hdue.2, hs⟩]

end Target

/-! ## A pass that stands at a control point -/

/-- A push has been refused. -/
def Pass.Failed : Pass → Prop
  | .giveUp _ _ => True
  | .done (.error _) => True
  | _ => False

theorem Pass.not_failed_toRemove (ds : List DesiredAssignment) : ¬ (toRemove ds).Failed := by
  cases ds with
  | nil => exact id
  | cons d rest => exact id

theorem Pass.not_failed_toAdd (ds : List DesiredAssignment) : ¬ (toAdd ds).Failed := by
  cases ds with
  | nil => exact id
  | cons d rest => exact id

theorem Pass.not_failed_removed (d : DesiredAssignment) (rest : List DesiredAssignment) :
    ¬ (removed d rest).Failed := by
  unfold Pass.removed
  split_ifs with hs
  · exact id
  · exact not_failed_toRemove rest

theorem Pass.not_failed_added (d : DesiredAssignment) (rest : List DesiredAssignment) :
    ¬ (added d rest).Failed := by
  unfold Pass.added
  split_ifs with hs
  · exact id
  · exact not_failed_toAdd rest

/-- A row of the database whose account the node refuses. -/
def Unbuildable (t : Tables) (n : ID) : Prop :=
  ∃ d ∈ desiredForNode t n, ∀ user, buildUser (accountFor d) ≠ .ok user

/-- A pass of `n` started when the part of `n` was that of `b`, and stands at `p`. -/
structure Passing (n : ID) (b : World) (p : Pass) (w : World) : Prop where
  users : w.tables.users = b.tables.users
  inbounds : w.tables.inbounds = b.tables.inbounds
  followed : ∀ a : Target, a.inbound.nodeID = n → a.In b.tables → a.rowIn b = some a.row →
    a.Followed p w
  stays : ∀ a : Target, a.inbound.nodeID = n → a.In b.tables → a.rowIn b = some a.row → ¬ a.Due →
    a.Kept (a.acctIn b) (a.acctIn w) p ∧ a.RowKept (a.rowIn w) p
  held : ∀ d ∈ p.held, ∃ a : Target, a.Owns b.tables n (key d) ∧ a.Mine d
  pushes : ∀ d ∈ p.pushes, d ∈ desiredForNode b.tables n
  free : ∀ k, ¬ Assigned b.tables n k → w.accounts n k = b.accounts n k
  absent : ∀ userID inboundID, onNode b.tables n inboundID = true →
    assignment b.tables userID inboundID = none → assignment w.tables userID inboundID = none
  failed : p.Failed → Unbuildable b.tables n

/-- A push that is refused has an account that cannot be built. -/
theorem answers_addUser_refused {n : ID} {tag : String} {acc : Account} {w w' : World}
    {e : StoreErr} (h : Answers (.addUser n tag acc) w (.error e) w') (user : ProtocolUser) :
    buildUser acc ≠ .ok user := by
  intro hb
  obtain ⟨hr, -⟩ := Prod.ext_iff.1 h
  simp only [exec, addUser_eq, hb] at hr
  cases hr

namespace Passing

variable {n : ID} {b w w' : World} {p p' : Pass} {s : Stmt} {r : s.Res}

/-- A pass begins. -/
theorem dial (h : SameAt n b w) : Passing n b .dial w where
  users := h.users
  inbounds := h.inbounds
  followed a hn ha hrow := by
    subst hn
    exact ⟨h.known ha, fun _ hd => absurd hd List.not_mem_nil, (h.rows _ _ ha.onNode).trans hrow⟩
  stays a hn ha hrow _ := by
    subst hn
    exact ⟨congrFun h.accounts _, Or.inl ((h.rows _ _ ha.onNode).trans hrow)⟩
  held _ hd := absurd hd List.not_mem_nil
  pushes _ hd := absurd hd List.not_mem_nil
  free k _ := congrFun h.accounts k
  absent userID inboundID hn hrow := (h.rows userID inboundID hn).trans hrow
  failed hp := hp.elim

theorem rely (h : Passing n b p w) (hw : SameAt n w w') : Passing n b p w' where
  users := hw.users.trans h.users
  inbounds := hw.inbounds.trans h.inbounds
  followed a hn ha hrow := by
    have hf := h.followed a hn ha hrow
    subst hn
    exact hf.rely ⟨hw.rows _ _ hf.known.onNode, by rw [hw.inbounds], by rw [hw.users]⟩ hw.accounts
  stays a hn ha hrow hdue := by
    have hf := h.followed a hn ha hrow
    have hs := h.stays a hn ha hrow hdue
    subst hn
    have hacct : a.acctIn w' = a.acctIn w := congrFun hw.accounts _
    have hrow' : a.rowIn w' = a.rowIn w := hw.rows _ _ hf.known.onNode
    rw [hacct, hrow']
    exact hs
  held := h.held
  pushes := h.pushes
  free k hk := (congrFun hw.accounts k).trans (h.free k hk)
  absent userID inboundID hn hrow := by
    have hn' : onNode w.tables n inboundID = true := by rwa [onNode_congr h.inbounds]
    exact (hw.rows userID inboundID hn').trans (h.absent userID inboundID hn hrow)
  failed := h.failed

/-- A joined row of the node comes from an assignment of `b`. -/
theorem target_of_read (h : Passing n b p w) {cond : UserInbound → Inbound → User → Bool}
    {d : DesiredAssignment} (hd : d ∈ queryDesired w.tables cond) (hn : d.nodeID = n) :
    ∃ a : Target, a.Owns b.tables n (key d) ∧ a.Mine d := by
  obtain ⟨ui, hui, i, u, hi, hu, -, rfl⟩ := mem_queryDesired.1 hd
  rw [h.inbounds] at hi
  rw [h.users] at hu
  have hon : onNode b.tables n ui.inboundID = true :=
    decide_eq_true ⟨i, mem_of_lookup hi, key_of_lookup hi, hn⟩
  cases hrow : assignment b.tables ui.userID ui.inboundID with
  | none =>
      have hnone := h.absent ui.userID ui.inboundID hon hrow
      rw [w.db.valid.assignment_eq_some.2 ⟨hui, rfl, rfl⟩] at hnone
      cases hnone
  | some ui₀ =>
      obtain ⟨hmem, huid, hiid⟩ := b.db.valid.assignment_eq_some.1 hrow
      refine ⟨⟨ui₀, i, u⟩, ⟨hmem, ⟨?_, ?_⟩, hn, rfl⟩, huid.symm, hiid.symm⟩
      · rw [hiid]
        exact hi
      · rw [huid]
        exact hu

/-- Before the addition loop a row is as it was, or gone. -/
theorem row_of_listDesired (h : Passing n b .listDesired w) {a : Target}
    (ha : a.inbound.nodeID = n) (hknown : a.In b.tables) (hrow : a.rowIn b = some a.row) :
    a.rowIn w = some a.row ∨ a.rowIn w = none := by
  have hprogress : a.Removing [] (a.rowIn w) (a.acctIn w) := (h.followed a ha hknown hrow).progress
  obtain ⟨-, ⟨hmem, -⟩ | ⟨-, hclear⟩⟩ | ⟨-, -, hsame⟩ := hprogress
  · cases hmem
  · rw [hclear]
    split_ifs with hs
    · exact Or.inr rfl
    · exact Or.inl rfl
  · exact Or.inl hsame

/-- What the pass reads before its addition loop was desired when it began. -/
theorem desired_of_read (h : Passing n b .listDesired w) {d : DesiredAssignment}
    (hd : d ∈ desiredForNode w.tables n) : d ∈ desiredForNode b.tables n := by
  have hn : d.nodeID = n := by
    obtain ⟨c, hc, -, rfl⟩ := mem_desiredForNode.1 hd
    exact hc.node
  obtain ⟨a, ha, hm⟩ := h.target_of_read hd hn
  have hf := h.followed a ha.node ha.known ha.rowIn
  have hrow := h.row_of_listDesired ha.node ha.known ha.rowIn
  obtain rfl := (hf.known.honest hrow hd (hn.trans ha.node.symm)).eq_desired hm
  obtain hrow | hrow := hrow
  · obtain ⟨-, hact, hlive⟩ := of_decide_eq_true ((hf.known.desired_mem_iff hrow).1 hd)
    exact mem_desiredForNode.2 ⟨a, ha, fun hdue => hdue.elim hlive fun h => h hact, rfl⟩
  · exact (hf.known.desired_notMem hrow hd).elim

theorem failed_step (h : Passing n b p w) (hstep : Pass.Step n p s r p')
    (hw : Answers s w r w') (hf : p'.Failed) : Unbuildable b.tables n := by
  cases hstep with
  | dialed => exact hf.elim
  | dialFailed e => cases (answers_dial hw).1
  | listed ds => exact (Pass.not_failed_toRemove ds hf).elim
  | listFailed e => cases (answers_db_error hw).1
  | removed d rest => exact (Pass.not_failed_removed d rest hf).elim
  | removeFailed d rest e => cases (answers_removeUser hw).1
  | dropped d rest r => exact (Pass.not_failed_toRemove rest hf).elim
  | desired ds => exact (Pass.not_failed_toAdd ds hf).elim
  | desiredFailed e => cases (answers_db_error hw).1
  | added d rest => exact (Pass.not_failed_added d rest hf).elim
  | addFailed d rest e => exact ⟨d, h.pushes d List.mem_cons_self, answers_addUser_refused hw⟩
  | marked d rest r => exact (Pass.not_failed_toAdd rest hf).elim
  | gaveUp d e r => exact h.failed trivial

/-- A step of the pass. -/
theorem step (h : Passing n b p w) (hstep : Pass.Step n p s r p') (hw : Answers s w r w') :
    Passing n b p' w' where
  users := (hstep.static hw).1.trans h.users
  inbounds := (hstep.static hw).2.trans h.inbounds
  followed a hn ha hrow := by
    have hf := h.followed a hn ha hrow
    subst hn
    exact hf.step hstep hw
  stays a hn ha hrow hdue := by
    have hf := h.followed a hn ha hrow
    obtain ⟨hacct, hkept⟩ := h.stays a hn ha hrow hdue
    subst hn
    exact ⟨hacct.step hstep hw hf hdue, hkept.step hstep hw hf hdue⟩
  held d hd := by
    obtain hold | hread := hstep.held hd
    · exact h.held d hold
    · obtain ⟨cond, hmem, hn⟩ := hstep.read hw hread
      exact h.target_of_read hmem hn
  pushes d hd := by
    obtain hold | ⟨rfl, hread⟩ := hstep.pushes hd
    · exact h.pushes d hold
    · exact h.desired_of_read (hstep.desired_of_read hw hread)
  free k hk := by
    refine (hstep.accounts_of_held hw fun d hd hdk => ?_).trans (h.free k hk)
    -- a row in the hands of the pass is on the place of an assignment
    obtain ⟨a, ha, -⟩ := h.held d hd
    rw [hdk] at ha
    exact hk ⟨a, ha⟩
  absent userID inboundID hn hrow := by
    have hnone := h.absent userID inboundID hn hrow
    obtain hsame | ⟨-, -, -, -, -, -, hgone⟩ | ⟨d, -, -, -, status, msg, -, hmap⟩ :=
      hstep.row hw userID inboundID
    · exact hsame.trans hnone
    · exact hgone
    · rw [hmap, hnone]
      rfl
  failed := h.failed_step hstep hw

/-- A pass on another node leaves the part of a node alone. -/
theorem others (h : Passing n b p w) (hstep : Pass.Step n p s r p') (hw : Answers s w r w')
    {m : ID} (hm : m ≠ n) : SameAt m w w' where
  users := (hstep.static hw).1
  inbounds := (hstep.static hw).2
  accounts := hstep.accounts_of_ne hw hm
  rows userID inboundID hon := by
    rw [onNode_congr h.inbounds] at hon
    -- the rows in the hands of the pass are on its own node
    have hown : ∀ d ∈ p.held, d.inboundID ≠ inboundID := by
      rintro d hd rfl
      obtain ⟨a, ha, hmine⟩ := h.held d hd
      rw [hmine.2] at hon
      exact hm ((ha.known.node_of_onNode b.db.valid hon).symm.trans ha.node)
    obtain hsame | ⟨d, rest, rfl, -, -, hd, -⟩ | ⟨d, hd, -, hid, -⟩ :=
      hstep.row hw userID inboundID
    · exact hsame
    · exact (hown d List.mem_cons_self hd).elim
    · exact (hown d (Pass.mem_held_of_mem_marks hd) hid).elim

/-- The part of the node at the end of a pass that succeeds. -/
theorem settled (h : Passing n b (.done (.ok ())) w) : SameAt n (settle n b) w where
  users := h.users
  inbounds := h.inbounds
  accounts := by
    funext k
    rw [settle_accounts]
    by_cases hk : Assigned b.tables n k
    · obtain ⟨a, ha⟩ := hk
      obtain ⟨-, hknown, rfl, rfl⟩ := id ha
      by_cases hdue : a.Due
      · rw [settleAccounts_of_due ha hdue]
        have hprogress : a.Adding [] (a.rowIn w) (a.acctIn w) :=
          (h.followed a rfl hknown ha.rowIn).progress
        obtain ⟨-, -, hacct, -⟩ | ⟨hno, -⟩ := hprogress
        · exact hacct
        · exact (hno hdue).elim
      · rw [settleAccounts_of_stays b.db.valid ha hdue]
        obtain ⟨⟨hmem, -⟩ | ⟨user, hb, hacct⟩, -⟩ := h.stays a rfl hknown ha.rowIn hdue
        · cases hmem
        · rw [hb]
          exact hacct
    · rw [settleAccounts_of_free hk]
      exact h.free k hk
  rows userID inboundID hn := by
    rw [assignment_settle]
    cases hrow : assignment b.tables userID inboundID with
    | none => exact h.absent userID inboundID hn hrow
    | some ui =>
        obtain ⟨a, rfl, ha, rfl, rfl⟩ := exists_target b hrow
        obtain rfl := ha.node_of_onNode b.db.valid hn
        rw [Option.bind_some, ha.settleRow, if_pos rfl]
        have hprogress : a.Adding [] (a.rowIn w) (a.acctIn w) := (h.followed a rfl ha hrow).progress
        obtain ⟨hdue, -, -, hclear⟩ | ⟨hdue, ⟨hmem, -⟩ | ⟨-, r, hr, happ⟩⟩ := hprogress
        · refine hclear.trans ?_
          unfold Target.left
          split_ifs with hs hact
          · rfl
          · exact ((hdue.resolve_left hs) hact.1).elim
          · rfl
        · cases hmem
        · exact (h.stays a rfl ha hrow hdue).2.left hdue hr happ

/-- A pass that has succeeded could build every account. -/
theorem built (h : Passing n b (.done (.ok ())) w) : ¬ Unbuildable b.tables n := by
  rintro ⟨d, hd, hno⟩
  obtain ⟨a, ha, hdue, rfl⟩ := mem_desiredForNode.1 hd
  obtain ⟨⟨hmem, -⟩ | ⟨user, hb, -⟩, -⟩ := h.stays a ha.node ha.known ha.rowIn hdue
  · cases hmem
  · exact hno user hb

end Passing

/-! ## A pass alone -/

section Alone

variable {n : ID} {w w' : World} {tr : List (Event Stmt Stmt.Res)} {r : Except Err Unit}

/-- A pass while the others leave the part of its node alone. -/
theorem passing_of_runs {rely : World → World → Prop} (hrely : ∀ v v', rely v v' → SameAt n v v')
    (h : Runs Answers rely (reconcile n).prog w tr r w') : Passing n w (.done r) w' := by
  obtain ⟨p, hp, hend⟩ := Runs.invariant (c := Pass.dial) (G := fun _ => True) (I := Passing n w)
    (reconcile_code n) (fun p v v' hv hI => hI.rely (hrely v v' hv))
    (fun p s r p' v v' hstep hv _ hI => hI.step hstep hv) h (fun _ _ => trivial)
    (Passing.dial (SameAt.refl n w))
  cases Pass.prog_eq_ret hp
  exact hend

theorem passing_of_pass (h : Runs Answers Eq (reconcile n).prog w tr r w') :
    Passing n w (.done r) w' :=
  passing_of_runs (fun v v' (hv : v = v') => by rw [hv]; exact SameAt.refl n v') h

/-- A pass that nobody disturbs leaves the other nodes alone. -/
theorem sameAt_of_pass (h : Runs Answers Eq (reconcile n).prog w tr r w') {m : ID} (hm : m ≠ n) :
    SameAt m w w' := by
  obtain ⟨p, -, -, hend⟩ := Runs.invariant (c := Pass.dial) (G := fun _ => True)
    (I := fun p v => Passing n w p v ∧ SameAt m w v) (reconcile_code n)
    (fun p v v' (hv : v = v') hI => hv ▸ hI)
    (fun p s r p' v v' hstep hv _ hI =>
      ⟨hI.1.step hstep hv, hI.2.trans (hI.1.others hstep hv hm)⟩)
    h (fun _ _ => trivial) ⟨Passing.dial (SameAt.refl n w), SameAt.refl m w⟩
  exact hend

theorem thins_of_pass (h : Runs Answers Eq (reconcile n).prog w tr r w') : Thins w w' := by
  obtain ⟨p, -, hend⟩ := Runs.invariant (c := Pass.dial) (G := fun _ => True)
    (I := fun _ v => Thins w v) (reconcile_code n) (fun p v v' (hv : v = v') hI => hv ▸ hI)
    (fun p s r p' v v' hstep hv _ hI => hI.trans (hstep.thins hv)) h (fun _ _ => trivial)
    (Thins.refl w)
  exact hend

/-- A pass that succeeds while nobody disturbs it ends in the settled world. -/
theorem eq_settle_of_pass (h : Runs Answers Eq (reconcile n).prog w tr (.ok ()) w') :
    w' = settle n w := by
  refine Thins.eq_of_sameAt (thins_of_pass h) (thins_settle n w) fun m => SameAt.symm ?_
  by_cases hm : m = n
  · subst hm
    exact (passing_of_pass h).settled
  · exact (sameAt_settle hm w).symm.trans (sameAt_of_pass h hm)

/-- A pass that nobody disturbs succeeds exactly when every account it has to push can be built, and
it then leaves exactly the settled world, whatever the order of the rows it reads. -/
theorem reconcile_refines_settle (h : Runs Answers Eq (reconcile n).prog w tr r w') :
    (r = .ok () ↔ ∀ d ∈ desiredForNode w.tables n, ∃ user, buildUser (accountFor d) = .ok user) ∧
      (r = .ok () → w' = settle n w) := by
  have hpass := passing_of_pass h
  refine ⟨⟨?_, fun hbuild => ?_⟩, ?_⟩
  · rintro rfl d hd
    by_contra hno
    push Not at hno
    exact hpass.built ⟨d, hd, hno⟩
  · cases r with
    | ok u => rfl
    | error e =>
        obtain ⟨d, hd, hno⟩ := hpass.failed trivial
        obtain ⟨user, hb⟩ := hbuild d hd
        exact (hno user hb).elim
  · rintro rfl
    exact eq_settle_of_pass h

end Alone

/-- A pass puts the new user on the node and marks the row. -/
theorem reconcile_refines_settle_newlySold :
    ∃ tr r w', Runs Answers Eq (reconcile "n1").prog notSynced tr r w' ∧ r = .ok () ∧
      w' = settle "n1" notSynced := by
  obtain ⟨tr, h⟩ := pass_of_run (n := "n1") (w := notSynced) rfl
  exact ⟨tr, _, _, h, rfl, (reconcile_refines_settle h).2 rfl⟩

/-! ## A second pass -/

section Again

variable {n : ID} {w w₁ w₂ : World} {tr₁ tr₂ : List (Event Stmt Stmt.Res)} {r : Except Err Unit}

/-- The rows of a settled node are no tombstones, and those of active users are applied. -/
theorem Target.Owns.settled_row {a : Target} {t : Tables} {k : Key}
    (ha : a.Owns (settleTables t n) n k) :
    a.row.syncStatus ≠ .removing ∧ (a.user.status = .active → a.row.syncStatus = .applied) := by
  obtain ⟨r, -, hleft⟩ := ha.of_settle
  unfold Target.left at hleft
  split_ifs at hleft with hs hact
  · obtain hrow := Option.some.inj hleft
    rw [← hrow]
    exact ⟨SyncStatus.noConfusion, fun _ => rfl⟩
  · obtain hrow := Option.some.inj hleft
    rw [← hrow]
    exact ⟨hs, fun h => not_not.1 fun hn => hact ⟨h, hn⟩⟩

/-- The settled node has no other rows to push. -/
theorem unbuildable_of_settle {t : Tables} (h : Unbuildable (settleTables t n) n) :
    Unbuildable t n := by
  obtain ⟨d, hd, hno⟩ := h
  obtain ⟨a, ha, hdue, rfl⟩ := mem_desiredForNode.1 hd
  obtain ⟨r, hr, hleft⟩ := ha.of_settle
  refine ⟨Target.desired ⟨r, a.inbound, a.user⟩, mem_desiredForNode.2 ⟨_, hr, ?_, rfl⟩, hno⟩
  rintro (hs | hact)
  · unfold Target.left at hleft
    rw [if_pos hs] at hleft
    cases hleft
  · exact hdue (Or.inr hact)

/-- A pass is about to delete a tombstone or to mark a row that it read as such. -/
def Pass.Reasoned : Pass → Prop
  | .drop d _ => d.syncStatus = .removing
  | .mark d _ => d.syncStatus ≠ .applied
  | _ => True

theorem Pass.reasoned_toRemove (ds : List DesiredAssignment) : (toRemove ds).Reasoned := by
  cases ds with
  | nil => trivial
  | cons d rest => trivial

theorem Pass.reasoned_toAdd (ds : List DesiredAssignment) : (toAdd ds).Reasoned := by
  cases ds with
  | nil => trivial
  | cons d rest => trivial

theorem Pass.Step.reasoned {p p' : Pass} {s : Stmt} {r : s.Res} (h : Pass.Step n p s r p') :
    p'.Reasoned := by
  cases h with
  | dialed => trivial
  | dialFailed e => trivial
  | listed ds => exact reasoned_toRemove ds
  | listFailed e => trivial
  | removed d rest =>
      unfold Pass.removed
      split_ifs with hs
      · exact hs
      · exact reasoned_toRemove rest
  | removeFailed d rest e => trivial
  | dropped d rest r => exact reasoned_toRemove rest
  | desired ds => exact reasoned_toAdd ds
  | desiredFailed e => trivial
  | added d rest =>
      unfold Pass.added
      split_ifs with hs
      · exact hs
      · exact reasoned_toAdd rest
  | addFailed d rest e => trivial
  | marked d rest r => exact reasoned_toAdd rest
  | gaveUp d e r => trivial

/-- On a settled node there is nothing to write. -/
theorem Passing.no_write {p p' : Pass} {s : Stmt} {r : s.Res}
    (h : Passing n (settle n w) p w₁) (hp : p.Reasoned) (hbuild : ¬ Unbuildable w.tables n)
    (hstep : Pass.Step n p s r p') (q : StoreCall) (hq : s = .db q) : q.isWrite = false := by
  -- the row that the pass is about to write belongs to an assignment of the settled node
  have hrow : ∀ d ∈ p.held, ∃ a : Target, a.Owns (settle n w).tables n (key d) ∧
      a.Followed p w₁ ∧ a.Mine d ∧ d = a.desired := by
    intro d hd
    obtain ⟨a, ha, hm⟩ := h.held d hd
    have hf := h.followed a ha.node ha.known ha.rowIn
    exact ⟨a, ha, hf, hm, (hf.honest d hd).eq_desired hm⟩
  cases hstep with
  | dialed => cases hq
  | dialFailed e => cases hq
  | listed ds => cases hq; rfl
  | listFailed e => cases hq; rfl
  | removed d rest => cases hq
  | removeFailed d rest e => cases hq
  | dropped d rest r =>
      obtain ⟨a, ha, -, -, rfl⟩ := hrow d List.mem_cons_self
      exact (ha.settled_row.1 hp).elim
  | desired ds => cases hq; rfl
  | desiredFailed e => cases hq; rfl
  | added d rest => cases hq
  | addFailed d rest e => cases hq
  | marked d rest r =>
      obtain ⟨a, ha, hf, hm, rfl⟩ := hrow d List.mem_cons_self
      have hprogress : a.Adding rest
          (if a.Mine a.desired then (a.rowIn w₁).map Target.marked else a.rowIn w₁)
          (a.acctIn w₁) := hf.progress
      rw [if_pos hm] at hprogress
      obtain ⟨-, -, -, hclear⟩ | ⟨hdue, -⟩ := hprogress
      · -- a row that has been marked is applied
        rw [if_neg ha.settled_row.1] at hclear
        obtain ⟨r', -, hr'⟩ := Option.map_eq_some_iff.1 hclear
        exact (hp (congrArg UserInbound.syncStatus hr').symm).elim
      · exact (hp (ha.settled_row.2 (not_not.1 fun hact => hdue (Or.inr hact)))).elim
  | gaveUp d e r => exact (hbuild (unbuildable_of_settle (h.failed trivial))).elim

/-- A pass right after a pass that succeeded succeeds as well, changes nothing at all, and issues no
write to the database. -/
theorem reconcile_again (h₁ : Runs Answers Eq (reconcile n).prog w tr₁ (.ok ()) w₁)
    (h₂ : Runs Answers Eq (reconcile n).prog w₁ tr₂ r w₂) :
    r = .ok () ∧ w₂ = w₁ ∧ ∀ e ∈ tr₂, ∀ q, e.stmt = .db q → q.isWrite = false := by
  have hbuild : ¬ Unbuildable w.tables n := (passing_of_pass h₁).built
  obtain rfl := eq_settle_of_pass h₁
  have hok : r = .ok () := by
    cases r with
    | ok u => rfl
    | error e => exact (hbuild (unbuildable_of_settle ((passing_of_pass h₂).failed trivial))).elim
  subst hok
  refine ⟨rfl, (eq_settle_of_pass h₂).trans (settle_settle n w), ?_⟩
  exact Runs.events (c := Pass.dial) (I := fun p v => Passing n (settle n w) p v ∧ p.Reasoned)
    (E := fun e => ∀ q, e.stmt = .db q → q.isWrite = false)
    (reconcile_code n) (fun p v v' (hv : v = v') hI => hv ▸ hI)
    (fun p s r p' v v' hstep hv hI =>
      ⟨hI.1.no_write hI.2 hbuild hstep, hI.1.step hstep hv, hstep.reasoned⟩)
    h₂ ⟨Passing.dial (SameAt.refl n _), trivial⟩

end Again

/-- The second pass for the new user. -/
theorem reconcile_again_newlySold :
    ∃ w₁ tr₂ r w₂, w₁ = settle "n1" notSynced ∧
      Runs Answers Eq (reconcile "n1").prog w₁ tr₂ r w₂ ∧ w₂ = w₁ := by
  obtain ⟨tr₁, h₁⟩ := pass_of_run (n := "n1") (w := notSynced) rfl
  obtain ⟨tr₂, h₂⟩ := Runs.of_run answers_exec (fun _ => rfl) (reconcile "n1").prog
    ((reconcile "n1").run exec notSynced).2
  exact ⟨_, tr₂, _, _, eq_settle_of_pass h₁, h₂, (reconcile_again h₁ h₂).2.1⟩

end XrayApi.Worker
