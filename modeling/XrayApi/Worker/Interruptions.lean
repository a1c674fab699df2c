import XrayApi.Worker.Undisturbed

/-!
# Interrupted passes

A pass may break off anywhere: a statement fails and the pass with it, a failure that the pass
ignores leaves a row behind, or the process dies. Between passes the node may restart and lose its
accounts. `Target.Recoverable` is what such mishaps leave of an assignment: its row, with another
status perhaps, or nothing if it was a tombstone, but then its account is gone as well. From there a
complete pass reaches the state it would have reached at once.
-/

set_option autoImplicit false

namespace XrayApi.Worker

open Transition Store Xray Relational

/-! ## What mishaps leave -/

namespace Target

/-- The row is there, with another status perhaps: it is a tombstone if it was one, and as it was if
the account has to go. Or it was a tombstone and is gone, with its account. -/
def Recoverable (a : Target) (row : Option UserInbound) (acct : Option ProtocolUser) : Prop :=
  (∃ r, row = some r ∧ (r.syncStatus = .removing ↔ a.row.syncStatus = .removing) ∧
      (a.Due → r = a.row)) ∨
    (a.row.syncStatus = .removing ∧ row = none ∧ acct = none)

/-- The status of the row after a complete pass, if the row is there. -/
def finalStatus (a : Target) : Option SyncStatus :=
  if a.row.syncStatus = .removing then none
  else if a.user.status = .active then some .applied
  else some a.row.syncStatus

variable {a : Target} {row : Option UserInbound} {acct : Option ProtocolUser} {r : UserInbound}

/-- The row as it was. -/
theorem recoverable_self : a.Recoverable (some a.row) acct :=
  Or.inl ⟨a.row, rfl, Iff.rfl, fun _ => rfl⟩

theorem Recoverable.removing_iff (h : a.Recoverable row acct) (hr : row = some r) :
    r.syncStatus = .removing ↔ a.row.syncStatus = .removing := by
  obtain ⟨r', hr', hs, -⟩ | ⟨-, hnone, -⟩ := h
  · rw [hr] at hr'
    cases hr'
    exact hs
  · rw [hr] at hnone
    cases hnone

/-- Whether the account has to go does not change. -/
theorem Recoverable.due_iff (h : a.Recoverable row acct) (hr : row = some r) :
    (⟨r, a.inbound, a.user⟩ : Target).Due ↔ a.Due := by
  have hs : (r.syncStatus = .removing ∨ a.user.status ≠ .active) ↔ a.Due := by
    rw [h.removing_iff hr]
    exact Iff.rfl
  exact hs

/-- A row of a query that is the target's has the status of the target's row. -/
theorem In.row_of_mine {w : World} (ha : a.In w.tables)
    {cond : UserInbound → Inbound → User → Bool} {d : DesiredAssignment}
    (hd : d ∈ queryDesired w.tables cond) (hm : a.Mine d) :
    ∃ ui, a.rowIn w = some ui ∧ cond ui a.inbound a.user = true ∧ d.syncStatus = ui.syncStatus := by
  obtain ⟨ui, hui, hc, rfl⟩ :=
    (w.db.valid.mem_queryDesired_ids ha.inbound ha.user).1 ⟨hd, hm.1, hm.2⟩
  exact ⟨ui, hui, hc, rfl⟩

/-! ## One statement -/

/-- The invariant of a pass that may fail anywhere. What the pass still pushes or marks is not the
target if its account has to go, and what it still deletes is the target only if it is a tombstone,
and then the account has been removed. -/
structure Interrupted (a : Target) (p : Pass) (w : World) : Prop where
  known : a.In w.tables
  key_iff : ∀ d ∈ p.held, key d = key a.desired ↔ a.Mine d
  kept : a.Recoverable (a.rowIn w) (a.acctIn w)
  pushes : a.Due → ∀ d ∈ p.pushes, ¬ a.Mine d
  marks : a.Due → ∀ d ∈ p.marks, ¬ a.Mine d
  drops : a.row.syncStatus ≠ .removing → ∀ d ∈ p.drops, ¬ a.Mine d
  removed : ∀ d rest, p = .drop d rest → w.accounts a.inbound.nodeID (key d) = none

section Step

variable {p p' : Pass} {s : Stmt} {res : s.Res} {w w' : World}

/-- Between two passes. -/
theorem interrupted_dial (ha : a.In w.tables) (h : a.Recoverable (a.rowIn w) (a.acctIn w)) :
    a.Interrupted .dial w where
  known := ha
  key_iff _ hd := absurd hd List.not_mem_nil
  kept := h
  pushes _ _ hd := absurd hd List.not_mem_nil
  marks _ _ hd := absurd hd List.not_mem_nil
  drops _ _ hd := absurd hd List.not_mem_nil
  removed _ _ hp := by cases hp

/-- What is read as desired is not the target if its account has to go. -/
theorem Interrupted.desired (hI : a.Interrupted p w)
    (h : Pass.Step a.inbound.nodeID p s res p') (hw : Answers s w res w') (hp : p = .listDesired)
    (hdue : a.Due) {d : DesiredAssignment} (hd : d ∈ Pass.readRows s res) : ¬ a.Mine d := by
  intro hm
  subst hp
  obtain ⟨ui, hui, hc, -⟩ := hI.known.row_of_mine (h.desired_of_read hw hd) hm
  have hc := (of_decide_eq_true hc).2
  obtain hs | hact := (hI.kept.due_iff hui).2 hdue
  · exact hc.2 hs
  · exact hact hc.1

/-- A statement that succeeds keeps what can be recovered. -/
theorem Interrupted.recoverable (hI : a.Interrupted p w)
    (h : Pass.Step a.inbound.nodeID p s res p') (hw : Answers s w res w') :
    a.Recoverable (a.rowIn w') (a.acctIn w') := by
  have hrow : a.rowIn w' = a.rowIn w ∨ _ := h.row hw a.row.userID a.row.inboundID
  obtain hrow | ⟨d, rest, rfl, -, huid, hiid, hnone⟩ |
    ⟨d, hd, huid, hiid, status, msg, hst, hmap⟩ :=
    hrow
  · obtain hleft | ⟨hs, hgone, hacct⟩ := hI.kept
    · rw [hrow]
      exact Or.inl hleft
    · -- a tombstone that is gone is not pushed again, so its account stays away
      refine Or.inr ⟨hs, hrow.trans hgone, ?_⟩
      have haccount : a.acctIn w' = a.acctIn w ∨ _ := h.account hw (key a.desired)
      obtain hsame | ⟨_, _, -, -, hnone⟩ | ⟨d, hd, hkey, -⟩ := haccount
      · exact hsame.trans hacct
      · exact hnone
      · have hm := (hI.key_iff d (Pass.mem_held_of_mem_pushes hd)).1 hkey
        exact (hI.pushes (Or.inl hs) d hd hm).elim
  · -- the row that is deleted is a tombstone, and its account has been removed
    have hm : a.Mine d := ⟨huid, hiid⟩
    have hs : a.row.syncStatus = .removing := by
      by_contra hs
      exact hI.drops hs d List.mem_cons_self hm
    refine Or.inr ⟨hs, hnone, ?_⟩
    have hkey := (hI.key_iff d List.mem_cons_self).2 hm
    have hacct : a.acctIn w = none := by
      have hacct := hI.removed d rest rfl
      rw [hkey] at hacct
      exact hacct
    have haccount : a.acctIn w' = a.acctIn w ∨ _ := h.account hw (key a.desired)
    obtain hsame | ⟨_, _, hp, -⟩ | ⟨_, hd, -⟩ := haccount
    · exact hsame.trans hacct
    · cases hp
    · cases hd
  · -- only a row whose account is to stay is marked
    have hdue : ¬ a.Due := fun hdue => hI.marks hdue d hd ⟨huid, hiid⟩
    obtain ⟨r, hr, -, -⟩ | ⟨hs, -⟩ := hI.kept
    · have hmap : a.rowIn w' = (a.rowIn w).map _ := hmap
      rw [hr] at hmap
      refine Or.inl ⟨_, hmap, ⟨fun h => (hst h).elim, fun h => (hdue (Or.inl h)).elim⟩,
        fun h => (hdue h).elim⟩
    · exact (hdue (Or.inl hs)).elim

/-- A statement that succeeds or fails keeps the invariant. -/
theorem Interrupted.step (hI : a.Interrupted p w) (h : Pass.Step a.inbound.nodeID p s res p')
    (hw : MayFail s w res w') : a.Interrupted p' w' where
  known := by
    obtain hans | ⟨rfl, -⟩ := mayFail_cases hw
    · obtain ⟨husers, hinbounds⟩ := h.static hans
      refine ⟨?_, ?_⟩
      · rw [hinbounds]
        exact hI.known.inbound
      · rw [husers]
        exact hI.known.user
    · exact hI.known
  key_iff d hd := by
    obtain hd | hd := h.held hd
    · exact hI.key_iff d hd
    · obtain ⟨cond, hmem, hn⟩ := h.read (Pass.answers_of_read hw hd) hd
      exact w.db.valid.key_eq_iff hI.known.inbound hI.known.user hmem hn
  kept := by
    obtain hans | ⟨rfl, -⟩ := mayFail_cases hw
    · exact hI.recoverable h hans
    · exact hI.kept
  pushes hdue d hd := by
    obtain hd | ⟨hp, hd⟩ := h.pushes hd
    · exact hI.pushes hdue d hd
    · exact hI.desired h (Pass.answers_of_read hw hd) hp hdue hd
  marks hdue d hd := by
    obtain hd | ⟨hp, hd⟩ | ⟨rest, hp, -⟩ := h.marks hd
    · exact hI.marks hdue d hd
    · exact hI.desired h (Pass.answers_of_read hw hd) hp hdue hd
    · refine hI.pushes hdue d ?_
      rw [hp]
      exact List.mem_cons_self
  drops hs d hd := by
    obtain hd | ⟨hd, hds⟩ := h.drops_inv hd
    · exact hI.drops hs d hd
    · intro hm
      obtain ⟨cond, hmem, -⟩ := h.read (Pass.answers_of_read hw hd) hd
      obtain ⟨ui, hui, -, hst⟩ := hI.known.row_of_mine hmem hm
      exact hs ((hI.kept.removing_iff hui).1 (hst.symm.trans hds))
  removed d rest hp := by
    subst hp
    exact h.to_drop hw

end Step

/-! ## A pass that is cut off -/

section Passes

variable {n : ID} {w w' : World} {tr : List (Event Stmt Stmt.Res)}

/-- What a pass that is cut off leaves of an assignment of its node. -/
theorem recoverable_of_cut (h : Cut MayFail Eq (reconcile n).prog w w') (hn : a.inbound.nodeID = n)
    (ha : a.In w.tables) (hr : a.Recoverable (a.rowIn w) (a.acctIn w)) :
    a.In w'.tables ∧ a.Recoverable (a.rowIn w') (a.acctIn w') := by
  subst hn
  obtain ⟨p, hend⟩ := Cut.invariant (c := Pass.dial) (I := a.Interrupted)
    (reconcile_code a.inbound.nodeID) (fun p v v' (hv : v = v') hI => hv ▸ hI)
    (fun p s r p' v v' hstep hv hI => hI.step hstep hv) h (interrupted_dial ha hr)
  exact ⟨hend.known, hend.kept⟩

/-- A pass leaves the assignments of other nodes alone. -/
theorem foreign_of_cut (h : Cut MayFail Eq (reconcile n).prog w w') (hn : a.inbound.nodeID ≠ n)
    (ha : a.In w.tables) : a.In w'.tables ∧ a.rowIn w' = a.rowIn w := by
  have hkeep : ∀ (p : Pass) (s : Stmt) (r : s.Res) (p' : Pass) (v v' : World),
      Pass.Step n p s r p' → MayFail s v r v' →
      (∀ d ∈ p.held, ¬ a.Mine d) ∧ a.In v.tables ∧ a.rowIn v = a.rowIn w →
      (∀ d ∈ p'.held, ¬ a.Mine d) ∧ a.In v'.tables ∧ a.rowIn v' = a.rowIn w := by
    rintro p s r p' v v' hstep hv ⟨hheld, hknown, hrow⟩
    refine ⟨fun d hd hm => ?_, ?_⟩
    · obtain hd | hd := hstep.held hd
      · exact hheld d hd hm
      · -- a row that is read is of this node, and the target is not
        obtain ⟨cond, hmem, hdn⟩ := hstep.read (Pass.answers_of_read hv hd) hd
        obtain ⟨ui, -, -, rfl⟩ :=
          (v.db.valid.mem_queryDesired_ids hknown.inbound hknown.user).1 ⟨hmem, hm.1, hm.2⟩
        exact hn hdn
    · obtain hans | ⟨rfl, -⟩ := mayFail_cases hv
      · obtain ⟨husers, hinbounds⟩ := hstep.static hans
        refine ⟨⟨by rw [hinbounds]; exact hknown.inbound, by rw [husers]; exact hknown.user⟩, ?_⟩
        have hstays : a.rowIn v' = a.rowIn v ∨ _ := hstep.row hans a.row.userID a.row.inboundID
        obtain hsame | ⟨d, rest, rfl, -, huid, hiid, -⟩ | ⟨d, hd, huid, hiid, -⟩ := hstays
        · exact hsame.trans hrow
        · exact (hheld d List.mem_cons_self ⟨huid, hiid⟩).elim
        · exact (hheld d (Pass.mem_held_of_mem_marks hd) ⟨huid, hiid⟩).elim
      · exact ⟨hknown, hrow⟩
  obtain ⟨p, -, hend⟩ := Cut.invariant (c := Pass.dial)
    (I := fun (p : Pass) (v : World) =>
      (∀ d ∈ p.held, ¬ a.Mine d) ∧ a.In v.tables ∧ a.rowIn v = a.rowIn w)
    (reconcile_code n) (fun p v v' (hv : v = v') hI => hv ▸ hI) hkeep h
    ⟨fun _ hd => absurd hd List.not_mem_nil, ha, rfl⟩
  exact hend

/-- A pass inserts no row. -/
theorem absent_of_cut (h : Cut MayFail Eq (reconcile n).prog w w') {userID inboundID : ID}
    (hnone : assignment w.tables userID inboundID = none) :
    assignment w'.tables userID inboundID = none := by
  have hkeep : ∀ (p : Pass) (s : Stmt) (r : s.Res) (p' : Pass) (v v' : World),
      Pass.Step n p s r p' → MayFail s v r v' → assignment v.tables userID inboundID = none →
      assignment v'.tables userID inboundID = none := by
    intro p s r p' v v' hstep hv hold
    obtain hans | ⟨rfl, -⟩ := mayFail_cases hv
    · obtain hsame | ⟨_, _, -, -, -, -, hgone⟩ | ⟨_, -, -, -, _, _, -, hmap⟩ :=
        hstep.row hans userID inboundID
      · exact hsame.trans hold
      · exact hgone
      · rw [hmap, hold]
        rfl
    · exact hold
  obtain ⟨p, hend⟩ := Cut.invariant (c := Pass.dial)
    (I := fun _ (v : World) => assignment v.tables userID inboundID = none)
    (reconcile_code n) (fun p v v' (hv : v = v') hI => hv ▸ hI) hkeep h hnone
  exact hend

/-- A complete pass settles an assignment, whatever mishaps have left of it. -/
theorem Recoverable.settled (h : Runs Answers Eq (reconcile n).prog w tr (.ok ()) w')
    (hn : a.inbound.nodeID = n) (ha : a.In w.tables)
    (hr : a.Recoverable (a.rowIn w) (a.acctIn w)) :
    (a.acctIn w' ≠ none ↔ ¬ a.Due) ∧ (a.rowIn w').map UserInbound.syncStatus = a.finalStatus := by
  have hcut : Cut MayFail Eq (reconcile n).prog w w' := h.cut fun _ _ _ _ hs => Or.inl hs
  cases hrow : a.rowIn w with
  | none =>
      -- the tombstone is gone already, and no pass brings the account back
      have hgone : a.rowIn w' = none := absent_of_cut hcut hrow
      obtain ⟨r, hsome, -⟩ | ⟨hs, -, hacct⟩ := (recoverable_of_cut hcut hn ha hr).2
      · rw [hgone] at hsome
        cases hsome
      · refine ⟨⟨fun hne => (hne hacct).elim, fun hdue => (hdue (Or.inl hs)).elim⟩, ?_⟩
        rw [hgone, finalStatus, if_pos hs]
        rfl
  | some r =>
      obtain ⟨hmem, huid, hiid⟩ := w.db.valid.assignment_eq_some.1 hrow
      have hdue := hr.due_iff hrow
      have hb : (⟨r, a.inbound, a.user⟩ : Target).Owns w.tables n
        (a.inbound.tag, a.user.email) := by
        refine ⟨hmem, ⟨?_, ?_⟩, hn, rfl⟩
        · rw [hiid]
          exact ha.inbound
        · rw [huid]
          exact ha.user
      have hrow' : (⟨r, a.inbound, a.user⟩ : Target).rowIn w' = a.rowIn w' := by
        unfold rowIn
        rw [huid, hiid]
      have hafter := row_after h hb
      rw [hrow'] at hafter
      obtain ⟨hgo, -, hacct, hend⟩ | ⟨hstay, ⟨hin, -⟩ | ⟨hacct, r', hend, hr'⟩⟩ := hafter
      · -- the account had to go, so the row is the original one
        have hgo := hdue.1 hgo
        obtain ⟨r', hsome, -, hsame⟩ | ⟨-, hnone, -⟩ := hr
        · rw [hrow] at hsome
          cases hsome
          obtain rfl := hsame hgo
          refine ⟨⟨fun hne => (hne hacct).elim, fun hno => (hno hgo).elim⟩, ?_⟩
          rw [hend, finalStatus]
          split_ifs with hs hact
          · rfl
          · exact (hgo.elim hs fun h => h hact).elim
          · rfl
        · rw [hrow] at hnone
          cases hnone
      · cases hin
      · have hstay : ¬ a.Due := fun hgo => hstay (hdue.2 hgo)
        refine ⟨⟨fun _ => hstay, fun _ => hacct⟩, ?_⟩
        unfold Due at hstay
        push Not at hstay
        rw [hend, finalStatus, if_neg hstay.1, if_pos hstay.2, Option.map_some, hr']

end Passes

end Target

/-! ## Any number of mishaps -/

/-- What may go wrong between the initial state and a complete pass. -/
inductive Mishap
  | pass
  | restart

/-- A pass that is cut off or whose statements fail anywhere, or a restart of the node, which loses
its accounts. -/
def Mishap.Step (n : ID) (w : World) : Mishap → World → Prop
  | pass, w' => Cut MayFail Eq (reconcile n).prog w w'
  | restart, w' => w' = { w with accounts := Function.update w.accounts n fun _ => none }

section Mishaps

variable {n : ID} {w w' : World} {xs : List Mishap} {a : Target}

theorem absent_of_mishaps (h : Path (Mishap.Step n) w xs w') {userID inboundID : ID}
    (hnone : assignment w.tables userID inboundID = none) :
    assignment w'.tables userID inboundID = none := by
  refine Path.invariant (I := fun v : World => assignment v.tables userID inboundID = none)
    (fun v x v' hv hstep => ?_) h hnone
  cases x with
  | pass => exact Target.absent_of_cut hstep hv
  | restart =>
      cases hstep
      exact hv

theorem foreign_of_mishaps (h : Path (Mishap.Step n) w xs w') (hn : a.inbound.nodeID ≠ n)
    (ha : a.In w.tables) : a.In w'.tables ∧ a.rowIn w' = a.rowIn w := by
  refine Path.invariant (I := fun v : World => a.In v.tables ∧ a.rowIn v = a.rowIn w)
    (fun v x v' hv hstep => ?_) h ⟨ha, rfl⟩
  cases x with
  | pass =>
      obtain ⟨hknown, hrow⟩ := Target.foreign_of_cut hstep hn hv.1
      exact ⟨hknown, hrow.trans hv.2⟩
  | restart =>
      cases hstep
      exact hv

theorem recoverable_of_mishaps (h : Path (Mishap.Step n) w xs w') (hn : a.inbound.nodeID = n)
    (ha : a.In w.tables) (hrow : a.rowIn w = some a.row) :
    a.In w'.tables ∧ a.Recoverable (a.rowIn w') (a.acctIn w') := by
  refine Path.invariant
    (I := fun v : World => a.In v.tables ∧ a.Recoverable (a.rowIn v) (a.acctIn v))
    (fun v x v' hv hstep => ?_) h ⟨ha, by rw [hrow]; exact Target.recoverable_self⟩
  cases x with
  | pass => exact Target.recoverable_of_cut hstep hn hv.1 hv.2
  | restart =>
      cases hstep
      refine ⟨hv.1, hv.2.imp id fun hgone => ⟨hgone.1, hgone.2.1, ?_⟩⟩
      subst hn
      change Function.update v.accounts a.inbound.nodeID (fun _ => none) a.inbound.nodeID _ = none
      rw [Function.update_self]

end Mishaps

/-- A row joins an inbound and a user. -/
theorem exists_target (w : World) {userID inboundID : ID} {ui : UserInbound}
    (h : assignment w.tables userID inboundID = some ui) :
    ∃ a : Target, a.row = ui ∧ a.In w.tables ∧ a.row.userID = userID ∧
      a.row.inboundID = inboundID := by
  obtain ⟨hmem, huid, hiid⟩ := w.db.valid.assignment_eq_some.1 h
  obtain ⟨u, hu⟩ := exists_lookup_of_mem (w.db.valid.userInbounds_user ui hmem)
  obtain ⟨i, hi⟩ := exists_lookup_of_mem (w.db.valid.userInbounds_inbound ui hmem)
  exact ⟨⟨ui, i, u⟩, rfl, ⟨hi, hu⟩, huid, hiid⟩

/-- After any number of interrupted passes and restarts, one complete pass leads to what a complete
pass leads to at once: on the places of the initial assignments the same accounts are present, and
the same rows are left with the same status. -/
theorem interrupted_passes_harmless {n : ID} {w v w₁ w₂ : World} {xs : List Mishap}
    {tr₁ tr₂ : List (Event Stmt Stmt.Res)} (hmishaps : Path (Mishap.Step n) w xs v)
    (h₁ : Runs Answers Eq (reconcile n).prog v tr₁ (.ok ()) w₁)
    (h₂ : Runs Answers Eq (reconcile n).prog w tr₂ (.ok ()) w₂) :
    (∀ k, Assigned w.tables n k → (w₁.accounts n k ≠ none ↔ w₂.accounts n k ≠ none)) ∧
      ∀ userID inboundID, (assignment w₁.tables userID inboundID).map UserInbound.syncStatus =
        (assignment w₂.tables userID inboundID).map UserInbound.syncStatus := by
  have hcut₁ : Cut MayFail Eq (reconcile n).prog v w₁ := h₁.cut fun _ _ _ _ hs => Or.inl hs
  have hcut₂ : Cut MayFail Eq (reconcile n).prog w w₂ := h₂.cut fun _ _ _ _ hs => Or.inl hs
  -- both passes settle the initial assignments of the node
  have hsettled : ∀ a : Target, a.inbound.nodeID = n → a.In w.tables → a.rowIn w = some a.row →
      (a.acctIn w₁ ≠ none ↔ a.acctIn w₂ ≠ none) ∧
        (a.rowIn w₁).map UserInbound.syncStatus = (a.rowIn w₂).map UserInbound.syncStatus := by
    intro a hn ha hrow
    obtain ⟨hknown, hrec⟩ := recoverable_of_mishaps hmishaps hn ha hrow
    obtain ⟨hacct₁, hrow₁⟩ := hrec.settled h₁ hn hknown
    have hself : a.Recoverable (a.rowIn w) (a.acctIn w) := by
      rw [hrow]
      exact Target.recoverable_self
    obtain ⟨hacct₂, hrow₂⟩ := hself.settled h₂ hn ha
    exact ⟨hacct₁.trans hacct₂.symm, hrow₁.trans hrow₂.symm⟩
  refine ⟨fun k hk => ?_, fun userID inboundID => ?_⟩
  · obtain ⟨a, ha⟩ := hk
    obtain ⟨-, hknown, rfl, rfl⟩ := id ha
    exact (hsettled a rfl hknown ha.rowIn).1
  · cases hrow : assignment w.tables userID inboundID with
    | none =>
        rw [Target.absent_of_cut hcut₁ (absent_of_mishaps hmishaps hrow),
          Target.absent_of_cut hcut₂ hrow]
    | some ui =>
        obtain ⟨a, rfl, ha, rfl, rfl⟩ := exists_target w hrow
        by_cases hn : a.inbound.nodeID = n
        · exact (hsettled a hn ha hrow).2
        · obtain ⟨hknown, hsame⟩ := foreign_of_mishaps hmishaps hn ha
          have hsame₁ := (Target.foreign_of_cut hcut₁ hn hknown).2
          have hsame₂ := (Target.foreign_of_cut hcut₂ hn ha).2
          exact congrArg (Option.map UserInbound.syncStatus)
            ((hsame₁.trans hsame).trans hsame₂.symm)

/-- The new user has been pushed, and the row is not marked. -/
def halfDone : World := (exec (.addUser "n1" "in1" (accountFor newlySold.desired)) notSynced).2

/-- The node has restarted since. -/
def rebooted : World :=
  { halfDone with accounts := Function.update halfDone.accounts "n1" fun _ => none }

/-- The first pass for the new user is cut off before it marks the row. -/
theorem cut_halfDone : Cut MayFail Eq (reconcile "n1").prog notSynced halfDone :=
  Cut.call rfl (mayFail_exec (.dial "n1") notSynced)
    (Cut.call rfl (mayFail_exec (.db (.removalsForNode "n1")) notSynced)
      (Cut.call rfl (mayFail_exec (.db (.desiredForNode "n1")) notSynced)
        (Cut.call rfl (mayFail_exec (.addUser "n1" "in1" (accountFor newlySold.desired)) notSynced)
          (Cut.stop rfl))))

/-- The user is served again after a restart, and the row is marked. -/
theorem interrupted_passes_harmless_rebooted :
    Path (Mishap.Step "n1") notSynced [.pass, .restart] rebooted ∧
      ∃ tr w', Runs Answers Eq (reconcile "n1").prog rebooted tr (.ok ()) w' ∧
        w'.accounts "n1" ("in1", "a@example.com") ≠ none ∧
        (assignment w'.tables "u1" "i1").map UserInbound.syncStatus = some .applied := by
  have hmishaps : Path (Mishap.Step "n1") notSynced [.pass, .restart] rebooted :=
    Path.cons cut_halfDone (Path.single rfl)
  obtain ⟨tr₁, h₁⟩ := pass_of_run (n := "n1") (w := rebooted) rfl
  obtain ⟨tr₂, h₂⟩ := pass_of_run (n := "n1") (w := notSynced) rfl
  obtain ⟨haccounts, hrows⟩ := interrupted_passes_harmless hmishaps h₁ h₂
  have howns : newlySold.Owns notSynced.tables "n1" ("in1", "a@example.com") :=
    ⟨List.mem_singleton.2 rfl, ⟨rfl, rfl⟩, rfl, rfl⟩
  refine ⟨hmishaps, tr₁, _, h₁, (haccounts _ ⟨newlySold, howns⟩).2 (by decide), ?_⟩
  rw [hrows]
  rfl

end XrayApi.Worker
