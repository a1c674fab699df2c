import XrayApi.Store.Assignments
import XrayApi.Worker.Pass

/-!
# What one pass does to one assignment

A `Target` is an assignment with the inbound and the user it joins. While nobody else touches these
three rows, what a pass does to the target's row and account can be followed through the two loops:
`Target.Removing` and `Target.Adding` are the loop invariants, with the list that is left as a
parameter. Everything else in the database may change meanwhile, so the rows of other assignments in
the two lists may be out of date; the keys of the schema keep them apart from the target
(`Target.Honest`).
-/

set_option autoImplicit false

namespace XrayApi.Worker

open Transition Store Xray Relational

/-- An assignment and the rows it joins. -/
structure Target where
  row : UserInbound
  inbound : Inbound
  user : User

namespace Target

variable (a : Target)

/-- The inbound and the user of the target are as given. -/
structure In (t : Tables) : Prop where
  inbound : lookup Inbound.id a.row.inboundID t.inbounds = some a.inbound
  user : lookup User.id a.row.userID t.users = some a.user

/-- The target as the queries return it. -/
def desired : DesiredAssignment := desiredRow a.row a.inbound a.user

/-- The row of the target in the database. -/
def rowIn (w : World) : Option UserInbound :=
  assignment w.tables a.row.userID a.row.inboundID

/-- The account of the target on its node. -/
def acctIn (w : World) : Option ProtocolUser :=
  w.accounts a.inbound.nodeID (a.inbound.tag, a.user.email)

/-- A row of a list is the target's. -/
def Mine (d : DesiredAssignment) : Prop :=
  d.userID = a.row.userID ∧ d.inboundID = a.row.inboundID

instance (d : DesiredAssignment) : Decidable (a.Mine d) :=
  inferInstanceAs (Decidable (_ ∧ _))

/-- The account has to go. -/
def Due : Prop := a.row.syncStatus = .removing ∨ a.user.status ≠ .active

/-- A row in the hands of the pass is on the target's account exactly when it is the target's, and
then it is up to date. -/
structure Honest (d : DesiredAssignment) : Prop where
  key_iff : key d = key a.desired ↔ a.Mine d
  eq_desired : a.Mine d → d = a.desired

/-! ## The loop invariants -/

/-- The removal has been carried out. -/
def Cleared (row : Option UserInbound) (acct : Option ProtocolUser) : Prop :=
  acct = none ∧ row = if a.row.syncStatus = .removing then none else some a.row

/-- The push has been carried out and recorded. -/
def Pushed (row : Option UserInbound) (acct : Option ProtocolUser) : Prop :=
  acct ≠ none ∧ ∃ r, row = some r ∧ r.syncStatus = .applied

/-- In the removal loop with `ds` left. -/
def Removing (ds : List DesiredAssignment) (row : Option UserInbound)
    (acct : Option ProtocolUser) : Prop :=
  (a.Due ∧ (a.desired ∈ ds ∧ row = some a.row ∨ a.Cleared row acct)) ∨
    (¬ a.Due ∧ a.desired ∉ ds ∧ row = some a.row)

/-- In the addition loop with `ds` left. -/
def Adding (ds : List DesiredAssignment) (row : Option UserInbound)
    (acct : Option ProtocolUser) : Prop :=
  (a.Due ∧ a.desired ∉ ds ∧ a.Cleared row acct) ∨
    (¬ a.Due ∧ (a.desired ∈ ds ∧ row = some a.row ∨ Pushed row acct))

/-- The row after the pass recorded a push. -/
def marked (r : UserInbound) : UserInbound := { r with syncStatus := .applied, lastError := "" }

/-- The target at a control point. Before a write to the database the invariant is that of the
point after it, on the row as it will be. -/
def At (row : Option UserInbound) (acct : Option ProtocolUser) : Pass → Prop
  | .dial => row = some a.row
  | .listRemovals => row = some a.row
  | .remove d rest => a.Removing (d :: rest) row acct
  | .drop d rest => a.Removing rest (if a.Mine d then none else row) acct
  | .listDesired => a.Removing [] row acct
  | .add d rest => a.Adding (d :: rest) row acct
  | .mark d rest => a.Adding rest (if a.Mine d then row.map marked else row) acct
  | .done (.ok _) => a.Adding [] row acct
  | .giveUp _ _ => True
  | .done (.error _) => True

variable {a} {row : Option UserInbound} {acct : Option ProtocolUser} {d : DesiredAssignment}
  {rest ds : List DesiredAssignment}

theorem mine_desired : a.Mine a.desired := ⟨rfl, rfl⟩

theorem at_toRemove : a.At row acct (.toRemove ds) ↔ a.Removing ds row acct := by
  cases ds with
  | nil => exact Iff.rfl
  | cons d rest => exact Iff.rfl

theorem at_toAdd : a.At row acct (.toAdd ds) ↔ a.Adding ds row acct := by
  cases ds with
  | nil => exact Iff.rfl
  | cons d rest => exact Iff.rfl

/-- Another row has been dealt with. -/
theorem Removing.tail (h : a.Removing (d :: rest) row acct) (hd : ¬ a.Mine d) :
    a.Removing rest row acct := by
  have hne : a.desired ≠ d := fun h => hd (h ▸ mine_desired)
  obtain ⟨hdue, ⟨hmem, hrow⟩ | hclear⟩ | ⟨hdue, hmem, hrow⟩ := h
  · exact Or.inl ⟨hdue, Or.inl ⟨(List.mem_cons.1 hmem).resolve_left hne, hrow⟩⟩
  · exact Or.inl ⟨hdue, Or.inr hclear⟩
  · exact Or.inr ⟨hdue, fun h => hmem (List.mem_cons_of_mem d h), hrow⟩

theorem Adding.tail (h : a.Adding (d :: rest) row acct) (hd : ¬ a.Mine d) :
    a.Adding rest row acct := by
  have hne : a.desired ≠ d := fun h => hd (h ▸ mine_desired)
  obtain ⟨hdue, hmem, hclear⟩ | ⟨hdue, ⟨hmem, hrow⟩ | hpush⟩ := h
  · exact Or.inl ⟨hdue, fun h => hmem (List.mem_cons_of_mem d h), hclear⟩
  · exact Or.inr ⟨hdue, Or.inl ⟨(List.mem_cons.1 hmem).resolve_left hne, hrow⟩⟩
  · exact Or.inr ⟨hdue, Or.inr hpush⟩

/-- The target is in the removal list, so it is due. -/
theorem Removing.due (h : a.Removing (a.desired :: rest) row acct) :
    a.Due ∧ (row = some a.row ∨ a.Cleared row acct) := by
  obtain ⟨hdue, ⟨-, hrow⟩ | hclear⟩ | ⟨-, hmem, -⟩ := h
  · exact ⟨hdue, Or.inl hrow⟩
  · exact ⟨hdue, Or.inr hclear⟩
  · exact (hmem List.mem_cons_self).elim

/-- The target is in the desired list, so it is not due. -/
theorem Adding.not_due (h : a.Adding (a.desired :: rest) row acct) :
    ¬ a.Due ∧ (row = some a.row ∨ Pushed row acct) := by
  obtain ⟨-, hmem, -⟩ | ⟨hdue, ⟨-, hrow⟩ | hpush⟩ := h
  · exact (hmem List.mem_cons_self).elim
  · exact ⟨hdue, Or.inl hrow⟩
  · exact ⟨hdue, Or.inr hpush⟩

/-- The account of a row of the removal list has been removed. -/
theorem Removing.removed (h : a.Removing (d :: rest) row acct) (hd : a.Honest d) :
    a.At row (if a.Mine d then none else acct) (.removed d rest) := by
  by_cases hm : a.Mine d
  · obtain rfl := hd.eq_desired hm
    obtain ⟨hdue, hrow⟩ := h.due
    rw [if_pos hm]
    unfold Pass.removed
    split_ifs with hs
    · -- the tombstone is deleted next
      have hs : a.row.syncStatus = .removing := hs
      change a.Removing rest (if a.Mine a.desired then none else row) none
      rw [if_pos hm]
      exact Or.inl ⟨hdue, Or.inr ⟨rfl, (if_pos hs).symm⟩⟩
    · have hs : a.row.syncStatus ≠ .removing := hs
      rw [at_toRemove]
      refine Or.inl ⟨hdue, Or.inr ⟨rfl, ?_⟩⟩
      rw [if_neg hs]
      obtain hrow | ⟨-, hrow⟩ := hrow
      · exact hrow
      · rwa [if_neg hs] at hrow
  · rw [if_neg hm]
    unfold Pass.removed
    split_ifs with hs
    · change a.Removing rest (if a.Mine d then none else row) acct
      rw [if_neg hm]
      exact h.tail hm
    · rw [at_toRemove]
      exact h.tail hm

/-- The account of a row of the desired list has been pushed. -/
theorem Adding.added (h : a.Adding (d :: rest) row acct) (hd : a.Honest d) (user : ProtocolUser) :
    a.At row (if a.Mine d then some user else acct) (.added d rest) := by
  by_cases hm : a.Mine d
  · obtain rfl := hd.eq_desired hm
    obtain ⟨hdue, hrow⟩ := h.not_due
    rw [if_pos hm]
    obtain ⟨r, rfl⟩ : ∃ r, row = some r := by
      obtain hrow | ⟨-, r, hrow, -⟩ := hrow
      · exact ⟨_, hrow⟩
      · exact ⟨r, hrow⟩
    unfold Pass.added
    split_ifs with hs
    · change a.Adding rest (if a.Mine a.desired then (some r).map marked else some r) (some user)
      rw [if_pos hm]
      exact Or.inr ⟨hdue, Or.inr ⟨Option.some_ne_none _, marked r, rfl, rfl⟩⟩
    · have hs : a.row.syncStatus = .applied := not_not.1 hs
      rw [at_toAdd]
      refine Or.inr ⟨hdue, Or.inr ⟨Option.some_ne_none _, r, rfl, ?_⟩⟩
      obtain hrow | ⟨-, r', hrow, hr'⟩ := hrow
      · cases hrow
        exact hs
      · cases hrow
        exact hr'
  · rw [if_neg hm]
    unfold Pass.added
    split_ifs with hs
    · change a.Adding rest (if a.Mine d then row.map marked else row) acct
      rw [if_neg hm]
      exact h.tail hm
    · rw [at_toAdd]
      exact h.tail hm

/-! ## One step -/

section Step

variable {p p' : Pass} {s : Stmt} {r : s.Res} {w w' : World}

/-- A joined row of the target's node that a query returns now is honest. -/
theorem In.honest (ha : a.In w.tables) (hrow : a.rowIn w = some a.row ∨ a.rowIn w = none)
    {cond : UserInbound → Inbound → User → Bool} (hd : d ∈ queryDesired w.tables cond)
    (hn : d.nodeID = a.inbound.nodeID) : a.Honest d where
  key_iff := w.db.valid.key_eq_iff ha.inbound ha.user hd hn
  eq_desired hm := by
    obtain ⟨ui, hui, -, hdui⟩ :=
      (w.db.valid.mem_queryDesired_ids ha.inbound ha.user).1 ⟨hd, hm.1, hm.2⟩
    have hui : a.rowIn w = some ui := hui
    obtain hrow | hrow := hrow
    · rw [hrow] at hui
      cases hui
      exact hdui
    · rw [hrow] at hui
      cases hui

/-- The target is among the rows of a query exactly when its row is there and satisfies the
condition. -/
theorem In.desired_mem_iff (ha : a.In w.tables) (hrow : a.rowIn w = some a.row)
    {cond : UserInbound → Inbound → User → Bool} :
    a.desired ∈ queryDesired w.tables cond ↔ cond a.row a.inbound a.user = true := by
  have hrow : assignment w.tables a.row.userID a.row.inboundID = some a.row := hrow
  constructor
  · intro h
    obtain ⟨ui, hui, hc, -⟩ :=
      (w.db.valid.mem_queryDesired_ids ha.inbound ha.user).1 ⟨h, mine_desired⟩
    rw [hrow] at hui
    cases hui
    exact hc
  · exact fun hc =>
      ((w.db.valid.mem_queryDesired_ids ha.inbound ha.user).2 ⟨_, hrow, hc, rfl⟩).1

/-- A target whose row is gone is among the rows of no query. -/
theorem In.desired_notMem (ha : a.In w.tables) (hrow : a.rowIn w = none)
    {cond : UserInbound → Inbound → User → Bool} : a.desired ∉ queryDesired w.tables cond := by
  intro h
  obtain ⟨ui, hui, -, -⟩ :=
    (w.db.valid.mem_queryDesired_ids ha.inbound ha.user).1 ⟨h, mine_desired⟩
  have hui : a.rowIn w = some ui := hui
  rw [hrow] at hui
  cases hui

theorem acctIn_setAccount (k : Key) (x : Option ProtocolUser) :
    a.acctIn (w.setAccount a.inbound.nodeID k x) =
      if key a.desired = k then x else a.acctIn w := by
  unfold acctIn
  rw [World.accounts_setAccount, Function.update_apply]
  rfl

/-- The target's row as the removal query finds it. -/
theorem At.listed (ha : a.In w.tables) (hrow : a.rowIn w = some a.row)
    (hds : ∀ e, e ∈ ds ↔ e ∈ removalsForNode w.tables a.inbound.nodeID) :
    a.Removing ds (a.rowIn w) acct := by
  have hmem : a.desired ∈ ds ↔ a.Due := by
    rw [hds, removalsForNode, ha.desired_mem_iff hrow, decide_eq_true_iff]
    exact ⟨fun h => h.2, fun h => ⟨rfl, h⟩⟩
  by_cases hdue : a.Due
  · exact Or.inl ⟨hdue, Or.inl ⟨hmem.2 hdue, hrow⟩⟩
  · exact Or.inr ⟨hdue, fun h => hdue (hmem.1 h), hrow⟩

/-- The target's row as the query for the desired rows finds it. -/
theorem Removing.desired (h : a.Removing [] (a.rowIn w) acct) (ha : a.In w.tables)
    (hds : ∀ e, e ∈ ds ↔ e ∈ desiredForNode w.tables a.inbound.nodeID) :
    a.Adding ds (a.rowIn w) acct := by
  obtain ⟨hdue, ⟨hmem, -⟩ | hclear⟩ | ⟨hdue, -, hrow⟩ := h
  · cases hmem
  · refine Or.inl ⟨hdue, fun hmem => ?_, hclear⟩
    rw [hds] at hmem
    by_cases hs : a.row.syncStatus = .removing
    · exact ha.desired_notMem (hclear.2.trans (if_pos hs)) hmem
    · have hc := (ha.desired_mem_iff (hclear.2.trans (if_neg hs))).1 hmem
      exact hdue.elim hs fun hact => hact (of_decide_eq_true hc).2.1
  · refine Or.inr ⟨hdue, Or.inl ⟨?_, hrow⟩⟩
    rw [hds]
    unfold Due at hdue
    push Not at hdue
    exact (ha.desired_mem_iff hrow).2 (decide_eq_true ⟨rfl, hdue.2, hdue.1⟩)

/-- A step of a pass on the target's node, whose held rows are honest. -/
theorem At.step (h : Pass.Step a.inbound.nodeID p s r p') (hw : Answers s w r w')
    (ha : a.In w.tables) (hheld : ∀ d ∈ p.held, a.Honest d)
    (hat : a.At (a.rowIn w) (a.acctIn w) p) : a.At (a.rowIn w') (a.acctIn w') p' := by
  -- a step writes the row or the account of the target only if it holds the target's own row
  cases h with
  | dialed =>
      rw [(answers_dial hw).2]
      exact hat
  | dialFailed e => trivial
  | listed ds =>
      obtain ⟨b, hb, hrows, ht⟩ := answers_db_of_ok rfl hw
      cases hb
      rw [at_toRemove]
      have hrow : a.rowIn w' = a.rowIn w := congrArg (assignment · _ _) ht
      rw [hrow]
      exact At.listed ha hat fun e => List.Perm.mem_iff hrows
  | listFailed e => trivial
  | removed d rest =>
      have hd : a.Honest d := hheld d List.mem_cons_self
      have hkey : (key a.desired = (d.inboundTag, d.email)) ↔ a.Mine d := by
        rw [← hd.key_iff, eq_comm]
        rfl
      have hat : a.Removing (d :: rest) (a.rowIn w) (a.acctIn w) := hat
      rw [(answers_removeUser hw).2, acctIn_setAccount]
      simp only [hkey]
      exact hat.removed hd
  | removeFailed d rest e => trivial
  | dropped d rest r =>
      obtain ⟨-, -, -, ht⟩ := answers_db_of_ok rfl hw
      have hrow : a.rowIn w' = if a.Mine d then none else a.rowIn w := by
        unfold rowIn
        rw [ht]
        exact assignment_deleteAssignment _ _
      have hacct : a.acctIn w' = a.acctIn w := congrFun (congrFun (answers_db_frame hw).1 _) _
      rw [at_toRemove, hrow, hacct]
      exact hat
  | desired ds =>
      obtain ⟨b, hb, hrows, ht⟩ := answers_db_of_ok rfl hw
      cases hb
      have hrow : a.rowIn w' = a.rowIn w := congrArg (assignment · _ _) ht
      have hacct : a.acctIn w' = a.acctIn w := congrFun (congrFun (answers_db_frame hw).1 _) _
      have hat : a.Removing [] (a.rowIn w) (a.acctIn w) := hat
      rw [at_toAdd, hrow, hacct]
      exact hat.desired ha fun e => List.Perm.mem_iff hrows
  | desiredFailed e => trivial
  | added d rest =>
      have hd : a.Honest d := hheld d List.mem_cons_self
      obtain ⟨user, rfl⟩ := answers_addUser_ok hw
      have hkey : (key a.desired = (d.inboundTag, (accountFor d).email)) ↔ a.Mine d := by
        rw [← hd.key_iff, eq_comm]
        rfl
      have hat : a.Adding (d :: rest) (a.rowIn w) (a.acctIn w) := hat
      rw [acctIn_setAccount]
      simp only [hkey]
      exact hat.added hd user
  | addFailed d rest e => trivial
  | marked d rest r =>
      obtain ⟨-, -, -, ht⟩ := answers_db_of_ok rfl hw
      have hrow : a.rowIn w' = if a.Mine d then (a.rowIn w).map marked else a.rowIn w := by
        unfold rowIn
        rw [ht]
        exact assignment_markAssignmentSynced _ _ _ _
      have hacct : a.acctIn w' = a.acctIn w := congrFun (congrFun (answers_db_frame hw).1 _) _
      rw [at_toAdd, hrow, hacct]
      exact hat
  | gaveUp d e r => trivial

/-- When a pass reads, the target's row is untouched or deleted. -/
theorem At.row_of_read (h : Pass.Step a.inbound.nodeID p s r p')
    (hat : a.At (a.rowIn w) (a.acctIn w) p) (he : d ∈ Pass.readRows s r) :
    a.rowIn w = some a.row ∨ a.rowIn w = none := by
  cases h with
  | listed ds => exact Or.inl hat
  | desired ds =>
      have hat : a.Removing [] (a.rowIn w) (a.acctIn w) := hat
      obtain ⟨-, ⟨hmem, -⟩ | ⟨-, hclear⟩⟩ | ⟨-, -, hrow⟩ := hat
      · cases hmem
      · rw [hclear]
        split_ifs with hs
        · exact Or.inr rfl
        · exact Or.inl rfl
      · exact Or.inl hrow
  | dialed => cases he
  | dialFailed e => cases he
  | listFailed e => cases he
  | removed d rest => cases he
  | removeFailed d rest e => cases he
  | dropped d rest r => cases he
  | desiredFailed e => cases he
  | added d rest => cases he
  | addFailed d rest e => cases he
  | marked d rest r => cases he
  | gaveUp d e r => cases he

/-- The invariant of a pass. -/
structure Followed (a : Target) (p : Pass) (w : World) : Prop where
  known : a.In w.tables
  honest : ∀ d ∈ p.held, a.Honest d
  progress : a.At (a.rowIn w) (a.acctIn w) p

theorem Followed.step (h : Pass.Step a.inbound.nodeID p s r p') (hw : Answers s w r w')
    (ha : a.Followed p w) : a.Followed p' w' where
  known := by
    obtain ⟨husers, hinbounds⟩ := h.static hw
    refine ⟨?_, ?_⟩
    · rw [hinbounds]
      exact ha.known.inbound
    · rw [husers]
      exact ha.known.user
  honest d hd := by
    obtain hold | hread := h.held hd
    · exact ha.honest d hold
    · obtain ⟨cond, hmem, hn⟩ := h.read hw hread
      exact ha.known.honest (ha.progress.row_of_read h hread) hmem hn
  progress := ha.progress.step h hw ha.known ha.honest

/-- The rows of the target are as before. -/
structure Untouched (a : Target) (w w' : World) : Prop where
  row : a.rowIn w' = a.rowIn w
  inbound : lookup Inbound.id a.row.inboundID w'.tables.inbounds =
    lookup Inbound.id a.row.inboundID w.tables.inbounds
  user : lookup User.id a.row.userID w'.tables.users = lookup User.id a.row.userID w.tables.users

theorem Followed.rely (ha : a.Followed p w) (h : a.Untouched w w')
    (hnode : w'.accounts a.inbound.nodeID = w.accounts a.inbound.nodeID) : a.Followed p w' where
  known := ⟨h.inbound.trans ha.known.inbound, h.user.trans ha.known.user⟩
  honest := ha.honest
  progress := by
    have hacct : a.acctIn w' = a.acctIn w := congrFun hnode _
    rw [h.row, hacct]
    exact ha.progress

end Step

end Target

/-! ## A whole pass -/

/-- A step leaves the account at `k` alone if no row in the hands of the pass is on it. -/
theorem Pass.Step.accounts_of_held {n : ID} {p p' : Pass} {s : Stmt} {r : s.Res} {w w' : World}
    (h : Pass.Step n p s r p') (hw : Answers s w r w') {k : Key} (hk : ∀ d ∈ p.held, key d ≠ k) :
    w'.accounts n k = w.accounts n k := by
  obtain hsame | ⟨d, rest, rfl, hd, -⟩ | ⟨d, hmem, hd, -⟩ := h.account hw k
  · exact hsame
  · exact (hk d List.mem_cons_self hd).elim
  · exact (hk d (Pass.mem_held_of_mem_pushes hmem) hd).elim

section Whole

variable {n : ID} {rely : World → World → Prop} {w w' : World}
  {tr : List (Event Stmt Stmt.Res)}

/-- The control points and steps of a pass, for the invariant rule. -/
theorem reconcile_code (n : ID) : ∀ (p : Pass) (s : Stmt) (k : s.Res → Job),
    p.prog n = .call s k → ∀ r, ∃ p', Pass.Step n p s r p' ∧ k r = p'.prog n :=
  fun _ _ _ h r => Pass.prog_step h r

/-- What a pass on the node of an untouched target does to it. -/
theorem Target.settled (a : Target) (hn : a.inbound.nodeID = n)
    (hnode : ∀ v v', rely v v' → v'.accounts n = v.accounts n)
    (hrely : ∀ v v', rely v v' → a.Untouched v v')
    (h : Runs Answers rely (reconcile n).prog w tr (.ok ()) w') (ha : a.In w.tables)
    (hrow : a.rowIn w = some a.row) : a.Adding [] (a.rowIn w') (a.acctIn w') := by
  subst hn
  have hstart : a.Followed .dial w := ⟨ha, fun _ hd => absurd hd List.not_mem_nil, hrow⟩
  obtain ⟨p, hp, hend⟩ := Runs.invariant (c := Pass.dial) (G := fun _ => True) (I := a.Followed)
    (reconcile_code a.inbound.nodeID)
    (fun p v v' hv hI => hI.rely (hrely v v' hv) (hnode v v' hv))
    (fun p s r p' v v' hstep hv _ hI => hI.step hstep hv) h (fun _ _ => trivial) hstart
  cases Pass.prog_eq_ret hp
  exact hend.progress

/-- A pass changes no account but those of the rows it read. -/
theorem reconcile_frame (hnode : ∀ v v', rely v v' → v'.accounts n = v.accounts n)
    (h : Runs Answers rely (reconcile n).prog w tr (.ok ()) w') {k : Key}
    (hk : ∀ e ∈ tr, ∀ d ∈ Pass.readRows e.stmt e.answer, key d ≠ k) :
    w'.accounts n k = w.accounts n k := by
  obtain ⟨p, -, -, hend⟩ := Runs.invariant (c := Pass.dial)
    (I := fun p v => (∀ d ∈ p.held, key d ≠ k) ∧ v.accounts n k = w.accounts n k)
    (reconcile_code n) (fun p v v' hv hI => ⟨hI.1, by rw [hnode v v' hv]; exact hI.2⟩)
    (fun p s r p' v v' hstep hv hread hI => ⟨fun d hd => (hstep.held hd).elim (hI.1 d) (hread d),
      (hstep.accounts_of_held hv hI.1).trans hI.2⟩)
    h hk ⟨fun _ hd => absurd hd List.not_mem_nil, rfl⟩
  exact hend

/-- After a pass that succeeds, every assignment of the node that nobody else touched has its
account on the node exactly when its user is active and it was not tombstoned; a tombstone is gone,
other rows stay, and desired ones are marked as applied. Accounts of rows the pass did not read are
as before. Anything else in the database may have changed during the pass. -/
theorem reconcile_converges (hnode : ∀ v v', rely v v' → v'.accounts n = v.accounts n)
    (h : Runs Answers rely (reconcile n).prog w tr (.ok ()) w') :
    (∀ a : Target, a.inbound.nodeID = n → a.In w.tables → a.rowIn w = some a.row →
      (∀ v v', rely v v' → a.Untouched v v') →
        ((w'.accounts n (a.inbound.tag, a.user.email) ≠ none ↔
            a.user.status = .active ∧ a.row.syncStatus ≠ .removing) ∧
          (a.row.syncStatus = .removing →
            assignment w'.tables a.row.userID a.row.inboundID = none) ∧
          (a.row.syncStatus ≠ .removing → a.user.status ≠ .active →
            assignment w'.tables a.row.userID a.row.inboundID = some a.row) ∧
          (a.row.syncStatus ≠ .removing → a.user.status = .active →
            ∃ r, assignment w'.tables a.row.userID a.row.inboundID = some r ∧
              r.syncStatus = .applied))) ∧
      ∀ k, (∀ e ∈ tr, ∀ d ∈ Pass.readRows e.stmt e.answer, key d ≠ k) →
        w'.accounts n k = w.accounts n k := by
  refine ⟨fun a hn ha hrow hrely => ?_, fun k hk => reconcile_frame hnode h hk⟩
  -- `settled`: the target is due for removal and gone, or it has been pushed and marked
  have hend := a.settled hn hnode hrely h ha hrow
  subst hn
  change (a.acctIn w' ≠ none ↔ _) ∧ (_ → a.rowIn w' = none) ∧
    (_ → _ → a.rowIn w' = some a.row) ∧ (_ → _ → ∃ r, a.rowIn w' = some r ∧ _)
  obtain ⟨hdue, -, hacct, hrow'⟩ | ⟨hdue, ⟨hmem, -⟩ | ⟨hacct, hrow'⟩⟩ := hend
  · refine ⟨⟨fun h => (h hacct).elim, fun h => ?_⟩, fun hs => ?_, fun hs _ => ?_,
      fun hs hact => ?_⟩
    · exact hdue.elim (fun hs => (h.2 hs).elim) fun hact => (hact h.1).elim
    · rw [hrow', if_pos hs]
    · rw [hrow', if_neg hs]
    · exact hdue.elim (fun hs' => (hs hs').elim) fun hact' => (hact' hact).elim
  · cases hmem
  · unfold Target.Due at hdue
    push Not at hdue
    exact ⟨⟨fun _ => ⟨hdue.2, hdue.1⟩, fun _ => hacct⟩, fun hs => (hdue.1 hs).elim,
      fun _ hact => (hact hdue.2).elim, fun _ _ => hrow'⟩

end Whole

/-- A new assignment of an active user. -/
def newlySold : Target := ⟨⟨"u1", "i1", .pending, ""⟩, .plain "i1" "n1" "in1" .vless,
  .plain "u1" "a@example.com"⟩

/-- The assignment is in the database and not yet on the node. -/
def notSynced : World :=
  .still ⟨Tables.assigned newlySold.inbound newlySold.user .pending,
    Tables.assigned_valid _ _ _ rfl⟩

/-- A pass puts the new user on the node and records it, whatever else changes meanwhile. -/
theorem reconcile_converges_newlySold :
    (∃ tr, Runs Answers (fun v v' => v'.accounts "n1" = v.accounts "n1" ∧ newlySold.Untouched v v')
      (reconcile "n1").prog notSynced tr (.ok ()) ((reconcile "n1").run exec notSynced).2) ∧
      ∀ tr w', Runs Answers
        (fun v v' => v'.accounts "n1" = v.accounts "n1" ∧ newlySold.Untouched v v')
        (reconcile "n1").prog notSynced tr (.ok ()) w' →
          w'.accounts "n1" ("in1", "a@example.com") ≠ none ∧
            ∃ r, assignment w'.tables "u1" "i1" = some r ∧ r.syncStatus = .applied := by
  refine ⟨Runs.of_run answers_exec (fun v => ⟨rfl, rfl, rfl, rfl⟩) _ notSynced, ?_⟩
  intro tr w' h
  obtain ⟨hacct, -, -, hrow⟩ :=
    (reconcile_converges (fun _ _ hv => hv.1) h).1 newlySold rfl ⟨rfl, rfl⟩ rfl fun _ _ hv => hv.2
  exact ⟨hacct.2 ⟨rfl, by decide⟩, hrow (by decide) rfl⟩

end XrayApi.Worker
