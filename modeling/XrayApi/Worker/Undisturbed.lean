import XrayApi.Worker.Convergence

/-!
# A pass that nobody disturbs

A complete pass while nothing else writes. `Assigned` are the places on a node that belong to an
assignment. The pass leaves every other place alone (`undisturbed_frame`); at the place of an
assignment it removes the account if the assignment is due to go, and otherwise stores the account
of the row only where the node has none, since a node answers that the email exists and keeps what
it has (`Target.undisturbed`).
-/

set_option autoImplicit false

namespace XrayApi.Worker

open Transition Store Xray Relational

/-! ## Places of assignments -/

/-- The place `k` on the node belongs to the assignment `a`. -/
structure Target.Owns (a : Target) (t : Tables) (n : ID) (k : Key) : Prop where
  row : a.row ∈ t.userInbounds
  known : a.In t
  node : a.inbound.nodeID = n
  place : (a.inbound.tag, a.user.email) = k

/-- The place `k` on the node belongs to an assignment. -/
def Assigned (t : Tables) (n : ID) (k : Key) : Prop :=
  ∃ a : Target, a.Owns t n k

/-- The ids of the row are those of the inbound and the user. -/
theorem Target.In.ids {a : Target} {t : Tables} (h : a.In t) :
    a.user.id = a.row.userID ∧ a.inbound.id = a.row.inboundID :=
  ⟨key_of_lookup h.user, key_of_lookup h.inbound⟩

theorem Target.Owns.rowIn {a : Target} {w : World} {n : ID} {k : Key} (h : a.Owns w.tables n k) :
    a.rowIn w = some a.row :=
  (w.db.valid.assignment_eq_some).2 ⟨h.row, rfl, rfl⟩

/-- The assignments of `t'` are assignments of `t`, with another status perhaps. -/
def Shrinks (t t' : Tables) : Prop :=
  ∀ (a : Target) (m : ID) (k : Key), a.Owns t' m k →
    ∃ ui, (⟨ui, a.inbound, a.user⟩ : Target).Owns t m k

theorem Shrinks.refl (t : Tables) : Shrinks t t :=
  fun a _ _ ha => ⟨a.row, ha⟩

theorem Shrinks.trans {t t₁ t₂ : Tables} (h : Shrinks t t₁) (h' : Shrinks t₁ t₂) :
    Shrinks t t₂ := by
  intro a m k ha
  obtain ⟨ui, hui⟩ := h' a m k ha
  exact h ⟨ui, a.inbound, a.user⟩ m k hui

theorem Shrinks.assigned {t t' : Tables} (h : Shrinks t t') {m : ID} {k : Key}
    (hk : Assigned t' m k) : Assigned t m k := by
  obtain ⟨a, ha⟩ := hk
  obtain ⟨ui, hui⟩ := h a m k ha
  exact ⟨_, hui⟩

/-- A place has one owner, but for the status of the row. -/
theorem Target.Owns.unique {a b : Target} {t : Tables} {n : ID} {k : Key} (ht : t.Valid)
    (ha : a.Owns t n k) (hb : b.Owns t n k) : a.inbound = b.inbound ∧ a.user = b.user := by
  have hplace := ha.place.trans hb.place.symm
  constructor
  · exact List.inj_on_of_nodup_map ht.inbounds_tag (mem_of_lookup ha.known.inbound)
      (mem_of_lookup hb.known.inbound)
      (Prod.ext (ha.node.trans hb.node.symm) (Prod.mk.inj hplace).1)
  · exact List.inj_on_of_nodup_map ht.users_email (mem_of_lookup ha.known.user)
      (mem_of_lookup hb.known.user) (Prod.mk.inj hplace).2

/-- A row of any of the joins of the node is on the place of an assignment. -/
theorem assigned_of_mem {t : Tables} {cond : UserInbound → Inbound → User → Bool}
    {d : DesiredAssignment} (hd : d ∈ queryDesired t cond) : Assigned t d.nodeID (key d) := by
  obtain ⟨ui, hui, i, u, hi, hu, -, rfl⟩ := mem_queryDesired.1 hd
  exact ⟨⟨ui, i, u⟩, hui, ⟨hi, hu⟩, rfl, rfl⟩

/-- The desired rows of a node are those of the assignments that are not due to go. -/
theorem mem_desiredForNode {t : Tables} {n : ID} {d : DesiredAssignment} :
    d ∈ desiredForNode t n ↔ ∃ a : Target, a.Owns t n (key d) ∧ ¬ a.Due ∧ d = a.desired := by
  unfold desiredForNode
  rw [mem_queryDesired]
  constructor
  · rintro ⟨ui, hui, i, u, hi, hu, hc, rfl⟩
    obtain ⟨hn, hact, hlive⟩ := of_decide_eq_true hc
    exact ⟨⟨ui, i, u⟩, ⟨hui, ⟨hi, hu⟩, hn, rfl⟩, fun hdue => hdue.elim hlive fun h => h hact, rfl⟩
  · rintro ⟨a, ⟨hui, ⟨hi, hu⟩, hn, -⟩, hdue, rfl⟩
    unfold Target.Due at hdue
    push Not at hdue
    exact ⟨a.row, hui, a.inbound, a.user, hi, hu, decide_eq_true ⟨hn, hdue.2, hdue.1⟩, rfl⟩

/-- A pass that succeeds alone is an undisturbed pass. -/
theorem pass_of_run {n : ID} {w : World} (h : ((reconcile n).run exec w).1 = .ok ()) :
    ∃ tr, Runs Answers Eq (reconcile n).prog w tr (.ok ()) ((reconcile n).run exec w).2 := by
  obtain ⟨tr, htr⟩ := Runs.of_run answers_exec (fun _ => rfl) (reconcile n).prog w
  refine ⟨tr, ?_⟩
  rw [← h]
  exact htr

section Frame

variable {n : ID} {w w' : World} {tr : List (Event Stmt Stmt.Res)}

/-- A pass adds no assignment. -/
theorem Pass.Step.shrinks {p p' : Pass} {s : Stmt} {r : s.Res} (h : Pass.Step n p s r p')
    (hw : Answers s w r w') : Shrinks w.tables w'.tables := by
  intro a m k ha
  obtain ⟨husers, hinbounds⟩ := h.static hw
  have hrow : assignment w'.tables a.row.userID a.row.inboundID = some a.row := ha.rowIn
  obtain ⟨ui, hui⟩ : ∃ ui, assignment w.tables a.row.userID a.row.inboundID = some ui := by
    obtain hsame | ⟨d, rest, -, -, -, -, hnone⟩ | ⟨d, -, -, -, status, msg, -, hmap⟩ :=
      h.row hw a.row.userID a.row.inboundID
    · exact ⟨a.row, by rw [← hsame]; exact hrow⟩
    · rw [hrow] at hnone
      cases hnone
    · rw [hrow] at hmap
      obtain ⟨ui, hui, -⟩ := Option.map_eq_some_iff.1 hmap.symm
      exact ⟨ui, hui⟩
  obtain ⟨hmem, huid, hiid⟩ := w.db.valid.assignment_eq_some.1 hui
  refine ⟨ui, hmem, ⟨?_, ?_⟩, ha.node, ha.place⟩
  · rw [hiid, ← hinbounds]
    exact ha.known.inbound
  · rw [huid, ← husers]
    exact ha.known.user

/-- A pass leaves the places alone that belong to no assignment. -/
theorem undisturbed_frame (h : Runs Answers Eq (reconcile n).prog w tr (.ok ()) w') {k : Key}
    (hk : ¬ Assigned w.tables n k) : w'.accounts n k = w.accounts n k := by
  have hkeep : ∀ (p : Pass) (s : Stmt) (r : s.Res) (p' : Pass) (v v' : World),
      Pass.Step n p s r p' → Answers s v r v' → True →
      (∀ d ∈ p.held, key d ≠ k) ∧ ¬ Assigned v.tables n k ∧ v.accounts n k = w.accounts n k →
      (∀ d ∈ p'.held, key d ≠ k) ∧ ¬ Assigned v'.tables n k ∧ v'.accounts n k = w.accounts n k := by
    rintro p s r p' v v' hstep hv - ⟨hheld, hfree, hacct⟩
    refine ⟨fun d hd => ?_, fun hj => hfree ((hstep.shrinks hv).assigned hj),
      (hstep.accounts_of_held hv hheld).trans hacct⟩
    obtain hd | hd := hstep.held hd
    · exact hheld d hd
    · -- a row that is read belongs to an assignment, and `k` does not
      obtain ⟨cond, hmem, hn⟩ := hstep.read hv hd
      intro heq
      have hassigned := assigned_of_mem hmem
      rw [hn, heq] at hassigned
      exact hfree hassigned
  obtain ⟨p, -, -, -, hend⟩ := Runs.invariant (c := Pass.dial) (G := fun _ => True)
    (I := fun p v => (∀ d ∈ p.held, key d ≠ k) ∧ ¬ Assigned v.tables n k ∧
      v.accounts n k = w.accounts n k)
    (reconcile_code n) (fun p v v' (hv : v = v') hI => hv ▸ hI) hkeep h (fun _ _ => trivial)
    ⟨fun _ hd => absurd hd List.not_mem_nil, hk, rfl⟩
  exact hend

/-- A pass writes neither users nor inbounds. -/
theorem undisturbed_static (h : Runs Answers Eq (reconcile n).prog w tr (.ok ()) w') :
    w'.tables.users = w.tables.users ∧ w'.tables.inbounds = w.tables.inbounds := by
  obtain ⟨p, -, hend⟩ := Runs.invariant (c := Pass.dial) (G := fun _ => True)
    (I := fun _ v => v.tables.users = w.tables.users ∧ v.tables.inbounds = w.tables.inbounds)
    (reconcile_code n) (fun p v v' (hv : v = v') hI => hv ▸ hI)
    (fun p s r p' v v' hstep hv _ hI => ⟨(hstep.static hv).1.trans hI.1,
      (hstep.static hv).2.trans hI.2⟩) h (fun _ _ => trivial) ⟨rfl, rfl⟩
  exact hend

theorem undisturbed_shrinks (h : Runs Answers Eq (reconcile n).prog w tr (.ok ()) w') :
    Shrinks w.tables w'.tables := by
  obtain ⟨p, -, hend⟩ := Runs.invariant (c := Pass.dial) (G := fun _ => True)
    (I := fun _ v => Shrinks w.tables v.tables)
    (reconcile_code n) (fun p v v' (hv : v = v') hI => hv ▸ hI)
    (fun p s r p' v v' hstep hv _ hI => hI.trans (hstep.shrinks hv)) h (fun _ _ => trivial)
    (Shrinks.refl _)
  exact hend

end Frame

/-! ## What is stored -/

namespace Target

variable {a : Target} {old acct : Option ProtocolUser} {d : DesiredAssignment}
  {rest ds : List DesiredAssignment}

/-- The account of the assignment is stored, or `old` where the node had one. -/
def Stored (a : Target) (old acct : Option ProtocolUser) : Prop :=
  ∃ user, buildUser (accountFor a.desired) = .ok user ∧ acct = some (old.getD user)

/-- In the addition loop with `ds` left. -/
def Storing (a : Target) (old acct : Option ProtocolUser) (ds : List DesiredAssignment) : Prop :=
  (a.desired ∈ ds ∧ acct = old) ∨ a.Stored old acct

/-- The account of an assignment that is not due to go, which was `old` when the pass began. -/
def Kept (a : Target) (old acct : Option ProtocolUser) : Pass → Prop
  | .add d rest => a.Storing old acct (d :: rest)
  | .mark _ rest => a.Storing old acct rest
  | .done (.ok _) => a.Storing old acct []
  | .done (.error _) => True
  | .giveUp _ _ => True
  | _ => acct = old

theorem kept_toRemove : a.Kept old acct (.toRemove ds) ↔ acct = old := by
  cases ds with
  | nil => exact Iff.rfl
  | cons d rest => exact Iff.rfl

theorem kept_removed : a.Kept old acct (.removed d rest) ↔ acct = old := by
  unfold Pass.removed
  split_ifs with h
  · exact Iff.rfl
  · exact kept_toRemove

theorem kept_toAdd : a.Kept old acct (.toAdd ds) ↔ a.Storing old acct ds := by
  cases ds with
  | nil => exact Iff.rfl
  | cons d rest => exact Iff.rfl

theorem kept_added : a.Kept old acct (.added d rest) ↔ a.Storing old acct rest := by
  unfold Pass.added
  split_ifs with h
  · exact Iff.rfl
  · exact kept_toAdd

/-- A push of the assignment's own row. -/
theorem Storing.push {user : ProtocolUser} (h : a.Storing old acct ds)
    (hb : buildUser (accountFor a.desired) = .ok user) : a.Stored old (some (acct.getD user)) := by
  obtain ⟨-, rfl⟩ | ⟨user', hb', rfl⟩ := h
  · exact ⟨user, hb, rfl⟩
  · exact ⟨user', hb', rfl⟩

/-- A push of another row. -/
theorem Storing.tail (h : a.Storing old acct (d :: rest)) (hd : ¬ a.Mine d) :
    a.Storing old acct rest := by
  obtain ⟨hmem, hacct⟩ | hstored := h
  · obtain rfl | hmem := List.mem_cons.1 hmem
    · exact (hd mine_desired).elim
    · exact Or.inl ⟨hmem, hacct⟩
  · exact Or.inr hstored

section Step

variable {p p' : Pass} {s : Stmt} {r : s.Res} {w w' : World}

theorem Kept.step (h : Pass.Step a.inbound.nodeID p s r p') (hw : Answers s w r w')
    (hf : a.Followed p w) (hdue : ¬ a.Due) (hk : a.Kept old (a.acctIn w) p) :
    a.Kept old (a.acctIn w') p' := by
  have hdb : w'.accounts = w.accounts → a.acctIn w' = a.acctIn w :=
    fun h => congrFun (congrFun h _) _
  cases h with
  | dialed =>
      rw [(answers_dial hw).2]
      exact hk
  | dialFailed e => trivial
  | listed ds =>
      rw [kept_toRemove, hdb (answers_db_frame hw).1]
      exact hk
  | listFailed e => trivial
  | removed d rest =>
      -- the row is not the assignment's, which is not among the removals
      have hprogress : a.Removing (d :: rest) (a.rowIn w) (a.acctIn w) := hf.progress
      have hd := hf.honest d List.mem_cons_self
      have hother : ¬ a.Mine d := by
        intro hm
        obtain ⟨hdue', -⟩ | ⟨-, hmem, -⟩ := hprogress
        · exact hdue hdue'
        · rw [hd.eq_desired hm] at hmem
          exact hmem List.mem_cons_self
      have hkey : key a.desired ≠ (d.inboundTag, d.email) :=
        fun he => hother (hd.key_iff.1 he.symm)
      rw [kept_removed, (answers_removeUser hw).2, acctIn_setAccount, if_neg hkey]
      exact hk
  | removeFailed d rest e => trivial
  | dropped d rest r =>
      rw [kept_toRemove, hdb (answers_db_frame hw).1]
      exact hk
  | desired ds =>
      have hprogress : a.Removing [] (a.rowIn w) (a.acctIn w) := hf.progress
      obtain ⟨hdue', -⟩ | ⟨-, -, hrow⟩ := hprogress
      · exact (hdue hdue').elim
      · obtain ⟨b, hb, hrows, -⟩ := answers_db_of_ok rfl hw
        cases hb
        unfold Due at hdue
        push Not at hdue
        have hmem : a.desired ∈ desiredForNode w.tables a.inbound.nodeID :=
          (hf.known.desired_mem_iff hrow).2 (decide_eq_true ⟨rfl, hdue.2, hdue.1⟩)
        rw [kept_toAdd, hdb (answers_db_frame hw).1]
        exact Or.inl ⟨(List.Perm.mem_iff hrows).2 hmem, hk⟩
  | desiredFailed e => trivial
  | added d rest =>
      have hk : a.Storing old (a.acctIn w) (d :: rest) := hk
      have hd := hf.honest d List.mem_cons_self
      obtain ⟨user, hb, rfl⟩ := answers_addUser_stored hw
      rw [kept_added, acctIn_setAccount]
      by_cases hm : a.Mine d
      · obtain rfl := hd.eq_desired hm
        have hkey : key a.desired = (a.desired.inboundTag, (accountFor a.desired).email) := rfl
        rw [if_pos hkey]
        exact Or.inr (hk.push hb)
      · have hkey : key a.desired ≠ (d.inboundTag, (accountFor d).email) :=
          fun he => hm (hd.key_iff.1 he.symm)
        rw [if_neg hkey]
        exact hk.tail hm
  | addFailed d rest e => trivial
  | marked d rest r =>
      rw [kept_toAdd, hdb (answers_db_frame hw).1]
      exact hk
  | gaveUp d e r => trivial

end Step

/-- The row of an assignment after an undisturbed pass. -/
theorem row_after {n : ID} {w w' : World} {tr : List (Event Stmt Stmt.Res)} {k : Key}
    (h : Runs Answers Eq (reconcile n).prog w tr (.ok ()) w') (ha : a.Owns w.tables n k) :
    a.Adding [] (a.rowIn w') (a.acctIn w') :=
  a.settled ha.node (fun _ _ hv => by rw [hv])
    (fun _ _ hv => by subst hv; exact ⟨rfl, rfl, rfl⟩) h ha.known ha.rowIn

/-- An assignment that is not due to go is there after the pass, marked as applied. -/
theorem Owns.after {n : ID} {w w' : World} {tr : List (Event Stmt Stmt.Res)} {k : Key}
    (h : Runs Answers Eq (reconcile n).prog w tr (.ok ()) w') (ha : a.Owns w.tables n k)
    (hdue : ¬ a.Due) :
    ∃ r, r.syncStatus = .applied ∧ (⟨r, a.inbound, a.user⟩ : Target).Owns w'.tables n k := by
  obtain ⟨hdue', -⟩ | ⟨-, ⟨hmem, -⟩ | ⟨-, r, hrow, hr⟩⟩ := row_after h ha
  · exact (hdue hdue').elim
  · cases hmem
  · obtain ⟨hmem, huid, hiid⟩ := w'.db.valid.assignment_eq_some.1 hrow
    obtain ⟨husers, hinbounds⟩ := undisturbed_static h
    refine ⟨r, hr, hmem, ⟨?_, ?_⟩, ha.node, ha.place⟩
    · rw [hinbounds, hiid]
      exact ha.known.inbound
    · rw [husers, huid]
      exact ha.known.user

/-- What an undisturbed pass does at the place of an assignment. -/
theorem undisturbed {n : ID} {w w' : World} {tr : List (Event Stmt Stmt.Res)} {k : Key}
    (h : Runs Answers Eq (reconcile n).prog w tr (.ok ()) w') (ha : a.Owns w.tables n k) :
    (a.Due ∧ w'.accounts n k = none) ∨
      (¬ a.Due ∧ a.Stored (w.accounts n k) (w'.accounts n k)) := by
  obtain ⟨-, hknown, rfl, rfl⟩ := id ha
  have hstart : a.Followed .dial w :=
    ⟨hknown, fun _ hd => absurd hd List.not_mem_nil, ha.rowIn⟩
  by_cases hdue : a.Due
  · obtain ⟨-, -, hacct, -⟩ | ⟨hno, -⟩ := row_after h ha
    · exact Or.inl ⟨hdue, hacct⟩
    · exact (hno hdue).elim
  · obtain ⟨p, hp, -, hend⟩ := Runs.invariant (c := Pass.dial) (G := fun _ => True)
      (I := fun p v => a.Followed p v ∧ a.Kept (a.acctIn w) (a.acctIn v) p)
      (reconcile_code a.inbound.nodeID) (fun p v v' (hv : v = v') hI => hv ▸ hI)
      (fun p s r p' v v' hstep hv _ hI => ⟨hI.1.step hstep hv, hI.2.step hstep hv hI.1 hdue⟩)
      h (fun _ _ => trivial) ⟨hstart, rfl⟩
    cases Pass.prog_eq_ret hp
    obtain ⟨hmem, -⟩ | hstored := hend
    · cases hmem
    · exact Or.inr ⟨hdue, hstored⟩

end Target

end XrayApi.Worker
