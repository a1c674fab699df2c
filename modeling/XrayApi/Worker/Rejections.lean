import XrayApi.Worker.Undisturbed

/-!
# Inbounds whose users the node rejects

A pass on a node that rejects every `AddUser` for some inbound tags, for instance because its
configuration lacks them, and carries out everything else. The addition loop returns at the first
row that is rejected, so what the pass pushes depends on the order in which the store returned the
rows: the rows before the first rejected one, and no other (`addAll_present`).
-/

set_option autoImplicit false

namespace XrayApi.Worker

open Transition Store Xray Relational

/-- The steps on a node that rejects pushes to the `bad` tags; every other step succeeds. -/
def Rejecting (bad : String → Bool) : Sem Stmt Stmt.Res World
  | .addUser n tag acc, w, r, w' =>
    if bad tag then w' = w ∧ ∃ e, r = .error e
    else Answers (.addUser n tag acc) w r w' ∧ r = .ok ()
  | s, w, r, w' => Answers s w r w' ∧ s.isOk r = true

/-- The rows before the first one with a bad tag. -/
def accepted (bad : String → Bool) (ds : List DesiredAssignment) : List DesiredAssignment :=
  ds.takeWhile fun d => !bad d.inboundTag

section Rejecting

variable {bad : String → Bool} {n : ID} {w w' : World}

theorem rejecting_addUser_bad {tag : String} {acc : Account} {r : Except StoreErr Unit}
    (hbad : bad tag = true) (h : Rejecting bad (.addUser n tag acc) w r w') :
    w' = w ∧ ∃ e, r = .error e := by
  simpa only [Rejecting, hbad, if_true] using h

theorem rejecting_addUser_good {tag : String} {acc : Account} {r : Except StoreErr Unit}
    (hbad : bad tag = false) (h : Rejecting bad (.addUser n tag acc) w r w') :
    r = .ok () ∧ ∃ user : ProtocolUser, w' = w.setAccount n (tag, acc.email) (some user) := by
  have h : Answers (.addUser n tag acc) w r w' ∧ r = .ok () := by
    simpa only [Rejecting, hbad, Bool.false_eq_true, if_false] using h
  obtain ⟨h, rfl⟩ := h
  exact ⟨rfl, answers_addUser_ok h⟩

/-! ## The addition loop -/

/-- After the loop the node has the accounts it had and those of the accepted rows. -/
theorem addAll_present (ds : List DesiredAssignment) {tr : List (Event Stmt Stmt.Res)}
    {r : Except Err Unit} (h : Runs (Rejecting bad) Eq (addAll n ds).prog w tr r w') (k : Key) :
    w'.accounts n k ≠ none ↔ w.accounts n k ≠ none ∨ ∃ d ∈ accepted bad ds, key d = k := by
  induction ds generalizing w tr with
  | nil =>
      obtain ⟨-, -, rfl⟩ := Runs.ret_inv h
      exact ⟨Or.inl, fun h => h.elim id fun ⟨_, hd, _⟩ => absurd hd List.not_mem_nil⟩
  | cons d rest ih =>
      obtain ⟨_, res, w₂, tr', rfl, hsem, -, hrest⟩ := Runs.call_inv h
      cases hbad : bad d.inboundTag with
      | true =>
          -- the push is rejected: the row is marked and the loop is left
          obtain ⟨rfl, e, rfl⟩ := rejecting_addUser_bad hbad hsem
          obtain ⟨_, res', w₃, tr'', rfl, hmark, -, hend⟩ := Runs.call_inv hrest
          obtain ⟨-, -, rfl⟩ := Runs.ret_inv hend
          rw [(answers_db_frame hmark.1).1]
          have hnone : accepted bad (d :: rest) = [] := by
            simp [accepted, hbad]
          rw [hnone]
          exact ⟨Or.inl, fun h => h.elim id fun ⟨_, hd, _⟩ => absurd hd List.not_mem_nil⟩
      | false =>
          obtain ⟨rfl, user, rfl⟩ := rejecting_addUser_good hbad hsem
          have hcons : accepted bad (d :: rest) = d :: accepted bad rest := by
            simp [accepted, hbad]
          -- the row is marked or not, and the loop goes on with the accounts as they are
          obtain ⟨v, tr₂, hacct, hloop⟩ : ∃ v tr₂,
              v.accounts = (w.setAccount n (key d) (some user)).accounts ∧
                Runs (Rejecting bad) Eq (addAll n rest).prog v tr₂ r w' := by
            have hrest : Runs (Rejecting bad) Eq
                (Req.prog (markApplied d >>= fun _ => addAll n rest))
                (w.setAccount n (key d) (some user)) tr' r w' := hrest
            unfold markApplied at hrest
            split_ifs at hrest with hs
            · obtain ⟨_, res', w₃, tr'', rfl, hmark, -, hloop⟩ := Runs.call_inv hrest
              exact ⟨w₃, tr'', (answers_db_frame hmark.1).1, hloop⟩
            · exact ⟨_, tr', rfl, hrest⟩
          rw [ih hloop, hacct, World.accounts_setAccount, hcons]
          by_cases hk : k = key d
          · subst hk
            rw [Function.update_self]
            exact ⟨fun _ => Or.inr ⟨d, List.mem_cons_self, rfl⟩,
              fun _ => Or.inl (Option.some_ne_none _)⟩
          · rw [Function.update_of_ne hk]
            refine or_congr_right ⟨fun ⟨e, he, hke⟩ => ⟨e, List.mem_cons_of_mem d he, hke⟩, ?_⟩
            rintro ⟨e, he, hke⟩
            obtain rfl | he := List.mem_cons.1 he
            · exact (hk hke.symm).elim
            · exact ⟨e, he, hke⟩

/-! ## Up to the addition loop -/

/-- The pass has not read the desired rows yet. -/
def Pass.early : Pass → Bool
  | .dial => true
  | .listRemovals => true
  | .remove _ _ => true
  | .drop _ _ => true
  | .listDesired => true
  | _ => false

theorem Pass.early_toRemove (ds : List DesiredAssignment) : (Pass.toRemove ds).early = true := by
  cases ds with
  | nil => rfl
  | cons d rest => rfl

theorem Pass.early_removed (d : DesiredAssignment) (rest : List DesiredAssignment) :
    (Pass.removed d rest).early = true := by
  unfold Pass.removed
  split_ifs with h
  · rfl
  · exact Pass.early_toRemove rest

/-- A step before the addition loop does what it should, and reads the desired rows or stays before
the loop. -/
theorem Pass.Step.early {p p' : Pass} {s : Stmt} {r : s.Res} (h : Pass.Step n p s r p')
    (hsem : Rejecting bad s w r w') (hp : p.early = true) :
    Answers s w r w' ∧ ((∃ ds, (⟨s, r⟩ : Event Stmt Stmt.Res) =
      ⟨.db (.desiredForNode n), .ok ds⟩) ∨ p'.early = true) := by
  cases h with
  | dialed => exact ⟨hsem.1, Or.inr rfl⟩
  | dialFailed e => cases hsem.2
  | listed ds => exact ⟨hsem.1, Or.inr (Pass.early_toRemove ds)⟩
  | listFailed e => cases hsem.2
  | removed d rest => exact ⟨hsem.1, Or.inr (Pass.early_removed d rest)⟩
  | removeFailed d rest e => cases hsem.2
  | dropped d rest r => exact ⟨hsem.1, Or.inr (Pass.early_toRemove rest)⟩
  | desired ds => exact ⟨hsem.1, Or.inl ⟨ds, rfl⟩⟩
  | desiredFailed e => cases hsem.2
  | added d rest => cases hp
  | addFailed d rest e => cases hp
  | marked d rest r => cases hp
  | gaveUp d e r => cases hp

/-- Before the addition loop: the assignments of the initial state are followed, and the accounts of
those that stay are as they were. -/
structure Preparing (w : World) (n : ID) (p : Pass) (v : World) : Prop where
  early : p.early = true
  shrinks : Shrinks w.tables v.tables
  followed : ∀ (a : Target) (k : Key), a.Owns w.tables n k →
    a.Followed p v ∧ (¬ a.Due → a.Kept (a.acctIn w) (a.acctIn v) p)

theorem preparing_dial (w : World) (n : ID) : Preparing w n .dial w where
  early := rfl
  shrinks := Shrinks.refl _
  followed _ _ ha :=
    ⟨⟨ha.known, fun _ hd => absurd hd List.not_mem_nil, ha.rowIn⟩, fun _ => rfl⟩

theorem Preparing.step {v v' : World} {p p' : Pass} {s : Stmt} {r : s.Res}
    (hI : Preparing w n p v) (h : Pass.Step n p s r p') (hw : Answers s v r v')
    (hp : p'.early = true) : Preparing w n p' v' where
  early := hp
  shrinks := hI.shrinks.trans (h.shrinks hw)
  followed a k ha := by
    obtain ⟨hf, hk⟩ := hI.followed a k ha
    obtain rfl := ha.node
    exact ⟨hf.step h hw, fun hdue => (hk hdue).step h hw hf hdue⟩

/-- When the desired rows are read, they are those of the initial state. -/
theorem Preparing.desired_iff {v : World} (hI : Preparing w n .listDesired v)
    {d : DesiredAssignment} : d ∈ desiredForNode v.tables n ↔ d ∈ desiredForNode w.tables n := by
  constructor
  · intro hd
    obtain ⟨b, hb, hdue, rfl⟩ := mem_desiredForNode.1 hd
    obtain ⟨ui, ha⟩ := hI.shrinks b n _ hb
    have hprogress : (⟨ui, b.inbound, b.user⟩ : Target).Removing [] _ _ :=
      ((hI.followed _ _ ha).1).progress
    have hrow : (⟨ui, b.inbound, b.user⟩ : Target).rowIn v = some b.row := by
      have hids : ui.userID = b.row.userID ∧ ui.inboundID = b.row.inboundID :=
        ⟨ha.known.ids.1.symm.trans hb.known.ids.1, ha.known.ids.2.symm.trans hb.known.ids.2⟩
      unfold Target.rowIn
      rw [hids.1, hids.2]
      exact hb.rowIn
    -- the row has not changed: a tombstone would be gone
    obtain ⟨hdue', ⟨hmem, -⟩ | ⟨-, hclear⟩⟩ | ⟨-, -, hsame⟩ := hprogress
    · cases hmem
    · rw [hrow] at hclear
      split_ifs at hclear with hs
      cases hclear
      exact (hdue hdue').elim
    · rw [hrow] at hsame
      cases hsame
      exact mem_desiredForNode.2 ⟨_, ha, hdue, rfl⟩
  · intro hd
    obtain ⟨a, ha, hdue, rfl⟩ := mem_desiredForNode.1 hd
    have hf := (hI.followed a _ ha).1
    have hprogress : a.Removing [] _ _ := hf.progress
    obtain ⟨hdue', -⟩ | ⟨-, -, hrow⟩ := hprogress
    · exact (hdue hdue').elim
    · exact mem_desiredForNode.2 ⟨a, ⟨(v.db.valid.assignment_eq_some.1 hrow).1, hf.known, ha.node,
        ha.place⟩, hdue, rfl⟩

/-- Desired rows on one place are one row. -/
theorem desired_unique {d e : DesiredAssignment} (hd : d ∈ desiredForNode w.tables n)
    (he : e ∈ desiredForNode w.tables n) (h : key e = key d) : e = d := by
  obtain ⟨a, ha, -, rfl⟩ := mem_desiredForNode.1 hd
  obtain ⟨b, hb, -, rfl⟩ := mem_desiredForNode.1 he
  rw [h] at hb
  obtain ⟨hi, hu⟩ := hb.unique w.db.valid ha
  have hrow : b.rowIn w = a.rowIn w := by
    unfold Target.rowIn
    rw [← ha.known.ids.1, ← ha.known.ids.2, ← hb.known.ids.1, ← hb.known.ids.2, hi, hu]
  rw [ha.rowIn, hb.rowIn] at hrow
  unfold Target.desired
  rw [Option.some.inj hrow, hi, hu]

/-- In a pass on a node that rejects the bad tags, with `ds` the desired rows in the order in which
the store returned them: all desired assignments with other tags are on the node afterwards exactly
when each of them stands before the first bad row or was on the node already. -/
theorem good_tags_present_iff {tr : List (Event Stmt Stmt.Res)} {r : Except Err Unit}
    (h : Runs (Rejecting bad) Eq (reconcile n).prog w tr r w') :
    ∃ ds, (⟨.db (.desiredForNode n), .ok ds⟩ : Event Stmt Stmt.Res) ∈ tr ∧
      (∀ d, d ∈ ds ↔ d ∈ desiredForNode w.tables n) ∧
      ((∀ d ∈ desiredForNode w.tables n, bad d.inboundTag = false → w'.accounts n (key d) ≠ none) ↔
        ∀ d ∈ ds, bad d.inboundTag = false →
          d ∈ accepted bad ds ∨ w.accounts n (key d) ≠ none) := by
  obtain ⟨p, s, res, p', v, v', tr₂, hmem, ⟨ds, hev⟩, hI, hstep, hsem, hrest⟩ :=
    Runs.reaches (c := Pass.dial) (I := Preparing w n)
      (E := fun e => ∃ ds, e = ⟨.db (.desiredForNode n), .ok ds⟩) (reconcile_code n)
      (fun p v v' (hv : v = v') hI => hv ▸ hI)
      (fun p s res p' v v' hstep hv hI => by
        obtain ⟨hans, hread | hearly⟩ := hstep.early hv hI.early
        · exact Or.inl hread
        · exact Or.inr (hI.step hstep hans hearly))
      (fun p v a hI hret => by
        have hearly := hI.early
        rw [Pass.prog_eq_ret hret] at hearly
        cases hearly)
      h (preparing_dial w n)
  cases hev
  cases hstep with
  | desired =>
      obtain ⟨b, hb, hrows, -⟩ := answers_db_of_ok rfl hsem.1
      cases hb
      have hacct := (answers_db_frame hsem.1).1
      have hds : ∀ d, d ∈ ds ↔ d ∈ desiredForNode w.tables n :=
        fun d => (List.Perm.mem_iff hrows).trans hI.desired_iff
      rw [Pass.prog_toAdd] at hrest
      -- where a desired assignment stays, the removals changed nothing
      have hkept : ∀ d ∈ desiredForNode w.tables n,
        v'.accounts n (key d) = w.accounts n (key d) := by
        intro d hd
        obtain ⟨a, ha, hdue, rfl⟩ := mem_desiredForNode.1 hd
        have hkept : a.acctIn v = a.acctIn w := (hI.followed a _ ha).2 hdue
        obtain rfl := ha.node
        rw [hacct]
        exact hkept
      have hpresent : ∀ d ∈ desiredForNode w.tables n, (w'.accounts n (key d) ≠ none ↔
          d ∈ accepted bad ds ∨ w.accounts n (key d) ≠ none) := by
        intro d hd
        rw [addAll_present ds hrest, hkept d hd, or_comm]
        refine or_congr_left ⟨?_, fun hacc => ⟨d, hacc, rfl⟩⟩
        rintro ⟨e, he, hke⟩
        have hes : e ∈ ds := (List.takeWhile_sublist _).subset he
        rwa [desired_unique hd ((hds e).1 hes) hke] at he
      refine ⟨ds, hmem, hds, ?_⟩
      constructor
      · exact fun hall d hd hgood =>
          (hpresent d ((hds d).1 hd)).1 (hall d ((hds d).1 hd) hgood)
      · exact fun hall d hd hgood => (hpresent d hd).2 (hall d ((hds d).2 hd) hgood)

end Rejecting

/-! ## A node that lacks one of two inbounds -/

/-- A new user on two inbounds of one node. -/
def onTwoInbounds : World :=
  .still ⟨{ Tables.empty with
      nodes := [.plain "n1"]
      inbounds := [.plain "i1" "n1" "in1" .vless, .plain "i2" "n1" "in2" .vless]
      users := [.plain "u1" "a@example.com"]
      userInbounds := [⟨"u1", "i1", .pending, ""⟩, ⟨"u1", "i2", .pending, ""⟩] },
    by constructor <;> simp [Tables.empty, UniqueNonNull, Inbound.plain, Node.plain, User.plain]⟩

/-- The account on the second inbound is there or not. -/
def maybeServed (acct : Option ProtocolUser) : World :=
  onTwoInbounds.setAccount "n1" ("in2", "a@example.com") acct

/-- The tag of the first inbound is not in the node's configuration. -/
def lacksFirst (tag : String) : Bool := decide (tag = "in1")

def handlerNotFound : StoreErr := .internal "alter inbound: handler not found: in1"

/-- The row of the first inbound has been marked as failed. -/
def markedFailed (acct : Option ProtocolUser) : World :=
  (exec (.db (.markAssignmentSynced "u1" "i1" .failed handlerNotFound.text)) (maybeServed acct)).2

/-- A pass that reads the row of the first inbound first ends there. -/
theorem runs_lacksFirst (acct : Option ProtocolUser) :
    ∃ tr, Runs (Rejecting lacksFirst) Eq (reconcile "n1").prog (maybeServed acct) tr
      (.error (.store handlerNotFound)) (markedFailed acct) :=
  ⟨_, Runs.call rfl ⟨answers_exec (.dial "n1") _, rfl⟩
    (Runs.call rfl ⟨answers_exec (.db (.removalsForNode "n1")) _, rfl⟩
      (Runs.call rfl ⟨answers_exec (.db (.desiredForNode "n1")) _, rfl⟩
        (Runs.call rfl ⟨rfl, handlerNotFound, rfl⟩
          (Runs.call rfl ⟨answers_exec (.db (.markAssignmentSynced "u1" "i1" .failed
            handlerNotFound.text)) _, rfl⟩ (Runs.ret rfl)))))⟩

/-- Where the good inbound is served already, the rejected one does no harm. -/
theorem good_tags_present_iff_served :
    ∃ tr r w', Runs (Rejecting lacksFirst) Eq (reconcile "n1").prog
        (maybeServed (some ⟨"a@example.com", .vless "u1" ""⟩)) tr r w' ∧
      ∀ d ∈ desiredForNode (maybeServed (some ⟨"a@example.com", .vless "u1" ""⟩)).tables "n1",
        lacksFirst d.inboundTag = false → w'.accounts "n1" (key d) ≠ none := by
  obtain ⟨tr, h⟩ := runs_lacksFirst (some ⟨"a@example.com", .vless "u1" ""⟩)
  obtain ⟨ds, -, hds, hiff⟩ := good_tags_present_iff h
  refine ⟨tr, _, _, h, hiff.2 fun d hd hgood => Or.inr ?_⟩
  have hserved : ∀ d ∈ desiredForNode onTwoInbounds.tables "n1", lacksFirst d.inboundTag = false →
      (maybeServed (some ⟨"a@example.com", .vless "u1" ""⟩)).accounts "n1" (key d) ≠ none := by
    decide
  exact hserved d ((hds d).1 hd) hgood

/-- Where it is not, the pass ends before its push. -/
theorem good_tag_starved :
    ∃ tr, Runs (Rejecting lacksFirst) Eq (reconcile "n1").prog (maybeServed none) tr
        (.error (.store handlerNotFound)) (markedFailed none) ∧
      ∃ d ∈ desiredForNode (maybeServed none).tables "n1",
        lacksFirst d.inboundTag = false ∧ (markedFailed none).accounts "n1" (key d) = none := by
  obtain ⟨tr, h⟩ := runs_lacksFirst none
  exact ⟨tr, h, by decide⟩

end XrayApi.Worker
