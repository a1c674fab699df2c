import XrayApi.Service.Inbounds
import XrayApi.Worker.Undisturbed

/-!
# Whether the accounts on a node are current

A pass adds and removes accounts by tag and email and takes "already exists" for success, so an
account that is on the node stays as it is. `current_iff` says what that means for one pass: the
accounts of the desired assignments are those of the rows afterwards exactly when none of them was
on the node with other data. `Edited` are the steps that change the rows, with passes in between,
and `Edited.Safe` the ones after which no account is out of date.
-/

set_option autoImplicit false

namespace XrayApi.Worker

open Transition Store Xray Relational Service

/-! ## One pass -/

/-- The node holds the account of every desired assignment, as its row describes it. -/
def Current (n : ID) (w : World) : Prop :=
  ∀ d ∈ desiredForNode w.tables n,
    ∃ user, buildUser (accountFor d) = .ok user ∧ w.accounts n (key d) = some user

/-- No account of a desired assignment on the node is another than its row describes. -/
def NoneStale (n : ID) (w : World) : Prop :=
  ∀ d ∈ desiredForNode w.tables n, ∀ user, w.accounts n (key d) = some user →
    buildUser (accountFor d) = .ok user

section OnePass

variable {n : ID} {w w' : World} {tr : List (Event Stmt Stmt.Res)}

/-- What was desired before an undisturbed pass is desired after it, for the same account. -/
theorem desired_after (h : Runs Answers Eq (reconcile n).prog w tr (.ok ()) w') {a : Target}
    {k : Key} (ha : a.Owns w.tables n k) (hdue : ¬ a.Due) :
    ∃ d ∈ desiredForNode w'.tables n, key d = k ∧ accountFor d = accountFor a.desired := by
  obtain ⟨r, hr, hr'⟩ := ha.after h hdue
  have hplace : key (desiredRow r a.inbound a.user) = k := ha.place
  refine ⟨desiredRow r a.inbound a.user, mem_desiredForNode.2 ⟨⟨r, a.inbound, a.user⟩, ?_, ?_, rfl⟩,
    hplace, rfl⟩
  · rw [hplace]
    exact hr'
  · rintro (hs | hs)
    · have hs : r.syncStatus = .removing := hs
      rw [hr] at hs
      cases hs
    · exact hdue (Or.inr hs)

/-- What is desired after an undisturbed pass was desired before it, for the same account. -/
theorem desired_before (h : Runs Answers Eq (reconcile n).prog w tr (.ok ()) w')
    {d : DesiredAssignment} (hd : d ∈ desiredForNode w'.tables n) :
    ∃ a : Target, a.Owns w.tables n (key d) ∧ ¬ a.Due ∧ accountFor a.desired = accountFor d := by
  obtain ⟨b, hb, hdue, hbd⟩ := mem_desiredForNode.1 hd
  obtain ⟨ui, ha⟩ := undisturbed_shrinks h b n (key d) hb
  refine ⟨_, ha, fun hadue => ?_, by rw [hbd]; rfl⟩
  -- a tombstone would be gone, and the user is active
  obtain ⟨-, -, -, hrow⟩ | ⟨hno, -⟩ := Target.row_after h ha
  · have hids : ui.userID = b.row.userID ∧ ui.inboundID = b.row.inboundID :=
      ⟨ha.known.ids.1.symm.trans hb.known.ids.1, ha.known.ids.2.symm.trans hb.known.ids.2⟩
    have hstill : assignment w'.tables ui.userID ui.inboundID = some b.row := by
      rw [hids.1, hids.2]
      exact hb.rowIn
    have hrow : assignment w'.tables ui.userID ui.inboundID =
      if ui.syncStatus = .removing then none else some ui := hrow
    rw [hstill] at hrow
    split_ifs at hrow with hs
    obtain hs' | hs' := hadue
    · exact hs hs'
    · exact hdue (Or.inr hs')
  · exact hno hadue

/-- After an undisturbed pass the accounts are current exactly when none was out of date before. -/
theorem current_iff (h : Runs Answers Eq (reconcile n).prog w tr (.ok ()) w') :
    Current n w' ↔ NoneStale n w := by
  constructor
  · intro hcur d hd user huser
    obtain ⟨a, ha, hdue, rfl⟩ := mem_desiredForNode.1 hd
    obtain ⟨d', hd', hkey, hacc⟩ := desired_after h ha hdue
    obtain ⟨user', hb, hstored⟩ := hcur d' hd'
    obtain ⟨hdue', -⟩ | ⟨-, user'', -, hkept⟩ := Target.undisturbed h ha
    · exact (hdue hdue').elim
    · -- the account that was there is there still
      rw [huser, Option.getD_some] at hkept
      rw [hkey, hkept] at hstored
      cases hstored
      rw [← hacc]
      exact hb
  · intro hfresh d hd
    obtain ⟨a, ha, hdue, hacc⟩ := desired_before h hd
    obtain ⟨hdue', -⟩ | ⟨-, user, hb, hstored⟩ := Target.undisturbed h ha
    · exact (hdue hdue').elim
    · rw [hacc] at hb
      refine ⟨user, hb, ?_⟩
      rw [hstored]
      cases hold : w.accounts n (key d) with
      | none => rfl
      | some old =>
          have hplace : key a.desired = key d := ha.place
          have hbuilt := hfresh a.desired
            (mem_desiredForNode.2 ⟨a, by rw [hplace]; exact ha, hdue, rfl⟩) old
            (by rw [hplace]; exact hold)
          rw [hacc, hb] at hbuilt
          cases hbuilt
          rfl

end OnePass

/-! ## Histories -/

/-- A step of a history: a change of the rows that accounts are made from, or a pass. -/
inductive Edit
  | updateInbound (id : ID) (inp : InboundInput)
  | deleteUser (id : ID)
  | createUser (inp : CreateInput) (fresh : Fresh) (now : Time)
  | pass (n : ID)

/-- A step with the state it is made in. -/
structure Edited where
  edit : Edit
  before : World

/-- The requests run alone, whatever they return; any statement of a pass may fail. -/
def Edited.Step (w : World) (x : Edited) (w' : World) : Prop :=
  x.before = w ∧
    match x.edit with
    | .updateInbound id inp => w' = ((InboundChange.update id inp).service.run exec w).2
    | .deleteUser id => w' = ((Service.delete id).run exec w).2
    | .createUser inp fresh now => w' = ((Service.create inp fresh now).run exec w).2
    | .pass n => ∃ tr r, Runs MayFail Eq (reconcile n).prog w tr r w'

/-- The step makes no account on a node out of date: an update of an inbound keeps what accounts are
made from, or the node has no account under its tag; a new user's email is not on the nodes. -/
def Edited.Safe (x : Edited) : Prop :=
  match x.edit with
  | .updateInbound id inp => ∀ i, getInbound x.before.tables id = .ok i → inp.tag = i.tag ∧
      ((inp.protocol = i.protocol ∧ inp.flow = i.flow ∧ inp.method = i.method) ∨
        ∀ email, x.before.accounts i.nodeID (i.tag, email) = none)
  | .deleteUser _ => True
  | .createUser inp _ _ => ∀ i ∈ x.before.tables.inbounds, i.id ∈ inp.inboundIDs →
      x.before.accounts i.nodeID (i.tag, inp.email) = none
  | .pass _ => True

/-- No account of an assignment is another than its row describes, on any node. -/
def UpToDate (w : World) : Prop :=
  ∀ (a : Target) (m : ID) (k : Key), a.Owns w.tables m k → ∀ user, w.accounts m k = some user →
    buildUser (accountFor a.desired) = .ok user

theorem UpToDate.noneStale {w : World} (h : UpToDate w) (n : ID) : NoneStale n w := by
  intro d hd user huser
  obtain ⟨a, ha, -, rfl⟩ := mem_desiredForNode.1 hd
  exact h a n _ ha user huser

/-- Fewer assignments. -/
theorem UpToDate.shrink {w w' : World} (h : UpToDate w) (hacct : w'.accounts = w.accounts)
    (hs : Shrinks w.tables w'.tables) : UpToDate w' := by
  intro a m k ha user huser
  obtain ⟨ui, hui⟩ := hs a m k ha
  rw [hacct] at huser
  exact h _ m k hui user huser

/-! ### Requests -/

section Requests

variable {t t' : Tables} {w w' : World}

theorem shrinks_markAssignmentsRemovingForUser (t : Tables) (id : ID) :
    Shrinks t (markAssignmentsRemovingForUser t id) := by
  intro a m k ha
  obtain ⟨r, hr, hrow⟩ := mem_updateWhere.1 ha.row
  have hids : r.userID = a.row.userID ∧ r.inboundID = a.row.inboundID := by
    rw [hrow]
    split_ifs with h
    · exact ⟨rfl, rfl⟩
    · exact ⟨rfl, rfl⟩
  exact ⟨r, hr, ⟨by rw [hids.2]; exact ha.known.inbound, by rw [hids.1]; exact ha.known.user⟩,
    ha.node, ha.place⟩

theorem shrinks_deleteUser {id : ID} (h : deleteUser t id = .ok t') : Shrinks t t' := by
  intro a m k ha
  cases (requireUser_eq_ok.1 h).2
  obtain ⟨hrow, hne⟩ := List.mem_filter.1 ha.row
  have hne : a.row.userID ≠ id := of_decide_eq_true hne
  refine ⟨a.row, hrow, ⟨ha.known.inbound, ?_⟩, ha.node, ha.place⟩
  have hkeep : lookup User.id a.row.userID (t.users.filter fun r => decide (r.id ≠ id)) =
      lookup User.id a.row.userID t.users :=
    lookup_filter_of_keep fun r _ hr => decide_eq_true (by rw [hr]; exact hne)
  rw [← hkeep]
  exact ha.known.user

theorem delete_leaves (id : ID) (w : World) :
    Leaves (Service.delete id) w (Shrinks w.tables) := by
  refine leaves_query_bind (Shrinks.refl _) fun targets t happly w₁ hw₁ => ?_
  obtain ⟨-, rfl⟩ := Prod.mk.inj (Except.ok.inj happly)
  refine leaves_query_bind (by rw [hw₁]; exact Shrinks.refl _) fun o t happly w₂ hw₂ => ?_
  obtain ⟨-, rfl⟩ := Prod.mk.inj (Except.ok.inj happly)
  have hmark : Shrinks w.tables w₂.tables := by
    rw [hw₂, hw₁]
    exact shrinks_markAssignmentsRemovingForUser _ id
  obtain ⟨w₃, hdb, h₃⟩ := triggerAll_returns (distinctNodes targets) w₂
  have ht₃ : w₃.tables = w₂.tables := congrArg Database.tables hdb
  refine leaves_bind (fun e w₄ h => ?_) (fun u w₄ h => ?_)
  · rw [show (triggerAll (distinctNodes targets)).run exec w₂ = (.ok (), w₃) from h₃] at h
    cases congrArg Prod.fst h
  · obtain ⟨-, rfl⟩ := h.unique h₃
    unfold Leaves
    change Shrinks w.tables (w₄.db.exec (.deleteUser id)).2.tables
    obtain ⟨e, -, hx⟩ | ⟨o, t, hq, -, ht⟩ := w₄.db.exec_cases (.deleteUser id)
    · rw [hx]
      change Shrinks w.tables w₄.tables
      rw [ht₃]
      exact hmark
    · rw [ht]
      have hdel : Shrinks w₄.tables t := shrinks_deleteUser (StoreCall.wrote_eq_ok.1 hq)
      rw [ht₃] at hdel
      exact hmark.trans hdel

/-- An update of an inbound that keeps its tag. -/
theorem UpToDate.updateInbound {id : ID} {inp : InboundInput} (h : UpToDate w)
    (hacct : w'.accounts = w.accounts)
    (hsafe : (⟨.updateInbound id inp, w⟩ : Edited).Safe)
    (heffect : (InboundChange.update id inp).Effect w.tables w'.tables) : UpToDate w' := by
  intro a m k ha user huser
  rw [hacct] at huser
  have hrows : w'.tables.userInbounds = w.tables.userInbounds := by
    obtain ⟨i, -, -, hwrite⟩ := heffect
    obtain ⟨-, -, ht⟩ := updateInbound_eq_ok hwrite
    rw [ht]
  have hrow := ha.row
  have huserIn := ha.known.user
  rw [hrows] at hrow
  rw [heffect.rows.1] at huserIn
  by_cases hid : a.row.inboundID = id
  · have heffect' := heffect
    obtain ⟨i, hi, -, -⟩ := heffect'
    have hnew := heffect.lookup_self hi
    have hinbound : a.inbound = inp.row i := by
      have hlook := ha.known.inbound
      rw [hid] at hlook
      exact Option.some.inj (hlook.symm.trans hnew)
    have hold : lookup Inbound.id a.row.inboundID w.tables.inbounds = some i := by
      rw [hid]
      exact getInbound_eq_ok.1 hi
    obtain ⟨htag, hsame | hnone⟩ := hsafe i hi
    · -- the account is made from the same data as before
      have hbefore : (⟨a.row, i, a.user⟩ : Target).Owns w.tables m k := by
        refine ⟨hrow, ⟨hold, huserIn⟩, ?_, ?_⟩
        · rw [← ha.node, hinbound]
          rfl
        · rw [← ha.place, hinbound]
          exact Prod.ext htag.symm rfl
      have hacc : accountFor a.desired = accountFor (⟨a.row, i, a.user⟩ : Target).desired := by
        have hexpand : accountFor a.desired = accountFor (desiredRow a.row (inp.row i) a.user) := by
          rw [← hinbound]
          rfl
        rw [hexpand]
        obtain ⟨hp, hf, hm⟩ := hsame
        change (⟨inp.protocol, a.user.email, a.user.uuid, a.user.trojanPassword, inp.flow,
          inp.method⟩ : Account) = _
        rw [hp, hf, hm]
        rfl
      rw [hacc]
      exact h _ m k hbefore user huser
    · -- the place is empty
      have hplace : k = (i.tag, a.user.email) := by
        rw [← ha.place, hinbound]
        exact Prod.ext htag rfl
      have hnode : m = i.nodeID := by
        rw [← ha.node, hinbound]
        rfl
      rw [hplace, hnode, hnone] at huser
      cases huser
  · -- any other inbound is as it was
    have hlook := ha.known.inbound
    rw [heffect.lookup_of_ne hid] at hlook
    exact h a m k ⟨hrow, ⟨hlook, huserIn⟩, ha.node, ha.place⟩ user huser

/-- A new user whose email is on no node. -/
theorem UpToDate.createUser {inp : CreateInput} {fresh : Fresh} {now : Time} (h : UpToDate w)
    (hacct : w'.accounts = w.accounts)
    (hsafe : (⟨.createUser inp fresh now, w⟩ : Edited).Safe)
    (heffect : (UserOp.create inp fresh now).Effect w.tables w'.tables) : UpToDate w' := by
  intro a m k ha user huser
  rw [hacct] at huser
  obtain ⟨-, -, -, limits, -, hwrite⟩ := heffect
  obtain ⟨hconf, -, husers⟩ := createWithAssignmentsTx_eq_ok hwrite
  obtain ⟨hinbounds, -, -⟩ := createWithAssignmentsTx_static hwrite
  have hnew : fresh.id ∉ w.tables.users.map User.id := (insertConflict_eq_none hconf).1
  have hlook := ha.known.inbound
  rw [hinbounds] at hlook
  have hrow : assignment w'.tables a.row.userID a.row.inboundID = some a.row := ha.rowIn
  rw [assignment_createWithAssignmentsTx hwrite] at hrow
  by_cases hid : a.row.userID = fresh.id
  · -- the new user: its places are free
    have huserIn := ha.known.user
    rw [husers, lookup_append_singleton, hid, lookup_eq_none_iff.2 hnew, Option.none_or] at huserIn
    split_ifs at huserIn with hself
    have hemail : a.user.email = inp.email := by
      rw [← Option.some.inj huserIn]
      rfl
    split_ifs at hrow with hin
    · obtain ⟨i, hi, hiid⟩ := List.mem_map.1 hin.2
      obtain ⟨hi, hids⟩ := List.mem_filter.1 hi
      have hsame : a.inbound = i := by
        have hlook' : lookup Inbound.id a.row.inboundID w.tables.inbounds = some i :=
          (lookup_eq_some_iff w.db.valid.inbounds_id).2 ⟨hi, hiid⟩
        exact Option.some.inj (hlook.symm.trans hlook')
      have hnone := hsafe i hi (of_decide_eq_true hids)
      rw [← ha.node, ← ha.place, hsame, hemail, hnone] at huser
      cases huser
    · obtain ⟨hmem, -, -⟩ := w.db.valid.assignment_eq_some.1 hrow
      have hold := w.db.valid.userInbounds_user a.row hmem
      rw [hid] at hold
      exact (hnew hold).elim
  · rw [if_neg (fun hc => hid hc.1)] at hrow
    obtain ⟨hmem, -, -⟩ := w.db.valid.assignment_eq_some.1 hrow
    have huserIn := ha.known.user
    rw [husers, lookup_append_singleton, if_neg (fun hc => hid hc.symm), Option.or_none] at huserIn
    exact h a m k ⟨hmem, ⟨hlook, huserIn⟩, ha.node, ha.place⟩ user huser

end Requests

/-! ### Passes -/

/-- What a pass from `w` keeps, any of whose statements may fail: the accounts are what the
assignments of `w` describe, and so are the pushes it has left. -/
structure Faithful (w : World) (n : ID) (p : Pass) (v : World) : Prop where
  shrinks : Shrinks w.tables v.tables
  stored : ∀ (a : Target) (m : ID) (k : Key), a.Owns w.tables m k →
    ∀ user, v.accounts m k = some user → buildUser (accountFor a.desired) = .ok user
  pushes : ∀ d ∈ p.pushes, ∃ a : Target, a.Owns w.tables n (key d) ∧
    accountFor a.desired = accountFor d

theorem Faithful.step {w v v' : World} {n : ID} {p p' : Pass} {s : Stmt} {r : s.Res}
    (hI : Faithful w n p v) (h : Pass.Step n p s r p') (hv : MayFail s v r v') :
    Faithful w n p' v' where
  shrinks := by
    obtain hans | ⟨rfl, -⟩ := mayFail_cases hv
    · exact hI.shrinks.trans (h.shrinks hans)
    · exact hI.shrinks
  stored := by
    intro a m k ha user huser
    obtain hans | ⟨rfl, -⟩ := mayFail_cases hv
    · by_cases hm : m = n
      · subst hm
        obtain hsame | ⟨d, rest, -, -, hnone⟩ | ⟨d, hd, rfl, user', hb, hpush⟩ := h.account hans k
        · rw [hsame] at huser
          exact hI.stored a m k ha user huser
        · rw [hnone] at huser
          cases huser
        · -- the pushed row describes the account of the owner of its place
          obtain ⟨b, hb', hacc⟩ := hI.pushes d hd
          obtain ⟨hi, hu⟩ := ha.unique w.db.valid hb'
          have hsame : accountFor a.desired = accountFor d := by
            rw [← hacc]
            unfold Target.desired
            rw [hi, hu]
            rfl
          cases hold : v.accounts m (key d) with
          | some old =>
              rw [hold, huser] at hpush
              cases hpush
              exact hI.stored a m _ ha old hold
          | none =>
              rw [hold, huser] at hpush
              cases hpush
              rw [hsame]
              exact hb
      · rw [h.accounts_of_ne hans hm] at huser
        exact hI.stored a m k ha user huser
    · exact hI.stored a m k ha user huser
  pushes := by
    intro d hd
    obtain hd | ⟨-, hd⟩ := h.pushes hd
    · exact hI.pushes d hd
    · obtain ⟨cond, hmem, hn⟩ := h.read (Pass.answers_of_read hv hd) hd
      obtain ⟨ui, hui, i, u, hi, hu, -, rfl⟩ := mem_queryDesired.1 hmem
      obtain ⟨ui', hui'⟩ := hI.shrinks ⟨ui, i, u⟩ n _ ⟨hui, ⟨hi, hu⟩, hn, rfl⟩
      exact ⟨_, hui', rfl⟩

theorem UpToDate.pass {w w' : World} {n : ID} {tr : List (Event Stmt Stmt.Res)}
    {r : Except Err Unit} (h : UpToDate w) (hpass : Runs MayFail Eq (reconcile n).prog w tr r w') :
    UpToDate w' := by
  obtain ⟨p, -, hend⟩ := Runs.invariant (c := Pass.dial) (G := fun _ => True) (I := Faithful w n)
    (reconcile_code n) (fun p v v' (hv : v = v') hI => hv ▸ hI)
    (fun p s r p' v v' hstep hv _ hI => hI.step hstep hv) hpass (fun _ _ => trivial)
    ⟨Shrinks.refl _, h, fun _ hd => absurd hd List.not_mem_nil⟩
  intro a m k ha user huser
  obtain ⟨ui, hui⟩ := hend.shrinks a m k ha
  exact hend.stored _ m k hui user huser

/-- A safe step. -/
theorem UpToDate.step {w w' : World} {x : Edited} (h : UpToDate w) (hsafe : x.Safe)
    (hstep : x.Step w w') : UpToDate w' := by
  obtain ⟨edit, before⟩ := x
  obtain ⟨rfl, hstep⟩ := hstep
  -- a request that is refused leaves the tables as they are
  have hrefused : ∀ v : World, v.accounts = before.accounts → v.tables = before.tables →
      UpToDate v := fun v hacct ht => h.shrink hacct (by rw [ht]; exact Shrinks.refl _)
  cases edit with
  | updateInbound id inp =>
      have hstep : w' = ((InboundChange.update id inp).service.run exec before).2 := hstep
      subst hstep
      have hacct := accounts_of_run (InboundChange.update id inp).offNode before
      obtain hsame | heffect := (InboundChange.update id inp).effect_of_run before
      · exact hrefused _ hacct hsame
      · exact h.updateInbound hacct hsafe heffect
  | deleteUser id =>
      have hstep : w' = ((Service.delete id).run exec before).2 := hstep
      subst hstep
      exact h.shrink (accounts_of_run (offNode_delete id) before) (delete_leaves id before)
  | createUser inp fresh now =>
      have hstep : w' = ((Service.create inp fresh now).run exec before).2 := hstep
      subst hstep
      have hacct := accounts_of_run (offNode_create inp fresh now) before
      obtain hsame | heffect := UserOp.create_leaves inp fresh now before
      · exact hrefused _ hacct hsame
      · exact h.createUser hacct hsafe heffect
  | pass n =>
      obtain ⟨tr, r, hpass⟩ := hstep
      exact h.pass hpass

/-- After any history, the accounts are current after a complete pass exactly when no account of a
desired assignment was out of date before it; and none is if the steps of the history are safe. -/
theorem pushed_accounts_current {w₀ w w' : World} {xs : List Edited} {n : ID}
    {tr : List (Event Stmt Stmt.Res)} (hrun : Path Edited.Step w₀ xs w)
    (hpass : Runs Answers Eq (reconcile n).prog w tr (.ok ()) w') :
    (Current n w' ↔ NoneStale n w) ∧
      (UpToDate w₀ → (∀ x ∈ xs, x.Safe) → Current n w') := by
  refine ⟨current_iff hpass, fun h₀ hsafe => (current_iff hpass).2 (UpToDate.noneStale ?_ n)⟩
  exact (hrun.restrict hsafe).invariant (fun w x w' hw hstep => hw.step hstep.2 hstep.1) h₀

/-! ## An update of an inbound in use -/

theorem upToDate_of_empty {w : World} (h : ∀ m k, w.accounts m k = none) : UpToDate w := by
  intro a m k _ user huser
  rw [h] at huser
  cases huser

/-- A flow for the inbound of the new assignment. -/
def visionFlow : InboundInput :=
  ⟨"in1", .vless, 443, "n1", 443, .tcp, .reality, "", "", "", "", "", "", "", "xtls-rprx-vision",
    "", "", ""⟩

/-- The update comes before the first pass. -/
def updatedFirst : World :=
  ((InboundChange.update "i1" visionFlow).service.run exec notSynced).2

theorem pushed_accounts_current_updatedFirst :
    ∃ tr w', Runs Answers Eq (reconcile "n1").prog updatedFirst tr (.ok ()) w' ∧
      Current "n1" w' := by
  obtain ⟨tr, hpass⟩ := pass_of_run (n := "n1") (w := updatedFirst) rfl
  have hrun : Path Edited.Step notSynced
      [⟨.updateInbound "i1" visionFlow, notSynced⟩] updatedFirst := Path.single ⟨rfl, rfl⟩
  refine ⟨tr, _, hpass,
    (pushed_accounts_current hrun hpass).2 (upToDate_of_empty fun _ _ => rfl) ?_⟩
  intro x hx
  obtain rfl := List.mem_singleton.1 hx
  intro i hi
  obtain rfl : newlySold.inbound = i := Except.ok.inj hi
  exact ⟨rfl, Or.inr fun _ => rfl⟩

/-- The user is on the node. -/
def synced : World := ((reconcile "n1").run exec notSynced).2

/-- The update comes after the first pass. -/
def updatedLate : World := ((InboundChange.update "i1" visionFlow).service.run exec synced).2

/-- The second pass leaves the account without the new flow. -/
theorem account_keeps_old_flow :
    ∃ xs tr w', Path Edited.Step notSynced xs updatedLate ∧
      UpToDate notSynced ∧ Runs Answers Eq (reconcile "n1").prog updatedLate tr (.ok ()) w' ∧
      w'.accounts "n1" ("in1", "a@example.com") = some ⟨"a@example.com", .vless "u1" ""⟩ ∧
      ¬ Current "n1" w' := by
  obtain ⟨tr, hpass⟩ := pass_of_run (n := "n1") (w := updatedLate) rfl
  obtain ⟨tr₀, hfirst⟩ := Runs.of_run mayFail_exec (fun _ => rfl) (reconcile "n1").prog notSynced
  refine ⟨[⟨.pass "n1", notSynced⟩, ⟨.updateInbound "i1" visionFlow, synced⟩], tr, _,
    Path.cons ⟨rfl, tr₀, _, hfirst⟩ (Path.single ⟨rfl, rfl⟩), upToDate_of_empty fun _ _ => rfl,
    hpass, rfl, fun hcur => ?_⟩
  obtain ⟨user, hb, hstored⟩ := hcur _ (List.mem_singleton.2 rfl)
  cases hb
  have hflow : (some ⟨"a@example.com", .vless "u1" ""⟩ : Option ProtocolUser) =
      some ⟨"a@example.com", .vless "u1" "xtls-rprx-vision"⟩ := hstored
  revert hflow
  decide

end XrayApi.Worker
