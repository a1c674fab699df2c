import XrayApi.Service.Sequential

/-!
# Operations whose writes fail

A request runs alone and any of its statements may be refused. `Commits` describes programs by their
first write: it is a statement of a given kind, its failure ends the program with an error, and its
success leaves a given rest. Every operation of the user service has at most two writes on a path,
and `Create` and `SetInbounds` make theirs in one transaction, so a refused write leaves the tables
as they are (`all_or_nothing_iff`) unless it is the second one and the first one changed something.
-/

set_option autoImplicit false

namespace XrayApi.Service

open Transition Store Relational

/-! ## Refused statements -/

/-- The answer of a step that is refused with an error of the store: a broken constraint, a value
out of range, a lost connection. -/
def refuse : (s : Stmt) → StoreErr → Option s.Res
  | .db _, e => some (.error e)
  | .dial _, e => some (.error e)
  | .removeUser _ _ _, e => some (.error e)
  | .addUser _ _ _, e => some (.error e)
  | .queryUserTraffic _, e => some (.error e)
  | .ping _, e => some (.error e)
  | .trigger _, _ => none
  | .startNode _, _ => none
  | .stopNode _, _ => none

/-- What a step may answer and do when it may also be refused, with any error. -/
def MayRefuse : Sem Stmt Stmt.Res World := Sem.orFail Answers refuse

/-- The step writes the database. -/
def writes : Stmt → Bool
  | .db q => q.isWrite
  | _ => false

section Refused

variable {s : Stmt} {w w' : World}

/-- A refused step does nothing. -/
theorem mayRefuse_cases {r : s.Res} (h : MayRefuse s w r w') : Answers s w r w' ∨ w' = w := by
  obtain h | ⟨hw, -⟩ := h
  · exact Or.inl h
  · exact Or.inr hw

/-- Steps on the nodes and the channels leave the tables alone. -/
theorem answers_tables_of_ne {r : s.Res} (hs : ∀ q, s ≠ .db q) (h : Answers s w r w') :
    w'.tables = w.tables := by
  cases s with
  | db q => exact (hs q rfl).elim
  | dial n => cases h; rfl
  | removeUser n tag email => cases h; rfl
  | addUser n tag acc => cases h; rfl
  | queryUserTraffic n => cases h; rfl
  | ping n => cases h; rfl
  | trigger n => cases h; rfl
  | startNode node => cases h; rfl
  | stopNode n => cases h; rfl

theorem MayRefuse.tables_of_ne {r : s.Res} (hs : ∀ q, s ≠ .db q) (h : MayRefuse s w r w') :
    w'.tables = w.tables := by
  obtain h | rfl := mayRefuse_cases h
  · exact answers_tables_of_ne hs h
  · rfl

/-- A store call that fails changes nothing. -/
theorem MayRefuse.tables_of_error {q : StoreCall} {e : StoreErr}
    (h : MayRefuse (.db q) w (.error e) w') : w'.tables = w.tables := by
  obtain h | rfl := mayRefuse_cases h
  · rw [(answers_db_error h).2]
  · rfl

/-- A store call that succeeds did what it says. -/
theorem MayRefuse.apply_of_ok {q : StoreCall} {a : q.Out} (h : MayRefuse (.db q) w (.ok a) w') :
    ∃ o, q.apply w.tables = .ok (o, w'.tables) := by
  obtain h | ⟨-, e, he⟩ := h
  · obtain ⟨o, t, hq, -, -, ht⟩ := answers_db_ok h
    exact ⟨o, by rw [ht]; exact hq⟩
  · cases he

/-- Only a write changes the tables. -/
theorem MayRefuse.tables_of_not_writes {r : s.Res} (hs : writes s = false)
    (h : MayRefuse s w r w') : w'.tables = w.tables := by
  cases s with
  | db q =>
      cases r with
      | error e => exact h.tables_of_error
      | ok a =>
          obtain ⟨o, ho⟩ := h.apply_of_ok
          exact StoreCall.apply_of_isWrite_eq_false hs ho
  | dial n => exact h.tables_of_ne (by simp)
  | removeUser n tag email => exact h.tables_of_ne (by simp)
  | addUser n tag acc => exact h.tables_of_ne (by simp)
  | queryUserTraffic n => exact h.tables_of_ne (by simp)
  | ping n => exact h.tables_of_ne (by simp)
  | trigger n => exact h.tables_of_ne (by simp)
  | startNode node => exact h.tables_of_ne (by simp)
  | stopNode n => exact h.tables_of_ne (by simp)

/-- A read of a user that is there. -/
theorem mayRefuse_getUser {id : ID} {u : User} (h : getUser w.tables id = .ok u) :
    MayRefuse (.db (.getUser id)) w (.ok u) w := by
  have hexec : w.db.exec (.getUser id) = (.ok u, w.db) := by
    refine Database.exec_of_read ?_
    rw [← h]
    rfl
  refine Or.inl ⟨?_, ?_⟩
  · rw [hexec]
  · rw [hexec]
    rfl

end Refused

/-! ## The first write -/

/-- The writes of a run, in order, each with whether it succeeded. -/
def outcomes (tr : List (Event Stmt Stmt.Res)) : List (StoreCall × Bool) :=
  tr.filterMap fun e =>
    match e with
    | ⟨.db q, r⟩ => if q.isWrite then some (q, r.isOk) else none
    | _ => none

theorem outcomes_append (tr tr' : List (Event Stmt Stmt.Res)) :
    outcomes (tr ++ tr') = outcomes tr ++ outcomes tr' :=
  List.filterMap_append

theorem outcomes_cons_db {q : StoreCall} (hq : q.isWrite = true) (r : Except StoreErr q.Out)
    (tr : List (Event Stmt Stmt.Res)) :
    outcomes (⟨.db q, r⟩ :: tr) = (q, r.isOk) :: outcomes tr := by
  simp [outcomes, hq]

theorem outcomes_of_quiet {tr : List (Event Stmt Stmt.Res)}
    (h : ∀ e ∈ tr, writes e.stmt = false) : outcomes tr = [] := by
  refine List.filterMap_eq_nil_iff.2 fun e he => ?_
  have hq := h e he
  obtain ⟨s, r⟩ := e
  cases s with
  | db q => exact if_neg (Bool.eq_false_iff.1 hq)
  | _ => rfl

/-- The program writes nothing. -/
def Quiet {α : Type} (p : Prog Stmt Stmt.Res α) : Prop :=
  p.Forall fun s => writes s = false

/-- A write of the kind `first`. Its failure ends the program with an error, and the program goes on
as `rest` when it succeeds. -/
inductive Commit {α : Type} (first : StoreCall → Prop)
    (rest : Prog Stmt Stmt.Res (Except Err α) → Prop) :
    (s : Stmt) → (s.Res → Prog Stmt Stmt.Res (Except Err α)) → Prop
  | intro {q : StoreCall} {k : Except StoreErr q.Out → Prog Stmt Stmt.Res (Except Err α)} :
      q.isWrite = true → first q → (∀ e, ∃ e', k (.error e) = .ret (.error e')) →
      (∀ o, rest (k (.ok o))) → Commit first rest (.db q) k

/-- The first write of the program, if it makes one, is such a write. -/
def Commits {α : Type} (first : StoreCall → Prop)
    (rest : Prog Stmt Stmt.Res (Except Err α) → Prop) :
    Prog Stmt Stmt.Res (Except Err α) → Prop :=
  Prog.Until (fun _ => True) (fun s => writes s = false) (Commit first rest)

section Commits

variable {α β : Type} {first later : StoreCall → Prop}
  {rest : Prog Stmt Stmt.Res (Except Err β) → Prop}

theorem Quiet.commits {p : Prog Stmt Stmt.Res (Except Err β)} (hp : Quiet p) :
    Commits first rest p :=
  Prog.Forall.until_of_quiet (fun _ => trivial) hp

theorem Quiet.commits_bind {p : Service α} {f : α → Service β} (hp : Quiet p)
    (hf : ∀ a, Commits first rest (f a)) : Commits first rest (p >>= f : Service β) :=
  Req.until_bind (fun _ => trivial) hp hf

theorem commits_query_bind {q : StoreCall} {f : q.Out → Service β} (hq : q.isWrite = true)
    (hfirst : first q) (hf : ∀ o, rest (f o)) : Commits first rest (query q >>= f : Service β) :=
  Or.inl (Commit.intro hq hfirst (fun e => ⟨.store e, rfl⟩) hf)

/-- A quiet end changes nothing in what the program writes. -/
theorem Commits.bind_quiet {rest₀ : Prog Stmt Stmt.Res (Except Err α) → Prop} {p : Service α}
    {f : α → Service β} (hp : Commits first rest₀ p)
    (hrest : ∀ p' : Service α, rest₀ p' → rest (p' >>= f : Service β)) (hf : ∀ a, Quiet (f a)) :
    Commits first rest (p >>= f : Service β) := by
  change Commits first rest (Prog.bind p (Req.continueWith f))
  induction p with
  | ret a =>
      cases a with
      | ok a => exact (hf a).commits
      | error e => trivial
  | call s k ih =>
      obtain hc | ⟨hs, hk⟩ := hp
      · obtain @⟨q, k, hq, hfirst, herr, hok⟩ := hc
        refine Or.inl (Commit.intro hq hfirst (fun e => ?_) fun o => hrest _ (hok o))
        obtain ⟨e', he'⟩ := herr e
        exact ⟨e', by rw [he']; rfl⟩
      · exact Or.inr ⟨hs, fun r => ih r (hk r)⟩

theorem quiet_query {q : StoreCall} (hq : q.isWrite = false) : Quiet (query q).prog :=
  ⟨hq, fun _ => trivial⟩

theorem quiet_reconcileForUser (id : ID) : Quiet (reconcileForUser id) :=
  reconcileForUser_forall rfl fun _ => rfl

theorem quiet_reconcile_getUser (id id' : ID) :
    Quiet (reconcileForUser id >>= fun _ => query (.getUser id') : Service User) :=
  Req.forall_bind (quiet_reconcileForUser id) fun _ => quiet_query rfl

/-- A write succeeds, its failure ends the run, or there is none. -/
theorem Commits.cases {p : Prog Stmt Stmt.Res (Except Err β)} {w w' : World}
    {tr : List (Event Stmt Stmt.Res)} {r : Except Err β} (hp : Commits first rest p)
    (h : Runs MayRefuse Eq p w tr r w') :
    (outcomes tr = [] ∧ w'.tables = w.tables) ∨
      (∃ q, first q ∧ outcomes tr = [(q, false)] ∧ (∃ e, r = .error e) ∧ w'.tables = w.tables) ∨
      ∃ q o w₁ tr₁ p', first q ∧ q.apply w.tables = .ok (o, w₁.tables) ∧
        outcomes tr = (q, true) :: outcomes tr₁ ∧ rest p' ∧ Runs MayRefuse Eq p' w₁ tr₁ r w' := by
  have hcases := Runs.until_cases (I := fun x : World => x.tables = w.tables)
    (fun x y (he : x = y) hI => he ▸ hI)
    (fun _ _ _ _ hs hsem hI => (hsem.tables_of_not_writes hs).trans hI)
    h hp rfl
  obtain ⟨hall, -, hI⟩ | ⟨s, k, a, tr₁, tr₂, w₁, w₂, rfl, hall, hmark, hI, hsem, hrest⟩ := hcases
  · exact Or.inl ⟨outcomes_of_quiet hall, hI⟩
  · obtain @⟨q, k, hq, hfirst, herr, hok⟩ := hmark
    have hout : outcomes (tr₁ ++ ⟨.db q, a⟩ :: tr₂) = (q, a.isOk) :: outcomes tr₂ := by
      rw [outcomes_append, outcomes_of_quiet hall, outcomes_cons_db hq, List.nil_append]
    rw [hout]
    cases a with
    | error e =>
        obtain ⟨e', he'⟩ := herr e
        rw [he'] at hrest
        obtain ⟨rfl, rfl, rfl⟩ := hrest.ret_inv
        exact Or.inr (Or.inl ⟨q, hfirst, rfl, ⟨e', rfl⟩, hsem.tables_of_error.trans hI⟩)
    | ok o =>
        obtain ⟨o', ho'⟩ := hsem.apply_of_ok
        have hI : w₁.tables = w.tables := hI
        rw [hI] at ho'
        exact Or.inr (Or.inr ⟨q, o', w₂, tr₂, k (.ok o), hfirst, ho', rfl, hok o, hrest⟩)

/-- A run with a failed write, of a program with at most two writes: the first one failed and
nothing happened, or the second one failed after the first one was made. -/
theorem Commits.failed_cases {p : Prog Stmt Stmt.Res (Except Err β)} {w w' : World}
    {tr : List (Event Stmt Stmt.Res)} {r : Except Err β}
    (hp : Commits first (Commits later Quiet) p) (h : Runs MayRefuse Eq p w tr r w')
    (hfail : ∃ q, (q, false) ∈ outcomes tr) :
    (∃ e, r = .error e) ∧
      ((∃ q, first q ∧ outcomes tr = [(q, false)] ∧ w'.tables = w.tables) ∨
        ∃ q q' o, first q ∧ later q' ∧ outcomes tr = [(q, true), (q', false)] ∧
          q.apply w.tables = .ok (o, w'.tables)) := by
  obtain ⟨q₀, hq₀⟩ := hfail
  obtain ⟨hnil, -⟩ | ⟨q, hq, hout, herr, ht⟩ | ⟨q, o, w₁, tr₁, p₁, hq, ho, hout, hp₁, h₁⟩ :=
    hp.cases h
  · rw [hnil] at hq₀
    exact (List.not_mem_nil hq₀).elim
  · exact ⟨herr, Or.inl ⟨q, hq, hout, ht⟩⟩
  · obtain ⟨hnil, -⟩ | ⟨q', hq', hout', herr, ht⟩ | ⟨q', o', w₂, tr₂, p₂, -, -, hout', hp₂, h₂⟩ :=
      Commits.cases hp₁ h₁
    · simp [hout, hnil] at hq₀
    · exact ⟨herr, Or.inr ⟨q, q', o, hq, hq', by rw [hout, hout'], by rw [ht]; exact ho⟩⟩
    · -- after two writes that succeeded nothing is written
      have hquiet := (h₂.forall_keeps (I := fun _ => True) (fun _ _ _ _ => trivial)
        (fun _ _ _ _ _ _ _ => trivial) hp₂ trivial).1
      simp [hout, hout', outcomes_of_quiet hquiet] at hq₀

end Commits

/-! ## The operations -/

/-- The operations of the user service that write more than a row of `users`. -/
inductive Change
  | create (inp : CreateInput) (fresh : Fresh) (now : Time)
  | setInbounds (id : ID) (inboundIDs : Slice ID)
  | resetTraffic (id : ID) (now : Time)
  | renew (id : ID) (inp : RenewInput) (now now' : Time)
  | delete (id : ID)

namespace Change

/-- The operation; its result is dropped. -/
def service : Change → Service Unit
  | create inp fresh now => Service.create inp fresh now >>= fun _ => pure ()
  | setInbounds id ids => Service.setInbounds id ids >>= fun _ => pure ()
  | resetTraffic id now => Service.resetTraffic id now >>= fun _ => pure ()
  | renew id inp now now' => Service.renew id inp now now' >>= fun _ => pure ()
  | delete id => Service.delete id

/-- The write the operation makes first. -/
def IsFirst : Change → StoreCall → Prop
  | create _ _ _, q => ∃ u ids, q = .createWithAssignmentsTx u ids
  | setInbounds id ids, q => q = .setAssignmentsForUserTx id ids
  | resetTraffic id _, q => q = .resetTraffic id
  | renew id inp _ _, q => if inp.resetTraffic then q = .resetTraffic id else ∃ u, q = .updateUser u
  | delete id, q => q = .markAssignmentsRemovingForUser id

/-- The write it may make after that one. -/
def IsLater : Change → StoreCall → Prop
  | create _ _ _, _ => False
  | setInbounds _ _, _ => False
  | resetTraffic id _, q => q = .setUserStatus id .active
  | renew _ inp _ _, q => inp.resetTraffic = true ∧ ∃ u, q = .updateUser u
  | delete id, q => q = .deleteUser id

end Change

/-! ## Their writes -/

theorem snapshotLimits_quiet (inp : CreateInput) (now : Time) : Quiet (snapshotLimits inp now) := by
  unfold snapshotLimits
  cases inp.planID with
  | none => trivial
  | some planID => exact Req.forall_bind (quiet_query rfl) fun plan => trivial

theorem switchPlan_quiet (inp : RenewInput) (u : User) : Quiet (switchPlan inp u) := by
  unfold switchPlan
  cases inp.planID with
  | none => trivial
  | some planID => exact Req.forall_bind (quiet_query rfl) fun plan => trivial

theorem create_commits (inp : CreateInput) (fresh : Fresh) (now : Time) :
    Commits (Change.create inp fresh now).IsFirst Quiet (create inp fresh now) := by
  unfold create
  split_ifs with hblank hids
  · trivial
  · trivial
  · refine (snapshotLimits_quiet inp now).commits_bind fun limits => ?_
    refine (quiet_query rfl).commits_bind fun inbounds => ?_
    split_ifs with hlen
    · trivial
    · exact commits_query_bind rfl ⟨_, _, rfl⟩ fun _ => quiet_reconcile_getUser _ _

theorem setInbounds_commits (id : ID) (ids : Slice ID) :
    Commits (Change.setInbounds id ids).IsFirst Quiet (setInbounds id ids) := by
  refine (quiet_query rfl).commits_bind fun u => ?_
  refine (quiet_query rfl).commits_bind fun inbounds => ?_
  split_ifs with hlen
  · trivial
  · refine Quiet.commits_bind (⟨rfl, fun _ => trivial⟩ : Quiet (attempt _)) fun old => ?_
    refine commits_query_bind rfl rfl fun _ => ?_
    exact Req.forall_bind (triggerAll_forall (fun _ => rfl) _) fun _ => quiet_query rfl

theorem resetTraffic_commits (id : ID) (now : Time) :
    Commits (Change.resetTraffic id now).IsFirst
      (Commits (Change.resetTraffic id now).IsLater Quiet) (resetTraffic id now) := by
  refine (quiet_query rfl).commits_bind fun u => ?_
  refine commits_query_bind rfl rfl fun _ => ?_
  unfold reactivateSuspended
  split_ifs with h
  · exact commits_query_bind rfl rfl fun _ => quiet_reconcile_getUser _ _
  · exact Quiet.commits (quiet_reconcile_getUser id id)

theorem renew_commits (id : ID) (inp : RenewInput) (now now' : Time) :
    Commits (Change.renew id inp now now').IsFirst
      (Commits (Change.renew id inp now now').IsLater Quiet) (renew id inp now now') := by
  unfold renew
  split_ifs with hempty
  · trivial
  · refine (quiet_query rfl).commits_bind fun u => ?_
    refine (switchPlan_quiet inp u).commits_bind fun u => ?_
    unfold resetUsage
    split_ifs with hreset
    · rw [Req.bind_assoc]
      refine commits_query_bind rfl (by simp [Change.IsFirst, hreset]) fun _ => ?_
      exact commits_query_bind rfl ⟨hreset, _, rfl⟩ fun _ => quiet_reconcile_getUser _ _
    · refine commits_query_bind rfl (by simp [Change.IsFirst, hreset]) fun _ => ?_
      exact (quiet_reconcile_getUser _ _).commits

theorem delete_commits (id : ID) :
    Commits (Change.delete id).IsFirst (Commits (Change.delete id).IsLater Quiet) (delete id) := by
  refine (quiet_query rfl).commits_bind fun targets => ?_
  refine commits_query_bind rfl rfl fun _ => ?_
  refine Quiet.commits_bind (triggerAll_forall (fun _ => rfl) _) fun _ => ?_
  exact Or.inl (Commit.intro rfl rfl (fun e => ⟨.store e, rfl⟩) fun _ => trivial)

/-- Every operation makes its first write and at most one later write. -/
theorem Change.commits (x : Change) :
    Commits x.IsFirst (Commits x.IsLater Quiet) x.service := by
  have hdrop : ∀ u : User, Quiet (pure () : Service Unit) := fun _ => trivial
  cases x with
  | create inp fresh now =>
      exact (create_commits inp fresh now).bind_quiet
        (fun p hp => Quiet.commits (Req.forall_bind hp hdrop)) hdrop
  | setInbounds id ids =>
      exact (setInbounds_commits id ids).bind_quiet
        (fun p hp => Quiet.commits (Req.forall_bind hp hdrop)) hdrop
  | resetTraffic id now =>
      exact (resetTraffic_commits id now).bind_quiet
        (fun p hp => Commits.bind_quiet hp (fun p' hp' => Req.forall_bind hp' hdrop) hdrop) hdrop
  | renew id inp now now' =>
      exact (renew_commits id inp now now').bind_quiet
        (fun p hp => Commits.bind_quiet hp (fun p' hp' => Req.forall_bind hp' hdrop) hdrop) hdrop
  | delete id => exact delete_commits id

/-! ## All or nothing -/

/-- The calls that set `updated_at` of the rows of `users` they write. The model's rows do not have
the column. -/
def stamps : StoreCall → Bool
  | .updateUser _ => true
  | .setUserStatus _ _ => true
  | .resetTraffic _ => true
  | .expireDueUsers _ => true
  | .applyTrafficDeltas _ _ _ => true
  | _ => false

/-- The run left the rows of `users`, with their `updated_at`, and of `user_inbounds` as they were.
-/
structure Untouched (w : World) (tr : List (Event Stmt Stmt.Res)) (w' : World) : Prop where
  users : w'.tables.users = w.tables.users
  userInbounds : w'.tables.userInbounds = w.tables.userInbounds
  updatedAt : ∀ q, (q, true) ∈ outcomes tr → stamps q = false

/-- Every assignment the first write of a deletion would tombstone is a tombstone. -/
def Change.AlreadyMarked : Change → Tables → Prop
  | .delete id, t => ∀ r ∈ t.userInbounds, r.userID = id → r.syncStatus = .removing
  | _, _ => False

theorem markAssignmentsRemovingForUser_eq_iff {t : Tables} {id : ID} :
    (markAssignmentsRemovingForUser t id).userInbounds = t.userInbounds ↔
      (Change.delete id).AlreadyMarked t := by
  refine updateWhere_eq_self_iff.trans (forall_congr' fun r => forall_congr' fun _ => ?_)
  rw [decide_eq_true_eq]
  refine forall_congr' fun _ => ⟨fun h => ?_, fun h => ?_⟩
  · rw [← h]
  · rw [← h]

/-- An operation without interference, one of whose writes is refused, returns an error and leaves
`users` and `user_inbounds` as they were exactly when the refused write is its first one, or when it
is a deletion whose first write had nothing to do. -/
theorem all_or_nothing_iff (x : Change) {w w' : World} {tr : List (Event Stmt Stmt.Res)}
    {r : Except Err Unit} (h : Runs MayRefuse Eq x.service.prog w tr r w')
    (hfail : ∃ q, (q, false) ∈ outcomes tr) :
    ((∃ e, r = .error e) ∧ Untouched w tr w') ↔
      (∃ q, (q, false) ∈ outcomes tr ∧ x.IsFirst q) ∨ x.AlreadyMarked w.tables := by
  obtain ⟨herr, ⟨q, hq, hout, ht⟩ | ⟨q, q', o, hq, hq', hout, ho⟩⟩ :=
    x.commits.failed_cases h hfail
  · -- the first write failed, and nothing else was tried
    refine iff_of_true ⟨herr, ?_⟩ (Or.inl ⟨q, by simp [hout], hq⟩)
    exact ⟨by rw [ht], by rw [ht], fun q'' hq'' => by simp [hout] at hq''⟩
  · -- the second write failed: the first one is what remains
    have hfirst : (∃ q, (q, false) ∈ outcomes tr ∧ x.IsFirst q) ↔ x.IsFirst q' := by
      simp [hout]
    rw [hfirst]
    cases x with
    | create inp fresh now => exact hq'.elim
    | setInbounds id ids => exact hq'.elim
    | resetTraffic id now =>
        cases hq
        cases hq'
        refine iff_of_false (fun hl => ?_) (by simp [Change.IsFirst, Change.AlreadyMarked])
        exact Bool.noConfusion (hl.2.updatedAt (.resetTraffic id) (by simp [hout]))
    | renew id inp now now' =>
        obtain ⟨hreset, u, rfl⟩ := hq'
        rw [Change.IsFirst, if_pos hreset] at hq
        cases hq
        refine iff_of_false (fun hl => ?_) (by simp [Change.IsFirst, Change.AlreadyMarked, hreset])
        exact Bool.noConfusion (hl.2.updatedAt (.resetTraffic id) (by simp [hout]))
    | delete id =>
        cases hq
        cases hq'
        have ht : w'.tables = markAssignmentsRemovingForUser w.tables id :=
          (Prod.mk.inj (Except.ok.inj ho)).2.symm
        rw [← markAssignmentsRemovingForUser_eq_iff, ← ht]
        constructor
        · exact fun hl => Or.inr hl.2.userInbounds
        · rintro (hf | hrows)
          · cases hf
          · refine ⟨herr, ⟨by rw [ht]; rfl, hrows, fun q hq => ?_⟩⟩
            simp only [hout, List.mem_cons, Prod.mk.injEq, reduceCtorEq, and_false, and_true,
              List.not_mem_nil, or_false] at hq
            rw [hq]
            rfl

/-- A user with traffic to reset. -/
def metered : User := { User.plain "u" "u@example.com" with usedUploadBytes := 5 }

/-- The database of that user. -/
def meteredWorld : World := World.still ⟨Tables.sole metered, Tables.sole_valid _ rfl⟩

/-- A renewal for thirty days that resets the traffic. -/
def monthly : Change := .renew "u" ⟨30, true, none⟩ 0 0

/-- The row the renewal writes back. -/
def monthlyRow : User := reactivate 0 (zeroUsage (extendExpiry ⟨30, true, none⟩ 0 metered))

/-- The first write of the renewal is refused. -/
theorem all_or_nothing_iff_refused :
    ∃ tr, (∃ q, (q, false) ∈ outcomes tr) ∧
      Runs MayRefuse Eq monthly.service.prog meteredWorld tr (.error (.store outOfRange))
        meteredWorld ∧ Untouched meteredWorld tr meteredWorld := by
  have hrun : Runs MayRefuse Eq monthly.service.prog meteredWorld
      [⟨.db (.getUser "u"), .ok metered⟩, ⟨.db (.resetTraffic "u"), .error outOfRange⟩]
      (.error (.store outOfRange)) meteredWorld :=
    Runs.call rfl (mayRefuse_getUser rfl) (Runs.call rfl (Or.inr ⟨rfl, outOfRange, rfl⟩)
      (Runs.ret rfl))
  have hfail : ∃ q, (q, false) ∈ outcomes
      [⟨.db (.getUser "u"), .ok metered⟩, ⟨.db (.resetTraffic "u"), .error outOfRange⟩] :=
    ⟨.resetTraffic "u", List.mem_singleton.2 rfl⟩
  refine ⟨_, hfail, hrun, ((all_or_nothing_iff monthly hrun hfail).2 (Or.inl ?_)).2⟩
  exact ⟨.resetTraffic "u", List.mem_singleton.2 rfl, rfl⟩

/-- The second write of the renewal is refused: the caller gets an error, and the traffic is reset.
-/
theorem renewal_half_done :
    ∃ tr w', Runs MayRefuse Eq monthly.service.prog meteredWorld tr
        (.error (.store (.foreignKey "users_plan_id_fkey"))) w' ∧
      (∃ q, (q, false) ∈ outcomes tr) ∧ w'.tables.users ≠ meteredWorld.tables.users := by
  have hreset := Database.exec_of_ok
    (show (StoreCall.resetTraffic "u").apply meteredWorld.tables =
      .ok ((), Tables.sole (zeroUsage metered)) from rfl)
  refine ⟨[⟨.db (.getUser "u"), .ok metered⟩, ⟨.db (.resetTraffic "u"), .ok ()⟩,
      ⟨.db (.updateUser monthlyRow), .error (.foreignKey "users_plan_id_fkey")⟩],
    (exec (.db (.resetTraffic "u")) meteredWorld).2, ?_, ⟨.updateUser monthlyRow, ?_⟩, ?_⟩
  · refine Runs.call rfl (mayRefuse_getUser rfl) (Runs.call rfl (Or.inl ?_)
      (Runs.call rfl (Or.inr ⟨rfl, _, rfl⟩) (Runs.ret rfl)))
    have hans := answers_exec (.db (.resetTraffic "u")) meteredWorld
    have hok : (exec (.db (.resetTraffic "u")) meteredWorld).1 = .ok () := hreset.1
    rwa [hok] at hans
  · exact List.mem_cons_of_mem _ (List.mem_singleton.2 rfl)
  · have ht : (exec (.db (.resetTraffic "u")) meteredWorld).2.tables =
        Tables.sole (zeroUsage metered) := hreset.2
    rw [ht]
    decide

end XrayApi.Service
