import XrayApi.Transition.Rely
import XrayApi.Worker.Rounds

/-!
# What an operation owes to the nodes

An operation that has changed entries of a user on a node owes the node a trigger. Most operations
list the targets of the user after their commit, so the debt is paid if the user still has a live
assignment there when the list is read; `SetInbounds` lists them before its commit, so the nodes to
wake are fixed by then. `Debt` covers both.

`Careful` says of an operation, by rely and guarantee, that each of its commits leaves a debt which
the rest of the operation pays: as long as others are mild with its users (`Spared`), each of its
steps `Pays`. The collector of a node is held to the same for the users it suspends (`PaysQuota`).
-/

set_option autoImplicit false

namespace XrayApi.Worker

open Transition Store Relational Service

variable {α : Type} {id n : ID} {users : List ID}

/-! ## Debts -/

/-- A list of the user's targets has the node in it. -/
def Lists (id n : ID) : (s : Stmt) → s.Res → Prop
  | .db (.assignmentTargetsForUser id'), r => id' = id → ∃ ts, r = .ok ts ∧ ∃ d ∈ ts, d.nodeID = n
  | _, _ => True

/-- The program is bound to trigger the node, if the answers are good. -/
def Triggers (good : (s : Stmt) → s.Res → Prop) (n : ID) (p : Prog Stmt Stmt.Res α) : Prop :=
  p.Comes good (fun s => s = .trigger n) fun _ => False

/-- The program lists the targets of the user and triggers their nodes, and does nothing else. -/
def Wakes (id : ID) (p : Prog Stmt Stmt.Res α) : Prop :=
  p.Forall Waking ∧ ∀ n, Triggers (Lists id n) n p

/-- The program will trigger the node: whatever it is answered, or on finding the node among the
targets of the user, who has a live assignment there. -/
def Debt (id n : ID) (w : World) (p : Prog Stmt Stmt.Res α) : Prop :=
  Triggers (fun _ _ => True) n p ∨
    (ServedOn w.tables id n ∧ p.Forall Waking ∧ Triggers (Lists id n) n p)

section Triggering

variable {good : (s : Stmt) → s.Res → Prop}

theorem Triggers.bind {β : Type} {p : Prog Stmt Stmt.Res α} (h : Triggers good n p)
    (f : α → Prog Stmt Stmt.Res β) : Triggers good n (p.bind f) :=
  Prog.Comes.bind (Prog.Comes.mono (fun _ => False.elim) h)

theorem Wakes.bind {β : Type} {p : Prog Stmt Stmt.Res α} (h : Wakes id p)
    {f : α → Prog Stmt Stmt.Res β} (hf : ∀ a, (f a).Forall Waking) : Wakes id (p.bind f) :=
  ⟨h.1.bind hf, fun n => (h.2 n).bind f⟩

theorem not_triggers_ret (a : α) : ¬ Triggers good n (Prog.ret a) := id

theorem Debt.bind {β : Type} {w : World} {p : Prog Stmt Stmt.Res α} (h : Debt id n w p)
    {f : α → Prog Stmt Stmt.Res β} (hf : ∀ a, (f a).Forall Waking) : Debt id n w (p.bind f) := by
  obtain h | ⟨hserved, hwaking, h⟩ := h
  · exact Or.inl (h.bind f)
  · exact Or.inr ⟨hserved, hwaking.bind hf, h.bind f⟩

/-- A loop over nodes triggers those of its list, and comes to what follows. -/
theorem triggers_triggerAll {ns : List ID} {f : Unit → Service α}
    (h : n ∈ ns ∨ Triggers good n (f ()).prog) : Triggers good n (triggerAll ns >>= f).prog := by
  induction ns with
  | nil => exact h.resolve_left nofun
  | cons m ns ih =>
      by_cases hm : m = n
      · exact Or.inl (congrArg Stmt.trigger hm)
      · refine Or.inr fun _ _ => ih (h.imp_left fun hmem => ?_)
        exact (List.mem_cons.1 hmem).resolve_left fun heq => hm heq.symm

theorem wakes_reconcileForUser {f : Unit → Service α} (hf : Prog.Forall Waking (f ()).prog)
    (id : ID) :
    Wakes id (reconcileForUser id >>= f).prog := by
  refine ⟨Req.forall_bind (reconcileForUser_forall trivial fun _ => trivial) fun _ => hf,
    fun n => Or.inr fun r hr => ?_⟩
  obtain ⟨ts, rfl, d, hd, rfl⟩ := hr rfl
  exact triggers_triggerAll (Or.inl (mem_dedup.2 (List.mem_map_of_mem hd)))

theorem triggers_reconcileForUser {f : Unit → Service α} (h : Triggers good n (f ()).prog)
    (a : ID) :
    Triggers good n (reconcileForUser a >>= f).prog := by
  refine Or.inr fun r _ => ?_
  cases r with
  | error e => exact h
  | ok ts => exact triggers_triggerAll (Or.inr h)

theorem wakes_reconcileEach {ids : List ID} (hid : id ∈ ids) :
    Wakes id (reconcileEach ids).prog := by
  have hwaking : ∀ ids, Prog.Forall Waking (reconcileEach ids).prog :=
    reconcileEach_forall (fun _ => trivial) fun _ => trivial
  refine ⟨hwaking ids, fun n => ?_⟩
  induction ids with
  | nil => cases hid
  | cons a ids ih =>
      obtain rfl | hid := List.mem_cons.1 hid
      · exact (wakes_reconcileForUser (hwaking ids) id).2 n
      · exact triggers_reconcileForUser (ih hid) a

end Triggering

/-! ## Steps that leave debts to be paid -/

/-- A step of an operation on these users: what it changes it owes, and it is about users of the
operation. -/
def Pays (users : List ID) (s : Stmt) (w : World) (r : s.Res) (w' : World)
    (p : Prog Stmt Stmt.Res α) : Prop :=
  Operating users s ∧ ∀ id n, Changed id n w.tables w'.tables →
    id ∈ flipped s r ++ users ∧ Debt id n w' p

/-- The others have been mild with these users. -/
def Spared (users : List ID) (w w' : World) : Prop :=
  ∀ id ∈ users, Mild id w.tables w'.tables

/-- All that the operation changes it owes. -/
def Careful (users : List ID) (p : Prog Stmt Stmt.Res α) (w : World) : Prop :=
  p.Guarantees ReadsSucceed (Spared users) (Pays users) (fun _ => True) w

theorem pays_of_wakes {s : Stmt} {r : s.Res} {w w' : World} {p : Prog Stmt Stmt.Res α}
    (hs : Operating users s) (hset : ∀ id ids, s ≠ .db (.setAssignmentsForUserTx id ids))
    (hw : MayFail s w r w') (hp : ∀ id ∈ altered s r, Wakes id p) : Pays users s w r w' p := by
  refine ⟨hs, fun id n hch => ?_⟩
  obtain ⟨hid, hserved⟩ | ⟨ids, hev, -⟩ := hs.changed hw hch
  · exact ⟨hs.mem_users hid, Or.inr ⟨hserved, (hp id hid).1, (hp id hid).2 n⟩⟩
  · cases hev
    exact (hset _ _ rfl).elim

theorem Waking.pays {s : Stmt} (hs : Waking s) {r : s.Res} {w w' : World}
    {p : Prog Stmt Stmt.Res α} (hw : MayFail s w r w') : Pays users s w r w' p := by
  unfold Waking at hs
  split at hs
  · exact pays_of_wakes trivial nofun hw (by cases r <;> nofun)
  · exact pays_of_wakes trivial nofun hw (by cases r <;> nofun)
  · exact pays_of_wakes trivial nofun hw nofun
  · exact hs.elim

theorem careful_of_waking {p : Prog Stmt Stmt.Res α} (hp : p.Forall Waking) (w : World) :
    Careful users p w :=
  Prog.Forall.guarantees (fun _ => trivial)
    (hp.mono fun _ hs _ _ _ _ hw => hs.pays hw.1) w

/-- A store call of an operation: those whom it alters are woken by the rest. -/
theorem careful_query {q : StoreCall} {f : q.Out → Service α} {w : World}
    (hq : Operating users (.db q)) (hset : ∀ id ids, q ≠ .setAssignmentsForUserTx id ids)
    (hf : ∀ v o v', Spared users w v → ReadsSucceed (.db q) v (.ok o) v' →
      (∀ id ∈ altered (.db q) (.ok o), Wakes id (f o).prog) ∧ Careful users (f o).prog v') :
    Careful users (query q >>= f).prog w := by
  intro v r v' hv hw
  have hset : ∀ id ids, Stmt.db q ≠ .db (.setAssignmentsForUserTx id ids) :=
    fun id ids h => hset id ids (Stmt.db.inj h)
  cases r with
  | error e => exact ⟨pays_of_wakes hq hset hw.1 (by cases q <;> nofun), trivial⟩
  | ok o => exact ⟨pays_of_wakes hq hset hw.1 (hf v o v' hv hw).1, (hf v o v' hv hw).2⟩

/-- A store call after which the operation lists targets and triggers their nodes. -/
theorem careful_commit {q : StoreCall} {f : q.Out → Service α} {w : World}
    (hq : Operating users (.db q)) (hset : ∀ id ids, q ≠ .setAssignmentsForUserTx id ids)
    (hf : ∀ o, Prog.Forall Waking (f o).prog)
    (hwakes : ∀ o, ∀ id ∈ altered (.db q) (.ok o), Wakes id (f o).prog) :
    Careful users (query q >>= f).prog w :=
  careful_query hq hset fun _ o v' _ _ => ⟨hwakes o, careful_of_waking (hf o) v'⟩

/-! ## The operations -/

section Operations

variable (w : World)

theorem forall_waking_getUser (id : ID) : Prog.Forall Waking (query (.getUser id)).prog :=
  ⟨trivial, fun _ => trivial⟩

/-- How an operation ends. -/
theorem wakes_tail (id id' : ID) :
    Wakes id (reconcileForUser id >>= fun _ => query (.getUser id')).prog :=
  wakes_reconcileForUser (forall_waking_getUser id') id

theorem careful_create (inp : CreateInput) (fresh : Fresh) (now : Time) :
    Careful [fresh.id] (create inp fresh now).prog w := by
  have hstore : ∀ (limits : Option Int64 × Option Time) (w : World),
    Careful [fresh.id] (Req.prog (do
      let inbounds : List Inbound ← query (.listInboundsByIDs inp.inboundIDs)
      if inbounds.length ≠ (dedup inp.inboundIDs).length then
        Req.throw (.validation "one or more inbound_ids do not exist")
      else do
        let u := newUser inp fresh limits.1 limits.2
        query (.createWithAssignmentsTx u (inbounds.map Inbound.id))
        reconcileForUser u.id
        query (.getUser u.id))) w := by
    intro limits w
    refine careful_query trivial nofun fun _ inbounds w _ _ => ⟨nofun, ?_⟩
    split_ifs with hlen
    · trivial
    · refine careful_commit (List.mem_singleton.2 rfl) nofun (fun _ => (wakes_tail _ _).1)
        fun _ id hid => ?_
      rw [List.mem_singleton.1 hid]
      exact wakes_tail _ _
  unfold create
  split_ifs with hblank hnone
  · trivial
  · trivial
  · unfold snapshotLimits
    split
    · exact hstore _ w
    · rw [Req.bind_assoc]
      exact careful_query trivial nofun fun _ plan w _ _ => ⟨nofun, hstore _ w⟩

/-- A write of the user's own row, as `Update` and `Renew` end. -/
theorem careful_updateUser {u : User} (hu : u.id = id) (v : User) (hv : v.id = id) :
    Careful [id] (Req.prog (do
      query (.updateUser u)
      reconcileForUser v.id
      query (.getUser id))) w := by
  refine careful_commit (List.mem_singleton.2 hu) nofun (fun _ => (wakes_tail _ _).1)
    fun _ id' hid => ?_
  rw [List.mem_singleton.1 hid, hu, hv]
  exact wakes_tail _ _

theorem careful_update (inp : UpdateInput) (now : Time) :
    Careful [id] (update id inp now).prog w := by
  refine careful_query trivial nofun fun v u v' _ hu => ⟨nofun, ?_⟩
  have hid := getUser_id (mayFail_getUser hu.1)
  exact careful_updateUser v' ((patch_id inp now u).trans hid) u hid

theorem careful_setStatus (status : UserStatus) :
    Careful [id] (setStatusAndReconcile id status).prog w := by
  refine careful_commit (List.mem_singleton.2 rfl) nofun (fun _ => (wakes_tail _ _).1)
    fun _ id' hid => ?_
  rw [List.mem_singleton.1 hid]
  exact wakes_tail _ _

theorem careful_resume (now : Time) : Careful [id] (resume id now).prog w := by
  refine careful_query trivial nofun fun _ u w _ _ => ⟨nofun, ?_⟩
  split_ifs with hover hexp
  · trivial
  · trivial
  · exact careful_setStatus w .active

theorem careful_resetTraffic (now : Time) : Careful [id] (resetTraffic id now).prog w := by
  refine careful_query trivial nofun fun _ u w _ _ => ⟨nofun, ?_⟩
  refine careful_query trivial nofun fun _ _ w _ _ => ⟨nofun, ?_⟩
  unfold reactivateSuspended
  split_ifs with hsusp
  · exact careful_setStatus w .active
  · exact careful_of_waking (wakes_tail id id).1 w

theorem careful_renew (inp : RenewInput) (now now' : Time) :
    Careful [id] (renew id inp now now').prog w := by
  -- the copy at hand keeps the id, and the row is written under it
  have hwrite : ∀ (u : User) (w : World), u.id = id → Careful [id] (Req.prog (do
      let u ← resetUsage id inp (extendExpiry inp now u)
      let u := reactivate now' u
      query (.updateUser u)
      reconcileForUser u.id
      query (.getUser id))) w := by
    intro u w hu
    have hext : (extendExpiry inp now u).id = id := by
      unfold extendExpiry
      split_ifs <;> exact hu
    have hlast : ∀ (v : User) (w : World), v.id = id → Careful [id] (Req.prog (do
        query (.updateUser (reactivate now' v))
        reconcileForUser (reactivate now' v).id
        query (.getUser id))) w := fun v w hv =>
      careful_updateUser w ((reactivate_id now' v).trans hv) _ ((reactivate_id now' v).trans hv)
    unfold resetUsage
    split_ifs with hreset
    · rw [Req.bind_assoc]
      exact careful_query trivial nofun fun _ _ w _ _ => ⟨nofun, hlast _ w hext⟩
    · exact hlast _ w hext
  unfold renew
  split_ifs with hempty
  · trivial
  · refine careful_query trivial nofun fun _ u w _ hu => ⟨nofun, ?_⟩
    have hid := getUser_id (mayFail_getUser hu.1)
    unfold switchPlan
    split
    · exact hwrite u w hid
    · rw [Req.bind_assoc]
      exact careful_query trivial nofun fun _ plan w _ _ => ⟨nofun, hwrite _ w hid⟩

theorem careful_sweepExpired (now : Time) : Careful [] (sweepExpired now).prog w :=
  careful_commit trivial nofun
    (fun ids => reconcileEach_forall (fun _ => trivial) (fun _ => trivial) ids)
    fun _ _ hid => wakes_reconcileEach hid

/-- The nodes of the targets and of the listed inbounds are all that an assignment set can reach. -/
theorem mem_nodes_of_affected {t : Tables} (ht : t.Valid) {ids : List ID}
    (h : Affected t id ids n) :
    n ∈ (assignmentTargetsForUser t id).map DesiredAssignment.nodeID ∨
      n ∈ (listInboundsByIDs t ids).map Inbound.nodeID := by
  obtain ⟨i, hi, rfl, hlisted | ⟨row, hrow⟩⟩ := h
  · exact Or.inr (List.mem_map_of_mem (List.mem_filter.2 ⟨hi, decide_eq_true hlisted⟩))
  · obtain ⟨hmem, huser, hinbound⟩ := ht.assignment_eq_some.1 hrow
    obtain ⟨u, hu⟩ := exists_lookup_of_mem (ht.userInbounds_user row hmem)
    have hi : lookup Inbound.id row.inboundID t.inbounds = some i :=
      (lookup_eq_some_iff ht.inbounds_id).2 ⟨hi, hinbound.symm⟩
    refine Or.inl (List.mem_map.2 ⟨desiredRow row i u, ?_, rfl⟩)
    exact mem_queryDesired.2 ⟨row, hmem, i, u, hi, hu, decide_eq_true huser, rfl⟩

theorem careful_setInbounds (ids : Slice ID) : Careful [id] (setInbounds id ids).prog w := by
  refine careful_query trivial nofun fun _ u w _ _ => ⟨nofun, ?_⟩
  refine careful_query trivial nofun fun v₁ inbounds w₁ _ h₁ => ⟨nofun, ?_⟩
  split_ifs with hlen
  · trivial
  intro v₂ r w₂ hv₂ h₂
  refine ⟨pays_of_wakes trivial nofun h₂.1 (by cases r <;> nofun), ?_⟩
  intro v₃ r₃ w₃ hv₃ h₃
  -- the lists that the nodes are taken from, as of the read of the targets
  obtain ⟨_, hinb, hinbounds, hw₁⟩ := answers_db_of_ok rfl (h₁.2 rfl)
  cases hinb
  obtain ⟨targets, rfl, htargets, hw₂⟩ := answers_db_of_ok rfl (h₂.2 rfl)
  have hmild₂ := hv₂ id (List.mem_singleton.2 rfl)
  have hmild₃ := hv₃ id (List.mem_singleton.2 rfl)
  have hsame : listInboundsByIDs v₂.tables ids.elems = listInboundsByIDs v₁.tables ids.elems := by
    unfold listInboundsByIDs
    rw [hmild₂.inbounds, hw₁]
  have hnodes : ∀ n, Affected v₃.tables id ids.elems n → n ∈ dedup
      (targets.map DesiredAssignment.nodeID ++ inbounds.map Inbound.nodeID) := by
    intro n haff
    rw [mem_dedup, List.mem_append]
    have haff : Affected v₂.tables id ids.elems n := hw₂ ▸ hmild₃.affected haff
    obtain h | h := mem_nodes_of_affected v₂.db.valid haff
    · exact Or.inl ((List.Perm.mem_iff (htargets.map _)).2 h)
    · rw [hsame] at h
      exact Or.inr ((List.Perm.mem_iff (hinbounds.map _)).2 h)
  have hop : Operating [id] (.db (.setAssignmentsForUserTx id ids)) := List.mem_singleton.2 rfl
  refine ⟨⟨hop, fun id' n hch => ?_⟩, ?_⟩
  · obtain ⟨halt, -⟩ | ⟨ids', hev, haff⟩ := hop.changed h₃.1 hch
    · cases r₃ <;> cases halt
    · cases hev
      exact ⟨hop, Or.inl (triggers_triggerAll (Or.inl (hnodes n haff)))⟩
  · cases r₃ with
    | error e => trivial
    | ok o =>
        exact careful_of_waking (Req.forall_bind (triggerAll_forall (fun _ => trivial) _) fun _ =>
          forall_waking_getUser id) w₃

/-- Every operation is careful with its own users. -/
theorem careful_task (op : Op) : Careful op.users op.task w := by
  -- nothing follows the request
  have hretired : ∀ {α : Type} {us : List ID} {p : Service α}, Careful us p.prog w →
      Careful us (asTask p) w := fun h =>
    h.bind (fun _ _ _ _ _ ⟨hs, hpays⟩ => ⟨hs, fun id n hch =>
      ⟨(hpays id n hch).1, (hpays id n hch).2.bind fun _ => trivial⟩⟩) fun _ _ _ => trivial
  cases op with
  | create inp fresh now => exact hretired (careful_create w inp fresh now)
  | update id inp now => exact hretired (careful_update w inp now)
  | setInbounds id ids => exact hretired (careful_setInbounds w ids)
  | suspend id => exact hretired (careful_setStatus w .disabled)
  | resume id now => exact hretired (careful_resume w now)
  | resetTraffic id now => exact hretired (careful_resetTraffic w now)
  | renew id inp now now' => exact hretired (careful_renew w inp now now')
  | sweepExpired now => exact hretired (careful_sweepExpired w now)

end Operations

/-! ## The collectors -/

/-- The commit of a collector. -/
def IsQuota : Stmt → Prop
  | .db (.applyTrafficDeltas _ _ _) => True
  | _ => False

/-- A commit of a collector: what it changes it owes, and it has just flipped the user. -/
def PaysQuota (s : Stmt) (w : World) (r : s.Res) (w' : World) (p : Prog Stmt Stmt.Res α) : Prop :=
  IsQuota s → ∀ id n, Changed id n w.tables w'.tables → id ∈ flipped s r ∧ Debt id n w' p

/-- The collectors among the rounds of an actor are careful, whatever others do. -/
def Attentive (p : Prog Stmt Stmt.Res α) (w : World) : Prop :=
  p.Guarantees ReadsSucceed (fun _ _ => True) PaysQuota (fun _ => True) w

theorem attentive_of_forall {p : Prog Stmt Stmt.Res α} (hp : p.Forall fun s => ¬ IsQuota s)
    (w : World) : Attentive p w :=
  Prog.Forall.guarantees (fun _ => trivial)
    (hp.mono fun _ hs _ _ _ _ _ hquota => (hs hquota).elim) w

theorem Attentive.bind {β : Type} {p : Prog Stmt Stmt.Res α} {f : α → Prog Stmt Stmt.Res β}
    {w : World} (hp : Attentive p w)
    (hwaking : ∀ a, (f a).Forall Waking) : Attentive (p.bind f) w :=
  Prog.Guarantees.bind hp
    (fun _ _ _ _ _ hpays hquota id n hch =>
      ⟨(hpays hquota id n hch).1, (hpays hquota id n hch).2.bind hwaking⟩)
    fun a _ v => attentive_of_forall ((hwaking a).mono fun s hs hquota => by
      unfold IsQuota at hquota
      split at hquota
      · exact hs
      · exact hquota) v

theorem attentive_collect (n : ID) (c : Cycle) (p : PendingDeltas) (w : World) :
    Attentive (collect n c p).prog w := by
  have hwrite : ∀ p idByEmail w, Attentive (writeDeltas n c p idByEmail).prog w := by
    intro p idByEmail w v r v' _ hw
    refine ⟨fun _ id m hch => ?_, ?_⟩
    · obtain ⟨halt, hserved⟩ :=
        changed_of_writesUsers (q := .applyTrafficDeltas _ _ _) trivial hw.1 hch
      cases r with
      | error e => cases halt
      | ok ids =>
          have hwakes : Wakes id (reconcileEach ids >>= fun _ => pure TrafficReport.empty).prog :=
            (wakes_reconcileEach halt).bind fun r => by cases r <;> trivial
          exact ⟨halt, Or.inr ⟨hserved, hwakes.1, hwakes.2 m⟩⟩
    · cases r with
      | error e => trivial
      | ok ids =>
          have hwaking : Prog.Forall (fun s => ¬ IsQuota s) (reconcileEach ids) :=
            reconcileEach_forall (fun _ => id) (fun _ => id) ids
          refine attentive_of_forall (Req.forall_bind hwaking fun _ => ?_) v'
          trivial
  have hresolve : ∀ p w, Attentive (resolve n c p).prog w := by
    intro p w
    unfold resolve
    split_ifs with hp
    · trivial
    · intro v r v' _ _
      refine ⟨False.elim, ?_⟩
      cases r with
      | error e => trivial
      | ok idByEmail => exact hwrite p idByEmail v'
  intro v r v' _ _
  refine ⟨False.elim, ?_⟩
  cases r with
  | error e => trivial
  | ok u =>
      intro v r v' _ _
      refine ⟨False.elim, ?_⟩
      cases r with
      | error e => trivial
      | ok traffic => exact hresolve _ v'

theorem not_isQuota_of_ofPass {s : Stmt} (hs : OfPass s) : ¬ IsQuota s := by
  intro hquota
  unfold IsQuota at hquota
  split at hquota
  · exact hs
  · exact hquota

theorem forall_not_isQuota_runPass (n : ID) : Prog.Forall (fun s => ¬ IsQuota s) (runPass n).prog :=
  (runPass_ofPass n).mono fun _ => not_isQuota_of_ofPass

theorem forall_not_isQuota_checkHealth (a : NodeActor) (now : Time) :
    Prog.Forall (fun s => ¬ IsQuota s) (checkHealth a now).prog := by
  have hset : ∀ (a : NodeActor) status errMsg seen,
      Prog.Forall (fun s => ¬ IsQuota s) (setHealth a status errMsg seen).prog :=
    fun _ _ _ _ => ⟨id, fun _ => trivial⟩
  have hfailed : ∀ e, Prog.Forall (fun s => ¬ IsQuota s) (probeFailed a e).prog := by
    intro e
    unfold probeFailed
    split_ifs with hoff hfew
    · exact hset _ _ _ _
    · exact hset _ _ _ _
    · trivial
  have hanswered : ∀ uptime,
    Prog.Forall (fun s => ¬ IsQuota s) (probeAnswered a uptime now).prog := by
    intro uptime
    refine Req.forall_bind (hset _ _ _ _) fun b => ?_
    split_ifs with hrec
    · exact Req.forall_bind (forall_not_isQuota_runPass _) fun _ => trivial
    · trivial
  refine ⟨id, fun r => ?_⟩
  cases r with
  | error e => exact hfailed e
  | ok u =>
      refine ⟨id, fun r => ?_⟩
      cases r with
      | error e => exact hfailed e
      | ok uptime => exact hanswered uptime

/-- The rounds of an actor are attentive. -/
theorem attentive_task (a : ActorState) (rd : Round) (w : World) : Attentive (rd.task a) w := by
  have hpass : Attentive (Prog.bind (Prog.bind (runPass a.health.node.id).prog fun _ => Prog.ret a)
      fun a => Prog.ret (some a)) w := by
    rw [Prog.bind_assoc]
    refine attentive_of_forall ((forall_not_isQuota_runPass _).bind fun _ => ?_) w
    trivial
  cases rd with
  | checkHealth now =>
      rw [Round.task, Round.prog, Prog.bind_assoc]
      refine attentive_of_forall ((forall_not_isQuota_checkHealth _ now).bind fun r => ?_) w
      cases r <;> trivial
  | collect c =>
      rw [Round.task, Round.prog, Prog.bind_assoc]
      refine (attentive_collect _ c _ w).bind fun r => ?_
      cases r <;> trivial
  | reconcile => exact hpass
  | triggered => exact hpass

end XrayApi.Worker
