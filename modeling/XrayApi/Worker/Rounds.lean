import XrayApi.Worker.Panel

/-!
# Passes within the rounds of an actor

A round of an actor is a pass, a collection, or a health check that may end in a pass. `InRound`
says at which control point of a pass an actor stands in its round. `Condemned` is what all steps of
a panel keep about the passes in flight: the rows a pass will delete are tombstones, and they stay
so until it does. So an assignment that is no tombstone is not deleted by a pass, whatever it has
read before (`Condemned.mild`).
-/

set_option autoImplicit false

namespace XrayApi.Worker

open Transition Store Relational

/-! ## Rounds -/

/-- After its pass a round returns. -/
def Ends (n : ID) (f : Except Err Unit → Task) : Prop :=
  ∀ x, ∃ a : ActorState, f x = Prog.ret (some a) ∧ a.health.node.id = n

/-- The round has not come to a pass: it may come to one, or return. -/
def BeforePass (n : ID) : Task → Prop
  | .ret o => ∃ a : ActorState, o = some a ∧ a.health.node.id = n
  | .call s k => (Tending s ∧ ∀ r, BeforePass n (k r)) ∨
      ∃ f, Ends n f ∧ Prog.call s k = Prog.bind (reconcile n).prog f

/-- The rest of a round with the control point of its pass; before the pass it is the first one. -/
def InRound (n : ID) (p : Task) (c : Pass) : Prop :=
  (∃ f, Ends n f ∧ p = Prog.bind (c.prog n) f) ∨ (c = .dial ∧ BeforePass n p)

section Rounds

variable {n : ID} {a : ActorState}

theorem InRound.ret {o : Option ActorState} {c : Pass} (h : InRound n (Prog.ret o) c) :
    ∃ a : ActorState, o = some a ∧ a.health.node.id = n := by
  obtain ⟨f, hf, hp⟩ | ⟨-, h⟩ := h
  · cases hc : c.prog n with
    | ret x =>
        rw [hc] at hp
        obtain ⟨a, ha, hid⟩ := hf x
        have hp : Prog.ret o = f x := hp
        rw [ha] at hp
        cases hp
        exact ⟨a, rfl, hid⟩
    | call s k =>
        rw [hc] at hp
        cases hp
  · exact h

/-- A step within a pass is one of the pass; before it the actor tends to its node. -/
theorem InRound.step {s : Stmt} {k : s.Res → Task} {c : Pass} (h : InRound n (Prog.call s k) c)
    (r : s.Res) : ∃ c', InRound n (k r) c' ∧ (Pass.Step n c s r c' ∨ (Tending s ∧ c' = .dial)) := by
  have hpass : ∀ {c : Pass} {f : Except Err Unit → Task}, Ends n f →
      Prog.call s k = Prog.bind (c.prog n) f →
      ∃ c', InRound n (k r) c' ∧ (Pass.Step n c s r c' ∨ (Tending s ∧ c' = .dial)) := by
    intro c f hf hp
    cases hc : c.prog n with
    | ret x =>
        rw [hc] at hp
        obtain ⟨a, ha, -⟩ := hf x
        have hp : Prog.call s k = f x := hp
        rw [ha] at hp
        cases hp
    | call s' k' =>
        rw [hc] at hp
        cases hp
        obtain ⟨c', hstep, hk⟩ := Pass.prog_step hc r
        exact ⟨c', Or.inl ⟨f, hf, congrArg (Prog.bind · f) hk⟩, Or.inl hstep⟩
  obtain ⟨f, hf, hp⟩ | ⟨rfl, ⟨hs, hk⟩ | ⟨f, hf, hp⟩⟩ := h
  · exact hpass hf hp
  · exact ⟨.dial, Or.inr ⟨rfl, hk r⟩, Or.inr ⟨hs, rfl⟩⟩
  · exact hpass (c := .dial) hf hp

theorem beforePass_of_forall {p : Task} (hp : p.Forall Tending)
    (hret : p.Yields fun o => ∃ a : ActorState, o = some a ∧ a.health.node.id = n) :
    BeforePass n p := by
  induction p with
  | ret o => exact hret
  | call s k ih => exact Or.inl ⟨hp.1, fun r => ih r (hp.2 r) (hret r)⟩

/-- A pass of the actor's own node, after which the round returns. -/
theorem beforePass_runPass {f : Except Err Unit → Task} (hf : Ends n f) :
    BeforePass n (Prog.bind (runPass n).prog f) := by
  refine Or.inr ⟨fun _ => f (.ok ()), fun _ => hf (.ok ()), ?_⟩
  exact Prog.bind_assoc (reconcile n).prog _ f

theorem forall_tending_collect (n : ID) (c : Cycle) (p : PendingDeltas) :
    Prog.Forall Tending (collect n c p).prog := by
  have hwrite : ∀ p idByEmail, Prog.Forall Tending (writeDeltas n c p idByEmail) := by
    intro p idByEmail
    refine Req.forall_bind ⟨trivial, fun _ => trivial⟩ fun r => ?_
    cases r with
    | error e => trivial
    | ok overQuota =>
        exact Req.forall_bind (reconcileEach_forall (fun _ => trivial) (fun _ => trivial) overQuota)
          fun _ => trivial
  have hresolve : ∀ p, Prog.Forall Tending (resolve n c p) := by
    intro p
    unfold resolve
    split_ifs with hp
    · trivial
    · refine Req.forall_bind ⟨trivial, fun _ => trivial⟩ fun r => ?_
      cases r with
      | error e => trivial
      | ok idByEmail => exact hwrite p idByEmail
  refine Req.forall_bind ⟨trivial, fun _ => trivial⟩ fun r => ?_
  cases r with
  | error e => trivial
  | ok u =>
      refine Req.forall_bind ⟨trivial, fun _ => trivial⟩ fun r => ?_
      cases r with
      | error e => trivial
      | ok traffic => exact hresolve _

theorem beforePass_checkHealth (now : Time) (ha : a.health.node.id = n) :
    BeforePass n ((Round.checkHealth now).task a) := by
  -- a record of the outcome ends the round, or is followed by a pass
  have hfailed : ∀ e (k : Except Err NodeActor → Prog Stmt Stmt.Res ActorState),
      (∀ health, k (.ok health) = Prog.ret { a with health := health }) →
      BeforePass n (Prog.bind (Prog.bind (probeFailed a.health e).prog k)
        fun a => Prog.ret (some a)) := by
    intro e k hk
    have hends : ∀ health : NodeActor, health.node.id = n →
        BeforePass n (Prog.bind (k (.ok health)) fun a => Prog.ret (some a)) := by
      intro health hid
      rw [hk]
      exact ⟨_, rfl, hid⟩
    unfold probeFailed
    split_ifs with hoff hfew
    · exact Or.inl ⟨trivial, fun _ => hends _ ha⟩
    · exact Or.inl ⟨trivial, fun _ => hends _ ha⟩
    · exact hends _ ha
  refine Or.inl ⟨trivial, fun r => ?_⟩
  cases r with
  | error e => exact hfailed e _ fun _ => rfl
  | ok u =>
      refine Or.inl ⟨trivial, fun r => ?_⟩
      cases r with
      | error e => exact hfailed e _ fun _ => rfl
      | ok uptime =>
          refine Or.inl ⟨trivial, fun _ => ?_⟩
          change BeforePass n (Prog.bind (Prog.bind (Req.prog
            (if a.health.reconciles uptime = true
              then runPass a.health.node.id >>= fun _ => pure (a.health.answered uptime)
              else pure (a.health.answered uptime))) _) _)
          split_ifs with hrec
          · change BeforePass n (Prog.bind (Prog.bind (Prog.bind (runPass a.health.node.id).prog
              (Req.continueWith fun _ => pure (a.health.answered uptime))) _) _)
            rw [ha, Prog.bind_assoc, Prog.bind_assoc]
            refine beforePass_runPass fun x => ?_
            cases x with
            | ok o => exact ⟨_, rfl, ha⟩
            | error e => exact ⟨_, rfl, ha⟩
          · exact ⟨_, rfl, ha⟩

/-- Every round starts before its pass. -/
theorem inRound_task (ha : a.health.node.id = n) (rd : Round) : InRound n (rd.task a) .dial := by
  have hends : Ends n fun _ => Prog.ret (some a) := fun _ => ⟨a, rfl, ha⟩
  refine Or.inr ⟨rfl, ?_⟩
  cases rd with
  | checkHealth now => exact beforePass_checkHealth now ha
  | collect c =>
      rw [Round.task, Round.prog, Prog.bind_assoc]
      refine beforePass_of_forall (Prog.Forall.bind (forall_tending_collect _ c _) fun r => ?_)
        (Prog.Yields.bind _ fun r => ?_)
      · cases r <;> trivial
      · cases r with
        | ok p => exact ⟨_, rfl, ha⟩
        | error e => exact ⟨_, rfl, ha⟩
  | reconcile =>
      rw [Round.task, Round.prog, Prog.bind_assoc, ha]
      exact beforePass_runPass hends
  | triggered =>
      rw [Round.task, Round.prog, Prog.bind_assoc, ha]
      exact beforePass_runPass hends

end Rounds

/-! ## Rows that a pass will delete -/

namespace Pass

theorem mem_held_of_mem_drops {p : Pass} {e : DesiredAssignment} (h : e ∈ p.drops) :
    e ∈ p.held := by
  cases p with
  | remove d rest =>
      rw [drops] at h
      exact List.mem_of_mem_filter h
  | drop d rest =>
      obtain rfl | h := List.mem_cons.1 h
      · exact List.mem_cons_self
      · exact List.mem_cons_of_mem d (List.mem_of_mem_filter h)
  | _ => cases h

/-- A pass that has rows to delete marks none. -/
theorem marks_eq_nil_of_mem_drops {p : Pass} {e : DesiredAssignment} (h : e ∈ p.drops) :
    p.marks = [] := by
  cases p with
  | remove d rest => rfl
  | drop d rest => rfl
  | _ => cases h

/-- What a pass will delete it was going to delete, or it has just listed the removals. -/
theorem Step.drops_sublist {n : ID} {p p' : Pass} {s : Stmt} {r : s.Res} (h : Step n p s r p') :
    p'.drops.Sublist p.drops ∨
      p'.drops = (readRows s r).filter fun e => decide (e.syncStatus = .removing) := by
  have hnil : p'.drops = [] → p'.drops.Sublist p.drops ∨
      p'.drops = (readRows s r).filter fun e => decide (e.syncStatus = .removing) := by
    intro hnil
    rw [hnil]
    exact Or.inl (List.nil_sublist _)
  cases h with
  | listed ds => exact Or.inr (drops_toRemove ds)
  | removed d rest =>
      rw [drops_removed]
      exact Or.inl (List.Sublist.refl _)
  | dropped d rest r =>
      rw [drops_toRemove]
      exact Or.inl (List.sublist_cons_self _ _)
  | desired ds => exact hnil (by cases ds <;> rfl)
  | added d rest =>
      refine hnil ?_
      unfold Pass.added
      split_ifs with hs
      · rfl
      · cases rest <;> rfl
  | marked d rest r => exact hnil (by cases rest <;> rfl)
  | _ => exact hnil rfl

theorem readsOnly_of_read {s : Stmt} {r : s.Res} {e : DesiredAssignment} (he : e ∈ readRows s r) :
    ReadsOnly s := by
  unfold readRows at he
  split at he
  · exact readsOnly_of_isWrite_eq_false rfl
  · exact readsOnly_of_isWrite_eq_false rfl
  · cases he

end Pass

/-- The rows of a join have distinct keys. -/
theorem nodup_queryDesired {t : Tables} (ht : t.Valid)
    (cond : UserInbound → Inbound → User → Bool) :
    ((queryDesired t cond).map fun d => (d.userID, d.inboundID)).Nodup := by
  refine nodup_map_filterMap ht.userInbounds_key fun ui d h => ?_
  split at h
  · split_ifs at h
    cases h
    rfl
  · cases h

namespace Pass

variable {n : ID} {p p' : Pass} {s : Stmt} {r : s.Res} {w w' : World}

theorem Step.keepsInbounds (h : Step n p s r p') (hw : MayFail s w r w') :
    w'.tables.inbounds = w.tables.inbounds := by
  obtain hw | ⟨rfl, -⟩ := mayFail_cases hw
  · exact (h.static hw).2
  · rfl

/-- What a step does to an assignment when it may fail. -/
theorem Step.row_of_mayFail (h : Step n p s r p') (hw : MayFail s w r w') (userID inboundID : ID) :
    assignment w'.tables userID inboundID = assignment w.tables userID inboundID ∨
      (∃ d rest, p = drop d rest ∧ p' = toRemove rest ∧ d.userID = userID ∧
        d.inboundID = inboundID ∧ assignment w'.tables userID inboundID = none) ∨
      ∃ d ∈ p.marks, d.userID = userID ∧ d.inboundID = inboundID ∧
        ∃ status errMsg, status ≠ SyncStatus.removing ∧
          assignment w'.tables userID inboundID =
            (assignment w.tables userID inboundID).map fun r =>
              { r with syncStatus := status, lastError := errMsg } := by
  obtain hw | ⟨rfl, -⟩ := mayFail_cases hw
  · exact h.row hw userID inboundID
  · exact Or.inl rfl

/-- The rows a pass reads have distinct keys. -/
theorem Step.nodup_read (h : Step n p s r p') (hw : MayFail s w r w') :
    ((readRows s r).map fun d => (d.userID, d.inboundID)).Nodup := by
  cases h with
  | listed ds =>
      obtain ⟨a, ha, hrows, -⟩ := answers_db_of_ok rfl (mayFail_ok hw rfl)
      cases ha
      exact (List.Perm.nodup_iff (hrows.map _)).2 (nodup_queryDesired w.db.valid _)
  | desired ds =>
      obtain ⟨a, ha, hrows, -⟩ := answers_db_of_ok rfl (mayFail_ok hw rfl)
      cases ha
      exact (List.Perm.nodup_iff (hrows.map _)).2 (nodup_queryDesired w.db.valid _)
  | _ => exact List.nodup_nil

end Pass

/-- What the steps of a panel keep about the passes in flight. -/
structure Condemned (ctl : ID → Pass) (t : Tables) : Prop where
  placed : ∀ n, ∀ d ∈ (ctl n).held, ∃ i ∈ t.inbounds, i.id = d.inboundID ∧ i.nodeID = n
  tombstone : ∀ n, ∀ d ∈ (ctl n).drops, ∃ row,
    assignment t d.userID d.inboundID = some row ∧ row.syncStatus = .removing
  distinct : ∀ n, ((ctl n).drops.map fun d => (d.userID, d.inboundID)).Nodup

namespace Condemned

variable {ctl : ID → Pass} {t t' : Tables} {w w' : World}

/-- Writes that insert rows or make them tombstones keep it. -/
theorem of_resets (h : Condemned ctl t) (hinbounds : t'.inbounds = t.inbounds)
    (hrows : ∀ id inboundID, assignment t' id inboundID = assignment t id inboundID ∨
      Resets (assignment t id inboundID) (assignment t' id inboundID)) : Condemned ctl t' where
  placed := by
    rw [hinbounds]
    exact h.placed
  tombstone n d hd := by
    obtain ⟨row, hrow, hs⟩ := h.tombstone n d hd
    obtain hsame | htomb | ⟨new, hnew⟩ := hrows d.userID d.inboundID
    · exact ⟨row, hsame.trans hrow, hs⟩
    · rw [hrow] at htomb
      exact ⟨tombstoned row, htomb, rfl⟩
    · rw [hrow] at hnew
      exact ⟨row, hnew, hs⟩
  distinct := h.distinct

/-- An actor that holds no row. -/
theorem enter (h : Condemned ctl t) (n : ID) {c : Pass} (hc : c.held = []) :
    Condemned (Function.update ctl n c) t := by
  have hdrops : c.drops = [] := List.eq_nil_iff_forall_not_mem.2 fun d hd => by
    have hd := Pass.mem_held_of_mem_drops hd
    rw [hc] at hd
    cases hd
  -- the other actors stay where they are
  have hcases : ∀ m, Function.update ctl n c m = ctl m ∨
      ((Function.update ctl n c m).held = [] ∧ (Function.update ctl n c m).drops = []) := by
    intro m
    by_cases hm : m = n
    · subst hm
      rw [Function.update_self]
      exact Or.inr ⟨hc, hdrops⟩
    · exact Or.inl (Function.update_of_ne hm _ _)
  refine ⟨fun m d hd => ?_, fun m d hd => ?_, fun m => ?_⟩
  · obtain hm | ⟨hm, -⟩ := hcases m
    · rw [hm] at hd
      exact h.placed m d hd
    · rw [hm] at hd
      cases hd
  · obtain hm | ⟨-, hm⟩ := hcases m
    · rw [hm] at hd
      exact h.tombstone m d hd
    · rw [hm] at hd
      cases hd
  · obtain hm | ⟨-, hm⟩ := hcases m
    · rw [hm]
      exact h.distinct m
    · rw [hm]
      exact List.nodup_nil

/-- The node of a row in the hands of a pass is that of the pass. -/
theorem node_eq (h : Condemned ctl t) (ht : t.Valid) {m n : ID} {d e : DesiredAssignment}
    (hd : d ∈ (ctl m).held) (he : e ∈ (ctl n).held) (hid : d.inboundID = e.inboundID) : m = n := by
  obtain ⟨i, hi, hid', rfl⟩ := h.placed m d hd
  obtain ⟨j, hj, hjd, rfl⟩ := h.placed n e he
  rw [List.inj_on_of_nodup_map ht.inbounds_id hi hj (hid'.trans (hid.trans hjd.symm))]

/-- A step of a pass keeps it. -/
theorem step (h : Condemned ctl w.tables) {n : ID} {s : Stmt} {r : s.Res} {c : Pass}
    (hstep : Pass.Step n (ctl n) s r c) (hw : MayFail s w r w') :
    Condemned (Function.update ctl n c) w'.tables := by
  have hinbounds := hstep.keepsInbounds hw
  refine ⟨fun m d hd => ?_, fun m d hd => ?_, fun m => ?_⟩
  · rw [hinbounds]
    by_cases hm : m = n
    · subst hm
      rw [Function.update_self] at hd
      obtain hd | hd := hstep.held hd
      · exact h.placed m d hd
      · obtain ⟨cond, hmem, rfl⟩ := hstep.read (Pass.answers_of_read hw hd) hd
        obtain ⟨ui, -, i, u, hi, -, -, rfl⟩ := mem_queryDesired.1 hmem
        exact ⟨i, mem_of_lookup hi, key_of_lookup hi, rfl⟩
    · rw [Function.update_of_ne hm] at hd
      exact h.placed m d hd
  · by_cases hm : m = n
    · subst hm
      rw [Function.update_self] at hd
      obtain hold | ⟨hread, hs⟩ := hstep.drops_inv hd
      · obtain ⟨row, hrow, hs⟩ := h.tombstone m d hold
        refine ⟨row, ?_, hs⟩
        obtain hsame | ⟨e, rest, hdrop, rfl, hu, hi, -⟩ | ⟨e, he, -⟩ :=
          hstep.row_of_mayFail hw d.userID d.inboundID
        · exact hsame.trans hrow
        · -- the keys of the rows to delete differ
          have hnodup := h.distinct m
          rw [hdrop, Pass.drops, List.map_cons, List.nodup_cons] at hnodup
          rw [Pass.drops_toRemove] at hd
          exact (hnodup.1 (List.mem_map.2 ⟨d, hd, by rw [hu, hi]⟩)).elim
        · rw [Pass.marks_eq_nil_of_mem_drops hold] at he
          cases he
      · obtain ⟨cond, hmem, -⟩ := hstep.read (Pass.answers_of_read hw hread) hread
        rw [Pass.readsOnly_of_read hread w r w' hw]
        obtain ⟨ui, i, u, hui, -, -, -, hd⟩ := w.db.valid.mem_queryDesired_iff.1 hmem
        rw [hd] at hs
        exact ⟨ui, hui, hs⟩
    · rw [Function.update_of_ne hm] at hd
      obtain ⟨row, hrow, hs⟩ := h.tombstone m d hd
      refine ⟨row, ?_, hs⟩
      -- a row of another node is not in the hands of this pass
      have hother : ∀ e ∈ (ctl n).held, e.inboundID ≠ d.inboundID := fun e he hid =>
        hm (h.node_eq w.db.valid (Pass.mem_held_of_mem_drops hd) he hid.symm)
      obtain hsame | ⟨e, rest, hdrop, -, -, hi, -⟩ | ⟨e, he, -, hi, -⟩ :=
        hstep.row_of_mayFail hw d.userID d.inboundID
      · exact hsame.trans hrow
      · exact (hother e (by rw [hdrop]; exact List.mem_cons_self) hi).elim
      · exact (hother e (Pass.mem_held_of_mem_marks he) hi).elim
  · by_cases hm : m = n
    · subst hm
      rw [Function.update_self]
      obtain hsub | hread := hstep.drops_sublist
      · exact (h.distinct m).sublist (hsub.map _)
      · rw [hread]
        exact nodup_map_filter (hstep.nodup_read hw) _
    · rw [Function.update_of_ne hm]
      exact h.distinct m

end Condemned

/-! ## What others do to the assignments of a user -/

/-- No assignment of the user appears, and none that is no tombstone becomes one or goes. -/
structure Mild (id : ID) (t t' : Tables) : Prop where
  inbounds : t'.inbounds = t.inbounds
  appears : ∀ inboundID row', assignment t' id inboundID = some row' →
    ∃ row, assignment t id inboundID = some row
  stays : ∀ inboundID row, assignment t id inboundID = some row → row.syncStatus ≠ .removing →
    ∃ row', assignment t' id inboundID = some row' ∧ row'.syncStatus ≠ .removing

theorem Mild.of_rows {id : ID} {t t' : Tables} (hinbounds : t'.inbounds = t.inbounds)
    (hrows : ∀ inboundID, assignment t' id inboundID = assignment t id inboundID) :
    Mild id t t' where
  inbounds := hinbounds
  appears inboundID row' h := ⟨row', (hrows inboundID).symm.trans h⟩
  stays inboundID row h hs := ⟨row, (hrows inboundID).trans h, hs⟩

theorem Mild.served {id n : ID} {t t' : Tables} (h : Mild id t t') (hs : ServedOn t id n) :
    ServedOn t' id n := by
  obtain ⟨inboundID, row, hrow, hrem, i, hi, hid, hn⟩ := hs
  obtain ⟨row', hrow', hrem'⟩ := h.stays inboundID row hrow hrem
  exact ⟨inboundID, row', hrow', hrem', i, h.inbounds ▸ hi, hid, hn⟩

theorem Mild.affected {id n : ID} {ids : List ID} {t t' : Tables} (h : Mild id t t')
    (ha : Affected t' id ids n) : Affected t id ids n := by
  obtain ⟨i, hi, hn, hrow⟩ := ha
  refine ⟨i, h.inbounds ▸ hi, hn, hrow.imp_right ?_⟩
  rintro ⟨row, hrow⟩
  exact h.appears i.id row hrow

/-- A pass deletes tombstones, and what it marks is none. -/
theorem Condemned.mild {ctl : ID → Pass} {w w' : World} (h : Condemned ctl w.tables) {n : ID}
    {s : Stmt} {r : s.Res} {c : Pass} (hstep : Pass.Step n (ctl n) s r c) (hw : MayFail s w r w')
    (id : ID) : Mild id w.tables w'.tables where
  inbounds := hstep.keepsInbounds hw
  appears inboundID row' h' := by
    obtain hsame | ⟨-, -, -, -, -, -, hnone⟩ | ⟨-, -, -, -, status, errMsg, -, hmap⟩ :=
      hstep.row_of_mayFail hw id inboundID
    · exact ⟨row', hsame.symm.trans h'⟩
    · rw [hnone] at h'
      cases h'
    · rw [hmap] at h'
      obtain ⟨row, hrow, -⟩ := Option.map_eq_some_iff.1 h'
      exact ⟨row, hrow⟩
  stays inboundID row hrow hs := by
    obtain hsame | ⟨d, rest, hdrop, -, rfl, rfl, -⟩ | ⟨-, -, -, -, status, errMsg, hstatus, hmap⟩ :=
      hstep.row_of_mayFail hw id inboundID
    · exact ⟨row, hsame.trans hrow, hs⟩
    · obtain ⟨row', hrow', hs'⟩ := h.tombstone n d (by rw [hdrop]; exact List.mem_cons_self)
      rw [hrow] at hrow'
      cases hrow'
      exact (hs hs').elim
    · rw [hrow] at hmap
      exact ⟨_, hmap, hstatus⟩

end XrayApi.Worker
