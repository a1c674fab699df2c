import XrayApi.Worker.Wakeups

/-!
# No change goes untriggered

Operations, sweeps and collectors leave debts and pay them; here this is carried through the runs of
a panel. `Panel.Sound` is what all reachable states have in common. `Panel.Owes` says that a thread
owes a node a trigger for a user: other threads do not take away the live assignment by which the
debt will be paid, because none of them is at work on the user and passes delete tombstones only, so
the debt stands until the trigger is sent (`Panel.Owes.step`). A trigger leaves a token, and a token
stays until a pass is started with it.
-/

set_option autoImplicit false

namespace XrayApi.Worker

open Transition Store Relational

theorem Mild.refl (id : ID) (t : Tables) : Mild id t t := Mild.of_rows rfl fun _ => rfl

theorem Mild.trans {id : ID} {t t' t'' : Tables} (h : Mild id t t') (h' : Mild id t' t'') :
    Mild id t t'' where
  inbounds := h'.inbounds.trans h.inbounds
  appears inboundID row'' hrow := by
    obtain ⟨row', hrow'⟩ := h'.appears inboundID row'' hrow
    exact h.appears inboundID row' hrow'
  stays inboundID row hrow hs := by
    obtain ⟨row', hrow', hs'⟩ := h.stays inboundID row hrow hs
    exact h'.stays inboundID row' hrow' hs'

namespace Panel

variable {P Q : Panel} {ctl : ID → Pass}

/-! ## The invariant -/

/-- What holds in every reachable state, with the control points of the passes. -/
structure Sound (P : Panel) (ctl : ID → Pass) : Prop where
  apart : ∀ i, ¬ P.Idle i → P.Free i (P.users i)
  careful : ∀ j, ∃ us, (∀ id ∈ us, id ∈ P.users (.api j)) ∧ Careful us (P.prog (.api j)) P.world
  attentive : ∀ n, Attentive (P.prog (.actor n)) P.world
  rounds : ∀ n, InRound n (P.prog (.actor n)) (ctl n)
  condemned : Condemned ctl P.world.tables

theorem not_idle_of_call {i : Thread} {s : Stmt} {k : s.Res → Task} (h : P.prog i = Prog.call s k) :
    ¬ P.Idle i := by
  rintro ⟨o, ho⟩
  rw [h] at ho
  cases ho

theorem sound_idle (w : World) (fields : (n : ID) → FieldsOf n) :
    (idle w fields).Sound fun _ => .dial where
  apart i h := by
    refine (h ?_).elim
    cases i with
    | api j => exact ⟨none, rfl⟩
    | actor n => exact ⟨some (fields n).1, rfl⟩
  careful _ := ⟨[], nofun, trivial⟩
  attentive _ := trivial
  rounds n := Or.inr ⟨rfl, (fields n).1, rfl, (fields n).2⟩
  condemned := ⟨nofun, nofun, fun _ => List.nodup_nil⟩

/-- A step of one thread, which is about `us` from now on. -/
theorem Sound.update (h : P.Sound ctl) {i : Thread} {p : Task} {us : List ID} {w : World}
    {ctl' : ID → Pass} (hfree : P.Free i us)
    (hmild : ∀ j, j ≠ i → ¬ P.Idle j → ∀ id ∈ P.users j, Mild id P.world.tables w.tables)
    (hapi : ∀ j, i = .api j → ∃ us', (∀ id ∈ us', id ∈ us) ∧ Careful us' p w)
    (hactor : ∀ n, i = .actor n → Attentive p w ∧ InRound n p (ctl' n))
    (hctl : ∀ n, i ≠ .actor n → ctl' n = ctl n) (hcondemned : Condemned ctl' w.tables) :
    Sound ⟨⟨w, Function.update P.prog i p⟩, Function.update P.users i us⟩ ctl' := by
  have hidle : ∀ j, j ≠ i → P.Idle j →
      Idle ⟨⟨w, Function.update P.prog i p⟩, Function.update P.users i us⟩ j := by
    rintro j hj ⟨o, ho⟩
    exact ⟨o, (Function.update_of_ne hj _ _).trans ho⟩
  -- each part is what was assumed for the thread itself, and what held before for any other
  refine ⟨fun x hx y hy id hid hid' => ?_, fun j => ?_, fun n => ?_, fun n => ?_, hcondemned⟩
  · by_cases hxi : x = i
    · subst hxi
      simp only [Function.update_self] at hid
      simp only [Function.update_of_ne hy] at hid'
      exact hidle y hy (hfree y hy id hid hid')
    · simp only [Function.update_of_ne hxi] at hid
      have hwork : ¬ P.Idle x := fun hidle' => hx (hidle x hxi hidle')
      by_cases hyi : y = i
      · subst hyi
        simp only [Function.update_self] at hid'
        exact (hwork (hfree x hxi id hid' hid)).elim
      · simp only [Function.update_of_ne hyi] at hid'
        exact hidle y hyi (h.apart x hwork y hy id hid hid')
  · by_cases hj : Thread.api j = i
    · subst hj
      simp only [Function.update_self]
      exact hapi j rfl
    · obtain ⟨us', hsub, hcareful⟩ := h.careful j
      simp only [Function.update_of_ne hj]
      refine ⟨us', hsub, ?_⟩
      by_cases hidle' : P.Idle (.api j)
      · obtain ⟨o, ho⟩ := hidle'
        rw [ho]
        trivial
      · exact Prog.Guarantees.others
          (fun _ _ _ h h' id hid => (h id hid).trans (h' id hid)) hcareful
          fun id hid => hmild _ hj hidle' id (hsub id hid)
  · by_cases hn : Thread.actor n = i
    · subst hn
      simp only [Function.update_self]
      exact (hactor n rfl).1
    · simp only [Function.update_of_ne hn]
      exact Prog.Guarantees.others (fun _ _ _ _ _ => trivial) (h.attentive n) trivial
  · by_cases hn : Thread.actor n = i
    · subst hn
      simp only [Function.update_self]
      exact (hactor n rfl).2
    · simp only [Function.update_of_ne hn]
      rw [hctl n fun heq => hn heq.symm]
      exact h.rounds n

/-- What a step of a request is. -/
theorem Sound.pays (h : P.Sound ctl) {j : Nat} {s : Stmt} {k : s.Res → Task} {r : s.Res} {w : World}
    (hk : P.prog (.api j) = Prog.call s k) (hw : ReadsSucceed s P.world r w) :
    ∃ us, (∀ id ∈ us, id ∈ P.users (.api j)) ∧ Pays us s P.world r w (k r) ∧
      Careful us (k r) w := by
  obtain ⟨us, hsub, hcareful⟩ := h.careful j
  rw [hk] at hcareful
  obtain ⟨hpays, hrest⟩ := hcareful P.world r w (fun id _ => Mild.refl id _) hw
  exact ⟨us, hsub, hpays, hrest⟩

/-- Another thread is mild with the users of a thread at work. -/
theorem Sound.mild (h : P.Sound ctl) {i : Thread} {s : Stmt} {k : s.Res → Task} {r : s.Res}
    {w : World} (hk : P.prog i = Prog.call s k) (hw : ReadsSucceed s P.world r w) {j : Thread}
    (hj : j ≠ i) (hidle : ¬ P.Idle j) {id : ID} (hid : id ∈ P.users j) :
    Mild id P.world.tables w.tables := by
  cases i with
  | api m =>
      obtain ⟨us, hsub, ⟨hs, -⟩, -⟩ := h.pays hk hw
      obtain ⟨hinbounds, hrows⟩ := hs.rows hw.1
      refine Mild.of_rows hinbounds fun inboundID => (hrows id inboundID).resolve_right ?_
      rintro ⟨hmem, -⟩
      exact not_idle_of_call hk (h.apart j hidle _ hj.symm id hid (hsub id hmem))
  | actor n =>
      have hround := h.rounds n
      rw [hk] at hround
      obtain ⟨c, -, hstep | ⟨hs, -⟩⟩ := hround.step r
      · exact h.condemned.mild hstep hw.1 id
      · obtain ⟨hrows, hinbounds⟩ := hs.keepsRows _ r w hw.1
        exact Mild.of_rows hinbounds fun _ => assignment_congr hrows

/-- Every step keeps it. -/
theorem Sound.step (h : P.Sound ctl) {a : PanelAct} (hstep : ApartStep P a Q) :
    ∃ ctl', Q.Sound ctl' := by
  obtain ⟨hstep, hapart⟩ := hstep
  cases hstep with
  | @call i s k r w hk hw =>
      have hfree : P.Free i (flipped s r ++ P.users i) := by
        intro j hj id hid hid'
        obtain hid | hid := List.mem_append.1 hid
        · exact hapart j hj id hid hid'
        · exact h.apart i (not_idle_of_call hk) j hj id hid hid'
      have hmild : ∀ j, j ≠ i → ¬ P.Idle j → ∀ id ∈ P.users j, Mild id P.world.tables w.tables :=
        fun j hj hidle id hid => h.mild hk hw hj hidle hid
      cases i with
      | api j =>
          obtain ⟨us, hsub, ⟨hs, -⟩, hrest⟩ := h.pays hk hw
          obtain ⟨hinbounds, hrows⟩ := hs.rows hw.1
          refine ⟨ctl, h.update hfree hmild ?_ nofun (fun _ _ => rfl)
            (h.condemned.of_resets hinbounds fun id inboundID => (hrows id inboundID).imp_right
              And.right)⟩
          rintro _ -
          exact ⟨us, fun id hid => List.mem_append_right _ (hsub id hid), hrest⟩
      | actor n =>
          have hround := h.rounds n
          rw [hk] at hround
          obtain ⟨c, hrest, hc⟩ := hround.step r
          have hattentive := h.attentive n
          rw [hk] at hattentive
          have hrest' := (hattentive P.world r w trivial hw).2
          refine ⟨Function.update ctl n c, h.update hfree hmild nofun ?_ ?_ ?_⟩
          · intro m hm
            cases hm
            rw [Function.update_self]
            exact ⟨hrest', hrest⟩
          · intro m hm
            exact Function.update_of_ne (fun heq => hm (congrArg Thread.actor heq.symm)) _ _
          · obtain hpass | ⟨hs, rfl⟩ := hc
            · exact h.condemned.step hpass hw.1
            · obtain ⟨hrows, hinbounds⟩ := hs.keepsRows _ r w hw.1
              exact (h.condemned.of_resets hinbounds fun _ _ =>
                Or.inl (assignment_congr hrows)).enter n rfl
  | @begins j op o hret =>
      -- `hapart`: nobody else is at work on the users of the new request
      refine ⟨ctl, h.update hapart (fun _ _ _ _ _ => Mild.refl _ _) ?_ nofun (fun _ _ => rfl)
        h.condemned⟩
      rintro _ -
      exact ⟨op.users, fun _ => id, careful_task P.world op⟩
  | @select n rd a hret hready =>
      have htables : (receive P.world n rd).tables = P.world.tables := by cases rd <;> rfl
      have hround := h.rounds n
      rw [hret] at hround
      obtain ⟨_, ha, hid⟩ := hround.ret
      cases ha
      refine ⟨Function.update ctl n .dial, h.update nofun ?_ nofun ?_ ?_ ?_⟩
      · intro _ _ _ id _
        rw [htables]
        exact Mild.refl id _
      · intro m hm
        cases hm
        rw [Function.update_self]
        exact ⟨attentive_task a rd _, inRound_task hid rd⟩
      · intro m hm
        exact Function.update_of_ne (fun heq => hm (congrArg Thread.actor heq.symm)) _ _
      · rw [htables]
        exact h.condemned.enter n rfl
  | @nodes w hdb hch =>
      have htables : w.tables = P.world.tables := congrArg Database.tables hdb
      refine ⟨ctl, h.apart, fun j => ?_, fun n => ?_, h.rounds, ?_⟩
      · obtain ⟨us, hsub, hcareful⟩ := h.careful j
        refine ⟨us, hsub, Prog.Guarantees.others
          (fun _ _ _ h h' id hid => (h id hid).trans (h' id hid)) hcareful fun id _ => ?_⟩
        rw [htables]
        exact Mild.refl id _
      · exact Prog.Guarantees.others (fun _ _ _ _ _ => trivial) (h.attentive n) trivial
      · rw [htables]
        exact h.condemned

/-! ## Debts -/

/-- The thread owes the node a trigger for this user. -/
def Owes (P : Panel) (i : Thread) (id n : ID) : Prop :=
  Debt id n P.world (P.prog i) ∧ id ∈ P.users i

theorem Owes.not_idle {i : Thread} {id n : ID} (h : P.Owes i id n) : ¬ P.Idle i := by
  rintro ⟨o, ho⟩
  obtain ⟨h, -⟩ := h
  rw [ho] at h
  obtain h | ⟨-, -, h⟩ := h
  · exact not_triggers_ret o h
  · exact not_triggers_ret o h

/-- The list of targets of a user has the nodes where the user has a live assignment. -/
theorem lists_of_served {id n : ID} {s : Stmt} {r : s.Res} {w w' : World}
    (hw : ReadsSucceed s w r w') (hserved : ServedOn w.tables id n) : Lists id n s r := by
  unfold Lists
  split
  · rintro rfl
    obtain ⟨ts, rfl, hrows, -⟩ := answers_db_of_ok rfl (hw.2 rfl)
    obtain ⟨inboundID, row, hrow, -, i, hi, rfl, rfl⟩ := hserved
    have hreach : Affected w.tables _ [] i.nodeID := ⟨i, hi, rfl, Or.inr ⟨row, hrow⟩⟩
    obtain hmem | hmem := mem_nodes_of_affected w.db.valid hreach
    · obtain ⟨d, hd, hn⟩ := List.mem_map.1 hmem
      exact ⟨ts, rfl, d, (List.Perm.mem_iff hrows).2 hd, hn⟩
    · obtain ⟨j, hj, -⟩ := List.mem_map.1 hmem
      exact absurd (of_decide_eq_true (List.mem_filter.1 hj).2) List.not_mem_nil
  · trivial

/-- A debt stands until its trigger is sent. -/
theorem Owes.step {i : Thread} {id n : ID} (h : P.Owes i id n) (hsound : P.Sound ctl) {a : PanelAct}
    (hstep : Step P a Q) : Q.Owes i id n ∨ a = .call i (.trigger n) () := by
  have hidle := h.not_idle
  obtain ⟨hdebt, hid⟩ := h
  -- steps of other threads keep the live assignment
  have hother : ∀ {j : Thread} {p : Task} {us : List ID} {w : World}, i ≠ j →
      Mild id P.world.tables w.tables →
      Owes ⟨⟨w, Function.update P.prog j p⟩, Function.update P.users j us⟩ i id n := by
    intro j p us w hij hmild
    simp only [Owes, Function.update_of_ne hij]
    exact ⟨hdebt.imp_right (And.imp_left hmild.served), hid⟩
  cases hstep with
  | @call j s k r w hk hw =>
      by_cases hij : i = j
      · subst hij
        rw [hk] at hdebt
        have hid' : id ∈ Function.update P.users i (flipped s r ++ P.users i) i := by
          rw [Function.update_self]
          exact List.mem_append_right _ hid
        have hsent : s = .trigger n → PanelAct.call i s r = .call i (.trigger n) () := by
          rintro rfl
          rfl
        obtain h | ⟨hserved, hwaking, h⟩ := hdebt
        · obtain hs | h := h
          · exact Or.inr (hsent hs)
          · refine Or.inl ⟨Or.inl ?_, hid'⟩
            simp only [Function.update_self]
            exact h r trivial
        · obtain hs | h := h
          · exact Or.inr (hsent hs)
          · refine Or.inl ⟨Or.inr ⟨?_, ?_⟩, hid'⟩
            · rw [hwaking.1.readsOnly _ r w hw.1]
              exact hserved
            · simp only [Function.update_self]
              exact ⟨hwaking.2 r, h r (lists_of_served hw hserved)⟩
      · exact Or.inl (hother hij (hsound.mild hk hw hij hidle hid))
  | @begins j op o hret =>
      have hij : i ≠ .api j := by
        rintro rfl
        exact hidle ⟨o, hret⟩
      exact Or.inl (hother hij (Mild.refl id _))
  | @select m rd a hret hready =>
      have hij : i ≠ .actor m := by
        rintro rfl
        exact hidle ⟨some a, hret⟩
      refine Or.inl (hother hij ?_)
      cases rd <;> exact Mild.refl id _
  | nodes hdb hch =>
      refine Or.inl ⟨hdebt.imp_right (And.imp_left fun hserved => ?_), hid⟩
      rw [World.tables, hdb]
      exact hserved

/-! ## Tokens -/

/-- What a step does to a channel, unless it starts or stops an actor. -/
theorem channel_of_mayFail {s : Stmt} {r : s.Res} {w w' : World} (h : MayFail s w r w')
    (hstart : ∀ node, s ≠ .startNode node) (hstop : ∀ m, s ≠ .stopNode m) (n : ID) :
    w'.reconcileCh n = w.reconcileCh n ∨
      w'.reconcileCh n = (w.reconcileCh n).map fun _ => true := by
  cases s with
  | db q => exact Or.inl (congrFun (mayFail_db_reconcileCh h) n)
  | startNode node => exact (hstart node rfl).elim
  | stopNode m => exact (hstop m rfl).elim
  | trigger m =>
      obtain h | ⟨-, hr⟩ := mayFail_cases h
      · cases h
        by_cases hn : n = m
        · subst hn
          exact Or.inr (Function.update_self _ _ _)
        · exact Or.inl (Function.update_of_ne hn _ _)
      · cases hr
  | _ =>
      obtain h | ⟨rfl, -⟩ := mayFail_cases h
      · cases h
        exact Or.inl rfl
      · exact Or.inl rfl

theorem ofPass_of_step {n : ID} {p p' : Pass} {s : Stmt} {r : s.Res} (h : Pass.Step n p s r p') :
    OfPass s := by
  cases h <;> trivial

/-- The threads start and stop no actor. -/
theorem Sound.not_manager (h : P.Sound ctl) {i : Thread} {s : Stmt} {k : s.Res → Task} {r : s.Res}
    {w : World} (hk : P.prog i = Prog.call s k) (hw : ReadsSucceed s P.world r w) :
    (∀ node, s ≠ .startNode node) ∧ ∀ m, s ≠ .stopNode m := by
  -- none of the statement classes has a statement of the manager
  have hnot : ∀ {C : Stmt → Prop}, C s → (∀ node, ¬ C (.startNode node)) →
      (∀ m, ¬ C (.stopNode m)) → (∀ node, s ≠ .startNode node) ∧ ∀ m, s ≠ .stopNode m := by
    intro C hs hstart hstop
    refine ⟨fun node heq => ?_, fun m heq => ?_⟩
    · rw [heq] at hs
      exact hstart node hs
    · rw [heq] at hs
      exact hstop m hs
  cases i with
  | api j =>
      obtain ⟨us, -, ⟨hs, -⟩, -⟩ := h.pays hk hw
      exact hnot (C := Operating us) hs (fun _ => id) fun _ => id
  | actor n =>
      have hround := h.rounds n
      rw [hk] at hround
      obtain ⟨c, -, hstep | ⟨hs, -⟩⟩ := hround.step r
      · exact hnot (C := OfPass) (ofPass_of_step hstep) (fun _ => id) fun _ => id
      · exact hnot (C := Tending) hs (fun _ => id) fun _ => id

/-- A channel is left alone or filled, or a pass is started with its token. -/
theorem Sound.channel (h : P.Sound ctl) {a : PanelAct} (hstep : Step P a Q) (n : ID) :
    Q.world.reconcileCh n = P.world.reconcileCh n ∨
      Q.world.reconcileCh n = ((P.world.reconcileCh n).map fun _ => true) ∨
      (a = .select n .triggered ∧ Q.world.reconcileCh n = some false) := by
  cases hstep with
  | @call i s k r w hk hw =>
      obtain ⟨hstart, hstop⟩ := h.not_manager hk hw
      exact (channel_of_mayFail hw.1 hstart hstop n).imp_right Or.inl
  | begins hret => exact Or.inl rfl
  | @select m rd a hret hready =>
      cases rd with
      | triggered =>
          by_cases hn : n = m
          · subst hn
            exact Or.inr (Or.inr ⟨rfl, Function.update_self _ _ _⟩)
          · exact Or.inl (Function.update_of_ne hn _ _)
      | _ => exact Or.inl rfl
  | nodes hdb hch => exact Or.inl (congrFun hch n)

theorem Sound.channel_ne_none (h : P.Sound ctl) {a : PanelAct} (hstep : Step P a Q) {n : ID}
    (hn : P.world.reconcileCh n ≠ none) : Q.world.reconcileCh n ≠ none := by
  obtain heq | heq | ⟨-, heq⟩ := h.channel hstep n
  · rw [heq]
    exact hn
  · rw [heq]
    exact fun hnone => hn (Option.map_eq_none_iff.1 hnone)
  · rw [heq]
    exact Option.some_ne_none _

/-- A token stays until a pass is started with it. -/
theorem Sound.token (h : P.Sound ctl) {a : PanelAct} (hstep : Step P a Q) {n : ID}
    (htoken : P.world.reconcileCh n = some true) :
    Q.world.reconcileCh n = some true ∨ a = .select n .triggered := by
  obtain heq | heq | ⟨hselect, -⟩ := h.channel hstep n
  · exact Or.inl (heq.trans htoken)
  · rw [htoken] at heq
    exact Or.inl heq
  · exact Or.inr hselect

/-- A trigger leaves a token. -/
theorem Step.token_of_trigger {i : Thread} {n : ID} (hstep : Step P (.call i (.trigger n) ()) Q)
    (hn : P.world.reconcileCh n ≠ none) : Q.world.reconcileCh n = some true := by
  cases hstep with
  | @call _ _ k _ w hk hw =>
      obtain h | ⟨-, hr⟩ := mayFail_cases hw.1
      · cases h
        obtain ⟨b, hb⟩ := Option.ne_none_iff_exists'.1 hn
        refine (Function.update_self _ _ _).trans ?_
        rw [hb]
        rfl
      · cases hr

/-! ## The runs -/

/-- The node has its token, or a pass has been started with one. -/
def Roused (n : ID) (as : List PanelAct) (P : Panel) : Prop :=
  P.world.reconcileCh n = some true ∨ .select n .triggered ∈ as

theorem Roused.step {n : ID} {as : List PanelAct} (h : Roused n as P) (hsound : P.Sound ctl)
    {a : PanelAct} (hstep : Step P a Q) : Roused n (as ++ [a]) Q := by
  obtain htoken | hmem := h
  · obtain htoken | rfl := hsound.token hstep htoken
    · exact Or.inl htoken
    · exact Or.inr (List.mem_append_right _ (List.mem_singleton.2 rfl))
  · exact Or.inr (List.mem_append_left _ hmem)

/-- The thread owes the node a trigger until it is roused. -/
def Covered (i : Thread) (id n : ID) (as : List PanelAct) (P : Panel) : Prop :=
  (P.world.reconcileCh n ≠ none ∧ P.Owes i id n) ∨ Roused n as P

theorem Covered.step {i : Thread} {id n : ID} {as : List PanelAct} (h : Covered i id n as P)
    (hsound : P.Sound ctl) {a : PanelAct} (hstep : Step P a Q) : Covered i id n (as ++ [a]) Q := by
  obtain ⟨hn, howes⟩ | hroused := h
  · obtain howes | rfl := howes.step hsound hstep
    · exact Or.inl ⟨hsound.channel_ne_none hstep hn, howes⟩
    · exact Or.inr (Or.inl (hstep.token_of_trigger hn))
  · exact Or.inr (hroused.step hsound hstep)

theorem sound_of_path {bs : List PanelAct} (h : ∃ ctl, P.Sound ctl)
    (hpath : Path ApartStep P bs Q) :
    ∃ ctl, Q.Sound ctl :=
  hpath.invariant (I := fun P => ∃ ctl, P.Sound ctl) (fun _ _ _ ⟨_, h⟩ hstep => h.step hstep) h

/-- The step belongs to an operation: it is one of a request, or the commit of a collector. -/
def OfOperation (i : Thread) (s : Stmt) : Prop :=
  (∃ j, i = .api j) ∨ IsQuota s

/-- A commit that changes entries leaves a debt. -/
theorem Sound.owes_of_changed (h : P.Sound ctl) {i : Thread} {s : Stmt} {r : s.Res}
    (hstep : Step P (.call i s r) Q) (hop : OfOperation i s) {id n : ID}
    (hch : Changed id n P.world.tables Q.world.tables) : Q.Owes i id n := by
  cases hstep with
  | @call _ _ k _ w hk hw =>
      simp only [Owes, Function.update_self]
      cases i with
      | api j =>
          obtain ⟨us, hsub, ⟨-, hpays⟩, -⟩ := h.pays hk hw
          obtain ⟨hid, hdebt⟩ := hpays id n hch
          refine ⟨hdebt, ?_⟩
          obtain hid | hid := List.mem_append.1 hid
          · exact List.mem_append_left _ hid
          · exact List.mem_append_right _ (hsub id hid)
      | actor m =>
          have hquota : IsQuota s := hop.resolve_left nofun
          have hattentive := h.attentive m
          rw [hk] at hattentive
          obtain ⟨hid, hdebt⟩ := (hattentive P.world r w trivial hw).1 hquota id n hch
          exact ⟨hdebt, List.mem_append_left _ hid⟩

end Panel

/-- No change goes untriggered. A commit of an operation changes entries of a user on a node with an
actor; the operation returns, at `R`, and things go on. Then the node has its token, or its actor
has started a pass with one since the commit. -/
theorem change_triggered {w : World} {fields : (n : ID) → FieldsOf n} {P Q R S : Panel} {i : Thread}
    {s : Stmt} {r : s.Res} {before mid later : List PanelAct} {userID n : ID}
    (hbefore : Path Panel.ApartStep (.idle w fields) before P)
    (hcommit : Panel.ApartStep P (.call i s r) Q) (hop : Panel.OfOperation i s)
    (hchanged : Changed userID n P.world.tables Q.world.tables)
    (hactor : P.world.reconcileCh n ≠ none) (hmid : Path Panel.ApartStep Q mid R)
    (hreturned : R.Idle i) (hlater : Path Panel.ApartStep R later S) :
    S.world.reconcileCh n = some true ∨ .select n .triggered ∈ mid ++ later := by
  obtain ⟨ctl, hP⟩ := Panel.sound_of_path ⟨_, Panel.sound_idle w fields⟩ hbefore
  have hQ : ∃ ctl, Q.Sound ctl := hP.step hcommit
  have howes : Q.Owes i userID n := hP.owes_of_changed hcommit.1 hop hchanged
  have hcovered : (∃ ctl, R.Sound ctl) ∧ Panel.Covered i userID n mid R := by
    refine hmid.history (I := fun as P => (∃ ctl, P.Sound ctl) ∧ Panel.Covered i userID n as P) ?_
      ⟨hQ, Or.inl ⟨hP.channel_ne_none hcommit.1 hactor, howes⟩⟩
    rintro as P a Q ⟨⟨_, hsound⟩, hcovered⟩ hstep
    exact ⟨hsound.step hstep, hcovered.step hsound hstep.1⟩
  obtain ⟨hR, ⟨-, howes⟩ | hroused⟩ := hcovered
  · exact (howes.not_idle hreturned).elim
  have hS : (∃ ctl, S.Sound ctl) ∧ Panel.Roused n (mid ++ later) S := by
    refine hlater.history
      (I := fun as P => (∃ ctl, P.Sound ctl) ∧ Panel.Roused n (mid ++ as) P) ?_
      ⟨hR, by rwa [List.append_nil]⟩
    rintro as P a Q ⟨⟨_, hsound⟩, hroused⟩ hstep
    rw [← List.append_assoc]
    exact ⟨hsound.step hstep, hroused.step hsound hstep.1⟩
  exact hS.2

/-! ## A run -/

/-- The next statement of a thread, executed. -/
def Panel.fire (P : Panel) (i : Thread) : Panel :=
  match P.prog i with
  | .ret _ => P
  | .call s k => ⟨⟨(exec s P.world).2, Function.update P.prog i (k (exec s P.world).1)⟩,
      Function.update P.users i (flipped s (exec s P.world).1 ++ P.users i)⟩

theorem Panel.fire_step {P : Panel} {i : Thread} {s : Stmt} {k : s.Res → Task}
    (hk : P.prog i = Prog.call s k) (hflipped : flipped s (exec s P.world).1 = []) :
    Panel.ApartStep P (.call i s (exec s P.world).1) (P.fire i) := by
  have hfire : P.fire i = ⟨⟨(exec s P.world).2, Function.update P.prog i (k (exec s P.world).1)⟩,
      Function.update P.users i (flipped s (exec s P.world).1 ++ P.users i)⟩ := by
    unfold Panel.fire
    rw [hk]
  rw [hfire]
  refine ⟨.call hk ⟨mayFail_exec s P.world, fun _ => answers_exec s P.world⟩, fun j _ id hid => ?_⟩
  rw [hflipped] at hid
  cases hid

/-- A user with an applied assignment on a node with an actor. -/
def watched : World :=
  { World.still ⟨Tables.assigned (.plain "i" "n" "in" .vless) (User.plain "u" "u@x") .applied,
      Tables.assigned_plain_valid _⟩ with
    reconcileCh := Function.update (fun _ => none) "n" (some false) }

/-- The user is being suspended, and nothing else runs. -/
def suspending : Panel where
  world := watched
  prog := Function.update (Panel.idle watched fun n => ⟨.new (Node.plain n), rfl⟩).prog (.api 0)
    (Op.suspend "u").task
  users := Function.update (fun _ => []) (.api 0) ["u"]

/-- After the commit the node restarts and counts some traffic. -/
def rebooting : Panel :=
  { suspending.fire (.api 0) with
    world := { (suspending.fire (.api 0)).world with
      accounts := fun _ _ => none
      traffic := fun _ => TrafficReport.merge .empty [⟨"u@x", 5, 7⟩]
      uptime := fun _ => 1 } }

/-- `Suspend` on a node that restarts meanwhile: the commit takes the user off the desired list, and
the node has its token when `Suspend` has returned. -/
theorem change_triggered_suspend :
    ∃ (Q R : Panel) (mid : List PanelAct) (r : Except StoreErr Unit),
      Path Panel.ApartStep (.idle watched fun n => ⟨.new (Node.plain n), rfl⟩)
        [.begins 0 (.suspend "u")] suspending ∧
      Panel.ApartStep suspending (.call (.api 0) (.db (.setUserStatus "u" .disabled)) r) Q ∧
      Changed "u" "n" watched.tables Q.world.tables ∧ Path Panel.ApartStep Q mid R ∧
      R.Idle (.api 0) ∧ (R.world.reconcileCh "n" = some true ∨
        .select "n" .triggered ∈ mid ++ []) := by
  have hbegins : Panel.ApartStep (.idle watched fun n => ⟨.new (Node.plain n), rfl⟩)
      (.begins 0 (.suspend "u")) suspending := ⟨.begins rfl, fun _ _ _ _ h => nomatch h⟩
  have hcommit := Panel.fire_step (P := suspending) (i := .api 0)
    (s := .db (.setUserStatus "u" .disabled)) rfl rfl
  have hmid : Path Panel.ApartStep (suspending.fire (.api 0)) _
      (((rebooting.fire (.api 0)).fire (.api 0)).fire (.api 0)) :=
    .cons (t := rebooting) ⟨.nodes rfl rfl, trivial⟩
      (.cons (Panel.fire_step (s := .db (.assignmentTargetsForUser "u")) rfl rfl)
        (.cons (Panel.fire_step (s := .trigger "n") rfl rfl)
          (.single (Panel.fire_step (s := .db (.getUser "u")) rfl rfl))))
  have hchanged : Changed "u" "n" watched.tables (suspending.fire (.api 0)).world.tables := by
    refine ⟨desiredRow ⟨"u", "i", .applied, ""⟩ (.plain "i" "n" "in" .vless) (.plain "u" "u@x"),
      rfl, Or.inl ?_⟩
    decide
  refine ⟨_, _, _, _, .single hbegins, hcommit, hchanged, hmid, ⟨none, rfl⟩, ?_⟩
  exact change_triggered (.single hbegins) hcommit (Or.inl ⟨0, rfl⟩) hchanged
    (by decide) hmid ⟨none, rfl⟩ (.nil _)

end XrayApi.Worker
