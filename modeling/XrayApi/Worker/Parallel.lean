import XrayApi.Transition.Erase
import XrayApi.Worker.Fleet
import XrayApi.Worker.Passing

/-!
# Passes side by side

Every node has its own actor, so passes on different nodes run at the same time. A pass leaves the
parts of the other nodes alone (`Passing.others`), and its own part ends as `settle` says, whether
it began in the part as it was at first or in one that an earlier pass has settled. Any number of
passes on any nodes, in any interleaving, therefore lead to the world in which the nodes that ran
are settled one after the other.
-/

set_option autoImplicit false

namespace XrayApi.Worker

open Transition Store Xray Relational

/-- The nodes settled one after the other. -/
def settleAll (ns : List ID) (w : World) : World :=
  ns.foldl (fun v n => settle n v) w

theorem thins_settleAll (ns : List ID) (w : World) : Thins w (settleAll ns w) := by
  induction ns generalizing w with
  | nil => exact Thins.refl w
  | cons m ns ih => exact (thins_settle m w).trans (ih (settle m w))

theorem sameAt_settleAll_of_not_mem {n : ID} {ns : List ID} (hn : n ∉ ns) (w : World) :
    SameAt n w (settleAll ns w) := by
  induction ns generalizing w with
  | nil => exact SameAt.refl n w
  | cons m ns ih =>
      rw [List.mem_cons, not_or] at hn
      exact (sameAt_settle hn.1 w).trans (ih hn.2 (settle m w))

theorem sameAt_settleAll_of_mem {n : ID} {ns : List ID} (hn : n ∈ ns) (w : World) :
    SameAt n (settle n w) (settleAll ns w) := by
  induction ns generalizing w with
  | nil => cases hn
  | cons m ns ih =>
      by_cases hmem : n ∈ ns
      · have hrest := ih hmem (settle m w)
        by_cases hm : n = m
        · subst hm
          rw [settle_settle] at hrest
          exact hrest
        · exact (sameAt_settle hm w).settle.trans hrest
      · obtain rfl := (List.mem_cons.1 hn).resolve_right hmem
        exact sameAt_settleAll_of_not_mem hmem (settle n w)

section Parallel

variable {w : World}

/-- The node has started a pass. -/
def Started (ls : List FleetAct) (n : ID) : Prop := ∃ q, Act.start (.actor n) q ∈ ls

/-- A node while passes run on many nodes: it has not started, or it is in a pass that began in the
part it had at first, or in the settled one. -/
def Tended (w : World) (ls : List FleetAct) (C : Crew) (n : ID) : Prop :=
  (¬ Started ls n ∧ C.ctl n = .done (.ok ()) ∧ SameAt n w C.world) ∨
    (Started ls n ∧ ∃ b, (SameAt n w b ∨ SameAt n (settle n w) b) ∧ Passing n b (C.ctl n) C.world)

theorem SameAt.unbuildable {n : ID} {b : World} (h : SameAt n w b)
    (hb : Unbuildable b.tables n) : Unbuildable w.tables n := by
  obtain ⟨d, hd, hno⟩ := hb
  obtain ⟨a, ha, hdue, rfl⟩ := mem_desiredForNode.1 hd
  exact ⟨a.desired, mem_desiredForNode.2 ⟨a, h.symm.owns ha, hdue, rfl⟩, hno⟩

/-- A pass that has ended left the settled part. -/
theorem Tended.settled {ls : List FleetAct} {C : Crew} {n : ID} {a : Except Err Unit}
    (hbuild : ¬ Unbuildable w.tables n) (h : Tended w ls C n) (hstart : Started ls n)
    (hdone : C.ctl n = .done a) : SameAt n (settle n w) C.world := by
  obtain ⟨hno, -⟩ | ⟨-, b, hb, hpass⟩ := h
  · exact (hno hstart).elim
  rw [hdone] at hpass
  have hbuilt : ¬ Unbuildable b.tables n := by
    intro hub
    obtain hb | hb := hb
    · exact hbuild (hb.unbuildable hub)
    · exact hbuild (unbuildable_of_settle (hb.unbuildable hub))
  cases a with
  | error e => exact (hbuilt (hpass.failed trivial)).elim
  | ok u =>
      -- a second pass settles what is settled
      obtain hb | hb := hb
      · exact hb.settle.trans hpass.settled
      · have hagain := hb.settle
        rw [settle_settle] at hagain
        exact hagain.trans hpass.settled

theorem started_snoc {ls : List FleetAct} {l : FleetAct} {n : ID} (h : Started ls n) :
    Started (ls ++ [l]) n := by
  obtain ⟨q, hq⟩ := h
  exact ⟨q, List.mem_append_left _ hq⟩

theorem not_started_snoc {ls : List FleetAct} {l : FleetAct} {n : ID} (h : ¬ Started ls n)
    (hl : ∀ q, l ≠ .start (.actor n) q) : ¬ Started (ls ++ [l]) n := by
  rintro ⟨q, hq⟩
  obtain hq | hq := List.mem_append.1 hq
  · exact h ⟨q, hq⟩
  · exact hl q (List.mem_singleton.1 hq).symm

/-- A step that leaves the part of the node and its actor alone. -/
theorem Tended.frame {ls : List FleetAct} {l : FleetAct} {C D : Crew} {n : ID}
    (h : Tended w ls C n) (hl : ∀ q, l ≠ .start (.actor n) q) (hctl : D.ctl n = C.ctl n)
    (hsame : SameAt n C.world D.world) : Tended w (ls ++ [l]) D n := by
  obtain ⟨hno, hdone, hw⟩ | ⟨hstart, b, hb, hpass⟩ := h
  · exact Or.inl ⟨not_started_snoc hno hl, hctl.trans hdone, hw.trans hsame⟩
  · refine Or.inr ⟨started_snoc hstart, b, hb, ?_⟩
    rw [hctl]
    exact hpass.rely hsame

theorem tended_step {ls : List FleetAct} {l : FleetAct} {C D : Crew}
    (hbuild : ∀ n, ¬ Unbuildable w.tables n)
    (h : Thins w C.world ∧ ∀ n, Tended w ls C n)
    (hstep : Crew.Step Answers (fun _ => False) C l D) :
    Thins w D.world ∧ ∀ n, Tended w (ls ++ [l]) D n := by
  obtain ⟨hthin, hall⟩ := h
  cases hstep with
  | @pass _ n s r hp hsem hother =>
      obtain ⟨-, hdone, -⟩ | ⟨hstart, b, hb, hpass⟩ := hall n
      · -- a pass that has ended takes no step
        rw [hdone] at hp
        cases hp
      refine ⟨hthin.trans (hp.thins hsem), fun m => ?_⟩
      by_cases hm : m = n
      · subst hm
        exact Or.inr ⟨started_snoc hstart, b, hb, hpass.step hp hsem⟩
      · exact (hall m).frame (by simp) (hother m hm) (hpass.others hp hsem hm)
  | @begins _ n q a hdone hdial hw hother =>
      refine ⟨hw ▸ hthin, fun m => ?_⟩
      by_cases hm : m = n
      · subst hm
        refine Or.inr ⟨⟨q, List.mem_append_right _ (List.mem_singleton.2 rfl)⟩, C.world, ?_, ?_⟩
        · by_cases hstart : Started ls m
          · exact Or.inr ((hall m).settled (hbuild m) hstart hdone)
          · obtain ⟨-, -, hsame⟩ | ⟨hyes, -⟩ := hall m
            · exact Or.inl hsame
            · exact (hstart hyes).elim
        · rw [hdial, hw]
          exact Passing.dial (SameAt.refl m C.world)
      · refine (hall m).frame (fun q' hq' => ?_) (hother m hm) (hw ▸ SameAt.refl m _)
        cases hq'
        exact hm rfl
  | request hfalse => exact hfalse.elim
  | opens => exact ⟨hthin, fun m => (hall m).frame (by simp) rfl (SameAt.refl m _)⟩

/-- When every actor is between passes, the part of a node is settled if the node has started a
pass, and as it was at first if it has not. -/
theorem fleet_settled {ls : List FleetAct} {Q : Fleet}
    (hbuild : ∀ n, ∀ d ∈ desiredForNode w.tables n, ∃ user, buildUser (accountFor d) = .ok user)
    (h : Path (Pool.Step Answers Fleet.passes) (Fleet.idle w) ls Q)
    (hidle : ∀ n, ∃ a, Q.prog (.actor n) = .ret a) :
    Thins w Q.world ∧ ∀ n, (Started ls n → SameAt n (settle n w) Q.world) ∧
      (¬ Started ls n → SameAt n w Q.world) := by
  have hbuild' : ∀ n, ¬ Unbuildable w.tables n := by
    rintro n ⟨d, hd, hno⟩
    obtain ⟨user, hb⟩ := hbuild n d hd
    exact hno user hb
  have hsim : ∀ (P : Fleet) (l : FleetAct) (Q : Fleet) (C : Crew), P.Shows (fun _ => False) C →
      Pool.Step Answers Fleet.passes P l Q →
      ∃ D, Crew.Step Answers (fun _ => False) C l D ∧ Q.Shows (fun _ => False) D :=
    fun P l Q C hPC hstep => hPC.step (fun _ _ hp => hp) (fun _ _ hp => hp.elim) hstep
  obtain ⟨C, hrun, hC⟩ := h.simulate_same hsim (Fleet.shows_idle (fun _ => False) w)
  have hstart : ∀ n, Tended w [] ⟨w, fun _ => .done (.ok ())⟩ n := by
    intro n
    refine Or.inl ⟨?_, rfl, SameAt.refl n w⟩
    rintro ⟨q, hq⟩
    cases hq
  obtain ⟨hthin, hall⟩ := hrun.history
    (I := fun ls C => Thins w C.world ∧ ∀ n, Tended w ls C n)
    (fun ls C l D hI hstep => tended_step hbuild' hI hstep) ⟨Thins.refl w, hstart⟩
  rw [hC.world]
  refine ⟨hthin, fun n => ⟨fun hn => ?_, fun hn => ?_⟩⟩
  · obtain ⟨a, ha⟩ := hidle n
    rw [hC.ctl n] at ha
    exact (hall n).settled (hbuild' n) hn (Pass.prog_eq_ret ha)
  · obtain ⟨-, -, hsame⟩ | ⟨hyes, -⟩ := hall n
    · exact hsame
    · exact (hn hyes).elim

/-- Any number of passes on any nodes, in any interleaving of their statements and with any order of
the rows they read, lead to the world in which the nodes that ran are settled one after the other,
in whatever order. -/
theorem passes_settle {ls : List FleetAct} {Q : Fleet} {ns : List ID}
    (hbuild : ∀ n, ∀ d ∈ desiredForNode w.tables n, ∃ user, buildUser (accountFor d) = .ok user)
    (h : Path (Pool.Step Answers Fleet.passes) (Fleet.idle w) ls Q)
    (hidle : ∀ n, ∃ a, Q.prog (.actor n) = .ret a)
    (hns : ∀ n, n ∈ ns ↔ ∃ p, Act.start (.actor n) p ∈ ls) :
    Q.world = settleAll ns w := by
  obtain ⟨hthin, hall⟩ := fleet_settled hbuild h hidle
  refine Thins.eq_of_sameAt hthin (thins_settleAll ns w) fun n => SameAt.symm ?_
  by_cases hn : n ∈ ns
  · exact (sameAt_settleAll_of_mem hn w).symm.trans ((hall n).1 ((hns n).1 hn))
  · refine (sameAt_settleAll_of_not_mem hn w).symm.trans ((hall n).2 fun hyes => ?_)
    exact hn ((hns n).2 hyes)

end Parallel

/-- The actors that took no step are idle. -/
theorem Fleet.idle_of_threads {w : World} {ls : List FleetAct} {Q : Fleet} {ns : List ID}
    (h : Path (Pool.Step Answers Fleet.passes) (Fleet.idle w) ls Q)
    (hls : ∀ n, Thread.actor n ∈ ls.map Act.thread → n ∈ ns)
    (hns : ∀ n ∈ ns, ∃ r, Q.prog (.actor n) = .ret r) (n : ID) :
    ∃ r, Q.prog (.actor n) = .ret r := by
  by_cases hn : Thread.actor n ∈ ls.map Act.thread
  · exact hns n (hls n hn)
  · exact ⟨.ok (), Pool.prog_of_not_mem_threads h hn⟩

/-- Two actors take turns: a pass on the node of the new user, and one on a node without users. -/
def turns : Schedule :=
  [.start (.actor "n1") (reconcile "n1").prog, .start (.actor "n2") (reconcile "n2").prog,
    .fire (.actor "n1"), .fire (.actor "n2"), .fire (.actor "n1"), .fire (.actor "n2"),
    .fire (.actor "n1"), .fire (.actor "n2"), .fire (.actor "n1"), .fire (.actor "n1")]

theorem turns_allowed : Pool.Allowed Fleet.passes turns := by
  intro i p h
  simp only [turns, List.mem_cons, List.not_mem_nil, or_false, reduceCtorEq,
    Pool.Move.start.injEq] at h
  obtain ⟨rfl, rfl⟩ | ⟨rfl, rfl⟩ := h
  · rfl
  · rfl

/-- The two passes settle both nodes. -/
theorem passes_settle_turns :
    (Pool.play exec turns (Fleet.idle notSynced)).2.world = settleAll ["n2", "n1"] notSynced := by
  have hpath := Pool.play_path_of_exec answers_exec turns_allowed (Fleet.idle notSynced)
  have hthreads : (Pool.play exec turns (Fleet.idle notSynced)).1.map Act.thread =
      [.actor "n1", .actor "n2", .actor "n1", .actor "n2", .actor "n1", .actor "n2",
        .actor "n1", .actor "n2", .actor "n1", .actor "n1"] := rfl
  have hmem : ∀ n, Thread.actor n ∈
      (Pool.play exec turns (Fleet.idle notSynced)).1.map Act.thread → n ∈ ["n2", "n1"] := by
    intro n hn
    rw [hthreads] at hn
    simp only [List.mem_cons, Thread.actor.injEq, List.not_mem_nil] at hn ⊢
    tauto
  refine passes_settle (fun n d hd => ?_) hpath (Fleet.idle_of_threads hpath hmem fun n hn => ?_)
    fun n => ⟨fun hn => ?_, ?_⟩
  · -- the only account to push is that of the new user
    obtain ⟨a, ha, -, rfl⟩ := mem_desiredForNode.1 hd
    have hinbound : a.inbound = newlySold.inbound :=
      List.mem_singleton.1 (mem_of_lookup ha.known.inbound)
    have huser : a.user = newlySold.user := List.mem_singleton.1 (mem_of_lookup ha.known.user)
    have hacc : accountFor a.desired = accountFor newlySold.desired := by
      unfold accountFor Target.desired desiredRow
      rw [hinbound, huser]
    rw [hacc]
    exact ⟨_, rfl⟩
  · simp only [List.mem_cons, List.not_mem_nil, or_false] at hn
    obtain rfl | rfl := hn
    · exact ⟨_, rfl⟩
    · exact ⟨_, rfl⟩
  · simp only [List.mem_cons, List.not_mem_nil, or_false] at hn
    obtain rfl | rfl := hn
    · exact ⟨_, List.mem_cons_of_mem _ List.mem_cons_self⟩
    · exact ⟨_, List.mem_cons_self⟩
  · rintro ⟨p, hp⟩
    exact hmem n (List.mem_map_of_mem (f := Act.thread) hp)

end XrayApi.Worker
