import XrayApi.Service.Inbounds
import XrayApi.Worker.Undisturbed

/-!
# Accounts that belong to nobody

A pass finds the accounts it has to remove through the rows of `user_inbounds` and the tag of their
inbound. An inbound that is deleted takes its rows along, and a new tag hides the old one, so no
pass comes to the accounts under the old tag any more. `orphans_iff` says when a change of an
inbound leaves such accounts behind.
-/

set_option autoImplicit false

namespace XrayApi.Worker

open Transition Store Xray Relational Service

/-- Every account on the node is at the place of an assignment. -/
def Accounted (w : World) (n : ID) : Prop :=
  ∀ k, w.accounts n k ≠ none → Assigned w.tables n k

/-- Every account on the node is at the place of an assignment of an active user. -/
def AccountedActive (w : World) (n : ID) : Prop :=
  ∀ k, w.accounts n k ≠ none → ∃ a : Target, a.Owns w.tables n k ∧ a.user.status = .active

/-- The change leaves the inbound `i` and its tag. -/
def KeepsTag (i : Inbound) : InboundChange → Prop
  | .update _ inp => inp.tag = i.tag
  | .delete _ => False

section Change

variable {c : InboundChange} {t t' : Tables} {i : Inbound} {n : ID} {k : Key} {a : Target}

/-- The places of the assignments to other inbounds stay theirs. -/
theorem Target.Owns.of_effect (ha : a.Owns t n k) (h : c.Effect t t')
    (hid : a.row.inboundID ≠ c.id) : a.Owns t' n k where
  row := h.rows.2 a.row ha.row hid
  known := by
    refine ⟨?_, ?_⟩
    · rw [h.lookup_of_ne hid]
      exact ha.known.inbound
    · rw [h.rows.1]
      exact ha.known.user
  node := ha.node
  place := ha.place

/-- The inbound of an assignment to the changed inbound. -/
theorem Target.Owns.inbound_eq (ha : a.Owns t n k) (hi : getInbound t c.id = .ok i)
    (hid : a.row.inboundID = c.id) : a.inbound = i := by
  have hlook := ha.known.inbound
  rw [hid, getInbound_eq_ok.1 hi] at hlook
  exact (Option.some.inj hlook).symm

/-- With its tag kept, the places of the assignments to the changed inbound stay theirs. -/
theorem assigned_of_keepsTag (h : c.Effect t t') (hi : getInbound t c.id = .ok i)
    (htag : KeepsTag i c) (ha : a.Owns t n k) (hid : a.row.inboundID = c.id) :
    Assigned t' n k := by
  have hinbound := ha.inbound_eq hi hid
  have hnew := h.lookup_self hi
  cases c with
  | delete id => exact htag.elim
  | update id inp =>
      obtain ⟨i', -, -, hwrite⟩ := h
      obtain ⟨-, -, rfl⟩ := updateInbound_eq_ok hwrite
      rw [← hid] at hnew
      refine ⟨⟨a.row, inp.row i, a.user⟩, ha.row, ⟨hnew, ha.known.user⟩, ?_, ?_⟩
      · rw [← ha.node, hinbound]
        rfl
      · rw [← ha.place, hinbound]
        exact Prod.ext htag rfl

/-- Without it, the old tag is the tag of no inbound of the node. -/
theorem not_assigned_of_not_keepsTag (ht : t.Valid) (h : c.Effect t t')
    (hi : getInbound t c.id = .ok i) (htag : ¬ KeepsTag i c) (email : String) :
    ¬ Assigned t' i.nodeID (i.tag, email) := by
  rintro ⟨a, -, ⟨hinbound, -⟩, hn, hplace⟩
  have hplace : a.inbound.tag = i.tag := (Prod.mk.inj hplace).1
  by_cases hid : a.row.inboundID = c.id
  · rw [hid, h.lookup_self hi] at hinbound
    cases c with
    | delete id => cases hinbound
    | update id inp =>
        rw [← Option.some.inj hinbound] at hplace
        exact htag hplace
  · -- another inbound of the node would have had the same tag before
    rw [h.lookup_of_ne hid] at hinbound
    have hsame : a.inbound = i := List.inj_on_of_nodup_map ht.inbounds_tag (mem_of_lookup hinbound)
      (mem_of_lookup (getInbound_eq_ok.1 hi)) (Prod.ext hn hplace)
    rw [hsame] at hinbound
    exact hid ((key_of_lookup hinbound).symm.trans (getInbound_id hi))

end Change

/-- The accounts of a node are those of assignments. An inbound of the node is updated or deleted,
and a complete pass follows. Then every account on the node is that of an assignment of an active
user, exactly when the tag was kept or the node had no account under it. -/
theorem orphans_iff {c : InboundChange} {w w₁ w₂ : World} {i : Inbound}
    {tr : List (Event Stmt Stmt.Res)} (hi : getInbound w.tables c.id = .ok i)
    (hown : Accounted w i.nodeID) (hc : Returns c.service w () w₁)
    (hpass : Runs Answers Eq (reconcile i.nodeID).prog w₁ tr (.ok ()) w₂) :
    AccountedActive w₂ i.nodeID ↔
      KeepsTag i c ∨ ∀ email, w.accounts i.nodeID (i.tag, email) = none := by
  have heffect := InboundChange.effect_of_returns hc
  have hacct : w₁.accounts = w.accounts := by
    have hrun := accounts_of_run c.offNode w
    rwa [show c.service.run exec w = (.ok (), w₁) from hc] at hrun
  constructor
  · intro hend
    by_cases htag : KeepsTag i c
    · exact Or.inl htag
    · -- nothing is assigned under the old tag, so what was there is there still
      refine Or.inr fun email => ?_
      by_contra hne
      have hfree := not_assigned_of_not_keepsTag w.db.valid heffect hi htag email
      have hkept := undisturbed_frame hpass hfree
      rw [hacct] at hkept
      rw [← hkept] at hne
      obtain ⟨a, ha, -⟩ := hend _ hne
      exact hfree ((undisturbed_shrinks hpass).assigned ⟨a, ha⟩)
  · intro hcond k hk
    by_cases hassigned : Assigned w₁.tables i.nodeID k
    · obtain ⟨a, ha⟩ := hassigned
      obtain ⟨-, hnone⟩ | ⟨hdue, -⟩ := Target.undisturbed hpass ha
      · exact (hk hnone).elim
      · obtain ⟨r, -, hr⟩ := ha.after hpass hdue
        refine ⟨_, hr, ?_⟩
        unfold Target.Due at hdue
        push Not at hdue
        exact hdue.2
    · -- the account was there before, at the place of an assignment to the changed inbound
      rw [undisturbed_frame hpass hassigned, hacct] at hk
      obtain ⟨a, ha⟩ := hown k hk
      have hid : a.row.inboundID = c.id := by
        by_contra hne
        exact hassigned ⟨a, ha.of_effect heffect hne⟩
      obtain htag | hnone := hcond
      · exact (hassigned (assigned_of_keepsTag heffect hi htag ha hid)).elim
      · rw [← ha.place, ha.inbound_eq hi hid] at hk
        exact (hk (hnone _)).elim

/-! ## A deleted inbound -/

/-- An active user on an inbound. -/
def served : Target := ⟨⟨"u1", "i1", .applied, ""⟩, .plain "i1" "n1" "in1" .vless,
  .plain "u1" "a@example.com"⟩

/-- The user's account is on the node. -/
def servedWorld : World :=
  (World.still ⟨Tables.assigned served.inbound served.user .applied,
    Tables.assigned_valid _ _ _ rfl⟩).setAccount "n1" ("in1", "a@example.com")
      (some ⟨"a@example.com", .vless "u1" ""⟩)

theorem served_owns : served.Owns servedWorld.tables "n1" ("in1", "a@example.com") :=
  ⟨List.mem_singleton.2 rfl, ⟨rfl, rfl⟩, rfl, rfl⟩

theorem servedWorld_accounted : Accounted servedWorld "n1" := by
  intro k hk
  have heq : k = ("in1", "a@example.com") := by
    by_contra hne
    refine hk ?_
    unfold servedWorld
    rw [World.accounts_setAccount, Function.update_of_ne hne]
    rfl
  rw [heq]
  exact ⟨served, served_owns⟩

/-- A new flow for the inbound. -/
def newFlow : InboundChange :=
  .update "i1" ⟨"in1", .vless, 443, "n1", 443, .tcp, .reality, "", "", "", "", "", "", "",
    "xtls-rprx-vision", "", "", ""⟩

theorem orphans_iff_newFlow :
    ∃ w₁ tr w₂, Returns newFlow.service servedWorld () w₁ ∧
      Runs Answers Eq (reconcile "n1").prog w₁ tr (.ok ()) w₂ ∧ AccountedActive w₂ "n1" := by
  have hc : Returns newFlow.service servedWorld () (newFlow.service.run exec servedWorld).2 := rfl
  obtain ⟨tr, hpass⟩ := pass_of_run (n := "n1") (w := (newFlow.service.run exec servedWorld).2) rfl
  have hiff := orphans_iff (i := served.inbound) rfl servedWorld_accounted hc hpass
  exact ⟨_, tr, _, hc, hpass, hiff.2 (Or.inl rfl)⟩

/-- After the deletion of the inbound and a pass, the account is still on the node. -/
theorem account_of_deleted_inbound :
    Accounted servedWorld "n1" ∧
      ∃ w₁ tr w₂, Returns (InboundChange.delete "i1").service servedWorld () w₁ ∧
        Runs Answers Eq (reconcile "n1").prog w₁ tr (.ok ()) w₂ ∧
        w₂.accounts "n1" ("in1", "a@example.com") = some ⟨"a@example.com", .vless "u1" ""⟩ ∧
        w₂.tables.inbounds = [] ∧ ¬ AccountedActive w₂ "n1" := by
  have hc : Returns (InboundChange.delete "i1").service servedWorld ()
      ((InboundChange.delete "i1").service.run exec servedWorld).2 := rfl
  obtain ⟨tr, hpass⟩ := pass_of_run (n := "n1")
    (w := ((InboundChange.delete "i1").service.run exec servedWorld).2) rfl
  refine ⟨servedWorld_accounted, _, tr, _, hc, hpass, rfl, rfl, fun h => ?_⟩
  obtain ⟨a, ⟨hrow, -, -, -⟩, -⟩ := h ("in1", "a@example.com") (Option.some_ne_none _)
  cases hrow

end XrayApi.Worker
