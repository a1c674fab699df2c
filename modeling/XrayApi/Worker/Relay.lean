import XrayApi.Worker.Tombstones
import XrayApi.Worker.Undisturbed

/-!
# Removals that do not reach the node

A `RemoveUser` call may fail on its way: the connection breaks, a proxy in front of the node
answers, a deadline passes. The client then has nothing but an error text, and `mapAlterErr` takes a
text that says `not found` or `not exist` for the node's own answer that the account is gone. The
pass goes on to delete the tombstone. `Relayed T` are the steps in which such texts are those of
`T`.
-/

set_option autoImplicit false

namespace XrayApi.Worker

open Transition Store Xray Relational

/-- The text counts as the answer that the account is not there. -/
def TakenForAbsent (text : String) : Prop :=
  (containsLower text "not found" || containsLower text "not exist") = true

instance (text : String) : Decidable (TakenForAbsent text) :=
  inferInstanceAs (Decidable (_ = true))

/-- A removal is carried out by the node, or it fails with a text of `T` and leaves the node as it
is. Other steps succeed or fail. -/
def Relayed (T : String → Prop) : Sem Stmt Stmt.Res World
  | .removeUser n tag email, w, r, w' => Answers (.removeUser n tag email) w r w' ∨
      (w' = w ∧ ∃ text, T text ∧ r = mapAlterErr (some text) .opRemove)
  | s, w, r, w' => MayFail s w r w'

theorem mapAlterErr_of_taken {text : String} (h : TakenForAbsent text) :
    mapAlterErr (some text) .opRemove = .ok () :=
  if_pos h

theorem mapAlterErr_of_not_taken {text : String} (h : ¬ TakenForAbsent text) :
    mapAlterErr (some text) .opRemove = .error (.internal ("alter inbound: " ++ text)) :=
  if_neg h

/-- If no text is taken for the answer of the node, a removal that did not reach it is an error. -/
theorem mayFail_of_relayed {T : String → Prop} (hT : ∀ text, T text → ¬ TakenForAbsent text)
    (s : Stmt) (w : World) (r : s.Res) (w' : World) (h : Relayed T s w r w') :
    MayFail s w r w' := by
  cases s with
  | removeUser n tag email =>
      obtain h | ⟨hw, text, htext, hr⟩ := h
      · exact Or.inl h
      · refine Or.inr ⟨hw, "alter inbound: " ++ text, ?_⟩
        rw [hr, mapAlterErr_of_not_taken (hT text htext)]
        rfl
  | _ => exact h

/-! ## Deletions of tombstones -/

/-- What the steps keep when removals fail openly: a pass that is about to delete a row has removed
the account of that row. -/
structure Dropping (C : Crew) : Prop where
  joined : ∀ n, ∀ d ∈ (C.ctl n).held, Joined n C.world.tables d
  removed : ∀ n d rest, C.ctl n = .drop d rest → C.world.accounts n (key d) = none

theorem dropping_idle (w : World) : Dropping ⟨w, fun _ => .done (.ok ())⟩ :=
  ⟨fun _ _ h => absurd h List.not_mem_nil, fun _ _ _ h => by cases h⟩

theorem Dropping.step {C D : Crew} {a : FleetAct} (hC : Dropping C)
    (h : Crew.Step MayFail Assigning C a D) : Dropping D where
  joined := h.joined hC.joined
  removed n d rest hp := by
    obtain hsame | ⟨-, hdial, -⟩ | ⟨s, r, -, hstep, hsem⟩ := h.ctl n
    · -- the actor stands still, and nobody else touches its node
      rw [hsame] at hp
      obtain hacct | ⟨e, rest', hp', -⟩ | ⟨e, he, -⟩ := h.account n (key d)
      · rw [hacct]
        exact hC.removed n d rest hp
      · rw [hp] at hp'
        cases hp'
      · rw [hp] at he
        cases he
    · rw [hdial] at hp
      cases hp
    · rw [hp] at hstep
      exact hstep.to_drop hsem

/-- A pass deletes the row it stands at. -/
theorem Pass.Step.drop_of_delete {n userID inboundID : ID} {p p' : Pass}
    {r : Except StoreErr Unit}
    (h : Pass.Step n p (.db (.deleteAssignment userID inboundID)) r p') :
    ∃ d rest, p = .drop d rest ∧ d.userID = userID ∧ d.inboundID = inboundID := by
  cases h with
  | dropped d rest r => exact ⟨d, rest, rfl, rfl, rfl⟩

/-- In every run of passes and of `SetInbounds` requests in which removals fail with texts of `T`,
whenever a pass deletes a tombstone, the account of the assignment is not on the node. -/
def DropsOnlyAbsent (T : String → Prop) : Prop :=
  ∀ (w : World) (as : List FleetAct) (P Q : Fleet) (n userID inboundID : ID),
    Path (Pool.Step (Relayed T) Fleet.assigning) (Fleet.idle w) as P →
    Pool.Step (Relayed T) Fleet.assigning P
      (.call (.actor n) (.db (.deleteAssignment userID inboundID)) (.ok ())) Q →
    ∀ a : Target, a.In P.world.tables → a.row.userID = userID → a.row.inboundID = inboundID →
      a.rowIn P.world = some a.row → a.row.syncStatus = .removing → a.acctIn P.world = none

/-- The fleet's steps on control points, when removals fail openly. -/
theorem dropping_of_path {T : String → Prop} (hT : ∀ text, T text → ¬ TakenForAbsent text)
    {w : World} {as : List FleetAct} {P : Fleet}
    (h : Path (Pool.Step (Relayed T) Fleet.assigning) (Fleet.idle w) as P) :
    ∃ C, P.Shows Assigning C ∧ Dropping C := by
  refine Path.invariant (I := fun P : Fleet => ∃ C, P.Shows Assigning C ∧ Dropping C) ?_ h
    ⟨_, Fleet.shows_idle Assigning w, dropping_idle w⟩
  rintro P a Q ⟨C, hPC, hC⟩ hstep
  obtain ⟨D, hD, hQD⟩ := hPC.step (fun _ _ hp => hp)
    (fun _ _ ⟨id, ids, hp⟩ => hp ▸ assignJob_assigning id ids) (hstep.mono (mayFail_of_relayed hT))
  exact ⟨D, hQD, hC.step hD⟩

theorem drops_only_absent {T : String → Prop} (hT : ∀ text, T text → ¬ TakenForAbsent text) :
    DropsOnlyAbsent T := by
  intro w as P Q n userID inboundID hpath hstep a ha huid hiid _ _
  obtain ⟨C, hPC, hC⟩ := dropping_of_path hT hpath
  obtain ⟨p', hpass, -⟩ := Fleet.actor_call hstep (hPC.ctl n)
  obtain ⟨d, rest, hp, hduid, hdiid⟩ := hpass.drop_of_delete
  have hgone := hC.removed n d rest hp
  have hjoined : Joined n C.world.tables d := by
    refine hC.joined n d ?_
    rw [hp]
    exact List.mem_cons_self
  rw [hPC.world] at ha ⊢
  obtain ⟨huser, hinbound⟩ := ha.ids
  -- the keys of the schema make the row's place that of the assignment
  obtain rfl : n = a.inbound.nodeID := hjoined.node_eq C.world.db.valid (mem_of_lookup ha.inbound)
    (hdiid.trans (hiid.symm.trans hinbound.symm))
  have hkey := (hjoined.key_iff C.world.db.valid (mem_of_lookup ha.inbound)
    (mem_of_lookup ha.user)).2 ⟨hduid.trans (huid.symm.trans huser.symm),
      hdiid.trans (hiid.symm.trans hinbound.symm)⟩
  rw [hkey] at hgone
  exact hgone

/-! ## A tombstone that is lost -/

/-- A tombstone of a user. -/
def leaving : Target := ⟨⟨"u1", "i1", .removing, ""⟩, .plain "i1" "n1" "in1" .vless,
  .plain "u1" "a@example.com"⟩

/-- The account is still on the node. -/
def leavingWorld : World :=
  (exec (.addUser "n1" "in1" (accountFor leaving.desired))
    (.still ⟨Tables.assigned leaving.inbound leaving.user .removing,
      Tables.assigned_valid _ _ _ rfl⟩)).2

/-- Removals do not reach the node, and the client believes they did. -/
def unreached : (s : Stmt) → World → s.Res × World
  | .removeUser _ _ _, w => (.ok (), w)
  | s, w => exec s w

theorem relayed_unreached {T : String → Prop} {text : String} (htext : T text)
    (h : TakenForAbsent text) (s : Stmt) (w : World) :
    Relayed T s w (unreached s w).1 (unreached s w).2 := by
  cases s with
  | removeUser n tag email => exact Or.inr ⟨rfl, text, htext, (mapAlterErr_of_taken h).symm⟩
  | _ => exact mayFail_exec _ w

/-- A pass up to the removal. -/
def toDelete : Schedule :=
  .start (.actor "n1") (reconcile "n1").prog :: List.replicate 3 (.fire (.actor "n1"))

def beforeDelete : Fleet := (Pool.play unreached toDelete (Fleet.idle leavingWorld)).2

def afterDelete : Fleet := (Pool.play unreached [.fire (.actor "n1")] beforeDelete).2

/-- With one text that is taken for the node's answer, the pass deletes the tombstone of an account
that is on the node. -/
theorem deletes_with_account {T : String → Prop} {text : String} (htext : T text)
    (h : TakenForAbsent text) :
    Path (Pool.Step (Relayed T) Fleet.assigning) (Fleet.idle leavingWorld)
        (Pool.play unreached toDelete (Fleet.idle leavingWorld)).1 beforeDelete ∧
      Pool.Step (Relayed T) Fleet.assigning beforeDelete
        (.call (.actor "n1") (.db (.deleteAssignment "u1" "i1")) (.ok ())) afterDelete := by
  refine ⟨Pool.play_path_of_exec (relayed_unreached htext h) (allowed_pass "n1" 3) _, ?_⟩
  exact ⟨_, rfl, relayed_unreached htext h _ _, rfl⟩

theorem not_dropsOnlyAbsent {T : String → Prop} {text : String} (htext : T text)
    (h : TakenForAbsent text) : ¬ DropsOnlyAbsent T := by
  intro hT
  obtain ⟨hpath, hstep⟩ := deletes_with_account htext h
  have hgone := hT _ _ _ _ _ _ _ hpath hstep leaving ⟨rfl, rfl⟩ rfl rfl rfl rfl
  have hthere : leaving.acctIn beforeDelete.world ≠ none := by decide
  exact hthere hgone

/-- Tombstones are deleted only when the account is gone exactly when no text with which a removal
may fail on its way is taken for the node's answer. -/
theorem drops_only_absent_iff (T : String → Prop) :
    DropsOnlyAbsent T ↔ ∀ text, T text → ¬ TakenForAbsent text := by
  constructor
  · exact fun h text htext htaken => not_dropsOnlyAbsent htext htaken h
  · exact drops_only_absent

/-- What a gRPC client reports when a web server answers in the node's place. -/
def proxyAnswer : String :=
  "rpc error: code = Unimplemented desc = unexpected HTTP status code received from server: 404 (Not Found)"

/-- The proxy's answer makes the pass delete the tombstone; the account stays. -/
theorem tombstone_deleted_by_proxyAnswer :
    Path (Pool.Step (Relayed (· = proxyAnswer)) Fleet.assigning) (Fleet.idle leavingWorld)
        (Pool.play unreached toDelete (Fleet.idle leavingWorld)).1 beforeDelete ∧
      assignment beforeDelete.world.tables "u1" "i1" = some ⟨"u1", "i1", .removing, ""⟩ ∧
      Pool.Step (Relayed (· = proxyAnswer)) Fleet.assigning beforeDelete
        (.call (.actor "n1") (.db (.deleteAssignment "u1" "i1")) (.ok ())) afterDelete ∧
      assignment afterDelete.world.tables "u1" "i1" = none ∧
      afterDelete.world.accounts "n1" ("in1", "a@example.com") ≠ none ∧
      ¬ DropsOnlyAbsent (· = proxyAnswer) := by
  have htaken : TakenForAbsent proxyAnswer := by decide +kernel
  obtain ⟨hpath, hstep⟩ := deletes_with_account (T := (· = proxyAnswer)) rfl htaken
  exact ⟨hpath, by decide, hstep, by decide, by decide, not_dropsOnlyAbsent rfl htaken⟩

end XrayApi.Worker
