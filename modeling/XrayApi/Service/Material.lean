import XrayApi.Service.Mirror

/-!
# Stored TLS material

A creation and an update merge the PEM texts of the payload into a row, check the merged row and
write it as a whole, so no interleaving can store a certificate and a key that were not checked
together: `Desk.Safe` is the invariant and `Desk.Safe.step` its step. A row that was written is read
back, which cannot fail while rows are not deleted, so an operation that returns an error has
written nothing (`Desk.Wrote.step`). The main result is `tls_material_usable`.
-/

set_option autoImplicit false

namespace XrayApi.NodeService

open Transition Store Relational Xray

/-! ## Rows -/

section Rows

variable {pem : PemParser} {t t' : Tables}

/-- Every stored row passes the check. -/
def AllUsable (pem : PemParser) (t : Tables) : Prop := ∀ n ∈ t.nodes, Usable pem n

theorem AllUsable.updateWhere {p : Node → Bool} {f : Node → Node}
    (ht : t' = { t with nodes := updateWhere p f t.nodes }) (h : AllUsable pem t)
    (hf : ∀ r ∈ t.nodes, Usable pem (f r)) : AllUsable pem t' := by
  subst ht
  intro n hn
  obtain ⟨r, hr, rfl⟩ := List.mem_map.1 hn
  split_ifs with hp
  · exact hf r hr
  · exact h r hr

theorem AllUsable.createNode {n : Node} (ht : AllUsable pem t) (hn : Usable pem n)
    (h : Store.createNode t n = .ok t') : AllUsable pem t' := by
  obtain ⟨-, -, rfl⟩ := createNode_eq_ok h
  intro r hr
  obtain hr | hr := List.mem_append.1 hr
  · exact ht r hr
  · rw [List.mem_singleton.1 hr]
    exact hn

theorem AllUsable.updateNode {n : Node} (ht : AllUsable pem t) (hn : Usable pem n)
    (h : Store.updateNode t n = .ok t') : AllUsable pem t' :=
  AllUsable.updateWhere (updateNode_eq_ok h).2.2 ht fun _ _ => hn

theorem AllUsable.setNodeHealth {id : ID} {status : NodeStatus} {lastErr : String}
    {seenAt : Option Time} (ht : AllUsable pem t)
    (h : Store.setNodeHealth t id status lastErr seenAt = .ok t') : AllUsable pem t' :=
  AllUsable.updateWhere (setNodeHealth_eq_ok h).2 ht ht

end Rows

theorem tables_getNode {w w' : World} {id : ID} {r : Except StoreErr Node}
    (h : MayFail (.db (.getNode id)) w r w') : w'.tables = w.tables := by
  cases r with
  | error e => exact mayFail_db_error h
  | ok n =>
      obtain ⟨_, -, hq⟩ := mayFail_db_ok h
      exact (StoreCall.read_eq_ok.1 hq).2

/-! ## Operations that keep rows -/

/-- The operation does not delete. -/
def NodeOp.keepsRows : NodeOp → Bool
  | delete _ => false
  | _ => true

/-- A thread may start any creation, update or health write. -/
def Requests.editing (pem : PemParser) (_ : Nat) (p : Job) : Prop :=
  ∃ op : NodeOp, op.keepsRows = true ∧ p = (op.service pem).prog

/-- The rows an operation holds have been checked. -/
def Point.Sound (pem : PemParser) : Point → Prop
  | insert n _ => Usable pem n
  | write n id => Usable pem n ∧ n.id = id
  | halt _ => False
  | erase _ => False
  | _ => True

/-- The row of `x` is written, and the operation returns an error only if it is not found again. -/
def Point.Wrote (x : ID) : Point → Prop
  | done r => r = .ok ()
  | dial n _ => n.id = x
  | ping n _ => n.id = x
  | record n _ _ => n.id = x
  | launch _ id => id = x
  | readBack id => id = x
  | _ => False

section Steps

variable {pem : PemParser} {w w' : World} {c c' : Point} {s : Stmt} {r : s.Res}

theorem Point.sound_ofOp {op : NodeOp} (hop : op.keepsRows = true) :
    (Point.ofOp pem op).Sound pem := by
  cases op with
  | create inp id now =>
      simp only [Point.ofOp]
      split_ifs with hname haddress hport
      · trivial
      · trivial
      · trivial
      · cases h : inp.applyTLSMaterial pem (inp.newNode id) with
        | error e => trivial
        | ok n => exact (applyTLSMaterial_eq_ok.1 h).2
  | update id inp => trivial
  | delete id => cases hop
  | setHealth id status lastErr seenAt => trivial

/-- The row an update is going to write was checked as a whole. -/
theorem Point.sound_loaded {id : ID} {inp : NodeInput} {n : Node} (hid : n.id = id) :
    (Point.loaded pem id inp n).Sound pem := by
  unfold Point.loaded
  split
  · trivial
  · next n' h => exact ⟨(applyTLSMaterial_eq_ok.1 h).2, (applyTLSMaterial_id h).trans hid⟩

theorem Point.Step.sound (h : Point.Step pem c s r c') (hsem : MayFail s w r w')
    (hc : c.Sound pem) : c'.Sound pem := by
  cases h with
  | loaded id inp n =>
      obtain ⟨o, hrows, hq⟩ := mayFail_db_ok hsem
      have hrows : n = o := hrows
      subst hrows
      exact Point.sound_loaded (getNode_id (StoreCall.read_eq_ok.1 hq).1)
  | halted id => exact hc.elim
  | _ => trivial

/-- What a step does to the tables: nothing, one of the three writes, or a deletion. -/
theorem Point.Step.tables (h : Point.Step pem c s r c') (hsem : MayFail s w r w') :
    w'.tables = w.tables ∨
      (∃ n now, c = .insert n now ∧ c' = .dial n now ∧
        Store.createNode w.tables n = .ok w'.tables) ∨
      (∃ n id, c = .write n id ∧ c' = .launch n id ∧
        Store.updateNode w.tables n = .ok w'.tables) ∨
      (∃ id status lastErr seenAt, c'.Wrote id ∧
        Store.setNodeHealth w.tables id status lastErr seenAt = .ok w'.tables) ∨
      ∃ id, c = .erase id := by
  -- a write that is refused is none, and the statements to a node write no table
  cases h with
  | inserted n now =>
      obtain ⟨_, -, hq⟩ := mayFail_db_ok hsem
      exact Or.inr (Or.inl ⟨n, now, rfl, rfl, StoreCall.wrote_eq_ok.1 hq⟩)
  | insertFailed n now e => exact Or.inl (mayFail_db_error hsem)
  | dialed n now =>
      cases mayFail_ok hsem rfl
      exact Or.inl rfl
  | dialFailed n now e =>
      obtain h | ⟨rfl, -⟩ := mayFail_cases hsem
      · cases h
      · exact Or.inl rfl
  | pinged n now r =>
      obtain h | ⟨rfl, -⟩ := mayFail_cases hsem
      · cases h
        exact Or.inl rfl
      · exact Or.inl rfl
  | recorded n result now r =>
      cases r with
      | error e => exact Or.inl (mayFail_db_error hsem)
      | ok u =>
          obtain ⟨_, -, hq⟩ := mayFail_db_ok hsem
          exact Or.inr (Or.inr (Or.inr (Or.inl ⟨_, _, _, _, rfl, StoreCall.wrote_eq_ok.1 hq⟩)))
  | launched n id =>
      cases mayFail_ok hsem rfl
      exact Or.inl rfl
  | readBack id r => exact Or.inl (tables_getNode hsem)
  | loaded id inp n => exact Or.inl (tables_getNode hsem)
  | loadFailed id inp e => exact Or.inl (tables_getNode hsem)
  | written n id =>
      obtain ⟨_, -, hq⟩ := mayFail_db_ok hsem
      exact Or.inr (Or.inr (Or.inl ⟨n, id, rfl, rfl, StoreCall.wrote_eq_ok.1 hq⟩))
  | writeFailed n id e => exact Or.inl (mayFail_db_error hsem)
  | halted id =>
      cases mayFail_ok hsem rfl
      exact Or.inl rfl
  | erased id r => exact Or.inr (Or.inr (Or.inr (Or.inr ⟨id, rfl⟩)))
  | healed id status lastErr seenAt r =>
      cases r with
      | error e => exact Or.inl (mayFail_db_error hsem)
      | ok u =>
          obtain ⟨_, -, hq⟩ := mayFail_db_ok hsem
          exact Or.inr (Or.inr (Or.inr (Or.inl ⟨_, _, _, _, rfl, StoreCall.wrote_eq_ok.1 hq⟩)))

/-- A step writes checked rows only. -/
theorem Point.Step.allUsable (h : Point.Step pem c s r c') (hsem : MayFail s w r w')
    (hc : c.Sound pem) (hw : AllUsable pem w.tables) : AllUsable pem w'.tables := by
  obtain ht | ⟨n, now, rfl, -, ht⟩ | ⟨n, id, rfl, -, ht⟩ | ⟨_, _, _, _, -, ht⟩ | ⟨id, rfl⟩ :=
    h.tables hsem
  · rw [ht]
    exact hw
  · exact hw.createNode hc ht
  · exact hw.updateNode hc.1 ht
  · exact hw.setNodeHealth ht
  · exact hc.elim

/-- Without deletions no row goes away. -/
theorem Point.Step.keeps_row (h : Point.Step pem c s r c') (hsem : MayFail s w r w')
    (hc : c.Sound pem) {x : ID} (hx : x ∈ nodeIDs w) : x ∈ nodeIDs w' := by
  cases h.effect hsem with
  | quiet hstart hdel hdel' hrows hactors => rwa [hrows]
  | commit id hs hstart hstart' hdel hdel' hrows hactors => exact (hrows x).2 (Or.inl hx)
  | launch id hstart hstart' hdel hdel' hrows hactors => rwa [hrows]
  | halt id hs hstart hstart' hdel hdel' hrows hactors => rwa [hrows]
  | erase id hstart hstart' hdel hdel' hrows hactors =>
      cases c with
      | erase id' => exact hc.elim
      | _ => cases hdel

/-- A step that changes the tables is a write that succeeded. -/
theorem Point.Step.wrote_of_change (h : Point.Step pem c s r c') (hsem : MayFail s w r w')
    (hc : c.Sound pem) (hne : w'.tables ≠ w.tables) : ∃ x, c'.Wrote x ∧ x ∈ nodeIDs w' := by
  obtain ht | ⟨n, now, rfl, rfl, ht⟩ | ⟨n, id, rfl, rfl, ht⟩ |
    ⟨id, _, _, _, hwrote, ht⟩ | ⟨id, rfl⟩ :=
    h.tables hsem
  · exact (hne ht).elim
  · obtain ⟨-, -, ht⟩ := createNode_eq_ok ht
    refine ⟨n.id, rfl, ?_⟩
    unfold nodeIDs
    rw [ht]
    simp
  · exact ⟨n.id, hc.2.symm, h.keeps_row hsem hc (updateNode_eq_ok ht).1⟩
  · exact ⟨id, hwrote, h.keeps_row hsem hc (setNodeHealth_eq_ok ht).1⟩
  · exact hc.elim

/-- The statement is a read of a row that lost its connection. -/
def cutOff : (s : Stmt) → s.Res → Prop
  | .db (.getNode _), .error (.internal _) => True
  | _, _ => False

/-- After its write an operation finds the row again, unless the read is cut off. -/
theorem Point.Step.wrote {x : ID} (h : Point.Step pem c s r c') (hsem : MayFail s w r w')
    (hc : c.Wrote x) (hx : x ∈ nodeIDs w) (hread : ¬ cutOff s r) : c'.Wrote x := by
  cases h with
  | readBack id r =>
      have hc : id = x := hc
      subst hc
      cases r with
      | ok n => rfl
      | error e =>
          obtain h | ⟨-, hfail⟩ := hsem
          · obtain ⟨n, hn⟩ := exists_getNode_iff.2 hx
            have hq := (answers_db_error h).1
            rw [show (StoreCall.getNode id).apply w.tables = .ok (n, w.tables) from
              StoreCall.read_eq_ok.2 ⟨hn, rfl⟩] at hq
            cases hq
          · obtain ⟨text, htext⟩ := hfail
            cases htext
            exact (hread trivial).elim
  | inserted n now => exact hc.elim
  | insertFailed n now e => exact hc.elim
  | loaded id inp n => exact hc.elim
  | loadFailed id inp e => exact hc.elim
  | written n id => exact hc.elim
  | writeFailed n id e => exact hc.elim
  | halted id => exact hc.elim
  | erased id r => exact hc.elim
  | healed id status lastErr seenAt r => exact hc.elim
  | dialed n now => exact hc
  | dialFailed n now e => exact hc
  | pinged n now r => exact hc
  | recorded n result now r => exact hc
  | launched n id => exact hc

end Steps

/-! ## Runs -/

/-- Rows and operations hold checked material. -/
structure Desk.Safe (pem : PemParser) (D : Desk) : Prop where
  rows : AllUsable pem D.world.tables
  points : ∀ j, (D.ctl j).Sound pem

/-- The steps of the control points of operations that keep rows. -/
abbrev Desk.EditStep (pem : PemParser) : Desk → RequestAct → Desk → Prop :=
  Track.Step (Point.code pem) (Point.Step pem) MayFail
    fun c => ∃ op, NodeOp.keepsRows op = true ∧ c = Point.ofOp pem op

section Invariant

variable {pem : PemParser} {D E : Desk} {a : RequestAct} {k : Nat} {x : ID}

theorem Desk.Safe.step (hD : D.Safe pem) (h : Desk.EditStep pem D a E) : E.Safe pem := by
  cases a with
  | call i s r =>
      obtain ⟨hpoint, hsem, hother⟩ := h
      refine ⟨hpoint.allUsable hsem (hD.points i) hD.rows, fun j => ?_⟩
      by_cases hj : j = i
      · subst hj
        exact hpoint.sound hsem (hD.points j)
      · rw [hother j hj]
        exact hD.points j
  | start i p =>
      obtain ⟨-, ⟨op, hop, hc⟩, -, hworld, hother⟩ := h
      refine ⟨by rw [hworld]; exact hD.rows, fun j => ?_⟩
      by_cases hj : j = i
      · subst hj
        rw [hc]
        exact Point.sound_ofOp hop
      · rw [hother j hj]
        exact hD.points j

/-- The operation of thread `k` has written the row of `x`, which is there. -/
structure Desk.Wrote (k : Nat) (x : ID) (D : Desk) : Prop where
  point : (D.ctl k).Wrote x
  row : x ∈ nodeIDs D.world

/-- A step that is not a new operation of thread `k`, nor a read of it that is cut off. -/
def Uncut (k : Nat) : RequestAct → Prop
  | .call i s r => i = k → ¬ cutOff s r
  | .start i _ => i ≠ k

theorem Desk.Wrote.step (hD : D.Safe pem) (hw : D.Wrote k x) (h : Desk.EditStep pem D a E)
    (ha : Uncut k a) : E.Wrote k x := by
  cases a with
  | call i s r =>
      obtain ⟨hpoint, hsem, hother⟩ := h
      refine ⟨?_, hpoint.keeps_row hsem (hD.points i) hw.row⟩
      by_cases hk : i = k
      · subst hk
        exact hpoint.wrote hsem hw.point hw.row (ha rfl)
      · rw [hother k (Ne.symm hk)]
        exact hw.point
  | start i p =>
      obtain ⟨-, -, -, hworld, hother⟩ := h
      refine ⟨?_, by rw [hworld]; exact hw.row⟩
      rw [hother k (Ne.symm ha)]
      exact hw.point

end Invariant

namespace Requests

variable {pem : PemParser} {P Q : Requests} {a : RequestAct}

/-- The requests stand at control points that hold checked material, and so do the rows. -/
def Safe (pem : PemParser) (P : Requests) : Prop :=
  ∃ D : Desk, P.Shows (Point.code pem) D ∧ D.Safe pem

/-- One step, with the control points before and after it. -/
theorem editing_step {D : Desk} (hPD : P.Shows (Point.code pem) D)
    (h : Pool.Step MayFail (editing pem) P a Q) :
    ∃ E : Desk, Q.Shows (Point.code pem) E ∧ Desk.EditStep pem D a E := by
  have henter : ∀ (i : Nat) (p : Job), editing pem i p →
      ∃ c, (∃ op, NodeOp.keepsRows op = true ∧ c = Point.ofOp pem op) ∧ p = c.code pem := by
    rintro i p ⟨op, hop, rfl⟩
    exact ⟨_, ⟨op, hop, rfl⟩, (Point.code_ofOp op).symm⟩
  obtain ⟨E, hstep, hQE⟩ := hPD.step (fun _ _ _ => Point.code_step) henter h
  exact ⟨E, hQE, hstep⟩

theorem Safe.step (hP : P.Safe pem) (h : Pool.Step MayFail (editing pem) P a Q) : Q.Safe pem := by
  obtain ⟨D, hPD, hD⟩ := hP
  obtain ⟨E, hQE, hstep⟩ := editing_step hPD h
  exact ⟨E, hQE, hD.step hstep⟩

theorem safe_opened {w : World} (hw : AllUsable pem w.tables) : (opened w).Safe pem :=
  ⟨⟨w, fun _ => .done (.ok ())⟩, ⟨rfl, fun _ => rfl⟩, hw, fun _ => trivial⟩

theorem Safe.run {ls : List RequestAct} (hP : P.Safe pem)
    (h : Path (Pool.Step MayFail (editing pem)) P ls Q) : Q.Safe pem :=
  h.invariant (fun _ _ _ hP h => Safe.step hP h) hP

/-- The request of thread `k` that starts with `ls` has returned an error, and no read of it was cut
off. -/
structure Rejected (k : Nat) (ls : List RequestAct) (Q : Requests) : Prop where
  starts : ∃ p rest, ls = .start k p :: rest ∧ ∀ l ∈ rest, Uncut k l
  error : ∃ e, Q.prog k = Prog.ret (.error e)

/-- Once the operation of `k` has written a row it does not return an error. -/
theorem not_error_of_wrote {ls : List RequestAct} {D : Desk} {k : Nat} {x : ID} {e : Err}
    (hPD : P.Shows (Point.code pem) D) (hD : D.Safe pem) (hw : D.Wrote k x)
    (h : Path (Pool.Step MayFail (editing pem)) P ls Q) (hls : ∀ l ∈ ls, Uncut k l) :
    Q.prog k ≠ Prog.ret (.error e) := by
  have hend : ∃ E : Desk, Q.Shows (Point.code pem) E ∧ E.Safe pem ∧ E.Wrote k x := by
    refine (h.restrict hls).invariant (I := fun Q => ∃ E : Desk, Q.Shows (Point.code pem) E ∧
      E.Safe pem ∧ E.Wrote k x) ?_ ⟨D, hPD, hD, hw⟩
    rintro X l Y ⟨F, hXF, hF, hwF⟩ ⟨hstep, hl⟩
    obtain ⟨G, hYG, hG⟩ := editing_step hXF hstep
    exact ⟨G, hYG, hF.step hG, hwF.step hF hG hl⟩
  obtain ⟨E, hQE, -, hwE⟩ := hend
  intro hret
  rw [hQE.prog k] at hret
  have hpoint := hwE.point
  rw [Point.eq_done_of_ret hret] at hpoint
  cases hpoint

end Requests

/-- In every interleaving of creations, updates and health writes, any statement allowed to fail,
the material of every stored row passes the check, so that a configuration can be built of it, and a
request that is rejected has left the tables as they were with each of its statements. -/
theorem tls_material_usable (pem : PemParser) {w : World} {ls : List RequestAct} {P : Requests}
    (hw : ∀ n ∈ w.tables.nodes, Usable pem n)
    (hrun : Path (Pool.Step MayFail (Requests.editing pem)) (Requests.opened w) ls P) :
    (∀ n ∈ P.world.tables.nodes,
        validateTLSMaterial pem n.apiCACert n.apiClientCert n.apiClientKey = .ok () ∧
        ∃ tc, buildTLSConfig pem (dialOptions n) = .ok tc) ∧
      ∀ k ls₁ s r ls₂ X Y Q,
        Path (Pool.Step MayFail (Requests.editing pem)) P ls₁ X →
        Pool.Step MayFail (Requests.editing pem) X (.call k s r) Y →
        Path (Pool.Step MayFail (Requests.editing pem)) Y ls₂ Q →
        Requests.Rejected k (ls₁ ++ .call k s r :: ls₂) Q →
        Y.world.tables = X.world.tables := by
  have hP : Requests.Safe pem P := (Requests.safe_opened hw).run hrun
  constructor
  · obtain ⟨D, hPD, hD⟩ := hP
    intro n hn
    rw [hPD.world] at hn
    exact ⟨hD.rows n hn, buildTLSConfig_isOk.2 (hD.rows n hn)⟩
  · intro k ls₁ s r ls₂ X Y Q h₁ hcall h₂ hrej
    by_contra hne
    obtain ⟨⟨p, rest, hls, huncut⟩, e, he⟩ := hrej
    obtain ⟨D, hXD, hD⟩ := hP.run h₁
    obtain ⟨E, hYE, hstep⟩ := Requests.editing_step hXD hcall
    have hE := hD.step hstep
    obtain ⟨hpoint, hsem, -⟩ := hstep
    rw [hXD.world, hYE.world] at hne
    obtain ⟨x, hx, hrow⟩ := hpoint.wrote_of_change hsem (hD.points k) hne
    -- the labels after the call are among those after the start
    have hlater : ∀ l ∈ ls₂, Uncut k l := by
      intro l hl
      refine huncut l ?_
      cases ls₁ with
      | nil => cases hls
      | cons l₁ ls₁ =>
          obtain ⟨-, rfl⟩ := List.cons.inj hls
          exact List.mem_append_right _ (List.mem_cons_of_mem _ hl)
    exact Requests.not_error_of_wrote hYE hE ⟨hx, hrow⟩ h₂ hlater he

/-! ## A key pair is set -/

/-- A parser that knows one key pair. -/
def onePair : PemParser where
  appendCertsFromPEM _ := false
  x509KeyPair cert key :=
    if cert = "cert" ∧ key = "key" then .ok ()
    else .error "tls: private key does not match public key"

/-- A payload that changes the certificate and the key only. -/
def material (cert key : Option String) : NodeInput :=
  ⟨"", "", 0, false, "", false, none, cert, key⟩

/-- A key pair is set by one request while another one sends a certificate without its key. -/
def setPair : List (Pool.Move Nat Stmt Stmt.Res (Except Err Unit)) :=
  [.start 0 ((NodeOp.update "n" (material (some "cert") (some "key"))).service onePair).prog,
    .fire 0,
    .start 1 ((NodeOp.update "n" (material (some "other") none)).service onePair).prog, .fire 1,
    .fire 0, .fire 0, .fire 0]

theorem editing_setPair : Pool.Allowed (Requests.editing onePair) setPair := by
  intro i p h
  simp only [setPair, List.mem_cons, Pool.Move.start.injEq, reduceCtorEq,
    List.not_mem_nil, or_false, false_or] at h
  obtain ⟨-, hp⟩ | ⟨-, hp⟩ := h
  · exact ⟨.update "n" (material (some "cert") (some "key")), rfl, hp⟩
  · exact ⟨.update "n" (material (some "other") none), rfl, hp⟩

/-- The pair is stored and usable. -/
theorem tls_material_usable_pair :
    (Pool.play exec setPair (Requests.opened oneNode)).2.world.tables.nodes.map Node.apiClientKey =
        ["key"] ∧
      ∀ n ∈ (Pool.play exec setPair (Requests.opened oneNode)).2.world.tables.nodes,
        validateTLSMaterial onePair n.apiCACert n.apiClientCert n.apiClientKey = .ok () ∧
        ∃ tc, buildTLSConfig onePair (dialOptions n) = .ok tc := by
  have hw : ∀ n ∈ oneNode.tables.nodes, Usable onePair n := by
    intro n hn
    rw [List.mem_singleton.1 hn]
    exact usable_of_empty rfl rfl rfl
  exact ⟨rfl, (tls_material_usable onePair hw
    (Pool.play_path_of_exec mayFail_exec editing_setPair _)).1⟩

end XrayApi.NodeService
