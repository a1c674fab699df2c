import XrayApi.Service.UserOps
import XrayApi.Transition.Serial

/-!
# Operations on a user row, interleaved

`Update` and `RotateSubToken` write back a row read earlier, and `ResetTraffic` decides from a row
read earlier and writes twice. Any number of operations on one user are followed statement by
statement. The abstract state is the tables without the first write of an unfinished `ResetTraffic`;
an operation takes effect with its last write. `Apart` is what an interleaving has to keep for that
to be the effect the operation has alone, and `rowOps_serialise` says that it is enough.
-/

set_option autoImplicit false

namespace XrayApi.Service

open Transition Store Relational Worker

/-- Operations in progress, and the shared state. -/
abbrev RowPool (ι : Type) : Type := Pool ι Stmt Stmt.Res World (Except Err Unit)

/-- The operations about to start. -/
def rowOps {ι : Type} (id : ID) (x : ι → RowOp) (w : World) : RowPool ι where
  world := w
  prog i := ((x i).service id).prog

/-! ## Operations that do not get in each other's way -/

/-- The store call a program is about to make. -/
def nextCall : Job → Option StoreCall
  | .call (.db q) _ => some q
  | _ => none

/-- The columns `ResetTraffic` decides from. -/
def standing (u : User) : UserStatus × Option Time := (u.status, u.expiresAt)

/-- A statement `s`, which took the tables from `t` to `t'`, spares an operation that is about to
make the given call: it keeps the columns the operation is about to write back, or those it has
decided from; between the two writes of a traffic reset, it does not write the row. -/
def Spares (id : ID) (s : Stmt) (t t' : Tables) : StoreCall → Prop
  | .updateUser _ =>
    (lookup User.id id t'.users).map columns = (lookup User.id id t.users).map columns
  | .resetTraffic _ =>
    (lookup User.id id t'.users).map standing = (lookup User.id id t.users).map standing
  | .setUserStatus _ .active => touches id s = false
  | _ => True

/-- The step spares the operations of the other threads. -/
def Apart {ι : Type} (id : ID) (P : RowPool ι) :
    Act ι Stmt Stmt.Res (Except Err Unit) → RowPool ι → Prop
  | .call i s _, Q => ∀ j, j ≠ i → ∀ q ∈ nextCall (P.prog j),
      Spares id s P.world.tables Q.world.tables q
  | .start _ _, _ => True

/-! ## Where an operation stands -/

/-- How far an operation has come: `half` is between the two writes of a traffic reset. -/
inductive Stage
  | fresh
  | read
  | half
  | done
  deriving DecidableEq

/-- What an operation that writes the row back does to it. -/
def RowOp.patches : RowOp → Option (User → User)
  | .update inp now => some (inp.patch now)
  | .rotateSubToken token => some fun u => { u with subToken := token }
  | _ => none

theorem RowOp.patches_id {x : RowOp} {f : User → User} (h : x.patches = some f) (u : User) :
    (f u).id = u.id := by
  cases x with
  | update inp now =>
      cases h
      exact patch_id inp now u
  | rotateSubToken token =>
      cases h
      rfl
  | _ => cases h

theorem RowOp.patches_columns {x : RowOp} {f : User → User} (h : x.patches = some f) {u v : User}
    (huv : columns u = columns v) : columns (f u) = columns (f v) := by
  cases x with
  | update inp now =>
      cases h
      exact columns_patch huv
  | rotateSubToken token =>
      cases h
      simp only [columns, Columns.mk.injEq] at huv ⊢
      obtain ⟨h₁, h₂, h₃, h₄, h₅, -, h₇⟩ := huv
      exact ⟨h₁, h₂, h₃, h₄, h₅, trivial, h₇⟩
  | _ => cases h

theorem RowOp.patches_effect {id : ID} {x : RowOp} {f : User → User} (h : x.patches = some f)
    {t t' : Tables} {r : User} (hr : getUser t id = .ok r) (hwrite : updateUser t (f r) = .ok t') :
    x.Effect id t t' := by
  cases x with
  | update inp now =>
      cases h
      exact ⟨r, hr, hwrite⟩
  | rotateSubToken token =>
      cases h
      exact ⟨r, hr, hwrite⟩
  | _ => cases h

/-- `ResetTraffic` after its first write. -/
def resetTail (id : ID) (v : User) (now : Time) : Service Unit := do
  let _ ← (do
    reactivateSuspended id v now
    reconcileForUser id
    query (.getUser id) : Service User)
  pure ()

/-- What is left of an operation at a stage. `T` are the tables and `L` the tables without the first
write of an unfinished traffic reset. The row `v` read earlier agrees with the present one in the
columns the operation uses. -/
inductive Stands (id : ID) (T L : Tables) (x : RowOp) : Job → Stage → Prop
  | fresh : Stands id T L x (x.service id).prog .fresh
  | patching {f : User → User} {v r : User} {k : Except StoreErr Unit → Job} :
      x.patches = some f → v.id = id → getUser T id = .ok r → columns v = columns r →
      (∀ o, Prog.Forall ReadsOnly (k (.ok o))) → (∀ e, ∃ e', k (.error e) = .ret (.error e')) →
      Stands id T L x (.call (.db (.updateUser (f v))) k) .read
  | resetting {now : Time} {v r : User} {k : Except StoreErr Unit → Job} :
      x = .resetTraffic now → getUser T id = .ok r → standing v = standing r →
      (∀ o, k (.ok o) = (resetTail id v now).prog) →
      (∀ e, ∃ e', k (.error e) = .ret (.error e')) →
      Stands id T L x (.call (.db (.resetTraffic id)) k) .read
  | half {now : Time} {r : User} {k : Except StoreErr Unit → Job} :
      x = .resetTraffic now → getUser L id = .ok r → r.status = .suspended →
      r.expiredAt now = false →
      (∀ o, Prog.Forall ReadsOnly (k (.ok o))) → (∀ e, ∃ e', k (.error e) = .ret (.error e')) →
      Stands id T L x (.call (.db (.setUserStatus id .active)) k) .half
  | done {q : Job} : q.Forall ReadsOnly → Stands id T L x q .done

/-- The two views of the tables: they differ in the usage of the user while a traffic reset is
between its writes. -/
structure View (id : ID) (half : Prop) (T L : Tables) : Prop where
  same : ¬ half → T = L
  zero : half → T = zeroed id L ∧ Suspended id L

theorem View.congr {id : ID} {h h' : Prop} {T L : Tables} (hv : View id h T L) (hh : h' ↔ h) :
    View id h' T L :=
  ⟨fun hn => hv.same (fun hh' => hn (hh.2 hh')), fun hy => hv.zero (hh.1 hy)⟩

theorem View.refl {id : ID} {h : Prop} (hn : ¬ h) (T : Tables) : View id h T T :=
  ⟨fun _ => rfl, fun hy => (hn hy).elim⟩

/-- An operation at stage `c` that executed `s`, leaving the tables `T'` and the program `q`, has
failed, or stands at a stage again and has taken effect if it is done now. `H` says that another
operation is between the writes of a traffic reset. -/
def Advances (id : ID) (x : RowOp) (c : Stage) (H : Prop) (L : Tables) (s : Stmt) (T' : Tables)
    (q : Job) : Prop :=
  (∃ e, q = .ret (.error e)) ∨
    ∃ L' c', Stands id T' L' x q c' ∧ View id (c' = .half ∨ H) T' L' ∧
      ((L' = L ∧ (c' = .done ↔ c = .done)) ∨ (c ≠ .done ∧ c' = .done ∧ x.Effect id L L')) ∧
      (touches id s = false → ∀ r, getUser L id = .ok r → r.status = .suspended →
        getUser L' id = .ok r)

section Step

variable {id : ID} {x : RowOp} {c : Stage} {H : Prop} {L : Tables} {s : Stmt} {w w' : World}
  {r : s.Res}

/-- The operation has not taken effect, and the abstract state is as it was. -/
theorem Advances.stay {q : Job} {c' : Stage} (hstands : Stands id w'.tables L x q c')
    (hview : View id (c' = .half ∨ H) w'.tables L) (hdone : c' = .done ↔ c = .done) :
    Advances id x c H L s w'.tables q :=
  Or.inr ⟨L, c', hstands, hview, Or.inl ⟨rfl, hdone⟩, fun _ _ hr _ => hr⟩

/-- The operation has taken effect with a write of the row, while no other one is in between. -/
theorem Advances.commit {q : Job} (hH : ¬ H) (hc : c ≠ .done) (htouch : touches id s = true)
    (heffect : x.Effect id L w'.tables) (hq : q.Forall ReadsOnly) :
    Advances id x c H L s w'.tables q := by
  refine Or.inr ⟨w'.tables, .done, .done hq, View.refl ?_ _, Or.inr ⟨hc, rfl, heffect⟩, ?_⟩
  · rintro (h | h)
    · cases h
    · exact hH h
  · intro h
    rw [htouch] at h
    cases h

theorem not_half_or {c : Stage} (hc : c ≠ .half) (hH : ¬ H) : ¬ (c = .half ∨ H) :=
  not_or.2 ⟨hc, hH⟩

theorem half_or_iff {c c' : Stage} (hc : c ≠ .half) (hc' : c' ≠ .half) :
    (c' = .half ∨ H) ↔ (c = .half ∨ H) := by
  simp only [hc, hc']

theorem standing_expiredAt {u v : User} (h : standing u = standing v) (now : Time) :
    u.expiredAt now = v.expiredAt now := by
  simp only [standing, Prod.mk.injEq] at h
  simp only [User.expiredAt, h.2]

theorem suspended_of_getUser {t : Tables} (ht : t.Valid) {r : User} (hr : getUser t id = .ok r)
    (hs : r.status = .suspended) : Suspended id t := by
  intro r' hr' hid
  have hsame := ht.getUser_eq_ok_iff.2 ⟨hr', hid⟩
  rw [hr] at hsame
  cases hsame
  exact hs

/-- The write back of a row read earlier. -/
theorem advances_patching {f : User → User} {v u : User} {k : Except StoreErr Unit → Job}
    {r : Except StoreErr Unit} (hf : x.patches = some f) (hv : v.id = id)
    (hu : getUser w.tables id = .ok u) (hcol : columns v = columns u)
    (hok : ∀ o, Prog.Forall ReadsOnly (k (.ok o)))
    (herr : ∀ e, ∃ e', k (.error e) = .ret (.error e'))
    (hview : View id (Stage.read = .half ∨ H) w.tables L)
    (hH : H → touches id (.db (.updateUser (f v))) = false)
    (hsem : MayFail (.db (.updateUser (f v))) w r w') :
    Advances id x .read H L (.db (.updateUser (f v))) w'.tables (k r) := by
  have htouch : touches id (.db (.updateUser (f v))) = true :=
    decide_eq_true ((RowOp.patches_id hf v).trans hv)
  have hnH : ¬ H := fun h => by rw [hH h] at htouch; cases htouch
  obtain ⟨e, rfl, -⟩ | ⟨⟨⟩, o, rfl, -, hq⟩ := mayFail_db hsem
  · exact Or.inl (herr e)
  · refine Advances.commit hnH (fun h => by cases h) htouch ?_ (hok _)
    rw [hview.same (not_half_or (fun h => by cases h) hnH)] at hu hq
    refine RowOp.patches_effect hf hu ?_
    rw [← updateUser_congr _ (RowOp.patches_columns hf hcol)]
    · exact StoreCall.wrote_eq_ok.1 hq
    · rw [RowOp.patches_id hf, RowOp.patches_id hf, hv, getUser_id hu]

/-- The first write of a traffic reset. -/
theorem advances_resetting {now : Time} {v u : User} {k : Except StoreErr Unit → Job}
    {r : Except StoreErr Unit} (hx : x = .resetTraffic now) (hu : getUser w.tables id = .ok u)
    (hstand : standing v = standing u) (hok : ∀ o, k (.ok o) = (resetTail id v now).prog)
    (herr : ∀ e, ∃ e', k (.error e) = .ret (.error e'))
    (hview : View id (Stage.read = .half ∨ H) w.tables L)
    (hH : H → touches id (.db (.resetTraffic id)) = false)
    (hsem : MayFail (.db (.resetTraffic id)) w r w') :
    Advances id x .read H L (.db (.resetTraffic id)) w'.tables (k r) := by
  have htouch : touches id (.db (.resetTraffic id)) = true := decide_eq_true rfl
  have hnH : ¬ H := fun h => by rw [hH h] at htouch; cases htouch
  have hTL : w.tables = L := hview.same (not_half_or (fun h => by cases h) hnH)
  have hstatus : v.status = u.status := congrArg Prod.fst hstand
  have hexp := standing_expiredAt hstand now
  obtain ⟨e, rfl, -⟩ | ⟨⟨⟩, o, rfl, -, hq⟩ := mayFail_db hsem
  · exact Or.inl (herr e)
  · have hreset := StoreCall.wrote_eq_ok.1 hq
    rw [hok]
    by_cases hre : v.status = .suspended ∧ v.expiredAt now = false
    · -- the status write is still to come
      have hact : reactivateSuspended id v now = query (.setUserStatus id .active) := if_pos hre
      have hsusp := suspended_of_getUser w.db.valid hu (hstatus ▸ hre.1)
      unfold resetTail
      rw [hact]
      refine Advances.stay (.half hx (hTL ▸ hu) (hstatus ▸ hre.1) (hexp ▸ hre.2)
        (fun _ => readsOnly_tail id id) fun e => ⟨_, rfl⟩)
          ⟨fun h => (h (Or.inl rfl)).elim, fun _ => ?_⟩
        (by simp)
      rw [← hTL]
      exact ⟨(resetTraffic_eq_ok_iff.1 hreset).2, hsusp⟩
    · have hact : reactivateSuspended id v now = pure () := if_neg hre
      have hre' : ¬ (u.status = .suspended ∧ u.expiredAt now = false) := by
        rw [← hstatus, ← hexp]
        exact hre
      unfold resetTail
      rw [hact]
      refine Advances.commit hnH (fun h => by cases h) htouch ?_ (readsOnly_tail id id)
      rw [hx, ← hTL]
      exact ⟨u, w'.tables, hu, hreset, if_neg hre'⟩

/-- The second write of a traffic reset. -/
theorem advances_half {now : Time} {u : User} {k : Except StoreErr Unit → Job}
    {r : Except StoreErr Unit} (hx : x = .resetTraffic now) (hu : getUser L id = .ok u)
    (hsusp : u.status = .suspended) (hexp : u.expiredAt now = false)
    (hok : ∀ o, Prog.Forall ReadsOnly (k (.ok o)))
    (herr : ∀ e, ∃ e', k (.error e) = .ret (.error e'))
    (hview : View id (Stage.half = .half ∨ H) w.tables L)
    (hH : H → touches id (.db (.setUserStatus id .active)) = false)
    (hsem : MayFail (.db (.setUserStatus id .active)) w r w') :
    Advances id x .half H L (.db (.setUserStatus id .active)) w'.tables (k r) := by
  have htouch : touches id (.db (.setUserStatus id .active)) = true := decide_eq_true rfl
  have hnH : ¬ H := fun h => by rw [hH h] at htouch; cases htouch
  obtain ⟨e, rfl, -⟩ | ⟨⟨⟩, o, rfl, -, hq⟩ := mayFail_db hsem
  · exact Or.inl (herr e)
  · refine Advances.commit hnH (fun h => by cases h) htouch ?_ (hok _)
    rw [hx]
    refine ⟨u, w.tables, hu, resetTraffic_eq_ok_iff.2
      ⟨exists_getUser_iff.1 ⟨u, hu⟩, (hview.zero (Or.inl rfl)).1⟩, ?_⟩
    exact (if_pos ⟨hsusp, hexp⟩).trans (StoreCall.wrote_eq_ok.1 hq)

/-- The first read of an operation. -/
theorem advances_getUser {q : Job} {r : Except StoreErr User}
    (hok : ∀ v, r = .ok v → getUser w.tables id = .ok v → Stands id w.tables L x q .read)
    (herr : ∀ e, r = .error e → ∃ e', q = .ret (.error e'))
    (hview : View id (Stage.fresh = .half ∨ H) w.tables L)
    (hsem : MayFail (.db (.getUser id)) w r w') :
    Advances id x .fresh H L (.db (.getUser id)) w'.tables q := by
  have ht : w'.tables = w.tables := readsOnly_getUser id w r w' hsem
  cases r with
  | error e => exact Or.inl (herr e rfl)
  | ok v =>
      refine Advances.stay (?_ : Stands _ _ _ _ _ .read) ?_ (by simp)
      · rw [ht]
        exact hok v rfl (mayFail_getUser hsem)
      · rw [ht]
        exact hview.congr (half_or_iff (fun h => by cases h) fun h => by cases h)

/-- The expiry sweep takes effect at once; it passes over a suspended row. -/
theorem advances_expireDueUsers {now : Time} {q : Job} {r : Except StoreErr (List ID)}
    (hok : ∀ ids, r = .ok ids → q.Forall ReadsOnly)
    (herr : ∀ e, r = .error e → ∃ e', q = .ret (.error e'))
    (hview : View id (Stage.fresh = .half ∨ H) w.tables L)
    (hsem : MayFail (.db (.expireDueUsers now)) w r w') :
    Advances id (.expireDueUsers now) .fresh H L (.db (.expireDueUsers now)) w'.tables q := by
  obtain ⟨e, rfl, -⟩ | ⟨ids, o, rfl, -, hq⟩ := mayFail_db hsem
  · exact Or.inl (herr e rfl)
  · have hT' : (Store.expireDueUsers w.tables now).2 = w'.tables :=
      congrArg Prod.snd (Except.ok.inj hq)
    have hview' : View id (Stage.done = .half ∨ H) w'.tables (Store.expireDueUsers L now).2 := by
      rw [← hT']
      refine View.congr (h := Stage.fresh = .half ∨ H) ⟨fun hn => ?_, fun hy => ?_⟩
        (half_or_iff (fun h => by cases h) fun h => by cases h)
      · rw [hview.same hn]
      · obtain ⟨hT, hsusp⟩ := hview.zero hy
        rw [hT]
        exact ⟨expireDueUsers_zeroed hsusp now, hsusp.of_users (expireDue_id now)
          (fun r hr hid => expireDue_of_suspended (hsusp r hr hid)) (expireDueUsers_users now)⟩
    refine Or.inr ⟨_, .done, .done (hok ids rfl), hview',
      Or.inr ⟨(fun h => by cases h), rfl, rfl⟩, ?_⟩
    intro _ u hu hsusp
    rw [getUser_map_eq_ok (expireDue_id now) (expireDueUsers_users now)]
    exact ⟨u, hu, (expireDue_of_suspended hsusp).symm⟩

/-- A commit takes effect at once; without a delta for the user, it passes over a suspended row. -/
theorem advances_applyTrafficDeltas {n : ID} {ds : List TrafficDelta} {collectedAt : Time}
    {q : Job} {r : Except StoreErr (List ID)} (hok : ∀ ids, r = .ok ids → q.Forall ReadsOnly)
    (herr : ∀ e, r = .error e → ∃ e', q = .ret (.error e'))
    (hview : View id (Stage.fresh = .half ∨ H) w.tables L)
    (hH : H → touches id (.db (.applyTrafficDeltas n ds collectedAt)) = false)
    (hsem : MayFail (.db (.applyTrafficDeltas n ds collectedAt)) w r w') :
    Advances id (.applyTrafficDeltas n ds collectedAt) .fresh H L
      (.db (.applyTrafficDeltas n ds collectedAt)) w'.tables q := by
  obtain ⟨e, rfl, -⟩ | ⟨ids, o, rfl, -, hq⟩ := mayFail_db hsem
  · exact Or.inl (herr e rfl)
  · have hpass : touches id (.db (.applyTrafficDeltas n ds collectedAt)) = false →
        ∀ u, u.id = id → u.status = .suspended → chargeAll ds u = u := by
      intro htouch u hid hsusp
      unfold chargeAll
      rw [foldl_charge_of_not_mem (hid ▸ of_decide_eq_false htouch),
        suspendCrossed_of_suspended hsusp]
    obtain ⟨ids', L', hL', hview'⟩ : ∃ ids' L', Store.applyTrafficDeltas L n ds collectedAt =
        .ok (ids', L') ∧ View id (Stage.done = .half ∨ H) w'.tables L' := by
      by_cases h : H
      · obtain ⟨hT, hsusp⟩ := hview.zero (Or.inr h)
        have htouch := hH h
        have hq' : Store.applyTrafficDeltas (zeroed id L) n ds collectedAt = .ok (o, w'.tables) :=
          hT ▸ hq
        obtain ⟨ids', L', hL', hzero⟩ :=
          applyTrafficDeltas_zeroed hsusp (of_decide_eq_false htouch) hq'
        refine ⟨ids', L', hL', fun hn => (hn (Or.inr h)).elim, fun _ => ⟨hzero, ?_⟩⟩
        exact hsusp.of_users (chargeAll_id ds) (fun u hu hid => hpass htouch u hid (hsusp u hu hid))
          (applyTrafficDeltas_users hL')
      · have hT := hview.same (not_half_or (fun h => by cases h) h)
        exact ⟨o, w'.tables, hT ▸ hq, View.refl (not_half_or (fun h => by cases h) h) _⟩
    refine Or.inr ⟨L', .done, .done (hok ids rfl), hview',
      Or.inr ⟨(fun h => by cases h), rfl, ids', hL'⟩, ?_⟩
    intro htouch u hu hsusp
    rw [getUser_map_eq_ok (chargeAll_id ds) (applyTrafficDeltas_users hL')]
    exact ⟨u, hu, (hpass htouch u (getUser_id hu) hsusp).symm⟩

/-- The status write of `Suspend`. -/
theorem advances_suspend {q : Job} {r : Except StoreErr Unit}
    (hok : ∀ o, r = .ok o → q.Forall ReadsOnly)
    (herr : ∀ e, r = .error e → ∃ e', q = .ret (.error e'))
    (hview : View id (Stage.fresh = .half ∨ H) w.tables L)
    (hH : H → touches id (.db (.setUserStatus id .disabled)) = false)
    (hsem : MayFail (.db (.setUserStatus id .disabled)) w r w') :
    Advances id .suspend .fresh H L (.db (.setUserStatus id .disabled)) w'.tables q := by
  have htouch : touches id (.db (.setUserStatus id .disabled)) = true := decide_eq_true rfl
  have hnH : ¬ H := fun h => by rw [hH h] at htouch; cases htouch
  obtain ⟨e, rfl, -⟩ | ⟨⟨⟩, o, rfl, -, hq⟩ := mayFail_db hsem
  · exact Or.inl (herr e rfl)
  · refine Advances.commit hnH (fun h => by cases h) htouch ?_ (hok _ rfl)
    rw [hview.same (not_half_or (fun h => by cases h) hnH)] at hq
    exact StoreCall.wrote_eq_ok.1 hq

theorem advances_fresh {k : s.Res → Job} (hk : (x.service id).prog = .call s k)
    (hview : View id (Stage.fresh = .half ∨ H) w.tables L) (hH : H → touches id s = false)
    (hsem : MayFail s w r w') : Advances id x .fresh H L s w'.tables (k r) := by
  -- the first statement reads the row, or it is the only write of the operation
  cases x with
  | update inp now =>
      cases hk
      refine advances_getUser (fun v hr hv => ?_) (fun e hr => ?_) hview hsem
      · subst hr
        exact .patching rfl (getUser_id hv) hv rfl (fun _ => readsOnly_tail id v.id)
          fun e => ⟨_, rfl⟩
      · subst hr
        exact ⟨_, rfl⟩
  | rotateSubToken token =>
      cases hk
      refine advances_getUser (fun v hr hv => ?_) (fun e hr => ?_) hview hsem
      · subst hr
        have hf : (RowOp.rotateSubToken token).patches =
            some fun u => { u with subToken := token } := rfl
        refine .patching hf (getUser_id hv) hv rfl (fun _ => ?_) fun e => ?_
        · exact ⟨readsOnly_getUser id, fun r => by cases r <;> trivial⟩
        · exact ⟨_, rfl⟩
      · subst hr
        exact ⟨_, rfl⟩
  | resetTraffic now =>
      cases hk
      refine advances_getUser (fun v hr hv => ?_) (fun e hr => ?_) hview hsem
      · subst hr
        exact .resetting rfl hv rfl (fun _ => rfl) fun e => ⟨_, rfl⟩
      · subst hr
        exact ⟨_, rfl⟩
  | suspend =>
      cases hk
      refine advances_suspend (fun o hr => ?_) (fun e hr => ?_) hview hH hsem
      · subst hr
        exact readsOnly_tail id id
      · subst hr
        exact ⟨_, rfl⟩
  | expireDueUsers now =>
      cases hk
      refine advances_expireDueUsers (fun ids hr => ?_) (fun e hr => ?_) hview hsem
      · subst hr
        exact readsOnly_reconcileEach ids
      · subst hr
        exact ⟨_, rfl⟩
  | applyTrafficDeltas n ds collectedAt =>
      cases hk
      refine advances_applyTrafficDeltas (fun ids hr => ?_) (fun e hr => ?_) hview hH hsem
      · subst hr
        exact readsOnly_reconcileEach ids
      · subst hr
        exact ⟨_, rfl⟩

/-- One statement of an operation. -/
theorem Stands.advances {k : s.Res → Job} (h : Stands id w.tables L x (.call s k) c)
    (hview : View id (c = .half ∨ H) w.tables L) (hH : H → touches id s = false)
    (hsem : MayFail s w r w') : Advances id x c H L s w'.tables (k r) := by
  generalize hq : Prog.call s k = q at h
  cases h with
  | fresh => exact advances_fresh hq.symm hview hH hsem
  | patching hf hv hu hcol hok herr =>
      cases hq
      exact advances_patching hf hv hu hcol hok herr hview hH hsem
  | resetting hx hu hstand hok herr =>
      cases hq
      exact advances_resetting hx hu hstand hok herr hview hH hsem
  | half hx hu hsusp hexp hok herr =>
      cases hq
      exact advances_half hx hu hsusp hexp hok herr hview hH hsem
  | done hall =>
      cases hq
      have ht : w'.tables = w.tables := hall.1 w r w' hsem
      exact Advances.stay (.done (hall.2 r)) (by rw [ht]; exact hview) Iff.rfl

end Step

/-! ## All of them -/

section Interleaved

variable {ι : Type} {id : ID} {x : ι → RowOp} {P Q : RowPool ι} {L L' : Tables} {st : ι → Stage}

/-- The operations stand at the stages `st`, in the tables and in the abstract state `L`. -/
structure Progress (id : ID) (x : ι → RowOp) (P : RowPool ι) (L : Tables) (st : ι → Stage) :
    Prop where
  view : View id (∃ j, st j = .half) P.world.tables L
  stands : ∀ i, Stands id P.world.tables L (x i) (P.prog i) (st i)

theorem progress_rowOps (w : World) :
    Progress id x (rowOps id x w) w.tables fun _ => .fresh where
  view := View.refl (fun ⟨_, h⟩ => by cases h) _
  stands _ := .fresh

theorem exists_of_map_eq {κ : Type} {col : User → κ} {t t' : Tables} {r : User}
    (h : (lookup User.id id t'.users).map col = (lookup User.id id t.users).map col)
    (hr : getUser t id = .ok r) : ∃ r', getUser t' id = .ok r' ∧ col r' = col r := by
  rw [getUser_eq_ok.1 hr, Option.map_some, Option.map_eq_some_iff] at h
  obtain ⟨r', hr', hcol⟩ := h
  exact ⟨r', getUser_eq_ok.2 hr', hcol⟩

/-- An operation that is spared stands where it stood. -/
theorem Stands.spared {y : RowOp} {q : Job} {c : Stage} {T T' : Tables} {s : Stmt}
    (h : Stands id T L y q c) (hspare : ∀ p ∈ nextCall q, Spares id s T T' p)
    (hL : touches id s = false → ∀ r, getUser L id = .ok r → r.status = .suspended →
      getUser L' id = .ok r) : Stands id T' L' y q c := by
  cases h with
  | fresh => exact .fresh
  | patching hf hv hu hcol hok herr =>
      obtain ⟨r', hr', hcol'⟩ := exists_of_map_eq (hspare _ rfl) hu
      exact .patching hf hv hr' (hcol.trans hcol'.symm) hok herr
  | resetting hx hu hstand hok herr =>
      obtain ⟨r', hr', hstand'⟩ := exists_of_map_eq (hspare _ rfl) hu
      exact .resetting hx hr' (hstand.trans hstand'.symm) hok herr
  | half hx hu hsusp hexp hok herr =>
      exact .half hx (hL (hspare _ rfl) _ hu hsusp) hsusp hexp hok herr
  | done hall => exact .done hall

/-- An operation between the writes of a traffic reset is about to make the second one. -/
theorem Stands.touches_of_half {y : RowOp} {q : Job} {T T' : Tables} {s : Stmt}
    (h : Stands id T L y q .half) (hspare : ∀ p ∈ nextCall q, Spares id s T T' p) :
    touches id s = false := by
  cases h with
  | half hx hu hsusp hexp hok herr => exact hspare _ rfl

/-- An operation that has returned is done. -/
theorem Stands.done_of_ret {y : RowOp} {T : Tables} {c : Stage} {a : Except Err Unit}
    (h : Stands id T L y (.ret a) c) : c = .done := by
  generalize hq : (Prog.ret a : Job) = q at h
  cases h with
  | fresh => cases y <;> cases hq
  | patching => cases hq
  | resetting => cases hq
  | half => cases hq
  | done => rfl

variable [DecidableEq ι]

theorem exists_half_iff (st : ι → Stage) (i : ι) (c : Stage) :
    (∃ j, Function.update st i c j = .half) ↔ c = .half ∨ ∃ j, j ≠ i ∧ st j = .half := by
  constructor
  · rintro ⟨j, hj⟩
    by_cases hji : j = i
    · subst hji
      rw [Function.update_self] at hj
      exact Or.inl hj
    · rw [Function.update_of_ne hji] at hj
      exact Or.inr ⟨j, hji, hj⟩
  · rintro (hc | ⟨j, hji, hj⟩)
    · exact ⟨i, by rw [Function.update_self]; exact hc⟩
    · exact ⟨j, by rw [Function.update_of_ne hji]; exact hj⟩

/-- One step of the operations: one of them fails, or none takes effect, or exactly one does. -/
theorem Progress.step {a : Act ι Stmt Stmt.Res (Except Err Unit)} (h : Progress id x P L st)
    (hstep : Pool.Step MayFail (fun _ _ => False) P a Q) (hapart : Apart id P a Q) :
    (∃ i e, Q.prog i = .ret (.error e)) ∨
      ∃ L' st', Progress id x Q L' st' ∧
        ((L' = L ∧ ∀ j, st' j = .done ↔ st j = .done) ∨
          ∃ i, st i ≠ .done ∧ (x i).Effect id L L' ∧
            ∀ j, st' j = .done ↔ st j = .done ∨ j = i) := by
  cases a with
  | start i q =>
      obtain ⟨-, hfalse, -⟩ := hstep.start_inv
      exact hfalse.elim
  | call i s r =>
      obtain ⟨k, hk, hsem, hself, hother⟩ := hstep.call_inv
      have hstands := h.stands i
      rw [hk] at hstands
      have hview : View id (st i = .half ∨ ∃ j, j ≠ i ∧ st j = .half) P.world.tables L := by
        refine h.view.congr ?_
        rw [← exists_half_iff, Function.update_eq_self]
      -- while another operation is between its two writes, this one stays away from the row
      have hH : (∃ j, j ≠ i ∧ st j = .half) → touches id s = false := by
        rintro ⟨j, hji, hj⟩
        have hjs := h.stands j
        rw [hj] at hjs
        exact hjs.touches_of_half (hapart j hji)
      obtain ⟨e, he⟩ | ⟨L', c', hstands', hview', hdone, hL⟩ := hstands.advances hview hH hsem
      · exact Or.inl ⟨i, e, hself.trans he⟩
      · refine Or.inr ⟨L', Function.update st i c', ⟨?_, fun j => ?_⟩, ?_⟩
        · exact hview'.congr (exists_half_iff st i c')
        · by_cases hji : j = i
          · subst hji
            rw [Function.update_self, hself]
            exact hstands'
          · rw [Function.update_of_ne hji, hother j hji]
            exact (h.stands j).spared (hapart j hji) hL
        · have hnow : ∀ j, Function.update st i c' j = .done ↔
              if j = i then c' = .done else st j = .done := by
            intro j
            by_cases hji : j = i
            · subst hji
              rw [Function.update_self, if_pos rfl]
            · rw [Function.update_of_ne hji, if_neg hji]
          obtain ⟨hLL, hiff⟩ | ⟨hc, hc', heffect⟩ := hdone
          · refine Or.inl ⟨hLL, fun j => (hnow j).trans ?_⟩
            by_cases hji : j = i
            · subst hji
              rw [if_pos rfl, hiff]
            · rw [if_neg hji]
          · refine Or.inr ⟨i, hc, heffect, fun j => (hnow j).trans ?_⟩
            by_cases hji : j = i
            · subst hji
              simp [hc']
            · simp [hji]

/-- An operation that has failed stays failed. -/
theorem failed_step {a : Act ι Stmt Stmt.Res (Except Err Unit)}
    (h : ∃ i e, P.prog i = .ret (.error e))
    (hstep : Pool.Step MayFail (fun _ _ => False) P a Q) : ∃ i e, Q.prog i = .ret (.error e) := by
  obtain ⟨i, e, hi⟩ := h
  cases a with
  | start j q =>
      obtain ⟨-, hfalse, -⟩ := hstep.start_inv
      exact hfalse.elim
  | call j s r =>
      have hji : i ≠ j := fun hij => Pool.Step.not_call_of_ret (hij ▸ hi) hstep
      obtain ⟨k, -, -, -, hother⟩ := hstep.call_inv
      exact ⟨i, e, (hother i hji).trans hi⟩

/-- Operations on one user, in any interleaving in which each spares the others and after which all
have succeeded: the tables are those left by running the operations alone, one after the other, in
some order. -/
theorem rowOps_serialise {w : World} {ls : List (Act ι Stmt Stmt.Res (Except Err Unit))}
    (hrun : Path (fun P a Q => Pool.Step MayFail (fun _ _ => False) P a Q ∧ Apart id P a Q)
      (rowOps id x w) ls P) (hok : ∀ i, P.prog i = .ret (.ok ())) :
    ∃ order w', order.Nodup ∧ (∀ i, i ∈ order) ∧
      Serial (fun i v v' => Returns ((x i).service id) v () v') w order w' ∧
      w'.tables = P.world.tables := by
  -- the point at which an operation takes effect is the step that makes it `done`
  have hlin := Path.linearize (fun i => (x i).Effect id)
    (fun P : RowPool ι => ∃ i e, P.prog i = .ret (.error e))
    (fun P L D => ∃ st, Progress id x P L st ∧ ∀ j, D j ↔ st j = .done)
    (fun _ _ _ hbad hstep => failed_step hbad hstep.1) ?_ hrun
    ⟨fun _ => .fresh, progress_rowOps w, fun _ => ⟨False.elim, fun h => by cases h⟩⟩
  · obtain ⟨i, e, hi⟩ | ⟨order, L, hnodup, hserial, st, hprogress, horder⟩ := hlin
    · rw [hok i] at hi
      cases hi
    · have hdone : ∀ i, st i = .done := fun i => by
        have hi := hprogress.stands i
        rw [hok i] at hi
        exact hi.done_of_ret
      have hview : P.world.tables = L := hprogress.view.same fun ⟨j, hj⟩ => by
        rw [hdone j] at hj
        cases hj
      have halone : ∀ t i t' (v : World), v.tables = t → (x i).Effect id t t' →
          ∃ v', Returns ((x i).service id) v () v' ∧ v'.tables = t' :=
        fun t i t' v hv heffect => RowOp.Effect.returns (hv ▸ heffect)
      obtain ⟨w', hw', ht⟩ := hserial.simulate_same halone (c := w) rfl
      exact ⟨order, w', hnodup, fun i => (horder i).2 (hdone i), hw', ht.trans hview.symm⟩
  · rintro P' a Q' L D ⟨st, hprogress, hD⟩ ⟨hstep, hapart⟩
    obtain hbad | ⟨L', st', hprogress', ⟨rfl, hsame⟩ | ⟨i, hi, heffect, hnow⟩⟩ :=
      hprogress.step hstep hapart
    · exact Or.inl hbad
    · exact Or.inr (Or.inl ⟨st', hprogress', fun j => (hD j).trans (hsame j).symm⟩)
    · refine Or.inr
        (Or.inr ⟨i, L', fun h => hi ((hD i).1 h), heffect, st', hprogress', fun j => ?_⟩)
      exact (or_congr_left (hD j)).trans (hnow j).symm

end Interleaved

/-! ## Two operations -/

instance (id : ID) (s : Stmt) (t t' : Tables) (q : StoreCall) : Decidable (Spares id s t t' q) := by
  unfold Spares
  split <;> infer_instance

instance (id : ID) (P : RowPool Bool) (a : Act Bool Stmt Stmt.Res (Except Err Unit))
    (Q : RowPool Bool) : Decidable (Apart id P a Q) := by
  unfold Apart
  cases a <;> infer_instance

/-- An active user on a node. -/
def oneUser : World :=
  .still ⟨.assigned (.plain "i" "n" "in" .vless) (User.plain "u" "u@x") .applied,
    Tables.assigned_plain_valid _⟩

/-- A token rotation, and a collector's commit for the same user. -/
def rotateAndCommit : Bool → RowOp
  | false => .rotateSubToken "t"
  | true => .applyTrafficDeltas "n" [⟨"u", 5, 1⟩] 0

/-- The commit falls between the read and the write of the rotation. -/
def commitInBetween : List (Pool.Move Bool Stmt Stmt.Res (Except Err Unit)) :=
  [.fire false, .fire true, .fire false, .fire false]

theorem rowOps_serialise_commitInBetween :
    ∃ order w', order.Nodup ∧ (∀ i, i ∈ order) ∧
      Serial (fun i v v' => Returns ((rotateAndCommit i).service "u") v () v') oneUser order w' ∧
      w'.tables =
        (Pool.play exec commitInBetween (rowOps "u" rotateAndCommit oneUser)).2.world.tables :=
  rowOps_serialise
    (Pool.play_path_guarded mayFail_exec (fun i p h => by simp [commitInBetween] at h) (by decide))
    (by intro i; cases i <;> rfl)

/-- A new note, and a suspension of the same user. -/
def noteAndSuspend : Bool → RowOp
  | false => .update ⟨none, none, none, false, some "vip", none⟩ 0
  | true => .suspend

/-- The suspension falls between the read and the write of the update. -/
def suspendInBetween : List (Pool.Move Bool Stmt Stmt.Res (Except Err Unit)) :=
  [.fire false] ++ List.replicate 4 (.fire true) ++ List.replicate 4 (.fire false)

/-- The status of the user. -/
def statusOf (id : ID) (w : World) : Option UserStatus :=
  (lookup User.id id w.tables.users).map User.status

theorem bool_order {order : List Bool} (hnodup : order.Nodup) (hall : ∀ i, i ∈ order) :
    order = [false, true] ∨ order = [true, false] := by
  have hperm : order.Perm [false, true] :=
    (List.perm_ext_iff_of_nodup hnodup (by decide)).2 fun i => by simp [hall i]
  obtain ⟨a, b, rfl⟩ := List.length_eq_two.1 hperm.length_eq
  cases a <;> cases b <;> simp_all

/-- Both operations succeed and the user is active, although it is disabled after the two one after
the other, in either order. -/
theorem suspend_undone_by_update :
    Path (Pool.Step MayFail fun _ _ => False) (rowOps "u" noteAndSuspend oneUser)
        (Pool.play exec suspendInBetween (rowOps "u" noteAndSuspend oneUser)).1
        (Pool.play exec suspendInBetween (rowOps "u" noteAndSuspend oneUser)).2 ∧
      (∀ i, (Pool.play exec suspendInBetween (rowOps "u" noteAndSuspend oneUser)).2.prog i =
        .ret (.ok ())) ∧
      statusOf "u" (Pool.play exec suspendInBetween
        (rowOps "u" noteAndSuspend oneUser)).2.world = some .active ∧
      ∀ order w', order.Nodup → (∀ i, i ∈ order) →
        Serial (fun i v v' => Returns ((noteAndSuspend i).service "u") v () v') oneUser order w' →
        statusOf "u" w' = some .disabled := by
  refine ⟨Pool.play_path_of_exec mayFail_exec (fun i p h => by simp [suspendInBetween] at h) _,
    (by intro i; cases i <;> rfl), by decide, ?_⟩
  intro order w' hnodup hall hserial
  obtain rfl | rfl := bool_order hnodup hall
  · obtain ⟨v, h₁, h⟩ := hserial.cons_inv
    obtain ⟨v', h₂, h⟩ := h.cons_inv
    obtain rfl := h.eq_of_nil
    obtain rfl : _ = v := congrArg Prod.snd h₁
    obtain rfl : _ = v' := congrArg Prod.snd h₂
    rfl
  · obtain ⟨v, h₁, h⟩ := hserial.cons_inv
    obtain ⟨v', h₂, h⟩ := h.cons_inv
    obtain rfl := h.eq_of_nil
    obtain rfl : _ = v := congrArg Prod.snd h₁
    obtain rfl : _ = v' := congrArg Prod.snd h₂
    rfl

end XrayApi.Service
