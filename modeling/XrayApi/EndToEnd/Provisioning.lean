import XrayApi.Service.InboundSets
import XrayApi.Service.Inbounds
import XrayApi.Service.Subscriptions
import XrayApi.Sublink.Bundles
import XrayApi.Sublink.Credentials
import XrayApi.Worker.Parallel

/-!
# From a new user to a working subscription

`Create` writes the user and its assignments, passes of the nodes push the accounts, the
subscription endpoint lists the inbounds of the user, and a client reads the credentials from a
link. Each of the four was written apart. `new_user_connects` puts them together: whatever the
interleaving of the passes, each link of the subscription carries the account that the node of its
inbound holds for the user.
-/

set_option autoImplicit false

namespace XrayApi.EndToEnd

open Transition Store Xray Relational Worker Service Sublink

/-! ## Accounts of accepted inbounds -/

section Accepted

variable {i : Inbound}

/-- An accepted inbound has an account for every user, which the node can store and which both
formats advertise. -/
theorem Accepted.advertises (h : Accepted i) (u : User) :
    ∃ account text l, (∀ ui, buildUser (accountFor (desiredRow ui i u)) = .ok ⟨u.email, account⟩) ∧
      link u i = .ok text ∧ readLink text = some l ∧
      l.advertised = some ⟨remark u i, account⟩ ∧
      (clashProxyFor u i).advertised = some ⟨remark u i, account⟩ := by
  obtain ⟨inp, existing, hvalid, rfl⟩ := h
  obtain ⟨account, haccount⟩ := exists_accountOf hvalid u existing
  have hmethod (h : inp.protocol = .shadowsocks) :=
    (cipher_of_mem _ ((InboundInput.validate_eq_ok hvalid).method h)).2
  obtain ⟨text, l, hlink, hread, hadv⟩ := advertised_link haccount fun h => by
    rw [methodOf_row hvalid h]
    exact (hmethod h).2
  refine ⟨account, text, l, fun ui => buildUser_accountFor haccount (fun h => (hmethod h).1) ui,
    hlink, hread, hadv, ?_⟩
  rw [advertised_clashProxyFor, haccount]
  rfl

/-- With accepted inbounds every account that has to be pushed can be built. -/
theorem buildable_of_accepted {t : Tables} (ht : ∀ i ∈ t.inbounds, Accepted i) (n : ID) :
    ∀ d ∈ desiredForNode t n, ∃ user, buildUser (accountFor d) = .ok user := by
  intro d hd
  obtain ⟨a, ha, -, rfl⟩ := mem_desiredForNode.1 hd
  obtain ⟨account, -, -, hbuild, -⟩ :=
    Accepted.advertises (ht a.inbound (mem_of_lookup ha.known.inbound)) a.user
  exact ⟨_, hbuild a.row⟩

end Accepted

/-! ## The new user -/

section Created

variable {w w' : World} {inp : CreateInput} {fresh : Fresh} {now : Time} {u : User}

/-- The rows of a user who has just been created. -/
structure Created (w : World) (inp : CreateInput) (u : User) (w' : World) : Prop where
  mem : u ∈ w'.tables.users
  email : u.email = inp.email
  active : u.status = .active
  inbounds : w'.tables.inbounds = w.tables.inbounds
  rows : ∀ i ∈ w.tables.inbounds, assignment w'.tables u.id i.id =
    if i.id ∈ inp.inboundIDs then some ⟨u.id, i.id, .pending, ""⟩ else none
  accounts : w'.accounts = w.accounts

theorem created_of_returns (h : Returns (create inp fresh now) w u w') : Created w inp u w' := by
  obtain ⟨-, -, hex, limits, -, hcreate, hu⟩ := create_returns h
  obtain ⟨hconf, -, husers⟩ := createWithAssignmentsTx_eq_ok hcreate
  have hid : u.id = fresh.id := getUser_id hu
  have hnew : (newUser inp fresh limits.1 limits.2).id ∉ w.tables.users.map User.id := by
    intro hmem
    rw [insertConflict, if_pos hmem] at hconf
    cases hconf
  have hrow : u = zeroUsage (newUser inp fresh limits.1 limits.2) := by
    refine List.inj_on_of_nodup_map w'.db.valid.users_id (getUser_mem hu) ?_ hid
    rw [husers]
    exact List.mem_append_right _ (List.mem_singleton.2 rfl)
  refine ⟨getUser_mem hu, by rw [hrow]; rfl, by rw [hrow]; rfl,
    (createWithAssignmentsTx_static hcreate).1, fun i hi => ?_, ?_⟩
  · have hnone : assignment w.tables fresh.id i.id = none := w.db.valid.assignment_eq_none hnew
    rw [assignment_createWithAssignmentsTx hcreate, hid, hnone]
    have hmem : i.id ∈ (listInboundsByIDs w.tables inp.inboundIDs).map Inbound.id ↔
        i.id ∈ inp.inboundIDs := by
      rw [mem_listInboundsByIDs]
      exact ⟨And.right, fun h => ⟨List.mem_map_of_mem hi, h⟩⟩
    simp only [newUser, true_and, hmem, Option.getD_none]
  · have hrun := accounts_of_run (offNode_create inp fresh now) w
    have hw : ((create inp fresh now).run exec w).2 = w' := congrArg Prod.snd h
    rw [hw] at hrun
    exact hrun

end Created

/-- A new user can connect everywhere: after `Create` and complete passes of the nodes of its
inbounds, in any interleaving, the subscription lists exactly the inbounds of the request, each
once, and for each of them the link and the Clash proxy carry the account that the node holds under
the user's email. Where the node had no account for that email before. -/
theorem new_user_connects {w w₁ w₂ : World} {inp : CreateInput} {fresh : Fresh} {now : Time}
    {u : User} {ls : List FleetAct} {Q : Fleet} {tr : List (Event Stmt Stmt.Res)}
    {r : Except Err Subscription}
    (haccepted : ∀ i ∈ w.tables.inbounds, Accepted i)
    (hcreate : Returns (create inp fresh now) w u w₁)
    (hpasses : Path (Pool.Step Answers Fleet.passes) (Fleet.idle w₁) ls Q)
    (hidle : ∀ n, ∃ r, Q.prog (.actor n) = .ret r)
    (hran : ∀ i ∈ w.tables.inbounds, i.id ∈ inp.inboundIDs →
      ∃ p, Act.start (.actor i.nodeID) p ∈ ls)
    (hsub : Runs Answers Eq (subscriptionByToken u.subToken).prog Q.world tr r w₂) :
    ∃ inbounds, r = .ok ⟨u, inbounds⟩ ∧ inbounds.Nodup ∧
      (∀ i, i ∈ inbounds ↔ i ∈ w.tables.inbounds ∧ i.id ∈ inp.inboundIDs) ∧
      ∀ i ∈ inbounds, w.accounts i.nodeID (i.tag, inp.email) = none →
        ∃ account text l, link u i = .ok text ∧ readLink text = some l ∧
          l.advertised = some ⟨remark u i, account⟩ ∧
          (clashProxyFor u i).advertised = some ⟨remark u i, account⟩ ∧
          Q.world.accounts i.nodeID (i.tag, inp.email) = some ⟨inp.email, account⟩ := by
  have hnew := created_of_returns hcreate
  have hbuild : ∀ n, ∀ d ∈ desiredForNode w₁.tables n,
      ∃ user, buildUser (accountFor d) = .ok user := by
    intro n
    refine buildable_of_accepted (fun i hi => haccepted i ?_) n
    rw [← hnew.inbounds]
    exact hi
  obtain ⟨hthin, hsettled⟩ := fleet_settled hbuild hpasses hidle
  have husers : Q.world.tables.users = w₁.tables.users := by rw [hthin.tables]
  have hinbounds : Q.world.tables.inbounds = w.tables.inbounds := by
    rw [hthin.tables]
    exact hnew.inbounds
  -- the assignment to each inbound of the request
  have howns : ∀ i ∈ w.tables.inbounds, i.id ∈ inp.inboundIDs →
      (⟨⟨u.id, i.id, .pending, ""⟩, i, u⟩ : Target).Owns w₁.tables i.nodeID (i.tag, inp.email) := by
    intro i hi hid
    have hrow := hnew.rows i hi
    rw [if_pos hid] at hrow
    refine ⟨(w₁.db.valid.assignment_eq_some.1 hrow).1, ⟨?_, ?_⟩, rfl, ?_⟩
    · rw [hnew.inbounds]
      exact (lookup_eq_some_iff w.db.valid.inbounds_id).2 ⟨hi, rfl⟩
    · exact (lookup_eq_some_iff w₁.db.valid.users_id).2 ⟨hnew.mem, rfl⟩
    · rw [← hnew.email]
  obtain ⟨inbounds, hr, hperm⟩ := subscriptionByToken_runs (husers ▸ hnew.mem) hsub
  have hstays : ∀ i, ¬ (⟨⟨u.id, i.id, .pending, ""⟩, i, u⟩ : Target).Due := by
    rintro i (hs | hact)
    · cases hs
    · exact hact hnew.active
  have hmem : ∀ i, i ∈ inbounds ↔ i ∈ w.tables.inbounds ∧ i.id ∈ inp.inboundIDs := by
    intro i
    rw [hperm.mem_iff, mem_listInboundsForUser, hinbounds]
    refine and_congr_right fun hi => ⟨?_, fun hid => ?_⟩
    · rintro ⟨ui, hui, hiid, huid⟩
      by_contra hid
      -- passes add no assignment
      have hrow := hnew.rows i hi
      rw [if_neg hid] at hrow
      obtain ⟨f, hf, hrows⟩ := hthin.rows
      rw [hrows, List.mem_filterMap] at hui
      obtain ⟨ui₀, hui₀, hfui⟩ := hui
      obtain ⟨huid₀, hiid₀⟩ := Prod.mk.inj (hf ui₀ ui hfui)
      rw [w₁.db.valid.assignment_eq_some.2 ⟨hui₀, huid₀.symm.trans huid, hiid₀.symm.trans hiid⟩]
        at hrow
      cases hrow
    · -- the pass of the node leaves the row
      obtain ⟨row, hleft, -⟩ := Target.left_of_stays (hstays i)
      have hrow := ((hsettled i.nodeID).1 (hran i hi hid)).owns ((howns i hi hid).settle hleft)
      have hkey := Target.left_key hleft
      exact ⟨row, hrow.row, (Prod.mk.inj hkey).2, (Prod.mk.inj hkey).1⟩
  refine ⟨inbounds, hr, hperm.nodup_iff.2 (nodup_listInboundsForUser Q.world.db.valid u.id), hmem,
    fun i hi hfree => ?_⟩
  obtain ⟨hi, hid⟩ := (hmem i).1 hi
  obtain ⟨account, text, l, hb, hlink, hread, hadv, hclash⟩ :=
    Accepted.advertises (haccepted i hi) u
  refine ⟨account, text, l, hlink, hread, hadv, hclash, ?_⟩
  rw [((hsettled i.nodeID).1 (hran i hi hid)).accounts, settle_accounts,
    settleAccounts_of_stays w₁.db.valid (howns i hi hid) (hstays i), hnew.accounts, hfree]
  have hbuilt := hb ⟨u.id, i.id, .pending, ""⟩
  rw [hnew.email] at hbuilt
  unfold Target.desired
  rw [hbuilt]
  rfl

/-! ## One node with one inbound -/

/-- The inbound on offer. -/
def offered : Inbound := (xhttpInput .vless).row (.plain "i1" "n1" "in" .vless)

/-- A node with the inbound and no users. -/
def shop : World :=
  .still ⟨{ Tables.empty with nodes := [.plain "n1"], inbounds := [offered] }, by
    constructor <;> simp [Tables.empty, UniqueNonNull, offered, Node.plain, InboundInput.row,
      Inbound.plain]⟩

/-- The order of a user on the inbound. -/
def order : CreateInput := ⟨"a@example.com", none, ["i1"], none, none, "", none⟩

/-- The shop after the order. -/
def sold : World := ((create order ⟨"u1", "x1", "p1", "t1"⟩ 0).run exec shop).2

/-- One pass of the node. -/
def delivery : Schedule :=
  [.start (.actor "n1") (reconcile "n1").prog, .fire (.actor "n1"), .fire (.actor "n1"),
    .fire (.actor "n1"), .fire (.actor "n1"), .fire (.actor "n1")]

/-- The new user of the shop can connect. -/
theorem new_user_connects_shop :
    ∃ (u : User) (inbounds : List Inbound) (text : String) (l : SharedLink)
        (account : ProtocolAccount), offered ∈ inbounds ∧ link u offered = .ok text ∧
      readLink text = some l ∧ l.advertised = some ⟨remark u offered, account⟩ ∧
      (Pool.play exec delivery (Fleet.idle sold)).2.world.accounts "n1" ("in", "a@example.com") =
        some ⟨"a@example.com", account⟩ := by
  have hcreate : Returns (create order ⟨"u1", "x1", "p1", "t1"⟩ 0) shop _ sold := rfl
  have hallowed : Pool.Allowed Fleet.passes delivery := by
    intro i p h
    simp only [delivery, List.mem_cons, List.not_mem_nil, or_false, reduceCtorEq,
      Pool.Move.start.injEq] at h
    obtain ⟨rfl, rfl⟩ := h
    rfl
  have hpath := Pool.play_path_of_exec answers_exec hallowed (Fleet.idle sold)
  have hmem : ∀ n, Thread.actor n ∈
      (Pool.play exec delivery (Fleet.idle sold)).1.map Act.thread → n ∈ ["n1"] := by
    intro n hn
    have hthreads : (Pool.play exec delivery (Fleet.idle sold)).1.map Act.thread =
        List.replicate 6 (.actor "n1") := rfl
    rw [hthreads] at hn
    simpa using hn
  have hidle := Fleet.idle_of_threads hpath hmem fun n hn => by
    obtain rfl := List.mem_singleton.1 hn
    exact ⟨_, rfl⟩
  have haccepted : ∀ i ∈ shop.tables.inbounds, Accepted i := by
    intro i hi
    rw [List.mem_singleton.1 hi]
    exact ⟨_, _, rfl, rfl⟩
  have hran : ∀ i ∈ shop.tables.inbounds, i.id ∈ order.inboundIDs →
      ∃ p, Act.start (.actor i.nodeID) p ∈ (Pool.play exec delivery (Fleet.idle sold)).1 := by
    intro i hi _
    rw [List.mem_singleton.1 hi]
    exact ⟨_, List.mem_cons_self⟩
  obtain ⟨tr, hsub⟩ := Runs.of_run answers_exec (fun _ => rfl) (subscriptionByToken "t1").prog
    (Pool.play exec delivery (Fleet.idle sold)).2.world
  obtain ⟨inbounds, -, -, hlisted, hall⟩ :=
    new_user_connects haccepted hcreate hpath hidle hran hsub
  have hoffered : offered ∈ inbounds := (hlisted offered).2 ⟨List.mem_singleton.2 rfl, by decide⟩
  obtain ⟨account, text, l, hlink, hread, hadv, -, hheld⟩ := hall offered hoffered rfl
  exact ⟨_, inbounds, text, l, account, hoffered, hlink, hread, hadv, hheld⟩

end XrayApi.EndToEnd
