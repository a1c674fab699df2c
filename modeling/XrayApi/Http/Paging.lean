import XrayApi.EndToEnd.Provisioning
import XrayApi.Http.Footprint

/-!
# Listing all users page by page

A client asks for page after page of `GET /users` until one is not full. Between two pages others
create users, collectors charge them, sweepers expire them, and so on. The newest users come first,
so that a new one pushes the others to later places: a user may be listed twice, but as long as none
is deleted the client has seen every user that was there when it began (`pages_cover`).
-/

set_option autoImplicit false

namespace XrayApi.HttpApi

open Transition Store Relational

/-! ## The queries of a listing -/

namespace UserQuery

/-- The query for the page with the number `k`. -/
def onPage (q : UserQuery) (k : Nat) : UserQuery := { q with page := Int64.ofNat k }

/-- The listing is one of all users. -/
structure Unfiltered (q : UserQuery) : Prop where
  status : q.status = ""
  planID : q.planID = ""
  query : q.query = ""

/-- The number of users on a full page. -/
def size (q : UserQuery) : Nat := q.perPageOf.toInt.toNat

variable {q : UserQuery}

theorem perPageOf_bounds (q : UserQuery) : 1 ≤ q.perPageOf.toInt ∧ q.perPageOf.toInt ≤ 200 := by
  unfold perPageOf
  split_ifs with h
  · decide
  · rw [not_or, Int64.lt_iff_toInt_lt, Int64.lt_iff_toInt_lt] at h
    have hone : (1 : Int64).toInt = 1 := rfl
    have hmax : (200 : Int64).toInt = 200 := rfl
    omega

theorem rowLimit_filter (q : UserQuery) : q.filter.rowLimit = q.size := by
  unfold UserFilter.rowLimit
  rw [if_neg]
  · rfl
  · rw [Int64.le_iff_toInt_le]
    have hzero : (0 : Int64).toInt = 0 := rfl
    have hbounds := q.perPageOf_bounds
    change ¬ q.perPageOf.toInt ≤ _
    omega

/-- The pages start where they should, as long as there are not too many. -/
theorem offset_filter_onPage {k : Nat} (hk : k < 2 ^ 32) :
    (q.onPage (k + 1)).filter.offset.toInt = k * q.size := by
  obtain ⟨hmin, hmax⟩ := q.perPageOf_bounds
  have hpage : (q.onPage (k + 1)).pageOf = Int64.ofInt (k + 1) := by
    have hofNat : Int64.ofNat (k + 1) = Int64.ofInt (k + 1) := by
      rw [← Int64.ofInt_eq_ofNat]
      rfl
    have htoInt : (Int64.ofInt ((k : Int) + 1)).toInt = k + 1 :=
      Int64.toInt_ofInt_of_le (by omega) (by omega)
    unfold pageOf onPage
    dsimp only
    rw [hofNat, if_neg]
    rw [Int64.lt_iff_toInt_lt, htoInt]
    have hone : (1 : Int64).toInt = 1 := rfl
    omega
  have hsize : (q.size : Int) = q.perPageOf.toInt := Int.toNat_of_nonneg (by omega)
  have hoffset : (q.onPage (k + 1)).filter.offset = Int64.ofInt (k * q.size) := by
    change ((q.onPage (k + 1)).pageOf - 1) * q.perPageOf = _
    have hone : (1 : Int64) = Int64.ofInt 1 := rfl
    rw [hpage, hone, ← Int64.ofInt_sub, ← Int64.ofInt_toInt q.perPageOf, ← Int64.ofInt_mul, hsize]
    congr 2
    omega
  rw [hoffset, Int64.toInt_ofInt_of_le]
  · have : 0 ≤ (k : Int) * q.size := by positivity
    omega
  · have : (k : Int) * q.size ≤ k * 200 := by
      rw [hsize]
      exact mul_le_mul_of_nonneg_left hmax (by omega)
    omega

theorem Unfiltered.selected (hq : q.Unfiltered) (k : Nat) (lower : Char → Char) (t : Tables) :
    (q.onPage k).filter.selected lower t = t.users := by
  refine List.filter_eq_self.2 fun u _ => ?_
  unfold UserFilter.selects
  simp [onPage, filter, hq.status, hq.planID, hq.query]

end UserQuery

/-! ## Who is there -/

/-- The ids of the users. -/
def userIDs (σ : Site) : List ID := σ.tables.users.map User.id

/-- A step that deletes a user. -/
def deletesUser : SiteAct → Bool
  | .call _ (.core (.db (.deleteUser _))) _ => true
  | _ => false

/-- A user that is created is created later than those there are. -/
def LaterUsers (σ σ' : Site) : Prop :=
  ∀ id ∈ userIDs σ', id ∉ userIDs σ → ∀ id' ∈ userIDs σ, σ'.createdAt id' < σ'.createdAt id

instance LaterUsers.decidable (σ σ' : Site) : Decidable (LaterUsers σ σ') :=
  inferInstanceAs (Decidable (∀ id ∈ userIDs σ', _))

/-- A step of the server in which no user is deleted, and the clock moves on. -/
def Server.GrowStep (s : Server) (P : Serving) (a : SiteAct) (Q : Serving) : Prop :=
  s.Step P a Q ∧ deletesUser a = false ∧ LaterUsers P.world Q.world

section Users

variable {s : Server} {P Q : Serving}

variable {st : SiteStmt} {r : st.Res} {σ σ' : Site}

/-- A step other than a deletion keeps the users, and adds one at most. -/
theorem userIDs_of_siteMay (hst : ∀ id, st ≠ .core (.db (.deleteUser id))) (h : SiteMay st σ r σ') :
    userIDs σ' = userIDs σ ∨ ∃ id, userIDs σ' = userIDs σ ++ [id] := by
  by_cases hchanges : .users ∈ st.changes
  · cases st with
    | core st =>
        cases st with
        | db q =>
            obtain ⟨w', created, hmeets, -, rfl⟩ := h
            obtain ⟨e, -, htables⟩ | ⟨a, o, -, -, happly⟩ := mayFail_db (meets_db.1 hmeets)
            · refine Or.inl ?_
              unfold userIDs Site.tables
              rw [htables]
            · exact userIDs_apply (fun id hq => hst id (by rw [hq])) happly
        | _ => exact absurd hchanges (by simp [SiteStmt.changes, Stmt.changes])
    | admin q => exact absurd hchanges (by cases q <;> simp [SiteStmt.changes, AdminCall.changes])
    | allow ip now => exact absurd hchanges (by simp [SiteStmt.changes])
  · have hsame : σ'.tables.users = σ.tables.users := same_of_siteMay h hchanges
    exact Or.inl (congrArg (List.map User.id) hsame)

/-- A user keeps its time of creation. -/
theorem createdAt_of_siteMay (h : SiteMay st σ r σ') :
    ∀ id ∈ userIDs σ, σ'.createdAt id = σ.createdAt id := by
  intro id hid
  obtain ⟨u, hu, rfl⟩ := List.mem_map.1 hid
  cases st with
  | core st =>
      obtain ⟨w', created, -, hcreated, rfl⟩ := h
      exact hcreated u hu
  | admin q =>
      obtain ⟨-, rfl⟩ | ⟨text, -, rfl⟩ := h
      · exact congrFun (σ.archive.exec_keeps q).1 u.id
      · rfl
  | allow ip now =>
      obtain rfl : (siteExec (.allow ip now) σ).2 = σ' := congrArg Prod.snd h
      rw [siteExec]
      split <;> rfl

/-- A step without a deletion only makes the listing grow at its front. -/
theorem covers_of_step {size : Nat} {rows : List ID} {scan : Scan ID} {a : SiteAct}
    (h : s.GrowStep P a Q) (hscan : scan.rows = userIDs P.world)
    (hcovers : Scan.Covers P.world.createdAt size rows scan) :
    Scan.Covers Q.world.createdAt size rows { scan with rows := userIDs Q.world } := by
  obtain ⟨hstep, hkeeps, hlater⟩ := h
  cases a with
  | start i p =>
      rw [hstep.start_inv.2.2.1, ← hscan]
      exact hcovers
  | call i st r =>
      obtain ⟨-, -, hsem, -⟩ := hstep.call_inv
      have hcreated := createdAt_of_siteMay hsem
      rw [← hscan] at hcreated
      have hranks := hcovers.congr hcreated
      have hst : ∀ id, st ≠ .core (.db (.deleteUser id)) := by
        rintro id rfl
        cases hkeeps
      obtain hids | ⟨id, hids⟩ := userIDs_of_siteMay hst hsem
      · rw [hids, ← hscan]
        exact hranks
      · have hnew : id ∉ userIDs P.world := by
          have hvalid : (userIDs Q.world).Nodup := Q.world.world.db.valid.users_id
          rw [hids] at hvalid
          exact fun hid => List.disjoint_of_nodup_append hvalid hid (List.mem_singleton.2 rfl)
        have hfirst : ∀ id' ∈ scan.rows, Q.world.createdAt id' < Q.world.createdAt id := by
          rw [hscan]
          refine hlater id ?_ hnew
          rw [hids]
          exact List.mem_append_right _ (List.mem_singleton.2 rfl)
        refine hranks.grow ⟨⟨?_, [id], ?_, ?_⟩, rfl⟩
        · rw [hids, ← hscan, List.map_append]
          refine List.Nodup.append hranks.distinct (List.nodup_singleton _) ?_
          intro x hx hid
          obtain ⟨id', hid', rfl⟩ := List.mem_map.1 hx
          exact (hfirst id' hid').ne (List.mem_singleton.1 hid)
        · rw [hids, ← hscan]
          exact List.perm_append_comm
        · intro a ha
          rw [List.mem_singleton.1 ha]
          exact hfirst

end Users

/-! ## The client -/

/-- The page that a step reads for the client; the handler answers with it. -/
def pageRead (client : SiteThread) : SiteAct → Option (UserFilter × List ID)
  | .call i (.admin (.selectUsers f)) (.ok rows) =>
    if i = client then some (f, rows.map User.id) else none
  | _ => none

/-- The pages read for the client in a run. -/
def pagesRead (client : SiteThread) (ls : List SiteAct) : List (UserFilter × List ID) :=
  ls.filterMap (pageRead client)

/-- The client asks for one page after the other. -/
def InTurn (q : UserQuery) (pages : List (UserFilter × List ID)) : Prop :=
  ∀ k f ids, pages[k]? = some (f, ids) → f = (q.onPage (k + 1)).filter

/-- The scan of the users that the pages are part of. -/
def scanOf (σ : Site) (pages : List (UserFilter × List ID)) : Scan ID :=
  ⟨userIDs σ, pages.length, pages.flatMap Prod.snd⟩

section Client

variable {s : Server} {q : UserQuery} {client : SiteThread} {P Q : Serving} {ls : List SiteAct}
  {a : SiteAct} {f : UserFilter} {ids : List ID} {pages pages' : List (UserFilter × List ID)}

theorem pageRead_eq_some (h : pageRead client a = some (f, ids)) :
    ∃ rows, a = .call client (.admin (.selectUsers f)) (.ok rows) ∧ ids = rows.map User.id := by
  unfold pageRead at h
  split at h
  · split_ifs at h with hi
    cases h
    exact ⟨_, by rw [hi], rfl⟩
  · cases h

theorem InTurn.before (h : InTurn q (pages ++ pages')) : InTurn q pages := by
  intro k f ids hk
  refine h k f ids ?_
  rw [List.getElem?_append_left (List.getElem?_eq_some_iff.1 hk).1]
  exact hk

/-- The answer of the store is the next page of a scan. -/
theorem slice_of_selectUsers {σ σ' : Site} {k : Nat} {rows : List User} (hq : q.Unfiltered)
    (hk : k < 2 ^ 32)
    (h : SiteMay (.admin (.selectUsers (q.onPage (k + 1)).filter)) σ (.ok rows) σ') :
    σ' = σ ∧ ∃ l, Ranked σ.createdAt (userIDs σ) l ∧
      rows.map User.id = slice (k * q.size) q.size l := by
  obtain ⟨⟨-, l, hl, hrows⟩, rfl⟩ | ⟨text, hr, -⟩ := h
  · rw [hq.selected] at hl
    refine ⟨rfl, l.map User.id, ⟨hl.perm.map _, List.pairwise_map.2 hl.descending⟩, ?_⟩
    have hoffset : (q.onPage (k + 1)).filter.offset.toInt.toNat = k * q.size := by
      rw [UserQuery.offset_filter_onPage hk]
      exact Int.toNat_natCast (k * q.size)
    rw [hrows, hoffset, UserQuery.rowLimit_filter]
    unfold slice
    rw [List.map_take, List.map_drop]
    rfl
  · cases hr

/-- The page a step reads is a step of the scan. -/
theorem scan_of_pageRead (hq : q.Unfiltered) (hlen : pages.length < 2 ^ 32)
    (hturn : InTurn q (pages ++ [(f, ids)])) (hpage : pageRead client a = some (f, ids))
    (h : s.Step P a Q) :
    Q.world = P.world ∧ Scan.Step P.world.createdAt q.size (scanOf P.world pages) (.read ids)
      (scanOf P.world (pages ++ [(f, ids)])) := by
  obtain ⟨rows, rfl, rfl⟩ := pageRead_eq_some hpage
  obtain rfl : f = (q.onPage (pages.length + 1)).filter :=
    hturn _ f _ List.getElem?_concat_length
  obtain ⟨-, -, hsem, -⟩ := h.call_inv
  obtain ⟨hworld, l, hl, hslice⟩ := slice_of_selectUsers hq hlen hsem
  refine ⟨hworld, l, hl, hslice, ?_⟩
  unfold scanOf
  rw [List.length_append, List.flatMap_append, List.flatMap_singleton]
  rfl

theorem pagesRead_snoc (ls : List SiteAct) (a : SiteAct) :
    pagesRead client (ls ++ [a]) = pagesRead client ls ++ (pageRead client a).toList := by
  simp only [pagesRead, List.filterMap_eq_flatMap_toList, List.flatMap_append,
    List.flatMap_singleton]

/-- Along a run, each of the users there were at first has been listed or is still to come. -/
theorem covers_of_path (hq : q.Unfiltered)
    (hdistinct : ((userIDs P.world).map P.world.createdAt).Nodup)
    (h : Path s.GrowStep P ls Q) (hlen : (pagesRead client ls).length ≤ 2 ^ 32)
    (hturn : InTurn q (pagesRead client ls)) :
    Scan.Covers Q.world.createdAt q.size (userIDs P.world)
      (scanOf Q.world (pagesRead client ls)) := by
  induction h with
  | nil => exact Scan.covers_start hdistinct
  | @snoc M M' ls a _ hstep ih =>
      rw [pagesRead_snoc] at hlen hturn ⊢
      rw [List.length_append] at hlen
      have hcovers := ih (by omega) hturn.before
      cases hpage : pageRead client a with
      | none =>
          rw [Option.toList_none, List.append_nil]
          exact covers_of_step hstep rfl hcovers
      | some page =>
          rw [hpage] at hlen hturn
          have hpages : (pagesRead client ls).length < 2 ^ 32 := hlen
          obtain ⟨hworld, hread⟩ := scan_of_pageRead hq hpages hturn hpage hstep.1
          rw [hworld]
          exact hcovers.read hread

/-- A client that lists the users page by page, until a page is not full, has seen every user that
was there when it began, if none is deleted meanwhile. Whatever else runs, then and before, may
create and change users in between. -/
theorem pages_cover (s : Server) (P : Serving) (hq : q.Unfiltered)
    (hdistinct : ((userIDs P.world).map P.world.createdAt).Nodup)
    (h : Path s.GrowStep P (ls ++ [a]) Q) (hlen : (pagesRead client ls).length < 2 ^ 32)
    (hturn : InTurn q (pagesRead client (ls ++ [a]))) (hlast : pageRead client a = some (f, ids))
    (hshort : ids.length < q.size) :
    ∀ u ∈ P.world.tables.users, ∃ page ∈ pagesRead client (ls ++ [a]), u.id ∈ page.2 := by
  intro u hu
  rw [pagesRead_snoc, hlast] at hturn ⊢
  obtain ⟨M, hpre, hstep⟩ := h.snoc_inv
  have hcovers := covers_of_path hq hdistinct hpre hlen.le hturn.before
  obtain ⟨-, hread⟩ := scan_of_pageRead hq hlen hturn hlast hstep.1
  have hseen := hcovers.complete hread hshort u.id (List.mem_map.2 ⟨u, hu, rfl⟩)
  exact List.mem_flatMap.1 hseen

/-- The shop after its first sale, with one key. The next customer comes later. -/
def growing : Site :=
  { oneKey with world := EndToEnd.sold, createdAt := fun id => if id = "u2" then 1 else 0 }

/-- All users, one on a page. -/
def oneByOne : UserQuery := ⟨"", "", "", 0, 1⟩

def listing (k : Nat) : Request :=
  { revoking "secret" with route := .admin (.listUsers (oneByOne.onPage k)) }

/-- A second customer. -/
def joining : Request :=
  { revoking "secret" with
    route := .admin (.createUser (.ok ⟨"b@example.com", none, ["i1"], none, none, ""⟩))
    draws := ⟨0, 0, "", ⟨"u2", "x2", "p2", "t2"⟩, ""⟩ }

/-- The second customer joins between the first page and the second. -/
def listAll : List (Pool.Move SiteThread SiteStmt SiteStmt.Res (Option Response)) :=
  [.start (.http 0) (plainServer.serve (listing 1)), .fire (.http 0), .fire (.http 0),
    .fire (.http 0),
    .start (.http 1) (plainServer.serve joining), .fire (.http 1), .fire (.http 1), .fire (.http 1),
    .start (.http 0) (plainServer.serve (listing 2)), .fire (.http 0), .fire (.http 0),
    .fire (.http 0),
    .start (.http 0) (plainServer.serve (listing 3)), .fire (.http 0), .fire (.http 0),
    .fire (.http 0)]

/-- The first customer is on two pages. -/
theorem pages_cover_listAll : userIDs growing = ["u1"] ∧
    ∀ u ∈ growing.tables.users,
      ∃ page ∈ pagesRead (.http 0) (Pool.play siteExec listAll (Serving.idle growing)).1,
        u.id ∈ page.2 := by
  have hallowed : Pool.Allowed plainServer.Spawns listAll := by
    intro i p h
    simp only [listAll, List.mem_cons, List.not_mem_nil, or_false, reduceCtorEq, false_or,
      Pool.Move.start.injEq] at h
    obtain ⟨rfl, rfl⟩ | ⟨rfl, rfl⟩ | ⟨rfl, rfl⟩ | ⟨rfl, rfl⟩ := h
    all_goals exact ⟨_, rfl⟩
  have hgrows : Pool.Guarded siteExec
      (fun P a Q => deletesUser a = false ∧ LaterUsers P.world Q.world) listAll
      (Serving.idle growing) := by
    decide +kernel
  have hpath := Pool.play_path_guarded siteMay_exec hallowed hgrows
  have hsplit : (Pool.play siteExec listAll (Serving.idle growing)).1 =
      (Pool.play siteExec listAll (Serving.idle growing)).1.dropLast ++
        [.call (.http 0) (.admin (.selectUsers (oneByOne.onPage 3).filter)) (.ok [])] := rfl
  have hpages : pagesRead (.http 0) (Pool.play siteExec listAll (Serving.idle growing)).1 =
      [((oneByOne.onPage 1).filter, ["u1"]), ((oneByOne.onPage 2).filter, ["u1"]),
        ((oneByOne.onPage 3).filter, [])] := rfl
  have hturn : InTurn oneByOne
      (pagesRead (.http 0) (Pool.play siteExec listAll (Serving.idle growing)).1) := by
    rw [hpages]
    intro k f ids hk
    match k with
    | 0 | 1 | 2 =>
        cases hk
        rfl
    | k + 3 => cases hk
  rw [hsplit] at hpath hturn ⊢
  refine ⟨rfl, ?_⟩
  exact pages_cover plainServer (Serving.idle growing) ⟨rfl, rfl, rfl⟩ (by decide +kernel) hpath
    (by decide +kernel) hturn rfl (by decide)

end Client

end XrayApi.HttpApi
