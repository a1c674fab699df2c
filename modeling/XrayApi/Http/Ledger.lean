import XrayApi.Http.Soundness
import XrayApi.Worker.Metering

/-!
# What a usage report says

The collectors write snapshots, the pruner drops old ones, and a usage report sums those of a user
in a period. The `ledger` of a run has what the collectors have committed for the user in the
period, in order. As long as nobody deletes the user or a node and the pruner stays behind the
period, the snapshots of the period are those there were at first and the ledger of the run
(`period_of_path`). So a report has every byte that was committed by the time it was made and none
else, in the bucket of its day or of its node, whatever the server did meanwhile
(`usage_reports_ledger`).
-/

set_option autoImplicit false

namespace XrayApi.HttpApi

open Transition Store Relational Worker

section Period

variable (userID : ID) (since upto : Time)

/-- The snapshots of the period that a step has committed for the user. -/
def logged : SiteAct → List TrafficSnapshot
  | .call _ (.core (.db (.applyTrafficDeltas nodeID deltas collectedAt))) (.ok _) =>
    ((deltas.filter recorded).map (snapshotOf nodeID collectedAt)).filter
      (inPeriod userID since upto)
  | _ => []

/-- Those of a run. -/
def ledger (ls : List SiteAct) : List TrafficSnapshot := ls.flatMap (logged userID since upto)

/-- The step takes no snapshot of the period away: neither the user nor a node is deleted, and no
snapshot is pruned that is not older than the period. -/
def Retains : SiteAct → Prop
  | .call _ (.core (.db (.deleteUser id))) _ => id ≠ userID
  | .call _ (.core (.db (.deleteNode _))) _ => False
  | .call _ (.admin (.pruneSnapshots before)) _ => before ≤ since
  | _ => True

end Period

section Runs

variable {s : Server} {userID : ID} {since upto : Time} {P Q : Serving} {ls : List SiteAct}

/-- Rows that a filter keeps are not lost by another one that lets them pass. -/
theorem period_of_filter {t t' : Tables} {p : TrafficSnapshot → Bool}
    (ht : t'.trafficSnapshots = t.trafficSnapshots.filter p)
    (hp : ∀ r, inPeriod userID since upto r = true → p r = true) :
    period t' userID since upto = period t userID since upto := by
  unfold period
  rw [ht, List.filter_filter]
  refine List.filter_congr fun r _ => ?_
  cases hr : inPeriod userID since upto r with
  | false => rfl
  | true => rw [hp r hr, Bool.true_and]

theorem logged_eq_nil {a : SiteAct} (ha : ∀ i nodeID deltas collectedAt ids, a ≠
    .call i (.core (.db (.applyTrafficDeltas nodeID deltas collectedAt))) (.ok ids)) :
    logged userID since upto a = [] := by
  unfold logged
  split
  · exact (ha _ _ _ _ _ rfl).elim
  · rfl

/-- A store call that succeeds adds what it commits, unless it takes something away. -/
theorem period_apply {q : StoreCall} {o a : q.Out} {t t' : Tables} {i : SiteThread}
    (hq : .trafficSnapshots ∈ q.changes)
    (hkeep : Retains userID since (.call i (.core (.db q)) (.ok a)))
    (h : q.apply t = .ok (o, t')) :
    period t' userID since upto =
      period t userID since upto ++ logged userID since upto (.call i (.core (.db q)) (.ok a)) := by
  cases q with
  | deleteNode id => exact hkeep.elim
  | deleteUser id =>
      obtain ⟨-, hok⟩ := requireUser_eq_ok.1 (StoreCall.wrote_eq_ok.1 h)
      cases hok
      refine (period_of_filter rfl fun r hr => ?_).trans (List.append_nil _).symm
      obtain ⟨huser, -⟩ := of_decide_eq_true hr
      exact decide_eq_true fun heq => hkeep (heq.symm.trans huser)
  | applyTrafficDeltas nodeID deltas collectedAt =>
      unfold period
      rw [applyTrafficDeltas_snapshots h, List.filter_append]
      rfl
  | _ => exact absurd hq (by simp [StoreCall.changes])

/-- A prune that stays behind the period takes nothing of it away. -/
theorem period_pruneSnapshots {t : Tables} {before : Time} (h : before ≤ since) :
    period (pruneSnapshots t before).2 userID since upto = period t userID since upto := by
  refine period_of_filter rfl fun r hr => ?_
  obtain ⟨-, hsince, -⟩ := of_decide_eq_true hr
  simp only [Bool.not_eq_true', decide_eq_false_iff_not, Int.not_lt]
  exact le_trans h hsince

/-- A step that takes nothing away adds what it commits. -/
theorem period_of_step {a : SiteAct} (hkeep : Retains userID since a) (h : s.Step P a Q) :
    period Q.world.tables userID since upto =
      period P.world.tables userID since upto ++ logged userID since upto a := by
  cases a with
  | start i p =>
      rw [h.start_inv.2.2.1]
      exact (List.append_nil _).symm
  | call i st r =>
      obtain ⟨-, -, hsem, -⟩ := h.call_inv
      by_cases hst : .trafficSnapshots ∈ st.changes
      · cases st with
        | core st =>
            cases st with
            | db q =>
                obtain ⟨w', created, hmeets, -, hQ⟩ := hsem
                rw [hQ]
                obtain ⟨e, rfl, htables⟩ | ⟨a, o, rfl, -, happly⟩ := mayFail_db (meets_db.1 hmeets)
                · rw [logged_eq_nil (fun _ _ _ _ _ heq => by cases heq), List.append_nil]
                  unfold period Site.tables
                  rw [htables]
                · exact period_apply hst hkeep happly
            | _ => exact absurd hst (by simp [SiteStmt.changes, Stmt.changes])
        | admin q =>
            cases q with
            | pruneSnapshots before =>
                rw [logged_eq_nil (fun _ _ _ _ _ heq => by cases heq), List.append_nil]
                obtain ⟨-, hQ⟩ | ⟨text, -, hQ⟩ := hsem
                · rw [hQ]
                  exact period_pruneSnapshots hkeep
                · rw [hQ]
            | _ => exact absurd hst (by simp [SiteStmt.changes, AdminCall.changes])
        | allow ip now => exact absurd hst (by simp [SiteStmt.changes])
      · have hsame : Q.world.tables.trafficSnapshots = P.world.tables.trafficSnapshots :=
          same_of_siteMay hsem hst
        rw [logged_eq_nil, List.append_nil, period, period, hsame]
        rintro j nodeID deltas collectedAt ids heq
        cases heq
        exact hst (List.mem_cons_of_mem _ List.mem_cons_self)

/-- The snapshots of the period are those there were and the ledger of the run. -/
theorem period_of_path (h : Path s.Step P ls Q) (hls : ∀ a ∈ ls, Retains userID since a) :
    period Q.world.tables userID since upto =
      period P.world.tables userID since upto ++ ledger userID since upto ls := by
  induction h with
  | nil => exact (List.append_nil _).symm
  | @snoc M M' ls a _ hstep ih =>
      have hbefore := ih fun b hb => hls b (List.mem_append_left _ hb)
      have ha : Retains userID since a := hls a (List.mem_append_right _ (List.mem_singleton.2 rfl))
      rw [period_of_step ha hstep, hbefore, ledger, ledger, List.flatMap_append,
        List.flatMap_singleton, List.append_assoc]

/-! ## Reports -/

/-- The report was answered by the store. -/
def Reported (userID : ID) (since upto : Time) (groupBy : String) (buckets : List UsageBucket)
    (st : SiteStmt) (r : st.Res) : Prop :=
  (⟨st, r⟩ : Event SiteStmt SiteStmt.Res) =
    ⟨.admin (.userUsage userID since upto groupBy), .ok buckets⟩

/-- What the store answers are the sums of the snapshots it has. -/
theorem reports_of_reported {σ σ' : Site} {groupBy : String} {buckets : List UsageBucket}
    {e : Event SiteStmt SiteStmt.Res}
    (hreported : Reported userID since upto groupBy buckets e.stmt e.answer)
    (h : SiteMay e.stmt σ e.answer σ') :
    Reports σ.zone groupBy (period σ.tables userID since upto) buckets := by
  obtain rfl : e = ⟨.admin (.userUsage userID since upto groupBy), .ok buckets⟩ := hreported
  obtain ⟨hanswer, -⟩ | ⟨text, hr, -⟩ := h
  · exact reports_of_mapM (Eq.symm hanswer)
  · cases hr

/-- No step changes the time zone of the sessions. -/
theorem zone_of_siteMay {st : SiteStmt} {r : st.Res} {σ σ' : Site} (h : SiteMay st σ r σ') :
    σ'.zone = σ.zone := by
  cases st with
  | core st =>
      obtain ⟨w', created, -, -, rfl⟩ := h
      rfl
  | admin q =>
      obtain ⟨-, rfl⟩ | ⟨text, -, rfl⟩ := h
      · exact (σ.archive.exec_keeps q).2
      · rfl
  | allow ip now =>
      obtain rfl : (siteExec (.allow ip now) σ).2 = σ' := congrArg Prod.snd h
      rw [siteExec]
      split <;> rfl

theorem zone_of_path (h : Path s.Step P ls Q) : Q.world.zone = P.world.zone := by
  refine Path.invariant (I := fun M : Serving => M.world.zone = P.world.zone) ?_ h rfl
  intro M a M' hM hstep
  cases a with
  | start i p => rw [hstep.start_inv.2.2.1, hM]
  | call i st r =>
      obtain ⟨-, -, hsem, -⟩ := hstep.call_inv
      rw [zone_of_siteMay hsem, hM]

/-- The response is not this report. -/
def NoReport (since upto : Time) (groupBy : String) (buckets : List UsageBucket)
    (a : Option Response) : Prop :=
  ∀ resp, a = some resp → resp.body ≠ .usage since upto groupBy buckets

/-- A handler returns a report only if the store has answered it. -/
theorem handleUserUsage_behind (since upto : Time) (groupBy : String) (buckets : List UsageBucket)
    (d : Draws) (id : ID) (sinceParam uptoParam : TimeParam) (param : String) :
    ((handleUserUsage d id sinceParam uptoParam param).bind fun r => .ret (some r)).Behind
      (fun _ => True) (Reported id since upto groupBy buckets)
      (NoReport since upto groupBy buckets) := by
  -- a response without a report
  have hother : ∀ resp : Response, (∀ b₁ b₂ g bs, resp.body ≠ .usage b₁ b₂ g bs) →
      NoReport since upto groupBy buckets (some resp) := by
    intro resp hbody resp' heq
    cases heq
    exact hbody _ _ _ _
  unfold handleUserUsage
  split
  · exact hother _ fun _ _ _ _ h => by cases h
  · next since' hsince =>
      split
      · exact hother _ fun _ _ _ _ h => by cases h
      · next upto' hupto =>
          refine ⟨trivial, fun r => Or.inr ?_⟩
          cases r with
          | error e => exact hother _ fun _ _ _ _ h => by cases h
          | ok u =>
              refine ⟨trivial, fun r => ?_⟩
              cases r with
              | error e => exact Or.inr (hother _ fun _ _ _ _ h => by cases h)
              | ok buckets' =>
                  by_cases heq : Body.usage since' upto' (if param ≠ "node" then "day" else param)
                    buckets' = .usage since upto groupBy buckets
                  · cases heq
                    exact Or.inl rfl
                  · refine Or.inr fun resp h => ?_
                    cases h
                    exact heq

/-- A request for a report is behind the lookup of its key, and then behind the store. -/
theorem serve_usage_behind (since upto : Time) (groupBy : String) (buckets : List UsageBucket)
    {req : Request} {id : ID} {sinceParam uptoParam : TimeParam} {param : String}
    (hroute : req.route = .admin (.userUsage id sinceParam uptoParam param)) :
    (s.serve req).Behind (fun _ => True) (Reported id since upto groupBy buckets)
      (NoReport since upto groupBy buckets) := by
  have hhandler := handleUserUsage_behind since upto groupBy buckets req.draws id sinceParam
    uptoParam param
  have hrefused : NoReport since upto groupBy buckets (some unauthorized) := by
    intro resp heq
    cases heq
    exact fun h => by cases h
  unfold Server.serve Server.handle Server.authMiddleware APIKeyService.verify
  simp only [hroute]
  split_ifs with hempty hboot
  · exact hrefused
  · exact hhandler
  · refine ⟨trivial, fun ans => Or.inr ?_⟩
    cases ans with
    | error e => exact hrefused
    | ok k => exact hhandler

/-- A usage report has what was stored for the user in its period when the server started and what
the collectors had committed for it by some moment of the request, in the bucket of its day or of
its node, whatever runs beside it; its buckets add up to that, no byte more and none less. -/
theorem usage_reports_ledger (s : Server) (σ : Site) (h : Path s.Step (Serving.idle σ) ls Q)
    {n : Nat} {req : Request} {id : ID} {sinceParam uptoParam : TimeParam} {param : String}
    (hroute : req.route = .admin (.userUsage id sinceParam uptoParam param))
    {es : List (Event SiteStmt SiteStmt.Res)}
    (hsession : session (.http n) ls = some (s.serve req, es)) {resp : Response}
    (hresp : Q.prog (.http n) = .ret (some resp)) {groupBy : String} {buckets : List UsageBucket}
    (hbody : resp.body = .usage since upto groupBy buckets)
    (hls : ∀ a ∈ ls, Retains id since a) :
    ∃ ls₁ ls₂ es', ls = ls₁ ++ ls₂ ∧ session (.http n) ls₁ = some (s.serve req, es') ∧
      es' <+: es ∧ (∀ q, Act.start (.http n) q ∉ ls₂) ∧
      Reports σ.zone groupBy (period σ.tables id since upto ++ ledger id since upto ls₁) buckets ∧
      (buckets.map fun b => b.uplink.toInt).sum =
        uplinkTotal (period σ.tables id since upto) + uplinkTotal (ledger id since upto ls₁) ∧
      (buckets.map fun b => b.downlink.toInt).sum =
        downlinkTotal (period σ.tables id since upto) +
          downlinkTotal (ledger id since upto ls₁) := by
  obtain ⟨-, hemits⟩ := Pool.emits_of_session h hsession
  obtain ⟨e, he, hreported⟩ | ⟨-, hrest⟩ :=
    hemits.behind (serve_usage_behind since upto groupBy buckets hroute)
  · obtain ⟨ls₁, ls₂, M, M', es', hsplit, hpre, hsem, -, hsession₁, hes, hstart⟩ :=
      Pool.call_of_session h hsession he
    refine ⟨ls₁, _, es', hsplit, hsession₁, (List.prefix_append _ _).trans hes, hstart, ?_⟩
    have hretains : ∀ a ∈ ls₁, Retains id since a := by
      intro a ha
      refine hls a ?_
      rw [hsplit]
      exact List.mem_append_left _ ha
    have hreports := reports_of_reported hreported hsem
    have hzone : M.world.zone = σ.zone := zone_of_path hpre
    rw [period_of_path hpre hretains, hzone] at hreports
    exact ⟨hreports, hreports.sum_uplink.trans (total_append _ _ _),
      hreports.sum_downlink.trans (total_append _ _ _)⟩
  · rw [hresp] at hrest
    exact (hrest resp rfl hbody).elim

/-- The shop with its first customer and one key; the node has counted some traffic. -/
def busy : Site :=
  { oneKey with
    world := { EndToEnd.sold with
      traffic := fun _ => TrafficReport.merge .empty [⟨"a@example.com", 5, 7⟩] } }

/-- A request for the usage of the customer. -/
def reporting : Request :=
  { revoking "secret" with route := .admin (.userUsage "u1" (.at 0) (.at 1) "") }

/-- The traffic is collected, then the report is made. -/
def collectAndReport : List (Pool.Move SiteThread SiteStmt SiteStmt.Res (Option Response)) :=
  [.start (.worker 0) (WorkerJob.round (.new (.plain "n1")) (.collect inOrder)).prog,
    .fire (.worker 0), .fire (.worker 0), .fire (.worker 0), .fire (.worker 0),
    .start (.http 0) (plainServer.serve reporting),
    .fire (.http 0), .fire (.http 0), .fire (.http 0)]

/-- The report has the traffic that was collected. -/
theorem usage_reports_ledger_first :
    ∃ ls₁, Reports .utc "day" (ledger "u1" 0 1 ls₁) [⟨"1970-01-01", 5, 7⟩] ∧
      uplinkTotal (ledger "u1" 0 1 ls₁) = 5 := by
  have hallowed : Pool.Allowed plainServer.Spawns collectAndReport := by
    intro i p h
    simp only [collectAndReport, List.mem_cons, List.not_mem_nil, or_false, reduceCtorEq, false_or,
      Pool.Move.start.injEq] at h
    obtain ⟨rfl, rfl⟩ | ⟨rfl, rfl⟩ := h
    · exact ⟨_, rfl⟩
    · exact ⟨_, rfl⟩
  have hpath := Pool.play_path_of_exec siteMay_exec hallowed (Serving.idle busy)
  have hretains : ∀ a ∈ (Pool.play siteExec collectAndReport (Serving.idle busy)).1,
      Retains "u1" 0 a := by
    repeat (first | exact List.forall_mem_nil _ | refine List.forall_mem_cons.2 ⟨trivial, ?_⟩)
  have hsession : session (.http 0) (Pool.play siteExec collectAndReport (Serving.idle busy)).1 =
      some (plainServer.serve reporting, _) := rfl
  have hresp : (Pool.play siteExec collectAndReport (Serving.idle busy)).2.prog (.http 0) =
      .ret (some (writeJSON 200 (.usage 0 1 "day" [⟨"1970-01-01", 5, 7⟩]))) := rfl
  obtain ⟨ls₁, ls₂, es', -, -, -, -, hreports, hsum, -⟩ :=
    usage_reports_ledger plainServer busy hpath rfl hsession hresp rfl hretains
  exact ⟨ls₁, hreports, ((Int.zero_add _).symm.trans hsum.symm)⟩

end Runs

end XrayApi.HttpApi
