import XrayApi.Http.Api
import XrayApi.Transition.Session
import XrayApi.Worker.Manager

/-!
# The server at work

The server runs many requests at a time, beside the workers and the command line. `Server.Step` is
one step of this pool: a thread issues its next statement, or starts a request, a job of a worker or
`genkey`. The statements of different threads come in any order. Beside them the nodes run on.
-/

set_option autoImplicit false

namespace XrayApi.HttpApi

open Transition Store

inductive SiteThread
  | http (n : Nat)
  | cli (n : Nat)
  | worker (n : Nat)
  deriving DecidableEq, Repr

/-- What a thread runs; a request returns its response. -/
abbrev SiteJob : Type := Prog SiteStmt SiteStmt.Res (Option Response)

abbrev SiteAct : Type := Act SiteThread SiteStmt SiteStmt.Res (Option Response)

/-- The server with what its threads have still to do. -/
abbrev Serving : Type := Pool SiteThread SiteStmt SiteStmt.Res Site (Option Response)

/-- A program whose result nobody waits for. -/
def silently {α : Type} (p : Prog SiteStmt SiteStmt.Res α) : SiteJob := p.bind fun _ => .ret none

/-- What the goroutines of the manager run: `Start`, the rounds of the node actors, those of the
expiry sweeper and those of the snapshot pruner. -/
inductive WorkerJob
  | start
  | round (a : Worker.ActorState) (rd : Worker.Round)
  | sweepExpired (now : Time)
  | prune (retentionDays : Int) (now : Time)

def WorkerJob.prog : WorkerJob → SiteJob
  | start => silently (core NodeService.start).prog
  | round a rd => silently (Prog.embed SiteStmt.core (fun _ r => r) (rd.prog a))
  | sweepExpired now => silently (core (Worker.sweepExpired now)).prog
  | prune retentionDays now => silently (Worker.prune retentionDays now)

namespace Server

variable (s : Server)

def serve (req : Request) : SiteJob := (s.handle req).bind fun r => .ret (some r)

/-- `runGenKey`. -/
def genKey (name : String) (id : ID) (token : String) : SiteJob :=
  silently (APIKeyService.create s.hashKey name id token).prog

/-- What the threads may start. -/
def Spawns : SiteThread → SiteJob → Prop
  | .http _, p => ∃ req, p = s.serve req
  | .cli _, p => ∃ name id token, p = s.genKey name id token
  | .worker _, p => ∃ job : WorkerJob, p = job.prog

/-- One step of the server. -/
def Step : Serving → SiteAct → Serving → Prop := Pool.Step SiteMay s.Spawns

end Server

/-- No thread runs. -/
def Serving.idle (σ : Site) : Serving := ⟨σ, fun _ => .ret none⟩

/-! ## Statements of a handler -/

section Statements

variable {α : Type} {P : SiteStmt → Prop}

theorem silently_forall {p : Prog SiteStmt SiteStmt.Res α} (h : p.Forall P) :
    (silently p).Forall P :=
  h.bind fun _ => trivial

theorem respond_forall {p : SiteService α} {ok : α → Response} (h : Prog.Forall P p) :
    (respond p ok).Forall P :=
  Prog.Forall.bind h fun _ => trivial

theorem decoded_forall {body : Except String α} {next : α → Handler}
    (h : ∀ a, body = .ok a → (next a).Forall P) : (decoded body next).Forall P := by
  cases body with
  | error text => trivial
  | ok a => exact h a rfl

theorem ask_forall {q : AdminCall} (h : P (.admin q)) : Prog.Forall P (ask q) :=
  ⟨h, fun _ => trivial⟩

/-- The statements of a request: those of the guard, then those of the handler. -/
theorem serve_forall {s : Server} {req : Request}
    (hfind : ∀ hash now, P (.admin (.findAPIKeyByHash hash now)))
    (hpublic : ∀ r, req.route = .limited r →
      P (.allow req.ip req.arrival) ∧ (s.handlePublic req.draws r).Forall P)
    (hadmin : ∀ r, req.route = .admin r → (s.handleAdmin req.draws r).Forall P) :
    (s.serve req).Forall P := by
  refine Prog.Forall.bind ?_ fun _ => trivial
  unfold Server.handle
  cases hr : req.route with
  | healthz => trivial
  | metrics => trivial
  | limited r =>
      refine ⟨(hpublic r hr).1, fun ok => ?_⟩
      cases ok with
      | false => trivial
      | true => exact (hpublic r hr).2
  | admin r =>
      dsimp only
      unfold Server.authMiddleware APIKeyService.verify
      split_ifs with hempty hboot
      · trivial
      · exact hadmin r hr
      · refine ⟨hfind _ _, fun ans => ?_⟩
        cases ans with
        | error e => trivial
        | ok k => exact hadmin r hr

end Statements

end XrayApi.HttpApi
