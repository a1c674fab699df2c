import XrayApi.Http.RateLimit
import XrayApi.Store.Admin
import XrayApi.System.Exec
import XrayApi.Transition.Embed

/-!
# The running server

The shared state of the server: the world of the services and workers, the rest of the database that
the admin API works on, and the rate limiter of the public endpoints. `SiteStmt` has the steps on
it: those of the services, the store calls of the admin API, and the question to the limiter.

A program of the services runs on the server as it is (`core`).
-/

set_option autoImplicit false

namespace XrayApi

open Transition Store HttpApi

/-- The state of the server. -/
structure Site where
  world : World
  apiKeys : APIKeys
  createdAt : ID → Time
  lower : Char → Char
  zone : Zone
  /-- `none` when the limit is disabled. -/
  limiter : Option IpLimiter

namespace Site

/-- The tables of the services. -/
abbrev tables (σ : Site) : Tables := σ.world.tables

/-- The database. -/
def archive (σ : Site) : Archive := ⟨σ.world.db, σ.apiKeys, σ.createdAt, σ.lower, σ.zone⟩

/-- The server with another database. -/
def withArchive (σ : Site) (a : Archive) : Site where
  world := { σ.world with db := a.db }
  apiKeys := a.apiKeys
  createdAt := a.createdAt
  lower := a.lower
  zone := a.zone
  limiter := σ.limiter

end Site

/-- One step on the state of the server. -/
inductive SiteStmt
  | core (s : Stmt)
  | admin (q : AdminCall)
  | allow (ip : String) (now : ℚ)

namespace SiteStmt

/-- The type of a step's answer. -/
@[reducible] def Res : SiteStmt → Type
  | core s => s.Res
  | admin q => Except StoreErr q.Out
  | allow _ _ => Bool

end SiteStmt

/-- One step. Without a limiter every request passes. -/
def siteExec : (s : SiteStmt) → Site → s.Res × Site
  | .core s, σ => ((exec s σ.world).1, { σ with world := (exec s σ.world).2 })
  | .admin q, σ => ((Archive.exec q σ.archive).1, σ.withArchive (Archive.exec q σ.archive).2)
  | .allow ip now, σ =>
    match σ.limiter with
    | none => (true, σ)
    | some l => ((l.allow (ip, now)).2, { σ with limiter := some (l.allow (ip, now)).1 })

/-- What a step may answer and do. A store call may also fail for want of a connection, and between
the steps the nodes run on; a user that is created gets some time of creation, and the others keep
theirs. -/
def SiteMay : Sem SiteStmt SiteStmt.Res Site
  | .core s, σ, r, σ' => ∃ w' created, Meets s σ.world r w' ∧
      (∀ u ∈ σ.tables.users, created u.id = σ.createdAt u.id) ∧
      σ' = { σ with world := w', createdAt := created }
  | .admin q, σ, r, σ' =>
    (Archive.Answers q σ.archive r ∧ σ' = σ.withArchive (Archive.exec q σ.archive).2) ∨
      ∃ text, r = .error (.internal text) ∧ σ' = σ
  | .allow ip now, σ, r, σ' => siteExec (.allow ip now) σ = (r, σ')

theorem siteMay_exec (s : SiteStmt) (σ : Site) : SiteMay s σ (siteExec s σ).1 (siteExec s σ).2 := by
  cases s with
  | core s => exact ⟨_, σ.createdAt, (mayFail_exec s σ.world).meets, fun _ _ => rfl, rfl⟩
  | admin q => exact Or.inl ⟨Archive.answers_exec σ.archive q, rfl⟩
  | allow ip now => rfl

/-! ## Programs -/

/-- A request of the admin API that may fail. -/
abbrev SiteService (α : Type) : Type := Req SiteStmt SiteStmt.Res Err α

/-- A program of the services, on the server. -/
def core {α : Type} (p : Service α) : SiteService α := Prog.embed SiteStmt.core (fun _ r => r) p

/-- A store call of the admin API whose error is returned. -/
def ask (q : AdminCall) : SiteService q.Out :=
  Prog.call (.admin q) fun r => Prog.ret (r.mapError Err.store)

theorem core_forall {α : Type} {p : Service α} {P : Stmt → Prop} {P' : SiteStmt → Prop}
    (hP : ∀ s, P s → P' (.core s)) (hp : Prog.Forall P p) : Prog.Forall P' (core p) :=
  Prog.Forall.embed hP hp

/-! ## What a step does to the parts of the state -/

section Frames

variable {σ σ' : Site}

/-- A step of the services leaves the keys alone. -/
theorem apiKeys_core {s : Stmt} {r : s.Res} (h : SiteMay (.core s) σ r σ') :
    σ'.apiKeys = σ.apiKeys := by
  obtain ⟨w', created, -, -, rfl⟩ := h
  rfl

theorem apiKeys_allow {ip : String} {now : ℚ} {r : Bool} (h : SiteMay (.allow ip now) σ r σ') :
    σ'.apiKeys = σ.apiKeys := by
  have hσ : σ' = (siteExec (.allow ip now) σ).2 := (congrArg Prod.snd h).symm
  rw [hσ, siteExec]
  split <;> rfl

end Frames

end XrayApi
