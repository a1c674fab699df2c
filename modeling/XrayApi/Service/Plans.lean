import XrayApi.Service.Sequential

/-!
# The plan service

The operations of `internal/service/plans.go`. A creation checks its payload; an update copies the
limit and the duration of its payload as they are.
-/

set_option autoImplicit false

namespace XrayApi.PlanService

open Transition Store Relational Service

/-- The payload of a creation or an update. -/
structure PlanInput where
  name : String
  dataLimitBytes : Option Int64
  durationDays : Option Int
  deriving DecidableEq, Repr

/-- The columns of the payload, under the id of the new row. -/
def PlanInput.newPlan (inp : PlanInput) (id : ID) : Plan :=
  ⟨id, inp.name, inp.dataLimitBytes, inp.durationDays⟩

/-- The row an update writes: an empty name leaves the stored one. -/
def PlanInput.patch (inp : PlanInput) (p : Plan) : Plan :=
  { p with
    name := if inp.name ≠ "" then inp.name else p.name
    dataLimitBytes := inp.dataLimitBytes
    durationDays := inp.durationDays }

/-- `PlanService.Create`; `id` is the new UUID. -/
def create (inp : PlanInput) (id : ID) : Service Plan :=
  if isBlank inp.name then Req.throw (.validation "name is required")
  else if ∃ limit ∈ inp.dataLimitBytes, limit < 0 then
    Req.throw (.validation "data_limit_bytes must be >= 0")
  else if ∃ days ∈ inp.durationDays, days < 0 then
    Req.throw (.validation "duration_days must be >= 0")
  else do
    query (.createPlan (inp.newPlan id))
    query (.getPlan id)

def update (id : ID) (inp : PlanInput) : Service Plan := do
  let p : Plan ← query (.getPlan id)
  query (.updatePlan (inp.patch p))
  query (.getPlan id)

def delete (id : ID) : Service Unit := query (.deletePlan id)

/-- An operation with its arguments. -/
inductive PlanOp
  | create (inp : PlanInput) (id : ID)
  | update (id : ID) (inp : PlanInput)
  | delete (id : ID)

/-- The operation; its result is dropped. -/
def PlanOp.service : PlanOp → Service Unit
  | create inp id => do
    let _ ← PlanService.create inp id
    pure ()
  | update id inp => do
    let _ ← PlanService.update id inp
    pure ()
  | delete id => PlanService.delete id

section Rows

variable {t t' : Tables} {id : ID} {p : Plan}

theorem getPlan_eq_ok : getPlan t id = .ok p ↔ lookup Plan.id id t.plans = some p := by
  unfold getPlan oneRow
  cases lookup Plan.id id t.plans with
  | none => simp
  | some v => simp

theorem getPlan_id (h : getPlan t id = .ok p) : p.id = id :=
  key_of_lookup (getPlan_eq_ok.1 h)

theorem getPlan_mem (h : getPlan t id = .ok p) : p ∈ t.plans :=
  mem_of_lookup (getPlan_eq_ok.1 h)

/-- The row of an update is the row that was written. -/
theorem getPlan_updatePlan (h : updatePlan t p = .ok t') : getPlan t' p.id = .ok p := by
  obtain ⟨hid, -, rfl⟩ := updatePlan_eq_ok h
  obtain ⟨r, hr⟩ := exists_lookup_of_mem hid
  refine getPlan_eq_ok.2 ?_
  change lookup Plan.id p.id (updateWhere _ _ t.plans) = _
  rw [lookup_updateWhere _ _ fun s hs => (of_decide_eq_true hs).symm, hr]
  simp [key_of_lookup hr]

end Rows

/-- What an update that returns did to the tables. -/
theorem update_returns {id : ID} {inp : PlanInput} {w w' : World} {p : Plan}
    (h : Returns (update id inp) w p w') :
    ∃ old, getPlan w.tables id = .ok old ∧ updatePlan w.tables (inp.patch old) = .ok w'.tables ∧
      getPlan w'.tables id = .ok p := by
  obtain ⟨old, w₁, h₁, h⟩ := returns_bind.1 h
  obtain ⟨hq₁, -⟩ := returns_query.1 h₁
  obtain ⟨hold, ht₁⟩ := StoreCall.read_eq_ok.1 hq₁
  obtain ⟨u, w₂, h₂, h₃⟩ := returns_bind.1 h
  obtain ⟨hq₂, -⟩ := returns_query.1 h₂
  obtain ⟨hq₃, -⟩ := returns_query.1 h₃
  obtain ⟨hp, ht₃⟩ := StoreCall.read_eq_ok.1 hq₃
  rw [ht₁] at hq₂
  rw [ht₃]
  exact ⟨old, hold, StoreCall.wrote_eq_ok.1 hq₂, hp⟩

end XrayApi.PlanService
