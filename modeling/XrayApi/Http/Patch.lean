import XrayApi.Service.Mirror
import XrayApi.Service.Plans

/-!
# PATCH bodies

The bodies of `PATCH /nodes/{id}` and `PATCH /plans/{id}`, from `internal/httpapi`: a JSON key may
be missing, its value may be null, or it may have a value. Decoding forgets the difference between
the first two, and for a field that is not a pointer also the difference to the zero value.

`Patch.Frame` says that a field whose key is missing is as it was. What the two `Update` methods
make of a missing key differs from field to field, and for five of them it is the zero value that is
stored: `patch_frame_iff` says when the frame holds all the same, and `patch_clears_unnamed` that a
rename turns TLS off and removes the limits of a plan.
-/

set_option autoImplicit false

namespace XrayApi.HttpApi

open Transition Store Relational Service NodeService PlanService

/-- One key of a JSON body. -/
inductive Member (α : Type)
  | absent
  | null
  | value (a : α)
  deriving DecidableEq, Repr

namespace Member

variable {α : Type}

/-- Decoded into a field of type `α`. -/
def plain (zero : α) : Member α → α
  | value a => a
  | _ => zero

/-- Decoded into a pointer. -/
def pointer : Member α → Option α
  | value a => some a
  | _ => none

end Member

/-- The body of a node. -/
structure NodeRequest where
  name : Member String
  apiAddress : Member String
  apiPort : Member Int
  apiTLS : Member Bool
  apiTLSServerName : Member String
  apiTLSInsecure : Member Bool
  apiCACert : Member String
  apiClientCert : Member String
  apiClientKey : Member String
  deriving DecidableEq, Repr

/-- The body of a plan. -/
structure PlanRequest where
  name : Member String
  dataLimitBytes : Member Int64
  durationDays : Member Int
  deriving DecidableEq, Repr

def NodeRequest.toInput (req : NodeRequest) : NodeInput where
  name := req.name.plain ""
  apiAddress := req.apiAddress.plain ""
  apiPort := req.apiPort.plain 0
  apiTLS := req.apiTLS.plain false
  apiTLSServerName := req.apiTLSServerName.plain ""
  apiTLSInsecure := req.apiTLSInsecure.plain false
  apiCACert := req.apiCACert.pointer
  apiClientCert := req.apiClientCert.pointer
  apiClientKey := req.apiClientKey.pointer

def PlanRequest.toInput (req : PlanRequest) : PlanInput where
  name := req.name.plain ""
  dataLimitBytes := req.dataLimitBytes.pointer
  durationDays := req.durationDays.pointer

/-! ## The frame -/

/-- Every configuration field whose key is missing is as it was. -/
structure NodeRequest.Frame (req : NodeRequest) (old new : Node) : Prop where
  name : req.name = .absent → new.name = old.name
  apiAddress : req.apiAddress = .absent → new.apiAddress = old.apiAddress
  apiPort : req.apiPort = .absent → new.apiPort = old.apiPort
  apiTLS : req.apiTLS = .absent → new.apiTLS = old.apiTLS
  apiTLSServerName : req.apiTLSServerName = .absent → new.apiTLSServerName = old.apiTLSServerName
  apiTLSInsecure : req.apiTLSInsecure = .absent → new.apiTLSInsecure = old.apiTLSInsecure
  apiCACert : req.apiCACert = .absent → new.apiCACert = old.apiCACert
  apiClientCert : req.apiClientCert = .absent → new.apiClientCert = old.apiClientCert
  apiClientKey : req.apiClientKey = .absent → new.apiClientKey = old.apiClientKey

structure PlanRequest.Frame (req : PlanRequest) (old new : Plan) : Prop where
  name : req.name = .absent → new.name = old.name
  dataLimitBytes : req.dataLimitBytes = .absent → new.dataLimitBytes = old.dataLimitBytes
  durationDays : req.durationDays = .absent → new.durationDays = old.durationDays

/-- The three TLS settings that are missing from the body are not set in the row. -/
structure NodeRequest.Unset (req : NodeRequest) (old : Node) : Prop where
  apiTLS : req.apiTLS = .absent → old.apiTLS = false
  apiTLSServerName : req.apiTLSServerName = .absent → old.apiTLSServerName = ""
  apiTLSInsecure : req.apiTLSInsecure = .absent → old.apiTLSInsecure = false

/-- The limits that are missing from the body are not set in the row. -/
structure PlanRequest.Unset (req : PlanRequest) (old : Plan) : Prop where
  dataLimitBytes : req.dataLimitBytes = .absent → old.dataLimitBytes = none
  durationDays : req.durationDays = .absent → old.durationDays = none

/-- A PATCH with its path and its body. -/
inductive Patch
  | node (id : ID) (req : NodeRequest)
  | plan (id : ID) (req : PlanRequest)

namespace Patch

/-- The request succeeds in `w` and leaves `w'`. -/
def Accepted (pem : Xray.PemParser) : Patch → World → World → Prop
  | node id req, w, w' => ∃ n, Returns (NodeService.update pem id req.toInput) w n w'
  | plan id req, w, w' => ∃ p, Returns (PlanService.update id req.toInput) w p w'

/-- The stored row keeps every field whose key is missing. -/
def Frame : Patch → Tables → Tables → Prop
  | node id req, t, t' =>
    ∀ old new, getNode t id = .ok old → getNode t' id = .ok new → req.Frame old new
  | plan id req, t, t' =>
    ∀ old new, getPlan t id = .ok old → getPlan t' id = .ok new → req.Frame old new

/-- The fields that `Update` copies whether their key is there or not are not set in the stored row,
if their key is missing. -/
def Unset : Patch → Tables → Prop
  | node id req, t => ∀ old, getNode t id = .ok old → req.Unset old
  | plan id req, t => ∀ old, getPlan t id = .ok old → req.Unset old

end Patch

/-! ## What an update stores -/

/-- What an update of a node that returns did to the tables. -/
theorem nodeUpdate_returns {pem : Xray.PemParser} {id : ID} {inp : NodeInput} {w w' : World}
    {n : Node} (h : Returns (NodeService.update pem id inp) w n w') :
    ∃ old, getNode w.tables id = .ok old ∧
      Store.updateNode w.tables (inp.withMaterial (inp.patch old)) = .ok w'.tables := by
  obtain ⟨old, w₁, h₁, h⟩ := returns_bind.1 h
  obtain ⟨hq₁, -⟩ := returns_query.1 h₁
  obtain ⟨hold, ht₁⟩ := StoreCall.read_eq_ok.1 hq₁
  refine ⟨old, hold, ?_⟩
  cases hm : inp.applyTLSMaterial pem (inp.patch old) with
  | error e =>
      simp only [hm] at h
      exact (not_returns_throw h).elim
  | ok n' =>
      simp only [hm] at h
      obtain ⟨u, w₂, h₂, h⟩ := returns_bind.1 h
      obtain ⟨hq₂, -⟩ := returns_query.1 h₂
      obtain ⟨v, w₃, h₃, h₄⟩ := returns_bind.1 h
      have ht₃ : w₃.tables = w₂.tables := by
        cases h₃
        rfl
      obtain ⟨hq₄, -⟩ := returns_query.1 h₄
      rw [(StoreCall.read_eq_ok.1 hq₄).2, ht₃, ← (applyTLSMaterial_eq_ok.1 hm).1, ← ht₁]
      exact StoreCall.wrote_eq_ok.1 hq₂

/-- The row after an update. -/
theorem getNode_updateNode {t t' : Tables} {n old : Node} (hold : getNode t n.id = .ok old)
    (h : Store.updateNode t n = .ok t') : getNode t' n.id = .ok (persistNode n old) := by
  obtain ⟨-, -, rfl⟩ := updateNode_eq_ok h
  have hold := getNode_eq_ok.1 hold
  refine getNode_eq_ok.2 ?_
  change lookup Node.id n.id (updateWhere _ _ t.nodes) = _
  rw [lookup_updateWhere _ (persistNode n) fun _ _ => rfl, hold]
  simp [key_of_lookup hold]

/-- The row a PATCH of `old` stores, field by field. -/
def NodeRequest.stored (req : NodeRequest) (old : Node) : Node :=
  persistNode (req.toInput.withMaterial (req.toInput.patch old)) old

theorem NodeRequest.stored_eq (req : NodeRequest) (old : Node) : req.stored old =
    { old with
      name := if req.name.plain "" ≠ "" then req.name.plain "" else old.name
      apiAddress := if req.apiAddress.plain "" ≠ "" then req.apiAddress.plain "" else old.apiAddress
      apiPort := if req.apiPort.plain 0 ≠ 0 then req.apiPort.plain 0 else old.apiPort
      apiTLS := req.apiTLS.plain false
      apiTLSServerName := req.apiTLSServerName.plain ""
      apiTLSInsecure := req.apiTLSInsecure.plain false
      apiCACert := req.apiCACert.pointer.getD old.apiCACert
      apiClientCert := req.apiClientCert.pointer.getD old.apiClientCert
      apiClientKey := req.apiClientKey.pointer.getD old.apiClientKey } := rfl

/-- Six of the nine fields always keep the frame. -/
theorem NodeRequest.frame_iff (req : NodeRequest) (old : Node) :
    req.Frame old (req.stored old) ↔ req.Unset old := by
  rw [req.stored_eq]
  constructor
  · intro h
    refine ⟨fun ha => ?_, fun ha => ?_, fun ha => ?_⟩
    · rw [← h.apiTLS ha, ha]
      rfl
    · rw [← h.apiTLSServerName ha, ha]
      rfl
    · rw [← h.apiTLSInsecure ha, ha]
      rfl
  · intro h
    exact {
      name := fun ha => by simp [ha, Member.plain]
      apiAddress := fun ha => by simp [ha, Member.plain]
      apiPort := fun ha => by simp [ha, Member.plain]
      apiTLS := fun ha => by rw [h.apiTLS ha, ha]; rfl
      apiTLSServerName := fun ha => by rw [h.apiTLSServerName ha, ha]; rfl
      apiTLSInsecure := fun ha => by rw [h.apiTLSInsecure ha, ha]; rfl
      apiCACert := fun ha => by rw [ha]; rfl
      apiClientCert := fun ha => by rw [ha]; rfl
      apiClientKey := fun ha => by rw [ha]; rfl }

theorem PlanRequest.frame_iff (req : PlanRequest) (old : Plan) :
    req.Frame old (req.toInput.patch old) ↔ req.Unset old := by
  have hrow : req.toInput.patch old =
      ⟨old.id, if req.name.plain "" ≠ "" then req.name.plain "" else old.name,
        req.dataLimitBytes.pointer, req.durationDays.pointer⟩ := rfl
  rw [hrow]
  constructor
  · intro h
    refine ⟨fun ha => ?_, fun ha => ?_⟩
    · rw [← h.dataLimitBytes ha, ha]
      rfl
    · rw [← h.durationDays ha, ha]
      rfl
  · intro h
    refine ⟨fun ha => ?_, fun ha => ?_, fun ha => ?_⟩
    · simp [ha, Member.plain]
    · rw [h.dataLimitBytes ha, ha]
      rfl
    · rw [h.durationDays ha, ha]
      rfl

/-- What is said of the rows before and after, when both are there. -/
theorem forall_ok_iff {α : Type} {x y : Except StoreErr α} {old new : α} (hx : x = .ok old)
    (hy : y = .ok new) {F : α → α → Prop} {U : α → Prop} (h : F old new ↔ U old) :
    (∀ r r', x = .ok r → y = .ok r' → F r r') ↔ ∀ r, x = .ok r → U r := by
  subst hx hy
  constructor
  · intro hF r hr
    cases hr
    exact h.1 (hF old new rfl rfl)
  · intro hU r r' hr hr'
    cases hr
    cases hr'
    exact h.2 (hU old rfl)

/-- An accepted PATCH changes only what it names exactly when the fields that are copied without
their key were not set before. -/
theorem patch_frame_iff (pem : Xray.PemParser) (p : Patch) {w w' : World}
    (h : p.Accepted pem w w') :
    p.Frame w.tables w'.tables ↔ p.Unset w.tables := by
  cases p with
  | node id req =>
      obtain ⟨n, hn⟩ := h
      obtain ⟨old, hold, hwrite⟩ := nodeUpdate_returns hn
      have hid : old.id = id := getNode_id hold
      subst hid
      have hnew := getNode_updateNode
        (n := req.toInput.withMaterial (req.toInput.patch old)) hold hwrite
      exact forall_ok_iff hold hnew (req.frame_iff old)
  | plan id req =>
      obtain ⟨q, hq⟩ := h
      obtain ⟨old, hold, hwrite, -⟩ := PlanService.update_returns hq
      have hid : old.id = id := getPlan_id hold
      subst hid
      have hnew := getPlan_updatePlan hwrite
      exact forall_ok_iff hold hnew (req.frame_iff old)

/-! ## Renames -/

/-- A body with a name and nothing else. -/
def renameNode (name : String) : NodeRequest :=
  ⟨.value name, .absent, .absent, .absent, .absent, .absent, .absent, .absent, .absent⟩

def renamePlan (name : String) : PlanRequest := ⟨.value name, .absent, .absent⟩

/-- A node that is reached over TLS, and a plan with a limit. -/
def configured : World :=
  .still ⟨{ Tables.empty with
      nodes := [{ Node.plain "n" with apiTLS := true }]
      plans := [⟨"p", "basic", some 1000, some 30⟩] },
    by constructor <;> simp [Tables.empty, UniqueNonNull]⟩

/-- A rename that names the TLS setting too. -/
def renameNamingTLS : Patch := .node "n" { renameNode "m" with apiTLS := .value true }

theorem patch_frame_iff_named :
    ∃ w', renameNamingTLS.Accepted NodeService.noPem configured w' ∧
      renameNamingTLS.Frame configured.tables w'.tables := by
  have haccepted : renameNamingTLS.Accepted NodeService.noPem configured
      ((NodeService.update NodeService.noPem "n"
        { (renameNode "m").toInput with apiTLS := true }).run exec configured).2 := ⟨_, rfl⟩
  refine ⟨_, haccepted, (patch_frame_iff NodeService.noPem _ haccepted).2 fun old hold => ?_⟩
  cases hold
  exact ⟨nofun, fun _ => rfl, fun _ => rfl⟩

/-- Renaming the node turns TLS off, and renaming the plan removes its limit and its duration. -/
theorem patch_clears_unnamed :
    (∃ w', (Patch.node "n" (renameNode "m")).Accepted NodeService.noPem configured w' ∧
        w'.tables.nodes = [{ Node.plain "n" with name := "m" }] ∧
        ¬ (Patch.node "n" (renameNode "m")).Frame configured.tables w'.tables) ∧
      ∃ w', (Patch.plan "p" (renamePlan "gold")).Accepted NodeService.noPem configured w' ∧
        w'.tables.plans = [⟨"p", "gold", none, none⟩] ∧
        ¬ (Patch.plan "p" (renamePlan "gold")).Frame configured.tables w'.tables := by
  refine ⟨⟨_, ⟨_, rfl⟩, rfl, fun h => ?_⟩, ⟨_, ⟨_, rfl⟩, rfl, fun h => ?_⟩⟩
  · cases (h _ _ rfl rfl).apiTLS rfl
  · cases (h _ _ rfl rfl).dataLimitBytes rfl

end XrayApi.HttpApi
