import Mathlib.Data.List.Nodup
import XrayApi.Transition.Path

/-!
# Serial orders

Operations `i` whose effect on an abstract state is `effect i`, executed by a system in many steps
each. If every step of the system either does nothing to the abstract state or is the point at which
one operation takes effect, and no operation takes effect twice, then a run of the system is the
operations one after the other, in the order of these points (`Path.linearize`).
-/

set_option autoImplicit false

namespace XrayApi.Transition

variable {σ τ ℓ ι : Type}

/-- The operations in `order`, one after the other. -/
abbrev Serial (effect : ι → τ → τ → Prop) : τ → List ι → τ → Prop :=
  Path fun c i d => effect i c d

/-- The linearization rule. `R s c D` relates the system in `s` to the abstract state `c` after the
operations in `D`; a `bad` state is given up. -/
theorem Path.linearize {step : σ → ℓ → σ → Prop} (effect : ι → τ → τ → Prop) (bad : σ → Prop)
    (R : σ → τ → (ι → Prop) → Prop) (hbad : ∀ s l t, bad s → step s l t → bad t)
    (hstep : ∀ s l t c D, R s c D → step s l t →
      bad t ∨ R t c D ∨ ∃ i d, ¬ D i ∧ effect i c d ∧ R t d fun j => D j ∨ j = i)
    {s t : σ} {ls : List ℓ} (h : Path step s ls t) {c : τ} (hs : R s c fun _ => False) :
    bad t ∨ ∃ order d, order.Nodup ∧ Serial effect c order d ∧ R t d (· ∈ order) := by
  induction h with
  | nil =>
      refine Or.inr ⟨[], c, List.nodup_nil, Path.nil c, ?_⟩
      simpa using hs
  | snoc _ hlast ih =>
      obtain hb | ⟨order, d, hnodup, hserial, hR⟩ := ih
      · exact Or.inl (hbad _ _ _ hb hlast)
      · obtain hb | hR | ⟨i, e, hi, heffect, hR⟩ := hstep _ _ _ _ _ hR hlast
        · exact Or.inl hb
        · exact Or.inr ⟨order, d, hnodup, hserial, hR⟩
        · refine Or.inr ⟨order ++ [i], e, ?_, hserial.snoc heffect, ?_⟩
          · exact List.nodup_append.2 ⟨hnodup, List.nodup_singleton i, fun a ha b hb => by
              rw [List.mem_singleton.1 hb]
              exact fun hai => hi (hai ▸ ha)⟩
          · simpa using hR

end XrayApi.Transition
