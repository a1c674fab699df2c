import Mathlib.Data.List.Basic

/-!
# Labelled paths of a step relation

`Path step s ls t` is a finite run from `s` to `t` whose steps carry the labels `ls`, in order. The
file has the two rules every safety proof of the development goes through: a property kept by each
step is kept by each run (`Path.invariant`), and a run is cut at any of its labels (`Path.split`).
`Path.follow` turns a schedule of moves into a run, which is how concrete runs are exhibited.
-/

set_option autoImplicit false

namespace XrayApi.Transition

universe u v u' v'

variable {σ : Type u} {ℓ : Type v}

/-- A finite run with its labels, the last step at the end. -/
inductive Path (step : σ → ℓ → σ → Prop) : σ → List ℓ → σ → Prop
  | nil (s : σ) : Path step s [] s
  | snoc {s t u : σ} {ls : List ℓ} {l : ℓ} :
      Path step s ls t → step t l u → Path step s (ls ++ [l]) u

namespace Path

variable {step step' : σ → ℓ → σ → Prop} {s t u : σ} {ls ms : List ℓ} {l : ℓ}

theorem single (h : step s l t) : Path step s [l] t :=
  Path.snoc (Path.nil s) h

theorem append (h : Path step s ls t) (h' : Path step t ms u) : Path step s (ls ++ ms) u := by
  induction h' with
  | nil => simpa using h
  | snoc _ hstep ih =>
      rw [← List.append_assoc]
      exact Path.snoc ih hstep

theorem cons (h : step s l t) (h' : Path step t ls u) : Path step s (l :: ls) u :=
  append (single h) h'

/-- A run over `ls ++ ms` is a run over `ls` followed by a run over `ms`. -/
theorem split (h : Path step s (ls ++ ms) u) : ∃ t, Path step s ls t ∧ Path step t ms u := by
  generalize hks : ls ++ ms = ks at h
  induction h generalizing ms with
  | nil =>
      obtain ⟨rfl, rfl⟩ := List.append_eq_nil_iff.1 hks
      exact ⟨_, Path.nil _, Path.nil _⟩
  | snoc hrun hstep ih =>
      rcases List.eq_nil_or_concat ms with rfl | ⟨ms', m, rfl⟩
      · rw [List.append_nil] at hks
        subst hks
        exact ⟨_, Path.snoc hrun hstep, Path.nil _⟩
      · rw [List.concat_eq_append, ← List.append_assoc] at hks
        obtain ⟨hpre, hlast⟩ := List.append_inj' hks rfl
        obtain ⟨v, hv, hv'⟩ := ih hpre
        rw [List.cons.injEq] at hlast
        obtain ⟨rfl, -⟩ := hlast
        refine ⟨v, hv, ?_⟩
        rw [List.concat_eq_append]
        exact Path.snoc hv' hstep

theorem snoc_inv (h : Path step s (ls ++ [l]) u) : ∃ t, Path step s ls t ∧ step t l u := by
  generalize hks : ls ++ [l] = ks at h
  cases h with
  | nil => simp at hks
  | snoc hrun hstep =>
      obtain ⟨rfl, hlast⟩ := List.append_inj' hks rfl
      rw [List.cons.injEq] at hlast
      obtain ⟨rfl, -⟩ := hlast
      exact ⟨_, hrun, hstep⟩

theorem eq_of_nil (h : Path step s [] t) : s = t := by
  generalize hks : ([] : List ℓ) = ks at h
  cases h with
  | nil => rfl
  | snoc => simp at hks

theorem cons_inv (h : Path step s (l :: ls) u) : ∃ t, step s l t ∧ Path step t ls u := by
  obtain ⟨t, h₁, h₂⟩ := split (show Path step s ([l] ++ ls) u from h)
  obtain ⟨s', hnil, hstep⟩ := snoc_inv (show Path step s ([] ++ [l]) t from h₁)
  obtain rfl := eq_of_nil hnil
  exact ⟨t, hstep, h₂⟩

/-- The invariant rule: a property kept by every step is kept by every run. -/
theorem invariant {I : σ → Prop} (hstep : ∀ s l t, I s → step s l t → I t)
    (h : Path step s ls t) (hs : I s) : I t := by
  induction h with
  | nil => exact hs
  | snoc _ hlast ih => exact hstep _ _ _ ih hlast

/-- The invariant rule for a property of the state and the labels so far. -/
theorem history {I : List ℓ → σ → Prop}
    (hstep : ∀ ls s l t, I ls s → step s l t → I (ls ++ [l]) t)
    (h : Path step s ls t) (hs : I [] s) : I ls t := by
  induction h with
  | nil => exact hs
  | snoc _ hlast ih => exact hstep _ _ _ _ ih hlast

/-- A run whose labels all satisfy `C` is a run of the steps that do. -/
theorem restrict {C : ℓ → Prop} (h : Path step s ls t) (hC : ∀ l ∈ ls, C l) :
    Path (fun s l t => step s l t ∧ C l) s ls t := by
  induction h with
  | nil => exact Path.nil _
  | snoc _ hlast ih =>
      exact Path.snoc (ih fun l hl => hC l (List.mem_append_left _ hl))
        ⟨hlast, hC _ (List.mem_append_right _ (List.mem_singleton.2 rfl))⟩

/-- A simulation: if every step from related states is matched by a step to related states, with the
label renamed by `f`, then so is every run. -/
theorem simulate {τ : Type u'} {ℓ' : Type v'} {step₂ : τ → ℓ' → τ → Prop} {R : σ → τ → Prop}
    {f : ℓ → ℓ'} (hsim : ∀ s l t c, R s c → step s l t → ∃ d, step₂ c (f l) d ∧ R t d)
    (h : Path step s ls t) {c : τ} (hs : R s c) : ∃ d, Path step₂ c (ls.map f) d ∧ R t d := by
  induction h with
  | nil => exact ⟨c, Path.nil _, hs⟩
  | snoc _ hlast ih =>
      obtain ⟨d, hd, hR⟩ := ih
      obtain ⟨e, he, hR'⟩ := hsim _ _ _ _ hR hlast
      rw [List.map_append]
      exact ⟨e, Path.snoc hd he, hR'⟩

/-- A simulation that keeps the labels. -/
theorem simulate_same {τ : Type u'} {step₂ : τ → ℓ → τ → Prop} {R : σ → τ → Prop}
    (hsim : ∀ s l t c, R s c → step s l t → ∃ d, step₂ c l d ∧ R t d)
    (h : Path step s ls t) {c : τ} (hs : R s c) : ∃ d, Path step₂ c ls d ∧ R t d := by
  obtain ⟨d, hd, hR⟩ := simulate (f := id) hsim h hs
  rw [List.map_id] at hd
  exact ⟨d, hd, hR⟩

/-- Runs of a smaller step relation are runs of a larger one. -/
theorem mono (hsub : ∀ s l t, step s l t → step' s l t) (h : Path step s ls t) :
    Path step' s ls t := by
  induction h with
  | nil => exact Path.nil _
  | snoc _ hlast ih => exact Path.snoc ih (hsub _ _ _ hlast)

/-! ## Schedules -/

section Schedules

variable {μ : Type v'} {next : σ → μ → Option (ℓ × σ)}

/-- Follow a schedule, skipping the moves that are not enabled. -/
def follow (next : σ → μ → Option (ℓ × σ)) : List μ → σ → List ℓ × σ
  | [], s => ([], s)
  | m :: ms, s =>
    match next s m with
    | none => follow next ms s
    | some (l, t) => (l :: (follow next ms t).1, (follow next ms t).2)

/-- Every step of the schedule is taken in a state where its label satisfies `G`. -/
def Guarded (next : σ → μ → Option (ℓ × σ)) (G : σ → ℓ → Prop) : List μ → σ → Prop
  | [], _ => True
  | m :: ms, s =>
    match next s m with
    | none => Guarded next G ms s
    | some (l, t) => G s l ∧ Guarded next G ms t

theorem guarded_of_forall {G : σ → ℓ → Prop} (hG : ∀ s l, G s l) (ms : List μ) (s : σ) :
    Guarded next G ms s := by
  induction ms generalizing s with
  | nil => trivial
  | cons m ms ih =>
      unfold Guarded
      split
      · exact ih s
      · next l t _ => exact ⟨hG s l, ih t⟩

/-- A schedule is a run of the steps that satisfy its guard. -/
theorem follow_guarded (hnext : ∀ s m l t, next s m = some (l, t) → step s l t)
    {G : σ → ℓ → Prop} {ms : List μ} {s : σ} (hG : Guarded next G ms s) :
    Path (fun s l t => step s l t ∧ G s l) s (follow next ms s).1 (follow next ms s).2 := by
  induction ms generalizing s with
  | nil => exact Path.nil s
  | cons m ms ih =>
      cases hm : next s m with
      | none =>
          simp only [follow, Guarded, hm] at hG ⊢
          exact ih hG
      | some lt =>
          simp only [follow, Guarded, hm] at hG ⊢
          exact Path.cons ⟨hnext s m _ _ hm, hG.1⟩ (ih hG.2)

/-- A schedule is a run. -/
theorem follow_path (hnext : ∀ s m l t, next s m = some (l, t) → step s l t) (ms : List μ) (s : σ) :
    Path step s (follow next ms s).1 (follow next ms s).2 :=
  (follow_guarded hnext (guarded_of_forall (G := fun _ _ => True) (fun _ _ => trivial) ms s)).mono
    fun _ _ _ h => h.1

end Schedules

end Path

end XrayApi.Transition
