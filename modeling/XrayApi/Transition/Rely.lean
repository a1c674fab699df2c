import XrayApi.Transition.Prog

/-!
# Programs among others

`Prog.Leads` is about one program whose statements are interleaved with those of others. As long as
the others keep `I`, the program issues `quiet` statements only, until it returns a value with
`post` or comes to a statement with `mark`. Unlike `Prog.Until` it looks at the answers that are
possible in a world with `I` and at no others.

`Prog.Guarantees` is the rule of rely and guarantee: as long as the others stay within `rely`, every
step of the program is `ok`. What is `ok` may depend on the worlds before and after the step, on the
answer and on the rest of the program.
-/

set_option autoImplicit false

namespace XrayApi.Transition

variable {S : Type} {R : S → Type} {W α β : Type}

/-- With answers from worlds that satisfy `I`, the statements of the program are `quiet` up to one
with `mark`, or up to a return with `post`. -/
def Prog.Leads (sem : Sem S R W) (I : W → Prop) (quiet : S → Prop) (post : α → Prop)
    (mark : (s : S) → (R s → Prog S R α) → Prop) : Prog S R α → Prop
  | ret a => post a
  | call s k => mark s k ∨
      (quiet s ∧ ∀ w r w', I w → sem s w r w' → (k r).Leads sem I quiet post mark)

variable {sem : Sem S R W} {I : W → Prop} {quiet : S → Prop}

theorem Prog.Leads.bind {post : β → Prop} {mark : (s : S) → (R s → Prog S R β) → Prop}
    {p : Prog S R α} {f : α → Prog S R β}
    (h : p.Leads sem I quiet (fun a => (f a).Leads sem I quiet post mark) fun _ _ => False) :
    (p.bind f).Leads sem I quiet post mark := by
  induction p with
  | ret a => exact h
  | call s k ih =>
      obtain hmark | ⟨hq, hk⟩ := h
      · exact hmark.elim
      · exact Or.inr ⟨hq, fun w r w' hw hsem => ih r (hk w r w' hw hsem)⟩

theorem Prog.Leads.mono {post post' : α → Prop} {mark : (s : S) → (R s → Prog S R α) → Prop}
    (hpost : ∀ a, post a → post' a) {p : Prog S R α} (h : p.Leads sem I quiet post mark) :
    p.Leads sem I quiet post' mark := by
  induction p with
  | ret a => exact hpost a h
  | call s k ih => exact h.imp_right fun ⟨hq, hk⟩ =>
      ⟨hq, fun w r w' hw hsem => ih r (hk w r w' hw hsem)⟩

/-- The rule for requests: the first part returns a value, and the rest leads on from it. -/
theorem Req.leads_bind {E : Type} {post : Except E β → Prop}
    {mark : (s : S) → (R s → Prog S R (Except E β)) → Prop} {p : Req S R E α} {f : α → Req S R E β}
    (h : Prog.Leads sem I quiet (fun r => ∃ a, r = .ok a ∧ Prog.Leads sem I quiet post mark (f a))
      (fun _ _ => False) p) :
    Prog.Leads sem I quiet post mark (p >>= f : Req S R E β) := by
  refine Prog.Leads.bind (Prog.Leads.mono ?_ h)
  rintro r ⟨a, rfl, ha⟩
  exact ha

/-! ## Rely and guarantee -/

/-- With others that stay within `rely`, every step of the program from here is `ok`, and a value it
returns has `post`. -/
def Prog.Guarantees (sem : Sem S R W) (rely : W → W → Prop)
    (ok : (s : S) → W → R s → W → Prog S R α → Prop) (post : α → Prop) : Prog S R α → W → Prop
  | ret a, _ => post a
  | call s k, w => ∀ v r v', rely w v → sem s v r v' →
      ok s v r v' (k r) ∧ (k r).Guarantees sem rely ok post v'

variable {rely : W → W → Prop}

/-- A step of the others. -/
theorem Prog.Guarantees.others {ok : (s : S) → W → R s → W → Prog S R α → Prop} {post : α → Prop}
    (htrans : ∀ u v w, rely u v → rely v w → rely u w) {p : Prog S R α} {w w' : W}
    (h : p.Guarantees sem rely ok post w) (hw : rely w w') : p.Guarantees sem rely ok post w' := by
  cases p with
  | ret a => exact h
  | call s k => exact fun v r v' hv hsem => h v r v' (htrans w w' v hw hv) hsem

/-- The first part may be held to a stricter standard. -/
theorem Prog.Guarantees.bind {ok' : (s : S) → W → R s → W → Prog S R α → Prop}
    {ok : (s : S) → W → R s → W → Prog S R β → Prop} {post' : α → Prop} {post : β → Prop}
    {p : Prog S R α} {f : α → Prog S R β} {w : W} (h : p.Guarantees sem rely ok' post' w)
    (hok : ∀ s v r v' q, ok' s v r v' q → ok s v r v' (q.bind f))
    (hf : ∀ a, post' a → ∀ v, (f a).Guarantees sem rely ok post v) :
    (p.bind f).Guarantees sem rely ok post w := by
  induction p generalizing w with
  | ret a => exact hf a h w
  | call s k ih =>
      intro v r v' hv hsem
      exact ⟨hok s v r v' _ (h v r v' hv hsem).1, ih r (h v r v' hv hsem).2⟩

/-- Statements whose steps are `ok` whatever follows. -/
theorem Prog.Forall.guarantees {ok : (s : S) → W → R s → W → Prog S R α → Prop} {post : α → Prop}
    (hpost : ∀ a, post a) {p : Prog S R α}
    (h : p.Forall fun s => ∀ v r v' q, sem s v r v' → ok s v r v' q) (w : W) :
    p.Guarantees sem rely ok post w := by
  induction p generalizing w with
  | ret a => exact hpost a
  | call s k ih => exact fun v r v' _ hsem => ⟨h.1 v r v' _ hsem, ih r (h.2 r) v'⟩

/-! ## Runs of requests -/

/-- A request that succeeds is its first part, with a value, followed by the rest. -/
theorem Req.runs_bind_ok {E : Type} (hrefl : ∀ w, rely w w) {p : Req S R E α} {f : α → Req S R E β}
    {w w' : W} {tr : List (Event S R)} {b : β} (h : Runs sem rely (p >>= f).prog w tr (.ok b) w') :
    ∃ a w₁ tr₁ tr₂, Runs sem rely p.prog w tr₁ (.ok a) w₁ ∧
      Runs sem rely (f a).prog w₁ tr₂ (.ok b) w' := by
  obtain ⟨r, w₁, tr₁, tr₂, h₁, h₂, -⟩ := Runs.bind_inv hrefl h
  cases r with
  | ok a => exact ⟨a, w₁, tr₁, tr₂, h₁, h₂⟩
  | error e => cases (Runs.ret_inv h₂).1

end XrayApi.Transition
