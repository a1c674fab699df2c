import Mathlib.Algebra.Order.Field.Basic
import Mathlib.Tactic.Linarith

/-!
# Timed requests

A machine that answers requests, each made at a time, and what it takes for two machines to give the
same answers (`outputs_eq`). The instance that matters here is the token bucket: it holds up to
`burst` tokens, gains `rate` of them per unit of time, and grants a request when there is one to
take.

Two buckets are `Alike` from a time on when they hold the same number of tokens at every time from
then on. This is what a request can see of a bucket, and it is kept by requests (`alike_allow`); a
bucket that has been idle long enough is like a full one (`fullFrom_allow`).

A deadline that is extended again and again is the latest of the `endings` (`stacks_foldl_extend`).
-/

set_option autoImplicit false

namespace XrayApi.Transition

/-! ## Machines -/

section Machines

variable {σ σ' ι ο τ : Type}

/-- The answers to the requests, one after the other. -/
def outputs (step : σ → ι → σ × ο) : σ → List ι → List ο
  | _, [] => []
  | s, i :: is => (step s i).2 :: outputs step (step s i).1 is

/-- Simulation of two machines whose requests come at times that do not decrease: the relation may
speak of the time of the last request. -/
theorem outputs_eq [Preorder τ] {step : σ → ι → σ × ο} {step' : σ' → ι → σ' × ο} {time : ι → τ}
    {R : τ → σ → σ' → Prop}
    (hstep : ∀ {t s s'} i, R t s s' → t ≤ time i →
      (step s i).2 = (step' s' i).2 ∧ R (time i) (step s i).1 (step' s' i).1)
    {t : τ} {s : σ} {s' : σ'} {is : List ι} (h : R t s s') (hfirst : ∀ i ∈ is, t ≤ time i)
    (hsorted : (is.map time).Pairwise (· ≤ ·)) : outputs step s is = outputs step' s' is := by
  induction is generalizing t s s' with
  | nil => rfl
  | cons i is ih =>
      obtain ⟨hanswer, hnext⟩ := hstep i h (hfirst i List.mem_cons_self)
      rw [List.map_cons, List.pairwise_cons] at hsorted
      have hlater : ∀ j ∈ is, time i ≤ time j := fun j hj => hsorted.1 _ (List.mem_map_of_mem hj)
      rw [outputs, outputs, hanswer, ih hnext hlater hsorted.2]

/-- The state after the requests. -/
def after (step : σ → ι → σ × ο) (s : σ) (is : List ι) : σ := is.foldl (fun s i => (step s i).1) s

theorem after_snoc (step : σ → ι → σ × ο) (s : σ) (is : List ι) (i : ι) :
    after step s (is ++ [i]) = (step (after step s is) i).1 := by
  rw [after, List.foldl_append]
  rfl

theorem outputs_append (step : σ → ι → σ × ο) (s : σ) (is js : List ι) :
    outputs step s (is ++ js) = outputs step s is ++ outputs step (after step s is) js := by
  induction is generalizing s with
  | nil => rfl
  | cons i is ih => exact congrArg _ (ih _)

/-- One machine for each key. -/
def perKey {κ : Type} [DecidableEq κ] (step : σ → ι → σ × ο) (s : κ → σ) (req : κ × ι) :
    (κ → σ) × ο :=
  (Function.update s req.1 (step (s req.1) req.2).1, (step (s req.1) req.2).2)

/-- The requests of one key and their answers. -/
def ofKey {κ : Type} [DecidableEq κ] (k : κ) (ios : List ((κ × ι) × ο)) : List (ι × ο) :=
  (ios.filter fun io => decide (io.1.1 = k)).map fun io => (io.1.2, io.2)

theorem ofKey_cons {κ : Type} [DecidableEq κ] (k : κ) (io : (κ × ι) × ο)
    (ios : List ((κ × ι) × ο)) :
    ofKey k (io :: ios) = if io.1.1 = k then (io.1.2, io.2) :: ofKey k ios else ofKey k ios := by
  unfold ofKey
  rw [List.filter_cons]
  by_cases h : io.1.1 = k
  · rw [if_pos h, if_pos (decide_eq_true h)]
    rfl
  · rw [if_neg h, if_neg (mt of_decide_eq_true h)]

/-- A key gets the answers of its own machine, whatever the others ask. -/
theorem outputs_ofKey {κ : Type} [DecidableEq κ] {step : σ → ι → σ × ο} {s : κ → σ}
    {ios : List ((κ × ι) × ο)} (h : outputs (perKey step) s (ios.map Prod.fst) = ios.map Prod.snd)
    (k : κ) : outputs step (s k) ((ofKey k ios).map Prod.fst) = (ofKey k ios).map Prod.snd := by
  induction ios generalizing s with
  | nil => rfl
  | cons io ios ih =>
      obtain ⟨⟨k', i⟩, o⟩ := io
      rw [List.map_cons, List.map_cons, outputs, List.cons.injEq] at h
      have hrest := ih h.2
      rw [ofKey_cons]
      by_cases hk : k' = k
      · subst hk
        simp only [perKey, Function.update_self] at hrest
        rw [if_pos rfl, List.map_cons, List.map_cons, outputs, hrest]
        exact congrArg (· :: _) h.1
      · simp only [perKey, Function.update_of_ne (Ne.symm hk)] at hrest
        rw [if_neg hk]
        exact hrest

end Machines

/-! ## Token buckets -/

/-- The tokens left by the last request that was granted, and its time. -/
structure TokenBucket (K : Type) where
  tokens : K
  last : K
deriving Repr, DecidableEq

namespace TokenBucket

variable {K : Type} [Field K] [LinearOrder K]

/-- A new bucket holds all its tokens, so the time of its last request is of no account. -/
def full (burst : K) : TokenBucket K := ⟨burst, 0⟩

section Requests

variable (rate burst : K) (b : TokenBucket K) (now : K)

/-- The tokens at a time. A clock that went back adds nothing. -/
def level : K := min burst (b.tokens + rate * (now - min now b.last))

/-- Take one token, if there is one. A request that is refused leaves no trace. -/
def allow : TokenBucket K × Bool :=
  if 1 ≤ b.level rate burst now then (⟨b.level rate burst now - 1, now⟩, true) else (b, false)

end Requests

/-- Nothing tells the two buckets apart from the time on. -/
def Alike (rate burst now : K) (b b' : TokenBucket K) : Prop :=
  ∀ t, now ≤ t → b.level rate burst t = b'.level rate burst t

/-- The bucket is full from the time on. -/
def FullFrom (rate burst start : K) (b : TokenBucket K) : Prop :=
  ∀ t, start ≤ t → b.level rate burst t = burst

variable {rate burst now : K} {b b' b'' : TokenBucket K}

namespace Alike

theorem refl (b : TokenBucket K) : Alike rate burst now b b := fun _ _ => rfl

theorem trans (h : Alike rate burst now b b') (h' : Alike rate burst now b' b'') :
    Alike rate burst now b b'' :=
  fun t ht => (h t ht).trans (h' t ht)

theorem later (h : Alike rate burst now b b') {t : K} (ht : now ≤ t) : Alike rate burst t b b' :=
  fun s hs => h s (ht.trans hs)

end Alike

theorem FullFrom.later {s s' : K} (h : FullFrom rate burst s b) (hs : s ≤ s') :
    FullFrom rate burst s' b :=
  fun t ht => h t (hs.trans ht)

theorem FullFrom.alike (h : FullFrom rate burst now b) (h' : FullFrom rate burst now b') :
    Alike rate burst now b b' :=
  fun t ht => (h t ht).trans (h' t ht).symm

/-- Buckets that are alike give the same answer, and are alike after it. -/
theorem alike_allow (h : Alike rate burst now b b') :
    (b.allow rate burst now).2 = (b'.allow rate burst now).2 ∧
      Alike rate burst now (b.allow rate burst now).1 (b'.allow rate burst now).1 := by
  unfold allow
  rw [h now le_rfl]
  split_ifs
  · exact ⟨rfl, .refl _⟩
  · exact ⟨rfl, h⟩

theorem level_le_burst (b : TokenBucket K) (t : K) : b.level rate burst t ≤ burst := min_le_left _ _

/-- A request that is granted takes one token. -/
theorem allow_cases (b : TokenBucket K) (rate burst now : K) :
    (1 ≤ b.level rate burst now ∧
        b.allow rate burst now = (⟨b.level rate burst now - 1, now⟩, true)) ∨
      (b.level rate burst now < 1 ∧ b.allow rate burst now = (b, false)) := by
  unfold allow
  split_ifs with h
  · exact .inl ⟨h, rfl⟩
  · exact .inr ⟨not_le.1 h, rfl⟩

variable [IsStrictOrderedRing K]

theorem fullFrom_full (hrate : 0 ≤ rate) : FullFrom rate burst now (full burst) := by
  intro t _
  have hgain : 0 ≤ rate * (t - min t 0) := mul_nonneg hrate (sub_nonneg.2 (min_le_left t 0))
  exact min_eq_left (le_add_of_nonneg_right hgain)

/-- A bucket that was full at the latest after `idle` without a request is so again after the next
one, if it gains all its tokens in that time. -/
theorem fullFrom_allow {last idle : K} (h : FullFrom rate burst (last + idle) b)
    (hlast : last ≤ now) (hrate : 0 ≤ rate) (hidle : 0 ≤ idle) (hgain : burst ≤ rate * idle) :
    FullFrom rate burst (now + idle) (b.allow rate burst now).1 := by
  unfold allow
  split_ifs with htoken
  · -- what is left does not count: the gain alone fills the bucket
    intro t ht
    have hnow : now ≤ t := (le_add_of_nonneg_right hidle).trans ht
    have hrefill : rate * idle ≤ rate * (t - now) :=
      mul_le_mul_of_nonneg_left (le_sub_iff_add_le'.2 ht) hrate
    refine min_eq_left ?_
    rw [min_eq_right hnow]
    linarith
  · exact h.later (by linarith)

/-! ### What a bucket grants -/

section Grants

variable {t t' : K} {ios : List (K × Bool)}

theorem level_nonneg (hrate : 0 ≤ rate) (hburst : 0 ≤ burst) (hb : 0 ≤ b.tokens) :
    0 ≤ b.level rate burst t := by
  have hgain : 0 ≤ rate * (t - min t b.last) := mul_nonneg hrate (sub_nonneg.2 (min_le_left _ _))
  exact le_min hburst (add_nonneg hb hgain)

/-- A bucket gains no more than its rate. -/
theorem level_le_add (hrate : 0 ≤ rate) (ht : t ≤ t') :
    b.level rate burst t' ≤ b.level rate burst t + rate * (t' - t) := by
  have hgain : 0 ≤ rate * (t' - t) := mul_nonneg hrate (sub_nonneg.2 ht)
  have hidle : t' - min t' b.last ≤ t - min t b.last + (t' - t) := by
    have : min t b.last ≤ min t' b.last := min_le_min_right _ ht
    linarith
  unfold level
  rw [min_add]
  refine min_le_min (le_add_of_nonneg_right hgain) ?_
  rw [add_assoc, ← mul_add]
  exact add_le_add_right (mul_le_mul_of_nonneg_left hidle hrate) _

/-- What is left of a token that is taken. -/
theorem level_spent (b : TokenBucket K) (rate burst now : K) :
    level rate burst ⟨b.level rate burst now - 1, now⟩ now = b.level rate burst now - 1 := by
  have hburst : b.level rate burst now ≤ burst := level_le_burst b now
  change min burst (b.level rate burst now - 1 + rate * (now - min now now)) = _
  rw [min_self, sub_self, mul_zero, add_zero]
  exact min_eq_right (by linarith)

/-- What is granted up to a time comes from the tokens there are and those gained till then. -/
theorem countP_granted_le (hrate : 0 ≤ rate) (hburst : 0 ≤ burst) (hb : 0 ≤ b.tokens)
    (hios : outputs (allow rate burst) b (ios.map Prod.fst) = ios.map Prod.snd)
    (hsorted : (ios.map Prod.fst).Pairwise (· ≤ ·)) (hfirst : ∀ io ∈ ios, t ≤ io.1) (ht : t ≤ t') :
    (ios.countP (fun io => io.2 && decide (io.1 ≤ t')) : K) ≤
      b.level rate burst t + rate * (t' - t) := by
  have hgain : 0 ≤ rate * (t' - t) := mul_nonneg hrate (sub_nonneg.2 ht)
  induction ios generalizing b t with
  | nil =>
      rw [List.countP_nil, Nat.cast_zero]
      exact add_nonneg (level_nonneg hrate hburst hb) hgain
  | cons io ios ih =>
      obtain ⟨now, o⟩ := io
      rw [List.map_cons, List.map_cons, outputs, List.cons.injEq] at hios
      rw [List.map_cons, List.pairwise_cons] at hsorted
      rw [List.forall_mem_cons] at hfirst
      have hlater : ∀ io ∈ ios, now ≤ io.1 := fun io hio => hsorted.1 _ (List.mem_map_of_mem hio)
      by_cases hnow : now ≤ t'
      · have hlevel : b.level rate burst now ≤ b.level rate burst t + rate * (now - t) :=
          level_le_add hrate hfirst.1
        have hsplit : rate * (t' - t) = rate * (now - t) + rate * (t' - now) := by
          rw [← mul_add, sub_add_sub_cancel']
        have hgain' : 0 ≤ rate * (t' - now) := mul_nonneg hrate (sub_nonneg.2 hnow)
        obtain ⟨htoken, hallow⟩ | ⟨-, hallow⟩ := allow_cases b rate burst now
        · -- the token that is taken pays for the request
          rw [hallow] at hios
          obtain ⟨rfl, hrest⟩ := hios
          have hcount := ih (sub_nonneg.2 htoken) hrest hsorted.2 hlater hnow hgain'
          rw [level_spent] at hcount
          rw [List.countP_cons_of_pos (by simpa using hnow), Nat.cast_succ]
          linarith
        · rw [hallow] at hios
          obtain ⟨rfl, hrest⟩ := hios
          have hcount := ih hb hrest hsorted.2 hlater hnow hgain'
          rw [List.countP_cons_of_neg (by simp)]
          linarith
      · have hnone : ((now, o) :: ios).countP (fun io => io.2 && decide (io.1 ≤ t')) = 0 := by
          refine List.countP_eq_zero.2 fun io hio => ?_
          have hlate : t' < io.1 := by
            obtain rfl | hio := List.mem_cons.1 hio
            · exact not_le.1 hnow
            · exact (not_le.1 hnow).trans_le (hlater io hio)
          simp [hlate]
        rw [hnone, Nat.cast_zero]
        exact add_nonneg (level_nonneg hrate hburst hb) hgain

/-- In any period, a bucket grants no more than it holds and gains. -/
theorem countP_granted_period_le (hrate : 0 ≤ rate) (hburst : 0 ≤ burst) (hb : 0 ≤ b.tokens)
    (hios : outputs (allow rate burst) b (ios.map Prod.fst) = ios.map Prod.snd)
    (hsorted : (ios.map Prod.fst).Pairwise (· ≤ ·)) (ht : t ≤ t') :
    (ios.countP (fun io => io.2 && decide (t ≤ io.1 ∧ io.1 ≤ t')) : K) ≤
      burst + rate * (t' - t) := by
  have hgain : 0 ≤ rate * (t' - t) := mul_nonneg hrate (sub_nonneg.2 ht)
  induction ios generalizing b with
  | nil =>
      rw [List.countP_nil, Nat.cast_zero]
      exact add_nonneg hburst hgain
  | cons io ios ih =>
      by_cases hnow : t ≤ io.1
      · -- the period has begun, and so it has for all that come later
        have hfirst : ∀ io' ∈ io :: ios, t ≤ io'.1 := by
          intro io' hio'
          obtain rfl | hio' := List.mem_cons.1 hio'
          · exact hnow
          · exact hnow.trans ((List.pairwise_cons.1 hsorted).1 _ (List.mem_map_of_mem hio'))
        have hcount := countP_granted_le hrate hburst hb hios hsorted hfirst ht
        have heq : (io :: ios).countP (fun io => io.2 && decide (t ≤ io.1 ∧ io.1 ≤ t')) =
            (io :: ios).countP (fun io => io.2 && decide (io.1 ≤ t')) := by
          refine List.countP_congr fun io' hio' => ?_
          simp [hfirst io' hio']
        rw [heq]
        exact hcount.trans (add_le_add_left (level_le_burst b t) _)
      · obtain ⟨now, o⟩ := io
        rw [List.map_cons, List.map_cons, outputs, List.cons.injEq] at hios
        rw [List.countP_cons_of_neg (by simp [hnow])]
        refine ih ?_ hios.2 (List.pairwise_cons.1 hsorted).2
        obtain ⟨htoken, hallow⟩ | ⟨-, hallow⟩ := allow_cases b rate burst now
        · rw [hallow]
          exact sub_nonneg.2 htoken
        · rw [hallow]
          exact hb

/-- Requests that leave the bucket the time to gain a token are all granted. -/
theorem forall_granted_of_paced (hrate : 0 < rate) (hburst : 1 ≤ burst)
    (hios : outputs (allow rate burst) b (ios.map Prod.fst) = ios.map Prod.snd)
    (hpaced : (ios.map Prod.fst).Pairwise fun t t' => t + 1 / rate ≤ t')
    (hb : ∀ io ∈ ios, 1 ≤ b.level rate burst io.1) : ∀ io ∈ ios, io.2 = true := by
  induction ios generalizing b with
  | nil => exact List.forall_mem_nil _
  | cons io ios ih =>
      obtain ⟨now, o⟩ := io
      rw [List.map_cons, List.map_cons, outputs, List.cons.injEq] at hios
      rw [List.map_cons, List.pairwise_cons] at hpaced
      rw [List.forall_mem_cons] at hb
      obtain ⟨htoken, hallow⟩ | ⟨hempty, -⟩ := allow_cases b rate burst now
      · rw [hallow] at hios
        refine List.forall_mem_cons.2 ⟨hios.1.symm, ih hios.2 hpaced.2 fun io hio => ?_⟩
        have hgap : now + 1 / rate ≤ io.1 := hpaced.1 _ (List.mem_map_of_mem hio)
        have hgain : 1 ≤ rate * (io.1 - now) := by
          have := mul_le_mul_of_nonneg_left (le_sub_iff_add_le'.2 hgap) hrate.le
          rwa [mul_one_div_cancel hrate.ne'] at this
        have hlast : now ≤ io.1 := by
          have : 0 < 1 / rate := one_div_pos.2 hrate
          linarith
        refine le_min hburst ?_
        rw [min_eq_right hlast]
        linarith
      · exact absurd hb.1 (not_le.2 hempty)

end Grants

end TokenBucket

/-! ## Deadlines -/

section Deadlines

variable {K : Type} [AddCommGroup K] [LinearOrder K]

/-- Extend a deadline at a time: from the deadline if it lies ahead, and from the time otherwise. -/
def extend (e : Option K) (p : K × K) : Option K :=
  some (e.elim p.1 (max p.1) + p.2)

/-- What the deadline may be in the end: the first one with all extensions, or the time of one
extension with all from there on. -/
def endings (e : Option K) (l : List (K × K)) : Set K :=
  { m | ∃ first ∈ e, m = first + (l.map Prod.snd).sum } ∪
    { m | ∃ earlier t d later, l = earlier ++ (t, d) :: later ∧
      m = t + (d + (later.map Prod.snd).sum) }

/-- The deadline is the latest ending, if there is one. -/
structure Stacks (e : Option K) (l : List (K × K)) (e' : Option K) : Prop where
  greatest : ∀ m, e' = some m ↔ IsGreatest (endings e l) m
  none_iff : e' = none ↔ endings e l = ∅

variable {e : Option K} {p : K × K} {l : List (K × K)} {m : K}

/-- After one extension no new ending has appeared. -/
theorem endings_extend_subset : endings (extend e p) l ⊆ endings e (p :: l) := by
  rintro m (⟨first, hfirst, rfl⟩ | ⟨earlier, t, d, later, rfl, rfl⟩)
  · cases hfirst
    rw [add_assoc]
    cases e with
    | none => exact .inr ⟨[], p.1, p.2, l, rfl, rfl⟩
    | some E =>
        -- the base is the time or the deadline
        obtain hbase | hbase := max_choice p.1 E
        · exact .inr ⟨[], p.1, p.2, l, rfl, congrArg (· + _) hbase⟩
        · exact .inl ⟨E, rfl, congrArg (· + _) hbase⟩
  · exact .inr ⟨p :: earlier, t, d, later, rfl, rfl⟩

theorem foldl_extend_eq_none (h : l.foldl extend e = none) : e = none ∧ l = [] := by
  induction l generalizing e with
  | nil => exact ⟨h, rfl⟩
  | cons p l ih => cases (ih h).1

variable [IsOrderedAddMonoid K]

/-- None of the endings that were lost was the latest. -/
theorem exists_le_of_mem_endings_cons (h : m ∈ endings e (p :: l)) :
    ∃ m' ∈ endings (extend e p) l, m ≤ m' := by
  have hhead : (e.elim p.1 (max p.1) + p.2) + (l.map Prod.snd).sum ∈ endings (extend e p) l :=
    .inl ⟨_, rfl, rfl⟩
  obtain ⟨first, hfirst, rfl⟩ | ⟨earlier, t, d, later, heq, rfl⟩ := h
  · cases hfirst
    refine ⟨_, hhead, ?_⟩
    rw [List.map_cons, List.sum_cons, ← add_assoc]
    exact add_le_add_left (add_le_add_left (le_max_right _ _) _) _
  · cases earlier with
    | nil =>
        cases heq
        refine ⟨_, hhead, ?_⟩
        rw [← add_assoc]
        refine add_le_add_left (add_le_add_left ?_ _) _
        cases e with
        | none => exact le_rfl
        | some E => exact le_max_left _ _
    | cons p' earlier =>
        cases heq
        exact ⟨_, .inr ⟨earlier, t, d, later, rfl, rfl⟩, le_rfl⟩

theorem isGreatest_foldl_extend (h : l.foldl extend e = some m) : IsGreatest (endings e l) m := by
  -- one extension at a time, from any first deadline: it makes no ending, and loses no latest one
  induction l generalizing e with
  | nil =>
      cases h
      refine ⟨.inl ⟨m, rfl, (add_zero m).symm⟩, ?_⟩
      rintro m' (⟨first, hfirst, rfl⟩ | ⟨earlier, t, d, later, heq, -⟩)
      · cases hfirst
        exact (add_zero _).le
      · exact (List.append_ne_nil_of_right_ne_nil _ (List.cons_ne_nil _ _) heq.symm).elim
  | cons p l ih =>
      obtain ⟨hmem, hbound⟩ := ih h
      refine ⟨endings_extend_subset hmem, fun m' hm' => ?_⟩
      obtain ⟨m'', hm'', hle⟩ := exists_le_of_mem_endings_cons hm'
      exact hle.trans (hbound hm'')

theorem stacks_foldl_extend (e : Option K) (l : List (K × K)) : Stacks e l (l.foldl extend e) := by
  have hempty : l.foldl extend e = none → endings e l = ∅ := by
    intro h
    obtain ⟨rfl, rfl⟩ := foldl_extend_eq_none h
    refine Set.eq_empty_iff_forall_notMem.2 ?_
    rintro m (⟨first, hfirst, -⟩ | ⟨earlier, t, d, later, heq, -⟩)
    · cases hfirst
    · exact List.append_ne_nil_of_right_ne_nil _ (List.cons_ne_nil _ _) heq.symm
  constructor
  · intro m
    refine ⟨isGreatest_foldl_extend, fun hm => ?_⟩
    cases h : l.foldl extend e with
    | none =>
        have hmem := hm.1
        rw [hempty h] at hmem
        exact hmem.elim
    | some m' => rw [(isGreatest_foldl_extend h).unique hm]
  · refine ⟨hempty, fun hnone => ?_⟩
    cases h : l.foldl extend e with
    | none => rfl
    | some m =>
        have hmem := (isGreatest_foldl_extend h).1
        rw [hnone] at hmem
        exact hmem.elim

/-- Two extensions at one time are one. -/
theorem extend_extend {t d d' : K} (hd : 0 ≤ d) :
    extend (extend e (t, d)) (t, d') = extend e (t, d + d') := by
  have hbase : t ≤ e.elim t (max t) := by
    cases e with
    | none => exact le_rfl
    | some E => exact le_max_left t E
  -- the first extension leaves the deadline ahead of the time, so the second starts there
  have hahead : max t (e.elim t (max t) + d) = e.elim t (max t) + d :=
    max_eq_right (hbase.trans (le_add_of_nonneg_right hd))
  change some (max t (e.elim t (max t) + d) + d') = some (e.elim t (max t) + (d + d'))
  rw [hahead, add_assoc]

theorem foldl_extend_block {t : K} {ds : List K} (hds : ds ≠ []) (hpos : ∀ d ∈ ds, 0 ≤ d) :
    (ds.map fun d => (t, d)).foldl extend e = extend e (t, ds.sum) := by
  induction ds generalizing e with
  | nil => exact (hds rfl).elim
  | cons d ds ih =>
      rw [List.forall_mem_cons] at hpos
      rw [List.map_cons, List.foldl_cons, List.sum_cons]
      cases ds with
      | nil => rw [List.map_nil, List.foldl_nil, List.sum_nil, add_zero]
      | cons d' ds => rw [ih (List.cons_ne_nil _ _) hpos.2, extend_extend hpos.1]

end Deadlines

end XrayApi.Transition
