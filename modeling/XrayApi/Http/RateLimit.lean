import Mathlib.Algebra.Order.Ring.Rat
import Mathlib.Tactic.NormNum
import XrayApi.Relational.Table
import XrayApi.Transition.Timed

/-!
# The rate limiter of the public endpoints

`allow` keeps one token bucket for each client address. Buckets that have been idle for longer than
`ipBucketTTL` are dropped when there are too many. What the limiter is for is said by `Spec.allow`:
one bucket for each address, full at first, kept for ever. The limiter refines it whichever idle
buckets it drops (`Harmless`, `outputs_eq_spec`), because a bucket is full again long before it may
be dropped.

Times are in seconds. `rate.Limiter` is taken to be an exact token bucket; it counts in floating
point.
-/

set_option autoImplicit false

namespace XrayApi.HttpApi

open Transition Relational

/-! ## The limiter -/

/-- An entry of the map: the address, its token bucket and the time of its last request. -/
structure IpBucket where
  ip : String
  lim : TokenBucket ℚ
  lastSeen : ℚ

def IpBucket.seenAt (now : ℚ) (b : IpBucket) : IpBucket := { b with lastSeen := now }

/-- `rate` and `burst` never change, so they stand here and not in every bucket. -/
structure IpLimiter where
  buckets : List IpBucket
  rate : ℚ
  burst : ℤ
  distinct : (buckets.map IpBucket.ip).Nodup

def ipBucketTTL : ℚ := 10 * 60

theorem ipBucketTTL_nonneg : 0 ≤ ipBucketTTL := by
  norm_num [ipBucketTTL]

/-- No limiter when it is disabled. -/
def newIPLimiter (perMinute : ℤ) : Option IpLimiter :=
  if perMinute ≤ 0 then none else some ⟨[], perMinute / 60, perMinute, List.nodup_nil⟩

namespace IpLimiter

/-- The bucket of the address, a new one if it has none, with the time of this request. -/
def touch (l : IpLimiter) (ip : String) (now : ℚ) : IpLimiter :=
  { l with
    buckets := upsert IpBucket.ip (IpBucket.seenAt now) ⟨ip, .full l.burst, now⟩ l.buckets
    distinct := nodup_map_upsert (fun _ => rfl) l.distinct }

/-- The token bucket of the address; a new one if it has none. -/
def limiterOf (l : IpLimiter) (ip : String) : TokenBucket ℚ :=
  ((lookup IpBucket.ip ip l.buckets).map IpBucket.lim).getD (.full l.burst)

def setLimiter (l : IpLimiter) (ip : String) (lim : TokenBucket ℚ) : IpLimiter :=
  { l with
    buckets := updateWhere (fun b => decide (b.ip = ip)) (fun b => { b with lim := lim }) l.buckets
    distinct := by
      rw [map_updateWhere]
      · exact l.distinct
      · exact fun _ _ => rfl }

def pruneLocked (l : IpLimiter) (now : ℚ) : IpLimiter :=
  { l with
    buckets := l.buckets.filter fun b => !decide (b.lastSeen < now - ipBucketTTL)
    distinct := nodup_map_filter l.distinct _ }

/-- What `allow` does before it asks the bucket. -/
def pruneIfMany (l : IpLimiter) (now : ℚ) : IpLimiter :=
  if l.buckets.length > 10000 then l.pruneLocked now else l

/-- A request at a time. The bucket is looked up before the eviction, so it is asked even if it is
dropped. -/
def allowBy (evict : IpLimiter → ℚ → IpLimiter) (l : IpLimiter) (req : String × ℚ) :
    IpLimiter × Bool :=
  let touched := l.touch req.1 req.2
  let answer := (touched.limiterOf req.1).allow l.rate l.burst req.2
  ((evict touched req.2).setLimiter req.1 answer.1, answer.2)

def allow : IpLimiter → String × ℚ → IpLimiter × Bool := allowBy pruneIfMany

/-- The limiter that never drops a bucket. -/
def allowUnpruned : IpLimiter → String × ℚ → IpLimiter × Bool := allowBy fun l _ => l

end IpLimiter

/-! ## What it is for -/

namespace Spec

/-- One bucket for each address. -/
def allow (rate burst : ℚ) (buckets : String → TokenBucket ℚ) (req : String × ℚ) :
    (String → TokenBucket ℚ) × Bool :=
  let answer := (buckets req.1).allow rate burst req.2
  (Function.update buckets req.1 answer.1, answer.2)

end Spec

/-! ## Refinement -/

namespace IpLimiter

variable {l : IpLimiter} {ip : String} {now : ℚ}

/-- Every bucket has been seen by now, and is full once it has been idle for `ipBucketTTL`. -/
def Settled (l : IpLimiter) (now : ℚ) : Prop :=
  ∀ b ∈ l.buckets, b.lastSeen ≤ now ∧
    TokenBucket.FullFrom l.rate l.burst (b.lastSeen + ipBucketTTL) b.lim

/-- Ten minutes are enough to fill a bucket. -/
structure Refills (l : IpLimiter) : Prop where
  rate : 0 ≤ l.rate
  gain : l.burst ≤ l.rate * ipBucketTTL

theorem limiterOf_eq_of_mem {b : IpBucket} (hb : b ∈ l.buckets) : l.limiterOf b.ip = b.lim := by
  rw [limiterOf, (lookup_eq_some_iff l.distinct).2 ⟨hb, rfl⟩]
  rfl

theorem limiterOf_eq_of_notMem (h : ip ∉ l.buckets.map IpBucket.ip) :
    l.limiterOf ip = .full l.burst := by
  rw [limiterOf, lookup_eq_none_iff.2 h]
  rfl

theorem lookup_touch (ip' : String) :
    lookup IpBucket.ip ip' (l.touch ip now).buckets =
      if ip' = ip then
        some (((lookup IpBucket.ip ip' l.buckets).getD ⟨ip, .full l.burst, now⟩).seenAt now)
      else lookup IpBucket.ip ip' l.buckets :=
  lookup_upsert (f := IpBucket.seenAt now) fun _ => rfl

@[simp] theorem limiterOf_touch (ip' : String) :
    (l.touch ip now).limiterOf ip' = l.limiterOf ip' := by
  unfold limiterOf
  rw [lookup_touch]
  by_cases h : ip' = ip
  · rw [if_pos h]
    cases lookup IpBucket.ip ip' l.buckets with
    | none => rfl
    | some b => rfl
  · rw [if_neg h]
    rfl

theorem mem_touch {b : IpBucket} : b ∈ (l.touch ip now).buckets ↔
    b = ⟨ip, l.limiterOf ip, now⟩ ∨ b.ip ≠ ip ∧ b ∈ l.buckets := by
  have hlookup : ∀ l : IpLimiter, b ∈ l.buckets ↔ lookup IpBucket.ip b.ip l.buckets = some b := by
    intro l
    rw [lookup_eq_some_iff l.distinct]
    exact ⟨fun hb => ⟨hb, rfl⟩, And.left⟩
  rw [hlookup, hlookup l, lookup_touch]
  by_cases hip : b.ip = ip
  · have hnew : ((lookup IpBucket.ip ip l.buckets).getD ⟨ip, .full l.burst, now⟩).seenAt now =
        ⟨ip, l.limiterOf ip, now⟩ := by
      unfold limiterOf
      cases h : lookup IpBucket.ip ip l.buckets with
      | none => rfl
      | some b₀ =>
          have hip₀ : b₀.ip = ip := key_of_lookup h
          subst hip₀
          rfl
    rw [if_pos hip, hip, hnew, Option.some.injEq]
    exact ⟨fun heq => .inl heq.symm, fun h => h.elim Eq.symm fun h => (h.1 rfl).elim⟩
  · rw [if_neg hip]
    refine ⟨fun h => .inr ⟨hip, h⟩, fun h => h.elim (fun heq => ?_) And.right⟩
    rw [heq] at hip
    exact (hip rfl).elim

theorem lookup_setLimiter {lim : TokenBucket ℚ} (ip' : String) :
    lookup IpBucket.ip ip' (l.setLimiter ip lim).buckets =
      (lookup IpBucket.ip ip' l.buckets).map fun b =>
        if decide (b.ip = ip) then { b with lim := lim } else b :=
  lookup_updateWhere _ _ fun _ _ => rfl

theorem limiterOf_setLimiter {lim : TokenBucket ℚ} (h : ip ∈ l.buckets.map IpBucket.ip) :
    (l.setLimiter ip lim).limiterOf = Function.update l.limiterOf ip lim := by
  funext ip'
  by_cases hip : ip' = ip
  · subst hip
    obtain ⟨b, hb⟩ := exists_lookup_of_mem h
    rw [Function.update_self, limiterOf, lookup_setLimiter, hb]
    simp [key_of_lookup hb]
  · rw [Function.update_of_ne hip, limiterOf, limiterOf, lookup_setLimiter]
    cases hb : lookup IpBucket.ip ip' l.buckets with
    | none => rfl
    | some b =>
        have hne : ¬ b.ip = ip := fun heq => hip ((key_of_lookup hb).symm.trans heq)
        simp [hne]

/-- What an eviction may do: drop buckets, as long as nobody can tell, and none that is in use. -/
structure Harmless (evict : IpLimiter → ℚ → IpLimiter) : Prop where
  rate : ∀ l now, (evict l now).rate = l.rate
  burst : ∀ l now, (evict l now).burst = l.burst
  subset : ∀ l now, (evict l now).buckets ⊆ l.buckets
  inUse : ∀ l now, ∀ b ∈ l.buckets, b.lastSeen = now → b ∈ (evict l now).buckets
  alike : ∀ l now ip, Refills l → Settled l now →
    TokenBucket.Alike l.rate l.burst now ((evict l now).limiterOf ip) (l.limiterOf ip)

theorem harmless_none : Harmless fun l _ => l where
  rate _ _ := rfl
  burst _ _ := rfl
  subset _ _ := List.Subset.refl _
  inUse _ _ _ hb _ := hb
  alike _ _ _ _ _ := .refl _

theorem harmless_pruneLocked : Harmless pruneLocked where
  rate _ _ := rfl
  burst _ _ := rfl
  subset _ _ := List.filter_subset_self _
  inUse l now b hb hseen := by
    have hkept : ¬ b.lastSeen < now - ipBucketTTL := by
      rw [hseen, ipBucketTTL]
      linarith
    exact List.mem_filter.2 ⟨hb, by simpa using hkept⟩
  alike l now ip hrefills hsettled := by
    by_cases hmem : ip ∈ (l.pruneLocked now).buckets.map IpBucket.ip
    · obtain ⟨b, hb, rfl⟩ := List.mem_map.1 hmem
      rw [limiterOf_eq_of_mem hb, limiterOf_eq_of_mem (List.mem_of_mem_filter hb)]
      exact .refl _
    · rw [limiterOf_eq_of_notMem hmem]
      refine (TokenBucket.fullFrom_full hrefills.rate).alike ?_
      by_cases hold : ip ∈ l.buckets.map IpBucket.ip
      · -- the bucket was dropped: it has been idle long enough to be full
        obtain ⟨b, hb, rfl⟩ := List.mem_map.1 hold
        have hidle : b.lastSeen < now - ipBucketTTL := by
          by_contra hseen
          exact hmem (List.mem_map_of_mem (List.mem_filter.2 ⟨hb, by simpa using hseen⟩))
        rw [limiterOf_eq_of_mem hb]
        exact (hsettled b hb).2.later (by linarith)
      · rw [limiterOf_eq_of_notMem hold]
        exact TokenBucket.fullFrom_full hrefills.rate

theorem harmless_pruneIfMany : Harmless pruneIfMany where
  rate l now := by unfold pruneIfMany; split_ifs <;> rfl
  burst l now := by unfold pruneIfMany; split_ifs <;> rfl
  subset l now := by
    unfold pruneIfMany
    split_ifs
    · exact harmless_pruneLocked.subset l now
    · exact harmless_none.subset l now
  inUse l now := by
    unfold pruneIfMany
    split_ifs
    · exact harmless_pruneLocked.inUse l now
    · exact harmless_none.inUse l now
  alike l now ip := by
    unfold pruneIfMany
    split_ifs
    · exact harmless_pruneLocked.alike l now ip
    · exact harmless_none.alike l now ip

/-- The limiter after some requests, and the buckets that the specification has then. -/
structure Refines (rate burst now : ℚ) (l : IpLimiter)
    (buckets : String → TokenBucket ℚ) : Prop where
  rate_eq : l.rate = rate
  burst_eq : l.burst = burst
  refills : Refills l
  settled : Settled l now
  alike : ∀ ip, TokenBucket.Alike rate burst now (l.limiterOf ip) (buckets ip)

theorem Settled.limiterOf (h : Settled l now) (hrefills : Refills l) (ip : String) :
    ∃ last ≤ now, TokenBucket.FullFrom l.rate l.burst (last + ipBucketTTL) (l.limiterOf ip) := by
  by_cases hip : ip ∈ l.buckets.map IpBucket.ip
  · obtain ⟨b, hb, rfl⟩ := List.mem_map.1 hip
    rw [limiterOf_eq_of_mem hb]
    exact ⟨b.lastSeen, h b hb⟩
  · rw [limiterOf_eq_of_notMem hip]
    exact ⟨now, le_rfl, TokenBucket.fullFrom_full hrefills.rate⟩

theorem Settled.touch (h : Settled l now) (hrefills : Refills l) {now' : ℚ} (hnow : now ≤ now')
    (ip : String) : Settled (l.touch ip now') now' := by
  intro b hb
  obtain rfl | ⟨-, hb⟩ := mem_touch.1 hb
  · obtain ⟨last, hlast, hfull⟩ := h.limiterOf hrefills ip
    exact ⟨le_rfl, hfull.later (by dsimp only; linarith)⟩
  · exact ⟨(h b hb).1.trans hnow, (h b hb).2⟩

/-- The bucket that was asked is full again in time. -/
theorem Settled.setLimiter (h : Settled l now)
    (hseen : ∀ b ∈ l.buckets, b.ip = ip → b.lastSeen = now)
    {lim : TokenBucket ℚ} (hlim : TokenBucket.FullFrom l.rate l.burst (now + ipBucketTTL) lim) :
    Settled (l.setLimiter ip lim) now := by
  intro b hb
  obtain ⟨b₀, hb₀, rfl⟩ := List.mem_map.1 hb
  by_cases hip : b₀.ip = ip
  · rw [if_pos (decide_eq_true hip)]
    dsimp only
    rw [hseen b₀ hb₀ hip]
    exact ⟨le_rfl, hlim⟩
  · rw [if_neg (mt of_decide_eq_true hip)]
    exact h b₀ hb₀

section Step

variable {evict : IpLimiter → ℚ → IpLimiter} {rate burst now : ℚ} {buckets : String → TokenBucket ℚ}

/-- One request: the same answer, and the limiter still refines the specification. -/
theorem refines_allowBy (hevict : Harmless evict) (req : String × ℚ)
    (h : Refines rate burst now l buckets) (hnow : now ≤ req.2) :
    (allowBy evict l req).2 = (Spec.allow rate burst buckets req).2 ∧
      Refines rate burst req.2 (allowBy evict l req).1 (Spec.allow rate burst buckets req).1 := by
  obtain ⟨ip, now'⟩ := req
  obtain ⟨rfl, rfl, hrefills, hsettled, halike⟩ := h
  obtain ⟨hanswer, hnext⟩ := TokenBucket.alike_allow ((halike ip).later hnow)
  have htouched : Settled (l.touch ip now') now' := hsettled.touch hrefills hnow ip
  -- the bucket that is asked has just been seen, so it is not dropped
  have hkept : ip ∈ (evict (l.touch ip now') now').buckets.map IpBucket.ip :=
    List.mem_map_of_mem (hevict.inUse _ _ _ (mem_touch.2 (.inl rfl)) rfl)
  have hrate : (evict (l.touch ip now') now').rate = l.rate := hevict.rate _ _
  have hburst : (evict (l.touch ip now') now').burst = l.burst := hevict.burst _ _
  unfold allowBy Spec.allow
  dsimp only
  rw [limiterOf_touch]
  refine ⟨hanswer, hrate, congrArg _ hburst, ⟨?_, ?_⟩, ?_, fun ip' => ?_⟩
  · exact hrate ▸ hrefills.rate
  · change ((evict (l.touch ip now') now').burst : ℚ) ≤
      (evict (l.touch ip now') now').rate * ipBucketTTL
    rw [hrate, hburst]
    exact hrefills.gain
  · -- of the buckets that are left, only the one that was asked has changed
    have hseen : ∀ b ∈ (evict (l.touch ip now') now').buckets, b.ip = ip → b.lastSeen = now' := by
      intro b hb hip
      obtain rfl | ⟨hne, -⟩ := mem_touch.1 (hevict.subset _ _ hb)
      · rfl
      · exact (hne hip).elim
    have hevicted : Settled (evict (l.touch ip now') now') now' := by
      intro b hb
      rw [hrate, hburst]
      exact htouched b (hevict.subset _ _ hb)
    refine hevicted.setLimiter hseen ?_
    obtain ⟨last, hlast, hfull⟩ := hsettled.limiterOf hrefills ip
    rw [hrate, hburst]
    exact TokenBucket.fullFrom_allow hfull (hlast.trans hnow) hrefills.rate ipBucketTTL_nonneg
      hrefills.gain
  · rw [limiterOf_setLimiter hkept]
    by_cases hip : ip' = ip
    · subst hip
      rw [Function.update_self, Function.update_self]
      exact hnext
    · -- any other bucket was at most dropped, and a new one is like it
      rw [Function.update_of_ne hip, Function.update_of_ne hip]
      have htouch : Refills (l.touch ip now') := ⟨hrefills.rate, hrefills.gain⟩
      refine (hevict.alike _ _ ip' htouch htouched).trans ?_
      rw [limiterOf_touch]
      exact (halike ip').later hnow

end Step

/-- A run: the limiter gives the answers of the specification, whichever idle buckets it drops. -/
theorem outputs_eq_spec {perMinute : ℤ} (h : newIPLimiter perMinute = some l)
    {evict : IpLimiter → ℚ → IpLimiter} (hevict : Harmless evict) {reqs : List (String × ℚ)}
    (hsorted : (reqs.map Prod.snd).Pairwise (· ≤ ·)) :
    outputs (allowBy evict) l reqs =
      outputs (Spec.allow (perMinute / 60) perMinute) (fun _ => .full perMinute) reqs := by
  unfold newIPLimiter at h
  split_ifs at h with hpos
  cases h
  cases reqs with
  | nil => rfl
  | cons req reqs =>
      have hfirst : ∀ r ∈ req :: reqs, req.2 ≤ r.2 := by
        intro r hr
        obtain rfl | hr := List.mem_cons.1 hr
        · exact le_rfl
        · exact (List.pairwise_cons.1 hsorted).1 _ (List.mem_map_of_mem hr)
      refine outputs_eq (fun r => refines_allowBy hevict r) (t := req.2) ?_ hfirst hsorted
      -- a minute fills a bucket, and the relation holds with no bucket at all
      have hperMinute : (0 : ℚ) < perMinute := by exact_mod_cast not_le.1 hpos
      refine ⟨rfl, rfl, ⟨?_, ?_⟩, nofun, fun ip => ?_⟩
      · change (0 : ℚ) ≤ perMinute / 60
        linarith
      · change (perMinute : ℚ) ≤ perMinute / 60 * (10 * 60)
        linarith
      · exact .refl _

/-! ## What it holds -/

/-- The addresses that have a bucket, and when they were last seen. -/
def seen (l : IpLimiter) : List (String × ℚ) := l.buckets.map fun b => (b.ip, b.lastSeen)

theorem seen_touch (h : ip ∉ l.seen.map Prod.fst) :
    (l.touch ip now).seen = l.seen ++ [(ip, now)] := by
  have hnew : ip ∉ l.buckets.map IpBucket.ip := by
    rw [seen, List.map_map] at h
    exact h
  have hbuckets : (l.touch ip now).buckets = l.buckets ++ [⟨ip, .full l.burst, now⟩] := if_neg hnew
  rw [seen, hbuckets, List.map_append]
  rfl

theorem seen_setLimiter (lim : TokenBucket ℚ) : (l.setLimiter ip lim).seen = l.seen := by
  change (updateWhere _ _ l.buckets).map _ = _
  rw [map_updateWhere]
  · rfl
  · exact fun _ _ => rfl

theorem seen_allowBy (evict : IpLimiter → ℚ → IpLimiter) :
    (allowBy evict l (ip, now)).1.seen = (evict (l.touch ip now) now).seen :=
  seen_setLimiter _

theorem seen_pruneLocked :
    (l.pruneLocked now).seen = l.seen.filter fun x => !decide (x.2 < now - ipBucketTTL) := by
  unfold seen pruneLocked
  rw [List.filter_map]
  rfl

theorem seen_pruneIfMany : (l.pruneIfMany now).seen =
    if l.seen.length > 10000 then l.seen.filter fun x => !decide (x.2 < now - ipBucketTTL)
    else l.seen := by
  have hlength : l.seen.length = l.buckets.length := List.length_map _
  unfold pruneIfMany
  rw [hlength]
  split_ifs
  · exact seen_pruneLocked
  · rfl

/-- Nothing is dropped that was seen just now. -/
theorem seen_pruneIfMany_of_now (hl : ∀ x ∈ l.seen, x.2 = now) :
    (l.pruneIfMany now).seen = l.seen := by
  rw [seen_pruneIfMany]
  split_ifs
  · refine List.filter_eq_self.2 fun x hx => ?_
    have hkept : ¬ x.2 < now - ipBucketTTL := by
      rw [hl x hx]
      linarith [ipBucketTTL_nonneg]
    simpa using hkept
  · rfl

/-- New addresses that come all at the same time get a bucket each, and none is dropped. -/
theorem seen_after_crowd {evict : IpLimiter → ℚ → IpLimiter}
    (hevict : ∀ l, (∀ x ∈ l.seen, x.2 = now) → (evict l now).seen = l.seen) {ips : List String}
    (hips : (l.seen.map Prod.fst ++ ips).Nodup) (hl : ∀ x ∈ l.seen, x.2 = now) :
    (after (allowBy evict) l (ips.map fun ip => (ip, now))).seen =
      l.seen ++ ips.map fun ip => (ip, now) := by
  induction ips generalizing l with
  | nil => exact (List.append_nil _).symm
  | cons ip ips ih =>
      have hnew : ip ∉ l.seen.map Prod.fst := fun hmem =>
        List.disjoint_of_nodup_append hips hmem List.mem_cons_self
      have htouched : ∀ x ∈ (l.touch ip now).seen, x.2 = now := by
        rw [seen_touch hnew]
        exact List.forall_mem_append.2 ⟨hl, List.forall_mem_singleton.2 rfl⟩
      have hnext : (allowBy evict l (ip, now)).1.seen = l.seen ++ [(ip, now)] := by
        rw [seen_allowBy, hevict _ htouched, seen_touch hnew]
      have hrest := ih (l := (allowBy evict l (ip, now)).1) (by
        rw [hnext, List.map_append, List.append_assoc]
        exact hips) (by
        rw [hnext, ← seen_touch hnew]
        exact htouched)
      rw [hnext, List.append_assoc] at hrest
      exact hrest

theorem seen_after_first_crowd {evict : IpLimiter → ℚ → IpLimiter}
    (hevict : ∀ l, (∀ x ∈ l.seen, x.2 = now) → (evict l now).seen = l.seen) {ips : List String}
    (hips : ips.Nodup) (hl : l.seen = []) :
    (after (allowBy evict) l (ips.map fun ip => (ip, now))).seen =
      ips.map fun ip => (ip, now) := by
  rw [seen_after_crowd hevict, hl, List.nil_append]
  · rw [hl]
    exact hips
  · rw [hl]
    exact List.forall_mem_nil _

/-- If there were many and all have been idle for too long, the next request leaves itself only. -/
theorem seen_allow_late {ips : List String} {now' : ℚ} (hl : l.seen = ips.map (·, now))
    (hips : 10000 ≤ ips.length) (hip : ip ∉ ips) (hidle : now < now' - ipBucketTTL) :
    (allow l (ip, now')).1.seen = [(ip, now')] := by
  have hnew : ip ∉ l.seen.map Prod.fst := by
    rw [hl, List.map_map]
    simpa using hip
  have hmany : (ips.map (·, now) ++ [(ip, now')]).length > 10000 := by
    rw [List.length_append, List.length_map, List.length_singleton]
    omega
  have hdropped : (ips.map (·, now)).filter (fun x => !decide (x.2 < now' - ipBucketTTL)) = [] := by
    refine List.filter_eq_nil_iff.2 fun x hx => ?_
    obtain ⟨ip', -, rfl⟩ := List.mem_map.1 hx
    rw [decide_eq_true hidle]
    exact Bool.false_ne_true
  have hkept : ¬ now' < now' - ipBucketTTL := by linarith [ipBucketTTL_nonneg]
  rw [allow, seen_allowBy, seen_pruneIfMany, seen_touch hnew, hl, if_pos hmany, List.filter_append,
    hdropped, List.nil_append]
  exact List.filter_eq_self.2 (List.forall_mem_singleton.2 (by simpa using hkept))

end IpLimiter

/-- Dropping idle buckets cannot be observed: the limiter answers every sequence of requests as the
one that never does. -/
theorem pruning_unobservable (perMinute : ℤ) (l : IpLimiter) (h : newIPLimiter perMinute = some l)
    (reqs : List (String × ℚ)) (hsorted : (reqs.map Prod.snd).Pairwise (· ≤ ·)) :
    outputs IpLimiter.allow l reqs = outputs IpLimiter.allowUnpruned l reqs := by
  unfold IpLimiter.allow IpLimiter.allowUnpruned
  rw [IpLimiter.outputs_eq_spec h IpLimiter.harmless_pruneIfMany hsorted,
    IpLimiter.outputs_eq_spec h IpLimiter.harmless_none hsorted]

/-- More addresses than are kept. -/
def manyAddresses : List String :=
  (List.range 10001).map fun i => String.ofList (List.replicate i ':')

theorem length_manyAddresses : manyAddresses.length = 10001 := by
  rw [manyAddresses, List.length_map, List.length_range]

theorem manyAddresses_nodup : manyAddresses.Nodup := by
  refine List.nodup_range.map fun i j hij => ?_
  simpa using congrArg String.length hij

theorem late_notMem_manyAddresses : "late" ∉ manyAddresses := by
  intro h
  obtain ⟨i, -, hi⟩ := List.mem_map.1 h
  have hmem : 'l' ∈ (String.ofList (List.replicate i ':')).toList := by
    rw [hi]
    decide
  rw [String.toList_ofList] at hmem
  exact absurd (List.eq_of_mem_replicate hmem) (by decide)

/-- They all come at once, and one address more when the others have been idle for long. -/
def rush : List (String × ℚ) := manyAddresses.map (·, 0) ++ [("late", 601)]

theorem rush_sorted : (rush.map Prod.snd).Pairwise (· ≤ ·) := by
  have htimes : ∀ t ∈ (manyAddresses.map ((·, 0) : String → String × ℚ)).map Prod.snd, t = 0 := by
    simp
  rw [rush, List.map_append]
  refine List.pairwise_append.2 ⟨?_, List.pairwise_singleton _ _, fun t ht t' ht' => ?_⟩
  · exact List.pairwise_of_forall_mem_list fun t ht t' ht' =>
      ((htimes t ht).trans (htimes t' ht').symm).le
  · rw [htimes t ht, List.mem_singleton.1 ht']
    norm_num

/-- The limiter holds the last address only, where the other one holds all, and nobody can tell. -/
theorem pruning_unobservable_rush :
    ∃ l, newIPLimiter 1 = some l ∧ (after IpLimiter.allow l rush).seen = [("late", 601)] ∧
      (after IpLimiter.allowUnpruned l rush).seen.length = 10002 ∧
      outputs IpLimiter.allow l rush = outputs IpLimiter.allowUnpruned l rush := by
  let l : IpLimiter := ⟨[], 1 / 60, 1, List.nodup_nil⟩
  have hcrowd : ∀ evict : IpLimiter → ℚ → IpLimiter,
      (∀ l, (∀ x ∈ l.seen, x.2 = 0) → (evict l 0).seen = l.seen) →
      (after (IpLimiter.allowBy evict) l (manyAddresses.map (·, 0))).seen =
        manyAddresses.map (·, 0) :=
    fun evict hevict => IpLimiter.seen_after_first_crowd hevict manyAddresses_nodup rfl
  refine ⟨l, rfl, ?_, ?_, pruning_unobservable 1 l rfl rush rush_sorted⟩
  · rw [rush, after_snoc]
    exact IpLimiter.seen_allow_late
      (hcrowd _ fun _ => IpLimiter.seen_pruneIfMany_of_now) (by rw [length_manyAddresses]; decide)
      late_notMem_manyAddresses (by norm_num [ipBucketTTL])
  · rw [rush, after_snoc, IpLimiter.allowUnpruned, IpLimiter.seen_allowBy, IpLimiter.seen_touch,
      hcrowd _ fun _ _ => rfl, List.length_append, List.length_map, length_manyAddresses]
    · rfl
    · rw [hcrowd _ fun _ _ => rfl, List.map_map]
      simpa using late_notMem_manyAddresses

end XrayApi.HttpApi
