import Hypergate.Lib.RefusalCache
import Hypergate.Filters.RateLimiter.Expiry
import Hypergate.Filters.RateLimiter.FixedWindow

/-!
# The L1 caches of the window limiters

A limiter that blocks a request may put the key into the L1 cache of the engine, and
blocks what comes after without asking Redis. Would Redis have said the same?
-/

namespace Hypergate.Filters.RateLimiter

open Engine Lib

/-! ## The fixed window -/

namespace FixedWindow

section Cached

variable (policy : YamlDescriptor) (dc : DynamicCostOpts) (key : String)

/-- The counter has not expired when Redis runs the commands. -/
def Run.Unexpired (s : Run) : Event → Prop
  | .request r => live r.ranAt s.counter = s.counter
  | .forget _ => True

/-- A request that an entry blocks: the counter of the window has reached the limit,
so that with its own cost the request is over it, and Redis would have it blocked
too. -/
structure Run.Blocked (s : Run) (r : Request) : Prop where
  reached : policy.limit.toNat ≤ valueOf (live r.ranAt s.counter)
  exceeded : policy.limit.toNat < valueOf (live r.ranAt s.counter) + (r.cost dc).toInt
  refused : s.Fits dc (.request r) →
    (s.verdict policy dc key r).1 = .block { decision policy r.now 0 with blocked := true }

/-- Entries are left when the limit has been reached. -/
structure Reached (s : Run) : Prop where
  nonneg : 0 ≤ valueOf s.counter
  limit : ∀ engine, s.cached engine = true → policy.limit.toNat ≤ valueOf s.counter
  enforced : ∀ engine, s.cached engine = true → policy.shadowMode = false

/-- The key is kept until the end of the window. -/
def Lasting (window : Nat) (s : Run) : Prop :=
  ∀ c, s.counter = some c → (((window + 1) * getDivider policy.unit : ℤ) : ℚ) ≤ c.deadline

variable {policy dc key} {window : Nat} {s : Run} {r : Request}

theorem toNat_toUInt64 {cost : Int64} (h : 1 ≤ cost.toInt) :
    cost.toUInt64.toNat = cost.toInt.toNat := by
  have hint : cost.toInt = cost.toUInt64.toBitVec.toInt := rfl
  have hlt := cost.toUInt64.toBitVec.isLt
  show cost.toUInt64.toBitVec.toNat = cost.toInt.toNat
  rw [hint, BitVec.toInt_eq_toNat_cond] at h ⊢
  split at h <;> omega

/-- What makes an entry: a count over the limit that had been reached before. -/
theorem limit_le_of_cached {cost : Int64} {now value : ℤ} (hvalue : 0 ≤ value)
    (hcost : 1 ≤ cost.toInt) (hfits : value + cost.toInt ≤ maxInt64)
    (h : (evaluatePolicy policy key cost now false
      (.ok (UInt64.ofNat (value + cost.toInt).toNat))).2 = true) :
    policy.limit.toNat ≤ value ∧ policy.shadowMode = false := by
  have hcount : (UInt64.ofNat (value + cost.toInt).toNat).toNat = (value + cost.toInt).toNat :=
    toNat_count hfits
  have hlimit : policy.limit.toUInt64.toNat = policy.limit.toNat := UInt32.toNat_toUInt64 _
  unfold evaluatePolicy at h
  dsimp only at h
  by_cases hover : policy.limit.toUInt64 < UInt64.ofNat (value + cost.toInt).toNat
  · cases hshadow : policy.shadowMode with
    | true =>
      rw [if_neg (by simp), if_pos hover, if_pos hshadow] at h
      cases h
    | false =>
      rw [if_neg (by simp), if_pos hover, if_neg (by simp [hshadow])] at h
      have hlt := UInt64.lt_iff_toNat_lt.mp hover
      refine ⟨?_, rfl⟩
      rcases Bool.or_eq_true_iff.mp h with hone | hbefore
      · have hcost : cost = 1 := of_decide_eq_true hone
        have htoInt : (1 : Int64).toInt = 1 := rfl
        rw [hcost] at hlt hcount
        omega
      · have hle := UInt64.le_iff_toNat_le.mp (of_decide_eq_true hbefore)
        have hsub : cost.toUInt64 ≤ UInt64.ofNat (value + cost.toInt).toNat := by
          rw [UInt64.le_iff_toNat_le, toNat_toUInt64 hcost]
          omega
        rw [UInt64.toNat_sub_of_le _ _ hsub, toNat_toUInt64 hcost] at hle
        omega
  · rw [if_neg (by simp), if_neg hover] at h
    cases h

theorem answer_fits (hlive : live r.ranAt s.counter = s.counter)
    (hfits : valueOf s.counter + (r.cost dc).toInt ≤ maxInt64) :
    s.answer policy dc r = (.ok (valueOf s.counter + (r.cost dc).toInt),
      some ⟨valueOf s.counter + (r.cost dc).toInt,
        r.ranAt + (resetSeconds policy r.now + r.jitter : ℤ)⟩) := by
  unfold Run.answer pipeline
  rw [hlive]
  exact if_neg (by omega)

/-- The counter only grows, and an entry is left only when it had reached the
limit. -/
theorem Reached.request (h : Reached policy s) (hlive : live r.ranAt s.counter = s.counter)
    (hfits : valueOf s.counter + (r.cost dc).toInt ≤ maxInt64) :
    Reached policy (s.request policy dc key r) := by
  have hcost : 1 ≤ (r.cost dc).toInt := one_le_requestCost dc r.ctx
  have hnonneg := h.nonneg
  cases hcached : s.cached r.engine with
  | true =>
    have hsame : s.request policy dc key r = s := by
      unfold Run.request
      exact if_pos hcached
    rw [hsame]
    exact h
  | false =>
    rw [request_of_uncached policy key hcached, answer_fits hlive hfits]
    have hentry : ∀ engine, (if (s.verdict policy dc key r).2 then
        Function.update s.cached r.engine true else s.cached) engine = true →
        policy.limit.toNat ≤ valueOf s.counter ∧ policy.shadowMode = false := by
      intro engine hengine
      cases hverdict : (s.verdict policy dc key r).2 with
      | true =>
        unfold Run.verdict at hverdict
        rw [answer_fits hlive hfits] at hverdict
        exact limit_le_of_cached hnonneg hcost hfits hverdict
      | false =>
        rw [hverdict, if_neg (by simp)] at hengine
        exact ⟨h.limit engine hengine, h.enforced engine hengine⟩
    refine ⟨?_, fun engine hengine => ?_, fun engine hengine => (hentry engine hengine).2⟩
    · show 0 ≤ valueOf s.counter + (r.cost dc).toInt
      omega
    · have hle := (hentry engine hengine).1
      show policy.limit.toNat ≤ valueOf s.counter + (r.cost dc).toInt
      omega

theorem Reached.forget (h : Reached policy s) (engine : Nat) :
    Reached policy { s with cached := Function.update s.cached engine false } := by
  have hentry : ∀ engine', Function.update s.cached engine false engine' = true →
      s.cached engine' = true := by
    intro engine' h
    by_cases heq : engine' = engine
    · rw [heq, Function.update_self] at h
      cases h
    · rwa [Function.update_of_ne heq] at h
  exact ⟨h.nonneg, fun engine' h' => h.limit engine' (hentry engine' h'),
    fun engine' h' => h.enforced engine' (hentry engine' h')⟩

/-- Nothing fits into a window whose counter has reached the limit. -/
theorem Reached.blocked (h : Reached policy s) (hlive : live r.ranAt s.counter = s.counter)
    (hcached : s.cached r.engine = true) : s.Blocked policy dc key r := by
  have hcost : 1 ≤ (r.cost dc).toInt := one_le_requestCost dc r.ctx
  have hlimit := h.limit r.engine hcached
  refine ⟨by rw [hlive]; exact hlimit, by rw [hlive]; omega, fun hfits => ?_⟩
  have hfits : valueOf s.counter + (r.cost dc).toInt ≤ maxInt64 := hfits
  have hover : policy.limit.toUInt64
      < UInt64.ofNat (valueOf s.counter + (r.cost dc).toInt).toNat := by
    rw [UInt64.lt_iff_toNat_lt, UInt32.toNat_toUInt64, toNat_count hfits]
    omega
  unfold Run.verdict evaluatePolicy
  rw [answer_fits hlive hfits, if_neg (by simp)]
  show (if policy.limit.toUInt64 < UInt64.ofNat _ then _ else _ : PolicyVerdict × Bool).1 = _
  rw [if_pos hover, if_neg (by simp [h.enforced r.engine hcached])]

theorem deadline_pipeline {cost ttl : ℤ} {at_ : ℚ} {counter : Option Counter} {c : Counter}
    (h : (pipeline cost ttl at_ counter).2 = some c) : c.deadline = at_ + ttl := by
  unfold pipeline at h
  dsimp only at h
  split at h
  · obtain ⟨c', -, rfl⟩ := Option.map_eq_some_iff.mp h
    rfl
  · cases h
    rfl

theorem Lasting.request (h : Lasting policy window s) (hr : r.Charged policy window) :
    Lasting policy window (s.request policy dc key r) := by
  intro c hc
  cases hcached : s.cached r.engine with
  | true =>
    unfold Run.request at hc
    rw [if_pos hcached] at hc
    exact h c hc
  | false =>
    rw [request_of_uncached policy key hcached] at hc
    rw [deadline_pipeline hc]
    exact deadline_le hr

theorem Lasting.live (h : Lasting policy window s) (hr : r.Charged policy window) :
    live r.ranAt s.counter = s.counter := by
  cases hc : s.counter with
  | none => rfl
  | some c => exact if_pos (hr.inside.trans_le (h c hc))

end Cached

/-- While no sum overflows, an entry blocks only what Redis would block: for requests
charged to one window, and more generally as long as the key has not expired. -/
theorem fixed_window_cache_sound (policy : YamlDescriptor) (dc : DynamicCostOpts) (key : String) :
    (∀ window s, (fixedWindowSys policy dc key).ReachableUnder
        (fun s e => e.Charged policy window ∧ s.Fits dc e) s →
        ∀ r : Request, r.Charged policy window → s.cached r.engine = true →
          s.Blocked policy dc key r)
      ∧ ∀ s, (fixedWindowSys policy dc key).ReachableUnder
        (fun s e => s.Unexpired e ∧ s.Fits dc e) s →
        ∀ r, s.Unexpired (.request r) → s.cached r.engine = true → s.Blocked policy dc key r := by
  have hinit : Reached policy {} :=
    ⟨Int.le_refl 0, fun _ h => absurd h (by simp), fun _ h => absurd h (by simp)⟩
  have hwindow : ∀ window, (fixedWindowSys policy dc key).Inductive
      (fun s e => e.Charged policy window ∧ s.Fits dc e)
      (fun s => Reached policy s ∧ Lasting policy window s) := by
    refine fun window => ⟨fun s hs => ?_, fun s e s' h hok hstep => ?_⟩
    · rw [hs]
      exact ⟨hinit, fun c hc => absurd hc (by simp)⟩
    · cases hstep
      cases e with
      | forget engine => exact ⟨h.1.forget engine, h.2⟩
      | request r => exact ⟨h.1.request (h.2.live hok.1) hok.2, h.2.request hok.1⟩
  have hunexpired : (fixedWindowSys policy dc key).Inductive
      (fun s e => s.Unexpired e ∧ s.Fits dc e) (Reached policy) := by
    refine ⟨fun s hs => ?_, fun s e s' h hok hstep => ?_⟩
    · rw [hs]
      exact hinit
    · cases hstep
      cases e with
      | forget engine => exact h.forget engine
      | request r => exact h.request hok.1 hok.2
  refine ⟨fun window s hs r hr hcached => ?_, fun s hs r hr hcached => ?_⟩
  · obtain ⟨hreached, hlasting⟩ := (hwindow window).invariant hs
    exact hreached.blocked (hlasting.live hr) hcached
  · exact (hunexpired.invariant hs).blocked hr hcached

end FixedWindow

/-! ## The sliding window log -/

namespace SlidingLog

/-- `time.Now().UnixNano() / int64(time.Millisecond)`. -/
def clockMs (t : ℚ) : Nat := ⌊1000 * t⌋.toNat

/-- `cacheTTL`, in seconds. -/
def cacheTTL (resetDurationMs : ℤ) : ℤ := max 1 ⌈binary64 (resetDurationMs / 1000)⌉

/-- The log of a client and the L1 caches of the engines. A request is its member. -/
def cachedLog (policy : YamlDescriptor) : CachedService ℚ Unit String (AMap String ℤ) where
  serve t member entries :=
    let answer := script policy.limit.toNat (clockMs t) (windowMs policy) member entries
    (answer.1.allowed, answer.2)
  leave t member entries :=
    let reply := (script policy.limit.toNat (clockMs t) (windowMs policy) member entries).1
    if policy.shadowMode = false ∧ 0 < reply.value then some (cacheTTL reply.value) else none
  key _ := ()

section Cached

variable {policy : YamlDescriptor} {t : ℚ} {entries : AMap String ℤ} {member : String}

theorem lt_clockMs (t : ℚ) : 1000 * t < clockMs t + 1 := by
  have hfloor := Int.lt_floor_add_one (1000 * t)
  have hle : (⌊1000 * t⌋ : ℚ) ≤ (clockMs t : ℤ) := by exact_mod_cast Int.self_le_toNat _
  push_cast at hle
  linarith

theorem clockMs_lt {n : ℤ} (hn : 0 < n) (h : 1000 * t < n) : (clockMs t : ℤ) < n := by
  have hfloor := Int.floor_lt.mpr h
  unfold clockMs
  omega

theorem clockMs_mono {t t' : ℚ} (h : t ≤ t') : clockMs t ≤ clockMs t' :=
  Int.toNat_le_toNat (Int.floor_mono (by linarith))

/-- The TTL is the time to wait, rounded up to whole seconds. -/
theorem cacheTTL_le {reset : ℤ} (hpos : 0 < reset) (hle : reset ≤ 31536000000) :
    1000 * cacheTTL reset ≤ reset + 999 := by
  have hquot : (reset / 1000 : ℚ) ≤ ((reset + 999) / 1000 : ℤ) := by
    rw [div_le_iff₀ (by norm_num)]
    have hceil : reset ≤ (reset + 999) / 1000 * 1000 := by omega
    exact_mod_cast hceil
  have hpos' : (0 : ℚ) < reset / 1000 := div_pos (by exact_mod_cast hpos) (by norm_num)
  have hround := Int.ceil_le.mpr (binary64_le_intCast hpos' hquot (by omega))
  unfold cacheTTL
  omega

theorem script_of_le {limit now window : ℤ}
    (h : limit ≤ (purge now window entries).entries.length) :
    (script limit now window member entries).1.allowed = false
      ∧ (script limit now window member entries).2 = purge now window entries := by
  unfold script
  rw [if_neg (not_lt.mpr h)]
  exact ⟨rfl, rfl⟩

theorem le_of_refused {limit now window : ℤ}
    (h : (script limit now window member entries).1.allowed = false) :
    limit ≤ (purge now window entries).entries.length := by
  by_contra hnot
  unfold script at h
  rw [if_pos (not_le.mp hnot)] at h
  cases h

/-- The scores are past. -/
def Past (t : ℚ) (entries : AMap String ℤ) : Prop :=
  ∀ member score, entries.lookup member = some score → 0 ≤ score ∧ score ≤ clockMs t

/-- The entries that have not left the window before `B` are as many as the limit. -/
def Full (policy : YamlDescriptor) (B _t : ℚ) (entries : AMap String ℤ) : Prop :=
  ∃ oldest : ℤ, 0 ≤ oldest ∧ 1000 * B = oldest + windowMs policy
    ∧ policy.limit.toNat ≤ after (oldest - 1) entries

theorem lookup_purge {now window : ℤ} {score : ℤ}
    (h : (purge now window entries).lookup member = some score) :
    entries.lookup member = some score ∧ ¬ (0 ≤ score ∧ score ≤ now - window) := by
  obtain ⟨hmem, hkept⟩ := List.mem_filter.mp (AMap.lookup_eq_some_iff.mp h)
  exact ⟨AMap.lookup_eq_some_iff.mpr hmem, of_decide_eq_true hkept⟩

theorem Past.script (h : Past t entries) (limit window : ℤ) :
    Past t (script limit (clockMs t) window member entries).2 := by
  intro member' score hlookup
  by_cases hle : limit ≤ (purge (clockMs t) window entries).entries.length
  · rw [(script_of_le hle).2] at hlookup
    exact h member' score (lookup_purge hlookup).1
  · unfold SlidingLog.script at hlookup
    rw [if_pos (not_le.mp hle), AMap.lookup_insert_ite] at hlookup
    split at hlookup
    · cases hlookup
      exact ⟨Int.natCast_nonneg _, Int.le_refl _⟩
    · exact h member' score (lookup_purge hlookup).1

/-- What the refused request is told: when the oldest entry leaves the window. -/
theorem exists_oldest (h : Past t entries)
    (hrefused : (script policy.limit.toNat (clockMs t) (windowMs policy) member
      entries).1.allowed = false) :
    ∃ oldest : ℤ, 0 ≤ oldest ∧ oldest ≤ clockMs t ∧ clockMs t < oldest + windowMs policy
      ∧ (script policy.limit.toNat (clockMs t) (windowMs policy) member entries).1.value
        = windowMs policy - (clockMs t - oldest)
      ∧ policy.limit.toNat
        ≤ after (oldest - 1) (purge (clockMs t) (windowMs policy) entries) := by
  have hle := le_of_refused hrefused
  have hpos := windowMs_pos policy
  unfold script
  rw [if_neg (not_lt.mpr hle)]
  cases hmin : ((purge (clockMs t) (windowMs policy) entries).toList.map Prod.snd).min? with
  | none =>
    -- Only a limit of zero refuses a request that finds nothing.
    have hnil := List.map_eq_nil_iff.mp (List.min?_eq_none_iff.mp hmin)
    have hlength : (purge (clockMs t) (windowMs policy) entries).entries.length = 0 := by
      rw [List.map_eq_nil_iff.mp hnil]
      rfl
    refine ⟨clockMs t, Int.natCast_nonneg _, Int.le_refl _, by omega, ?_, by omega⟩
    show max 0 (windowMs policy) = _
    omega
  | some oldest =>
    obtain ⟨hmem, hmin⟩ := List.min?_eq_some_iff.mp hmin
    obtain ⟨⟨member', score⟩, hentry, rfl⟩ := List.mem_map.mp hmem
    obtain ⟨hlookup, hkept⟩ := lookup_purge (AMap.mem_toList.mp hentry)
    obtain ⟨hnonneg, hpast⟩ := h member' score hlookup
    have hall : after (score - 1) (purge (clockMs t) (windowMs policy) entries)
        = (purge (clockMs t) (windowMs policy) entries).entries.length := by
      refine List.countP_eq_length.mpr fun e he => decide_eq_true ?_
      have hin := AMap.mem_toList.mpr (AMap.lookup_eq_some_iff.mpr he)
      have hle := hmin e.2 (List.mem_map.mpr ⟨(e.1, e.2), hin, rfl⟩)
      change score ≤ e.2 at hle
      omega
    refine ⟨score, hnonneg, hpast, by omega, ?_, by rw [hall]; exact_mod_cast hle⟩
    show max 0 (windowMs policy - (clockMs t - score)) = _
    omega

/-- A full log refuses, and stays full, until the oldest entry has left the window. -/
theorem Full.script {B t t' : ℚ} (h : Full policy B t entries) (ht : t' < B) :
    (script policy.limit.toNat (clockMs t') (windowMs policy) member entries).1.allowed = false
      ∧ Full policy B t'
        (script policy.limit.toNat (clockMs t') (windowMs policy) member entries).2 := by
  obtain ⟨oldest, hnonneg, hend, hfull⟩ := h
  have hpos := windowMs_pos policy
  have hnow : (clockMs t' : ℤ) < oldest + windowMs policy := by
    refine clockMs_lt (by omega) ?_
    push_cast
    linarith
  have hkept := after_purge (show (clockMs t' : ℤ) - windowMs policy ≤ oldest - 1 by omega) entries
  have hlength : after (oldest - 1) (purge (clockMs t') (windowMs policy) entries)
      ≤ (purge (clockMs t') (windowMs policy) entries).entries.length := List.countP_le_length
  have hle : (policy.limit.toNat : ℤ)
      ≤ (purge (clockMs t') (windowMs policy) entries).entries.length := by omega
  refine ⟨(script_of_le hle).1, oldest, hnonneg, hend, ?_⟩
  rw [(script_of_le hle).2, hkept]
  exact hfull

theorem cachedLog_doomed (policy : YamlDescriptor) :
    Doomed (cachedLog policy) ∅ (fun _ => True) (fun _ _ _ => True) 1 Past (Full policy) where
  start _ _ _ h := absurd h (by simp)
  later h hle := by
    intro member score hlookup
    obtain ⟨hnonneg, hpast⟩ := h member score hlookup
    have hmono := clockMs_mono hle
    exact ⟨hnonneg, by omega⟩
  keeps _ h := h.script _ _
  refuses h _ ht _ := h.script ht
  leaves := by
    intro t member entries ttl _ hpast _ hrefused hleave
    obtain ⟨oldest, hnonneg, hle, hlt, hvalue, hfull⟩ := exists_oldest hpast hrefused
    have hreset : 0 < windowMs policy - (clockMs t - oldest) := by omega
    have hdivider := getDivider_le policy.unit
    have hwindow : windowMs policy = getDivider policy.unit * 1000 := rfl
    have httl := cacheTTL_le hreset (by omega)
    have hnow := lt_clockMs t
    have hbefore : (clockMs t : ℚ) + 1 ≤ oldest + windowMs policy := by exact_mod_cast hlt
    refine ⟨(oldest + windowMs policy) / 1000, ?_, ?_, fun τ _ _ hτ => ?_⟩
    · rw [lt_div_iff₀ (by norm_num)]
      linarith
    · refine ⟨oldest, hnonneg, by ring, ?_⟩
      show _ ≤ after _ (script policy.limit.toNat (clockMs t) (windowMs policy) member entries).2
      rw [(script_of_le (le_of_refused hrefused)).2]
      exact hfull
    · have hentry : ttl = cacheTTL (windowMs policy - (clockMs t - oldest)) := by
        unfold cachedLog at hleave
        dsimp only at hleave
        rw [hvalue] at hleave
        split at hleave
        · exact (Option.some.inj hleave).symm
        · cases hleave
      have hcast : (1000 * cacheTTL (windowMs policy - (clockMs t - oldest)) : ℚ)
          ≤ windowMs policy - (clockMs t - oldest) + 999 := by exact_mod_cast httl
      rw [hentry] at hτ
      rw [div_add_one (by norm_num), lt_div_iff₀ (by norm_num)]
      linarith

end Cached

/-- Whoever an entry blocks would have been refused by the script at that moment, or
less than a second before. -/
theorem sliding_log_cache_sound (policy : YamlDescriptor) :
    ∀ s, (siteSys (cachedLog policy) ∅).ReachableUnder
      (Site.Ok (cachedLog policy) (fun _ => True) fun _ _ _ => True) s →
      s.Sound (cachedLog policy) (fun _ => True) 1 :=
  fun _ hs => (cachedLog_doomed policy).sound hs

/-- One request a second: the first is admitted, and the second leaves an entry. -/
def secondPolicy : YamlDescriptor := { limit := 1, unit := "second" }

def fullSite : Site ℚ Unit (AMap String ℤ) :=
  let start : Site ℚ Unit (AMap String ℤ) := ⟨∅, fun _ => ∅, 0, fun _ _ => none⟩
  (start.step (cachedLog secondPolicy) (.request 0 0 "a")).step (cachedLog secondPolicy)
    (.request 0 0 "b")

theorem sliding_log_cache_sound_full :
    fullSite.hit (cachedLog secondPolicy) 0 (1 / 2) = true
      ∧ fullSite.Sound (cachedLog secondPolicy) (fun _ => True) 1 := by
  have hstart : (siteSys (cachedLog secondPolicy) ∅).ReachableUnder
      (Site.Ok (cachedLog secondPolicy) (fun _ => True) fun _ _ _ => True)
      ⟨∅, fun _ => ∅, 0, fun _ _ => none⟩ := .init ⟨rfl, rfl, rfl⟩
  have hfirst := reachable_request hstart 0 (q := "a") trivial (le_refl 0) trivial
  exact ⟨by decide +kernel, sliding_log_cache_sound secondPolicy fullSite
    (reachable_request hfirst 0 trivial (by decide +kernel) trivial)⟩

end SlidingLog

/-! ## The sliding window counter -/

namespace SlidingWindow

/-- The call of an engine that reads its clock. -/
def callAt (t : ℚ) (cost : ℤ) : Call := ⟨⌊t⌋.toNat, cost⟩

/-- The counters of a client and the L1 caches of the engines. The key of an entry is
that of the current window, and a request is its cost. -/
def cachedCounter (policy : YamlDescriptor) : CachedService ℚ ℤ ℤ (ℤ → Option ℤ) where
  serve t cost counters :=
    let answer := Run.answer policy { counters } (callAt t cost)
    (answer.1.allowed, Function.update counters ((callAt t cost).window policy) answer.2)
  leave t cost _ :=
    let reset := resetSeconds policy (callAt t cost).now
    if policy.shadowMode = false ∧ 0 < reset then some reset else none
  key t := (callAt t 1).window policy

/-- A request of cost one in the last second of the window. -/
def lastCall (policy : YamlDescriptor) (t : ℚ) : Call :=
  ⟨((callAt t 1).window policy + getDivider policy.unit - 1).toNat, 1⟩

/-- No entry is left, or Redis would refuse even the last request of the window. -/
def Hopeless (policy : YamlDescriptor) (t : ℚ) (cost : ℤ) (counters : ℤ → Option ℤ) : Prop :=
  policy.shadowMode = true ∨ (Run.answer policy { counters } (callAt t cost)).1.allowed = true
    ∨ (Run.answer policy { counters } (lastCall policy t)).1.allowed = false

section Cached

variable {policy : YamlDescriptor} {counters : ℤ → Option ℤ} {c c' : Call} {t t' : ℚ} {cost : ℤ}

/-- What the script compares with the limit. -/
def estimated (policy : YamlDescriptor) (counters : ℤ → Option ℤ) (c : Call) : ℤ :=
  ⌈((counters (c.previous policy)).getD 0 : ℚ)
    * weight (getDivider policy.unit) (c.elapsed policy)
    + ((counters (c.window policy)).getD 0 : ℤ)⌉

theorem estimated_none (policy : YamlDescriptor) (c : Call) :
    estimated policy (fun _ => none) c = 0 := by
  simp [estimated]

theorem allowed_iff : (Run.answer policy { counters } c).1.allowed = true
    ↔ estimated policy counters c + c.cost ≤ policy.limit.toNat := by
  unfold Run.answer script estimated
  dsimp only
  split
  · case isTrue hle => exact ⟨fun _ => hle, fun _ => rfl⟩
  · case isFalse hle => exact ⟨fun h => absurd h (by simp), fun h => absurd h hle⟩

theorem refused_iff : (Run.answer policy { counters } c).1.allowed = false
    ↔ policy.limit.toNat < estimated policy counters c + c.cost := by
  rw [← Bool.not_eq_true, allowed_iff, not_le]

theorem weight_anti {windowSize elapsed elapsed' : ℤ} (h : elapsed ≤ elapsed')
    (hlt : elapsed' < windowSize) (hpos : 0 < windowSize) :
    weight windowSize elapsed' ≤ weight windowSize elapsed := by
  have hsize : (0 : ℚ) < windowSize := by exact_mod_cast hpos
  have hrest : (0 : ℚ) < (windowSize - elapsed' : ℤ) := by exact_mod_cast Int.sub_pos.mpr hlt
  have hmore : ((windowSize - elapsed' : ℤ) : ℚ) ≤ (windowSize - elapsed : ℤ) := by
    exact_mod_cast Int.sub_le_sub_left h windowSize
  exact decimals_mono 4 (binary64_mono (div_pos hrest hsize)
    (div_le_div_of_nonneg_right hmore hsize.le))

theorem now_split (policy : YamlDescriptor) (c : Call) :
    c.window policy + c.elapsed policy = c.now
      ∧ 0 ≤ c.elapsed policy ∧ c.elapsed policy < getDivider policy.unit :=
  ⟨window_add_elapsed c, elapsed_nonneg c, elapsed_lt c⟩

/-- In one window, whoever comes earlier and asks for more is refused as well. -/
theorem refused_of_later (hnonneg : ∀ start, 0 ≤ (counters start).getD 0)
    (hwindow : c'.window policy = c.window policy) (hle : c.now ≤ c'.now)
    (hcost : c'.cost ≤ c.cost) (h : (Run.answer policy { counters } c').1.allowed = false) :
    (Run.answer policy { counters } c).1.allowed = false := by
  rw [refused_iff] at h ⊢
  have hprevious : c'.previous policy = c.previous policy := by
    unfold Call.previous
    rw [hwindow]
  have helapsed : c.elapsed policy ≤ c'.elapsed policy := by
    have hc := (now_split policy c).1
    have hc' := (now_split policy c').1
    omega
  have hweight := weight_anti helapsed (elapsed_lt c') (getDivider_pos policy.unit)
  have hcount : (0 : ℚ) ≤ (counters (c.previous policy)).getD 0 := by
    exact_mod_cast hnonneg (c.previous policy)
  have hestimate : estimated policy counters c' ≤ estimated policy counters c := by
    unfold estimated
    rw [hprevious, hwindow]
    exact Int.ceil_mono (add_le_add_left (mul_le_mul_of_nonneg_left hweight hcount) _)
  omega

theorem window_eq (hle : c.window policy ≤ c'.now)
    (hlt : c'.now < c.window policy + getDivider policy.unit) :
    c'.window policy = c.window policy := by
  have hpos := getDivider_pos policy.unit
  obtain ⟨hsplit, hnonneg, hbound⟩ := now_split policy c'
  unfold Call.window roundedTimestamp at hle hlt hsplit ⊢
  rcases lt_trichotomy ((c'.now : ℤ).tdiv (getDivider policy.unit))
    ((c.now : ℤ).tdiv (getDivider policy.unit)) with h | h | h
  · have hmul := Int.mul_le_mul_of_nonneg_right (Int.add_one_le_of_lt h) hpos.le
    rw [add_mul, one_mul] at hmul
    omega
  · rw [h]
  · have hmul := Int.mul_le_mul_of_nonneg_right (Int.add_one_le_of_lt h) hpos.le
    rw [add_mul, one_mul] at hmul
    omega

theorem lt_window_end (policy : YamlDescriptor) (t : ℚ) :
    t < ((callAt t 1).window policy + getDivider policy.unit : ℤ) := by
  obtain ⟨hsplit, -, hlt⟩ := now_split policy (callAt t 1)
  have hnow : ⌊t⌋ ≤ ((callAt t 1).now : ℤ) := Int.self_le_toNat _
  exact Int.floor_lt.mp (by omega)

theorem window_nonneg (policy : YamlDescriptor) (c : Call) : 0 ≤ c.window policy :=
  Int.mul_nonneg (Int.tdiv_nonneg (Int.natCast_nonneg _) (getDivider_pos policy.unit).le)
    (getDivider_pos policy.unit).le

theorem window_callAt (hle : t ≤ t')
    (hlt : t' < ((callAt t 1).window policy + getDivider policy.unit : ℤ)) :
    (callAt t' cost).window policy = (callAt t 1).window policy := by
  have hpos := getDivider_pos policy.unit
  obtain ⟨hsplit, hnonneg, -⟩ := now_split policy (callAt t 1)
  have hwindow := window_nonneg policy (callAt t 1)
  have hmono : (callAt t 1).now ≤ (callAt t' cost).now :=
    Int.toNat_le_toNat (Int.floor_mono hle)
  have hfloor := Int.floor_lt.mpr hlt
  refine window_eq (by omega) ?_
  show ((⌊t'⌋.toNat : Nat) : ℤ) < _
  omega

theorem window_lastCall (policy : YamlDescriptor) (t : ℚ) :
    (lastCall policy t).window policy = (callAt t 1).window policy := by
  have hpos := getDivider_pos policy.unit
  have hwindow := window_nonneg policy (callAt t 1)
  refine window_eq ?_ ?_
  · show _ ≤ (((_ : ℤ).toNat : Nat) : ℤ)
    omega
  · show (((_ : ℤ).toNat : Nat) : ℤ) < _
    omega

/-- Redis refuses everything for the rest of the window. -/
structure Lost (policy : YamlDescriptor) (B t : ℚ) (counters : ℤ → Option ℤ) : Prop where
  nonneg : ∀ start, 0 ≤ (counters start).getD 0
  ends : B = ((callAt t 1).window policy + getDivider policy.unit : ℤ)
  last : (Run.answer policy { counters } (lastCall policy t)).1.allowed = false

theorem lastCall_eq (hle : t ≤ t')
    (hlt : t' < ((callAt t 1).window policy + getDivider policy.unit : ℤ)) :
    lastCall policy t' = lastCall policy t := by
  unfold lastCall
  rw [window_callAt hle hlt]

theorem serve_of_refused
    (h : (Run.answer policy { counters } (callAt t cost)).1.allowed = false) :
    ((cachedCounter policy).serve t cost counters).2 = counters := by
  show Function.update counters _ (Run.answer policy { counters } (callAt t cost)).2 = counters
  rw [answer_refused h, Function.update_eq_self]

theorem Lost.refused {B : ℚ} (h : Lost policy B t counters) (hle : t ≤ t') (hlt : t' < B)
    (hcost : 1 ≤ cost) :
    (Run.answer policy { counters } (callAt t' cost)).1.allowed = false := by
  have hlt : t' < ((callAt t 1).window policy + getDivider policy.unit : ℤ) := h.ends ▸ hlt
  have hwindow := window_nonneg policy (callAt t 1)
  have hfloor := Int.floor_lt.mpr hlt
  refine refused_of_later h.nonneg ?_ ?_ hcost h.last
  · rw [window_lastCall, window_callAt hle hlt]
  · exact Int.toNat_le_toNat (by omega)

theorem answer_nonneg (hnonneg : ∀ start, 0 ≤ (counters start).getD 0) (hcost : 0 ≤ c.cost) :
    0 ≤ ((Run.answer policy { counters } c).2).getD 0 := by
  have hcurrent := hnonneg (c.window policy)
  unfold Run.answer script
  dsimp only
  split
  · show 0 ≤ (counters (c.window policy)).getD 0 + c.cost
    omega
  · exact hcurrent

theorem cachedCounter_doomed (policy : YamlDescriptor) :
    Doomed (cachedCounter policy) (fun _ => none) (fun cost => 1 ≤ cost) (Hopeless policy) 0
      (fun _ counters => ∀ start, 0 ≤ (counters start).getD 0) (Lost policy) where
  start _ _ := Int.le_refl 0
  later h _ := h
  keeps := by
    intro t cost counters hcost hnonneg start
    show 0 ≤ (Function.update counters _ _ start).getD 0
    by_cases hstart : start = (callAt t cost).window policy
    · rw [hstart, Function.update_self]
      exact answer_nonneg hnonneg (by show 0 ≤ cost; omega)
    · rw [Function.update_of_ne hstart]
      exact hnonneg start
  refuses := by
    intro B t t' cost counters h hle hlt hcost
    have hrefused := h.refused hle hlt hcost
    refine ⟨hrefused, ?_⟩
    rw [serve_of_refused hrefused]
    have hlt : t' < ((callAt t 1).window policy + getDivider policy.unit : ℤ) := h.ends ▸ hlt
    exact ⟨h.nonneg, by rw [window_callAt hle hlt]; exact h.ends,
      by rw [lastCall_eq hle hlt]; exact h.last⟩
  leaves := by
    intro t cost counters ttl hcost hnonneg hok hrefused hleave
    refine ⟨((callAt t 1).window policy + getDivider policy.unit : ℤ), lt_window_end policy t,
      ?_, ?_⟩
    · rw [serve_of_refused hrefused]
      refine ⟨hnonneg, rfl, ?_⟩
      rcases hok with hshadow | hallowed | hlast
      · change (if _ then _ else _ : Option ℚ) = some ttl at hleave
        rw [if_neg (by simp [hshadow])] at hleave
        cases hleave
      · change (Run.answer policy { counters } (callAt t cost)).1.allowed = false at hrefused
        exact absurd hallowed (by simp [hrefused])
      · exact hlast
    · intro τ _ hkey _
      have hend := lt_window_end policy τ
      have hsame : (callAt τ 1).window policy = (callAt t 1).window policy := hkey
      rw [add_zero, ← hsame]
      exact hend

/-- Otherwise the last request of the window is refused because of the entry. -/
theorem hopeless_of_sound {client : Nat} {now : ℚ} {s : Site ℚ ℤ (ℤ → Option ℤ)}
    (hnow : 0 ≤ now)
    (h : (s.served (cachedCounter policy) client now cost).Sound (cachedCounter policy)
      (fun cost => 1 ≤ cost) 0) : Hopeless policy now cost s.remote := by
  by_contra hnot
  obtain ⟨hshadow, hrest⟩ := not_or.mp hnot
  obtain ⟨hrefused, hlast⟩ := not_or.mp hrest
  rw [Bool.not_eq_true] at hshadow hrefused
  rw [Bool.not_eq_false] at hlast
  have hpos := getDivider_pos policy.unit
  have hwindow := window_nonneg policy (callAt now 1)
  obtain ⟨hsplit, -, hlt⟩ := now_split policy (callAt now 1)
  have hfloor : ((callAt now 1).now : ℤ) = ⌊now⌋ := Int.toNat_of_nonneg (Int.floor_nonneg.mpr hnow)
  have hend := lt_window_end policy now
  have hreset : resetSeconds policy (callAt now cost).now
      = getDivider policy.unit - (callAt now 1).elapsed policy := rfl
  have hle : (⌊now⌋ : ℚ) ≤ now := Int.floor_le now
  -- The last second, or the rest of it.
  have hτ : ∃ τ : ℚ, now ≤ τ ∧ ⌊τ⌋ = (callAt now 1).window policy + getDivider policy.unit - 1
      ∧ τ < ((callAt now 1).window policy + getDivider policy.unit : ℤ) := by
    refine ⟨max now ((callAt now 1).window policy + getDivider policy.unit - 1 : ℤ),
      le_max_left _ _, Int.floor_eq_iff.mpr ⟨le_max_right _ _, ?_⟩, ?_⟩
    all_goals
      rw [max_lt_iff]
      push_cast at hend ⊢
      exact ⟨by linarith, by linarith⟩
  obtain ⟨τ, hnowτ, hτfloor, hτend⟩ := hτ
  have hcall : callAt τ 1 = lastCall policy now := by
    unfold callAt lastCall
    rw [hτfloor]
  have hleave : (cachedCounter policy).leave now cost s.remote
      = some (resetSeconds policy (callAt now cost).now : ℚ) := if_pos ⟨hshadow, by omega⟩
  have hkey : (cachedCounter policy).key τ = (cachedCounter policy).key now :=
    window_callAt hnowτ hτend
  refine absurd h (not_sound_served hrefused hleave hkey (le_refl 0) (by linarith) ?_
    (Int.le_refl 1) fun t hafter hbefore => ?_)
  · have hints : (callAt now 1).window policy + getDivider policy.unit
        ≤ ⌊now⌋ + resetSeconds policy (callAt now cost).now := by omega
    have hcast : (((callAt now 1).window policy + getDivider policy.unit : ℤ) : ℚ)
        ≤ ⌊now⌋ + resetSeconds policy (callAt now cost).now := by exact_mod_cast hints
    linarith
  · have hsame : t = τ := le_antisymm hbefore (by linarith)
    rw [serve_of_refused hrefused, hsame]
    show (Run.answer policy _ (callAt τ 1)).1.allowed = true
    rw [hcall]
    exact hlast

end Cached

/-- While every refused request meets a window that Redis has closed for good, an entry
blocks only what Redis would refuse at that moment; and a request that does not leaves
an entry that blocks one too many. -/
theorem sliding_window_cache_sound (policy : YamlDescriptor) :
    (∀ s, (siteSys (cachedCounter policy) fun _ => none).ReachableUnder
        (Site.Ok (cachedCounter policy) (fun cost => 1 ≤ cost) (Hopeless policy)) s →
        s.Sound (cachedCounter policy) (fun cost => 1 ≤ cost) 0)
      ∧ ∀ s, (siteSys (cachedCounter policy) fun _ => none).ReachableUnder
        (Site.Ok (cachedCounter policy) (fun cost => 1 ≤ cost) (Hopeless policy)) s →
        ∀ client now cost, 0 ≤ now → s.clock ≤ now → 1 ≤ cost →
          s.hit (cachedCounter policy) client now = false →
          ((s.step (cachedCounter policy) (.request client now cost)).Sound (cachedCounter policy)
              (fun cost => 1 ≤ cost) 0
            ↔ Hopeless policy now cost s.remote) := by
  have hdoomed := cachedCounter_doomed policy
  refine ⟨fun s hs => hdoomed.sound hs, fun s hs client now cost hnow hclock hcost hhit => ?_⟩
  constructor
  · intro hsound
    rw [step_of_not_hit hhit] at hsound
    exact hopeless_of_sound hnow hsound
  · intro hok
    exact hdoomed.sound (reachable_request hs client hcost hclock hok)

/-- One request a minute. -/
def onePerMinute : YamlDescriptor := { limit := 1, unit := "minute" }

/-- A request of cost two is refused, and blocks one of cost one that Redis would
admit. -/
theorem cheaper_blocked :
    ∃ s, (siteSys (cachedCounter onePerMinute) fun _ => none).ReachableUnder
        (Site.Ok (cachedCounter onePerMinute) (fun cost => 1 ≤ cost) fun _ _ _ => True) s
      ∧ ¬ s.Sound (cachedCounter onePerMinute) (fun cost => 1 ≤ cost) 0 := by
  let start : Site ℚ ℤ (ℤ → Option ℤ) := ⟨fun _ => none, fun _ _ => none, 0, fun _ _ => none⟩
  have hstart : (siteSys (cachedCounter onePerMinute) fun _ => none).ReachableUnder
      (Site.Ok (cachedCounter onePerMinute) (fun cost => 1 ≤ cost) fun _ _ _ => True) start :=
    .init ⟨rfl, rfl, rfl⟩
  refine ⟨_, reachable_request hstart 0 (q := 2) (by decide) (le_refl 0) trivial,
    fun hsound => ?_⟩
  rw [step_of_not_hit rfl] at hsound
  rcases hopeless_of_sound (le_refl _) hsound with hshadow | hallowed | hlast
  · exact absurd hshadow (by simp [onePerMinute])
  · have hle := allowed_iff.mp hallowed
    rw [estimated_none] at hle
    exact absurd hle (by decide)
  · have hlt := refused_iff.mp hlast
    rw [estimated_none] at hlt
    exact absurd hlt (by decide)

end SlidingWindow

end Hypergate.Filters.RateLimiter
