import Mathlib.Algebra.Order.Ring.Cast
import Mathlib.Data.Rat.Cast.Order
import Mathlib.Tactic.Linarith
import Hypergate.Lib.TSys
import Hypergate.Filters.RateLimiter.Policy

/-!
# The fixed window limiter (`fixed_window.go`)

Every window has a Redis counter. A request adds its cost with `INCRBY`, and the
policy blocks it if the sum is over the limit; a blocked request may leave an entry
in the L1 cache of its engine, which blocks the requests after it without asking
Redis.

* `Counted` — while no sum overflows, the counter is at least what was let through,
  and it cannot expire inside its window.

A request is charged to a window if its engine reads the clock inside it, and Redis
runs its commands later but still inside it. The engines are numbered. Entries of
an L1 cache disappear at any time, by eviction or at the end of the window.
-/

namespace Hypergate.Filters.RateLimiter

open Engine Lib

namespace FixedWindow

/-! ## The executor -/

/-- `Evaluate`, the round of a policy that matched: the answer of the L1 cache, then
that of the pipeline. The second result is whether the key is put into the L1
cache. -/
def evaluatePolicy (policy : YamlDescriptor) (key : String) (cost : Int64) (now : ℤ)
    (cached : Bool) (reply : Except String UInt64) : PolicyVerdict × Bool :=
  if cached then (.block { decision policy now 0 with blocked := true }, false)
  else
    match reply with
    | .error err =>
      (if policy.failOpen then .skip
        else .fail ("redis pipeline fail for key " ++ key ++ ": " ++ err), false)
    | .ok count =>
      if policy.limit.toUInt64 < count then
        if policy.shadowMode then (.pass (decision policy now 0), false)
        else (.block { decision policy now 0 with blocked := true },
          cost = 1 || policy.limit.toUInt64 ≤ count - cost.toUInt64)
      else (.pass (decision policy now (policy.limit - count.toUInt32)), false)

/-! ## Redis -/

def maxInt64 : ℤ := 9223372036854775807

/-- The value of a key that was counted up, and when it expires. -/
structure Counter where
  value : ℤ
  deadline : ℚ

/-- The key at that time. -/
def live (at_ : ℚ) (key : Option Counter) : Option Counter :=
  match key with
  | some c => if at_ < c.deadline then some c else none
  | none => none

/-- A missing key counts from zero. -/
def valueOf (key : Option Counter) : ℤ :=
  match key with
  | some c => c.value
  | none => 0

/-- `INCRBY` and `EXPIRE` in one pipeline. A sum of more than 64 bits is an error and
leaves the counter; the second command runs all the same. -/
def pipeline (cost : ℤ) (ttl : ℤ) (at_ : ℚ) (key : Option Counter) :
    Except String ℤ × Option Counter :=
  let count := valueOf (live at_ key) + cost
  if maxInt64 < count then
    (.error "ERR increment or decrement would overflow",
      (live at_ key).map fun c => { c with deadline := at_ + ttl })
  else (.ok count, some ⟨count, at_ + ttl⟩)

/-! ## Runs -/

/-- A request: the engine that handles it, the clock when it evaluates the policy,
and when Redis runs its commands. -/
structure Request where
  engine : Nat
  ctx : RequestContext := {}
  now : ℤ
  ranAt : ℚ
  jitter : ℤ := 0

inductive Event where
  | request (r : Request)
  | forget (engine : Nat)

/-- The counter, the engines with an entry in their L1 cache, and the cost of the
requests that the policy let through. -/
structure Run where
  counter : Option Counter := none
  cached : Nat → Bool := fun _ => false
  passed : ℤ := 0

section System

variable (policy : YamlDescriptor) (dc : DynamicCostOpts) (key : String)

/-- What the filter charges. -/
def Request.cost (r : Request) : Int64 := requestCost dc.applyDefaults r.ctx

/-- What Redis answers and keeps. -/
def Run.answer (s : Run) (r : Request) : Except String ℤ × Option Counter :=
  pipeline (r.cost dc).toInt (resetSeconds policy r.now + r.jitter) r.ranAt s.counter

/-- A reply as the client decodes it. -/
def countOf : Except String ℤ → Except String UInt64
  | .ok count => .ok (UInt64.ofNat count.toNat)
  | .error err => .error err

def Run.verdict (s : Run) (r : Request) : PolicyVerdict × Bool :=
  evaluatePolicy policy key (r.cost dc) r.now false (countOf (s.answer policy dc r).1)

def Run.request (s : Run) (r : Request) : Run :=
  if s.cached r.engine then s
  else
    { counter := (s.answer policy dc r).2
      cached := if (s.verdict policy dc key r).2 then Function.update s.cached r.engine true
        else s.cached
      passed := s.passed + if (s.verdict policy dc key r).1.admits then (r.cost dc).toInt else 0 }

def Run.step (s : Run) : Event → Run
  | .request r => s.request policy dc key r
  | .forget engine => { s with cached := Function.update s.cached engine false }

def fixedWindowSys : TSys Run Event where
  init s := s = {}
  step s e := some (s.step policy dc key e)

/-- The request is charged to the window with that number. -/
structure Request.Charged (window : Nat) (r : Request) : Prop where
  nonneg : 0 ≤ r.now
  start : roundedTimestamp policy r.now = window * getDivider policy.unit
  jitter : 0 ≤ r.jitter
  later : (r.now : ℚ) ≤ r.ranAt
  inside : r.ranAt < ((window + 1) * getDivider policy.unit : ℤ)

def Event.Charged (window : Nat) : Event → Prop
  | .request r => r.Charged policy window
  | .forget _ => True

/-- The sum fits into 64 bits. -/
def Run.Fits (s : Run) : Event → Prop
  | .request r => valueOf s.counter + (r.cost dc).toInt ≤ maxInt64
  | .forget _ => True

end System

/-! ## One request -/

section Request

variable {policy : YamlDescriptor} {dc : DynamicCostOpts} {key : String} {window : Nat} {s : Run}
  {r : Request}

theorem toNat_count {count : ℤ} (hfits : count ≤ maxInt64) :
    (UInt64.ofNat count.toNat).toNat = count.toNat := by
  have hmax : maxInt64 = 9223372036854775807 := rfl
  have hlt : count.toNat < 18446744073709551616 := by omega
  exact UInt64.toNat_ofNat_of_lt hlt

variable (policy key)

theorem evaluatePolicy_admits (hshadow : policy.shadowMode = false) {cost : Int64} {now count : ℤ}
    (hnonneg : 0 ≤ count) (hfits : count ≤ maxInt64) :
    (evaluatePolicy policy key cost now false (.ok (UInt64.ofNat count.toNat))).1.admits
      = decide (count ≤ policy.limit.toNat) := by
  have hcount : (UInt64.ofNat count.toNat).toNat = count.toNat := toNat_count hfits
  have hlimit : policy.limit.toUInt64.toNat = policy.limit.toNat := UInt32.toNat_toUInt64 _
  unfold evaluatePolicy
  dsimp only
  by_cases hover : policy.limit.toUInt64 < UInt64.ofNat count.toNat
  · have hlt := UInt64.lt_iff_toNat_lt.mp hover
    rw [if_neg (by simp), if_pos hover, if_neg (by simp [hshadow])]
    show false = decide (count ≤ policy.limit.toNat)
    rw [eq_comm, decide_eq_false_iff_not]
    omega
  · have hle := UInt64.le_iff_toNat_le.mp (UInt64.not_lt.mp hover)
    rw [if_neg (by simp), if_neg hover]
    show true = decide (count ≤ policy.limit.toNat)
    rw [eq_comm, decide_eq_true_iff]
    omega

theorem evaluatePolicy_error {cost : Int64} {now : ℤ} {err : String} :
    (evaluatePolicy policy key cost now false (.error err)).1.admits = policy.failOpen := by
  unfold evaluatePolicy
  cases policy.failOpen <;> rfl

theorem request_of_uncached (hcached : s.cached r.engine = false) :
    s.request policy dc key r =
      { counter := (s.answer policy dc r).2
        cached := if (s.verdict policy dc key r).2 then Function.update s.cached r.engine true
          else s.cached
        passed := s.passed
          + if (s.verdict policy dc key r).1.admits then (r.cost dc).toInt else 0 } := by
  unfold Run.request
  exact if_neg (by simp [hcached])

/-- The sum fits: the counter grows, and the request passes if it is within the
limit. -/
theorem request_fits (hshadow : policy.shadowMode = false) (hcached : s.cached r.engine = false)
    (hlive : live r.ranAt s.counter = s.counter) (hnonneg : 0 ≤ valueOf s.counter)
    (h : valueOf s.counter + (r.cost dc).toInt ≤ maxInt64) :
    (s.request policy dc key r).counter = some ⟨valueOf s.counter + (r.cost dc).toInt,
        r.ranAt + (resetSeconds policy r.now + r.jitter : ℤ)⟩
      ∧ (s.request policy dc key r).passed = s.passed
        + if valueOf s.counter + (r.cost dc).toInt ≤ policy.limit.toNat then (r.cost dc).toInt
          else 0 := by
  have hcost : 1 ≤ (r.cost dc).toInt := one_le_requestCost dc r.ctx
  have hanswer : s.answer policy dc r = (.ok (valueOf s.counter + (r.cost dc).toInt),
      some ⟨valueOf s.counter + (r.cost dc).toInt,
        r.ranAt + (resetSeconds policy r.now + r.jitter : ℤ)⟩) := by
    unfold Run.answer pipeline
    rw [hlive]
    exact if_neg (by omega)
  have hverdict : (s.verdict policy dc key r).1.admits
      = decide (valueOf s.counter + (r.cost dc).toInt ≤ policy.limit.toNat) := by
    unfold Run.verdict
    rw [hanswer]
    exact evaluatePolicy_admits policy key hshadow (by omega) h
  rw [request_of_uncached policy key hcached, hanswer, hverdict]
  exact ⟨rfl, by simp only [decide_eq_true_eq]⟩

/-- The sum overflows: the counter stays, and the request passes if the policy fails
open. -/
theorem request_overflows (hcached : s.cached r.engine = false)
    (hlive : live r.ranAt s.counter = s.counter)
    (h : maxInt64 < valueOf s.counter + (r.cost dc).toInt) :
    (s.request policy dc key r).counter = s.counter.map (fun c =>
        { c with deadline := r.ranAt + (resetSeconds policy r.now + r.jitter : ℤ) })
      ∧ (s.request policy dc key r).passed
        = s.passed + if policy.failOpen then (r.cost dc).toInt else 0 := by
  have hanswer : s.answer policy dc r = (.error "ERR increment or decrement would overflow",
      s.counter.map fun c =>
        { c with deadline := r.ranAt + (resetSeconds policy r.now + r.jitter : ℤ) }) := by
    unfold Run.answer pipeline
    rw [hlive]
    exact if_pos h
  have hverdict : (s.verdict policy dc key r).1.admits = policy.failOpen := by
    unfold Run.verdict
    rw [hanswer]
    exact evaluatePolicy_error policy key
  rw [request_of_uncached policy key hcached, hanswer, hverdict]
  exact ⟨rfl, rfl⟩

variable {policy key}

/-- Only the engine of the request may get an entry. -/
theorem cached_request {engine : Nat} (hne : engine ≠ r.engine) :
    (s.request policy dc key r).cached engine = s.cached engine := by
  unfold Run.request
  split
  · rfl
  · split
    · exact Function.update_of_ne hne _ _
    · rfl

/-! ## The window -/

/-- The key is kept until the end of the window, at least. -/
theorem deadline_le (h : r.Charged policy window) :
    (((window + 1) * getDivider policy.unit : ℤ) : ℚ)
      ≤ r.ranAt + (resetSeconds policy r.now + r.jitter : ℤ) := by
  have hdiv := getDivider_pos policy.unit
  have hnow : window * getDivider policy.unit + r.now.tmod (getDivider policy.unit) = r.now := by
    have hstart := h.start
    unfold roundedTimestamp at hstart
    have hdecompose := Int.mul_tdiv_add_tmod r.now (getDivider policy.unit)
    rw [mul_comm] at hdecompose
    omega
  have hreset : (window + 1) * getDivider policy.unit = r.now + resetSeconds policy r.now := by
    unfold resetSeconds
    rw [add_mul, one_mul]
    omega
  have hjitter : (0 : ℚ) ≤ r.jitter := by exact_mod_cast h.jitter
  have hlater := h.later
  rw [hreset]
  push_cast
  linarith

/-- The counter covers what was let through and outlives the window. -/
structure Counted (policy : YamlDescriptor) (window : Nat) (s : Run) : Prop where
  covered : s.passed ≤ valueOf s.counter
  within : s.passed ≤ policy.limit.toNat
  nonneg : 0 ≤ s.passed
  kept : ∀ c, s.counter = some c → (((window + 1) * getDivider policy.unit : ℤ) : ℚ) ≤ c.deadline

theorem Counted.live (h : Counted policy window s) (hr : r.Charged policy window) :
    live r.ranAt s.counter = s.counter := by
  cases hc : s.counter with
  | none => rfl
  | some c => exact if_pos (hr.inside.trans_le (h.kept c hc))

theorem Counted.request (h : Counted policy window s) (hshadow : policy.shadowMode = false)
    (hr : r.Charged policy window)
    (hok : policy.failOpen = false ∨ valueOf s.counter + (r.cost dc).toInt ≤ maxInt64) :
    Counted policy window (s.request policy dc key r) := by
  cases hcached : s.cached r.engine with
  | true =>
    have hsame : s.request policy dc key r = s := by
      unfold Run.request
      exact if_pos hcached
    rw [hsame]
    exact h
  | false =>
    have hcost : 1 ≤ (r.cost dc).toInt := one_le_requestCost dc r.ctx
    have hcovered := h.covered
    have hnonneg := h.nonneg
    by_cases hfits : valueOf s.counter + (r.cost dc).toInt ≤ maxInt64
    · obtain ⟨hcounter, hpassed⟩ :=
        request_fits policy key hshadow hcached (h.live hr) (by omega) hfits
      refine ⟨?_, ?_, ?_, fun c hc => ?_⟩
      · rw [hpassed, hcounter]
        show _ ≤ valueOf s.counter + (r.cost dc).toInt
        split <;> omega
      · rw [hpassed]
        have hwithin := h.within
        split <;> omega
      · rw [hpassed]
        split <;> omega
      · rw [hcounter] at hc
        cases hc
        exact deadline_le hr
    · obtain ⟨hcounter, hpassed⟩ := request_overflows policy key hcached (h.live hr)
        (not_le.mp hfits)
      have hclosed : policy.failOpen = false := hok.resolve_right hfits
      rw [if_neg (by simp [hclosed]), add_zero] at hpassed
      have hvalue : valueOf (s.request policy dc key r).counter = valueOf s.counter := by
        rw [hcounter]
        cases s.counter <;> rfl
      refine ⟨?_, ?_, ?_, fun c hc => ?_⟩
      · rw [hpassed, hvalue]
        exact hcovered
      · rw [hpassed]
        exact h.within
      · rw [hpassed]
        exact hnonneg
      · rw [hcounter] at hc
        obtain ⟨c', -, rfl⟩ := Option.map_eq_some_iff.mp hc
        exact deadline_le hr

end Request

/-! ## Failing open -/

section FailOpen

variable (policy : YamlDescriptor) (dc : DynamicCostOpts) (key : String) (window : Nat)

/-- A request without headers at the start of the window, by an engine of its own. -/
def plainRequest (engine : Nat) : Request where
  engine
  now := window * getDivider policy.unit
  ranAt := (window * getDivider policy.unit : ℤ)

/-- Its cost. -/
def plainCost : ℤ := (requestCost dc.applyDefaults {}).toInt

theorem plainRequest_charged (engine : Nat) :
    (plainRequest policy window engine).Charged policy window where
  nonneg := Int.mul_nonneg (Int.natCast_nonneg window) (getDivider_pos policy.unit).le
  start := by
    show (window * getDivider policy.unit).tdiv (getDivider policy.unit) * _ = _
    rw [Int.mul_tdiv_cancel _ (getDivider_pos policy.unit).ne']
  jitter := Int.le_refl 0
  later := le_refl _
  inside := by
    have hdiv := getDivider_pos policy.unit
    show ((window * getDivider policy.unit : ℤ) : ℚ) < ((window + 1) * getDivider policy.unit : ℤ)
    rw [Int.cast_lt, add_mul, one_mul]
    omega

/-- The engines from `n` on have not been used. -/
def Fresh (n : Nat) (s : Run) : Prop := ∀ engine, n ≤ engine → s.cached engine = false

/-- The key cannot have expired at the start of the window. -/
def Kept (s : Run) : Prop :=
  ∀ c, s.counter = some c → ((window * getDivider policy.unit : ℤ) : ℚ) < c.deadline

variable {policy dc key window}

theorem Fresh.request {n : Nat} {s : Run} (h : Fresh n s) :
    Fresh (n + 1) (s.request policy dc key (plainRequest policy window n)) := by
  intro engine hn
  rw [cached_request (show engine ≠ n by omega)]
  exact h engine (by omega)

theorem Kept.live {s : Run} (h : Kept policy window s) (engine : Nat) :
    live (plainRequest policy window engine).ranAt s.counter = s.counter := by
  cases hc : s.counter with
  | none => rfl
  | some c => exact if_pos (h c hc)

/-- A request puts the deadline behind the start of the window. -/
theorem lt_deadline (engine : Nat) :
    ((window * getDivider policy.unit : ℤ) : ℚ) < (plainRequest policy window engine).ranAt
      + (resetSeconds policy (plainRequest policy window engine).now + 0 : ℤ) :=
  lt_of_lt_of_le (plainRequest_charged policy window engine).inside
    (deadline_le (plainRequest_charged policy window engine))

variable (dc key window)

/-- Requests of engines that have no entry count up as far as the counter goes. -/
theorem exists_counted (hshadow : policy.shadowMode = false) (n : Nat)
    (hn : n * plainCost dc ≤ maxInt64) :
    ∃ s, (fixedWindowSys policy dc key).ReachableUnder (fun _ e => e.Charged policy window) s
      ∧ valueOf s.counter = n * plainCost dc ∧ Fresh n s ∧ Kept policy window s ∧ 0 ≤ s.passed := by
  induction n with
  | zero =>
    refine ⟨{}, .init rfl, by simp [valueOf], fun _ _ => rfl, fun c hc => ?_, Int.le_refl 0⟩
    cases hc
  | succ n ih =>
    have hcost : 1 ≤ plainCost dc := one_le_requestCost dc {}
    rw [Nat.cast_succ, add_mul, one_mul] at hn
    obtain ⟨s, hreach, hvalue, hfresh, hkept, hpassed⟩ := ih (by omega)
    have hnonneg : 0 ≤ n * plainCost dc := Int.mul_nonneg (Int.natCast_nonneg n) (by omega)
    have hfits : valueOf s.counter + plainCost dc ≤ maxInt64 := by
      rw [hvalue]
      exact hn
    obtain ⟨hcounter, hpass⟩ := request_fits (r := plainRequest policy window n) policy key
      hshadow (hfresh n (Nat.le_refl n)) (hkept.live n) (by omega) hfits
    refine ⟨s.request policy dc key (plainRequest policy window n),
      hreach.step (e := .request (plainRequest policy window n))
        (plainRequest_charged policy window n) rfl, ?_, hfresh.request, fun c hc => ?_, ?_⟩
    · rw [hcounter, Nat.cast_succ, add_mul, one_mul, ← hvalue]
      rfl
    · rw [hcounter] at hc
      cases hc
      exact lt_deadline n
    · have hsame : ((plainRequest policy window n).cost dc).toInt = plainCost dc := rfl
      rw [hpass]
      split <;> omega

theorem exists_overflowing (hshadow : policy.shadowMode = false) :
    ∃ n s, (fixedWindowSys policy dc key).ReachableUnder (fun _ e => e.Charged policy window) s
      ∧ maxInt64 < valueOf s.counter + plainCost dc ∧ Fresh n s ∧ Kept policy window s
      ∧ 0 ≤ s.passed := by
  have hcost : 1 ≤ plainCost dc := one_le_requestCost dc {}
  have hmax : 0 ≤ maxInt64 := by decide
  have hdiv : ((maxInt64 / plainCost dc).toNat : ℤ) = maxInt64 / plainCost dc :=
    Int.toNat_of_nonneg (Int.ediv_nonneg hmax (by omega))
  obtain ⟨s, hreach, hvalue, hfresh, hkept, hpassed⟩ := exists_counted dc key window hshadow
    (maxInt64 / plainCost dc).toNat (by rw [hdiv]; exact Int.ediv_mul_le _ (by omega))
  refine ⟨_, s, hreach, ?_, hfresh, hkept, hpassed⟩
  rw [hvalue, hdiv]
  have hlt := Int.lt_ediv_add_one_mul_self maxInt64 (show 0 < plainCost dc by omega)
  rwa [add_mul, one_mul] at hlt

theorem exists_passed (hshadow : policy.shadowMode = false) (hopen : policy.failOpen = true)
    (m : Nat) :
    ∃ n s, (fixedWindowSys policy dc key).ReachableUnder (fun _ e => e.Charged policy window) s
      ∧ maxInt64 < valueOf s.counter + plainCost dc ∧ Fresh n s ∧ Kept policy window s
      ∧ m ≤ s.passed := by
  induction m with
  | zero => exact exists_overflowing dc key window hshadow
  | succ m ih =>
    have hcost : 1 ≤ plainCost dc := one_le_requestCost dc {}
    obtain ⟨n, s, hreach, hover, hfresh, hkept, hpassed⟩ := ih
    obtain ⟨hcounter, hpass⟩ := request_overflows (r := plainRequest policy window n) policy key
      (hfresh n (Nat.le_refl n)) (hkept.live n) hover
    refine ⟨n + 1, s.request policy dc key (plainRequest policy window n),
      hreach.step (e := .request (plainRequest policy window n))
        (plainRequest_charged policy window n) rfl, ?_, hfresh.request, fun c hc => ?_, ?_⟩
    · rw [hcounter]
      cases hc : s.counter with
      | none =>
        rw [hc] at hover
        exact hover
      | some c =>
        rw [hc] at hover
        exact hover
    · rw [hcounter] at hc
      obtain ⟨c', -, rfl⟩ := Option.map_eq_some_iff.mp hc
      exact lt_deadline n
    · have hsame : ((plainRequest policy window n).cost dc).toInt = plainCost dc := rfl
      rw [hpass, if_pos hopen]
      push_cast
      omega

end FailOpen

/-! ## The bound -/

/-- While no sum overflows, or if the policy does not fail open, a window lets
through at most the limit; and a policy has that bound in all runs exactly if it
does not fail open. -/
theorem fixed_window_bounded (policy : YamlDescriptor) (hshadow : policy.shadowMode = false)
    (dc : DynamicCostOpts) (key : String) (window : Nat) :
    (∀ s, (fixedWindowSys policy dc key).ReachableUnder
        (fun s e => e.Charged policy window ∧ (policy.failOpen = false ∨ s.Fits dc e)) s →
        s.passed ≤ policy.limit.toNat)
      ∧ ((∀ s, (fixedWindowSys policy dc key).ReachableUnder
            (fun _ e => e.Charged policy window) s → s.passed ≤ policy.limit.toNat)
          ↔ policy.failOpen = false) := by
  have hcounted : (fixedWindowSys policy dc key).Inductive
      (fun s e => e.Charged policy window ∧ (policy.failOpen = false ∨ s.Fits dc e))
      (Counted policy window) := by
    refine ⟨fun s hs => ?_, fun s e s' h hok hstep => ?_⟩
    · rw [hs]
      exact ⟨Int.le_refl 0, Int.natCast_nonneg _, Int.le_refl 0, fun c hc => absurd hc (by simp)⟩
    · cases hstep
      cases e with
      | forget engine => exact ⟨h.covered, h.within, h.nonneg, h.kept⟩
      | request r => exact h.request hshadow hok.1 hok.2
  refine ⟨fun s hs => (hcounted.invariant hs).within, fun h => ?_, fun hclosed s hs => ?_⟩
  · cases hopen : policy.failOpen with
    | false => rfl
    | true =>
      obtain ⟨n, s, hreach, -, -, -, hpassed⟩ := exists_passed dc key window hshadow hopen
        (policy.limit.toNat + 1)
      have hbound := h s hreach
      push_cast at hpassed
      omega
  · refine (hcounted.invariant (hs.map id id (fun _ hi => hi) ?_)).within
    exact fun s e s' hok hstep => ⟨⟨hok, .inl hclosed⟩, hstep⟩

/-! ## A cost chosen by the caller -/

/-- Fails open, with a limit of one request a minute. -/
def openPolicy : YamlDescriptor := { limit := 1, unit := "minute", failOpen := true }

def closedPolicy : YamlDescriptor := { openPolicy with failOpen := false }

def callerCost : DynamicCostOpts := { enabled := true, sourceHeader := "x-cost" }

theorem fixed_window_bounded_closed :
    closedPolicy.shadowMode = false
      ∧ ∀ s, (fixedWindowSys closedPolicy callerCost "k").ReachableUnder
        (fun _ e => e.Charged closedPolicy 0) s → s.passed ≤ closedPolicy.limit.toNat :=
  ⟨rfl, (fixed_window_bounded closedPolicy rfl callerCost "k" 0).2.mpr rfl⟩

/-- A request that asks for a cost. -/
def costly (cost : String) : Request where
  engine := 0
  ctx := { headers := (∅ : AMap String String).insert "x-cost" cost }
  now := 0
  ranAt := 0

theorem costly_charged (cost : String) : (costly cost).Charged openPolicy 0 where
  nonneg := Int.le_refl 0
  start := by
    show roundedTimestamp openPolicy 0 = (0 : Nat) * getDivider "minute"
    decide
  jitter := Int.le_refl 0
  later := le_refl _
  inside := by
    show (0 : ℚ) < (((0 : Nat) + 1) * getDivider "minute" : ℤ)
    decide +kernel

theorem costly_reachable {s : Run} (cost : String)
    (h : (fixedWindowSys openPolicy callerCost "k").ReachableUnder
      (fun _ e => e.Charged openPolicy 0) s) :
    (fixedWindowSys openPolicy callerCost "k").ReachableUnder
      (fun _ e => e.Charged openPolicy 0) (s.request openPolicy callerCost "k" (costly cost)) :=
  h.step (e := .request (costly cost)) (costly_charged cost) rfl

/-- The first request is blocked and leaves the counter where it cannot grow. -/
def overflowing : Run :=
  ((({} : Run).request openPolicy callerCost "k" (costly "9223372036854775807")).request
    openPolicy callerCost "k" (costly "1")).request openPolicy callerCost "k" (costly "1")

/-- The two requests after it pass. -/
theorem overflow_passes :
    ∃ s, (fixedWindowSys openPolicy callerCost "k").ReachableUnder
        (fun _ e => e.Charged openPolicy 0) s ∧ ¬ s.passed ≤ openPolicy.limit.toNat := by
  refine ⟨overflowing, ?_, by decide +kernel⟩
  exact costly_reachable _ (costly_reachable _ (costly_reachable _ (.init rfl)))

end FixedWindow

end Hypergate.Filters.RateLimiter
