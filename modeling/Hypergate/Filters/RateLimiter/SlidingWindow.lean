import Mathlib.Tactic.FieldSimp
import Mathlib.Tactic.IntervalCases
import Hypergate.Lib.Rounding
import Hypergate.Lib.TSys
import Hypergate.Filters.RateLimiter.Policy

/-!
# The sliding window counter (`sliding_window.go`)

The limiter keeps one counter for each aligned window and weighs the one before the
current window by the part of it that a window ending now still covers. The executor
divides in doubles and prints the weight with four decimals; the script takes the
decimals as they are and rounds its estimate up.

* `Counted` — the counters are what was admitted, and none passes the limit.
* `Tight` — rounding up makes up for the weight that was rounded down. The limiter
  keeps its promise exactly if that is so for all counts up to the limit
  (`fair_iff_tight`).
-/

namespace Hypergate.Filters.RateLimiter.SlidingWindow

open Lib

/-! ## The script -/

/-- The array the script returns. -/
structure Reply where
  allowed : Bool
  remainingQuota : ℤ

/-- `getSlidingLuaScriptBody`: the reply and what it leaves in the current key. -/
def script (limit cost : ℤ) (weight : ℚ) (previous current : Option ℤ) : Reply × Option ℤ :=
  let previousCount := previous.getD 0
  let currentCount := current.getD 0
  let estimatedCount := ⌈previousCount * weight + currentCount⌉
  if estimatedCount + cost ≤ limit then
    (⟨true, limit - (estimatedCount + cost)⟩, some (currentCount + cost))
  else (⟨false, limit - estimatedCount⟩, current)

/-- `weight`, as `weightStr` prints it. -/
def weight (windowSize elapsed : ℤ) : ℚ :=
  decimals 4 (binary64 ((windowSize - elapsed : ℤ) / windowSize))

/-! ## Runs -/

/-- A request that reaches the script. -/
structure Call where
  now : Nat
  cost : ℤ

/-- The counters by the start of their window, the requests admitted so far, and the
time. -/
structure Run where
  counters : ℤ → Option ℤ := fun _ => none
  admitted : List Call := []
  clock : Nat := 0

section System

variable (policy : YamlDescriptor)

def Call.elapsed (c : Call) : ℤ := (c.now : ℤ).tmod (getDivider policy.unit)

/-- `currentRoundedTimestamp`. -/
def Call.window (c : Call) : ℤ := roundedTimestamp policy c.now

/-- `previousRoundedTimestamp`. -/
def Call.previous (c : Call) : ℤ := c.window policy - getDivider policy.unit

/-- The script with the arguments of the executor. -/
def Run.answer (s : Run) (c : Call) : Reply × Option ℤ :=
  script policy.limit.toNat c.cost (weight (getDivider policy.unit) (c.elapsed policy))
    (s.counters (c.previous policy)) (s.counters (c.window policy))

def Run.step (s : Run) (c : Call) : Run where
  counters := Function.update s.counters (c.window policy) (s.answer policy c).2
  admitted := if (s.answer policy c).1.allowed then c :: s.admitted else s.admitted
  clock := c.now

/-- The requests of one client. -/
def slidingSys : TSys Run Call where
  init s := s = {}
  step s c := some (s.step policy c)

/-- The cost is positive and the clock does not go back. -/
def Run.Next (s : Run) (c : Call) : Prop := 1 ≤ c.cost ∧ s.clock ≤ c.now

/-- The cost admitted in a window. -/
def Run.cost (s : Run) (start : ℤ) : ℤ :=
  ((s.admitted.filter fun c => c.window policy = start).map Call.cost).sum

/-- A request is admitted only if the limit holds for the window that ends with it,
with an even share of the window before. -/
def Fair (s : Run) (c : Call) : Prop :=
  (s.answer policy c).1.allowed = true →
    (s.cost policy (c.previous policy) * (getDivider policy.unit - c.elapsed policy : ℤ)
        / getDivider policy.unit : ℚ)
      + s.cost policy (c.window policy) + c.cost ≤ policy.limit.toNat

end System

/-! ## What is counted -/

section Counted

variable {policy : YamlDescriptor} {s : Run} {c : Call}

theorem weight_nonneg {windowSize elapsed : ℤ} (hsize : 0 < windowSize)
    (h : elapsed ≤ windowSize) : 0 ≤ weight windowSize elapsed := by
  have hrest : (0 : ℚ) ≤ (windowSize - elapsed : ℤ) := by exact_mod_cast Int.sub_nonneg.mpr h
  have hpos : (0 : ℚ) ≤ windowSize := by exact_mod_cast hsize.le
  exact decimals_nonneg 4 (binary64_nonneg (div_nonneg hrest hpos))

theorem elapsed_nonneg (c : Call) : 0 ≤ c.elapsed policy :=
  Int.tmod_nonneg _ (Int.natCast_nonneg c.now)

theorem elapsed_lt (c : Call) : c.elapsed policy < getDivider policy.unit :=
  Int.tmod_lt_of_pos _ (getDivider_pos policy.unit)

/-- The counters are what was admitted and do not pass the limit. -/
structure Counted (policy : YamlDescriptor) (s : Run) : Prop where
  counted : ∀ start, (s.counters start).getD 0 = s.cost policy start
  nonneg : ∀ start, 0 ≤ s.cost policy start
  within : ∀ start, s.cost policy start ≤ policy.limit.toNat

/-- The estimate, in terms of what was admitted. -/
def Run.estimate (policy : YamlDescriptor) (s : Run) (c : Call) : ℤ :=
  ⌈s.cost policy (c.previous policy) * weight (getDivider policy.unit) (c.elapsed policy)⌉
    + s.cost policy (c.window policy)

theorem answer_cases (h : Counted policy s) (c : Call) :
    (s.estimate policy c + c.cost ≤ policy.limit.toNat ∧ (s.answer policy c).1.allowed = true
        ∧ (s.answer policy c).2 = some (s.cost policy (c.window policy) + c.cost))
      ∨ (policy.limit.toNat < s.estimate policy c + c.cost
        ∧ (s.answer policy c).1.allowed = false
        ∧ (s.answer policy c).2 = s.counters (c.window policy)) := by
  unfold Run.answer script Run.estimate
  dsimp only
  rw [← Int.ceil_add_intCast, ← h.counted, ← h.counted]
  split_ifs with hle
  · exact .inl ⟨hle, rfl, rfl⟩
  · exact .inr ⟨not_le.mp hle, rfl, rfl⟩

theorem cost_step (start : ℤ) :
    (s.step policy c).cost policy start = s.cost policy start
      + if start = c.window policy ∧ (s.answer policy c).1.allowed = true then c.cost else 0 := by
  unfold Run.cost Run.step
  by_cases hallowed : (s.answer policy c).1.allowed = true
  · rw [if_pos hallowed]
    by_cases hstart : c.window policy = start
    · rw [List.filter_cons_of_pos (by simpa using hstart), if_pos ⟨hstart.symm, hallowed⟩,
        List.map_cons, List.sum_cons, add_comm]
    · rw [List.filter_cons_of_neg (by simpa using hstart), if_neg (fun h => hstart h.1.symm),
        add_zero]
  · rw [if_neg hallowed, if_neg (fun h => hallowed h.2), add_zero]

theorem cost_le_estimate (h : Counted policy s) :
    s.cost policy (c.window policy) ≤ s.estimate policy c := by
  have hprevious : (0 : ℚ) ≤ s.cost policy (c.previous policy) := by
    exact_mod_cast h.nonneg (c.previous policy)
  have hshare := Int.ceil_nonneg (mul_nonneg hprevious
    (weight_nonneg (getDivider_pos policy.unit) (elapsed_lt c).le))
  unfold Run.estimate
  omega

theorem Counted.step (h : Counted policy s) (hc : s.Next c) : Counted policy (s.step policy c) := by
  have hcost := hc.1
  refine ⟨fun start => ?_, fun start => ?_, fun start => ?_⟩
  · show (Function.update s.counters _ (s.answer policy c).2 start).getD 0 = _
    rw [cost_step]
    by_cases hstart : start = c.window policy
    · subst hstart
      rw [Function.update_self]
      rcases answer_cases h c with ⟨-, hallowed, hcounter⟩ | ⟨-, hrefused, hcounter⟩
      · rw [hcounter, if_pos ⟨rfl, hallowed⟩]
        rfl
      · rw [hcounter, hrefused, h.counted, if_neg (by simp), add_zero]
    · rw [Function.update_of_ne hstart, h.counted, if_neg (fun h => hstart h.1), add_zero]
  · rw [cost_step]
    have hnonneg := h.nonneg start
    split <;> omega
  · rw [cost_step]
    split_ifs with hadd
    · obtain ⟨rfl, hallowed⟩ := hadd
      have hestimate := cost_le_estimate (c := c) h
      rcases answer_cases h c with ⟨hle, -, -⟩ | ⟨-, hrefused, -⟩
      · omega
      · exact absurd hallowed (by simp [hrefused])
    · rw [add_zero]
      exact h.within start

theorem counted (hs : (slidingSys policy).ReachableUnder Run.Next s) : Counted policy s := by
  refine TSys.Inductive.invariant ⟨fun s hs => ?_, fun s c s' h hok hstep => ?_⟩ hs
  · rw [hs]
    exact ⟨fun _ => rfl, fun _ => Int.le_refl 0, fun _ => Int.natCast_nonneg _⟩
  · cases hstep
    exact h.step hok

end Counted

/-! ## Rounding -/

/-- Whatever the previous window admitted, its share is at most the rounded one. -/
def Tight (windowSize limit : ℤ) : Prop :=
  ∀ P, 0 ≤ P → P ≤ limit → ∀ elapsed, 0 ≤ elapsed → elapsed < windowSize →
    (P * (windowSize - elapsed : ℤ) / windowSize : ℚ) ≤ ⌈P * weight windowSize elapsed⌉

section Fair

variable {policy : YamlDescriptor}

theorem fair_of_tight (h : Tight (getDivider policy.unit) policy.limit.toNat) {s : Run} {c : Call}
    (hs : Counted policy s) : Fair policy s c := by
  intro hallowed
  have hshare := h (s.cost policy (c.previous policy)) (hs.nonneg _) (hs.within _)
    (c.elapsed policy) (elapsed_nonneg c) (elapsed_lt c)
  rcases answer_cases hs c with ⟨hle, -, -⟩ | ⟨-, hrefused, -⟩
  · unfold Run.estimate at hle
    have hcast : ((⌈s.cost policy (c.previous policy)
        * weight (getDivider policy.unit) (c.elapsed policy)⌉ + s.cost policy (c.window policy)
        + c.cost : ℤ) : ℚ) ≤ (policy.limit.toNat : ℤ) := by exact_mod_cast hle
    push_cast at hcast hshare ⊢
    linarith
  · exact absurd hallowed (by simp [hrefused])

/-- One request at time zero. -/
def single (policy : YamlDescriptor) (P : ℤ) : Run := ({} : Run).step policy ⟨0, P⟩

/-- A request of the second window. -/
def second (policy : YamlDescriptor) (elapsed cost : ℤ) : Call :=
  ⟨(getDivider policy.unit + elapsed).toNat, cost⟩

theorem single_reachable {P : ℤ} (hP : 1 ≤ P) :
    (slidingSys policy).ReachableUnder Run.Next (single policy P) := by
  have hstart : (slidingSys policy).ReachableUnder Run.Next {} := .init rfl
  exact hstart.step (e := ⟨0, P⟩) ⟨hP, Nat.le_refl 0⟩ rfl

theorem single_cost {P : ℤ} (hP : P ≤ policy.limit.toNat) (start : ℤ) :
    (single policy P).cost policy start = if start = 0 then P else 0 := by
  have hzero : Call.window policy ⟨0, P⟩ = 0 := by
    show (0 : ℤ).tdiv _ * _ = 0
    rw [Int.zero_tdiv, zero_mul]
  have hcounted : Counted policy {} := counted (.init rfl)
  have hestimate : Run.estimate policy {} ⟨0, P⟩ = 0 := by
    show ⌈((0 : ℤ) : ℚ) * _⌉ + 0 = 0
    rw [Int.cast_zero, zero_mul, Int.ceil_zero, add_zero]
  have hallowed : (Run.answer policy {} ⟨0, P⟩).1.allowed = true := by
    rcases answer_cases hcounted ⟨0, P⟩ with ⟨-, hallowed, -⟩ | ⟨hlt, -, -⟩
    · exact hallowed
    · rw [hestimate, zero_add] at hlt
      exact absurd hP (not_le.mpr hlt)
  unfold single
  rw [cost_step, hzero, hallowed]
  show 0 + _ = _
  simp only [and_true, zero_add]

theorem second_now {elapsed : ℤ} (helapsed : 0 ≤ elapsed) (cost : ℤ) :
    ((second policy elapsed cost).now : ℤ) = getDivider policy.unit + elapsed := by
  have hpos := getDivider_pos policy.unit
  exact Int.toNat_of_nonneg (by omega)

theorem second_elapsed {elapsed : ℤ} (helapsed : 0 ≤ elapsed)
    (hlt : elapsed < getDivider policy.unit) (cost : ℤ) :
    (second policy elapsed cost).elapsed policy = elapsed := by
  have hpos := getDivider_pos policy.unit
  unfold Call.elapsed
  rw [second_now helapsed, Int.tmod_eq_emod_of_nonneg (by omega), Int.add_emod_left,
    Int.emod_eq_of_lt helapsed hlt]

theorem second_window {elapsed : ℤ} (helapsed : 0 ≤ elapsed)
    (hlt : elapsed < getDivider policy.unit) (cost : ℤ) :
    (second policy elapsed cost).window policy = getDivider policy.unit := by
  have hpos := getDivider_pos policy.unit
  unfold Call.window roundedTimestamp
  rw [second_now helapsed, Int.tdiv_eq_ediv_of_nonneg (by omega),
    Int.add_ediv_of_dvd_left (dvd_refl _), Int.ediv_self hpos.ne',
    Int.ediv_eq_zero_of_lt helapsed hlt, add_zero, one_mul]

/-- A share that was rounded down is spent by the next request. -/
theorem tight_of_fair
    (h : ∀ s c, (slidingSys policy).ReachableUnder Run.Next s → s.Next c → Fair policy s c) :
    Tight (getDivider policy.unit) policy.limit.toNat := by
  intro P hP hle elapsed helapsed hlt
  by_contra hnot
  have hloss := not_le.mp hnot
  have hpos := getDivider_pos policy.unit
  have hsize : (0 : ℚ) < getDivider policy.unit := by exact_mod_cast hpos
  have hless : ⌈P * weight (getDivider policy.unit) elapsed⌉ < P := by
    have hshare :
        (P * (getDivider policy.unit - elapsed : ℤ) / getDivider policy.unit : ℚ) ≤ P := by
      rw [div_le_iff₀ hsize]
      exact_mod_cast Int.mul_le_mul_of_nonneg_left (by omega) hP
    exact_mod_cast hloss.trans_le hshare
  have hone : 1 ≤ P := by
    have hshare := Int.ceil_nonneg (mul_nonneg (show (0 : ℚ) ≤ P by exact_mod_cast hP)
      (weight_nonneg hpos hlt.le))
    omega
  -- The first request fills the window before, the second takes what the script leaves.
  obtain ⟨cost, hcost⟩ : ∃ cost, cost
      = policy.limit.toNat - ⌈P * weight (getDivider policy.unit) elapsed⌉ := ⟨_, rfl⟩
  have hfair := h (single policy P) (second policy elapsed cost) (single_reachable hone)
    ⟨by show 1 ≤ cost; omega, Nat.zero_le _⟩
  have hwindow := second_window helapsed hlt cost
  have hprevious : (second policy elapsed cost).previous policy = 0 := by
    unfold Call.previous
    rw [hwindow, sub_self]
  have hestimate : (single policy P).estimate policy (second policy elapsed cost)
      = ⌈P * weight (getDivider policy.unit) elapsed⌉ := by
    unfold Run.estimate
    rw [hprevious, hwindow, second_elapsed helapsed hlt, single_cost hle, single_cost hle,
      if_pos rfl, if_neg hpos.ne', add_zero]
  have hallowed : ((single policy P).answer policy (second policy elapsed cost)).1.allowed
      = true := by
    rcases answer_cases (counted (single_reachable hone)) (second policy elapsed cost) with
      ⟨-, hallowed, -⟩ | ⟨hover, -, -⟩
    · exact hallowed
    · rw [hestimate] at hover
      have hsame : (second policy elapsed cost).cost = cost := rfl
      omega
  have hbound := hfair hallowed
  rw [hprevious, hwindow, second_elapsed helapsed hlt, single_cost hle, single_cost hle,
    if_pos rfl, if_neg hpos.ne', show (second policy elapsed cost).cost = cost from rfl, hcost]
    at hbound
  push_cast at hbound hloss
  linarith

/-- The limiter is fair exactly if no share is rounded down. -/
theorem fair_iff_tight :
    (∀ s c, (slidingSys policy).ReachableUnder Run.Next s → s.Next c → Fair policy s c)
      ↔ Tight (getDivider policy.unit) policy.limit.toNat :=
  ⟨tight_of_fair, fun h _ _ hs _ => fair_of_tight h (counted hs)⟩

end Fair

/-! ## The weights -/

section Weights

variable {W k n P limit : ℤ}

/-- The weight with `k` seconds to go, if that is not near the middle of two
decimals. -/
theorem weight_eq (hk : 0 < k) (hle : k ≤ W) (hlow : -(4 * W) ≤ 9 * (10000 * k - n * W))
    (hhigh : 9 * (10000 * k - n * W) ≤ 4 * W) : weight W (W - k) = n / 10000 := by
  have hsize : (0 : ℚ) < W := by exact_mod_cast hk.trans_le hle
  have hrest : (0 : ℚ) < k := by exact_mod_cast hk
  have hshare : (k / W : ℚ) ≤ 1 := by
    rw [div_le_one hsize]
    exact_mod_cast hle
  have hnear : |(k / W : ℚ) * 10 ^ 4 - n| ≤ 4 / 9 := by
    have hscaled : (k / W : ℚ) * 10 ^ 4 - n = (10000 * k - n * W) / W := by
      field_simp
      norm_num
    rw [hscaled, abs_le, le_div_iff₀ hsize, div_le_iff₀ hsize]
    have hlow' : (-(4 * W) : ℚ) ≤ 9 * (10000 * k - n * W) := by exact_mod_cast hlow
    have hhigh' : (9 * (10000 * k - n * W) : ℚ) ≤ 4 * W := by exact_mod_cast hhigh
    exact ⟨by linarith, by linarith⟩
  have hround := decimals_binary64 4 (div_pos hrest hsize) (n := n) (by linarith)
  unfold weight
  rw [sub_sub_cancel, hround]
  norm_num

/-- The rounded share loses nothing if no integer lies between it and the share. -/
theorem le_ceil_iff (hW : 0 < W) :
    (P * k / W : ℚ) ≤ ⌈(P * (n / 10000) : ℚ)⌉ ↔ ∀ m, W * m < P * k → 10000 * m < P * n := by
  have hsize : (0 : ℚ) < W := by exact_mod_cast hW
  have hbelow : ∀ m : ℤ, (m : ℚ) < P * k / W ↔ W * m < P * k := by
    intro m
    rw [lt_div_iff₀ hsize, mul_comm]
    exact_mod_cast Iff.rfl
  have habove : ∀ m : ℤ, m < ⌈(P * (n / 10000) : ℚ)⌉ ↔ 10000 * m < P * n := by
    intro m
    rw [Int.lt_ceil, ← mul_div_assoc, lt_div_iff₀ (by norm_num), mul_comm]
    exact_mod_cast Iff.rfl
  constructor
  · intro h m hm
    have hlt := ((hbelow m).mpr hm).trans_le h
    exact (habove m).mp (by exact_mod_cast hlt)
  · intro h
    by_contra hnot
    have hm := (hbelow _).mp (not_le.mp hnot)
    exact absurd ((habove _).mpr (h _ hm)) (lt_irrefl _)

/-- A window is tight if its weights are decimals that lose nothing. -/
theorem tight_of_weights (u : ℤ → ℤ)
    (hu : ∀ k, 0 < k → k ≤ W → -(4 * W) ≤ 9 * (10000 * k - u k * W)
      ∧ 9 * (10000 * k - u k * W) ≤ 4 * W)
    (h : ∀ P, 0 ≤ P → P ≤ limit → ∀ k, 0 < k → k ≤ W → ∀ m, W * m < P * k → 10000 * m < P * u k) :
    Tight W limit := by
  intro P hP hle elapsed helapsed hlt
  obtain ⟨k, rfl⟩ : ∃ k, elapsed = W - k := ⟨W - elapsed, by omega⟩
  have hk : 0 < k := by omega
  have hkW : k ≤ W := by omega
  rw [weight_eq hk hkW (hu k hk hkW).1 (hu k hk hkW).2, sub_sub_cancel]
  exact (le_ceil_iff (hk.trans_le hkW)).mpr (h P hP hle k hk hkW)

theorem limit_lt_of_tight (h : Tight W limit) (hP : 0 ≤ P) (hk : 0 < k) (hle : k ≤ W)
    (hlow : -(4 * W) ≤ 9 * (10000 * k - n * W)) (hhigh : 9 * (10000 * k - n * W) ≤ 4 * W)
    {m : ℤ} (hm : W * m < P * k) (hover : P * n ≤ 10000 * m) : limit < P := by
  by_contra hnot
  have hshare := h P hP (not_lt.mp hnot) (W - k) (by omega) (by omega)
  rw [weight_eq hk hle hlow hhigh, sub_sub_cancel] at hshare
  have hlt := (le_ceil_iff (hk.trans_le hle)).mp hshare m hm
  omega

theorem tight_second : Tight 1 limit := by
  refine tight_of_weights (fun k => 10000 * k) (fun k hk hle => ⟨by omega, by omega⟩) ?_
  intro P hP hle k hk hkW m hm
  have hone : k = 1 := by omega
  subst hone
  omega

/-- A weight of a minute is a third of the last decimal off at most. The shares that
could pass an integer by that are multiples of 20, 3 or 2. -/
theorem minute_weights {u m : ℤ} (hP : 0 ≤ P) (hle : P ≤ 502) (hu : 500 * k - 3 * u ≤ 1)
    (hm : 60 * m < P * k) : 10000 * m < P * u := by
  by_contra hnot
  have hgap : P * (500 * k - 3 * u) ≤ P * 1 := Int.mul_le_mul_of_nonneg_left hu hP
  have hexpand : P * (500 * k - 3 * u) = 500 * (P * k) - 3 * (P * u) := by ring
  have hlarge : 500 ≤ P := by omega
  interval_cases P <;> omega

/-- A weight of an hour is four ninths of the last decimal off at most. -/
theorem hour_weights {u m : ℤ} (hP : 0 ≤ P) (hle : P ≤ 12) (hu : 25 * k - 9 * u ≤ 4)
    (hm : 3600 * m < P * k) : 10000 * m < P * u := by
  by_contra hnot
  obtain ⟨d, hd⟩ : ∃ d, 25 * k - 9 * u = d := ⟨_, rfl⟩
  have hexpand : P * d = 25 * (P * k) - 9 * (P * u) := by
    rw [← hd]
    ring
  have hgap : P * d ≤ P * 4 := Int.mul_le_mul_of_nonneg_left (by omega) hP
  have hnext : P * k = 3600 * m + 1 := by omega
  -- what is lost is at least the last decimal, so few weights and counts are left
  have hloss : 25 ≤ P * d := by omega
  have hlow : 3 ≤ d := by
    by_contra hsmall
    have htwo : P * d ≤ P * 2 := Int.mul_le_mul_of_nonneg_left (by omega) hP
    omega
  obtain rfl | rfl : d = 3 ∨ d = 4 := by omega
  · have hmany : 9 ≤ P := by omega
    interval_cases P <;> omega
  · have hmany : 7 ≤ P := by omega
    interval_cases P <;> omega

theorem tight_minute_iff : Tight 60 limit ↔ limit ≤ 502 := by
  constructor
  · intro h
    have hlt := limit_lt_of_tight (P := 503) (k := 47) (n := 7833) (m := 394) h (by omega)
      (by omega) (by omega) (by omega) (by omega) (by omega) (by omega)
    omega
  · intro h
    refine tight_of_weights (fun k => (500 * k + 1) / 3) (fun k hk hle => ?_) ?_
    · exact ⟨by omega, by omega⟩
    · intro P hP hle k hk hkW m hm
      exact minute_weights hP (by omega) (by omega) hm

theorem tight_hour_iff : Tight 3600 limit ↔ limit ≤ 12 := by
  constructor
  · intro h
    have hlt := limit_lt_of_tight (P := 13) (k := 277) (n := 769) (m := 1) h (by omega)
      (by omega) (by omega) (by omega) (by omega) (by omega) (by omega)
    omega
  · intro h
    refine tight_of_weights (fun k => (25 * k + 4) / 9) (fun k hk hle => ?_) ?_
    · exact ⟨by omega, by omega⟩
    · intro P hP hle k hk hkW m hm
      exact hour_weights hP (by omega) (by omega) hm

/-- The last second of a long window weighs nothing. -/
theorem tight_long_iff (hW : 86400 ≤ W) : Tight W limit ↔ limit ≤ 0 := by
  constructor
  · intro h
    have hlt := limit_lt_of_tight (P := 1) (k := 1) (n := 0) (m := 0) h (by omega)
      (by omega) (by omega) (by omega) (by omega) (by omega) (by omega)
    omega
  · intro h P hP hle elapsed _ _
    have hzero : P = 0 := by omega
    rw [hzero, Int.cast_zero, zero_mul, zero_mul, zero_div, Int.ceil_zero, Int.cast_zero]

end Weights

/-! ## The limiter -/

/-- The limiter is fair for windows of a second, for small limits a minute or an hour,
and if it admits nothing. -/
theorem sliding_window_fair_iff (policy : YamlDescriptor) :
    (∀ s c, (slidingSys policy).ReachableUnder Run.Next s → s.Next c → Fair policy s c)
      ↔ getDivider policy.unit = 1
        ∨ (getDivider policy.unit = 60 ∧ policy.limit.toNat ≤ 502)
        ∨ (getDivider policy.unit = 3600 ∧ policy.limit.toNat ≤ 12)
        ∨ policy.limit.toNat = 0 := by
  rw [fair_iff_tight]
  rcases getDivider_cases policy.unit with hsecond | hminute | hhour | hlong
  · rw [hsecond]
    exact iff_of_true tight_second (.inl rfl)
  · rw [hminute, tight_minute_iff]
    omega
  · rw [hhour, tight_hour_iff]
    omega
  · rw [tight_long_iff hlong]
    omega

def minutePolicy : YamlDescriptor := { limit := 503, unit := "minute" }

/-- 503 requests, then 109 when the next minute is 13 seconds old. The share of the
first is `503 * 47 / 60`, which is more than the 394 of the script. -/
theorem minute_unfair :
    ∃ s c, (slidingSys minutePolicy).ReachableUnder Run.Next s ∧ s.Next c
      ∧ ¬ Fair minutePolicy s c := by
  refine ⟨single minutePolicy 503, ⟨73, 109⟩, single_reachable (by omega),
    ⟨by decide, by decide⟩, ?_⟩
  unfold Fair
  decide +kernel

end Hypergate.Filters.RateLimiter.SlidingWindow
