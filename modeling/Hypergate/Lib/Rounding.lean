import Mathlib.Data.Int.Log
import Mathlib.Data.Rat.Floor
import Mathlib.Tactic.Linarith
import Mathlib.Tactic.NormNum

/-!
# Rounding

Numbers that a program divides in binary and prints in decimal are rounded twice.
Both roundings go to the nearest point of a grid, and from the middle to the even
one.

* `roundHalfEven` — to the integers.
* `binary64` — to a double, for positive numbers that are neither too large nor too
  small for one.
* `decimals` — to a number of places after the point.

`decimals_binary64` says what two roundings make of a number that is not near the
middle of two decimals: the same as one.
-/

namespace Hypergate.Lib

/-- The nearest integer, and the even one of two. -/
def roundHalfEven (q : ℚ) : ℤ :=
  if q - ⌊q⌋ < 1 / 2 then ⌊q⌋
  else if 1 / 2 < q - ⌊q⌋ then ⌊q⌋ + 1
  else if ⌊q⌋ % 2 = 0 then ⌊q⌋
  else ⌊q⌋ + 1

/-- The distance of the doubles near a number. -/
def ulp (q : ℚ) : ℚ := 2 ^ (Int.log 2 q - 52)

/-- The nearest double. -/
def binary64 (q : ℚ) : ℚ := roundHalfEven (q / ulp q) * ulp q

/-- With that many places after the point. -/
def decimals (places : Nat) (q : ℚ) : ℚ := roundHalfEven (q * 10 ^ places) / 10 ^ places

/-! ## Integers -/

theorem abs_roundHalfEven_sub_le (q : ℚ) : |roundHalfEven q - q| ≤ 1 / 2 := by
  have hfloor := Int.floor_le q
  have hceil := Int.lt_floor_add_one q
  unfold roundHalfEven
  rw [abs_le]
  split_ifs with hdown hup heven
  · exact ⟨by linarith, by linarith⟩
  · push_cast
    exact ⟨by linarith, by linarith⟩
  · exact ⟨by linarith, by linarith⟩
  · push_cast
    exact ⟨by linarith, by linarith⟩

variable {q : ℚ}

theorem roundHalfEven_eq {n : ℤ} (h : |q - n| < 1 / 2) : roundHalfEven q = n := by
  obtain ⟨hlow, hhigh⟩ := abs_le.mp (abs_roundHalfEven_sub_le q)
  obtain ⟨hbelow, habove⟩ := abs_lt.mp h
  have hlt : roundHalfEven q < n + 1 := by
    have hcast : (roundHalfEven q : ℚ) < n + 1 := by linarith
    exact_mod_cast hcast
  have hgt : n < roundHalfEven q + 1 := by
    have hcast : (n : ℚ) < roundHalfEven q + 1 := by linarith
    exact_mod_cast hcast
  omega

theorem roundHalfEven_intCast (n : ℤ) : roundHalfEven n = n :=
  roundHalfEven_eq (by simp)

theorem roundHalfEven_nonneg (h : 0 ≤ q) : 0 ≤ roundHalfEven q := by
  obtain ⟨hlow, -⟩ := abs_le.mp (abs_roundHalfEven_sub_le q)
  have hcast : (-1 : ℚ) < roundHalfEven q := by linarith
  have hlt : -1 < roundHalfEven q := by exact_mod_cast hcast
  omega

theorem floor_le_roundHalfEven (q : ℚ) : ⌊q⌋ ≤ roundHalfEven q := by
  unfold roundHalfEven
  split_ifs <;> omega

theorem roundHalfEven_le_floor (q : ℚ) : roundHalfEven q ≤ ⌊q⌋ + 1 := by
  unfold roundHalfEven
  split_ifs <;> omega

theorem roundHalfEven_mono {p q : ℚ} (h : p ≤ q) : roundHalfEven p ≤ roundHalfEven q := by
  rcases (Int.floor_mono h).lt_or_eq with hlt | heq
  · have hp := roundHalfEven_le_floor p
    have hq := floor_le_roundHalfEven q
    omega
  · -- Between two integers the side of the middle decides.
    unfold roundHalfEven
    rw [heq]
    split_ifs <;> first | omega | (exfalso; linarith)

theorem ulp_pos (q : ℚ) : 0 < ulp q := zpow_pos (by norm_num) _

theorem ulp_le (hq : 0 < q) : ulp q ≤ q / 2 ^ 52 := by
  have hlog : (2 : ℚ) ^ Int.log 2 q ≤ q := by
    exact_mod_cast Int.zpow_log_le_self (b := 2) (by norm_num) hq
  unfold ulp
  rw [zpow_sub₀ (by norm_num)]
  exact div_le_div_of_nonneg_right hlog (by norm_num)

theorem abs_binary64_sub_le (hq : 0 < q) : |binary64 q - q| ≤ q / 2 ^ 53 := by
  have hpos := ulp_pos q
  have hround := abs_roundHalfEven_sub_le (q / ulp q)
  calc |binary64 q - q|
      = |(roundHalfEven (q / ulp q) - q / ulp q) * ulp q| := by
        unfold binary64
        rw [sub_mul, div_mul_cancel₀ q hpos.ne']
    _ = |roundHalfEven (q / ulp q) - q / ulp q| * ulp q := by rw [abs_mul, abs_of_pos hpos]
    _ ≤ 1 / 2 * ulp q := mul_le_mul_of_nonneg_right hround hpos.le
    _ ≤ 1 / 2 * (q / 2 ^ 52) := mul_le_mul_of_nonneg_left (ulp_le hq) (by norm_num)
    _ = q / 2 ^ 53 := by ring

theorem binary64_nonneg (hq : 0 ≤ q) : 0 ≤ binary64 q := by
  have hround : (0 : ℚ) ≤ roundHalfEven (q / ulp q) := by
    exact_mod_cast roundHalfEven_nonneg (div_nonneg hq (ulp_pos q).le)
  exact mul_nonneg hround (ulp_pos q).le

/-- A multiple of the distance is a bound for the double as well. -/
theorem binary64_le {m : ℤ} (h : q ≤ m * ulp q) : binary64 q ≤ m * ulp q := by
  have hround := roundHalfEven_mono ((div_le_iff₀ (ulp_pos q)).mpr h)
  rw [roundHalfEven_intCast] at hround
  exact mul_le_mul_of_nonneg_right (by exact_mod_cast hround) (ulp_pos q).le

theorem le_binary64 {m : ℤ} (h : m * ulp q ≤ q) : m * ulp q ≤ binary64 q := by
  have hround := roundHalfEven_mono ((le_div_iff₀ (ulp_pos q)).mpr h)
  rw [roundHalfEven_intCast] at hround
  exact mul_le_mul_of_nonneg_right (by exact_mod_cast hround) (ulp_pos q).le

theorem mul_ulp (q : ℚ) (k : Nat) :
    ((2 ^ k : ℤ) : ℚ) * ulp q = 2 ^ (Int.log 2 q + (k : ℤ) - 52) := by
  unfold ulp
  rw [Int.cast_pow, Int.cast_ofNat, ← zpow_natCast, ← zpow_add₀ (by norm_num)]
  congr 1
  omega

theorem binary64_mono {p q : ℚ} (hp : 0 < p) (h : p ≤ q) : binary64 p ≤ binary64 q := by
  rcases (Int.log_mono_right (b := 2) hp h).lt_or_eq with hlt | heq
  · -- A power of two lies between them.
    have hbelow : p ≤ ((2 ^ 53 : ℤ) : ℚ) * ulp p := by
      rw [mul_ulp, show Int.log 2 p + ((53 : Nat) : ℤ) - 52 = Int.log 2 p + 1 by omega]
      exact_mod_cast (Int.lt_zpow_succ_log_self (b := 2) (by norm_num) p).le
    have habove : ((2 ^ 52 : ℤ) : ℚ) * ulp q ≤ q := by
      rw [mul_ulp, show Int.log 2 q + ((52 : Nat) : ℤ) - 52 = Int.log 2 q by omega]
      exact_mod_cast Int.zpow_log_le_self (b := 2) (by norm_num) (hp.trans_le h)
    refine (binary64_le hbelow).trans (le_trans ?_ (le_binary64 habove))
    rw [mul_ulp, mul_ulp]
    exact zpow_le_zpow_right₀ (by norm_num) (by omega)
  · have hulp : ulp p = ulp q := by
      unfold ulp
      rw [heq]
    have hround := roundHalfEven_mono (div_le_div_of_nonneg_right h (ulp_pos q).le)
    unfold binary64
    rw [hulp]
    exact mul_le_mul_of_nonneg_right (by exact_mod_cast hround) (ulp_pos q).le

theorem binary64_le_intCast {n : ℤ} (hq : 0 < q) (h : q ≤ n) (hn : n < 2 ^ 53) :
    binary64 q ≤ n := by
  have hlog : Int.log 2 q < 53 := by
    have hpow : (2 : ℚ) ^ Int.log 2 q ≤ q := by
      exact_mod_cast Int.zpow_log_le_self (b := 2) (by norm_num) hq
    have hbound : (n : ℚ) < 2 ^ (53 : ℤ) := by exact_mod_cast hn
    exact (zpow_lt_zpow_iff_right₀ (by norm_num)).mp (hpow.trans_lt (h.trans_lt hbound))
  have hmultiple : (n : ℚ) = ((n * 2 ^ (52 - Int.log 2 q).toNat : ℤ) : ℚ) * ulp q := by
    rw [Int.cast_mul, mul_assoc, mul_ulp,
      show Int.log 2 q + ((52 - Int.log 2 q).toNat : ℤ) - 52 = 0 by omega, zpow_zero, mul_one]
  rw [hmultiple] at h ⊢
  exact binary64_le h

/-! ## Decimals -/

theorem decimals_nonneg (places : Nat) (hq : 0 ≤ q) : 0 ≤ decimals places q := by
  have hround : (0 : ℚ) ≤ roundHalfEven (q * 10 ^ places) := by
    exact_mod_cast roundHalfEven_nonneg (mul_nonneg hq (by positivity))
  exact div_nonneg hround (by positivity)

theorem decimals_mono (places : Nat) {p q : ℚ} (h : p ≤ q) :
    decimals places p ≤ decimals places q := by
  have hten : (0 : ℚ) ≤ 10 ^ places := by positivity
  have hround := roundHalfEven_mono (mul_le_mul_of_nonneg_right h hten)
  exact div_le_div_of_nonneg_right (by exact_mod_cast hround) hten

/-- The double is so near that only the middle of two decimals could be passed. -/
theorem decimals_binary64 (places : Nat) {n : ℤ} (hq : 0 < q)
    (h : |q * 10 ^ places - n| + q * 10 ^ places / 2 ^ 53 < 1 / 2) :
    decimals places (binary64 q) = n / 10 ^ places := by
  have hten : (0 : ℚ) < 10 ^ places := by positivity
  have hclose : |binary64 q * 10 ^ places - q * 10 ^ places| ≤ q * 10 ^ places / 2 ^ 53 := by
    rw [← sub_mul, abs_mul, abs_of_pos hten, mul_div_right_comm]
    exact mul_le_mul_of_nonneg_right (abs_binary64_sub_le hq) hten.le
  have htriangle := abs_sub_le (binary64 q * 10 ^ places) (q * 10 ^ places) n
  have hround : roundHalfEven (binary64 q * 10 ^ places) = n := roundHalfEven_eq (by linarith)
  unfold decimals
  rw [hround]

end Hypergate.Lib
