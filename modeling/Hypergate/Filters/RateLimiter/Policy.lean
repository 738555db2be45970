import Mathlib.Data.Rat.Defs
import Hypergate.Engine.Context

/-!
# Rate limit policies (`internal/filters/rate_limiter`)

What the five executors share: the policies, the length of a window, what one
policy says about a request, and what a request costs (`filter.go`).

Rates and bucket sizes are `float64` in the source and rationals here. Times are
seconds as the source reads them, durations nanoseconds.

- `one_le_requestCost`: no header makes a request free or earn quota.
-/

namespace Hypergate.Filters.RateLimiter

open Engine Lib

/-! ## Policies -/

/-- `DescriptorEntryDef`; an empty value matches every value. -/
structure DescriptorEntryDef where
  key : String
  value : String := ""

/-- `YamlDescriptor`, without two options that nothing reads. -/
structure YamlDescriptor where
  entries : List DescriptorEntryDef := []
  limit : UInt32 := 0
  unit : String := ""
  shadowMode : Bool := false
  failOpen : Bool := false
  maxTokens : ℚ := 0
  fillRate : ℚ := 0
  bucketCapacity : UInt32 := 0
  leakRate : ℚ := 0

/-- `getDivider`: the seconds of a unit. -/
def getDivider (unit : String) : ℤ :=
  if toLower unit = "second" then 1
  else if toLower unit = "minute" then 60
  else if toLower unit = "hour" then 3600
  else if toLower unit = "day" then 86400
  else if toLower unit = "week" then 604800
  else if toLower unit = "month" then 2592000
  else if toLower unit = "year" then 31536000
  else 60

theorem getDivider_pos (unit : String) : 0 < getDivider unit := by
  unfold getDivider
  split_ifs <;> omega

theorem getDivider_le (unit : String) : getDivider unit ≤ 31536000 := by
  unfold getDivider
  split_ifs <;> omega

theorem getDivider_cases (unit : String) :
    getDivider unit = 1 ∨ getDivider unit = 60 ∨ getDivider unit = 3600
      ∨ 86400 ≤ getDivider unit := by
  unfold getDivider
  split_ifs <;> omega

/-- `roundedTimestamp`: the start of the window, which is part of the Redis key. -/
def roundedTimestamp (policy : YamlDescriptor) (now : ℤ) : ℤ :=
  now.tdiv (getDivider policy.unit) * getDivider policy.unit

def resetSeconds (policy : YamlDescriptor) (now : ℤ) : ℤ :=
  getDivider policy.unit - now.tmod (getDivider policy.unit)

structure Decision where
  blocked : Bool := false
  limit : UInt32 := 0
  limitRemaining : UInt32 := 0
  resetDuration : ℤ := 0

/-- The decision of a limiter that counts in windows, with the quota that is left. -/
def decision (policy : YamlDescriptor) (now : ℤ) (remaining : UInt32) : Decision where
  limit := policy.limit
  limitRemaining := remaining
  resetDuration := resetSeconds policy now * 1000000000

/-- What one round of the loop over the policies does: it goes on with a decision
to compare with the others, goes on after an error because of `fail_open`, or
returns. -/
inductive PolicyVerdict where
  | pass (decision : Decision)
  | skip
  | block (decision : Decision)
  | fail (err : String)

/-- The policy lets the request through. -/
def PolicyVerdict.admits : PolicyVerdict → Bool
  | .pass _ => true
  | .skip => true
  | .block _ => false
  | .fail _ => false

/-! ## Costs -/

structure DynamicCostOpts where
  enabled : Bool := false
  sourceHeader : String := ""
  defaultFallbackCost : Int64 := 0
  maxAllowedCost : Int64 := 0

/-- `ApplyDefaults`, the part about costs. -/
def DynamicCostOpts.applyDefaults (dc : DynamicCostOpts) : DynamicCostOpts :=
  { dc with
    sourceHeader := toLower dc.sourceHeader
    defaultFallbackCost := if dc.defaultFallbackCost < 1 then 1 else dc.defaultFallbackCost }

/-- The value of a text of decimal digits. -/
def decimal (digits : List Char) : Option Nat :=
  if digits ≠ [] ∧ digits.all (fun c => '0' ≤ c ∧ c ≤ '9') then
    some (digits.foldl (fun n c => 10 * n + (c.toNat - '0'.toNat)) 0)
  else none

/-- `strconv.ParseInt(s, 10, 64)`. -/
def parseInt (s : String) : Option Int64 :=
  let value : Option ℤ := match s.toList with
    | '-' :: digits => (decimal digits).map fun n => -(n : ℤ)
    | '+' :: digits => (decimal digits).map fun n => (n : ℤ)
    | digits => (decimal digits).map fun n => (n : ℤ)
  match value with
  | some n =>
    if Int64.minValue.toInt ≤ n ∧ n ≤ Int64.maxValue.toInt then some (Int64.ofInt n) else none
  | none => none

/-- The cost a caller asks for, or the default. -/
def askedCost (dc : DynamicCostOpts) (header : String) : Int64 :=
  match parseInt header with
  | some parsed => if 1 ≤ parsed then parsed else dc.defaultFallbackCost
  | none => dc.defaultFallbackCost

def requestCost (dc : DynamicCostOpts) (ctx : RequestContext) : Int64 :=
  if dc.enabled = false then 1
  else
    let cost := askedCost dc (ctx.getHeader dc.sourceHeader)
    if 0 < dc.maxAllowedCost ∧ dc.maxAllowedCost < cost then dc.maxAllowedCost else cost

theorem one_le_defaultFallbackCost (dc : DynamicCostOpts) :
    1 ≤ dc.applyDefaults.defaultFallbackCost := by
  show 1 ≤ if dc.defaultFallbackCost < 1 then 1 else dc.defaultFallbackCost
  split
  · exact Int64.le_refl 1
  · case isFalse h => exact Int64.not_lt.mp h

theorem one_le_askedCost {dc : DynamicCostOpts} (h : 1 ≤ dc.defaultFallbackCost)
    (header : String) : 1 ≤ askedCost dc header := by
  unfold askedCost
  cases parseInt header with
  | none => exact h
  | some parsed =>
    dsimp only
    split
    · assumption
    · exact h

/-- Whatever the headers say, a request costs at least one. -/
theorem one_le_requestCost (dc : DynamicCostOpts) (ctx : RequestContext) :
    1 ≤ (requestCost dc.applyDefaults ctx).toInt := by
  suffices h : 1 ≤ requestCost dc.applyDefaults ctx by
    exact Int64.le_iff_toInt_le.mp h
  unfold requestCost
  split
  · exact Int64.le_refl 1
  · dsimp only
    split
    · case isTrue h =>
        have hpos := Int64.lt_iff_toInt_lt.mp h.1
        have hzero : (0 : Int64).toInt = 0 := rfl
        have hone : (1 : Int64).toInt = 1 := rfl
        apply Int64.le_iff_toInt_le.mpr
        omega
    · exact one_le_askedCost (one_le_defaultFallbackCost dc) _

end Hypergate.Filters.RateLimiter
