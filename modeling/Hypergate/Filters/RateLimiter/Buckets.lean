import Mathlib.Data.Rat.Floor
import Hypergate.Lib.Bucket

/-!
# The bucket scripts (`token_bucket.go`, `leaky_bucket.go`)

Two Lua scripts keep a level and a timestamp in a Redis hash. The token bucket has
its tokens there and the leaky bucket its water, so one counts down and the other
up; but a leaky bucket is a token bucket whose tokens are the room above the water
(`waterAt_eq`). Both are the bucket of `Lib.Bucket`, in exact arithmetic.

The timestamp is an argument of the script: it comes from the clock of the engine
that makes the call, and calls of several engines reach Redis in any order. That
Redis forgets idle hashes is left to `RateLimiter.Expiry`.
-/

namespace Hypergate.Filters.RateLimiter

open Lib

/-! ## The scripts -/

/-- The hash of a token bucket. -/
structure TokenHash where
  t : ℚ
  l : ℚ

/-- The hash of a leaky bucket. -/
structure LeakyHash where
  w : ℚ
  l : ℚ

/-- The array the scripts return. -/
structure BucketReply where
  allowed : Bool
  level : ℚ
  resetDuration : ℤ

/-- The tokens when the script runs. -/
def tokensAt (maxTokens fillRate now : ℚ) (bucket : Option TokenHash) : ℚ :=
  let tokens := match bucket with
    | some b => b.t
    | none => maxTokens
  let lastUpdated := match bucket with
    | some b => b.l
    | none => now
  let elapsed := max 0 (now - lastUpdated)
  let replenished := tokens + elapsed * fillRate
  max 0 (min maxTokens replenished)

/-- `getTokenLuaScriptBody`: the reply and the hash it leaves. -/
def tokenScript (maxTokens fillRate : ℚ) (call : Withdrawal ℚ) (bucket : Option TokenHash) :
    BucketReply × Option TokenHash :=
  let tokens := tokensAt maxTokens fillRate call.now bucket
  if (call.cost : ℚ) ≤ tokens then
    let left := tokens - call.cost
    let reset := if 0 < fillRate then (maxTokens - left) / fillRate else 0
    (⟨true, left, ⌈max 0 reset⌉⟩, some ⟨left, call.now⟩)
  else
    let reset := if 0 < fillRate then (call.cost - tokens) / fillRate else 0
    (⟨false, tokens, ⌈max 0 reset⌉⟩, bucket)

/-- The water when the script runs. -/
def waterAt (leakRate now : ℚ) (bucket : Option LeakyHash) : ℚ :=
  let water := match bucket with
    | some b => b.w
    | none => 0
  let lastUpdated := match bucket with
    | some b => b.l
    | none => now
  let elapsed := max 0 (now - lastUpdated)
  max 0 (water - elapsed * leakRate)

/-- `getLeakyLuaScriptBody`. -/
def leakyScript (capacity leakRate : ℚ) (call : Withdrawal ℚ) (bucket : Option LeakyHash) :
    BucketReply × Option LeakyHash :=
  let water := waterAt leakRate call.now bucket
  if water + call.cost ≤ capacity then
    let reset := if 0 < leakRate then (water + call.cost) / leakRate else 0
    (⟨true, water + call.cost, ⌈reset⌉⟩, some ⟨water + call.cost, call.now⟩)
  else
    let reset := if 0 < leakRate then (water + call.cost - capacity) / leakRate else 0
    (⟨false, water, ⌈reset⌉⟩, bucket)

/-! ## Runs -/

/-- The hash, and the cost admitted so far. -/
structure BucketRun (H : Type) where
  stored : Option H := none
  admitted : ℤ := 0

section Runs

variable {H : Type} (script : Withdrawal ℚ → Option H → BucketReply × Option H)

def BucketRun.step (s : BucketRun H) (call : Withdrawal ℚ) : BucketRun H where
  stored := (script call s.stored).2
  admitted := s.admitted + if (script call s.stored).1.allowed then call.cost else 0

/-- Calls of a script on a key that Redis keeps. -/
def scriptSys : TSys (BucketRun H) (Withdrawal ℚ) where
  init s := s = {}
  step s call := some (s.step script call)

/-- In every run whose calls meet `ok`, costs are positive and timestamps lie between
`T₀` and `T₁`, the cost admitted is bounded. -/
def Bounded (cap rate : ℚ) (ok : BucketRun H → Withdrawal ℚ → Prop) : Prop :=
  ∀ T₀ T₁ s, T₀ ≤ T₁ →
    (scriptSys script).ReachableUnder (fun s call => call.Within T₀ T₁ ∧ ok s call) s →
    (s.admitted : ℚ) ≤ cap + rate * (T₁ - T₀)

/-- The script is a bucket, with its hash read as level and timestamp. -/
structure IsBucket (cap rate : ℚ) (e : H ≃ Bucket ℚ) : Prop where
  admits : ∀ call b, 1 ≤ call.cost →
    (call.cost : ℚ) ≤ Bucket.available cap rate (b.map e) call.now →
    (script call b).1.allowed = true
      ∧ (script call b).2.map e
        = some ⟨Bucket.available cap rate (b.map e) call.now - call.cost, call.now⟩
  refuses : ∀ call b, 1 ≤ call.cost →
    ¬ (call.cost : ℚ) ≤ Bucket.available cap rate (b.map e) call.now →
    (script call b).1.allowed = false ∧ (script call b).2 = b

end Runs

section Simulation

variable {H : Type} {script : Withdrawal ℚ → Option H → BucketReply × Option H}
  {cap rate : ℚ} {e : H ≃ Bucket ℚ}

/-- The account of a run. -/
def BucketRun.account (e : H ≃ Bucket ℚ) (s : BucketRun H) : Account ℚ :=
  ⟨s.stored.map e, s.admitted⟩

theorem account_step (h : IsBucket script cap rate e) (s : BucketRun H) {call : Withdrawal ℚ}
    (hcost : 1 ≤ call.cost) :
    (s.step script call).account e = (s.account e).step cap rate call := by
  have hview : (s.step script call).account e = ⟨(script call s.stored).2.map e,
      s.admitted + if (script call s.stored).1.allowed then call.cost else 0⟩ := rfl
  unfold Account.step
  by_cases hle : (call.cost : ℚ) ≤ Bucket.available cap rate (s.account e).bucket call.now
  · obtain ⟨hallowed, hwritten⟩ := h.admits call s.stored hcost hle
    rw [if_pos hle, hview, hwritten, if_pos hallowed]
    rfl
  · obtain ⟨hrefused, hkept⟩ := h.refuses call s.stored hcost hle
    rw [if_neg hle, hview, hkept, hrefused, if_neg (by simp), add_zero]
    rfl

/-- The run of an account. -/
def ofAccount (e : H ≃ Bucket ℚ) (a : Account ℚ) : BucketRun H := ⟨a.bucket.map e.symm, a.spent⟩

theorem account_ofAccount (a : Account ℚ) : (ofAccount e a).account e = a := by
  show (⟨(a.bucket.map e.symm).map e, a.spent⟩ : Account ℚ) = a
  rw [Option.map_map, e.self_comp_symm, Option.map_id]
  rfl

theorem ofAccount_account (s : BucketRun H) : ofAccount e (s.account e) = s := by
  show (⟨(s.stored.map e).map e.symm, s.admitted⟩ : BucketRun H) = s
  rw [Option.map_map, e.symm_comp_self, Option.map_id]
  rfl

/-- In order, the bound of the bucket is the bound of the script. -/
theorem IsBucket.bounded (h : IsBucket script cap rate e) (hcap : 0 ≤ cap) (hrate : 0 ≤ rate) :
    Bounded script cap rate fun s call => (s.account e).Ordered cap rate call := by
  intro T₀ T₁ s hT hreach
  refine spent_le hcap hrate hT (hreach.map (fun s => s.account e) id ?_ ?_)
  · intro s hs
    rw [hs]
    rfl
  · intro s call s' hok hstep
    cases hstep
    exact ⟨hok, congrArg some (account_step h s hok.1.cost).symm⟩

/-- In any order, the runs of the bucket are runs of the script. -/
theorem IsBucket.bounded_iff (h : IsBucket script cap rate e) (hcap : 0 ≤ cap)
    (hrate : 0 ≤ rate) : Bounded script cap rate (fun _ _ => True) ↔ rate = 0 ∨ cap < 2 := by
  constructor
  · intro hbounded
    refine (spent_bounded_iff hcap hrate).mp fun T₀ T₁ a hT hreach => ?_
    refine hbounded T₀ T₁ (ofAccount e a) hT (hreach.map (ofAccount e) id ?_ ?_)
    · intro a ha
      rw [ha]
      rfl
    · intro a call a' hok hstep
      cases hstep
      refine ⟨⟨hok, trivial⟩, congrArg some ?_⟩
      have hstep := account_step h (ofAccount e a) hok.cost
      rw [account_ofAccount] at hstep
      show (ofAccount e a).step script call = ofAccount e (a.step cap rate call)
      rw [← hstep, ofAccount_account]
  · intro hcond T₀ T₁ s hT hreach
    refine h.bounded hcap hrate T₀ T₁ s hT (hreach.map id id (fun _ hi => hi) ?_)
    intro s call s' hok hstep
    refine ⟨⟨hok.1, ?_⟩, hstep⟩
    rcases hcond with hzero | hsmall
    · exact .inl hzero
    · exact .inr (.inl hsmall)

end Simulation

/-! ## The token bucket -/

def TokenHash.bucket : TokenHash ≃ Bucket ℚ where
  toFun h := ⟨h.t, h.l⟩
  invFun b := ⟨b.level, b.stamp⟩
  left_inv _ := rfl
  right_inv _ := rfl

theorem tokensAt_eq (maxTokens fillRate now : ℚ) (b : Option TokenHash) :
    tokensAt maxTokens fillRate now b
      = max 0 (Bucket.available maxTokens fillRate (b.map TokenHash.bucket) now) := by
  cases b with
  | some b => rfl
  | none =>
    show max 0 (min maxTokens (maxTokens + max 0 (now - now) * fillRate)) = max 0 maxTokens
    rw [sub_self, max_self, zero_mul, add_zero, min_self]

theorem tokenScript_isBucket (maxTokens fillRate : ℚ) :
    IsBucket (tokenScript maxTokens fillRate) maxTokens fillRate TokenHash.bucket where
  admits call b hcost hle := by
    have hone : (1 : ℚ) ≤ call.cost := by exact_mod_cast hcost
    have htokens : tokensAt maxTokens fillRate call.now b
        = Bucket.available maxTokens fillRate (b.map TokenHash.bucket) call.now := by
      rw [tokensAt_eq, max_eq_right (by linarith)]
    unfold tokenScript
    rw [htokens, if_pos hle]
    exact ⟨rfl, rfl⟩
  refuses call b hcost hnot := by
    have hone : (1 : ℚ) ≤ call.cost := by exact_mod_cast hcost
    have hless : ¬ (call.cost : ℚ) ≤ tokensAt maxTokens fillRate call.now b := by
      rw [tokensAt_eq, le_max_iff]
      exact not_or.mpr ⟨by linarith, hnot⟩
    unfold tokenScript
    rw [if_neg hless]
    exact ⟨rfl, rfl⟩

/-! ## The leaky bucket -/

/-- The tokens are the room above the water. -/
def LeakyHash.bucket (capacity : ℚ) : LeakyHash ≃ Bucket ℚ where
  toFun h := ⟨capacity - h.w, h.l⟩
  invFun b := ⟨capacity - b.level, b.stamp⟩
  left_inv h := by
    show (⟨capacity - (capacity - h.w), h.l⟩ : LeakyHash) = h
    rw [sub_sub_cancel]
  right_inv b := by
    show (⟨capacity - (capacity - b.level), b.stamp⟩ : Bucket ℚ) = b
    rw [sub_sub_cancel]

theorem waterAt_eq (capacity leakRate now : ℚ) (b : Option LeakyHash) :
    capacity - waterAt leakRate now b
      = Bucket.available capacity leakRate (b.map (LeakyHash.bucket capacity)) now := by
  cases b with
  | none =>
    show capacity - max 0 (0 - max 0 (now - now) * leakRate) = capacity
    rw [sub_self, max_self, zero_mul, sub_self, max_self, sub_zero]
  | some b =>
    show capacity - max 0 (b.w - max 0 (now - b.l) * leakRate)
      = min capacity (capacity - b.w + max 0 (now - b.l) * leakRate)
    rcases le_total 0 (b.w - max 0 (now - b.l) * leakRate) with hwet | hdry
    · rw [max_eq_right hwet, min_eq_right (by linarith), sub_sub_eq_add_sub]
      ring
    · rw [max_eq_left hdry, min_eq_left (by linarith), sub_zero]

theorem leakyScript_isBucket (capacity leakRate : ℚ) :
    IsBucket (leakyScript capacity leakRate) capacity leakRate (LeakyHash.bucket capacity) where
  admits call b _ hle := by
    rw [← waterAt_eq] at hle ⊢
    have hroom : waterAt leakRate call.now b + call.cost ≤ capacity := by linarith
    unfold leakyScript
    rw [if_pos hroom]
    refine ⟨rfl, ?_⟩
    show some (⟨capacity - (waterAt leakRate call.now b + call.cost), call.now⟩ : Bucket ℚ) = _
    rw [sub_add_eq_sub_sub]
  refuses call b _ hnot := by
    rw [← waterAt_eq] at hnot
    have hfull : ¬ waterAt leakRate call.now b + call.cost ≤ capacity :=
      fun h => hnot (by linarith)
    unfold leakyScript
    rw [if_neg hfull]
    exact ⟨rfl, rfl⟩

/-! ## What is admitted -/

/-- The call is not older than the one that wrote the hash, unless that cannot
matter: nothing is refilled, or there is never room for two requests. -/
def InOrder {H : Type} (stamp : H → ℚ) (cap rate : ℚ) (s : BucketRun H)
    (call : Withdrawal ℚ) : Prop :=
  rate = 0 ∨ cap < 2 ∨ ∀ h, s.stored = some h → stamp h ≤ call.now

theorem InOrder.ordered {H : Type} {e : H ≃ Bucket ℚ} {cap rate : ℚ} {s : BucketRun H}
    {call : Withdrawal ℚ} (h : InOrder (fun h => (e h).stamp) cap rate s call) :
    (s.account e).Ordered cap rate call := by
  rcases h with hzero | hsmall | hstamp
  · exact .inl hzero
  · exact .inr (.inl hsmall)
  · refine .inr (.inr fun b hb => ?_)
    obtain ⟨hash, hstored, rfl⟩ := Option.map_eq_some_iff.mp hb
    exact hstamp hash hstored

theorem IsBucket.bounded_inOrder {H : Type}
    {script : Withdrawal ℚ → Option H → BucketReply × Option H} {cap rate : ℚ}
    {e : H ≃ Bucket ℚ} (h : IsBucket script cap rate e) (hcap : 0 ≤ cap) (hrate : 0 ≤ rate) :
    Bounded script cap rate (InOrder (fun h => (e h).stamp) cap rate) := by
  intro T₀ T₁ s hT hreach
  refine h.bounded hcap hrate T₀ T₁ s hT (hreach.map id id (fun _ hi => hi) ?_)
  exact fun s call s' hok hstep => ⟨⟨hok.1, hok.2.ordered⟩, hstep⟩

/-- In order, both scripts admit at most the capacity and what the interval refills;
in any order, they do so exactly if nothing is refilled or there is never room for
two requests. -/
theorem bucket_scripts_bounded (cap rate : ℚ) (hcap : 0 ≤ cap) (hrate : 0 ≤ rate) :
    (Bounded (tokenScript cap rate) cap rate (InOrder TokenHash.l cap rate)
        ∧ (Bounded (tokenScript cap rate) cap rate (fun _ _ => True) ↔ rate = 0 ∨ cap < 2))
      ∧ Bounded (leakyScript cap rate) cap rate (InOrder LeakyHash.l cap rate)
        ∧ (Bounded (leakyScript cap rate) cap rate (fun _ _ => True) ↔ rate = 0 ∨ cap < 2) := by
  have htoken := tokenScript_isBucket cap rate
  have hleaky := leakyScript_isBucket cap rate
  exact ⟨⟨htoken.bounded_inOrder hcap hrate, htoken.bounded_iff hcap hrate⟩,
    hleaky.bounded_inOrder hcap hrate, hleaky.bounded_iff hcap hrate⟩

/-- A bucket for one request, whatever the order. -/
theorem bucket_scripts_bounded_single :
    Bounded (tokenScript 1 5) 1 5 (fun _ _ => True)
      ∧ Bounded (leakyScript 1 5) 1 5 (fun _ _ => True) := by
  have h := bucket_scripts_bounded 1 5 (by norm_num) (by norm_num)
  exact ⟨h.1.2.mpr (.inr (by norm_num)), h.2.2.mpr (.inr (by norm_num))⟩

/-- Calls of two engines, one second apart. -/
def turns : List (Withdrawal ℚ) := [⟨1, 1⟩, ⟨1, 0⟩, ⟨1, 1⟩, ⟨1, 0⟩, ⟨1, 1⟩]

def turnsRun : Option (BucketRun TokenHash) :=
  (scriptSys (tokenScript 3 1)).run (fun _ call => call.Within 0 1 ∧ True) {} turns

def turnsLeaky : Option (BucketRun LeakyHash) :=
  (scriptSys (leakyScript 3 1)).run (fun _ call => call.Within 0 1 ∧ True) {} turns

theorem turns_run : turnsRun.isSome = true ∧ turnsLeaky.isSome = true := by decide +kernel

/-- Three tokens and one a second pay for five requests within a second. -/
theorem turns_overspend :
    ¬ Bounded (tokenScript 3 1) 3 1 (fun _ _ => True)
      ∧ ¬ Bounded (leakyScript 3 1) 3 1 (fun _ _ => True) := by
  refine ⟨fun h => ?_, fun h => ?_⟩
  · have hbound := h 0 1 (turnsRun.get turns_run.1) (by norm_num) (.of_run rfl turns turns_run.1)
    have hfive : (turnsRun.get turns_run.1).admitted = 5 := by decide +kernel
    rw [hfive] at hbound
    norm_num at hbound
  · have hbound := h 0 1 (turnsLeaky.get turns_run.2) (by norm_num) (.of_run rfl turns turns_run.2)
    have hfive : (turnsLeaky.get turns_run.2).admitted = 5 := by decide +kernel
    rw [hfive] at hbound
    norm_num at hbound

end Hypergate.Filters.RateLimiter
