import Hypergate.Lib.RefusalCache
import Hypergate.Filters.RateLimiter.Expiry

/-!
# The L1 caches of the bucket limiters

A bucket limiter that blocks a request because there is less than one token, or
because of a cost of one, puts the key into the L1 cache of the engine for as long as
this request would have to wait, in whole seconds. Whoever comes after is blocked for
that time, whatever it costs.

* `Bearable` — the entry lasts no longer than a request of cost one has to wait, up to
  one second.
* `expensive_blocks` — one request that asks for ten tokens keeps everyone out for
  ninety seconds too long.

Both scripts are the bucket of `Lib.Bucket`, so one argument does for both. That Redis
forgets idle hashes is left to `RateLimiter.Expiry`.
-/

namespace Hypergate.Filters.RateLimiter

open Lib

/-! ## The executors -/

/-- `uint32` of a `float64` that is not negative; amd64 drops the bits above. -/
def toUInt32 (x : ℚ) : ℤ := ⌊x⌋ % 4294967296

/-- The TTL of the entry that a blocked request leaves, if it leaves one. -/
def leaveEntry (shadow : Bool) (cost remaining resetDuration : ℤ) : Option ℤ :=
  if shadow = false ∧ 0 < resetDuration ∧ (remaining = 0 ∨ cost = 1) then some resetDuration
  else none

/-- What the token bucket leaves; `remainingTokens` comes from the reply. -/
def tokenLeave (policy : YamlDescriptor) (cost : ℤ) (reply : BucketReply) : Option ℤ :=
  let remainingTokens := toUInt32 (max 0 reply.level)
  leaveEntry policy.shadowMode cost remainingTokens reply.resetDuration

/-- What the leaky bucket leaves; `remainingCapacity` is the room above the water. -/
def leakyLeave (policy : YamlDescriptor) (cost : ℤ) (reply : BucketReply) : Option ℤ :=
  let remainingCapacity :=
    if reply.level < policy.bucketCapacity.toNat then
      toUInt32 (policy.bucketCapacity.toNat - reply.level)
    else 0
  leaveEntry policy.shadowMode cost remainingCapacity reply.resetDuration

/-- A bucket and the L1 caches of the engines. A request is its cost. -/
def cachedBucket {H : Type} (script : Withdrawal ℚ → Option H → BucketReply × Option H)
    (leave : ℤ → BucketReply → Option ℤ) : CachedService ℚ Unit ℤ (Option H) where
  serve t cost bucket :=
    let answer := script ⟨cost, t⟩ bucket
    (answer.1.allowed, answer.2)
  leave t cost bucket := (leave cost (script ⟨cost, t⟩ bucket).1).map (Int.cast : ℤ → ℚ)
  key _ := ()

def cachedTokens (policy : YamlDescriptor) : CachedService ℚ Unit ℤ (Option TokenHash) :=
  cachedBucket (tokenScript policy.maxTokens policy.fillRate) (tokenLeave policy)

def cachedLeaky (policy : YamlDescriptor) : CachedService ℚ Unit ℤ (Option LeakyHash) :=
  cachedBucket (leakyScript policy.bucketCapacity.toNat (leakRatePerSecond policy))
    (leakyLeave policy)

/-- A request of that cost leaves no entry in front of a bucket with that much left, or
the bucket will have no token until a second before the entry runs out. -/
def Bearable (shadow : Bool) (cap rate left : ℚ) (cost : ℤ) : Prop :=
  shadow = true ∨ rate ≤ 0 ∨ cap < 1 ∨ cost ≤ left ∨ toUInt32 left ≠ 0
    ∨ (⌈(cost - left) / rate⌉ : ℚ) ≤ (1 - left) / rate + 1

def TokensBearable (policy : YamlDescriptor) (t : ℚ) (cost : ℤ) (bucket : Option TokenHash) :
    Prop :=
  Bearable policy.shadowMode policy.maxTokens policy.fillRate
    (tokensAt policy.maxTokens policy.fillRate t bucket) cost

def LeakyBearable (policy : YamlDescriptor) (t : ℚ) (cost : ℤ) (bucket : Option LeakyHash) :
    Prop :=
  Bearable policy.shadowMode policy.bucketCapacity.toNat (leakRatePerSecond policy)
    (max 0 (policy.bucketCapacity.toNat - waterAt (leakRatePerSecond policy) t bucket)) cost

/-! ## What holds of both -/

/-- The entries that a bucket leaves when it refuses a request. -/
structure LeavesEntries {H : Type} (script : Withdrawal ℚ → Option H → BucketReply × Option H)
    (leave : ℤ → BucketReply → Option ℤ) (shadow : Bool) (cap rate : ℚ) (e : H ≃ Bucket ℚ) :
    Prop where
  entry : ∀ {t : ℚ} {cost : ℤ} {b ttl}, 1 ≤ cost →
    (0 < rate → cap < 0 ∨ 0 ≤ Bucket.available cap rate (b.map e) t) →
    ¬ (cost : ℚ) ≤ Bucket.available cap rate (b.map e) t →
    leave cost (script ⟨cost, t⟩ b).1 = some ttl →
    shadow = false ∧ 0 < rate ∧ 0 < ttl
      ∧ ttl = ⌈(cost - max 0 (Bucket.available cap rate (b.map e) t)) / rate⌉
      ∧ toUInt32 (max 0 (Bucket.available cap rate (b.map e) t)) = 0
  left : ∀ {t : ℚ} {cost : ℤ} {b}, 1 ≤ cost → 0 ≤ Bucket.available cap rate (b.map e) t →
    Bucket.available cap rate (b.map e) t < 1 → shadow = false → 0 < rate →
    leave cost (script ⟨cost, t⟩ b).1
      = some ⌈(cost - Bucket.available cap rate (b.map e) t) / rate⌉

section Bucket

variable {H : Type} {script : Withdrawal ℚ → Option H → BucketReply × Option H}
  {leave : ℤ → BucketReply → Option ℤ} {shadow : Bool} {cap rate : ℚ} {e : H ≃ Bucket ℚ}

/-- The hash was written by now, and was not overdrawn. -/
def Written (e : H ≃ Bucket ℚ) (t : ℚ) (b : Option H) : Prop :=
  ∀ h, b = some h → 0 ≤ (e h).level ∧ (e h).stamp ≤ t

/-- Less than one token until `B`. -/
def Drained (cap rate : ℚ) (e : H ≃ Bucket ℚ) (B t : ℚ) (b : Option H) : Prop :=
  ∀ t', t ≤ t' → t' < B → Bucket.available cap rate (b.map e) t' < 1

/-- The condition, in terms of the bucket. -/
def BucketBearable (shadow : Bool) (cap rate : ℚ) (e : H ≃ Bucket ℚ) (t : ℚ) (cost : ℤ)
    (b : Option H) : Prop :=
  Bearable shadow cap rate (max 0 (Bucket.available cap rate (b.map e) t)) cost

variable {b : Option H} {t : ℚ}

theorem Written.available_nonneg (h : Written e t b) (hrate : 0 ≤ rate) (hcap : 0 ≤ cap) (now : ℚ) :
    0 ≤ Bucket.available cap rate (b.map e) now := by
  cases b with
  | none => exact hcap
  | some hash =>
    have hlevel := (h hash rfl).1
    exact le_min hcap (add_nonneg hlevel (mul_nonneg (le_max_left _ _) hrate))

theorem toUInt32_eq_zero {x : ℚ} (hnonneg : 0 ≤ x) (hlt : x < 1) : toUInt32 x = 0 := by
  unfold toUInt32
  rw [Int.floor_eq_zero_iff.mpr ⟨hnonneg, hlt⟩]
  rfl

theorem lt_one_of_toUInt32 {x : ℚ} (hnonneg : 0 ≤ x) (hlt : x < 4294967296)
    (h : toUInt32 x = 0) : x < 1 := by
  have hfloor : 0 ≤ ⌊x⌋ := Int.floor_nonneg.mpr hnonneg
  have hbound : ⌊x⌋ < 4294967296 := Int.floor_lt.mpr (by exact_mod_cast hlt)
  unfold toUInt32 at h
  exact_mod_cast Int.floor_lt.mp (show ⌊x⌋ < 1 by omega)

variable {cost : ℤ}

variable (leave) in
theorem serve_admits (h : IsBucket script cap rate e) (hcost : 1 ≤ cost)
    (hle : (cost : ℚ) ≤ Bucket.available cap rate (b.map e) t) :
    ((cachedBucket script leave).serve t cost b).1 = true
      ∧ ((cachedBucket script leave).serve t cost b).2.map e
        = some ⟨Bucket.available cap rate (b.map e) t - cost, t⟩ :=
  h.admits ⟨cost, t⟩ b hcost hle

variable (leave) in
theorem serve_refuses (h : IsBucket script cap rate e) (hcost : 1 ≤ cost)
    (hnot : ¬ (cost : ℚ) ≤ Bucket.available cap rate (b.map e) t) :
    ((cachedBucket script leave).serve t cost b).1 = false
      ∧ ((cachedBucket script leave).serve t cost b).2 = b :=
  h.refuses ⟨cost, t⟩ b hcost hnot

variable (leave) in
theorem Written.serve (h : IsBucket script cap rate e) (hcost : 1 ≤ cost) (hb : Written e t b) :
    Written e t ((cachedBucket script leave).serve t cost b).2 := by
  by_cases hle : (cost : ℚ) ≤ Bucket.available cap rate (b.map e) t
  · intro hash hwritten
    have hmap := (serve_admits leave h hcost hle).2
    rw [hwritten] at hmap
    have hbucket : e hash = ⟨Bucket.available cap rate (b.map e) t - cost, t⟩ :=
      Option.some.inj hmap
    rw [hbucket]
    exact ⟨sub_nonneg.mpr hle, le_refl t⟩
  · rw [(serve_refuses leave h hcost hle).2]
    exact hb

/-- A refused request of a service that is fit for it. -/
theorem not_le_available (h : IsBucket script cap rate e) (hcost : 1 ≤ cost)
    (hrefused : ((cachedBucket script leave).serve t cost b).1 = false) :
    ¬ (cost : ℚ) ≤ Bucket.available cap rate (b.map e) t := by
  intro hle
  rw [(serve_admits leave h hcost hle).1] at hrefused
  cases hrefused

theorem Written.spare (h : Written e t b) (hrate : 0 < rate) :
    cap < 0 ∨ 0 ≤ Bucket.available cap rate (b.map e) t := by
  by_cases hcap : 0 ≤ cap
  · exact .inr (h.available_nonneg hrate.le hcap t)
  · exact .inl (not_le.mp hcap)

/-- Until the bucket has a token again, the entry of a bearable request is sound. -/
theorem drained_of_entry (hl : LeavesEntries script leave shadow cap rate e) {ttl : ℤ}
    (hcost : 1 ≤ cost) (hb : Written e t b) (hok : BucketBearable shadow cap rate e t cost b)
    (hnot : ¬ (cost : ℚ) ≤ Bucket.available cap rate (b.map e) t)
    (hleave : leave cost (script ⟨cost, t⟩ b).1 = some ttl) :
    ∃ B, t < B ∧ Drained cap rate e B t b ∧ t + ttl ≤ B + 1 := by
  obtain ⟨hshadow, hrate, hpos, httl, hzero⟩ := hl.entry hcost hb.spare hnot hleave
  by_cases hcap : cap < 1
  · -- There is never a whole token.
    have hpos : (0 : ℚ) < ttl := by exact_mod_cast hpos
    refine ⟨t + ttl, by linarith, fun t' _ _ => ?_, by linarith⟩
    exact (available_le_cap _ t').trans_lt hcap
  · have hnonneg := hb.available_nonneg hrate.le (by linarith) t
    rw [max_eq_right hnonneg] at httl hzero
    rcases hok with h | h | h | h | h | hbrief
    · exact absurd h (by simp [hshadow])
    · exact absurd h (not_le.mpr hrate)
    · exact absurd h hcap
    · rw [max_eq_right hnonneg] at h
      exact absurd h hnot
    · rw [max_eq_right hnonneg] at h
      exact absurd hzero h
    · rw [max_eq_right hnonneg, ← httl] at hbrief
      -- The entry is not left for a bucket with exactly one token.
      have hone : (1 : ℚ) ≤ ttl := by exact_mod_cast hpos
      have hle : Bucket.available cap rate (b.map e) t ≤ 1 := by
        by_contra hgt
        have hneg := div_neg_of_neg_of_pos (sub_neg.mpr (not_le.mp hgt)) hrate
        linarith
      have hlt := lt_one_of_toUInt32 hnonneg (by linarith) hzero
      refine ⟨t + (1 - Bucket.available cap rate (b.map e) t) / rate, ?_, ?_, by linarith⟩
      · linarith [div_pos (sub_pos.mpr hlt) hrate]
      · intro t' hle' hbefore
        have hrefilled := available_le_add cap hrate.le (b.map e) hle'
        have hspan : (t' - t) * rate < 1 - Bucket.available cap rate (b.map e) t :=
          (lt_div_iff₀ hrate).mp (by linarith)
        linarith

theorem cachedBucket_doomed (h : IsBucket script cap rate e)
    (hl : LeavesEntries script leave shadow cap rate e) :
    Doomed (cachedBucket script leave) none (fun cost => 1 ≤ cost)
      (BucketBearable shadow cap rate e) 1 (Written e) (Drained cap rate e) where
  start _ _ hnone := absurd hnone (by simp)
  later hb hle := fun hash hash' => ⟨(hb hash hash').1, (hb hash hash').2.trans hle⟩
  keeps hcost hb := hb.serve leave h hcost
  refuses := by
    intro B t t' cost b hdrained hle hlt hcost
    have hone : (1 : ℚ) ≤ cost := by exact_mod_cast hcost
    have hnot : ¬ (cost : ℚ) ≤ Bucket.available cap rate (b.map e) t' :=
      not_le.mpr ((hdrained t' hle hlt).trans_le hone)
    obtain ⟨hrefused, hkept⟩ := serve_refuses leave h hcost hnot
    refine ⟨hrefused, ?_⟩
    rw [hkept]
    exact fun t'' hle'' hlt'' => hdrained t'' (hle.trans hle'') hlt''
  leaves := by
    intro t cost b ttl hcost hb hok hrefused hleave
    have hnot := not_le_available h hcost hrefused
    obtain ⟨n, hentry, rfl⟩ := Option.map_eq_some_iff.mp hleave
    obtain ⟨B, hbefore, hdrained, hends⟩ := drained_of_entry hl hcost hb hok hnot hentry
    refine ⟨B, hbefore, ?_, fun τ _ _ hτ => hτ.trans_le hends⟩
    rw [(serve_refuses leave h hcost hnot).2]
    exact hdrained

/-- A request that is not bearable blocks one that has waited long enough. -/
theorem bearable_of_sound (h : IsBucket script cap rate e)
    (hl : LeavesEntries script leave shadow cap rate e) (hcap : cap < 4294967296)
    {s : Site ℚ Unit (Option H)} {client : Nat} {now : ℚ} (hcost : 1 ≤ cost)
    (hb : Written e now s.remote)
    (hsound : (s.served (cachedBucket script leave) client now cost).Sound
      (cachedBucket script leave) (fun cost => 1 ≤ cost) 1) :
    BucketBearable shadow cap rate e now cost s.remote := by
  by_contra hnot
  unfold BucketBearable Bearable at hnot
  simp only [not_or, not_le, not_lt, not_not, Bool.not_eq_true] at hnot
  obtain ⟨hshadow, hrate, hone, hover, hzero, hlong⟩ := hnot
  have hcap' : 0 ≤ cap := by linarith
  have hnonneg := hb.available_nonneg hrate.le hcap' now
  rw [max_eq_right hnonneg] at hover hzero hlong
  have hlt := lt_one_of_toUInt32 hnonneg
    ((available_le_cap _ now).trans_lt hcap) hzero
  obtain ⟨hrefused, hkept⟩ := serve_refuses leave h hcost (not_le.mpr hover)
  have hleave : (cachedBucket script leave).leave now cost s.remote
      = some (⌈(cost - Bucket.available cap rate (s.remote.map e) now) / rate⌉ : ℚ) := by
    show (leave cost _).map _ = _
    rw [hl.left hcost hnonneg hlt hshadow hrate]
    rfl
  have hwait := div_pos (sub_pos.mpr hlt) hrate
  refine absurd hsound (not_sound_served hrefused hleave rfl zero_le_one
    (τ := now + (1 - Bucket.available cap rate (s.remote.map e) now) / rate + 1)
    (by linarith) (by linarith) (Int.le_refl 1) fun t hafter _ => ?_)
  have hspan : 1 - Bucket.available cap rate (s.remote.map e) now ≤ (t - now) * rate :=
    (div_le_iff₀ hrate).mp (by linarith)
  have hstamp : ∀ b', s.remote.map e = some b' → b'.stamp ≤ now := by
    intro b' hb'
    obtain ⟨hash, hstored, rfl⟩ := Option.map_eq_some_iff.mp hb'
    exact (hb hash hstored).2
  have htoken := le_available cap rate (s.remote.map e) hstamp
    (show now ≤ t by linarith)
  rw [hkept]
  refine (serve_admits leave h (Int.le_refl 1) ?_).1
  refine le_trans (le_min ?_ ?_) htoken
  · exact_mod_cast hone
  · push_cast
    linarith

end Bucket

/-! ## The two buckets -/

section Entries

variable {cost : ℤ} {left rate : ℚ}

theorem reset_pos (hrate : 0 < rate) (h : ¬ (cost : ℚ) ≤ left) : 0 < ⌈(cost - left) / rate⌉ :=
  Int.ceil_pos.mpr (div_pos (sub_pos.mpr (not_le.mp h)) hrate)

/-- What follows from an entry, if the bucket has that much left. -/
theorem of_leaveEntry {shadow : Bool} {remaining ttl : ℤ} (hnot : ¬ (cost : ℚ) ≤ left)
    (hleft : 0 < rate → 0 ≤ left ∧ remaining = toUInt32 left)
    (h : leaveEntry shadow cost remaining (if 0 < rate then ⌈(cost - left) / rate⌉ else 0)
      = some ttl) :
    shadow = false ∧ 0 < rate ∧ 0 < ttl ∧ ttl = ⌈(cost - left) / rate⌉ ∧ toUInt32 left = 0 := by
  unfold leaveEntry at h
  by_cases hrate : 0 < rate
  · obtain ⟨hnonneg, hremaining⟩ := hleft hrate
    rw [if_pos hrate, hremaining] at h
    split at h
    · case isTrue hentry =>
        obtain ⟨hshadow, hpos, hcheap⟩ := hentry
        cases h
        refine ⟨hshadow, hrate, hpos, rfl, ?_⟩
        rcases hcheap with hzero | rfl
        · exact hzero
        · exact toUInt32_eq_zero hnonneg (by exact_mod_cast not_le.mp hnot)
    · cases h
  · rw [if_neg hrate, if_neg (by simp)] at h
    cases h

theorem leaveEntry_of_lt {shadow : Bool} {remaining : ℤ} (hcost : 1 ≤ cost) (hnonneg : 0 ≤ left)
    (hlt : left < 1) (hshadow : shadow = false) (hrate : 0 < rate)
    (hremaining : remaining = toUInt32 left) :
    leaveEntry shadow cost remaining (if 0 < rate then ⌈(cost - left) / rate⌉ else 0)
      = some ⌈(cost - left) / rate⌉ := by
  have hone : (1 : ℚ) ≤ cost := by exact_mod_cast hcost
  unfold leaveEntry
  rw [if_pos hrate, hremaining, if_pos ⟨hshadow, reset_pos hrate (by linarith),
    .inl (toUInt32_eq_zero hnonneg hlt)⟩]

end Entries

/-- What the token bucket answers to a request that it refuses. -/
theorem tokenScript_refused {maxTokens fillRate t : ℚ} {cost : ℤ} {b : Option TokenHash}
    (h : ¬ (cost : ℚ) ≤ tokensAt maxTokens fillRate t b) :
    (tokenScript maxTokens fillRate ⟨cost, t⟩ b).1
      = ⟨false, tokensAt maxTokens fillRate t b,
        if 0 < fillRate then ⌈(cost - tokensAt maxTokens fillRate t b) / fillRate⌉ else 0⟩ := by
  unfold tokenScript
  dsimp only
  rw [if_neg h]
  by_cases hrate : 0 < fillRate
  · have hpos := div_pos (sub_pos.mpr (not_le.mp h)) hrate
    rw [if_pos hrate, if_pos hrate, max_eq_right hpos.le]
  · rw [if_neg hrate, if_neg hrate, max_self, Int.ceil_zero]

theorem tokens_leave (policy : YamlDescriptor) :
    LeavesEntries (tokenScript policy.maxTokens policy.fillRate) (tokenLeave policy)
      policy.shadowMode policy.maxTokens policy.fillRate TokenHash.bucket where
  entry := by
    intro t cost b ttl hcost _ hnot hleave
    have hone : (1 : ℚ) ≤ cost := by exact_mod_cast hcost
    have hless : ¬ (cost : ℚ) ≤ tokensAt policy.maxTokens policy.fillRate t b := by
      rw [tokensAt_eq, le_max_iff]
      exact not_or.mpr ⟨by linarith, hnot⟩
    have hnonneg : 0 ≤ tokensAt policy.maxTokens policy.fillRate t b := le_max_left _ _
    rw [← tokensAt_eq]
    rw [tokenScript_refused hless] at hleave
    exact of_leaveEntry hless (fun _ => ⟨hnonneg, by rw [max_eq_right hnonneg]⟩) hleave
  left := by
    intro t cost b hcost hnonneg hlt hshadow hrate
    have hone : (1 : ℚ) ≤ cost := by exact_mod_cast hcost
    have htokens : tokensAt policy.maxTokens policy.fillRate t b
        = Bucket.available policy.maxTokens policy.fillRate (b.map TokenHash.bucket) t := by
      rw [tokensAt_eq, max_eq_right hnonneg]
    rw [← htokens] at hnonneg hlt ⊢
    rw [tokenScript_refused (not_le.mpr (hlt.trans_le hone))]
    exact leaveEntry_of_lt hcost hnonneg hlt hshadow hrate (by rw [max_eq_right hnonneg])

/-- What the leaky bucket answers to a request that it refuses. -/
theorem leakyScript_refused {capacity leakRate t : ℚ} {cost : ℤ} {b : Option LeakyHash}
    (h : ¬ (cost : ℚ) ≤ capacity - waterAt leakRate t b) :
    (leakyScript capacity leakRate ⟨cost, t⟩ b).1
      = ⟨false, waterAt leakRate t b,
        if 0 < leakRate then ⌈(cost - (capacity - waterAt leakRate t b)) / leakRate⌉ else 0⟩ := by
  have hfull : ¬ waterAt leakRate t b + cost ≤ capacity := fun hle => h (by linarith)
  have hmissing : waterAt leakRate t b + cost - capacity
      = cost - (capacity - waterAt leakRate t b) := by ring
  unfold leakyScript
  dsimp only
  rw [if_neg hfull, hmissing]
  by_cases hrate : 0 < leakRate
  · rw [if_pos hrate, if_pos hrate]
  · rw [if_neg hrate, if_neg hrate, Int.ceil_zero]

theorem remainingCapacity_eq {capacity water : ℚ} (h : 0 ≤ capacity - water) :
    (if water < capacity then toUInt32 (capacity - water) else 0)
      = toUInt32 (capacity - water) := by
  by_cases hlt : water < capacity
  · rw [if_pos hlt]
  · rw [if_neg hlt, toUInt32_eq_zero h (by linarith)]

theorem leaky_leave (policy : YamlDescriptor) :
    LeavesEntries (leakyScript policy.bucketCapacity.toNat (leakRatePerSecond policy))
      (leakyLeave policy) policy.shadowMode policy.bucketCapacity.toNat (leakRatePerSecond policy)
      (LeakyHash.bucket policy.bucketCapacity.toNat) where
  entry := by
    intro t cost b ttl hcost hspare hnot hleave
    have hcap : (0 : ℚ) ≤ policy.bucketCapacity.toNat := Nat.cast_nonneg _
    rw [← waterAt_eq] at hspare hnot ⊢
    rw [leakyScript_refused hnot] at hleave
    have hroom : 0 < leakRatePerSecond policy →
        0 ≤ (policy.bucketCapacity.toNat : ℚ) - waterAt (leakRatePerSecond policy) t b :=
      fun hrate => (hspare hrate).resolve_left (not_lt.mpr hcap)
    obtain ⟨hshadow, hrate, hpos, httl, hzero⟩ := of_leaveEntry hnot
      (fun hrate => ⟨hroom hrate, remainingCapacity_eq (hroom hrate)⟩) hleave
    rw [max_eq_right (hroom hrate)]
    exact ⟨hshadow, hrate, hpos, httl, hzero⟩
  left := by
    intro t cost b hcost hnonneg hlt hshadow hrate
    have hone : (1 : ℚ) ≤ cost := by exact_mod_cast hcost
    rw [← waterAt_eq] at hnonneg hlt ⊢
    rw [leakyScript_refused (not_le.mpr (hlt.trans_le hone))]
    exact leaveEntry_of_lt hcost hnonneg hlt hshadow hrate (remainingCapacity_eq hnonneg)

/-! ## Soundness -/

/-- In every run whose refused requests meet `ok`, entries block only what the service
would have refused less than a second before. -/
def CacheSound {H : Type} (svc : CachedService ℚ Unit ℤ (Option H))
    (ok : ℚ → ℤ → Option H → Prop) : Prop :=
  ∀ s, (siteSys svc none).ReachableUnder (Site.Ok svc (fun cost => 1 ≤ cost) ok) s →
    s.Sound svc (fun cost => 1 ≤ cost) 1

/-- After such a run, the next request that is served leaves a sound state exactly if
it meets `ok`. -/
def CacheExact {H : Type} (svc : CachedService ℚ Unit ℤ (Option H))
    (ok : ℚ → ℤ → Option H → Prop) : Prop :=
  ∀ s, (siteSys svc none).ReachableUnder (Site.Ok svc (fun cost => 1 ≤ cost) ok) s →
    ∀ client now cost, s.clock ≤ now → 1 ≤ cost → s.hit svc client now = false →
      ((s.step svc (.request client now cost)).Sound svc (fun cost => 1 ≤ cost) 1
        ↔ ok now cost s.remote)

section Sound

variable {H : Type} {script : Withdrawal ℚ → Option H → BucketReply × Option H}
  {leave : ℤ → BucketReply → Option ℤ} {shadow : Bool} {cap rate : ℚ} {e : H ≃ Bucket ℚ}

theorem cacheSound (h : IsBucket script cap rate e)
    (hl : LeavesEntries script leave shadow cap rate e) :
    CacheSound (cachedBucket script leave) (BucketBearable shadow cap rate e) :=
  fun _ hs => (cachedBucket_doomed h hl).sound hs

theorem cacheExact (h : IsBucket script cap rate e)
    (hl : LeavesEntries script leave shadow cap rate e) (hcap : cap < 4294967296) :
    CacheExact (cachedBucket script leave) (BucketBearable shadow cap rate e) := by
  have hdoomed := cachedBucket_doomed h hl
  intro s hs client now cost hclock hcost hhit
  constructor
  · intro hsound
    rw [step_of_not_hit hhit] at hsound
    have hwritten := hdoomed.later (hdoomed.inductive.invariant hs).inv hclock
    exact bearable_of_sound h hl hcap hcost hwritten hsound
  · intro hok
    exact hdoomed.sound (reachable_request hs client hcost hclock hok)

theorem tokensBearable_eq (policy : YamlDescriptor) :
    TokensBearable policy = BucketBearable policy.shadowMode policy.maxTokens policy.fillRate
      TokenHash.bucket := by
  funext t cost b
  unfold TokensBearable BucketBearable
  rw [tokensAt_eq]

theorem leakyBearable_eq (policy : YamlDescriptor) :
    LeakyBearable policy = BucketBearable policy.shadowMode policy.bucketCapacity.toNat
      (leakRatePerSecond policy) (LeakyHash.bucket policy.bucketCapacity.toNat) := by
  funext t cost b
  unfold LeakyBearable BucketBearable
  rw [waterAt_eq]

end Sound

/-- In runs whose refused requests are bearable, an entry blocks only what the script
would have refused less than a second before, for both buckets; and a request that is
not bearable blocks one that would be admitted. A bucket for tokens may have so many
that the number left does not fit into 32 bits. -/
theorem bucket_cache_sound (policy : YamlDescriptor) :
    (CacheSound (cachedTokens policy) (TokensBearable policy)
        ∧ (policy.maxTokens < 4294967296 →
          CacheExact (cachedTokens policy) (TokensBearable policy)))
      ∧ CacheSound (cachedLeaky policy) (LeakyBearable policy)
        ∧ CacheExact (cachedLeaky policy) (LeakyBearable policy) := by
  have htokens := tokenScript_isBucket policy.maxTokens policy.fillRate
  have hleaky := leakyScript_isBucket policy.bucketCapacity.toNat (leakRatePerSecond policy)
  have hcap : (policy.bucketCapacity.toNat : ℚ) < 4294967296 := by
    exact_mod_cast policy.bucketCapacity.toNat_lt
  rw [tokensBearable_eq, leakyBearable_eq]
  exact ⟨⟨cacheSound htokens (tokens_leave policy), cacheExact htokens (tokens_leave policy)⟩,
    cacheSound hleaky (leaky_leave policy), cacheExact hleaky (leaky_leave policy) hcap⟩

/-! ## An expensive request -/

/-- One token, and ten seconds for the next. -/
def slowPolicy : YamlDescriptor where
  unit := "minute"
  maxTokens := 1
  fillRate := 1 / 10
  bucketCapacity := 1
  leakRate := 6

/-- After the token is gone, a request for ten leaves an entry for a hundred seconds. -/
theorem not_cacheSound {H : Type} {script : Withdrawal ℚ → Option H → BucketReply × Option H}
    {leave : ℤ → BucketReply → Option ℤ} {e : H ≃ Bucket ℚ}
    (h : IsBucket script 1 (1 / 10) e) (hl : LeavesEntries script leave false 1 (1 / 10) e) :
    ¬ CacheSound (cachedBucket script leave) (fun _ _ _ => True) := by
  intro hsound
  let start : Site ℚ Unit (Option H) := ⟨none, fun _ => none, 0, fun _ _ => none⟩
  have hstart : (siteSys (cachedBucket script leave) none).ReachableUnder
      (Site.Ok (cachedBucket script leave) (fun cost => 1 ≤ cost) fun _ _ _ => True) start :=
    .init ⟨rfl, rfl, rfl⟩
  have hfirst := reachable_request hstart 0 (q := 1) (Int.le_refl 1) (le_refl 0) trivial
  rw [step_of_not_hit rfl] at hfirst
  obtain ⟨hadmits, hwritten⟩ := serve_admits (t := 0) (b := none) leave h (Int.le_refl 1)
    (show ((1 : ℤ) : ℚ) ≤ 1 by norm_num)
  have hmiss : (start.served (cachedBucket script leave) 0 0 1).hit (cachedBucket script leave)
      0 0 = false := by
    unfold Site.hit Site.served Site.entries
    rw [hadmits]
  have hsecond := hsound _ (reachable_request hfirst 0 (q := 10) (by decide) (le_refl 0) trivial)
  rw [step_of_not_hit hmiss] at hsecond
  have hremote : (start.served (cachedBucket script leave) 0 0 1).remote.map e
      = some ⟨1 - (1 : ℤ), 0⟩ := hwritten
  have hempty : Bucket.available 1 (1 / 10)
      ((start.served (cachedBucket script leave) 0 0 1).remote.map e) 0 = 0 := by
    rw [hremote]
    norm_num [Bucket.available]
  have hb : Written e 0 (start.served (cachedBucket script leave) 0 0 1).remote :=
    Written.serve leave h (Int.le_refl 1) fun _ hnone => absurd hnone (by simp [start])
  have hbearable := bearable_of_sound h hl (by norm_num) (by decide) hb hsecond
  unfold BucketBearable Bearable at hbearable
  rw [hempty] at hbearable
  norm_num [toUInt32] at hbearable

theorem expensive_blocks :
    ¬ CacheSound (cachedTokens slowPolicy) (fun _ _ _ => True)
      ∧ ¬ CacheSound (cachedLeaky slowPolicy) (fun _ _ _ => True) := by
  have hrate : leakRatePerSecond slowPolicy = 1 / 10 := by
    have hunit : getDivider slowPolicy.unit = 60 := by decide
    unfold leakRatePerSecond
    rw [hunit]
    norm_num [slowPolicy]
  have hcap : (slowPolicy.bucketCapacity.toNat : ℚ) = 1 := Nat.cast_one
  have hleave := leaky_leave slowPolicy
  refine ⟨not_cacheSound (tokenScript_isBucket 1 (1 / 10)) (tokens_leave slowPolicy), ?_⟩
  unfold cachedLeaky
  rw [hrate, hcap] at hleave ⊢
  exact not_cacheSound (leakyScript_isBucket 1 (1 / 10)) hleave

end Hypergate.Filters.RateLimiter
