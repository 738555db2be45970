import Mathlib.Algebra.Order.Archimedean.Basic
import Mathlib.Algebra.Order.Field.Basic
import Mathlib.Tactic.Linarith
import Hypergate.Lib.TSys

/-!
# Buckets that refill with time

A bucket holds tokens up to a capacity and gains them at a constant rate. It keeps
its level and the time of its last change. A withdrawal comes with a timestamp of
its own: it takes its cost if the bucket, refilled up to that time, has enough, and
then leaves its timestamp behind. Nothing says that timestamps grow; between the
last change and an earlier time no tokens are gained, but they are not lost either.

* `spent_le` — a run spends at most the capacity and what the time span refills, if
  no withdrawal goes back behind the last change, or if nothing is refilled, or if
  the bucket never holds two tokens.
* `spent_bounded_iff` — otherwise nothing bounds it: two timestamps taken in turns
  have the span between them refilled again and again.
-/

namespace Hypergate.Lib

universe u

/-- The tokens at a time. -/
structure Bucket (F : Type u) where
  level : F
  stamp : F

structure Withdrawal (F : Type u) where
  cost : ℤ
  now : F

/-- A bucket that was never touched is full. `spent` is what has been taken. -/
structure Account (F : Type u) where
  bucket : Option (Bucket F) := none
  spent : ℤ := 0

section Bucket

variable {F : Type u} [Field F] [LinearOrder F]

/-- The tokens at a later, or earlier, time. -/
def Bucket.available (cap rate : F) (b : Option (Bucket F)) (now : F) : F :=
  match b with
  | none => cap
  | some b => min cap (b.level + max 0 (now - b.stamp) * rate)

def Account.step (cap rate : F) (a : Account F) (w : Withdrawal F) : Account F :=
  if (w.cost : F) ≤ Bucket.available cap rate a.bucket w.now then
    { bucket := some ⟨Bucket.available cap rate a.bucket w.now - w.cost, w.now⟩
      spent := a.spent + w.cost }
  else a

def bucketSys (cap rate : F) : TSys (Account F) (Withdrawal F) where
  init a := a = {}
  step a w := some (a.step cap rate w)

/-- A positive cost, and a timestamp in the interval. -/
structure Withdrawal.Within (T₀ T₁ : F) (w : Withdrawal F) : Prop where
  cost : 1 ≤ w.cost
  after : T₀ ≤ w.now
  before : w.now ≤ T₁

instance (T₀ T₁ : F) (w : Withdrawal F) : Decidable (w.Within T₀ T₁) :=
  decidable_of_iff (1 ≤ w.cost ∧ T₀ ≤ w.now ∧ w.now ≤ T₁)
    ⟨fun ⟨hcost, hafter, hbefore⟩ => ⟨hcost, hafter, hbefore⟩,
      fun h => ⟨h.cost, h.after, h.before⟩⟩

/-- The withdrawal cannot have a span of time refilled twice. -/
def Account.Ordered (cap rate : F) (a : Account F) (w : Withdrawal F) : Prop :=
  rate = 0 ∨ cap < 2 ∨ ∀ b, a.bucket = some b → b.stamp ≤ w.now

variable [IsStrictOrderedRing F] {cap rate T₀ T₁ : F} {a : Account F} {w : Withdrawal F}

/-! ## A bucket that is left alone -/

omit [IsStrictOrderedRing F] in
theorem available_le_cap (b : Option (Bucket F)) (now : F) :
    Bucket.available cap rate b now ≤ cap := by
  cases b with
  | none => exact le_refl cap
  | some b => exact min_le_left _ _

theorem available_le_add (cap : F) (hrate : 0 ≤ rate) (b : Option (Bucket F)) {now t : F}
    (h : now ≤ t) :
    Bucket.available cap rate b t ≤ Bucket.available cap rate b now + (t - now) * rate := by
  have hspan : 0 ≤ (t - now) * rate := mul_nonneg (sub_nonneg.mpr h) hrate
  cases b with
  | none => exact le_add_of_nonneg_right hspan
  | some b =>
    have helapsed : max 0 (t - b.stamp) ≤ max 0 (now - b.stamp) + (t - now) := by
      rcases max_choice 0 (t - b.stamp) with hmax | hmax <;> rw [hmax]
      · exact add_nonneg (le_max_left _ _) (sub_nonneg.mpr h)
      · linarith [le_max_right 0 (now - b.stamp)]
    have hrefilled := mul_le_mul_of_nonneg_right helapsed hrate
    show min cap (b.level + max 0 (t - b.stamp) * rate)
      ≤ min cap (b.level + max 0 (now - b.stamp) * rate) + (t - now) * rate
    rw [← min_add_add_right]
    exact min_le_min (by linarith) (by linarith)

theorem le_available (cap rate : F) (b : Option (Bucket F)) {now t : F}
    (hstamp : ∀ b', b = some b' → b'.stamp ≤ now) (h : now ≤ t) :
    min cap (Bucket.available cap rate b now + (t - now) * rate)
      ≤ Bucket.available cap rate b t := by
  cases b with
  | none => exact min_le_left _ _
  | some b =>
    have hstamp := hstamp b rfl
    show min cap (min cap (b.level + max 0 (now - b.stamp) * rate) + (t - now) * rate)
      ≤ min cap (b.level + max 0 (t - b.stamp) * rate)
    rw [max_eq_right (by linarith), max_eq_right (by linarith)]
    refine le_min (min_le_left _ _) ((min_le_right _ _).trans ?_)
    have hle := min_le_right cap (b.level + (now - b.stamp) * rate)
    linarith

/-! ## The bound -/

/-- What is spent, and what is left, came with the bucket or was refilled since
`T₀`. -/
structure Account.Funded (cap rate T₀ T₁ : F) (a : Account F) (b : Bucket F) : Prop where
  nonneg : 0 ≤ b.level
  taken : b.level ≤ cap - 1
  after : T₀ ≤ b.stamp
  before : b.stamp ≤ T₁
  funded : a.spent + b.level ≤ cap + rate * (b.stamp - T₀)

/-- Since the last change at most the rate was refilled. -/
theorem available_le {b : Bucket F} (hf : a.Funded cap rate T₀ T₁ b)
    (hb : a.bucket = some b) (hw : w.Within T₀ T₁) (ho : a.Ordered cap rate w)
    (hcost : (w.cost : F) ≤ Bucket.available cap rate (some b) w.now) :
    Bucket.available cap rate (some b) w.now ≤ b.level + (w.now - b.stamp) * rate := by
  have hle : Bucket.available cap rate (some b) w.now
      ≤ b.level + max 0 (w.now - b.stamp) * rate := min_le_right _ _
  by_cases hnow : b.stamp ≤ w.now
  · rwa [max_eq_right (sub_nonneg.mpr hnow)] at hle
  · rcases ho with hzero | hcap | hstamp
    · rw [hzero, mul_zero] at hle ⊢
      exact hle
    · -- a bucket below two tokens has less than one after a withdrawal
      have hone : (1 : F) ≤ w.cost := by exact_mod_cast hw.cost
      rw [max_eq_left (sub_nonpos.mpr (not_le.mp hnow).le), zero_mul, add_zero] at hle
      have htaken := hf.taken
      exact absurd (hone.trans (hcost.trans hle)) (by linarith)
    · exact absurd (hstamp b hb) hnow

theorem Account.Funded.first (hrate : 0 ≤ rate) (ha : a.spent = 0) (hw : w.Within T₀ T₁)
    (hcost : (w.cost : F) ≤ cap) :
    Account.Funded cap rate T₀ T₁ ⟨some ⟨cap - w.cost, w.now⟩, a.spent + w.cost⟩
      ⟨cap - w.cost, w.now⟩ where
  nonneg := sub_nonneg.mpr hcost
  taken := by
    have hone : (1 : F) ≤ w.cost := by exact_mod_cast hw.cost
    linarith
  after := hw.after
  before := hw.before
  funded := by
    have hrefilled : 0 ≤ rate * (w.now - T₀) := mul_nonneg hrate (sub_nonneg.mpr hw.after)
    rw [ha]
    push_cast
    linarith

theorem Account.Funded.next {b : Bucket F} (hf : a.Funded cap rate T₀ T₁ b)
    (hb : a.bucket = some b) (hw : w.Within T₀ T₁) (ho : a.Ordered cap rate w)
    (hcost : (w.cost : F) ≤ Bucket.available cap rate (some b) w.now) :
    Account.Funded cap rate T₀ T₁
      ⟨some ⟨Bucket.available cap rate (some b) w.now - w.cost, w.now⟩, a.spent + w.cost⟩
      ⟨Bucket.available cap rate (some b) w.now - w.cost, w.now⟩ where
  nonneg := sub_nonneg.mpr hcost
  taken := by
    have hone : (1 : F) ≤ w.cost := by exact_mod_cast hw.cost
    have hcap : Bucket.available cap rate (some b) w.now ≤ cap := min_le_left _ _
    linarith
  after := hw.after
  before := hw.before
  funded := by
    have hle := available_le hf hb hw ho hcost
    have hfunded := hf.funded
    show ((a.spent + w.cost : ℤ) : F) + (Bucket.available cap rate (some b) w.now - w.cost)
      ≤ cap + rate * (w.now - T₀)
    push_cast
    linarith

/-- Either nothing was spent yet, or the account is funded. -/
def Account.Sound (cap rate T₀ T₁ : F) (a : Account F) : Prop :=
  (a.bucket = none ∧ a.spent = 0) ∨ ∃ b, a.bucket = some b ∧ a.Funded cap rate T₀ T₁ b

theorem Account.Sound.step (hrate : 0 ≤ rate) (h : a.Sound cap rate T₀ T₁)
    (hw : w.Within T₀ T₁) (ho : a.Ordered cap rate w) :
    (a.step cap rate w).Sound cap rate T₀ T₁ := by
  unfold Account.step
  by_cases hcost : (w.cost : F) ≤ Bucket.available cap rate a.bucket w.now
  · rw [if_pos hcost]
    rcases h with ⟨hnone, hspent⟩ | ⟨b, hb, hf⟩
    · rw [hnone] at hcost ⊢
      exact .inr ⟨_, rfl, .first hrate hspent hw hcost⟩
    · rw [hb] at hcost ⊢
      exact .inr ⟨_, rfl, hf.next hb hw ho hcost⟩
  · rw [if_neg hcost]
    exact h

theorem Account.Sound.spent_le (hcap : 0 ≤ cap) (hrate : 0 ≤ rate) (hT : T₀ ≤ T₁)
    (h : a.Sound cap rate T₀ T₁) : (a.spent : F) ≤ cap + rate * (T₁ - T₀) := by
  rcases h with ⟨-, hspent⟩ | ⟨b, -, hf⟩
  · have hrefilled : 0 ≤ rate * (T₁ - T₀) := mul_nonneg hrate (sub_nonneg.mpr hT)
    rw [hspent, Int.cast_zero]
    linarith
  · have hspan : rate * (b.stamp - T₀) ≤ rate * (T₁ - T₀) :=
      mul_le_mul_of_nonneg_left (sub_le_sub_right hf.before T₀) hrate
    have hnonneg := hf.nonneg
    have hfunded := hf.funded
    linarith

/-- A run in which no withdrawal has a span refilled twice spends at most the
capacity and what the interval refills. -/
theorem spent_le (hcap : 0 ≤ cap) (hrate : 0 ≤ rate) (hT : T₀ ≤ T₁)
    (h : (bucketSys cap rate).ReachableUnder
      (fun a w => w.Within T₀ T₁ ∧ a.Ordered cap rate w) a) :
    (a.spent : F) ≤ cap + rate * (T₁ - T₀) := by
  have hsound : (bucketSys cap rate).Inductive
      (fun a w => w.Within T₀ T₁ ∧ a.Ordered cap rate w) (Account.Sound cap rate T₀ T₁) := by
    refine ⟨fun a ha => .inl ?_, fun a w a' hs hok hstep => ?_⟩
    · rw [ha]
      exact ⟨rfl, rfl⟩
    · cases hstep
      exact hs.step hrate hok.1 hok.2
  exact (hsound.invariant h).spent_le hcap hrate hT

/-! ## Two timestamps in turns -/

/-- At a time that was already refilled a full bucket pays for two. -/
theorem exists_spent (hcap : 2 ≤ cap) (hrate : 0 < rate) (T₀ : F) (n : Nat) :
    ∃ a, (bucketSys cap rate).ReachableUnder (fun _ w => w.Within T₀ (T₀ + 2 / rate)) a
      ∧ a.spent = 2 * n ∧ Bucket.available cap rate a.bucket (T₀ + 2 / rate) = cap := by
  induction n with
  | zero => exact ⟨{}, .init rfl, by simp, rfl⟩
  | succ n ih =>
    obtain ⟨a, hreach, hspent, hfull⟩ := ih
    have hspan : 0 ≤ 2 / rate := (div_pos two_pos hrate).le
    have hlate : Withdrawal.Within T₀ (T₀ + 2 / rate) ⟨1, T₀ + 2 / rate⟩ :=
      ⟨le_refl _, le_add_of_nonneg_right hspan, le_refl _⟩
    have hearly : Withdrawal.Within T₀ (T₀ + 2 / rate) ⟨1, T₀⟩ :=
      ⟨le_refl _, le_refl _, le_add_of_nonneg_right hspan⟩
    -- the later time first
    have hfirst : a.step cap rate ⟨1, T₀ + 2 / rate⟩
        = ⟨some ⟨cap - 1, T₀ + 2 / rate⟩, a.spent + 1⟩ := by
      unfold Account.step
      rw [hfull, Int.cast_one, if_pos (by linarith)]
    -- then the earlier one, for which nothing is refilled
    have hleft : Bucket.available cap rate (some ⟨cap - 1, T₀ + 2 / rate⟩) T₀ = cap - 1 := by
      show min cap (cap - 1 + max 0 (T₀ - (T₀ + 2 / rate)) * rate) = cap - 1
      rw [max_eq_left (by linarith), zero_mul, add_zero, min_eq_right (by linarith)]
    have hsecond : Account.step cap rate ⟨some ⟨cap - 1, T₀ + 2 / rate⟩, a.spent + 1⟩ ⟨1, T₀⟩
        = ⟨some ⟨cap - 2, T₀⟩, a.spent + 2⟩ := by
      have hlevel : cap - 1 - 1 = cap - 2 := by ring
      have hsum : a.spent + 1 + 1 = a.spent + 2 := by omega
      unfold Account.step
      rw [hleft, Int.cast_one, if_pos (by linarith)]
      show (⟨some ⟨cap - 1 - 1, T₀⟩, a.spent + 1 + 1⟩ : Account F) = _
      rw [hlevel, hsum]
    refine ⟨⟨some ⟨cap - 2, T₀⟩, a.spent + 2⟩, ?_, ?_, ?_⟩
    · exact (hreach.step hlate (congrArg some hfirst)).step hearly (congrArg some hsecond)
    · show a.spent + 2 = 2 * ((n + 1 : Nat) : ℤ)
      push_cast
      omega
    · -- and the later time has the whole span refilled
      have hrefill : max 0 (T₀ + 2 / rate - T₀) * rate = 2 := by
        rw [add_sub_cancel_left, max_eq_right hspan, div_mul_cancel₀ _ hrate.ne']
      show min cap (cap - 2 + max 0 (T₀ + 2 / rate - T₀) * rate) = cap
      rw [hrefill, sub_add_cancel, min_self]

/-- The bound holds for all timestamps exactly when nothing is refilled, or never
two tokens are there. -/
theorem spent_bounded_iff [Archimedean F] (hcap : 0 ≤ cap) (hrate : 0 ≤ rate) :
    (∀ T₀ T₁ a, T₀ ≤ T₁ → (bucketSys cap rate).ReachableUnder (fun _ w => w.Within T₀ T₁) a →
      (a.spent : F) ≤ cap + rate * (T₁ - T₀)) ↔ rate = 0 ∨ cap < 2 := by
  constructor
  · intro h
    by_contra hnot
    obtain ⟨hne, hge⟩ := not_or.mp hnot
    have hpos : 0 < rate := lt_of_le_of_ne hrate (Ne.symm hne)
    obtain ⟨n, hn⟩ := exists_nat_gt (cap + 2)
    obtain ⟨a, hreach, hspent, -⟩ := exists_spent (not_lt.mp hge) hpos 0 n
    have hbound := h 0 (0 + 2 / rate) a (by simp [div_nonneg two_pos.le hrate]) hreach
    have hspan : rate * (0 + 2 / rate - 0) = 2 := by
      rw [zero_add, sub_zero, mul_div_cancel₀ _ hne]
    rw [hspan, hspent] at hbound
    push_cast at hbound
    have hn0 : (0 : F) ≤ n := Nat.cast_nonneg n
    linarith
  · intro hcond T₀ T₁ a hT h
    refine spent_le hcap hrate hT (h.map id id (fun _ hi => hi) fun s w s' hok hstep => ?_)
    refine ⟨⟨hok, ?_⟩, hstep⟩
    rcases hcond with hzero | hsmall
    · exact .inl hzero
    · exact .inr (.inl hsmall)

end Bucket

end Hypergate.Lib
