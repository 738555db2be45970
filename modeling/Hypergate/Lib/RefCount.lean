import Hypergate.Lib.AMap

/-!
# Reference-counted membership

Contributors each name one reference `r` and list some keys `k`; the question is
which references some present contributor gives to a key. A `RefMap` answers it
from counters: for every key, the references and by how many contributors.

`Coupled` ties the counters to the table of contributors, and `Coupled.add` and
`Coupled.drop` keep it when one of them comes or goes. Its use is
`Coupled.mem_keys_iff`: a key has a reference exactly when a contributor present
in the table gives it.
-/

namespace Hypergate.Lib

universe u v w

/-! ## Counting the values of a map -/

namespace AMap

variable {K : Type u} {V : Type v} [DecidableEq K]

/-- The number of entries whose value meets `p`. -/
def countVals (p : V → Bool) (m : AMap K V) : Nat := m.entries.countP fun e => p e.2

theorem countVals_insert {p : V → Bool} {m : AMap K V} {k : K} (h : m.lookup k = none) (v : V) :
    countVals p (m.insert k v) = countVals p m + if p v then 1 else 0 := by
  have hnot : k ∉ m := AList.lookup_eq_none.mp h
  unfold countVals
  rw [AList.entries_insert_of_notMem hnot, List.countP_cons]

theorem countVals_erase {p : V → Bool} {m : AMap K V} {k : K} {v : V} (h : m.lookup k = some v) :
    countVals p (m.erase k) + (if p v then 1 else 0) = countVals p m := by
  have hmem : k ∈ m := by
    rw [← AList.lookup_isSome, h]
    rfl
  obtain ⟨v', l₁, l₂, -, hentries, herase⟩ := List.exists_of_kerase hmem
  have hv : v' = v := by
    have hin : (⟨k, v'⟩ : Sigma fun _ : K => V) ∈ m.entries := by simp [hentries]
    exact Option.some.inj ((lookup_eq_some_iff.mpr hin).symm.trans h)
  subst hv
  have herased : (m.erase k).entries = l₁ ++ l₂ := herase
  unfold countVals
  rw [herased, hentries, List.countP_append, List.countP_append, List.countP_cons]
  dsimp only
  omega

theorem countVals_pos_iff {p : V → Bool} {m : AMap K V} :
    0 < countVals p m ↔ ∃ k v, m.lookup k = some v ∧ p v = true := by
  unfold countVals
  rw [List.countP_pos_iff]
  constructor
  · rintro ⟨⟨k, v⟩, hmem, hp⟩
    exact ⟨k, v, lookup_eq_some_iff.mpr hmem, hp⟩
  · rintro ⟨k, v, hlookup, hp⟩
    exact ⟨⟨k, v⟩, lookup_eq_some_iff.mp hlookup, hp⟩

end AMap

/-! ## The counters -/

/-- For every key, the references it has and how often. -/
abbrev RefMap (K : Type u) (R : Type v) := AMap K (AMap R Int)

namespace RefMap

variable {K : Type u} {R : Type v} [DecidableEq K] [DecidableEq R]

/-- One more reference. -/
def add (m : RefMap K R) (key : K) (ref : R) : RefMap K R :=
  let refs := m.getD key ∅
  m.insert key (refs.insert ref (refs.getD ref 0 + 1))

/-- One reference less; nothing is kept at zero. -/
def drop (m : RefMap K R) (key : K) (ref : R) : RefMap K R :=
  let refs := m.getD key ∅
  let n := refs.getD ref 0 - 1
  let refs' : AMap R Int := if n ≤ 0 then refs.erase ref else refs.insert ref n
  if refs'.entries.isEmpty then m.erase key else m.insert key refs'

/-- How often a key has a reference. -/
def count (m : RefMap K R) (key : K) (ref : R) : Int := (m.getD key ∅).getD ref 0

/-- No reference is kept at zero. -/
def Positive (m : RefMap K R) : Prop := ∀ key ref n, (m.getD key ∅).lookup ref = some n → 0 < n

variable {m : RefMap K R}

theorem mem_keys_iff (h : m.Positive) {key : K} {ref : R} :
    ref ∈ (m.getD key ∅).keys ↔ 0 < m.count key ref := by
  unfold count AMap.getD
  cases hl : AList.lookup ref ((m.lookup key).getD ∅) with
  | none =>
    have hnot : ref ∉ ((m.lookup key).getD ∅).keys := AList.lookup_eq_none.mp hl
    simp [hnot]
  | some n =>
    have hmem : ref ∈ ((m.lookup key).getD ∅).keys := by
      rw [← AList.mem_keys, ← AList.lookup_isSome, hl]
      rfl
    have hpos : 0 < n := h key ref n hl
    simp [hmem, hpos]

theorem getD_add (m : RefMap K R) (key key' : K) (ref : R) :
    (m.add key ref).getD key' ∅
      = if key' = key then (m.getD key ∅).insert ref (m.count key ref + 1) else m.getD key' ∅ :=
  AMap.getD_insert ..

theorem count_add (m : RefMap K R) (key key' : K) (ref ref' : R) :
    (m.add key ref).count key' ref'
      = m.count key' ref' + if key' = key ∧ ref' = ref then 1 else 0 := by
  unfold count
  rw [getD_add]
  by_cases hk : key' = key
  · subst hk
    rw [if_pos rfl, AMap.getD_insert]
    by_cases hr : ref' = ref
    · subst hr
      rw [if_pos rfl, if_pos ⟨rfl, rfl⟩]
      rfl
    · rw [if_neg hr, if_neg (fun hc => hr hc.2), Int.add_zero]
  · rw [if_neg hk, if_neg (fun hc => hk hc.1), Int.add_zero]

theorem Positive.add (h : m.Positive) (key : K) (ref : R) :
    (m.add key ref).Positive := by
  intro key' ref' n hn
  rw [getD_add] at hn
  by_cases hk : key' = key
  · rw [if_pos hk, AMap.lookup_insert_ite] at hn
    by_cases hr : ref' = ref
    · rw [if_pos hr] at hn
      have hnonneg : 0 ≤ m.count key ref := by
        unfold count AMap.getD
        cases hl : AList.lookup ref ((m.lookup key).getD ∅) with
        | none => exact Int.le_refl 0
        | some k => exact Int.le_of_lt (h key ref k hl)
      have hsum := Option.some.inj hn
      omega
    · rw [if_neg hr] at hn
      exact h key ref' n hn
  · rw [if_neg hk] at hn
    exact h key' ref' n hn

theorem getD_drop (m : RefMap K R) (key key' : K) (ref : R) :
    (m.drop key ref).getD key' ∅
      = if key' = key then
          (if m.count key ref - 1 ≤ 0 then (m.getD key ∅).erase ref
            else (m.getD key ∅).insert ref (m.count key ref - 1))
        else m.getD key' ∅ := by
  unfold drop
  dsimp only
  generalize hrest : (if (m.getD key ∅).getD ref 0 - 1 ≤ 0 then (m.getD key ∅).erase ref
    else (m.getD key ∅).insert ref ((m.getD key ∅).getD ref 0 - 1) : AMap R Int) = rest
  have hsame : (if m.count key ref - 1 ≤ 0 then (m.getD key ∅).erase ref
      else (m.getD key ∅).insert ref (m.count key ref - 1) : AMap R Int) = rest := hrest
  rw [hsame]
  by_cases hempty : rest.entries.isEmpty = true
  · -- the empty map of a key is not stored
    have hnil : rest = ∅ := AList.ext (List.isEmpty_iff.mp hempty)
    rw [if_pos hempty, AMap.getD_erase, hnil]
  · rw [if_neg hempty, AMap.getD_insert]

theorem count_drop {key : K} {ref : R} (h : 0 < m.count key ref) (key' : K) (ref' : R) :
    (m.drop key ref).count key' ref'
      = m.count key' ref' - if key' = key ∧ ref' = ref then 1 else 0 := by
  unfold count at h ⊢
  by_cases hk : key' = key
  · subst hk
    have hget : (m.drop key' ref).getD key' ∅
        = if (m.getD key' ∅).getD ref 0 - 1 ≤ 0 then (m.getD key' ∅).erase ref
          else (m.getD key' ∅).insert ref ((m.getD key' ∅).getD ref 0 - 1) :=
      (getD_drop m key' key' ref).trans (if_pos rfl)
    by_cases hone : (m.getD key' ∅).getD ref 0 - 1 ≤ 0
    · rw [hget, if_pos hone, AMap.getD_erase]
      by_cases hr : ref' = ref
      · subst hr
        simp only [and_self, if_true]
        omega
      · simp [hr]
    · rw [hget, if_neg hone, AMap.getD_insert]
      by_cases hr : ref' = ref
      · subst hr
        simp
      · simp [hr]
  · have hget : (m.drop key ref).getD key' ∅ = m.getD key' ∅ :=
      (getD_drop m key key' ref).trans (if_neg hk)
    rw [hget, if_neg (fun hc => hk hc.1), Int.sub_zero]

theorem Positive.drop (h : m.Positive) (key : K) (ref : R) :
    (m.drop key ref).Positive := by
  intro key' ref' n hn
  rw [getD_drop] at hn
  by_cases hk : key' = key
  · rw [if_pos hk] at hn
    by_cases hone : m.count key ref - 1 ≤ 0
    · rw [if_pos hone, AMap.lookup_erase_ite] at hn
      by_cases hr : ref' = ref
      · rw [if_pos hr] at hn
        cases hn
      · rw [if_neg hr] at hn
        exact h key ref' n hn
    · rw [if_neg hone, AMap.lookup_insert_ite] at hn
      by_cases hr : ref' = ref
      · rw [if_pos hr] at hn
        have hdiff := Option.some.inj hn
        omega
      · rw [if_neg hr] at hn
        exact h key ref' n hn
  · rw [if_neg hk] at hn
    exact h key' ref' n hn

/-! ## Several keys at once -/

/-- The counts after one more reference for each of the distinct `keys`. -/
theorem count_addAll (m : RefMap K R) {keys : List K} (hnodup : keys.Nodup) (ref : R) (key : K)
    (ref' : R) :
    count (keys.foldl (fun m k => m.add k ref) m) key ref'
      = m.count key ref' + if key ∈ keys ∧ ref' = ref then 1 else 0 := by
  induction keys generalizing m with
  | nil => simp
  | cons k keys ih =>
    rw [List.nodup_cons] at hnodup
    rw [List.foldl_cons, ih (m.add k ref) hnodup.2, count_add]
    by_cases hk : key = k
    · subst hk
      by_cases hr : ref' = ref <;> simp [hr, hnodup.1]
    · simp [hk]

theorem Positive.addAll (h : m.Positive) (keys : List K) (ref : R) :
    Positive (keys.foldl (fun m k => m.add k ref) m) := by
  induction keys generalizing m with
  | nil => exact h
  | cons k keys ih => exact ih (h.add k ref)

/-- The counts after one reference less for each of the distinct `keys`, which
all have it. -/
theorem count_dropAll {keys : List K} (hnodup : keys.Nodup) {ref : R}
    (h : ∀ k ∈ keys, 0 < m.count k ref) (key : K) (ref' : R) :
    count (keys.foldl (fun m k => m.drop k ref) m) key ref'
      = m.count key ref' - if key ∈ keys ∧ ref' = ref then 1 else 0 := by
  induction keys generalizing m with
  | nil => simp
  | cons k keys ih =>
    rw [List.nodup_cons] at hnodup
    have hk := h k List.mem_cons_self
    have hrest : ∀ k' ∈ keys, 0 < (m.drop k ref).count k' ref := by
      intro k' hk'
      have hne : k' ≠ k := fun he => hnodup.1 (he ▸ hk')
      rw [count_drop hk, if_neg (fun hc => hne hc.1), Int.sub_zero]
      exact h k' (List.mem_cons_of_mem _ hk')
    rw [List.foldl_cons, ih hnodup.2 hrest, count_drop hk]
    by_cases he : key = k
    · subst he
      by_cases hr : ref' = ref <;> simp [hr, hnodup.1]
    · simp [he]

theorem Positive.dropAll (h : m.Positive) (keys : List K) (ref : R) :
    Positive (keys.foldl (fun m k => m.drop k ref) m) := by
  induction keys generalizing m with
  | nil => exact h
  | cons k keys ih => exact ih (h.drop k ref)

/-! ## Contributors -/

section Contributors

variable {S : Type w} {C : Type w} [DecidableEq S] (refOf : C → R) (keysOf : C → List K)

/-- `c` gives the reference to the key. -/
def gives (key : K) (ref : R) (c : C) : Bool := decide (refOf c = ref) && decide (key ∈ keysOf c)

theorem gives_eq (key : K) (ref : R) (c : C) :
    gives refOf keysOf key ref c = decide (key ∈ keysOf c ∧ ref = refOf c) := by
  simp [gives, eq_comm, Bool.and_comm]

/-- The counters are those of the contributors in the table. -/
structure Coupled (m : RefMap K R) (table : AMap S C) : Prop where
  positive : m.Positive
  count : ∀ key ref, m.count key ref = table.countVals (gives refOf keysOf key ref)

variable {refOf keysOf} {m : RefMap K R} {table : AMap S C}

omit [DecidableEq S] in
theorem Coupled.empty : Coupled refOf keysOf (∅ : RefMap K R) (∅ : AMap S C) where
  positive key ref n h := absurd h (by simp)
  count _ _ := rfl

theorem Coupled.add (h : Coupled refOf keysOf m table) {s : S} {c : C}
    (hs : table.lookup s = none) (hnodup : (keysOf c).Nodup) :
    Coupled refOf keysOf ((keysOf c).foldl (fun m k => m.add k (refOf c)) m)
      (table.insert s c) where
  positive := h.positive.addAll _ _
  count key ref := by
    rw [count_addAll m hnodup, h.count, AMap.countVals_insert hs]
    by_cases hg : key ∈ keysOf c ∧ ref = refOf c
    · simp [gives_eq, hg]
    · simp [gives_eq, hg]

theorem Coupled.drop (h : Coupled refOf keysOf m table) {s : S} {c : C}
    (hs : table.lookup s = some c) (hnodup : (keysOf c).Nodup) :
    Coupled refOf keysOf ((keysOf c).foldl (fun m k => m.drop k (refOf c)) m) (table.erase s) where
  positive := h.positive.dropAll _ _
  count key ref := by
    -- the contributor itself is counted at each of its keys
    have hpos : ∀ k ∈ keysOf c, 0 < m.count k (refOf c) := by
      intro k hk
      rw [h.count]
      have hone : 0 < table.countVals (gives refOf keysOf k (refOf c)) :=
        AMap.countVals_pos_iff.mpr ⟨s, c, hs, by simp [gives, hk]⟩
      omega
    rw [count_dropAll hnodup hpos, h.count, ← AMap.countVals_erase hs]
    by_cases hg : key ∈ keysOf c ∧ ref = refOf c
    · simp [gives_eq, hg]
    · simp [gives_eq, hg]

/-- A key has the references that contributors in the table give it. -/
theorem Coupled.mem_keys_iff (h : Coupled refOf keysOf m table) {key : K} {ref : R} :
    ref ∈ (m.getD key ∅).keys
      ↔ ∃ s c, table.lookup s = some c ∧ refOf c = ref ∧ key ∈ keysOf c := by
  rw [RefMap.mem_keys_iff h.positive, h.count]
  constructor
  · intro hpos
    obtain ⟨s, c, hs, hg⟩ := AMap.countVals_pos_iff.mp (Int.natCast_pos.mp hpos)
    simp only [gives, Bool.and_eq_true, decide_eq_true_eq] at hg
    exact ⟨s, c, hs, hg.1, hg.2⟩
  · rintro ⟨s, c, hs, href, hkey⟩
    exact Int.natCast_pos.mpr (AMap.countVals_pos_iff.mpr ⟨s, c, hs, by simp [gives, href, hkey]⟩)

end Contributors

end RefMap

end Hypergate.Lib
