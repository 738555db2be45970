import Hypergate.Lib.AMap

/-!
# Counters created on first use

A table of atomic counters that grows: a key gets its counter the first time
somebody asks for it, and keeps it (Go's `sync.Map` of `*atomic.Int64`). Cells
are named by their address.

`Counters.count` is what the table says about a key. The operations of the
table change it as one expects: looking up changes no count, and adding to the
cell of a key changes the count of that key alone.
-/

namespace Hypergate.Lib

universe u

/-- The table and the memory its cells live in. No two keys share a cell. -/
structure Counters (K : Type u) [DecidableEq K] where
  table : AMap K Nat := ∅
  cells : Nat → Int := fun _ => 0
  fresh : Nat := 0
  below : ∀ k c, table.lookup k = some c → c < fresh := by simp
  apart : ∀ k k' c, table.lookup k = some c → table.lookup k' = some c → k = k' := by simp

namespace Counters

variable {K : Type u} [DecidableEq K]

/-- `Load`: the cell of a key that has one. -/
def load (m : Counters K) (k : K) : Option Nat := m.table.lookup k

/-- The counter of a key, zero without a cell. -/
def count (m : Counters K) (k : K) : Int := (m.load k).elim 0 m.cells

/-- The table with a new cell for `k`. -/
def store (m : Counters K) (k : K) : Counters K where
  table := m.table.insert k m.fresh
  cells c := if c = m.fresh then 0 else m.cells c
  fresh := m.fresh + 1
  below := by
    intro k' c h
    rw [AMap.lookup_insert_ite] at h
    by_cases hk : k' = k
    · rw [if_pos hk] at h
      cases h
      exact Nat.lt_succ_self _
    · rw [if_neg hk] at h
      exact Nat.lt_succ_of_lt (m.below k' c h)
  apart := by
    intro k₁ k₂ c h₁ h₂
    rw [AMap.lookup_insert_ite] at h₁ h₂
    -- the new cell is none of those in use
    by_cases hk₁ : k₁ = k
    · by_cases hk₂ : k₂ = k
      · rw [hk₁, hk₂]
      · rw [if_pos hk₁] at h₁
        rw [if_neg hk₂] at h₂
        cases h₁
        exact absurd (m.below k₂ _ h₂) (Nat.lt_irrefl _)
    · by_cases hk₂ : k₂ = k
      · rw [if_neg hk₁] at h₁
        rw [if_pos hk₂] at h₂
        cases h₂
        exact absurd (m.below k₁ _ h₁) (Nat.lt_irrefl _)
      · rw [if_neg hk₁] at h₁
        rw [if_neg hk₂] at h₂
        exact m.apart k₁ k₂ c h₁ h₂

/-- `LoadOrStore` with a new cell: the cell of the key afterwards, whoever
stored it. -/
def loadOrStore (m : Counters K) (k : K) : Counters K × Nat :=
  match m.load k with
  | some c => (m, c)
  | none => (m.store k, m.fresh)

/-- `Add` to a cell. -/
def add (m : Counters K) (c : Nat) (d : Int) : Counters K :=
  { m with cells := fun c' => if c' = c then m.cells c' + d else m.cells c' }

/-! ## What the operations do -/

theorem load_add (m : Counters K) (c : Nat) (d : Int) (k : K) : (m.add c d).load k = m.load k :=
  rfl

variable {m : Counters K}

theorem count_of_load {k : K} {c : Nat} (h : m.load k = some c) :
    m.count k = m.cells c := by
  rw [count, h]
  rfl

theorem count_of_load_none {k : K} (h : m.load k = none) : m.count k = 0 := by
  rw [count, h]
  rfl

theorem load_store (m : Counters K) (k k' : K) :
    (m.store k).load k' = if k' = k then some m.fresh else m.load k' :=
  AMap.lookup_insert_ite ..

theorem count_store {k : K} (h : m.load k = none) (k' : K) :
    (m.store k).count k' = m.count k' := by
  by_cases hk : k' = k
  · subst hk
    have hnew : (m.store k').load k' = some m.fresh := by rw [load_store, if_pos rfl]
    rw [count_of_load hnew, count_of_load_none h]
    exact if_pos rfl
  · have hkeep : (m.store k).load k' = m.load k' := by rw [load_store, if_neg hk]
    cases hl : m.load k' with
    | none => rw [count_of_load_none (hkeep.trans hl), count_of_load_none hl]
    | some c =>
      rw [count_of_load (hkeep.trans hl), count_of_load hl]
      exact if_neg (Nat.ne_of_lt (m.below k' c hl))

/-- `LoadOrStore` ends with a cell for the key, moves no other key's cell and
changes no count. -/
theorem loadOrStore_spec (m : Counters K) (k : K) :
    (m.loadOrStore k).1.load k = some (m.loadOrStore k).2
      ∧ (∀ k' c, m.load k' = some c → (m.loadOrStore k).1.load k' = some c)
      ∧ ∀ k', (m.loadOrStore k).1.count k' = m.count k' := by
  unfold loadOrStore
  cases h : m.load k with
  | some c => exact ⟨h, fun _ _ hk' => hk', fun _ => rfl⟩
  | none =>
    refine ⟨?_, ?_, count_store h⟩
    · rw [load_store, if_pos rfl]
    · intro k' c hk'
      have hne : k' ≠ k := by
        rintro rfl
        rw [h] at hk'
        cases hk'
      rw [load_store, if_neg hne, hk']

/-- Adding to the cell of `k` is adding to the count of `k`. -/
theorem count_add {k : K} {c : Nat} (h : m.load k = some c) (d : Int) (k' : K) :
    (m.add c d).count k' = m.count k' + if k' = k then d else 0 := by
  cases hl : m.load k' with
  | none =>
    have hne : k' ≠ k := by
      rintro rfl
      rw [h] at hl
      cases hl
    rw [count_of_load_none ((load_add ..).trans hl), count_of_load_none hl, if_neg hne]
    rfl
  | some c' =>
    rw [count_of_load ((load_add ..).trans hl), count_of_load hl]
    show (if c' = c then m.cells c' + d else m.cells c') = m.cells c' + if k' = k then d else 0
    by_cases hk : k' = k
    · subst hk
      rw [h] at hl
      cases hl
      rw [if_pos rfl, if_pos rfl]
    · have hc : c' ≠ c := by
        rintro rfl
        exact hk (m.apart k' k c' hl h)
      rw [if_neg hc, if_neg hk, Int.add_zero]

end Counters

end Hypergate.Lib
