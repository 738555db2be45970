import Mathlib.Logic.Function.Basic

/-!
# Reference-counted policy snapshots (`internal/engine/registry.go`)

A `Snapshot` is an immutable policy plus the four fields of its lifecycle:
the reference counter, the retired flag, the cleanup installed by the `Swap`
that replaced it, and the `sync.Once` that guards the cleanup. The registry
holds the current snapshot; `Acquire` and `Release` count references, `Swap`
replaces the current snapshot and retires the previous one.

Snapshots are pointers in the source, so the model keeps a heap of them
(`ChainRegistry.heap`) and every call names a snapshot by its address, a
natural number. The operations here are the whole calls, one after the other;
`RegistrySteps` splits the same calls into their atomic steps.

The policy `α` and the cleanup closures `γ` stay abstract.
-/

namespace Hypergate.Engine

universe u v

/-- `engine.Snapshot`: the policy and the lifecycle fields. -/
structure Snapshot (α : Type u) (γ : Type v) where
  policy : α
  refs : Int := 0
  retired : Bool := false
  /-- `none` while unset, or when `Swap` was given a nil cleanup. -/
  cleanup : Option γ := none
  /-- `cleanOnce` has fired. -/
  cleaned : Bool := false

/-- `engine.ChainRegistry` with the snapshots ever installed: addresses below
`fresh` are allocated. -/
structure ChainRegistry (α : Type u) (γ : Type v) where
  heap : Nat → Snapshot α γ
  fresh : Nat
  current : Nat

namespace ChainRegistry

variable {α : Type u} {γ : Type v}

/-- `NewChainRegistry`: one snapshot, holding `policy`. -/
def new (policy : α) : ChainRegistry α γ where
  heap := fun _ => { policy }
  fresh := 1
  current := 0

/-- Overwrite the snapshot at one address. -/
def modify (r : ChainRegistry α γ) (s : Nat) (f : Snapshot α γ → Snapshot α γ) :
    ChainRegistry α γ :=
  { r with heap := Function.update r.heap s (f (r.heap s)) }

@[simp] theorem modify_heap_self (r : ChainRegistry α γ) (s : Nat)
    (f : Snapshot α γ → Snapshot α γ) : (r.modify s f).heap s = f (r.heap s) :=
  Function.update_self ..

theorem modify_heap_ne (r : ChainRegistry α γ) {s s' : Nat} (h : s' ≠ s)
    (f : Snapshot α γ → Snapshot α γ) : (r.modify s f).heap s' = r.heap s' :=
  Function.update_of_ne h ..

theorem modify_heap (r : ChainRegistry α γ) (s s' : Nat)
    (f : Snapshot α γ → Snapshot α γ) :
    (r.modify s f).heap s' = if s' = s then f (r.heap s') else r.heap s' := by
  by_cases h : s' = s
  · subst h; simp
  · rw [modify_heap_ne r h, if_neg h]

/-- `Acquire`: the current snapshot, with its counter incremented. -/
def acquire (r : ChainRegistry α γ) : ChainRegistry α γ × Nat :=
  (r.modify r.current fun s => { s with refs := s.refs + 1 }, r.current)

/-- `runCleanup`: `cleanOnce.Do`. The result lists the closure that ran. -/
def runCleanup (r : ChainRegistry α γ) (s : Nat) : ChainRegistry α γ × List γ :=
  if (r.heap s).cleaned then (r, [])
  else (r.modify s fun x => { x with cleaned := true }, (r.heap s).cleanup.toList)

/-- `Release`: drop a reference; the one that reaches zero on a retired
snapshot runs the cleanup. -/
def release (r : ChainRegistry α γ) (s : Nat) : ChainRegistry α γ × List γ :=
  let r' := r.modify s fun x => { x with refs := x.refs - 1 }
  if (r'.heap s).refs = 0 ∧ (r'.heap s).retired = true then r'.runCleanup s else (r', [])

/-- `retire`: install the cleanup, set the flag, and run the cleanup at once
when nothing holds the snapshot. -/
def retire (r : ChainRegistry α γ) (s : Nat) (cleanup : Option γ) :
    ChainRegistry α γ × List γ :=
  let r' := r.modify s fun x => { x with cleanup := cleanup, retired := true }
  if (r'.heap s).refs = 0 then r'.runCleanup s else (r', [])

/-- The write-locked section of `Swap`: install a new snapshot. -/
def install (r : ChainRegistry α γ) (next : α) : ChainRegistry α γ where
  heap := Function.update r.heap r.fresh { policy := next }
  fresh := r.fresh + 1
  current := r.fresh

/-- `Swap`: install `next` and retire the snapshot it replaces. -/
def swap (r : ChainRegistry α γ) (next : α) (cleanup : Option γ) :
    ChainRegistry α γ × List γ :=
  (r.install next).retire r.current cleanup

/-! ## What the calls leave alone

A policy is immutable, and only `Swap` changes which snapshot is current. -/

theorem modify_policy (r : ChainRegistry α γ) (s s' : Nat) (f : Snapshot α γ → Snapshot α γ)
    (hf : ∀ x, (f x).policy = x.policy) : ((r.modify s f).heap s').policy = (r.heap s').policy := by
  rw [modify_heap]
  split
  · exact hf _
  · rfl

theorem runCleanup_heap (r : ChainRegistry α γ) (s s' : Nat) :
    (r.runCleanup s).1.heap s' =
      if s' = s then { r.heap s' with cleaned := true } else r.heap s' := by
  unfold runCleanup
  by_cases hc : (r.heap s).cleaned = true
  · rw [if_pos hc]
    split
    · rename_i heq
      rw [heq, ← hc]
    · rfl
  · rw [if_neg hc]
    exact modify_heap r s s' fun x => { x with cleaned := true }

theorem runCleanup_policy (r : ChainRegistry α γ) (s s' : Nat) :
    ((r.runCleanup s).1.heap s').policy = (r.heap s').policy := by
  rw [runCleanup_heap]
  split <;> rfl

theorem runCleanup_current (r : ChainRegistry α γ) (s : Nat) :
    (r.runCleanup s).1.current = r.current := by
  unfold runCleanup
  split <;> rfl

theorem runCleanup_fresh (r : ChainRegistry α γ) (s : Nat) :
    (r.runCleanup s).1.fresh = r.fresh := by
  unfold runCleanup
  split <;> rfl

theorem retire_policy (r : ChainRegistry α γ) (s s' : Nat) (cleanup : Option γ) :
    ((r.retire s cleanup).1.heap s').policy = (r.heap s').policy := by
  have hmodify := modify_policy r s s'
    (fun x => { x with cleanup := cleanup, retired := true }) fun _ => rfl
  unfold retire
  dsimp only
  split
  · rw [runCleanup_policy, hmodify]
  · exact hmodify

theorem retire_current (r : ChainRegistry α γ) (s : Nat) (cleanup : Option γ) :
    (r.retire s cleanup).1.current = r.current := by
  unfold retire
  dsimp only
  split
  · exact runCleanup_current _ _
  · rfl

theorem swap_current (r : ChainRegistry α γ) (next : α) (cleanup : Option γ) :
    (r.swap next cleanup).1.current = r.fresh :=
  retire_current _ _ _

theorem swap_policy (r : ChainRegistry α γ) (next : α) (cleanup : Option γ) (s : Nat) :
    ((r.swap next cleanup).1.heap s).policy = if s = r.fresh then next else (r.heap s).policy := by
  unfold swap
  rw [retire_policy]
  show (Function.update r.heap r.fresh { policy := next } s).policy = _
  rw [Function.update_apply]
  split <;> rfl

end ChainRegistry

end Hypergate.Engine
