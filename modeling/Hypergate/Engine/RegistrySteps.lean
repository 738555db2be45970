import Hypergate.Lib.TSys
import Hypergate.Engine.Registry
import Mathlib.Tactic.Common

/-!
# The registry under interleaving (`internal/engine/registry.go`)

Any number of threads call `Acquire`, `Release` and `Swap` concurrently. The
read-locked section of `Acquire` and the write-locked section of `Swap` are
atomic; in between, the counter decrement of `Release` and its load of the
retired flag, and the three accesses of `retire` (cleanup store, flag store,
counter load), are separate steps, and so is `cleanOnce.Do`.

* `Lifecycle` — what holds in every reachable state: the counter counts the
  held references, at most one thread retires a snapshot, a cleanup runs only
  after its `Swap` and at most once, and whoever can still owe the cleanup of a
  drained snapshot is in flight.
* `Drained` — what the code adds only when no late `Release` finds a retired
  snapshot in use again (`RetiredLoadAtZero`): a cleanup in flight, or done,
  has no reference left.

The missing half of `Drained` is a defect of `Release`: its decrement and its
load are not one step, so a `Release` that took the counter to zero can be
overtaken by an `Acquire` and a `Swap`, and then runs the cleanup under the new
holder.
-/

namespace Hypergate.Engine

open Hypergate.Lib

universe u v

/-- Where a call stands: the next atomic step it will take. -/
inductive Pc (γ : Type v) where
  | idle
  /-- `Release` after `refs.Add(-1) == 0`, before `retired.Load()`. -/
  | loadRetired (s : Nat)
  /-- `retire`, before `s.cleanup = cleanup`. -/
  | storeCleanup (s : Nat) (cleanup : Option γ)
  /-- `retire`, before `s.retired.Store(true)`. -/
  | storeRetired (s : Nat)
  /-- `retire`, before `s.refs.Load()`. -/
  | loadRefs (s : Nat)
  /-- Either call, before `cleanOnce.Do`. -/
  | runCleanup (s : Nat)

namespace Pc

variable {γ : Type v}

/-- The snapshot whose retired flag this call has still to set. -/
def retiring : Pc γ → Option Nat
  | .storeCleanup s _ => some s
  | .storeRetired s => some s
  | _ => none

/-- The snapshot whose cleanup this call may still run. -/
def watching : Pc γ → Option Nat
  | .loadRetired s => some s
  | .loadRefs s => some s
  | .runCleanup s => some s
  | _ => none

end Pc

section Moved

variable {γ : Type v} {β : Type*} (f : Pc γ → β) {b : β} {pc : Nat → Pc γ} {t t' : Nat} {p : Pc γ}

/-- What a thread shows after a move that led elsewhere, it showed before. -/
theorem stood (hp : f p ≠ b) (h : f (Function.update pc t p t') = b) : f (pc t') = b := by
  rw [Function.update_apply] at h
  split at h
  · exact absurd h hp
  · exact h

/-- What some thread shows, it still shows after a move of a thread that did not. -/
theorem exists_stood (ht : f (pc t) ≠ b) (h : ∃ t', f (pc t') = b) :
    ∃ t', f (Function.update pc t p t') = b := by
  obtain ⟨t', h⟩ := h
  have hne : t' ≠ t := by
    rintro rfl
    exact ht h
  exact ⟨t', by rw [Function.update_of_ne hne]; exact h⟩

end Moved

/-- The registry, its threads, and three observations the properties speak
about: the references held, the cleanup each `Swap` gave for the snapshot it
replaced, and the cleanups that have run. -/
structure RegState (α : Type u) (γ : Type v) where
  reg : ChainRegistry α γ
  held : Nat → Nat
  replaced : Nat → Option (Option γ)
  pc : Nat → Pc γ
  ran : List (Nat × γ)

/-- One atomic step of one thread. `advance` takes the next step of the call
the thread is in. -/
inductive RegEvent (α : Type u) (γ : Type v) where
  | acquire (t : Nat)
  | release (t : Nat) (s : Nat)
  | swap (t : Nat) (next : α) (cleanup : Option γ)
  | advance (t : Nat)

namespace RegState

variable {α : Type u} {γ : Type v}

/-- A registry that was just created and no call in progress. -/
def start (policy : α) : RegState α γ where
  reg := .new policy
  held := fun _ => 0
  replaced := fun _ => none
  pc := fun _ => .idle
  ran := []

def setPc (σ : RegState α γ) (t : Nat) (p : Pc γ) : RegState α γ :=
  { σ with pc := Function.update σ.pc t p }

/-- The whole of `Acquire`: its read-locked section. -/
def acquire (σ : RegState α γ) : RegState α γ :=
  { σ with
    reg := σ.reg.acquire.1
    held := Function.update σ.held σ.reg.current (σ.held σ.reg.current + 1) }

/-- `refs.Add(-1)` of a `Release` that gives back a held reference. -/
def decrement (σ : RegState α γ) (t : Nat) (s : Nat) : RegState α γ :=
  { σ with
    reg := σ.reg.modify s fun x => { x with refs := x.refs - 1 }
    held := Function.update σ.held s (σ.held s - 1)
    pc := Function.update σ.pc t
      (if (σ.reg.heap s).refs - 1 = 0 then .loadRetired s else .idle) }

/-- The write-locked section of `Swap`. -/
def install (σ : RegState α γ) (t : Nat) (next : α) (cleanup : Option γ) :
    RegState α γ :=
  { σ with
    reg := σ.reg.install next
    replaced := Function.update σ.replaced σ.reg.current (some cleanup)
    pc := Function.update σ.pc t (.storeCleanup σ.reg.current cleanup) }

/-- `s.cleanup = cleanup`. -/
def putCleanup (σ : RegState α γ) (t : Nat) (s : Nat) (cleanup : Option γ) :
    RegState α γ :=
  { σ.setPc t (.storeRetired s) with
    reg := σ.reg.modify s fun x => { x with cleanup := cleanup } }

/-- `s.retired.Store(true)`. -/
def putRetired (σ : RegState α γ) (t : Nat) (s : Nat) : RegState α γ :=
  { σ.setPc t (.loadRefs s) with
    reg := σ.reg.modify s fun x => { x with retired := true } }

/-- `cleanOnce.Do`. -/
def clean (σ : RegState α γ) (t : Nat) (s : Nat) : RegState α γ :=
  { σ with
    reg := (σ.reg.runCleanup s).1
    ran := σ.ran ++ (σ.reg.runCleanup s).2.map fun c => (s, c)
    pc := Function.update σ.pc t .idle }

/-- The next step of the call thread `t` is in. -/
def advance (σ : RegState α γ) (t : Nat) : Option (RegState α γ) :=
  match σ.pc t with
  | .idle => none
  | .loadRetired s =>
    some (σ.setPc t (if (σ.reg.heap s).retired then .runCleanup s else .idle))
  | .storeCleanup s cleanup => some (σ.putCleanup t s cleanup)
  | .storeRetired s => some (σ.putRetired t s)
  | .loadRefs s =>
    some (σ.setPc t (if (σ.reg.heap s).refs = 0 then .runCleanup s else .idle))
  | .runCleanup s => some (σ.clean t s)

/-- A thread starts a call only when it is idle, and releases only a reference
that some `Acquire` returned and nobody released. -/
def step (σ : RegState α γ) : RegEvent α γ → Option (RegState α γ)
  | .acquire t =>
    match σ.pc t with
    | .idle => some σ.acquire
    | _ => none
  | .release t s =>
    match σ.pc t with
    | .idle => if 0 < σ.held s then some (σ.decrement t s) else none
    | _ => none
  | .swap t next cleanup =>
    match σ.pc t with
    | .idle => some (σ.install t next cleanup)
    | _ => none
  | .advance t => σ.advance t

/-- The snapshot whose retired flag a step loads, in the `Release` that took its
counter to zero. -/
def loadsRetired (σ : RegState α γ) : RegEvent α γ → Option Nat
  | .advance t =>
    match σ.pc t with
    | .loadRetired s => some s
    | _ => none
  | _ => none

/-! ## What each step leaves at an address -/

theorem acquire_heap (σ : RegState α γ) (s : Nat) :
    σ.acquire.reg.heap s =
      if s = σ.reg.current then { σ.reg.heap s with refs := (σ.reg.heap s).refs + 1 }
      else σ.reg.heap s := by
  simp only [acquire, ChainRegistry.acquire, ChainRegistry.modify_heap]

theorem acquire_held (σ : RegState α γ) (s : Nat) :
    σ.acquire.held s = if s = σ.reg.current then σ.held s + 1 else σ.held s := by
  simp only [acquire, Function.update_apply]
  split <;> simp_all

theorem decrement_heap (σ : RegState α γ) (t : Nat) (s s' : Nat) :
    (σ.decrement t s).reg.heap s' =
      if s' = s then { σ.reg.heap s' with refs := (σ.reg.heap s').refs - 1 }
      else σ.reg.heap s' := by
  simp only [decrement, ChainRegistry.modify_heap]

theorem decrement_held (σ : RegState α γ) (t : Nat) (s s' : Nat) :
    (σ.decrement t s).held s' = if s' = s then σ.held s' - 1 else σ.held s' := by
  simp only [decrement, Function.update_apply]
  split <;> simp_all

theorem install_heap (σ : RegState α γ) (t : Nat) (next : α) (c : Option γ) (s : Nat) :
    (σ.install t next c).reg.heap s =
      if s = σ.reg.fresh then { policy := next } else σ.reg.heap s := by
  simp only [install, ChainRegistry.install, Function.update_apply]

theorem install_replaced (σ : RegState α γ) (t : Nat) (next : α) (c : Option γ)
    (s : Nat) : (σ.install t next c).replaced s =
      if s = σ.reg.current then some c else σ.replaced s := by
  simp only [install, Function.update_apply]

theorem putCleanup_heap (σ : RegState α γ) (t s : Nat) (c : Option γ) (s' : Nat) :
    (σ.putCleanup t s c).reg.heap s' =
      if s' = s then { σ.reg.heap s' with cleanup := c } else σ.reg.heap s' := by
  simp only [putCleanup, ChainRegistry.modify_heap]

theorem putRetired_heap (σ : RegState α γ) (t s s' : Nat) :
    (σ.putRetired t s).reg.heap s' =
      if s' = s then { σ.reg.heap s' with retired := true } else σ.reg.heap s' := by
  simp only [putRetired, ChainRegistry.modify_heap]

theorem clean_heap (σ : RegState α γ) (t s s' : Nat) :
    (σ.clean t s).reg.heap s' =
      if s' = s then { σ.reg.heap s' with cleaned := true } else σ.reg.heap s' := by
  simp only [clean, ChainRegistry.runCleanup]
  split
  · rename_i h
    split
    · subst s'; cases hx : σ.reg.heap s; simp_all
    · rfl
  · rw [ChainRegistry.modify_heap]

theorem clean_ran (σ : RegState α γ) (t s : Nat) :
    (σ.clean t s).ran =
      if (σ.reg.heap s).cleaned then σ.ran
      else σ.ran ++ (σ.reg.heap s).cleanup.toList.map fun c => (s, c) := by
  simp only [clean, ChainRegistry.runCleanup]
  split <;> simp

@[simp] theorem clean_current (σ : RegState α γ) (t s : Nat) :
    (σ.clean t s).reg.current = σ.reg.current := by
  simp only [clean, ChainRegistry.runCleanup]
  split <;> rfl

@[simp] theorem clean_fresh (σ : RegState α γ) (t s : Nat) :
    (σ.clean t s).reg.fresh = σ.reg.fresh := by
  simp only [clean, ChainRegistry.runCleanup]
  split <;> rfl

theorem setPc_pc (σ : RegState α γ) (t t' : Nat) (p : Pc γ) :
    (σ.setPc t p).pc t' = if t' = t then p else σ.pc t' := by
  simp only [setPc, Function.update_apply]

/-! ## What no step changes -/

/-- `σ'` has the snapshots of `σ`, with their policies, and maybe new ones. -/
structure Keeps (σ σ' : RegState α γ) : Prop where
  fresh : σ.reg.fresh ≤ σ'.reg.fresh
  policy : ∀ s < σ.reg.fresh, (σ'.reg.heap s).policy = (σ.reg.heap s).policy
  current : σ.reg.current < σ.reg.fresh → σ'.reg.current < σ'.reg.fresh

/-- A step that installs no snapshot writes lifecycle fields only. -/
theorem Keeps.of_heap {σ σ' : RegState α γ} (hfresh : σ'.reg.fresh = σ.reg.fresh)
    (hcurrent : σ'.reg.current = σ.reg.current)
    (hheap : ∀ s, (σ'.reg.heap s).policy = (σ.reg.heap s).policy) : Keeps σ σ' where
  fresh := Nat.le_of_eq hfresh.symm
  policy s _ := hheap s
  current h := by rw [hcurrent, hfresh]; exact h

theorem Keeps.install (σ : RegState α γ) (t : Nat) (next : α) (c : Option γ) :
    Keeps σ (σ.install t next c) where
  fresh := Nat.le_succ _
  policy s hs := by rw [install_heap, if_neg (Nat.ne_of_lt hs)]
  current _ := Nat.lt_succ_self _

/-- Snapshots are immutable: every step of every thread keeps them. -/
theorem step_keeps {σ σ' : RegState α γ} {e : RegEvent α γ} (h : σ.step e = some σ') :
    Keeps σ σ' := by
  cases e with
  | acquire t =>
    simp only [step] at h
    split at h
    · cases h
      refine .of_heap rfl rfl fun s => ?_
      rw [acquire_heap]
      split <;> rfl
    · cases h
  | release t s =>
    simp only [step] at h
    split at h
    · split at h
      · cases h
        refine .of_heap rfl rfl fun s' => ?_
        rw [decrement_heap]
        split <;> rfl
      · cases h
    · cases h
  | swap t next cleanup =>
    simp only [step] at h
    split at h
    · cases h
      exact .install σ t next cleanup
    · cases h
  | advance t =>
    simp only [step, advance] at h
    split at h
    · cases h
    · cases h
      exact .of_heap rfl rfl fun _ => rfl
    · cases h
      refine .of_heap rfl rfl fun s' => ?_
      rw [putCleanup_heap]
      split <;> rfl
    · cases h
      refine .of_heap rfl rfl fun s' => ?_
      rw [putRetired_heap]
      split <;> rfl
    · cases h
      exact .of_heap rfl rfl fun _ => rfl
    · cases h
      refine .of_heap (clean_fresh ..) (clean_current ..) fun s' => ?_
      rw [clean_heap]
      split <;> rfl

end RegState

/-- The registry and all its concurrent callers. -/
def registrySys (α : Type u) (γ : Type v) : TSys (RegState α γ) (RegEvent α γ) where
  init σ := ∃ policy, σ = .start policy
  step := RegState.step

theorem registrySys_start {α : Type u} (γ : Type v) (policy : α) :
    (registrySys α γ).init (.start policy) :=
  ⟨policy, rfl⟩

end Hypergate.Engine
