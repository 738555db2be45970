/-!
# Event-labelled transition systems

A system is a set of initial states and a partial, event-labelled step
function: everything the environment decides (which call happens next, which
thread runs, what a dependency answers) is part of the event, so a run is a
list of events and the system itself is deterministic.

`ReachableUnder ok` restricts runs to those whose every step meets the side
condition `ok` *in the state before the step*; `Reachable` is the unrestricted
notion. `Inductive.invariant` packages the induction once: an invariant is an
initial fact plus one preservation lemma. `ReachableUnder.map` is the same for
simulations: what one system reaches, another reaches as well.
-/

namespace Hypergate.Lib

universe u v

/-- A transition system over states `σ` and events `ε`. `step s e = none` means
that `e` cannot happen in `s`. -/
structure TSys (σ : Type u) (ε : Type v) where
  init : σ → Prop
  step : σ → ε → Option σ

namespace TSys

variable {σ : Type u} {ε : Type v}

/-- `M.Steps ok s s'`: a run leads from `s` to `s'` and every step of it met
`ok` in the state before it. -/
inductive Steps (M : TSys σ ε) (ok : σ → ε → Prop) (s : σ) : σ → Prop
  | refl : Steps M ok s s
  | tail {b c : σ} {e : ε} : Steps M ok s b → ok b e → M.step b e = some c →
      Steps M ok s c

/-- Reachable from an initial state by steps that all meet `ok`. -/
def ReachableUnder (M : TSys σ ε) (ok : σ → ε → Prop) (s : σ) : Prop :=
  ∃ s₀, M.init s₀ ∧ M.Steps ok s₀ s

/-- Reachable from an initial state. -/
def Reachable (M : TSys σ ε) (s : σ) : Prop :=
  M.ReachableUnder (fun _ _ => True) s

variable {ok : σ → ε → Prop} {M : TSys σ ε}

theorem ReachableUnder.init {s : σ} (h : M.init s) : M.ReachableUnder ok s :=
  ⟨s, h, .refl⟩

theorem ReachableUnder.step {s s' : σ} {e : ε} (h : M.ReachableUnder ok s) (hok : ok s e)
    (hs : M.step s e = some s') :
    M.ReachableUnder ok s' := by
  obtain ⟨s₀, hi, hr⟩ := h
  exact ⟨s₀, hi, .tail hr hok hs⟩

/-- A simulation: what `M` reaches, `N` reaches as well, seen through `f` and `g`. -/
theorem ReachableUnder.map {τ : Type u} {δ : Type v} {N : TSys τ δ} {s : σ} {ok' : τ → δ → Prop}
    (f : σ → τ) (g : ε → δ) (hinit : ∀ s, M.init s → N.init (f s))
    (hstep : ∀ s e s', ok s e → M.step s e = some s' →
      ok' (f s) (g e) ∧ N.step (f s) (g e) = some (f s'))
    (h : M.ReachableUnder ok s) : N.ReachableUnder ok' (f s) := by
  obtain ⟨s₀, hi, hr⟩ := h
  refine ⟨f s₀, hinit s₀ hi, ?_⟩
  induction hr with
  | refl => exact .refl
  | tail _ hok hs ih =>
    obtain ⟨hok', hs'⟩ := hstep _ _ _ hok hs
    exact .tail ih hok' hs'

/-- `I` holds initially and every step that meets `ok` preserves it. -/
structure Inductive (M : TSys σ ε) (ok : σ → ε → Prop) (I : σ → Prop) : Prop where
  init : ∀ s, M.init s → I s
  step : ∀ s e s', I s → ok s e → M.step s e = some s' → I s'

/-- An inductive property holds in every state reached under `ok`. -/
theorem Inductive.invariant {I : σ → Prop} (h : M.Inductive ok I) {s : σ}
    (hr : M.ReachableUnder ok s) : I s := by
  obtain ⟨s₀, hi, hr⟩ := hr
  induction hr with
  | refl => exact h.init s₀ hi
  | tail _ hok hs ih => exact h.step _ _ _ ih hok hs

/-- The state after a list of events, `none` as soon as one cannot happen or
does not meet `ok`. -/
def run (M : TSys σ ε) (ok : σ → ε → Prop) [∀ s e, Decidable (ok s e)] :
    σ → List ε → Option σ
  | s, [] => some s
  | s, e :: es => if ok s e then (M.step s e).bind fun s' => M.run ok s' es else none

theorem Steps.of_run [∀ s e, Decidable (ok s e)] {s₀ s s' : σ} (h : M.Steps ok s₀ s) (es : List ε)
    (hrun : M.run ok s es = some s') :
    M.Steps ok s₀ s' := by
  induction es generalizing s with
  | nil =>
    have : s = s' := by simpa [run] using hrun
    exact this ▸ h
  | cons e es ih =>
    unfold run at hrun
    split at hrun
    · obtain ⟨s₁, h1, h2⟩ := Option.bind_eq_some_iff.mp hrun
      exact ih (.tail h ‹_› h1) h2
    · cases hrun

/-- A concrete event list that runs from an initial state reaches its last
state. -/
theorem ReachableUnder.of_run [∀ s e, Decidable (ok s e)] {s₀ : σ} (hi : M.init s₀) (es : List ε)
    (hrun : (M.run ok s₀ es).isSome) :
    M.ReachableUnder ok ((M.run ok s₀ es).get hrun) :=
  ⟨s₀, hi, .of_run .refl es (Option.some_get hrun).symm⟩

end TSys

end Hypergate.Lib
