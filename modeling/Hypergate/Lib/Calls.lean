/-!
# Programs that call a server

A program makes calls to a server and goes on according to the answers; between
its calls other programs may run. The server is an `Api`: what a call does to its
state, and what it answers. Calls can fail, so the environment decides the `Fate`
of each one: it is served, it is refused, or it is served and the answer is lost.

* `Prog.step` — one call, for programs that run side by side.
* `Prog.run` — a program alone, with the calls it makes and the states it makes
  them in.
* `Prog.Holds` — every call is made in a state that allows it, and the program
  ends as it should, whatever happens to its calls. It is a precondition, given by
  recursion on the program; `Holds.run` and `Holds.invariant` are the rules.
* `Prog.forEach` — a loop over a list, any round of which may end the program, with
  the loop rule `Holds.forEach`.
-/

namespace Hypergate.Lib

universe u v w x

/-- A program over the calls `C`, whose answers have the types `A`. -/
inductive Prog (C : Type u) (A : C → Type v) (R : Type w) where
  | done (r : R)
  | call (c : C) (next : A c → Prog C A R)

/-- A server with the state `S`, and the answers `failed` that report that a call
did not go well. -/
structure Api (S : Type x) (C : Type u) (A : C → Type v) where
  serve : S → (c : C) → S × A c
  failed : String → (c : C) → A c

/-- What happens to a call. -/
inductive Fate where
  | served
  | refused (why : String)
  | lost (why : String)

namespace Api

variable {S : Type x} {C : Type u} {A : C → Type v} (api : Api S C A)

def effect (fate : Fate) (s : S) (c : C) : S :=
  match fate with
  | .refused _ => s
  | _ => (api.serve s c).1

def answer (fate : Fate) (s : S) (c : C) : A c :=
  match fate with
  | .served => (api.serve s c).2
  | .refused why => api.failed why c
  | .lost why => api.failed why c

/-- A call that fails has been refused, or its answer was lost. -/
theorem answer_cases (fate : Fate) (s : S) (c : C) :
    api.effect fate s c = (api.serve s c).1 ∧ api.answer fate s c = (api.serve s c).2
      ∨ (api.effect fate s c = s ∨ api.effect fate s c = (api.serve s c).1)
        ∧ ∃ why, api.answer fate s c = api.failed why c := by
  cases fate with
  | served => exact .inl ⟨rfl, rfl⟩
  | refused why => exact .inr ⟨.inl rfl, why, rfl⟩
  | lost why => exact .inr ⟨.inr rfl, why, rfl⟩

end Api

namespace Prog

variable {S : Type x} {C : Type u} {A : C → Type v} {R : Type w} (api : Api S C A)

/-- One call. -/
def step (fate : Fate) (s : S) : Prog C A R → Option (S × Prog C A R)
  | .done _ => none
  | .call c next => some (api.effect fate s c, next (api.answer fate s c))

/-- What a run leaves, and the calls it made, each with the state before it. -/
structure Outcome (S : Type x) (C : Type u) (R : Type w) where
  state : S
  result : R
  trace : List (S × C) := []

/-- The program alone, from its `n`-th call on. -/
def run (fates : Nat → Fate) : Prog C A R → Nat → S → Outcome S C R
  | .done r, _, s => { state := s, result := r }
  | .call c next, n, s =>
    let o := (next (api.answer (fates n) s c)).run fates (n + 1) (api.effect (fates n) s c)
    { o with trace := (s, c) :: o.trace }

/-- Whatever happens to the calls: every call is made where `allowed` permits it,
and the program ends in a state and with a result in `post`. -/
def Holds (allowed : S → C → Prop) (post : S → R → Prop) : Prog C A R → S → Prop
  | .done r, s => post s r
  | .call c next, s =>
    allowed s c ∧ ∀ fate, (next (api.answer fate s c)).Holds allowed post (api.effect fate s c)

/-- Goes through a list; what a round does when the loop goes on is its argument. -/
def forEach {α : Type x} (round : α → Prog C A R → Prog C A R) (l : List α)
    (after : Prog C A R) : Prog C A R := l.foldr round after

variable {api} {allowed : S → C → Prop} {post : S → R → Prop}

/-- A call is served, or fails before or after it took effect. -/
theorem Holds.of_call {c : C} {next : A c → Prog C A R} {s t : S} {a : A c}
    (hallowed : allowed s c) (hserve : api.serve s c = (t, a))
    (hserved : (next a).Holds api allowed post t)
    (hfailed : ∀ why s', s' = s ∨ s' = t →
      (next (api.failed why c)).Holds api allowed post s') :
    (Prog.call c next).Holds api allowed post s := by
  refine ⟨hallowed, fun fate => ?_⟩
  have hcases := api.answer_cases fate s c
  rw [hserve] at hcases
  rcases hcases with ⟨heffect, hanswer⟩ | ⟨heffect, why, hanswer⟩
  · rw [heffect, hanswer]
    exact hserved
  · rw [hanswer]
    exact hfailed why _ heffect

/-- The loop rule: `I done` holds when the elements `done` have had their round. -/
theorem Holds.forEach {α : Type x} {round : α → Prog C A R → Prog C A R} {l : List α}
    {after : Prog C A R} (I : List α → S → Prop)
    (hround : ∀ done a next s, a ∈ l → I done s →
      (∀ s', I (done ++ [a]) s' → next.Holds api allowed post s') →
      (round a next).Holds api allowed post s)
    (hafter : ∀ s, I l s → after.Holds api allowed post s) {s : S} (hs : I [] s) :
    (Prog.forEach round l after).Holds api allowed post s := by
  suffices h : ∀ todo done s, done ++ todo = l → I done s →
      (Prog.forEach round todo after).Holds api allowed post s from h l [] s rfl hs
  intro todo
  induction todo with
  | nil =>
    intro done s hl hI
    rw [List.append_nil] at hl
    exact hafter s (hl ▸ hI)
  | cons a todo ih =>
    intro done s hl hI
    refine hround done a _ s (by simp [← hl]) hI fun s' hI' => ih (done ++ [a]) s' ?_ hI'
    rw [List.append_assoc]
    exact hl

theorem Holds.run {p : Prog C A R} {s : S} (h : p.Holds api allowed post s)
    (fates : Nat → Fate) (n : Nat) :
    post (p.run api fates n s).state (p.run api fates n s).result
      ∧ ∀ e ∈ (p.run api fates n s).trace, allowed e.1 e.2 := by
  induction p generalizing s n with
  | done r => exact ⟨h, fun e he => absurd he (by simp [Prog.run])⟩
  | call c next ih =>
    obtain ⟨hpost, htrace⟩ := ih _ (h.2 (fates n)) (n + 1)
    refine ⟨hpost, fun e he => ?_⟩
    rcases List.mem_cons.mp he with rfl | he
    · exact h.1
    · exact htrace e he

/-- What every allowed call preserves holds wherever a call is made, and at the
end. -/
theorem Holds.invariant {p : Prog C A R} {s : S} (h : p.Holds api allowed post s)
    {I : S → Prop} (hstep : ∀ s c fate, allowed s c → I s → I (api.effect fate s c)) (hs : I s)
    (fates : Nat → Fate) (n : Nat) :
    I (p.run api fates n s).state ∧ ∀ e ∈ (p.run api fates n s).trace, I e.1 := by
  induction p generalizing s n with
  | done r => exact ⟨hs, fun e he => absurd he (by simp [Prog.run])⟩
  | call c next ih =>
    obtain ⟨hend, htrace⟩ := ih _ (h.2 (fates n)) (hstep s c (fates n) h.1 hs) (n + 1)
    refine ⟨hend, fun e he => ?_⟩
    rcases List.mem_cons.mp he with rfl | he
    · exact hs
    · exact htrace e he

end Prog

end Hypergate.Lib
