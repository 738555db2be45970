import Hypergate.Engine.Executor
import Mathlib.Logic.Relation

/-!
# How far the executor gets

`executeFrom` says what a run of a chain leaves. A property of one filter inside a chain needs
more: the world and the context in which the executor comes to that filter. `LoopState` is the
state of the loop of `Execute`, `LoopStep` one turn of it that goes on to the next filter, and
`Reaches` any number of turns.

* `Reaches.result_eq` — the run ends as the loop does from the state reached; the filters called
  on the way stand at earlier positions.
* `Reaches.keeps` — what every filter on the way keeps holds in the state reached.
* `keeps_or_reaches` — a run comes to a position of its chain, or ends before it with what the
  filters there keep.
-/

namespace Hypergate.Engine

universe u

variable {W : Type u} {phase : Phase}

/-- The loop of `Execute` at position `pos`, with `chain` still to run. -/
structure LoopState (W : Type u) where
  chain : Chain W
  pos : Nat
  world : W
  ctx : RequestContext

/-- What the run leaves from here on. -/
def LoopState.result (phase : Phase) (s : LoopState W) : ExecResult W :=
  executeFrom phase s.chain s.pos s.world s.ctx

/-- One turn of the loop that goes on: the filter is not for this phase, or it is audited, or it
passed the request. -/
inductive LoopStep (phase : Phase) : LoopState W → LoopState W → Prop
  | skip {slot : ChainSlot W} {rest : Chain W} {i : Nat} {w : W} {ctx : RequestContext}
      (hopen : ctx.blocked = false) (hgate : slot.filter.runsIn phase = false) :
      LoopStep phase ⟨slot :: rest, i, w, ctx⟩ ⟨rest, i + 1, w, ctx⟩
  | audited {slot : ChainSlot W} {rest : Chain W} {i : Nat} {w : W} {ctx : RequestContext}
      (hopen : ctx.blocked = false) (hgate : slot.filter.runsIn phase = true)
      (haudited : slot.audited = true) :
      LoopStep phase ⟨slot :: rest, i, w, ctx⟩
        ⟨rest, i + 1, (executeAudited w ctx slot.filter i).1,
          (executeAudited w ctx slot.filter i).2⟩
  | passed {slot : ChainSlot W} {rest : Chain W} {i : Nat} {w w' : W} {ctx ctx' : RequestContext}
      (hopen : ctx.blocked = false) (hgate : slot.filter.runsIn phase = true)
      (henforced : slot.audited = false) (hexecute : slot.filter.execute w ctx = (w', ctx', none))
      (hpass : ctx'.blocked = false) :
      LoopStep phase ⟨slot :: rest, i, w, ctx⟩ ⟨rest, i + 1, w', ctx'⟩

/-- The loop comes from one state to another. -/
abbrev Reaches (phase : Phase) : LoopState W → LoopState W → Prop :=
  Relation.ReflTransGen (LoopStep phase)

/-! ## The result -/

/-- The result of a run in which the filters at `before` were called first. -/
def ExecResult.after (r : ExecResult W) (before : List Nat) : ExecResult W :=
  { r with ran := before ++ r.ran }

variable {s t : LoopState W}

theorem LoopStep.result_eq (h : LoopStep phase s t) :
    ∃ before, (∀ j ∈ before, j < t.pos) ∧ s.result phase = (t.result phase).after before := by
  cases h with
  | skip hopen hgate =>
    refine ⟨[], by simp, ?_⟩
    simp [LoopState.result, executeFrom, ExecResult.after, hopen, hgate]
  | @audited slot rest i w ctx hopen hgate haudited =>
    refine ⟨[i], by simp, ?_⟩
    simp [LoopState.result, executeFrom, ExecResult.after, hopen, hgate, haudited]
  | @passed slot rest i w w' ctx ctx' hopen hgate henforced hexecute hpass =>
    refine ⟨[i], by simp, ?_⟩
    simp [LoopState.result, executeFrom, ExecResult.after, hopen, hgate, henforced, hexecute,
      hpass]

theorem LoopStep.advances (h : LoopStep phase s t) :
    t.pos = s.pos + 1 ∧ s.chain.length = t.chain.length + 1 := by
  cases h <;> exact ⟨rfl, rfl⟩

theorem Reaches.advances (h : Reaches phase s t) :
    s.pos ≤ t.pos ∧ t.chain.length ≤ s.chain.length := by
  induction h with
  | refl => exact ⟨le_refl _, le_refl _⟩
  | tail _ hstep ih =>
    have hone := hstep.advances
    omega

/-- The run ends as the loop does from any state it comes to. -/
theorem Reaches.result_eq (h : Reaches phase s t) :
    ∃ before, (∀ j ∈ before, j < t.pos) ∧ s.result phase = (t.result phase).after before := by
  induction h using Relation.ReflTransGen.head_induction_on with
  | refl => exact ⟨[], by simp, rfl⟩
  | head hstep hrest ih =>
    obtain ⟨first, hfirst, hs⟩ := hstep.result_eq
    obtain ⟨others, hothers, hu⟩ := ih
    refine ⟨first ++ others, ?_, ?_⟩
    · intro j hj
      rcases List.mem_append.mp hj with hj | hj
      · exact lt_of_lt_of_le (hfirst j hj) (Reaches.advances hrest).1
      · exact hothers j hj
    · rw [hs, hu]
      simp [ExecResult.after]

/-! ## Where a run stops -/

variable {ctx : RequestContext}

theorem executeFrom_of_blocked (h : ctx.blocked = true) (chain : Chain W) (i : Nat) (w : W) :
    executeFrom phase chain i w ctx = { world := w, ctx } := by
  cases chain with
  | nil => rfl
  | cons slot rest => simp [executeFrom, h]

/-- An enforced filter that blocks without an error ends the run. -/
theorem executeFrom_of_denied {slot : ChainSlot W} {rest : Chain W} {i : Nat} {w w' : W}
    {ctx ctx' : RequestContext} (hopen : ctx.blocked = false)
    (hgate : slot.filter.runsIn phase = true) (henforced : slot.audited = false)
    (hexecute : slot.filter.execute w ctx = (w', ctx', none)) (hdenied : ctx'.blocked = true) :
    executeFrom phase (slot :: rest) i w ctx
      = { world := w', ctx := { ctx' with blockedBy := i }, ran := [i] } := by
  simp [executeFrom, hopen, hgate, henforced, hexecute, hdenied]

/-! ## What filters keep -/

/-- The filter keeps `P`, and where it is audited, its rolled back call does. -/
structure ChainSlot.Keeps (P : RequestContext → Prop) (slot : ChainSlot W) : Prop where
  execute : ∀ w ctx, P ctx → P (slot.filter.execute w ctx).2.1
  audited : slot.audited = true → ∀ w ctx i, P ctx → P (executeAudited w ctx slot.filter i).2

variable {P : RequestContext → Prop}

theorem LoopStep.keeps (h : LoopStep phase s t) :
    ∃ slot, s.chain = slot :: t.chain ∧ (slot.Keeps P → P s.ctx → P t.ctx) := by
  cases h with
  | @skip slot rest i w ctx hopen hgate => exact ⟨slot, rfl, fun _ hP => hP⟩
  | @audited slot rest i w ctx hopen hgate haudited =>
    exact ⟨slot, rfl, fun hkeeps hP => hkeeps.audited haudited w ctx i hP⟩
  | @passed slot rest i w w' ctx ctx' hopen hgate henforced hexecute hpass =>
    refine ⟨slot, rfl, fun hkeeps hP => ?_⟩
    have hP' := hkeeps.execute w ctx hP
    rw [hexecute] at hP'
    exact hP'

/-- What every filter on the way keeps holds in the state reached. -/
theorem Reaches.keeps (h : Reaches phase s t) (before : Chain W)
    (hchain : s.chain = before ++ t.chain) (hkeeps : ∀ slot ∈ before, slot.Keeps P) (hP : P s.ctx) :
    P t.ctx := by
  induction h using Relation.ReflTransGen.head_induction_on generalizing before with
  | refl => exact hP
  | @head s u hstep hrest ih =>
    obtain ⟨slot, hslot, hone⟩ := hstep.keeps (P := P)
    cases before with
    | nil =>
      -- a turn was taken, so the chain cannot be as long as at the start
      have hone := hstep.advances
      have hmore := Reaches.advances hrest
      rw [List.nil_append] at hchain
      rw [hchain] at hone
      omega
    | cons first before =>
      rw [hslot, List.cons_append, List.cons.injEq] at hchain
      obtain ⟨rfl, hchain⟩ := hchain
      have hfirst := hkeeps slot List.mem_cons_self
      exact ih before hchain (fun s hs => hkeeps s (List.mem_cons_of_mem _ hs))
        (hone hfirst hP)

/-- `P` says nothing about who ended the run. -/
structure EndStable (P : RequestContext → Prop) : Prop where
  failBy : ∀ ctx i, P ctx → P (ctx.failBy i)
  blockedBy : ∀ ctx i, P ctx → P { ctx with blockedBy := i }

/-- A turn goes on, or the run ends with what the filter kept. -/
theorem keeps_or_steps (hend : EndStable P) (phase : Phase) {slot : ChainSlot W} (rest : Chain W)
    (i : Nat) (w : W) (hkeeps : slot.Keeps P) (hP : P ctx) :
    P (executeFrom phase (slot :: rest) i w ctx).ctx
      ∨ ∃ w' ctx', LoopStep phase ⟨slot :: rest, i, w, ctx⟩ ⟨rest, i + 1, w', ctx'⟩ := by
  cases hopen : ctx.blocked with
  | true =>
    left
    rw [executeFrom_of_blocked hopen]
    exact hP
  | false =>
    cases hgate : slot.filter.runsIn phase with
    | false => exact .inr ⟨w, ctx, .skip hopen hgate⟩
    | true =>
      cases haudited : slot.audited with
      | true => exact .inr ⟨_, _, .audited hopen hgate haudited⟩
      | false =>
        have hkept := hkeeps.execute w ctx hP
        rcases hexecute : slot.filter.execute w ctx with ⟨w', ctx', _ | err⟩
        · rw [hexecute] at hkept
          cases hpass : ctx'.blocked with
          | false => exact .inr ⟨w', ctx', .passed hopen hgate haudited hexecute hpass⟩
          | true =>
            left
            rw [executeFrom_of_denied hopen hgate haudited hexecute hpass]
            exact hend.blockedBy ctx' i hkept
        · left
          rw [hexecute] at hkept
          simp only [executeFrom, hopen, hgate, haudited, hexecute]
          exact hend.failBy ctx' i hkept

/-- The run comes to the end of `before`, or ends there with what its filters keep. -/
theorem keeps_or_reaches (hend : EndStable P) (phase : Phase) (before tail : Chain W)
    (hkeeps : ∀ slot ∈ before, slot.Keeps P) (i : Nat) (w : W) (hP : P ctx) :
    P (executeFrom phase (before ++ tail) i w ctx).ctx
      ∨ ∃ s, Reaches phase ⟨before ++ tail, i, w, ctx⟩ s ∧ s.chain = tail ∧ P s.ctx := by
  induction before generalizing i w ctx with
  | nil => exact .inr ⟨_, .refl, rfl, hP⟩
  | cons slot before ih =>
    have hslot := hkeeps slot List.mem_cons_self
    have hrest : ∀ x ∈ before, x.Keeps P := fun x hx => hkeeps x (List.mem_cons_of_mem _ hx)
    rcases keeps_or_steps hend phase (before ++ tail) i w hslot hP with hdone | hsteps
    · exact .inl hdone
    · obtain ⟨w', ctx', hstep⟩ := hsteps
      have hP' : P ctx' := Reaches.keeps (.single hstep) [slot] rfl (by simpa using hslot) hP
      rcases ih hrest (i + 1) w' hP' with hdone | ⟨s, hreach, hchain, hs⟩
      · left
        obtain ⟨ran, -, hresult⟩ := hstep.result_eq
        have hctx := congrArg ExecResult.ctx hresult
        exact (show _ = _ from hctx) ▸ hdone
      · exact .inr ⟨s, hreach.head hstep, hchain, hs⟩

/-- What every filter of a chain keeps, the run keeps. -/
theorem executeFrom_keeps (hend : EndStable P) (phase : Phase) {chain : Chain W}
    (hkeeps : ∀ slot ∈ chain, slot.Keeps P) (i : Nat) (w : W) (hP : P ctx) :
    P (executeFrom phase chain i w ctx).ctx := by
  have hcases := keeps_or_reaches hend phase chain [] hkeeps i w hP
  rw [List.append_nil] at hcases
  rcases hcases with hdone | ⟨s, hreach, hchain, hs⟩
  · exact hdone
  · obtain ⟨before, -, hresult⟩ := hreach.result_eq
    have hlast : s.result phase = { world := s.world, ctx := s.ctx } := by
      unfold LoopState.result
      rw [hchain]
      rfl
    rw [hlast] at hresult
    have hctx := congrArg ExecResult.ctx hresult
    exact (show _ = s.ctx from hctx) ▸ hs

end Hypergate.Engine
