import Hypergate.Grpc.Handlers
import Hypergate.Lib.Counters
import Hypergate.Lib.TSys

/-!
# Concurrent runs under the chain limit (`Server.run`, `chainLimiter`)

`Grpc.Handlers` runs `acquire` and `release` each in one piece. Here any number
of `Server.run` calls proceed side by side, one atomic operation at a time:

* `counter` is a `Load`, and after a miss a `LoadOrStore`;
* `acquire` looks the counter up, adds one and tests; a refused run adds minus
  one in a step of its own;
* the filters end in any way, leaving any context (a panic included: `release`
  is deferred);
* `release` looks the counter up again and adds minus one.

The policy is an argument of the call, so limits may differ from call to call.

Results: `limiter_inductive` (a counter is the number of runs that hold it) and
`chain_limit_exact` for all runs.
-/

namespace Hypergate.Grpc

open Lib Engine Policy

universe u

variable {W : Type u}

/-! ## One run -/

/-- The arguments of `run`. -/
structure RunCall (W : Type u) where
  policy : Option (EnginePolicy W)
  st : StreamState W
  ctx : RequestContext
  phase : Phase

namespace RunCall

def limits (c : RunCall W) : ChainSettings := limitsOf c.policy c.st.name

/-- A blocked request, or one without filters: nothing is run. -/
def skips (c : RunCall W) : Bool := c.ctx.blocked || c.st.chain.isEmpty

/-- The run goes through the limiter. -/
def counts (c : RunCall W) : Bool := !c.skips && decide (0 < c.limits.maxConcurrency)

/-- The context of a run that was refused. -/
def refused (c : RunCall W) : RequestContext :=
  match c.limits.onOverload with
  | .allow => c.ctx
  | .deny => unavailable (c.ctx.setHeaderDownstream "retry-after" "1")

end RunCall

/-- The limiter method that is looking up the counter. -/
inductive LimiterCall
  | acquire
  | release

/-- What a run does next. -/
inductive RunPc
  | load (m : LimiterCall)
  | loadOrStore (m : LimiterCall)
  /-- The counter is at hand: `Add(1)` and the test, or `Add(-1)`. -/
  | add (m : LimiterCall) (counter : Nat)
  /-- Over the limit: the `Add(-1)` of `acquire`. -/
  | undo (counter : Nat)
  | filters
  | returned

/-- A run in progress. `admitted` and `adds` are its record: whether `acquire`
returned true, and what it added to which counter. -/
structure ChainRun (W : Type u) where
  call : RunCall W
  ctx : RequestContext
  pc : RunPc
  admitted : Bool := false
  adds : List (Nat × Int) := []

namespace ChainRun

/-- The chain whose counter the run uses. -/
def chain (r : ChainRun W) : String := r.call.st.name

/-- `run` up to its first operation on shared state. -/
def start (c : RunCall W) : ChainRun W :=
  { call := c
    ctx := c.ctx
    pc := if c.skips then .returned else if c.counts then .load .acquire else .filters }

/-- The next atomic step of a run; `left` is the context the filters leave. -/
def step (r : ChainRun W) (m : Counters String) (left : RequestContext) :
    Option (Counters String × ChainRun W) :=
  match r.pc with
  | .load use =>
    match m.load r.chain with
    | some c => some (m, { r with pc := .add use c })
    | none => some (m, { r with pc := .loadOrStore use })
  | .loadOrStore use =>
    let (m, c) := m.loadOrStore r.chain
    some (m, { r with pc := .add use c })
  | .add .acquire c =>
    let m := m.add c 1
    let r := { r with adds := r.adds ++ [(c, 1)] }
    if r.call.limits.maxConcurrency < m.cells c then some (m, { r with pc := .undo c })
    else some (m, { r with pc := .filters, admitted := true })
  | .undo c =>
    some (m.add c (-1),
      { r with pc := .returned, ctx := r.call.refused, adds := r.adds ++ [(c, -1)] })
  | .filters =>
    some (m, { r with ctx := left, pc := if r.call.counts then .load .release else .returned })
  | .add .release c =>
    some (m.add c (-1), { r with pc := .returned, adds := r.adds ++ [(c, -1)] })
  | .returned => none

/-- The run has added to its chain's counter and not taken it back. -/
def holds (r : ChainRun W) : Bool :=
  match r.pc with
  | .undo _ | .load .release | .loadOrStore .release | .add .release _ => true
  | .filters => r.call.counts
  | _ => false

/-- The steps a run still takes at most. -/
def remaining (r : ChainRun W) : Nat :=
  match r.pc with
  | .load .acquire => 7
  | .loadOrStore .acquire => 6
  | .add .acquire _ => 5
  | .filters => 4
  | .load .release => 3
  | .loadOrStore .release => 2
  | .add .release _ | .undo _ => 1
  | .returned => 0

end ChainRun

/-! ## All runs -/

/-- The limiter and every run so far. -/
structure LimiterState (W : Type u) where
  counters : Counters String := {}
  runs : List (ChainRun W) := []

/-- A call of `run` begins, or a run takes its next step. -/
inductive LimiterEvent (W : Type u)
  | call (c : RunCall W)
  | step (run : Nat) (left : RequestContext)

/-- The limiter of a server: no counter and no run at first. -/
def limiterSys (W : Type u) : TSys (LimiterState W) (LimiterEvent W) where
  init s := s = {}
  step s e :=
    match e with
    | .call c => some { s with runs := s.runs ++ [.start c] }
    | .step i left =>
      (s.runs[i]?).bind fun r =>
        (r.step s.counters left).map fun next =>
          { counters := next.1, runs := s.runs.set i next.2 }

/-- The runs that hold the counter of a chain. -/
def LimiterState.holders (s : LimiterState W) (chain : String) : Nat :=
  s.runs.countP fun r => decide (r.chain = chain) && r.holds

/-! ## One step of one run -/

namespace ChainRun

/-- `holds` as a number. -/
def held (r : ChainRun W) : Int := if r.holds then 1 else 0

/-- The run has one on its chain's counter `c`, from its own `Add(1)`. -/
def Took (r : ChainRun W) (m : Counters String) (c : Nat) : Prop :=
  m.load r.chain = some c ∧ r.adds = [(c, 1)]

/-- The run added one to its chain's counter once and took it back once. -/
def GaveBack (r : ChainRun W) (m : Counters String) : Prop :=
  ∃ c, m.load r.chain = some c ∧ r.adds = [(c, 1), (c, -1)]

/-- What the record of a run says at each of its steps. -/
def Record (r : ChainRun W) (m : Counters String) : Prop :=
  match r.pc with
  | .load .acquire | .loadOrStore .acquire =>
    r.call.counts = true ∧ r.admitted = false ∧ r.adds = []
  | .add .acquire c =>
    r.call.counts = true ∧ r.admitted = false ∧ r.adds = [] ∧ m.load r.chain = some c
  | .undo c => r.call.counts = true ∧ r.admitted = false ∧ r.Took m c
  | .filters =>
    if r.call.counts then r.admitted = true ∧ ∃ c, r.Took m c
    else r.admitted = false ∧ r.adds = []
  | .load .release | .loadOrStore .release =>
    r.call.counts = true ∧ r.admitted = true ∧ ∃ c, r.Took m c
  | .add .release c => r.call.counts = true ∧ r.admitted = true ∧ r.Took m c
  | .returned => if r.call.counts then r.GaveBack m else r.admitted = false ∧ r.adds = []

/-- What a step of a run does to the counters and to the run. -/
structure Moves (m m' : Counters String) (r r' : ChainRun W) : Prop where
  call : r'.call = r.call
  record : r'.Record m'
  keeps : ∀ k c, m.load k = some c → m'.load k = some c
  count : ∀ k, m'.count k = m.count k + if k = r.chain then r'.held - r.held else 0
  admits : r.admitted = false → r'.admitted = true →
    r'.pc = .filters ∧ m'.count r.chain ≤ r.call.limits.maxConcurrency
  less : r'.remaining < r.remaining

/-- A record survives a step of another run, which moves no counter. -/
theorem Record.mono {m m' : Counters String} {r : ChainRun W}
    (hkeep : ∀ k c, m.load k = some c → m'.load k = some c) (h : r.Record m) : r.Record m' := by
  have htook : ∀ c, r.Took m c → r.Took m' c := fun c ht => ⟨hkeep _ _ ht.1, ht.2⟩
  obtain ⟨call, ctx, pc, admitted, adds⟩ := r
  cases pc with
  | load use =>
    cases use with
    | acquire => exact h
    | release => exact ⟨h.1, h.2.1, h.2.2.imp htook⟩
  | loadOrStore use =>
    cases use with
    | acquire => exact h
    | release => exact ⟨h.1, h.2.1, h.2.2.imp htook⟩
  | add use c =>
    cases use with
    | acquire => exact ⟨h.1, h.2.1, h.2.2.1, hkeep _ _ h.2.2.2⟩
    | release => exact ⟨h.1, h.2.1, htook c h.2.2⟩
  | undo c => exact ⟨h.1, h.2.1, htook c h.2.2⟩
  | filters =>
    by_cases hc : call.counts = true
    · simp only [Record, if_pos hc] at h ⊢
      exact ⟨h.1, h.2.imp htook⟩
    · simp only [Record, if_neg hc] at h ⊢
      exact h
  | returned =>
    by_cases hc : call.counts = true
    · simp only [Record, if_pos hc] at h ⊢
      exact h.imp fun c hg => ⟨hkeep _ _ hg.1, hg.2⟩
    · simp only [Record, if_neg hc] at h ⊢
      exact h

section Step

variable {m m' : Counters String} {r r' : ChainRun W} {left : RequestContext}

/-- A step that changes no count, by a run that holds as much as before. -/
theorem Moves.of_lookup (hcall : r'.call = r.call) (hrec : r'.Record m')
    (hkeep : ∀ k c, m.load k = some c → m'.load k = some c)
    (hcount : ∀ k, m'.count k = m.count k) (hheld : r'.held = r.held)
    (hadm : r'.admitted = r.admitted) (hless : r'.remaining < r.remaining) : Moves m m' r r' where
  call := hcall
  record := hrec
  keeps := hkeep
  count k := by
    rw [hcount, hheld, Int.sub_self]
    split <;> omega
  admits hno hyes := absurd (hno.symm.trans (hadm.symm.trans hyes)) (by simp)
  less := hless

/-- The `Add(-1)` of a run that holds the counter; it returns with context `out`. -/
theorem Moves.of_giveBack {c : Nat} (hcounts : r.call.counts = true) (htook : r.Took m c)
    (hholds : r.holds = true) (hrem : 0 < r.remaining) (out : RequestContext) :
    Moves m (m.add c (-1)) r
      { r with pc := .returned, ctx := out, adds := r.adds ++ [(c, -1)] } where
  call := rfl
  record := by
    simp only [Record, if_pos hcounts]
    refine ⟨c, htook.1, ?_⟩
    rw [htook.2]
    rfl
  keeps _ _ hk := hk
  count k := by
    have hheld : r.held = 1 := if_pos hholds
    rw [hheld]
    exact Counters.count_add htook.1 (-1) k
  admits hno hyes := absurd (hno.symm.trans hyes) (by simp)
  less := hrem

theorem moves_load {use : LimiterCall} (hpc : r.pc = .load use) (hr : r.Record m)
    (h : r.step m left = some (m', r')) : Moves m m' r r' := by
  obtain ⟨call, ctx, pc, admitted, adds⟩ := r
  cases hpc
  simp only [step] at h
  cases hl : m.load call.st.name with
  | some c =>
    simp only [chain, hl] at h
    cases h
    cases use with
    | acquire =>
      exact .of_lookup rfl ⟨hr.1, hr.2.1, hr.2.2, hl⟩ (fun _ _ hk => hk) (fun _ => rfl) rfl rfl
        (by simp [remaining])
    | release =>
      obtain ⟨hcounts, hadm, c', htook⟩ := hr
      have hc : c' = c := Option.some.inj (htook.1.symm.trans hl)
      subst hc
      exact .of_lookup rfl ⟨hcounts, hadm, htook⟩ (fun _ _ hk => hk) (fun _ => rfl) rfl rfl
        (by simp [remaining])
  | none =>
    simp only [chain, hl] at h
    cases h
    cases use with
    | acquire =>
      exact .of_lookup rfl hr (fun _ _ hk => hk) (fun _ => rfl) rfl rfl (by simp [remaining])
    | release =>
      exact .of_lookup rfl hr (fun _ _ hk => hk) (fun _ => rfl) rfl rfl (by simp [remaining])

theorem moves_loadOrStore {use : LimiterCall} (hpc : r.pc = .loadOrStore use) (hr : r.Record m)
    (h : r.step m left = some (m', r')) : Moves m m' r r' := by
  obtain ⟨call, ctx, pc, admitted, adds⟩ := r
  cases hpc
  obtain ⟨hcell, hkeep, hcount⟩ := m.loadOrStore_spec call.st.name
  simp only [step, chain] at h
  cases h
  cases use with
  | acquire =>
    exact .of_lookup rfl ⟨hr.1, hr.2.1, hr.2.2, hcell⟩ hkeep hcount rfl rfl
      (by simp [remaining])
  | release =>
    obtain ⟨hcounts, hadm, c, htook⟩ := hr
    -- the counter the run added to is still the chain's
    have hc : c = (m.loadOrStore call.st.name).2 :=
      Option.some.inj ((hkeep _ _ htook.1).symm.trans hcell)
    refine .of_lookup rfl ⟨hcounts, hadm, hcell, ?_⟩ hkeep hcount rfl rfl (by simp [remaining])
    rw [← hc]
    exact htook.2

theorem moves_acquire {c : Nat} (hpc : r.pc = .add .acquire c) (hr : r.Record m)
    (h : r.step m left = some (m', r')) : Moves m m' r r' := by
  obtain ⟨call, ctx, pc, admitted, adds⟩ := r
  cases hpc
  obtain ⟨hcounts, hadm, hadds, hload⟩ := hr
  have hcounts : call.counts = true := hcounts
  have hload : m.load call.st.name = some c := hload
  have htook : adds ++ [(c, (1 : Int))] = [(c, 1)] := by
    rw [show adds = [] from hadds, List.nil_append]
  simp only [step] at h
  by_cases hover : call.limits.maxConcurrency < (m.add c 1).cells c
  · rw [if_pos hover] at h
    cases h
    exact
      { call := rfl
        record := ⟨hcounts, hadm, hload, htook⟩
        keeps := fun _ _ hk => hk
        count := Counters.count_add hload 1
        admits := fun hno hyes => absurd (hno.symm.trans hyes) (by simp)
        less := by simp [remaining] }
  · rw [if_neg hover] at h
    cases h
    refine
      { call := rfl
        record := ?_
        keeps := fun _ _ hk => hk
        count := ?_
        admits := ?_
        less := by simp [remaining] }
    · show if call.counts = true then _ else _
      rw [if_pos hcounts]
      exact ⟨rfl, c, hload, htook⟩
    · intro k
      have hheld : held { call, ctx, pc := .filters, admitted := true, adds := adds ++ [(c, 1)] }
          = 1 := by
        simp [held, holds, hcounts]
      rw [hheld]
      exact Counters.count_add hload 1 k
    · -- the sum that passed the test is the count after the step
      intro _ _
      refine ⟨rfl, ?_⟩
      show (m.add c 1).count call.st.name ≤ call.limits.maxConcurrency
      rw [Counters.count_of_load ((Counters.load_add ..).trans hload)]
      omega

theorem moves_filters (hpc : r.pc = .filters) (hr : r.Record m)
    (h : r.step m left = some (m', r')) : Moves m m' r r' := by
  obtain ⟨call, ctx, pc, admitted, adds⟩ := r
  cases hpc
  simp only [step] at h
  cases h
  -- a run under the limit goes on to `release`, the others are done
  by_cases hcounts : call.counts = true
  · simp only [Record, if_pos hcounts] at hr
    rw [if_pos hcounts]
    exact .of_lookup rfl ⟨hcounts, hr⟩ (fun _ _ hk => hk) (fun _ => rfl)
      (by simp [held, holds, hcounts]) rfl (by simp [remaining])
  · simp only [Record, if_neg hcounts] at hr
    rw [if_neg hcounts]
    refine .of_lookup rfl ?_ (fun _ _ hk => hk) (fun _ => rfl)
      (by simp [held, holds, hcounts]) rfl (by simp [remaining])
    simp only [Record, if_neg hcounts]
    exact hr

theorem step_moves (hr : r.Record m) (h : r.step m left = some (m', r')) : Moves m m' r r' := by
  cases hpc : r.pc with
  | load use => exact moves_load hpc hr h
  | loadOrStore use => exact moves_loadOrStore hpc hr h
  | filters => exact moves_filters hpc hr h
  | add use c =>
    cases use with
    | acquire => exact moves_acquire hpc hr h
    | release =>
      simp only [step, hpc] at h
      simp only [Record, hpc] at hr
      cases h
      exact .of_giveBack hr.1 hr.2.2 (by simp [holds, hpc]) (by simp [remaining, hpc]) r.ctx
  | undo c =>
    simp only [step, hpc] at h
    simp only [Record, hpc] at hr
    cases h
    exact .of_giveBack hr.1 hr.2.2 (by simp [holds, hpc]) (by simp [remaining, hpc])
      r.call.refused
  | returned =>
    simp only [step, hpc] at h
    cases h

theorem step_isSome (m : Counters String) (left : RequestContext) (h : r.pc ≠ .returned) :
    (r.step m left).isSome := by
  cases hpc : r.pc with
  | load use =>
    simp only [step, hpc]
    cases m.load r.chain <;> rfl
  | add use c =>
    cases use with
    | acquire =>
      simp only [step, hpc]
      split <;> rfl
    | release => simp [step, hpc]
  | loadOrStore use => simp [step, hpc]
  | undo c => simp [step, hpc]
  | filters => simp [step, hpc]
  | returned => exact absurd hpc h

end Step

theorem start_record (c : RunCall W) (m : Counters String) : (start c).Record m := by
  unfold start Record
  by_cases hskip : c.skips = true
  · have hcounts : c.counts = false := by simp [RunCall.counts, hskip]
    simp [hskip, hcounts]
  · by_cases hcounts : c.counts = true
    · simp [hskip, hcounts]
    · simp [hskip, hcounts]

theorem start_holds (c : RunCall W) : (start c).holds = false := by
  unfold start holds
  by_cases hskip : c.skips = true
  · simp [hskip]
  · by_cases hcounts : c.counts = true
    · simp [hskip, hcounts]
    · simp [hskip, hcounts]

end ChainRun

/-! ## Every interleaving -/

/-- Replacing one element changes a number of occurrences by what the new
element counts for more than the old. -/
theorem countP_set_of_getElem? {α : Type u} {p : α → Bool} {l : List α} {i : Nat} {a b : α}
    (h : l[i]? = some a) :
    ((l.set i b).countP p : Int)
      = l.countP p + ((if p b then 1 else 0) - if p a then 1 else 0) := by
  induction l generalizing i with
  | nil => cases h
  | cons x l ih =>
    cases i with
    | zero =>
      have hx : x = a := by simpa using h
      subst hx
      rw [List.set_cons_zero, List.countP_cons, List.countP_cons]
      cases p b <;> cases p x <;> simp
    | succ i =>
      rw [List.set_cons_succ, List.countP_cons, List.countP_cons]
      have := ih (i := i) (by simpa using h)
      push_cast
      omega

/-- What holds between the counters and the runs. -/
structure LimiterState.Inv (s : LimiterState W) : Prop where
  record : ∀ r ∈ s.runs, r.Record s.counters
  count : ∀ chain, s.counters.count chain = s.holders chain

variable {s : LimiterState W}

theorem holders_set {i : Nat} {r r' : ChainRun W} (hi : s.runs[i]? = some r)
    (hcall : r'.call = r.call) (m : Counters String) (chain : String) :
    (({ counters := m, runs := s.runs.set i r' } : LimiterState W).holders chain : Int)
      = s.holders chain + if chain = r.chain then r'.held - r.held else 0 := by
  have hchain : r'.chain = r.chain := by
    unfold ChainRun.chain
    rw [hcall]
  unfold LimiterState.holders
  rw [countP_set_of_getElem? hi, hchain]
  by_cases hc : chain = r.chain
  · simp [hc, ChainRun.held]
  · simp [hc, Ne.symm hc]

theorem LimiterState.Inv.call (h : s.Inv) (c : RunCall W) :
    LimiterState.Inv { s with runs := s.runs ++ [.start c] } := by
  constructor
  · intro r hmem
    rcases List.mem_append.mp hmem with hmem | hmem
    · exact h.record r hmem
    · rw [List.mem_singleton.mp hmem]
      exact ChainRun.start_record c s.counters
  · intro chain
    rw [h.count chain]
    simp [LimiterState.holders, ChainRun.start_holds]

theorem LimiterState.Inv.step (h : s.Inv) {i : Nat} {r r' : ChainRun W} {m : Counters String}
    (hi : s.runs[i]? = some r) (hm : ChainRun.Moves s.counters m r r') :
    LimiterState.Inv { counters := m, runs := s.runs.set i r' } := by
  constructor
  · intro q hmem
    rcases List.mem_or_eq_of_mem_set hmem with hmem | rfl
    · exact (h.record q hmem).mono hm.keeps
    · exact hm.record
  · intro chain
    rw [holders_set hi hm.call, hm.count, h.count]

theorem limiterSys_step_cases {s s' : LimiterState W} {e : LimiterEvent W}
    (h : (limiterSys W).step s e = some s') :
    (∃ c, e = .call c ∧ s' = { s with runs := s.runs ++ [.start c] })
      ∨ ∃ i left r m r', e = .step i left ∧ s.runs[i]? = some r
          ∧ r.step s.counters left = some (m, r')
          ∧ s' = { counters := m, runs := s.runs.set i r' } := by
  cases e with
  | call c =>
    refine .inl ⟨c, rfl, ?_⟩
    exact (Option.some.inj h).symm
  | step i left =>
    obtain ⟨r, hi, hrest⟩ := Option.bind_eq_some_iff.mp h
    obtain ⟨⟨m, r'⟩, hstep, hs⟩ := Option.map_eq_some_iff.mp hrest
    exact .inr ⟨i, left, r, m, r', rfl, hi, hstep, hs.symm⟩

/-- A counter is the number of runs that hold it, in every interleaving. -/
theorem limiter_inductive : (limiterSys W).Inductive (fun _ _ => True) LimiterState.Inv where
  init s hs := by
    have hempty : s = {} := hs
    subst hempty
    exact ⟨fun r hr => absurd hr (by simp), fun chain => rfl⟩
  step s e s' hinv _ hstep := by
    rcases limiterSys_step_cases hstep with ⟨c, -, rfl⟩ | ⟨i, left, r, m, r', -, hi, hr, rfl⟩
    · exact hinv.call c
    · exact hinv.step hi (ChainRun.step_moves (hinv.record r (List.mem_of_getElem? hi)) hr)

/-- What the limiter guarantees in a state, given what can happen next. -/
structure LimiterState.Exact (s : LimiterState W) : Prop where
  /-- When a run is admitted, the runs that hold the counter, itself included,
  are at most its limit. -/
  admission : ∀ i left s' r r', (limiterSys W).step s (.step i left) = some s' →
    s.runs[i]? = some r → s'.runs[i]? = some r' → r.admitted = false → r'.admitted = true →
    0 < r.call.limits.maxConcurrency ∧ r'.holds = true
      ∧ (s'.holders r.chain : Int) ≤ r.call.limits.maxConcurrency
  /-- Under a limit, the filters run only for an admitted run. -/
  filters : ∀ r ∈ s.runs, r.call.counts = true → r.pc = .filters → r.admitted = true
  /-- An admitted run keeps its one place until it returns. -/
  keeps : ∀ r ∈ s.runs, r.admitted = true → r.pc ≠ .returned →
    r.holds = true ∧ ∃ c, r.Took s.counters c
  /-- A run that returned, admitted or refused, took its chain's counter once,
  gave it back once and holds nothing. -/
  gaveBack : ∀ r ∈ s.runs, r.call.counts = true → r.pc = .returned →
    r.GaveBack s.counters ∧ r.holds = false
  /-- No run is ever stuck, and each of its steps brings it closer to returning. -/
  returns : ∀ r ∈ s.runs, r.pc ≠ .returned → ∀ left, ∃ m r',
    r.step s.counters left = some (m, r') ∧ r'.remaining < r.remaining
  nonneg : ∀ chain, 0 ≤ s.counters.count chain
  idle : ∀ chain, (∀ r ∈ s.runs, r.chain = chain → r.call.counts = true → r.pc = .returned) →
    s.counters.count chain = 0

namespace ChainRun

variable {r : ChainRun W} {m : Counters String}

theorem Record.counts_of_holds (hr : r.Record m) (h : r.holds = true) : r.call.counts = true := by
  cases hpc : r.pc with
  | load use => cases use <;> simp_all [Record, holds]
  | loadOrStore use => cases use <;> simp_all [Record, holds]
  | add use c => cases use <;> simp_all [Record, holds]
  | undo c => simp_all [Record, holds]
  | filters => simpa [holds, hpc] using h
  | returned => simp [holds, hpc] at h

theorem Record.took_of_admitted (hr : r.Record m) (hadm : r.admitted = true)
    (hpc : r.pc ≠ .returned) : r.holds = true ∧ ∃ c, r.Took m c := by
  cases h : r.pc with
  | load use =>
    cases use with
    | acquire => simp_all [Record]
    | release => simp_all [Record, holds]
  | loadOrStore use =>
    cases use with
    | acquire => simp_all [Record]
    | release => simp_all [Record, holds]
  | add use c =>
    cases use with
    | acquire => simp_all [Record]
    | release =>
      simp only [Record, h] at hr
      exact ⟨by simp [holds, h], c, hr.2.2⟩
  | undo c => simp_all [Record]
  | filters =>
    simp only [Record, h] at hr
    by_cases hcounts : r.call.counts = true
    · rw [if_pos hcounts] at hr
      exact ⟨by simp [holds, h, hcounts], hr.2⟩
    · rw [if_neg hcounts] at hr
      exact absurd (hr.1.symm.trans hadm) (by simp)
  | returned => exact absurd h hpc

end ChainRun

/-- The concurrency limit is exact over all interleavings of any runs. -/
theorem chain_limit_exact {s : LimiterState W} (hr : (limiterSys W).Reachable s) : s.Exact := by
  have hinv := limiter_inductive.invariant hr
  refine
    { admission := ?_
      filters := ?_
      keeps := fun r hmem => (hinv.record r hmem).took_of_admitted
      gaveBack := ?_
      returns := ?_
      nonneg := ?_
      idle := ?_ }
  · intro i left s' r r' hstep hi hi' hno hyes
    have hinv' := limiter_inductive.step s _ s' hinv trivial hstep
    rcases limiterSys_step_cases hstep with ⟨c, hc, -⟩ | ⟨j, left', q, m, q', he, hj, hq, rfl⟩
    · cases hc
    · cases he
      rw [hi] at hj
      cases hj
      have hlt : i < s.runs.length := (List.getElem?_eq_some_iff.mp hi).1
      have hq' : q' = r' := by
        have hset : (s.runs.set i q')[i]? = some r' := hi'
        rw [List.getElem?_set_self hlt] at hset
        exact Option.some.inj hset
      subst hq'
      have hmoves := ChainRun.step_moves (hinv.record r (List.mem_of_getElem? hi)) hq
      have hmem : q' ∈ s.runs.set i q' := List.mem_set hlt q'
      obtain ⟨hfilters, hlimit⟩ := hmoves.admits hno hyes
      have hpc : q'.pc ≠ .returned := by
        rw [hfilters]
        simp
      have htook := (hinv'.record q' hmem).took_of_admitted hyes hpc
      have hcounts := (hinv'.record q' hmem).counts_of_holds htook.1
      rw [hmoves.call] at hcounts
      refine ⟨?_, htook.1, ?_⟩
      · simp only [RunCall.counts, Bool.and_eq_true, decide_eq_true_eq] at hcounts
        exact hcounts.2
      · rw [← hinv'.count r.chain]
        exact hlimit
  · intro r hmem hcounts hpc
    have hrec := hinv.record r hmem
    simp only [ChainRun.Record, hpc, if_pos hcounts] at hrec
    exact hrec.1
  · intro r hmem hcounts hpc
    have hrec := hinv.record r hmem
    simp only [ChainRun.Record, hpc, if_pos hcounts] at hrec
    exact ⟨hrec, by simp [ChainRun.holds, hpc]⟩
  · intro r hmem hpc left
    obtain ⟨⟨m, r'⟩, hstep⟩ :=
      Option.isSome_iff_exists.mp (ChainRun.step_isSome s.counters left hpc)
    exact ⟨m, r', hstep, (ChainRun.step_moves (hinv.record r hmem) hstep).less⟩
  · intro chain
    rw [hinv.count chain]
    omega
  · intro chain hall
    rw [hinv.count chain]
    have hnone : s.holders chain = 0 := by
      refine List.countP_eq_zero.mpr fun r hmem hp => ?_
      simp only [Bool.and_eq_true, decide_eq_true_eq] at hp
      have hret := hall r hmem hp.1 ((hinv.record r hmem).counts_of_holds hp.2)
      simp [ChainRun.holds, hret] at hp
    rw [hnone]
    rfl

/-- A run of one filter on a chain with room for one. -/
def limitedCall : RunCall Unit where
  policy := some
    { config :=
        { chains := ∅
          redis := ∅
          chainSettings := AList.singleton "main" { maxConcurrency := 1 } }
      chains := ∅
      routeWith := fun _ => ("main", none) }
  st := { snap := 0, chain := [{ filter := ⟨none, fun w ctx => (w, ctx, none)⟩ }], name := "main" }
  ctx := {}
  phase := .requestHeaders

/-- Two runs at once: the first is admitted, the second has counted itself and
not yet taken that back. -/
def twoRuns : List (LimiterEvent Unit) :=
  [.call limitedCall, .call limitedCall, .step 0 {}, .step 1 {}, .step 0 {}, .step 1 {},
    .step 0 {}, .step 1 {}]

def twoRunsState : Option (LimiterState Unit) :=
  (limiterSys Unit).run (fun _ _ => True) {} twoRuns

theorem twoRuns_runs : twoRunsState.isSome = true := rfl

theorem chain_limit_exact_two_runs :
    (twoRunsState.get twoRuns_runs).runs.map (fun r => (r.admitted, r.holds))
        = [(true, true), (false, true)]
      ∧ (twoRunsState.get twoRuns_runs).Exact :=
  ⟨rfl, chain_limit_exact (.of_run rfl twoRuns twoRuns_runs)⟩

end Hypergate.Grpc
