import Hypergate.Operator.Server

/-!
# The sync loop and its notifications (`Serve`, `syncLoop` and `bump`)

Writers change the index and call `bump` inside one critical section; one loop
waits for a notification and then runs `Sync`. The channel holds at most one
notification, so several writes are coalesced, and `Sync` reads the workloads
and the Services in two separately locked steps, so a writer may come between
them.

`NothingMissed` says why no update is lost: a write always leaves a
notification, so while the channel is empty nothing was written since the last
receive, and what the loop has read since then is still the current content.
The steps of one iteration, uninterrupted, are `Server.sync`
(`iteration_eq_sync`).
-/

namespace Hypergate.Operator

open Hypergate.Lib Hypergate.Identity

/-- Where the loop stands. -/
inductive LoopPc where
  /-- In `Sync`, before it reads the workloads. -/
  | readWorkloads
  /-- In `Sync`, before it reads the Services. -/
  | readServices (nextW : AMap String WorkloadProto)
  /-- In `Sync`, before it updates the workload cache. -/
  | pushWorkloads (nextW : AMap String WorkloadProto) (nextS : AMap String ServiceProto)
  /-- In `Sync`, before it updates the Service cache and stores the maps. -/
  | pushServices (nextW : AMap String WorkloadProto) (nextS : AMap String ServiceProto)
  /-- In `syncLoop`, waiting to receive from `Changed`. -/
  | waiting

/-- The server and its loop. `Serve` starts with a `Sync`. -/
structure LoopState where
  server : Server
  pc : LoopPc := .readWorkloads

/-- A write by any writer, a receive, or the next step of the `Sync` the loop
is in. -/
inductive LoopEvent where
  | write (op : IndexOp)
  | receive
  | advance

namespace LoopState

variable (str : Addr → String)

def write (σ : LoopState) (op : IndexOp) : LoopState :=
  { σ with server := { σ.server with index := σ.server.index.write op } }

/-- `<-s.index.Changed()`: possible when a notification waits. -/
def receive (σ : LoopState) : Option LoopState :=
  match σ.pc with
  | .waiting =>
    if σ.server.index.changed then
      some
        { server := { σ.server with index := { σ.server.index with changed := false } }
          pc := .readWorkloads }
    else none
  | _ => none

/-- The next step of `Sync`; `UpdateResources` succeeds. -/
def advance (σ : LoopState) : Option LoopState :=
  match σ.pc with
  | .waiting => none
  | .readWorkloads =>
    some { σ with pc := .readServices (workloadResources str σ.server.index) }
  | .readServices nextW =>
    some { σ with pc := .pushWorkloads nextW (serviceResources str σ.server.index) }
  | .pushWorkloads nextW nextS =>
    some
      { server :=
          { σ.server with
            workloads := (applyDiff true σ.server.workloads σ.server.lastWorkloads nextW).1 }
        pc := .pushServices nextW nextS }
  | .pushServices nextW nextS =>
    some
      { server :=
          { σ.server with
            services := (applyDiff true σ.server.services σ.server.lastServices nextS).1
            lastWorkloads := nextW
            lastServices := nextS }
        pc := .waiting }

def step (σ : LoopState) : LoopEvent → Option LoopState
  | .write op => some (σ.write op)
  | .receive => σ.receive
  | .advance => σ.advance str

end LoopState

/-- The index, its writers and the loop. -/
def loopSys (str : Addr → String) : TSys LoopState LoopEvent where
  init σ := ∃ trustDomain labelKeys, σ = { server := { index := .new trustDomain labelKeys } }
  step := LoopState.step str

theorem loopSys_start (str : Addr → String) (trustDomain : String) (labelKeys : List String) :
    (loopSys str).init { server := { index := .new trustDomain labelKeys } } :=
  ⟨trustDomain, labelKeys, rfl⟩

/-- The cache after a successful `applyDiff` from a cache that holds the last
map. -/
theorem applyDiff_pushed {M : Type} [DecidableEq M] {c last next : AMap String M}
    (h : ∀ name, c.lookup name = last.lookup name) (name : String) :
    (applyDiff true c last next).1.lookup name = next.lookup name := by
  have hok : (applyDiff true c last next).2 = true := by
    simp only [applyDiff, if_true]
    split <;> rfl
  exact (Server.applyDiff_published_iff hok).mpr (fun name heq => (h name).trans heq) name

/-- What the loop has read so far is the current content, unless a notification
waits; and the caches hold what was last pushed to them. -/
def NothingMissed (str : Addr → String) (σ : LoopState) : Prop :=
  match σ.pc with
  | .readWorkloads => σ.server.Pushed
  | .readServices nextW =>
    σ.server.Pushed ∧
      (σ.server.index.changed = false → nextW = workloadResources str σ.server.index)
  | .pushWorkloads nextW nextS =>
    σ.server.Pushed ∧
      (σ.server.index.changed = false → nextW = workloadResources str σ.server.index ∧
        nextS = serviceResources str σ.server.index)
  | .pushServices nextW nextS =>
    ((∀ name, σ.server.workloads.lookup name = nextW.lookup name) ∧
      ∀ name, σ.server.services.lookup name = σ.server.lastServices.lookup name) ∧
      (σ.server.index.changed = false → nextW = workloadResources str σ.server.index ∧
        nextS = serviceResources str σ.server.index)
  | .waiting =>
    σ.server.Pushed ∧
      (σ.server.index.changed = false →
        σ.server.lastWorkloads = workloadResources str σ.server.index ∧
        σ.server.lastServices = serviceResources str σ.server.index)

namespace NothingMissed

variable {str : Addr → String} {σ σ' : LoopState}

/-- A write leaves a notification, so nothing is claimed about what was read
before it. -/
theorem write (h : NothingMissed str σ) (op : IndexOp) : NothingMissed str (σ.write op) := by
  have hchanged : ∀ P : Prop, ((σ.write op).server.index.changed = false → P) := by
    intro P hfalse
    exact absurd hfalse (by simp [LoopState.write])
  obtain ⟨s, pc⟩ := σ
  cases pc with
  | readWorkloads => exact ⟨h.workloads, h.services⟩
  | readServices nextW => exact ⟨⟨h.1.workloads, h.1.services⟩, hchanged _⟩
  | pushWorkloads nextW nextS => exact ⟨⟨h.1.workloads, h.1.services⟩, hchanged _⟩
  | pushServices nextW nextS => exact ⟨h.1, hchanged _⟩
  | waiting => exact ⟨⟨h.1.workloads, h.1.services⟩, hchanged _⟩

theorem receive (h : NothingMissed str σ) (hs : σ.receive = some σ') : NothingMissed str σ' := by
  obtain ⟨s, pc⟩ := σ
  cases pc with
  | waiting =>
    simp only [LoopState.receive] at hs
    split at hs
    · cases hs
      exact ⟨h.1.workloads, h.1.services⟩
    · cases hs
  | _ => cases hs

theorem advance (h : NothingMissed str σ) (hs : σ.advance str = some σ') :
    NothingMissed str σ' := by
  obtain ⟨s, pc⟩ := σ
  cases pc with
  | waiting => cases hs
  | readWorkloads =>
    cases hs
    exact ⟨h, fun _ => rfl⟩
  | readServices nextW =>
    cases hs
    exact ⟨h.1, fun hc => ⟨h.2 hc, rfl⟩⟩
  | pushWorkloads nextW nextS =>
    cases hs
    exact ⟨⟨applyDiff_pushed h.1.workloads, h.1.services⟩, h.2⟩
  | pushServices nextW nextS =>
    cases hs
    exact ⟨⟨h.1.1, applyDiff_pushed h.1.2⟩, h.2⟩

theorem invariant_step : (loopSys str).Inductive (fun _ _ => True) (NothingMissed str) where
  init := by
    rintro σ ⟨trustDomain, labelKeys, rfl⟩
    exact ⟨fun _ => rfl, fun _ => rfl⟩
  step := by
    intro σ e σ' h _ hs
    cases e with
    | write op => exact Option.some.inj hs ▸ h.write op
    | receive => exact h.receive hs
    | advance => exact h.advance hs

end NothingMissed

/-- **No update is lost by coalescing.** Whenever the channel is empty and the
loop waits, the maps last pushed are those of the current index, and the caches
hold exactly them. -/
theorem waiting_published {str : Addr → String} {σ : LoopState}
    (h : (loopSys str).Reachable σ) (hempty : σ.server.index.changed = false)
    (hwait : σ.pc = .waiting) :
    σ.server.lastWorkloads = workloadResources str σ.server.index ∧
      σ.server.lastServices = serviceResources str σ.server.index ∧
      σ.server.Published str := by
  have hinv := NothingMissed.invariant_step.invariant h
  unfold NothingMissed at hinv
  rw [hwait] at hinv
  obtain ⟨hpushed, hlast⟩ := hinv
  obtain ⟨hw, hs⟩ := hlast hempty
  refine ⟨hw, hs, ?_, ?_⟩
  · intro name; rw [hpushed.workloads, hw]
  · intro name; rw [hpushed.services, hs]

/-- A node is indexed between the two reads of the first `Sync`; the
notification brings a second one. -/
def writeBetweenReads : List LoopEvent :=
  [.advance, .write nodeAppears, .advance, .advance, .advance,
    .receive, .advance, .advance, .advance, .advance]

theorem waiting_published_write_between_reads :
    ∃ h : ((loopSys fun _ => "10.0.0.1").run (fun _ _ => True)
        { server := { index := .new "" [] } } writeBetweenReads).isSome,
      ((Option.get _ h).server.workloads.lookup "10.0.0.1").isSome = true ∧
      ((Option.get _ h).server.lastWorkloads =
          workloadResources (fun _ => "10.0.0.1") (Option.get _ h).server.index ∧
        (Option.get _ h).server.lastServices =
          serviceResources (fun _ => "10.0.0.1") (Option.get _ h).server.index ∧
        (Option.get _ h).server.Published fun _ => "10.0.0.1") :=
  ⟨by decide, by decide,
    waiting_published (.of_run (loopSys_start _ "" []) writeBetweenReads (by decide)) rfl rfl⟩

/-- The steps of one `Sync` that no writer interrupts are `Server.sync` with
both calls succeeding. -/
theorem iteration_eq_sync (str : Addr → String) (s : Server) :
    (loopSys str).Steps (fun _ e => e = .advance) { server := s }
      { server := (s.sync str true true).1, pc := .waiting } :=
  .tail (.tail (.tail (.tail .refl rfl rfl) rfl rfl) rfl rfl) rfl rfl

end Hypergate.Operator
