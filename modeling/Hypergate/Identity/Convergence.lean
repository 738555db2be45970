import Hypergate.Identity.Distribution
import Hypergate.Operator.SyncLoop

/-!
# Writers, the loop and the engines together

`Distribution` takes a `Sync` as one step. Here its reads and its calls to the two
caches are steps of their own, and any number of writers come in between: a `Sync`
may publish the workloads of one moment with the Services of a later one. The
engines receive what the calls passed to the caches.
-/

namespace Hypergate.Distribution

open Lib Identity
open Operator (IndexInv LoopEvent LoopPc LoopState NothingMissed applyDiff_pushed)

/-- The operator in the middle of a `Sync` or between two, with the updates that
were passed to `UpdateResources`. -/
structure Broadcast extends Publisher where
  pc : LoopPc := .readWorkloads

namespace Broadcast

def loop (σ : Broadcast) : LoopState := ⟨σ.server, σ.pc⟩

variable (t : NetipText)

/-- A step of a writer or of the loop. The two pushes are logged. -/
def step (σ : Broadcast) (e : LoopEvent) : Option Broadcast :=
  (σ.loop.step t.string e).map fun l =>
    let next := { σ with server := l.server, pc := l.pc }
    match e, σ.pc with
    | .advance, .pushWorkloads nextW _ =>
      { next with workloads := logCall σ.workloads (Delta.diff σ.server.lastWorkloads nextW) }
    | .advance, .pushServices _ nextS =>
      { next with services := logCall σ.services (Delta.diff σ.server.lastServices nextS) }
    | _, _ => next

end Broadcast

/-- The writers, the loop and the log of its calls. -/
def broadcastSys (t : NetipText) : TSys Broadcast LoopEvent where
  init σ := ∃ trustDomain labelKeys, σ = { server := { index := .new trustDomain labelKeys } }
  step := Broadcast.step t

theorem broadcastSys_start (t : NetipText) (trustDomain : String) (labelKeys : List String) :
    (broadcastSys t).init { server := { index := .new trustDomain labelKeys } } :=
  ⟨trustDomain, labelKeys, rfl⟩

/-- The workloads that the loop has read and not pushed yet. -/
def readWorkloads : LoopPc → Option (AMap String WorkloadProto)
  | .readServices nextW | .pushWorkloads nextW _ => some nextW
  | _ => none

/-- What every run keeps: the log adds up to the caches, and names workloads
after their addresses. -/
structure Broadcast.Sound (t : NetipText) (σ : Broadcast) : Prop where
  loop : NothingMissed t.string σ.loop
  index : IndexInv σ.server.index
  workloads : ∀ name,
    (Delta.latest σ.workloads name).getD none = σ.server.workloads.lookup name
  services : ∀ name, (Delta.latest σ.services name).getD none = σ.server.services.lookup name
  named : ∀ d ∈ σ.workloads, ∀ name e, d.effect name = some e → WorkloadNamed t name e
  read : ∀ nextW ∈ readWorkloads σ.pc, ∀ name p, nextW.lookup name = some p →
    WorkloadNamed t name (some p)

namespace Broadcast.Sound

variable {t : NetipText} {σ : Broadcast}

/-- A successful push, beside the cache that holds what was pushed before. -/
theorem latest_push {M : Type} [DecidableEq M] {log : List (Delta String M)}
    {cache last next : AMap String M} (hlast : ∀ name, cache.lookup name = last.lookup name)
    (hlog : ∀ name, (Delta.latest log name).getD none = cache.lookup name) (name : String) :
    (Delta.latest (logCall log (Delta.diff last next)) name).getD none =
      (Operator.applyDiff true cache last next).1.lookup name := by
  rw [latest_logCall next ((hlog name).trans (hlast name)), applyDiff_pushed hlast]

theorem advance (h : σ.Sound t) {σ' : Broadcast} (hs : σ.step t .advance = some σ') :
    σ'.Sound t := by
  obtain ⟨l, hl, rfl⟩ := Option.map_eq_some_iff.mp hs
  have hloop : NothingMissed t.string l := h.loop.advance hl
  have hbefore := h.loop
  obtain ⟨⟨server, workloads, services⟩, pc⟩ := σ
  cases pc with
  | waiting => cases hl
  | readWorkloads =>
    cases hl
    refine ⟨hloop, h.index, h.workloads, h.services, h.named, ?_⟩
    rintro _ ⟨⟩ name p hp
    exact workloadResources_named h.index hp
  | readServices nextW =>
    cases hl
    exact ⟨hloop, h.index, h.workloads, h.services, h.named, h.read⟩
  | pushWorkloads nextW nextS =>
    cases hl
    refine ⟨hloop, h.index, latest_push hbefore.1.workloads h.workloads, h.services, ?_, ?_⟩
    · exact named_logCall (fun name => (h.workloads name).trans (hbefore.1.workloads name))
        h.named (h.read nextW rfl)
    · rintro _ ⟨⟩
  | pushServices nextW nextS =>
    cases hl
    refine ⟨hloop, h.index, h.workloads, latest_push hbefore.1.2 h.services, h.named, ?_⟩
    rintro _ ⟨⟩

theorem invariant_step : (broadcastSys t).Inductive (fun _ _ => True) (Broadcast.Sound t) where
  init := by
    rintro σ ⟨trustDomain, labelKeys, rfl⟩
    exact ⟨⟨fun _ => rfl, fun _ => rfl⟩, .new trustDomain labelKeys, fun _ => rfl, fun _ => rfl,
      fun d hd => absurd hd (by simp), fun _ h => absurd h (by simp [readWorkloads])⟩
  step := by
    intro σ e σ' h _ hs
    cases e with
    | write op =>
      cases hs
      exact ⟨h.loop.write op, h.index.write op, h.workloads, h.services, h.named, h.read⟩
    | receive =>
      obtain ⟨l, hl, rfl⟩ := Option.map_eq_some_iff.mp hs
      have hloop : NothingMissed t.string l := h.loop.receive hl
      obtain ⟨⟨server, workloads, services⟩, pc⟩ := σ
      cases pc with
      | waiting =>
        change (if server.index.changed then some _ else none) = some l at hl
        split at hl
        · cases hl
          refine ⟨hloop, { h.index with }, h.workloads, h.services, h.named, ?_⟩
          rintro _ ⟨⟩
        · cases hl
      | _ => cases hl
    | advance => exact h.advance hs

end Broadcast.Sound

/-- **The engines converge.** In every interleaving of writers with the loop: when
the loop waits and no notification is left, an engine that started empty and has
received all updates answers `Lookup` and `Service` as the operator's index does
now, for every address and every pair of names. -/
theorem engine_converges {t : NetipText} {σ : Broadcast} {rs : List Response}
    (h : (broadcastSys t).Reachable σ) (hwait : σ.pc = .waiting)
    (hempty : σ.server.index.changed = false) (hrs : Delivers σ.workloads σ.services rs) :
    (∀ ip, (receiveAll t rs).lookup ip = (σ.server.index.lookup ip).map projectWorkload) ∧
      ∀ «namespace» name, (receiveAll t rs).service «namespace» name =
        (σ.server.index.service «namespace» name).map projectService := by
  have hs := Broadcast.Sound.invariant_step.invariant h
  have hloop := hs.loop
  unfold NothingMissed at hloop
  rw [show σ.loop.pc = .waiting from hwait] at hloop
  obtain ⟨hpushed, hlast⟩ := hloop
  obtain ⟨hw, hsv⟩ := hlast hempty
  -- between two `Sync` calls the log adds up to the last maps as well
  have hsound : σ.toPublisher.Sound t :=
    ⟨hs.index, fun name => (hs.workloads name).trans (hpushed.workloads name),
      fun name => (hs.services name).trans (hpushed.services name), hs.named⟩
  exact ⟨hsound.lookup_eq hrs hw, hsound.service_eq hrs hsv⟩

/-- The run in which a node is indexed between the two reads of a `Sync`. -/
def tornSync : Option Broadcast :=
  (broadcastSys decimalText).run (fun _ _ => True) { server := { index := .new "" [] } }
    Operator.writeBetweenReads

theorem tornSync_runs : tornSync.isSome = true := rfl

theorem engine_converges_torn :
    ((tornSync.get tornSync_runs).server.index.lookup (.v4 0x0a000001#32)).isSome = true ∧
      ∀ ip, (receiveAll decimalText (responsesOf (tornSync.get tornSync_runs).workloads
          (tornSync.get tornSync_runs).services)).lookup ip =
        ((tornSync.get tornSync_runs).server.index.lookup ip).map projectWorkload :=
  ⟨by decide, (engine_converges (.of_run (broadcastSys_start _ "" []) Operator.writeBetweenReads
    tornSync_runs) rfl rfl (delivers_responsesOf _ _)).1⟩

end Hypergate.Distribution
