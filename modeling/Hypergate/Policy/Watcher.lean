import Mathlib.Data.List.Basic
import Hypergate.Lib.TSys

/-!
# Following the ConfigMap (`watchK8sConfigMap` in `internal/config/watcher.go`)

The watcher gets the ConfigMap, applies it, and follows a watch from the version it
got until the watch breaks off; then it starts again. Anybody may write or delete
the object meanwhile, and a watch delivers the changes in order. What `ParseBytes`
and the reload say to an object is part of the event.
-/

namespace Hypergate.Policy

open Lib

structure ConfigMap where
  resourceVersion : String
  /-- `Data["config.yaml"]`. -/
  configYaml : Option String
deriving DecidableEq

/-- Before the `Get`, before the `Watch`, or in the loop over its events. -/
inductive WatcherPc where
  | get | watch | reading
deriving DecidableEq

/-- The watcher and the object it follows. -/
structure Watcher where
  /-- The states of the object, oldest first; `none` is a deletion. -/
  history : List (Option ConfigMap)
  /-- How many of them the watcher has seen or skipped. -/
  seen : Nat
  pc : WatcherPc := .get
  lastApplied : String
  errors : List String := []
  /-- The objects handed to `applyBytes`, the one of the boot first. -/
  applied : List ConfigMap

/-- A change of the object, or the outcome of the watcher's next call, with the
error of `applyBytes` in case it is called. -/
inductive WatcherEvent where
  | change (object : Option ConfigMap)
  | fails (err : String)
  | get (rejected : Option String)
  | watch
  | deliver (rejected : Option String)
  | closed

namespace Watcher

/-- The objects that were written, oldest first. -/
def writes (history : List (Option ConfigMap)) : List ConfigMap := history.filterMap id

/-- The closure `apply`. A rejected version is recorded as well. -/
def apply (name : String) (σ : Watcher) (rejected : Option String) (cm : ConfigMap) : Watcher :=
  if cm.resourceVersion = σ.lastApplied then σ
  else if cm.configYaml.isNone then
    { σ with
      errors := σ.errors ++ ["config watcher: config.yaml missing from configmap " ++ name] }
  else
    { σ with
      errors := σ.errors ++ rejected.toList.map fun err =>
        "config watcher: rejected configmap version " ++ cm.resourceVersion ++ ": " ++ err
      lastApplied := cm.resourceVersion
      applied := σ.applied ++ [cm] }

/-- The loop, beside the writers. -/
def step (name : String) (σ : Watcher) : WatcherEvent → Option Watcher
  | .change object => some { σ with history := σ.history ++ [object] }
  | .fails err =>
    match σ.pc with
    | .get => some { σ with errors := σ.errors ++ ["config watcher: get configmap: " ++ err] }
    | .watch =>
      some { σ with
        errors := σ.errors ++ ["config watcher: watch configmap: " ++ err], pc := .get }
    | .reading => none
  | .get rejected =>
    match σ.pc, σ.history.getLast? with
    | .get, some (some cm) =>
      some { σ.apply name rejected cm with seen := σ.history.length, pc := .watch }
    | _, _ => none
  | .watch => if σ.pc = .watch then some { σ with pc := .reading } else none
  | .deliver rejected =>
    match σ.pc, σ.history[σ.seen]? with
    | .reading, some (some cm) =>
      some { σ.apply name rejected cm with seen := σ.seen + 1, pc := .reading }
    -- a deletion is not looked at
    | .reading, some none => some { σ with seen := σ.seen + 1 }
    | _, _ => none
  | .closed => if σ.pc = .reading then some { σ with pc := .get } else none

end Watcher

/-- The watcher of an engine that has booted with the first state of the object. -/
def watcherSys (name : String) : TSys Watcher WatcherEvent where
  init σ := ∃ boot, σ =
    { history := [some boot], seen := 1, lastApplied := boot.resourceVersion, applied := [boot] }
  step := Watcher.step name

theorem watcherSys_start (name : String) (boot : ConfigMap) : (watcherSys name).init
    { history := [some boot], seen := 1, lastApplied := boot.resourceVersion, applied := [boot] } :=
  ⟨boot, rfl⟩

namespace Watcher

structure Inv (σ : Watcher) : Prop where
  seen_le : σ.seen ≤ σ.history.length
  ordered : σ.applied.Sublist (writes (σ.history.take σ.seen))
  last : σ.applied.getLast?.map (·.resourceVersion) = some σ.lastApplied
  /-- The last state the watcher has seen is the one it applied last. -/
  caught : ∀ cm, (σ.history.take σ.seen).getLast? = some (some cm) →
    cm.configYaml.isSome = true → cm.resourceVersion = σ.lastApplied

variable {name : String} {σ : Watcher}

theorem writes_append (h : List (Option ConfigMap)) (object : Option ConfigMap) :
    writes (h ++ [object]) = writes h ++ object.toList := by
  rw [writes, List.filterMap_append]
  cases object <;> rfl

/-- The watcher goes on to a state of the object and applies it. -/
theorem Inv.apply (h : σ.Inv) {cm : ConfigMap} {seen : Nat} (hle : seen ≤ σ.history.length)
    (hmono : (writes (σ.history.take σ.seen)).Sublist (writes (σ.history.take seen)))
    (hlast : (σ.history.take seen).getLast? = some (some cm))
    (hnew : cm.resourceVersion ≠ σ.lastApplied → cm.configYaml.isSome = true →
      (writes (σ.history.take σ.seen) ++ [cm]).Sublist (writes (σ.history.take seen)))
    (rejected : Option String) (pc : WatcherPc) :
    Inv { σ.apply name rejected cm with seen, pc } := by
  have hcaught : ∀ v, (cm.configYaml.isSome = true → cm.resourceVersion = v) →
      ∀ cm', (σ.history.take seen).getLast? = some (some cm') → cm'.configYaml.isSome = true →
        cm'.resourceVersion = v := by
    intro v hv cm' hcm'
    cases hlast.symm.trans hcm'
    exact hv
  unfold Watcher.apply
  split
  · exact ⟨hle, h.ordered.trans hmono, h.last, hcaught _ fun _ => ‹_›⟩
  · split
    · rename_i hnone
      refine ⟨hle, h.ordered.trans hmono, h.last, hcaught _ fun hsome => ?_⟩
      simp [Option.isNone_iff_eq_none.mp hnone] at hsome
    · rename_i hother hsome
      refine ⟨hle, ?_, by simp, hcaught _ fun _ => rfl⟩
      exact (h.ordered.append (.refl _)).trans (hnew hother (by simpa [Option.isSome_iff_ne_none]
        using hsome))

/-- A `Get` skips what was written since the watch broke off. -/
theorem Inv.get (h : σ.Inv) {cm : ConfigMap} (hcm : σ.history.getLast? = some (some cm))
    (rejected : Option String) (pc : WatcherPc) :
    Inv { σ.apply name rejected cm with seen := σ.history.length, pc } := by
  refine h.apply (Nat.le_refl _) ?_ (by rw [List.take_length]; exact hcm) ?_ rejected pc
  · rw [List.take_length]
    exact (List.take_sublist ..).filterMap id
  · intro hother hsome
    obtain ⟨init, hinit⟩ := List.getLast?_eq_some_iff.mp hcm
    -- the object is new, so the watcher has not seen all of the history
    have hlt : σ.seen ≤ init.length := by
      by_contra hge
      have hlen : σ.history.length ≤ σ.seen := by
        rw [hinit, List.length_append, List.length_singleton]
        omega
      exact hother (h.caught cm (by rw [List.take_of_length_le hlen]; exact hcm) hsome)
    rw [List.take_length, hinit, List.take_append_of_le_length hlt, writes_append]
    exact ((List.take_sublist ..).filterMap id).append (.refl _)

/-- What a watch has delivered after one more change. -/
theorem take_seen {object : Option ConfigMap} (ho : σ.history[σ.seen]? = some object) :
    σ.history.take (σ.seen + 1) = σ.history.take σ.seen ++ [object] := by
  rw [List.take_add_one, ho]
  rfl

theorem invariant_step : (watcherSys name).Inductive (fun _ _ => True) Inv where
  init := by
    rintro σ ⟨boot, rfl⟩
    exact ⟨Nat.le_refl _, .refl _, rfl, by rintro _ ⟨⟩ _; rfl⟩
  step := by
    intro σ e σ' h _ hs
    cases e with
    | change object =>
      cases hs
      have htake : (σ.history ++ [object]).take σ.seen = σ.history.take σ.seen :=
        List.take_append_of_le_length h.seen_le
      refine ⟨?_, htake.symm ▸ h.ordered, h.last, htake.symm ▸ h.caught⟩
      rw [List.length_append]
      exact Nat.le_add_right_of_le h.seen_le
    | deliver rejected =>
      change (match σ.pc, σ.history[σ.seen]? with
        | .reading, some (some cm) => _ | .reading, some none => _ | _, _ => _) = _ at hs
      split at hs <;> cases hs
      · rename_i hcm
        have htake := take_seen hcm
        refine h.apply (List.getElem?_eq_some_iff.mp hcm).1 ?_ (by simp [htake]) ?_ _ _
        · rw [htake, writes_append]
          exact List.sublist_append_left ..
        · intro _ _
          rw [htake, writes_append]
          exact .refl _
      · rename_i hnone
        have htake := take_seen hnone
        refine ⟨(List.getElem?_eq_some_iff.mp hnone).1, ?_, h.last, by simp [htake]⟩
        rw [htake, writes_append]
        exact h.ordered.trans (List.sublist_append_left ..)
    | get rejected =>
      change (match σ.pc, σ.history.getLast? with | .get, some (some cm) => _ | _, _ => _) = _ at hs
      split at hs <;> cases hs
      exact h.get ‹_› _ _
    | _ =>
      simp only [watcherSys, Watcher.step] at hs
      split at hs <;> cases hs <;> exact { h with }

end Watcher

/-- **Writes are applied in order, none twice, and the last one is.** In every run,
with watches that break off and calls that fail at any time: the applied objects are
writes of the ConfigMap, each at most once and in their order; and when the watcher
has seen every change, the version applied last is that of the present object, if it
has a `config.yaml`. -/
theorem config_map_followed {name : String} {σ : Watcher} (h : (watcherSys name).Reachable σ) :
    σ.applied.Sublist (Watcher.writes σ.history) ∧
      (σ.seen = σ.history.length → ∀ cm, σ.history.getLast? = some (some cm) →
        cm.configYaml.isSome = true →
        σ.applied.getLast?.map (·.resourceVersion) = some cm.resourceVersion) := by
  have hinv := Watcher.invariant_step.invariant h
  refine ⟨hinv.ordered.trans ((List.take_sublist ..).filterMap id), fun hseen cm hcm hsome => ?_⟩
  rw [hinv.last, hinv.caught cm (by rw [hseen, List.take_length]; exact hcm) hsome]

/-- The watch breaks off, two versions are written, and the second one is deleted and
written anew while the watcher reads again. -/
def brokenWatch : List WatcherEvent :=
  [.get none, .watch, .closed, .change (some ⟨"2", some "b"⟩), .change (some ⟨"3", some "c"⟩),
    .fails "timeout", .get (some "invalid"), .watch, .change none,
    .change (some ⟨"5", some "e"⟩), .deliver none, .deliver none]

def afterBreak : Option Watcher :=
  (watcherSys "hyper-system/hyper-engine-config").run (fun _ _ => True)
    { history := [some ⟨"1", some "a"⟩], seen := 1, lastApplied := "1"
      applied := [⟨"1", some "a"⟩] } brokenWatch

theorem afterBreak_runs : afterBreak.isSome = true := by decide

theorem config_map_followed_break :
    (afterBreak.get afterBreak_runs).applied.map (·.resourceVersion) = ["1", "3", "5"] ∧
      (afterBreak.get afterBreak_runs).applied.Sublist
        (Watcher.writes (afterBreak.get afterBreak_runs).history) :=
  ⟨by decide, (config_map_followed
    (.of_run (watcherSys_start _ ⟨"1", some "a"⟩) brokenWatch afterBreak_runs)).1⟩

end Hypergate.Policy
