import Hypergate.Lib.Grouping
import Hypergate.Routing.Selector
import Mathlib.Logic.Relation

/-!
# Grouped pipelines for Redis Cluster (`internal/redis/pipeline.go`)

In a cluster, the actions of a pipeline are grouped by their routing key and each group is
flushed as a pipeline of its own: one after the other, or concurrently. `groups` maps a key
to a pointer through which the loop appends, so the model writes the grown group back.

`client.Do` is a function of the pipelines handed to it before: it answers with an error or
without one. The actions are of any type.

- `Grouped`: what the loop has built from the actions it has passed; one step keeps it.
- `KeepsOrder`: an execution of all actions in which those of one key keep their order.
- `pipe_groups_right`: the groups, and that the serial execution is one.
-/

namespace Hypergate.Redis

open Lib Routing

variable {A : Type}

/-! ## The client -/

structure PipelineAction (A : Type) where
  action : A
  key : String

/-- `clientImpl`; `exec calls p` is the error of `client.Do` on `p` after `calls`. -/
structure ClientImpl (A : Type) where
  serviceName : String
  isCluster : Bool
  clusterPipelineParallelism : Int
  exec : List (List A) → List A → Option String

structure SlotGroup (A : Type) where
  key : String
  firstIndex : Nat
  actions : List A

/-- How a call ended. -/
inductive Outcome where
  | ok
  | failed (err : String)
  | panicked
  deriving DecidableEq

/-- The pipelines handed to `client.Do`, in order, and how the call ended. -/
structure Sent (A : Type) where
  calls : List (List A)
  outcome : Outcome

/-! ## Grouping -/

/-- The variables `groupOrder` and `groups`. -/
structure Grouping (A : Type) where
  groupOrder : List String := []
  groups : AMap String (SlotGroup A) := ∅

/-- One action, with its index. -/
def Grouping.add (s : Grouping A) (e : PipelineAction A × Nat) : Grouping A :=
  match s.groups.lookup e.1.key with
  | some g =>
    { s with groups := s.groups.insert e.1.key { g with actions := g.actions ++ [e.1.action] } }
  | none =>
    { groupOrder := s.groupOrder ++ [e.1.key]
      groups := s.groups.insert e.1.key
        { key := e.1.key, firstIndex := e.2, actions := [e.1.action] } }

/-- The first step of `pipeDoCluster`. -/
def groupPipeline (pipeline : List (PipelineAction A)) : Grouping A :=
  pipeline.zipIdx.foldl Grouping.add {}

/-- `ordered`. A key without a group would give a nil pointer. -/
def Grouping.ordered (s : Grouping A) : List (Option (SlotGroup A)) :=
  s.groupOrder.map fun k => s.groups.lookup k

/-! ## Execution -/

/-- The error of `flushGroup`. -/
def ClientImpl.flushError (c : ClientImpl A) (g : SlotGroup A) (err : String) : String :=
  "redis[" ++ c.serviceName ++ "].PipeDo(cluster, key=" ++ quote g.key ++ ", "
    ++ toString g.actions.length ++ " actions): " ++ err

/-- `execGroupsSerial`, after some calls. -/
def ClientImpl.execGroupsSerial (c : ClientImpl A) :
    List (Option (SlotGroup A)) → List (List A) → Sent A
  | [], calls => ⟨calls, .ok⟩
  | none :: _, calls => ⟨calls, .panicked⟩
  | some g :: rest, calls =>
    match c.exec calls g.actions with
    | some err => ⟨calls ++ [g.actions], .failed (c.flushError g err)⟩
    | none => c.execGroupsSerial rest (calls ++ [g.actions])

def ClientImpl.pipeDoFlat (c : ClientImpl A) (pipeline : List (PipelineAction A)) : Sent A :=
  let actions := pipeline.map (·.action)
  match c.exec [] actions with
  | some err => ⟨[actions], .failed ("redis[" ++ c.serviceName
      ++ "].PipeDo(flat): pipeline flush failed (" ++ toString pipeline.length
      ++ " actions): " ++ err)⟩
  | none => ⟨[actions], .ok⟩

/-! ## What the loop builds -/

/-- The group of a key among indexed actions. -/
def groupOf (passed : List (PipelineAction A × Nat)) (k : String) : Option (SlotGroup A) :=
  (passed.find? fun e => decide (e.1.key = k)).map fun e =>
    { key := k, firstIndex := e.2
      actions := (passed.filter fun e => decide (e.1.key = k)).map fun e => e.1.action }

theorem groupOf_append (passed : List (PipelineAction A × Nat)) (e : PipelineAction A × Nat)
    (k : String) :
    groupOf (passed ++ [e]) k = if e.1.key = k then
        some (match groupOf passed k with
          | some g => { g with actions := g.actions ++ [e.1.action] }
          | none => { key := k, firstIndex := e.2, actions := [e.1.action] })
      else groupOf passed k := by
  unfold groupOf
  rw [List.find?_append, List.filter_append]
  by_cases hk : e.1.key = k
  · rw [if_pos hk]
    cases hfind : passed.find? fun e => decide (e.1.key = k) with
    | some e' => simp [hk]
    | none =>
      have hnone : (passed.filter fun e => decide (e.1.key = k)) = [] := by
        rw [List.filter_eq_nil_iff]
        exact List.find?_eq_none.mp hfind
      simp [hk, hnone]
  · rw [if_neg hk]
    cases passed.find? fun e => decide (e.1.key = k) with
    | some e' => simp [hk]
    | none => simp [hk]

/-- What the loop has built from the actions it has passed. -/
structure Grouped (passed : List (PipelineAction A × Nat)) (s : Grouping A) : Prop where
  groups : ∀ k, s.groups.lookup k = groupOf passed k
  nodup : s.groupOrder.Nodup
  mem : ∀ k, k ∈ s.groupOrder ↔ ∃ e ∈ passed, e.1.key = k
  ascending : s.groupOrder.Pairwise fun k k' => ∀ g g', groupOf passed k = some g →
    groupOf passed k' = some g' → g.firstIndex < g'.firstIndex

theorem Grouped.init : Grouped ([] : List (PipelineAction A × Nat)) {} where
  groups _ := rfl
  nodup := List.nodup_nil
  mem _ := by simp
  ascending := List.Pairwise.nil

variable {passed : List (PipelineAction A × Nat)}

theorem firstIndex_mem {k : String} {g : SlotGroup A} (h : groupOf passed k = some g) :
    ∃ e ∈ passed, e.1.key = k ∧ e.2 = g.firstIndex := by
  obtain ⟨e, he, rfl⟩ := Option.map_eq_some_iff.mp h
  exact ⟨e, List.mem_of_find?_eq_some he, by simpa using List.find?_some he, rfl⟩

/-- Another action of a key does not move the group of any key. -/
theorem firstIndex_append {e : PipelineAction A × Nat} {k : String} {g : SlotGroup A}
    (hk : ∃ e' ∈ passed, e'.1.key = k) (h : groupOf (passed ++ [e]) k = some g) :
    ∃ g', groupOf passed k = some g' ∧ g'.firstIndex = g.firstIndex := by
  rw [groupOf_append] at h
  split at h
  · cases hold : groupOf passed k with
    | some g' =>
      rw [hold] at h
      exact ⟨g', rfl, by rw [← Option.some.inj h]⟩
    | none =>
      obtain ⟨e', he', hkey⟩ := hk
      have hnone := Option.map_eq_none_iff.mp hold
      exact absurd (decide_eq_true hkey) (List.find?_eq_none.mp hnone e' he')
  · exact ⟨g, h, rfl⟩

/-- The next action, with an index beyond those passed. -/
theorem Grouped.step {s : Grouping A} (h : Grouped passed s) {e : PipelineAction A × Nat}
    (hindex : ∀ e' ∈ passed, e'.2 < e.2) :
    Grouped (passed ++ [e]) (s.add e) := by
  have hmem : ∀ k, (∃ e' ∈ passed ++ [e], e'.1.key = k)
      ↔ (∃ e' ∈ passed, e'.1.key = k) ∨ e.1.key = k := by
    intro k
    simp [or_and_right, exists_or]
  -- the groups of the keys passed keep their order
  have hkept : s.groupOrder.Pairwise fun k k' => ∀ g g', groupOf (passed ++ [e]) k = some g →
      groupOf (passed ++ [e]) k' = some g' → g.firstIndex < g'.firstIndex := by
    refine h.ascending.imp_of_mem ?_
    intro k k' hk hk' hlt g g' hg hg'
    obtain ⟨g₀, hg₀, hfirst⟩ := firstIndex_append ((h.mem k).mp hk) hg
    obtain ⟨g₀', hg₀', hfirst'⟩ := firstIndex_append ((h.mem k').mp hk') hg'
    rw [← hfirst, ← hfirst']
    exact hlt g₀ g₀' hg₀ hg₀'
  unfold Grouping.add
  cases hold : s.groups.lookup e.1.key with
  | some g =>
    have hgroup : groupOf passed e.1.key = some g := (h.groups _).symm.trans hold
    have hthere : ∃ e' ∈ passed, e'.1.key = e.1.key := by
      obtain ⟨e', he', hkey, -⟩ := firstIndex_mem hgroup
      exact ⟨e', he', hkey⟩
    refine ⟨?_, h.nodup, ?_, hkept⟩
    · intro k
      rw [AMap.lookup_insert_ite, groupOf_append, h.groups]
      by_cases hk : e.1.key = k
      · subst hk
        rw [if_pos rfl, if_pos rfl, hgroup]
      · rw [if_neg (Ne.symm hk), if_neg hk]
    · intro k
      rw [h.mem, hmem]
      constructor
      · exact .inl
      · rintro (hk | rfl)
        · exact hk
        · exact hthere
  | none =>
    have hgroup : groupOf passed e.1.key = none := (h.groups _).symm.trans hold
    have hnew : e.1.key ∉ s.groupOrder := by
      intro hk
      obtain ⟨e', he', hkey⟩ := (h.mem _).mp hk
      have hnone := Option.map_eq_none_iff.mp hgroup
      exact List.find?_eq_none.mp hnone e' he' (decide_eq_true hkey)
    refine ⟨?_, ?_, ?_, ?_⟩
    · intro k
      rw [AMap.lookup_insert_ite, groupOf_append, h.groups]
      by_cases hk : e.1.key = k
      · subst hk
        rw [if_pos rfl, if_pos rfl, hgroup]
      · rw [if_neg (Ne.symm hk), if_neg hk]
    · refine List.nodup_append.mpr ⟨h.nodup, List.nodup_singleton _, ?_⟩
      intro k hk k' hk'
      rw [List.mem_singleton.mp hk']
      rintro rfl
      exact hnew hk
    · intro k
      rw [List.mem_append, List.mem_singleton, h.mem, hmem, eq_comm (a := k)]
    · refine List.pairwise_append.mpr ⟨hkept, List.pairwise_singleton _ _, ?_⟩
      intro k hk k' hk' g g' hg hg'
      rw [List.mem_singleton.mp hk', groupOf_append, if_pos rfl, hgroup] at hg'
      obtain ⟨g₀, hg₀, hfirst⟩ := firstIndex_append ((h.mem k).mp hk) hg
      obtain ⟨e', he', -, hindex'⟩ := firstIndex_mem hg₀
      rw [← hfirst, ← hindex', ← Option.some.inj hg']
      exact hindex e' he'

theorem Grouped.run {l : List (PipelineAction A × Nat)}
    (hl : l.Pairwise fun e e' => e.2 < e'.2) : Grouped l (l.foldl Grouping.add {}) := by
  induction l using List.reverseRecOn with
  | nil => exact .init
  | append_singleton l e ih =>
    obtain ⟨hl, -, hlast⟩ := List.pairwise_append.mp hl
    rw [List.foldl_append]
    exact (ih hl).step fun e' he' => hlast e' he' e (List.mem_singleton_self e)

theorem pairwise_zipIdx (pipeline : List (PipelineAction A)) :
    pipeline.zipIdx.Pairwise fun e e' => e.2 < e'.2 := by
  rw [← List.pairwise_map (f := Prod.snd) (R := fun i j : Nat => i < j), List.zipIdx_map_snd]
  exact List.pairwise_lt_range'

theorem grouped_groupPipeline (pipeline : List (PipelineAction A)) :
    Grouped pipeline.zipIdx (groupPipeline pipeline) := Grouped.run (pairwise_zipIdx pipeline)

/-! ## The groups -/

/-- The groups of a pipeline, in the order in which they are executed. -/
def slotGroups (pipeline : List (PipelineAction A)) : List (SlotGroup A) :=
  (groupPipeline pipeline).ordered.reduceOption

section Groups

variable {pipeline : List (PipelineAction A)}

theorem exists_groupOf {passed : List (PipelineAction A × Nat)} {s : Grouping A}
    (h : Grouped passed s) {k : String} (hk : k ∈ s.groupOrder) :
    ∃ g, groupOf passed k = some g := by
  obtain ⟨e, he, hkey⟩ := (h.mem k).mp hk
  have hfound : (passed.find? fun e => decide (e.1.key = k)).isSome = true :=
    List.find?_isSome.mpr ⟨e, he, decide_eq_true hkey⟩
  obtain ⟨e', he'⟩ := Option.isSome_iff_exists.mp hfound
  exact ⟨_, by rw [groupOf, he']; rfl⟩

theorem ordered_eq (pipeline : List (PipelineAction A)) :
    (groupPipeline pipeline).ordered = (slotGroups pipeline).map some := by
  have hgrouped := grouped_groupPipeline pipeline
  have hsome : ∀ o ∈ (groupPipeline pipeline).ordered, o.isSome = true := by
    intro o ho
    obtain ⟨k, hk, rfl⟩ := List.mem_map.mp ho
    obtain ⟨g, hg⟩ := exists_groupOf hgrouped hk
    rw [hgrouped.groups, hg]
    rfl
  unfold slotGroups
  generalize (groupPipeline pipeline).ordered = l at hsome
  induction l with
  | nil => rfl
  | cons o l ih =>
    obtain ⟨g, rfl⟩ := Option.isSome_iff_exists.mp (hsome o List.mem_cons_self)
    have ih := ih fun o' ho' => hsome o' (List.mem_cons_of_mem _ ho')
    exact congrArg (some g :: ·) ih

theorem groupOf_of_mem {g : SlotGroup A} (hg : g ∈ slotGroups pipeline) :
    groupOf pipeline.zipIdx g.key = some g := by
  have hmem : some g ∈ (groupPipeline pipeline).ordered := by
    rw [ordered_eq]
    exact List.mem_map_of_mem hg
  obtain ⟨k, -, hk⟩ := List.mem_map.mp hmem
  rw [(grouped_groupPipeline pipeline).groups] at hk
  obtain ⟨e, he, rfl⟩ := Option.map_eq_some_iff.mp hk
  exact hk

theorem keys_slotGroups (pipeline : List (PipelineAction A)) :
    (slotGroups pipeline).map (·.key) = (groupPipeline pipeline).groupOrder := by
  have hkeys : ∀ k ∈ (groupPipeline pipeline).groupOrder,
      ((groupPipeline pipeline).groups.lookup k).map (·.key) = some k := by
    intro k hk
    obtain ⟨g, hg⟩ := exists_groupOf (grouped_groupPipeline pipeline) hk
    rw [(grouped_groupPipeline pipeline).groups, hg]
    obtain ⟨e, -, rfl⟩ := Option.map_eq_some_iff.mp hg
    rfl
  have hmap := congrArg (List.map (Option.map SlotGroup.key)) (ordered_eq pipeline)
  rw [Grouping.ordered, List.map_map, List.map_map] at hmap
  refine List.map_injective_iff.mpr (Option.some_injective String) ?_
  rw [List.map_map]
  refine hmap.symm.trans ?_
  exact List.map_congr_left hkeys

/-- The actions of a group are those of its key, in the order of the pipeline. -/
theorem actions_of_mem {g : SlotGroup A} (hg : g ∈ slotGroups pipeline) :
    g.actions = (pipeline.filter fun a => decide (a.key = g.key)).map (·.action) := by
  obtain ⟨e, -, heq⟩ := Option.map_eq_some_iff.mp (groupOf_of_mem hg)
  have hfilter : (pipeline.zipIdx.filter fun e => decide (e.1.key = g.key)).map Prod.fst
      = pipeline.filter fun a => decide (a.key = g.key) := by
    conv_rhs => rw [← List.zipIdx_map_fst 0 pipeline, List.filter_map]
    rfl
  rw [← hfilter, List.map_map]
  exact (congrArg SlotGroup.actions heq).symm

theorem firstIndex_of_mem {g : SlotGroup A} (hg : g ∈ slotGroups pipeline) :
    (pipeline.findIdx? fun a => decide (a.key = g.key)) = some g.firstIndex := by
  obtain ⟨e, he, heq⟩ := Option.map_eq_some_iff.mp (groupOf_of_mem hg)
  rw [List.findIdx?_eq_fst_find?_zipIdx, he]
  exact congrArg (some ·.firstIndex) heq

theorem nodup_keys (pipeline : List (PipelineAction A)) :
    ((slotGroups pipeline).map (·.key)).Nodup := by
  rw [keys_slotGroups]
  exact (grouped_groupPipeline pipeline).nodup

theorem key_mem (pipeline : List (PipelineAction A)) :
    ∀ a ∈ pipeline, a.key ∈ (slotGroups pipeline).map (·.key) := by
  intro a ha
  rw [keys_slotGroups, (grouped_groupPipeline pipeline).mem]
  rw [← List.zipIdx_map_fst 0 pipeline] at ha
  obtain ⟨e, he, rfl⟩ := List.mem_map.mp ha
  exact ⟨e, he, rfl⟩

theorem ascending_slotGroups (pipeline : List (PipelineAction A)) :
    (slotGroups pipeline).Pairwise fun g g' => g.firstIndex < g'.firstIndex := by
  have hasc := (grouped_groupPipeline pipeline).ascending
  rw [← keys_slotGroups, List.pairwise_map] at hasc
  refine hasc.imp_of_mem ?_
  intro g g' hg hg' hlt
  exact hlt g g' (groupOf_of_mem hg) (groupOf_of_mem hg')

end Groups

/-! ## The order of execution -/

/-- All actions of the pipeline were executed, each once, in the order `order` of their
positions, which keeps the order of any two with the same key. -/
structure KeepsOrder (pipeline : List (PipelineAction A)) (executed : List A)
    (order : List Nat) : Prop where
  perm : order.Perm (List.range pipeline.length)
  actions : executed.map some = order.map fun i => pipeline[i]?.map (·.action)
  sameKey : order.Pairwise fun i j =>
    (pipeline[i]?.map (·.key)) = (pipeline[j]?.map (·.key)) → i < j

variable {groups : List (SlotGroup A)} {pipeline : List (PipelineAction A)}

theorem keepsOrder_of_groups (h : groups.Perm (slotGroups pipeline)) :
    ∃ order, KeepsOrder pipeline (groups.map (·.actions)).flatten order := by
  have hkeys : (groups.map (·.key)).Nodup :=
    (h.map SlotGroup.key).nodup_iff.mpr (nodup_keys pipeline)
  have hall : ∀ e ∈ pipeline.zipIdx, e.1.key ∈ groups.map (·.key) := by
    intro e he
    have hfst : e.1 ∈ pipeline := List.fst_mem_of_mem_zipIdx he
    exact (h.map SlotGroup.key).mem_iff.mpr (key_mem pipeline e.1 hfst)
  -- the indexed actions, taken apart by the keys of the groups
  let indexed := (groups.map (·.key)).flatMap fun k =>
    pipeline.zipIdx.filter fun e => decide (e.1.key = k)
  have hperm : indexed.Perm pipeline.zipIdx := perm_flatMap_filter hkeys hall
  have hat : ∀ e ∈ indexed, pipeline[e.2]? = some e.1 := fun e he =>
    List.mem_zipIdx_iff_getElem?.mp (hperm.mem_iff.mp he)
  have hexecuted : (groups.map (·.actions)).flatten = indexed.map fun e => e.1.action := by
    have hgroup : ∀ g ∈ groups, g.actions
        = (pipeline.zipIdx.filter fun e => decide (e.1.key = g.key)).map fun e => e.1.action := by
      intro g hg
      obtain ⟨e, -, heq⟩ := Option.map_eq_some_iff.mp (groupOf_of_mem (h.mem_iff.mp hg))
      exact (congrArg SlotGroup.actions heq).symm
    rw [← List.flatMap_def, List.flatMap_congr hgroup]
    show _ = List.map _ ((groups.map (·.key)).flatMap _)
    rw [List.map_flatMap, List.flatMap_map]
  refine ⟨indexed.map Prod.snd, ?_, ?_, ?_⟩
  · refine (hperm.map Prod.snd).trans ?_
    rw [List.zipIdx_map_snd, List.range_eq_range']
  · rw [hexecuted, List.map_map, List.map_map]
    refine List.map_congr_left fun e he => ?_
    show some e.1.action = pipeline[e.2]?.map (·.action)
    rw [hat e he]
    rfl
  · rw [List.pairwise_map]
    refine (pairwise_flatMap_filter hkeys (pairwise_zipIdx pipeline)).imp_of_mem ?_
    intro e e' he he' hlt hkey
    rw [hat e he, hat e' he'] at hkey
    exact hlt (Option.some.inj hkey)

/-- A serial run without an error flushes every group. -/
theorem ClientImpl.calls_of_ok (c : ClientImpl A) {calls : List (List A)}
    (h : (c.execGroupsSerial (groups.map some) calls).outcome = .ok) :
    (c.execGroupsSerial (groups.map some) calls).calls = calls ++ groups.map (·.actions) := by
  induction groups generalizing calls with
  | nil => exact (List.append_nil calls).symm
  | cons g groups ih =>
    rw [List.map_cons, execGroupsSerial] at h ⊢
    cases hexec : c.exec calls g.actions with
    | some err =>
      rw [hexec] at h
      cases h
    | none =>
      rw [hexec] at h
      dsimp only at h ⊢
      rw [ih h, List.append_assoc]
      rfl

/-- A client that reports no error makes the run succeed. -/
theorem ClientImpl.ok_of_exec (c : ClientImpl A) (hexec : ∀ calls p, c.exec calls p = none)
    (groups : List (SlotGroup A)) (calls : List (List A)) :
    (c.execGroupsSerial (groups.map some) calls).outcome = .ok := by
  induction groups generalizing calls with
  | nil => rfl
  | cons g groups ih =>
    rw [List.map_cons, execGroupsSerial, hexec]
    exact ih _

variable {c : ClientImpl A}

theorem serial_keeps_order
    (hok : (c.execGroupsSerial (groupPipeline pipeline).ordered []).outcome = .ok) :
    ∃ order, KeepsOrder pipeline
      (c.execGroupsSerial (groupPipeline pipeline).ordered []).calls.flatten order := by
  rw [ordered_eq] at hok ⊢
  rw [c.calls_of_ok hok]
  exact keepsOrder_of_groups (List.Perm.refl _)

/-- The groups of a pipeline with any keys: no pointer is nil, no two groups have one key,
each group has exactly the actions of its key in the order of the pipeline, the key of each
action has a group, and the groups are in the order in which their keys first appear. The
serial execution, if it ends without an error, executes each action once and keeps the
order of any two with the same key; and it does so if the client reports no error. -/
theorem pipe_groups_right (c : ClientImpl A) (pipeline : List (PipelineAction A)) :
    (groupPipeline pipeline).ordered = (slotGroups pipeline).map some
      ∧ ((slotGroups pipeline).map (·.key)).Nodup
      ∧ (∀ g ∈ slotGroups pipeline,
          g.actions = (pipeline.filter fun a => decide (a.key = g.key)).map (·.action)
            ∧ (pipeline.findIdx? fun a => decide (a.key = g.key)) = some g.firstIndex)
      ∧ (∀ a ∈ pipeline, ∃ g ∈ slotGroups pipeline, g.key = a.key)
      ∧ (slotGroups pipeline).Pairwise (fun g g' => g.firstIndex < g'.firstIndex)
      ∧ ((c.execGroupsSerial (groupPipeline pipeline).ordered []).outcome = .ok →
          ∃ order, KeepsOrder pipeline
            (c.execGroupsSerial (groupPipeline pipeline).ordered []).calls.flatten order)
      ∧ ((∀ calls p, c.exec calls p = none) →
          (c.execGroupsSerial (groupPipeline pipeline).ordered []).outcome = .ok) := by
  refine ⟨ordered_eq pipeline, nodup_keys pipeline, ?_, ?_, ascending_slotGroups pipeline,
    serial_keeps_order, ?_⟩
  · intro g hg
    exact ⟨actions_of_mem hg, firstIndex_of_mem hg⟩
  · intro a ha
    obtain ⟨g, hg, hkey⟩ := List.mem_map.mp (key_mem pipeline a ha)
    exact ⟨g, hg, hkey⟩
  · intro hexec
    rw [ordered_eq]
    exact c.ok_of_exec hexec _ _

/-! ## Any execution -/

end Hypergate.Redis
