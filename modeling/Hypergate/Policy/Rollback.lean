import Mathlib.Data.List.Nodup
import Hypergate.Policy.Manager

/-!
# A failed `Apply` changes nothing

The build may fail after any prefix of its nested loops. The invariant
`Created` says what the local lists hold at every such point: exactly the
resources allocated since the call began, each once. `abort` closes those lists,
so a failed call leaves behind neither an open resource of its own nor a closed
one of somebody else.
-/

namespace Hypergate.Policy

open Lib

/-- The lists of created resources are the resources allocated since `w`. -/
structure Created (w : World) (b : Build) : Prop where
  clients : b.createdClients = List.range' w.nextPtr b.createdClients.length
  nextPtr : b.nextPtr = w.nextPtr + b.createdClients.length
  filters : b.createdFilters.map (·.id) = List.range' w.nextFilter b.createdFilters.length
  nextFilter : b.nextFilter = w.nextFilter + b.createdFilters.length

namespace Created

variable {w : World} {b : Build}

/-- The invariant speaks of the created lists and the counters only. -/
theorem congr {b' : Build} (h : Created w b) (hc : b'.createdClients = b.createdClients)
    (hp : b'.nextPtr = b.nextPtr) (hf : b'.createdFilters = b.createdFilters)
    (hn : b'.nextFilter = b.nextFilter) : Created w b' where
  clients := by rw [hc]; exact h.clients
  nextPtr := by rw [hc, hp]; exact h.nextPtr
  filters := by rw [hf]; exact h.filters
  nextFilter := by rw [hf, hn]; exact h.nextFilter

theorem newClient {b' : Build} (h : Created w b)
    (hc : b'.createdClients = b.createdClients ++ [b.nextPtr]) (hp : b'.nextPtr = b.nextPtr + 1)
    (hf : b'.createdFilters = b.createdFilters) (hn : b'.nextFilter = b.nextFilter) :
    Created w b' where
  clients := by
    rw [hc, List.length_append, List.length_singleton, List.range'_concat, ← h.clients, h.nextPtr,
      Nat.one_mul]
  nextPtr := by rw [hc, hp, List.length_append, List.length_singleton, h.nextPtr, Nat.add_assoc]
  filters := by rw [hf]; exact h.filters
  nextFilter := by rw [hf, hn]; exact h.nextFilter

theorem newFilter {b' : Build} {f : Instance} (h : Created w b) (hid : f.id = b.nextFilter)
    (hc : b'.createdClients = b.createdClients) (hp : b'.nextPtr = b.nextPtr)
    (hf : b'.createdFilters = b.createdFilters ++ [f]) (hn : b'.nextFilter = b.nextFilter + 1) :
    Created w b' where
  clients := by rw [hc]; exact h.clients
  nextPtr := by rw [hc, hp]; exact h.nextPtr
  filters := by
    rw [hf, List.map_append, List.length_append, List.length_singleton, List.range'_concat,
      ← h.filters, Nat.one_mul, ← h.nextFilter, List.map_singleton, hid]
  nextFilter := by
    rw [hf, hn, List.length_append, List.length_singleton, h.nextFilter, Nat.add_assoc]

theorem dialService (h : Created w b) (m : Manager) (fac : Factories)
    (service : String × RedisServiceConfig) :
    Created w (outcome (dialService m fac b service)) := by
  unfold Policy.dialService
  dsimp only
  split
  · exact h.congr rfl rfl rfl rfl
  · split
    · exact h
    · exact h.newClient rfl rfl rfl rfl

theorem compileFilter (h : Created w b) (codec : YamlCodec) (m : Manager) (fac : Factories)
    (chainName : String) (position : FilterConfig × Nat) :
    Created w (outcome (compileFilter codec m fac chainName b position)) := by
  unfold Policy.compileFilter
  dsimp only
  split
  · exact h
  · split
    · exact h.congr rfl rfl rfl rfl
    · split
      · exact h
      · exact h.newFilter rfl rfl rfl rfl rfl

theorem compileChain (h : Created w b) (codec : YamlCodec) (m : Manager) (fac : Factories)
    (chain : String × List FilterConfig) :
    Created w (outcome (compileChain codec m fac b chain)) := by
  have hloop := runAll_always (Created w)
    (fun b position hb => hb.compileFilter codec m fac chain.1 position) chain.2.zipIdx
    { b with chain := [] } (h.congr rfl rfl rfl rfl)
  unfold Policy.compileChain
  dsimp only
  split
  · rename_i hrun
    rw [hrun] at hloop
    exact hloop
  · rename_i hrun
    rw [hrun] at hloop
    exact hloop.congr rfl rfl rfl rfl

end Created

/-- Wherever the build stops, its lists are what it allocated. -/
theorem build_created (codec : YamlCodec) (w : World) (fac : Factories) (cfg : Config) :
    Created w (outcome (build codec w fac cfg)) := by
  have hstart : Created w { nextPtr := w.nextPtr, nextFilter := w.nextFilter } :=
    ⟨rfl, rfl, rfl, rfl⟩
  have hredis := runAll_always (Created w)
    (fun b service hb => hb.dialService w.manager fac service) cfg.redis.toList _ hstart
  unfold build
  dsimp only
  split
  · rename_i hrun
    rw [hrun] at hredis
    exact hredis
  · rename_i hrun
    rw [hrun] at hredis
    exact runAll_always (Created w)
      (fun b chain hb => hb.compileChain codec w.manager fac chain) cfg.chains.toList _ hredis

section Closes

variable {w : World} {b : Build}

theorem Created.mem_clients (h : Created w b) {ptr : Nat} :
    ptr ∈ b.createdClients ↔ w.nextPtr ≤ ptr ∧ ptr < b.nextPtr := by
  rw [h.clients, List.mem_range'_1, h.nextPtr]

theorem Created.mem_filters (h : Created w b) {id : Nat} :
    (∃ f ∈ b.createdFilters, f.id = id) ↔ w.nextFilter ≤ id ∧ id < b.nextFilter := by
  have hmem : id ∈ b.createdFilters.map (·.id) ↔ ∃ f ∈ b.createdFilters, f.id = id :=
    List.mem_map
  rw [← hmem, h.filters, List.mem_range'_1, h.nextFilter]

/-- The closes of `abort`. -/
def aborts (b : Build) : List Resource :=
  closeFilters b.createdFilters ++ b.createdClients.map .client

theorem mem_closeFilters {fs : List Instance} {r : Resource} :
    r ∈ closeFilters fs ↔ ∃ f ∈ fs, f.closer ∧ r = .filter f.id := by
  unfold closeFilters
  constructor
  · intro h
    obtain ⟨f, hf, rfl⟩ := List.mem_map.mp h
    exact ⟨f, (List.mem_filter.mp hf).1, (List.mem_filter.mp hf).2, rfl⟩
  · rintro ⟨f, hf, hcloser, rfl⟩
    exact List.mem_map.mpr ⟨f, List.mem_filter.mpr ⟨hf, hcloser⟩, rfl⟩

/-- Instances with different numbers are closed once each. -/
theorem nodup_closeFilters {fs : List Instance} (h : (fs.map (·.id)).Nodup) :
    (closeFilters fs).Nodup := by
  have hsub : ((fs.filter (·.closer)).map (·.id)).Nodup :=
    h.sublist (List.filter_sublist.map _)
  have hmap : closeFilters fs = ((fs.filter (·.closer)).map (·.id)).map .filter := by
    rw [List.map_map]
    rfl
  rw [hmap]
  exact hsub.map fun _ _ => Resource.filter.inj

theorem Created.nodup_aborts (h : Created w b) : (aborts b).Nodup := by
  refine List.nodup_append'.mpr ⟨nodup_closeFilters ?_, ?_, ?_⟩
  · rw [h.filters]
    exact List.nodup_range' 1
  · rw [h.clients]
    exact (List.nodup_range' 1).map fun _ _ => Resource.client.inj
  · intro r hf hc
    obtain ⟨f, _, _, rfl⟩ := mem_closeFilters.mp hf
    exact absurd hc (by simp)

theorem Created.aborts_new (h : Created w b) {r : Resource} (hr : r ∈ aborts b) :
    ¬ w.allocated r := by
  rcases List.mem_append.mp hr with hr | hr
  · obtain ⟨f, hf, _, rfl⟩ := mem_closeFilters.mp hr
    exact Nat.not_lt.mpr (h.mem_filters.mp ⟨f, hf, rfl⟩).1
  · obtain ⟨ptr, hptr, rfl⟩ := List.mem_map.mp hr
    exact Nat.not_lt.mpr (h.mem_clients.mp hptr).1

theorem Created.client_mem_aborts (h : Created w b) {ptr : Nat} (h1 : w.nextPtr ≤ ptr)
    (h2 : ptr < b.nextPtr) : Resource.client ptr ∈ aborts b :=
  List.mem_append_right _ (List.mem_map_of_mem (h.mem_clients.mpr ⟨h1, h2⟩))

/-- Of the filters of this call, `abort` closes those that can be closed. -/
theorem Created.filter_mem_aborts (h : Created w b) {f : Instance} (hf : f ∈ b.createdFilters) :
    Resource.filter f.id ∈ aborts b ↔ f.closer = true := by
  have hinj : ∀ g ∈ b.createdFilters, g.id = f.id → g = f := fun g hg hid =>
    List.inj_on_of_nodup_map (by rw [h.filters]; exact List.nodup_range' 1) hg hf hid
  constructor
  · intro hmem
    rcases List.mem_append.mp hmem with hmem | hmem
    · obtain ⟨g, hg, hcloser, hid⟩ := mem_closeFilters.mp hmem
      obtain rfl := hinj g hg (Resource.filter.inj hid).symm
      exact hcloser
    · exact absurd hmem (by simp)
  · intro hcloser
    exact List.mem_append_left _ (mem_closeFilters.mpr ⟨f, hf, hcloser, rfl⟩)

end Closes

/-- A call that returns an error has aborted its build. -/
theorem apply_eq_abort {codec : YamlCodec} {w : World} {fac : Factories} {cfg : Config}
    {e : String} (h : (apply codec w fac cfg).err = some e) :
    ∃ b, build codec w fac cfg = .error (e, b) ∧ apply codec w fac cfg = abort w e b := by
  unfold apply at h ⊢
  cases hb : build codec w fac cfg with
  | ok b =>
    rw [hb] at h
    cases h
  | error eb =>
    obtain ⟨err, b⟩ := eb
    rw [hb] at h
    obtain rfl : err = e := Option.some.inj h
    exact ⟨b, rfl, rfl⟩

/-- A failed `Apply` leaves the registry, the manager's maps and the global
configuration as they were; it has closed every client it created and every
filter it created that has a `Close` method, once each; and it has closed nothing
that existed before. -/
theorem apply_error_rolls_back (codec : YamlCodec) (w : World) (fac : Factories) (cfg : Config)
    (e : String) (h : (apply codec w fac cfg).err = some e) :
    let r := apply codec w fac cfg
    (r.world.registry = w.registry ∧ r.world.manager = w.manager ∧
      r.world.globalConfig = w.globalConfig ∧ r.world.health = w.health) ∧
    (∀ ptr, r.world.allocated (.client ptr) → ¬ w.allocated (.client ptr) →
      r.closed.count (.client ptr) = 1) ∧
    (∀ id, r.world.allocated (.filter id) → ¬ w.allocated (.filter id) →
      ∃ f ∈ r.createdFilters, f.id = id ∧
        r.closed.count (.filter id) = if f.closer then 1 else 0) ∧
    (∀ res, w.allocated res → res ∉ r.closed) := by
  obtain ⟨b, hbuild, happly⟩ := apply_eq_abort h
  have hcreated : Created w b := by
    have := build_created codec w fac cfg
    rw [hbuild] at this
    exact this
  intro r
  have hr : r = abort w e b := happly
  rw [hr]
  refine ⟨⟨rfl, rfl, rfl, rfl⟩, ?_, ?_, ?_⟩
  · intro ptr hnew hold
    exact List.count_eq_one_of_mem hcreated.nodup_aborts
      (hcreated.client_mem_aborts (Nat.not_lt.mp hold) hnew)
  · intro id hnew hold
    obtain ⟨f, hf, rfl⟩ := hcreated.mem_filters.mpr ⟨Nat.not_lt.mp hold, hnew⟩
    refine ⟨f, hf, rfl, ?_⟩
    split
    · rename_i hcloser
      exact List.count_eq_one_of_mem hcreated.nodup_aborts
        ((hcreated.filter_mem_aborts hf).mpr hcloser)
    · rename_i hcloser
      exact List.count_eq_zero_of_not_mem fun hmem =>
        hcloser ((hcreated.filter_mem_aborts hf).mp hmem)
  · intro res hold hmem
    exact hcreated.aborts_new hmem hold

/-- A Redis service, a filter that compiles and a second one that does not. -/
def halfValid : Config where
  redis := AList.singleton "cache" {}
  chains := AList.singleton "main"
    [{ type := "jwt_auth", options := ∅ }, { type := "deny", options := ∅ }]

/-- Redis answers, `jwt_auth` compiles to an instance with a `Close` method, and
the constructor of `deny` fails. -/
def denyFails : Factories where
  dial _ _ _ := .ok ()
  filters := createFilterFactory sampleYaml
    { parse := fun _ _ => .ok ()
      construct := fun t _ => if t = .deny then .error "no status" else .ok (t = .jwtAuth) }

/-- The client and the filter built before the failure are closed again. -/
theorem apply_error_second_filter :
    (apply sampleYaml {} denyFails halfValid).err =
      some "chain \"main\" filter #1 (deny): no status" ∧
    (apply sampleYaml {} denyFails halfValid).closed.count (.client 0) = 1 :=
  have herr : (apply sampleYaml {} denyFails halfValid).err =
      some "chain \"main\" filter #1 (deny): no status" := by decide
  ⟨herr, (apply_error_rolls_back sampleYaml {} denyFails halfValid _ herr).2.1 0
    (by decide) (by decide)⟩

end Hypergate.Policy
