import Hypergate.Lib.Reclaim
import Hypergate.Policy.Serving

/-!
# When shared resources are closed

The closes of the manager are an instance of deferred reclamation
(`Lib.Reclaim`): a reload retires what it drops together with the snapshot it
replaces (`Retires`), and the last stream of that snapshot closes it
(`Reclaims`). What the scheme needs is that no *other* snapshot in use needs what
is dropped, and `Apply` does not see to that: a filter that two snapshots share is
closed when the younger one is done, though a stream may still hold the older.
-/

namespace Hypergate.Policy

open Lib Engine

/-! ## The manager as a reclamation scheme -/

/-- The manager owns the resource. -/
def Manager.owns (m : Manager) : Resource → Prop
  | .filter id => ∃ key f, m.filters.lookup key = some f ∧ f.id = id
  | .client ptr => ∃ name e, m.redis.lookup name = some e ∧ e.ptr = ptr

/-- What the cleanup of a snapshot will close, unless it has run. -/
def awaited (x : Snapshot (Option Published) Cleanup) : List Resource :=
  if x.cleaned then [] else x.cleanup.elim [] Cleanup.run

/-- No `Swap` has replaced the snapshot yet. -/
def Unreplaced (x : Snapshot (Option Published) Cleanup) : Prop :=
  x.cleaned = false ∧ x.retired = false

/-- Where every resource is. -/
def Serving.view (σ : Serving) : Reclaim Resource Nat where
  known := σ.world.allocated
  live := σ.world.manager.owns
  waiting s := awaited (σ.world.registry.heap s)
  closed := σ.closed
  needs := σ.world.needs
  inUse := σ.world.inUse

/-- The state of a run that meets the condition. -/
structure Serving.Inv (codec : YamlCodec) (σ : Serving) : Prop where
  wf : σ.world.WF
  keyed : ∀ {key : String} {f : Instance}, σ.world.manager.filters.lookup key = some f →
    ∃ fc, filterKey codec fc σ.world.manager.redis = .ok key
  bound : ∀ {key : String} {f : Instance} {ptr : Nat},
    σ.world.manager.filters.lookup key = some f → f.client = some ptr →
    σ.world.manager.owns (.client ptr)
  inUse_lt : ∀ s, σ.world.inUse s → s < σ.world.registry.fresh
  current_open : Unreplaced (σ.world.registry.heap σ.world.registry.current)
  sound : σ.view.Sound

theorem Serving.Inv.current_lt {codec : YamlCodec} {σ : Serving} (h : σ.Inv codec) :
    σ.world.registry.current < σ.world.registry.fresh :=
  h.inUse_lt _ (.inl rfl)

section Registry

/-- The same state with another registry. -/
def Serving.withRegistry (σ : Serving) (r : ChainRegistry (Option Published) Cleanup) : Serving :=
  { σ with world := { σ.world with registry := r } }

/-- A change of the counters that gives no snapshot its first user. -/
theorem leaves_of_modify (σ : Serving) (s : Nat)
    (f : Snapshot (Option Published) Cleanup → Snapshot (Option Published) Cleanup)
    (hpolicy : ∀ x, (f x).policy = x.policy) (hawaited : ∀ x, awaited (f x) = awaited x)
    (huse : 0 < (f (σ.world.registry.heap s)).refs → σ.world.inUse s) :
    Reclaim.Leaves σ.view (σ.withRegistry (σ.world.registry.modify s f)).view where
  known := rfl
  live := rfl
  waiting := by
    funext s'
    show awaited ((σ.world.registry.modify s f).heap s') = awaited (σ.world.registry.heap s')
    rw [ChainRegistry.modify_heap]
    split
    · exact hawaited _
    · rfl
  closed := rfl
  needs := by
    funext s' r
    show (∃ p, ((σ.world.registry.modify s f).heap s').policy = some p ∧ p.uses r) = _
    rw [ChainRegistry.modify_policy _ _ _ _ hpolicy]
    rfl
  inUse := by
    intro s' h
    rcases h with h | h
    · exact .inl h
    · change 0 < ((σ.world.registry.modify s f).heap s').refs at h
      rw [ChainRegistry.modify_heap] at h
      split at h
      · rename_i heq
        subst heq
        exact huse h
      · exact .inr h

/-- Running the cleanup of a snapshot that nobody uses. -/
theorem reclaims_of_runCleanup (σ : Serving) (s : Nat)
    (hrefs : (σ.world.registry.heap s).refs = 0) (hne : s ≠ σ.world.registry.current) :
    Reclaim.Reclaims σ.view
      { σ.withRegistry (σ.world.registry.runCleanup s).1 with
        closed := σ.closed ++ (σ.world.registry.runCleanup s).2.flatMap Cleanup.run }.view s := by
  have hheap := ChainRegistry.runCleanup_heap σ.world.registry s
  refine ⟨rfl, rfl, ?_, ?_, ?_, ?_, ?_⟩
  · show awaited ((σ.world.registry.runCleanup s).1.heap s) = []
    rw [hheap, if_pos rfl]
    rfl
  · intro s' hs'
    show awaited ((σ.world.registry.runCleanup s).1.heap s') = awaited (σ.world.registry.heap s')
    rw [hheap, if_neg hs']
  · show σ.closed ++ _ = σ.closed ++ awaited (σ.world.registry.heap s)
    congr 1
    unfold ChainRegistry.runCleanup awaited
    split
    · rfl
    · cases (σ.world.registry.heap s).cleanup with
      | none => rfl
      | some c => simp
  · funext s' r
    show (∃ p, ((σ.world.registry.runCleanup s).1.heap s').policy = some p ∧ p.uses r) = _
    rw [ChainRegistry.runCleanup_policy]
    rfl
  · intro s' h
    rcases h with h | h
    · have h : s' = σ.world.registry.current :=
        h.trans (ChainRegistry.runCleanup_current _ _)
      exact ⟨.inl h, fun heq => hne (heq.symm.trans h)⟩
    · have h : 0 < ((σ.world.registry.runCleanup s).1.heap s').refs := h
      rw [hheap] at h
      split at h
      · rename_i heq
        rw [heq, hrefs] at h
        cases h
      · exact ⟨.inr h, ‹_›⟩

end Registry

/-! ## Streams -/

section Streams

variable {codec : YamlCodec} {σ : Serving}

/-- Changing a counter keeps the invariant if no snapshot gains its first user. -/
theorem Serving.Inv.count (h : σ.Inv codec) (s : Nat) (n : Int)
    (huse : 0 < n → σ.world.inUse s) :
    (σ.withRegistry (σ.world.registry.modify s fun x => { x with refs := n })).Inv codec := by
  have hleaves := leaves_of_modify σ s (fun x => { x with refs := n }) (fun _ => rfl)
    (fun _ => rfl) huse
  refine ⟨⟨h.wf.redis, h.wf.filters⟩, h.keyed, h.bound,
    fun s' hs' => h.inUse_lt s' (hleaves.inUse s' hs'), ?_, h.sound.leaves hleaves⟩
  show Unreplaced ((σ.world.registry.modify s fun x => { x with refs := n }).heap
      σ.world.registry.current)
  rw [ChainRegistry.modify_heap]
  split
  · exact h.current_open
  · exact h.current_open

theorem modify_refs (r : ChainRegistry (Option Published) Cleanup) (s : Nat) (g : Int → Int) :
    (r.modify s fun x => { x with refs := g x.refs }) =
      r.modify s fun x => { x with refs := g (r.heap s).refs } :=
  rfl

theorem Serving.Inv.acquire (h : σ.Inv codec) :
    (σ.withRegistry σ.world.registry.acquire.1).Inv codec := by
  unfold ChainRegistry.acquire
  rw [modify_refs _ _ (· + 1)]
  exact h.count _ _ fun _ => .inl rfl

theorem Serving.Inv.runCleanup (h : σ.Inv codec) {s : Nat}
    (hrefs : (σ.world.registry.heap s).refs = 0) (hne : s ≠ σ.world.registry.current) :
    Serving.Inv codec
      { σ.withRegistry (σ.world.registry.runCleanup s).1 with
        closed := σ.closed ++ (σ.world.registry.runCleanup s).2.flatMap Cleanup.run } := by
  have hreclaims := reclaims_of_runCleanup σ s hrefs hne
  have hcurrent := ChainRegistry.runCleanup_current σ.world.registry s
  refine ⟨⟨h.wf.redis, h.wf.filters⟩, h.keyed, h.bound, ?_, ?_, h.sound.reclaims hreclaims⟩
  · intro s' hs'
    show s' < (σ.world.registry.runCleanup s).1.fresh
    rw [ChainRegistry.runCleanup_fresh]
    exact h.inUse_lt s' (hreclaims.inUse s' hs').1
  · show Unreplaced ((σ.world.registry.runCleanup s).1.heap
      (σ.world.registry.runCleanup s).1.current)
    rw [hcurrent, ChainRegistry.runCleanup_heap, if_neg (Ne.symm hne)]
    exact h.current_open

/-- A stream ends; the last one of a retired snapshot cleans up. -/
theorem Serving.Inv.release (h : σ.Inv codec) {s : Nat}
    (hheld : 0 < (σ.world.registry.heap s).refs) :
    Serving.Inv codec
      { σ.withRegistry (σ.world.registry.release s).1 with
        closed := σ.closed ++ (σ.world.registry.release s).2.flatMap Cleanup.run } := by
  have hcount : (σ.withRegistry (σ.world.registry.modify s
      fun x => { x with refs := x.refs - 1 })).Inv codec := by
    rw [modify_refs _ _ (· - 1)]
    exact h.count _ _ fun _ => .inr hheld
  unfold ChainRegistry.release
  dsimp only
  split
  · rename_i hlast
    -- a retired snapshot is not the current one
    refine hcount.runCleanup hlast.1 fun heq => ?_
    have hopen := hcount.current_open.2
    rw [← heq] at hopen
    exact absurd (hlast.2.symm.trans hopen) (by simp)
  · have hnil : σ.closed ++ ([] : List Cleanup).flatMap Cleanup.run = σ.closed := by simp
    rw [hnil]
    exact hcount

end Streams

/-! ## Reloads -/

section Reload

variable {codec : YamlCodec} {σ : Serving} {fac : Factories} {cfg : Config} {b : Build}

/-- A failed reload closes what it created and nothing else. -/
theorem Serving.Inv.abort (h : σ.Inv codec) (hc : Created σ.world b) (err : String) :
    Serving.Inv codec
      { world := (Policy.abort σ.world err b).world
        closed := σ.closed ++ (Policy.abort σ.world err b).closed } := by
  have hptr : σ.world.nextPtr ≤ b.nextPtr := Nat.le.intro hc.nextPtr.symm
  have hfilter : σ.world.nextFilter ≤ b.nextFilter := Nat.le.intro hc.nextFilter.symm
  refine ⟨⟨h.wf.redis.mono hptr, h.wf.filters.mono hfilter⟩, h.keyed, h.bound, h.inUse_lt,
    h.current_open, ?_⟩
  have hdiscards : Reclaim.Discards σ.view (Serving.view
      { world := (Policy.abort σ.world err b).world
        closed := σ.closed ++ (Policy.abort σ.world err b).closed }) (aborts b) := by
    refine ⟨?_, rfl, rfl, rfl, rfl, rfl, hc.nodup_aborts, ?_⟩
    · intro r hr
      cases r with
      | filter id => exact Nat.lt_of_lt_of_le hr hfilter
      | client ptr => exact Nat.lt_of_lt_of_le hr hptr
    · intro r hr
      refine ⟨hc.aborts_new hr, ?_⟩
      rcases List.mem_append.mp hr with hr | hr
      · obtain ⟨f, hf, _, rfl⟩ := mem_closeFilters.mp hr
        exact (hc.mem_filters.mp ⟨f, hf, rfl⟩).2
      · obtain ⟨ptr, hptr, rfl⟩ := List.mem_map.mp hr
        exact (hc.mem_clients.mp hptr).2
  exact h.sound.discards hdiscards

/-- The manager after a successful reload. -/
def Build.manager (b : Build) (m : Manager) : Manager :=
  { m with redis := b.nextRedis, filters := b.nextFilters, ready := true }

variable {r : Resource}

/-- What the new policy owns was owned before or is new. -/
theorem BuildOk.owns (hb : BuildOk codec σ.world fac cfg b)
    (hr : (b.manager σ.world.manager).owns r) :
    σ.world.manager.owns r ∨ ¬ σ.world.allocated r := by
  cases r with
  | filter id =>
    obtain ⟨key, f, hf, rfl⟩ := hr
    obtain ⟨_, _, _, hold | ⟨_, hnew, _⟩⟩ := hb.filters.origin hf
    · exact .inl ⟨key, f, hold, rfl⟩
    · exact .inr (Nat.not_lt.mpr hnew)
  | client ptr =>
    obtain ⟨name, e, he, rfl⟩ := hr
    rcases (hb.redis.origin he).2 with hold | hnew
    · exact .inl ⟨name, e, hold, rfl⟩
    · exact .inr (Nat.not_lt.mpr hnew)

/-- The build leaves out exactly the filters the configuration drops. -/
theorem Serving.Inv.filterDropped_iff (h : σ.Inv codec) (hb : BuildOk codec σ.world fac cfg b)
    {key : String} {f : Instance} (hf : σ.world.manager.filters.lookup key = some f) :
    FilterDropped codec σ.world.manager cfg key ↔ b.nextFilters.lookup key = none := by
  constructor
  · intro hdropped
    cases hnext : b.nextFilters.lookup key with
    | none => rfl
    | some f' =>
      obtain ⟨fc, hfc, hkey, _⟩ := hb.filters.origin hnext
      obtain ⟨fc₀, hkey₀⟩ := h.keyed hf
      exact absurd (reuseKey_of_known h.wf hb.redis hkey₀ hkey) (hdropped fc hfc)
  · intro hnone fc hfc hreuse
    have hkey := filterKey_of_reuseKey hb.redis hreuse
    obtain ⟨key', f', hkey', hf'⟩ := hb.filters.present hfc
    obtain rfl : key = key' := Except.ok.inj (hkey.symm.trans hkey')
    exact absurd (hnone.symm.trans hf') (by simp)

/-- It replaces exactly the entries of the services the configuration drops. -/
theorem BuildOk.serviceDropped_iff (hb : BuildOk codec σ.world fac cfg b) (hw : σ.world.WF)
    {name : String} {e : RedisEntry} (he : σ.world.manager.redis.lookup name = some e) :
    ServiceDropped cfg name e ↔ (b.nextRedis.lookup name).map (·.ptr) ≠ some e.ptr := by
  constructor
  · intro hdropped heq
    obtain ⟨e', he', hptr⟩ := Option.map_eq_some_iff.mp heq
    obtain ⟨hcfg, hold | hnew⟩ := hb.redis.origin he'
    · obtain rfl := Option.some.inj (he.symm.trans hold)
      exact hdropped (AMap.mem_toList.mp hcfg)
    · exact absurd (hptr ▸ hw.redis.lt he) (Nat.not_lt.mpr hnew)
  · intro hne hcfg
    refine hne ?_
    rw [hb.redis.kept he (AMap.mem_toList.mpr hcfg)]
    rfl

/-- The new policy owns the client of each of its filters. -/
theorem Serving.Inv.next_bound (h : σ.Inv codec) (hb : BuildOk codec σ.world fac cfg b)
    (hdrops : DropsSafely codec σ.world cfg) {key : String} {f : Instance} {ptr : Nat}
    (hf : b.nextFilters.lookup key = some f) (hclient : f.client = some ptr) :
    (b.manager σ.world.manager).owns (.client ptr) := by
  obtain ⟨fc, hfc, hkey, hold | ⟨_, _, hmade⟩⟩ := hb.filters.origin hf
  · -- a kept filter: its client is owned, and not dropped because the filter is not
    obtain ⟨name, e, he, rfl⟩ := h.bound hold hclient
    refine ⟨name, e, hb.redis.kept he (AMap.mem_toList.mpr ?_), rfl⟩
    by_contra hcfg
    have hdropped := hdrops.clients_unbound key f name e hold he hclient hcfg
    rw [h.filterDropped_iff hb hold] at hdropped
    exact absurd (hdropped.symm.trans hf) (by simp)
  · obtain ⟨compiled, hcreate, hc⟩ := hmade
    obtain ⟨service, hfind⟩ := fac.filters.bound hcreate (hc ▸ hclient)
    obtain ⟨e, he, rfl⟩ := Option.map_eq_some_iff.mp hfind
    exact ⟨service, e, he, rfl⟩

/-! ### What waits for the replaced snapshot -/

/-- The cleanup `Apply` installs. -/
def Build.cleanup (b : Build) (m : Manager) : Cleanup where
  retiredFilters := retiredFilters m b.nextFilters
  retiredRedis := retiredRedis m b.nextRedis

theorem mem_cleanup {m : Manager} :
    r ∈ (b.cleanup m).run ↔
      (∃ key f, m.filters.lookup key = some f ∧ b.nextFilters.lookup key = none ∧
        f.closer = true ∧ r = .filter f.id) ∨
      (∃ name e, m.redis.lookup name = some e ∧
        (b.nextRedis.lookup name).map (·.ptr) ≠ some e.ptr ∧ r = .client e.ptr) := by
  unfold Cleanup.run
  rw [List.mem_append, mem_closeFilters, List.mem_map]
  refine or_congr ?_ ?_
  · constructor
    · rintro ⟨f, hf, hcloser, rfl⟩
      obtain ⟨key, hlook, hnone⟩ := mem_retiredFilters.mp hf
      exact ⟨key, f, hlook, hnone, hcloser, rfl⟩
    · rintro ⟨key, f, hlook, hnone, hcloser, rfl⟩
      exact ⟨f, mem_retiredFilters.mpr ⟨key, hlook, hnone⟩, hcloser, rfl⟩
  · constructor
    · rintro ⟨e, he, rfl⟩
      obtain ⟨name, hlook, hne⟩ := mem_retiredRedis.mp he
      exact ⟨name, e, hlook, hne, rfl⟩
    · rintro ⟨name, e, hlook, hne, rfl⟩
      exact ⟨e, mem_retiredRedis.mpr ⟨name, hlook, hne⟩, rfl⟩

/-- A resource of the cleanup was owned and is not owned any more. -/
theorem BuildOk.retired (hb : BuildOk codec σ.world fac cfg b) (hw : σ.world.WF)
    (hr : r ∈ (b.cleanup σ.world.manager).run) :
    σ.world.manager.owns r ∧ ¬ (b.manager σ.world.manager).owns r := by
  rcases mem_cleanup.mp hr with ⟨key, f, hlook, hnone, _, rfl⟩ | ⟨name, e, hlook, hne, rfl⟩
  · refine ⟨⟨key, f, hlook, rfl⟩, ?_⟩
    rintro ⟨key', f', hf', hid⟩
    obtain ⟨_, _, _, hold | ⟨_, hnew, _⟩⟩ := hb.filters.origin hf'
    · obtain rfl := hw.filters.inj hold hlook hid
      exact absurd (hnone.symm.trans hf') (by simp)
    · exact absurd (hid ▸ hw.filters.lt hlook) (Nat.not_lt.mpr hnew)
  · refine ⟨⟨name, e, hlook, rfl⟩, ?_⟩
    rintro ⟨name', e', he', hptr⟩
    rcases (hb.redis.origin he').2 with hold | hnew
    · obtain rfl := hw.redis.inj hold hlook hptr
      have hkept : b.nextRedis.lookup name' = some e' := he'
      exact hne (by rw [hkept, ← hptr]; rfl)
    · exact absurd (hptr ▸ hw.redis.lt hlook) (Nat.not_lt.mpr hnew)

theorem nodup_cleanup (hw : σ.world.WF) : ((b.cleanup σ.world.manager).run).Nodup := by
  refine List.nodup_append'.mpr ⟨nodup_closeFilters ?_, ?_, ?_⟩
  · show ((retiredFilters σ.world.manager b.nextFilters).map (·.id)).Nodup
    unfold retiredFilters
    rw [List.map_map]
    exact hw.filters.nodup.sublist (List.filter_sublist.map _)
  · show ((retiredRedis σ.world.manager b.nextRedis).map fun e => Resource.client e.ptr).Nodup
    have hptrs : ((retiredRedis σ.world.manager b.nextRedis).map (·.ptr)).Nodup := by
      unfold retiredRedis
      rw [List.map_map]
      exact hw.redis.nodup.sublist (List.filter_sublist.map _)
    have hmap := hptrs.map fun _ _ => Resource.client.inj
    rw [List.map_map] at hmap
    exact hmap
  · intro r hf hc
    obtain ⟨f, _, _, rfl⟩ := mem_closeFilters.mp hf
    exact absurd hc (by simp)

/-- A resource the new policy uses is owned by the new manager. -/
theorem Serving.Inv.next_owned (h : σ.Inv codec) (hb : BuildOk codec σ.world fac cfg b)
    (hdrops : DropsSafely codec σ.world cfg)
    (hr : Published.uses { config := cfg, chains := b.chains } r) :
    (b.manager σ.world.manager).owns r := by
  -- the filter of a position is in the new map
  have hslot : ∀ {name : String} {chain : List Slot}, b.chains.lookup name = some chain →
      ∀ slot ∈ chain, ∃ key, b.nextFilters.lookup key = some slot.filter := by
    intro name chain hchain slot hmem
    obtain ⟨fcs, _, haligned⟩ := hb.chains.origin hchain
    obtain ⟨fc, _, ⟨key, _, hlook, _⟩, _⟩ := forall₂_both haligned.flip haligned.flip slot hmem
    exact ⟨key, hlook⟩
  cases r with
  | filter id =>
    obtain ⟨name, chain, hchain, slot, hmem, rfl⟩ := hr
    obtain ⟨key, hkey⟩ := hslot hchain slot hmem
    exact ⟨key, slot.filter, hkey, rfl⟩
  | client ptr =>
    obtain ⟨name, chain, hchain, slot, hmem, hclient⟩ := hr
    obtain ⟨key, hkey⟩ := hslot hchain slot hmem
    exact h.next_bound hb hdrops hkey hclient

/-! ### The swap -/

/-- The registry between the two halves of `Swap`: the new snapshot is current
and the old one retired, but its cleanup has not been considered. -/
def replaced (r : ChainRegistry (Option Published) Cleanup) (p : Published) (c : Cleanup) :
    ChainRegistry (Option Published) Cleanup :=
  (r.install (some p)).modify r.current fun x => { x with cleanup := some c, retired := true }

theorem replaced_heap {r : ChainRegistry (Option Published) Cleanup} (hlt : r.current < r.fresh)
    (p : Published) (c : Cleanup) (s : Nat) :
    (replaced r p c).heap s =
      if s = r.current then { r.heap s with cleanup := some c, retired := true }
      else if s = r.fresh then { policy := some p } else r.heap s := by
  unfold replaced
  rw [ChainRegistry.modify_heap]
  by_cases hs : s = r.current
  · rw [if_pos hs, if_pos hs]
    show ({ Function.update r.heap r.fresh _ s with cleanup := some c, retired := true } :
      Snapshot _ _) = _
    rw [Function.update_of_ne (by omega)]
  · rw [if_neg hs, if_neg hs]
    exact Function.update_apply ..

/-- The state between the two halves of `Swap`. -/
def Serving.replaced (σ : Serving) (cfg : Config) (b : Build) : Serving where
  world :=
    { (publish σ.world cfg b).world with
      registry := Policy.replaced σ.world.registry { config := cfg, chains := b.chains }
        (b.cleanup σ.world.manager) }
  closed := σ.closed

/-- The state after a successful reload. -/
def Serving.reloaded (σ : Serving) (cfg : Config) (b : Build) : Serving where
  world := (publish σ.world cfg b).world
  closed := σ.closed ++ (publish σ.world cfg b).closed

/-- The second half of `Swap` runs the cleanup if nobody holds the old snapshot. -/
theorem Serving.reloaded_eq (σ : Serving) (cfg : Config) (b : Build) :
    σ.reloaded cfg b =
      if ((σ.replaced cfg b).world.registry.heap σ.world.registry.current).refs = 0 then
        { (σ.replaced cfg b).withRegistry
            ((σ.replaced cfg b).world.registry.runCleanup σ.world.registry.current).1 with
          closed := σ.closed ++ ((σ.replaced cfg b).world.registry.runCleanup
            σ.world.registry.current).2.flatMap Cleanup.run }
      else σ.replaced cfg b := by
  have hswap : σ.world.registry.swap (some { config := cfg, chains := b.chains })
      (some (b.cleanup σ.world.manager)) =
        if ((σ.replaced cfg b).world.registry.heap σ.world.registry.current).refs = 0 then
          (σ.replaced cfg b).world.registry.runCleanup σ.world.registry.current
        else ((σ.replaced cfg b).world.registry, []) := rfl
  have hdef : σ.reloaded cfg b =
      { (σ.replaced cfg b).withRegistry (σ.world.registry.swap
          (some { config := cfg, chains := b.chains }) (some (b.cleanup σ.world.manager))).1 with
        closed := σ.closed ++ (σ.world.registry.swap (some { config := cfg, chains := b.chains })
          (some (b.cleanup σ.world.manager))).2.flatMap Cleanup.run } := rfl
  rw [hdef, hswap]
  split
  · rfl
  · simp only [List.flatMap_nil, List.append_nil]
    rfl

/-- The old snapshots keep their policies and their users. -/
theorem Serving.Inv.replaced_old (h : σ.Inv codec) {s : Nat} (hs : s ≠ σ.world.registry.fresh) :
    (σ.replaced cfg b).world.needs s = σ.world.needs s ∧
      ((σ.replaced cfg b).world.registry.heap s).refs = (σ.world.registry.heap s).refs := by
  have hheap := replaced_heap h.current_lt { config := cfg, chains := b.chains }
    (b.cleanup σ.world.manager) s
  rw [if_neg hs] at hheap
  have hpolicy : ((σ.replaced cfg b).world.registry.heap s).policy =
      (σ.world.registry.heap s).policy := by
    show ((Policy.replaced _ _ _).heap s).policy = _
    rw [hheap]
    split <;> rfl
  refine ⟨?_, ?_⟩
  · funext r
    unfold World.needs
    rw [hpolicy]
  · show ((Policy.replaced _ _ _).heap s).refs = _
    rw [hheap]
    split <;> rfl

theorem Serving.Inv.replaced_new (h : σ.Inv codec) (r : Resource) :
    (σ.replaced cfg b).world.needs σ.world.registry.fresh r ↔
      Published.uses { config := cfg, chains := b.chains } r := by
  have hheap := replaced_heap h.current_lt { config := cfg, chains := b.chains }
    (b.cleanup σ.world.manager) σ.world.registry.fresh
  rw [if_neg (Nat.ne_of_gt h.current_lt), if_pos rfl] at hheap
  constructor
  · rintro ⟨p, hp, huses⟩
    change ((Policy.replaced _ _ _).heap σ.world.registry.fresh).policy = some p at hp
    rw [hheap] at hp
    exact Option.some.inj hp ▸ huses
  · intro huses
    refine ⟨_, ?_, huses⟩
    show ((Policy.replaced _ _ _).heap σ.world.registry.fresh).policy = _
    rw [hheap]

/-- The retired resources wait for the old current snapshot. -/
theorem Serving.Inv.replaced_waits (h : σ.Inv codec) :
    (σ.replaced cfg b).view.waiting σ.world.registry.current =
      (b.cleanup σ.world.manager).run := by
  show awaited ((Policy.replaced _ _ _).heap σ.world.registry.current) = _
  rw [replaced_heap h.current_lt, if_pos rfl]
  show (if (σ.world.registry.heap σ.world.registry.current).cleaned = true then [] else _) = _
  rw [h.current_open.1]
  rfl

/-- A reload is a retirement: what the configuration drops waits for the
snapshot it replaces. -/
theorem Serving.Inv.retires (h : σ.Inv codec) (hb : BuildOk codec σ.world fac cfg b)
    (hdrops : DropsSafely codec σ.world cfg) :
    Reclaim.Retires σ.view (σ.replaced cfg b).view σ.world.registry.current
      σ.world.registry.fresh (b.cleanup σ.world.manager).run := by
  refine ⟨?_, ?_, h.replaced_waits, ?_, rfl, fun s hs => (h.replaced_old hs).1, ?_, ?_,
    nodup_cleanup h.wf, fun r hr => hb.retired h.wf hr, ?_⟩
  · intro r hr
    cases r with
    | filter id => exact Nat.lt_of_lt_of_le hr hb.filters.grown
    | client ptr => exact Nat.lt_of_lt_of_le hr hb.redis.grown
  · intro r hr
    refine (hb.owns hr).imp_right fun hnew => ⟨hnew, ?_⟩
    cases r with
    | filter id =>
      obtain ⟨key, f, hf, rfl⟩ := hr
      exact hb.filters.numbered.lt hf
    | client ptr =>
      obtain ⟨name, e, he, rfl⟩ := hr
      exact hb.redis.numbered.lt he
  · intro s hs
    show awaited ((Policy.replaced _ _ _).heap s) = _ ∨ awaited ((Policy.replaced _ _ _).heap s) = _
    rw [replaced_heap h.current_lt, if_neg hs]
    split
    · exact .inr rfl
    · exact .inl rfl
  · intro s hs
    by_cases hnew : s = σ.world.registry.fresh
    · exact .inl hnew
    · rcases hs with hs | hs
      · exact absurd hs hnew
      · exact .inr (.inr ((h.replaced_old hnew).2 ▸ hs))
  · exact fun r hr => h.next_owned hb hdrops ((h.replaced_new r).mp hr)
  · intro r hr s hs hneeds
    by_contra hold
    have hheld := hs.resolve_left hold
    rcases mem_cleanup.mp hr with ⟨key, f, hlook, hnone, hcloser, rfl⟩ | ⟨name, e, hlook, hne, rfl⟩
    · exact hdrops.filters_unheld key f hlook hcloser ((h.filterDropped_iff hb hlook).mpr hnone)
        s hold hheld hneeds
    · exact hdrops.clients_unheld name e hlook ((hb.serviceDropped_iff h.wf hlook).mpr hne)
        s hold hheld hneeds

/-- The state between the halves of `Swap` meets the invariant. -/
theorem Serving.Inv.replaced (h : σ.Inv codec) (hb : BuildOk codec σ.world fac cfg b)
    (hdrops : DropsSafely codec σ.world cfg) : (σ.replaced cfg b).Inv codec where
  wf := ⟨hb.redis.numbered, hb.filters.numbered⟩
  keyed := by
    intro key f hf
    obtain ⟨fc, _, hkey, _⟩ := hb.filters.origin hf
    exact ⟨fc, hkey⟩
  bound := fun hf hclient => h.next_bound hb hdrops hf hclient
  inUse_lt := by
    intro s hs
    rcases (h.retires hb hdrops).inUse s hs with rfl | hs
    · exact Nat.lt_succ_self _
    · exact Nat.lt_succ_of_lt (h.inUse_lt s hs)
  current_open := by
    show Unreplaced ((Policy.replaced _ _ _).heap σ.world.registry.fresh)
    rw [replaced_heap h.current_lt, if_neg (Nat.ne_of_gt h.current_lt), if_pos rfl]
    exact ⟨rfl, rfl⟩
  sound := h.sound.retires (h.retires hb hdrops)

theorem Serving.Inv.reloaded (h : σ.Inv codec) (hb : BuildOk codec σ.world fac cfg b)
    (hdrops : DropsSafely codec σ.world cfg) : (σ.reloaded cfg b).Inv codec := by
  have hmid := h.replaced hb hdrops
  rw [Serving.reloaded_eq]
  split
  · exact hmid.runCleanup ‹_› (Nat.ne_of_lt h.current_lt)
  · exact hmid

/-! ### The condition is exact -/

/-- If no stream holds the current snapshot, the cleanup runs inside `Swap`. -/
theorem Serving.Inv.reloaded_idle (h : σ.Inv codec) (cfg : Config) (b : Build)
    (hidle : (σ.world.registry.heap σ.world.registry.current).refs = 0) :
    Reclaim.Reclaims (σ.replaced cfg b).view (σ.reloaded cfg b).view σ.world.registry.current ∧
    ∀ s, s ≠ σ.world.registry.current → (σ.replaced cfg b).world.inUse s →
      (σ.reloaded cfg b).world.inUse s := by
  have hne : σ.world.registry.current ≠ σ.world.registry.fresh := Nat.ne_of_lt h.current_lt
  have hrefs : ((σ.replaced cfg b).world.registry.heap σ.world.registry.current).refs = 0 :=
    (h.replaced_old hne).2.trans hidle
  rw [Serving.reloaded_eq, if_pos hrefs]
  refine ⟨reclaims_of_runCleanup (σ.replaced cfg b) _ hrefs hne, fun s hs huse => ?_⟩
  rcases huse with huse | huse
  · exact .inl (huse.trans (ChainRegistry.runCleanup_current _ _).symm)
  · refine .inr ?_
    show 0 < ((ChainRegistry.runCleanup _ _).1.heap s).refs
    rw [ChainRegistry.runCleanup_heap, if_neg hs]
    exact huse

/-- A reload without streams on the current snapshot is safe only if it drops
safely. -/
theorem Serving.Inv.dropsSafely_of_idle (h : σ.Inv codec) (hb : BuildOk codec σ.world fac cfg b)
    (hidle : (σ.world.registry.heap σ.world.registry.current).refs = 0)
    (hsafe : (σ.reloaded cfg b).ClosesSafely) : DropsSafely codec σ.world cfg := by
  obtain ⟨hreclaims, huse⟩ := h.reloaded_idle cfg b hidle
  -- a retired resource is closed now, so no snapshot in use needs it
  have hunused : ∀ r ∈ (b.cleanup σ.world.manager).run, ∀ s, s ≠ σ.world.registry.current →
      (σ.replaced cfg b).world.inUse s → ¬ (σ.replaced cfg b).world.needs s r := by
    intro r hr s hs hin hneeds
    rw [← h.replaced_waits] at hr
    have hsame : (σ.reloaded cfg b).world.needs = (σ.replaced cfg b).world.needs :=
      hreclaims.needs
    exact hsafe.2 r (hreclaims.mem_closed.mpr (.inr hr)) s (huse s hs hin) (hsame ▸ hneeds)
  have hheld : ∀ r ∈ (b.cleanup σ.world.manager).run, ∀ s, s ≠ σ.world.registry.current →
      0 < (σ.world.registry.heap s).refs → ¬ σ.world.needs s r := by
    intro r hr s hs hheld hneeds
    obtain ⟨hsame, hrefs⟩ := h.replaced_old (Nat.ne_of_lt (h.inUse_lt s (.inr hheld)))
    exact hunused r hr s hs (.inr (hrefs ▸ hheld)) (hsame ▸ hneeds)
  refine ⟨?_, ?_, ?_⟩
  · intro key f hf hcloser hdropped
    exact hheld _ (mem_cleanup.mpr (.inl
      ⟨key, f, hf, (h.filterDropped_iff hb hf).mp hdropped, hcloser, rfl⟩))
  · intro name e he hdropped
    exact hheld _ (mem_cleanup.mpr (.inr
      ⟨name, e, he, (hb.serviceDropped_iff h.wf he).mp hdropped, rfl⟩))
  · intro key f name e hf he hclient hdropped
    rw [h.filterDropped_iff hb hf, Option.eq_none_iff_forall_ne_some]
    intro f' hf'
    -- a kept filter is at some position of the new chains
    obtain ⟨fc, hfc, hkey, hold | ⟨hnone, _⟩⟩ := hb.filters.origin hf'
    · obtain rfl := Option.some.inj (hf.symm.trans hold)
      obtain ⟨chainName, chain, hchain, slot, hslot, key', hkey', hlook, _⟩ := hb.position hfc
      obtain rfl : key = key' := Except.ok.inj (hkey.symm.trans hkey')
      have hfilter := Option.some.inj (hf'.symm.trans hlook)
      refine hunused (.client e.ptr) (mem_cleanup.mpr (.inr
        ⟨name, e, he, (hb.serviceDropped_iff h.wf he).mp hdropped, rfl⟩))
        σ.world.registry.fresh (Nat.ne_of_gt h.current_lt) (.inl rfl) ?_
      exact (h.replaced_new _).mpr ⟨chainName, chain, hchain, slot, hslot, hfilter ▸ hclient⟩
    · exact absurd (hnone.symm.trans hf) (by simp)

end Reload

/-! ## Every run -/

/-- The condition on a run: every successful reload drops safely. -/
def SafeDrops (codec : YamlCodec) (σ : Serving) : ServingEvent → Prop
  | .apply factories config => (apply codec σ.world factories config).err = none →
      DropsSafely codec σ.world config
  | _ => True

theorem serving_inv (codec : YamlCodec) :
    (servingSys codec).Inductive (SafeDrops codec) (Serving.Inv codec) where
  init := by
    rintro σ rfl
    refine ⟨⟨AMap.Numbered.empty, AMap.Numbered.empty⟩, fun h => absurd h (by simp),
      fun h => absurd h (by simp), ?_, ⟨rfl, rfl⟩, ?_⟩
    · intro s hs
      rcases hs with rfl | hs
      · exact Nat.zero_lt_one
      · cases hs
    have hneeds : ∀ s r, ¬ World.needs {} s r := by
      rintro s r ⟨p, hp, _⟩
      cases hp
    have howns : ∀ r, ¬ Manager.owns {} r := by
      intro r hr
      cases r with
      | filter id =>
        obtain ⟨_, _, hf, _⟩ := hr
        cases hf
      | client ptr =>
        obtain ⟨_, _, he, _⟩ := hr
        cases he
    have hwait : ∀ s, (Serving.view {}).waiting s = [] := fun _ => rfl
    exact
      { closed_once := List.nodup_nil
        closed_unused := fun r hr => absurd hr (by simp [Serving.view])
        waiting_once := fun s => by rw [hwait]; exact List.nodup_nil
        waiting_apart := fun s s' r hr => absurd hr (by rw [hwait]; simp)
        waiting_open := fun s r hr => absurd hr (by rw [hwait]; simp)
        waiting_needed := fun s r hr => absurd hr (by rw [hwait]; simp)
        live_open := fun r hr => absurd hr (howns r)
        live_here := fun r s hr => absurd hr (howns r)
        known_live := fun r hr => absurd hr (howns r)
        known_waiting := fun s r hr => absurd hr (by rw [hwait]; simp)
        known_closed := fun r hr => absurd hr (by simp [Serving.view])
        known_needed := fun s r _ hr => absurd hr (hneeds s r) }
  step := by
    intro σ e σ' h hok hstep
    cases e with
    | acquire =>
      cases hstep
      exact h.acquire
    | release s =>
      change (if 0 < (σ.world.registry.heap s).refs then _ else none) = some σ' at hstep
      split at hstep
      · cases hstep
        exact h.release ‹_›
      · cases hstep
    | apply factories config =>
      cases hstep
      cases herr : (apply codec σ.world factories config).err with
      | some err =>
        obtain ⟨b, hbuild, happly⟩ := apply_eq_abort herr
        have hc := build_created codec σ.world factories config
        rw [hbuild] at hc
        rw [happly]
        exact h.abort hc err
      | none =>
        obtain ⟨b, hbuild, happly⟩ := apply_eq_publish herr
        rw [happly]
        exact h.reloaded (build_ok h.wf hbuild) (hok herr)

theorem Serving.Inv.closesSafely {codec : YamlCodec} {σ : Serving} (h : σ.Inv codec) :
    σ.ClosesSafely :=
  ⟨h.sound.closed_once, h.sound.closed_unused⟩

/-- Along every run whose reloads drop nothing that a held older snapshot needs
and no client of a filter they keep, every filter and client is closed at most
once, and never while the current snapshot or one that a stream holds uses it. A
reload at a moment when no stream holds the current snapshot keeps this exactly
if it meets the condition. -/
theorem closes_safe (codec : YamlCodec) (σ : Serving)
    (h : (servingSys codec).ReachableUnder (SafeDrops codec) σ) :
    σ.ClosesSafely ∧ ∀ factories config σ',
      (apply codec σ.world factories config).err = none →
      (σ.world.registry.heap σ.world.registry.current).refs = 0 →
      (servingSys codec).step σ (.apply factories config) = some σ' →
      (σ'.ClosesSafely ↔ DropsSafely codec σ.world config) := by
  have hinv := (serving_inv codec).invariant h
  refine ⟨hinv.closesSafely, fun factories config σ' herr hidle hstep => ?_⟩
  obtain ⟨b, hbuild, happly⟩ := apply_eq_publish herr
  have hb := build_ok hinv.wf hbuild
  cases hstep
  rw [happly]
  exact ⟨fun hsafe => hinv.dropsSafely_of_idle hb hidle hsafe,
    fun hdrops => (hinv.reloaded hb hdrops).closesSafely⟩

/-! ## Two runs -/

/-- A policy with one chain: a `jwt_auth` filter, or nothing. -/
def jwtConfig (chain : List FilterConfig) : Config where
  redis := ∅
  chains := AList.singleton "main" chain

def jwtFilter : FilterConfig where
  type := "jwt_auth"
  options := ∅

/-- Every filter compiles; `jwt_auth` instances have a `Close` method. -/
def jwtFactories : Factories where
  dial _ _ _ := .ok ()
  filters := createFilterFactory sampleYaml
    { parse := fun _ _ => .ok (), construct := fun t _ => .ok (t = .jwtAuth) }

/-- The states of a run, without conditions. -/
def servingRun (events : List ServingEvent) : Option Serving :=
  (servingSys sampleYaml).run (fun _ _ => True) {} events

/-- A stream holds the first policy, a reload keeps the filter, the next one
drops it while nobody holds the second policy. -/
def sharedThenDropped : List ServingEvent :=
  [.apply jwtFactories (jwtConfig [jwtFilter]), .acquire,
   .apply jwtFactories (jwtConfig [jwtFilter]), .apply jwtFactories (jwtConfig [])]

theorem sharedThenDropped_runs : (servingRun sharedThenDropped).isSome := by decide

/-- The filter is closed under the stream. -/
theorem shared_filter_closed :
    ¬ ∀ σ, (servingSys sampleYaml).Reachable σ → σ.ClosesSafely := by
  intro hall
  have hreach : (servingSys sampleYaml).Reachable
      ((servingRun sharedThenDropped).get sharedThenDropped_runs) :=
    .of_run (servingSys_start sampleYaml) sharedThenDropped sharedThenDropped_runs
  refine (hall _ hreach).2 (.filter 0) (by decide) 1 (.inr (by decide)) ?_
  exact ⟨{ config := jwtConfig [jwtFilter]
           chains := AList.singleton "main" [{ filter := ⟨0, none, true⟩, audited := false }] },
    rfl, "main", _, rfl, { filter := ⟨0, none, true⟩, audited := false },
    List.mem_singleton.mpr rfl, rfl⟩

/-- The filter is dropped while only a stream of the current policy runs. -/
def droppedOnce : List ServingEvent :=
  [.apply jwtFactories (jwtConfig [jwtFilter]), .acquire,
   .apply jwtFactories (jwtConfig []), .release 1]

/-- The state after the first `n` events. -/
def droppedOnceAt (n : Nat) : Serving := (servingRun (droppedOnce.take n)).getD {}

/-- Nothing is in use when the last stream closes the filter. -/
theorem closes_safe_last_stream :
    (droppedOnceAt 4).closed = [.filter 0] ∧ (droppedOnceAt 4).ClosesSafely := by
  have h0 : (servingSys sampleYaml).ReachableUnder (SafeDrops sampleYaml) (droppedOnceAt 0) :=
    .init (servingSys_start _)
  -- the first policy drops nothing
  have h1 : (servingSys sampleYaml).ReachableUnder (SafeDrops sampleYaml) (droppedOnceAt 1) := by
    refine h0.step (e := .apply jwtFactories (jwtConfig [jwtFilter])) (fun _ => ?_) rfl
    exact ⟨fun _ _ h => absurd h (by simp [droppedOnceAt, servingRun, TSys.run]),
      fun _ _ h => absurd h (by simp [droppedOnceAt, servingRun, TSys.run]),
      fun _ _ _ _ h => absurd h (by simp [droppedOnceAt, servingRun, TSys.run])⟩
  have h2 : (servingSys sampleYaml).ReachableUnder (SafeDrops sampleYaml) (droppedOnceAt 2) :=
    h1.step (e := .acquire) trivial rfl
  -- the second drops the filter, which only the current snapshot needs
  have h3 : (servingSys sampleYaml).ReachableUnder (SafeDrops sampleYaml) (droppedOnceAt 3) := by
    have hredis : (droppedOnceAt 2).world.manager.redis = ∅ := rfl
    refine h2.step (e := .apply jwtFactories (jwtConfig [])) (fun _ => ⟨?_, ?_, ?_⟩) rfl
    · intro key f _ _ _ s hs hheld
      have hlt : s < 2 := ((serving_inv _).invariant h2).inUse_lt s (.inr hheld)
      obtain rfl | rfl : s = 0 ∨ s = 1 := by omega
      · exact absurd hheld (by decide)
      · exact absurd rfl hs
    · intro name e he
      rw [hredis] at he
      cases he
    · intro _ _ name e _ he
      rw [hredis] at he
      cases he
  have h4 : (servingSys sampleYaml).ReachableUnder (SafeDrops sampleYaml) (droppedOnceAt 4) :=
    h3.step (e := .release 1) trivial rfl
  exact ⟨by decide, (closes_safe sampleYaml _ h4).1⟩

end Hypergate.Policy
