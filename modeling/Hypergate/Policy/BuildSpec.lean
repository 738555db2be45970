import Hypergate.Policy.FilterKey
import Hypergate.Policy.Rollback

/-!
# What a successful build has put together

One inversion lemma per loop body (`dialService_ok`, `compileFilter_ok`) says
everything a successful round can do; the loop invariants are derived from them.

* `RedisOk`: the new Redis map has an entry for every service of the
  configuration, the old one where the service is unchanged and a new one
  otherwise.
* `FiltersOk`: the new filter map has an instance under the key of every filter
  definition, the old one where that key was known and a new one otherwise.
* `ChainsOk`: position by position, the chains hold those instances.

`World.WF` is the part of the state invariant this needs: entries and instances
are different objects with allocated addresses. It holds again after `Apply`.
-/

namespace Hypergate.Policy

open Lib

/-- The manager's maps hold allocated objects, each under one key. -/
structure World.WF (w : World) : Prop where
  redis : AMap.Numbered RedisEntry.ptr w.nextPtr w.manager.redis
  filters : AMap.Numbered Instance.id w.nextFilter w.manager.filters

/-! ## Redis entries -/

section Redis

variable {m : Manager} {fac : Factories} {b b' : Build} {name : String}
  {svcCfg : RedisServiceConfig}

/-- A successful round stores an entry: the old one of an unchanged service, or
a new one. -/
theorem dialService_ok (h : dialService m fac b (name, svcCfg) = .ok b') :
    ∃ e : RedisEntry, e.cfg = svcCfg ∧ b'.nextRedis = b.nextRedis.insert name e ∧
      ((m.redis.lookup name = some e ∧ b'.nextPtr = b.nextPtr) ∨
       ((∀ old, m.redis.lookup name = some old → old.cfg ≠ svcCfg) ∧
        e.ptr = b.nextPtr ∧ b'.nextPtr = b.nextPtr + 1)) := by
  unfold dialService at h
  dsimp only at h
  split at h
  · rename_i old hreused
    obtain ⟨hold, hcfg⟩ := Option.filter_eq_some_iff.mp hreused
    obtain rfl := Except.ok.inj h
    exact ⟨old, of_decide_eq_true hcfg, rfl, .inl ⟨hold, rfl⟩⟩
  · rename_i hreused
    split at h
    · cases h
    · obtain rfl := Except.ok.inj h
      refine ⟨{ ptr := b.nextPtr, cfg := svcCfg }, rfl, rfl, .inr ⟨?_, rfl, rfl⟩⟩
      intro old hold hcfg
      rw [hold, Option.filter_some, if_pos (decide_eq_true hcfg)] at hreused
      cases hreused

theorem dialService_filters (h : dialService m fac b (name, svcCfg) = .ok b') :
    b'.nextFilters = b.nextFilters ∧ b'.chains = b.chains ∧ b'.nextFilter = b.nextFilter := by
  unfold dialService at h
  dsimp only at h
  split at h
  · obtain rfl := Except.ok.inj h
    exact ⟨rfl, rfl, rfl⟩
  · split at h
    · cases h
    · obtain rfl := Except.ok.inj h
      exact ⟨rfl, rfl, rfl⟩

end Redis

/-- The Redis map after the services `done`. -/
structure RedisOk (w : World) (done : List (String × RedisServiceConfig)) (b : Build) : Prop where
  numbered : AMap.Numbered RedisEntry.ptr b.nextPtr b.nextRedis
  grown : w.nextPtr ≤ b.nextPtr
  /-- An entry belongs to a service and is the old one or new. -/
  origin : ∀ {name : String} {e : RedisEntry}, b.nextRedis.lookup name = some e →
    (name, e.cfg) ∈ done ∧ (w.manager.redis.lookup name = some e ∨ w.nextPtr ≤ e.ptr)
  /-- An unchanged service keeps its entry. -/
  kept : ∀ {name : String} {e : RedisEntry}, w.manager.redis.lookup name = some e →
    (name, e.cfg) ∈ done → b.nextRedis.lookup name = some e
  present : ∀ {name : String} {c : RedisServiceConfig}, (name, c) ∈ done →
    ∃ e, b.nextRedis.lookup name = some e

variable {fac : Factories} {w : World} {b b' : Build}

/-- One more service. The services come from a map, so no two share a name. -/
theorem RedisOk.dialService {done : List (String × RedisServiceConfig)}
    {service : String × RedisServiceConfig} (hw : w.WF) (h : RedisOk w done b)
    (hnew : ∀ c, (service.1, c) ∈ done → c = service.2)
    (hrun : Policy.dialService w.manager fac b service = .ok b') :
    RedisOk w (done ++ [service]) b' := by
  obtain ⟨name, svcCfg⟩ := service
  obtain ⟨e, rfl, hredis, hcase⟩ := dialService_ok hrun
  -- what both cases need of the entry
  have horigin : w.manager.redis.lookup name = some e ∨ w.nextPtr ≤ e.ptr := by
    rcases hcase with ⟨hold, _⟩ | ⟨_, hptr, _⟩
    · exact .inl hold
    · exact .inr (hptr ▸ h.grown)
  refine ⟨?_, ?_, ?_, ?_, ?_⟩
  · rw [hredis]
    rcases hcase with ⟨hold, hn⟩ | ⟨_, hptr, hn⟩
    · rw [hn]
      refine h.numbered.insert (Nat.lt_of_lt_of_le (hw.redis.lt hold) h.grown) ?_
      intro name' e' h' heq
      rcases (h.origin h').2 with hold' | hge
      · exact hw.redis.inj hold' hold heq
      · exact absurd (heq ▸ hw.redis.lt hold) (Nat.not_lt.mpr hge)
    · rw [hn]
      exact h.numbered.insert_new hptr
  · rcases hcase with ⟨_, hn⟩ | ⟨_, _, hn⟩
    · rw [hn]; exact h.grown
    · rw [hn]; exact Nat.le_succ_of_le h.grown
  · intro name' e' h'
    rw [hredis, AMap.lookup_insert_ite] at h'
    split at h'
    · rename_i heq
      cases h'
      exact ⟨by rw [heq]; simp, heq ▸ horigin⟩
    · exact ⟨List.mem_append_left _ (h.origin h').1, (h.origin h').2⟩
  · intro name' e' hold' hmem
    rw [hredis, AMap.lookup_insert_ite]
    split
    · rename_i heq
      subst heq
      -- the configuration of the service is the one just processed
      have hcfg : e'.cfg = e.cfg := by
        rcases List.mem_append.mp hmem with hmem | hmem
        · exact hnew _ hmem
        · exact (Prod.mk.inj (List.mem_singleton.mp hmem)).2
      rcases hcase with ⟨hold, _⟩ | ⟨hchanged, _⟩
      · exact hold.symm.trans hold'
      · exact absurd hcfg (hchanged e' hold')
    · rename_i hne
      refine h.kept hold' ((List.mem_append.mp hmem).resolve_right fun hmem => hne ?_)
      exact (Prod.mk.inj (List.mem_singleton.mp hmem)).1
  · intro name' c hmem
    rw [hredis, AMap.lookup_insert_ite]
    split
    · exact ⟨e, rfl⟩
    · rename_i hne
      refine h.present ((List.mem_append.mp hmem).resolve_right fun hmem => hne ?_)
      exact (Prod.mk.inj (List.mem_singleton.mp hmem)).1

variable {cfg : Config}

/-- The first loop has visited every service of the configuration. -/
theorem redisOk_of_runAll {b : Build} (hw : w.WF)
    (h : runAll (dialService w.manager fac) { nextPtr := w.nextPtr, nextFilter := w.nextFilter }
      cfg.redis.toList = .ok b) :
    RedisOk w cfg.redis.toList b := by
  have hstart : RedisOk w [] { nextPtr := w.nextPtr, nextFilter := w.nextFilter } :=
    ⟨AMap.Numbered.empty, Nat.le_refl _, fun h => absurd h (by simp),
      fun _ h => absurd h (by simp), fun h => absurd h (by simp)⟩
  refine (runAll_ok (fun done b => (∀ s ∈ done, s ∈ cfg.redis.toList) ∧ RedisOk w done b)
    ?_ ⟨by simp, hstart⟩ h).2
  rintro done ⟨name, svcCfg⟩ b b' hmem ⟨hsub, hb⟩ hrun
  refine ⟨?_, hb.dialService hw ?_ hrun⟩
  · intro s hs
    rcases List.mem_append.mp hs with hs | hs
    · exact hsub s hs
    · rw [List.mem_singleton.mp hs]
      exact hmem
  · intro c hc
    have h1 := AMap.mem_toList.mp (hsub _ hc)
    have h2 := AMap.mem_toList.mp hmem
    exact Option.some.inj (h1.symm.trans h2)

variable {m : Manager}

theorem filters_of_runAll {start b : Build} {services : List (String × RedisServiceConfig)}
    (h : runAll (dialService m fac) start services = .ok b) :
    b.nextFilters = start.nextFilters ∧ b.chains = start.chains ∧
      b.nextFilter = start.nextFilter := by
  refine runAll_ok (fun _ b => b.nextFilters = start.nextFilters ∧ b.chains = start.chains ∧
      b.nextFilter = start.nextFilter) ?_ ⟨rfl, rfl, rfl⟩ h
  rintro _ ⟨name, svcCfg⟩ b b' _ ⟨h1, h2, h3⟩ hrun
  obtain ⟨h1', h2', h3'⟩ := dialService_filters hrun
  exact ⟨h1'.trans h1, h2'.trans h2, h3'.trans h3⟩

/-! ## Filters -/

/-- The instance is what the factory makes of a definition, given the clients
of the new Redis map. -/
def Made (fac : Factories) (redis : AMap String RedisEntry) (fc : FilterConfig) (f : Instance) :
    Prop :=
  ∃ compiled, fac.filters.create fc.type fc.options
    (some fun service => (redis.lookup service).map (·.ptr)) = .ok compiled ∧
    f.client = compiled.client

variable {codec : YamlCodec}

/-- A successful round looks the key up, and makes an instance when neither map
has one. -/
theorem compileFilter_ok {chainName : String} {position : FilterConfig × Nat}
    (h : compileFilter codec m fac chainName b position = .ok b') :
    ∃ key f, filterKey codec position.1 b.nextRedis = .ok key ∧
      b'.nextRedis = b.nextRedis ∧ b'.nextPtr = b.nextPtr ∧ b'.chains = b.chains ∧
      b'.nextFilters = b.nextFilters.insert key f ∧
      b'.chain = b.chain ++ [{ filter := f, audited := position.1.audit }] ∧
      (((b.nextFilters.lookup key = some f ∨
          (b.nextFilters.lookup key = none ∧ m.filters.lookup key = some f)) ∧
        b'.nextFilter = b.nextFilter) ∨
       (b.nextFilters.lookup key = none ∧ m.filters.lookup key = none ∧
        f.id = b.nextFilter ∧ Made fac b.nextRedis position.1 f ∧
        b'.nextFilter = b.nextFilter + 1)) := by
  unfold compileFilter at h
  dsimp only at h
  split at h
  · cases h
  rename_i key hkey
  split at h
  · rename_i f hf
    obtain rfl := Except.ok.inj h
    refine ⟨key, f, hkey, rfl, rfl, rfl, rfl, rfl, .inl ⟨?_, rfl⟩⟩
    rcases Option.or_eq_some_iff.mp hf with hf | hf
    · exact .inl hf
    · exact .inr hf
  · rename_i hf
    obtain ⟨hnext, hold⟩ := Option.or_eq_none_iff.mp hf
    split at h
    · cases h
    · rename_i compiled hcreate
      obtain rfl := Except.ok.inj h
      exact ⟨key, _, hkey, rfl, rfl, rfl, rfl, rfl,
        .inr ⟨hnext, hold, rfl, ⟨compiled, hcreate, rfl⟩, rfl⟩⟩

/-- The filter map after the definitions `done`; `b.nextRedis` is complete. -/
structure FiltersOk (codec : YamlCodec) (w : World) (fac : Factories) (done : List FilterConfig)
    (b : Build) : Prop where
  numbered : AMap.Numbered Instance.id b.nextFilter b.nextFilters
  grown : w.nextFilter ≤ b.nextFilter
  /-- An instance belongs to a definition and is the old one or made for it. -/
  origin : ∀ {key : String} {f : Instance}, b.nextFilters.lookup key = some f →
    ∃ fc ∈ done, filterKey codec fc b.nextRedis = .ok key ∧
      (w.manager.filters.lookup key = some f ∨
       (w.manager.filters.lookup key = none ∧ w.nextFilter ≤ f.id ∧ Made fac b.nextRedis fc f))
  present : ∀ {fc : FilterConfig}, fc ∈ done →
    ∃ key f, filterKey codec fc b.nextRedis = .ok key ∧ b.nextFilters.lookup key = some f

/-- The chain position holds the instance of the definition. -/
def Aligned (codec : YamlCodec) (b : Build) (fc : FilterConfig) (slot : Slot) : Prop :=
  ∃ key, filterKey codec fc b.nextRedis = .ok key ∧
    b.nextFilters.lookup key = some slot.filter ∧ slot.audited = fc.audit

/-- The later build has the Redis map of the earlier one and at least its filters. -/
structure Extends (b b' : Build) : Prop where
  redis : b'.nextRedis = b.nextRedis
  ptr : b'.nextPtr = b.nextPtr
  filters : ∀ {key : String} {f : Instance}, b.nextFilters.lookup key = some f →
    b'.nextFilters.lookup key = some f

theorem Aligned.extend {fc : FilterConfig} {slot : Slot} (h : Aligned codec b fc slot)
    (hext : Extends b b') : Aligned codec b' fc slot := by
  obtain ⟨key, hkey, hlook, haudit⟩ := h
  exact ⟨key, hext.redis ▸ hkey, hext.filters hlook, haudit⟩

section CompileFilter

variable {codec : YamlCodec} {w : World} {fac : Factories} {chainName : String} {b b' : Build}
  {position : FilterConfig × Nat}

theorem compileFilter_extends
    (hrun : compileFilter codec w.manager fac chainName b position = .ok b') : Extends b b' := by
  obtain ⟨key, f, _, hredis, hptr, _, hfilters, _, hcase⟩ := compileFilter_ok hrun
  refine ⟨hredis, hptr, ?_⟩
  intro key' f' hf'
  rw [hfilters, AMap.lookup_insert_ite]
  split
  · rename_i heq
    subst heq
    -- a key that is present is looked up, not replaced
    rcases hcase with ⟨hf | ⟨hnone, _⟩, _⟩ | ⟨hnone, _⟩
    · exact hf.symm.trans hf'
    · exact absurd (hnone.symm.trans hf') (by simp)
    · exact absurd (hnone.symm.trans hf') (by simp)
  · exact hf'

theorem FiltersOk.compileFilter {done : List FilterConfig} (hw : w.WF)
    (h : FiltersOk codec w fac done b)
    (hrun : Policy.compileFilter codec w.manager fac chainName b position = .ok b') :
    FiltersOk codec w fac (done ++ [position.1]) b' := by
  have hext := compileFilter_extends hrun
  obtain ⟨key, f, hkey, hredis, _, _, hfilters, _, hcase⟩ := compileFilter_ok hrun
  have hself : b'.nextFilters.lookup key = some f := by
    rw [hfilters, AMap.lookup_insert_ite, if_pos rfl]
  refine ⟨?_, ?_, ?_, ?_⟩
  · rw [hfilters]
    rcases hcase with ⟨hf | ⟨_, hold⟩, hn⟩ | ⟨_, _, hid, _, hn⟩
    · rw [hn]
      exact h.numbered.insert_same hf
    · rw [hn]
      refine h.numbered.insert (Nat.lt_of_lt_of_le (hw.filters.lt hold) h.grown) ?_
      intro key' f' hf' heq
      obtain ⟨_, _, _, hold' | ⟨_, hge, _⟩⟩ := h.origin hf'
      · exact hw.filters.inj hold' hold heq
      · exact absurd (heq ▸ hw.filters.lt hold) (Nat.not_lt.mpr hge)
    · rw [hn]
      exact h.numbered.insert_new hid
  · rcases hcase with ⟨_, hn⟩ | ⟨_, _, _, _, hn⟩
    · rw [hn]; exact h.grown
    · rw [hn]; exact Nat.le_succ_of_le h.grown
  · intro key' f' hf'
    rw [hfilters, AMap.lookup_insert_ite] at hf'
    rw [hredis]
    -- an instance that was there keeps its definition
    have hbefore : b.nextFilters.lookup key' = some f' →
        ∃ fc ∈ done ++ [position.1], filterKey codec fc b.nextRedis = .ok key' ∧
          (w.manager.filters.lookup key' = some f' ∨
           (w.manager.filters.lookup key' = none ∧ w.nextFilter ≤ f'.id ∧
            Made fac b.nextRedis fc f')) := fun hf' => by
      obtain ⟨fc, hfc, hrest⟩ := h.origin hf'
      exact ⟨fc, List.mem_append_left _ hfc, hrest⟩
    split at hf'
    · rename_i heq
      subst heq
      cases hf'
      rcases hcase with ⟨hf | ⟨_, hold⟩, _⟩ | ⟨_, hnone, hid, hmade, _⟩
      · exact hbefore hf
      · exact ⟨position.1, by simp, hkey, .inl hold⟩
      · exact ⟨position.1, by simp, hkey, .inr ⟨hnone, hid ▸ h.grown, hmade⟩⟩
    · exact hbefore hf'
  · intro fc hfc
    rcases List.mem_append.mp hfc with hfc | hfc
    · obtain ⟨key', f', hkey', hf'⟩ := h.present hfc
      exact ⟨key', f', hredis ▸ hkey', hext.filters hf'⟩
    · rw [List.mem_singleton.mp hfc]
      exact ⟨key, f, hredis ▸ hkey, hself⟩

end CompileFilter

/-! ## Chains -/

/-- Two relations that hold position by position hold together at every
position. -/
theorem forall₂_both {α β : Type} {R S : α → β → Prop} {l : List α} {l' : List β}
    (hR : List.Forall₂ R l l') (hS : List.Forall₂ S l l') :
    ∀ x ∈ l, ∃ y ∈ l', R x y ∧ S x y := by
  induction hR with
  | nil => exact fun x h => absurd h (by simp)
  | cons hr _ ih =>
    cases hS with
    | cons hs htail =>
      intro x hx
      rcases List.mem_cons.mp hx with rfl | hx
      · exact ⟨_, List.mem_cons_self, hr, hs⟩
      · obtain ⟨y, hy, hboth⟩ := ih htail x hx
        exact ⟨y, List.mem_cons_of_mem _ hy, hboth⟩

/-- Every finished chain holds, position by position, the instances of a chain
of the configuration, and no chain is missing. -/
structure ChainsOk (codec : YamlCodec) (done : List (String × List FilterConfig)) (b : Build) :
    Prop where
  origin : ∀ {name : String} {chain : List Slot}, b.chains.lookup name = some chain →
    ∃ fcs, (name, fcs) ∈ done ∧ List.Forall₂ (Aligned codec b) fcs chain
  present : ∀ {name : String} {fcs : List FilterConfig}, (name, fcs) ∈ done →
    ∃ chain, b.chains.lookup name = some chain

theorem Extends.refl (b : Build) : Extends b b := ⟨rfl, rfl, fun h => h⟩

theorem Extends.trans {b₁ b₂ b₃ : Build} (h : Extends b₁ b₂) (h' : Extends b₂ b₃) :
    Extends b₁ b₃ :=
  ⟨h'.redis.trans h.redis, h'.ptr.trans h.ptr, fun hf => h'.filters (h.filters hf)⟩

section CompileChain

variable {codec : YamlCodec} {w : World} {fac : Factories} {b b' : Build}

theorem chain_of_runAll {done : List FilterConfig} {chainName : String}
    {fcs : List FilterConfig} (hw : w.WF) (h : FiltersOk codec w fac done b)
    (hrun : runAll (compileFilter codec w.manager fac chainName) { b with chain := [] }
      fcs.zipIdx = .ok b') :
    FiltersOk codec w fac (done ++ fcs) b' ∧ Extends b b' ∧ b'.chains = b.chains ∧
      List.Forall₂ (Aligned codec b') fcs b'.chain := by
  have hloop := runAll_ok (fun pre b' => FiltersOk codec w fac (done ++ pre.map Prod.fst) b' ∧
      Extends b b' ∧ b'.chains = b.chains ∧
      List.Forall₂ (Aligned codec b') (pre.map Prod.fst) b'.chain) ?_ ?_ hrun
  · rw [List.zipIdx_map_fst] at hloop
    exact hloop
  · rintro pre position b₁ b₂ _ ⟨hf, hext, hchains, haligned⟩ hstep
    have hext' := compileFilter_extends hstep
    obtain ⟨key, f, hkey, hredis, _, hch, hfilters, hchain, _⟩ := compileFilter_ok hstep
    refine ⟨?_, hext.trans hext', hch.trans hchains, ?_⟩
    · rw [List.map_append, ← List.append_assoc]
      exact hf.compileFilter hw hstep
    · rw [List.map_append, hchain]
      refine List.rel_append (haligned.imp fun _ _ ha => ha.extend hext') (.cons ?_ .nil)
      exact ⟨key, hredis ▸ hkey, by rw [hfilters, AMap.lookup_insert_ite, if_pos rfl], rfl⟩
  · exact ⟨by simpa using ⟨h.numbered, h.grown, h.origin, h.present⟩,
      ⟨rfl, rfl, fun h => h⟩, rfl, .nil⟩

theorem compileChain_ok {done : List (String × List FilterConfig)}
    {chain : String × List FilterConfig} (hw : w.WF)
    (h : FiltersOk codec w fac (done.flatMap Prod.snd) b) (hc : ChainsOk codec done b)
    (hrun : compileChain codec w.manager fac b chain = .ok b') :
    FiltersOk codec w fac ((done ++ [chain]).flatMap Prod.snd) b' ∧
      ChainsOk codec (done ++ [chain]) b' ∧ Extends b b' := by
  unfold compileChain at hrun
  dsimp only at hrun
  split at hrun
  · cases hrun
  rename_i b₁ hloop
  obtain rfl := Except.ok.inj hrun
  obtain ⟨hf, hext, hchains, haligned⟩ := chain_of_runAll hw h hloop
  have hext' : Extends b { b₁ with chains := b₁.chains.insert chain.1 b₁.chain } :=
    ⟨hext.redis, hext.ptr, hext.filters⟩
  refine ⟨?_, ?_, hext'⟩
  · rw [List.flatMap_append, List.flatMap_singleton]
    exact ⟨hf.numbered, hf.grown, hf.origin, hf.present⟩
  · have hlookup : ∀ name, AList.lookup name (b₁.chains.insert chain.1 b₁.chain) =
        if name = chain.1 then some b₁.chain else b.chains.lookup name := fun name => by
      rw [AMap.lookup_insert_ite, hchains]
    refine ⟨?_, ?_⟩
    · intro name slots hlook
      have hlook := (hlookup name).symm.trans hlook
      split at hlook
      · rename_i heq
        cases hlook
        exact ⟨chain.2, by rw [heq]; simp, haligned⟩
      · obtain ⟨fcs, hmem, hold⟩ := hc.origin hlook
        exact ⟨fcs, List.mem_append_left _ hmem, hold.imp fun _ _ ha => ha.extend hext'⟩
    · intro name fcs hmem
      rw [hlookup name]
      split
      · exact ⟨b₁.chain, rfl⟩
      · rename_i hne
        refine hc.present ((List.mem_append.mp hmem).resolve_right fun hmem => hne ?_)
        exact congrArg Prod.fst (List.mem_singleton.mp hmem)

end CompileChain

/-! ## The whole build -/

/-- Everything a successful build has established. -/
structure BuildOk (codec : YamlCodec) (w : World) (fac : Factories) (cfg : Config) (b : Build) :
    Prop where
  redis : RedisOk w cfg.redis.toList b
  filters : FiltersOk codec w fac cfg.filterConfigs b
  chains : ChainsOk codec cfg.chains.toList b

/-- Every definition of the configuration is at some position of the chains. -/
theorem BuildOk.position {b : Build} (hb : BuildOk codec w fac cfg b) {fc : FilterConfig}
    (hfc : fc ∈ cfg.filterConfigs) :
    ∃ name chain, b.chains.lookup name = some chain ∧ ∃ slot ∈ chain, Aligned codec b fc slot := by
  obtain ⟨name, fcs, hfcs, hmem⟩ := Config.mem_filterConfigs.mp hfc
  obtain ⟨chain, hchain⟩ := hb.chains.present (AMap.mem_toList.mpr hfcs)
  obtain ⟨fcs', hfcs', haligned⟩ := hb.chains.origin hchain
  obtain rfl := Option.some.inj (hfcs.symm.trans (AMap.mem_toList.mp hfcs'))
  obtain ⟨slot, hslot, ha, _⟩ := forall₂_both haligned haligned fc hmem
  exact ⟨name, chain, hchain, slot, hslot, ha⟩

theorem RedisOk.extend {done : List (String × RedisServiceConfig)} (h : RedisOk w done b)
    (hext : Extends b b') : RedisOk w done b' where
  numbered := by rw [hext.redis, hext.ptr]; exact h.numbered
  grown := by rw [hext.ptr]; exact h.grown
  origin := by rw [hext.redis]; exact h.origin
  kept := by rw [hext.redis]; exact h.kept
  present := by rw [hext.redis]; exact h.present

theorem build_ok {b : Build} (hw : w.WF) (h : build codec w fac cfg = .ok b) :
    BuildOk codec w fac cfg b := by
  unfold build at h
  dsimp only at h
  split at h
  · cases h
  rename_i b₁ hredis
  have hr := redisOk_of_runAll hw hredis
  obtain ⟨hfilters, hchains, hnext⟩ := filters_of_runAll hredis
  have hstart : FiltersOk codec w fac [] b₁ := by
    refine ⟨?_, by rw [hnext], ?_, fun h => absurd h (by simp)⟩
    · rw [hfilters]
      exact AMap.Numbered.empty
    · rw [hfilters]
      exact fun h => absurd h (by simp)
  have hcstart : ChainsOk codec [] b₁ := by
    refine ⟨?_, fun h => absurd h (by simp)⟩
    rw [hchains]
    exact fun h => absurd h (by simp)
  obtain ⟨hf, hc, hext⟩ := runAll_ok (fun done b =>
    FiltersOk codec w fac (done.flatMap Prod.snd) b ∧ ChainsOk codec done b ∧ Extends b₁ b)
    (fun done chain b b' _ ⟨hf, hc, hext⟩ hrun => by
      obtain ⟨hf', hc', hext'⟩ := compileChain_ok hw hf hc hrun
      exact ⟨hf', hc', hext.trans hext'⟩)
    ⟨hstart, hcstart, Extends.refl b₁⟩ h
  exact ⟨hr.extend hext, hf, hc⟩

/-! ## What it leaves out -/

theorem mem_retiredRedis {next : AMap String RedisEntry} {e : RedisEntry} :
    e ∈ retiredRedis m next ↔
      ∃ name, m.redis.lookup name = some e ∧ (next.lookup name).map (·.ptr) ≠ some e.ptr := by
  unfold retiredRedis
  constructor
  · intro h
    obtain ⟨⟨name, e'⟩, hmem, rfl⟩ := List.mem_map.mp h
    obtain ⟨hmem, hne⟩ := List.mem_filter.mp hmem
    exact ⟨name, AMap.mem_toList.mp hmem, of_decide_eq_true hne⟩
  · rintro ⟨name, hlook, hne⟩
    exact List.mem_map.mpr ⟨(name, e),
      List.mem_filter.mpr ⟨AMap.mem_toList.mpr hlook, decide_eq_true hne⟩, rfl⟩

theorem mem_retiredFilters {next : AMap String Instance} {f : Instance} :
    f ∈ retiredFilters m next ↔
      ∃ key, m.filters.lookup key = some f ∧ next.lookup key = none := by
  unfold retiredFilters
  constructor
  · intro h
    obtain ⟨⟨key, f'⟩, hmem, rfl⟩ := List.mem_map.mp h
    obtain ⟨hmem, hnone⟩ := List.mem_filter.mp hmem
    exact ⟨key, AMap.mem_toList.mp hmem, Option.isNone_iff_eq_none.mp hnone⟩
  · rintro ⟨key, hlook, hnone⟩
    exact List.mem_map.mpr ⟨(key, f), List.mem_filter.mpr
      ⟨AMap.mem_toList.mpr hlook, Option.isNone_iff_eq_none.mpr hnone⟩, rfl⟩

/-- A call that returns no error has published a complete build. -/
theorem apply_eq_publish (h : (apply codec w fac cfg).err = none) :
    ∃ b, build codec w fac cfg = .ok b ∧ apply codec w fac cfg = publish w cfg b := by
  unfold apply at h ⊢
  cases hb : build codec w fac cfg with
  | ok b => exact ⟨b, rfl, rfl⟩
  | error eb =>
    rw [hb] at h
    cases h

/-- The manager's maps after a call stay well formed, whatever it returns. -/
theorem World.WF.apply (hw : w.WF) : (apply codec w fac cfg).world.WF := by
  unfold Policy.apply
  cases hb : build codec w fac cfg with
  | ok b =>
    have hok := build_ok hw hb
    exact ⟨hok.redis.numbered, hok.filters.numbered⟩
  | error eb =>
    obtain ⟨err, b⟩ := eb
    have hc := build_created codec w fac cfg
    rw [hb] at hc
    refine ⟨hw.redis.mono (j := b.nextPtr) ?_, hw.filters.mono (j := b.nextFilter) ?_⟩
    · exact Nat.le.intro hc.nextPtr.symm
    · exact Nat.le.intro hc.nextFilter.symm

end Hypergate.Policy
