import Hypergate.Lib.TSys
import Hypergate.Policy.BuildSpec

/-!
# Which Redis client a filter talks to

A Redis-backed filter is bound to a client when it is built, and an instance
may live through any number of reloads. `filterKey` is meant to notice when the
client of its service changes: the address of the service's entry is part of the
key. But it finds the service by asserting that the option is a Go string, while
the factory decodes the option into a string field, which also accepts numbers,
booleans, null and an absent option. For those the key does not name the entry,
and the instance survives a change of its service.
-/

namespace Hypergate.Policy

open Lib Engine

/-- What the environment decides about one call of `Apply`. -/
structure ApplyCall where
  config : Config
  dial : Bool → String → RedisServiceConfig → Except String Unit
  packages : Packages

/-- The factories of a call; filters come from `CreateFilter`. -/
def ApplyCall.factories (codec : YamlCodec) (call : ApplyCall) : Factories where
  dial := call.dial
  filters := createFilterFactory codec call.packages

/-- The state of the manager, and the entries its reloads have retired. -/
structure Reloads where
  world : World := {}
  retired : List Nat := []

/-- One call of `Apply`, successful or not. -/
def Reloads.apply (codec : YamlCodec) (s : Reloads) (call : ApplyCall) : Reloads :=
  let r := Policy.apply codec s.world (call.factories codec) call.config
  { world := r.world
    retired := s.retired ++ (retiredRedis s.world.manager r.world.manager.redis).map (·.ptr) }

/-- The filter of a Redis-backed definition is bound to the client that the
decoded service has in the Redis map. -/
def BoundTo (redis : AMap String RedisEntry) (fc : FilterConfig) (f : Instance) : Prop :=
  redisBacked fc.type → ∃ service e, decodeService fc.options = .ok service ∧
    redis.lookup service = some e ∧ f.client = some e.ptr

/-- The published policy. -/
def World.current (w : World) : Option Published :=
  (w.registry.heap w.registry.current).policy

/-- Every position of every published chain is bound to the client of its
service, and that client has not been retired. -/
def Reloads.Bindings (s : Reloads) : Prop :=
  ∀ p, s.world.current = some p → ∀ name chain, p.chains.lookup name = some chain →
    ∃ fcs, p.config.chains.lookup name = some fcs ∧
      List.Forall₂ (fun fc slot => BoundTo s.world.manager.redis fc slot.filter ∧
        ∀ client, redisBacked fc.type → slot.filter.client = some client → client ∉ s.retired)
        fcs chain

/-- If the configuration keeps a Redis-backed filter whose `redis_service` is
not a string, it leaves the service of that filter unchanged. -/
def ServicesSettled (codec : YamlCodec) (w : World) (cfg : Config) : Prop :=
  ∀ fc ∈ cfg.filterConfigs, redisBacked fc.type → serviceString fc.options = none →
    ∀ key, filterKey codec fc w.manager.redis = .ok key → (w.manager.filters.lookup key).isSome →
    ∀ service e, decodeService fc.options = .ok service →
      w.manager.redis.lookup service = some e → cfg.redis.lookup service = some e.cfg

/-! ## What a key says about the binding -/

/-- The binding depends on the type and the service only. -/
theorem BoundTo.congr {redis : AMap String RedisEntry} {fc fc' : FilterConfig} {f : Instance}
    (h : BoundTo redis fc f) (htype : fc.type = fc'.type)
    (hsvc : fc.options.lookup "redis_service" = fc'.options.lookup "redis_service") :
    BoundTo redis fc' f := by
  unfold BoundTo decodeService at h ⊢
  rw [← htype, ← hsvc]
  exact h

/-- A service named by a string decodes to that string. -/
theorem decodeService_of_string {options : Options} {svc : String}
    (h : serviceString options = some svc) : decodeService options = .ok svc := by
  unfold serviceString at h
  unfold decodeService
  split at h
  · rename_i s hs
    rw [hs, ← Option.some.inj h]
    rfl
  · cases h

/-- The two spellings of the service agree when the options do. -/
theorem serviceString_congr {options options' : Options}
    (h : options.lookup "redis_service" = options'.lookup "redis_service") :
    serviceString options = serviceString options' := by
  unfold serviceString
  rw [h]

/-- A new Redis-backed instance is bound to the client of its service. -/
theorem Made.boundTo {codec : YamlCodec} {call : ApplyCall} {redis : AMap String RedisEntry}
    {fc : FilterConfig} {f : Instance} (h : Made (call.factories codec) redis fc f) :
    BoundTo redis fc f := by
  intro hbacked
  obtain ⟨compiled, hcreate, hclient⟩ := h
  obtain ⟨service, client, hsvc, hfind, hc⟩ := (createFilter_client hcreate).1 hbacked
  obtain ⟨e, he, rfl⟩ := Option.map_eq_some_iff.mp hfind
  exact ⟨service, e, hsvc, he, hclient.trans hc⟩

section Reuse

variable {codec : YamlCodec} {redis next : AMap String RedisEntry} {fc fc₀ : FilterConfig}
  {f : Instance} {key : String}

/-- A reused instance whose service is named by a string: the key names the
entry, so the entry is still that of the service. -/
theorem BoundTo.reuse_string {svc : String} (h₀ : BoundTo redis fc₀ f)
    (hkey₀ : filterKey codec fc₀ redis = .ok key) (hkey : filterKey codec fc next = .ok key)
    (hsvc : serviceString fc.options = some svc) : BoundTo next fc f := by
  obtain ⟨htype, hopt, hptr⟩ := filterKey_inj hkey hkey₀
  intro hbacked
  obtain ⟨service, e, hdec, hlook, hclient⟩ := (h₀.congr htype.symm hopt.symm) hbacked
  obtain rfl : svc = service := Except.ok.inj ((decodeService_of_string hsvc).symm.trans hdec)
  -- the old key named the entry the instance was bound to
  have hold : keyPtr fc₀ redis = some e.ptr := by
    unfold keyPtr
    rw [← serviceString_congr hopt, hsvc, Option.bind_some, hlook]
    rfl
  rw [hold] at hptr
  unfold keyPtr at hptr
  rw [hsvc, Option.bind_some] at hptr
  obtain ⟨e', he', heq⟩ := Option.map_eq_some_iff.mp hptr
  exact ⟨svc, e', decodeService_of_string hsvc, he', heq ▸ hclient⟩

/-- A definition whose service is not named by a string has the same key
whatever the Redis map. -/
theorem filterKey_settled (hsvc : serviceString fc.options = none)
    (hkey : filterKey codec fc next = .ok key) : filterKey codec fc redis = .ok key :=
  (filterKey_congr (by unfold keyPtr; rw [hsvc]; rfl)).mp hkey

end Reuse

/-! ## The invariant -/

theorem retiredRedis_self (m : Manager) : retiredRedis m m.redis = [] := by
  rw [List.eq_nil_iff_forall_not_mem]
  intro e h
  obtain ⟨name, hlook, hne⟩ := mem_retiredRedis.mp h
  exact hne (by rw [hlook]; rfl)

theorem publish_current (w : World) (cfg : Config) (b : Build) :
    (publish w cfg b).world.current = some { config := cfg, chains := b.chains } := by
  show ((w.registry.swap _ _).1.heap (w.registry.swap _ _).1.current).policy = _
  rw [ChainRegistry.swap_current, ChainRegistry.swap_policy, if_pos rfl]

/-- The invariant of a run: every known instance is bound to the client of the
service of a definition with its key. -/
structure Reloads.Inv (codec : YamlCodec) (s : Reloads) : Prop where
  wf : s.world.WF
  keyed : ∀ {key : String} {f : Instance}, s.world.manager.filters.lookup key = some f →
    ∃ fc, filterKey codec fc s.world.manager.redis = .ok key ∧
      BoundTo s.world.manager.redis fc f
  retired_lt : ∀ ptr ∈ s.retired, ptr < s.world.nextPtr
  redis_open : ∀ {name : String} {e : RedisEntry},
    s.world.manager.redis.lookup name = some e → e.ptr ∉ s.retired
  bindings : s.Bindings

section Success

variable {codec : YamlCodec} {s : Reloads} {call : ApplyCall} {b : Build}

/-- The entries of the new map have not been retired. -/
theorem Reloads.Inv.next_open (h : s.Inv codec)
    (hb : RedisOk s.world call.config.redis.toList b) {name : String} {e : RedisEntry}
    (he : b.nextRedis.lookup name = some e) :
    e.ptr ∉ s.retired ++ (retiredRedis s.world.manager b.nextRedis).map (·.ptr) := by
  intro hmem
  rcases List.mem_append.mp hmem with hmem | hmem
  · rcases (hb.origin he).2 with hold | hnew
    · exact h.redis_open hold hmem
    · exact absurd (h.retired_lt _ hmem) (Nat.not_lt.mpr hnew)
  · obtain ⟨e', he', hptr⟩ := List.mem_map.mp hmem
    obtain ⟨name', hlook', hne⟩ := mem_retiredRedis.mp he'
    rcases (hb.origin he).2 with hold | hnew
    · -- one object, so one name: the entry is kept
      obtain rfl := h.wf.redis.inj hlook' hold hptr
      exact hne (by rw [he, hptr]; rfl)
    · exact absurd (hptr ▸ h.wf.redis.lt hlook') (Nat.not_lt.mpr hnew)

/-- Every instance of the new map is bound to the new client of its service. -/
theorem Reloads.Inv.next_keyed (h : s.Inv codec)
    (hb : BuildOk codec s.world (call.factories codec) call.config b)
    (hset : ServicesSettled codec s.world call.config) {key : String} {f : Instance}
    (hf : b.nextFilters.lookup key = some f) :
    ∃ fc, filterKey codec fc b.nextRedis = .ok key ∧ BoundTo b.nextRedis fc f := by
  obtain ⟨fc, hfc, hkey, hold | ⟨_, _, hmade⟩⟩ := hb.filters.origin hf
  · refine ⟨fc, hkey, ?_⟩
    obtain ⟨fc₀, hkey₀, h₀⟩ := h.keyed hold
    cases hsvc : serviceString fc.options with
    | some svc => exact h₀.reuse_string hkey₀ hkey hsvc
    | none =>
      -- the key does not name the entry: it is the configuration that keeps it
      intro hbacked
      obtain ⟨htype, hopt, _⟩ := filterKey_inj hkey hkey₀
      obtain ⟨service, e, hdec, hlook, hclient⟩ := (h₀.congr htype.symm hopt.symm) hbacked
      have hcfg := hset fc hfc hbacked hsvc key (filterKey_settled hsvc hkey)
        (Option.isSome_of_mem hold) service e hdec hlook
      exact ⟨service, e, hdec, hb.redis.kept hlook (AMap.mem_toList.mpr hcfg), hclient⟩
  · exact ⟨fc, hkey, hmade.boundTo⟩

/-- A position that holds the instance of its definition is bound to the client
of its service. -/
theorem Aligned.boundTo {fc : FilterConfig} {slot : Slot} (ha : Aligned codec b fc slot)
    (hkeyed : ∀ {key : String} {f : Instance}, b.nextFilters.lookup key = some f →
      ∃ fc, filterKey codec fc b.nextRedis = .ok key ∧ BoundTo b.nextRedis fc f) :
    BoundTo b.nextRedis fc slot.filter := by
  obtain ⟨key, hkey, hlook, _⟩ := ha
  obtain ⟨fc', hkey', hbound⟩ := hkeyed hlook
  obtain ⟨htype, hopt, _⟩ := filterKey_inj hkey' hkey
  exact hbound.congr htype hopt

/-- A reload that meets the condition keeps the invariant. -/
theorem Reloads.Inv.publish (h : s.Inv codec)
    (hb : BuildOk codec s.world (call.factories codec) call.config b)
    (hset : ServicesSettled codec s.world call.config)
    (happly : Policy.apply codec s.world (call.factories codec) call.config =
      publish s.world call.config b) :
    (s.apply codec call).Inv codec := by
  have hs : s.apply codec call =
      { world := (Policy.publish s.world call.config b).world
        retired := s.retired ++ (retiredRedis s.world.manager b.nextRedis).map (·.ptr) } := by
    unfold Reloads.apply
    rw [happly]
    rfl
  rw [hs]
  have hopen : ∀ {name : String} {e : RedisEntry}, b.nextRedis.lookup name = some e →
      e.ptr ∉ s.retired ++ (retiredRedis s.world.manager b.nextRedis).map (·.ptr) :=
    fun he => h.next_open hb.redis he
  refine ⟨⟨hb.redis.numbered, hb.filters.numbered⟩, fun hf => h.next_keyed hb hset hf, ?_,
    hopen, ?_⟩
  · intro ptr hmem
    refine Nat.lt_of_lt_of_le ?_ hb.redis.grown
    rcases List.mem_append.mp hmem with hmem | hmem
    · exact h.retired_lt ptr hmem
    · obtain ⟨e, he, rfl⟩ := List.mem_map.mp hmem
      obtain ⟨name, hlook, _⟩ := mem_retiredRedis.mp he
      exact h.wf.redis.lt hlook
  · intro p hp name chain hlook
    obtain rfl := Option.some.inj ((publish_current s.world call.config b).symm.trans hp)
    obtain ⟨fcs, hmem, haligned⟩ := hb.chains.origin hlook
    refine ⟨fcs, AMap.mem_toList.mp hmem, haligned.imp fun fc slot ha => ?_⟩
    have hbound := ha.boundTo fun hf => h.next_keyed hb hset hf
    refine ⟨hbound, fun client hbacked hclient => ?_⟩
    obtain ⟨service, e, _, he, hc⟩ := hbound hbacked
    obtain rfl := Option.some.inj (hc.symm.trans hclient)
    exact hopen he

end Success

theorem Reloads.Inv.abort {codec : YamlCodec} {s : Reloads} {call : ApplyCall} {err : String}
    (h : s.Inv codec)
    (herr : (Policy.apply codec s.world (call.factories codec) call.config).err = some err) :
    (s.apply codec call).Inv codec := by
  obtain ⟨b, hbuild, happly⟩ := apply_eq_abort herr
  have hcreated := build_created codec s.world (call.factories codec) call.config
  rw [hbuild] at hcreated
  have hs : s.apply codec call =
      { world := (Policy.abort s.world err b).world, retired := s.retired } := by
    unfold Reloads.apply
    rw [happly]
    show Reloads.mk _ (s.retired ++ (retiredRedis s.world.manager s.world.manager.redis).map _) = _
    rw [retiredRedis_self, List.map_nil, List.append_nil]
  have hwf : (Policy.apply codec s.world (call.factories codec) call.config).world.WF :=
    h.wf.apply
  rw [happly] at hwf
  rw [hs]
  refine ⟨hwf, h.keyed, fun ptr hptr => ?_, h.redis_open, h.bindings⟩
  exact Nat.lt_of_lt_of_le (h.retired_lt ptr hptr) (Nat.le.intro hcreated.nextPtr.symm)

end Hypergate.Policy
