import Hypergate.Lib.TSys
import Hypergate.Policy.BuildSpec

/-!
# Reloads and streams

Reloads, opening streams and finishing streams in any order. A snapshot is in
use while it is current or a stream holds it; a resource is used by a snapshot
if a filter of its chains is that resource or is bound to it.
`Serving.ClosesSafely` is what the engine wants of its closes, and `DropsSafely`
the condition on a reload under which it gets it: a statement about the manager's
maps, the configuration and the held snapshots before the call.

The second half connects `reuseKey`, which is computed from the state before the
call, with the keys under which the build looks filters up.
-/

namespace Hypergate.Policy

open Lib Engine

/-- A resource is used by a policy. -/
def Published.uses (p : Published) : Resource → Prop
  | .filter id => ∃ name chain, p.chains.lookup name = some chain ∧
      ∃ slot ∈ chain, slot.filter.id = id
  | .client ptr => ∃ name chain, p.chains.lookup name = some chain ∧
      ∃ slot ∈ chain, slot.filter.client = some ptr

/-- The manager with the streams' snapshots, and every close so far. -/
structure Serving where
  world : World := {}
  closed : List Resource := []

/-- What can happen: a reload, a stream that opens, and a stream that ends and
gives back the snapshot it holds. -/
inductive ServingEvent where
  | apply (factories : Factories) (config : Config)
  | acquire
  | release (snapshot : Nat)

/-- The calls run one after the other. Only a held snapshot can be released. -/
def servingStep (codec : YamlCodec) (σ : Serving) : ServingEvent → Option Serving
  | .apply factories config =>
    let r := apply codec σ.world factories config
    some { world := r.world, closed := σ.closed ++ r.closed }
  | .acquire => some { σ with world := { σ.world with registry := σ.world.registry.acquire.1 } }
  | .release s =>
    if 0 < (σ.world.registry.heap s).refs then
      let (registry, ran) := σ.world.registry.release s
      some { world := { σ.world with registry }
             closed := σ.closed ++ ran.flatMap Cleanup.run }
    else none

/-- Any sequence of calls, from a new manager and registry. -/
def servingSys (codec : YamlCodec) : TSys Serving ServingEvent where
  init σ := σ = {}
  step := servingStep codec

theorem servingSys_start (codec : YamlCodec) : (servingSys codec).init {} := rfl

/-- A snapshot whose chains may still run: the current one, or one that a
stream has acquired and not released. -/
def World.inUse (w : World) (s : Nat) : Prop :=
  s = w.registry.current ∨ 0 < (w.registry.heap s).refs

/-- A chain of the snapshot uses the resource. -/
def World.needs (w : World) (s : Nat) (r : Resource) : Prop :=
  ∃ p, (w.registry.heap s).policy = some p ∧ p.uses r

/-- Every resource is closed at most once, and never while a snapshot in use
needs it. -/
def Serving.ClosesSafely (σ : Serving) : Prop :=
  σ.closed.Nodup ∧ ∀ r ∈ σ.closed, ∀ s, σ.world.inUse s → ¬ σ.world.needs s r

/-! ## What a reload drops -/

/-- The definition names, by a string, a service that the reload dials anew. -/
def dialsFor (m : Manager) (cfg : Config) (fc : FilterConfig) : Bool :=
  match serviceString fc.options with
  | none => false
  | some svc =>
    match cfg.redis.lookup svc with
    | none => false
    | some c => (m.redis.lookup svc).map (·.cfg) ≠ some c

/-- The entries of unchanged services. -/
def unchangedRedis (m : Manager) (cfg : Config) : AMap String RedisEntry :=
  AMap.filter (fun name e => cfg.redis.lookup name = some e.cfg) m.redis

/-- The key under which an instance of the definition can be reused; `none` if
its service is dialled anew. -/
def reuseKey (codec : YamlCodec) (m : Manager) (cfg : Config) (fc : FilterConfig) :
    Option String :=
  if dialsFor m cfg fc then none else (filterKey codec fc (unchangedRedis m cfg)).toOption

/-- No definition of the configuration can reuse the instance under the key. -/
def FilterDropped (codec : YamlCodec) (m : Manager) (cfg : Config) (key : String) : Prop :=
  ∀ fc ∈ cfg.filterConfigs, reuseKey codec m cfg fc ≠ some key

/-- The service of the entry is gone or changed. -/
def ServiceDropped (cfg : Config) (name : String) (e : RedisEntry) : Prop :=
  cfg.redis.lookup name ≠ some e.cfg

/-- What the configuration drops is needed by no held snapshot but the current
one, and a filter it keeps is not bound to a client it drops. -/
structure DropsSafely (codec : YamlCodec) (w : World) (cfg : Config) : Prop where
  filters_unheld : ∀ key f, w.manager.filters.lookup key = some f → f.closer = true →
    FilterDropped codec w.manager cfg key →
    ∀ s, s ≠ w.registry.current → 0 < (w.registry.heap s).refs → ¬ w.needs s (.filter f.id)
  clients_unheld : ∀ name e, w.manager.redis.lookup name = some e → ServiceDropped cfg name e →
    ∀ s, s ≠ w.registry.current → 0 < (w.registry.heap s).refs → ¬ w.needs s (.client e.ptr)
  clients_unbound : ∀ key f name e, w.manager.filters.lookup key = some f →
    w.manager.redis.lookup name = some e → f.client = some e.ptr → ServiceDropped cfg name e →
    FilterDropped codec w.manager cfg key

section Reuse

variable {codec : YamlCodec} {w : World} {cfg : Config} {b : Build} {fc : FilterConfig}
  {key : String}

theorem lookup_unchangedRedis {m : Manager} {name : String} {e : RedisEntry} :
    (unchangedRedis m cfg).lookup name = some e ↔
      m.redis.lookup name = some e ∧ cfg.redis.lookup name = some e.cfg := by
  unfold unchangedRedis
  rw [AMap.lookup_filter, Option.filter_eq_some_iff, decide_eq_true_iff]

/-- The build stores an entry exactly for the services of the configuration. -/
theorem RedisOk.lookup_eq_none (hb : RedisOk w cfg.redis.toList b) {name : String} :
    b.nextRedis.lookup name = none ↔ cfg.redis.lookup name = none := by
  constructor
  · intro hnone
    cases hc : cfg.redis.lookup name with
    | none => rfl
    | some c =>
      obtain ⟨e, he⟩ := hb.present (AMap.mem_toList.mpr hc)
      exact absurd (hnone.symm.trans he) (by simp)
  · intro hnone
    cases he : b.nextRedis.lookup name with
    | none => rfl
    | some e =>
      have hc := AMap.mem_toList.mp (hb.origin he).1
      exact absurd (hnone.symm.trans hc) (by simp)

/-- If the service of a definition is not dialled anew, the address in its key
is that of the unchanged entry. -/
theorem keyPtr_of_not_dials (hb : RedisOk w cfg.redis.toList b)
    (h : dialsFor w.manager cfg fc = false) :
    keyPtr fc (unchangedRedis w.manager cfg) = keyPtr fc b.nextRedis := by
  unfold dialsFor at h
  unfold keyPtr
  cases hsvc : serviceString fc.options with
  | none => rfl
  | some svc =>
    rw [hsvc] at h
    show ((unchangedRedis w.manager cfg).lookup svc).map _ = (b.nextRedis.lookup svc).map _
    congr 1
    cases hc : cfg.redis.lookup svc with
    | none =>
      rw [hb.lookup_eq_none.mpr hc]
      rw [Option.eq_none_iff_forall_ne_some]
      intro e he
      exact absurd (hc.symm.trans (lookup_unchangedRedis.mp he).2) (by simp)
    | some c =>
      simp only [hc, ne_eq, decide_not, Bool.not_eq_false', decide_eq_true_iff] at h
      obtain ⟨e, he, rfl⟩ := Option.map_eq_some_iff.mp h
      rw [lookup_unchangedRedis.mpr ⟨he, hc⟩, hb.kept he (AMap.mem_toList.mpr hc)]

/-- The key of a new client's filter names a new address. -/
theorem keyPtr_of_dials (hb : RedisOk w cfg.redis.toList b)
    (h : dialsFor w.manager cfg fc = true) :
    ∃ ptr, keyPtr fc b.nextRedis = some ptr ∧ w.nextPtr ≤ ptr := by
  unfold dialsFor at h
  unfold keyPtr
  cases hsvc : serviceString fc.options with
  | none => simp [hsvc] at h
  | some svc =>
    rw [hsvc] at h
    cases hc : cfg.redis.lookup svc with
    | none => simp [hc] at h
    | some c =>
      simp only [hc, ne_eq, decide_not, Bool.not_eq_true', decide_eq_false_iff_not] at h
      obtain ⟨e, he⟩ := hb.present (AMap.mem_toList.mpr hc)
      refine ⟨e.ptr, by rw [Option.bind_some, he]; rfl, ?_⟩
      obtain ⟨hcfg, hold | hnew⟩ := hb.origin he
      · have hcfg := Option.some.inj ((AMap.mem_toList.mp hcfg).symm.trans hc)
        exact absurd (by rw [hold, ← hcfg]; rfl) h
      · exact hnew

/-- An instance that can be reused is looked up under the key of the build. -/
theorem filterKey_of_reuseKey (hb : RedisOk w cfg.redis.toList b)
    (h : reuseKey codec w.manager cfg fc = some key) :
    filterKey codec fc b.nextRedis = .ok key := by
  unfold reuseKey at h
  cases hd : dialsFor w.manager cfg fc with
  | true => simp [hd] at h
  | false =>
    rw [hd, if_neg (by simp)] at h
    rw [← filterKey_congr (keyPtr_of_not_dials hb hd)]
    cases hk : filterKey codec fc (unchangedRedis w.manager cfg) with
    | error e => simp [hk, Except.toOption] at h
    | ok key' =>
      rw [hk] at h
      exact congrArg Except.ok (Option.some.inj h)

/-- A key of the build that was known before is one under which an instance can
be reused: no known key names a new address. -/
theorem reuseKey_of_known (hw : w.WF) (hb : RedisOk w cfg.redis.toList b)
    {fc₀ : FilterConfig} (hkey₀ : filterKey codec fc₀ w.manager.redis = .ok key)
    (hkey : filterKey codec fc b.nextRedis = .ok key) :
    reuseKey codec w.manager cfg fc = some key := by
  unfold reuseKey
  cases hd : dialsFor w.manager cfg fc with
  | true =>
    obtain ⟨ptr, hptr, hnew⟩ := keyPtr_of_dials hb hd
    obtain ⟨_, _, heq⟩ := filterKey_inj hkey hkey₀
    rw [hptr] at heq
    unfold keyPtr at heq
    obtain ⟨svc, _, hlook⟩ := Option.bind_eq_some_iff.mp heq.symm
    obtain ⟨e, he, rfl⟩ := Option.map_eq_some_iff.mp hlook
    exact absurd (hw.redis.lt he) (Nat.not_lt.mpr hnew)
  | false =>
    rw [if_neg (by simp), (filterKey_congr (keyPtr_of_not_dials hb hd)).mpr hkey]
    rfl

end Reuse

end Hypergate.Policy
