import Hypergate.Operator.CompilerAccepted

/-!
# Redis services and the filters that name them

The compiler degrades a chain whose filter does not exist, but it does not look at
the Redis service a filter names, nor at the timeout of a HyperRedis. Both reach
the engine: an unreadable timeout makes it refuse the whole file, and a missing
service makes it refuse the whole policy.

`redis_isolated_iff`: a broken Redis object stays in the chains that use it exactly
if there is none, that is, if every timeout can be read and every filter of a chain
that compiles names a HyperRedis that exists.
-/

namespace Hypergate.Operator

open Lib Engine Policy Routing

variable {go : GoLib} {codec : SpecCodec} {identity : IdentitySettings} {c : Cluster}

/-! ## The service of a filter -/

/-- The Redis service that a filter names. -/
def Cluster.serviceOf (c : Cluster) (kind : FilterKind) (name : String) : Option String :=
  match kind with
  | .rateLimit => (c.rateLimit.index.lookup name).map RedisFilter.redisService
  | .redisMetadataEnricher =>
    (c.redisMetadataEnricher.index.lookup name).map RedisFilter.redisService
  | .apiKey => (c.apiKey.index.lookup name).map RedisFilter.redisService
  | _ => none

/-- The Redis service that the filter of a reference names. -/
def Cluster.refService (c : Cluster) (ref : FilterReference) : Option String :=
  (FilterKind.ofText ref.kind).bind fun kind => c.serviceOf kind ref.name

/-- The options of the filter of a reference. -/
def Cluster.refOptions (codec : SpecCodec) (c : Cluster) (ref : FilterReference) :
    Option Options :=
  (FilterKind.ofText ref.kind).bind fun kind => c.filterOptions codec kind ref.name

variable {options : Options}

theorem lookup_withSecretFile {option filterName file : String} {ref : Option SecretKeyRef}
    (h : "redis_service" ≠ option) :
    (withSecretFile options option filterName file ref).lookup "redis_service"
      = options.lookup "redis_service" := by
  unfold withSecretFile
  cases ref with
  | none => rfl
  | some ref =>
    rw [AMap.lookup_insert_ite, if_neg h]

theorem lookup_jwtAuthOptions (f : JwtAuthFilter) :
    (jwtAuthOptions codec f).lookup "redis_service" = none := by
  unfold jwtAuthOptions
  rw [lookup_withSecretFile (by simp), lookup_withSecretFile (by simp)]
  cases h : codec.readBack f.spec.fields with
  | error e => rfl
  | ok options =>
    rw [SpecCodec.readBack_eq_ok h]
    exact f.spec.noService

/-- What a kind's options say about the Redis service, by the kind's own lemma. -/
theorem lookup_map_options {α : Type} {m : AMap String α} {f : α → Options} {name : String}
    {v : α → Option Yaml} (hf : ∀ a, (f a).lookup "redis_service" = v a)
    (h : (m.lookup name).map f = some options) :
    options.lookup "redis_service" = (m.lookup name).bind v := by
  obtain ⟨a, ha, rfl⟩ := Option.map_eq_some_iff.mp h
  rw [hf, ha]
  rfl

theorem lookup_redisFilter_options (f : RedisFilter) :
    f.options.lookup "redis_service" = some (.str f.redisService) := by
  unfold RedisFilter.options
  rw [AMap.lookup_insert_ite, if_pos rfl]

/-- The option `redis_service` is the service of the filter. -/
theorem lookup_filterOptions {kind : FilterKind} {name : String}
    (h : c.filterOptions codec kind name = some options) :
    options.lookup "redis_service" = (c.serviceOf kind name).map .str := by
  have hspec : ∀ {l : Listing SpecFilter SpecFilter.name},
      (l.index.lookup name).map SpecFilter.options = some options →
        options.lookup "redis_service" = none := by
    intro l hl
    rw [lookup_map_options (v := fun _ => none) (fun f => f.spec.noService) hl]
    cases l.index.lookup name <;> rfl
  have hredis : ∀ {l : Listing RedisFilter RedisFilter.name},
      (l.index.lookup name).map RedisFilter.options = some options →
        options.lookup "redis_service"
          = ((l.index.lookup name).map RedisFilter.redisService).map .str := by
    intro l hl
    rw [lookup_map_options lookup_redisFilter_options hl]
    cases l.index.lookup name <;> rfl
  unfold Cluster.filterOptions at h
  unfold Cluster.serviceOf
  cases kind with
  | rateLimit => exact hredis h
  | redisMetadataEnricher => exact hredis h
  | apiKey => exact hredis h
  | headerModifier => exact hspec h
  | deny => exact hspec h
  | correlationId => exact hspec h
  | cors => exact hspec h
  | externalAuth =>
    obtain ⟨f, -, rfl⟩ := Option.map_eq_some_iff.mp h
    exact AMap.lookup_insertAll_of_notMem (by simp)
  | firewall =>
    obtain ⟨f, -, rfl⟩ := Option.map_eq_some_iff.mp h
    exact AMap.lookup_insertAll_of_notMem (by simp)
  | jwtAuth =>
    obtain ⟨f, -, rfl⟩ := Option.map_eq_some_iff.mp h
    exact lookup_jwtAuthOptions f

variable {ref : FilterReference}

theorem lookup_refOptions (h : c.refOptions codec ref = some options) :
    options.lookup "redis_service" = (c.refService ref).map .str := by
  obtain ⟨kind, hkind, hoptions⟩ := Option.bind_eq_some_iff.mp h
  unfold Cluster.refService
  rw [hkind]
  exact lookup_filterOptions hoptions

/-! ## Chains that compile -/

theorem readBack_isOk {text : String} (h : codec.marshal options = .ok text) :
    codec.readBack options = .ok options := by
  unfold SpecCodec.readBack
  rw [h]
  show (codec.unmarshal text).mapError _ = _
  rw [codec.faithful h]
  rfl

theorem resolve_eq_ok_iff {resolved : String × Options} :
    c.resolve codec ref = .ok resolved
      ↔ ∃ kind, FilterKind.ofText ref.kind = some kind
        ∧ c.refOptions codec ref = some resolved.2 ∧ resolved.1 = kind.engineType := by
  unfold Cluster.resolve Cluster.refOptions
  cases FilterKind.ofText ref.kind with
  | none => simp
  | some kind =>
    dsimp only
    rw [Option.bind_some]
    cases c.filterOptions codec kind ref.name with
    | none => simp
    | some options =>
      obtain ⟨type, options'⟩ := resolved
      simp [eq_comm, and_comm]

variable {chain : HyperChain}

theorem compileFilter_eq_ok_iff {fc : FilterConfig} :
    compileFilter codec c chain ref = .ok fc
      ↔ ∃ kind options, FilterKind.ofText ref.kind = some kind
        ∧ c.refOptions codec ref = some options ∧ (∃ text, codec.marshal options = .ok text)
        ∧ fc = { name := ref.kind ++ "/" ++ ref.name, audit := filterAudited chain ref
                 type := kind.engineType, options } := by
  unfold compileFilter
  simp only [bind_eq_ok_iff, resolve_eq_ok_iff]
  constructor
  · intro ⟨⟨type, resolved⟩, ⟨kind, hkind, hoptions, htype⟩, options, hread, hfc⟩
    obtain ⟨text, htext, -⟩ := of_bind_eq_ok hread
    rw [mapError_eq_ok] at htext
    rw [SpecCodec.readBack_eq_ok hread] at hfc
    cases htype
    exact ⟨kind, resolved, hkind, hoptions, ⟨text, htext⟩, (Except.ok.inj hfc).symm⟩
  · intro ⟨kind, options, hkind, hoptions, ⟨text, htext⟩, hfc⟩
    exact ⟨(kind.engineType, options), ⟨kind, hkind, hoptions, rfl⟩, options,
      readBack_isOk htext, congrArg Except.ok hfc.symm⟩

variable (go codec c) in
/-- A chain whose references all name filters, which can be written as YAML, and
whose timeout is empty or a positive duration. -/
structure HyperChain.Sound (chain : HyperChain) : Prop where
  filters : ∀ ref ∈ chain.spec.filters, ∃ options, c.refOptions codec ref = some options
    ∧ ∃ text, codec.marshal options = .ok text
  timeout : chain.spec.timeout = "" ∨ positiveDuration go chain.spec.timeout = true

theorem chainSettings_isOk_iff {spec : HyperChainSpec} :
    (∃ limits, chainSettings go spec = .ok limits)
      ↔ spec.timeout = "" ∨ positiveDuration go spec.timeout = true := by
  unfold chainSettings
  by_cases hempty : spec.timeout = ""
  · by_cases hzero : spec.maxConcurrency = 0
    · simp [hempty, hzero]
    · simp [hempty, hzero]
  · cases hp : positiveDuration go spec.timeout with
    | false => simp [hempty]
    | true => simp [hempty]

theorem compileChain_isOk_iff :
    (∃ filters limits, compileChain go codec c chain = .ok (filters, limits))
      ↔ chain.Sound go codec c := by
  simp only [compileChain_eq_ok_iff]
  constructor
  · intro ⟨filters, limits, hfilters, hlimits⟩
    refine ⟨fun ref href => ?_, chainSettings_isOk_iff.mp ⟨limits, hlimits⟩⟩
    obtain ⟨k, hk⟩ := List.mem_iff_getElem?.mp href
    obtain ⟨fc, -, hfc⟩ := getElem?_of_forall₂ hfilters hk
    obtain ⟨kind, options, -, hoptions, htext, -⟩ := compileFilter_eq_ok_iff.mp hfc
    exact ⟨options, hoptions, htext⟩
  · intro h
    have hall : ∀ ref ∈ chain.spec.filters, ∃ fc, compileFilter codec c chain ref = .ok fc := by
      intro ref href
      obtain ⟨options, hoptions, htext⟩ := h.filters ref href
      obtain ⟨kind, hkind, -⟩ := Option.bind_eq_some_iff.mp hoptions
      exact ⟨_, compileFilter_eq_ok_iff.mpr ⟨kind, options, hkind, hoptions, htext, rfl⟩⟩
    obtain ⟨filters, hfilters⟩ := exists_forall₂ hall
    obtain ⟨limits, hlimits⟩ := chainSettings_isOk_iff.mpr h.timeout
    exact ⟨filters, limits, hfilters, hlimits⟩

/-- A compiled chain is not the deny-all chain: its filters have names. -/
theorem compiled_ne_degraded {filters : List FilterConfig}
    (h : List.Forall₂ (fun ref fc => compileFilter codec c chain ref = .ok fc)
      chain.spec.filters filters) :
    filters ≠ degradedChain := by
  intro heq
  have hmem : { type := "deny"
                options := AMap.insertAll ∅
                  [("status_code", .scalar "503"), ("body", .str "Service Unavailable")] }
      ∈ filters := by
    rw [heq]
    exact List.mem_cons_self
  obtain ⟨ref, -, hfc⟩ := exists_of_forall₂_right h hmem
  obtain ⟨kind, options, -, -, -, hname⟩ := compileFilter_eq_ok_iff.mp hfc
  have hempty : "" = ref.kind ++ "/" ++ ref.name := congrArg FilterConfig.name hname
  have hlength := congrArg String.length hempty
  rw [String.length_append, String.length_append, show "/".length = 1 from rfl,
    show "".length = 0 from rfl] at hlength
  omega

/-! ## Isolation -/

/-- A HyperRedis of that name that the engine can use. -/
def UsableService (go : GoLib) (c : Cluster) (service : String) : Prop :=
  ∃ hr ∈ c.redis.items, hr.name = service ∧ hr.TimeoutOk go

variable (go c) in
/-- In this config a broken Redis service or reference degrades the chains that use
it and nothing else. -/
structure RedisIsolated (doc : Routing.Config) : Prop where
  services : ∀ name r, doc.redis.lookup name = some r → ∃ r', applyRedisDefaults go r = .ok r'
  references : ∀ name fcs, doc.chains.lookup name = some fcs → fcs ≠ degradedChain →
    ∀ fc ∈ fcs, ∀ v, fc.options.lookup "redis_service" = some v →
      ∃ service r, v = .str service ∧ doc.redis.lookup service = some r
  degraded : ∀ chain ∈ c.chains.items,
    (∃ ref ∈ chain.spec.filters, ∃ service, c.refService ref = some service
      ∧ ¬ UsableService go c service) →
    doc.chains.lookup chain.name = some degradedChain

variable (go codec c) in
/-- No Redis object is broken: every timeout can be read, and every filter of a
sound chain names a HyperRedis that exists. -/
structure RedisSound : Prop where
  timeouts : ∀ hr ∈ c.redis.items, hr.TimeoutOk go
  references : ∀ chain ∈ c.chains.items, chain.Sound go codec c →
    ∀ ref ∈ chain.spec.filters, ∀ service, c.refService ref = some service →
      ∃ hr ∈ c.redis.items, hr.name = service

section Isolated

variable {sorted : List HyperRoute} {hc : HyperConfig}

/-- A filter of a config, other than deny-all, is what a reference of a sound chain
compiled to. -/
theorem exists_ref_of_mem {name : String} {fcs : List FilterConfig} {fc : FilterConfig}
    (hfcs : (compiledFor go codec identity c sorted hc).chains.lookup name = some fcs)
    (hne : fcs ≠ degradedChain) (hfc : fc ∈ fcs) :
    ∃ chain ∈ c.chains.items, chain.Sound go codec c
      ∧ ∃ ref ∈ chain.spec.filters, compileFilter codec c chain ref = .ok fc := by
  by_cases hmem : ∃ chain ∈ c.chains.items, chain.name = name
  · obtain ⟨chain, hchain, rfl⟩ := hmem
    rw [lookup_compiledFor_of_mem hchain] at hfcs
    cases hc : compileChain go codec c chain with
    | error msg =>
      rw [chainResult_of_error hc] at hfcs
      exact absurd (Option.some.inj hfcs).symm hne
    | ok result =>
      obtain ⟨filters, limits⟩ := result
      rw [chainResult_of_ok hc] at hfcs
      cases hfcs
      obtain ⟨hfilters, -⟩ := compileChain_eq_ok_iff.mp hc
      obtain ⟨ref, href, hcompile⟩ := exists_of_forall₂_right hfilters hfc
      exact ⟨chain, hchain, compileChain_isOk_iff.mp ⟨fcs, limits, hc⟩, ref, href, hcompile⟩
  · -- a chain without a HyperChain can only be the deny-all chain
    have hnot : ∀ chain ∈ c.chains.items, chain.name ≠ name :=
      fun chain hchain hname => hmem ⟨chain, hchain, hname⟩
    rw [lookup_compiledFor_of_notMem hnot] at hfcs
    split at hfcs
    · exact absurd (Option.some.inj hfcs).symm hne
    · cases hfcs

theorem RedisSound.isolated (h : RedisSound go codec c) :
    RedisIsolated go c (compiledFor go codec identity c sorted hc) where
  services name r hlookup := by
    obtain ⟨hr, hhr, -, rfl⟩ := lookup_redisConfigs.mp hlookup
    exact (applyRedisDefaults_engineConfig_iff hr).mpr (h.timeouts hr hhr)
  references name fcs hfcs hne fc hfc v hv := by
    obtain ⟨chain, hchain, hsound, ref, href, hcompile⟩ := exists_ref_of_mem hfcs hne hfc
    obtain ⟨kind, options, -, hoptions, -, rfl⟩ := compileFilter_eq_ok_iff.mp hcompile
    rw [lookup_refOptions hoptions] at hv
    obtain ⟨service, hservice, rfl⟩ := Option.map_eq_some_iff.mp hv
    obtain ⟨hr, hhr, hname⟩ := h.references chain hchain hsound ref href service hservice
    exact ⟨service, hr.engineConfig, rfl, lookup_redisConfigs.mpr ⟨hr, hhr, hname, rfl⟩⟩
  degraded chain hchain hbroken := by
    obtain ⟨ref, href, service, hservice, hunusable⟩ := hbroken
    rw [lookup_compiledFor_of_mem hchain]
    cases hc : compileChain go codec c chain with
    | error msg => rw [chainResult_of_error hc]
    | ok result =>
      have hsound := compileChain_isOk_iff.mp ⟨result.1, result.2, hc⟩
      obtain ⟨hr, hhr, hname⟩ := h.references chain hchain hsound ref href service hservice
      exact absurd ⟨hr, hhr, hname, h.timeouts hr hhr⟩ hunusable

theorem RedisIsolated.sound
    (h : RedisIsolated go c (compiledFor go codec identity c sorted hc)) :
    RedisSound go codec c where
  timeouts hr hhr := by
    rw [← applyRedisDefaults_engineConfig_iff]
    exact h.services hr.name hr.engineConfig (lookup_redisConfigs.mpr ⟨hr, hhr, rfl, rfl⟩)
  references chain hchain hsound ref href service hservice := by
    refine Classical.byContradiction fun hmissing => ?_
    have hunusable : ¬ UsableService go c service := by
      intro ⟨hr, hhr, hname, _⟩
      exact hmissing ⟨hr, hhr, hname⟩
    have hdegraded := h.degraded chain hchain ⟨ref, href, service, hservice, hunusable⟩
    obtain ⟨filters, limits, hc⟩ := compileChain_isOk_iff.mpr hsound
    rw [lookup_compiledFor_of_mem hchain, chainResult_of_ok hc] at hdegraded
    exact compiled_ne_degraded (compileChain_eq_ok_iff.mp hc).1 (Option.some.inj hdegraded)

end Isolated

/-- In the config of every namespace a broken Redis object degrades only the chains
that use it, exactly if no Redis object is broken. -/
theorem redis_isolated_iff (go : GoLib) (codec : SpecCodec) (identity : IdentitySettings)
    (c : Cluster) (sorted : List HyperRoute) :
    (∀ ns doc, (reconcile go codec identity c sorted).configs.lookup ns = some doc →
        RedisIsolated go c doc)
      ↔ c.hyperConfigs.items = [] ∨ RedisSound go codec c := by
  constructor
  · intro h
    cases hitems : c.hyperConfigs.items with
    | nil => exact .inl rfl
    | cons hc l =>
      have hmem : hc ∈ c.hyperConfigs.items := by
        rw [hitems]
        exact List.mem_cons_self
      obtain ⟨owner, howner⟩ := exists_active hmem
      have hdoc : (reconcile go codec identity c sorted).configs.lookup (targetNamespaceOf hc)
          = some (compiledFor go codec identity c sorted owner) := by
        rw [lookup_configs, howner]
        rfl
      exact .inr (h _ _ hdoc).sound
  · intro h ns doc hdoc
    obtain ⟨hc, hactive, rfl⟩ := exists_compiledFor hdoc
    rcases h with hempty | hsound
    · have hmem := (of_lookup_active hactive).1
      rw [hempty] at hmem
      cases hmem
    · exact hsound.isolated

/-- A HyperRedis with a timeout that is no duration, and a chain whose filter names
a service that does not exist. -/
def looseCluster : Cluster :=
  { plainCluster with
    redis := {
      items := [{ name := "cache", spec :=
        { url := "cache:6379", type := .single, timeout := "soon" } }]
      nodup := List.nodup_singleton _ }
    chains := {
      items := [{ name := "limited", spec :=
        { filters := [{ kind := "RateLimitFilter", name := "limit" }] } }]
      nodup := List.nodup_singleton _ }
    rateLimit := {
      items := [{ name := "limit", redisService := "gone", spec := .empty }]
      nodup := List.nodup_singleton _ } }

/-- The engine refuses the whole file, and the chain is not deny-all although its
service is missing. -/
theorem broken_redis_spreads :
    ∃ doc, (reconcile sampleGo sampleCodec {} looseCluster []).configs.lookup "hyper-system"
        = some doc
      ∧ (¬ ∃ cfg, parseBytes sampleGo doc = .ok cfg)
      ∧ ∃ fc, doc.chains.lookup "limited" = some [fc]
        ∧ fc.options.lookup "redis_service" = some (.str "gone")
        ∧ doc.redis.lookup "gone" = none ∧ [fc] ≠ degradedChain := by
  have hactive : (activeHyperConfigs looseCluster.hyperConfigs.items).1.lookup "hyper-system"
      = some { name := "main", created := 0, spec := {} } := rfl
  refine ⟨compiledFor sampleGo sampleCodec {} looseCluster []
    { name := "main", created := 0, spec := {} }, ?_, ?_, ?_⟩
  · rw [lookup_configs, hactive]
    rfl
  · rw [parseBytes_isOk_iff, compiledFor_acceptable_iff]
    intro ⟨htimeouts, _⟩
    rcases htimeouts _ List.mem_cons_self with hempty | ⟨d, hd⟩
    · exact absurd hempty (by simp)
    · exact absurd hd (by simp [sampleGo])
  · have hchain : compileChain sampleGo sampleCodec looseCluster
        { name := "limited", spec :=
          { filters := [{ kind := "RateLimitFilter", name := "limit" }] } }
        = .ok ([{ name := "RateLimitFilter/limit", type := "embedded_rate_limiter"
                  options := AList.singleton "redis_service" (.str "gone") }], none) := rfl
    refine ⟨_, ?_, rfl, rfl, compiled_ne_degraded (compileChain_eq_ok_iff.mp hchain).1⟩
    rw [← chainResult_of_ok hchain]
    have hmem : { name := "limited", spec :=
        { filters := [{ kind := "RateLimitFilter", name := "limit" }] } }
        ∈ looseCluster.chains.items := List.mem_cons_self
    exact lookup_compiledFor_of_mem hmem

end Hypergate.Operator
