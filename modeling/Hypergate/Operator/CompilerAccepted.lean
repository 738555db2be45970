import Hypergate.Operator.CompilerSpec

/-!
# The engine accepts what the compiler writes

The compiler leaves out what would make the engine refuse a whole config: routes
that do not compile, chains that are named and do not exist, limits with a timeout
that is no duration. Two things can remain, a Redis timeout that is no duration and
an identity server without an address.

- `compiledFor_acceptable_iff`: a config is accepted exactly if neither remains.
- `configs_well_compiled`: and then every object is in the config as it should be.
-/

namespace Hypergate.Operator

open Lib Engine Policy Routing

variable {go : GoLib} {codec : SpecCodec} {identity : IdentitySettings} {c : Cluster}

/-! ## Redis services -/

/-- A timeout that the engine can read. -/
def HyperRedis.TimeoutOk (go : GoLib) (hr : HyperRedis) : Prop :=
  hr.spec.timeout = "" ∨ ∃ d, go.parseDuration hr.spec.timeout = .ok d

theorem redisDuration_eq_ok {field value : String} {d : Int} :
    redisDuration go field value = .ok d ↔ go.parseDuration value = .ok d := by
  unfold redisDuration
  rw [mapError_eq_ok]

theorem checkRedis_engineConfig (hr : HyperRedis) :
    checkRedis (fillRedis hr.engineConfig) = .ok () := by
  have htype : (fillRedis hr.engineConfig).type = hr.spec.type.text := by
    show orDefault hr.spec.type.text "SINGLE" = _
    cases hr.spec.type with
    | single => rfl
    | cluster => rfl
    | sentinel => rfl
  have hmem : hr.spec.type.text ∈ ["SINGLE", "CLUSTER", "SENTINEL"] := by
    cases hr.spec.type with
    | single => simp [RedisType.text]
    | cluster => simp [RedisType.text]
    | sentinel => simp [RedisType.text]
  unfold checkRedis
  rw [htype, if_neg (not_not.mpr hmem)]
  rfl

/-- The engine accepts a service exactly if it can read its timeout. -/
theorem applyRedisDefaults_engineConfig_iff (hr : HyperRedis) :
    (∃ r, applyRedisDefaults go hr.engineConfig = .ok r) ↔ hr.TimeoutOk go := by
  have htimeout : (fillRedis hr.engineConfig).timeout = orDefault hr.spec.timeout "10s" := rfl
  unfold applyRedisDefaults HyperRedis.TimeoutOk
  dsimp only
  rw [checkRedis_engineConfig]
  simp only [bind_eq_ok_iff, redisDuration_eq_ok, htimeout]
  constructor
  · intro ⟨r, u, hu, window, hwindow, d, hd, hrest⟩
    by_cases hempty : hr.spec.timeout = ""
    · exact .inl hempty
    · unfold orDefault at hd
      rw [if_neg hempty] at hd
      exact .inr ⟨d, hd⟩
  · intro h
    have hread : ∃ d, go.parseDuration (orDefault hr.spec.timeout "10s") = .ok d := by
      unfold orDefault
      by_cases hempty : hr.spec.timeout = ""
      · rw [if_pos hempty]
        exact ⟨_, go.parse_10s⟩
      · rw [if_neg hempty]
        exact h.resolve_left hempty
    obtain ⟨d, hd⟩ := hread
    exact ⟨_, (), trivial, _, go.parse_0s, d, hd, _, go.parse_1s, _, go.parse_1s, _, go.parse_30s,
      _, go.parse_0s, rfl⟩

theorem lookup_redisConfigs {name : String} {r : RedisServiceConfig} :
    c.redisConfigs.lookup name = some r
      ↔ ∃ hr ∈ c.redis.items, hr.name = name ∧ r = hr.engineConfig := by
  unfold Cluster.redisConfigs
  constructor
  · intro h
    rcases AMap.mem_of_lookup_insertAll h with hmem | hnone
    · obtain ⟨hr, hhr, heq⟩ := List.mem_map.mp hmem
      obtain ⟨hname, hr'⟩ := Prod.mk.inj heq
      exact ⟨hr, hhr, hname, hr'.symm⟩
    · cases hnone
  · intro ⟨hr, hhr, hname, hr'⟩
    rw [← hname, hr']
    exact c.redis.lookup_insertAll ∅ _ hhr

/-! ## Limits, the identity client and the server -/

theorem validate_of_chainSettings {spec : HyperChainSpec} {limits : Routing.ChainSettings}
    (h : chainSettings go spec = .ok (some limits)) (name : String) :
    ∃ limits', limits.validate go name = .ok limits' := by
  have haction : ∀ field a, limitAction name field (actionText a) = .ok (actionText a) := by
    intro field a
    rcases a with _ | _ | _ <;> rfl
  unfold chainSettings at h
  by_cases hunset : spec.timeout = "" ∧ spec.maxConcurrency = 0
  · rw [if_pos hunset] at h
    cases h
  · rw [if_neg hunset, guard_eq_ok_iff] at h
    obtain ⟨hvalid, heq⟩ := h
    cases heq
    have htimeout : ∃ d, settingsTimeout go name
        { timeout := spec.timeout, maxConcurrency := spec.maxConcurrency
          onTimeout := actionText spec.onTimeout, onOverload := actionText spec.onOverload }
        = .ok d := by
      unfold settingsTimeout
      by_cases hempty : spec.timeout = ""
      · exact ⟨0, if_pos hempty⟩
      · rw [if_neg hempty]
        have hpositive : positiveDuration go spec.timeout = true := by
          cases hp : positiveDuration go spec.timeout with
          | true => rfl
          | false => exact absurd ⟨hempty, hp⟩ hvalid
        unfold positiveDuration at hpositive
        cases hd : go.parseDuration spec.timeout with
        | error e =>
          rw [hd] at hpositive
          cases hpositive
        | ok d =>
          rw [hd] at hpositive
          have hlt : 0 < d := by simpa using hpositive
          exact ⟨d, if_neg (by omega)⟩
    obtain ⟨d, hd⟩ := htimeout
    unfold ChainSettings.validate
    simp only [bind_eq_ok_iff, guard_eq_ok_iff]
    exact ⟨_, d, hd, by simp, _, haction _ _, _, haction _ _, rfl⟩

/-- The engine accepts the identity section exactly if it says whom to dial. -/
theorem parseIdentity_engineConfig_iff :
    (∃ id, parseIdentity identity.engineConfig = .ok id)
      ↔ (identity.enabled = true → identity.address ≠ "") := by
  obtain ⟨enabled, address, serverName, insecure⟩ := identity
  cases enabled with
  | false => exact ⟨fun _ h => absurd h (by simp), fun _ => ⟨_, rfl⟩⟩
  | true =>
    unfold IdentitySettings.engineConfig parseIdentity
    by_cases haddress : address = ""
    · simp [haddress]
    · cases insecure with
      | true => simp [haddress]
      | false => simp [haddress]

theorem parseServer_engineConfig (hc : HyperConfig) (s : Shared)
    (chains : AMap String (List FilterConfig)) :
    ∃ server, parseServer go (engineConfig identity c s chains hc).server = .ok server := by
  have hhops : ¬ (engineConfig identity c s chains hc).server.clientIP.trustedProxyHops < 0 := by
    show ¬ (hc.spec.trustedProxyHops : Int) < 0
    omega
  unfold parseServer
  simp only [bind_eq_ok_iff, guard_eq_ok_iff]
  exact ⟨_, _, rfl, hhops, rfl⟩

theorem parseUnknownSource_unknownSource (spec : HyperConfigSpec) :
    ∃ v, parseUnknownSource (unknownSource spec) = .ok v := by
  unfold unknownSource
  by_cases h : spec.unknownSource = some .default
  · rw [if_pos h]
    exact ⟨_, rfl⟩
  · rw [if_neg h]
    exact ⟨_, rfl⟩

/-! ## Routes -/

/-- The engine compiles a route that the operator accepts. -/
theorem parseRoute_of_routeResult {route : HyperRoute} {r : RouteConfig} {workloads : Bool}
    (h : routeResult go ⟨workloads⟩ route = some r) (i : Nat) :
    ∃ r', parseRoute go workloads i r = .ok r' := by
  obtain ⟨ms, hms, rfl⟩ := routeResult_eq_some_iff.mp h
  obtain ⟨-, -, hall⟩ := HyperRouteSpec.compile_eq_ok_iff.mp hms
  have hcompiled : ∀ e ∈ ms.zipIdx, ∃ m', CompiledAs go workloads route.name e.2 e.1 m' := by
    intro e he
    have hmem : e.1 ∈ ms := List.mem_of_getElem? (List.mem_zipIdx_iff_getElem?.mp he)
    obtain ⟨rule, -, hrule⟩ := exists_of_forall₂_right hall hmem
    exact compiledAs_of_compileMatch hrule route.name e.2
  obtain ⟨ms', hms'⟩ := exists_forall₂ hcompiled
  exact ⟨{ name := route.name, targetChain := route.spec.targetPolicy, «matches» := ms' },
    parseRoute_eq_ok_iff.mpr ⟨rfl, rfl, hms'⟩⟩

theorem targetChain_ne_empty {opts : RouteOptions} {route : HyperRoute} {r : RouteConfig}
    (h : routeResult go opts route = some r) : r.targetChain ≠ "" := by
  obtain ⟨ms, hms, rfl⟩ := routeResult_eq_some_iff.mp h
  exact (HyperRouteSpec.compile_eq_ok_iff.mp hms).1

/-! ## One config -/

/-- A name that a config gives as a default chain. -/
def DefaultName (doc : Routing.Config) (name : String) : Prop :=
  name ≠ "" ∧ name ∈ [doc.router.defaultChain, doc.router.defaultChains.northSouth,
    doc.router.defaultChains.eastWest]

/-- A name that a config gives as the target of a route. -/
def TargetName (doc : Routing.Config) (name : String) : Prop :=
  ∃ r ∈ doc.router.routes, r.targetChain = name

section Config

variable (go codec identity c) in
/-- The config for a HyperConfig. -/
def compiledFor (sorted : List HyperRoute) (hc : HyperConfig) : Routing.Config :=
  configFor identity c (compileShared go codec ⟨identity.enabled⟩ c sorted) hc

variable {sorted : List HyperRoute} {hc : HyperConfig}

/-- The config of a namespace is the config for the HyperConfig that owns it. -/
theorem exists_compiledFor {ns : String} {doc : Routing.Config}
    (h : (reconcile go codec identity c sorted).configs.lookup ns = some doc) :
    ∃ hc, (activeHyperConfigs c.hyperConfigs.items).1.lookup ns = some hc
      ∧ doc = compiledFor go codec identity c sorted hc := by
  rw [lookup_configs] at h
  obtain ⟨hc, hactive, rfl⟩ := Option.map_eq_some_iff.mp h
  exact ⟨hc, hactive, rfl⟩

theorem enabled_compiledFor :
    (compiledFor go codec identity c sorted hc).identity.enabled = identity.enabled := by
  show identity.engineConfig.enabled = _
  unfold IdentitySettings.engineConfig
  cases identity.enabled <;> rfl

theorem routes_compiledFor :
    (compiledFor go codec identity c sorted hc).router.routes
      = sorted.filterMap (routeResult go ⟨identity.enabled⟩) := routes_shared sorted

theorem mem_routes_compiledFor {r : RouteConfig}
    (h : r ∈ (compiledFor go codec identity c sorted hc).router.routes) :
    ∃ route ∈ sorted, routeResult go ⟨identity.enabled⟩ route = some r := by
  rw [routes_compiledFor] at h
  exact List.mem_filterMap.mp h

variable {name : String}

theorem mem_targets_iff (codec : SpecCodec) (c : Cluster) (hc : HyperConfig) :
    name ∈ targets go ⟨identity.enabled⟩ sorted
      ↔ TargetName (compiledFor go codec identity c sorted hc) name := by
  unfold targets TargetName
  rw [routes_compiledFor, List.mem_map]

theorem defaultName_iff :
    DefaultName (compiledFor go codec identity c sorted hc) name
      ↔ name ≠ "" ∧ name ∈ hc.spec.chainFields.map Prod.snd := by
  refine and_congr_right fun hne => ?_
  show name ∈ [hc.spec.defaultChain, (defaultChains hc.spec).northSouth,
    (defaultChains hc.spec).eastWest] ↔ _
  unfold HyperConfigSpec.chainFields defaultChains
  cases hc.spec.defaultChains with
  | none => simp [hne]
  | some dc => simp

theorem lookup_compiledFor_of_mem {chain : HyperChain} (h : chain ∈ c.chains.items) :
    (compiledFor go codec identity c sorted hc).chains.lookup chain.name
      = some (chainResult go codec c chain) := by
  show (chainsFor _ hc).lookup chain.name = _
  rw [lookup_chainsFor, lookup_shared_of_mem h]
  rfl

open Classical in
/-- A name without a HyperChain is deny-all if the config names it, and not there
otherwise. -/
theorem lookup_compiledFor_of_notMem (h : ∀ chain ∈ c.chains.items, chain.name ≠ name) :
    (compiledFor go codec identity c sorted hc).chains.lookup name
      = if TargetName (compiledFor go codec identity c sorted hc) name
          ∨ DefaultName (compiledFor go codec identity c sorted hc) name
        then some degradedChain else none := by
  rw [defaultName_iff, ← mem_targets_iff]
  show (chainsFor _ hc).lookup name = _
  rw [lookup_chainsFor, lookup_shared_of_notMem h]
  by_cases ht : name ∈ targets go ⟨identity.enabled⟩ sorted
  · have hnamed : name ∈ targets go ⟨identity.enabled⟩ sorted
        ∨ name ≠ "" ∧ name ∈ hc.spec.chainFields.map Prod.snd := .inl ht
    rw [if_pos ht, if_pos hnamed]
    rfl
  · rw [if_neg ht]
    by_cases hd : name ≠ "" ∧ name ∈ hc.spec.chainFields.map Prod.snd
    · rw [if_pos hd, if_pos (.inr hd)]
      rfl
    · rw [if_neg hd, if_neg (by simp only [not_or]; exact ⟨ht, hd⟩)]
      rfl

/-- Every chain that a route or a default names is defined. -/
theorem exists_lookup_compiledFor (name : String)
    (h : TargetName (compiledFor go codec identity c sorted hc) name
      ∨ DefaultName (compiledFor go codec identity c sorted hc) name) :
    ∃ fcs, (compiledFor go codec identity c sorted hc).chains.lookup name = some fcs := by
  by_cases hmem : ∃ chain ∈ c.chains.items, chain.name = name
  · obtain ⟨chain, hchain, rfl⟩ := hmem
    exact ⟨_, lookup_compiledFor_of_mem hchain⟩
  · have hnot : ∀ chain ∈ c.chains.items, chain.name ≠ name :=
      fun chain hchain hname => hmem ⟨chain, hchain, hname⟩
    exact ⟨_, by rw [lookup_compiledFor_of_notMem hnot, if_pos h]⟩

/-- A chain with settings is a HyperChain that compiled. -/
theorem of_lookup_chainSettings {limits : Routing.ChainSettings}
    (h : (compiledFor go codec identity c sorted hc).chainSettings.lookup name = some limits) :
    ∃ chain ∈ c.chains.items, name = chain.name
      ∧ chainSettings go chain.spec = .ok (some limits) := by
  obtain ⟨chain, hchain, hname, hlimits⟩ := of_lookup_limits_shared h
  exact ⟨chain, hchain, hname, chainSettings_of_limitsResult hlimits⟩

/-- The engine accepts a config exactly if it can read every Redis timeout and
knows where to dial for identities. -/
theorem compiledFor_acceptable_iff :
    Acceptable go (compiledFor go codec identity c sorted hc)
      ↔ (∀ hr ∈ c.redis.items, hr.TimeoutOk go)
        ∧ (identity.enabled = true → identity.address ≠ "") := by
  constructor
  · intro h
    refine ⟨fun hr hhr => ?_, parseIdentity_engineConfig_iff.mp h.identity⟩
    rw [← applyRedisDefaults_engineConfig_iff]
    exact h.redis hr.name hr.engineConfig (lookup_redisConfigs.mpr ⟨hr, hhr, rfl, rfl⟩)
  · intro ⟨htimeouts, haddress⟩
    refine ⟨?_, rfl, parseServer_engineConfig hc _ _, ?_, parseUnknownSource_unknownSource _,
      parseIdentity_engineConfig_iff.mpr haddress, ?_, ?_, ?_⟩
    · intro name r hlookup
      obtain ⟨hr, hhr, -, rfl⟩ := lookup_redisConfigs.mp hlookup
      exact (applyRedisDefaults_engineConfig_iff hr).mpr (htimeouts hr hhr)
    · intro i r hr
      rw [enabled_compiledFor]
      obtain ⟨route, -, hroute⟩ := mem_routes_compiledFor (List.mem_of_getElem? hr)
      exact parseRoute_of_routeResult hroute i
    · intro name limits hlimits
      obtain ⟨chain, hchain, rfl, hsettings⟩ := of_lookup_chainSettings hlimits
      unfold parseSettings
      rw [if_neg (by rw [lookup_compiledFor_of_mem hchain]; simp)]
      exact validate_of_chainSettings hsettings chain.name
    · intro r hr
      obtain ⟨route, -, hroute⟩ := mem_routes_compiledFor hr
      obtain ⟨fcs, hfcs⟩ := exists_lookup_compiledFor r.targetChain (.inl ⟨r, hr, rfl⟩)
      unfold checkTarget
      rw [if_neg (targetChain_ne_empty hroute), if_neg (by rw [hfcs]; simp)]
    · intro ref href
      unfold checkFallback
      by_cases hempty : ref.2 = ""
      · rw [if_pos hempty]
      · rw [if_neg hempty]
        have hdefault : DefaultName (compiledFor go codec identity c sorted hc) ref.2 := by
          refine ⟨hempty, ?_⟩
          simp only [RouterConfig.fallbacks, List.mem_cons, List.not_mem_nil, or_false] at href
          rcases href with rfl | rfl | rfl | rfl
          · exact List.mem_cons_self
          · exact absurd rfl hempty
          · exact List.mem_cons_of_mem _ List.mem_cons_self
          · exact List.mem_cons_of_mem _ (List.mem_cons_of_mem _ List.mem_cons_self)
        obtain ⟨fcs, hfcs⟩ := exists_lookup_compiledFor ref.2 (.inr hdefault)
        rw [if_neg (by rw [hfcs]; simp)]

end Config

/-! ## All configs -/

theorem map_name_routes_sublist (opts : RouteOptions) (l : List HyperRoute) :
    ((l.filterMap (routeResult go opts)).map RouteConfig.name).Sublist
      (l.map HyperRoute.name) := by
  induction l with
  | nil => exact .slnil
  | cons route l ih =>
    cases h : routeResult go opts route with
    | none =>
      rw [List.filterMap_cons_none h]
      exact .cons _ ih
    | some r =>
      have hname : r.name = route.name := by
        obtain ⟨ms, -, rfl⟩ := routeResult_eq_some_iff.mp h
        rfl
      rw [List.filterMap_cons_some h, List.map_cons, List.map_cons, hname]
      exact .cons_cons _ ih

variable (go codec identity c) in
/-- What a config owes to the objects it was compiled from. -/
structure WellCompiled (doc : Routing.Config) : Prop where
  accepted : ∃ cfg, parseBytes go doc = .ok cfg
  defined : ∀ name, TargetName doc name ∨ DefaultName doc name
      ∨ (∃ limits, doc.chainSettings.lookup name = some limits) →
    ∃ fcs, doc.chains.lookup name = some fcs
  routes : ∀ r, r ∈ doc.router.routes ↔ ∃ route ∈ c.routes.items, ∃ ms,
    route.spec.compile go ⟨identity.enabled⟩ = .ok ms
      ∧ r = { name := route.name, targetChain := route.spec.targetPolicy, «matches» := ms }
  once : (doc.router.routes.map RouteConfig.name).Nodup
  failed : ∀ chain ∈ c.chains.items, ∀ msg, compileChain go codec c chain = .error msg →
    doc.chains.lookup chain.name = some degradedChain
  compiled : ∀ chain ∈ c.chains.items, ∀ filters limits,
    compileChain go codec c chain = .ok (filters, limits) →
      doc.chains.lookup chain.name = some filters
  missing : ∀ name, (∀ chain ∈ c.chains.items, chain.name ≠ name) →
    TargetName doc name ∨ DefaultName doc name → doc.chains.lookup name = some degradedChain

theorem compiledFor_wellCompiled {sorted : List HyperRoute} {hc : HyperConfig}
    (hsorted : PrioritySorted c.routes.items sorted)
    (htimeouts : ∀ hr ∈ c.redis.items, hr.TimeoutOk go)
    (haddress : identity.enabled = true → identity.address ≠ "") :
    WellCompiled go codec identity c (compiledFor go codec identity c sorted hc) where
  accepted := parseBytes_isOk_iff.mpr (compiledFor_acceptable_iff.mpr ⟨htimeouts, haddress⟩)
  defined name h := by
    rcases h with htarget | hdefault | ⟨limits, hlimits⟩
    · exact exists_lookup_compiledFor name (.inl htarget)
    · exact exists_lookup_compiledFor name (.inr hdefault)
    · obtain ⟨chain, hchain, rfl, -⟩ := of_lookup_chainSettings hlimits
      exact ⟨_, lookup_compiledFor_of_mem hchain⟩
  routes r := by
    rw [routes_compiledFor, List.mem_filterMap]
    simp only [routeResult_eq_some_iff, hsorted.perm.mem_iff]
  once := by
    rw [routes_compiledFor]
    refine (map_name_routes_sublist _ sorted).nodup ?_
    exact (hsorted.perm.map HyperRoute.name).nodup_iff.mpr c.routes.nodup
  failed chain hchain msg hmsg := by
    rw [lookup_compiledFor_of_mem hchain, chainResult_of_error hmsg]
  compiled chain hchain filters limits hok := by
    rw [lookup_compiledFor_of_mem hchain, chainResult_of_ok hok]
  missing name hnot hnamed := by
    rw [lookup_compiledFor_of_notMem hnot, if_pos hnamed]

/-- For every set of objects with readable Redis timeouts and an address for the
identity server: every target namespace gets a config, every config is accepted
and holds what it owes, and a chain that is there only because a HyperConfig names
it is in no config of a HyperConfig that does not. -/
theorem configs_well_compiled (go : GoLib) (codec : SpecCodec) (identity : IdentitySettings)
    (c : Cluster) (sorted : List HyperRoute) (hsorted : PrioritySorted c.routes.items sorted)
    (htimeouts : ∀ hr ∈ c.redis.items, hr.TimeoutOk go)
    (haddress : identity.enabled = true → identity.address ≠ "") :
    (∀ hc ∈ c.hyperConfigs.items, ∃ doc,
      (reconcile go codec identity c sorted).configs.lookup (targetNamespaceOf hc) = some doc)
    ∧ (∀ ns doc, (reconcile go codec identity c sorted).configs.lookup ns = some doc →
        WellCompiled go codec identity c doc
        ∧ ∃ hc ∈ c.hyperConfigs.items, targetNamespaceOf hc = ns
          ∧ doc.router.defaultChain = hc.spec.defaultChain
          ∧ doc.router.defaultChains = defaultChains hc.spec)
    ∧ ∀ ns doc ns' doc', (reconcile go codec identity c sorted).configs.lookup ns = some doc →
        (reconcile go codec identity c sorted).configs.lookup ns' = some doc' →
        ∀ name, (∀ chain ∈ c.chains.items, chain.name ≠ name) → ¬ TargetName doc name →
          DefaultName doc name → ¬ DefaultName doc' name → doc'.chains.lookup name = none := by
  refine ⟨?_, ?_, ?_⟩
  · intro hc hmem
    obtain ⟨owner, howner⟩ := exists_active hmem
    exact ⟨_, by rw [lookup_configs, howner]; rfl⟩
  · intro ns doc h
    obtain ⟨hc, hactive, rfl⟩ := exists_compiledFor h
    obtain ⟨hmem, hns⟩ := of_lookup_active hactive
    exact ⟨compiledFor_wellCompiled hsorted htimeouts haddress, hc, hmem, hns, rfl, rfl⟩
  · intro ns doc ns' doc' h h' name hnot htarget _ hdefault
    obtain ⟨hc, -, rfl⟩ := exists_compiledFor h
    obtain ⟨hc', -, rfl⟩ := exists_compiledFor h'
    -- both configs have the same routes
    rw [← mem_targets_iff, mem_targets_iff codec c hc'] at htarget
    rw [lookup_compiledFor_of_notMem hnot, if_neg (not_or.mpr ⟨htarget, hdefault⟩)]

/-- One HyperConfig with every setting at its default. -/
def mainConfig : Listing HyperConfig HyperConfig.name where
  items := [{ name := "main", created := 0, spec := {} }]

/-- A cluster with nothing else. -/
def plainCluster : Cluster := { hyperConfigs := mainConfig }

/-- A chain with a filter that does not exist, a route to it, and a HyperConfig
whose default chain does not exist. -/
def brokenCluster : Cluster where
  hyperConfigs := { items :=
    [{ name := "main", created := 0, spec := { defaultChain := "absent" } }] }
  redis := { items := [{ name := "cache", spec :=
    { url := "cache:6379", type := .single, timeout := "10s" } }] }
  routes := { items := [{ name := "all", spec :=
    { priority := 1, targetPolicy := "broken", «matches» := [{}] } }] }
  chains := { items := [{ name := "broken", spec :=
    { filters := [{ kind := "DenyFilter", name := "absent" }] } }] }

theorem configs_well_compiled_brokenCluster :
    ∃ doc, (reconcile sampleGo sampleCodec {} brokenCluster
        brokenCluster.routes.items).configs.lookup
        "hyper-system" = some doc
      ∧ WellCompiled sampleGo sampleCodec {} brokenCluster doc
      ∧ doc.chains.lookup "broken" = some degradedChain
      ∧ doc.chains.lookup "absent" = some degradedChain := by
  have hsorted : PrioritySorted brokenCluster.routes.items brokenCluster.routes.items :=
    ⟨.refl _, List.pairwise_singleton _ _⟩
  have htimeouts : ∀ hr ∈ brokenCluster.redis.items, hr.TimeoutOk sampleGo := by
    intro hr hhr
    rw [List.mem_singleton.mp hhr]
    exact .inr ⟨_, rfl⟩
  obtain ⟨hwritten, hwell, -⟩ := configs_well_compiled sampleGo sampleCodec {} brokenCluster _
    hsorted htimeouts (fun h => absurd h (by simp))
  obtain ⟨doc, hdoc⟩ := hwritten _ List.mem_cons_self
  obtain ⟨hcompiled, hc, hmem, -, hdefault, -⟩ := hwell _ doc hdoc
  refine ⟨doc, hdoc, hcompiled, hcompiled.failed _ List.mem_cons_self _ rfl, ?_⟩
  refine hcompiled.missing "absent" (fun chain hchain => ?_) (.inr ⟨by simp, ?_⟩)
  · rw [List.mem_singleton.mp hchain]
    simp
  · rw [hdefault, List.mem_singleton.mp hmem]
    exact List.mem_cons_self

end Hypergate.Operator
