import Hypergate.Routing.Config

/-!
# `ParseBytes` (`internal/config/parser.go`)

The checks in their order, section by section: the Redis services while they are
decoded, the version, the server, the routes, the handling of unknown callers,
the identity client, the chain settings, and at last that every chain that is
named is defined.
-/

namespace Hypergate.Routing

open Lib Identity Engine Policy

variable (go : GoLib)

/-! ## Redis services (`redis.go`) -/

/-- `v`, or the default if it is empty. -/
def orDefault (v default : String) : String := if v = "" then default else v

/-- The defaults of `applyRedisDefaults`. -/
def fillRedis (cfg : RedisServiceConfig) : RedisServiceConfig :=
  { cfg with
    type := orDefault cfg.type "SINGLE"
    socketType := orDefault cfg.socketType "tcp"
    url := orDefault cfg.url "localhost:6379"
    poolSize := if cfg.poolSize = 0 then 10 else cfg.poolSize
    pipelineWindow := orDefault cfg.pipelineWindow "0s"
    clusterPipelineParallelism :=
      if cfg.clusterPipelineParallelism = 0 then 1 else cfg.clusterPipelineParallelism
    timeout := orDefault cfg.timeout "10s"
    onEmptyBehavior := orDefault cfg.onEmptyBehavior "WAIT"
    waitTimeout := orDefault cfg.waitTimeout "1s"
    startupInitialInterval := orDefault cfg.startupInitialInterval "1s"
    startupMaxInterval := orDefault cfg.startupMaxInterval "30s"
    startupMaxElapsedTime := orDefault cfg.startupMaxElapsedTime "0s" }

/-- The semantic validation of `applyRedisDefaults`. -/
def checkRedis (cfg : RedisServiceConfig) : Except String Unit :=
  if cfg.type ∉ ["SINGLE", "CLUSTER", "SENTINEL"] then
    .error ("redis: invalid type " ++ quote cfg.type ++ ": must be SINGLE, CLUSTER, or SENTINEL")
  else if cfg.socketType ∉ ["tcp", "unix"] then
    .error ("redis: invalid socket_type " ++ quote cfg.socketType ++ ": must be tcp or unix")
  else if cfg.onEmptyBehavior ≠ "WAIT" then
    .error ("redis: invalid on_empty_behavior " ++ quote cfg.onEmptyBehavior ++
      ": only \"WAIT\" is supported (radix/v4 always blocks)")
  else .ok ()

/-- One duration of a Redis service. -/
def redisDuration (field value : String) : Except String Int :=
  (go.parseDuration value).mapError fun e =>
    "redis: invalid " ++ field ++ " " ++ quote value ++ ": " ++ e

/-- `applyRedisDefaults`, which `RedisServiceConfig.UnmarshalYAML` ends with. -/
def applyRedisDefaults (cfg : RedisServiceConfig) : Except String RedisServiceConfig := do
  let cfg := fillRedis cfg
  checkRedis cfg
  let pipelineWindowDuration ← redisDuration go "pipeline_window" cfg.pipelineWindow
  let timeoutDuration ← redisDuration go "timeout" cfg.timeout
  let waitTimeoutDuration ← redisDuration go "wait_timeout" cfg.waitTimeout
  let startupInitialIntervalDuration ←
    redisDuration go "startup_initial_interval" cfg.startupInitialInterval
  let startupMaxIntervalDuration ← redisDuration go "startup_max_interval" cfg.startupMaxInterval
  let startupMaxElapsedTimeDuration ←
    redisDuration go "startup_max_elapsed_time" cfg.startupMaxElapsedTime
  .ok { cfg with
    pipelineWindowDuration, timeoutDuration, waitTimeoutDuration, startupInitialIntervalDuration,
    startupMaxIntervalDuration, startupMaxElapsedTimeDuration }

/-! ## The server (`server.go`) -/

/-- One duration of `ShutdownConfig.applyDefaults`. -/
def shutdownDuration (field raw : String) (default : Int) : Except String Int :=
  if raw = "" then .ok default
  else match go.parseDuration raw with
    | .error _ => .error ("server.shutdown." ++ field ++ ": invalid duration " ++ quote raw)
    | .ok d =>
      if d < 0 then .error ("server.shutdown." ++ field ++ ": invalid duration " ++ quote raw)
      else .ok d

/-- `ShutdownConfig.applyDefaults`. -/
def ShutdownConfig.applyDefaults (c : ShutdownConfig) : Except String ShutdownConfig := do
  let quietPeriodDuration ← shutdownDuration go "quiet_period" c.quietPeriod 2000000000
  let minDelayDuration ← shutdownDuration go "min_delay" c.minDelay 3000000000
  let maxDelayDuration ← shutdownDuration go "max_delay" c.maxDelay 15000000000
  let drainTimeoutDuration ← shutdownDuration go "drain_timeout" c.drainTimeout 20000000000
  if maxDelayDuration < minDelayDuration then
    .error ("server.shutdown.min_delay (" ++ go.durationString minDelayDuration ++
      ") must not exceed max_delay (" ++ go.durationString maxDelayDuration ++ ")")
  else
    .ok { c with
      quietPeriodDuration, minDelayDuration, maxDelayDuration, drainTimeoutDuration }

/-- The server section of `ParseBytes`. -/
def parseServer (s : ServerConfig) : Except String ServerConfig := do
  let poolPrewarmSize := if s.poolPrewarmSize ≤ 0 then 256 else s.poolPrewarmSize
  let initialHeaderCapacity := if s.initialHeaderCapacity ≤ 0 then 64 else s.initialHeaderCapacity
  let healthAddress := orDefault s.healthAddress ":9003"
  let shutdown ← s.shutdown.applyDefaults go
  if s.clientIP.trustedProxyHops < 0 then
    .error ("server.client_ip.trusted_proxy_hops must be >= 0, got " ++
      toString s.clientIP.trustedProxyHops)
  else .ok { s with poolPrewarmSize, initialHeaderCapacity, healthAddress, shutdown }

def applyTLSEnvOverrides (tls : TLSConfig) : TLSConfig :=
  let certFile := go.getenv "TLS_CERT_FILE"
  let keyFile := go.getenv "TLS_KEY_FILE"
  if certFile = "" ∨ keyFile = "" then tls
  else
    { enabled := true, certFile, keyFile
      caFile := orDefault (go.getenv "TLS_CA_FILE") tls.caFile
      mutualTLS := go.getenv "TLS_MUTUAL_TLS" = "true" || tls.mutualTLS }

/-! ## Routes (`routing.go`) -/

/-- `MatchConfig.Compile`. -/
def MatchConfig.compile (m : MatchConfig) (allowWorkloads : Bool) :
    Except String MatchConfig := do
  let compiledTraffic ← Grpc.parseTraffic m.traffic
  let compiledSources ← Routing.compile go.netip m.sources .source allowWorkloads
  let compiledDestinations ← Routing.compile go.netip m.destinations .destination allowWorkloads
  .ok { m with compiledTraffic, compiledSources, compiledDestinations }

/-- Request headers are stored lower-cased, so route header names must be too.
Of two names that differ in case only, the one the loop meets last stays. -/
def lowered {V : Type} (headers : AMap String V) : AMap String V :=
  AMap.insertAll ∅ (headers.toList.map fun e => (toLower e.1, e.2))

/-- The compiled form of one header condition. -/
def compileHeader (route : String) (j : Nat) (key : String) (h : HeaderMatchConfig) :
    Except String HeaderMatchConfig :=
  if h.regexPattern = "" then .ok h
  else match go.compileRegex h.regexPattern with
    | .error e => .error ("invalid regex_pattern for header " ++ quote key ++ " at route " ++
        quote route ++ " match " ++ toString j ++ ": " ++ e)
    | .ok re => .ok { h with compiledRegex := some re }

/-- The compiled form of the path condition. -/
def compilePath (route : String) (i j : Nat) (m : MatchConfig) :
    Except String (Option (String → Bool)) :=
  if m.pathRegexPattern = "" then .ok m.compiledPathRegex
  else match go.compileRegex m.pathRegexPattern with
    | .error e => .error ("invalid path_regex_pattern at route " ++ quote route ++ " index " ++
        toString i ++ " match index " ++ toString j ++ ": " ++ e)
    | .ok re => .ok (some re)

/-- One match entry in the loop of `ParseBytes`; `i` and `j` are the positions of
its route and of the entry in it. -/
def parseMatch (allowWorkloads : Bool) (route : String) (i j : Nat) (m : MatchConfig) :
    Except String MatchConfig := do
  let m ← (m.compile go allowWorkloads).mapError fun e =>
    "route " ++ quote route ++ " match index " ++ toString j ++ ": " ++ e
  let compiledPathRegex ← compilePath go route i j m
  let headers ← (lowered m.headers).mapExcept (compileHeader go route j)
  .ok { m with compiledPathRegex, headers }

/-- One route. -/
def parseRoute (allowWorkloads : Bool) (i : Nat) (route : RouteConfig) :
    Except String RouteConfig :=
  (route.matches.zipIdx.mapM fun e => parseMatch go allowWorkloads route.name i e.2 e.1).map
    fun entries => { route with «matches» := entries }

/-! ## Callers, identity and chains -/

/-- `unknown_source`. -/
def parseUnknownSource (v : String) : Except String String :=
  if v = "" then .ok "deny"
  else if v = "deny" ∨ v = "default" then .ok v
  else .error ("router.unknown_source must be \"deny\" or \"default\", got " ++ quote v)

/-- The identity section of `ParseBytes`. -/
def parseIdentity (id : IdentityConfig) : Except String IdentityConfig :=
  if !id.enabled then .ok id
  else if id.address = "" then .error "identity.address is required when identity is enabled"
  else if id.caFile = "" && !id.insecure then
    .error "identity.ca_file is required unless identity.insecure is true"
  else
    .ok { id with
      tokenFile := orDefault id.tokenFile "/var/run/secrets/hypergate/identity/token" }

/-- One action of `ChainSettings.validate`. -/
def limitAction (name field v : String) : Except String String :=
  if v = "" then .ok "deny"
  else if v = "deny" ∨ v = "allow" then .ok v
  else .error ("chain_settings." ++ name ++ "." ++ field ++ " must be \"deny\" or \"allow\"")

/-- The timeout of `ChainSettings.validate`. -/
def settingsTimeout (name : String) (c : ChainSettings) : Except String Int :=
  if c.timeout = "" then .ok c.timeoutDuration
  else match go.parseDuration c.timeout with
    | .error _ =>
      .error ("chain_settings." ++ name ++ ".timeout: invalid duration " ++ quote c.timeout)
    | .ok d =>
      if d ≤ 0 then
        .error ("chain_settings." ++ name ++ ".timeout: invalid duration " ++ quote c.timeout)
      else .ok d

/-- `ChainSettings.validate`. The two actions are checked in the order of a map,
here the first one first. -/
def ChainSettings.validate (name : String) (c : ChainSettings) : Except String ChainSettings := do
  let timeoutDuration ← settingsTimeout go name c
  if c.maxConcurrency < 0 then
    .error ("chain_settings." ++ name ++ ".max_concurrency must be >= 0")
  else do
    let onTimeout ← limitAction name "on_timeout" c.onTimeout
    let onOverload ← limitAction name "on_overload" c.onOverload
    .ok { c with timeoutDuration, onTimeout, onOverload }

/-- One entry of the chain settings. -/
def parseSettings (chains : AMap String (List FilterConfig)) (name : String)
    (c : ChainSettings) : Except String ChainSettings :=
  if chains.lookup name = none then
    .error ("chain_settings." ++ name ++ ": no chain with that name")
  else c.validate go name

/-- The check of one route in `validateChainReferences`. -/
def checkTarget (chains : AMap String (List FilterConfig)) (route : RouteConfig) :
    Except String Unit :=
  if route.targetChain = "" then .error ("route " ++ quote route.name ++ " has no target_chain")
  else if chains.lookup route.targetChain = none then
    .error ("route " ++ quote route.name ++ " targets undefined chain " ++ quote route.targetChain)
  else .ok ()

/-- The check of one fallback in `validateChainReferences`. -/
def checkFallback (chains : AMap String (List FilterConfig)) (ref : String × String) :
    Except String Unit :=
  if ref.2 = "" then .ok ()
  else if chains.lookup ref.2 = none then
    .error ("router." ++ ref.1 ++ " references undefined chain " ++ quote ref.2)
  else .ok ()

/-- The fallbacks of a router, with their field names. -/
def RouterConfig.fallbacks (r : RouterConfig) : List (String × String) :=
  [("default_chain", r.defaultChain), ("other", r.other),
    ("default_chains.north_south", r.defaultChains.northSouth),
    ("default_chains.east_west", r.defaultChains.eastWest)]

def validateChainReferences (cfg : Config) : Except String Unit := do
  cfg.router.routes.forM (checkTarget cfg.chains)
  cfg.router.fallbacks.forM (checkFallback cfg.chains)

/-! ## The whole file -/

/-- `ParseBytes`, on the decoded file. -/
def parseBytes (doc : Config) : Except String Config := do
  let redis ← (doc.redis.mapExcept fun _ => applyRedisDefaults go).mapError fun e =>
    "failed to parse config YAML: " ++ e
  if doc.version ≠ "v1" then
    .error ("invalid config version " ++ quote doc.version ++ ", expected \"v1\"")
  else do
    let server ← parseServer go doc.server
    let logging : LoggingConfig :=
      { level := orDefault doc.logging.level "INFO"
        format := orDefault doc.logging.format "console"
        outputPath := orDefault doc.logging.outputPath "stdout" }
    let routes ← doc.router.routes.zipIdx.mapM fun e =>
      parseRoute go doc.identity.enabled e.2 e.1
    let server := { server with tls := applyTLSEnvOverrides go server.tls }
    let unknownSource ← parseUnknownSource doc.router.unknownSource
    let identity ← parseIdentity doc.identity
    let chainSettings ← doc.chainSettings.mapExcept (parseSettings go doc.chains)
    let cfg : Config :=
      { doc with
        server, logging, redis, identity, chainSettings
        router := { doc.router with routes, unknownSource } }
    validateChainReferences cfg
    .ok cfg

/-! ## What is accepted -/

/-- Everything `parseBytes` has checked and filled in when it returns `cfg`. -/
structure Accepted (doc cfg : Config) : Prop where
  redis : (doc.redis.mapExcept fun _ => applyRedisDefaults go) = .ok cfg.redis
  version : doc.version = "v1"
  routes : List.Forall₂ (fun e route => parseRoute go doc.identity.enabled e.2 e.1 = .ok route)
    doc.router.routes.zipIdx cfg.router.routes
  unknownSource : parseUnknownSource doc.router.unknownSource = .ok cfg.router.unknownSource
  identity : parseIdentity doc.identity = .ok cfg.identity
  chainSettings : doc.chainSettings.mapExcept (parseSettings go doc.chains) = .ok cfg.chainSettings
  targets : ∀ route ∈ cfg.router.routes, checkTarget doc.chains route = .ok ()
  fallbacks : ∀ ref ∈ doc.router.fallbacks, checkFallback doc.chains ref = .ok ()
  server : ∃ server, parseServer go doc.server = .ok server ∧ cfg =
    { doc with
      redis := cfg.redis, identity := cfg.identity, chainSettings := cfg.chainSettings
      logging :=
        { level := orDefault doc.logging.level "INFO"
          format := orDefault doc.logging.format "console"
          outputPath := orDefault doc.logging.outputPath "stdout" }
      server := { server with tls := applyTLSEnvOverrides go server.tls }
      router := { doc.router with
        routes := cfg.router.routes, unknownSource := cfg.router.unknownSource } }

theorem parseBytes_eq_ok_iff {doc cfg : Config} :
    parseBytes go doc = .ok cfg ↔ Accepted go doc cfg := by
  unfold parseBytes
  simp only [bind_eq_ok_iff, guard_eq_ok_iff, mapError_eq_ok, mapM_eq_ok_iff,
    validateChainReferences, not_not]
  constructor
  · rintro ⟨redis, hredis, hversion, server, hserver, routes, hroutes, unknownSource, hunknown,
      identity, hidentity, chainSettings, hsettings, u, ⟨u', htargets, hfallbacks⟩, hcfg⟩
    cases hcfg
    exact ⟨hredis, hversion, hroutes, hunknown, hidentity, hsettings,
      forM_eq_ok_iff.mp htargets, forM_eq_ok_iff.mp hfallbacks, server, hserver, rfl⟩
  · intro h
    obtain ⟨server, hserver, hcfg⟩ := h.server
    refine ⟨cfg.redis, h.redis, h.version, server, hserver, cfg.router.routes, h.routes,
      cfg.router.unknownSource, h.unknownSource, cfg.identity, h.identity, cfg.chainSettings,
      h.chainSettings, (), ⟨(), ?_, ?_⟩, ?_⟩
    · exact forM_eq_ok_iff.mpr h.targets
    · exact forM_eq_ok_iff.mpr h.fallbacks
    · rw [hcfg]

section Routes

variable {go} {allowWorkloads : Bool} {route : String} {i j : Nat} {m m' : MatchConfig}

variable (go allowWorkloads route j) in
/-- `m'` is the match entry `m`, compiled. -/
structure CompiledAs (m m' : MatchConfig) : Prop where
  traffic : Grpc.parseTraffic m.traffic = .ok m'.compiledTraffic
  sources : compile go.netip m.sources .source allowWorkloads = .ok m'.compiledSources
  destinations :
    compile go.netip m.destinations .destination allowWorkloads = .ok m'.compiledDestinations
  pathRegex : m.pathRegexPattern = "" ∧ m'.compiledPathRegex = m.compiledPathRegex
    ∨ m.pathRegexPattern ≠ ""
      ∧ ∃ re, go.compileRegex m.pathRegexPattern = .ok re ∧ m'.compiledPathRegex = some re
  headers : (lowered m.headers).mapExcept (compileHeader go route j) = .ok m'.headers
  rest : m' = { m with
    compiledTraffic := m'.compiledTraffic, compiledSources := m'.compiledSources
    compiledDestinations := m'.compiledDestinations, compiledPathRegex := m'.compiledPathRegex
    headers := m'.headers }

theorem compilePath_eq_ok_iff {o : Option (String → Bool)} :
    compilePath go route i j m = .ok o
      ↔ m.pathRegexPattern = "" ∧ o = m.compiledPathRegex
        ∨ m.pathRegexPattern ≠ ""
          ∧ ∃ re, go.compileRegex m.pathRegexPattern = .ok re ∧ o = some re := by
  unfold compilePath
  by_cases hp : m.pathRegexPattern = ""
  · simp [hp, eq_comm]
  · rw [if_neg hp]
    cases go.compileRegex m.pathRegexPattern with
    | error e => simp [hp]
    | ok re => simp [hp, eq_comm]

theorem parseMatch_eq_ok_iff :
    parseMatch go allowWorkloads route i j m = .ok m'
      ↔ CompiledAs go allowWorkloads route j m m' := by
  unfold parseMatch MatchConfig.compile
  simp only [bind_eq_ok_iff, mapError_eq_ok]
  constructor
  · rintro ⟨m₁, ⟨traffic, htraffic, sources, hsources, destinations, hdestinations, hm₁⟩,
      regex, hregex, headers, hheaders, hm'⟩
    cases hm₁
    cases hm'
    exact ⟨htraffic, hsources, hdestinations, compilePath_eq_ok_iff.mp hregex, hheaders, rfl⟩
  · intro h
    exact ⟨_, ⟨_, h.traffic, _, h.sources, _, h.destinations, rfl⟩, m'.compiledPathRegex,
      compilePath_eq_ok_iff.mpr h.pathRegex, m'.headers, h.headers,
      congrArg Except.ok h.rest.symm⟩

theorem parseRoute_eq_ok_iff {r r' : RouteConfig} :
    parseRoute go allowWorkloads i r = .ok r'
      ↔ r'.name = r.name ∧ r'.targetChain = r.targetChain
        ∧ List.Forall₂ (fun e m' => CompiledAs go allowWorkloads r.name e.2 e.1 m')
            r.matches.zipIdx r'.matches := by
  unfold parseRoute
  constructor
  · intro h
    obtain ⟨entries, hentries, rfl⟩ := of_map_eq_ok h
    refine ⟨rfl, rfl, ?_⟩
    exact (mapM_eq_ok_iff.mp hentries).imp fun _ _ hm => parseMatch_eq_ok_iff.mp hm
  · rintro ⟨hname, htarget, hentries⟩
    have hall := hentries.imp fun e m' hm => (parseMatch_eq_ok_iff (i := i)).mpr hm
    rw [mapM_eq_ok_iff.mpr hall]
    show Except.ok _ = _
    rw [← hname, ← htarget]

/-- The entries of an accepted config are compiled entries of its file. -/
theorem Accepted.compiled {doc cfg : Config} (h : Accepted go doc cfg) {r' : RouteConfig}
    (hr' : r' ∈ cfg.router.routes) {m' : MatchConfig} (hm' : m' ∈ r'.matches) :
    ∃ r ∈ doc.router.routes, ∃ m ∈ r.matches, ∃ j,
      CompiledAs go doc.identity.enabled r.name j m m' := by
  obtain ⟨⟨r, i⟩, hr, hroute⟩ := exists_of_forall₂_right h.routes hr'
  obtain ⟨-, -, hentries⟩ := parseRoute_eq_ok_iff.mp hroute
  obtain ⟨⟨m, j⟩, hm, hcompiled⟩ := exists_of_forall₂_right hentries hm'
  exact ⟨r, List.mem_of_getElem? (List.mem_zipIdx_iff_getElem?.mp hr), m,
    List.mem_of_getElem? (List.mem_zipIdx_iff_getElem?.mp hm), j, hcompiled⟩

/-- The match entry at a position. -/
def Config.entry (cfg : Config) (i j : Nat) : Option MatchConfig :=
  cfg.router.routes[i]?.bind fun r => r.matches[j]?

theorem getElem?_zipIdx_of_getElem? {α : Type} {l : List α} {i : Nat} {a : α}
    (h : l[i]? = some a) : l.zipIdx[i]? = some (a, i) := by
  simp [h]

theorem Accepted.entry {doc cfg : Config} (h : Accepted go doc cfg) (hm : doc.entry i j = some m) :
    ∃ route m', cfg.entry i j = some m' ∧ CompiledAs go doc.identity.enabled route j m m' := by
  obtain ⟨r, hr, hentry⟩ := Option.bind_eq_some_iff.mp hm
  obtain ⟨r', hr', hroute⟩ := getElem?_of_forall₂ h.routes (getElem?_zipIdx_of_getElem? hr)
  obtain ⟨-, -, hentries⟩ := parseRoute_eq_ok_iff.mp hroute
  obtain ⟨m', hm', hcompiled⟩ :=
    getElem?_of_forall₂ hentries (getElem?_zipIdx_of_getElem? hentry)
  exact ⟨r.name, m', Option.bind_eq_some_iff.mpr ⟨r', hr', hm'⟩, hcompiled⟩

/-- The check of a route reads what parsing leaves alone. -/
theorem checkTarget_parsed {chains : AMap String (List FilterConfig)} {r r' : RouteConfig}
    (h : parseRoute go allowWorkloads i r = .ok r') :
    checkTarget chains r' = checkTarget chains r := by
  obtain ⟨hname, htarget, -⟩ := parseRoute_eq_ok_iff.mp h
  unfold checkTarget
  rw [hname, htarget]

variable (go) in
/-- A file in which every section passes its checks. -/
structure Acceptable (doc : Config) : Prop where
  redis : ∀ name r, doc.redis.lookup name = some r → ∃ r', applyRedisDefaults go r = .ok r'
  version : doc.version = "v1"
  server : ∃ server, parseServer go doc.server = .ok server
  routes : ∀ (i : Nat) r, doc.router.routes[i]? = some r →
    ∃ r', parseRoute go doc.identity.enabled i r = .ok r'
  unknownSource : ∃ v, parseUnknownSource doc.router.unknownSource = .ok v
  identity : ∃ id, parseIdentity doc.identity = .ok id
  chainSettings : ∀ name settings, doc.chainSettings.lookup name = some settings →
    ∃ settings', parseSettings go doc.chains name settings = .ok settings'
  targets : ∀ r ∈ doc.router.routes, checkTarget doc.chains r = .ok ()
  fallbacks : ∀ ref ∈ doc.router.fallbacks, checkFallback doc.chains ref = .ok ()

theorem Accepted.acceptable {doc cfg : Config} (h : Accepted go doc cfg) : Acceptable go doc where
  redis name r hr := by
    obtain ⟨r', hr', -⟩ := (AMap.lookup_mapExcept h.redis name).1 r hr
    exact ⟨r', hr'⟩
  version := h.version
  server := by
    obtain ⟨server, hserver, -⟩ := h.server
    exact ⟨server, hserver⟩
  routes i r hr := by
    obtain ⟨r', -, hr'⟩ := getElem?_of_forall₂ h.routes (getElem?_zipIdx_of_getElem? hr)
    exact ⟨r', hr'⟩
  unknownSource := ⟨_, h.unknownSource⟩
  identity := ⟨_, h.identity⟩
  chainSettings name settings hs := by
    obtain ⟨settings', hs', -⟩ := (AMap.lookup_mapExcept h.chainSettings name).1 settings hs
    exact ⟨settings', hs'⟩
  targets r hr := by
    obtain ⟨i, hi⟩ := List.mem_iff_getElem?.mp hr
    obtain ⟨r', hr', hparse⟩ := getElem?_of_forall₂ h.routes (getElem?_zipIdx_of_getElem? hi)
    rw [← checkTarget_parsed hparse]
    exact h.targets r' (List.mem_of_getElem? hr')
  fallbacks := h.fallbacks

theorem parseBytes_isOk_iff {doc : Config} :
    (∃ cfg, parseBytes go doc = .ok cfg) ↔ Acceptable go doc := by
  constructor
  · intro ⟨cfg, hcfg⟩
    exact ((parseBytes_eq_ok_iff go).mp hcfg).acceptable
  · intro h
    obtain ⟨redis, hredis⟩ := AMap.mapExcept_isOk h.redis
    obtain ⟨server, hserver⟩ := h.server
    obtain ⟨routes, hroutes⟩ : ∃ routes, List.Forall₂ (fun e route =>
        parseRoute go doc.identity.enabled e.2 e.1 = .ok route) doc.router.routes.zipIdx
        routes := by
      refine exists_forall₂ fun e he => h.routes e.2 e.1 ?_
      exact List.mem_zipIdx_iff_getElem?.mp he
    obtain ⟨unknownSource, hunknown⟩ := h.unknownSource
    obtain ⟨identity, hidentity⟩ := h.identity
    obtain ⟨chainSettings, hsettings⟩ := AMap.mapExcept_isOk h.chainSettings
    refine ⟨{ doc with
      redis, identity, chainSettings
      logging := _
      server := _
      router := { doc.router with routes, unknownSource } },
      (parseBytes_eq_ok_iff go).mpr ⟨hredis, h.version, hroutes, hunknown, hidentity, hsettings,
        ?_, h.fallbacks, server, hserver, rfl⟩⟩
    intro r' hr'
    obtain ⟨⟨r, i⟩, hr, hparse⟩ := exists_of_forall₂_right hroutes hr'
    rw [checkTarget_parsed hparse]
    exact h.targets r (List.mem_of_getElem? (List.mem_zipIdx_iff_getElem?.mp hr))

end Routes

end Hypergate.Routing
