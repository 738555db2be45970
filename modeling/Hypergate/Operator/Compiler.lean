import Mathlib.Data.List.Sort
import Hypergate.Operator.Resources

/-!
# The master compiler (`hyperchain_master_compiler.go`, `common.go`, `identity.go`)

`reconcile` builds one engine config for every target namespace from all custom
resources. The Redis services, the chains and the routes are compiled once and
shared by every config. A chain that cannot be compiled, or that is named but does
not exist, becomes the deny-all chain; a route that cannot be compiled is left out.

`sort.Slice` may leave routes of equal priority in any order, so the sorted routes
are an argument of `reconcile` (`PrioritySorted`). A loop over a Go map is a loop
over the entries of the `AMap` in the order they are in. Listing the objects,
status updates and writing a ConfigMap succeed.
-/

namespace Hypergate.Operator

open Lib Engine Policy Routing

/-! ## Filter options -/

/-- `yaml.Marshal` of options and `yaml.Unmarshal` of its text, which reads back
what was written. -/
structure SpecCodec where
  marshal : Options → Except String String
  unmarshal : String → Except String Options
  faithful : ∀ {options : Options} {text : String},
    marshal options = .ok text → unmarshal text = .ok options

/-- The text of options with at most a Redis service. Others are refused. -/
def sampleText (options : Options) : Except String String :=
  match options.entries with
  | [] => .ok ""
  | [⟨key, .str v⟩] => if key = "redis_service" then .ok ("=" ++ v) else .error "unsupported"
  | _ => .error "unsupported"

/-- What `sampleText` writes, as a codec. -/
def sampleCodec : SpecCodec where
  marshal := sampleText
  unmarshal text :=
    match text.toList with
    | [] => .ok ∅
    | _ :: v => .ok (AList.singleton "redis_service" (.str (String.ofList v)))
  faithful := by
    intro options text h
    unfold sampleText at h
    split at h
    · rename_i hnil
      cases h
      exact congrArg Except.ok (AList.ext hnil).symm
    · rename_i key v hone
      split at h
      · rename_i hkey
        cases h
        rw [String.toList_append]
        refine congrArg Except.ok (AList.ext ?_).symm
        rw [hone, hkey]
        show _ = [(⟨"redis_service", .str (String.ofList v.toList)⟩ : Sigma fun _ : String => Yaml)]
        rw [String.ofList_toList]
      · cases h
    · cases h

/-- A spec translated into an options mapping by way of its text. -/
def SpecCodec.readBack (codec : SpecCodec) (options : Options) : Except String Options := do
  let text ← (codec.marshal options).mapError ("Failed to marshal filter options: " ++ ·)
  (codec.unmarshal text).mapError ("Failed to unmarshal filter options into map: " ++ ·)

def yamlStrings (l : List String) : Yaml := .seq (l.map .str)

def yamlBool (b : Bool) : Yaml := .scalar (if b then "true" else "false")

/-- `on_success`. -/
def AuthSuccessRules.yaml (r : AuthSuccessRules) : Yaml :=
  .map [("upstream_headers_to_add", yamlStrings r.upstreamHeadersToAdd),
    ("upstream_headers_to_remove", yamlStrings r.upstreamHeadersToRemove)]

/-- `on_failure`. -/
def AuthFailureRules.yaml (r : AuthFailureRules) : Yaml :=
  .map [("downstream_pass_through_headers", yamlStrings r.downstreamPassThroughHeaders)]

def SpecFilter.options (f : SpecFilter) : Options := f.spec.fields

def RedisFilter.options (f : RedisFilter) : Options :=
  f.spec.fields.insert "redis_service" (.str f.redisService)

def ExternalAuthFilter.options (f : ExternalAuthFilter) : Options :=
  AMap.insertAll ∅
    [("protocol", .str f.protocol),
      ("socket_path", .str ("/var/run/hypergate/ext-auth-" ++ f.name ++ ".sock")),
      ("timeout", .str f.engineRules.timeout),
      ("path", .str f.engineRules.path),
      ("forward_headers", yamlStrings f.engineRules.forwardHeaders),
      ("on_success", f.engineRules.onSuccess.yaml),
      ("on_failure", f.engineRules.onFailure.yaml)]

def FirewallFilter.options (f : FirewallFilter) : Options :=
  AMap.insertAll ∅
    [("protocol", .str f.protocol),
      ("socket_path", .str ("/var/run/hypergate/fw-" ++ f.name ++ ".sock")),
      ("timeout", .str f.engineRules.timeout),
      ("inspect_body", yamlBool f.engineRules.inspectBody),
      ("max_body_size_kb", .scalar (toString f.engineRules.maxBodySizeKB)),
      ("forward_headers", yamlStrings f.engineRules.forwardHeaders),
      ("on_success", f.engineRules.onSuccess.yaml),
      ("on_failure", f.engineRules.onFailure.yaml)]

def jwtSecretDir (filterName : String) : String := "/etc/hypergate/secrets/jwt-" ++ filterName

def jwtSecretFile (filterName : String) (ref : SecretKeyRef) (file : String) : String :=
  jwtSecretDir filterName ++ "/" ++ ref.name ++ "/" ++ file

/-- An option set to the file of a secret, if there is one. -/
def withSecretFile (options : Options) (option filterName file : String)
    (ref : Option SecretKeyRef) : Options :=
  match ref with
  | none => options
  | some ref => options.insert option (.str (jwtSecretFile filterName ref file))

/-- `jwtAuthOptions`: a spec that cannot be written is taken for an empty one. -/
def jwtAuthOptions (codec : SpecCodec) (f : JwtAuthFilter) : Options :=
  let options := match codec.readBack f.spec.fields with
    | .ok options => options
    | .error _ => ∅
  let options :=
    withSecretFile options "local_secret_file" f.name "local-secret" f.localSecretRef
  withSecretFile options "introspection_auth_header_file" f.name "introspection-auth"
    f.introspectionAuthSecretRef

/-- The options of a filter of that kind and name, if there is one. -/
def Cluster.filterOptions (codec : SpecCodec) (c : Cluster) (kind : FilterKind)
    (name : String) : Option Options :=
  match kind with
  | .rateLimit => (c.rateLimit.index.lookup name).map RedisFilter.options
  | .headerModifier => (c.headerModifier.index.lookup name).map SpecFilter.options
  | .deny => (c.deny.index.lookup name).map SpecFilter.options
  | .correlationId => (c.correlationId.index.lookup name).map SpecFilter.options
  | .redisMetadataEnricher =>
    (c.redisMetadataEnricher.index.lookup name).map RedisFilter.options
  | .apiKey => (c.apiKey.index.lookup name).map RedisFilter.options
  | .externalAuth => (c.externalAuth.index.lookup name).map ExternalAuthFilter.options
  | .firewall => (c.firewall.index.lookup name).map FirewallFilter.options
  | .jwtAuth => (c.jwtAuth.index.lookup name).map (jwtAuthOptions codec)
  | .cors => (c.cors.index.lookup name).map SpecFilter.options

/-! ## Chains -/

/-- `degradedChain`: rejects every request. -/
def degradedChain : List FilterConfig :=
  [{ type := "deny"
     options := AMap.insertAll ∅
      [("status_code", .scalar "503"), ("body", .str "Service Unavailable")] }]

def filterAudited (chain : HyperChain) (ref : FilterReference) : Bool :=
  match ref.audit with
  | some audit => audit
  | none => decide (chain.spec.mode = some .audit)

/-- The type and the options of the filter a reference names. -/
def Cluster.resolve (codec : SpecCodec) (c : Cluster) (ref : FilterReference) :
    Except String (String × Options) :=
  match FilterKind.ofText ref.kind with
  | none => .error ("Unknown filter Kind " ++ ref.kind)
  | some kind =>
    match c.filterOptions codec kind ref.name with
    | none => .error ("Filter " ++ ref.name ++ " of Kind " ++ ref.kind ++ " not found")
    | some options => .ok (kind.engineType, options)

/-- One filter reference of a chain. -/
def compileFilter (codec : SpecCodec) (c : Cluster) (chain : HyperChain)
    (ref : FilterReference) : Except String FilterConfig := do
  let (type, resolved) ← c.resolve codec ref
  let options ← codec.readBack resolved
  .ok { name := ref.kind ++ "/" ++ ref.name, audit := filterAudited chain ref, type, options }

/-- A duration that `chainSettings` accepts as a timeout. -/
def positiveDuration (go : GoLib) (v : String) : Bool :=
  match go.parseDuration v with
  | .error _ => false
  | .ok d => decide (0 < d)

/-- The engine's value of a limit action. -/
def actionText : Option LimitAction → String
  | some .allow => "allow"
  | _ => "deny"

/-- `chainSettings`: the limits of a chain, if it sets any. -/
def chainSettings (go : GoLib) (spec : HyperChainSpec) :
    Except String (Option Routing.ChainSettings) :=
  if spec.timeout = "" ∧ spec.maxConcurrency = 0 then .ok none
  else if spec.timeout ≠ "" ∧ positiveDuration go spec.timeout = false then
    .error ("invalid timeout " ++ quote spec.timeout ++
      ": must be a positive duration such as 300ms")
  else
    .ok (some
      { timeout := spec.timeout
        maxConcurrency := spec.maxConcurrency
        onTimeout := actionText spec.onTimeout
        onOverload := actionText spec.onOverload })

/-- The filters and the limits of a chain, or the first thing that is wrong with it. -/
def compileChain (go : GoLib) (codec : SpecCodec) (c : Cluster) (chain : HyperChain) :
    Except String (List FilterConfig × Option Routing.ChainSettings) := do
  let filters ← chain.spec.filters.mapM (compileFilter codec c chain)
  let limits ← chainSettings go chain.spec
  .ok (filters, limits)

/-! ## The shared policy -/

/-- The status the compiler reports for an object. -/
structure Status where
  state : String
  message : String

/-- What every config shares, as the loops build it, and the statuses. -/
structure Shared where
  chains : AMap String (List FilterConfig) := ∅
  limits : AMap String Routing.ChainSettings := ∅
  routes : List RouteConfig := []
  chainStatus : AMap String Status := ∅
  routeStatus : AMap String Status := ∅

/-- The loop body over the HyperChains. -/
def Shared.addChain (go : GoLib) (codec : SpecCodec) (c : Cluster) (s : Shared)
    (chain : HyperChain) : Shared :=
  match compileChain go codec c chain with
  | .error msg =>
    { s with
      chains := s.chains.insert chain.name degradedChain
      chainStatus := s.chainStatus.insert chain.name ⟨"Degraded", msg⟩ }
  | .ok (filters, limits) =>
    { s with
      chains := s.chains.insert chain.name filters
      limits := match limits with
        | none => s.limits
        | some limits => s.limits.insert chain.name limits
      chainStatus := s.chainStatus.insert chain.name ⟨"Ready", "Chain successfully compiled"⟩ }

/-- The loop body over the HyperRoutes. -/
def Shared.addRoute (go : GoLib) (opts : RouteOptions) (s : Shared) (route : HyperRoute) :
    Shared :=
  match route.spec.compile go opts with
  | .error msg => { s with routeStatus := s.routeStatus.insert route.name ⟨"Invalid", msg⟩ }
  | .ok entries =>
    { s with
      chains := if s.chains.lookup route.spec.targetPolicy = none then
          s.chains.insert route.spec.targetPolicy degradedChain
        else s.chains
      routes := s.routes ++
        [{ name := route.name, targetChain := route.spec.targetPolicy, «matches» := entries }]
      routeStatus := s.routeStatus.insert route.name ⟨"Ready", "Route compiled"⟩ }

/-- The compiled chains and routes. -/
def compileShared (go : GoLib) (codec : SpecCodec) (opts : RouteOptions) (c : Cluster)
    (sorted : List HyperRoute) : Shared :=
  sorted.foldl (Shared.addRoute go opts) (c.chains.items.foldl (Shared.addChain go codec c) {})

/-- The order `sort.Slice` leaves the routes in. -/
structure PrioritySorted (routes sorted : List HyperRoute) : Prop where
  perm : sorted.Perm routes
  pairwise : sorted.Pairwise fun a b => b.spec.priority ≤ a.spec.priority

/-- The engine's Redis service of a HyperRedis; the fields it does not set are
empty. -/
def HyperRedis.engineConfig (hr : HyperRedis) : RedisServiceConfig where
  url := hr.spec.url
  type := hr.spec.type.text
  poolSize := hr.spec.poolSize
  timeout := hr.spec.timeout
  activeConnHealthCheck := hr.spec.activeConnHealthCheck
  socketType := ""
  pipelineWindow := ""
  pipelineWindowDuration := 0
  clusterPipelineParallelism := 0
  timeoutDuration := 0
  onEmptyBehavior := ""
  waitTimeout := ""
  waitTimeoutDuration := 0
  startupInitialInterval := ""
  startupInitialIntervalDuration := 0
  startupMaxInterval := ""
  startupMaxIntervalDuration := 0
  startupMaxElapsedTime := ""
  startupMaxElapsedTimeDuration := 0

/-- The Redis section of every config. -/
def Cluster.redisConfigs (c : Cluster) : AMap String RedisServiceConfig :=
  AMap.insertAll ∅ (c.redis.items.map fun hr => (hr.name, hr.engineConfig))

/-! ## Which HyperConfigs are active (`common.go`) -/

def targetNamespaceOf (hc : HyperConfig) : String :=
  orDefault hc.spec.targetNamespace "hyper-system"

/-- The order of `activeHyperConfigs`: the older first, then the lower name. -/
def HyperConfig.less (a b : HyperConfig) : Bool :=
  if a.created ≠ b.created then decide (a.created < b.created) else decide (a.name < b.name)

/-- One HyperConfig in the loop of `activeHyperConfigs`. -/
def claimNamespace (acc : AMap String HyperConfig × AMap String String) (hc : HyperConfig) :
    AMap String HyperConfig × AMap String String :=
  match acc.1.lookup (targetNamespaceOf hc) with
  | some owner => (acc.1, acc.2.insert hc.name owner.name)
  | none => (acc.1.insert (targetNamespaceOf hc) hc, acc.2)

/-- `activeHyperConfigs`: the winners by namespace, and for every loser the name of
the winner. -/
def activeHyperConfigs (items : List HyperConfig) :
    AMap String HyperConfig × AMap String String :=
  (items.insertionSort fun a b => b.less a = false).foldl claimNamespace (∅, ∅)

/-! ## The configs -/

/-- `ReferencedChains`, one field: the first field that names a chain counts. -/
def addReference (refs : AMap String String) (ref : String × String) : AMap String String :=
  if ref.2 ≠ "" ∧ refs.lookup ref.2 = none then refs.insert ref.2 ref.1 else refs

/-- The fields of a HyperConfig that name chains. -/
def HyperConfigSpec.chainFields (spec : HyperConfigSpec) : List (String × String) :=
  ("defaultChain", spec.defaultChain) ::
    match spec.defaultChains with
    | none => []
    | some dc =>
      [("defaultChains.northSouth", dc.northSouth), ("defaultChains.eastWest", dc.eastWest)]

def referencedChains (spec : HyperConfigSpec) : AMap String String :=
  spec.chainFields.foldl addReference ∅

def defaultChains (spec : HyperConfigSpec) : DefaultChainsConfig :=
  match spec.defaultChains with
  | none => {}
  | some dc => { northSouth := dc.northSouth, eastWest := dc.eastWest }

def unknownSource (spec : HyperConfigSpec) : String :=
  if spec.unknownSource = some .default then "default" else "deny"

/-- `IdentitySettings`, without the operator's own CA file. -/
structure IdentitySettings where
  enabled : Bool := false
  address : String := ""
  serverName : String := ""
  insecure : Bool := false

/-- `IdentitySettings.engineConfig`. -/
def IdentitySettings.engineConfig (s : IdentitySettings) : IdentityConfig :=
  if !s.enabled then {}
  else
    { enabled := true
      address := s.address
      serverName := s.serverName
      tokenFile := "/var/run/secrets/hypergate/identity/token"
      insecure := s.insecure
      caFile := if s.insecure then "" else "/etc/hypergate/identity/ca.crt" }

/-- The variables `chainConfigs` and `chains` while one config is built. Until the
first chain is added they are one map (`own` is `none`), and a write to one would
be a write to both. -/
structure ChainMaps where
  shared : AMap String (List FilterConfig)
  own : Option (AMap String (List FilterConfig)) := none

/-- The variable `chains`. -/
def ChainMaps.chains (m : ChainMaps) : AMap String (List FilterConfig) := m.own.getD m.shared

/-- `chains[name] = degradedChain()`. -/
def ChainMaps.setDegraded (m : ChainMaps) (name : String) : ChainMaps :=
  match m.own with
  | none => { m with shared := m.shared.insert name degradedChain }
  | some own => { m with own := some (own.insert name degradedChain) }

/-- One referenced chain: the map is copied before the first write. -/
def ChainMaps.addMissing (m : ChainMaps) (name : String) : ChainMaps :=
  if m.shared.lookup name ≠ none then m
  else if m.chains.entries.length = m.shared.entries.length then
    { m with own := some m.shared : ChainMaps }.setDegraded name
  else m.setDegraded name

/-- The config of a namespace. -/
def engineConfig (identity : IdentitySettings) (c : Cluster) (s : Shared)
    (chains : AMap String (List FilterConfig)) (hc : HyperConfig) : Routing.Config where
  version := "v1"
  server :=
    { address := hc.spec.serverAddress
      maxConcurrentStreams := hc.spec.maxConcurrentStreams
      poolPrewarmSize := hc.spec.poolPrewarmSize
      initialHeaderCapacity := hc.spec.initialHeaderCapacity
      healthAddress := ":9003"
      clientIP := { trustedProxyHops := hc.spec.trustedProxyHops } }
  logging := { level := (hc.spec.logLevel.map LogLevel.text).getD "" }
  redis := c.redisConfigs
  chains
  chainSettings := s.limits
  router :=
    { routes := s.routes
      defaultChains := defaultChains hc.spec
      defaultChain := hc.spec.defaultChain
      unknownSource := unknownSource hc.spec }
  identity := identity.engineConfig

/-- The variables of the last loop: `chainConfigs`, and what has been written. -/
structure Written where
  shared : AMap String (List FilterConfig)
  configs : AMap String Routing.Config := ∅

/-- The loop body over the active HyperConfigs. -/
def Written.add (identity : IdentitySettings) (c : Cluster) (s : Shared) (w : Written)
    (e : String × HyperConfig) : Written :=
  let maps := (referencedChains e.2.spec).keys.foldl ChainMaps.addMissing { shared := w.shared }
  { shared := maps.shared
    configs := w.configs.insert e.1 (engineConfig identity c s maps.chains e.2) }

/-- What a reconciliation leaves: the config of each target namespace, and the
statuses. -/
structure Outcome where
  configs : AMap String Routing.Config := ∅
  chainStatus : AMap String Status := ∅
  routeStatus : AMap String Status := ∅

/-- `Reconcile`. Without a HyperConfig there is nothing to compile for. -/
def reconcile (go : GoLib) (codec : SpecCodec) (identity : IdentitySettings) (c : Cluster)
    (sorted : List HyperRoute) : Outcome :=
  if c.hyperConfigs.items = [] then {}
  else
    let s := compileShared go codec ⟨identity.enabled⟩ c sorted
    let w := (activeHyperConfigs c.hyperConfigs.items).1.toList.foldl
      (Written.add identity c s) { shared := s.chains }
    { configs := w.configs, chainStatus := s.chainStatus, routeStatus := s.routeStatus }

end Hypergate.Operator
