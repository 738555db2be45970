import Hypergate.Lib.Listing
import Hypergate.Operator.Routes

/-!
# Custom resources (`hyper-operator/api/v1alpha1`)

The objects the operator compiles, as the API server returns them: all kinds are
cluster-scoped, so no two objects of a kind have the same name (`Listing`), and
every object satisfies the schema of its kind. What the schema promises is in the
types: an enumeration is an inductive type, a number with a minimum of zero a
natural number. An omitted enumeration is `none`, an omitted text the empty one.

A filter spec that is written to the engine as it stands is its YAML mapping,
with the names of the yaml tags. Of the ten kinds three name a Redis service.
-/

namespace Hypergate.Operator

open Lib Policy

/-! ## HyperRedis, HyperRoute and HyperChain -/

inductive RedisType where
  | single
  | cluster
  | sentinel

def RedisType.text : RedisType → String
  | .single => "SINGLE"
  | .cluster => "CLUSTER"
  | .sentinel => "SENTINEL"

/-- `HyperRedisSpec`. The schema says nothing about the timeout. -/
structure HyperRedisSpec where
  url : String
  type : RedisType
  poolSize : Nat := 0
  timeout : String := ""
  activeConnHealthCheck : Bool := false

structure HyperRedis where
  name : String
  spec : HyperRedisSpec

structure HyperRoute where
  name : String
  spec : HyperRouteSpec

/-- `FilterReference`. The kind is a text the schema restricts to `FilterKind`. -/
structure FilterReference where
  kind : String
  name : String
  audit : Option Bool := none

inductive ChainMode where
  | enforce
  | audit
deriving DecidableEq

structure HyperChainSpec where
  filters : List FilterReference
  mode : Option ChainMode := none
  timeout : String := ""
  maxConcurrency : Nat := 0
  onTimeout : Option LimitAction := none
  onOverload : Option LimitAction := none

structure HyperChain where
  name : String
  spec : HyperChainSpec

/-! ## HyperConfig -/

inductive LogLevel where
  | debug
  | info
  | warn
  | error

def LogLevel.text : LogLevel → String
  | .debug => "DEBUG"
  | .info => "INFO"
  | .warn => "WARN"
  | .error => "ERROR"

inductive UnknownSourcePolicy where
  | deny
  | default
deriving DecidableEq

structure DefaultChains where
  northSouth : String := ""
  eastWest : String := ""

/-- `HyperConfigSpec`, the fields the compiler reads. -/
structure HyperConfigSpec where
  serverAddress : String := ""
  maxConcurrentStreams : Nat := 0
  logLevel : Option LogLevel := none
  targetNamespace : String := ""
  trustedProxyHops : Nat := 0
  defaultChain : String := ""
  defaultChains : Option DefaultChains := none
  unknownSource : Option UnknownSourcePolicy := none
  poolPrewarmSize : Int := 0
  initialHeaderCapacity : Int := 0

/-- `HyperConfig`; `created` is the creation timestamp. -/
structure HyperConfig where
  name : String
  created : Int
  spec : HyperConfigSpec

/-! ## Filters -/

/-- The filter kinds. -/
inductive FilterKind where
  | rateLimit
  | headerModifier
  | deny
  | correlationId
  | redisMetadataEnricher
  | apiKey
  | externalAuth
  | firewall
  | jwtAuth
  | cors
deriving DecidableEq

namespace FilterKind

/-- The kind of that text. -/
def ofText (text : String) : Option FilterKind :=
  if text = "RateLimitFilter" then some rateLimit
  else if text = "HeaderModifierFilter" then some headerModifier
  else if text = "DenyFilter" then some deny
  else if text = "CorrelationIdFilter" then some correlationId
  else if text = "RedisMetadataEnricherFilter" then some redisMetadataEnricher
  else if text = "ApiKeyFilter" then some apiKey
  else if text = "ExternalAuthFilter" then some externalAuth
  else if text = "FirewallFilter" then some firewall
  else if text = "JwtAuthFilter" then some jwtAuth
  else if text = "CorsFilter" then some cors
  else none

/-- The type of the engine's filter. -/
def engineType : FilterKind → String
  | rateLimit => "embedded_rate_limiter"
  | headerModifier => "header_modifier"
  | deny => "deny"
  | correlationId => "correlation_id"
  | redisMetadataEnricher => "redis_metadata_enricher"
  | apiKey => "api_key"
  | externalAuth => "external_auth"
  | firewall => "firewall"
  | jwtAuth => "jwt_auth"
  | cors => "cors"

end FilterKind

/-- The YAML mapping of a spec, apart from its Redis service. No other field has
that tag. -/
structure SpecFields where
  fields : Options := ∅
  noService : fields.lookup "redis_service" = none := by rfl

/-- A spec without further fields. -/
def SpecFields.empty : SpecFields := {}

/-- A filter whose spec is written as it stands: `HeaderModifierFilter`,
`DenyFilter`, `CorrelationIdFilter`, `CorsFilter`. -/
structure SpecFilter where
  name : String
  spec : SpecFields := {}

/-- A filter that names a Redis service: `RateLimitFilter`,
`RedisMetadataEnricherFilter`, `ApiKeyFilter`. The service is a required field,
which the schema lets be any text. -/
structure RedisFilter where
  name : String
  redisService : String
  spec : SpecFields := {}

structure AuthSuccessRules where
  upstreamHeadersToAdd : List String := []
  upstreamHeadersToRemove : List String := []

structure AuthFailureRules where
  downstreamPassThroughHeaders : List String := []

structure EngineRulesSpec where
  timeout : String := ""
  forwardHeaders : List String := []
  path : String := ""
  onSuccess : AuthSuccessRules := {}
  onFailure : AuthFailureRules := {}

/-- `ExternalAuthFilter`, without its container. -/
structure ExternalAuthFilter where
  name : String
  protocol : String := ""
  engineRules : EngineRulesSpec := {}

structure FirewallEngineRulesSpec where
  timeout : String := ""
  forwardHeaders : List String := []
  inspectBody : Bool := false
  maxBodySizeKB : Int := 0
  onSuccess : AuthSuccessRules := {}
  onFailure : AuthFailureRules := {}

/-- `FirewallFilter`, without its container. -/
structure FirewallFilter where
  name : String
  protocol : String := ""
  engineRules : FirewallEngineRulesSpec := {}

structure SecretKeyRef where
  name : String
  key : String

/-- `JwtAuthFilter`; the two references are not part of the YAML mapping. -/
structure JwtAuthFilter where
  name : String
  spec : SpecFields := {}
  localSecretRef : Option SecretKeyRef := none
  introspectionAuthSecretRef : Option SecretKeyRef := none

/-! ## The cluster -/

/-- Everything the compiler lists. -/
structure Cluster where
  hyperConfigs : Listing HyperConfig HyperConfig.name := {}
  redis : Listing HyperRedis HyperRedis.name := {}
  routes : Listing HyperRoute HyperRoute.name := {}
  chains : Listing HyperChain HyperChain.name := {}
  rateLimit : Listing RedisFilter RedisFilter.name := {}
  headerModifier : Listing SpecFilter SpecFilter.name := {}
  deny : Listing SpecFilter SpecFilter.name := {}
  correlationId : Listing SpecFilter SpecFilter.name := {}
  redisMetadataEnricher : Listing RedisFilter RedisFilter.name := {}
  apiKey : Listing RedisFilter RedisFilter.name := {}
  externalAuth : Listing ExternalAuthFilter ExternalAuthFilter.name := {}
  firewall : Listing FirewallFilter FirewallFilter.name := {}
  jwtAuth : Listing JwtAuthFilter JwtAuthFilter.name := {}
  cors : Listing SpecFilter SpecFilter.name := {}

end Hypergate.Operator
