import Hypergate.Grpc.Address
import Hypergate.Policy.Config
import Hypergate.Routing.SelectorSet

/-!
# The configuration file (`internal/config`)

`Config` is a config as it stands in the YAML text, every field at its own name,
together with the fields that parsing fills in (`compiled…`, `…Duration`).
`parseBytes` is what the engine makes of it: defaults, compiled routes, and every
check that can refuse the file.

Decoding the text is not modelled: `parseBytes` starts from the decoded value. A
`RedisServiceConfig` validates itself while it is decoded, so `parseBytes` starts
with that. Durations are nanoseconds. `time.ParseDuration`, `regexp.Compile` and
the environment are parameters (`GoLib`).

A loop over a Go map is a loop over the entries of the `AMap` in the order they
are in.
-/

namespace Hypergate.Routing

open Lib Identity Engine Policy

/-- What the code takes from the Go library and the environment. A compiled
regular expression is the set of texts it matches. Of `time.ParseDuration` only
the texts that are defaults are fixed. -/
structure GoLib where
  netip : Netip
  compileRegex : String → Except String (String → Bool)
  parseDuration : String → Except String Int
  durationString : Int → String
  getenv : String → String
  parse_0s : parseDuration "0s" = .ok 0
  parse_1s : parseDuration "1s" = .ok 1000000000
  parse_10s : parseDuration "10s" = .ok 10000000000
  parse_30s : parseDuration "30s" = .ok 30000000000

/-- Durations of whole seconds up to a minute, no regular expressions, and no
addresses. -/
def sampleGo : GoLib where
  netip := { parseAddr := fun _ => none, parsePrefix := fun _ => none, prefixString := fun _ => "" }
  compileRegex _ := .error "unsupported"
  parseDuration v :=
    if v = "0s" then .ok 0
    else if v = "1s" then .ok 1000000000
    else if v = "10s" then .ok 10000000000
    else if v = "30s" then .ok 30000000000
    else .error "unsupported"
  durationString _ := ""
  getenv _ := ""
  parse_0s := rfl
  parse_1s := rfl
  parse_10s := rfl
  parse_30s := rfl

/-! ## Routing -/

structure HeaderMatchConfig where
  exact : String := ""
  regexPattern : String := ""
  compiledRegex : Option (String → Bool) := none

/-- `MatchConfig`: the conditions of one match entry, all of which must hold. -/
structure MatchConfig where
  traffic : String := ""
  sources : List String := []
  destinations : List String := []
  compiledTraffic : Traffic := .any
  compiledSources : Option SelectorSet := none
  compiledDestinations : Option SelectorSet := none
  pathPrefix : String := ""
  pathRegexPattern : String := ""
  compiledPathRegex : Option (String → Bool) := none
  headers : AMap String HeaderMatchConfig := ∅

structure RouteConfig where
  name : String
  «matches» : List MatchConfig
  targetChain : String

structure DefaultChainsConfig where
  northSouth : String := ""
  eastWest : String := ""

structure RouterConfig where
  routes : List RouteConfig := []
  defaultChains : DefaultChainsConfig := {}
  defaultChain : String := ""
  other : String := ""
  unknownSource : String := ""

/-! ## The other sections -/

structure TLSConfig where
  enabled : Bool := false
  certFile : String := ""
  keyFile : String := ""
  caFile : String := ""
  mutualTLS : Bool := false

structure ShutdownConfig where
  quietPeriod : String := ""
  minDelay : String := ""
  maxDelay : String := ""
  drainTimeout : String := ""
  quietPeriodDuration : Int := 0
  minDelayDuration : Int := 0
  maxDelayDuration : Int := 0
  drainTimeoutDuration : Int := 0

structure ServerConfig where
  address : String := ""
  maxConcurrentStreams : Nat := 0
  poolPrewarmSize : Int := 0
  initialHeaderCapacity : Int := 0
  tls : TLSConfig := {}
  healthAddress : String := ""
  pprofAddress : String := ""
  clientIP : ClientIPConfig := {}
  shutdown : ShutdownConfig := {}

structure LoggingConfig where
  level : String := ""
  format : String := ""
  outputPath : String := ""

structure IdentityConfig where
  enabled : Bool := false
  address : String := ""
  caFile : String := ""
  serverName : String := ""
  tokenFile : String := ""
  insecure : Bool := false

/-- `ChainSettings` as written. -/
structure ChainSettings where
  timeout : String := ""
  maxConcurrency : Int := 0
  onTimeout : String := ""
  onOverload : String := ""
  timeoutDuration : Int := 0

structure Config where
  version : String := ""
  server : ServerConfig := {}
  logging : LoggingConfig := {}
  chains : AMap String (List FilterConfig) := ∅
  router : RouterConfig := {}
  redis : AMap String RedisServiceConfig := ∅
  chainSettings : AMap String ChainSettings := ∅
  identity : IdentityConfig := {}

end Hypergate.Routing
