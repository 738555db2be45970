import Hypergate.Lib.AMap

/-!
# Configuration (`internal/config`)

The parts of the parsed configuration that the policy manager and the gRPC
server read: filter definitions with their untyped options, Redis services,
chain limits and the router's handling of unknown callers.

Filter options are a YAML mapping decoded into `map[string]interface{}`. What
the manager observes of a value is whether it is a Go string, so `Yaml` keeps
strings apart from the other scalars (booleans, numbers, timestamps), which are
represented by the text they are written as.
-/

namespace Hypergate.Policy

open Lib

/-- A decoded YAML value. -/
inductive Yaml where
  | null
  /-- A scalar that is not a string, with its text. -/
  | scalar (text : String)
  | str (s : String)
  | seq (items : List Yaml)
  | map (entries : List (String × Yaml))

/-- `map[string]interface{}`. -/
abbrev Options := AMap String Yaml

/-- Decoding an option into a field of type `string`: a scalar becomes its
text, an absent or null one leaves the zero value, a collection is an error. -/
def decodeString : Option Yaml → Except String String
  | none => .ok ""
  | some .null => .ok ""
  | some (.scalar text) => .ok text
  | some (.str s) => .ok s
  | some (.seq _) => .error "cannot unmarshal !!seq into string"
  | some (.map _) => .error "cannot unmarshal !!map into string"

/-- The field `redis_service` of a filter's options, decoded. -/
def decodeService (options : Options) : Except String String :=
  decodeString (options.lookup "redis_service")

/-- The type assertion `options["redis_service"].(string)`. -/
def serviceString (options : Options) : Option String :=
  match options.lookup "redis_service" with
  | some (.str s) => some s
  | _ => none

/-- `yaml.Marshal` on options, and what its text says about `redis_service`.
The text ends in a newline and holds no NUL, since YAML writes control
characters as escapes. -/
structure YamlCodec where
  marshal : Options → Except String String
  /-- The `redis_service` entry of a marshalled mapping. -/
  service : String → Option Yaml
  service_marshal : ∀ {options : Options} {text : String},
    marshal options = .ok text → service text = options.lookup "redis_service"
  no_nul : ∀ {options : Options} {text : String},
    marshal options = .ok text → '\x00' ∉ text.toList
  ends_newline : ∀ {options : Options} {text : String},
    marshal options = .ok text → text.toList.getLast? = some '\n'

/-- The text of three option mappings: empty, a service named by a number, and
a service named by a string. Others are refused. -/
def sampleMarshal (options : Options) : Except String String :=
  match options.lookup "redis_service" with
  | none => .ok "\x7b\x7d\n"
  | some (.scalar "5") => .ok "redis_service: 5\n"
  | some (.str "cache") => .ok "redis_service: cache\n"
  | _ => .error "unsupported"

theorem sampleMarshal_cases {options : Options} {text : String}
    (h : sampleMarshal options = .ok text) :
    (options.lookup "redis_service" = none ∧ text = "\x7b\x7d\n") ∨
    (options.lookup "redis_service" = some (.scalar "5") ∧ text = "redis_service: 5\n") ∨
    (options.lookup "redis_service" = some (.str "cache") ∧ text = "redis_service: cache\n") := by
  unfold sampleMarshal at h
  split at h
  · exact .inl ⟨‹_›, (Except.ok.inj h).symm⟩
  · exact .inr (.inl ⟨‹_›, (Except.ok.inj h).symm⟩)
  · exact .inr (.inr ⟨‹_›, (Except.ok.inj h).symm⟩)
  · cases h

/-- What `sampleMarshal` writes, as a codec. -/
def sampleYaml : YamlCodec where
  marshal := sampleMarshal
  service text :=
    if text = "redis_service: 5\n" then some (.scalar "5")
    else if text = "redis_service: cache\n" then some (.str "cache")
    else none
  service_marshal := by
    intro options text h
    rcases sampleMarshal_cases h with ⟨ho, rfl⟩ | ⟨ho, rfl⟩ | ⟨ho, rfl⟩
    · rw [ho]; rfl
    · rw [ho]; rfl
    · rw [ho]; rfl
  no_nul := by
    intro options text h
    rcases sampleMarshal_cases h with ⟨_, rfl⟩ | ⟨_, rfl⟩ | ⟨_, rfl⟩ <;> decide
  ends_newline := by
    intro options text h
    rcases sampleMarshal_cases h with ⟨_, rfl⟩ | ⟨_, rfl⟩ | ⟨_, rfl⟩ <;> decide

/-- `FilterConfig`. `Name` labels metrics only. -/
structure FilterConfig where
  name : String := ""
  audit : Bool := false
  type : String
  options : Options

/-- `RedisServiceConfig` with the defaults of `applyRedisDefaults`; durations
are in nanoseconds. The manager compares two of them with `reflect.DeepEqual`. -/
structure RedisServiceConfig where
  type : String := "SINGLE"
  socketType : String := "tcp"
  url : String := "localhost:6379"
  poolSize : Int := 10
  auth : String := ""
  tls : Bool := false
  tlsClientCert : String := ""
  tlsClientKey : String := ""
  tlsCACert : String := ""
  tlsSkipHostnameVerification : Bool := false
  pipelineWindow : String := "0s"
  pipelineWindowDuration : Int := 0
  clusterPipelineParallelism : Int := 1
  sentinelAuth : String := ""
  activeConnHealthCheck : Bool := false
  timeout : String := "10s"
  timeoutDuration : Int := 10000000000
  onEmptyBehavior : String := "WAIT"
  waitTimeout : String := "1s"
  waitTimeoutDuration : Int := 1000000000
  startupInitialInterval : String := "1s"
  startupInitialIntervalDuration : Int := 1000000000
  startupMaxInterval : String := "30s"
  startupMaxIntervalDuration : Int := 30000000000
  startupMaxElapsedTime : String := "0s"
  startupMaxElapsedTimeDuration : Int := 0
deriving DecidableEq

/-- The values of `on_timeout` and `on_overload`. -/
inductive LimitAction where
  | deny
  | allow
deriving DecidableEq

/-- `ChainSettings` after validation; the zero value sets no limit. -/
structure ChainSettings where
  timeoutDuration : Int := 0
  maxConcurrency : Int := 0
  onTimeout : LimitAction := .deny
  onOverload : LimitAction := .deny

/-- `RouterConfig`, as the server reads it: every `unknown_source` but
`"default"` denies. -/
structure RouterConfig where
  unknownSource : String := ""

structure ClientIPConfig where
  trustedProxyHops : Int := 0

structure ServerConfig where
  clientIP : ClientIPConfig := {}

structure Config where
  server : ServerConfig := {}
  chains : AMap String (List FilterConfig)
  router : RouterConfig := {}
  redis : AMap String RedisServiceConfig
  chainSettings : AMap String ChainSettings := ∅

namespace Config

/-- Every filter definition of every chain. -/
def filterConfigs (cfg : Config) : List FilterConfig := cfg.chains.toList.flatMap (·.2)

theorem mem_filterConfigs {cfg : Config} {fc : FilterConfig} :
    fc ∈ cfg.filterConfigs ↔ ∃ name fcs, cfg.chains.lookup name = some fcs ∧ fc ∈ fcs := by
  unfold filterConfigs
  rw [List.mem_flatMap]
  constructor
  · rintro ⟨⟨name, fcs⟩, hmem, hfc⟩
    exact ⟨name, fcs, AMap.mem_toList.mp hmem, hfc⟩
  · rintro ⟨name, fcs, hlook, hfc⟩
    exact ⟨(name, fcs), AMap.mem_toList.mpr hlook, hfc⟩

end Config

end Hypergate.Policy
