import Hypergate.Policy.Config

/-!
# The filter factory (`internal/filters/factory.go`)

`CreateFilter` turns a filter definition into an instance. Its switch over the
ten filter types differs in one respect that matters to the policy manager: the
three Redis-backed types decode `redis_service` and resolve it to a client
through the lookup the manager hands in. What the filter packages themselves
decide (whether the rest of the options is valid, whether the constructor
fails, whether the instance is an `io.Closer`) is the parameter `Packages`.

Clients are named by the address of the Redis entry that owns them.
-/

namespace Hypergate.Policy

open Lib

/-- The filter types of the switch. -/
inductive FilterType where
  | apiKey
  | redisMetadataEnricher
  | embeddedRateLimiter
  | headerModifier
  | deny
  | correlationId
  | externalAuth
  | firewall
  | cors
  | jwtAuth
deriving DecidableEq

namespace FilterType

/-- The case labels of the switch. -/
def label : FilterType → String
  | apiKey => "api_key"
  | redisMetadataEnricher => "redis_metadata_enricher"
  | embeddedRateLimiter => "embedded_rate_limiter"
  | headerModifier => "header_modifier"
  | deny => "deny"
  | correlationId => "correlation_id"
  | externalAuth => "external_auth"
  | firewall => "firewall"
  | cors => "cors"
  | jwtAuth => "jwt_auth"

def all : List FilterType :=
  [apiKey, redisMetadataEnricher, embeddedRateLimiter, headerModifier, deny, correlationId,
    externalAuth, firewall, cors, jwtAuth]

/-- The case a type text selects; `none` is the default case. -/
def ofLabel (s : String) : Option FilterType := all.find? (·.label = s)

/-- The types whose case calls `resolveRedis`. -/
def redisBacked : FilterType → Bool
  | apiKey | redisMetadataEnricher | embeddedRateLimiter => true
  | _ => false

end FilterType

/-- A type text that selects a Redis-backed case. -/
def redisBacked (type : String) : Prop := (FilterType.ofLabel type).any FilterType.redisBacked

instance (type : String) : Decidable (redisBacked type) :=
  inferInstanceAs (Decidable (_ = true))

/-- `RedisLookup`; `none` is the nil function. -/
abbrev RedisLookup := Option (String → Option Nat)

/-- What the manager observes of a new filter: the client it is bound to and
whether it implements `io.Closer`. -/
structure Compiled where
  client : Option Nat
  closer : Bool
deriving DecidableEq

/-- What the filter packages answer for given options: `parse` decodes and
validates, `construct` builds the instance and says whether it is a closer. -/
structure Packages where
  parse : FilterType → Options → Except String Unit
  construct : FilterType → Options → Except String Bool

def resolveRedis (lookup : RedisLookup) (filterType service : String) : Except String Nat :=
  match lookup with
  | none => .error (filterType ++ ": no redis services configured")
  | some find =>
    match find service with
    | none =>
      .error (filterType ++ ": configured redis service \"" ++ service ++ "\" not found")
    | some client => .ok client

def createFilter (codec : YamlCodec) (packages : Packages) (filterType : String)
    (rawOptions : Options) (lookup : RedisLookup) : Except String Compiled :=
  match codec.marshal rawOptions with
  | .error e =>
    .error ("failed to marshal raw options for filter type \"" ++ filterType ++ "\": " ++ e)
  | .ok optsBytes =>
    match FilterType.ofLabel filterType with
    | none => .error ("unknown filter type: " ++ filterType)
    | some t => do
        packages.parse t rawOptions
        if t.redisBacked then
          -- the options struct of these three types has a `redis_service` string field
          let service ← (decodeString (codec.service optsBytes)).mapError
            ("failed to unmarshal config for " ++ filterType ++ ": " ++ ·)
          let client ← resolveRedis lookup filterType service
          let closer ← packages.construct t rawOptions
          pure { client := some client, closer }
        else
          let closer ← packages.construct t rawOptions
          pure { client := none, closer }

/-- A filter factory. A filter is bound to a client only if the lookup it was
given returned that client. -/
structure FilterFactory where
  create : String → Options → RedisLookup → Except String Compiled
  bound : ∀ {type : String} {options : Options} {find : String → Option Nat} {f : Compiled}
    {client : Nat}, create type options (some find) = .ok f → f.client = some client →
    ∃ service, find service = some client

/-- `resolveRedis` succeeds exactly with the client the lookup has. -/
theorem resolveRedis_eq_ok {find : String → Option Nat} {filterType service : String}
    {client : Nat} (h : resolveRedis (some find) filterType service = .ok client) :
    find service = some client := by
  unfold resolveRedis at h
  cases hfind : find service with
  | none => simp [hfind] at h
  | some c =>
    simp only [hfind] at h
    exact congrArg some (Except.ok.inj h)

/-- The client of a new filter: a Redis-backed one has the client of its
decoded service, the others have none. -/
theorem createFilter_client {codec : YamlCodec} {packages : Packages} {filterType : String}
    {options : Options} {find : String → Option Nat} {f : Compiled}
    (h : createFilter codec packages filterType options (some find) = .ok f) :
    (redisBacked filterType → ∃ service client, decodeService options = .ok service ∧
      find service = some client ∧ f.client = some client) ∧
    (¬ redisBacked filterType → f.client = none) := by
  unfold createFilter at h
  split at h
  · cases h
  rename_i optsBytes hbytes
  split at h
  · cases h
  rename_i t ht
  obtain ⟨_, _, h⟩ := of_bind_eq_ok h
  unfold redisBacked
  rw [ht]
  cases hb : t.redisBacked with
  | false =>
    rw [hb] at h
    obtain ⟨closer, _, h⟩ := of_bind_eq_ok h
    obtain rfl := Except.ok.inj h
    simp [hb]
  | true =>
    rw [hb, if_pos rfl] at h
    obtain ⟨service, hservice, h⟩ := of_bind_eq_ok h
    obtain ⟨client, hclient, h⟩ := of_bind_eq_ok h
    obtain ⟨closer, _, h⟩ := of_bind_eq_ok h
    obtain rfl := Except.ok.inj h
    refine ⟨fun _ => ⟨service, client, ?_, resolveRedis_eq_ok hclient, rfl⟩,
      fun hn => absurd hb (by simpa using hn)⟩
    rw [codec.service_marshal hbytes] at hservice
    exact mapError_eq_ok.mp hservice

/-- `CreateFilter` as the manager's factory. -/
def createFilterFactory (codec : YamlCodec) (packages : Packages) : FilterFactory where
  create := createFilter codec packages
  bound := by
    intro type options find f client h hclient
    obtain ⟨hbacked, hplain⟩ := createFilter_client h
    by_cases hb : redisBacked type
    · obtain ⟨service, client', _, hfind, hc⟩ := hbacked hb
      rw [hc] at hclient
      exact ⟨service, hclient ▸ hfind⟩
    · rw [hplain hb] at hclient
      cases hclient

end Hypergate.Policy
