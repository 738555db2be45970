import Hypergate.Engine.Registry
import Hypergate.Lib.Strings
import Hypergate.Policy.Factory

/-!
# The policy manager (`internal/policy/manager.go`)

`Apply` builds a complete policy (Redis clients, then every filter of every
chain), publishes it with `Swap`, and leaves it to the snapshot it replaced to
close what the new policy no longer needs. A failure during the build closes
what was created so far and leaves everything else alone.

Go pointers are natural numbers here. A Redis entry and its client are named by
the address of the entry, a filter instance by a number of its own; both come
from counters in `World`, so an address is never used twice. (The source relies
on less: a key of the filter map can only name an entry of the Redis map, which
is still referenced.) Closing is observable as the list of resources a call
closed, in order.
-/

namespace Hypergate.Policy

open Lib Engine

/-- `redisEntry`, with its address. The client has no other identity. Whether a
health checker runs for it (`stopHealth != nil`) is kept in `World.health`. -/
structure RedisEntry where
  ptr : Nat
  cfg : RedisServiceConfig
deriving DecidableEq

/-- A filter instance. -/
structure Instance where
  id : Nat
  client : Option Nat
  /-- Implements `io.Closer`. -/
  closer : Bool
deriving DecidableEq

/-- One position of a chain: `f`, or `engine.Audit(f)`. -/
structure Slot where
  filter : Instance
  audited : Bool
deriving DecidableEq

/-- What `engine.NewSnapshot` is given. -/
structure Published where
  config : Config
  chains : AMap String (List Slot)

/-- Something with a `Close` method that the manager created. -/
inductive Resource where
  | filter (id : Nat)
  | client (ptr : Nat)
deriving DecidableEq

/-- `closeFilters`: the filters that implement `io.Closer` are closed. -/
def closeFilters (fs : List Instance) : List Resource :=
  (fs.filter (·.closer)).map (.filter ·.id)

/-- The closure `Apply` hands to `Swap`. -/
structure Cleanup where
  retiredFilters : List Instance
  retiredRedis : List RedisEntry

/-- What the closure closes. -/
def Cleanup.run (c : Cleanup) : List Resource :=
  closeFilters c.retiredFilters ++ c.retiredRedis.map (.client ·.ptr)

/-- The manager's maps. -/
structure Manager where
  redis : AMap String RedisEntry := ∅
  filters : AMap String Instance := ∅
  ready : Bool := false
  /-- Nanoseconds. -/
  reloadDialTimeout : Int := 30000000000

/-- Everything `Apply` reads or writes. -/
structure World where
  manager : Manager := {}
  registry : ChainRegistry (Option Published) Cleanup := .new none
  /-- `config.GlobalConfig`. -/
  globalConfig : Option Config := none
  /-- The entries with a running health checker. -/
  health : List Nat := []
  nextPtr : Nat := 0
  nextFilter : Nat := 0

/-- Created by some earlier call. -/
def World.allocated (w : World) : Resource → Prop
  | .client ptr => ptr < w.nextPtr
  | .filter id => id < w.nextFilter

instance (w : World) : DecidablePred w.allocated
  | .client ptr => inferInstanceAs (Decidable (ptr < w.nextPtr))
  | .filter id => inferInstanceAs (Decidable (id < w.nextFilter))

/-- What the factories do during one `Apply`. `dial` is told whether the
context it gets is bounded by `ReloadDialTimeout`. -/
structure Factories where
  dial : Bool → String → RedisServiceConfig → Except String Unit
  filters : FilterFactory

def filterKey (codec : YamlCodec) (fc : FilterConfig) (nextRedis : AMap String RedisEntry) :
    Except String String :=
  match codec.marshal fc.options with
  | .error e => .error ("invalid options: " ++ e)
  | .ok opts =>
    let key := fc.type ++ "\x00" ++ opts
    match serviceString fc.options with
    | none => .ok key
    | some svc =>
      match nextRedis.lookup svc with
      | none => .ok key
      | some e => .ok (key ++ "\x00" ++ fmtPointer e.ptr)

/-! ## Building the new policy -/

/-- The local variables of `Apply` while it builds, with the counters. -/
structure Build where
  nextRedis : AMap String RedisEntry := ∅
  createdClients : List Nat := []
  nextFilters : AMap String Instance := ∅
  createdFilters : List Instance := []
  chains : AMap String (List Slot) := ∅
  /-- The chain the inner loop is at. -/
  chain : List Slot := []
  nextPtr : Nat
  nextFilter : Nat

/-- The closure `lookup`. -/
def Build.lookup (b : Build) (service : String) : Option Nat :=
  (b.nextRedis.lookup service).map (·.ptr)

/-- One round of the loop over `cfg.Redis`. -/
def dialService (m : Manager) (fac : Factories) (b : Build)
    (service : String × RedisServiceConfig) : Except (String × Build) Build :=
  let (name, svcCfg) := service
  let reused := (m.redis.lookup name).filter (·.cfg = svcCfg)
  match reused with
  | some old => .ok { b with nextRedis := b.nextRedis.insert name old }
  | none =>
    let bounded := m.ready && decide (svcCfg.startupMaxElapsedTimeDuration ≤ 0) &&
      decide (0 < m.reloadDialTimeout)
    match fac.dial bounded name svcCfg with
    | .error e => .error ("redis service \"" ++ name ++ "\": " ++ e, b)
    | .ok () =>
      .ok { b with
        createdClients := b.createdClients ++ [b.nextPtr]
        nextRedis := b.nextRedis.insert name { ptr := b.nextPtr, cfg := svcCfg }
        nextPtr := b.nextPtr + 1 }

/-- The text around an error of filter `i` of a chain. -/
def filterError (chainName : String) (i : Nat) (fc : FilterConfig) (e : String) : String :=
  "chain \"" ++ chainName ++ "\" filter #" ++ toString i ++ " (" ++ fc.type ++ "): " ++ e

/-- Put an instance into the filter map and at the end of the chain. -/
def Build.place (b : Build) (key : String) (f : Instance) (audit : Bool) : Build :=
  { b with
    nextFilters := b.nextFilters.insert key f
    chain := b.chain ++ [{ filter := f, audited := audit }] }

/-- One round of the loop over the filters of a chain. -/
def compileFilter (codec : YamlCodec) (m : Manager) (fac : Factories) (chainName : String)
    (b : Build) (position : FilterConfig × Nat) : Except (String × Build) Build :=
  let (fc, i) := position
  match filterKey codec fc b.nextRedis with
  | .error e => .error (filterError chainName i fc e, b)
  | .ok key =>
    match (b.nextFilters.lookup key).or (m.filters.lookup key) with
    | some f => .ok (b.place key f fc.audit)
    | none =>
      match fac.filters.create fc.type fc.options (some b.lookup) with
      | .error e => .error (filterError chainName i fc e, b)
      | .ok compiled =>
        let f : Instance :=
          { id := b.nextFilter, client := compiled.client, closer := compiled.closer }
        let b := { b with
          createdFilters := b.createdFilters ++ [f]
          nextFilter := b.nextFilter + 1 }
        .ok (b.place key f fc.audit)

/-- One round of the loop over `cfg.Chains`. -/
def compileChain (codec : YamlCodec) (m : Manager) (fac : Factories) (b : Build)
    (chain : String × List FilterConfig) : Except (String × Build) Build :=
  let (chainName, filterCfgs) := chain
  match runAll (compileFilter codec m fac chainName) { b with chain := [] } filterCfgs.zipIdx with
  | .error e => .error e
  | .ok b => .ok { b with chains := b.chains.insert chainName b.chain }

/-- Steps 1 and 2 of `Apply`. -/
def build (codec : YamlCodec) (w : World) (fac : Factories) (cfg : Config) :
    Except (String × Build) Build :=
  let start : Build := { nextPtr := w.nextPtr, nextFilter := w.nextFilter }
  match runAll (dialService w.manager fac) start cfg.redis.toList with
  | .error e => .error e
  | .ok b => runAll (compileChain codec w.manager fac) b cfg.chains.toList

/-! ## Publishing it -/

/-- The filters the new policy no longer uses. -/
def retiredFilters (m : Manager) (nextFilters : AMap String Instance) : List Instance :=
  (m.filters.toList.filter fun e => (nextFilters.lookup e.1).isNone).map (·.2)

/-- The entries the new policy no longer uses; entries are compared as pointers. -/
def retiredRedis (m : Manager) (nextRedis : AMap String RedisEntry) : List RedisEntry :=
  (m.redis.toList.filter fun e => (nextRedis.lookup e.1).map (·.ptr) ≠ some e.2.ptr).map (·.2)

/-- Step 5: the checkers of retired entries stop, and one starts for every
entry that wants one and has none. -/
def followHealth (running : List Nat) (retired : List RedisEntry)
    (nextRedis : AMap String RedisEntry) : List Nat :=
  let kept := running.filter fun ptr => ptr ∉ retired.map (·.ptr)
  kept ++ (nextRedis.toList.map (·.2)).filterMap fun e =>
    if e.cfg.activeConnHealthCheck && e.ptr ∉ kept then some e.ptr else none

/-- The outcome of a call: the error it returns, the resources it created and
the resources closed while it ran. -/
structure ApplyResult where
  world : World
  err : Option String
  createdClients : List Nat
  createdFilters : List Instance
  closed : List Resource

/-- Steps 3 to 5 of `Apply`. -/
def publish (w : World) (cfg : Config) (b : Build) : ApplyResult :=
  let m := w.manager
  let cleanup : Cleanup :=
    { retiredFilters := retiredFilters m b.nextFilters
      retiredRedis := retiredRedis m b.nextRedis }
  let (registry, ran) :=
    w.registry.swap (some { config := cfg, chains := b.chains }) (some cleanup)
  { world :=
      { manager := { m with redis := b.nextRedis, filters := b.nextFilters, ready := true }
        registry
        globalConfig := some cfg
        health := followHealth w.health cleanup.retiredRedis b.nextRedis
        nextPtr := b.nextPtr
        nextFilter := b.nextFilter }
    err := none
    createdClients := b.createdClients
    createdFilters := b.createdFilters
    closed := ran.flatMap Cleanup.run }

/-- The closure `abort`: what was created is closed, filters first. -/
def abort (w : World) (err : String) (b : Build) : ApplyResult where
  world := { w with nextPtr := b.nextPtr, nextFilter := b.nextFilter }
  err := some err
  createdClients := b.createdClients
  createdFilters := b.createdFilters
  closed := closeFilters b.createdFilters ++ b.createdClients.map .client

/-- `Manager.Apply`. -/
def apply (codec : YamlCodec) (w : World) (fac : Factories) (cfg : Config) : ApplyResult :=
  match build codec w fac cfg with
  | .error (err, b) => abort w err b
  | .ok b => publish w cfg b

end Hypergate.Policy
