import Hypergate.Engine.Context

/-!
# Addresses of a request (`internal/clientip`, `internal/selector`)

What the request-headers handler derives from header values and attributes: the
client address behind trusted proxies, the parsed addresses, the host and the
traffic class.

`netip.ParseAddr` and `netip.ParseAddrPort` are parameters.
-/

namespace Hypergate.Grpc

open Lib Identity Engine

/-- The attributes of an ext_proc message: by filter namespace, the string
value of every field (empty for a value that is not a string). -/
abbrev Attributes := AMap String (AMap String String)

/-- `stringAttribute`: the first non-empty value, in iteration order. -/
def stringAttribute (attrs : Attributes) (key : String) : String :=
  ((attrs.toList.filterMap fun e => (e.2.lookup key).filter (· ≠ "")).head?).getD ""

def peerFromAttributes (attrs : Attributes) : String := stringAttribute attrs "source.address"

/-! ## Client address -/

/-- `stripPort`: without a port and without brackets. -/
def stripPort (addr : String) : String :=
  let addr := trimSpace addr
  if addr = "" then ""
  else match splitHostPort addr with
    | some (host, _) => host
    | none => trimSuffix (trimPrefix addr "[") "]"

def splitXFF (xff : String) : List String :=
  if xff = "" then []
  else ((split ',' xff).map fun p => stripPort (trimSpace p)).filter (· ≠ "")

/-- `clientip.Resolve`. -/
def resolveClientIP (xff peer : String) (trustedHops : Int) : String :=
  let hops := trustedHops.toNat
  let chain := splitXFF xff
  let peer := stripPort peer
  -- Envoy may have appended the peer itself; it is not counted twice
  let chain :=
    if peer ≠ "" ∧ chain.getLast? ≠ some peer then chain ++ [peer] else chain
  (chain[chain.length - 1 - hops]?).getD ""

/-! ## Parsed forms -/

/-- The parsers of `net/netip`; `parseAddrPort` keeps the address. -/
structure Netip where
  parseAddr : String → Option Addr
  parseAddrPort : String → Option Addr

/-- `WithZone("")`. -/
def withoutZone : Addr → Addr
  | .v6 bits _ => .v6 bits ""
  | a => a

/-- `selector.ParseAddr`. -/
def parseAddr (netip : Netip) (s : String) : Addr :=
  let s := trimSpace s
  if s = "" then .zero
  else match netip.parseAddrPort s with
    | some a => (withoutZone a).unmap
    | none =>
      match netip.parseAddr (trimSuffix (trimPrefix s "[") "]") with
      | some a => (withoutZone a).unmap
      | none => .zero

def normalizeHost (authority : String) : String :=
  let h := trimSpace authority
  if h = "" then ""
  else
    let h := match splitHostPort h with
      | some (host, _) => host
      | none => trimSuffix (trimPrefix h "[") "]"
    trimSuffix (toLower h) "."

def parseTraffic (v : String) : Except String Traffic :=
  let n := String.ofList ((toLower (trimSpace v)).toList.filter fun c => c ≠ '-' ∧ c ≠ '_')
  if n = "" ∨ n = "any" then .ok .any
  else if n = "northsouth" then .ok .northSouth
  else if n = "eastwest" then .ok .eastWest
  else .error ("invalid traffic \"" ++ v ++ "\" (expected north_south, east_west or any)")

/-- `trafficFromContext`, given the values of the `x-hypergate-traffic` stream
metadata. -/
def trafficFromContext (metadata : List String) : Traffic :=
  match metadata with
  | [] => .any
  | v :: _ =>
    match parseTraffic v with
    | .ok t => t
    | .error _ => .any

end Hypergate.Grpc
