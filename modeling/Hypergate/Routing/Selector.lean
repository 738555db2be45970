import Hypergate.Identity.Types
import Hypergate.Lib.Strings

/-!
# Selectors (`internal/selector/selector.go`)

A selector is a reference `prefix:value` to the callers or the targets of a
route. `parse` reads one for a side; an unknown kind, a malformed value and a
kind that is not allowed on that side are errors.

* Network selectors (`ip`, `cidr`, `host`, `any`) need the request only; the
  others need the identity map (`Kind.workload`).
* `netip.ParseAddr` and `netip.ParsePrefix` are parameters; what a prefix
  contains is computed here.

Names are checked byte by byte in the source; the characters it lets through are
ASCII, so the model checks characters. A quoted text (`%q`) is the text between
quotes.
-/

namespace Hypergate.Routing

open Lib Identity

/-! ## Prefixes of `net/netip` -/

/-- `netip.Prefix`, without the invalid ones. -/
structure Prefix where
  addr : Addr
  bits : Nat
  inRange : bits ≤ addr.bitLen
  deriving DecidableEq

/-- The address with its last `k` bits cleared. -/
def clearLow (k : Nat) : Addr → Addr
  | .zero => .zero
  | .v4 bits => .v4 ((bits >>> k) <<< k)
  | .v6 bits _ => .v6 ((bits >>> k) <<< k) ""

theorem bitLen_clearLow (k : Nat) (a : Addr) : (clearLow k a).bitLen = a.bitLen := by
  cases a <;> rfl

def Prefix.masked (p : Prefix) : Prefix where
  addr := clearLow (p.addr.bitLen - p.bits) p.addr
  bits := p.bits
  inRange := by
    rw [bitLen_clearLow]
    exact p.inRange

/-- `Contains`: an address of the same length without a zone, equal to the
prefix on its bits. -/
def Prefix.contains (p : Prefix) (a : Addr) : Bool :=
  a.zone == "" && p.addr.bitLen != 0 && p.addr.bitLen == a.bitLen &&
    a.toNat >>> (a.bitLen - p.bits) == p.addr.toNat >>> (a.bitLen - p.bits)

/-- The readers and writers of `net/netip`. -/
structure Netip where
  parseAddr : String → Option Addr
  parsePrefix : String → Option Prefix
  prefixString : Prefix → String

/-- An IPv4-mapped prefix as an IPv4 one; `none` if it is shorter than the
mapping. -/
def Prefix.unmap (p : Prefix) : Option Prefix :=
  match p.addr.unmap with
  | .v4 bits =>
    if h : p.bits - 96 ≤ 32 ∧ 96 ≤ p.bits then some ⟨.v4 bits, p.bits - 96, h.1⟩ else none
  | _ => none

/-! ## Kinds -/

inductive Side where
  | source | destination
  deriving DecidableEq

def Side.string : Side → String
  | .source => "source"
  | .destination => "destination"

inductive Kind where
  | any | ip | cidr | host | external | service | «namespace» | sa | spiffe | labels
  deriving DecidableEq

structure KindInfo where
  name : String
  source : Bool := false
  destination : Bool := false
  needsValue : Bool := false
  workload : Bool := false

/-- `kinds`. -/
def Kind.info : Kind → KindInfo
  | .any => { name := "any", source := true, destination := true }
  | .ip => { name := "ip", source := true, destination := true, needsValue := true }
  | .cidr => { name := "cidr", source := true, destination := true, needsValue := true }
  | .host => { name := "host", destination := true, needsValue := true }
  | .external => { name := "external", source := true, workload := true }
  | .service =>
    { name := "service", source := true, destination := true, needsValue := true,
      workload := true }
  | .namespace =>
    { name := "namespace", source := true, destination := true, needsValue := true,
      workload := true }
  | .sa => { name := "sa", source := true, needsValue := true, workload := true }
  | .spiffe => { name := "spiffe", source := true, needsValue := true, workload := true }
  | .labels => { name := "labels", source := true, needsValue := true, workload := true }

/-- `Kind.Workload`. -/
def Kind.workload (k : Kind) : Bool := k.info.workload

/-- The kind may stand on this side. -/
def Kind.allowed (k : Kind) : Side → Bool
  | .source => k.info.source
  | .destination => k.info.destination

def kindByName (name : String) : Option Kind :=
  [Kind.any, .ip, .cidr, .host, .external, .service, .namespace, .sa, .spiffe, .labels].find?
    fun k => k.info.name = name

/-- `Selector`: one parsed reference. -/
inductive Selector where
  | any
  | external
  | ip (addr : Addr)
  | cidr (pre : Prefix)
  /-- For a wildcard, `host` is the suffix with its leading dot. -/
  | host (host : String) (wildcard : Bool)
  | service (key : String)
  | «namespace» (name : String)
  | sa (key : String)
  | spiffe (id : String)
  | labels («namespace» : String) (kv : AMap String String)

def Selector.kind : Selector → Kind
  | .any => .any
  | .external => .external
  | .ip _ => .ip
  | .cidr _ => .cidr
  | .host _ _ => .host
  | .service _ => .service
  | .namespace _ => .namespace
  | .sa _ => .sa
  | .spiffe _ => .spiffe
  | .labels _ _ => .labels

/-! ## Names -/

/-- `%q`. -/
def quote (s : String) : String := "\"" ++ s ++ "\""

def isLowerAlnum (c : Char) : Bool := 'a' ≤ c && c ≤ 'z' || '0' ≤ c && c ≤ '9'

def validateHostLabel (l : String) : Except String Unit :=
  if l = "" ∨ 63 < l.utf8ByteSize then .error ("label " ++ quote l ++ " must be 1-63 characters")
  else match l.toList.find? fun c => !(isLowerAlnum c || c == '-' || c == '_') with
    | some c => .error ("label " ++ quote l ++ " contains '" ++ String.ofList [c] ++ "'")
    | none => .ok ()

def validateDNSLabel (v : String) : Except String Unit :=
  if v = "" ∨ 63 < v.utf8ByteSize then .error (quote v ++ " must be 1-63 characters")
  else if !v.toList.all (fun c => isLowerAlnum c || c == '-') then
    .error (quote v ++
      " is not a valid Kubernetes name (lower-case letters, digits and '-')")
  else if v.toList.head? = some '-' ∨ v.toList.getLast? = some '-' then
    .error (quote v ++ " must start and end with a letter or digit")
  else .ok ()

def validateDNSSubdomain (v : String) : Except String Unit :=
  if v = "" ∨ 253 < v.utf8ByteSize then .error (quote v ++ " must be 1-253 characters")
  else ((split '.' v).forM validateDNSLabel).mapError fun e =>
    quote v ++ " is not a valid Kubernetes name: " ++ e

def validateNamespacedName (v : String) (validateName : String → Except String Unit) :
    Except String Unit :=
  match cut '/' v with
  | none => .error (quote v ++ " must be <namespace>/<name>")
  | some (ns, name) => (validateDNSLabel ns).bind fun _ => validateName name

def validateSPIFFE (v : String) : Except String Unit :=
  let malformed := quote ("spiffe:" ++ v) ++
    " must be spiffe://<trust-domain>/ns/<namespace>/sa/<serviceaccount>"
  match v.toList with
  | '/' :: '/' :: rest =>
    match split '/' (String.ofList rest) with
    | [domain, «ns», «namespace», sa, account] =>
      if domain = "" ∨ «ns» ≠ "ns" ∨ sa ≠ "sa" then .error malformed
      else (validateDNSLabel «namespace»).bind fun _ => validateDNSSubdomain account
    | _ => .error malformed
  | _ => .error malformed

/-! ## Values -/

def parseIP (netip : Netip) (v : String) : Except String Selector :=
  match netip.parseAddr v with
  | some addr =>
    if addr.zone ≠ "" then .error ("invalid IP address " ++ quote v) else .ok (.ip addr.unmap)
  | none => .error ("invalid IP address " ++ quote v)

def parseCIDR (netip : Netip) (v : String) : Except String Selector :=
  match netip.parsePrefix v with
  | none => .error ("invalid CIDR " ++ quote v)
  | some p =>
    if p.masked ≠ p then
      .error ("CIDR " ++ quote v ++ " has host bits set, did you mean " ++
        netip.prefixString p.masked ++ "?")
    else if p.addr.is4In6 then
      match p.unmap with
      | some p => .ok (.cidr p)
      | none => .error ("invalid CIDR " ++ quote v)
    else .ok (.cidr p)

/-- `strings.ToLower` of a host. Two letters beyond ASCII (U+0130 and the Kelvin sign U+212A)
have an ASCII letter as their lower case; every other one is refused in either case. -/
def lowerHost (v : String) : String :=
  String.ofList (v.toList.map fun c =>
    if c.toNat = 0x130 then 'i' else if c.toNat = 0x212a then 'k' else c.toLower)

/-- `parseHost`: a host name without port, or a suffix after `*.`. -/
def parseHost (v : String) : Except String Selector :=
  let h := trimSuffix (lowerHost v) "."
  let wildcard := "*.".toList.isPrefixOf h.toList
  let name := if wildcard then trimPrefix h "*." else h
  if name = "" ∨ name.toList.any (fun c => c == '*' || c == ':' || c == '/') then
    .error ("invalid host " ++ quote v ++
      " (use a host name without port, optionally starting with \"*.\")")
  else
    match (split '.' name).forM validateHostLabel with
    | .error e => .error ("invalid host " ++ quote v ++ ": " ++ e)
    | .ok () => .ok (.host (if wildcard then "." ++ name else name) wildcard)

/-- The pairs of `parseLabels`. -/
def parsePairs (pairs : List String) : Except String (AMap String String) :=
  pairs.foldlM (fun kv pair =>
    match cut '=' pair with
    | none => .error ("label " ++ quote pair ++ " must be key=value")
    | some (k, val) =>
      if k = "" then .error ("label " ++ quote pair ++ " must be key=value")
      else if (k ++ val).toList.any (fun c => c == ' ' || c == '\t') then
        .error ("label " ++ quote pair ++ " must not contain spaces")
      else .ok (kv.insert k val)) ∅

/-- `parseLabels`: an optional namespace before the pairs. -/
def parseLabels (v : String) : Except String Selector :=
  match cut '/' v with
  | some (before, rest) =>
    if '=' ∈ before.toList then (parsePairs (split ',' v)).map (.labels "")
    else (validateDNSLabel before).bind fun _ =>
      (parsePairs (split ',' rest)).map (.labels before)
  | none => (parsePairs (split ',' v)).map (.labels "")

/-- The value of a selector, by kind. -/
def parseValue (netip : Netip) (v : String) : Kind → Except String Selector
  | .any => .ok .any
  | .external => .ok .external
  | .ip => parseIP netip v
  | .cidr => parseCIDR netip v
  | .host => parseHost v
  | .service => (validateNamespacedName v validateDNSLabel).map fun _ => .service v
  | .sa => (validateNamespacedName v validateDNSSubdomain).map fun _ => .sa v
  | .namespace => (validateDNSLabel v).map fun _ => .namespace v
  | .spiffe => (validateSPIFFE v).map fun _ => .spiffe ("spiffe:" ++ v)
  | .labels => parseLabels v

def parse (netip : Netip) (raw : String) (side : Side) : Except String Selector :=
  let raw := trimSpace raw
  let name := ((cut ':' raw).map Prod.fst).getD raw
  let value := ((cut ':' raw).map Prod.snd).getD ""
  match kindByName name with
  | none =>
    .error ("selector " ++ quote raw ++ ": unknown prefix " ++ quote name ++
      " (expected one of any, ip, cidr, host, external, service, namespace, sa, spiffe, labels)")
  | some kind =>
    if !kind.allowed side then
      .error ("selector " ++ quote raw ++ ": " ++ name ++ ": cannot be used as a " ++ side.string)
    else if !kind.info.needsValue then
      if (cut ':' raw).isSome then
        .error ("selector " ++ quote raw ++ ": " ++ name ++ " takes no value")
      else parseValue netip value kind
    else if value = "" then
      .error ("selector " ++ quote raw ++ ": " ++ name ++ ": requires a value")
    else (parseValue netip value kind).mapError fun e => "selector " ++ quote raw ++ ": " ++ e

end Hypergate.Routing
