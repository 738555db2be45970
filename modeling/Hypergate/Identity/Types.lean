import Hypergate.Lib.AMap
import Mathlib.Data.Finmap

/-!
# Addresses and identities (`net/netip`, `internal/identity/index.go`)

`Addr` is `netip.Addr`: invalid (the zero value), IPv4, or IPv6 with a zone.
`Unmap` turns an IPv4-mapped IPv6 address into the IPv4 address it carries; the
identity indexes only ever store unmapped addresses.

`Workload` and `Service` are the engine's view of an identity.
-/

namespace Hypergate.Identity

open Hypergate.Lib

/-- `netip.Addr`. -/
inductive Addr where
  | zero
  | v4 (bits : BitVec 32)
  | v6 (bits : BitVec 128) (zone : String)
  deriving DecidableEq

namespace Addr

def isValid : Addr → Bool
  | .zero => false
  | _ => true

/-- `Is4In6`: the prefix `::ffff:0:0/96`. -/
def is4In6 : Addr → Bool
  | .v6 bits _ => bits >>> 32 == 0xffff#128
  | _ => false

def unmap : Addr → Addr
  | .v6 bits zone => if bits >>> 32 == 0xffff#128 then .v4 (bits.truncate 32) else .v6 bits zone
  | a => a

@[simp] theorem unmap_unmap (a : Addr) : a.unmap.unmap = a.unmap := by
  cases a with
  | zero => rfl
  | v4 bits => rfl
  | v6 bits zone =>
    by_cases h : (bits >>> 32 == 0xffff#128) = true
    · simp only [unmap, if_pos h]
    · simp only [unmap, if_neg h]

@[simp] theorem isValid_unmap (a : Addr) : a.unmap.isValid = a.isValid := by
  cases a with
  | zero => rfl
  | v4 bits => rfl
  | v6 bits zone =>
    simp only [unmap]
    split <;> rfl

/-- `BitLen`: 0 for the zero value. -/
def bitLen : Addr → Nat
  | .zero => 0
  | .v4 _ => 32
  | .v6 _ _ => 128

def toNat : Addr → Nat
  | .zero => 0
  | .v4 bits => bits.toNat
  | .v6 bits _ => bits.toNat

def zone : Addr → String
  | .v6 _ zone => zone
  | _ => ""

/-- `Less`: by length, then value, then zone. -/
def less (a b : Addr) : Bool :=
  a.bitLen < b.bitLen ||
    a.bitLen == b.bitLen &&
      (a.toNat < b.toNat || a.toNat == b.toNat && decide (a.zone < b.zone))

end Addr

/-- An address as the indexes store it: valid and unmapped. -/
structure Canonical (a : Addr) : Prop where
  valid : a.isValid = true
  unmapped : a.unmap = a

theorem Canonical.unmap {a : Addr} (h : a.isValid = true) : Canonical a.unmap where
  valid := by rw [Addr.isValid_unmap, h]
  unmapped := Addr.unmap_unmap a

/-- The text form of addresses: `Addr.String` and `ParseAddr`. Reading back the
text of an address the indexes store gives the address. -/
structure NetipText where
  string : Addr → String
  parseAddr : String → Option Addr
  parse_string : ∀ a, Canonical a → parseAddr (string a) = some a

theorem NetipText.string_inj (t : NetipText) {a b : Addr} (ha : Canonical a) (hb : Canonical b)
    (h : t.string a = t.string b) : a = b := by
  have hab := t.parse_string b hb
  rw [← h, t.parse_string a ha] at hab
  exact Option.some.inj hab

/-- Label sets, compared as sets of pairs. -/
abbrev Labels := Finmap fun _ : String => String

/-- `identity.Kind`. -/
inductive Kind where
  | unknown | pod | node
  deriving DecidableEq

/-- `identity.Workload`: the identity behind one address. -/
structure Workload where
  ip : Addr
  kind : Kind
  «namespace» : String
  pod : String
  podUID : String
  serviceAccount : String
  spiffeID : String
  node : String
  labels : Labels
  services : List String
  securityIdentity : Nat
  deriving DecidableEq

/-- `IsPod`, on a pointer that may be nil. -/
def isPod (w : Option Workload) : Bool :=
  match w with
  | some w => w.kind = .pod
  | none => false

/-- `identity.Service`: a Service and its cluster IPs. -/
structure Service where
  «namespace» : String
  name : String
  clusterIPs : List Addr
  ports : List Nat
  deriving DecidableEq

/-- `Service.Key`. -/
def Service.key (s : Service) : String := s.namespace ++ "/" ++ s.name

end Hypergate.Identity
