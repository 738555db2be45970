import Hypergate.Identity.Proto
import Hypergate.Lib.Delta
import Hypergate.Lib.Strings
import Mathlib.Data.List.Sort

/-!
# The engine's identity index (`internal/identity/index.go`, `client.go`)

The engine keeps a local copy of the identity map and updates it from delta
responses: `Client.apply` decodes a response as a whole and hands its updates
and removals to the index.

Stored Services are pointers in the source and `dropServiceLocked` compares
them by identity, so every stored Service carries the number of its allocation.

`ParseAddr` is a parameter.
-/

namespace Hypergate.Identity

open Hypergate.Lib

/-- A stored `*Service`: its allocation and its content. -/
structure StoredService where
  ptr : Nat
  service : Service
  deriving DecidableEq

/-- `versioned[T]`. -/
structure Versioned (M : Type) where
  res : M
  version : String

/-- `identity.Index`. The maps that the source keys by type URL are one field
per resource type. -/
structure Index where
  workloads : AMap Addr Workload := ∅
  services : AMap String StoredService := ∅
  byClusterIP : AMap Addr StoredService := ∅
  workloadVersions : AMap String String := ∅
  serviceVersions : AMap String String := ∅
  workloadsSynced : Bool := false
  servicesSynced : Bool := false
  nextPtr : Nat := 0

section FromProto

variable (parse : String → Option Addr)

def workloadFromProto (p : WorkloadProto) : Workload where
  ip := ((parse p.ip).getD .zero).unmap
  kind := match p.kind with
    | .pod => .pod
    | .node => .node
    | .unspecified => .unknown
  «namespace» := p.namespace
  pod := p.pod
  podUID := p.podUid
  serviceAccount := p.serviceAccount
  spiffeID := p.spiffeId
  node := p.node
  labels := p.labels
  services := (p.services.map fun s => s.namespace ++ "/" ++ s.name).insertionSort (· ≤ ·)
  securityIdentity := p.securityIdentity

/-- `serviceFromProto`: cluster IPs that do not parse are left out. -/
def serviceFromProto (p : ServiceProto) : Service where
  «namespace» := p.namespace
  name := p.name
  clusterIPs := p.clusterIps.filterMap fun c => (parse c).map Addr.unmap
  ports := p.ports

end FromProto

namespace Index

variable (parse : String → Option Addr)

/-! ## Lookups -/

def lookup (x : Index) (ip : Addr) : Option Workload :=
  if ip.isValid then x.workloads.lookup ip.unmap else none

def serviceByClusterIP (x : Index) (ip : Addr) : Option Service :=
  if ip.isValid then (x.byClusterIP.lookup ip.unmap).map (·.service) else none

def service (x : Index) («namespace» name : String) : Option Service :=
  (x.services.lookup («namespace» ++ "/" ++ name)).map (·.service)

/-- `ServiceFromHost`: the Service named by a host such as `name.ns.svc`. -/
def serviceFromHost (x : Index) (host : String) : Option Service :=
  if host = "" then none
  else match cut '.' (trimSuffix (trimSuffix host ".cluster.local") ".svc") with
    | none => none
    | some (name, ns) =>
      if name = "" ∨ ns = "" ∨ '.' ∈ ns.toList then none else x.service ns name

def synced (x : Index) : Bool := x.workloadsSynced && x.servicesSynced

/-! ## Workload updates -/

/-- One removed name of `applyWorkloads`. -/
def removeWorkload (x : Index) (name : String) : Index :=
  { x with
    workloads := match parse name with
      | some ip => x.workloads.erase ip.unmap
      | none => x.workloads
    workloadVersions := x.workloadVersions.erase name }

/-- One updated name of `applyWorkloads`; a workload without an address is
skipped. -/
def storeWorkload (x : Index) (name : String) (v : Versioned WorkloadProto) : Index :=
  let w := workloadFromProto parse v.res
  if w.ip.isValid then
    { x with
      workloads := x.workloads.insert w.ip w
      workloadVersions := x.workloadVersions.insert name v.version }
  else x

def applyWorkloads (x : Index) (updated : AMap String (Versioned WorkloadProto))
    (removed : List String) : Index :=
  let x := removed.foldl (removeWorkload parse) x
  let x := updated.toList.foldl (fun x e => storeWorkload parse x e.1 e.2) x
  { x with workloadsSynced := true }

/-! ## Service updates -/

def dropServiceLocked (x : Index) (name : String) : Index :=
  match x.services.lookup name with
  | none => x
  | some old =>
    { x with
      byClusterIP := old.service.clusterIPs.foldl (fun m ip =>
        if m.lookup ip = some old then m.erase ip else m) x.byClusterIP
      services := x.services.erase name }

/-- One removed name of `applyServices`. -/
def removeService (x : Index) (name : String) : Index :=
  let x := x.dropServiceLocked name
  { x with serviceVersions := x.serviceVersions.erase name }

/-- One updated name of `applyServices`. -/
def storeService (x : Index) (name : String) (v : Versioned ServiceProto) : Index :=
  let x := x.dropServiceLocked name
  let s : StoredService := { ptr := x.nextPtr, service := serviceFromProto parse v.res }
  { x with
    services := x.services.insert name s
    byClusterIP := s.service.clusterIPs.foldl (fun m ip => m.insert ip s) x.byClusterIP
    serviceVersions := x.serviceVersions.insert name v.version
    nextPtr := x.nextPtr + 1 }

def applyServices (x : Index) (updated : AMap String (Versioned ServiceProto))
    (removed : List String) : Index :=
  let x := removed.foldl removeService x
  let x := updated.toList.foldl (fun x e => storeService parse x e.1 e.2) x
  { x with servicesSynced := true }

end Index

/-! ## The client -/

/-- One resource of a delta response. `payload` is what decoding it as the
response's type gives, an error text when it does not decode. -/
structure Resource (M : Type) where
  name : String
  version : String
  payload : Except String M

/-- The resources and removed names of a delta response. -/
structure DeltaResponse (M : Type) where
  resources : List (Resource M)
  removed : List String

namespace DeltaResponse

variable {M : Type}

/-- The loop of `Client.apply` that decodes every resource; the first one that
does not decode rejects the response. -/
def decode : List (Resource M) → AMap String (Versioned M) →
    Except String (AMap String (Versioned M))
  | [], updated => .ok updated
  | r :: rs, updated =>
    match r.payload with
    | .error e => .error ("resource " ++ r.name ++ ": " ++ e)
    | .ok res => decode rs (updated.insert r.name { res, version := r.version })

/-- The decoded updates of a response. -/
def updated (r : DeltaResponse M) : Except String (AMap String (Versioned M)) :=
  decode r.resources ∅

end DeltaResponse

/-- `DeltaDiscoveryResponse`, by type URL. -/
inductive Response where
  | workloads (r : DeltaResponse WorkloadProto)
  | services (r : DeltaResponse ServiceProto)
  | other (typeUrl : String)

/-- `Client.apply`. -/
def Index.apply (parse : String → Option Addr) (x : Index) : Response → Except String Index
  | .workloads r =>
    match r.updated with
    | .ok updated => .ok (x.applyWorkloads parse updated r.removed)
    | .error e => .error e
  | .services r =>
    match r.updated with
    | .ok updated => .ok (x.applyServices parse updated r.removed)
    | .error e => .error e
  | .other typeUrl => .error ("unexpected type \"" ++ typeUrl ++ "\"")

/-- The index after a response: a rejected one changes nothing. -/
def Index.receive (parse : String → Option Addr) (x : Index) (r : Response) : Index :=
  match x.apply parse r with
  | .ok x' => x'
  | .error _ => x

end Hypergate.Identity
