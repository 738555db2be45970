import Hypergate.Identity.Types
import Mathlib.Data.List.Sort

/-!
# The operator's identity index (`hyper-operator/internal/identity/index.go`)

`Index` is fed with records derived from Pods, EndpointSlices, Services, Nodes
and CiliumEndpoints and answers lookups by address. Every write ends with
`bump`, which counts the change and leaves at most one notification in the
channel (`changed`).

Go maps are `AMap`s: a loop over a map is a loop over its entries, in whatever
order they are in. The write lock makes each operation one step.
-/

namespace Hypergate.Operator

open Hypergate.Lib Hypergate.Identity

structure ServiceRef where
  «namespace» : String
  name : String
  deriving DecidableEq

/-- `compareServiceRef(a, b) <= 0`. -/
def ServiceRef.le (a b : ServiceRef) : Bool :=
  decide (a.namespace < b.namespace) || a.namespace == b.namespace && decide (a.name ≤ b.name)

/-- The name of a Kubernetes object. The API server admits no slash in it. -/
abbrev ObjectName := { s : String // '/' ∉ s.toList }

inductive WorkloadKind where
  | pod | node
  deriving DecidableEq

/-- `Workload`: the identity behind one address. -/
structure Workload where
  kind : WorkloadKind
  ip : Addr
  node : String
  podUID : String := ""
  «namespace» : String := ""
  pod : String := ""
  serviceAccount : String := ""
  spiffeID : String := ""
  labels : Labels := ∅
  services : List ServiceRef := []
  securityIdentity : Nat := 0
  ciliumLabels : List String := []
  deriving DecidableEq

/-- `Service`: a Service and its cluster IPs. -/
structure Service where
  «namespace» : ObjectName
  name : ObjectName
  clusterIPs : List Addr
  ports : List Nat
  deriving DecidableEq

def Service.ref (s : Service) : ServiceRef := { «namespace» := s.namespace, name := s.name }

structure PodRecord where
  uid : String
  «namespace» : String
  name : String
  serviceAccount : String
  node : String
  labels : AMap String String
  ips : List Addr
  hostNetwork : Bool
  finished : Bool
  created : Nat

/-- `SliceRecord`: what an EndpointSlice contributes to its Service. -/
structure SliceRecord where
  «namespace» : String
  name : String
  service : String
  podUIDs : List String
  ips : List Addr

structure CiliumEndpointRecord where
  «namespace» : String
  name : String
  identity : Nat
  labels : List String

structure NodeRecord where
  name : String
  ips : List Addr

/-- `sliceKey` and `nsName`. -/
structure NsName where
  «namespace» : String
  name : String
  deriving DecidableEq

/-- `Index`. `changed` is the channel of capacity one: whether a notification
is waiting in it. -/
structure Index where
  trustDomain : String
  labelKeys : List String
  pods : AMap String PodRecord := ∅
  claims : AMap Addr (List String) := ∅
  slices : AMap NsName SliceRecord := ∅
  podServices : AMap String (AMap ServiceRef Int) := ∅
  ipServices : AMap Addr (AMap ServiceRef Int) := ∅
  services : AMap ServiceRef Service := ∅
  byClusterIP : AMap Addr ServiceRef := ∅
  cilium : AMap NsName CiliumEndpointRecord := ∅
  nodes : AMap String NodeRecord := ∅
  nodeIP : AMap Addr String := ∅
  generation : Nat := 0
  changed : Bool := false

def defaultLabelKeys : List String :=
  ["app", "version", "app.kubernetes.io/name", "app.kubernetes.io/instance",
    "app.kubernetes.io/component", "app.kubernetes.io/version"]

/-! ## Helpers -/

/-- `uniqueAddrs`: the valid addresses, unmapped, the first of each kept. -/
def uniqueAddrs (addrs : List Addr) : List Addr :=
  addrs.foldl (fun out a =>
    if a.isValid then if a.unmap ∈ out then out else out ++ [a.unmap] else out) []

def uniqueStrings (strs : List String) : List String :=
  strs.foldl (fun out s => if s ≠ "" ∧ s ∉ out then out ++ [s] else out) []

def addRef {K : Type} [DecidableEq K] (m : AMap K (AMap ServiceRef Int)) (key : K)
    (ref : ServiceRef) : AMap K (AMap ServiceRef Int) :=
  let refs := m.getD key ∅
  m.insert key (refs.insert ref (refs.getD ref 0 + 1))

def dropRef {K : Type} [DecidableEq K] (m : AMap K (AMap ServiceRef Int)) (key : K)
    (ref : ServiceRef) : AMap K (AMap ServiceRef Int) :=
  let refs := m.getD key ∅
  let n := refs.getD ref 0 - 1
  let refs' : AMap ServiceRef Int := if n ≤ 0 then refs.erase ref else refs.insert ref n
  if refs'.entries.isEmpty then m.erase key else m.insert key refs'

namespace Index

/-- `NewIndex`. -/
def new (trustDomain : String) (labelKeys : List String) : Index where
  trustDomain := if trustDomain = "" then "cluster.local" else trustDomain
  labelKeys := if labelKeys = [] then defaultLabelKeys else labelKeys

/-- `bump`: count the change; the send is dropped when a notification is
already waiting. -/
def bump (x : Index) : Index := { x with generation := x.generation + 1, changed := true }

def filterLabels (x : Index) (labels : AMap String String) : AMap String String :=
  labels.filter fun k _ => k ∈ x.labelKeys

/-! ## Pods -/

/-- One address of `removePodLocked`: the pod's claim on it is dropped. -/
def dropClaim (uid : String) (claims : AMap Addr (List String)) (ip : Addr) :
    AMap Addr (List String) :=
  let rest := (claims.getD ip []).filter (· ≠ uid)
  if rest.isEmpty then claims.erase ip else claims.insert ip rest

/-- One address of `UpsertPod`: the pod claims it. -/
def addClaim (uid : String) (claims : AMap Addr (List String)) (ip : Addr) :
    AMap Addr (List String) :=
  claims.insert ip (claims.getD ip [] ++ [uid])

def removePodLocked (x : Index) (uid : String) : Index :=
  match x.pods.lookup uid with
  | none => x
  | some old =>
    { x with
      claims := old.ips.foldl (dropClaim uid) x.claims
      pods := x.pods.erase uid }

/-- The record `UpsertPod` stores. -/
def podRecord (x : Index) (p : PodRecord) : PodRecord :=
  { p with ips := uniqueAddrs p.ips, labels := x.filterLabels p.labels }

def upsertPod (x : Index) (p : PodRecord) : Index :=
  let x := x.removePodLocked p.uid
  if p.hostNetwork || p.finished || p.uid == "" then x.bump
  else
    let rec' := x.podRecord p
    { x with
      pods := x.pods.insert p.uid rec'
      claims := rec'.ips.foldl (addClaim p.uid) x.claims }.bump

def deletePod (x : Index) (uid : String) : Index := (x.removePodLocked uid).bump

/-- `p` wins an address over `best`: created later, or at the same time with
the greater UID. -/
def newer (p best : PodRecord) : Bool :=
  decide (best.created < p.created) ||
    decide (p.created = best.created) && decide (best.uid < p.uid)

/-- The loop body of `owner`. -/
def betterOwner (x : Index) (best : Option PodRecord) (uid : String) : Option PodRecord :=
  match x.pods.lookup uid, best with
  | none, best => best
  | some p, none => some p
  | some p, some b => if newer p b then some p else some b

/-- `owner`: the pod an address belongs to. -/
def owner (x : Index) (ip : Addr) : Option PodRecord :=
  (x.claims.getD ip []).foldl x.betterOwner none

/-! ## EndpointSlices -/

def removeSliceLocked (x : Index) (key : NsName) : Index :=
  match x.slices.lookup key with
  | none => x
  | some old =>
    let svc : ServiceRef := { «namespace» := old.namespace, name := old.service }
    { x with
      podServices := old.podUIDs.foldl (fun m uid => dropRef m uid svc) x.podServices
      ipServices := old.ips.foldl (fun m ip => dropRef m ip svc) x.ipServices
      slices := x.slices.erase key }

def upsertSlice (x : Index) (s : SliceRecord) : Index :=
  let key : NsName := { «namespace» := s.namespace, name := s.name }
  let x := x.removeSliceLocked key
  if s.service = "" then x.bump
  else
    let svc : ServiceRef := { «namespace» := s.namespace, name := s.service }
    let rec' : SliceRecord :=
      { s with podUIDs := uniqueStrings s.podUIDs, ips := uniqueAddrs s.ips }
    { x with
      podServices := rec'.podUIDs.foldl (fun m uid => addRef m uid svc) x.podServices
      ipServices := rec'.ips.foldl (fun m ip => addRef m ip svc) x.ipServices
      slices := x.slices.insert key rec' }.bump

def deleteSlice (x : Index) (key : NsName) : Index := (x.removeSliceLocked key).bump

/-! ## Services -/

def removeServiceLocked (x : Index) (ref : ServiceRef) : Index :=
  match x.services.lookup ref with
  | none => x
  | some old =>
    { x with
      byClusterIP := old.clusterIPs.foldl
        (fun m ip => if m.lookup ip = some ref then m.erase ip else m) x.byClusterIP
      services := x.services.erase ref }

def upsertService (x : Index) (s : Service) : Index :=
  let x := x.removeServiceLocked s.ref
  let rec' := { s with clusterIPs := uniqueAddrs s.clusterIPs }
  { x with
    services := x.services.insert s.ref rec'
    byClusterIP := rec'.clusterIPs.foldl (fun m ip => m.insert ip s.ref) x.byClusterIP }.bump

def deleteService (x : Index) (ref : ServiceRef) : Index := (x.removeServiceLocked ref).bump

/-! ## Cilium endpoints -/

def upsertCiliumEndpoint (x : Index) (c : CiliumEndpointRecord) : Index :=
  { x with
    cilium := x.cilium.insert { «namespace» := c.namespace, name := c.name }
      { c with labels := c.labels.insertionSort (· ≤ ·) } }.bump

def deleteCiliumEndpoint (x : Index) (key : NsName) : Index :=
  { x with cilium := x.cilium.erase key }.bump

/-! ## Nodes -/

def removeNodeLocked (x : Index) (name : String) : Index :=
  match x.nodes.lookup name with
  | none => x
  | some old =>
    { x with
      nodeIP := old.ips.foldl
        (fun m ip => if m.lookup ip = some name then m.erase ip else m) x.nodeIP
      nodes := x.nodes.erase name }

def upsertNode (x : Index) (n : NodeRecord) : Index :=
  let x := x.removeNodeLocked n.name
  let rec' := { n with ips := uniqueAddrs n.ips }
  { x with
    nodes := x.nodes.insert n.name rec'
    nodeIP := rec'.ips.foldl (fun m ip => m.insert ip n.name) x.nodeIP }.bump

def deleteNode (x : Index) (name : String) : Index := (x.removeNodeLocked name).bump

/-! ## Reading -/

/-- The Services of a pod: by its UID and by its address, sorted. -/
def podServiceRefs (x : Index) (uid : String) (ip : Addr) : List ServiceRef :=
  let byPod := (x.podServices.getD uid ∅).keys
  let byIP := (x.ipServices.getD ip ∅).keys
  (byPod ++ byIP.filter (· ∉ byPod)).insertionSort (fun a b => a.le b)

def podWorkloadLocked (x : Index) (p : PodRecord) (ip : Addr) : Workload :=
  let sa := if p.serviceAccount = "" then "default" else p.serviceAccount
  let cilium := x.cilium.lookup { «namespace» := p.namespace, name := p.name }
  { kind := .pod
    ip := ip
    node := p.node
    podUID := p.uid
    «namespace» := p.namespace
    pod := p.name
    serviceAccount := sa
    spiffeID := "spiffe://" ++ x.trustDomain ++ "/ns/" ++ p.namespace ++ "/sa/" ++ sa
    labels := p.labels.toFinmap
    services := x.podServiceRefs p.uid ip
    securityIdentity := (cilium.map (·.identity)).getD 0
    ciliumLabels := (cilium.map (·.labels)).getD [] }

/-- The workload of a node address. -/
def nodeWorkload (ip : Addr) (node : String) : Workload := { kind := .node, ip, node }

/-- The workload behind an unmapped address: a pod, otherwise a node. -/
def lookupUnmapped (x : Index) (ip : Addr) : Option Workload :=
  match x.owner ip with
  | some p => some (x.podWorkloadLocked p ip)
  | none => (x.nodeIP.lookup ip).map (nodeWorkload ip)

theorem lookupUnmapped_of_owner {x : Index} {ip : Addr} {p : PodRecord}
    (h : x.owner ip = some p) : x.lookupUnmapped ip = some (x.podWorkloadLocked p ip) := by
  unfold lookupUnmapped
  rw [h]

theorem lookupUnmapped_of_unowned {x : Index} {ip : Addr} (h : x.owner ip = none) :
    x.lookupUnmapped ip = (x.nodeIP.lookup ip).map (nodeWorkload ip) := by
  unfold lookupUnmapped
  rw [h]

/-- The workload found behind an address carries it. -/
theorem ip_of_lookupUnmapped {x : Index} {ip : Addr} {w : Workload}
    (h : x.lookupUnmapped ip = some w) : w.ip = ip := by
  unfold lookupUnmapped at h
  cases ho : x.owner ip with
  | some p =>
    rw [ho] at h
    rw [← Option.some.inj h]
    rfl
  | none =>
    rw [ho] at h
    obtain ⟨node, -, rfl⟩ := Option.map_eq_some_iff.mp h
    rfl

def lookup (x : Index) (ip : Addr) : Option Workload := x.lookupUnmapped ip.unmap

def serviceByClusterIP (x : Index) (ip : Addr) : Option Service :=
  (x.byClusterIP.lookup ip.unmap).bind fun ref => x.services.lookup ref

def service (x : Index) («namespace» name : String) : Option Service :=
  x.services.lookup { «namespace», name }

/-- `Workloads`: every indexed address's workload, sorted by address. -/
def workloads (x : Index) : List Workload :=
  let pods := x.claims.keys.filterMap fun ip => (x.owner ip).map fun p => x.podWorkloadLocked p ip
  let nodes := x.nodeIP.toList.filterMap fun e =>
    if e.1 ∈ x.claims then none else some (nodeWorkload e.1 e.2)
  (pods ++ nodes).insertionSort fun a b => !b.ip.less a.ip

/-- `Services`: every Service, sorted by namespace and name. -/
def allServices (x : Index) : List Service :=
  (x.services.toList.map Prod.snd).insertionSort fun a b => a.ref.le b.ref

end Index

/-- One write to the index. -/
inductive IndexOp where
  | upsertPod (p : PodRecord)
  | deletePod (uid : String)
  | upsertSlice (s : SliceRecord)
  | deleteSlice (key : NsName)
  | upsertService (s : Service)
  | deleteService (ref : ServiceRef)
  | upsertCiliumEndpoint (c : CiliumEndpointRecord)
  | deleteCiliumEndpoint (key : NsName)
  | upsertNode (n : NodeRecord)
  | deleteNode (name : String)

/-- The index after a write. -/
def Index.write (x : Index) : IndexOp → Index
  | .upsertPod p => x.upsertPod p
  | .deletePod uid => x.deletePod uid
  | .upsertSlice s => x.upsertSlice s
  | .deleteSlice key => x.deleteSlice key
  | .upsertService s => x.upsertService s
  | .deleteService ref => x.deleteService ref
  | .upsertCiliumEndpoint c => x.upsertCiliumEndpoint c
  | .deleteCiliumEndpoint key => x.deleteCiliumEndpoint key
  | .upsertNode n => x.upsertNode n
  | .deleteNode name => x.deleteNode name

@[simp] theorem Index.write_changed (x : Index) (op : IndexOp) : (x.write op).changed = true := by
  cases op <;> simp only [Index.write, Index.upsertPod, Index.deletePod, Index.upsertSlice,
    Index.deleteSlice, Index.upsertService, Index.deleteService, Index.upsertCiliumEndpoint,
    Index.deleteCiliumEndpoint, Index.upsertNode, Index.deleteNode] <;>
    (try split) <;> rfl

end Hypergate.Operator
