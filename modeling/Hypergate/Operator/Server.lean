import Hypergate.Lib.Delta
import Hypergate.Lib.TSys
import Hypergate.Identity.Proto
import Hypergate.Operator.Index

/-!
# Pushing the index to the caches (`hyper-operator/internal/identity/server.go`)

`Sync` renders the index as named resources and pushes the difference from the
maps of the previous `Sync` into two linear caches, one for workloads and one
for Services. `UpdateResources` may fail; a failed call leaves its cache
unchanged.

The text form of addresses (`netip.Addr.String`) is a parameter.
-/

namespace Hypergate.Operator

open Hypergate.Lib Hypergate.Identity

/-! ## Resources -/

section Resources

variable (str : Addr → String)

def workloadProto (w : Workload) : WorkloadProto where
  ip := str w.ip
  kind := match w.kind with
    | .pod => .pod
    | .node => .node
  podUid := w.podUID
  «namespace» := w.namespace
  pod := w.pod
  serviceAccount := w.serviceAccount
  spiffeId := w.spiffeID
  securityIdentity := w.securityIdentity
  labels := w.labels
  node := w.node
  ciliumLabels := w.ciliumLabels
  services := w.services.map fun ref => { «namespace» := ref.namespace, name := ref.name }

def serviceProto (s : Service) : ServiceProto where
  name := s.name
  «namespace» := s.namespace
  clusterIps := s.clusterIPs.map str
  ports := s.ports

/-- The resource name of a Service. -/
def serviceName (ref : ServiceRef) : String := ref.namespace ++ "/" ++ ref.name

/-- `nextW` of `Sync`: the workload resources of an index. -/
def workloadResources (x : Index) : AMap String WorkloadProto :=
  AMap.insertAll ∅ (x.workloads.map fun w => (str w.ip, workloadProto str w))

/-- `nextS` of `Sync`: the Service resources of an index. -/
def serviceResources (x : Index) : AMap String ServiceProto :=
  AMap.insertAll ∅ (x.allServices.map fun s => (serviceName s.ref, serviceProto str s))

end Resources

/-! ## Sync -/

/-- `applyDiff`. `ok` says whether `UpdateResources` succeeds, if it is called;
the result is the cache and whether no error was returned. -/
def applyDiff {M : Type} [DecidableEq M] (ok : Bool) (c last next : AMap String M) :
    AMap String M × Bool :=
  let d := Delta.diff last next
  if d.isEmpty then (c, true)
  else if ok then (d.apply c, true)
  else (c, false)

section ApplyDiff

variable {M : Type} [DecidableEq M]

/-- Without an error, the cache is the difference applied, called or not. -/
theorem applyDiff_of_ok {ok : Bool} {c last next : AMap String M}
    (h : (applyDiff ok c last next).2 = true) (name : String) :
    (applyDiff ok c last next).1.lookup name =
      ((Delta.diff last next).apply c).lookup name := by
  unfold applyDiff at h ⊢
  by_cases hd : (Delta.diff last next).isEmpty = true
  · simp only [hd, if_true, Delta.lookup_apply, Delta.effect_of_isEmpty hd, Option.getD_none]
  · cases ok with
    | true => simp [hd]
    | false => simp [hd] at h

end ApplyDiff

/-- A node appears at `10.0.0.1`. -/
def nodeAppears : IndexOp := .upsertNode { name := "n1", ips := [.v4 0x0a000001#32] }

/-- The index that knows only that node. -/
def oneNode : Index := (Index.new "" []).write nodeAppears

/-- `Server`: the index, the two caches and the maps of the previous `Sync`. -/
structure Server where
  index : Index
  workloads : AMap String WorkloadProto := ∅
  services : AMap String ServiceProto := ∅
  lastWorkloads : AMap String WorkloadProto := ∅
  lastServices : AMap String ServiceProto := ∅

namespace Server

variable (str : Addr → String)

/-- `Sync`, with the outcome of its two `UpdateResources` calls. The flag says
that every call made returned no error. -/
def sync (s : Server) (okW okS : Bool) : Server × Bool :=
  let nextW := workloadResources str s.index
  let nextS := serviceResources str s.index
  let (workloads, noErrW) := applyDiff okW s.workloads s.lastWorkloads nextW
  let (services, noErrS) := applyDiff okS s.services s.lastServices nextS
  ({ s with workloads, services, lastWorkloads := nextW, lastServices := nextS },
    noErrW && noErrS)

section

variable (s : Server) (okW okS : Bool)

@[simp] theorem sync_index : (s.sync str okW okS).1.index = s.index := rfl

@[simp] theorem sync_lastWorkloads :
    (s.sync str okW okS).1.lastWorkloads = workloadResources str s.index := rfl

@[simp] theorem sync_lastServices :
    (s.sync str okW okS).1.lastServices = serviceResources str s.index := rfl

end

/-- The caches hold exactly the resources of the index. -/
structure Published (s : Server) : Prop where
  workloads : ∀ name, s.workloads.lookup name = (workloadResources str s.index).lookup name
  services : ∀ name, s.services.lookup name = (serviceResources str s.index).lookup name

theorem applyDiff_published_iff {M : Type} [DecidableEq M] {ok : Bool}
    {c last next : AMap String M} (h : (applyDiff ok c last next).2 = true) :
    (∀ name, (applyDiff ok c last next).1.lookup name = next.lookup name) ↔
      ∀ name, last.lookup name = next.lookup name → c.lookup name = next.lookup name := by
  rw [← Delta.apply_diff_iff last next c]
  exact forall_congr' fun name => by rw [applyDiff_of_ok h]

end Server

/-! ## Runs -/

/-- The caches are the maps of the previous `Sync`. -/
structure Server.Pushed (s : Server) : Prop where
  workloads : ∀ name, s.workloads.lookup name = s.lastWorkloads.lookup name
  services : ∀ name, s.services.lookup name = s.lastServices.lookup name

end Hypergate.Operator
