import Hypergate.Operator.Latest

/-!
# `Workloads` against `Lookup`

`Workloads` lists the index in two loops, one over the claimed addresses and one over the
node addresses that nobody claims, and sorts what it found; `Lookup` decides from the pod
that owns one address. Each call visits the maps in an order of its own (`ReadOrder`),
also the set from which the Services of a pod are collected.

- `podWorkloadIn_eq`: the order does not show in a workload, because its Services are
  sorted.
- `nodup_ips_listed`: the two loops never meet the same address.
- `workloads_are_lookups`: in every state the writes can reach, the list is strictly
  sorted and has exactly the workloads that `Lookup` finds.
-/

namespace Hypergate.Operator

open Hypergate.Lib Hypergate.Identity

/-! ## The order of addresses -/

/-- What `Less` compares, in the order in which it does. -/
def sortKey (a : Addr) : ℕ ×ₗ ℕ ×ₗ String := toLex (a.bitLen, toLex (a.toNat, a.zone))

theorem less_iff_sortKey {a b : Addr} : a.less b = true ↔ sortKey a < sortKey b := by
  unfold Addr.less sortKey
  rw [Prod.Lex.toLex_lt_toLex, Prod.Lex.toLex_lt_toLex]
  simp only [Bool.or_eq_true, Bool.and_eq_true, decide_eq_true_eq, beq_iff_eq]

theorem sortKey_inj {a b : Addr} (h : sortKey a = sortKey b) : a = b := by
  obtain ⟨hlen, hrest⟩ := Prod.mk.inj (toLex.injective h)
  obtain ⟨hval, hzone⟩ := Prod.mk.inj (toLex.injective hrest)
  cases a <;> cases b
  case zero.zero => rfl
  case v4.v4 => exact congrArg Addr.v4 (BitVec.eq_of_toNat_eq hval)
  case v6.v6 bits zone bits' zone' =>
    obtain rfl : zone = zone' := hzone
    exact congrArg (Addr.v6 · zone) (BitVec.eq_of_toNat_eq hval)
  all_goals cases hlen

theorem not_less_iff_sortKey (a b : Workload) :
    (!b.ip.less a.ip) = true ↔ sortKey a.ip ≤ sortKey b.ip := by
  rw [Bool.not_eq_true', ← Bool.not_eq_true, less_iff_sortKey, not_lt]

/-! ## Reading in any order -/

namespace Index

/-- The orders in which one call visits the maps of the index. -/
structure ReadOrder (x : Index) where
  claims : AMap.Order x.claims
  nodeIP : AMap.Order x.nodeIP
  refs : String → Addr → List ServiceRef
  refs_perm : ∀ uid ip, (refs uid ip).Perm (x.podServiceRefs uid ip)

/-- `podWorkloadLocked`, the Services collected in that order before they are sorted. -/
def podWorkloadIn (x : Index) (o : ReadOrder x) (p : PodRecord) (ip : Addr) : Workload :=
  { x.podWorkloadLocked p ip with
    services := (o.refs p.uid ip).insertionSort fun a b => a.le b }

/-- `Lookup`. -/
def lookupIn (x : Index) (o : ReadOrder x) (ip : Addr) : Option Workload :=
  match x.owner ip.unmap with
  | some p => some (x.podWorkloadIn o p ip.unmap)
  | none => (x.nodeIP.lookup ip.unmap).map (nodeWorkload ip.unmap)

/-- What the two loops of `Workloads` append. -/
def listed (x : Index) (o : ReadOrder x) : List Workload :=
  (o.claims.items.filterMap fun e => (x.owner e.1).map fun p => x.podWorkloadIn o p e.1)
    ++ o.nodeIP.items.filterMap fun e =>
      if e.1 ∈ x.claims then none else some (nodeWorkload e.1 e.2)

/-- `Workloads`. -/
def workloadsIn (x : Index) (o : ReadOrder x) : List Workload :=
  (x.listed o).insertionSort fun a b => !b.ip.less a.ip

variable {x : Index}

theorem podWorkloadIn_eq (o : ReadOrder x) (p : PodRecord) (ip : Addr) :
    x.podWorkloadIn o p ip = x.podWorkloadLocked p ip := by
  have hnodup : ((x.podServiceRefs p.uid ip).map refKey).Nodup :=
    (Mirrors.nodup_podServiceRefs x p.uid ip).map refKey_injective
  have hsorted : x.podServiceRefs p.uid ip
      = (o.refs p.uid ip).insertionSort fun a b => a.le b := by
    rw [insertionSort_perm_eq le_iff_refKey hnodup (o.refs_perm p.uid ip)]
    exact eq_insertionSort le_iff_refKey hnodup (List.Perm.refl _)
      (pairwise_insertionSort_of_key le_iff_refKey _)
  unfold podWorkloadIn
  rw [← hsorted]
  rfl

theorem lookupIn_eq (o : ReadOrder x) (ip : Addr) : x.lookupIn o ip = x.lookup ip := by
  unfold lookupIn lookup lookupUnmapped
  cases x.owner ip.unmap with
  | none => rfl
  | some p => exact congrArg some (podWorkloadIn_eq o p ip.unmap)

/-- What the loops append is what they append in the order the maps are in. -/
theorem mem_listed_iff (o : ReadOrder x) (w : Workload) :
    w ∈ x.listed o ↔ w ∈ x.workloads := by
  unfold listed workloads
  rw [List.mem_insertionSort, List.mem_append, List.mem_append]
  refine or_congr ?_ ?_
  · rw [List.mem_filterMap, List.mem_filterMap]
    constructor
    · rintro ⟨⟨ip, uids⟩, he, hw⟩
      refine ⟨ip, AList.mem_keys.mp (AList.lookup_isSome.mp ?_), ?_⟩
      · rw [o.claims.mem_items.mp he]
        rfl
      · simpa only [podWorkloadIn_eq] using hw
    · rintro ⟨ip, hip, hw⟩
      obtain ⟨uids, huids⟩ := Option.isSome_iff_exists.mp
        (AList.lookup_isSome.mpr (AList.mem_keys.mpr hip))
      refine ⟨(ip, uids), o.claims.mem_items.mpr huids, ?_⟩
      simpa only [podWorkloadIn_eq] using hw
  · rw [List.mem_filterMap, List.mem_filterMap]
    simp only [o.nodeIP.perm.mem_iff]

end Index

/-! ## One entry per address -/

/-- The addresses a loop over an order of a map visits. -/
theorem nodup_order_keys {K V : Type} [DecidableEq K] {m : AMap K V} (o : AMap.Order m) :
    (o.items.map Prod.fst).Nodup := by
  rw [(o.perm.map Prod.fst).nodup_iff, AMap.map_fst_toList]
  exact m.keys_nodup

/-- A loop that appends at most one workload for a key, and that with the key as its
address, appends no two of one address. -/
theorem nodup_ips_filterMap {V : Type} {l : List (Addr × V)} (hl : (l.map Prod.fst).Nodup)
    {f : Addr × V → Option Workload} (hf : ∀ e ∈ l, ∀ w, f e = some w → w.ip = e.1) :
    ((l.filterMap f).map (·.ip)).Nodup := by
  rw [List.map_filterMap]
  have hsub : (l.filterMap fun e => (f e).map (·.ip)).Sublist (l.map Prod.fst) := by
    induction l with
    | nil => exact .slnil
    | cons e l ih =>
      have ih := ih (List.nodup_cons.mp hl).2 fun e' he' => hf e' (List.mem_cons_of_mem _ he')
      cases hfe : f e with
      | none =>
        rw [List.filterMap_cons_none (by rw [hfe]; rfl)]
        exact ih.cons _
      | some w =>
        rw [List.filterMap_cons_some (b := w.ip) (by rw [hfe]; rfl),
          hf e List.mem_cons_self w hfe]
        exact ih.cons_cons _
  exact hl.sublist hsub

/-- The first loop meets claimed addresses only, the second the others. -/
theorem Index.nodup_ips_listed {x : Index} (o : x.ReadOrder) :
    ((x.listed o).map (·.ip)).Nodup := by
  unfold Index.listed
  rw [List.map_append]
  refine List.nodup_append.mpr ⟨?_, ?_, ?_⟩
  · refine nodup_ips_filterMap (nodup_order_keys o.claims) ?_
    intro e _ w hw
    obtain ⟨p, -, rfl⟩ := Option.map_eq_some_iff.mp hw
    rfl
  · refine nodup_ips_filterMap (nodup_order_keys o.nodeIP) ?_
    intro e _ w hw
    split at hw
    · cases hw
    · rw [← Option.some.inj hw]
      rfl
  · intro ip hip ip' hip'
    rintro rfl
    obtain ⟨w, hw, hwip⟩ := List.mem_map.mp hip
    obtain ⟨e, he, hp⟩ := List.mem_filterMap.mp hw
    obtain ⟨p, -, rfl⟩ := Option.map_eq_some_iff.mp hp
    obtain ⟨w', hw', hwip'⟩ := List.mem_map.mp hip'
    obtain ⟨e', -, hn⟩ := List.mem_filterMap.mp hw'
    split at hn
    · cases hn
    · rename_i hfree
      cases hn
      have hsame : e'.1 = e.1 := hwip'.trans hwip.symm
      rw [hsame] at hfree
      refine hfree (AList.lookup_isSome.mp ?_)
      rw [o.claims.mem_items.mp he]
      rfl

/-! ## The list and the lookups -/

/-- Whatever was written, and in whatever orders the two calls visit the maps: the list is
strictly sorted by address, so it has one workload for an address; it has a workload if and
only if `Lookup` of its address finds exactly that one; and what `Lookup` finds is in it. -/
theorem workloads_are_lookups (trustDomain : String) (labelKeys : List String)
    (ops : List IndexOp)
    (o o' : (ops.foldl Index.write (Index.new trustDomain labelKeys)).ReadOrder) :
    (Index.workloadsIn _ o).Pairwise (fun a b => a.ip.less b.ip = true)
      ∧ (∀ w, w ∈ Index.workloadsIn _ o ↔ Index.lookupIn _ o' w.ip = some w)
      ∧ ∀ ip w, Index.lookupIn _ o' ip = some w → w ∈ Index.workloadsIn _ o ∧ w.ip = ip.unmap := by
  have hinv := (IndexInv.new trustDomain labelKeys).writes ops
  generalize ops.foldl Index.write (Index.new trustDomain labelKeys) = x at hinv o o'
  have hmem : ∀ w, w ∈ x.workloadsIn o ↔ x.lookupUnmapped w.ip = some w := by
    intro w
    unfold Index.workloadsIn
    rw [List.mem_insertionSort, Index.mem_listed_iff, hinv.mem_workloads_iff]
  have hfound : ∀ ip w, x.lookupIn o' ip = some w →
      w ∈ x.workloadsIn o ∧ w.ip = ip.unmap := by
    intro ip w hw
    rw [Index.lookupIn_eq] at hw
    have hip : w.ip = ip.unmap := Index.ip_of_lookupUnmapped hw
    rw [hmem, hip]
    exact ⟨hw, rfl⟩
  refine ⟨?_, fun w => ⟨fun hw => ?_, fun hw => (hfound _ _ hw).1⟩, hfound⟩
  · have hkeys : ((x.listed o).map fun w => sortKey w.ip).Nodup := by
      have hcomp := (Index.nodup_ips_listed o).map fun _ _ => sortKey_inj
      rwa [List.map_map] at hcomp
    refine (pairwise_lt_insertionSort not_less_iff_sortKey hkeys).imp ?_
    intro a b hab
    exact less_iff_sortKey.mpr hab
  · rw [hmem] at hw
    have hcanon := hinv.canonical_of_lookupUnmapped hw
    rw [Index.lookupIn_eq]
    show x.lookupUnmapped w.ip.unmap = some w
    rw [hcanon.unmapped]
    exact hw

end Hypergate.Operator
