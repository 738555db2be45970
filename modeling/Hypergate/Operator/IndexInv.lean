import Hypergate.Operator.Index
import Hypergate.Lib.Pointers

/-!
# What every write keeps true of the index

The index stores each record once and, beside it, an inverted map that answers
lookups by address: `claims` for pods, `nodeIP` for nodes. `IndexInv` ties the
two together:

* a pod claims an address exactly when its stored record lists it, and no
  address is left with an empty list of claimants;
* a node address points to a stored node that lists it;
* stored addresses are valid and unmapped;
* a Service is stored under its own name.

`IndexInv.write` shows that every write keeps this. Its use is
`mem_workloads_iff`: the list `Workloads` returns is `Lookup`, address by
address.
-/

namespace Hypergate.Operator

open Hypergate.Lib Hypergate.Identity

/-! ## Lists without repetitions -/

/-- Append what is not there yet. -/
def pushNew {α : Type} [DecidableEq α] (out : List α) (a : α) : List α :=
  if a ∈ out then out else out ++ [a]

theorem mem_foldl_pushNew {α : Type} [DecidableEq α] {l out : List α} {a : α} :
    a ∈ l.foldl pushNew out ↔ a ∈ out ∨ a ∈ l := by
  induction l generalizing out with
  | nil => simp
  | cons b l ih =>
    rw [List.foldl_cons, ih, List.mem_cons, ← or_assoc]
    unfold pushNew
    by_cases hb : b ∈ out
    · rw [if_pos hb]
      constructor
      · rintro (h | h)
        · exact .inl (.inl h)
        · exact .inr h
      · rintro ((h | rfl) | h)
        · exact .inl h
        · exact .inl hb
        · exact .inr h
    · rw [if_neg hb, List.mem_append, List.mem_singleton]

theorem nodup_foldl_pushNew {α : Type} [DecidableEq α] {l out : List α} (h : out.Nodup) :
    (l.foldl pushNew out).Nodup := by
  induction l generalizing out with
  | nil => exact h
  | cons b l ih =>
    apply ih
    unfold pushNew
    by_cases hb : b ∈ out
    · rw [if_pos hb]
      exact h
    · rw [if_neg hb]
      refine List.nodup_append.mpr ⟨h, by simp, ?_⟩
      intro a ha c hc
      rw [List.mem_singleton.mp hc]
      rintro rfl
      exact hb ha

theorem uniqueAddrs_eq (addrs : List Addr) :
    uniqueAddrs addrs = ((addrs.filter Addr.isValid).map Addr.unmap).foldl pushNew [] := by
  rw [List.foldl_map, List.foldl_filter]
  rfl

theorem canonical_of_mem_uniqueAddrs {addrs : List Addr} {a : Addr}
    (h : a ∈ uniqueAddrs addrs) : Canonical a := by
  rw [uniqueAddrs_eq, mem_foldl_pushNew] at h
  rcases h with h | h
  · cases h
  · obtain ⟨b, hb, rfl⟩ := List.mem_map.mp h
    exact .unmap (List.mem_filter.mp hb).2

/-! ## Claims -/

namespace Index

section Claims

variable (uid : String)

/-- Dropping one claim removes that claim and no other. -/
theorem mem_dropClaim (claims : AMap Addr (List String)) (ip ip' : Addr) (uid' : String) :
    uid' ∈ (dropClaim uid claims ip).getD ip' [] ↔
      uid' ∈ claims.getD ip' [] ∧ ¬(uid' = uid ∧ ip' = ip) := by
  have hfilter : uid' ∈ (claims.getD ip []).filter (· ≠ uid) ↔
      uid' ∈ claims.getD ip [] ∧ uid' ≠ uid := by simp
  unfold dropClaim
  by_cases hrest : ((claims.getD ip []).filter (· ≠ uid)).isEmpty = true
  · rw [if_pos hrest, AMap.getD_erase]
    rw [List.isEmpty_iff.mp hrest] at hfilter
    by_cases hip : ip' = ip
    · subst hip
      rw [if_pos rfl, hfilter]
      simp
    · simp [hip]
  · rw [if_neg hrest, AMap.getD_insert]
    by_cases hip : ip' = ip
    · subst hip
      rw [if_pos rfl, hfilter]
      simp
    · simp [hip]

variable {claims : AMap Addr (List String)}

theorem lookup_dropClaim_ne_nil (h : ∀ ip, claims.lookup ip ≠ some []) (ip ip' : Addr) :
    (dropClaim uid claims ip).lookup ip' ≠ some [] := by
  unfold dropClaim
  by_cases hrest : ((claims.getD ip []).filter (· ≠ uid)).isEmpty = true
  · rw [if_pos hrest, AMap.lookup_erase_ite]
    split
    · simp
    · exact h ip'
  · rw [if_neg hrest, AMap.lookup_insert_ite]
    split
    · intro heq
      exact hrest (by rw [Option.some.inj heq]; rfl)
    · exact h ip'

theorem mem_dropClaims (ips : List Addr) (claims : AMap Addr (List String)) (ip : Addr)
    (uid' : String) :
    uid' ∈ AMap.getD (ips.foldl (dropClaim uid) claims) ip [] ↔
      uid' ∈ claims.getD ip [] ∧ ¬(uid' = uid ∧ ip ∈ ips) := by
  induction ips generalizing claims with
  | nil => simp
  | cons a ips ih =>
    rw [List.foldl_cons, ih, mem_dropClaim]
    by_cases hu : uid' = uid <;> by_cases ha : ip = a <;> simp [hu, ha]

theorem lookup_dropClaims_ne_nil (ips : List Addr) (h : ∀ ip, claims.lookup ip ≠ some [])
    (ip : Addr) :
    AList.lookup ip (ips.foldl (dropClaim uid) claims) ≠ some [] := by
  induction ips generalizing claims with
  | nil => exact h ip
  | cons a ips ih => exact ih fun ip' => lookup_dropClaim_ne_nil uid h a ip'

theorem mem_addClaim (claims : AMap Addr (List String)) (ip ip' : Addr) (uid' : String) :
    uid' ∈ (addClaim uid claims ip).getD ip' [] ↔
      uid' ∈ claims.getD ip' [] ∨ (uid' = uid ∧ ip' = ip) := by
  unfold addClaim
  rw [AMap.getD_insert]
  by_cases hip : ip' = ip
  · subst hip; simp
  · simp [hip]

theorem mem_addClaims (ips : List Addr) (claims : AMap Addr (List String)) (ip : Addr)
    (uid' : String) :
    uid' ∈ AMap.getD (ips.foldl (addClaim uid) claims) ip [] ↔
      uid' ∈ claims.getD ip [] ∨ (uid' = uid ∧ ip ∈ ips) := by
  induction ips generalizing claims with
  | nil => simp
  | cons a ips ih =>
    rw [List.foldl_cons, ih, mem_addClaim]
    by_cases hu : uid' = uid <;> by_cases ha : ip = a <;> simp [hu, ha]

theorem lookup_addClaims_ne_nil (ips : List Addr) (h : ∀ ip, claims.lookup ip ≠ some [])
    (ip : Addr) :
    AList.lookup ip (ips.foldl (addClaim uid) claims) ≠ some [] := by
  induction ips generalizing claims with
  | nil => exact h ip
  | cons a ips ih =>
    apply ih
    intro ip'
    unfold addClaim
    rw [AMap.lookup_insert_ite]
    split
    · simp
    · exact h ip'

end Claims

end Index

/-! ## The invariant -/

/-- The inverted maps describe the stored records. -/
structure IndexInv (x : Index) : Prop where
  claims_iff : ∀ ip uid, uid ∈ x.claims.getD ip [] ↔
    ∃ p, x.pods.lookup uid = some p ∧ ip ∈ p.ips
  claims_ne_nil : ∀ ip, x.claims.lookup ip ≠ some []
  pod_addrs : ∀ uid p, x.pods.lookup uid = some p → ∀ ip ∈ p.ips, Canonical ip
  node_listed : ∀ ip name, x.nodeIP.lookup ip = some name →
    ∃ n, x.nodes.lookup name = some n ∧ ip ∈ n.ips
  node_addrs : ∀ name n, x.nodes.lookup name = some n → ∀ ip ∈ n.ips, Canonical ip
  service_ref : ∀ ref s, x.services.lookup ref = some s → s.ref = ref
  service_addrs : ∀ ref s, x.services.lookup ref = some s → ∀ ip ∈ s.clusterIPs, Canonical ip

namespace IndexInv

variable {x : Index}

theorem new (trustDomain : String) (labelKeys : List String) :
    IndexInv (Index.new trustDomain labelKeys) := by
  constructor
  case claims_iff => intro ip uid; simp [Index.new]
  all_goals (intros; simp_all [Index.new])

theorem bump (h : IndexInv x) : IndexInv x.bump :=
  ⟨h.claims_iff, h.claims_ne_nil, h.pod_addrs, h.node_listed, h.node_addrs, h.service_ref,
    h.service_addrs⟩

/-- What was not stored is gone without a trace: only the pod's own claims go. -/
theorem removePodLocked (h : IndexInv x) (uid : String) : IndexInv (x.removePodLocked uid) := by
  unfold Index.removePodLocked
  cases hold : x.pods.lookup uid with
  | none => exact h
  | some old =>
    refine { h with claims_iff := ?_, claims_ne_nil := ?_, pod_addrs := ?_ }
    · intro ip uid'
      rw [Index.mem_dropClaims, h.claims_iff, AMap.lookup_erase_ite]
      by_cases hu : uid' = uid
      · subst hu
        simp only [hold, Option.some.injEq, exists_eq_left', true_and, if_true]
        simp
      · simp [hu]
    · exact Index.lookup_dropClaims_ne_nil uid old.ips h.claims_ne_nil
    · exact fun uid' p hp => h.pod_addrs uid' p (AMap.lookup_of_erase hp)

theorem removePodLocked_pods (x : Index) (uid : String) :
    (x.removePodLocked uid).pods.lookup uid = none := by
  unfold Index.removePodLocked
  cases hold : x.pods.lookup uid with
  | none => exact hold
  | some old => exact AList.lookup_erase uid x.pods

theorem upsertPod (h : IndexInv x) (p : PodRecord) : IndexInv (x.upsertPod p) := by
  have hx := h.removePodLocked p.uid
  have hgone := removePodLocked_pods x p.uid
  unfold Index.upsertPod
  generalize x.removePodLocked p.uid = y at hx hgone
  by_cases hskip : (p.hostNetwork || p.finished || p.uid == "") = true
  · simp only [hskip, if_true]
    exact hx.bump
  · rw [if_neg hskip]
    apply bump
    refine { hx with claims_iff := ?_, claims_ne_nil := ?_, pod_addrs := ?_ }
    · intro ip uid'
      rw [Index.mem_addClaims, hx.claims_iff, AMap.lookup_insert_ite]
      by_cases hu : uid' = p.uid
      · subst hu; simp [hgone]
      · simp [hu]
    · exact Index.lookup_addClaims_ne_nil p.uid _ hx.claims_ne_nil
    · intro uid' q hq
      rcases AMap.lookup_insert_cases hq with ⟨-, rfl⟩ | hq
      · exact fun ip hip => canonical_of_mem_uniqueAddrs hip
      · exact hx.pod_addrs uid' q hq

theorem removeSliceLocked (h : IndexInv x) (key : NsName) : IndexInv (x.removeSliceLocked key) := by
  unfold Index.removeSliceLocked
  cases x.slices.lookup key with
  | none => exact h
  | some old => exact { h with }

theorem upsertSlice (h : IndexInv x) (s : SliceRecord) : IndexInv (x.upsertSlice s) := by
  have hx := h.removeSliceLocked { «namespace» := s.namespace, name := s.name }
  unfold Index.upsertSlice
  by_cases hs : s.service = ""
  · simp only [hs, if_true]
    exact hx.bump
  · simp only [hs, if_false]
    exact bump { hx with }

theorem removeServiceLocked (h : IndexInv x) (ref : ServiceRef) :
    IndexInv (x.removeServiceLocked ref) := by
  unfold Index.removeServiceLocked
  cases x.services.lookup ref with
  | none => exact h
  | some old =>
    exact { h with
      service_ref := fun ref' s hs => h.service_ref ref' s (AMap.lookup_of_erase hs)
      service_addrs := fun ref' s hs => h.service_addrs ref' s (AMap.lookup_of_erase hs) }

theorem upsertService (h : IndexInv x) (s : Service) : IndexInv (x.upsertService s) := by
  have hx := h.removeServiceLocked s.ref
  unfold Index.upsertService
  apply bump
  refine { hx with service_ref := ?_, service_addrs := ?_ }
  · intro ref s' hs'
    rcases AMap.lookup_insert_cases hs' with ⟨rfl, rfl⟩ | hs'
    · rfl
    · exact hx.service_ref ref s' hs'
  · intro ref s' hs'
    rcases AMap.lookup_insert_cases hs' with ⟨-, rfl⟩ | hs'
    · exact fun ip hip => canonical_of_mem_uniqueAddrs hip
    · exact hx.service_addrs ref s' hs'

/-- An address that still points to a node after `name` is gone points to
another node: the pointers to `name` were dropped with it. -/
theorem removeNodeLocked (h : IndexInv x) (name : String) :
    IndexInv (x.removeNodeLocked name) := by
  unfold Index.removeNodeLocked
  cases hold : x.nodes.lookup name with
  | none => exact h
  | some old =>
    refine { h with node_listed := ?_, node_addrs := ?_ }
    · intro ip name' hip
      rw [lookup_dropPointers] at hip
      split at hip
      · cases hip
      · rename_i hnot
        obtain ⟨n, hn, hmem⟩ := h.node_listed ip name' hip
        have hne : name' ≠ name := by
          rintro rfl
          rw [hold] at hn
          cases hn
          exact hnot ⟨hmem, hip⟩
        exact ⟨n, by rw [AMap.lookup_erase_ite, if_neg hne]; exact hn, hmem⟩
    · exact fun name' n hn => h.node_addrs name' n (AMap.lookup_of_erase hn)

theorem removeNodeLocked_nodeIP (h : IndexInv x) (name : String) (ip : Addr) :
    (x.removeNodeLocked name).nodeIP.lookup ip ≠ some name := by
  unfold Index.removeNodeLocked
  cases hold : x.nodes.lookup name with
  | none =>
    intro hip
    obtain ⟨n, hn, -⟩ := h.node_listed ip name hip
    rw [hold] at hn
    cases hn
  | some old =>
    intro hip
    rw [lookup_dropPointers] at hip
    split at hip
    · cases hip
    · rename_i hnot
      obtain ⟨n, hn, hmem⟩ := h.node_listed ip name hip
      rw [hold] at hn
      cases hn
      exact hnot ⟨hmem, hip⟩

theorem upsertNode (h : IndexInv x) (n : NodeRecord) : IndexInv (x.upsertNode n) := by
  have hx := h.removeNodeLocked n.name
  have hgone := h.removeNodeLocked_nodeIP n.name
  unfold Index.upsertNode
  generalize x.removeNodeLocked n.name = y at hx hgone
  apply bump
  refine { hx with node_listed := ?_, node_addrs := ?_ }
  · intro ip name' hip
    rw [lookup_addPointers] at hip
    split at hip
    · rename_i hmem
      cases hip
      exact ⟨_, AList.lookup_insert y.nodes, hmem⟩
    · obtain ⟨n', hn', hmem⟩ := hx.node_listed ip name' hip
      have hne : name' ≠ n.name := by
        rintro rfl
        exact hgone ip hip
      exact ⟨n', by rw [AMap.lookup_insert_ite, if_neg hne]; exact hn', hmem⟩
  · intro name' n' hn'
    rcases AMap.lookup_insert_cases hn' with ⟨-, rfl⟩ | hn'
    · exact fun ip hip => canonical_of_mem_uniqueAddrs hip
    · exact hx.node_addrs name' n' hn'

theorem write (h : IndexInv x) (op : IndexOp) : IndexInv (x.write op) := by
  cases op with
  | upsertPod p => exact h.upsertPod p
  | deletePod uid => exact (h.removePodLocked uid).bump
  | upsertSlice s => exact h.upsertSlice s
  | deleteSlice key => exact (h.removeSliceLocked key).bump
  | upsertService s => exact h.upsertService s
  | deleteService ref => exact (h.removeServiceLocked ref).bump
  | upsertCiliumEndpoint c => exact bump { h with }
  | deleteCiliumEndpoint key => exact bump { h with }
  | upsertNode n => exact h.upsertNode n
  | deleteNode name => exact (h.removeNodeLocked name).bump

theorem writes (h : IndexInv x) (ops : List IndexOp) : IndexInv (ops.foldl Index.write x) := by
  induction ops generalizing x with
  | nil => exact h
  | cons op ops ih => exact ih (h.write op)

/-! ## Reading the index -/

theorem foldl_betterOwner_isSome (x : Index) (uids : List String) (best : Option PodRecord) :
    (uids.foldl x.betterOwner best).isSome = true ↔
      best.isSome = true ∨ ∃ uid ∈ uids, (x.pods.lookup uid).isSome = true := by
  induction uids generalizing best with
  | nil => simp
  | cons uid uids ih =>
    have hstep : (x.betterOwner best uid).isSome = true ↔
        best.isSome = true ∨ (x.pods.lookup uid).isSome = true := by
      unfold Index.betterOwner
      cases x.pods.lookup uid with
      | none => simp
      | some p =>
        cases best with
        | none => simp
        | some b =>
          simp only
          split <;> simp
    rw [List.foldl_cons, ih, hstep]
    simp only [List.mem_cons, exists_eq_or_imp, or_assoc]

/-- A claimed address has an owner, an unclaimed one has none. -/
theorem owner_isSome_iff (h : IndexInv x) (ip : Addr) :
    (x.owner ip).isSome = true ↔ ip ∈ x.claims := by
  rw [Index.owner, foldl_betterOwner_isSome, ← AList.lookup_isSome]
  have hclaims := h.claims_iff ip
  unfold AMap.getD at hclaims ⊢
  cases hl : x.claims.lookup ip with
  | none => simp
  | some uids =>
    rw [hl] at hclaims
    cases uids with
    | nil => exact absurd hl (h.claims_ne_nil ip)
    | cons uid uids =>
      obtain ⟨p, hp, -⟩ := (hclaims uid).mp (by simp)
      simp [hp]

theorem canonical_of_mem_claims (h : IndexInv x) {ip : Addr} (hip : ip ∈ x.claims) :
    Canonical ip := by
  rw [← h.owner_isSome_iff, Index.owner, foldl_betterOwner_isSome] at hip
  rcases hip with hip | ⟨uid, huid, -⟩
  · cases hip
  · obtain ⟨p, hp, hmem⟩ := (h.claims_iff ip uid).mp huid
    exact h.pod_addrs uid p hp ip hmem

theorem canonical_of_nodeIP (h : IndexInv x) {ip : Addr} {name : String}
    (hip : x.nodeIP.lookup ip = some name) : Canonical ip := by
  obtain ⟨n, hn, hmem⟩ := h.node_listed ip name hip
  exact h.node_addrs name n hn ip hmem

/-- Only addresses as the index stores them are found. -/
theorem canonical_of_lookupUnmapped (h : IndexInv x) {ip : Addr} {w : Workload}
    (hw : x.lookupUnmapped ip = some w) : Canonical ip := by
  unfold Index.lookupUnmapped at hw
  cases ho : x.owner ip with
  | some p => exact h.canonical_of_mem_claims ((h.owner_isSome_iff ip).mp (by rw [ho]; rfl))
  | none =>
    rw [ho] at hw
    obtain ⟨name, hname, -⟩ := Option.map_eq_some_iff.mp hw
    exact h.canonical_of_nodeIP hname

theorem mem_workloads_iff (h : IndexInv x) (w : Workload) :
    w ∈ x.workloads ↔ x.lookupUnmapped w.ip = some w := by
  unfold Index.workloads
  rw [List.mem_insertionSort, List.mem_append, List.mem_filterMap, List.mem_filterMap]
  constructor
  · intro hw
    rcases hw with ⟨ip, -, hw⟩ | ⟨⟨ip, name⟩, hmem, hw⟩
    · obtain ⟨p, hp, rfl⟩ := Option.map_eq_some_iff.mp hw
      show x.lookupUnmapped ip = _
      exact Index.lookupUnmapped_of_owner hp
    · split at hw
      · cases hw
      · rename_i hclaim
        cases hw
        have hnone : x.owner ip = none := by
          rw [← Option.not_isSome_iff_eq_none, h.owner_isSome_iff]
          exact hclaim
        show x.lookupUnmapped ip = _
        rw [Index.lookupUnmapped_of_unowned hnone, AMap.mem_toList.mp hmem]
        rfl
  · intro hw
    cases ho : x.owner w.ip with
    | some p =>
      rw [Index.lookupUnmapped_of_owner ho] at hw
      have hclaim : w.ip ∈ x.claims := (h.owner_isSome_iff w.ip).mp (by rw [ho]; rfl)
      exact .inl ⟨w.ip, AList.mem_keys.mp hclaim, by rw [ho]; exact hw⟩
    | none =>
      rw [Index.lookupUnmapped_of_unowned ho] at hw
      obtain ⟨name, hname, hw'⟩ := Option.map_eq_some_iff.mp hw
      have hclaim : w.ip ∉ x.claims := by
        rw [← h.owner_isSome_iff, ho]
        simp
      exact .inr ⟨(w.ip, name), AMap.mem_toList.mpr hname, by rw [if_neg hclaim, hw']⟩

theorem mem_allServices_iff (h : IndexInv x) (s : Service) :
    s ∈ x.allServices ↔ x.services.lookup s.ref = some s := by
  unfold Index.allServices
  rw [List.mem_insertionSort, List.mem_map]
  constructor
  · rintro ⟨⟨ref, s'⟩, hmem, rfl⟩
    have hlook := AMap.mem_toList.mp hmem
    rw [h.service_ref ref s' hlook]
    exact hlook
  · exact fun hs => ⟨(s.ref, s), AMap.mem_toList.mpr hs, rfl⟩

end IndexInv

end Hypergate.Operator
