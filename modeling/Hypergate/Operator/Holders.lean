import Hypergate.Operator.Latest

/-!
# Nodes and Services behind an address

Pods keep a list of claimants per address; nodes and Services keep one name per
address (`nodeIP`, `byClusterIP`). `Holders` is what the calls have said last
about every node and Service, and `Answers` is what `Lookup` and
`ServiceByClusterIP` owe to it.

* While every node and Service that is written lists no address of another one
  (`Unshared`), the index owes nothing: `holders_answered`.
* Two holders of one address are one too many for a single name: the second takes
  the name over, and its delete leaves the first unfound.
-/

namespace Hypergate.Operator

open Hypergate.Lib Hypergate.Identity

/-- No stored pod lists the address. -/
def Index.Unclaimed (x : Index) (ip : Addr) : Prop :=
  ∀ uid p, x.pods.lookup uid = some p → ip.unmap ∉ p.ips

/-- The index after a sequence of calls. -/
def Index.after (trustDomain : String) (labelKeys : List String) (ops : List IndexOp) : Index :=
  ops.foldl Index.write (Index.new trustDomain labelKeys)

/-- The latest record of every node and Service. -/
structure Holders where
  nodes : String → Option NodeRecord := fun _ => none
  services : ServiceRef → Option Service := fun _ => none

namespace Holders

/-- The records after one more call. -/
def write (r : Holders) : IndexOp → Holders
  | .upsertNode n => { r with nodes := fun name => if name = n.name then some n else r.nodes name }
  | .deleteNode name =>
    { r with nodes := fun name' => if name' = name then none else r.nodes name' }
  | .upsertService s =>
    { r with services := fun ref => if ref = s.ref then some s else r.services ref }
  | .deleteService ref =>
    { r with services := fun ref' => if ref' = ref then none else r.services ref' }
  | _ => r

/-- The records after a sequence of calls on an empty index. -/
def latest (ops : List IndexOp) : Holders := ops.foldl Holders.write {}

/-- A stored node that lists the address. -/
def NodeAt (r : Holders) (ip : Addr) (n : NodeRecord) : Prop :=
  r.nodes n.name = some n ∧ Lists n.ips ip

/-- A stored Service that lists the address among its cluster IPs. -/
def ServiceAt (r : Holders) (ip : Addr) (s : Service) : Prop :=
  r.services s.ref = some s ∧ Lists s.clusterIPs ip

/-- A node or Service that is written lists no address of another one. -/
def Unshared (r : Holders) : IndexOp → Prop
  | .upsertNode n => ∀ ip m, r.NodeAt ip m → m.name ≠ n.name → ¬ Lists n.ips ip
  | .upsertService s => ∀ ip t, r.ServiceAt ip t → t.ref ≠ s.ref → ¬ Lists s.clusterIPs ip
  | _ => True

/-- Every call of the sequence is `Unshared` when it is made. -/
def UnsharedRun : Holders → List IndexOp → Prop
  | _, [] => True
  | r, op :: ops => r.Unshared op ∧ UnsharedRun (r.write op) ops

/-- What the index owes to the records at one address: a node if a stored one
lists the address and no pod claims it, a Service if a stored one lists it among
its cluster IPs, and neither otherwise. -/
structure Answers (r : Holders) (x : Index) (ip : Addr) : Prop where
  node : x.Unclaimed ip → (∃ n, r.NodeAt ip n) →
    ∃ n, r.NodeAt ip n ∧ x.lookup ip = some (Index.nodeWorkload ip.unmap n.name)
  noNode : ∀ w, x.lookup ip = some w → w.kind = .node →
    x.Unclaimed ip ∧ ∃ n, r.NodeAt ip n ∧ w = Index.nodeWorkload ip.unmap n.name
  service : (∃ s, r.ServiceAt ip s) →
    ∃ s, r.ServiceAt ip s
      ∧ x.serviceByClusterIP ip = some { s with clusterIPs := uniqueAddrs s.clusterIPs }
  noService : ∀ t, x.serviceByClusterIP ip = some t →
    ∃ s, r.ServiceAt ip s ∧ t = { s with clusterIPs := uniqueAddrs s.clusterIPs }

end Holders

/-! ## The coupling -/

/-- The index stores the records, and its inverted maps point to them. -/
structure Holds (x : Index) (r : Holders) : Prop where
  nodes : ∀ name, x.nodes.lookup name
    = (r.nodes name).map fun n => { n with ips := uniqueAddrs n.ips }
  names : ∀ name n, r.nodes name = some n → n.name = name
  services : ∀ ref, x.services.lookup ref
    = (r.services ref).map fun s => { s with clusterIPs := uniqueAddrs s.clusterIPs }
  refs : ∀ ref s, r.services ref = some s → s.ref = ref
  nodeIP : Pointers NodeRecord.ips x.nodes x.nodeIP
  byClusterIP : Pointers Service.clusterIPs x.services x.byClusterIP

namespace Holds

variable {x : Index} {r : Holders}

theorem new (trustDomain : String) (labelKeys : List String) :
    Holds (Index.new trustDomain labelKeys) {} where
  nodes _ := rfl
  names _ _ h := absurd h (by simp)
  services _ := rfl
  refs _ _ h := absurd h (by simp)
  nodeIP := Pointers.empty
  byClusterIP := Pointers.empty

theorem lookup_nodes_iff (h : Holds x r) {name : String} {m : NodeRecord} :
    x.nodes.lookup name = some m
      ↔ ∃ n, r.nodes n.name = some n ∧ n.name = name ∧ { n with ips := uniqueAddrs n.ips } = m := by
  rw [h.nodes, Option.map_eq_some_iff]
  constructor
  · rintro ⟨n, hn, rfl⟩
    have hname := h.names name n hn
    exact ⟨n, by rw [hname]; exact hn, hname, rfl⟩
  · rintro ⟨n, hn, rfl, rfl⟩
    exact ⟨n, hn, rfl⟩

theorem lookup_services_iff (h : Holds x r) {ref : ServiceRef} {t : Service} :
    x.services.lookup ref = some t
      ↔ ∃ s, r.services s.ref = some s ∧ s.ref = ref
          ∧ { s with clusterIPs := uniqueAddrs s.clusterIPs } = t := by
  rw [h.services, Option.map_eq_some_iff]
  constructor
  · rintro ⟨s, hs, rfl⟩
    have href := h.refs ref s hs
    exact ⟨s, by rw [href]; exact hs, href, rfl⟩
  · rintro ⟨s, hs, rfl, rfl⟩
    exact ⟨s, hs, rfl⟩

/-- `removeNodeLocked` takes one node out, with the pointers to it. -/
theorem removeNodeLocked_shape (h : Holds x r) (name : String) :
    ∃ nodes nodeIP, x.removeNodeLocked name = { x with nodes, nodeIP }
      ∧ Pointers NodeRecord.ips nodes nodeIP
      ∧ ∀ name', nodes.lookup name' = if name' = name then none else x.nodes.lookup name' := by
  unfold Index.removeNodeLocked
  cases hl : x.nodes.lookup name with
  | none => exact ⟨x.nodes, x.nodeIP, rfl, h.nodeIP, AMap.lookup_ite_of_none hl⟩
  | some old =>
    exact ⟨_, _, rfl, h.nodeIP.remove hl, AMap.lookup_erase_ite x.nodes name⟩

theorem removeServiceLocked_shape (h : Holds x r) (ref : ServiceRef) :
    ∃ services byClusterIP, x.removeServiceLocked ref = { x with services, byClusterIP }
      ∧ Pointers Service.clusterIPs services byClusterIP
      ∧ ∀ ref', services.lookup ref' = if ref' = ref then none else x.services.lookup ref' := by
  unfold Index.removeServiceLocked
  cases hl : x.services.lookup ref with
  | none => exact ⟨x.services, x.byClusterIP, rfl, h.byClusterIP, AMap.lookup_ite_of_none hl⟩
  | some old =>
    exact ⟨_, _, rfl, h.byClusterIP.remove hl, AMap.lookup_erase_ite x.services ref⟩

theorem deleteNode (h : Holds x r) (name : String) :
    Holds (x.deleteNode name) (r.write (.deleteNode name)) := by
  obtain ⟨nodes, nodeIP, hshape, hpointers, hnodes⟩ := h.removeNodeLocked_shape name
  unfold Index.deleteNode
  rw [hshape]
  exact { h with
    nodes := AMap.follows_update (f := Option.map _) h.nodes hnodes
    names := AMap.keyed_update h.names fun n hn => by cases hn
    nodeIP := hpointers }

theorem deleteService (h : Holds x r) (ref : ServiceRef) :
    Holds (x.deleteService ref) (r.write (.deleteService ref)) := by
  obtain ⟨services, byClusterIP, hshape, hpointers, hservices⟩ := h.removeServiceLocked_shape ref
  unfold Index.deleteService
  rw [hshape]
  exact { h with
    services := AMap.follows_update (f := Option.map _) h.services hservices
    refs := AMap.keyed_update h.refs fun s hs => by cases hs
    byClusterIP := hpointers }

/-- A node may be stored if the others list none of its addresses. -/
theorem upsertNode (h : Holds x r) {n : NodeRecord} (hfree : r.Unshared (.upsertNode n)) :
    Holds (x.upsertNode n) (r.write (.upsertNode n)) := by
  obtain ⟨nodes, nodeIP, hshape, hpointers, hnodes⟩ := h.removeNodeLocked_shape n.name
  unfold Index.upsertNode
  rw [hshape]
  refine { h with
    nodes := AMap.follows_update (f := Option.map _) h.nodes (AMap.lookup_insert_removed hnodes _)
    names := AMap.keyed_update h.names fun m hm => by cases hm; rfl
    nodeIP := hpointers.put (c := { n with ips := uniqueAddrs n.ips }) ?_ ?_ }
  · rw [hnodes, if_pos rfl]
  · intro name' m hm a ha ham
    rw [hnodes] at hm
    split at hm
    · cases hm
    · rename_i hne
      obtain ⟨m₀, hm₀, rfl, rfl⟩ := h.lookup_nodes_iff.mp hm
      exact hfree a m₀ ⟨hm₀, lists_of_mem_uniqueAddrs ham⟩ hne (lists_of_mem_uniqueAddrs ha)

/-- A Service may be stored if the others list none of its cluster IPs. -/
theorem upsertService (h : Holds x r) {s : Service} (hfree : r.Unshared (.upsertService s)) :
    Holds (x.upsertService s) (r.write (.upsertService s)) := by
  obtain ⟨services, byClusterIP, hshape, hpointers, hservices⟩ := h.removeServiceLocked_shape s.ref
  unfold Index.upsertService
  rw [hshape]
  refine { h with
    services := AMap.follows_update (f := Option.map _) h.services
      (AMap.lookup_insert_removed hservices _)
    refs := AMap.keyed_update h.refs fun t ht => by cases ht; rfl
    byClusterIP := hpointers.put (c := { s with clusterIPs := uniqueAddrs s.clusterIPs }) ?_ ?_ }
  · rw [hservices, if_pos rfl]
  · intro ref' t ht a ha hat
    rw [hservices] at ht
    split at ht
    · cases ht
    · rename_i hne
      obtain ⟨t₀, ht₀, rfl, rfl⟩ := h.lookup_services_iff.mp ht
      exact hfree a t₀ ⟨ht₀, lists_of_mem_uniqueAddrs hat⟩ hne (lists_of_mem_uniqueAddrs ha)

/-- Calls about pods, slices and Cilium endpoints touch neither nodes nor
Services. -/
theorem write_of_aboutPods (h : Holds x r) {op : IndexOp} (hop : op.aboutPods = true) :
    Holds (x.write op) r := by
  obtain ⟨_, _, _, _, _, _, _, _, hwrite⟩ := Operator.write_of_aboutPods x hop
  rw [hwrite]
  exact { h with }

theorem write (h : Holds x r) {op : IndexOp} (hfree : r.Unshared op) :
    Holds (x.write op) (r.write op) := by
  cases op with
  | upsertPod p => exact h.write_of_aboutPods rfl
  | deletePod uid => exact h.write_of_aboutPods rfl
  | upsertSlice s => exact h.write_of_aboutPods rfl
  | deleteSlice key => exact h.write_of_aboutPods rfl
  | upsertCiliumEndpoint c => exact h.write_of_aboutPods rfl
  | deleteCiliumEndpoint key => exact h.write_of_aboutPods rfl
  | upsertService s => exact h.upsertService hfree
  | deleteService ref => exact h.deleteService ref
  | upsertNode n => exact h.upsertNode hfree
  | deleteNode name => exact h.deleteNode name

theorem writes (h : Holds x r) {ops : List IndexOp} (hfree : r.UnsharedRun ops) :
    Holds (ops.foldl Index.write x) (ops.foldl Holders.write r) := by
  induction ops generalizing x r with
  | nil => exact h
  | cons op ops ih => exact ih (h.write hfree.1) hfree.2

/-! ### Reading -/

theorem lookup_nodeIP_iff (h : Holds x r) {ip : Addr} {name : String} :
    x.nodeIP.lookup ip.unmap = some name ↔ ∃ n, r.NodeAt ip n ∧ n.name = name := by
  rw [h.nodeIP ip.unmap name]
  constructor
  · rintro ⟨m, hm, hmem⟩
    obtain ⟨n, hn, hname, rfl⟩ := h.lookup_nodes_iff.mp hm
    exact ⟨n, ⟨hn, unmap_mem_uniqueAddrs_iff.mp hmem⟩, hname⟩
  · rintro ⟨n, ⟨hn, hlists⟩, hname⟩
    exact ⟨_, h.lookup_nodes_iff.mpr ⟨n, hn, hname, rfl⟩, unmap_mem_uniqueAddrs_iff.mpr hlists⟩

theorem unclaimed_iff (hinv : IndexInv x) {ip : Addr} :
    x.Unclaimed ip ↔ x.owner ip.unmap = none := by
  rw [← Option.not_isSome_iff_eq_none, Index.owner, IndexInv.foldl_betterOwner_isSome]
  constructor
  · rintro hfree (hnone | ⟨uid, huid, -⟩)
    · cases hnone
    · obtain ⟨p, hp, hmem⟩ := (hinv.claims_iff ip.unmap uid).mp huid
      exact hfree uid p hp hmem
  · intro hnone uid p hp hmem
    refine hnone (.inr ⟨uid, (hinv.claims_iff ip.unmap uid).mpr ⟨p, hp, hmem⟩, ?_⟩)
    rw [hp]
    rfl

theorem lookup_node_iff (h : Holds x r) (hinv : IndexInv x) (ip : Addr) (w : Workload) :
    (x.lookup ip = some w ∧ w.kind = .node)
      ↔ x.Unclaimed ip ∧ ∃ n, r.NodeAt ip n ∧ w = Index.nodeWorkload ip.unmap n.name := by
  rw [unclaimed_iff hinv]
  unfold Index.lookup
  cases ho : x.owner ip.unmap with
  | some p =>
    rw [Index.lookupUnmapped_of_owner ho]
    constructor
    · rintro ⟨hw, hkind⟩
      cases hw
      cases hkind
    · rintro ⟨hnone, -⟩
      cases hnone
  | none =>
    rw [Index.lookupUnmapped_of_unowned ho, Option.map_eq_some_iff]
    constructor
    · rintro ⟨⟨name, hname, rfl⟩, -⟩
      obtain ⟨n, hn, rfl⟩ := h.lookup_nodeIP_iff.mp hname
      exact ⟨rfl, n, hn, rfl⟩
    · rintro ⟨-, n, hn, rfl⟩
      exact ⟨⟨n.name, h.lookup_nodeIP_iff.mpr ⟨n, hn, rfl⟩, rfl⟩, rfl⟩

theorem serviceByClusterIP_iff (h : Holds x r) {ip : Addr} {t : Service} :
    x.serviceByClusterIP ip = some t
      ↔ ∃ s, r.ServiceAt ip s ∧ t = { s with clusterIPs := uniqueAddrs s.clusterIPs } := by
  unfold Index.serviceByClusterIP
  rw [Option.bind_eq_some_iff]
  constructor
  · rintro ⟨ref, href, ht⟩
    obtain ⟨t', ht', hmem⟩ := (h.byClusterIP ip.unmap ref).mp href
    rw [ht] at ht'
    cases ht'
    obtain ⟨s, hs, -, rfl⟩ := h.lookup_services_iff.mp ht
    exact ⟨s, ⟨hs, unmap_mem_uniqueAddrs_iff.mp hmem⟩, rfl⟩
  · rintro ⟨s, ⟨hs, hlists⟩, rfl⟩
    have hstored := h.lookup_services_iff.mpr ⟨s, hs, rfl, rfl⟩
    exact ⟨s.ref, (h.byClusterIP ip.unmap s.ref).mpr ⟨_, hstored,
      unmap_mem_uniqueAddrs_iff.mpr hlists⟩, hstored⟩

theorem answers (h : Holds x r) (hinv : IndexInv x) (ip : Addr) : r.Answers x ip where
  node hclaims hnode := by
    obtain ⟨n, hn⟩ := hnode
    exact ⟨n, hn, ((h.lookup_node_iff hinv ip _).mpr ⟨hclaims, n, hn, rfl⟩).1⟩
  noNode w hw hkind := (h.lookup_node_iff hinv ip w).mp ⟨hw, hkind⟩
  service hservice := by
    obtain ⟨s, hs⟩ := hservice
    exact ⟨s, hs, h.serviceByClusterIP_iff.mpr ⟨s, hs, rfl⟩⟩
  noService t ht := h.serviceByClusterIP_iff.mp ht

end Holds

/-! ## Every unshared run answers -/

/-- If no call stores a node or a Service with an address of another one, the
index answers with a stored node or Service exactly when there is one, and two
such sequences that leave the same records answer alike. -/
theorem holders_answered (trustDomain : String) (labelKeys : List String) (ops : List IndexOp)
    (hfree : Holders.UnsharedRun {} ops) (ip : Addr) :
    (Holders.latest ops).Answers (Index.after trustDomain labelKeys ops) ip
      ∧ ∀ ops', Holders.UnsharedRun {} ops' → Holders.latest ops' = Holders.latest ops →
          (Index.after trustDomain labelKeys ops').serviceByClusterIP ip
              = (Index.after trustDomain labelKeys ops).serviceByClusterIP ip
            ∧ (((Index.after trustDomain labelKeys ops').Unclaimed ip
                  ↔ (Index.after trustDomain labelKeys ops).Unclaimed ip) →
                ∀ w : Workload, w.kind = .node →
                  ((Index.after trustDomain labelKeys ops').lookup ip = some w
                    ↔ (Index.after trustDomain labelKeys ops).lookup ip = some w)) := by
  have hrun : ∀ ops, Holders.UnsharedRun {} ops →
      Holds (Index.after trustDomain labelKeys ops) (Holders.latest ops)
        ∧ IndexInv (Index.after trustDomain labelKeys ops) :=
    fun ops hfree => ⟨(Holds.new trustDomain labelKeys).writes hfree,
      (IndexInv.new trustDomain labelKeys).writes ops⟩
  obtain ⟨hholds, hinv⟩ := hrun ops hfree
  refine ⟨hholds.answers hinv ip, fun ops' hfree' hlatest => ?_⟩
  obtain ⟨hholds', hinv'⟩ := hrun ops' hfree'
  constructor
  · apply Option.ext
    intro t
    show _ = some t ↔ _ = some t
    rw [hholds'.serviceByClusterIP_iff, hholds.serviceByClusterIP_iff, hlatest]
  · intro hclaims w hkind
    have hnode := hholds.lookup_node_iff hinv ip w
    have hnode' := hholds'.lookup_node_iff hinv' ip w
    rw [hlatest, hclaims, ← hnode] at hnode'
    simpa [hkind] using hnode'

/-- A node gets another address, and its old one goes to a new node. -/
def addressMoved : List IndexOp :=
  [.upsertNode ⟨"a", [.v4 0x0a000001]⟩, .upsertNode ⟨"a", [.v4 0x0a000002]⟩,
    .upsertNode ⟨"b", [.v4 0x0a000001]⟩]

theorem holders_answered_addressMoved :
    Holders.UnsharedRun {} addressMoved
      ∧ (Holders.latest addressMoved).Answers (Index.after "" [] addressMoved)
          (.v4 0x0a000001) := by
  have hfree : Holders.UnsharedRun {} addressMoved := by
    refine ⟨?_, ?_, ?_, trivial⟩
    · rintro ip m ⟨hm, -⟩
      cases hm
    · rintro ip m ⟨hm, -⟩ hne
      have hm : (if m.name = "a" then some _ else none) = some m := hm
      rw [if_neg hne] at hm
      cases hm
    · rintro ip m ⟨hm, hlists⟩ hne
      have hm : (if m.name = "a" then some ⟨"a", [.v4 0x0a000002]⟩
        else if m.name = "a" then some _ else none) = some m := hm
      split at hm
      · cases hm
        obtain ⟨b, hb, -, heq⟩ := hlists
        rintro ⟨c, hc, -, heq'⟩
        rw [List.mem_singleton.mp hb] at heq
        rw [List.mem_singleton.mp hc, ← heq] at heq'
        exact absurd heq' (by decide)
      · cases hm
  exact ⟨hfree, (holders_answered "" [] addressMoved hfree (.v4 0x0a000001)).1⟩

/-- Two nodes hold 10.0.0.1 for a while. -/
def nodeReplaced : List IndexOp :=
  [.upsertNode ⟨"a", [.v4 0x0a000001]⟩, .upsertNode ⟨"b", [.v4 0x0a000001]⟩, .deleteNode "b"]

/-- Node `a` is stored and lists 10.0.0.1, but its pointer went with node `b`. -/
theorem shared_node_lost :
    ¬ ∀ ops : List IndexOp, (∀ op ∈ ops, op.aboutPods = false) →
        ∀ ip, (Holders.latest ops).Answers (Index.after "" [] ops) ip := by
  intro h
  have hstored : (Holders.latest nodeReplaced).NodeAt (.v4 0x0a000001) ⟨"a", [.v4 0x0a000001]⟩ :=
    ⟨rfl, .v4 0x0a000001, List.mem_singleton.mpr rfl, rfl, rfl⟩
  have hlost : (Index.after "" [] nodeReplaced).lookup (.v4 0x0a000001) = none := by decide
  have hpods : (Index.after "" [] nodeReplaced).pods = ∅ := rfl
  have hfree : (Index.after "" [] nodeReplaced).Unclaimed (.v4 0x0a000001) := by
    intro uid p hp
    rw [hpods] at hp
    cases hp
  obtain ⟨n, -, hfound⟩ :=
    (h nodeReplaced (by decide) (.v4 0x0a000001)).node hfree ⟨_, hstored⟩
  rw [hlost] at hfound
  cases hfound

end Hypergate.Operator
