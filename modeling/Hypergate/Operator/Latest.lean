import Hypergate.Lib.RefCount
import Hypergate.Lib.Sorting
import Hypergate.Operator.IndexInv
import Mathlib.Data.Prod.Lex
import Mathlib.Data.String.Basic

/-!
# The index answers from the latest records

The index maintains its answers step by step: claim lists per address, and
reference-counted Service membership per pod UID and per address. `Records` is
what the answers are about: the latest record of every pod, slice and Cilium
endpoint.

* `Records.Owner`, `Records.Serves`, `Records.Describes` — the pod behind an
  address, its Services, and the workload, said of the records alone;
* `Mirrors` — the coupling between an index and the records, kept by every write
  (`Mirrors.write`).
-/

namespace Hypergate.Operator

open Hypergate.Lib Hypergate.Identity

/-! ## Addresses and UIDs as they are stored -/

theorem uniqueStrings_eq (strs : List String) :
    uniqueStrings strs = (strs.filter (· ≠ "")).foldl pushNew [] := by
  have hstep : (fun (out : List String) s => if s ≠ "" ∧ s ∉ out then out ++ [s] else out)
      = fun out s => if decide (s ≠ "") = true then pushNew out s else out := by
    funext out s
    unfold pushNew
    by_cases hs : s = ""
    · simp [hs]
    · by_cases hmem : s ∈ out <;> simp [hs, hmem]
  rw [List.foldl_filter, ← hstep]
  rfl

/-- An address list names `ip`, up to the mapped form. -/
def Lists (ips : List Addr) (ip : Addr) : Prop := ∃ a ∈ ips, a.isValid = true ∧ a.unmap = ip.unmap

theorem unmap_mem_uniqueAddrs_iff {ips : List Addr} {ip : Addr} :
    ip.unmap ∈ uniqueAddrs ips ↔ Lists ips ip := by
  rw [uniqueAddrs_eq, mem_foldl_pushNew]
  simp [Lists, and_assoc]

theorem lists_of_mem_uniqueAddrs {ips : List Addr} {ip : Addr} (h : ip ∈ uniqueAddrs ips) :
    Lists ips ip := by
  rw [← unmap_mem_uniqueAddrs_iff, (canonical_of_mem_uniqueAddrs h).2]
  exact h

theorem mem_uniqueStrings_iff {strs : List String} {s : String} (hs : s ≠ "") :
    s ∈ uniqueStrings strs ↔ s ∈ strs := by
  rw [uniqueStrings_eq, mem_foldl_pushNew]
  simp [hs]

theorem nodup_uniqueAddrs (ips : List Addr) : (uniqueAddrs ips).Nodup := by
  rw [uniqueAddrs_eq]
  exact nodup_foldl_pushNew List.nodup_nil

theorem nodup_uniqueStrings (strs : List String) : (uniqueStrings strs).Nodup := by
  rw [uniqueStrings_eq]
  exact nodup_foldl_pushNew List.nodup_nil

/-! ## What the records say -/

/-- The latest record of every pod UID, slice and Cilium endpoint. -/
structure Records where
  pods : String → Option PodRecord := fun _ => none
  slices : NsName → Option SliceRecord := fun _ => none
  cilium : NsName → Option CiliumEndpointRecord := fun _ => none

/-- A pod that is indexed: hostNetwork pods share the node's address, and a
finished one has released its own. -/
def PodRecord.storable (p : PodRecord) : Bool := !(p.hostNetwork || p.finished || p.uid == "")

def SliceRecord.ref (s : SliceRecord) : ServiceRef :=
  { «namespace» := s.namespace, name := s.service }

namespace Records

/-- The records after one more call. -/
def write (r : Records) : IndexOp → Records
  | .upsertPod p => { r with pods := fun uid => if uid = p.uid then some p else r.pods uid }
  | .deletePod uid => { r with pods := fun uid' => if uid' = uid then none else r.pods uid' }
  | .upsertSlice s =>
    { r with slices := fun key =>
        if key = { «namespace» := s.namespace, name := s.name } then some s else r.slices key }
  | .deleteSlice key => { r with slices := fun key' => if key' = key then none else r.slices key' }
  | .upsertCiliumEndpoint c =>
    { r with cilium := fun key =>
        if key = { «namespace» := c.namespace, name := c.name } then some c else r.cilium key }
  | .deleteCiliumEndpoint key =>
    { r with cilium := fun key' => if key' = key then none else r.cilium key' }
  | _ => r

/-- The pod's latest record is one that is indexed. -/
def Stored (r : Records) (p : PodRecord) : Prop := r.pods p.uid = some p ∧ p.storable = true

/-- The pod an address belongs to: among the stored pods that list it, the one
created last, with the greatest UID among these. -/
structure Owner (r : Records) (ip : Addr) (p : PodRecord) : Prop where
  stored : r.Stored p
  lists : Lists p.ips ip
  newest : ∀ q, r.Stored q → Lists q.ips ip →
    q.created < p.created ∨ q.created = p.created ∧ q.uid ≤ p.uid

/-- A slice of the Service lists the pod or the address. -/
def Serves (r : Records) (uid : String) (ip : Addr) (ref : ServiceRef) : Prop :=
  ∃ key s, r.slices key = some s ∧ s.service ≠ "" ∧ s.ref = ref
    ∧ (uid ∈ s.podUIDs ∨ Lists s.ips ip)

/-- `w` is the workload of pod `p` at an address. -/
structure Describes (r : Records) (trustDomain : String) (labelKeys : List String) (ip : Addr)
    (p : PodRecord) (w : Workload) : Prop where
  pod : w = { w with
    kind := .pod
    ip := ip.unmap
    node := p.node
    podUID := p.uid
    «namespace» := p.namespace
    pod := p.name
    serviceAccount := if p.serviceAccount = "" then "default" else p.serviceAccount
    spiffeID := "spiffe://" ++ trustDomain ++ "/ns/" ++ p.namespace ++ "/sa/"
      ++ if p.serviceAccount = "" then "default" else p.serviceAccount
    labels := (p.labels.filter fun k _ => k ∈ labelKeys).toFinmap }
  sorted : w.services.Pairwise fun a b => a.le b = true
  nodup : w.services.Nodup
  services : ∀ ref, ref ∈ w.services ↔ r.Serves p.uid ip ref
  cilium : (w.securityIdentity, w.ciliumLabels)
    = ((r.cilium { «namespace» := p.namespace, name := p.name }).map fun c =>
        (c.identity, c.labels.insertionSort (· ≤ ·))).getD (0, [])

end Records

/-! ## The winner of an address -/

theorem newer_iff {p q : PodRecord} :
    Index.newer p q = true ↔ q.created < p.created ∨ p.created = q.created ∧ q.uid < p.uid := by
  simp [Index.newer]

/-- What `newer` compares. -/
def recencyKey (p : PodRecord) : ℕ ×ₗ String := toLex (p.created, p.uid)

theorem newer_iff_recencyKey {p q : PodRecord} :
    Index.newer p q = true ↔ recencyKey q < recencyKey p := by
  rw [newer_iff, recencyKey, recencyKey, Prod.Lex.toLex_lt_toLex, eq_comm (a := p.created)]

theorem newer_asymm {p q : PodRecord} (h : Index.newer p q = true) :
    ¬ Index.newer q p = true := by
  rw [newer_iff_recencyKey] at *
  exact lt_asymm h

theorem newer_irrefl (p : PodRecord) : ¬ Index.newer p p = true :=
  fun h => newer_asymm h h

theorem newer_of_not_newer {a b c : PodRecord} (hab : Index.newer a b = true)
    (hcb : ¬ Index.newer c b = true) : Index.newer a c = true := by
  rw [newer_iff_recencyKey] at *
  exact lt_of_le_of_lt (not_lt.mp hcb) hab

/-- One round of `owner`: the result is a candidate, and no candidate beats it. -/
theorem betterOwner_spec (x : Index) (best : Option PodRecord) (uid : String) :
    (∀ b, x.betterOwner best uid = some b → x.pods.lookup uid = some b ∨ best = some b)
      ∧ ∀ q, x.pods.lookup uid = some q ∨ best = some q →
          ∃ b, x.betterOwner best uid = some b ∧ ¬ Index.newer q b = true := by
  unfold Index.betterOwner
  cases hl : x.pods.lookup uid with
  | none =>
    refine ⟨fun b hb => .inr hb, fun q hq => ?_⟩
    rcases hq with hq | hq
    · cases hq
    · exact ⟨q, hq, newer_irrefl q⟩
  | some p =>
    cases best with
    | none =>
      refine ⟨fun b hb => .inl hb, fun q hq => ?_⟩
      rcases hq with hq | hq
      · exact ⟨q, hq, newer_irrefl q⟩
      · cases hq
    | some b =>
      dsimp only
      by_cases hwin : Index.newer p b = true
      · rw [if_pos hwin]
        refine ⟨fun c hc => .inl hc, fun q hq => ⟨p, rfl, ?_⟩⟩
        rcases hq with hq | hq
        · cases hq
          exact newer_irrefl p
        · cases hq
          exact newer_asymm hwin
      · rw [if_neg hwin]
        refine ⟨fun c hc => .inr hc, fun q hq => ⟨b, rfl, ?_⟩⟩
        rcases hq with hq | hq
        · cases hq
          exact hwin
        · cases hq
          exact newer_irrefl b

/-- The loop of `owner` ends with a candidate that no other one beats. -/
theorem foldl_betterOwner_spec (x : Index) (uids : List String) (best : Option PodRecord)
    {p : PodRecord} (h : uids.foldl x.betterOwner best = some p) :
    (best = some p ∨ ∃ uid ∈ uids, x.pods.lookup uid = some p)
      ∧ (∀ b, best = some b → ¬ Index.newer b p = true)
      ∧ ∀ uid ∈ uids, ∀ q, x.pods.lookup uid = some q → ¬ Index.newer q p = true := by
  induction uids generalizing best with
  | nil =>
    have hbest : best = some p := h
    refine ⟨.inl hbest, ?_, fun _ hu => absurd hu (by simp)⟩
    intro b hb
    rw [hbest] at hb
    cases hb
    exact newer_irrefl p
  | cons uid uids ih =>
    obtain ⟨hsource, hbest, hrest⟩ := ih _ h
    obtain ⟨hcandidate, hkept⟩ := betterOwner_spec x best uid
    have hround : ∀ q, x.pods.lookup uid = some q ∨ best = some q →
        ¬ Index.newer q p = true := by
      intro q hq hnew
      obtain ⟨b, hb, hnot⟩ := hkept q hq
      exact hnot (newer_of_not_newer hnew (hbest b hb))
    refine ⟨?_, fun b hb => hround b (.inr hb), ?_⟩
    · rcases hsource with hsource | ⟨uid', hu, hp⟩
      · rcases hcandidate p hsource with hp | hp
        · exact .inr ⟨uid, List.mem_cons_self, hp⟩
        · exact .inl hp
      · exact .inr ⟨uid', List.mem_cons_of_mem _ hu, hp⟩
    · intro uid' hu q hq
      rcases List.mem_cons.mp hu with rfl | hu
      · exact hround q (.inl hq)
      · exact hrest uid' hu q hq

/-! ## What a write changes -/

section Shapes

variable (x : Index)

theorem removePodLocked_shape (uid : String) :
    ∃ claims pods, x.removePodLocked uid = { x with claims, pods }
      ∧ ∀ uid', pods.lookup uid' = if uid' = uid then none else x.pods.lookup uid' := by
  unfold Index.removePodLocked
  cases hl : x.pods.lookup uid with
  | none => exact ⟨x.claims, x.pods, rfl, AMap.lookup_ite_of_none hl⟩
  | some old => exact ⟨_, x.pods.erase uid, rfl, AMap.lookup_erase_ite x.pods uid⟩

/-- `UpsertPod` writes pods and claims; the pod's record is the new one if it is
indexed at all. -/
theorem upsertPod_shape (p : PodRecord) :
    ∃ claims pods generation changed,
      x.upsertPod p = { x with claims, pods, generation, changed }
        ∧ ∀ uid, pods.lookup uid
          = if uid = p.uid then ((some p).filter PodRecord.storable).map x.podRecord
            else x.pods.lookup uid := by
  obtain ⟨claims, pods, hshape, hpods⟩ := removePodLocked_shape x p.uid
  unfold Index.upsertPod
  rw [hshape]
  by_cases hskip : (p.hostNetwork || p.finished || p.uid == "") = true
  · have hnot : (some p).filter PodRecord.storable = none := by
      simp [Option.filter, PodRecord.storable, hskip]
    rw [if_pos hskip, hnot]
    exact ⟨claims, pods, _, _, rfl, hpods⟩
  · have hyes : (some p).filter PodRecord.storable = some p := by
      simp [Option.filter, PodRecord.storable, hskip]
    rw [if_neg hskip, hyes]
    exact ⟨_, pods.insert p.uid (x.podRecord p), _, _, rfl, AMap.lookup_insert_removed hpods _⟩

theorem deletePod_shape (uid : String) :
    ∃ claims pods generation changed,
      x.deletePod uid = { x with claims, pods, generation, changed }
        ∧ ∀ uid', pods.lookup uid' = if uid' = uid then none else x.pods.lookup uid' := by
  obtain ⟨claims, pods, hshape, hpods⟩ := removePodLocked_shape x uid
  refine ⟨claims, pods, x.generation + 1, true, ?_, hpods⟩
  unfold Index.deletePod
  rw [hshape]
  rfl

end Shapes

/-- A slice as the index stores it. -/
def SliceRecord.stored (s : SliceRecord) : SliceRecord :=
  { s with podUIDs := uniqueStrings s.podUIDs, ips := uniqueAddrs s.ips }

/-- The Service counters of an index are those of its slices. -/
structure ServicesCoupled (podServices : AMap String (AMap ServiceRef Int))
    (ipServices : AMap Addr (AMap ServiceRef Int)) (slices : AMap NsName SliceRecord) : Prop where
  pods : RefMap.Coupled SliceRecord.ref SliceRecord.podUIDs podServices slices
  ips : RefMap.Coupled SliceRecord.ref SliceRecord.ips ipServices slices
  stored : ∀ key s, slices.lookup key = some s → ∃ s₀ : SliceRecord, s = s₀.stored

section SliceShapes

variable {x : Index}

theorem removeSliceLocked_shape (key : NsName)
    (h : ServicesCoupled x.podServices x.ipServices x.slices) :
    ∃ podServices ipServices slices,
      x.removeSliceLocked key = { x with podServices, ipServices, slices }
        ∧ ServicesCoupled podServices ipServices slices
        ∧ ∀ key', slices.lookup key' = if key' = key then none else x.slices.lookup key' := by
  unfold Index.removeSliceLocked
  cases hl : x.slices.lookup key with
  | none =>
    exact ⟨x.podServices, x.ipServices, x.slices, rfl, h, AMap.lookup_ite_of_none hl⟩
  | some old =>
    obtain ⟨s₀, hs₀⟩ := h.stored key old hl
    have huids : old.podUIDs.Nodup := by
      rw [hs₀]
      exact nodup_uniqueStrings _
    have hips : old.ips.Nodup := by
      rw [hs₀]
      exact nodup_uniqueAddrs _
    refine ⟨_, _, x.slices.erase key, rfl, ⟨h.pods.drop hl huids, h.ips.drop hl hips, ?_⟩,
      AMap.lookup_erase_ite x.slices key⟩
    exact fun key' s hs => h.stored key' s (AMap.lookup_of_erase hs)

/-- `UpsertSlice` writes the slices and the counters; a slice without a Service
contributes nothing and is not kept. -/
theorem upsertSlice_shape (s : SliceRecord)
    (h : ServicesCoupled x.podServices x.ipServices x.slices) :
    ∃ podServices ipServices slices generation changed,
      x.upsertSlice s = { x with podServices, ipServices, slices, generation, changed }
        ∧ ServicesCoupled podServices ipServices slices
        ∧ ∀ key, slices.lookup key
          = if key = { «namespace» := s.namespace, name := s.name } then
              ((some s).filter fun s => decide (s.service ≠ "")).map SliceRecord.stored
            else x.slices.lookup key := by
  obtain ⟨podServices, ipServices, slices, hshape, hcoupled, hslices⟩ :=
    removeSliceLocked_shape { «namespace» := s.namespace, name := s.name } h
  unfold Index.upsertSlice
  dsimp only
  rw [hshape]
  by_cases hs : s.service = ""
  · have hnot : (some s).filter (fun s => decide (s.service ≠ "")) = none := by
      simp [Option.filter, hs]
    rw [if_pos hs, hnot]
    exact ⟨podServices, ipServices, slices, _, _, rfl, hcoupled, hslices⟩
  · have hyes : (some s).filter (fun s => decide (s.service ≠ "")) = some s := by
      simp [Option.filter, hs]
    rw [if_neg hs, hyes]
    have hnew : slices.lookup { «namespace» := s.namespace, name := s.name } = none := by
      rw [hslices, if_pos rfl]
    refine ⟨_, _, slices.insert { «namespace» := s.namespace, name := s.name } s.stored, _, _, rfl,
      ⟨hcoupled.pods.add (c := s.stored) hnew (nodup_uniqueStrings _),
        hcoupled.ips.add (c := s.stored) hnew (nodup_uniqueAddrs _), ?_⟩,
      AMap.lookup_insert_removed hslices _⟩
    intro key s' hs'
    rcases AMap.lookup_insert_cases hs' with ⟨-, rfl⟩ | hs'
    · exact ⟨s, rfl⟩
    · exact hcoupled.stored key s' hs'

theorem deleteSlice_shape (key : NsName)
    (h : ServicesCoupled x.podServices x.ipServices x.slices) :
    ∃ podServices ipServices slices generation changed,
      x.deleteSlice key = { x with podServices, ipServices, slices, generation, changed }
        ∧ ServicesCoupled podServices ipServices slices
        ∧ ∀ key', slices.lookup key' = if key' = key then none else x.slices.lookup key' := by
  obtain ⟨podServices, ipServices, slices, hshape, hcoupled, hslices⟩ :=
    removeSliceLocked_shape key h
  refine ⟨podServices, ipServices, slices, x.generation + 1, true, ?_, hcoupled, hslices⟩
  unfold Index.deleteSlice
  rw [hshape]
  rfl

end SliceShapes

/-! ## The coupling -/

/-- The calls that concern pods, slices and Cilium endpoints. -/
def IndexOp.aboutPods : IndexOp → Bool
  | .upsertPod _ | .deletePod _ | .upsertSlice _ | .deleteSlice _
  | .upsertCiliumEndpoint _ | .deleteCiliumEndpoint _ => true
  | _ => false

/-- Such a call leaves the options, the nodes and the Services as they are. -/
theorem write_of_aboutPods (x : Index) {op : IndexOp} (hop : op.aboutPods = true) :
    ∃ pods claims slices podServices ipServices cilium generation changed,
      x.write op = { x with
        pods, claims, slices, podServices, ipServices, cilium, generation, changed } := by
  have hslice : ∀ key, ∃ podServices ipServices slices,
      x.removeSliceLocked key = { x with podServices, ipServices, slices } := by
    intro key
    unfold Index.removeSliceLocked
    cases x.slices.lookup key with
    | none => exact ⟨_, _, _, rfl⟩
    | some old => exact ⟨_, _, _, rfl⟩
  cases op with
  | upsertPod p =>
    obtain ⟨claims, pods, _, _, hshape, -⟩ := upsertPod_shape x p
    exact ⟨pods, claims, _, _, _, _, _, _, hshape⟩
  | deletePod uid =>
    obtain ⟨claims, pods, _, _, hshape, -⟩ := deletePod_shape x uid
    exact ⟨pods, claims, _, _, _, _, _, _, hshape⟩
  | upsertSlice s =>
    obtain ⟨_, _, _, hshape⟩ := hslice { «namespace» := s.namespace, name := s.name }
    unfold Index.write Index.upsertSlice
    dsimp only
    rw [hshape]
    split
    · exact ⟨_, _, _, _, _, _, _, _, rfl⟩
    · exact ⟨_, _, _, _, _, _, _, _, rfl⟩
  | deleteSlice key =>
    obtain ⟨_, _, _, hshape⟩ := hslice key
    unfold Index.write Index.deleteSlice
    dsimp only
    rw [hshape]
    exact ⟨_, _, _, _, _, _, _, _, rfl⟩
  | upsertCiliumEndpoint c => exact ⟨_, _, _, _, _, _, _, _, rfl⟩
  | deleteCiliumEndpoint key => exact ⟨_, _, _, _, _, _, _, _, rfl⟩
  | upsertService s => cases hop
  | deleteService ref => cases hop
  | upsertNode n => cases hop
  | deleteNode name => cases hop

/-- The index holds what the records say, and no nodes. -/
structure Mirrors (x : Index) (r : Records) : Prop where
  inv : IndexInv x
  pods : ∀ uid, x.pods.lookup uid = ((r.pods uid).filter PodRecord.storable).map x.podRecord
  uid : ∀ uid p, r.pods uid = some p → p.uid = uid
  slices : ∀ key, x.slices.lookup key
    = ((r.slices key).filter fun s => decide (s.service ≠ "")).map SliceRecord.stored
  services : ServicesCoupled x.podServices x.ipServices x.slices
  cilium : ∀ key, x.cilium.lookup key
    = (r.cilium key).map fun c => { c with labels := c.labels.insertionSort (· ≤ ·) }
  noNodes : x.nodeIP = ∅

namespace Mirrors

variable {x : Index} {r : Records}

theorem new (trustDomain : String) (labelKeys : List String) :
    Mirrors (Index.new trustDomain labelKeys) {} where
  inv := IndexInv.new trustDomain labelKeys
  pods _ := rfl
  uid _ _ h := absurd h (by simp)
  slices _ := rfl
  services := ⟨RefMap.Coupled.empty, RefMap.Coupled.empty,
    fun _ _ h => absurd h (by simp [Index.new])⟩
  cilium _ := rfl
  noNodes := rfl

theorem upsertPod (h : Mirrors x r) (p : PodRecord) :
    Mirrors (x.write (.upsertPod p)) (r.write (.upsertPod p)) := by
  have hinv := h.inv.write (.upsertPod p)
  obtain ⟨claims, pods, generation, changed, hshape, hpods⟩ := upsertPod_shape x p
  rw [show x.write (.upsertPod p) = _ from hshape] at hinv ⊢
  exact { h with
    inv := hinv
    pods := AMap.follows_update (f := fun o => (o.filter PodRecord.storable).map x.podRecord)
      h.pods hpods
    uid := AMap.keyed_update h.uid fun q hq => by cases hq; rfl }

theorem deletePod (h : Mirrors x r) (uid : String) :
    Mirrors (x.write (.deletePod uid)) (r.write (.deletePod uid)) := by
  have hinv := h.inv.write (.deletePod uid)
  obtain ⟨claims, pods, generation, changed, hshape, hpods⟩ := deletePod_shape x uid
  rw [show x.write (.deletePod uid) = _ from hshape] at hinv ⊢
  exact { h with
    inv := hinv
    pods := AMap.follows_update (f := fun o => (o.filter PodRecord.storable).map x.podRecord)
      h.pods hpods
    uid := AMap.keyed_update h.uid fun q hq => by cases hq }

theorem upsertSlice (h : Mirrors x r) (s : SliceRecord) :
    Mirrors (x.write (.upsertSlice s)) (r.write (.upsertSlice s)) := by
  have hinv := h.inv.write (.upsertSlice s)
  obtain ⟨podServices, ipServices, slices, generation, changed, hshape, hcoupled, hslices⟩ :=
    upsertSlice_shape s h.services
  rw [show x.write (.upsertSlice s) = _ from hshape] at hinv ⊢
  exact { h with
    inv := hinv
    services := hcoupled
    slices := AMap.follows_update (f := fun o =>
      (o.filter fun s => decide (s.service ≠ "")).map SliceRecord.stored) h.slices hslices }

theorem deleteSlice (h : Mirrors x r) (key : NsName) :
    Mirrors (x.write (.deleteSlice key)) (r.write (.deleteSlice key)) := by
  have hinv := h.inv.write (.deleteSlice key)
  obtain ⟨podServices, ipServices, slices, generation, changed, hshape, hcoupled, hslices⟩ :=
    deleteSlice_shape key h.services
  rw [show x.write (.deleteSlice key) = _ from hshape] at hinv ⊢
  exact { h with
    inv := hinv
    services := hcoupled
    slices := AMap.follows_update (f := fun o =>
      (o.filter fun s => decide (s.service ≠ "")).map SliceRecord.stored) h.slices hslices }

theorem write (h : Mirrors x r) {op : IndexOp} (hop : op.aboutPods = true) :
    Mirrors (x.write op) (r.write op) := by
  cases op with
  | upsertPod p => exact h.upsertPod p
  | deletePod uid => exact h.deletePod uid
  | upsertSlice s => exact h.upsertSlice s
  | deleteSlice key => exact h.deleteSlice key
  | upsertCiliumEndpoint c =>
    exact { h with
      inv := h.inv.write (.upsertCiliumEndpoint c)
      cilium := AMap.follows_update (f := Option.map _) h.cilium (AMap.lookup_insert_ite _ _ · _) }
  | deleteCiliumEndpoint key =>
    exact { h with
      inv := h.inv.write (.deleteCiliumEndpoint key)
      cilium := AMap.follows_update (f := Option.map _) h.cilium (AMap.lookup_erase_ite _ _) }
  | upsertService s => cases hop
  | deleteService ref => cases hop
  | upsertNode n => cases hop
  | deleteNode name => cases hop

theorem writes (h : Mirrors x r) {ops : List IndexOp} (hops : ∀ op ∈ ops, op.aboutPods = true) :
    Mirrors (ops.foldl Index.write x) (ops.foldl Records.write r) := by
  induction ops generalizing x r with
  | nil => exact h
  | cons op ops ih =>
    exact ih (h.write (hops op List.mem_cons_self))
      (fun op' hop' => hops op' (List.mem_cons_of_mem _ hop'))

end Mirrors

/-! ## The order of Services -/

namespace ServiceRef

theorem le_iff {a b : ServiceRef} :
    a.le b = true ↔ a.namespace < b.namespace ∨ a.namespace = b.namespace ∧ a.name ≤ b.name := by
  simp [ServiceRef.le]

end ServiceRef

/-- What `compareServiceRef` compares. -/
def refKey (ref : ServiceRef) : String ×ₗ String := toLex (ref.namespace, ref.name)

theorem le_iff_refKey (a b : ServiceRef) : a.le b = true ↔ refKey a ≤ refKey b := by
  rw [ServiceRef.le_iff, refKey, refKey, Prod.Lex.toLex_le_toLex]

theorem refKey_injective : Function.Injective refKey := by
  intro a b h
  obtain ⟨hns, hname⟩ := Prod.mk.inj (toLex.injective h)
  cases a
  cases b
  cases hns
  cases hname
  rfl

/-! ## Reading -/

namespace Records

variable {r : Records}

theorem Owner.unique {ip : Addr} {p q : PodRecord} (hp : r.Owner ip p) (hq : r.Owner ip q) :
    p = q := by
  have huid : p.uid = q.uid := by
    rcases hp.newest q hq.stored hq.lists with hlt | ⟨heq, hle⟩
    · rcases hq.newest p hp.stored hp.lists with hlt' | ⟨heq', -⟩
      · omega
      · omega
    · rcases hq.newest p hp.stored hp.lists with hlt' | ⟨-, hle'⟩
      · omega
      · exact String.le_antisymm hle' hle
  have hrec := hp.stored.1
  rw [huid, hq.stored.1] at hrec
  exact (Option.some.inj hrec).symm

theorem Describes.unique {trustDomain : String} {labelKeys : List String} {ip : Addr}
    {p : PodRecord} {w w' : Workload} (h : r.Describes trustDomain labelKeys ip p w)
    (h' : r.Describes trustDomain labelKeys ip p w') : w = w' := by
  have hperm : w.services.Perm w'.services := by
    rw [List.perm_ext_iff_of_nodup h.nodup h'.nodup]
    intro ref
    rw [h.services, h'.services]
  have hservices : w.services = w'.services :=
    hperm.eq_of_pairwise (fun a b _ _ hab hba => refKey_injective
      (le_antisymm ((le_iff_refKey a b).mp hab) ((le_iff_refKey b a).mp hba))) h.sorted h'.sorted
  obtain ⟨hid, hlabels⟩ := Prod.mk.inj (h.cilium.trans h'.cilium.symm)
  rw [h.pod, h'.pod, hservices, hid, hlabels]

end Records

namespace Mirrors

variable {x : Index} {r : Records}

theorem lookup_pods_iff (h : Mirrors x r) {uid : String} {q : PodRecord} :
    x.pods.lookup uid = some q ↔ ∃ p, r.Stored p ∧ p.uid = uid ∧ x.podRecord p = q := by
  rw [h.pods, Option.map_eq_some_iff]
  constructor
  · rintro ⟨p, hp, rfl⟩
    obtain ⟨hrec, hst⟩ := Option.filter_eq_some_iff.mp hp
    have huid := h.uid uid p hrec
    exact ⟨p, ⟨by rw [huid]; exact hrec, hst⟩, huid, rfl⟩
  · rintro ⟨p, ⟨hrec, hst⟩, rfl, rfl⟩
    exact ⟨p, Option.filter_eq_some_iff.mpr ⟨hrec, hst⟩, rfl⟩

variable {ip : Addr}

/-- The pods that claim an address are the stored ones that list it. -/
theorem mem_claims_iff (h : Mirrors x r) {uid : String} :
    uid ∈ x.claims.getD ip.unmap [] ↔ ∃ p, r.Stored p ∧ p.uid = uid ∧ Lists p.ips ip := by
  rw [h.inv.claims_iff]
  constructor
  · rintro ⟨q, hq, hmem⟩
    obtain ⟨p, hst, huid, rfl⟩ := h.lookup_pods_iff.mp hq
    exact ⟨p, hst, huid, unmap_mem_uniqueAddrs_iff.mp hmem⟩
  · rintro ⟨p, hst, huid, hlists⟩
    exact ⟨x.podRecord p, h.lookup_pods_iff.mpr ⟨p, hst, huid, rfl⟩,
      unmap_mem_uniqueAddrs_iff.mpr hlists⟩

theorem owner_of_eq_some (h : Mirrors x r) {q : PodRecord} (hq : x.owner ip.unmap = some q) :
    ∃ p, r.Owner ip p ∧ x.podRecord p = q := by
  obtain ⟨hsource, -, hbeaten⟩ := foldl_betterOwner_spec x _ none hq
  rcases hsource with hnone | ⟨uid, huid, hlookup⟩
  · cases hnone
  obtain ⟨p, hst, hpuid, rfl⟩ := h.lookup_pods_iff.mp hlookup
  obtain ⟨p', hst', hpuid', hlists⟩ := h.mem_claims_iff.mp huid
  have hsame : p' = p := by
    have hrec := hst'.1
    rw [hpuid', ← hpuid, hst.1] at hrec
    exact (Option.some.inj hrec).symm
  subst hsame
  refine ⟨p', ⟨hst, hlists, ?_⟩, rfl⟩
  intro q hqst hqlists
  have hclaim := h.mem_claims_iff.mpr ⟨q, hqst, rfl, hqlists⟩
  have hnot := hbeaten q.uid hclaim (x.podRecord q) (h.lookup_pods_iff.mpr ⟨q, hqst, rfl, rfl⟩)
  rw [newer_iff, not_or, not_and] at hnot
  have hcreated : ¬ p'.created < q.created := hnot.1
  by_cases hsame : q.created = p'.created
  · exact .inr ⟨hsame, String.not_lt.mp (hnot.2 hsame)⟩
  · exact .inl (by omega)

theorem owner_isSome (h : Mirrors x r) {p : PodRecord} (hst : r.Stored p)
    (hlists : Lists p.ips ip) :
    (x.owner ip.unmap).isSome = true := by
  unfold Index.owner
  rw [IndexInv.foldl_betterOwner_isSome]
  refine .inr ⟨p.uid, h.mem_claims_iff.mpr ⟨p, hst, rfl, hlists⟩, ?_⟩
  rw [h.lookup_pods_iff.mpr ⟨p, hst, rfl, rfl⟩]
  rfl

theorem owner_iff (h : Mirrors x r) {q : PodRecord} :
    x.owner ip.unmap = some q ↔ ∃ p, r.Owner ip p ∧ x.podRecord p = q := by
  constructor
  · exact h.owner_of_eq_some
  · rintro ⟨p, hp, rfl⟩
    obtain ⟨q', hq'⟩ := Option.isSome_iff_exists.mp (h.owner_isSome hp.stored hp.lists)
    obtain ⟨p', hp', rfl⟩ := h.owner_of_eq_some hq'
    rw [hq', hp.unique hp']

theorem lookup_slices_iff (h : Mirrors x r) {key : NsName} {s : SliceRecord} :
    x.slices.lookup key = some s
      ↔ ∃ s₀, r.slices key = some s₀ ∧ s₀.service ≠ "" ∧ s₀.stored = s := by
  rw [h.slices, Option.map_eq_some_iff]
  constructor
  · rintro ⟨s₀, hs₀, rfl⟩
    obtain ⟨hrec, hsvc⟩ := Option.filter_eq_some_iff.mp hs₀
    exact ⟨s₀, hrec, by simpa using hsvc, rfl⟩
  · rintro ⟨s₀, hrec, hsvc, rfl⟩
    exact ⟨s₀, Option.filter_eq_some_iff.mpr ⟨hrec, by simpa using hsvc⟩, rfl⟩

/-- The Services of a pod are those whose slices list its UID or its address. -/
theorem mem_podServiceRefs_iff (h : Mirrors x r) {uid : String} (huid : uid ≠ "")
    {ref : ServiceRef} :
    ref ∈ x.podServiceRefs uid ip.unmap ↔ r.Serves uid ip ref := by
  have hpod : ref ∈ (x.podServices.getD uid ∅).keys
      ↔ ∃ key s, r.slices key = some s ∧ s.service ≠ "" ∧ s.ref = ref ∧ uid ∈ s.podUIDs := by
    rw [h.services.pods.mem_keys_iff]
    constructor
    · rintro ⟨key, s, hs, href, hmem⟩
      obtain ⟨s₀, hrec, hsvc, rfl⟩ := h.lookup_slices_iff.mp hs
      exact ⟨key, s₀, hrec, hsvc, href, (mem_uniqueStrings_iff huid).mp hmem⟩
    · rintro ⟨key, s, hrec, hsvc, href, hmem⟩
      exact ⟨key, s.stored, h.lookup_slices_iff.mpr ⟨s, hrec, hsvc, rfl⟩, href,
        (mem_uniqueStrings_iff huid).mpr hmem⟩
  have hip : ref ∈ (x.ipServices.getD ip.unmap ∅).keys
      ↔ ∃ key s, r.slices key = some s ∧ s.service ≠ "" ∧ s.ref = ref ∧ Lists s.ips ip := by
    rw [h.services.ips.mem_keys_iff]
    constructor
    · rintro ⟨key, s, hs, href, hmem⟩
      obtain ⟨s₀, hrec, hsvc, rfl⟩ := h.lookup_slices_iff.mp hs
      exact ⟨key, s₀, hrec, hsvc, href, unmap_mem_uniqueAddrs_iff.mp hmem⟩
    · rintro ⟨key, s, hrec, hsvc, href, hmem⟩
      exact ⟨key, s.stored, h.lookup_slices_iff.mpr ⟨s, hrec, hsvc, rfl⟩, href,
        unmap_mem_uniqueAddrs_iff.mpr hmem⟩
  have hunion : ref ∈ x.podServiceRefs uid ip.unmap
      ↔ ref ∈ (x.podServices.getD uid ∅).keys ∨ ref ∈ (x.ipServices.getD ip.unmap ∅).keys := by
    unfold Index.podServiceRefs
    rw [List.mem_insertionSort, List.mem_append, List.mem_filter]
    by_cases hmem : ref ∈ (x.podServices.getD uid ∅).keys <;> simp [hmem]
  rw [hunion, hpod, hip]
  unfold Records.Serves
  constructor
  · rintro (⟨key, s, h₁, h₂, h₃, h₄⟩ | ⟨key, s, h₁, h₂, h₃, h₄⟩)
    · exact ⟨key, s, h₁, h₂, h₃, .inl h₄⟩
    · exact ⟨key, s, h₁, h₂, h₃, .inr h₄⟩
  · rintro ⟨key, s, h₁, h₂, h₃, h₄ | h₄⟩
    · exact .inl ⟨key, s, h₁, h₂, h₃, h₄⟩
    · exact .inr ⟨key, s, h₁, h₂, h₃, h₄⟩

theorem nodup_podServiceRefs (x : Index) (uid : String) (ip : Addr) :
    (x.podServiceRefs uid ip).Nodup := by
  unfold Index.podServiceRefs
  rw [(List.perm_insertionSort _ _).nodup_iff]
  refine List.nodup_append.mpr ⟨AList.keys_nodup _, (AList.keys_nodup _).filter _, ?_⟩
  intro a ha b hb
  rintro rfl
  have hnot := (List.mem_filter.mp hb).2
  simp [ha] at hnot

/-- The workload of a stored pod is described by the records. -/
theorem describes (h : Mirrors x r) {p : PodRecord} (hst : r.Stored p) (ip : Addr) :
    r.Describes x.trustDomain x.labelKeys ip p (x.podWorkloadLocked (x.podRecord p) ip.unmap) where
  pod := rfl
  sorted := pairwise_insertionSort_of_key le_iff_refKey _
  nodup := nodup_podServiceRefs x p.uid ip.unmap
  services ref := by
    have huid : p.uid ≠ "" := by
      have hstorable := hst.2
      simp [PodRecord.storable] at hstorable
      exact hstorable.2
    exact h.mem_podServiceRefs_iff huid
  cilium := by
    show (((x.cilium.lookup ⟨p.namespace, p.name⟩).map (·.identity)).getD 0,
      ((x.cilium.lookup ⟨p.namespace, p.name⟩).map (·.labels)).getD []) = _
    rw [h.cilium]
    cases r.cilium ⟨p.namespace, p.name⟩ with
    | none => rfl
    | some c => rfl

theorem lookup_iff (h : Mirrors x r) {w : Workload} :
    x.lookup ip = some w
      ↔ ∃ p, r.Owner ip p ∧ r.Describes x.trustDomain x.labelKeys ip p w := by
  unfold Index.lookup
  constructor
  · intro hw
    cases ho : x.owner ip.unmap with
    | none =>
      rw [Index.lookupUnmapped_of_unowned ho, h.noNodes] at hw
      cases hw
    | some q =>
      obtain ⟨p, hp, rfl⟩ := h.owner_iff.mp ho
      rw [Index.lookupUnmapped_of_owner ho] at hw
      cases hw
      exact ⟨p, hp, h.describes hp.stored ip⟩
  · rintro ⟨p, hp, hw⟩
    rw [Index.lookupUnmapped_of_owner (h.owner_iff.mpr ⟨p, hp, rfl⟩)]
    rw [(h.describes hp.stored ip).unique hw]

theorem lookup_isSome_iff (h : Mirrors x r) :
    (x.lookup ip).isSome = true ↔ ∃ p, r.Stored p ∧ Lists p.ips ip := by
  constructor
  · intro hsome
    obtain ⟨w, hw⟩ := Option.isSome_iff_exists.mp hsome
    obtain ⟨p, hp, -⟩ := h.lookup_iff.mp hw
    exact ⟨p, hp.stored, hp.lists⟩
  · rintro ⟨p, hst, hlists⟩
    obtain ⟨q, hq⟩ := Option.isSome_iff_exists.mp (h.owner_isSome hst hlists)
    unfold Index.lookup
    rw [Index.lookupUnmapped_of_owner hq]
    rfl

theorem writes_options (x : Index) {ops : List IndexOp} (hops : ∀ op ∈ ops, op.aboutPods = true) :
    (ops.foldl Index.write x).trustDomain = x.trustDomain
      ∧ (ops.foldl Index.write x).labelKeys = x.labelKeys := by
  induction ops generalizing x with
  | nil => exact ⟨rfl, rfl⟩
  | cons op ops ih =>
    obtain ⟨_, _, _, _, _, _, _, _, hwrite⟩ := write_of_aboutPods x (hops op List.mem_cons_self)
    rw [List.foldl_cons, hwrite]
    exact ih _ fun op' hop' => hops op' (List.mem_cons_of_mem _ hop')

end Mirrors

/-! ## The answer is a function of the latest records -/

/-- The records after a sequence of calls on an empty index. -/
def Records.latest (ops : List IndexOp) : Records := ops.foldl Records.write {}

/-- After any calls about pods, slices and Cilium endpoints, `Lookup` answers
what the latest records say: the newest stored pod that lists the address, with
its Services and its Cilium identity, and nothing if no stored pod lists it. -/
theorem lookup_of_latest (trustDomain : String) (labelKeys : List String) (ops : List IndexOp)
    (hops : ∀ op ∈ ops, op.aboutPods = true) (ip : Addr) :
    (∀ w, (ops.foldl Index.write (Index.new trustDomain labelKeys)).lookup ip = some w
        ↔ ∃ p, (Records.latest ops).Owner ip p
            ∧ (Records.latest ops).Describes (Index.new trustDomain labelKeys).trustDomain
                (Index.new trustDomain labelKeys).labelKeys ip p w)
      ∧ (((ops.foldl Index.write (Index.new trustDomain labelKeys)).lookup ip).isSome = true
        ↔ ∃ p, (Records.latest ops).Stored p ∧ Lists p.ips ip)
      ∧ ∀ ops' : List IndexOp, (∀ op ∈ ops', op.aboutPods = true) →
          Records.latest ops' = Records.latest ops →
            (ops'.foldl Index.write (Index.new trustDomain labelKeys)).lookup ip
              = (ops.foldl Index.write (Index.new trustDomain labelKeys)).lookup ip := by
  -- One reading serves both sequences: the answer is the owner's description.
  have hread : ∀ ops : List IndexOp, (∀ op ∈ ops, op.aboutPods = true) → ∀ w,
      (ops.foldl Index.write (Index.new trustDomain labelKeys)).lookup ip = some w
        ↔ ∃ p, (Records.latest ops).Owner ip p
            ∧ (Records.latest ops).Describes (Index.new trustDomain labelKeys).trustDomain
                (Index.new trustDomain labelKeys).labelKeys ip p w := by
    intro ops hops w
    have hnew := Mirrors.new trustDomain labelKeys
    obtain ⟨htrust, hkeys⟩ := Mirrors.writes_options (Index.new trustDomain labelKeys) hops
    rw [(hnew.writes hops).lookup_iff, htrust, hkeys]
    rfl
  refine ⟨hread ops hops, ?_, ?_⟩
  · exact ((Mirrors.new trustDomain labelKeys).writes hops).lookup_isSome_iff
  · intro ops' hops' hlatest
    apply Option.ext
    intro w
    show _ = some w ↔ _ = some w
    rw [hread ops' hops' w, hread ops hops w, hlatest]

/-- Two pods in a row hold 10.0.0.7, and the first one's delete comes last. -/
def addressReused : List IndexOp :=
  let pod (uid : String) (created : Nat) : PodRecord :=
    { uid, created, «namespace» := "shop", name := "cart", serviceAccount := "", node := "n1",
      labels := ∅, ips := [.v4 0x0a000007], hostNetwork := false, finished := false }
  [.upsertPod (pod "u1" 1), .upsertPod (pod "u2" 2),
    .upsertSlice ⟨"shop", "cart-x", "cart", ["u2"], []⟩, .deletePod "u1"]

theorem lookup_of_latest_addressReused :
    (∀ op ∈ addressReused, op.aboutPods = true)
      ∧ (((addressReused.foldl Index.write (Index.new "" [])).lookup (.v4 0x0a000007)).isSome = true
        ↔ ∃ p, (Records.latest addressReused).Stored p ∧ Lists p.ips (.v4 0x0a000007)) := by
  have hops : ∀ op ∈ addressReused, op.aboutPods = true := by decide
  exact ⟨hops, (lookup_of_latest "" [] addressReused hops (.v4 0x0a000007)).2.1⟩

end Hypergate.Operator
