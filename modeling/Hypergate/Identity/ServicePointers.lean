import Hypergate.Identity.IndexDelta
import Hypergate.Lib.Pointers

/-!
# Services by cluster IP

`byClusterIP` has room for one Service per address. Inside one delta an address
may pass from one Service to another, and the iteration order of the updated map
decides whether the old holder is dropped before or after the new one is stored;
for a moment two stored Services may list the address. `dropServiceLocked`
compares pointers, so a late drop does not take the address from its new holder.

`Held pending x` is what survives every order: a pointer always leads to a stored
Service that lists the address, and every stored Service outside `pending`, the
names that the delta has still to store, has all of its addresses. When the delta
is through nothing is pending.
-/

namespace Hypergate.Identity

open Hypergate.Lib

namespace Index

/-! ## One drop, one store -/

theorem byClusterIP_dropServiceLocked (x : Index) (name : String) (ip : Addr) :
    (x.dropServiceLocked name).byClusterIP.lookup ip =
      match x.services.lookup name with
      | none => x.byClusterIP.lookup ip
      | some old =>
        if ip ∈ old.service.clusterIPs ∧ x.byClusterIP.lookup ip = some old then none
        else x.byClusterIP.lookup ip := by
  unfold dropServiceLocked
  cases hold : x.services.lookup name with
  | none => rfl
  | some old => exact lookup_dropPointers old old.service.clusterIPs x.byClusterIP ip

theorem nextPtr_dropServiceLocked (x : Index) (name : String) :
    (x.dropServiceLocked name).nextPtr = x.nextPtr := by
  unfold dropServiceLocked
  cases x.services.lookup name <;> rfl

theorem numbered_dropServiceLocked {x : Index}
    (h : AMap.Numbered StoredService.ptr x.nextPtr x.services) (name : String) :
    AMap.Numbered StoredService.ptr (x.dropServiceLocked name).nextPtr
      (x.dropServiceLocked name).services := by
  unfold dropServiceLocked
  cases x.services.lookup name with
  | none => exact h
  | some old => exact h.erase name

/-- What `storeService` allocates. -/
def allocated (parse : String → Option Addr) (x : Index) (v : Versioned ServiceProto) :
    StoredService :=
  { ptr := x.nextPtr, service := serviceFromProto parse v.res }

variable {parse : String → Option Addr}

theorem services_storeService (x : Index) (name : String) (v : Versioned ServiceProto)
    (name' : String) :
    (storeService parse x name v).services.lookup name' =
      if name' = name then some (allocated parse x v) else x.services.lookup name' := by
  show ((x.dropServiceLocked name).services.insert name
    (allocated parse (x.dropServiceLocked name) v)).lookup name' = _
  rw [AMap.lookup_insert_ite, services_dropServiceLocked, allocated, allocated,
    nextPtr_dropServiceLocked]
  by_cases hn : name' = name
  · rw [if_pos hn, if_pos hn]
  · rw [if_neg hn, if_neg hn, if_neg hn]

theorem byClusterIP_storeService (x : Index) (name : String) (v : Versioned ServiceProto)
    (ip : Addr) :
    (storeService parse x name v).byClusterIP.lookup ip =
      if ip ∈ (serviceFromProto parse v.res).clusterIPs then some (allocated parse x v)
      else (x.dropServiceLocked name).byClusterIP.lookup ip := by
  have h := lookup_addPointers (allocated parse (x.dropServiceLocked name) v)
    (serviceFromProto parse v.res).clusterIPs (x.dropServiceLocked name).byClusterIP ip
  rw [allocated, nextPtr_dropServiceLocked] at h
  rw [allocated, ← h, ← nextPtr_dropServiceLocked x name]
  rfl

/-! ## The pointers while a delta is applied -/

/-- The pointers of an index in which the names `pending` have still to be stored. -/
structure Held (pending : List String) (x : Index) : Prop where
  numbered : AMap.Numbered StoredService.ptr x.nextPtr x.services
  listed : ∀ {ip st}, x.byClusterIP.lookup ip = some st →
    ∃ name, x.services.lookup name = some st ∧ ip ∈ st.service.clusterIPs
  held : ∀ {name st ip}, name ∉ pending → x.services.lookup name = some st →
    ip ∈ st.service.clusterIPs → x.byClusterIP.lookup ip = some st

/-- No two stored Services list a common cluster IP. -/
def Apart (x : Index) : Prop :=
  ∀ name name' st st' ip, x.services.lookup name = some st → x.services.lookup name' = some st' →
    ip ∈ st.service.clusterIPs → ip ∈ st'.service.clusterIPs → name = name'

theorem apart_iff {x : Index} : x.Apart ↔ ∀ e ∈ x.services.toList, ∀ e' ∈ x.services.toList,
    ∀ ip ∈ e.2.service.clusterIPs, ip ∈ e'.2.service.clusterIPs → e.1 = e'.1 := by
  constructor
  · intro h e he e' he' ip hip hip'
    exact h e.1 e'.1 e.2 e'.2 ip (AMap.mem_toList.mp he) (AMap.mem_toList.mp he') hip hip'
  · intro h name name' st st' ip hst hst' hip hip'
    exact h (name, st) (AMap.mem_toList.mpr hst) (name', st') (AMap.mem_toList.mpr hst') ip hip hip'

instance (x : Index) : Decidable x.Apart := decidable_of_iff _ apart_iff.symm

namespace Held

variable {pending : List String} {x : Index}

theorem empty : Held [] {} where
  numbered := .empty
  listed h := absurd h (by simp)
  held _ h := absurd h (by simp)

theorem weaken (h : Held [] x) (pending : List String) : Held pending x :=
  ⟨h.numbered, h.listed, fun _ => h.held (by simp)⟩

/-- A drop takes back exactly the pointers of the Service it drops. -/
theorem drop (h : Held pending x) (name : String) : Held pending (x.dropServiceLocked name) where
  numbered := numbered_dropServiceLocked h.numbered name
  listed := by
    intro ip st hst
    rw [byClusterIP_dropServiceLocked] at hst
    cases hold : x.services.lookup name with
    | none =>
      rw [hold] at hst
      obtain ⟨name', hname', hip⟩ := h.listed hst
      refine ⟨name', ?_, hip⟩
      rw [services_dropServiceLocked, if_neg]
      · exact hname'
      · rintro rfl
        rw [hold] at hname'
        cases hname'
    | some old =>
      rw [hold] at hst
      dsimp only at hst
      split at hst
      · cases hst
      · rename_i hnot
        obtain ⟨name', hname', hip⟩ := h.listed hst
        refine ⟨name', ?_, hip⟩
        rw [services_dropServiceLocked, if_neg]
        · exact hname'
        · -- the dropped Service lists the address, so its pointer is gone
          rintro rfl
          rw [hold] at hname'
          cases hname'
          exact hnot ⟨hip, hst⟩
  held := by
    intro name' st ip hdone hst hip
    rw [services_dropServiceLocked] at hst
    split at hst
    · cases hst
    · rename_i hne
      have hpoints := h.held hdone hst hip
      rw [byClusterIP_dropServiceLocked]
      cases hold : x.services.lookup name with
      | none => exact hpoints
      | some old =>
        dsimp only
        rw [if_neg, hpoints]
        rintro ⟨-, hown⟩
        -- the pointer is the other Service's, a different allocation
        rw [hpoints] at hown
        exact hne (h.numbered.inj hst hold (congrArg _ (Option.some.inj hown)))

theorem remove (h : Held pending x) (name : String) : Held pending (x.removeService name) :=
  ⟨(h.drop name).numbered, (h.drop name).listed, (h.drop name).held⟩

theorem removeAll (h : Held pending x) (removed : List String) :
    Held pending (removed.foldl removeService x) := by
  induction removed generalizing x with
  | nil => exact h
  | cons name removed ih => exact ih (h.remove name)

/-- A pending name is stored. Its addresses are free of the Services that are
stored for good; those of pending ones it takes over. -/
theorem store {name : String} {v : Versioned ServiceProto} (h : Held (name :: pending) x)
    (hapart : ∀ name' st, name' ∉ name :: pending → x.services.lookup name' = some st →
      ∀ ip ∈ (serviceFromProto parse v.res).clusterIPs, ip ∉ st.service.clusterIPs) :
    Held pending (storeService parse x name v) where
  numbered := by
    have hdrop := numbered_dropServiceLocked h.numbered name
    exact hdrop.insert_new rfl
  listed := by
    intro ip st hst
    rw [byClusterIP_storeService] at hst
    split at hst
    · rename_i hip
      cases hst
      exact ⟨name, by rw [services_storeService, if_pos rfl], hip⟩
    · obtain ⟨name', hname', hip⟩ := (h.drop name).listed hst
      rw [services_dropServiceLocked] at hname'
      split at hname'
      · cases hname'
      · rename_i hne
        exact ⟨name', by rw [services_storeService, if_neg hne]; exact hname', hip⟩
  held := by
    intro name' st ip hdone hst hip
    rw [byClusterIP_storeService]
    by_cases hne : name' = name
    · rw [services_storeService, if_pos hne] at hst
      cases hst
      exact if_pos hip
    · have hrest : name' ∉ name :: pending := by
        rw [List.mem_cons, not_or]
        exact ⟨hne, hdone⟩
      rw [services_storeService, if_neg hne] at hst
      rw [if_neg fun hnew => hapart name' st hrest hst ip hnew hip]
      refine (h.drop name).held hrest ?_ hip
      rw [services_dropServiceLocked, if_neg hne]
      exact hst

end Held

/-! ## The update loop -/

/-- The loop leaves alone the names that it does not store. -/
theorem services_storeServices_of_notMem {l : List (String × Versioned ServiceProto)}
    {name : String} (hname : name ∉ l.map Prod.fst) (x : Index) :
    (l.foldl (fun x e => storeService parse x e.1 e.2) x).services.lookup name =
      x.services.lookup name := by
  induction l generalizing x with
  | nil => rfl
  | cons e l ih =>
    rw [List.map_cons, List.mem_cons, not_or] at hname
    rw [List.foldl_cons, ih hname.2, services_storeService, if_neg hname.1]

/-- If the loop ends with Services that share no address, it ends with every address
held, in whichever order it stores them. -/
theorem Held.storeAll {l : List (String × Versioned ServiceProto)} {x : Index}
    (hnd : (l.map Prod.fst).Nodup) (h : Held (l.map Prod.fst) x)
    (hapart : Apart (l.foldl (fun x e => storeService parse x e.1 e.2) x)) :
    Held [] (l.foldl (fun x e => storeService parse x e.1 e.2) x) := by
  induction l generalizing x with
  | nil => exact h
  | cons e l ih =>
    rw [List.map_cons, List.nodup_cons] at hnd
    refine ih hnd.2 (Held.store h ?_) hapart
    intro name st hdone hst ip hnew hip
    -- neither `name` nor the name just stored is touched again
    rw [List.mem_cons, not_or] at hdone
    have hother : ∀ name' st', name' ∉ l.map Prod.fst →
        (storeService parse x e.1 e.2).services.lookup name' = some st' →
        ((e :: l).foldl (fun x e => storeService parse x e.1 e.2) x).services.lookup name' =
          some st' := by
      intro name' st' hn hs
      rw [List.foldl_cons, services_storeServices_of_notMem hn]
      exact hs
    have hname := hother name st hdone.2 (by rw [services_storeService, if_neg hdone.1, hst])
    have hstored := hother e.1 _ hnd.1 (by rw [services_storeService, if_pos rfl])
    exact hdone.1 (hapart name e.1 st _ ip hname hstored hip hnew)

/-- A whole delta, on an index in which nothing is pending. -/
theorem Held.applyServices {x : Index} (h : Held [] x)
    (updated : AMap String (Versioned ServiceProto)) (removed : List String)
    (hapart : Apart (x.applyServices parse updated removed)) :
    Held [] (x.applyServices parse updated removed) := by
  have hloop : Held [] (updated.toList.foldl (fun x e => storeService parse x e.1 e.2)
      (removed.foldl removeService x)) := by
    refine Held.storeAll ?_ ((h.removeAll removed).weaken _) hapart
    rw [AMap.map_fst_toList]
    exact updated.keys_nodup
  exact ⟨hloop.numbered, hloop.listed, hloop.held⟩

end Index

/-! ## Sequences of deltas -/

/-- A delta as `applyServices` gets it. The entries of `update` stand in the order in
which the loop of the source happens to visit them. -/
abbrev ServiceDelta := Delta String (Versioned ServiceProto)

/-- The index after the deltas `ds`. -/
def servicesAfter (parse : String → Option Addr) (ds : List ServiceDelta) : Index :=
  ds.foldl (fun x d => x.applyServices parse d.update d.remove) {}

section Deltas

variable {parse : String → Option Addr} {ds : List ServiceDelta}

theorem servicesAfter_snoc (ds : List ServiceDelta) (d : ServiceDelta) :
    servicesAfter parse (ds ++ [d]) =
      (servicesAfter parse ds).applyServices parse d.update d.remove := by
  rw [servicesAfter, List.foldl_append]
  rfl

/-- After every delta: the pointers are exactly those of the stored Services. -/
theorem held_servicesAfter
    (hapart : ∀ before after, ds = before ++ after → (servicesAfter parse before).Apart) :
    Index.Held [] (servicesAfter parse ds) := by
  induction ds using List.reverseRecOn with
  | nil => exact .empty
  | append_singleton ds d ih =>
    have hprev := ih fun before after heq => hapart before (after ++ [d]) (by simp [heq])
    have hnow := hapart (ds ++ [d]) [] (by simp)
    rw [servicesAfter_snoc] at hnow ⊢
    exact hprev.applyServices d.update d.remove hnow

/-- A stored Service is the latest one that was delivered under its name. -/
theorem lookup_servicesAfter (name : String) :
    ((servicesAfter parse ds).services.lookup name).map (·.service) =
      ((Delta.latest ds name).getD none).map fun v => serviceFromProto parse v.res := by
  induction ds using List.reverseRecOn with
  | nil => rfl
  | append_singleton ds d ih =>
    rw [servicesAfter_snoc, Index.lookup_applyServices, Delta.latest_snoc, effectOf_eq, ih]
    cases d.effect name with
    | none => rfl
    | some e => exact (Option.map_map _ _ _)

end Deltas

/-- As long as no delta leaves two Services with a common cluster IP, a cluster IP
finds the Service that lists it and no other, and a name the content last delivered
for it. -/
theorem services_found_by_ip_and_name (parse : String → Option Addr) (ds : List ServiceDelta)
    (hapart : ∀ before after, ds = before ++ after → (servicesAfter parse before).Apart) :
    (∀ ip s, (servicesAfter parse ds).serviceByClusterIP ip = some s ↔
      ip.isValid = true ∧ ∃ name st, (servicesAfter parse ds).services.lookup name = some st
        ∧ st.service = s ∧ ip.unmap ∈ s.clusterIPs)
    ∧ ∀ ns name s, (servicesAfter parse ds).service ns name = some s ↔
      ∃ v, Delta.Brought ds (ns ++ "/" ++ name) v ∧ s = serviceFromProto parse v.res := by
  have hheld := held_servicesAfter hapart
  constructor
  · intro ip s
    unfold Index.serviceByClusterIP
    by_cases hvalid : ip.isValid = true
    · rw [if_pos hvalid, Option.map_eq_some_iff]
      constructor
      · rintro ⟨st, hst, rfl⟩
        obtain ⟨name, hname, hip⟩ := hheld.listed hst
        exact ⟨hvalid, name, st, hname, rfl, hip⟩
      · rintro ⟨-, name, st, hname, rfl, hip⟩
        exact ⟨st, hheld.held (by simp) hname hip, rfl⟩
    · simp [hvalid]
  · intro ns name s
    unfold Index.service
    rw [lookup_servicesAfter, Option.map_eq_some_iff]
    constructor
    · rintro ⟨v, hv, rfl⟩
      exact ⟨v, Delta.getD_latest_eq_some_iff.mp hv, rfl⟩
    · rintro ⟨v, hv, rfl⟩
      exact ⟨v, Delta.getD_latest_eq_some_iff.mpr hv, rfl⟩

/-- `10.0.0.1` and `10.0.0.2`, as the only addresses that parse. -/
def twoAddrs : String → Option Addr
  | "10.0.0.1" => some (.v4 0x0a000001#32)
  | "10.0.0.2" => some (.v4 0x0a000002#32)
  | _ => none

/-- Two Services; the second delta gives the address of `x/a` to `x/b` and happens to
store `x/b` first. -/
def movedAddr : List ServiceDelta :=
  [ { update := AMap.insertAll ∅
        [("x/a", ⟨⟨"a", "x", ["10.0.0.1"], []⟩, "1"⟩), ("x/b", ⟨⟨"b", "x", [], []⟩, "1"⟩)]
      remove := [] },
    { update := AMap.insertAll ∅
        [("x/a", ⟨⟨"a", "x", ["10.0.0.2"], []⟩, "2"⟩),
         ("x/b", ⟨⟨"b", "x", ["10.0.0.1"], []⟩, "2"⟩)]
      remove := [] } ]

theorem services_found_after_move :
    (servicesAfter twoAddrs movedAddr).serviceByClusterIP (.v4 0x0a000001#32) =
      some ⟨"x", "b", [.v4 0x0a000001#32], []⟩ := by
  have hinits : ∀ before ∈ movedAddr.inits, (servicesAfter twoAddrs before).Apart := by decide
  have h := services_found_by_ip_and_name twoAddrs movedAddr fun before after heq =>
    hinits before ((List.mem_inits _ _).mpr ⟨after, heq.symm⟩)
  exact (h.1 _ _).mpr ⟨rfl, "x/b", ⟨2, ⟨"x", "b", [.v4 0x0a000001#32], []⟩⟩, by decide, rfl,
    by decide⟩

end Hypergate.Identity
