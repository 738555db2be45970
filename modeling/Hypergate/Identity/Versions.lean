import Hypergate.Identity.Distribution

/-!
# Resource versions and what they stand for

When the stream breaks, the engine reconnects and tells the server, name by name,
which version of each resource it has (`versionsOf`); the server then leaves those
resources out. The versions live in a map keyed by resource name, the content in
maps keyed by parsed address and by Service name, and a name that has a version but
not its content would never be repaired.

`Reflects` relates both to the history of applied deltas.
-/

namespace Hypergate.Identity

open Hypergate.Lib

/-! ## The stream -/

/-- The type URL of a request or a response. -/
inductive TypeURL where
  | workload
  | service
  | other (url : String)
  deriving DecidableEq

def Response.typeURL : Response → TypeURL
  | .workloads _ => .workload
  | .services _ => .service
  | .other url => .other url

/-- `versionsOf`: a copy of the versions of a type. -/
def Index.versionsOf (x : Index) : TypeURL → AMap String String
  | .workload => AMap.insertAll ∅ x.workloadVersions.toList
  | .service => AMap.insertAll ∅ x.serviceVersions.toList
  | .other _ => ∅

/-- `DeltaDiscoveryRequest`, the fields that the client sets. -/
structure Request where
  typeURL : TypeURL
  resourceNamesSubscribe : List String := []
  initialResourceVersions : AMap String String := ∅
  errorDetail : Option String := none

/-- `Client`: the index it fills and the requests it has sent. -/
structure Client where
  index : Index := {}
  sent : List Request := []

/-- What happens to a client: a stream is opened, for the first time or again, or the
open stream brings a response. -/
inductive ClientEvent where
  | connect
  | response (r : Response)

namespace Client

/-- The subscriptions at the start of `stream`. -/
def subscriptions (x : Index) : List Request :=
  [TypeURL.workload, TypeURL.service].map fun url =>
    { typeURL := url, resourceNamesSubscribe := ["*"], initialResourceVersions := x.versionsOf url }

/-- One event of `stream`. A response is answered, with an error if it was rejected. -/
def step (t : NetipText) (c : Client) : ClientEvent → Client
  | .connect => { c with sent := c.sent ++ subscriptions c.index }
  | .response r =>
    match c.index.apply t.parseAddr r with
    | .ok x => { index := x, sent := c.sent ++ [{ typeURL := r.typeURL }] }
    | .error e => { c with sent := c.sent ++ [{ typeURL := r.typeURL, errorDetail := some e }] }

/-- A client after `events`. -/
def run (t : NetipText) (events : List ClientEvent) : Client :=
  events.foldl (step t) {}

theorem run_snoc (t : NetipText) (events : List ClientEvent) (e : ClientEvent) :
    run t (events ++ [e]) = (run t events).step t e := by
  rw [run, List.foldl_append]
  rfl

end Client

/-! ## The deltas that were applied -/

/-- The delta of a response, unless the response is rejected. -/
def DeltaResponse.delta? {M : Type} (r : DeltaResponse M) : Option (Delta String (Versioned M)) :=
  match r.updated with
  | .ok updated => some { update := updated, remove := r.removed }
  | .error _ => none

/-- The workload delta that an event applies. -/
def ClientEvent.workloadDelta : ClientEvent → Option (Delta String (Versioned WorkloadProto))
  | .response (.workloads r) => r.delta?
  | _ => none

/-- The Service delta that an event applies. -/
def ClientEvent.serviceDelta : ClientEvent → Option (Delta String (Versioned ServiceProto))
  | .response (.services r) => r.delta?
  | _ => none

/-- Resources named as `Server.Sync` names them. -/
def Response.Named (t : NetipText) : Response → Prop
  | .workloads r =>
    (∀ res ∈ r.resources, ∀ p, res.payload = .ok p →
      ∃ a, Canonical a ∧ res.name = t.string a ∧ p.ip = t.string a)
    ∧ ∀ name ∈ r.removed, ∃ a, Canonical a ∧ name = t.string a
  | .services r =>
    (∀ res ∈ r.resources, ∀ p, res.payload = .ok p → res.name = p.namespace ++ "/" ++ p.name)
    ∧ ∀ name ∈ r.removed, ∃ ns n, name = ns ++ "/" ++ n
  | .other _ => True

/-- Every response of a history is named so. -/
def AllNamed (t : NetipText) (events : List ClientEvent) : Prop :=
  ∀ r, .response r ∈ events → r.Named t

variable {name : String}

theorem DeltaResponse.mem_of_decode {M : Type} {resources : List (Resource M)}
    {acc updated : AMap String (Versioned M)} {v : Versioned M}
    (h : decode resources acc = .ok updated) (hv : updated.lookup name = some v) :
    acc.lookup name = some v ∨ ∃ res ∈ resources, res.name = name ∧ res.payload = .ok v.res := by
  induction resources generalizing acc with
  | nil =>
    obtain rfl := Except.ok.inj h
    exact .inl hv
  | cons res resources ih =>
    rw [decode] at h
    cases hp : res.payload with
    | error e =>
      rw [hp] at h
      cases h
    | ok m =>
      rw [hp] at h
      rcases ih h with hacc | ⟨res', hres', hname, hpay⟩
      · rw [AMap.lookup_insert_ite] at hacc
        split at hacc
        · rename_i hname
          cases hacc
          exact .inr ⟨res, by simp, hname.symm, hp⟩
        · exact .inl hacc
      · exact .inr ⟨res', List.mem_cons_of_mem _ hres', hname, hpay⟩

theorem DeltaResponse.updated_of_delta {M : Type} {r : DeltaResponse M}
    {d : Delta String (Versioned M)} (hd : r.delta? = some d) :
    r.updated = .ok d.update ∧ d.remove = r.removed := by
  unfold delta? at hd
  cases hu : r.updated with
  | error e =>
    rw [hu] at hd
    cases hd
  | ok updated =>
    rw [hu] at hd
    cases hd
    exact ⟨rfl, rfl⟩

/-- What a delta sets came as a resource of the response. -/
theorem DeltaResponse.mem_of_delta {M : Type} {r : DeltaResponse M} {d : Delta String (Versioned M)}
    (hd : r.delta? = some d) {v : Versioned M} (hv : d.update.lookup name = some v) :
    ∃ res ∈ r.resources, res.name = name ∧ res.payload = .ok v.res := by
  rcases mem_of_decode (updated_of_delta hd).1 hv with hacc | h
  · cases hacc
  · exact h

/-- The naming of a response, as the naming of what its delta does. -/
theorem Response.Named.workloadNamed {t : NetipText} {r : DeltaResponse WorkloadProto}
    (h : (Response.workloads r).Named t) {d : Delta String (Versioned WorkloadProto)}
    (hd : r.delta? = some d) (name : String) (e : Option WorkloadProto)
    (he : effectOf d.update d.remove name = some e) : WorkloadNamed t name e := by
  rw [effectOf_eq, Option.map_eq_some_iff] at he
  obtain ⟨e', he', rfl⟩ := he
  cases e' with
  | some v =>
    obtain ⟨res, hres, rfl, hpay⟩ :=
      DeltaResponse.mem_of_delta hd (Delta.effect_eq_value_iff.mp he')
    obtain ⟨a, ha, hname, hip⟩ := h.1 res hres v.res hpay
    refine ⟨⟨a, ha, hname.symm⟩, ?_⟩
    intro p hp
    cases hp
    rw [hip, hname]
  | none =>
    have hmem : name ∈ r.removed := by
      rw [← (DeltaResponse.updated_of_delta hd).2]
      by_contra hnot
      unfold Delta.effect at he'
      rw [if_neg hnot] at he'
      split at he' <;> cases he'
    obtain ⟨a, ha, rfl⟩ := h.2 name hmem
    exact ⟨⟨a, ha, rfl⟩, fun p hp => absurd hp (by simp)⟩

namespace Index

variable {t : NetipText}

/-! ## The versions after one delta -/

theorem lookup_copy (versions : AMap String String) (name : String) :
    AList.lookup name (AMap.insertAll ∅ versions.toList) = versions.lookup name := by
  have h := AMap.lookup_insertAll_toList (fun _ v => v) versions name
  simpa using h

theorem lookup_versions_of_delta {M : Type} (d : Delta String (Versioned M))
    (m : AMap String String) (name : String) :
    AList.lookup name (AMap.insertAll (m.eraseAll d.remove)
      (d.update.toList.map fun e => (e.1, e.2.version))) =
      ((d.effect name).map (Option.map Versioned.version)).getD (m.lookup name) := by
  rw [AMap.lookup_insertAll_map_toList (fun _ (v : Versioned M) => v.version),
    AMap.lookup_eraseAll]
  unfold Delta.effect
  cases d.update.lookup name with
  | some v => rfl
  | none =>
    rw [Option.map_none, Option.none_or]
    by_cases hr : name ∈ d.remove
    · simp [hr]
    · simp [hr]

theorem workloadVersions_removeWorkloads (removed : List String) (x : Index) :
    (removed.foldl (removeWorkload t.parseAddr) x).workloadVersions =
      x.workloadVersions.eraseAll removed := by
  induction removed generalizing x with
  | nil => rfl
  | cons name removed ih => exact ih _

theorem workloadVersions_applyWorkloads {d : Delta String (Versioned WorkloadProto)}
    (hnamed : ∀ name e, effectOf d.update d.remove name = some e → WorkloadNamed t name e)
    (x : Index) (name : String) :
    (x.applyWorkloads t.parseAddr d.update d.remove).workloadVersions.lookup name =
      ((d.effect name).map (Option.map Versioned.version)).getD
        (x.workloadVersions.lookup name) := by
  have hu : ∀ e ∈ d.update.toList, WorkloadNamed t e.1 (some e.2.res) :=
    fun e he => hnamed _ _ (effectOf_of_mem he d.remove)
  show AList.lookup name (d.update.toList.foldl _ _ : Index).workloadVersions = _
  rw [(workloads_storeWorkloads hu _).2, workloadVersions_removeWorkloads]
  exact lookup_versions_of_delta d x.workloadVersions name

theorem serviceVersions_removeServices (removed : List String) (x : Index) :
    (removed.foldl removeService x).serviceVersions = x.serviceVersions.eraseAll removed := by
  induction removed generalizing x with
  | nil => rfl
  | cons name removed ih =>
    rw [List.foldl_cons, ih]
    show AMap.eraseAll ((x.dropServiceLocked name).serviceVersions.erase name) removed = _
    rw [(x.dropServiceLocked_keeps name).2.2]
    rfl

theorem serviceVersions_storeServices (parse : String → Option Addr)
    (l : List (String × Versioned ServiceProto)) (x : Index) :
    (l.foldl (fun x e => storeService parse x e.1 e.2) x).serviceVersions =
      AMap.insertAll x.serviceVersions (l.map fun e => (e.1, e.2.version)) := by
  induction l generalizing x with
  | nil => rfl
  | cons e l ih =>
    rw [List.foldl_cons, ih]
    show AMap.insertAll ((x.dropServiceLocked e.1).serviceVersions.insert e.1 e.2.version) _ = _
    rw [(x.dropServiceLocked_keeps e.1).2.2]
    rfl

theorem serviceVersions_applyServices (parse : String → Option Addr)
    (d : Delta String (Versioned ServiceProto)) (x : Index) (name : String) :
    (x.applyServices parse d.update d.remove).serviceVersions.lookup name =
      ((d.effect name).map (Option.map Versioned.version)).getD
        (x.serviceVersions.lookup name) := by
  show AList.lookup name (d.update.toList.foldl _ _ : Index).serviceVersions = _
  rw [serviceVersions_storeServices, serviceVersions_removeServices]
  exact lookup_versions_of_delta d x.serviceVersions name

end Index

/-! ## Histories -/

/-- What a client's index holds, read off the deltas that its history applied. -/
structure Reflects (t : NetipText) (events : List ClientEvent) (x : Index) : Prop where
  workloadVersions : ∀ name, x.workloadVersions.lookup name =
    ((Delta.latest (events.filterMap ClientEvent.workloadDelta) name).getD none).map (·.version)
  workloads : ∀ {a}, Canonical a → x.workloads.lookup a =
    ((Delta.latest (events.filterMap ClientEvent.workloadDelta) (t.string a)).getD none).map
      fun v => workloadFromProto t.parseAddr v.res
  serviceVersions : ∀ name, x.serviceVersions.lookup name =
    ((Delta.latest (events.filterMap ClientEvent.serviceDelta) name).getD none).map (·.version)
  services : ∀ name, (x.services.lookup name).map (·.service) =
    ((Delta.latest (events.filterMap ClientEvent.serviceDelta) name).getD none).map
      fun v => serviceFromProto t.parseAddr v.res

section Snoc

variable {α β : Type} {f : α → Option β} {l : List α} {a : α} {b : β}

theorem filterMap_snoc_none (h : f a = none) : (l ++ [a]).filterMap f = l.filterMap f := by
  simp [List.filterMap_append, h]

theorem filterMap_snoc_some (h : f a = some b) :
    (l ++ [a]).filterMap f = l.filterMap f ++ [b] := by
  simp [List.filterMap_append, h]

end Snoc

namespace Reflects

variable {t : NetipText} {events : List ClientEvent} {x : Index}

theorem init : Reflects t [] {} where
  workloadVersions _ := rfl
  workloads _ := rfl
  serviceVersions _ := rfl
  services _ := rfl

theorem skip (h : Reflects t events x) {e : ClientEvent} (hw : e.workloadDelta = none)
    (hs : e.serviceDelta = none) : Reflects t (events ++ [e]) x := by
  constructor
  · rw [filterMap_snoc_none hw]
    exact h.workloadVersions
  · rw [filterMap_snoc_none hw]
    exact h.workloads
  · rw [filterMap_snoc_none hs]
    exact h.serviceVersions
  · rw [filterMap_snoc_none hs]
    exact h.services

theorem workloadDelta (h : Reflects t events x) {e : ClientEvent}
    {d : Delta String (Versioned WorkloadProto)} (hw : e.workloadDelta = some d)
    (hs : e.serviceDelta = none)
    (hnamed : ∀ name e, effectOf d.update d.remove name = some e → WorkloadNamed t name e) :
    Reflects t (events ++ [e]) (x.applyWorkloads t.parseAddr d.update d.remove) := by
  constructor
  · intro name
    rw [filterMap_snoc_some hw, Index.workloadVersions_applyWorkloads hnamed, Delta.latest_snoc,
      h.workloadVersions]
    cases d.effect name <;> rfl
  · intro a ha
    rw [filterMap_snoc_some hw, Index.lookup_applyWorkloads hnamed x ha, Delta.latest_snoc,
      effectOf_eq, h.workloads ha]
    cases d.effect (t.string a) with
    | none => rfl
    | some e => exact Option.map_map _ _ _
  · rw [filterMap_snoc_none hs, (Index.applyWorkloads_services ..).2]
    exact h.serviceVersions
  · rw [filterMap_snoc_none hs, (Index.applyWorkloads_services ..).1]
    exact h.services

theorem serviceDelta (h : Reflects t events x) {e : ClientEvent}
    {d : Delta String (Versioned ServiceProto)} (hw : e.workloadDelta = none)
    (hs : e.serviceDelta = some d) :
    Reflects t (events ++ [e]) (x.applyServices t.parseAddr d.update d.remove) := by
  constructor
  · rw [filterMap_snoc_none hw, (Index.applyServices_workloads ..).2]
    exact h.workloadVersions
  · rw [filterMap_snoc_none hw, (Index.applyServices_workloads ..).1]
    exact h.workloads
  · intro name
    rw [filterMap_snoc_some hs, Index.serviceVersions_applyServices, Delta.latest_snoc,
      h.serviceVersions]
    cases d.effect name <;> rfl
  · intro name
    rw [filterMap_snoc_some hs, Index.lookup_applyServices, Delta.latest_snoc, effectOf_eq,
      h.services]
    cases d.effect name with
    | none => rfl
    | some e => exact Option.map_map _ _ _

end Reflects

namespace Client

variable {t : NetipText}

theorem step_of_ok {c : Client} {r : Response} {x : Index}
    (h : c.index.apply t.parseAddr r = .ok x) : (c.step t (.response r)).index = x := by
  simp only [step, h]

theorem step_of_error {c : Client} {r : Response} {e : String}
    (h : c.index.apply t.parseAddr r = .error e) :
    (c.step t (.response r)).index = c.index := by
  simp only [step, h]

theorem reflects_run {events : List ClientEvent} (hnamed : AllNamed t events) :
    Reflects t events (run t events).index := by
  induction events using List.reverseRecOn with
  | nil => exact .init
  | append_singleton events e ih =>
    have ih := ih fun r hr => hnamed r (List.mem_append_left _ hr)
    rw [run_snoc]
    cases e with
    | connect => exact ih.skip rfl rfl
    | response r =>
      cases r with
      | workloads r =>
        cases hu : r.updated with
        | ok updated =>
          have hd : r.delta? = some ⟨updated, r.removed⟩ := by rw [DeltaResponse.delta?, hu]
          have hr : (Response.workloads r).Named t := hnamed _ (by simp)
          rw [step_of_ok (by simp only [Index.apply, hu]; rfl)]
          exact ih.workloadDelta (d := ⟨updated, r.removed⟩) hd rfl (hr.workloadNamed hd)
        | error e =>
          have hd : r.delta? = none := by rw [DeltaResponse.delta?, hu]
          rw [step_of_error (e := e) (by simp only [Index.apply, hu])]
          exact ih.skip hd rfl
      | services r =>
        cases hu : r.updated with
        | ok updated =>
          have hd : r.delta? = some ⟨updated, r.removed⟩ := by rw [DeltaResponse.delta?, hu]
          rw [step_of_ok (by simp only [Index.apply, hu]; rfl)]
          exact ih.serviceDelta (d := ⟨updated, r.removed⟩) rfl hd
        | error e =>
          have hd : r.delta? = none := by rw [DeltaResponse.delta?, hu]
          rw [step_of_error (e := e) (by simp only [Index.apply, hu])]
          exact ih.skip rfl hd
      | other url => exact ih.skip rfl rfl

end Client

variable {events : List ClientEvent}

theorem exists_response_of_workloadDelta {d : Delta String (Versioned WorkloadProto)}
    (hd : d ∈ events.filterMap ClientEvent.workloadDelta) :
    ∃ r, .response (.workloads r) ∈ events ∧ r.delta? = some d := by
  obtain ⟨e, he, hed⟩ := List.mem_filterMap.mp hd
  match e, hed with
  | .response (.workloads r), hed => exact ⟨r, he, hed⟩

theorem exists_response_of_serviceDelta {d : Delta String (Versioned ServiceProto)}
    (hd : d ∈ events.filterMap ClientEvent.serviceDelta) :
    ∃ r, .response (.services r) ∈ events ∧ r.delta? = some d := by
  obtain ⟨e, he, hed⟩ := List.mem_filterMap.mp hd
  match e, hed with
  | .response (.services r), hed => exact ⟨r, he, hed⟩

theorem AllNamed.of_brought_workload {t : NetipText} (hnamed : AllNamed t events)
    {v : Versioned WorkloadProto}
    (h : Delta.Brought (events.filterMap ClientEvent.workloadDelta) name v) :
    ∃ a, Canonical a ∧ t.string a = name := by
  obtain ⟨before, d, after, heq, hv, -⟩ := h
  have hmem : d ∈ events.filterMap ClientEvent.workloadDelta := by simp [heq]
  obtain ⟨r, hr, hd⟩ := exists_response_of_workloadDelta hmem
  have heff : effectOf d.update d.remove name = some (some v.res) := by
    unfold effectOf
    rw [hv]
  exact ((hnamed _ hr).workloadNamed hd name _ heff).addr

theorem AllNamed.of_brought_service {t : NetipText} (hnamed : AllNamed t events)
    {v : Versioned ServiceProto}
    (h : Delta.Brought (events.filterMap ClientEvent.serviceDelta) name v) :
    name = v.res.namespace ++ "/" ++ v.res.name := by
  obtain ⟨before, d, after, heq, hv, -⟩ := h
  have hmem : d ∈ events.filterMap ClientEvent.serviceDelta := by simp [heq]
  obtain ⟨r, hr, hd⟩ := exists_response_of_serviceDelta hmem
  obtain ⟨res, hres, rfl, hpay⟩ := DeltaResponse.mem_of_delta hd hv
  exact (hnamed _ hr).1 res hres v.res hpay

/-- The versions that the engine reports when it reconnects are those of the content it
holds: a name is reported with a version exactly when the last applied response that
updated the name gave that version, the name was not removed since, and its content is
what the index holds. A rejected response changes nothing. -/
theorem versions_are_of_held_content (t : NetipText) (events : List ClientEvent)
    (hnamed : AllNamed t events) :
    (∀ name version,
      ((Client.run t events).index.versionsOf .workload).lookup name = some version ↔
        ∃ p, Delta.Brought (events.filterMap ClientEvent.workloadDelta) name ⟨p, version⟩
          ∧ ∃ a, t.parseAddr name = some a
            ∧ (Client.run t events).index.lookup a = some (workloadFromProto t.parseAddr p))
    ∧ (∀ name version,
      ((Client.run t events).index.versionsOf .service).lookup name = some version ↔
        ∃ p, Delta.Brought (events.filterMap ClientEvent.serviceDelta) name ⟨p, version⟩
          ∧ ∃ ns n, name = ns ++ "/" ++ n
            ∧ (Client.run t events).index.service ns n = some (serviceFromProto t.parseAddr p))
    ∧ (((Client.run t events).step t .connect).sent =
        (Client.run t events).sent ++ Client.subscriptions (Client.run t events).index
      ∧ ((Client.run t events).step t .connect).index = (Client.run t events).index)
    ∧ ∀ r e, (Client.run t events).index.apply t.parseAddr r = .error e →
      ((Client.run t events).step t (.response r)).index = (Client.run t events).index := by
  have hreflects := Client.reflects_run hnamed
  refine ⟨?_, ?_, ⟨rfl, rfl⟩, fun r e => Client.step_of_error⟩
  · intro name version
    rw [Index.versionsOf, Index.lookup_copy, hreflects.workloadVersions, Option.map_eq_some_iff]
    constructor
    · rintro ⟨⟨p, version⟩, hv, rfl⟩
      have hbrought := Delta.getD_latest_eq_some_iff.mp hv
      obtain ⟨a, ha, rfl⟩ := hnamed.of_brought_workload hbrought
      refine ⟨p, hbrought, a, t.parse_string a ha, ?_⟩
      rw [Index.lookup, if_pos ha.valid, ha.unmapped, hreflects.workloads ha, hv]
      rfl
    · rintro ⟨p, hbrought, -⟩
      exact ⟨⟨p, version⟩, Delta.getD_latest_eq_some_iff.mpr hbrought, rfl⟩
  · intro name version
    rw [Index.versionsOf, Index.lookup_copy, hreflects.serviceVersions, Option.map_eq_some_iff]
    constructor
    · rintro ⟨⟨p, version⟩, hv, rfl⟩
      have hbrought := Delta.getD_latest_eq_some_iff.mp hv
      obtain rfl := hnamed.of_brought_service hbrought
      refine ⟨p, hbrought, p.namespace, p.name, rfl, ?_⟩
      rw [Index.service, hreflects.services, hv]
      rfl
    · rintro ⟨p, hbrought, -⟩
      exact ⟨⟨p, version⟩, Delta.getD_latest_eq_some_iff.mpr hbrought, rfl⟩

/-- The node with address 1. -/
def nodeOne : WorkloadProto :=
  { ip := "4:1", kind := .node, podUid := "", «namespace» := "", pod := "", serviceAccount := "",
    spiffeId := "", securityIdentity := 0, labels := ∅, node := "n", ciliumLabels := [],
    services := [] }

/-- The node is delivered, an update of it does not decode, and the stream breaks. -/
def brokenUpdate : List ClientEvent :=
  [ .connect,
    .response (.workloads ⟨[⟨"4:1", "7", .ok nodeOne⟩], []⟩),
    .response (.workloads ⟨[⟨"4:1", "8", .error "proto: cannot parse"⟩], []⟩),
    .connect ]

theorem versions_after_broken_update :
    ((Client.run Distribution.decimalText brokenUpdate).index.versionsOf .workload).lookup "4:1" =
      some "7" := by
  have hnamed : AllNamed Distribution.decimalText brokenUpdate := by
    intro r hr
    simp only [brokenUpdate, List.mem_cons, List.not_mem_nil, or_false, reduceCtorEq, false_or,
      ClientEvent.response.injEq] at hr
    rcases hr with rfl | rfl
    · refine ⟨?_, by simp⟩
      intro res hres p hp
      rw [List.mem_singleton.mp hres] at hp ⊢
      obtain rfl := Except.ok.inj hp
      exact ⟨.v4 1#32, ⟨rfl, rfl⟩, by decide, by decide⟩
    · refine ⟨?_, by simp⟩
      intro res hres p hp
      rw [List.mem_singleton.mp hres] at hp
      cases hp
  have hversions := (versions_are_of_held_content _ _ hnamed).1 "4:1" "7"
  refine hversions.mpr ⟨nodeOne, ?_, .v4 1#32, by decide, by decide⟩
  exact ⟨[], { update := AList.insert "4:1" ⟨nodeOne, "7"⟩ ∅, remove := [] }, [], rfl, rfl,
    by simp⟩

end Hypergate.Identity
