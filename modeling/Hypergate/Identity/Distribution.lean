import Hypergate.Identity.IndexDelta
import Hypergate.Operator.IndexInv
import Hypergate.Operator.Server

/-!
# End to end: the engine's index is the operator's

The operator's index is rendered as named resources, published as differences
between successive renderings, grouped into delta responses by the cache and
applied by the engine. Three facts compose:

* the rendering loses nothing: `lookup_workloadResources` and
  `lookup_serviceResources` read `Lookup` and `Service` back from it;
* the published differences add up to the last rendering (`Publisher.Sound`,
  an invariant of every run of writes and `Sync` calls);
* the engine's maps are what the responses add up to (`Delivers`).

`engine_mirrors_operator` puts them together: after the updates of all `Sync`
calls up to some `Sync` have arrived, the engine answers every lookup as the
operator's index did at that `Sync`.
-/

namespace Hypergate.Distribution

open Hypergate.Lib Hypergate.Identity
open Hypergate.Operator (IndexInv IndexOp Server workloadProto serviceProto workloadResources
  serviceResources serviceName ServiceRef)

/-! ## Projections -/

/-- What the engine knows of an operator workload. -/
def projectWorkload (w : Operator.Workload) : Workload where
  ip := w.ip
  kind := match w.kind with
    | .pod => .pod
    | .node => .node
  «namespace» := w.namespace
  pod := w.pod
  podUID := w.podUID
  serviceAccount := w.serviceAccount
  spiffeID := w.spiffeID
  node := w.node
  labels := w.labels
  services := (w.services.map fun ref => ref.namespace ++ "/" ++ ref.name).insertionSort (· ≤ ·)
  securityIdentity := w.securityIdentity

/-- What the engine knows of an operator Service. -/
def projectService (s : Operator.Service) : Service where
  «namespace» := s.namespace
  name := s.name
  clusterIPs := s.clusterIPs
  ports := s.ports

variable (t : NetipText)

theorem workloadFromProto_workloadProto {w : Operator.Workload} (hw : Canonical w.ip) :
    workloadFromProto t.parseAddr (workloadProto t.string w) = projectWorkload w := by
  have hip : ((t.parseAddr (t.string w.ip)).getD .zero).unmap = w.ip := by
    rw [t.parse_string w.ip hw]
    exact hw.unmapped
  unfold workloadFromProto projectWorkload workloadProto
  simp only [hip, List.map_map, Function.comp_def]
  cases w.kind <;> rfl

theorem filterMap_parse_string {addrs : List Addr} (h : ∀ a ∈ addrs, Canonical a) :
    (addrs.map t.string).filterMap (fun c => (t.parseAddr c).map Addr.unmap) = addrs := by
  induction addrs with
  | nil => rfl
  | cons a addrs ih =>
    have ha := h a (by simp)
    rw [List.map_cons, List.filterMap_cons, t.parse_string a ha]
    simp only [Option.map_some, ha.unmapped]
    rw [ih fun b hb => h b (List.mem_cons_of_mem _ hb)]

theorem serviceFromProto_serviceProto {s : Operator.Service}
    (hs : ∀ ip ∈ s.clusterIPs, Canonical ip) :
    serviceFromProto t.parseAddr (serviceProto t.string s) = projectService s := by
  unfold serviceFromProto projectService serviceProto
  simp only [filterMap_parse_string t hs]

/-! ## The rendering -/

section Rendering

variable {t} {x : Operator.Index}

/-- The workload resource named after a stored address is what `Lookup` finds
there. -/
theorem lookup_workloadResources (h : IndexInv x) {a : Addr} (ha : Canonical a) :
    (workloadResources t.string x).lookup (t.string a) =
      (x.lookupUnmapped a).map (workloadProto t.string) := by
  -- the workload named like `a` is the one of `a` itself
  have hentry : ∀ w, w ∈ x.workloads ∧ t.string w.ip = t.string a ↔
      x.lookupUnmapped a = some w := by
    intro w
    rw [h.mem_workloads_iff]
    constructor
    · rintro ⟨hw, hname⟩
      rw [← t.string_inj (h.canonical_of_lookupUnmapped hw) ha hname]
      exact hw
    · intro hw
      have hip : w.ip = a := Operator.Index.ip_of_lookupUnmapped hw
      exact ⟨by rw [hip]; exact hw, by rw [hip]⟩
  unfold workloadResources
  rw [AMap.lookup_insertAll_map hentry, AList.lookup_empty, Option.or_none]

/-- Every workload resource is named after its own, stored address. -/
theorem workloadResources_named (h : IndexInv x) {name : String} {p : WorkloadProto}
    (hp : (workloadResources t.string x).lookup name = some p) :
    WorkloadNamed t name (some p) := by
  by_cases hname : name ∈ (x.workloads.map fun w =>
      (t.string w.ip, workloadProto t.string w)).map Prod.fst
  · obtain ⟨⟨name', p'⟩, he, rfl⟩ := List.mem_map.mp hname
    obtain ⟨w, hw, heq⟩ := List.mem_map.mp he
    obtain ⟨rfl, rfl⟩ := Prod.mk.inj heq
    have ha := h.canonical_of_lookupUnmapped ((h.mem_workloads_iff w).mp hw)
    rw [lookup_workloadResources h ha] at hp
    obtain ⟨w', hw', rfl⟩ := Option.map_eq_some_iff.mp hp
    refine ⟨⟨w.ip, ha, rfl⟩, fun q hq => ?_⟩
    rw [← Option.some.inj hq]
    show t.string w'.ip = t.string w.ip
    rw [Operator.Index.ip_of_lookupUnmapped hw']
  · unfold workloadResources at hp
    rw [AMap.lookup_insertAll_of_notMem hname] at hp
    cases hp

/-- A slash separates the two parts of a name that have none. -/
theorem append_slash_inj {l₁ l₂ r₁ r₂ : List Char} (hl : '/' ∉ l₁) (hr : '/' ∉ r₁)
    (h : l₁ ++ '/' :: r₁ = l₂ ++ '/' :: r₂) : l₁ = l₂ ∧ r₁ = r₂ := by
  induction l₁ generalizing l₂ with
  | nil =>
    cases l₂ with
    | nil => exact ⟨rfl, (List.cons.inj h).2⟩
    | cons c l₂ =>
      have htail := (List.cons.inj h).2
      exact absurd (by rw [List.nil_append] at h; rw [htail]; simp) hr
  | cons c l₁ ih =>
    cases l₂ with
    | nil => exact absurd (by rw [← (List.cons.inj h).1]; simp) hl
    | cons d l₂ =>
      obtain ⟨hc, htail⟩ := List.cons.inj h
      obtain ⟨h1, h2⟩ := ih (fun hm => hl (List.mem_cons_of_mem _ hm)) htail
      exact ⟨by rw [hc, h1], h2⟩

theorem serviceName_inj (s : Operator.Service) (ref : ServiceRef)
    (h : serviceName s.ref = serviceName ref) : s.ref = ref := by
  have hlist : s.namespace.1.toList ++ '/' :: s.name.1.toList =
      ref.namespace.toList ++ '/' :: ref.name.toList := by
    have := congrArg String.toList h
    simpa [serviceName, Operator.Service.ref] using this
  obtain ⟨h1, h2⟩ := append_slash_inj s.namespace.2 s.name.2 hlist
  show ServiceRef.mk s.namespace s.name = ref
  rw [String.toList_injective h1, String.toList_injective h2]

/-- The Service resource of a name is what `Service` finds. -/
theorem lookup_serviceResources (h : IndexInv x) (ref : ServiceRef) :
    (serviceResources t.string x).lookup (serviceName ref) =
      (x.services.lookup ref).map (serviceProto t.string) := by
  have hentry : ∀ s, s ∈ x.allServices ∧ serviceName s.ref = serviceName ref ↔
      x.services.lookup ref = some s := by
    intro s
    rw [h.mem_allServices_iff]
    constructor
    · rintro ⟨hs, hname⟩
      rw [← serviceName_inj s ref hname]
      exact hs
    · intro hs
      have href := h.service_ref ref s hs
      exact ⟨by rw [href]; exact hs, by rw [href]⟩
  unfold serviceResources
  rw [AMap.lookup_insertAll_map hentry, AList.lookup_empty, Option.or_none]

end Rendering

/-! ## Runs of the operator -/

/-- The server and the updates its `Sync` calls passed to `UpdateResources`. -/
structure Publisher where
  server : Server
  workloads : List (Delta String WorkloadProto) := []
  services : List (Delta String ServiceProto) := []

/-- A call is made only for a difference that is not empty. -/
def logCall {M : Type} (log : List (Delta String M)) (d : Delta String M) :
    List (Delta String M) :=
  if d.isEmpty then log else log ++ [d]

/-- A write to the index, or a `Sync` whose calls succeed. -/
inductive PublisherEvent where
  | write (op : IndexOp)
  | sync

namespace Publisher

/-- `Sync` with succeeding calls, its updates logged. -/
def sync (σ : Publisher) : Publisher where
  server := (σ.server.sync t.string true true).1
  workloads := logCall σ.workloads
    (Delta.diff σ.server.lastWorkloads (workloadResources t.string σ.server.index))
  services := logCall σ.services
    (Delta.diff σ.server.lastServices (serviceResources t.string σ.server.index))

theorem sync_server (σ : Publisher) :
    (σ.sync t).server = (σ.server.sync t.string true true).1 := rfl

def write (σ : Publisher) (op : IndexOp) : Publisher :=
  { σ with server := { σ.server with index := σ.server.index.write op } }

end Publisher

/-- The operator, driven by writes and `Sync` calls in any order. -/
def publisherSys : TSys Publisher PublisherEvent where
  init σ := ∃ trustDomain labelKeys, σ = { server := { index := .new trustDomain labelKeys } }
  step σ
    | .write op => some (σ.write op)
    | .sync => some (σ.sync t)

theorem publisherSys_start (trustDomain : String) (labelKeys : List String) :
    (publisherSys t).init { server := { index := .new trustDomain labelKeys } } :=
  ⟨trustDomain, labelKeys, rfl⟩

/-- Logging a difference brings the log from `last` to `next`. -/
theorem latest_logCall {M : Type} [DecidableEq M] {log : List (Delta String M)}
    {last : AMap String M} (next : AMap String M) {name : String}
    (h : (Delta.latest log name).getD none = last.lookup name) :
    (Delta.latest (logCall log (Delta.diff last next)) name).getD none = next.lookup name := by
  unfold logCall
  by_cases hd : (Delta.diff last next).isEmpty = true
  · -- no call: the maps agree at every name
    rw [if_pos hd, h]
    have heff := Delta.effect_diff last next name
    rw [Delta.effect_of_isEmpty hd] at heff
    by_cases hk : last.lookup name = next.lookup name
    · exact hk
    · rw [if_neg hk] at heff
      cases heff
  · rw [if_neg hd]
    exact Delta.latest_diff next h

/-- Logging a difference to named resources keeps the log named. -/
theorem named_logCall {t : NetipText} {log : List (Delta String WorkloadProto)}
    {last next : AMap String WorkloadProto}
    (hlast : ∀ name, (Delta.latest log name).getD none = last.lookup name)
    (hlog : ∀ d ∈ log, ∀ name e, d.effect name = some e → WorkloadNamed t name e)
    (hnext : ∀ name p, next.lookup name = some p → WorkloadNamed t name (some p)) :
    ∀ d ∈ logCall log (Delta.diff last next), ∀ name e, d.effect name = some e →
      WorkloadNamed t name e := by
  intro d hd name e he
  have hcase : d ∈ log ∨ d = Delta.diff last next := by
    unfold logCall at hd
    split at hd
    · exact .inl hd
    · rcases List.mem_append.mp hd with hd | hd
      · exact .inl hd
      · exact .inr (List.mem_singleton.mp hd)
  rcases hcase with hd | rfl
  · exact hlog d hd name e he
  · rw [Delta.effect_diff] at he
    split at he
    · cases he
    · rename_i hne
      cases he
      cases hn : next.lookup name with
      | some p => exact hnext name p hn
      | none =>
        -- a removal: the name was published before, so an earlier update named it
        rw [hn] at hne
        have hl := hlast name
        cases hlatest : Delta.latest log name with
        | none =>
          rw [hlatest] at hl
          exact absurd hl.symm hne
        | some e =>
          obtain ⟨d, hd, hde⟩ := Delta.exists_of_latest hlatest
          exact ⟨(hlog d hd name e hde).addr, fun p hp => absurd hp (by simp)⟩

/-- What every run keeps: the log adds up to the last maps, and names workloads
after their addresses. -/
structure Publisher.Sound (σ : Publisher) : Prop where
  index : IndexInv σ.server.index
  workloads : ∀ name,
    (Delta.latest σ.workloads name).getD none = σ.server.lastWorkloads.lookup name
  services : ∀ name,
    (Delta.latest σ.services name).getD none = σ.server.lastServices.lookup name
  named : ∀ d ∈ σ.workloads, ∀ name e, d.effect name = some e → WorkloadNamed t name e

namespace Publisher.Sound

variable {t} {σ : Publisher}

theorem sync (h : σ.Sound t) : (σ.sync t).Sound t := by
  constructor
  · exact h.index
  · intro name
    exact latest_logCall _ (h.workloads name)
  · intro name
    exact latest_logCall _ (h.services name)
  · exact named_logCall h.workloads h.named fun _ _ => workloadResources_named h.index

theorem invariant_step : (publisherSys t).Inductive (fun _ _ => True) (Publisher.Sound t) where
  init := by
    rintro σ ⟨trustDomain, labelKeys, rfl⟩
    exact ⟨.new trustDomain labelKeys, fun _ => rfl, fun _ => rfl, fun d hd => absurd hd (by simp)⟩
  step := by
    intro σ e σ' h _ hs
    cases e with
    | write op =>
      cases hs
      exact ⟨h.index.write op, h.workloads, h.services, h.named⟩
    | sync =>
      cases hs
      exact h.sync

/-- Once the last maps render the current index, an engine that has all updates
answers `Lookup` as the operator does. -/
theorem lookup_eq (h : σ.Sound t) {rs : List Response} (hrs : Delivers σ.workloads σ.services rs)
    (hlast : σ.server.lastWorkloads = workloadResources t.string σ.server.index) (ip : Addr) :
    (receiveAll t rs).lookup ip = (σ.server.index.lookup ip).map projectWorkload := by
  unfold Index.lookup Operator.Index.lookup
  cases hl : σ.server.index.lookupUnmapped ip.unmap with
  | none =>
    by_cases hv : ip.isValid = true
    · have ha := Canonical.unmap hv
      rw [if_pos hv, hrs.lookup_workloads h.named ha, h.workloads, hlast,
        lookup_workloadResources h.index ha, hl]
      rfl
    · rw [if_neg hv]
      rfl
  | some w =>
    have ha := h.index.canonical_of_lookupUnmapped hl
    have hv : ip.isValid = true := by rw [← Addr.isValid_unmap]; exact ha.valid
    have hip : w.ip = ip.unmap := Operator.Index.ip_of_lookupUnmapped hl
    rw [if_pos hv, hrs.lookup_workloads h.named ha, h.workloads, hlast,
      lookup_workloadResources h.index ha, hl]
    show some (workloadFromProto t.parseAddr (workloadProto t.string w)) = _
    rw [workloadFromProto_workloadProto t (by rw [hip]; exact ha)]
    rfl

theorem service_eq (h : σ.Sound t) {rs : List Response} (hrs : Delivers σ.workloads σ.services rs)
    (hlast : σ.server.lastServices = serviceResources t.string σ.server.index)
    («namespace» name : String) :
    (receiveAll t rs).service «namespace» name =
      (σ.server.index.service «namespace» name).map projectService := by
  unfold Index.service Operator.Index.service
  show ((receiveAll t rs).services.lookup (serviceName ⟨«namespace», name⟩)).map _ = _
  rw [hrs.lookup_services, h.services, hlast, lookup_serviceResources h.index]
  cases hl : σ.server.index.services.lookup ⟨«namespace», name⟩ with
  | none => rfl
  | some s =>
    show some (serviceFromProto t.parseAddr (serviceProto t.string s)) = _
    rw [serviceFromProto_serviceProto t (h.index.service_addrs _ s hl)]
    rfl

end Publisher.Sound

/-- **The engine mirrors the operator.** After any run of writes and `Sync`
calls, take one more `Sync` and any responses that deliver all updates so far
to an engine that started empty: the engine's `Lookup` and `Service` are the
projections of the operator's, for every address and every pair of names. -/
theorem engine_mirrors_operator {t : NetipText} {σ σ' : Publisher} {rs : List Response}
    (h : (publisherSys t).Reachable σ) (hsync : (publisherSys t).step σ .sync = some σ')
    (hrs : Delivers σ'.workloads σ'.services rs) :
    (∀ ip, (receiveAll t rs).lookup ip = (σ'.server.index.lookup ip).map projectWorkload) ∧
      ∀ «namespace» name, (receiveAll t rs).service «namespace» name =
        (σ'.server.index.service «namespace» name).map projectService := by
  cases hsync
  have hs := (Publisher.Sound.invariant_step.invariant h).sync
  constructor
  · apply hs.lookup_eq hrs
    rw [Publisher.sync_server, Server.sync_lastWorkloads, Server.sync_index]
  · apply hs.service_eq hrs
    rw [Publisher.sync_server, Server.sync_lastServices, Server.sync_index]

/-- Addresses as decimal numbers behind a family tag: a text form that reads
back. -/
def decimalText : NetipText where
  string
    | .zero => "invalid IP"
    | .v4 bits => String.ofList ('4' :: ':' :: Nat.toDigits 10 bits.toNat)
    | .v6 bits zone =>
      String.ofList ('6' :: ':' :: Nat.toDigits 10 bits.toNat ++ '%' :: zone.toList)
  parseAddr s :=
    match s.toList with
    | '4' :: ':' :: ds => some (.v4 (BitVec.ofNat 32 (Nat.ofDigitChars 10 ds 0)))
    | '6' :: ':' :: rest =>
      some (.v6 (BitVec.ofNat 128 (Nat.ofDigitChars 10 (rest.takeWhile (· ≠ '%')) 0))
        (String.ofList ((rest.dropWhile (· ≠ '%')).drop 1)))
    | _ => none
  parse_string := by
    intro a ha
    cases a with
    | zero => exact absurd ha.valid (by decide)
    | v4 bits => simp [Nat.ofDigitChars_toDigits]
    | v6 bits zone =>
      -- no digit is the zone separator, so the two parts are found again
      have hdigit : ∀ c ∈ Nat.toDigits 10 bits.toNat, (!decide (c = '%')) = true := by
        intro c hc
        have hisDigit := Nat.isDigit_of_mem_toDigits (by decide) (by decide) hc
        rw [Bool.not_eq_true', decide_eq_false_iff_not]
        intro hpercent
        rw [hpercent] at hisDigit
        cases hisDigit
      simp [List.takeWhile_append_of_pos hdigit, List.dropWhile_append_of_pos hdigit,
        Nat.ofDigitChars_toDigits]

theorem engine_mirrors_one_node :
    (∀ ip, (receiveAll decimalText (responsesOf
          (Publisher.sync decimalText { server := { index := Operator.oneNode } }).workloads
          (Publisher.sync decimalText { server := { index := Operator.oneNode } }).services)).lookup
        ip = (Operator.oneNode.lookup ip).map projectWorkload) ∧
      ((receiveAll decimalText (responsesOf
          (Publisher.sync decimalText { server := { index := Operator.oneNode } }).workloads
          (Publisher.sync decimalText { server := { index := Operator.oneNode } }).services)).lookup
        (.v4 0x0a000001#32)).isSome = true := by
  have hwrite : (publisherSys decimalText).step { server := { index := .new "" [] } }
      (.write Operator.nodeAppears) = some { server := { index := Operator.oneNode } } := rfl
  have hreach : (publisherSys decimalText).Reachable
      { server := { index := Operator.oneNode } } :=
    TSys.ReachableUnder.step (.init (publisherSys_start decimalText "" [])) trivial hwrite
  exact ⟨(engine_mirrors_operator hreach rfl (delivers_responsesOf _ _)).1, by decide⟩

end Hypergate.Distribution
