import Hypergate.Lib.TSys
import Hypergate.Operator.Compiler

/-!
# Admission of chains and filters (`hyper-operator/internal/webhook`)

A HyperChain is admitted if every filter it refers to exists, and a filter is
deleted only if no HyperChain refers to it. The first check goes from the text of a
reference's kind to the Go type it looks up; the second compares the text with the
one the type was registered with (`filterWebhooks`). `filterWebhooks_kind` is that
the two agree for all ten kinds.

* `Resolved` — the reference names a stored filter. A store in which every
  reference of every chain is resolved stays one, whatever is requested
  (`Referential.handle`).

The webhooks read the API server, and a read may fail (`ReadFaults`); a request
that is refused leaves the store as it was. What a filter's spec says is nothing to
the webhooks, so the specs are any types.
-/

namespace Hypergate.Operator

open Lib

/-! ## The API server -/

/-- The objects of a cluster by name. All kinds are cluster-scoped. -/
structure ObjectStore (S : FilterKind → Type) where
  chains : AMap String HyperChainSpec := ∅
  filters : (k : FilterKind) → AMap String (S k) := fun _ => ∅
  hyperConfigs : AMap String HyperConfigSpec := ∅

/-- The errors of the reads that fail. -/
structure ReadFaults where
  get : FilterKind → String → Option String := fun _ _ => none
  list : Option String := none

inductive GetError where
  | notFound
  | failed (err : String)

inductive AdmissionRequest (S : FilterKind → Type) where
  | createChain (chain : HyperChain)
  | updateChain (chain : HyperChain)
  | deleteChain (name : String)
  | createFilter (k : FilterKind) (name : String) (spec : S k)
  | updateFilter (k : FilterKind) (name : String) (spec : S k)
  | deleteFilter (k : FilterKind) (name : String)

namespace ObjectStore

variable {S : FilterKind → Type} (s : ObjectStore S) (faults : ReadFaults)

def get (k : FilterKind) (name : String) : Except GetError Unit :=
  match faults.get k name with
  | some err => .error (.failed err)
  | none => if (s.filters k).lookup name = none then .error .notFound else .ok ()

/-- What an admitted request does; a name is created once, and only what exists is
updated or deleted. -/
def apply : AdmissionRequest S → Option (ObjectStore S)
  | .createChain chain =>
    if s.chains.lookup chain.name = none then
      some { s with chains := s.chains.insert chain.name chain.spec }
    else none
  | .updateChain chain =>
    if s.chains.lookup chain.name = none then none
    else some { s with chains := s.chains.insert chain.name chain.spec }
  | .deleteChain name =>
    if s.chains.lookup name = none then none
    else some { s with chains := s.chains.erase name }
  | .createFilter k name spec =>
    if (s.filters k).lookup name = none then
      some { s with filters := Function.update s.filters k ((s.filters k).insert name spec) }
    else none
  | .updateFilter k name spec =>
    if (s.filters k).lookup name = none then none
    else some { s with filters := Function.update s.filters k ((s.filters k).insert name spec) }
  | .deleteFilter k name =>
    if (s.filters k).lookup name = none then none
    else some { s with filters := Function.update s.filters k ((s.filters k).erase name) }

end ObjectStore

/-! ## The validators -/

section Validators

variable {S : FilterKind → Type} (s : ObjectStore S) (faults : ReadFaults)

/-- One round of `validateFilters`. The kinds of its `switch` are those of
`FilterKind.ofText`, each with the type of that name. -/
def validateReference (chainName : String) (ref : FilterReference) : Except String Unit :=
  match FilterKind.ofText ref.kind with
  | none => .error ("unknown filter kind '" ++ ref.kind ++ "' in HyperChain '" ++ chainName ++ "'")
  | some k =>
    match s.get faults k ref.name with
    | .error .notFound =>
      .error ("referenced " ++ ref.kind ++ " '" ++ ref.name
        ++ "' does not exist in the cluster")
    | .error (.failed err) =>
      .error ("failed to look up " ++ ref.kind ++ " '" ++ ref.name ++ "': " ++ err)
    | .ok () => .ok ()

namespace HyperChainValidator

/-- `validateFilters`, which is `ValidateCreate` and `ValidateUpdate`. -/
def validateFilters (chain : HyperChain) : Except String Unit :=
  chain.spec.filters.forM (validateReference s faults chain.name)

def validateDelete (name : String) : Except String Unit :=
  match faults.list with
  | some err => .error ("failed to list HyperConfigs: " ++ err)
  | none => s.hyperConfigs.toList.forM fun hc =>
    match (referencedChains hc.2).lookup name with
    | some field => .error ("cannot delete HyperChain '" ++ name
        ++ "' because it is referenced as " ++ field ++ " in HyperConfig '" ++ hc.1 ++ "'")
    | none => .ok ()

end HyperChainValidator

/-- `FilterProtectionValidator`. Creation and update are always admitted. -/
structure FilterProtectionValidator where
  kind : String

def FilterProtectionValidator.validateDelete (v : FilterProtectionValidator)
    (filterName : String) : Except String Unit :=
  match faults.list with
  | some err => .error ("failed to list HyperChains: " ++ err)
  | none => s.chains.toList.forM fun chain => chain.2.filters.forM fun ref =>
    if ref.kind = v.kind ∧ ref.name = filterName then
      .error ("cannot delete " ++ v.kind ++ " '" ++ filterName
        ++ "' because it is referenced by HyperChain '" ++ chain.1 ++ "'")
    else .ok ()

/-- `SetupFiltersWebhookWithManager`: the types with their validators. -/
def filterWebhooks : List (FilterKind × FilterProtectionValidator) :=
  [(.rateLimit, ⟨"RateLimitFilter"⟩),
    (.headerModifier, ⟨"HeaderModifierFilter"⟩),
    (.deny, ⟨"DenyFilter"⟩),
    (.correlationId, ⟨"CorrelationIdFilter"⟩),
    (.redisMetadataEnricher, ⟨"RedisMetadataEnricherFilter"⟩),
    (.apiKey, ⟨"ApiKeyFilter"⟩),
    (.externalAuth, ⟨"ExternalAuthFilter"⟩),
    (.firewall, ⟨"FirewallFilter"⟩),
    (.jwtAuth, ⟨"JwtAuthFilter"⟩),
    (.cors, ⟨"CorsFilter"⟩)]

/-- The webhook of a type, if one was registered for it. -/
def protection (k : FilterKind) : Option FilterProtectionValidator :=
  (filterWebhooks.find? fun w => decide (w.1 = k)).map Prod.snd

/-- The answer of the webhook of the request's object. -/
def validate : AdmissionRequest S → Except String Unit
  | .createChain chain => HyperChainValidator.validateFilters s faults chain
  | .updateChain chain => HyperChainValidator.validateFilters s faults chain
  | .deleteChain name => HyperChainValidator.validateDelete s faults name
  | .createFilter _ _ _ => .ok ()
  | .updateFilter _ _ _ => .ok ()
  | .deleteFilter k name =>
    match protection k with
    | some v => v.validateDelete s faults name
    | none => .ok ()

/-- A request takes effect only if it is admitted. -/
def ObjectStore.handle (request : AdmissionRequest S) : ObjectStore S :=
  match validate s faults request with
  | .error _ => s
  | .ok () => (s.apply request).getD s

end Validators

/-- Requests one after the other, on a cluster that was empty. -/
def admissionSys (S : FilterKind → Type) : TSys (ObjectStore S) (AdmissionRequest S × ReadFaults)
    where
  init s := s = {}
  step s e := some (s.handle e.2 e.1)

/-! ## The checks -/

section Checks

variable {S : FilterKind → Type} {s : ObjectStore S} {faults : ReadFaults}

/-- The filter a reference names is stored. -/
def Resolved (s : ObjectStore S) (ref : FilterReference) : Prop :=
  ∃ k, FilterKind.ofText ref.kind = some k ∧ (s.filters k).lookup ref.name ≠ none

theorem resolved_of_validateReference {chainName : String} {ref : FilterReference}
    (h : validateReference s faults chainName ref = .ok ()) : Resolved s ref := by
  unfold validateReference at h
  cases hkind : FilterKind.ofText ref.kind with
  | none =>
    rw [hkind] at h
    cases h
  | some k =>
    rw [hkind] at h
    refine ⟨k, hkind, fun hmissing => ?_⟩
    -- with or without a fault, `Get` does not find it
    unfold ObjectStore.get at h
    cases hfault : faults.get k ref.name with
    | some err => exact absurd h (by simp [hfault])
    | none => exact absurd h (by simp [hfault, hmissing])

theorem resolved_of_validateFilters {chain : HyperChain}
    (h : HyperChainValidator.validateFilters s faults chain = .ok ()) :
    ∀ ref ∈ chain.spec.filters, Resolved s ref := fun ref href =>
  resolved_of_validateReference (forM_eq_ok_iff.mp h ref href)

/-- The kind in a reference to a filter of that type. -/
def FilterKind.text : FilterKind → String
  | .rateLimit => "RateLimitFilter"
  | .headerModifier => "HeaderModifierFilter"
  | .deny => "DenyFilter"
  | .correlationId => "CorrelationIdFilter"
  | .redisMetadataEnricher => "RedisMetadataEnricherFilter"
  | .apiKey => "ApiKeyFilter"
  | .externalAuth => "ExternalAuthFilter"
  | .firewall => "FirewallFilter"
  | .jwtAuth => "JwtAuthFilter"
  | .cors => "CorsFilter"

theorem of_ite_eq_some {p : Prop} [Decidable p] {a k : FilterKind} {rest : Option FilterKind}
    (h : (if p then some a else rest) = some k) : p ∧ a = k ∨ rest = some k := by
  by_cases hp : p
  · rw [if_pos hp] at h
    exact .inl ⟨hp, Option.some.inj h⟩
  · rw [if_neg hp] at h
    exact .inr h

theorem eq_text_of_ofText {kind : String} {k : FilterKind} (h : FilterKind.ofText kind = some k) :
    kind = k.text := by
  unfold FilterKind.ofText at h
  iterate 10
    rcases of_ite_eq_some h with ⟨hkind, rfl⟩ | h
    · exact hkind
  cases h

/-- Every type is protected, under the kind that references to it have. -/
theorem filterWebhooks_kind (k : FilterKind) : protection k = some ⟨k.text⟩ := by
  cases k <;> rfl

/-- A filter that may be deleted is in no reference. -/
theorem not_referenced_of_validateDelete {k : FilterKind} {name : String}
    (h : FilterProtectionValidator.validateDelete s faults ⟨k.text⟩ name = .ok ())
    {chain : String} {spec : HyperChainSpec} (hchain : s.chains.lookup chain = some spec)
    {ref : FilterReference} (href : ref ∈ spec.filters)
    (hkind : FilterKind.ofText ref.kind = some k) : ref.name ≠ name := by
  intro hname
  unfold FilterProtectionValidator.validateDelete at h
  cases hfault : faults.list with
  | some err =>
    rw [hfault] at h
    cases h
  | none =>
    rw [hfault] at h
    have hlist := forM_eq_ok_iff.mp h (chain, spec) (AMap.mem_toList.mpr hchain)
    have hround := forM_eq_ok_iff.mp hlist ref href
    rw [if_pos ⟨eq_text_of_ofText hkind, hname⟩] at hround
    cases hround

/-! ## Requests -/

/-- Every reference of every stored chain is resolved. -/
def Referential (s : ObjectStore S) : Prop :=
  ∀ chain spec, s.chains.lookup chain = some spec → ∀ ref ∈ spec.filters, Resolved s ref

/-- A chain with resolved references may be written. -/
theorem Referential.insertChain (h : Referential s) {chain : HyperChain}
    (hchain : ∀ ref ∈ chain.spec.filters, Resolved s ref) :
    Referential { s with chains := s.chains.insert chain.name chain.spec } := by
  intro name spec hspec
  rw [AMap.lookup_insert_ite] at hspec
  split at hspec
  · cases hspec
    exact hchain
  · exact h name spec hspec

theorem Referential.eraseChain (h : Referential s) (chain : String) :
    Referential { s with chains := s.chains.erase chain } := by
  intro name spec hspec
  rw [AMap.lookup_erase_ite] at hspec
  split at hspec
  · cases hspec
  · exact h name spec hspec

/-- The filters of one kind may change if what is referred to stays. -/
theorem Referential.updateFilters (h : Referential s) {k : FilterKind} {m : AMap String (S k)}
    (hkeep : ∀ chain spec, s.chains.lookup chain = some spec → ∀ ref ∈ spec.filters,
      FilterKind.ofText ref.kind = some k → (s.filters k).lookup ref.name ≠ none →
      m.lookup ref.name ≠ none) :
    Referential { s with filters := Function.update s.filters k m } := by
  intro chain spec hspec ref href
  obtain ⟨k', hkind, hstored⟩ := h chain spec hspec ref href
  refine ⟨k', hkind, ?_⟩
  show (Function.update s.filters k m k').lookup ref.name ≠ none
  by_cases hk : k' = k
  · subst hk
    rw [Function.update_self]
    exact hkeep chain spec hspec ref href hkind hstored
  · rw [Function.update_of_ne hk]
    exact hstored

theorem lookup_insert_ne_none {V : Type} {m : AMap String V} {name name' : String}
    (v : V) (h : m.lookup name' ≠ none) : (m.insert name v).lookup name' ≠ none := by
  rw [AMap.lookup_insert_ite]
  split
  · simp
  · exact h

theorem Referential.apply (h : Referential s) {request : AdmissionRequest S}
    (hvalid : validate s faults request = .ok ()) {s' : ObjectStore S}
    (happly : s.apply request = some s') : Referential s' := by
  cases request with
  | createChain chain =>
    obtain ⟨-, ⟨⟩⟩ := Option.ite_none_right_eq_some.mp happly
    exact h.insertChain (resolved_of_validateFilters hvalid)
  | updateChain chain =>
    obtain ⟨-, ⟨⟩⟩ := Option.ite_none_left_eq_some.mp happly
    exact h.insertChain (resolved_of_validateFilters hvalid)
  | deleteChain name =>
    obtain ⟨-, ⟨⟩⟩ := Option.ite_none_left_eq_some.mp happly
    exact h.eraseChain name
  | createFilter k name spec =>
    obtain ⟨-, ⟨⟩⟩ := Option.ite_none_right_eq_some.mp happly
    exact h.updateFilters fun _ _ _ _ _ _ hstored => lookup_insert_ne_none spec hstored
  | updateFilter k name spec =>
    obtain ⟨-, ⟨⟩⟩ := Option.ite_none_left_eq_some.mp happly
    exact h.updateFilters fun _ _ _ _ _ _ hstored => lookup_insert_ne_none spec hstored
  | deleteFilter k name =>
    obtain ⟨-, ⟨⟩⟩ := Option.ite_none_left_eq_some.mp happly
    refine h.updateFilters fun chain spec hchain ref href hkind hstored => ?_
    unfold validate at hvalid
    dsimp only at hvalid
    rw [filterWebhooks_kind] at hvalid
    have hother := not_referenced_of_validateDelete hvalid hchain href hkind
    rw [AMap.lookup_erase_ite, if_neg hother]
    exact hstored

theorem Referential.handle (h : Referential s) (faults : ReadFaults)
    (request : AdmissionRequest S) : Referential (s.handle faults request) := by
  unfold ObjectStore.handle
  cases hvalid : validate s faults request with
  | error err => exact h
  | ok u =>
    cases happly : s.apply request with
    | none => exact h
    | some s' => exact h.apply hvalid happly

end Checks

theorem referential_inductive (S : FilterKind → Type) :
    (admissionSys S).Inductive (fun _ _ => True) Referential where
  init := by
    intro s hs chain spec hspec
    rw [hs] at hspec
    cases hspec
  step := by
    intro s e s' h _ hstep
    cases hstep
    exact h.handle e.2 e.1

/-- Whatever was requested of an empty cluster, every filter reference of every
stored chain names a stored filter of that kind. -/
theorem chains_resolved (S : FilterKind → Type) (s : ObjectStore S)
    (hreach : (admissionSys S).Reachable s) :
    ∀ chain spec, s.chains.lookup chain = some spec → ∀ ref ∈ spec.filters,
      ∃ k, FilterKind.ofText ref.kind = some k ∧ (s.filters k).lookup ref.name ≠ none :=
  (referential_inductive S).invariant hreach

/-! ## A chain and its filter -/

/-- A filter, a chain that refers to it, and an attempt to delete the filter. -/
def sampleRequests : List (AdmissionRequest (fun _ => Unit) × ReadFaults) :=
  [(.createFilter .cors "open" (), {}),
    (.createChain ⟨"public", { filters := [⟨"CorsFilter", "open", none⟩] }⟩, {}),
    (.deleteFilter .cors "open", {})]

def sampleStore : Option (ObjectStore fun _ => Unit) :=
  (admissionSys fun _ => Unit).run (fun _ _ => True) {} sampleRequests

theorem sampleStore_runs : sampleStore.isSome = true := rfl

theorem chains_resolved_sample :
    ((sampleStore.get sampleStore_runs).chains.lookup "public").isSome = true
      ∧ ∀ chain spec, (sampleStore.get sampleStore_runs).chains.lookup chain = some spec →
        ∀ ref ∈ spec.filters, ∃ k, FilterKind.ofText ref.kind = some k
          ∧ ((sampleStore.get sampleStore_runs).filters k).lookup ref.name ≠ none :=
  ⟨rfl, chains_resolved _ _ (.of_run rfl sampleRequests sampleStore_runs)⟩

end Hypergate.Operator
