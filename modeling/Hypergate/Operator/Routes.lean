import Hypergate.Routing.Matcher

/-!
# HyperRoutes (`hyper-operator/internal/routes/routes.go`)

`HyperRouteSpec.compile` turns the match rules of a HyperRoute into engine match
entries, or reports every problem of the spec in one text. The selectors and the
path pattern are compiled only to see whether they can be: the entry carries their
texts, and the engine compiles them again.

`compileMatch_eq_ok_iff` says which rules are accepted and what entry comes out,
`HyperRouteSpec.compile_eq_ok_iff` which routes are, and
`compiledAs_of_compileMatch` that the engine accepts every such entry.
-/

namespace Hypergate.Operator

open Lib Engine Routing

/-- `MatchRule`. A nil header map is the empty one. -/
structure MatchRule where
  traffic : String := ""
  sources : List String := []
  destinations : List String := []
  pathPrefix : String := ""
  pathRegexPattern : String := ""
  headers : AMap String String := ∅

structure HyperRouteSpec where
  priority : Int
  targetPolicy : String
  «matches» : List MatchRule

/-- `routes.Options`: whether engines receive the identity map. -/
structure RouteOptions where
  workloads : Bool

/-- The error of a step, reworded, as a list of at most one problem. -/
def problems {α : Type} (reword : String → String) : Except String α → List String
  | .ok _ => []
  | .error e => [reword e]

/-- `errors.Join` as text. -/
def joinErrors (errs : List String) : String := "\n".intercalate errs

/-- `engineTraffic`: the CRD enum as the engine's value; `Any` is omitted. -/
def engineTraffic (t : String) : Except String String :=
  if t = "" ∨ t = "Any" then .ok ""
  else if t = "NorthSouth" then .ok "north_south"
  else if t = "EastWest" then .ok "east_west"
  else .error ("traffic: invalid value " ++ quote t ++ " (expected NorthSouth, EastWest or Any)")

/-- The engine's header conditions of a rule: lower-cased names, exact values. -/
def headerConfigs (headers : AMap String String) : AMap String HeaderMatchConfig :=
  AMap.insertAll ∅ (headers.toList.map fun e => (toLower e.1, { exact := e.2 }))

variable (go : GoLib)

/-- The regular expression of a rule, if it has one. -/
def rulePattern (m : MatchRule) : Except String Unit :=
  if m.pathRegexPattern = "" then .ok () else (go.compileRegex m.pathRegexPattern).map fun _ => ()

def compileMatch (m : MatchRule) (opts : RouteOptions) : Except String MatchConfig :=
  let traffic := engineTraffic m.traffic
  let errs := problems id traffic
    ++ problems ("sources: " ++ ·) (compile go.netip m.sources .source opts.workloads)
    ++ problems ("destinations: " ++ ·)
        (compile go.netip m.destinations .destination opts.workloads)
    ++ problems ("pathRegexPattern: " ++ ·) (rulePattern go m)
  if errs ≠ [] then .error (joinErrors errs)
  else traffic.map fun traffic =>
    { traffic
      sources := m.sources
      destinations := m.destinations
      pathPrefix := m.pathPrefix
      pathRegexPattern := m.pathRegexPattern
      headers := headerConfigs m.headers }

/-- `routes.Compile`. -/
def HyperRouteSpec.compile (spec : HyperRouteSpec) (opts : RouteOptions) :
    Except String (List MatchConfig) :=
  let results := spec.matches.zipIdx.map fun e =>
    (compileMatch go e.1 opts).mapError fun err => "matches[" ++ toString e.2 ++ "]: " ++ err
  let errs := (if spec.targetPolicy = "" then ["targetPolicy must name a HyperChain"] else [])
    ++ (if spec.matches = [] then ["matches must contain at least one entry"] else [])
    ++ results.flatMap (problems id)
  if errs ≠ [] then .error (joinErrors errs) else .ok (results.filterMap Except.toOption)

/-! ## What is accepted -/

theorem problems_eq_nil_iff {α : Type} {reword : String → String} {x : Except String α} :
    problems reword x = [] ↔ ∃ a, x = .ok a := by
  cases x with
  | error e => simp [problems]
  | ok a => simp [problems]

/-- A rule that `compileMatch` has no objection to. -/
structure RuleAccepted (workloads : Bool) (rule : MatchRule) : Prop where
  traffic : ∃ t, engineTraffic rule.traffic = .ok t
  sources : ∃ s, compile go.netip rule.sources .source workloads = .ok s
  destinations : ∃ s, compile go.netip rule.destinations .destination workloads = .ok s
  pattern : rule.pathRegexPattern ≠ "" → ∃ re, go.compileRegex rule.pathRegexPattern = .ok re

variable {go} {workloads : Bool} {rule : MatchRule} {m : MatchConfig}

theorem rulePattern_iff :
    (∃ u, rulePattern go rule = .ok u)
      ↔ (rule.pathRegexPattern ≠ "" → ∃ re, go.compileRegex rule.pathRegexPattern = .ok re) := by
  unfold rulePattern
  by_cases hp : rule.pathRegexPattern = ""
  · simp [hp]
  · rw [if_neg hp]
    cases go.compileRegex rule.pathRegexPattern with
    | error e => simp [hp, Except.map]
    | ok re => simp [Except.map]

theorem compileMatch_eq_ok_iff :
    compileMatch go rule ⟨workloads⟩ = .ok m
      ↔ RuleAccepted go workloads rule ∧ ∃ t, engineTraffic rule.traffic = .ok t
        ∧ m = { traffic := t, sources := rule.sources, destinations := rule.destinations,
                pathPrefix := rule.pathPrefix, pathRegexPattern := rule.pathRegexPattern,
                headers := headerConfigs rule.headers } := by
  have hnil : problems id (engineTraffic rule.traffic)
      ++ problems ("sources: " ++ ·) (compile go.netip rule.sources .source workloads)
      ++ problems ("destinations: " ++ ·)
          (compile go.netip rule.destinations .destination workloads)
      ++ problems ("pathRegexPattern: " ++ ·) (rulePattern go rule) = []
      ↔ RuleAccepted go workloads rule := by
    simp only [List.append_eq_nil_iff, problems_eq_nil_iff, rulePattern_iff]
    constructor
    · rintro ⟨⟨⟨ht, hs⟩, hd⟩, hp⟩
      exact ⟨ht, hs, hd, hp⟩
    · intro h
      exact ⟨⟨⟨h.traffic, h.sources⟩, h.destinations⟩, h.pattern⟩
  unfold compileMatch
  rw [guard_eq_ok_iff, ne_eq, not_not, hnil]
  refine and_congr_right fun _ => ?_
  constructor
  · intro h
    obtain ⟨t, ht, hm⟩ := of_map_eq_ok h
    exact ⟨t, ht, hm.symm⟩
  · rintro ⟨t, ht, rfl⟩
    rw [ht]
    rfl

/-- The results of a list of rules hold no problem exactly if they are the entries
of the rules, in order. -/
theorem results_eq_iff (go : GoLib) (opts : RouteOptions) (reword : Nat → String → String)
    (rules : List MatchRule) (k : Nat) (ms : List MatchConfig) :
    (((rules.zipIdx k).map fun e => (compileMatch go e.1 opts).mapError (reword e.2)).flatMap
        (problems id) = []
      ∧ ((rules.zipIdx k).map fun e =>
          (compileMatch go e.1 opts).mapError (reword e.2)).filterMap Except.toOption = ms)
      ↔ List.Forall₂ (fun r m => compileMatch go r opts = .ok m) rules ms := by
  induction rules generalizing k ms with
  | nil => simp [eq_comm]
  | cons r rules ih =>
    simp only [List.zipIdx_cons, List.map_cons, List.flatMap_cons, List.forall₂_cons_left_iff,
      List.append_eq_nil_iff]
    cases hr : compileMatch go r opts with
    | error e => simp [Except.mapError, problems]
    | ok m =>
      simp only [Except.mapError, problems, true_and, List.filterMap_cons, Except.toOption]
      constructor
      · rintro ⟨hnil, rfl⟩
        exact ⟨m, _, rfl, (ih _ _).mp ⟨hnil, rfl⟩, rfl⟩
      · rintro ⟨m', ms', hm, hrest, rfl⟩
        obtain ⟨hnil, hms⟩ := (ih (k + 1) ms').mpr hrest
        cases hm
        exact ⟨hnil, congrArg (m :: ·) hms⟩

/-- A route is accepted if it names a chain and has rules, all of them accepted. -/
theorem HyperRouteSpec.compile_eq_ok_iff {spec : HyperRouteSpec} {opts : RouteOptions}
    {ms : List MatchConfig} :
    spec.compile go opts = .ok ms
      ↔ spec.targetPolicy ≠ "" ∧ spec.matches ≠ []
        ∧ List.Forall₂ (fun r m => compileMatch go r opts = .ok m) spec.matches ms := by
  have hresults := results_eq_iff go opts
    (fun i err => "matches[" ++ toString i ++ "]: " ++ err) spec.matches 0 ms
  unfold compile
  rw [guard_eq_ok_iff, ne_eq, not_not, List.append_eq_nil_iff, List.append_eq_nil_iff,
    Except.ok.injEq, and_assoc, hresults, and_assoc]
  by_cases ht : spec.targetPolicy = ""
  · simp [ht]
  · by_cases hm : spec.matches = []
    · simp [ht, hm]
    · simp [ht, hm]

/-! ## The engine accepts the entry -/

theorem toLower_of_lookup_headerConfigs {headers : AMap String String} {key : String}
    {h : HeaderMatchConfig} (hl : (headerConfigs headers).lookup key = some h) :
    ∃ name v, headers.lookup name = some v ∧ key = toLower name ∧ h = { exact := v } := by
  unfold headerConfigs at hl
  rcases AMap.mem_of_lookup_insertAll hl with hmem | hnone
  · obtain ⟨⟨name, v⟩, hentry, heq⟩ := List.mem_map.mp hmem
    obtain ⟨rfl, rfl⟩ := Prod.mk.inj heq
    exact ⟨name, v, AMap.mem_toList.mp hentry, rfl, rfl⟩
  · cases hnone

/-- Lower-casing names that are lower-case changes nothing. -/
theorem lookup_lowered {V : Type} {m : AMap String V}
    (h : ∀ key v, m.lookup key = some v → toLower key = key) (key : String) :
    (lowered m).lookup key = m.lookup key := by
  unfold lowered
  have hlist : m.toList.map (fun e => (toLower e.1, e.2)) = m.toList.map fun e => (e.1, e.2) := by
    refine List.map_congr_left fun e he => ?_
    rw [h e.1 e.2 (AMap.mem_toList.mp he)]
  rw [hlist, AMap.lookup_insertAll_toList (fun _ v => v), Option.map_id']

theorem lookup_lowered_headerConfigs (headers : AMap String String) (key : String) :
    (lowered (headerConfigs headers)).lookup key = (headerConfigs headers).lookup key := by
  refine lookup_lowered (fun key h hl => ?_) key
  obtain ⟨name, v, -, rfl, -⟩ := toLower_of_lookup_headerConfigs hl
  exact toLower_toLower name

/-- The three values `engineTraffic` writes, and how the engine reads them. -/
theorem engineTraffic_eq_ok {traffic t : String} (h : engineTraffic traffic = .ok t) :
    (traffic = "" ∨ traffic = "Any") ∧ t = "" ∧ Grpc.parseTraffic t = .ok .any
      ∨ traffic = "NorthSouth" ∧ t = "north_south" ∧ Grpc.parseTraffic t = .ok .northSouth
      ∨ traffic = "EastWest" ∧ t = "east_west" ∧ Grpc.parseTraffic t = .ok .eastWest := by
  unfold engineTraffic at h
  by_cases hany : traffic = "" ∨ traffic = "Any"
  · rw [if_pos hany] at h
    cases h
    exact .inl ⟨hany, rfl, rfl⟩
  · rw [if_neg hany] at h
    by_cases hns : traffic = "NorthSouth"
    · rw [if_pos hns] at h
      cases h
      exact .inr (.inl ⟨hns, rfl, rfl⟩)
    · rw [if_neg hns] at h
      by_cases hew : traffic = "EastWest"
      · rw [if_pos hew] at h
        cases h
        exact .inr (.inr ⟨hew, rfl, rfl⟩)
      · rw [if_neg hew] at h
        cases h

/-- The engine accepts the entry of every accepted rule. -/
theorem compiledAs_of_compileMatch (h : compileMatch go rule ⟨workloads⟩ = .ok m)
    (route : String) (j : Nat) : ∃ m', CompiledAs go workloads route j m m' := by
  obtain ⟨haccepted, t, ht, rfl⟩ := compileMatch_eq_ok_iff.mp h
  obtain ⟨compiledTraffic, htraffic⟩ : ∃ c, Grpc.parseTraffic t = .ok c := by
    rcases engineTraffic_eq_ok ht with ⟨-, -, hc⟩ | ⟨-, -, hc⟩ | ⟨-, -, hc⟩
    · exact ⟨_, hc⟩
    · exact ⟨_, hc⟩
    · exact ⟨_, hc⟩
  obtain ⟨compiledSources, hsources⟩ := haccepted.sources
  obtain ⟨compiledDestinations, hdestinations⟩ := haccepted.destinations
  obtain ⟨headers, hheaders⟩ : ∃ headers, (lowered (headerConfigs rule.headers)).mapExcept
      (compileHeader go route j) = .ok headers := by
    refine AMap.mapExcept_isOk fun key h hl => ⟨h, ?_⟩
    rw [lookup_lowered_headerConfigs] at hl
    obtain ⟨-, v, -, -, rfl⟩ := toLower_of_lookup_headerConfigs hl
    rfl
  obtain ⟨compiledPathRegex, hpath⟩ : ∃ o : Option (String → Bool),
      rule.pathRegexPattern = "" ∧ o = none
        ∨ rule.pathRegexPattern ≠ ""
          ∧ ∃ re, go.compileRegex rule.pathRegexPattern = .ok re ∧ o = some re := by
    by_cases hp : rule.pathRegexPattern = ""
    · exact ⟨none, .inl ⟨hp, rfl⟩⟩
    · obtain ⟨re, hre⟩ := haccepted.pattern hp
      exact ⟨some re, .inr ⟨hp, re, hre, rfl⟩⟩
  exact ⟨⟨t, rule.sources, rule.destinations, compiledTraffic, compiledSources,
    compiledDestinations, rule.pathPrefix, rule.pathRegexPattern, compiledPathRegex, headers⟩,
    htraffic, hsources, hdestinations, hpath, hheaders, rfl⟩

end Hypergate.Operator
