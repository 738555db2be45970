import Hypergate.Routing.SelectorSet

/-!
# A list of selectors is the alternatives in it (`internal/selector/selector.go`)

A list is compiled into indexes by kind, and `MatchSource` and `MatchDestination` go
through these with early returns. What they compute depends on the entries of the list
only, not on their order or number.

* `Query` — a question to either function, so that both sides are one statement.
-/

namespace Hypergate.Routing

open Lib Identity

/-- What is asked of a compiled list: about a caller, or about a target. -/
inductive Query where
  | source (addr : Addr) (w : Option Workload) (externalAllowed : Bool)
  | destination (addr : Addr) (host : String) (services : List String)

namespace Query

def side : Query → Side
  | source _ _ _ => .source
  | destination _ _ _ => .destination

/-- `MatchSource` or `MatchDestination` on a compiled list. -/
def holds : Query → Option SelectorSet → Bool
  | source addr w externalAllowed, set => SelectorSet.matchSource set addr w externalAllowed
  | destination addr host services, set => SelectorSet.matchDestination set addr host services

/-- What is asked for is named by the selector. -/
def meets : Query → Selector → Prop
  | source addr w externalAllowed, sel => sel.matchesSource addr w externalAllowed
  | destination addr host services, sel => sel.matchesDestination addr host services

end Query

section Laws

variable {netip : Netip} {side : Side} {allowWorkloads : Bool} {list : List String}
  {set : Option SelectorSet}

theorem compile_isOk_iff :
    (∃ set, compile netip list side allowWorkloads = .ok set)
      ↔ ∀ raw ∈ list, ∃ sel, Accepts netip side allowWorkloads raw sel := by
  constructor
  · rintro ⟨set, hset⟩ raw hraw
    obtain ⟨sels, hsels, -⟩ := compile_spec.mp hset
    obtain ⟨i, hi⟩ := List.mem_iff_getElem?.mp hraw
    obtain ⟨sel, -, haccept⟩ := getElem?_of_forall₂ hsels hi
    exact ⟨sel, haccept⟩
  · intro h
    obtain ⟨sels, hsels⟩ := exists_forall₂ h
    exact ⟨_, compile_spec.mpr ⟨sels, hsels, rfl⟩⟩

/-- Every entry of an accepted list is a list that is accepted. -/
theorem compile_entry (h : compile netip list side allowWorkloads = .ok set) {raw : String}
    (hraw : raw ∈ list) : ∃ one, compile netip [raw] side allowWorkloads = .ok one := by
  rw [compile_isOk_iff]
  intro raw' hraw'
  rw [List.mem_singleton.mp hraw']
  exact compile_isOk_iff.mp ⟨set, h⟩ raw hraw

theorem Query.holds_iff (q : Query)
    (h : compile netip list side allowWorkloads = .ok set) :
    q.holds set = true
      ↔ list = [] ∨ ∃ raw ∈ list, ∃ sel, parse netip raw side = .ok sel ∧ q.meets sel := by
  cases q with
  | source addr w externalAllowed => exact matchSource_compile h
  | destination addr host services => exact matchDestination_compile h

/-- A set matches exactly if that of a single entry does; adding entries never takes a
match away; and neither the order of the entries nor how often they are repeated matters. -/
theorem selectors_are_alternatives (q : Query)
    (h : compile netip list q.side allowWorkloads = .ok set) (hne : list ≠ []) :
    (q.holds set = true ↔ ∃ raw ∈ list, ∃ one,
        compile netip [raw] q.side allowWorkloads = .ok one ∧ q.holds one = true)
      ∧ (∀ list' set', compile netip list' q.side allowWorkloads = .ok set' → list ⊆ list' →
          q.holds set = true → q.holds set' = true)
      ∧ ∀ list', (∀ raw, raw ∈ list' ↔ raw ∈ list) →
          ∃ set', compile netip list' q.side allowWorkloads = .ok set'
            ∧ q.holds set' = q.holds set := by
  have hset : q.holds set = true
      ↔ ∃ raw ∈ list, ∃ sel, parse netip raw q.side = .ok sel ∧ q.meets sel := by
    rw [q.holds_iff h]
    exact or_iff_right hne
  refine ⟨?_, ?_, ?_⟩
  · rw [hset]
    constructor
    · rintro ⟨raw, hraw, sel, hsel, hmeets⟩
      obtain ⟨one, hone⟩ := compile_entry h hraw
      refine ⟨raw, hraw, one, hone, (q.holds_iff hone).mpr (.inr ?_)⟩
      exact ⟨raw, List.mem_singleton_self raw, sel, hsel, hmeets⟩
    · rintro ⟨raw, hraw, one, hone, hholds⟩
      rcases (q.holds_iff hone).mp hholds with hnil | ⟨raw', hraw', sel, hsel, hmeets⟩
      · cases hnil
      · rw [List.mem_singleton.mp hraw'] at hsel
        exact ⟨raw, hraw, sel, hsel, hmeets⟩
  · intro list' set' hset' hsub hholds
    obtain ⟨raw, hraw, sel, hsel, hmeets⟩ := hset.mp hholds
    exact (q.holds_iff hset').mpr (.inr ⟨raw, hsub hraw, sel, hsel, hmeets⟩)
  · intro list' hsame
    have haccept : ∀ raw ∈ list', ∃ sel, Accepts netip q.side allowWorkloads raw sel :=
      fun raw hraw => compile_isOk_iff.mp ⟨set, h⟩ raw ((hsame raw).mp hraw)
    obtain ⟨set', hset'⟩ := compile_isOk_iff.mpr haccept
    have hne' : list' ≠ [] := by
      obtain ⟨raw, hraw⟩ := List.exists_mem_of_ne_nil list hne
      exact List.ne_nil_of_mem ((hsame raw).mpr hraw)
    refine ⟨set', hset', ?_⟩
    rw [Bool.eq_iff_iff, hset, q.holds_iff hset', or_iff_right hne']
    simp only [hsame]

end Laws

/-- Network addresses that are never read. -/
def noNetip : Netip where
  parseAddr _ := none
  parsePrefix _ := none
  prefixString _ := ""

theorem selectors_are_alternatives_target :
    (Query.destination .zero "a.example.com" ["prod/web"]).holds
      (some { suffixes := [".example.org"], namespaces := ["prod"] }) = true
    ∧ ∃ raw ∈ ["host:*.example.org", "namespace:prod"], ∃ one,
      compile noNetip [raw] .destination true = .ok one
        ∧ (Query.destination .zero "a.example.com" ["prod/web"]).holds one = true := by
  have hholds : (Query.destination .zero "a.example.com" ["prod/web"]).holds
      (some { suffixes := [".example.org"], namespaces := ["prod"] }) = true := by decide
  have hcompile : compile noNetip ["host:*.example.org", "namespace:prod"] .destination true
      = .ok (some { suffixes := [".example.org"], namespaces := ["prod"] }) := rfl
  exact ⟨hholds, (selectors_are_alternatives (.destination .zero "a.example.com" ["prod/web"])
    hcompile (by simp)).1.mp hholds⟩

end Hypergate.Routing
