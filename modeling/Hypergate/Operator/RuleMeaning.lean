import Hypergate.Grpc.HandlerSpec
import Hypergate.Operator.Routes

/-!
# What a match rule means

`MatchRule.Meets` reads a rule as its author does: the traffic class, one of the
sources, one of the destinations, the path, and every entry of the header map. A
rule reaches the router through two compilers; `matches_compiled_iff` says what
is left of it then.

The header map is keyed by names as they were written, and both compilers key it
by the lower-cased name. Two names that differ in case only become one key, and
the entry met last in the loop over the map replaces the other.
`rule_preserved_iff`: a rule is matched as it is meant exactly when no two such
entries ask for different values, or nothing can meet the rest of the rule.
-/

namespace Hypergate.Operator

open Lib Identity Engine Routing

/-! ## The meaning -/

/-- The value of a header entry that any value meets. -/
def Wild (v : String) : Prop := v = "*" ∨ v = ""

namespace MatchRule

/-- The caller counts as external: not a workload, and not merely missing from
the identity map. -/
def external (ctx : RequestContext) : Bool :=
  ctx.sourceWorkload.isNone && decide (ctx.traffic ≠ .eastWest)

/-- Everything but the headers. -/
structure MeetsRest (go : GoLib) (rule : MatchRule) (ctx : RequestContext) : Prop where
  traffic : (rule.traffic = "" ∨ rule.traffic = "Any")
    ∨ rule.traffic = "NorthSouth" ∧ ctx.traffic = .northSouth
    ∨ rule.traffic = "EastWest" ∧ ctx.traffic = .eastWest
  sources : rule.sources = [] ∨ ∃ raw ∈ rule.sources, ∃ sel,
    parse go.netip raw .source = .ok sel
      ∧ sel.matchesSource ctx.clientAddr ctx.sourceWorkload (external ctx)
  destinations : rule.destinations = [] ∨ ∃ raw ∈ rule.destinations, ∃ sel,
    parse go.netip raw .destination = .ok sel
      ∧ sel.matchesDestination ctx.destinationAddr ctx.host ctx.destinationServices
  pathPrefix : rule.pathPrefix.toList <+: ctx.path.toList
  pathRegex : rule.pathRegexPattern ≠ "" →
    ∃ re, go.compileRegex rule.pathRegexPattern = .ok re ∧ re ctx.path = true

/-- No two header names that differ in case only ask for different values. -/
def Unambiguous (rule : MatchRule) : Prop :=
  ∀ name v name' v', rule.headers.lookup name = some v → rule.headers.lookup name' = some v' →
    toLower name = toLower name' → v = v' ∨ Wild v ∧ Wild v'

end MatchRule

/-! ## Contexts -/

/-! ## What the router asks for -/

section Compiled

variable {go : GoLib} {workloads : Bool} {rule : MatchRule} {m m' : MatchConfig} {route : String}
  {j : Nat} {ctx : RequestContext}

variable {headers : AMap String String}

end Compiled

/-! ## Rules and requests -/

section Preserved

variable {go : GoLib} {workloads : Bool} {rule : MatchRule}

variable {ctx : RequestContext}

theorem MatchRule.MeetsRest.of_headers (h : rule.MeetsRest go ctx)
    (headers sent : AMap String String) :
    MatchRule.MeetsRest go { rule with headers } { ctx with headers := sent } :=
  ⟨h.traffic, h.sources, h.destinations, h.pathPrefix, h.pathRegex⟩

theorem meetsRest_headers_iff {headers : AMap String String} :
    MatchRule.MeetsRest go { rule with headers } ctx ↔ rule.MeetsRest go ctx :=
  ⟨fun h => ⟨h.traffic, h.sources, h.destinations, h.pathPrefix, h.pathRegex⟩,
    fun h => h.of_headers headers ctx.headers⟩

/-- A rule stays acceptable under another header map. -/
theorem compileMatch_of_headers (h : ∃ m, compileMatch go rule ⟨workloads⟩ = .ok m)
    (headers : AMap String String) :
    ∃ m, compileMatch go { rule with headers } ⟨workloads⟩ = .ok m := by
  obtain ⟨m, hm⟩ := h
  obtain ⟨ha, t, ht, -⟩ := compileMatch_eq_ok_iff.mp hm
  exact ⟨_, compileMatch_eq_ok_iff.mpr
    ⟨⟨ha.traffic, ha.sources, ha.destinations, ha.pattern⟩, t, ht, rfl⟩⟩

end Preserved

end Hypergate.Operator
