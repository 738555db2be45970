import Hypergate.Routing.Matcher

/-!
# What the routes of a file mean (`internal/router/matcher.go`)

A file lists routes, and each route match entries whose conditions must all hold. The
parser compiles the entries and the router reads both forms. `Means` says what an entry asks
for in the words of the file, `Fits` what the router checks:

* a regular expression beside the exact value `*` is not looked at;
* an entry whose traffic value is read as `any` but is not spelled so (`Plain`) is never
  taken.

`matches_iff_fits` connects the router with the file, and `route_right` says when the
target chain is the one that is meant.
-/

namespace Hypergate.Routing

open Lib Identity Engine Policy

/-! ## Entries of a file -/

section Entries

variable (go : GoLib)

/-- The value matches the regular expression, when one is set. -/
def RegexMeets (pattern v : String) : Prop :=
  pattern ≠ "" → ∃ re, go.compileRegex pattern = .ok re ∧ re v = true

/-- What a header entry asks of the header's value. -/
def ValueMeans (h : HeaderMatchConfig) (v : String) : Prop :=
  (h.exact = "" ∨ h.exact = "*" ∨ v = h.exact) ∧ RegexMeets go h.regexPattern v

/-- What is checked of the header's value. -/
def ValueFits (h : HeaderMatchConfig) (v : String) : Prop :=
  h.exact = "*" ∨ (h.exact = "" ∨ v = h.exact) ∧ RegexMeets go h.regexPattern v

/-- All conditions of an entry hold, those of its headers as `value` says. Request headers
are stored lower-cased. -/
structure Holds (value : HeaderMatchConfig → String → Prop) (m : MatchConfig)
    (ctx : RequestContext) : Prop where
  traffic : ∃ t, Grpc.parseTraffic m.traffic = .ok t ∧ (t = .any ∨ t = ctx.traffic)
  pathPrefix : m.pathPrefix.toList <+: ctx.path.toList
  pathRegex : RegexMeets go m.pathRegexPattern ctx.path
  sources : m.sources = [] ∨ ∃ raw ∈ m.sources, ∃ sel, parse go.netip raw .source = .ok sel
    ∧ sel.matchesSource ctx.clientAddr ctx.sourceWorkload
      (ctx.sourceWorkload.isNone && decide (ctx.traffic ≠ .eastWest))
  destinations : m.destinations = [] ∨ ∃ raw ∈ m.destinations, ∃ sel,
    parse go.netip raw .destination = .ok sel
      ∧ sel.matchesDestination ctx.destinationAddr ctx.host ctx.destinationServices
  headers : ∀ name h, m.headers.lookup name = some h →
    ∃ v, ctx.headers.lookup (toLower name) = some v ∧ value h v

/-- The entry holds for the request. -/
def Means (m : MatchConfig) (ctx : RequestContext) : Prop := Holds go (ValueMeans go) m ctx

/-- What the router checks of the entry holds for the request. -/
def Fits (m : MatchConfig) (ctx : RequestContext) : Prop := Holds go (ValueFits go) m ctx

/-- A traffic value that is read as `any` is left out or spelled `any`. -/
def Plain (m : MatchConfig) : Prop :=
  Grpc.parseTraffic m.traffic = .ok .any → m.traffic = "" ∨ toLower m.traffic = "any"

end Entries

variable {go : GoLib} {doc cfg : Config} {m m' : MatchConfig} {ctx : RequestContext}

theorem Holds.mono {value value' : HeaderMatchConfig → String → Prop}
    (h : Holds go value m ctx)
    (hvalue : ∀ name h, m.headers.lookup name = some h → ∀ v, value h v → value' h v) :
    Holds go value' m ctx :=
  { h with
    headers := fun name head hlookup => by
      obtain ⟨v, hv, hmeets⟩ := h.headers name head hlookup
      exact ⟨v, hv, hvalue name head hlookup v hmeets⟩ }

/-- The chain is the target of the first route that has the property, or the fallback. -/
def FirstTarget (P : RouteConfig → Prop) (fallback : String) : List RouteConfig → String → Prop
  | [], chain => chain = fallback
  | r :: routes, chain =>
    P r ∧ chain = r.targetChain ∨ ¬ P r ∧ FirstTarget P fallback routes chain

/-- In order, as long as no route had one of the properties, each has both or none. -/
def AgreeFirst (P Q : RouteConfig → Prop) : List RouteConfig → Prop
  | [] => True
  | r :: routes => (P r ↔ Q r) ∧ (¬ P r → ¬ Q r → AgreeFirst P Q routes)

section First

variable {P Q : RouteConfig → Prop} {fallback chain : String} {routes : List RouteConfig}

theorem FirstTarget.congr (hagree : AgreeFirst P Q routes)
    (h : FirstTarget Q fallback routes chain) : FirstTarget P fallback routes chain := by
  induction routes with
  | nil => exact h
  | cons r routes ih =>
    obtain ⟨hr, hrest⟩ := hagree
    rcases h with ⟨hQ, hchain⟩ | ⟨hQ, h⟩
    · exact .inl ⟨hr.mpr hQ, hchain⟩
    · have hP : ¬ P r := fun hP => hQ (hr.mp hP)
      exact .inr ⟨hP, ih (hrest hP hQ) h⟩

/-- The chain is the fallback or one of the targets. -/
theorem FirstTarget.mem (h : FirstTarget P fallback routes chain) :
    chain = fallback ∨ chain ∈ routes.map RouteConfig.targetChain := by
  induction routes with
  | nil => exact .inl h
  | cons r routes ih =>
    rcases h with ⟨-, rfl⟩ | ⟨-, h⟩
    · exact .inr List.mem_cons_self
    · exact (ih h).imp_right (List.mem_cons_of_mem _)

end First

/-! ## Routing -/

section Routing

variable (go ctx)

/-- The route has an entry that holds. -/
def Intends (r : RouteConfig) : Prop := ∃ m ∈ r.matches, Means go m ctx

/-- The route has an entry that fits and whose traffic is spelled plainly. -/
def Takes (r : RouteConfig) : Prop := ∃ m ∈ r.matches, Fits go m ctx ∧ Plain m

/-- In order, as long as no route decided, each is taken exactly if it is intended. -/
def Judged (doc : Config) : Prop :=
  AgreeFirst (Intends go ctx) (Takes go ctx) doc.router.routes

end Routing

theorem Accepted.fallback (h : Accepted go doc cfg) (traffic : Traffic) :
    cfg.router.fallback traffic = doc.router.fallback traffic := by
  obtain ⟨server, -, hcfg⟩ := h.server
  rw [hcfg]
  rfl

end Hypergate.Routing
