import Hypergate.Routing.ParseBytes

/-!
# The router (`internal/router/matcher.go`)

`RouteWith` walks the routes in order and takes the target of the first one with
a match entry that holds; without one it falls back by traffic class. Beside the
chain name it leaves the name of the rule in the context.

`matches_iff` says what an entry asks of a request, once `parseMatch` has
compiled it.
-/

namespace Hypergate.Routing

open Lib Identity Engine Policy

/-- `trafficMatches`: a traffic value that was never compiled must not widen the
match. -/
def MatchConfig.trafficMatches (m : MatchConfig) (traffic : Traffic) : Bool :=
  if m.compiledTraffic ≠ .any then m.compiledTraffic = traffic
  else m.traffic = "" || toLower m.traffic = "any"

/-- The loop body over the headers of an entry. -/
def headerMatches (ctx : RequestContext) (key : String) (h : HeaderMatchConfig) : Bool :=
  match ctx.headers.lookup key with
  | none => false
  | some v =>
    if h.exact = "*" then true
    else if h.exact ≠ "" ∧ v ≠ h.exact then false
    else h.compiledRegex.all fun re => re v

/-- `matches`: every condition of one match entry holds. -/
def MatchConfig.matches (m : MatchConfig) (ctx : RequestContext) : Bool :=
  if !m.trafficMatches ctx.traffic then false
  else if m.pathPrefix ≠ "" ∧ !m.pathPrefix.toList.isPrefixOf ctx.path.toList then false
  else if !m.compiledPathRegex.all (fun re => re ctx.path) then false
  -- selectors that were never compiled must not widen the match
  else if !m.sources.isEmpty && m.compiledSources.isNone ||
      !m.destinations.isEmpty && m.compiledDestinations.isNone then false
  else
    let externalOK := ctx.sourceWorkload.isNone && decide (ctx.traffic ≠ .eastWest)
    if !SelectorSet.matchSource m.compiledSources ctx.clientAddr ctx.sourceWorkload externalOK then
      false
    else if !SelectorSet.matchDestination m.compiledDestinations ctx.destinationAddr ctx.host
        ctx.destinationServices then false
    else m.headers.toList.all fun e => headerMatches ctx e.1 e.2

/-- `defaultChain`. -/
def RouterConfig.fallback (rc : RouterConfig) (traffic : Traffic) : String :=
  let byClass := match traffic with
    | .northSouth => rc.defaultChains.northSouth
    | .eastWest => rc.defaultChains.eastWest
    | .any => ""
  if byClass ≠ "" then byClass else if rc.defaultChain ≠ "" then rc.defaultChain else rc.other

/-- `RouteWith`: the chain name and, if a rule matched, the rule's name. -/
def RouterConfig.routeWith (rc : RouterConfig) (ctx : RequestContext) : String × Option String :=
  match rc.routes.find? fun route => route.matches.any (·.matches ctx) with
  | some route => (route.targetChain, some route.name)
  | none => (rc.fallback ctx.traffic, none)

/-! ## What a compiled entry asks for -/

/-- The request meets one header condition. -/
def HeaderMeets (ctx : RequestContext) (key : String) (h : HeaderMatchConfig) : Prop :=
  ∃ v, ctx.headers.lookup key = some v
    ∧ (h.exact = "*" ∨ (h.exact = "" ∨ v = h.exact) ∧ ∀ re, h.compiledRegex = some re → re v = true)

theorem headerMatches_iff {ctx : RequestContext} {key : String} {h : HeaderMatchConfig} :
    headerMatches ctx key h = true ↔ HeaderMeets ctx key h := by
  unfold headerMatches HeaderMeets
  cases ctx.headers.lookup key with
  | none => simp
  | some v =>
    dsimp only
    by_cases hstar : h.exact = "*"
    · simp [hstar]
    · by_cases hexact : h.exact ≠ "" ∧ v ≠ h.exact
      · rw [if_neg hstar, if_pos hexact]
        simp [hstar, hexact.1, hexact.2]
      · rw [if_neg hstar, if_neg hexact]
        have hor : h.exact = "" ∨ v = h.exact := by
          by_cases hempty : h.exact = ""
          · exact .inl hempty
          · exact .inr (by_contra fun hne => hexact ⟨hempty, hne⟩)
        simp [hstar, hor, Option.all_eq_true]

theorem guard_iff {a b : Bool} :
    (if (!a) = true then false else b) = true ↔ a = true ∧ b = true := by
  cases a <;> simp

theorem matches_iff {m : MatchConfig} {ctx : RequestContext} :
    m.matches ctx = true
      ↔ m.trafficMatches ctx.traffic = true
        ∧ m.pathPrefix.toList <+: ctx.path.toList
        ∧ (∀ re, m.compiledPathRegex = some re → re ctx.path = true)
        ∧ (m.sources = [] ∨ m.compiledSources ≠ none)
        ∧ (m.destinations = [] ∨ m.compiledDestinations ≠ none)
        ∧ SelectorSet.matchSource m.compiledSources ctx.clientAddr ctx.sourceWorkload
            (ctx.sourceWorkload.isNone && decide (ctx.traffic ≠ .eastWest)) = true
        ∧ SelectorSet.matchDestination m.compiledDestinations ctx.destinationAddr ctx.host
            ctx.destinationServices = true
        ∧ ∀ key h, m.headers.lookup key = some h → HeaderMeets ctx key h := by
  have hprefix : ∀ b,
      (if m.pathPrefix ≠ "" ∧ (!m.pathPrefix.toList.isPrefixOf ctx.path.toList) = true
      then false else b) = true ↔ m.pathPrefix.toList <+: ctx.path.toList ∧ b = true := by
    intro b
    by_cases hempty : m.pathPrefix = ""
    · simp [hempty]
    · by_cases hpre : m.pathPrefix.toList <+: ctx.path.toList <;> simp [hempty, hpre]
  have hcompiled : ∀ b, (if (!m.sources.isEmpty && m.compiledSources.isNone ||
        !m.destinations.isEmpty && m.compiledDestinations.isNone) = true then false else b) = true
      ↔ (m.sources = [] ∨ m.compiledSources ≠ none)
        ∧ (m.destinations = [] ∨ m.compiledDestinations ≠ none) ∧ b = true := by
    intro b
    cases m.sources <;> cases m.compiledSources <;> cases m.destinations <;>
      cases m.compiledDestinations <;> simp
  have hheaders : (m.headers.toList.all fun e => headerMatches ctx e.1 e.2) = true
      ↔ ∀ key h, m.headers.lookup key = some h → HeaderMeets ctx key h := by
    rw [List.all_eq_true]
    constructor
    · intro hall key h hlookup
      exact headerMatches_iff.mp (hall (key, h) (AMap.mem_toList.mpr hlookup))
    · intro hall e he
      exact headerMatches_iff.mpr (hall e.1 e.2 (AMap.mem_toList.mp he))
  unfold MatchConfig.matches
  rw [guard_iff, hprefix, guard_iff, hcompiled]
  rw [guard_iff, guard_iff, hheaders, Option.all_eq_true]

end Hypergate.Routing
