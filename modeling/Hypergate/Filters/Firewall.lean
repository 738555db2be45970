import Hypergate.Engine.Executor

/-!
# The firewall filter (`internal/filters/firewall/firewall.go`)

The filter asks its sidecar about a request once: with the headers, or, when
bodies are inspected and the request has one, with headers and body together.
In the second case the headers phase only asks Envoy for the body.

What the sidecar call does (`inspect`) is a parameter.
-/

namespace Hypergate.Filters

open Engine

universe u

variable {W : Type u}

/-- `FirewallFilter`: the part of its configuration that `Execute` reads, and
`inspect`. -/
structure FirewallFilter (W : Type u) where
  inspectBody : Bool
  inspect : W → RequestContext → W × RequestContext × Option String

namespace FirewallFilter

def supportedPhases (f : FirewallFilter W) : List Phase :=
  if f.inspectBody then [.requestHeaders, .requestBody] else [.requestHeaders]

def execute (f : FirewallFilter W) (w : W) (ctx : RequestContext) :
    W × RequestContext × Option String :=
  if f.inspectBody && !ctx.requestEndOfStream && decide (ctx.phase = .requestHeaders) then
    (w, { ctx with requestBodyRequired := true }, none)
  else if decide (ctx.phase = .requestBody) && (!f.inspectBody || ctx.requestEndOfStream) then
    -- already inspected with the headers
    (w, ctx, none)
  else f.inspect w ctx

/-- The filter as a chain sees it. -/
def toFilter (f : FirewallFilter W) : Engine.Filter W where
  supportedPhases := some f.supportedPhases
  execute := f.execute

/-- What `Execute` keeps, if the sidecar call keeps it and asking for the body
does. -/
theorem execute_keeps (f : FirewallFilter W) {P : RequestContext → Prop}
    (hrequire : ∀ ctx, P ctx → P { ctx with requestBodyRequired := true })
    (hinspect : ∀ w ctx, P ctx → P (f.inspect w ctx).2.1) (w : W) {ctx : RequestContext}
    (h : P ctx) : P (f.toFilter.execute w ctx).2.1 := by
  show P (f.execute w ctx).2.1
  unfold execute
  split
  · exact hrequire ctx h
  · split
    · exact h
    · exact hinspect w ctx h

end FirewallFilter

end Hypergate.Filters
