import Hypergate.Engine.Effective
import Hypergate.Filters.ExternalAuth

/-!
# What a gRPC sidecar does to the headers (`executeGRPC` in `internal/filters/firewall`)

A firewall sidecar answers the headers of a request and then, if there is one, its body;
each reply may change request headers. A header value stands in `raw_value` or, if that is
empty, in `value`. The filter reads `value` only, and applies the last reply's changes only.

* `SidecarMutation.apply` — a mutation on the headers as the upstream gets them, first the
  set headers, then the removed ones; `SidecarMutation.net` — what it comes to at one name.
-/

namespace Hypergate.Filters

open Lib Engine Grpc

universe u

variable {V : Type u}

/-! ## Mutations -/

/-- The request headers as the upstream gets them. -/
abbrev Headers := String → Option String

/-- The names are removed. -/
def removeAll (names : List String) (headers : Headers) : Headers :=
  names.foldl (fun headers k => Function.update headers (toLower k) none) headers

/-- The headers are set, the later ones last. -/
def setAll (entries : List (String × String)) (headers : Headers) : Headers :=
  entries.foldl (fun headers e => Function.update headers (toLower e.1) (some e.2)) headers

namespace SidecarMutation

variable (m : SidecarMutation)

/-- The headers after the mutation. -/
def apply (headers : Headers) : Headers := removeAll m.removeHeaders (setAll m.setHeaders headers)

/-- What the mutation comes to at a name: nothing, a removal, or a value. -/
def net (key : String) : Option (Option String) :=
  if key ∈ m.removeHeaders.map toLower then some none
  else (m.setHeaders.reverse.find? fun e => toLower e.1 = key).map fun e => some e.2

end SidecarMutation

theorem sent_removeUpstream (names : List String) (ctx : RequestContext) :
    (removeUpstream ctx names).sent = removeAll names ctx.sent := by
  unfold removeUpstream removeAll
  induction names generalizing ctx with
  | nil => rfl
  | cons k names ih =>
    rw [List.foldl_cons, List.foldl_cons, ih]
    congr 1
    funext key
    rw [RequestContext.sent_removeHeaderUpstream, Function.update_apply]

theorem sent_setUpstream (entries : List (String × String)) (ctx : RequestContext) :
    (setUpstream ctx entries).sent = setAll entries ctx.sent := by
  unfold setUpstream setAll
  induction entries generalizing ctx with
  | nil => rfl
  | cons e entries ih =>
    rw [List.foldl_cons, List.foldl_cons, ih]
    congr 1
    funext key
    rw [RequestContext.sent_setHeaderUpstream, Function.update_apply]

theorem sent_applyMutation (m : SidecarMutation) (ctx : RequestContext) :
    (applyMutation ctx m).sent = m.apply ctx.sent := by
  unfold applyMutation SidecarMutation.apply
  rw [sent_removeUpstream, sent_setUpstream]

/-! ## Mutations on the wire -/

/-- `extprocv3.HeaderMutation`; `none` is a nil option or one without a header. -/
structure WireMutation where
  setHeaders : List (Option HeaderValue) := []
  removeHeaders : List String := []

/-- The mutation, with the values that are read from its headers. -/
def WireMutation.reading (value : HeaderValue → String) (m : WireMutation) : SidecarMutation where
  setHeaders := m.setHeaders.filterMap fun option => option.map fun h => (h.key, value h)
  removeHeaders := m.removeHeaders

/-- What a reply's mutation comes to at a name. -/
def netOf (value : HeaderValue → String) (m : Option WireMutation) (key : String) :
    Option (Option String) :=
  m.bind fun m => (m.reading value).net key

/-- The headers after a reply. -/
def applied (value : HeaderValue → String) (m : Option WireMutation) (headers : Headers) :
    Headers :=
  m.elim headers fun m => (m.reading value).apply headers

/-- Over gRPC the sidecar answers the headers with one reply and the body, if one is sent,
with another. -/
structure Talks (cfg : FirewallFilterConfig) (sc : Sidecar V) (w : Logged V)
    (ctx : RequestContext) (first second : Option WireMutation) : Prop where
  grpc : toLower cfg.protocol = "grpc"
  replies : ∃ v v₁, sc.process w.env = (v, true)
    ∧ sc.exchange v (.requestHeaders (cfg.headerValues ctx))
      = (v₁, some (.requestHeaders (first.map (WireMutation.reading HeaderValue.value))))
    ∧ ∀ bytes, cfg.sentBody ctx = some bytes → ∃ v₂, sc.exchange v₁ (.requestBody bytes)
      = (v₂, some (.requestBody (second.map (WireMutation.reading HeaderValue.value))))

section Dialogue

variable (cfg : FirewallFilterConfig) (ctx : RequestContext) (first second : Option WireMutation)

/-- The mutation of the last reply. -/
def lastReply : Option WireMutation := if (cfg.sentBody ctx).isSome then second else first

/-- What the last reply does to the name is the same read from `value` alone; and what the
reply before it does to a name that the last one does not touch leaves the header as it
was. -/
def Survives (key : String) : Prop :=
  netOf HeaderValue.value (lastReply cfg ctx first second) key
      = netOf headerValue (lastReply cfg ctx first second) key
    ∧ ((cfg.sentBody ctx).isSome = true → netOf headerValue second key = none →
      ∀ o, netOf headerValue first key = some o → o = ctx.sent key)

end Dialogue

variable {cfg : FirewallFilterConfig} {sc : Sidecar V} {w : Logged V} {ctx : RequestContext}
  {first second : Option WireMutation}

theorem sent_acceptGRPC (reply : SidecarReply) (m : Option WireMutation)
    (h : reply.mutation = m.map (WireMutation.reading HeaderValue.value)) :
    (cfg.acceptGRPC ctx reply).sent
      = removeAll cfg.onSuccess.upstreamHeadersToRemove
          (applied HeaderValue.value m ctx.sent) := by
  unfold FirewallFilterConfig.acceptGRPC
  rw [sent_removeUpstream, h]
  cases m with
  | none => rfl
  | some m => exact congrArg _ (sent_applyMutation _ ctx)

/-- The last reply's values are what the filter applies. -/
theorem Talks.sent (h : Talks cfg sc w ctx first second) :
    (cfg.inspect sc w ctx).2.1.sent
      = removeAll cfg.onSuccess.upstreamHeadersToRemove
          (applied HeaderValue.value (lastReply cfg ctx first second) ctx.sent) := by
  obtain ⟨v, v₁, hprocess, hheaders, hbody⟩ := h.replies
  unfold FirewallFilterConfig.inspect FirewallFilterConfig.executeGRPC lastReply
  rw [if_pos h.grpc, hprocess]
  dsimp only
  rw [hheaders]
  dsimp only
  cases hsent : cfg.sentBody ctx with
  | none => exact sent_acceptGRPC _ first rfl
  | some bytes =>
    obtain ⟨v₂, hreply⟩ := hbody bytes hsent
    dsimp only
    rw [hreply]
    exact sent_acceptGRPC _ second rfl

end Hypergate.Filters
