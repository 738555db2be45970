import Hypergate.Filters.Firewall
import Hypergate.Filters.Sidecar

/-!
# Asking the firewall sidecar (`inspect` in `internal/filters/firewall/firewall.go`)

The sidecar speaks gRPC (the ext_proc protocol itself) or HTTP. Over gRPC the
filter opens a stream, sends the headers, waits for the reply, and does the same
with the body if it inspects bodies and there is one. Over HTTP it replays the
request. Whatever goes wrong blocks the request.

* `inspect_asked` — the request is blocked, or exactly one call was made, with
  the body cut to its limit, and the sidecar accepted it.
* `execute_firewall` — the same for `Execute`: the phase it asks in
  (`phaseFor`) depends on whether bodies are inspected and the request has one.
-/

namespace Hypergate.Filters

open Lib Engine

universe u

variable {V : Type u}

structure AuthSuccessRules where
  upstreamHeadersToAdd : List String := []
  upstreamHeadersToRemove : List String := []

structure AuthFailureRules where
  downstreamPassThroughHeaders : List String := []

/-- `FirewallFilterConfig`, the fields read after parsing, which leaves a
positive `max_body_size_kb`. -/
structure FirewallFilterConfig where
  protocol : String := "grpc"
  inspectBody : Bool := false
  maxBodySizeKB : Nat := 1024
  forwardHeaders : List String := []
  onSuccess : AuthSuccessRules := {}
  onFailure : AuthFailureRules := {}

/-- `ctx.Blocked = true` with the engine's own error. -/
def internalError (ctx : RequestContext) : RequestContext :=
  ctx.block 500 "Internal Server Error"

/-- `SetHeaderDownstream` for every header of a list. -/
def setDownstream (ctx : RequestContext) (headers : List (String × String)) : RequestContext :=
  headers.foldl (fun ctx h => ctx.setHeaderDownstream h.1 h.2) ctx

/-- `SetHeaderUpstream` for every header of a list. -/
def setUpstream (ctx : RequestContext) (headers : List (String × String)) : RequestContext :=
  headers.foldl (fun ctx h => ctx.setHeaderUpstream h.1 h.2) ctx

/-- `RemoveHeaderUpstream` for every header of a list. -/
def removeUpstream (ctx : RequestContext) (names : List String) : RequestContext :=
  names.foldl (fun ctx k => ctx.removeHeaderUpstream k) ctx

/-- An `ImmediateResponse` of the sidecar. -/
def immediateReply (ctx : RequestContext) (status : Int) (headers : Option SidecarMutation)
    (body : String) : RequestContext :=
  setDownstream (ctx.block (if status ≠ 0 then status else 403) body)
    (headers.elim [] (·.setHeaders))

/-- The header mutation of a reply, first the set headers, then the removed
ones. -/
def applyMutation (ctx : RequestContext) (m : SidecarMutation) : RequestContext :=
  removeUpstream (setUpstream ctx m.setHeaders) m.removeHeaders

/-- The header mutation a reply carries. -/
def SidecarReply.mutation : SidecarReply → Option SidecarMutation
  | requestHeaders m => m
  | requestBody m => m
  | _ => none

namespace FirewallFilterConfig

variable (cfg : FirewallFilterConfig)

/-- The body that goes to the sidecar, if one does. -/
def sentBody (ctx : RequestContext) : Option (List UInt8) :=
  if cfg.inspectBody && !ctx.requestBody.isEmpty then
    some (ctx.requestBody.take (cfg.maxBodySizeKB * 1024))
  else none

/-- `headerValues` of `executeGRPC`. -/
def headerValues (ctx : RequestContext) : List (String × String) :=
  [(":path", ctx.path), (":method", ctx.method)]
    ++ ([":authority", ":scheme"].map fun k => (k, ctx.headers.getD k "")).filter
        (fun h => h.2 ≠ "")
    ++ (selectHeaders ctx cfg.forwardHeaders).toList

/-- The end of `executeGRPC`: the last reply's mutation and the configured
removals. -/
def acceptGRPC (ctx : RequestContext) (resp : SidecarReply) : RequestContext :=
  removeUpstream (resp.mutation.elim ctx (applyMutation ctx)) cfg.onSuccess.upstreamHeadersToRemove

def executeGRPC (sc : Sidecar V) (w : Logged V) (ctx : RequestContext) :
    Logged V × RequestContext × Option String :=
  let call (body : Option (List UInt8)) (verdict : Verdict) : SidecarCall :=
    { phase := ctx.phase, body, verdict }
  match sc.process w.env with
  | (v, false) => (w.record v (call none .failed), internalError ctx, none)
  | (v, true) =>
    match sc.exchange v (.requestHeaders (cfg.headerValues ctx)) with
    | (v, none) => (w.record v (call none .failed), internalError ctx, none)
    | (v, some (.immediate status headers body)) =>
      (w.record v (call none .refused), immediateReply ctx status headers body, none)
    | (v, some resp) =>
      match cfg.sentBody ctx with
      | none => (w.record v (call none .accepted), cfg.acceptGRPC ctx resp, none)
      | some bytes =>
        match sc.exchange v (.requestBody bytes) with
        | (v, none) => (w.record v (call (some bytes) .failed), internalError ctx, none)
        | (v, some (.immediate status headers body)) =>
          (w.record v (call (some bytes) .refused), immediateReply ctx status headers body, none)
        -- the reply to the headers is dropped
        | (v, some resp) =>
          (w.record v (call (some bytes) .accepted), cfg.acceptGRPC ctx resp, none)

/-- The method `executeHTTP` sends. -/
def httpMethod (ctx : RequestContext) : String := if ctx.method = "" then "GET" else ctx.method

/-- The path `executeHTTP` sends. -/
def httpPath (ctx : RequestContext) : String :=
  if ctx.path.startsWith "/" then ctx.path else "/" ++ ctx.path

/-- The request `executeHTTP` sends. -/
def httpRequest (ctx : RequestContext) : HttpRequest :=
  let req := setForwardedRequest
    (setHTTPHeaders { method := httpMethod ctx, path := httpPath ctx, body := cfg.sentBody ctx }
      (selectHeaders ctx cfg.forwardHeaders)) ctx
  let host := ctx.headers.getD ":authority" ""
  if host ≠ "" then { req with host } else req

/-- The first value of each listed header that a response has. -/
def listedHeaders (resp : HttpResponse) (names : List String) : List (String × String) :=
  names.filterMap fun k =>
    ((resp.header.lookup (canonicalHeaderKey k)).bind List.head?).map fun v => (k, v)

/-- A 2xx reply. -/
def acceptHTTP (ctx : RequestContext) (resp : HttpResponse) : RequestContext :=
  removeUpstream (setUpstream ctx (listedHeaders resp cfg.onSuccess.upstreamHeadersToAdd))
    cfg.onSuccess.upstreamHeadersToRemove

def executeHTTP (sc : Sidecar V) (w : Logged V) (ctx : RequestContext) :
    Logged V × RequestContext × Option String :=
  let call (verdict : Verdict) : SidecarCall :=
    { phase := ctx.phase, body := cfg.sentBody ctx, verdict }
  if !sc.newRequest (httpMethod ctx) (httpPath ctx) then (w, internalError ctx, none)
  else match sc.roundTrip w.env (cfg.httpRequest ctx) with
    | (v, none) => (w.record v (call .failed), internalError ctx, none)
    | (v, some resp) =>
      if 200 ≤ resp.statusCode ∧ resp.statusCode < 300 then
        (w.record v (call .accepted), cfg.acceptHTTP ctx resp, none)
      else
        (w.record v (call .refused),
          setDownstream (ctx.block resp.statusCode resp.body)
            (listedHeaders resp cfg.onFailure.downstreamPassThroughHeaders), none)

def inspect (sc : Sidecar V) (w : Logged V) (ctx : RequestContext) :
    Logged V × RequestContext × Option String :=
  if toLower cfg.protocol = "grpc" then cfg.executeGRPC sc w ctx else cfg.executeHTTP sc w ctx

/-- The filter, calling its sidecar. -/
def firewall (sc : Sidecar V) : FirewallFilter (Logged V) where
  inspectBody := cfg.inspectBody
  inspect := cfg.inspect sc

end FirewallFilterConfig

/-! ## What a call leaves -/

/-- Only pending header changes. -/
structure Edits (ctx ctx' : RequestContext) : Prop where
  same : SameRequest ctx ctx'
  blocked : ctx'.blocked = ctx.blocked

namespace Edits

theorem refl (ctx : RequestContext) : Edits ctx ctx := ⟨.refl ctx, rfl⟩

theorem trans {a b c : RequestContext} (hab : Edits a b) (hbc : Edits b c) : Edits a c :=
  ⟨hab.same.trans hbc.same, hbc.blocked.trans hab.blocked⟩

theorem foldl {α : Type} {step : RequestContext → α → RequestContext}
    (hstep : ∀ ctx a, Edits ctx (step ctx a)) (l : List α) (ctx : RequestContext) :
    Edits ctx (l.foldl step ctx) := by
  induction l generalizing ctx with
  | nil => exact refl ctx
  | cons a l ih => exact (hstep ctx a).trans (ih _)

theorem setDownstream (ctx : RequestContext) (headers : List (String × String)) :
    Edits ctx (Filters.setDownstream ctx headers) := by
  unfold Filters.setDownstream
  apply foldl
  intro ctx h
  exact ⟨⟨rfl, rfl, rfl, rfl, id⟩, rfl⟩

theorem setUpstream (ctx : RequestContext) (headers : List (String × String)) :
    Edits ctx (Filters.setUpstream ctx headers) := by
  unfold Filters.setUpstream
  apply foldl
  intro ctx h
  exact ⟨⟨rfl, rfl, rfl, rfl, id⟩, rfl⟩

theorem removeUpstream (ctx : RequestContext) (names : List String) :
    Edits ctx (Filters.removeUpstream ctx names) := by
  unfold Filters.removeUpstream
  apply foldl
  intro ctx h
  exact ⟨⟨rfl, rfl, rfl, rfl, id⟩, rfl⟩

theorem applyMutation (ctx : RequestContext) (m : SidecarMutation) :
    Edits ctx (Filters.applyMutation ctx m) :=
  (setUpstream ctx m.setHeaders).trans (removeUpstream _ m.removeHeaders)

end Edits

namespace FirewallFilterConfig

variable {cfg : FirewallFilterConfig}

theorem acceptGRPC_edits (ctx : RequestContext) (resp : SidecarReply) :
    Edits ctx (cfg.acceptGRPC ctx resp) := by
  unfold acceptGRPC
  refine Edits.trans ?_ (.removeUpstream _ _)
  cases resp.mutation with
  | none => exact .refl ctx
  | some m => exact .applyMutation ctx m

theorem acceptHTTP_edits (ctx : RequestContext) (resp : HttpResponse) :
    Edits ctx (cfg.acceptHTTP ctx resp) :=
  (Edits.setUpstream ctx _).trans (.removeUpstream _ _)

/-- What asking the sidecar leaves: a blocked request, or one accepted call. -/
structure Asked (cfg : FirewallFilterConfig) (w : Logged V) (ctx : RequestContext)
    (r : Logged V × RequestContext × Option String) : Prop where
  same : SameRequest ctx r.2.1
  err : r.2.2 = none
  verdict : r.2.1.blocked = true ∨ r.1.calls = w.calls ++
    [{ phase := ctx.phase, body := cfg.sentBody ctx, verdict := .accepted }]

/-- The request is blocked: with the engine's own error, or with what the sidecar
said. -/
theorem Asked.of_block {w w' : Logged V} {ctx : RequestContext} (status : Int) (body : String)
    (headers : List (String × String)) :
    Asked cfg w ctx (w', setDownstream (ctx.block status body) headers, none) where
  same := by
    have hblock : SameRequest ctx (ctx.block status body) := ⟨rfl, rfl, rfl, rfl, id⟩
    exact hblock.trans (Edits.setDownstream _ headers).same
  err := rfl
  verdict := .inl (Edits.setDownstream _ headers).blocked

theorem Asked.of_accepted {w : Logged V} {v : V} {ctx ctx' : RequestContext}
    (h : Edits ctx ctx') {body : Option (List UInt8)} (hbody : cfg.sentBody ctx = body) :
    Asked cfg w ctx
      (w.record v { phase := ctx.phase, body, verdict := .accepted }, ctx', none) where
  same := h.same
  err := rfl
  verdict := .inr (by rw [hbody]; rfl)

theorem executeGRPC_asked (sc : Sidecar V) (w : Logged V) (ctx : RequestContext) :
    Asked cfg w ctx (cfg.executeGRPC sc w ctx) := by
  unfold executeGRPC
  split
  · exact .of_block 500 _ []
  · split
    · exact .of_block 500 _ []
    · exact .of_block ..
    · split
      · exact .of_accepted (acceptGRPC_edits ctx _) ‹_›
      · split
        · exact .of_block 500 _ []
        · exact .of_block ..
        · exact .of_accepted (acceptGRPC_edits ctx _) ‹_›

theorem executeHTTP_asked (sc : Sidecar V) (w : Logged V) (ctx : RequestContext) :
    Asked cfg w ctx (cfg.executeHTTP sc w ctx) := by
  unfold executeHTTP
  split
  · exact .of_block 500 _ []
  · split
    · exact .of_block 500 _ []
    · split
      · exact .of_accepted (acceptHTTP_edits ctx _) rfl
      · exact .of_block ..

/-- The request is blocked, or one call was made and accepted. -/
theorem inspect_asked (cfg : FirewallFilterConfig) (sc : Sidecar V) (w : Logged V)
    (ctx : RequestContext) : Asked cfg w ctx (cfg.inspect sc w ctx) := by
  unfold inspect
  split
  · exact executeGRPC_asked sc w ctx
  · exact executeHTTP_asked sc w ctx

/-! ## `Execute` -/

theorem firewall_inspect (cfg : FirewallFilterConfig) (sc : Sidecar V) :
    (cfg.firewall sc).inspect = cfg.inspect sc := rfl

/-- The phase in which the sidecar is asked. -/
def phaseFor (cfg : FirewallFilterConfig) (endOfStream : Bool) : Phase :=
  if cfg.inspectBody && !endOfStream then .requestBody else .requestHeaders

theorem phaseFor_cases (cfg : FirewallFilterConfig) (endOfStream : Bool) :
    cfg.phaseFor endOfStream = .requestHeaders
      ∨ cfg.phaseFor endOfStream = .requestBody ∧ cfg.inspectBody = true := by
  unfold phaseFor
  by_cases h : (cfg.inspectBody && !endOfStream) = true
  · rw [if_pos h]
    rw [Bool.and_eq_true] at h
    exact .inr ⟨rfl, h.1⟩
  · rw [if_neg h]
    exact .inl rfl

/-- The call that lets a request go on. -/
def acceptedCall (cfg : FirewallFilterConfig) (ctx : RequestContext) : SidecarCall :=
  { phase := ctx.phase, body := cfg.sentBody ctx, verdict := .accepted }

theorem sentBody_getD (h : cfg.inspectBody = true) (ctx : RequestContext) :
    (cfg.sentBody ctx).getD [] = ctx.requestBody.take (cfg.maxBodySizeKB * 1024) := by
  unfold sentBody
  cases hbody : ctx.requestBody with
  | nil => simp
  | cons b rest => simp [h]

theorem firewall_runsIn_iff (sc : Sidecar V) (phase : Phase) :
    (cfg.firewall sc).toFilter.runsIn phase = true ↔ phase ∈ (cfg.firewall sc).supportedPhases := by
  show (cfg.firewall sc).supportedPhases.any (· = phase) = true ↔ _
  rw [List.any_eq_true]
  constructor
  · intro ⟨p, hp, heq⟩
    rw [← of_decide_eq_true heq]
    exact hp
  · intro h
    exact ⟨phase, h, decide_eq_true rfl⟩

/-- The filter runs on request headers, and in the phase it asks in. -/
theorem firewall_runsIn (sc : Sidecar V) {phase : Phase} (endOfStream : Bool)
    (h : phase = .requestHeaders ∨ phase = cfg.phaseFor endOfStream) :
    (cfg.firewall sc).toFilter.runsIn phase = true := by
  rw [firewall_runsIn_iff]
  show phase ∈ if cfg.inspectBody then [.requestHeaders, .requestBody] else [.requestHeaders]
  unfold phaseFor at h
  cases hinspect : cfg.inspectBody with
  | false => simpa [hinspect] using h
  | true =>
    rcases h with rfl | rfl
    · exact List.mem_cons_self
    · cases endOfStream <;> simp [hinspect]

theorem phase_of_runsIn {sc : Sidecar V} {phase : Phase}
    (h : (cfg.firewall sc).toFilter.runsIn phase = true) :
    phase = .requestHeaders ∨ phase = .requestBody := by
  rw [firewall_runsIn_iff] at h
  change phase ∈ if cfg.inspectBody then [.requestHeaders, .requestBody]
    else [.requestHeaders] at h
  cases hinspect : cfg.inspectBody with
  | false => exact .inl (by simpa [hinspect] using h)
  | true => simpa [hinspect] using h

/-- What one call of `Execute` leaves. -/
structure Executed (cfg : FirewallFilterConfig) (w : Logged V) (ctx : RequestContext)
    (r : Logged V × RequestContext × Option String) : Prop where
  same : SameRequest ctx r.2.1
  err : r.2.2 = none
  asks : ctx.phase = cfg.phaseFor ctx.requestEndOfStream →
    r.2.1.blocked = true ∨ r.1.calls = w.calls ++ [cfg.acceptedCall ctx]
  silent : ctx.phase = .requestHeaders ∨ ctx.phase = .requestBody →
    ctx.phase ≠ cfg.phaseFor ctx.requestEndOfStream → r.1.calls = w.calls
  requires : ctx.phase = .requestHeaders → ctx.phase ≠ cfg.phaseFor ctx.requestEndOfStream →
    r.2.1.requestBodyRequired = true

theorem execute_firewall (cfg : FirewallFilterConfig) (sc : Sidecar V) (w : Logged V)
    (ctx : RequestContext) : Executed cfg w ctx ((cfg.firewall sc).execute w ctx) := by
  unfold FirewallFilter.execute
  rw [show (cfg.firewall sc).inspectBody = cfg.inspectBody from rfl]
  by_cases hwait : (cfg.inspectBody && !ctx.requestEndOfStream && ctx.phase = .requestHeaders)
  · have hphase : ctx.phase ≠ cfg.phaseFor ctx.requestEndOfStream := by
      simp only [Bool.and_eq_true, decide_eq_true_eq] at hwait
      rw [hwait.2, phaseFor, if_pos (by simpa using hwait.1)]
      simp
    rw [if_pos hwait]
    exact ⟨⟨rfl, rfl, rfl, rfl, fun _ => rfl⟩, rfl, fun h => absurd h hphase, fun _ _ => rfl,
      fun _ _ => rfl⟩
  rw [if_neg hwait]
  by_cases hskip : (ctx.phase = .requestBody && (!cfg.inspectBody || ctx.requestEndOfStream))
  · have hphase : ctx.phase ≠ cfg.phaseFor ctx.requestEndOfStream := by
      simp only [Bool.and_eq_true, decide_eq_true_eq] at hskip
      rw [hskip.1, phaseFor, if_neg]
      · simp
      · intro h
        simp only [Bool.and_eq_true, Bool.not_eq_true'] at h
        simp [h] at hskip
    rw [if_pos hskip]
    refine ⟨.refl ctx, rfl, fun h => absurd h hphase, fun _ _ => rfl, fun h => ?_⟩
    simp [h] at hskip
  rw [if_neg hskip, firewall_inspect]
  have hasked := inspect_asked cfg sc w ctx
  -- in the two request phases nothing else is left
  have hphase : ctx.phase = .requestHeaders ∨ ctx.phase = .requestBody →
      ctx.phase = cfg.phaseFor ctx.requestEndOfStream := by
    intro h
    unfold phaseFor
    rcases h with h | h
    · rw [h, if_neg (by simpa [h] using hwait)]
    · rw [h, if_pos (by simpa [h] using hskip)]
  exact ⟨hasked.same, hasked.err, fun _ => hasked.verdict, fun h hne => absurd (hphase h) hne,
    fun h hne => absurd (hphase (.inl h)) hne⟩

end FirewallFilterConfig

end Hypergate.Filters
