import Hypergate.Engine.Executor
import Hypergate.Grpc.Messages
import Hypergate.Identity.Index
import Hypergate.Policy.Config

/-!
# The ext_proc handlers (`internal/grpc/handlers.go`)

One handler per message kind. Each copies the message into the request context,
makes the routing decision if it has not been made (`resolve`), runs the chain
for its phase (`run`) and answers.

`W` is the world the filters live in. What other goroutines and the clock
contribute to the handling of one message is its `Moment`: the content of the
identity map, the requests running on each chain, and whether the chain's
deadline has passed when the filters return. `RouteWith` reads nothing but the
config's router and the context, so a policy carries it as a function; it returns
the chain name and, if a rule matched, the rule's name.
-/

namespace Hypergate.Grpc

open Lib Engine Identity Policy

universe u

variable {W : Type u}

/-- The content of an `engine.Snapshot` that has a config. -/
structure EnginePolicy (W : Type u) where
  config : Config
  chains : AMap String (Chain W)
  /-- `RouteWith` on the config's router. -/
  routeWith : RequestContext → String × Option String

/-- `streamState`. The snapshot is named by its address. -/
structure StreamState (W : Type u) where
  snap : Nat
  resolved : Bool := false
  chain : Chain W := []
  name : String := ""

/-- `Server`, the parts of it that do not change. -/
structure Server where
  netip : Netip

/-! ## Concurrency limit -/

/-- `chainLimiter`: the requests running each chain's filters. -/
structure ChainLimiter where
  inFlight : AMap String Int := ∅

/-- `acquire`: count the request, and take it back when that is too many. -/
def ChainLimiter.acquire (l : ChainLimiter) (chain : String) (max : Int) : ChainLimiter × Bool :=
  let c := l.inFlight.getD chain 0 + 1
  if max < c then ({ inFlight := l.inFlight.insert chain (c - 1) }, false)
  else ({ inFlight := l.inFlight.insert chain c }, true)

def ChainLimiter.release (l : ChainLimiter) (chain : String) : ChainLimiter :=
  { inFlight := l.inFlight.insert chain (l.inFlight.getD chain 0 - 1) }

/-- What the rest of the process contributes while a message is handled.
`identity` is `none` when identity is disabled. -/
structure Moment where
  identity : Option Index := none
  limiter : ChainLimiter := {}
  deadlineExceeded : Bool := false

/-! ## The routing decision -/

/-- The destination part of `resolveIdentity`. -/
def destinationServices (idx : Index) (ctx : RequestContext) : List String :=
  match idx.serviceByClusterIP ctx.destinationAddr with
  | some svc => [svc.key]
  | none =>
    let w := idx.lookup ctx.destinationAddr
    -- the network may have resolved the Service to a backend pod already
    if isPod w then w.elim [] (·.services)
    else match idx.serviceFromHost ctx.host with
      | some svc => [svc.key]
      | none => []

def resolveIdentity (identity : Option Index) (ctx : RequestContext) : RequestContext :=
  let inferred := decide (ctx.traffic = .any)
  let ctx := if inferred then { ctx with traffic := .northSouth } else ctx
  match identity with
  | none => ctx
  | some idx =>
    let ctx := { ctx with sourceWorkload := idx.lookup ctx.clientAddr }
    let ctx := if inferred && isPod ctx.sourceWorkload then { ctx with traffic := .eastWest }
      else ctx
    { ctx with destinationServices := destinationServices idx ctx }

/-- The caller is east-west, not in the identity map, and not let through. -/
def unknownCaller (identity : Option Index) (config : Config) (ctx : RequestContext) : Bool :=
  identity.isSome && decide (ctx.traffic = .eastWest) && ctx.sourceWorkload.isNone &&
    decide (config.router.unknownSource ≠ "default")

/-- `http.StatusServiceUnavailable`. -/
def unavailable (ctx : RequestContext) : RequestContext := ctx.block 503 "Service Unavailable"

def resolve (policy : Option (EnginePolicy W)) (identity : Option Index)
    (st : StreamState W) (ctx : RequestContext) : StreamState W × RequestContext :=
  if st.resolved then (st, ctx)
  else
    let st := { st with resolved := true }
    match policy with
    | none => (st, unavailable ctx)
    | some p =>
      let ctx := resolveIdentity identity ctx
      if unknownCaller identity p.config ctx then (st, unavailable ctx)
      else
        let (name, rule) := p.routeWith ctx
        let ctx := { ctx with matchedRoute := rule.getD ctx.matchedRoute }
        let st := { st with name }
        if name = "" then (st, ctx)
        else match p.chains.lookup name with
          | none => (st, unavailable ctx)
          | some chain => ({ st with chain }, ctx)

/-! ## Running the chain -/

/-- `ChainSettings[name]` of the snapshot's config. -/
def limitsOf (policy : Option (EnginePolicy W)) (name : String) : ChainSettings :=
  (policy.bind fun p => p.config.chainSettings.lookup name).getD {}

/-- What `run` leaves behind. `ran` lists the positions whose filter was called. -/
structure RunResult (W : Type u) where
  world : W
  ctx : RequestContext
  limiter : ChainLimiter
  ran : List Nat := []

/-- The part of `run` after the concurrency limit. -/
def runFilters (limits : ChainSettings) (deadlineExceeded : Bool) (st : StreamState W) (w : W)
    (ctx : RequestContext) (phase : Phase) : W × RequestContext × List Nat :=
  let r := execute w ctx st.chain phase
  if 0 < limits.timeoutDuration && r.err.isSome && deadlineExceeded then
    match limits.onTimeout with
    | .allow =>
      (r.world, { r.ctx with
        blocked := false, filterFailed := false, responseStatus := 0, responseBody := "" },
        r.ran)
    | .deny => (r.world, unavailable { r.ctx with filterFailed := false }, r.ran)
  else (r.world, r.ctx, r.ran)

def run (policy : Option (EnginePolicy W)) (now : Moment) (st : StreamState W) (w : W)
    (ctx : RequestContext) (phase : Phase) : RunResult W :=
  if ctx.blocked || st.chain.isEmpty then { world := w, ctx, limiter := now.limiter }
  else
    let limits := limitsOf policy st.name
    if 0 < limits.maxConcurrency then
      match now.limiter.acquire st.name limits.maxConcurrency with
      | (limiter, false) =>
        match limits.onOverload with
        | .allow => { world := w, ctx, limiter }
        | .deny =>
          { world := w
            ctx := unavailable (ctx.setHeaderDownstream "retry-after" "1")
            limiter }
      | (limiter, true) =>
        let (world, ctx, ran) := runFilters limits now.deadlineExceeded st w ctx phase
        { world, ctx, limiter := limiter.release st.name, ran }
    else
      let (world, ctx, ran) := runFilters limits now.deadlineExceeded st w ctx phase
      { world, ctx, limiter := now.limiter, ran }

/-! ## The handlers -/

/-- What the handling of a message leaves behind. -/
structure Handled (W : Type u) where
  st : StreamState W
  ctx : RequestContext
  world : W
  limiter : ChainLimiter
  ran : List Nat
  response : Response

/-- The message `sent` after the chain ran. -/
def RunResult.sends (r : RunResult W) (st : StreamState W) (sent : RequestContext × Response) :
    Handled W :=
  { st, ctx := sent.1, world := r.world, limiter := r.limiter, ran := r.ran, response := sent.2 }

/-- `immediateResponse`: the status and body set by whoever blocked. -/
def immediateResponse (ctx : RequestContext) : RequestContext × Response :=
  let status := if ctx.responseStatus = 0 then 403 else ctx.responseStatus
  let (ctx, headers) := buildHeaderMutation ctx ctx.responseHeadersToAdd []
  (ctx, .immediate status headers ctx.responseBody)

/-- The end of a handler: run the chain and send `reply`, or the immediate
response when the request is blocked. -/
def finish (policy : Option (EnginePolicy W)) (now : Moment) (st : StreamState W) (w : W)
    (ctx : RequestContext) (phase : Phase)
    (reply : RequestContext → RequestContext × Response) : Handled W :=
  let r := run policy now st w ctx phase
  r.sends st (if r.ctx.blocked then immediateResponse r.ctx else reply r.ctx)

/-- A handler whose message has been copied into the context. -/
def handlePhase (policy : Option (EnginePolicy W)) (now : Moment)
    (st : StreamState W) (w : W) (ctx : RequestContext) (phase : Phase)
    (reply : RequestContext → RequestContext × Response) : Handled W :=
  let (st, ctx) := resolve policy now.identity st ctx
  finish policy now st w ctx phase reply

/-- The first part of `handleRequestHeaders`. -/
def Server.readRequestHeaders (s : Server) (policy : Option (EnginePolicy W))
    (attributes : Attributes) (msg : HttpHeaders) (ctx : RequestContext) : RequestContext :=
  let headers := copyHeaders ctx.headers msg.headers
  let hops := policy.elim 0 (·.config.server.clientIP.trustedProxyHops)
  let clientIP := resolveClientIP (headers.getD "x-forwarded-for" "")
    (peerFromAttributes attributes) hops
  let destinationAddress := stringAttribute attributes "destination.address"
  let authority := headers.getD ":authority" ""
  let authority := if authority = "" then headers.getD "host" "" else authority
  { ctx with
    headers
    path := headers.getD ":path" ""
    method := headers.getD ":method" ""
    requestEndOfStream := msg.endOfStream
    clientIP
    clientAddr := parseAddr s.netip clientIP
    destinationAddress
    destinationAddr := parseAddr s.netip destinationAddress
    host := normalizeHost authority }

section Handlers

variable (policy : Option (EnginePolicy W)) (now : Moment) (st : StreamState W)
  (w : W) (ctx : RequestContext)

def handleRequestHeaders (s : Server) (attributes : Attributes) (msg : HttpHeaders) : Handled W :=
  handlePhase policy now st w (s.readRequestHeaders policy attributes msg ctx) .requestHeaders
    fun ctx =>
      let (ctx, m) := buildHeaderMutation ctx ctx.headersToAdd ctx.headersToRemove
      (ctx, .requestHeaders m (buildModeOverride ctx))

def handleRequestBody (body : List UInt8) : Handled W :=
  handlePhase policy now st w { ctx with requestBodySeen := true, requestBody := body }
    .requestBody fun ctx =>
      let (ctx, m) := buildHeaderMutation ctx ctx.headersToAdd ctx.headersToRemove
      (ctx, .requestBody m (buildBodyMutation ctx.requestBody ctx.requestBodyModified))

def handleRequestTrailers (trailers : Option (List HeaderValue)) : Handled W :=
  handlePhase policy now st w { ctx with headers := copyHeaders ctx.headers trailers }
    .requestTrailers fun ctx =>
      let (ctx, m) := buildHeaderMutation ctx ctx.requestTrailersToAdd ctx.requestTrailersToRemove
      (ctx, .requestTrailers m)

/-- A filter asked for the request body, and Envoy went on without sending it. -/
def bodyMissed (ctx : RequestContext) : Bool :=
  !ctx.blocked && ctx.requestBodyRequired && !ctx.requestBodySeen && !ctx.requestEndOfStream

/-- `handleResponseHeaders`: a response to a request whose body was to be
inspected, and was not, is not let through. -/
def handleResponseHeaders (msg : HttpHeaders) : Handled W :=
  let ctx := { ctx with responseHeaders := copyHeaders ctx.responseHeaders msg.headers }
  let (st, ctx) := resolve policy now.identity st ctx
  let ctx := if bodyMissed ctx then ctx.block 500 "Internal Server Error" else ctx
  finish policy now st w ctx .responseHeaders fun ctx =>
    let (ctx, m) := buildHeaderMutation ctx ctx.responseHeadersToAdd ctx.responseHeadersToRemove
    (ctx, .responseHeaders m (buildModeOverride ctx))

def handleResponseBody (body : List UInt8) : Handled W :=
  handlePhase policy now st w { ctx with responseBodyBytes := body } .responseBody fun ctx =>
    (ctx, .responseBody (buildBodyMutation ctx.responseBodyBytes ctx.responseBodyModified))

/-- `handleResponseTrailers`: the response headers are out, so a block cannot
replace the response any more. -/
def handleResponseTrailers (trailers : Option (List HeaderValue)) : Handled W :=
  let ctx := { ctx with responseHeaders := copyHeaders ctx.responseHeaders trailers }
  let (st, ctx) := resolve policy now.identity st ctx
  let r := run policy now st w ctx .responseTrailers
  let (ctx, m) := buildHeaderMutation r.ctx r.ctx.responseTrailersToAdd
    r.ctx.responseTrailersToRemove
  r.sends st (ctx, .responseTrailers m)

/-- The switch of `Process`; a request without a message is an error. -/
def handle (s : Server) (m : Message) : Option (Handled W) :=
  match m with
  | .requestHeaders attributes msg => handleRequestHeaders policy now st w ctx s attributes msg
  | .requestBody body => handleRequestBody policy now st w ctx body
  | .requestTrailers trailers => handleRequestTrailers policy now st w ctx trailers
  | .responseHeaders msg => handleResponseHeaders policy now st w ctx msg
  | .responseBody body => handleResponseBody policy now st w ctx body
  | .responseTrailers trailers => handleResponseTrailers policy now st w ctx trailers
  | .unset => none

end Handlers

end Hypergate.Grpc
