import Hypergate.Filters.FirewallInspect
import Hypergate.Grpc.Messages

/-!
# The external_auth filter (`internal/filters/external_auth/external_auth.go`)

The filter leaves the decision to a sidecar: over HTTP any 2xx status allows the request, over
gRPC the status of Envoy's `Authorization/Check`. Configured headers of an allowing reply go to
the upstream, configured headers of a refusing one to the client.

The filter does not implement `PhaseAware`, so a chain runs it on request headers only.

* `FailsClosed` — a filter that asks a sidecar returns no error, and a call that fails blocks the
  request with 500; `execute_externalAuth_failsClosed` and `execute_firewall_failsClosed` say it
  of the two filters that do.
-/

namespace Hypergate.Filters

open Lib Engine Grpc

universe u

variable {V : Type u}

/-- `ExternalAuthConfig`, the fields read after parsing. -/
structure ExternalAuthConfig where
  protocol : String := "http"
  path : String := "/"
  forwardHeaders : List String := []
  onSuccess : AuthSuccessRules := {}
  onFailure : AuthFailureRules := {}

/-! ## The sidecar -/

/-- `authv3.CheckRequest`, the attributes the filter fills in. `source` is the client's
address. -/
structure CheckRequest where
  id : String
  method : String
  path : String
  host : String
  scheme : String
  protocol : String
  headers : AMap String String
  source : Option String

/-- The `http_response` of `authv3.CheckResponse`. A missing header or status is `none` or `0`. -/
inductive CheckHttpResponse where
  | unset
  | ok (headers : List (Option HeaderValue))
  | denied (status : Int) (body : String) (headers : List (Option HeaderValue))

/-- `authv3.CheckResponse`. A missing status has the code `0`, which is `codes.OK`. -/
structure CheckResponse where
  code : Int
  httpResponse : CheckHttpResponse := .unset

/-- An authorization sidecar that lives in `V`; `none` and `false` are errors. -/
structure AuthSidecar (V : Type u) where
  /-- `http.NewRequestWithContext` accepts the path. -/
  newRequest : String → Bool
  /-- `client.Do`. -/
  roundTrip : V → HttpRequest → V × Option HttpResponse
  /-- `grpcClient.Check`. -/
  check : V → CheckRequest → V × Option CheckResponse

/-! ## The filter -/

/-- `headerValue`: `raw_value` when present, otherwise `value`. -/
def headerValue (h : HeaderValue) : String := if h.rawValue ≠ "" then h.rawValue else h.value

/-- `okHeaders` and `deniedHeaders`: the last value of each name. -/
def headerTable (headers : List (Option HeaderValue)) : AMap String String :=
  headers.foldl
    (fun table option => option.elim table fun h => table.insert (toLower h.key) (headerValue h)) ∅

/-- The listed headers that a reply has. -/
def foundHeaders (lookup : String → Option String) (names : List String) :
    List (String × String) :=
  names.filterMap fun k => (lookup k).map fun v => (k, v)

/-- `lookup` of `executeHTTP`: the first value. -/
def HttpResponse.first (resp : HttpResponse) (k : String) : Option String :=
  (resp.header.lookup (canonicalHeaderKey k)).bind List.head?

def sidecarFailure (ctx : RequestContext) : RequestContext := internalError ctx

/-- The record of the call: the body never goes to the sidecar. -/
def authCall (ctx : RequestContext) (verdict : Verdict) : SidecarCall :=
  { phase := ctx.phase, body := none, verdict }

namespace ExternalAuthConfig

variable (cfg : ExternalAuthConfig)

def applySuccess (ctx : RequestContext) (lookup : String → Option String) : RequestContext :=
  removeUpstream (setUpstream ctx (foundHeaders lookup cfg.onSuccess.upstreamHeadersToAdd))
    cfg.onSuccess.upstreamHeadersToRemove

def applyFailure (ctx : RequestContext) (lookup : String → Option String) : RequestContext :=
  setDownstream ctx (foundHeaders lookup cfg.onFailure.downstreamPassThroughHeaders)

/-- The request `executeGRPC` sends. -/
def checkRequest (ctx : RequestContext) : CheckRequest where
  id := ctx.getHeader "x-request-id"
  method := ctx.method
  path := ctx.path
  host :=
    let authority := ctx.headers.getD ":authority" ""
    if authority = "" then ctx.headers.getD "host" "" else authority
  scheme := ctx.headers.getD ":scheme" ""
  protocol := "HTTP/2"
  headers := selectHeaders ctx cfg.forwardHeaders
  source := if ctx.clientIP ≠ "" then some ctx.clientIP else none

/-- The end of `executeGRPC` when the sidecar refuses. -/
def refuse (ctx : RequestContext) : CheckHttpResponse → RequestContext
  | .denied status body headers =>
    cfg.applyFailure (ctx.block (if status ≠ 0 then status else 403) body)
      (headerTable headers).lookup
  | _ => ctx.block 403 ""

/-- The end of `executeGRPC` when the sidecar allows. -/
def allow (ctx : RequestContext) : CheckHttpResponse → RequestContext
  | .ok headers => cfg.applySuccess ctx (headerTable headers).lookup
  | _ => cfg.applySuccess ctx fun _ => none

def executeGRPC (sc : AuthSidecar V) (w : Logged V) (ctx : RequestContext) :
    Logged V × RequestContext × Option String :=
  match sc.check w.env (cfg.checkRequest ctx) with
  | (v, none) => (w.record v (authCall ctx .failed), sidecarFailure ctx, none)
  | (v, some resp) =>
    if resp.code = 0 then
      (w.record v (authCall ctx .accepted), cfg.allow ctx resp.httpResponse, none)
    else (w.record v (authCall ctx .refused), cfg.refuse ctx resp.httpResponse, none)

/-- The request `executeHTTP` sends. -/
def httpRequest (ctx : RequestContext) : HttpRequest :=
  setForwardedRequest
    (setHTTPHeaders { method := "GET", path := cfg.path } (selectHeaders ctx cfg.forwardHeaders))
    ctx

def executeHTTP (sc : AuthSidecar V) (w : Logged V) (ctx : RequestContext) :
    Logged V × RequestContext × Option String :=
  if !sc.newRequest cfg.path then (w, sidecarFailure ctx, none)
  else match sc.roundTrip w.env (cfg.httpRequest ctx) with
    | (v, none) => (w.record v (authCall ctx .failed), sidecarFailure ctx, none)
    | (v, some resp) =>
      if 200 ≤ resp.statusCode ∧ resp.statusCode < 300 then
        (w.record v (authCall ctx .accepted), cfg.applySuccess ctx resp.first, none)
      else
        (w.record v (authCall ctx .refused),
          cfg.applyFailure (ctx.block resp.statusCode resp.body) resp.first, none)

def execute (sc : AuthSidecar V) (w : Logged V) (ctx : RequestContext) :
    Logged V × RequestContext × Option String :=
  if toLower cfg.protocol = "grpc" then cfg.executeGRPC sc w ctx else cfg.executeHTTP sc w ctx

/-- The filter as a chain sees it. -/
def externalAuth (sc : AuthSidecar V) : Engine.Filter (Logged V) where
  supportedPhases := none
  execute := cfg.execute sc

end ExternalAuthConfig

/-! ## Calls that fail -/

/-- What asking a sidecar leaves: no error, and at most one call, which blocks the request with
500 if it failed. -/
structure FailsClosed (w : Logged V) (ctx : RequestContext)
    (r : Logged V × RequestContext × Option String) : Prop where
  err : r.2.2 = none
  calls : r.1.calls = w.calls
    ∨ ∃ call, r.1.calls = w.calls ++ [call]
      ∧ (call.verdict = .failed → r.2.1 = internalError ctx)

namespace FailsClosed

variable {w : Logged V} {ctx : RequestContext}

theorem silent (env : V) (ctx' : RequestContext) :
    FailsClosed w ctx ({ w with env }, ctx', none) := ⟨rfl, .inl rfl⟩

variable {call : SidecarCall}

theorem failed (v : V) :
    FailsClosed w ctx (w.record v call, internalError ctx, none) :=
  ⟨rfl, .inr ⟨call, rfl, fun _ => rfl⟩⟩

theorem judged (v : V) (ctx' : RequestContext) (h : call.verdict ≠ .failed) :
    FailsClosed w ctx (w.record v call, ctx', none) :=
  ⟨rfl, .inr ⟨call, rfl, fun hfailed => absurd hfailed h⟩⟩

/-- A failed call leaves the request blocked with 500, and the filter returns no error. -/
theorem result_eq {r : Logged V × RequestContext × Option String} (h : FailsClosed w ctx r)
    (hcall : r.1.calls = w.calls ++ [call]) (hfailed : call.verdict = .failed) :
    r.2 = (internalError ctx, none) := by
  rcases h.calls with hsame | ⟨call', hcall', hclosed⟩
  · rw [hsame] at hcall
    exact absurd hcall (by simp)
  · rw [hcall] at hcall'
    have hlast : call = call' := by simpa using hcall'
    exact Prod.ext (hclosed (hlast ▸ hfailed)) h.err

end FailsClosed

theorem execute_externalAuth_failsClosed (cfg : ExternalAuthConfig) (sc : AuthSidecar V)
    (w : Logged V) (ctx : RequestContext) :
    FailsClosed w ctx ((cfg.externalAuth sc).execute w ctx) := by
  unfold ExternalAuthConfig.externalAuth
  dsimp only
  unfold ExternalAuthConfig.execute
  split
  · unfold ExternalAuthConfig.executeGRPC
    split
    · exact .failed _
    · split
      · exact .judged _ _ (by simp [authCall])
      · exact .judged _ _ (by simp [authCall])
  · unfold ExternalAuthConfig.executeHTTP
    split
    · exact .silent w.env _
    · split
      · exact .failed _
      · split
        · exact .judged _ _ (by simp [authCall])
        · exact .judged _ _ (by simp [authCall])

theorem inspect_failsClosed (cfg : FirewallFilterConfig) (sc : Sidecar V) (w : Logged V)
    (ctx : RequestContext) : FailsClosed w ctx (cfg.inspect sc w ctx) := by
  unfold FirewallFilterConfig.inspect
  split
  · unfold FirewallFilterConfig.executeGRPC
    split
    · exact .failed _
    · split
      · exact .failed _
      · exact .judged _ _ (by simp)
      · split
        · exact .judged _ _ (by simp)
        · split
          · exact .failed _
          · exact .judged _ _ (by simp)
          · exact .judged _ _ (by simp)
  · unfold FirewallFilterConfig.executeHTTP
    split
    · exact .silent w.env _
    · split
      · exact .failed _
      · split
        · exact .judged _ _ (by simp)
        · exact .judged _ _ (by simp)

theorem execute_firewall_failsClosed (cfg : FirewallFilterConfig) (sc : Sidecar V)
    (w : Logged V) (ctx : RequestContext) :
    FailsClosed w ctx ((cfg.firewall sc).toFilter.execute w ctx) := by
  show FailsClosed w ctx ((cfg.firewall sc).execute w ctx)
  unfold FirewallFilter.execute
  rw [FirewallFilterConfig.firewall_inspect]
  split
  · exact .silent w.env _
  · split
    · exact .silent w.env _
    · exact inspect_failsClosed cfg sc w ctx

end Hypergate.Filters
