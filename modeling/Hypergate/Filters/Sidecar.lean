import Hypergate.Engine.Executor

/-!
# Calling a sidecar (`internal/filters/sidecar/sidecar.go`)

Two filters ask a process next to the engine about a request. This module has
what they share: which request headers go to the sidecar and how an HTTP request
describes the original one, and the sidecar itself as the engine sees it, a
`Sidecar` that reads and changes the world `V` it lives in.

`Logged V` is that world with the calls a filter made for one request written
down. Filters that do not call this sidecar work on `V` (`Filter.onEnv`), so
they cannot touch the record.
-/

namespace Hypergate.Filters

open Lib Engine

universe u

/-! ## Headers for the sidecar -/

/-- `hopByHop`: headers that describe one connection. -/
def hopByHop : List String :=
  ["connection", "keep-alive", "proxy-connection", "transfer-encoding", "te", "trailer",
    "upgrade", "content-length", "proxy-authorization"]

/-- `ForwardAll`: an empty list, or one with `*` or `all`, means all headers. -/
def forwardAll (list : List String) : Bool :=
  list.isEmpty || list.any fun h => h = "*" || toLower h = "all"

/-- `add` of `SelectHeaders`. -/
def addSelected (ctx : RequestContext) (out : AMap String String) (k : String) :
    AMap String String :=
  let k := toLower k
  if k.startsWith ":" || hopByHop.contains k then out
  else if ctx.getHeader k ≠ "" then out.insert k (ctx.getHeader k) else out

def selectHeaders (ctx : RequestContext) (list : List String) : AMap String String :=
  if forwardAll list then
    (ctx.headers.keys ++ ctx.upstreamShadow.keys).foldl (addSelected ctx) ∅
  else list.foldl (addSelected ctx) ∅

/-- A character that may stand in a header name. -/
def isTokenChar (c : Char) : Bool := c.isAlphanum || "!#$%&'*+-.^_`|~".toList.contains c

def canonicalChars : Bool → List Char → List Char
  | _, [] => []
  | upper, c :: cs => (if upper then c.toUpper else c.toLower) :: canonicalChars (c = '-') cs

/-- `http.CanonicalHeaderKey`: upper case at the start and after a hyphen. -/
def canonicalHeaderKey (k : String) : String :=
  if k.toList.all isTokenChar then String.ofList (canonicalChars true k.toList) else k

/-- `http.Request`, the parts the filters fill in. -/
structure HttpRequest where
  method : String
  path : String
  host : String := "localhost"
  headers : AMap String String := ∅
  body : Option (List UInt8) := none

/-- `req.Header.Set`. -/
def HttpRequest.set (req : HttpRequest) (k v : String) : HttpRequest :=
  { req with headers := req.headers.insert (canonicalHeaderKey k) v }

def setHTTPHeaders (req : HttpRequest) (headers : AMap String String) : HttpRequest :=
  headers.toList.foldl (fun req e =>
    if hopByHop.contains e.1 || e.1 = "host" then req else req.set e.1 e.2) req

/-- `SetForwardedRequest`: the conventions of ForwardAuth and `auth_request`. -/
def setForwardedRequest (req : HttpRequest) (ctx : RequestContext) : HttpRequest :=
  let authority := ctx.headers.getD ":authority" ""
  let host := if authority = "" then ctx.headers.getD "host" "" else authority
  let sent := ctx.headers.getD ":scheme" ""
  let scheme := if sent = "" then "http" else sent
  let req := req.set "X-Forwarded-Method" ctx.method
  let req := req.set "X-Forwarded-Uri" ctx.path
  let req := req.set "X-Forwarded-Proto" scheme
  let req := req.set "X-Original-Method" ctx.method
  let req := req.set "X-Original-Uri" ctx.path
  let req := if host ≠ "" then
      (req.set "X-Forwarded-Host" host).set "X-Original-Url" (scheme ++ "://" ++ host ++ ctx.path)
    else req
  if ctx.clientIP ≠ "" then
    (req.set "X-Forwarded-For" ctx.clientIP).set "X-Real-Ip" ctx.clientIP
  else req

/-! ## The sidecar -/

/-- `http.Response`. The body is what was read of it, at most 16 KiB. -/
structure HttpResponse where
  statusCode : Int
  header : AMap String (List String) := ∅
  body : String := ""

/-- The header changes of a gRPC reply. -/
structure SidecarMutation where
  setHeaders : List (String × String) := []
  removeHeaders : List String := []

/-- `extprocv3.ProcessingRequest`, as a filter sends it to its sidecar. -/
inductive SidecarMessage where
  | requestHeaders (headers : List (String × String))
  | requestBody (body : List UInt8)

/-- `extprocv3.ProcessingResponse`, as a sidecar sends it. A missing status is `0`. -/
inductive SidecarReply where
  | immediate (status : Int) (headers : Option SidecarMutation) (body : String)
  | requestHeaders (mutation : Option SidecarMutation)
  | requestBody (mutation : Option SidecarMutation)
  | other

/-- A sidecar that lives in `V`: everything that its socket, the network and the
process behind it contribute. `none` and `false` are errors. -/
structure Sidecar (V : Type u) where
  /-- `http.NewRequestWithContext` accepts the method and the path. -/
  newRequest : String → String → Bool
  /-- `httpClient.Do`. -/
  roundTrip : V → HttpRequest → V × Option HttpResponse
  /-- `grpcClient.Process`. -/
  process : V → V × Bool
  /-- `stream.Send`. -/
  send : V → SidecarMessage → V × Bool
  /-- `stream.Recv`. -/
  recv : V → V × Option SidecarReply

/-- `Send` and, if that went well, `Recv`. -/
def Sidecar.exchange {V : Type u} (sc : Sidecar V) (v : V) (msg : SidecarMessage) :
    V × Option SidecarReply :=
  match sc.send v msg with
  | (v, false) => (v, none)
  | (v, true) => sc.recv v

/-! ## The record of the calls -/

/-- How a call ended. -/
inductive Verdict where
  | accepted | refused | failed
  deriving DecidableEq

/-- One call: the phase it was made in, the body that went with it, and how it
ended. -/
structure SidecarCall where
  phase : Phase
  body : Option (List UInt8)
  verdict : Verdict
  deriving DecidableEq

/-- A world, and the calls made so far for one request. -/
structure Logged (V : Type u) where
  env : V
  calls : List SidecarCall := []

variable {V : Type u}

/-- The world is `v` after one more call. -/
def Logged.record (w : Logged V) (v : V) (call : SidecarCall) : Logged V :=
  { env := v, calls := w.calls ++ [call] }

/-- A filter that does not call the sidecar. -/
def onEnv (f : Engine.Filter V) : Engine.Filter (Logged V) where
  supportedPhases := f.supportedPhases
  execute w ctx :=
    let r := f.execute w.env ctx
    ({ w with env := r.1 }, r.2.1, r.2.2)

/-! ## What filters leave of the request -/

/-- `ctx'` is about the same message of the same request: the phase, the request
body and what is known about its arrival have not changed. A filter may ask for
the body. -/
structure SameRequest (ctx ctx' : RequestContext) : Prop where
  phase : ctx'.phase = ctx.phase
  endOfStream : ctx'.requestEndOfStream = ctx.requestEndOfStream
  bodySeen : ctx'.requestBodySeen = ctx.requestBodySeen
  body : ctx'.requestBody = ctx.requestBody
  bodyRequired : ctx.requestBodyRequired = true → ctx'.requestBodyRequired = true

namespace SameRequest

theorem refl (ctx : RequestContext) : SameRequest ctx ctx := ⟨rfl, rfl, rfl, rfl, id⟩

theorem trans {a b c : RequestContext} (hab : SameRequest a b) (hbc : SameRequest b c) :
    SameRequest a c where
  phase := hbc.phase.trans hab.phase
  endOfStream := hbc.endOfStream.trans hab.endOfStream
  bodySeen := hbc.bodySeen.trans hab.bodySeen
  body := hbc.body.trans hab.body
  bodyRequired h := hbc.bodyRequired (hab.bodyRequired h)

end SameRequest

/-- The filter leaves the request and its body alone. Every filter of the engine
does: only the handlers write these fields, and only a firewall asks for the
body. -/
def KeepsRequest (f : Engine.Filter V) : Prop :=
  ∀ v ctx, SameRequest ctx (f.execute v ctx).2.1

/-- An audited filter leaves the request alone if the filter does. -/
theorem executeAudited_sameRequest {f : Engine.Filter V} (hf : KeepsRequest f) (v : V)
    (ctx : RequestContext) (i : Nat) : SameRequest ctx (executeAudited v ctx f i).2 :=
  executeAudited_keeps (hf v ctx) (fun _ => (hf v ctx).trans ⟨rfl, rfl, rfl, rfl, id⟩)
    fun _ h => h.trans ⟨rfl, rfl, rfl, rfl, id⟩

/-- The world after an audited filter is the world after the filter. -/
theorem executeAudited_world {W : Type u} (f : Engine.Filter W) (w : W) (ctx : RequestContext)
    (i : Nat) : (executeAudited w ctx f i).1 = (f.execute w ctx).1 := by
  unfold executeAudited
  dsimp only
  rcases f.execute w ctx with ⟨w', ctx', err⟩
  cases err with
  | some err => rfl
  | none =>
    dsimp only
    split
    · rfl
    · split <;> rfl

theorem onEnv_keepsRequest {f : Engine.Filter V} (hf : KeepsRequest f) : KeepsRequest (onEnv f) :=
  fun w ctx => hf w.env ctx

end Hypergate.Filters
