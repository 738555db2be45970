import Hypergate.Grpc.Address

/-!
# ext_proc messages (`internal/grpc/mutators.go`)

The requests Envoy sends on a stream, the responses of the engine, and the
functions between them and the request context. `nil` submessages are `none`.
-/

namespace Hypergate.Grpc

open Lib Engine

/-! ## Requests -/

/-- `corev3.HeaderValue`. -/
structure HeaderValue where
  key : String
  value : String := ""
  rawValue : String := ""

/-- `extprocv3.HttpHeaders`; `none` is a nil header map. -/
structure HttpHeaders where
  headers : Option (List HeaderValue) := some []
  endOfStream : Bool := false

/-- The six kinds of message a stream carries, and a request without one. -/
inductive Message where
  | requestHeaders (attributes : Attributes) (msg : HttpHeaders)
  | requestBody (body : List UInt8)
  | requestTrailers (trailers : Option (List HeaderValue))
  | responseHeaders (msg : HttpHeaders)
  | responseBody (body : List UInt8)
  | responseTrailers (trailers : Option (List HeaderValue))
  | unset

/-- One header of `copyHeaders`: keys are lower-cased and repeated headers
folded into one value. -/
def copyHeader (dst : AMap String String) (h : HeaderValue) : AMap String String :=
  let key := toLower h.key
  let val := if h.rawValue ≠ "" then h.rawValue else h.value
  let prev := dst.getD key ""
  if prev ≠ "" then
    dst.insert key (prev ++ (if key = "cookie" then "; " else ", ") ++ val)
  else dst.insert key val

def copyHeaders (dst : AMap String String) (headers : Option (List HeaderValue)) :
    AMap String String :=
  (headers.getD []).foldl copyHeader dst

/-! ## Responses -/

/-- `extprocv3.HeaderMutation`; every set header overwrites or adds. -/
structure HeaderMutation where
  setHeaders : List HeaderValueOption
  removeHeaders : List String
deriving DecidableEq

/-- `extprocv3.BodyMutation`. -/
inductive BodyMutation where
  | clearBody
  | body (bytes : List UInt8)
deriving DecidableEq

/-- `ProcessingMode`, the fields the engine sets: request and response headers
are always sent, a body is buffered or not sent, trailers are sent or skipped. -/
structure ProcessingMode where
  bufferRequestBody : Bool
  bufferResponseBody : Bool
  sendRequestTrailers : Bool
  sendResponseTrailers : Bool
deriving DecidableEq

/-- `extprocv3.ProcessingResponse`. -/
inductive Response where
  | immediate (status : Int) (headers : Option HeaderMutation) (body : String)
  | requestHeaders (headers : Option HeaderMutation) (modeOverride : Option ProcessingMode)
  | requestBody (headers : Option HeaderMutation) (body : Option BodyMutation)
  | requestTrailers (headers : Option HeaderMutation)
  | responseHeaders (headers : Option HeaderMutation) (modeOverride : Option ProcessingMode)
  | responseBody (body : Option BodyMutation)
  | responseTrailers (headers : Option HeaderMutation)
deriving DecidableEq

/-- An `ImmediateResponse` ends the request. -/
def Response.isImmediate : Response → Bool
  | immediate _ _ _ => true
  | _ => false

/-- `buildHeaderMutation`. It keeps the options it builds in the scratch list of
the context. -/
def buildHeaderMutation (ctx : RequestContext) (headers : List Header) (removes : List String) :
    RequestContext × Option HeaderMutation :=
  if headers = [] ∧ removes = [] then (ctx, none)
  else
    let setHeaders := headers.map fun h => { key := h.key, rawValue := h.value }
    ({ ctx with setHeaderOptions := setHeaders }, some { setHeaders, removeHeaders := removes })

def buildBodyMutation (body : List UInt8) (modified : Bool) : Option BodyMutation :=
  if !modified then none else if body = [] then some .clearBody else some (.body body)

def buildModeOverride (ctx : RequestContext) : Option ProcessingMode :=
  if !ctx.requestBodyRequired && !ctx.responseBodyRequired &&
      !ctx.requestTrailersRequired && !ctx.responseTrailersRequired then none
  else
    some
      { bufferRequestBody := ctx.requestBodyRequired
        bufferResponseBody := ctx.responseBodyRequired
        sendRequestTrailers := ctx.requestTrailersRequired
        sendResponseTrailers := ctx.responseTrailersRequired }

end Hypergate.Grpc
