import Hypergate.Identity.Types
import Hypergate.Lib.Strings
import Mathlib.Tactic.Common

/-!
# The request context (`internal/engine/context.go`, `phase.go`)

`RequestContext` is everything the filters of one stream read and write: what
was parsed from the messages, the pending header, trailer and body changes, and
the block state. Filters change it through the mutators below, which keep the
lists of pending changes and their shadow view in step.

Header lists and key lists are Go slices; deleting an element moves the last
one into its place, so the order of the remaining ones is not kept
(`swapRemove`).
-/

namespace Hypergate.Engine

open Hypergate.Lib Hypergate.Identity

/-- `engine.Phase`: one per message kind of ext_proc. -/
inductive Phase where
  | requestHeaders | requestBody | requestTrailers
  | responseHeaders | responseBody | responseTrailers
  deriving DecidableEq

/-- `selector.Traffic`. -/
inductive Traffic where
  | any | northSouth | eastWest
  deriving DecidableEq

/-- `engine.Header`. -/
structure Header where
  key : String
  value : String
  append : Bool := false
  deriving DecidableEq

/-- `engine.AuditHit`: a denial or failure that was not enforced. -/
structure AuditHit where
  index : Nat
  status : Int
  failed : Bool := false
  deriving DecidableEq

/-- `corev3.HeaderValueOption`, as `buildHeaderMutation` fills it. -/
structure HeaderValueOption where
  key : String
  rawValue : String
  deriving DecidableEq

/-- `engine.RequestContext`. The field defaults are the values of a context
that the pool hands out. -/
structure RequestContext where
  phase : Phase := .requestHeaders
  path : String := ""
  method : String := ""
  clientIP : String := ""
  clientAddr : Addr := .zero
  destinationAddress : String := ""
  destinationAddr : Addr := .zero
  host : String := ""
  traffic : Traffic := .any
  sourceWorkload : Option Workload := none
  destinationServices : List String := []
  requestEndOfStream : Bool := false
  requestBodySeen : Bool := false
  headers : AMap String String := ∅
  responseHeaders : AMap String String := ∅
  headersToAdd : List Header := []
  responseHeadersToAdd : List Header := []
  headersToRemove : List String := []
  responseHeadersToRemove : List String := []
  blocked : Bool := false
  /-- The chain index of the filter that blocked, `-1` when none did. -/
  blockedBy : Int := -1
  filterFailed : Bool := false
  answered : Bool := false
  auditHits : List AuditHit := []
  matchedRoute : String := ""
  responseStatus : Int := 0
  responseBody : String := ""
  upstreamShadow : AMap String String := ∅
  downstreamShadow : AMap String String := ∅
  requestBody : List UInt8 := []
  responseBodyBytes : List UInt8 := []
  requestTrailersToAdd : List Header := []
  responseTrailersToAdd : List Header := []
  requestTrailersToRemove : List String := []
  responseTrailersToRemove : List String := []
  requestBodyRequired : Bool := false
  responseBodyRequired : Bool := false
  requestTrailersRequired : Bool := false
  responseTrailersRequired : Bool := false
  requestBodyModified : Bool := false
  responseBodyModified : Bool := false
  requestTrailersModified : Bool := false
  responseTrailersModified : Bool := false
  /-- Scratch space of `buildHeaderMutation`. -/
  setHeaderOptions : List HeaderValueOption := []

/-! ## Pending changes -/

/-- Delete the first element that meets `p`; the last one takes its place. -/
def swapRemove {α : Type} (p : α → Bool) (xs : List α) : List α :=
  match xs.findIdx? p, xs.getLast? with
  | some i, some last => (xs.set i last).dropLast
  | _, _ => xs

/-- `upsertHeader`: overwrite the value of `key`, or append it. -/
def upsertHeader : List Header → String → String → List Header
  | [], key, value => [{ key, value }]
  | h :: hs, key, value =>
    if h.key = key then { h with value } :: hs else h :: upsertHeader hs key value

def removeHeader (headers : List Header) (key : String) : List Header :=
  swapRemove (fun h => h.key = key) headers

def containsKey (keys : List String) (key : String) : Bool := keys.any (· = key)

def appendKey (keys : List String) (key : String) : List String :=
  if containsKey keys key then keys else keys ++ [key]

def removeKey (keys : List String) (key : String) : List String :=
  swapRemove (fun k => k = key) keys

namespace RequestContext

/-- `Reset`, run before a context goes back to the pool. -/
def reset (ctx : RequestContext) : RequestContext :=
  { ctx with
    phase := .requestHeaders
    requestBodySeen := false
    path := ""
    method := ""
    clientIP := ""
    clientAddr := .zero
    destinationAddress := ""
    destinationAddr := .zero
    host := ""
    traffic := .any
    sourceWorkload := none
    destinationServices := []
    requestEndOfStream := false
    headers := ∅
    responseHeaders := ∅
    headersToAdd := []
    responseHeadersToAdd := []
    headersToRemove := []
    responseHeadersToRemove := []
    upstreamShadow := ∅
    downstreamShadow := ∅
    blocked := false
    blockedBy := -1
    filterFailed := false
    answered := false
    auditHits := []
    matchedRoute := ""
    responseStatus := 0
    responseBody := ""
    setHeaderOptions := []
    requestBody := []
    responseBodyBytes := []
    requestTrailersToAdd := []
    responseTrailersToAdd := []
    requestTrailersToRemove := []
    responseTrailersToRemove := []
    requestBodyRequired := false
    responseBodyRequired := false
    requestTrailersRequired := false
    responseTrailersRequired := false
    requestBodyModified := false
    responseBodyModified := false
    requestTrailersModified := false
    responseTrailersModified := false }

/-! ## Ending the request -/

/-- `Block`: deny the request. -/
def block (ctx : RequestContext) (status : Int) (body : String) : RequestContext :=
  { ctx with blocked := true, responseStatus := status, responseBody := body }

/-- `Answer`: end the request with a response that is not a denial. -/
def answer (ctx : RequestContext) (status : Int) (body : String) : RequestContext :=
  { ctx.block status body with answered := true }

/-! ## Reading headers -/

/-- `GetHeader`: the request header as later filters and the upstream see it. -/
def getHeader (ctx : RequestContext) (key : String) : String :=
  match ctx.upstreamShadow.lookup key with
  | some val => val
  | none => if containsKey ctx.headersToRemove key then "" else ctx.headers.getD key ""

def getDownstreamHeader (ctx : RequestContext) (key : String) : String :=
  ctx.downstreamShadow.getD (toLower key) ""

def setHeaderUpstream (ctx : RequestContext) (key value : String) : RequestContext :=
  let key := toLower key
  { ctx with
    upstreamShadow := ctx.upstreamShadow.insert key value
    headersToRemove := removeKey ctx.headersToRemove key
    headersToAdd := upsertHeader ctx.headersToAdd key value }

def setPath (ctx : RequestContext) (path : String) : RequestContext :=
  setHeaderUpstream { ctx with path } ":path" path

def removeHeaderUpstream (ctx : RequestContext) (key : String) : RequestContext :=
  let key := toLower key
  { ctx with
    upstreamShadow := ctx.upstreamShadow.erase key
    headersToAdd := removeHeader ctx.headersToAdd key
    headersToRemove := appendKey ctx.headersToRemove key }

def setHeaderDownstream (ctx : RequestContext) (key value : String) : RequestContext :=
  let key := toLower key
  { ctx with
    downstreamShadow := ctx.downstreamShadow.insert key value
    responseHeadersToRemove := removeKey ctx.responseHeadersToRemove key
    responseHeadersToAdd := upsertHeader ctx.responseHeadersToAdd key value }

def removeHeaderDownstream (ctx : RequestContext) (key : String) : RequestContext :=
  let key := toLower key
  { ctx with
    downstreamShadow := ctx.downstreamShadow.erase key
    responseHeadersToAdd := removeHeader ctx.responseHeadersToAdd key
    responseHeadersToRemove := appendKey ctx.responseHeadersToRemove key }

def setTrailerUpstream (ctx : RequestContext) (key value : String) : RequestContext :=
  let key := toLower key
  { ctx with
    requestTrailersToRemove := removeKey ctx.requestTrailersToRemove key
    requestTrailersToAdd := upsertHeader ctx.requestTrailersToAdd key value
    requestTrailersModified := true }

def removeHeaderUpstreamTrailer (ctx : RequestContext) (key : String) : RequestContext :=
  let key := toLower key
  { ctx with
    requestTrailersToAdd := removeHeader ctx.requestTrailersToAdd key
    requestTrailersToRemove := appendKey ctx.requestTrailersToRemove key
    requestTrailersModified := true }

def setTrailerDownstream (ctx : RequestContext) (key value : String) : RequestContext :=
  let key := toLower key
  { ctx with
    responseTrailersToRemove := removeKey ctx.responseTrailersToRemove key
    responseTrailersToAdd := upsertHeader ctx.responseTrailersToAdd key value
    responseTrailersModified := true }

def removeHeaderDownstreamTrailer (ctx : RequestContext) (key : String) : RequestContext :=
  let key := toLower key
  { ctx with
    responseTrailersToAdd := removeHeader ctx.responseTrailersToAdd key
    responseTrailersToRemove := appendKey ctx.responseTrailersToRemove key
    responseTrailersModified := true }

end RequestContext

end Hypergate.Engine
