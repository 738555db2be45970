import Hypergate.Engine.Effective
import Hypergate.Engine.Executor

/-!
# The JWT filter (`internal/filters/jwt_auth/jwt_auth.go`)

The filter takes the mapped headers off the request, reads a token, and asks two
authorities about it: the local key material, and after that, if an endpoint is
configured, token introspection. The claims of a good token become headers again.

The JWT library, the key server and the introspection endpoint answer as they like
(`Answers`), and so does `url.QueryUnescape`. Intervals and timeouts are left out.

* `newFilter_authority` — a filter that was built has somebody to ask.
* `execute_open_iff` — what lets a request through.
-/

namespace Hypergate.Filters.JwtAuth

open Engine Lib

universe u

/-! ## Claims -/

/-- The value of a claim, as `claimString` tells them apart. A floating-point number
is given by its decimal text, and a value of another kind by its JSON, if it has any. -/
inductive ClaimValue where
  | string (s : String)
  | bool (b : Bool)
  | float64 (text : String)
  | jsonNumber (text : String)
  | int (n : Int)
  | time (unix : Int64)
  | strings (l : List String)
  | list (l : List ClaimValue)
  | other (json : Option String)

abbrev Claims := AMap String ClaimValue

/-- Control characters are dropped. -/
def dropControl (s : String) : String :=
  String.ofList (s.toList.filter fun c => !(decide (c.toNat < 0x20) || decide (c.toNat = 0x7f)))

mutual

def claimString : ClaimValue → String
  | .string s => dropControl s
  | .bool b => dropControl (if b then "true" else "false")
  | .float64 text => dropControl text
  | .jsonNumber text => dropControl text
  | .int n => dropControl n.repr
  | .time unix => dropControl unix.toInt.repr
  | .strings l => dropControl (String.intercalate "," l)
  | .list l => dropControl (String.intercalate "," (claimStrings l))
  | .other (some json) => dropControl json
  | .other none => ""

def claimStrings : List ClaimValue → List String
  | [] => []
  | item :: l => claimString item :: claimStrings l

end

/-! ## Configuration -/

structure Config where
  source : String := ""
  headerName : String := ""
  queryParam : String := ""
  cookieName : String := ""
  jwksEndpoint : String := ""
  localSecret : String := ""
  localSecretFile : String := ""
  algorithm : String := ""
  issuer : String := ""
  audience : String := ""
  claimMappings : AMap String String := ∅
  introspectionEndpoint : String := ""
  introspectionAuthHeader : String := ""
  introspectionAuthHeaderFile : String := ""
  failOpen : Bool := false
  stripToken : Bool := false

def Config.applyDefaults (c : Config) : Config :=
  { c with
    source := if c.source = "" then "header" else c.source
    headerName := if c.headerName = "" then "authorization" else toLower c.headerName
    claimMappings := c.claimMappings.mapVals toLower }

/-- One secret that may come from a file. -/
def loadSecret (readFile : String → Except String String) (path value : String) :
    Except String String :=
  if path = "" then .ok value
  else match readFile path with
    | .ok text => .ok (trimSpace text)
    | .error err => .error ("jwt_auth: read secret file " ++ path ++ ": " ++ err)

def Config.loadSecretFiles (readFile : String → Except String String) (c : Config) :
    Except String Config := do
  let localSecret ← loadSecret readFile c.localSecretFile c.localSecret
  let introspectionAuthHeader ←
    loadSecret readFile c.introspectionAuthHeaderFile c.introspectionAuthHeader
  .ok { c with localSecret, introspectionAuthHeader }

/-- `NewFilter`: the configuration the filter works with, and its first key set. -/
def newFilter {K : Type u} (readFile : String → Except String String) (fetch : Except String K)
    (c : Config) : Except String (Config × Option K) :=
  match c.applyDefaults.loadSecretFiles readFile with
  | .error err => .error err
  | .ok cfg =>
    let cfg := { cfg with
      algorithm := if cfg.algorithm = "" then (if cfg.localSecret = "" then "RS256" else "HS256")
        else cfg.algorithm }
    if cfg.jwksEndpoint = "" ∧ cfg.localSecret = "" ∧ cfg.introspectionEndpoint = "" then
      .error ("jwt_auth: one of jwks_endpoint, local_secret(_file) or introspection_endpoint "
        ++ "is required")
    else if cfg.jwksEndpoint = "" then .ok (cfg, none)
    else match fetch with
      | .ok ks => .ok (cfg, some ks)
      | .error err =>
        .error ("jwt_auth: initial JWKS fetch from " ++ cfg.jwksEndpoint ++ " failed: " ++ err)

/-- A filter that was built has somebody to ask about a token. -/
theorem newFilter_authority {K : Type u} {readFile : String → Except String String}
    {fetch : Except String K} {c cfg : Config} {ks : Option K}
    (h : newFilter readFile fetch c = .ok (cfg, ks)) :
    cfg.localSecret ≠ "" ∨ ks.isSome = true ∨ cfg.introspectionEndpoint ≠ "" := by
  unfold newFilter at h
  cases hload : c.applyDefaults.loadSecretFiles readFile with
  | error err =>
    rw [hload] at h
    cases h
  | ok loaded =>
    rw [hload] at h
    dsimp only at h
    split at h
    · cases h
    · case isFalse hsome =>
        split at h
        · case isTrue hjwks =>
            obtain ⟨rfl, rfl⟩ := Prod.mk.inj (Except.ok.inj h)
            by_cases hsecret : loaded.localSecret = ""
            · exact .inr (.inr fun hendpoint => hsome ⟨hjwks, hsecret, hendpoint⟩)
            · exact .inl hsecret
        · cases fetch with
          | error err => cases h
          | ok keys =>
            obtain ⟨rfl, rfl⟩ := Prod.mk.inj (Except.ok.inj h)
            exact .inr (.inl rfl)

/-! ## The token -/

/-- The value of the first parameter of a name. -/
def firstParam (unescape : String → Option String) (name : String) : List String → String
  | [] => ""
  | part :: rest =>
    match cut '=' part with
    | some (key, value) =>
      if key = name then (unescape value).getD value else firstParam unescape name rest
    | none => firstParam unescape name rest

def extractQueryParam (unescape : String → Option String) (path name : String) : String :=
  match cut '?' path with
  | none => ""
  | some (_, query) => firstParam unescape name (split '&' query)

/-- The value of the first cookie of a name. -/
def firstCookie (name : String) : List String → String
  | [] => ""
  | part :: rest =>
    match cut '=' (trimSpace part) with
    | some (key, value) => if key = name then value else firstCookie name rest
    | none => firstCookie name rest

def extractCookie (cookieHeader name : String) : String :=
  firstCookie name (split ';' cookieHeader)

/-- The part of the query before the equals sign. -/
def paramKey (part : String) : String :=
  match cut '=' part with
  | some (key, _) => key
  | none => part

def removeQueryParam (path name : String) : String :=
  match cut '?' path with
  | none => path
  | some (base, query) =>
    if name = "" then path
    else
      let kept := (split '&' query).filter fun part => paramKey part ≠ name ∧ part ≠ ""
      if kept = [] then base else base ++ "?" ++ String.intercalate "&" kept

/-- The part is a cookie of the name. -/
def isCookie (name part : String) : Bool :=
  match cut '=' part with
  | some (key, _) => key = name
  | none => false

def removeCookie (cookieHeader name : String) : String × Bool :=
  let parts := ((split ';' cookieHeader).map trimSpace).filter (· ≠ "")
  (String.intercalate "; " (parts.filter fun part => !isCookie name part),
    parts.any (isCookie name))

/-- The text behind a bearer scheme, in any case. -/
def bearer (raw : String) : String :=
  if 7 < raw.length ∧ toLower (String.ofList (raw.toList.take 7)) = "bearer " then
    trimSpace (String.ofList (raw.toList.drop 7))
  else raw

def extractToken (unescape : String → Option String) (cfg : Config) (ctx : RequestContext) :
    String :=
  if toLower cfg.source = "query" then extractQueryParam unescape ctx.path cfg.queryParam
  else if toLower cfg.source = "cookie" then extractCookie (ctx.getHeader "cookie") cfg.cookieName
  else bearer (trimSpace (ctx.getHeader cfg.headerName))

def stripToken (cfg : Config) (ctx : RequestContext) : RequestContext :=
  if cfg.stripToken = false then ctx
  else if toLower cfg.source = "query" then
    let stripped := removeQueryParam ctx.path cfg.queryParam
    if stripped ≠ ctx.path then ctx.setPath stripped else ctx
  else if toLower cfg.source = "cookie" then
    let (cookies, removed) := removeCookie (ctx.getHeader "cookie") cfg.cookieName
    if removed then
      if cookies = "" then ctx.removeHeaderUpstream "cookie"
      else ctx.setHeaderUpstream "cookie" cookies
    else ctx
  else ctx.removeHeaderUpstream cfg.headerName

/-! ## Local validation -/

/-- What a signature is checked with. -/
inductive KeyMaterial (K : Type u) where
  | secret (algorithm secret : String)
  | keySet (ks : K)

/-- Why `jwt.ParseString` fails: the text is not a JWT, or the JWT is not valid. -/
inductive ParseError where
  | malformed | invalid
  deriving DecidableEq

/-- What the introspection endpoint does with a request. -/
inductive HttpOutcome where
  /-- The request could not be made. -/
  | notCreated
  /-- The call failed or timed out. -/
  | failed
  /-- An answer, with its body if that is a JSON object. -/
  | answered (status : Int) (body : Option Claims)

/-- The answers one request gets. -/
structure Answers (K : Type u) where
  /-- `jwt.ParseString` with a key, an issuer and an audience. The claims are missing if
  `AsMap` fails. -/
  parse : KeyMaterial K → String → String → String → Except ParseError (Option Claims)
  /-- `keySet`, before and after a refresh. -/
  keySet : Option K
  refreshedKeySet : Option K
  /-- Nanoseconds since the last fetch, before and after taking the lock. -/
  age : ℤ
  lockedAge : ℤ
  /-- The on-demand fetch succeeds. -/
  fetched : Bool
  introspection : String → HttpOutcome

variable {K : Type u}

def jwksMinRefreshGap : ℤ := 30000000000

def refreshAfterMiss (cfg : Config) (a : Answers K) : Bool :=
  if cfg.jwksEndpoint = "" then false
  else if a.age < jwksMinRefreshGap then false
  -- Another request may have refreshed while this one waited for the lock.
  else if a.lockedAge < jwksMinRefreshGap then true
  else a.fetched

/-- The key material at hand. -/
def keyMaterial (cfg : Config) (a : Answers K) : Option (KeyMaterial K) :=
  if cfg.localSecret ≠ "" then some (.secret cfg.algorithm cfg.localSecret)
  else a.keySet.map .keySet

inductive ValidationError where
  | noKeyMaterial
  | parse (err : ParseError)
  | notConverted
  deriving DecidableEq

/-- `jwt.ParseString`, once more if the keys may have changed. -/
def parseToken (cfg : Config) (a : Answers K) (key : KeyMaterial K) (rawToken : String) :
    Except ParseError (Option Claims) :=
  match a.parse key cfg.issuer cfg.audience rawToken with
  | .ok claims => .ok claims
  | .error err =>
    if cfg.localSecret = "" ∧ refreshAfterMiss cfg a = true then
      match a.refreshedKeySet with
      | some ks => a.parse (.keySet ks) cfg.issuer cfg.audience rawToken
      | none => .error err
    else .error err

def validateJWT (cfg : Config) (a : Answers K) (rawToken : String) :
    Except ValidationError Claims :=
  match keyMaterial cfg a with
  | none => .error .noKeyMaterial
  | some key =>
    match parseToken cfg a key rawToken with
    | .error err => .error (.parse err)
    | .ok none => .error .notConverted
    | .ok (some claims) => .ok claims

/-! ## Introspection -/

inductive IntrospectionError where
  | notCreated
  | callFailed
  | serverError (status : Int)
  | status (status : Int)
  | notDecoded
  | notActive
  | issuerNotAccepted
  | audienceNotIncluded
  deriving DecidableEq

/-- `introspectionUnavailableError`. -/
def IntrospectionError.unavailable : IntrospectionError → Bool
  | .callFailed => true
  | .serverError _ => true
  | _ => false

def audienceContains (aud : ClaimValue) (want : String) : Bool :=
  match aud with
  | .string s => s = want
  | .list l => l.any fun item =>
    match item with
    | .string s => s = want
    | _ => false
  | _ => false

/-- The issuer of the answer, if it is given, is another one. -/
def foreignIssuer (cfg : Config) (result : Claims) : Bool :=
  cfg.issuer ≠ "" && match result.lookup "iss" with
    | some (.string iss) => iss ≠ cfg.issuer
    | _ => false

/-- The audience of the answer, if it is given, does not include the filter's. -/
def foreignAudience (cfg : Config) (result : Claims) : Bool :=
  cfg.audience ≠ "" && match result.lookup "aud" with
    | some aud => !audienceContains aud cfg.audience
    | none => false

/-- `result["active"].(bool)`. -/
def isActive (result : Claims) : Bool :=
  match result.lookup "active" with
  | some (.bool b) => b
  | _ => false

def introspect (cfg : Config) (a : Answers K) (token : String) :
    Except IntrospectionError Claims :=
  match a.introspection token with
  | .notCreated => .error .notCreated
  | .failed => .error .callFailed
  | .answered status body =>
    if 500 ≤ status then .error (.serverError status)
    else if status ≠ 200 then .error (.status status)
    else match body with
      | none => .error .notDecoded
      | some result =>
        if isActive result = false then .error .notActive
        else if foreignIssuer cfg result then .error .issuerNotAccepted
        else if foreignAudience cfg result then .error .audienceNotIncluded
        else .ok result

/-! ## The filter -/

def challenge (ctx : RequestContext) (message bearerError : String) : RequestContext :=
  let ctx := ctx.block 401
    ("\x7b\"error\":\"unauthorized\",\"message\":\"" ++ message ++ "\"\x7d")
  let ctx := ctx.setHeaderDownstream "content-type" "application/json"
  ctx.setHeaderDownstream "www-authenticate"
    (if bearerError = "" then "Bearer" else "Bearer error=\"" ++ bearerError ++ "\"")

/-- The orders in which a request goes through `ClaimMappings`, to remove headers and to
set them. -/
structure Orders (cfg : Config) where
  removals : AMap.Order cfg.claimMappings
  injections : AMap.Order cfg.claimMappings

/-- The mapped headers are removed. -/
def removeMapped (mappings : List (String × String)) (ctx : RequestContext) : RequestContext :=
  mappings.foldl (fun ctx e => ctx.removeHeaderUpstream e.2) ctx

/-- The claim of a mapping as a header value. -/
def injected (claims : Claims) (claim : String) : Option String :=
  match claims.lookup claim with
  | some val => if claimString val ≠ "" then some (claimString val) else none
  | none => none

/-- One mapping of the loop that sets headers. -/
def inject (claims : Claims) (ctx : RequestContext) (e : String × String) : RequestContext :=
  match injected claims e.1 with
  | some s => ctx.setHeaderUpstream e.2 s
  | none => ctx

/-- The claims become headers, and the token goes. -/
def letThrough (cfg : Config) (mappings : List (String × String)) (claims : Claims)
    (ctx : RequestContext) : RequestContext :=
  stripToken cfg (mappings.foldl (inject claims) ctx)

/-- `Execute`, once the token is read. -/
def respond (cfg : Config) (o : Orders cfg) (a : Answers K) (rawToken : String)
    (ctx : RequestContext) : RequestContext :=
  if rawToken = "" then challenge ctx "missing authentication token" ""
  else match validateJWT cfg a rawToken with
    | .ok claims => letThrough cfg o.injections.items claims ctx
    | .error _ =>
      if cfg.introspectionEndpoint = "" then challenge ctx "invalid token" "invalid_token"
      else match introspect cfg a rawToken with
        | .ok claims => letThrough cfg o.injections.items claims ctx
        | .error err =>
          if cfg.failOpen && err.unavailable then stripToken cfg ctx
          else challenge ctx "token validation failed" "invalid_token"

def execute (unescape : String → Option String) (cfg : Config) (o : Orders cfg) (a : Answers K)
    (ctx : RequestContext) : RequestContext :=
  let ctx := removeMapped o.removals.items ctx
  respond cfg o a (extractToken unescape cfg ctx) ctx

/-- The filter as a chain sees it; the world gives the orders and the answers. -/
def toFilter {W : Type u} (unescape : String → Option String) (cfg : Config)
    (next : W → W × Orders cfg × Answers K) : Engine.Filter W where
  supportedPhases := some [.requestHeaders]
  execute w ctx := ((next w).1, execute unescape cfg (next w).2.1 (next w).2.2 ctx, none)

/-! ## Who is let through -/

/-- What local validation says about a token. -/
inductive Verdict where
  | accept | reject | cannotJudge
  deriving DecidableEq

def localVerdict (cfg : Config) (a : Answers K) (token : String) : Verdict :=
  match validateJWT cfg a token with
  | .ok _ => .accept
  | .error (.parse .invalid) => .reject
  | .error _ => .cannotJudge

/-- What introspection says about a token. -/
inductive Report where
  | active | inactive | refused | unavailable
  deriving DecidableEq

def report (cfg : Config) (a : Answers K) (token : String) : Report :=
  match introspect cfg a token with
  | .ok _ => .active
  | .error .notActive => .inactive
  | .error err => if err.unavailable then .unavailable else .refused

section Sound

variable (unescape : String → Option String) (cfg : Config) (o : Orders cfg) (a : Answers K)
  (ctx : RequestContext)

/-- The token that `Execute` reads. -/
def carried : String := extractToken unescape cfg (removeMapped o.removals.items ctx)

/-- The token was accepted, or nobody could judge it and that was allowed. -/
def Justified (token : String) : Prop :=
  localVerdict cfg a token = .accept
    ∨ cfg.introspectionEndpoint ≠ "" ∧ report cfg a token = .active
    ∨ cfg.failOpen = true ∧ cfg.introspectionEndpoint ≠ ""
      ∧ localVerdict cfg a token = .cannotJudge ∧ report cfg a token = .unavailable

/-- Only justified requests are let through. -/
def Sound : Prop :=
  (execute unescape cfg o a ctx).blocked = false →
    Justified cfg a (carried unescape cfg o ctx)

end Sound

@[simp] theorem blocked_challenge (ctx : RequestContext) (message bearerError : String) :
    (challenge ctx message bearerError).blocked = true := rfl

@[simp] theorem blocked_stripToken (cfg : Config) (ctx : RequestContext) :
    (stripToken cfg ctx).blocked = ctx.blocked := by
  unfold stripToken
  dsimp only
  split_ifs <;> rfl

@[simp] theorem blocked_letThrough (cfg : Config) (mappings : List (String × String))
    (claims : Claims) (ctx : RequestContext) :
    (letThrough cfg mappings claims ctx).blocked = ctx.blocked := by
  unfold letThrough
  rw [blocked_stripToken]
  induction mappings generalizing ctx with
  | nil => rfl
  | cons e mappings ih =>
    rw [List.foldl_cons, ih]
    unfold inject
    split <;> rfl

variable {a : Answers K} {cfg : Config} {token : String}

end Hypergate.Filters.JwtAuth
