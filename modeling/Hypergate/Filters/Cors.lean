import Hypergate.Engine.Executor
import Hypergate.Lib.Splitting

/-!
# The CORS filter (`internal/filters/cors/cors.go`)

Preflight requests are answered by the filter. For other requests from an allowed origin the
`Access-Control-*` headers are queued in the request phase; when the upstream's response arrives,
`Vary` is merged with the upstream's own value. The filter decides about the origin in each of the
two phases anew.

`regexp.Compile` is a parameter, and a compiled expression the set of texts it matches.

* `CorsFilter.new_reflects` — which accepted configurations reflect the origin.
* `mergeVary_covers` — the merged value has every token of the upstream's and `Origin` or `*`.
* `execute_vary_request` — what a call in the request phase leaves pending for `vary`.
-/

namespace Hypergate.Filters

open Lib Engine

universe u

/-- `cors.Config`. -/
structure CorsConfig where
  allowOrigins : List String := []
  allowOriginRegex : List String := []
  allowMethods : List String := []
  allowHeaders : List String := []
  exposeHeaders : List String := []
  allowCredentials : Bool := false
  maxAge : Int := 0
  blockDisallowedOrigins : Bool := false

/-- `cors.Filter`. -/
structure CorsFilter where
  cfg : CorsConfig
  anyOrigin : Bool
  origins : List String
  originRegexps : List (String → Bool)
  methods : String
  anyMethod : Bool
  headers : String
  anyHeader : Bool
  expose : String
  maxAge : String

/-! ## `NewFilter` -/

/-- `strings.ToUpper` on ASCII text. -/
def toUpper (s : String) : String := String.ofList (s.toList.map Char.toUpper)

/-- The items of `joinList`, or `none` when one of them is `*`. -/
def joinItems (norm : String → String) : List String → Option (List String)
  | [] => some []
  | it :: rest =>
    let it := trimSpace it
    if it = "*" then none
    else (joinItems norm rest).map fun out => if it ≠ "" then norm it :: out else out

def joinList (items : List String) (norm : String → String) : String × Bool :=
  match joinItems norm items with
  | none => ("", true)
  | some out => (", ".intercalate out, false)

/-- One entry of `allow_origins`, as it is stored: `none` for `*` and blanks. -/
def originEntry (o : String) : Option String :=
  let o := trimSpace o
  if o = "*" ∨ o = "" then none else some (toLower (trimSuffix o "/"))

/-- One entry of `allow_origin_regex`. -/
def compileOrigin (compile : String → Except String (String → Bool)) (pattern : String) :
    Except String (String → Bool) :=
  (compile ("^(?:" ++ pattern ++ ")$")).mapError fun err =>
    "cors: invalid allow_origin_regex \"" ++ pattern ++ "\": " ++ err

/-- `NewFilter`. -/
def CorsFilter.new (compile : String → Except String (String → Bool)) (cfg : CorsConfig) :
    Except String CorsFilter := do
  let anyOrigin := cfg.allowOrigins.any fun o => trimSpace o = "*"
  let origins := cfg.allowOrigins.filterMap originEntry
  let originRegexps ← cfg.allowOriginRegex.mapM (compileOrigin compile)
  if !anyOrigin && origins.isEmpty && originRegexps.isEmpty then
    .error "cors: at least one of allow_origins or allow_origin_regex is required"
  else if anyOrigin && cfg.allowCredentials then
    .error ("cors: allow_credentials cannot be combined with allow_origins \"*\"; " ++
      "list the origins explicitly")
  else if cfg.maxAge < 0 then .error "cors: max_age must be >= 0"
  else
    let methods :=
      joinList (if cfg.allowMethods.isEmpty then ["GET", "HEAD", "POST"] else cfg.allowMethods)
        toUpper
    let headers := joinList cfg.allowHeaders toLower
    .ok
      { cfg
        anyOrigin
        origins
        originRegexps
        methods := methods.1
        anyMethod := methods.2
        headers := headers.1
        anyHeader := headers.2
        expose := (joinList cfg.exposeHeaders toLower).1
        maxAge := if 0 < cfg.maxAge then cfg.maxAge.repr else "" }

/-! ## `Execute` -/

/-- `strings.EqualFold` with a text of ASCII letters other than `k` and `s`, which alone fold to
something that is not ASCII. -/
def equalFold (s t : String) : Bool := toLower s = toLower t

def mergeVary (existing token : String) : String :=
  if existing = "" then token
  else if (split ',' existing).any fun part =>
      trimSpace part = "*" || equalFold (trimSpace part) token then existing
  else existing ++ ", " ++ token

namespace CorsFilter

variable (f : CorsFilter)

def originAllowed (origin : String) : Bool :=
  f.anyOrigin || f.origins.contains (toLower origin) || f.originRegexps.any (· origin)

def reflectsOrigin : Bool := !f.anyOrigin

def setAllowOrigin (ctx : RequestContext) (origin : String) : RequestContext :=
  let ctx :=
    if f.reflectsOrigin then
      (ctx.setHeaderDownstream "access-control-allow-origin" origin).setHeaderDownstream
        "vary" "Origin"
    else ctx.setHeaderDownstream "access-control-allow-origin" "*"
  if f.cfg.allowCredentials then
    ctx.setHeaderDownstream "access-control-allow-credentials" "true"
  else ctx

/-- The request is a preflight. -/
def preflight (ctx : RequestContext) : Bool :=
  ctx.method = "OPTIONS" && ctx.getHeader "access-control-request-method" ≠ ""

/-- The headers of the answer to a preflight from an allowed origin. -/
def preflightHeaders (ctx : RequestContext) : RequestContext :=
  let methods := if f.anyMethod then toUpper (ctx.getHeader "access-control-request-method")
    else f.methods
  let headers := if f.anyHeader then ctx.getHeader "access-control-request-headers" else f.headers
  let ctx := ctx.setHeaderDownstream "access-control-allow-methods" methods
  let ctx := if headers ≠ "" then ctx.setHeaderDownstream "access-control-allow-headers" headers
    else ctx
  if f.maxAge ≠ "" then ctx.setHeaderDownstream "access-control-max-age" f.maxAge else ctx

/-- The request phase of `Execute`, for a request with an origin. -/
def executeRequest (ctx : RequestContext) (origin : String) : RequestContext :=
  if !f.originAllowed origin then
    if preflight ctx || f.cfg.blockDisallowedOrigins then ctx.block 403 "CORS origin not allowed"
    else ctx
  else if preflight ctx then (f.preflightHeaders (f.setAllowOrigin ctx origin)).answer 204 ""
  else if f.expose ≠ "" then
    (f.setAllowOrigin ctx origin).setHeaderDownstream "access-control-expose-headers" f.expose
  else f.setAllowOrigin ctx origin

def execute (ctx : RequestContext) : RequestContext :=
  let origin := ctx.getHeader "origin"
  if origin = "" then ctx
  else if ctx.phase = .responseHeaders then
    if f.originAllowed origin && f.reflectsOrigin then
      ctx.setHeaderDownstream "vary" (mergeVary (ctx.responseHeaders.getD "vary" "") "Origin")
    else ctx
  else f.executeRequest ctx origin

/-- The filter as a chain sees it. -/
def toFilter {W : Type u} : Engine.Filter W where
  supportedPhases := some [.requestHeaders, .responseHeaders]
  execute w ctx := (w, f.execute ctx, none)

/-- The filter reads an origin that it allows. -/
def Allows (ctx : RequestContext) : Prop :=
  ctx.getHeader "origin" ≠ "" ∧ f.originAllowed (ctx.getHeader "origin") = true

end CorsFilter

/-- A filter reflects the origin unless `*` is listed, and one that lets credentials through
always does. -/
theorem CorsFilter.new_reflects {compile : String → Except String (String → Bool)}
    {cfg : CorsConfig} {f : CorsFilter} (h : CorsFilter.new compile cfg = .ok f) :
    (f.reflectsOrigin = true ↔ ∀ o ∈ cfg.allowOrigins, trimSpace o ≠ "*")
      ∧ (cfg.allowCredentials = true → f.reflectsOrigin = true) := by
  obtain ⟨regexps, -, hchecks⟩ := of_bind_eq_ok h
  dsimp only at hchecks
  rw [guard_eq_ok_iff, guard_eq_ok_iff, guard_eq_ok_iff] at hchecks
  obtain ⟨-, hcredentials, -, hf⟩ := hchecks
  cases hf
  constructor
  · simp [reflectsOrigin]
  · intro hallow
    rw [hallow, Bool.and_true, Bool.not_eq_true] at hcredentials
    simp [reflectsOrigin, hcredentials]

/-! ## Tokens of `Vary` -/

/-- The tokens of a `Vary` value: field names, which have no case. -/
def varyTokens (v : String) : List String :=
  ((split ',' v).map fun part => toLower (trimSpace part)).filter fun t => t ≠ ""

/-- `v` has every token of `upstream`, and says that the response depends on the origin. -/
def Covers (v upstream : String) : Prop :=
  (∀ t ∈ varyTokens upstream, t ∈ varyTokens v) ∧ ("origin" ∈ varyTokens v ∨ "*" ∈ varyTokens v)

theorem mem_varyTokens {v t : String} :
    t ∈ varyTokens v ↔ (∃ part ∈ split ',' v, toLower (trimSpace part) = t) ∧ t ≠ "" := by
  simp [varyTokens]

theorem varyTokens_origin : varyTokens "Origin" = ["origin"] := by decide

theorem varyTokens_append_origin (v : String) :
    varyTokens (v ++ ", " ++ "Origin") = varyTokens v ++ ["origin"] := by
  have htext : v ++ ", " ++ "Origin" = v ++ String.singleton ',' ++ " Origin" := by
    rw [String.append_assoc, String.append_assoc]
    rfl
  have hlast : split ',' " Origin" = [" Origin"] := by decide
  unfold varyTokens
  rw [htext, split_append, hlast, List.map_append, List.filter_append]
  congr 1

/-- A merged value has every token of the upstream's, and `Origin` or `*`. -/
theorem mergeVary_covers (existing : String) :
    Covers (mergeVary existing "Origin") existing := by
  unfold mergeVary
  by_cases hempty : existing = ""
  · rw [if_pos hempty, hempty]
    exact ⟨by decide, .inl (by decide)⟩
  rw [if_neg hempty]
  by_cases hthere : ((split ',' existing).any fun part =>
      trimSpace part = "*" || equalFold (trimSpace part) "Origin") = true
  · -- the upstream's value says it already
    rw [if_pos hthere]
    refine ⟨fun t ht => ht, ?_⟩
    obtain ⟨part, hpart, hsays⟩ := List.any_eq_true.mp hthere
    rcases (Bool.or_eq_true _ _).mp hsays with hstar | horigin
    · right
      refine mem_varyTokens.mpr ⟨⟨part, hpart, ?_⟩, by decide⟩
      rw [of_decide_eq_true hstar]
      decide
    · left
      refine mem_varyTokens.mpr ⟨⟨part, hpart, ?_⟩, by decide⟩
      exact of_decide_eq_true horigin
  · rw [if_neg hthere]
    unfold Covers
    rw [varyTokens_append_origin]
    refine ⟨fun t ht => List.mem_append_left _ ht, .inl ?_⟩
    exact List.mem_append_right _ List.mem_cons_self

/-- The filter's own value covers an upstream's that names nothing else. -/
theorem covers_origin_iff (upstream : String) :
    Covers "Origin" upstream ↔ ∀ t ∈ varyTokens upstream, t = "origin" := by
  unfold Covers
  rw [varyTokens_origin]
  simp

/-! ## What is pending for `vary` -/

theorem downstreamShadow_answer (ctx : RequestContext) (status : Int) (body : String) :
    (ctx.answer status body).downstreamShadow = ctx.downstreamShadow := rfl

theorem vary_setHeaderDownstream {key : String} (hkey : toLower key ≠ "vary") (value : String)
    (ctx : RequestContext) :
    (ctx.setHeaderDownstream key value).downstreamShadow.lookup "vary"
      = ctx.downstreamShadow.lookup "vary" := by
  show (ctx.downstreamShadow.insert (toLower key) value).lookup "vary" = _
  rw [AMap.lookup_insert_ite, if_neg (Ne.symm hkey)]

theorem vary_set_if {key : String} (hkey : toLower key ≠ "vary") (p : Prop) [Decidable p]
    (value : String) (ctx : RequestContext) :
    (if p then ctx.setHeaderDownstream key value else ctx).downstreamShadow.lookup "vary"
      = ctx.downstreamShadow.lookup "vary" := by
  split
  · exact vary_setHeaderDownstream hkey value ctx
  · rfl

theorem vary_setHeaderDownstream_self (value : String) (ctx : RequestContext) :
    (ctx.setHeaderDownstream "vary" value).downstreamShadow.lookup "vary" = some value := by
  have hkey : toLower "vary" = "vary" := by decide
  show (ctx.downstreamShadow.insert (toLower "vary") value).lookup "vary" = _
  rw [hkey, AMap.lookup_insert_ite, if_pos rfl]

namespace CorsFilter

variable {f : CorsFilter}

theorem setAllowOrigin_vary (hreflects : f.reflectsOrigin = true) (ctx : RequestContext)
    (origin : String) :
    (f.setAllowOrigin ctx origin).downstreamShadow.lookup "vary" = some "Origin" := by
  unfold setAllowOrigin
  rw [if_pos hreflects]
  exact (vary_set_if (by decide) ..).trans (vary_setHeaderDownstream_self ..)

theorem preflightHeaders_vary (ctx : RequestContext) :
    (f.preflightHeaders ctx).downstreamShadow.lookup "vary"
      = ctx.downstreamShadow.lookup "vary" := by
  unfold preflightHeaders
  -- three other headers are set, two of them under a condition
  rw [vary_set_if, vary_set_if, vary_setHeaderDownstream]
  all_goals decide

variable {ctx : RequestContext}

/-- In the request phase: `Origin` for an allowed origin, and otherwise what was pending. -/
theorem execute_vary_request (hreflects : f.reflectsOrigin = true)
    (hphase : ctx.phase ≠ .responseHeaders) :
    (f.Allows ctx ∧ (f.execute ctx).downstreamShadow.lookup "vary" = some "Origin")
      ∨ (¬ f.Allows ctx ∧ (f.execute ctx).downstreamShadow.lookup "vary"
        = ctx.downstreamShadow.lookup "vary") := by
  unfold execute
  by_cases hnone : ctx.getHeader "origin" = ""
  · right
    rw [if_pos hnone]
    exact ⟨fun h => h.1 hnone, rfl⟩
  rw [if_neg hnone, if_neg hphase]
  unfold executeRequest
  cases hallowed : f.originAllowed (ctx.getHeader "origin") with
  | false =>
    right
    refine ⟨fun h => absurd (hallowed.symm.trans h.2) (by simp), ?_⟩
    rw [if_pos (by simp)]
    split
    · rfl
    · rfl
  | true =>
    left
    refine ⟨⟨hnone, hallowed⟩, ?_⟩
    rw [if_neg (by simp)]
    split
    · rw [downstreamShadow_answer, preflightHeaders_vary, setAllowOrigin_vary hreflects]
    · exact (vary_set_if (by decide) ..).trans (setAllowOrigin_vary hreflects ..)

/-- In the response phase the value is merged if the origin is allowed. -/
theorem execute_response_of_allows (hreflects : f.reflectsOrigin = true)
    (hphase : ctx.phase = .responseHeaders) (h : f.Allows ctx) :
    f.execute ctx = ctx.setHeaderDownstream "vary"
      (mergeVary (ctx.responseHeaders.getD "vary" "") "Origin") := by
  unfold execute
  rw [if_neg h.1, if_pos hphase, if_pos (by rw [h.2, hreflects]; rfl)]

theorem execute_response_of_not_allows (hphase : ctx.phase = .responseHeaders)
    (h : ¬ f.Allows ctx) :
    f.execute ctx = ctx := by
  unfold execute
  by_cases hnone : ctx.getHeader "origin" = ""
  · rw [if_pos hnone]
  rw [if_neg hnone, if_pos hphase]
  cases hallowed : f.originAllowed (ctx.getHeader "origin") with
  | false => rfl
  | true => exact absurd ⟨hnone, hallowed⟩ h

end CorsFilter

end Hypergate.Filters
