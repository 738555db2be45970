import Mathlib.Data.List.Induction
import Hypergate.Lib.AMap
import Hypergate.Lib.Strings

/-!
# Authenticating engines (`hyper-operator/internal/identity/tokenreview.go`)

`Authenticate` asks the TokenReview API about a bearer token and keeps what it
accepted in a cache under the digest of the token, until the token expires and for
at most the TTL. Whether the username may read identities is asked in every call.

* `Accounted` — what the cache holds after a sequence of calls: for every entry a
  call that stored it, with both bounds on its lifetime. Sweeps only take entries
  away.

Times are nanoseconds since the Unix epoch, as integers. What the calls read from
the clock is part of the call, and no result depends on the order of the readings.
A text in quotes (`%q`) is the text between quotes. The digest, the base64 decoding
and the JSON decoding of the `exp` claim (zero when the payload has none) are
parameters.
-/

namespace Hypergate.Operator

open Lib

/-! ## The model -/

def tokenAudience : String := "hypergate-identity"

/-- `TokenReviewStatus`, the fields that are read. -/
structure TokenReviewStatus where
  authenticated : Bool := false
  error : String := ""
  audiences : List String := []
  username : String := ""

structure CachedReview where
  username : String
  expires : Int

/-- The errors, by what `errors.Is` finds in them. -/
inductive AuthError where
  | tokenReview (err : String)
  | unauthenticated (msg : String)
  | forbidden (username : String)

def AuthError.text : AuthError → String
  | .tokenReview err => "token review: " ++ err
  | .unauthenticated msg => "token not accepted: " ++ msg
  | .forbidden username => "identity not allowed: " ++ username

/-- The library functions that read a token. -/
structure TokenCodec (D : Type) where
  sha256 : String → D
  /-- `base64.RawURLEncoding.DecodeString`. -/
  decodeString : String → Option (List UInt8)
  /-- `json.Unmarshal` into the claims. -/
  unmarshalExp : List UInt8 → Option Int64

/-- `TokenReviewAuthenticator`, its settings. -/
structure TokenReviewAuthenticator where
  audience : String := ""
  ttl : Int := 0

/-- One call of `Authenticate`, with everything it gets from outside: the answer of
the TokenReview API, the decisions of `Allowed`, and the readings of the clock at
the look-up, at the store, and for each entry of a sweep. -/
structure AuthCall (D : Type) where
  token : String
  checkedAt : Int
  review : Except String TokenReviewStatus
  allowed : String → Bool
  storedAt : Int
  sweptAt : D → Int

section Model

variable {D : Type} [DecidableEq D] (codec : TokenCodec D) (a : TokenReviewAuthenticator)

namespace TokenCodec

/-- `time.Unix(sec, 0)`. The seconds are kept since the year 1, in 64 bits. -/
def unixTime (sec : Int64) : Int :=
  ((sec.toInt + 62135596800).bmod 18446744073709551616 - 62135596800) * 1000000000

/-- The `exp` claim, when it can be read and is not zero. -/
def expClaim (token : String) : Option Int64 :=
  match split '.' token with
  | [_, payload, _] =>
    match (codec.decodeString payload).bind codec.unmarshalExp with
    | some exp => if exp = 0 then none else some exp
    | none => none
  | _ => none

def tokenExpiry (token : String) : Option Int := (codec.expClaim token).map unixTime

end TokenCodec

namespace TokenReviewAuthenticator

def expectedAudience : String := if a.audience = "" then tokenAudience else a.audience

/-- The TTL, 5 minutes by default. -/
def lifetime : Int := if a.ttl ≤ 0 then 300000000000 else a.ttl

/-- What the cache has for the token. -/
def cached (cache : AMap D CachedReview) (call : AuthCall D) : Option CachedReview :=
  match cache.lookup (codec.sha256 call.token) with
  | some c => if call.checkedAt < c.expires then some c else none
  | none => none

/-- The TokenReview and the checks of its answer. -/
def askReview (call : AuthCall D) : Except AuthError String :=
  match call.review with
  | .error err => .error (.tokenReview err)
  | .ok st =>
    if st.authenticated = false then
      .error (.unauthenticated (if st.error = "" then "not authenticated" else st.error))
    else if st.audiences ≠ [] ∧ a.expectedAudience ∉ st.audiences then
      .error (.unauthenticated ("token audience is not \"" ++ a.expectedAudience ++ "\""))
    else if call.allowed st.username = false then .error (.forbidden st.username)
    else .ok st.username

def expires (call : AuthCall D) : Int :=
  match codec.tokenExpiry call.token with
  | some exp => if exp < call.storedAt + a.lifetime then exp else call.storedAt + a.lifetime
  | none => call.storedAt + a.lifetime

/-- A large cache is swept before the next entry is written. -/
def swept (cache : AMap D CachedReview) (call : AuthCall D) : AMap D CachedReview :=
  if 1024 < cache.entries.length then
    AMap.filter (fun k c => decide (call.sweptAt k < c.expires)) cache
  else cache

def store (cache : AMap D CachedReview) (call : AuthCall D) (username : String) :
    AMap D CachedReview :=
  (swept cache call).insert (codec.sha256 call.token) ⟨username, a.expires codec call⟩

def authenticate (cache : AMap D CachedReview) (call : AuthCall D) :
    Except AuthError String × AMap D CachedReview :=
  match cached codec cache call with
  | some c =>
    -- an engine namespace may have been removed since the review
    (if call.allowed c.username = false then .error (.forbidden c.username) else .ok c.username,
      cache)
  | none =>
    match a.askReview call with
    | .error e => (.error e, cache)
    | .ok username => (.ok username, a.store codec cache call username)

/-- The cache after a sequence of calls. -/
def cacheAfter (calls : List (AuthCall D)) : AMap D CachedReview :=
  calls.foldl (fun cache call => (a.authenticate codec cache call).2) ∅

end TokenReviewAuthenticator

/-! ## What a call was given -/

/-- The TokenReview of the call accepted the token for the username. -/
structure AcceptedFor (call : AuthCall D) (username : String) : Prop where
  answered : ∃ st, call.review = .ok st ∧ st.authenticated = true
    ∧ (st.audiences = [] ∨ a.expectedAudience ∈ st.audiences) ∧ st.username = username

/-- After the calls `before`, the call made a TokenReview, and it was accepted. -/
structure Reviewed (before : List (AuthCall D)) (call : AuthCall D) (username : String) :
    Prop where
  asked : TokenReviewAuthenticator.cached codec (a.cacheAfter codec before) call = none
  accepted : AcceptedFor a call username

/-- The call made such a review and stored its result. -/
structure StoredReview (before : List (AuthCall D)) (call : AuthCall D) (username : String) :
    Prop where
  reviewed : Reviewed codec a before call username
  stored : (a.cacheAfter codec (before ++ [call])).lookup (codec.sha256 call.token)
    = some ⟨username, a.expires codec call⟩

end Model

/-! ## One call -/

section Soundness

variable {D : Type} {codec : TokenCodec D} {a : TokenReviewAuthenticator}
  {cache : AMap D CachedReview} {before : List (AuthCall D)} {call : AuthCall D}
  {username : String}

namespace TokenReviewAuthenticator

theorem askReview_eq_ok (h : a.askReview call = .ok username) :
    AcceptedFor a call username ∧ call.allowed username = true := by
  unfold askReview at h
  cases hreview : call.review with
  | error err =>
    rw [hreview] at h
    cases h
  | ok st =>
    rw [hreview] at h
    dsimp only at h
    by_cases hauth : st.authenticated = false
    · rw [if_pos hauth] at h
      cases h
    rw [if_neg hauth] at h
    by_cases haud : st.audiences ≠ [] ∧ a.expectedAudience ∉ st.audiences
    · rw [if_pos haud] at h
      cases h
    rw [if_neg haud] at h
    by_cases hallowed : call.allowed st.username = false
    · rw [if_pos hallowed] at h
      cases h
    rw [if_neg hallowed] at h
    cases h
    refine ⟨⟨st, hreview, by simpa using hauth, ?_, rfl⟩, by simpa using hallowed⟩
    by_cases hnone : st.audiences = []
    · exact .inl hnone
    · exact .inr (by simpa [hnone] using haud)

theorem expires_le_lifetime (codec : TokenCodec D) (a : TokenReviewAuthenticator)
    (call : AuthCall D) : a.expires codec call ≤ call.storedAt + a.lifetime := by
  unfold expires
  split
  · split
    · omega
    · exact Int.le_refl _
  · exact Int.le_refl _

/-- Seconds that do not fit wrap to the distant past, never to the future. -/
theorem unixTime_le (sec : Int64) : TokenCodec.unixTime sec ≤ sec.toInt * 1000000000 := by
  have hlow := Int64.le_toInt sec
  have hhigh := Int64.toInt_lt sec
  have hwrap : (sec.toInt + 62135596800).bmod 18446744073709551616
      ≤ sec.toInt + 62135596800 := by
    rw [Int.bmod_def]
    split <;> omega
  unfold TokenCodec.unixTime
  omega

theorem expires_le_claim {exp : Int64} (h : codec.expClaim call.token = some exp) :
    a.expires codec call ≤ exp.toInt * 1000000000 := by
  have hread : codec.tokenExpiry call.token = some (TokenCodec.unixTime exp) := by
    unfold TokenCodec.tokenExpiry
    rw [h]
    rfl
  have hunix := unixTime_le exp
  unfold expires
  rw [hread]
  dsimp only
  split
  · exact hunix
  · omega

variable [DecidableEq D]

variable {c : CachedReview}

/-- A call that answers from the cache leaves it alone. -/
theorem authenticate_cached (h : cached codec cache call = some c) :
    (a.authenticate codec cache call).2 = cache := by
  unfold authenticate
  rw [h]

/-- It returns the cached username, if that is allowed now. -/
theorem eq_of_authenticate_cached (h : cached codec cache call = some c)
    (hok : (a.authenticate codec cache call).1 = .ok username) :
    username = c.username ∧ call.allowed username = true := by
  unfold authenticate at hok
  rw [h] at hok
  dsimp only at hok
  by_cases hallowed : call.allowed c.username = false
  · rw [if_pos hallowed] at hok
    cases hok
  · rw [if_neg hallowed] at hok
    cases hok
    exact ⟨rfl, by simpa using hallowed⟩

/-- A call that asks stores what it returns, and nothing else. -/
theorem authenticate_asked (h : cached codec cache call = none) :
    (a.authenticate codec cache call).2 = cache
        ∧ (∀ username, (a.authenticate codec cache call).1 ≠ .ok username)
      ∨ ∃ username, AcceptedFor a call username ∧ call.allowed username = true
        ∧ (a.authenticate codec cache call).1 = .ok username
        ∧ (a.authenticate codec cache call).2 = a.store codec cache call username := by
  unfold authenticate
  rw [h]
  cases hask : a.askReview call with
  | error e => exact .inl ⟨rfl, fun _ => by simp⟩
  | ok username =>
    obtain ⟨haccepted, hallowed⟩ := askReview_eq_ok hask
    exact .inr ⟨username, haccepted, hallowed, rfl, rfl⟩

theorem cached_eq_some (h : cached codec cache call = some c) :
    cache.lookup (codec.sha256 call.token) = some c ∧ call.checkedAt < c.expires := by
  unfold cached at h
  cases hentry : cache.lookup (codec.sha256 call.token) with
  | none =>
    rw [hentry] at h
    cases h
  | some c' =>
    rw [hentry] at h
    dsimp only at h
    by_cases hlive : call.checkedAt < c'.expires
    · rw [if_pos hlive] at h
      cases h
      exact ⟨rfl, hlive⟩
    · rw [if_neg hlive] at h
      cases h

theorem lookup_swept {k : D} (h : (swept cache call).lookup k = some c) :
    cache.lookup k = some c := by
  unfold swept at h
  split at h
  · rw [AMap.lookup_filter, Option.filter_eq_some_iff] at h
    exact h.1
  · exact h

theorem lookup_store {k : D} (h : (a.store codec cache call username).lookup k = some c) :
    k = codec.sha256 call.token ∧ c = ⟨username, a.expires codec call⟩
      ∨ cache.lookup k = some c := by
  unfold store at h
  rw [AMap.lookup_insert_ite] at h
  split at h
  · case isTrue hk =>
      cases h
      exact .inl ⟨hk, rfl⟩
  · exact .inr (lookup_swept h)

end TokenReviewAuthenticator

/-! ## Sequences of calls -/

open TokenReviewAuthenticator

variable [DecidableEq D]

theorem cacheAfter_concat (calls : List (AuthCall D)) (call : AuthCall D) :
    a.cacheAfter codec (calls ++ [call])
      = (a.authenticate codec (a.cacheAfter codec calls) call).2 := by
  unfold cacheAfter
  rw [List.foldl_append]
  rfl

/-- An entry of the cache goes back to a call that stored it. -/
def Accounted (codec : TokenCodec D) (a : TokenReviewAuthenticator) (calls : List (AuthCall D))
    (k : D) (c : CachedReview) : Prop :=
  ∃ before call after, calls = before ++ call :: after ∧ codec.sha256 call.token = k
    ∧ StoredReview codec a before call c.username ∧ c.expires = a.expires codec call

theorem Accounted.concat {k : D} {c : CachedReview} {calls : List (AuthCall D)}
    (h : Accounted codec a calls k c) (next : AuthCall D) :
    Accounted codec a (calls ++ [next]) k c := by
  obtain ⟨before, call, after, rfl, hrest⟩ := h
  exact ⟨before, call, after ++ [next], by simp, hrest⟩

/-- The call that ends with a successful review stored it. -/
theorem storedReview_of_asked
    (hasked : cached codec (a.cacheAfter codec before) call = none)
    (haccepted : AcceptedFor a call username)
    (hstore : (a.authenticate codec (a.cacheAfter codec before) call).2
      = a.store codec (a.cacheAfter codec before) call username) :
    StoredReview codec a before call username := by
  refine ⟨⟨hasked, haccepted⟩, ?_⟩
  rw [cacheAfter_concat, hstore]
  unfold store
  rw [AMap.lookup_insert_ite, if_pos rfl]

theorem cacheAfter_accounted (calls : List (AuthCall D)) {k : D} {c : CachedReview}
    (h : (a.cacheAfter codec calls).lookup k = some c) : Accounted codec a calls k c := by
  -- only the last call can have changed the cache
  induction calls using List.reverseRecOn with
  | nil => cases h
  | append_singleton calls call ih =>
    rw [cacheAfter_concat] at h
    cases hcached : cached codec (a.cacheAfter codec calls) call with
    | some hit =>
      rw [authenticate_cached hcached] at h
      exact (ih h).concat call
    | none =>
      rcases authenticate_asked (a := a) hcached with
        ⟨hsame, -⟩ | ⟨username, haccepted, -, -, hstore⟩
      · rw [hsame] at h
        exact (ih h).concat call
      rw [hstore] at h
      rcases lookup_store h with ⟨rfl, rfl⟩ | hold
      · exact ⟨calls, call, [], rfl, rfl,
          storedReview_of_asked hcached haccepted hstore, rfl⟩
      · exact (ih hold).concat call

theorem success_reviewed (hinj : Function.Injective codec.sha256)
    (hok : (a.authenticate codec (a.cacheAfter codec before) call).1 = .ok username) :
    call.allowed username = true
      ∧ (Reviewed codec a before call username
        ∨ ∃ pre earlier mid, before = pre ++ earlier :: mid ∧ earlier.token = call.token
          ∧ StoredReview codec a pre earlier username
          ∧ call.checkedAt < earlier.storedAt + a.lifetime
          ∧ ∀ exp, codec.expClaim call.token = some exp →
            call.checkedAt < exp.toInt * 1000000000) := by
  cases hcached : cached codec (a.cacheAfter codec before) call with
  | none =>
    rcases authenticate_asked (a := a) hcached with ⟨-, hno⟩ | ⟨u, haccepted, hallowed, hu, -⟩
    · exact absurd hok (hno username)
    · rw [hok] at hu
      cases hu
      exact ⟨hallowed, .inl ⟨hcached, haccepted⟩⟩
  | some c =>
    obtain ⟨rfl, hallowed⟩ := eq_of_authenticate_cached hcached hok
    obtain ⟨hentry, hlive⟩ := cached_eq_some hcached
    obtain ⟨pre, earlier, mid, hsplit, hkey, hstored, hexpires⟩ :=
      cacheAfter_accounted before hentry
    have htoken : earlier.token = call.token := hinj hkey
    refine ⟨hallowed, .inr ⟨pre, earlier, mid, hsplit, htoken, hstored, ?_, fun exp hexp => ?_⟩⟩
    · have hbound := expires_le_lifetime codec a earlier
      omega
    · rw [← htoken] at hexp
      have hbound := expires_le_claim (a := a) hexp
      omega

end Soundness

/-- A call of any sequence that succeeds was allowed the username now, and a review
of this token was accepted for it: in this call, or in an earlier one that stored
it, within the TTL and before the `exp` claim. A token whose reviews were all
refused or failed does not succeed. -/
theorem authenticate_sound {D : Type} [DecidableEq D] (codec : TokenCodec D)
    (hinj : Function.Injective codec.sha256) (a : TokenReviewAuthenticator)
    (calls : List (AuthCall D)) :
    (∀ before call after username, calls = before ++ call :: after →
      (a.authenticate codec (a.cacheAfter codec before) call).1 = .ok username →
      call.allowed username = true
        ∧ (Reviewed codec a before call username
          ∨ ∃ pre earlier mid, before = pre ++ earlier :: mid ∧ earlier.token = call.token
            ∧ StoredReview codec a pre earlier username
            ∧ call.checkedAt < earlier.storedAt + a.lifetime
            ∧ ∀ exp, codec.expClaim call.token = some exp →
              call.checkedAt < exp.toInt * 1000000000))
      ∧ ∀ token, (∀ before call after, calls = before ++ call :: after → call.token = token →
          ∀ username, ¬ Reviewed codec a before call username) →
        ∀ before call after, calls = before ++ call :: after → call.token = token →
          ∀ username, (a.authenticate codec (a.cacheAfter codec before) call).1 ≠ .ok username := by
  refine ⟨fun before call after username _ hok => success_reviewed hinj hok, ?_⟩
  intro token hrefused before call after hcalls htoken username hok
  obtain ⟨-, hnow | ⟨pre, earlier, mid, rfl, hsame, hstored, -⟩⟩ := success_reviewed hinj hok
  · exact hrefused before call after hcalls htoken username hnow
  · refine hrefused pre earlier (mid ++ call :: after) ?_ (hsame.trans htoken) username
      hstored.reviewed
    rw [hcalls, List.append_assoc, List.cons_append]

/-! ## A token that is reviewed once -/

/-- Every token is its own digest and expires at second 900. -/
def plainDigests : TokenCodec String where
  sha256 := id
  decodeString _ := some []
  unmarshalExp _ := some 900

def engineUsername : String := "system:serviceaccount:hyper-system:hyper-engine"

/-- At second 100, with a review. -/
def firstCall : AuthCall String where
  token := "h.p.s"
  checkedAt := 100000000000
  review := .ok { authenticated := true, username := engineUsername }
  allowed := (· == engineUsername)
  storedAt := 101000000000
  sweptAt _ := 101000000000

/-- At second 400, when the API server is down. -/
def secondCall : AuthCall String where
  token := "h.p.s"
  checkedAt := 400000000000
  review := .error "connection refused"
  allowed := (· == engineUsername)
  storedAt := 400000000000
  sweptAt _ := 400000000000

theorem authenticate_sound_cached :
    secondCall.allowed engineUsername = true
      ∧ (Reviewed plainDigests {} [firstCall] secondCall engineUsername
        ∨ ∃ pre earlier mid, [firstCall] = pre ++ earlier :: mid
          ∧ earlier.token = secondCall.token
          ∧ StoredReview plainDigests {} pre earlier engineUsername
          ∧ secondCall.checkedAt < earlier.storedAt + TokenReviewAuthenticator.lifetime {}
          ∧ ∀ exp, plainDigests.expClaim secondCall.token = some exp →
            secondCall.checkedAt < exp.toInt * 1000000000) :=
  (authenticate_sound plainDigests Function.injective_id {} [firstCall, secondCall]).1 [firstCall]
    secondCall [] engineUsername rfl rfl

end Hypergate.Operator
