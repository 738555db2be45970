import Hypergate.Filters.JwtAuth
import Hypergate.Grpc.HeaderSync

/-!
# Mapped headers come from claims only (`internal/filters/jwt_auth`)

Headers that claims are mapped to tell the upstream who is calling, so what a client
sends under these names must not matter. `Execute` removes them before it reads the
token; from there on it works through the methods of the context, which cannot tell two
requests apart that differed in these headers only.

* `removeMapped_alike` — after the removal such requests are alike.
* `respond_alike` — and stay so, in whatever order the mappings are visited.
-/

namespace Hypergate.Filters.JwtAuth

open Engine Lib Grpc

universe u

variable {K : Type u}

/-- The header names that claims are mapped to. -/
def mappedNames (cfg : Config) : List String :=
  cfg.claimMappings.toList.map fun e => toLower e.2

/-- The claims were validated, locally or by introspection. -/
def Validated (cfg : Config) (a : Answers K) (token : String) (claims : Claims) : Prop :=
  validateJWT cfg a token = .ok claims
    ∨ cfg.introspectionEndpoint ≠ "" ∧ introspect cfg a token = .ok claims

/-- The header of a mapping is absent or its claim, validated. -/
def FromClaims (cfg : Config) (a : Answers K) (token : String) (e : String × String)
    (header : Option String) : Prop :=
  header = none
    ∨ ∃ claims s, Validated cfg a token claims ∧ injected claims e.1 = some s ∧ header = some s

/-! ## The loops over the mappings -/

theorem sent_removeMapped (mappings : List (String × String)) (ctx : RequestContext)
    (key : String) :
    (removeMapped mappings ctx).sent key
      = if key ∈ mappings.map (fun e => toLower e.2) then none else ctx.sent key := by
  unfold removeMapped
  induction mappings generalizing ctx with
  | nil => rfl
  | cons e mappings ih =>
    rw [List.foldl_cons, ih, RequestContext.sent_removeHeaderUpstream, List.map_cons]
    by_cases hmem : key ∈ mappings.map fun e => toLower e.2
    · rw [if_pos hmem, if_pos (List.mem_cons_of_mem _ hmem)]
    · by_cases hkey : key = toLower e.2
      · rw [if_neg hmem, if_pos hkey, if_pos (by rw [hkey]; exact List.mem_cons_self)]
      · rw [if_neg hmem, if_neg hkey,
          if_neg fun h => (List.mem_cons.mp h).elim hkey hmem]

theorem aside_removeMapped (mappings : List (String × String)) (ctx : RequestContext) :
    (removeMapped mappings ctx).aside = ctx.aside := by
  unfold removeMapped
  induction mappings generalizing ctx with
  | nil => rfl
  | cons e mappings ih => exact ih (ctx.removeHeaderUpstream e.2)

theorem sent_inject (claims : Claims) (ctx : RequestContext) (e : String × String)
    (key : String) :
    (inject claims ctx e).sent key
      = if key = toLower e.2 then (injected claims e.1).or (ctx.sent key) else ctx.sent key := by
  unfold inject
  cases injected claims e.1 with
  | none => simp
  | some s =>
    rw [RequestContext.sent_setHeaderUpstream, Option.some_or]

theorem sent_injectAll_of_notMem {claims : Claims} {mappings : List (String × String)}
    {ctx : RequestContext} {key : String} (h : key ∉ mappings.map fun e => toLower e.2) :
    (mappings.foldl (inject claims) ctx).sent key = ctx.sent key := by
  induction mappings generalizing ctx with
  | nil => rfl
  | cons e mappings ih =>
    rw [List.map_cons, List.mem_cons, not_or] at h
    rw [List.foldl_cons, ih h.2, sent_inject, if_neg h.1]

theorem sent_injectAll_of_mem {claims : Claims} {mappings : List (String × String)}
    {ctx : RequestContext} {e : String × String}
    (hnodup : (mappings.map fun e => toLower e.2).Nodup) (he : e ∈ mappings) :
    (mappings.foldl (inject claims) ctx).sent (toLower e.2)
      = (injected claims e.1).or (ctx.sent (toLower e.2)) := by
  induction mappings generalizing ctx with
  | nil => exact absurd he List.not_mem_nil
  | cons e' mappings ih =>
    rw [List.map_cons, List.nodup_cons] at hnodup
    rw [List.foldl_cons]
    rcases List.mem_cons.mp he with rfl | he
    · rw [sent_injectAll_of_notMem hnodup.1, sent_inject, if_pos rfl]
    · have hne : toLower e.2 ≠ toLower e'.2 := fun heq =>
        hnodup.1 (heq ▸ List.mem_map_of_mem he)
      rw [ih hnodup.2 he, sent_inject, if_neg hne]

theorem aside_injectAll (claims : Claims) (mappings : List (String × String))
    (ctx : RequestContext) : (mappings.foldl (inject claims) ctx).aside = ctx.aside := by
  induction mappings generalizing ctx with
  | nil => rfl
  | cons e mappings ih =>
    rw [List.foldl_cons, ih]
    unfold inject
    split <;> rfl

section Orders

variable {cfg : Config}

theorem mem_mappedNames (o : AMap.Order cfg.claimMappings) {key : String} :
    key ∈ o.items.map (fun e => toLower e.2) ↔ key ∈ mappedNames cfg :=
  (o.perm.map _).mem_iff

theorem nodup_mappedNames (h : (mappedNames cfg).Nodup) (o : AMap.Order cfg.claimMappings) :
    (o.items.map fun e => toLower e.2).Nodup := by
  rw [(o.perm.map fun e => toLower e.2).nodup_iff]
  exact h

/-- Without the mapped headers there is no difference left. -/
theorem removeMapped_alike {c c' : RequestContext} (o o' : AMap.Order cfg.claimMappings)
    (h : AlikeExcept (mappedNames cfg) c c') :
    Alike (removeMapped o.items c) (removeMapped o'.items c') where
  aside := by rw [aside_removeMapped, aside_removeMapped, h.aside]
  sent key _ := by
    rw [sent_removeMapped, sent_removeMapped]
    by_cases hkey : key ∈ mappedNames cfg
    · rw [if_pos ((mem_mappedNames o).mpr hkey), if_pos ((mem_mappedNames o').mpr hkey)]
    · rw [if_neg fun hm => hkey ((mem_mappedNames o).mp hm),
        if_neg fun hm => hkey ((mem_mappedNames o').mp hm), h.sent key hkey]

/-- The order in which claims become headers does not matter. -/
theorem injectAll_alike {c c' : RequestContext} {claims : Claims}
    (o o' : AMap.Order cfg.claimMappings) (hdistinct : (mappedNames cfg).Nodup)
    (h : Alike c c') :
    Alike (o.items.foldl (inject claims) c) (o'.items.foldl (inject claims) c') where
  aside := by rw [aside_injectAll, aside_injectAll, h.aside]
  sent key hkey := by
    by_cases hmem : key ∈ mappedNames cfg
    · obtain ⟨e, he, rfl⟩ := List.mem_map.mp hmem
      rw [sent_injectAll_of_mem (nodup_mappedNames hdistinct o) (o.perm.mem_iff.mpr he),
        sent_injectAll_of_mem (nodup_mappedNames hdistinct o') (o'.perm.mem_iff.mpr he),
        h.sent _ hkey]
    · rw [sent_injectAll_of_notMem fun hm => hmem ((mem_mappedNames o).mp hm),
        sent_injectAll_of_notMem fun hm => hmem ((mem_mappedNames o').mp hm), h.sent _ hkey]

end Orders

/-! ## Requests that are alike -/

section Alike

variable {cfg : Config} {c c' : RequestContext}

theorem extractToken_alike (unescape : String → Option String) (h : Alike c c') :
    extractToken unescape cfg c = extractToken unescape cfg c' := by
  unfold extractToken
  rw [h.path, h.getHeader, h.getHeader]

theorem challenge_alike (h : Alike c c') (message bearerError : String) :
    Alike (challenge c message bearerError) (challenge c' message bearerError) :=
  ((h.block 401 _).setHeaderDownstream _ _).setHeaderDownstream _ _

theorem stripToken_alike (h : Alike c c') : Alike (stripToken cfg c) (stripToken cfg c') := by
  unfold stripToken
  rw [h.path, h.getHeader]
  dsimp only
  split_ifs
  · exact h
  · exact h.setPath _
  · exact h
  · exact h.removeHeaderUpstream _
  · exact h.setHeaderUpstream _ _
  · exact h
  · exact h.removeHeaderUpstream _

theorem letThrough_alike (o o' : AMap.Order cfg.claimMappings) (claims : Claims)
    (hdistinct : (mappedNames cfg).Nodup) (h : Alike c c') :
    Alike (letThrough cfg o.items claims c) (letThrough cfg o'.items claims c') :=
  stripToken_alike (injectAll_alike o o' hdistinct h)

theorem respond_alike (o o' : Orders cfg) (a : Answers K) (token : String)
    (hdistinct : (mappedNames cfg).Nodup) (h : Alike c c') :
    Alike (respond cfg o a token c) (respond cfg o' a token c') := by
  unfold respond
  split
  · exact challenge_alike h _ _
  · cases validateJWT cfg a token with
    | ok claims => exact letThrough_alike _ _ claims hdistinct h
    | error err =>
      dsimp only
      split
      · exact challenge_alike h _ _
      · cases introspect cfg a token with
        | ok claims => exact letThrough_alike _ _ claims hdistinct h
        | error err =>
          dsimp only
          split
          · exact stripToken_alike h
          · exact challenge_alike h _ _

theorem execute_alike (unescape : String → Option String) (o o' : Orders cfg) (a : Answers K)
    (hdistinct : (mappedNames cfg).Nodup) (h : AlikeExcept (mappedNames cfg) c c') :
    Alike (execute unescape cfg o a c) (execute unescape cfg o' a c') := by
  have halike := removeMapped_alike o.removals o'.removals h
  unfold execute
  dsimp only
  rw [extractToken_alike unescape halike]
  exact respond_alike o o' a _ hdistinct halike

end Alike

/-! ## Where a mapped header comes from -/

section Source

variable {unescape : String → Option String} {cfg : Config} {o : Orders cfg} {a : Answers K}
  {ctx : RequestContext} {token key : String}

/-- Taking the token away changes the path, the cookie header, or the token's own header. -/
theorem stripToken_cases (cfg : Config) (ctx : RequestContext) :
    stripToken cfg ctx = ctx
      ∨ (∃ path, stripToken cfg ctx = ctx.setPath path)
      ∨ (toLower cfg.source = "cookie"
        ∧ (stripToken cfg ctx = ctx.removeHeaderUpstream "cookie"
          ∨ ∃ value, stripToken cfg ctx = ctx.setHeaderUpstream "cookie" value))
      ∨ stripToken cfg ctx = ctx.removeHeaderUpstream cfg.headerName := by
  unfold stripToken
  dsimp only
  split_ifs with hstrip hquery hpathne hsource hremoved hempty
  · exact .inl rfl
  · exact .inr (.inl ⟨_, rfl⟩)
  · exact .inl rfl
  · exact .inr (.inr (.inl ⟨hsource, .inl rfl⟩))
  · exact .inr (.inr (.inl ⟨hsource, .inr ⟨_, rfl⟩⟩))
  · exact .inl rfl
  · exact .inr (.inr (.inr rfl))

/-- Taking the token away leaves other headers alone. -/
theorem sent_stripToken (ctx : RequestContext) (hpath : key ≠ ":path")
    (hcookie : toLower cfg.source = "cookie" → key ≠ "cookie") :
    (stripToken cfg ctx).sent key = none ∨ (stripToken cfg ctx).sent key = ctx.sent key := by
  have hsetPath : ∀ path, (ctx.setPath path).sent key = ctx.sent key := by
    intro path
    refine Eq.trans (RequestContext.sent_setHeaderUpstream { ctx with path } ":path" path key) ?_
    exact if_neg hpath
  have hlower : toLower "cookie" = "cookie" := by decide
  rcases stripToken_cases cfg ctx with hsame | ⟨path, hset⟩ | ⟨hsource, hcookies⟩ | hremove
  · rw [hsame]
    exact .inr rfl
  · rw [hset]
    exact .inr (hsetPath path)
  · -- the cookie header is removed or rewritten
    rcases hcookies with hremove | ⟨value, hset⟩
    · rw [hremove, RequestContext.sent_removeHeaderUpstream, hlower, if_neg (hcookie hsource)]
      exact .inr rfl
    · rw [hset, RequestContext.sent_setHeaderUpstream, hlower, if_neg (hcookie hsource)]
      exact .inr rfl
  · rw [hremove, RequestContext.sent_removeHeaderUpstream]
    split
    · exact .inl rfl
    · exact .inr rfl

/-- A token cannot come from a mapped cookie header. -/
theorem source_not_mapped (htoken : carried unescape cfg o ctx ≠ "")
    (hmem : "cookie" ∈ mappedNames cfg) : toLower cfg.source ≠ "cookie" := by
  intro hsource
  refine htoken ?_
  have hcookie : (removeMapped o.removals.items ctx).getHeader "cookie" = "" := by
    rw [RequestContext.getHeader_eq, sent_removeMapped,
      if_pos ((mem_mappedNames o.removals).mpr hmem)]
    rfl
  unfold carried extractToken
  rw [if_neg (by rw [hsource]; decide), if_pos hsource, hcookie]
  rfl

variable {e : String × String}

theorem FromClaims.stripToken (hpath : key ≠ ":path")
    (hcookie : toLower cfg.source = "cookie" → key ≠ "cookie")
    (h : FromClaims cfg a token e (ctx.sent key)) :
    FromClaims cfg a token e ((stripToken cfg ctx).sent key) := by
  rcases sent_stripToken ctx hpath hcookie with hnone | hsame
  · exact .inl hnone
  · rw [hsame]
    exact h

/-- Validated claims fill a header that was removed. -/
theorem FromClaims.injectAll {claims : Claims} (hvalid : Validated cfg a token claims)
    (hdistinct : (mappedNames cfg).Nodup) (he : e ∈ cfg.claimMappings.toList)
    (hnone : ctx.sent (toLower e.2) = none) :
    FromClaims cfg a token e
      ((o.injections.items.foldl (inject claims) ctx).sent (toLower e.2)) := by
  rw [sent_injectAll_of_mem (nodup_mappedNames hdistinct o.injections)
    (o.injections.perm.mem_iff.mpr he), hnone, Option.or_none]
  cases hs : injected claims e.1 with
  | none => exact .inl rfl
  | some s => exact .inr ⟨claims, s, hvalid, hs, rfl⟩

theorem sent_challenge (ctx : RequestContext) (message bearerError key : String) :
    (challenge ctx message bearerError).sent key = ctx.sent key := rfl

/-- After `Execute` a mapped header is absent or a validated claim. -/
theorem execute_mapped (unescape : String → Option String) (o : Orders cfg) (a : Answers K)
    (ctx : RequestContext) (hdistinct : (mappedNames cfg).Nodup) (hpath : ":path" ∉ mappedNames cfg)
    (he : e ∈ cfg.claimMappings.toList) :
    FromClaims cfg a (carried unescape cfg o ctx) e
      ((execute unescape cfg o a ctx).sent (toLower e.2)) := by
  have hmem : toLower e.2 ∈ mappedNames cfg := List.mem_map_of_mem he
  have hnone : (removeMapped o.removals.items ctx).sent (toLower e.2) = none := by
    rw [sent_removeMapped, if_pos ((mem_mappedNames o.removals).mpr hmem)]
  have hne : toLower e.2 ≠ ":path" := fun h => hpath (h ▸ hmem)
  have hcookie : carried unescape cfg o ctx ≠ "" →
      toLower cfg.source = "cookie" → toLower e.2 ≠ "cookie" := by
    intro htoken hsource heq
    exact source_not_mapped htoken (heq ▸ hmem) hsource
  show FromClaims cfg a _ e ((respond cfg o a (carried unescape cfg o ctx)
    (removeMapped o.removals.items ctx)).sent _)
  unfold respond
  split
  · exact .inl ((sent_challenge _ _ _ _).trans hnone)
  · case isFalse htoken =>
      cases hlocal : validateJWT cfg a (carried unescape cfg o ctx) with
      | ok claims =>
        exact .stripToken hne (hcookie htoken) (.injectAll (.inl hlocal) hdistinct he hnone)
      | error err =>
        dsimp only
        split
        · exact .inl ((sent_challenge _ _ _ _).trans hnone)
        · case isFalse hendpoint =>
            cases hintro : introspect cfg a (carried unescape cfg o ctx) with
            | ok claims =>
              exact .stripToken hne (hcookie htoken)
                (.injectAll (.inr ⟨hendpoint, hintro⟩) hdistinct he hnone)
            | error err =>
              dsimp only
              split
              · exact .stripToken hne (hcookie htoken) (.inl hnone)
              · exact .inl ((sent_challenge _ _ _ _).trans hnone)

end Source

/-! ## The filter works through the methods -/

section Edits

variable {ctx ctx' : RequestContext}

theorem removeMapped_edited (mappings : List (String × String)) (h : Edited ctx ctx') :
    Edited ctx (removeMapped mappings ctx') := by
  unfold removeMapped
  induction mappings generalizing ctx' with
  | nil => exact h
  | cons e mappings ih => exact ih (h.call (.removeHeaderUpstream e.2))

theorem injectAll_edited (claims : Claims) (mappings : List (String × String))
    (h : Edited ctx ctx') : Edited ctx (mappings.foldl (inject claims) ctx') := by
  induction mappings generalizing ctx' with
  | nil => exact h
  | cons e mappings ih =>
    refine ih ?_
    unfold inject
    split
    · exact h.call (.setHeaderUpstream e.2 _)
    · exact h

theorem stripToken_edited (cfg : Config) (h : Edited ctx ctx') :
    Edited ctx (stripToken cfg ctx') := by
  rcases stripToken_cases cfg ctx' with
    hsame | ⟨path, hset⟩ | ⟨-, hremove | ⟨value, hset⟩⟩ | hremove
  · rw [hsame]
    exact h
  · rw [hset]
    exact h.call (.setPath path)
  · rw [hremove]
    exact h.call (.removeHeaderUpstream _)
  · rw [hset]
    exact h.call (.setHeaderUpstream _ value)
  · rw [hremove]
    exact h.call (.removeHeaderUpstream _)

theorem challenge_edited (message bearerError : String) (h : Edited ctx ctx') :
    Edited ctx (challenge ctx' message bearerError) := by
  have hblock : Edited ctx (ctx'.block 401
    ("\x7b\"error\":\"unauthorized\",\"message\":\"" ++ message ++ "\"\x7d")) := h.other rfl
  exact (hblock.call (.setHeaderDownstream _ _)).call (.setHeaderDownstream _ _)

theorem execute_edited (unescape : String → Option String) {cfg : Config} (o : Orders cfg)
    (a : Answers K) (ctx : RequestContext) : Edited ctx (execute unescape cfg o a ctx) := by
  have hremoved : Edited ctx (removeMapped o.removals.items ctx) := removeMapped_edited _ .refl
  unfold execute respond
  dsimp only
  split
  · exact challenge_edited _ _ hremoved
  · split
    · exact stripToken_edited cfg (injectAll_edited _ _ hremoved)
    · split
      · exact challenge_edited _ _ hremoved
      · split
        · exact stripToken_edited cfg (injectAll_edited _ _ hremoved)
        · split
          · exact stripToken_edited cfg hremoved
          · exact challenge_edited _ _ hremoved

end Edits

/-- Two requests that differ in mapped headers only are answered alike, the upstream
gets the same headers, and a mapped one is absent or a validated claim. -/
theorem mapped_headers_isolated (unescape : String → Option String) {cfg : Config}
    (hdistinct : (mappedNames cfg).Nodup)
    (hpseudo : ∀ name ∈ mappedNames cfg, name.toList.head? ≠ some ':')
    (o o' : Orders cfg) (a : Answers K) {c c' : RequestContext}
    (hc : c.upstream.Consistent) (hc' : c'.upstream.Consistent)
    (hsame : AlikeExcept (mappedNames cfg) c c') :
    (execute unescape cfg o a c).aside = (execute unescape cfg o' a c').aside
      ∧ (∀ key, (upstreamHeaders (execute unescape cfg o a c)).lookup key
        = (upstreamHeaders (execute unescape cfg o' a c')).lookup key)
      ∧ ∀ claim header, cfg.claimMappings.lookup claim = some header →
        FromClaims cfg a (carried unescape cfg o c) (claim, header)
          ((upstreamHeaders (execute unescape cfg o a c)).lookup (toLower header)) := by
  have hupstream : ∀ {o : Orders cfg} {c : RequestContext}, c.upstream.Consistent → ∀ key,
      (upstreamHeaders (execute unescape cfg o a c)).lookup key
        = (execute unescape cfg o a c).sent key := fun hc key =>
    lookup_upstreamHeaders ((execute_edited unescape _ a _).consistent hc) key
  have halike := execute_alike unescape o o' a hdistinct hsame
  refine ⟨halike.aside, fun key => ?_, fun claim header hmapped => ?_⟩
  · rw [hupstream hc, hupstream hc', halike.sent key List.not_mem_nil]
  · rw [hupstream hc]
    have hpath : ":path" ∉ mappedNames cfg := fun h => hpseudo _ h rfl
    exact execute_mapped unescape o a c hdistinct hpath (AMap.mem_toList.mpr hmapped)

/-! ## A client that sends the header itself -/

/-- The subject of a token becomes a header. -/
def subjectConfig : Config :=
  { headerName := "authorization", localSecret := "s3cret", algorithm := "HS256",
    claimMappings := (∅ : AMap String String).insert "sub" "x-user-id" }

def subjectOrder : AMap.Order subjectConfig.claimMappings :=
  ⟨[("sub", "x-user-id")], List.Perm.refl _⟩

/-- Every token is one of this user. -/
def subjectAnswers (sub : String) : Answers Unit where
  parse _ _ _ _ := .ok (some ((∅ : Claims).insert "sub" (.string sub)))
  keySet := none
  refreshedKeySet := none
  age := 0
  lockedAge := 0
  fetched := false
  introspection _ := .failed

/-- A request, with or without the header of another user. -/
def subjectRequest (spoofed : Option String) : RequestContext :=
  let headers := (∅ : AMap String String).insert "authorization" "Bearer a.b.c"
  { headers := spoofed.elim headers (headers.insert "x-user-id") }

theorem subjectRequest_alike (spoofed : String) :
    AlikeExcept (mappedNames subjectConfig) (subjectRequest (some spoofed))
      (subjectRequest none) where
  aside := rfl
  sent key hkey := by
    have hne : key ≠ "x-user-id" := fun h => hkey (by rw [h]; decide +kernel)
    show (((∅ : AMap String String).insert "authorization" "Bearer a.b.c").insert "x-user-id"
      spoofed).lookup key = ((∅ : AMap String String).insert "authorization" _).lookup key
    rw [AMap.lookup_insert_ite, if_neg hne]

theorem mapped_headers_isolated_spoofed :
    (subjectRequest (some "root")).getHeader "x-user-id" = "root"
      ∧ ∀ key, (upstreamHeaders (execute some subjectConfig ⟨subjectOrder, subjectOrder⟩
          (subjectAnswers "alice") (subjectRequest (some "root")))).lookup key
        = (upstreamHeaders (execute some subjectConfig ⟨subjectOrder, subjectOrder⟩
          (subjectAnswers "alice") (subjectRequest none))).lookup key := by
  have hclean : ∀ spoofed, (subjectRequest spoofed).upstream.Consistent := fun _ =>
    HeaderEdits.consistent_empty
  have hspoofed : (subjectRequest (some "root")).getHeader "x-user-id" = "root" := by
    decide +kernel
  have hdistinct : (mappedNames subjectConfig).Nodup := by decide +kernel
  have hpseudo : ∀ name ∈ mappedNames subjectConfig, name.toList.head? ≠ some ':' := by
    decide +kernel
  have hisolated := mapped_headers_isolated some hdistinct hpseudo ⟨subjectOrder, subjectOrder⟩
    ⟨subjectOrder, subjectOrder⟩ (subjectAnswers "alice") (hclean _) (hclean _)
    (subjectRequest_alike "root")
  exact ⟨hspoofed, hisolated.2.1⟩

end Hypergate.Filters.JwtAuth
