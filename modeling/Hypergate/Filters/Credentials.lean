import Hypergate.Filters.ApiKey
import Hypergate.Filters.JwtAuth
import Hypergate.Lib.Splitting

/-!
# Credentials that are stripped are gone (`api_key.go`, `jwt_auth.go`)

Both filters take a credential out of the request before it goes upstream: a parameter
of the query, or a cookie. They read it with one loop and remove it with another, each
filter with its own. Here the two loops of a filter are compared on any text.

* `ParamGone` — the parameter is not found any more, and the rest of the path is as it was.
* `CookieGone` — the same for a cookie, and whether one was there.
-/

namespace Hypergate.Filters

open Lib

/-! ## Query parameters -/

/-- The part of a path before its query. -/
def pathBase (path : String) : String := ((cut '?' path).map Prod.fst).getD path

/-- The query of a path. -/
def pathQuery (path : String) : String := ((cut '?' path).map Prod.snd).getD ""

/-- The parts of the query, without the empty ones. -/
def queryItems (path : String) : List String := (split '&' (pathQuery path)).filter (· ≠ "")

/-- The name of a part: it ends at the first equals sign, or with the part. -/
def itemName (part : String) : String := ((cut '=' part).map Prod.fst).getD part

/-- After `strip`, `extract` finds no value for the name, and nothing else has changed. -/
structure ParamGone (extract strip : String → String → String) (path name : String) : Prop where
  value : extract (strip path name) name = ""
  base : pathBase (strip path name) = pathBase path
  others : queryItems (strip path name)
    = (queryItems path).filter fun part => itemName part ≠ name

/-- A path with a new query. -/
def withQuery (base : String) (parts : List String) : String :=
  if parts = [] then base else base ++ "?" ++ String.intercalate "&" parts

section WithQuery

variable {base : String} {parts : List String}

theorem cut_withQuery (h : '?' ∉ base.toList) :
    cut '?' (withQuery base parts)
      = if parts = [] then none else some (base, String.intercalate "&" parts) := by
  unfold withQuery
  by_cases hparts : parts = []
  · rw [if_pos hparts, if_pos hparts, cut_eq_none_iff]
    exact h
  · rw [if_neg hparts, if_neg hparts]
    exact cut_append h

theorem pathBase_withQuery (h : '?' ∉ base.toList) : pathBase (withQuery base parts) = base := by
  unfold pathBase
  rw [cut_withQuery h]
  by_cases hparts : parts = []
  · rw [if_pos hparts]
    exact if_pos hparts
  · rw [if_neg hparts]
    rfl

theorem split_withQuery (h : '?' ∉ base.toList) (hparts : ∀ part ∈ parts, '&' ∉ part.toList) :
    split '&' (pathQuery (withQuery base parts)) = if parts = [] then [""] else parts := by
  unfold pathQuery
  rw [cut_withQuery h]
  by_cases hnil : parts = []
  · rw [if_pos hnil, if_pos hnil]
    rfl
  · rw [if_neg hnil, if_neg hnil]
    show split '&' (String.intercalate "&" parts) = _
    rw [show "&" = String.singleton '&' from rfl, split_intercalate hparts hnil]

end WithQuery

/-- A function that keeps the parts of other names removes a parameter, and one that finds
nothing if no part has the name finds nothing in what is left. -/
theorem ParamGone.of_kept {extract strip : String → String → String} {path name : String}
    (hname : name ≠ "")
    (hextract : ∀ path, (∀ part ∈ split '&' (pathQuery path), itemName part ≠ name) →
      extract path name = "")
    (hnone : cut '?' path = none → strip path name = path)
    (hsome : ∀ base query, cut '?' path = some (base, query) → ∃ kept,
      strip path name = withQuery base kept
        ∧ (∀ part ∈ kept, part ∈ split '&' query ∧ itemName part ≠ name)
        ∧ kept.filter (· ≠ "")
          = ((split '&' query).filter (· ≠ "")).filter fun part => itemName part ≠ name) :
    ParamGone extract strip path name := by
  have hempty : ∀ part ∈ [""], itemName part ≠ name := by
    intro part hpart
    rw [List.mem_singleton.mp hpart]
    exact hname.symm
  cases hcut : cut '?' path with
  | none =>
    have hquery : pathQuery path = "" := by
      unfold pathQuery
      rw [hcut]
      rfl
    refine ⟨?_, ?_, ?_⟩
    · rw [hnone hcut]
      refine hextract path ?_
      rw [hquery]
      exact hempty
    · rw [hnone hcut]
    · unfold queryItems
      rw [hnone hcut, hquery]
      rfl
  | some e =>
    obtain ⟨base, query⟩ := e
    obtain ⟨kept, hstrip, hkept, hfilter⟩ := hsome base query hcut
    have hbase : '?' ∉ base.toList := (cut_eq_some hcut).2
    have hsplit := split_withQuery hbase fun part hpart => split_notMem (hkept part hpart).1
    refine ⟨?_, ?_, ?_⟩
    · rw [hstrip]
      refine hextract _ ?_
      rw [hsplit]
      split
      · exact hempty
      · exact fun part hpart => (hkept part hpart).2
    · rw [hstrip, pathBase_withQuery hbase]
      unfold pathBase
      rw [hcut]
      rfl
    · have hquery : pathQuery path = query := by
        unfold pathQuery
        rw [hcut]
        rfl
      unfold queryItems
      rw [hstrip, hsplit, hquery, ← hfilter]
      split
      · case isTrue hnil => rw [hnil]; rfl
      · rfl

namespace ApiKey

theorem paramKey_eq (part : String) : paramKey part = itemName part := by
  unfold paramKey itemName
  cases cut '=' part <;> rfl

theorem firstParam_eq_empty {name : String} {parts : List String}
    (h : ∀ part ∈ parts, itemName part ≠ name) : firstParam name parts = "" := by
  induction parts with
  | nil => rfl
  | cons part parts ih =>
    have hpart := h part List.mem_cons_self
    have hrest := ih fun p hp => h p (List.mem_cons_of_mem part hp)
    unfold itemName at hpart
    unfold firstParam
    cases hcut : cut '=' part with
    | none =>
      rw [hcut] at hpart
      exact (if_neg hpart).trans hrest
    | some e =>
      rw [hcut] at hpart
      exact (if_neg hpart).trans hrest

theorem mem_queryParts {query part : String} (h : part ∈ queryParts query) :
    part ∈ split '&' query := by
  unfold queryParts at h
  split at h
  · exact List.mem_of_mem_dropLast h
  · exact h

theorem filter_queryParts (query : String) :
    (queryParts query).filter (· ≠ "") = (split '&' query).filter (· ≠ "") := by
  unfold queryParts
  by_cases hlast : (split '&' query).getLast? = some ""
  · rw [if_pos hlast]
    conv_rhs => rw [← List.dropLast_append_getLast? "" hlast]
    simp
  · rw [if_neg hlast]

theorem stripQueryParam_gone (path : String) {name : String} (hname : name ≠ "") :
    ParamGone extractQueryParam stripQueryParam path name := by
  refine .of_kept hname ?_ ?_ ?_
  · intro path hparts
    unfold extractQueryParam
    cases hcut : cut '?' path with
    | none => rfl
    | some e =>
      unfold pathQuery at hparts
      rw [hcut] at hparts
      exact firstParam_eq_empty fun part hpart => hparts part (mem_queryParts hpart)
  · intro hcut
    unfold stripQueryParam
    rw [hcut]
  · intro base query hcut
    refine ⟨(queryParts query).filter fun part => paramKey part ≠ name, ?_, ?_, ?_⟩
    · unfold stripQueryParam
      rw [hcut]
      rfl
    · intro part hpart
      obtain ⟨hmem, hkey⟩ := List.mem_filter.mp hpart
      rw [paramKey_eq] at hkey
      exact ⟨mem_queryParts hmem, of_decide_eq_true hkey⟩
    · rw [← filter_queryParts, List.filter_filter, List.filter_filter]
      refine List.filter_congr fun part _ => ?_
      rw [paramKey_eq, Bool.and_comm]

end ApiKey

namespace JwtAuth

theorem paramKey_eq (part : String) : paramKey part = itemName part := by
  unfold paramKey itemName
  cases cut '=' part <;> rfl

theorem firstParam_eq_empty {unescape : String → Option String} {name : String}
    {parts : List String} (h : ∀ part ∈ parts, itemName part ≠ name) :
    firstParam unescape name parts = "" := by
  induction parts with
  | nil => rfl
  | cons part parts ih =>
    have hpart := h part List.mem_cons_self
    have hrest := ih fun p hp => h p (List.mem_cons_of_mem part hp)
    unfold itemName at hpart
    unfold firstParam
    cases hcut : cut '=' part with
    | none => exact hrest
    | some e =>
      rw [hcut] at hpart
      exact (if_neg hpart).trans hrest

theorem removeQueryParam_gone (unescape : String → Option String) (path : String) {name : String}
    (hname : name ≠ "") :
    ParamGone (extractQueryParam unescape) removeQueryParam path name := by
  refine .of_kept hname ?_ ?_ ?_
  · intro path hparts
    unfold extractQueryParam
    cases hcut : cut '?' path with
    | none => rfl
    | some e =>
      unfold pathQuery at hparts
      rw [hcut] at hparts
      exact firstParam_eq_empty hparts
  · intro hcut
    unfold removeQueryParam
    rw [hcut]
  · intro base query hcut
    refine ⟨(split '&' query).filter fun part => paramKey part ≠ name ∧ part ≠ "", ?_, ?_, ?_⟩
    · unfold removeQueryParam
      rw [hcut]
      exact if_neg hname
    · intro part hpart
      obtain ⟨hmem, hkey⟩ := List.mem_filter.mp hpart
      rw [paramKey_eq] at hkey
      exact ⟨hmem, (of_decide_eq_true hkey).1⟩
    · rw [List.filter_filter, List.filter_filter]
      refine List.filter_congr fun part _ => ?_
      rw [paramKey_eq, Bool.decide_and, Bool.and_comm, Bool.and_assoc, Bool.and_self]

/-! ## Cookies -/

/-- The cookies of a `Cookie` header, without the blanks around them. -/
def cookies (header : String) : List String :=
  ((split ';' header).map trimSpace).filter (· ≠ "")

/-- The name of a cookie. -/
def cookieName (cookie : String) : Option String := (cut '=' cookie).map Prod.fst

/-- After `removeCookie`, `extractCookie` finds no value for the name, and no other cookie
has changed; the flag says whether there was one. -/
structure CookieGone (header name : String) : Prop where
  value : extractCookie (removeCookie header name).1 name = ""
  others : cookies (removeCookie header name).1
    = (cookies header).filter fun cookie => cookieName cookie ≠ some name
  removed : (removeCookie header name).2 = true
    ↔ ∃ cookie ∈ cookies header, cookieName cookie = some name

theorem isCookie_eq (name cookie : String) :
    isCookie name cookie = decide (cookieName cookie = some name) := by
  unfold isCookie cookieName
  cases cut '=' cookie with
  | none => simp
  | some e => simp

theorem firstCookie_eq_empty {name : String} {parts : List String}
    (h : ∀ part ∈ parts, cookieName (trimSpace part) ≠ some name) :
    firstCookie name parts = "" := by
  induction parts with
  | nil => rfl
  | cons part parts ih =>
    have hpart := h part List.mem_cons_self
    have hrest := ih fun p hp => h p (List.mem_cons_of_mem part hp)
    unfold cookieName at hpart
    unfold firstCookie
    cases hcut : cut '=' (trimSpace part) with
    | none => exact hrest
    | some e =>
      rw [hcut] at hpart
      exact (if_neg fun heq => hpart (congrArg some heq)).trans hrest

theorem removeCookie_fst (header name : String) :
    (removeCookie header name).1 = String.intercalate "; "
      ((cookies header).filter fun cookie => cookieName cookie ≠ some name) := by
  show String.intercalate "; " (((split ';' header).map trimSpace |>.filter (· ≠ "")).filter
    fun cookie => !isCookie name cookie) = _
  congr 1
  refine List.filter_congr fun cookie _ => ?_
  rw [isCookie_eq, decide_not]

theorem parts_removeCookie (header name : String) :
    (split ';' (removeCookie header name).1).map trimSpace
      = if ((cookies header).filter fun cookie => cookieName cookie ≠ some name) = [] then [""]
        else (cookies header).filter fun cookie => cookieName cookie ≠ some name := by
  rw [removeCookie_fst]
  by_cases hnil : ((cookies header).filter fun cookie => cookieName cookie ≠ some name) = []
  · rw [if_pos hnil, hnil]
    rfl
  · rw [if_neg hnil]
    have hcookie : ∀ cookie ∈ (cookies header).filter fun cookie => cookieName cookie ≠ some name,
        ∃ part ∈ split ';' header, trimSpace part = cookie := by
      intro cookie hcookie
      exact List.mem_map.mp (List.mem_of_mem_filter (List.mem_of_mem_filter hcookie))
    refine map_trimSpace_split_intercalate (by decide) (by decide) ?_ ?_ hnil
    · intro cookie hmem hsep
      obtain ⟨part, hpart, rfl⟩ := hcookie cookie hmem
      exact split_notMem hpart (mem_of_mem_trimSpace hsep)
    · intro cookie hmem
      obtain ⟨part, -, rfl⟩ := hcookie cookie hmem
      exact trimSpace_trimSpace part

theorem removeCookie_gone (header name : String) : CookieGone header name := by
  have hparts := parts_removeCookie header name
  refine ⟨?_, ?_, ?_⟩
  · unfold extractCookie
    refine firstCookie_eq_empty fun part hpart => ?_
    have hmem := List.mem_map_of_mem (f := trimSpace) hpart
    rw [hparts] at hmem
    split at hmem
    · rw [List.mem_singleton.mp hmem]
      show none ≠ some name
      simp
    · simpa using (List.mem_filter.mp hmem).2
  · unfold cookies at hparts ⊢
    rw [hparts]
    split
    · case isTrue hnil => rw [hnil]; rfl
    · refine List.filter_eq_self.mpr fun cookie hcookie => ?_
      exact (List.mem_filter.mp (List.mem_of_mem_filter hcookie)).2
  · show (cookies header).any (isCookie name) = true ↔ _
    rw [List.any_eq_true]
    simp only [isCookie_eq, decide_eq_true_eq]

end JwtAuth

/-- Stripping a credential of any non-empty name, in either filter and from any text,
leaves nothing to find under the name and everything else in its place. -/
theorem credentials_gone (unescape : String → Option String) (path header : String)
    {name : String} (hname : name ≠ "") :
    ParamGone ApiKey.extractQueryParam ApiKey.stripQueryParam path name
      ∧ ParamGone (JwtAuth.extractQueryParam unescape) JwtAuth.removeQueryParam path name
      ∧ JwtAuth.CookieGone header name :=
  ⟨ApiKey.stripQueryParam_gone path hname, JwtAuth.removeQueryParam_gone unescape path hname,
    JwtAuth.removeCookie_gone header name⟩

theorem credentials_gone_token : "token" ≠ ""
    ∧ ParamGone ApiKey.extractQueryParam ApiKey.stripQueryParam "/a?token=x&&b=1&token" "token"
    ∧ ParamGone (JwtAuth.extractQueryParam some) JwtAuth.removeQueryParam "/a?token=x&&b=1&token"
        "token"
    ∧ JwtAuth.CookieGone "a=1;token=x ; token=y" "token" :=
  ⟨by decide, credentials_gone some _ _ (by decide)⟩

end Hypergate.Filters
