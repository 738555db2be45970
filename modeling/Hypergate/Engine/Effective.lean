import Hypergate.Engine.HeaderEdits

/-!
# What the upstream gets (`internal/engine/context.go`)

A filter sees the request headers through `GetHeader` and changes them by setting and
removing names. `RequestContext.sent` is a header as the upstream gets it, and each
method changes it at one name. Contexts that send the same headers and have everything
else in common are alike: no filter that works through the methods tells them apart.
-/

namespace Hypergate.Engine

open Hypergate.Lib

namespace RequestContext

/-- A request header as the upstream gets it. -/
def sent (ctx : RequestContext) (key : String) : Option String :=
  (ctx.upstreamShadow.lookup key).or
    (if containsKey ctx.headersToRemove key then none else ctx.headers.lookup key)

/-- Everything but the request headers. -/
def aside (ctx : RequestContext) : RequestContext :=
  { ctx with headers := ∅, headersToAdd := [], headersToRemove := [], upstreamShadow := ∅ }

theorem getHeader_eq (ctx : RequestContext) (key : String) :
    ctx.getHeader key = (ctx.sent key).getD "" := by
  unfold getHeader sent AMap.getD
  cases ctx.upstreamShadow.lookup key with
  | some val => rfl
  | none =>
    rw [Option.none_or]
    dsimp only
    split <;> rfl

theorem containsKey_removeKey {keys : List String} {key key' : String} (h : key' ≠ key) :
    containsKey (removeKey keys key) key' = containsKey keys key' := by
  rw [Bool.eq_iff_iff, HeaderEdits.containsKey_iff, HeaderEdits.containsKey_iff]
  rw [removeKey, (swapRemove_perm _ keys).mem_iff]
  exact List.mem_eraseP_of_neg (by simpa using h)

theorem containsKey_appendKey {keys : List String} {key key' : String} :
    containsKey (appendKey keys key) key' = (decide (key' = key) || containsKey keys key') := by
  rw [Bool.eq_iff_iff, HeaderEdits.containsKey_iff, HeaderEdits.mem_appendKey, Bool.or_eq_true,
    decide_eq_true_iff, HeaderEdits.containsKey_iff]

theorem sent_setHeaderUpstream (ctx : RequestContext) (key value key' : String) :
    (ctx.setHeaderUpstream key value).sent key'
      = if key' = toLower key then some value else ctx.sent key' := by
  show ((ctx.upstreamShadow.insert (toLower key) value).lookup key').or
    (if containsKey (removeKey ctx.headersToRemove (toLower key)) key' then none
      else ctx.headers.lookup key') = _
  rw [AMap.lookup_insert_ite]
  by_cases hk : key' = toLower key
  · rw [if_pos hk, if_pos hk, Option.some_or]
  · rw [if_neg hk, if_neg hk, containsKey_removeKey hk]
    rfl

theorem sent_removeHeaderUpstream (ctx : RequestContext) (key key' : String) :
    (ctx.removeHeaderUpstream key).sent key'
      = if key' = toLower key then none else ctx.sent key' := by
  show ((ctx.upstreamShadow.erase (toLower key)).lookup key').or
    (if containsKey (appendKey ctx.headersToRemove (toLower key)) key' then none
      else ctx.headers.lookup key') = _
  rw [AMap.lookup_erase_ite, containsKey_appendKey]
  by_cases hk : key' = toLower key
  · rw [if_pos hk, if_pos hk, if_pos (by simp [hk]), Option.none_or]
  · rw [if_neg hk, if_neg hk, decide_eq_false hk, Bool.false_or]
    rfl

end RequestContext

/-- The contexts differ in nothing but the request headers of some names. -/
structure AlikeExcept (names : List String) (c c' : RequestContext) : Prop where
  aside : c.aside = c'.aside
  sent : ∀ key ∉ names, c.sent key = c'.sent key

/-- The contexts send the same headers and agree in everything else. -/
abbrev Alike (c c' : RequestContext) : Prop := AlikeExcept [] c c'

namespace AlikeExcept

variable {names : List String} {c c' : RequestContext}

theorem refl (names : List String) (c : RequestContext) : AlikeExcept names c c :=
  ⟨rfl, fun _ _ => rfl⟩

theorem setHeaderUpstream (h : AlikeExcept names c c') (key value : String) :
    AlikeExcept names (c.setHeaderUpstream key value) (c'.setHeaderUpstream key value) where
  aside := h.aside
  sent key' hkey := by
    rw [RequestContext.sent_setHeaderUpstream, RequestContext.sent_setHeaderUpstream,
      h.sent key' hkey]

theorem removeHeaderUpstream (h : AlikeExcept names c c') (key : String) :
    AlikeExcept names (c.removeHeaderUpstream key) (c'.removeHeaderUpstream key) where
  aside := h.aside
  sent key' hkey := by
    rw [RequestContext.sent_removeHeaderUpstream, RequestContext.sent_removeHeaderUpstream,
      h.sent key' hkey]

theorem setPath (h : AlikeExcept names c c') (path : String) :
    AlikeExcept names (c.setPath path) (c'.setPath path) := by
  have hpath : AlikeExcept names { c with path } { c' with path } :=
    ⟨congrArg (fun c : RequestContext => { c with path }) h.aside, h.sent⟩
  exact hpath.setHeaderUpstream ":path" path

theorem block (h : AlikeExcept names c c') (status : Int) (body : String) :
    AlikeExcept names (c.block status body) (c'.block status body) :=
  ⟨congrArg (fun c : RequestContext => c.block status body) h.aside, h.sent⟩

theorem setHeaderDownstream (h : AlikeExcept names c c') (key value : String) :
    AlikeExcept names (c.setHeaderDownstream key value) (c'.setHeaderDownstream key value) :=
  ⟨congrArg (fun c : RequestContext => c.setHeaderDownstream key value) h.aside, h.sent⟩

theorem path (h : AlikeExcept names c c') : c.path = c'.path := by
  show c.aside.path = c'.aside.path
  rw [h.aside]

end AlikeExcept

theorem Alike.getHeader {c c' : RequestContext} (h : Alike c c') (key : String) :
    c.getHeader key = c'.getHeader key := by
  rw [c.getHeader_eq, c'.getHeader_eq, h.sent key List.not_mem_nil]

end Hypergate.Engine
