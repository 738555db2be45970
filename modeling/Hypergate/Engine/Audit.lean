import Hypergate.Engine.Executor

/-!
# What an audited denial leaves behind (`internal/engine/audit.go`)

`audit.go` promises that a denial that is not enforced "leaves no trace on the
request or the response". `Visible` is the part of the context that later
filters read or that shapes a message to Envoy; `executeAudited` restores only
the header and path part of it.

* `executeAudited_of_denies` — the context after an audited denial, for every
  filter: the saved part is the old one, the block state is cleared, one hit is
  appended, and everything else is what the filter left.
-/

namespace Hypergate.Engine

universe u

variable {W : Type u}

/-- The visible part of a context that `mutations` does not save: trailers,
bodies, and the modified and required flags. -/
structure Unsaved where
  requestTrailersToAdd : List Header
  requestTrailersToRemove : List String
  responseTrailersToAdd : List Header
  responseTrailersToRemove : List String
  requestBody : List UInt8
  responseBodyBytes : List UInt8
  requestBodyModified : Bool
  responseBodyModified : Bool
  requestTrailersModified : Bool
  responseTrailersModified : Bool
  requestBodyRequired : Bool
  responseBodyRequired : Bool
  requestTrailersRequired : Bool
  responseTrailersRequired : Bool
  deriving DecidableEq

/-- What later filters can read of the pending changes, or what shapes the
messages sent to Envoy. -/
structure Visible where
  path : String
  headersToAdd : List Header
  headersToRemove : List String
  upstreamShadow : Lib.AMap String String
  responseHeadersToAdd : List Header
  responseHeadersToRemove : List String
  downstreamShadow : Lib.AMap String String
  unsaved : Unsaved
  blocked : Bool
  answered : Bool
  responseStatus : Int
  responseBody : String
  deriving DecidableEq

namespace RequestContext

def unsaved (ctx : RequestContext) : Unsaved where
  requestTrailersToAdd := ctx.requestTrailersToAdd
  requestTrailersToRemove := ctx.requestTrailersToRemove
  responseTrailersToAdd := ctx.responseTrailersToAdd
  responseTrailersToRemove := ctx.responseTrailersToRemove
  requestBody := ctx.requestBody
  responseBodyBytes := ctx.responseBodyBytes
  requestBodyModified := ctx.requestBodyModified
  responseBodyModified := ctx.responseBodyModified
  requestTrailersModified := ctx.requestTrailersModified
  responseTrailersModified := ctx.responseTrailersModified
  requestBodyRequired := ctx.requestBodyRequired
  responseBodyRequired := ctx.responseBodyRequired
  requestTrailersRequired := ctx.requestTrailersRequired
  responseTrailersRequired := ctx.responseTrailersRequired

def visible (ctx : RequestContext) : Visible where
  path := ctx.path
  headersToAdd := ctx.headersToAdd
  headersToRemove := ctx.headersToRemove
  upstreamShadow := ctx.upstreamShadow
  responseHeadersToAdd := ctx.responseHeadersToAdd
  responseHeadersToRemove := ctx.responseHeadersToRemove
  downstreamShadow := ctx.downstreamShadow
  unsaved := ctx.unsaved
  blocked := ctx.blocked
  answered := ctx.answered
  responseStatus := ctx.responseStatus
  responseBody := ctx.responseBody

/-- No response has been prepared. Unblocking clears these fields instead of
restoring them. -/
structure ResponseUnset (ctx : RequestContext) : Prop where
  answered : ctx.answered = false
  status : ctx.responseStatus = 0
  body : ctx.responseBody = ""

/-- The context after the audited denial recorded as `hit`, where `ctx'` is
what the filter left of `ctx`. -/
def rollBack (ctx ctx' : RequestContext) (hit : AuditHit) : RequestContext :=
  ((ctx'.recordHit hit).restoreMutations ctx.saveMutations).unblock

@[simp] theorem rollBack_auditHits (ctx ctx' : RequestContext) (hit : AuditHit) :
    (ctx.rollBack ctx' hit).auditHits = ctx'.auditHits ++ [hit] := rfl

/-- A rolled back context looks like the one before exactly when the filter
left the unsaved part alone and there was no response to clear. -/
theorem rollBack_visible_iff {ctx : RequestContext} (hb : ctx.blocked = false)
    (ctx' : RequestContext) (hit : AuditHit) :
    (ctx.rollBack ctx' hit).visible = ctx.visible ↔
      ctx'.unsaved = ctx.unsaved ∧ ctx.ResponseUnset := by
  have hview : (ctx.rollBack ctx' hit).visible =
      { ctx.visible with
        unsaved := ctx'.unsaved, blocked := false, answered := false,
        responseStatus := 0, responseBody := "" } := rfl
  rw [hview]
  constructor
  · intro h
    refine ⟨congrArg Visible.unsaved h, ?_, ?_, ?_⟩
    · exact (congrArg Visible.answered h).symm
    · exact (congrArg Visible.responseStatus h).symm
    · exact (congrArg Visible.responseBody h).symm
  · rintro ⟨hu, ha, hs, hbody⟩
    rw [hu]
    simp only [visible, ha, hs, hbody, hb]

end RequestContext

/-- The filter returns an error on `ctx`, or leaves it blocked without having
answered. -/
def Filter.Denies (f : Filter W) (w : W) (ctx : RequestContext) : Prop :=
  (f.execute w ctx).2.2.isSome = true ∨
    (f.execute w ctx).2.1.blocked = true ∧ (f.execute w ctx).2.1.answered = false

/-- On `ctx` the filter leaves alone what an audited denial does not roll
back. -/
structure Filter.LeavesUnsaved (f : Filter W) (w : W) (ctx : RequestContext) : Prop where
  unsaved : (f.execute w ctx).2.1.unsaved = ctx.unsaved
  auditHits : (f.execute w ctx).2.1.auditHits = ctx.auditHits

/-- An audited denial rolls back, whatever the filter did. -/
theorem executeAudited_of_denies {f : Filter W} {w : W} {ctx : RequestContext}
    (hd : f.Denies w ctx) (i : Nat) :
    ∃ hit : AuditHit, hit.index = i ∧
      (executeAudited w ctx f i).2 = ctx.rollBack (f.execute w ctx).2.1 hit := by
  unfold Filter.Denies at hd
  unfold executeAudited
  rcases hrun : f.execute w ctx with ⟨w', ctx', err⟩
  rw [hrun] at hd
  cases err with
  | some e => exact ⟨{ index := i, status := 500, failed := true }, rfl, rfl⟩
  | none =>
    have hblock : (ctx'.blocked && !ctx'.answered) = true := by simpa using hd
    simp only [hblock, if_true]
    exact ⟨{ index := i, status := auditStatus ctx'.responseStatus }, rfl, rfl⟩

/-- **Audit mode leaves no trace, exactly when.** After an audited denial the
visible context is what it was and one hit was recorded, if and only if the
filter left the unsaved part and the hits alone and no response was prepared. -/
theorem executeAudited_leaves_no_trace_iff {f : Filter W} {w : W} {ctx : RequestContext}
    (hb : ctx.blocked = false) (hd : f.Denies w ctx) (i : Nat) :
    ((executeAudited w ctx f i).2.visible = ctx.visible ∧
      ∃ hit : AuditHit, hit.index = i ∧
        (executeAudited w ctx f i).2.auditHits = ctx.auditHits ++ [hit]) ↔
    f.LeavesUnsaved w ctx ∧ ctx.ResponseUnset := by
  obtain ⟨hit, hidx, hctx⟩ := executeAudited_of_denies hd i
  rw [hctx, RequestContext.rollBack_visible_iff hb, RequestContext.rollBack_auditHits]
  constructor
  · rintro ⟨⟨hu, hr⟩, hit', -, hhits⟩
    exact ⟨⟨hu, (List.append_inj_left' hhits rfl)⟩, hr⟩
  · rintro ⟨⟨hu, hhits⟩, hr⟩
    exact ⟨⟨hu, hr⟩, hit, hidx, by rw [hhits]⟩

/-- A filter that sets a header and denies. -/
def headerThenDeny : Filter Unit where
  supportedPhases := none
  execute := fun w ctx => (w, (ctx.setHeaderUpstream "X-User" "mallory").block 403 "denied", none)

theorem executeAudited_header_then_deny :
    headerThenDeny.Denies () {} ∧
      (((executeAudited () {} headerThenDeny 2).2.visible = RequestContext.visible {} ∧
        ∃ hit : AuditHit, hit.index = 2 ∧
          (executeAudited () {} headerThenDeny 2).2.auditHits = [] ++ [hit]) ↔
      headerThenDeny.LeavesUnsaved () {} ∧ RequestContext.ResponseUnset {}) ∧
      headerThenDeny.LeavesUnsaved () {} ∧ RequestContext.ResponseUnset {} :=
  ⟨.inr ⟨rfl, rfl⟩, executeAudited_leaves_no_trace_iff rfl (.inr ⟨rfl, rfl⟩) 2,
    ⟨rfl, rfl⟩, ⟨rfl, rfl, rfl⟩⟩

/-- A filter that sets a request trailer and denies: the trailer survives the
rollback and is sent to Envoy. -/
def trailerThenDeny : Filter Unit where
  supportedPhases := none
  execute := fun w ctx => (w, (ctx.setTrailerUpstream "x-user" "mallory").block 403 "denied", none)

theorem executeAudited_keeps_trailer :
    ¬ ∀ (f : Filter Unit) (w : Unit) (ctx : RequestContext) (i : Nat),
      ctx.blocked = false → f.Denies w ctx →
      (executeAudited w ctx f i).2.visible = ctx.visible ∧
        ∃ hit : AuditHit, hit.index = i ∧
          (executeAudited w ctx f i).2.auditHits = ctx.auditHits ++ [hit] := by
  intro hall
  have h := (hall trailerThenDeny () {} 0 rfl (.inr ⟨rfl, rfl⟩)).1
  have hmod := congrArg (fun v => v.unsaved.requestTrailersModified) h
  exact absurd hmod (by decide)

end Hypergate.Engine
