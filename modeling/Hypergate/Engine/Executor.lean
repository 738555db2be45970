import Hypergate.Engine.Context

/-!
# Filters, chains and the executor (`internal/engine/filter.go`, `audit.go`, `executor.go`)

A filter reads and writes the request context, may change the world it lives
in (its caches, Redis, its sidecar), and may return an error. Filters are
arbitrary functions here, so what is proved about the executor holds for every
filter.

A chain position can be *audited*: `executeAudited` runs the filter, and a
denial or a failure is recorded and rolled back instead of enforced.

`execute` also returns the chain positions whose filter it called, in order:
the observation that properties of whole streams speak about.
-/

namespace Hypergate.Engine

universe u

/-- `engine.Filter`. `supportedPhases` is `none` for a filter that does not
implement `PhaseAware`. -/
structure Filter (W : Type u) where
  supportedPhases : Option (List Phase)
  execute : W → RequestContext → W × RequestContext × Option String

/-- One element of `engine.Chain`: a filter, wrapped by `Audit` or not. -/
structure ChainSlot (W : Type u) where
  filter : Filter W
  audited : Bool := false

/-- `engine.Chain`. -/
abbrev Chain (W : Type u) := List (ChainSlot W)

variable {W : Type u}

/-- `engine.Audit`. -/
def audit (f : Filter W) : ChainSlot W := { filter := f, audited := true }

/-- The phase gate of `Execute`: filters without `PhaseAware` run only on
request headers. -/
def Filter.runsIn (f : Filter W) (phase : Phase) : Bool :=
  match f.supportedPhases with
  | some phases => phases.any (· = phase)
  | none => phase = .requestHeaders

/-! ## Audit mode -/

/-- `mutations`: the part of the context an audited filter's denial rolls
back. -/
structure Mutations where
  path : String
  headersToAdd : List Header
  headersToRemove : List String
  upstreamShadow : Lib.AMap String String
  responseHeadersToAdd : List Header
  responseHeadersToRemove : List String
  downstreamShadow : Lib.AMap String String
  /-- The length of `SetHeaderOptions`. -/
  setHeaderOptions : Nat

namespace RequestContext

def saveMutations (ctx : RequestContext) : Mutations where
  path := ctx.path
  headersToAdd := ctx.headersToAdd
  headersToRemove := ctx.headersToRemove
  upstreamShadow := ctx.upstreamShadow
  responseHeadersToAdd := ctx.responseHeadersToAdd
  responseHeadersToRemove := ctx.responseHeadersToRemove
  downstreamShadow := ctx.downstreamShadow
  setHeaderOptions := ctx.setHeaderOptions.length

/-- `restoreMutations`. The scratch list is cut back to its old length. -/
def restoreMutations (ctx : RequestContext) (m : Mutations) : RequestContext :=
  { ctx with
    path := m.path
    headersToAdd := m.headersToAdd
    headersToRemove := m.headersToRemove
    upstreamShadow := m.upstreamShadow
    responseHeadersToAdd := m.responseHeadersToAdd
    responseHeadersToRemove := m.responseHeadersToRemove
    downstreamShadow := m.downstreamShadow
    setHeaderOptions := ctx.setHeaderOptions.take m.setHeaderOptions }

def unblock (ctx : RequestContext) : RequestContext :=
  { ctx with blocked := false, answered := false, responseStatus := 0, responseBody := "" }

/-- `ctx.AuditHits = append(ctx.AuditHits, hit)`. -/
def recordHit (ctx : RequestContext) (hit : AuditHit) : RequestContext :=
  { ctx with auditHits := ctx.auditHits ++ [hit] }

end RequestContext

/-- The status an audited denial is recorded with. -/
def auditStatus (status : Int) : Int := if status = 0 then 403 else status

/-- `executeAudited`: a denial or an error of the filter is recorded and rolled
back, an answer is kept. -/
def executeAudited (w : W) (ctx : RequestContext) (filter : Filter W) (index : Nat) :
    W × RequestContext :=
  let saved := ctx.saveMutations
  match filter.execute w ctx with
  | (w', ctx', some _) =>
    (w', ((ctx'.recordHit { index, status := 500, failed := true }).restoreMutations
      saved).unblock)
  | (w', ctx', none) =>
    if ctx'.blocked && !ctx'.answered then
      (w', ((ctx'.recordHit { index, status := auditStatus ctx'.responseStatus
        }).restoreMutations saved).unblock)
    else if ctx'.blocked && ctx'.answered then (w', { ctx' with blockedBy := index })
    else (w', ctx')

/-! ## The executor -/

/-- What `Execute` returns and leaves behind. `ran` lists the chain positions
whose filter was called. -/
structure ExecResult (W : Type u) where
  world : W
  ctx : RequestContext
  err : Option String := none
  ran : List Nat := []

/-- An enforced filter's internal error, as the executor blocks on it. -/
def RequestContext.failBy (ctx : RequestContext) (index : Nat) : RequestContext :=
  { ctx with
    blockedBy := index
    filterFailed := true
    blocked := true
    responseStatus := 500
    responseBody := "Internal Server Error" }

/-- The loop of `Execute` from position `i` on. -/
def executeFrom (phase : Phase) : Chain W → Nat → W → RequestContext → ExecResult W
  | [], _, w, ctx => { world := w, ctx }
  | slot :: rest, i, w, ctx =>
    if ctx.blocked then { world := w, ctx }
    else if !slot.filter.runsIn phase then executeFrom phase rest (i + 1) w ctx
    else if slot.audited then
      let (w', ctx') := executeAudited w ctx slot.filter i
      let r := executeFrom phase rest (i + 1) w' ctx'
      { r with ran := i :: r.ran }
    else
      match slot.filter.execute w ctx with
      | (w', ctx', some err) =>
        { world := w', ctx := ctx'.failBy i, err := some err, ran := [i] }
      | (w', ctx', none) =>
        if ctx'.blocked then
          { world := w', ctx := { ctx' with blockedBy := i }, ran := [i] }
        else
          let r := executeFrom phase rest (i + 1) w' ctx'
          { r with ran := i :: r.ran }

/-- What holds after the filter and after every roll back holds after an audited call. -/
theorem executeAudited_keeps {P : RequestContext → Prop} {f : Filter W} {w : W}
    {ctx : RequestContext} {i : Nat} (hexec : P (f.execute w ctx).2.1)
    (hback : ∀ hit, P (((f.execute w ctx).2.1.recordHit hit).restoreMutations
      ctx.saveMutations).unblock)
    (hmark : ∀ ctx', P ctx' → P { ctx' with blockedBy := i }) :
    P (executeAudited w ctx f i).2 := by
  unfold executeAudited
  rcases hrun : f.execute w ctx with ⟨w', ctx', err⟩
  rw [hrun] at hexec hback
  cases err with
  | some err => exact hback _
  | none =>
    dsimp only
    split
    · exact hback _
    · split
      · exact hmark ctx' hexec
      · exact hexec

/-- `ChainExecutor.Execute`. -/
def execute (w : W) (ctx : RequestContext) (chain : Chain W) (phase : Phase) : ExecResult W :=
  executeFrom phase chain 0 w { ctx with phase }

end Hypergate.Engine
