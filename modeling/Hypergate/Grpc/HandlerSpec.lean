import Hypergate.Grpc.Handlers

/-!
# What the handlers do, in one form

The six handlers differ in what they copy into the context, in their reply, and
in two places: response headers are guarded against a body that was never
inspected, and response trailers are never answered with an immediate response.
`handle_spec` says this once; what follows about streams uses only it and

* `resolve_of_resolved`, `Chosen` — the decision is made once, and what
  it leaves behind when it picks a chain;
* `run_of_blocked`, `run_ran` — a blocked request runs nothing, and whatever ran
  belongs to the stream's chain.
-/

namespace Hypergate.Grpc

open Lib Engine Identity Policy

universe u

variable {W : Type u}

/-- The phase a message is handled in. -/
def Message.phase : Message → Option Phase
  | .requestHeaders _ _ => some .requestHeaders
  | .requestBody _ => some .requestBody
  | .requestTrailers _ => some .requestTrailers
  | .responseHeaders _ => some .responseHeaders
  | .responseBody _ => some .responseBody
  | .responseTrailers _ => some .responseTrailers
  | .unset => none

/-- The context with the message copied into it. -/
def Server.receive (s : Server) (policy : Option (EnginePolicy W)) (ctx : RequestContext) :
    Message → RequestContext
  | .requestHeaders attributes msg => s.readRequestHeaders policy attributes msg ctx
  | .requestBody body => { ctx with requestBodySeen := true, requestBody := body }
  | .requestTrailers trailers => { ctx with headers := copyHeaders ctx.headers trailers }
  | .responseHeaders msg =>
    { ctx with responseHeaders := copyHeaders ctx.responseHeaders msg.headers }
  | .responseBody body => { ctx with responseBodyBytes := body }
  | .responseTrailers trailers =>
    { ctx with responseHeaders := copyHeaders ctx.responseHeaders trailers }
  | .unset => ctx

/-- The context with the guard of `handleResponseHeaders` applied. -/
def guarded (phase : Phase) (ctx : RequestContext) : RequestContext :=
  if phase = .responseHeaders ∧ bodyMissed ctx = true then ctx.block 500 "Internal Server Error"
  else ctx

/-! ## The block state while a message is read -/

section Receive

variable (s : Server) (policy : Option (EnginePolicy W)) (ctx : RequestContext) (m : Message)

@[simp] theorem receive_blocked : (s.receive policy ctx m).blocked = ctx.blocked := by
  cases m <;> rfl

@[simp] theorem receive_answered : (s.receive policy ctx m).answered = ctx.answered := by
  cases m <;> rfl

@[simp] theorem receive_requestBodyRequired :
    (s.receive policy ctx m).requestBodyRequired = ctx.requestBodyRequired := by
  cases m <;> rfl

end Receive

/-! ## The decision -/

/-- What `resolve` decides on. -/
structure Decision (W : Type u) where
  policy : Option (EnginePolicy W)
  identity : Option Index
  ctx : RequestContext

namespace Decision

variable (d : Decision W)

/-- The context the router sees: the caller and the destination are known. -/
def identified : RequestContext := resolveIdentity d.identity d.ctx

/-- The chain name the router picks under policy `p`. -/
def name (p : EnginePolicy W) : String := (p.routeWith d.identified).1

/-- What the router leaves of that context. -/
def matched (p : EnginePolicy W) : RequestContext :=
  { d.identified with
    matchedRoute := (p.routeWith d.identified).2.getD d.identified.matchedRoute }

/-- The caller is east-west and the identity map does not have it. -/
def UnknownCaller : Prop :=
  d.identified.traffic = .eastWest ∧ ∃ idx, d.identity = some idx ∧
    idx.lookup d.ctx.clientAddr = none

/-- There is no policy, or the caller is unknown and not let through, or the
chosen chain is not loaded. -/
def Rejects : Prop :=
  d.policy = none ∨ ∃ p, d.policy = some p ∧
    (d.UnknownCaller ∧ p.config.router.unknownSource ≠ "default" ∨
      d.name p ≠ "" ∧ p.chains.lookup (d.name p) = none)

/-- The chain, a loaded one, that the decision picks. -/
def Picks (name : String) (chain : Chain W) : Prop :=
  ∃ p, d.policy = some p ∧ name = d.name p ∧ p.chains.lookup name = some chain

end Decision

theorem resolveIdentity_sourceWorkload (idx : Index) (ctx : RequestContext) :
    (resolveIdentity (some idx) ctx).sourceWorkload = idx.lookup ctx.clientAddr := by
  unfold resolveIdentity
  dsimp only
  split <;> split <;> rfl

theorem unknownCaller_iff (d : Decision W) (config : Config) :
    unknownCaller d.identity config d.identified = true ↔
      d.UnknownCaller ∧ config.router.unknownSource ≠ "default" := by
  unfold unknownCaller Decision.UnknownCaller Decision.identified
  cases hid : d.identity with
  | none => simp
  | some idx => simp [resolveIdentity_sourceWorkload, and_assoc]

theorem Decision.rejects_iff {d : Decision W} {p : EnginePolicy W}
    (hp : d.policy = some p) : d.Rejects ↔
      (unknownCaller d.identity p.config d.identified = true ∨
        d.name p ≠ "" ∧ p.chains.lookup (d.name p) = none) := by
  unfold Decision.Rejects
  rw [hp, unknownCaller_iff]
  constructor
  · intro h
    rcases h with h | ⟨p', hp', h⟩
    · cases h
    · cases hp'
      exact h
  · intro h
    exact .inr ⟨p, rfl, h⟩

/-- `ctx'` is `ctx` with other routing fields. -/
def OnlyRouting (ctx ctx' : RequestContext) : Prop :=
  ∃ traffic sourceWorkload destinationServices matchedRoute,
    ctx' = { ctx with traffic, sourceWorkload, destinationServices, matchedRoute }

theorem OnlyRouting.identified (d : Decision W) (matchedRoute : String) :
    OnlyRouting d.ctx { d.identified with matchedRoute } := by
  unfold Decision.identified resolveIdentity
  cases d.identity with
  | none =>
    dsimp only
    split
    · exact ⟨_, _, _, matchedRoute, rfl⟩
    · exact ⟨_, _, _, matchedRoute, rfl⟩
  | some idx =>
    dsimp only
    split
    · split <;> exact ⟨_, _, _, matchedRoute, rfl⟩
    · split <;> exact ⟨_, _, _, matchedRoute, rfl⟩

section Resolve

variable (policy : Option (EnginePolicy W)) (identity : Option Index)
  {st : StreamState W} (ctx : RequestContext)

theorem resolve_of_resolved (h : st.resolved = true) :
    resolve policy identity st ctx = (st, ctx) := by
  unfold resolve
  rw [if_pos h]

/-- What a rejecting decision leaves: no chain, and a blocked request. -/
structure Refused (st st' : StreamState W) (ctx ctx' : RequestContext) : Prop where
  resolved : st'.resolved = true
  snap : st'.snap = st.snap
  chain : st'.chain = st.chain
  ctx : ∃ ctx₁, OnlyRouting ctx ctx₁ ∧ ctx' = unavailable ctx₁

/-- What any other decision leaves: the chain it picked, if it picked one. -/
structure Chosen (d : Decision W) (st st' : StreamState W) (ctx' : RequestContext) : Prop where
  resolved : st'.resolved = true
  snap : st'.snap = st.snap
  chain : st'.chain = st.chain ∨ d.Picks st'.name st'.chain
  ctx : OnlyRouting d.ctx ctx'

/-- `resolve` under a policy, in the terms of the decision. -/
theorem resolve_some (h : st.resolved = false) (p : EnginePolicy W) (d : Decision W)
    (hd : d = { policy := some p, identity, ctx }) :
    resolve (some p) identity st ctx =
      if unknownCaller d.identity p.config d.identified then
        ({ st with resolved := true }, unavailable d.identified)
      else if d.name p = "" then
        ({ st with resolved := true, name := d.name p }, d.matched p)
      else match p.chains.lookup (d.name p) with
        | none => ({ st with resolved := true, name := d.name p }, unavailable (d.matched p))
        | some chain => ({ st with resolved := true, name := d.name p, chain }, d.matched p) := by
  subst hd
  unfold resolve
  rw [if_neg (by simp [h])]
  rfl

theorem resolve_cases (h : st.resolved = false) {d : Decision W}
    (hd : d = { policy, identity, ctx }) :
    d.Rejects ∧ Refused st (resolve policy identity st ctx).1 d.ctx
        (resolve policy identity st ctx).2 ∨
      ¬ d.Rejects ∧ Chosen d st (resolve policy identity st ctx).1
        (resolve policy identity st ctx).2 := by
  cases policy with
  | none =>
    have hnone : resolve none identity st ctx =
        ({ st with resolved := true }, unavailable ctx) := by
      unfold resolve
      rw [if_neg (by simp [h])]
    rw [hnone, hd]
    exact .inl ⟨.inl rfl, rfl, rfl, rfl, ctx, ⟨_, _, _, _, rfl⟩, rfl⟩
  | some p =>
    have hrej : d.Rejects ↔ _ := Decision.rejects_iff (p := p) (by rw [hd])
    rw [resolve_some identity ctx h p d hd]
    by_cases hu : unknownCaller d.identity p.config d.identified = true
    · rw [if_pos hu]
      exact .inl ⟨hrej.mpr (.inl hu), rfl, rfl, rfl, _, .identified d _, rfl⟩
    rw [if_neg hu]
    by_cases hn : d.name p = ""
    · have hnot : ¬ d.Rejects := fun hr => (hrej.mp hr).elim hu fun hmissing => hmissing.1 hn
      rw [if_pos hn]
      exact .inr ⟨hnot, rfl, rfl, .inl rfl, .identified d _⟩
    rw [if_neg hn]
    cases hc : p.chains.lookup (d.name p) with
    | none =>
      exact .inl ⟨hrej.mpr (.inr ⟨hn, hc⟩), rfl, rfl, rfl, _, .identified d _, rfl⟩
    | some chain =>
      have hnot : ¬ d.Rejects := fun hr => (hrej.mp hr).elim hu fun hmissing =>
        absurd (hc.symm.trans hmissing.2) (by simp)
      exact .inr ⟨hnot, rfl, rfl, .inr ⟨p, by rw [hd], rfl, hc⟩, .identified d _⟩

theorem OnlyRouting.blocked {ctx ctx' : RequestContext} (h : OnlyRouting ctx ctx') :
    ctx'.blocked = ctx.blocked := by
  obtain ⟨_, _, _, _, rfl⟩ := h
  rfl

/-- Unless it rejects, `resolve` writes routing fields only. -/
theorem resolve_onlyRouting
    (h : st.resolved = false → ¬ Decision.Rejects { policy, identity, ctx }) :
    OnlyRouting ctx (resolve policy identity st ctx).2 := by
  cases hres : st.resolved with
  | true =>
    rw [resolve_of_resolved policy identity ctx hres]
    exact ⟨_, _, _, _, rfl⟩
  | false =>
    rcases resolve_cases policy identity ctx hres rfl with ⟨hrej, _⟩ | ⟨_, hcho⟩
    · exact absurd hrej (h hres)
    · exact hcho.ctx

theorem resolve_resolved : (resolve policy identity st ctx).1.resolved = true := by
  cases h : st.resolved with
  | true => rw [resolve_of_resolved policy identity ctx h, h]
  | false =>
    rcases resolve_cases policy identity ctx h rfl with ⟨_, hr⟩ | ⟨_, hr⟩
    · exact hr.resolved
    · exact hr.resolved

theorem resolve_snap : (resolve policy identity st ctx).1.snap = st.snap := by
  cases h : st.resolved with
  | true => rw [resolve_of_resolved policy identity ctx h]
  | false =>
    rcases resolve_cases policy identity ctx h rfl with ⟨_, hr⟩ | ⟨_, hr⟩
    · exact hr.snap
    · exact hr.snap

theorem resolve_blocked (hb : ctx.blocked = true) :
    (resolve policy identity st ctx).2.blocked = true := by
  cases h : st.resolved with
  | true => rw [resolve_of_resolved policy identity ctx h, hb]
  | false =>
    rcases resolve_cases policy identity ctx h rfl with ⟨_, hr⟩ | ⟨_, hr⟩
    · obtain ⟨ctx₁, _, heq⟩ := hr.ctx
      rw [heq]
      rfl
    · rw [hr.ctx.blocked, hb]

end Resolve

variable {ctx : RequestContext}

theorem guarded_blocked (phase : Phase) (hb : ctx.blocked = true) :
    (guarded phase ctx).blocked = true := by
  unfold guarded
  split
  · rfl
  · exact hb

/-! ## Running -/

section Run

variable (policy : Option (EnginePolicy W)) (now : Moment) (st : StreamState W) (w : W)
  (ctx : RequestContext) (phase : Phase)

theorem run_of_blocked (h : ctx.blocked = true) :
    run policy now st w ctx phase = { world := w, ctx, limiter := now.limiter } := by
  unfold run
  rw [if_pos (by simp [h])]

theorem run_of_nil (h : st.chain = []) :
    run policy now st w ctx phase = { world := w, ctx, limiter := now.limiter } := by
  unfold run
  rw [if_pos (by simp [h])]

/-- Only an unblocked request on a chain runs filters. -/
theorem run_ran (h : (run policy now st w ctx phase).ran ≠ []) :
    ctx.blocked = false ∧ st.chain ≠ [] := by
  constructor
  · cases hb : ctx.blocked with
    | false => rfl
    | true => exact absurd (by rw [run_of_blocked policy now st w ctx phase hb]) h
  · intro hnil
    exact h (by rw [run_of_nil policy now st w ctx phase hnil])

end Run

/-- The request gets as far as the filters of its chain: nobody denied it, and the chain is not
at its concurrency limit. -/
structure Admitted (policy : Option (EnginePolicy W)) (now : Moment) (st : StreamState W)
    (ctx : RequestContext) : Prop where
  opened : ctx.blocked = false
  room : 0 < (limitsOf policy st.name).maxConcurrency →
    (now.limiter.acquire st.name (limitsOf policy st.name).maxConcurrency).2 = true

theorem run_of_admitted {policy : Option (EnginePolicy W)} {now : Moment} {st : StreamState W}
    {w : W} {phase : Phase} (h : Admitted policy now st ctx) (hchain : st.chain.isEmpty = false) :
    (run policy now st w ctx phase).ctx
      = (runFilters (limitsOf policy st.name) now.deadlineExceeded st w ctx phase).2.1 := by
  unfold run
  rw [if_neg (by simp [h.opened, hchain])]
  dsimp only
  split
  · rename_i hmax
    have hroom := h.room hmax
    split
    · rename_i hacquire
      rw [hacquire] at hroom
      cases hroom
    · rfl
  · rfl

/-- A request does not get to the filters, or is admitted. -/
theorem run_cases (policy : Option (EnginePolicy W)) (now : Moment) (st : StreamState W) (w : W)
    (ctx : RequestContext) (phase : Phase) :
    (run policy now st w ctx phase).ctx = ctx
      ∨ (run policy now st w ctx phase).ctx
        = unavailable (ctx.setHeaderDownstream "retry-after" "1")
      ∨ Admitted policy now st ctx ∧ st.chain.isEmpty = false := by
  by_cases hskip : (ctx.blocked || st.chain.isEmpty) = true
  · left
    unfold run
    rw [if_pos hskip]
  obtain ⟨hopen, hchain⟩ : ctx.blocked = false ∧ st.chain.isEmpty = false := by
    simpa using hskip
  by_cases hroom : 0 < (limitsOf policy st.name).maxConcurrency →
      (now.limiter.acquire st.name (limitsOf policy st.name).maxConcurrency).2 = true
  · exact .inr (.inr ⟨⟨hopen, hroom⟩, hchain⟩)
  · -- the chain is at its limit
    rw [Classical.not_imp] at hroom
    obtain ⟨hmax, hfull⟩ := hroom
    unfold run
    rw [if_neg hskip]
    rw [if_pos hmax]
    split
    · split
      · exact .inl rfl
      · exact .inr (.inl rfl)
    · rename_i hacquire
      rw [hacquire] at hfull
      exact absurd rfl hfull

theorem runFilters_of_no_error {limits : ChainSettings} {exceeded : Bool} {st : StreamState W}
    {w : W} {phase : Phase} (h : (execute w ctx st.chain phase).err = none) :
    (runFilters limits exceeded st w ctx phase).2.1 = (execute w ctx st.chain phase).ctx := by
  unfold runFilters
  rw [if_neg (by simp [h])]

/-! ## The handlers -/

/-- The mutation goes to the message; the context only keeps it as scratch. -/
theorem buildHeaderMutation_ctx (ctx : RequestContext) (headers : List Header)
    (removes : List String) : ∃ setHeaderOptions,
      (buildHeaderMutation ctx headers removes).1 = { ctx with setHeaderOptions } := by
  unfold buildHeaderMutation
  split
  · exact ⟨_, rfl⟩
  · exact ⟨_, rfl⟩

/-- `r` is what handling leaves when the chain run left `x`. -/
structure Answers (st : StreamState W) (phase : Phase) (x : RunResult W) (r : Handled W) :
    Prop where
  st : r.st = st
  world : r.world = x.world
  limiter : r.limiter = x.limiter
  ran : r.ran = x.ran
  ctx : ∃ setHeaderOptions, r.ctx = { x.ctx with setHeaderOptions }
  immediate : r.response.isImmediate = (x.ctx.blocked && decide (phase ≠ .responseTrailers))

section Handle

variable {s : Server} {policy : Option (EnginePolicy W)} {now : Moment} {st : StreamState W}
  {w : W} {ctx : RequestContext}

/-- A handler that may answer with an immediate response, and whose own reply
leaves the context as it is. -/
theorem finish_answers {phase : Phase} {reply : RequestContext → RequestContext × Response}
    (hphase : phase ≠ .responseTrailers)
    (hctx : ∀ c, ∃ setHeaderOptions, (reply c).1 = { c with setHeaderOptions })
    (himm : ∀ c, (reply c).2.isImmediate = false) :
    Answers st phase (run policy now st w ctx phase) (finish policy now st w ctx phase reply) := by
  unfold finish
  dsimp only
  by_cases hb : (run policy now st w ctx phase).ctx.blocked = true
  · rw [if_pos hb]
    refine ⟨rfl, rfl, rfl, rfl, buildHeaderMutation_ctx .., ?_⟩
    rw [hb, decide_eq_true hphase]
    rfl
  · rw [if_neg hb]
    refine ⟨rfl, rfl, rfl, rfl, hctx _, ?_⟩
    rw [Bool.eq_false_iff.mpr hb, Bool.false_and]
    exact himm _

/-- Every message that has a kind is handled: it is copied into the context, the
decision is made or kept, the chain runs for the message's phase, and the answer
is immediate exactly when the request is blocked. -/
theorem handle_spec (s : Server) (policy : Option (EnginePolicy W)) (now : Moment)
    (st : StreamState W) (w : W) (ctx : RequestContext) {m : Message} {phase : Phase}
    (hphase : m.phase = some phase) :
    ∃ r, handle policy now st w ctx s m = some r ∧
      Answers (resolve policy now.identity st (s.receive policy ctx m)).1 phase
        (run policy now (resolve policy now.identity st (s.receive policy ctx m)).1 w
          (guarded phase (resolve policy now.identity st (s.receive policy ctx m)).2) phase)
        r := by
  cases m with
  | requestHeaders attributes msg =>
    cases hphase
    refine ⟨handleRequestHeaders policy now st w ctx s attributes msg, rfl, ?_⟩
    unfold handleRequestHeaders handlePhase
    exact finish_answers nofun (fun _ => buildHeaderMutation_ctx ..) fun _ => rfl
  | requestBody body =>
    cases hphase
    refine ⟨handleRequestBody policy now st w ctx body, rfl, ?_⟩
    unfold handleRequestBody handlePhase
    exact finish_answers nofun (fun _ => buildHeaderMutation_ctx ..) fun _ => rfl
  | requestTrailers trailers =>
    cases hphase
    refine ⟨handleRequestTrailers policy now st w ctx trailers, rfl, ?_⟩
    unfold handleRequestTrailers handlePhase
    exact finish_answers nofun (fun _ => buildHeaderMutation_ctx ..) fun _ => rfl
  | responseHeaders msg =>
    cases hphase
    refine ⟨handleResponseHeaders policy now st w ctx msg, rfl, ?_⟩
    unfold handleResponseHeaders guarded
    simp only [true_and]
    exact finish_answers nofun (fun _ => buildHeaderMutation_ctx ..) fun _ => rfl
  | responseBody body =>
    cases hphase
    refine ⟨handleResponseBody policy now st w ctx body, rfl, ?_⟩
    unfold handleResponseBody handlePhase
    exact finish_answers nofun (fun _ => ⟨_, rfl⟩) fun _ => rfl
  | responseTrailers trailers =>
    cases hphase
    refine ⟨handleResponseTrailers policy now st w ctx trailers, rfl, ?_⟩
    refine ⟨rfl, rfl, rfl, rfl, buildHeaderMutation_ctx .., ?_⟩
    rw [decide_eq_false (by simp), Bool.and_false]
    rfl
  | unset => cases hphase

variable {m : Message} {r : Handled W}

theorem handle_answers (h : handle policy now st w ctx s m = some r) :
    ∃ phase, m.phase = some phase ∧
      Answers (resolve policy now.identity st (s.receive policy ctx m)).1 phase
        (run policy now (resolve policy now.identity st (s.receive policy ctx m)).1 w
          (guarded phase (resolve policy now.identity st (s.receive policy ctx m)).2) phase)
        r := by
  cases hphase : m.phase with
  | none =>
    cases m with
    | unset => cases h
    | _ => cases hphase
  | some phase =>
    obtain ⟨r', hr', hans⟩ := handle_spec s policy now st w ctx hphase
    rw [h] at hr'
    cases hr'
    exact ⟨phase, rfl, hans⟩

/-- A blocked request stays blocked and runs nothing. -/
theorem handle_of_blocked (h : handle policy now st w ctx s m = some r)
    (hb : ctx.blocked = true) : r.ctx.blocked = true ∧ r.ran = [] := by
  obtain ⟨phase, _, hans⟩ := handle_answers h
  obtain ⟨opts, hctx⟩ := hans.ctx
  have hresolve : (resolve policy now.identity st (s.receive policy ctx m)).2.blocked = true :=
    resolve_blocked policy now.identity _ (by rw [receive_blocked, hb])
  have hguard := guarded_blocked phase hresolve
  rw [hctx, hans.ran, run_of_blocked policy now _ w _ phase hguard]
  exact ⟨hguard, rfl⟩

theorem handle_ran (h : handle policy now st w ctx s m = some r) (hran : r.ran ≠ []) :
    r.st.chain ≠ [] := by
  obtain ⟨phase, _, hans⟩ := handle_answers h
  rw [hans.ran] at hran
  rw [hans.st]
  exact (run_ran policy now _ w _ phase hran).2

/-- The answer is immediate exactly when the request is blocked, response
trailers aside. -/
theorem handle_immediate_iff (h : handle policy now st w ctx s m = some r) :
    r.response.isImmediate = true ↔ r.ctx.blocked = true ∧ m.phase ≠ some .responseTrailers := by
  obtain ⟨phase, hphase, hans⟩ := handle_answers h
  obtain ⟨opts, hctx⟩ := hans.ctx
  rw [hctx, hans.immediate, hphase, Bool.and_eq_true, decide_eq_true_eq, Ne, Ne,
    Option.some.injEq]

end Handle

end Hypergate.Grpc
