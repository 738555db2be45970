import Hypergate.Filters.Cors
import Hypergate.Grpc.HeaderSync

/-!
# `Vary` across the phases of a CORS request

The CORS filter queues `vary: Origin` in the request phase. In the response phase it replaces the
queued value by the upstream's `Vary` with `Origin` added, if it again reads an allowed origin.
Between the two phases other filters may have changed the `origin` header: then the queued value
stays, and overwrites the upstream's.

* `VaryState` — what is pending for `vary`, and the upstream's headers.
* `run_vary` — what a run of a chain with the filter leaves of it.
* `Exchange` — a request and its response, from the first message to the headers that the client
  gets.
* `vary_right_iff` — when the client's `Vary` covers the upstream's and the origin.
-/

namespace Hypergate.Grpc

open Lib Engine Filters

universe u

variable {W : Type u}

/-! ## The other filters -/

/-- The filter changes headers by the methods of the context and leaves the response header
`vary` alone. -/
structure LeavesVary (f : Engine.Filter W) : Prop where
  edits : EditsHeaders f
  phase : ∀ w ctx, (f.execute w ctx).2.1.phase = ctx.phase
  vary : ∀ w ctx, (f.execute w ctx).2.1.downstreamShadow.lookup "vary"
    = ctx.downstreamShadow.lookup "vary"

/-- The pending value of `vary`, and the response headers that have arrived. -/
structure VaryState (v : Option String) (arrived : AMap String String) (ctx : RequestContext) :
    Prop where
  consistent : ctx.downstream.Consistent
  vary : ctx.downstreamShadow.lookup "vary" = v
  arrived : ctx.responseHeaders = arrived

/-- The same while the filters of a phase run. -/
def VaryIn (v : Option String) (arrived : AMap String String) (phase : Phase)
    (ctx : RequestContext) : Prop := VaryState v arrived ctx ∧ ctx.phase = phase

variable {v : Option String} {arrived : AMap String String} {phase : Phase}

variable {a b : RequestContext}

/-- Filters leave the pending changes of the response in step. -/
theorem Edited.consistent_downstream (h : Edited a b) (ha : a.downstream.Consistent) :
    b.downstream.Consistent := by
  induction h with
  | refl => exact ha
  | call _ c ih =>
    cases c with
    | setHeaderUpstream key value => exact ih
    | removeHeaderUpstream key => exact ih
    | setHeaderDownstream key value => exact ih.set _ value
    | removeHeaderDownstream key => exact ih.remove _
    | setPath path => exact ih
  | other _ hview ih =>
    have hdown := congrArg HeaderView.downstream hview
    exact (show RequestContext.downstream _ = RequestContext.downstream _ from hdown) ▸ ih

/-- Header methods keep everything but the value of `vary`. -/
theorem VaryState.of_edited {v' : Option String} {ctx ctx' : RequestContext}
    (h : VaryState v arrived ctx) (hedited : Edited ctx ctx')
    (hvary : ctx'.downstreamShadow.lookup "vary" = v') : VaryState v' arrived ctx' where
  consistent := hedited.consistent_downstream h.consistent
  vary := hvary
  arrived := hedited.arrived.2.trans h.arrived

/-- Only the response's side of the headers matters. -/
theorem VaryState.of_view {ctx ctx' : RequestContext} (h : VaryState v arrived ctx)
    (hview : ctx'.headerView = ctx.headerView) : VaryState v arrived ctx' := by
  refine h.of_edited (.other .refl hview) ?_
  have hdown := congrArg HeaderView.downstream hview
  exact (congrArg (fun e => e.shadow.lookup "vary") hdown).trans h.vary

theorem VaryIn.endStable : EndStable (VaryIn v arrived phase) where
  failBy _ _ h := ⟨h.1.of_view rfl, h.2⟩
  blockedBy _ _ h := ⟨h.1.of_view rfl, h.2⟩

/-- A filter that leaves `vary` alone does so when it is audited. -/
theorem LeavesVary.keeps {slot : ChainSlot W} (h : LeavesVary slot.filter) :
    slot.Keeps (VaryIn v arrived phase) where
  execute w ctx hctx :=
    ⟨hctx.1.of_edited (h.edits w ctx) ((h.vary w ctx).trans hctx.1.vary),
      (h.phase w ctx).trans hctx.2⟩
  audited _ w ctx i hctx := by
    have hkept : VaryIn v arrived phase (slot.filter.execute w ctx).2.1 :=
      ⟨hctx.1.of_edited (h.edits w ctx) ((h.vary w ctx).trans hctx.1.vary),
        (h.phase w ctx).trans hctx.2⟩
    refine executeAudited_keeps hkept (fun hit => ?_) fun _ hmark => ⟨hmark.1.of_view rfl, hmark.2⟩
    exact ⟨hctx.1.of_view (rollBack_headerView (h.edits w ctx) hit), hkept.2⟩

/-! ## The CORS filter in a chain -/

theorem Edited.answer (h : Edited a b) (status : Int) (body : String) :
    Edited a (b.answer status body) := .other h rfl

theorem Edited.set_if (h : Edited a b) (p : Prop) [Decidable p] (key value : String) :
    Edited a (if p then b.setHeaderDownstream key value else b) := by
  split
  · exact .call h (.setHeaderDownstream key value)
  · exact h

theorem edited_setAllowOrigin (f : CorsFilter) (ctx : RequestContext) (origin : String) :
    Edited ctx (f.setAllowOrigin ctx origin) := by
  unfold CorsFilter.setAllowOrigin
  refine Edited.set_if ?_ ..
  split
  · exact .call (.call .refl (.setHeaderDownstream ..)) (.setHeaderDownstream ..)
  · exact .call .refl (.setHeaderDownstream ..)

theorem edited_preflightHeaders (f : CorsFilter) (ctx : RequestContext) :
    Edited ctx (f.preflightHeaders ctx) := by
  unfold CorsFilter.preflightHeaders
  apply Edited.set_if
  apply Edited.set_if
  exact .call .refl (.setHeaderDownstream ..)

theorem edited_cors (f : CorsFilter) (ctx : RequestContext) : Edited ctx (f.execute ctx) := by
  unfold CorsFilter.execute
  dsimp only
  split
  · exact .refl
  · split
    · exact Edited.set_if .refl ..
    · unfold CorsFilter.executeRequest
      split
      · split
        · exact .other .refl rfl
        · exact .refl
      · split
        · apply Edited.answer
          exact (edited_setAllowOrigin ..).trans (edited_preflightHeaders ..)
        · exact (edited_setAllowOrigin ..).set_if ..

theorem phase_set_if (p : Prop) [Decidable p] (key value : String) (ctx : RequestContext) :
    (if p then ctx.setHeaderDownstream key value else ctx).phase = ctx.phase := by
  split <;> rfl

theorem phase_answer (ctx : RequestContext) (status : Int) (body : String) :
    (ctx.answer status body).phase = ctx.phase := rfl

theorem phase_setAllowOrigin (f : CorsFilter) (ctx : RequestContext) (origin : String) :
    (f.setAllowOrigin ctx origin).phase = ctx.phase := by
  unfold CorsFilter.setAllowOrigin
  rw [phase_set_if]
  split <;> rfl

theorem phase_preflightHeaders (f : CorsFilter) (ctx : RequestContext) :
    (f.preflightHeaders ctx).phase = ctx.phase := by
  unfold CorsFilter.preflightHeaders
  rw [phase_set_if, phase_set_if]
  rfl

theorem phase_cors (f : CorsFilter) (ctx : RequestContext) : (f.execute ctx).phase = ctx.phase := by
  unfold CorsFilter.execute
  dsimp only
  split
  · rfl
  · split
    · exact phase_set_if ..
    · unfold CorsFilter.executeRequest
      split
      · split <;> rfl
      · split
        · rw [phase_answer, phase_preflightHeaders, phase_setAllowOrigin]
        · rw [phase_set_if, phase_setAllowOrigin]

/-- The chain has the CORS filter, enforced, and other filters that leave `vary` alone. -/
structure CorsChain (f : CorsFilter) (before after chain : Chain W) : Prop where
  eq : chain = before ++ { filter := f.toFilter } :: after
  others : ∀ slot ∈ before ++ after, LeavesVary slot.filter

/-- A run of the chain comes to the CORS filter, and there it reads an allowed origin. -/
def CorsAllows (f : CorsFilter) (after : Chain W) (policy : Option (EnginePolicy W))
    (now : Moment) (st : StreamState W) (w : W) (ctx : RequestContext) (phase : Phase) : Prop :=
  Admitted policy now st ctx
    ∧ ∃ s, Reaches phase ⟨st.chain, 0, w, { ctx with phase }⟩ s
      ∧ s.chain = { filter := f.toFilter } :: after
      ∧ s.ctx.blocked = false ∧ f.Allows s.ctx

section Run

variable {f : CorsFilter} {before after : Chain W} {policy : Option (EnginePolicy W)}
  {now : Moment} {st : StreamState W} {w : W} {ctx : RequestContext}

theorem result_of_cors {s : LoopState W} {u : Option String}
    (hgate : (f.toFilter (W := W)).runsIn phase = true)
    (hafter : ∀ slot ∈ after, LeavesVary slot.filter)
    (hchain : s.chain = { filter := f.toFilter } :: after) (hopen : s.ctx.blocked = false)
    (hleft : VaryIn u arrived phase (f.execute s.ctx)) :
    VaryIn u arrived phase (s.result phase).ctx := by
  unfold LoopState.result
  rw [hchain]
  cases hpass : (f.execute s.ctx).blocked with
  | true =>
    rw [executeFrom_of_denied hopen hgate rfl rfl hpass]
    exact VaryIn.endStable.blockedBy _ _ hleft
  | false =>
    have hstep : LoopStep phase ⟨{ filter := f.toFilter } :: after, s.pos, s.world, s.ctx⟩
        ⟨after, s.pos + 1, s.world, f.execute s.ctx⟩ := .passed hopen hgate rfl rfl hpass
    obtain ⟨ran, -, hresult⟩ := hstep.result_eq
    have hctx := congrArg ExecResult.ctx hresult
    have hrest := executeFrom_keeps VaryIn.endStable phase
      (fun slot hslot => (hafter slot hslot).keeps) (s.pos + 1) s.world hleft
    exact (show _ = _ from hctx) ▸ hrest

/-- What the CORS filter makes of the pending value in a phase: `x` if it allows the origin, and
nothing otherwise. -/
def Sets (f : CorsFilter) (v : Option String) (arrived : AMap String String) (phase : Phase)
    (x : String) : Prop :=
  ∀ ctx, VaryIn v arrived phase ctx →
    (f.Allows ctx → (f.execute ctx).downstreamShadow.lookup "vary" = some x)
      ∧ (¬ f.Allows ctx → (f.execute ctx).downstreamShadow.lookup "vary" = v)

/-- After the filters of a phase: `x` is pending if the run comes to the CORS filter and that
allows the origin, and otherwise what was pending before. -/
theorem execute_vary {x : String} (hgate : (f.toFilter (W := W)).runsIn phase = true)
    (hsets : Sets f v arrived phase x) (hchain : CorsChain f before after st.chain)
    (hadmitted : Admitted policy now st ctx) (hctx : VaryState v arrived ctx) :
    (CorsAllows f after policy now st w ctx phase →
        VaryState (some x) arrived (execute w ctx st.chain phase).ctx)
      ∧ (¬ CorsAllows f after policy now st w ctx phase →
        VaryState v arrived (execute w ctx st.chain phase).ctx) := by
  have hbefore : ∀ slot ∈ before, slot.Keeps (VaryIn v arrived phase) :=
    fun slot hslot => (hchain.others slot (List.mem_append_left _ hslot)).keeps
  have hafter : ∀ slot ∈ after, LeavesVary slot.filter :=
    fun slot hslot => hchain.others slot (List.mem_append_right _ hslot)
  have hstart : VaryIn v arrived phase { ctx with phase } := ⟨hctx.of_view rfl, rfl⟩
  have hfinal : ∀ {s : LoopState W} {u : Option String},
      Reaches phase ⟨st.chain, 0, w, { ctx with phase }⟩ s →
      VaryState u arrived (s.result phase).ctx →
      VaryState u arrived (execute w ctx st.chain phase).ctx := by
    intro s u hreach hs
    obtain ⟨ran, -, hresult⟩ := Reaches.result_eq hreach
    exact (show _ = _ from congrArg ExecResult.ctx hresult) ▸ hs
  have hleft : ∀ {c : RequestContext} {u : Option String}, VaryIn v arrived phase c →
      (f.execute c).downstreamShadow.lookup "vary" = u → VaryIn u arrived phase (f.execute c) :=
    fun hc hu => ⟨hc.1.of_edited (edited_cors f _) hu, (phase_cors f _).trans hc.2⟩
  constructor
  · rintro ⟨-, s, hreach, hs, hopen, hallows⟩
    have hkept : VaryIn v arrived phase s.ctx :=
      Reaches.keeps hreach before (hs ▸ hchain.eq) hbefore hstart
    have hset := hleft hkept ((hsets s.ctx hkept).1 hallows)
    exact hfinal hreach (result_of_cors hgate hafter hs hopen hset).1
  · intro hnot
    have hcases := keeps_or_reaches VaryIn.endStable phase before
      ({ filter := f.toFilter } :: after) hbefore 0 w hstart
    rw [← hchain.eq] at hcases
    rcases hcases with hdone | ⟨s, hreach, hs, hkept⟩
    · exact hdone.1
    · cases hopen : s.ctx.blocked with
      | true =>
        refine hfinal hreach ?_
        unfold LoopState.result
        rw [executeFrom_of_blocked hopen]
        exact hkept.1
      | false =>
        have hallows : ¬ f.Allows s.ctx :=
          fun h => hnot ⟨hadmitted, s, hreach, hs, hopen, h⟩
        have hsame := hleft hkept ((hsets s.ctx hkept).2 hallows)
        exact hfinal hreach (result_of_cors hgate hafter hs hopen hsame).1

/-- What the timeout rule writes is not about headers. -/
theorem VaryState.runFilters {limits : Policy.ChainSettings} {exceeded : Bool}
    (h : VaryState v arrived (execute w ctx st.chain phase).ctx) :
    VaryState v arrived (runFilters limits exceeded st w ctx phase).2.1 := by
  unfold Grpc.runFilters
  dsimp only
  split
  · split
    · exact h.of_view rfl
    · exact h.of_view rfl
  · exact h

/-- `run` leaves what the filters left, or the request did not get to them. -/
theorem VaryState.run (hctx : VaryState v arrived ctx)
    (hfilters : Admitted policy now st ctx →
      VaryState v arrived (execute w ctx st.chain phase).ctx) :
    VaryState v arrived (run policy now st w ctx phase).ctx := by
  rcases run_cases policy now st w ctx phase with hsame | hfull | ⟨hadmitted, hchain⟩
  · rw [hsame]
    exact hctx
  · rw [hfull]
    have hset : (ctx.setHeaderDownstream "retry-after" "1").downstreamShadow.lookup "vary"
        = ctx.downstreamShadow.lookup "vary" := vary_setHeaderDownstream (by decide) "1" ctx
    exact hctx.of_edited (.other (.call .refl (.setHeaderDownstream "retry-after" "1")) rfl)
      (hset.trans hctx.vary)
  · rw [run_of_admitted hadmitted hchain]
    exact (hfilters hadmitted).runFilters

theorem run_vary {x : String} (hgate : (f.toFilter (W := W)).runsIn phase = true)
    (hsets : Sets f v arrived phase x) (hchain : CorsChain f before after st.chain)
    (hctx : VaryState v arrived ctx) :
    (CorsAllows f after policy now st w ctx phase →
        VaryState (some x) arrived (run policy now st w ctx phase).ctx)
      ∧ (¬ CorsAllows f after policy now st w ctx phase →
        VaryState v arrived (run policy now st w ctx phase).ctx) := by
  constructor
  · intro hallows
    have hnonempty : st.chain.isEmpty = false := by
      rw [hchain.eq]
      simp
    rw [run_of_admitted hallows.1 hnonempty]
    exact ((execute_vary hgate hsets hchain hallows.1 hctx).1 hallows).runFilters
  · intro hnot
    exact hctx.run fun hadmitted => (execute_vary hgate hsets hchain hadmitted hctx).2 hnot

/-! ## The three cases of the pending value -/

theorem sets_request (hreflects : f.reflectsOrigin = true) (hphase : phase ≠ .responseHeaders) :
    Sets f v arrived phase "Origin" := by
  intro ctx hctx
  have hne : ctx.phase ≠ .responseHeaders := by rwa [hctx.2]
  rcases CorsFilter.execute_vary_request hreflects hne with ⟨hallows, hset⟩ | ⟨hnot, hsame⟩
  · exact ⟨fun _ => hset, fun h => absurd hallows h⟩
  · exact ⟨fun h => absurd h hnot, fun _ => hsame.trans hctx.1.vary⟩

theorem sets_response (hreflects : f.reflectsOrigin = true) :
    Sets f v arrived .responseHeaders (mergeVary (arrived.getD "vary" "") "Origin") := by
  intro ctx hctx
  constructor
  · intro hallows
    rw [CorsFilter.execute_response_of_allows hreflects hctx.2 hallows, hctx.1.arrived]
    exact vary_setHeaderDownstream_self ..
  · intro hnot
    rw [CorsFilter.execute_response_of_not_allows hctx.2 hnot]
    exact hctx.1.vary

/-- The queued value stays through the rest of the request. -/
theorem run_keeps_origin (hreflects : f.reflectsOrigin = true) (hphase : phase ≠ .responseHeaders)
    (hchain : CorsChain f before after st.chain) (hctx : VaryState (some "Origin") arrived ctx) :
    VaryState (some "Origin") arrived (run policy now st w ctx phase).ctx := by
  refine hctx.run fun _ => ?_
  have hcors : ChainSlot.Keeps (VaryIn (some "Origin") arrived phase)
      ({ filter := f.toFilter } : ChainSlot W) := by
    refine ⟨fun _ c hc => ?_, fun h => absurd h (by simp)⟩
    have hsets := sets_request hreflects hphase c hc
    have hvary : (f.execute c).downstreamShadow.lookup "vary" = some "Origin" :=
      (Classical.em (f.Allows c)).elim hsets.1 hsets.2
    exact ⟨hc.1.of_edited (edited_cors f c) hvary, (phase_cors f c).trans hc.2⟩
  have hkeeps : ∀ slot ∈ st.chain, slot.Keeps (VaryIn (some "Origin") arrived phase) := by
    intro slot hslot
    rw [hchain.eq] at hslot
    rcases List.mem_append.mp hslot with hmem | hmem
    · exact (hchain.others slot (List.mem_append_left _ hmem)).keeps
    · rcases List.mem_cons.mp hmem with rfl | hmem
      · exact hcors
      · exact (hchain.others slot (List.mem_append_right _ hmem)).keeps
  have hstart : VaryIn (some "Origin") arrived phase { ctx with phase } :=
    ⟨hctx.of_view rfl, rfl⟩
  exact (executeFrom_keeps VaryIn.endStable phase hkeeps 0 w hstart).1

end Run

/-! ## A request and its response -/

/-- The stream and the context with which the chain starts for a message. -/
def Server.start (s : Server) (policy : Option (EnginePolicy W)) (now : Moment)
    (st : StreamState W) (ctx : RequestContext) (m : Message) (phase : Phase) :
    StreamState W × RequestContext :=
  ((resolve policy now.identity st (s.receive policy ctx m)).1,
    guarded phase (resolve policy now.identity st (s.receive policy ctx m)).2)

/-- A message of the request after its headers is handled, and the request goes on. The world is
as other streams have left it. -/
def RequestTurn (s : Server) (policy : Option (EnginePolicy W))
    (a b : StreamState W × RequestContext) : Prop :=
  ∃ now w m r, (m.phase = some .requestBody ∨ m.phase = some .requestTrailers)
    ∧ handle policy now a.1 w a.2 s m = some r ∧ r.response.isImmediate = false
    ∧ b = (r.st, r.ctx)

/-- The response headers as the client gets them. -/
def Response.toClient (headers : AMap String String) : Response → AMap String String
  | .responseHeaders m _ => applyMutation m headers
  | _ => headers

/-- A stream whose chain has a CORS filter that reflects the origin. The filter allows the origin
of the request, so it puts `access-control-allow-origin` on the response; the request goes to the
upstream, and the upstream's response to the client. -/
structure Exchange (W : Type u) where
  server : Server
  policy : Option (EnginePolicy W)
  cors : CorsFilter
  reflects : cors.reflectsOrigin = true
  before : Chain W
  after : Chain W
  -- the request headers
  snap : Nat
  now : Moment
  world : W
  attributes : Attributes
  request : HttpHeaders
  first : Handled W
  handled : handle policy now { snap } world {} server (.requestHeaders attributes request)
    = some first
  forwarded : first.response.isImmediate = false
  chain : CorsChain cors before after first.st.chain
  allowed : CorsAllows cors after policy now
    (server.start policy now { snap } {} (.requestHeaders attributes request) .requestHeaders).1
    world
    (server.start policy now { snap } {} (.requestHeaders attributes request) .requestHeaders).2
    .requestHeaders
  -- the rest of the request
  later : StreamState W × RequestContext
  turns : Relation.ReflTransGen (RequestTurn server policy) (first.st, first.ctx) later
  -- the response headers
  nowResponse : Moment
  worldResponse : W
  response : HttpHeaders
  last : Handled W
  answered : handle policy nowResponse later.1 worldResponse later.2 server
    (.responseHeaders response) = some last
  returned : last.response.isImmediate = false

namespace Exchange

variable (x : Exchange W)

/-- The upstream's response headers, repeated ones folded. -/
def upstream : AMap String String := copyHeaders ∅ x.response.headers

/-- The response headers that the client gets. -/
def client : AMap String String := x.last.response.toClient x.upstream

/-- The client's `Vary` has every token of the upstream's, and `Origin` or `*`. -/
def VaryRight : Prop := Covers (x.client.getD "vary" "") (x.upstream.getD "vary" "")

/-- The stream and the context with which the chain starts for the response. -/
def begun : StreamState W × RequestContext :=
  x.server.start x.policy x.nowResponse x.later.1 x.later.2 (.responseHeaders x.response)
    .responseHeaders

/-- When the response comes, the run gets to the CORS filter, and there the filter again reads an
allowed origin. -/
def StillAllowed : Prop :=
  CorsAllows x.cors x.after x.policy x.nowResponse x.begun.1 x.worldResponse x.begun.2
    .responseHeaders

end Exchange

/-- Neither the routing decision nor the check for a missed body touches headers. -/
theorem VaryState.start {s : Server} {policy : Option (EnginePolicy W)} (now : Moment)
    (st : StreamState W) {ctx : RequestContext} {m : Message}
    (h : VaryState v arrived (s.receive policy ctx m)) (phase : Phase) :
    VaryState v arrived (s.start policy now st ctx m phase).2 :=
  h.of_view ((guarded_headerView ..).trans (resolve_headerView ..))

theorem start_of_resolved (s : Server) (policy : Option (EnginePolicy W)) (now : Moment)
    {st : StreamState W} (ctx : RequestContext) (m : Message) (phase : Phase)
    (h : st.resolved = true) : (s.start policy now st ctx m phase).1 = st := by
  unfold Server.start
  rw [resolve_of_resolved policy now.identity _ h]

theorem VaryState.answers {st : StreamState W} {r : RunResult W} {h : Handled W}
    (hr : VaryState v arrived r.ctx) (hanswers : Answers st phase r h) :
    VaryState v arrived h.ctx := by
  obtain ⟨opts, hctx⟩ := hanswers.ctx
  rw [hctx]
  exact hr.of_view rfl

namespace Exchange

variable (x : Exchange W)

/-- The stream after a message of the request. -/
structure Queued (p : StreamState W × RequestContext) : Prop where
  resolved : p.1.resolved = true
  chain : CorsChain x.cors x.before x.after p.1.chain
  vary : VaryState (some "Origin") ∅ p.2

theorem queued_first : x.Queued (x.first.st, x.first.ctx) := by
  obtain ⟨phase, hphase, hanswers⟩ := handle_answers x.handled
  cases hphase
  have hempty : VaryState none ∅ (x.server.receive x.policy {}
      (.requestHeaders x.attributes x.request)) := ⟨HeaderEdits.consistent_empty, rfl, rfl⟩
  have hchain : CorsChain x.cors x.before x.after
      (x.server.start x.policy x.now { snap := x.snap } {}
        (.requestHeaders x.attributes x.request) .requestHeaders).1.chain :=
    (show x.first.st = _ from hanswers.st) ▸ x.chain
  have hsets : Sets x.cors none ∅ .requestHeaders "Origin" :=
    sets_request x.reflects (by decide)
  have hrun := (run_vary rfl hsets hchain (hempty.start x.now { snap := x.snap }
    .requestHeaders)).1 x.allowed
  refine ⟨?_, x.chain, hrun.answers hanswers⟩
  rw [hanswers.st]
  exact resolve_resolved ..

theorem queued_turn {a b : StreamState W × RequestContext} (ha : x.Queued a)
    (h : RequestTurn x.server x.policy a b) : x.Queued b := by
  obtain ⟨now, w, m, r, hm, hhandle, -, rfl⟩ := h
  obtain ⟨phase, hphase, hanswers⟩ := handle_answers hhandle
  have hst := start_of_resolved x.server x.policy now a.2 m phase ha.resolved
  have hreceive : VaryState (some "Origin") ∅ (x.server.receive x.policy a.2 m) := by
    cases m with
    | requestBody body => exact ha.vary.of_view rfl
    | requestTrailers trailers =>
      exact ⟨ha.vary.consistent, ha.vary.vary, ha.vary.arrived⟩
    | _ => simp [Message.phase] at hm
  have hne : phase ≠ .responseHeaders := by
    rintro rfl
    simp [hphase] at hm
  have hrun : VaryState (some "Origin") ∅
      (run x.policy now (x.server.start x.policy now a.1 a.2 m phase).1 w
        (x.server.start x.policy now a.1 a.2 m phase).2 phase).ctx :=
    run_keeps_origin x.reflects hne (hst.symm ▸ ha.chain) (hreceive.start now a.1 phase)
  have hsame : r.st = a.1 := hanswers.st.trans hst
  exact ⟨hsame ▸ ha.resolved, hsame ▸ ha.chain, hrun.answers hanswers⟩

theorem queued_turns {p : StreamState W × RequestContext}
    (h : Relation.ReflTransGen (RequestTurn x.server x.policy) (x.first.st, x.first.ctx) p) :
    x.Queued p := by
  induction h with
  | refl => exact x.queued_first
  | tail _ hturn ih => exact x.queued_turn ih hturn

/-- What the chain leaves for the response. -/
def filtered : RunResult W :=
  run x.policy x.nowResponse x.begun.1 x.worldResponse x.begun.2 .responseHeaders

theorem last_eq : x.last.response
    = .responseHeaders (buildHeaderMutation x.filtered.ctx x.filtered.ctx.responseHeadersToAdd
        x.filtered.ctx.responseHeadersToRemove).2
      (buildModeOverride (buildHeaderMutation x.filtered.ctx
        x.filtered.ctx.responseHeadersToAdd x.filtered.ctx.responseHeadersToRemove).1) := by
  have hlast : x.last = handleResponseHeaders x.policy x.nowResponse x.later.1 x.worldResponse
      x.later.2 x.response := (Option.some.inj x.answered).symm
  have hopen := x.returned
  rw [hlast] at hopen ⊢
  unfold handleResponseHeaders at hopen ⊢
  dsimp only at hopen ⊢
  rw [finish_open hopen]
  unfold filtered begun Server.start guarded
  simp only [true_and]
  rfl

/-- The client gets the value that is pending at the end. -/
theorem client_vary {u : String} (h : VaryState (some u) x.upstream x.filtered.ctx) :
    x.client.getD "vary" "" = u := by
  have hlookup : x.client.lookup "vary" = some u := by
    unfold client
    rw [last_eq]
    refine Eq.trans (lookup_applyMutation h.consistent x.filtered.ctx x.upstream "vary") ?_
    show (x.filtered.ctx.downstreamShadow.lookup "vary").or _ = some u
    rw [h.vary]
    rfl
  unfold AMap.getD
  rw [hlookup]
  rfl

/-- At the end the merged value is pending, or still the queued one. -/
theorem filtered_vary :
    (x.StillAllowed →
        VaryState (some (mergeVary (x.upstream.getD "vary" "") "Origin")) x.upstream
          x.filtered.ctx)
      ∧ (¬ x.StillAllowed → VaryState (some "Origin") x.upstream x.filtered.ctx) := by
  have hlater := x.queued_turns x.turns
  have hst : x.begun.1 = x.later.1 := start_of_resolved _ _ _ _ _ _ hlater.resolved
  have hreceive : VaryState (some "Origin") x.upstream
      (x.server.receive x.policy x.later.2 (.responseHeaders x.response)) := by
    refine ⟨hlater.vary.consistent, hlater.vary.vary, ?_⟩
    show copyHeaders x.later.2.responseHeaders x.response.headers = _
    rw [hlater.vary.arrived]
    rfl
  have hbegun : VaryState (some "Origin") x.upstream x.begun.2 :=
    hreceive.start x.nowResponse x.later.1 .responseHeaders
  exact run_vary rfl (sets_response x.reflects) (hst.symm ▸ hlater.chain) hbegun

end Exchange

theorem vary_right_iff (x : Exchange W) :
    x.VaryRight ↔ x.StillAllowed ∨ ∀ t ∈ varyTokens (x.upstream.getD "vary" ""), t = "origin" := by
  obtain ⟨hmerged, hqueued⟩ := x.filtered_vary
  unfold Exchange.VaryRight
  by_cases hstill : x.StillAllowed
  · rw [x.client_vary (hmerged hstill)]
    exact ⟨fun _ => .inl hstill, fun _ => mergeVary_covers _⟩
  · rw [x.client_vary (hqueued hstill), covers_origin_iff]
    exact ⟨.inr, fun h => h.resolve_left hstill⟩

/-- A CORS filter for one origin. -/
def appCors : CorsFilter where
  cfg := { allowOrigins := ["https://app.example.com"] }
  anyOrigin := false
  origins := ["https://app.example.com"]
  originRegexps := []
  methods := "GET, HEAD, POST"
  anyMethod := false
  headers := ""
  anyHeader := false
  expose := ""
  maxAge := ""

example : CorsFilter.new (fun err => .error err) { allowOrigins := ["https://app.example.com/"] }
    = .ok { appCors with cfg := { allowOrigins := ["https://app.example.com/"] } } := rfl

/-- A filter that takes the origin off the request before the upstream gets it. -/
def stripOrigin : Engine.Filter Unit where
  supportedPhases := none
  execute w ctx := (w, ctx.removeHeaderUpstream "origin", none)

theorem stripOrigin_leavesVary : LeavesVary stripOrigin where
  edits _ _ := .call .refl (.removeHeaderUpstream "origin")
  phase _ _ := rfl
  vary _ _ := rfl

def strippingChain : Chain Unit := [{ filter := appCors.toFilter }, { filter := stripOrigin }]

def strippingPolicy : EnginePolicy Unit where
  config := { chains := ∅, redis := ∅ }
  chains := AList.singleton "main" strippingChain
  routeWith _ := ("main", none)

/-- A request from the allowed origin. -/
def appRequest : HttpHeaders where
  headers := some
    [{ key := ":method", rawValue := "GET" },
      { key := "origin", rawValue := "https://app.example.com" }]
  endOfStream := true

/-- A response that depends on the encodings the client accepts. -/
def encodedResponse : HttpHeaders where
  headers := some [{ key := "vary", rawValue := "Accept-Encoding" }]

def strippingServer : Server where
  netip := ⟨fun _ => none, fun _ => none⟩

def strippedFirst : Handled Unit :=
  handleRequestHeaders (some strippingPolicy) {} { snap := 0 } () {} strippingServer ∅ appRequest

def strippedLast : Handled Unit :=
  handleResponseHeaders (some strippingPolicy) {} strippedFirst.st () strippedFirst.ctx
    encodedResponse

theorem strippingChain_cors : CorsChain appCors [] [{ filter := stripOrigin }] strippingChain := by
  refine ⟨rfl, fun slot hslot => ?_⟩
  rw [List.nil_append, List.mem_singleton] at hslot
  rw [hslot]
  exact stripOrigin_leavesVary

/-- The origin is gone when the response comes. -/
def strippedExchange : Exchange Unit where
  server := strippingServer
  policy := some strippingPolicy
  cors := appCors
  reflects := rfl
  before := []
  after := [{ filter := stripOrigin }]
  snap := 0
  now := {}
  world := ()
  attributes := ∅
  request := appRequest
  first := strippedFirst
  handled := rfl
  forwarded := rfl
  chain := strippingChain_cors
  allowed := ⟨⟨rfl, fun h => absurd h (by show ¬ (0 : Int) < 0; decide)⟩,
    _, .refl, rfl, rfl, by show "https://app.example.com" ≠ ""; decide, rfl⟩
  later := (strippedFirst.st, strippedFirst.ctx)
  turns := .refl
  nowResponse := {}
  worldResponse := ()
  response := encodedResponse
  last := strippedLast
  answered := rfl
  returned := rfl

theorem vary_overwritten :
    strippedExchange.upstream.getD "vary" "" = "Accept-Encoding"
      ∧ strippedExchange.client.getD "vary" "" = "Origin" ∧ ¬ strippedExchange.VaryRight := by
  have hupstream : strippedExchange.upstream.getD "vary" "" = "Accept-Encoding" := rfl
  have hclient : strippedExchange.client.getD "vary" "" = "Origin" := rfl
  refine ⟨hupstream, hclient, ?_⟩
  unfold Exchange.VaryRight
  rw [hupstream, hclient, covers_origin_iff]
  intro hall
  exact absurd (hall "accept-encoding" (by decide)) (by decide)

end Hypergate.Grpc
