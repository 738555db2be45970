import Hypergate.Filters.FirewallInspect
import Hypergate.Grpc.Stream

/-!
# One inspection per request (`firewall.go`, `handlers.go`, `executor.go`)

Whether a request is inspected is spread over a filter that works in two phases,
two flags in the context (`RequestBodyRequired`, `RequestBodySeen`) and a check
in `handleResponseHeaders`. This module follows one stream whose chain has an
enforced firewall, through messages in any order, reloads and other streams, and
keeps the calls to the firewall's sidecar in the world (`Logged`).

* `executeFrom_firewall` — one run of the chain: either the request is blocked,
  or the firewall made its call in the phase it asks in and none in any other.
* `FirewallInv` — the invariant of a stream: an unblocked request has been
  inspected, or its body is required, not seen, and no call has been made.
-/

namespace Hypergate.Grpc

open Lib Engine Identity Policy Filters

universe u v

variable {V : Type u} {γ : Type v}

/-! ## The chain -/

/-- A chain position with any other filter, audited or not. -/
def OtherSlot (slot : ChainSlot (Logged V)) : Prop :=
  ∃ f, slot.filter = onEnv f ∧ KeepsRequest f

/-- The chain has the firewall, enforced, at exactly one position. -/
def FirewallChain (cfg : FirewallFilterConfig) (sc : Sidecar V) (chain : Chain (Logged V)) :
    Prop :=
  ∃ pre post, chain = pre ++ { filter := (cfg.firewall sc).toFilter } :: post
    ∧ (∀ slot ∈ pre, OtherSlot slot) ∧ ∀ slot ∈ post, OtherSlot slot

/-- One other filter: it blocks the request, or the loop goes on, and the record of
the calls is untouched. -/
theorem executeFrom_other (phase : Phase) {slot : ChainSlot (Logged V)} (ho : OtherSlot slot)
    (rest : Chain (Logged V)) (i : Nat) (w : Logged V) (ctx : RequestContext) :
    ∃ w' ctx', w'.calls = w.calls ∧ SameRequest ctx ctx' ∧
      ((executeFrom phase (slot :: rest) i w ctx).world = w'
          ∧ (executeFrom phase (slot :: rest) i w ctx).ctx = ctx' ∧ ctx'.blocked = true
        ∨ (executeFrom phase (slot :: rest) i w ctx).world
            = (executeFrom phase rest (i + 1) w' ctx').world
          ∧ (executeFrom phase (slot :: rest) i w ctx).ctx
            = (executeFrom phase rest (i + 1) w' ctx').ctx) := by
  obtain ⟨f, hf, hkeeps⟩ := ho
  by_cases hb : ctx.blocked = true
  · refine ⟨w, ctx, rfl, .refl ctx, .inl ?_⟩
    rw [executeFrom, if_pos hb]
    exact ⟨rfl, rfl, hb⟩
  by_cases hphase : (!slot.filter.runsIn phase) = true
  · refine ⟨w, ctx, rfl, .refl ctx, .inr ?_⟩
    rw [executeFrom, if_neg hb, if_pos hphase]
    exact ⟨rfl, rfl⟩
  by_cases haudited : slot.audited = true
  · refine ⟨(executeAudited w ctx slot.filter i).1, (executeAudited w ctx slot.filter i).2,
      ?_, ?_, .inr ?_⟩
    · rw [executeAudited_world, hf]
      rfl
    · rw [hf]
      exact executeAudited_sameRequest (onEnv_keepsRequest hkeeps) w ctx i
    · rw [executeFrom, if_neg hb, if_neg hphase, if_pos haudited]
      exact ⟨rfl, rfl⟩
  have hcalls : (slot.filter.execute w ctx).1.calls = w.calls := by rw [hf]; rfl
  have hsame : SameRequest ctx (slot.filter.execute w ctx).2.1 := by
    rw [hf]
    exact onEnv_keepsRequest hkeeps w ctx
  rw [executeFrom, if_neg hb, if_neg hphase, if_neg haudited]
  rcases hrun : slot.filter.execute w ctx with ⟨w', ctx', err⟩
  rw [hrun] at hcalls hsame
  cases err with
  | some err =>
    exact ⟨w', ctx'.failBy i, hcalls, hsame.trans ⟨rfl, rfl, rfl, rfl, id⟩, .inl ⟨rfl, rfl, rfl⟩⟩
  | none =>
    by_cases hb' : ctx'.blocked = true
    · refine ⟨w', { ctx' with blockedBy := i }, hcalls,
        hsame.trans ⟨rfl, rfl, rfl, rfl, id⟩, .inl ?_⟩
      dsimp only
      rw [if_pos hb']
      exact ⟨rfl, rfl, hb'⟩
    · refine ⟨w', ctx', hcalls, hsame, .inr ?_⟩
      dsimp only
      rw [if_neg hb']
      exact ⟨rfl, rfl⟩

theorem executeFrom_others (phase : Phase) {chain : Chain (Logged V)}
    (h : ∀ slot ∈ chain, OtherSlot slot) (i : Nat) (w : Logged V) (ctx : RequestContext) :
    (executeFrom phase chain i w ctx).world.calls = w.calls
      ∧ SameRequest ctx (executeFrom phase chain i w ctx).ctx := by
  induction chain generalizing i w ctx with
  | nil => exact ⟨rfl, .refl ctx⟩
  | cons slot rest ih =>
    obtain ⟨w', ctx', hcalls, hsame, ⟨hw, hctx, _⟩ | ⟨hw, hctx⟩⟩ :=
      executeFrom_other phase (h slot List.mem_cons_self) rest i w ctx
    · rw [hw, hctx]
      exact ⟨hcalls, hsame⟩
    · obtain ⟨hcalls', hsame'⟩ :=
        ih (fun x hx => h x (List.mem_cons_of_mem _ hx)) (i + 1) w' ctx'
      rw [hw, hctx]
      exact ⟨hcalls'.trans hcalls, hsame.trans hsame'⟩

/-- What running the chain in a phase leaves. -/
structure FirewallRun (cfg : FirewallFilterConfig) (w : Logged V) (ctx : RequestContext)
    (w' : Logged V) (ctx' : RequestContext) : Prop where
  same : SameRequest ctx ctx'
  asks : ctx.phase = cfg.phaseFor ctx.requestEndOfStream → ctx'.blocked = false →
    w'.calls = w.calls ++ [cfg.acceptedCall ctx]
  silent : ctx.phase ≠ cfg.phaseFor ctx.requestEndOfStream → w'.calls = w.calls
  requires : ctx.phase = .requestHeaders → ctx.phase ≠ cfg.phaseFor ctx.requestEndOfStream →
    ctx'.blocked = false → ctx'.requestBodyRequired = true

variable {cfg : FirewallFilterConfig}

theorem FirewallRun.of_blocked {w w' : Logged V} {ctx ctx' : RequestContext}
    (hcalls : w'.calls = w.calls) (hsame : SameRequest ctx ctx') (hb : ctx'.blocked = true) :
    FirewallRun cfg w ctx w' ctx' where
  same := hsame
  asks _ h := absurd (hb.symm.trans h) (by simp)
  silent _ := hcalls
  requires _ _ h := absurd (hb.symm.trans h) (by simp)

/-- Other filters before the run change nothing that it reads. -/
theorem FirewallRun.after {w w₁ w' : Logged V} {ctx ctx₁ ctx' : RequestContext}
    (hcalls : w₁.calls = w.calls) (hsame : SameRequest ctx ctx₁)
    (h : FirewallRun cfg w₁ ctx₁ w' ctx') : FirewallRun cfg w ctx w' ctx' := by
  have hcall : cfg.acceptedCall ctx₁ = cfg.acceptedCall ctx := by
    unfold FirewallFilterConfig.acceptedCall FirewallFilterConfig.sentBody
    rw [hsame.phase, hsame.body]
  have hasks := h.asks
  have hsilent := h.silent
  have hrequires := h.requires
  rw [hsame.phase, hsame.endOfStream, hcalls, hcall] at hasks
  rw [hsame.phase, hsame.endOfStream, hcalls] at hsilent
  rw [hsame.phase, hsame.endOfStream] at hrequires
  exact ⟨hsame.trans h.same, hasks, hsilent, hrequires⟩

theorem executeFrom_firewall_cons (cfg : FirewallFilterConfig) (sc : Sidecar V)
    {post : Chain (Logged V)} (hpost : ∀ slot ∈ post, OtherSlot slot) (i : Nat) (w : Logged V)
    (ctx : RequestContext) :
    FirewallRun cfg w ctx
      (executeFrom ctx.phase ({ filter := (cfg.firewall sc).toFilter } :: post) i w ctx).world
      (executeFrom ctx.phase ({ filter := (cfg.firewall sc).toFilter } :: post) i w ctx).ctx := by
  by_cases hb : ctx.blocked = true
  · rw [executeFrom, if_pos hb]
    exact .of_blocked rfl (.refl ctx) hb
  by_cases hruns : (cfg.firewall sc).toFilter.runsIn ctx.phase = true
  · have hexec := FirewallFilterConfig.execute_firewall cfg sc w ctx
    rw [executeFrom, if_neg hb, if_neg (by simp [hruns]), if_neg (by simp)]
    change FirewallFilterConfig.Executed cfg w ctx
      ((cfg.firewall sc).toFilter.execute w ctx) at hexec
    rcases hrun : (cfg.firewall sc).toFilter.execute w ctx with ⟨w', ctx', err⟩
    rw [hrun] at hexec
    obtain rfl : err = none := hexec.err
    have hsilent := hexec.silent (FirewallFilterConfig.phase_of_runsIn hruns)
    dsimp only
    by_cases hb' : ctx'.blocked = true
    · rw [if_pos hb']
      refine ⟨hexec.same.trans ⟨rfl, rfl, rfl, rfl, id⟩, fun _ h => ?_, hsilent, fun _ _ h => ?_⟩
      · exact absurd (Eq.trans (Eq.symm hb') h) (by simp)
      · exact absurd (Eq.trans (Eq.symm hb') h) (by simp)
    · rw [if_neg hb']
      obtain ⟨hcalls, hsame⟩ := executeFrom_others ctx.phase hpost (i + 1) w' ctx'
      refine ⟨hexec.same.trans hsame, fun h _ => ?_, fun h => hcalls.trans (hsilent h),
        fun h hne _ => hsame.bodyRequired (hexec.requires h hne)⟩
      rw [hcalls]
      exact (hexec.asks h).resolve_left hb'
  · -- the filter does not run in this phase, so it does not ask in it
    have hne : ctx.phase ≠ cfg.phaseFor ctx.requestEndOfStream := fun h =>
      hruns (FirewallFilterConfig.firewall_runsIn sc ctx.requestEndOfStream (.inr h))
    have hheaders : ctx.phase ≠ .requestHeaders := fun h =>
      hruns (FirewallFilterConfig.firewall_runsIn sc ctx.requestEndOfStream (.inl h))
    obtain ⟨hcalls, hsame⟩ := executeFrom_others ctx.phase hpost (i + 1) w ctx
    rw [executeFrom, if_neg hb, if_pos (by simp [hruns])]
    exact ⟨hsame, fun h => absurd h hne, fun _ => hcalls, fun h => absurd h hheaders⟩

theorem executeFrom_firewall {sc : Sidecar V} {chain : Chain (Logged V)}
    (h : FirewallChain cfg sc chain) (i : Nat) (w : Logged V) (ctx : RequestContext) :
    FirewallRun cfg w ctx (executeFrom ctx.phase chain i w ctx).world
      (executeFrom ctx.phase chain i w ctx).ctx := by
  obtain ⟨pre, post, rfl, hpre, hpost⟩ := h
  induction pre generalizing i w ctx with
  | nil => exact executeFrom_firewall_cons cfg sc hpost i w ctx
  | cons slot pre ih =>
    obtain ⟨w', ctx', hcalls, hsame, ⟨hw, hctx, hb⟩ | ⟨hw, hctx⟩⟩ :=
      executeFrom_other ctx.phase (hpre slot List.mem_cons_self)
        (pre ++ { filter := (cfg.firewall sc).toFilter } :: post) i w ctx
    · rw [List.cons_append, hw, hctx]
      exact .of_blocked hcalls hsame hb
    · rw [List.cons_append, hw, hctx, ← hsame.phase]
      exact .after hcalls hsame
        (ih (i + 1) w' ctx' fun x hx => hpre x (List.mem_cons_of_mem _ hx))

/-! ## One message -/

/-- The chain has no limits. -/
def Unlimited {W : Type u} (policy : Option (EnginePolicy W)) (name : String) : Prop :=
  (limitsOf policy name).maxConcurrency ≤ 0 ∧ (limitsOf policy name).timeoutDuration ≤ 0

theorem run_unlimited {W : Type u} {policy : Option (EnginePolicy W)} {st : StreamState W}
    (h : Unlimited policy st.name) (now : Moment) (w : W) {ctx : RequestContext}
    (hb : ctx.blocked = false) (hne : st.chain ≠ []) (phase : Phase) :
    (run policy now st w ctx phase).world = (execute w ctx st.chain phase).world
      ∧ (run policy now st w ctx phase).ctx = (execute w ctx st.chain phase).ctx := by
  have hskip : ¬ (ctx.blocked || st.chain.isEmpty) = true := by simp [hb, hne]
  have hfilters : runFilters (limitsOf policy st.name) now.deadlineExceeded st w ctx phase =
      ((execute w ctx st.chain phase).world, (execute w ctx st.chain phase).ctx,
        (execute w ctx st.chain phase).ran) := by
    unfold runFilters
    rw [if_neg (by simp [Int.not_lt.mpr h.2])]
  unfold run
  rw [if_neg hskip]
  rw [if_neg (Int.not_lt.mpr h.1), hfilters]
  exact ⟨rfl, rfl⟩

section Handle

variable {cfg : FirewallFilterConfig} {sc : Sidecar V} {s : Server}
  {policy : Option (EnginePolicy (Logged V))} {now : Moment} {st : StreamState (Logged V)}
  {w : Logged V} {ctx : RequestContext} {m : Message} {r : Handled (Logged V)}

theorem handle_world_of_blocked (h : handle policy now st w ctx s m = some r)
    (hb : ctx.blocked = true) : r.world = w := by
  obtain ⟨phase, _, hans⟩ := handle_answers h
  have hresolve : (resolve policy now.identity st (s.receive policy ctx m)).2.blocked = true :=
    resolve_blocked policy now.identity _ (by rw [receive_blocked, hb])
  rw [hans.world, run_of_blocked policy now _ w _ phase (guarded_blocked phase hresolve)]

/-- What a message on the firewall's chain leaves; `ctx₁` is the context with the
message in it. -/
structure FirewallHandled (cfg : FirewallFilterConfig) (w : Logged V) (phase : Phase)
    (ctx₁ : RequestContext) (r : Handled (Logged V)) : Prop where
  silent : phase ≠ cfg.phaseFor ctx₁.requestEndOfStream → r.world.calls = w.calls
  run : r.ctx.blocked = false → FirewallRun cfg w { ctx₁ with phase } r.world r.ctx
  bodySeen : r.ctx.blocked = false → phase = .responseHeaders → bodyMissed ctx₁ = false

theorem handle_firewall (h : handle policy now st w ctx s m = some r) {phase : Phase}
    (hphase : m.phase = some phase) (hchain : FirewallChain cfg sc r.st.chain)
    (hlimits : Unlimited policy r.st.name) :
    FirewallHandled cfg w phase (resolve policy now.identity st (s.receive policy ctx m)).2 r := by
  obtain ⟨phase', hphase', hans⟩ := handle_answers h
  obtain rfl : phase' = phase := Option.some.inj (hphase'.symm.trans hphase)
  obtain ⟨opts, hctx⟩ := hans.ctx
  rw [hans.st] at hchain hlimits
  generalize (resolve policy now.identity st (s.receive policy ctx m)).1 = st' at *
  generalize (resolve policy now.identity st (s.receive policy ctx m)).2 = ctx₁ at *
  cases hb : (guarded phase' ctx₁).blocked with
  | true =>
    -- nothing runs, and the request is blocked afterwards
    have hrun := run_of_blocked policy now st' w _ phase' hb
    have hblocked : r.ctx.blocked = true := by
      rw [hctx, hrun]
      exact hb
    refine ⟨fun _ => by rw [hans.world, hrun], fun h => ?_, fun h => ?_⟩
    · exact absurd (hblocked.symm.trans h) (by simp)
    · exact absurd (hblocked.symm.trans h) (by simp)
  | false =>
    have hmissed : ¬ (phase' = .responseHeaders ∧ bodyMissed ctx₁ = true) := by
      intro hmiss
      unfold guarded at hb
      rw [if_pos hmiss] at hb
      cases hb
    have hsame : guarded phase' ctx₁ = ctx₁ := by
      unfold guarded
      rw [if_neg hmissed]
    rw [hsame] at hb
    have hne : st'.chain ≠ [] := by
      obtain ⟨pre, post, heq, _⟩ := hchain
      rw [heq]
      simp
    obtain ⟨hworld, hrun⟩ := run_unlimited hlimits now w hb hne phase'
    have hexec := executeFrom_firewall hchain 0 w { ctx₁ with phase := phase' }
    refine ⟨?_, fun _ => ?_, fun _ heq => ?_⟩
    · rw [hans.world, hsame, hworld]
      exact hexec.silent
    · rw [hctx, hans.world, hsame, hworld, hrun]
      exact ⟨hexec.same.trans ⟨rfl, rfl, rfl, rfl, id⟩, hexec.asks, hexec.silent,
        hexec.requires⟩
    · cases hb : bodyMissed ctx₁ with
      | false => rfl
      | true => exact absurd ⟨heq, hb⟩ hmissed

end Handle

/-! ## The order of the messages -/

/-- The messages begin with the request headers, and at most one message brings
request headers and at most one the request body. -/
structure Orderly (ms : List Message) : Prop where
  first : ∀ m ∈ ms.head?, m.phase = some .requestHeaders
  headers : ms.countP (fun m => m.phase = some .requestHeaders) ≤ 1
  body : ms.countP (fun m => m.phase = some .requestBody) ≤ 1

/-- The request ended with its headers. -/
def endOfStream : List Message → Bool
  | .requestHeaders _ msg :: _ => msg.endOfStream
  | _ => false

variable {ms : List Message}

theorem endOfStream_append (h : ms ≠ []) (m : Message) :
    endOfStream (ms ++ [m]) = endOfStream ms := by
  cases ms with
  | nil => exact absurd rfl h
  | cons a ms => cases a <;> rfl

/-- After the first message no request headers arrive. -/
theorem Orderly.not_headers {m : Message} (h : Orderly (ms ++ [m])) (hne : ms ≠ []) :
    m.phase ≠ some .requestHeaders := by
  intro hm
  obtain ⟨a, ms, rfl⟩ := List.exists_cons_of_ne_nil hne
  have hcount := h.headers
  rw [List.countP_append, List.countP_cons, List.countP_singleton,
    if_pos (by simpa using h.first a rfl), if_pos (by simpa using hm)] at hcount
  omega

theorem Orderly.not_body {m : Message} (h : Orderly (ms ++ [m])) {bytes : List UInt8}
    (hbody : .requestBody bytes ∈ ms) : m.phase ≠ some .requestBody := by
  intro hm
  have hcount := h.body
  have hpos : 0 < ms.countP (fun m => m.phase = some .requestBody) :=
    List.countP_pos_iff.mpr ⟨_, hbody, by simp [Message.phase]⟩
  rw [List.countP_append, List.countP_singleton, if_pos (by simp [hm])] at hcount
  omega

/-! ## Whole streams -/

/-- The request is routed to a chain with the firewall and without limits. -/
def Decision.Firewalled (cfg : FirewallFilterConfig) (sc : Sidecar V)
    (d : Decision (Logged V)) : Prop :=
  ∃ p chain, d.policy = some p ∧ d.name p ≠ "" ∧ p.chains.lookup (d.name p) = some chain
    ∧ FirewallChain cfg sc chain ∧ Unlimited d.policy (d.name p)

/-- The messages handled so far. -/
def messages {W : Type u} (history : List (Obs W)) : List Message := history.map (·.message)

/-- The engine let the response headers through. -/
def Obs.PassesResponse {W : Type u} (o : Obs W) : Prop :=
  o.message.phase = some .responseHeaders ∧ o.response.isImmediate = false

/-- The calls made for a request: exactly one, in the phase it was due in, with
the beginning of the body if it was due with the body, and accepted. -/
def Inspected (cfg : FirewallFilterConfig) (ms : List Message) (calls : List SidecarCall) : Prop :=
  ∃ call, calls = [call] ∧ call.phase = cfg.phaseFor (endOfStream ms) ∧ call.verdict = .accepted
    ∧ (call.phase = .requestBody → ∃ bytes, .requestBody bytes ∈ ms
      ∧ call.body.getD [] = bytes.take (cfg.maxBodySizeKB * 1024))

theorem Inspected.append {calls : List SidecarCall} (h : Inspected cfg ms calls) (hne : ms ≠ [])
    (m : Message) :
    Inspected cfg (ms ++ [m]) calls := by
  obtain ⟨call, hcalls, hphase, hverdict, hbody⟩ := h
  refine ⟨call, hcalls, ?_, hverdict, fun hp => ?_⟩
  · rw [endOfStream_append hne, hphase]
  · obtain ⟨bytes, hmem, htake⟩ := hbody hp
    exact ⟨bytes, List.mem_append_left _ hmem, htake⟩

theorem Inspected.body_mem {calls : List SidecarCall} (h : Inspected cfg ms calls)
    (hphase : cfg.phaseFor (endOfStream ms) = .requestBody) :
    ∃ bytes, .requestBody bytes ∈ ms := by
  obtain ⟨call, _, hcall, _, hbody⟩ := h
  obtain ⟨bytes, hmem, _⟩ := hbody (hcall.trans hphase)
  exact ⟨bytes, hmem⟩

namespace Session

variable {cfg : FirewallFilterConfig} {sc : Sidecar V}

/-- An open stream whose request is not blocked: it has been inspected, or waits
for a body that is required and not seen. -/
structure Watched (cfg : FirewallFilterConfig) (sc : Sidecar V) (σ : Session (Logged V) γ)
    (st : StreamState (Logged V)) (ctx : RequestContext) : Prop where
  chain : FirewallChain cfg sc st.chain
  unlimited : ∀ policy, σ.acquired = some policy → Unlimited policy st.name
  endOfStream : ctx.requestEndOfStream = Grpc.endOfStream (messages σ.history)
  progress : Inspected cfg (messages σ.history) σ.world.calls
    ∨ cfg.phaseFor ctx.requestEndOfStream = .requestBody ∧ ctx.requestBodySeen = false
      ∧ ctx.requestBodyRequired = true ∧ σ.world.calls = []

structure FirewallInv (cfg : FirewallFilterConfig) (sc : Sidecar V) (σ : Session (Logged V) γ) :
    Prop where
  start : σ.history = [] → σ.world.calls = []
  fresh : σ.history = [] → ∀ st ctx, σ.stream = some (st, ctx) → ctx.requestBodySeen = false
  watched : σ.history ≠ [] → ∀ st ctx, σ.stream = some (st, ctx) → ctx.blocked = false →
    σ.Watched cfg sc st ctx
  passed : (∃ o ∈ σ.history, o.PassesResponse) → Inspected cfg (messages σ.history) σ.world.calls

section Message

variable {s : Server} {σ : Session (Logged V) γ} {st : StreamState (Logged V)}
  {ctx : RequestContext} {now : Moment} {m : Message} {r : Handled (Logged V)}
  {policy : Option (EnginePolicy (Logged V))}

/-- The decision of the first message: the request is blocked, or it is on the
firewall's chain. -/
theorem first_message (hres : st.resolved = false)
    (hr : handle policy now st σ.world ctx s m = some r)
    (hd : Decision.Firewalled cfg sc
      { policy, identity := now.identity, ctx := s.receive policy ctx m })
    (hopen : r.ctx.blocked = false) :
    FirewallChain cfg sc r.st.chain ∧ Unlimited policy r.st.name
      ∧ OnlyRouting (s.receive policy ctx m)
        (resolve policy now.identity st (s.receive policy ctx m)).2 := by
  obtain ⟨p, chain, hp, hname, hlookup, hchain, hlimits⟩ := hd
  obtain rfl : policy = some p := hp
  obtain ⟨phase, _, hans⟩ := handle_answers hr
  obtain ⟨opts, hctx⟩ := hans.ctx
  have hresolve := resolve_some now.identity (s.receive (some p) ctx m) hres p _ rfl
  by_cases hu : unknownCaller now.identity p.config (Decision.identified
      { policy := some p, identity := now.identity, ctx := s.receive (some p) ctx m }) = true
  · -- an unknown caller is rejected
    rw [if_pos hu] at hresolve
    have hb : (resolve (some p) now.identity st (s.receive (some p) ctx m)).2.blocked = true := by
      rw [hresolve]
      rfl
    rw [hctx, run_of_blocked (some p) now _ σ.world _ phase (guarded_blocked phase hb)] at hopen
    exact absurd (Eq.trans (Eq.symm (guarded_blocked phase hb)) hopen) (by simp)
  · rw [if_neg hu, if_neg hname, hlookup] at hresolve
    rw [hans.st, hresolve]
    exact ⟨hchain, hlimits, .identified _ _⟩

theorem messages_handled (sent : Bool) :
    messages (σ.handled (observe s policy now st ctx m r) r sent).history
      = messages σ.history ++ [m] := by
  simp [messages, Session.handled, observe]

theorem messages_ne_nil (h : σ.history ≠ []) : messages σ.history ≠ [] := by
  simpa [messages] using h

/-- The request headers: the sidecar was asked, or the body is required. -/
theorem Watched.first (h : σ.FirewallInv cfg sc) (hnil : σ.history = [])
    (hst : σ.stream = some (st, ctx)) (hacq : σ.acquired = some policy)
    (hres : st.resolved = false) (hr : handle policy now st σ.world ctx s m = some r)
    (hm : m.phase = some .requestHeaders)
    (hd : Decision.Firewalled cfg sc
      { policy, identity := now.identity, ctx := s.receive policy ctx m })
    (sent : Bool) (hopen : r.ctx.blocked = false) :
    (σ.handled (observe s policy now st ctx m r) r sent).Watched cfg sc r.st r.ctx := by
  obtain ⟨hchain, hlimits, hroute⟩ := first_message hres hr hd hopen
  have hrun := (handle_firewall hr hm hchain hlimits).run hopen
  have hseen := h.fresh hnil st ctx hst
  have hcalls := h.start hnil
  generalize (resolve policy now.identity st (s.receive policy ctx m)).2 = ctx₁ at hroute hrun
  have hmessages : messages (σ.handled (observe s policy now st ctx m r) r sent).history = [m] := by
    rw [messages_handled, hnil]
    rfl
  have hread : ctx₁.requestEndOfStream = Grpc.endOfStream [m] ∧ ctx₁.requestBodySeen = false := by
    obtain ⟨_, _, _, _, rfl⟩ := hroute
    cases m with
    | requestHeaders attributes msg => exact ⟨rfl, hseen⟩
    | _ => cases hm
  have hend : r.ctx.requestEndOfStream = Grpc.endOfStream [m] := hrun.same.endOfStream.trans hread.1
  refine ⟨hchain, fun policy' hp => ?_, ?_, ?_⟩
  · obtain rfl := Option.some.inj (hacq.symm.trans hp)
    exact hlimits
  · rw [hmessages]
    exact hend
  · rw [hmessages]
    rcases FirewallFilterConfig.phaseFor_cases cfg ctx₁.requestEndOfStream with hphase | ⟨hphase, _⟩
    · refine .inl ⟨cfg.acceptedCall { ctx₁ with phase := .requestHeaders }, ?_, ?_, rfl, ?_⟩
      · have hasked := hrun.asks hphase.symm hopen
        rw [hcalls] at hasked
        exact hasked
      · rw [← hread.1, hphase]
        rfl
      · intro h
        cases h
    · have hne : Phase.requestHeaders ≠ cfg.phaseFor ctx₁.requestEndOfStream := by
        rw [hphase]
        simp
      refine .inr ⟨?_, ?_, hrun.requires rfl hne hopen, ?_⟩
      · rw [hrun.same.endOfStream]
        exact hphase
      · rw [hrun.same.bodySeen]
        exact hread.2
      · exact (hrun.silent hne).trans hcalls

/-- Only the request body marks it as seen, and only the request headers say
whether there is one. -/
theorem receive_bodySeen (hbody : m.phase ≠ some .requestBody) :
    (s.receive policy ctx m).requestBodySeen = ctx.requestBodySeen := by
  cases m with
  | requestBody body => exact absurd rfl hbody
  | _ => rfl

theorem receive_endOfStream (hheaders : m.phase ≠ some .requestHeaders) :
    (s.receive policy ctx m).requestEndOfStream = ctx.requestEndOfStream := by
  cases m with
  | requestHeaders attributes msg => exact absurd rfl hheaders
  | _ => rfl

/-- A later message on a stream that is not blocked. -/
theorem Watched.handle (hw : σ.Watched cfg sc st ctx) (hacq : σ.acquired = some policy)
    (hres : st.resolved = true) (hr : handle policy now st σ.world ctx s m = some r)
    {phase : Phase} (hphase : m.phase = some phase) :
    r.st = st ∧ FirewallHandled cfg σ.world phase (s.receive policy ctx m) r := by
  obtain ⟨_, _, hans⟩ := handle_answers hr
  have hst : r.st = st := by rw [hans.st, resolve_of_resolved policy now.identity _ hres]
  have hf := handle_firewall hr hphase (by rw [hst]; exact hw.chain)
    (by rw [hst]; exact hw.unlimited policy hacq)
  rw [resolve_of_resolved policy now.identity _ hres] at hf
  exact ⟨hst, hf⟩

/-- Once the request has been inspected, no more calls are made. -/
theorem Watched.calls (hw : σ.Watched cfg sc st ctx) (hacq : σ.acquired = some policy)
    (hres : st.resolved = true) (hr : Grpc.handle policy now st σ.world ctx s m = some r)
    (hne : messages σ.history ≠ []) (ho : Orderly (messages σ.history ++ [m]))
    (hi : Inspected cfg (messages σ.history) σ.world.calls) :
    r.world.calls = σ.world.calls := by
  obtain ⟨phase, hphase, _⟩ := handle_answers hr
  obtain ⟨_, hf⟩ := hw.handle hacq hres hr hphase
  have hheaders := ho.not_headers hne
  refine hf.silent fun heq => ?_
  rw [receive_endOfStream hheaders, hw.endOfStream] at heq
  rcases FirewallFilterConfig.phaseFor_cases cfg (Grpc.endOfStream (messages σ.history)) with
    hp | ⟨hp, _⟩
  · exact hheaders (by rw [hphase, heq, hp])
  · obtain ⟨bytes, hbytes⟩ := hi.body_mem hp
    exact ho.not_body hbytes (by rw [hphase, heq, hp])

/-- A later message keeps the stream watched, unless it blocks the request. -/
theorem Watched.next (hw : σ.Watched cfg sc st ctx) (hne : messages σ.history ≠ [])
    (hacq : σ.acquired = some policy) (hres : st.resolved = true)
    (hr : Grpc.handle policy now st σ.world ctx s m = some r)
    (ho : Orderly (messages σ.history ++ [m])) (sent : Bool) (hopen : r.ctx.blocked = false) :
    (σ.handled (observe s policy now st ctx m r) r sent).Watched cfg sc r.st r.ctx := by
  obtain ⟨phase, hphase, _⟩ := handle_answers hr
  obtain ⟨hst, hf⟩ := hw.handle hacq hres hr hphase
  have hrun := hf.run hopen
  have hheaders := ho.not_headers hne
  have hend : r.ctx.requestEndOfStream = ctx.requestEndOfStream :=
    hrun.same.endOfStream.trans (receive_endOfStream hheaders)
  refine ⟨hst ▸ hw.chain, hst ▸ hw.unlimited, ?_, ?_⟩
  · rw [messages_handled, endOfStream_append hne, hend, hw.endOfStream]
  rw [messages_handled]
  rcases hw.progress with hi | ⟨hwait, hseen, hrequired, hcalls⟩
  · left
    show Inspected cfg _ r.world.calls
    rw [hw.calls hacq hres hr hne ho hi]
    exact hi.append hne m
  by_cases hbody : m.phase = some .requestBody
  · -- the body arrives, and the sidecar is asked about it
    cases m with
    | requestBody bytes =>
      cases hphase
      have hasked := hrun.asks hwait.symm hopen
      rw [hcalls] at hasked
      refine .inl ⟨_, hasked, ?_, rfl, fun _ => ⟨bytes, by simp, ?_⟩⟩
      · rw [endOfStream_append hne, ← hw.endOfStream, hwait]
        rfl
      · rcases FirewallFilterConfig.phaseFor_cases cfg ctx.requestEndOfStream with
          hp | ⟨_, hinspect⟩
        · exact absurd (hp.symm.trans hwait) (by simp)
        · exact FirewallFilterConfig.sentBody_getD hinspect _
    | _ => cases hbody
  · refine .inr ⟨by rw [hend, hwait], ?_, ?_, ?_⟩
    · exact hrun.same.bodySeen.trans ((receive_bodySeen hbody).trans hseen)
    · exact hrun.same.bodyRequired (by
        show (s.receive policy ctx m).requestBodyRequired = true
        rw [receive_requestBodyRequired, hrequired])
    · refine (hf.silent ?_).trans hcalls
      rw [receive_endOfStream hheaders, hwait]
      intro heq
      exact hbody (by rw [hphase, heq])

/-- Response headers that are let through: the request has been inspected. -/
theorem Watched.passes (hw : σ.Watched cfg sc st ctx) (hacq : σ.acquired = some policy)
    (hres : st.resolved = true) (hr : Grpc.handle policy now st σ.world ctx s m = some r)
    (hm : m.phase = some .responseHeaders) (hopen : r.ctx.blocked = false)
    (hb : ctx.blocked = false) : Inspected cfg (messages σ.history) σ.world.calls := by
  obtain ⟨_, hf⟩ := hw.handle hacq hres hr hm
  have hmissed := hf.bodySeen hopen rfl
  rcases hw.progress with hi | ⟨hwait, hseen, hrequired, _⟩
  · exact hi
  · -- a request that waits for its body misses it here
    cases m with
    | responseHeaders msg =>
      have hend : ctx.requestEndOfStream = false := by
        unfold FirewallFilterConfig.phaseFor at hwait
        cases hend : ctx.requestEndOfStream with
        | false => rfl
        | true => simp [hend] at hwait
      have hmiss : bodyMissed ctx = true := by
        unfold bodyMissed
        rw [hb, hrequired, hseen, hend]
        rfl
      exact absurd (hmiss.symm.trans hmissed) (by simp)
    | _ => cases hm

theorem FirewallInv.handled (h : σ.FirewallInv cfg sc) (hlive : σ.Live st ctx)
    (hst : σ.stream = some (st, ctx)) (hacq : σ.acquired = some policy)
    (hr : Grpc.handle policy now st σ.world ctx s m = some r)
    (hd : ∀ d, (observe s policy now st ctx m r).decision = some d → d.Firewalled cfg sc)
    (ho : Orderly (messages σ.history ++ [m])) (sent : Bool) :
    (σ.handled (observe s policy now st ctx m r) r sent).FirewallInv cfg sc := by
  have hstream : ∀ st' ctx', (σ.handled (observe s policy now st ctx m r) r sent).stream =
      some (st', ctx') → st' = r.st ∧ ctx' = r.ctx := by
    intro st' ctx' hst'
    cases sent with
    | false => cases hst'
    | true =>
      obtain ⟨h₁, h₂⟩ := Prod.mk.inj (Option.some.inj hst')
      exact ⟨h₁.symm, h₂.symm⟩
  have hnonempty : (σ.handled (observe s policy now st ctx m r) r sent).history ≠ [] := by
    simp [Session.handled]
  -- an answer that is not immediate belongs to an unblocked request
  have hpassed : (observe s policy now st ctx m r).PassesResponse →
      m.phase = some .responseHeaders ∧ r.ctx.blocked = false := by
    intro hpass
    obtain ⟨hm, himm⟩ := hpass
    refine ⟨hm, ?_⟩
    cases hb : r.ctx.blocked with
    | false => rfl
    | true =>
      have himm' : r.response.isImmediate = true :=
        (handle_immediate_iff hr).mpr ⟨hb, fun heq => absurd (hm.symm.trans heq) (by simp)⟩
      exact absurd (himm'.symm.trans himm) (by simp)
  by_cases hnil : σ.history = []
  · have hres : st.resolved = false := by
      cases hres : st.resolved with
      | false => rfl
      | true => exact absurd hnil (hlive.resolved.mp hres)
    have hm : m.phase = some .requestHeaders := ho.first m (by simp [messages, hnil])
    have hfirewalled := hd { policy, identity := now.identity, ctx := s.receive policy ctx m }
      (by simp [observe, hres])
    refine ⟨fun heq => absurd heq hnonempty, fun heq => absurd heq hnonempty, ?_, ?_⟩
    · intro _ st' ctx' hst' hopen
      obtain ⟨rfl, rfl⟩ := hstream st' ctx' hst'
      exact .first h hnil hst hacq hres hr hm hfirewalled sent hopen
    · intro hpasses
      obtain ⟨o, hmem, hpass⟩ := hpasses
      have hlast : o = observe s policy now st ctx m r := by
        simpa [Session.handled, hnil] using hmem
      rw [hlast] at hpass
      exact absurd (hm.symm.trans (hpassed hpass).1) (by simp)
  · have hne : messages σ.history ≠ [] := messages_ne_nil hnil
    have hres : st.resolved = true := hlive.resolved.mpr hnil
    have hold : ctx.blocked = false → σ.Watched cfg sc st ctx := h.watched hnil st ctx hst
    have hcalls : Inspected cfg (messages σ.history) σ.world.calls →
        r.world.calls = σ.world.calls := by
      intro hi
      cases hb : ctx.blocked with
      | true => rw [handle_world_of_blocked hr hb]
      | false => exact (hold hb).calls hacq hres hr hne ho hi
    have hopen_before : r.ctx.blocked = false → ctx.blocked = false := by
      intro hopen
      cases hb : ctx.blocked with
      | false => rfl
      | true => exact absurd ((handle_of_blocked hr hb).1.symm.trans hopen) (by simp)
    refine ⟨fun heq => absurd heq hnonempty, fun heq => absurd heq hnonempty, ?_, ?_⟩
    · intro _ st' ctx' hst' hopen
      obtain ⟨rfl, rfl⟩ := hstream st' ctx' hst'
      exact (hold (hopen_before hopen)).next hne hacq hres hr ho sent hopen
    · intro hpasses
      obtain ⟨o, hmem, hpass⟩ := hpasses
      have hi : Inspected cfg (messages σ.history) σ.world.calls := by
        rcases List.mem_append.mp hmem with hmem | hmem
        · exact h.passed ⟨o, hmem, hpass⟩
        · rw [List.mem_singleton.mp hmem] at hpass
          obtain ⟨hm, hopen⟩ := hpassed hpass
          have hb := hopen_before hopen
          exact (hold hb).passes hacq hres hr hm hopen hb
      rw [messages_handled]
      show Inspected cfg _ r.world.calls
      rw [hcalls hi]
      exact hi.append hne m

end Message

/-- The request of the stream is routed to the firewall's chain. -/
def Firewalled (cfg : FirewallFilterConfig) (sc : Sidecar V) (σ : Session (Logged V) γ) : Prop :=
  ∀ o ∈ σ.history, ∀ d, o.decision = some d → d.Firewalled cfg sc

end Session

end Hypergate.Grpc
