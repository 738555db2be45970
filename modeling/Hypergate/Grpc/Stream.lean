import Hypergate.Engine.RegistrySteps
import Hypergate.Grpc.HandlerSpec

/-!
# One stream, from opening to end (`Server.Process` in `internal/grpc/server.go`)

A stream acquires the current snapshot when it opens and then handles messages
of any kind in any order, while other threads acquire, release and swap
snapshots step by step and change the world its filters live in. The policy is
read through the snapshot's address at every message, as the source does.

`Session.history` records, message by message, what the decision was based on,
which chain was run, which of its filters were called, and the answer.

* `DecidesOnce` — what a history must look like: one decision, on the first
  message and on the acquired policy; only the picked chain runs; a rejected
  stream runs nothing; a blocked one runs nothing more and is answered with
  immediate responses.
* `Session.Inv` — the invariant that carries it from message to message.
-/

namespace Hypergate.Grpc

open Lib Engine Identity Policy

universe u v

/-- What the handling of one message did. -/
structure Obs (W : Type u) where
  message : Message
  before : RequestContext
  /-- What `resolve` decided on, if it made the decision here. -/
  decision : Option (Decision W)
  chain : Chain W
  ran : List Nat
  after : RequestContext
  response : Response

/-- The process around one stream. `acquired` is the policy that was current
when the stream opened, `stream` the state of the stream while it is open. -/
structure Session (W : Type u) (γ : Type v) where
  registry : RegState (Option (EnginePolicy W)) γ
  world : W
  acquired : Option (Option (EnginePolicy W)) := none
  stream : Option (StreamState W × RequestContext) := none
  history : List (Obs W) := []

/-- `start` opens the stream with its metadata. A message comes with what the
rest of the process contributes and with whether the answer could be sent.
`close` is the end of the stream, or a receive error. The `Release` that
`Process` deferred is one of the registry's later steps. -/
inductive SessionEvent (W : Type u) (γ : Type v) where
  | start (thread : Nat) (metadata : List String)
  | message (now : Moment) (m : Message) (sent : Bool)
  | close
  | registry (e : RegEvent (Option (EnginePolicy W)) γ)
  | world (w : W)

namespace Session

variable {W : Type u} {γ : Type v} (s : Server)

/-- `Process` up to its loop. -/
def start (σ : Session W γ) (thread : Nat) (metadata : List String) :
    Option (Session W γ) :=
  match σ.acquired with
  | some _ => none
  | none => (σ.registry.step (.acquire thread)).map fun registry =>
    { σ with
      registry
      acquired := some (σ.registry.reg.heap σ.registry.reg.current).policy
      stream := some ({ snap := σ.registry.reg.current },
        { traffic := trafficFromContext metadata }) }

/-- What is recorded about a message. -/
def observe (policy : Option (EnginePolicy W)) (now : Moment) (st : StreamState W)
    (ctx : RequestContext) (m : Message) (r : Handled W) : Obs W where
  message := m
  before := ctx
  decision := if st.resolved then none else
    some { policy, identity := now.identity, ctx := s.receive policy ctx m }
  chain := r.st.chain
  ran := r.ran
  after := r.ctx
  response := r.response

/-- The state after a handled message; a failed send ends the stream. -/
def handled (σ : Session W γ) (o : Obs W) (r : Handled W) (sent : Bool) : Session W γ :=
  { σ with
    world := r.world
    stream := if sent then some (r.st, r.ctx) else none
    history := σ.history ++ [o] }

/-- One round of the loop of `Process`. A request without a message ends the
stream with an error. -/
def message (σ : Session W γ) (now : Moment) (m : Message) (sent : Bool) :
    Option (Session W γ) :=
  σ.stream.map fun (st, ctx) =>
    let policy := (σ.registry.reg.heap st.snap).policy
    match handle policy now st σ.world ctx s m with
    | none => { σ with stream := none }
    | some r => σ.handled (observe s policy now st ctx m r) r sent

def step (σ : Session W γ) : SessionEvent W γ → Option (Session W γ)
  | .start thread metadata => σ.start thread metadata
  | .message now m sent => σ.message s now m sent
  | .close => σ.stream.map fun _ => { σ with stream := none }
  | .registry e => (σ.registry.step e).map fun registry => { σ with registry }
  | .world w => some { σ with world := w }

/-- Before the stream opens. -/
def initial (policy : Option (EnginePolicy W)) (world : W) : Session W γ :=
  { registry := .start policy, world }

end Session

/-- Every run of a stream among reloads and other streams. -/
def sessionSys (W : Type u) (γ : Type v) (s : Server) :
    TSys (Session W γ) (SessionEvent W γ) where
  init σ := ∃ policy world, σ = .initial policy world
  step := Session.step s

variable {W : Type u} {γ : Type v} {s : Server}

theorem sessionSys_start (s : Server) (policy : Option (EnginePolicy W)) (world : W) :
    (sessionSys W γ s).init (.initial policy world) := ⟨policy, world, rfl⟩

/-! ## The rule -/

/-- The message is answered with an immediate response, unless it is the
trailers of the response. -/
def Obs.EndsRequest (o : Obs W) : Prop :=
  o.message.phase ≠ some .responseTrailers → o.response.isImmediate = true

/-- What the messages of a stream that acquired the policy `acquired` look
like. -/
structure DecidesOnce (acquired : Option (EnginePolicy W)) (history : List (Obs W)) :
    Prop where
  /-- The first message decides, and no other. -/
  first : ∀ (i : Nat) (o : Obs W), history[i]? = some o → (o.decision.isSome = true ↔ i = 0)
  /-- The decision is made on the policy that was acquired. -/
  snapshot : ∀ o ∈ history, ∀ d, o.decision = some d → d.policy = acquired
  /-- Whatever runs is the chain picked from that policy. -/
  chain : ∀ o ∈ history, ∀ d, o.decision = some d → ∀ o' ∈ history, o'.ran ≠ [] →
    ∃ name, d.Picks name o'.chain
  /-- A rejected stream runs no filter. -/
  rejected : ∀ o ∈ history, ∀ d, o.decision = some d → d.Rejects → ∀ o' ∈ history, o'.ran = []
  /-- From a message that left the request blocked on, every answer ends the
  request, and no later message runs a filter. -/
  blocked : ∀ (i j : Nat) (o o' : Obs W), history[i]? = some o → history[j]? = some o' → i ≤ j →
    o.after.blocked = true → o'.EndsRequest ∧ (i < j → o'.ran = [])

theorem DecidesOnce.nil (acquired : Option (EnginePolicy W)) :
    DecidesOnce acquired [] where
  first _ _ h := absurd h (by simp)
  snapshot _ h := absurd h (by simp)
  chain _ h := absurd h (by simp)
  rejected _ h := absurd h (by simp)
  blocked _ _ _ _ h := absurd h (by simp)

theorem getElem?_concat_eq_some {α : Type u} {l : List α} {a x : α} {i : Nat}
    (h : (l ++ [a])[i]? = some x) : l[i]? = some x ∨ i = l.length ∧ x = a := by
  by_cases hi : i < l.length
  · rw [List.getElem?_append_left hi] at h
    exact .inl h
  · rw [List.getElem?_append_right (Nat.le_of_not_lt hi), List.getElem?_singleton] at h
    split at h
    · exact .inr ⟨by omega, (Option.some.inj h).symm⟩
    · cases h

/-- One more message keeps the rule, if it decides exactly when it is the first,
runs only what the decision picked, and comes after a block only as its rules
demand. -/
theorem DecidesOnce.concat {acquired : Option (EnginePolicy W)} {history : List (Obs W)}
    (h : DecidesOnce acquired history) {o : Obs W}
    (hfirst : o.decision.isSome = true ↔ history = [])
    (hsnapshot : ∀ d, o.decision = some d → d.policy = acquired)
    (hpicks : o.ran ≠ [] → ∀ o' ∈ history ++ [o], ∀ d, o'.decision = some d →
      ¬ d.Rejects ∧ ∃ name, d.Picks name o.chain)
    (hends : o.after.blocked = true → o.EndsRequest)
    (hlater : ∀ o' ∈ history, o'.after.blocked = true → o.after.blocked = true ∧ o.ran = []) :
    DecidesOnce acquired (history ++ [o]) where
  first i o' hi := by
    rcases getElem?_concat_eq_some hi with hi | ⟨rfl, rfl⟩
    · exact h.first i o' hi
    · rw [hfirst, List.length_eq_zero_iff]
  snapshot o' ho' d hd := by
    rcases List.mem_append.mp ho' with ho' | ho'
    · exact h.snapshot o' ho' d hd
    · cases List.mem_singleton.mp ho'
      exact hsnapshot d hd
  chain o₁ h₁ d hd o₂ h₂ hran := by
    rcases List.mem_append.mp h₂ with h₂ | h₂
    · rcases List.mem_append.mp h₁ with h₁ | h₁
      · exact h.chain o₁ h₁ d hd o₂ h₂ hran
      · -- a new message that decides is the only one
        cases List.mem_singleton.mp h₁
        rw [hfirst.mp (by rw [hd]; rfl)] at h₂
        cases h₂
    · cases List.mem_singleton.mp h₂
      exact (hpicks hran o₁ h₁ d hd).2
  rejected o₁ h₁ d hd hrej o₂ h₂ := by
    rcases List.mem_append.mp h₂ with h₂ | h₂
    · rcases List.mem_append.mp h₁ with h₁ | h₁
      · exact h.rejected o₁ h₁ d hd hrej o₂ h₂
      · cases List.mem_singleton.mp h₁
        rw [hfirst.mp (by rw [hd]; rfl)] at h₂
        cases h₂
    · cases List.mem_singleton.mp h₂
      by_contra hran
      exact (hpicks hran o₁ h₁ d hd).1 hrej
  blocked i j o₁ o₂ h₁ h₂ hij hb := by
    rcases getElem?_concat_eq_some h₂ with h₂ | ⟨rfl, rfl⟩
    · have hj : j < history.length := (List.getElem?_eq_some_iff.mp h₂).1
      rw [List.getElem?_append_left (by omega)] at h₁
      exact h.blocked i j o₁ o₂ h₁ h₂ hij hb
    · rcases getElem?_concat_eq_some h₁ with h₁ | ⟨rfl, rfl⟩
      · obtain ⟨hblocked, hran⟩ := hlater o₁ (List.mem_of_getElem? h₁) hb
        exact ⟨hends hblocked, fun _ => hran⟩
      · exact ⟨hends hb, fun hlt => absurd hlt (Nat.lt_irrefl _)⟩

/-- A stream that has handled a message has decided. -/
theorem DecidesOnce.exists_decision {acquired : Option (EnginePolicy W)} {history : List (Obs W)}
    (h : DecidesOnce acquired history) (hne : history ≠ []) :
    ∃ o ∈ history, ∃ d, o.decision = some d ∧ d.policy = acquired := by
  cases history with
  | nil => exact absurd rfl hne
  | cons o rest =>
    obtain ⟨d, hd⟩ := Option.isSome_iff_exists.mp ((h.first 0 o rfl).mpr rfl)
    exact ⟨o, List.mem_cons_self, d, hd, h.snapshot o List.mem_cons_self d hd⟩

/-! ## The invariant -/

/-- The open stream: it holds the snapshot it acquired, has decided if it has
handled a message, and remembers the picked chain and the block. -/
structure Session.Live (σ : Session W γ) (st : StreamState W)
    (ctx : RequestContext) : Prop where
  allocated : st.snap < σ.registry.reg.fresh
  snapshot : σ.acquired = some (σ.registry.reg.heap st.snap).policy
  resolved : st.resolved = true ↔ σ.history ≠ []
  unresolved : st.resolved = false → st.chain = []
  chain : ∀ o ∈ σ.history, ∀ d, o.decision = some d → st.chain ≠ [] →
    ¬ d.Rejects ∧ d.Picks st.name st.chain
  blocked : ∀ o ∈ σ.history, o.after.blocked = true → ctx.blocked = true

structure Session.Inv (σ : Session W γ) : Prop where
  current : σ.registry.reg.current < σ.registry.reg.fresh
  unopened : σ.acquired = none → σ.stream = none ∧ σ.history = []
  rule : ∀ policy, σ.acquired = some policy → DecidesOnce policy σ.history
  live : ∀ st ctx, σ.stream = some (st, ctx) → σ.Live st ctx

namespace Session

theorem Inv.initial (policy : Option (EnginePolicy W)) (world : W) :
    (Session.initial policy world : Session W γ).Inv where
  current := Nat.zero_lt_one
  unopened _ := ⟨rfl, rfl⟩
  rule _ h := absurd h (by simp [Session.initial])
  live _ _ h := absurd h (by simp [Session.initial])

theorem Live.registry {σ : Session W γ} {st : StreamState W} {ctx : RequestContext}
    (h : σ.Live st ctx) {registry : RegState (Option (EnginePolicy W)) γ}
    (hk : σ.registry.Keeps registry) : ({ σ with registry } : Session W γ).Live st ctx where
  allocated := Nat.lt_of_lt_of_le h.allocated hk.fresh
  snapshot := by
    rw [hk.policy _ h.allocated, h.snapshot]
  resolved := h.resolved
  unresolved := h.unresolved
  chain := h.chain
  blocked := h.blocked

theorem Inv.registry {σ : Session W γ} (h : σ.Inv)
    {registry : RegState (Option (EnginePolicy W)) γ} (hk : σ.registry.Keeps registry) :
    ({ σ with registry } : Session W γ).Inv where
  current := hk.current h.current
  unopened := h.unopened
  rule := h.rule
  live st ctx hst := (h.live st ctx hst).registry hk

variable {σ σ' : Session W γ}

/-- A stream is opened once, on the snapshot that is current. -/
theorem start_cases {thread : Nat} {metadata : List String}
    (hstep : σ.start thread metadata = some σ') :
    σ.acquired = none ∧ ∃ registry, σ.registry.step (.acquire thread) = some registry
      ∧ σ' = { σ with
        registry
        acquired := some (σ.registry.reg.heap σ.registry.reg.current).policy
        stream := some ({ snap := σ.registry.reg.current },
          { traffic := trafficFromContext metadata }) } := by
  unfold Session.start at hstep
  cases hacq : σ.acquired with
  | some policy =>
    rw [hacq] at hstep
    cases hstep
  | none =>
    rw [hacq] at hstep
    obtain ⟨registry, hreg, hσ'⟩ := Option.map_eq_some_iff.mp hstep
    exact ⟨rfl, registry, hreg, hσ'.symm⟩

theorem Inv.start (h : σ.Inv) {thread : Nat} {metadata : List String}
    (hstep : σ.start thread metadata = some σ') : σ'.Inv := by
  obtain ⟨hacq, registry, hreg, rfl⟩ := start_cases hstep
  have hk := RegState.step_keeps hreg
  have hnil : σ.history = [] := (h.unopened hacq).2
  refine ⟨hk.current h.current, fun hnone => absurd hnone (by simp), ?_, ?_⟩
  · intro policy _
    rw [hnil]
    exact .nil policy
  · intro st ctx hst
    cases hst
    refine ⟨Nat.lt_of_lt_of_le h.current hk.fresh, ?_, ?_, fun _ => rfl, ?_, ?_⟩
    · rw [hk.policy _ h.current]
    · simp [hnil]
    · intro o ho
      rw [show σ.history = [] from hnil] at ho
      cases ho
    · intro o ho
      rw [show σ.history = [] from hnil] at ho
      cases ho

section Message

variable {σ : Session W γ} {st : StreamState W} {ctx : RequestContext} {now : Moment}
  {m : Message} {r : Handled W} {policy : Option (EnginePolicy W)}

/-- The chain after a message is one that every recorded decision picked; there
is one such decision, made by this message or before it. -/
theorem Live.picks (h : σ.Live st ctx) (hr : handle policy now st σ.world ctx s m = some r)
    {o : Obs W} (ho : o ∈ σ.history ++ [observe s policy now st ctx m r]) {d : Decision W}
    (hd : o.decision = some d) (hchain : r.st.chain ≠ []) :
    ¬ d.Rejects ∧ d.Picks r.st.name r.st.chain := by
  obtain ⟨phase, _, hans⟩ := handle_answers hr
  rw [hans.st] at hchain ⊢
  cases hres : st.resolved with
  | true =>
    rw [resolve_of_resolved policy now.identity _ hres] at hchain ⊢
    rcases List.mem_append.mp ho with ho | ho
    · exact h.chain o ho d hd hchain
    · cases List.mem_singleton.mp ho
      exact absurd hd (by simp [observe, hres])
  | false =>
    have hnil : σ.history = [] := by
      by_contra hne
      rw [h.resolved.mpr hne] at hres
      cases hres
    rw [hnil] at ho
    cases List.mem_singleton.mp ho
    have hdec : d = { policy, identity := now.identity, ctx := s.receive policy ctx m } := by
      simpa [observe, hres] using hd.symm
    rcases resolve_cases policy now.identity _ hres hdec with ⟨_, href⟩ | ⟨hnot, hcho⟩
    · exact absurd (href.chain.trans (h.unresolved hres)) hchain
    · rcases hcho.chain with hsame | hpicks
      · exact absurd (hsame.trans (h.unresolved hres)) hchain
      · exact ⟨hnot, hpicks⟩

theorem Live.handled (h : σ.Live st ctx)
    (hr : handle policy now st σ.world ctx s m = some r) (sent : Bool) :
    (σ.handled (observe s policy now st ctx m r) r sent).Live r.st r.ctx := by
  obtain ⟨phase, _, hans⟩ := handle_answers hr
  have hsnap : r.st.snap = st.snap := by rw [hans.st, resolve_snap]
  have hres : r.st.resolved = true := by rw [hans.st, resolve_resolved]
  refine ⟨?_, ?_, ?_, ?_, fun o ho d hd => h.picks hr ho hd, ?_⟩
  · rw [hsnap]
    exact h.allocated
  · rw [hsnap]
    exact h.snapshot
  · rw [hres]
    simp [Session.handled]
  · intro hfalse
    rw [hres] at hfalse
    cases hfalse
  · intro o ho hb
    rcases List.mem_append.mp ho with ho | ho
    · exact (handle_of_blocked hr (h.blocked o ho hb)).1
    · cases List.mem_singleton.mp ho
      exact hb

theorem Live.decidesOnce (h : σ.Live st ctx)
    (hrule : DecidesOnce policy σ.history)
    (hr : handle policy now st σ.world ctx s m = some r) :
    DecidesOnce policy (σ.history ++ [observe s policy now st ctx m r]) := by
  refine hrule.concat ?_ ?_ ?_ ?_ ?_
  · cases hres : st.resolved with
    | true => simp [observe, hres, h.resolved.mp hres]
    | false =>
      have hnil : σ.history = [] := by
        by_contra hne
        rw [h.resolved.mpr hne] at hres
        cases hres
      simp [observe, hres, hnil]
  · intro d hd
    cases hres : st.resolved with
    | true => exact absurd hd (by simp [observe, hres])
    | false =>
      have hdec : { policy, identity := now.identity, ctx := s.receive policy ctx m } = d := by
        simpa [observe, hres] using hd
      rw [← hdec]
  · intro hran o ho d hd
    obtain ⟨hnot, hpicks⟩ := h.picks hr ho hd (handle_ran hr hran)
    exact ⟨hnot, _, hpicks⟩
  · intro hb hm
    exact (handle_immediate_iff hr).mpr ⟨hb, hm⟩
  · intro o ho hb
    exact handle_of_blocked hr (h.blocked o ho hb)

end Message

/-- A round of the loop: the stream ends on a request without a message, or the
message is handled. -/
theorem message_cases {now : Moment} {m : Message} {sent : Bool}
    (hstep : σ.message s now m sent = some σ') :
    ∃ st ctx, σ.stream = some (st, ctx) ∧ (σ' = { σ with stream := none } ∨
      ∃ r, handle (σ.registry.reg.heap st.snap).policy now st σ.world ctx s m = some r ∧
        σ' = σ.handled (observe s (σ.registry.reg.heap st.snap).policy now st ctx m r) r sent) := by
  unfold Session.message at hstep
  obtain ⟨⟨st, ctx⟩, hst, hσ'⟩ := Option.map_eq_some_iff.mp hstep
  refine ⟨st, ctx, hst, ?_⟩
  dsimp only at hσ'
  split at hσ'
  · exact .inl hσ'.symm
  · rename_i r hr
    exact .inr ⟨r, hr, hσ'.symm⟩

theorem Inv.close {σ : Session W γ} (h : σ.Inv) :
    ({ σ with stream := none } : Session W γ).Inv where
  current := h.current
  unopened hnone := ⟨rfl, (h.unopened hnone).2⟩
  rule := h.rule
  live _ _ hst := absurd hst (by simp)

theorem Inv.message (h : σ.Inv) {now : Moment} {m : Message} {sent : Bool}
    (hstep : σ.message s now m sent = some σ') : σ'.Inv := by
  obtain ⟨st, ctx, hst, rfl | ⟨r, hr, rfl⟩⟩ := message_cases hstep
  · exact h.close
  · have hlive := h.live st ctx hst
    have hacq := hlive.snapshot
    refine ⟨h.current, ?_, ?_, ?_⟩
    · intro hnone
      exact absurd (hacq.symm.trans hnone) (by simp)
    · intro policy hpolicy
      obtain rfl := Option.some.inj (hacq.symm.trans hpolicy)
      exact hlive.decidesOnce (h.rule _ hacq) hr
    · intro st' ctx' hst'
      cases sent with
      | false => cases hst'
      | true =>
        obtain ⟨rfl, rfl⟩ := Prod.mk.inj (Option.some.inj hst')
        exact hlive.handled hr true

theorem Inv.step (h : σ.Inv) {e : SessionEvent W γ} (hstep : σ.step s e = some σ') : σ'.Inv := by
  cases e with
  | start thread metadata => exact h.start hstep
  | message now m sent => exact h.message hstep
  | close =>
    obtain ⟨_, _, rfl⟩ := Option.map_eq_some_iff.mp hstep
    exact h.close
  | registry e =>
    obtain ⟨registry, hreg, rfl⟩ := Option.map_eq_some_iff.mp hstep
    exact h.registry (RegState.step_keeps hreg)
  | world w =>
    cases hstep
    exact ⟨h.current, h.unopened, h.rule, fun st ctx hst =>
      let hl := h.live st ctx hst
      ⟨hl.allocated, hl.snapshot, hl.resolved, hl.unresolved, hl.chain, hl.blocked⟩⟩

theorem inv_inductive (s : Server) : (sessionSys W γ s).Inductive (fun _ _ => True) Inv where
  init σ := by
    intro ⟨policy, world, hσ⟩
    rw [hσ]
    exact .initial policy world
  step _ _ _ h _ hstep := h.step hstep

end Session

/-- In every run, the messages of the stream follow the rule for the policy that
was current when it opened. -/
theorem stream_decides_once (s : Server) {σ : Session W γ}
    (hr : (sessionSys W γ s).Reachable σ) {policy : Option (EnginePolicy W)}
    (hacq : σ.acquired = some policy) : DecidesOnce policy σ.history :=
  ((Session.inv_inductive s).invariant hr).rule policy hacq

/-- A policy whose only chain, the one of every request, denies. -/
def denyingPolicy : EnginePolicy Unit where
  config := { chains := ∅, redis := ∅ }
  chains := AList.singleton "main"
    [{ filter :=
        { supportedPhases := none, execute := fun w ctx => (w, ctx.block 403 "Forbidden", none) } }]
  routeWith := fun _ => ("main", none)

/-- The stream is denied, a policy without chains is loaded, and Envoy still
sends the body. -/
def deniedThenReloaded : List (SessionEvent Unit Unit) :=
  [.start 0 [], .message {} (.requestHeaders ∅ {}) true,
    .registry (.swap 1 (some { denyingPolicy with chains := ∅ }) none),
    .message {} (.requestBody []) true]

def deniedStream : Option (Session Unit Unit) :=
  (sessionSys Unit Unit { netip := ⟨fun _ => none, fun _ => none⟩ }).run (fun _ _ => True)
    (.initial (some denyingPolicy) ()) deniedThenReloaded

theorem deniedStream_runs : deniedStream.isSome = true := rfl

theorem stream_decides_once_denied :
    (deniedStream.get deniedStream_runs).history.map (fun o => (o.ran, o.response.isImmediate)) =
        [([0], true), ([], true)] ∧
      DecidesOnce (some denyingPolicy) (deniedStream.get deniedStream_runs).history :=
  ⟨rfl, stream_decides_once { netip := ⟨fun _ => none, fun _ => none⟩ }
    (.of_run (sessionSys_start _ _ _) deniedThenReloaded deniedStream_runs) rfl⟩

end Hypergate.Grpc
