import Hypergate.Filters.Firewall
import Hypergate.Grpc.Stream

/-!
# A chain of audited filters only (`audit.go`, `handlers.go`)

An audited denial is not enforced, so a stream whose chain has only audited
filters should never be denied. The executor keeps its side: `run_onlyAnswers`.
The handlers do not: a firewall that inspects bodies asks for the request body
even when it is audited, and `handleResponseHeaders` denies the response if the
body never came.
-/

namespace Hypergate.Grpc

open Lib Engine Identity Policy

universe u v

variable {W : Type u} {γ : Type v}

/-- The request is ended by answers only: `Answer` sets both flags, and nothing
else sets the second. -/
def OnlyAnswers (ctx : RequestContext) : Prop := ctx.answered = ctx.blocked

/-- Some filters answer (with `Answer`), others deny; none marks a request as
answered without ending it. -/
def Honest (f : Engine.Filter W) : Prop :=
  ∀ w ctx, (ctx.answered = true → ctx.blocked = true) →
    (f.execute w ctx).2.1.answered = true → (f.execute w ctx).2.1.blocked = true

/-- Every filter of the chain is audited and honest. -/
def AuditedChain (chain : Chain W) : Prop :=
  ∀ slot ∈ chain, slot.audited = true ∧ Honest slot.filter

/-! ## The executor -/

variable {ctx : RequestContext}

/-- An audited filter leaves the request open, or answered. -/
theorem executeAudited_onlyAnswers {f : Engine.Filter W} (hf : Honest f) (w : W)
    (hctx : OnlyAnswers ctx) (i : Nat) :
    OnlyAnswers (executeAudited w ctx f i).2 := by
  have hhonest := hf w ctx fun ha => hctx.symm.trans ha
  unfold executeAudited
  rcases hrun : f.execute w ctx with ⟨w', ctx', err⟩
  rw [hrun] at hhonest
  cases err with
  | some err => rfl
  | none =>
    dsimp only at hhonest ⊢
    by_cases hdenied : (ctx'.blocked && !ctx'.answered) = true
    · rw [if_pos hdenied]
      rfl
    rw [if_neg hdenied]
    by_cases hanswered : (ctx'.blocked && ctx'.answered) = true
    · rw [if_pos hanswered]
      show ctx'.answered = ctx'.blocked
      rw [Bool.and_eq_true] at hanswered
      rw [hanswered.1, hanswered.2]
    · rw [if_neg hanswered]
      show ctx'.answered = ctx'.blocked
      cases ha : ctx'.answered with
      | true => exact (hhonest ha).symm
      | false => simpa [ha] using hdenied

/-- The loop over an audited chain: no error, and the request is open or
answered. -/
theorem executeFrom_audited (phase : Phase) {chain : Chain W} (hchain : AuditedChain chain)
    (i : Nat) (w : W) (hctx : OnlyAnswers ctx) :
    (executeFrom phase chain i w ctx).err = none ∧
      OnlyAnswers (executeFrom phase chain i w ctx).ctx := by
  induction chain generalizing i w ctx with
  | nil => exact ⟨rfl, hctx⟩
  | cons slot rest ih =>
    have hrest : AuditedChain rest := fun x hx => hchain x (List.mem_cons_of_mem _ hx)
    obtain ⟨haudited, hhonest⟩ := hchain slot List.mem_cons_self
    unfold executeFrom
    by_cases hb : ctx.blocked = true
    · rw [if_pos hb]
      exact ⟨rfl, hctx⟩
    rw [if_neg hb]
    by_cases hphase : (!slot.filter.runsIn phase) = true
    · rw [if_pos hphase]
      exact ih hrest (i + 1) w hctx
    · rw [if_neg hphase, if_pos haudited]
      exact ih hrest (i + 1) _ (executeAudited_onlyAnswers hhonest w hctx i)

/-- An audited chain without a concurrency limit ends no request except by an
answer. A timeout cannot strike: it needs an error. -/
theorem run_onlyAnswers {policy : Option (EnginePolicy W)} {st : StreamState W}
    (hchain : AuditedChain st.chain) (hlimit : (limitsOf policy st.name).maxConcurrency ≤ 0)
    (now : Moment) (w : W) (hctx : OnlyAnswers ctx) (phase : Phase) :
    OnlyAnswers (run policy now st w ctx phase).ctx := by
  by_cases hskip : (ctx.blocked || st.chain.isEmpty) = true
  · unfold run
    rw [if_pos hskip]
    exact hctx
  · have hphase : OnlyAnswers { ctx with phase } := hctx
    obtain ⟨herr, hans⟩ := executeFrom_audited phase hchain 0 w hphase
    have hfilters : runFilters (limitsOf policy st.name) now.deadlineExceeded st w ctx phase =
        ((execute w ctx st.chain phase).world, (execute w ctx st.chain phase).ctx,
          (execute w ctx st.chain phase).ran) := by
      unfold runFilters
      rw [if_neg]
      rw [show (execute w ctx st.chain phase).err = none from herr]
      simp
    unfold run
    rw [if_neg hskip]
    rw [if_neg (by omega), hfilters]
    exact hans

/-! ## One message -/

/-- The request is ended by a denial. -/
def Denied (ctx : RequestContext) : Prop := ctx.blocked = true ∧ ctx.answered = false

/-- Response headers arrive although a filter asked for the request body, the
body was not sent, and the request has one. -/
def MissesBody (ctx : RequestContext) (m : Message) : Prop :=
  m.phase = some .responseHeaders ∧ bodyMissed ctx = true

section Message

variable {s : Server} {policy : Option (EnginePolicy W)} {now : Moment} {st : StreamState W}
  {w : W} {ctx : RequestContext} {m : Message} {r : Handled W}

theorem OnlyRouting.answered {ctx ctx' : RequestContext} (h : OnlyRouting ctx ctx') :
    ctx'.answered = ctx.answered := by
  obtain ⟨_, _, _, _, rfl⟩ := h
  rfl

theorem OnlyRouting.bodyMissed {ctx ctx' : RequestContext} (h : OnlyRouting ctx ctx') :
    Grpc.bodyMissed ctx' = Grpc.bodyMissed ctx := by
  obtain ⟨_, _, _, _, rfl⟩ := h
  rfl

/-- The guard of the response headers, in terms of the context before the
message. -/
theorem guarded_eq {phase : Phase} (hphase : m.phase = some phase) {ctx' : RequestContext}
    (h : OnlyRouting (s.receive policy ctx m) ctx') :
    guarded phase ctx' = ctx' ∧ ¬ MissesBody ctx m ∨
      guarded phase ctx' = ctx'.block 500 "Internal Server Error" ∧ MissesBody ctx m := by
  have hread : phase = .responseHeaders → bodyMissed ctx' = bodyMissed ctx := by
    intro heq
    rw [h.bodyMissed]
    cases m with
    | responseHeaders msg => rfl
    | _ => rw [heq] at hphase; cases hphase
  unfold guarded
  by_cases hmiss : phase = .responseHeaders ∧ bodyMissed ctx' = true
  · rw [if_pos hmiss]
    exact .inr ⟨rfl, hmiss.1 ▸ hphase, hread hmiss.1 ▸ hmiss.2⟩
  · rw [if_neg hmiss]
    refine .inl ⟨rfl, fun hm => hmiss ?_⟩
    have heq : phase = .responseHeaders := Option.some.inj (hphase.symm.trans hm.1)
    exact ⟨heq, (hread heq).trans hm.2⟩

/-- The chain that a message runs is audited and has no concurrency limit, and
the message is not the one that rejects the stream. -/
structure RunsAudited (policy : Option (EnginePolicy W)) (now : Moment) (st : StreamState W)
    (ctx : RequestContext) (r : Handled W) : Prop where
  admitted : st.resolved = false →
    ¬ Decision.Rejects { policy, identity := now.identity, ctx }
  chain : AuditedChain r.st.chain
  limit : r.st.chain ≠ [] → (limitsOf policy r.st.name).maxConcurrency ≤ 0

theorem handle_denied (h : handle policy now st w ctx s m = some r)
    (ha : RunsAudited policy now st (s.receive policy ctx m) r) (hd : Denied ctx) :
    Denied r.ctx := by
  obtain ⟨phase, hphase, hans⟩ := handle_answers h
  obtain ⟨opts, hctx⟩ := hans.ctx
  have hroute := resolve_onlyRouting policy now.identity _ ha.admitted
  have hblocked : (resolve policy now.identity st (s.receive policy ctx m)).2.blocked = true := by
    rw [hroute.blocked, receive_blocked, hd.1]
  have hguard := guarded_blocked phase hblocked
  refine ⟨(handle_of_blocked h hd.1).1, ?_⟩
  rw [hctx, run_of_blocked policy now _ w _ phase hguard]
  show (guarded phase _).answered = false
  rcases guarded_eq hphase hroute with ⟨heq, _⟩ | ⟨heq, _⟩
  · rw [heq, hroute.answered, receive_answered, hd.2]
  · rw [heq]
    show (resolve policy now.identity st (s.receive policy ctx m)).2.answered = false
    rw [hroute.answered, receive_answered, hd.2]

/-- A message that does not miss the body keeps the request open or answered. -/
theorem handle_onlyAnswers (h : handle policy now st w ctx s m = some r)
    (ha : RunsAudited policy now st (s.receive policy ctx m) r) (hctx : OnlyAnswers ctx)
    (hm : ¬ MissesBody ctx m) : OnlyAnswers r.ctx := by
  obtain ⟨phase, hphase, hans⟩ := handle_answers h
  obtain ⟨opts, hrctx⟩ := hans.ctx
  have hroute := resolve_onlyRouting policy now.identity _ ha.admitted
  have hguard : guarded phase (resolve policy now.identity st (s.receive policy ctx m)).2 =
      (resolve policy now.identity st (s.receive policy ctx m)).2 := by
    rcases guarded_eq hphase hroute with ⟨heq, _⟩ | ⟨_, hmiss⟩
    · exact heq
    · exact absurd hmiss hm
  have hopen : OnlyAnswers (resolve policy now.identity st (s.receive policy ctx m)).2 := by
    show RequestContext.answered _ = RequestContext.blocked _
    rw [hroute.answered, hroute.blocked, receive_answered, receive_blocked]
    exact hctx
  have hchain := ha.chain
  have hlimit := ha.limit
  rw [hans.st] at hchain hlimit
  rw [hrctx]
  show OnlyAnswers (run policy now _ w _ phase).ctx
  rw [hguard]
  by_cases hnil : (resolve policy now.identity st (s.receive policy ctx m)).1.chain = []
  · rw [run_of_nil policy now _ w _ phase hnil]
    exact hopen
  · exact run_onlyAnswers hchain (hlimit hnil) now w hopen phase

/-- A message that misses the body denies the request. -/
theorem handle_missed (h : handle policy now st w ctx s m = some r)
    (ha : RunsAudited policy now st (s.receive policy ctx m) r) (hctx : OnlyAnswers ctx)
    (hm : MissesBody ctx m) : Denied r.ctx := by
  obtain ⟨phase, hphase, hans⟩ := handle_answers h
  obtain ⟨opts, hrctx⟩ := hans.ctx
  have hroute := resolve_onlyRouting policy now.identity _ ha.admitted
  have hopen : ctx.blocked = false := by
    have hmissed := hm.2
    unfold bodyMissed at hmissed
    simp only [Bool.and_eq_true, Bool.not_eq_true'] at hmissed
    exact hmissed.1.1.1
  rcases guarded_eq hphase hroute with ⟨_, hnot⟩ | ⟨hguard, _⟩
  · exact absurd hm hnot
  · rw [hrctx, hguard, run_of_blocked policy now _ w _ phase rfl]
    refine ⟨rfl, ?_⟩
    show (resolve policy now.identity st (s.receive policy ctx m)).2.answered = false
    rw [hroute.answered, receive_answered]
    exact Eq.trans hctx hopen

end Message

/-! ## Whole streams -/

/-- The request is admitted, and whatever chain is picked for it is audited and
has no concurrency limit. -/
def Decision.AuditOnly (d : Decision W) : Prop :=
  ¬ d.Rejects ∧ ∀ name chain, d.Picks name chain →
    AuditedChain chain ∧ (limitsOf d.policy name).maxConcurrency ≤ 0

/-- The stream's decision, once made, is of that kind. -/
def AuditOnlyHistory (history : List (Obs W)) : Prop :=
  ∀ o ∈ history, ∀ d, o.decision = some d → d.AuditOnly

/-- The message is answered with an immediate response that no filter made with
`Answer`. -/
def Obs.Denial (o : Obs W) : Prop :=
  o.response.isImmediate = true ∧ o.after.answered = false

def Obs.MissesBody (o : Obs W) : Prop := Grpc.MissesBody o.before o.message

namespace Session

/-- Denials, and the state they leave, come from missed bodies. -/
structure AuditInv (σ : Session W γ) : Prop where
  denial : (∃ o ∈ σ.history, o.Denial) ↔ ∃ o ∈ σ.history, o.MissesBody
  denied : ∀ st ctx, σ.stream = some (st, ctx) → (∃ o ∈ σ.history, o.MissesBody) → Denied ctx
  clean : ∀ st ctx, σ.stream = some (st, ctx) → (¬ ∃ o ∈ σ.history, o.MissesBody) →
    OnlyAnswers ctx

section Message

variable {s : Server} {σ : Session W γ} {st : StreamState W} {ctx : RequestContext}
  {now : Moment} {m : Message} {r : Handled W} {policy : Option (EnginePolicy W)}

/-- On such a stream every message runs audited filters only. -/
theorem Live.runsAudited (h : σ.Live st ctx) (hrule : DecidesOnce policy σ.history)
    (hr : handle policy now st σ.world ctx s m = some r)
    (ha : AuditOnlyHistory (σ.history ++ [observe s policy now st ctx m r])) :
    RunsAudited policy now st (s.receive policy ctx m) r := by
  have hpicks : r.st.chain ≠ [] → AuditedChain r.st.chain ∧
      (limitsOf policy r.st.name).maxConcurrency ≤ 0 := by
    intro hchain
    obtain ⟨o, ho, d, hd, hpolicy⟩ := (h.decidesOnce hrule hr).exists_decision (by simp)
    have hpick := (h.picks hr ho hd hchain).2
    rw [← hpolicy]
    exact (ha o ho d hd).2 _ _ hpick
  refine ⟨?_, ?_, fun hchain => (hpicks hchain).2⟩
  · intro hres
    refine (ha (observe s policy now st ctx m r) (by simp) _ ?_).1
    show (if st.resolved = true then none else some _) = some _
    rw [if_neg (by simp [hres])]
  · intro slot hslot
    exact (hpicks (List.ne_nil_of_mem hslot)).1 slot hslot

/-- One more message: it denies exactly when it misses the body, unless the
request was denied before. -/
theorem AuditInv.handled (h : σ.AuditInv) (hst : σ.stream = some (st, ctx))
    (hr : handle policy now st σ.world ctx s m = some r)
    (ha : RunsAudited policy now st (s.receive policy ctx m) r) (sent : Bool) :
    (σ.handled (observe s policy now st ctx m r) r sent).AuditInv := by
  have hstream : ∀ st' ctx', (σ.handled (observe s policy now st ctx m r) r sent).stream =
      some (st', ctx') → ctx' = r.ctx := by
    intro st' ctx' hst'
    cases sent with
    | false => cases hst'
    | true => exact (Prod.mk.inj (Option.some.inj hst')).2.symm
  have hmissed : (∃ o ∈ (σ.handled (observe s policy now st ctx m r) r sent).history,
      o.MissesBody) ↔ (∃ o ∈ σ.history, o.MissesBody) ∨ MissesBody ctx m := by
    simp only [Session.handled, List.mem_append, List.mem_singleton, or_and_right, exists_or,
      exists_eq_left]
    rfl
  have hdenial : (∃ o ∈ (σ.handled (observe s policy now st ctx m r) r sent).history,
      o.Denial) ↔ (∃ o ∈ σ.history, o.Denial) ∨ (observe s policy now st ctx m r).Denial := by
    simp only [Session.handled, List.mem_append, List.mem_singleton, or_and_right, exists_or,
      exists_eq_left]
  by_cases hold : ∃ o ∈ σ.history, o.MissesBody
  · have hd := handle_denied hr ha (h.denied st ctx hst hold)
    refine ⟨?_, ?_, ?_⟩
    · rw [hdenial, hmissed]
      exact ⟨fun _ => .inl hold, fun _ => .inl (h.denial.mpr hold)⟩
    · intro st' ctx' hst' _
      rw [hstream st' ctx' hst']
      exact hd
    · intro st' ctx' _ hnone
      exact absurd (hmissed.mpr (.inl hold)) hnone
  · have hopen := h.clean st ctx hst hold
    by_cases hm : MissesBody ctx m
    · -- this message denies the request
      have hd := handle_missed hr ha hopen hm
      have hphase : m.phase ≠ some .responseTrailers := by rw [hm.1]; simp
      refine ⟨?_, ?_, ?_⟩
      · rw [hdenial, hmissed]
        exact ⟨fun _ => .inr hm,
          fun _ => .inr ⟨(handle_immediate_iff hr).mpr ⟨hd.1, hphase⟩, hd.2⟩⟩
      · intro st' ctx' hst' _
        rw [hstream st' ctx' hst']
        exact hd
      · intro st' ctx' _ hnone
        exact absurd (hmissed.mpr (.inr hm)) hnone
    · have hclean := handle_onlyAnswers hr ha hopen hm
      have hnone : ¬ ((∃ o ∈ σ.history, o.MissesBody) ∨ MissesBody ctx m) := by
        intro hor
        rcases hor with hor | hor
        · exact hold hor
        · exact hm hor
      refine ⟨?_, ?_, ?_⟩
      · rw [hdenial, hmissed]
        refine ⟨fun hor => ?_, fun hor => absurd hor hnone⟩
        rcases hor with hor | ⟨himm, hans⟩
        · exact absurd (h.denial.mp hor) hold
        · -- an immediate answer means blocked, and here that means answered
          have hb := ((handle_immediate_iff hr).mp himm).1
          exact absurd (hans.symm.trans (Eq.trans hclean hb)) (by simp)
      · intro st' ctx' _ hmiss
        exact absurd (hmissed.mp hmiss) hnone
      · intro st' ctx' hst' _
        rw [hstream st' ctx' hst']
        exact hclean

end Message

theorem AuditInv.of_nil {σ : Session W γ} (hnil : σ.history = [])
    (hopen : ∀ st ctx, σ.stream = some (st, ctx) → OnlyAnswers ctx) : σ.AuditInv where
  denial := by simp [hnil]
  denied _ _ _ h := absurd h (by simp [hnil])
  clean st ctx hst _ := hopen st ctx hst

theorem AuditInv.close {σ : Session W γ} (h : σ.AuditInv) :
    ({ σ with stream := none } : Session W γ).AuditInv where
  denial := h.denial
  denied _ _ hst := absurd hst (by simp)
  clean _ _ hst := absurd hst (by simp)

/-- The invariant of a run, whose second half speaks about streams of the kind
considered here. -/
theorem auditInv_inductive (s : Server) : (sessionSys W γ s).Inductive (fun _ _ => True)
    fun σ => σ.Inv ∧ (AuditOnlyHistory σ.history → σ.AuditInv) where
  init σ := by
    intro ⟨policy, world, hσ⟩
    rw [hσ]
    exact ⟨.initial policy world, fun _ => .of_nil rfl fun _ _ h => absurd h (by simp [initial])⟩
  step σ e σ' h _ hstep := by
    obtain ⟨hinv, haudit⟩ := h
    refine ⟨hinv.step hstep, fun ha => ?_⟩
    cases e with
    | start thread metadata =>
      obtain ⟨hacq, registry, -, rfl⟩ := start_cases hstep
      refine .of_nil (hinv.unopened hacq).2 fun st ctx hst => ?_
      cases hst
      rfl
    | message now m sent =>
      obtain ⟨st, ctx, hst, rfl | ⟨r, hr, rfl⟩⟩ := message_cases hstep
      · exact (haudit ha).close
      · have hlive := hinv.live st ctx hst
        have hruns := hlive.runsAudited (hinv.rule _ hlive.snapshot) hr ha
        have hold : AuditOnlyHistory σ.history := fun o ho => ha o (List.mem_append_left _ ho)
        exact (haudit hold).handled hst hr hruns sent
    | close =>
      obtain ⟨_, _, rfl⟩ := Option.map_eq_some_iff.mp hstep
      exact (haudit ha).close
    | registry e =>
      obtain ⟨registry, _, rfl⟩ := Option.map_eq_some_iff.mp hstep
      exact ⟨(haudit ha).denial, (haudit ha).denied, (haudit ha).clean⟩
    | world w =>
      cases hstep
      exact ⟨(haudit ha).denial, (haudit ha).denied, (haudit ha).clean⟩

end Session

/-- A stream whose request is admitted to a chain of audited filters is denied
exactly when response headers arrive on it although a filter asked for the
request body and Envoy never sent it. -/
theorem audit_only_denial_iff (s : Server) {σ : Session W γ}
    (hr : (sessionSys W γ s).Reachable σ) (ha : AuditOnlyHistory σ.history) :
    (∀ o ∈ σ.history, ¬ o.Denial) ↔ ∀ o ∈ σ.history, ¬ o.MissesBody := by
  have hiff := (((Session.auditInv_inductive s).invariant hr).2 ha).denial
  constructor
  · intro h o ho hmiss
    obtain ⟨o', ho', hd⟩ := hiff.mpr ⟨o, ho, hmiss⟩
    exact h o' ho' hd
  · intro h o ho hd
    obtain ⟨o', ho', hmiss⟩ := hiff.mp ⟨o, ho, hd⟩
    exact h o' ho' hmiss

/-! ## An audited firewall -/

/-- A sidecar that denies every request. -/
def denyingFirewall (inspectBody : Bool) : Filters.FirewallFilter Unit where
  inspectBody := inspectBody
  inspect := fun w ctx => (w, ctx.block 403 "Forbidden", none)

theorem denyingFirewall_honest (inspectBody : Bool) :
    Honest (denyingFirewall inspectBody).toFilter := by
  intro w ctx hctx
  refine (denyingFirewall inspectBody).execute_keeps
    (P := fun c => c.answered = true → c.blocked = true) ?_ ?_ w hctx
  · intro c hc
    exact hc
  · intro w c _ _
    rfl

/-- A policy that sends every request through one audited firewall. -/
def auditedFirewall (inspectBody : Bool) : EnginePolicy Unit where
  config := { chains := ∅, redis := ∅ }
  chains := AList.singleton "main" [audit (denyingFirewall inspectBody).toFilter]
  routeWith := fun _ => ("main", none)

theorem auditedFirewall_auditOnly (inspectBody : Bool) (ctx : RequestContext) :
    Decision.AuditOnly
      { policy := some (auditedFirewall inspectBody), identity := none, ctx } := by
  constructor
  · rw [Decision.rejects_iff rfl]
    intro h
    rcases h with h | ⟨_, h⟩
    · cases h
    · have hloaded : some [audit (denyingFirewall inspectBody).toFilter] = none := h
      cases hloaded
  · intro name chain hpicks
    obtain ⟨p, hp, rfl, hchain⟩ := hpicks
    cases hp
    have hsingle : [audit (denyingFirewall inspectBody).toFilter] = chain :=
      Option.some.inj hchain
    subst hsingle
    refine ⟨fun slot hslot => ?_, le_refl _⟩
    rw [List.mem_singleton.mp hslot]
    exact ⟨rfl, denyingFirewall_honest inspectBody⟩

/-- Envoy sends the headers of a request with a body, and then the response. -/
def straightToResponse : List (SessionEvent Unit Unit) :=
  [.start 0 [], .message {} (.requestHeaders ∅ {}) true, .message {} (.responseHeaders {}) true]

def auditedStream (inspectBody : Bool) : Option (Session Unit Unit) :=
  (sessionSys Unit Unit { netip := ⟨fun _ => none, fun _ => none⟩ }).run (fun _ _ => True)
    (.initial (some (auditedFirewall inspectBody)) ()) straightToResponse

theorem auditedStream_runs (inspectBody : Bool) : (auditedStream inspectBody).isSome = true := rfl

theorem auditedStream_reachable (inspectBody : Bool) :
    (sessionSys Unit Unit { netip := ⟨fun _ => none, fun _ => none⟩ }).Reachable
      ((auditedStream inspectBody).get (auditedStream_runs inspectBody)) :=
  .of_run (sessionSys_start _ _ _) straightToResponse (auditedStream_runs inspectBody)

theorem auditedStream_auditOnly (inspectBody : Bool) : AuditOnlyHistory
    ((auditedStream inspectBody).get (auditedStream_runs inspectBody)).history := by
  have hdecisions : ∃ ctx, ((auditedStream inspectBody).get
      (auditedStream_runs inspectBody)).history.map (·.decision) =
        [some { policy := some (auditedFirewall inspectBody), identity := none, ctx }, none] :=
    ⟨_, rfl⟩
  obtain ⟨ctx, hmap⟩ := hdecisions
  intro o ho d hd
  have hmem := List.mem_map_of_mem (f := (·.decision)) ho
  rw [hmap, hd] at hmem
  have hdec : d = { policy := some (auditedFirewall inspectBody), identity := none, ctx } := by
    simpa using hmem
  rw [hdec]
  exact auditedFirewall_auditOnly inspectBody ctx

theorem audit_only_denial_headers_only :
    ((auditedStream false).get (auditedStream_runs false)).history.length = 2 ∧
      ∀ o ∈ ((auditedStream false).get (auditedStream_runs false)).history, ¬ o.Denial := by
  refine ⟨rfl, (audit_only_denial_iff { netip := ⟨fun _ => none, fun _ => none⟩ }
    (auditedStream_reachable false) (auditedStream_auditOnly false)).mpr ?_⟩
  have hmissed : ((auditedStream false).get (auditedStream_runs false)).history.map
      (fun o => bodyMissed o.before) = [false, false] := rfl
  intro o ho hm
  have hmem := List.mem_map_of_mem (f := fun o => bodyMissed o.before) ho
  rw [hmissed, hm.2] at hmem
  exact absurd hmem (by simp)

/-- An audited firewall that inspects bodies denies a request whose body Envoy
does not send. -/
theorem audited_firewall_denies : ¬ ∀ σ : Session Unit Unit,
    (sessionSys Unit Unit { netip := ⟨fun _ => none, fun _ => none⟩ }).Reachable σ →
    AuditOnlyHistory σ.history → ∀ o ∈ σ.history, ¬ o.Denial := by
  intro hall
  have hnone := hall _ (auditedStream_reachable true) (auditedStream_auditOnly true)
  have hlast : ((auditedStream true).get (auditedStream_runs true)).history.map
      (fun o => (o.response, o.after.answered)) =
        [(.requestHeaders none (some ⟨true, false, false, false⟩), false),
          (.immediate 500 none "Internal Server Error", false)] := rfl
  have hmem : (.immediate 500 none "Internal Server Error", false) ∈
      ((auditedStream true).get (auditedStream_runs true)).history.map
        (fun o => (o.response, o.after.answered)) := by
    rw [hlast]
    exact List.mem_cons_of_mem _ List.mem_cons_self
  obtain ⟨o, ho, heq⟩ := List.mem_map.mp hmem
  obtain ⟨hresponse, hanswered⟩ := Prod.mk.inj heq
  exact hnone o ho ⟨by rw [hresponse]; rfl, hanswered⟩

end Hypergate.Grpc
