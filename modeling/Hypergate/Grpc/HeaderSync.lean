import Hypergate.Engine.Effective
import Hypergate.Engine.Reach
import Hypergate.Grpc.HandlerSpec
import Hypergate.Lib.TSys

/-!
# Filters and Envoy see the same headers

The engine holds the headers that arrived and its own pending changes; Envoy
holds the headers and applies the mutations the engine sends. `headerSys` runs
both: messages are received, filters call the header methods in any order and
number, and the reply carries the pending changes of its direction, those sent
before included.
-/

namespace Hypergate.Grpc

open Lib Engine Policy

universe u

variable {W : Type u}

/-! ## Envoy's side -/

/-- The headers after Envoy has applied a mutation. -/
def HeaderMutation.applyTo (m : HeaderMutation) (headers : AMap String String) :
    AMap String String :=
  (headers.eraseAll m.removeHeaders).insertAll (m.setHeaders.map fun o => (o.key, o.rawValue))

/-- A response without a mutation changes nothing. -/
def applyMutation (m : Option HeaderMutation) (headers : AMap String String) : AMap String String :=
  m.elim headers (·.applyTo headers)

/-- A header map as Envoy sends it. -/
def headerValues (headers : AMap String String) : List HeaderValue :=
  headers.toList.map fun e => { key := e.1, rawValue := e.2 }

/-- Every name is in lower case. -/
def LowerNames (headers : AMap String String) : Prop := ∀ e ∈ headers.toList, toLower e.1 = e.1

instance (headers : AMap String String) : Decidable (LowerNames headers) :=
  inferInstanceAs (Decidable (∀ e ∈ headers.toList, toLower e.1 = e.1))

/-! ## The system -/

/-- The context of the stream and Envoy's headers. `stage` is the kind of the
latest message, `handling` says that it is not answered yet; `late` records that
a filter changed the request while the response headers were handled. -/
structure HeaderSync where
  ctx : RequestContext := {}
  request : AMap String String := ∅
  response : AMap String String := ∅
  stage : Option Phase := none
  handling : Bool := false
  late : Bool := false

/-- Names that are distinct and not there yet are simply stored. -/
theorem foldl_copyHeader {l : List (String × String)} {dst : AMap String String}
    (hlower : ∀ e ∈ l, toLower e.1 = e.1) (hnodup : (l.map Prod.fst).Nodup)
    (hnew : ∀ e ∈ l, dst.lookup e.1 = none) :
    (l.map fun e => ({ key := e.1, rawValue := e.2 } : HeaderValue)).foldl copyHeader dst
      = dst.insertAll l := by
  induction l generalizing dst with
  | nil => rfl
  | cons e l ih =>
    rw [List.map_cons, List.nodup_cons] at hnodup
    have hkey : toLower e.1 = e.1 := hlower e List.mem_cons_self
    have hcopy : copyHeader dst { key := e.1, rawValue := e.2 } = dst.insert e.1 e.2 := by
      have hprev : dst.getD e.1 "" = "" := by
        unfold AMap.getD
        rw [hnew e List.mem_cons_self]
        rfl
      unfold copyHeader
      dsimp only
      rw [hkey, hprev]
      by_cases hval : e.2 = ""
      · simp [hval]
      · simp [hval]
    rw [List.map_cons, List.foldl_cons, hcopy]
    refine ih (fun x hx => hlower x (List.mem_cons_of_mem _ hx)) hnodup.2 ?_
    intro x hx
    have hne : x.1 ≠ e.1 := by
      intro heq
      exact hnodup.1 (List.mem_map.mpr ⟨x, hx, heq⟩)
    rw [AMap.lookup_insert_ite, if_neg hne]
    exact hnew x (List.mem_cons_of_mem _ hx)

/-- Headers with one value per lower-case name arrive as they are. -/
theorem lookup_copyHeaders_headerValues {headers : AMap String String} (h : LowerNames headers)
    (key : String) :
    (copyHeaders ∅ (some (headerValues headers))).lookup key = headers.lookup key := by
  have hnodup : (headers.toList.map Prod.fst).Nodup := by
    rw [AMap.map_fst_toList]
    exact headers.keys_nodup
  have hcopy : copyHeaders ∅ (some (headerValues headers)) = AMap.insertAll ∅ headers.toList :=
    foldl_copyHeader h hnodup fun _ _ => rfl
  rw [hcopy, AMap.lookup_insertAll_of_iff (o := headers.lookup key)]
  · rw [AList.lookup_empty, Option.or_none]
  · intro v
    exact AMap.mem_toList

/-! ## Sending the pending changes -/

/-- Envoy's headers are the original ones where no change is pending. -/
def Agrees (e : HeaderEdits) (original emitted : AMap String String) : Prop :=
  ∀ key, ¬ e.Touches key → emitted.lookup key = original.lookup key

/-- The engine and Envoy read the same values. -/
def Synced (e : HeaderEdits) (original emitted : AMap String String) : Prop :=
  ∀ key, e.read original key = emitted.getD key ""

/-- What Envoy has after applying the pending changes. -/
theorem lookup_applyMutation {e : HeaderEdits} (h : e.Consistent) (ctx : RequestContext)
    (emitted : AMap String String) (key : String) :
    (applyMutation (buildHeaderMutation ctx e.toAdd e.toRemove).2 emitted).lookup key
      = (e.shadow.lookup key).or (if key ∈ e.toRemove then none else emitted.lookup key) := by
  unfold buildHeaderMutation
  by_cases hnil : e.toAdd = [] ∧ e.toRemove = []
  · rw [if_pos hnil]
    have hshadow : e.shadow.lookup key = none :=
      h.shadow_eq_none_iff.mpr (by simp [hnil.1])
    rw [hshadow, hnil.2]
    rfl
  · rw [if_neg hnil]
    show (AMap.insertAll (emitted.eraseAll e.toRemove) _).lookup key = _
    rw [AMap.lookup_insertAll_of_iff (o := e.shadow.lookup key), AMap.lookup_eraseAll]
    intro v
    rw [h.shadow key v, List.map_map]
    simp [HeaderEdits.Adds]

section Send

variable {e : HeaderEdits} {original emitted : AMap String String}

theorem Agrees.send (h : e.Consistent) (ha : Agrees e original emitted) (ctx : RequestContext) :
    Agrees e original (applyMutation (buildHeaderMutation ctx e.toAdd e.toRemove).2 emitted) := by
  intro key htouch
  rw [lookup_applyMutation h]
  have hshadow : e.shadow.lookup key = none :=
    h.shadow_eq_none_iff.mpr (fun hadd => htouch (.inl hadd))
  rw [hshadow, if_neg (fun hr => htouch (.inr hr)), Option.none_or]
  exact ha key htouch

theorem Synced.send (h : e.Consistent) (ha : Agrees e original emitted) (ctx : RequestContext) :
    Synced e original (applyMutation (buildHeaderMutation ctx e.toAdd e.toRemove).2 emitted) := by
  intro key
  unfold HeaderEdits.read AMap.getD
  rw [lookup_applyMutation h]
  cases hs : e.shadow.lookup key with
  | some v => rfl
  | none =>
    by_cases hr : key ∈ e.toRemove
    · rw [if_pos (HeaderEdits.containsKey_iff.mpr hr), if_pos hr]
      rfl
    · rw [if_neg (fun hc => hr (HeaderEdits.containsKey_iff.mp hc)), if_neg hr, Option.none_or]
      rw [ha key (fun ht => ht.elim (h.shadow_eq_none_iff.mp hs) hr)]

end Send

/-- The headers the upstream gets if the pending changes are sent now. -/
def upstreamHeaders (ctx : RequestContext) : AMap String String :=
  applyMutation (buildHeaderMutation ctx ctx.headersToAdd ctx.headersToRemove).2 ctx.headers

/-- `sent` is what Envoy has after applying the pending changes. -/
theorem lookup_upstreamHeaders {ctx : RequestContext} (h : ctx.upstream.Consistent)
    (key : String) : (upstreamHeaders ctx).lookup key = ctx.sent key := by
  refine Eq.trans (lookup_applyMutation h ctx ctx.headers key) ?_
  congr 1
  exact if_congr HeaderEdits.containsKey_iff.symm rfl rfl

/-! ## One step -/

def HeaderSync.view (σ : HeaderSync) : HeaderView := σ.ctx.headerView

/-- The engine and Envoy in a stream's state. -/
structure HeaderSync.Inv (σ : HeaderSync) : Prop where
  upstream : σ.view.upstream.Consistent
  downstream : σ.view.downstream.Consistent
  noRequest : σ.stage = none → σ.view.headers = ∅
  noResponse : σ.stage ≠ some .responseHeaders → σ.view.responseHeaders = ∅
  request : Agrees σ.view.upstream σ.view.headers σ.request
  response : σ.stage = some .responseHeaders →
    Agrees σ.view.downstream σ.view.responseHeaders σ.response
  /-- The request is in step unless its changes are still to be sent. -/
  requestSent : σ.stage ≠ none → (σ.handling = true → σ.stage = some .responseHeaders) →
    σ.late = false → Synced σ.view.upstream σ.view.headers σ.request
  responseSent : σ.stage = some .responseHeaders → σ.handling = false →
    Synced σ.view.downstream σ.view.responseHeaders σ.response

section Steps

variable {σ : HeaderSync}

variable {ctx : RequestContext}

theorem HeaderSync.Inv.of_view (h : σ.Inv) (hview : ctx.headerView = σ.ctx.headerView) :
    HeaderSync.Inv { σ with ctx } := by
  have hsame : HeaderSync.view { σ with ctx } = σ.view := hview
  exact
    { upstream := by rw [hsame]; exact h.upstream
      downstream := by rw [hsame]; exact h.downstream
      noRequest := by rw [hsame]; exact h.noRequest
      noResponse := by rw [hsame]; exact h.noResponse
      request := by rw [hsame]; exact h.request
      response := by rw [hsame]; exact h.response
      requestSent := by rw [hsame]; exact h.requestSent
      responseSent := by rw [hsame]; exact h.responseSent }

theorem HeaderSync.Inv.requestHeaders {headers : AMap String String} (h : σ.Inv)
    (hstage : σ.stage = none) (hlower : LowerNames headers)
    (hview : ctx.headerView =
      { σ.view with headers := copyHeaders σ.view.headers (some (headerValues headers)) }) :
    HeaderSync.Inv { σ with
      ctx, request := headers, stage := some .requestHeaders, handling := true } := by
  have hsame : HeaderSync.view { σ with
      ctx, request := headers, stage := some .requestHeaders, handling := true } = _ := hview
  refine
    { upstream := by rw [hsame]; exact h.upstream
      downstream := by rw [hsame]; exact h.downstream
      noRequest := fun hs => absurd hs (by simp)
      noResponse := fun _ => by rw [hsame]; exact h.noResponse (by rw [hstage]; simp)
      request := ?_
      response := fun hs => absurd hs (by simp)
      requestSent := fun _ hh => absurd (hh rfl) (by simp)
      responseSent := fun hs => absurd hs (by simp) }
  rw [hsame]
  intro key _
  rw [h.noRequest hstage]
  exact (lookup_copyHeaders_headerValues hlower key).symm

theorem HeaderSync.Inv.requestBody (h : σ.Inv) (hstage : σ.stage ≠ some .responseHeaders) :
    HeaderSync.Inv { σ with stage := some .requestBody, handling := true } :=
  { h with
    noRequest := fun hs => absurd hs (by simp)
    noResponse := fun _ => h.noResponse hstage
    response := fun hs => absurd hs (by simp)
    requestSent := fun _ hh => absurd (hh rfl) (by simp)
    responseSent := fun hs => absurd hs (by simp) }

/-- The response headers arrive: the request stays as it was sent. -/
theorem HeaderSync.Inv.responseHeaders {headers : AMap String String} (h : σ.Inv)
    (hsome : σ.stage ≠ none) (hstage : σ.stage ≠ some .responseHeaders) (hidle : σ.handling = false)
    (hlower : LowerNames headers)
    (hview : ctx.headerView = { σ.view with
      responseHeaders := copyHeaders σ.view.responseHeaders (some (headerValues headers)) }) :
    HeaderSync.Inv { σ with
      ctx, response := headers, stage := some .responseHeaders, handling := true } := by
  have hsame : HeaderSync.view { σ with
      ctx, response := headers, stage := some .responseHeaders, handling := true } = _ := hview
  refine
    { upstream := by rw [hsame]; exact h.upstream
      downstream := by rw [hsame]; exact h.downstream
      noRequest := fun hs => absurd hs (by simp)
      noResponse := fun hs => absurd rfl hs
      request := by rw [hsame]; exact h.request
      response := ?_
      requestSent := ?_
      responseSent := fun _ hh => absurd hh (by simp) }
  · intro _
    rw [hsame]
    intro key _
    rw [h.noResponse hstage]
    exact (lookup_copyHeaders_headerValues hlower key).symm
  · intro _ _ hlate
    rw [hsame]
    exact h.requestSent hsome (by simp [hidle]) hlate

/-- A change of the request while a message is handled. -/
theorem HeaderSync.Inv.editUpstream {e : HeaderEdits} {late : Bool} (h : σ.Inv)
    (hbusy : σ.handling = true) (hcons : e.Consistent)
    (htouch : ∀ key, σ.view.upstream.Touches key → e.Touches key)
    (hview : ctx.headerView = { σ.view with upstream := e })
    (hlate : σ.stage = some .responseHeaders → late = true) :
    HeaderSync.Inv { σ with ctx, late } := by
  have hsame : HeaderSync.view { σ with ctx, late } = { σ.view with upstream := e } := hview
  refine
    { upstream := by rw [hsame]; exact hcons
      downstream := by rw [hsame]; exact h.downstream
      noRequest := by rw [hsame]; exact h.noRequest
      noResponse := by rw [hsame]; exact h.noResponse
      request := ?_
      response := by rw [hsame]; exact h.response
      requestSent := ?_
      responseSent := fun _ hidle => absurd (hbusy.symm.trans hidle) (by simp) }
  · rw [hsame]
    intro key hnot
    exact h.request key (fun ht => hnot (htouch key ht))
  · -- during the response headers such a change is recorded
    intro _ hresp hnot
    exact absurd ((hlate (hresp hbusy)).symm.trans hnot) (by simp)

/-- A change of the response while a message is handled. -/
theorem HeaderSync.Inv.editDownstream {e : HeaderEdits} (h : σ.Inv) (hbusy : σ.handling = true)
    (hcons : e.Consistent) (htouch : ∀ key, σ.view.downstream.Touches key → e.Touches key)
    (hview : ctx.headerView = { σ.view with downstream := e }) :
    HeaderSync.Inv { σ with ctx } := by
  have hsame : HeaderSync.view { σ with ctx } = { σ.view with downstream := e } := hview
  refine
    { upstream := by rw [hsame]; exact h.upstream
      downstream := by rw [hsame]; exact hcons
      noRequest := by rw [hsame]; exact h.noRequest
      noResponse := by rw [hsame]; exact h.noResponse
      request := by rw [hsame]; exact h.request
      response := ?_
      requestSent := by rw [hsame]; exact h.requestSent
      responseSent := fun _ hidle => absurd (hbusy.symm.trans hidle) (by simp) }
  intro hs
  rw [hsame]
  intro key hnot
  exact h.response hs key (fun ht => hnot (htouch key ht))

theorem HeaderSync.Inv.call (h : σ.Inv) (hbusy : σ.handling = true) (c : HeaderCall) :
    HeaderSync.Inv { σ with
      ctx := c.run σ.ctx
      late := σ.late || (c.isUpstream && decide (σ.stage = some .responseHeaders)) } := by
  have hview := c.headerView_run σ.ctx
  have hlate : c.isUpstream = true → σ.stage = some .responseHeaders →
      (σ.late || (c.isUpstream && decide (σ.stage = some .responseHeaders))) = true := by
    intro hup hs
    simp [hup, hs]
  cases c with
  | setHeaderUpstream key value =>
    exact h.editUpstream hbusy (h.upstream.set _ value)
      (fun _ ht => h.upstream.touches_set value ht) hview (hlate rfl)
  | removeHeaderUpstream key =>
    exact h.editUpstream hbusy (h.upstream.remove _)
      (fun _ ht => h.upstream.touches_remove ht) hview (hlate rfl)
  | setPath path =>
    exact h.editUpstream hbusy (h.upstream.set _ path)
      (fun _ ht => h.upstream.touches_set path ht) hview (hlate rfl)
  | setHeaderDownstream key value =>
    have hedit := h.editDownstream hbusy (h.downstream.set _ value)
      (fun _ ht => h.downstream.touches_set value ht) hview
    simpa [HeaderCall.isUpstream] using hedit
  | removeHeaderDownstream key =>
    have hedit := h.editDownstream hbusy (h.downstream.remove _)
      (fun _ ht => h.downstream.touches_remove ht) hview
    simpa [HeaderCall.isUpstream] using hedit

end Steps

/-! ## Whole streams -/

section Runs

variable (s : Server) (policy : Option (EnginePolicy W))

end Runs

/-- `ctx'` is `ctx` after header calls and changes outside the headers. -/
inductive Edited (ctx : RequestContext) : RequestContext → Prop
  | refl : Edited ctx ctx
  | call {ctx' : RequestContext} (h : Edited ctx ctx') (c : HeaderCall) : Edited ctx (c.run ctx')
  | other {ctx' ctx'' : RequestContext} (h : Edited ctx ctx')
      (hview : ctx''.headerView = ctx'.headerView) : Edited ctx ctx''

/-- The filter changes headers only by the methods of the context. -/
def EditsHeaders (f : Engine.Filter W) : Prop := ∀ w ctx, Edited ctx (f.execute w ctx).2.1

theorem Edited.trans {a b c : RequestContext} (hab : Edited a b) (hbc : Edited b c) :
    Edited a c := by
  induction hbc with
  | refl => exact hab
  | call _ k ih => exact .call ih k
  | other _ hview ih => exact .other ih hview

theorem Edited.arrived {a b : RequestContext} (h : Edited a b) :
    b.headers = a.headers ∧ b.responseHeaders = a.responseHeaders := by
  induction h with
  | refl => exact ⟨rfl, rfl⟩
  | call _ c ih => cases c <;> exact ih
  | other _ hview ih =>
    have hheaders := congrArg HeaderView.headers hview
    have hresponse := congrArg HeaderView.responseHeaders hview
    exact ⟨Eq.trans hheaders ih.1, Eq.trans hresponse ih.2⟩

/-- Filters leave the pending changes of the request in step. -/
theorem Edited.consistent {a b : RequestContext} (h : Edited a b)
    (ha : a.upstream.Consistent) : b.upstream.Consistent := by
  induction h with
  | refl => exact ha
  | call _ c ih =>
    cases c with
    | setHeaderUpstream key value => exact ih.set _ value
    | removeHeaderUpstream key => exact ih.remove _
    | setHeaderDownstream key value => exact ih
    | removeHeaderDownstream key => exact ih
    | setPath path => exact ih.set _ path
  | other _ hview ih =>
    have hup := congrArg HeaderView.upstream hview
    exact (show RequestContext.upstream _ = RequestContext.upstream _ from hup) ▸ ih

variable {ctx ctx' : RequestContext}

theorem rollBack_headerView (h : Edited ctx ctx') (hit : AuditHit) :
    (((ctx'.recordHit hit).restoreMutations ctx.saveMutations).unblock).headerView
      = ctx.headerView := by
  have hview : (((ctx'.recordHit hit).restoreMutations ctx.saveMutations).unblock).headerView
      = ⟨ctx'.headers, ctx'.responseHeaders, ctx.upstream, ctx.downstream⟩ := rfl
  rw [hview, h.arrived.1, h.arrived.2]
  rfl

theorem OnlyRouting.headerView (h : OnlyRouting ctx ctx') :
    ctx'.headerView = ctx.headerView := by
  obtain ⟨_, _, _, _, rfl⟩ := h
  rfl

theorem resolve_headerView (policy : Option (EnginePolicy W)) (identity : Option Identity.Index)
    (st : StreamState W) (ctx : RequestContext) :
    (resolve policy identity st ctx).2.headerView = ctx.headerView := by
  cases hres : st.resolved with
  | true => rw [resolve_of_resolved policy identity ctx hres]
  | false =>
    rcases resolve_cases policy identity ctx hres rfl with ⟨_, hrefused⟩ | ⟨_, hchosen⟩
    · obtain ⟨ctx₁, hroute, hctx⟩ := hrefused.ctx
      rw [hctx]
      exact hroute.headerView
    · exact hchosen.ctx.headerView

theorem guarded_headerView (phase : Phase) (ctx : RequestContext) :
    (guarded phase ctx).headerView = ctx.headerView := by
  unfold guarded
  split
  · rfl
  · rfl

section HandleSteps

variable {s : Server} {policy : Option (EnginePolicy W)}

variable {st : StreamState W}

/-- A handler whose request was not blocked sends its own reply. -/
theorem finish_open {now : Moment} {w : W} {ctx : RequestContext} {phase : Phase}
    {reply : RequestContext → RequestContext × Response}
    (h : (finish policy now st w ctx phase reply).response.isImmediate = false) :
    finish policy now st w ctx phase reply
      = (run policy now st w ctx phase).sends st (reply (run policy now st w ctx phase).ctx) := by
  unfold finish at h ⊢
  dsimp only at h ⊢
  by_cases hb : (run policy now st w ctx phase).ctx.blocked = true
  · rw [if_pos hb] at h
    cases h
  · rw [if_neg hb]

end HandleSteps

end Hypergate.Grpc
