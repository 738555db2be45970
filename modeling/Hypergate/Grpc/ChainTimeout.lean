import Hypergate.Engine.Reach
import Hypergate.Filters.ExternalAuth
import Hypergate.Grpc.HandlerSpec

/-!
# A chain's deadline and its sidecars (`run` in `internal/grpc/handlers.go`)

A chain with a `timeout` gives its filters a context with a deadline. `run` learns that the
deadline stopped a filter from the error that the filter returns: it then answers 503, or, with
`on_timeout: allow`, lets the request go on without the rest of the chain.

The two filters that wait for a sidecar (`SidecarFilter`) do not return the error of a call that
failed. They block the request with 500 themselves, and `run` keeps that.

* `run_of_cutOff` — what `run` leaves when the deadline passes in the middle of such a call.
* `timeout_right_iff` — `on_timeout` is honoured exactly if no call is cut off.
-/

namespace Hypergate.Grpc

open Lib Engine Filters Policy

universe u

variable {V : Type u}

/-- A filter that waits for a sidecar. -/
inductive SidecarFilter (V : Type u) where
  | firewall (cfg : FirewallFilterConfig) (sc : Sidecar V)
  | externalAuth (cfg : ExternalAuthConfig) (sc : AuthSidecar V)

namespace SidecarFilter

/-- The filter as a chain sees it. -/
def filter : SidecarFilter V → Engine.Filter (Logged V)
  | firewall cfg sc => (cfg.firewall sc).toFilter
  | externalAuth cfg sc => cfg.externalAuth sc

/-- The filter asks its sidecar, and the call fails. -/
def CallFails (f : SidecarFilter V) (w : Logged V) (ctx : RequestContext) : Prop :=
  ∃ call, (f.filter.execute w ctx).1.calls = w.calls ++ [call] ∧ call.verdict = .failed

theorem CallFails.result_eq {f : SidecarFilter V} {w : Logged V} {ctx : RequestContext}
    (h : f.CallFails w ctx) : (f.filter.execute w ctx).2 = (internalError ctx, none) := by
  obtain ⟨call, hcall, hfailed⟩ := h
  cases f with
  | firewall cfg sc => exact (execute_firewall_failsClosed cfg sc w ctx).result_eq hcall hfailed
  | externalAuth cfg sc =>
    exact (execute_externalAuth_failsClosed cfg sc w ctx).result_eq hcall hfailed

end SidecarFilter

/-! ## Cut off by the deadline -/

section Run

variable (clock : V → Bool) (policy : Option (EnginePolicy (Logged V))) (now : Moment)
  (st : StreamState (Logged V)) (w : Logged V) (ctx : RequestContext) (phase : Phase)

/-- The chain's deadline passes while the enforced filter `f`, to which the run comes in the
state `s`, waits for its sidecar, and the call fails. `clock` says whether the deadline has
passed. -/
structure CutOff (f : SidecarFilter V) (s : LoopState (Logged V)) : Prop where
  timeout : 0 < (limitsOf policy st.name).timeoutDuration
  admitted : Admitted policy now st ctx
  reached : Reaches phase ⟨st.chain, 0, w, { ctx with phase }⟩ s
  opened : s.ctx.blocked = false
  slot : ∃ rest, s.chain = { filter := f.filter } :: rest
  gate : f.filter.runsIn phase = true
  early : clock s.world.env = false
  fails : f.CallFails s.world s.ctx
  late : clock (f.filter.execute s.world s.ctx).1.env = true
  -- what has passed stays passed until the filters return
  exceeded : now.deadlineExceeded = true

/-- `on_timeout` is honoured: 503 with `deny`; with `allow` the request goes on, and no filter
after the one that was cut off has run. -/
def TimeoutRight : Prop :=
  ∀ f s, CutOff clock policy now st w ctx phase f s →
    match (limitsOf policy st.name).onTimeout with
    | .deny => (run policy now st w ctx phase).ctx.blocked = true
        ∧ (run policy now st w ctx phase).ctx.responseStatus = 503
    | .allow => (run policy now st w ctx phase).ctx.blocked = false
        ∧ ∀ j ∈ (run policy now st w ctx phase).ran, j ≤ s.pos

end Run

variable {clock : V → Bool} {policy : Option (EnginePolicy (Logged V))} {now : Moment}
  {st : StreamState (Logged V)} {w : Logged V} {ctx : RequestContext} {phase : Phase}

/-- The chain leaves what the sidecar filter made of its failed call. -/
theorem execute_of_cutOff {f : SidecarFilter V} {s : LoopState (Logged V)}
    (h : CutOff clock policy now st w ctx phase f s) :
    (execute w ctx st.chain phase).err = none
      ∧ (execute w ctx st.chain phase).ctx
        = { internalError s.ctx with blockedBy := s.pos } := by
  obtain ⟨before, -, hresult⟩ := h.reached.result_eq
  obtain ⟨rest, hslot⟩ := h.slot
  have hexecute : f.filter.execute s.world s.ctx
      = ((f.filter.execute s.world s.ctx).1, internalError s.ctx, none) := by
    rw [← h.fails.result_eq]
  have hstop : s.result phase
      = { world := (f.filter.execute s.world s.ctx).1
          ctx := { internalError s.ctx with blockedBy := s.pos }
          ran := [s.pos] } := by
    unfold LoopState.result
    rw [hslot]
    exact executeFrom_of_denied h.opened h.gate rfl hexecute rfl
  have hall : execute w ctx st.chain phase = (s.result phase).after before := hresult
  rw [hall, hstop]
  exact ⟨rfl, rfl⟩

/-- A request whose sidecar call is cut off ends blocked with 500, whatever `on_timeout` says. -/
theorem run_of_cutOff {f : SidecarFilter V} {s : LoopState (Logged V)}
    (h : CutOff clock policy now st w ctx phase f s) :
    (run policy now st w ctx phase).ctx.blocked = true
      ∧ (run policy now st w ctx phase).ctx.responseStatus = 500 := by
  obtain ⟨herr, hctx⟩ := execute_of_cutOff h
  have hchain : st.chain.isEmpty = false := by
    obtain ⟨rest, hslot⟩ := h.slot
    have hlength := (Reaches.advances h.reached).2
    rw [hslot] at hlength
    cases hst : st.chain with
    | nil => simp [hst] at hlength
    | cons slot others => rfl
  rw [run_of_admitted h.admitted hchain, runFilters_of_no_error herr, hctx]
  exact ⟨rfl, rfl⟩

theorem timeout_right_iff (clock : V → Bool) (policy : Option (EnginePolicy (Logged V)))
    (now : Moment) (st : StreamState (Logged V)) (w : Logged V) (ctx : RequestContext)
    (phase : Phase) :
    (TimeoutRight clock policy now st w ctx phase
        ↔ ∀ f s, ¬ CutOff clock policy now st w ctx phase f s)
      ∧ ∀ f s, CutOff clock policy now st w ctx phase f s →
        (run policy now st w ctx phase).ctx.blocked = true
          ∧ (run policy now st w ctx phase).ctx.responseStatus = 500 := by
  refine ⟨⟨?_, ?_⟩, fun f s hcut => run_of_cutOff hcut⟩
  · intro hright f s hcut
    have hhonoured := hright f s hcut
    obtain ⟨hblocked, hstatus⟩ := run_of_cutOff hcut
    split at hhonoured
    · exact absurd (hstatus.symm.trans hhonoured.2) (by decide)
    · exact absurd (hblocked.symm.trans hhonoured.1) (by decide)
  · intro hnone f s hcut
    exact absurd hcut (hnone f s)

/-- A firewall sidecar that says nothing until the deadline has passed. The world is whether it
has. -/
def stalledFirewall : SidecarFilter Bool :=
  .firewall {}
    { newRequest := fun _ _ => true
      roundTrip := fun _ _ => (true, none)
      process := fun passed => (passed, true)
      send := fun passed _ => (passed, true)
      recv := fun _ => (true, none) }

/-- An authorization sidecar that does the same. -/
def stalledAuth : SidecarFilter Bool :=
  .externalAuth {}
    { newRequest := fun _ => true
      roundTrip := fun _ _ => (true, none)
      check := fun _ _ => (true, none) }

/-- The chain `c` has 300 ms, and the action on its timeout. -/
def timedPolicy (f : SidecarFilter Bool) (onTimeout : LimitAction) :
    EnginePolicy (Logged Bool) where
  config :=
    { chains := ∅
      redis := ∅
      chainSettings :=
        (∅ : AMap String ChainSettings).insert "c" { timeoutDuration := 300000000, onTimeout } }
  chains := (∅ : AMap String (Chain (Logged Bool))).insert "c" [{ filter := f.filter }]
  routeWith _ := ("c", none)

/-- A stream that was routed to `c`. -/
def timedStream (f : SidecarFilter Bool) : StreamState (Logged Bool) where
  snap := 0
  resolved := true
  chain := [{ filter := f.filter }]
  name := "c"

theorem cutOff_first {f : SidecarFilter Bool} {onTimeout : LimitAction}
    (hgate : f.filter.runsIn .requestHeaders = true)
    (hfails : f.CallFails { env := false } {})
    (hlate : (f.filter.execute { env := false } {}).1.env = true) :
    CutOff id (some (timedPolicy f onTimeout)) { deadlineExceeded := true } (timedStream f)
      { env := false } {} .requestHeaders f
      ⟨[{ filter := f.filter }], 0, { env := false }, {}⟩ where
  timeout := show (0 : Int) < 300000000 by decide
  admitted := ⟨rfl, fun h => absurd h (by show ¬ (0 : Int) < 0; decide)⟩
  reached := .refl
  opened := rfl
  slot := ⟨[], rfl⟩
  gate := hgate
  early := rfl
  fails := hfails
  late := hlate
  exceeded := rfl

theorem cut_off_still_blocked :
    ¬ TimeoutRight id (some (timedPolicy stalledFirewall .allow)) { deadlineExceeded := true }
        (timedStream stalledFirewall) { env := false } {} .requestHeaders
      ∧ ¬ TimeoutRight id (some (timedPolicy stalledAuth .deny)) { deadlineExceeded := true }
        (timedStream stalledAuth) { env := false } {} .requestHeaders := by
  constructor
  · intro hright
    have hgoes := hright stalledFirewall _ (cutOff_first rfl ⟨_, rfl, rfl⟩ rfl)
    exact absurd (show true = false from hgoes.1) (by simp)
  · intro hright
    have hstatus := hright stalledAuth _ (cutOff_first rfl ⟨_, rfl, rfl⟩ rfl)
    exact absurd (show (500 : Int) = 503 from hstatus.2) (by decide)

end Hypergate.Grpc
