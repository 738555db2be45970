import Hypergate.Grpc.HandlerSpec
import Hypergate.Routing.Matcher

/-!
# Callers the identity map does not have

An east-west caller that is missing from the identity map is either refused
before any route is looked at, or it is routed as a caller of which nothing but
its address is known: no selector about workloads, and not `external` either, can
make an entry match.

`Config.toPolicy` is the part of an accepted config that the policy manager and
the gRPC server read; `Config.enginePolicy` adds the router.
-/

namespace Hypergate.Routing

open Lib Identity Engine Policy

universe u

variable {W : Type u} {go : GoLib}

/-- `on_timeout` and `on_overload` after validation. -/
def limitActionOf (v : String) : LimitAction := if v = "allow" then .allow else .deny

/-- The limits `run` reads. -/
def ChainSettings.toPolicy (c : ChainSettings) : Policy.ChainSettings where
  timeoutDuration := c.timeoutDuration
  maxConcurrency := c.maxConcurrency
  onTimeout := limitActionOf c.onTimeout
  onOverload := limitActionOf c.onOverload

/-- The part of a config that the manager and the server read. -/
def Config.toPolicy (cfg : Config) : Policy.Config where
  server := { clientIP := cfg.server.clientIP }
  chains := cfg.chains
  router := { unknownSource := cfg.router.unknownSource }
  redis := cfg.redis
  chainSettings := cfg.chainSettings.mapVals ChainSettings.toPolicy

/-- The policy of an accepted config with the chains built from it. -/
def Config.enginePolicy (cfg : Config) (chains : AMap String (Chain W)) : Grpc.EnginePolicy W where
  config := cfg.toPolicy
  chains := chains
  routeWith := cfg.router.routeWith

theorem parseUnknownSource_eq_ok {v o : String} (h : parseUnknownSource v = .ok o) :
    o = "deny" ∨ o = "default" := by
  unfold parseUnknownSource at h
  split at h
  · exact .inl (Except.ok.inj h).symm
  · split at h
    · rename_i hv
      exact Except.ok.inj h ▸ hv
    · cases h

/-- Of an unknown caller that is not external, a selector can see the address
only. -/
theorem of_matchesSource_none {sel : Selector} {addr : Addr}
    (h : sel.matchesSource addr none false) :
    sel = .any ∨ sel = .ip addr ∨ ∃ pre : Prefix, sel = .cidr pre ∧ pre.contains addr = true := by
  have hnoPod : ∀ P : Workload → Prop, ¬ ∃ p, none = some p ∧ P p := by simp
  cases sel with
  | any => exact .inl rfl
  | ip a => exact .inr (.inl (by rw [h.2]))
  | cidr pre => exact .inr (.inr ⟨pre, rfl, h.2⟩)
  | host name wildcard => exact absurd h id
  | external => exact absurd h.2 (by simp)
  | service key => exact absurd h (hnoPod _)
  | «namespace» name => exact absurd h (hnoPod _)
  | sa key => exact absurd h (hnoPod _)
  | spiffe id => exact absurd h (hnoPod _)
  | labels ns kv => exact absurd h (hnoPod _)

/-- The address of the caller is the one the request came with. -/
theorem resolveIdentity_clientAddr (identity : Option Index) (ctx : RequestContext) :
    (Grpc.resolveIdentity identity ctx).clientAddr = ctx.clientAddr := by
  unfold Grpc.resolveIdentity
  cases identity with
  | none => dsimp only; split <;> rfl
  | some idx => dsimp only; split <;> split <;> rfl

/-- What an accepted config does with an east-west caller that the identity map
does not have: under `deny` the request is answered with 503 whatever the router
would say, and under `default` an entry matches only through a source that is
absent, `any`, the caller's address or a block with it. -/
theorem unknown_caller_confined {doc cfg : Config} (hcfg : parseBytes go doc = .ok cfg)
    (idx : Index) (ctx : RequestContext)
    (heastWest : (Grpc.resolveIdentity (some idx) ctx).traffic = .eastWest)
    (hunknown : idx.lookup ctx.clientAddr = none) :
    (cfg.router.unknownSource = "deny" ∨ cfg.router.unknownSource = "default")
      ∧ (cfg.router.unknownSource = "deny" →
          ∀ (p : Grpc.EnginePolicy W) (st : Grpc.StreamState W), p.config = cfg.toPolicy →
            st.resolved = false →
            Grpc.resolve (some p) (some idx) st ctx
              = ({ st with resolved := true },
                (Grpc.resolveIdentity (some idx) ctx).block 503 "Service Unavailable"))
      ∧ (cfg.router.unknownSource = "default" →
          ∀ route ∈ cfg.router.routes, ∀ m ∈ route.matches,
            m.matches (Grpc.resolveIdentity (some idx) ctx) = true →
              m.sources = [] ∨ ∃ raw ∈ m.sources,
                parse go.netip raw .source = .ok .any
                  ∨ parse go.netip raw .source = .ok (.ip ctx.clientAddr)
                  ∨ ∃ pre : Prefix, parse go.netip raw .source = .ok (.cidr pre)
                      ∧ pre.contains ctx.clientAddr = true) := by
  have haccepted := (parseBytes_eq_ok_iff go).mp hcfg
  refine ⟨parseUnknownSource_eq_ok haccepted.unknownSource, ?_, ?_⟩
  · intro hdeny p st hp hst
    have hcaller : Grpc.unknownCaller (some idx) p.config (Grpc.resolveIdentity (some idx) ctx)
        = true := by
      have hsource := Grpc.resolveIdentity_sourceWorkload idx ctx
      rw [hunknown] at hsource
      unfold Grpc.unknownCaller
      rw [heastWest, hsource, hp]
      show (true && true && true && decide (cfg.router.unknownSource ≠ "default")) = true
      rw [hdeny]
      rfl
    unfold Grpc.resolve
    rw [if_neg (by simp [hst])]
    dsimp only
    rw [if_pos hcaller]
    rfl
  · intro _ route hroute m hm hmatch
    obtain ⟨r, -, m₀, -, j, hcompiled⟩ := haccepted.compiled hroute hm
    obtain ⟨-, -, -, -, -, hsource, -⟩ := matches_iff.mp hmatch
    have hlist : m.sources = m₀.sources := by rw [hcompiled.rest]
    have hnone : (Grpc.resolveIdentity (some idx) ctx).sourceWorkload = none := by
      rw [Grpc.resolveIdentity_sourceWorkload, hunknown]
    rw [hnone, heastWest, matchSource_compile hcompiled.sources, resolveIdentity_clientAddr]
      at hsource
    rw [hlist]
    rcases hsource with hempty | ⟨raw, hraw, sel, hparse, hsel⟩
    · exact .inl hempty
    · refine .inr ⟨raw, hraw, ?_⟩
      rcases of_matchesSource_none hsel with rfl | rfl | ⟨pre, rfl, hpre⟩
      · exact .inl hparse
      · exact .inr (.inl hparse)
      · exact .inr (.inr ⟨pre, hparse, hpre⟩)

/-- One route, for callers of any kind, and callers that are unknown let through. -/
def openDoc : Config where
  version := "v1"
  chains := AList.singleton "main" []
  router :=
    { routes := [{ name := "all", targetChain := "main", «matches» := [{ sources := ["any"] }] }]
      unknownSource := "default" }

theorem openDoc_accepted : (parseBytes sampleGo openDoc).isOk = true := rfl

theorem unknown_caller_confined_openDoc :
    ∃ cfg, parseBytes sampleGo openDoc = .ok cfg ∧ cfg.router.unknownSource = "default"
      ∧ ∀ route ∈ cfg.router.routes, ∀ m ∈ route.matches,
          m.matches (Grpc.resolveIdentity (some {}) { traffic := .eastWest }) = true →
            m.sources = [] ∨ ∃ raw ∈ m.sources,
              parse sampleGo.netip raw .source = .ok .any
                ∨ parse sampleGo.netip raw .source = .ok (.ip .zero)
                ∨ ∃ pre : Prefix, parse sampleGo.netip raw .source = .ok (.cidr pre)
                    ∧ pre.contains .zero = true := by
  cases h : parseBytes sampleGo openDoc with
  | error e => exact absurd openDoc_accepted (by rw [h]; simp [Except.isOk, Except.toBool])
  | ok cfg =>
    have hdefault : cfg.router.unknownSource = "default" :=
      (Except.ok.inj ((parseBytes_eq_ok_iff sampleGo).mp h).unknownSource).symm
    exact ⟨cfg, rfl, hdefault,
      (unknown_caller_confined (W := Unit) h {} { traffic := .eastWest } rfl rfl).2.2 hdefault⟩

end Hypergate.Routing
