import Hypergate.Operator.Compiler

/-!
# What the compiler writes

Each loop of `reconcile` in closed form:

- `chains_addChains`, `lookup_chains_addRoutes`, `routes_addRoutes`: the chains and
  routes every config shares.
- `copied_run`: a config that names missing chains gets a copy of the shared map,
  and the shared map stays as it is.
- `lookup_configs`: the config of a namespace is the one of its active HyperConfig,
  whatever else was written before it.
-/

namespace Hypergate.Operator

open Lib Engine Policy Routing

variable {go : GoLib} {codec : SpecCodec} {opts : RouteOptions} {identity : IdentitySettings}
  {c : Cluster} {s : Shared}

/-! ## Filters and chains -/

theorem SpecCodec.readBack_eq_ok {options options' : Options}
    (h : codec.readBack options = .ok options') : options' = options := by
  obtain ⟨text, htext, hread⟩ := of_bind_eq_ok h
  rw [mapError_eq_ok] at htext hread
  exact Except.ok.inj (hread.symm.trans (codec.faithful htext))

variable {chain : HyperChain}

theorem compileChain_eq_ok_iff {filters : List FilterConfig}
    {limits : Option Routing.ChainSettings} :
    compileChain go codec c chain = .ok (filters, limits)
      ↔ List.Forall₂ (fun ref fc => compileFilter codec c chain ref = .ok fc)
          chain.spec.filters filters
        ∧ chainSettings go chain.spec = .ok limits := by
  unfold compileChain
  simp only [bind_eq_ok_iff, mapM_eq_ok_iff]
  constructor
  · intro ⟨filters', hfilters, limits', hlimits, heq⟩
    cases heq
    exact ⟨hfilters, hlimits⟩
  · intro ⟨hfilters, hlimits⟩
    exact ⟨filters, hfilters, limits, hlimits, rfl⟩

/-- What a chain is compiled to. -/
def chainResult (go : GoLib) (codec : SpecCodec) (c : Cluster) (chain : HyperChain) :
    List FilterConfig :=
  match compileChain go codec c chain with
  | .error _ => degradedChain
  | .ok (filters, _) => filters

/-- The limits a chain is compiled to. -/
def limitsResult (go : GoLib) (codec : SpecCodec) (c : Cluster) (chain : HyperChain) :
    Option Routing.ChainSettings :=
  match compileChain go codec c chain with
  | .error _ => none
  | .ok (_, limits) => limits

theorem chainResult_of_error {msg : String} (h : compileChain go codec c chain = .error msg) :
    chainResult go codec c chain = degradedChain := by
  unfold chainResult
  rw [h]

theorem chainResult_of_ok {filters : List FilterConfig} {limits : Option Routing.ChainSettings}
    (h : compileChain go codec c chain = .ok (filters, limits)) :
    chainResult go codec c chain = filters := by
  unfold chainResult
  rw [h]

variable {limits : Routing.ChainSettings}

theorem chainSettings_of_limitsResult (h : limitsResult go codec c chain = some limits) :
    chainSettings go chain.spec = .ok (some limits) := by
  unfold limitsResult at h
  cases hc : compileChain go codec c chain with
  | error msg =>
    rw [hc] at h
    cases h
  | ok result =>
    obtain ⟨filters, limits'⟩ := result
    rw [hc] at h
    cases h
    exact (compileChain_eq_ok_iff.mp hc).2

/-! ## The loop over the chains -/

theorem chains_addChain (chain : HyperChain) :
    (s.addChain go codec c chain).chains
      = s.chains.insert chain.name (chainResult go codec c chain) := by
  unfold Shared.addChain chainResult
  cases compileChain go codec c chain with
  | error msg => rfl
  | ok result => rfl

theorem routes_addChain (chain : HyperChain) :
    (s.addChain go codec c chain).routes = s.routes := by
  unfold Shared.addChain
  cases compileChain go codec c chain with
  | error msg => rfl
  | ok result => rfl

variable {name : String}

theorem of_lookup_limits_addChain
    (h : (s.addChain go codec c chain).limits.lookup name = some limits) :
    s.limits.lookup name = some limits
      ∨ name = chain.name ∧ limitsResult go codec c chain = some limits := by
  unfold Shared.addChain at h
  unfold limitsResult
  cases hc : compileChain go codec c chain with
  | error msg =>
    rw [hc] at h
    exact .inl h
  | ok result =>
    obtain ⟨filters, limits'⟩ := result
    rw [hc] at h
    cases limits' with
    | none => exact .inl h
    | some limits' =>
      have hl : (s.limits.insert chain.name limits').lookup name = some limits := h
      rw [AMap.lookup_insert_ite] at hl
      by_cases hk : name = chain.name
      · rw [if_pos hk] at hl
        exact .inr ⟨hk, hl⟩
      · rw [if_neg hk] at hl
        exact .inl hl

theorem chains_addChains (l : List HyperChain) :
    (l.foldl (Shared.addChain go codec c) s).chains
      = s.chains.insertAll (l.map fun chain => (chain.name, chainResult go codec c chain)) := by
  induction l generalizing s with
  | nil => rfl
  | cons chain l ih =>
    rw [List.foldl_cons, ih, chains_addChain]
    rfl

theorem routes_addChains (l : List HyperChain) :
    (l.foldl (Shared.addChain go codec c) s).routes = s.routes := by
  induction l generalizing s with
  | nil => rfl
  | cons chain l ih => rw [List.foldl_cons, ih, routes_addChain]

theorem of_lookup_limits_addChains {l : List HyperChain}
    (h : (l.foldl (Shared.addChain go codec c) s).limits.lookup name = some limits) :
    s.limits.lookup name = some limits
      ∨ ∃ chain ∈ l, name = chain.name ∧ limitsResult go codec c chain = some limits := by
  induction l generalizing s with
  | nil => exact .inl h
  | cons chain l ih =>
    rcases ih h with hs | ⟨chain', hmem, hresult⟩
    · rcases of_lookup_limits_addChain hs with hs | hresult
      · exact .inl hs
      · exact .inr ⟨chain, List.mem_cons_self, hresult⟩
    · exact .inr ⟨chain', List.mem_cons_of_mem _ hmem, hresult⟩

/-! ## The loop over the routes -/

/-- The engine's route of a HyperRoute, if it is accepted. -/
def routeResult (go : GoLib) (opts : RouteOptions) (route : HyperRoute) : Option RouteConfig :=
  match route.spec.compile go opts with
  | .error _ => none
  | .ok entries =>
    some { name := route.name, targetChain := route.spec.targetPolicy, «matches» := entries }

theorem routeResult_eq_some_iff {route : HyperRoute} {r : RouteConfig} :
    routeResult go opts route = some r
      ↔ ∃ ms, route.spec.compile go opts = .ok ms
        ∧ r = { name := route.name, targetChain := route.spec.targetPolicy, «matches» := ms } := by
  unfold routeResult
  cases route.spec.compile go opts with
  | error msg => simp
  | ok ms => simp [eq_comm]

/-- What one route does: it is left out, or it is added and its chain defined. -/
theorem addRoute_cases (go : GoLib) (opts : RouteOptions) (s : Shared) (route : HyperRoute) :
    routeResult go opts route = none
        ∧ (s.addRoute go opts route).chains = s.chains
        ∧ (s.addRoute go opts route).routes = s.routes
      ∨ ∃ r, routeResult go opts route = some r
        ∧ (s.addRoute go opts route).routes = s.routes ++ [r]
        ∧ ∀ name, (s.addRoute go opts route).chains.lookup name
          = (s.chains.lookup name).or
            (if name = r.targetChain then some degradedChain else none) := by
  unfold Shared.addRoute routeResult
  cases route.spec.compile go opts with
  | error msg => exact .inl ⟨rfl, rfl, rfl⟩
  | ok ms =>
    refine .inr ⟨_, rfl, rfl, fun name => ?_⟩
    by_cases hmissing : s.chains.lookup route.spec.targetPolicy = none
    · rw [if_pos hmissing, AMap.lookup_insert_ite]
      by_cases hname : name = route.spec.targetPolicy
      · rw [if_pos hname, if_pos hname, hname, hmissing]
        rfl
      · rw [if_neg hname, if_neg hname, Option.or_none]
    · rw [if_neg hmissing]
      by_cases hname : name = route.spec.targetPolicy
      · obtain ⟨fcs, hfcs⟩ := Option.ne_none_iff_exists'.mp hmissing
        rw [hname, hfcs]
        rfl
      · rw [if_neg hname, Option.or_none]

theorem limits_addRoute (route : HyperRoute) :
    (s.addRoute go opts route).limits = s.limits := by
  unfold Shared.addRoute
  cases route.spec.compile go opts with
  | error msg => rfl
  | ok ms => rfl

theorem limits_addRoutes (l : List HyperRoute) :
    (l.foldl (Shared.addRoute go opts) s).limits = s.limits := by
  induction l generalizing s with
  | nil => rfl
  | cons route l ih => rw [List.foldl_cons, ih, limits_addRoute]

theorem routes_addRoutes (l : List HyperRoute) :
    (l.foldl (Shared.addRoute go opts) s).routes
      = s.routes ++ l.filterMap (routeResult go opts) := by
  induction l generalizing s with
  | nil => simp
  | cons route l ih =>
    rw [List.foldl_cons, ih]
    rcases addRoute_cases go opts s route with
      ⟨hnone, -, hroutes⟩ | ⟨r, hsome, hroutes, -⟩
    · rw [hroutes, List.filterMap_cons_none hnone]
    · rw [hroutes, List.filterMap_cons_some hsome, List.append_assoc]
      rfl

/-- The chains that accepted routes name. -/
def targets (go : GoLib) (opts : RouteOptions) (l : List HyperRoute) : List String :=
  (l.filterMap (routeResult go opts)).map RouteConfig.targetChain

/-- The chains after the routes: as they were, and deny-all where a route names a
chain that is missing. -/
theorem lookup_chains_addRoutes (l : List HyperRoute) (name : String) :
    (l.foldl (Shared.addRoute go opts) s).chains.lookup name
      = (s.chains.lookup name).or
          (if name ∈ targets go opts l then some degradedChain else none) := by
  induction l generalizing s with
  | nil => simp [targets]
  | cons route l ih =>
    rw [List.foldl_cons, ih]
    unfold targets
    rcases addRoute_cases go opts s route with
      ⟨hnone, hchains, -⟩ | ⟨r, hsome, -, hchains⟩
    · rw [hchains, List.filterMap_cons_none hnone]
    · rw [hchains, List.filterMap_cons_some hsome, List.map_cons]
      cases s.chains.lookup name with
      | some fcs => rfl
      | none =>
        by_cases hname : name = r.targetChain
        · simp [hname]
        · rw [if_neg hname]
          exact if_congr (by rw [List.mem_cons, or_iff_right hname]) rfl rfl

/-! ## The shared chains -/

theorem lookup_shared_of_mem (h : chain ∈ c.chains.items) (sorted : List HyperRoute) :
    (compileShared go codec opts c sorted).chains.lookup chain.name
      = some (chainResult go codec c chain) := by
  unfold compileShared
  rw [lookup_chains_addRoutes, chains_addChains, c.chains.lookup_insertAll _ _ h]
  rfl

theorem lookup_shared_of_notMem (h : ∀ chain ∈ c.chains.items, chain.name ≠ name)
    (sorted : List HyperRoute) :
    (compileShared go codec opts c sorted).chains.lookup name
      = if name ∈ targets go opts sorted then some degradedChain else none := by
  unfold compileShared
  rw [lookup_chains_addRoutes, chains_addChains, c.chains.lookup_insertAll_of_notMem _ _ h]
  rfl

theorem routes_shared (sorted : List HyperRoute) :
    (compileShared go codec opts c sorted).routes = sorted.filterMap (routeResult go opts) := by
  unfold compileShared
  rw [routes_addRoutes, routes_addChains]
  rfl

theorem of_lookup_limits_shared {sorted : List HyperRoute}
    (h : (compileShared go codec opts c sorted).limits.lookup name = some limits) :
    ∃ chain ∈ c.chains.items, name = chain.name
      ∧ limitsResult go codec c chain = some limits := by
  unfold compileShared at h
  rw [limits_addRoutes] at h
  exact (of_lookup_limits_addChains h).resolve_left (by simp)

/-! ## The copied chain map -/

/-- The two variables after some chains have been added: the shared map is as it
was, and `chains` is the same map or a larger one. -/
structure Copied (shared : AMap String (List FilterConfig)) (added : List String)
    (m : ChainMaps) : Prop where
  shared_eq : m.shared = shared
  own : m.own = none
    ∨ ∃ own, m.own = some own ∧ shared.entries.length < own.entries.length
  lookup : ∀ name, m.chains.lookup name
    = (shared.lookup name).or (if name ∈ added then some degradedChain else none)

section Copied

variable {shared : AMap String (List FilterConfig)} {added : List String} {m : ChainMaps}

theorem Copied.init (shared : AMap String (List FilterConfig)) : Copied shared [] { shared } where
  shared_eq := rfl
  own := .inl rfl
  lookup name := by simp [ChainMaps.chains]

theorem Copied.setDegraded (h : Copied shared added m) {name : String}
    {own : AMap String (List FilterConfig)} (hown : ∀ n, own.lookup n = m.chains.lookup n)
    (hlength : shared.entries.length < (own.insert name degradedChain).entries.length)
    (hmissing : shared.lookup name = none) :
    Copied shared (added ++ [name]) ({ m with own := some own : ChainMaps }.setDegraded name) where
  shared_eq := h.shared_eq
  own := .inr ⟨_, rfl, hlength⟩
  lookup n := by
    show (own.insert name degradedChain).lookup n = _
    rw [AMap.lookup_insert_ite, hown, h.lookup]
    by_cases hn : n = name
    · rw [if_pos hn, hn, hmissing]
      simp
    · simp [hn]

theorem Copied.addMissing (h : Copied shared added m) (name : String) :
    Copied shared (added ++ [name]) (m.addMissing name) := by
  unfold ChainMaps.addMissing
  by_cases hin : m.shared.lookup name ≠ none
  · rw [if_pos hin]
    refine ⟨h.shared_eq, h.own, fun n => ?_⟩
    rw [h.lookup]
    by_cases hn : n = name
    · rw [h.shared_eq, ← hn] at hin
      obtain ⟨fcs, hfcs⟩ := Option.ne_none_iff_exists'.mp hin
      rw [hfcs]
      rfl
    · simp [hn]
  · rw [if_neg hin]
    have hmissing : shared.lookup name = none := by
      rw [← h.shared_eq]
      exact not_not.mp hin
    rcases h.own with hnone | ⟨own, hsome, hlength⟩
    · -- the first chain that is added: both variables are the shared map
      have hchains : m.chains = m.shared := by
        unfold ChainMaps.chains
        rw [hnone]
        rfl
      rw [if_pos (by rw [hchains])]
      refine h.setDegraded (by rw [hchains]; exact fun _ => rfl) ?_ hmissing
      rw [h.shared_eq, AMap.length_insert_of_none hmissing]
      omega
    · have hchains : m.chains = own := by
        unfold ChainMaps.chains
        rw [hsome]
        rfl
      rw [if_neg (by rw [hchains, h.shared_eq]; omega)]
      have hm : m = { m with own := some own } := by rw [← hsome]
      rw [hm]
      refine h.setDegraded (by rw [hchains]; exact fun _ => rfl) ?_ hmissing
      have hgrows := AMap.length_le_insert own name degradedChain
      omega

theorem copied_run (h : Copied shared added m) (l : List String) :
    Copied shared (added ++ l) (l.foldl ChainMaps.addMissing m) := by
  induction l generalizing added m with
  | nil =>
    rw [List.append_nil]
    exact h
  | cons name l ih =>
    rw [show added ++ name :: l = (added ++ [name]) ++ l by simp]
    exact ih (h.addMissing name)

end Copied

/-! ## The chains a HyperConfig names -/

theorem lookup_addReference_ne_none {refs : AMap String String} {ref : String × String} :
    (addReference refs ref).lookup name ≠ none
      ↔ refs.lookup name ≠ none ∨ name ≠ "" ∧ name = ref.2 := by
  unfold addReference
  by_cases hadd : ref.2 ≠ "" ∧ refs.lookup ref.2 = none
  · rw [if_pos hadd, AMap.lookup_insert_ite]
    by_cases hname : name = ref.2
    · simp [hname, hadd.1]
    · simp [hname]
  · rw [if_neg hadd]
    constructor
    · intro h
      exact .inl h
    · intro h
      rcases h with h | ⟨hne, rfl⟩
      · exact h
      · exact fun hnone => hadd ⟨hne, hnone⟩

theorem lookup_addReferences_ne_none {l : List (String × String)} {refs : AMap String String} :
    (l.foldl addReference refs).lookup name ≠ none
      ↔ refs.lookup name ≠ none ∨ name ≠ "" ∧ name ∈ l.map Prod.snd := by
  induction l generalizing refs with
  | nil => simp
  | cons ref l ih =>
    rw [List.foldl_cons, ih, lookup_addReference_ne_none, List.map_cons, List.mem_cons]
    tauto

theorem mem_keys_referencedChains {spec : HyperConfigSpec} :
    name ∈ (referencedChains spec).keys
      ↔ name ≠ "" ∧ name ∈ spec.chainFields.map Prod.snd := by
  have hkeys : name ∈ (referencedChains spec).keys
      ↔ (referencedChains spec).lookup name ≠ none := by
    rw [← Option.isSome_iff_ne_none, AList.lookup_isSome]
    exact AList.mem_keys.symm
  rw [hkeys]
  unfold referencedChains
  rw [lookup_addReferences_ne_none]
  simp

/-- The chains of the config of a HyperConfig. -/
def chainsFor (shared : AMap String (List FilterConfig)) (hc : HyperConfig) :
    AMap String (List FilterConfig) :=
  ((referencedChains hc.spec).keys.foldl ChainMaps.addMissing { shared }).chains

/-- The shared chains, and deny-all where the HyperConfig names a missing chain. -/
theorem lookup_chainsFor (shared : AMap String (List FilterConfig)) (hc : HyperConfig)
    (name : String) :
    (chainsFor shared hc).lookup name
      = (shared.lookup name).or (if name ≠ "" ∧ name ∈ hc.spec.chainFields.map Prod.snd
          then some degradedChain else none) := by
  have hcopied := copied_run (Copied.init shared) (referencedChains hc.spec).keys
  unfold chainsFor
  rw [hcopied.lookup, List.nil_append]
  exact congrArg _ (if_congr mem_keys_referencedChains rfl rfl)

/-! ## The active HyperConfigs -/

theorem lookup_claimNamespaces {l : List HyperConfig}
    {acc : AMap String HyperConfig × AMap String String} (ns : String) :
    (l.foldl claimNamespace acc).1.lookup ns
      = (acc.1.lookup ns).or (l.find? fun hc => decide (targetNamespaceOf hc = ns)) := by
  induction l generalizing acc with
  | nil => simp
  | cons hc l ih =>
    rw [List.foldl_cons, ih]
    by_cases hns : targetNamespaceOf hc = ns
    · rw [List.find?_cons_of_pos (by simpa using hns)]
      unfold claimNamespace
      rw [hns]
      cases hacc : acc.1.lookup ns with
      | some owner => simp [hacc]
      | none => simp
    · rw [List.find?_cons_of_neg (by simpa using hns)]
      unfold claimNamespace
      cases acc.1.lookup (targetNamespaceOf hc) with
      | some owner => rfl
      | none =>
        rw [AMap.lookup_insert_ite, if_neg (Ne.symm hns)]

/-- The HyperConfig that owns a namespace: the first of that namespace in order. -/
theorem lookup_active (items : List HyperConfig) (ns : String) :
    (activeHyperConfigs items).1.lookup ns
      = (items.insertionSort fun a b => b.less a = false).find?
          fun hc => decide (targetNamespaceOf hc = ns) := by
  unfold activeHyperConfigs
  rw [lookup_claimNamespaces]
  simp

theorem of_lookup_active {items : List HyperConfig} {ns : String} {hc : HyperConfig}
    (h : (activeHyperConfigs items).1.lookup ns = some hc) :
    hc ∈ items ∧ targetNamespaceOf hc = ns := by
  rw [lookup_active] at h
  have hmem := List.mem_of_find?_eq_some h
  rw [List.mem_insertionSort] at hmem
  exact ⟨hmem, by simpa using List.find?_some h⟩

theorem exists_active {items : List HyperConfig} {hc : HyperConfig} (h : hc ∈ items) :
    ∃ owner, (activeHyperConfigs items).1.lookup (targetNamespaceOf hc) = some owner := by
  rw [lookup_active]
  refine Option.isSome_iff_exists.mp (List.find?_isSome.mpr ⟨hc, ?_, by simp⟩)
  rw [List.mem_insertionSort]
  exact h

/-! ## The loop over the HyperConfigs -/

/-- The config of the namespace of a HyperConfig. -/
def configFor (identity : IdentitySettings) (c : Cluster) (s : Shared) (hc : HyperConfig) :
    Routing.Config :=
  engineConfig identity c s (chainsFor s.chains hc) hc

/-- No config changes what the next one starts from. -/
theorem add_eq {w : Written} (h : w.shared = s.chains) (e : String × HyperConfig) :
    w.add identity c s e
      = { shared := s.chains, configs := w.configs.insert e.1 (configFor identity c s e.2) } := by
  have hcopied := copied_run (Copied.init s.chains) (referencedChains e.2.spec).keys
  unfold Written.add
  rw [h]
  dsimp only
  rw [hcopied.shared_eq]
  rfl

theorem configs_add (l : List (String × HyperConfig)) {w : Written} (h : w.shared = s.chains) :
    (l.foldl (Written.add identity c s) w).configs
      = w.configs.insertAll (l.map fun e => (e.1, configFor identity c s e.2)) := by
  induction l generalizing w with
  | nil => rfl
  | cons e l ih =>
    rw [List.foldl_cons, add_eq h, ih rfl]
    rfl

/-- The config of a namespace is the one of the HyperConfig that owns it. -/
theorem lookup_configs (sorted : List HyperRoute) (ns : String) :
    (reconcile go codec identity c sorted).configs.lookup ns
      = ((activeHyperConfigs c.hyperConfigs.items).1.lookup ns).map
          (configFor identity c (compileShared go codec ⟨identity.enabled⟩ c sorted)) := by
  unfold reconcile
  by_cases hempty : c.hyperConfigs.items = []
  · rw [if_pos hempty, hempty]
    rfl
  · rw [if_neg hempty]
    dsimp only
    rw [configs_add _ rfl, AMap.lookup_insertAll_toList (fun _ hc =>
      configFor identity c (compileShared go codec ⟨identity.enabled⟩ c sorted) hc)]

end Hypergate.Operator
