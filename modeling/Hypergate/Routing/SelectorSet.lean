import Hypergate.Routing.Selector

/-!
# Compiled selector lists (`internal/selector/selector.go`)

`compile` sorts the selectors of a list into one `SelectorSet`, and a request is
matched against the set, not against the list. `Selector.matchesSource` and
`Selector.matchesDestination` say what each selector means by itself, and

* `matchSource_foldl`, `matchDestination_foldl` — a set matches exactly when one
  of the selectors in it does;
* `compile_spec` — a list is accepted exactly when each of its entries is, and
  the set holds what the entries say.
-/

namespace Hypergate.Routing

open Lib Identity

structure LabelSelector where
  «namespace» : String
  kv : AMap String String

/-- `labelSelector.matches`. -/
def LabelSelector.matches (l : LabelSelector) (w : Workload) : Bool :=
  if l.namespace ≠ "" ∧ l.namespace ≠ w.namespace then false
  else l.kv.toList.all fun e => w.labels.lookup e.1 = some e.2

/-- `Set`: the selectors of one side. A Go map used as a set is the list of its
keys. -/
structure SelectorSet where
  any : Bool := false
  addrs : List Addr := []
  prefixes : List Prefix := []
  hosts : List String := []
  suffixes : List String := []
  services : List String := []
  namespaces : List String := []
  sas : List String := []
  spiffe : List String := []
  labels : List LabelSelector := []
  external : Bool := false

namespace SelectorSet

/-- The `switch` of `Compile`: one selector goes into the set. -/
def add (s : SelectorSet) : Selector → SelectorSet
  | .any => { s with any := true }
  | .ip addr => { s with addrs := s.addrs ++ [addr] }
  | .cidr pre => { s with prefixes := s.prefixes ++ [pre] }
  | .host host true => { s with suffixes := s.suffixes ++ [host] }
  | .host host false => { s with hosts := s.hosts ++ [host] }
  | .service key => { s with services := s.services ++ [key] }
  | .namespace name => { s with namespaces := s.namespaces ++ [name] }
  | .sa key => { s with sas := s.sas ++ [key] }
  | .spiffe id => { s with spiffe := s.spiffe ++ [id] }
  | .labels ns kv => { s with labels := s.labels ++ [⟨ns, kv⟩] }
  | .external => { s with external := true }

/-- `len(host) > len(suffix) && strings.HasSuffix(host, suffix)`. -/
def hasSuffix (host suffix : String) : Bool :=
  suffix.length < host.length && suffix.toList.isSuffixOf host.toList

/-- `Match`. -/
def matchNetwork (s : SelectorSet) (addr : Addr) (host : String) : Bool :=
  if s.any then true
  else if addr.isValid && (s.addrs.contains addr || s.prefixes.any (·.contains addr)) then true
  else host != "" && (s.hosts.contains host || s.suffixes.any (hasSuffix host))

/-- The workload part of `MatchSource`. -/
def matchWorkload (s : SelectorSet) (w : Workload) : Bool :=
  if !isPod (some w) then false
  else s.namespaces.contains w.namespace
    || s.sas.contains (w.namespace ++ "/" ++ w.serviceAccount)
    || s.spiffe.contains w.spiffeID && w.spiffeID != ""
    || w.services.any s.services.contains
    || s.labels.any (·.matches w)

/-- `MatchSource`; `none` is the nil set. -/
def matchSource (s : Option SelectorSet) (addr : Addr) (w : Option Workload)
    (externalAllowed : Bool) : Bool :=
  match s with
  | none => true
  | some s =>
    if s.any || s.matchNetwork addr "" then true
    else match w with
      | none => s.external && externalAllowed
      | some w => s.matchWorkload w

/-- The namespace of a Service key. -/
def keyNamespace (svc : String) : String := ((cut '/' svc).map Prod.fst).getD svc

def matchDestination (s : Option SelectorSet) (addr : Addr) (host : String)
    (services : List String) : Bool :=
  match s with
  | none => true
  | some s =>
    if s.any || s.matchNetwork addr host then true
    else services.any fun svc =>
      s.services.contains svc || s.namespaces.contains (keyNamespace svc)

end SelectorSet

/-- The loop body of `Compile`. -/
def addRaw (netip : Netip) (side : Side) (allowWorkloads : Bool) (set : SelectorSet)
    (raw : String) : Except String SelectorSet :=
  (parse netip raw side).bind fun sel =>
    if sel.kind.workload && !allowWorkloads then
      .error ("selector " ++ quote raw ++ ": " ++ sel.kind.info.name ++
        " selectors require the workload identity map; enable identity " ++
        "(engine: identity.enabled, operator: the identity server) " ++
        "or use ip:, cidr:, host: or any")
    else .ok (set.add sel)

/-- `Compile`; the nil set stands for an empty list. -/
def compile (netip : Netip) (list : List String) (side : Side) (allowWorkloads : Bool) :
    Except String (Option SelectorSet) :=
  if list.isEmpty then .ok none
  else (list.foldlM (addRaw netip side allowWorkloads) {}).map some

/-! ## What one selector means -/

namespace Selector

/-- The caller at `addr`, known as workload `w`, is one the selector names. -/
def matchesSource (addr : Addr) (w : Option Workload) (externalAllowed : Bool) :
    Selector → Prop
  | .any => True
  | .ip a => addr.isValid = true ∧ addr = a
  | .cidr pre => addr.isValid = true ∧ pre.contains addr = true
  | .host _ _ => False
  | .external => w = none ∧ externalAllowed = true
  | .service key => ∃ p, w = some p ∧ p.kind = .pod ∧ key ∈ p.services
  | .namespace name => ∃ p, w = some p ∧ p.kind = .pod ∧ p.namespace = name
  | .sa key => ∃ p, w = some p ∧ p.kind = .pod ∧ p.namespace ++ "/" ++ p.serviceAccount = key
  | .spiffe id => ∃ p, w = some p ∧ p.kind = .pod ∧ p.spiffeID = id ∧ p.spiffeID ≠ ""
  | .labels ns kv => ∃ p, w = some p ∧ p.kind = .pod ∧ (ns = "" ∨ ns = p.namespace)
      ∧ ∀ k v, kv.lookup k = some v → p.labels.lookup k = some v

/-- The target is one the selector names. -/
def matchesDestination (addr : Addr) (host : String) (services : List String) : Selector → Prop
  | .any => True
  | .ip a => addr.isValid = true ∧ addr = a
  | .cidr pre => addr.isValid = true ∧ pre.contains addr = true
  | .host h true => host ≠ "" ∧ SelectorSet.hasSuffix host h = true
  | .host h false => host ≠ "" ∧ host = h
  | .service key => key ∈ services
  | .namespace name => ∃ svc ∈ services, SelectorSet.keyNamespace svc = name
  | _ => False

end Selector

/-! ## A set is its selectors -/

namespace SelectorSet

variable {s : SelectorSet} {addr : Addr} {host : String}

theorem matchNetwork_iff :
    s.matchNetwork addr host = true
      ↔ s.any = true
        ∨ addr.isValid = true ∧ (addr ∈ s.addrs ∨ ∃ p ∈ s.prefixes, p.contains addr = true)
        ∨ host ≠ "" ∧ (host ∈ s.hosts ∨ ∃ h ∈ s.suffixes, hasSuffix host h = true) := by
  unfold matchNetwork
  by_cases hany : s.any = true
  · simp [hany]
  · by_cases haddr : addr.isValid && (s.addrs.contains addr || s.prefixes.any (·.contains addr))
    · rw [if_neg hany, if_pos haddr]
      simp only [Bool.and_eq_true, Bool.or_eq_true, List.contains_iff_mem, List.any_eq_true]
        at haddr
      simp [haddr]
    · rw [if_neg hany, if_neg haddr]
      simp only [Bool.and_eq_true, Bool.or_eq_true, List.contains_iff_mem, List.any_eq_true]
        at haddr
      simp [hany, haddr]

theorem labels_matches_iff {l : LabelSelector} {w : Workload} :
    l.matches w = true
      ↔ (l.namespace = "" ∨ l.namespace = w.namespace)
        ∧ ∀ k v, l.kv.lookup k = some v → w.labels.lookup k = some v := by
  unfold LabelSelector.matches
  have hall : (l.kv.toList.all fun e => w.labels.lookup e.1 = some e.2) = true
      ↔ ∀ k v, l.kv.lookup k = some v → w.labels.lookup k = some v := by
    rw [List.all_eq_true]
    constructor
    · intro h k v hk
      simpa using h (k, v) (AMap.mem_toList.mpr hk)
    · intro h e he
      simpa using h e.1 e.2 (AMap.mem_toList.mp he)
  by_cases hns : l.namespace ≠ "" ∧ l.namespace ≠ w.namespace
  · rw [if_pos hns]
    simp [hns.1, hns.2]
  · rw [if_neg hns, hall]
    have hor : l.namespace = "" ∨ l.namespace = w.namespace := by
      by_cases hempty : l.namespace = ""
      · exact .inl hempty
      · exact .inr (by_contra fun hne => hns ⟨hempty, hne⟩)
    simp [hor]

theorem matchWorkload_iff {w : Workload} :
    s.matchWorkload w = true
      ↔ w.kind = .pod
        ∧ (w.namespace ∈ s.namespaces ∨ w.namespace ++ "/" ++ w.serviceAccount ∈ s.sas
          ∨ w.spiffeID ∈ s.spiffe ∧ w.spiffeID ≠ "" ∨ (∃ svc ∈ w.services, svc ∈ s.services)
          ∨ ∃ l ∈ s.labels, l.matches w = true) := by
  unfold matchWorkload isPod
  by_cases hpod : w.kind = .pod
  · simp [hpod, or_assoc]
  · simp [hpod]

variable {externalAllowed : Bool} {w : Option Workload}

theorem matchSource_some_iff :
    matchSource (some s) addr w externalAllowed = true
      ↔ s.matchNetwork addr "" = true ∨ w = none ∧ s.external = true ∧ externalAllowed = true
        ∨ ∃ p, w = some p ∧ s.matchWorkload p = true := by
  have hany : s.any = true → s.matchNetwork addr "" = true := fun h => matchNetwork_iff.mpr (.inl h)
  unfold matchSource
  by_cases hnet : s.matchNetwork addr "" = true
  · simp [hnet]
  · have hnot : s.any = false := by
      rw [← Bool.not_eq_true]
      exact fun h => hnet (hany h)
    cases w with
    | none => simp [hnet, hnot]
    | some w => simp [hnet, hnot]

variable {services : List String}

theorem matchDestination_some_iff :
    matchDestination (some s) addr host services = true
      ↔ s.matchNetwork addr host = true
        ∨ ∃ svc ∈ services, svc ∈ s.services ∨ keyNamespace svc ∈ s.namespaces := by
  have hany : s.any = true → s.matchNetwork addr host = true :=
    fun h => matchNetwork_iff.mpr (.inl h)
  unfold matchDestination
  by_cases hnet : s.matchNetwork addr host = true
  · simp [hnet]
  · have hnot : s.any = false := by
      rw [← Bool.not_eq_true]
      exact fun h => hnet (hany h)
    simp [hnet, hnot]

/-- The network part: the alternatives that need no Service. -/
theorem matchNetwork_add (sel : Selector) :
    (s.add sel).matchNetwork addr host = true
      ↔ s.matchNetwork addr host = true ∨ sel.matchesDestination addr host [] := by
  rw [matchNetwork_iff, matchNetwork_iff]
  cases sel with
  | any => simp [add, Selector.matchesDestination]
  | ip a =>
    simp only [add, Selector.matchesDestination, List.mem_append, List.mem_singleton,
      and_or_left]
    exact iff_of_eq (by ac_rfl)
  | cidr pre =>
    simp only [add, Selector.matchesDestination, List.mem_append, List.mem_singleton,
      or_and_right, exists_or, exists_eq_left, and_or_left]
    exact iff_of_eq (by ac_rfl)
  | host h wildcard =>
    cases wildcard with
    | false =>
      simp only [add, Selector.matchesDestination, List.mem_append, List.mem_singleton,
        and_or_left]
      exact iff_of_eq (by ac_rfl)
    | true =>
      simp only [add, Selector.matchesDestination, List.mem_append, List.mem_singleton,
        or_and_right, exists_or, exists_eq_left, and_or_left]
      exact iff_of_eq (by ac_rfl)
  | _ => simp [add, Selector.matchesDestination]

/-- The workload part: the alternatives that say something about a workload. -/
theorem matchWorkload_add {w : Workload} {sel : Selector} (hsel : sel ≠ .any) :
    (s.add sel).matchWorkload w = true
      ↔ s.matchWorkload w = true ∨ sel.matchesSource .zero (some w) false := by
  have hzero : Addr.zero.isValid = false := rfl
  rw [matchWorkload_iff, matchWorkload_iff]
  cases sel with
  | any => exact absurd rfl hsel
  | ip a => simp [add, Selector.matchesSource, hzero]
  | cidr pre => simp [add, Selector.matchesSource, hzero]
  | host h wildcard => cases wildcard <;> simp [add, Selector.matchesSource]
  | external => simp [add, Selector.matchesSource]
  | service key =>
    simp only [add, Selector.matchesSource, List.mem_append, List.mem_singleton, and_or_left,
      exists_or, exists_eq_right, Option.some.injEq, exists_eq_left']
    exact iff_of_eq (by ac_rfl)
  | «namespace» name =>
    simp only [add, Selector.matchesSource, List.mem_append, List.mem_singleton, and_or_left,
      Option.some.injEq, exists_eq_left']
    exact iff_of_eq (by ac_rfl)
  | sa key =>
    simp only [add, Selector.matchesSource, List.mem_append, List.mem_singleton, and_or_left,
      Option.some.injEq, exists_eq_left']
    exact iff_of_eq (by ac_rfl)
  | spiffe id =>
    simp only [add, Selector.matchesSource, List.mem_append, List.mem_singleton, and_or_left,
      or_and_right, Option.some.injEq, exists_eq_left']
    exact iff_of_eq (by ac_rfl)
  | labels ns kv =>
    have hlast : ∀ p, (∃ l ∈ s.labels ++ [⟨ns, kv⟩], l.matches p = true)
        ↔ (∃ l ∈ s.labels, l.matches p = true) ∨ (ns = "" ∨ ns = p.namespace)
          ∧ ∀ k v, kv.lookup k = some v → p.labels.lookup k = some v := by
      intro p
      simp only [List.mem_append, List.mem_singleton, or_and_right, exists_or, exists_eq_left,
        labels_matches_iff]
    simp only [add, Selector.matchesSource, hlast, Option.some.injEq, exists_eq_left']
    simp only [← or_assoc, and_or_left]

/-- A selector names a caller by its address, as an outsider, or as a workload. -/
theorem matchesSource_iff {sel : Selector} (hsel : sel ≠ .any) :
    sel.matchesSource addr w externalAllowed
      ↔ sel.matchesDestination addr "" []
        ∨ (w = none ∧ sel = .external ∧ externalAllowed = true)
        ∨ ∃ p, w = some p ∧ sel.matchesSource .zero (some p) false := by
  have hzero : Addr.zero.isValid = false := rfl
  cases sel with
  | any => exact absurd rfl hsel
  | host h wildcard =>
    cases wildcard <;> simp [Selector.matchesSource, Selector.matchesDestination]
  | _ => simp [Selector.matchesSource, Selector.matchesDestination, hzero]

theorem external_add (sel : Selector) :
    (s.add sel).external = true ↔ s.external = true ∨ sel = .external := by
  cases sel with
  | host h wildcard => cases wildcard <;> simp [add]
  | _ => simp [add]

theorem matchSource_add (sel : Selector) :
    matchSource (some (s.add sel)) addr w externalAllowed = true
      ↔ matchSource (some s) addr w externalAllowed = true
        ∨ sel.matchesSource addr w externalAllowed := by
  by_cases hsel : sel = .any
  · rw [hsel, matchSource_some_iff, matchNetwork_iff]
    simp [add, Selector.matchesSource]
  have hworkload : (∃ p, w = some p ∧ (s.add sel).matchWorkload p = true)
      ↔ (∃ p, w = some p ∧ s.matchWorkload p = true)
        ∨ ∃ p, w = some p ∧ sel.matchesSource .zero (some p) false := by
    simp only [matchWorkload_add hsel, and_or_left, exists_or]
  rw [matchSource_some_iff, matchSource_some_iff, matchNetwork_add, external_add, hworkload,
    matchesSource_iff hsel]
  simp only [and_or_left, or_and_right]
  exact iff_of_eq (by ac_rfl)

/-- A Service is named by its key or by its namespace. -/
theorem matchesDestination_iff (services : List String) (sel : Selector) :
    sel.matchesDestination addr host services
      ↔ sel.matchesDestination addr host []
        ∨ ∃ svc ∈ services, sel = .service svc ∨ sel = .namespace (keyNamespace svc) := by
  cases sel with
  | host h wildcard => cases wildcard <;> simp [Selector.matchesDestination]
  | «namespace» name => simp [Selector.matchesDestination, eq_comm]
  | _ => simp [Selector.matchesDestination]

theorem services_add (sel : Selector) (svc : String) :
    svc ∈ (s.add sel).services ∨ keyNamespace svc ∈ (s.add sel).namespaces
      ↔ (svc ∈ s.services ∨ keyNamespace svc ∈ s.namespaces)
        ∨ (sel = .service svc ∨ sel = .namespace (keyNamespace svc)) := by
  cases sel with
  | host h wildcard => cases wildcard <;> simp [add]
  | service key => simp [add, eq_comm, or_right_comm]
  | «namespace» name => simp [add, eq_comm, or_assoc]
  | _ => simp [add]

theorem matchDestination_add (sel : Selector) :
    matchDestination (some (s.add sel)) addr host services = true
      ↔ matchDestination (some s) addr host services = true
        ∨ sel.matchesDestination addr host services := by
  rw [matchDestination_some_iff, matchDestination_some_iff, matchNetwork_add,
    matchesDestination_iff services sel]
  have hor : ∀ P Q : String → Prop, (∃ svc ∈ services, P svc ∨ Q svc)
      ↔ (∃ svc ∈ services, P svc) ∨ ∃ svc ∈ services, Q svc := by
    intro P Q
    simp only [and_or_left, exists_or]
  rw [exists_congr fun svc => and_congr_right fun _ => services_add sel svc, hor]
  exact or_or_or_comm

/-- A set built from selectors matches a caller exactly when one of them does. -/
theorem matchSource_foldl (sels : List Selector) :
    matchSource (some (sels.foldl add s)) addr w externalAllowed = true
      ↔ matchSource (some s) addr w externalAllowed = true
        ∨ ∃ sel ∈ sels, sel.matchesSource addr w externalAllowed := by
  induction sels generalizing s with
  | nil => simp
  | cons sel sels ih =>
    rw [List.foldl_cons, ih, matchSource_add]
    simp [or_assoc]

theorem matchDestination_foldl (sels : List Selector) :
    matchDestination (some (sels.foldl add s)) addr host services = true
      ↔ matchDestination (some s) addr host services = true
        ∨ ∃ sel ∈ sels, sel.matchesDestination addr host services := by
  induction sels generalizing s with
  | nil => simp
  | cons sel sels ih =>
    rw [List.foldl_cons, ih, matchDestination_add]
    simp [or_assoc]

end SelectorSet

/-! ## Accepted lists -/

/-- An entry of a list is accepted as the selector `sel`. -/
def Accepts (netip : Netip) (side : Side) (allowWorkloads : Bool) (raw : String)
    (sel : Selector) : Prop :=
  parse netip raw side = .ok sel ∧ (sel.kind.workload = true → allowWorkloads = true)

section Compile

variable {netip : Netip} {list : List String} {side : Side} {allowWorkloads : Bool}

theorem addRaw_eq_ok_iff {s o : SelectorSet} {raw : String} :
    addRaw netip side allowWorkloads s raw = .ok o
      ↔ ∃ sel, Accepts netip side allowWorkloads raw sel ∧ o = s.add sel := by
  unfold addRaw Accepts
  constructor
  · intro h
    obtain ⟨sel, hsel, hadd⟩ := of_bind_eq_ok h
    split at hadd
    · cases hadd
    · rename_i hallowed
      exact ⟨sel, ⟨hsel, by simpa using hallowed⟩, (Except.ok.inj hadd).symm⟩
  · rintro ⟨sel, ⟨hsel, hallowed⟩, rfl⟩
    have hstep : ¬ (sel.kind.workload && !allowWorkloads) = true := by simpa using hallowed
    rw [hsel]
    show ite _ _ _ = _
    rw [if_neg hstep]

theorem foldlM_addRaw_spec {s o : SelectorSet} :
    list.foldlM (addRaw netip side allowWorkloads) s = .ok o
      ↔ ∃ sels, List.Forall₂ (Accepts netip side allowWorkloads) list sels
          ∧ o = sels.foldl SelectorSet.add s := by
  induction list generalizing s with
  | nil =>
    constructor
    · intro h
      cases h
      exact ⟨[], .nil, rfl⟩
    · rintro ⟨sels, hsels, rfl⟩
      cases hsels
      rfl
  | cons raw list ih =>
    rw [List.foldlM_cons]
    constructor
    · intro h
      obtain ⟨s', hs', hrest⟩ := of_bind_eq_ok h
      obtain ⟨sel, haccept, rfl⟩ := addRaw_eq_ok_iff.mp hs'
      obtain ⟨sels, hsels, rfl⟩ := ih.mp hrest
      exact ⟨sel :: sels, .cons haccept hsels, rfl⟩
    · rintro ⟨sels, hsels, rfl⟩
      cases hsels with
      | @cons _ sel _ sels haccept hrest =>
        rw [addRaw_eq_ok_iff.mpr ⟨sel, haccept, rfl⟩]
        exact ih.mpr ⟨sels, hrest, rfl⟩

/-- A list is accepted exactly when its entries are, and its set is theirs. -/
theorem compile_spec {o : Option SelectorSet} :
    compile netip list side allowWorkloads = .ok o
      ↔ ∃ sels, List.Forall₂ (Accepts netip side allowWorkloads) list sels
          ∧ o = if list.isEmpty then none else some (sels.foldl SelectorSet.add {}) := by
  unfold compile
  cases list with
  | nil =>
    constructor
    · intro h
      exact ⟨[], .nil, (Except.ok.inj h).symm⟩
    · rintro ⟨-, -, rfl⟩
      rfl
  | cons raw list =>
    constructor
    · intro h
      rw [if_neg (by simp)] at h
      obtain ⟨s, hs, ho⟩ := of_map_eq_ok h
      obtain ⟨sels, hsels, rfl⟩ := foldlM_addRaw_spec.mp hs
      exact ⟨sels, hsels, ho.symm⟩
    · rintro ⟨sels, hsels, rfl⟩
      rw [if_neg (by simp), if_neg (by simp), foldlM_addRaw_spec.mpr ⟨sels, hsels, rfl⟩]
      rfl

/-- Two lists of partners have the same members up to the relation. -/
theorem exists_mem_of_forall₂ {sels : List Selector} {P : Selector → Prop}
    (h : List.Forall₂ (Accepts netip side allowWorkloads) list sels) :
    (∃ sel ∈ sels, P sel) ↔ ∃ raw ∈ list, ∃ sel, parse netip raw side = .ok sel ∧ P sel := by
  induction h with
  | nil => simp
  | @cons raw sel list sels haccept _ ih =>
    simp only [List.mem_cons, exists_eq_or_imp, ih]
    rw [haccept.1]
    simp

variable {o : Option SelectorSet} {addr : Addr}

/-- The caller matches an accepted list exactly when the list is empty or one of
its selectors matches. -/
theorem matchSource_compile (h : compile netip list side allowWorkloads = .ok o)
    {w : Option Workload} {externalAllowed : Bool} :
    SelectorSet.matchSource o addr w externalAllowed = true
      ↔ list = [] ∨ ∃ raw ∈ list, ∃ sel, parse netip raw side = .ok sel
          ∧ sel.matchesSource addr w externalAllowed := by
  obtain ⟨sels, hsels, rfl⟩ := compile_spec.mp h
  rw [← exists_mem_of_forall₂ hsels]
  cases list with
  | nil => simp [SelectorSet.matchSource]
  | cons raw list =>
    show SelectorSet.matchSource (some _) addr w externalAllowed = true ↔ _
    rw [SelectorSet.matchSource_foldl]
    simp [SelectorSet.matchSource_some_iff, SelectorSet.matchNetwork_iff,
      SelectorSet.matchWorkload_iff]

theorem matchDestination_compile (h : compile netip list side allowWorkloads = .ok o)
    {host : String} {services : List String} :
    SelectorSet.matchDestination o addr host services = true
      ↔ list = [] ∨ ∃ raw ∈ list, ∃ sel, parse netip raw side = .ok sel
          ∧ sel.matchesDestination addr host services := by
  obtain ⟨sels, hsels, rfl⟩ := compile_spec.mp h
  rw [← exists_mem_of_forall₂ hsels]
  cases list with
  | nil => simp [SelectorSet.matchDestination]
  | cons raw list =>
    show SelectorSet.matchDestination (some _) addr host services = true ↔ _
    rw [SelectorSet.matchDestination_foldl]
    simp [SelectorSet.matchDestination_some_iff, SelectorSet.matchNetwork_iff]

end Compile

end Hypergate.Routing
