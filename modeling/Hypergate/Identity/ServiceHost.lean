import Hypergate.Identity.Index
import Hypergate.Routing.Names

/-!
# Services by host name (`ServiceFromHost` in `internal/identity/index.go`)

A Service is known under `name.namespace`, and with `.svc` or `.svc.cluster.local` behind
it. The lookup trims the two endings one after the other, whatever stands before them:
it also finds a Service under `name.namespace.cluster.local`, and of a Service in a
namespace called `svc` it trims the namespace.

* `serviceFromHost_eq_some_iff` — the hosts under which a Service is found.
-/

namespace Hypergate.Identity

open Lib Routing

/-! ## Hosts of a Service -/

/-- `name.namespace`. -/
def Service.shortHost (s : Service) : String := s.name ++ "." ++ s.namespace

/-- The names a Service has in the cluster. -/
def Service.hosts (s : Service) : List String :=
  [s.shortHost, s.shortHost ++ ".svc", s.shortHost ++ ".svc.cluster.local"]

/-- Name and namespace are DNS labels. -/
structure Service.Named (s : Service) : Prop where
  name : validateDNSLabel s.name = .ok ()
  «namespace» : validateDNSLabel s.namespace = .ok ()

namespace Service.Named

variable {s : Service}

theorem name_notMem (h : s.Named) {c : Char} (hc : isLowerAlnum c = false) (hdash : c ≠ '-') :
    c ∉ s.name.toList := (validateDNSLabel_eq_ok_iff.mp h.name).notMem hc hdash

theorem namespace_notMem (h : s.Named) {c : Char} (hc : isLowerAlnum c = false)
    (hdash : c ≠ '-') : c ∉ s.namespace.toList :=
  (validateDNSLabel_eq_ok_iff.mp h.namespace).notMem hc hdash

/-- The namespace is the last label of the short host. -/
theorem shortHost_suffix_iff (h : s.Named) (last : String) (hlast : '.' ∉ last.toList) :
    ("." ++ last).toList <:+ s.shortHost.toList ↔ s.namespace = last := by
  have hhost : s.shortHost.toList = s.name.toList ++ '.' :: s.namespace.toList := by
    simp [Service.shortHost]
  have hend : ("." ++ last).toList = '.' :: last.toList := by simp
  rw [hhost, hend]
  constructor
  · rintro ⟨l, hl⟩
    obtain ⟨-, heq⟩ := append_sep_inj hlast (h.namespace_notMem rfl (by decide)) hl
    exact (String.toList_inj.mp heq).symm
  · rintro rfl
    exact ⟨s.name.toList, rfl⟩

theorem not_clusterLocal_suffix (h : s.Named) :
    ¬ ".cluster.local".toList <:+ s.shortHost.toList := by
  rintro ⟨l, hl⟩
  have hhost : s.shortHost.toList = s.name.toList ++ '.' :: s.namespace.toList := by
    simp [Service.shortHost]
  have hend : l ++ ".cluster.local".toList = (l ++ ".cluster".toList) ++ '.' :: "local".toList := by
    simp
  rw [hhost, hend] at hl
  obtain ⟨hname, -⟩ := append_sep_inj (by decide) (h.namespace_notMem rfl (by decide)) hl
  refine h.name_notMem (c := '.') rfl (by decide) ?_
  rw [← hname]
  simp

theorem not_clusterLocal_suffix_svc :
    ¬ ".cluster.local".toList <:+ (s.shortHost ++ ".svc").toList := by
  rintro ⟨l, hl⟩
  have hleft : l ++ ".cluster.local".toList
      = (l ++ ".cluster".toList) ++ '.' :: "local".toList := by simp
  have hright : (s.shortHost ++ ".svc").toList = s.shortHost.toList ++ '.' :: "svc".toList := by
    simp
  rw [hleft, hright] at hl
  obtain ⟨-, hlast⟩ := append_sep_inj (by decide) (by decide) hl
  cases hlast

/-- What the two trimmings turn into the short host. -/
theorem trimmed_iff (h : s.Named) {host : String} :
    trimSuffix (trimSuffix host ".cluster.local") ".svc" = s.shortHost
      ↔ host = s.shortHost ++ ".svc.cluster.local" ∨ host = s.shortHost ++ ".svc"
        ∨ s.namespace ≠ "svc"
          ∧ (host = s.shortHost ++ ".cluster.local" ∨ host = s.shortHost) := by
  have hsvc : ".svc".toList <:+ s.shortHost.toList ↔ s.namespace = "svc" :=
    h.shortHost_suffix_iff "svc" (by decide)
  have hlong : s.shortHost ++ ".svc" ++ ".cluster.local" = s.shortHost ++ ".svc.cluster.local" := by
    rw [String.append_assoc]
    rfl
  rw [trimSuffix_eq_iff, trimSuffix_eq_iff, trimSuffix_eq_iff, hsvc, hlong]
  simp only [h.not_clusterLocal_suffix, not_clusterLocal_suffix_svc, not_false_eq_true, and_true]
  rw [or_assoc, and_comm (b := ¬ s.namespace = "svc")]

end Service.Named

/-! ## The lookup -/

namespace Index

variable {x : Index} {s : Service} {host : String}

/-- The Service is in the index. -/
def Holds (x : Index) (s : Service) : Prop :=
  ∃ key stored, x.services.lookup key = some stored ∧ stored.service = s

/-- Services are stored under `namespace/name`, and both parts are DNS labels. -/
def WellNamed (x : Index) : Prop :=
  ∀ key stored, x.services.lookup key = some stored →
    key = stored.service.key ∧ stored.service.Named

theorem Holds.named (h : x.Holds s) (hx : x.WellNamed) : s.Named := by
  obtain ⟨key, stored, hstored, rfl⟩ := h
  exact (hx key stored hstored).2

/-- The key of a Service tells its namespace from its name. -/
theorem key_eq_iff (hs : s.Named) {ns name : String} :
    ns ++ "/" ++ name = s.key ↔ ns = s.namespace ∧ name = s.name := by
  constructor
  · intro h
    have hlist : ns.toList ++ '/' :: name.toList
        = s.namespace.toList ++ '/' :: s.name.toList := by
      simpa [Service.key] using congrArg String.toList h
    -- the key has one slash only
    have hcount := congrArg (List.count '/') hlist
    have hnamespace := List.count_eq_zero.mpr (hs.namespace_notMem (c := '/') rfl (by decide))
    have hname := List.count_eq_zero.mpr (hs.name_notMem (c := '/') rfl (by decide))
    simp only [List.count_append, List.count_cons_self, hnamespace, hname] at hcount
    have hnot : '/' ∉ name.toList := List.count_eq_zero.mp (by omega)
    obtain ⟨hl, hr⟩ := append_sep_inj hnot (hs.name_notMem rfl (by decide)) hlist
    exact ⟨String.toList_inj.mp hl, String.toList_inj.mp hr⟩
  · rintro ⟨rfl, rfl⟩
    rfl

theorem service_eq_some_iff (hx : x.WellNamed) {ns name : String} :
    x.service ns name = some s ↔ x.Holds s ∧ ns = s.namespace ∧ name = s.name := by
  unfold service
  rw [Option.map_eq_some_iff]
  constructor
  · rintro ⟨stored, hstored, rfl⟩
    obtain ⟨hkey, hnamed⟩ := hx _ stored hstored
    exact ⟨⟨_, stored, hstored, rfl⟩, (key_eq_iff hnamed).mp hkey⟩
  · rintro ⟨⟨key, stored, hstored, rfl⟩, rfl, rfl⟩
    obtain ⟨rfl, -⟩ := hx key stored hstored
    exact ⟨stored, hstored, rfl⟩

/-- A Service is found under the hosts that are trimmed to its short one. -/
theorem serviceFromHost_eq_some_iff (hx : x.WellNamed) :
    x.serviceFromHost host = some s
      ↔ x.Holds s
        ∧ trimSuffix (trimSuffix host ".cluster.local") ".svc" = s.shortHost := by
  unfold serviceFromHost
  constructor
  · intro h
    split at h
    · cases h
    cases hcut : cut '.' (trimSuffix (trimSuffix host ".cluster.local") ".svc") with
    | none =>
      rw [hcut] at h
      cases h
    | some e =>
      rw [hcut] at h
      dsimp only at h
      split at h
      · cases h
      obtain ⟨hholds, hns, hname⟩ := (service_eq_some_iff hx).mp h
      refine ⟨hholds, (cut_eq_some_iff.mp hcut).1.trans ?_⟩
      rw [hns, hname]
      rfl
  · rintro ⟨hholds, htrim⟩
    have hnamed := hholds.named hx
    have hdot : '.' ∉ s.name.toList := hnamed.name_notMem rfl (by decide)
    have hhost : host ≠ "" := by
      rintro rfl
      have hempty : s.shortHost = "" := htrim.symm
      exact absurd (congrArg String.toList hempty) (by simp [Service.shortHost])
    have hcut : cut '.' s.shortHost = some (s.name, s.namespace) := cut_append hdot
    have hplain : ¬ (s.name = "" ∨ s.namespace = "" ∨ '.' ∈ s.namespace.toList) := by
      rw [not_or, not_or]
      exact ⟨(validateDNSLabel_eq_ok_iff.mp hnamed.name).nonempty,
        (validateDNSLabel_eq_ok_iff.mp hnamed.namespace).nonempty,
        hnamed.namespace_notMem rfl (by decide)⟩
    rw [if_neg hhost, htrim, hcut]
    dsimp only
    rw [if_neg hplain]
    exact (service_eq_some_iff hx).mpr ⟨hholds, rfl, rfl⟩

/-- The lookup finds the Services whose host this is, and nothing else. -/
def HostRight (x : Index) (host : String) : Prop :=
  ∀ s, x.serviceFromHost host = some s ↔ x.Holds s ∧ host ∈ s.hosts

/-- A host is looked up right unless it is the short host of a Service in a namespace
`svc`, or adds `.cluster.local` to the short host of any other Service. -/
theorem service_from_host_right_iff (x : Index) (hx : x.WellNamed) (host : String) :
    x.HostRight host
      ↔ ∀ s, x.Holds s → (s.namespace = "svc" → host ≠ s.shortHost)
          ∧ (s.namespace ≠ "svc" → host ≠ s.shortHost ++ ".cluster.local") := by
  have hfound : ∀ s, x.serviceFromHost host = some s ↔ x.Holds s
      ∧ (host = s.shortHost ++ ".svc.cluster.local" ∨ host = s.shortHost ++ ".svc"
        ∨ s.namespace ≠ "svc"
          ∧ (host = s.shortHost ++ ".cluster.local" ∨ host = s.shortHost)) := by
    intro s
    rw [serviceFromHost_eq_some_iff hx]
    exact and_congr_right fun hholds => (hholds.named hx).trimmed_iff
  -- endings of different lengths give different hosts
  have hends : ∀ (s : Service) (a b : String), a.length ≠ b.length →
      s.shortHost ++ a ≠ s.shortHost ++ b := by
    intro s a b hne heq
    have hlen := congrArg String.length heq
    rw [String.length_append, String.length_append] at hlen
    omega
  constructor
  · intro hright s hholds
    have hshort : s.shortHost = s.shortHost ++ "" := (String.append_empty).symm
    constructor
    · rintro hsvc rfl
      have hsome := (hright s).mpr ⟨hholds, by simp [Service.hosts]⟩
      rcases ((hfound s).mp hsome).2 with h | h | ⟨hne, -⟩
      · exact hends s _ _ (by decide) (hshort.symm.trans h)
      · exact hends s _ _ (by decide) (hshort.symm.trans h)
      · exact hne hsvc
    · rintro hsvc rfl
      have hsome := (hfound s).mpr ⟨hholds, .inr (.inr ⟨hsvc, .inl rfl⟩)⟩
      have hmem := ((hright s).mp hsome).2
      simp only [Service.hosts, List.mem_cons, List.not_mem_nil, or_false] at hmem
      rcases hmem with h | h | h
      · exact hends s _ _ (by decide) (h.trans hshort)
      · exact hends s _ _ (by decide) h
      · exact hends s _ _ (by decide) h
  · intro hcond s
    rw [hfound]
    refine and_congr_right fun hholds => ?_
    obtain ⟨hshort, hlocal⟩ := hcond s hholds
    simp only [Service.hosts, List.mem_cons, List.not_mem_nil, or_false]
    constructor
    · rintro (h | h | ⟨hne, h | h⟩)
      · exact .inr (.inr h)
      · exact .inr (.inl h)
      · exact absurd h (hlocal hne)
      · exact .inl h
    · rintro (h | h | h)
      · exact .inr (.inr ⟨fun hsvc => hshort hsvc h, .inr h⟩)
      · exact .inr (.inl h)
      · exact .inl h

/-- A Service `web`, and an index with nothing else. -/
def webService («namespace» : String) : Service :=
  { «namespace», name := "web", clusterIPs := [], ports := [80] }

def webIndex («namespace» : String) : Index where
  services := AList.singleton (webService «namespace»).key
    { ptr := 0, service := webService «namespace» }

theorem webIndex_lookup {ns key : String} {stored : StoredService}
    (h : (webIndex ns).services.lookup key = some stored) :
    key = (webService ns).key ∧ stored.service = webService ns := by
  obtain ⟨rfl, rfl⟩ := Prod.mk.inj (List.mem_singleton.mp (AMap.mem_toList.mpr h))
  exact ⟨rfl, rfl⟩

theorem webIndex_wellNamed {ns : String} (h : validateDNSLabel ns = .ok ()) :
    (webIndex ns).WellNamed := by
  intro key stored hstored
  obtain ⟨rfl, hservice⟩ := webIndex_lookup hstored
  rw [hservice]
  have hname : validateDNSLabel "web" = .ok () := by decide
  exact ⟨rfl, hname, h⟩

theorem service_from_host_right_iff_svc :
    (webIndex "prod").WellNamed ∧ (webIndex "prod").HostRight "web.prod.svc" := by
  have hx : (webIndex "prod").WellNamed := webIndex_wellNamed (by decide)
  refine ⟨hx, (service_from_host_right_iff _ hx _).mpr ?_⟩
  rintro s ⟨key, stored, hstored, rfl⟩
  rw [(webIndex_lookup hstored).2]
  exact ⟨by decide, by decide⟩

/-- `web.prod.cluster.local` is no name of the Service `web` in `prod`, and finds it;
`web.svc` is a name of the one in `svc`, and does not. -/
theorem endings_trimmed_apart :
    ((webIndex "prod").WellNamed ∧ ¬ (webIndex "prod").HostRight "web.prod.cluster.local")
      ∧ (webIndex "svc").WellNamed ∧ ¬ (webIndex "svc").HostRight "web.svc" := by
  refine ⟨⟨webIndex_wellNamed (by decide), ?_⟩, webIndex_wellNamed (by decide), ?_⟩
  · intro hright
    have hfound := (hright (webService "prod")).mp (by decide)
    exact absurd hfound.2 (by decide)
  · intro hright
    have hfound := (hright (webService "svc")).mpr ⟨⟨"svc/web", _, rfl, rfl⟩, by decide⟩
    exact absurd hfound (by decide)

end Index

end Hypergate.Identity
