import Hypergate.Operator.PodSpec

/-!
# Names in the engine pod

The API server takes a pod only if its volumes have different names, its containers too,
no container mounts two volumes at one path, and every mount names a volume. All names
and paths of the engine pod begin with a word for their kind, so two of different kinds
never meet; two of one kind carry the name of the filter. Only the Secrets of the
JwtAuthFilters carry two names, joined by a dash in the name of the volume, and a dash
may be part of either: `pod_well_formed_iff`.
-/

namespace Hypergate.Operator

open Lib Policy

/-- What the API server asks of a pod. -/
structure PodSpec.WellFormed (spec : PodSpec) : Prop where
  volumes : (spec.volumes.map (·.name)).Nodup
  containers : (spec.containers.map (·.name)).Nodup
  paths : ∀ c ∈ spec.containers, (c.volumeMounts.map (·.mountPath)).Nodup
  mounted : ∀ c ∈ spec.containers, ∀ m ∈ c.volumeMounts, m.name ∈ spec.volumes.map (·.name)

/-! ## The Secrets of the JwtAuthFilters -/

/-- The Secrets that a filter names. -/
def JwtAuthFilter.secretNames (f : JwtAuthFilter) : List String :=
  (f.localSecretRef.toList ++ f.introspectionAuthSecretRef.toList).map (·.name)

theorem lookup_addItem_ne_none {items : AMap String (List KeyToPath)} {path : String}
    {ref : Option SecretKeyRef} {name : String} :
    (addItem items path ref).lookup name ≠ none ↔
      items.lookup name ≠ none ∨ name ∈ ref.toList.map (·.name) := by
  cases ref with
  | none => simp [addItem]
  | some ref =>
    rw [addItem, AMap.lookup_insert_ite]
    by_cases hn : name = ref.name
    · simp [hn]
    · simp [hn]

theorem mem_secretNames {f : JwtAuthFilter} {name : String} :
    name ∈ f.secretNames ↔ ∃ keys, (jwtSecretItems f).lookup name = some keys := by
  rw [← Option.ne_none_iff_exists', jwtSecretItems, lookup_addItem_ne_none,
    lookup_addItem_ne_none, JwtAuthFilter.secretNames, List.map_append, List.mem_append]
  simp

section Secrets

variable {objs : EngineObjects} (o : objs.BuildOrder)

theorem mem_jwtSecrets {s : JwtSecret} : s ∈ EngineObjects.jwtSecrets o ↔
    ∃ f ∈ objs.jwts.items, f.name = s.filter
      ∧ (jwtSecretItems f).lookup s.secret = some s.keys := by
  unfold EngineObjects.jwtSecrets
  rw [List.mem_flatMap]
  refine exists_congr fun f => and_congr_right fun _ => ?_
  rw [List.mem_map]
  constructor
  · rintro ⟨e, he, rfl⟩
    exact ⟨rfl, (o.jwt f).mem_items.mp he⟩
  · rintro ⟨hname, hkeys⟩
    exact ⟨(s.secret, s.keys), (o.jwt f).mem_items.mpr hkeys, by rw [hname]⟩

theorem nodup_jwtSecrets :
    ((EngineObjects.jwtSecrets o).map fun s => (s.filter, s.secret)).Nodup := by
  unfold EngineObjects.jwtSecrets
  rw [List.map_flatMap, List.nodup_flatMap]
  constructor
  · intro f _
    rw [List.map_map]
    have hkeys : ((o.jwt f).items.map Prod.fst).Nodup := by
      rw [((o.jwt f).perm.map Prod.fst).nodup_iff, AMap.map_fst_toList]
      exact (jwtSecretItems f).keys_nodup
    have hpairs := hkeys.map (f := fun name => (f.name, name)) fun _ _ h => (Prod.mk.inj h).2
    rwa [List.map_map] at hpairs
  · have hnames := List.pairwise_map.mp objs.jwts.nodup
    refine hnames.imp ?_
    intro f f' hne p hp hp'
    obtain ⟨s, hs, rfl⟩ := List.mem_map.mp hp
    obtain ⟨s', hs', heq⟩ := List.mem_map.mp hp'
    obtain ⟨e, -, rfl⟩ := List.mem_map.mp hs
    obtain ⟨e', -, rfl⟩ := List.mem_map.mp hs'
    exact hne (Prod.mk.inj heq).1.symm

/-- Texts of the mounted Secrets are different if they tell the Secrets apart. -/
theorem nodup_map_jwtSecrets_iff (text : JwtSecret → String) :
    ((EngineObjects.jwtSecrets o).map text).Nodup ↔
      ∀ s ∈ EngineObjects.jwtSecrets o, ∀ s' ∈ EngineObjects.jwtSecrets o,
        text s = text s' → s.filter = s'.filter ∧ s.secret = s'.secret := by
  have hnodup := nodup_jwtSecrets o
  rw [List.nodup_map_iff_inj_on (List.Nodup.of_map _ hnodup)]
  refine forall₂_congr fun s hs => forall₂_congr fun s' hs' => imp_congr_right fun _ => ?_
  constructor
  · rintro rfl
    exact ⟨rfl, rfl⟩
  · rintro ⟨hfilter, hsecret⟩
    exact List.inj_on_of_nodup_map hnodup hs hs' (Prod.ext hfilter hsecret)

end Secrets

namespace JwtSecret

theorem volumeName_eq (s : JwtSecret) :
    s.volumeName = "jwt-" ++ (s.filter ++ "-" ++ s.secret) := by
  rw [volumeName, String.append_assoc, String.append_assoc, String.append_assoc]

theorem mountPath_eq (s : JwtSecret) :
    s.mount.mountPath = "/etc/hypergate/secrets/jwt-" ++ (s.filter ++ "/" ++ s.secret) := by
  have hpath : s.mount.mountPath = "/etc/hypergate/secrets/jwt-" ++ s.filter ++ "/" ++ s.secret :=
    rfl
  rw [hpath, String.append_assoc, String.append_assoc, String.append_assoc]

theorem volumeName_inj {s s' : JwtSecret} : s.volumeName = s'.volumeName ↔
    s.filter ++ "-" ++ s.secret = s'.filter ++ "-" ++ s'.secret := by
  rw [volumeName_eq, volumeName_eq, String.append_right_inj]

theorem mountPath_inj {s s' : JwtSecret} : s.mount.mountPath = s'.mount.mountPath ↔
    s.filter ++ "/" ++ s.secret = s'.filter ++ "/" ++ s'.secret := by
  rw [mountPath_eq, mountPath_eq, String.append_right_inj]

theorem allBegin_volumeNames (l : List JwtSecret) : AllBegin "jwt-" (l.map (·.volumeName)) := by
  simp only [volumeName_eq]
  exact allBegin_map _ _ l

theorem allBegin_mountPaths (l : List JwtSecret) :
    AllBegin "/etc/hypergate/secrets/jwt-" (l.map (·.mount.mountPath)) := by
  simp only [mountPath_eq]
  exact allBegin_map _ _ l

end JwtSecret

/-- No two Secrets of the JwtAuthFilters are joined with the names of their filters to
one text, neither by a dash nor by a slash. (The names of Kubernetes objects have no
slash; a dash they may have.) -/
def EngineObjects.JoinedApart (objs : EngineObjects) : Prop :=
  ∀ f ∈ objs.jwts.items, ∀ f' ∈ objs.jwts.items, ∀ s ∈ f.secretNames, ∀ s' ∈ f'.secretNames,
    f.name ++ "-" ++ s = f'.name ++ "-" ++ s' ∨ f.name ++ "/" ++ s = f'.name ++ "/" ++ s' →
      f.name = f'.name ∧ s = s'

theorem joinedApart_iff {objs : EngineObjects} (o : objs.BuildOrder) : objs.JoinedApart ↔
    ((EngineObjects.jwtSecrets o).map (·.volumeName)).Nodup
      ∧ ((EngineObjects.jwtSecrets o).map (·.mount.mountPath)).Nodup := by
  rw [nodup_map_jwtSecrets_iff, nodup_map_jwtSecrets_iff]
  constructor
  · intro h
    have hboth : ∀ s ∈ EngineObjects.jwtSecrets o, ∀ s' ∈ EngineObjects.jwtSecrets o,
        s.volumeName = s'.volumeName ∨ s.mount.mountPath = s'.mount.mountPath →
          s.filter = s'.filter ∧ s.secret = s'.secret := by
      intro s hs s' hs' heq
      obtain ⟨f, hf, hname, hkeys⟩ := (mem_jwtSecrets o).mp hs
      obtain ⟨f', hf', hname', hkeys'⟩ := (mem_jwtSecrets o).mp hs'
      rw [JwtSecret.volumeName_inj, JwtSecret.mountPath_inj, ← hname, ← hname'] at heq
      rw [← hname, ← hname']
      exact h f hf f' hf' s.secret (mem_secretNames.mpr ⟨_, hkeys⟩) s'.secret
        (mem_secretNames.mpr ⟨_, hkeys'⟩) heq
    exact ⟨fun s hs s' hs' heq => hboth s hs s' hs' (.inl heq),
      fun s hs s' hs' heq => hboth s hs s' hs' (.inr heq)⟩
  · rintro ⟨hvolumes, hpaths⟩ f hf f' hf' s hs s' hs' heq
    obtain ⟨keys, hkeys⟩ := mem_secretNames.mp hs
    obtain ⟨keys', hkeys'⟩ := mem_secretNames.mp hs'
    have hmem : ⟨f.name, s, keys⟩ ∈ EngineObjects.jwtSecrets o :=
      (mem_jwtSecrets o).mpr ⟨f, hf, rfl, hkeys⟩
    have hmem' : ⟨f'.name, s', keys'⟩ ∈ EngineObjects.jwtSecrets o :=
      (mem_jwtSecrets o).mpr ⟨f', hf', rfl, hkeys'⟩
    rcases heq with heq | heq
    · exact hvolumes _ hmem _ hmem' (JwtSecret.volumeName_inj.mpr heq)
    · exact hpaths _ hmem _ hmem' (JwtSecret.mountPath_inj.mpr heq)

/-! ## The other names -/

theorem identityVolumes_names (s : IdentitySettings) :
    (identityVolumes s).2.map (·.name) = (identityVolumes s).1.map (·.name)
      ∧ List.Sublist ((identityVolumes s).1.map (·.name)) ["identity-token", "identity-ca"]
      ∧ List.Sublist ((identityVolumes s).2.map (·.mountPath))
        ["/var/run/secrets/hypergate/identity", "/etc/hypergate/identity"] := by
  obtain ⟨enabled, address, serverName, insecure⟩ := s
  cases enabled
  · simp [identityVolumes]
  · cases insecure
    · simp [identityVolumes]
    · simp [identityVolumes]

theorem FirewallObject.rules_names (fw : FirewallObject) :
    fw.rules.map (·.2.name) = fw.rules.map (·.1.name)
      ∧ List.Sublist (fw.rules.map (·.1.name))
        ["fw-rules-cm-" ++ fw.name, "fw-rules-sec-" ++ fw.name]
      ∧ List.Sublist (fw.rules.map (·.2.mountPath))
        ["/etc/firewall/rules/", "/etc/firewall/secrets/"] := by
  unfold FirewallObject.rules
  by_cases hcm : fw.rulesConfigMap = ""
  · by_cases hsec : fw.rulesSecretRef = ""
    · simp [hcm, hsec]
    · simp [hcm, hsec]
  · by_cases hsec : fw.rulesSecretRef = ""
    · simp [hcm, hsec]
    · simp [hcm, hsec]

namespace EngineObjects

variable (objs : EngineObjects)

/-- There is a sidecar to share the sockets with. -/
def shared : Bool := !objs.externalAuths.items.isEmpty || !objs.firewalls.items.isEmpty

/-- The volumes that a pod without JwtAuthFilters has. -/
def fixedNames (identity : IdentitySettings) : List String :=
  (identityVolumes identity).1.map (·.name) ++ (if objs.shared then ["uds-sockets"] else []) ++
    objs.firewalls.items.flatMap fun fw => fw.rules.map (·.1.name)

/-- The paths at which such an engine mounts them. -/
def fixedPaths (identity : IdentitySettings) : List String :=
  (identityVolumes identity).2.map (·.mountPath) ++
    if objs.shared then [udsVolumeMountPath] else []

theorem sublist_shared {p : Bool} {a : String} : List.Sublist (if p then [a] else []) [a] := by
  cases p <;> simp

theorem allBegin_rules (fw : FirewallObject) : AllBegin "fw-" (fw.rules.map (·.1.name)) := by
  intro a ha
  have hmem := fw.rules_names.2.1.subset ha
  rcases List.mem_cons.mp hmem with rfl | hmem
  · exact ⟨"rules-cm-".toList ++ fw.name.toList, by simp [String.toList_append]⟩
  · rw [List.mem_singleton.mp hmem]
    exact ⟨"rules-sec-".toList ++ fw.name.toList, by simp [String.toList_append]⟩

/-- Rules of different firewalls have different volumes. -/
theorem nodup_rules :
    (objs.firewalls.items.flatMap fun fw => fw.rules.map (·.1.name)).Nodup := by
  rw [List.nodup_flatMap]
  constructor
  · intro fw _
    exact List.Nodup.sublist fw.rules_names.2.1 (by simp)
  · refine (List.pairwise_map.mp objs.firewalls.nodup).imp ?_
    intro fw fw' hne a ha ha'
    have hcross := (allBegin_singleton "fw-rules-cm-" fw.name).disjoint
      (allBegin_singleton "fw-rules-sec-" fw'.name) (by decide)
    have hcross' := (allBegin_singleton "fw-rules-cm-" fw'.name).disjoint
      (allBegin_singleton "fw-rules-sec-" fw.name) (by decide)
    have hmem := fw.rules_names.2.1.subset ha
    have hmem' := fw'.rules_names.2.1.subset ha'
    simp only [List.mem_cons, List.not_mem_nil, or_false] at hmem hmem'
    rcases hmem with rfl | rfl <;> rcases hmem' with heq | heq
    · exact hne ((String.append_right_inj _).mp heq)
    · exact hcross _ (by simp) _ (by simp) heq
    · exact hcross' _ (by simp) _ (by simp) heq.symm
    · exact hne ((String.append_right_inj _).mp heq)

theorem head_sublist (identity : IdentitySettings) :
    List.Sublist ((identityVolumes identity).1.map (·.name) ++
      if objs.shared then ["uds-sockets"] else [])
      ["identity-token", "identity-ca", "uds-sockets"] :=
  (identityVolumes_names identity).2.1.append sublist_shared

theorem allBegin_flatMap_rules :
    AllBegin "fw-" (objs.firewalls.items.flatMap fun fw => fw.rules.map (·.1.name)) := by
  intro a ha
  obtain ⟨fw, -, ha⟩ := List.mem_flatMap.mp ha
  exact allBegin_rules fw a ha

theorem nodup_fixedNames (identity : IdentitySettings) : (objs.fixedNames identity).Nodup := by
  refine List.nodup_append.mpr
    ⟨.sublist (objs.head_sublist identity) (by decide), objs.nodup_rules, ?_⟩
  intro a ha
  refine objs.allBegin_flatMap_rules.ne ?_
  have hnot : ∀ a ∈ ["identity-token", "identity-ca", "uds-sockets"],
      ¬ "fw-".toList <+: a.toList := by decide
  exact hnot a ((objs.head_sublist identity).subset ha)

/-- No volume of another kind has the name of a Secret's. -/
theorem fixedNames_ne (identity : IdentitySettings) {l : List String} (hl : AllBegin "jwt-" l) :
    ∀ a ∈ objs.fixedNames identity, ∀ b ∈ l, a ≠ b := by
  intro a ha
  rcases List.mem_append.mp ha with ha | ha
  · have hnot : ∀ a ∈ ["identity-token", "identity-ca", "uds-sockets"],
        ¬ "jwt-".toList <+: a.toList := by decide
    exact hl.ne (hnot a ((objs.head_sublist identity).subset ha))
  · exact objs.allBegin_flatMap_rules.disjoint hl (by decide) a ha

theorem fixedPaths_sublist (identity : IdentitySettings) :
    List.Sublist (objs.fixedPaths identity)
      (["/var/run/secrets/hypergate/identity", "/etc/hypergate/identity"] ++
        [udsVolumeMountPath]) :=
  (identityVolumes_names identity).2.2.append sublist_shared

theorem fixedPaths_ne (identity : IdentitySettings) {l : List String}
    (hl : AllBegin "/etc/hypergate/secrets/jwt-" l) :
    ∀ a ∈ objs.fixedPaths identity, ∀ b ∈ l, a ≠ b := by
  intro a ha
  have hnot : ∀ a ∈ ["/var/run/secrets/hypergate/identity", "/etc/hypergate/identity"] ++
      [udsVolumeMountPath], ¬ "/etc/hypergate/secrets/jwt-".toList <+: a.toList := by
    decide +kernel
  exact hl.ne (hnot a ((objs.fixedPaths_sublist identity).subset ha))

end EngineObjects

/-! ## The pod -/

section Spec

variable (resources : Option Yaml) (engineImage «namespace» : String) (objs : EngineObjects)
  (identity : IdentitySettings) (o : objs.BuildOrder)

theorem volumeNames_eq :
    (buildEnginePodSpec resources engineImage «namespace» objs identity o).volumes.map (·.name) =
      objs.fixedNames identity ++ (EngineObjects.jwtSecrets o).map (·.volumeName) := by
  unfold buildEnginePodSpec EngineObjects.fixedNames EngineObjects.shared
  simp only [List.map_append, List.map_flatMap, List.map_map]
  congr 3
  split <;> rfl

/-- The mounts of the engine container. -/
def engineMounts {objs : EngineObjects} (identity : IdentitySettings) (o : objs.BuildOrder) :
    List VolumeMount :=
  (identityVolumes identity).2 ++ (if objs.shared then [udsMount] else []) ++
    (EngineObjects.jwtSecrets o).map JwtSecret.mount

theorem mountPaths_eq : (engineMounts identity o).map (·.mountPath) =
    objs.fixedPaths identity ++ (EngineObjects.jwtSecrets o).map (·.mount.mountPath) := by
  unfold engineMounts EngineObjects.fixedPaths
  simp only [List.map_append, List.map_map]
  congr 2
  split <;> rfl

theorem containers_eq :
    (buildEnginePodSpec resources engineImage «namespace» objs identity o).containers =
      engineContainer resources engineImage «namespace» (engineMounts identity o) ::
        (objs.externalAuths.items.map ExternalAuthObject.sidecar ++
          objs.firewalls.items.map FirewallObject.sidecar) := rfl

theorem nodup_containerNames :
    ((buildEnginePodSpec resources engineImage «namespace» objs identity o).containers.map
      (·.name)).Nodup := by
  have hext : ((objs.externalAuths.items.map ExternalAuthObject.sidecar).map (·.name)) =
      objs.externalAuths.items.map fun f => "ext-auth-" ++ f.name := List.map_map ..
  have hfw : ((objs.firewalls.items.map FirewallObject.sidecar).map (·.name)) =
      objs.firewalls.items.map fun f => "fw-" ++ f.name := List.map_map ..
  rw [containers_eq, List.map_cons, List.map_append, hext, hfw, List.nodup_cons,
    List.mem_append, not_or, List.nodup_append]
  have hextBegin := allBegin_map "ext-auth-" (fun f : ExternalAuthObject => f.name)
    objs.externalAuths.items
  have hfwBegin := allBegin_map "fw-" (fun f : FirewallObject => f.name) objs.firewalls.items
  refine ⟨⟨fun h => ?_, fun h => ?_⟩, ?_, ?_, ?_⟩
  · exact hextBegin.ne (a := "engine") (by decide) _ h rfl
  · exact hfwBegin.ne (a := "engine") (by decide) _ h rfl
  · have h := objs.externalAuths.nodup.map (f := fun n => "ext-auth-" ++ n)
      fun _ _ h => (String.append_right_inj _).mp h
    rwa [List.map_map] at h
  · have h := objs.firewalls.nodup.map (f := fun n => "fw-" ++ n)
      fun _ _ h => (String.append_right_inj _).mp h
    rwa [List.map_map] at h
  · exact hextBegin.disjoint hfwBegin (by decide)

theorem shared_of_mem {objs : EngineObjects} {c : Container}
    (h : c ∈ objs.externalAuths.items.map ExternalAuthObject.sidecar ++
      objs.firewalls.items.map FirewallObject.sidecar) : objs.shared = true := by
  unfold EngineObjects.shared
  cases hext : objs.externalAuths.items with
  | cons f l => rfl
  | nil =>
    cases hfw : objs.firewalls.items with
    | cons f l => rfl
    | nil =>
      rw [hext, hfw] at h
      exact absurd h List.not_mem_nil

theorem nodup_sidecarPaths {objs : EngineObjects} {c : Container}
    (h : c ∈ objs.externalAuths.items.map ExternalAuthObject.sidecar ++
      objs.firewalls.items.map FirewallObject.sidecar) :
    (c.volumeMounts.map (·.mountPath)).Nodup := by
  rcases List.mem_append.mp h with h | h
  · obtain ⟨f, -, rfl⟩ := List.mem_map.mp h
    exact List.nodup_singleton _
  · obtain ⟨fw, -, rfl⟩ := List.mem_map.mp h
    show (udsVolumeMountPath :: (fw.rules.map Prod.snd).map (·.mountPath)).Nodup
    rw [List.map_map]
    exact List.Nodup.sublist (fw.rules_names.2.2.cons_cons udsVolumeMountPath) (by decide)

theorem mounts_named {c : Container}
    (hc : c ∈ (buildEnginePodSpec resources engineImage «namespace» objs identity o).containers)
    {m : VolumeMount} (hm : m ∈ c.volumeMounts) :
    m.name ∈ (buildEnginePodSpec resources engineImage «namespace» objs identity o).volumes.map
      (·.name) := by
  rw [volumeNames_eq]
  have huds : objs.shared = true → udsMount.name ∈ objs.fixedNames identity := by
    intro hshared
    unfold EngineObjects.fixedNames
    rw [if_pos hshared]
    simp [udsMount]
  rw [containers_eq] at hc
  rcases List.mem_cons.mp hc with rfl | hc
  · rcases List.mem_append.mp hm with hm | hm
    · rcases List.mem_append.mp hm with hm | hm
      · have hname := List.mem_map_of_mem (f := fun m : VolumeMount => m.name) hm
        rw [(identityVolumes_names identity).1] at hname
        unfold EngineObjects.fixedNames
        exact List.mem_append_left _ (List.mem_append_left _ (List.mem_append_left _ hname))
      · split at hm
        · rename_i hshared
          rw [List.mem_singleton.mp hm]
          exact List.mem_append_left _ (huds hshared)
        · exact absurd hm List.not_mem_nil
    · obtain ⟨s, hs, rfl⟩ := List.mem_map.mp hm
      exact List.mem_append_right _ (List.mem_map.mpr ⟨s, hs, rfl⟩)
  · have hshared := shared_of_mem hc
    refine List.mem_append_left _ ?_
    rcases List.mem_append.mp hc with hc | hc
    · obtain ⟨f, -, rfl⟩ := List.mem_map.mp hc
      rw [List.mem_singleton.mp hm]
      exact huds hshared
    · obtain ⟨fw, hfw, rfl⟩ := List.mem_map.mp hc
      rcases List.mem_cons.mp hm with rfl | hm
      · exact huds hshared
      · have hname := List.mem_map_of_mem (f := fun m : VolumeMount => m.name) hm
        rw [List.map_map] at hname
        unfold EngineObjects.fixedNames
        refine List.mem_append_right _ (List.mem_flatMap.mpr ⟨fw, hfw, ?_⟩)
        rw [← fw.rules_names.1]
        exact hname

/-- Joined names that are told apart make a well-formed pod. -/
theorem wellFormed_of_joinedApart (h : objs.JoinedApart) :
    (buildEnginePodSpec resources engineImage «namespace» objs identity o).WellFormed := by
  obtain ⟨hvolumes, hpaths⟩ := (joinedApart_iff o).mp h
  refine ⟨?_, nodup_containerNames .., ?_, fun c hc m hm => mounts_named _ _ _ _ _ _ hc hm⟩
  · rw [volumeNames_eq]
    exact List.nodup_append.mpr ⟨objs.nodup_fixedNames identity, hvolumes,
      objs.fixedNames_ne identity (JwtSecret.allBegin_volumeNames _)⟩
  · intro c hc
    rw [containers_eq] at hc
    rcases List.mem_cons.mp hc with rfl | hc
    · show ((engineMounts identity o).map (·.mountPath)).Nodup
      rw [mountPaths_eq]
      exact List.nodup_append.mpr ⟨.sublist (objs.fixedPaths_sublist identity) (by decide),
        hpaths, objs.fixedPaths_ne identity (JwtSecret.allBegin_mountPaths _)⟩
    · exact nodup_sidecarPaths hc

end Spec

/-- The names of a pod are in order exactly when the Secrets of its JwtAuthFilters, joined
with the names of the filters, are told apart. -/
theorem pod_well_formed_iff (resources : Option Yaml) (engineImage «namespace» : String)
    (objs : EngineObjects) (identity : IdentitySettings) (o : objs.BuildOrder) :
    (buildEnginePodSpec resources engineImage «namespace» objs identity o).WellFormed ↔
      objs.JoinedApart := by
  constructor
  · intro h
    have hvolumes := h.volumes
    have hpaths : ((engineMounts identity o).map (·.mountPath)).Nodup :=
      h.paths _ List.mem_cons_self
    rw [volumeNames_eq] at hvolumes
    rw [mountPaths_eq] at hpaths
    exact (joinedApart_iff o).mpr
      ⟨(List.nodup_append.mp hvolumes).2.1, (List.nodup_append.mp hpaths).2.1⟩
  · exact wellFormed_of_joinedApart resources engineImage «namespace» objs identity o

/-- Filter `a` with the Secret `b-c` and filter `a-b` with the Secret `c`. -/
def clashingSecrets : EngineObjects :=
  { twoSecrets with
    jwts :=
      { items := [{ name := "a", spec := .empty, localSecretRef := some ⟨"b-c", "key"⟩ },
          { name := "a-b", spec := .empty, localSecretRef := some ⟨"c", "key"⟩ }]
        nodup := by decide } }

theorem volume_names_clash :
    (buildEnginePodSpec none "engine" "hyper-system" clashingSecrets {}
      ⟨fun _ => ⟨_, .refl _⟩, ⟨_, .refl _⟩⟩).volumes.map (·.name) =
        ["jwt-a-b-c", "jwt-a-b-c"] := by decide

end Hypergate.Operator
