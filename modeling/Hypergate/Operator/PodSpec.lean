import Hypergate.Lib.Grouping
import Hypergate.Lib.Sorting
import Hypergate.Operator.Compiler
import Mathlib.Data.String.Basic

/-!
# The engine pod (`buildEnginePodSpec`, `identityVolumes`)

The HyperConfig controller renders the engine container, one sidecar for every
ExternalAuthFilter and FirewallFilter, and the volumes they share. It lists the filters,
sorts each kind by name and builds the pod spec from the sorted lists.

A loop over a Go map visits it in some order: `BuildOrder` has an order for every map
that a build ranges over. The Secrets of one JwtAuthFilter are such a map, and its order
is the order of their volumes; the pull secrets are another, but they are sorted before
use. `pod_spec_stable_iff` says which filters that leaves unstable.

What is only copied (resources, `envFrom`, `valueFrom`) is its YAML.
-/

namespace Hypergate.Operator

open Lib Policy

/-! ## Pods -/

structure EnvVar where
  name : String
  value : String := ""
  valueFrom : Option Yaml := none

structure KeyToPath where
  key : String
  path : String
  deriving DecidableEq

/-- `VolumeSource`; a projected volume has one source, a service account token. -/
inductive VolumeSource where
  | emptyDir
  | configMap (name : String)
  | secret (name : String) (items : List KeyToPath) (defaultMode : Option Nat)
  | token (audience : String) (expirationSeconds : Nat) (path : String) (defaultMode : Nat)

structure Volume where
  name : String
  source : VolumeSource

structure VolumeMount where
  name : String
  mountPath : String
  readOnly : Bool := false

/-- `Probe`, an HTTP GET. -/
structure Probe where
  path : String
  port : Nat
  initialDelaySeconds : Nat := 0
  periodSeconds : Nat
  failureThreshold : Nat

structure SecurityContext where
  runAsNonRoot : Bool
  runAsUser : Nat
  runAsGroup : Nat
  allowPrivilegeEscalation : Bool
  readOnlyRootFilesystem : Bool
  dropCapabilities : List String

structure Container where
  name : String
  image : String
  imagePullPolicy : String := ""
  args : List String := []
  ports : List (Nat × String) := []
  env : List EnvVar := []
  envFrom : List Yaml := []
  resources : Yaml
  readinessProbe : Option Probe := none
  livenessProbe : Option Probe := none
  securityContext : Option SecurityContext := none
  volumeMounts : List VolumeMount := []

/-- `PodSpec`, the fields that `buildEnginePodSpec` sets. -/
structure PodSpec where
  containers : List Container
  volumes : List Volume
  imagePullSecrets : List String

/-! ## The objects -/

structure SidecarContainerSpec where
  image : String
  imagePullPolicy : String := ""
  imagePullSecrets : List String := []
  args : List String := []
  env : List EnvVar := []
  envFrom : List Yaml := []
  resources : Yaml := .null
  socketEnvKey : String := ""

/-- `ExternalAuthFilter` with its container. -/
structure ExternalAuthObject extends ExternalAuthFilter where
  container : SidecarContainerSpec

/-- `FirewallFilter` with its container and its rules. -/
structure FirewallObject extends FirewallFilter where
  container : SidecarContainerSpec
  rulesConfigMap : String := ""
  rulesSecretRef : String := ""

/-- What the controller lists. -/
structure EngineObjects where
  externalAuths : Listing ExternalAuthObject (fun f => f.name) := {}
  firewalls : Listing FirewallObject (fun f => f.name) := {}
  jwts : Listing JwtAuthFilter JwtAuthFilter.name := {}

/-! ## Identity volumes (`identity.go`) -/

def identityVolumes (s : IdentitySettings) : List Volume × List VolumeMount :=
  if !s.enabled then ([], [])
  else
    let volumes := [{ name := "identity-token"
                      source := .token "hypergate-identity" 3600 "token" 0o444 }]
    let mounts := [{ name := "identity-token"
                     mountPath := "/var/run/secrets/hypergate/identity"
                     readOnly := true }]
    if s.insecure then (volumes, mounts)
    else
      (volumes ++ [{ name := "identity-ca", source := .configMap "hyper-identity-ca" }],
        mounts ++ [{ name := "identity-ca", mountPath := "/etc/hypergate/identity"
                     readOnly := true }])

/-! ## The engine container -/

def engineResources (resources : Option Yaml) : Yaml :=
  resources.getD (.map
    [("requests", .map [("cpu", .str "100m"), ("memory", .str "128Mi")]),
      ("limits", .map [("memory", .str "512Mi")])])

/-- The engine container. -/
def engineContainer (resources : Option Yaml) (engineImage «namespace» : String)
    (volumeMounts : List VolumeMount) : Container where
  name := "engine"
  image := engineImage
  ports := [(9001, "grpc"), (9003, "health")]
  env :=
    [{ name := "CONFIG_PROVIDER", value := "K8S" },
      { name := "CONFIG_K8S_NAME", value := "hyper-engine-config" },
      { name := "CONFIG_K8S_NAMESPACE", value := «namespace» },
      { name := "NODE_NAME"
        valueFrom := some (.map [("fieldRef", .map [("fieldPath", .str "spec.nodeName")])]) }]
  readinessProbe :=
    some { path := "/readyz", port := 9003, periodSeconds := 5, failureThreshold := 3 }
  livenessProbe :=
    some { path := "/healthz", port := 9003, initialDelaySeconds := 10, periodSeconds := 10
           failureThreshold := 3 }
  resources := engineResources resources
  securityContext :=
    some { runAsNonRoot := true, runAsUser := 10001, runAsGroup := 10001
           allowPrivilegeEscalation := false, readOnlyRootFilesystem := true
           dropCapabilities := ["ALL"] }
  volumeMounts

/-! ## Sidecars -/

def udsVolumeMountPath : String := "/var/run/hypergate/"

/-- The mount of the sockets, in the engine and in every sidecar. -/
def udsMount : VolumeMount where
  name := "uds-sockets"
  mountPath := udsVolumeMountPath

def substituteSocketPath (args : List String) (socketPath : String) : List String :=
  args.map fun arg => arg.replace "\x7bsocket_path\x7d" socketPath

def isOAuth2Proxy (image : String) : Bool :=
  decide ("oauth2-proxy".toList <:+: image.toList)

/-- The variable that tells a sidecar its socket. -/
def socketEnv (key socketPath : String) : EnvVar where
  name := key
  value := "unix://" ++ socketPath

/-- A sidecar of that name, socket, environment and mounts. -/
def SidecarContainerSpec.sidecar (c : SidecarContainerSpec) (name socketPath : String)
    (env : List EnvVar) (volumeMounts : List VolumeMount) : Container where
  name
  image := c.image
  imagePullPolicy := c.imagePullPolicy
  args := substituteSocketPath c.args socketPath
  env
  envFrom := c.envFrom
  resources := c.resources
  volumeMounts

namespace ExternalAuthObject

variable (eaf : ExternalAuthObject)

def socketPath : String := udsVolumeMountPath ++ "ext-auth-" ++ eaf.name ++ ".sock"

/-- The environment: an OAuth2 proxy is told its socket even without a key. -/
def sidecarEnv : List EnvVar :=
  if eaf.container.socketEnvKey ≠ "" then
    eaf.container.env ++ [socketEnv eaf.container.socketEnvKey eaf.socketPath]
  else if isOAuth2Proxy eaf.container.image then
    eaf.container.env ++ [socketEnv "OAUTH2_PROXY_HTTP_ADDRESS" eaf.socketPath]
  else eaf.container.env

def sidecar : Container :=
  eaf.container.sidecar ("ext-auth-" ++ eaf.name) eaf.socketPath eaf.sidecarEnv [udsMount]

end ExternalAuthObject

namespace FirewallObject

variable (fw : FirewallObject)

def socketPath : String := udsVolumeMountPath ++ "fw-" ++ fw.name ++ ".sock"

/-- The environment: a firewall is always told its socket. -/
def sidecarEnv : List EnvVar :=
  let socketEnvKey :=
    if fw.container.socketEnvKey = "" then "FIREWALL_SOCKET_PATH" else fw.container.socketEnvKey
  fw.container.env ++ [socketEnv socketEnvKey fw.socketPath]

/-- The volumes of the rules, each with its mount in the sidecar. -/
def rules : List (Volume × VolumeMount) :=
  (if fw.rulesConfigMap = "" then []
    else
      [({ name := "fw-rules-cm-" ++ fw.name, source := .configMap fw.rulesConfigMap },
        { name := "fw-rules-cm-" ++ fw.name, mountPath := "/etc/firewall/rules/" })]) ++
  (if fw.rulesSecretRef = "" then []
    else
      [({ name := "fw-rules-sec-" ++ fw.name, source := .secret fw.rulesSecretRef [] none },
        { name := "fw-rules-sec-" ++ fw.name, mountPath := "/etc/firewall/secrets/" })])

def sidecar : Container :=
  fw.container.sidecar ("fw-" ++ fw.name) fw.socketPath fw.sidecarEnv
    (udsMount :: fw.rules.map Prod.snd)

end FirewallObject

/-! ## JWT secrets -/

/-- `items[ref.Name] = append(items[ref.Name], ...)`. -/
def addItem (items : AMap String (List KeyToPath)) (path : String) :
    Option SecretKeyRef → AMap String (List KeyToPath)
  | none => items
  | some ref =>
    items.insert ref.name ((items.lookup ref.name).getD [] ++ [{ key := ref.key, path }])

def jwtSecretItems (f : JwtAuthFilter) : AMap String (List KeyToPath) :=
  addItem (addItem ∅ "local-secret" f.localSecretRef) "introspection-auth"
    f.introspectionAuthSecretRef

/-- A Secret that the engine mounts for a JwtAuthFilter. -/
structure JwtSecret where
  filter : String
  secret : String
  keys : List KeyToPath

namespace JwtSecret

variable (s : JwtSecret)

def volumeName : String := "jwt-" ++ s.filter ++ "-" ++ s.secret

def volume : Volume where
  name := s.volumeName
  source := .secret s.secret s.keys (some 0o440)

def mount : VolumeMount where
  name := s.volumeName
  mountPath := jwtSecretDir s.filter ++ "/" ++ s.secret
  readOnly := true

end JwtSecret

/-! ## The pod spec -/

namespace EngineObjects

variable (objs : EngineObjects)

def pullSecretSet : AMap String Unit :=
  AMap.insertAll ∅
    ((objs.externalAuths.items.flatMap (fun f => f.container.imagePullSecrets) ++
      objs.firewalls.items.flatMap (fun f => f.container.imagePullSecrets)).map (·, ()))

/-- The orders in which one build visits its maps. -/
structure BuildOrder where
  jwt : ∀ f : JwtAuthFilter, (jwtSecretItems f).Order
  pull : objs.pullSecretSet.Order

variable {objs}

/-- The loop over the JwtAuthFilters and their Secrets. -/
def jwtSecrets (o : objs.BuildOrder) : List JwtSecret :=
  objs.jwts.items.flatMap fun f => (o.jwt f).items.map fun e => ⟨f.name, e.1, e.2⟩

end EngineObjects

def buildEnginePodSpec (resources : Option Yaml) (engineImage «namespace» : String)
    (objs : EngineObjects) (identity : IdentitySettings) (o : objs.BuildOrder) : PodSpec :=
  let shared := !objs.externalAuths.items.isEmpty || !objs.firewalls.items.isEmpty
  let engine := engineContainer resources engineImage «namespace»
    ((identityVolumes identity).2 ++ (if shared then [udsMount] else []) ++
      (EngineObjects.jwtSecrets o).map JwtSecret.mount)
  { containers := engine :: (objs.externalAuths.items.map ExternalAuthObject.sidecar ++
      objs.firewalls.items.map FirewallObject.sidecar)
    volumes := (identityVolumes identity).1 ++
      (if shared then [{ name := "uds-sockets", source := .emptyDir }] else []) ++
      objs.firewalls.items.flatMap (fun fw => fw.rules.map Prod.fst) ++
      (EngineObjects.jwtSecrets o).map JwtSecret.volume
    imagePullSecrets := (o.pull.items.map Prod.fst).insertionSort (· ≤ ·) }

/-- The lists, each sorted by name. -/
def EngineObjects.sorted (objs : EngineObjects) : EngineObjects where
  externalAuths := objs.externalAuths.sorted
  firewalls := objs.firewalls.sorted
  jwts := objs.jwts.sorted

/-- The pod spec of `Reconcile`. -/
def enginePodSpec (resources : Option Yaml) (engineImage «namespace» : String)
    (objs : EngineObjects) (identity : IdentitySettings) (o : objs.sorted.BuildOrder) : PodSpec :=
  buildEnginePodSpec resources engineImage «namespace» objs.sorted identity o

/-! ## Two builds from the same objects -/

/-- The same objects, listed in another order. -/
structure EngineObjects.Relists (objs' objs : EngineObjects) : Prop where
  externalAuths : objs'.externalAuths.items.Perm objs.externalAuths.items
  firewalls : objs'.firewalls.items.Perm objs.firewalls.items
  jwts : objs'.jwts.items.Perm objs.jwts.items

theorem EngineObjects.Relists.sorted_eq {objs' objs : EngineObjects} (h : objs'.Relists objs) :
    objs'.sorted = objs.sorted := by
  unfold EngineObjects.sorted
  rw [Listing.sorted_eq_of_perm h.externalAuths, Listing.sorted_eq_of_perm h.firewalls,
    Listing.sorted_eq_of_perm h.jwts]

/-- The order of the pull secrets does not show: they are sorted. -/
theorem pullSecrets_eq {m : AMap String Unit} (o o' : m.Order) :
    (o'.items.map Prod.fst).insertionSort (· ≤ ·) =
      (o.items.map Prod.fst).insertionSort (· ≤ ·) := by
  have hkey : ∀ a b : String, a ≤ b ↔ id a ≤ id b := fun _ _ => Iff.rfl
  refine insertionSort_perm_eq hkey ?_ ((o'.perm.trans o.perm.symm).map Prod.fst)
  rw [List.map_id, (o.perm.map Prod.fst).nodup_iff, AMap.map_fst_toList]
  exact m.keys_nodup

/-- The filter's references name at most one Secret. -/
def JwtAuthFilter.OneSecret (f : JwtAuthFilter) : Prop :=
  ∀ ref ∈ f.localSecretRef, ∀ ref' ∈ f.introspectionAuthSecretRef, ref.name = ref'.name

theorem toList_jwtSecretItems_of_ne {f : JwtAuthFilter} {ref ref' : SecretKeyRef}
    (hl : f.localSecretRef = some ref) (hi : f.introspectionAuthSecretRef = some ref')
    (hne : ref.name ≠ ref'.name) :
    (jwtSecretItems f).toList =
      [(ref'.name, [⟨ref'.key, "introspection-auth"⟩]),
        (ref.name, [⟨ref.key, "local-secret"⟩])] := by
  have hother : (addItem ∅ "local-secret" (some ref)).lookup ref'.name = none := by
    rw [addItem, AMap.lookup_insert_ite, if_neg hne.symm]
    rfl
  rw [jwtSecretItems, hl, hi, addItem, hother]
  simp [addItem, AMap.toList, hne.symm]

theorem order_eq_of_oneSecret {f : JwtAuthFilter} (h : f.OneSecret)
    (o o' : (jwtSecretItems f).Order) : o'.items = o.items := by
  have hlen : (jwtSecretItems f).toList.length ≤ 1 := by
    unfold jwtSecretItems
    cases hl : f.localSecretRef with
    | none =>
      cases f.introspectionAuthSecretRef with
      | none => simp [addItem, AMap.toList]
      | some ref' => simp [addItem, AMap.toList]
    | some ref =>
      cases hi : f.introspectionAuthSecretRef with
      | none => simp [addItem, AMap.toList]
      | some ref' => simp [addItem, AMap.toList, h ref hl ref' hi]
  have hperm := o'.perm.trans o.perm.symm
  rw [← o.perm.length_eq] at hlen
  cases hitems : o.items with
  | nil =>
    rw [hitems] at hperm
    exact hperm.eq_nil
  | cons e l =>
    rw [hitems] at hperm hlen
    have hl : l = [] := List.length_eq_zero_iff.mp (Nat.le_zero.mp (Nat.le_of_succ_le_succ hlen))
    rw [hl] at hperm ⊢
    exact List.perm_singleton.mp hperm

theorem buildEnginePodSpec_eq {resources : Option Yaml} {engineImage «namespace» : String}
    {objs : EngineObjects} {identity : IdentitySettings}
    (h : ∀ f ∈ objs.jwts.items, f.OneSecret) (o o' : objs.BuildOrder) :
    buildEnginePodSpec resources engineImage «namespace» objs identity o' =
      buildEnginePodSpec resources engineImage «namespace» objs identity o := by
  have hjwt : EngineObjects.jwtSecrets o' = EngineObjects.jwtSecrets o := by
    unfold EngineObjects.jwtSecrets
    refine List.flatMap_congr fun f hf => ?_
    rw [order_eq_of_oneSecret (h f hf) (o.jwt f) (o'.jwt f)]
  unfold buildEnginePodSpec
  rw [hjwt, pullSecrets_eq o.pull o'.pull]

/-- Two builds of the pod spec agree, whatever the orders of the listings and of the maps,
exactly when no JwtAuthFilter takes its two secrets from different Secrets. -/
theorem pod_spec_stable_iff (resources : Option Yaml) (engineImage «namespace» : String)
    (objs : EngineObjects) (identity : IdentitySettings) :
    (∀ objs' : EngineObjects, objs'.Relists objs →
      ∀ (o : objs.sorted.BuildOrder) (o' : objs'.sorted.BuildOrder),
        enginePodSpec resources engineImage «namespace» objs' identity o' =
          enginePodSpec resources engineImage «namespace» objs identity o) ↔
      ∀ f ∈ objs.jwts.items, f.OneSecret := by
  constructor
  · intro hstable f hf ref hl ref' hi
    by_contra hne
    let pull : objs.sorted.pullSecretSet.Order := ⟨_, .refl _⟩
    have heq := congrArg PodSpec.volumes (hstable objs ⟨.refl _, .refl _, .refl _⟩
      ⟨fun f => ⟨_, .refl _⟩, pull⟩ ⟨fun f => ⟨_, List.reverse_perm _⟩, pull⟩)
    have hsecrets := List.append_cancel_left heq
    unfold EngineObjects.jwtSecrets at hsecrets
    rw [List.map_flatMap, List.map_flatMap] at hsecrets
    have hswap := eq_of_flatMap_eq (fun f => by simp) hsecrets f (Listing.mem_sorted.mpr hf)
    dsimp only at hswap
    rw [toList_jwtSecretItems_of_ne hl hi hne] at hswap
    -- the two volumes have changed places, so they are volumes of one Secret
    have hvolume := (List.cons.inj hswap).1
    exact hne (VolumeSource.secret.inj (congrArg Volume.source hvolume)).1
  · intro hone objs' hlist
    have hsorted : ∀ f ∈ objs.sorted.jwts.items, f.OneSecret :=
      fun f hf => hone f (Listing.mem_sorted.mp hf)
    unfold enginePodSpec
    rw [hlist.sorted_eq]
    exact buildEnginePodSpec_eq hsorted

/-- A JwtAuthFilter `a` with a local secret in `b` and the introspection header in `c`. -/
def twoSecrets : EngineObjects where
  jwts :=
    { items := [{ name := "a", spec := .empty, localSecretRef := some ⟨"b", "key"⟩
                  introspectionAuthSecretRef := some ⟨"c", "key"⟩ }] }

theorem pod_spec_unstable :
    (enginePodSpec none "engine" "hyper-system" twoSecrets {}
      ⟨fun _ => ⟨_, .refl _⟩, ⟨_, .refl _⟩⟩).volumes.map (·.name) = ["jwt-a-c", "jwt-a-b"]
    ∧ (enginePodSpec none "engine" "hyper-system" twoSecrets {}
      ⟨fun _ => ⟨_, List.reverse_perm _⟩, ⟨_, .refl _⟩⟩).volumes.map (·.name) =
        ["jwt-a-b", "jwt-a-c"] := by
  constructor
  · decide
  · decide

end Hypergate.Operator
