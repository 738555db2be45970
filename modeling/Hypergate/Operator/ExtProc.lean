import Hypergate.Lib.Listing
import Hypergate.Operator.Publisher

/-!
# Applying objects and pruning old ones (`hyper-operator/internal/controller/extproc_controller.go`)

`applyAndPrune` makes the objects of one kind that carry the labels of a
HyperConfig those of a desired map: it creates what is missing, updates what
differs, and then deletes the labelled objects that are no longer desired. Every
step is an API call, and every call may fail, before or after it took effect
(`Lib.Calls`).

* `Permitted` — the writes it makes: to absent names, and to objects with both
  labels. Nothing else can change (`serve_keeps`).
* `Settled` — what a run without an error leaves behind: the labelled objects are
  the desired ones, with the desired spec and labels.
* `settled_reads` — on a settled cluster every call is a read.

A desired map is a `Listing` of objects: its callers file every object under its
own name, and the order is that of the loop. Specs are JSON values as the API
server decodes them, on which `Semantic.DeepEqual` is equality; owner references
are never compared. `SetControllerReference` may fail.
-/

namespace Hypergate.Operator.ExtProc

open Lib

/-! ## The model -/

def labelManagedBy : String := "app.kubernetes.io/managed-by"

def labelHyperConfig : String := "hyper.io/hyperconfig"

def managedByValue : String := "hyper-operator"

/-- `types.NamespacedName`. -/
structure NamespacedName where
  namespace_ : String
  name : String
  deriving DecidableEq

/-- Where the API server stores an object. -/
structure ObjectKey where
  kind : String
  name : NamespacedName
  deriving DecidableEq

/-- The parts of an object that are read or written, apart from its key. -/
structure Object (Spec Owner : Type) where
  labels : AMap String String
  spec : Spec
  ownerReferences : List Owner

/-- An object that should exist. -/
structure Desired (Spec Owner : Type) extends Object Spec Owner where
  key : NamespacedName

/-- The HyperConfig that owns the objects; an API object has a name. -/
structure ConfigName where
  name : String
  nonempty : name ≠ ""

def managedLabels (hc : ConfigName) : AMap String String :=
  AMap.insertAll ∅ [(labelManagedBy, managedByValue), (labelHyperConfig, hc.name)]

def isManagedBy (labels : AMap String String) (hc : ConfigName) : Bool :=
  labels.getD labelManagedBy "" = managedByValue && labels.getD labelHyperConfig "" = hc.name

/-- `Semantic.DeepEqual` on labels. -/
def sameLabels (l l' : AMap String String) : Bool :=
  (l.keys ++ l'.keys).all fun k => l.lookup k = l'.lookup k

section Model

variable {Spec Owner : Type}

/-- The objects of a cluster. -/
abbrev Objects (Spec Owner : Type) := AMap ObjectKey (Object Spec Owner)

inductive ObjectCall (Spec Owner : Type) where
  | get (key : ObjectKey)
  | create (key : ObjectKey) (obj : Object Spec Owner)
  | update (key : ObjectKey) (obj : Object Spec Owner)
  | list (kind : String) (matching : AMap String String)
  | delete (key : ObjectKey)

@[reducible] def ObjectCall.Answer : ObjectCall Spec Owner → Type
  | .get _ => Except ApiError (Object Spec Owner)
  | .create _ _ => Except ApiError Unit
  | .update _ _ => Except ApiError Unit
  | .list _ _ => Except ApiError (List NamespacedName)
  | .delete _ => Except ApiError Unit

/-- The call writes nothing. -/
def ObjectCall.Reads : ObjectCall Spec Owner → Prop
  | .get _ => True
  | .list _ _ => True
  | _ => False

/-- All the labels of a selector, with their values. -/
def selects (matching labels : AMap String String) : Bool :=
  matching.toList.all fun e => labels.lookup e.1 = some e.2

/-- The API server; of the listed objects only the names are used. -/
def serve (s : Objects Spec Owner) :
    (c : ObjectCall Spec Owner) → Objects Spec Owner × c.Answer
  | .get key =>
    match s.lookup key with
    | some obj => (s, .ok obj)
    | none => (s, .error .notFound)
  | .create key obj =>
    match s.lookup key with
    | some _ => (s, .error .alreadyExists)
    | none => (s.insert key obj, .ok ())
  | .update key obj =>
    match s.lookup key with
    | some _ => (s.insert key obj, .ok ())
    | none => (s, .error .notFound)
  | .list kind matching =>
    (s, .ok (s.toList.filterMap fun e =>
      if e.1.kind = kind ∧ selects matching e.2.labels = true then some e.1.name else none))
  | .delete key =>
    match s.lookup key with
    | some _ => (s.erase key, .ok ())
    | none => (s, .error .notFound)

def objectApi : Api (Objects Spec Owner) (ObjectCall Spec Owner) ObjectCall.Answer where
  serve := serve
  failed why c := match c with
    | .get _ => .error (.other why)
    | .create _ _ => .error (.other why)
    | .update _ _ => .error (.other why)
    | .list _ _ => .error (.other why)
    | .delete _ => .error (.other why)

/-- A program that returns `nil` or an error. -/
abbrev ObjectProg (Spec Owner : Type) :=
  Prog (ObjectCall Spec Owner) ObjectCall.Answer (Option String)

variable (errorText : ApiError → String) (hc : ConfigName) (kind : String)
  (setControllerReference : Desired Spec Owner → Except String (List Owner))

def failure (verb : String) (name : NamespacedName) (e : ApiError) : ObjectProg Spec Owner :=
  .done (some (verb ++ " " ++ kind ++ " " ++ name.namespace_ ++ "/" ++ name.name ++ ": "
    ++ errorText e))

/-- A round of the first loop that found the object. -/
def applyExisting [DecidableEq Spec] (want existing : Object Spec Owner) (name : NamespacedName)
    (next : ObjectProg Spec Owner) : ObjectProg Spec Owner :=
  if isManagedBy existing.labels hc = false then
    -- an object someone else created under the same name is not taken over
    .done (some (kind ++ " " ++ name.namespace_ ++ "/" ++ name.name
      ++ " exists and is not managed by HyperConfig \"" ++ hc.name ++ "\""))
  else if existing.spec = want.spec ∧ sameLabels existing.labels want.labels = true then next
  else .call (.update ⟨kind, name⟩
      { existing with
        spec := want.spec, labels := want.labels, ownerReferences := want.ownerReferences })
    fun
    | .error e => failure errorText kind "update" name e
    | .ok _ => next

/-- A round of the first loop that did not find the object. -/
def applyMissing (want : Object Spec Owner) (name : NamespacedName)
    (next : ObjectProg Spec Owner) : ObjectProg Spec Owner :=
  .call (.create ⟨kind, name⟩ want) fun
  | .error e => failure errorText kind "create" name e
  | .ok _ => next

/-- A round of the first loop. -/
def applyOne [DecidableEq Spec] (want : Desired Spec Owner) (next : ObjectProg Spec Owner) :
    ObjectProg Spec Owner :=
  match setControllerReference want with
  | .error err => .done (some err)
  | .ok owners =>
    let obj := { want.toObject with ownerReferences := owners }
    .call (.get ⟨kind, want.key⟩) fun
    | .error .notFound => applyMissing errorText kind obj want.key next
    | .error e => .done (some (errorText e))
    | .ok existing => applyExisting errorText hc kind obj existing want.key next

/-- A round of the second loop. -/
def pruneOne (desired : List NamespacedName) (name : NamespacedName)
    (next : ObjectProg Spec Owner) : ObjectProg Spec Owner :=
  if name ∈ desired then next
  else .call (.delete ⟨kind, name⟩) fun
    | .error .notFound => next
    | .error e => failure errorText kind "delete" name e
    | .ok _ => next

/-- The second half. -/
def prune (desired : List NamespacedName) : ObjectProg Spec Owner :=
  .call (.list kind (managedLabels hc)) fun
  | .error e => .done (some (errorText e))
  | .ok names => Prog.forEach (pruneOne errorText kind desired) names (.done none)

def applyAndPrune [DecidableEq Spec] (desired : Listing (Desired Spec Owner) Desired.key) :
    ObjectProg Spec Owner :=
  Prog.forEach (applyOne errorText hc kind setControllerReference) desired.items
    (prune errorText hc kind (desired.items.map Desired.key))

end Model

/-! ## Labels -/

/-- The object carries both labels. -/
structure Managed (hc : ConfigName) (labels : AMap String String) : Prop where
  managedBy : labels.lookup labelManagedBy = some managedByValue
  hyperConfig : labels.lookup labelHyperConfig = some hc.name

variable {labels : AMap String String}

theorem getD_eq_iff {k v : String} (hv : v ≠ "") :
    labels.getD k "" = v ↔ labels.lookup k = some v := by
  unfold AMap.getD
  cases hlabel : labels.lookup k with
  | none => simpa using hv.symm
  | some w => simp

theorem isManagedBy_iff {hc : ConfigName} :
    isManagedBy labels hc = true ↔ Managed hc labels := by
  have hvalue : managedByValue ≠ "" := by decide
  unfold isManagedBy
  rw [Bool.and_eq_true, decide_eq_true_eq, decide_eq_true_eq, getD_eq_iff hvalue,
    getD_eq_iff hc.nonempty]
  exact ⟨fun h => ⟨h.1, h.2⟩, fun h => ⟨h.1, h.2⟩⟩

theorem selects_managedLabels {hc : ConfigName} :
    selects (managedLabels hc) labels = true ↔ Managed hc labels := by
  have hlist : (managedLabels hc).toList
      = [(labelHyperConfig, hc.name), (labelManagedBy, managedByValue)] := rfl
  unfold selects
  rw [hlist]
  simp only [List.all_cons, List.all_nil, Bool.and_true, Bool.and_eq_true, decide_eq_true_eq]
  exact ⟨fun h => ⟨h.2, h.1⟩, fun h => ⟨h.2, h.1⟩⟩

theorem sameLabels_iff {l l' : AMap String String} :
    sameLabels l l' = true ↔ ∀ k, l.lookup k = l'.lookup k := by
  unfold sameLabels
  simp only [List.all_eq_true, List.mem_append, decide_eq_true_eq]
  refine ⟨fun h k => ?_, fun h k _ => h k⟩
  by_cases hk : k ∈ l.keys ∨ k ∈ l'.keys
  · exact h k hk
  · obtain ⟨hl, hl'⟩ := not_or.mp hk
    rw [AList.lookup_eq_none.mpr hl, AList.lookup_eq_none.mpr hl']

theorem Managed.of_sameLabels {hc : ConfigName} {l l' : AMap String String}
    (h : Managed hc l) (hsame : ∀ k, l'.lookup k = l.lookup k) : Managed hc l' :=
  ⟨(hsame _).trans h.managedBy, (hsame _).trans h.hyperConfig⟩

/-! ## Calls -/

section Calls

variable {Spec Owner : Type} {s : Objects Spec Owner} {key : ObjectKey}

theorem serve_get_some {obj : Object Spec Owner} (h : s.lookup key = some obj) :
    serve s (.get key) = (s, .ok obj) := by simp only [serve, h]

theorem serve_get_none (h : s.lookup key = none) :
    serve s (.get key) = (s, .error .notFound) := by simp only [serve, h]

theorem serve_create_none (h : s.lookup key = none) (obj : Object Spec Owner) :
    serve s (.create key obj) = (s.insert key obj, .ok ()) := by simp only [serve, h]

variable {old : Object Spec Owner}

theorem serve_create_some (h : s.lookup key = some old) (obj : Object Spec Owner) :
    serve s (.create key obj) = (s, .error .alreadyExists) := by simp only [serve, h]

theorem serve_update_some (h : s.lookup key = some old) (obj : Object Spec Owner) :
    serve s (.update key obj) = (s.insert key obj, .ok ()) := by simp only [serve, h]

theorem serve_update_none (h : s.lookup key = none) (obj : Object Spec Owner) :
    serve s (.update key obj) = (s, .error .notFound) := by simp only [serve, h]

theorem serve_delete_some (h : s.lookup key = some old) :
    serve s (.delete key) = (s.erase key, .ok ()) := by simp only [serve, h]

theorem serve_delete_none (h : s.lookup key = none) :
    serve s (.delete key) = (s, .error .notFound) := by simp only [serve, h]

theorem serve_reads {c : ObjectCall Spec Owner} (h : c.Reads) : (serve s c).1 = s := by
  cases c with
  | get key =>
    cases hkey : s.lookup key with
    | some obj => rw [serve_get_some hkey]
    | none => rw [serve_get_none hkey]
  | list kind matching => rfl
  | create key obj => exact absurd h not_false
  | update key obj => exact absurd h not_false
  | delete key => exact absurd h not_false

end Calls

/-! ## What may change -/

section Frame

variable {Spec Owner : Type} {hc : ConfigName} {kind : String} {s : Objects Spec Owner}

/-- The writes that leave the objects of others alone. -/
def Permitted (hc : ConfigName) (kind : String) (s : Objects Spec Owner) :
    ObjectCall Spec Owner → Prop
  | .get _ => True
  | .list _ _ => True
  | .create _ _ => True
  | .update key _ =>
    ∀ old, s.lookup key = some old → key.kind = kind ∧ Managed hc old.labels
  | .delete key =>
    ∀ old, s.lookup key = some old → key.kind = kind ∧ Managed hc old.labels

/-- A write elsewhere, or to an object that is managed, keeps an unmanaged object. -/
theorem serve_keeps {c : ObjectCall Spec Owner} (hallowed : Permitted hc kind s c)
    {key : ObjectKey} {obj : Object Spec Owner} (hobj : s.lookup key = some obj)
    (hother : ¬ (key.kind = kind ∧ Managed hc obj.labels)) :
    (serve s c).1.lookup key = some obj := by
  cases c with
  | get k =>
    rw [serve_reads (c := .get k) trivial]
    exact hobj
  | list k m => exact hobj
  | create k x =>
    cases hk : s.lookup k with
    | some old =>
      rw [serve_create_some hk]
      exact hobj
    | none =>
      -- the name was free, so it is not the object's
      have hne : key ≠ k := fun h => by
        rw [h, hk] at hobj
        cases hobj
      rw [serve_create_none hk, AMap.lookup_insert_ite, if_neg hne]
      exact hobj
  | update k x =>
    cases hk : s.lookup k with
    | none =>
      rw [serve_update_none hk]
      exact hobj
    | some old =>
      have hne : key ≠ k := fun h => hother (h ▸ hallowed obj (h ▸ hobj))
      rw [serve_update_some hk, AMap.lookup_insert_ite, if_neg hne]
      exact hobj
  | delete k =>
    cases hk : s.lookup k with
    | none =>
      rw [serve_delete_none hk]
      exact hobj
    | some old =>
      have hne : key ≠ k := fun h => hother (h ▸ hallowed obj (h ▸ hobj))
      rw [serve_delete_some hk, AMap.lookup_erase_ite, if_neg hne]
      exact hobj

/-- The objects of `s₀` that are of another kind or lack a label are still there. -/
def UnmanagedKept (hc : ConfigName) (kind : String) (s₀ s : Objects Spec Owner) : Prop :=
  ∀ key obj, s₀.lookup key = some obj → ¬ (key.kind = kind ∧ Managed hc obj.labels) →
    s.lookup key = some obj

theorem UnmanagedKept.effect {s₀ : Objects Spec Owner} (h : UnmanagedKept hc kind s₀ s)
    {c : ObjectCall Spec Owner} (hallowed : Permitted hc kind s c) (fate : Fate) :
    UnmanagedKept hc kind s₀ (objectApi.effect fate s c) := by
  intro key obj hobj hother
  have hkept := h key obj hobj hother
  cases fate with
  | refused why => exact hkept
  | served => exact serve_keeps hallowed hkept hother
  | lost why => exact serve_keeps hallowed hkept hother

end Frame

/-! ## What a run without an error leaves behind -/

section Settle

variable {Spec Owner : Type} {errorText : ApiError → String} {hc : ConfigName} {kind : String}
  {setControllerReference : Desired Spec Owner → Except String (List Owner)}
  {s : Objects Spec Owner} {want : Desired Spec Owner} {next : ObjectProg Spec Owner}
  {desired : Listing (Desired Spec Owner) Desired.key}

/-- The object is stored with the desired spec and labels. -/
def Applied (kind : String) (s : Objects Spec Owner) (want : Desired Spec Owner) : Prop :=
  ∃ obj, s.lookup ⟨kind, want.key⟩ = some obj ∧ obj.spec = want.spec
    ∧ ∀ k, obj.labels.lookup k = want.labels.lookup k

/-- The labelled objects of the kind are the desired ones. -/
structure Settled (hc : ConfigName) (kind : String)
    (desired : Listing (Desired Spec Owner) Desired.key) (s : Objects Spec Owner) : Prop where
  applied : ∀ want ∈ desired.items, Applied kind s want
  only : ∀ name obj, s.lookup ⟨kind, name⟩ = some obj → Managed hc obj.labels →
    name ∈ desired.items.map Desired.key

def Ended (hc : ConfigName) (kind : String)
    (desired : Listing (Desired Spec Owner) Desired.key) (s : Objects Spec Owner)
    (err : Option String) : Prop := err = none → Settled hc kind desired s

/-- A round wrote its own object only. -/
structure AppliedFrom (kind : String) (s : Objects Spec Owner) (want : Desired Spec Owner)
    (s' : Objects Spec Owner) : Prop where
  applied : Applied kind s' want
  others : ∀ key, key ≠ ⟨kind, want.key⟩ → s'.lookup key = s.lookup key

theorem AppliedFrom.insert (obj : Object Spec Owner) (hspec : obj.spec = want.spec)
    (hlabels : obj.labels = want.labels) :
    AppliedFrom kind s want (s.insert ⟨kind, want.key⟩ obj) where
  applied := by
    refine ⟨obj, ?_, hspec, fun k => by rw [hlabels]⟩
    rw [AMap.lookup_insert_ite, if_pos rfl]
  others key hkey := by rw [AMap.lookup_insert_ite, if_neg hkey]

theorem ended_error (s : Objects Spec Owner) (err : String) :
    Ended hc kind desired s (some err) := fun h => absurd h (by simp)

theorem applyMissing_holds (owners : List Owner) (hs : s.lookup ⟨kind, want.key⟩ = none)
    (hnext : ∀ s', AppliedFrom kind s want s' →
      next.Holds objectApi (Permitted hc kind) (Ended hc kind desired) s') :
    (applyMissing errorText kind { want.toObject with ownerReferences := owners } want.key
      next).Holds objectApi (Permitted hc kind) (Ended hc kind desired) s := by
  exact .of_call trivial (serve_create_none hs _) (hnext _ (.insert _ rfl rfl))
    fun why s' _ => ended_error s' _

theorem applyExisting_holds [DecidableEq Spec] (owners : List Owner) {existing : Object Spec Owner}
    (hs : s.lookup ⟨kind, want.key⟩ = some existing)
    (hnext : ∀ s', AppliedFrom kind s want s' →
      next.Holds objectApi (Permitted hc kind) (Ended hc kind desired) s') :
    (applyExisting errorText hc kind { want.toObject with ownerReferences := owners } existing
      want.key next).Holds objectApi (Permitted hc kind) (Ended hc kind desired) s := by
  unfold applyExisting
  by_cases hmanaged : isManagedBy existing.labels hc = false
  · rw [if_pos hmanaged]
    exact ended_error s _
  rw [if_neg hmanaged]
  by_cases hsame : existing.spec = want.spec ∧ sameLabels existing.labels want.labels = true
  · rw [if_pos hsame]
    exact hnext s ⟨⟨existing, hs, hsame.1, sameLabels_iff.mp hsame.2⟩, fun _ _ => rfl⟩
  rw [if_neg hsame]
  refine .of_call (fun old hold => ⟨rfl, ?_⟩) (serve_update_some hs _)
    (hnext _ (.insert _ rfl rfl)) fun why s' _ => ended_error s' _
  rw [hs] at hold
  cases hold
  exact isManagedBy_iff.mp (by simpa using hmanaged)

theorem applyOne_holds [DecidableEq Spec]
    (hnext : ∀ s', AppliedFrom kind s want s' →
      next.Holds objectApi (Permitted hc kind) (Ended hc kind desired) s') :
    (applyOne errorText hc kind setControllerReference want next).Holds objectApi
      (Permitted hc kind) (Ended hc kind desired) s := by
  unfold applyOne
  cases howner : setControllerReference want with
  | error err => exact ended_error s err
  | ok owners =>
    cases hs : s.lookup ⟨kind, want.key⟩ with
    | none =>
      exact .of_call trivial (serve_get_none hs) (applyMissing_holds owners hs hnext)
        fun why s' _ => ended_error s' _
    | some existing =>
      exact .of_call trivial (serve_get_some hs) (applyExisting_holds owners hs hnext)
        fun why s' _ => ended_error s' _

theorem applyAll_holds [DecidableEq Spec] {after : ObjectProg Spec Owner}
    (hafter : ∀ s', (∀ want ∈ desired.items, Applied kind s' want) →
      after.Holds objectApi (Permitted hc kind) (Ended hc kind desired) s') :
    (Prog.forEach (applyOne errorText hc kind setControllerReference) desired.items after).Holds
      objectApi (Permitted hc kind) (Ended hc kind desired) s := by
  apply Prog.Holds.forEach (fun done s => ∀ want ∈ done, want ∈ desired.items ∧ Applied kind s want)
  · intro done want next s hmem hdone hnext
    refine applyOne_holds fun s' hs' => hnext s' fun other hother => ?_
    rcases List.mem_append.mp hother with hold | hnew
    · obtain ⟨hitem, obj, hobj, hsame⟩ := hdone other hold
      refine ⟨hitem, ?_⟩
      by_cases hkey : other.key = want.key
      · rw [desired.eq_of_key hitem hmem hkey]
        exact hs'.applied
      · exact ⟨obj, (hs'.others _ (by simpa using hkey)).trans hobj, hsame⟩
    · rw [List.mem_singleton.mp hnew]
      exact ⟨hmem, hs'.applied⟩
  · exact fun s' hall => hafter s' fun want hwant => (hall want hwant).2
  · exact fun want hwant => absurd hwant (by simp)

/-- What the second loop knows when `done` of the listed names had their round. -/
structure Pruned (hc : ConfigName) (kind : String)
    (desired : Listing (Desired Spec Owner) Desired.key) (names done : List NamespacedName)
    (s : Objects Spec Owner) : Prop where
  applied : ∀ want ∈ desired.items, Applied kind s want
  left : ∀ name obj, s.lookup ⟨kind, name⟩ = some obj → Managed hc obj.labels →
    name ∈ desired.items.map Desired.key ∨ name ∈ names ∧ name ∉ done
  managed : ∀ name ∈ names, ∀ obj, s.lookup ⟨kind, name⟩ = some obj → Managed hc obj.labels

variable {name : NamespacedName} {names done : List NamespacedName}

/-- A round is over for a name that is desired or gone. -/
theorem Pruned.concat (h : Pruned hc kind desired names done s)
    (hname : name ∈ desired.items.map Desired.key ∨ s.lookup ⟨kind, name⟩ = none) :
    Pruned hc kind desired names (done ++ [name]) s where
  applied := h.applied
  managed := h.managed
  left := by
    intro other obj hobj hlabels
    by_cases hother : other = name
    · subst hother
      rcases hname with hdesired | hgone
      · exact .inl hdesired
      · rw [hgone] at hobj
        cases hobj
    · refine (h.left other obj hobj hlabels).imp_right fun ⟨hlisted, hnot⟩ => ⟨hlisted, ?_⟩
      simpa [hother] using hnot

theorem Pruned.erase (h : Pruned hc kind desired names done s)
    (hname : name ∉ desired.items.map Desired.key) :
    Pruned hc kind desired names done (s.erase ⟨kind, name⟩) where
  applied := by
    intro want hwant
    obtain ⟨obj, hobj, hsame⟩ := h.applied want hwant
    have hne : want.key ≠ name := fun h => hname (h ▸ List.mem_map_of_mem hwant)
    refine ⟨obj, ?_, hsame⟩
    rw [AMap.lookup_erase_ite, if_neg (by simpa using hne)]
    exact hobj
  left := by
    intro other obj hobj hlabels
    rw [AMap.lookup_erase_ite] at hobj
    split at hobj
    · cases hobj
    · exact h.left other obj hobj hlabels
  managed := by
    intro other hother obj hobj
    rw [AMap.lookup_erase_ite] at hobj
    split at hobj
    · cases hobj
    · exact h.managed other hother obj hobj

theorem pruneOne_holds (hlisted : name ∈ names) (h : Pruned hc kind desired names done s)
    (hnext : ∀ s', Pruned hc kind desired names (done ++ [name]) s' →
      next.Holds objectApi (Permitted hc kind) (Ended hc kind desired) s') :
    (pruneOne errorText kind (desired.items.map Desired.key) name next).Holds objectApi
      (Permitted hc kind) (Ended hc kind desired) s := by
  unfold pruneOne
  by_cases hdesired : name ∈ desired.items.map Desired.key
  · rw [if_pos hdesired]
    exact hnext s (h.concat (.inl hdesired))
  rw [if_neg hdesired]
  cases hs : s.lookup ⟨kind, name⟩ with
  | none =>
    refine .of_call (fun old hold => ?_) (serve_delete_none hs) (hnext s (h.concat (.inr hs)))
      fun why s' _ => ended_error s' _
    rw [hs] at hold
    cases hold
  | some obj =>
    refine .of_call (fun old hold => ⟨rfl, h.managed name hlisted old hold⟩)
      (serve_delete_some hs) (hnext _ ((h.erase hdesired).concat (.inr ?_)))
      fun why s' _ => ended_error s' _
    rw [AMap.lookup_erase_ite, if_pos rfl]

theorem mem_listed :
    name ∈ (s.toList.filterMap fun e =>
        if e.1.kind = kind ∧ selects (managedLabels hc) e.2.labels = true then some e.1.name
        else none)
      ↔ ∃ obj, s.lookup ⟨kind, name⟩ = some obj ∧ Managed hc obj.labels := by
  rw [List.mem_filterMap]
  constructor
  · intro ⟨⟨key, obj⟩, hmem, hsome⟩
    obtain ⟨⟨rfl, hselects⟩, hname⟩ := Option.ite_none_right_eq_some.mp hsome
    cases hname
    exact ⟨obj, AMap.mem_toList.mp hmem, selects_managedLabels.mp hselects⟩
  · intro ⟨obj, hobj, hmanaged⟩
    exact ⟨(⟨kind, name⟩, obj), AMap.mem_toList.mpr hobj,
      if_pos ⟨rfl, selects_managedLabels.mpr hmanaged⟩⟩

theorem prune_holds (h : ∀ want ∈ desired.items, Applied kind s want) :
    (prune errorText hc kind (desired.items.map Desired.key)).Holds objectApi
      (Permitted hc kind) (Ended hc kind desired) s := by
  refine .of_call trivial rfl ?_ fun why s' _ => ended_error s' _
  apply Prog.Holds.forEach (Pruned hc kind desired _)
  · exact fun done name next s hname hs hnext => pruneOne_holds hname hs hnext
  · intro s' hs' _
    refine ⟨hs'.applied, fun name obj hobj hmanaged => ?_⟩
    rcases hs'.left name obj hobj hmanaged with hdesired | ⟨hlisted, hnot⟩
    · exact hdesired
    · exact absurd hlisted hnot
  · refine ⟨h, fun name obj hobj hmanaged => ?_, fun name hname obj hobj => ?_⟩
    · exact .inr ⟨mem_listed.mpr ⟨obj, hobj, hmanaged⟩, by simp⟩
    · obtain ⟨obj', hobj', hmanaged⟩ := mem_listed.mp hname
      rw [hobj] at hobj'
      cases hobj'
      exact hmanaged

theorem applyAndPrune_holds [DecidableEq Spec] (errorText : ApiError → String)
    (hc : ConfigName) (kind : String)
    (setControllerReference : Desired Spec Owner → Except String (List Owner))
    (desired : Listing (Desired Spec Owner) Desired.key) (s : Objects Spec Owner) :
    (applyAndPrune errorText hc kind setControllerReference desired).Holds objectApi
      (Permitted hc kind) (Ended hc kind desired) s :=
  applyAll_holds fun _ h => prune_holds h

/-! ## The second run -/

/-- An object that is as it should be is left alone. -/
theorem applyExisting_eq [DecidableEq Spec] {obj existing : Object Spec Owner}
    (hmanaged : Managed hc existing.labels) (hspec : existing.spec = obj.spec)
    (hsame : ∀ k, existing.labels.lookup k = obj.labels.lookup k) :
    applyExisting errorText hc kind obj existing name next = next := by
  unfold applyExisting
  rw [if_neg (by simp [isManagedBy_iff.mpr hmanaged]), if_pos ⟨hspec, sameLabels_iff.mpr hsame⟩]

theorem settled_reads [DecidableEq Spec] (h : Settled hc kind desired s)
    (hlabels : ∀ want ∈ desired.items, Managed hc want.labels) :
    (applyAndPrune errorText hc kind setControllerReference desired).Holds objectApi
      (fun _ c => c.Reads) (fun _ _ => True) s := by
  -- the state of the loops is the settled one
  apply Prog.Holds.forEach (fun _ s' => s' = s)
  · intro done want next s' hwant hs' hnext
    subst hs'
    obtain ⟨existing, hexisting, hspec, hsame⟩ := h.applied want hwant
    unfold applyOne
    cases howner : setControllerReference want with
    | error err => trivial
    | ok owners =>
      have hskip : applyExisting errorText hc kind
          { want.toObject with ownerReferences := owners } existing want.key next = next :=
        applyExisting_eq ((hlabels want hwant).of_sameLabels hsame) hspec hsame
      refine .of_call trivial (serve_get_some hexisting) ?_ fun why s' _ => trivial
      rw [← hskip] at hnext
      exact hnext _ rfl
  · intro s' hs'
    subst hs'
    refine .of_call trivial rfl ?_ fun why s' _ => trivial
    apply Prog.Holds.forEach (fun _ t => t = s')
    · intro done name next t hname ht hnext
      subst ht
      obtain ⟨obj, hobj, hmanaged⟩ := mem_listed.mp hname
      unfold pruneOne
      rw [if_pos (h.only name obj hobj hmanaged)]
      exact hnext _ rfl
    · exact fun _ _ => trivial
    · rfl
  · rfl

end Settle

/-- Whatever calls fail: no object that is of another kind or lacks a label changes at
any time, a run without an error leaves exactly the desired objects with the labels,
each with the desired spec, and a run after it writes nothing. -/
theorem applyAndPrune_spec {Spec Owner : Type} [DecidableEq Spec] (errorText : ApiError → String)
    (hc : ConfigName) (kind : String)
    (setControllerReference : Desired Spec Owner → Except String (List Owner))
    (desired : Listing (Desired Spec Owner) Desired.key)
    (hlabels : ∀ want ∈ desired.items, Managed hc want.labels)
    (s : Objects Spec Owner) (fates : Nat → Fate) :
    let program := applyAndPrune errorText hc kind setControllerReference desired
    let first := program.run objectApi fates 0 s
    (UnmanagedKept hc kind s first.state ∧ ∀ e ∈ first.trace, UnmanagedKept hc kind s e.1)
      ∧ (first.result = none →
        (∀ name, (∃ obj, first.state.lookup ⟨kind, name⟩ = some obj ∧ Managed hc obj.labels)
            ↔ name ∈ desired.items.map Desired.key)
          ∧ (∀ want ∈ desired.items, ∃ obj, first.state.lookup ⟨kind, want.key⟩ = some obj
            ∧ obj.spec = want.spec)
          ∧ ∀ fates', ∀ e ∈ (program.run objectApi fates' 0 first.state).trace, e.2.Reads) := by
  have hholds := applyAndPrune_holds errorText hc kind setControllerReference desired s
  refine ⟨hholds.invariant (fun t c fate hallowed ht => ht.effect hallowed fate)
    (fun _ _ hobj _ => hobj) fates 0, fun hnone => ?_⟩
  have hsettled : Settled hc kind desired _ := (hholds.run fates 0).1 hnone
  refine ⟨fun name => ⟨fun ⟨obj, hobj, hmanaged⟩ => hsettled.only name obj hobj hmanaged,
    fun hname => ?_⟩, fun want hwant => ?_, fun fates' => ?_⟩
  · obtain ⟨want, hwant, rfl⟩ := List.mem_map.mp hname
    obtain ⟨obj, hobj, -, hsame⟩ := hsettled.applied want hwant
    exact ⟨obj, hobj, (hlabels want hwant).of_sameLabels hsame⟩
  · obtain ⟨obj, hobj, hspec, -⟩ := hsettled.applied want hwant
    exact ⟨obj, hobj, hspec⟩
  · exact ((settled_reads hsettled hlabels).run fates' 0).2

/-! ## Two grants -/

def mainName : ConfigName := ⟨"main", by decide⟩

def twoGrants : Listing (Desired Nat Unit) Desired.key where
  items := [⟨⟨managedLabels mainName, 1, []⟩, ⟨"a", "x"⟩⟩,
    ⟨⟨managedLabels mainName, 2, []⟩, ⟨"a", "y"⟩⟩]
  nodup := by decide

/-- One grant is missing, one has another spec, one is no longer desired, and one
belongs to somebody else. -/
def oldGrants : Objects Nat Unit :=
  AMap.insertAll ∅ [(⟨"ReferenceGrant", ⟨"a", "y"⟩⟩, ⟨managedLabels mainName, 1, []⟩),
    (⟨"ReferenceGrant", ⟨"a", "z"⟩⟩, ⟨managedLabels mainName, 3, []⟩),
    (⟨"ReferenceGrant", ⟨"b", "z"⟩⟩, ⟨∅, 3, []⟩)]

def grantsRun : Prog.Outcome (Objects Nat Unit) (ObjectCall Nat Unit) (Option String) :=
  (applyAndPrune (fun _ => "") mainName "ReferenceGrant" (fun _ => .ok [()]) twoGrants).run
    objectApi (fun _ => .served) 0 oldGrants

theorem applyAndPrune_spec_grants :
    grantsRun.result = none
      ∧ (∀ name, (∃ obj, grantsRun.state.lookup ⟨"ReferenceGrant", name⟩ = some obj
          ∧ Managed mainName obj.labels) ↔ name ∈ twoGrants.items.map Desired.key)
      ∧ UnmanagedKept mainName "ReferenceGrant" oldGrants grantsRun.state := by
  have hlabels : ∀ want ∈ twoGrants.items, Managed mainName want.labels := by
    intro want hwant
    rcases List.mem_pair.mp hwant with rfl | rfl
    · exact ⟨rfl, rfl⟩
    · exact ⟨rfl, rfl⟩
  have hspec := applyAndPrune_spec (fun _ => "") mainName "ReferenceGrant" (fun _ => .ok [()])
    twoGrants hlabels oldGrants fun _ => .served
  exact ⟨rfl, (hspec.2 rfl).1, hspec.1.1⟩

end Hypergate.Operator.ExtProc
