import Hypergate.Identity.Types
import Hypergate.Lib.Calls
import Hypergate.Lib.TSys

/-!
# The identity endpoint and its hand-over (`hyper-operator/internal/identity/publisher.go`)

The leader writes its pod IP into the one EndpointSlice of the identity Service.
`publish` reads the slice and then creates, updates or, because the address type
of a slice cannot change, deletes and creates it; `markNotReady` takes a stopped
leader out of it. Each is a program of calls to the API server, which checks the
resource version of an update and gives every write a new one.

Here an old leader has read the slice in `publish` and not yet acted on it, and a
new leader publishes. `handoverSys` runs the rest of the old leader's `publish`,
its `markNotReady` and the new leader's `publish` side by side.

* `handover_safe_iff` — the new leader's slice is safe from the old leader exactly
  when the slice that the old leader read had the old leader's own address type
  and was not already the new leader's.
-/

namespace Hypergate.Operator

open Lib Identity

/-! ## Slices -/

/-- `discoveryv1.AddressType`. -/
inductive AddressType where
  | ipv4 | ipv6 | fqdn
  deriving DecidableEq

/-- `discoveryv1.EndpointConditions`. -/
structure EndpointConditions where
  ready : Option Bool := none
  serving : Option Bool := none
  terminating : Option Bool := none
  deriving DecidableEq

/-- `corev1.ObjectReference`, the fields that are set. -/
structure ObjectReference where
  kind : String
  namespace_ : String
  name : String
  deriving DecidableEq

/-- `discoveryv1.Endpoint`. -/
structure Endpoint where
  addresses : List String
  conditions : EndpointConditions := {}
  targetRef : Option ObjectReference := none
  deriving DecidableEq

/-- `discoveryv1.EndpointPort`. -/
structure EndpointPort where
  name : Option String := none
  port : Option Int := none
  protocol : Option String := none
  deriving DecidableEq

/-- `discoveryv1.EndpointSlice`. There is one name that all replicas write to, so
it is left out. -/
structure EndpointSlice where
  labels : AMap String String := ∅
  addressType : AddressType
  endpoints : List Endpoint := []
  ports : List EndpointPort := []
  resourceVersion : Nat := 0

/-- `discoveryv1.LabelManagedBy`. -/
def labelManagedBy : String := "endpointslice.kubernetes.io/managed-by"

def endpointSliceManagedBy : String := "hyper-operator.hyper.io"

/-! ## The API server -/

inductive ApiError where
  | notFound | alreadyExists | conflict
  | other (why : String)
  deriving DecidableEq

/-- The slice as the server has it. `revision` is the last resource version it
gave out. -/
structure SliceStore where
  slice : Option EndpointSlice := none
  revision : Nat
  current : ∀ x, slice = some x → x.resourceVersion ≤ revision

inductive SliceCall where
  | get
  | create (want : EndpointSlice)
  | update (x : EndpointSlice)
  | delete

@[reducible] def SliceCall.Answer : SliceCall → Type
  | .get => Except ApiError EndpointSlice
  | .create _ => Except ApiError Unit
  | .update _ => Except ApiError Unit
  | .delete => Except ApiError Unit

namespace SliceStore

/-- A write gives the slice a new resource version. -/
def write (s : SliceStore) (x : EndpointSlice) : SliceStore where
  slice := some { x with resourceVersion := s.revision + 1 }
  revision := s.revision + 1
  current y hy := by
    cases hy
    exact Nat.le_refl _

def remove (s : SliceStore) : SliceStore where
  slice := none
  revision := s.revision + 1
  current y hy := absurd hy (by simp)

/-- `Create` fails if the slice exists, `Update` unless it is given the current
resource version. `Delete` takes no precondition. -/
def serve (s : SliceStore) : (c : SliceCall) → SliceStore × c.Answer
  | .get => (s, match s.slice with
      | none => .error .notFound
      | some x => .ok x)
  | .create want =>
    match s.slice with
    | some _ => (s, .error .alreadyExists)
    | none => (s.write want, .ok ())
  | .update x =>
    match s.slice with
    | none => (s, .error .notFound)
    | some cur =>
      if x.resourceVersion = cur.resourceVersion then (s.write x, .ok ())
      else (s, .error .conflict)
  | .delete =>
    match s.slice with
    | none => (s, .error .notFound)
    | some _ => (s.remove, .ok ())

end SliceStore

/-- The server, with the calls that do not get through. -/
def sliceApi : Api SliceStore SliceCall SliceCall.Answer where
  serve := SliceStore.serve
  failed why
    | .get => .error (.other why)
    | .create _ => .error (.other why)
    | .update _ => .error (.other why)
    | .delete => .error (.other why)

/-! ## The publisher -/

structure EndpointPublisher where
  namespace_ : String
  serviceName : String
  podName : String
  podIP : String
  port : Int

abbrev SliceProg := Prog SliceCall SliceCall.Answer (Option ApiError)

/-- `return err`. -/
def errorOf : Except ApiError Unit → Option ApiError
  | .ok _ => none
  | .error e => some e

/-- `_, err = slices.Create(...); return err`. -/
def createSlice (want : EndpointSlice) : SliceProg :=
  .call (.create want) fun r => .done (errorOf r)

/-- `_, err = slices.Update(...); return err`. -/
def updateSlice (x : EndpointSlice) : SliceProg :=
  .call (.update x) fun r => .done (errorOf r)

/-- The address type is immutable: delete the slice and create it again. -/
def replaceSlice (want : EndpointSlice) : SliceProg :=
  .call .delete fun r =>
    match r with
    | .ok _ => createSlice want
    | .error .notFound => createSlice want
    | .error e => .done (some e)

/-- The slice needs no write. -/
def upToDate (got want : EndpointSlice) : Bool :=
  got.endpoints = want.endpoints && got.ports = want.ports &&
    (got.labels.getD labelManagedBy "" = endpointSliceManagedBy) &&
    got.addressType = want.addressType

namespace EndpointPublisher

variable (parseAddr : String → Option Addr) (p : EndpointPublisher)

/-- The address type of the pod's own address. -/
def addressType : AddressType :=
  match parseAddr p.podIP with
  | some (.v6 bits zone) => if (Addr.v6 bits zone).is4In6 then .ipv4 else .ipv6
  | _ => .ipv4

def desired (ready : Bool) : EndpointSlice where
  labels := AMap.insertAll ∅ [("kubernetes.io/service-name", p.serviceName),
    (labelManagedBy, endpointSliceManagedBy)]
  addressType := p.addressType parseAddr
  endpoints :=
    [{ addresses := [p.podIP]
       conditions := { ready := some ready, serving := some ready, terminating := some (!ready) }
       targetRef := some { kind := "Pod", namespace_ := p.namespace_, name := p.podName } }]
  ports := [{ name := some "grpc", port := some p.port, protocol := some "TCP" }]

/-- `publish`, once it has the answer to its `Get`. -/
def publishAfterGet (ready : Bool) : Except ApiError EndpointSlice → SliceProg
  | .error .notFound => createSlice (p.desired parseAddr ready)
  | .error e => .done (some e)
  | .ok got =>
    let want := p.desired parseAddr ready
    if upToDate got want then .done none
    else if got.addressType ≠ want.addressType then replaceSlice want
    else updateSlice
      { got with labels := want.labels, endpoints := want.endpoints, ports := want.ports }

def publish (ready : Bool) : SliceProg := .call .get (p.publishAfterGet parseAddr ready)

/-- The slice has one endpoint, with this pod's address and no other. -/
def owns (got : EndpointSlice) : Bool :=
  match got.endpoints with
  | [e] => e.addresses = [p.podIP]
  | _ => false

def markNotReady : SliceProg :=
  .call .get fun r =>
    match r with
    | .error e => .done (some e)
    | .ok got =>
      if p.owns got then
        updateSlice { got with endpoints := (p.desired parseAddr false).endpoints }
      else .done none

end EndpointPublisher

/-! ## The hand-over -/

/-- What runs side by side. -/
inductive HandoverThread where
  | oldPublish | oldMark | newPublish
  deriving DecidableEq

structure Handover where
  store : SliceStore
  oldPublish : SliceProg
  oldMark : SliceProg
  newPublish : SliceProg

namespace Handover

variable (parseAddr : String → Option Addr) (p q : EndpointPublisher)

/-- The old leader `p` has just read the slice. -/
def start (store : SliceStore) : Handover where
  store
  oldPublish := p.publishAfterGet parseAddr true (sliceApi.serve store .get).2
  oldMark := p.markNotReady parseAddr
  newPublish := q.publish parseAddr true

/-- One call of one of the three. -/
def step (σ : Handover) : HandoverThread × Fate → Option Handover
  | (.oldPublish, fate) => (σ.oldPublish.step sliceApi fate σ.store).map fun (store, t) =>
    { σ with store, oldPublish := t }
  | (.oldMark, fate) => (σ.oldMark.step sliceApi fate σ.store).map fun (store, t) =>
    { σ with store, oldMark := t }
  | (.newPublish, fate) => (σ.newPublish.step sliceApi fate σ.store).map fun (store, t) =>
    { σ with store, newPublish := t }

end Handover

def handoverSys (parseAddr : String → Option Addr) (p q : EndpointPublisher)
    (store : SliceStore) : TSys Handover (HandoverThread × Fate) where
  init σ := σ = .start parseAddr p q store
  step := Handover.step

/-! ## Calls -/

/-- A write gave out a resource version that nobody has read before. -/
structure Stamped (s s' : SliceStore) : Prop where
  revision : s.revision < s'.revision
  fresh : ∀ x, s'.slice = some x → s.revision < x.resourceVersion

theorem Stamped.write (s : SliceStore) (x : EndpointSlice) : Stamped s (s.write x) where
  revision := Nat.lt_succ_self _
  fresh y hy := by
    cases hy
    exact Nat.lt_succ_self _

theorem Stamped.remove (s : SliceStore) : Stamped s s.remove where
  revision := Nat.lt_succ_self _
  fresh y hy := absurd hy (by simp [SliceStore.remove])

theorem serve_cases (s : SliceStore) (c : SliceCall) :
    (s.serve c).1 = s ∨ Stamped s (s.serve c).1 := by
  cases c with
  | get => exact .inl rfl
  | create want =>
    unfold SliceStore.serve
    dsimp only
    cases s.slice with
    | none => exact .inr (.write s want)
    | some cur => exact .inl rfl
  | update x =>
    unfold SliceStore.serve
    dsimp only
    cases s.slice with
    | none => exact .inl rfl
    | some cur =>
      dsimp only
      split
      · exact .inr (.write s x)
      · exact .inl rfl
  | delete =>
    unfold SliceStore.serve
    dsimp only
    cases s.slice with
    | none => exact .inl rfl
    | some cur => exact .inr (.remove s)

theorem effect_cases (fate : Fate) (s : SliceStore) (c : SliceCall) :
    sliceApi.effect fate s c = s ∨ Stamped s (sliceApi.effect fate s c) := by
  rcases sliceApi.answer_cases fate s c with ⟨he, _⟩ | ⟨he | he, _⟩
  · rw [he]
    exact serve_cases s c
  · exact .inl he
  · rw [he]
    exact serve_cases s c

/-! ## Pending calls -/

/-- The slice is the one that `want` asks for. -/
def SliceStore.Shows (s : SliceStore) (want : EndpointSlice) : Prop :=
  ∃ x, s.slice = some x ∧ upToDate x want = true

section Pending

variable {want : EndpointSlice} {s s' : SliceStore} {t t' : SliceProg} {fate : Fate}

/-- A thread of the old leader: it is done, or has one write to make. An update
carries a resource version that was never given to a slice in `want`'s state. -/
inductive OldPending (want : EndpointSlice) (s : SliceStore) : SliceProg → Prop
  | done (r : Option ApiError) : OldPending want s (.done r)
  | create (x : EndpointSlice) : OldPending want s (createSlice x)
  | update (x : EndpointSlice) (hread : x.resourceVersion ≤ s.revision)
      (hother : ∀ cur, s.slice = some cur → cur.resourceVersion = x.resourceVersion →
        upToDate cur want = false) :
      OldPending want s (updateSlice x)

/-- Other writes only make the old leader's updates staler. -/
theorem OldPending.of_stamped (h : OldPending want s t) (hs : s' = s ∨ Stamped s s') :
    OldPending want s' t := by
  rcases hs with rfl | hs
  · exact h
  cases h with
  | done r => exact .done r
  | create x => exact .create x
  | update x hread _ =>
    refine .update x (Nat.le_of_lt (Nat.lt_of_le_of_lt hread hs.revision)) fun cur hcur heq => ?_
    have hfresh := hs.fresh cur hcur
    omega

/-- A write of the old leader does not go through once the slice shows `want`. -/
theorem OldPending.step (h : OldPending want s t)
    (hstep : t.step sliceApi fate s = some (s', t')) :
    OldPending want s' t' ∧ (s.Shows want → s' = s) := by
  cases h with
  | done r => cases hstep
  | create x =>
    obtain ⟨rfl, rfl⟩ := Prod.mk.inj (Option.some.inj hstep)
    refine ⟨.done _, fun ⟨cur, hcur, _⟩ => ?_⟩
    have hserve : (s.serve (.create x)).1 = s := by
      unfold SliceStore.serve
      rw [hcur]
    rcases sliceApi.answer_cases fate s (.create x) with ⟨he, _⟩ | ⟨he | he, _⟩
    · exact he.trans hserve
    · exact he
    · exact he.trans hserve
  | update x hread hother =>
    obtain ⟨rfl, rfl⟩ := Prod.mk.inj (Option.some.inj hstep)
    refine ⟨.done _, fun ⟨cur, hcur, hshows⟩ => ?_⟩
    have hstale : ¬ x.resourceVersion = cur.resourceVersion := by
      intro heq
      exact absurd ((hother cur hcur heq.symm).symm.trans hshows) (by simp)
    have hserve : (s.serve (.update x)).1 = s := by
      unfold SliceStore.serve
      rw [hcur]
      dsimp only
      rw [if_neg hstale]
    rcases sliceApi.answer_cases fate s (.update x) with ⟨he, _⟩ | ⟨he | he, _⟩
    · exact he.trans hserve
    · exact he
    · exact he.trans hserve

/-- A thread of the new leader, which wants `want`. -/
inductive NewPending (want : EndpointSlice) (s : SliceStore) : SliceProg → Prop
  | replace : NewPending want s (replaceSlice want)
  | create : NewPending want s (createSlice want)
  | update (x : EndpointSlice) (hx : upToDate x want = true) : NewPending want s (updateSlice x)
  | failed (e : ApiError) : NewPending want s (.done (some e))
  | done (h : s.Shows want) : NewPending want s (.done none)

theorem upToDate_stamp (x want : EndpointSlice) (v : Nat) :
    upToDate { x with resourceVersion := v } want = upToDate x want := rfl

theorem SliceStore.shows_write (s : SliceStore) {x want : EndpointSlice}
    (h : upToDate x want = true) : (s.write x).Shows want :=
  ⟨_, rfl, by rw [upToDate_stamp, h]⟩

/-- The new leader's own calls: when it is done without an error, the slice shows
what it wants. -/
theorem NewPending.step (hwant : upToDate want want = true) (h : NewPending want s t)
    (hstep : t.step sliceApi fate s = some (s', t')) : NewPending want s' t' := by
  cases h with
  | replace =>
    obtain ⟨rfl, rfl⟩ := Prod.mk.inj (Option.some.inj hstep)
    rcases sliceApi.answer_cases fate s .delete with ⟨_, ha⟩ | ⟨_, why, ha⟩
    · rw [ha]
      change NewPending want _ (match (s.serve .delete).2 with
        | .ok _ => createSlice want
        | .error .notFound => createSlice want
        | .error e => .done (some e))
      unfold SliceStore.serve
      cases s.slice with
      | none => exact .create
      | some cur => exact .create
    · rw [ha]
      exact .failed _
  | create =>
    obtain ⟨rfl, rfl⟩ := Prod.mk.inj (Option.some.inj hstep)
    rcases sliceApi.answer_cases fate s (.create want) with ⟨he, ha⟩ | ⟨_, why, ha⟩
    · rw [he, ha]
      show NewPending want (s.serve (.create want)).1 (.done (errorOf (s.serve (.create want)).2))
      unfold SliceStore.serve
      cases s.slice with
      | none => exact .done (s.shows_write hwant)
      | some cur => exact .failed _
    · rw [ha]
      exact .failed _
  | update x hx =>
    obtain ⟨rfl, rfl⟩ := Prod.mk.inj (Option.some.inj hstep)
    rcases sliceApi.answer_cases fate s (.update x) with ⟨he, ha⟩ | ⟨_, why, ha⟩
    · rw [he, ha]
      show NewPending want (s.serve (.update x)).1 (.done (errorOf (s.serve (.update x)).2))
      unfold SliceStore.serve
      cases s.slice with
      | none => exact .failed _
      | some cur =>
        dsimp only
        split
        · exact .done (s.shows_write hx)
        · exact .failed _
    · rw [ha]
      exact .failed _
  | failed e => cases hstep
  | done h => cases hstep

end Pending

/-! ## What the publishers ask for -/

section Desired

variable (parseAddr : String → Option Addr) (p q : EndpointPublisher)

theorem upToDate_iff (got want : EndpointSlice) :
    upToDate got want = true ↔ got.endpoints = want.endpoints ∧ got.ports = want.ports
      ∧ got.labels.getD labelManagedBy "" = endpointSliceManagedBy
      ∧ got.addressType = want.addressType := by
  simp [upToDate, and_assoc]

theorem desired_managed (ready : Bool) :
    (p.desired parseAddr ready).labels.getD labelManagedBy "" = endpointSliceManagedBy := rfl

theorem upToDate_desired (ready : Bool) :
    upToDate (p.desired parseAddr ready) (p.desired parseAddr ready) = true :=
  (upToDate_iff _ _).mpr ⟨rfl, rfl, desired_managed parseAddr p ready, rfl⟩

/-- A slice with the address of one pod is not what another pod wants. -/
theorem upToDate_other (hip : p.podIP ≠ q.podIP) {got : EndpointSlice} (ready : Bool)
    (h : upToDate got (p.desired parseAddr ready) = true ∨ p.owns got = true) :
    upToDate got (q.desired parseAddr true) = false := by
  have haddresses : ∃ e, got.endpoints = [e] ∧ e.addresses = [p.podIP] := by
    rcases h with h | h
    · exact ⟨_, ((upToDate_iff _ _).mp h).1, rfl⟩
    · unfold EndpointPublisher.owns at h
      split at h
      · exact ⟨_, ‹_›, of_decide_eq_true h⟩
      · cases h
  obtain ⟨e, hendpoints, he⟩ := haddresses
  rw [Bool.eq_false_iff]
  intro hq
  have hsame := hendpoints.symm.trans ((upToDate_iff _ _).mp hq).1
  have hfirst := (List.cons.inj hsame).1
  rw [hfirst] at he
  exact hip (List.cons.inj he).1.symm

end Desired

/-! ## The invariant of the hand-over -/

section Handover

variable {parseAddr : String → Option Addr} {p q : EndpointPublisher} {s s' : SliceStore}
  {t t' : SliceProg} {fate : Fate}

theorem step_stamped (hstep : t.step sliceApi fate s = some (s', t')) : s' = s ∨ Stamped s s' := by
  cases t with
  | done r => cases hstep
  | call c next =>
    obtain ⟨rfl, _⟩ := Prod.mk.inj (Option.some.inj hstep)
    exact effect_cases fate s c

theorem effect_get (fate : Fate) (s : SliceStore) : sliceApi.effect fate s .get = s := by
  cases fate <;> rfl

/-- The answer to a `Get`: it failed, or it is what the server has. -/
theorem answer_get (fate : Fate) (s : SliceStore) :
    (∃ why, sliceApi.answer fate s .get = .error (.other why))
      ∨ s.slice = none ∧ sliceApi.answer fate s .get = .error .notFound
      ∨ ∃ x, s.slice = some x ∧ sliceApi.answer fate s .get = .ok x := by
  rcases sliceApi.answer_cases fate s .get with ⟨_, ha⟩ | ⟨_, why, ha⟩
  · rw [ha]
    change _ ∨ s.slice = none ∧ (s.serve .get).2 = _ ∨ ∃ x, s.slice = some x ∧ (s.serve .get).2 = _
    unfold SliceStore.serve
    cases s.slice with
    | none => exact .inr (.inl ⟨rfl, rfl⟩)
    | some x => exact .inr (.inr ⟨x, rfl, rfl⟩)
  · rw [ha]
    exact .inl ⟨why, rfl⟩

theorem newPending_afterGet (fate : Fate) (s : SliceStore) :
    NewPending (q.desired parseAddr true) s
      (q.publishAfterGet parseAddr true (sliceApi.answer fate s .get)) := by
  rcases answer_get fate s with ⟨why, ha⟩ | ⟨_, ha⟩ | ⟨x, hx, ha⟩
  · rw [ha]
    exact .failed _
  · rw [ha]
    exact .create
  · rw [ha]
    unfold EndpointPublisher.publishAfterGet
    dsimp only
    split
    · exact .done ⟨x, hx, ‹_›⟩
    · split
      · exact .replace
      · rename_i htype
        exact .update _ ((upToDate_iff _ _).mpr
          ⟨rfl, rfl, desired_managed parseAddr q true, not_not.mp htype⟩)

/-- The old leader after the `Get` of `markNotReady`. -/
theorem oldPending_mark (hip : p.podIP ≠ q.podIP)
    (hstep : (p.markNotReady parseAddr).step sliceApi fate s = some (s', t')) :
    s' = s ∧ OldPending (q.desired parseAddr true) s t' := by
  obtain ⟨rfl, rfl⟩ := Prod.mk.inj (Option.some.inj hstep)
  refine ⟨effect_get fate s, ?_⟩
  rcases answer_get fate s with ⟨why, ha⟩ | ⟨_, ha⟩ | ⟨x, hx, ha⟩
  · rw [ha]
    exact .done _
  · rw [ha]
    exact .done _
  · rw [ha]
    dsimp only
    split
    · rename_i howns
      refine .update _ (s.current x hx) fun cur hcur _ => ?_
      obtain rfl := Option.some.inj (hx.symm.trans hcur)
      exact upToDate_other parseAddr p q hip true (.inr howns)
    · exact .done _

/-- The slice that the old leader read has its own address type, and is not the new
leader's. -/
def Harmless (parseAddr : String → Option Addr) (p q : EndpointPublisher) (s : SliceStore) : Prop :=
  ∀ x, s.slice = some x → x.addressType = p.addressType parseAddr
    ∧ upToDate x (q.desired parseAddr true) = false

theorem oldPending_afterGet (h : Harmless parseAddr p q s) :
    OldPending (q.desired parseAddr true) s
      (p.publishAfterGet parseAddr true (sliceApi.serve s .get).2) := by
  rcases answer_get .served s with ⟨why, ha⟩ | ⟨_, ha⟩ | ⟨x, hx, ha⟩
  · rw [show (sliceApi.serve s .get).2 = _ from ha]
    exact .done _
  · rw [show (sliceApi.serve s .get).2 = _ from ha]
    exact .create _
  · rw [show (sliceApi.serve s .get).2 = _ from ha]
    obtain ⟨htype, hother⟩ := h x hx
    unfold EndpointPublisher.publishAfterGet
    dsimp only
    split
    · exact .done _
    · have hsame : ¬ x.addressType ≠ (p.desired parseAddr true).addressType := not_not.mpr htype
      rw [if_neg hsame]
      refine .update _ (s.current x hx) fun cur hcur _ => ?_
      obtain rfl := Option.some.inj (hx.symm.trans hcur)
      exact hother

/-- What holds throughout a hand-over that starts harmless. -/
structure Handover.Inv (parseAddr : String → Option Addr) (p q : EndpointPublisher)
    (σ : Handover) : Prop where
  oldPublish : OldPending (q.desired parseAddr true) σ.store σ.oldPublish
  oldMark : σ.oldMark = p.markNotReady parseAddr
    ∨ OldPending (q.desired parseAddr true) σ.store σ.oldMark
  newPublish : σ.newPublish = q.publish parseAddr true
    ∨ NewPending (q.desired parseAddr true) σ.store σ.newPublish

/-- The new leader is not affected by a step that leaves its slice alone. -/
theorem NewPending.of_shows {want : EndpointSlice} (h : NewPending want s t)
    (hs : s.Shows want → s' = s) : NewPending want s' t := by
  cases h with
  | replace => exact .replace
  | create => exact .create
  | update x hx => exact .update x hx
  | failed e => exact .failed e
  | done h =>
    rw [hs h]
    exact .done h

/-- A call of the old leader keeps the invariant, and changes nothing once the
slice is the new leader's. -/
theorem Handover.Inv.old_step (hip : p.podIP ≠ q.podIP) {σ σ' : Handover}
    (h : σ.Inv parseAddr p q) {thread : HandoverThread} (hold : thread ≠ .newPublish)
    (hstep : σ.step (thread, fate) = some σ') :
    σ'.Inv parseAddr p q
      ∧ (σ.store.Shows (q.desired parseAddr true) → σ'.store = σ.store) := by
  cases thread with
  | oldPublish =>
    obtain ⟨⟨s', t'⟩, hcall, rfl⟩ := Option.map_eq_some_iff.mp hstep
    obtain ⟨hold', hshows⟩ := h.oldPublish.step hcall
    have hs := step_stamped hcall
    refine ⟨⟨hold', ?_, ?_⟩, hshows⟩
    · exact h.oldMark.imp_right fun hm => hm.of_stamped hs
    · exact h.newPublish.imp_right fun hn => hn.of_shows hshows
  | oldMark =>
    obtain ⟨⟨s', t'⟩, hcall, rfl⟩ := Option.map_eq_some_iff.mp hstep
    have hmark : OldPending (q.desired parseAddr true) s' t'
        ∧ (σ.store.Shows (q.desired parseAddr true) → s' = σ.store) := by
      rcases h.oldMark with heq | hm
      · rw [heq] at hcall
        obtain ⟨rfl, ht⟩ := oldPending_mark hip hcall
        exact ⟨ht, fun _ => rfl⟩
      · exact hm.step hcall
    have hs := step_stamped hcall
    exact ⟨⟨h.oldPublish.of_stamped hs, .inr hmark.1,
      h.newPublish.imp_right fun hn => hn.of_shows hmark.2⟩, hmark.2⟩
  | newPublish => exact absurd rfl hold

theorem Handover.Inv.new_step {σ σ' : Handover} (h : σ.Inv parseAddr p q)
    (hstep : σ.step (.newPublish, fate) = some σ') : σ'.Inv parseAddr p q := by
  obtain ⟨⟨s', t'⟩, hcall, rfl⟩ := Option.map_eq_some_iff.mp hstep
  have hs := step_stamped hcall
  refine ⟨h.oldPublish.of_stamped hs, h.oldMark.imp_right fun hm => hm.of_stamped hs, .inr ?_⟩
  rcases h.newPublish with heq | hn
  · rw [heq] at hcall
    obtain ⟨rfl, rfl⟩ := Prod.mk.inj (Option.some.inj hcall)
    rw [effect_get]
    exact newPending_afterGet fate σ.store
  · exact hn.step (upToDate_desired parseAddr q true) hcall

theorem handover_inductive (hip : p.podIP ≠ q.podIP) (h : Harmless parseAddr p q s) :
    (handoverSys parseAddr p q s).Inductive (fun _ _ => True) (Handover.Inv parseAddr p q) where
  init σ hσ := by
    obtain rfl : σ = .start parseAddr p q s := hσ
    exact ⟨oldPending_afterGet h, .inl rfl, .inl rfl⟩
  step σ e σ' hinv _ hstep := by
    obtain ⟨thread, fate⟩ := e
    by_cases hnew : thread = .newPublish
    · rw [hnew] at hstep
      exact hinv.new_step hstep
    · exact (hinv.old_step hip hnew hstep).1

/-! ## Harmful starts -/

/-- The new leader, left alone, publishes without an error. -/
theorem exists_published (parseAddr : String → Option Addr) (p q : EndpointPublisher)
    {x : EndpointSlice} (hx : s.slice = some x) :
    ∃ σ, (handoverSys parseAddr p q s).Reachable σ ∧ σ.newPublish = .done none
      ∧ σ.oldPublish = (Handover.start parseAddr p q s).oldPublish
      ∧ (∃ y, σ.store.slice = some y)
      ∧ (upToDate x (q.desired parseAddr true) = true → σ.store = s) := by
  have hget : (sliceApi.serve s .get).2 = .ok x := by
    show (s.serve .get).2 = _
    unfold SliceStore.serve
    rw [hx]
  have hstart : (handoverSys parseAddr p q s).Reachable (.start parseAddr p q s) := .init rfl
  -- the `Get`
  have hread : (handoverSys parseAddr p q s).Reachable
      { Handover.start parseAddr p q s with
        newPublish := q.publishAfterGet parseAddr true (.ok x) } := by
    refine hstart.step (e := (.newPublish, .served)) trivial ?_
    show some { Handover.start parseAddr p q s with
      store := s, newPublish := q.publishAfterGet parseAddr true (sliceApi.serve s .get).2 } = _
    rw [hget]
    rfl
  by_cases hsame : upToDate x (q.desired parseAddr true) = true
  · refine ⟨_, hread, ?_, rfl, ⟨x, hx⟩, fun _ => rfl⟩
    show q.publishAfterGet parseAddr true (.ok x) = _
    unfold EndpointPublisher.publishAfterGet
    dsimp only
    rw [if_pos hsame]
  by_cases htype : x.addressType ≠ (q.desired parseAddr true).addressType
  · have hafter : q.publishAfterGet parseAddr true (.ok x)
        = replaceSlice (q.desired parseAddr true) := by
      unfold EndpointPublisher.publishAfterGet
      dsimp only
      rw [if_neg hsame, if_pos htype]
    have hserve : s.serve .delete = (s.remove, .ok ()) := by
      unfold SliceStore.serve
      rw [hx]
    -- the `Delete` and the `Create`
    have hdeleted : (handoverSys parseAddr p q s).Reachable
        { Handover.start parseAddr p q s with
          store := s.remove, newPublish := createSlice (q.desired parseAddr true) } := by
      refine hread.step (e := (.newPublish, .served)) trivial ?_
      rw [hafter]
      show some { Handover.start parseAddr p q s with
        store := (s.serve .delete).1, newPublish := match (s.serve .delete).2 with
          | .ok _ => createSlice (q.desired parseAddr true)
          | .error .notFound => createSlice (q.desired parseAddr true)
          | .error e => .done (some e) } = _
      rw [hserve]
    exact ⟨_, hdeleted.step (e := (.newPublish, .served)) trivial rfl, rfl, rfl, ⟨_, rfl⟩,
      fun h => absurd h hsame⟩
  · have hafter : ∃ y, q.publishAfterGet parseAddr true (.ok x) = updateSlice y
        ∧ y.resourceVersion = x.resourceVersion := by
      unfold EndpointPublisher.publishAfterGet
      dsimp only
      rw [if_neg hsame, if_neg htype]
      exact ⟨_, rfl, rfl⟩
    obtain ⟨y, hafter, hversion⟩ := hafter
    have hserve : s.serve (.update y) = (s.write y, .ok ()) := by
      unfold SliceStore.serve
      rw [hx]
      dsimp only
      rw [if_pos hversion]
    -- the `Update`
    have hupdated : (handoverSys parseAddr p q s).Reachable
        { Handover.start parseAddr p q s with store := s.write y, newPublish := .done none } := by
      refine hread.step (e := (.newPublish, .served)) trivial ?_
      rw [hafter]
      show some { Handover.start parseAddr p q s with
        store := (s.serve (.update y)).1
        newPublish := .done (errorOf (s.serve (.update y)).2) } = _
      rw [hserve]
      rfl
    exact ⟨_, hupdated, rfl, rfl, ⟨_, rfl⟩, fun h => absurd h hsame⟩

/-- A pending call of the old leader's `publish` is served. -/
theorem oldPublish_step {σ : Handover} {c : SliceCall} {next : c.Answer → SliceProg}
    (h : σ.oldPublish = .call c next) :
    ∃ σ', σ.step (.oldPublish, .served) = some σ' ∧ σ'.store = (σ.store.serve c).1 := by
  refine ⟨{ σ with store := (σ.store.serve c).1, oldPublish := next (σ.store.serve c).2 },
    ?_, rfl⟩
  show (σ.oldPublish.step sliceApi .served σ.store).map _ = some _
  rw [h]
  rfl

theorem serve_delete {s : SliceStore} {y : EndpointSlice} (hy : s.slice = some y) :
    (s.serve .delete).1 = s.remove := by
  unfold SliceStore.serve
  rw [hy]

/-- An `Update` goes through while nothing else was written. -/
theorem serve_update {s : SliceStore} {x y : EndpointSlice} (hy : s.slice = some y)
    (hversion : x.resourceVersion = y.resourceVersion) :
    (s.serve (.update x)).1 = s.write x := by
  unfold SliceStore.serve
  rw [hy]
  dsimp only
  rw [if_pos hversion]

end Handover

/-- Once the new leader's `publish` has returned without an error, the slice lists
its address as ready, and no call of the old leader changes that. -/
def HandoverSafe (parseAddr : String → Option Addr) (p q : EndpointPublisher) (s : SliceStore) :
    Prop :=
  ∀ σ, (handoverSys parseAddr p q s).Reachable σ → σ.newPublish = .done none →
    (∃ x, σ.store.slice = some x ∧ x.endpoints = (q.desired parseAddr true).endpoints)
      ∧ ∀ thread fate σ', thread ≠ .newPublish → σ.step (thread, fate) = some σ' →
        σ'.store = σ.store

theorem handover_safe_iff (parseAddr : String → Option Addr) (p q : EndpointPublisher)
    (hip : p.podIP ≠ q.podIP) (s : SliceStore) :
    HandoverSafe parseAddr p q s ↔ ∀ x, s.slice = some x →
      x.addressType = p.addressType parseAddr ∧ upToDate x (q.desired parseAddr true) = false := by
  constructor
  · intro hsafe x hx
    obtain ⟨σ, hreach, hdone, hold, ⟨y, hy⟩, hsame⟩ := exists_published parseAddr p q hx
    obtain ⟨_, hkeeps⟩ := hsafe σ hreach hdone
    have hafter : σ.oldPublish = p.publishAfterGet parseAddr true (.ok x) := by
      rw [hold]
      show p.publishAfterGet parseAddr true (s.serve .get).2 = _
      unfold SliceStore.serve
      rw [hx]
    have htype : x.addressType = p.addressType parseAddr := by
      by_contra htype
      have hnot : ¬ upToDate x (p.desired parseAddr true) = true := fun h =>
        htype ((upToDate_iff _ _).mp h).2.2.2
      have hne : x.addressType ≠ (p.desired parseAddr true).addressType := htype
      have hreplace : σ.oldPublish = replaceSlice (p.desired parseAddr true) := by
        rw [hafter]
        unfold EndpointPublisher.publishAfterGet
        dsimp only
        rw [if_neg hnot, if_pos hne]
      obtain ⟨σ', hstep, hremoved⟩ := oldPublish_step hreplace
      rw [hkeeps .oldPublish .served σ' (by simp) hstep, serve_delete hy] at hremoved
      rw [hremoved] at hy
      exact absurd hy (by simp [SliceStore.remove])
    refine ⟨htype, ?_⟩
    by_contra hnew
    rw [Bool.not_eq_false] at hnew
    have hstore := hsame hnew
    have hnot : ¬ upToDate x (p.desired parseAddr true) = true := by
      rw [upToDate_other parseAddr q p (Ne.symm hip) true (.inl hnew)]
      simp
    have hne : ¬ x.addressType ≠ (p.desired parseAddr true).addressType := not_not.mpr htype
    have hupdate : ∃ z, σ.oldPublish = updateSlice z ∧ z.resourceVersion = x.resourceVersion := by
      rw [hafter]
      unfold EndpointPublisher.publishAfterGet
      dsimp only
      rw [if_neg hnot, if_neg hne]
      exact ⟨_, rfl, rfl⟩
    obtain ⟨z, hupdate, hversion⟩ := hupdate
    -- nothing was written, so the pending `Update` is current
    obtain ⟨σ', hstep, hwritten⟩ := oldPublish_step hupdate
    rw [hkeeps .oldPublish .served σ' (by simp) hstep,
      serve_update (hstore ▸ hx) hversion] at hwritten
    have hrevision : σ.store.revision = σ.store.revision + 1 :=
      congrArg SliceStore.revision hwritten
    omega
  · intro h σ hreach hdone
    have hinv := (handover_inductive hip h).invariant hreach
    have hshows : σ.store.Shows (q.desired parseAddr true) := by
      rcases hinv.newPublish with heq | hn
      · exact absurd (heq.symm.trans hdone) (by simp [EndpointPublisher.publish])
      · rw [hdone] at hn
        cases hn with
        | done hs => exact hs
    refine ⟨?_, fun thread fate σ' hthread hstep => (hinv.old_step hip hthread hstep).2 hshows⟩
    obtain ⟨x, hx, hdate⟩ := hshows
    exact ⟨x, hx, ((upToDate_iff _ _).mp hdate).1⟩

/-! ## Three hand-overs -/

/-- One IPv6 address; everything else is IPv4. -/
def sampleParse (ip : String) : Option Addr :=
  if ip = "fd00::1" then some (.v6 0xfd000000000000000000000000000001#128 "")
  else some (.v4 0x0a000001#32)

/-- A replica of the operator. -/
def replica (podName podIP : String) : EndpointPublisher where
  namespace_ := "hyper-system"
  serviceName := "hypergate-identity"
  podName
  podIP
  port := 18443

/-- The slice as a replica publishes it. -/
def publishedBy (p : EndpointPublisher) : SliceStore where
  slice := some { p.desired sampleParse true with resourceVersion := 7 }
  revision := 7
  current x hx := by
    cases hx
    exact Nat.le_refl _

/-- Two IPv4 replicas, and the slice of the old leader. -/
theorem handover_safe_iff_ipv4 :
    (replica "a" "10.0.0.1").podIP ≠ (replica "b" "10.0.0.2").podIP
      ∧ HandoverSafe sampleParse (replica "a" "10.0.0.1") (replica "b" "10.0.0.2")
        (publishedBy (replica "a" "10.0.0.1")) := by
  have hip : (replica "a" "10.0.0.1").podIP ≠ (replica "b" "10.0.0.2").podIP := by
    show "10.0.0.1" ≠ "10.0.0.2"
    decide
  refine ⟨hip, (handover_safe_iff sampleParse _ _ hip _).mpr fun x hx => ?_⟩
  cases hx
  exact ⟨rfl, upToDate_other sampleParse _ _ hip true (.inl (upToDate_desired sampleParse _ true))⟩

/-- An IPv6 leader read the slice of an earlier IPv4 leader and is about to delete
it. Meanwhile another IPv4 replica publishes. -/
def mixedHandover : Option Handover :=
  (handoverSys sampleParse (replica "a" "fd00::1") (replica "b" "10.0.0.2")
    (publishedBy (replica "c" "10.0.0.3"))).run (fun _ _ => True)
    (.start sampleParse (replica "a" "fd00::1") (replica "b" "10.0.0.2")
      (publishedBy (replica "c" "10.0.0.3")))
    [(.newPublish, .served), (.newPublish, .served)]

theorem mixedHandover_runs : mixedHandover.isSome = true := rfl

/-- The old leader's `Delete` removes the new leader's slice. -/
theorem handover_deletes :
    ∃ σ σ', (handoverSys sampleParse (replica "a" "fd00::1") (replica "b" "10.0.0.2")
        (publishedBy (replica "c" "10.0.0.3"))).Reachable σ
      ∧ σ.newPublish = .done none
      ∧ σ.store.slice.map (·.endpoints)
        = some ((replica "b" "10.0.0.2").desired sampleParse true).endpoints
      ∧ σ.step (.oldPublish, .served) = some σ' ∧ σ'.store.slice.isSome = false :=
  ⟨mixedHandover.get mixedHandover_runs, _, .of_run rfl _ mixedHandover_runs, rfl, rfl, rfl, rfl⟩

end Hypergate.Operator
