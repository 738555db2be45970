import Hypergate.Identity.Index

/-!
# What delta responses do to the engine's index

The operator names a workload by the text of its address and a Service by
`namespace/name`. Under that naming the engine's maps are the published map,
seen through the naming: `lookup_applyWorkloads` and `lookup_applyServices` say
it for one response, `Delivers.lookup_workloads` and `Delivers.lookup_services`
for every sequence of responses, however the published updates were grouped
into them and however the two resource types were interleaved.
-/

namespace Hypergate.Identity

open Hypergate.Lib

/-- What decoded updates and removals do to a name. -/
def effectOf {M : Type} (updated : AMap String (Versioned M)) (removed : List String)
    (name : String) : Option (Option M) :=
  match updated.lookup name with
  | some v => some (some v.res)
  | none => if name ∈ removed then some none else none

theorem effectOf_of_mem {M : Type} {updated : AMap String (Versioned M)}
    {e : String × Versioned M} (he : e ∈ updated.toList) (removed : List String) :
    effectOf updated removed e.1 = some (some e.2.res) := by
  unfold effectOf
  rw [AMap.mem_toList.mp he]

theorem effectOf_eq {M : Type} (d : Delta String (Versioned M)) (name : String) :
    effectOf d.update d.remove name = (d.effect name).map (Option.map Versioned.res) := by
  unfold effectOf Delta.effect
  cases d.update.lookup name with
  | some v => rfl
  | none =>
    dsimp only
    split <;> rfl

/-- An effect on a workload name as the operator publishes it: the name is the
text of a stored address, and a workload is published under its own address. -/
structure WorkloadNamed (t : NetipText) (name : String) (e : Option WorkloadProto) : Prop where
  addr : ∃ a, Canonical a ∧ t.string a = name
  ip : ∀ p, e = some p → p.ip = name

namespace Index

variable {t : NetipText}

/-! ## One workload response -/

theorem workloadFromProto_ip {a : Addr} (ha : Canonical a) {p : WorkloadProto}
    (hp : p.ip = t.string a) : (workloadFromProto t.parseAddr p).ip = a := by
  show ((t.parseAddr p.ip).getD .zero).unmap = a
  rw [hp, t.parse_string a ha]
  exact ha.unmapped

/-- The removal loop forgets exactly the named addresses. -/
theorem lookup_removeWorkloads {removed : List String}
    (hr : ∀ name ∈ removed, ∃ b, Canonical b ∧ t.string b = name) (x : Index) {a : Addr}
    (ha : Canonical a) :
    (removed.foldl (removeWorkload t.parseAddr) x).workloads.lookup a =
      if t.string a ∈ removed then none else x.workloads.lookup a := by
  induction removed generalizing x with
  | nil => rfl
  | cons name removed ih =>
    obtain ⟨b, hb, hname⟩ := hr name (by simp)
    have hone : (x.removeWorkload t.parseAddr name).workloads.lookup a =
        if t.string a = name then none else x.workloads.lookup a := by
      unfold removeWorkload
      rw [← hname, t.parse_string b hb]
      show (x.workloads.erase b.unmap).lookup a = _
      rw [hb.unmapped, AMap.lookup_erase_ite]
      by_cases hab : a = b
      · subst hab; simp
      · rw [if_neg hab, if_neg fun h => hab (t.string_inj ha hb h)]
    rw [List.foldl_cons, ih (fun n hn => hr n (List.mem_cons_of_mem _ hn)), hone]
    by_cases h1 : t.string a = name <;> by_cases h2 : t.string a ∈ removed <;> simp [h1, h2]

/-- The update loop stores every named workload under its address, and its version. -/
theorem workloads_storeWorkloads {l : List (String × Versioned WorkloadProto)}
    (hl : ∀ e ∈ l, WorkloadNamed t e.1 (some e.2.res)) (x : Index) :
    (l.foldl (fun x e => storeWorkload t.parseAddr x e.1 e.2) x).workloads =
        AMap.insertAll x.workloads (l.map fun e =>
          ((workloadFromProto t.parseAddr e.2.res).ip, workloadFromProto t.parseAddr e.2.res))
      ∧ (l.foldl (fun x e => storeWorkload t.parseAddr x e.1 e.2) x).workloadVersions =
        AMap.insertAll x.workloadVersions (l.map fun e => (e.1, e.2.version)) := by
  induction l generalizing x with
  | nil => exact ⟨rfl, rfl⟩
  | cons e l ih =>
    obtain ⟨⟨a, ha, hname⟩, hip⟩ := hl e (by simp)
    have hvalid : (workloadFromProto t.parseAddr e.2.res).ip.isValid = true := by
      rw [workloadFromProto_ip ha ((hip _ rfl).trans hname.symm)]
      exact ha.valid
    have hstore : storeWorkload t.parseAddr x e.1 e.2 = { x with
        workloads := x.workloads.insert _ (workloadFromProto t.parseAddr e.2.res)
        workloadVersions := x.workloadVersions.insert e.1 e.2.version } := if_pos hvalid
    rw [List.foldl_cons, hstore]
    exact ih (fun e' he' => hl e' (List.mem_cons_of_mem _ he')) _

theorem lookup_applyWorkloads {updated : AMap String (Versioned WorkloadProto)}
    {removed : List String}
    (hnamed : ∀ name e, effectOf updated removed name = some e → WorkloadNamed t name e)
    (x : Index) {a : Addr} (ha : Canonical a) :
    (x.applyWorkloads t.parseAddr updated removed).workloads.lookup a =
      match effectOf updated removed (t.string a) with
      | none => x.workloads.lookup a
      | some e => e.map (workloadFromProto t.parseAddr) := by
  have hu : ∀ e ∈ updated.toList, WorkloadNamed t e.1 (some e.2.res) :=
    fun e he => hnamed _ _ (effectOf_of_mem he removed)
  have hr : ∀ name ∈ removed, ∃ b, Canonical b ∧ t.string b = name := by
    intro name hname
    cases hl : updated.lookup name with
    | some v => exact (hu _ (AMap.mem_toList.mpr hl)).addr
    | none =>
      apply WorkloadNamed.addr (e := none)
      apply hnamed
      unfold effectOf
      rw [hl]
      exact if_pos hname
  show AList.lookup a (updated.toList.foldl _ _ : Index).workloads = _
  -- which update, if any, is stored under the address `a`
  have hstored : ∀ e : String × Versioned WorkloadProto,
      e ∈ updated.toList ∧ (workloadFromProto t.parseAddr e.2.res).ip = a ↔
        (updated.lookup (t.string a)).map (t.string a, ·) = some e := by
    rintro ⟨name, v⟩
    rw [Option.map_eq_some_iff]
    constructor
    · rintro ⟨he, hip⟩
      obtain ⟨⟨b, hb, rfl⟩, hv⟩ := hu _ he
      obtain rfl : b = a := (workloadFromProto_ip hb (hv _ rfl)).symm.trans hip
      exact ⟨v, AMap.mem_toList.mp he, rfl⟩
    · rintro ⟨v, hv, heq⟩
      cases heq
      have he := AMap.mem_toList.mpr hv
      exact ⟨he, workloadFromProto_ip ha ((hu _ he).ip _ rfl)⟩
  rw [(workloads_storeWorkloads hu _).1, AMap.lookup_insertAll_map hstored,
    lookup_removeWorkloads hr x ha, Option.map_map]
  unfold effectOf
  cases updated.lookup (t.string a) with
  | some v => rfl
  | none =>
    rw [Option.map_none, Option.none_or]
    simp only
    split <;> rfl

/-! ## One Service response -/

theorem services_dropServiceLocked (x : Index) (name name' : String) :
    (x.dropServiceLocked name).services.lookup name' =
      if name' = name then none else x.services.lookup name' := by
  unfold dropServiceLocked
  cases hold : x.services.lookup name with
  | none =>
    by_cases hn : name' = name
    · rw [if_pos hn, hn]; exact hold
    · rw [if_neg hn]
  | some old => exact AMap.lookup_erase_ite x.services name name'

theorem services_removeServices (removed : List String) (x : Index) (name : String) :
    (removed.foldl removeService x).services.lookup name =
      if name ∈ removed then none else x.services.lookup name := by
  induction removed generalizing x with
  | nil => rfl
  | cons n removed ih =>
    rw [List.foldl_cons, ih]
    show (if name ∈ removed then none else (x.dropServiceLocked n).services.lookup name) = _
    rw [services_dropServiceLocked]
    by_cases h1 : name = n <;> by_cases h2 : name ∈ removed <;> simp [h1, h2]

/-- The update loop, name by name, on names without repetition. -/
theorem services_storeServices (parse : String → Option Addr)
    {l : List (String × Versioned ServiceProto)} (hnd : (l.map Prod.fst).Nodup) (x : Index)
    (name : String) :
    ((l.foldl (fun x e => storeService parse x e.1 e.2) x).services.lookup name).map (·.service) =
      match l.find? (·.1 = name) with
      | some e => some (serviceFromProto parse e.2.res)
      | none => (x.services.lookup name).map (·.service) := by
  induction l generalizing x with
  | nil => rfl
  | cons e l ih =>
    rw [List.map_cons, List.nodup_cons] at hnd
    rw [List.foldl_cons, ih hnd.2]
    have hone : ((storeService parse x e.1 e.2).services.lookup name).map (·.service) =
        if name = e.1 then some (serviceFromProto parse e.2.res)
        else (x.services.lookup name).map (·.service) := by
      show (AList.lookup name ((x.dropServiceLocked e.1).services.insert e.1 _)).map _ = _
      rw [AMap.lookup_insert_ite, services_dropServiceLocked]
      split <;> rfl
    rw [hone, List.find?_cons]
    by_cases hn : e.1 = name
    · -- the name comes once, so the rest of the loop leaves it alone
      have hnot : l.find? (·.1 = name) = none := by
        rw [List.find?_eq_none]
        intro e' he' heq
        exact hnd.1 (List.mem_map.mpr ⟨e', he', by rw [hn]; simpa using heq⟩)
      simp [hnot, hn]
    · have hn' : ¬ name = e.1 := fun h => hn h.symm
      simp [hn, hn']

theorem lookup_applyServices (parse : String → Option Addr)
    (updated : AMap String (Versioned ServiceProto)) (removed : List String) (x : Index)
    (name : String) :
    ((x.applyServices parse updated removed).services.lookup name).map (·.service) =
      match effectOf updated removed name with
      | none => (x.services.lookup name).map (·.service)
      | some e => e.map (serviceFromProto parse) := by
  show (AList.lookup name (updated.toList.foldl _ _ : Index).services).map _ = _
  rw [services_storeServices parse (by rw [AMap.map_fst_toList]; exact updated.keys_nodup)]
  unfold effectOf
  cases hf : updated.toList.find? (·.1 = name) with
  | some e =>
    have hname : e.1 = name := by simpa using List.find?_some hf
    have hmem : (name, e.2) ∈ updated.toList := by
      rw [← hname]
      exact List.mem_of_find?_eq_some hf
    rw [AMap.mem_toList.mp hmem]
    rfl
  | none =>
    have hnone : updated.lookup name = none := by
      cases hl : updated.lookup name with
      | none => rfl
      | some v =>
        exact absurd (decide_eq_true rfl)
          (List.find?_eq_none.mp hf _ (AMap.mem_toList.mpr hl))
    rw [hnone, services_removeServices]
    simp only
    split <;> rfl

/-! ## The two resource types do not touch each other -/

theorem applyWorkloads_services (parse : String → Option Addr)
    (updated : AMap String (Versioned WorkloadProto)) (removed : List String) (x : Index) :
    (x.applyWorkloads parse updated removed).services = x.services
      ∧ (x.applyWorkloads parse updated removed).serviceVersions = x.serviceVersions := by
  let Same (y : Index) : Prop := y.services = x.services ∧ y.serviceVersions = x.serviceVersions
  have hrem : Same (removed.foldl (removeWorkload parse) x) :=
    List.foldlRecOn removed _ ⟨rfl, rfl⟩ fun y hy name _ => hy
  have hstore : Same (updated.toList.foldl (fun y e => storeWorkload parse y e.1 e.2)
      (removed.foldl (removeWorkload parse) x)) := by
    refine List.foldlRecOn updated.toList _ hrem fun y hy e _ => ?_
    dsimp only [storeWorkload]
    split <;> exact hy
  exact hstore

/-- Dropping a Service touches the two Service maps. -/
theorem dropServiceLocked_keeps (x : Index) (name : String) :
    (x.dropServiceLocked name).workloads = x.workloads
      ∧ (x.dropServiceLocked name).workloadVersions = x.workloadVersions
      ∧ (x.dropServiceLocked name).serviceVersions = x.serviceVersions := by
  unfold dropServiceLocked
  cases x.services.lookup name <;> exact ⟨rfl, rfl, rfl⟩

theorem applyServices_workloads (parse : String → Option Addr)
    (updated : AMap String (Versioned ServiceProto)) (removed : List String) (x : Index) :
    (x.applyServices parse updated removed).workloads = x.workloads
      ∧ (x.applyServices parse updated removed).workloadVersions = x.workloadVersions := by
  let Same (y : Index) : Prop :=
    y.workloads = x.workloads ∧ y.workloadVersions = x.workloadVersions
  have hdrop : ∀ y name, Same y → Same (y.dropServiceLocked name) := fun y name hy =>
    ⟨(y.dropServiceLocked_keeps name).1.trans hy.1, (y.dropServiceLocked_keeps name).2.1.trans hy.2⟩
  have hrem : Same (removed.foldl removeService x) :=
    List.foldlRecOn removed _ ⟨rfl, rfl⟩ fun y hy name _ => hdrop y name hy
  exact List.foldlRecOn updated.toList _ hrem fun y hy e _ => hdrop y e.1 hy

end Index

/-! ## Sequences of responses -/

/-- A response that decodes and carries, for each name, the latest effect of
the updates `g`. -/
def Answers {M : Type} (g : List (Delta String M)) (r : DeltaResponse M) : Prop :=
  ∃ updated, r.updated = .ok updated ∧
    ∀ name, effectOf updated r.removed name = Delta.latest g name

/-- The responses `rs` bring the workload updates `pw` and the Service updates
`ps`, in order, each type grouped into responses in any way and the types
interleaved in any way. -/
inductive Delivers : List (Delta String WorkloadProto) → List (Delta String ServiceProto) →
    List Response → Prop
  | nil : Delivers [] [] []
  | workloads {pw : List (Delta String WorkloadProto)} {ps : List (Delta String ServiceProto)}
      {rs : List Response} {g : List (Delta String WorkloadProto)}
      {r : DeltaResponse WorkloadProto} :
      Delivers pw ps rs → Answers g r → Delivers (pw ++ g) ps (rs ++ [.workloads r])
  | services {pw : List (Delta String WorkloadProto)} {ps : List (Delta String ServiceProto)}
      {rs : List Response} {g : List (Delta String ServiceProto)}
      {r : DeltaResponse ServiceProto} :
      Delivers pw ps rs → Answers g r → Delivers pw (ps ++ g) (rs ++ [.services r])

/-! ### One response per update

The finest grouping, which shows that every sequence of updates can be
delivered. -/

/-- The response that carries one update. -/
def DeltaResponse.ofDelta {M : Type} (version : String) (d : Delta String M) :
    DeltaResponse M where
  resources := d.update.toList.map fun e => { name := e.1, version, payload := .ok e.2 }
  removed := d.remove

theorem DeltaResponse.decode_ok {M : Type} (version : String) (l : List (String × M))
    (acc : AMap String (Versioned M)) :
    decode (l.map fun e => { name := e.1, version, payload := .ok e.2 }) acc =
      .ok (AMap.insertAll acc (l.map fun e => (e.1, { res := e.2, version }))) := by
  induction l generalizing acc with
  | nil => rfl
  | cons e l ih => exact ih _

theorem answers_ofDelta {M : Type} (version : String) (d : Delta String M) :
    Answers [d] (.ofDelta version d) := by
  refine ⟨_, DeltaResponse.decode_ok version d.update.toList ∅, fun name => ?_⟩
  show _ = ((none : Option (Option M)).or (d.effect name))
  unfold effectOf Delta.effect
  rw [AMap.lookup_insertAll_toList fun _ m => ({ res := m, version } : Versioned M),
    Option.none_or]
  cases d.update.lookup name <;> rfl

/-- Workload updates one by one, then Service updates one by one. -/
def responsesOf (pw : List (Delta String WorkloadProto)) (ps : List (Delta String ServiceProto)) :
    List Response :=
  pw.map (fun d => .workloads (.ofDelta "1" d)) ++ ps.map (fun d => .services (.ofDelta "1" d))

theorem delivers_responsesOf (pw : List (Delta String WorkloadProto))
    (ps : List (Delta String ServiceProto)) : Delivers pw ps (responsesOf pw ps) := by
  unfold responsesOf
  induction ps using List.reverseRecOn with
  | nil =>
    induction pw using List.reverseRecOn with
    | nil => exact .nil
    | append_singleton pw d ih =>
      simp only [List.map_append, List.map_cons, List.map_nil, List.append_nil] at ih ⊢
      exact ih.workloads (answers_ofDelta "1" d)
  | append_singleton ps d ih =>
    rw [List.map_append, ← List.append_assoc]
    exact ih.services (answers_ofDelta "1" d)

/-- The engine that started empty and received `rs`. -/
def receiveAll (t : NetipText) (rs : List Response) : Index :=
  rs.foldl (Index.receive t.parseAddr) {}

section Sequences

variable {t : NetipText}

theorem receiveAll_snoc_workloads (rs : List Response) {r : DeltaResponse WorkloadProto}
    {updated : AMap String (Versioned WorkloadProto)} (hu : r.updated = .ok updated) :
    receiveAll t (rs ++ [.workloads r]) =
      (receiveAll t rs).applyWorkloads t.parseAddr updated r.removed := by
  unfold receiveAll
  rw [List.foldl_append]
  simp only [List.foldl_cons, List.foldl_nil, Index.receive, Index.apply, hu]

theorem receiveAll_snoc_services (rs : List Response) {r : DeltaResponse ServiceProto}
    {updated : AMap String (Versioned ServiceProto)} (hu : r.updated = .ok updated) :
    receiveAll t (rs ++ [.services r]) =
      (receiveAll t rs).applyServices t.parseAddr updated r.removed := by
  unfold receiveAll
  rw [List.foldl_append]
  simp only [List.foldl_cons, List.foldl_nil, Index.receive, Index.apply, hu]

variable {pw : List (Delta String WorkloadProto)} {ps : List (Delta String ServiceProto)}
  {rs : List Response}

/-- The engine's workloads are the published ones, seen through their names. -/
theorem Delivers.lookup_workloads (h : Delivers pw ps rs)
    (hnamed : ∀ d ∈ pw, ∀ name e, d.effect name = some e → WorkloadNamed t name e)
    {a : Addr} (ha : Canonical a) :
    (receiveAll t rs).workloads.lookup a =
      ((Delta.latest pw (t.string a)).getD none).map (workloadFromProto t.parseAddr) := by
  induction h with
  | nil => rfl
  | @workloads pw ps rs g r _ hr ih =>
    obtain ⟨updated, hu, heff⟩ := hr
    have hg : ∀ name e, effectOf updated r.removed name = some e → WorkloadNamed t name e := by
      intro name e he
      rw [heff] at he
      obtain ⟨d, hd, hde⟩ := Delta.exists_of_latest he
      exact hnamed d (List.mem_append_right _ hd) name e hde
    have ih := ih fun d hd => hnamed d (List.mem_append_left _ hd)
    rw [receiveAll_snoc_workloads rs hu, Index.lookup_applyWorkloads hg _ ha, heff,
      Delta.latest_append, ih]
    cases Delta.latest g (t.string a) <;> rfl
  | services _ hr ih =>
    obtain ⟨updated, hu, -⟩ := hr
    rw [receiveAll_snoc_services _ hu, (Index.applyServices_workloads ..).1]
    exact ih hnamed

theorem Delivers.lookup_services (h : Delivers pw ps rs) (name : String) :
    ((receiveAll t rs).services.lookup name).map (·.service) =
      ((Delta.latest ps name).getD none).map (serviceFromProto t.parseAddr) := by
  induction h with
  | nil => rfl
  | workloads _ hr ih =>
    obtain ⟨updated, hu, -⟩ := hr
    rw [receiveAll_snoc_workloads _ hu, (Index.applyWorkloads_services ..).1]
    exact ih
  | @services pw ps rs g r _ hr ih =>
    obtain ⟨updated, hu, heff⟩ := hr
    rw [receiveAll_snoc_services rs hu, Index.lookup_applyServices, heff, Delta.latest_append,
      ih]
    cases Delta.latest g name <;> rfl

end Sequences

end Hypergate.Identity
