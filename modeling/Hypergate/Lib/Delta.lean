import Hypergate.Lib.AMap

/-!
# Deltas between finite maps

A producer that publishes a map to consumers sends differences: entries to set
and keys to remove. This module says when that loses nothing.

* `effect` — what a delta does to one key: nothing, a removal, or a new value.
  Every other notion is described by it.
* `diff last next` — the difference from the map published before.
  `lookup_apply_diff` gives the value of a key after applying it to *any* map,
  so `apply_diff_iff` says exactly which maps it turns into `next`.
* `latest` — the latest effect of a sequence of deltas on a key, all that a
  consumer who receives the sequence in merged groups has to be told.
  `latest_diff` says that the differences published one after the other add up
  to the last map.
-/

namespace Hypergate.Lib

universe u v

/-- Entries to set and keys to remove. -/
structure Delta (K : Type u) (V : Type v) where
  update : AMap K V
  remove : List K

namespace Delta

variable {K : Type u} {V : Type v} [DecidableEq K]

/-- What the delta does to a key: `none` leaves it alone, `some none` removes
it, `some (some v)` sets it. -/
def effect (d : Delta K V) (k : K) : Option (Option V) :=
  match d.update.lookup k with
  | some v => some (some v)
  | none => if k ∈ d.remove then some none else none

/-- Removals first, then the new values. -/
def apply (d : Delta K V) (m : AMap K V) : AMap K V :=
  (m.eraseAll d.remove).insertAll d.update.toList

theorem lookup_apply (d : Delta K V) (m : AMap K V) (k : K) :
    (d.apply m).lookup k = (d.effect k).getD (m.lookup k) := by
  unfold apply effect
  rw [AMap.lookup_insertAll_of_iff fun _ => AMap.mem_toList, AMap.lookup_eraseAll]
  cases d.update.lookup k with
  | some v => rfl
  | none =>
    rw [Option.none_or]
    simp only
    split <;> rfl

/-- The delta changes nothing anywhere. -/
def isEmpty (d : Delta K V) : Bool := d.update.entries.isEmpty && d.remove.isEmpty

theorem effect_of_isEmpty {d : Delta K V} (h : d.isEmpty = true) (k : K) :
    d.effect k = none := by
  obtain ⟨hu, hr⟩ := Bool.and_eq_true_iff.mp h
  have hnone : d.update.lookup k = none := by
    have hent := List.isEmpty_iff.mp hu
    rw [AList.lookup_eq_none, AList.mem_keys]
    simp [AList.keys, hent]
  simp [effect, hnone, List.isEmpty_iff.mp hr]

/-! ## The difference of two maps -/

section Diff

variable [DecidableEq V]

/-- What turns `last` into `next`. -/
def diff (last next : AMap K V) : Delta K V where
  update := next.filter fun k v => last.lookup k ≠ some v
  remove := last.keys.filter fun k => !decide (k ∈ next)

/-- A difference touches exactly the keys on which the maps differ. -/
theorem effect_diff (last next : AMap K V) (k : K) :
    (diff last next).effect k =
      if last.lookup k = next.lookup k then none else some (next.lookup k) := by
  have hrem : k ∈ (diff last next).remove ↔ last.lookup k ≠ none ∧ next.lookup k = none := by
    simp only [diff, List.mem_filter, ← AList.mem_keys, Bool.not_eq_true', decide_eq_false_iff_not,
      AList.lookup_eq_none, ne_eq, not_not]
  have hupd : (diff last next).update.lookup k =
      (next.lookup k).filter fun v => last.lookup k ≠ some v := AMap.lookup_filter _ _ _
  unfold effect
  rw [hupd]
  cases hn : next.lookup k with
  | none =>
    rw [Option.filter_none]
    simp only [hrem, hn, and_true]
    by_cases hl : last.lookup k = none <;> simp [hl]
  | some v =>
    by_cases hl : last.lookup k = some v
    · simp [Option.filter_some, hl, hrem, hn]
    · simp [Option.filter_some, hl]

/-- Where a difference, applied to any map, leaves a key. -/
theorem lookup_apply_diff (last next m : AMap K V) (k : K) :
    ((diff last next).apply m).lookup k =
      if last.lookup k = next.lookup k then m.lookup k else next.lookup k := by
  rw [lookup_apply, effect_diff]
  split <;> rfl

/-- A difference turns `m` into `next` exactly when `m` already agrees with
`next` wherever the difference is silent. -/
theorem apply_diff_iff (last next m : AMap K V) :
    (∀ k, ((diff last next).apply m).lookup k = next.lookup k) ↔
      ∀ k, last.lookup k = next.lookup k → m.lookup k = next.lookup k := by
  refine forall_congr' fun k => ?_
  rw [lookup_apply_diff]
  split
  · rename_i h; simp [h]
  · rename_i h; simp [h]

end Diff

/-! ## Sequences of deltas and merged deltas -/

/-- The latest effect of a sequence on a key. -/
def latest : List (Delta K V) → K → Option (Option V)
  | [], _ => none
  | d :: ds, k => (latest ds k).or (d.effect k)

variable {ds : List (Delta K V)} {k : K}

/-- The latest effect is the effect of some delta of the sequence. -/
theorem exists_of_latest {e : Option V} (h : latest ds k = some e) :
    ∃ d ∈ ds, d.effect k = some e := by
  induction ds with
  | nil => cases h
  | cons d ds ih =>
    rw [latest] at h
    cases hl : latest ds k with
    | none =>
      rw [hl, Option.none_or] at h
      exact ⟨d, by simp, h⟩
    | some e' =>
      rw [hl, Option.some_or] at h
      cases h
      obtain ⟨d', hd', he⟩ := ih hl
      exact ⟨d', List.mem_cons_of_mem _ hd', he⟩

theorem latest_append (ds es : List (Delta K V)) (k : K) :
    latest (ds ++ es) k = (latest es k).or (latest ds k) := by
  induction ds with
  | nil => simp [latest]
  | cons d ds ih => rw [List.cons_append, latest, ih, latest, Option.or_assoc]

theorem latest_snoc (ds : List (Delta K V)) (d : Delta K V) (k : K) :
    latest (ds ++ [d]) k = (d.effect k).or (latest ds k) := by
  rw [latest_append]
  show ((none : Option (Option V)).or (d.effect k)).or (latest ds k) = _
  rw [Option.none_or]

/-- A delta touches a key that it updates or removes. -/
theorem effect_eq_none_iff {d : Delta K V} :
    d.effect k = none ↔ d.update.lookup k = none ∧ k ∉ d.remove := by
  unfold effect
  cases d.update.lookup k with
  | some v => simp
  | none => simp

theorem effect_eq_value_iff {d : Delta K V} {v : V} :
    d.effect k = some (some v) ↔ d.update.lookup k = some v := by
  unfold effect
  cases d.update.lookup k with
  | some v' => simp
  | none => simp

theorem latest_eq_none_iff :
    latest ds k = none ↔ ∀ d ∈ ds, d.update.lookup k = none ∧ k ∉ d.remove := by
  induction ds with
  | nil => simp [latest]
  | cons d ds ih =>
    rw [latest, Option.or_eq_none_iff, ih, effect_eq_none_iff, List.forall_mem_cons]
    exact And.comm

/-- A delta of the sequence set the key to the value, and none since has touched the
key. -/
def Brought (ds : List (Delta K V)) (k : K) (v : V) : Prop :=
  ∃ before d after, ds = before ++ d :: after ∧ d.update.lookup k = some v
    ∧ ∀ d' ∈ after, d'.update.lookup k = none ∧ k ∉ d'.remove

theorem latest_eq_value_iff {v : V} :
    latest ds k = some (some v) ↔ Brought ds k v := by
  unfold Brought
  induction ds with
  | nil => simp [latest]
  | cons d ds ih =>
    rw [latest]
    constructor
    · intro h
      cases hlatest : latest ds k with
      | none =>
        rw [hlatest, Option.none_or] at h
        exact ⟨[], d, ds, rfl, effect_eq_value_iff.mp h, latest_eq_none_iff.mp hlatest⟩
      | some e =>
        rw [hlatest, Option.some_or] at h
        obtain ⟨before, d', after, rfl, hv, hafter⟩ := ih.mp (hlatest.trans h)
        exact ⟨d :: before, d', after, rfl, hv, hafter⟩
    · rintro ⟨before, d', after, heq, hv, hafter⟩
      cases before with
      | nil =>
        obtain ⟨rfl, rfl⟩ := List.cons.inj heq
        rw [latest_eq_none_iff.mpr hafter, Option.none_or]
        exact effect_eq_value_iff.mpr hv
      | cons b before =>
        obtain ⟨rfl, rfl⟩ := List.cons.inj heq
        rw [ih.mpr ⟨before, d', after, rfl, hv, hafter⟩, Option.some_or]

theorem getD_latest_eq_some_iff {v : V} :
    (latest ds k).getD none = some v ↔ Brought ds k v := by
  rw [← latest_eq_value_iff]
  cases latest ds k with
  | none => simp
  | some e => simp

/-- A published difference brings the latest effects from `last` to `next`. -/
theorem latest_diff [DecidableEq V] {last : AMap K V} (next : AMap K V)
    (h : (latest ds k).getD none = last.lookup k) :
    (latest (ds ++ [diff last next]) k).getD none = next.lookup k := by
  rw [latest_snoc, effect_diff]
  by_cases hk : last.lookup k = next.lookup k
  · rw [if_pos hk, Option.none_or, h, hk]
  · rw [if_neg hk, Option.some_or]
    rfl

end Delta

end Hypergate.Lib
