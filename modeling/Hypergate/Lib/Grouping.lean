import Mathlib.Data.List.Basic

/-!
# Lists taken apart by a key

`keys.flatMap fun k => l.filter (f · = k)` is the list `l` rearranged: the elements of one
key after those of another, the keys in the order of `keys`.

- `perm_flatMap_filter`: nothing is lost or repeated.
- `pairwise_flatMap_filter`: elements of one key keep their order.
-/

namespace Hypergate.Lib

universe u v

variable {α : Type u} {κ : Type v} [DecidableEq κ] {f : α → κ} {keys : List κ} {l : List α}

/-- The elements of another key are not among those of `k`. -/
theorem filter_key_of_ne {k k' : κ} (h : k' ≠ k) :
    (l.filter fun a => !decide (f a = k)).filter (fun a => decide (f a = k'))
      = l.filter fun a => decide (f a = k') := by
  rw [List.filter_filter]
  refine List.filter_congr fun a _ => ?_
  by_cases ha : f a = k'
  · simp [ha, h]
  · simp [ha]

theorem perm_flatMap_filter (hkeys : keys.Nodup) (hall : ∀ a ∈ l, f a ∈ keys) :
    (keys.flatMap fun k => l.filter fun a => decide (f a = k)).Perm l := by
  induction keys generalizing l with
  | nil =>
    cases l with
    | nil => exact .refl _
    | cons a l => exact absurd (hall a List.mem_cons_self) List.not_mem_nil
  | cons k keys ih =>
    obtain ⟨hk, hkeys⟩ := List.nodup_cons.mp hkeys
    -- under the other keys there is what is left without `k`
    have hrest : (keys.flatMap fun k' => l.filter fun a => decide (f a = k'))
        = keys.flatMap fun k' =>
          (l.filter fun a => !decide (f a = k)).filter fun a => decide (f a = k') := by
      refine List.flatMap_congr fun k' hk' => ?_
      have hne : k' ≠ k := fun heq => hk (heq ▸ hk')
      exact (filter_key_of_ne hne).symm
    have hperm := ih (l := l.filter fun a => !decide (f a = k)) hkeys (by
      intro a ha
      obtain ⟨hmem, hne⟩ := List.mem_filter.mp ha
      rcases List.mem_cons.mp (hall a hmem) with heq | hin
      · simp [heq] at hne
      · exact hin)
    rw [List.flatMap_cons, hrest]
    exact (hperm.append_left _).trans (List.filter_append_perm _ l)

theorem pairwise_flatMap_filter {r : α → α → Prop} (hkeys : keys.Nodup) (hl : l.Pairwise r) :
    (keys.flatMap fun k => l.filter fun a => decide (f a = k)).Pairwise
      fun a b => f a = f b → r a b := by
  rw [List.pairwise_flatMap]
  constructor
  · intro k _
    refine (hl.filter _).imp ?_
    intro a b hab _
    exact hab
  · refine hkeys.imp ?_
    intro k k' hne a ha b hb heq
    have hka : f a = k := of_decide_eq_true (List.mem_filter.mp ha).2
    have hkb : f b = k' := of_decide_eq_true (List.mem_filter.mp hb).2
    exact absurd (hka.symm.trans (heq.trans hkb)) hne

/-- Parts of the same lengths can be read off what they are joined to. -/
theorem eq_of_flatMap_eq {α : Type u} {β : Type v} {l : List α} {g h : α → List β}
    (hlen : ∀ a, (g a).length = (h a).length) (heq : l.flatMap g = l.flatMap h) :
    ∀ a ∈ l, g a = h a := by
  induction l with
  | nil => simp
  | cons b l ih =>
    rw [List.flatMap_cons, List.flatMap_cons] at heq
    obtain ⟨hb, hrest⟩ := List.append_inj heq (hlen b)
    intro a ha
    rcases List.mem_cons.mp ha with rfl | ha
    · exact hb
    · exact ih hrest a ha

end Hypergate.Lib
