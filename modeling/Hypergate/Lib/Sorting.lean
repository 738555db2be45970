import Hypergate.Lib.Listing
import Mathlib.Data.List.Sort

/-!
# Sorting by a key that tells the elements apart

A sort that is not stable may leave elements with equal keys in any order. When no two
elements have the same key there is one sorted list: neither the algorithm nor the order
in which the elements came shows in the result.

- `pairwise_lt_insertionSort`: the keys of the sorted list strictly increase.
- `insertionSort_perm_eq`: two arrangements of the same elements sort to one list.
- `eq_insertionSort`: any ordered arrangement is that list.
- `Listing.sorted`: the sorted listing, the same for every order of the objects.
-/

namespace Hypergate.Lib

universe u v

variable {α : Type u} {K : Type v} [LinearOrder K] {key : α → K} {r : α → α → Prop}

section Key

variable (hr : ∀ a b, r a b ↔ key a ≤ key b)

include hr

theorem total_of_key : Std.Total r :=
  ⟨fun a b => by rw [hr, hr]; exact le_total _ _⟩

theorem trans_of_key : IsTrans α r :=
  ⟨fun a b c hab hbc => by rw [hr] at *; exact le_trans hab hbc⟩

variable [DecidableRel r]

theorem pairwise_insertionSort_of_key (l : List α) : (l.insertionSort r).Pairwise r := by
  have := total_of_key hr
  have := trans_of_key hr
  exact List.pairwise_insertionSort r l

theorem pairwise_lt_insertionSort {l : List α} (hl : (l.map key).Nodup) :
    (l.insertionSort r).Pairwise fun a b => key a < key b := by
  have hne : (l.insertionSort r).Pairwise fun a b => key a ≠ key b := by
    rw [← List.pairwise_map (R := (· ≠ ·))]
    exact ((List.perm_insertionSort r l).map key).nodup_iff.mpr hl
  refine ((pairwise_insertionSort_of_key hr l).and hne).imp ?_
  intro a b hab
  exact lt_of_le_of_ne ((hr a b).mp hab.1) hab.2

/-- Any ordered arrangement of the elements is the sorted list. -/
theorem eq_insertionSort {l s : List α} (hl : (l.map key).Nodup) (hperm : s.Perm l)
    (hsorted : s.Pairwise r) : s = l.insertionSort r := by
  refine (hperm.trans (List.perm_insertionSort r l).symm).eq_of_pairwise ?_ hsorted
    (pairwise_insertionSort_of_key hr l)
  intro a b ha hb hab hba
  have hkey : key a = key b := le_antisymm ((hr a b).mp hab) ((hr b a).mp hba)
  exact List.inj_on_of_nodup_map hl (hperm.mem_iff.mp ha)
    ((List.mem_insertionSort r).mp hb) hkey

/-- Two arrangements of the same elements sort to one list. -/
theorem insertionSort_perm_eq {l l' : List α} (hl : (l.map key).Nodup) (hperm : l'.Perm l) :
    l'.insertionSort r = l.insertionSort r :=
  eq_insertionSort hr hl ((List.perm_insertionSort r l').trans hperm)
    (pairwise_insertionSort_of_key hr l')

end Key

namespace Listing

/-- The objects in the order of their keys. -/
def sorted (l : Listing α key) : Listing α key where
  items := l.items.insertionSort fun a b => key a ≤ key b
  nodup := ((List.perm_insertionSort _ l.items).map key).nodup_iff.mpr l.nodup

theorem mem_sorted {l : Listing α key} {a : α} : a ∈ l.sorted.items ↔ a ∈ l.items :=
  List.mem_insertionSort _

theorem sorted_eq_of_perm {l l' : Listing α key} (h : l'.items.Perm l.items) :
    l'.sorted = l.sorted := by
  have hitems :=
    insertionSort_perm_eq (r := fun a b => key a ≤ key b) (fun _ _ => Iff.rfl) l.nodup h
  unfold sorted
  congr 1

end Listing

end Hypergate.Lib
