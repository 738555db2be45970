import Hypergate.Lib.AMap

/-!
# Inverted maps with one pointer per key

Records stored under names each list some keys, and a second map points from a
key back to a name. A record that is stored points its keys at its own name; one
that is removed takes back the pointers that are still its own.

* `lookup_dropPointers`, `lookup_addPointers` — the inverted map at a point,
  after either loop;
* `Pointers` — a key points to a name exactly when the record of that name lists
  the key. A single pointer cannot serve two records, so this holds only while no
  two records list a common key: `Pointers.put` asks for it, and
  `Pointers.remove` does not.
-/

namespace Hypergate.Lib

variable {A K V : Type} [DecidableEq A] [DecidableEq K]

/-- A point of an inverted map after the keys that pointed to `name` were
dropped. -/
theorem lookup_dropPointers (name : K) (keys : List A) (m : AMap A K) (a : A) :
    AList.lookup a (keys.foldl (fun m a => if m.lookup a = some name then m.erase a else m) m) =
      if a ∈ keys ∧ m.lookup a = some name then none else m.lookup a := by
  induction keys generalizing m with
  | nil => simp
  | cons b keys ih =>
    rw [List.foldl_cons, ih]
    by_cases hb : m.lookup b = some name
    · rw [if_pos hb, AMap.lookup_erase_ite]
      by_cases hab : a = b
      · subst hab; simp [hb]
      · simp [hab]
    · rw [if_neg hb]
      by_cases hab : a = b
      · subst hab; simp [hb]
      · simp [hab]

omit [DecidableEq K] in
theorem lookup_addPointers (name : K) (keys : List A) (m : AMap A K) (a : A) :
    AList.lookup a (keys.foldl (fun m a => m.insert a name) m) =
      if a ∈ keys then some name else m.lookup a := by
  induction keys generalizing m with
  | nil => simp
  | cons b keys ih =>
    rw [List.foldl_cons, ih, AMap.lookup_insert_ite]
    by_cases hab : a = b <;> by_cases hin : a ∈ keys <;> simp [hab, hin]

/-- The pointers of a table of records: each key points to the record that lists
it. -/
def Pointers (keysOf : V → List A) (table : AMap K V) (m : AMap A K) : Prop :=
  ∀ a name, m.lookup a = some name ↔ ∃ v, table.lookup name = some v ∧ a ∈ keysOf v

namespace Pointers

variable {keysOf : V → List A} {table : AMap K V} {m : AMap A K}

theorem empty : Pointers keysOf (∅ : AMap K V) (∅ : AMap A K) := by
  intro a name
  simp

theorem remove (h : Pointers keysOf table m) {name : K} {old : V}
    (hold : table.lookup name = some old) :
    Pointers keysOf (table.erase name)
      ((keysOf old).foldl (fun m a => if m.lookup a = some name then m.erase a else m) m) := by
  intro a name'
  rw [lookup_dropPointers, AMap.lookup_erase_ite]
  by_cases hn : name' = name
  · subst hn
    rw [if_pos rfl]
    constructor
    · intro hp
      split at hp
      · cases hp
      · rename_i hnot
        obtain ⟨v, hv, ha⟩ := (h a name').mp hp
        rw [hold] at hv
        cases hv
        exact absurd ⟨ha, hp⟩ hnot
    · rintro ⟨v, hv, -⟩
      cases hv
  · rw [if_neg hn, ← h a name']
    by_cases hown : a ∈ keysOf old ∧ m.lookup a = some name
    · rw [if_pos hown, hown.2]
      simp [Ne.symm hn]
    · rw [if_neg hown]

theorem put (h : Pointers keysOf table m) {name : K} {c : V}
    (hfree : table.lookup name = none)
    (hapart : ∀ name' v, table.lookup name' = some v → ∀ a ∈ keysOf c, a ∉ keysOf v) :
    Pointers keysOf (table.insert name c)
      ((keysOf c).foldl (fun m a => m.insert a name) m) := by
  intro a name'
  rw [lookup_addPointers, AMap.lookup_insert_ite]
  by_cases hn : name' = name
  · subst hn
    rw [if_pos rfl]
    by_cases ha : a ∈ keysOf c
    · simp [ha]
    · rw [if_neg ha, h a name', hfree]
      simp [ha]
  · rw [if_neg hn]
    by_cases ha : a ∈ keysOf c
    · rw [if_pos ha]
      constructor
      · intro hname
        exact absurd (Option.some.inj hname).symm hn
      · rintro ⟨v, hv, hav⟩
        exact absurd hav (hapart name' v hv a ha)
    · rw [if_neg ha, h a name']

end Pointers

end Hypergate.Lib
