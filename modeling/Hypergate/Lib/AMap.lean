import Hypergate.Lib.Fallible
import Mathlib.Data.List.AList

/-!
# Finite maps with an iteration order

`AMap K V` is Mathlib's `AList` at a constant value type: a key-value list
without duplicate keys. The list order plays the part of the iteration order of
a hash map, so a loop over a map is a loop over `entries` and a statement
quantified over maps covers every iteration order.
-/

namespace Hypergate.Lib

universe u v

/-- A finite map from `K` to `V`. -/
abbrev AMap (K : Type u) (V : Type v) := AList fun _ : K => V

namespace AMap

variable {K : Type u} {V : Type v} [DecidableEq K]

theorem lookup_insert_ite (m : AMap K V) (k k' : K) (v : V) :
    (m.insert k v).lookup k' = if k' = k then some v else m.lookup k' := by
  split
  · subst k'; exact AList.lookup_insert m
  · rename_i h; exact AList.lookup_insert_ne h

theorem lookup_erase_ite (m : AMap K V) (k k' : K) :
    (m.erase k).lookup k' = if k' = k then none else m.lookup k' := by
  split
  · subst k'; exact AList.lookup_erase k m
  · rename_i h; exact AList.lookup_erase_ne h

variable {m : AMap K V}

/-- An entry of the map with one more is that one or was there. -/
theorem lookup_insert_cases {k k' : K} {v w : V} (h : (m.insert k v).lookup k' = some w) :
    k' = k ∧ v = w ∨ m.lookup k' = some w := by
  rw [lookup_insert_ite] at h
  split at h
  · rename_i hk
    exact .inl ⟨hk, Option.some.inj h⟩
  · exact .inr h

variable {v : V}

theorem lookup_of_erase {k k' : K} (h : (m.erase k).lookup k' = some v) : m.lookup k' = some v := by
  rw [lookup_erase_ite] at h
  split at h
  · cases h
  · exact h

variable {k : K}

theorem lookup_ite_of_none (h : m.lookup k = none) (k' : K) :
    m.lookup k' = if k' = k then none else m.lookup k' := by
  split
  · rename_i hk
    rw [hk, h]
  · rfl

/-- Removing a key before it is written does not show. -/
theorem lookup_insert_removed {look : K → Option V}
    (h : ∀ k', m.lookup k' = if k' = k then none else look k') (v : V) (k' : K) :
    (m.insert k v).lookup k' = if k' = k then some v else look k' := by
  rw [lookup_insert_ite, h]
  by_cases hk : k' = k <;> simp [hk]

section Follows

/-! A table that shows `f` of the latest record of every key, and records that know
their key, over one more record. -/

variable {R : Type*} {latest : K → Option R} {k : K} {o : Option R}

theorem follows_update {look look' : K → Option V} {f : Option R → Option V}
    (h : ∀ k', look k' = f (latest k'))
    (h' : ∀ k', look' k' = if k' = k then f o else look k') (k' : K) :
    look' k' = f (if k' = k then o else latest k') := by
  rw [h']
  split
  · rfl
  · exact h k'

theorem keyed_update {key : R → K} (h : ∀ k' r, latest k' = some r → key r = k')
    (ho : ∀ r, o = some r → key r = k) (k' : K) (r : R)
    (hr : (if k' = k then o else latest k') = some r) : key r = k' := by
  split at hr
  · rename_i hk
    rw [ho r hr, hk]
  · exact h k' r hr

end Follows

theorem lookup_eq_some_iff :
    m.lookup k = some v ↔ (⟨k, v⟩ : Sigma fun _ : K => V) ∈ m.entries :=
  AList.mem_lookup_iff

/-- The entries that meet `p`. -/
def filter (p : K → V → Bool) (m : AMap K V) : AMap K V where
  entries := m.entries.filter fun e => p e.1 e.2
  nodupKeys := m.nodupKeys.sublist List.filter_sublist

theorem lookup_filter (p : K → V → Bool) (m : AMap K V) (k : K) :
    (filter p m).lookup k = (m.lookup k).filter (p k) := by
  ext v
  rw [lookup_eq_some_iff, Option.filter_eq_some_iff, lookup_eq_some_iff]
  exact List.mem_filter

/-- Every value replaced by its image. -/
def mapVals {V' : Type v} (f : V → V') (m : AMap K V) : AMap K V' where
  entries := m.entries.map fun e => ⟨e.1, f e.2⟩
  nodupKeys := by
    have hkeys : (m.entries.map fun e => (⟨e.1, f e.2⟩ : Sigma fun _ : K => V')).keys
        = m.entries.keys := by simp [List.keys]
    unfold List.NodupKeys
    rw [hkeys]
    exact m.nodupKeys

/-- Insert a list of entries, the later ones last. -/
def insertAll (m : AMap K V) (l : List (K × V)) : AMap K V :=
  l.foldl (fun m e => m.insert e.1 e.2) m

variable {l : List (K × V)}

/-- A key that no inserted entry has keeps its value. -/
theorem lookup_insertAll_of_notMem (h : k ∉ l.map Prod.fst) :
    (m.insertAll l).lookup k = m.lookup k := by
  induction l generalizing m with
  | nil => rfl
  | cons e l ih =>
    simp only [List.map_cons, List.mem_cons, not_or] at h
    show (insertAll (m.insert e.1 e.2) l).lookup k = m.lookup k
    rw [ih h.2, lookup_insert_ite, if_neg h.1]

/-- A key to which the inserted entries give one value has that value. -/
theorem lookup_insertAll_of_mem (hone : ∀ v', (k, v') ∈ l → v' = v) (h : (k, v) ∈ l) :
    (m.insertAll l).lookup k = some v := by
  induction l generalizing m with
  | nil => cases h
  | cons e l ih =>
    show (insertAll (m.insert e.1 e.2) l).lookup k = some v
    by_cases hk : k ∈ l.map Prod.fst
    · obtain ⟨⟨k', v'⟩, he, rfl⟩ := List.mem_map.mp hk
      obtain rfl := hone v' (List.mem_cons_of_mem _ he)
      exact ih (fun w hw => hone w (List.mem_cons_of_mem _ hw)) he
    · rw [lookup_insertAll_of_notMem hk]
      rcases List.mem_cons.mp h with rfl | h
      · rw [lookup_insert_ite, if_pos rfl]
      · exact absurd (List.mem_map_of_mem (f := Prod.fst) h) hk

/-- What a key holds after an insertion whose entries describe a partial
function at that key. -/
theorem lookup_insertAll_of_iff {o : Option V} (h : ∀ v, (k, v) ∈ l ↔ o = some v) :
    (m.insertAll l).lookup k = o.or (m.lookup k) := by
  cases o with
  | some v =>
    rw [lookup_insertAll_of_mem _ ((h v).mpr rfl)]
    · rfl
    · intro v' hv'
      exact (Option.some.inj ((h v').mp hv')).symm
  | none =>
    rw [lookup_insertAll_of_notMem]
    · rfl
    · intro hk
      obtain ⟨⟨k', v⟩, he, rfl⟩ := List.mem_map.mp hk
      exact absurd ((h v).mp he) (by simp)

/-- What was inserted into an empty map is one of the entries. -/
theorem mem_of_lookup_insertAll (h : (m.insertAll l).lookup k = some v) :
    (k, v) ∈ l ∨ m.lookup k = some v := by
  induction l generalizing m with
  | nil => exact .inr h
  | cons e l ih =>
    rcases ih h with hmem | hlookup
    · exact .inl (List.mem_cons_of_mem _ hmem)
    · rcases lookup_insert_cases hlookup with ⟨rfl, rfl⟩ | hlookup
      · exact .inl List.mem_cons_self
      · exact .inr hlookup

/-- Erase a list of keys. -/
def eraseAll (m : AMap K V) (l : List K) : AMap K V := l.foldl (fun m k => m.erase k) m

theorem lookup_eraseAll (m : AMap K V) (l : List K) (k : K) :
    (m.eraseAll l).lookup k = if k ∈ l then none else m.lookup k := by
  induction l generalizing m with
  | nil => rfl
  | cons a l ih =>
    show (eraseAll (m.erase a) l).lookup k = _
    rw [ih, lookup_erase_ite]
    by_cases hk : k = a <;> simp [hk]

/-- The entries as pairs. -/
def toList (m : AMap K V) : List (K × V) := m.entries.map fun e => (e.1, e.2)

theorem mem_toList : (k, v) ∈ m.toList ↔ m.lookup k = some v := by
  rw [lookup_eq_some_iff, toList, List.mem_map]
  constructor
  · rintro ⟨⟨k', v'⟩, he, heq⟩
    obtain ⟨rfl, rfl⟩ := Prod.mk.inj heq
    exact he
  · exact fun h => ⟨_, h, rfl⟩

omit [DecidableEq K] in
theorem map_fst_toList (m : AMap K V) : m.toList.map Prod.fst = m.keys := by
  simp only [toList, List.map_map]
  rfl

/-- An order in which a loop visits a map: two loops over one map need not agree. -/
structure Order (m : AMap K V) where
  items : List (K × V)
  perm : items.Perm m.toList

theorem Order.mem_items (o : Order m) :
    (k, v) ∈ o.items ↔ m.lookup k = some v := by
  rw [o.perm.mem_iff, mem_toList]

/-- A loop that writes an entry for each element, at a key that one element has at
most. -/
theorem lookup_insertAll_map {A : Type*} {l : List A} {key : A → K} {val : A → V} {o : Option A}
    (h : ∀ a, a ∈ l ∧ key a = k ↔ o = some a) :
    (m.insertAll (l.map fun a => (key a, val a))).lookup k = (o.map val).or (m.lookup k) := by
  refine lookup_insertAll_of_iff fun v => ?_
  rw [List.mem_map, Option.map_eq_some_iff]
  constructor
  · rintro ⟨a, ha, heq⟩
    obtain ⟨hkey, rfl⟩ := Prod.mk.inj heq
    exact ⟨a, (h a).mp ⟨ha, hkey⟩, rfl⟩
  · rintro ⟨a, ha, rfl⟩
    obtain ⟨hmem, rfl⟩ := (h a).mpr ha
    exact ⟨a, hmem, rfl⟩

/-- A loop over a map that writes an entry for each entry. -/
theorem lookup_insertAll_map_toList {V' : Type v} (f : K → V → V') (m : AMap K V)
    (m' : AMap K V') (k : K) :
    (m'.insertAll (m.toList.map fun e => (e.1, f e.1 e.2))).lookup k =
      ((m.lookup k).map (f k)).or (m'.lookup k) := by
  have h : ∀ e, e ∈ m.toList ∧ e.1 = k ↔ (m.lookup k).map (k, ·) = some e := by
    rintro ⟨k', v⟩
    rw [mem_toList, Option.map_eq_some_iff]
    constructor
    · rintro ⟨hv, rfl⟩
      exact ⟨v, hv, rfl⟩
    · rintro ⟨v, hv, heq⟩
      cases heq
      exact ⟨hv, rfl⟩
  rw [lookup_insertAll_map h, Option.map_map]
  rfl

theorem lookup_insertAll_toList {V' : Type v} (f : K → V → V') (m : AMap K V) (k : K) :
    (insertAll ∅ (m.toList.map fun e => (e.1, f e.1 e.2))).lookup k = (m.lookup k).map (f k) := by
  rw [lookup_insertAll_map_toList, AList.lookup_empty, Option.or_none]

theorem length_insert_of_none (h : m.lookup k = none) (v : V) :
    (m.insert k v).entries.length = m.entries.length + 1 := by
  rw [AList.entries_insert_of_notMem (AList.lookup_eq_none.mp h), List.length_cons]

theorem length_le_insert (m : AMap K V) (k : K) (v : V) :
    m.entries.length ≤ (m.insert k v).entries.length := by
  cases h : m.lookup k with
  | none =>
    rw [length_insert_of_none h]
    omega
  | some v' =>
    have hmem : k ∈ m.keys := AList.lookup_isSome.mp (by rw [h]; rfl)
    have hlength := congrArg List.length (AList.keys_insert (a := k) (b := v) m)
    have hpos : 0 < m.keys.length := List.length_pos_of_mem hmem
    rw [List.length_cons, List.length_erase_of_mem hmem] at hlength
    simp only [AList.keys, List.keys, List.length_map] at hlength hpos
    omega

/-- The value at a key, or a default: Go's `m[k]`. -/
def getD (m : AMap K V) (k : K) (d : V) : V := (m.lookup k).getD d

@[simp] theorem getD_empty (k : K) (d : V) : getD (∅ : AMap K V) k d = d := rfl

theorem getD_insert (m : AMap K V) (k k' : K) (v d : V) :
    getD (m.insert k v) k' d = if k' = k then v else m.getD k' d := by
  unfold getD
  rw [lookup_insert_ite]
  split <;> rfl

theorem getD_erase (m : AMap K V) (k k' : K) (d : V) :
    getD (m.erase k) k' d = if k' = k then d else m.getD k' d := by
  unfold getD
  rw [lookup_erase_ite]
  split <;> rfl

/-! ## Loops that rewrite the values -/

section MapExcept

variable {ε : Type v} {V' : Type v} {f : K → V → Except ε V'}

/-- Rewrite every value; the first failure ends the loop. -/
def mapExcept (f : K → V → Except ε V') (m : AMap K V) : Except ε (AMap K V') :=
  m.toList.foldlM (fun out e => (f e.1 e.2).map (out.insert e.1)) ∅

theorem foldlM_insert_spec {l : List (K × V)} {out₀ out : AMap K V'}
    (hnodup : (l.map Prod.fst).Nodup)
    (h : l.foldlM (fun out e => (f e.1 e.2).map (out.insert e.1)) out₀ = .ok out) :
    (∀ e ∈ l, ∃ v', f e.1 e.2 = .ok v' ∧ out.lookup e.1 = some v')
      ∧ ∀ k, k ∉ l.map Prod.fst → out.lookup k = out₀.lookup k := by
  induction l generalizing out₀ with
  | nil =>
    cases h
    exact ⟨fun _ he => absurd he (by simp), fun _ _ => rfl⟩
  | cons e l ih =>
    rw [List.foldlM_cons] at h
    obtain ⟨out₁, hstep, hrest⟩ := of_bind_eq_ok h
    obtain ⟨v', hv', rfl⟩ := of_map_eq_ok hstep
    obtain ⟨hfresh, hnodup⟩ := List.nodup_cons.mp hnodup
    obtain ⟨hall, hkept⟩ := ih hnodup hrest
    constructor
    · intro e' he'
      rcases List.mem_cons.mp he' with rfl | he'
      · refine ⟨v', hv', ?_⟩
        rw [hkept _ hfresh, lookup_insert_ite, if_pos rfl]
      · exact hall e' he'
    · intro k hk
      rw [List.map_cons, List.mem_cons, not_or] at hk
      rw [hkept k hk.2, lookup_insert_ite, if_neg hk.1]

/-- A successful loop leaves the image of every value, and nothing else. -/
theorem lookup_mapExcept {m : AMap K V} {out : AMap K V'} (h : mapExcept f m = .ok out) (k : K) :
    (∀ v, m.lookup k = some v → ∃ v', f k v = .ok v' ∧ out.lookup k = some v')
      ∧ (m.lookup k = none → out.lookup k = none) := by
  have hnodup : (m.toList.map Prod.fst).Nodup := by
    rw [map_fst_toList]
    exact m.keys_nodup
  obtain ⟨hall, hkept⟩ := foldlM_insert_spec hnodup h
  constructor
  · intro v hv
    exact hall (k, v) (mem_toList.mpr hv)
  · intro hnone
    refine hkept k ?_
    rw [map_fst_toList]
    exact AList.lookup_eq_none.mp hnone

/-- The loop fails only on a value that `f` refuses. -/
theorem mapExcept_isOk {m : AMap K V}
    (h : ∀ k v, m.lookup k = some v → ∃ v', f k v = .ok v') : ∃ out, mapExcept f m = .ok out := by
  have hlist : ∀ (l : List (K × V)) (out₀ : AMap K V'), (∀ e ∈ l, ∃ v', f e.1 e.2 = .ok v') →
      ∃ out, l.foldlM (fun out e => (f e.1 e.2).map (out.insert e.1)) out₀ = .ok out := by
    intro l
    induction l with
    | nil => exact fun out₀ _ => ⟨out₀, rfl⟩
    | cons e l ih =>
      intro out₀ hok
      obtain ⟨v', hv'⟩ := hok e List.mem_cons_self
      obtain ⟨out, hout⟩ :=
        ih (out₀.insert e.1 v') fun e' he' => hok e' (List.mem_cons_of_mem _ he')
      refine ⟨out, ?_⟩
      rw [List.foldlM_cons, hv']
      exact hout
  exact hlist m.toList ∅ fun e he => h e.1 e.2 (mem_toList.mp he)

end MapExcept

/-! ## Numbered values

Values that stand for objects carry a number, their address. `Numbered num n m`
says that the values of `m` have numbers below `n`, no two keys sharing one. -/

/-- The values of a map are different objects, allocated below `n`. -/
structure Numbered (num : V → Nat) (n : Nat) (m : AMap K V) : Prop where
  lt : ∀ {k : K} {v : V}, m.lookup k = some v → num v < n
  inj : ∀ {k k' : K} {v v' : V}, m.lookup k = some v → m.lookup k' = some v' →
    num v = num v' → k = k'

namespace Numbered

variable {num : V → Nat} {n : Nat} {m : AMap K V}

theorem empty : Numbered num n (∅ : AMap K V) where
  lt h := absurd h (by simp)
  inj h := absurd h (by simp)

theorem mono (h : Numbered num n m) {j : Nat} (hn : n ≤ j) : Numbered num j m where
  lt hk := Nat.lt_of_lt_of_le (h.lt hk) hn
  inj := h.inj

/-- An object that at most this key holds may be stored under it. -/
theorem insert (h : Numbered num n m) {k : K} {v : V} (hv : num v < n)
    (hown : ∀ k' v', m.lookup k' = some v' → num v' = num v → k' = k) :
    Numbered num n (m.insert k v) where
  lt := by
    intro k' v' h'
    rcases lookup_insert_cases h' with ⟨-, rfl⟩ | h'
    · exact hv
    · exact h.lt h'
  inj := by
    intro k₁ k₂ v₁ v₂ h₁ h₂ heq
    rw [lookup_insert_ite] at h₁ h₂
    split at h₁ <;> split at h₂
    · exact ‹k₁ = k›.trans ‹k₂ = k›.symm
    · cases h₁
      exact absurd (hown k₂ v₂ h₂ heq.symm) ‹_›
    · cases h₂
      exact absurd (hown k₁ v₁ h₁ heq) ‹_›
    · exact h.inj h₁ h₂ heq

theorem insert_new (h : Numbered num n m) {k : K} {v : V} (hv : num v = n) :
    Numbered num (n + 1) (m.insert k v) := by
  refine (h.mono (Nat.le_succ n)).insert (hv ▸ Nat.lt_succ_self n) ?_
  intro k' v' h' heq
  have hlt := h.lt h'
  rw [heq, hv] at hlt
  exact absurd hlt (Nat.lt_irrefl n)

theorem insert_same (h : Numbered num n m) {k : K} {v : V} (hk : m.lookup k = some v) :
    Numbered num n (m.insert k v) :=
  h.insert (h.lt hk) fun _ _ h' heq => h.inj h' hk heq

theorem erase (h : Numbered num n m) (k : K) : Numbered num n (m.erase k) := by
  have hkept : ∀ {k' : K} {v : V}, AList.lookup k' (m.erase k) = some v → m.lookup k' = some v := by
    intro k' v h'
    rw [lookup_erase_ite] at h'
    split at h'
    · cases h'
    · exact h'
  exact ⟨fun h' => h.lt (hkept h'), fun h₁ h₂ => h.inj (hkept h₁) (hkept h₂)⟩

/-- The numbers of the values, in iteration order, are all different. -/
theorem nodup (h : Numbered num n m) : (m.toList.map fun e => num e.2).Nodup := by
  have hkeys : (m.toList.map Prod.fst).Nodup := by
    rw [map_fst_toList]
    exact m.keys_nodup
  refine (List.Nodup.of_map _ hkeys).map_on ?_
  rintro ⟨k, v⟩ hk ⟨k', v'⟩ hk' heq
  obtain rfl := h.inj (mem_toList.mp hk) (mem_toList.mp hk') heq
  have hv := (mem_toList.mp hk).symm.trans (mem_toList.mp hk')
  rw [Option.some.inj hv]

end Numbered

end AMap

end Hypergate.Lib
