import Hypergate.Engine.Context

/-!
# Pending header changes (`internal/engine/context.go`)

Each direction of a request context keeps its pending changes three times: a
list of headers to add, a list of names to remove, and a shadow map that filters
read. `HeaderEdits` is one direction; the upstream and downstream methods of the
context are its `set` and `remove`.

`HeaderEdits.Consistent` couples the three: names are added once, no name is both
added and removed, and the shadow map is the list of headers to add. Both
operations keep it, in spite of the deletions that reorder the lists
(`swapRemove_perm`).
-/

namespace Hypergate.Engine

open Hypergate.Lib

/-! ## Deletions that reorder -/

/-- Up to order, `swapRemove` deletes the first element that meets `p`. -/
theorem swapRemove_perm {α : Type} (p : α → Bool) (xs : List α) :
    (swapRemove p xs).Perm (xs.eraseP p) := by
  unfold swapRemove
  cases hidx : xs.findIdx? p with
  | none =>
    have hnone : ∀ x ∈ xs, ¬ p x = true := by
      intro x hx
      simpa using (List.findIdx?_eq_none_iff.mp hidx) x hx
    rw [List.eraseP_of_forall_not hnone]
  | some i =>
    obtain ⟨hi, hp, hbefore⟩ := List.findIdx?_eq_some_iff_getElem.mp hidx
    -- `xs` is cut at the element to delete
    obtain ⟨l₁, a, l₂, hxs, hlen, ha, hl₁⟩ :
        ∃ l₁ a l₂, xs = l₁ ++ a :: l₂ ∧ l₁.length = i ∧ p a = true ∧ ∀ x ∈ l₁, ¬ p x = true := by
      refine ⟨xs.take i, xs[i], xs.drop (i + 1), ?_, ?_, hp, ?_⟩
      · rw [List.getElem_cons_drop, List.take_append_drop]
      · rw [List.length_take]
        omega
      · intro x hx
        obtain ⟨j, hj, rfl⟩ := List.getElem_of_mem hx
        rw [List.getElem_take]
        rw [List.length_take] at hj
        exact hbefore j (by omega)
    subst hxs
    rw [List.eraseP_append_right _ hl₁, List.eraseP_cons_of_pos ha]
    rcases List.eq_nil_or_concat l₂ with rfl | ⟨l₃, b, rfl⟩
    · have hset : (l₁ ++ [a]).set i a = l₁ ++ [a] := by
        rw [← hlen, List.set_append_right _ _ (Nat.le_refl _), Nat.sub_self]
        rfl
      simp [hset]
    · have hset : (l₁ ++ a :: (l₃ ++ [b])).set i b = l₁ ++ b :: (l₃ ++ [b]) := by
        rw [← hlen, List.set_append_right _ _ (Nat.le_refl _), Nat.sub_self]
        rfl
      have hlast : (l₁ ++ a :: (l₃ ++ [b])).getLast? = some b := by
        rw [← List.cons_append, ← List.append_assoc, List.getLast?_concat]
      have hdrop : (l₁ ++ b :: (l₃ ++ [b])).dropLast = l₁ ++ b :: l₃ := by
        rw [← List.cons_append, ← List.append_assoc, List.dropLast_concat]
      simp only [List.concat_eq_append] at *
      rw [hlast]
      dsimp only
      rw [hset, hdrop]
      exact List.Perm.append_left l₁ (List.perm_append_singleton b l₃).symm

/-- Where every element that meets `p` is the same one, none is left. -/
theorem mem_swapRemove_iff {α β : Type} [DecidableEq β] {f : α → β} {xs : List α} {b : β}
    (h : (xs.map f).Nodup) {x : α} :
    x ∈ swapRemove (fun y => f y = b) xs ↔ x ∈ xs ∧ f x ≠ b := by
  rw [(swapRemove_perm _ xs).mem_iff]
  induction xs with
  | nil => simp
  | cons y ys ih =>
    rw [List.map_cons, List.nodup_cons] at h
    by_cases hy : f y = b
    · have hrest : ∀ z ∈ ys, f z ≠ b := by
        intro z hz hzb
        exact h.1 (List.mem_map.mpr ⟨z, hz, hzb.trans hy.symm⟩)
      rw [List.eraseP_cons_of_pos (by simpa using hy)]
      constructor
      · intro hx
        exact ⟨List.mem_cons_of_mem _ hx, hrest x hx⟩
      · intro hx
        rcases List.mem_cons.mp hx.1 with rfl | hmem
        · exact absurd hy hx.2
        · exact hmem
    · rw [List.eraseP_cons_of_neg (by simpa using hy), List.mem_cons, ih h.2, List.mem_cons]
      constructor
      · rintro (rfl | hx)
        · exact ⟨.inl rfl, hy⟩
        · exact ⟨.inr hx.1, hx.2⟩
      · rintro ⟨rfl | hx, hne⟩
        · exact .inl rfl
        · exact .inr ⟨hx, hne⟩

theorem nodup_swapRemove {α β : Type} {f : α → β} {xs : List α} {p : α → Bool}
    (h : (xs.map f).Nodup) : ((swapRemove p xs).map f).Nodup := by
  rw [((swapRemove_perm p xs).map f).nodup_iff]
  exact h.sublist (List.Sublist.map f List.eraseP_sublist)

/-! ## One direction -/

/-- The pending changes of one direction. -/
structure HeaderEdits where
  toAdd : List Header := []
  toRemove : List String := []
  shadow : AMap String String := ∅

namespace HeaderEdits

/-- A set method, on a lower-case name. -/
def set (e : HeaderEdits) (key value : String) : HeaderEdits where
  toAdd := upsertHeader e.toAdd key value
  toRemove := removeKey e.toRemove key
  shadow := e.shadow.insert key value

/-- A remove method, on a lower-case name. -/
def remove (e : HeaderEdits) (key : String) : HeaderEdits where
  toAdd := removeHeader e.toAdd key
  toRemove := appendKey e.toRemove key
  shadow := e.shadow.erase key

/-- The value a filter reads over the headers that arrived. -/
def read (e : HeaderEdits) (original : AMap String String) (key : String) : String :=
  match e.shadow.lookup key with
  | some val => val
  | none => if containsKey e.toRemove key then "" else original.getD key ""

/-- `toAdd` gives `key` the value `value`. -/
def Adds (e : HeaderEdits) (key value : String) : Prop :=
  ∃ h ∈ e.toAdd, h.key = key ∧ h.value = value

/-- The three records agree. -/
structure Consistent (e : HeaderEdits) : Prop where
  added : (e.toAdd.map Header.key).Nodup
  removed : e.toRemove.Nodup
  apart : ∀ key ∈ e.toAdd.map Header.key, key ∉ e.toRemove
  shadow : ∀ key value, e.shadow.lookup key = some value ↔ e.Adds key value

variable {keys : List String}

theorem containsKey_iff {key : String} :
    containsKey keys key = true ↔ key ∈ keys := by
  simp [containsKey]

variable {key key' : String}

theorem mem_appendKey :
    key' ∈ appendKey keys key ↔ key' = key ∨ key' ∈ keys := by
  unfold appendKey
  by_cases h : containsKey keys key = true
  · rw [if_pos h]
    have hmem := containsKey_iff.mp h
    constructor
    · exact .inr
    · rintro (rfl | hk)
      · exact hmem
      · exact hk
  · rw [if_neg h]
    simp [or_comm]

theorem nodup_appendKey (h : keys.Nodup) (key : String) :
    (appendKey keys key).Nodup := by
  unfold appendKey
  by_cases hk : containsKey keys key = true
  · rw [if_pos hk]
    exact h
  · rw [if_neg hk]
    have hnot : key ∉ keys := fun hmem => hk (containsKey_iff.mpr hmem)
    refine List.nodup_append.mpr ⟨h, by simp, ?_⟩
    intro a ha b hb
    rw [List.mem_singleton.mp hb]
    rintro rfl
    exact hnot ha

theorem mem_removeKey (h : keys.Nodup) :
    key' ∈ removeKey keys key ↔ key' ∈ keys ∧ key' ≠ key :=
  mem_swapRemove_iff (f := id) (by simpa using h)

theorem nodup_removeKey (h : keys.Nodup) (key : String) :
    (removeKey keys key).Nodup := by
  have hkeys : (keys.map id).Nodup := by rwa [List.map_id]
  have hnodup := nodup_swapRemove (p := fun k => k = key) hkeys
  rw [List.map_id] at hnodup
  exact hnodup

/-- `upsertHeader` adds a name that is not there and moves none. -/
theorem keys_upsertHeader (hs : List Header) (key value : String) :
    (upsertHeader hs key value).map Header.key
      = if key ∈ hs.map Header.key then hs.map Header.key else hs.map Header.key ++ [key] := by
  induction hs with
  | nil => rfl
  | cons h hs ih =>
    unfold upsertHeader
    by_cases hk : h.key = key
    · rw [if_pos hk, if_pos (by simp [hk])]
      rfl
    · rw [if_neg hk, List.map_cons, ih, List.map_cons]
      by_cases hmem : key ∈ hs.map Header.key
      · rw [if_pos hmem, if_pos (List.mem_cons_of_mem _ hmem)]
      · rw [if_neg hmem, if_neg (by simp only [List.mem_cons, not_or]; exact ⟨Ne.symm hk, hmem⟩)]
        rfl

theorem mem_keys_upsertHeader {hs : List Header} {key value key' : String} :
    key' ∈ (upsertHeader hs key value).map Header.key ↔ key' = key ∨ key' ∈ hs.map Header.key := by
  rw [keys_upsertHeader]
  by_cases h : key ∈ hs.map Header.key
  · rw [if_pos h]
    constructor
    · exact .inr
    · rintro (rfl | hk)
      · exact h
      · exact hk
  · rw [if_neg h, List.mem_append, List.mem_singleton, or_comm]

theorem nodup_upsertHeader {hs : List Header} (h : (hs.map Header.key).Nodup)
    (key value : String) : ((upsertHeader hs key value).map Header.key).Nodup := by
  rw [keys_upsertHeader]
  by_cases hk : key ∈ hs.map Header.key
  · rw [if_pos hk]
    exact h
  · rw [if_neg hk]
    refine List.nodup_append.mpr ⟨h, by simp, ?_⟩
    intro a ha b hb
    rw [List.mem_singleton.mp hb]
    rintro rfl
    exact hk ha

/-- After `upsertHeader` the name has the new value and every other name the
old one. -/
theorem adds_upsertHeader {hs : List Header} (h : (hs.map Header.key).Nodup)
    {key value key' value' : String} :
    (∃ x ∈ upsertHeader hs key value, x.key = key' ∧ x.value = value')
      ↔ if key' = key then value' = value else ∃ x ∈ hs, x.key = key' ∧ x.value = value' := by
  induction hs with
  | nil =>
    unfold upsertHeader
    by_cases hk : key' = key
    · rw [if_pos hk]
      simp [hk, eq_comm]
    · rw [if_neg hk]
      simp [Ne.symm hk]
  | cons x hs ih =>
    rw [List.map_cons, List.nodup_cons] at h
    unfold upsertHeader
    by_cases hx : x.key = key
    · rw [if_pos hx]
      by_cases hk : key' = key
      · -- the name is not among the later ones
        have hlater : ∀ y ∈ hs, y.key ≠ key' := by
          intro y hy hkey
          exact h.1 (List.mem_map.mpr ⟨y, hy, by rw [hkey, hk, hx]⟩)
        rw [if_pos hk]
        constructor
        · rintro ⟨y, hy, hykey, hyval⟩
          rcases List.mem_cons.mp hy with rfl | hy
          · exact hyval.symm
          · exact absurd hykey (hlater y hy)
        · intro hv
          exact ⟨_, List.mem_cons_self, hx.trans hk.symm, hv.symm⟩
      · rw [if_neg hk]
        constructor
        · rintro ⟨y, hy, hykey, hyval⟩
          rcases List.mem_cons.mp hy with rfl | hy
          · exact absurd (hykey.symm.trans hx) hk
          · exact ⟨y, List.mem_cons_of_mem _ hy, hykey, hyval⟩
        · rintro ⟨y, hy, hykey, hyval⟩
          rcases List.mem_cons.mp hy with rfl | hy
          · exact absurd (hykey.symm.trans hx) hk
          · exact ⟨y, List.mem_cons_of_mem _ hy, hykey, hyval⟩
    · rw [if_neg hx, List.exists_mem_cons_iff, ih h.2]
      by_cases hk : key' = key
      · rw [if_pos hk, if_pos hk]
        have hne : x.key ≠ key' := fun he => hx (he.trans hk)
        simp [hne]
      · rw [if_neg hk, if_neg hk, List.exists_mem_cons_iff]

/-! ## Both operations keep the records in step -/

theorem consistent_empty : Consistent {} where
  added := List.nodup_nil
  removed := List.nodup_nil
  apart := by simp
  shadow := by simp [Adds]

variable {e : HeaderEdits}

theorem Consistent.set (h : e.Consistent) (key value : String) :
    (e.set key value).Consistent where
  added := nodup_upsertHeader h.added key value
  removed := nodup_removeKey h.removed key
  apart := by
    intro key' hadd hrem
    obtain ⟨hrem, hne⟩ := (mem_removeKey h.removed).mp hrem
    rcases mem_keys_upsertHeader.mp hadd with heq | hadd
    · exact hne heq
    · exact h.apart key' hadd hrem
  shadow := by
    intro key' value'
    refine Iff.trans ?_ (adds_upsertHeader h.added).symm
    show (e.shadow.insert key value).lookup key' = some value' ↔ _
    rw [AMap.lookup_insert_ite]
    by_cases hk : key' = key
    · rw [if_pos hk, if_pos hk, Option.some.injEq, eq_comm]
    · rw [if_neg hk, if_neg hk]
      exact h.shadow key' value'

theorem Consistent.remove (h : e.Consistent) (key : String) :
    (e.remove key).Consistent where
  added := nodup_swapRemove h.added
  removed := nodup_appendKey h.removed key
  apart := by
    intro key' hadd hrem
    obtain ⟨x, hx, rfl⟩ := List.mem_map.mp hadd
    obtain ⟨hx, hne⟩ := (mem_swapRemove_iff h.added).mp hx
    rcases mem_appendKey.mp hrem with heq | hrem
    · exact hne heq
    · exact h.apart x.key (List.mem_map_of_mem hx) hrem
  shadow := by
    intro key' value'
    show (e.shadow.erase key).lookup key' = some value' ↔ _
    rw [AMap.lookup_erase_ite]
    constructor
    · intro hlookup
      by_cases hk : key' = key
      · rw [if_pos hk] at hlookup
        cases hlookup
      · rw [if_neg hk] at hlookup
        obtain ⟨x, hx, hkey, hval⟩ := (h.shadow key' value').mp hlookup
        exact ⟨x, (mem_swapRemove_iff h.added).mpr ⟨hx, by rw [hkey]; exact hk⟩, hkey, hval⟩
    · rintro ⟨x, hx, hkey, hval⟩
      obtain ⟨hx, hne⟩ := (mem_swapRemove_iff h.added).mp hx
      rw [if_neg (by rw [← hkey]; exact hne)]
      exact (h.shadow key' value').mpr ⟨x, hx, hkey, hval⟩

/-- The shadow map has the names of the headers to add. -/
theorem Consistent.shadow_eq_none_iff (h : e.Consistent) {key : String} :
    e.shadow.lookup key = none ↔ key ∉ e.toAdd.map Header.key := by
  constructor
  · intro hnone hmem
    obtain ⟨x, hx, hkey⟩ := List.mem_map.mp hmem
    have hsome := (h.shadow key x.value).mpr ⟨x, hx, hkey, rfl⟩
    rw [hnone] at hsome
    cases hsome
  · intro hnot
    cases hs : e.shadow.lookup key with
    | none => rfl
    | some v =>
      obtain ⟨x, hx, hkey, _⟩ := (h.shadow key v).mp hs
      exact absurd (List.mem_map.mpr ⟨x, hx, hkey⟩) hnot

/-! ## Names with a pending change -/

/-- Some pending change names the header. -/
def Touches (e : HeaderEdits) (key : String) : Prop :=
  key ∈ e.toAdd.map Header.key ∨ key ∈ e.toRemove

theorem Consistent.touches_set (h : e.Consistent) (value : String) (ht : e.Touches key') :
    (e.set key value).Touches key' := by
  by_cases hk : key' = key
  · exact .inl (mem_keys_upsertHeader.mpr (.inl hk))
  · rcases ht with ht | ht
    · exact .inl (mem_keys_upsertHeader.mpr (.inr ht))
    · exact .inr ((mem_removeKey h.removed).mpr ⟨ht, hk⟩)

theorem Consistent.touches_remove (h : e.Consistent) (ht : e.Touches key') :
    (e.remove key).Touches key' := by
  by_cases hk : key' = key
  · exact .inr (mem_appendKey.mpr (.inl hk))
  · rcases ht with ht | ht
    · obtain ⟨x, hx, rfl⟩ := List.mem_map.mp ht
      exact .inl (List.mem_map_of_mem ((mem_swapRemove_iff h.added).mpr ⟨hx, hk⟩))
    · exact .inr (mem_appendKey.mpr (.inr ht))

end HeaderEdits

/-! ## Both directions of a context -/

/-- The headers that arrived and the pending changes. -/
structure HeaderView where
  headers : AMap String String
  responseHeaders : AMap String String
  upstream : HeaderEdits
  downstream : HeaderEdits

namespace RequestContext

def upstream (ctx : RequestContext) : HeaderEdits :=
  ⟨ctx.headersToAdd, ctx.headersToRemove, ctx.upstreamShadow⟩

def downstream (ctx : RequestContext) : HeaderEdits :=
  ⟨ctx.responseHeadersToAdd, ctx.responseHeadersToRemove, ctx.downstreamShadow⟩

def headerView (ctx : RequestContext) : HeaderView :=
  ⟨ctx.headers, ctx.responseHeaders, ctx.upstream, ctx.downstream⟩

end RequestContext

/-- A call of one of the header methods. -/
inductive HeaderCall where
  | setHeaderUpstream (key value : String)
  | removeHeaderUpstream (key : String)
  | setHeaderDownstream (key value : String)
  | removeHeaderDownstream (key : String)
  | setPath (path : String)

namespace HeaderCall

/-- The method called. -/
def run (ctx : RequestContext) : HeaderCall → RequestContext
  | .setHeaderUpstream key value => ctx.setHeaderUpstream key value
  | .removeHeaderUpstream key => ctx.removeHeaderUpstream key
  | .setHeaderDownstream key value => ctx.setHeaderDownstream key value
  | .removeHeaderDownstream key => ctx.removeHeaderDownstream key
  | .setPath path => ctx.setPath path

/-- The call changes what goes to the upstream. -/
def isUpstream : HeaderCall → Bool
  | .setHeaderUpstream _ _ | .removeHeaderUpstream _ | .setPath _ => true
  | .setHeaderDownstream _ _ | .removeHeaderDownstream _ => false

/-- The call, on the headers alone. -/
def onView (v : HeaderView) : HeaderCall → HeaderView
  | .setHeaderUpstream key value => { v with upstream := v.upstream.set (toLower key) value }
  | .removeHeaderUpstream key => { v with upstream := v.upstream.remove (toLower key) }
  | .setHeaderDownstream key value => { v with downstream := v.downstream.set (toLower key) value }
  | .removeHeaderDownstream key => { v with downstream := v.downstream.remove (toLower key) }
  | .setPath path => { v with upstream := v.upstream.set (toLower ":path") path }

theorem headerView_run (c : HeaderCall) (ctx : RequestContext) :
    (c.run ctx).headerView = c.onView ctx.headerView := by
  cases c <;> rfl

end HeaderCall

end Hypergate.Engine
