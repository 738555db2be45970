import Hypergate.Lib.Lines
import Mathlib.Data.List.DropRight

/-!
# Splitting, joining and trimming

What the text functions undo: a text is cut at a separator exactly if it was joined
there, parts without the separator are split again as they were joined, and a trimmed
end was there or was not.
-/

namespace Hypergate.Lib

variable {sep : Char} {s a b : String}

/-! ## Cutting -/

theorem cut_eq_none_iff : cut sep s = none ↔ sep ∉ s.toList := by
  unfold cut
  cases hidx : s.toList.idxOf? sep with
  | none => exact ⟨fun _ => List.idxOf?_eq_none_iff.mp hidx, fun _ => rfl⟩
  | some i =>
    have hmem : sep ∈ s.toList := by
      by_contra hnot
      rw [List.idxOf?_eq_none_iff.mpr hnot] at hidx
      cases hidx
    exact ⟨fun h => absurd h (by simp), fun h => absurd hmem h⟩

theorem cut_eq_some_iff :
    cut sep s = some (a, b) ↔ s = a ++ String.singleton sep ++ b ∧ sep ∉ a.toList := by
  constructor
  · intro h
    obtain ⟨hsplit, hnot⟩ := cut_eq_some h
    refine ⟨String.toList_inj.mp ?_, hnot⟩
    rw [hsplit]
    simp
  · rintro ⟨rfl, hnot⟩
    exact cut_append hnot

/-! ## Splitting -/

/-- What stands before the separator is cut off in front of it. -/
theorem mem_of_cut_append {mark : Char} {c d : String} (hne : mark ≠ sep) (ha : sep ∉ a.toList)
    (h : cut sep (a ++ String.singleton mark ++ b) = some (c, d)) : mark ∈ c.toList := by
  obtain ⟨htext, -⟩ := cut_eq_some_iff.mp h
  have hlists : a.toList ++ mark :: b.toList = c.toList ++ sep :: d.toList := by
    have := congrArg String.toList htext
    simpa using this
  rcases List.append_eq_append_iff.mp hlists with ⟨l, hc, htail⟩ | ⟨l, hc, htail⟩
  · cases l with
    | nil => exact absurd (List.cons.inj htail).1 hne
    | cons x l =>
      rw [hc, (List.cons.inj htail).1]
      exact List.mem_append_right _ List.mem_cons_self
  · cases l with
    | nil => exact absurd (List.cons.inj htail).1.symm hne
    | cons x l =>
      refine absurd ?_ ha
      rw [hc, (List.cons.inj htail).1]
      exact List.mem_append_right _ List.mem_cons_self

theorem split_ne_nil (sep : Char) (s : String) : split sep s ≠ [] := by
  unfold split
  rw [ne_eq, List.map_eq_nil_iff]
  exact List.splitOn_ne_nil sep s.toList

/-- Parts that do not contain the separator are split as they were joined. -/
theorem split_intercalate {l : List String} (h : ∀ part ∈ l, sep ∉ part.toList) (hne : l ≠ []) :
    split sep ((String.singleton sep).intercalate l) = l := by
  have hparts : ∀ part ∈ l.map String.toList, sep ∉ part := by
    intro part hpart
    obtain ⟨t, ht, rfl⟩ := List.mem_map.mp hpart
    exact h t ht
  unfold split
  rw [String.toList_intercalate, String.toList_singleton,
    List.splitOn_intercalate sep hparts (by simpa using hne), List.map_map]
  have hid : String.ofList ∘ String.toList = id := funext fun t => String.ofList_toList
  rw [hid, List.map_id]

theorem split_of_notMem (h : sep ∉ s.toList) : split sep s = [s] := by
  unfold split
  rw [List.splitOn_eq_singleton h, List.map_singleton, String.ofList_toList]

theorem split_append (sep : Char) (a b : String) :
    split sep (a ++ String.singleton sep ++ b) = split sep a ++ split sep b := by
  have htext : (a ++ String.singleton sep ++ b).toList = a.toList ++ sep :: b.toList := by simp
  unfold split
  rw [htext, List.splitOn_append_cons_self, List.map_append]

theorem intercalate_split (sep : Char) (s : String) :
    (String.singleton sep).intercalate (split sep s) = s := by
  rw [← String.toList_inj, String.toList_intercalate, String.toList_singleton]
  unfold split
  have hid : String.toList ∘ String.ofList = id := funext fun t => String.toList_ofList
  rw [List.map_map, hid, List.map_id, List.intercalate_splitOn]

/-- A character of a text is a separator or stands in a part. -/
theorem mem_or_mem_split {c : Char} (sep : Char) (h : c ∈ s.toList) :
    c = sep ∨ ∃ part ∈ split sep s, c ∈ part.toList := by
  rw [← intercalate_split sep s] at h
  generalize split sep s = parts at h
  induction parts with
  | nil => cases h
  | cons part parts ih =>
    by_cases hnil : parts = []
    · subst hnil
      rw [String.intercalate_singleton] at h
      exact .inr ⟨part, List.mem_cons_self, h⟩
    · rw [String.intercalate_cons_of_ne_nil hnil, String.toList_append, String.toList_append,
        String.toList_singleton] at h
      rcases List.mem_append.mp h with h | h
      · rcases List.mem_append.mp h with h | h
        · exact .inr ⟨part, List.mem_cons_self, h⟩
        · exact .inl (List.mem_singleton.mp h)
      · rcases ih h with h | ⟨p, hp, hc⟩
        · exact .inl h
        · exact .inr ⟨p, List.mem_cons_of_mem part hp, hc⟩

/-! ## Trimming blanks -/

theorem toList_trimSpace (s : String) :
    (trimSpace s).toList = (s.toList.dropWhile isSpace).rdropWhile isSpace := by
  unfold trimSpace
  rw [String.toList_ofList]
  rfl

theorem isSpace_of_printable {c : Char} (hlow : 33 ≤ c.toNat) (hhigh : c.toNat ≤ 126) :
    isSpace c = false := by
  unfold isSpace
  rw [Bool.or_eq_false_iff]
  constructor
  · rw [decide_eq_false_iff_not]
    simp only [List.mem_cons, List.not_mem_nil, or_false]
    omega
  · rw [Bool.and_eq_false_iff]
    exact .inl (decide_eq_false (by omega))

theorem mem_of_mem_trimSpace {c : Char} (h : c ∈ (trimSpace s).toList) : c ∈ s.toList := by
  rw [toList_trimSpace] at h
  exact (List.dropWhile_suffix isSpace).subset ((List.rdropWhile_prefix isSpace _).subset h)

/-- A text that neither starts nor ends with a blank is trimmed already. -/
theorem trimSpace_eq_self_iff :
    trimSpace s = s ↔ s.toList.dropWhile isSpace = s.toList
      ∧ s.toList.rdropWhile isSpace = s.toList := by
  rw [← String.toList_inj, toList_trimSpace]
  constructor
  · intro h
    have hdrop : s.toList.dropWhile isSpace = s.toList := by
      have hsuffix := List.dropWhile_suffix (l := s.toList) isSpace
      have hprefix := List.rdropWhile_prefix isSpace (s.toList.dropWhile isSpace)
      refine hsuffix.eq_of_length (Nat.le_antisymm hsuffix.length_le ?_)
      calc s.toList.length = ((s.toList.dropWhile isSpace).rdropWhile isSpace).length := by rw [h]
        _ ≤ (s.toList.dropWhile isSpace).length := hprefix.length_le
    exact ⟨hdrop, by rwa [hdrop] at h⟩
  · rintro ⟨hdrop, hrdrop⟩
    rw [hdrop, hrdrop]

@[simp] theorem trimSpace_trimSpace (s : String) : trimSpace (trimSpace s) = trimSpace s := by
  rw [trimSpace_eq_self_iff, toList_trimSpace]
  refine ⟨?_, List.rdropWhile_idempotent isSpace _⟩
  -- what is left starts where the text without leading blanks starts
  rw [List.dropWhile_eq_self_iff]
  intro hlen
  have hprefix := List.rdropWhile_prefix isSpace (s.toList.dropWhile isSpace)
  rw [List.IsPrefix.getElem hprefix hlen]
  exact (List.dropWhile_eq_self_iff.mp (List.dropWhile_idempotent isSpace s.toList)) _

/-- Parts joined with the separator and a blank: the blank is trimmed again. -/
theorem map_trimSpace_split_intercalate {blank : Char} (hblank : isSpace blank = true)
    (hne : blank ≠ sep) {l : List String} (h : ∀ part ∈ l, sep ∉ part.toList)
    (htrim : ∀ part ∈ l, trimSpace part = part) (hl : l ≠ []) :
    (split sep ((String.ofList [sep, blank]).intercalate l)).map trimSpace = l := by
  induction l with
  | nil => exact absurd rfl hl
  | cons a l ih =>
    have ha : sep ∉ a.toList := h a List.mem_cons_self
    by_cases hnil : l = []
    · subst hnil
      have hjoin : (String.ofList [sep, blank]).intercalate [a] = a := by simp
      rw [hjoin, split_of_notMem ha, List.map_singleton, htrim a List.mem_cons_self]
    · have hjoin : (String.ofList [sep, blank]).intercalate (a :: l)
          = a ++ String.singleton sep
            ++ (String.singleton blank ++ (String.ofList [sep, blank]).intercalate l) := by
        rw [String.intercalate_cons_of_ne_nil hnil, ← String.toList_inj]
        simp
      rw [hjoin, split_line ha, List.map_cons, htrim a List.mem_cons_self]
      refine congrArg (a :: ·) (Eq.trans ?_ (ih (fun t ht => h t (List.mem_cons_of_mem a ht))
        (fun t ht => htrim t (List.mem_cons_of_mem a ht)) hnil))
      -- the blank goes to the first part only
      generalize (String.ofList [sep, blank]).intercalate l = rest
      unfold split
      have htext : (String.singleton blank ++ rest).toList = blank :: rest.toList := by simp
      rw [htext, List.splitOn_cons_eq_if_modifyHead, if_neg (by simpa using hne)]
      cases hparts : rest.toList.splitOn sep with
      | nil => exact absurd hparts (List.splitOn_ne_nil sep _)
      | cons first parts =>
        rw [List.modifyHead_cons, List.map_cons, List.map_cons, List.map_cons, List.map_cons,
          trimSpace_cons hblank]

/-! ## Trimming an end -/

theorem exists_append_of_isPrefixOf {start : String}
    (h : start.toList.isPrefixOf s.toList = true) : ∃ rest, s = start ++ rest := by
  obtain ⟨l, hl⟩ := List.isPrefixOf_iff_prefix.mp h
  refine ⟨String.ofList l, ?_⟩
  rw [← String.toList_inj, ← hl]
  simp

theorem trimPrefix_append (start s : String) : trimPrefix (start ++ s) start = s := by
  unfold trimPrefix
  rw [if_pos (by simp), String.toList_append, ← String.length_toList, List.drop_left,
    String.ofList_toList]

theorem trimSuffix_append (s stop : String) : trimSuffix (s ++ stop) stop = s := by
  unfold trimSuffix
  rw [if_pos (by simp), String.toList_append, String.length_append, Nat.add_sub_cancel,
    ← String.length_toList, List.take_left, String.ofList_toList]

theorem trimSuffix_of_not_suffix {stop : String} (h : ¬ stop.toList <:+ s.toList) :
    trimSuffix s stop = s := by
  unfold trimSuffix
  rw [if_neg]
  exact fun hsuffix => h (List.isSuffixOf_iff_suffix.mp hsuffix)

/-- What is left after trimming had the end, or has it not. -/
theorem trimSuffix_eq_iff {stop : String} :
    trimSuffix s stop = a ↔ s = a ++ stop ∨ s = a ∧ ¬ stop.toList <:+ a.toList := by
  constructor
  · rintro rfl
    by_cases hsuffix : stop.toList <:+ s.toList
    · obtain ⟨l, hl⟩ := hsuffix
      have hs : s = String.ofList l ++ stop := by
        rw [← String.toList_inj, ← hl]
        simp
      left
      rw [hs, trimSuffix_append]
    · rw [trimSuffix_of_not_suffix hsuffix]
      exact .inr ⟨rfl, hsuffix⟩
  · rintro (rfl | ⟨rfl, hnot⟩)
    · exact trimSuffix_append a stop
    · exact trimSuffix_of_not_suffix hnot

end Hypergate.Lib
