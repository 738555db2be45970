import Hypergate.Lib.Strings

/-!
# Pairs as lines of a text

A list of pairs is written as one text: each pair on a line of its own, with a separator
between name and value. Nothing is escaped, so a pair survives only if it is plain: no
separator in the name, and no line end in either part. What is read is always plain.

* `plain_of_mem_readLines`, `readLines_linesText` — so pairs are read back exactly if
  they are plain.
-/

namespace Hypergate.Lib

/-- The text of one pair. -/
def lineText (sep stop : Char) (e : String × String) : String :=
  e.1 ++ String.singleton sep ++ e.2 ++ String.singleton stop

def linesText (sep stop : Char) (l : List (String × String)) : String :=
  String.join (l.map (lineText sep stop))

/-- The pairs of a text; empty lines and lines without a separator are skipped. -/
def readLines (sep stop : Char) (text : String) : List (String × String) :=
  ((split stop text).filter (· ≠ "")).filterMap (cut sep)

/-- The pair can be told from the text around it. -/
structure Plain (sep stop : Char) (e : String × String) : Prop where
  name : sep ∉ e.1.toList
  nameLine : stop ∉ e.1.toList
  valueLine : stop ∉ e.2.toList

/-! ## Reading -/

theorem cut_eq_some {sep : Char} {s a b : String} (h : cut sep s = some (a, b)) :
    s.toList = a.toList ++ sep :: b.toList ∧ sep ∉ a.toList := by
  unfold cut at h
  cases hidx : s.toList.idxOf? sep with
  | none =>
    rw [hidx] at h
    cases h
  | some i =>
    rw [hidx] at h
    obtain ⟨rfl, rfl⟩ := Prod.mk.inj (Option.some.inj h)
    rw [String.toList_ofList, String.toList_ofList]
    obtain ⟨hi, hsep, hbefore⟩ := List.findIdx?_eq_some_iff_getElem.mp hidx
    have hget : s.toList[i] = sep := by simpa using hsep
    constructor
    · rw [← hget, List.getElem_cons_drop, List.take_append_drop]
    · intro hmem
      obtain ⟨j, hj, heq⟩ := List.getElem_of_mem hmem
      rw [List.length_take] at hj
      rw [List.getElem_take] at heq
      exact hbefore j (by omega) (by simpa using heq)

theorem cut_append {sep : Char} {a b : String} (h : sep ∉ a.toList) :
    cut sep (a ++ String.singleton sep ++ b) = some (a, b) := by
  have htext : (a ++ String.singleton sep ++ b).toList = a.toList ++ sep :: b.toList := by simp
  cases hcut : cut sep (a ++ String.singleton sep ++ b) with
  | none =>
    have hnone : (a ++ String.singleton sep ++ b).toList.idxOf? sep = none := by
      unfold cut at hcut
      split at hcut
      · assumption
      · cases hcut
    have hmem : sep ∈ (a ++ String.singleton sep ++ b).toList := by simp
    exact absurd hmem (List.idxOf?_eq_none_iff.mp hnone)
  | some e =>
    obtain ⟨hsplit, hnot⟩ := cut_eq_some hcut
    rw [htext] at hsplit
    obtain ⟨ha, hb⟩ := sep_append_inj h hnot hsplit
    rw [String.toList_inj.mp ha, String.toList_inj.mp hb]

theorem splitOn_notMem {c : Char} {l part : List Char} (h : part ∈ l.splitOn c) : c ∉ part := by
  induction l generalizing part with
  | nil =>
    rw [List.splitOn_nil, List.mem_singleton] at h
    rw [h]
    exact List.not_mem_nil
  | cons d l ih =>
    rw [List.splitOn_cons_eq_if_modifyHead] at h
    by_cases hd : (d == c) = true
    · rw [if_pos hd] at h
      rcases List.mem_cons.mp h with rfl | h
      · exact List.not_mem_nil
      · exact ih h
    · rw [if_neg hd] at h
      cases hl : l.splitOn c with
      | nil =>
        rw [hl] at h
        exact absurd h List.not_mem_nil
      | cons first rest =>
        rw [hl, List.modifyHead_cons] at h
        rcases List.mem_cons.mp h with rfl | h
        · rw [List.mem_cons, not_or]
          refine ⟨fun heq => hd (by simp [heq]), ih ?_⟩
          rw [hl]
          exact List.mem_cons_self
        · refine ih ?_
          rw [hl]
          exact List.mem_cons_of_mem _ h

theorem split_notMem {c : Char} {s part : String} (h : part ∈ split c s) : c ∉ part.toList := by
  obtain ⟨l, hl, rfl⟩ := List.mem_map.mp h
  rw [String.toList_ofList]
  exact splitOn_notMem hl

variable {sep stop : Char}

theorem plain_of_mem_readLines {text : String} {e : String × String}
    (h : e ∈ readLines sep stop text) : Plain sep stop e := by
  obtain ⟨line, hline, hcut⟩ := List.mem_filterMap.mp h
  have hstop := split_notMem (List.mem_filter.mp hline).1
  obtain ⟨hsplit, hname⟩ := cut_eq_some hcut
  rw [hsplit, List.mem_append, List.mem_cons, not_or, not_or] at hstop
  exact ⟨hname, hstop.1, hstop.2.2⟩

theorem split_line {line rest : String} (h : stop ∉ line.toList) :
    split stop (line ++ String.singleton stop ++ rest) = line :: split stop rest := by
  have htext : (line ++ String.singleton stop ++ rest).toList
      = line.toList ++ stop :: rest.toList := by simp
  unfold split
  rw [htext, List.splitOn_append_cons_self_of_not_mem h, List.map_cons, String.ofList_toList]

theorem readLines_line {e : String × String} (hne : sep ≠ stop) (h : Plain sep stop e)
    (rest : String) :
    readLines sep stop (lineText sep stop e ++ rest) = e :: readLines sep stop rest := by
  have hline : stop ∉ (e.1 ++ String.singleton sep ++ e.2).toList := by
    have htext : (e.1 ++ String.singleton sep ++ e.2).toList = e.1.toList ++ sep :: e.2.toList := by
      simp
    rw [htext, List.mem_append, List.mem_cons, not_or, not_or]
    exact ⟨h.nameLine, hne.symm, h.valueLine⟩
  unfold readLines lineText
  rw [split_line hline, List.filter_cons_of_pos (by simp), List.filterMap_cons,
    cut_append h.name]

theorem readLines_linesText {l : List (String × String)} (hne : sep ≠ stop)
    (h : ∀ e ∈ l, Plain sep stop e) : readLines sep stop (linesText sep stop l) = l := by
  induction l with
  | nil => rfl
  | cons e l ih =>
    have htext : linesText sep stop (e :: l) = lineText sep stop e ++ linesText sep stop l := by
      rw [← String.toList_inj]
      simp [linesText]
    rw [htext, readLines_line hne (h e List.mem_cons_self),
      ih fun e' he' => h e' (List.mem_cons_of_mem e he')]

/-! ## Lower case -/

/-- No letter becomes a character below the letters. -/
theorem charToLower_eq_iff {c d : Char} (hc : c.val.toNat < 65) : d.toLower = c ↔ d = c := by
  by_cases hd : d.val ≥ 'A'.val ∧ d.val ≤ 'Z'.val
  · have hlow : 65 ≤ d.val.toNat := UInt32.le_iff_toNat_le.mp hd.1
    have hhigh : d.val.toNat ≤ 90 := UInt32.le_iff_toNat_le.mp hd.2
    have hshift : ('a'.val - 'A'.val).toNat = 32 := rfl
    have hval : d.toLower.val = d.val + ('a'.val - 'A'.val) := by
      unfold Char.toLower
      rw [dif_pos hd]
    constructor
    · intro h
      rw [← h, hval, UInt32.toNat_add] at hc
      omega
    · rintro rfl
      omega
  · have hsame : d.toLower = d := by
      unfold Char.toLower
      rw [dif_neg hd]
    rw [hsame]

theorem mem_toLower {c : Char} (hc : c.val.toNat < 65) {s : String} :
    c ∈ (toLower s).toList ↔ c ∈ s.toList := by
  unfold toLower
  rw [String.toList_ofList, List.mem_map]
  constructor
  · rintro ⟨d, hd, h⟩
    rwa [(charToLower_eq_iff hc).mp h] at hd
  · exact fun h => ⟨c, h, (charToLower_eq_iff hc).mpr rfl⟩

/-- The case of a name does not matter to whether a pair is plain. -/
theorem Plain.of_toLower (hsep : sep.val.toNat < 65) (hstop : stop.val.toNat < 65)
    {name name' value : String} (h : Plain sep stop (name', value))
    (heq : toLower name' = toLower name) : Plain sep stop (name, value) where
  name hmem := h.name ((mem_toLower hsep).mp (heq ▸ (mem_toLower hsep).mpr hmem))
  nameLine hmem := h.nameLine ((mem_toLower hstop).mp (heq ▸ (mem_toLower hstop).mpr hmem))
  valueLine := h.valueLine

end Hypergate.Lib
