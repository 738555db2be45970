import Hypergate.Lib.Splitting
import Hypergate.Routing.Selector

/-!
# Names and values (`internal/selector/selector.go`)

What the validators of the selector parser let through, as predicates on the text, with
one lemma for each validator.
-/

namespace Hypergate.Routing

open Lib

/-! ## Labels -/

/-- A DNS label (RFC 1123). -/
structure IsDNSLabel (v : String) : Prop where
  nonempty : v ≠ ""
  size : v.utf8ByteSize ≤ 63
  chars : ∀ c ∈ v.toList, isLowerAlnum c = true ∨ c = '-'
  first : v.toList.head? ≠ some '-'
  last : v.toList.getLast? ≠ some '-'

variable {v : String}

theorem validateDNSLabel_eq_ok_iff :
    validateDNSLabel v = .ok () ↔ IsDNSLabel v := by
  unfold validateDNSLabel
  rw [guard_eq_ok_iff, guard_eq_ok_iff, guard_eq_ok_iff, not_or, not_or]
  have hchars : ¬ (!v.toList.all fun c => isLowerAlnum c || c == '-') = true
      ↔ ∀ c ∈ v.toList, isLowerAlnum c = true ∨ c = '-' := by
    rw [Bool.not_eq_true, Bool.not_eq_false', List.all_eq_true]
    simp only [Bool.or_eq_true, beq_iff_eq]
  rw [hchars]
  constructor
  · rintro ⟨⟨hne, hsize⟩, hall, ⟨hfirst, hlast⟩, -⟩
    exact ⟨hne, by omega, hall, hfirst, hlast⟩
  · intro h
    exact ⟨⟨h.nonempty, Nat.not_lt.mpr h.size⟩, h.chars, ⟨h.first, h.last⟩, rfl⟩

/-- Nothing but letters, digits and hyphens stands in a label. -/
theorem IsDNSLabel.notMem (h : IsDNSLabel v) {c : Char} (hc : isLowerAlnum c = false)
    (hdash : c ≠ '-') : c ∉ v.toList := by
  intro hmem
  rcases h.chars c hmem with halnum | hc'
  · rw [hc] at halnum
    cases halnum
  · exact hdash hc'

theorem isLowerAlnum_iff {c : Char} :
    isLowerAlnum c = true ↔ 97 ≤ c.toNat ∧ c.toNat ≤ 122 ∨ 48 ≤ c.toNat ∧ c.toNat ≤ 57 := by
  unfold isLowerAlnum
  rw [Bool.or_eq_true, Bool.and_eq_true, Bool.and_eq_true, decide_eq_true_iff, decide_eq_true_iff,
    decide_eq_true_iff, decide_eq_true_iff, Char.le_def, Char.le_def, Char.le_def, Char.le_def,
    UInt32.le_iff_toNat_le, UInt32.le_iff_toNat_le, UInt32.le_iff_toNat_le, UInt32.le_iff_toNat_le]
  rfl

/-- A label of a host name. -/
structure IsHostLabel (l : String) : Prop where
  nonempty : l ≠ ""
  size : l.utf8ByteSize ≤ 63
  chars : ∀ c ∈ l.toList, isLowerAlnum c = true ∨ c = '-' ∨ c = '_'

theorem validateHostLabel_eq_ok_iff {l : String} :
    validateHostLabel l = .ok () ↔ IsHostLabel l := by
  unfold validateHostLabel
  rw [guard_eq_ok_iff, not_or]
  have hchars : l.toList.find? (fun c => !(isLowerAlnum c || c == '-' || c == '_')) = none
      ↔ ∀ c ∈ l.toList, isLowerAlnum c = true ∨ c = '-' ∨ c = '_' := by
    simp only [List.find?_eq_none, Bool.not_eq_true', Bool.not_eq_false, Bool.or_eq_true,
      beq_iff_eq, or_assoc]
  constructor
  · rintro ⟨⟨hne, hsize⟩, h⟩
    cases hfind : l.toList.find? fun c => !(isLowerAlnum c || c == '-' || c == '_') with
    | some c =>
      rw [hfind] at h
      cases h
    | none => exact ⟨hne, by omega, hchars.mp hfind⟩
  · intro h
    refine ⟨⟨h.nonempty, Nat.not_lt.mpr h.size⟩, ?_⟩
    rw [hchars.mpr h.chars]

/-! ## Names of several labels -/

/-- A DNS subdomain (RFC 1123). -/
structure IsDNSSubdomain (v : String) : Prop where
  nonempty : v ≠ ""
  size : v.utf8ByteSize ≤ 253
  labels : ∀ label ∈ split '.' v, IsDNSLabel label

theorem validateDNSSubdomain_eq_ok_iff :
    validateDNSSubdomain v = .ok () ↔ IsDNSSubdomain v := by
  unfold validateDNSSubdomain
  rw [guard_eq_ok_iff, not_or, mapError_eq_ok, forM_eq_ok_iff]
  simp only [validateDNSLabel_eq_ok_iff]
  constructor
  · rintro ⟨⟨hne, hsize⟩, hlabels⟩
    exact ⟨hne, by omega, hlabels⟩
  · intro h
    exact ⟨⟨h.nonempty, Nat.not_lt.mpr h.size⟩, h.labels⟩

theorem validateNamespacedName_eq_ok_iff {validateName : String → Except String Unit} :
    validateNamespacedName v validateName = .ok ()
      ↔ ∃ ns name, v = ns ++ "/" ++ name ∧ IsDNSLabel ns ∧ validateName name = .ok () := by
  unfold validateNamespacedName
  constructor
  · intro h
    cases hcut : cut '/' v with
    | none =>
      rw [hcut] at h
      cases h
    | some e =>
      rw [hcut] at h
      obtain ⟨u, hns, hname⟩ := of_bind_eq_ok h
      exact ⟨e.1, e.2, (cut_eq_some_iff.mp hcut).1, validateDNSLabel_eq_ok_iff.mp hns, hname⟩
  · rintro ⟨ns, name, rfl, hns, hname⟩
    have hcut : cut '/' (ns ++ "/" ++ name) = some (ns, name) :=
      cut_append (hns.notMem rfl (by decide))
    rw [hcut]
    show (validateDNSLabel ns).bind (fun _ => validateName name) = _
    rw [validateDNSLabel_eq_ok_iff.mpr hns]
    exact hname

theorem validateSPIFFE_eq_ok (h : validateSPIFFE v = .ok ()) :
    ∃ domain ns account, v = "//" ++ domain ++ "/ns/" ++ ns ++ "/sa/" ++ account ∧ domain ≠ ""
      ∧ '/' ∉ domain.toList ∧ IsDNSLabel ns ∧ IsDNSSubdomain account := by
  unfold validateSPIFFE at h
  dsimp only at h
  split at h
  · case h_1 rest hrest =>
      split at h
      · case h_1 domain nsMark ns saMark account hsplit =>
          rw [guard_eq_ok_iff, not_or, not_or, not_not, not_not] at h
          obtain ⟨⟨hdomain, rfl, rfl⟩, h⟩ := h
          obtain ⟨u, hns, haccount⟩ := of_bind_eq_ok h
          refine ⟨domain, ns, account, ?_, hdomain, ?_, validateDNSLabel_eq_ok_iff.mp hns,
            validateDNSSubdomain_eq_ok_iff.mp haccount⟩
          · have hjoin := intercalate_split '/' (String.ofList rest)
            rw [hsplit] at hjoin
            rw [← String.toList_inj, hrest, ← String.toList_ofList (l := rest), ← hjoin]
            simp
          · refine split_notMem (s := String.ofList rest) ?_
            rw [hsplit]
            exact List.mem_cons_self
      · cases h
  · cases h

/-! ## Hosts -/

/-- A host name without port. -/
def IsHostName (name : String) : Prop := ∀ label ∈ split '.' name, IsHostLabel label

namespace IsHostName

variable {name : String}

theorem chars (h : IsHostName name) {c : Char} (hc : c ∈ name.toList) :
    isLowerAlnum c = true ∨ c = '-' ∨ c = '_' ∨ c = '.' := by
  rcases mem_or_mem_split '.' hc with rfl | ⟨label, hlabel, hmem⟩
  · exact .inr (.inr (.inr rfl))
  · rcases (h label hlabel).chars c hmem with h | h | h
    · exact .inl h
    · exact .inr (.inl h)
    · exact .inr (.inr (.inl h))

theorem nonempty (h : IsHostName name) : name ≠ "" := by
  rintro rfl
  exact (h "" (by decide)).nonempty rfl

/-- No label is empty, so the name does not end in a point. -/
theorem not_dot_suffix (h : IsHostName name) : ¬ ".".toList <:+ name.toList := by
  rintro ⟨l, hl⟩
  have hname : name = String.ofList l ++ String.singleton '.' ++ "" := by
    rw [← String.toList_inj, ← hl]
    simp
  refine (h "" ?_).nonempty rfl
  rw [hname, split_append]
  exact List.mem_append_right _ (by decide)

end IsHostName

/-- An ASCII text without capitals is in lower case. -/
theorem lowerHost_of_noUpper (h : ∀ c ∈ v.toList, c.toNat < 65 ∨ 90 < c.toNat ∧ c.toNat < 128) :
    lowerHost v = v := by
  have hchar : ∀ c ∈ v.toList,
      (if c.toNat = 0x130 then 'i' else if c.toNat = 0x212a then 'k' else c.toLower) = c := by
    intro c hc
    have hrange := h c hc
    rw [if_neg (by omega), if_neg (by omega)]
    unfold Char.toLower
    rw [dif_neg]
    rintro ⟨hlow, hhigh⟩
    have hlow' : 65 ≤ c.toNat := hlow
    have hhigh' : c.toNat ≤ 90 := hhigh
    omega
  unfold lowerHost
  rw [List.map_congr_left hchar, List.map_id', String.ofList_toList]

/-- What `parseHost` makes of a text: a name, or a suffix after `*.`. -/
theorem parseHost_eq_ok_iff {sel : Selector} :
    parseHost v = .ok sel
      ↔ ∃ name wildcard, IsHostName name
        ∧ trimSuffix (lowerHost v) "." = (if wildcard then "*." ++ name else name)
        ∧ sel = .host (if wildcard then "." ++ name else name) wildcard := by
  unfold parseHost
  generalize trimSuffix (lowerHost v) "." = h
  constructor
  · intro hok
    dsimp only at hok
    rw [guard_eq_ok_iff] at hok
    obtain ⟨-, hok⟩ := hok
    by_cases hwild : "*.".toList.isPrefixOf h.toList = true
    · obtain ⟨name, rfl⟩ := exists_append_of_isPrefixOf hwild
      rw [hwild, if_pos rfl, trimPrefix_append] at hok
      split at hok
      · cases hok
      · case h_2 hlabels =>
          refine ⟨name, true, ?_, rfl, (Except.ok.inj hok).symm⟩
          exact fun label hlabel =>
            validateHostLabel_eq_ok_iff.mp (forM_eq_ok_iff.mp hlabels label hlabel)
    · rw [Bool.not_eq_true] at hwild
      rw [hwild, if_neg (by simp)] at hok
      split at hok
      · cases hok
      · case h_2 hlabels =>
          refine ⟨h, false, ?_, rfl, (Except.ok.inj hok).symm⟩
          exact fun label hlabel =>
            validateHostLabel_eq_ok_iff.mp (forM_eq_ok_iff.mp hlabels label hlabel)
  · rintro ⟨name, wildcard, hname, rfl, rfl⟩
    have hstar : ∀ c ∈ name.toList, ¬ (c == '*' || c == ':' || c == '/') = true := by
      intro c hc hbad
      simp only [Bool.or_eq_true, beq_iff_eq] at hbad
      rcases hbad with (rfl | rfl) | rfl <;> exact absurd (hname.chars hc) (by decide)
    have hcheck : ¬ (name = "" ∨ name.toList.any (fun c => c == '*' || c == ':' || c == '/')) := by
      rw [not_or, List.any_eq_true]
      exact ⟨hname.nonempty, fun ⟨c, hc, hbad⟩ => hstar c hc hbad⟩
    have hlabels : (split '.' name).forM validateHostLabel = .ok () :=
      forM_eq_ok_iff.mpr fun label hlabel => validateHostLabel_eq_ok_iff.mpr (hname label hlabel)
    have hread : "*.".toList.isPrefixOf (if wildcard then "*." ++ name else name).toList = wildcard
        ∧ (if wildcard then trimPrefix (if wildcard then "*." ++ name else name) "*."
          else if wildcard then "*." ++ name else name) = name := by
      cases wildcard with
      | true => exact ⟨by simp, trimPrefix_append "*." name⟩
      | false =>
        refine ⟨?_, rfl⟩
        rw [Bool.eq_false_iff]
        intro hpre
        obtain ⟨rest, heq⟩ := exists_append_of_isPrefixOf hpre
        have hmem : '*' ∈ name.toList := by
          rw [show name = "*." ++ rest from heq]
          simp
        exact hstar '*' hmem rfl
    dsimp only
    rw [hread.1, hread.2, if_neg hcheck, hlabels]

end Hypergate.Routing
