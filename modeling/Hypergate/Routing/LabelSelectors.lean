import Hypergate.Routing.SelectorLaws
import Hypergate.Routing.SelectorText

/-!
# Label selectors (`internal/selector/selector.go`)

`labels:[namespace/]k1=v1,k2=v2,...` names the pods of a namespace, or of all, that carry
every listed label. The slash that ends the namespace is also the slash inside a qualified
label key, and the pairs are collected in a map.

* `parseLabels_namespaced`, `parseLabels_bare` — how the text is read: with a namespace up
  to the first slash, or without one if the first key has no slash.
-/

namespace Hypergate.Routing

open Lib Identity

/-! ## Labels of Kubernetes -/

/-- A character of a label name or value. -/
def isLabelChar (c : Char) : Bool := c.isAlphanum || c == '-' || c == '_' || c == '.'

/-- The name part of a label key, or a label value that is not empty. -/
structure IsLabelName (s : String) : Prop where
  nonempty : s ≠ ""
  size : s.utf8ByteSize ≤ 63
  chars : ∀ c ∈ s.toList, isLabelChar c = true
  first : s.toList.head?.all Char.isAlphanum = true
  last : s.toList.getLast?.all Char.isAlphanum = true

/-- The prefix of a qualified label key: a DNS subdomain, whose labels have no bound of
their own. -/
structure IsLabelPrefix (s : String) : Prop where
  size : s.utf8ByteSize ≤ 253
  labels : ∀ l ∈ split '.' s, l ≠ "" ∧ (∀ c ∈ l.toList, isLowerAlnum c = true ∨ c = '-')
    ∧ l.toList.head? ≠ some '-' ∧ l.toList.getLast? ≠ some '-'

/-- A label key, with its prefix if it has one. -/
structure LabelKey where
  pre : Option String
  name : String
  validPrefix : ∀ p, pre = some p → IsLabelPrefix p
  validName : IsLabelName name

def LabelKey.text (k : LabelKey) : String :=
  match k.pre with
  | none => k.name
  | some p => p ++ "/" ++ k.name

/-- A label: a key and a value. -/
structure Label where
  key : LabelKey
  value : String
  validValue : value = "" ∨ IsLabelName value

/-- One pair of the selector. -/
def Label.text (l : Label) : String := l.key.text ++ "=" ++ l.value

/-- A namespace name. -/
structure NamespaceName where
  name : String
  valid : IsDNSLabel name

/-- The pairs of the selector. -/
def pairsText (labels : List Label) : String := ",".intercalate (labels.map Label.text)

/-- The value of the selector. -/
def labelsText (ns : Option NamespaceName) (labels : List Label) : String :=
  match ns with
  | none => pairsText labels
  | some n => n.name ++ "/" ++ pairsText labels

/-- The pod is in the namespace, if one is given, and has every listed label. -/
def HasLabels (ns : Option NamespaceName) (labels : List Label) (w : Workload) : Prop :=
  (∀ n, ns = some n → w.namespace = n.name)
    ∧ ∀ l ∈ labels, w.labels.lookup l.key.text = some l.value

/-- The selector is accepted for callers, and a pod is matched exactly if it is one that is
meant. -/
def LabelsRight (netip : Netip) (ns : Option NamespaceName) (labels : List Label) : Prop :=
  ∃ set, compile netip ["labels:" ++ labelsText ns labels] .source true = .ok set
    ∧ ∀ addr w externalAllowed, w.kind = .pod →
      (SelectorSet.matchSource set addr (some w) externalAllowed = true ↔ HasLabels ns labels w)

/-! ## Characters -/

variable {c : Char}

theorem isLabelChar_iff :
    isLabelChar c = true ↔ (65 ≤ c.toNat ∧ c.toNat ≤ 90 ∨ 97 ≤ c.toNat ∧ c.toNat ≤ 122
      ∨ 48 ≤ c.toNat ∧ c.toNat ≤ 57) ∨ c = '-' ∨ c = '_' ∨ c = '.' := by
  unfold isLabelChar Char.isAlphanum Char.isAlpha Char.isUpper Char.isLower Char.isDigit
  simp only [Bool.or_eq_true, Bool.and_eq_true, decide_eq_true_eq, beq_iff_eq, ge_iff_le,
    UInt32.le_iff_toNat_le, or_assoc]
  rfl

/-- The characters of a pair before and after its `=`. -/
def IsPairChar (c : Char) : Prop := isLabelChar c = true ∨ c = '/'

theorem IsPairChar.isSpace (h : IsPairChar c) : isSpace c = false := by
  rcases h with h | rfl
  · rcases isLabelChar_iff.mp h with hrange | rfl | rfl | rfl
    · exact isSpace_of_printable (by omega) (by omega)
    · rfl
    · rfl
    · rfl
  · rfl

theorem not_isPairChar : ¬ IsPairChar '=' ∧ ¬ IsPairChar ',' := by
  unfold IsPairChar
  decide

theorem IsLabelPrefix.chars {p : String} (h : IsLabelPrefix p) (hc : c ∈ p.toList) :
    isLabelChar c = true := by
  rw [isLabelChar_iff]
  rcases mem_or_mem_split '.' hc with rfl | ⟨label, hlabel, hmem⟩
  · exact .inr (.inr (.inr rfl))
  · rcases (h.labels label hlabel).2.1 c hmem with halnum | rfl
    · rw [isLowerAlnum_iff] at halnum
      exact .inl (by omega)
    · exact .inr (.inl rfl)

theorem IsLabelPrefix.nonempty {p : String} (h : IsLabelPrefix p) : p ≠ "" := by
  rintro rfl
  exact (h.labels "" (by decide)).1 rfl

theorem slash_notMem {s : String} (h : ∀ c ∈ s.toList, isLabelChar c = true) :
    '/' ∉ s.toList := fun hmem => absurd (h '/' hmem) (by decide)

theorem eq_notMem {s : String} (h : ∀ c ∈ s.toList, isLabelChar c = true) :
    '=' ∉ s.toList := fun hmem => absurd (h '=' hmem) (by decide)

theorem LabelKey.chars (k : LabelKey) (hc : c ∈ k.text.toList) : IsPairChar c := by
  unfold LabelKey.text at hc
  split at hc
  · exact .inl (k.validName.chars c hc)
  · case h_2 p hp =>
      rw [String.toList_append, String.toList_append, List.mem_append, List.mem_append] at hc
      rcases hc with (hc | hc) | hc
      · exact .inl ((k.validPrefix p hp).chars hc)
      · exact .inr (List.mem_singleton.mp hc)
      · exact .inl (k.validName.chars c hc)

theorem LabelKey.text_ne (k : LabelKey) : k.text ≠ "" := by
  unfold LabelKey.text
  split
  · exact k.validName.nonempty
  · intro h
    have hname : k.name = "" := (String.append_eq_empty_iff.mp h).2
    exact k.validName.nonempty hname

theorem Label.value_chars (l : Label) (hc : c ∈ l.value.toList) : IsPairChar c := by
  rcases l.validValue with h | h
  · rw [h] at hc
    cases hc
  · exact .inl (h.chars c hc)

theorem Label.text_chars (l : Label) (hc : c ∈ l.text.toList) :
    IsPairChar c ∨ c = '=' := by
  unfold Label.text at hc
  rw [String.toList_append, String.toList_append, List.mem_append, List.mem_append] at hc
  rcases hc with (hc | hc) | hc
  · exact .inl (l.key.chars hc)
  · exact .inr (List.mem_singleton.mp hc)
  · exact .inl (l.value_chars hc)

theorem Label.comma_notMem (l : Label) : ',' ∉ l.text.toList := by
  intro hmem
  rcases l.text_chars hmem with h | h
  · exact not_isPairChar.2 h
  · cases h

/-! ## Reading the pairs -/

/-- The entries the pairs are collected as. -/
def entries (labels : List Label) : List (String × String) :=
  labels.map fun l => (l.key.text, l.value)

/-- The map the pairs are collected in. -/
def collected (labels : List Label) : AMap String String := AMap.insertAll ∅ (entries labels)

theorem parsePairs_texts (labels : List Label) :
    parsePairs (labels.map Label.text) = .ok (collected labels) := by
  unfold parsePairs collected
  generalize (∅ : AMap String String) = kv
  induction labels generalizing kv with
  | nil => rfl
  | cons l labels ih =>
    have heq : '=' ∉ l.key.text.toList := fun hmem => not_isPairChar.1 (l.key.chars hmem)
    have hcut : cut '=' l.text = some (l.key.text, l.value) := cut_append heq
    have hblank : ¬ (l.key.text ++ l.value).toList.any (fun c => c == ' ' || c == '\t')
        = true := by
      rw [List.any_eq_true]
      rintro ⟨c, hc, hbad⟩
      rw [String.toList_append, List.mem_append] at hc
      have hspace : isSpace c = false :=
        hc.elim (fun hc => (l.key.chars hc).isSpace) fun hc => (l.value_chars hc).isSpace
      rw [Bool.or_eq_true, beq_iff_eq, beq_iff_eq] at hbad
      rcases hbad with rfl | rfl <;> cases hspace
    rw [List.map_cons, List.foldlM_cons, hcut]
    dsimp only
    rw [if_neg l.key.text_ne, if_neg hblank]
    exact ih (kv.insert l.key.text l.value)

theorem split_pairsText {labels : List Label} (hne : labels ≠ []) :
    split ',' (pairsText labels) = labels.map Label.text := by
  have hparts : ∀ part ∈ labels.map Label.text, ',' ∉ part.toList := by
    intro part hpart
    obtain ⟨l, -, rfl⟩ := List.mem_map.mp hpart
    exact l.comma_notMem
  exact split_intercalate hparts (by simpa using hne)

theorem pairsText_cons_cons (first l : Label) (rest : List Label) :
    pairsText (first :: l :: rest) = first.text ++ "," ++ pairsText (l :: rest) :=
  String.intercalate_cons_of_ne_nil (by simp)

theorem pairsText_cons (first : Label) (rest : List Label) :
    ∃ tail, pairsText (first :: rest) = first.key.text ++ "=" ++ tail := by
  cases rest with
  | nil => exact ⟨first.value, String.intercalate_singleton⟩
  | cons l rest =>
    rw [pairsText_cons_cons, Label.text]
    refine ⟨first.value ++ ("," ++ pairsText (l :: rest)), ?_⟩
    simp only [String.append_assoc]

theorem parseLabels_namespaced {n : String} {labels : List Label}
    (hchars : ∀ c ∈ n.toList, isLabelChar c = true) (hne : labels ≠ []) :
    parseLabels (n ++ "/" ++ pairsText labels)
      = (validateDNSLabel n).bind fun _ => .ok (.labels n (collected labels)) := by
  have hcut : cut '/' (n ++ "/" ++ pairsText labels) = some (n, pairsText labels) :=
    cut_append (slash_notMem hchars)
  unfold parseLabels
  rw [hcut]
  dsimp only
  rw [if_neg (eq_notMem hchars), split_pairsText hne, parsePairs_texts]
  rfl

/-- A first key without a slash has its `=` before every slash. -/
theorem parseLabels_bare {first : Label} (rest : List Label) (hpre : first.key.pre = none) :
    parseLabels (pairsText (first :: rest)) = .ok (.labels "" (collected (first :: rest))) := by
  have hpairs : parsePairs (split ',' (pairsText (first :: rest)))
      = .ok (collected (first :: rest)) := by
    rw [split_pairsText (by simp), parsePairs_texts]
  obtain ⟨tail, htail⟩ := pairsText_cons first rest
  have hslash : '/' ∉ first.key.text.toList := by
    rw [LabelKey.text, hpre]
    exact slash_notMem first.key.validName.chars
  unfold parseLabels
  cases hcut : cut '/' (pairsText (first :: rest)) with
  | none =>
    dsimp only
    rw [hpairs]
    rfl
  | some parts =>
    obtain ⟨before, after⟩ := parts
    rw [htail] at hcut
    have hmem : '=' ∈ before.toList := mem_of_cut_append (by decide) hslash hcut
    dsimp only
    rw [if_pos hmem, hpairs]
    rfl

/-- The label without the prefix of its key. -/
def Label.unqualified (l : Label) : Label :=
  { l with key := { l.key with pre := none, validPrefix := fun p h => absurd h (by simp) } }

theorem pairsText_qualified {first : Label} {p : String} (rest : List Label)
    (hpre : first.key.pre = some p) :
    pairsText (first :: rest) = p ++ "/" ++ pairsText (first.unqualified :: rest) := by
  have hkey : first.key.text = p ++ "/" ++ first.unqualified.key.text := by
    rw [LabelKey.text, hpre]
    rfl
  have htext : first.text = p ++ "/" ++ first.unqualified.text := by
    unfold Label.text
    rw [hkey]
    simp only [String.append_assoc]
    rfl
  cases rest with
  | nil =>
    show ",".intercalate [first.text] = p ++ "/" ++ ",".intercalate [first.unqualified.text]
    rw [String.intercalate_singleton, String.intercalate_singleton]
    exact htext
  | cons l rest =>
    rw [pairsText_cons_cons, pairsText_cons_cons, htext]
    simp only [String.append_assoc]

/-! ## The whole selector -/

section Meaning

variable {netip : Netip} {ns : Option NamespaceName} {first : Label} {rest labels : List Label}

theorem pairsText_ne (first : Label) (rest : List Label) : pairsText (first :: rest) ≠ "" := by
  obtain ⟨tail, htail⟩ := pairsText_cons first rest
  intro hempty
  have hmem : '=' ∈ (pairsText (first :: rest)).toList := by
    rw [htail]
    simp
  rw [hempty] at hmem
  cases hmem

theorem isSpace_of_mem_pairsText {c : Char} (h : c ∈ (pairsText (first :: rest)).toList) :
    isSpace c = false := by
  have hlabel : ∀ l : Label, c ∈ l.text.toList → isSpace c = false := by
    intro l hc
    rcases l.text_chars hc with hc | rfl
    · exact hc.isSpace
    · rfl
  induction rest generalizing first with
  | nil =>
    have htext : pairsText [first] = first.text := String.intercalate_singleton
    rw [htext] at h
    exact hlabel first h
  | cons l rest ih =>
    rw [pairsText_cons_cons, String.toList_append, String.toList_append, List.mem_append,
      List.mem_append] at h
    rcases h with (h | h) | h
    · exact hlabel first h
    · rw [show c = ',' from List.mem_singleton.mp h]
      rfl
    · exact ih h

/-- The text is the value of a `labels` selector as it stands. -/
theorem parse_labels {sel : Selector} :
    parse netip ("labels:" ++ labelsText ns (first :: rest)) .source = .ok sel
      ↔ parseLabels (labelsText ns (first :: rest)) = .ok sel := by
  have hne : labelsText ns (first :: rest) ≠ "" := by
    cases ns with
    | none => exact pairsText_ne first rest
    | some n => exact fun h => pairsText_ne first rest (String.append_eq_empty_iff.mp h).2
  have hspace : ∀ c ∈ (labelsText ns (first :: rest)).toList, isSpace c = false := by
    intro c hc
    cases ns with
    | none => exact isSpace_of_mem_pairsText hc
    | some n =>
      have hc : c ∈ (n.name ++ "/" ++ pairsText (first :: rest)).toList := hc
      rw [String.toList_append, String.toList_append, List.mem_append, List.mem_append] at hc
      rcases hc with (hc | hc) | hc
      · exact isSpace_of_hostChar ((n.valid.chars c hc).imp_right .inl)
      · rw [show c = '/' from List.mem_singleton.mp hc]
        rfl
      · exact isSpace_of_mem_pairsText hc
  exact parse_text_iff .labels rfl rfl hne (trimSpace_text hspace)

/-- What the compiled selector asks of a pod. -/
def Asks (n : String) (kv : AMap String String) (w : Workload) : Prop :=
  (n = "" ∨ n = w.namespace) ∧ ∀ k v, kv.lookup k = some v → w.labels.lookup k = some v

theorem labelsRight_iff_parse :
    LabelsRight netip ns (first :: rest)
      ↔ ∃ n kv, parseLabels (labelsText ns (first :: rest)) = .ok (.labels n kv)
        ∧ ∀ w : Workload, w.kind = .pod → (Asks n kv w ↔ HasLabels ns (first :: rest) w) := by
  have hmatch : ∀ {set n kv},
      compile netip ["labels:" ++ labelsText ns (first :: rest)] .source true = .ok set →
      parseLabels (labelsText ns (first :: rest)) = .ok (.labels n kv) →
      ∀ addr (w : Workload) externalAllowed, w.kind = .pod →
        (SelectorSet.matchSource set addr (some w) externalAllowed = true ↔ Asks n kv w) := by
    intro set n kv hset hparse addr w externalAllowed hpod
    rw [matchSource_compile hset]
    constructor
    · rintro (hnil | ⟨raw, hraw, sel, hsel, hmeets⟩)
      · cases hnil
      · rw [List.mem_singleton.mp hraw, parse_labels, hparse] at hsel
        obtain rfl := Except.ok.inj hsel
        obtain ⟨p, hp, -, hns, hkv⟩ := hmeets
        cases hp
        exact ⟨hns, hkv⟩
    · intro hasks
      exact .inr ⟨_, List.mem_singleton_self _, _, parse_labels.mpr hparse, w, rfl, hpod, hasks⟩
  constructor
  · rintro ⟨set, hset, hright⟩
    obtain ⟨sel, hsel, -⟩ := compile_isOk_iff.mp ⟨set, hset⟩ _ (List.mem_singleton_self _)
    rw [parse_labels] at hsel
    obtain ⟨n, kv, rfl⟩ := parseLabels_kind hsel
    refine ⟨n, kv, hsel, fun w hpod => ?_⟩
    rw [← hmatch hset hsel .zero w false hpod]
    exact hright .zero w false hpod
  · rintro ⟨n, kv, hparse, hright⟩
    obtain ⟨set, hset⟩ : ∃ set,
        compile netip ["labels:" ++ labelsText ns (first :: rest)] .source true = .ok set := by
      rw [compile_isOk_iff]
      intro raw hraw
      rw [List.mem_singleton.mp hraw]
      exact ⟨_, parse_labels.mpr hparse, fun _ => rfl⟩
    refine ⟨set, hset, fun addr w externalAllowed hpod => ?_⟩
    rw [hmatch hset hparse addr w externalAllowed hpod]
    exact hright w hpod

/-- No key is listed with two values. -/
def Agree (labels : List Label) : Prop :=
  ∀ l ∈ labels, ∀ l' ∈ labels, l.key.text = l'.key.text → l.value = l'.value

theorem lookup_collected_iff (h : Agree labels) (read : String → Option String) :
    (∀ k v, (collected labels).lookup k = some v → read k = some v)
      ↔ ∀ l ∈ labels, read l.key.text = some l.value := by
  constructor
  · intro hall l hl
    refine hall l.key.text l.value (AMap.lookup_insertAll_of_mem ?_ (List.mem_map_of_mem hl))
    intro v' hv'
    obtain ⟨l', hl', heq⟩ := List.mem_map.mp hv'
    obtain ⟨hkey, rfl⟩ := Prod.mk.inj heq
    exact h l' hl' l hl hkey
  · intro hall k v hlookup
    rcases AMap.mem_of_lookup_insertAll hlookup with hmem | hnone
    · obtain ⟨l, hl, heq⟩ := List.mem_map.mp hmem
      obtain ⟨rfl, rfl⟩ := Prod.mk.inj heq
      exact hall l hl
    · cases hnone

/-- A pod with these labels. -/
def podWith («namespace» : String) (labels : AMap String String) : Workload where
  ip := .zero
  kind := .pod
  «namespace» := «namespace»
  pod := ""
  podUID := ""
  serviceAccount := ""
  spiffeID := ""
  node := ""
  labels := labels.toFinmap
  services := []
  securityIdentity := 0

theorem asks_podWith (n : String) (kv : AMap String String) : Asks n kv (podWith n kv) :=
  ⟨.inr rfl, fun k _ h => (Finmap.lookup_toFinmap k kv).trans h⟩

/-- How a selector is read whose namespace is given or whose first key is not qualified. -/
theorem parse_of_unambiguous (h : ns.isSome = true ∨ first.key.pre = none) :
    parseLabels (labelsText ns (first :: rest))
      = .ok (.labels ((ns.map NamespaceName.name).getD "") (collected (first :: rest))) := by
  cases ns with
  | none => exact parseLabels_bare rest (h.resolve_left (by simp))
  | some n =>
    have hchars : ∀ c ∈ n.name.toList, isLabelChar c = true := by
      intro c hc
      rw [isLabelChar_iff]
      rcases n.valid.chars c hc with halnum | rfl
      · rw [isLowerAlnum_iff] at halnum
        exact .inl (by omega)
      · exact .inr (.inl rfl)
    show parseLabels (n.name ++ "/" ++ pairsText (first :: rest)) = _
    rw [parseLabels_namespaced hchars (by simp), validateDNSLabel_eq_ok_iff.mpr n.valid]
    rfl

/-- Without a namespace the prefix of the first key is read as one. -/
theorem parse_of_qualified {p n : String} {kv : AMap String String}
    (hpre : first.key.pre = some p)
    (h : parseLabels (labelsText none (first :: rest)) = .ok (.labels n kv)) : n = p := by
  have hchars : ∀ c ∈ p.toList, isLabelChar c = true :=
    fun c hc => (first.key.validPrefix p hpre).chars hc
  rw [labelsText, pairsText_qualified rest hpre, parseLabels_namespaced hchars (by simp)] at h
  obtain ⟨u, -, h⟩ := of_bind_eq_ok h
  exact (Selector.labels.inj (Except.ok.inj h)).1.symm

/-- The selector is accepted and means what it lists exactly if it gives a namespace or its
first key has no prefix, and it lists no key with two values. -/
theorem labels_right_iff (netip : Netip) (ns : Option NamespaceName) (first : Label)
    (rest : List Label) :
    LabelsRight netip ns (first :: rest)
      ↔ (ns.isSome = true ∨ first.key.pre = none) ∧ Agree (first :: rest) := by
  rw [labelsRight_iff_parse]
  constructor
  · rintro ⟨n, kv, hparse, hright⟩
    have hagree : Agree (first :: rest) := by
      -- some pod is matched, and its labels have one value each
      have hhas := ((hright (podWith n kv) rfl).mp (asks_podWith n kv)).2
      intro l hl l' hl' hkey
      have hl := hhas l hl
      rw [hkey, hhas l' hl'] at hl
      exact (Option.some.inj hl).symm
    refine ⟨?_, hagree⟩
    by_contra hambiguous
    rw [not_or, Bool.not_eq_true, Option.isSome_eq_false_iff, Option.isNone_iff_eq_none]
      at hambiguous
    obtain ⟨rfl, hpre⟩ := hambiguous
    obtain ⟨p, hpre⟩ := Option.ne_none_iff_exists'.mp hpre
    obtain rfl := parse_of_qualified hpre hparse
    -- a pod outside the namespace that the prefix was taken for has the labels too
    have hhas : HasLabels none (first :: rest) (podWith "" (collected (first :: rest))) := by
      refine ⟨fun n hn => absurd hn (by simp), ?_⟩
      have hread : ∀ k v, (collected (first :: rest)).lookup k = some v →
          (podWith "" (collected (first :: rest))).labels.lookup k = some v :=
        fun k _ hlookup => (Finmap.lookup_toFinmap k _).trans hlookup
      exact (lookup_collected_iff hagree _).mp hread
    have hempty := ((hright (podWith "" (collected (first :: rest))) rfl).mpr hhas).1
    exact (first.key.validPrefix n hpre).nonempty (hempty.elim id id)
  · rintro ⟨hunambiguous, hagree⟩
    refine ⟨_, _, parse_of_unambiguous hunambiguous, fun w hpod => ?_⟩
    unfold Asks HasLabels
    rw [lookup_collected_iff hagree fun k => w.labels.lookup k]
    refine and_congr_left fun _ => ?_
    cases ns with
    | none => simp
    | some n =>
      have hne : n.name ≠ "" := n.valid.nonempty
      simp only [Option.map_some, Option.getD_some, Option.some.injEq, forall_eq']
      exact ⟨fun h => (h.resolve_left hne).symm, fun h => .inr h.symm⟩

theorem isLabelName_app : IsLabelName "app" :=
  ⟨by decide, by decide, List.all_eq_true.mp (by decide), by decide, by decide⟩

theorem isLabelName_web : IsLabelName "web" :=
  ⟨by decide, by decide, List.all_eq_true.mp (by decide), by decide, by decide⟩

theorem isLabelName_name : IsLabelName "name" :=
  ⟨by decide, by decide, List.all_eq_true.mp (by decide), by decide, by decide⟩

theorem isLabelPrefix_kubernetes : IsLabelPrefix "app.kubernetes.io" := by
  have hlabels : (split '.' "app.kubernetes.io").forM validateDNSLabel = .ok () := rfl
  refine ⟨by decide, fun l hl => ?_⟩
  have hlabel := validateDNSLabel_eq_ok_iff.mp (forM_eq_ok_iff.mp hlabels l hl)
  exact ⟨hlabel.nonempty, hlabel.chars, hlabel.first, hlabel.last⟩

/-- A label `app`. -/
def appLabel (value : String) (h : IsLabelName value) : Label where
  key := ⟨none, "app", fun _ hp => absurd hp (by simp), isLabelName_app⟩
  value := value
  validValue := .inr h

/-- The recommended label `app.kubernetes.io/name`. -/
def nameLabel : Label where
  key := ⟨some "app.kubernetes.io", "name",
    fun _ hp => Option.some.inj hp ▸ isLabelPrefix_kubernetes, isLabelName_name⟩
  value := "web"
  validValue := .inr isLabelName_web

/-- A selector of a recommended label alone is refused, and one that lists a key with two
values matches pods that have the last of them. -/
theorem qualified_and_repeated_keys :
    compile noNetip ["labels:app.kubernetes.io/name=web"] .source true
        = .error ("selector \"labels:app.kubernetes.io/name=web\": \"app.kubernetes.io\" is " ++
          "not a valid Kubernetes name (lower-case letters, digits and '-')")
      ∧ ¬ LabelsRight noNetip none [nameLabel]
      ∧ (∃ set, compile noNetip ["labels:app=app,app=web"] .source true = .ok set
        ∧ SelectorSet.matchSource set .zero (some (podWith "shop" (AList.singleton "app" "web")))
          false = true)
      ∧ ¬ LabelsRight noNetip none
          [appLabel "app" isLabelName_app, appLabel "web" isLabelName_web] := by
  have hrefused : compile noNetip ["labels:app.kubernetes.io/name=web"] .source true
      = .error ("selector \"labels:app.kubernetes.io/name=web\": \"app.kubernetes.io\" is " ++
        "not a valid Kubernetes name (lower-case letters, digits and '-')") := rfl
  refine ⟨hrefused, ?_, ⟨_, rfl, by decide +kernel⟩, ?_⟩
  · rintro ⟨set, hset, -⟩
    exact absurd (hrefused.symm.trans hset) (by simp)
  · intro h
    obtain ⟨n, kv, -, hright⟩ := labelsRight_iff_parse.mp h
    have hhas := ((hright (podWith n kv) rfl).mp (asks_podWith n kv)).2
    have hfirst : (podWith n kv).labels.lookup "app" = some "app" := hhas _ List.mem_cons_self
    have hsecond : (podWith n kv).labels.lookup "app" = some "web" :=
      hhas _ (List.mem_cons_of_mem _ List.mem_cons_self)
    rw [hfirst] at hsecond
    exact absurd hsecond (by decide)

end Meaning

end Hypergate.Routing
