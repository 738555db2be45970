import Hypergate.Lib.Regex
import Hypergate.Routing.SelectorText

/-!
# The schema patterns of selectors (`api/v1alpha1/hyperroute_types.go`)

The custom resource admits a source or a destination only if it matches a pattern, with one
alternative for each kind. The engine's parser does the full validation; the pattern must
not refuse what the parser understands.

* `kindPattern` — the alternative of a kind; `selectorPattern` — the pattern of a side.
* `ReadsAs.mem_kindPattern` — the canonical form of a value matches the alternative of its
  kind.
-/

namespace Hypergate.Routing

open Lib Lib.Regex Identity

/-! ## The patterns -/

/-- `[a-z0-9]`. -/
def alnumPattern : Regex := .cls false [('a', 'z'), ('0', '9')]

/-- `[a-z0-9]([...]*[a-z0-9])?`. -/
def edgedPattern (inner : List (Char × Char)) : Regex :=
  .seq alnumPattern (opt (.group (.seq (star (.cls false inner)) alnumPattern)))

def labelPattern : Regex := edgedPattern [('-', '-'), ('a', 'z'), ('0', '9')]

def namePattern : Regex := edgedPattern [('-', '-'), ('a', 'z'), ('0', '9'), ('.', '.')]

def addrPattern : Regex :=
  plus (.cls false [('0', '9'), ('A', 'F'), ('a', 'f'), ('.', '.'), (':', ':')])

/-- `[^/]+`. -/
def segmentPattern : Regex := plus (.cls true [('/', '/')])

/-- The alternative of each kind. -/
def kindPattern : Kind → Regex
  | .any => .lit "any".toList
  | .external => .lit "external".toList
  | .ip => seqs [.lit "ip:".toList, addrPattern]
  | .cidr =>
    seqs [.lit "cidr:".toList, addrPattern, .lit ['/'], .rep (.cls false [('0', '9')]) 1 (some 3)]
  | .host =>
    seqs [.lit "host:".toList, opt (.group (.lit "*.".toList)),
      plus (.cls false [('A', 'Z'), ('a', 'z'), ('0', '9'), ('_', '_'), ('.', '.'), ('-', '-')])]
  | .service => seqs [.lit "service:".toList, labelPattern, .lit ['/'], labelPattern]
  | .namespace => seqs [.lit "namespace:".toList, labelPattern]
  | .sa => seqs [.lit "sa:".toList, labelPattern, .lit ['/'], namePattern]
  | .spiffe =>
    seqs [.lit "spiffe://".toList, segmentPattern, .lit "/ns/".toList, segmentPattern,
      .lit "/sa/".toList, segmentPattern]
  | .labels =>
    seqs [.lit "labels:".toList, plus (.cls true [(' ', ' ')]), .lit ['='],
      star (.cls true [(' ', ' ')])]

-- each alternative is written as in the source
example : [Kind.any, .external, .ip, .cidr, .host, .service, .namespace, .sa, .spiffe, .labels].map
      (fun kind => String.ofList (kindPattern kind).text)
    = ["any", "external", "ip:[0-9A-Fa-f.:]+", "cidr:[0-9A-Fa-f.:]+/[0-9]\x7b1,3\x7d",
      "host:(\\*\\.)?[A-Za-z0-9_.-]+",
      "service:[a-z0-9]([-a-z0-9]*[a-z0-9])?/[a-z0-9]([-a-z0-9]*[a-z0-9])?",
      "namespace:[a-z0-9]([-a-z0-9]*[a-z0-9])?",
      "sa:[a-z0-9]([-a-z0-9]*[a-z0-9])?/[a-z0-9]([-a-z0-9.]*[a-z0-9])?",
      "spiffe://[^/]+/ns/[^/]+/sa/[^/]+", "labels:[^ ]+=[^ ]*"] := by decide +kernel

/-- `SourceSelectorPattern`, between its anchors. -/
def sourceSelectorPattern : Regex :=
  .group (alts (kindPattern .any) ([Kind.external, .ip, .cidr, .service, .namespace, .sa, .spiffe,
    .labels].map kindPattern))

/-- `DestinationSelectorPattern`, between its anchors. -/
def destinationSelectorPattern : Regex :=
  .group (alts (kindPattern .any)
    ([Kind.ip, .cidr, .host, .service, .namespace].map kindPattern))

/-- The pattern of a side. -/
def selectorPattern : Side → Regex
  | .source => sourceSelectorPattern
  | .destination => destinationSelectorPattern

variable {w : List Char}

theorem mem_selectorPattern {kind : Kind} {side : Side} (hallowed : kind.allowed side = true)
    (h : w ∈ (kindPattern kind).lang) : w ∈ (selectorPattern side).lang := by
  cases side with
  | source =>
    refine mem_alts.mpr ⟨kindPattern kind, ?_, h⟩
    rw [← List.map_cons]
    refine List.mem_map_of_mem ?_
    revert hallowed
    cases kind <;> decide
  | destination =>
    refine mem_alts.mpr ⟨kindPattern kind, ?_, h⟩
    rw [← List.map_cons]
    refine List.mem_map_of_mem ?_
    revert hallowed
    cases kind <;> decide

/-! ## Classes -/

variable {ranges : List (Char × Char)} {c : Char}

theorem inClass_iff :
    inClass false ranges c = true
      ↔ ∃ range ∈ ranges, range.1.toNat ≤ c.toNat ∧ c.toNat ≤ range.2.toNat := by
  unfold inClass
  rw [Bool.false_bne, List.any_eq_true]
  simp only [Bool.and_eq_true, decide_eq_true_eq, Char.le_def, UInt32.le_iff_toNat_le]
  rfl

theorem inClass_alnum (h : isLowerAlnum c = true) (hletters : ('a', 'z') ∈ ranges)
    (hdigits : ('0', '9') ∈ ranges) :
    inClass false ranges c = true := by
  rw [inClass_iff]
  rcases isLowerAlnum_iff.mp h with hrange | hrange
  · exact ⟨_, hletters, hrange⟩
  · exact ⟨_, hdigits, hrange⟩

theorem inClass_single (h : (c, c) ∈ ranges) :
    inClass false ranges c = true :=
  inClass_iff.mpr ⟨_, h, Nat.le_refl _, Nat.le_refl _⟩

theorem inClass_except {c d : Char} (h : c ≠ d) : inClass true [(d, d)] c = true := by
  have hrange : ¬ (d.toNat ≤ c.toNat ∧ c.toNat ≤ d.toNat) := by
    rintro ⟨hle, hge⟩
    exact h (Char.toNat_inj.mp (Nat.le_antisymm hge hle))
  have hnot : ¬ inClass false [(d, d)] c = true := by
    rw [inClass_iff]
    rintro ⟨range, hmem, hin⟩
    rw [List.mem_singleton.mp hmem] at hin
    exact hrange hin
  rw [inClass, Bool.false_bne, Bool.not_eq_true] at hnot
  rw [inClass, hnot]
  rfl

theorem toList_ne_nil {s : String} (h : s ≠ "") : s.toList ≠ [] :=
  fun hnil => h (String.toList_eq_nil_iff.mp hnil)

theorem mem_addrPattern (hne : w ≠ []) (h : ∀ c ∈ w, isAddrChar c = true) :
    w ∈ addrPattern.lang := by
  refine mem_plus_cls (fun c hc => ?_) hne
  have hchar := h c hc
  unfold isAddrChar Char.isDigit at hchar
  simp only [Bool.or_eq_true, Bool.and_eq_true, decide_eq_true_eq, beq_iff_eq, Char.le_def,
    UInt32.le_iff_toNat_le] at hchar
  rcases hchar with ((hrange | hrange) | rfl) | rfl
  · exact inClass_iff.mpr ⟨('0', '9'), by decide, hrange⟩
  · exact inClass_iff.mpr ⟨('a', 'f'), by decide, hrange⟩
  · exact inClass_single (by decide)
  · exact inClass_single (by decide)

theorem mem_segmentPattern (hne : w ≠ []) (h : '/' ∉ w) :
    w ∈ segmentPattern.lang :=
  mem_plus_cls (fun c hc => inClass_except fun heq : c = '/' => h (heq ▸ hc)) hne

/-! ## Names -/

/-- The word starts and ends with a letter or digit. -/
structure Edged (w : List Char) : Prop where
  nonempty : w ≠ []
  first : ∀ c, w.head? = some c → isLowerAlnum c = true
  last : ∀ c, w.getLast? = some c → isLowerAlnum c = true

theorem Edged.join {u v : List Char} (hu : Edged u) (hv : Edged v) (sep : Char) :
    Edged (u ++ sep :: v) where
  nonempty := by simp
  first c hc := by
    rw [List.head?_append_of_ne_nil _ hu.nonempty] at hc
    exact hu.first c hc
  last c hc := by
    rw [List.getLast?_append_of_ne_nil _ (by simp), List.getLast?_cons_of_ne_nil hv.nonempty] at hc
    exact hv.last c hc

theorem mem_alnumPattern (h : isLowerAlnum c = true) : [c] ∈ alnumPattern.lang :=
  ⟨c, inClass_alnum h (by decide) (by decide), rfl⟩

theorem mem_edgedPattern {inner : List (Char × Char)} (hw : Edged w)
    (h : ∀ c ∈ w, inClass false inner c = true) : w ∈ (edgedPattern inner).lang := by
  obtain ⟨c, t, rfl⟩ := List.exists_cons_of_ne_nil hw.nonempty
  have hc := mem_alnumPattern (hw.first c rfl)
  rcases List.eq_nil_or_concat t with rfl | ⟨mid, d, rfl⟩
  · exact append_mem_seq hc nil_mem_opt
  · rw [List.concat_eq_append] at hw h ⊢
    have hlast : (c :: (mid ++ [d])).getLast? = some d := by
      rw [← List.cons_append, List.getLast?_concat]
    have hd := mem_alnumPattern (hw.last d hlast)
    have hmid : ∀ x ∈ mid, inClass false inner x = true := fun x hx => h x (by simp [hx])
    exact append_mem_seq hc (mem_opt (append_mem_seq (mem_star_cls hmid) hd))

theorem IsDNSLabel.edged {v : String} (h : IsDNSLabel v) : Edged v.toList where
  nonempty hnil := h.nonempty (String.toList_eq_nil_iff.mp hnil)
  first c hc := by
    rcases h.chars c (List.mem_of_head? hc) with halnum | rfl
    · exact halnum
    · exact absurd hc h.first
  last c hc := by
    rcases h.chars c (List.mem_of_getLast? hc) with halnum | rfl
    · exact halnum
    · exact absurd hc h.last

theorem IsDNSLabel.mem_labelPattern {v : String} (h : IsDNSLabel v) :
    v.toList ∈ labelPattern.lang := by
  refine mem_edgedPattern h.edged fun c hc => ?_
  rcases h.chars c hc with halnum | rfl
  · exact inClass_alnum halnum (by decide) (by decide)
  · exact inClass_single (by decide)

/-- The labels of a name have letters or digits at their ends, so the name has. -/
theorem IsDNSSubdomain.edged {v : String} (h : IsDNSSubdomain v) : Edged v.toList := by
  have hall : ∀ (l : String) (ls : List String), (∀ label ∈ l :: ls, IsDNSLabel label) →
      Edged ((String.singleton '.').intercalate (l :: ls)).toList := by
    intro l ls
    induction ls generalizing l with
    | nil =>
      intro hlabels
      rw [String.intercalate_singleton]
      exact (hlabels l List.mem_cons_self).edged
    | cons l' ls ih =>
      intro hlabels
      rw [String.intercalate_cons_of_ne_nil (by simp), String.toList_append,
        String.toList_append, String.toList_singleton, List.append_assoc]
      exact (hlabels l List.mem_cons_self).edged.join
        (ih l' fun label hlabel => hlabels label (List.mem_cons_of_mem _ hlabel)) '.'
  obtain ⟨l, ls, hsplit⟩ := List.exists_cons_of_ne_nil (split_ne_nil '.' v)
  rw [← intercalate_split '.' v, hsplit]
  exact hall l ls (hsplit ▸ h.labels)

theorem IsDNSSubdomain.chars {v : String} (h : IsDNSSubdomain v) (hc : c ∈ v.toList) :
    isLowerAlnum c = true ∨ c = '-' ∨ c = '.' := by
  rcases mem_or_mem_split '.' hc with rfl | ⟨label, hlabel, hmem⟩
  · exact .inr (.inr rfl)
  · exact ((h.labels label hlabel).chars c hmem).imp_right .inl

theorem IsDNSSubdomain.mem_namePattern {v : String} (h : IsDNSSubdomain v) :
    v.toList ∈ namePattern.lang := by
  refine mem_edgedPattern h.edged fun c hc => ?_
  rcases h.chars hc with halnum | rfl | rfl
  · exact inClass_alnum halnum (by decide) (by decide)
  · exact inClass_single (by decide)
  · exact inClass_single (by decide)

/-! ## Labels -/

/-- A pair that is accepted has a key before its `=` and no blank. -/
theorem parsePairs_eq_ok {pairs : List String} {kv : AMap String String}
    (h : parsePairs pairs = .ok kv) : ∀ pair ∈ pairs, ∃ k val, pair = k ++ "=" ++ val ∧ k ≠ ""
      ∧ ' ' ∉ pair.toList := by
  unfold parsePairs at h
  generalize (∅ : AMap String String) = m at h
  induction pairs generalizing m with
  | nil => exact fun pair hpair => absurd hpair (by simp)
  | cons pair pairs ih =>
    rw [List.foldlM_cons] at h
    obtain ⟨m', hpair, hrest⟩ := of_bind_eq_ok h
    intro pair' hmem
    rcases List.mem_cons.mp hmem with rfl | hmem
    · cases hcut : cut '=' pair' with
      | none =>
        rw [hcut] at hpair
        cases hpair
      | some e =>
        obtain ⟨k, val⟩ := e
        rw [hcut] at hpair
        dsimp only at hpair
        rw [guard_eq_ok_iff, guard_eq_ok_iff, List.any_eq_true] at hpair
        obtain ⟨hk, hblank, -⟩ := hpair
        have htext := (cut_eq_some_iff.mp hcut).1
        refine ⟨k, val, htext, hk, fun hspace => hblank ⟨' ', ?_, by decide⟩⟩
        rw [htext] at hspace
        simpa using hspace
    · exact ih m' hrest pair' hmem

/-- The pairs of a selector begin with a key, and no blank stands among them. -/
theorem parsePairs_split {v : String} {kv : AMap String String}
    (h : parsePairs (split ',' v) = .ok kv) :
    ∃ k rest, v = k ++ "=" ++ rest ∧ k ≠ "" ∧ ' ' ∉ v.toList := by
  have hpairs := parsePairs_eq_ok h
  have hspace : ' ' ∉ v.toList := by
    intro hmem
    rcases mem_or_mem_split ',' hmem with hcomma | ⟨pair, hpair, hmem⟩
    · cases hcomma
    · obtain ⟨-, -, -, -, hblank⟩ := hpairs pair hpair
      exact hblank hmem
  obtain ⟨pair, pairs, hsplit⟩ := List.exists_cons_of_ne_nil (split_ne_nil ',' v)
  obtain ⟨k, val, hpair, hk, -⟩ := hpairs pair (hsplit ▸ List.mem_cons_self)
  have hjoin := intercalate_split ',' v
  rw [hsplit, hpair] at hjoin
  cases pairs with
  | nil =>
    rw [String.intercalate_singleton] at hjoin
    exact ⟨k, val, hjoin.symm, hk, hspace⟩
  | cons next pairs =>
    rw [String.intercalate_cons_of_ne_nil (by simp)] at hjoin
    refine ⟨k,
      val ++ (String.singleton ',' ++ (String.singleton ',').intercalate (next :: pairs)),
      ?_, hk, hspace⟩
    rw [← hjoin]
    simp only [String.append_assoc]

theorem parseLabels_shape {v : String} {sel : Selector} (h : parseLabels v = .ok sel) :
    ∃ k rest, v = k ++ "=" ++ rest ∧ k ≠ "" ∧ ' ' ∉ v.toList := by
  unfold parseLabels at h
  split at h
  · case h_1 before rest hcut =>
      split at h
      · obtain ⟨kv, hkv, -⟩ := of_map_eq_ok h
        exact parsePairs_split hkv
      · obtain ⟨u, hns, h⟩ := of_bind_eq_ok h
        obtain ⟨kv, hkv, -⟩ := of_map_eq_ok h
        obtain ⟨k, tail, hrest, hk, hspace⟩ := parsePairs_split hkv
        have htext := (cut_eq_some_iff.mp hcut).1
        refine ⟨before ++ String.singleton '/' ++ k, tail, ?_, ?_, ?_⟩
        · rw [htext, hrest]
          simp only [String.append_assoc]
        · exact fun hempty => hk (String.append_eq_empty_iff.mp hempty).2
        · rw [htext]
          have hbefore : ' ' ∉ before.toList :=
            (validateDNSLabel_eq_ok_iff.mp hns).notMem (by decide) (by decide)
          simp [hbefore, hspace]
  · obtain ⟨kv, hkv, -⟩ := of_map_eq_ok h
    exact parsePairs_split hkv

/-! ## The canonical form -/

variable {netip : Netip} {raw v : String} {side : Side} {kind : Kind} {sel : Selector} {p : Parsed}

theorem repr_bits (pre : Prefix) : 1 ≤ pre.bits.repr.toList.length
    ∧ pre.bits.repr.toList.length ≤ 3 := by
  have hbits : pre.bits < 129 := by
    have hrange := pre.inRange
    have hlen : pre.addr.bitLen ≤ 128 := by
      cases pre.addr with
      | zero => exact Nat.zero_le _
      | v4 bits => exact Nat.le_of_ble_eq_true rfl
      | v6 bits zone => exact Nat.le_refl _
    omega
  have hall : ∀ n < 129, 1 ≤ (Nat.repr n).toList.length ∧ (Nat.repr n).toList.length ≤ 3 := by
    decide +kernel
  exact hall pre.bits hbits

theorem inClass_digit {n : Nat} (h : c ∈ n.repr.toList) :
    inClass false [('0', '9')] c = true := by
  rw [Nat.toList_repr] at h
  have hdigit := Nat.isDigit_of_mem_toDigits (by omega) (by omega) h
  rw [Char.isDigit, Bool.and_eq_true, decide_eq_true_eq, decide_eq_true_eq] at hdigit
  exact inClass_iff.mpr ⟨('0', '9'), List.mem_singleton_self _, hdigit⟩

/-- The canonical form of a value matches the alternative of its kind. -/
theorem ReadsAs.mem_kindPattern (hnet : netip.Sound) (h : ReadsAs netip kind v sel)
    (hneeds : kind.info.needsValue = true) :
    (kind.info.name ++ ":" ++ sel.valueFrom v).toList ∈ (kindPattern kind).lang := by
  cases h with
  | any => cases hneeds
  | external => cases hneeds
  | ip haddr hzone =>
    rename_i a
    obtain ⟨hne, hchars⟩ := hnet.addr_chars haddr hzone
    refine mem_seqs ["ip:".toList, (addrString a.unmap).toList] ?_
      (.cons rfl (.cons (mem_addrPattern (toList_ne_nil hne) hchars) .nil))
    simp [Selector.valueFrom, Kind.info]
  | cidr hpre hmasked hcanonical =>
    rename_i p p'
    obtain ⟨hne, hchars⟩ := hnet.prefix_chars hpre hmasked hcanonical
    obtain ⟨hlow, hhigh⟩ := repr_bits p'
    have hbits : p'.bits.repr.toList ∈ (Regex.rep (.cls false [('0', '9')]) 1 (some 3)).lang :=
      mem_rep_cls (fun c hc => inClass_digit hc) hlow fun m hm => Option.some.inj hm ▸ hhigh
    refine mem_seqs ["cidr:".toList, (addrString p'.addr).toList, ['/'], p'.bits.repr.toList] ?_
      (.cons rfl (.cons (mem_addrPattern (toList_ne_nil hne) hchars)
        (.cons rfl (.cons hbits .nil))))
    simp [Selector.valueFrom, Prefix.string, Kind.info]
  | host hname htext =>
    rename_i name wildcard
    have hchars : ∀ c ∈ name.toList, inClass false
        [('A', 'Z'), ('a', 'z'), ('0', '9'), ('_', '_'), ('.', '.'), ('-', '-')] c = true := by
      intro c hc
      rcases hname.chars hc with halnum | rfl | rfl | rfl
      · exact inClass_alnum halnum (by decide) (by decide)
      all_goals exact inClass_single (by decide)
    have hbody := mem_plus_cls hchars (toList_ne_nil hname.nonempty)
    rw [valueFrom_host]
    cases wildcard with
    | true =>
      refine mem_seqs ["host:".toList, "*.".toList, name.toList] ?_
        (.cons rfl (.cons (mem_opt rfl) (.cons hbody .nil)))
      simp [Kind.info]
    | false =>
      refine mem_seqs ["host:".toList, [], name.toList] ?_
        (.cons rfl (.cons nil_mem_opt (.cons hbody .nil)))
      simp [Kind.info]
  | service h =>
    obtain ⟨ns, name, rfl, hns, hname⟩ := validateNamespacedName_eq_ok_iff.mp h
    refine mem_seqs ["service:".toList, ns.toList, ['/'], name.toList] ?_
      (.cons rfl (.cons hns.mem_labelPattern (.cons rfl
        (.cons (validateDNSLabel_eq_ok_iff.mp hname).mem_labelPattern .nil))))
    simp [Selector.valueFrom, Kind.info]
  | «namespace» h =>
    refine mem_seqs ["namespace:".toList, v.toList] ?_
      (.cons rfl (.cons (validateDNSLabel_eq_ok_iff.mp h).mem_labelPattern .nil))
    simp [Selector.valueFrom, Kind.info]
  | sa h =>
    obtain ⟨ns, name, rfl, hns, hname⟩ := validateNamespacedName_eq_ok_iff.mp h
    refine mem_seqs ["sa:".toList, ns.toList, ['/'], name.toList] ?_
      (.cons rfl (.cons hns.mem_labelPattern (.cons rfl
        (.cons (validateDNSSubdomain_eq_ok_iff.mp hname).mem_namePattern .nil))))
    simp [Selector.valueFrom, Kind.info]
  | spiffe h =>
    obtain ⟨domain, ns, account, rfl, hdomain, hslash, hns, haccount⟩ := validateSPIFFE_eq_ok h
    have hns' : '/' ∉ ns.toList := hns.notMem (by decide) (by decide)
    have haccount' : '/' ∉ account.toList := by
      intro hmem
      exact absurd (haccount.chars hmem) (by decide)
    refine mem_seqs ["spiffe://".toList, domain.toList, "/ns/".toList, ns.toList, "/sa/".toList,
      account.toList] ?_ (.cons rfl (.cons (mem_segmentPattern (toList_ne_nil hdomain) hslash)
        (.cons rfl (.cons (mem_segmentPattern (toList_ne_nil hns.nonempty) hns')
          (.cons rfl (.cons (mem_segmentPattern (toList_ne_nil haccount.nonempty) haccount')
            .nil))))))
    simp [Selector.valueFrom, Kind.info]
  | labels h =>
    obtain ⟨k, rest, rfl, hk, hspace⟩ := parseLabels_shape h
    have hblank : ∀ c ∈ (k ++ "=" ++ rest).toList, inClass true [(' ', ' ')] c = true :=
      fun c hc => inClass_except fun heq : c = ' ' => hspace (heq ▸ hc)
    refine mem_seqs ["labels:".toList, k.toList, ['='], rest.toList] ?_
      (.cons rfl (.cons (mem_plus_cls (fun c hc => hblank c (by simp [hc])) (toList_ne_nil hk))
        (.cons rfl (.cons (mem_star_cls fun c hc => hblank c (by simp [hc])) .nil))))
    simp [Selector.valueFrom, Kind.info]

/-- The canonical form of a selector that `Parse` accepts on a side matches the pattern of that
side. -/
theorem canonical_matches_pattern (hnet : netip.Sound)
    (h : parseSelector netip raw side = .ok p) :
    (selectorPattern side).accepts p.string.toList = true := by
  rw [accepts_iff]
  obtain ⟨kind, hallowed, ⟨hneeds, hstring, -, -⟩ | ⟨hneeds, v, -, -, hstring, hread, -⟩⟩ :=
    string_of_parseSelector hnet h
  · refine mem_selectorPattern hallowed ?_
    rw [hstring]
    cases kind with
    | any => exact rfl
    | external => exact rfl
    | _ => exact absurd hneeds (by decide)
  · refine mem_selectorPattern hallowed ?_
    rw [hstring]
    exact hread.mem_kindPattern hnet hneeds

theorem canonical_matches_pattern_mapped :
    parseSelector twoSpellings " ip:::ffff:a00:1" .destination
        = .ok ⟨.ip (.v4 0x0a000001#32), "10.0.0.1"⟩
      ∧ destinationSelectorPattern.accepts "ip:10.0.0.1".toList = true := by
  have h : parseSelector twoSpellings " ip:::ffff:a00:1" .destination
      = .ok ⟨.ip (.v4 0x0a000001#32), "10.0.0.1"⟩ := rfl
  have hmatches := canonical_matches_pattern twoSpellings_readsBack.toSound h
  exact ⟨h, hmatches⟩

end Hypergate.Routing
