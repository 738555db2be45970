import Hypergate.Identity.AddrText
import Hypergate.Routing.Names

/-!
# The canonical form of a selector (`internal/selector/selector.go`)

`Parse` keeps, beside the compiled parts, a normalized `Value`, and `String` writes kind
and value again. Each kind normalizes in its own way: an address is unmapped, a prefix
re-based, a host lower-cased and freed of a trailing point; the other values stay as they
are written.

* `parse_eq_ok_iff` — what `Parse` accepts: a kind alone, or a kind and its value.
-/

namespace Hypergate.Routing

open Lib Identity

/-! ## What `Parse` accepts -/

theorem kindByName_eq_some_iff {name : String} {kind : Kind} :
    kindByName name = some kind ↔ kind.info.name = name := by
  constructor
  · intro h
    unfold kindByName at h
    have hfound := List.find?_some h
    exact of_decide_eq_true hfound
  · rintro rfl
    cases kind <;> rfl

theorem colon_notMem_name (kind : Kind) : ':' ∉ kind.info.name.toList := by
  cases kind <;> decide

variable {netip : Netip} {raw v : String} {side : Side} {kind : Kind} {sel : Selector}

theorem parse_eq_ok_iff :
    parse netip raw side = .ok sel ↔ ∃ kind : Kind, kind.allowed side = true
      ∧ (kind.info.needsValue = false ∧ trimSpace raw = kind.info.name
          ∧ parseValue netip "" kind = .ok sel
        ∨ kind.info.needsValue = true ∧ ∃ v, v ≠ "" ∧ trimSpace raw = kind.info.name ++ ":" ++ v
          ∧ parseValue netip v kind = .ok sel) := by
  unfold parse
  generalize trimSpace raw = text
  dsimp only
  constructor
  · intro h
    split at h
    · cases h
    · case h_2 kind hkind =>
        rw [kindByName_eq_some_iff] at hkind
        split at h
        · cases h
        · case isFalse hallowed =>
            refine ⟨kind, by simpa using hallowed, ?_⟩
            split at h
            · case isTrue hneeds =>
                rw [guard_eq_ok_iff] at h
                obtain ⟨hcut, h⟩ := h
                rw [Option.not_isSome_iff_eq_none] at hcut
                rw [hcut] at hkind h
                exact .inl ⟨by simpa using hneeds, hkind.symm, h⟩
            · case isFalse hneeds =>
                rw [guard_eq_ok_iff, mapError_eq_ok] at h
                refine .inr ⟨by simpa using hneeds, ?_⟩
                cases hcut : cut ':' text with
                | none =>
                  rw [hcut] at h
                  exact absurd rfl h.1
                | some e =>
                  rw [hcut] at h hkind
                  refine ⟨e.2, h.1, ?_, h.2⟩
                  rw [hkind]
                  exact (cut_eq_some_iff.mp hcut).1
  · rintro ⟨kind, hallowed, ⟨hneeds, rfl, hvalue⟩ | ⟨hneeds, v, hv, rfl, hvalue⟩⟩
    · have hcut : cut ':' kind.info.name = none := cut_eq_none_iff.mpr (colon_notMem_name kind)
      rw [hcut]
      have hkind : kindByName kind.info.name = some kind := kindByName_eq_some_iff.mpr rfl
      simp only [Option.map_none, Option.getD_none, hkind, hallowed, hneeds]
      simpa using hvalue
    · have hcut : cut ':' (kind.info.name ++ ":" ++ v) = some (kind.info.name, v) :=
        cut_append (colon_notMem_name kind)
      rw [hcut]
      have hkind : kindByName kind.info.name = some kind := kindByName_eq_some_iff.mpr rfl
      simp only [Option.map_some, Option.getD_some, hkind, hallowed, hneeds, if_neg hv, hvalue]
      rfl

/-! ## Values by kind -/

/-- A text with a kind in front is read as a value of that kind. -/
theorem parse_text_iff (kind : Kind) (hallowed : kind.allowed side = true)
    (hneeds : kind.info.needsValue = true) (hv : v ≠ "")
    (htrim : trimSpace (kind.info.name ++ ":" ++ v) = kind.info.name ++ ":" ++ v) :
    parse netip (kind.info.name ++ ":" ++ v) side = .ok sel
      ↔ parseValue netip v kind = .ok sel := by
  have hcut : cut ':' (kind.info.name ++ ":" ++ v) = some (kind.info.name, v) :=
    cut_append (colon_notMem_name kind)
  rw [parse_eq_ok_iff, htrim]
  constructor
  · rintro ⟨kind', -, ⟨-, htext, -⟩ | ⟨-, v', -, htext, hvalue⟩⟩
    · rw [htext, cut_eq_none_iff.mpr (colon_notMem_name kind')] at hcut
      cases hcut
    · have hcut' : cut ':' (kind'.info.name ++ ":" ++ v') = some (kind'.info.name, v') :=
        cut_append (colon_notMem_name kind')
      rw [htext, hcut'] at hcut
      obtain ⟨hname, rfl⟩ := Prod.mk.inj (Option.some.inj hcut)
      have hkind : some kind = some kind' := by
        rw [← kindByName_eq_some_iff.mpr rfl, ← hname, kindByName_eq_some_iff.mpr rfl]
      rw [Option.some.inj hkind]
      exact hvalue
  · intro hvalue
    exact ⟨kind, hallowed, .inr ⟨hneeds, v, hv, rfl, hvalue⟩⟩

theorem parseIP_eq_ok_iff :
    parseIP netip v = .ok sel
      ↔ ∃ a, netip.parseAddr v = some a ∧ a.zone = "" ∧ sel = .ip a.unmap := by
  unfold parseIP
  cases netip.parseAddr v with
  | none => simp
  | some a =>
    rw [guard_eq_ok_iff, not_not]
    constructor
    · rintro ⟨hzone, h⟩
      exact ⟨a, rfl, hzone, (Except.ok.inj h).symm⟩
    · rintro ⟨a', ha, hzone, rfl⟩
      cases ha
      exact ⟨hzone, rfl⟩

/-- A prefix as it is stored: an IPv4-mapped one is an IPv4 prefix. -/
def Prefix.canonical (p : Prefix) : Option Prefix := if p.addr.is4In6 then p.unmap else some p

theorem parseCIDR_eq_ok_iff :
    parseCIDR netip v = .ok sel
      ↔ ∃ p p', netip.parsePrefix v = some p ∧ p.masked = p ∧ p.canonical = some p'
        ∧ sel = .cidr p' := by
  unfold parseCIDR Prefix.canonical
  cases netip.parsePrefix v with
  | none => simp
  | some p =>
    rw [guard_eq_ok_iff, not_not]
    by_cases hmapped : p.addr.is4In6 = true
    · rw [if_pos hmapped]
      constructor
      · rintro ⟨hmasked, h⟩
        cases hunmap : p.unmap with
        | none =>
          rw [hunmap] at h
          cases h
        | some p' =>
          rw [hunmap] at h
          refine ⟨p, p', rfl, hmasked, ?_, (Except.ok.inj h).symm⟩
          rw [if_pos hmapped, hunmap]
      · rintro ⟨q, p', hq, hmasked, hcanonical, rfl⟩
        cases hq
        rw [if_pos hmapped] at hcanonical
        rw [hcanonical]
        exact ⟨hmasked, rfl⟩
    · rw [if_neg hmapped]
      constructor
      · rintro ⟨hmasked, h⟩
        exact ⟨p, p, rfl, hmasked, if_neg hmapped, (Except.ok.inj h).symm⟩
      · rintro ⟨q, p', hq, hmasked, hcanonical, rfl⟩
        cases hq
        rw [if_neg hmapped] at hcanonical
        cases hcanonical
        exact ⟨hmasked, rfl⟩

theorem parseLabels_kind (h : parseLabels v = .ok sel) : ∃ ns kv, sel = .labels ns kv := by
  unfold parseLabels at h
  split at h
  · split at h
    · obtain ⟨kv, -, rfl⟩ := of_map_eq_ok h
      exact ⟨_, kv, rfl⟩
    · obtain ⟨u, -, h⟩ := of_bind_eq_ok h
      obtain ⟨kv, -, rfl⟩ := of_map_eq_ok h
      exact ⟨_, kv, rfl⟩
  · obtain ⟨kv, -, rfl⟩ := of_map_eq_ok h
    exact ⟨_, kv, rfl⟩

/-- What a value of each kind is read as. -/
inductive ReadsAs (netip : Netip) : Kind → String → Selector → Prop
  | any {v : String} : ReadsAs netip .any v .any
  | external {v : String} : ReadsAs netip .external v .external
  | ip {v : String} {a : Addr} (haddr : netip.parseAddr v = some a) (hzone : a.zone = "") :
      ReadsAs netip .ip v (.ip a.unmap)
  | cidr {v : String} {p p' : Prefix} (hpre : netip.parsePrefix v = some p)
      (hmasked : p.masked = p) (hcanonical : p.canonical = some p') :
      ReadsAs netip .cidr v (.cidr p')
  | host {v name : String} {wildcard : Bool} (hname : IsHostName name)
      (htext : trimSuffix (lowerHost v) "." = if wildcard then "*." ++ name else name) :
      ReadsAs netip .host v (.host (if wildcard then "." ++ name else name) wildcard)
  | service {v : String} (hv : validateNamespacedName v validateDNSLabel = .ok ()) :
      ReadsAs netip .service v (.service v)
  | «namespace» {v : String} (hv : validateDNSLabel v = .ok ()) :
      ReadsAs netip .namespace v (.namespace v)
  | sa {v : String} (hv : validateNamespacedName v validateDNSSubdomain = .ok ()) :
      ReadsAs netip .sa v (.sa v)
  | spiffe {v : String} (hv : validateSPIFFE v = .ok ()) :
      ReadsAs netip .spiffe v (.spiffe ("spiffe:" ++ v))
  | labels {v ns : String} {kv : AMap String String} (hv : parseLabels v = .ok (.labels ns kv)) :
      ReadsAs netip .labels v (.labels ns kv)

theorem readsAs_of_parseValue (h : parseValue netip v kind = .ok sel) :
    ReadsAs netip kind v sel := by
  cases kind with
  | any =>
    obtain rfl : Selector.any = sel := Except.ok.inj h
    exact .any
  | external =>
    obtain rfl : Selector.external = sel := Except.ok.inj h
    exact .external
  | ip =>
    rw [parseValue, parseIP_eq_ok_iff] at h
    obtain ⟨a, ha, hzone, rfl⟩ := h
    exact .ip ha hzone
  | cidr =>
    rw [parseValue, parseCIDR_eq_ok_iff] at h
    obtain ⟨p, p', hp, hmasked, hcanonical, rfl⟩ := h
    exact .cidr hp hmasked hcanonical
  | host =>
    rw [parseValue, parseHost_eq_ok_iff] at h
    obtain ⟨name, wildcard, hname, htext, rfl⟩ := h
    exact .host hname htext
  | service =>
    rw [parseValue] at h
    obtain ⟨u, hu, rfl⟩ := of_map_eq_ok h
    exact .service hu
  | «namespace» =>
    rw [parseValue] at h
    obtain ⟨u, hu, rfl⟩ := of_map_eq_ok h
    exact .namespace hu
  | sa =>
    rw [parseValue] at h
    obtain ⟨u, hu, rfl⟩ := of_map_eq_ok h
    exact .sa hu
  | spiffe =>
    rw [parseValue] at h
    obtain ⟨u, hu, rfl⟩ := of_map_eq_ok h
    exact .spiffe hu
  | labels =>
    rw [parseValue] at h
    obtain ⟨ns, kv, rfl⟩ := parseLabels_kind h
    exact .labels h

theorem ReadsAs.parseValue (h : ReadsAs netip kind v sel) :
    parseValue netip v kind = .ok sel := by
  cases h with
  | any => rfl
  | external => rfl
  | ip haddr hzone =>
    rw [Routing.parseValue, parseIP_eq_ok_iff]
    exact ⟨_, haddr, hzone, rfl⟩
  | cidr hpre hmasked hcanonical =>
    rw [Routing.parseValue, parseCIDR_eq_ok_iff]
    exact ⟨_, _, hpre, hmasked, hcanonical, rfl⟩
  | host hname htext =>
    rw [Routing.parseValue, parseHost_eq_ok_iff]
    exact ⟨_, _, hname, htext, rfl⟩
  | service hv =>
    rw [Routing.parseValue, hv]
    rfl
  | «namespace» hv =>
    rw [Routing.parseValue, hv]
    rfl
  | sa hv =>
    rw [Routing.parseValue, hv]
    rfl
  | spiffe hv =>
    rw [Routing.parseValue, hv]
    rfl
  | labels hv => exact hv

theorem ReadsAs.kind_eq (h : ReadsAs netip kind v sel) : sel.kind = kind := by
  cases h <;> rfl

/-! ## The canonical form -/

/-- `netip.Prefix.String`. -/
def Prefix.string (p : Prefix) : String := addrString p.addr ++ "/" ++ p.bits.repr

/-- `Value` of a selector that was read from the text `v`. -/
def Selector.valueFrom (v : String) : Selector → String
  | .any => ""
  | .external => ""
  | .ip addr => addrString addr
  | .cidr pre => pre.string
  | .host name wildcard => if wildcard then "*" ++ name else name
  | _ => v

/-- What `Parse` returns: the compiled parts and the normalized value. -/
structure Parsed where
  sel : Selector
  value : String

/-- `Selector.String`. -/
def Parsed.string (p : Parsed) : String :=
  if p.value = "" then p.sel.kind.info.name else p.sel.kind.info.name ++ ":" ++ p.value

/-- `Parse`, with `Value`. -/
def parseSelector (netip : Netip) (raw : String) (side : Side) : Except String Parsed :=
  (parse netip raw side).map fun sel =>
    { sel, value := sel.valueFrom (((cut ':' (trimSpace raw)).map Prod.snd).getD "") }

variable {p : Parsed}

theorem parseSelector_eq_ok_iff :
    parseSelector netip raw side = .ok p ↔ ∃ kind : Kind, kind.allowed side = true
      ∧ (kind.info.needsValue = false ∧ trimSpace raw = kind.info.name
          ∧ ReadsAs netip kind "" p.sel ∧ p.value = p.sel.valueFrom ""
        ∨ kind.info.needsValue = true ∧ ∃ v, v ≠ "" ∧ trimSpace raw = kind.info.name ++ ":" ++ v
          ∧ ReadsAs netip kind v p.sel ∧ p.value = p.sel.valueFrom v) := by
  have hname : ∀ kind : Kind,
      ((cut ':' kind.info.name).map Prod.snd).getD "" = "" := by
    intro kind
    rw [cut_eq_none_iff.mpr (colon_notMem_name kind)]
    rfl
  have hvalue : ∀ (kind : Kind) (v : String),
      ((cut ':' (kind.info.name ++ ":" ++ v)).map Prod.snd).getD "" = v := by
    intro kind v
    have hcut : cut ':' (kind.info.name ++ ":" ++ v) = some (kind.info.name, v) :=
      cut_append (colon_notMem_name kind)
    rw [hcut]
    rfl
  unfold parseSelector
  constructor
  · intro h
    obtain ⟨sel, hsel, rfl⟩ := of_map_eq_ok h
    obtain ⟨kind, hallowed, ⟨hneeds, htext, hread⟩ | ⟨hneeds, v, hv, htext, hread⟩⟩ :=
      parse_eq_ok_iff.mp hsel
    · refine ⟨kind, hallowed, .inl ⟨hneeds, htext, readsAs_of_parseValue hread, ?_⟩⟩
      rw [htext, hname]
    · refine ⟨kind, hallowed, .inr ⟨hneeds, v, hv, htext, readsAs_of_parseValue hread, ?_⟩⟩
      rw [htext, hvalue]
  · rintro ⟨kind, hallowed, ⟨hneeds, htext, hread, hp⟩ | ⟨hneeds, v, hv, htext, hread, hp⟩⟩
    · have hparse := parse_eq_ok_iff.mpr
        ⟨kind, hallowed, .inl ⟨hneeds, htext, hread.parseValue⟩⟩
      rw [hparse, htext, hname]
      show Except.ok { sel := p.sel, value := p.sel.valueFrom "" } = .ok p
      rw [← hp]
    · have hparse := parse_eq_ok_iff.mpr
        ⟨kind, hallowed, .inr ⟨hneeds, v, hv, htext, hread.parseValue⟩⟩
      rw [hparse, htext, hvalue]
      show Except.ok { sel := p.sel, value := p.sel.valueFrom v } = .ok p
      rw [← hp]

/-- What `ParseAddr` and `ParsePrefix` read is valid. -/
structure Netip.Sound (netip : Netip) : Prop where
  valid : ∀ s a, netip.parseAddr s = some a → a.isValid = true
  validPrefix : ∀ s p, netip.parsePrefix s = some p → p.addr.isValid = true

/-- The texts `net/netip` writes for what it has read are read back: reading undoes writing
on canonical addresses and prefixes. -/
structure Netip.ReadsBack (netip : Netip) : Prop extends netip.Sound where
  addr : ∀ s a, netip.parseAddr s = some a → a.zone = "" →
    netip.parseAddr (addrString a.unmap) = some a.unmap
  pre : ∀ s p p', netip.parsePrefix s = some p → p.masked = p → p.canonical = some p' →
    netip.parsePrefix p'.string = some p'

theorem zone_unmap {a : Addr} (h : a.zone = "") : a.unmap.zone = "" := by
  cases a with
  | zero => rfl
  | v4 bits => rfl
  | v6 bits zone =>
    simp only [Addr.unmap]
    split
    · rfl
    · exact h

/-- The low bits of a masked number are clear, so they are clear in its low half too. -/
theorem clear_truncate {bits : BitVec 128} {k : Nat} (h : (bits >>> k) <<< k = bits) :
    (bits.truncate 32 >>> k) <<< k = bits.truncate 32 := by
  apply BitVec.eq_of_getLsbD_eq
  intro i hi
  have hbit : ((bits >>> k) <<< k).getLsbD i = bits.getLsbD i := by rw [h]
  simp only [BitVec.getLsbD_shiftLeft, BitVec.getLsbD_ushiftRight, BitVec.getLsbD_setWidth,
    BitVec.truncate_eq_setWidth] at hbit ⊢
  by_cases hk : i < k
  · simp only [hk, decide_true, Bool.not_true, Bool.and_false, Bool.false_and] at hbit ⊢
    rw [← hbit, Bool.and_false]
  · have hki : k + (i - k) = i := by omega
    rw [hki]
    simp [hi, hk]

namespace Prefix

variable {p p' : Prefix}

theorem zone_of_masked (h : p.masked = p) : p.addr.zone = "" := by
  have haddr : clearLow (p.addr.bitLen - p.bits) p.addr = p.addr := congrArg Prefix.addr h
  rw [← haddr]
  cases p.addr <;> rfl

/-- A prefix that is stored passes the checks again, and is stored as it is. -/
theorem canonical_masked (hmasked : p.masked = p) (h : p.canonical = some p') :
    p'.masked = p' ∧ p'.canonical = some p' := by
  unfold canonical at h
  split at h
  · case isTrue hmapped =>
      obtain ⟨addr, n, hrange⟩ := p
      cases addr with
      | zero => cases hmapped
      | v4 bits => cases hmapped
      | v6 bits zone =>
        have hmap : (bits >>> 32 == 0xffff#128) = true := hmapped
        have hunmap : (Addr.v6 bits zone).unmap = .v4 (bits.truncate 32) := if_pos hmap
        unfold unmap at h
        rw [hunmap] at h
        dsimp only at h
        split at h
        · case isTrue hn =>
            cases h
            have haddr : (bits >>> (128 - n)) <<< (128 - n) = bits := by
              have := congrArg Prefix.addr hmasked
              exact (Addr.v6.inj this).1
            refine ⟨?_, rfl⟩
            have hshift : 32 - (n - 96) = 128 - n := by omega
            have hclear : clearLow (32 - (n - 96)) (.v4 (bits.truncate 32))
                = .v4 (bits.truncate 32) := by
              rw [hshift]
              exact congrArg Addr.v4 (clear_truncate haddr)
            unfold masked
            congr 1
        · cases h
  · case isFalse hmapped =>
      cases h
      exact ⟨hmasked, if_neg hmapped⟩

theorem canonical_valid (hvalid : p.addr.isValid = true) (h : p.canonical = some p') :
    p'.addr.isValid = true := by
  unfold canonical at h
  split at h
  · unfold unmap at h
    split at h
    · split at h
      · cases h
        rfl
      · cases h
    · cases h
  · cases h
    exact hvalid

end Prefix

/-! ## Blanks -/

theorem isSpace_of_isAddrChar {c : Char} (h : isAddrChar c = true) : isSpace c = false := by
  unfold isAddrChar Char.isDigit at h
  simp only [Bool.or_eq_true, Bool.and_eq_true, decide_eq_true_eq, beq_iff_eq, Char.le_def,
    UInt32.le_iff_toNat_le] at h
  rcases h with ((⟨hlow, hhigh⟩ | ⟨hlow, hhigh⟩) | rfl) | rfl
  · exact isSpace_of_printable (Nat.le_trans (by decide) hlow) (Nat.le_trans hhigh (by decide))
  · exact isSpace_of_printable (Nat.le_trans (by decide) hlow) (Nat.le_trans hhigh (by decide))
  · rfl
  · rfl

theorem isSpace_of_hostChar {c : Char}
    (h : isLowerAlnum c = true ∨ c = '-' ∨ c = '_' ∨ c = '.') : isSpace c = false := by
  rcases h with h | rfl | rfl | rfl
  · rw [isLowerAlnum_iff] at h
    exact isSpace_of_printable (by omega) (by omega)
  · rfl
  · rfl
  · rfl

theorem isSpace_of_mem_name {c : Char} (h : c ∈ kind.info.name.toList) : isSpace c = false := by
  have hall : ∀ kind : Kind, kind.info.name.toList.all (fun c => !isSpace c) = true := by
    intro kind
    cases kind <;> decide
  have hc := List.all_eq_true.mp (hall kind) c h
  rwa [Bool.not_eq_true'] at hc

/-- A text without blanks is not trimmed, also behind its kind. -/
theorem trimSpace_text (h : ∀ c ∈ v.toList, isSpace c = false) :
    trimSpace (kind.info.name ++ ":" ++ v) = kind.info.name ++ ":" ++ v := by
  apply trimSpace_of_notSpace
  intro c hc
  rw [String.toList_append, String.toList_append, List.mem_append, List.mem_append] at hc
  rcases hc with (hc | hc) | hc
  · exact isSpace_of_mem_name hc
  · rw [show c = ':' from List.mem_singleton.mp hc]
    rfl
  · exact h c hc

/-! ## Reading the canonical form -/

/-- The text a host was read from is kept but for its case and a last point, which a name
does not have. -/
theorem host_canonical {name : String} (hname : IsHostName name) (wildcard : Bool) :
    (∀ c ∈ (if wildcard then "*." ++ name else name).toList, isSpace c = false)
      ∧ (if wildcard then "*." ++ name else name) ≠ ""
      ∧ trimSuffix (lowerHost (if wildcard then "*." ++ name else name)) "."
        = if wildcard then "*." ++ name else name := by
  have hchars : ∀ c ∈ (if wildcard then "*." ++ name else name).toList,
      c = '*' ∨ isLowerAlnum c = true ∨ c = '-' ∨ c = '_' ∨ c = '.' := by
    intro c hc
    cases wildcard with
    | true =>
      rcases List.mem_append.mp (String.toList_append ▸ hc) with hc | hc
      · rcases List.mem_cons.mp hc with rfl | hc
        · exact .inl rfl
        · exact .inr (.inr (.inr (.inr (List.mem_singleton.mp hc))))
      · exact .inr (hname.chars hc)
    | false => exact .inr (hname.chars hc)
  have hsuffix : name.toList <:+ (if wildcard then "*." ++ name else name).toList := by
    cases wildcard with
    | true => exact ⟨"*.".toList, String.toList_append.symm⟩
    | false => exact List.suffix_rfl
  have hpos : 1 ≤ name.toList.length := by
    rw [Nat.one_le_iff_ne_zero, ne_eq, List.length_eq_zero_iff, String.toList_eq_nil_iff]
    exact hname.nonempty
  generalize (if wildcard then "*." ++ name else name) = text at hchars hsuffix ⊢
  refine ⟨?_, ?_, ?_⟩
  · intro c hc
    rcases hchars c hc with rfl | h
    · rfl
    · exact isSpace_of_hostChar h
  · rintro rfl
    have hlen := hsuffix.length_le
    simp only [String.toList_empty, List.length_nil] at hlen
    omega
  · rw [lowerHost_of_noUpper, trimSuffix_of_not_suffix]
    · intro hdot
      exact hname.not_dot_suffix (List.suffix_of_suffix_length_le hdot hsuffix hpos)
    · intro c hc
      rcases hchars c hc with rfl | h | rfl | rfl | rfl
      · decide
      · rw [isLowerAlnum_iff] at h
        omega
      all_goals decide

/-- The normalized value of a host is the text it was read from, in lower case and without a
last point. -/
theorem valueFrom_host (name : String) (wildcard : Bool) (w : String) :
    (Selector.host (if wildcard then "." ++ name else name) wildcard).valueFrom w
      = if wildcard then "*." ++ name else name := by
  cases wildcard with
  | true =>
    show "*" ++ ("." ++ name) = "*." ++ name
    rw [← String.append_assoc]
    rfl
  | false => rfl

theorem Netip.Sound.addr_chars (hnet : netip.Sound) {a : Addr}
    (haddr : netip.parseAddr v = some a) (hzone : a.zone = "") :
    addrString a.unmap ≠ "" ∧ ∀ c ∈ (addrString a.unmap).toList, isAddrChar c = true := by
  have hvalid : a.unmap.isValid = true := by
    rw [Addr.isValid_unmap]
    exact hnet.valid _ _ haddr
  exact addrString_chars hvalid (zone_unmap hzone)

theorem Netip.Sound.prefix_chars (hnet : netip.Sound) {p p' : Prefix}
    (hpre : netip.parsePrefix v = some p) (hmasked : p.masked = p)
    (hcanonical : p.canonical = some p') :
    addrString p'.addr ≠ "" ∧ ∀ c ∈ (addrString p'.addr).toList, isAddrChar c = true := by
  obtain ⟨hmasked', -⟩ := Prefix.canonical_masked hmasked hcanonical
  have hvalid := Prefix.canonical_valid (hnet.validPrefix _ _ hpre) hcanonical
  exact addrString_chars hvalid (Prefix.zone_of_masked hmasked')

theorem ReadsAs.valueFrom_ne (hnet : netip.Sound) (h : ReadsAs netip kind v sel)
    (hneeds : kind.info.needsValue = true) (hv : v ≠ "") : sel.valueFrom v ≠ "" := by
  cases h with
  | any => cases hneeds
  | external => cases hneeds
  | ip haddr hzone => exact (hnet.addr_chars haddr hzone).1
  | cidr hpre hmasked hcanonical =>
    rename_i p p'
    intro hempty
    have hslash : '/' ∈ p'.string.toList := by simp [Prefix.string]
    rw [show p'.string = "" from hempty] at hslash
    cases hslash
  | host hname htext =>
    rw [valueFrom_host]
    exact (host_canonical hname _).2.1
  | service h => exact hv
  | «namespace» h => exact hv
  | sa h => exact hv
  | spiffe h => exact hv
  | labels h => exact hv

/-- The normalized value of a selector is read as the same selector and is normalized
already. -/
theorem ReadsAs.canonical (hnet : netip.ReadsBack) (h : ReadsAs netip kind v sel)
    (hneeds : kind.info.needsValue = true)
    (htrim : trimSpace (kind.info.name ++ ":" ++ v) = kind.info.name ++ ":" ++ v) :
    ReadsAs netip kind (sel.valueFrom v) sel
      ∧ sel.valueFrom (sel.valueFrom v) = sel.valueFrom v
      ∧ trimSpace (kind.info.name ++ ":" ++ sel.valueFrom v)
        = kind.info.name ++ ":" ++ sel.valueFrom v := by
  cases h with
  | any => cases hneeds
  | external => cases hneeds
  | ip haddr hzone =>
    obtain ⟨-, hchars⟩ := hnet.addr_chars haddr hzone
    refine ⟨?_, rfl, trimSpace_text fun c hc => isSpace_of_isAddrChar (hchars c hc)⟩
    have hread := ReadsAs.ip (hnet.addr _ _ haddr hzone) (zone_unmap hzone)
    rwa [Addr.unmap_unmap] at hread
  | cidr hpre hmasked hcanonical =>
    rename_i p p'
    obtain ⟨hmasked', hcanonical'⟩ := Prefix.canonical_masked hmasked hcanonical
    obtain ⟨-, hchars⟩ := hnet.prefix_chars hpre hmasked hcanonical
    refine ⟨.cidr (hnet.pre _ _ _ hpre hmasked hcanonical) hmasked' hcanonical', rfl,
      trimSpace_text fun c hc => ?_⟩
    have hc : c ∈ (addrString p'.addr ++ "/" ++ p'.bits.repr).toList := hc
    rw [String.toList_append, String.toList_append, List.mem_append, List.mem_append] at hc
    rcases hc with (hc | hc) | hc
    · exact isSpace_of_isAddrChar (hchars c hc)
    · rw [show c = '/' from List.mem_singleton.mp hc]
      rfl
    · exact isSpace_of_isAddrChar (isAddrChar_of_mem_repr hc)
  | host hname htext =>
    rename_i name wildcard
    obtain ⟨hspace, -, hlower⟩ := host_canonical hname wildcard
    rw [valueFrom_host, valueFrom_host]
    exact ⟨.host hname hlower, rfl, trimSpace_text hspace⟩
  | service h => exact ⟨.service h, rfl, htrim⟩
  | «namespace» h => exact ⟨.namespace h, rfl, htrim⟩
  | sa h => exact ⟨.sa h, rfl, htrim⟩
  | spiffe h => exact ⟨.spiffe h, rfl, htrim⟩
  | labels h => exact ⟨.labels h, rfl, htrim⟩

theorem ReadsAs.valueFrom_empty (h : ReadsAs netip kind v sel)
    (hneeds : kind.info.needsValue = false) (w : String) : sel.valueFrom w = "" := by
  cases h with
  | any => rfl
  | external => rfl
  | _ => exact absurd (show true = false from hneeds) (by decide)

/-- The canonical form of what is accepted: the kind alone, or with the normalized value. -/
theorem string_of_parseSelector (hnet : netip.Sound)
    (h : parseSelector netip raw side = .ok p) :
    ∃ kind : Kind, kind.allowed side = true
      ∧ (kind.info.needsValue = false ∧ p.string = kind.info.name
          ∧ ReadsAs netip kind "" p.sel ∧ p.value = p.sel.valueFrom ""
        ∨ kind.info.needsValue = true ∧ ∃ v, v ≠ "" ∧ trimSpace raw = kind.info.name ++ ":" ++ v
          ∧ p.string = kind.info.name ++ ":" ++ p.sel.valueFrom v
          ∧ ReadsAs netip kind v p.sel ∧ p.value = p.sel.valueFrom v) := by
  obtain ⟨kind, hallowed, ⟨hneeds, htext, hread, hp⟩ | ⟨hneeds, v, hv, htext, hread, hp⟩⟩ :=
    parseSelector_eq_ok_iff.mp h
  · refine ⟨kind, hallowed, .inl ⟨hneeds, ?_, hread, hp⟩⟩
    rw [Parsed.string, if_pos (hp.trans (hread.valueFrom_empty hneeds "")), hread.kind_eq]
  · refine ⟨kind, hallowed, .inr ⟨hneeds, v, hv, htext, ?_, hread, hp⟩⟩
    rw [Parsed.string, hp, if_neg (hread.valueFrom_ne hnet hneeds hv), hread.kind_eq]

/-- What `Parse` accepts has a canonical form that `Parse` accepts on the same side, as the
same selector: its kind, its value and its compiled parts. -/
theorem canonical_fixed (hnet : netip.ReadsBack) (h : parseSelector netip raw side = .ok p) :
    parseSelector netip p.string side = .ok p := by
  obtain ⟨kind, hallowed, ⟨hneeds, hstring, hread, hp⟩ |
    ⟨hneeds, v, hv, htext, hstring, hread, hp⟩⟩ := string_of_parseSelector hnet.toSound h
  · rw [hstring, parseSelector_eq_ok_iff]
    refine ⟨kind, hallowed, .inl ⟨hneeds, ?_, hread, hp⟩⟩
    exact trimSpace_of_notSpace fun c hc => isSpace_of_mem_name hc
  · have htrim : trimSpace (kind.info.name ++ ":" ++ v) = kind.info.name ++ ":" ++ v := by
      rw [← htext, trimSpace_trimSpace]
    have hne := hread.valueFrom_ne hnet.toSound hneeds hv
    obtain ⟨hread', hfixed, htrim'⟩ := hread.canonical hnet hneeds htrim
    rw [hstring, parseSelector_eq_ok_iff]
    exact ⟨kind, hallowed, .inr ⟨hneeds, _, hne, htrim', hread', hp.trans hfixed.symm⟩⟩

/-- A reader of one address, in two spellings. -/
def twoSpellings : Netip where
  parseAddr s :=
    if s = "::ffff:a00:1" then some (.v6 0xffff0a000001#128 "")
    else if s = "10.0.0.1" then some (.v4 0x0a000001#32) else none
  parsePrefix _ := none
  prefixString _ := ""

theorem twoSpellings_readsBack : twoSpellings.ReadsBack where
  valid s a h := by
    dsimp only [twoSpellings] at h
    split_ifs at h <;> (obtain rfl := Option.some.inj h; rfl)
  validPrefix s p h := absurd h (by simp [twoSpellings])
  addr s a h hzone := by
    dsimp only [twoSpellings] at h
    split_ifs at h <;> (obtain rfl := Option.some.inj h; rfl)
  pre s p p' h := absurd h (by simp [twoSpellings])

theorem canonical_fixed_mapped :
    parseSelector twoSpellings " ip:::ffff:a00:1" .source
        = .ok ⟨.ip (.v4 0x0a000001#32), "10.0.0.1"⟩
      ∧ parseSelector twoSpellings "ip:10.0.0.1" .source
        = .ok ⟨.ip (.v4 0x0a000001#32), "10.0.0.1"⟩ := by
  have h : parseSelector twoSpellings " ip:::ffff:a00:1" .source
      = .ok ⟨.ip (.v4 0x0a000001#32), "10.0.0.1"⟩ := rfl
  have hfixed := canonical_fixed twoSpellings_readsBack h
  exact ⟨h, hfixed⟩

end Hypergate.Routing
