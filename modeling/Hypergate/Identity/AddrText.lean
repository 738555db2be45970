import Hypergate.Identity.Types
import Hypergate.Lib.Strings

/-!
# Addresses as text (`net/netip`)

`Addr.String`: four decimal numbers for IPv4; for IPv6 eight groups in hexadecimal, the
first longest run of zero groups written as `::`, and the zone behind a `%`. An
IPv4-mapped address ends in its IPv4 form.

* `addrString_chars` — the text of a valid address without a zone has digits, the letters
  up to `f`, points and colons, and is not empty.
-/

namespace Hypergate.Identity

open Hypergate.Lib

/-! ## Writing -/

def string4 (bits : BitVec 32) : String :=
  (bits.toNat / 16777216 % 256).repr ++ "." ++ (bits.toNat / 65536 % 256).repr ++ "."
    ++ (bits.toNat / 256 % 256).repr ++ "." ++ (bits.toNat % 256).repr

/-- `v6u16`: one of the eight groups. -/
def v6u16 (bits : BitVec 128) (i : Nat) : Nat := (bits >>> (112 - 16 * i)).toNat % 65536

/-- The end of the run of zero groups from `i` on. -/
def zerosFrom (bits : BitVec 128) : Nat → Nat → Nat
  | 0, i => i
  | fuel + 1, i => if i < 8 ∧ v6u16 bits i = 0 then zerosFrom bits fuel (i + 1) else i

/-- `zeroStart` and `zeroEnd`: the first of the longest runs, of two groups at least. -/
def zeroRun (bits : BitVec 128) : Nat × Nat :=
  (List.range 8).foldl (fun best i =>
    let j := zerosFrom bits 8 i
    if 2 ≤ j - i ∧ best.2 - best.1 < j - i then (i, j) else best) (255, 255)

def appendHex (group : Nat) : List Char := Nat.toDigits 16 group

/-- The second loop of `appendTo6`, from group `i` on. -/
def appendGroups (bits : BitVec 128) (zeroStart zeroEnd : Nat) : Nat → Nat → List Char
  | 0, _ => []
  | fuel + 1, i =>
    if 8 ≤ i then []
    else if i = zeroStart then
      [':', ':'] ++ if 8 ≤ zeroEnd then [] else
        appendHex (v6u16 bits zeroEnd) ++ appendGroups bits zeroStart zeroEnd fuel (zeroEnd + 1)
    else (if 0 < i then [':'] else []) ++ appendHex (v6u16 bits i)
      ++ appendGroups bits zeroStart zeroEnd fuel (i + 1)

/-- `appendTo6`, without the zone. -/
def string6 (bits : BitVec 128) : String :=
  String.ofList (appendGroups bits (zeroRun bits).1 (zeroRun bits).2 8 0)

/-- The zone behind an address. -/
def zoneSuffix (zone : String) : String := if zone = "" then "" else "%" ++ zone

/-- `Addr.String`. -/
def addrString : Addr → String
  | .zero => "invalid IP"
  | .v4 bits => string4 bits
  | .v6 bits zone =>
    (if bits >>> 32 == 0xffff#128 then "::ffff:" ++ string4 (bits.truncate 32)
      else string6 bits) ++ zoneSuffix zone

/-! ## Characters -/

/-- A character of an address. -/
def isAddrChar (c : Char) : Bool := c.isDigit || 'a' ≤ c && c ≤ 'f' || c == '.' || c == ':'

theorem isAddrChar_of_mem_repr {n : Nat} {c : Char} (h : c ∈ n.repr.toList) :
    isAddrChar c = true := by
  rw [Nat.toList_repr] at h
  have hdigit := Nat.isDigit_of_mem_toDigits (by omega) (by omega) h
  unfold isAddrChar
  rw [hdigit]
  rfl

theorem isAddrChar_digitChar : ∀ d < 16, isAddrChar (Nat.digitChar d) = true := by decide

theorem isAddrChar_of_mem_appendHex {group : Nat} {c : Char} (h : c ∈ appendHex group) :
    isAddrChar c = true := by
  obtain ⟨d, hd, rfl⟩ := mem_toDigits h
  exact isAddrChar_digitChar d hd

theorem isAddrChar_of_mem_string4 {bits : BitVec 32} {c : Char} (h : c ∈ (string4 bits).toList) :
    isAddrChar c = true := by
  have hdot : ∀ c ∈ ".".toList, isAddrChar c = true := List.all_eq_true.mp (by decide)
  unfold string4 at h
  simp only [String.toList_append, List.mem_append] at h
  rcases h with (((((h | h) | h) | h) | h) | h) | h
  · exact isAddrChar_of_mem_repr h
  · exact hdot c h
  · exact isAddrChar_of_mem_repr h
  · exact hdot c h
  · exact isAddrChar_of_mem_repr h
  · exact hdot c h
  · exact isAddrChar_of_mem_repr h

theorem isAddrChar_of_mem_appendGroups {bits : BitVec 128} {zeroStart zeroEnd fuel i : Nat}
    {c : Char} (h : c ∈ appendGroups bits zeroStart zeroEnd fuel i) : isAddrChar c = true := by
  have hcolon : ∀ {b : Prop} [Decidable b], c ∈ (if b then [':'] else []) →
      isAddrChar c = true := by
    intro b _ hc
    split at hc
    · rw [List.mem_singleton.mp hc]
      rfl
    · exact absurd hc List.not_mem_nil
  induction fuel generalizing i with
  | zero => exact absurd h List.not_mem_nil
  | succ fuel ih =>
    unfold appendGroups at h
    split at h
    · exact absurd h List.not_mem_nil
    split at h
    · rcases List.mem_append.mp h with h | h
      · have hdots : ∀ c ∈ [':', ':'], isAddrChar c = true := List.all_eq_true.mp (by decide)
        exact hdots c h
      · split at h
        · exact absurd h List.not_mem_nil
        · rcases List.mem_append.mp h with h | h
          · exact isAddrChar_of_mem_appendHex h
          · exact ih h
    · rcases List.mem_append.mp h with h | h
      · rcases List.mem_append.mp h with h | h
        · exact hcolon h
        · exact isAddrChar_of_mem_appendHex h
      · exact ih h

/-- The first group is written, or the colons that stand for it. -/
theorem appendGroups_ne_nil (bits : BitVec 128) (zeroStart zeroEnd : Nat) :
    appendGroups bits zeroStart zeroEnd 8 0 ≠ [] := by
  unfold appendGroups
  rw [if_neg (by omega)]
  split
  · simp
  · have hpos : 0 < (appendHex (v6u16 bits 0)).length := Nat.length_toDigits_pos
    intro hnil
    have hlen := congrArg List.length hnil
    simp only [List.length_append, List.length_nil] at hlen
    omega

theorem string4_ne_empty (bits : BitVec 32) : string4 bits ≠ "" := by
  intro h
  have hdot : '.' ∈ (string4 bits).toList := by simp [string4]
  rw [h] at hdot
  cases hdot

theorem addrString_chars {a : Addr} (hvalid : a.isValid = true) (hzone : a.zone = "") :
    addrString a ≠ "" ∧ ∀ c ∈ (addrString a).toList, isAddrChar c = true := by
  cases a with
  | zero => cases hvalid
  | v4 bits => exact ⟨string4_ne_empty bits, fun c hc => isAddrChar_of_mem_string4 hc⟩
  | v6 bits zone =>
    have htext : addrString (.v6 bits zone)
        = if bits >>> 32 == 0xffff#128 then "::ffff:" ++ string4 (bits.truncate 32)
          else string6 bits := by
      have hsuffix : zoneSuffix zone = "" := if_pos hzone
      show _ ++ zoneSuffix zone = _
      rw [hsuffix, String.append_empty]
    rw [htext]
    split
    · constructor
      · intro h
        exact absurd (congrArg String.length h) (by simp [String.length_append])
      · intro c hc
        rw [String.toList_append] at hc
        rcases List.mem_append.mp hc with hc | hc
        · have hstart : ∀ c ∈ "::ffff:".toList, isAddrChar c = true :=
            List.all_eq_true.mp (by decide)
          exact hstart c hc
        · exact isAddrChar_of_mem_string4 hc
    · constructor
      · intro h
        refine appendGroups_ne_nil bits (zeroRun bits).1 (zeroRun bits).2 ?_
        have hlist := congrArg String.toList h
        rwa [string6, String.toList_ofList] at hlist
      · intro c hc
        rw [string6, String.toList_ofList] at hc
        exact isAddrChar_of_mem_appendGroups hc

example : addrString (.v6 0x20010db8000000000001000000000001#128 "") = "2001:db8::1:0:0:1" := by
  decide

end Hypergate.Identity
