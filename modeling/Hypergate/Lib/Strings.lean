import Mathlib.Data.List.Basic

/-!
# Text functions of the Go standard library

The functions of packages `strings` and `fmt` that the modelled code calls, on
the characters of a string, and what it takes to read a joined text back.
-/

namespace Hypergate.Lib

/-- `strings.ToLower` on ASCII text. -/
def toLower (s : String) : String := String.ofList (s.toList.map Char.toLower)

/-- `unicode.IsSpace`. -/
def isSpace (c : Char) : Bool :=
  c.toNat ∈ [0x09, 0x0a, 0x0b, 0x0c, 0x0d, 0x20, 0x85, 0xa0, 0x1680, 0x2028, 0x2029, 0x202f,
    0x205f, 0x3000] || (0x2000 ≤ c.toNat && c.toNat ≤ 0x200a)

/-- `strings.TrimSpace`. -/
def trimSpace (s : String) : String :=
  String.ofList ((s.toList.dropWhile isSpace).reverse.dropWhile isSpace).reverse

/-- `strings.TrimPrefix`. -/
def trimPrefix (s start : String) : String :=
  if start.toList.isPrefixOf s.toList then String.ofList (s.toList.drop start.length) else s

/-- `strings.TrimSuffix`. -/
def trimSuffix (s stop : String) : String :=
  if stop.toList.isSuffixOf s.toList then
    String.ofList (s.toList.take (s.length - stop.length))
  else s

/-- `strings.Split` at a separator of one character. -/
def split (sep : Char) (s : String) : List String :=
  (s.toList.splitOn sep).map String.ofList

/-- `strings.Cut` at a separator of one character: the parts around its first
occurrence. -/
def cut (sep : Char) (s : String) : Option (String × String) :=
  match s.toList.idxOf? sep with
  | none => none
  | some i => some (String.ofList (s.toList.take i), String.ofList (s.toList.drop (i + 1)))

/-- `net.SplitHostPort`: host and port, or `none` for an error. -/
def splitHostPort (s : String) : Option (String × String) :=
  let l := s.toList
  -- the port starts after the last colon
  match l.reverse.idxOf? ':' with
  | none => none
  | some fromEnd =>
    let i := l.length - 1 - fromEnd
    let port := String.ofList (l.drop (i + 1))
    if l.head? = some '[' then
      match l.idxOf? ']' with
      | none => none
      | some stop =>
        -- the first `]` stands just before the last colon
        if stop + 1 = i ∧ '[' ∉ l.drop 1 ∧ ']' ∉ l.drop (stop + 1) then
          some (String.ofList ((l.take stop).drop 1), port)
        else none
    else
      let host := l.take i
      if ':' ∈ host ∨ '[' ∈ l ∨ ']' ∈ l then none else some (String.ofList host, port)

/-! ## Lower case -/

variable {c : Char}

theorem toLower_of_upper (h : c.val ≥ 'A'.val ∧ c.val ≤ 'Z'.val) :
    ¬ (c.toLower.val ≥ 'A'.val ∧ c.toLower.val ≤ 'Z'.val) := by
  unfold Char.toLower
  rw [dif_pos h]
  rintro ⟨-, hle⟩
  have hlow : 65 ≤ c.val.toNat := UInt32.le_iff_toNat_le.mp h.1
  have hhigh : c.val.toNat ≤ 90 := UInt32.le_iff_toNat_le.mp h.2
  have hle := UInt32.le_iff_toNat_le.mp hle
  have hshift : ('a'.val - 'A'.val).toNat = 32 := rfl
  have hZ : 'Z'.val.toNat = 90 := rfl
  rw [UInt32.toNat_add] at hle
  omega

theorem charToLower_idem (c : Char) : c.toLower.toLower = c.toLower := by
  by_cases h : c.val ≥ 'A'.val ∧ c.val ≤ 'Z'.val
  · have hnot := toLower_of_upper h
    generalize c.toLower = d at hnot ⊢
    unfold Char.toLower
    rw [dif_neg hnot]
  · have hc : c.toLower = c := by
      unfold Char.toLower
      rw [dif_neg h]
    rw [hc, hc]

@[simp] theorem toLower_toLower (s : String) : toLower (toLower s) = toLower s := by
  unfold toLower
  rw [String.toList_ofList, List.map_map]
  congr 1
  exact List.map_congr_left fun c _ => charToLower_idem c

/-! ## Beginnings that tell texts apart -/

/-- All texts of a list begin with `p`. -/
def AllBegin (p : String) (l : List String) : Prop := ∀ a ∈ l, p.toList <+: a.toList

theorem allBegin_singleton (p t : String) : AllBegin p [p ++ t] := by
  intro a ha
  rw [List.mem_singleton.mp ha, String.toList_append]
  exact List.prefix_append _ _

theorem allBegin_map {α : Type} (p : String) (f : α → String) (l : List α) :
    AllBegin p (l.map fun x => p ++ f x) := by
  intro a ha
  obtain ⟨x, -, rfl⟩ := List.mem_map.mp ha
  rw [String.toList_append]
  exact List.prefix_append _ _

theorem AllBegin.ne {p : String} {l : List String} (h : AllBegin p l) {a : String}
    (ha : ¬ p.toList <+: a.toList) : ∀ b ∈ l, a ≠ b := by
  rintro b hb rfl
  exact ha (h a hb)

/-- Beginnings of which none begins the other have no text in common. -/
theorem AllBegin.disjoint {p q : String} {l l' : List String} (h : AllBegin p l)
    (h' : AllBegin q l') (hpq : ¬ p.toList <+: q.toList ∧ ¬ q.toList <+: p.toList) :
    ∀ a ∈ l, ∀ b ∈ l', a ≠ b := by
  rintro a ha b hb rfl
  rcases List.prefix_or_prefix_of_prefix (h a ha) (h' a hb) with hp | hq
  · exact hpq.1 hp
  · exact hpq.2 hq

/-! ## Splitting at the last separator -/

universe u

variable {α : Type u}

/-- The part after the last separator determines the part before it. -/
theorem append_sep_inj {sep : α} {l₁ l₂ r₁ r₂ : List α} (h₁ : sep ∉ r₁) (h₂ : sep ∉ r₂)
    (h : l₁ ++ sep :: r₁ = l₂ ++ sep :: r₂) : l₁ = l₂ ∧ r₁ = r₂ := by
  -- one left part is longer by `as`; if `as` is not empty it ends in a separator
  rcases List.append_eq_append_iff.mp h with ⟨as, rfl, htail⟩ | ⟨as, rfl, htail⟩
  · cases as with
    | nil => exact ⟨by simp, (List.cons.inj htail).2⟩
    | cons a as =>
      obtain ⟨_, rfl⟩ := List.cons.inj htail
      exact absurd (by simp) h₁
  · cases as with
    | nil => exact ⟨by simp, (List.cons.inj htail).2.symm⟩
    | cons a as =>
      obtain ⟨_, rfl⟩ := List.cons.inj htail
      exact absurd (by simp) h₂

/-- The part before the first separator determines the part after it. -/
theorem sep_append_inj {sep : α} {l₁ l₂ r₁ r₂ : List α} (h₁ : sep ∉ l₁) (h₂ : sep ∉ l₂)
    (h : l₁ ++ sep :: r₁ = l₂ ++ sep :: r₂) : l₁ = l₂ ∧ r₁ = r₂ := by
  have hreverse : r₁.reverse ++ sep :: l₁.reverse = r₂.reverse ++ sep :: l₂.reverse := by
    simpa using congrArg List.reverse h
  obtain ⟨hr, hl⟩ := append_sep_inj (by simpa using h₁) (by simpa using h₂) hreverse
  exact ⟨List.reverse_injective hl, List.reverse_injective hr⟩

/-- Parts that end at a separator, or at the end of the text. -/
theorem append_inj_of_sep {sep : α} {l₁ l₂ r₁ r₂ : List α} (h₁ : sep ∉ l₁) (h₂ : sep ∉ l₂)
    (hr₁ : r₁ = [] ∨ r₁.head? = some sep) (hr₂ : r₂ = [] ∨ r₂.head? = some sep)
    (h : l₁ ++ r₁ = l₂ ++ r₂) : l₁ = l₂ ∧ r₁ = r₂ := by
  cases r₁ with
  | nil =>
    cases r₂ with
    | nil => exact ⟨by simpa using h, rfl⟩
    | cons b r₂ =>
      obtain rfl : b = sep := by simpa using hr₂
      rw [List.append_nil] at h
      exact absurd (by simp [h]) h₁
  | cons a r₁ =>
    obtain rfl : a = sep := by simpa using hr₁
    cases r₂ with
    | nil =>
      rw [List.append_nil] at h
      exact absurd (by simp [← h]) h₂
    | cons b r₂ =>
      obtain rfl : b = a := by simpa using hr₂
      obtain ⟨hl, hr⟩ := sep_append_inj h₁ h₂ h
      exact ⟨hl, by rw [hr]⟩

/-! ## Plain text

A text without blanks, brackets and a port comes back unchanged. -/

theorem dropWhile_of_forall_not {p : α → Bool} {l : List α} (h : ∀ c ∈ l, p c = false) :
    l.dropWhile p = l := by
  cases l with
  | nil => rfl
  | cons c l => exact List.dropWhile_cons_of_neg (by simp [h c (List.mem_cons_self ..)])

theorem trimSpace_of_notSpace {s : String} (h : ∀ c ∈ s.toList, isSpace c = false) :
    trimSpace s = s := by
  unfold trimSpace
  rw [dropWhile_of_forall_not h,
    dropWhile_of_forall_not (fun c hc => h c (List.mem_reverse.mp hc)), List.reverse_reverse,
    String.ofList_toList]

theorem trimSpace_cons (hc : isSpace c = true) (l : List Char) :
    trimSpace (String.ofList (c :: l)) = trimSpace (String.ofList l) := by
  simp [trimSpace, hc]

theorem repr_inj {a b : Nat} (h : a.repr.toList = b.repr.toList) : a = b := by
  rw [Nat.toList_repr, Nat.toList_repr] at h
  have hread := congrArg (fun l => Nat.ofDigitChars 10 l 0) h
  rwa [Nat.ofDigitChars_toDigits (by omega) (by omega),
    Nat.ofDigitChars_toDigits (by omega) (by omega)] at hread

theorem notMem_repr (hc : c.isDigit = false) (n : Nat) : c ∉ n.repr.toList := by
  rw [Nat.toList_repr]
  intro hmem
  have hdigit := Nat.isDigit_of_mem_toDigits (by omega) (by omega) hmem
  exact absurd hdigit (by simp [hc])

theorem intRepr_negSucc (n : Nat) : (Int.negSucc n).repr.toList = '-' :: (n + 1).repr.toList := by
  show ("-" ++ (n + 1).repr).toList = _
  rw [String.toList_append]
  rfl

theorem intRepr_inj {a b : Int} (h : a.repr.toList = b.repr.toList) : a = b := by
  have hdash : ∀ n : Nat, '-' ∉ n.repr.toList := notMem_repr rfl
  cases a with
  | ofNat a =>
    cases b with
    | ofNat b => exact congrArg Int.ofNat (repr_inj h)
    | negSucc b =>
      rw [intRepr_negSucc] at h
      exact absurd (h ▸ List.mem_cons_self) (hdash a)
  | negSucc a =>
    cases b with
    | ofNat b =>
      rw [intRepr_negSucc] at h
      exact absurd (h ▸ List.mem_cons_self) (hdash b)
    | negSucc b =>
      rw [intRepr_negSucc, intRepr_negSucc] at h
      have hsucc := repr_inj (List.cons.inj h).2
      rw [Nat.succ.inj hsucc]

theorem notMem_intRepr (hc : c.isDigit = false) (hdash : c ≠ '-') (n : Int) :
    c ∉ n.repr.toList := by
  cases n with
  | ofNat n => exact notMem_repr hc n
  | negSucc n =>
    rw [intRepr_negSucc, List.mem_cons, not_or]
    exact ⟨hdash, notMem_repr hc _⟩

/-! ## Bytes -/

/-- The bytes of a text. -/
def bytes (s : String) : List UInt8 := s.toList.flatMap String.utf8EncodeChar

@[simp] theorem bytes_append (s t : String) : bytes (s ++ t) = bytes s ++ bytes t := by
  unfold bytes
  rw [String.toList_append, List.flatMap_append]

theorem bytes_join (l : List String) : bytes (String.join l) = (l.map bytes).flatten := by
  unfold bytes
  rw [String.toList_join]
  induction l with
  | nil => rfl
  | cons s l ih =>
    rw [List.flatMap_cons, List.flatMap_append, ih, List.map_cons, List.flatten_cons]

theorem length_utf8EncodeChar_digit (h : c.isDigit = true) :
    (String.utf8EncodeChar c).length = 1 := by
  rw [String.length_utf8EncodeChar, Char.utf8Size_eq_one_iff]
  have hle := (Bool.and_eq_true_iff.mp h).2
  exact UInt32.le_trans (of_decide_eq_true hle) (by decide)

theorem length_bytes_repr (n : Nat) : (bytes n.repr).length = n.repr.length := by
  have hdigits : ∀ c ∈ n.repr.toList, c.isDigit = true := by
    intro c hc
    rw [Nat.toList_repr] at hc
    exact Nat.isDigit_of_mem_toDigits (by omega) (by omega) hc
  unfold bytes
  rw [← String.length_toList]
  generalize n.repr.toList = l at hdigits
  induction l with
  | nil => rfl
  | cons c l ih =>
    rw [List.flatMap_cons, List.length_append,
      length_utf8EncodeChar_digit (hdigits c List.mem_cons_self),
      ih fun d hd => hdigits d (List.mem_cons_of_mem c hd), List.length_cons, Nat.add_comm]

theorem length_bytes_intRepr (n : Int) :
    (bytes n.repr).length ≤ n.natAbs.repr.length + 1 := by
  cases n with
  | ofNat n =>
    show (bytes n.repr).length ≤ n.repr.length + 1
    rw [length_bytes_repr]
    omega
  | negSucc n =>
    show (bytes ("-" ++ (n + 1).repr)).length ≤ (n + 1).repr.length + 1
    rw [bytes_append, List.length_append, length_bytes_repr, Nat.add_comm]
    exact Nat.le_refl _

/-! ## Addresses -/

/-- What `%p` prints for an address. -/
def fmtPointer (ptr : Nat) : String := "0x" ++ String.ofList (Nat.toDigits 16 ptr)

theorem digitChar_inj : ∀ a < 16, ∀ b < 16, Nat.digitChar a = Nat.digitChar b → a = b := by
  decide

/-- A number is read back from its hexadecimal digits. -/
theorem toDigits_inj {a b : Nat} (h : Nat.toDigits 16 a = Nat.toDigits 16 b) : a = b := by
  induction a using Nat.strongRecOn generalizing b with
  | ind a ih =>
    rw [Nat.toDigits_eq_if (by omega), Nat.toDigits_eq_if (n := b) (by omega)] at h
    -- a text of one digit is a number below the base
    by_cases ha : a < 16
    · by_cases hb : b < 16
      · rw [if_pos ha, if_pos hb] at h
        exact digitChar_inj a ha b hb (List.singleton_inj.mp h)
      · rw [if_pos ha, if_neg hb] at h
        have hlen := congrArg List.length h
        have hpos : 0 < (Nat.toDigits 16 (b / 16)).length := Nat.length_toDigits_pos
        simp only [List.length_singleton, List.length_append] at hlen
        omega
    · by_cases hb : b < 16
      · rw [if_neg ha, if_pos hb] at h
        have hlen := congrArg List.length h
        have hpos : 0 < (Nat.toDigits 16 (a / 16)).length := Nat.length_toDigits_pos
        simp only [List.length_singleton, List.length_append] at hlen
        omega
      · rw [if_neg ha, if_neg hb] at h
        obtain ⟨hq, hr⟩ := List.append_inj' h rfl
        have hq := ih (a / 16) (by omega) hq
        have hr := digitChar_inj (a % 16) (by omega) (b % 16) (by omega)
          (List.singleton_inj.mp hr)
        omega

theorem mem_toDigits {n : Nat} (h : c ∈ Nat.toDigits 16 n) :
    ∃ d < 16, c = Nat.digitChar d := by
  induction n using Nat.strongRecOn with
  | ind n ih =>
    rw [Nat.toDigits_eq_if (by omega)] at h
    by_cases hn : n < 16
    · rw [if_pos hn] at h
      exact ⟨n, hn, List.mem_singleton.mp h⟩
    · rw [if_neg hn] at h
      rcases List.mem_append.mp h with h | h
      · exact ih (n / 16) (by omega) h
      · exact ⟨n % 16, by omega, List.mem_singleton.mp h⟩

theorem toList_fmtPointer (ptr : Nat) :
    (fmtPointer ptr).toList = '0' :: 'x' :: Nat.toDigits 16 ptr := by
  simp [fmtPointer]

theorem fmtPointer_inj {a b : Nat} (h : (fmtPointer a).toList = (fmtPointer b).toList) : a = b := by
  rw [toList_fmtPointer, toList_fmtPointer] at h
  exact toDigits_inj (List.cons.inj (List.cons.inj h).2).2

/-- A character that is neither a digit nor the `x` of the prefix is not in the
text of an address. -/
theorem notMem_fmtPointer (hx : c ≠ 'x') (hd : ∀ d < 16, c ≠ Nat.digitChar d) (ptr : Nat) :
    c ∉ (fmtPointer ptr).toList := by
  rw [toList_fmtPointer]
  intro h
  rcases List.mem_cons.mp h with h | h
  · exact hd 0 (by omega) h
  rcases List.mem_cons.mp h with h | h
  · exact hx h
  obtain ⟨d, hlt, rfl⟩ := mem_toDigits h
  exact hd d hlt rfl

end Hypergate.Lib
