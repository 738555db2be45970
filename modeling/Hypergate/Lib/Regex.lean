import Mathlib.Data.List.Basic
import Mathlib.Data.Set.Basic

/-!
# Regular expressions

The part of the usual pattern language that is regular: texts, character classes,
sequences, alternatives, groups and bounded or unbounded repetition.

* `Regex.lang` — the words an expression stands for.
* `Regex.accepts` — the matcher, by derivatives; `Regex.accepts_iff` says that it decides
  the language.
* `Regex.text` — the expression as it is written.
-/

namespace Hypergate.Lib

/-- A regular expression. `?`, `*`, `+` and `{m,n}` are all `rep`; no upper bound is
`none`. -/
inductive Regex where
  | lit (text : List Char)
  | cls (negated : Bool) (ranges : List (Char × Char))
  | seq (r s : Regex)
  | alt (r s : Regex)
  | group (r : Regex)
  | rep (r : Regex) (min : Nat) (max : Option Nat)

namespace Regex

/-- The expression for no word. -/
def fail : Regex := .cls false []

def opt (r : Regex) : Regex := .rep r 0 (some 1)

def star (r : Regex) : Regex := .rep r 0 none

def plus (r : Regex) : Regex := .rep r 1 none

def seqs (rs : List Regex) : Regex := rs.foldr .seq (.lit [])

/-- Alternatives, the first one apart. -/
def alts (r : Regex) : List Regex → Regex
  | [] => r
  | s :: rs => .alt r (alts s rs)

/-! ## How an expression is written -/

def rangeText (range : Char × Char) : List Char :=
  if range.1 = range.2 then [range.1] else [range.1, '-', range.2]

/-- A character outside a class, escaped if it means something else. -/
def escape (c : Char) : List Char :=
  if c ∈ ['*', '.', '+', '?', '(', ')', '|'] then ['\\', c] else [c]

def repText (min : Nat) : Option Nat → List Char
  | none =>
    if min = 0 then ['*']
    else if min = 1 then ['+']
    else '\x7b' :: min.repr.toList ++ [',', '\x7d']
  | some max =>
    if min = 0 ∧ max = 1 then ['?']
    else '\x7b' :: min.repr.toList ++ ',' :: max.repr.toList ++ ['\x7d']

def text : Regex → List Char
  | lit s => s.flatMap escape
  | cls negated ranges =>
    '[' :: (if negated then ['^'] else []) ++ ranges.flatMap rangeText ++ [']']
  | seq r s => r.text ++ s.text
  | alt r s => r.text ++ '|' :: s.text
  | group r => '(' :: r.text ++ [')']
  | rep r min max => r.text ++ repText min max

/-! ## The words of an expression -/

/-- The character is in the class. -/
def inClass (negated : Bool) (ranges : List (Char × Char)) (c : Char) : Bool :=
  negated != ranges.any fun range => range.1 ≤ c && c ≤ range.2

/-- The upper bound allows `n` repetitions. -/
def Allows (n : Nat) (max : Option Nat) : Prop := ∀ m, max = some m → n ≤ m

instance (n : Nat) (max : Option Nat) : Decidable (Allows n max) :=
  match max with
  | none => isTrue fun _ h => absurd h (by simp)
  | some m => decidable_of_iff (n ≤ m) ⟨fun h _ hm => Option.some.inj hm ▸ h, fun h => h m rfl⟩

/-- The language of an expression. -/
def lang : Regex → Set (List Char)
  | lit s => {s}
  | cls negated ranges => {w | ∃ c, inClass negated ranges c = true ∧ w = [c]}
  | seq r s => {w | ∃ u ∈ r.lang, ∃ v ∈ s.lang, w = u ++ v}
  | alt r s => {w | w ∈ r.lang ∨ w ∈ s.lang}
  | group r => r.lang
  | rep r min max =>
    {w | ∃ ws : List (List Char), (∀ u ∈ ws, u ∈ r.lang) ∧ w = ws.flatten
      ∧ min ≤ ws.length ∧ Allows ws.length max}

section Language

variable {r s : Regex} {w u v : List Char} {c : Char} {min : Nat} {max : Option Nat}

@[simp] theorem mem_lit {text : List Char} : w ∈ (lit text).lang ↔ w = text := Iff.rfl

variable {ranges : List (Char × Char)} {negated : Bool}

@[simp] theorem mem_cls :
    w ∈ (cls negated ranges).lang ↔ ∃ c, inClass negated ranges c = true ∧ w = [c] := Iff.rfl

theorem notMem_fail : w ∉ fail.lang := by
  rintro ⟨c, hc, -⟩
  cases hc

theorem append_mem_seq (hu : u ∈ r.lang) (hv : v ∈ s.lang) : u ++ v ∈ (seq r s).lang :=
  ⟨u, hu, v, hv, rfl⟩

theorem mem_seqs {rs : List Regex} (ws : List (List Char)) (h : w = ws.flatten)
    (hws : List.Forall₂ (fun w r => w ∈ r.lang) ws rs) : w ∈ (seqs rs).lang := by
  subst h
  induction hws with
  | nil => exact rfl
  | cons hw _ ih => exact append_mem_seq hw ih

theorem mem_alts {rs : List Regex} :
    w ∈ (alts r rs).lang ↔ ∃ s ∈ r :: rs, w ∈ s.lang := by
  induction rs generalizing r with
  | nil => simp [alts]
  | cons s rs ih =>
    show w ∈ r.lang ∨ w ∈ (alts s rs).lang ↔ _
    rw [ih]
    simp only [List.mem_cons, exists_eq_or_imp]

theorem mem_rep_cls (h : ∀ c ∈ w, inClass negated ranges c = true) (hmin : min ≤ w.length)
    (hmax : Allows w.length max) : w ∈ (rep (cls negated ranges) min max).lang := by
  refine ⟨w.map fun c => [c], ?_, ?_, ?_, ?_⟩
  · intro u hu
    obtain ⟨c, hc, rfl⟩ := List.mem_map.mp hu
    exact ⟨c, h c hc, rfl⟩
  · rw [← List.flatMap_def, List.flatMap_singleton']
  · rwa [List.length_map]
  · rwa [List.length_map]

theorem mem_star_cls (h : ∀ c ∈ w, inClass negated ranges c = true) :
    w ∈ (star (cls negated ranges)).lang :=
  mem_rep_cls h (Nat.zero_le _) fun _ hm => absurd hm (by simp)

theorem mem_plus_cls (h : ∀ c ∈ w, inClass negated ranges c = true) (hne : w ≠ []) :
    w ∈ (plus (cls negated ranges)).lang :=
  mem_rep_cls h (List.length_pos_iff.mpr hne) fun _ hm => absurd hm (by simp)

theorem nil_mem_opt : [] ∈ (opt r).lang :=
  ⟨[], fun _ h => absurd h (by simp), rfl, Nat.zero_le _, fun _ _ => Nat.zero_le _⟩

theorem mem_opt (h : w ∈ r.lang) : w ∈ (opt r).lang := by
  refine ⟨[w], fun u hu => ?_, by simp, Nat.zero_le _, fun m hm => ?_⟩
  · rwa [List.mem_singleton.mp hu]
  · rw [← Option.some.inj hm]
    exact Nat.le_refl 1

/-! ## Matching -/

/-- The empty word is in the language. -/
def nullable : Regex → Bool
  | lit s => s.isEmpty
  | cls _ _ => false
  | seq r s => r.nullable && s.nullable
  | alt r s => r.nullable || s.nullable
  | group r => r.nullable
  | rep r min max => decide (Allows min max) && (min == 0 || r.nullable)

theorem nullable_iff (r : Regex) : r.nullable = true ↔ [] ∈ r.lang := by
  induction r with
  | lit s =>
    rw [nullable, List.isEmpty_iff, mem_lit]
    exact eq_comm
  | cls negated ranges => simp [nullable]
  | seq r s ihr ihs =>
    rw [nullable, Bool.and_eq_true, ihr, ihs]
    constructor
    · rintro ⟨hr, hs⟩
      exact ⟨[], hr, [], hs, rfl⟩
    · rintro ⟨u, hu, v, hv, huv⟩
      obtain ⟨rfl, rfl⟩ := List.append_eq_nil_iff.mp huv.symm
      exact ⟨hu, hv⟩
  | alt r s ihr ihs =>
    rw [nullable, Bool.or_eq_true, ihr, ihs]
    rfl
  | group r ih => exact ih
  | rep r min max ih =>
    rw [nullable, Bool.and_eq_true, decide_eq_true_iff, Bool.or_eq_true, beq_iff_eq, ih]
    constructor
    · rintro ⟨hmax, hmin⟩
      -- as many empty words as the lower bound asks for
      refine ⟨List.replicate min [], fun u hu => ?_, by simp, by simp, by simpa using hmax⟩
      obtain ⟨hpos, rfl⟩ := List.mem_replicate.mp hu
      exact hmin.resolve_left hpos
    · rintro ⟨ws, hws, hflat, hmin, hmax⟩
      refine ⟨fun m hm => Nat.le_trans hmin (hmax m hm), ?_⟩
      cases ws with
      | nil => exact .inl (Nat.le_zero.mp hmin)
      | cons u ws =>
        have hu : u = [] := (List.append_eq_nil_iff.mp hflat.symm).1
        exact .inr (hu ▸ hws u List.mem_cons_self)

/-- The expression for what may follow the character. -/
def deriv (c : Char) : Regex → Regex
  | lit [] => fail
  | lit (d :: s) => if d = c then lit s else fail
  | cls negated ranges => if inClass negated ranges c then lit [] else fail
  | seq r s =>
    if r.nullable then .alt (.seq (r.deriv c) s) (s.deriv c) else .seq (r.deriv c) s
  | alt r s => .alt (r.deriv c) (s.deriv c)
  | group r => r.deriv c
  | rep r min max =>
    if max = some 0 then fail else .seq (r.deriv c) (.rep r (min - 1) (max.map (· - 1)))

/-- The first word that is not empty starts with the first character. -/
theorem exists_first_nonempty {ws : List (List Char)} (h : ws.flatten = c :: w) :
    ∃ pre u post, ws = pre ++ (c :: u) :: post ∧ pre.flatten = [] ∧ w = u ++ post.flatten := by
  induction ws with
  | nil => cases h
  | cons x ws ih =>
    cases x with
    | nil =>
      obtain ⟨pre, u, post, hws, hpre, hw⟩ := ih h
      exact ⟨[] :: pre, u, post, by rw [hws]; rfl, hpre, hw⟩
    | cons d u =>
      obtain ⟨rfl, hw⟩ := List.cons.inj h
      exact ⟨[], u, ws, rfl, rfl, hw.symm⟩

theorem cons_mem_rep_iff :
    c :: w ∈ (rep r min max).lang ↔ max ≠ some 0
      ∧ ∃ u, c :: u ∈ r.lang ∧ ∃ v ∈ (rep r (min - 1) (max.map (· - 1))).lang, w = u ++ v := by
  constructor
  · rintro ⟨ws, hws, hflat, hmin, hmax⟩
    obtain ⟨pre, u, post, rfl, hpre, rfl⟩ := exists_first_nonempty hflat.symm
    simp only [List.length_append, List.length_cons] at hmin hmax
    refine ⟨?_, u, hws _ (by simp), post.flatten, ⟨pre ++ post, ?_, ?_, ?_, ?_⟩, rfl⟩
    · rintro rfl
      exact absurd (hmax 0 rfl) (by omega)
    · intro x hx
      refine hws x ?_
      rcases List.mem_append.mp hx with hx | hx
      · exact List.mem_append_left _ hx
      · exact List.mem_append_right _ (List.mem_cons_of_mem _ hx)
    · rw [List.flatten_append, hpre, List.nil_append]
    · rw [List.length_append]
      omega
    · intro m hm
      obtain ⟨m', hm', rfl⟩ := Option.map_eq_some_iff.mp hm
      have := hmax m' hm'
      rw [List.length_append]
      omega
  · rintro ⟨hpos, u, hu, v, ⟨ws, hws, rfl, hmin, hmax⟩, rfl⟩
    refine ⟨(c :: u) :: ws, ?_, rfl, ?_, ?_⟩
    · intro x hx
      rcases List.mem_cons.mp hx with rfl | hx
      · exact hu
      · exact hws x hx
    · rw [List.length_cons]
      omega
    · intro m hm
      have hm0 : m ≠ 0 := fun h0 => hpos (h0 ▸ hm)
      have := hmax (m - 1) (by rw [hm]; rfl)
      rw [List.length_cons]
      omega

theorem mem_deriv_iff (r : Regex) (w : List Char) : w ∈ (r.deriv c).lang ↔ c :: w ∈ r.lang := by
  induction r generalizing w with
  | lit s =>
    cases s with
    | nil => simp [deriv, notMem_fail]
    | cons d s =>
      by_cases hd : d = c
      · simp [deriv, hd]
      · have hd' : ¬ c = d := fun h => hd h.symm
        simp [deriv, hd, hd', notMem_fail]
  | cls negated ranges =>
    by_cases hc : inClass negated ranges c = true
    · simp [deriv, hc]
    · rw [deriv, if_neg hc]
      constructor
      · exact fun h => absurd h notMem_fail
      · rintro ⟨d, hd, heq⟩
        obtain ⟨rfl, -⟩ := List.cons.inj heq
        exact absurd hd hc
  | seq r s ihr ihs =>
    have hleft : w ∈ (seq (r.deriv c) s).lang
        ↔ ∃ u, c :: u ∈ r.lang ∧ ∃ v ∈ s.lang, w = u ++ v := by
      constructor
      · rintro ⟨u, hu, v, hv, rfl⟩
        exact ⟨u, (ihr u).mp hu, v, hv, rfl⟩
      · rintro ⟨u, hu, v, hv, rfl⟩
        exact ⟨u, (ihr u).mpr hu, v, hv, rfl⟩
    -- the word of `r` is empty, or has the character
    have hsplit : c :: w ∈ (seq r s).lang
        ↔ w ∈ (seq (r.deriv c) s).lang ∨ [] ∈ r.lang ∧ c :: w ∈ s.lang := by
      rw [hleft]
      constructor
      · rintro ⟨u, hu, v, hv, huv⟩
        cases u with
        | nil => exact .inr ⟨hu, huv ▸ hv⟩
        | cons d u =>
          obtain ⟨rfl, rfl⟩ := List.cons.inj huv
          exact .inl ⟨u, hu, v, hv, rfl⟩
      · rintro (⟨u, hu, v, hv, rfl⟩ | ⟨hnil, hs⟩)
        · exact ⟨c :: u, hu, v, hv, rfl⟩
        · exact ⟨[], hnil, c :: w, hs, rfl⟩
    rw [hsplit, deriv, ← nullable_iff]
    by_cases hnull : r.nullable = true
    · rw [if_pos hnull, ← ihs]
      simp only [hnull, true_and]
      rfl
    · rw [if_neg hnull]
      simp only [hnull, Bool.false_eq_true, false_and, or_false]
  | alt r s ihr ihs =>
    show w ∈ (r.deriv c).lang ∨ w ∈ (s.deriv c).lang ↔ _
    rw [ihr, ihs]
    rfl
  | group r ih => exact ih w
  | rep r min max ih =>
    rw [cons_mem_rep_iff, deriv]
    by_cases hmax : max = some 0
    · rw [if_pos hmax]
      exact ⟨fun h => absurd h notMem_fail, fun h => absurd hmax h.1⟩
    · rw [if_neg hmax]
      constructor
      · rintro ⟨u, hu, v, hv, rfl⟩
        exact ⟨hmax, u, (ih u).mp hu, v, hv, rfl⟩
      · rintro ⟨-, u, hu, v, hv, rfl⟩
        exact ⟨u, (ih u).mpr hu, v, hv, rfl⟩

/-- The word is one of the expression's. -/
def accepts (r : Regex) (w : List Char) : Bool := (w.foldl (fun r c => r.deriv c) r).nullable

theorem accepts_iff (r : Regex) (w : List Char) : r.accepts w = true ↔ w ∈ r.lang := by
  unfold accepts
  induction w generalizing r with
  | nil => exact nullable_iff r
  | cons c w ih =>
    rw [List.foldl_cons, ih, mem_deriv_iff]

end Language

end Regex

end Hypergate.Lib
