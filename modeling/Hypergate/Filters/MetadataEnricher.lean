import Hypergate.Lib.AMap
import Hypergate.Lib.Strings

/-!
# Redis keys from a pattern (`internal/filters/redis_metadata_enricher`)

`compileRedisKey` copies the key pattern into a buffer and puts the values of variables in
the place of `{name}`. The loop searches the next `{` and from there the next `}`, and goes
on behind it. Go strings are byte strings; slicing one beyond its ends would panic.

- `Expands`: reading a pattern from left to right, said without the loop; `Expands.unique`.
- `compileLoop_expands`: from any position the loop ends and appends the expansion of the
  rest of the pattern.
- `compile_redis_key_right`: so it is for every pattern, buffer and map of variables.
-/

namespace Hypergate.Filters

open Lib

/-- A Go string. -/
abbrev Bytes := List UInt8

/-- `'{'`. -/
def openBrace : UInt8 := 0x7b

/-- `'}'`. -/
def closeBrace : UInt8 := 0x7d

/-- Why a computation did not end with a result. -/
inductive Stop where
  | outOfFuel
  | panicked

/-- `s[lo:hi]`. -/
def slice (s : Bytes) (lo hi : Nat) : Except Stop Bytes :=
  if lo ≤ hi ∧ hi ≤ s.length then .ok ((s.drop lo).take (hi - lo)) else .error .panicked

/-- `RedisMetadataEnricherFilter`, the part that `compileRedisKey` reads. -/
structure RedisMetadataEnricherFilter where
  keyPattern : Bytes

namespace RedisMetadataEnricherFilter

variable (f : RedisMetadataEnricherFilter) (vars : AMap Bytes Bytes)

/-- The loop of `compileRedisKey`, from position `i` on. -/
def compileLoop : Nat → Nat → Bytes → Except Stop Bytes
  | 0, _, _ => .error .outOfFuel
  | fuel + 1, i, buf =>
    if f.keyPattern.length ≤ i then .ok buf
    else do
      let rest ← slice f.keyPattern i f.keyPattern.length
      match rest.idxOf? openBrace with
      | none => .ok (buf ++ rest)
      | some start =>
        let plain ← slice f.keyPattern i (i + start)
        let rest ← slice f.keyPattern (i + start) f.keyPattern.length
        match rest.idxOf? closeBrace with
        | none => .ok (buf ++ plain ++ rest)
        | some stop =>
          let varName ← slice f.keyPattern (i + start + 1) (i + start + stop)
          match vars.lookup varName with
          | some resolved =>
            compileLoop fuel (i + start + stop + 1) (buf ++ plain ++ resolved)
          | none =>
            let kept ← slice f.keyPattern (i + start) (i + start + stop + 1)
            compileLoop fuel (i + start + stop + 1) (buf ++ plain ++ kept)

/-- `compileRedisKey`, given a bound on the number of iterations. -/
def compileRedisKey (fuel : Nat) (buf : Bytes) : Except Stop Bytes :=
  f.compileLoop vars fuel 0 buf

end RedisMetadataEnricherFilter

/-! ## Reading a pattern -/

/-- A pattern, read from left to right, and what it stands for. A `{` begins a stretch that
goes to the next `}`; the reading goes on behind it, whatever the stretch was replaced by. -/
inductive Expands (vars : AMap Bytes Bytes) : Bytes → Bytes → Prop
  | done : Expands vars [] []
  | text {b : UInt8} {rest out : Bytes} (hb : b ≠ openBrace) (h : Expands vars rest out) :
      Expands vars (b :: rest) (b :: out)
  | unclosed {rest : Bytes} (hrest : closeBrace ∉ rest) :
      Expands vars (openBrace :: rest) (openBrace :: rest)
  | known {name value rest out : Bytes} (hname : closeBrace ∉ name)
      (hvalue : vars.lookup name = some value) (h : Expands vars rest out) :
      Expands vars (openBrace :: (name ++ closeBrace :: rest)) (value ++ out)
  | unknown {name rest out : Bytes} (hname : closeBrace ∉ name)
      (hvalue : vars.lookup name = none) (h : Expands vars rest out) :
      Expands vars (openBrace :: (name ++ closeBrace :: rest))
        (openBrace :: (name ++ closeBrace :: out))

/-- What a stretch with that inside is replaced by. -/
def replacement (vars : AMap Bytes Bytes) (name : Bytes) : Bytes :=
  match vars.lookup name with
  | some value => value
  | none => openBrace :: (name ++ [closeBrace])

namespace Expands

variable {vars : AMap Bytes Bytes}

theorem stretch {name rest out : Bytes} (hname : closeBrace ∉ name) (h : Expands vars rest out) :
    Expands vars (openBrace :: (name ++ closeBrace :: rest)) (replacement vars name ++ out) := by
  unfold replacement
  cases hvalue : vars.lookup name with
  | some value => exact .known hname hvalue h
  | none =>
    have hkept := Expands.unknown hname hvalue h
    simpa using hkept

theorem of_stretch {name rest out : Bytes} (hname : closeBrace ∉ name)
    (h : Expands vars (openBrace :: (name ++ closeBrace :: rest)) out) :
    ∃ tail, Expands vars rest tail ∧ out = replacement vars name ++ tail := by
  generalize hpattern : openBrace :: (name ++ closeBrace :: rest) = pattern at h
  cases h with
  | done => cases hpattern
  | text hb _ => exact absurd (List.cons.inj hpattern).1.symm hb
  | unclosed hrest =>
    refine absurd ?_ hrest
    rw [← (List.cons.inj hpattern).2]
    simp
  | known hname' hvalue h =>
    obtain ⟨rfl, rfl⟩ := sep_append_inj hname hname' (List.cons.inj hpattern).2
    exact ⟨_, h, by rw [replacement, hvalue]⟩
  | unknown hname' hvalue h =>
    obtain ⟨rfl, rfl⟩ := sep_append_inj hname hname' (List.cons.inj hpattern).2
    exact ⟨_, h, by rw [replacement, hvalue]; simp⟩

theorem unique {pattern out out' : Bytes} (h : Expands vars pattern out)
    (h' : Expands vars pattern out') : out' = out := by
  induction h generalizing out' with
  | done =>
    cases h'
    rfl
  | text hb _ ih =>
    cases h' with
    | text _ h' => rw [ih h']
    | unclosed => exact absurd rfl hb
    | known => exact absurd rfl hb
    | unknown => exact absurd rfl hb
  | unclosed hrest =>
    cases h' with
    | text hb _ => exact absurd rfl hb
    | unclosed => rfl
    | known => exact absurd (by simp) hrest
    | unknown => exact absurd (by simp) hrest
  | known hname hvalue _ ih =>
    obtain ⟨tail, htail, rfl⟩ := of_stretch hname h'
    rw [ih htail, replacement, hvalue]
  | unknown hname hvalue _ ih =>
    obtain ⟨tail, htail, rfl⟩ := of_stretch hname h'
    rw [ih htail, replacement, hvalue]
    simp

theorem plain {plain rest out : Bytes} (hplain : openBrace ∉ plain)
    (h : Expands vars rest out) : Expands vars (plain ++ rest) (plain ++ out) := by
  induction plain with
  | nil => exact h
  | cons b plain ih =>
    have hb : b ≠ openBrace := fun heq => hplain (heq ▸ List.mem_cons_self)
    exact .text hb (ih fun hm => hplain (List.mem_cons_of_mem _ hm))

end Expands

/-! ## The loop -/

theorem idxOf?_append_cons {sep : UInt8} {a b : Bytes} (h : sep ∉ a) :
    (a ++ sep :: b).idxOf? sep = some a.length := by
  rw [List.idxOf?_eq_some_iff]
  refine ⟨by simp, by simp, fun j hj => ?_⟩
  rw [List.getElem_append_left hj]
  exact fun heq => h (heq ▸ List.getElem_mem hj)

namespace RedisMetadataEnricherFilter

variable {f : RedisMetadataEnricherFilter} {vars : AMap Bytes Bytes} {before rest : Bytes}

/-- A slice of the pattern, between what stands before it and behind it. -/
theorem slice_pattern {a b c : Bytes} (h : f.keyPattern = a ++ (b ++ c)) {lo hi : Nat}
    (hlo : lo = a.length) (hhi : hi = a.length + b.length) :
    slice f.keyPattern lo hi = .ok b := by
  unfold slice
  rw [h, hlo, hhi, if_pos ⟨by omega, by simp⟩]
  simp

theorem slice_rest {a b : Bytes} (h : f.keyPattern = a ++ b) {lo : Nat} (hlo : lo = a.length) :
    slice f.keyPattern lo f.keyPattern.length = .ok b := by
  refine slice_pattern (c := []) ?_ hlo ?_
  · rw [h, List.append_nil]
  · rw [h, List.length_append]

theorem compileLoop_text (h : f.keyPattern = before ++ rest) (hrest : openBrace ∉ rest)
    (fuel : Nat) (buf : Bytes) :
    f.compileLoop vars (fuel + 1) before.length buf = .ok (buf ++ rest) := by
  rw [compileLoop]
  split
  · rename_i hend
    rw [h, List.length_append] at hend
    rw [List.length_eq_zero_iff.mp (by omega : rest.length = 0), List.append_nil]
  · rw [slice_rest h rfl]
    simp only [bind, Except.bind, List.idxOf?_eq_none_iff.mpr hrest]

theorem not_end {plain tail : Bytes} (h : f.keyPattern = before ++ (plain ++ openBrace :: tail)) :
    ¬ f.keyPattern.length ≤ before.length := by
  rw [h]
  simp only [List.length_append, List.length_cons]
  omega

/-- A `{` that is not closed is copied with all behind it. -/
theorem compileLoop_unclosed {plain tail : Bytes}
    (h : f.keyPattern = before ++ (plain ++ openBrace :: tail)) (hplain : openBrace ∉ plain)
    (htail : closeBrace ∉ tail) (fuel : Nat) (buf : Bytes) :
    f.compileLoop vars (fuel + 1) before.length buf
      = .ok (buf ++ plain ++ openBrace :: tail) := by
  have hopen : f.keyPattern = (before ++ plain) ++ openBrace :: tail := by
    rw [h, List.append_assoc]
  have hclose : closeBrace ∉ openBrace :: tail := by
    rw [List.mem_cons, not_or]
    exact ⟨by decide, htail⟩
  rw [compileLoop, if_neg (not_end h), slice_rest h rfl]
  simp only [bind, Except.bind, idxOf?_append_cons hplain, slice_pattern h rfl rfl,
    slice_rest hopen List.length_append.symm, List.idxOf?_eq_none_iff.mpr hclose]

/-- A stretch is replaced, and the loop goes on behind it. -/
theorem compileLoop_stretch {plain name tail : Bytes}
    (h : f.keyPattern = before ++ (plain ++ openBrace :: (name ++ closeBrace :: tail)))
    (hplain : openBrace ∉ plain) (hname : closeBrace ∉ name) (fuel : Nat) (buf : Bytes) :
    f.compileLoop vars (fuel + 1) before.length buf
      = f.compileLoop vars fuel (before.length + plain.length + (name.length + 1) + 1)
          (buf ++ plain ++ replacement vars name) := by
  -- the pattern, as each of the slices sees it
  have hopen : f.keyPattern = (before ++ plain) ++ ((openBrace :: name) ++ closeBrace :: tail) := by
    simp [h]
  have hinside :
      f.keyPattern = (before ++ plain ++ [openBrace]) ++ (name ++ closeBrace :: tail) := by
    simp [h]
  have hwhole : f.keyPattern
      = (before ++ plain) ++ ((openBrace :: (name ++ [closeBrace])) ++ tail) := by
    simp [h]
  have hname₁ : slice f.keyPattern (before.length + plain.length + 1)
      (before.length + plain.length + (name.length + 1)) = .ok name :=
    slice_pattern hinside (by simp +arith) (by simp +arith)
  have hkept : slice f.keyPattern (before.length + plain.length)
      (before.length + plain.length + (name.length + 1) + 1)
        = .ok (openBrace :: (name ++ [closeBrace])) :=
    slice_pattern hwhole (by simp +arith) (by simp +arith)
  have hclose : closeBrace ∉ openBrace :: name := by
    rw [List.mem_cons, not_or]
    exact ⟨by decide, hname⟩
  rw [compileLoop, if_neg (not_end h), slice_rest h rfl]
  simp only [bind, Except.bind, idxOf?_append_cons hplain, slice_pattern h rfl rfl,
    slice_rest hopen List.length_append.symm, idxOf?_append_cons hclose, List.length_cons, hname₁,
    hkept]
  unfold replacement
  cases vars.lookup name with
  | some value => rfl
  | none => rfl

/-- From any position the loop ends, and appends what the rest of the pattern stands for.
The rest gets shorter with every stretch. -/
theorem compileLoop_expands (h : f.keyPattern = before ++ rest) :
    ∃ out, Expands vars rest out ∧ ∀ fuel buf, rest.length < fuel →
      f.compileLoop vars fuel before.length buf = .ok (buf ++ out) := by
  induction hn : rest.length using Nat.strong_induction_on generalizing before rest with
  | _ n ih =>
    subst hn
    by_cases hopen : openBrace ∈ rest
    · obtain ⟨plain, tail, rfl, hplain⟩ := List.eq_append_cons_of_mem hopen
      by_cases hclose : closeBrace ∈ tail
      · obtain ⟨name, tail, rfl, hname⟩ := List.eq_append_cons_of_mem hclose
        have hnext : f.keyPattern
            = (before ++ (plain ++ openBrace :: (name ++ [closeBrace]))) ++ tail := by simp [h]
        obtain ⟨out, hout, hloop⟩ := ih tail.length (by simp; omega) hnext rfl
        refine ⟨plain ++ (replacement vars name ++ out), .plain hplain (.stretch hname hout), ?_⟩
        intro fuel buf hfuel
        obtain ⟨fuel, rfl⟩ : ∃ m, fuel = m + 1 := ⟨fuel - 1, by omega⟩
        have hpassed : before.length + plain.length + (name.length + 1) + 1
            = (before ++ (plain ++ openBrace :: (name ++ [closeBrace]))).length := by simp +arith
        have hshorter : tail.length < fuel := by
          simp only [List.length_append, List.length_cons] at hfuel
          omega
        rw [compileLoop_stretch h hplain hname, hpassed, hloop fuel _ hshorter]
        simp
      · refine ⟨plain ++ openBrace :: tail, .plain hplain (.unclosed hclose), ?_⟩
        intro fuel buf hfuel
        obtain ⟨fuel, rfl⟩ : ∃ m, fuel = m + 1 := ⟨fuel - 1, by omega⟩
        rw [compileLoop_unclosed h hplain hclose, List.append_assoc]
    · refine ⟨rest, ?_, ?_⟩
      · have hplain : Expands vars (rest ++ []) (rest ++ []) := .plain hopen .done
        rwa [List.append_nil] at hplain
      · intro fuel buf hfuel
        obtain ⟨fuel, rfl⟩ : ∃ m, fuel = m + 1 := ⟨fuel - 1, by omega⟩
        exact compileLoop_text h hopen fuel buf

end RedisMetadataEnricherFilter

/-- For every pattern and every map of variables there is one text that the pattern stands
for, and `compileRedisKey` ends, after at most one iteration more than the pattern is long,
with that text appended to the buffer. -/
theorem compile_redis_key_right (f : RedisMetadataEnricherFilter) (vars : AMap Bytes Bytes) :
    ∃ out, Expands vars f.keyPattern out
      ∧ (∀ out', Expands vars f.keyPattern out' → out' = out)
      ∧ ∀ fuel buf, f.keyPattern.length < fuel →
          f.compileRedisKey vars fuel buf = .ok (buf ++ out) := by
  have hstart : f.keyPattern = [] ++ f.keyPattern := rfl
  obtain ⟨out, hout, hloop⟩ := RedisMetadataEnricherFilter.compileLoop_expands hstart
  exact ⟨out, hout, fun out' hout' => hout.unique hout', hloop⟩

-- With a variable b, the pattern {b}{a{b} gives its value once: a brace in a stretch is
-- part of the name.
example : RedisMetadataEnricherFilter.compileRedisKey
    ⟨[0x7b, 0x62, 0x7d, 0x7b, 0x61, 0x7b, 0x62, 0x7d]⟩ (AList.singleton [0x62] [0x31]) 9 []
      = .ok [0x31, 0x7b, 0x61, 0x7b, 0x62, 0x7d] := rfl

end Hypergate.Filters
