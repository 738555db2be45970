import Mathlib.Data.List.Forall2

/-!
# Loops that may stop half-way

`runAll step s l` runs `step` over `l` with an accumulator and stops at the
first failure. A failure reports the accumulator it leaves behind, so what a
loop has done before it failed (and what the caller has to undo) stays visible.

* `runAll_always`: an invariant of the accumulator that
  every step keeps, failing or not, holds of the accumulator the loop ends with.
* `runAll_ok`: an invariant that also speaks of the part of the list already
  processed holds of the whole list when the loop succeeds.
-/

namespace Hypergate.Lib

universe u v w

theorem of_bind_eq_ok {ε : Type u} {α β : Type v} {x : Except ε α} {f : α → Except ε β} {b : β}
    (h : x.bind f = .ok b) : ∃ a, x = .ok a ∧ f a = .ok b := by
  cases x with
  | error e => cases h
  | ok a => exact ⟨a, rfl, h⟩

theorem bind_eq_ok_iff {ε : Type u} {α β : Type v} {x : Except ε α} {f : α → Except ε β} {b : β} :
    (x >>= f) = .ok b ↔ ∃ a, x = .ok a ∧ f a = .ok b := by
  constructor
  · exact of_bind_eq_ok
  · rintro ⟨a, rfl, h⟩
    exact h

theorem guard_eq_ok_iff {ε : Type u} {α : Type v} {p : Prop} [Decidable p] {e : ε}
    {x : Except ε α} {a : α} : (if p then .error e else x) = .ok a ↔ ¬ p ∧ x = .ok a := by
  by_cases h : p
  · simp [h]
  · simp [h]

variable {β : Type v}

/-- A loop of independent steps succeeds exactly when each one does. -/
theorem mapM_eq_ok_iff {ε : Type u} {α : Type w} {f : α → Except ε β} {l : List α} {out : List β} :
    l.mapM f = .ok out ↔ List.Forall₂ (fun a b => f a = .ok b) l out := by
  induction l generalizing out with
  | nil =>
    constructor
    · intro h
      cases h
      exact .nil
    · intro h
      cases h
      rfl
  | cons a l ih =>
    rw [List.mapM_cons]
    constructor
    · intro h
      obtain ⟨b, hb, hrest⟩ := of_bind_eq_ok h
      obtain ⟨bs, hbs, hout⟩ := of_bind_eq_ok hrest
      cases hout
      exact .cons hb (ih.mp hbs)
    · intro h
      cases h with
      | cons hb hrest =>
        rw [hb]
        rw [ih.mpr hrest]
        rfl

/-- Everything on the right of two related lists has a partner on the left. -/
theorem exists_of_forall₂_right {α : Type u} {R : α → β → Prop} {l : List α} {out : List β}
    (h : List.Forall₂ R l out) {b : β} (hb : b ∈ out) : ∃ a ∈ l, R a b := by
  induction h with
  | nil => cases hb
  | @cons a b' l out hab _ ih =>
    rcases List.mem_cons.mp hb with rfl | hb
    · exact ⟨a, List.mem_cons_self, hab⟩
    · obtain ⟨a', ha', hR⟩ := ih hb
      exact ⟨a', List.mem_cons_of_mem _ ha', hR⟩

theorem exists_forall₂ {α : Type u} {R : α → β → Prop} {l : List α} (h : ∀ a ∈ l, ∃ b, R a b) :
    ∃ l', List.Forall₂ R l l' := by
  induction l with
  | nil => exact ⟨[], .nil⟩
  | cons a l ih =>
    obtain ⟨b, hb⟩ := h a List.mem_cons_self
    obtain ⟨l', hl'⟩ := ih fun a' ha' => h a' (List.mem_cons_of_mem _ ha')
    exact ⟨b :: l', .cons hb hl'⟩

theorem getElem?_of_forall₂ {α : Type u} {R : α → β → Prop} {l : List α} {out : List β}
    (h : List.Forall₂ R l out) {i : Nat} {a : α} (ha : l[i]? = some a) :
    ∃ b, out[i]? = some b ∧ R a b := by
  induction h generalizing i with
  | nil => cases ha
  | @cons a' b' l out hab _ ih =>
    cases i with
    | zero =>
      rw [List.getElem?_cons_zero] at ha
      cases ha
      exact ⟨b', rfl, hab⟩
    | succ i =>
      rw [List.getElem?_cons_succ] at ha
      exact ih ha

/-- A loop of checks succeeds exactly when each one does. -/
theorem forM_eq_ok_iff {ε : Type u} {α : Type w} {f : α → Except ε Unit} {l : List α} :
    l.forM f = .ok () ↔ ∀ a ∈ l, f a = .ok () := by
  induction l with
  | nil => simp [pure, Except.pure]
  | cons a l ih =>
    show (f a >>= fun _ => l.forM f) = _ ↔ _
    rw [bind_eq_ok_iff, List.forall_mem_cons, ← ih]
    constructor
    · rintro ⟨u, ha, hl⟩
      exact ⟨ha, hl⟩
    · rintro ⟨ha, hl⟩
      exact ⟨(), ha, hl⟩

theorem of_map_eq_ok {ε : Type u} {α : Type v} {β : Type w} {x : Except ε α} {f : α → β} {b : β}
    (h : x.map f = .ok b) : ∃ a, x = .ok a ∧ f a = b := by
  cases x with
  | error e => cases h
  | ok a => exact ⟨a, rfl, Except.ok.inj h⟩

theorem mapError_eq_ok {ε ε' : Type u} {α : Type v} {x : Except ε α} {f : ε → ε'} {a : α} :
    x.mapError f = .ok a ↔ x = .ok a := by
  cases x with
  | error e =>
    show Except.error (f e) = .ok a ↔ Except.error e = .ok a
    simp
  | ok b =>
    show (Except.ok b : Except ε' α) = .ok a ↔ (Except.ok b : Except ε α) = .ok a
    simp

variable {σ : Type u} {α : Type v} {ε : Type w}

/-- Run `step` over a list; the first failure ends the loop and carries the
accumulator at that point. -/
def runAll (step : σ → α → Except (ε × σ) σ) : σ → List α → Except (ε × σ) σ
  | s, [] => .ok s
  | s, a :: l =>
    match step s a with
    | .ok s' => runAll step s' l
    | .error e => .error e

/-- The accumulator a step or a loop ends with, whether it failed or not. -/
def outcome : Except (ε × σ) σ → σ
  | .ok s => s
  | .error (_, s) => s

/-- What every step keeps, failing or not, the loop keeps. -/
theorem runAll_always {step : σ → α → Except (ε × σ) σ} (I : σ → Prop)
    (hstep : ∀ s a, I s → I (outcome (step s a))) :
    ∀ (l : List α) (s : σ), I s → I (outcome (runAll step s l)) := by
  intro l
  induction l with
  | nil => exact fun s h => h
  | cons a l ih =>
    intro s h
    have h1 := hstep s a h
    unfold runAll
    cases hs : step s a with
    | ok s' =>
      rw [hs] at h1
      exact ih s' h1
    | error e =>
      rw [hs] at h1
      exact h1

/-- What every successful step extends by one element, a successful loop has
for the whole list. -/
theorem runAll_ok {step : σ → α → Except (ε × σ) σ} {l : List α} (I : List α → σ → Prop)
    (hstep : ∀ done a s s', a ∈ l → I done s → step s a = .ok s' → I (done ++ [a]) s')
    {s s' : σ} (h0 : I [] s) (hrun : runAll step s l = .ok s') : I l s' := by
  suffices h : ∀ todo done s, (∀ a ∈ todo, a ∈ l) → I done s → runAll step s todo = .ok s' →
      I (done ++ todo) s' from h l [] s (fun _ h => h) h0 hrun
  intro todo
  induction todo with
  | nil =>
    intro done s _ hI hr
    obtain rfl : s = s' := by simpa [runAll] using hr
    simpa using hI
  | cons a todo ih =>
    intro done s hsub hI hr
    unfold runAll at hr
    split at hr
    · rename_i s1 hs1
      have h1 := hstep done a s s1 (hsub a List.mem_cons_self) hI hs1
      have h2 := ih (done ++ [a]) s1 (fun b hb => hsub b (List.mem_cons_of_mem a hb)) h1 hr
      simpa using h2
    · cases hr

end Hypergate.Lib
