import Mathlib.Data.List.Nodup

/-!
# Deferred reclamation of shared resources

Versions of some object are published one after the other and use resources
that they may share. A resource the newest version no longer needs is not
closed at once: it waits in the list of the version it was retired with and is
closed when that version has no user left.

`Reclaim R S` is the bookkeeping of such a scheme over resources `R` and
versions `S`. The scheme has four events, each a relation between the
bookkeeping before and after it:

* `Leaves`: users come and go, no resource changes hands;
* `Discards`: resources nobody has seen are closed;
* `Retires`: a version is replaced by another one;
* `Reclaims`: what waits for a version without users is closed.

`Reclaim.Sound` is the invariant that makes the scheme safe; every event keeps
it. The side condition that carries the weight is
`Retires.apart`: what is retired with a version is needed by no *other* version
in use.
-/

namespace Hypergate.Lib

universe u v

/-- Where every resource is, and who uses it. -/
structure Reclaim (R : Type u) (S : Type v) where
  /-- Allocated so far. -/
  known : R → Prop
  /-- Owned by the newest version. -/
  live : R → Prop
  /-- Retired together with a version and not closed yet. -/
  waiting : S → List R
  /-- Every close so far. -/
  closed : List R
  /-- The version needs the resource. -/
  needs : S → R → Prop
  /-- The version is the newest one or somebody holds it. -/
  inUse : S → Prop

namespace Reclaim

variable {R : Type u} {S : Type v}

/-- Nothing is closed twice and nothing is closed that a version in use needs. -/
structure Safe (a : Reclaim R S) : Prop where
  closed_once : a.closed.Nodup
  closed_unused : ∀ r ∈ a.closed, ∀ s, a.inUse s → ¬ a.needs s r

/-- The invariant: every known resource is in at most one place, and what waits
for a version is needed by no other version in use. -/
structure Sound (a : Reclaim R S) : Prop extends Safe a where
  waiting_once : ∀ s, (a.waiting s).Nodup
  waiting_apart : ∀ s s' r, r ∈ a.waiting s → r ∈ a.waiting s' → s = s'
  waiting_open : ∀ s, ∀ r ∈ a.waiting s, r ∉ a.closed
  waiting_needed : ∀ s, ∀ r ∈ a.waiting s, ∀ s', a.inUse s' → a.needs s' r → s' = s
  live_open : ∀ r, a.live r → r ∉ a.closed
  live_here : ∀ r s, a.live r → r ∉ a.waiting s
  known_live : ∀ r, a.live r → a.known r
  known_waiting : ∀ s, ∀ r ∈ a.waiting s, a.known r
  known_closed : ∀ r ∈ a.closed, a.known r
  known_needed : ∀ s r, a.inUse s → a.needs s r → a.known r

/-! ## The events -/

/-- Only the users change, and no version gains its first one. -/
structure Leaves (a b : Reclaim R S) : Prop where
  known : b.known = a.known
  live : b.live = a.live
  waiting : b.waiting = a.waiting
  closed : b.closed = a.closed
  needs : b.needs = a.needs
  inUse : ∀ s, b.inUse s → a.inUse s

/-- The resources `rs`, allocated by this event, are closed. -/
structure Discards (a b : Reclaim R S) (rs : List R) : Prop where
  known : ∀ r, a.known r → b.known r
  live : b.live = a.live
  waiting : b.waiting = a.waiting
  closed : b.closed = a.closed ++ rs
  needs : b.needs = a.needs
  inUse : b.inUse = a.inUse
  once : rs.Nodup
  fresh : ∀ r ∈ rs, ¬ a.known r ∧ b.known r

/-- The version `old` is replaced by `new`, and `rs` waits for `old` from now
on. What the new version owns was owned before or is allocated by this event. -/
structure Retires (a b : Reclaim R S) (old new : S) (rs : List R) : Prop where
  known : ∀ r, a.known r → b.known r
  live : ∀ r, b.live r → a.live r ∨ (¬ a.known r ∧ b.known r)
  waits : b.waiting old = rs
  waiting : ∀ s, s ≠ old → b.waiting s = a.waiting s ∨ b.waiting s = []
  closed : b.closed = a.closed
  needs : ∀ s, s ≠ new → b.needs s = a.needs s
  inUse : ∀ s, b.inUse s → s = new ∨ a.inUse s
  owned : ∀ r, b.needs new r → b.live r
  once : rs.Nodup
  retired : ∀ r ∈ rs, a.live r ∧ ¬ b.live r
  apart : ∀ r ∈ rs, ∀ s, a.inUse s → a.needs s r → s = old

/-- What waits for `s`, which nobody uses any more, is closed. -/
structure Reclaims (a b : Reclaim R S) (s : S) : Prop where
  known : b.known = a.known
  live : b.live = a.live
  emptied : b.waiting s = []
  waiting : ∀ s', s' ≠ s → b.waiting s' = a.waiting s'
  closed : b.closed = a.closed ++ a.waiting s
  needs : b.needs = a.needs
  inUse : ∀ s', b.inUse s' → a.inUse s' ∧ s' ≠ s

/-! ## Every event keeps the invariant -/

theorem Sound.leaves {a b : Reclaim R S} (h : a.Sound) (e : Leaves a b) : b.Sound where
  closed_once := by rw [e.closed]; exact h.closed_once
  closed_unused := by
    rw [e.closed, e.needs]
    exact fun r hr s hs => h.closed_unused r hr s (e.inUse s hs)
  waiting_once := by rw [e.waiting]; exact h.waiting_once
  waiting_apart := by rw [e.waiting]; exact h.waiting_apart
  waiting_open := by rw [e.waiting, e.closed]; exact h.waiting_open
  waiting_needed := by
    rw [e.waiting, e.needs]
    exact fun s r hr s' hs' => h.waiting_needed s r hr s' (e.inUse s' hs')
  live_open := by rw [e.live, e.closed]; exact h.live_open
  live_here := by rw [e.live, e.waiting]; exact h.live_here
  known_live := by rw [e.live, e.known]; exact h.known_live
  known_waiting := by rw [e.waiting, e.known]; exact h.known_waiting
  known_closed := by rw [e.closed, e.known]; exact h.known_closed
  known_needed := by
    rw [e.needs, e.known]
    exact fun s r hs => h.known_needed s r (e.inUse s hs)

theorem Sound.discards {a b : Reclaim R S} (h : a.Sound) {rs : List R} (e : Discards a b rs) :
    b.Sound := by
  -- an old resource is known, a discarded one was not
  have hold : ∀ r, a.known r → r ∉ rs := fun r hr hmem => (e.fresh r hmem).1 hr
  have hclosed : ∀ r, r ∈ b.closed ↔ r ∈ a.closed ∨ r ∈ rs := fun r => by
    rw [e.closed, List.mem_append]
  exact
    { closed_once := by
        rw [e.closed]
        exact List.nodup_append'.mpr
          ⟨h.closed_once, e.once, fun r hr => hold r (h.known_closed r hr)⟩
      closed_unused := by
        rw [e.inUse, e.needs]
        intro r hr s hs hneed
        rcases (hclosed r).mp hr with hr | hr
        · exact h.closed_unused r hr s hs hneed
        · exact hold r (h.known_needed s r hs hneed) hr
      waiting_once := by rw [e.waiting]; exact h.waiting_once
      waiting_apart := by rw [e.waiting]; exact h.waiting_apart
      waiting_open := by
        rw [e.waiting]
        intro s r hr hc
        rcases (hclosed r).mp hc with hc | hc
        · exact h.waiting_open s r hr hc
        · exact hold r (h.known_waiting s r hr) hc
      waiting_needed := by rw [e.waiting, e.inUse, e.needs]; exact h.waiting_needed
      live_open := by
        rw [e.live]
        intro r hr hc
        rcases (hclosed r).mp hc with hc | hc
        · exact h.live_open r hr hc
        · exact hold r (h.known_live r hr) hc
      live_here := by rw [e.live, e.waiting]; exact h.live_here
      known_live := by rw [e.live]; exact fun r hr => e.known r (h.known_live r hr)
      known_waiting := by rw [e.waiting]; exact fun s r hr => e.known r (h.known_waiting s r hr)
      known_closed := by
        intro r hr
        rcases (hclosed r).mp hr with hr | hr
        · exact e.known r (h.known_closed r hr)
        · exact (e.fresh r hr).2
      known_needed := by
        rw [e.inUse, e.needs]
        exact fun s r hs hneed => e.known r (h.known_needed s r hs hneed) }

section Retire

variable {a b : Reclaim R S} {old new : S} {rs : List R}

/-- What waits after a replacement: the retired resources for the replaced
version, and for the others what waited before. -/
theorem Retires.mem_waiting (e : Retires a b old new rs) {s : S} {r : R}
    (hr : r ∈ b.waiting s) : (s = old ∧ r ∈ rs) ∨ r ∈ a.waiting s := by
  by_cases hs : s = old
  · subst hs
    rw [e.waits] at hr
    exact .inl ⟨rfl, hr⟩
  · rcases e.waiting s hs with heq | heq
    · exact .inr (heq ▸ hr)
    · rw [heq] at hr
      cases hr

/-- A resource of the new version is not one that had been retired or closed. -/
theorem Sound.live_after (h : a.Sound) (e : Retires a b old new rs) {r : R} (hr : b.live r) :
    r ∉ a.closed ∧ ∀ s, r ∉ a.waiting s := by
  rcases e.live r hr with hlive | ⟨hnew, _⟩
  · exact ⟨h.live_open r hlive, fun s => h.live_here r s hlive⟩
  · exact ⟨fun hc => hnew (h.known_closed r hc), fun s hw => hnew (h.known_waiting s r hw)⟩

/-- A user after the replacement is the new version, or was one before. -/
theorem Retires.user (e : Retires a b old new rs) {s : S} {r : R} (hs : b.inUse s)
    (hneed : b.needs s r) : b.live r ∨ (a.inUse s ∧ a.needs s r) := by
  by_cases hnew : s = new
  · subst hnew
    exact .inl (e.owned r hneed)
  · rw [e.needs s hnew] at hneed
    exact .inr ⟨(e.inUse s hs).resolve_left hnew, hneed⟩

theorem Sound.retires (h : a.Sound) (e : Retires a b old new rs) : b.Sound where
  closed_once := by rw [e.closed]; exact h.closed_once
  closed_unused := by
    rw [e.closed]
    intro r hr s hs hneed
    rcases e.user hs hneed with hlive | ⟨hs, hneed⟩
    · exact (h.live_after e hlive).1 hr
    · exact h.closed_unused r hr s hs hneed
  waiting_once := by
    intro s
    by_cases hs : s = old
    · subst hs
      rw [e.waits]
      exact e.once
    · rcases e.waiting s hs with heq | heq
      · rw [heq]
        exact h.waiting_once s
      · rw [heq]
        exact List.nodup_nil
  waiting_apart := by
    intro s s' r hr hr'
    rcases e.mem_waiting hr with ⟨rfl, hrs⟩ | hr
    · rcases e.mem_waiting hr' with ⟨rfl, _⟩ | hr'
      · rfl
      · exact absurd hr' (h.live_here r s' (e.retired r hrs).1)
    · rcases e.mem_waiting hr' with ⟨rfl, hrs⟩ | hr'
      · exact absurd hr (h.live_here r s (e.retired r hrs).1)
      · exact h.waiting_apart s s' r hr hr'
  waiting_open := by
    rw [e.closed]
    intro s r hr
    rcases e.mem_waiting hr with ⟨_, hrs⟩ | hr
    · exact h.live_open r (e.retired r hrs).1
    · exact h.waiting_open s r hr
  waiting_needed := by
    intro s r hr s' hs' hneed
    rcases e.mem_waiting hr with ⟨rfl, hrs⟩ | hr
    · rcases e.user hs' hneed with hlive | ⟨hs', hneed⟩
      · exact absurd hlive (e.retired r hrs).2
      · exact e.apart r hrs s' hs' hneed
    · rcases e.user hs' hneed with hlive | ⟨hs', hneed⟩
      · exact absurd hr ((h.live_after e hlive).2 s)
      · exact h.waiting_needed s r hr s' hs' hneed
  live_open := by
    rw [e.closed]
    exact fun r hr => (h.live_after e hr).1
  live_here := by
    intro r s hr hw
    rcases e.mem_waiting hw with ⟨_, hrs⟩ | hw
    · exact (e.retired r hrs).2 hr
    · exact (h.live_after e hr).2 s hw
  known_live := by
    intro r hr
    rcases e.live r hr with hlive | ⟨_, hknown⟩
    · exact e.known r (h.known_live r hlive)
    · exact hknown
  known_waiting := by
    intro s r hr
    rcases e.mem_waiting hr with ⟨_, hrs⟩ | hr
    · exact e.known r (h.known_live r (e.retired r hrs).1)
    · exact e.known r (h.known_waiting s r hr)
  known_closed := by
    rw [e.closed]
    exact fun r hr => e.known r (h.known_closed r hr)
  known_needed := by
    intro s r hs hneed
    rcases e.user hs hneed with hlive | ⟨hs, hneed⟩
    · rcases e.live r hlive with hlive | ⟨_, hknown⟩
      · exact e.known r (h.known_live r hlive)
      · exact hknown
    · exact e.known r (h.known_needed s r hs hneed)

end Retire

section Reclaim

variable {a b : Reclaim R S} {s : S}

/-- What still waits after a version is reclaimed waits for another one. -/
theorem Reclaims.mem_waiting (e : Reclaims a b s) {s' : S} {r : R} (hr : r ∈ b.waiting s') :
    s' ≠ s ∧ r ∈ a.waiting s' := by
  by_cases hs : s' = s
  · subst hs
    rw [e.emptied] at hr
    cases hr
  · rw [e.waiting s' hs] at hr
    exact ⟨hs, hr⟩

theorem Reclaims.mem_closed (e : Reclaims a b s) {r : R} :
    r ∈ b.closed ↔ r ∈ a.closed ∨ r ∈ a.waiting s := by
  rw [e.closed, List.mem_append]

theorem Sound.reclaims (h : a.Sound) (e : Reclaims a b s) : b.Sound where
  closed_once := by
    rw [e.closed]
    exact List.nodup_append'.mpr
      ⟨h.closed_once, h.waiting_once s, fun r hc hw => h.waiting_open s r hw hc⟩
  closed_unused := by
    rw [e.needs]
    intro r hr s' hs' hneed
    obtain ⟨huse, hne⟩ := e.inUse s' hs'
    rcases e.mem_closed.mp hr with hr | hr
    · exact h.closed_unused r hr s' huse hneed
    · exact hne (h.waiting_needed s r hr s' huse hneed)
  waiting_once := by
    intro s'
    by_cases hs : s' = s
    · subst hs
      rw [e.emptied]
      exact List.nodup_nil
    · rw [e.waiting s' hs]
      exact h.waiting_once s'
  waiting_apart := fun s₁ s₂ r h₁ h₂ =>
    h.waiting_apart s₁ s₂ r (e.mem_waiting h₁).2 (e.mem_waiting h₂).2
  waiting_open := by
    intro s' r hr hc
    obtain ⟨hne, hr⟩ := e.mem_waiting hr
    rcases e.mem_closed.mp hc with hc | hc
    · exact h.waiting_open s' r hr hc
    · exact hne (h.waiting_apart s' s r hr hc)
  waiting_needed := by
    rw [e.needs]
    exact fun s₁ r hr s₂ hs₂ => h.waiting_needed s₁ r (e.mem_waiting hr).2 s₂ (e.inUse s₂ hs₂).1
  live_open := by
    rw [e.live]
    intro r hr hc
    rcases e.mem_closed.mp hc with hc | hc
    · exact h.live_open r hr hc
    · exact h.live_here r s hr hc
  live_here := by
    rw [e.live]
    exact fun r s' hr hw => h.live_here r s' hr (e.mem_waiting hw).2
  known_live := by rw [e.live, e.known]; exact h.known_live
  known_waiting := by
    rw [e.known]
    exact fun s' r hr => h.known_waiting s' r (e.mem_waiting hr).2
  known_closed := by
    rw [e.known]
    intro r hr
    rcases e.mem_closed.mp hr with hr | hr
    · exact h.known_closed r hr
    · exact h.known_waiting s r hr
  known_needed := by
    rw [e.needs, e.known]
    exact fun s' r hs' => h.known_needed s' r (e.inUse s' hs').1

end Reclaim

end Reclaim

end Hypergate.Lib
