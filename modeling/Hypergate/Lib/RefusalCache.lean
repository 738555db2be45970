import Mathlib.Algebra.Order.Field.Basic
import Mathlib.Tactic.Linarith
import Hypergate.Lib.TSys

/-!
# Caches of refusals

A service answers requests at a time, and some of its refusals are cached where the
request came from: until the entry has run out, later requests are refused there
without asking the service. Other clients keep asking it. When is a cached refusal
one that the service would give as well?

`Dead B t s` says of the state `s` at time `t` that the service refuses everything
until `B`. If a cached refusal leaves such a state, with an entry that does not
outlive `B` by more than `slack`, then a request that hits the entry would have been
refused when it came, or less than `slack` before (`Doomed.sound`).

`past` remembers the state of the service at every moment. An entry that outlives
the refusals of the service is not sound (`not_sound_served`).
-/

namespace Hypergate.Lib

universe u

/-- A service: its answer with its next state, how long a refusal is cached, and the
key of the entries at a time. -/
structure CachedService (T K Q S : Type u) where
  serve : T → Q → S → Bool × S
  leave : T → Q → S → Option T
  key : T → K

/-- The service, its past, and the entries of the clients: when they were left, and
when they run out. -/
structure Site (T K S : Type u) where
  remote : S
  past : T → S
  clock : T
  entry : Nat → K → Option (T × T)

inductive SiteEvent (T K Q : Type u) where
  | request (client : Nat) (now : T) (q : Q)
  | forget (client : Nat) (k : K)

variable {T K Q S : Type u} [Field T] [LinearOrder T] [DecidableEq K]

/-- The client has an entry. -/
def Site.hit (svc : CachedService T K Q S) (s : Site T K S) (client : Nat) (now : T) : Bool :=
  match s.entry client (svc.key now) with
  | some (_, ends) => now < ends
  | none => false

/-- The entries after a request that was served. -/
def Site.entries (svc : CachedService T K Q S) (s : Site T K S) (client : Nat) (now : T)
    (q : Q) : Nat → K → Option (T × T) :=
  match (svc.serve now q s.remote).1, svc.leave now q s.remote with
  | false, some ttl => Function.update s.entry client
      (Function.update (s.entry client) (svc.key now) (some (now, now + ttl)))
  | _, _ => s.entry

/-- The service answers. -/
def Site.served (svc : CachedService T K Q S) (s : Site T K S) (client : Nat) (now : T) (q : Q) :
    Site T K S where
  remote := (svc.serve now q s.remote).2
  past t := if t < now then s.past t else (svc.serve now q s.remote).2
  clock := now
  entry := s.entries svc client now q

def Site.step (svc : CachedService T K Q S) (s : Site T K S) :
    SiteEvent T K Q → Site T K S
  | .request client now q =>
    if s.hit svc client now then { s with clock := now } else s.served svc client now q
  | .forget client k =>
    { s with entry := Function.update s.entry client (Function.update (s.entry client) k none) }

/-- From a state in which nothing has happened yet. -/
def siteSys (svc : CachedService T K Q S) (start : S) :
    TSys (Site T K S) (SiteEvent T K Q) where
  init s := s.remote = start ∧ s.past = (fun _ => start) ∧ s.entry = fun _ _ => none
  step s e := some (s.step svc e)

/-- Requests are valid and the clock does not go back; a request that reaches the
service meets `ok`. -/
def Site.Ok (svc : CachedService T K Q S) (valid : Q → Prop) (ok : T → Q → S → Prop)
    (s : Site T K S) : SiteEvent T K Q → Prop
  | .request client now q =>
    valid q ∧ s.clock ≤ now ∧ (s.hit svc client now = true ∨ ok now q s.remote)
  | .forget _ _ => True

/-- Whoever hits an entry would have been refused at that moment, or less than
`slack` earlier. -/
def Site.Sound (svc : CachedService T K Q S) (valid : Q → Prop) (slack : T)
    (s : Site T K S) : Prop :=
  ∀ client now q, valid q → s.clock ≤ now → s.hit svc client now = true →
    (svc.serve now q (s.past now)).1 = false
      ∨ ∃ t, now - slack < t ∧ t ≤ now ∧ (svc.serve t q (s.past t)).1 = false

/-- Cached refusals leave the service in a state that refuses everything for as long
as they are cached. -/
structure Doomed (svc : CachedService T K Q S) (start : S) (valid : Q → Prop)
    (ok : T → Q → S → Prop) (slack : T) (Inv : T → S → Prop) (Dead : T → T → S → Prop) :
    Prop where
  start : ∀ t, Inv t start
  later : ∀ {t t' s}, Inv t s → t ≤ t' → Inv t' s
  keeps : ∀ {t q s}, valid q → Inv t s → Inv t (svc.serve t q s).2
  refuses : ∀ {B t t' q s}, Dead B t s → t ≤ t' → t' < B → valid q →
    (svc.serve t' q s).1 = false ∧ Dead B t' (svc.serve t' q s).2
  leaves : ∀ {t q s ttl}, valid q → Inv t s → ok t q s → (svc.serve t q s).1 = false →
    svc.leave t q s = some ttl → ∃ B, t < B ∧ Dead B t (svc.serve t q s).2
      ∧ ∀ τ, t ≤ τ → svc.key τ = svc.key t → τ < t + ttl → τ < B + slack

section Doomed

variable {svc : CachedService T K Q S} {start : S} {valid : Q → Prop} {ok : T → Q → S → Prop}
  {slack : T} {Inv : T → S → Prop} {Dead : T → T → S → Prop} {s : Site T K S}

/-- While an entry lasts, the service was, and is, dead. -/
structure Site.Backed (Dead : T → T → S → Prop) (slack : T) (key : T → K) (s : Site T K S)
    (k : K) (left ends B : T) : Prop where
  before : left < B
  past : left ≤ s.clock
  ends : ∀ τ, left ≤ τ → key τ = k → τ < ends → τ < B + slack
  dead : ∀ t, left ≤ t → t < B → ∃ t' ≤ t, Dead B t' (s.past t)

/-- From the clock on, the past is the present; and every entry is backed. -/
structure Site.Good (svc : CachedService T K Q S) (Inv : T → S → Prop) (slack : T)
    (Dead : T → T → S → Prop) (s : Site T K S) : Prop where
  inv : Inv s.clock s.remote
  present : ∀ t, s.clock ≤ t → s.past t = s.remote
  backed : ∀ client k left ends, s.entry client k = some (left, ends) →
    ∃ B, s.Backed Dead slack svc.key k left ends B

omit [Field T] [DecidableEq K] in
theorem exists_of_hit {client : Nat} {now : T} (h : s.hit svc client now = true) :
    ∃ left ends, s.entry client (svc.key now) = some (left, ends) ∧ now < ends := by
  unfold Site.hit at h
  cases hentry : s.entry client (svc.key now) with
  | none =>
    rw [hentry] at h
    cases h
  | some e =>
    rw [hentry] at h
    exact ⟨e.1, e.2, rfl, of_decide_eq_true h⟩

omit [LinearOrder T] in
/-- The entries after a request are those before, and its own if it leaves one. -/
theorem entries_cases {client client' : Nat} {now : T} {q : Q} {k : K} {e : T × T}
    (h : s.entries svc client now q client' k = some e) :
    s.entry client' k = some e
      ∨ ((svc.serve now q s.remote).1 = false ∧ k = svc.key now
        ∧ ∃ ttl, svc.leave now q s.remote = some ttl ∧ e = (now, now + ttl)) := by
  unfold Site.entries at h
  cases hserve : (svc.serve now q s.remote).1 with
  | true =>
    rw [hserve] at h
    exact .inl h
  | false =>
    cases hleave : svc.leave now q s.remote with
    | none =>
      rw [hserve, hleave] at h
      exact .inl h
    | some ttl =>
      rw [hserve, hleave] at h
      by_cases hclient : client' = client
      · subst hclient
        by_cases hk : k = svc.key now
        · subst hk
          simp only [Function.update_self, Option.some.injEq] at h
          exact .inr ⟨rfl, rfl, ttl, rfl, h.symm⟩
        · simp only [Function.update_self, Function.update_of_ne hk] at h
          exact .inl h
      · simp only [Function.update_of_ne hclient] at h
        exact .inl h

section Steps

variable (h : Doomed svc start valid ok slack Inv Dead)
include h

/-- A request that is served before `B` is refused, and leaves the service dead. -/
theorem Doomed.backed_served {client : Nat} {now : T} {q : Q} {k : K} {left ends B : T}
    (hs : s.Good svc Inv slack Dead) (hq : valid q) (hclock : s.clock ≤ now)
    (hb : s.Backed Dead slack svc.key k left ends B) :
    (s.served svc client now q).Backed Dead slack svc.key k left ends B where
  before := hb.before
  past := hb.past.trans hclock
  ends := hb.ends
  dead t hleft hlt := by
    show ∃ t' ≤ t, Dead B t' (if t < now then s.past t else (svc.serve now q s.remote).2)
    by_cases hnow : t < now
    · rw [if_pos hnow]
      exact hb.dead t hleft hlt
    · rw [if_neg hnow]
      have hle := not_lt.mp hnow
      obtain ⟨t', ht', hdead⟩ := hb.dead now (hb.past.trans hclock) (hle.trans_lt hlt)
      rw [hs.present now hclock] at hdead
      exact ⟨now, hle, (h.refuses hdead ht' (hle.trans_lt hlt) hq).2⟩

theorem Doomed.good_served {client : Nat} {now : T} {q : Q} (hs : s.Good svc Inv slack Dead)
    (hq : valid q) (hclock : s.clock ≤ now) (hok : ok now q s.remote) :
    (s.served svc client now q).Good svc Inv slack Dead where
  inv := h.keeps hq (h.later hs.inv hclock)
  present t ht := if_neg (not_lt.mpr ht)
  backed client' k left ends hentry := by
    rcases entries_cases hentry with hold | ⟨hrefused, rfl, ttl, hleave, heq⟩
    · obtain ⟨B, hb⟩ := hs.backed client' k left ends hold
      exact ⟨B, h.backed_served hs hq hclock hb⟩
    · cases heq
      obtain ⟨B, hbefore, hdead, hends⟩ := h.leaves hq (h.later hs.inv hclock) hok hrefused hleave
      refine ⟨B, hbefore, le_refl _, hends, fun t ht _ => ⟨now, ht, ?_⟩⟩
      show Dead B now (if t < now then s.past t else (svc.serve now q s.remote).2)
      rw [if_neg (not_lt.mpr ht)]
      exact hdead

theorem Doomed.inductive : (siteSys svc start).Inductive (Site.Ok svc valid ok)
    (Site.Good svc Inv slack Dead) where
  init s hs := by
    obtain ⟨hremote, hpast, hentry⟩ := hs
    refine ⟨hremote ▸ h.start s.clock, fun t _ => by rw [hpast, hremote], ?_⟩
    intro client k left ends he
    rw [hentry] at he
    cases he
  step s e s' hs hok hstep := by
    cases hstep
    cases e with
    | forget client k =>
      refine ⟨hs.inv, hs.present, fun client' k' left ends hentry => ?_⟩
      have hold : s.entry client' k' = some (left, ends) := by
        change Function.update s.entry client (Function.update (s.entry client) k none) client' k'
          = some (left, ends) at hentry
        by_cases hclient : client' = client
        · subst hclient
          rw [Function.update_self] at hentry
          by_cases hk : k' = k
          · rw [hk, Function.update_self] at hentry
            cases hentry
          · rwa [Function.update_of_ne hk] at hentry
        · rwa [Function.update_of_ne hclient] at hentry
      obtain ⟨B, hb⟩ := hs.backed client' k' left ends hold
      exact ⟨B, hb.before, hb.past, hb.ends, hb.dead⟩
    | request client now q =>
      obtain ⟨hq, hclock, hserved⟩ := hok
      show (if s.hit svc client now then { s with clock := now }
        else s.served svc client now q).Good svc Inv slack Dead
      split
      · refine ⟨h.later hs.inv hclock, fun t ht => hs.present t (hclock.trans ht), ?_⟩
        intro client' k left ends hentry
        obtain ⟨B, hb⟩ := hs.backed client' k left ends hentry
        exact ⟨B, hb.before, hb.past.trans hclock, hb.ends, hb.dead⟩
      · case isFalse hhit =>
          exact h.good_served hs hq hclock (hserved.resolve_left hhit)

/-- Every hit is one that the service would have refused. -/
theorem Doomed.sound [IsStrictOrderedRing T]
    (hr : (siteSys svc start).ReachableUnder (Site.Ok svc valid ok) s) :
    s.Sound svc valid slack := by
  intro client now q hq hclock hhit
  obtain ⟨left, ends, hentry, hlt⟩ := exists_of_hit hhit
  obtain ⟨B, hb⟩ := (h.inductive.invariant hr).backed client _ left ends hentry
  have hslack := hb.ends now (hb.past.trans hclock) rfl hlt
  by_cases hnow : now < B
  · obtain ⟨t', ht', hdead⟩ := hb.dead now (hb.past.trans hclock) hnow
    exact .inl (h.refuses hdead ht' hnow hq).1
  · -- The service was dead until `B`, which is less than `slack` ago.
    obtain ⟨t, hafter, hbefore⟩ :=
      exists_between (max_lt hb.before (show now - slack < B by linarith))
    obtain ⟨hleft, hrecent⟩ := max_lt_iff.mp hafter
    obtain ⟨t', ht', hdead⟩ := hb.dead t hleft.le hbefore
    exact .inr ⟨t, hrecent, hbefore.le.trans (not_lt.mp hnow),
      (h.refuses hdead ht' hbefore hq).1⟩

end Steps

theorem reachable_request (h : (siteSys svc start).ReachableUnder (Site.Ok svc valid ok) s)
    (client : Nat) {now : T} {q : Q} (hq : valid q) (hclock : s.clock ≤ now)
    (hok : ok now q s.remote) :
    (siteSys svc start).ReachableUnder (Site.Ok svc valid ok)
      (s.step svc (.request client now q)) :=
  h.step (e := .request client now q) ⟨hq, hclock, .inr hok⟩ rfl

/-! ## Entries that are kept for too long -/

theorem step_of_not_hit {client : Nat} {now : T} {q : Q} (h : s.hit svc client now = false) :
    s.step svc (.request client now q) = s.served svc client now q := by
  unfold Site.step
  exact if_neg (by simp [h])

section Late

variable {client : Nat} {now ttl τ : T} {q q' : Q}

theorem hit_served (hrefused : (svc.serve now q s.remote).1 = false)
    (hleave : svc.leave now q s.remote = some ttl) (hkey : svc.key τ = svc.key now)
    (hτ : τ < now + ttl) : (s.served svc client now q).hit svc client τ = true := by
  unfold Site.hit Site.served Site.entries
  dsimp only
  rw [hrefused, hleave, hkey]
  dsimp only
  rw [Function.update_self, Function.update_self]
  exact decide_eq_true hτ

/-- The service would admit a request at a moment when the entry still refuses it, and
for `slack` before that. -/
theorem not_sound_served [IsStrictOrderedRing T] (hrefused : (svc.serve now q s.remote).1 = false)
    (hleave : svc.leave now q s.remote = some ttl) (hkey : svc.key τ = svc.key now)
    (hslack : 0 ≤ slack) (hnow : now ≤ τ - slack) (hτ : τ < now + ttl) (hq' : valid q')
    (h : ∀ t, τ - slack ≤ t → t ≤ τ → (svc.serve t q' (svc.serve now q s.remote).2).1 = true) :
    ¬ (s.served svc client now q).Sound svc valid slack := by
  intro hsound
  have hpast : ∀ t, τ - slack ≤ t →
      (s.served svc client now q).past t = (svc.serve now q s.remote).2 :=
    fun t ht => if_neg (not_lt.mpr (hnow.trans ht))
  have hle : τ - slack ≤ τ := by linarith
  rcases hsound client τ q' hq' (hnow.trans hle) (hit_served hrefused hleave hkey hτ) with
    hthen | ⟨t, hafter, hbefore, hthen⟩
  · rw [hpast τ hle, h τ hle (le_refl _)] at hthen
    cases hthen
  · rw [hpast t hafter.le, h t hafter.le hbefore] at hthen
    cases hthen

end Late

end Doomed

end Hypergate.Lib
