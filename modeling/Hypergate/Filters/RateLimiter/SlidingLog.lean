import Mathlib.Algebra.Order.Ring.Int
import Hypergate.Lib.TSys
import Hypergate.Filters.RateLimiter.Policy

/-!
# The sliding window log (`sliding_window_log.go`)

The limiter keeps a sorted set with one member for each request it admits, scored by
the time of the request in milliseconds. The script removes what has left the window
and counts the rest. A member is the time in microseconds and the id that the client
sent, or a number that the engine counts up; a second request with the same member
moves the first instead of being counted.

* `Logged` — while members are different, the set covers the requests admitted in
  the window.

Redis may drop the key between two requests. What it drops then must have left the
window (`Run.Kept`); `RateLimiter.Expiry` says why that is so when the engines and
Redis share a clock.
-/

namespace Hypergate.Filters.RateLimiter.SlidingLog

open Lib

/-! ## The script -/

/-- The array the script returns: the quota that is left, or the time to wait. -/
structure Reply where
  allowed : Bool
  value : ℤ

/-- `ZREMRANGEBYSCORE key 0 (now - window)`. -/
def purge (now window : ℤ) (entries : AMap String ℤ) : AMap String ℤ :=
  entries.filter fun _ score => ¬ (0 ≤ score ∧ score ≤ now - window)

/-- `getLogLuaScriptBody`. A sorted set maps its members to their scores. -/
def script (limit now window : ℤ) (member : String) (entries : AMap String ℤ) :
    Reply × AMap String ℤ :=
  let kept := purge now window entries
  let count : ℤ := kept.entries.length
  if count < limit then (⟨true, limit - count - 1⟩, kept.insert member now)
  else
    let resetDuration := match (kept.toList.map Prod.snd).min? with
      | some oldest => window - (now - oldest)
      | none => window
    (⟨false, max 0 resetDuration⟩, kept)

def windowMs (policy : YamlDescriptor) : ℤ := getDivider policy.unit * 1000

/-- A request: the clock in milliseconds when its evaluation starts and in
microseconds when its member is made, the `x-request-id` header, and the count of the
engine, which is taken if there is no header. -/
structure Request where
  now : Nat
  micro : Nat
  requestID : String := ""
  counter : UInt64 := 0

/-- The second part of a member. -/
def Request.id (r : Request) : String :=
  if r.requestID ≠ "" then r.requestID else r.counter.toNat.repr

def Request.memberID (r : Request) : String := r.micro.repr ++ "_" ++ r.id

theorem memberID_inj {r r' : Request} (h : r.memberID = r'.memberID) :
    r.micro = r'.micro ∧ r.id = r'.id := by
  have hlist : r.micro.repr.toList ++ '_' :: r.id.toList
      = r'.micro.repr.toList ++ '_' :: r'.id.toList := by
    simpa [Request.memberID] using congrArg String.toList h
  obtain ⟨hmicro, hid⟩ := sep_append_inj (notMem_repr rfl _) (notMem_repr rfl _) hlist
  exact ⟨repr_inj hmicro, String.toList_inj.mp hid⟩

/-! ## Runs -/

/-- A request, and whether Redis has dropped the key before it. -/
structure Event where
  request : Request
  expired : Bool := false

/-- The sorted set, the requests admitted so far, and the last timestamp. -/
structure Run where
  entries : AMap String ℤ := ∅
  admitted : List Request := []
  clock : Nat := 0

/-- What the script finds. -/
def Run.found (s : Run) (e : Event) : AMap String ℤ := if e.expired then ∅ else s.entries

section System

variable (policy : YamlDescriptor)

def Run.answer (s : Run) (e : Event) : Reply × AMap String ℤ :=
  script policy.limit.toNat e.request.now (windowMs policy) e.request.memberID (s.found e)

def Run.step (s : Run) (e : Event) : Run where
  entries := (s.answer policy e).2
  admitted := if (s.answer policy e).1.allowed then e.request :: s.admitted else s.admitted
  clock := e.request.now

/-- The requests of one key. -/
def logSys : TSys Run Event where
  init s := s = {}
  step s e := some (s.step policy e)

/-- Timestamps do not go back, and Redis drops only what has left the window. -/
structure Run.Kept (s : Run) (e : Event) : Prop where
  later : s.clock ≤ e.request.now
  kept : e.expired = true → ∀ member score, s.entries.lookup member = some score →
    score ≤ e.request.now - windowMs policy

/-- No request of the window has the microsecond and the id of this one. -/
def Run.Fresh (s : Run) (e : Event) : Prop :=
  ∀ r ∈ s.admitted, e.request.now - windowMs policy < r.now →
    ¬ (r.micro = e.request.micro ∧ r.id = e.request.id)

/-- Every interval of the length of the window has at most as many requests as the
limit. -/
def Bounded (s : Run) : Prop :=
  ∀ t : ℤ, s.admitted.countP (fun r => t - windowMs policy < r.now ∧ r.now ≤ t)
    ≤ policy.limit.toNat

end System

/-! ## What is logged -/

/-- The entries with a score after that. -/
def after (bound : ℤ) (entries : AMap String ℤ) : Nat :=
  entries.entries.countP fun e => bound < e.2

theorem after_purge {now window bound : ℤ} (h : now - window ≤ bound) (entries : AMap String ℤ) :
    after bound (purge now window entries) = after bound entries := by
  unfold after purge AMap.filter
  rw [List.countP_filter]
  refine List.countP_congr fun e _ => ?_
  simp only [Bool.and_eq_true, decide_eq_true_eq]
  exact ⟨fun hb => hb.1, fun hb => ⟨hb, fun hold => by omega⟩⟩

theorem length_purge {now window : ℤ} {entries : AMap String ℤ}
    (h : ∀ member score, entries.lookup member = some score → 0 ≤ score) :
    (purge now window entries).entries.length = after (now - window) entries := by
  rw [← after_purge (Int.le_refl _)]
  refine (List.countP_eq_length.mpr fun e he => ?_).symm
  obtain ⟨hmem, hkept⟩ := List.mem_filter.mp he
  have hscore := h e.1 e.2 (AMap.lookup_eq_some_iff.mpr hmem)
  simp only [decide_eq_true_eq] at hkept ⊢
  omega

theorem after_insert {bound : ℤ} {entries : AMap String ℤ} {member : String}
    (h : entries.lookup member = none) (score : ℤ) :
    after bound (entries.insert member score)
      = after bound entries + if bound < score then 1 else 0 := by
  unfold after
  rw [AList.entries_insert_of_notMem (AList.lookup_eq_none.mp h), List.countP_cons]
  simp only [decide_eq_true_eq]

section Logged

variable {policy : YamlDescriptor} {s : Run} {e : Event}

/-- Every entry is a request that was admitted, and the set covers those that a later
request still finds in the window. -/
structure Logged (policy : YamlDescriptor) (s : Run) : Prop where
  recorded : ∀ member score, s.entries.lookup member = some score →
    ∃ r ∈ s.admitted, r.memberID = member ∧ (r.now : ℤ) = score
  past : ∀ r ∈ s.admitted, r.now ≤ s.clock
  covered : ∀ τ : ℤ, s.clock ≤ τ → s.admitted.countP (fun r => τ - windowMs policy < r.now)
    ≤ after (τ - windowMs policy) s.entries
  bounded : Bounded policy s

/-- What the script keeps. -/
def Run.kept (policy : YamlDescriptor) (s : Run) (e : Event) : AMap String ℤ :=
  purge e.request.now (windowMs policy) (s.found e)

theorem answer_cases (policy : YamlDescriptor) (s : Run) (e : Event) :
    ((s.kept policy e).entries.length < policy.limit.toNat
        ∧ (s.answer policy e).1.allowed = true
        ∧ (s.answer policy e).2 = (s.kept policy e).insert e.request.memberID e.request.now)
      ∨ (policy.limit.toNat ≤ (s.kept policy e).entries.length
        ∧ (s.answer policy e).1.allowed = false ∧ (s.answer policy e).2 = s.kept policy e) := by
  unfold Run.answer script
  dsimp only
  split_ifs with hlt
  · exact .inl ⟨by exact_mod_cast hlt, rfl, rfl⟩
  · exact .inr ⟨by exact_mod_cast not_lt.mp hlt, rfl, rfl⟩

theorem Logged.found_recorded (h : Logged policy s) {member : String} {score : ℤ}
    (hlookup : (s.found e).lookup member = some score) :
    ∃ r ∈ s.admitted, r.memberID = member ∧ (r.now : ℤ) = score := by
  unfold Run.found at hlookup
  cases hexpired : e.expired with
  | true =>
    rw [hexpired, if_pos rfl] at hlookup
    cases hlookup
  | false =>
    rw [hexpired, if_neg (by simp)] at hlookup
    exact h.recorded member score hlookup

theorem Logged.found_covered (h : Logged policy s) (hk : s.Kept policy e) {τ : ℤ}
    (hτ : e.request.now ≤ τ) :
    s.admitted.countP (fun r => τ - windowMs policy < r.now)
      ≤ after (τ - windowMs policy) (s.found e) := by
  have hlater := hk.later
  have hcovered := h.covered τ (by omega)
  unfold Run.found
  cases hexpired : e.expired with
  | false =>
    rw [if_neg (by simp)]
    exact hcovered
  | true =>
    have hnone : after (τ - windowMs policy) s.entries = 0 := by
      refine List.countP_eq_zero.mpr fun entry hentry => ?_
      have hscore := hk.kept hexpired entry.1 entry.2 (AMap.lookup_eq_some_iff.mpr hentry)
      simp only [decide_eq_true_eq]
      omega
    omega

/-- The requests that a request finds in the window. -/
theorem Logged.length_kept (h : Logged policy s) (hk : s.Kept policy e) :
    s.admitted.countP (fun r => e.request.now - windowMs policy < r.now)
      ≤ (s.kept policy e).entries.length := by
  have hnonneg : ∀ member score, (s.found e).lookup member = some score → 0 ≤ score := by
    intro member score hlookup
    obtain ⟨r, -, -, rfl⟩ := h.found_recorded hlookup
    exact Int.natCast_nonneg _
  unfold Run.kept
  rw [length_purge hnonneg]
  exact h.found_covered hk (Int.le_refl _)

theorem Logged.lookup_memberID (h : Logged policy s)
    (hfresh : policy.limit.toNat ≤ 1 ∨ s.Fresh policy e)
    (hlt : (s.kept policy e).entries.length < policy.limit.toNat) :
    (s.kept policy e).lookup e.request.memberID = none := by
  cases hlookup : (s.kept policy e).lookup e.request.memberID with
  | none => rfl
  | some score =>
    have hentry := AMap.lookup_eq_some_iff.mp hlookup
    have hpos := List.length_pos_of_mem hentry
    rcases hfresh with hone | hfresh
    · omega
    · obtain ⟨hfound, hkept⟩ := List.mem_filter.mp hentry
      obtain ⟨r, hr, hmember, hscore⟩ :=
        h.found_recorded (AMap.lookup_eq_some_iff.mpr hfound)
      simp only [decide_eq_true_eq] at hkept
      exact absurd (memberID_inj hmember) (hfresh r hr (by omega))

theorem Logged.kept_recorded (h : Logged policy s) {member : String} {score : ℤ}
    (hlookup : (s.kept policy e).lookup member = some score) :
    ∃ r ∈ s.admitted, r.memberID = member ∧ (r.now : ℤ) = score := by
  have hentry := AMap.lookup_eq_some_iff.mp hlookup
  exact h.found_recorded (AMap.lookup_eq_some_iff.mpr (List.mem_of_mem_filter hentry))

theorem Logged.kept_covered (h : Logged policy s) (hk : s.Kept policy e) {τ : ℤ}
    (hτ : e.request.now ≤ τ) :
    s.admitted.countP (fun r => τ - windowMs policy < r.now)
      ≤ after (τ - windowMs policy) (s.kept policy e) := by
  unfold Run.kept
  rw [after_purge (by omega)]
  exact h.found_covered hk hτ

theorem Logged.past_step (h : Logged policy s) (hk : s.Kept policy e) :
    ∀ r ∈ s.admitted, r.now ≤ e.request.now :=
  fun r hr => (h.past r hr).trans hk.later

theorem Logged.refused (h : Logged policy s) (hk : s.Kept policy e) :
    Logged policy ⟨s.kept policy e, s.admitted, e.request.now⟩ where
  recorded _ _ hlookup := h.kept_recorded hlookup
  past := h.past_step hk
  covered _ hτ := h.kept_covered hk hτ
  bounded := h.bounded

theorem Logged.allowed (h : Logged policy s) (hk : s.Kept policy e)
    (hnew : (s.kept policy e).lookup e.request.memberID = none)
    (hlt : (s.kept policy e).entries.length < policy.limit.toNat) :
    Logged policy ⟨(s.kept policy e).insert e.request.memberID e.request.now,
      e.request :: s.admitted, e.request.now⟩ where
  recorded member score hlookup := by
    rw [AMap.lookup_insert_ite] at hlookup
    split at hlookup
    · case isTrue hmember =>
        exact ⟨e.request, List.mem_cons_self, hmember.symm, Option.some.inj hlookup⟩
    · obtain ⟨r, hr, hrecorded⟩ := h.kept_recorded hlookup
      exact ⟨r, List.mem_cons_of_mem _ hr, hrecorded⟩
  past r hr := by
    rcases List.mem_cons.mp hr with rfl | hr
    · exact Nat.le_refl _
    · exact h.past_step hk r hr
  covered τ hτ := by
    have hcovered := h.kept_covered hk hτ
    rw [after_insert hnew, List.countP_cons]
    simp only [decide_eq_true_eq]
    omega
  bounded t := by
    have hbounded := h.bounded t
    rw [List.countP_cons]
    split
    · case isTrue hin =>
        simp only [decide_eq_true_eq] at hin
        -- What the interval has besides the new request was in its window as well.
        have hwindow : s.admitted.countP (fun r => t - windowMs policy < r.now ∧ r.now ≤ t)
            ≤ s.admitted.countP (fun r => e.request.now - windowMs policy < r.now) := by
          refine List.countP_mono_left fun r _ hr => ?_
          simp only [decide_eq_true_eq] at hr ⊢
          omega
        have hlength := h.length_kept hk
        omega
    · omega

theorem Logged.step (h : Logged policy s) (hk : s.Kept policy e)
    (hfresh : policy.limit.toNat ≤ 1 ∨ s.Fresh policy e) : Logged policy (s.step policy e) := by
  rcases answer_cases policy s e with ⟨hlt, hallowed, hentries⟩ | ⟨-, hrefused, hentries⟩
  · have hstep : s.step policy e = ⟨(s.kept policy e).insert e.request.memberID e.request.now,
        e.request :: s.admitted, e.request.now⟩ := by
      unfold Run.step
      rw [hallowed, hentries, if_pos rfl]
    rw [hstep]
    exact h.allowed hk (h.lookup_memberID hfresh hlt) hlt
  · have hstep : s.step policy e = ⟨s.kept policy e, s.admitted, e.request.now⟩ := by
      unfold Run.step
      rw [hrefused, hentries, if_neg (by simp)]
    rw [hstep]
    exact h.refused hk

end Logged

/-! ## One member, many requests -/

section Repeated

variable (policy : YamlDescriptor)

/-- A request with an id of the client's choice. -/
def repeated : Event := ⟨{ now := 0, micro := 0, requestID := "x" }, false⟩

/-- The set has the one member of these requests, or none. -/
structure OnlyRepeated (n : Nat) (s : Run) : Prop where
  admitted : s.admitted = List.replicate n repeated.request
  entries : s.entries = ∅ ∨ s.entries = (∅ : AMap String ℤ).insert repeated.request.memberID 0
  clock : s.clock = 0

theorem windowMs_pos : 0 < windowMs policy := by
  have hdivider := getDivider_pos policy.unit
  unfold windowMs
  omega

variable {policy}

theorem OnlyRepeated.kept {n : Nat} {s : Run} (h : OnlyRepeated n s) :
    s.kept policy repeated = s.entries := by
  have hpos := windowMs_pos policy
  refine AList.ext (List.filter_eq_self.mpr fun entry hentry => ?_)
  have hscore : entry.2 = 0 := by
    rcases h.entries with hnone | hone
    · rw [show s.found repeated = s.entries from rfl, hnone] at hentry
      exact absurd hentry List.not_mem_nil
    · rw [show s.found repeated = s.entries from rfl, hone] at hentry
      rw [List.mem_singleton.mp hentry]
  simp only [decide_eq_true_eq]
  rw [hscore]
  show ¬ ((0 : ℤ) ≤ 0 ∧ 0 ≤ ((0 : Nat) : ℤ) - windowMs policy)
  omega

theorem OnlyRepeated.step {n : Nat} {s : Run} (h : OnlyRepeated n s)
    (hlimit : 2 ≤ policy.limit.toNat) : OnlyRepeated (n + 1) (s.step policy repeated) := by
  have hlength : s.entries.entries.length ≤ 1 := by
    rcases h.entries with hnone | hone
    · rw [hnone]
      exact Nat.zero_le 1
    · rw [hone]
      exact Nat.le_refl 1
  rcases answer_cases policy s repeated with ⟨-, hallowed, hentries⟩ | ⟨hle, -, -⟩
  · rw [h.kept] at hentries
    refine ⟨?_, .inr ?_, rfl⟩
    · show (if _ then _ else _) = _
      rw [if_pos hallowed, h.admitted]
      rfl
    · show (s.answer policy repeated).2 = _
      rw [hentries]
      rcases h.entries with hnone | hone
      · rw [hnone]
        rfl
      · rw [hone]
        exact AList.insert_insert _
  · rw [h.kept] at hle
    omega

theorem exists_repeated (hlimit : 2 ≤ policy.limit.toNat) (n : Nat) :
    ∃ s, (logSys policy).ReachableUnder (Run.Kept policy) s ∧ OnlyRepeated n s := by
  induction n with
  | zero => exact ⟨{}, .init rfl, rfl, .inl rfl, rfl⟩
  | succ n ih =>
    obtain ⟨s, hreach, hs⟩ := ih
    have hkept : s.Kept policy repeated :=
      ⟨by rw [hs.clock]; exact Nat.le_refl 0, fun h => absurd h (by decide)⟩
    exact ⟨_, hreach.step hkept rfl, hs.step hlimit⟩

end Repeated

/-! ## The bound -/

/-- If members are different or the limit is at most one, no interval has more
requests than the limit; with any members, that is so exactly if the limit is at most
one. -/
theorem sliding_log_bounded (policy : YamlDescriptor) :
    (∀ s, (logSys policy).ReachableUnder
        (fun s e => s.Kept policy e ∧ (policy.limit.toNat ≤ 1 ∨ s.Fresh policy e)) s →
        Bounded policy s)
      ∧ ((∀ s, (logSys policy).ReachableUnder (Run.Kept policy) s → Bounded policy s)
          ↔ policy.limit.toNat ≤ 1) := by
  have hlogged : (logSys policy).Inductive
      (fun s e => s.Kept policy e ∧ (policy.limit.toNat ≤ 1 ∨ s.Fresh policy e))
      (Logged policy) := by
    refine ⟨fun s hs => ?_, fun s e s' h hok hstep => ?_⟩
    · rw [hs]
      exact ⟨fun _ _ h => absurd h (by simp), fun _ hr => absurd hr (by simp),
        fun _ _ => Nat.zero_le _, fun _ => Nat.zero_le _⟩
    · cases hstep
      exact h.step hok.1 hok.2
  refine ⟨fun s hs => (hlogged.invariant hs).bounded, fun h => ?_, fun hone s hs => ?_⟩
  · by_contra hmany
    obtain ⟨s, hreach, hs⟩ := exists_repeated (show 2 ≤ policy.limit.toNat by omega)
      (policy.limit.toNat + 1)
    have hbound := h s hreach 0
    have hpos := windowMs_pos policy
    rw [hs.admitted, List.countP_replicate, if_pos] at hbound
    · omega
    · simp only [decide_eq_true_eq]
      exact ⟨by show 0 - windowMs policy < ((0 : Nat) : ℤ); omega, Int.le_refl 0⟩
  · refine (hlogged.invariant (hs.map id id (fun _ hi => hi) ?_)).bounded
    exact fun s e s' hok hstep => ⟨⟨hok, .inl hone⟩, hstep⟩

/-! ## Three requests -/

def twoPolicy : YamlDescriptor := { limit := 2, unit := "second" }

def thrice : Run :=
  ((({} : Run).step twoPolicy repeated).step twoPolicy repeated).step twoPolicy repeated

/-- A client that may send two requests a second has three of them admitted. -/
theorem repeated_admitted :
    (logSys twoPolicy).ReachableUnder (Run.Kept twoPolicy) thrice
      ∧ ¬ Bounded twoPolicy thrice := by
  have hkept : ∀ s : Run, s.clock = 0 → s.Kept twoPolicy repeated :=
    fun s hs => ⟨hs.le, fun h => absurd h (by decide)⟩
  have hstart : (logSys twoPolicy).ReachableUnder (Run.Kept twoPolicy) {} := .init rfl
  have honce := hstart.step (hkept _ rfl) rfl
  have htwice := honce.step (hkept _ rfl) rfl
  exact ⟨htwice.step (hkept _ rfl) rfl, fun h => absurd (h 0) (by decide +kernel)⟩

end Hypergate.Filters.RateLimiter.SlidingLog
