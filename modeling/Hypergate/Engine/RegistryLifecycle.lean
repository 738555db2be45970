import Hypergate.Engine.RegistrySteps

/-!
# What every interleaving of the registry preserves

`Lifecycle` is inductive over all steps; `Drained` is inductive over the steps
that meet `RetiredLoadAtZero`. Together they give `CleanupOk`, the contract of
`Swap`'s cleanup.
-/

namespace Hypergate.Engine

open Hypergate.Lib

universe u v

variable {α : Type u} {γ : Type v}

/-- The bookkeeping of snapshots and threads. -/
structure Lifecycle (σ : RegState α γ) : Prop where
  refs_held : ∀ s, (σ.reg.heap s).refs = σ.held s
  current_lt : σ.reg.current < σ.reg.fresh
  current_live : σ.replaced σ.reg.current = none
  unborn : ∀ s, σ.reg.fresh ≤ s → σ.held s = 0 ∧ σ.replaced s = none
  /-- Nobody touches the lifecycle fields of a snapshot no `Swap` replaced. -/
  live : ∀ s, σ.replaced s = none →
    (σ.reg.heap s).retired = false ∧ (σ.reg.heap s).cleaned = false
  retiring_once : ∀ t t' s, (σ.pc t).retiring = some s → (σ.pc t').retiring = some s →
    t = t'
  retiring : ∀ t s, (σ.pc t).retiring = some s →
    (σ.replaced s).isSome = true ∧ (σ.reg.heap s).retired = false ∧
      (σ.reg.heap s).cleaned = false
  storeCleanup : ∀ t s c, σ.pc t = .storeCleanup s c → σ.replaced s = some c
  storeRetired : ∀ t s, σ.pc t = .storeRetired s →
    σ.replaced s = some (σ.reg.heap s).cleanup
  retired : ∀ s, (σ.reg.heap s).retired = true →
    σ.replaced s = some (σ.reg.heap s).cleanup
  /-- A replaced snapshot is retired, or the `Swap` that will retire it is
  still running. -/
  progress : ∀ s, (σ.replaced s).isSome = true →
    (∃ t, (σ.pc t).retiring = some s) ∨ (σ.reg.heap s).retired = true
  loadRefs : ∀ t s, σ.pc t = .loadRefs s → (σ.reg.heap s).retired = true
  runCleanup : ∀ t s, σ.pc t = .runCleanup s → (σ.reg.heap s).retired = true
  cleaned : ∀ s, (σ.reg.heap s).cleaned = true → (σ.reg.heap s).retired = true
  ran : ∀ s c, (s, c) ∈ σ.ran ↔
    (σ.reg.heap s).cleaned = true ∧ (σ.reg.heap s).cleanup = some c
  ran_nodup : (σ.ran.map Prod.fst).Nodup
  /-- The cleanup of a retired snapshot without references has run, or some
  call in flight will come to it. -/
  pending : ∀ s, (σ.reg.heap s).retired = true → (σ.reg.heap s).refs = 0 →
    (σ.reg.heap s).cleaned = true ∨ ∃ t, (σ.pc t).watching = some s

/-- A step that moves counters and one thread, and nothing else. -/
structure CountersOnly (σ σ' : RegState α γ) (t : Nat) (p : Pc γ) : Prop where
  current : σ'.reg.current = σ.reg.current
  fresh : σ'.reg.fresh = σ.reg.fresh
  replaced : σ'.replaced = σ.replaced
  ran : σ'.ran = σ.ran
  pc : σ'.pc = Function.update σ.pc t p
  retired : ∀ s, (σ'.reg.heap s).retired = (σ.reg.heap s).retired
  cleanup : ∀ s, (σ'.reg.heap s).cleanup = (σ.reg.heap s).cleanup
  cleaned : ∀ s, (σ'.reg.heap s).cleaned = (σ.reg.heap s).cleaned

variable {σ : RegState α γ}

theorem ne_of_retired {s s' : Nat} (h : (σ.reg.heap s).retired = true)
    (h' : (σ.reg.heap s').retired = false) : s ≠ s' := by
  rintro rfl
  simp [h] at h'

theorem ne_of_replaced {s s' : Nat} (h : (σ.replaced s).isSome = true) (h' : σ.replaced s' = none) :
    s ≠ s' := by
  rintro rfl
  simp [h'] at h

namespace Lifecycle

variable {σ : RegState α γ}

theorem current_down (h : Lifecycle σ) :
    (σ.reg.heap σ.reg.current).retired = false :=
  (h.live _ h.current_live).1

theorem start (policy : α) : Lifecycle (.start policy : RegState α γ) := by
  constructor <;> simp [RegState.start, ChainRegistry.new, Pc.retiring]

/-- The frame rule: a step that moves only counters and a thread outside
`retire`'s stores keeps the bookkeeping, if the counters still count and the
drained snapshots are still watched. -/
theorem frame {σ σ' : RegState α γ} (h : Lifecycle σ) {t : Nat} {p : Pc γ}
    (hf : CountersOnly σ σ' t p) (hold : (σ.pc t).retiring = none)
    (hnew : p.retiring = none)
    (hload : ∀ s, p = .loadRefs s ∨ p = .runCleanup s → (σ.reg.heap s).retired = true)
    (hrefs : ∀ s, (σ'.reg.heap s).refs = σ'.held s)
    (hunborn : ∀ s, σ.reg.fresh ≤ s → σ'.held s = 0)
    (hpend : ∀ s, (σ.reg.heap s).retired = true → (σ'.reg.heap s).refs = 0 →
      (σ.reg.heap s).cleaned = true ∨ ∃ t', (σ'.pc t').watching = some s) :
    Lifecycle σ' := by
  -- every thread but `t` stands where it stood, and `t` retires nothing
  have hretiring : ∀ t' s, (σ'.pc t').retiring = some s → (σ.pc t').retiring = some s := by
    intro t' s ht'
    rw [hf.pc] at ht'
    exact stood Pc.retiring (by simp [hnew]) ht'
  have hpcs : ∀ t' q, q.retiring.isSome = true → σ'.pc t' = q → σ.pc t' = q := by
    intro t' q hq ht'
    rw [hf.pc] at ht'
    exact stood id (by rintro rfl; simp [hnew] at hq) ht'
  constructor
  case refs_held => exact hrefs
  case current_lt => rw [hf.current, hf.fresh]; exact h.current_lt
  case current_live => rw [hf.current, hf.replaced]; exact h.current_live
  case unborn =>
    intro s hs
    rw [hf.fresh] at hs
    exact ⟨hunborn s hs, by rw [hf.replaced]; exact (h.unborn s hs).2⟩
  case live =>
    intro s hs
    rw [hf.replaced] at hs
    rw [hf.retired, hf.cleaned]
    exact h.live s hs
  case retiring_once =>
    intro t1 t2 s h1 h2
    exact h.retiring_once t1 t2 s (hretiring t1 s h1) (hretiring t2 s h2)
  case retiring =>
    intro t' s ht'
    rw [hf.replaced, hf.retired, hf.cleaned]
    exact h.retiring t' s (hretiring t' s ht')
  case storeCleanup =>
    intro t' s c ht'
    rw [hf.replaced]
    exact h.storeCleanup t' s c (hpcs t' _ rfl ht')
  case storeRetired =>
    intro t' s ht'
    rw [hf.replaced, hf.cleanup]
    exact h.storeRetired t' s (hpcs t' _ rfl ht')
  case retired =>
    intro s hs
    rw [hf.retired] at hs
    rw [hf.replaced, hf.cleanup]
    exact h.retired s hs
  case progress =>
    intro s hs
    rw [hf.replaced] at hs
    rw [hf.retired, hf.pc]
    exact (h.progress s hs).imp (exists_stood Pc.retiring (by simp [hold])) id
  case loadRefs =>
    intro t' s ht'
    rw [hf.retired]
    rw [hf.pc, Function.update_apply] at ht'
    split at ht'
    · exact hload s (.inl ht')
    · exact h.loadRefs t' s ht'
  case runCleanup =>
    intro t' s ht'
    rw [hf.retired]
    rw [hf.pc, Function.update_apply] at ht'
    split at ht'
    · exact hload s (.inr ht')
    · exact h.runCleanup t' s ht'
  case cleaned =>
    intro s hs
    rw [hf.cleaned] at hs
    rw [hf.retired]
    exact h.cleaned s hs
  case ran =>
    intro s c
    rw [hf.ran, hf.cleaned, hf.cleanup]
    exact h.ran s c
  case ran_nodup => rw [hf.ran]; exact h.ran_nodup
  case pending =>
    intro s hr hz
    rw [hf.retired] at hr
    rw [hf.cleaned]
    exact hpend s hr hz

/-- `Acquire` touches only the counter of the current snapshot, which is not
retired. -/
theorem acquire (h : Lifecycle σ) {t : Nat} (hidle : σ.pc t = .idle) :
    Lifecycle σ.acquire := by
  refine h.frame (t := t) (p := .idle) ?_ (by rw [hidle]; rfl) rfl (by simp) ?_ ?_ ?_
  · refine ⟨rfl, rfl, rfl, rfl, by rw [← hidle, Function.update_eq_self]; rfl, ?_, ?_, ?_⟩ <;>
      · intro s
        rw [σ.acquire_heap]
        split <;> rfl
  · intro s
    rw [σ.acquire_heap, σ.acquire_held]
    split <;> simp [h.refs_held s]
  · intro s hs
    have hne : s ≠ σ.reg.current := by have := h.current_lt; omega
    rw [σ.acquire_held, if_neg hne]
    exact (h.unborn s hs).1
  · intro s hr hz
    rw [σ.acquire_heap, if_neg (ne_of_retired hr h.current_down)] at hz
    exact h.pending s hr hz

/-- The decrement of a `Release`: if it reaches zero, the thread goes on to
load the retired flag and so watches the snapshot. -/
theorem decrement (h : Lifecycle σ) {t : Nat} (hidle : σ.pc t = .idle) {s : Nat}
    (hheld : 0 < σ.held s) : Lifecycle (σ.decrement t s) := by
  refine h.frame (t := t)
    (p := if (σ.reg.heap s).refs - 1 = 0 then .loadRetired s else .idle) ?_
    (by rw [hidle]; rfl) (by split <;> rfl) (by intro s'; split <;> simp) ?_ ?_ ?_
  · refine ⟨rfl, rfl, rfl, rfl, rfl, ?_, ?_, ?_⟩ <;>
      · intro s'
        rw [σ.decrement_heap]
        split <;> rfl
  · intro s'
    have hs' := h.refs_held s'
    rw [σ.decrement_heap, σ.decrement_held]
    split
    · subst s'; simp only; omega
    · exact hs'
  · intro s' hs'
    have hz := (h.unborn s' hs').1
    rw [σ.decrement_held]
    split <;> omega
  · intro s' hr hz
    rw [σ.decrement_heap] at hz
    by_cases hs : s' = s
    · subst hs
      have hz' : (σ.reg.heap s').refs - 1 = 0 := by simpa using hz
      exact .inr ⟨t, by simp [RegState.decrement, hz', Pc.watching]⟩
    · rw [if_neg hs] at hz
      exact (h.pending s' hr hz).imp id (exists_stood Pc.watching (by simp [hidle, Pc.watching]))

/-- The two loads: the thread leaves its snapshot unwatched only when there is
nothing to clean yet. -/
theorem load (h : Lifecycle σ) {t : Nat} {s : Nat} {b : Bool} (hold : (σ.pc t).retiring = none)
    (hwatch : (σ.pc t).watching = some s) (hyes : b = true → (σ.reg.heap s).retired = true)
    (hno : b = false → ¬ ((σ.reg.heap s).retired = true ∧ (σ.reg.heap s).refs = 0)) :
    Lifecycle (σ.setPc t (if b then .runCleanup s else .idle)) := by
  refine h.frame (t := t) ⟨rfl, rfl, rfl, rfl, rfl, fun _ => rfl, fun _ => rfl, fun _ => rfl⟩
    hold (by split <;> rfl) ?_ h.refs_held (fun s' hs' => (h.unborn s' hs').1) ?_
  · intro s' hs'
    cases b with
    | true =>
      have : s' = s := by simpa [eq_comm] using hs'
      exact this ▸ hyes rfl
    | false => exact absurd hs' (by simp)
  · intro s' hr hz
    refine (h.pending s' hr hz).imp id ?_
    rintro ⟨t', ht'⟩
    by_cases hne : t' = t
    · subst hne
      rw [hwatch] at ht'
      cases ht'
      cases b with
      | true => exact ⟨t', by simp [RegState.setPc, Pc.watching]⟩
      | false => exact absurd ⟨hr, hz⟩ (hno rfl)
    · exact ⟨t', by simpa [RegState.setPc, Function.update_of_ne hne] using ht'⟩

/-- The write-locked section of `Swap`: the replaced snapshot enters `retire`,
and the new one is untouched. -/
theorem install (h : Lifecycle σ) {t : Nat} (hidle : σ.pc t = .idle) (next : α) (c : Option γ) :
    Lifecycle (σ.install t next c) := by
  have hlt := h.current_lt
  have hfresh := h.unborn _ (Nat.le_refl σ.reg.fresh)
  have hpc : ∀ t', (σ.install t next c).pc t' =
      if t' = t then .storeCleanup σ.reg.current c else σ.pc t' :=
    fun t' => σ.setPc_pc t t' _
  -- nobody else is retiring the current snapshot: nothing has replaced it
  have hfree : ∀ t' s, (σ.pc t').retiring = some s → s ≠ σ.reg.current :=
    fun t' s ht' => ne_of_replaced (h.retiring t' s ht').1 h.current_live
  have hold : ∀ s, (σ.reg.heap s).retired = true →
      ((σ.install t next c).reg.heap s).retired = true := by
    intro s hs
    rw [σ.install_heap, if_neg (ne_of_retired hs (h.live _ hfresh.2).1)]
    exact hs
  constructor
  case refs_held =>
    intro s
    rw [σ.install_heap]
    split
    · subst s; simp [RegState.install, hfresh.1]
    · exact h.refs_held s
  case current_lt => exact Nat.lt_succ_self _
  case current_live =>
    show (σ.install t next c).replaced σ.reg.fresh = none
    rw [σ.install_replaced, if_neg (by omega)]
    exact hfresh.2
  case unborn =>
    intro s hs
    have hs' : σ.reg.fresh < s := hs
    rw [σ.install_replaced, if_neg (by omega)]
    exact h.unborn s (by omega)
  case live =>
    intro s hs
    rw [σ.install_replaced] at hs
    rw [σ.install_heap]
    split at hs
    · cases hs
    · split
      · exact ⟨rfl, rfl⟩
      · exact h.live s hs
  case retiring_once =>
    intro t1 t2 s h1 h2
    rw [hpc] at h1 h2
    split at h1 <;> split at h2
    · simp_all
    · exact absurd (Option.some.inj h1).symm (hfree t2 s h2)
    · exact absurd (Option.some.inj h2).symm (hfree t1 s h1)
    · exact h.retiring_once t1 t2 s h1 h2
  case retiring =>
    intro t' s ht'
    rw [hpc] at ht'
    rw [σ.install_replaced, σ.install_heap]
    split at ht'
    · cases ht'
      rw [if_pos rfl, if_neg (by omega)]
      exact ⟨rfl, h.live _ h.current_live⟩
    · have hs := h.retiring t' s ht'
      rw [if_neg (hfree t' s ht'), if_neg (ne_of_replaced hs.1 hfresh.2)]
      exact hs
  case storeCleanup =>
    intro t' s c' ht'
    rw [hpc] at ht'
    rw [σ.install_replaced]
    split at ht'
    · cases ht'; rw [if_pos rfl]
    · rw [if_neg (hfree t' s (by rw [ht']; rfl))]
      exact h.storeCleanup t' s c' ht'
  case storeRetired =>
    intro t' s ht'
    have hbefore : σ.pc t' = .storeRetired s := stood id (by simp) ht'
    have hs := h.storeRetired t' s hbefore
    rw [σ.install_replaced, σ.install_heap, if_neg (hfree t' s (by rw [hbefore]; rfl)),
      if_neg (ne_of_replaced (by rw [hs]; rfl) hfresh.2)]
    exact hs
  case retired =>
    intro s hs
    rw [σ.install_heap] at hs ⊢
    split at hs
    · cases hs
    · rename_i hne
      rw [σ.install_replaced, if_neg (ne_of_retired hs h.current_down), if_neg hne]
      exact h.retired s hs
  case progress =>
    intro s hs
    rw [σ.install_replaced] at hs
    by_cases hsc : s = σ.reg.current
    · exact .inl ⟨t, by rw [hpc, if_pos rfl, hsc]; rfl⟩
    · rw [if_neg hsc] at hs
      exact (h.progress s hs).imp (exists_stood Pc.retiring (by simp [hidle, Pc.retiring]))
        (hold s)
  case loadRefs => exact fun t' s ht' => hold s (h.loadRefs t' s (stood id (by simp) ht'))
  case runCleanup => exact fun t' s ht' => hold s (h.runCleanup t' s (stood id (by simp) ht'))
  case cleaned =>
    intro s hs
    rw [σ.install_heap] at hs
    split at hs
    · cases hs
    · exact hold s (h.cleaned s hs)
  case ran =>
    intro s c'
    rw [σ.install_heap]
    split
    · subst s
      have hf := h.live _ hfresh.2
      exact ⟨fun hm => absurd ((h.ran _ _).mp hm).1 (by simp [hf.2]),
        fun hm => absurd hm.1 (by simp)⟩
    · exact h.ran s c'
  case ran_nodup => exact h.ran_nodup
  case pending =>
    intro s hr hz
    rw [σ.install_heap] at hr hz ⊢
    split at hr
    · cases hr
    · rename_i hne
      rw [if_neg hne] at hz ⊢
      exact (h.pending s hr hz).imp id (exists_stood Pc.watching (by simp [hidle, Pc.watching]))

/-- The cleanup store of `retire`: the flag is still down, so nobody has read
the field yet. -/
theorem putCleanup (h : Lifecycle σ) {t s : Nat} {c : Option γ} (hpc : σ.pc t = .storeCleanup s c) :
    Lifecycle (σ.putCleanup t s c) := by
  have hmine : (σ.pc t).retiring = some s := by rw [hpc]; rfl
  have hdown := (h.retiring t s hmine).2
  have hpc' : ∀ t', (σ.putCleanup t s c).pc t' =
      if t' = t then .storeRetired s else σ.pc t' := fun t' => σ.setPc_pc t t' _
  have hret : ∀ s', ((σ.putCleanup t s c).reg.heap s').retired = (σ.reg.heap s').retired := by
    intro s'; rw [σ.putCleanup_heap]; split <;> rfl
  have hcln : ∀ s', ((σ.putCleanup t s c).reg.heap s').cleaned = (σ.reg.heap s').cleaned := by
    intro s'; rw [σ.putCleanup_heap]; split <;> rfl
  have hrefs : ∀ s', ((σ.putCleanup t s c).reg.heap s').refs = (σ.reg.heap s').refs := by
    intro s'; rw [σ.putCleanup_heap]; split <;> rfl
  have hother : ∀ s', (σ.reg.heap s').retired = true ∨ (σ.reg.heap s').cleaned = true →
      ((σ.putCleanup t s c).reg.heap s').cleanup = (σ.reg.heap s').cleanup := by
    intro s' hs'
    have hne : s' ≠ s := by
      rintro rfl
      simp [hdown.1, hdown.2] at hs'
    rw [σ.putCleanup_heap, if_neg hne]
  -- the set of retiring threads is what it was
  have hsame : ∀ t', ((σ.putCleanup t s c).pc t').retiring = (σ.pc t').retiring := by
    intro t'
    rw [hpc']
    split
    · subst t'; exact hmine.symm
    · rfl
  have hfree : ∀ t' s', t' ≠ t → (σ.pc t').retiring = some s' → s' ≠ s := by
    rintro t' s' hne ht' rfl
    exact hne (h.retiring_once t' t s' ht' hmine)
  constructor
  case refs_held => intro s'; rw [hrefs]; exact h.refs_held s'
  case current_lt => exact h.current_lt
  case current_live => exact h.current_live
  case unborn => exact h.unborn
  case live => intro s' hs'; rw [hret, hcln]; exact h.live s' hs'
  case retiring_once =>
    intro t1 t2 s' h1 h2
    rw [hsame] at h1 h2
    exact h.retiring_once t1 t2 s' h1 h2
  case retiring =>
    intro t' s' ht'
    rw [hsame] at ht'
    rw [hret, hcln]
    exact h.retiring t' s' ht'
  case storeCleanup =>
    exact fun t' s' c' ht' => h.storeCleanup t' s' c' (stood id (by simp) ht')
  case storeRetired =>
    intro t' s' ht'
    rw [hpc'] at ht'
    rw [σ.putCleanup_heap]
    split at ht'
    · cases ht'
      rw [if_pos rfl]
      exact h.storeCleanup t s c hpc
    · rename_i hne
      rw [if_neg (hfree t' s' hne (by rw [ht']; rfl))]
      exact h.storeRetired t' s' ht'
  case retired =>
    intro s' hs'
    rw [hret] at hs'
    rw [hother s' (.inl hs')]
    exact h.retired s' hs'
  case progress =>
    intro s' hs'
    rw [hret]
    refine (h.progress s' hs').imp ?_ id
    rintro ⟨t', ht'⟩
    exact ⟨t', by rw [hsame]; exact ht'⟩
  case loadRefs =>
    intro t' s' ht'
    rw [hret]
    exact h.loadRefs t' s' (stood id (by simp) ht')
  case runCleanup =>
    intro t' s' ht'
    rw [hret]
    exact h.runCleanup t' s' (stood id (by simp) ht')
  case cleaned => intro s' hs'; rw [hcln] at hs'; rw [hret]; exact h.cleaned s' hs'
  case ran =>
    intro s' c'
    rw [hcln]
    by_cases hc : (σ.reg.heap s').cleaned = true
    · rw [hother s' (.inr hc)]; exact h.ran s' c'
    · exact ⟨fun hm => absurd ((h.ran s' c').mp hm).1 hc, fun hm => absurd hm.1 hc⟩
  case ran_nodup => exact h.ran_nodup
  case pending =>
    intro s' hr hz
    rw [hret] at hr
    rw [hrefs] at hz
    rw [hcln]
    exact (h.pending s' hr hz).imp id (exists_stood Pc.watching (by simp [hpc, Pc.watching]))

/-- The flag store of `retire`: from here on the thread itself watches the
snapshot. -/
theorem putRetired (h : Lifecycle σ) {t s : Nat} (hpc : σ.pc t = .storeRetired s) :
    Lifecycle (σ.putRetired t s) := by
  have hmine : (σ.pc t).retiring = some s := by rw [hpc]; rfl
  obtain ⟨hrep, _, hdown⟩ := h.retiring t s hmine
  have hpc' : ∀ t', (σ.putRetired t s).pc t' =
      if t' = t then .loadRefs s else σ.pc t' := fun t' => σ.setPc_pc t t' _
  have hret : ∀ s', ((σ.putRetired t s).reg.heap s').retired = true ↔
      s' = s ∨ (σ.reg.heap s').retired = true := by
    intro s'; rw [σ.putRetired_heap]; split <;> simp_all
  have hkeep : ∀ s', ((σ.putRetired t s).reg.heap s').refs = (σ.reg.heap s').refs ∧
      ((σ.putRetired t s).reg.heap s').cleanup = (σ.reg.heap s').cleanup ∧
      ((σ.putRetired t s).reg.heap s').cleaned = (σ.reg.heap s').cleaned := by
    intro s'; rw [σ.putRetired_heap]; split <;> exact ⟨rfl, rfl, rfl⟩
  -- `t` was the only thread retiring `s`, and now retires nothing
  have hstill : ∀ t' s', ((σ.putRetired t s).pc t').retiring = some s' →
      (σ.pc t').retiring = some s' ∧ s' ≠ s := by
    intro t' s' ht'
    rw [hpc'] at ht'
    split at ht'
    · cases ht'
    · rename_i hne
      refine ⟨ht', ?_⟩
      rintro rfl
      exact hne (h.retiring_once t' t s' ht' hmine)
  constructor
  case refs_held => intro s'; rw [(hkeep s').1]; exact h.refs_held s'
  case current_lt => exact h.current_lt
  case current_live => exact h.current_live
  case unborn => exact h.unborn
  case live =>
    intro s' hs'
    rw [σ.putRetired_heap, if_neg (ne_of_replaced hrep hs').symm]
    exact h.live s' hs'
  case retiring_once =>
    intro t1 t2 s' h1 h2
    exact h.retiring_once t1 t2 s' (hstill t1 s' h1).1 (hstill t2 s' h2).1
  case retiring =>
    intro t' s' ht'
    obtain ⟨ht', hne⟩ := hstill t' s' ht'
    rw [σ.putRetired_heap, if_neg hne]
    exact h.retiring t' s' ht'
  case storeCleanup =>
    exact fun t' s' c' ht' => h.storeCleanup t' s' c' (stood id (by simp) ht')
  case storeRetired =>
    intro t' s' ht'
    rw [(hkeep s').2.1]
    exact h.storeRetired t' s' (stood id (by simp) ht')
  case retired =>
    intro s' hs'
    rw [(hkeep s').2.1]
    rcases (hret s').mp hs' with rfl | hs'
    · exact h.storeRetired t s' hpc
    · exact h.retired s' hs'
  case progress =>
    intro s' hs'
    by_cases hs : s' = s
    · exact .inr ((hret s').mpr (.inl hs))
    · have hother : (σ.pc t).retiring ≠ some s' := by
        rw [hmine]
        exact fun he => hs (Option.some.inj he).symm
      exact (h.progress s' hs').imp (exists_stood Pc.retiring hother)
        fun hr => (hret s').mpr (.inr hr)
  case loadRefs =>
    intro t' s' ht'
    rw [hpc'] at ht'
    split at ht'
    · cases ht'; exact (hret s).mpr (.inl rfl)
    · exact (hret s').mpr (.inr (h.loadRefs t' s' ht'))
  case runCleanup =>
    intro t' s' ht'
    exact (hret s').mpr (.inr (h.runCleanup t' s' (stood id (by simp) ht')))
  case cleaned =>
    intro s' hs'
    rw [(hkeep s').2.2] at hs'
    exact (hret s').mpr (.inr (h.cleaned s' hs'))
  case ran => intro s' c'; rw [(hkeep s').2.1, (hkeep s').2.2]; exact h.ran s' c'
  case ran_nodup => exact h.ran_nodup
  case pending =>
    intro s' hr hz
    rw [(hkeep s').1] at hz
    rw [(hkeep s').2.2]
    by_cases hs : s' = s
    · exact .inr ⟨t, by rw [hpc', if_pos rfl, hs]; rfl⟩
    · have hr : (σ.reg.heap s').retired = true := ((hret s').mp hr).resolve_left hs
      exact (h.pending s' hr hz).imp id (exists_stood Pc.watching (by simp [hpc, Pc.watching]))

/-- `cleanOnce.Do`: only the first call on a snapshot logs its cleanup. -/
theorem clean (h : Lifecycle σ) {t s : Nat} (hpc : σ.pc t = .runCleanup s) :
    Lifecycle (σ.clean t s) := by
  have hup := h.runCleanup t s hpc
  have hkeep : ∀ s', ((σ.clean t s).reg.heap s').refs = (σ.reg.heap s').refs ∧
      ((σ.clean t s).reg.heap s').retired = (σ.reg.heap s').retired ∧
      ((σ.clean t s).reg.heap s').cleanup = (σ.reg.heap s').cleanup := by
    intro s'; rw [σ.clean_heap]; split <;> exact ⟨rfl, rfl, rfl⟩
  have hcln : ∀ s', ((σ.clean t s).reg.heap s').cleaned = true ↔
      s' = s ∨ (σ.reg.heap s').cleaned = true := by
    intro s'; rw [σ.clean_heap]; split <;> simp_all
  have hretiring : ∀ t' s', ((σ.clean t s).pc t').retiring = some s' →
      (σ.pc t').retiring = some s' :=
    fun t' s' => stood Pc.retiring (by simp [Pc.retiring])
  constructor
  case refs_held => intro s'; rw [(hkeep s').1]; exact h.refs_held s'
  case current_lt => simpa using h.current_lt
  case current_live => rw [σ.clean_current]; exact h.current_live
  case unborn => rw [σ.clean_fresh]; exact h.unborn
  case live =>
    intro s' hs'
    rw [σ.clean_heap, if_neg (ne_of_retired hup (h.live s' hs').1).symm]
    exact h.live s' hs'
  case retiring_once =>
    intro t1 t2 s' h1 h2
    exact h.retiring_once t1 t2 s' (hretiring t1 s' h1) (hretiring t2 s' h2)
  case retiring =>
    intro t' s' ht'
    have hs' := h.retiring t' s' (hretiring t' s' ht')
    rw [σ.clean_heap, if_neg (ne_of_retired hup hs'.2.1).symm]
    exact hs'
  case storeCleanup =>
    intro t' s' c' ht'
    exact h.storeCleanup t' s' c' (stood id (by simp) ht')
  case storeRetired =>
    intro t' s' ht'
    rw [(hkeep s').2.2]
    exact h.storeRetired t' s' (stood id (by simp) ht')
  case retired =>
    intro s' hs'
    rw [(hkeep s').2.1] at hs'
    rw [(hkeep s').2.2]
    exact h.retired s' hs'
  case progress =>
    intro s' hs'
    rw [(hkeep s').2.1]
    exact (h.progress s' hs').imp (exists_stood Pc.retiring (by simp [hpc, Pc.retiring])) id
  case loadRefs =>
    intro t' s' ht'
    rw [(hkeep s').2.1]
    exact h.loadRefs t' s' (stood id (by simp) ht')
  case runCleanup =>
    intro t' s' ht'
    rw [(hkeep s').2.1]
    exact h.runCleanup t' s' (stood id (by simp) ht')
  case cleaned =>
    intro s' hs'
    rw [(hkeep s').2.1]
    rcases (hcln s').mp hs' with rfl | hs'
    · exact hup
    · exact h.cleaned s' hs'
  case ran =>
    intro s' c'
    rw [hcln, (hkeep s').2.2, σ.clean_ran]
    by_cases hc : (σ.reg.heap s).cleaned = true
    · rw [if_pos hc, h.ran]
      exact and_congr_left fun _ => ⟨.inr, fun hor => hor.elim (fun he => he ▸ hc) id⟩
    · rw [if_neg hc]
      simp only [List.mem_append, h.ran, List.mem_map, Option.mem_toList, Prod.mk.injEq]
      constructor
      · rintro (⟨h1, h2⟩ | ⟨_, hm, rfl, rfl⟩)
        · exact ⟨.inr h1, h2⟩
        · exact ⟨.inl rfl, hm⟩
      · rintro ⟨rfl | h1, h2⟩
        · exact .inr ⟨c', h2, rfl, rfl⟩
        · exact .inl ⟨h1, h2⟩
  case ran_nodup =>
    rw [σ.clean_ran]
    split
    · exact h.ran_nodup
    · rename_i hc
      -- `s` is not in the log yet: it has not been cleaned
      have hnew : s ∉ σ.ran.map Prod.fst := by
        intro hm
        obtain ⟨⟨s', c'⟩, hin, rfl⟩ := List.mem_map.mp hm
        exact hc ((h.ran s' c').mp hin).1
      cases hcl : (σ.reg.heap s).cleanup with
      | none => simpa using h.ran_nodup
      | some c =>
        simp only [Option.toList_some, List.map_cons, List.map_nil, List.map_append]
        exact List.nodup_append.mpr ⟨h.ran_nodup, by simp, by rintro _ ha _ hb rfl; simp_all⟩
  case pending =>
    intro s' hr hz
    rw [(hkeep s').2.1] at hr
    rw [(hkeep s').1] at hz
    rw [hcln]
    by_cases hs : s' = s
    · exact .inl (.inl hs)
    · have hother : (σ.pc t).watching ≠ some s' := by
        rw [hpc]
        exact fun he => hs (Option.some.inj he).symm
      exact (h.pending s' hr hz).imp .inr (exists_stood Pc.watching hother)

theorem held_eq_zero (h : Lifecycle σ) {s : Nat} (hz : (σ.reg.heap s).refs = 0) : σ.held s = 0 := by
  have := h.refs_held s
  omega

/-- Every step of every thread keeps the bookkeeping. -/
theorem step {σ σ' : RegState α γ} (h : Lifecycle σ) {e : RegEvent α γ}
    (hs : σ.step e = some σ') : Lifecycle σ' := by
  cases e with
  | acquire t =>
    simp only [RegState.step] at hs
    split at hs
    · rename_i hpc
      exact Option.some.inj hs ▸ h.acquire hpc
    · cases hs
  | release t s =>
    simp only [RegState.step] at hs
    split at hs
    · rename_i hpc
      split at hs
      · rename_i hheld
        exact Option.some.inj hs ▸ h.decrement hpc hheld
      · cases hs
    · cases hs
  | swap t next cleanup =>
    simp only [RegState.step] at hs
    split at hs
    · rename_i hpc
      exact Option.some.inj hs ▸ h.install hpc next cleanup
    · cases hs
  | advance t =>
    simp only [RegState.step, RegState.advance] at hs
    split at hs
    · cases hs
    · rename_i s hpc
      exact Option.some.inj hs ▸ h.load (by rw [hpc]; rfl) (by rw [hpc]; rfl) id
        (fun hb hc => absurd hc.1 (by simp [hb]))
    · rename_i s c hpc
      exact Option.some.inj hs ▸ h.putCleanup hpc
    · rename_i s hpc
      exact Option.some.inj hs ▸ h.putRetired hpc
    · rename_i s hpc
      have hl := h.load (b := decide ((σ.reg.heap s).refs = 0)) (by rw [hpc]; rfl)
        (by rw [hpc]; rfl) (fun _ => h.loadRefs t s hpc)
        (fun hb hc => absurd hc.2 (by simpa using hb))
      simp only [decide_eq_true_eq] at hl
      exact Option.some.inj hs ▸ hl
    · rename_i s hpc
      exact Option.some.inj hs ▸ h.clean hpc

theorem invariant_step : (registrySys α γ).Inductive (fun _ _ => True) Lifecycle where
  init := by rintro σ ⟨policy, rfl⟩; exact start policy
  step := fun _ _ _ h _ hs => h.step hs

end Lifecycle

/-- A `Release` that took the counter to zero and now finds the snapshot
retired finds the counter still at zero: no `Acquire` came in between. -/
def RetiredLoadAtZero (σ : RegState α γ) (e : RegEvent α γ) : Prop :=
  ∀ s ∈ σ.loadsRetired e, (σ.reg.heap s).retired = true → (σ.reg.heap s).refs = 0

instance (σ : RegState α γ) (e : RegEvent α γ) : Decidable (RetiredLoadAtZero σ e) :=
  inferInstanceAs (Decidable (∀ s ∈ σ.loadsRetired e, _ → _))

/-- No reference is left to a snapshot whose cleanup is about to run or has
run. -/
structure Drained (σ : RegState α γ) : Prop where
  running : ∀ t s, σ.pc t = .runCleanup s → σ.held s = 0
  cleaned : ∀ s, (σ.reg.heap s).cleaned = true → σ.held s = 0

/-- The contract of the cleanup given to `Swap` for the snapshot it replaced. -/
structure CleanupOk (σ : RegState α γ) : Prop where
  /-- It runs at most once. -/
  once : (σ.ran.map Prod.fst).Nodup
  /-- It never runs while a reference to the snapshot is held. -/
  unheld : ∀ s c, (s, c) ∈ σ.ran → σ.held s = 0
  /-- It never runs before that `Swap`. -/
  swapped : ∀ s c, (s, c) ∈ σ.ran → σ.replaced s = some (some c)
  /-- It has run once all calls have returned and the references are gone. -/
  complete : (∀ t, σ.pc t = .idle) → ∀ s c, σ.replaced s = some (some c) →
    σ.held s = 0 → (s, c) ∈ σ.ran

namespace Drained

/-- A retired snapshot is not the current one, so its counter cannot rise
again. -/
theorem acquire {σ : RegState α γ} (h : Lifecycle σ) (hd : Drained σ) :
    Drained σ.acquire := by
  have hne : ∀ s, (σ.reg.heap s).retired = true → s ≠ σ.reg.current :=
    fun s hs => ne_of_retired hs h.current_down
  constructor
  · intro t s ht
    rw [σ.acquire_held, if_neg (hne s (h.runCleanup t s ht))]
    exact hd.running t s ht
  · intro s hs
    have hs' : (σ.reg.heap s).cleaned = true := by
      rw [σ.acquire_heap] at hs
      split at hs <;> exact hs
    rw [σ.acquire_held, if_neg (hne s (h.cleaned s hs'))]
    exact hd.cleaned s hs'

/-- A step that adds no reference, cleans nothing and sends nobody to clean a
snapshot that is still held. -/
theorem quiet {σ τ : RegState α γ} (hd : Drained σ)
    (hheld : ∀ s, τ.held s ≤ σ.held s)
    (hcln : ∀ s, (τ.reg.heap s).cleaned = true → (σ.reg.heap s).cleaned = true)
    (hpc : ∀ t s, τ.pc t = .runCleanup s → σ.pc t = .runCleanup s ∨ τ.held s = 0) :
    Drained τ := by
  constructor
  · intro t s ht
    rcases hpc t s ht with ht | hz
    · exact Nat.le_zero.mp (hd.running t s ht ▸ hheld s)
    · exact hz
  · intro s hs
    exact Nat.le_zero.mp (hd.cleaned s (hcln s hs) ▸ hheld s)

theorem load {σ : RegState α γ} (hd : Drained σ) {t s : Nat} {due : Prop} [Decidable due]
    (hz : due → σ.held s = 0) :
    Drained (σ.setPc t (if due then .runCleanup s else .idle)) := by
  apply hd.quiet
  · exact fun s' => Nat.le_refl (σ.held s')
  · exact fun s' hc => hc
  · intro t' s' ht'
    rw [σ.setPc_pc] at ht'
    split at ht'
    · split at ht'
      · rename_i hdue
        obtain rfl := Pc.runCleanup.inj ht'
        exact .inr (hz hdue)
      · cases ht'
    · exact .inl ht'

theorem step {σ σ' : RegState α γ} (h : Lifecycle σ) (hd : Drained σ)
    {e : RegEvent α γ} (hok : RetiredLoadAtZero σ e) (hs : σ.step e = some σ') :
    Drained σ' := by
  cases e with
  | acquire t =>
    simp only [RegState.step] at hs
    split at hs
    · exact Option.some.inj hs ▸ hd.acquire h
    · cases hs
  | release t s =>
    simp only [RegState.step] at hs
    split at hs
    · split at hs
      · cases hs
        apply hd.quiet
        · intro s'; rw [σ.decrement_held]; split <;> omega
        · intro s' hs'; rw [σ.decrement_heap] at hs'; split at hs' <;> exact hs'
        · intro t' s' ht'
          refine .inl (stood id ?_ ht')
          dsimp only [id]
          split <;> simp
      · cases hs
    · cases hs
  | swap t next c =>
    simp only [RegState.step] at hs
    split at hs
    · cases hs
      apply hd.quiet
      · exact fun s' => Nat.le_refl (σ.held s')
      · intro s' hs'
        rw [σ.install_heap] at hs'
        split at hs'
        · cases hs'
        · exact hs'
      · exact fun t' s' ht' => .inl (stood id (by simp) ht')
    · cases hs
  | advance t =>
    simp only [RegState.step, RegState.advance] at hs
    split at hs
    · cases hs
    · -- the step the race hides behind: the counter is zero by assumption
      rename_i s hpc
      cases hs
      exact hd.load fun hr => h.held_eq_zero (hok s (by simp [RegState.loadsRetired, hpc]) hr)
    · cases hs
      apply hd.quiet
      · exact fun s' => Nat.le_refl (σ.held s')
      · intro s' hc; rw [σ.putCleanup_heap] at hc; split at hc <;> exact hc
      · exact fun t' s' ht' => .inl (stood id (by simp) ht')
    · cases hs
      apply hd.quiet
      · exact fun s' => Nat.le_refl (σ.held s')
      · intro s' hc; rw [σ.putRetired_heap] at hc; split at hc <;> exact hc
      · exact fun t' s' ht' => .inl (stood id (by simp) ht')
    · cases hs
      exact hd.load h.held_eq_zero
    · rename_i s hpc
      cases hs
      constructor
      · intro t' s' ht'
        exact hd.running t' s' (stood id (by simp) ht')
      · intro s' hc
        rw [σ.clean_heap] at hc
        split at hc
        · rename_i he
          exact he ▸ hd.running t s hpc
        · exact hd.cleaned s' hc

end Drained

theorem Lifecycle.complete (h : Lifecycle σ) (hidle : ∀ t, σ.pc t = .idle) {s : Nat} {c : γ}
    (hr : σ.replaced s = some (some c)) (hheld : σ.held s = 0) :
    (s, c) ∈ σ.ran := by
  have hret : (σ.reg.heap s).retired = true := by
    rcases h.progress s (by rw [hr]; rfl) with ⟨t, ht⟩ | hret
    · rw [hidle t] at ht
      cases ht
    · exact hret
  have hrefs : (σ.reg.heap s).refs = 0 := by rw [h.refs_held, hheld]; rfl
  have hcl : (σ.reg.heap s).cleaned = true := by
    rcases h.pending s hret hrefs with hcl | ⟨t, ht⟩
    · exact hcl
    · rw [hidle t] at ht
      cases ht
  have hgiven := h.retired s hret
  rw [hr] at hgiven
  exact (h.ran s c).mpr ⟨hcl, (Option.some.inj hgiven).symm⟩

/-- The joint invariant of the runs in which no `Release` was overtaken. -/
theorem Drained.invariant_step : (registrySys α γ).Inductive RetiredLoadAtZero
    (fun σ => Lifecycle σ ∧ Drained σ) where
  init := by
    rintro σ ⟨policy, rfl⟩
    exact ⟨.start policy, ⟨fun t s ht => absurd ht (by simp [RegState.start]), fun s _ => rfl⟩⟩
  step := fun _ _ _ h hok hs => ⟨h.1.step hs, h.2.step h.1 hok hs⟩

/-- The condition cannot be weakened: in a run that met it so far, a step that
breaks it is two steps away from a cleanup that runs under a holder. -/
theorem overtaken_release_cleans (h : (registrySys α γ).ReachableUnder RetiredLoadAtZero σ)
    {t s : Nat} {c : γ} (hpc : σ.pc t = .loadRetired s) (hr : (σ.reg.heap s).retired = true)
    (hrefs : (σ.reg.heap s).refs ≠ 0) (hc : σ.replaced s = some (some c)) :
    ∃ τ, (registrySys α γ).Steps (fun _ e => e = .advance t) σ τ ∧
      (s, c) ∈ τ.ran ∧ τ.held s ≠ 0 := by
  obtain ⟨h, hd⟩ := Drained.invariant_step.invariant h
  have hheld : σ.held s ≠ 0 := fun hz => hrefs (by rw [h.refs_held, hz]; rfl)
  have hcln : (σ.reg.heap s).cleaned = false := by
    cases hx : (σ.reg.heap s).cleaned with
    | false => rfl
    | true => exact absurd (hd.cleaned s hx) hheld
  have hcleanup : (σ.reg.heap s).cleanup = some c := by
    have hgiven := h.retired s hr
    rw [hc] at hgiven
    exact (Option.some.inj hgiven).symm
  have h1 : σ.step (.advance t) = some (σ.setPc t (.runCleanup s)) := by
    simp only [RegState.step, RegState.advance, hpc, hr, if_true]
  have h2 : (σ.setPc t (.runCleanup s)).step (.advance t) =
      some ((σ.setPc t (.runCleanup s)).clean t s) := by
    simp only [RegState.step, RegState.advance, RegState.setPc_pc, if_true]
  refine ⟨_, .tail (.tail .refl rfl h1) rfl h2, ?_, hheld⟩
  rw [RegState.clean_ran]
  simp [RegState.setPc, hcln, hcleanup]

/-- **The contract of the cleanups.** In every run in which no `Release` was
overtaken between its decrement and its load, every cleanup given to `Swap`
runs at most once, never under a holder, never before its `Swap`, and has run
once nothing is in flight and the references are gone. -/
theorem cleanup_ok_of_retired_load_at_zero {σ : RegState α γ}
    (h : (registrySys α γ).ReachableUnder RetiredLoadAtZero σ) : CleanupOk σ := by
  obtain ⟨hl, hd⟩ := Drained.invariant_step.invariant h
  constructor
  case once => exact hl.ran_nodup
  case unheld =>
    intro s c hc
    exact hd.cleaned s ((hl.ran s c).mp hc).1
  case swapped =>
    intro s c hc
    obtain ⟨hcl, hgiven⟩ := (hl.ran s c).mp hc
    rw [hl.retired s (hl.cleaned s hcl), hgiven]
  case complete =>
    intro hidle s c hr hheld
    exact hl.complete hidle hr hheld

/-- A stream that outlives a `Swap`: the cleanup waits for its `Release`. -/
def streamOutlivesSwap : List (RegEvent Nat Nat) :=
  [.acquire 0, .swap 1 7 (some 5), .advance 1, .advance 1, .advance 1,
    .release 0 0, .advance 0, .advance 0]

theorem cleanup_ok_stream_outlives_swap :
    ∃ h : ((registrySys Nat Nat).run RetiredLoadAtZero (.start 0) streamOutlivesSwap).isSome,
      (Option.get _ h).ran = [(0, 5)] ∧ CleanupOk (Option.get _ h) :=
  ⟨by decide, by decide,
    cleanup_ok_of_retired_load_at_zero
      (.of_run (registrySys_start Nat 0) streamOutlivesSwap (by decide))⟩

/-- Thread 0 takes the counter of snapshot 0 to zero; before its load, thread 1
acquires the snapshot and thread 2 replaces it. The load then finds the flag
set, and thread 0 runs the cleanup while thread 1 holds the snapshot. -/
def overtakenRelease : List (RegEvent Nat Nat) :=
  [.acquire 0, .release 0 0, .acquire 1, .swap 2 7 (some 5),
    .advance 2, .advance 2, .advance 2, .advance 0, .advance 0]

theorem cleanup_runs_under_holder :
    ¬ ∀ σ : RegState Nat Nat, (registrySys Nat Nat).Reachable σ → CleanupOk σ := by
  intro hall
  have hok := hall _ (.of_run (registrySys_start Nat 0) overtakenRelease (by decide))
  exact absurd (hok.unheld 0 5 (by decide)) (by decide)

/-- The two steps of thread 0 after the first seven of `overtakenRelease`. -/
theorem overtaken_release_cleans_first :
    ∃ h : ((registrySys Nat Nat).run RetiredLoadAtZero (.start 0) (overtakenRelease.take 7)).isSome,
      ∃ τ, (registrySys Nat Nat).Steps (fun _ e => e = .advance 0) (Option.get _ h) τ ∧
        (0, 5) ∈ τ.ran ∧ τ.held 0 ≠ 0 :=
  ⟨by decide, overtaken_release_cleans
    (.of_run (registrySys_start Nat 0) (overtakenRelease.take 7) (by decide))
    rfl rfl (by decide) rfl⟩

/-- What holds of the cleanups in every run, with overtaken `Release` calls too. -/
structure CleanupAccounted (σ : RegState α γ) : Prop where
  /-- The counters count the references that are held. -/
  counted : ∀ s, (σ.reg.heap s).refs = σ.held s
  once : (σ.ran.map Prod.fst).Nodup
  swapped : ∀ s c, (s, c) ∈ σ.ran → σ.replaced s = some (some c)
  /-- New streams never get a snapshot that was cleaned up. -/
  current : ∀ c, (σ.reg.current, c) ∉ σ.ran
  complete : (∀ t, σ.pc t = .idle) → ∀ s c, σ.replaced s = some (some c) →
    σ.held s = 0 → (s, c) ∈ σ.ran

/-- **No cleanup is lost or doubled.** The race can only bring a cleanup too
early: in every interleaving a cleanup runs at most once, after its `Swap`, never
on the current snapshot, and has run once nothing is in flight and the references
are gone. -/
theorem cleanup_accounted (h : (registrySys α γ).Reachable σ) : CleanupAccounted σ := by
  have hl := Lifecycle.invariant_step.invariant h
  have hswapped : ∀ s c, (s, c) ∈ σ.ran → σ.replaced s = some (some c) := by
    intro s c hc
    obtain ⟨hcl, hgiven⟩ := (hl.ran s c).mp hc
    rw [hl.retired s (hl.cleaned s hcl), hgiven]
  refine ⟨hl.refs_held, hl.ran_nodup, hswapped, fun c hc => ?_,
    fun hidle s c hr hheld => hl.complete hidle hr hheld⟩
  have hlive := hl.current_live
  rw [hswapped _ c hc] at hlive
  cases hlive

theorem cleanup_accounted_overtaken :
    ∃ h : ((registrySys Nat Nat).run (fun _ _ => True) (.start 0) overtakenRelease).isSome,
      (Option.get _ h).held 0 = 1 ∧ (Option.get _ h).ran = [(0, 5)] ∧
        CleanupAccounted (Option.get _ h) :=
  ⟨by decide, by decide, by decide,
    cleanup_accounted (.of_run (registrySys_start Nat 0) overtakenRelease (by decide))⟩

end Hypergate.Engine
