import Hypergate.Filters.RateLimiter.Policy

/-!
# Which policies are charged (`filter.go`, `Evaluate`)

The filter reads one value for every descriptor key from the request. The executor
goes through its policies, which were sorted when it was built: those with more
entries first, then those with more explicit values. A policy whose explicit values
are the values of the request is charged, unless one of the same dimension was charged
before. The dimension of a policy is the text of its descriptor keys, joined with
underscores. All five executors share this loop.

* `mem_charged`, `exists_charged`, `nodup_charged` — what the loop charges.
-/

namespace Hypergate.Filters.RateLimiter

open Engine Lib

/-! ## The values of a request -/

/-- `FilterOptions`, what the loops read, after `ApplyDefaults`. -/
structure FilterOptions where
  domain : String := ""
  headerMappings : AMap String String := ∅
  descriptors : List YamlDescriptor := []

/-- The descriptor keys of a policy. -/
def YamlDescriptor.keys (policy : YamlDescriptor) : List String :=
  policy.entries.map DescriptorEntryDef.key

/-- The value of a descriptor key in `Execute`, by the rules A to D. -/
def runtimeValue (opts : FilterOptions) (ctx : RequestContext) (key : String) : String :=
  let val := match opts.headerMappings.lookup key with
    | some headerName => ctx.getHeader headerName
    | none => ctx.getHeader key
  -- The address of the client never comes from a header.
  let val := if key = "ip" ∨ key = "client_ip" ∨ key = "remote_ip" then ctx.clientIP else val
  if val = "" then "default" else val

structure DescriptorEntry where
  key : String
  value : String

/-- The loop of `Execute` over the keys of all policies; a key is read once. -/
def extractFrom (opts : FilterOptions) (ctx : RequestContext) :
    List String → List String → List DescriptorEntry
  | [], _ => []
  | key :: rest, extractedKeys =>
    if key ∈ extractedKeys then extractFrom opts ctx rest extractedKeys
    else ⟨key, runtimeValue opts ctx key⟩ :: extractFrom opts ctx rest (key :: extractedKeys)

/-- What `Execute` hands to the executor. -/
def extractDescriptors (opts : FilterOptions) (ctx : RequestContext) : List DescriptorEntry :=
  extractFrom opts ctx (opts.descriptors.flatMap YamlDescriptor.keys) []

/-- `extracted` in `Evaluate`. -/
def extractedMap (descriptors : List DescriptorEntry) : AMap String String :=
  (∅ : AMap String String).insertAll (descriptors.map fun entry => (entry.key, entry.value))

/-! ## The loop over the policies -/

def dimension (policy : YamlDescriptor) : String := String.intercalate "_" policy.keys

/-- `matched`: every entry has a value, which is the explicit one if there is one. -/
def matched (extracted : AMap String String) (policy : YamlDescriptor) : Bool :=
  policy.entries.all fun entry =>
    match extracted.lookup entry.key with
    | none => false
    | some clientVal => entry.value = "" || entry.value = clientVal

/-- The most restrictive quota so far. -/
def Decision.tighten (final d : Decision) : Decision :=
  if d.limitRemaining < final.limitRemaining then
    { final with
      limit := d.limit, limitRemaining := d.limitRemaining, resetDuration := d.resetDuration }
  else final

/-- The end of `Evaluate`. -/
def Decision.finish (final : Decision) : Decision :=
  if final.limitRemaining = 4294967295 then
    { final with blocked := false, limit := 0, limitRemaining := 0 }
  else { final with blocked := false }

/-- The loop of `Evaluate`, with what Redis and the L1 cache say about a policy. Besides
the result it returns the policies it came to ask about. -/
def evaluateFrom (ask : YamlDescriptor → PolicyVerdict) (extracted : AMap String String) :
    List YamlDescriptor → List String → Decision → List YamlDescriptor × Except String Decision
  | [], _, final => ([], .ok final.finish)
  | policy :: rest, evaluatedDimensions, final =>
    if dimension policy ∈ evaluatedDimensions then
      evaluateFrom ask extracted rest evaluatedDimensions final
    else if matched extracted policy = false then
      evaluateFrom ask extracted rest evaluatedDimensions final
    else
      match ask policy with
      | .pass d =>
        let (charged, result) := evaluateFrom ask extracted rest
          (dimension policy :: evaluatedDimensions) (final.tighten d)
        (policy :: charged, result)
      | .skip =>
        let (charged, result) := evaluateFrom ask extracted rest
          (dimension policy :: evaluatedDimensions) final
        (policy :: charged, result)
      | .block d => ([policy], .ok d)
      | .fail err => ([policy], .error err)

/-- `Evaluate`, for the policies as they were sorted. -/
def evaluate (ask : YamlDescriptor → PolicyVerdict) (descriptors : List DescriptorEntry)
    (policies : List YamlDescriptor) : List YamlDescriptor × Except String Decision :=
  evaluateFrom ask (extractedMap descriptors) policies [] { limitRemaining := 4294967295 }

/-- The number of explicit values. -/
def explicitCount (policy : YamlDescriptor) : Nat :=
  policy.entries.countP fun entry => entry.value ≠ ""

/-- The order of the sort. -/
def sortsBefore (p q : YamlDescriptor) : Bool :=
  if p.entries.length ≠ q.entries.length then q.entries.length < p.entries.length
  else explicitCount q < explicitCount p

/-- What `sort.Slice` may leave: the order of equal elements is not determined. -/
structure Presorted (descriptors policies : List YamlDescriptor) : Prop where
  perm : policies.Perm descriptors
  ordered : policies.Pairwise fun p q => sortsBefore q p = false

/-! ## The right selection -/

section Selection

variable (opts : FilterOptions) (ctx : RequestContext)

/-- The explicit values of the policy are those of the request. -/
def Satisfies (policy : YamlDescriptor) : Prop :=
  ∀ entry ∈ policy.entries, entry.value = "" ∨ entry.value = runtimeValue opts ctx entry.key

/-- Only policies that match are charged, and of those with one list of keys exactly
one, which no other surpasses in explicit values. -/
structure SelectedRight (charged : List YamlDescriptor) : Prop where
  only : ∀ p ∈ charged, p ∈ opts.descriptors ∧ Satisfies opts ctx p
  each : ∀ q ∈ opts.descriptors, Satisfies opts ctx q →
    ∃ p, charged.filter (fun p => p.keys = q.keys) = [p]
      ∧ ∀ q' ∈ opts.descriptors, q'.keys = q.keys → Satisfies opts ctx q' →
        explicitCount q' ≤ explicitCount p

/-- Policies that match are of one dimension only if they have the same keys. -/
def DimensionsDiffer : Prop :=
  ∀ p ∈ opts.descriptors, ∀ q ∈ opts.descriptors, Satisfies opts ctx p → Satisfies opts ctx q →
    dimension p = dimension q → p.keys = q.keys

variable {opts ctx}

theorem mem_extractFrom {keys seen : List String} {e : DescriptorEntry} :
    e ∈ extractFrom opts ctx keys seen
      ↔ e.key ∈ keys ∧ e.key ∉ seen ∧ e.value = runtimeValue opts ctx e.key := by
  induction keys generalizing seen with
  | nil => simp [extractFrom]
  | cons k keys ih =>
    unfold extractFrom
    by_cases hk : k ∈ seen
    · rw [if_pos hk, ih, List.mem_cons]
      constructor
      · exact fun ⟨hkeys, hrest⟩ => ⟨.inr hkeys, hrest⟩
      · rintro ⟨rfl | hkeys, hseen, hvalue⟩
        · exact absurd hk hseen
        · exact ⟨hkeys, hseen, hvalue⟩
    · rw [if_neg hk, List.mem_cons, ih, List.mem_cons, List.mem_cons, not_or]
      constructor
      · rintro (rfl | ⟨hkeys, ⟨-, hseen⟩, hvalue⟩)
        · exact ⟨.inl rfl, hk, rfl⟩
        · exact ⟨.inr hkeys, hseen, hvalue⟩
      · rintro ⟨hkeys, hseen, hvalue⟩
        by_cases hsame : e.key = k
        · subst hsame
          exact .inl (by rw [← hvalue])
        · exact .inr ⟨hkeys.resolve_left hsame, ⟨hsame, hseen⟩, hvalue⟩

theorem lookup_extractedMap {key : String}
    (h : key ∈ opts.descriptors.flatMap YamlDescriptor.keys) :
    (extractedMap (extractDescriptors opts ctx)).lookup key = some (runtimeValue opts ctx key) := by
  refine AMap.lookup_insertAll_of_mem (fun v hv => ?_) ?_
  · obtain ⟨e, he, heq⟩ := List.mem_map.mp hv
    cases heq
    exact (mem_extractFrom.mp he).2.2
  · exact List.mem_map.mpr ⟨⟨key, _⟩, mem_extractFrom.mpr ⟨h, List.not_mem_nil, rfl⟩, rfl⟩

theorem matched_iff {policy : YamlDescriptor} (h : policy ∈ opts.descriptors) :
    matched (extractedMap (extractDescriptors opts ctx)) policy = true
      ↔ Satisfies opts ctx policy := by
  unfold matched Satisfies
  rw [List.all_eq_true]
  refine forall₂_congr fun entry hentry => ?_
  have hkey : entry.key ∈ opts.descriptors.flatMap YamlDescriptor.keys :=
    List.mem_flatMap.mpr ⟨policy, h, List.mem_map.mpr ⟨entry, hentry, rfl⟩⟩
  rw [lookup_extractedMap hkey]
  simp

end Selection

/-! ## What the loop charges -/

section Charged

variable {ask : YamlDescriptor → PolicyVerdict} {extracted : AMap String String}
  {p q : YamlDescriptor} {ps : List YamlDescriptor} {seen : List String} {final : Decision}

theorem evaluateFrom_of_skipped (h : dimension p ∈ seen ∨ matched extracted p = false) :
    evaluateFrom ask extracted (p :: ps) seen final = evaluateFrom ask extracted ps seen final := by
  rw [evaluateFrom]
  split_ifs with hseen hmatched
  · rfl
  · rfl
  · exact absurd h (not_or.mpr ⟨hseen, hmatched⟩)

variable (ask ps final) in
/-- A policy that is asked about is charged, and the loop goes on or ends there. -/
theorem evaluateFrom_of_asked (hseen : dimension p ∉ seen) (hmatched : matched extracted p = true) :
    ∃ rest, (evaluateFrom ask extracted (p :: ps) seen final).1 = p :: rest
      ∧ ((rest = [] ∧ ∀ d, ask p ≠ .pass d)
        ∨ ∃ final', rest = (evaluateFrom ask extracted ps (dimension p :: seen) final').1) := by
  rw [evaluateFrom, if_neg hseen, if_neg (by simp [hmatched])]
  cases hask : ask p with
  | pass d => exact ⟨_, rfl, .inr ⟨_, rfl⟩⟩
  | skip => exact ⟨_, rfl, .inr ⟨_, rfl⟩⟩
  | block d => exact ⟨[], rfl, .inl ⟨rfl, fun d => by simp⟩⟩
  | fail err => exact ⟨[], rfl, .inl ⟨rfl, fun d => by simp⟩⟩

theorem mem_charged (h : p ∈ (evaluateFrom ask extracted ps seen final).1) :
    p ∈ ps ∧ matched extracted p = true ∧ dimension p ∉ seen := by
  induction ps generalizing seen final with
  | nil => exact absurd h List.not_mem_nil
  | cons q ps ih =>
    by_cases hasked : dimension q ∉ seen ∧ matched extracted q = true
    · obtain ⟨rest, hcharged, hrest⟩ :=
        evaluateFrom_of_asked ask ps final hasked.1 hasked.2
      rw [hcharged, List.mem_cons] at h
      rcases h with rfl | h
      · exact ⟨List.mem_cons_self, hasked.2, hasked.1⟩
      · rcases hrest with ⟨rfl, -⟩ | ⟨final', rfl⟩
        · exact absurd h List.not_mem_nil
        · obtain ⟨hmem, hmatched, hnew⟩ := ih h
          exact ⟨List.mem_cons_of_mem _ hmem, hmatched,
            fun hseen => hnew (List.mem_cons_of_mem _ hseen)⟩
    · rw [evaluateFrom_of_skipped (by simpa [or_iff_not_imp_left] using hasked)] at h
      obtain ⟨hmem, hrest⟩ := ih h
      exact ⟨List.mem_cons_of_mem _ hmem, hrest⟩

theorem nodup_charged : ((evaluateFrom ask extracted ps seen final).1.map dimension).Nodup := by
  induction ps generalizing seen final with
  | nil => exact List.nodup_nil
  | cons q ps ih =>
    by_cases hasked : dimension q ∉ seen ∧ matched extracted q = true
    · obtain ⟨rest, hcharged, hrest⟩ :=
        evaluateFrom_of_asked ask ps final hasked.1 hasked.2
      rw [hcharged, List.map_cons, List.nodup_cons]
      rcases hrest with ⟨rfl, -⟩ | ⟨final', rfl⟩
      · exact ⟨List.not_mem_nil, List.nodup_nil⟩
      · refine ⟨fun hmem => ?_, ih⟩
        obtain ⟨p, hp, hsame⟩ := List.mem_map.mp hmem
        exact (mem_charged hp).2.2 (by simp [hsame])
    · rw [evaluateFrom_of_skipped (by simpa [or_iff_not_imp_left] using hasked)]
      exact ih

/-- A policy that matches is charged, or one of its dimension that comes first. -/
theorem exists_charged (hordered : ps.Pairwise fun p q => sortsBefore q p = false)
    (hpass : ∀ p ∈ (evaluateFrom ask extracted ps seen final).1, ∃ d, ask p = .pass d)
    (hq : q ∈ ps) (hmatched : matched extracted q = true) (hseen : dimension q ∉ seen) :
    ∃ p ∈ (evaluateFrom ask extracted ps seen final).1,
      dimension p = dimension q ∧ (p = q ∨ sortsBefore q p = false) := by
  induction ps generalizing seen final with
  | nil => exact absurd hq List.not_mem_nil
  | cons r ps ih =>
    obtain ⟨hfirst, hordered⟩ := List.pairwise_cons.mp hordered
    by_cases hasked : dimension r ∉ seen ∧ matched extracted r = true
    · obtain ⟨rest, hcharged, hrest⟩ :=
        evaluateFrom_of_asked ask ps final hasked.1 hasked.2
      rw [hcharged] at hpass ⊢
      by_cases hsame : dimension r = dimension q
      · refine ⟨r, List.mem_cons_self, hsame, ?_⟩
        rcases List.mem_cons.mp hq with rfl | hq
        · exact .inl rfl
        · exact .inr (hfirst q hq)
      · have hne : q ≠ r := fun heq => hsame (by rw [heq])
        rcases hrest with ⟨-, hstop⟩ | ⟨final', rfl⟩
        · obtain ⟨d, hd⟩ := hpass r List.mem_cons_self
          exact absurd hd (hstop d)
        · obtain ⟨p, hp, hdim, horder⟩ := ih hordered
            (fun p hp => hpass p (List.mem_cons_of_mem _ hp))
            ((List.mem_cons.mp hq).resolve_left hne)
            (by simp [hseen, Ne.symm hsame])
          exact ⟨p, List.mem_cons_of_mem _ hp, hdim, horder⟩
    · rw [evaluateFrom_of_skipped (by simpa [or_iff_not_imp_left] using hasked)] at hpass ⊢
      have hne : q ≠ r := by
        rintro rfl
        exact hasked ⟨hseen, hmatched⟩
      exact ih hordered hpass ((List.mem_cons.mp hq).resolve_left hne) hseen

end Charged

/-- The one element of a list with a property, if elements with it share a name. -/
theorem filter_eq_singleton {α β : Type} {f : α → β} {P : α → Bool} {l : List α} {a : α}
    (hnodup : (l.map f).Nodup) (ha : a ∈ l) (hP : P a = true)
    (hone : ∀ b ∈ l, P b = true → f b = f a) : l.filter P = [a] := by
  induction l with
  | nil => exact absurd ha List.not_mem_nil
  | cons b l ih =>
    obtain ⟨hnew, hnodup⟩ := List.nodup_cons.mp hnodup
    by_cases hb : P b = true
    · have hname := hone b List.mem_cons_self hb
      have heq : a = b := by
        rcases List.mem_cons.mp ha with rfl | ha
        · rfl
        · exact absurd (hname ▸ List.mem_map_of_mem ha) hnew
      have hnone : l.filter P = [] := by
        refine List.filter_eq_nil_iff.mpr fun c hc hPc => hnew ?_
        rw [hname, ← hone c (List.mem_cons_of_mem _ hc) hPc]
        exact List.mem_map_of_mem hc
      rw [List.filter_cons_of_pos hb, hnone, heq]
    · have hne : a ≠ b := fun heq => hb (heq ▸ hP)
      rw [List.filter_cons_of_neg hb]
      exact ih hnodup ((List.mem_cons.mp ha).resolve_left hne)
        fun c hc => hone c (List.mem_cons_of_mem _ hc)

theorem dimension_eq {p q : YamlDescriptor} (h : p.keys = q.keys) : dimension p = dimension q := by
  unfold dimension
  rw [h]

/-- With the same keys, the sort goes by the explicit values. -/
theorem explicitCount_le {p q : YamlDescriptor} (hkeys : p.keys = q.keys)
    (h : p = q ∨ sortsBefore q p = false) : explicitCount q ≤ explicitCount p := by
  rcases h with rfl | h
  · exact Nat.le_refl _
  · have hlength : q.entries.length = p.entries.length := by
      have hmap := congrArg List.length hkeys
      rwa [YamlDescriptor.keys, YamlDescriptor.keys, List.length_map, List.length_map,
        eq_comm] at hmap
    unfold sortsBefore at h
    rw [if_neg (by simp [hlength])] at h
    exact not_lt.mp (of_decide_eq_false h)

/-- A request that is neither blocked nor meets an error is charged to the right
policies exactly if those that match differ in their dimensions whenever they differ
in their keys. -/
theorem selection_right_iff (opts : FilterOptions) (ctx : RequestContext)
    (ask : YamlDescriptor → PolicyVerdict) {policies : List YamlDescriptor}
    (hsorted : Presorted opts.descriptors policies)
    (hpass : ∀ p ∈ (evaluate ask (extractDescriptors opts ctx) policies).1,
      ∃ d, ask p = .pass d) :
    SelectedRight opts ctx (evaluate ask (extractDescriptors opts ctx) policies).1
      ↔ DimensionsDiffer opts ctx := by
  have honly : ∀ p ∈ (evaluate ask (extractDescriptors opts ctx) policies).1,
      p ∈ opts.descriptors ∧ Satisfies opts ctx p := by
    intro p hp
    obtain ⟨hmem, hmatched, -⟩ := mem_charged hp
    have hmem := hsorted.perm.mem_iff.mp hmem
    exact ⟨hmem, (matched_iff hmem).mp hmatched⟩
  have hnodup : ((evaluate ask (extractDescriptors opts ctx) policies).1.map dimension).Nodup :=
    nodup_charged
  have hexists : ∀ q ∈ opts.descriptors, Satisfies opts ctx q →
      ∃ p ∈ (evaluate ask (extractDescriptors opts ctx) policies).1,
        dimension p = dimension q ∧ (p = q ∨ sortsBefore q p = false) := fun q hq hsat =>
    exists_charged hsorted.ordered hpass (hsorted.perm.mem_iff.mpr hq) ((matched_iff hq).mpr hsat)
      List.not_mem_nil
  constructor
  · -- Two key lists of one dimension would both need to be charged.
    intro hright p hp q hq hsatp hsatq hdim
    obtain ⟨p', hfilterp, -⟩ := hright.each p hp hsatp
    obtain ⟨q', hfilterq, -⟩ := hright.each q hq hsatq
    have hp' := List.mem_filter.mp (hfilterp ▸ List.mem_singleton_self p')
    have hq' := List.mem_filter.mp (hfilterq ▸ List.mem_singleton_self q')
    have hkeysp : p'.keys = p.keys := of_decide_eq_true hp'.2
    have hkeysq : q'.keys = q.keys := of_decide_eq_true hq'.2
    have hsame : p' = q' := List.inj_on_of_nodup_map hnodup hp'.1 hq'.1
      (by rw [dimension_eq hkeysp, dimension_eq hkeysq, hdim])
    rw [← hkeysp, ← hkeysq, hsame]
  · intro hdiffer
    refine ⟨honly, fun q hq hsat => ?_⟩
    obtain ⟨p, hp, hdim, horder⟩ := hexists q hq hsat
    obtain ⟨hmem, hsatp⟩ := honly p hp
    have hkeys := hdiffer p hmem q hq hsatp hsat hdim
    refine ⟨p, filter_eq_singleton hnodup hp (decide_eq_true hkeys) ?_, ?_⟩
    · intro r _ hr
      exact dimension_eq ((of_decide_eq_true hr).trans hkeys.symm)
    · intro q' hq' hkeys' hsat'
      obtain ⟨p', hp', hdim', horder'⟩ := hexists q' hq' hsat'
      have hsame : p' = p := List.inj_on_of_nodup_map hnodup hp' hp
        (by rw [hdim', hdim, dimension_eq hkeys'])
      subst hsame
      exact explicitCount_le (hkeys.trans hkeys'.symm) horder'

/-- Nothing is blocked. -/
def passAll (_ : YamlDescriptor) : PolicyVerdict := .pass {}

/-- A limit for gold customers, and one for everybody else. -/
def tierOptions : FilterOptions :=
  { descriptors := [{ entries := [⟨"tier", "gold"⟩], limit := 10 },
      { entries := [⟨"tier", ""⟩], limit := 5 }] }

theorem selection_right_iff_tiers :
    Presorted tierOptions.descriptors tierOptions.descriptors
      ∧ SelectedRight tierOptions {}
        (evaluate passAll (extractDescriptors tierOptions {}) tierOptions.descriptors).1 := by
  have hsorted : Presorted tierOptions.descriptors tierOptions.descriptors :=
    ⟨List.Perm.refl _, by decide⟩
  refine ⟨hsorted, (selection_right_iff tierOptions {} passAll hsorted fun _ _ => ⟨_, rfl⟩).mpr
    ?_⟩
  have hkeys : ∀ p ∈ tierOptions.descriptors, p.keys = ["tier"] := by
    intro p hp
    rcases List.mem_cons.mp hp with rfl | hp
    · rfl
    · rw [List.mem_singleton.mp hp]
      rfl
  intro p hp q hq _ _ _
  rw [hkeys p hp, hkeys q hq]

/-! ## Keys with underscores -/

/-- A policy for two keys, and one for a key with an underscore. -/
def joinedOptions : FilterOptions :=
  { descriptors := [{ entries := [⟨"a", ""⟩, ⟨"b", ""⟩], limit := 10 },
      { entries := [⟨"a_b", ""⟩], limit := 5 }] }

/-- The second policy matches every request, and is never charged. -/
theorem joined_key_suppressed :
    Presorted joinedOptions.descriptors joinedOptions.descriptors
      ∧ (∀ p ∈ (evaluate passAll (extractDescriptors joinedOptions {})
        joinedOptions.descriptors).1, ∃ d, passAll p = .pass d)
      ∧ ¬ SelectedRight joinedOptions {}
        (evaluate passAll (extractDescriptors joinedOptions {}) joinedOptions.descriptors).1 := by
  refine ⟨⟨List.Perm.refl _, by decide⟩, fun _ _ => ⟨_, rfl⟩, fun hright => ?_⟩
  obtain ⟨p, hfilter, -⟩ := hright.each { entries := [⟨"a_b", ""⟩], limit := 5 }
    (List.mem_cons_of_mem _ List.mem_cons_self) (by simp [Satisfies])
  have hnone : ((evaluate passAll (extractDescriptors joinedOptions {})
      joinedOptions.descriptors).1.filter fun p => p.keys = ["a_b"]).length = 0 := by
    decide +kernel
  have hone := congrArg List.length hfilter
  exact absurd (hnone.symm.trans hone) (by simp)

end Hypergate.Filters.RateLimiter
