import Hypergate.Filters.RateLimiter.Select

/-!
# The Redis keys of the limiters

A key is the domain, the descriptor keys of the policy with the values of the request,
and a suffix: the start of the window, or the name of the algorithm. The parts are
joined with underscores, and nothing in them is escaped.

* `pairsText_inj` — the text of descriptor keys and values can be read back if there
  are no other underscores in it.
-/

namespace Hypergate.Filters.RateLimiter

open Engine Lib

/-! ## The keys -/

/-- The executors of `ResolveExecutor`. -/
inductive Executor where
  | fixedWindow | slidingWindowCounter | slidingWindowLog | tokenBucket | leakyBucket
  deriving DecidableEq

/-- The start of the window is part of the key. -/
def Executor.windowKeyed : Executor → Bool
  | .fixedWindow => true
  | .slidingWindowCounter => true
  | .slidingWindowLog => false
  | .tokenBucket => false
  | .leakyBucket => false

/-- `extracted[key]`. -/
def valueOfKey (extracted : AMap String String) (key : String) : String :=
  (extracted.lookup key).getD ""

/-- `strconv.AppendInt(buf, n, 10)`. -/
def appendInt (n : Int64) : String := n.toInt.repr

/-- What is appended for the entries of a policy. -/
def entryPieces (extracted : AMap String String) (entries : List DescriptorEntryDef) :
    List String :=
  entries.flatMap fun entry => ["_", entry.key, "_", valueOfKey extracted entry.key]

/-- What is appended to make a key, in the path that allocates one. -/
def Executor.keyPieces (executor : Executor) (domain : String) (policy : YamlDescriptor)
    (extracted : AMap String String) (start : Int64) : List String :=
  match executor with
  | .fixedWindow => domain :: entryPieces extracted policy.entries ++ ["_", appendInt start]
  -- The braces are the hash tag that keeps both keys on one node.
  | .slidingWindowCounter =>
    "\x7b" :: domain :: entryPieces extracted policy.entries ++ ["\x7d", "_", appendInt start]
  | .slidingWindowLog => domain :: entryPieces extracted policy.entries ++ ["_sliding_log"]
  | .tokenBucket => domain :: entryPieces extracted policy.entries ++ ["_token_bucket"]
  | .leakyBucket => domain :: entryPieces extracted policy.entries ++ ["_leaky_queue"]

/-- The Redis key of a request under a policy. -/
def Executor.redisKey (executor : Executor) (domain : String) (policy : YamlDescriptor)
    (extracted : AMap String String) (start : Int64) : String :=
  String.join (executor.keyPieces domain policy extracted start)

/-- The two requests are charged to one counter because they should be. -/
structure SameCounter (executor : Executor) (p p' : YamlDescriptor)
    (x x' : AMap String String) (start start' : Int64) : Prop where
  keys : p.keys = p'.keys
  values : ∀ key ∈ p.keys, valueOfKey x key = valueOfKey x' key
  window : executor.windowKeyed = true → start = start'

/-- No value has an underscore, nor a descriptor key if the policies differ in them. -/
structure Unambiguous (p p' : YamlDescriptor) (x x' : AMap String String) : Prop where
  keys : p.keys = p'.keys ∨ ∀ key ∈ p.keys ++ p'.keys, '_' ∉ key.toList
  left : ∀ key ∈ p.keys, '_' ∉ (valueOfKey x key).toList
  right : ∀ key ∈ p'.keys, '_' ∉ (valueOfKey x' key).toList

/-- An entry that every value meets. -/
def DescriptorEntryDef.wildcard (entry : DescriptorEntryDef) : Bool := entry.value = ""

/-! ## Reading a key back -/

/-- The text of descriptor keys and values. -/
def pairsText (l : List (String × String)) : List Char :=
  l.flatMap fun e => '_' :: e.1.toList ++ '_' :: e.2.toList

theorem pairsText_cons (k v : String) (l : List (String × String)) :
    pairsText ((k, v) :: l) = '_' :: (k.toList ++ '_' :: (v.toList ++ pairsText l)) := by
  simp [pairsText]

theorem head_pairsText (l : List (String × String)) :
    pairsText l = [] ∨ (pairsText l).head? = some '_' := by
  cases l with
  | nil => exact .inl rfl
  | cons e l => exact .inr rfl

theorem pairsText_inj {l l' : List (String × String)}
    (hkeys : l.map Prod.fst = l'.map Prod.fst ∨ ∀ e ∈ l ++ l', '_' ∉ e.1.toList)
    (hl : ∀ e ∈ l, '_' ∉ e.2.toList) (hl' : ∀ e ∈ l', '_' ∉ e.2.toList)
    (h : pairsText l = pairsText l') : l = l' := by
  induction l generalizing l' with
  | nil =>
    cases l' with
    | nil => rfl
    | cons e' l' => cases h
  | cons e l ih =>
    cases l' with
    | nil => cases h
    | cons e' l' =>
      obtain ⟨k, v⟩ := e
      obtain ⟨k', v'⟩ := e'
      rw [pairsText_cons, pairsText_cons] at h
      have htail := (List.cons.inj h).2
      -- the descriptor key, up to the first underscore or by assumption
      have hkey : k.toList = k'.toList
          ∧ v.toList ++ pairsText l = v'.toList ++ pairsText l' := by
        rcases hkeys with hsame | hplain
        · obtain rfl : k = k' := (List.cons.inj hsame).1
          exact ⟨rfl, (List.cons.inj (List.append_cancel_left htail)).2⟩
        · exact sep_append_inj (hplain (k, v) (by simp)) (hplain (k', v') (by simp)) htail
      -- then the value, up to the next one or to the end
      obtain ⟨hv, hrest⟩ := append_inj_of_sep (hl _ List.mem_cons_self)
        (hl' _ List.mem_cons_self) (head_pairsText l) (head_pairsText l') hkey.2
      have hkeys' : l.map Prod.fst = l'.map Prod.fst ∨ ∀ e ∈ l ++ l', '_' ∉ e.1.toList := by
        rcases hkeys with hsame | hplain
        · exact .inl (List.cons.inj hsame).2
        · refine .inr fun e he => hplain e ?_
          rcases List.mem_append.mp he with he | he
          · exact List.mem_append_left _ (List.mem_cons_of_mem _ he)
          · exact List.mem_append_right _ (List.mem_cons_of_mem _ he)
      have hvalue : v = v' := String.toList_inj.mp hv
      rw [String.toList_inj.mp hkey.1, hvalue,
        ih hkeys' (fun e he => hl e (List.mem_cons_of_mem _ he))
          (fun e he => hl' e (List.mem_cons_of_mem _ he)) hrest]

section Text

variable {executor : Executor} {domain : String} {p p' : YamlDescriptor}
  {x x' : AMap String String} {start start' : Int64}

/-- The descriptor keys of a policy with their values. -/
def pairs (x : AMap String String) (p : YamlDescriptor) : List (String × String) :=
  p.keys.map fun key => (key, valueOfKey x key)

theorem toList_entryPieces (x : AMap String String) (p : YamlDescriptor) :
    (entryPieces x p.entries).flatMap String.toList = pairsText (pairs x p) := by
  unfold entryPieces pairs pairsText YamlDescriptor.keys
  induction p.entries with
  | nil => rfl
  | cons entry entries ih =>
    rw [List.flatMap_cons, List.flatMap_append, ih]
    simp

/-- What stands before the domain. -/
def Executor.opening : Executor → List Char
  | .slidingWindowCounter => ['\x7b']
  | _ => []

/-- What stands between the entries and the window. -/
def Executor.closing : Executor → List Char
  | .fixedWindow => []
  | .slidingWindowCounter => ['\x7d']
  | .slidingWindowLog => "_sliding_log".toList
  | .tokenBucket => "_token_bucket".toList
  | .leakyBucket => "_leaky_queue".toList

/-- The window, if it is part of the key. -/
def Executor.windowText (executor : Executor) (start : Int64) : List Char :=
  if executor.windowKeyed then '_' :: (appendInt start).toList else []

theorem toList_redisKey : (executor.redisKey domain p x start).toList
    = executor.opening ++ (domain.toList ++ (pairsText (pairs x p)
      ++ (executor.closing ++ executor.windowText start))) := by
  unfold Executor.redisKey Executor.keyPieces
  rw [String.toList_join, ← toList_entryPieces]
  cases executor <;>
    simp only [List.cons_append, List.flatMap_cons, List.flatMap_append, List.flatMap_nil,
      List.append_nil] <;> rfl

/-- Equal keys have equal entries, and equal windows. -/
theorem pairsText_of_redisKey
    (h : executor.redisKey domain p x start = executor.redisKey domain p' x' start') :
    pairsText (pairs x p) = pairsText (pairs x' p')
      ∧ (executor.windowKeyed = true → start = start') := by
  have hlist := congrArg String.toList h
  rw [toList_redisKey, toList_redisKey] at hlist
  have hrest := List.append_cancel_left (List.append_cancel_left hlist)
  rw [← List.append_assoc, ← List.append_assoc] at hrest
  unfold Executor.windowText at hrest
  cases hkeyed : executor.windowKeyed with
  | true =>
    -- The window is what follows the last underscore.
    have hplain : ∀ n, '_' ∉ (appendInt n).toList := fun n => notMem_intRepr rfl (by decide) _
    rw [hkeyed, if_pos rfl, if_pos rfl] at hrest
    obtain ⟨hleft, hwindow⟩ := append_sep_inj (hplain start) (hplain start') hrest
    exact ⟨List.append_cancel_right hleft, fun _ => Int64.toInt_inj.mp (intRepr_inj hwindow)⟩
  | false =>
    rw [hkeyed, if_neg (by simp), if_neg (by simp), List.append_nil, List.append_nil] at hrest
    exact ⟨List.append_cancel_right hrest, fun hfalse => absurd hfalse (by simp)⟩

theorem sameCounter_of_pairs (hpairs : pairs x p = pairs x' p')
    (hwindow : executor.windowKeyed = true → start = start') :
    SameCounter executor p p' x x' start start' := by
  have hkeys : p.keys = p'.keys := by
    have hmap := congrArg (List.map Prod.fst) hpairs
    simpa [pairs, Function.comp_def] using hmap
  refine ⟨hkeys, fun key hkey => ?_, hwindow⟩
  have hmem : (key, valueOfKey x key) ∈ pairs x' p' :=
    hpairs ▸ List.mem_map.mpr ⟨key, hkey, rfl⟩
  obtain ⟨key', -, heq⟩ := List.mem_map.mp hmem
  obtain ⟨rfl, hvalue⟩ := Prod.mk.inj heq
  exact hvalue.symm

/-- Without other underscores a key says which counter it is. -/
theorem Unambiguous.sameCounter (hu : Unambiguous p p' x x')
    (h : executor.redisKey domain p x start = executor.redisKey domain p' x' start') :
    SameCounter executor p p' x x' start start' := by
  obtain ⟨htext, hwindow⟩ := pairsText_of_redisKey h
  refine sameCounter_of_pairs (pairsText_inj ?_ ?_ ?_ htext) hwindow
  · rcases hu.keys with hsame | hplain
    · exact .inl (by simpa [pairs, Function.comp_def] using hsame)
    · refine .inr fun e he => hplain e.1 ?_
      rcases List.mem_append.mp he with he | he
      · obtain ⟨key, hkey, rfl⟩ := List.mem_map.mp he
        exact List.mem_append_left _ hkey
      · obtain ⟨key, hkey, rfl⟩ := List.mem_map.mp he
        exact List.mem_append_right _ hkey
  · intro e he
    obtain ⟨key, hkey, rfl⟩ := List.mem_map.mp he
    exact hu.left key hkey
  · intro e he
    obtain ⟨key, hkey, rfl⟩ := List.mem_map.mp he
    exact hu.right key hkey

theorem redisKey_congr (h : pairsText (pairs x p) = pairsText (pairs x' p')) :
    executor.redisKey domain p x start = executor.redisKey domain p' x' start := by
  rw [← String.toList_inj, toList_redisKey, toList_redisKey, h]

end Text

/-! ## Wildcards -/

section Wildcards

variable {p : YamlDescriptor} {x x' : AMap String String}

/-- The pairs of some entries. -/
def pairsOf (x : AMap String String) (entries : List DescriptorEntryDef) :
    List (String × String) :=
  entries.map fun entry => (entry.key, valueOfKey x entry.key)

theorem pairs_eq (x : AMap String String) (p : YamlDescriptor) :
    pairs x p = pairsOf x p.entries := by
  simp [pairs, pairsOf, YamlDescriptor.keys]

theorem pairsText_append (l l' : List (String × String)) :
    pairsText (l ++ l') = pairsText l ++ pairsText l' :=
  List.flatMap_append

/-- A policy that matches fixes its explicit values. -/
theorem value_of_matched (h : matched x p = true) {entry : DescriptorEntryDef}
    (hentry : entry ∈ p.entries) (hexplicit : entry.wildcard = false) :
    valueOfKey x entry.key = entry.value := by
  have hall := List.all_eq_true.mp h entry hentry
  unfold DescriptorEntryDef.wildcard at hexplicit
  unfold valueOfKey
  cases hlookup : x.lookup entry.key with
  | none => simp [hlookup] at hall
  | some clientVal =>
    rw [hlookup] at hall
    simp only [hexplicit, Bool.false_or, decide_eq_true_eq] at hall
    exact hall.symm

/-- One wildcard is what is left of the text when the rest is known. -/
theorem pairsOf_eq_of_text {entries : List DescriptorEntryDef}
    (hfixed : ∀ entry ∈ entries, entry.wildcard = false →
      valueOfKey x entry.key = valueOfKey x' entry.key)
    (hone : entries.countP DescriptorEntryDef.wildcard ≤ 1)
    (h : pairsText (pairsOf x entries) = pairsText (pairsOf x' entries)) :
    pairsOf x entries = pairsOf x' entries := by
  induction entries with
  | nil => rfl
  | cons entry entries ih =>
    have hrest := fun e he => hfixed e (List.mem_cons_of_mem _ he)
    change pairsText ((entry.key, valueOfKey x entry.key) :: pairsOf x entries)
      = pairsText ((entry.key, valueOfKey x' entry.key) :: pairsOf x' entries) at h
    rw [pairsText_cons, pairsText_cons] at h
    have hvalues := (List.cons.inj (List.append_cancel_left (List.cons.inj h).2)).2
    cases hwild : entry.wildcard with
    | false =>
      have hvalue := hfixed entry List.mem_cons_self hwild
      rw [hvalue] at hvalues
      rw [List.countP_cons_of_neg (by simp [hwild])] at hone
      show (entry.key, _) :: pairsOf x entries = (entry.key, _) :: pairsOf x' entries
      rw [hvalue, ih hrest hone (List.append_cancel_left hvalues)]
    | true =>
      rw [List.countP_cons_of_pos hwild] at hone
      have hnone := List.countP_eq_zero.mp
        (show entries.countP DescriptorEntryDef.wildcard = 0 by omega)
      have hsame : pairsOf x entries = pairsOf x' entries :=
        List.map_congr_left fun e he => by rw [hrest e he (by simpa using hnone e he)]
      rw [hsame] at hvalues
      show (entry.key, _) :: pairsOf x entries = (entry.key, _) :: pairsOf x' entries
      rw [hsame, String.toList_inj.mp (List.append_cancel_right hvalues)]

theorem exists_two_wildcards {entries : List DescriptorEntryDef}
    (h : 2 ≤ entries.countP DescriptorEntryDef.wildcard) :
    ∃ before a between b after, entries = before ++ a :: (between ++ b :: after)
      ∧ a.wildcard = true ∧ b.wildcard = true := by
  induction entries with
  | nil => cases h
  | cons entry entries ih =>
    cases hwild : entry.wildcard with
    | true =>
      rw [List.countP_cons_of_pos hwild] at h
      obtain ⟨b, hb, hbwild⟩ := List.countP_pos_iff.mp
        (show 0 < entries.countP DescriptorEntryDef.wildcard by omega)
      obtain ⟨between, after, rfl⟩ := List.append_of_mem hb
      exact ⟨[], entry, between, b, after, rfl, hwild, hbwild⟩
    | false =>
      rw [List.countP_cons_of_neg (by simp [hwild])] at h
      obtain ⟨before, a, between, b, after, rfl, ha, hb⟩ := ih h
      exact ⟨entry :: before, a, between, b, after, rfl, ha, hb⟩

/-- Values that the policy matches: the explicit ones, and any for the wildcards. -/
def baseValues (p : YamlDescriptor) : AMap String String :=
  (∅ : AMap String String).insertAll
    (p.entries.map fun entry => (entry.key, if entry.wildcard then "0" else entry.value))

theorem lookup_baseValues (hnodup : p.keys.Nodup) {entry : DescriptorEntryDef}
    (h : entry ∈ p.entries) :
    (baseValues p).lookup entry.key
      = some (if entry.wildcard then "0" else entry.value) := by
  refine AMap.lookup_insertAll_of_mem (fun v hv => ?_) (List.mem_map.mpr ⟨entry, h, rfl⟩)
  obtain ⟨entry', h', heq⟩ := List.mem_map.mp hv
  obtain ⟨hkey, rfl⟩ := Prod.mk.inj heq
  rw [List.inj_on_of_nodup_map hnodup h' h hkey]

/-- The same with values of our own for two wildcards. -/
def craftedValues (p : YamlDescriptor) (a b : DescriptorEntryDef) (v w : String) :
    AMap String String :=
  ((baseValues p).insert a.key v).insert b.key w

section Crafted

variable {a b : DescriptorEntryDef} {v w : String}

theorem craftedValues_of_ne {key : String} (ha : key ≠ a.key) (hb : key ≠ b.key) :
    (craftedValues p a b v w).lookup key = (baseValues p).lookup key := by
  unfold craftedValues
  rw [AMap.lookup_insert_ite, if_neg hb, AMap.lookup_insert_ite, if_neg ha]

theorem craftedValues_left (hne : a.key ≠ b.key) :
    (craftedValues p a b v w).lookup a.key = some v := by
  unfold craftedValues
  rw [AMap.lookup_insert_ite, if_neg hne, AMap.lookup_insert_ite, if_pos rfl]

theorem craftedValues_right : (craftedValues p a b v w).lookup b.key = some w := by
  unfold craftedValues
  rw [AMap.lookup_insert_ite, if_pos rfl]

theorem matched_craftedValues (hnodup : p.keys.Nodup) (ha : a ∈ p.entries) (hb : b ∈ p.entries)
    (hawild : a.wildcard = true) (hbwild : b.wildcard = true) (hne : a.key ≠ b.key) :
    matched (craftedValues p a b v w) p = true := by
  refine List.all_eq_true.mpr fun entry hentry => ?_
  have hwild : ∀ e : DescriptorEntryDef, e.wildcard = true → e.value = "" :=
    fun e he => of_decide_eq_true he
  by_cases hisa : entry.key = a.key
  · rw [hisa, craftedValues_left hne, List.inj_on_of_nodup_map hnodup hentry ha hisa]
    simp [hwild a hawild]
  · by_cases hisb : entry.key = b.key
    · rw [hisb, craftedValues_right, List.inj_on_of_nodup_map hnodup hentry hb hisb]
      simp [hwild b hbwild]
    · rw [craftedValues_of_ne hisa hisb, lookup_baseValues hnodup hentry]
      cases he : entry.wildcard with
      | true => simp [hwild entry he]
      | false => simp

theorem pairsOf_craftedValues {entries : List DescriptorEntryDef}
    (h : ∀ e ∈ entries, e.key ≠ a.key ∧ e.key ≠ b.key) :
    pairsOf (craftedValues p a b v w) entries = pairsOf (baseValues p) entries := by
  refine List.map_congr_left fun e he => ?_
  unfold valueOfKey
  rw [craftedValues_of_ne (h e he).1 (h e he).2]

end Crafted

/-- What follows one wildcard is moved into the value of the other. -/
theorem exists_collision (hnodup : p.keys.Nodup)
    (h : 2 ≤ p.entries.countP DescriptorEntryDef.wildcard) :
    ∃ x x', matched x p = true ∧ matched x' p = true
      ∧ pairsText (pairs x p) = pairsText (pairs x' p)
      ∧ ∃ key ∈ p.keys, valueOfKey x key ≠ valueOfKey x' key := by
  obtain ⟨before, a, between, b, after, hentries, hawild, hbwild⟩ := exists_two_wildcards h
  have hkeys : (before.map DescriptorEntryDef.key
      ++ a.key :: (between.map DescriptorEntryDef.key
        ++ b.key :: after.map DescriptorEntryDef.key)).Nodup := by
    simpa [YamlDescriptor.keys, hentries] using hnodup
  obtain ⟨-, hrest, hbefore⟩ := List.nodup_append.mp hkeys
  obtain ⟨ha, hrest⟩ := List.nodup_cons.mp hrest
  obtain ⟨-, hafter, hbetween⟩ := List.nodup_append.mp hrest
  obtain ⟨hb, -⟩ := List.nodup_cons.mp hafter
  simp only [List.mem_append, List.mem_cons, List.mem_map, not_or, not_exists, not_and] at ha hb
  have hne : a.key ≠ b.key := ha.2.1
  have hbefore : ∀ e ∈ before, e.key ≠ a.key ∧ e.key ≠ b.key := fun e he =>
    ⟨hbefore e.key (List.mem_map_of_mem he) a.key (by simp),
      hbefore e.key (List.mem_map_of_mem he) b.key (by simp)⟩
  have hbetween : ∀ e ∈ between, e.key ≠ a.key ∧ e.key ≠ b.key := fun e he =>
    ⟨ha.1 e he, hbetween e.key (List.mem_map_of_mem he) b.key (by simp)⟩
  have hafter : ∀ e ∈ after, e.key ≠ a.key ∧ e.key ≠ b.key := fun e he =>
    ⟨ha.2.2 e he, hb e he⟩
  have hamem : a ∈ p.entries := by simp [hentries]
  have hbmem : b ∈ p.entries := by simp [hentries]
  -- What stands between the two values, with one more value in front of it.
  have htext : ∀ v w, pairsText (pairs (craftedValues p a b v w) p)
      = pairsText (pairsOf (baseValues p) before) ++ ('_' :: (a.key.toList ++ '_' :: (v.toList
        ++ (pairsText (pairsOf (baseValues p) between) ++ ('_' :: (b.key.toList ++ '_' :: (w.toList
          ++ pairsText (pairsOf (baseValues p) after)))))))) := by
    intro v w
    have hsplit : ∀ x, pairs x p = pairsOf x before ++ (a.key, valueOfKey x a.key)
        :: (pairsOf x between ++ (b.key, valueOfKey x b.key) :: pairsOf x after) := by
      intro x
      simp [pairs_eq, hentries, pairsOf]
    rw [hsplit, pairsText_append, pairsText_cons, pairsText_append, pairsText_cons,
      pairsOf_craftedValues hbefore, pairsOf_craftedValues hbetween, pairsOf_craftedValues hafter]
    unfold valueOfKey
    rw [craftedValues_left hne, craftedValues_right]
    rfl
  let middle := pairsText (pairsOf (baseValues p) between) ++ '_' :: (b.key.toList ++ ['_'])
  refine ⟨craftedValues p a b "1" (String.ofList ('2' :: middle ++ ['3'])),
    craftedValues p a b (String.ofList ('1' :: middle ++ ['2'])) "3",
    matched_craftedValues hnodup hamem hbmem hawild hbwild hne,
    matched_craftedValues hnodup hamem hbmem hawild hbwild hne, ?_, a.key,
    List.mem_map_of_mem hamem, ?_⟩
  · rw [htext, htext, String.toList_ofList, String.toList_ofList]
    simp [middle]
  · unfold valueOfKey
    rw [craftedValues_left hne, craftedValues_left hne]
    intro heq
    have hlength := congrArg (fun s => s.toList.length) heq
    simp at hlength

end Wildcards

/-! ## Separation -/

/-- Requests whose keys have no other underscores share a key only if they are charged
to the same counter. A policy that does not repeat a descriptor key separates all
requests exactly if it has at most one wildcard. -/
theorem redis_key_separates (executor : Executor) (domain : String) :
    (∀ p p' x x' start start', Unambiguous p p' x x' →
        executor.redisKey domain p x start = executor.redisKey domain p' x' start' →
        SameCounter executor p p' x x' start start')
      ∧ ∀ p : YamlDescriptor, p.keys.Nodup →
        ((∀ x x' start start', matched x p = true → matched x' p = true →
            executor.redisKey domain p x start = executor.redisKey domain p x' start' →
            SameCounter executor p p x x' start start')
          ↔ p.entries.countP DescriptorEntryDef.wildcard ≤ 1) := by
  refine ⟨fun p p' x x' start start' hu h => hu.sameCounter h, fun p hnodup => ⟨?_, ?_⟩⟩
  · intro hall
    by_contra hmany
    obtain ⟨x, x', hx, hx', htext, key, hkey, hne⟩ := exists_collision hnodup (by omega)
    exact hne ((hall x x' 0 0 hx hx' (redisKey_congr htext)).values key hkey)
  · intro hone x x' start start' hx hx' h
    obtain ⟨htext, hwindow⟩ := pairsText_of_redisKey h
    rw [pairs_eq, pairs_eq] at htext
    refine sameCounter_of_pairs ?_ hwindow
    rw [pairs_eq, pairs_eq]
    refine pairsOf_eq_of_text (fun entry hentry hexplicit => ?_) hone htext
    rw [value_of_matched hx hentry hexplicit, value_of_matched hx' hentry hexplicit]

/-- A limit for each pair of a tenant and a user. -/
def tenantOptions : FilterOptions :=
  { domain := "shop"
    descriptors := [{ entries := [⟨"tenant", ""⟩, ⟨"user", ""⟩], limit := 10 }] }

/-- The values of a request with these two headers. -/
def tenantValues (tenant user : String) : AMap String String :=
  extractedMap (extractDescriptors tenantOptions
    { headers := ((∅ : AMap String String).insert "tenant" tenant).insert "user" user })

/-- Users of different tenants are charged to one counter, by every executor. -/
theorem crafted_values_collide :
    (∀ executor : Executor, ∀ p ∈ tenantOptions.descriptors,
        executor.redisKey "shop" p (tenantValues "1" "2_user_3") 0
          = executor.redisKey "shop" p (tenantValues "1_user_2" "3") 0)
      ∧ valueOfKey (tenantValues "1" "2_user_3") "tenant"
        ≠ valueOfKey (tenantValues "1_user_2" "3") "tenant" := by
  refine ⟨fun executor p hp => ?_, by decide +kernel⟩
  rw [List.mem_singleton.mp hp]
  cases executor <;> decide +kernel

end Hypergate.Filters.RateLimiter
