import Hypergate.Lib.Slices
import Hypergate.Filters.RateLimiter.Keys

/-!
# Where the keys are built (`Evaluate`)

To avoid allocations, a request builds its keys in one buffer on the stack, each after
the one before, and the key strings point into it. The size of a key is estimated
first: if it does not fit into what is left of the buffer, the key is built on the heap.
The two paths append their pieces in different orders, and the sliding window counter
copies the first part of its second key out of the buffer.

* `buildKey_built` — either path builds the keys of `redisKey`, and the first writes
  only into what it reserved.
-/

namespace Hypergate.Filters.RateLimiter

open Engine Lib

/-! ## The buffer -/

/-- `batchBuf` and `offset`. -/
structure Batch where
  mem : List UInt8
  offset : Nat

/-- What is appended for the entries, in the stack path of three executors. -/
def trailingPieces (extracted : AMap String String) (entries : List DescriptorEntryDef) :
    List String :=
  entries.flatMap fun entry => [entry.key, "_", valueOfKey extracted entry.key, "_"]

/-- What both keys of the sliding window counter start with. -/
def tagPieces (domain : String) (policy : YamlDescriptor) (extracted : AMap String String) :
    List String :=
  "\x7b" :: domain :: entryPieces extracted policy.entries ++ ["\x7d", "_"]

/-- What is appended to make a key in the stack path. The sliding window counter goes on
with a start of a window, for each of its two keys. -/
def Executor.stackPieces (executor : Executor) (domain : String) (policy : YamlDescriptor)
    (extracted : AMap String String) (start : Int64) : List String :=
  match executor with
  | .fixedWindow => domain :: entryPieces extracted policy.entries ++ ["_", appendInt start]
  | .slidingWindowCounter => tagPieces domain policy extracted
  | .slidingWindowLog =>
    domain :: "_" :: trailingPieces extracted policy.entries ++ ["sliding_log"]
  | .tokenBucket => domain :: "_" :: trailingPieces extracted policy.entries ++ ["token_bucket"]
  | .leakyBucket => domain :: "_" :: trailingPieces extracted policy.entries ++ ["leaky_queue"]

/-- What the entries add to the estimate. -/
def entriesSize (extracted : AMap String String) (entries : List DescriptorEntryDef) : Nat :=
  entries.foldr (fun entry size =>
    (bytes entry.key).length + (bytes (valueOfKey extracted entry.key)).length + 2 + size) 0

/-- `estimatedSize`; that of the sliding window counter is for two keys. -/
def Executor.estimatedSize (executor : Executor) (domain : String) (policy : YamlDescriptor)
    (extracted : AMap String String) : Nat :=
  match executor with
  | .fixedWindow => (bytes domain).length + 30 + entriesSize extracted policy.entries
  | .slidingWindowCounter =>
    ((bytes domain).length + 30) * 2 + entriesSize extracted policy.entries * 2
  | .slidingWindowLog => (bytes domain).length + (bytes "_sliding_log").length + 30
      + entriesSize extracted policy.entries
  | .tokenBucket => (bytes domain).length + (bytes "_token_bucket").length + 30
      + entriesSize extracted policy.entries
  | .leakyBucket => (bytes domain).length + (bytes "_leaky_queue").length + 30
      + entriesSize extracted policy.entries

/-- The start of the window of a time in seconds. -/
def windowStart (policy : YamlDescriptor) (now : Int64) : Int64 :=
  Int64.ofInt (roundedTimestamp policy now.toInt)

/-- `previousRoundedTimestamp`. -/
def previousStart (policy : YamlDescriptor) (now : Int64) : Int64 :=
  windowStart policy now - Int64.ofInt (getDivider policy.unit)

/-- The stack path: a slice with the estimated capacity. -/
def Batch.key (b : Batch) (estimatedSize : Nat) (pieces : List String) :
    Batch × List (Slice UInt8) :=
  let buf := Slice.appendAll b.mem (.shared b.offset 0 estimatedSize) (pieces.map bytes)
  (⟨buf.1, b.offset + buf.2.length⟩, [buf.2])

/-- The stack path of the sliding window counter: both slices reach to the end of the
buffer, and the second key copies the tag of the first. -/
def Batch.slidingKeys (b : Batch) (tag : List String) (current previous : Int64) :
    Batch × List (Slice UInt8) :=
  let tagged := Slice.appendAll b.mem (.shared b.offset 0 (b.mem.length - b.offset))
    (tag.map bytes)
  let bufC := tagged.2.append tagged.1 (bytes (appendInt current))
  let offset := b.offset + bufC.2.length
  let copied := Slice.append bufC.1 (.shared offset 0 (bufC.1.length - offset))
    (readAt bufC.1 (offset - bufC.2.length) tagged.2.length)
  let bufP := copied.2.append copied.1 (bytes (appendInt previous))
  (⟨bufP.1, offset + bufP.2.length⟩, [bufC.2, bufP.2])

/-- The heap path; the sliding window counter copies the tag before it appends to it. -/
def Executor.heapKeys (executor : Executor) (domain : String) (policy : YamlDescriptor)
    (extracted : AMap String String) (now : Int64) : List (Slice UInt8) :=
  match executor with
  | .slidingWindowCounter =>
    let prefixBytes := ((tagPieces domain policy extracted).map bytes).flatten
    [.own (prefixBytes ++ bytes (appendInt (windowStart policy now))),
      .own (prefixBytes ++ bytes (appendInt (previousStart policy now)))]
  | _ =>
    [.own ((executor.keyPieces domain policy extracted (windowStart policy now)).map
      bytes).flatten]

/-- The keys of a policy as texts. -/
def Executor.redisKeys (executor : Executor) (domain : String) (policy : YamlDescriptor)
    (extracted : AMap String String) (now : Int64) : List String :=
  match executor with
  | .slidingWindowCounter =>
    [executor.redisKey domain policy extracted (windowStart policy now),
      executor.redisKey domain policy extracted (previousStart policy now)]
  | _ => [executor.redisKey domain policy extracted (windowStart policy now)]

section Build

variable (executor : Executor) (domain : String) (extracted : AMap String String) (now : Int64)

/-- The keys of one policy, in either path. -/
def Executor.buildKey (policy : YamlDescriptor) (b : Batch) : Batch × List (Slice UInt8) :=
  if b.offset + executor.estimatedSize domain policy extracted ≤ b.mem.length then
    match executor with
    | .slidingWindowCounter =>
      b.slidingKeys (executor.stackPieces domain policy extracted (windowStart policy now))
        (windowStart policy now) (previousStart policy now)
    | _ => b.key (executor.estimatedSize domain policy extracted)
        (executor.stackPieces domain policy extracted (windowStart policy now))
  else (b, executor.heapKeys domain policy extracted now)

/-- The keys of some policies, one policy after the other. -/
def Executor.buildKeys : List YamlDescriptor → Batch → Batch × List (List (Slice UInt8))
  | [], b => (b, [])
  | policy :: rest, b =>
    let built := executor.buildKey domain extracted now policy b
    let others := Executor.buildKeys rest built.1
    (others.1, built.2 :: others.2)

/-- The keys of a policy were built in the buffer or beside it: they read as they
should, and nothing was written but what was reserved. -/
structure Built (policy : YamlDescriptor) (b b' : Batch) (keys : List (Slice UInt8)) : Prop where
  contents : keys.map (Slice.read b'.mem)
    = (executor.redisKeys domain policy extracted now).map bytes
  laid : Laid b.offset b'.offset keys
  written : ∃ bs, b'.mem = overwrite b.mem b.offset bs ∧ b'.offset = b.offset + bs.length
    ∧ (bs = [] ∨ bs.length ≤ executor.estimatedSize domain policy extracted
      ∧ b.offset + executor.estimatedSize domain policy extracted ≤ b.mem.length)

end Build

/-! ## What the pieces make -/

section Pieces

variable {executor : Executor} (domain : String) (policy : YamlDescriptor)
  (extracted : AMap String String)

theorem length_entryPieces (entries : List DescriptorEntryDef) :
    ((entryPieces extracted entries).map bytes).flatten.length = entriesSize extracted entries := by
  induction entries with
  | nil => rfl
  | cons entry entries ih =>
    have hsep : (bytes "_").length = 1 := rfl
    show ((["_", entry.key, "_", valueOfKey extracted entry.key]
      ++ entryPieces extracted entries).map bytes).flatten.length
        = _ + entriesSize extracted entries
    simp only [List.map_append, List.flatten_append, List.length_append, ih, List.map_cons,
      List.map_nil, List.flatten_cons, List.flatten_nil, List.length_nil, hsep]
    omega

/-- The separators stand behind the parts or before them. -/
theorem trailing_eq (entries : List DescriptorEntryDef) :
    bytes "_" ++ ((trailingPieces extracted entries).map bytes).flatten
      = ((entryPieces extracted entries).map bytes).flatten ++ bytes "_" := by
  induction entries with
  | nil => rfl
  | cons entry entries ih =>
    have htrailing : trailingPieces extracted (entry :: entries)
        = [entry.key, "_", valueOfKey extracted entry.key, "_"]
          ++ trailingPieces extracted entries := rfl
    have hentry : entryPieces extracted (entry :: entries)
        = ["_", entry.key, "_", valueOfKey extracted entry.key]
          ++ entryPieces extracted entries := rfl
    rw [htrailing, hentry]
    simp only [List.map_append, List.flatten_append, List.map_cons, List.map_nil,
      List.flatten_cons, List.flatten_nil, List.append_nil, List.append_assoc]
    rw [ih]

theorem length_appendInt (n : Int64) : (bytes (appendInt n)).length ≤ 20 := by
  have hlo := n.le_toInt
  have hhi := n.toInt_lt
  have hlength : n.toInt.natAbs.repr.length ≤ 19 :=
    (Nat.length_repr_le_iff (by omega)).mpr (by omega)
  exact Nat.le_trans (length_bytes_intRepr _) (Nat.succ_le_succ hlength)

/-- What the stack path appends, in the order of the heap path. -/
theorem stackPieces_eq (h : executor ≠ .slidingWindowCounter) (start : Int64) :
    ((executor.stackPieces domain policy extracted start).map bytes).flatten
      = bytes (executor.redisKey domain policy extracted start) := by
  have hsuffix : ∀ suffix : String,
      ((domain :: "_" :: trailingPieces extracted policy.entries ++ [suffix]).map bytes).flatten
        = ((domain :: entryPieces extracted policy.entries ++ ["_" ++ suffix]).map
          bytes).flatten := by
    intro suffix
    simp only [List.map_cons, List.map_append, List.flatten_cons, List.flatten_append,
      List.map_nil, List.flatten_nil, List.append_nil, List.cons_append, bytes_append]
    rw [← List.append_assoc (bytes "_"), trailing_eq, List.append_assoc]
  unfold Executor.redisKey
  rw [bytes_join]
  cases executor with
  | fixedWindow => rfl
  | slidingWindowCounter => exact absurd rfl h
  | slidingWindowLog => exact hsuffix "sliding_log"
  | tokenBucket => exact hsuffix "token_bucket"
  | leakyBucket => exact hsuffix "leaky_queue"

/-- A key of the sliding window counter is the tag and the start of the window. -/
theorem tagPieces_eq (start : Int64) :
    ((tagPieces domain policy extracted).map bytes).flatten ++ bytes (appendInt start)
      = bytes (Executor.slidingWindowCounter.redisKey domain policy extracted start) := by
  unfold Executor.redisKey
  rw [bytes_join]
  simp [Executor.keyPieces, tagPieces]

theorem length_redisKey_le (h : executor ≠ .slidingWindowCounter) (start : Int64) :
    (bytes (executor.redisKey domain policy extracted start)).length
      ≤ executor.estimatedSize domain policy extracted := by
  have hentries := length_entryPieces extracted policy.entries
  have hstart := length_appendInt start
  have hsep : (bytes "_").length = 1 := rfl
  have hpieces : ∀ suffix : List String,
      ((domain :: entryPieces extracted policy.entries ++ suffix).map bytes).flatten.length
        = (bytes domain).length + entriesSize extracted policy.entries
          + (suffix.map bytes).flatten.length := by
    intro suffix
    rw [← hentries, List.map_append, List.map_cons, List.flatten_append, List.flatten_cons,
      List.length_append, List.length_append]
  have hone : ∀ suffix : String, ([suffix].map bytes).flatten.length = (bytes suffix).length := by
    intro suffix
    rw [List.map_singleton, List.flatten_singleton]
  unfold Executor.redisKey
  rw [bytes_join]
  cases executor with
  | slidingWindowCounter => exact absurd rfl h
  | fixedWindow =>
    refine Nat.le_trans (Nat.le_of_eq (hpieces ["_", appendInt start])) ?_
    show _ + (bytes "_" ++ (bytes (appendInt start) ++ [])).length ≤ _ + 30 + _
    rw [List.append_nil, List.length_append]
    omega
  | slidingWindowLog =>
    refine Nat.le_trans (Nat.le_of_eq (hpieces ["_sliding_log"])) ?_
    show _ ≤ (bytes domain).length + (bytes "_sliding_log").length + 30 + _
    rw [hone]
    omega
  | tokenBucket =>
    refine Nat.le_trans (Nat.le_of_eq (hpieces ["_token_bucket"])) ?_
    show _ ≤ (bytes domain).length + (bytes "_token_bucket").length + 30 + _
    rw [hone]
    omega
  | leakyBucket =>
    refine Nat.le_trans (Nat.le_of_eq (hpieces ["_leaky_queue"])) ?_
    show _ ≤ (bytes domain).length + (bytes "_leaky_queue").length + 30 + _
    rw [hone]
    omega

/-- Both keys of the sliding window counter fit into the estimate. -/
theorem length_tagPieces :
    ((tagPieces domain policy extracted).map bytes).flatten.length
      = (bytes domain).length + entriesSize extracted policy.entries + 3 := by
  have hentries := length_entryPieces extracted policy.entries
  have hopen : (bytes "\x7b").length = 1 := rfl
  have hclose : (bytes "\x7d").length = 1 := rfl
  have hsep : (bytes "_").length = 1 := rfl
  simp only [tagPieces, List.map_cons, List.map_append,
    List.cons_append, List.flatten_cons, List.flatten_append, List.length_append,
    List.map_nil, List.flatten_nil, List.length_nil]
  omega

end Pieces

/-! ## The stack path -/

theorem Batch.key_eq (b : Batch) {estimatedSize : Nat} {pieces : List String}
    {contents : List UInt8} (hcontents : (pieces.map bytes).flatten = contents)
    (hlength : contents.length ≤ estimatedSize) :
    b.key estimatedSize pieces
      = (⟨overwrite b.mem b.offset contents, b.offset + contents.length⟩,
        [.shared b.offset contents.length estimatedSize]) := by
  subst hcontents
  unfold Batch.key
  rw [appendAll_shared (by omega)]
  simp only [Nat.zero_add, Nat.add_zero, Slice.length]

theorem Batch.slidingKeys_eq (b : Batch) {tag : List String} {current previous : Int64}
    {keyC keyP : List UInt8}
    (hC : (tag.map bytes).flatten ++ bytes (appendInt current) = keyC)
    (hP : (tag.map bytes).flatten ++ bytes (appendInt previous) = keyP)
    (hroom : b.offset + (keyC.length + keyP.length) ≤ b.mem.length) :
    b.slidingKeys tag current previous
      = (⟨overwrite b.mem b.offset (keyC ++ keyP), b.offset + (keyC ++ keyP).length⟩,
        [.shared b.offset keyC.length (b.mem.length - b.offset),
          .shared (b.offset + keyC.length) keyP.length
            (b.mem.length - (b.offset + keyC.length))]) := by
  subst hC hP
  rw [List.length_append, List.length_append] at hroom
  unfold Batch.slidingKeys
  generalize hT : (tag.map bytes).flatten = T at hroom
  generalize bytes (appendInt current) = C at hroom
  generalize bytes (appendInt previous) = P at hroom
  have htagged : Slice.appendAll b.mem (.shared b.offset 0 (b.mem.length - b.offset))
      (tag.map bytes) = (overwrite b.mem b.offset T,
        .shared b.offset T.length (b.mem.length - b.offset)) := by
    rw [appendAll_shared (by rw [hT]; omega), hT, Nat.add_zero, Nat.zero_add]
  have hcurrent : Slice.append (overwrite b.mem b.offset T)
      (.shared b.offset T.length (b.mem.length - b.offset)) C
      = (overwrite b.mem b.offset (T ++ C),
        .shared b.offset (T.length + C.length) (b.mem.length - b.offset)) :=
    append_overwrite rfl (by omega)
  have hcopied : Slice.append (overwrite b.mem b.offset (T ++ C))
      (.shared (b.offset + (T.length + C.length)) 0
        (b.mem.length - (b.offset + (T.length + C.length)))) T
      = (overwrite b.mem b.offset (T ++ C ++ T),
        .shared (b.offset + (T.length + C.length)) T.length
          (b.mem.length - (b.offset + (T.length + C.length)))) := by
    rw [append_overwrite (by rw [List.length_append, Nat.add_zero]) (by omega), Nat.zero_add]
  have hread : readAt (overwrite b.mem b.offset (T ++ C)) b.offset T.length = T :=
    read_overwrite_left (by omega)
  simp only [htagged, hcurrent, Slice.length, Nat.add_sub_cancel, length_overwrite, hread,
    hcopied]
  rw [append_overwrite (by simp only [List.length_append]; omega) (by omega)]
  simp only [List.length_append, List.append_assoc, Nat.add_assoc]

/-! ## Keys right in either path -/

section Right

variable {executor : Executor} {domain : String} {extracted : AMap String String} {now : Int64}
  {policy : YamlDescriptor} {b : Batch}

theorem heapKeys_built :
    Built executor domain extracted now policy b b
      (executor.heapKeys domain policy extracted now) := by
  refine ⟨?_, ?_, [], rfl, rfl, .inl rfl⟩
  · cases executor with
    | slidingWindowCounter =>
      show [_, _] = [_, _]
      rw [Slice.read, Slice.read, tagPieces_eq, tagPieces_eq]
    | fixedWindow => exact congrArg (· :: []) (bytes_join _).symm
    | slidingWindowLog => exact congrArg (· :: []) (bytes_join _).symm
    | tokenBucket => exact congrArg (· :: []) (bytes_join _).symm
    | leakyBucket => exact congrArg (· :: []) (bytes_join _).symm
  · cases executor <;> exact Nat.le_refl _

theorem key_built (h : executor ≠ .slidingWindowCounter)
    (hfits : b.offset + executor.estimatedSize domain policy extracted ≤ b.mem.length) :
    Built executor domain extracted now policy b
      (b.key (executor.estimatedSize domain policy extracted)
        (executor.stackPieces domain policy extracted (windowStart policy now))).1
      (b.key (executor.estimatedSize domain policy extracted)
        (executor.stackPieces domain policy extracted (windowStart policy now))).2 := by
  have hlength := length_redisKey_le domain policy extracted h (windowStart policy now)
  rw [b.key_eq (stackPieces_eq domain policy extracted h _) hlength]
  refine ⟨?_, ⟨Nat.le_refl _, Nat.le_refl _⟩, _, rfl, rfl, .inr ⟨hlength, hfits⟩⟩
  have hkeys : executor.redisKeys domain policy extracted now
      = [executor.redisKey domain policy extracted (windowStart policy now)] := by
    cases executor <;> first | rfl | exact absurd rfl h
  rw [hkeys]
  show [readAt _ _ _] = [_]
  rw [read_overwrite (by omega)]

theorem slidingKeys_built
    (hfits : b.offset + Executor.slidingWindowCounter.estimatedSize domain policy extracted
      ≤ b.mem.length) :
    Built .slidingWindowCounter domain extracted now policy b
      (b.slidingKeys (tagPieces domain policy extracted) (windowStart policy now)
        (previousStart policy now)).1
      (b.slidingKeys (tagPieces domain policy extracted) (windowStart policy now)
        (previousStart policy now)).2 := by
  have htag := length_tagPieces domain policy extracted
  have hcurrent := length_appendInt (windowStart policy now)
  have hprevious := length_appendInt (previousStart policy now)
  have hest : Executor.slidingWindowCounter.estimatedSize domain policy extracted
    = ((bytes domain).length + 30) * 2 + entriesSize extracted policy.entries * 2 := rfl
  have htext := tagPieces_eq domain policy extracted
  have hC := congrArg List.length (htext (windowStart policy now))
  have hP := congrArg List.length (htext (previousStart policy now))
  rw [List.length_append] at hC hP
  rw [b.slidingKeys_eq (htext _) (htext _) (by omega)]
  refine ⟨?_, ⟨Nat.le_refl _, Nat.le_refl _, ?_⟩, _, rfl, rfl, .inr ⟨?_, hfits⟩⟩
  · show [readAt _ _ _, readAt _ _ _] = [_, _]
    rw [read_overwrite_left (by omega), read_overwrite_right (by omega)]
  · rw [List.length_append]
    exact Nat.le_of_eq (Nat.add_assoc _ _ _)
  · rw [List.length_append]
    omega

variable (executor domain extracted now policy b)

/-- The keys of one policy are right, from any state of the buffer. -/
theorem buildKey_built :
    Built executor domain extracted now policy b
      (executor.buildKey domain extracted now policy b).1
      (executor.buildKey domain extracted now policy b).2 := by
  unfold Executor.buildKey
  split
  · case isTrue hfits =>
      cases executor with
      | slidingWindowCounter => exact slidingKeys_built hfits
      | fixedWindow => exact key_built (by simp) hfits
      | slidingWindowLog => exact key_built (by simp) hfits
      | tokenBucket => exact key_built (by simp) hfits
      | leakyBucket => exact key_built (by simp) hfits
  · exact heapKeys_built

omit policy b in
theorem buildKeys_built (policies : List YamlDescriptor) (b : Batch) :
    (executor.buildKeys domain extracted now policies b).2.map
        (List.map (Slice.read (executor.buildKeys domain extracted now policies b).1.mem))
      = policies.map (fun policy => (executor.redisKeys domain policy extracted now).map bytes)
    ∧ Laid b.offset (executor.buildKeys domain extracted now policies b).1.offset
      (executor.buildKeys domain extracted now policies b).2.flatten
    ∧ ∃ bs, (executor.buildKeys domain extracted now policies b).1.mem
      = overwrite b.mem b.offset bs := by
  induction policies generalizing b with
  | nil => exact ⟨rfl, Nat.le_refl _, [], rfl⟩
  | cons policy policies ih =>
    obtain ⟨hcontents, hlaid, bs, hmem, hoffset, -⟩ :=
      buildKey_built executor domain extracted now policy b
    obtain ⟨hrest, hlaid', bs', hmem'⟩ := ih (executor.buildKey domain extracted now policy b).1
    refine ⟨?_, hlaid.append hlaid', bs ++ bs', ?_⟩
    · refine congr (congrArg List.cons ?_) hrest
      show List.map (Slice.read (executor.buildKeys domain extracted now policies
        (executor.buildKey domain extracted now policy b).1).1.mem) _ = List.map bytes _
      rw [hmem', hlaid.read_overwrite, hcontents]
    · rw [overwrite_append, ← hmem, ← hoffset]
      exact hmem'

end Right

/-- The keys do not depend on the path that builds them nor on the policies before, each
stays in what was reserved for it, and none touches another. The two keys of the
sliding window counter differ in the start of the window only. -/
theorem keys_built_right (executor : Executor) (domain : String)
    (extracted : AMap String String) (now : Int64) (b : Batch) :
    (∀ policy, Built executor domain extracted now policy b
        (executor.buildKey domain extracted now policy b).1
        (executor.buildKey domain extracted now policy b).2)
      ∧ (∀ policies, (executor.buildKeys domain extracted now policies b).2.map
            (List.map (Slice.read (executor.buildKeys domain extracted now policies b).1.mem))
          = policies.map (fun policy =>
            (executor.redisKeys domain policy extracted now).map bytes)
        ∧ (executor.buildKeys domain extracted now policies b).2.flatten.Pairwise Slice.Apart)
      ∧ ∀ policy, Executor.slidingWindowCounter.redisKeys domain policy extracted now
        = [String.join (tagPieces domain policy extracted) ++ appendInt (windowStart policy now),
          String.join (tagPieces domain policy extracted)
            ++ appendInt (previousStart policy now)] := by
  refine ⟨fun policy => buildKey_built executor domain extracted now policy b,
    fun policies => ?_, fun policy => ?_⟩
  · obtain ⟨hcontents, hlaid, -⟩ := buildKeys_built executor domain extracted now policies b
    exact ⟨hcontents, hlaid.apart⟩
  · have hkey : ∀ start, Executor.slidingWindowCounter.redisKey domain policy extracted start
        = String.join (tagPieces domain policy extracted) ++ appendInt start := by
      intro start
      refine String.toList_inj.mp ?_
      rw [String.toList_append, Executor.redisKey, String.toList_join, String.toList_join]
      simp [Executor.keyPieces, tagPieces]
    show [_, _] = [_, _]
    rw [hkey, hkey]

end Hypergate.Filters.RateLimiter
