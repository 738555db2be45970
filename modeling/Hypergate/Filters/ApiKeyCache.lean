import Hypergate.Filters.ApiKey

/-!
# Answers from the local cache (`internal/filters/api_key`)

The first request with a key is answered from Redis and leaves an entry, and the next
ones are answered from the entry. Do they get the same?

* `cachedAnswer_invalid`, `cachedAnswer_forbidden` — a block is read back as it was.
* `Answer.Same.alike` — the same answer has the same effect on a request.
-/

namespace Hypergate.Filters.ApiKey

open Engine Lib

/-! ## What an answer changes -/

/-- The headers an answer leaves set, by their names in lower case. -/
def changed (changes : List (String × String)) : AMap String String :=
  AMap.insertAll ∅ (changes.map fun e => (toLower e.1, e.2))

/-- The same decision, and the same header changes. -/
def Answer.Same : Answer → Answer → Prop
  | .failed err, .failed err' => err = err'
  | .block status body, .block status' body' => status = status' ∧ body = body'
  | .allow changes, .allow changes' => ∀ key, (changed changes).lookup key
      = (changed changes').lookup key
  | _, _ => False

/-- The output headers have different names. -/
def Distinct (cfg : Config) : Prop :=
  (cfg.outputMappings.map fun mapping => toLower mapping.targetHeader).Nodup

/-- The record is one of a blocked key, or its fields survive the cache. -/
def Survives (lib : Library) (cfg : Config) (r : Replies) : Prop :=
  ∀ headerValues, rule lib cfg r = .allow headerValues →
    ∀ name value, headerValues.lookup name = some value →
      Plain '=' '\n' (name, value) ∧ name.toList.head? ≠ some '\x00'

/-- In any two requests with one key, of which the second finds the entry that the
first one left, both get the same answer. -/
def SecondSame (lib : Library) (cfg : Config) (redis : String → Replies) (apiKey : String) :
    Prop :=
  ∀ (redis' : String → Replies) (v v' : Visits) (taken taken' : Bool) (now now' : Int)
    (l1 l1' : L1), now ≤ now' →
    l1.get now (redisKey lib cfg apiKey) = none →
    l1'.lookup (redisKey lib cfg apiKey)
      = (answer lib cfg redis v taken now l1 apiKey).2.lookup (redisKey lib cfg apiKey) →
    l1'.get now' (redisKey lib cfg apiKey) ≠ none →
    (answer lib cfg redis v taken now l1 apiKey).1.Same
      (answer lib cfg redis' v' taken' now' l1' apiKey).1

/-- Distinct output headers tell header values apart. -/
theorem Distinct.injOn {cfg : Config} (h : Distinct cfg) {name name' : String}
    (hname : name ∈ cfg.outputMappings.map OutputMapping.targetHeader)
    (hname' : name' ∈ cfg.outputMappings.map OutputMapping.targetHeader)
    (heq : toLower name = toLower name') : name = name' := by
  obtain ⟨mapping, hmapping, rfl⟩ := List.mem_map.mp hname
  obtain ⟨mapping', hmapping', rfl⟩ := List.mem_map.mp hname'
  rw [List.inj_on_of_nodup_map h hmapping hmapping' heq]

/-! ## Changes in any order -/

section Changed

variable {headerValues : AMap String String}

theorem lookup_changed {name value : String} (o : AMap.Order headerValues)
    (hinj : ∀ name' value', headerValues.lookup name' = some value' →
      toLower name' = toLower name → name' = name)
    (h : headerValues.lookup name = some value) :
    (changed o.items).lookup (toLower name) = some value := by
  refine AMap.lookup_insertAll_of_mem (fun value' hv => ?_)
    (List.mem_map.mpr ⟨(name, value), o.mem_items.mpr h, rfl⟩)
  obtain ⟨⟨name', value''⟩, he, heq⟩ := List.mem_map.mp hv
  obtain ⟨hkey, rfl⟩ := Prod.mk.inj heq
  have hlookup := o.mem_items.mp he
  obtain rfl := hinj name' value'' hlookup hkey
  exact Option.some.inj (hlookup.symm.trans h)

theorem mem_of_changed {changes : List (String × String)} {key value : String}
    (h : (changed changes).lookup key = some value) :
    ∃ name, (name, value) ∈ changes ∧ toLower name = key := by
  rcases AMap.mem_of_lookup_insertAll h with hmem | hempty
  · obtain ⟨⟨name, value'⟩, he, heq⟩ := List.mem_map.mp hmem
    obtain ⟨hkey, rfl⟩ := Prod.mk.inj heq
    exact ⟨name, he, hkey⟩
  · cases hempty

theorem changed_order (o o' : AMap.Order headerValues)
    (hinj : ∀ name name' value value', headerValues.lookup name = some value →
      headerValues.lookup name' = some value' → toLower name' = toLower name → name' = name)
    (key : String) : (changed o.items).lookup key = (changed o'.items).lookup key := by
  have hsome : ∀ (o o' : AMap.Order headerValues) (value : String),
      (changed o.items).lookup key = some value →
        (changed o'.items).lookup key = some value := by
    intro o o' value h
    obtain ⟨name, hmem, rfl⟩ := mem_of_changed h
    have hlookup := o.mem_items.mp hmem
    exact lookup_changed o' (fun name' value' h' => hinj name name' value value' hlookup h') hlookup
  ext value
  exact ⟨hsome o o' value, hsome o' o value⟩

/-- An order that starts with a given entry. -/
def frontOrder (name : String) (m : AMap String String) : AMap.Order m :=
  match h : m.lookup name with
  | some value => ⟨(name, value) :: m.toList.erase (name, value),
      (List.perm_cons_erase (AMap.mem_toList.mpr h)).symm⟩
  | none => ⟨m.toList, List.Perm.refl _⟩

theorem frontOrder_items {name value : String} (h : headerValues.lookup name = some value) :
    ∃ rest, (frontOrder name headerValues).items = (name, value) :: rest := by
  unfold frontOrder
  split
  · case h_1 value' h' =>
      obtain rfl : value' = value := Option.some.inj (h'.symm.trans h)
      exact ⟨_, rfl⟩
  · case h_2 h' => exact absurd (h'.symm.trans h) (by simp)

end Changed

/-! ## Entries -/

theorem cachedAnswer_of_head {value : String} (h : value.toList.head? ≠ some '\x00') :
    cachedAnswer value = .allow (readLines '=' '\n' value) := by
  unfold cachedAnswer
  split
  · case h_1 reason heq => exact absurd (congrArg List.head? heq) h
  · rfl

theorem cachedAnswer_zero {value : String} (h : value.toList.head? = some '\x00') :
    ∃ status body, cachedAnswer value = .block status body := by
  unfold cachedAnswer
  split
  · exact ⟨_, _, rfl⟩
  · case h_2 hother =>
      obtain ⟨reason, heq⟩ := List.head?_eq_some_iff.mp h
      exact (hother reason heq).elim

theorem cachedAnswer_marker (body : String) :
    cachedAnswer ("\x00" ++ body)
      = .block (if "Forbidden".toList <:+: body.toList then 403 else 401) body := by
  have htext : ("\x00" ++ body).toList = '\x00' :: body.toList := String.toList_append
  unfold cachedAnswer
  rw [htext]
  simp only [String.ofList_toList]

theorem cachedAnswer_invalid :
    cachedAnswer ("\x00" ++ "Unauthorized: Invalid API Key")
      = .block 401 "Unauthorized: Invalid API Key" := by
  rw [cachedAnswer_marker, if_neg (by decide +kernel)]

theorem cachedAnswer_forbidden (statusVal : String) :
    cachedAnswer ("\x00" ++ ("Forbidden: Account is " ++ statusVal))
      = .block 403 ("Forbidden: Account is " ++ statusVal) := by
  have hinfix : "Forbidden".toList <:+: ("Forbidden: Account is " ++ statusVal).toList := by
    refine ⟨[], ": Account is ".toList ++ statusVal.toList, ?_⟩
    rw [String.toList_append]
    rfl
  rw [cachedAnswer_marker, if_pos hinfix]

theorem head_linesText (e : String × String) (l : List (String × String)) :
    (linesText '=' '\n' (e :: l)).toList.head? = (e.1.toList ++ ['=']).head? := by
  have htext : (linesText '=' '\n' (e :: l)).toList
      = e.1.toList ++ '=' :: (e.2.toList ++ '\n' :: (linesText '=' '\n' l).toList) := by
    simp [linesText, lineText]
  rw [htext]
  cases e.1.toList with
  | nil => rfl
  | cons c name => rfl

theorem head_linesText_ne {l : List (String × String)}
    (h : ∀ e ∈ l, e.1.toList.head? ≠ some '\x00') :
    (linesText '=' '\n' l).toList.head? ≠ some '\x00' := by
  cases l with
  | nil => exact fun hnil => absurd hnil (by simp [linesText])
  | cons e l =>
    have hname := h e List.mem_cons_self
    rw [head_linesText]
    cases hl : e.1.toList with
    | nil => exact fun heq => absurd heq (by decide)
    | cons c name =>
      rw [hl] at hname
      exact hname

section Entries

variable {lib : Library} {cfg : Config} {redis redis' : String → Replies} {v v' : Visits}
  {taken taken' : Bool} {now now' : Int} {l1 l1' : L1} {apiKey : String}

theorem answer_hit {value : String} (h : l1.get now (redisKey lib cfg apiKey) = some value) :
    (answer lib cfg redis v taken now l1 apiKey).1 = cachedAnswer value := by
  unfold answer
  dsimp only
  rw [h]

theorem answer_miss (h : l1.get now (redisKey lib cfg apiKey) = none) :
    (answer lib cfg redis v taken now l1 apiKey).1
      = (rule lib cfg (redis (redisKey lib cfg apiKey))).answer v := by
  unfold answer
  dsimp only
  rw [h]

/-- An entry that has not run out yet had not run out before. -/
theorem get_of_le {key value : String} (hle : now ≤ now') (h : l1.get now' key = some value) :
    l1.get now key = some value := by
  unfold L1.get at h ⊢
  cases hentry : l1.lookup key with
  | none =>
    rw [hentry] at h
    cases h
  | some entry =>
    rw [hentry] at h
    dsimp only at h ⊢
    by_cases hlive : now' < entry.ends
    · rw [if_pos hlive] at h
      rw [if_pos (by omega)]
      exact h
    · rw [if_neg hlive] at h
      cases h

theorem get_congr {key : String} (h : l1'.lookup key = l1.lookup key) :
    l1'.get now key = l1.get now key := by
  unfold L1.get
  rw [h]

/-- The entry that is found later is what was cached of the ruling. -/
theorem cached_of_hit {value : String} (hle : now ≤ now')
    (hmiss : l1.get now (redisKey lib cfg apiKey) = none)
    (hsame : l1'.lookup (redisKey lib cfg apiKey)
      = (answer lib cfg redis v taken now l1 apiKey).2.lookup (redisKey lib cfg apiKey))
    (hhit : l1'.get now' (redisKey lib cfg apiKey) = some value) :
    ∃ ttl, (rule lib cfg (redis (redisKey lib cfg apiKey))).cached v = some (value, ttl) := by
  rw [get_congr hsame] at hhit
  unfold answer at hhit
  dsimp only at hhit
  rw [hmiss] at hhit
  dsimp only at hhit
  -- without a new entry, the old one would have been found before
  have hold : l1.get now' (redisKey lib cfg apiKey) = some value → False := fun h =>
    absurd (hmiss.symm.trans (get_of_le hle h)) (by simp)
  cases hcached : (rule lib cfg (redis (redisKey lib cfg apiKey))).cached v with
  | none =>
    rw [hcached] at hhit
    exact (hold hhit).elim
  | some e =>
    rw [hcached] at hhit
    cases taken with
    | false => exact (hold hhit).elim
    | true =>
      dsimp only at hhit
      unfold L1.get at hhit
      rw [AMap.lookup_insert_ite, if_pos rfl] at hhit
      dsimp only at hhit
      split_ifs at hhit
      exact ⟨e.2, by rw [← Option.some.inj hhit]⟩

/-- A ruling is found again right after it was made. -/
theorem get_answer {value : String} {ttl : Int} (hpos : 0 < ttl)
    (hmiss : l1.get now (redisKey lib cfg apiKey) = none)
    (h : (rule lib cfg (redis (redisKey lib cfg apiKey))).cached v = some (value, ttl)) :
    (answer lib cfg redis v true now l1 apiKey).2.get now (redisKey lib cfg apiKey)
      = some value := by
  unfold answer
  dsimp only
  rw [hmiss]
  dsimp only
  rw [h]
  dsimp only
  unfold L1.get
  rw [AMap.lookup_insert_ite, if_pos rfl]
  exact if_pos (by show now < now + ttl; omega)

end Entries

/-! ## The second answer -/

section Second

variable {lib : Library} {cfg : Config}

theorem same_of_survives {r : Replies} {v : Visits} {value : String} {ttl : Int}
    (hdistinct : Distinct cfg) (hsurvives : Survives lib cfg r)
    (hcached : (rule lib cfg r).cached v = some (value, ttl)) :
    ((rule lib cfg r).answer v).Same (cachedAnswer value) := by
  rcases rule_cases lib cfg r
    with ⟨err, hrule⟩ | hrule | ⟨statusVal, hrule⟩ | ⟨headerValues, hrule, hnamed⟩
  · rw [hrule] at hcached
    cases hcached
  · rw [hrule] at hcached ⊢
    obtain ⟨rfl, -⟩ := Prod.mk.inj (Option.some.inj hcached)
    rw [cachedAnswer_invalid]
    exact ⟨rfl, rfl⟩
  · rw [hrule] at hcached ⊢
    obtain ⟨rfl, -⟩ := Prod.mk.inj (Option.some.inj hcached)
    rw [cachedAnswer_forbidden]
    exact ⟨rfl, rfl⟩
  · have hplain : ∀ e ∈ (v.caching headerValues).items,
        Plain '=' '\n' e ∧ e.1.toList.head? ≠ some '\x00' := fun e he =>
      hsurvives headerValues hrule e.1 e.2 ((v.caching headerValues).mem_items.mp he)
    rw [hrule] at hcached ⊢
    obtain ⟨rfl, -⟩ := Prod.mk.inj (Option.some.inj hcached)
    rw [cachedAnswer_of_head (head_linesText_ne fun e he => (hplain e he).2),
      readLines_linesText (by decide) fun e he => (hplain e he).1]
    exact changed_order _ _ fun name name' value value' h h' heq =>
      hdistinct.injOn (hnamed name' value' h') (hnamed name value h) heq

/-- What is read back has survived, if any of it can come first. -/
theorem survives_of_same {r : Replies} (hdistinct : Distinct cfg)
    (hsame : ∀ (v : Visits) (value : String) (ttl : Int),
      (rule lib cfg r).cached v = some (value, ttl) →
        ((rule lib cfg r).answer v).Same (cachedAnswer value)) : Survives lib cfg r := by
  intro headerValues hrule name value hlookup
  rcases rule_cases lib cfg r
    with ⟨err, hother⟩ | hother | ⟨statusVal, hother⟩ | ⟨headerValues', hallow, hnamed⟩
  · exact absurd (hrule.symm.trans hother) (by simp)
  · exact absurd (hrule.symm.trans hother) (by simp)
  · exact absurd (hrule.symm.trans hother) (by simp)
  obtain rfl := Ruling.allow.inj (hrule.symm.trans hallow)
  obtain ⟨rest, hitems⟩ := frontOrder_items hlookup
  -- this entry is cached first
  have hsecond := hsame ⟨frontOrder name, frontOrder name⟩ _ _ (by rw [hrule]; rfl)
  rw [hrule] at hsecond
  have htext : (linesText '=' '\n' (frontOrder name headerValues).items).toList.head?
      = (name.toList ++ ['=']).head? := by rw [hitems, head_linesText]
  have hhead : name.toList.head? ≠ some '\x00' := by
    intro hzero
    have hfirst : (name.toList ++ ['=']).head? = some '\x00' := by
      rw [List.head?_append, hzero]
      rfl
    obtain ⟨status, body, hblock⟩ := cachedAnswer_zero (htext.trans hfirst)
    rw [hblock] at hsecond
    exact hsecond
  have hline : (linesText '=' '\n' (frontOrder name headerValues).items).toList.head?
      ≠ some '\x00' := by
    rw [htext]
    cases hl : name.toList with
    | nil => exact fun heq => absurd heq (by decide)
    | cons c rest =>
      rw [hl] at hhead
      exact hhead
  rw [cachedAnswer_of_head hline] at hsecond
  -- and is among the changes that are read back
  have hchanged := (hsecond (toLower name)).symm.trans
    (lookup_changed _ (fun name' value' h' heq =>
      hdistinct.injOn (hnamed name' value' h') (hnamed name value hlookup) heq) hlookup)
  obtain ⟨name', hmem, heq⟩ := mem_of_changed hchanged
  exact ⟨(plain_of_mem_readLines hmem).of_toLower (by decide) (by decide) heq, hhead⟩

theorem secondSame_of_survives {redis : String → Replies} {apiKey : String}
    (hdistinct : Distinct cfg)
    (hsurvives : Survives lib cfg (redis (redisKey lib cfg apiKey))) :
    SecondSame lib cfg redis apiKey := by
  intro redis' v v' taken taken' now now' l1 l1' hle hmiss hsame hhit
  obtain ⟨value, hvalue⟩ := Option.ne_none_iff_exists'.mp hhit
  obtain ⟨ttl, hcached⟩ := cached_of_hit hle hmiss hsame hvalue
  rw [answer_miss hmiss, answer_hit hvalue]
  exact same_of_survives hdistinct hsurvives hcached

theorem cached_pos {ruling : Ruling} {v : Visits} {value : String} {ttl : Int}
    (h : ruling.cached v = some (value, ttl)) : 0 < ttl := by
  cases ruling with
  | failed err => cases h
  | block status body =>
    rw [← (Prod.mk.inj (Option.some.inj h)).2]
    omega
  | allow headerValues =>
    rw [← (Prod.mk.inj (Option.some.inj h)).2]
    omega

theorem survives_of_secondSame {redis : String → Replies} {apiKey : String}
    (hdistinct : Distinct cfg) (hsecond : SecondSame lib cfg redis apiKey) :
    Survives lib cfg (redis (redisKey lib cfg apiKey)) := by
  refine survives_of_same hdistinct fun v value ttl hcached => ?_
  -- the first request meets an empty cache, the second comes right after it
  have hmiss : L1.get ∅ 0 (redisKey lib cfg apiKey) = none := rfl
  have hhit := get_answer (cached_pos hcached) hmiss hcached
  have hsame := hsecond redis v v true true 0 0 ∅ _ (Int.le_refl 0) hmiss rfl
    (by rw [hhit]; simp)
  rwa [answer_miss hmiss, answer_hit hhit] at hsame

end Second

/-! ## Effects -/

section Effects

variable {cfg : Config} {c c' : RequestContext}

theorem sent_setAll {changes : List (String × String)} {m : AMap String String}
    {key : String} {base : Option String} (h : c.sent key = (m.lookup key).or base) :
    (changes.foldl (fun ctx e => ctx.setHeaderUpstream e.1 e.2) c).sent key
      = ((m.insertAll (changes.map fun e => (toLower e.1, e.2))).lookup key).or base := by
  induction changes generalizing c m with
  | nil => exact h
  | cons e changes ih =>
    refine ih (c := c.setHeaderUpstream e.1 e.2) (m := m.insert (toLower e.1) e.2) ?_
    rw [RequestContext.sent_setHeaderUpstream, AMap.lookup_insert_ite]
    by_cases hkey : key = toLower e.1
    · rw [if_pos hkey, if_pos hkey, Option.some_or]
    · rw [if_neg hkey, if_neg hkey, h]

theorem aside_setAll (changes : List (String × String)) (c : RequestContext) :
    (changes.foldl (fun ctx e => ctx.setHeaderUpstream e.1 e.2) c).aside = c.aside := by
  induction changes generalizing c with
  | nil => rfl
  | cons e changes ih => exact ih (c.setHeaderUpstream e.1 e.2)

theorem stripCredentials_alike (keyName : String) (h : Alike c c') :
    Alike (stripCredentials cfg keyName c) (stripCredentials cfg keyName c') := by
  have hquery : ∀ {c c' : RequestContext}, Alike c c' →
      Alike (if cfg.keyInQuery then
          if stripQueryParam c.path keyName ≠ c.path then
            c.setPath (stripQueryParam c.path keyName)
          else c
        else c)
        (if cfg.keyInQuery then
          if stripQueryParam c'.path keyName ≠ c'.path then
            c'.setPath (stripQueryParam c'.path keyName)
          else c'
        else c') := by
    intro c c' h
    rw [h.path]
    split_ifs
    · exact h.setPath _
    · exact h
    · exact h
  unfold stripCredentials
  split
  · refine hquery ?_
    split
    · exact h.removeHeaderUpstream keyName
    · exact h
  · exact h

/-- The same answer has the same effect on a request. -/
theorem Answer.Same.alike {a a' : Answer} (h : a.Same a') (cfg : Config) (keyName : String)
    (ctx : RequestContext) :
    Alike (a.apply cfg keyName ctx).1 (a'.apply cfg keyName ctx).1
      ∧ (a.apply cfg keyName ctx).2 = (a'.apply cfg keyName ctx).2 := by
  cases a with
  | failed err =>
    cases a' with
    | failed err' =>
      obtain rfl : err = err' := h
      exact ⟨.refl [] _, rfl⟩
    | block status body => exact absurd h id
    | allow changes => exact absurd h id
  | block status body =>
    cases a' with
    | failed err => exact absurd h id
    | allow changes => exact absurd h id
    | block status' body' =>
      obtain ⟨rfl, rfl⟩ := h
      exact ⟨.refl [] _, rfl⟩
  | allow changes =>
    cases a' with
    | failed err => exact absurd h id
    | block status body => exact absurd h id
    | allow changes' =>
      refine ⟨stripCredentials_alike keyName ⟨?_, fun key _ => ?_⟩, rfl⟩
      · rw [aside_setAll, aside_setAll]
      · have hstart : ctx.sent key = ((∅ : AMap String String).lookup key).or (ctx.sent key) :=
          rfl
        rw [sent_setAll hstart, sent_setAll hstart]
        exact congrArg (Option.or · _) (h key)

end Effects

/-- The second request gets the same decision and the same header changes, exactly if the
record is that of a blocked key or its fields survive the cache; and the same answer has
the same effect on every request. -/
theorem l1_answer_same_iff (lib : Library) {cfg : Config} (hdistinct : Distinct cfg)
    (redis : String → Replies) (apiKey : String) :
    (SecondSame lib cfg redis apiKey
        ↔ Survives lib cfg (redis (redisKey lib cfg apiKey)))
      ∧ ∀ (a a' : Answer) (keyName : String) (ctx : RequestContext), a.Same a' →
        Alike (a.apply cfg keyName ctx).1 (a'.apply cfg keyName ctx).1
          ∧ (a.apply cfg keyName ctx).2 = (a'.apply cfg keyName ctx).2 :=
  ⟨⟨survives_of_secondSame hdistinct, secondSame_of_survives hdistinct⟩,
    fun _ _ keyName ctx h => h.alike cfg keyName ctx⟩

/-! ## A field with a line end -/

/-- The plan of a customer becomes a header. -/
def planConfig : Config :=
  { keyNames := ["x-api-key"], keyInHeader := true, redisKeyPrefix := "apikey:",
    hashAlgorithm := "none", valueFormat := "hash",
    outputMappings := [{ targetHeader := "x-plan", redisField := "plan" }] }

def planLibrary : Library := ⟨id, id, fun _ _ => none⟩

/-- Every key has this plan. -/
def planRecord (plan : String) (_ : String) : Replies := ⟨.ok "", fun _ => .ok [plan], .ok 1⟩

/-- Maps are visited in the order of their entries. -/
def listed : Visits := ⟨fun m => ⟨m.toList, .refl _⟩, fun m => ⟨m.toList, .refl _⟩⟩

def planRequest : RequestContext :=
  { headers := (∅ : AMap String String).insert "x-api-key" "k" }

theorem distinct_planConfig : Distinct planConfig := by
  unfold Distinct
  decide

theorem l1_answer_same_iff_plain :
    Distinct planConfig ∧ SecondSame planLibrary planConfig (planRecord "free") "k" := by
  refine ⟨distinct_planConfig, (l1_answer_same_iff planLibrary distinct_planConfig
    (planRecord "free") "k").1.mpr ?_⟩
  intro headerValues hrule name value hlookup
  obtain rfl : (∅ : AMap String String).insert "x-plan" "free" = headerValues :=
    Ruling.allow.inj hrule
  rw [AMap.lookup_insert_ite] at hlookup
  split at hlookup
  · case isTrue hname =>
      rw [hname, ← Option.some.inj hlookup]
      exact ⟨⟨by decide, by decide, by decide⟩, by decide⟩
  · cases hlookup

/-- The first request, from Redis, and the second, from its entry. -/
def firstRun (plan : String) : L1 × RequestContext × Option String :=
  execute planLibrary planConfig (planRecord plan) listed true 0 ∅ planRequest

def secondRun (plan : String) : L1 × RequestContext × Option String :=
  execute planLibrary planConfig (planRecord plan) listed true 1 (firstRun plan).1 planRequest

theorem findKey_planRequest :
    findKey planConfig planRequest planConfig.keyNames = some ("k", "x-api-key") := by
  decide +kernel

/-- The second request gets a header that the first one did not get. -/
theorem line_end_splits_header :
    (firstRun "free\nx-admin=true").2.1.getHeader "x-admin" = ""
      ∧ (secondRun "free\nx-admin=true").2.1.getHeader "x-admin" = "true"
      ∧ ¬ SecondSame planLibrary planConfig (planRecord "free\nx-admin=true") "k" := by
  have hfirst : (firstRun "free\nx-admin=true").2.1.getHeader "x-admin" = "" := by decide +kernel
  have hsecond : (secondRun "free\nx-admin=true").2.1.getHeader "x-admin" = "true" := by
    decide +kernel
  refine ⟨hfirst, hsecond, fun hall => ?_⟩
  have hl1 : (firstRun "free\nx-admin=true").1 = (answer planLibrary planConfig
      (planRecord "free\nx-admin=true") listed true 0 ∅ "k").2 := by
    unfold firstRun
    rw [execute_of_key findKey_planRequest]
  have hsame := hall (planRecord "free\nx-admin=true") listed listed true true 0 1 ∅
    (firstRun "free\nx-admin=true").1 (by omega) rfl (by rw [hl1]) (by decide +kernel)
  have halike := (hsame.alike planConfig "x-api-key" planRequest).1.getHeader "x-admin"
  rw [firstRun, execute_of_key findKey_planRequest] at hfirst
  rw [secondRun, execute_of_key findKey_planRequest] at hsecond
  exact absurd (hfirst.symm.trans (halike.trans hsecond)) (by decide)

end Hypergate.Filters.ApiKey
