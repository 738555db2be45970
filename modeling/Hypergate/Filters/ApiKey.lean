import Hypergate.Engine.Effective
import Hypergate.Lib.Lines

/-!
# The API key filter (`internal/filters/api_key/api_key.go`)

The filter finds a key in the request, hashes it, and looks its record up: in a local
cache (L1), or in Redis. A record answers the request: it is blocked, or fields of the
record become headers. The answer is kept in the cache as a text, a block as its reason
behind a zero byte, the headers as lines.

The hash functions, `gjson` and the replies of Redis are parameters, and so are the
orders in which the loops visit the map of header values.

* `execute_of_key` — a request with a key gets the answer of its record or entry.
* `rule_cases` — what a record can say; header values are those of output headers.
-/

namespace Hypergate.Filters.ApiKey

open Engine Lib

/-! ## Configuration -/

/-- `APIKeyStatusCheck`. -/
structure StatusCheck where
  enabled : Bool := false
  fieldName : String := ""
  expectedValue : String := ""

/-- `APIKeyOutputMapping`. -/
structure OutputMapping where
  targetHeader : String
  redisField : String := ""
  jsonPath : String := ""

/-- `APIKeyFilterConfig`. -/
structure Config where
  keyNames : List String := []
  keyInHeader : Bool := false
  keyInQuery : Bool := false
  hideCredentials : Bool := false
  redisKeyPrefix : String := ""
  hashAlgorithm : String := ""
  valueFormat : String := ""
  delimiter : String := ""
  statusCheck : StatusCheck := {}
  outputMappings : List OutputMapping := []

/-- `ApplyDefaults`, the defaults. -/
def Config.withDefaults (cfg : Config) : Config :=
  let valueFormat := if cfg.valueFormat = "" then "hash" else cfg.valueFormat
  { cfg with
    hashAlgorithm := if cfg.hashAlgorithm = "" then "sha256" else cfg.hashAlgorithm
    redisKeyPrefix := if cfg.redisKeyPrefix = "" then "apikey:" else cfg.redisKeyPrefix
    valueFormat
    delimiter := if cfg.delimiter = "" ∧ valueFormat = "plain" then "|" else cfg.delimiter
    keyNames := if cfg.keyNames = [] then ["x-api-key"] else cfg.keyNames
    keyInHeader := if !cfg.keyInHeader && !cfg.keyInQuery then true else cfg.keyInHeader }

def Config.applyDefaults (cfg : Config) : Except String Config :=
  let cfg := cfg.withDefaults
  if cfg.valueFormat ∉ ["plain", "hash", "json"] then
    .error ("invalid value_format: " ++ cfg.valueFormat)
  else if cfg.statusCheck.enabled && cfg.valueFormat = "plain" then
    .error "status_check requires value_format hash or json"
  else if cfg.statusCheck.enabled && cfg.statusCheck.fieldName = "" then
    .error "status_check.field_name is required when status_check is enabled"
  else if cfg.hashAlgorithm ∉ ["sha256", "md5", "none"] then
    .error ("invalid hash_algorithm: " ++ cfg.hashAlgorithm)
  else .ok cfg

/-! ## The key of a request -/

/-- The parts of a query; nothing is read behind a last separator. -/
def queryParts (query : String) : List String :=
  if (split '&' query).getLast? = some "" then (split '&' query).dropLast else split '&' query

/-- The value of the first parameter of a name. -/
def firstParam (name : String) : List String → String
  | [] => ""
  | part :: rest =>
    match cut '=' part with
    | some (key, value) => if key = name then value else firstParam name rest
    | none => if part = name then "" else firstParam name rest

def extractQueryParam (path name : String) : String :=
  match cut '?' path with
  | none => ""
  | some (_, query) => firstParam name (queryParts query)

/-- The part of a parameter before the equals sign. -/
def paramKey (part : String) : String :=
  match cut '=' part with
  | some (key, _) => key
  | none => part

def stripQueryParam (path name : String) : String :=
  match cut '?' path with
  | none => path
  | some (base, query) =>
    let kept := (queryParts query).filter fun part => paramKey part ≠ name
    if kept = [] then base else base ++ "?" ++ String.intercalate "&" kept

def stripCredentials (cfg : Config) (keyName : String) (ctx : RequestContext) : RequestContext :=
  if cfg.hideCredentials && keyName ≠ "" then
    let ctx := if cfg.keyInHeader then ctx.removeHeaderUpstream keyName else ctx
    if cfg.keyInQuery then
      let stripped := stripQueryParam ctx.path keyName
      if stripped ≠ ctx.path then ctx.setPath stripped else ctx
    else ctx
  else ctx

/-- Step A: the first key, with the name it was found under. -/
def findKey (cfg : Config) (ctx : RequestContext) : List String → Option (String × String)
  | [] => none
  | name :: rest =>
    if cfg.keyInHeader && ctx.getHeader (toLower name) ≠ "" then
      some (ctx.getHeader (toLower name), name)
    else if cfg.keyInQuery && extractQueryParam ctx.path name ≠ "" then
      some (extractQueryParam ctx.path name, name)
    else findKey cfg ctx rest

/-! ## Records -/

/-- What the filter calls: hexadecimal digests, and `gjson.Get`. -/
structure Library where
  sha256 : String → String
  md5 : String → String
  gjson : String → String → Option String

/-- Step B. -/
def hashedKey (lib : Library) (cfg : Config) (apiKey : String) : String :=
  if cfg.hashAlgorithm = "sha256" then lib.sha256 apiKey
  else if cfg.hashAlgorithm = "md5" then lib.md5 apiKey
  else if cfg.hashAlgorithm = "none" ∨ cfg.hashAlgorithm = "" then apiKey
  else ""

def redisKey (lib : Library) (cfg : Config) (apiKey : String) : String :=
  cfg.redisKeyPrefix ++ hashedKey lib cfg apiKey

/-- What Redis replies about one key: to `GET`, to `HMGET` with some fields, and to
`EXISTS`. -/
structure Replies where
  get : Except String String
  hmget : List String → Except String (List String)
  «exists» : Except String Int

/-- What Step D finds. -/
inductive Found where
  | failed (err : String)
  | unknown
  | values (headerValues : AMap String String) (statusVal : String)

/-- `strings.Split` at a separator of some length; `skip` characters of it are still to
come. -/
def splitText (sep : List Char) : Nat → List Char → List Char → List String
  | _, acc, [] => [String.ofList acc.reverse]
  | skip + 1, acc, _ :: rest => splitText sep skip acc rest
  | 0, acc, c :: rest =>
    if sep.isPrefixOf (c :: rest) then
      String.ofList acc.reverse :: splitText sep (sep.length - 1) [] rest
    else splitText sep 0 (c :: acc) rest

/-- The mappings take the parts in their order. -/
def mapParts (cfg : Config) (parts : List String) : AMap String String :=
  AMap.insertAll ∅ ((cfg.outputMappings.zip parts).map fun e => (e.1.targetHeader, e.2))

/-- A record of delimited values. -/
def findPlain (cfg : Config) (r : Replies) : Found :=
  match r.get with
  | .error err => .failed err
  | .ok reply =>
    if reply = "" then .unknown
    else
      let delimiter := if cfg.delimiter = "" then "|" else cfg.delimiter
      .values (mapParts cfg (splitText delimiter.toList 0 [] reply.toList)) ""

/-- The fields that are read of a hash; that of the status is the last one. -/
def hashFields (cfg : Config) : List String :=
  let fields := cfg.outputMappings.map OutputMapping.redisField
  if cfg.statusCheck.enabled then fields ++ [cfg.statusCheck.fieldName] else fields

/-- The value of the status field, or the empty text. -/
def hashStatus (cfg : Config) (reply : List String) : String :=
  if cfg.statusCheck.enabled then reply.getD cfg.outputMappings.length "" else ""

/-- A record that is a hash. -/
def findHash (cfg : Config) (r : Replies) : Found :=
  if hashFields cfg = [] then
    -- nothing to read: the key only has to exist
    match r.exists with
    | .error err => .failed err
    | .ok n => if n = 0 then .unknown else .values ∅ ""
  else match r.hmget (hashFields cfg) with
    | .error err => .failed err
    | .ok reply =>
      if reply.all (· = "") then .unknown
      else .values (mapParts cfg reply) (hashStatus cfg reply)

/-- A record that is a JSON text. -/
def findJson (lib : Library) (cfg : Config) (r : Replies) : Found :=
  match r.get with
  | .error err => .failed err
  | .ok reply =>
    if reply = "" then .unknown
    else .values
      (AMap.insertAll ∅ (cfg.outputMappings.filterMap fun mapping =>
        (lib.gjson reply mapping.jsonPath).map fun res => (mapping.targetHeader, res)))
      (if cfg.statusCheck.enabled then (lib.gjson reply cfg.statusCheck.fieldName).getD ""
        else "")

/-- Step D. -/
def find (lib : Library) (cfg : Config) (r : Replies) : Found :=
  if cfg.valueFormat = "plain" then findPlain cfg r
  else if cfg.valueFormat = "hash" then findHash cfg r
  else if cfg.valueFormat = "json" then findJson lib cfg r
  else .values ∅ ""

/-- What a record says about a request, after Step E. -/
inductive Ruling where
  | failed (err : String)
  | block (status : Int) (body : String)
  | allow (headerValues : AMap String String)

def rule (lib : Library) (cfg : Config) (r : Replies) : Ruling :=
  match find lib cfg r with
  | .failed err => .failed err
  | .unknown => .block 401 "Unauthorized: Invalid API Key"
  | .values headerValues statusVal =>
    if cfg.statusCheck.enabled && statusVal ≠ cfg.statusCheck.expectedValue then
      .block 403 ("Forbidden: Account is " ++ statusVal)
    else .allow headerValues

/-! ## Answers -/

/-- What a request gets: a block, or headers that are set one after the other. -/
inductive Answer where
  | failed (err : String)
  | block (status : Int) (body : String)
  | allow (changes : List (String × String))

/-- The answer takes effect, and an error is returned. -/
def Answer.apply (cfg : Config) (keyName : String) (ctx : RequestContext) :
    Answer → RequestContext × Option String
  | .failed err =>
    ({ ctx with blocked := true, responseStatus := 500 },
      some ("redis connection error: " ++ err))
  | .block status body => (ctx.block status body, none)
  | .allow changes =>
    (stripCredentials cfg keyName
      (changes.foldl (fun ctx e => ctx.setHeaderUpstream e.1 e.2) ctx), none)

/-- An entry of the cache, until when. -/
structure Entry where
  value : String
  ends : Int

/-- `localCache`. -/
abbrev L1 := AMap String Entry

/-- `localCache.Get`. -/
def L1.get (l1 : L1) (now : Int) (key : String) : Option String :=
  match l1.lookup key with
  | some entry => if now < entry.ends then some entry.value else none
  | none => none

/-- The orders of the two loops over the header values. -/
structure Visits where
  setting : (m : AMap String String) → AMap.Order m
  caching : (m : AMap String String) → AMap.Order m

/-- What is cached of a ruling, and for how many seconds. -/
def Ruling.cached (v : Visits) : Ruling → Option (String × Int)
  | .failed _ => none
  | .block _ body => some ("\x00" ++ body, 10)
  | .allow headerValues => some (linesText '=' '\n' (v.caching headerValues).items, 30)

def Ruling.answer (v : Visits) : Ruling → Answer
  | .failed err => .failed err
  | .block status body => .block status body
  | .allow headerValues => .allow (v.setting headerValues).items

/-- The answer of an entry. -/
def cachedAnswer (value : String) : Answer :=
  match value.toList with
  | '\x00' :: reason =>
    .block (if "Forbidden".toList <:+: reason then 403 else 401) (String.ofList reason)
  | _ => .allow (readLines '=' '\n' value)

/-- Steps C to E, with the cache afterwards; `taken` says that the cache takes the
entry. -/
def answer (lib : Library) (cfg : Config) (redis : String → Replies) (v : Visits) (taken : Bool)
    (now : Int) (l1 : L1) (apiKey : String) : Answer × L1 :=
  let key := redisKey lib cfg apiKey
  match l1.get now key with
  | some value => (cachedAnswer value, l1)
  | none =>
    let ruling := rule lib cfg (redis key)
    let l1 := match ruling.cached v, taken with
      | some (value, ttl), true => l1.insert key ⟨value, now + ttl⟩
      | _, _ => l1
    (ruling.answer v, l1)

def execute (lib : Library) (cfg : Config) (redis : String → Replies) (v : Visits) (taken : Bool)
    (now : Int) (l1 : L1) (ctx : RequestContext) : L1 × RequestContext × Option String :=
  match findKey cfg ctx cfg.keyNames with
  | none => (l1, ctx.block 401 "Unauthorized: Missing API Key", none)
  | some (apiKey, keyName) =>
    let r := answer lib cfg redis v taken now l1 apiKey
    (r.2, r.1.apply cfg keyName ctx)

theorem execute_of_key {lib : Library} {cfg : Config} {redis : String → Replies} {v : Visits}
    {taken : Bool} {now : Int} {l1 : L1} {ctx : RequestContext} {apiKey keyName : String}
    (h : findKey cfg ctx cfg.keyNames = some (apiKey, keyName)) :
    execute lib cfg redis v taken now l1 ctx
      = ((answer lib cfg redis v taken now l1 apiKey).2,
        (answer lib cfg redis v taken now l1 apiKey).1.apply cfg keyName ctx) := by
  unfold execute
  rw [h]

/-! ## The header values of a record -/

/-- Header values are those of output headers. -/
def Found.Named (cfg : Config) : Found → Prop
  | .values headerValues _ => ∀ name value, headerValues.lookup name = some value →
      name ∈ cfg.outputMappings.map OutputMapping.targetHeader
  | _ => True

section Values

variable (lib : Library) (cfg : Config) (r : Replies)

theorem mem_of_mapParts {parts : List String} {name value : String}
    (h : (mapParts cfg parts).lookup name = some value) :
    name ∈ cfg.outputMappings.map OutputMapping.targetHeader := by
  rcases AMap.mem_of_lookup_insertAll h with hmem | hempty
  · obtain ⟨⟨mapping, part⟩, he, heq⟩ := List.mem_map.mp hmem
    obtain ⟨rfl, rfl⟩ := Prod.mk.inj heq
    exact List.mem_map_of_mem (List.of_mem_zip he).1
  · cases hempty

theorem findPlain_named : (findPlain cfg r).Named cfg := by
  unfold findPlain
  cases r.get with
  | error err => trivial
  | ok reply =>
    dsimp only
    split
    · trivial
    · exact fun _ _ => mem_of_mapParts cfg

theorem findHash_named : (findHash cfg r).Named cfg := by
  unfold findHash
  split
  · cases r.exists with
    | error err => trivial
    | ok n =>
      dsimp only
      split
      · trivial
      · exact fun _ _ h => absurd h (by simp)
  · cases r.hmget (hashFields cfg) with
    | error err => trivial
    | ok reply =>
      dsimp only
      split
      · trivial
      · exact fun _ _ => mem_of_mapParts cfg

theorem findJson_named : (findJson lib cfg r).Named cfg := by
  unfold findJson
  cases r.get with
  | error err => trivial
  | ok reply =>
    dsimp only
    split
    · trivial
    · intro name value h
      rcases AMap.mem_of_lookup_insertAll h with hmem | hempty
      · obtain ⟨mapping, hmapping, hres⟩ := List.mem_filterMap.mp hmem
        obtain ⟨res, -, heq⟩ := Option.map_eq_some_iff.mp hres
        rw [← (Prod.mk.inj heq).1]
        exact List.mem_map_of_mem hmapping
      · cases hempty

theorem find_named : (find lib cfg r).Named cfg := by
  unfold find
  split_ifs
  · exact findPlain_named cfg r
  · exact findHash_named cfg r
  · exact findJson_named lib cfg r
  · exact fun _ _ h => absurd h (by simp)

theorem rule_cases :
    (∃ err, rule lib cfg r = .failed err)
      ∨ rule lib cfg r = .block 401 "Unauthorized: Invalid API Key"
      ∨ (∃ statusVal, rule lib cfg r = .block 403 ("Forbidden: Account is " ++ statusVal))
      ∨ ∃ headerValues, rule lib cfg r = .allow headerValues ∧
        ∀ name value, headerValues.lookup name = some value →
          name ∈ cfg.outputMappings.map OutputMapping.targetHeader := by
  have hnamed := find_named lib cfg r
  unfold rule
  cases hfind : find lib cfg r with
  | failed err => exact .inl ⟨err, rfl⟩
  | unknown => exact .inr (.inl rfl)
  | values headerValues statusVal =>
    rw [hfind] at hnamed
    dsimp only
    split
    · exact .inr (.inr (.inl ⟨statusVal, rfl⟩))
    · exact .inr (.inr (.inr ⟨headerValues, rfl, hnamed⟩))

end Values

end Hypergate.Filters.ApiKey
