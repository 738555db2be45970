import Hypergate.Policy.Manager

/-!
# What a filter key determines

`filterKey` joins the filter type, the YAML text of the options and possibly the
address of a Redis entry, with NUL bytes between them, into one string. Nothing
is escaped, and a type is an arbitrary text. Still the three parts can be read
back, from the right: the text holds no NUL and ends in a newline, an address
holds neither (`filterKey_inj`).
-/

namespace Hypergate.Policy

open Lib

/-- The three parts of a key joined. -/
def keyText (type text : String) : Option Nat → String
  | none => type ++ "\x00" ++ text
  | some ptr => type ++ "\x00" ++ text ++ "\x00" ++ fmtPointer ptr

/-- The address a key names: that of the entry of a service named by a string. -/
def keyPtr (fc : FilterConfig) (redis : AMap String RedisEntry) : Option Nat :=
  (serviceString fc.options).bind fun svc => (redis.lookup svc).map (·.ptr)

theorem filterKey_eq_ok {codec : YamlCodec} {fc : FilterConfig} {redis : AMap String RedisEntry}
    {key : String} :
    filterKey codec fc redis = .ok key ↔
      ∃ text, codec.marshal fc.options = .ok text
        ∧ keyText fc.type text (keyPtr fc redis) = key := by
  unfold filterKey keyPtr
  cases codec.marshal fc.options with
  | error e => simp
  | ok text =>
    cases serviceString fc.options with
    | none => simp [keyText]
    | some svc =>
      cases hsvc : redis.lookup svc with
      | none => simp [keyText, hsvc]
      | some e => simp [keyText, hsvc]

/-- Only the address of the named service's entry matters to a key. -/
theorem filterKey_congr {codec : YamlCodec} {fc : FilterConfig}
    {redis redis' : AMap String RedisEntry} {key : String}
    (h : keyPtr fc redis = keyPtr fc redis') :
    filterKey codec fc redis = .ok key ↔ filterKey codec fc redis' = .ok key := by
  rw [filterKey_eq_ok, filterKey_eq_ok, h]

theorem notMem_pointer (ptr : Nat) :
    '\x00' ∉ (fmtPointer ptr).toList ∧ '\n' ∉ (fmtPointer ptr).toList :=
  ⟨notMem_fmtPointer (by decide) (by decide) ptr, notMem_fmtPointer (by decide) (by decide) ptr⟩

/-- A text that ends in a newline is not an address. -/
theorem text_ne_pointer {text : String} (hend : text.toList.getLast? = some '\n') (ptr : Nat) :
    text.toList ≠ (fmtPointer ptr).toList := by
  intro h
  rw [h] at hend
  exact (notMem_pointer ptr).2 (List.mem_of_getLast? hend)

theorem toList_keyText (type text : String) (ptr : Option Nat) :
    (keyText type text ptr).toList = match ptr with
      | none => type.toList ++ '\x00' :: text.toList
      | some ptr =>
        (type.toList ++ '\x00' :: text.toList) ++ '\x00' :: (fmtPointer ptr).toList := by
  have hnul : ("\x00" : String).toList = ['\x00'] := rfl
  cases ptr with
  | none => simp [keyText, hnul, String.toList_append]
  | some ptr => simp [keyText, hnul, String.toList_append]

theorem keyText_inj {type type' text text' : String} {ptr ptr' : Option Nat}
    (hnul : '\x00' ∉ text.toList) (hnul' : '\x00' ∉ text'.toList)
    (hend : text.toList.getLast? = some '\n') (hend' : text'.toList.getLast? = some '\n')
    (h : keyText type text ptr = keyText type' text' ptr') :
    type = type' ∧ text = text' ∧ ptr = ptr' := by
  -- the type and the text, once the address is split off
  have hfront : type.toList ++ '\x00' :: text.toList = type'.toList ++ '\x00' :: text'.toList →
      type = type' ∧ text = text' := fun hl => by
    obtain ⟨ht, hx⟩ := append_sep_inj hnul hnul' hl
    exact ⟨String.toList_inj.mp ht, String.toList_inj.mp hx⟩
  have hl := congrArg String.toList h
  rw [toList_keyText, toList_keyText] at hl
  cases ptr with
  | none =>
    cases ptr' with
    | none =>
      obtain ⟨ht, hx⟩ := hfront hl
      exact ⟨ht, hx, rfl⟩
    | some p' =>
      obtain ⟨_, hx⟩ := append_sep_inj hnul (notMem_pointer p').1 hl
      exact absurd hx (text_ne_pointer hend p')
  | some p =>
    cases ptr' with
    | none =>
      obtain ⟨_, hx⟩ := append_sep_inj (notMem_pointer p).1 hnul' hl
      exact absurd hx.symm (text_ne_pointer hend' p)
    | some p' =>
      obtain ⟨hl, hp⟩ := append_sep_inj (notMem_pointer p).1 (notMem_pointer p').1 hl
      obtain ⟨ht, hx⟩ := hfront hl
      exact ⟨ht, hx, congrArg some (fmtPointer_inj hp)⟩

/-- Two definitions with one key agree in their type, their `redis_service`
and the address of the entry it names, also across different Redis maps. -/
theorem filterKey_inj {codec : YamlCodec} {fc fc' : FilterConfig}
    {redis redis' : AMap String RedisEntry} {key : String}
    (h : filterKey codec fc redis = .ok key) (h' : filterKey codec fc' redis' = .ok key) :
    fc.type = fc'.type ∧
    fc.options.lookup "redis_service" = fc'.options.lookup "redis_service" ∧
    keyPtr fc redis = keyPtr fc' redis' := by
  obtain ⟨text, hm, hkey⟩ := filterKey_eq_ok.mp h
  obtain ⟨text', hm', hkey'⟩ := filterKey_eq_ok.mp h'
  obtain ⟨ht, rfl, hp⟩ := keyText_inj (codec.no_nul hm) (codec.no_nul hm')
    (codec.ends_newline hm) (codec.ends_newline hm') (hkey.trans hkey'.symm)
  exact ⟨ht, (codec.service_marshal hm).symm.trans (codec.service_marshal hm'), hp⟩

end Hypergate.Policy
