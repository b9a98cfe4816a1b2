import Mathlib.Data.List.Nodup
import OpenPS2Loader.Lib.CString

/-!
# Config sets

A config set is an ordered list of keys with their values, both in arrays of a fixed size. Here its
nodes are a list; `Config.SetHeap` has the same operations over linked nodes.

A key is cut to 31 characters when it is stored, and looked up by a comparison of 32 bytes: a longer
name never finds the node it was stored in.

## Main definitions

* `ConfigValue`, `ConfigSet` — a node, and a set
* `configSetStr`, `configSetInt`, `configGetStr`, `configRemoveKey`, `configMerge`, `configClear`
* `KeysDistinct` — no two nodes have the same key

## Main results

* `keysDistinct_configSetStr`, `keysDistinct_configRemoveKey` — names of at most 31 characters keep
  the keys distinct
* `configGetStr_configSetStr_self`, `configGetStr_configSetStr_ne` — what is read after a store
-/

namespace OpenPS2Loader

namespace Config

/-- `CFG_FMT_LEGACY` and `CFG_FMT_LIBCONFIG`. -/
inductive Format where
  | legacy
  | libconfig
  deriving DecidableEq

/-- A node of a config set: `char key[32]` and `char val[256]`. -/
@[ext]
structure ConfigValue where
  key : CharBuf 31
  val : CharBuf 255
  deriving DecidableEq

/-- A config set. -/
structure ConfigSet where
  /-- The nodes, from `head` on. -/
  items : List ConfigValue
  modified : Bool
  format : Format
  deriving DecidableEq

/-- `configAlloc`: an empty set in our own format. -/
def configAlloc : ConfigSet where
  items := []
  modified := false
  format := .legacy

/-- `configKeyValidate`. -/
def configKeyValidate (key : Text) : Bool := cstr key ≠ [] && '=' ∉ cstr key

/-- `allocConfigItem`. -/
def allocConfigItem (key val : Text) : ConfigValue where
  key := .strncpy key
  val := .strncpy val

/-- A node answers to a name when `strncmp` over the size of its key says so. -/
def ConfigValue.named (name : Text) (it : ConfigValue) : Bool := strncmpEq 32 it.key.text name

/-- `getConfigItemForName`. -/
def getConfigItemForName (s : ConfigSet) (name : Text) : Option ConfigValue :=
  s.items.find? (ConfigValue.named name)

/-- The value of the first node that answers to `name` is overwritten. -/
def overwrite (name value : Text) : List ConfigValue → List ConfigValue
  | [] => []
  | it :: items =>
    if it.named name then { it with val := .strncpy value } :: items
    else it :: overwrite name value items

/-- A change of a key with this text is not one that has to be saved. -/
def isRuntimeKey (key : Text) : Bool := key.head? = some '#'

/-- `configSetStr`. It returns 1 when the key is valid. -/
def configSetStr (s : ConfigSet) (key value : Text) : ConfigSet :=
  if configKeyValidate key then
    match getConfigItemForName s key with
    | some it =>
      if strncmpEq 256 it.val.text value then s
      else { s with
        items := overwrite key value s.items
        modified := s.modified || !isRuntimeKey it.key.text }
    | none => { s with
        items := s.items ++ [allocConfigItem key value]
        modified := s.modified || !isRuntimeKey key }
  else s

/-- `configGetStr`. -/
def configGetStr (s : ConfigSet) (key : Text) : Option Text :=
  if configKeyValidate key then (getConfigItemForName s key).map (·.val.text) else none

/-- The text `snprintf` makes of an `int` with `%d`. It has at most 11 characters. -/
def printInt (n : Int32) : Text := (toString n.toInt).toList

/-- `configSetInt`. -/
def configSetInt (s : ConfigSet) (key : Text) (value : Int32) : ConfigSet :=
  configSetStr s key (printInt value)

/-- `configRemoveKey`: every node that answers to the name is removed. -/
def configRemoveKey (s : ConfigSet) (key : Text) : ConfigSet :=
  if configKeyValidate key then
    { s with
      items := s.items.filter fun it => !it.named key
      modified := s.modified || (s.items.any (ConfigValue.named key) && !isRuntimeKey key) }
  else s

/-- `configMerge` with a source whose nodes are `source`. -/
def configMerge (s : ConfigSet) (source : List ConfigValue) : ConfigSet :=
  source.foldl (fun s it => configSetStr s it.key.text it.val.text) s

/-- `configClear`. The format stays. -/
def configClear (s : ConfigSet) : ConfigSet := { s with items := [], modified := true }

/-! ### Looking up a name -/

@[simp] theorem named_iff {name : Text} {it : ConfigValue} :
    it.named name = true ↔ it.key.text = cstr name := by
  rw [ConfigValue.named, decide_eq_true_eq, strncmpEq_charBuf]

theorem getConfigItemForName_eq_none {s : ConfigSet} {name : Text} :
    getConfigItemForName s name = none ↔ ∀ it ∈ s.items, it.key.text ≠ cstr name := by
  rw [getConfigItemForName, List.find?_eq_none]
  simp only [named_iff, ne_eq]

theorem keys_overwrite (name value : Text) (items : List ConfigValue) :
    (overwrite name value items).map (·.key) = items.map (·.key) := by
  induction items with
  | nil => rfl
  | cons it items ih =>
    rw [overwrite]
    split_ifs
    · rfl
    · rw [List.map_cons, List.map_cons, ih]

/-- Storing a value that is there already changes nothing. -/
theorem overwrite_of_strncmpEq {s : ConfigSet} {key value : Text} {it : ConfigValue}
    (hit : getConfigItemForName s key = some it) (h : strncmpEq 256 it.val.text value) :
    overwrite key value s.items = s.items := by
  rw [getConfigItemForName] at hit
  generalize s.items = items at hit
  induction items with
  | nil => rfl
  | cons x items ih =>
    rw [List.find?_cons] at hit
    rw [overwrite]
    split_ifs with hx
    · rw [hx] at hit
      cases hit
      have hval : CharBuf.strncpy value = it.val := by
        ext1
        rw [CharBuf.strncpy_text, ← strncmpEq_charBuf.mp h,
          List.take_of_length_le it.val.length_le]
      rw [hval]
    · rw [Bool.eq_false_iff.mpr hx] at hit
      rw [ih hit]

/-- The nodes after a store: the value is overwritten where the name is found, else a node is
added at the end. -/
theorem configSetStr_items (s : ConfigSet) {key : Text} (hkey : configKeyValidate key = true)
    (value : Text) :
    (configSetStr s key value).items =
      if (getConfigItemForName s key).isSome then overwrite key value s.items
      else s.items ++ [allocConfigItem key value] := by
  rw [configSetStr, if_pos hkey]
  rcases hit : getConfigItemForName s key with _ | it
  · rw [Option.isSome_none, if_neg Bool.false_ne_true]
  · rw [Option.isSome_some, if_pos rfl]
    dsimp only
    split_ifs with heq
    · rw [overwrite_of_strncmpEq hit heq]
    · rfl

/-! ### Distinct keys -/

/-- No two nodes have the same stored key. -/
def KeysDistinct (s : ConfigSet) : Prop := (s.items.map (·.key)).Nodup

/-- A name that is stored as it is. -/
def ShortName (name : Text) : Prop := (cstr name).length ≤ 31

instance (name : Text) : Decidable (ShortName name) := inferInstanceAs (Decidable (_ ≤ _))

theorem shortName_key (b : CharBuf 31) : ShortName b.text := by
  rw [ShortName, CharBuf.cstr_text]
  exact b.length_le

theorem strncpy_text_of_shortName {name : Text} (h : ShortName name) :
    (CharBuf.strncpy name : CharBuf 31).text = cstr name :=
  List.take_of_length_le h

theorem keysDistinct_configAlloc : KeysDistinct configAlloc := List.nodup_nil

theorem keysDistinct_configSetStr {s : ConfigSet} (hs : KeysDistinct s) {key : Text}
    (hkey : ShortName key) (value : Text) : KeysDistinct (configSetStr s key value) := by
  by_cases hvalid : configKeyValidate key = true
  · rw [KeysDistinct, configSetStr_items s hvalid]
    rcases hit : getConfigItemForName s key with _ | it
    · rw [Option.isSome_none, if_neg Bool.false_ne_true, List.map_append, List.map_singleton,
        ← List.concat_eq_append, List.nodup_concat]
      refine ⟨fun hmem => ?_, hs⟩
      obtain ⟨x, hx, hxkey⟩ := List.mem_map.mp hmem
      refine getConfigItemForName_eq_none.mp hit x hx ?_
      rw [hxkey]
      exact strncpy_text_of_shortName hkey
    · rw [Option.isSome_some, if_pos rfl, keys_overwrite]
      exact hs
  · rwa [configSetStr, if_neg hvalid]

theorem keysDistinct_configRemoveKey {s : ConfigSet} (hs : KeysDistinct s) (key : Text) :
    KeysDistinct (configRemoveKey s key) := by
  rw [configRemoveKey]
  split_ifs
  · exact List.Nodup.sublist (List.Sublist.map _ List.filter_sublist) hs
  · exact hs

theorem keysDistinct_configMerge {s : ConfigSet} (hs : KeysDistinct s)
    (source : List ConfigValue) : KeysDistinct (configMerge s source) := by
  induction source generalizing s with
  | nil => exact hs
  | cons it source ih => exact ih (keysDistinct_configSetStr hs (shortName_key it.key) _)

/-! ### Storing new keys -/

theorem configSetStr_format (s : ConfigSet) (key value : Text) :
    (configSetStr s key value).format = s.format := by
  rw [configSetStr]
  split_ifs
  · split
    · split_ifs <;> rfl
    · rfl
  · rfl

theorem configMerge_format (s : ConfigSet) (source : List ConfigValue) :
    (configMerge s source).format = s.format := by
  induction source generalizing s with
  | nil => rfl
  | cons it source ih => exact (ih _).trans (configSetStr_format s _ _)

theorem allocConfigItem_self (it : ConfigValue) :
    allocConfigItem it.key.text it.val.text = it := by
  rw [allocConfigItem, CharBuf.strncpy_self, CharBuf.strncpy_self]

/-- The keys after a store are those before it, and the one that was stored. -/
theorem mem_configSetStr {s : ConfigSet} {key value : Text} {x : ConfigValue}
    (hx : x ∈ (configSetStr s key value).items) :
    (∃ it ∈ s.items, it.key = x.key) ∨ x.key = .strncpy key := by
  by_cases hvalid : configKeyValidate key = true
  · rw [configSetStr_items s hvalid] at hx
    split_ifs at hx
    · have hmem := List.mem_map_of_mem (f := ConfigValue.key) hx
      rw [keys_overwrite] at hmem
      obtain ⟨it, hit, hkey⟩ := List.mem_map.mp hmem
      exact .inl ⟨it, hit, hkey⟩
    · rcases List.mem_append.mp hx with hx | hx
      · exact .inl ⟨x, hx, rfl⟩
      · obtain rfl := List.mem_singleton.mp hx
        exact .inr rfl
  · rw [configSetStr, if_neg hvalid] at hx
    exact .inl ⟨x, hx, rfl⟩

/-- The keys of a merged set come from the two sets. -/
theorem mem_configMerge {s : ConfigSet} {source : List ConfigValue} {x : ConfigValue}
    (hx : x ∈ (configMerge s source).items) :
    (∃ it ∈ s.items, it.key = x.key) ∨ ∃ it ∈ source, it.key = x.key := by
  induction source generalizing s with
  | nil => exact .inl ⟨x, hx, rfl⟩
  | cons it source ih =>
    rcases ih hx with ⟨y, hy, hkey⟩ | ⟨y, hy, hkey⟩
    · rcases mem_configSetStr hy with ⟨z, hz, hzkey⟩ | hykey
      · exact .inl ⟨z, hz, hzkey.trans hkey⟩
      · rw [CharBuf.strncpy_self] at hykey
        exact .inr ⟨it, List.mem_cons_self, hykey.symm.trans hkey⟩
    · exact .inr ⟨y, List.mem_cons_of_mem it hy, hkey⟩

/-- Keys that are new, and distinct, are added at the end. -/
theorem configMerge_items {s : ConfigSet} {source : List ConfigValue}
    (hvalid : ∀ it ∈ source, configKeyValidate it.key.text = true)
    (hnew : ((s.items ++ source).map (·.key)).Nodup) :
    (configMerge s source).items = s.items ++ source := by
  induction source generalizing s with
  | nil => exact (List.append_nil _).symm
  | cons it source ih =>
    have hnone : getConfigItemForName s it.key.text = none := by
      rw [getConfigItemForName_eq_none]
      intro x hx heq
      rw [List.map_append, List.nodup_append] at hnew
      refine hnew.2.2 x.key (List.mem_map_of_mem hx) it.key (by simp) ?_
      ext1
      rw [heq, CharBuf.cstr_text]
    have hitems : (configSetStr s it.key.text it.val.text).items = s.items ++ [it] := by
      rw [configSetStr_items s (hvalid it List.mem_cons_self), hnone, allocConfigItem_self]
      rfl
    rw [configMerge, List.foldl_cons, ← configMerge, ih, hitems, List.append_assoc,
      List.singleton_append]
    · exact fun x hx => hvalid x (List.mem_cons_of_mem it hx)
    · rwa [hitems, List.append_assoc, List.singleton_append]

/-! ### Reading after a store -/

theorem find?_overwrite_self {name value : Text} {items : List ConfigValue} {it : ConfigValue}
    (h : items.find? (ConfigValue.named name) = some it) :
    (overwrite name value items).find? (ConfigValue.named name) =
      some { it with val := .strncpy value } := by
  induction items with
  | nil => cases h
  | cons x items ih =>
    rw [List.find?_cons] at h
    rw [overwrite]
    by_cases hx : x.named name = true
    · rw [hx] at h
      cases h
      rw [if_pos hx, List.find?_cons_of_pos]
      exact hx
    · rw [Bool.eq_false_iff.mpr hx] at h
      rw [if_neg hx, List.find?_cons_of_neg hx, ih h]

theorem find?_overwrite_ne {name other value : Text} (hne : cstr other ≠ cstr name)
    (items : List ConfigValue) :
    (overwrite name value items).find? (ConfigValue.named other) =
      items.find? (ConfigValue.named other) := by
  induction items with
  | nil => rfl
  | cons x items ih =>
    rw [overwrite]
    split_ifs with hx
    · -- the node that changes does not answer to the other name
      have hother : ∀ y : ConfigValue, y.key = x.key → ¬ y.named other = true := by
        intro y hy hn
        rw [named_iff, hy, named_iff.mp hx] at hn
        exact hne hn.symm
      rw [List.find?_cons_of_neg (hother x rfl),
        List.find?_cons_of_neg (hother ⟨x.key, .strncpy value⟩ rfl)]
    · rw [List.find?_cons, List.find?_cons, ih]

/-- A value that was stored under a name of at most 31 characters is read back, cut to 255. -/
theorem configGetStr_configSetStr_self (s : ConfigSet) {key : Text}
    (hvalid : configKeyValidate key = true) (hkey : ShortName key) (value : Text) :
    configGetStr (configSetStr s key value) key = some ((cstr value).take 255) := by
  rw [configGetStr, if_pos hvalid, getConfigItemForName, configSetStr_items s hvalid]
  rcases hit : getConfigItemForName s key with _ | it
  · rw [Option.isSome_none, if_neg Bool.false_ne_true, List.find?_append]
    rw [getConfigItemForName] at hit
    rw [hit, Option.none_or, List.find?_cons_of_pos]
    · rfl
    · exact named_iff.mpr (strncpy_text_of_shortName hkey)
  · rw [Option.isSome_some, if_pos rfl, find?_overwrite_self hit]
    rfl

/-- What is read under a name that is stored differently does not change. -/
theorem configGetStr_configSetStr_ne (s : ConfigSet) {key other : Text} (value : Text)
    (hne : (cstr other).take 31 ≠ (cstr key).take 31) :
    configGetStr (configSetStr s key value) other = configGetStr s other := by
  by_cases hvalid : configKeyValidate key = true
  · rw [configGetStr, configGetStr, getConfigItemForName, getConfigItemForName,
      configSetStr_items s hvalid]
    rcases hit : getConfigItemForName s key with _ | it
    · have hnew : ¬ (allocConfigItem key value).named other = true := by
        intro h
        rw [named_iff] at h
        change (cstr key).take 31 = cstr other at h
        exact hne (by rw [← h, List.take_take, Nat.min_self])
      rw [Option.isSome_none, if_neg Bool.false_ne_true, List.find?_append,
        List.find?_cons_of_neg hnew, List.find?_nil, Option.or_none]
    · rw [Option.isSome_some, if_pos rfl, find?_overwrite_ne]
      exact fun h => hne (by rw [h])
  · rw [configSetStr, if_neg hvalid]

end Config

end OpenPS2Loader
