import OpenPS2Loader.Config.Set
import OpenPS2Loader.Util.FileBuffer

/-!
# The two syntaxes of a config file

A config file is written in one of two syntaxes: our own, one `key=value` a line, where a line
`name:` sets a prefix for the indented lines below it; and libconfig, `key = value;` with groups in
braces, whose per-game keys have other names than ours. A reader takes the syntax from the first
line that tells, and a set is written back in the syntax it was read in.

## Main definitions

* `cfgClassifyLine` — what a line says about the syntax of its file
* `splitAssignment`, `parsePrefix` — the lines of our own syntax
* `cfgReadLibconfigLine` — the lines of libconfig
* `configReadFileBuffer` — reading a file into a set
* `cfgWriteLibconfig`, `writeLegacy`, `serialise` — what `configWrite` hands to the file buffer
-/

namespace OpenPS2Loader

namespace Config

/-- `isWS`. -/
def isWS (c : Char) : Bool := c = ' ' || c = '\t'

/-- A line without the blanks at its beginning. -/
def skipWS (s : Text) : Text := s.dropWhile isWS

/-- A text without the blanks at its end. -/
def trimEnd (s : Text) : Text := s.rdropWhile isWS

/-! ### Which syntax a line is in -/

/-- `CFG_LINE_BLANK`, `CFG_LINE_COMMENT`, `CFG_LINE_LEGACY` and `CFG_LINE_LIBCONFIG`. -/
inductive LineClass where
  | blank
  | comment
  | legacy
  | libconfig
  deriving DecidableEq

/-- `cfgIsLibconfigIdent`: `[A-Za-z*][-A-Za-z0-9_*]*`. -/
def cfgIsLibconfigIdent : Text → Bool
  | [] => false
  | c :: s => (c.isAlpha || c = '*') &&
      s.all fun c => c.isAlphanum || c = '_' || c = '-' || c = '*'

/-- What starts like this, once its leading blanks are skipped, is a comment. -/
def startsComment : Text → Bool
  | '#' :: _ => true
  | '/' :: '/' :: _ => true
  | '/' :: '*' :: _ => true
  | _ => false

theorem startsComment_cons {c : Char} (hhash : c ≠ '#') (hslash : c ≠ '/') (s : Text) :
    startsComment (c :: s) = false := by
  rw [startsComment.eq_def]
  split <;> simp_all

/-- `cfgClassifyLine`. -/
def cfgClassifyLine (line : Text) : LineClass :=
  let p := skipWS line
  if p = [] then .blank
  else if startsComment p then .comment
  else
    let body := trimEnd p
    match Text.cutAt '=' p with
    | (_, none) => .legacy
    | (k, some _) =>
      if body.length ≤ k.length then .legacy
      -- both the blank before the `=` and the `;` at the end, and an identifier
      else if (∃ c ∈ k.getLast?, isWS c = true) ∧ body.getLast? = some ';' ∧
          cfgIsLibconfigIdent (trimEnd k) then .libconfig
      else .legacy

/-! ### Our own syntax -/

/-- `splitAssignment` into a `char[32]` and a `char[256]`. -/
def splitAssignment (line : Text) : Option (Text × Text) :=
  match Text.cutAt '=' (skipWS line) with
  | (_, none) => none
  | (key, some val) => some (key.take 31, val.take 255)

/-- `parsePrefix` into a `char[32]`. -/
def parsePrefix (line : Text) : Option Text :=
  match Text.cutAt ':' line with
  | (_, none) => none
  | (name, some _) => if name = [] then none else some (name.take 31)

/-- `snprintf(composed, 64, "%s_%s", group, key)` where there is a group. -/
def compose (group key : Text) : Text :=
  (if group ≠ [] then group ++ '_' :: key else key).take 63

/-- A line of our own syntax: the prefix for the lines below it, and the key and the value it
assigns. An assignment that is not indented ends the prefix. -/
def readLegacyLine (line pre : Text) : Text × Option (Text × Text) :=
  match splitAssignment line with
  | some (key, val) =>
    let pre := if ∃ c ∈ line.head?, isWS c = true then pre else []
    (pre, some (compose pre key, val))
  | none => ((parsePrefix line).getD pre, none)

/-! ### The keys of libconfig -/

/-- `cfgWoplPerGameKeys`: the keys of a per-game file in libconfig, groups flattened, and ours. -/
def cfgWoplPerGameKeys : List (Text × Text) :=
  [("compat".toList, "$Compatibility".toList),
   ("dma".toList, "$DMA".toList),
   ("core_loader".toList, "$CoreLoader".toList),
   ("dnas".toList, "$DNAS".toList),
   ("alt_startup".toList, "$AltStartup".toList),
   ("vmc1".toList, "$VMC_0".toList),
   ("vmc2".toList, "$VMC_1".toList),
   ("gsm_source".toList, "$GSMSource".toList),
   ("gsm_enable".toList, "$EnableGSM".toList),
   ("gsm_vmode".toList, "$GSMVMode".toList),
   ("gsm_x_offset".toList, "$GSMXOffset".toList),
   ("gsm_y_offset".toList, "$GSMYOffset".toList),
   ("gsm_field_fix".toList, "$GSMFIELDFix".toList),
   ("cheat_source".toList, "$CheatsSource".toList),
   ("cheat_enable".toList, "$EnableCheat".toList),
   ("cheat_mode".toList, "$CheatMode".toList),
   ("cheat_enable_image".toList, "$EnableImage".toList),
   ("pademu_source".toList, "$PADEMUSource".toList),
   ("pademu_enable".toList, "$EnablePadEmu".toList),
   ("pademu_settings".toList, "$PadEmuSettings".toList),
   ("padmacro_source".toList, "$PadMacroSource".toList),
   ("padmacro_settings".toList, "$PadMacroSettings".toList),
   ("osd_source".toList, "$CustomLanguageSource".toList),
   ("osd_enable".toList, "$OSDSettingsEnable".toList),
   ("osd_lang_id".toList, "$CustomLanguageValue".toList),
   ("osd_tv_aspect".toList, "$OSDAspectRatio".toList),
   ("osd_vmode".toList, "$OSDVideoMode".toList)]

/-- `cfgWoplToOurs`. -/
def cfgWoplToOurs (key : Text) : Option Text :=
  (cfgWoplPerGameKeys.find? (·.1 = key)).map (·.2)

/-- `cfgOursToWopl`. -/
def cfgOursToWopl (key : Text) : Option Text :=
  (cfgWoplPerGameKeys.find? (·.2 = key)).map (·.1)

/-- `cfgLibconfigGroups`. -/
def cfgLibconfigGroups : List Text :=
  ["gsm".toList, "cheat".toList, "pademu".toList, "padmacro".toList, "osd".toList]

/-- `cfgMatchGroup`: the group of a flattened key, and where the key starts inside it. -/
def cfgMatchGroup (key : Text) : Option (Text × ℕ) :=
  (cfgLibconfigGroups.find? fun g => g ++ ['_'] <+: key ∧ g.length + 1 < key.length).map
    fun g => (g, g.length + 1)

/-! ### Reading libconfig -/

/-- The text of a group header before its `:`, as the name of the group when it fits. -/
def readGroupName (p group : Text) : Text :=
  match Text.cutAt ':' p with
  | (_, none) => group
  | (g, some _) =>
    let name := trimEnd g
    if name ≠ [] ∧ name.length < 32 then name else group

/-- A line up to its end, without the terminator of the statement. -/
def dropTerminator (p : Text) : Text :=
  let body := trimEnd p
  trimEnd (if body.getLast? = some ';' then body.dropLast else body)

/-- The value behind the `=`: the quotes of a string are dropped. -/
def unquote (v : Text) : Text :=
  match skipWS v with
  | '"' :: v => if v.getLast? = some '"' then v.dropLast else v
  | v => v

/-- The booleans of libconfig as our getters expect them. -/
def readBool (val : Text) : Text :=
  if val = "true".toList then "1".toList
  else if val = "false".toList then "0".toList
  else val

/-- `cfgReadLibconfigLine`: the group for the lines below, and the key and the value that are
stored. An empty value is an absent one, and a key that does not fit is dropped. -/
def cfgReadLibconfigLine (line group : Text) : Text × Option (Text × Text) :=
  let p := skipWS line
  if p = [] ∨ startsComment p then (group, none)
  else if p.head? = some '}' then ([], none)
  else if p.head? = some '{' then (group, none)
  else
    match Text.cutAt '=' p with
    | (_, none) => (readGroupName p group, none)
    | (k, some _) =>
      -- no `=` before the `:`
      if ':' ∈ k then (readGroupName p group, none)
      else
        let key := trimEnd k
        if key = [] ∨ 32 ≤ key.length then (group, none)
        else
          let v := unquote ((dropTerminator p).drop (k.length + 1))
          if v = [] then (group, none)
          else
            let composed := compose group key
            (group, some ((cfgWoplToOurs composed).getD composed, readBool (v.take 255)))

/-! ### Reading a file -/

/-- What the reader needs of a set. -/
class ConfigStore (σ : Type*) where
  /-- `configSetStr(set, key, val)` -/
  setStr : σ → Text → Text → σ
  /-- `set->format = format` -/
  setFormat : σ → Format → σ
  /-- `set->modified = 0` -/
  clearModified : σ → σ

instance : ConfigStore ConfigSet where
  setStr := configSetStr
  setFormat s format := { s with format := format }
  clearModified s := { s with modified := false }

/-- The local variables of `configReadFileBuffer`. -/
structure ReadState where
  /-- The format of the file, once it is latched. -/
  fmt : Option Format
  /-- `prefix` -/
  pre : Text
  group : Text
  deriving DecidableEq

/-- Before the first line. -/
def ReadState.init : ReadState := ⟨none, [], []⟩

section Reader

variable {σ : Type*} [ConfigStore σ]

/-- The assignment of a line, if it makes one. -/
def store (s : σ) : Option (Text × Text) → σ
  | none => s
  | some (key, val) => ConfigStore.setStr s key val

/-- A line of a file whose format is known. -/
def readKnownLine (fmt : Format) (s : σ) (st : ReadState) (line : Text) : σ × ReadState :=
  match fmt with
  | .libconfig =>
    let (group, assignment) := cfgReadLibconfigLine line st.group
    (store s assignment, { st with group := group })
  | .legacy =>
    let (pre, assignment) := readLegacyLine line st.pre
    (store s assignment, { st with pre := pre })

/-- The body of the loop of `configReadFileBuffer`. -/
def readLine (x : σ × ReadState) (line : Text) : σ × ReadState :=
  match x.2.fmt with
  | some fmt => readKnownLine fmt x.1 x.2 line
  | none =>
    -- the first line that carries evidence latches the format
    match cfgClassifyLine line with
    | .blank => x
    | .comment => x
    | .legacy =>
      readKnownLine .legacy (ConfigStore.setFormat x.1 .legacy)
        { x.2 with fmt := some .legacy } line
    | .libconfig =>
      readKnownLine .libconfig (ConfigStore.setFormat x.1 .libconfig)
        { x.2 with fmt := some .libconfig } line

/-- The set after the lines `ls` of a file. -/
def readLines (s : σ) (ls : List Text) : σ :=
  ConfigStore.clearModified (ls.foldl readLine (s, ReadState.init)).1

/-- `configReadFileBuffer`. -/
def configReadFileBuffer (fb : FileBuffer) (s : σ) : Option σ := fb.lines.map (readLines s)

/-- Two stores that are kept in step by each assignment are in step after a file. -/
theorem readLines_rel {τ : Type*} [ConfigStore τ] {R : σ → τ → Prop}
    (hset : ∀ s t key val, R s t →
      R (ConfigStore.setStr s key val) (ConfigStore.setStr t key val))
    (hformat : ∀ s t format, R s t →
      R (ConfigStore.setFormat s format) (ConfigStore.setFormat t format))
    (hclear : ∀ s t, R s t → R (ConfigStore.clearModified s) (ConfigStore.clearModified t))
    {s : σ} {t : τ} (h : R s t) (ls : List Text) : R (readLines s ls) (readLines t ls) := by
  have hstore : ∀ {s : σ} {t : τ} (a : Option (Text × Text)), R s t →
      R (store s a) (store t a) := by
    rintro s t (_ | ⟨key, val⟩) h
    · exact h
    · exact hset s t key val h
  have hknown : ∀ {s : σ} {t : τ} (fmt : Format) (st : ReadState) (l : Text), R s t →
      R (readKnownLine fmt s st l).1 (readKnownLine fmt t st l).1 ∧
        (readKnownLine fmt s st l).2 = (readKnownLine fmt t st l).2 := by
    intro s t fmt st l h
    cases fmt <;> exact ⟨hstore _ h, rfl⟩
  have hline : ∀ {x : σ × ReadState} {y : τ × ReadState} (l : Text), R x.1 y.1 ∧ x.2 = y.2 →
      R (readLine x l).1 (readLine y l).1 ∧ (readLine x l).2 = (readLine y l).2 := by
    rintro ⟨s, st⟩ ⟨t, st'⟩ l ⟨h, rfl⟩
    dsimp only at h
    rw [readLine, readLine]
    rcases st.fmt with _ | fmt
    · rcases cfgClassifyLine l with _ | _ | _ | _
      · exact ⟨h, rfl⟩
      · exact ⟨h, rfl⟩
      · exact hknown _ _ l (hformat s t _ h)
      · exact hknown _ _ l (hformat s t _ h)
    · exact hknown fmt st l h
  have hfold : ∀ (ls : List Text) {x : σ × ReadState} {y : τ × ReadState}, R x.1 y.1 ∧ x.2 = y.2 →
      R (ls.foldl readLine x).1 (ls.foldl readLine y).1 := by
    intro ls
    induction ls with
    | nil => exact fun h => h.1
    | cons l ls ih => exact fun h => ih (hline l h)
  exact hclear _ _ (hfold ls ⟨h, rfl⟩)

end Reader

/-! ### Writing a set -/

/-- A node that is written to the file. -/
def persisted (it : ConfigValue) : Bool := it.key.text ≠ [] && it.key.text.head? ≠ some '#'

/-- `snprintf` into a `char[size]`. -/
def snprintf (size : ℕ) (t : Text) : Text := t.take (size - 1)

/-- `"%s=%s\n"`. -/
def writeLegacyLine (it : ConfigValue) : Text :=
  snprintf 512 (it.key.text ++ '=' :: it.val.text ++ ['\n'])

/-- The pieces `configWrite` writes of a set in our own syntax. -/
def writeLegacy (items : List ConfigValue) : List Text :=
  (items.filter persisted).map writeLegacyLine

/-- `cfgValueIsBareScalar`: an integer or a boolean is not quoted. -/
def cfgValueIsBareScalar (v : Text) : Bool :=
  if v = "true".toList ∨ v = "false".toList then true
  else
    let digits := if v.head? = some '-' then v.tail else v
    digits ≠ [] && digits.all Char.isDigit

/-- A character that is escaped in a string. -/
def isSpecial (c : Char) : Bool := c = '\\' || c = '"'

/-- The loop that escapes a value, with `i` characters in the `char[512]`. -/
def escapeFrom : ℕ → Text → Text
  | _, [] => []
  | i, c :: s =>
    if i + 2 < 512 then
      if isSpecial c then '\\' :: c :: escapeFrom (i + 2) s else c :: escapeFrom (i + 1) s
    else []

/-- The value as it is written behind the `=`. -/
def writeValue (val : Text) : Text :=
  if cfgValueIsBareScalar val then val else '"' :: escapeFrom 0 val ++ ['"']

/-- `cfgWriteLibconfigLine`. -/
def cfgWriteLibconfigLine (indent key val : Text) : Text :=
  snprintf 560 (indent ++ key ++ " = ".toList ++ writeValue val ++ ";\n".toList)

/-- The group a node is written in, and its key there. -/
def groupOf (it : ConfigValue) : Option (Text × Text) := do
  let w ← cfgOursToWopl it.key.text
  let (g, off) ← cfgMatchGroup w
  pure (g, w.drop off)

/-- The name a node is written under outside the groups. -/
def rootName (it : ConfigValue) : Text := (cfgOursToWopl it.key.text).getD it.key.text

/-- The nodes that are written outside the groups. -/
def rootItems (items : List ConfigValue) : List ConfigValue :=
  items.filter fun it => persisted it && (groupOf it).isNone

/-- The key of a node in the group `g`. -/
def keyIn (g : Text) (it : ConfigValue) : Option Text :=
  (groupOf it).bind fun x => if x.1 = g then some x.2 else none

/-- The lines of the nodes in the group `g`. -/
def groupLines (items : List ConfigValue) (g : Text) : List Text :=
  (items.filter persisted).filterMap fun it =>
    (keyIn g it).map fun key => cfgWriteLibconfigLine "  ".toList key it.val.text

/-- The block of the group `g`, if a node is in it. -/
def writeGroup (items : List ConfigValue) (g : Text) : List Text :=
  let ls := groupLines items g
  if ls = [] then []
  else snprintf 128 (g ++ " :\n\x7b\n".toList) :: ls ++ [snprintf 128 "\x7d;\n".toList]

/-- The pieces `cfgWriteLibconfig` writes. -/
def cfgWriteLibconfig (items : List ConfigValue) : List Text :=
  ((rootItems items).map fun it => cfgWriteLibconfigLine [] (rootName it) it.val.text) ++
    cfgLibconfigGroups.flatMap (writeGroup items)

/-- The pieces `configWrite` hands to the file buffer. -/
def pieces (s : ConfigSet) : List Text :=
  match s.format with
  | .libconfig => cfgWriteLibconfig s.items
  | .legacy => writeLegacy s.items

/-- The bytes of a set. -/
def serialise (s : ConfigSet) : Text := (pieces s).flatten

end Config

end OpenPS2Loader
