import OpenPS2Loader.Lib.Text
import Mathlib.Data.List.Infix

/-!
# The reference parser of the catalog

`pc/http/catalog_reference.py`: the Python half of the catalog contract. A Python string is a
`Text` and an index into it is the rest of the text from there on.

## Main definitions

* `Reference.splitFields` — the field splitter
* `Reference.validatePath` — which relative paths are usable
* `Reference.parseLine` — the line parser
* `Reference.strippedLine` — the lines `parse_catalog` hands to the parser
-/

namespace OpenPS2Loader

namespace Catalog

namespace Reference

/-- `GAME_STARTUP_MAX`. -/
def gameStartupMax : ℕ := 12

/-- `ISO_GAME_NAME_MAX`. -/
def isoGameNameMax : ℕ := 160

/-- `CATALOG_PATH_MAX`. -/
def catalogPathMax : ℕ := 255

/-- `MEDIA_CD` and `MEDIA_DVD`. -/
inductive Media
  | cd
  | dvd
  deriving DecidableEq, Repr

/-- `class Row`. -/
structure Row where
  startup : Text
  title : Text
  media : Media
  path : Text
  supported : Bool
  note : Option String
  deriving DecidableEq, Repr

/-- `EXT_KNOWN`. -/
def extKnown : List Text := [".iso".toList, ".zso".toList]

/-- The white space `str.strip` removes, among the ASCII characters. -/
def isSpace (c : Char) : Bool :=
  (9 ≤ c.toNat && c.toNat ≤ 13) || (28 ≤ c.toNat && c.toNat ≤ 32)

/-- `str.strip`. -/
def strip (s : Text) : Text := Text.trim isSpace s

/-- `str.lower` on ASCII. -/
def lower (s : Text) : Text := s.map Char.toLower

/-- `str.upper` on ASCII. -/
def upper (s : Text) : Text := s.map Char.toUpper

/-! ### Splitting a line -/

/-- The inner loop of `split_fields` over a quoted field, with its buffer: the field and the text
from the closing quote on. -/
def quotedField (buf : Text) : Text → Except String (Text × Text)
  | [] => .error "unterminated_quote"
  | '"' :: '"' :: rest => quotedField (buf ++ ['"']) rest
  | '"' :: rest => .ok (buf, rest)
  | c :: rest => quotedField (buf ++ [c]) rest

/-- The field at the index of `split_fields`, and the text from its end on. -/
def nextField : Text → Except String (Text × Text)
  | '"' :: rest =>
    match quotedField [] rest with
    | .error err => .error err
    | .ok (field, []) => .ok (field, [])
    | .ok (field, c :: rest) =>
      if c ≠ ',' then .error "text_after_quoted_field" else .ok (field, c :: rest)
  | text => .ok (text.takeWhile (· ≠ ','), text.dropWhile (· ≠ ','))

theorem length_le_of_quotedField {s buf field rest : Text}
    (h : quotedField buf s = .ok (field, rest)) : rest.length < s.length := by
  induction buf, s using quotedField.induct with
  | case1 => cases h
  | case2 buf s ih =>
    have := ih h
    simp only [List.length_cons]
    omega
  | case3 buf s hs =>
    rw [quotedField] at h
    · cases h
      simp
    · exact hs
  | case4 buf c s h₁ h₂ ih =>
    rw [quotedField] at h
    · have := ih h
      simp only [List.length_cons]
      omega
    · exact h₁
    · exact h₂

theorem length_le_of_nextField {text field rest : Text} (h : nextField text = .ok (field, rest)) :
    rest.length ≤ text.length := by
  unfold nextField at h
  split at h
  · split at h
    · cases h
    · cases h
      simp
    · rename_i hq
      split_ifs at h
      cases h
      have := length_le_of_quotedField hq
      simp only [List.length_cons] at this ⊢
      omega
  · cases h
    exact (List.dropWhile_sublist _).length_le

/-- `split_fields`. -/
def splitFields (text : Text) : Except String (List Text) :=
  match _h : nextField text with
  | .error err => .error err
  | .ok (field, []) => .ok [field]
  -- a trailing comma yields a final empty field
  | .ok (field, [_]) => .ok [field, []]
  | .ok (field, _ :: c :: rest) => (splitFields (c :: rest)).map (field :: ·)
termination_by text.length
decreasing_by exact Nat.lt_of_succ_le (length_le_of_nextField _h)

/-! ### Checking a path -/

/-- `has_control_chars`. -/
def hasControlChars (s : Text) : Bool := s.any fun c => c.toNat < 0x20 || c.toNat == 0x7F

/-- `split_extension`. -/
def splitExtension (name : Text) : Text × Text :=
  match extKnown.find? fun ext => ext.isSuffixOf (lower name) && ext.length < name.length with
  | some ext =>
    (name.take (name.length - ext.length), lower (name.drop (name.length - ext.length)))
  | none => (name, ".iso".toList)

/-- The loop of `validate_path` over the segments. -/
def validateSegments : List Text → Option String
  | [] => none
  | seg :: segments =>
    if seg = [] ∨ seg = ['.'] then some "empty_segment"
    else if seg = ['.', '.'] then some "parent_segment"
    else validateSegments segments

/-- `validate_path`. -/
def validatePath (path : Text) : Option String :=
  if path = [] then some "empty_path"
  else if hasControlChars path then some "control_char_in_path"
  else if catalogPathMax < path.length then some "path_too_long"
  else if "://".toList <:+: path then some "absolute_url"
  else if "/".toList <+: path then some "absolute_path"
  else if "\\".toList <:+: path then some "backslash_in_path"
  else
    match validateSegments (path.splitOn '/') with
    | some err => some err
    | none =>
      if !extKnown.any fun ext => ext.isSuffixOf (lower path) then some "unknown_extension"
      else none

/-! ### Parsing a line -/

/-- Field 2 of `parse_line`, stripped: the title, and the note on a row without one. -/
def parseTitle (startup field : Text) : Text × Option String :=
  if field ≠ [] then (field, none) else (startup, some "startup_only_row")

/-- Field 3 of `parse_line`, stripped. -/
def parseMedia (token : Text) : Except String Media :=
  if token = [] then .ok .dvd
  else if upper token = "CD".toList then .ok .cd
  else if upper token = "DVD".toList then .ok .dvd
  else .error "bad_media"

/-- Field 4 of `parse_line`, stripped: the title and the path, derived from the title when the
field is empty. -/
def parsePath (titleRaw field : Text) : Text × Text :=
  if field ≠ [] then (titleRaw, field)
  else
    let (title, ext) := splitExtension titleRaw
    (title, title ++ ext)

/-- `parse_line`: the row, or the reason of the reject. A field that the line does not have reads
as an empty one. -/
def parseLine (raw : Text) : Except String Row := do
  let fields ← splitFields raw
  if 4 < fields.length then throw "too_many_fields"
  let startup := strip (fields.getD 0 [])
  if startup = [] then throw "empty_startup"
  if hasControlChars startup then throw "control_char_in_startup"
  if gameStartupMax < startup.length then throw "startup_too_long"
  let (titleRaw, note) := parseTitle startup (strip (fields.getD 1 []))
  if hasControlChars titleRaw then throw "control_char_in_title"
  if isoGameNameMax < titleRaw.length then throw "title_too_long"
  let media ← parseMedia (strip (fields.getD 2 []))
  let (title, path) := parsePath titleRaw (strip (fields.getD 3 []))
  if let some err := validatePath path then throw err
  let supported := ".iso".toList.isSuffixOf (lower path)
  return { startup, title, media, path, supported
           note := if supported then note else some "compressed_image_unsupported" }

/-- The loop body of `parse_catalog` before `parse_line`: blank and comment lines are skipped. -/
def strippedLine (line : Text) : Option Text :=
  let stripped := line.dropWhile fun c => c == ' ' || c == '\t'
  if stripped = [] ∨ "#".toList <+: stripped then none else some stripped

end Reference

end Catalog

end OpenPS2Loader
