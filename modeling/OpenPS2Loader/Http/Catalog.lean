import OpenPS2Loader.Lib.Text
import Mathlib.Data.List.Infix

/-!
# The catalog parser of the console

`httpcatalog.c`: one line of `games.csv`, already stripped of its line ending, is skipped, or
split into at most four comma-separated fields with quoting and checked field by field into a
row. The buffers the C code fills in place are the fields themselves here: a field never outgrows
the text it was cut from, and the row's texts are bounded by the checks made before they are
copied.

## Main definitions

* `httpCatalogSkipBlankOrComment` — which lines are not parsed at all
* `httpSplitFields` — the field splitter
* `httpCheckPath` — which relative paths are requested
* `httpCatalogParseLine` — the line parser
-/

namespace OpenPS2Loader

namespace Catalog

/-- `HTTP_CSV_MAX_FIELDS`. -/
def csvMaxFields : ℕ := 4

/-- `HTTP_CAT_STARTUP_MAX`. -/
def catStartupMax : ℕ := 12

/-- `HTTP_CAT_TITLE_MAX`. -/
def catTitleMax : ℕ := 160

/-- `HTTP_CAT_PATH_MAX`. -/
def catPathMax : ℕ := 255

/-- `enum HTTP_CAT_REJECT`, without `HTTP_CAT_OK`. -/
inductive CatReject
  | emptyStartup
  | startupTooLong
  | controlChar
  | titleTooLong
  | badMedia
  | tooManyFields
  | unterminatedQuote
  | textAfterQuote
  | emptyPath
  | pathTooLong
  | absoluteUrl
  | absolutePath
  | backslash
  | emptySegment
  | parentSegment
  | unknownExtension
  deriving DecidableEq, Repr

/-- `HTTP_CAT_MEDIA_CD` and `HTTP_CAT_MEDIA_DVD`. -/
inductive CatMedia
  | cd
  | dvd
  deriving DecidableEq, Repr

/-- `http_catalog_row_t`. -/
structure CatalogRow where
  startup : Text
  title : Text
  path : Text
  extension : Text
  media : CatMedia
  supported : Bool
  deriving DecidableEq, Repr

/-! ### Characters -/

/-- A space or a TAB. -/
def isBlank (c : Char) : Bool := c == ' ' || c == '\t'

/-- The bytes `httpHasControlChars` looks for. -/
def isControl (c : Char) : Bool := c.toNat < 0x20 || c.toNat == 0x7F

/-- `httpHasControlChars`. -/
def httpHasControlChars (s : Text) : Bool := s.any isControl

/-- `httpTrim`: its second loop stops at the first character, which is not a blank. -/
def httpTrim (s : Text) : Text := Text.trim isBlank s

/-- `httpEndsWithNoCase`: a proper suffix, compared byte by byte without case. -/
def httpEndsWithNoCase (s suffix : Text) : Bool :=
  decide (suffix.length < s.length) &&
    (s.drop (s.length - suffix.length)).map Char.toLower == suffix.map Char.toLower

/-! ### Splitting a line -/

/-- `httpCatalogSkipBlankOrComment`. -/
def httpCatalogSkipBlankOrComment (line : Text) : Option Text :=
  match line.dropWhile isBlank with
  | [] => none
  | '#' :: _ => none
  | line => some line

/-- The quoted branch of `httpSplitFields`, after the opening quote: the unescaped field and what
follows the closing quote. -/
def httpQuotedField : Text → Except CatReject (Text × Text)
  | [] => .error .unterminatedQuote
  | '"' :: '"' :: p => (httpQuotedField p).map fun (out, rest) => ('"' :: out, rest)
  | '"' :: p => .ok ([], p)
  | c :: p => (httpQuotedField p).map fun (out, rest) => (c :: out, rest)

/-- One pass of the loop of `httpSplitFields`: the field at `p` and, when a comma ends it, what
follows the comma. -/
def httpNextField : Text → Except CatReject (Text × Option Text)
  | '"' :: p =>
    match httpQuotedField p with
    | .error reject => .error reject
    | .ok (field, []) => .ok (field, none)
    | .ok (field, ',' :: rest) => .ok (field, some rest)
    | .ok _ => .error .textAfterQuote
  | p => .ok (Text.cutAt ',' p)

/-- `httpSplitFields`, with room for `room` more fields. -/
def httpSplitFields : ℕ → Text → Except CatReject (List Text)
  | 0, _ => .error .tooManyFields
  | room + 1, p =>
    match httpNextField p with
    | .error reject => .error reject
    | .ok (field, none) => .ok [field]
    -- a trailing comma yields one final empty field
    | .ok (field, some []) => if room = 0 then .error .tooManyFields else .ok [field, []]
    | .ok (field, some p) => (httpSplitFields room p).map (field :: ·)

/-! ### Checking a path -/

/-- What the loop of `httpCheckPath` asks of one segment. -/
def httpCheckSegment (seg : Text) : Except CatReject Unit :=
  if seg = [] then .error .emptySegment
  else if seg = ['.'] then .error .emptySegment
  else if seg = ['.', '.'] then .error .parentSegment
  else .ok ()

/-- The loop of `httpCheckPath` over the segments of a path. -/
def httpCheckSegments (path : Text) : Except CatReject Unit :=
  match _h : Text.cutAt '/' path with
  | (seg, none) => httpCheckSegment seg
  | (seg, some rest) => do
    httpCheckSegment seg
    httpCheckSegments rest
termination_by path.length
decreasing_by exact Text.length_lt_of_cutAt _h

/-- `httpCheckPath`. -/
def httpCheckPath (path : Text) : Except CatReject Unit :=
  if path = [] then .error .emptyPath
  else if httpHasControlChars path then .error .controlChar
  else if catPathMax < path.length then .error .pathTooLong
  else if "://".toList <:+: path then .error .absoluteUrl
  else if path.head? = some '/' then .error .absolutePath
  else if path.contains '\\' then .error .backslash
  else
    match httpCheckSegments path with
    | .error reject => .error reject
    | .ok () =>
      if !httpEndsWithNoCase path ".iso".toList && !httpEndsWithNoCase path ".zso".toList then
        .error .unknownExtension
      else .ok ()

/-! ### Parsing a line -/

/-- Field 2: without it the startup is both the displayed name and the filename stem. -/
def catTitle (startup field : Text) : Text := if field ≠ [] then field else startup

/-- Field 3: an exact token, compared without case; an empty one leaves the default. -/
def catMedia (m : Text) : Except CatReject CatMedia :=
  match m with
  | [] => .ok .dvd
  | [c, d] =>
    if (c = 'C' ∨ c = 'c') ∧ (d = 'D' ∨ d = 'd') then .ok .cd else .error .badMedia
  | [d, v, d'] =>
    if (d = 'D' ∨ d = 'd') ∧ (v = 'V' ∨ v = 'v') ∧ (d' = 'D' ∨ d' = 'd') then .ok .dvd
    else .error .badMedia
  | _ => .error .badMedia

/-- The title, the extension and the path of a row. Field 4 is authoritative when present;
otherwise the path is derived from the title, whose own extension is not doubled. -/
def catPath (title field : Text) : Text × Text × Text :=
  if field ≠ [] then
    (title, if httpEndsWithNoCase field ".zso".toList then ".zso".toList else ".iso".toList, field)
  else if httpEndsWithNoCase title ".iso".toList || httpEndsWithNoCase title ".zso".toList then
    let stem := title.take (title.length - 4)
    let extension := (title.drop (title.length - 4)).map Char.toLower
    (stem, extension, stem ++ extension)
  else (title, ".iso".toList, title ++ ".iso".toList)

/-- `httpCatalogParseLine`. A field that the line does not have reads as an empty one. -/
def httpCatalogParseLine (line : Text) : Except CatReject CatalogRow := do
  let fields ← httpSplitFields csvMaxFields line
  let startup := httpTrim (fields.getD 0 [])
  if startup = [] then throw .emptyStartup
  if httpHasControlChars startup then throw .controlChar
  if catStartupMax < startup.length then throw .startupTooLong
  let title := catTitle startup (httpTrim (fields.getD 1 []))
  if httpHasControlChars title then throw .controlChar
  if catTitleMax < title.length then throw .titleTooLong
  let media ← catMedia (httpTrim (fields.getD 2 []))
  let (title, extension, path) := catPath title (httpTrim (fields.getD 3 []))
  httpCheckPath path
  return { startup, title, path, extension, media
           supported := httpEndsWithNoCase path ".iso".toList }

end Catalog

end OpenPS2Loader
