import OpenPS2Loader.Games.Info
import OpenPS2Loader.Http.Catalog
import OpenPS2Loader.Lib.CString
import OpenPS2Loader.Lib.FirstOf

/-!
# The list of a catalog

`httpsupport.c`: a fetched `games.csv` is parsed line by line into a new list, which replaces the
published one only when the whole catalog was taken. The first row of each startup is listed, and a
later one with the same startup takes no room.

## Main definitions

* `Catalog.HttpGame` — an entry of `httpGames` with that of `httpExtras`
* `Catalog.httpParseLines`, `Catalog.httpParseCatalog`, `Catalog.httpUpdateGameList`
* `Catalog.acceptedRows` — the rows of a catalog that `httpCatalogParseLine` accepts
* `Catalog.Refused` — the catalogs that are not published
* `Catalog.SafeRow` — what is asked of a published row

## Main results

* `Catalog.httpParseCatalog_eq` — what is published
* `Catalog.safeRow_of_parseLine`
* `Catalog.httpParseCatalog_catalogText` — the line ends do not matter
* `Catalog.catalog_published`
-/

namespace OpenPS2Loader

namespace Catalog

/-! ### The code -/

/-- `HTTP_CATALOG_ROWS_MAX`. -/
def catalogRowsMax : ℕ := 2048

/-- `HTTP_CATALOG_PATH_MAX`. -/
def catalogPathMax : ℕ := 255

/-- An entry of `httpGames`, with that of `httpExtras`. -/
structure HttpGame where
  game : GameInfo
  path : Text
  supported : Bool
  deriving DecidableEq

/-- `snprintf(buf, size, "%s", t)` -/
def snprintf (size : ℕ) (t : Text) : Text := t.take (size - 1)

def CatMedia.code : CatMedia → UInt8
  | .cd => 0x12
  | .dvd => 0x14

/-- The entry of a row. -/
def httpGame (row : CatalogRow) : HttpGame where
  game :=
    { name := snprintf (isoGameNameMax + 1) row.title
      startup := snprintf (gameStartupMax + 1) row.startup
      extension := snprintf (isoGameExtensionMax + 1) row.extension
      parts := 1
      media := row.media.code
      format := .iso
      sizeMB := 0 }
  path := snprintf (catalogPathMax + 1) row.path
  supported := row.supported

/-- A line without the CR at its end. -/
def stripCr (line : Text) : Text := if line.getLast? = some '\r' then line.dropLast else line

/-- The loop of `httpParseCatalog`: the entries, and how many rows were rejected. -/
def httpParseLines : List Text → List HttpGame → ℕ → Option (List HttpGame × ℕ)
  | [], games, rejected => some (games, rejected)
  | line :: lines, games, rejected =>
    match httpCatalogSkipBlankOrComment (stripCr line) with
    | none => httpParseLines lines games rejected
    | some trimmed =>
      match httpCatalogParseLine trimmed with
      | .error _ => httpParseLines lines games (rejected + 1)
      | .ok parsed =>
        -- first record wins; a duplicate consumes no capacity
        if parsed.startup ∈ games.map (·.game.startup) then
          httpParseLines lines games (rejected + 1)
        else if games.length = catalogRowsMax then none
        else httpParseLines lines (games ++ [httpGame parsed]) rejected

/-- `httpParseCatalog`; `alloc` says whether the two arrays could be allocated. -/
def httpParseCatalog (buf : Text) (alloc : Bool) : Option (List HttpGame) :=
  if nul ∈ buf then none
  else if !alloc then none
  else
    (httpParseLines (splitLines buf) [] 0).bind fun (games, rejected) =>
      if rejected ≠ 0 ∧ games.length = 0 then none else some games

/-- `httpGames` with `httpExtras`, and `httpGameCount`. -/
structure HttpList where
  games : List HttpGame
  count : ℕ
  deriving DecidableEq

/-- `httpUpdateGameList` behind the fetch, which gives no catalog when it fails. -/
def httpUpdateGameList (s : HttpList) (fetched : Option Text) (alloc : Bool) : HttpList :=
  match fetched with
  | none => s
  | some buf =>
    match httpParseCatalog buf alloc with
    | none => s
    | some games => ⟨games, games.length⟩

/-! ### What a catalog says -/

/-- The text of a line that is a row. -/
def rowText (line : Text) : Option Text := httpCatalogSkipBlankOrComment (stripCr line)

/-- The rows of a catalog, as texts. -/
def rowTexts (buf : Text) : List Text := (splitLines buf).filterMap rowText

/-- The rows that are accepted, in the order of the file. -/
def acceptedRows (texts : List Text) : List CatalogRow :=
  texts.filterMap fun t => (httpCatalogParseLine t).toOption

/-- The rows a catalog lists: of each startup the first. -/
def listedRows (buf : Text) : List CatalogRow :=
  firstOf CatalogRow.startup (acceptedRows (rowTexts buf))

/-- A catalog that is not published: it has a NUL, too many rows, or rows of which none is
accepted. -/
def Refused (buf : Text) : Prop :=
  nul ∈ buf ∨ catalogRowsMax < (listedRows buf).length ∨
    rowTexts buf ≠ [] ∧ acceptedRows (rowTexts buf) = []

/-- A path that does not lead out of the directory it is relative to. -/
structure SafePath (path : Text) : Prop where
  relative : path.head? ≠ some '/'
  segments : ∀ seg ∈ path.splitOn '/', seg ≠ [] ∧ seg ≠ ['.'] ∧ seg ≠ ['.', '.']
  backslash : '\\' ∉ path
  control : ∀ c ∈ path, isControl c = false

/-- A row that is stored as it was parsed, and names a game and a path of the server. -/
structure SafeRow (row : CatalogRow) : Prop where
  startup : row.startup ≠ [] ∧ (httpGame row).game.startup = row.startup
  title : row.title ≠ [] ∧ (httpGame row).game.name = row.title
  extension : (httpGame row).game.extension = row.extension
  path : SafePath row.path ∧ (httpGame row).path = row.path

/-! ### The rows that are accepted -/

theorem httpCheckSegment_eq_ok {seg : Text} :
    httpCheckSegment seg = .ok () ↔ seg ≠ [] ∧ seg ≠ ['.'] ∧ seg ≠ ['.', '.'] := by
  rw [httpCheckSegment]
  split_ifs with h₁ h₂ h₃
  · simp [h₁]
  · simp [h₂]
  · simp [h₃]
  · simp [h₁, h₂, h₃]

theorem segments_of_httpCheckSegments {path : Text} (h : httpCheckSegments path = .ok ()) :
    ∀ seg ∈ path.splitOn '/', seg ≠ [] ∧ seg ≠ ['.'] ∧ seg ≠ ['.', '.'] := by
  induction path using httpCheckSegments.induct with
  | case1 path seg hcut =>
    obtain ⟨rfl, hs⟩ := Text.cutAt_eq_none.mp hcut
    rw [httpCheckSegments, hcut] at h
    rw [List.splitOn_eq_singleton hs]
    intro seg hseg
    rw [List.mem_singleton.mp hseg]
    exact httpCheckSegment_eq_ok.mp h
  | case2 path seg rest hcut ih =>
    obtain ⟨rfl, hs⟩ := Text.cutAt_eq_some.mp hcut
    rw [httpCheckSegments, hcut] at h
    change (httpCheckSegment seg >>= fun _ => httpCheckSegments rest) = .ok () at h
    cases hseg : httpCheckSegment seg with
    | error reject =>
      rw [hseg] at h
      cases h
    | ok =>
      rw [hseg] at h
      rw [List.splitOn_append_cons_self_of_not_mem hs]
      intro s hmem
      obtain rfl | hmem := List.mem_cons.mp hmem
      · exact httpCheckSegment_eq_ok.mp hseg
      · exact ih h s hmem

theorem safePath_of_httpCheckPath {path : Text} (h : httpCheckPath path = .ok ()) :
    SafePath path ∧ path.length ≤ catPathMax := by
  rw [httpCheckPath] at h
  cases hseg : httpCheckSegments path with
  | error reject =>
    rw [hseg] at h
    split_ifs at h
  | ok =>
    rw [hseg] at h
    split_ifs at h with h₁ h₂ h₃ h₄ h₅ h₆
    refine ⟨⟨h₅, segments_of_httpCheckSegments hseg, ?_, ?_⟩, Nat.le_of_not_lt h₃⟩
    · intro hmem
      exact h₆ (List.contains_iff_mem.mpr hmem)
    · intro c hc
      rw [Bool.eq_false_iff]
      intro hcontrol
      exact h₂ (List.any_eq_true.mpr ⟨c, hc, hcontrol⟩)

theorem length_of_httpEndsWithNoCase {s suffix : Text} (h : httpEndsWithNoCase s suffix = true) :
    suffix.length < s.length := by
  rw [httpEndsWithNoCase, Bool.and_eq_true, decide_eq_true_eq] at h
  exact h.1

/-- The title and the extension of a row fit, whichever field the path comes from. -/
theorem catPath_bounds {title : Text} (field : Text) (htitle : title ≠ []) :
    (catPath title field).1 ≠ [] ∧ (catPath title field).1.length ≤ title.length ∧
      (catPath title field).2.1.length ≤ 4 := by
  rw [catPath]
  split_ifs with h₁ h₂ h₃
  · exact ⟨htitle, Nat.le_refl _, Nat.le_refl 4⟩
  · exact ⟨htitle, Nat.le_refl _, Nat.le_refl 4⟩
  · have hlen : 4 < title.length := by
      obtain h | h := (Bool.or_eq_true _ _).mp h₃
      · exact length_of_httpEndsWithNoCase h
      · exact length_of_httpEndsWithNoCase h
    refine ⟨?_, ?_, ?_⟩
    · rw [← List.length_pos_iff, List.length_take]
      omega
    · rw [List.length_take]
      omega
    · rw [List.length_map, List.length_drop]
      omega
  · exact ⟨htitle, Nat.le_refl _, Nat.le_refl 4⟩

/-- What an accepted row is made of. -/
theorem httpCatalogParseLine_eq_ok {line : Text} {row : CatalogRow}
    (h : httpCatalogParseLine line = .ok row) :
    row.startup ≠ [] ∧ row.startup.length ≤ catStartupMax ∧
      (∃ title field, title ≠ [] ∧ title.length ≤ catTitleMax ∧
        (row.title, row.extension, row.path) = catPath title field) ∧
      httpCheckPath row.path = .ok () := by
  rw [httpCatalogParseLine] at h
  cases hfields : httpSplitFields csvMaxFields line with
  | error reject =>
    rw [hfields] at h
    cases h
  | ok fields =>
    rw [hfields] at h
    simp only [bind, Except.bind, pure, Except.pure, throw, throwThe, MonadExceptOf.throw] at h
    split_ifs at h with h₁ h₂ h₃ h₄ h₅
    cases hmedia : catMedia (httpTrim (fields.getD 2 [])) with
    | error reject =>
      rw [hmedia] at h
      cases h
    | ok media =>
      rw [hmedia] at h
      dsimp only at h
      cases hpath : httpCheckPath (catPath (catTitle (httpTrim (fields.getD 0 []))
          (httpTrim (fields.getD 1 []))) (httpTrim (fields.getD 3 []))).2.2 with
      | error reject =>
        rw [hpath] at h
        cases h
      | ok =>
        rw [hpath] at h
        cases h
        refine ⟨h₁, Nat.le_of_not_lt h₃, ⟨_, _, ?_, Nat.le_of_not_lt h₅, rfl⟩, hpath⟩
        rw [catTitle]
        split_ifs with htitle
        · exact htitle
        · exact h₁

theorem safeRow_of_parseLine {line : Text} {row : CatalogRow}
    (h : httpCatalogParseLine line = .ok row) : SafeRow row := by
  obtain ⟨hstartup, hlen, ⟨title, field, htitle, htlen, heq⟩, hcheck⟩ :=
    httpCatalogParseLine_eq_ok h
  obtain ⟨hne, hle, hext⟩ := catPath_bounds field htitle
  obtain ⟨hpath, hplen⟩ := safePath_of_httpCheckPath hcheck
  rw [← heq] at hne hle hext
  refine ⟨⟨hstartup, ?_⟩, ⟨hne, ?_⟩, ?_, hpath, ?_⟩
  · exact List.take_of_length_le hlen
  · exact List.take_of_length_le (hle.trans htlen)
  · exact List.take_of_length_le hext
  · exact List.take_of_length_le hplen

theorem safeRow_of_mem {texts : List Text} {row : CatalogRow} (h : row ∈ acceptedRows texts) :
    SafeRow row := by
  obtain ⟨t, -, ht⟩ := List.mem_filterMap.mp h
  cases hparse : httpCatalogParseLine t with
  | error reject =>
    rw [hparse] at ht
    cases ht
  | ok r =>
    rw [hparse] at ht
    cases ht
    exact safeRow_of_parseLine hparse

/-! ### The loop -/

/-- The rows of `texts` whose startup is not listed yet. -/
def newRows (games : List HttpGame) (texts : List Text) : List CatalogRow :=
  firstUnseen CatalogRow.startup (games.map (·.game.startup)) (acceptedRows texts)

section Loop

variable {games : List HttpGame} {texts lines : List Text} {t : Text}

theorem acceptedRows_cons_error {reject : CatReject} (h : httpCatalogParseLine t = .error reject) :
    acceptedRows (t :: texts) = acceptedRows texts := by
  rw [acceptedRows, List.filterMap_cons, h]
  rfl

theorem acceptedRows_cons_ok {row : CatalogRow} (h : httpCatalogParseLine t = .ok row) :
    acceptedRows (t :: texts) = row :: acceptedRows texts := by
  rw [acceptedRows, List.filterMap_cons, h]
  rfl

/-- What the loop adds, as far as there is room. -/
theorem httpParseLines_games (rejected : ℕ) (hroom : games.length ≤ catalogRowsMax) :
    (httpParseLines lines games rejected).map Prod.fst =
      if games.length + (newRows games (lines.filterMap rowText)).length ≤ catalogRowsMax then
        some (games ++ (newRows games (lines.filterMap rowText)).map httpGame)
      else none := by
  induction lines generalizing games rejected with
  | nil =>
    have hnil : newRows games ([].filterMap rowText) = [] := rfl
    rw [httpParseLines, hnil, if_pos (by simpa using hroom), List.map_nil, List.append_nil]
    rfl
  | cons line lines ih =>
    rw [httpParseLines]
    cases htext : httpCatalogSkipBlankOrComment (stripCr line) with
    | none =>
      rw [List.filterMap_cons_none (show rowText line = none from htext)]
      exact ih rejected hroom
    | some t =>
      rw [List.filterMap_cons_some (show rowText line = some t from htext)]
      dsimp only
      cases hparse : httpCatalogParseLine t with
      | error reject =>
        have hrows : newRows games (t :: lines.filterMap rowText) =
            newRows games (lines.filterMap rowText) := by
          rw [newRows, acceptedRows_cons_error hparse, newRows]
        rw [hrows]
        exact ih (rejected + 1) hroom
      | ok row =>
        have hrows : newRows games (t :: lines.filterMap rowText) =
            if row.startup ∈ games.map (·.game.startup) then
              newRows games (lines.filterMap rowText)
            else row :: newRows (games ++ [httpGame row]) (lines.filterMap rowText) := by
          have hstored := (safeRow_of_parseLine hparse).startup.2
          rw [newRows, acceptedRows_cons_ok hparse, firstUnseen_cons, newRows, newRows,
            List.map_append, List.map_singleton, hstored]
          split_ifs <;> rfl
        dsimp only
        rw [hrows]
        by_cases hdup : row.startup ∈ games.map (·.game.startup)
        · rw [if_pos hdup, if_pos hdup]
          exact ih (rejected + 1) hroom
        · rw [if_neg hdup, if_neg hdup]
          by_cases hfull : games.length = catalogRowsMax
          · rw [if_pos hfull, if_neg (by rw [List.length_cons]; omega)]
            rfl
          · rw [if_neg hfull,
              ih rejected (by rw [List.length_append, List.length_singleton]; omega)]
            simp only [List.length_append, List.length_cons, List.length_nil, List.map_cons,
              List.append_assoc, List.singleton_append]
            congr 2
            omega

/-- Where no row is accepted, all of them are rejected. -/
theorem httpParseLines_rejected (rejected : ℕ)
    (h : acceptedRows (lines.filterMap rowText) = []) :
    httpParseLines lines games rejected =
      some (games, rejected + (lines.filterMap rowText).length) := by
  induction lines generalizing rejected with
  | nil => rfl
  | cons line lines ih =>
    rw [httpParseLines]
    cases htext : httpCatalogSkipBlankOrComment (stripCr line) with
    | none =>
      rw [List.filterMap_cons_none (show rowText line = none from htext)] at h ⊢
      exact ih rejected h
    | some t =>
      rw [List.filterMap_cons_some (show rowText line = some t from htext)] at h ⊢
      dsimp only
      cases hparse : httpCatalogParseLine t with
      | error reject =>
        rw [acceptedRows_cons_error hparse] at h
        dsimp only
        rw [ih (rejected + 1) h, List.length_cons]
        congr 2
        omega
      | ok row =>
        rw [acceptedRows_cons_ok hparse] at h
        cases h

end Loop

/-- What the lines of a catalog give. -/
theorem httpParseLines_splitLines (buf : Text) :
    (httpParseLines (splitLines buf) [] 0).map Prod.fst =
      if (listedRows buf).length ≤ catalogRowsMax then some ((listedRows buf).map httpGame)
      else none := by
  rw [httpParseLines_games 0 (Nat.zero_le _), newRows, List.map_nil, firstUnseen_nil, ← rowTexts,
    ← listedRows, List.length_nil, Nat.zero_add, List.nil_append]

/-- **What is published of a catalog.** -/
theorem httpParseCatalog_eq_some {buf : Text} (h : ¬Refused buf) :
    httpParseCatalog buf true = some ((listedRows buf).map httpGame) := by
  rw [Refused, not_or, not_or] at h
  obtain ⟨hnul, hroom, hsome⟩ := h
  have hgames := httpParseLines_splitLines buf
  rw [if_pos (Nat.le_of_not_lt hroom)] at hgames
  obtain ⟨⟨games, rejected⟩, hparse, rfl⟩ := Option.map_eq_some_iff.mp hgames
  rw [httpParseCatalog, if_neg hnul, if_neg (by decide), hparse, Option.bind_some]
  refine if_neg ?_
  rintro ⟨hrejected, hlen⟩
  rw [List.length_map, List.length_eq_zero_iff, listedRows, firstOf_eq_nil] at hlen
  rw [httpParseLines_rejected 0 hlen, Option.some_inj, Prod.mk.injEq, Nat.zero_add] at hparse
  refine hsome ⟨fun hnil => hrejected ?_, hlen⟩
  rw [← hparse.2, ← rowTexts, hnil, List.length_nil]

theorem httpParseCatalog_eq_none {buf : Text} (alloc : Bool) (h : Refused buf) :
    httpParseCatalog buf alloc = none := by
  rw [httpParseCatalog]
  by_cases hnul : nul ∈ buf
  · rw [if_pos hnul]
  rw [if_neg hnul]
  cases alloc with
  | false => rfl
  | true =>
    rw [if_neg (by decide)]
    obtain hn | hroom | ⟨hrows, hnone⟩ := h
    · exact absurd hn hnul
    · have hgames := httpParseLines_splitLines buf
      rw [if_neg (Nat.not_le_of_lt hroom), Option.map_eq_none_iff] at hgames
      rw [hgames, Option.bind_none]
    · rw [httpParseLines_rejected 0 hnone, Option.bind_some]
      refine if_pos ⟨?_, rfl⟩
      rw [Nat.zero_add, ← rowTexts]
      exact fun hlen => hrows (List.length_eq_zero_iff.mp hlen)

/-! ### Line ends -/

/-- The two ways to end a line. -/
inductive LineEnd
  | lf
  | crlf
  deriving DecidableEq

def LineEnd.text : LineEnd → Text
  | .lf => ['\n']
  | .crlf => ['\r', '\n']

/-- A catalog of the given lines; the last one may be ended or not. -/
def catalogText (e : LineEnd) (final : Bool) : List Text → Text
  | [] => if final then e.text else []
  | [line] => if final then line ++ e.text else line
  | line :: lines => line ++ e.text ++ catalogText e final lines

/-- A line: no line end is part of it. -/
def IsLine (line : Text) : Prop := '\n' ∉ line ∧ line.getLast? ≠ some '\r'

section LineEnds

variable {e : LineEnd} {final : Bool} {line : Text} {lines : List Text}

theorem stripCr_of_isLine (h : IsLine line) : stripCr line = line := if_neg h.2

theorem stripCr_concat (line : Text) : stripCr (line ++ ['\r']) = line := by
  rw [stripCr, if_pos (List.getLast?_concat ..), List.dropLast_concat]

/-- A line that is ended is the first line of the text. -/
theorem rowTexts_line (h : IsLine line) (rest : Text) :
    rowTexts (line ++ e.text ++ rest) =
      (httpCatalogSkipBlankOrComment line).toList ++ rowTexts rest := by
  have hcons : ∀ l, '\n' ∉ l → stripCr l = line →
      rowTexts (l ++ '\n' :: rest) =
        (httpCatalogSkipBlankOrComment line).toList ++ rowTexts rest := by
    intro l hl hstrip
    rw [rowTexts, splitLines_line hl, List.filterMap_cons, rowText, hstrip, ← rowTexts]
    cases httpCatalogSkipBlankOrComment line <;> rfl
  cases e with
  | lf =>
    rw [LineEnd.text, List.append_assoc, List.singleton_append]
    exact hcons line h.1 (stripCr_of_isLine h)
  | crlf =>
    have hcr : line ++ LineEnd.text .crlf ++ rest = (line ++ ['\r']) ++ '\n' :: rest := by
      simp [LineEnd.text]
    rw [hcr]
    refine hcons _ ?_ (stripCr_concat line)
    simp [h.1]

/-- A line at the end of the text. -/
theorem rowTexts_of_isLine (h : IsLine line) :
    rowTexts line = (httpCatalogSkipBlankOrComment line).toList := by
  cases line with
  | nil => rfl
  | cons c t =>
    have hsplit : ∀ l : Text, '\n' ∉ l → l ≠ [] → splitLines l = [l] := by
      intro l hl hne
      induction l with
      | nil => exact absurd rfl hne
      | cons c l ih =>
        rw [List.mem_cons, not_or] at hl
        rw [splitLines, if_neg (Ne.symm hl.1)]
        cases l with
        | nil => rfl
        | cons d l => rw [ih hl.2 (List.cons_ne_nil d l)]
    rw [rowTexts, hsplit _ h.1 (List.cons_ne_nil c t), List.filterMap_cons, rowText,
      stripCr_of_isLine h]
    cases httpCatalogSkipBlankOrComment (c :: t) <;> rfl

/-- The rows are those of the lines, whatever ends them. -/
theorem rowTexts_catalogText (h : ∀ line ∈ lines, IsLine line) :
    rowTexts (catalogText e final lines) = lines.filterMap httpCatalogSkipBlankOrComment := by
  induction lines with
  | nil =>
    rw [catalogText, List.filterMap_nil]
    cases final <;> cases e <;> rfl
  | cons line lines ih =>
    have hline := h line List.mem_cons_self
    have hrows : (httpCatalogSkipBlankOrComment line).toList ++
        lines.filterMap httpCatalogSkipBlankOrComment =
        (line :: lines).filterMap httpCatalogSkipBlankOrComment := by
      rw [List.filterMap_cons]
      cases httpCatalogSkipBlankOrComment line <;> rfl
    cases lines with
    | nil =>
      rw [← hrows, List.filterMap_nil, List.append_nil, catalogText]
      cases final with
      | false => exact rowTexts_of_isLine hline
      | true =>
        have hended := rowTexts_line (e := e) hline []
        rw [List.append_nil] at hended
        rw [if_pos rfl, hended]
        exact List.append_nil _
    | cons line' lines =>
      rw [← hrows, ← ih fun l hl => h l (List.mem_cons_of_mem line hl), catalogText]
      · exact rowTexts_line hline _
      · simp

theorem nul_mem_catalogText :
    nul ∈ catalogText e final lines ↔ ∃ line ∈ lines, nul ∈ line := by
  have hend : nul ∉ e.text := by cases e <;> decide
  induction lines with
  | nil => cases final <;> simp [catalogText, hend]
  | cons line lines ih =>
    cases lines with
    | nil => cases final <;> simp [catalogText, hend]
    | cons line' lines =>
      change nul ∈ line ++ e.text ++ catalogText e final (line' :: lines) ↔ _
      simp only [List.mem_append, hend, or_false, ih, List.exists_mem_cons_iff]

/-- **The line ends do not matter.** -/
theorem httpParseCatalog_catalogText (h : ∀ line ∈ lines, IsLine line) (e e' : LineEnd)
    (final final' alloc : Bool) :
    httpParseCatalog (catalogText e final lines) alloc =
      httpParseCatalog (catalogText e' final' lines) alloc := by
  have hrows : rowTexts (catalogText e final lines) = rowTexts (catalogText e' final' lines) := by
    rw [rowTexts_catalogText h, rowTexts_catalogText h]
  have hrefused : Refused (catalogText e final lines) ↔ Refused (catalogText e' final' lines) := by
    rw [Refused, Refused, nul_mem_catalogText, nul_mem_catalogText, listedRows, listedRows, hrows]
  by_cases hr : Refused (catalogText e final lines)
  · rw [httpParseCatalog_eq_none alloc hr, httpParseCatalog_eq_none alloc (hrefused.mp hr)]
  · cases alloc with
    | false =>
      rw [httpParseCatalog, httpParseCatalog]
      simp
    | true =>
      rw [httpParseCatalog_eq_some hr, httpParseCatalog_eq_some (hr ∘ hrefused.mpr), listedRows,
        listedRows, hrows]

end LineEnds

/-! ### The published list -/

/-- **A catalog is taken whole or not at all**, and what is published is safe to list and to
request. -/
theorem catalog_published (s : HttpList) (buf : Text) :
    (∀ alloc, Refused buf ∨ alloc = false → httpUpdateGameList s (some buf) alloc = s) ∧
    (¬Refused buf → httpUpdateGameList s (some buf) true =
      ⟨(listedRows buf).map httpGame, (listedRows buf).length⟩) ∧
    (∀ row ∈ listedRows buf, SafeRow row) ∧
    ∀ lines, (∀ line ∈ lines, IsLine line) → ∀ e e' final final' alloc,
      httpUpdateGameList s (some (catalogText e final lines)) alloc =
        httpUpdateGameList s (some (catalogText e' final' lines)) alloc := by
  refine ⟨?_, ?_, ?_, ?_⟩
  · rintro alloc (h | rfl)
    · rw [httpUpdateGameList, httpParseCatalog_eq_none alloc h]
    · have hnone : httpParseCatalog buf false = none := by
        rw [httpParseCatalog]
        simp
      rw [httpUpdateGameList, hnone]
  · intro h
    rw [httpUpdateGameList, httpParseCatalog_eq_some h]
    dsimp only
    rw [List.length_map]
  · intro row hrow
    exact safeRow_of_mem ((firstOf_sublist _ _).subset hrow)
  · intro lines hlines e e' final final' alloc
    rw [httpUpdateGameList, httpUpdateGameList,
      httpParseCatalog_catalogText hlines e e' final final' alloc]

end Catalog

end OpenPS2Loader
