import OpenPS2Loader.Lib.Bytes
import OpenPS2Loader.Lib.Scan
import OpenPS2Loader.Lib.Transition
import Mathlib.Data.List.DropRight

/-!
# Reading a cheat file

`parse_buf` goes through the text of a `.cht` file. It takes a line, which is cut at 255 characters,
cuts it at a comment and trims it. Sixteen hexadecimal digits are a code; what else is left of a
line is the name of the next cheat. The table of cheats is written only, so what a turn does to it
is a `Write`, and the table is what the writes leave.

Beside it stands what the file says: the codes of a heading are those behind it (`specStep`), and
every line is one line (`textLines`). A line that is nothing but blanks and a comment is a heading
to `parse_buf` (`Kind.ghost`).

## Main definitions

* `Cheats.scanLines`, `Cheats.parseStep`, `Cheats.parseBuf`
* `Cheats.textLines`, `Cheats.kind`, `Cheats.specStep` — what the file says
* `Cheats.LineOk` — what a line must not be, for the headings that stand before it

## Main results

* `Cheats.scanLines_eq_iff` — the lines of the scanner are those of the file
* `Cheats.logs_eq_iff` — the codes go where they belong
-/

namespace OpenPS2Loader

namespace Cheats

/-! ### Lines -/

/-- `MAX_CODES` -/
def maxCodes : ℕ := 250

/-- `MAX_CHEATLIST` -/
def maxCheatList : ℕ := 510

/-- `CHEAT_NAME_MAX` -/
def cheatNameMax : ℕ := 128

/-- `CODE_DIGITS` -/
def codeDigits : ℕ := 16

/-- `CHEAT_LINE_MAX` -/
def cheatLineMax : ℕ := 255

/-- The byte is not a line feed. -/
def notLf (c : UInt8) : Bool := c != 10

/-- The scanner of `parse_buf`. Each turn takes a byte at least, so there are no more turns than
bytes. -/
def scanLines : ℕ → List UInt8 → List (List UInt8)
  | 0, _ => []
  | fuel + 1, buf =>
    if buf = [] then
      []
    else
      let line := buf.takeWhile notLf
      let len := min line.length cheatLineMax
      let rest := if line.length < buf.length then buf.drop (len + 1) else buf.drop len
      buf.take len :: scanLines fuel rest

/-- The lines of a text. What stands behind the last line feed is a line if it is not empty. -/
def textLines : List UInt8 → List (List UInt8)
  | [] => []
  | c :: l =>
    if c = 10 then
      [] :: textLines l
    else
      match textLines l with
      | [] => [[c]]
      | m :: ms => (c :: m) :: ms

/-- The first line, and the lines behind it. -/
theorem textLines_eq {buf : List UInt8} (h : buf ≠ []) :
    textLines buf = buf.takeWhile notLf :: textLines ((buf.dropWhile notLf).drop 1) := by
  induction buf with
  | nil => exact absurd rfl h
  | cons c l ih =>
    by_cases hc : c = 10
    · rw [hc]
      rfl
    · have hne : notLf c = true := bne_iff_ne.mpr hc
      rw [textLines, if_neg hc, List.takeWhile_cons_of_pos hne, List.dropWhile_cons_of_pos hne]
      cases l with
      | nil => rfl
      | cons d l => rw [ih (List.cons_ne_nil d l)]

theorem dropWhile_eq_drop (buf : List UInt8) :
    buf.dropWhile notLf = buf.drop (buf.takeWhile notLf).length := by
  have hdrop : (buf.takeWhile notLf ++ buf.dropWhile notLf).drop (buf.takeWhile notLf).length =
      buf.dropWhile notLf := List.drop_left
  rw [List.takeWhile_append_dropWhile] at hdrop
  exact hdrop.symm

theorem length_takeWhile_le (buf : List UInt8) : (buf.takeWhile notLf).length ≤ buf.length :=
  (List.takeWhile_prefix _).length_le

theorem take_takeWhile {buf : List UInt8} {n : ℕ} (h : n ≤ (buf.takeWhile notLf).length) :
    buf.take n = (buf.takeWhile notLf).take n := by
  have happ := List.takeWhile_append_dropWhile (p := notLf) (l := buf)
  conv_lhs => rw [← happ]
  rw [List.take_append_of_le_length h]

/-- A turn of the scanner at a line that is not too long. -/
theorem scanLines_of_short {fuel : ℕ} {buf : List UInt8} (h : buf ≠ [])
    (hshort : (buf.takeWhile notLf).length ≤ cheatLineMax) :
    scanLines (fuel + 1) buf =
      buf.takeWhile notLf :: scanLines fuel ((buf.dropWhile notLf).drop 1) := by
  rw [scanLines, if_neg h]
  dsimp only
  rw [Nat.min_eq_left hshort, take_takeWhile le_rfl, List.take_length, dropWhile_eq_drop,
    List.drop_drop]
  split
  next => rfl
  next hall =>
    have hle := length_takeWhile_le buf
    rw [List.drop_eq_nil_of_le (by omega), List.drop_eq_nil_of_le (by omega)]

/-- A turn of the scanner at a line that is too long leaves the rest of it. -/
theorem scanLines_of_long (fuel : ℕ) {buf : List UInt8} (h : buf ≠ [])
    (hlong : cheatLineMax < (buf.takeWhile notLf).length) :
    ∃ rest piece, rest.length < buf.length ∧
      (textLines rest).length = (textLines buf).length ∧
      scanLines (fuel + 1) buf = piece :: scanLines fuel rest := by
  have hle := length_takeWhile_le buf
  -- what is left of the line has the lines behind it behind it
  have hrest : ∀ n ≤ (buf.takeWhile notLf).length, buf.drop n ≠ [] →
      (textLines (buf.drop n)).length = (textLines buf).length := by
    intro n hn hne
    have happ := List.takeWhile_append_dropWhile (p := notLf) (l := buf)
    have hdrop : buf.drop n = (buf.takeWhile notLf).drop n ++ buf.dropWhile notLf := by
      conv_lhs => rw [← happ]
      rw [List.drop_append_of_le_length hn]
    have hall : ∀ c ∈ (buf.takeWhile notLf).drop n, notLf c = true := by
      intro c hc
      exact List.all_eq_true.mp List.all_takeWhile c (List.mem_of_mem_drop hc)
    have hstop : (buf.dropWhile notLf).takeWhile notLf = [] := by
      cases hd : buf.dropWhile notLf with
      | nil => rfl
      | cons c l =>
        have hc : ¬notLf c = true := by
          have hne' : buf.dropWhile notLf ≠ [] := by
            rw [hd]
            exact List.cons_ne_nil _ _
          have hhead := List.head_dropWhile_not notLf hne'
          simp only [hd, List.head_cons] at hhead
          rw [hhead]
          decide
        rw [List.takeWhile_cons_of_neg hc]
    have htake : (buf.drop n).takeWhile notLf = (buf.takeWhile notLf).drop n := by
      rw [hdrop, List.takeWhile_append_of_pos hall, hstop, List.append_nil]
    have hafter : (buf.drop n).dropWhile notLf = buf.dropWhile notLf := by
      rw [dropWhile_eq_drop, htake, List.drop_drop, List.length_drop, dropWhile_eq_drop]
      congr 1
      omega
    rw [textLines_eq hne, textLines_eq h, hafter, List.length_cons, List.length_cons]
  rw [scanLines, if_neg h]
  dsimp only
  rw [Nat.min_eq_right hlong.le]
  split
  next hlt =>
    refine ⟨_, _, ?_, hrest _ (by omega) ?_, rfl⟩
    · rw [List.length_drop]
      omega
    · rw [ne_eq, List.drop_eq_nil_iff]
      omega
  next =>
    refine ⟨_, _, ?_, hrest _ (by omega) ?_, rfl⟩
    · rw [List.length_drop, cheatLineMax]
      omega
    · rw [ne_eq, List.drop_eq_nil_iff]
      omega

theorem length_drop_dropWhile_lt {buf : List UInt8} (h : buf ≠ []) :
    ((buf.dropWhile notLf).drop 1).length < buf.length := by
  have hpos := List.length_pos_iff.mpr h
  rw [dropWhile_eq_drop, List.drop_drop, List.length_drop]
  omega

/-- There are at least as many turns as lines, and more if a line is too long. -/
theorem length_textLines_le {fuel : ℕ} {buf : List UInt8} (hfuel : buf.length ≤ fuel) :
    (textLines buf).length ≤ (scanLines fuel buf).length ∧
      ((∃ line ∈ textLines buf, cheatLineMax < line.length) →
        (textLines buf).length < (scanLines fuel buf).length) := by
  induction fuel generalizing buf with
  | zero =>
    rw [List.eq_nil_of_length_eq_zero (Nat.le_zero.mp hfuel)]
    exact ⟨le_rfl, fun ⟨line, hline, _⟩ => absurd hline List.not_mem_nil⟩
  | succ fuel ih =>
    by_cases hnil : buf = []
    · rw [hnil]
      exact ⟨le_rfl, fun ⟨line, hline, _⟩ => absurd hline List.not_mem_nil⟩
    by_cases hlong : cheatLineMax < (buf.takeWhile notLf).length
    · obtain ⟨rest, piece, hlt, hlen, hscan⟩ := scanLines_of_long fuel hnil hlong
      have hrest := (ih (by omega : rest.length ≤ fuel)).1
      rw [hscan, List.length_cons]
      exact ⟨by omega, fun _ => by omega⟩
    · have hlt := length_drop_dropWhile_lt hnil
      obtain ⟨hle, hstrict⟩ := ih (by omega : ((buf.dropWhile notLf).drop 1).length ≤ fuel)
      rw [scanLines_of_short hnil (by omega), textLines_eq hnil, List.length_cons, List.length_cons]
      refine ⟨by omega, fun ⟨line, hline, hlen⟩ => ?_⟩
      obtain rfl | hline := List.mem_cons.mp hline
      · exact absurd hlen hlong
      · have := hstrict ⟨line, hline, hlen⟩
        omega

/-- **The lines of the scanner** are the lines of the text, cut to the size of its buffer, exactly
when no line is too long. -/
theorem scanLines_eq_iff {fuel : ℕ} {buf : List UInt8} (hfuel : buf.length ≤ fuel) :
    scanLines fuel buf = (textLines buf).map (List.take cheatLineMax) ↔
      ∀ line ∈ textLines buf, line.length ≤ cheatLineMax := by
  constructor
  · intro h line hline
    by_contra hlong
    have hlt := (length_textLines_le hfuel).2 ⟨line, hline, by omega⟩
    rw [h, List.length_map] at hlt
    exact lt_irrefl _ hlt
  · intro h
    have hmap : (textLines buf).map (List.take cheatLineMax) = textLines buf := by
      have hid : ∀ line ∈ textLines buf, line.take cheatLineMax = line := by
        intro line hline
        exact List.take_of_length_le (h line hline)
      rw [List.map_congr_left hid, List.map_id']
    rw [hmap]
    clear hmap
    induction fuel generalizing buf with
    | zero =>
      rw [List.eq_nil_of_length_eq_zero (Nat.le_zero.mp hfuel)]
      rfl
    | succ fuel ih =>
      by_cases hnil : buf = []
      · rw [hnil]
        rfl
      have hlines := textLines_eq hnil
      have hfirst : (buf.takeWhile notLf).length ≤ cheatLineMax := by
        refine h _ ?_
        rw [hlines]
        exact List.mem_cons_self
      have hlt := length_drop_dropWhile_lt hnil
      rw [scanLines_of_short hnil hfirst, hlines, ih (by omega) fun line hline => ?_]
      refine h line ?_
      rw [hlines]
      exact List.mem_cons_of_mem _ hline

/-! ### What a line is -/

/-- `isgraph` -/
def isGraph (c : UInt8) : Bool := 33 ≤ c && c ≤ 126

/-- `isxdigit` -/
def isXDigit (c : UInt8) : Bool :=
  (48 ≤ c && c ≤ 57) || (65 ≤ c && c ≤ 70) || (97 ≤ c && c ≤ 102)

/-- The value of a hexadecimal digit. -/
def xdigitValue (c : UInt8) : ℕ :=
  if c ≤ 57 then c.toNat - 48 else if c ≤ 70 then c.toNat - 55 else c.toNat - 87

/-- What `%08X` makes of hexadecimal digits. -/
def hexValue (l : List UInt8) : UInt32 :=
  UInt32.ofNat (l.foldl (fun n c => 16 * n + xdigitValue c) 0)

/-- `code_t` -/
structure Code where
  addr : UInt32
  val : UInt32
  deriving DecidableEq

/-- The code with nothing but zeros. -/
def Code.zero : Code := ⟨0, 0⟩

/-- `make_code`. With eight digits or less `sscanf` does not find two numbers. -/
def makeCode (s : List UInt8) : Code :=
  let digits := (s.filter isXDigit).take codeDigits
  if digits.length ≤ 8 then .zero else ⟨hexValue (digits.take 8), hexValue (digits.drop 8)⟩

/-- `is_cheat_code` -/
def isCheatCode (s : List UInt8) : Bool :=
  s.all (fun c => isXDigit c || Scan.isSpace c) && (s.filter isXDigit).length == codeDigits

/-- `parse_line` -/
def parseLine (line : List UInt8) : Code := if isCheatCode line then makeCode line else .zero

/-- `is_cmt_str` -/
def isCmtStr (s : List UInt8) : Bool := s.take 2 == [47, 47] || s.head? == some 35

/-- `term_str` with `is_cmt_str`: the line in front of a comment. -/
def termStr : List UInt8 → List UInt8
  | [] => []
  | c :: l => if isCmtStr (c :: l) then [] else c :: termStr l

/-- `trim_str`, which leaves a string without a printable character as it is. -/
def trimStr (s : List UInt8) : List UInt8 :=
  if s.any isGraph then (s.dropWhile Scan.isSpace).rdropWhile Scan.isSpace else s

/-! ### The parser -/

/-- What a turn does to the table: a new cheat with its name, and a code with its place. -/
structure Write where
  cheat : Option (ℕ × List UInt8)
  code : Option (ℕ × ℕ × Code)

/-- Nothing. -/
def Write.skip : Write := ⟨none, none⟩

/-- The variables of `parse_buf`. `cheats` is `cheat_index + 1`. -/
structure ParseState where
  tempName : List UInt8
  cheats : ℕ
  codeIndex : ℕ

/-- The variables at the start. -/
def ParseState.init : ParseState := ⟨[], 0, 0⟩

/-- A code of a line: it starts a cheat when there is a name for it and room in the table. -/
def addCode (t : ParseState) (c : Code) : ParseState × Write :=
  let new := decide (t.cheats < maxCodes) && !t.tempName.isEmpty
  let cheat := if new then some (t.cheats, t.tempName) else none
  let t := if new then { t with tempName := [], cheats := t.cheats + 1 } else t
  if 0 < t.cheats ∧ t.codeIndex < maxCheatList then
    ({ t with codeIndex := t.codeIndex + 1 }, ⟨cheat, some (t.cheats - 1, t.codeIndex, c)⟩)
  else
    (t, ⟨cheat, none⟩)

/-- A turn of `parse_buf`, with the part of the buffer that the scanner took. -/
def parseStep (t : ParseState) (piece : List UInt8) : ParseState × Write :=
  if piece.any isGraph then
    let line := trimStr (termStr piece)
    if !isCheatCode line && !line.isEmpty then
      ({ t with tempName := line.take cheatNameMax, codeIndex := 0 }, .skip)
    else
      let code := parseLine line
      if code = .zero then (t, .skip) else addCode t code
  else
    (t, .skip)

/-- The turns of `parse_buf`: what each of them does to the table. -/
def parseLog (t : ParseState) : List (List UInt8) → List Write
  | [] => []
  | piece :: pieces => (parseStep t piece).2 :: parseLog (parseStep t piece).1 pieces

/-- `parse_buf` of a buffer that ends with its first zero. -/
def parseBuf (buf : List UInt8) : List Write :=
  parseLog .init (scanLines (Bytes.cstr buf).length (Bytes.cstr buf))

/-! ### What the file says -/

/-- The kinds of lines. A `ghost` has blanks and a comment only. -/
inductive Kind
  | blank
  | ghost
  | heading
  | code (c : Code)
  deriving DecidableEq

/-- The kind of a line. -/
def kind (line : List UInt8) : Kind :=
  let body := termStr line
  if body.any isGraph then
    if isCheatCode body then .code (makeCode body) else .heading
  else if body ≠ line ∧ body ≠ [] then
    .ghost
  else
    .blank

/-- What the lines up to here say. -/
structure Spec where
  /-- The codes of the cheats, the last one first. -/
  cheats : List (List Code)
  /-- The last heading has no code yet. -/
  pending : Bool
  /-- A ghost stands behind the last heading or code. -/
  ghost : Bool

/-- Before the first line. -/
def Spec.init : Spec := ⟨[], false, false⟩

/-- The next line: a code belongs to the last heading. -/
def specStep (s : Spec) : Kind → Spec
  | .blank => s
  | .ghost => { s with ghost := true }
  | .heading => { s with pending := true, ghost := false }
  | .code c =>
    let ghost := s.ghost && decide (c = .zero)
    if s.pending then
      ⟨[c] :: s.cheats, false, ghost⟩
    else
      match s.cheats with
      | [] => ⟨[], false, s.ghost⟩
      | cheat :: cheats => ⟨(cheat ++ [c]) :: cheats, false, ghost⟩

/-- The place of a code in the table, which has room for `MAX_CODES` cheats of `MAX_CHEATLIST`
codes. -/
def place (cheat index : ℕ) (c : Code) : Option (ℕ × ℕ × Code) :=
  if cheat < maxCodes ∧ index < maxCheatList then some (cheat, index, c) else none

/-- Where the code of the next line belongs. -/
def specPlace (s : Spec) : Kind → Option (ℕ × ℕ × Code)
  | .blank => none
  | .ghost => none
  | .heading => none
  | .code c =>
    if s.pending then
      place s.cheats.length 0 c
    else
      match s.cheats with
      | [] => none
      | cheat :: cheats => place cheats.length cheat.length c

/-- The places of the codes, line by line. -/
def specLog (s : Spec) : List Kind → List (Option (ℕ × ℕ × Code))
  | [] => []
  | k :: ks => specPlace s k :: specLog (specStep s k) ks

/-- The cheats of a file, with their codes. -/
def cheatsOf (kinds : List Kind) : List (List Code) := (kinds.foldl specStep .init).cheats.reverse

/-! ### The kind of a line in the parser -/

section Trim

variable {α : Type*} {p q : α → Bool}

theorem filter_dropWhile (h : ∀ a, p a = true → q a = false) (l : List α) :
    (l.dropWhile p).filter q = l.filter q := by
  induction l with
  | nil => rfl
  | cons a l ih =>
    by_cases ha : p a = true
    · rw [List.dropWhile_cons_of_pos ha, ih, List.filter_cons_of_neg (by rw [h a ha]; decide)]
    · rw [List.dropWhile_cons_of_neg ha]

theorem filter_rdropWhile (h : ∀ a, p a = true → q a = false) (l : List α) :
    (l.rdropWhile p).filter q = l.filter q := by
  rw [List.rdropWhile, List.filter_reverse, filter_dropWhile h, ← List.filter_reverse,
    List.reverse_reverse]

theorem all_eq_true_iff_filter_not (l : List α) :
    l.all q = true ↔ l.filter (fun a => !q a) = [] := by
  rw [List.all_eq_true, List.filter_eq_nil_iff]
  exact forall₂_congr fun a _ => by rw [Bool.not_eq_true', Bool.not_eq_false]

end Trim

theorem isXDigit_of_isSpace (c : UInt8) (h : Scan.isSpace c = true) : isXDigit c = false := by
  grind [Scan.isSpace, isXDigit]

theorem isGraph_of_isXDigit (c : UInt8) (h : isXDigit c = true) : isGraph c = true := by
  grind [isXDigit, isGraph]

theorem isGraph_of_isSpace (c : UInt8) (h : Scan.isSpace c = true) : isGraph c = false := by
  grind [Scan.isSpace, isGraph]

/-- Trimming keeps what `is_cheat_code` and `make_code` look at. -/
theorem filter_trimStr {q : UInt8 → Bool} (h : ∀ c, Scan.isSpace c = true → q c = false)
    (s : List UInt8) : (trimStr s).filter q = s.filter q := by
  rw [trimStr]
  split
  next => rw [filter_rdropWhile h, filter_dropWhile h]
  next => rfl

theorem isCheatCode_trimStr (s : List UInt8) : isCheatCode (trimStr s) = isCheatCode s := by
  have hall : (trimStr s).all (fun c => isXDigit c || Scan.isSpace c) =
      s.all fun c => isXDigit c || Scan.isSpace c := by
    rw [Bool.eq_iff_iff, all_eq_true_iff_filter_not, all_eq_true_iff_filter_not, filter_trimStr]
    intro c hc
    rw [hc, Bool.or_true, Bool.not_true]
  rw [isCheatCode, isCheatCode, hall, filter_trimStr isXDigit_of_isSpace]

theorem makeCode_trimStr (s : List UInt8) : makeCode (trimStr s) = makeCode s := by
  rw [makeCode, makeCode, filter_trimStr isXDigit_of_isSpace]

theorem trimStr_ne_nil {s : List UInt8} (h : s.any isGraph = true) : trimStr s ≠ [] := by
  intro hnil
  obtain ⟨c, hc, hgraph⟩ := List.any_eq_true.mp h
  have hmem : c ∈ (trimStr s).filter isGraph := by
    rw [filter_trimStr isGraph_of_isSpace]
    exact List.mem_filter.mpr ⟨hc, hgraph⟩
  rw [hnil] at hmem
  cases hmem

/-- A line that is cut has the sign of a comment. -/
theorem any_isGraph_of_termStr {line : List UInt8} (h : termStr line ≠ line) :
    line.any isGraph = true := by
  induction line with
  | nil => exact absurd rfl h
  | cons c l ih =>
    rw [termStr] at h
    split at h
    next hcmt =>
      have hc : c = 47 ∨ c = 35 := by
        rw [isCmtStr, Bool.or_eq_true, beq_iff_eq, beq_iff_eq] at hcmt
        obtain htake | hhead := hcmt
        · cases l with
          | nil => cases htake
          | cons d l => exact .inl (List.cons.inj htake).1
        · exact .inr (Option.some.inj hhead)
      obtain rfl | rfl := hc
      · rfl
      · rfl
    next =>
      rw [List.any_cons, ih fun heq => h (by rw [heq]), Bool.or_true]

theorem any_isGraph_of_body {line : List UInt8} (h : (termStr line).any isGraph = true) :
    line.any isGraph = true := by
  by_cases heq : termStr line = line
  · rwa [heq] at h
  · exact any_isGraph_of_termStr heq

theorem isCheatCode_of_not_any {s : List UInt8} (h : s.any isGraph = false) :
    isCheatCode s = false := by
  have hnil : s.filter isXDigit = [] := by
    refine List.filter_eq_nil_iff.mpr fun c hc hx => ?_
    exact List.any_eq_false.mp h c hc (isGraph_of_isXDigit c hx)
  rw [isCheatCode, hnil, List.length_nil, codeDigits]
  exact Bool.and_false _

/-- **A turn by the kind of its line.** -/
theorem parseStep_eq (t : ParseState) (piece : List UInt8) :
    match kind piece with
    | .blank => parseStep t piece = (t, .skip)
    | .ghost => ∃ name, name ≠ [] ∧
        parseStep t piece = ({ t with tempName := name, codeIndex := 0 }, .skip)
    | .heading => ∃ name, name ≠ [] ∧
        parseStep t piece = ({ t with tempName := name, codeIndex := 0 }, .skip)
    | .code c => parseStep t piece = if c = .zero then (t, .skip) else addCode t c := by
  have htake : ∀ {line : List UInt8}, line ≠ [] → line.take cheatNameMax ≠ [] := by
    intro line hne
    cases line with
    | nil => exact absurd rfl hne
    | cons c l => exact List.cons_ne_nil _ _
  rw [kind]
  by_cases hgraph : (termStr piece).any isGraph = true
  · have hne := trimStr_ne_nil hgraph
    have hempty : (trimStr (termStr piece)).isEmpty = false := by
      rwa [Bool.eq_false_iff, ne_eq, List.isEmpty_iff]
    rw [if_pos hgraph]
    by_cases hcode : isCheatCode (termStr piece) = true
    · rw [if_pos hcode]
      dsimp only
      rw [parseStep, if_pos (any_isGraph_of_body hgraph)]
      dsimp only
      rw [isCheatCode_trimStr, hcode, parseLine, isCheatCode_trimStr, if_pos hcode,
        makeCode_trimStr]
      rfl
    · rw [Bool.not_eq_true] at hcode
      rw [if_neg (by rw [hcode]; decide)]
      refine ⟨_, htake hne, ?_⟩
      rw [parseStep, if_pos (any_isGraph_of_body hgraph)]
      dsimp only
      rw [isCheatCode_trimStr, hcode, hempty]
      rfl
  · rw [Bool.not_eq_true] at hgraph
    have htrim : trimStr (termStr piece) = termStr piece := by
      rw [trimStr, if_neg (by rw [hgraph]; decide)]
    have hcode := isCheatCode_of_not_any hgraph
    rw [if_neg (by rw [hgraph]; decide)]
    by_cases hghost : termStr piece ≠ piece ∧ termStr piece ≠ []
    · rw [if_pos hghost]
      refine ⟨_, htake hghost.2, ?_⟩
      have hempty : (termStr piece).isEmpty = false := by
        rw [Bool.eq_false_iff, ne_eq, List.isEmpty_iff]
        exact hghost.2
      rw [parseStep, if_pos (any_isGraph_of_termStr hghost.1)]
      dsimp only
      rw [htrim, hcode, hempty]
      rfl
    · rw [if_neg hghost]
      dsimp only
      rw [parseStep]
      split
      next hany =>
        -- a comment at the start of the line leaves nothing
        have hne : termStr piece ≠ piece := by
          intro heq
          rw [heq, hany] at hgraph
          cases hgraph
        have hnil : termStr piece = [] := by
          by_contra hne'
          exact hghost ⟨hne, hne'⟩
        rw [hnil]
        rfl
      next => rfl

/-! ### The codes go where they belong -/

/-- What a line must not be: a code behind a ghost, unless there is a heading for it, a code of
zeros that belongs to a cheat, or any other code behind too many headings. -/
def LineOk (s : Spec) : Kind → Prop
  | .blank => True
  | .ghost => True
  | .heading => True
  | .code c =>
    if s.pending then
      if s.cheats.length < maxCodes then c ≠ .zero else c = .zero
    else
      match s.cheats with
      | [] => c = .zero ∨ s.ghost = false
      | cheat :: cheats =>
        if cheats.length < maxCodes then
          c ≠ .zero ∧ s.ghost = false ∨ c = .zero ∧ maxCheatList ≤ cheat.length
        else
          c = .zero

/-- The variables of the parser for what the lines say, as long as the table has room; -/
structure Within (s : Spec) (t : ParseState) : Prop where
  room : s.cheats.length ≤ maxCodes
  cheats : t.cheats = s.cheats.length
  named : t.tempName ≠ [] ↔ s.pending = true ∨ s.ghost = true
  index : t.codeIndex =
    if s.pending = true ∨ s.ghost = true then 0 else min (s.cheats.headD []).length maxCheatList
  codes : ∀ cheat ∈ s.cheats, cheat ≠ []

/-- and when there are too many headings. -/
structure Beyond (s : Spec) (t : ParseState) : Prop where
  full : maxCodes < s.cheats.length
  cheats : t.cheats = maxCodes
  index : t.codeIndex = 0

/-- The parser and the lines so far. -/
def Agree (s : Spec) (t : ParseState) : Prop := Within s t ∨ Beyond s t

/-- What `addCode` stores when it starts a cheat, -/
theorem addCode_new {t : ParseState} (c : Code) (hroom : t.cheats < maxCodes)
    (hname : t.tempName ≠ []) (hindex : t.codeIndex = 0) :
    addCode t c =
      (⟨[], t.cheats + 1, 1⟩, ⟨some (t.cheats, t.tempName), some (t.cheats, 0, c)⟩) := by
  have hempty : t.tempName.isEmpty = false := by
    rwa [Bool.eq_false_iff, ne_eq, List.isEmpty_iff]
  have hnew : (decide (t.cheats < maxCodes) && !t.tempName.isEmpty) = true := by
    rw [hempty, decide_eq_true hroom]
    rfl
  rw [addCode, hnew]
  simp [hindex, maxCheatList]

/-- and when it does not. -/
theorem addCode_old {t : ParseState} (c : Code) (h : ¬(t.cheats < maxCodes ∧ t.tempName ≠ [])) :
    addCode t c =
      if 0 < t.cheats ∧ t.codeIndex < maxCheatList then
        ({ t with codeIndex := t.codeIndex + 1 }, ⟨none, some (t.cheats - 1, t.codeIndex, c)⟩)
      else
        (t, ⟨none, none⟩) := by
  have hnew : (decide (t.cheats < maxCodes) && !t.tempName.isEmpty) = false := by
    by_contra htrue
    rw [Bool.not_eq_false, Bool.and_eq_true, decide_eq_true_eq, Bool.not_eq_true',
      Bool.eq_false_iff, ne_eq, List.isEmpty_iff] at htrue
    exact h htrue
  rw [addCode, hnew]
  rfl

theorem place_zero_eq_none_iff {i j : ℕ} :
    place i j .zero = none ↔ ¬(i < maxCodes ∧ j < maxCheatList) := by
  rw [place]
  split
  next hlt => exact iff_of_false (Option.some_ne_none _) fun h => h hlt
  next hlt => exact ⟨fun _ => hlt, fun _ => rfl⟩

theorem zero_agree_pending {cheats : List (List Code)} {ghost : Bool} {t : ParseState}
    (h : Agree ⟨cheats, true, ghost⟩ t) :
    (specPlace ⟨cheats, true, ghost⟩ (.code .zero) = none ↔
      LineOk ⟨cheats, true, ghost⟩ (.code .zero)) ∧
      (LineOk ⟨cheats, true, ghost⟩ (.code .zero) →
        Agree (specStep ⟨cheats, true, ghost⟩ (.code .zero)) t) := by
  simp only [specPlace, LineOk, specStep, if_true, place_zero_eq_none_iff]
  by_cases hroom : cheats.length < maxCodes
  · rw [if_pos hroom]
    refine ⟨⟨fun hno => absurd ⟨hroom, by decide⟩ hno, fun hno => absurd rfl hno⟩, ?_⟩
    intro hno
    exact absurd rfl hno
  · rw [if_neg hroom]
    refine ⟨iff_of_true (fun hlt => hroom hlt.1) trivial, fun _ => .inr ?_⟩
    obtain hw | hb := h
    · have hlen : cheats.length = maxCodes := by
        have := hw.room
        dsimp only at this
        omega
      exact ⟨by simp only [List.length_cons]; omega, hw.cheats.trans hlen,
        by simpa using hw.index⟩
    · exact ⟨by have := hb.full; simp only [List.length_cons] at this ⊢; omega, hb.cheats,
        hb.index⟩

theorem zero_agree_cons {cheat : List Code} {cheats : List (List Code)} {ghost : Bool}
    {t : ParseState} (h : Agree ⟨cheat :: cheats, false, ghost⟩ t) :
    (specPlace ⟨cheat :: cheats, false, ghost⟩ (.code .zero) = none ↔
      LineOk ⟨cheat :: cheats, false, ghost⟩ (.code .zero)) ∧
      (LineOk ⟨cheat :: cheats, false, ghost⟩ (.code .zero) →
        Agree (specStep ⟨cheat :: cheats, false, ghost⟩ (.code .zero)) t) := by
  simp only [specPlace, LineOk, specStep, Bool.false_eq_true, if_false, place_zero_eq_none_iff,
    decide_true, Bool.and_true]
  by_cases hroom : cheats.length < maxCodes
  · rw [if_pos hroom]
    refine ⟨⟨fun hno => .inr ⟨trivial, Nat.le_of_not_lt fun hlt => hno ⟨hroom, hlt⟩⟩, ?_⟩, ?_⟩
    · rintro (⟨hno, -⟩ | ⟨-, hle⟩) ⟨-, hlt⟩
      · exact hno rfl
      · omega
    · rintro (⟨hno, -⟩ | ⟨-, hle⟩)
      · exact absurd rfl hno
      · obtain hw | hb := h
        · refine .inl ⟨hw.room, hw.cheats, hw.named, ?_, ?_⟩
          · have hindex := hw.index
            simp only [Bool.false_eq_true, false_or, List.headD_cons, List.length_append,
              List.length_singleton] at hindex ⊢
            rw [Nat.min_eq_right hle] at hindex
            rw [Nat.min_eq_right (by omega)]
            exact hindex
          · intro c hc
            obtain rfl | hc := List.mem_cons.mp hc
            · exact List.append_ne_nil_of_right_ne_nil _ (List.cons_ne_nil _ _)
            · exact hw.codes c (List.mem_cons_of_mem _ hc)
        · exact .inr ⟨hb.full, hb.cheats, hb.index⟩
  · rw [if_neg hroom]
    refine ⟨iff_of_true (fun hlt => hroom hlt.1) trivial, fun _ => ?_⟩
    obtain hw | hb := h
    · have := hw.room
      simp only [List.length_cons] at this
      omega
    · exact .inr ⟨hb.full, hb.cheats, hb.index⟩

/-- A line of zeros stores nothing. -/
theorem zero_agree {s : Spec} {t : ParseState} (h : Agree s t) :
    (specPlace s (.code .zero) = none ↔ LineOk s (.code .zero)) ∧
      (LineOk s (.code .zero) → Agree (specStep s (.code .zero)) t) := by
  obtain ⟨cheats, pending, ghost⟩ := s
  cases pending with
  | true => exact zero_agree_pending h
  | false =>
    cases cheats with
    | nil =>
      simp only [specPlace, LineOk, specStep, Bool.false_eq_true, if_false, true_or, true_and]
      exact fun _ => h
    | cons cheat cheats => exact zero_agree_cons h

section Code

variable {cheats : List (List Code)} {name : List UInt8} {index : ℕ} {ghost : Bool} {c : Code}

/-- The code of a line is stored where it belongs exactly if the line may follow, and then the
parser agrees with the lines up to it. -/
def CodeAgrees (s : Spec) (t : ParseState) (c : Code) : Prop :=
  ((addCode t c).2.code = specPlace s (.code c) ↔ LineOk s (.code c)) ∧
    (LineOk s (.code c) → Agree (specStep s (.code c)) (addCode t c).1)

/-- The first code behind a heading. -/
theorem code_agree_pending (hc : c ≠ .zero)
    (h : Within ⟨cheats, true, ghost⟩ ⟨name, cheats.length, index⟩) :
    CodeAgrees ⟨cheats, true, ghost⟩ ⟨name, cheats.length, index⟩ c := by
  obtain ⟨-, -, hnamed, hindex, hcodes⟩ := h
  have hdec : decide (c = .zero) = false := decide_eq_false hc
  simp only [true_or, iff_true, if_true] at hnamed hindex hcodes
  subst hindex
  simp only [CodeAgrees, specPlace, LineOk, specStep, if_true, hdec, Bool.and_false]
  by_cases hlt : cheats.length < maxCodes
  · rw [addCode_new c hlt hnamed rfl, if_pos hlt, place, if_pos ⟨hlt, by decide⟩]
    refine ⟨iff_of_true rfl hc, fun _ => .inl ⟨hlt, rfl, by simp, rfl, ?_⟩⟩
    intro cheat hcheat
    obtain rfl | hcheat := List.mem_cons.mp hcheat
    · exact List.cons_ne_nil _ _
    · exact hcodes cheat hcheat
  · have hfull : 0 < cheats.length := by
      rw [maxCodes] at hlt
      omega
    rw [addCode_old c fun hno => hlt hno.1, if_pos ⟨hfull, (by decide : 0 < maxCheatList)⟩,
      if_neg hlt, place, if_neg fun hno => hlt hno.1]
    exact ⟨iff_of_false (by simp) hc, fun hno => absurd hno hc⟩

/-- A code before the first heading. -/
theorem code_agree_nil (hc : c ≠ .zero) (h : Within ⟨[], false, ghost⟩ ⟨name, 0, index⟩) :
    CodeAgrees ⟨[], false, ghost⟩ ⟨name, 0, index⟩ c := by
  obtain ⟨hroom, -, hnamed, hindex, hcodes⟩ := h
  simp only [CodeAgrees, specPlace, LineOk, specStep, Bool.false_eq_true, if_false, false_or]
    at hnamed hindex ⊢
  cases ghost with
  | true =>
    simp only [iff_true, if_true] at hnamed hindex
    subst hindex
    have hbad : ¬(c = .zero ∨ true = false) := by
      rintro (hno | hno)
      · exact hc hno
      · cases hno
    rw [addCode_new c (Nat.succ_pos _ : 0 < maxCodes) hnamed rfl]
    exact ⟨iff_of_false (by simp) hbad, fun hno => absurd hno hbad⟩
  | false =>
    have hold : ¬((0 : ℕ) < maxCodes ∧ name ≠ []) := by
      rw [hnamed]
      simp
    rw [addCode_old c hold, if_neg (by simp)]
    exact ⟨iff_of_true rfl (.inr rfl), fun _ => .inl ⟨hroom, rfl, by simpa using hnamed,
      by simpa using hindex, hcodes⟩⟩

/-- A code behind a ghost starts at the first place of the cheat or of a new one. -/
theorem code_agree_ghost {cheat : List Code} (hc : c ≠ .zero)
    (h : Within ⟨cheat :: cheats, false, true⟩ ⟨name, cheats.length + 1, index⟩) :
    CodeAgrees ⟨cheat :: cheats, false, true⟩ ⟨name, cheats.length + 1, index⟩ c := by
  obtain ⟨hroom, -, hnamed, hindex, hcodes⟩ := h
  simp only [List.length_cons] at hroom
  simp only [or_true, iff_true, if_true] at hnamed hindex
  subst hindex
  have hpos : 0 < cheat.length := List.length_pos_iff.mpr (hcodes cheat List.mem_cons_self)
  have hcode : (addCode ⟨name, cheats.length + 1, 0⟩ c).2.code =
      some (if cheats.length + 1 < maxCodes then cheats.length + 1 else cheats.length, 0, c) := by
    by_cases hnew : cheats.length + 1 < maxCodes
    · rw [addCode_new c hnew hnamed rfl, if_pos hnew]
    · rw [addCode_old c fun hno => hnew hno.1,
        if_pos ⟨Nat.succ_pos _, (by decide : 0 < maxCheatList)⟩, if_neg hnew]
      rfl
  simp only [CodeAgrees, specPlace, LineOk, Bool.false_eq_true, if_false]
  rw [if_pos (by omega : cheats.length < maxCodes)]
  refine ⟨iff_of_false ?_ (by simp [hc]), fun hno => absurd hno (by simp [hc])⟩
  rw [hcode, place]
  by_cases hfits : cheats.length < maxCodes ∧ cheat.length < maxCheatList
  · rw [if_pos hfits]
    intro heq
    have hindex := congrArg (fun x => x.2.1) (Option.some.inj heq)
    dsimp only at hindex
    omega
  · rw [if_neg hfits]
    exact Option.some_ne_none _

/-- A code behind a code of its cheat. -/
theorem code_agree_next {cheat : List Code} (hc : c ≠ .zero)
    (h : Within ⟨cheat :: cheats, false, false⟩ ⟨name, cheats.length + 1, index⟩) :
    CodeAgrees ⟨cheat :: cheats, false, false⟩ ⟨name, cheats.length + 1, index⟩ c := by
  obtain ⟨hroom, -, hnamed, hindex, hcodes⟩ := h
  have hdec : decide (c = .zero) = false := decide_eq_false hc
  have hlt : cheats.length < maxCodes := by
    rw [List.length_cons] at hroom
    omega
  simp only [Bool.false_eq_true, or_self, if_false, List.headD_cons] at hnamed hindex
  subst hindex
  have hold : ¬(cheats.length + 1 < maxCodes ∧ name ≠ []) := by
    rw [hnamed]
    simp
  have hstate : ∀ i, i = min (cheat.length + 1) maxCheatList →
      Within ⟨(cheat ++ [c]) :: cheats, false, false⟩ ⟨name, cheats.length + 1, i⟩ := by
    rintro i rfl
    refine ⟨hroom, rfl, by simpa using hnamed, by simp, ?_⟩
    intro x hx
    obtain rfl | hx := List.mem_cons.mp hx
    · exact List.append_ne_nil_of_right_ne_nil _ (List.cons_ne_nil _ _)
    · exact hcodes x (List.mem_cons_of_mem _ hx)
  simp only [CodeAgrees, specPlace, LineOk, specStep, Bool.false_eq_true, if_false, hdec,
    Bool.and_false]
  rw [if_pos hlt, addCode_old c hold, place]
  by_cases hindex : cheat.length < maxCheatList
  · rw [Nat.min_eq_left hindex.le, if_pos ⟨Nat.succ_pos _, hindex⟩, if_pos ⟨hlt, hindex⟩]
    refine ⟨iff_of_true rfl (.inl ⟨hc, trivial⟩), fun _ => .inl (hstate _ ?_)⟩
    dsimp only
    omega
  · rw [Nat.min_eq_right (by omega), if_neg (by simp), if_neg (by simp [hindex])]
    refine ⟨iff_of_true rfl (.inl ⟨hc, trivial⟩), fun _ => .inl (hstate _ ?_)⟩
    omega

/-- A code behind too many headings. -/
theorem code_agree_beyond {s : Spec} {t : ParseState} (hc : c ≠ .zero) (h : Beyond s t) :
    CodeAgrees s t c := by
  obtain ⟨cheats, pending, ghost⟩ := s
  obtain ⟨name, n, index⟩ := t
  obtain ⟨hfull, rfl, rfl⟩ := h
  dsimp only at hfull
  have hcode : (addCode ⟨name, maxCodes, 0⟩ c).2.code = some (maxCodes - 1, 0, c) := by
    rw [addCode_old c (by simp),
      if_pos ⟨(Nat.succ_pos _ : 0 < maxCodes), (by decide : 0 < maxCheatList)⟩]
  have hplace : specPlace ⟨cheats, pending, ghost⟩ (.code c) = none := by
    cases pending with
    | true => exact if_neg fun hno => absurd hno.1 (by dsimp only; omega)
    | false =>
      cases cheats with
      | nil => rfl
      | cons cheat cheats =>
        rw [List.length_cons] at hfull
        exact if_neg fun hno => by omega
  have hbad : ¬LineOk ⟨cheats, pending, ghost⟩ (.code c) := by
    cases pending with
    | true =>
      simp only [LineOk, if_true]
      rwa [if_neg (by omega)]
    | false =>
      cases cheats with
      | nil =>
        rw [List.length_nil] at hfull
        omega
      | cons cheat cheats =>
        rw [List.length_cons] at hfull
        simp only [LineOk, Bool.false_eq_true, if_false]
        rwa [if_neg (by omega)]
  rw [CodeAgrees, hcode, hplace]
  exact ⟨iff_of_false (by simp) hbad, fun hno => absurd hno hbad⟩

/-- A code that is not one of zeros. -/
theorem code_agree {s : Spec} {t : ParseState} (hc : c ≠ .zero) (h : Agree s t) :
    CodeAgrees s t c := by
  obtain hw | hb := h
  · obtain ⟨cheats, pending, ghost⟩ := s
    obtain ⟨name, n, index⟩ := t
    obtain rfl : n = cheats.length := hw.cheats
    cases pending with
    | true => exact code_agree_pending hc hw
    | false =>
      cases cheats with
      | nil => exact code_agree_nil hc hw
      | cons cheat cheats =>
        cases ghost with
        | true => exact code_agree_ghost hc hw
        | false => exact code_agree_next hc hw
  · exact code_agree_beyond hc hb

end Code

/-- **One line.** The parser stores the code of a line where it belongs exactly if the line is one
of those that may follow. -/
theorem parseStep_agree {s : Spec} {t : ParseState} (h : Agree s t) (piece : List UInt8) :
    ((parseStep t piece).2.code = specPlace s (kind piece) ↔ LineOk s (kind piece)) ∧
      (LineOk s (kind piece) → Agree (specStep s (kind piece)) (parseStep t piece).1) := by
  have hname : ∀ name : List UInt8, name ≠ [] → ∀ p g : Bool, p = true ∨ g = true →
      Agree ⟨s.cheats, p, g⟩ ⟨name, t.cheats, 0⟩ := by
    intro name hne p g hpg
    obtain hw | hb := h
    · exact .inl ⟨hw.room, hw.cheats, iff_of_true hne hpg, (if_pos hpg).symm, hw.codes⟩
    · exact .inr ⟨hb.full, hb.cheats, rfl⟩
  have hstep := parseStep_eq t piece
  cases hkind : kind piece with
  | blank =>
    rw [hkind] at hstep
    rw [hstep]
    exact ⟨iff_of_true rfl trivial, fun _ => h⟩
  | ghost =>
    rw [hkind] at hstep
    obtain ⟨name, hne, hstep⟩ := hstep
    rw [hstep]
    exact ⟨iff_of_true rfl trivial, fun _ => hname name hne _ _ (.inr rfl)⟩
  | heading =>
    rw [hkind] at hstep
    obtain ⟨name, hne, hstep⟩ := hstep
    rw [hstep]
    exact ⟨iff_of_true rfl trivial, fun _ => hname name hne _ _ (.inl rfl)⟩
  | code c =>
    rw [hkind] at hstep
    dsimp only at hstep
    rw [hstep]
    by_cases hc : c = .zero
    · rw [if_pos hc, hc]
      obtain ⟨hiff, hnext⟩ := zero_agree h
      exact ⟨eq_comm.trans hiff, hnext⟩
    · rw [if_neg hc]
      exact code_agree hc h

/-- Every line is one of those that may follow. -/
def LinesOk (s : Spec) : List Kind → Prop
  | [] => True
  | k :: ks => LineOk s k ∧ LinesOk (specStep s k) ks

/-- **The codes go where they belong** exactly if every line is one of those that may follow. -/
theorem logs_eq_iff {s : Spec} {t : ParseState} (h : Agree s t) (pieces : List (List UInt8)) :
    (parseLog t pieces).map Write.code = specLog s (pieces.map kind) ↔
      LinesOk s (pieces.map kind) := by
  induction pieces generalizing s t with
  | nil => exact iff_of_true rfl trivial
  | cons piece pieces ih =>
    obtain ⟨hiff, hnext⟩ := parseStep_agree h piece
    rw [parseLog, List.map_cons, List.map_cons, specLog, List.cons.injEq, LinesOk, hiff]
    exact and_congr_right fun hok => ih (hnext hok)

theorem agree_init : Agree .init .init :=
  .inl ⟨Nat.zero_le _, rfl, by simp [Spec.init, ParseState.init], rfl,
    fun cheat hcheat => absurd hcheat List.not_mem_nil⟩

end Cheats

end OpenPS2Loader
