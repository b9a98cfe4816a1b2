import Mathlib.Data.List.Flatten
import Mathlib.Logic.Function.Basic
import OpenPS2Loader.Util.LineSplit

/-!
# The display mode in Ember's settings

`cuesupport.c`: `cueApplyDisplaySetting` runs on every launch of an Ember game. It copies the lines
of `settings.txt` that are not its own into a second buffer, puts its own line behind them, and
writes the result where it differs from what was read. The lines that are not its own belong to the
user.

A line loses one carriage return, with a line feed behind it or at the end of the file. A line that
ended in two of them still ends in one when it is read again, so the next launch writes the file
again.

## Main definitions

* `Display`, `Env`, `Call` — the choice, the answers of the device, the calls that change it
* `cueApplyDisplaySetting` — the rewrite
* `keptLines`, `rewritten` — the lines that belong to the user, and the file they make

## Main results

* `copyLoop_eq` — the copy loop keeps these lines and never runs out of room
* `cueApplyDisplaySetting_spec` — what the file holds afterwards, and when a second call writes
-/

namespace OpenPS2Loader

namespace Cue

/-! ### The settings file -/

/-- `gEmberDisplay`. -/
inductive Display
  | leave
  | d240
  | d480
  deriving DecidableEq, Repr

/-- `want`. -/
def Display.want : Display → Text
  | .d480 => "display:480".toList
  | _ => "display:240".toList

/-- `cueSep`: the separator of a device, by the last character of its prefix. -/
def cueSep (devPrefix : Text) : Char := if devPrefix.getLast? = some '\\' then '\\' else '/'

/-- The path of `settings.txt`, in a buffer of 320 bytes. -/
def settingsPath (devPrefix : Text) : Text :=
  (devPrefix ++ "EMBER".toList ++ [cueSep devPrefix] ++ "settings.txt".toList).take 319

/-- The device's answers to a call of `cueApplyDisplaySetting`. -/
structure Env where
  /-- a file that is there can be opened -/
  openRead : Bool
  /-- how many bytes a read gives at most; `none` when it fails -/
  read : Option ℕ
  openWrite : Bool
  /-- what a failed write leaves in the file; `none` when everything is written -/
  write : Option Text
  openRestore : Bool
  restore : Option Text
  unlink : Bool

/-- Nothing fails. -/
def Env.ok : Env :=
  { openRead := true, read := some 511, openWrite := true, write := none, openRestore := true,
    restore := none, unlink := true }

/-- The file is read in full, as far as the buffer goes. -/
def Env.Reads (env : Env) : Prop := env.openRead = true ∧ ∃ n, env.read = some n ∧ 511 ≤ n

/-- The calls that change the device. -/
inductive Call
  | unlink
  | write (data : Text)
  deriving DecidableEq

/-! ### The copy loop -/

/-- A line without the carriage return at its end. -/
def stripCr (line : Text) : Text := if line.getLast? = some '\r' then line.dropLast else line

/-- `strncasecmp(t, "display:", 8) == 0`. -/
def isDisplay (t : Text) : Bool :=
  decide (((cstr t).take 8).map Char.toLower = "display:".toList)

/-- What the loop does at the end of a line: the text behind `after`, or `none` for the break. -/
def copyLine (before : Text) (lineStart i : ℕ) (after : Text) : Option Text :=
  let line := stripCr ((before.take i).drop lineStart)
  if line ≠ [] ∧ isDisplay (before.drop lineStart) = false then
    if 512 ≤ after.length + line.length + 1 then none else some (after ++ line ++ ['\n'])
  else some after

/-- The loop over `before`, whose part from `i` on is `rest`, and whether it was left by the
break. -/
def copyLoop (before : Text) : Text → ℕ → ℕ → Text → Text × Bool
  | [], i, lineStart, after =>
    match copyLine before lineStart i after with
    | none => (after, true)
    | some after => (after, false)
  | c :: rest, i, lineStart, after =>
    if c ≠ '\n' then copyLoop before rest (i + 1) lineStart after
    else match copyLine before lineStart i after with
      | none => (after, true)
      | some after => copyLoop before rest (i + 1) (i + 1) after

/-- Every line of `before` except an existing `display:` line. -/
def copyLines (before : Text) : Text × Bool := copyLoop before before 0 0 []

/-! ### The rewrite -/

/-- Our own line behind the others: `none` when `snprintf` would have cut it. -/
def appendWant (display : Display) (after : Text) : Option Text :=
  if display = .leave then some after
  else if 512 - after.length ≤ (display.want ++ ['\n']).length then none
  else some (after ++ display.want ++ ['\n'])

/-- The write, and the write of the original bytes when it fails. -/
def writeBack (env : Env) (file : Option Text) (before after : Text) : Option Text × List Call :=
  if env.openWrite = false then (file, [])
  else match env.write with
    | none => (some after, [.write after])
    | some left =>
      if before ≠ [] ∧ env.openRestore = true then
        (some (env.restore.getD before), [.write after, .write before])
      else (some left, [.write after])

/-- `cueApplyDisplaySetting` on the content of the file, which is `none` when there is none. -/
def applyTo (env : Env) (display : Display) (file : Option Text) : Option Text × List Call :=
  let opened := file.isSome && env.openRead
  if opened = false ∧ display = .leave then (file, [])
  else
    let before := if opened then (file.getD []).take (min (env.read.getD 0) 511) else []
    if before.length = 511 then (file, [])
    else match appendWant display (copyLines before).1 with
      | none => (file, [])
      | some after =>
        if after = [] then
          if before ≠ [] then (if env.unlink then none else file, [.unlink]) else (file, [])
        else if after = before then (file, [])
        else writeBack env file before after

/-- `cueApplyDisplaySetting`: the files of the device afterwards, and the calls that were made. -/
def cueApplyDisplaySetting (env : Env) (display : Display) (devPrefix : Option Text)
    (files : Text → Option Text) : (Text → Option Text) × List Call :=
  match devPrefix with
  | none => (files, [])
  | some p =>
    let path := settingsPath p
    let (file, calls) := applyTo env display (files path)
    (Function.update files path file, calls)

/-! ### Lines -/

/-- What stands between the line feeds. -/
def pieces (t : Text) : List Text := splitLines (t ++ ['\n'])

/-- A line that belongs to the user, once its carriage return is stripped. -/
def keep (line : Text) : Bool := decide (line ≠ []) && !isDisplay line

/-- The lines that belong to the user. -/
def keptLines (before : Text) : List Text := ((pieces before).map stripCr).filter keep

/-- The lines that are put behind them. -/
def displayLines (display : Display) : List Text :=
  if display = .leave then [] else [display.want]

/-- The file that a call is to leave. -/
def rewritten (display : Display) (before : Text) : Text :=
  joinLines (keptLines before ++ displayLines display)

theorem pieces_of_not_mem {l : Text} (h : '\n' ∉ l) : pieces l = [l] := by
  rw [pieces, splitLines_line h]
  rfl

theorem pieces_line {l : Text} (h : '\n' ∉ l) (r : Text) :
    pieces (l ++ '\n' :: r) = l :: pieces r := by
  rw [pieces, List.append_assoc, List.cons_append, splitLines_line h]
  rfl

theorem pieces_joinLines {ls : List Text} (h : ∀ l ∈ ls, '\n' ∉ l) :
    pieces (joinLines ls) = ls ++ [[]] := by
  have := @splitLines_concat_lf ls [] h List.not_mem_nil
  rwa [List.append_nil] at this

theorem lf_not_mem_pieces {t l : Text} (h : l ∈ pieces t) : '\n' ∉ l := (mem_splitLines h).1

theorem stripCr_sublist (l : Text) : (stripCr l).Sublist l := by
  rw [stripCr]
  split_ifs
  · exact List.dropLast_sublist l
  · exact List.Sublist.refl l

theorem lf_not_mem_keptLines {t l : Text} (h : l ∈ keptLines t) : '\n' ∉ l := by
  obtain ⟨l, hl, rfl⟩ := List.mem_map.mp (List.mem_of_mem_filter h)
  intro hmem
  exact lf_not_mem_pieces hl ((stripCr_sublist l).subset hmem)

/-! ### The key of a line -/

theorem isDisplay_iff {t : Text} :
    isDisplay t = true ↔ (t.take 8).map Char.toLower = "display:".toList := by
  rw [isDisplay, decide_eq_true_eq, cstr]
  constructor
  · intro h
    -- the eight characters are there before any NUL
    have hlen : 8 ≤ (t.takeWhile (· ≠ nul)).length := by
      have := congrArg List.length h
      simp only [List.length_map, List.length_take] at this
      have hd : "display:".toList.length = 8 := by decide
      omega
    rwa [List.prefix_iff_eq_take.mp
      ((List.take_prefix 8 _).trans (List.takeWhile_prefix (l := t) (p := (· ≠ nul)))),
      List.length_take, Nat.min_eq_left hlen] at h
  · intro h
    have hall : ∀ c ∈ t.take 8, decide (c ≠ nul) = true := by
      intro c hc
      rw [decide_eq_true_eq]
      rintro rfl
      have hmem := List.mem_map_of_mem (f := Char.toLower) hc
      rw [h] at hmem
      exact absurd hmem (by decide)
    have htake : (t.takeWhile (· ≠ nul)).take 8 = t.take 8 := by
      conv_lhs => rw [← List.take_append_drop 8 t, List.takeWhile_append_of_pos hall]
      rw [List.take_append_of_le_length, List.take_take, Nat.min_self]
      have := congrArg List.length h
      simp only [List.length_map] at this
      exact le_of_eq this.symm
    rw [htake, h]

/-- A character that is not of the key ends the comparison. -/
theorem isDisplay_append {m r : Text} {c : Char} (hc : c.toLower ∉ "display:".toList) :
    isDisplay (m ++ c :: r) = isDisplay m := by
  rw [Bool.eq_iff_iff, isDisplay_iff, isDisplay_iff]
  rcases Nat.lt_or_ge m.length 8 with hlt | hge
  · refine iff_of_false (fun h => hc ?_) fun h => ?_
    · rw [← h]
      refine List.mem_map_of_mem ?_
      rw [List.mem_take_iff_getElem]
      refine ⟨m.length, ?_, ?_⟩
      · simp only [List.length_append, List.length_cons]
        omega
      · rw [List.getElem_append_right le_rfl]
        simp
    · have := congrArg List.length h
      simp only [List.length_map, List.length_take] at this
      have hd : "display:".toList.length = 8 := by decide
      omega
  · rw [List.take_append_of_le_length hge]

theorem stripCr_concat (m : Text) : stripCr (m ++ ['\r']) = m := by simp [stripCr]

/-- A line that ends in a carriage return, and one that does not. -/
theorem stripCr_cases (l : Text) : (∃ m, l = m ++ ['\r'] ∧ stripCr l = m) ∨ stripCr l = l := by
  by_cases h : l.getLast? = some '\r'
  · obtain ⟨m, rfl⟩ := List.getLast?_eq_some_iff.mp h
    exact .inl ⟨m, rfl, stripCr_concat m⟩
  · exact .inr (by rw [stripCr, if_neg h])

theorem isDisplay_stripCr (l : Text) : isDisplay (stripCr l) = isDisplay l := by
  obtain ⟨m, rfl, hm⟩ | hl := stripCr_cases l
  · rw [hm, isDisplay_append (by decide)]
  · rw [hl]

/-! ### What the loop keeps -/

/-- The end of the line `l`. -/
theorem copyLine_eq {pre l rest after : Text} (hrest : rest = [] ∨ rest.head? = some '\n')
    (hlen : after.length + l.length ≤ 510) :
    copyLine (pre ++ l ++ rest) pre.length (pre ++ l).length after =
      some (after ++ joinLines (([l].map stripCr).filter keep)) := by
  have hline : (((pre ++ l ++ rest).take (pre ++ l).length).drop pre.length) = l := by
    rw [List.take_left, List.drop_left]
  have hkey : isDisplay ((pre ++ l ++ rest).drop pre.length) = isDisplay l := by
    rw [List.append_assoc, List.drop_left]
    rcases rest with _ | ⟨c, rest⟩
    · rw [List.append_nil]
    · obtain h | h := hrest
      · cases h
      · obtain rfl := Option.some.inj h
        exact isDisplay_append (by decide)
  have hroom : ¬ 512 ≤ after.length + (stripCr l).length + 1 := by
    have := (stripCr_sublist l).length_le
    omega
  rw [copyLine, hline, hkey, ← isDisplay_stripCr]
  by_cases hne : stripCr l = []
  · simp [hne, keep]
  · cases hd : isDisplay (stripCr l) with
    | true => simp [keep, hd]
    | false => simp [hne, keep, hd, hroom]

theorem keptLines_of_not_mem {l : Text} (h : '\n' ∉ l) :
    keptLines l = ([l].map stripCr).filter keep := by
  rw [keptLines, pieces_of_not_mem h]

theorem keptLines_line {l : Text} (h : '\n' ∉ l) (r : Text) :
    keptLines (l ++ '\n' :: r) = ([l].map stripCr).filter keep ++ keptLines r := by
  rw [keptLines, pieces_line h, keptLines, ← List.filter_append, ← List.map_append]
  rfl

/-- A line in the output is no longer than in the input. -/
theorem length_joinLines_line_le (l : Text) :
    (joinLines (([l].map stripCr).filter keep)).length ≤ l.length + 1 := by
  have := (stripCr_sublist l).length_le
  by_cases hk : keep (stripCr l) = true
  · simp [hk]
    omega
  · simp [hk]

theorem copyLoop_eq {before rest pre l after : Text} {i lineStart : ℕ}
    (hbefore : before = pre ++ l ++ rest) (hi : i = (pre ++ l).length)
    (hstart : lineStart = pre.length) (hl : '\n' ∉ l) (hafter : after.length ≤ pre.length)
    (hlen : before.length ≤ 510) :
    copyLoop before rest i lineStart after =
      (after ++ joinLines (keptLines (l ++ rest)), false) := by
  induction rest generalizing pre l after i lineStart with
  | nil =>
    subst hbefore hi hstart
    simp only [List.append_nil, List.length_append] at hlen
    have hline := @copyLine_eq pre l [] after (.inl rfl) (by omega)
    rw [copyLoop, hline, List.append_nil, keptLines_of_not_mem hl]
  | cons c rest ih =>
    have hsize : before.length = pre.length + l.length + 1 + rest.length := by
      rw [hbefore]
      simp only [List.length_append, List.length_cons]
      omega
    rw [copyLoop]
    by_cases hc : c = '\n'
    · subst hc
      have hline : copyLine before lineStart i after =
          some (after ++ joinLines (([l].map stripCr).filter keep)) := by
        rw [hbefore, hi, hstart]
        exact copyLine_eq (.inr rfl) (by omega)
      rw [if_neg (fun h => h rfl), hline, keptLines_line hl, joinLines_append, ← List.append_assoc]
      have hpre : i + 1 = (pre ++ l ++ ['\n']).length := by
        rw [hi]
        simp
        omega
      refine @ih (pre ++ l ++ ['\n']) [] _ _ _ ?_ ?_ hpre List.not_mem_nil ?_
      · rw [hbefore]
        simp
      · rw [List.append_nil, hpre]
      · have := length_joinLines_line_le l
        simp only [List.length_append, List.length_cons, List.length_nil]
        omega
    · have hmem : '\n' ∉ l ++ [c] := by
        intro h
        rcases List.mem_append.mp h with h | h
        · exact hl h
        · exact hc (List.mem_singleton.mp h).symm
      rw [if_pos hc, ih (l := l ++ [c]) ?_ ?_ hstart hmem hafter, List.append_assoc,
        List.singleton_append]
      · rw [hbefore]
        simp
      · rw [hi]
        simp
        omega

/-- **The copy loop.** It keeps the lines of the user, and there is always room for them. -/
theorem copyLines_eq {before : Text} (h : before.length ≤ 510) :
    copyLines before = (joinLines (keptLines before), false) := by
  exact @copyLoop_eq before before [] [] [] 0 0 rfl rfl rfl List.not_mem_nil le_rfl h

/-! ### The lines of a rewritten file -/

theorem keep_of_mem_keptLines {t l : Text} (h : l ∈ keptLines t) :
    l ≠ [] ∧ isDisplay l = false := by
  have hk := (List.mem_filter.mp h).2
  simpa [keep] using hk

theorem displayLines_spec {display : Display} {l : Text} (h : l ∈ displayLines display) :
    l = display.want ∧ '\n' ∉ l ∧ isDisplay l = true ∧ stripCr l = l := by
  cases display with
  | leave => simp [displayLines] at h
  | d240 =>
    obtain rfl : l = Display.d240.want := by simpa [displayLines] using h
    decide
  | d480 =>
    obtain rfl : l = Display.d480.want := by simpa [displayLines] using h
    decide

theorem lf_not_mem_lines {display : Display} {before l : Text}
    (h : l ∈ keptLines before ++ displayLines display) : '\n' ∉ l := by
  rcases List.mem_append.mp h with h | h
  · exact lf_not_mem_keptLines h
  · exact (displayLines_spec h).2.1

theorem splitLines_rewritten (display : Display) (before : Text) :
    splitLines (rewritten display before) = keptLines before ++ displayLines display := by
  have := @splitLines_joinLines_append (keptLines before ++ displayLines display) []
    (fun l hl => lf_not_mem_lines hl) List.not_mem_nil
  rwa [List.append_nil, if_pos rfl, List.append_nil] at this

/-- The lines of a rewritten file that are kept when it is read again. -/
theorem keptLines_rewritten (display : Display) (before : Text) :
    keptLines (rewritten display before) =
      ((keptLines before).map stripCr).filter fun l => decide (l ≠ []) := by
  have hdisplay : ((displayLines display).map stripCr).filter keep = [] := by
    rw [List.filter_eq_nil_iff]
    intro l hl
    obtain ⟨m, hm, rfl⟩ := List.mem_map.mp hl
    obtain ⟨-, -, hkey, hstrip⟩ := displayLines_spec hm
    simp [keep, hstrip, hkey]
  have hkept : ((keptLines before).map stripCr).filter keep =
      ((keptLines before).map stripCr).filter fun l => decide (l ≠ []) := by
    refine List.filter_congr fun l hl => ?_
    obtain ⟨m, hm, rfl⟩ := List.mem_map.mp hl
    rw [keep, isDisplay_stripCr, (keep_of_mem_keptLines hm).2]
    simp
  rw [keptLines, rewritten, pieces_joinLines fun l hl => lf_not_mem_lines hl]
  simp only [List.map_append, List.filter_append, hdisplay, hkept, List.append_nil]
  simp [stripCr, keep]

theorem length_joinLines_le_of_sublist {ls ms : List Text} (h : ls.Sublist ms) :
    (joinLines ls).length ≤ (joinLines ms).length :=
  (h.flatMap fun l => l ++ ['\n']).length_le

theorem map_stripCr_eq_self_iff {ls : List Text} :
    ls.map stripCr = ls ↔ ∀ l ∈ ls, stripCr l = l := by
  have := @List.map_inj_left _ _ ls stripCr id
  rwa [List.map_id] at this

theorem length_joinLines_map_stripCr_le (ls : List Text) :
    (joinLines (ls.map stripCr)).length ≤ (joinLines ls).length := by
  induction ls with
  | nil => exact le_rfl
  | cons l ls ih =>
    have := (stripCr_sublist l).length_le
    simp only [List.map_cons, joinLines_cons, List.length_append, List.length_cons]
    omega

/-- A second rewrite does not make the file longer. -/
theorem length_rewritten_rewritten_le (display : Display) (before : Text) :
    (rewritten display (rewritten display before)).length ≤ (rewritten display before).length := by
  have hsub : ((keptLines before).map stripCr).filter (fun l => decide (l ≠ [])) |>.Sublist
      ((keptLines before).map stripCr) := List.filter_sublist
  have h₁ := length_joinLines_le_of_sublist hsub
  have h₂ := length_joinLines_map_stripCr_le (keptLines before)
  rw [rewritten, keptLines_rewritten, rewritten, joinLines_append, joinLines_append,
    List.length_append, List.length_append]
  omega

/-- A file of which no line ends in a carriage return is left as it is by a second rewrite. -/
theorem rewritten_rewritten_eq_iff {display : Display} {before : Text} :
    rewritten display (rewritten display before) = rewritten display before ↔
      ∀ l ∈ keptLines before, stripCr l = l := by
  constructor
  · intro h
    have hlines := congrArg splitLines h
    rw [splitLines_rewritten, splitLines_rewritten, List.append_left_inj, keptLines_rewritten]
      at hlines
    have hlen : (((keptLines before).map stripCr).filter fun l => decide (l ≠ [])).length =
        ((keptLines before).map stripCr).length := by
      rw [hlines, List.length_map]
    rw [List.filter_eq_self.mpr (List.length_filter_eq_length_iff.mp hlen)] at hlines
    exact map_stripCr_eq_self_iff.mp hlines
  · intro h
    have hmap : (keptLines before).map stripCr = keptLines before := map_stripCr_eq_self_iff.mpr h
    have hfilter : ((keptLines before).filter fun l => decide (l ≠ [])) = keptLines before := by
      rw [List.filter_eq_self]
      intro l hl
      exact decide_eq_true (keep_of_mem_keptLines hl).1
    rw [rewritten, keptLines_rewritten, hmap, hfilter, rewritten]

/-! ### A call -/

variable {env : Env} {display : Display} {file : Option Text}

theorem length_joinLines_keptLines_le (before : Text) :
    (joinLines (keptLines before)).length ≤ before.length + 1 := by
  calc (joinLines (keptLines before)).length
      ≤ (joinLines ((pieces before).map stripCr)).length :=
        length_joinLines_le_of_sublist List.filter_sublist
    _ ≤ (joinLines (pieces before)).length := length_joinLines_map_stripCr_le _
    _ = before.length + 1 := by
        rw [pieces, joinLines_splitLines, List.length_append, List.length_singleton]

theorem appendWant_eq {before : Text} (h : before.length ≤ 510) :
    appendWant display (joinLines (keptLines before)) =
      if 512 ≤ (rewritten display before).length then none
      else some (rewritten display before) := by
  have hkept := length_joinLines_keptLines_le before
  by_cases hleave : display = .leave
  · have hrewritten : rewritten display before = joinLines (keptLines before) := by
      simp [rewritten, displayLines, hleave]
    rw [appendWant, if_pos hleave, hrewritten, if_neg (by omega)]
  · have hrewritten : rewritten display before =
        joinLines (keptLines before) ++ display.want ++ ['\n'] := by
      simp [rewritten, displayLines, hleave, joinLines_append]
    have hlen : (rewritten display before).length =
        (joinLines (keptLines before)).length + (display.want ++ ['\n']).length := by
      rw [hrewritten, List.append_assoc, List.length_append]
    rw [appendWant, if_neg hleave, hlen, hrewritten]
    have hpos : 0 < (display.want ++ ['\n']).length := by simp
    by_cases hfit : 512 ≤ (joinLines (keptLines before)).length + (display.want ++ ['\n']).length
    · rw [if_pos (by omega), if_pos hfit]
    · rw [if_neg (by omega), if_neg hfit]

/-- **A call on a file that is read in full.** -/
theorem applyTo_eq (hr : env.Reads) (h : (file.getD []).length ≤ 510) :
    applyTo env display file =
      if 512 ≤ (rewritten display (file.getD [])).length then (file, [])
      else if rewritten display (file.getD []) = [] then
        if file.getD [] ≠ [] then (if env.unlink then none else file, [.unlink]) else (file, [])
      else if rewritten display (file.getD []) = file.getD [] then (file, [])
      else writeBack env file (file.getD []) (rewritten display (file.getD [])) := by
  obtain ⟨hopen, n, hread, hn⟩ := hr
  have hbefore : (if (file.isSome && env.openRead) = true then
      (file.getD []).take (min (env.read.getD 0) 511) else []) = file.getD [] := by
    cases file with
    | none => rfl
    | some t =>
      simp only [hopen, hread, Option.isSome_some, Bool.and_true, if_true, Option.getD_some,
        Nat.min_eq_right hn]
      exact List.take_of_length_le (h.trans (by decide))
  rw [applyTo]
  by_cases hskip : (file.isSome && env.openRead) = false ∧ display = .leave
  · -- there is no file, and no line to put into one
    obtain ⟨hfile, rfl⟩ := hskip
    rw [hopen, Bool.and_true] at hfile
    obtain rfl := Option.not_isSome_iff_eq_none.mp (Bool.eq_false_iff.mp hfile)
    simp [rewritten, keptLines, pieces, displayLines, splitLines, stripCr, keep]
  · dsimp only
    rw [if_neg hskip, hbefore, if_neg (by omega), copyLines_eq h, appendWant_eq h]
    by_cases hfit : 512 ≤ (rewritten display (file.getD [])).length
    · rw [if_pos hfit, if_pos hfit]
    · rw [if_neg hfit, if_neg hfit]

theorem reads_ok : Env.ok.Reads := ⟨rfl, 511, rfl, le_rfl⟩

/-- What the file holds after a call during which nothing fails. -/
theorem getD_applyTo_ok (h : (file.getD []).length ≤ 510)
    (hfit : (rewritten display (file.getD [])).length < 512) :
    (applyTo .ok display file).1.getD [] = rewritten display (file.getD []) := by
  rw [applyTo_eq reads_ok h, if_neg (Nat.not_le.mpr hfit)]
  by_cases hempty : rewritten display (file.getD []) = []
  · rw [if_pos hempty, hempty]
    by_cases hbefore : file.getD [] = []
    · rw [if_neg (not_not.mpr hbefore)]
      exact hbefore
    · rw [if_pos hbefore]
      rfl
  · rw [if_neg hempty]
    by_cases hsame : rewritten display (file.getD []) = file.getD []
    · rw [if_pos hsame]
      exact hsame.symm
    · rw [if_neg hsame]
      rfl

/-- When a call during which nothing fails leaves the device alone. -/
theorem calls_applyTo_ok (h : (file.getD []).length ≤ 510)
    (hfit : (rewritten display (file.getD [])).length < 512) :
    (applyTo .ok display file).2 = [] ↔ rewritten display (file.getD []) = file.getD [] := by
  rw [applyTo_eq reads_ok h, if_neg (Nat.not_le.mpr hfit)]
  by_cases hempty : rewritten display (file.getD []) = []
  · rw [if_pos hempty, hempty]
    by_cases hbefore : file.getD [] = []
    · rw [if_neg (not_not.mpr hbefore)]
      exact iff_of_true rfl hbefore.symm
    · rw [if_pos hbefore]
      exact iff_of_false (List.cons_ne_nil _ _) (Ne.symm hbefore)
  · rw [if_neg hempty]
    by_cases hsame : rewritten display (file.getD []) = file.getD []
    · rw [if_pos hsame]
      exact iff_of_true rfl hsame
    · rw [if_neg hsame]
      exact iff_of_false (List.cons_ne_nil _ _) hsame

/-- A file that fills the buffer is left alone. -/
theorem applyTo_of_full {t : Text} (h : t.length = 511) :
    applyTo .ok display (some t) = (some t, []) := by
  rw [applyTo]
  simp [Env.ok, h]

/-- Where a failed write was followed by a write that succeeded, the file is as it was. -/
theorem writeBack_restored {before after a b : Text} (hfile : before = file.getD [])
    (hrestore : env.restore = none)
    (hcalls : (writeBack env file before after).2 = [.write a, .write b]) :
    (writeBack env file before after).1 = file := by
  rw [writeBack] at hcalls ⊢
  cases hopen : env.openWrite with
  | false => rfl
  | true =>
    rcases hw : env.write with _ | left
    · simp [hopen, hw] at hcalls
    · simp only [hopen, hw, Bool.true_eq_false, if_false] at hcalls ⊢
      split_ifs at hcalls ⊢ with hback
      · rw [hrestore, Option.getD_none]
        rcases file with _ | t
        · exact absurd hfile hback.1
        · exact congrArg some hfile
      · cases hcalls

theorem applyTo_restored {a b : Text} (hr : env.Reads) (h : (file.getD []).length ≤ 510)
    (hrestore : env.restore = none)
    (hcalls : (applyTo env display file).2 = [.write a, .write b]) :
    (applyTo env display file).1 = file := by
  rw [applyTo_eq hr h] at hcalls ⊢
  by_cases hfit : 512 ≤ (rewritten display (file.getD [])).length
  · rw [if_pos hfit]
  rw [if_neg hfit] at hcalls ⊢
  by_cases hempty : rewritten display (file.getD []) = []
  · rw [if_pos hempty] at hcalls
    split_ifs at hcalls
    · cases hcalls
    · cases hcalls
  rw [if_neg hempty] at hcalls ⊢
  by_cases hsame : rewritten display (file.getD []) = file.getD []
  · rw [if_pos hsame]
  rw [if_neg hsame] at hcalls ⊢
  exact writeBack_restored rfl hrestore hcalls

/-! ### Launches -/

theorem cueApplyDisplaySetting_some (env : Env) (display : Display) (p : Text)
    (files : Text → Option Text) :
    cueApplyDisplaySetting env display (some p) files =
      (Function.update files (settingsPath p) (applyTo env display (files (settingsPath p))).1,
        (applyTo env display (files (settingsPath p))).2) := rfl

theorem filter_isDisplay_lines (display : Display) (before : Text) :
    (keptLines before ++ displayLines display).filter isDisplay = displayLines display := by
  have hkept : (keptLines before).filter isDisplay = [] := by
    rw [List.filter_eq_nil_iff]
    intro l hl
    rw [(keep_of_mem_keptLines hl).2]
    exact Bool.false_ne_true
  rw [List.filter_append, hkept, List.nil_append, List.filter_eq_self]
  intro l hl
  exact (displayLines_spec hl).2.2.1

/-- **The display mode in Ember's settings.** The copy loop is not left early. Where the result fits
the buffer, the file holds the lines of the user and the line of the choice; where it does not, no
file changes. A second call makes no call that changes the device exactly when no line of the user
still ends in a carriage return, or the file is too large by then. Where a failed write was followed
by a write that succeeded, no file changes. -/
theorem cueApplyDisplaySetting_spec (display : Display) (devPrefix : Text)
    (files : Text → Option Text)
    (h : ((files (settingsPath devPrefix)).getD []).length ≤ 510) :
    let path := settingsPath devPrefix
    let before := (files path).getD []
    let first := cueApplyDisplaySetting .ok display (some devPrefix) files
    let second := cueApplyDisplaySetting .ok display (some devPrefix) first.1
    (copyLines before).2 = false ∧
      (∀ other ≠ path, first.1 other = files other) ∧
      ((rewritten display before).length < 512 →
        (first.1 path).getD [] = joinLines (keptLines before ++ displayLines display) ∧
          splitLines ((first.1 path).getD []) = keptLines before ++ displayLines display ∧
          (splitLines ((first.1 path).getD [])).filter isDisplay = displayLines display) ∧
      (512 ≤ (rewritten display before).length → first = (files, [])) ∧
      (second.2 = [] ↔
        511 ≤ (rewritten display before).length ∨ ∀ l ∈ keptLines before, stripCr l = l) ∧
      ∀ env a b, env.Reads → env.restore = none →
        (cueApplyDisplaySetting env display (some devPrefix) files).2 = [.write a, .write b] →
        (cueApplyDisplaySetting env display (some devPrefix) files).1 = files := by
  intro path before first second
  have hfirst : first.1 path = (applyTo .ok display (files path)).1 := Function.update_self ..
  have huntouched : 512 ≤ (rewritten display before).length → first = (files, []) := by
    intro hfull
    have happly : applyTo .ok display (files path) = (files path, []) := by
      rw [applyTo_eq reads_ok h, if_pos hfull]
    show cueApplyDisplaySetting .ok display (some devPrefix) files = (files, [])
    rw [cueApplyDisplaySetting_some, happly]
    exact congrArg (·, []) (Function.update_eq_self path files)
  refine ⟨by rw [copyLines_eq h], fun other hne => Function.update_of_ne hne .., fun hfit => ?_,
    huntouched, ?_, fun env a b hr hrestore hcalls => ?_⟩
  · have hfile : (first.1 path).getD [] = rewritten display before := by
      rw [hfirst]
      exact getD_applyTo_ok h hfit
    rw [hfile, splitLines_rewritten]
    exact ⟨rfl, rfl, filter_isDisplay_lines display before⟩
  · have hsecond : second.2 = (applyTo .ok display (first.1 path)).2 := rfl
    rw [hsecond]
    rcases Nat.lt_or_ge (rewritten display before).length 512 with hfit | hfull
    · have hfile : (first.1 path).getD [] = rewritten display before := by
        rw [hfirst]
        exact getD_applyTo_ok h hfit
      by_cases hlast : (rewritten display before).length = 511
      · -- the file fills the buffer of the second call
        obtain ⟨t, ht⟩ : ∃ t, first.1 path = some t := by
          rcases hnone : first.1 path with _ | t
          · rw [hnone] at hfile
            rw [← hfile] at hlast
            cases hlast
          · exact ⟨t, rfl⟩
        rw [ht, Option.getD_some] at hfile
        rw [ht, applyTo_of_full (hfile ▸ hlast)]
        exact iff_of_true rfl (.inl hlast.ge)
      · have hle : ((first.1 path).getD []).length ≤ 510 := by
          rw [hfile]
          omega
        have hagain := length_rewritten_rewritten_le display before
        rw [calls_applyTo_ok hle (by rw [hfile]; omega), hfile, rewritten_rewritten_eq_iff]
        exact ⟨.inr, fun hor => hor.resolve_left (by omega)⟩
    · have hsame : first.1 path = files path := by rw [huntouched hfull]
      rw [hsame, applyTo_eq reads_ok h, if_pos hfull]
      exact iff_of_true rfl (.inl (Nat.le_of_succ_le hfull))
  · have hfile := applyTo_restored hr h hrestore hcalls
    rw [cueApplyDisplaySetting_some, hfile]
    exact Function.update_eq_self path files

/-- A device whose settings hold one line that ends in two carriage returns. -/
def doubled (path : Text) : Option Text :=
  if path = settingsPath "mass0:/".toList then some "a\r\r\n".toList else none

theorem cueApplyDisplaySetting_spec_doubled :
    (cueApplyDisplaySetting .ok .d240 (some "mass0:/".toList) doubled).1
        (settingsPath "mass0:/".toList) = some "a\r\ndisplay:240\n".toList ∧
      (∀ other ≠ settingsPath "mass0:/".toList,
        (cueApplyDisplaySetting .ok .d240 (some "mass0:/".toList) doubled).1 other =
          doubled other) :=
  ⟨by decide, (cueApplyDisplaySetting_spec .d240 "mass0:/".toList doubled (by decide)).2.1⟩

/-- On this device a second launch with the same choice writes the file again. -/
theorem not_second_call_silent :
    ¬ ∀ (display : Display) (devPrefix : Text) (files : Text → Option Text),
      ((files (settingsPath devPrefix)).getD []).length ≤ 510 →
      (cueApplyDisplaySetting .ok display (some devPrefix)
        (cueApplyDisplaySetting .ok display (some devPrefix) files).1).2 = [] := by
  intro h
  have := h .d240 "mass0:/".toList doubled (by decide)
  revert this
  decide

end Cue

end OpenPS2Loader
