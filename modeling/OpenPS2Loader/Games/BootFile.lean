import Mathlib.Algebra.Group.Int.Defs
import OpenPS2Loader.Games.IsoScan
import OpenPS2Loader.Lib.Bytes
import OpenPS2Loader.Lib.CString

/-!
# The boot file of a disc

`ps2cnfGetBootFile` looks for the key `BOOT2` in `SYSTEM.CNF` and copies its value, of which
`GetStartupExecName` takes the name of the file. At most 1023 bytes are read.

A pointer into `system_cnf` is the part of the array from there on, up to the NUL behind the bytes
that were read, where `cnf_end` points. A read or a write outside of an array has no result, and
neither has a read through `NULL`. `int` is 32 bits wide.

The lines of a file end with a line feed. A carriage return is white space.

## Main definitions

* `Cnf.ps2cnfGetBootFile`, `Cnf.getStartupExecName` — the functions
* `Cnf.bootToken`, `Cnf.execName`, `Cnf.BootsWell` — what is asked of them
* `Cnf.afterBoot2` — what stands behind the key, in the lines that are read
* `Cnf.BootOk` — the files for which they do what is asked

## Main results

* `Cnf.findBoot_eq` — the search on the array is the one on lines
* `Cnf.keyLoop_eq` — what is copied
* `Cnf.bootsWell_iff`
-/

namespace OpenPS2Loader

namespace Cnf

/-! ### The functions -/

/-- `CNF_LEN_MAX`. -/
def cnfLenMax : ℕ := 1024

/-- `CNF_PATH_LEN_MAX`. -/
def cnfPathLenMax : ℕ := 64

/-- `"BOOT2"`. -/
def boot2 : Text := "BOOT2".toList

/-- What the scanning functions return: `NULL`, `(const char *)-1` or a pointer. -/
inductive Ptr
  | null
  | eof
  | at (p : Text)

/-- The first loop of `CNFGetToken`. -/
def skipTo : Text → Option Text
  | [] => none
  | c :: p => if isspace c ∧ p ≠ [] then skipTo p else some (c :: p)

/-- The second loop of `CNFGetToken`. -/
def matchKey : Text → Text → Ptr
  | [], p => .at p
  | _ :: _, [] => .eof
  | k :: key, c :: p =>
    if p = [] ∨ c = nul then .eof
    else if c ≠ k then .null
    else matchKey key p

/-- `CNFGetToken`. -/
def cnfGetToken (cnf key : Text) : Option Ptr := (skipTo cnf).map (matchKey key)

/-- `CNFAdvanceLine`. -/
def cnfAdvanceLine : Text → Ptr
  | [] => .null
  | c :: p =>
    if p = [] then .null
    else if c = '\n' then if 1 < p.length then .at p else .null
    else cnfAdvanceLine p

/-- The first loop of `CNFGetKey`. -/
def skipSpaces : Text → Option Text
  | [] => none
  | c :: p => if isspace c then skipSpaces p else some (c :: p)

/-- The second loop of `CNFGetKey`, with the turns that are left and the position of `key`. A
character that is neither visible nor white space is looked at again in every turn. -/
def keyLoop : ℕ → Text → ℕ → Text → Option (Text × Text)
  | 0, line, _, buf => some (line, buf)
  | _ + 1, [], _, _ => none
  | n + 1, c :: line, key, buf =>
    if c = nul then some (c :: line, buf)
    else if isgraph c then (poke buf key c).bind (keyLoop n line (key + 1))
    else if isspace c then (poke buf key nul).map (c :: line, ·)
    else keyLoop n (c :: line) key buf

/-- `CNFGetKey`, with the array behind `key`. -/
def cnfGetKey (line : Ptr) (key : Text) : Option (Ptr × Text) :=
  match line with
  | .at p => (skipSpaces p).bind fun q =>
      if q.head? = some nul then some (.eof, key)
      else (keyLoop cnfPathLenMax q 0 key).map fun r => (.at r.1, r.2)
  | _ => none

/-- The loop over the lines. A pass goes on by a byte at least. -/
def findBoot : ℕ → Text → Option Ptr
  | 0, _ => none
  | fuel + 1, p => (cnfGetToken p boot2).bind fun
    | .null => match cnfAdvanceLine p with
      | .at q => findBoot fuel q
      | _ => some .null
    | r => some r

/-- The file: it cannot be opened, it cannot be read, or it has these bytes. -/
inductive CnfFile
  | missing
  | unreadable
  | content (f : Text)

/-- `size`, the number of bytes that are read. A negative one is a large number for `fread`, which
then writes behind the array. -/
def readSize (f : Text) : Option ℕ :=
  let size := (f.length : ℤ).bmod (2 ^ 32)
  if size < 0 then none else some (min size.toNat (cnfLenMax - 1))

/-- The result of `ps2cnfGetBootFile`, by the one of `CNFGetKey`. -/
def keyRet : Ptr × Text → ℤ × Text
  | (.eof, b) => (-1, b)
  | (_, b) => (0, b)

/-- `ps2cnfGetBootFile`, with the array behind `bootfile`. -/
def ps2cnfGetBootFile (file : CnfFile) (bootfile : Text) : Option (ℤ × Text) :=
  match file with
  | .missing => some (2, bootfile)
  | .unreadable => some (5, bootfile)
  | .content f => (readSize f).bind fun size =>
    let systemCnf := f.take size ++ [nul]
    (findBoot systemCnf.length systemCnf).bind fun
      | .at p => (cnfGetToken p ['=']).bind fun
        | .eof => some (-1, bootfile)
        | q => (cnfGetKey q bootfile).map keyRet
      | _ => some (-1, bootfile)

/-- The loop up to the colon. There may be none. -/
def skipDevice : Text → Option (Option Text)
  | [] => none
  | c :: key => if c = ':' then some (some key) else if c = nul then some none else skipDevice key

/-- The loop over the backslashes. -/
def skipBackslashes : Text → Option Text
  | [] => none
  | c :: key => if c = '\\' then skipBackslashes key else some (c :: key)

/-- The loop that counts `length`. -/
def execLength : Text → Option ℕ
  | [] => none
  | c :: key => if c ≠ ';' ∧ c ≠ nul then (execLength key).map (· + 1) else some 0

/-- `ps2disc_boot`. -/
def ps2discBoot : Text := List.replicate cnfPathLenMax nul

/-- `GetStartupExecName`, with the array behind `filename`. -/
def getStartupExecName (file : CnfFile) (filename : Text) (maxlength : ℕ) : Option (ℤ × Text) :=
  (ps2cnfGetBootFile file ps2discBoot).bind fun
    | (0, boot) => (skipDevice boot).bind fun
      | none => some (-1, filename)
      | some key => (skipBackslashes key).bind fun start => (execLength start).bind fun length =>
        let length := min length maxlength
        if length = 0 then some (-1, filename)
        else (Bytes.store filename 0 (start.take length ++ [nul])).map (0, ·)
    | (ret, _) => some (ret, filename)

/-! ### What is asked of them -/

/-- The first line whose first token starts with `BOOT2`. -/
def bootLine (f : Text) : Option Text :=
  (f.splitOn '\n').find? fun line => boot2.isPrefixOf (line.dropWhile isspace)

/-- The characters in front of the first white space. -/
def word (t : Text) : Text := t.takeWhile fun c => !isspace c

/-- The first token behind the `=` of that line. -/
def bootToken (f : Text) : Option Text :=
  (bootLine f).bind fun line => (Text.cutAt '=' line).2.bind fun value =>
    let token := word (value.dropWhile isspace)
    if token = [] then none else some token

/-- The part of a boot file behind the colon and the backslashes and in front of the semicolon, cut
to the limit. -/
def execName (maxlength : ℕ) (boot : Text) : Option Text :=
  (Text.cutAt ':' boot).2.bind fun path =>
    let name := ((path.dropWhile (· == '\\')).takeWhile (· != ';')).take maxlength
    if name = [] then none else some name

/-- What a call of `GetStartupExecName` leaves when the boot file is `boot`. -/
def execResult (boot filename : Text) (maxlength : ℕ) : ℤ × Text :=
  match execName maxlength boot with
  | none => (-1, filename)
  | some name => (0, Bytes.overwrite filename 0 (name ++ [nul]))

/-- The array holds the token, and a NUL behind it. -/
structure HoldsToken (f boot : Text) : Prop where
  length_eq : boot.length = cnfPathLenMax
  nul_mem : nul ∈ boot
  token : bootToken f = some (cstr boot)

/-- The call comes to an end, with an error or with the token of the file in the array. Then the
name is the one in the token. -/
def BootsWell (f : Text) : Prop :=
  ∃ ret boot, ps2cnfGetBootFile (.content f) ps2discBoot = some (ret, boot) ∧
    (ret = 0 → HoldsToken f boot) ∧
    ∀ filename maxlength, maxlength < filename.length →
      getStartupExecName (.content f) filename maxlength =
        some (if ret = 0 then execResult (cstr boot) filename maxlength else (ret, filename))

/-- What stands behind the key in the lines of a text. A line that ends with a NUL before it could
be told from the key ends the search. -/
def afterBoot2 : List Text → Option Text
  | [] => none
  | line :: lines =>
    let token := line.dropWhile isspace
    if boot2 <+: token then some (['\n'].intercalate (token.drop boot2.length :: lines))
    else if nul ∈ token ∧ cstr token <+: boot2 then none
    else afterBoot2 lines

/-- The value, behind which `rest` was not read, is in the line of the key and a visible token that
fits. `blanks` stands in front of the equals sign. -/
structure ValueOk (blanks value rest : Text) : Prop where
  key_line : '\n' ∉ blanks
  value_line : '\n' ∉ value.takeWhile isspace
  visible : ∀ c ∈ word (value.dropWhile isspace ++ rest), isgraph c
  length_lt : (word (value.dropWhile isspace ++ rest)).length < cnfPathLenMax
  length_le : (word (value.dropWhile isspace ++ rest)).length ≤ (value.dropWhile isspace).length

/-- The first visible character behind the key is the equals sign, and the value is one that can be
taken, unless the bytes or the string that were read end in front of them. -/
def BootOk (f : Text) : Prop :=
  ∃ size, readSize f = some size ∧ ∀ r, afterBoot2 ((f.take size).splitOn '\n') = some r →
    ∀ c v, r.dropWhile isspace = c :: v → c ≠ nul → c = '=' ∧
      ∀ d w, v.dropWhile isspace = d :: w → d ≠ nul →
        ValueOk (r.takeWhile isspace) v (f.drop size)

/-! ### The search -/

/-- The pointer, when it is one. -/
def Ptr.get? : Ptr → Option Text
  | .at p => some p
  | _ => none

theorem skipTo_append (u : Text) : skipTo (u ++ [nul]) = some (u.dropWhile isspace ++ [nul]) := by
  induction u with
  | nil => rfl
  | cons c u ih =>
    rw [List.cons_append, skipTo, List.dropWhile_cons, ih]
    by_cases hc : isspace c = true <;> simp [hc]

theorem skipSpaces_append (u : Text) :
    skipSpaces (u ++ [nul]) = some (u.dropWhile isspace ++ [nul]) := by
  induction u with
  | nil => rfl
  | cons c u ih =>
    rw [List.cons_append, skipSpaces, List.dropWhile_cons, ih]
    by_cases hc : isspace c = true <;> simp [hc]

theorem cnfGetToken_append (u key : Text) :
    cnfGetToken (u ++ [nul]) key = some (matchKey key (u.dropWhile isspace ++ [nul])) := by
  rw [cnfGetToken, skipTo_append, Option.map_some]

theorem matchKey_append {key w : Text} (hkey : nul ∉ key) (hw : w ≠ []) :
    matchKey key (key ++ w) = .at w := by
  induction key with
  | nil => rfl
  | cons k key ih =>
    rw [List.mem_cons, not_or] at hkey
    have hne : key ++ w ≠ [] := List.append_ne_nil_of_right_ne_nil key hw
    rw [List.cons_append, matchKey, if_neg (not_or.mpr ⟨hne, Ne.symm hkey.1⟩),
      if_neg (not_not.mpr rfl), ih hkey.2]

/-- The NUL is met before the key is. -/
theorem matchKey_eof {key t : Text} (hnul : nul ∈ t) (ht : cstr t <+: key) (hkey : ¬ key <+: t)
    (w : Text) : matchKey key (t ++ w) = .eof := by
  induction key generalizing t with
  | nil => exact absurd (List.nil_prefix) hkey
  | cons k key ih =>
    cases t with
    | nil => simp at hnul
    | cons c t =>
      rw [List.cons_append, matchKey]
      by_cases hc : c = nul
      · rw [if_pos (.inr hc)]
      · have hmem : nul ∈ t := (List.mem_cons.mp hnul).resolve_left (Ne.symm hc)
        have hne : t ++ w ≠ [] := List.append_ne_nil_of_left_ne_nil (List.ne_nil_of_mem hmem) w
        have hcstr : cstr (c :: t) = c :: cstr t := by simp [cstr, hc]
        rw [hcstr, List.cons_prefix_cons] at ht
        rw [if_neg (not_or.mpr ⟨hne, hc⟩), if_neg (not_not.mpr ht.1)]
        refine ih hmem ht.2 fun h => hkey ?_
        rw [ht.1, List.cons_prefix_cons]
        exact ⟨rfl, h⟩

/-- A line is told from the key by a character of it, or by the line feed. -/
theorem matchKey_null {key t w : Text} (hkey : ¬ key <+: t) (ht : ¬ (nul ∈ t ∧ cstr t <+: key))
    (hline : '\n' ∉ key) (hw : w ≠ []) : matchKey key (t ++ '\n' :: w) = .null := by
  induction key generalizing t with
  | nil => exact absurd (List.nil_prefix) hkey
  | cons k key ih =>
    rw [List.mem_cons, not_or] at hline
    cases t with
    | nil => rw [List.nil_append, matchKey, if_neg (not_or.mpr ⟨hw, by decide⟩), if_pos hline.1]
    | cons c t =>
      have hc : c ≠ nul := by
        rintro rfl
        exact ht ⟨List.mem_cons_self, by simp [cstr]⟩
      have hne : t ++ '\n' :: w ≠ [] := List.append_ne_nil_of_right_ne_nil t (List.cons_ne_nil _ _)
      rw [List.cons_append, matchKey, if_neg (not_or.mpr ⟨hne, hc⟩)]
      split_ifs with hk
      · rfl
      · obtain rfl := not_not.mp hk
        have hcstr : cstr (c :: t) = c :: cstr t := by simp [cstr, hc]
        rw [hcstr, List.cons_prefix_cons] at ht
        rw [List.cons_prefix_cons] at hkey
        exact ih (fun h => hkey ⟨rfl, h⟩)
          (fun h => ht ⟨List.mem_cons_of_mem c h.1, rfl, h.2⟩) hline.2

theorem matchKey_last {key t : Text} (hkey : ¬ key <+: t) :
    (matchKey key (t ++ [nul])).get? = none := by
  induction key generalizing t with
  | nil => exact absurd (List.nil_prefix) hkey
  | cons k key ih =>
    cases t with
    | nil => rfl
    | cons c t =>
      rw [List.cons_append, matchKey]
      split_ifs with h hk
      · rfl
      · rfl
      · obtain rfl := not_not.mp hk
        refine ih fun h => hkey ?_
        rw [List.cons_prefix_cons]
        exact ⟨rfl, h⟩

theorem cnfAdvanceLine_line {l u : Text} (hl : '\n' ∉ l) (hu : u ≠ []) :
    cnfAdvanceLine (l ++ '\n' :: (u ++ [nul])) = .at (u ++ [nul]) := by
  induction l with
  | nil =>
    have hlen : 1 < (u ++ [nul]).length := by
      have := List.length_pos_of_ne_nil hu
      rw [List.length_append, List.length_singleton]
      omega
    rw [List.nil_append, cnfAdvanceLine, if_neg (by simp), if_pos rfl, if_pos hlen]
  | cons c l ih =>
    rw [List.mem_cons, not_or] at hl
    rw [List.cons_append, cnfAdvanceLine, if_neg (by simp), if_neg (Ne.symm hl.1), ih hl.2]

theorem cnfAdvanceLine_end {l : Text} (hl : '\n' ∉ l) :
    cnfAdvanceLine (l ++ ['\n', nul]) = .null := by
  induction l with
  | nil => rfl
  | cons c l ih =>
    rw [List.mem_cons, not_or] at hl
    rw [List.cons_append, cnfAdvanceLine, if_neg (by simp), if_neg (Ne.symm hl.1), ih hl.2]

theorem cnfAdvanceLine_last {u : Text} (hu : '\n' ∉ u) : cnfAdvanceLine (u ++ [nul]) = .null := by
  induction u with
  | nil => rfl
  | cons c u ih =>
    rw [List.mem_cons, not_or] at hu
    rw [List.cons_append, cnfAdvanceLine, if_neg (by simp), if_neg (Ne.symm hu.1), ih hu.2]

/-- The search on a line that is not the last. -/
theorem findBoot_line {l u : Text} (hl : '\n' ∉ l) (fuel : ℕ) :
    (findBoot (fuel + 2) (l ++ '\n' :: (u ++ [nul]))).map Ptr.get? =
      if boot2 <+: l.dropWhile isspace then
        some (some ((l.dropWhile isspace).drop boot2.length ++ '\n' :: (u ++ [nul])))
      else if nul ∈ l.dropWhile isspace ∧ cstr (l.dropWhile isspace) <+: boot2 then some none
      else (findBoot (fuel + 1) (u ++ [nul])).map Ptr.get? := by
  have happ : l ++ '\n' :: (u ++ [nul]) = (l ++ '\n' :: u) ++ [nul] := by simp
  by_cases hblank : l.dropWhile isspace = []
  · -- A blank line is white space in front of the next one.
    have hskip : (l ++ '\n' :: u).dropWhile isspace = u.dropWhile isspace := by
      rw [List.dropWhile_append, hblank, if_pos List.isEmpty_nil]
      rfl
    rw [hblank, if_neg (by decide), if_neg (by simp), findBoot, happ, cnfGetToken_append, hskip,
      findBoot, cnfGetToken_append, Option.bind_some, Option.bind_some]
    by_cases hu : u = []
    · subst hu
      rfl
    · rcases hm : matchKey boot2 (u.dropWhile isspace ++ [nul]) with _ | _ | p
      · rw [← happ, cnfAdvanceLine_line hl hu]
        simp only
        rw [findBoot, cnfGetToken_append, Option.bind_some, hm]
      · rfl
      · rfl
  · have hskip : (l ++ '\n' :: u).dropWhile isspace = l.dropWhile isspace ++ '\n' :: u := by
      rw [List.dropWhile_append, if_neg (by simpa using hblank)]
    rw [findBoot, happ, cnfGetToken_append, hskip, Option.bind_some, List.append_assoc,
      List.cons_append]
    split_ifs with hkey hnul
    · obtain ⟨d, hd⟩ := hkey
      rw [← hd, List.append_assoc, matchKey_append (by decide) (by simp), List.drop_left]
      rfl
    · rw [matchKey_eof hnul.1 hnul.2 hkey]
      rfl
    · rw [matchKey_null hkey hnul (by decide) (by simp), ← happ]
      by_cases hu : u = []
      · subst hu
        rw [List.nil_append, cnfAdvanceLine_end hl]
        rfl
      · rw [cnfAdvanceLine_line hl hu]

/-- The search on the array is the one on the lines in it. -/
theorem findBoot_eq {fuel : ℕ} {u : Text} (h : u.length < fuel) :
    (findBoot fuel (u ++ [nul])).map Ptr.get? =
      some ((afterBoot2 (u.splitOn '\n')).map (· ++ [nul])) := by
  induction fuel generalizing u with
  | zero => omega
  | succ fuel ih =>
    by_cases hline : '\n' ∈ u
    · obtain ⟨l, v, rfl, hl⟩ := List.eq_append_cons_of_mem hline
      rw [List.length_append, List.length_cons] at h
      obtain ⟨fuel, rfl⟩ : ∃ k, fuel = k + 1 := ⟨fuel - 1, by omega⟩
      rw [List.append_assoc, List.cons_append, findBoot_line hl,
        List.splitOn_append_cons_self_of_not_mem hl, afterBoot2]
      split_ifs with hkey hnul
      · have hsplit : v.splitOn '\n' ≠ [] := List.splitOn_ne_nil '\n' v
        rw [Option.map_some, List.intercalate_cons_of_ne_nil hsplit, List.intercalate_splitOn]
        simp
      · rfl
      · rw [ih (by omega)]
    · rw [findBoot, cnfGetToken_append, Option.bind_some, List.splitOn_eq_singleton hline,
        afterBoot2]
      split_ifs with hkey hnul
      · obtain ⟨d, hd⟩ := hkey
        rw [← hd, List.append_assoc, matchKey_append (by decide) (by simp), List.drop_left]
        simp [Ptr.get?]
      · rw [matchKey_eof hnul.1 hnul.2 hkey]
        rfl
      · have hlast := matchKey_last hkey
        rcases hm : matchKey boot2 (u.dropWhile isspace ++ [nul]) with _ | _ | p
        · rw [cnfAdvanceLine_last hline]
          rfl
        · rfl
        · rw [hm] at hlast
          cases hlast

/-! ### The copy -/

theorem poke_append (w : Text) (x c : Char) (z : Text) :
    poke (w ++ x :: z) w.length c = some (w ++ c :: z) := by
  rw [poke, if_pos (by simp), List.set_append_right _ _ (Nat.le_refl _), Nat.sub_self]
  rfl

/-- The copy of the visible characters at the start of a text into an array of NULs. -/
theorem keyLoop_eq {n m : ℕ} (hn : n ≤ m) (x w : Text) :
    (keyLoop n (x ++ [nul]) w.length (w ++ List.replicate m nul)).map Prod.snd =
      some (w ++ (x.takeWhile isgraph).take n ++
        List.replicate (m - ((x.takeWhile isgraph).take n).length) nul) := by
  induction n generalizing m x w with
  | zero => simp [keyLoop]
  | succ n ih =>
    obtain ⟨m, rfl⟩ : ∃ k, m = k + 1 := ⟨m - 1, by omega⟩
    cases x with
    | nil => simp [keyLoop]
    | cons c x =>
      rw [List.cons_append, keyLoop, List.takeWhile_cons]
      by_cases hgraph : isgraph c = true
      · have hc : c ≠ nul := by
          rintro rfl
          revert hgraph
          decide
        have hlen : (w ++ [c]).length = w.length + 1 := List.length_append
        have hw : w ++ c :: List.replicate m nul = (w ++ [c]) ++ List.replicate m nul := by simp
        rw [if_neg hc, if_pos hgraph, if_pos hgraph, List.replicate_succ, poke_append,
          Option.bind_some, hw, ← hlen, ih (by omega), List.take_succ_cons, List.length_cons,
          Nat.add_sub_add_right]
        simp
      · rw [if_neg hgraph, if_neg hgraph]
        split_ifs with hc hspace
        · simp
        · rw [List.replicate_succ, poke_append]
          simp [List.replicate_succ]
        · rw [← List.cons_append, ih (by omega), List.takeWhile_cons, if_neg hgraph]
          simp

/-- `bootfile`, when the value starts with the characters `x`. -/
def copied (x : Text) : Text :=
  (x.takeWhile isgraph).take cnfPathLenMax ++
    List.replicate (cnfPathLenMax - ((x.takeWhile isgraph).take cnfPathLenMax).length) nul

theorem length_copied (x : Text) : (copied x).length = cnfPathLenMax := by
  have := List.length_take_le cnfPathLenMax (x.takeWhile isgraph)
  rw [copied, List.length_append, List.length_replicate]
  omega

theorem isgraph_of_mem_take {x : Text} {n : ℕ} {c : Char} (h : c ∈ (x.takeWhile isgraph).take n) :
    isgraph c = true :=
  List.mem_takeWhile_imp (List.mem_of_mem_take h)

theorem nul_not_mem_visible (x : Text) (n : ℕ) : nul ∉ (x.takeWhile isgraph).take n := by
  intro h
  have := isgraph_of_mem_take h
  revert this
  decide

theorem cstr_copied (x : Text) : cstr (copied x) = (x.takeWhile isgraph).take cnfPathLenMax := by
  rw [copied, cstr_append (nul_not_mem_visible x cnfPathLenMax), cstr, List.takeWhile_replicate]
  simp

theorem nul_mem_copied {x : Text} :
    nul ∈ copied x ↔ (x.takeWhile isgraph).length < cnfPathLenMax := by
  rw [copied, List.mem_append, List.mem_replicate, List.length_take]
  constructor
  · rintro (h | h)
    · exact absurd h (nul_not_mem_visible x cnfPathLenMax)
    · omega
  · intro h
    exact .inr ⟨by omega, rfl⟩

theorem cnfGetKey_eq (v : Text) :
    (cnfGetKey (.at (v ++ [nul])) ps2discBoot).map keyRet =
      match v.dropWhile isspace with
      | [] => some (-1, ps2discBoot)
      | d :: w => some (if d = nul then (-1, ps2discBoot) else (0, copied (d :: w))) := by
  rw [cnfGetKey, skipSpaces_append, Option.bind_some]
  rcases v.dropWhile isspace with _ | ⟨d, w⟩
  · rfl
  · rw [List.cons_append, List.head?_cons]
    by_cases hd : d = nul
    · subst hd
      rfl
    · have hcopy := keyLoop_eq (Nat.le_refl cnfPathLenMax) (d :: w) []
      rw [List.nil_append, List.nil_append, List.length_nil, ← ps2discBoot, ← copied,
        List.cons_append] at hcopy
      obtain ⟨r, hr, hsnd⟩ := Option.map_eq_some_iff.mp hcopy
      rw [if_neg (by simpa using hd), hr]
      simp [hd, hsnd, keyRet]

/-- What a call returns when `r` stands behind the key. -/
def valueResult (r : Text) : Option (ℤ × Text) :=
  match r.dropWhile isspace with
  | [] => some (-1, ps2discBoot)
  | c :: v =>
    if c = nul then some (-1, ps2discBoot)
    else if c ≠ '=' then none
    else match v.dropWhile isspace with
      | [] => some (-1, ps2discBoot)
      | d :: w => some (if d = nul then (-1, ps2discBoot) else (0, copied (d :: w)))

/-- The part of `ps2cnfGetBootFile` behind the search. -/
theorem value_eq (r : Text) :
    ((cnfGetToken (r ++ [nul]) ['=']).bind fun
      | .eof => some ((-1 : ℤ), ps2discBoot)
      | q => (cnfGetKey q ps2discBoot).map keyRet) = valueResult r := by
  rw [cnfGetToken_append, Option.bind_some, valueResult]
  rcases r.dropWhile isspace with _ | ⟨c, v⟩
  · rfl
  · have hne : v ++ [nul] ≠ [] := List.append_ne_nil_of_right_ne_nil v (List.cons_ne_nil _ _)
    rw [List.cons_append, matchKey]
    by_cases hc : c = nul
    · rw [if_pos (.inr hc)]
      simp only
      rw [if_pos hc]
    · rw [if_neg (not_or.mpr ⟨hne, hc⟩)]
      by_cases heq : c = '='
      · subst heq
        rw [if_neg (not_not.mpr rfl), matchKey]
        simp only
        rw [if_neg hc, if_neg (not_not.mpr rfl)]
        exact cnfGetKey_eq v
      · rw [if_pos heq]
        simp only
        rw [if_neg hc, if_pos heq]
        rfl

theorem ps2cnfGetBootFile_content {f : Text} {size : ℕ} (h : readSize f = some size) :
    ps2cnfGetBootFile (.content f) ps2discBoot =
      match afterBoot2 ((f.take size).splitOn '\n') with
      | none => some (-1, ps2discBoot)
      | some r => valueResult r := by
  have hfuel : (f.take size).length < (f.take size ++ [nul]).length := by
    rw [List.length_append]
    exact Nat.lt_succ_self _
  obtain ⟨p, hp, hget⟩ := Option.map_eq_some_iff.mp (findBoot_eq hfuel)
  rw [ps2cnfGetBootFile]
  simp only [h, Option.bind_some, hp]
  rcases ha : afterBoot2 ((f.take size).splitOn '\n') with _ | r <;> rw [ha] at hget
  · rcases p with _ | _ | p
    · rfl
    · rfl
    · cases hget
  · rcases p with _ | _ | p
    · cases hget
    · cases hget
    · obtain rfl := Option.some.inj hget
      exact value_eq r

/-! ### The token of the file -/

theorem bootLine_line {l u : Text} (hl : '\n' ∉ l) :
    bootLine (l ++ '\n' :: u) =
      if boot2 <+: l.dropWhile isspace then some l else bootLine u := by
  rw [bootLine, List.splitOn_append_cons_self_of_not_mem hl, List.find?_cons, bootLine]
  by_cases h : boot2 <+: l.dropWhile isspace
  · rw [List.isPrefixOf_iff_prefix.mpr h, if_pos h]
  · rw [if_neg h]
    rw [← List.isPrefixOf_iff_prefix, Bool.not_eq_true] at h
    rw [h]

/-- The first line of a text that starts with `l`. -/
theorem bootLine_head {l rest : Text} (hl : '\n' ∉ l) (h : boot2 <+: l.dropWhile isspace) :
    bootLine (l ++ rest) = some (l ++ (Text.cutAt '\n' rest).1) := by
  have hword : l.dropWhile isspace ≠ [] := by
    intro hnil
    rw [hnil] at h
    revert h
    decide
  have hkey (x : Text) : boot2 <+: (l ++ x).dropWhile isspace := by
    rw [List.dropWhile_append, if_neg (by simpa using hword)]
    exact h.trans (List.prefix_append _ x)
  by_cases hrest : '\n' ∈ rest
  · obtain ⟨a, b, rfl, ha⟩ := List.eq_append_cons_of_mem hrest
    have hline : '\n' ∉ l ++ a := by simp [hl, ha]
    rw [Text.cutAt_append ha, ← List.append_assoc, bootLine_line hline, if_pos (hkey a)]
  · have hline : '\n' ∉ l ++ rest := by simp [hl, hrest]
    rw [Text.cutAt_of_not_mem hrest, bootLine, List.splitOn_eq_singleton hline,
      List.find?_cons, List.isPrefixOf_iff_prefix.mpr (hkey rest)]

/-- The line of the key in a file, when a part of it was searched. -/
theorem bootLine_of_afterBoot2 {u r : Text} (h : afterBoot2 (u.splitOn '\n') = some r)
    (rest : Text) : ∃ line, bootLine (u ++ rest) = some line ∧
      line.dropWhile isspace = boot2 ++ (Text.cutAt '\n' (r ++ rest)).1 := by
  induction hn : u.length using Nat.strong_induction_on generalizing u with
  | _ n ih =>
    by_cases hline : '\n' ∈ u
    · obtain ⟨l, v, rfl, hl⟩ := List.eq_append_cons_of_mem hline
      rw [List.splitOn_append_cons_self_of_not_mem hl, afterBoot2] at h
      rw [List.append_assoc, List.cons_append, bootLine_line hl]
      split_ifs at h with hkey hnul
      · obtain ⟨d, hd⟩ := hkey
        have hsplit : v.splitOn '\n' ≠ [] := List.splitOn_ne_nil '\n' v
        have hdl : '\n' ∉ d := by
          intro hmem
          refine hl ((List.dropWhile_sublist isspace).subset ?_)
          rw [← hd]
          exact List.mem_append_right boot2 hmem
        rw [← hd, List.drop_left, List.intercalate_cons_of_ne_nil hsplit,
          List.intercalate_splitOn] at h
        refine ⟨l, by rw [← hd, if_pos (List.prefix_append _ _)], ?_⟩
        rw [← hd, ← Option.some.inj h, List.append_assoc, List.append_assoc, List.singleton_append,
          Text.cutAt_append hdl]
      · obtain ⟨line, hb, hw⟩ := ih v.length (by rw [← hn]; simp; omega) h rfl
        exact ⟨line, by rw [if_neg hkey, hb], hw⟩
    · rw [List.splitOn_eq_singleton hline, afterBoot2] at h
      split_ifs at h with hkey hnul
      · refine ⟨_, bootLine_head hline hkey, ?_⟩
        obtain ⟨d, hd⟩ := hkey
        have hdu : '\n' ∉ d := by
          intro hmem
          refine hline ((List.dropWhile_sublist isspace).subset ?_)
          rw [← hd]
          exact List.mem_append_right boot2 hmem
        rw [← hd, List.drop_left, List.intercalate_singleton] at h
        have hword : u.dropWhile isspace ≠ [] := by
          rw [← hd]
          exact List.append_ne_nil_of_left_ne_nil (by decide) d
        rw [List.dropWhile_append, if_neg (by simpa using hword), ← hd, ← Option.some.inj h,
          Text.fst_cutAt_append hdu, List.append_assoc]
      · cases h

/-- White space with a line feed in it reaches over the end of the line. -/
theorem isspace_of_mem_cutAt {b x : Text} (hb : ∀ c ∈ b, isspace c = true) (hline : '\n' ∈ b) :
    ∀ c ∈ (Text.cutAt '\n' (b ++ x)).1, isspace c = true := by
  obtain ⟨a, t, rfl, ha⟩ := List.eq_append_cons_of_mem hline
  intro c hc
  rw [List.append_assoc, List.cons_append, Text.cutAt_append ha] at hc
  exact hb c (List.mem_append_left _ hc)

theorem word_cutAt (x : Text) : word (Text.cutAt '\n' x).1 = word x := by
  induction x with
  | nil => rfl
  | cons c x ih =>
    rw [Text.cutAt]
    split_ifs with hc
    · subst hc
      rfl
    · rw [word, word, List.takeWhile_cons, List.takeWhile_cons, ← word, ← word, ih]

theorem isspace_of_mem_takeWhile {t : Text} : ∀ c ∈ t.takeWhile isspace, isspace c = true :=
  fun _ hc => List.mem_takeWhile_imp hc

theorem not_mem_of_isspace {t : Text} {x : Char} (ht : ∀ c ∈ t, isspace c = true)
    (hx : isspace x = false) : x ∉ t := by
  intro h
  rw [ht x h] at hx
  cases hx

/-- The token, when the equals sign is not in the line of the key. -/
theorem bootToken_eq_none {f line b x : Text} (hline : bootLine f = some line)
    (hword : line.dropWhile isspace = boot2 ++ (Text.cutAt '\n' (b ++ x)).1)
    (hb : ∀ c ∈ b, isspace c = true) (hnl : '\n' ∈ b) : bootToken f = none := by
  have hcut : '=' ∉ line := by
    rw [← List.takeWhile_append_dropWhile (p := isspace) (l := line), hword, List.mem_append,
      List.mem_append, not_or, not_or]
    exact ⟨not_mem_of_isspace isspace_of_mem_takeWhile (by decide), by decide,
      not_mem_of_isspace (isspace_of_mem_cutAt hb hnl) (by decide)⟩
  rw [bootToken, hline, Option.bind_some, Text.cutAt_of_not_mem hcut, Option.bind_none]

/-- The token, when the equals sign is in the line of the key. -/
theorem bootToken_of_value {f line b x : Text} (hline : bootLine f = some line)
    (hword : line.dropWhile isspace = boot2 ++ (Text.cutAt '\n' (b ++ '=' :: x)).1)
    (hb : ∀ c ∈ b, isspace c = true) (hnl : '\n' ∉ b) :
    bootToken f =
      if word ((Text.cutAt '\n' x).1.dropWhile isspace) = [] then none
      else some (word ((Text.cutAt '\n' x).1.dropWhile isspace)) := by
  have hfront : '\n' ∉ b ++ ['='] := by simp [hnl]
  have hcut : '=' ∉ line.takeWhile isspace ++ boot2 ++ b := by
    rw [List.mem_append, List.mem_append, not_or, not_or]
    exact ⟨⟨not_mem_of_isspace isspace_of_mem_takeWhile (by decide), by decide⟩,
      not_mem_of_isspace hb (by decide)⟩
  have hsplit : line = (line.takeWhile isspace ++ boot2 ++ b) ++ '=' :: (Text.cutAt '\n' x).1 := by
    have happ : b ++ '=' :: x = (b ++ ['=']) ++ x := by simp
    calc line = line.takeWhile isspace ++ line.dropWhile isspace :=
          List.takeWhile_append_dropWhile.symm
      _ = _ := by
          rw [hword, happ, Text.fst_cutAt_append hfront]
          simp
  rw [bootToken, hline, Option.bind_some, hsplit, Text.cutAt_append hcut, Option.bind_some]

theorem isspace_head {v w : Text} {d : Char} (h : v.dropWhile isspace = d :: w) :
    isspace d = false := by
  have hne : v.dropWhile isspace ≠ [] := by
    rw [h]
    exact List.cons_ne_nil d w
  have hhead := List.head_dropWhile_not isspace hne
  simpa [h] using hhead

theorem word_cons {c : Char} (h : isspace c = false) (t : Text) : word (c :: t) = c :: word t := by
  rw [word, List.takeWhile_cons_of_pos (by simp [h])]
  rfl

theorem isgraph_eq_false {c : Char} (h : isspace c = true) : isgraph c = false := by
  rw [isspace, Bool.or_eq_true, Bool.and_eq_true, beq_iff_eq, decide_eq_true_eq,
    decide_eq_true_eq] at h
  rw [isgraph, Bool.and_eq_false_iff, decide_eq_false_iff_not]
  left
  rcases h with rfl | ⟨-, h⟩
  · decide
  · intro hc
    exact absurd (Char.le_trans hc h) (by decide)

/-- The visible characters at the start are the token, when it is visible and was read. -/
theorem takeWhile_isgraph_eq {v rest : Text} (hvis : ∀ c ∈ word (v ++ rest), isgraph c)
    (hlen : (word (v ++ rest)).length ≤ v.length) : v.takeWhile isgraph = word (v ++ rest) := by
  have hprefix : word (v ++ rest) <+: v :=
    List.prefix_of_prefix_length_le (List.takeWhile_prefix _) (List.prefix_append v rest) hlen
  obtain ⟨s, hs⟩ := hprefix
  generalize hword : word (v ++ rest) = t at hvis hs
  subst hs
  rw [List.takeWhile_append_of_pos hvis, List.append_right_eq_self]
  cases s with
  | nil => rfl
  | cons c s =>
    have hstop : isspace c = true := by
      by_contra hc
      rw [Bool.not_eq_true] at hc
      have ht : ∀ a ∈ t, (fun c => !isspace c) a = true := by
        intro a ha
        rw [← hword, word] at ha
        exact List.mem_takeWhile_imp (p := fun c => !isspace c) ha
      rw [word, List.append_assoc, List.takeWhile_append_of_pos ht, List.append_right_eq_self,
        List.cons_append, ← word, word_cons hc] at hword
      cases hword
    rw [List.takeWhile_cons_of_neg (by simp [isgraph_eq_false hstop])]

theorem word_value {v w rest : Text} {d : Char} (hv : v.dropWhile isspace = d :: w)
    (hnl : '\n' ∉ v.takeWhile isspace) :
    word ((Text.cutAt '\n' (v ++ rest)).1.dropWhile isspace) =
      word (v.dropWhile isspace ++ rest) := by
  have hd := isspace_head hv
  have hne : d ≠ '\n' := by
    rintro rfl
    revert hd
    decide
  have hcut : (Text.cutAt '\n' (v ++ rest)).1 =
      v.takeWhile isspace ++ (Text.cutAt '\n' (v.dropWhile isspace ++ rest)).1 := by
    rw [← Text.fst_cutAt_append hnl, ← List.append_assoc, List.takeWhile_append_dropWhile]
  rw [hcut, List.dropWhile_append_of_pos isspace_of_mem_takeWhile, ← word_cutAt (_ ++ rest), hv,
    List.cons_append, Text.cutAt, if_neg hne, List.dropWhile_cons_of_neg (by simp [hd])]

theorem value_blank {v : Text} (hnl : '\n' ∈ v.takeWhile isspace) (rest : Text) :
    (Text.cutAt '\n' (v ++ rest)).1.dropWhile isspace = [] := by
  rw [List.dropWhile_eq_nil_iff, ← List.takeWhile_append_dropWhile (p := isspace) (l := v),
    List.append_assoc]
  exact isspace_of_mem_cutAt isspace_of_mem_takeWhile hnl

/-- What the array holds is the token of the file. -/
theorem holdsToken_copied_iff {f r v w : Text} {d : Char} {size : ℕ}
    (ha : afterBoot2 ((f.take size).splitOn '\n') = some r) (hr : r.dropWhile isspace = '=' :: v)
    (hv : v.dropWhile isspace = d :: w) :
    HoldsToken f (copied (d :: w)) ↔ ValueOk (r.takeWhile isspace) v (f.drop size) := by
  obtain ⟨line, hline, hword⟩ := bootLine_of_afterBoot2 ha (f.drop size)
  rw [List.take_append_drop] at hline
  have hsplit : r ++ f.drop size = r.takeWhile isspace ++ '=' :: (v ++ f.drop size) := by
    rw [← List.cons_append, ← hr, ← List.append_assoc, List.takeWhile_append_dropWhile]
  rw [hsplit] at hword
  have htoken (hkey : '\n' ∉ r.takeWhile isspace) (hval : '\n' ∉ v.takeWhile isspace) :
      bootToken f = some (word (v.dropWhile isspace ++ f.drop size)) := by
    rw [bootToken_of_value hline hword isspace_of_mem_takeWhile hkey, word_value hv hval, if_neg]
    rw [hv, List.cons_append, word_cons (isspace_head hv)]
    exact List.cons_ne_nil d _
  constructor
  · intro h
    have hkey : '\n' ∉ r.takeWhile isspace := by
      intro hnl
      have := h.token
      rw [bootToken_eq_none hline hword isspace_of_mem_takeWhile hnl] at this
      cases this
    have hval : '\n' ∉ v.takeWhile isspace := by
      intro hnl
      have := h.token
      rw [bootToken_of_value hline hword isspace_of_mem_takeWhile hkey, value_blank hnl] at this
      cases this
    have hfit := nul_mem_copied.mp h.nul_mem
    have hword : word (v.dropWhile isspace ++ f.drop size) = (d :: w).takeWhile isgraph := by
      have := (htoken hkey hval).symm.trans h.token
      rw [cstr_copied, List.take_of_length_le hfit.le] at this
      exact Option.some.inj this
    refine ⟨hkey, hval, ?_, ?_, ?_⟩ <;> rw [hword]
    · exact fun c hc => List.mem_takeWhile_imp hc
    · exact hfit
    · rw [hv]
      exact (List.takeWhile_prefix _).length_le
  · intro h
    have hvis := takeWhile_isgraph_eq h.visible h.length_le
    have hlen := h.length_lt
    rw [← hvis, hv] at hlen
    refine ⟨length_copied _, nul_mem_copied.mpr hlen, ?_⟩
    rw [htoken h.key_line h.value_line, ← hvis, hv, cstr_copied, List.take_of_length_le hlen.le]

/-! ### The name of the file -/

theorem skipDevice_append {s : Text} (hs : nul ∉ s) (z : Text) :
    skipDevice (s ++ nul :: z) = some ((Text.cutAt ':' s).2.map (· ++ nul :: z)) := by
  induction s with
  | nil => rfl
  | cons c s ih =>
    rw [List.mem_cons, not_or] at hs
    rw [List.cons_append, skipDevice, Text.cutAt, if_neg (Ne.symm hs.1), ih hs.2]
    split_ifs <;> rfl

theorem skipBackslashes_append (s z : Text) :
    skipBackslashes (s ++ nul :: z) = some (s.dropWhile (· == '\\') ++ nul :: z) := by
  induction s with
  | nil => rfl
  | cons c s ih =>
    rw [List.cons_append, skipBackslashes, List.dropWhile_cons, ih]
    by_cases hc : c = '\\' <;> simp [hc]

theorem execLength_append {s : Text} (hs : nul ∉ s) (z : Text) :
    execLength (s ++ nul :: z) = some (s.takeWhile (· != ';')).length := by
  induction s with
  | nil => rfl
  | cons c s ih =>
    rw [List.mem_cons, not_or] at hs
    rw [List.cons_append, execLength, List.takeWhile_cons, ih hs.2]
    by_cases hc : c = ';'
    · simp [hc]
    · simp [hc, Ne.symm hs.1]

/-- `strncpy` of the characters that were counted. -/
theorem take_min_length (s z : Text) (q : Char → Bool) (n : ℕ) :
    (s ++ z).take (min (s.takeWhile q).length n) = (s.takeWhile q).take n := by
  have hle : min (s.takeWhile q).length n ≤ s.length :=
    Nat.le_trans (Nat.min_le_left _ _) (List.takeWhile_prefix q).length_le
  have hprefix : s.take (s.takeWhile q).length = s.takeWhile q :=
    List.prefix_iff_eq_take.mp (List.takeWhile_prefix q) |>.symm
  rw [List.take_append_of_le_length hle, Nat.min_comm, ← List.take_take, hprefix]

theorem getStartupExecName_of_zero {file : CnfFile} {boot filename : Text} {maxlength : ℕ}
    (h : ps2cnfGetBootFile file ps2discBoot = some (0, boot)) (hnul : nul ∈ boot)
    (hmax : maxlength < filename.length) :
    getStartupExecName file filename maxlength =
      some (execResult (cstr boot) filename maxlength) := by
  obtain ⟨s, z, rfl, hs⟩ := List.eq_append_cons_of_mem hnul
  have hcstr : cstr (s ++ nul :: z) = s := by
    rw [cstr_append hs]
    simp [cstr]
  rw [getStartupExecName, h, Option.bind_some, hcstr]
  simp only
  rw [skipDevice_append hs, Option.bind_some, execResult, execName]
  rcases hcut : Text.cutAt ':' s with ⟨device, _ | path⟩
  · rfl
  · have hpath : nul ∉ path := by
      intro hmem
      refine hs ?_
      rw [(Text.cutAt_eq_some.mp hcut).1]
      exact List.mem_append_right device (List.mem_cons_of_mem ':' hmem)
    have hname : nul ∉ path.dropWhile (· == '\\') := fun hmem =>
      hpath ((List.dropWhile_sublist _).subset hmem)
    have hlen : min ((path.dropWhile (· == '\\')).takeWhile (· != ';')).length maxlength =
        (((path.dropWhile (· == '\\')).takeWhile (· != ';')).take maxlength).length := by
      rw [List.length_take, Nat.min_comm]
    rw [Option.map_some, Option.bind_some]
    simp only
    rw [skipBackslashes_append, Option.bind_some, execLength_append hname, Option.bind_some,
      take_min_length, hlen]
    generalize hn : ((path.dropWhile (· == '\\')).takeWhile (· != ';')).take maxlength = name
    have hfit : name.length ≤ maxlength := by
      rw [← hn]
      exact List.length_take_le maxlength _
    by_cases hempty : name = []
    · rw [if_pos (by rw [hempty]; rfl)]
      simp [hempty]
    · rw [if_neg (by simpa using hempty), Bytes.store_of_le (by simp; omega)]
      simp [hempty]

theorem getStartupExecName_of_ne {file : CnfFile} {boot : Text} {ret : ℤ} (hret : ret ≠ 0)
    (h : ps2cnfGetBootFile file ps2discBoot = some (ret, boot)) (filename : Text)
    (maxlength : ℕ) : getStartupExecName file filename maxlength = some (ret, filename) := by
  rw [getStartupExecName, h, Option.bind_some]
  split
  · next heq => exact absurd (congrArg Prod.fst heq) hret
  · next heq =>
      obtain ⟨rfl, rfl⟩ := Prod.mk.inj heq
      rfl

/-! ### The files for which they do what is asked -/

theorem bootOk_of_bootsWell {f : Text} (h : BootsWell f) : BootOk f := by
  obtain ⟨ret, boot, hret, hzero, -⟩ := h
  rcases hsize : readSize f with _ | size
  · rw [ps2cnfGetBootFile] at hret
    simp [hsize] at hret
  · refine ⟨size, hsize, fun r ha c v hr hc => ?_⟩
    rw [ps2cnfGetBootFile_content hsize, ha] at hret
    simp only [valueResult, hr, if_neg hc] at hret
    split_ifs at hret with heq
    obtain rfl := not_not.mp heq
    refine ⟨rfl, fun d w hv hd => ?_⟩
    simp only [hv, if_neg hd] at hret
    obtain ⟨rfl, rfl⟩ := Prod.mk.inj (Option.some.inj hret)
    exact (holdsToken_copied_iff ha hr hv).mp (hzero rfl)

theorem bootsWell_of_bootOk {f : Text} (h : BootOk f) : BootsWell f := by
  obtain ⟨size, hsize, hok⟩ := h
  have hboot : ∃ ret boot, ps2cnfGetBootFile (.content f) ps2discBoot = some (ret, boot) ∧
      (ret = 0 → HoldsToken f boot) := by
    rw [ps2cnfGetBootFile_content hsize]
    rcases ha : afterBoot2 ((f.take size).splitOn '\n') with _ | r
    · exact ⟨-1, ps2discBoot, rfl, by simp⟩
    rcases hr : r.dropWhile isspace with _ | ⟨c, v⟩
    · exact ⟨-1, ps2discBoot, by simp only [valueResult, hr], by simp⟩
    by_cases hc : c = nul
    · exact ⟨-1, ps2discBoot, by simp only [valueResult, hr, if_pos hc], by simp⟩
    obtain ⟨rfl, hvalue⟩ := hok r ha c v hr hc
    simp only [valueResult, hr, if_neg hc, if_neg (not_not.mpr rfl)]
    rcases hv : v.dropWhile isspace with _ | ⟨d, w⟩
    · exact ⟨-1, ps2discBoot, rfl, by simp⟩
    by_cases hd : d = nul
    · exact ⟨-1, ps2discBoot, by simp only [if_pos hd], by simp⟩
    · refine ⟨0, copied (d :: w), by simp only [if_neg hd], fun _ => ?_⟩
      exact (holdsToken_copied_iff ha hr hv).mpr (hvalue d w hv hd)
  obtain ⟨ret, boot, hret, hzero⟩ := hboot
  refine ⟨ret, boot, hret, hzero, fun filename maxlength hmax => ?_⟩
  by_cases h0 : ret = 0
  · subst h0
    rw [if_pos rfl, getStartupExecName_of_zero hret (hzero rfl).nul_mem hmax]
  · rw [if_neg h0, getStartupExecName_of_ne h0 hret]

/-- `SYSTEM.CNF` is read as it should be exactly when an equals sign follows the key and, when they
have a value, it is in the line of the key, visible, and short enough for both arrays. -/
theorem bootsWell_iff (f : Text) : BootsWell f ↔ BootOk f :=
  ⟨bootOk_of_bootsWell, bootsWell_of_bootOk⟩

/-- Without the equals sign, the value is read through `NULL`. -/
theorem not_bootsWell : ¬ BootsWell "BOOT2 cdrom0:\\SLUS_123.45;1\n".toList := by
  rintro ⟨ret, boot, h, -⟩
  have hnone : ps2cnfGetBootFile (.content "BOOT2 cdrom0:\\SLUS_123.45;1\n".toList) ps2discBoot =
      none := by decide
  rw [hnone] at h
  cases h

end Cnf

end OpenPS2Loader
