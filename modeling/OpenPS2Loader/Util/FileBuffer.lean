import OpenPS2Loader.Lib.CString

/-!
# Buffered files

The file buffers of `util.c`. A reader hands out the lines of a file one by one from a buffer that
is refilled, and shifted, as the lines are used up; a writer collects what it is given and flushes
the buffer when the next piece does not fit.

## Main definitions

* `FileBuffer` — a buffer opened for reading, `openFileBufferBuffer` and `openFileBuffer`
* `FileBuffer.readFileBuffer` — the next line
* `FileBuffer.lines` — all the lines that repeated calls deliver
* `WriteBuffer` — a buffer opened for writing, with `writeFileBuffer` and `closeFileBuffer`

## Main results

* `FileBuffer.lines_of_holds` — the lines read are the lines of the file
* `WriteBuffer.closeFileBuffer_of_ok` — what is on disk when every call succeeds
* `WriteBuffer.closeFileBuffer_writeAll` — which calls are made, and what is on disk after them
-/

namespace OpenPS2Loader

/-! ### Reading -/

/-- A `file_buffer_t` opened for reading. -/
structure FileBuffer where
  /-- The bytes `read` has not delivered yet, or `none` once the descriptor is closed. -/
  fd : Option Text
  size : ℕ
  available : ℕ
  /-- The bytes from `lastPtr` to the end of the data in the buffer; `none` is `NULL`. -/
  lastPtr : Option Text
  deriving DecidableEq

namespace FileBuffer

/-- A buffer of `size` bytes over an open file whose bytes are `bytes`, before the first read. -/
def ofFile (size : ℕ) (bytes : Text) : FileBuffer where
  fd := some bytes
  size := size
  available := 0
  lastPtr := none

/-- The UTF-8 byte order mark. -/
def bom : Text := [Char.ofNat 0xEF, Char.ofNat 0xBB, Char.ofNat 0xBF]

/-- `openFileBuffer` of an existing file with mode `O_RDONLY`: a byte order mark is skipped. -/
def openFileBuffer (size : ℕ) (bytes : Text) : FileBuffer :=
  ofFile size (if bytes.take 3 = bom then bytes.drop 3 else bytes)

/-- `openFileBufferBuffer`: the data is in the buffer, and there is no descriptor. -/
def openFileBufferBuffer (bytes : Text) : FileBuffer where
  fd := none
  size := bytes.length
  available := bytes.length
  lastPtr := some bytes

/-- On Windows a line ends with CR and LF: the CR is dropped too. -/
def stripCR (l : Text) : Text := if l.getLast? = some '\r' then l.dropLast else l

/-- How a pass of the loop of `readFileBuffer` ends. -/
inductive Pass where
  /-- `return 0` -/
  | eof (fb : FileBuffer)
  /-- `continue` behind a comment, with the value left in `lineSize` -/
  | skip (fb : FileBuffer) (lineSize : ℕ)
  /-- `return 1` with a line -/
  | line (l : Text) (fb : FileBuffer)
  /-- the data is moved from `NULL` -/
  | fault
  deriving DecidableEq

/-- The second half of a pass: the line is the bytes `t` at `lastPtr` up to the line feed, or all of
them when there is none. -/
def deliver (fb : FileBuffer) (t : Text) (posLF : Option ℕ) : Pass :=
  let l := stripCR (match posLF with
    | some n => t.take n
    | none => t)
  let next := { fb with lastPtr := posLF.map fun n => t.drop (n + 1) }
  if l = [] ∧ fb.available = 0 ∧ fb.fd = none then .eof { fb with lastPtr := some t }
  else if l.head? = some '#' then .skip next l.length
  else .line (cstr l) next

/-- Completing the buffer behind the bytes `t` that are left in it, when the descriptor is open. The
line feed is searched for in the new bytes only. -/
def refill (fb : FileBuffer) (t : Text) : Pass :=
  match fb.fd with
  | none => deliver { fb with available := t.length } t none
  | some bytes =>
    let new := bytes.take (fb.size - t.length - 1)
    let lineSize := t.length + new.length
    -- a buffer that is not full means the end of the file
    let fd := if fb.size ≠ lineSize + 1 then none else some (bytes.drop new.length)
    deliver { fb with fd := fd, available := lineSize } (t ++ new)
      ((strchr '\n' new).map (t.length + ·))

/-- One pass of the loop of `readFileBuffer`, entered with a value in `lineSize`. -/
def pass (fb : FileBuffer) (lineSize : ℕ) : Pass :=
  match fb.lastPtr with
  | some t =>
    match strchr '\n' t with
    | some n => deliver fb t (some n)
    | none => refill fb t
  | none => if lineSize ≠ 0 then .fault else refill fb []

/-- The number of bytes that are still to come. -/
def remaining (fb : FileBuffer) : ℕ := (fb.lastPtr.getD []).length + (fb.fd.getD []).length

/-- `readFileBuffer`: the next line, or `none` when the file has ended. There is no result when the
loop faults, or when it makes more than `fuel` passes. -/
def readFileBuffer : ℕ → FileBuffer → ℕ → Option (Option Text × FileBuffer)
  | 0, _, _ => none
  | fuel + 1, fb, lineSize =>
    match pass fb lineSize with
    | .eof fb => some (none, fb)
    | .skip fb lineSize => readFileBuffer fuel fb lineSize
    | .line l fb => some (some l, fb)
    | .fault => none

/-- `while (readFileBuffer(fileBuffer, &line))`, for at most `fuel` calls. Every pass of the loop
inside a call uses up a byte or is the last one. -/
def linesFrom : ℕ → FileBuffer → Option (List Text)
  | 0, _ => none
  | fuel + 1, fb =>
    match readFileBuffer (fb.remaining + 2) fb 0 with
    | none => none
    | some (none, _) => some []
    | some (some l, fb) => (linesFrom fuel fb).map (l :: ·)

/-- The lines that the calls of `readFileBuffer` deliver until it returns 0. -/
def lines (fb : FileBuffer) : Option (List Text) := linesFrom (fb.remaining + 2) fb

/-! ### The lines of a file -/

/-- What a reader sees of the lines of a file: no CR at their end, and no comment lines. -/
def visible (ls : List Text) : List Text :=
  (ls.map stripCR).filter fun l => l.head? ≠ some '#'

/-- The bytes still to come are `rest`, and the buffer has room for more of them. -/
structure Holds (fb : FileBuffer) (rest : Text) : Prop where
  bytes : fb.lastPtr.getD [] ++ fb.fd.getD [] = rest
  available : (fb.lastPtr.getD []).length ≤ fb.available
  room : fb.fd ≠ none → (fb.lastPtr.getD []).length < fb.size ∧ 2 ≤ fb.size

/-- A line the buffer can hold, together with its line feed and a NUL. -/
structure Fits (fb : FileBuffer) (l : Text) : Prop where
  lf : '\n' ∉ l
  nul : nul ∉ l
  length_le : fb.fd ≠ none → l.length + 2 ≤ fb.size

theorem holds_ofFile {size : ℕ} (h : 2 ≤ size) (bytes : Text) :
    (ofFile size bytes).Holds bytes where
  bytes := rfl
  available := Nat.zero_le _
  room _ := ⟨by simp only [ofFile, Option.getD_none, List.length_nil]; omega, h⟩

theorem holds_openFileBufferBuffer (bytes : Text) : (openFileBufferBuffer bytes).Holds bytes where
  bytes := List.append_nil bytes
  available := le_rfl
  room h := absurd rfl h

theorem nul_not_mem_stripCR {l : Text} (h : nul ∉ l) : nul ∉ stripCR l := by
  rw [stripCR]
  split_ifs
  · exact fun hm => h (List.dropLast_subset l hm)
  · exact h

/-- A line of the file, and the buffer behind it. -/
theorem deliver_line {fb : FileBuffer} {l r : Text} (hnul : nul ∉ l)
    (havail : fb.available ≠ 0) :
    deliver fb (l ++ '\n' :: r) (some l.length) =
      if (stripCR l).head? = some '#' then
        .skip { fb with lastPtr := some r } (stripCR l).length
      else .line (stripCR l) { fb with lastPtr := some r } := by
  have htake : (l ++ '\n' :: r).take l.length = l := by simp
  have hdrop : (l ++ '\n' :: r).drop (l.length + 1) = r := by
    rw [← List.drop_drop, List.drop_left]
    rfl
  rw [deliver]
  simp only [htake, hdrop, Option.map_some, havail, false_and, and_false, if_false,
    cstr_of_nul_not_mem (nul_not_mem_stripCR hnul)]

/-- How a pass ends that meets the line `l`, with the bytes `rest` behind it. -/
def Meets (fb : FileBuffer) (l rest : Text) (p : Pass) : Prop :=
  ∃ fb' : FileBuffer, fb'.Holds rest ∧ fb'.size = fb.size ∧ (fb'.fd ≠ none → fb.fd ≠ none) ∧
    fb'.lastPtr ≠ none ∧
    p = if (stripCR l).head? = some '#' then .skip fb' (stripCR l).length
      else .line (stripCR l) fb'

/-- When the buffer holds only the beginning `t` of the line, completing it brings the rest. -/
theorem refill_of_holds {fb : FileBuffer} {t l rest : Text}
    (h : fb.Holds (l ++ '\n' :: rest)) (hfit : fb.Fits l) (ht : fb.lastPtr.getD [] = t)
    (hlf : '\n' ∉ t) : fb.Meets l rest (refill fb t) := by
  have hbytes := h.bytes
  rw [ht] at hbytes
  rcases hfd : fb.fd with _ | bytes
  · -- a closed descriptor leaves the line feed in the buffer
    rw [hfd, Option.getD_none, List.append_nil] at hbytes
    simp [hbytes] at hlf
  rw [hfd, Option.getD_some] at hbytes
  obtain ⟨hroom, hsize⟩ := h.room (by simp [hfd])
  have hlen := hfit.length_le (by simp [hfd])
  rw [ht] at hroom
  obtain ⟨s, rfl⟩ := Text.prefix_of_append_eq hbytes hlf
  rw [List.append_assoc, List.append_cancel_left_eq] at hbytes
  rw [List.length_append] at hlen
  have hslf : '\n' ∉ s := fun hm => hfit.lf (List.mem_append_right t hm)
  have hsnul : nul ∉ s := fun hm => hfit.nul (List.mem_append_right t hm)
  -- the buffer takes the rest of the line, the line feed and `j` more bytes
  generalize hk : fb.size - t.length - 1 = k
  obtain ⟨j, hj⟩ : ∃ j, k = s.length + 1 + j := ⟨k - s.length - 1, by omega⟩
  have hnew : bytes.take k = s ++ '\n' :: rest.take j := by
    rw [hbytes, hj, Text.take_append_cons]
  have hdrop : bytes.drop k = rest.drop j := by
    rw [hbytes, hj, Text.drop_append_cons]
  have hnewlen : (bytes.take k).length = s.length + 1 + (rest.take j).length := by
    rw [hnew, List.length_append, List.length_cons]
    omega
  have hrestlen : (rest.take j).length = min j rest.length := List.length_take
  refine ⟨⟨if fb.size ≠ t.length + (bytes.take k).length + 1 then none
      else some (bytes.drop (bytes.take k).length), fb.size,
      t.length + (bytes.take k).length, some (rest.take j)⟩, ⟨?_, ?_, ?_⟩, rfl, ?_, by simp, ?_⟩
  · -- the descriptor is closed only when all its bytes were read
    rw [Option.getD_some]
    by_cases hfull : fb.size = t.length + (bytes.take k).length + 1
    · have hkk : (bytes.take k).length = k := by omega
      rw [if_neg (not_not.mpr hfull), Option.getD_some, hkk, hdrop, List.take_append_drop]
    · rw [if_pos hfull, Option.getD_none, List.append_nil, List.take_of_length_le]
      omega
  · simp only [Option.getD_some]
    omega
  · intro hopen
    have hfull : fb.size = t.length + (bytes.take k).length + 1 := by
      by_contra hne
      exact hopen (if_pos hne)
    refine ⟨?_, hsize⟩
    simp only [Option.getD_some]
    omega
  · intro _
    simp [hfd]
  · have hpos : (strchr '\n' (bytes.take k)).map (t.length + ·) = some (t ++ s).length := by
      rw [hnew, strchr_append hslf hsnul, List.length_append]
      rfl
    have happ : t ++ bytes.take k = t ++ s ++ '\n' :: rest.take j := by
      rw [hnew, List.append_assoc]
    rw [refill, hfd]
    dsimp only
    rw [hk, hpos, happ, deliver_line hfit.nul (by dsimp only; omega)]

/-- The next line is found at `lastPtr`, or in the bytes that complete the buffer. -/
theorem pass_of_holds {fb : FileBuffer} {l rest : Text} {n : ℕ}
    (h : fb.Holds (l ++ '\n' :: rest)) (hfit : fb.Fits l) (hn : fb.lastPtr = none → n = 0) :
    fb.Meets l rest (pass fb n) := by
  rcases hptr : fb.lastPtr with _ | t
  · rw [pass, hptr]
    dsimp only
    rw [if_neg (by simp [hn hptr])]
    exact refill_of_holds h hfit (by simp [hptr]) (by simp)
  by_cases hlf : '\n' ∈ t
  · -- the line is in the buffer
    have hbytes := h.bytes
    rw [hptr, Option.getD_some] at hbytes
    obtain ⟨a, r, rfl, ha⟩ := List.eq_append_cons_of_mem hlf
    rw [List.append_assoc] at hbytes
    have hal : a = l ∧ r ++ fb.fd.getD [] = rest := by
      have := congrArg (Text.cutAt '\n') hbytes
      rw [List.cons_append, Text.cutAt_append ha, Text.cutAt_append hfit.lf] at this
      simpa using this
    obtain ⟨rfl, hrest⟩ := hal
    have havail := h.available
    have hroom := h.room
    simp only [hptr, Option.getD_some, List.length_append, List.length_cons] at havail hroom
    refine ⟨{ fb with lastPtr := some r }, ⟨hrest, ?_, ?_⟩, rfl, id, by simp, ?_⟩
    · simp only [Option.getD_some]
      omega
    · intro hopen
      have := hroom hopen
      simp only [Option.getD_some]
      omega
    · rw [pass, hptr]
      dsimp only
      rw [strchr_append ha hfit.nul]
      dsimp only
      rw [deliver_line hfit.nul (by omega)]
  · rw [pass, hptr]
    dsimp only
    rw [strchr_of_not_mem hlf]
    exact refill_of_holds h hfit (by simp [hptr]) hlf

/-- With no bytes left the file has ended. -/
theorem pass_of_holds_nil {fb : FileBuffer} {n : ℕ} (h : fb.Holds [])
    (hn : fb.lastPtr = none → n = 0) : ∃ fb', pass fb n = .eof fb' ∧ fb'.Holds [] := by
  obtain ⟨hptr, hfd⟩ := List.append_eq_nil_iff.mp h.bytes
  have hholds : (FileBuffer.mk none fb.size 0 (some [])).Holds [] :=
    ⟨rfl, Nat.zero_le _, fun hopen => absurd rfl hopen⟩
  have hrefill : ∃ fb', refill fb [] = .eof fb' ∧ fb'.Holds [] := by
    refine ⟨_, ?_, hholds⟩
    rcases hfd' : fb.fd with _ | bytes
    · simp [refill, hfd', deliver, stripCR]
    · rw [hfd', Option.getD_some] at hfd
      have hsize := (h.room (by simp [hfd'])).2
      simp [refill, hfd', hfd, strchr, deliver, stripCR, show fb.size ≠ 1 by omega]
  rw [pass]
  rcases hptr' : fb.lastPtr with _ | t
  · simpa [hn hptr'] using hrefill
  · rw [hptr', Option.getD_some] at hptr
    subst hptr
    simpa [strchr] using hrefill

theorem visible_cons (l : Text) (ls : List Text) :
    visible (l :: ls) =
      if (stripCR l).head? = some '#' then visible ls else stripCR l :: visible ls := by
  rw [visible, visible, List.map_cons, List.filter_cons]
  simp only [decide_not, Bool.not_eq_true', decide_eq_false_iff_not, ite_not]

/-- Lines with no CR and no `#` at their beginning are seen as they are. -/
theorem visible_eq_self {ls : List Text} (h : ∀ l ∈ ls, '\r' ∉ l ∧ l.head? ≠ some '#') :
    visible ls = ls := by
  have hstrip : ∀ l ∈ ls, stripCR l = l := fun l hl => by
    rw [stripCR, if_neg fun hlast => (h l hl).1 (List.mem_of_getLast? hlast)]
  rw [visible, List.map_congr_left hstrip, List.map_id', List.filter_eq_self]
  exact fun l hl => decide_eq_true (h l hl).2

/-- A call returns the first line that is not a comment, or finds the end of the file. -/
theorem readFileBuffer_of_holds {ls : List Text} {fb : FileBuffer} {n fuel : ℕ}
    (h : fb.Holds (joinLines ls)) (hfit : ∀ l ∈ ls, fb.Fits l) (hn : fb.lastPtr = none → n = 0)
    (hfuel : ls.length < fuel) :
    (visible ls = [] ∧ ∃ fb', readFileBuffer fuel fb n = some (none, fb')) ∨
    ∃ l ls' fb', visible ls = l :: visible ls' ∧ ls'.length < ls.length ∧
      (fb' : FileBuffer).Holds (joinLines ls') ∧ (∀ l ∈ ls', fb'.Fits l) ∧
      readFileBuffer fuel fb n = some (some l, fb') := by
  induction ls generalizing fb n fuel with
  | nil =>
    obtain ⟨fuel, rfl⟩ := Nat.exists_eq_succ_of_ne_zero (Nat.ne_of_gt hfuel)
    obtain ⟨fb', heof, -⟩ := pass_of_holds_nil h hn
    exact .inl ⟨rfl, fb', by rw [readFileBuffer, heof]⟩
  | cons l ls ih =>
    obtain ⟨fuel, rfl⟩ := Nat.exists_eq_succ_of_ne_zero (Nat.ne_of_gt (Nat.zero_lt_of_lt hfuel))
    rw [joinLines_cons] at h
    obtain ⟨fb', hholds, hsize, hopen, hptr, hpass⟩ :=
      pass_of_holds h (hfit l List.mem_cons_self) hn
    have hfit' : ∀ m ∈ ls, fb'.Fits m := fun m hm =>
      have := hfit m (List.mem_cons_of_mem l hm)
      ⟨this.lf, this.nul, fun ho => hsize ▸ this.length_le (hopen ho)⟩
    rw [visible_cons, readFileBuffer, hpass]
    split_ifs with hcomment
    · rcases ih hholds hfit' (fun hnone => absurd hnone hptr) (Nat.lt_of_succ_lt_succ hfuel) with
        hend | ⟨m, ls', fb'', hvis, hlen, hrest⟩
      · exact .inl hend
      · exact .inr ⟨m, ls', fb'', hvis, Nat.lt_succ_of_lt hlen, hrest⟩
    · exact .inr ⟨_, ls, fb', rfl, Nat.lt_succ_self _, hholds, hfit', rfl⟩

theorem length_le_length_joinLines (ls : List Text) : ls.length ≤ (joinLines ls).length := by
  induction ls with
  | nil => exact Nat.zero_le _
  | cons l ls ih =>
    rw [joinLines_cons, List.length_append, List.length_cons, List.length_cons]
    omega

theorem linesFrom_of_holds {ls : List Text} {fb : FileBuffer} {fuel : ℕ}
    (h : fb.Holds (joinLines ls)) (hfit : ∀ l ∈ ls, fb.Fits l) (hfuel : ls.length < fuel) :
    linesFrom fuel fb = some (visible ls) := by
  induction fuel generalizing ls fb with
  | zero => omega
  | succ fuel ih =>
    have hrem : fb.remaining = (joinLines ls).length := by
      rw [remaining, ← List.length_append, h.bytes]
    have hcall : ls.length < fb.remaining + 2 := by
      have := length_le_length_joinLines ls
      omega
    rw [linesFrom]
    rcases readFileBuffer_of_holds h hfit (fun _ => rfl) hcall with
      ⟨hvis, fb', hread⟩ | ⟨l, ls', fb', hvis, hlen, hholds, hfit', hread⟩
    · rw [hread, hvis]
    · rw [hread, hvis]
      dsimp only
      rw [ih hholds hfit' (by omega), Option.map_some]

/-- **Reading a file line by line.** From a buffer that holds lines ended by line feeds, each of
which fits it, the calls of `readFileBuffer` deliver these lines in order, without the comment
lines and without a CR at the end of a line, wherever the refills fall. -/
theorem lines_of_holds {ls : List Text} {fb : FileBuffer} (h : fb.Holds (joinLines ls))
    (hfit : ∀ l ∈ ls, fb.Fits l) : fb.lines = some (visible ls) := by
  refine linesFrom_of_holds h hfit ?_
  have hrem : fb.remaining = (joinLines ls).length := by
    rw [remaining, ← List.length_append, h.bytes]
  have := length_le_length_joinLines ls
  omega

/-- A buffer from which `bytes` are read: an open file, at its first byte behind the byte order
mark, with a buffer of 4096 bytes; or the bytes themselves. -/
def Opens (fb : FileBuffer) (bytes : Text) : Prop :=
  fb = ofFile 4096 bytes ∨ fb = openFileBufferBuffer bytes

theorem lines_of_opens {fb : FileBuffer} {ls : List Text} (h : fb.Opens (joinLines ls))
    (hls : ∀ l ∈ ls, '\n' ∉ l ∧ nul ∉ l ∧ l.length ≤ 4094) : fb.lines = some (visible ls) := by
  rcases h with rfl | rfl
  · refine lines_of_holds (holds_ofFile (by decide) _) fun l hl => ?_
    obtain ⟨hlf, hnul, hlen⟩ := hls l hl
    exact ⟨hlf, hnul, fun _ => Nat.add_le_add_right hlen 2⟩
  · refine lines_of_holds (holds_openFileBufferBuffer _) fun l hl => ?_
    obtain ⟨hlf, hnul, -⟩ := hls l hl
    exact ⟨hlf, hnul, fun hopen => absurd rfl hopen⟩

/-- The same for a file that is given by pieces, which may be several lines each. -/
theorem lines_of_opens_pieces {fb : FileBuffer} {ps : List Text} (h : fb.Opens (joinLines ps))
    (hps : ∀ p ∈ ps, nul ∉ p ∧ p.length ≤ 4093) : fb.lines = some (visible (subLines ps)) := by
  rw [← joinLines_subLines] at h
  refine lines_of_opens h fun l hl => ?_
  obtain ⟨p, hp, hl⟩ := List.mem_flatMap.mp hl
  obtain ⟨hlf, hlen, hmem⟩ := mem_splitLines hl
  obtain ⟨hnul, hbound⟩ := hps p hp
  rw [List.length_append, List.length_singleton] at hlen
  refine ⟨hlf, fun hn => ?_, by omega⟩
  rcases List.mem_append.mp (hmem nul hn) with hn | hn
  · exact hnul hn
  · exact absurd hn (by decide)

end FileBuffer

/-! ### Writing -/

/-- How a `write` call ends: `none` when it reports that every byte was written; `some k` when it
does not, after the first `k` bytes reached the file. -/
abbrev WriteOutcome := Option ℕ

/-- A `file_buffer_t` opened for writing, and the file behind it. -/
structure WriteBuffer where
  size : ℕ
  /-- The `available` bytes of the buffer. -/
  buffer : Text
  writeError : Bool
  totalQueued : ℕ
  /-- The bytes in the file. -/
  disk : Text
  /-- The number of `write` calls made so far. -/
  writes : ℕ
  deriving DecidableEq

namespace WriteBuffer

/-- `openFileBuffer` with `O_TRUNC`: the file is empty. -/
def openFileBuffer (size : ℕ) : WriteBuffer where
  size := size
  buffer := []
  writeError := false
  totalQueued := 0
  disk := []
  writes := 0

/-- What reaches the file of the bytes of a `write` call. -/
def landed (o : WriteOutcome) (bytes : Text) : Text :=
  match o with
  | none => bytes
  | some k => bytes.take k

/-- `write(fd, bytes, size) != size` sets the error flag. -/
def write (outcome : ℕ → WriteOutcome) (wb : WriteBuffer) (bytes : Text) : WriteBuffer :=
  { wb with
    disk := wb.disk ++ landed (outcome wb.writes) bytes
    writeError := wb.writeError || (outcome wb.writes).isSome
    writes := wb.writes + 1 }

/-- The bytes in the buffer are written, and the buffer is empty. -/
def flush (outcome : ℕ → WriteOutcome) (wb : WriteBuffer) : WriteBuffer :=
  { write outcome wb wb.buffer with buffer := [] }

/-- `writeFileBuffer`. -/
def writeFileBuffer (outcome : ℕ → WriteOutcome) (wb : WriteBuffer) (inBuf : Text) :
    WriteBuffer :=
  let wb := { wb with totalQueued := wb.totalQueued + inBuf.length }
  let wb := if wb.buffer ≠ [] ∧ wb.size < wb.buffer.length + inBuf.length then flush outcome wb
    else wb
  if wb.size < inBuf.length then write outcome wb inBuf
  else { wb with buffer := wb.buffer ++ inBuf }

/-- `closeFileBuffer` up to its `close`: what is left in the buffer is written. -/
def lastFlush (outcome : ℕ → WriteOutcome) (wb : WriteBuffer) : WriteBuffer :=
  if wb.buffer ≠ [] then flush outcome wb else wb

/-- `closeFileBuffer`: whether it returns 0, and the file it leaves. -/
def closeFileBuffer (outcome : ℕ → WriteOutcome) (closeOk : Bool) (wb : WriteBuffer) :
    Bool × Text :=
  (!(lastFlush outcome wb).writeError && closeOk, (lastFlush outcome wb).disk)

/-- The pieces `ps` are written one after the other. -/
def writeAll (outcome : ℕ → WriteOutcome) (wb : WriteBuffer) (ps : List Text) : WriteBuffer :=
  ps.foldl (writeFileBuffer outcome) wb

section Undisturbed

variable {outcome : ℕ → WriteOutcome}

theorem write_of_ok (wb : WriteBuffer) (bytes : Text) (h : outcome wb.writes = none) :
    write outcome wb bytes =
      { wb with disk := wb.disk ++ bytes, writes := wb.writes + 1 } := by
  simp [write, h, landed]

/-- What a call queues comes behind everything that was queued before. -/
theorem writeFileBuffer_of_ok (h : ∀ n, outcome n = none) (wb : WriteBuffer) (inBuf : Text) :
    (writeFileBuffer outcome wb inBuf).disk ++ (writeFileBuffer outcome wb inBuf).buffer =
        wb.disk ++ wb.buffer ++ inBuf ∧
      (writeFileBuffer outcome wb inBuf).writeError = wb.writeError ∧
      (writeFileBuffer outcome wb inBuf).size = wb.size := by
  rw [writeFileBuffer]
  by_cases hflush : wb.buffer ≠ [] ∧ wb.size < wb.buffer.length + inBuf.length
  · simp only [if_pos hflush, flush, write_of_ok _ _ (h _)]
    split_ifs <;> simp
  · simp only [if_neg hflush]
    split_ifs with hbig
    · -- a piece larger than the buffer is written past it, so the buffer has to be empty
      have hnil : wb.buffer = [] := by
        by_contra hne
        exact hflush ⟨hne, by omega⟩
      simp [write_of_ok _ _ (h _), hnil]
    · simp

theorem writeAll_of_ok (h : ∀ n, outcome n = none) (wb : WriteBuffer) (ps : List Text) :
    (writeAll outcome wb ps).disk ++ (writeAll outcome wb ps).buffer =
        wb.disk ++ wb.buffer ++ ps.flatten ∧
      (writeAll outcome wb ps).writeError = wb.writeError := by
  induction ps generalizing wb with
  | nil => simp [writeAll]
  | cons p ps ih =>
    obtain ⟨hbytes, herr, -⟩ := writeFileBuffer_of_ok h wb p
    obtain ⟨hbytes', herr'⟩ := ih (writeFileBuffer outcome wb p)
    rw [writeAll, List.foldl_cons, ← writeAll, hbytes', hbytes, herr', herr]
    simp

/-- **Writing a file.** When no call fails the file holds the pieces that were written, in order,
whatever the number of flushes in between. -/
theorem closeFileBuffer_of_ok (h : ∀ n, outcome n = none) (size : ℕ) (ps : List Text) :
    closeFileBuffer outcome true (writeAll outcome (openFileBuffer size) ps) =
      (true, ps.flatten) := by
  obtain ⟨hbytes, herr⟩ := writeAll_of_ok h (openFileBuffer size) ps
  generalize writeAll outcome (openFileBuffer size) ps = wb at hbytes herr
  change wb.disk ++ wb.buffer = ps.flatten at hbytes
  change wb.writeError = false at herr
  rw [closeFileBuffer, lastFlush]
  split_ifs with hbuf
  · simp [flush, write_of_ok _ _ (h _), herr, hbytes]
  · rw [not_not.mp hbuf, List.append_nil] at hbytes
    simp [herr, hbytes]

end Undisturbed

/-! ### Which writes are made -/

/-- The flushes that writing the pieces makes behind the bytes `buf` in the buffer, and what is left
in the buffer. They do not depend on how the writes end. -/
def schedule (size : ℕ) : Text → List Text → List Text × Text
  | buf, [] => ([], buf)
  | buf, p :: ps =>
    if buf ≠ [] ∧ size < buf.length + p.length then
      (buf :: (schedule size p ps).1, (schedule size p ps).2)
    else schedule size (buf ++ p) ps

/-- The bytes of the `write` calls that are made when the pieces are written and the file is
closed. -/
def calls (size : ℕ) (ps : List Text) : List Text :=
  (schedule size [] ps).1 ++ if (schedule size [] ps).2 = [] then [] else [(schedule size [] ps).2]

/-- What reaches the file of the calls `cs`, the first of which is the call number `n`. -/
def landedAll (outcome : ℕ → WriteOutcome) : ℕ → List Text → Text
  | _, [] => []
  | n, c :: cs => landed (outcome n) c ++ landedAll outcome (n + 1) cs

/-- Whether one of the calls fails. -/
def anyFails (outcome : ℕ → WriteOutcome) : ℕ → List Text → Bool
  | _, [] => false
  | n, _ :: cs => (outcome n).isSome || anyFails outcome (n + 1) cs

variable {outcome : ℕ → WriteOutcome}

theorem landedAll_append (n : ℕ) (cs ds : List Text) :
    landedAll outcome n (cs ++ ds) =
      landedAll outcome n cs ++ landedAll outcome (n + cs.length) ds := by
  induction cs generalizing n with
  | nil => rfl
  | cons c cs ih =>
    rw [List.cons_append, landedAll, ih, landedAll, List.append_assoc, List.length_cons,
      Nat.add_assoc, Nat.add_comm 1]

theorem anyFails_append (n : ℕ) (cs ds : List Text) :
    anyFails outcome n (cs ++ ds) =
      (anyFails outcome n cs || anyFails outcome (n + cs.length) ds) := by
  induction cs generalizing n with
  | nil => rfl
  | cons c cs ih =>
    rw [List.cons_append, anyFails, ih, anyFails, Bool.or_assoc, List.length_cons, Nat.add_assoc,
      Nat.add_comm 1]

/-- What was written before a piece that does not go past the buffer. -/
theorem writeAll_eq (wb : WriteBuffer) {ps : List Text} (hps : ∀ p ∈ ps, p.length ≤ wb.size) :
    writeAll outcome wb ps =
      { size := wb.size
        buffer := (schedule wb.size wb.buffer ps).2
        writeError := wb.writeError ||
          anyFails outcome wb.writes (schedule wb.size wb.buffer ps).1
        totalQueued := wb.totalQueued + ps.flatten.length
        disk := wb.disk ++ landedAll outcome wb.writes (schedule wb.size wb.buffer ps).1
        writes := wb.writes + (schedule wb.size wb.buffer ps).1.length } := by
  induction ps generalizing wb with
  | nil => simp [writeAll, schedule, landedAll, anyFails]
  | cons p ps ih =>
    have hp := hps p List.mem_cons_self
    have hps' : ∀ q ∈ ps, q.length ≤ wb.size := fun q hq => hps q (List.mem_cons_of_mem p hq)
    rw [writeAll, List.foldl_cons, ← writeAll, writeFileBuffer, schedule]
    by_cases hflush : wb.buffer ≠ [] ∧ wb.size < wb.buffer.length + p.length
    · simp only [if_pos hflush, flush, write, if_neg (Nat.not_lt.mpr hp), List.nil_append]
      rw [ih]
      · simp only [landedAll, anyFails, List.flatten_cons, List.length_append, List.length_cons,
          List.append_assoc, Bool.or_assoc, Nat.add_assoc, Nat.add_comm 1]
      · exact hps'
    · simp only [if_neg hflush, if_neg (Nat.not_lt.mpr hp)]
      rw [ih]
      · simp only [List.flatten_cons, List.length_append, Nat.add_assoc]
      · exact hps'

/-- **Closing a file.** The calls that were made, and what reached the file of them. -/
theorem closeFileBuffer_writeAll {size : ℕ} {ps : List Text} (hps : ∀ p ∈ ps, p.length ≤ size)
    (closeOk : Bool) :
    closeFileBuffer outcome closeOk (writeAll outcome (openFileBuffer size) ps) =
      (!anyFails outcome 0 (calls size ps) && closeOk, landedAll outcome 0 (calls size ps)) := by
  rw [writeAll_eq _ hps, closeFileBuffer, lastFlush, calls]
  dsimp only [openFileBuffer]
  by_cases hbuf : (schedule size [] ps).2 = []
  · simp [hbuf]
  · simp [hbuf, flush, write, anyFails, landedAll, anyFails_append, landedAll_append]

theorem schedule_flatten (size : ℕ) (buf : Text) (ps : List Text) :
    (schedule size buf ps).1.flatten ++ (schedule size buf ps).2 = buf ++ ps.flatten := by
  induction ps generalizing buf with
  | nil => simp [schedule]
  | cons p ps ih =>
    rw [schedule]
    split_ifs
    · rw [List.flatten_cons, List.append_assoc, ih, List.flatten_cons]
    · rw [ih, List.append_assoc, List.flatten_cons]

/-- The calls write the pieces in their order. -/
theorem calls_flatten (size : ℕ) (ps : List Text) : (calls size ps).flatten = ps.flatten := by
  have h := schedule_flatten size [] ps
  rw [List.nil_append] at h
  rw [calls, List.flatten_append, ← h]
  split_ifs with hbuf
  · rw [hbuf]
    rfl
  · simp

/-- No call is empty or larger than the buffer. -/
theorem mem_schedule {size : ℕ} {buf : Text} {ps : List Text} (hbuf : buf.length ≤ size)
    (hps : ∀ p ∈ ps, p.length ≤ size) :
    (∀ c ∈ (schedule size buf ps).1, c ≠ [] ∧ c.length ≤ size) ∧
      (schedule size buf ps).2.length ≤ size := by
  induction ps generalizing buf with
  | nil => exact ⟨by simp [schedule], hbuf⟩
  | cons p ps ih =>
    have hp := hps p List.mem_cons_self
    have hps' : ∀ q ∈ ps, q.length ≤ size := fun q hq => hps q (List.mem_cons_of_mem p hq)
    rw [schedule]
    split_ifs with hflush
    · obtain ⟨hcs, hb⟩ := ih hp hps'
      refine ⟨fun c hc => ?_, hb⟩
      rcases List.mem_cons.mp hc with rfl | hc
      · exact ⟨hflush.1, hbuf⟩
      · exact hcs c hc
    · refine ih ?_ hps'
      rw [List.length_append]
      by_cases hnil : buf = []
      · rw [hnil]
        simpa using hp
      · exact Nat.not_lt.mp fun hlt => hflush ⟨hnil, hlt⟩

theorem mem_calls {size : ℕ} {ps : List Text} (hps : ∀ p ∈ ps, p.length ≤ size) :
    ∀ c ∈ calls size ps, c ≠ [] ∧ c.length ≤ size := by
  obtain ⟨hcs, hb⟩ := mem_schedule (show ([] : Text).length ≤ size from Nat.zero_le size) hps
  intro c hc
  rcases List.mem_append.mp hc with hc | hc
  · exact hcs c hc
  · split_ifs at hc with hbuf
    · cases hc
    · rw [List.mem_singleton] at hc
      exact hc ▸ ⟨hbuf, hb⟩

/-- The first call is made of whole pieces, and so is what comes after it. -/
theorem schedule_first {size : ℕ} {buf c : Text} {ps cs : List Text}
    (h : (schedule size buf ps).1 = c :: cs) :
    ∃ ps₁ ps₂, ps = ps₁ ++ ps₂ ∧ c = buf ++ ps₁.flatten ∧ ps₂ ≠ [] := by
  induction ps generalizing buf with
  | nil => cases h
  | cons p ps ih =>
    rw [schedule] at h
    split_ifs at h with hflush
    · cases h
      exact ⟨[], p :: ps, rfl, (List.append_nil _).symm, by simp⟩
    · obtain ⟨ps₁, ps₂, rfl, rfl, hne⟩ := ih h
      exact ⟨p :: ps₁, ps₂, rfl, by simp, hne⟩

/-- What fits the buffer is written at once. -/
theorem schedule_of_fits {size : ℕ} {buf : Text} {ps : List Text}
    (h : buf.length + ps.flatten.length ≤ size) :
    schedule size buf ps = ([], buf ++ ps.flatten) := by
  induction ps generalizing buf with
  | nil => simp [schedule]
  | cons p ps ih =>
    rw [List.flatten_cons, List.length_append] at h
    rw [schedule, if_neg fun hflush => by omega, ih (by rw [List.length_append]; omega),
      List.flatten_cons, List.append_assoc]

/-! ### What reaches the file -/

theorem landed_prefix_self (o : WriteOutcome) (c : Text) : landed o c <+: c := by
  cases o with
  | none => exact List.prefix_refl c
  | some k => exact List.take_prefix k c

theorem landedAll_of_ok {n : ℕ} {cs : List Text} (h : anyFails outcome n cs = false) :
    landedAll outcome n cs = cs.flatten := by
  induction cs generalizing n with
  | nil => rfl
  | cons c cs ih =>
    rw [anyFails, Bool.or_eq_false_iff, Option.isSome_eq_false_iff, Option.isNone_iff_eq_none] at h
    rw [landedAll, ih h.2, h.1, List.flatten_cons]
    rfl

theorem length_landedAll_le (n : ℕ) (cs : List Text) :
    (landedAll outcome n cs).length ≤ cs.flatten.length := by
  induction cs generalizing n with
  | nil => exact Nat.le_refl _
  | cons c cs ih =>
    have hc := (landed_prefix_self (outcome n) c).length_le
    have hcs := ih (n + 1)
    rw [landedAll, List.flatten_cons, List.length_append, List.length_append]
    omega

/-- When as many bytes reached the file as were to be written, they are these bytes. -/
theorem landedAll_eq_flatten {n : ℕ} {cs : List Text}
    (h : cs.flatten.length ≤ (landedAll outcome n cs).length) :
    landedAll outcome n cs = cs.flatten := by
  induction cs generalizing n with
  | nil => rfl
  | cons c cs ih =>
    have hc := (landed_prefix_self (outcome n) c).length_le
    have hcs : (landedAll outcome (n + 1) cs).length ≤ cs.flatten.length :=
      length_landedAll_le (n + 1) cs
    rw [landedAll, List.flatten_cons, List.length_append, List.length_append] at h
    rw [landedAll, List.flatten_cons, ih (by omega),
      (landed_prefix_self (outcome n) c).eq_of_length_le (by omega)]

end WriteBuffer

end OpenPS2Loader
