import Mathlib.Data.List.DropRight
import OpenPS2Loader.Util.FileBuffer

/-!
# The lines that `readFileBuffer` returns

`readFileBuffer` is called until it returns 0. Behind a comment it goes round its loop with the
values of the pass before: the size of the comment is still in `lineSize`, and where no line feed
was found `lastPtr` is `NULL`. So a comment at the end of a content, without a line feed, is
followed by a copy from `NULL`.

## Main definitions

* `FileBuffer.Calls` — successive calls, and what they return
* `FileBuffer.ReadsLines` — they return the lines of a content, and then 0
* `FileBuffer.EndsInComment` — a content ends with a comment that has no line feed

## Main results

* `FileBuffer.readsLines_iff`
-/

namespace OpenPS2Loader

/-! ### The last line -/

theorem splitLines_of_not_mem {t : Text} (h : '\n' ∉ t) :
    splitLines t = if t = [] then [] else [t] := by
  induction t with
  | nil => rfl
  | cons c t ih =>
    rw [List.mem_cons, not_or] at h
    rw [splitLines, if_neg (Ne.symm h.1), ih h.2, if_neg (List.cons_ne_nil c t)]
    split_ifs with ht
    · rw [ht]
    · rfl

/-- The lines of a text whose last one may have no line feed. -/
theorem splitLines_joinLines_append {ls : List Text} {t : Text} (hls : ∀ l ∈ ls, '\n' ∉ l)
    (ht : '\n' ∉ t) :
    splitLines (joinLines ls ++ t) = ls ++ if t = [] then [] else [t] := by
  induction ls with
  | nil => exact splitLines_of_not_mem ht
  | cons l ls ih =>
    rw [joinLines_cons, List.append_assoc, List.cons_append,
      splitLines_line (hls l List.mem_cons_self), ih fun m hm => hls m (List.mem_cons_of_mem l hm),
      List.cons_append]

theorem mem_joinLines {ls : List Text} {l : Text} (hl : l ∈ ls) {c : Char} (hc : c ∈ l) :
    c ∈ joinLines ls :=
  List.mem_flatMap.mpr ⟨l, hl, List.mem_append_left _ hc⟩

/-- What stands behind the last line feed. -/
def lastPiece (t : Text) : Text := t.rtakeWhile (· ≠ '\n')

theorem lf_not_mem_lastPiece (t : Text) : '\n' ∉ lastPiece t := by
  intro h
  have hne := List.mem_rtakeWhile_imp (p := fun c : Char => decide (c ≠ '\n')) h
  exact absurd rfl (of_decide_eq_true hne)

/-- A text is lines with a line feed, and its last piece. -/
theorem exists_joinLines (t : Text) :
    ∃ ls, (∀ l ∈ ls, '\n' ∉ l) ∧ t = joinLines ls ++ lastPiece t := by
  have hsplit : t.rdropWhile (· ≠ '\n') ++ lastPiece t = t := List.rdropWhile_append_rtakeWhile ..
  rcases List.eq_nil_or_concat (t.rdropWhile (· ≠ '\n')) with hnil | ⟨p, c, hp⟩
  · refine ⟨[], fun l hl => absurd hl List.not_mem_nil, ?_⟩
    rw [hnil] at hsplit
    exact hsplit.symm
  · rw [List.concat_eq_append] at hp
    have hne : t.rdropWhile (· ≠ '\n') ≠ [] := hp ▸ List.concat_ne_nil c p
    have hlast : (t.rdropWhile (· ≠ '\n')).getLast hne = c := by
      simp only [hp, List.getLast_concat]
    have hc : c = '\n' := by
      have hstop := List.rdropWhile_last_not (fun c : Char => decide (c ≠ '\n')) t hne
      rw [hlast] at hstop
      simpa using hstop
    refine ⟨splitLines (p ++ ['\n']), fun l hl => (mem_splitLines hl).1, ?_⟩
    rw [joinLines_splitLines, ← hc, ← hp, hsplit]

/-- Every piece between line feeds is a line when a line feed is put behind the text. -/
theorem splitLines_concat_lf {ls : List Text} {t : Text} (hls : ∀ l ∈ ls, '\n' ∉ l)
    (ht : '\n' ∉ t) : splitLines (joinLines ls ++ t ++ ['\n']) = ls ++ [t] := by
  have hjoin : joinLines ls ++ t ++ ['\n'] = joinLines (ls ++ [t]) ++ [] := by
    simp [joinLines_append]
  have hall : ∀ l ∈ ls ++ [t], '\n' ∉ l := by
    intro l hl
    rcases List.mem_append.mp hl with hl | hl
    · exact hls l hl
    · rwa [List.mem_singleton.mp hl]
  rw [hjoin, splitLines_joinLines_append hall (List.not_mem_nil), if_pos rfl, List.append_nil]

/-- A line feed behind a text ends its last line, or an empty one. -/
theorem mem_splitLines_concat_lf {t l : Text} (h : l ∈ splitLines (t ++ ['\n'])) :
    l ∈ splitLines t ∨ l = [] := by
  obtain ⟨ls, hls, heq⟩ := exists_joinLines t
  have hlf := lf_not_mem_lastPiece t
  rw [heq, splitLines_concat_lf hls hlf, List.mem_append, List.mem_singleton] at h
  rw [heq, splitLines_joinLines_append hls hlf, List.mem_append]
  rcases h with h | rfl
  · exact .inl (.inl h)
  · by_cases hnil : lastPiece t = []
    · exact .inr hnil
    · rw [if_neg hnil]
      exact .inl (.inr (List.mem_singleton_self _))

namespace FileBuffer

/-! ### Calls -/

/-- Successive calls of `readFileBuffer`, and what they return: a line, or `none` for 0. -/
inductive Calls : FileBuffer → List (Option Text) → Prop
  | nil (fb : FileBuffer) : Calls fb []
  | cons {fb fb' : FileBuffer} {fuel : ℕ} {r : Option Text} {rs : List (Option Text)}
    (h : readFileBuffer fuel fb 0 = some (r, fb')) (hs : Calls fb' rs) : Calls fb (r :: rs)

/-- However often `readFileBuffer` is called, it returns the lines of the content, as a reader sees
them, and then 0. -/
def ReadsLines (fb : FileBuffer) (content : Text) : Prop :=
  ∀ n, Calls fb ((visible (splitLines content)).map some ++ List.replicate n none)

/-- The content is opened by one of the two constructors; in a file there may be a byte order mark
in front of it. -/
inductive Opened (size : ℕ) (content : Text) : FileBuffer → Prop
  | file (h : content.take 3 ≠ bom) : Opened size content (openFileBuffer size content)
  | fileWithBom : Opened size content (openFileBuffer size (bom ++ content))
  | buffer : Opened size content (openFileBufferBuffer content)

/-- A comment without a line feed stands at the end. -/
def EndsInComment (content : Text) : Prop := (lastPiece content).head? = some '#'

instance (content : Text) : Decidable (EndsInComment content) :=
  inferInstanceAs (Decidable (_ = _))

/-- More fuel does not change what is returned. -/
theorem readFileBuffer_mono {fuel : ℕ} {fb : FileBuffer} {n : ℕ} {r : Option Text × FileBuffer}
    (h : readFileBuffer fuel fb n = some r) (m : ℕ) : readFileBuffer (fuel + m) fb n = some r := by
  induction fuel generalizing fb n with
  | zero => cases h
  | succ fuel ih =>
    rw [Nat.add_right_comm, readFileBuffer]
    rw [readFileBuffer] at h
    cases hpass : pass fb n with
    | eof fb' => rwa [hpass] at h
    | skip fb' n' =>
      rw [hpass] at h
      exact ih h
    | line l fb' => rwa [hpass] at h
    | fault =>
      rw [hpass] at h
      cases h

theorem stripCR_head? {l : Text} (h : l.head? ≠ some '\r') : (stripCR l).head? = l.head? := by
  rw [stripCR]
  split_ifs with hlast
  · cases l with
    | nil => rfl
    | cons c l =>
      cases l with
      | nil => exact absurd hlast h
      | cons d l => rfl
  · rfl

theorem head?_stripCR_eq_hash {l : Text} : (stripCR l).head? = some '#' ↔ l.head? = some '#' := by
  by_cases h : l.head? = some '\r'
  · obtain ⟨t, rfl⟩ := List.head?_eq_some_iff.mp h
    cases t with
    | nil => decide
    | cons d t =>
      rw [stripCR]
      split_ifs
      · exact iff_of_false (by simp) (by simp)
      · exact Iff.rfl
  · rw [stripCR_head? h]

/-! ### The end of a content -/

/-- A buffer behind its last bytes: nothing is left, and the descriptor is closed. -/
def spent (size available : ℕ) : FileBuffer := ⟨none, size, available, none⟩

theorem holds_spent (size available : ℕ) : (spent size available).Holds [] where
  bytes := rfl
  available := Nat.zero_le _
  room h := absurd rfl h

/-- A last line without a line feed. -/
theorem deliver_last {fb : FileBuffer} {l : Text} (hnul : nul ∉ l) (havail : fb.available ≠ 0) :
    deliver fb l none =
      if (stripCR l).head? = some '#' then .skip { fb with lastPtr := none } (stripCR l).length
      else .line (stripCR l) { fb with lastPtr := none } := by
  rw [deliver]
  simp only [Option.map_none, havail, false_and, and_false, if_false,
    cstr_of_nul_not_mem (nul_not_mem_stripCR hnul)]

theorem refill_of_holds_last {fb : FileBuffer} {l t : Text} (h : fb.Holds l) (hne : l ≠ [])
    (hfit : fb.Fits l) (ht : fb.lastPtr.getD [] = t) :
    refill fb t =
      if (stripCR l).head? = some '#' then .skip (spent fb.size l.length) (stripCR l).length
      else .line (stripCR l) (spent fb.size l.length) := by
  have hbytes := h.bytes
  have hlen : l.length ≠ 0 := fun hzero => hne (List.length_eq_zero_iff.mp hzero)
  rw [ht] at hbytes
  rw [refill]
  cases hfd : fb.fd with
  | none =>
    rw [hfd, Option.getD_none, List.append_nil] at hbytes
    subst hbytes
    dsimp only
    rw [deliver_last hfit.nul hlen]
    rfl
  | some bytes =>
    rw [hfd, Option.getD_some] at hbytes
    have hroom := hfit.length_le (by rw [hfd]; exact Option.some_ne_none bytes)
    have htotal : t.length + bytes.length = l.length := by rw [← List.length_append, hbytes]
    have hall : bytes.take (fb.size - t.length - 1) = bytes :=
      List.take_of_length_le (by omega)
    have hlf : strchr '\n' bytes = none :=
      strchr_of_not_mem fun hm => hfit.lf (hbytes ▸ List.mem_append_right t hm)
    dsimp only
    -- all that is left is read, and the buffer is not full
    rw [hall, hlf, Option.map_none, hbytes, htotal, if_pos (by omega),
      deliver_last hfit.nul hlen]
    rfl

/-- The pass that meets it. -/
theorem pass_of_holds_last {fb : FileBuffer} {l : Text} {n : ℕ} (h : fb.Holds l) (hne : l ≠ [])
    (hfit : fb.Fits l) (hn : fb.lastPtr = none → n = 0) :
    pass fb n =
      if (stripCR l).head? = some '#' then .skip (spent fb.size l.length) (stripCR l).length
      else .line (stripCR l) (spent fb.size l.length) := by
  rw [pass]
  cases hptr : fb.lastPtr with
  | none =>
    dsimp only
    rw [if_neg (not_not.mpr (hn hptr))]
    exact refill_of_holds_last h hne hfit (by rw [hptr, Option.getD_none])
  | some t =>
    have hlf : '\n' ∉ t := by
      have hbytes := h.bytes
      rw [hptr, Option.getD_some] at hbytes
      exact fun hm => hfit.lf (hbytes ▸ List.mem_append_left _ hm)
    dsimp only
    rw [strchr_of_not_mem hlf]
    exact refill_of_holds_last h hne hfit (by rw [hptr, Option.getD_some])

/-- Behind a comment without a line feed, the loop copies from `NULL`. -/
theorem readFileBuffer_spent_of_ne_zero (fuel size available : ℕ) {n : ℕ} (hn : n ≠ 0) :
    readFileBuffer fuel (spent size available) n = none := by
  cases fuel with
  | zero => rfl
  | succ fuel => rw [readFileBuffer, pass, spent, if_pos hn]

/-- With nothing left, a call returns 0. -/
theorem readFileBuffer_of_holds_nil {fb : FileBuffer} (h : fb.Holds []) :
    ∃ fb', readFileBuffer 1 fb 0 = some (none, fb') ∧ fb'.Holds [] := by
  obtain ⟨fb', heof, hholds⟩ := pass_of_holds_nil h fun _ => rfl
  exact ⟨fb', by rw [readFileBuffer, heof], hholds⟩

/-- And so do all calls. -/
theorem calls_of_holds_nil {fb : FileBuffer} (h : fb.Holds []) (n : ℕ) :
    Calls fb (List.replicate n none) := by
  induction n generalizing fb with
  | zero => exact .nil fb
  | succ n ih =>
    obtain ⟨fb', hread, hnil⟩ := readFileBuffer_of_holds_nil h
    rw [List.replicate_succ]
    exact .cons hread (ih hnil)

/-! ### Whole contents -/

theorem Fits.mono {fb fb' : FileBuffer} {l : Text} (h : fb.Fits l) (hsize : fb'.size = fb.size)
    (hopen : fb'.fd ≠ none → fb.fd ≠ none) : fb'.Fits l :=
  ⟨h.lf, h.nul, fun ho => hsize ▸ h.length_le (hopen ho)⟩

/-- A buffer that holds lines and a last piece, all of which fit it. -/
structure Pieces (fb : FileBuffer) (ls : List Text) (last : Text) : Prop where
  holds : fb.Holds (joinLines ls ++ last)
  lines : ∀ l ∈ ls, fb.Fits l
  last : fb.Fits last

/-- A call returns the first line that is seen; or it passes over all of them, and goes on at the
last piece. -/
theorem readFileBuffer_of_pieces {ls : List Text} {last : Text} {fb : FileBuffer} {n : ℕ}
    (h : fb.Pieces ls last) (hn : fb.lastPtr = none → n = 0) :
    (visible ls = [] ∧ ∃ k fb' n', k ≤ ls.length ∧ fb'.Pieces [] last ∧
      (fb'.lastPtr = none → n' = 0) ∧
      ∀ fuel, readFileBuffer (fuel + k) fb n = readFileBuffer fuel fb' n') ∨
    ∃ k l ls' fb', k ≤ ls.length ∧ visible ls = l :: visible ls' ∧ ls'.length < ls.length ∧
      (fb' : FileBuffer).Pieces ls' last ∧ readFileBuffer k fb n = some (some l, fb') := by
  induction ls generalizing fb n with
  | nil => exact .inl ⟨rfl, 0, fb, n, Nat.le_refl 0, h, hn, fun _ => rfl⟩
  | cons l ls ih =>
    have hholds := h.holds
    rw [joinLines_cons, List.append_assoc, List.cons_append] at hholds
    obtain ⟨fb', hholds', hsize, hopen, hptr, hpass⟩ :=
      pass_of_holds hholds (h.lines l List.mem_cons_self) hn
    have hpieces : fb'.Pieces ls last :=
      ⟨hholds', fun m hm => (h.lines m (List.mem_cons_of_mem l hm)).mono hsize hopen,
        h.last.mono hsize hopen⟩
    rw [visible_cons]
    by_cases hcomment : (stripCR l).head? = some '#'
    · rw [if_pos hcomment] at hpass ⊢
      have hstep : ∀ fuel, readFileBuffer (fuel + 1) fb n =
          readFileBuffer fuel fb' (stripCR l).length := fun fuel => by rw [readFileBuffer, hpass]
      rcases ih hpieces fun hnone => absurd hnone hptr with
        ⟨hvis, k, fb'', n', hk, hlast, hn', hread⟩ | ⟨k, m, ls', fb'', hk, hvis, hlen, hlast, hread⟩
      · exact .inl ⟨hvis, k + 1, fb'', n', Nat.succ_le_succ hk, hlast, hn',
          fun fuel => (hstep _).trans (hread fuel)⟩
      · exact .inr ⟨k + 1, m, ls', fb'', Nat.succ_le_succ hk, hvis, Nat.lt_succ_of_lt hlen, hlast,
          (hstep k).trans hread⟩
    · rw [if_neg hcomment] at hpass ⊢
      exact .inr ⟨1, _, ls, fb', Nat.succ_le_succ (Nat.zero_le _), rfl, Nat.lt_succ_self _, hpieces,
        by rw [readFileBuffer, hpass]⟩

/-- Calls whose first one passes over comments. -/
theorem Calls.of_eq {fb fb' : FileBuffer} {k n : ℕ} {rs : List (Option Text)}
    (hread : ∀ fuel, readFileBuffer (fuel + k) fb 0 = readFileBuffer fuel fb' n) {r : Option Text}
    {fb'' : FileBuffer} {fuel : ℕ} (h : readFileBuffer fuel fb' n = some (r, fb''))
    (hs : Calls fb'' rs) : Calls fb (r :: rs) :=
  .cons ((hread fuel).trans h) hs

theorem visible_append (ls ms : List Text) : visible (ls ++ ms) = visible ls ++ visible ms := by
  rw [visible, visible, visible, List.map_append, List.filter_append]

theorem visible_comment {l : Text} (h : l.head? = some '#') : visible [l] = [] := by
  rw [visible_cons, if_pos (head?_stripCR_eq_hash.mpr h)]
  rfl

/-- **The lines are returned**, also one at the end without a line feed. -/
theorem calls_of_pieces {ls : List Text} {last : Text} {fb : FileBuffer} (h : fb.Pieces ls last)
    (hlast : last.head? ≠ some '#') (n : ℕ) :
    Calls fb ((visible (ls ++ if last = [] then [] else [last])).map some ++
      List.replicate n none) := by
  rw [visible_append]
  rcases readFileBuffer_of_pieces h fun _ => rfl with
    ⟨hvis, k, fb', n', -, hpieces, hn', hread⟩ | ⟨k, l, ls', fb', -, hvis, hlen, hpieces, hread⟩
  · rw [hvis, List.nil_append]
    have hholds := hpieces.holds
    rw [joinLines_nil, List.nil_append] at hholds
    by_cases hnil : last = []
    · rw [if_pos hnil]
      cases n with
      | zero => exact .nil fb
      | succ n =>
        obtain ⟨fb'', heof, hholds'⟩ := pass_of_holds_nil (hnil ▸ hholds) hn'
        have hcall : readFileBuffer 1 fb' n' = some (none, fb'') := by rw [readFileBuffer, heof]
        exact .of_eq hread hcall (calls_of_holds_nil hholds' n)
    · have hpass := pass_of_holds_last hholds hnil hpieces.last hn'
      have hhead : (stripCR last).head? ≠ some '#' := fun hc =>
        hlast (head?_stripCR_eq_hash.mp hc)
      rw [if_neg hhead] at hpass
      rw [if_neg hnil, visible_cons, if_neg hhead]
      have hcall : readFileBuffer 1 fb' n' =
          some (some (stripCR last), spent fb'.size last.length) := by rw [readFileBuffer, hpass]
      exact .of_eq hread hcall (calls_of_holds_nil (holds_spent ..) n)
  · rw [hvis]
    have hrest := calls_of_pieces hpieces hlast n
    rw [visible_append] at hrest
    exact .cons hread hrest
termination_by ls.length

theorem Pieces.remaining_eq {ls : List Text} {last : Text} {fb : FileBuffer}
    (h : fb.Pieces ls last) : fb.remaining = (joinLines ls).length + last.length := by
  rw [remaining, ← List.length_append, h.holds.bytes, List.length_append]

theorem linesFrom_of_holds_nil {fb : FileBuffer} (h : fb.Holds []) (fuel : ℕ) :
    linesFrom (fuel + 1) fb = some [] := by
  obtain ⟨fb', hread, -⟩ := readFileBuffer_of_holds_nil h
  rw [linesFrom, Nat.add_comm, readFileBuffer_mono (readFileBuffer_mono hread 1) fb.remaining]

/-- The same for the loop of a caller. -/
theorem linesFrom_of_pieces {ls : List Text} {last : Text} {fb : FileBuffer} {fuel : ℕ}
    (h : fb.Pieces ls last) (hlast : last.head? ≠ some '#')
    (hfuel : ls.length + last.length < fuel) :
    linesFrom fuel fb = some (visible (ls ++ if last = [] then [] else [last])) := by
  induction fuel generalizing ls fb with
  | zero => omega
  | succ fuel ih =>
    have hrem := h.remaining_eq
    have hjoin := length_le_length_joinLines ls
    rw [linesFrom, visible_append]
    rcases readFileBuffer_of_pieces h fun _ => rfl with
      ⟨hvis, k, fb', n', hk, hpieces, hn', hread⟩ | ⟨k, l, ls', fb', hk, hvis, hlen, hpieces, hread⟩
    · obtain ⟨m, hm⟩ : ∃ m, fb.remaining + 2 = (1 + m) + k :=
        ⟨fb.remaining + 1 - k, by omega⟩
      rw [hm, hread, hvis, List.nil_append]
      have hholds := hpieces.holds
      rw [joinLines_nil, List.nil_append] at hholds
      by_cases hnil : last = []
      · obtain ⟨fb'', heof, -⟩ := pass_of_holds_nil (hnil ▸ hholds) hn'
        have hcall : readFileBuffer 1 fb' n' = some (none, fb'') := by rw [readFileBuffer, heof]
        rw [readFileBuffer_mono hcall m, if_pos hnil]
        rfl
      · have hpass := pass_of_holds_last hholds hnil hpieces.last hn'
        have hhead : (stripCR last).head? ≠ some '#' := fun hc =>
          hlast (head?_stripCR_eq_hash.mp hc)
        rw [if_neg hhead] at hpass
        have hcall : readFileBuffer 1 fb' n' =
            some (some (stripCR last), spent fb'.size last.length) := by
          rw [readFileBuffer, hpass]
        have hpos := List.length_pos_of_ne_nil hnil
        obtain ⟨fuel, rfl⟩ : ∃ f, fuel = f + 1 := ⟨fuel - 1, by omega⟩
        rw [readFileBuffer_mono hcall m, if_neg hnil, visible_cons, if_neg hhead]
        dsimp only
        rw [linesFrom_of_holds_nil (holds_spent _ _)]
        rfl
    · obtain ⟨m, hm⟩ : ∃ m, fb.remaining + 2 = k + m := ⟨fb.remaining + 2 - k, by omega⟩
      rw [hm, readFileBuffer_mono hread m, hvis]
      dsimp only
      rw [ih hpieces (by omega), visible_append]
      rfl

/-- The lines that a caller is given, of lines and a last piece that is not a comment. -/
theorem lines_of_pieces {ls : List Text} {last : Text} {fb : FileBuffer} (h : fb.Pieces ls last)
    (hlast : last.head? ≠ some '#') :
    fb.lines = some (visible (ls ++ if last = [] then [] else [last])) := by
  refine linesFrom_of_pieces h hlast ?_
  have := length_le_length_joinLines ls
  rw [h.remaining_eq]
  omega

/-- **A comment at the end**, without a line feed: no call returns behind it. -/
theorem not_calls_of_pieces {ls : List Text} {last : Text} {fb : FileBuffer}
    (h : fb.Pieces ls last) (hlast : last.head? = some '#') :
    ¬Calls fb ((visible ls).map some ++ [none]) := by
  intro hcalls
  rcases readFileBuffer_of_pieces h fun _ => rfl with
    ⟨hvis, k, fb', n', -, hpieces, hn', hread⟩ | ⟨k, l, ls', fb', -, hvis, hlen, hpieces, hread⟩
  · rw [hvis] at hcalls
    have hholds := hpieces.holds
    rw [joinLines_nil, List.nil_append] at hholds
    have hne : last ≠ [] := by
      rintro rfl
      cases hlast
    have hhead := head?_stripCR_eq_hash.mpr hlast
    have hpass := pass_of_holds_last hholds hne hpieces.last hn'
    rw [if_pos hhead] at hpass
    have hsize : (stripCR last).length ≠ 0 := fun hzero => by
      rw [List.length_eq_zero_iff.mp hzero] at hhead
      cases hhead
    -- the comment is passed over with its size in `lineSize`
    have hnone : ∀ fuel, readFileBuffer fuel fb' n' = none := by
      intro fuel
      cases fuel with
      | zero => rfl
      | succ fuel =>
        rw [readFileBuffer, hpass]
        exact readFileBuffer_spent_of_ne_zero fuel _ _ hsize
    cases hcalls with
    | cons hcall hs =>
      have hmono := readFileBuffer_mono hcall k
      rw [hread, hnone] at hmono
      cases hmono
  · rw [hvis] at hcalls
    cases hcalls with
    | @cons _ fb'' fuel _ _ hcall hs =>
      have hsame := (readFileBuffer_mono hcall k).symm.trans
        ((congrArg (readFileBuffer · fb 0) (Nat.add_comm fuel k)).trans
          (readFileBuffer_mono hread fuel))
      obtain rfl : fb'' = fb' := congrArg Prod.snd (Option.some.inj hsame)
      exact not_calls_of_pieces hpieces hlast hs
termination_by ls.length

/-- The content is in the buffer that is opened. -/
theorem Opened.pieces {size : ℕ} {content : Text} {fb : FileBuffer} (h : Opened size content fb)
    (hnul : nul ∉ content) (hsize : ∀ l ∈ splitLines (content ++ ['\n']), l.length + 1 < size) :
    ∃ ls, content = joinLines ls ++ lastPiece content ∧ (∀ l ∈ ls, '\n' ∉ l) ∧
      fb.Pieces ls (lastPiece content) := by
  obtain ⟨ls, hls, heq⟩ := exists_joinLines content
  refine ⟨ls, heq, hls, ?_⟩
  have hlf := lf_not_mem_lastPiece content
  have hall : splitLines (content ++ ['\n']) = ls ++ [lastPiece content] :=
    (congrArg (fun t => splitLines (t ++ ['\n'])) heq).trans (splitLines_concat_lf hls hlf)
  rw [hall] at hsize
  have hlast : (lastPiece content).length + 1 < size :=
    hsize _ (List.mem_append_right ls (List.mem_singleton_self _))
  have hpieces (fb : FileBuffer) (hholds : fb.Holds content)
      (hfb : fb.fd ≠ none → fb.size = size) : fb.Pieces ls (lastPiece content) := by
    refine ⟨heq ▸ hholds, fun l hl => ⟨hls l hl, fun hn => hnul ?_, fun ho => ?_⟩,
      ⟨hlf, fun hn => hnul ?_, fun ho => ?_⟩⟩
    · rw [heq]
      exact List.mem_append_left _ (mem_joinLines hl hn)
    · rw [hfb ho]
      exact hsize l (List.mem_append_left _ hl)
    · rw [heq]
      exact List.mem_append_right _ hn
    · rw [hfb ho]
      exact hlast
  have hfile : (ofFile size content).Pieces ls (lastPiece content) :=
    hpieces _ (holds_ofFile (by omega) content) fun _ => rfl
  cases h with
  | file hbom =>
    rw [openFileBuffer, if_neg hbom]
    exact hfile
  | fileWithBom =>
    rw [openFileBuffer, if_pos (show (bom ++ content).take 3 = bom from rfl)]
    exact hfile
  | buffer =>
    exact hpieces _ (holds_openFileBufferBuffer content) fun ho => absurd rfl ho

/-- **Line by line**: the calls return the lines of a content exactly when it does not end with a
comment that has no line feed. -/
theorem readsLines_iff {size : ℕ} {content : Text} {fb : FileBuffer}
    (h : Opened size content fb) (hnul : nul ∉ content)
    (hsize : ∀ l ∈ splitLines (content ++ ['\n']), l.length + 1 < size) :
    ReadsLines fb content ↔ ¬EndsInComment content := by
  obtain ⟨ls, heq, hls, hpieces⟩ := h.pieces hnul hsize
  have hlines : splitLines content =
      ls ++ if lastPiece content = [] then [] else [lastPiece content] :=
    (congrArg splitLines heq).trans
      (splitLines_joinLines_append hls (lf_not_mem_lastPiece content))
  constructor
  · intro hreads hcomment
    have hne : lastPiece content ≠ [] := by
      intro hnil
      rw [EndsInComment, hnil] at hcomment
      cases hcomment
    have hone := hreads 1
    rw [hlines, if_neg hne, visible_append, visible_comment hcomment, List.append_nil] at hone
    exact not_calls_of_pieces hpieces hcomment hone
  · intro hcomment n
    rw [hlines]
    exact calls_of_pieces hpieces hcomment n

/-- The lines that a caller is given of a content, however it is opened. -/
theorem lines_of_opened {size : ℕ} {content : Text} {fb : FileBuffer} (h : Opened size content fb)
    (hnul : nul ∉ content) (hsize : ∀ l ∈ splitLines (content ++ ['\n']), l.length + 1 < size)
    (hlast : ¬EndsInComment content) : fb.lines = some (visible (splitLines content)) := by
  obtain ⟨ls, heq, hls, hpieces⟩ := h.pieces hnul hsize
  have hlines : splitLines content =
      ls ++ if lastPiece content = [] then [] else [lastPiece content] :=
    (congrArg splitLines heq).trans
      (splitLines_joinLines_append hls (lf_not_mem_lastPiece content))
  rw [hlines]
  exact lines_of_pieces hpieces hlast

/-- `"a\r\n#c\n\nb"` -/
def fourLines : Text := ['a', '\r', '\n', '#', 'c', '\n', '\n', 'b']

theorem readsLines_fourLines : ReadsLines (openFileBuffer 4 fourLines) fourLines :=
  (readsLines_iff (.file (by decide)) (by decide) (by decide)).mpr (by decide)

/-- `"a\n#"`: behind the first line there is no end. -/
theorem not_readsLines_comment :
    ¬ ∀ (size : ℕ) (content : Text) (fb : FileBuffer), Opened size content fb → nul ∉ content →
      (∀ l ∈ splitLines (content ++ ['\n']), l.length + 1 < size) → ReadsLines fb content := by
  intro h
  have hpieces : (openFileBufferBuffer ['a', '\n', '#']).Pieces [['a']] ['#'] :=
    ⟨holds_openFileBufferBuffer _, fun l hl => ⟨by simp_all, by simp_all [nul], nofun⟩,
      ⟨by decide, by decide, nofun⟩⟩
  exact not_calls_of_pieces hpieces rfl (h 4 _ _ .buffer (by decide) (by decide) 1)

end FileBuffer

end OpenPS2Loader
