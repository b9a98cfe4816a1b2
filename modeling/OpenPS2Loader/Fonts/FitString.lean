import Mathlib.Algebra.GroupWithZero.Nat
import Mathlib.Data.List.DropRight
import Mathlib.Data.List.Forall2
import OpenPS2Loader.Lib.CString

/-!
# Word wrap

`fntFitString` of `fntsys.c` breaks a text into lines in place: a space in front of a word that does
not fit becomes a newline. It goes from word to word, ends each word with a NUL while it measures
it, and steps over what stood behind the word.

The string is in a buffer that ends with its NUL; what reads or writes outside it has no result.
`fntCalcDimensions` is a parameter. Its results are numbers of 32 bits, as is the sum `cw`.

## Main definitions

* `Fnt.fitPass`, `Fnt.fntFitString` — the function
* `Fnt.lineWidth`, `Fnt.words`, `Fnt.FitsWell` — what is asked of it
* `Fnt.wrapToks` — the same on words and the separators behind them

## Main results

* `Fnt.fitLoop_eq` — the function on the buffer is the one on words
* `Fnt.wrapToks_lineOk`, `Fnt.exists_not_lineOk`
* `Fnt.fitsWell_iff`
-/

namespace OpenPS2Loader

namespace Fnt

/-! ### The function -/

/-- The character does not end a word. -/
def inWord (c : Char) : Prop := c ≠ nul ∧ c ≠ ' ' ∧ c ≠ '\n'

instance (c : Char) : Decidable (inWord c) := inferInstanceAs (Decidable (_ ∧ _))

/-- The scan for the next whitespace, over the bytes from position `sp` on. -/
def scanSp : Text → ℕ → Option ℕ
  | [], _ => none
  | c :: t, sp => if inWord c then scanSp t (sp + 1) else some sp

/-- The variables of the loop. The pointers are positions in the buffer. -/
structure FitState where
  buf : Text
  str : ℕ
  cw : UInt32
  psp : Option ℕ

/-- A pass of the loop. -/
def fitPass (dims : Text → UInt32) (width spacewidth : UInt32) (s : FitState) : Option FitState :=
  (scanSp (s.buf.drop s.str) s.str).bind fun sp => s.buf[sp]?.bind fun osp =>
    if osp = '\n' then some ⟨s.buf, sp + 1, 0, none⟩
    else (poke s.buf sp nul).bind fun buf =>
      let ww := dims (cstr (buf.drop s.str))
      if width < s.cw + ww then
        match s.psp with
        | some psp =>
          (poke buf psp '\n').bind fun buf => (poke buf sp osp).map fun buf =>
            ⟨buf, sp + 1, ww + spacewidth, some sp⟩
        | none => (poke buf sp '\n').map fun buf => ⟨buf, sp + 1, 0 + spacewidth, none⟩
      else (poke buf sp osp).map fun buf => ⟨buf, sp + 1, s.cw + ww + spacewidth, some sp⟩

/-- The loop. -/
def fitLoop (dims : Text → UInt32) (width spacewidth : UInt32) : ℕ → FitState → Option Text
  | 0, _ => none
  | fuel + 1, s =>
    s.buf[s.str]?.bind fun c =>
      if c = nul then some s.buf
      else (fitPass dims width spacewidth s).bind (fitLoop dims width spacewidth fuel)

/-- `fntFitString`, with the scaled width. A pass goes on by a byte at least. -/
def fntFitString (dims : Text → UInt32) (width : UInt32) (string : Text) : Option Text :=
  fitLoop dims width (dims [' ']) (string.length + 1) ⟨string, 0, 0, none⟩

/-! ### What is asked of it -/

/-- The words of a line. -/
def words (line : Text) : List Text := (line.splitOn ' ').filter (!·.isEmpty)

/-- The width of words with a space between each two. -/
def piecesWidth (dims : Text → UInt32) (ps : List Text) : ℕ :=
  (ps.map fun p => (dims p).toNat).sum + (ps.length - 1) * (dims [' ']).toNat

/-- The width of a line up to the end of its last word. -/
def lineWidth (dims : Text → UInt32) (line : Text) : ℕ :=
  piecesWidth dims ((line.splitOn ' ').rdropWhile (·.isEmpty))

/-- A line that is too wide consists of a single word. -/
def LineOk (dims : Text → UInt32) (width : UInt32) (line : Text) : Prop :=
  lineWidth dims line ≤ width.toNat ∨ (words line).length ≤ 1

/-- The string is rewritten in place: some of its spaces are newlines now, its NUL is where it was,
and its lines are in order. -/
def FitsWell (dims : Text → UInt32) (width : UInt32) (string : Text) : Prop :=
  ∃ t, fntFitString dims width (string ++ [nul]) = some (t ++ [nul]) ∧
    List.Forall₂ (fun c d => d = c ∨ c = ' ' ∧ d = '\n') string t ∧
    ∀ line ∈ t.splitOn '\n', LineOk dims width line

/-- The sums of the function stay in 32 bits. -/
def NoOverflow (dims : Text → UInt32) (width : UInt32) : Prop :=
  ∀ u v, (dims u).toNat + (dims [' ']).toNat + (dims v).toNat < 2 ^ 32 ∧
    width.toNat + (dims [' ']).toNat + (dims v).toNat < 2 ^ 32

/-- The string does not end with a word. -/
def EndsOpen (string : Text) : Prop := ∀ c ∈ string.getLast?, c = ' ' ∨ c = '\n'

/-- A newline in the string does not end a word, unless it is the only one of its line. -/
def BreaksOpen (string : Text) : Prop :=
  ∀ line ∈ (string.splitOn '\n').dropLast, line.getLast? = some ' ' ∨ (words line).length ≤ 1

/-! ### Words and separators -/

/-- A word, which may be empty, and what stands behind it. -/
abbrev Tok := Text × Char

/-- The word has no separator in it, and one behind it. -/
def Tok.Ok (t : Tok) : Prop := (∀ c ∈ t.1, inWord c) ∧ (t.2 = ' ' ∨ t.2 = '\n')

/-- The text of words and separators. -/
def untok (ts : List Tok) : Text := ts.flatMap fun t => t.1 ++ [t.2]

/-- The loop on words: whether the space in front of them becomes a newline, and what becomes of
them. `psp` says whether there is such a space. -/
def wrapToks (dims : Text → UInt32) (width spacewidth : UInt32) :
    List Tok → UInt32 → Bool → Bool × List Tok
  | [], _, _ => (false, [])
  | (p, sep) :: ts, cw, psp =>
    if sep = '\n' then (false, (p, '\n') :: (wrapToks dims width spacewidth ts 0 false).2)
    else if width < cw + dims p then
      if psp then
        let r := wrapToks dims width spacewidth ts (dims p + spacewidth) true
        (true, (p, if r.1 then '\n' else sep) :: r.2)
      else (false, (p, '\n') :: (wrapToks dims width spacewidth ts (0 + spacewidth) false).2)
    else
      let r := wrapToks dims width spacewidth ts (cw + dims p + spacewidth) true
      (false, (p, if r.1 then '\n' else sep) :: r.2)

theorem untok_cons (p : Text) (sep : Char) (ts : List Tok) :
    untok ((p, sep) :: ts) = p ++ sep :: untok ts := by
  rw [untok, List.flatMap_cons, List.append_assoc]
  rfl

theorem exists_untok {string : Text} (h : nul ∉ string) :
    ∃ ts last, string = untok ts ++ last ∧ (∀ t ∈ ts, Tok.Ok t) ∧ ∀ c ∈ last, inWord c := by
  induction string with
  | nil => exact ⟨[], [], rfl, by simp, by simp⟩
  | cons c s ih =>
    rw [List.mem_cons, not_or] at h
    obtain ⟨ts, last, rfl, hts, hlast⟩ := ih h.2
    by_cases hc : c = ' ' ∨ c = '\n'
    · refine ⟨([], c) :: ts, last, rfl, List.forall_mem_cons.mpr ⟨⟨by simp, hc⟩, hts⟩, hlast⟩
    · have hword : inWord c := ⟨Ne.symm h.1, not_or.mp hc⟩
      cases ts with
      | nil => exact ⟨[], c :: last, rfl, by simp, List.forall_mem_cons.mpr ⟨hword, hlast⟩⟩
      | cons t ts =>
        obtain ⟨p, sep⟩ := t
        obtain ⟨ht, hts⟩ := List.forall_mem_cons.mp hts
        refine ⟨(c :: p, sep) :: ts, last, rfl, List.forall_mem_cons.mpr
          ⟨⟨List.forall_mem_cons.mpr ⟨hword, ht.1⟩, ht.2⟩, hts⟩, hlast⟩

/-! ### The function on words -/

section Refine

variable {dims : Text → UInt32} {width spacewidth : UInt32}

theorem wrapToks_fst_false (ts : List Tok) (cw : UInt32) :
    (wrapToks dims width spacewidth ts cw false).1 = false := by
  cases ts with
  | nil => rfl
  | cons t ts =>
    obtain ⟨p, sep⟩ := t
    rw [wrapToks]
    simp only [Bool.false_eq_true, if_false]
    split_ifs <;> rfl

theorem poke_append (a : Text) (x c : Char) (b : Text) :
    poke (a ++ x :: b) a.length c = some (a ++ c :: b) := by
  rw [poke, if_pos (by rw [List.length_append, List.length_cons]; omega),
    List.set_append_right _ _ le_rfl, Nat.sub_self, List.set_cons_zero]

theorem scanSp_append {p : Text} {sep : Char} (hp : ∀ c ∈ p, inWord c) (hsep : ¬ inWord sep)
    (rest : Text) (i : ℕ) : scanSp (p ++ sep :: rest) i = some (i + p.length) := by
  induction p generalizing i with
  | nil => exact if_neg hsep
  | cons c p ih =>
    obtain ⟨hc, hp⟩ := List.forall_mem_cons.mp hp
    rw [List.cons_append, scanSp, if_pos hc, ih hp, List.length_cons, Nat.add_assoc,
      Nat.add_comm 1]

/-- What a pass does to the word `p`, with `psp` in front of it. -/
theorem fitPass_append {d p : Text} {sep : Char} (hp : ∀ c ∈ p, inWord c) (hsep : ¬ inWord sep)
    (rest : Text) (cw : UInt32) (psp : Option ℕ) :
    fitPass dims width spacewidth ⟨d ++ (p ++ sep :: rest), d.length, cw, psp⟩ =
      if sep = '\n' then some ⟨d ++ (p ++ sep :: rest), d.length + p.length + 1, 0, none⟩
      else if width < cw + dims p then
        match psp with
        | some i => (poke (d ++ (p ++ nul :: rest)) i '\n').bind fun buf =>
            (poke buf (d.length + p.length) sep).map fun buf =>
              ⟨buf, d.length + p.length + 1, dims p + spacewidth, some (d.length + p.length)⟩
        | none => some ⟨d ++ (p ++ '\n' :: rest), d.length + p.length + 1, 0 + spacewidth, none⟩
      else some ⟨d ++ (p ++ sep :: rest), d.length + p.length + 1, cw + dims p + spacewidth,
        some (d.length + p.length)⟩ := by
  have hpoke (x c : Char) : poke (d ++ (p ++ x :: rest)) (d.length + p.length) c =
      some (d ++ (p ++ c :: rest)) := by
    rw [← List.append_assoc, ← List.length_append, poke_append, List.append_assoc]
  have hget : (d ++ (p ++ sep :: rest))[d.length + p.length]? = some sep := by
    rw [← List.append_assoc, ← List.length_append, List.getElem?_append_right le_rfl,
      Nat.sub_self]
    rfl
  have hcut : cstr (nul :: rest) = [] := rfl
  have hnul : nul ∉ p := fun h => (hp nul h).1 rfl
  have hcstr : cstr ((d ++ (p ++ nul :: rest)).drop d.length) = p := by
    rw [List.drop_left' rfl, cstr_append hnul, hcut, List.append_nil]
  rw [fitPass]
  dsimp only
  rw [List.drop_left' rfl, scanSp_append hp hsep, Option.bind_some, hget, Option.bind_some, hpoke,
    Option.bind_some, hcstr, hpoke, hpoke]
  rfl

/-- Nothing is read behind the NUL. -/
theorem fitLoop_outside {s : FitState} (h : s.buf.length ≤ s.str) (fuel : ℕ) :
    fitLoop dims width spacewidth fuel s = none := by
  cases fuel with
  | zero => rfl
  | succ fuel => rw [fitLoop, List.getElem?_eq_none h, Option.bind_none]

/-- A pass of the loop, when the NUL is not reached. -/
theorem fitLoop_succ {d r : Text} {c : Char} (hc : r.head? = some c) (hne : c ≠ nul) (cw : UInt32)
    (psp : Option ℕ) (fuel : ℕ) :
    fitLoop dims width spacewidth (fuel + 1) ⟨d ++ r, d.length, cw, psp⟩ =
      (fitPass dims width spacewidth ⟨d ++ r, d.length, cw, psp⟩).bind
        (fitLoop dims width spacewidth fuel) := by
  have hget : (d ++ r)[d.length]? = some c := by
    rw [List.getElem?_append_right le_rfl, Nat.sub_self, ← List.head?_eq_getElem?, hc]
  rw [fitLoop, hget, Option.bind_some, if_neg hne]

theorem exists_head {p : Text} {sep : Char} (hp : ∀ c ∈ p, inWord c) (hsep : sep ≠ nul)
    (rest : Text) : ∃ c, (p ++ sep :: rest).head? = some c ∧ c ≠ nul := by
  cases p with
  | nil => exact ⟨sep, rfl, hsep⟩
  | cons c p => exact ⟨c, rfl, (hp c List.mem_cons_self).1⟩

/-- The text in front, when the space at its end becomes a newline. -/
def breakLast (d : Text) (psp : Bool) : Text := if psp then d.dropLast ++ ['\n'] else d

theorem poke_breakLast {d : Text} (hd : d ≠ []) (r : Text) :
    poke (d ++ r) (d.length - 1) '\n' = some (breakLast d true ++ r) := by
  obtain ⟨d, x, rfl⟩ := (List.eq_nil_or_concat' d).resolve_left hd
  rw [breakLast, if_pos rfl, List.dropLast_concat, List.length_append, List.length_singleton,
    Nat.add_sub_cancel, List.append_assoc, List.append_assoc]
  exact poke_append d x '\n' r

theorem length_breakLast {d : Text} (hd : d ≠ []) : (breakLast d true).length = d.length := by
  have hpos := List.length_pos_iff.mpr hd
  rw [breakLast, if_pos rfl, List.length_append, List.length_dropLast, List.length_singleton]
  omega

/-- **The last word.** When the string ends with a word, the byte behind the NUL is read. -/
theorem fitLoop_last {last d : Text} (hlast : ∀ c ∈ last, inWord c) (hne : last ≠ [])
    (cw : UInt32) (psp : Bool) (hd : psp = true → d ≠ []) (fuel : ℕ) :
    fitLoop dims width spacewidth fuel
      ⟨d ++ (last ++ [nul]), d.length, cw, if psp then some (d.length - 1) else none⟩ = none := by
  cases fuel with
  | zero => rfl
  | succ fuel =>
    obtain ⟨c, l, rfl⟩ := List.exists_cons_of_ne_nil hne
    have hsep : ¬ inWord nul := by decide
    rw [fitLoop_succ rfl (hlast c List.mem_cons_self).1, fitPass_append hlast hsep,
      if_neg (by decide)]
    have hout (b : Text) (cw : UInt32) (i : Option ℕ)
        (hb : b.length = (d ++ (c :: l ++ [nul])).length) :
        fitLoop dims width spacewidth fuel ⟨b, d.length + (c :: l).length + 1, cw, i⟩ = none := by
      refine fitLoop_outside ?_ fuel
      rw [hb, List.length_append, List.length_append, List.length_singleton, Nat.add_assoc]
    split_ifs with hwide hpsp
    · have hlen := length_breakLast (hd hpsp)
      dsimp only
      rw [poke_breakLast (hd hpsp), Option.bind_some, ← hlen, ← List.append_assoc,
        ← List.length_append, poke_append, Option.map_some, Option.bind_some, List.length_append,
        hlen]
      exact hout _ _ _ (by
        simp only [List.length_append, List.length_singleton, hlen, Nat.add_assoc])
    · exact hout _ _ _ (by simp only [List.length_append, List.length_singleton])
    · exact hout _ _ _ rfl

/-- **The loop.** -/
theorem fitLoop_eq (dims : Text → UInt32) (width spacewidth : UInt32) {ts : List Tok} {last : Text}
    (hts : ∀ t ∈ ts, Tok.Ok t) (hlast : ∀ c ∈ last, inWord c) (d : Text) (cw : UInt32) (psp : Bool)
    (hd : psp = true → d ≠ []) (fuel : ℕ) (hfuel : ts.length < fuel) :
    fitLoop dims width spacewidth fuel ⟨d ++ (untok ts ++ (last ++ [nul])), d.length, cw,
        if psp then some (d.length - 1) else none⟩ =
      if last = [] then
        some (breakLast d (wrapToks dims width spacewidth ts cw psp).1 ++
          (untok (wrapToks dims width spacewidth ts cw psp).2 ++ [nul]))
      else none := by
  induction ts generalizing d cw psp fuel with
  | nil =>
    obtain ⟨fuel, rfl⟩ := Nat.exists_eq_add_one.mpr (Nat.zero_lt_of_lt hfuel)
    by_cases hnil : last = []
    · subst hnil
      have hget : (d ++ (untok [] ++ ([] ++ [nul])))[d.length]? = some nul := by
        rw [List.getElem?_append_right le_rfl, Nat.sub_self]
        rfl
      rw [if_pos rfl, fitLoop]
      dsimp only
      rw [hget]
      rfl
    · rw [if_neg hnil]
      exact fitLoop_last hlast hnil cw psp hd (fuel + 1)
  | cons t ts ih =>
    obtain ⟨p, sep⟩ := t
    obtain ⟨⟨hp, hsep⟩, hts⟩ := List.forall_mem_cons.mp hts
    obtain ⟨fuel, rfl⟩ := Nat.exists_eq_add_one.mpr (Nat.zero_lt_of_lt hfuel)
    have hfuel : ts.length < fuel := Nat.lt_of_succ_lt_succ hfuel
    have hp : ∀ c ∈ p, inWord c := hp
    have hword : ¬ inWord sep := by
      rcases hsep with rfl | rfl <;> decide
    have hnul : sep ≠ nul := by
      rcases hsep with rfl | rfl <;> decide
    -- the words behind `p`, when `x` stands behind it now
    have hrest (e : Text) (he : e.length = d.length) (x : Char) (cw : UInt32) (b : Bool) :
        fitLoop dims width spacewidth fuel ⟨e ++ (p ++ x :: (untok ts ++ (last ++ [nul]))),
          d.length + p.length + 1, cw, if b then some (d.length + p.length) else none⟩ =
        if last = [] then
          some (e ++ (p ++ (if (wrapToks dims width spacewidth ts cw b).1 then '\n' else x) ::
            (untok (wrapToks dims width spacewidth ts cw b).2 ++ [nul])))
        else none := by
      have hlen : (e ++ p ++ [x]).length = d.length + p.length + 1 := by
        rw [List.length_append, List.length_append, he, List.length_singleton]
      have hnext := ih hts (e ++ p ++ [x]) cw b (fun _ => List.concat_ne_nil x (e ++ p)) fuel hfuel
      rw [hlen, Nat.add_sub_cancel] at hnext
      simp only [List.append_assoc, List.singleton_append] at hnext
      rw [hnext, breakLast]
      split_ifs <;> simp
    obtain ⟨c, hc, hne⟩ := exists_head hp hnul (untok ts ++ (last ++ [nul]))
    rw [untok_cons, List.append_assoc, List.cons_append, fitLoop_succ hc hne,
      fitPass_append hp hword, wrapToks]
    by_cases hline : sep = '\n'
    · have hnext := hrest d rfl sep 0 false
      rw [wrapToks_fst_false] at hnext
      rw [if_pos hline, if_pos hline, Option.bind_some]
      subst hline
      exact hnext.trans (by simp only [breakLast, untok_cons, List.append_assoc]; rfl)
    · rw [if_neg hline, if_neg hline]
      by_cases hwide : width < cw + dims p
      · rw [if_pos hwide, if_pos hwide]
        cases psp with
        | true =>
          have hd := hd rfl
          have hlen := length_breakLast hd
          have hnext := hrest _ hlen sep (dims p + spacewidth) true
          simp only [if_true, poke_breakLast hd, Option.bind_some]
          rw [← hlen, ← List.append_assoc, ← List.length_append, poke_append, Option.map_some,
            Option.bind_some, List.append_assoc, List.length_append, hlen]
          exact hnext.trans (by simp only [untok_cons, List.append_assoc]; rfl)
        | false =>
          have hnext := hrest d rfl '\n' (0 + spacewidth) false
          rw [wrapToks_fst_false] at hnext
          simp only [Bool.false_eq_true, if_false, breakLast, untok_cons, List.append_assoc]
          exact hnext
      · have hnext := hrest d rfl sep (cw + dims p + spacewidth) true
        rw [if_neg hwide, if_neg hwide, Option.bind_some]
        exact hnext.trans (by simp only [breakLast, untok_cons, List.append_assoc]; rfl)

end Refine

/-! ### Lines -/

section Lines

variable {dims : Text → UInt32} {width : UInt32} {cur : List Text} {p : Text}

/-- A line so far: each of its words with a space behind it. -/
def lineText (cur : List Text) : Text := untok (cur.map (·, ' '))

theorem lineText_concat (cur : List Text) (p : Text) :
    lineText (cur ++ [p]) = lineText cur ++ (p ++ [' ']) := by
  rw [lineText, lineText, untok, untok, List.map_append, List.flatMap_append, List.map_singleton,
    List.flatMap_singleton]

theorem splitOn_lineText (hcur : ∀ q ∈ cur, ∀ c ∈ q, inWord c) (hp : ∀ c ∈ p, inWord c) :
    (lineText cur ++ p).splitOn ' ' = cur ++ [p] := by
  have hspace {q : Text} (hq : ∀ c ∈ q, inWord c) : ' ' ∉ q := fun h => (hq _ h).2.1 rfl
  induction cur with
  | nil => exact List.splitOn_eq_singleton (hspace hp)
  | cons q cur ih =>
    obtain ⟨hq, hcur⟩ := List.forall_mem_cons.mp hcur
    have hcons : lineText (q :: cur) ++ p = q ++ ' ' :: (lineText cur ++ p) := by
      rw [lineText, List.map_cons, untok_cons, List.append_assoc]
      rfl
    rw [hcons, List.splitOn_append_cons_self_of_not_mem (hspace hq), ih hcur, List.cons_append]

theorem newline_not_mem_lineText (hcur : ∀ q ∈ cur, ∀ c ∈ q, inWord c)
    (hp : ∀ c ∈ p, inWord c) : '\n' ∉ lineText cur ++ p := by
  rw [List.mem_append, lineText, untok, List.mem_flatMap, not_or]
  refine ⟨?_, fun h => (hp _ h).2.2 rfl⟩
  rintro ⟨t, ht, hmem⟩
  obtain ⟨q, hq, rfl⟩ := List.mem_map.mp ht
  rcases List.mem_append.mp hmem with hmem | hmem
  · exact (hcur q hq _ hmem).2.2 rfl
  · exact absurd (List.mem_singleton.mp hmem : '\n' = ' ') (by decide)

/-- The first line of a text. -/
theorem splitOn_line (hcur : ∀ q ∈ cur, ∀ c ∈ q, inWord c) (hp : ∀ c ∈ p, inWord c) (t : Text) :
    (lineText cur ++ (p ++ '\n' :: t)).splitOn '\n' = (lineText cur ++ p) :: t.splitOn '\n' := by
  rw [← List.append_assoc]
  exact List.splitOn_append_cons_self_of_not_mem (newline_not_mem_lineText hcur hp) t

/-- How many of the words are not empty. -/
def wordCount (ps : List Text) : ℕ := (ps.filter (!·.isEmpty)).length

theorem words_lineText (hcur : ∀ q ∈ cur, ∀ c ∈ q, inWord c) (hp : ∀ c ∈ p, inWord c) :
    (words (lineText cur ++ p)).length = wordCount (cur ++ [p]) := by
  rw [words, splitOn_lineText hcur hp, wordCount]

theorem wordCount_concat (ps : List Text) (p : Text) :
    wordCount (ps ++ [p]) = wordCount ps + if p = [] then 0 else 1 := by
  rw [wordCount, wordCount, List.filter_append, List.length_append]
  cases p <;> rfl

theorem piecesWidth_concat (dims : Text → UInt32) (hcur : cur ≠ []) (p : Text) :
    piecesWidth dims (cur ++ [p]) =
      piecesWidth dims cur + (dims [' ']).toNat + (dims p).toNat := by
  have hpos := List.length_pos_iff.mpr hcur
  obtain ⟨n, hn⟩ : ∃ n, cur.length = n + 1 := Nat.exists_eq_add_one.mpr hpos
  rw [piecesWidth, piecesWidth, List.map_append, List.sum_append, List.length_append,
    List.map_singleton, List.sum_singleton, List.length_singleton, hn, Nat.add_sub_cancel,
    Nat.add_sub_cancel, Nat.succ_mul]
  omega

theorem piecesWidth_singleton (dims : Text → UInt32) (p : Text) :
    piecesWidth dims [p] = (dims p).toNat := by
  simp [piecesWidth]

theorem piecesWidth_le_of_isPrefixOf {ps qs : List Text} (h : ps <+: qs) :
    piecesWidth dims ps ≤ piecesWidth dims qs := by
  obtain ⟨r, rfl⟩ := h
  rw [piecesWidth, piecesWidth, List.map_append, List.sum_append, List.length_append]
  exact Nat.add_le_add (Nat.le_add_right _ _) (Nat.mul_le_mul_right _ (by omega))

/-- The words fit, or there is one at most. -/
def Fits (dims : Text → UInt32) (width : UInt32) (ps : List Text) : Prop :=
  piecesWidth dims ps ≤ width.toNat ∨ wordCount ps ≤ 1

/-- A line with a word at its end. -/
theorem Fits.lineOk (hcur : ∀ q ∈ cur, ∀ c ∈ q, inWord c) (hp : ∀ c ∈ p, inWord c)
    (h : Fits dims width (cur ++ [p])) : LineOk dims width (lineText cur ++ p) := by
  rw [LineOk, words_lineText hcur hp, lineWidth, splitOn_lineText hcur hp]
  exact h.imp_left (piecesWidth_le_of_isPrefixOf (List.rdropWhile_prefix _ _)).trans

/-- A line with a space at its end, or an empty one. -/
theorem Fits.lineOk_lineText (hcur : ∀ q ∈ cur, ∀ c ∈ q, inWord c) (h : Fits dims width cur) :
    LineOk dims width (lineText cur) := by
  have hnil : ∀ c ∈ ([] : Text), inWord c := by simp
  have hsplit := splitOn_lineText hcur hnil
  have hwords := words_lineText hcur hnil
  rw [List.append_nil] at hsplit hwords
  rw [LineOk, hwords, wordCount_concat, if_pos rfl, Nat.add_zero, lineWidth, hsplit,
    List.rdropWhile_concat_pos _ _ _ rfl]
  exact h.imp_left (piecesWidth_le_of_isPrefixOf (List.rdropWhile_prefix _ _)).trans

/-- A word behind a line so far. -/
theorem breakLast_lineText_concat (cur : List Text) (p : Text) (psp : Bool) (t : Text) :
    breakLast (lineText (cur ++ [p])) psp ++ t =
      lineText cur ++ (p ++ (if psp then '\n' else ' ') :: t) := by
  rw [lineText_concat, ← List.append_assoc, breakLast]
  cases psp with
  | true =>
    rw [if_pos rfl, if_pos rfl, List.dropLast_concat]
    simp only [List.append_assoc, List.singleton_append]
  | false =>
    rw [if_neg Bool.false_ne_true, if_neg Bool.false_ne_true]
    simp only [List.append_assoc, List.singleton_append]

/-- Words of which one comes behind others. -/
theorem forall_mem_concat (hcur : ∀ q ∈ cur, ∀ c ∈ q, inWord c) (hp : ∀ c ∈ p, inWord c) :
    ∀ q ∈ cur ++ [p], ∀ c ∈ q, inWord c := by
  intro q hq
  rcases List.mem_append.mp hq with hq | hq
  · exact hcur q hq
  · rw [List.mem_singleton.mp hq]
    exact hp

/-- The lines that become of the words `cur` of a line and what follows them. -/
def wrappedLines (dims : Text → UInt32) (width : UInt32) (cur : List Text) (ts : List Tok)
    (cw : UInt32) (psp : Bool) : List Text :=
  (breakLast (lineText cur) (wrapToks dims width (dims [' ']) ts cw psp).1 ++
    untok (wrapToks dims width (dims [' ']) ts cw psp).2).splitOn '\n'

variable {ts : List Tok} {cw : UInt32} {psp : Bool}

theorem wrappedLines_nil (hcur : ∀ q ∈ cur, ∀ c ∈ q, inWord c) :
    wrappedLines dims width cur [] cw psp = [lineText cur] := by
  have hnil : ∀ c ∈ ([] : Text), inWord c := by simp
  have hsplit := List.splitOn_eq_singleton (newline_not_mem_lineText hcur hnil)
  rw [List.append_nil] at hsplit
  rw [wrappedLines, wrapToks, breakLast, if_neg Bool.false_ne_true, untok, List.flatMap_nil,
    List.append_nil, hsplit]

/-- Nothing stands in front of the words. -/
theorem wrappedLines_start (dims : Text → UInt32) (width : UInt32) (ts : List Tok) (cw : UInt32) :
    wrappedLines dims width [] ts cw false =
      (untok (wrapToks dims width (dims [' ']) ts cw false).2).splitOn '\n' := by
  rw [wrappedLines, wrapToks_fst_false]
  rfl

theorem wrappedLines_concat (cur : List Text) (p : Text) :
    wrappedLines dims width (cur ++ [p]) ts cw psp = (lineText cur ++
      (p ++ (if (wrapToks dims width (dims [' ']) ts cw psp).1 then '\n' else ' ') ::
        untok (wrapToks dims width (dims [' ']) ts cw psp).2)).splitOn '\n' := by
  rw [wrappedLines, breakLast_lineText_concat]

/-- A newline ends the line. -/
theorem wrappedLines_newline (hcur : ∀ q ∈ cur, ∀ c ∈ q, inWord c) (hp : ∀ c ∈ p, inWord c) :
    wrappedLines dims width cur ((p, '\n') :: ts) cw psp =
      (lineText cur ++ p) :: wrappedLines dims width [] ts 0 false := by
  rw [wrappedLines, wrapToks, if_pos rfl, untok_cons, breakLast, if_neg Bool.false_ne_true,
    splitOn_line hcur hp, wrappedLines_start]

/-- A word that is too wide starts the next line. -/
theorem wrappedLines_break {q : Text} (hcur : ∀ q ∈ cur, ∀ c ∈ q, inWord c)
    (hq : ∀ c ∈ q, inWord c) (hwide : width < cw + dims p) :
    wrappedLines dims width (cur ++ [q]) ((p, ' ') :: ts) cw true =
      (lineText cur ++ q) :: wrappedLines dims width [p] ts (dims p + dims [' ']) true := by
  have hfirst := @wrappedLines_concat dims width ts (dims p + dims [' ']) true [] p
  rw [List.nil_append] at hfirst
  rw [wrappedLines, wrapToks, if_neg (by decide), if_pos hwide, if_pos rfl]
  dsimp only
  rw [untok_cons, breakLast_lineText_concat, if_pos rfl, splitOn_line hcur hq, hfirst]
  rfl

/-- The first word of a line is too wide. -/
theorem wrappedLines_wide (hp : ∀ c ∈ p, inWord c) (hwide : width < cw + dims p) :
    wrappedLines dims width [] ((p, ' ') :: ts) cw false =
      p :: wrappedLines dims width [] ts (0 + dims [' ']) false := by
  have hempty : ∀ q ∈ ([] : List Text), ∀ c ∈ q, inWord c := by simp
  rw [wrappedLines, wrapToks, if_neg (by decide), if_pos hwide, if_neg Bool.false_ne_true,
    untok_cons, breakLast, if_neg Bool.false_ne_true, splitOn_line hempty hp, wrappedLines_start]
  rfl

/-- A word that is not too wide belongs to the line. -/
theorem wrappedLines_narrow (cur : List Text) (hnarrow : ¬ width < cw + dims p) :
    wrappedLines dims width cur ((p, ' ') :: ts) cw psp =
      wrappedLines dims width (cur ++ [p]) ts (cw + dims p + dims [' ']) true := by
  rw [wrappedLines, wrapToks, if_neg (by decide), if_neg hnarrow]
  dsimp only
  rw [untok_cons, breakLast, if_neg Bool.false_ne_true, wrappedLines_concat]

end Lines

/-! ### When it fits -/

/-- No newline stands behind a word that is not the only one of its line. `seen` says whether a word
was seen in the line. -/
def ToksOk : List Tok → Bool → Prop
  | [], _ => True
  | (p, sep) :: ts, seen =>
    if sep = '\n' then (p = [] ∨ seen = false) ∧ ToksOk ts false
    else ToksOk ts (seen || !p.isEmpty)

section Fit

variable {dims : Text → UInt32} {width : UInt32}

theorem toNat_add_of_lt {a b : UInt32} (h : a.toNat + b.toNat < 2 ^ 32) :
    (a + b).toNat = a.toNat + b.toNat := by
  rw [UInt32.toNat_add, Nat.mod_eq_of_lt h]

/-- The words `cur` of a line, the width `cw` that is counted for them, whether there is a space
behind them, and whether one of them is not empty. -/
structure LineState (dims : Text → UInt32) (width : UInt32) (cur : List Text) (cw : UInt32)
    (psp seen : Bool) : Prop where
  word : ∀ q ∈ cur, ∀ c ∈ q, inWord c
  space : psp = true ↔ cur ≠ []
  fits : Fits dims width cur
  le_counted : cur ≠ [] → piecesWidth dims cur + (dims [' ']).toNat ≤ cw.toNat
  lt : ∀ v, cw.toNat + (dims v).toNat < 2 ^ 32
  seen_eq : wordCount cur ≠ 0 → seen = true

theorem lineState_nil {cw : UInt32} (hlt : ∀ v, cw.toNat + (dims v).toNat < 2 ^ 32) (seen : Bool) :
    LineState dims width [] cw false seen where
  word := by simp
  space := by simp
  fits := .inr (Nat.zero_le 1)
  le_counted h := absurd rfl h
  lt := hlt
  seen_eq h := absurd rfl h

variable {cur : List Text} {p : Text} {cw : UInt32} {psp seen : Bool}

theorem seen_concat (hseen : wordCount cur ≠ 0 → seen = true) (h : wordCount (cur ++ [p]) ≠ 0) :
    (seen || !p.isEmpty) = true := by
  rw [wordCount_concat] at h
  cases p with
  | nil =>
    rw [hseen (by simpa using h)]
    rfl
  | cons c p => exact Bool.or_true seen

theorem toNat_add_space (hno : NoOverflow dims width) (p : Text) :
    (dims p + dims [' ']).toNat = (dims p).toNat + (dims [' ']).toNat := by
  have := (hno p []).1
  exact toNat_add_of_lt (by omega)

/-- A word that starts a line. -/
theorem lineState_singleton (hno : NoOverflow dims width) (hp : ∀ c ∈ p, inWord c)
    (seen : Bool) : LineState dims width [p] (dims p + dims [' ']) true (seen || !p.isEmpty) where
  word := by simpa using hp
  space := by simp
  fits := .inr (by
    rw [wordCount]
    exact List.length_filter_le _ [p])
  le_counted _ := by rw [toNat_add_space hno, piecesWidth_singleton]
  lt v := by
    rw [toNat_add_space hno]
    exact (hno p v).1
  seen_eq := @seen_concat [] p seen fun h => absurd rfl h

/-- A word that the line has room for. -/
theorem LineState.concat (h : LineState dims width cur cw psp seen) (hno : NoOverflow dims width)
    (hp : ∀ c ∈ p, inWord c) (hnarrow : ¬ width < cw + dims p) :
    LineState dims width (cur ++ [p]) (cw + dims p + dims [' ']) true (seen || !p.isEmpty) := by
  have hsum := toNat_add_of_lt (h.lt p)
  have hle : cw.toNat + (dims p).toNat ≤ width.toNat := by
    rw [← hsum]
    exact UInt32.le_iff_toNat_le.mp (UInt32.not_lt.mp hnarrow)
  have hcw : (cw + dims p + dims [' ']).toNat =
      cw.toNat + (dims p).toNat + (dims [' ']).toNat := by
    have := (hno p []).2
    rw [← hsum]
    exact toNat_add_of_lt (by omega)
  have hpieces : piecesWidth dims (cur ++ [p]) ≤ cw.toNat + (dims p).toNat := by
    by_cases hnil : cur = []
    · subst hnil
      rw [List.nil_append, piecesWidth_singleton]
      exact Nat.le_add_left _ _
    · rw [piecesWidth_concat dims hnil]
      exact Nat.add_le_add_right (h.le_counted hnil) _
  refine ⟨forall_mem_concat h.word hp, by simp, .inl (hpieces.trans hle), fun _ => ?_,
    fun v => ?_, seen_concat h.seen_eq⟩
  · rw [hcw]
    exact Nat.add_le_add_right hpieces _
  · have := (hno p v).2
    rw [hcw]
    omega

/-- The line that a newline ends. -/
theorem LineState.lineOk (h : LineState dims width cur cw psp seen) (hp : ∀ c ∈ p, inWord c)
    (hok : p = [] ∨ seen = false) : LineOk dims width (lineText cur ++ p) := by
  by_cases hnil : p = []
  · rw [hnil, List.append_nil]
    exact h.fits.lineOk_lineText h.word
  · have hzero : wordCount cur = 0 := by
      by_contra hne
      have hfalse := hok.resolve_left hnil
      rw [h.seen_eq hne] at hfalse
      exact absurd hfalse (by decide)
    refine Fits.lineOk h.word hp (.inr ?_)
    rw [wordCount_concat, hzero, if_neg hnil]

/-- **The lines.** -/
theorem wrapToks_lineOk (hno : NoOverflow dims width) {ts : List Tok} (hts : ∀ t ∈ ts, Tok.Ok t)
    (h : LineState dims width cur cw psp seen) (hok : ToksOk ts seen) :
    ∀ line ∈ wrappedLines dims width cur ts cw psp, LineOk dims width line := by
  induction ts generalizing cur cw psp seen with
  | nil =>
    intro line hline
    rw [wrappedLines_nil h.word, List.mem_singleton] at hline
    exact hline ▸ h.fits.lineOk_lineText h.word
  | cons t ts ih =>
    obtain ⟨p, sep⟩ := t
    obtain ⟨⟨hp, hsep⟩, htail⟩ := List.forall_mem_cons.mp hts
    have hp : ∀ c ∈ p, inWord c := hp
    rw [ToksOk] at hok
    by_cases hline : sep = '\n'
    · subst hline
      rw [if_pos rfl] at hok
      rw [wrappedLines_newline h.word hp, List.forall_mem_cons]
      refine ⟨h.lineOk hp hok.1, ih htail (lineState_nil (fun v => ?_) false) hok.2⟩
      exact (Nat.zero_add _).trans_lt (dims v).toNat_lt
    · have hspace : sep = ' ' := hsep.resolve_right hline
      subst hspace
      rw [if_neg hline] at hok
      by_cases hwide : width < cw + dims p
      · cases psp with
        | true =>
          -- the line so far ends in front of the word
          obtain ⟨cur, q, rfl⟩ := (List.eq_nil_or_concat' cur).resolve_left (h.space.mp rfl)
          obtain ⟨hcur, hq⟩ := List.forall_mem_append.mp h.word
          have hq : ∀ c ∈ q, inWord c := hq q List.mem_cons_self
          rw [wrappedLines_break hcur hq hwide, List.forall_mem_cons]
          exact ⟨h.fits.lineOk hcur hq, ih htail (lineState_singleton hno hp seen) hok⟩
        | false =>
          have hnil : cur = [] := not_not.mp fun hne => Bool.false_ne_true (h.space.mpr hne)
          subst hnil
          have hfirst := (lineState_singleton hno hp seen).fits.lineOk h.word hp
          rw [wrappedLines_wide hp hwide, List.forall_mem_cons]
          refine ⟨hfirst, ih htail (lineState_nil (fun v => ?_) _) hok⟩
          rw [UInt32.zero_add]
          have := (hno [] v).1
          omega
      · rw [wrappedLines_narrow cur hwide]
        exact ih htail (h.concat hno hp hwide) hok

end Fit

/-! ### When it does not -/

section Bad

/-- A width of one for each word. -/
def oneEach (u : Text) : UInt32 := if u = [] ∨ u = [' '] then 0 else 1

theorem oneEach_word {p : Text} (hp : ∀ c ∈ p, inWord c) :
    oneEach p = if p = [] then 0 else 1 := by
  have hspace : p ≠ [' '] := by
    rintro rfl
    exact absurd (hp ' ' List.mem_cons_self) (by decide)
  simp only [oneEach, hspace, or_false]

theorem piecesWidth_oneEach {ps : List Text} (hps : ∀ p ∈ ps, ∀ c ∈ p, inWord c) :
    piecesWidth oneEach ps = wordCount ps := by
  have hzero : (oneEach [' ']).toNat = 0 := rfl
  rw [piecesWidth, hzero, Nat.mul_zero, Nat.add_zero]
  induction ps with
  | nil => rfl
  | cons p ps ih =>
    obtain ⟨hp, hps⟩ := List.forall_mem_cons.mp hps
    rw [List.map_cons, List.sum_cons, ih hps, oneEach_word hp, wordCount, wordCount]
    cases p with
    | nil => exact Nat.zero_add _
    | cons c p => exact Nat.add_comm 1 _

variable {cur : List Text} {p : Text} {seen : Bool}

/-- A line with a second word, which a newline ends. -/
theorem not_lineOk_second (hcur : ∀ q ∈ cur, ∀ c ∈ q, inWord c) (hp : ∀ c ∈ p, inWord c)
    (hcount : wordCount cur = 1) (hne : p ≠ []) : ¬ LineOk oneEach 1 (lineText cur ++ p) := by
  have hwords : wordCount (cur ++ [p]) = 2 := by rw [wordCount_concat, hcount, if_neg hne]
  have hlast : ¬ p.isEmpty = true := by rwa [List.isEmpty_iff]
  rw [LineOk, words_lineText hcur hp, hwords, lineWidth, splitOn_lineText hcur hp,
    List.rdropWhile_concat_neg _ _ _ hlast, piecesWidth_oneEach (forall_mem_concat hcur hp), hwords]
  decide

/-- A word that is empty, or the first one of its line. -/
theorem oneEach_narrow (hp : ∀ c ∈ p, inWord c) (hfirst : ¬(p ≠ [] ∧ seen = true)) :
    ¬ (1 : UInt32) < (if seen then 1 else 0) + oneEach p ∧
      (if seen then 1 else 0) + oneEach p + oneEach [' '] =
        if (seen || !p.isEmpty) then 1 else 0 := by
  rw [oneEach_word hp]
  cases p with
  | nil => cases seen <;> decide
  | cons c p =>
    have hseen : ¬ seen = true := fun h => hfirst ⟨List.cons_ne_nil c p, h⟩
    rw [Bool.not_eq_true] at hseen
    subst hseen
    rw [if_neg (List.cons_ne_nil c p)]
    exact ⟨by decide, rfl⟩

theorem wordCount_first (hcount : wordCount cur = if seen then 1 else 0)
    (hfirst : ¬(p ≠ [] ∧ seen = true)) :
    wordCount (cur ++ [p]) = if (seen || !p.isEmpty) then 1 else 0 := by
  rw [wordCount_concat, hcount]
  cases p with
  | nil => cases seen <;> rfl
  | cons c p =>
    have hseen : ¬ seen = true := fun h => hfirst ⟨List.cons_ne_nil c p, h⟩
    rw [Bool.not_eq_true] at hseen
    subst hseen
    rfl

theorem no_words : (∀ q ∈ ([] : List Text), ∀ c ∈ q, inWord c) ∧
    (false = true ↔ ([] : List Text) ≠ []) ∧ wordCount [] = if false then 1 else 0 :=
  ⟨by simp, by simp, rfl⟩

/-- **The lines.** A newline behind a second word: that word is not measured. -/
theorem exists_not_lineOk {ts : List Tok} (hts : ∀ t ∈ ts, Tok.Ok t)
    (hcur : ∀ q ∈ cur, ∀ c ∈ q, inWord c) {psp : Bool} (hpsp : psp = true ↔ cur ≠ [])
    (hcount : wordCount cur = if seen then 1 else 0) (hbad : ¬ ToksOk ts seen) :
    ∃ line ∈ wrappedLines oneEach 1 cur ts (if seen then 1 else 0) psp,
      ¬ LineOk oneEach 1 line := by
  induction ts generalizing cur psp seen with
  | nil => exact absurd trivial hbad
  | cons t ts ih =>
    obtain ⟨p, sep⟩ := t
    obtain ⟨⟨hp, hsep⟩, htail⟩ := List.forall_mem_cons.mp hts
    have hp : ∀ c ∈ p, inWord c := hp
    rw [ToksOk] at hbad
    by_cases hline : sep = '\n'
    · subst hline
      rw [if_pos rfl] at hbad
      rw [wrappedLines_newline hcur hp]
      by_cases hhere : p = [] ∨ seen = false
      · obtain ⟨hcur, hpsp, hcount⟩ := no_words
        obtain ⟨line, hmem, hnot⟩ := ih htail hcur hpsp hcount fun hrest => hbad ⟨hhere, hrest⟩
        exact ⟨line, List.mem_cons_of_mem _ hmem, hnot⟩
      · obtain ⟨hne, hseen⟩ := not_or.mp hhere
        rw [Bool.not_eq_false] at hseen
        rw [hseen, if_pos rfl] at hcount
        exact ⟨_, List.mem_cons_self, not_lineOk_second hcur hp hcount hne⟩
    · have hspace : sep = ' ' := hsep.resolve_right hline
      subst hspace
      rw [if_neg hline] at hbad
      by_cases hwide : p ≠ [] ∧ seen = true
      · -- the second word of a line starts the next one
        obtain ⟨hne, rfl⟩ := hwide
        have hcur' : cur ≠ [] := by
          rintro rfl
          exact absurd hcount (by decide)
        have hone : oneEach p = 1 := by rw [oneEach_word hp, if_neg hne]
        have hfirst : wordCount [p] = if true then 1 else 0 := by
          have h := wordCount_concat [] p
          rwa [if_neg hne] at h
        have hspace : true = true ↔ [p] ≠ [] := by simp
        obtain ⟨line, hmem, hnot⟩ :=
          ih htail (by simpa using hp) hspace hfirst (by simpa using hbad)
        obtain ⟨cur, q, rfl⟩ := (List.eq_nil_or_concat' cur).resolve_left hcur'
        obtain ⟨hbefore, hq⟩ := List.forall_mem_append.mp hcur
        have hq : ∀ c ∈ q, inWord c := hq q List.mem_cons_self
        rw [hpsp.mpr hcur', wrappedLines_break hbefore hq (by rw [hone]; decide), hone]
        exact ⟨line, List.mem_cons_of_mem _ hmem, hnot⟩
      · -- the word fits
        obtain ⟨hnarrow, hcw⟩ := oneEach_narrow hp hwide
        rw [wrappedLines_narrow cur hnarrow, hcw]
        exact ih htail (forall_mem_concat hcur hp) (by simp) (wordCount_first hcount hwide) hbad

end Bad

/-! ### The strings -/

section Strings

variable {ts : List Tok} {last : Text} {dims : Text → UInt32} {width spacewidth : UInt32}

theorem length_le_untok (ts : List Tok) : ts.length ≤ (untok ts).length := by
  induction ts with
  | nil => exact Nat.zero_le _
  | cons t ts ih =>
    rw [untok_cons, List.length_append, List.length_cons, List.length_cons]
    omega

/-- The function on a string. -/
theorem fntFitString_eq (dims : Text → UInt32) (width : UInt32) (hts : ∀ t ∈ ts, Tok.Ok t)
    (hlast : ∀ c ∈ last, inWord c) :
    fntFitString dims width (untok ts ++ last ++ [nul]) =
      if last = [] then some (untok (wrapToks dims width (dims [' ']) ts 0 false).2 ++ [nul])
      else none := by
  have hlen := length_le_untok ts
  have hfuel : ts.length < (untok ts ++ last ++ [nul]).length + 1 := by
    simp only [List.length_append]
    omega
  have h := fitLoop_eq dims width (dims [' ']) hts hlast [] 0 false (by simp) _ hfuel
  rw [wrapToks_fst_false] at h
  rw [fntFitString, List.append_assoc]
  rw [List.append_assoc] at h
  exact h

theorem untok_forall₂ (hts : ∀ t ∈ ts, Tok.Ok t) (cw : UInt32) (psp : Bool) :
    List.Forall₂ (fun c d => d = c ∨ c = ' ' ∧ d = '\n') (untok ts)
      (untok (wrapToks dims width spacewidth ts cw psp).2) := by
  have hsame (p : Text) : List.Forall₂ (fun c d => d = c ∨ c = ' ' ∧ d = '\n') p p :=
    List.forall₂_same.mpr fun _ _ => .inl rfl
  induction ts generalizing cw psp with
  | nil => exact List.Forall₂.nil
  | cons t ts ih =>
    obtain ⟨p, sep⟩ := t
    obtain ⟨⟨-, hsep⟩, htail⟩ := List.forall_mem_cons.mp hts
    have hcons {d : Char} (hd : d = sep ∨ sep = ' ' ∧ d = '\n') (cw : UInt32) (psp : Bool) :
        List.Forall₂ (fun c d => d = c ∨ c = ' ' ∧ d = '\n') (untok ((p, sep) :: ts))
          (untok ((p, d) :: (wrapToks dims width spacewidth ts cw psp).2)) := by
      rw [untok_cons, untok_cons]
      exact List.rel_append (hsame p) (.cons hd (ih htail cw psp))
    rw [wrapToks]
    by_cases hline : sep = '\n'
    · rw [if_pos hline]
      exact hcons (.inl hline.symm) 0 false
    · have hspace : sep = ' ' := hsep.resolve_right hline
      have hbreak (b : Bool) : (if b then '\n' else sep) = sep ∨
          sep = ' ' ∧ (if b then '\n' else sep) = '\n' := by
        cases b with
        | true => exact .inr ⟨hspace, rfl⟩
        | false => exact .inl rfl
      rw [if_neg hline]
      split_ifs
      · exact hcons (hbreak _) _ true
      · exact hcons (.inr ⟨hspace, rfl⟩) _ false
      · exact hcons (hbreak _) _ true

theorem breaksOpen_iff (hts : ∀ t ∈ ts, Tok.Ok t) (cur : List Text)
    (hcur : ∀ q ∈ cur, ∀ c ∈ q, inWord c) (seen : Bool) (hseen : seen = false ↔ wordCount cur = 0) :
    BreaksOpen (lineText cur ++ untok ts) ↔ ToksOk ts seen := by
  induction ts generalizing cur seen with
  | nil =>
    have hsplit := List.splitOn_eq_singleton
      (newline_not_mem_lineText hcur (p := []) (by simp))
    rw [BreaksOpen, untok, List.flatMap_nil, hsplit]
    exact iff_of_true (by simp) trivial
  | cons t ts ih =>
    obtain ⟨p, sep⟩ := t
    obtain ⟨⟨hp, hsep⟩, htail⟩ := List.forall_mem_cons.mp hts
    have hp : ∀ c ∈ p, inWord c := hp
    rw [ToksOk]
    by_cases hline : sep = '\n'
    · have hrest := ih htail [] (by simp) false (by simp [wordCount])
      rw [if_pos hline, ← hrest, hline, BreaksOpen, untok_cons, splitOn_line hcur hp,
        List.dropLast_cons_of_ne_nil (List.splitOn_ne_nil _ _), List.forall_mem_cons]
      refine and_congr_left fun _ => ?_
      rw [words_lineText hcur hp, wordCount_concat, hseen]
      by_cases hnil : p = []
      · rw [if_pos hnil, hnil, List.append_nil]
        refine iff_of_true ?_ (.inl rfl)
        by_cases hfirst : cur = []
        · exact .inr (by simp [hfirst, wordCount])
        · obtain ⟨cur, q, rfl⟩ := (List.eq_nil_or_concat' cur).resolve_left hfirst
          refine .inl ?_
          rw [lineText_concat, ← List.append_assoc, List.getLast?_concat]
      · rw [if_neg hnil]
        obtain ⟨p, x, rfl⟩ := (List.eq_nil_or_concat' p).resolve_left hnil
        have hx : x ≠ ' ' := (hp x (List.mem_append_right _ List.mem_cons_self)).2.1
        rw [← List.append_assoc, List.getLast?_concat, Option.some.injEq]
        simp only [hx, hnil, false_or]
        omega
    · have hspace : sep = ' ' := hsep.resolve_right hline
      subst hspace
      have hseen' : (seen || !p.isEmpty) = false ↔ wordCount (cur ++ [p]) = 0 := by
        rw [wordCount_concat, Bool.or_eq_false_iff, hseen]
        cases p <;> simp
      rw [if_neg hline, ← ih htail (cur ++ [p]) (forall_mem_concat hcur hp) (seen || !p.isEmpty)
        hseen', lineText_concat, untok_cons]
      simp only [List.append_assoc, List.singleton_append]

theorem endsOpen_iff (hts : ∀ t ∈ ts, Tok.Ok t) (hlast : ∀ c ∈ last, inWord c) :
    EndsOpen (untok ts ++ last) ↔ last = [] := by
  constructor
  · intro h
    by_contra hne
    obtain ⟨l, x, rfl⟩ := (List.eq_nil_or_concat' last).resolve_left hne
    have hx := hlast x (List.mem_append_right _ List.mem_cons_self)
    rw [EndsOpen, ← List.append_assoc, List.getLast?_concat] at h
    exact (h x rfl).elim hx.2.1 hx.2.2
  · rintro rfl c hc
    rcases List.eq_nil_or_concat' ts with rfl | ⟨ts, ⟨p, sep⟩, rfl⟩
    · exact absurd hc (by simp [untok])
    · have hsep := (hts (p, sep) (List.mem_append_right _ List.mem_cons_self)).2
      have hlast : (untok (ts ++ [(p, sep)]) ++ []).getLast? = some sep := by
        rw [List.append_nil, untok, List.flatMap_append, List.flatMap_singleton,
          ← List.append_assoc, List.getLast?_concat]
      rw [hlast, Option.mem_some_iff] at hc
      exact hc ▸ hsep

/-- **Word wrap.** A string that ends with a word is never rewritten as it should be. A string is,
whatever the widths, just when it does not, and no newline in it stands behind a word that is not
the only one of its line. -/
theorem fitsWell_iff {string : Text} (hnul : nul ∉ string) :
    (¬ EndsOpen string → ∀ dims width, ¬ FitsWell dims width string) ∧
    ((∀ dims width, NoOverflow dims width → FitsWell dims width string) ↔
      EndsOpen string ∧ BreaksOpen string) := by
  obtain ⟨ts, last, rfl, hts, hlast⟩ := exists_untok hnul
  have hends := endsOpen_iff hts hlast
  have hnot (hne : ¬ EndsOpen (untok ts ++ last)) (dims : Text → UInt32) (width : UInt32) :
      ¬ FitsWell dims width (untok ts ++ last) := by
    rintro ⟨t, ht, -⟩
    rw [fntFitString_eq dims width hts hlast, if_neg fun h => hne (hends.mpr h)] at ht
    exact Option.some_ne_none _ ht.symm
  refine ⟨hnot, fun h => ?_, ?_⟩
  · have hopen : EndsOpen (untok ts ++ last) := by
      by_contra hne
      exact hnot hne _ _ (h (fun _ => 0) 0 fun _ _ => ⟨Nat.two_pow_pos 32, Nat.two_pow_pos 32⟩)
    refine ⟨hopen, ?_⟩
    obtain rfl := hends.mp hopen
    rw [List.append_nil]
    refine (breaksOpen_iff hts [] (by simp) false (by simp [wordCount])).mpr ?_
    by_contra hbad
    have hno : NoOverflow oneEach 1 := by
      have hle (u : Text) : (oneEach u).toNat ≤ 1 := by
        rw [oneEach]
        split_ifs <;> decide
      intro u v
      have hone : (1 : UInt32).toNat = 1 := rfl
      have := hle u
      have := hle [' ']
      have := hle v
      omega
    obtain ⟨t, ht, -, hlines⟩ := h oneEach 1 hno
    obtain ⟨hcur, hpsp, hcount⟩ := no_words
    obtain ⟨line, hmem, hline⟩ := exists_not_lineOk hts hcur hpsp hcount hbad
    rw [fntFitString_eq oneEach 1 hts hlast, if_pos rfl] at ht
    obtain rfl := List.append_cancel_right (Option.some.inj ht)
    rw [if_neg Bool.false_ne_true, wrappedLines_start] at hmem
    exact hline (hlines line hmem)
  · rintro ⟨hopen, hbreaks⟩ dims width hno
    obtain rfl := hends.mp hopen
    rw [List.append_nil] at hbreaks ⊢
    have hok := (breaksOpen_iff hts [] (by simp) false (by simp [wordCount])).mp hbreaks
    refine ⟨untok (wrapToks dims width (dims [' ']) ts 0 false).2, ?_, untok_forall₂ hts 0 false,
      ?_⟩
    · have h := fntFitString_eq dims width hts hlast
      rwa [if_pos rfl, List.append_nil] at h
    · rw [← wrappedLines_start]
      refine wrapToks_lineOk hno hts (lineState_nil (fun v => ?_) false) hok
      exact (Nat.zero_add _).trans_lt (dims v).toNat_lt

/-- Two words and a space. -/
theorem fitsWell_twoWords :
    (¬ EndsOpen "ab cd ".toList → ∀ dims width, ¬ FitsWell dims width "ab cd ".toList) ∧
    ((∀ dims width, NoOverflow dims width → FitsWell dims width "ab cd ".toList) ↔
      EndsOpen "ab cd ".toList ∧ BreaksOpen "ab cd ".toList) :=
  fitsWell_iff (by decide)

/-- The byte behind the NUL is read; and two words that do not fit stay in a line. -/
theorem not_fitsWell :
    ¬ FitsWell (fun _ => 1) 10 ['a'] ∧ ¬ FitsWell oneEach 1 ['a', ' ', 'b', '\n'] := by
  constructor
  · rintro ⟨t, ht, -⟩
    have hnone : fntFitString (fun _ => 1) 10 (['a'] ++ [nul]) = none := by decide
    rw [hnone] at ht
    exact Option.some_ne_none _ ht.symm
  · rintro ⟨t, ht, -, hlines⟩
    have hsame : fntFitString oneEach 1 (['a', ' ', 'b', '\n'] ++ [nul]) =
        some (['a', ' ', 'b', '\n'] ++ [nul]) := by decide
    rw [hsame] at ht
    obtain rfl := List.append_cancel_right (Option.some.inj ht)
    have hline := hlines ['a', ' ', 'b'] (by decide)
    rw [LineOk] at hline
    exact absurd hline (by decide)

end Strings

end Fnt

end OpenPS2Loader
