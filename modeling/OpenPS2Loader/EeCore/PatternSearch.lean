import Mathlib.Algebra.Group.Nat.Defs
import Mathlib.Data.List.GetD
import Mathlib.Tactic.SplitIfs

/-!
# The search for a pattern of instructions

`find_pattern_with_mask` looks for a sequence of instructions in the memory of a game: some bits of
each word are compared with a pattern. The patches of games and the hook of the pad find in this way
what they replace.

`unsigned int` is 32 bits wide, and `bufsize - len` wraps around. A read outside of an array has no
result. The address that is returned is the one of a word of the buffer, given by its number.

The loop ends one position early. When the pattern is longer than the buffer, the number of
positions wraps around, and the loop goes on behind the buffer.

## Main definitions

* `EeCore.findPatternWithMask` — the function
* `EeCore.Search` — its arguments
* `EeCore.Search.MatchesAt` — a position with the pattern
* `EeCore.Search.FindsFirst` — what is asked of the function
* `EeCore.Search.NotAtEnd` — the arguments for which it is done

## Main results

* `EeCore.Search.matchLoop_eq_some_iff` — the words that one position compares
* `EeCore.Search.searchLoop_spec`, `searchLoop_eq_none` — a run of the outer loop
* `EeCore.Search.findsFirst_iff`
-/

namespace OpenPS2Loader

namespace EeCore

/-! ### The function -/

/-- The inner loop: the `j` with which it ends. -/
def matchLoop (buf pattern mask : List UInt32) (len i j : UInt32) : Option UInt32 :=
  if h : j < len then
    (buf[(i + j).toNat]?).bind fun word =>
      (mask[j.toNat]?).bind fun m =>
        (pattern[j.toNat]?).bind fun p =>
          if word &&& m ≠ p then some j else matchLoop buf pattern mask len i (j + 1)
  else some j
termination_by len.toNat - j.toNat
decreasing_by
  have hlt := UInt32.lt_iff_toNat_lt.mp h
  have hlen := len.toNat_lt
  rw [UInt32.toNat_add, UInt32.toNat_one]
  omega

/-- The outer loop. -/
def searchLoop (buf pattern mask : List UInt32) (bufsize len i : UInt32) :
    Option (Option UInt32) :=
  if h : i < bufsize - len then
    (matchLoop buf pattern mask len i 0).bind fun j =>
      if j = len then some (some i) else searchLoop buf pattern mask bufsize len (i + 1)
  else some none
termination_by (bufsize - len).toNat - i.toNat
decreasing_by
  have hlt := UInt32.lt_iff_toNat_lt.mp h
  have hlen := (bufsize - len).toNat_lt
  rw [UInt32.toNat_add, UInt32.toNat_one]
  omega

/-- `find_pattern_with_mask`: the number of a word, or `none` for `NULL`. -/
def findPatternWithMask (buf : List UInt32) (bufsize : UInt32) (pattern mask : List UInt32)
    (len : UInt32) : Option (Option UInt32) :=
  searchLoop buf pattern mask (bufsize / 4) (len / 4) 0

/-- The arguments: sizes are in bytes, and the pattern has a word at least. -/
structure Search where
  buf : List UInt32
  bufsize : UInt32
  pattern : List UInt32
  mask : List UInt32
  len : UInt32
  bufsize_eq : bufsize.toNat = 4 * buf.length
  len_eq : len.toNat = 4 * pattern.length
  length_mask : mask.length = pattern.length
  pattern_ne : pattern ≠ []

namespace Search

variable (s : Search)

/-- The call with the arguments. -/
def result : Option (Option UInt32) :=
  findPatternWithMask s.buf s.bufsize s.pattern s.mask s.len

/-! ### What is asked of it -/

/-- The word at `i + j` has the bits of the pattern. -/
def WordMatches (i j : ℕ) : Prop :=
  s.buf.getD (i + j) 0 &&& s.mask.getD j 0 = s.pattern.getD j 0

instance (i j : ℕ) : Decidable (s.WordMatches i j) := inferInstanceAs (Decidable (_ = _))

/-- The pattern stands at the word `i` of the buffer. -/
def MatchesAt (i : ℕ) : Prop :=
  i + s.pattern.length ≤ s.buf.length ∧ ∀ j < s.pattern.length, s.WordMatches i j

/-- The first position with the pattern is returned, or `NULL` when there is none; all reads are in
the arrays. -/
def FindsFirst : Prop :=
  (∃ i, s.result = some (some i) ∧ s.MatchesAt i.toNat ∧ ∀ k < i.toNat, ¬ s.MatchesAt k) ∨
    s.result = some none ∧ ∀ k, ¬ s.MatchesAt k

/-- The pattern is no longer than the buffer, and the end of the buffer is not the only place where
it stands. -/
def NotAtEnd : Prop :=
  s.pattern.length ≤ s.buf.length ∧
    (s.MatchesAt (s.buf.length - s.pattern.length) →
      ∃ k < s.buf.length - s.pattern.length, s.MatchesAt k)

/-! ### The inner loop -/

theorem toNat_words : (s.bufsize / 4).toNat = s.buf.length := by
  rw [UInt32.toNat_div, s.bufsize_eq]
  exact Nat.mul_div_cancel_left _ (by decide)

theorem toNat_len : (s.len / 4).toNat = s.pattern.length := by
  rw [UInt32.toNat_div, s.len_eq]
  exact Nat.mul_div_cancel_left _ (by decide)

/-- The arrays have less than 2 ^ 30 words. -/
theorem length_lt : s.buf.length < 2 ^ 30 ∧ s.pattern.length < 2 ^ 30 := by
  have hbuf := s.bufsize.toNat_lt
  have hlen := s.len.toNat_lt
  rw [s.bufsize_eq] at hbuf
  rw [s.len_eq] at hlen
  omega

theorem length_pos : 0 < s.pattern.length := List.length_pos_iff.mpr s.pattern_ne

variable {i j : UInt32}

theorem toNat_add_one (h : i.toNat < 2 ^ 31) : (i + 1).toNat = i.toNat + 1 := by
  rw [UInt32.toNat_add, UInt32.toNat_one]
  omega

/-- The inner loop for a position. -/
def loop (i j : UInt32) : Option UInt32 := matchLoop s.buf s.pattern s.mask (s.len / 4) i j

theorem loop_of_end (h : j.toNat = s.pattern.length) : s.loop i j = some j := by
  have hend : ¬ j < s.len / 4 := by
    rw [UInt32.lt_iff_toNat_lt, s.toNat_len]
    omega
  rw [loop, matchLoop, dif_neg hend]

/-- One turn: a read outside of the buffer, a word that differs, or the next turn. -/
theorem loop_of_lt (hi : i.toNat ≤ s.buf.length) (hj : j.toNat < s.pattern.length) :
    s.loop i j =
      if i.toNat + j.toNat < s.buf.length then
        if s.WordMatches i.toNat j.toNat then s.loop i (j + 1) else some j
      else none := by
  have hlt := s.length_lt
  have hmask : j.toNat < s.mask.length := by
    rw [s.length_mask]
    exact hj
  have hturn : j < s.len / 4 := by
    rw [UInt32.lt_iff_toNat_lt, s.toNat_len]
    exact hj
  have hadd : (i + j).toNat = i.toNat + j.toNat := by
    rw [UInt32.toNat_add]
    omega
  rw [loop, matchLoop, dif_pos hturn, hadd]
  by_cases hin : i.toNat + j.toNat < s.buf.length
  · have hword : s.WordMatches i.toNat j.toNat ↔
        s.buf[i.toNat + j.toNat] &&& s.mask[j.toNat] = s.pattern[j.toNat] := by
      rw [WordMatches, List.getD_eq_getElem _ _ hin, List.getD_eq_getElem _ _ hmask,
        List.getD_eq_getElem _ _ hj]
    rw [if_pos hin, List.getElem?_eq_getElem hin, Option.bind_some, List.getElem?_eq_getElem hmask,
      Option.bind_some, List.getElem?_eq_getElem hj, Option.bind_some, ite_not]
    by_cases h : s.WordMatches i.toNat j.toNat
    · rw [if_pos h, if_pos (hword.mp h), loop]
    · rw [if_neg h, if_neg fun h' => h (hword.mpr h')]
  · rw [if_neg hin, List.getElem?_eq_none (Nat.not_lt.mp hin), Option.bind_none]

/-- **The inner loop reaches the end** when the words from `j` on are in the buffer and have the
bits of the pattern. -/
theorem loop_eq_some_iff (hi : i.toNat ≤ s.buf.length) (hj : j.toNat ≤ s.pattern.length) :
    s.loop i j = some (s.len / 4) ↔ ∀ k, j.toNat ≤ k → k < s.pattern.length →
      i.toNat + k < s.buf.length ∧ s.WordMatches i.toNat k := by
  induction hd : s.pattern.length - j.toNat generalizing j with
  | zero =>
    have hend : j = s.len / 4 := by
      rw [← UInt32.toNat_inj, s.toNat_len]
      omega
    rw [s.loop_of_end (by omega), hend]
    refine iff_of_true rfl fun k hk hlt => ?_
    rw [s.toNat_len] at hk
    omega
  | succ d ih =>
    have hlt := s.length_lt
    have hlt' : j.toNat < s.pattern.length := by omega
    have hne : j ≠ s.len / 4 := by
      rintro rfl
      rw [s.toNat_len] at hlt'
      exact Nat.lt_irrefl _ hlt'
    have hnext : (j + 1).toNat = j.toNat + 1 := toNat_add_one (by omega)
    rw [s.loop_of_lt hi hlt']
    by_cases hin : i.toNat + j.toNat < s.buf.length
    · by_cases hword : s.WordMatches i.toNat j.toNat
      · rw [if_pos hin, if_pos hword, ih (by omega) (by omega), hnext]
        constructor
        · intro h k hk hkm
          rcases Nat.eq_or_lt_of_le hk with rfl | hk
          · exact ⟨hin, hword⟩
          · exact h k hk hkm
        · exact fun h k hk => h k (by omega)
      · rw [if_pos hin, if_neg hword]
        refine iff_of_false (fun h => hne (Option.some.inj h)) fun h => ?_
        exact hword (h j.toNat (Nat.le_refl _) hlt').2
    · rw [if_neg hin]
      refine iff_of_false (fun h => ?_) fun h => hin (h j.toNat (Nat.le_refl _) hlt').1
      cases h

/-- The inner loop reads the buffer only when the position leaves room for the pattern. -/
theorem loop_isSome (hi : i.toNat + s.pattern.length ≤ s.buf.length)
    (hj : j.toNat ≤ s.pattern.length) : ∃ j', s.loop i j = some j' := by
  induction hd : s.pattern.length - j.toNat generalizing j with
  | zero => exact ⟨j, s.loop_of_end (by omega)⟩
  | succ d ih =>
    have hlt := s.length_lt
    have hnext : (j + 1).toNat = j.toNat + 1 := toNat_add_one (by omega)
    rw [s.loop_of_lt (by omega) (by omega), if_pos (by omega)]
    split_ifs
    · exact ih (by omega) (by omega)
    · exact ⟨j, rfl⟩

theorem matchesAt_iff (i : ℕ) : s.MatchesAt i ↔ ∀ k < s.pattern.length,
    i + k < s.buf.length ∧ s.WordMatches i k := by
  have hpos := s.length_pos
  constructor
  · rintro ⟨hle, hwords⟩ k hk
    exact ⟨by omega, hwords k hk⟩
  · intro h
    have hlast := (h (s.pattern.length - 1) (by omega)).1
    exact ⟨by omega, fun k hk => (h k hk).2⟩

/-- The test behind the inner loop. -/
theorem loop_zero_eq_some_iff (hi : i.toNat ≤ s.buf.length) :
    s.loop i 0 = some (s.len / 4) ↔ s.MatchesAt i.toNat := by
  have hzero : (0 : UInt32).toNat = 0 := rfl
  rw [s.loop_eq_some_iff hi (by rw [hzero]; exact Nat.zero_le _), s.matchesAt_iff, hzero]
  simp only [Nat.zero_le, true_imp_iff]

/-! ### The outer loop -/

/-- The outer loop from a position on. -/
def search (i : UInt32) : Option (Option UInt32) :=
  searchLoop s.buf s.pattern s.mask (s.bufsize / 4) (s.len / 4) i

theorem result_eq : s.result = s.search 0 := rfl

/-- The number of positions, which wraps around. -/
theorem toNat_positions : (s.bufsize / 4 - s.len / 4).toNat =
    (2 ^ 32 - s.pattern.length + s.buf.length) % 2 ^ 32 := by
  rw [UInt32.toNat_sub, s.toNat_words, s.toNat_len]

theorem search_of_ge (h : (s.bufsize / 4 - s.len / 4).toNat ≤ i.toNat) :
    s.search i = some none := by
  rw [search, searchLoop, dif_neg]
  rw [UInt32.lt_iff_toNat_lt]
  exact Nat.not_lt.mpr h

theorem search_of_lt (h : i.toNat < (s.bufsize / 4 - s.len / 4).toNat) :
    s.search i = (s.loop i 0).bind fun j =>
      if j = s.len / 4 then some (some i) else s.search (i + 1) := by
  rw [search, searchLoop, dif_pos (UInt32.lt_iff_toNat_lt.mpr h)]
  rfl

/-- **A run of the loop** finds the first position from `i` on, up to the last but one. -/
theorem search_spec (hle : s.pattern.length ≤ s.buf.length)
    (hi : i.toNat ≤ s.buf.length - s.pattern.length) :
    (∃ k, s.search i = some (some k) ∧ i.toNat ≤ k.toNat ∧
        k.toNat < s.buf.length - s.pattern.length ∧ s.MatchesAt k.toNat ∧
        ∀ l, i.toNat ≤ l → l < k.toNat → ¬ s.MatchesAt l) ∨
      s.search i = some none ∧
        ∀ l, i.toNat ≤ l → l < s.buf.length - s.pattern.length → ¬ s.MatchesAt l := by
  have hlt := s.length_lt
  have hpositions : (s.bufsize / 4 - s.len / 4).toNat = s.buf.length - s.pattern.length := by
    rw [s.toNat_positions]
    omega
  induction hd : s.buf.length - s.pattern.length - i.toNat generalizing i with
  | zero =>
    refine Or.inr ⟨s.search_of_ge (by omega), fun l hl hl' => ?_⟩
    omega
  | succ d ih =>
    have hnext : (i + 1).toNat = i.toNat + 1 := toNat_add_one (by omega)
    have hzero : (0 : UInt32).toNat ≤ s.pattern.length := Nat.zero_le _
    obtain ⟨j, hj⟩ := s.loop_isSome (i := i) (by omega) hzero
    rw [s.search_of_lt (by omega), hj, Option.bind_some]
    by_cases hmatch : s.MatchesAt i.toNat
    · have hend : j = s.len / 4 := by
        rw [(s.loop_zero_eq_some_iff (by omega)).mpr hmatch] at hj
        exact (Option.some.inj hj).symm
      rw [if_pos hend]
      exact Or.inl ⟨i, rfl, Nat.le_refl _, by omega, hmatch, fun l hl hl' => by omega⟩
    · have hne : j ≠ s.len / 4 := by
        rintro rfl
        exact hmatch ((s.loop_zero_eq_some_iff (by omega)).mp hj)
      have hskip : ∀ {P : ℕ → Prop}, (∀ l, (i + 1).toNat ≤ l → P l → ¬ s.MatchesAt l) →
          ∀ l, i.toNat ≤ l → P l → ¬ s.MatchesAt l := by
        intro P h l hl hP
        rcases Nat.eq_or_lt_of_le hl with rfl | hl
        · exact hmatch
        · exact h l (by omega) hP
      rw [if_neg hne]
      rcases ih (i := i + 1) (by omega) (by omega) with
        ⟨k, hk, hik, hkn, hmk, hfirst⟩ | ⟨hnone, hno⟩
      · exact Or.inl ⟨k, hk, by omega, hkn, hmk, hskip hfirst⟩
      · exact Or.inr ⟨hnone, hskip hno⟩

/-- **A pattern that is longer than the buffer** leads behind the buffer. -/
theorem search_eq_none (hlt : s.buf.length < s.pattern.length) (hi : i.toNat ≤ s.buf.length) :
    s.search i = none := by
  have hsmall := s.length_lt
  have hpositions : (s.bufsize / 4 - s.len / 4).toNat =
      2 ^ 32 - s.pattern.length + s.buf.length := by
    rw [s.toNat_positions]
    omega
  have hno : s.loop i 0 ≠ some (s.len / 4) := by
    rw [Ne, s.loop_zero_eq_some_iff hi]
    exact fun h => absurd h.1 (by omega)
  have hzero : (0 : UInt32).toNat = 0 := rfl
  induction hd : s.buf.length - i.toNat generalizing i with
  | zero =>
    have hout : s.loop i 0 = none := by
      rw [s.loop_of_lt hi (by omega), if_neg (by omega)]
    rw [s.search_of_lt (by omega), hout, Option.bind_none]
  | succ d ih =>
    have hnext : (i + 1).toNat = i.toNat + 1 := toNat_add_one (by omega)
    rw [s.search_of_lt (by omega)]
    rcases hloop : s.loop i 0 with _ | j
    · rw [Option.bind_none]
    · have hne : j ≠ s.len / 4 := by
        rintro rfl
        exact hno hloop
      rw [Option.bind_some, if_neg hne]
      refine ih (by omega) ?_ (by omega)
      rw [Ne, s.loop_zero_eq_some_iff (by omega)]
      exact fun h => absurd h.1 (by omega)

/-! ### What it finds -/

theorem findsFirst_of_notAtEnd (h : s.NotAtEnd) : s.FindsFirst := by
  obtain ⟨hle, hlast⟩ := h
  have hzero : (0 : UInt32).toNat = 0 := rfl
  rw [FindsFirst, s.result_eq]
  rcases s.search_spec hle (i := 0) (Nat.zero_le _) with ⟨k, hk, -, -, hmk, hfirst⟩ | ⟨hnone, hno⟩
  · exact Or.inl ⟨k, hk, hmk, fun l hl => hfirst l (Nat.zero_le _) hl⟩
  · refine Or.inr ⟨hnone, fun k hk => ?_⟩
    have hin := hk.1
    rcases Nat.lt_or_ge k (s.buf.length - s.pattern.length) with hlt | hge
    · exact hno k (Nat.zero_le _) hlt hk
    · obtain rfl : k = s.buf.length - s.pattern.length := by omega
      obtain ⟨l, hl, hml⟩ := hlast hk
      exact hno l (Nat.zero_le _) hl hml

theorem not_findsFirst_of_not_notAtEnd (h : ¬ s.NotAtEnd) : ¬ s.FindsFirst := by
  rw [FindsFirst, s.result_eq]
  rcases Nat.lt_or_ge s.buf.length s.pattern.length with hlt | hle
  · rw [s.search_eq_none hlt (Nat.zero_le _)]
    rintro (⟨i, h, -⟩ | ⟨h, -⟩) <;> cases h
  · rw [NotAtEnd, not_and, Classical.not_imp] at h
    obtain ⟨hlast, honly⟩ := h hle
    rcases s.search_spec hle (i := 0) (Nat.zero_le _) with ⟨k, -, -, hkn, hmk, -⟩ | ⟨hnone, -⟩
    · exact absurd ⟨k.toNat, hkn, hmk⟩ honly
    · rw [hnone]
      rintro (⟨i, h, -⟩ | ⟨-, h⟩)
      · cases h
      · exact h _ hlast

/-- **The first position is found** if and only if the pattern fits in the buffer and does not stand
at its end only. -/
theorem findsFirst_iff : s.FindsFirst ↔ s.NotAtEnd :=
  ⟨fun h => by_contra fun hno => s.not_findsFirst_of_not_notAtEnd hno h, s.findsFirst_of_notAtEnd⟩

/-- An instruction that is all of the buffer. -/
def oneWord : Search where
  buf := [0x0c000000]
  bufsize := 4
  pattern := [0x0c000000]
  mask := [0xfc000000]
  len := 4
  bufsize_eq := rfl
  len_eq := rfl
  length_mask := rfl
  pattern_ne := List.cons_ne_nil _ _

/-- It is not found. -/
theorem not_findsFirst_oneWord : ¬ oneWord.FindsFirst := by
  refine oneWord.not_findsFirst_of_not_notAtEnd fun h => ?_
  obtain ⟨k, hk, -⟩ := h.2 ⟨Nat.le_refl 1, by decide⟩
  exact Nat.not_lt_zero k hk

end Search

end EeCore

end OpenPS2Loader
