import Mathlib.Data.List.Flatten
import OpenPS2Loader.Lib.BackReference
import OpenPS2Loader.Zso.Lz4
import OpenPS2Loader.Zso.Layout

/-!
# Blocks of LZ4

What a block of LZ4 says, and how it is written. A block is a list of sequences, each of them some
literals and a match, a copy of what the output has `offset` bytes before; and the last literals.

The steps of eight bytes in `LZ4_decompress_fast` take up to eight bytes behind the literals of a
sequence. They are bytes of the block: the offset, the next token, and the five literals the block
has to end with.

## Main definitions

* `Lz4.Block.expand` — what a block says
* `Lz4.Block.encode` — how it is written
* `Lz4.Block.Valid`

## Main results

* `Lz4.decompressFast_encode` — a valid block is expanded, whatever comes behind it
* `Lz4.codec_inverse` — the decoder is what the images ask for
-/

namespace OpenPS2Loader

namespace Lz4

open BackReference

/-! ### The format -/

/-- Literals, and a match behind them. -/
structure Sequence where
  literals : List UInt8
  offset : ℕ
  matchLength : ℕ

/-- Sequences, and the last literals. -/
structure Block where
  sequences : List Sequence
  last : List UInt8

/-- The part of a length that is in the token. -/
def nibble (length : ℕ) : ℕ := if length < 15 then length else 15

/-- The part of a length that is behind the token, or behind the offset. -/
def lengthRun (length : ℕ) : List UInt8 :=
  if length < 15 then []
  else List.replicate ((length - 15) / 255) 255 ++ [UInt8.ofNat ((length - 15) % 255)]

/-- A sequence, behind its token. -/
def Sequence.body (s : Sequence) : List UInt8 :=
  lengthRun s.literals.length ++ (s.literals ++
    (UInt8.ofNat (s.offset % 256) :: UInt8.ofNat (s.offset / 256) ::
      lengthRun (s.matchLength - 4)))

def Sequence.encode (s : Sequence) : List UInt8 :=
  UInt8.ofNat (16 * nibble s.literals.length + nibble (s.matchLength - 4)) :: s.body

def Block.encode (b : Block) : List UInt8 :=
  b.sequences.flatMap Sequence.encode ++
    UInt8.ofNat (16 * nibble b.last.length) :: (lengthRun b.last.length ++ b.last)

/-- The output behind a sequence. -/
def Sequence.expand (out : List UInt8) (s : Sequence) : List UInt8 :=
  extend (out ++ s.literals) s.offset s.matchLength

def Block.expand (b : Block) : List UInt8 := b.sequences.foldl Sequence.expand [] ++ b.last

/-- A match has four bytes at least, and copies from the output. -/
structure Sequence.Fits (out : List UInt8) (s : Sequence) : Prop where
  four_le : 4 ≤ s.matchLength
  pos : 0 < s.offset
  le : s.offset ≤ out.length + s.literals.length
  lt : s.offset < 2 ^ 16

/-- Every sequence fits the output before it. -/
def Fit (out : List UInt8) : List Sequence → Prop
  | [] => True
  | s :: l => s.Fits out ∧ Fit (s.expand out) l

/-- The last five bytes behind a match are literals. -/
def Block.Valid (b : Block) : Prop := Fit [] b.sequences ∧ (b.sequences = [] ∨ 5 ≤ b.last.length)

/-! ### Lengths -/

variable {size n : ℕ} {m m' : Mem} {out l ip rest : List UInt8} {offset : ℕ}

theorem nibble_lt (n : ℕ) : nibble n < 16 := by
  rw [nibble]
  split_ifs <;> omega

theorem addRun_eq (n : ℕ) (rest : List UInt8) (hn : 15 ≤ n) :
    addRun (lengthRun n ++ rest) 15 = .ok (n, rest) := by
  have hrun : ∀ k length, length + 255 * k + (n - 15) % 255 = n →
      addRun (List.replicate k 255 ++ [UInt8.ofNat ((n - 15) % 255)] ++ rest) length =
        .ok (n, rest) := by
    intro k
    induction k with
    | zero =>
      intro length hlength
      have hlt : (n - 15) % 255 < 255 := Nat.mod_lt _ (by decide)
      have hbyte : (UInt8.ofNat ((n - 15) % 255)).toNat = (n - 15) % 255 := by
        rw [UInt8.toNat_ofNat']
        omega
      have hne : UInt8.ofNat ((n - 15) % 255) ≠ 255 := by
        intro h
        have h255 := congrArg UInt8.toNat h
        rw [hbyte] at h255
        change (n - 15) % 255 = 255 at h255
        omega
      change addRun (UInt8.ofNat ((n - 15) % 255) :: rest) length = _
      rw [addRun, if_neg hne, hbyte]
      simp only [Except.ok.injEq, Prod.mk.injEq, and_true]
      omega
    | succ k ih =>
      intro length hlength
      change addRun (255 :: (List.replicate k 255 ++ [_] ++ rest)) length = _
      rw [addRun, if_pos rfl]
      exact ih _ (by omega)
  rw [lengthRun, if_neg (Nat.not_lt.mpr hn)]
  exact hrun _ _ (by omega)

/-- A length is read back. -/
theorem readLength_eq (n : ℕ) (rest : List UInt8) :
    readLength (nibble n) (lengthRun n ++ rest) = .ok (n, rest) := by
  by_cases hn : n < 15
  · rw [nibble, lengthRun, if_pos hn, if_pos hn, readLength, if_neg (by omega)]
    rfl
  · rw [nibble, if_neg hn, readLength, if_pos rfl]
    exact addRun_eq n rest (Nat.not_lt.mp hn)

theorem token_div {a b : ℕ} (ha : a < 16) (hb : b < 16) :
    (UInt8.ofNat (16 * a + b)).toNat / 16 = a := by
  rw [UInt8.toNat_ofNat']
  omega

theorem token_mod (a : ℕ) {b : ℕ} (hb : b < 16) :
    (UInt8.ofNat (16 * a + b)).toNat % 16 = b := by
  rw [UInt8.toNat_ofNat']
  omega

/-! ### Matches -/

/-- The memory starts with the output. -/
def Holds (m : Mem) (out : List UInt8) : Prop := ∀ i < out.length, out[i]? = some (m i)

/-- The output, and the end of it again and again. -/
def pattern (out : List UInt8) (offset : ℕ) : Mem := fun p =>
  ((extend out offset (p.toNat + 1))[p.toNat]?).getD 0

theorem repeats_pattern (hpos : 0 < offset) (hout : offset ≤ out.length) :
    Repeats (pattern out offset) out.length offset := by
  intro p hp
  obtain ⟨i, rfl⟩ := Int.eq_ofNat_of_zero_le (show 0 ≤ p by omega)
  have hi : out.length ≤ i := by omega
  have hsub : ((i : ℤ) - offset).toNat = i - offset := by omega
  rw [pattern, pattern, hsub, Int.toNat_natCast,
    getElem?_extend_of_le hpos hout hi (by omega)]
  congr 1
  exact getElem?_extend_congr _ hpos hout (by omega) (by omega)

theorem agree_pattern (hpos : 0 < offset) (hout : offset ≤ out.length) (n : ℕ) :
    Agree m (pattern out offset) 0 (out.length + n) ↔ Holds m (extend out offset n) := by
  have hlen := length_extend hpos hout n
  have hget : ∀ i < out.length + n,
      (extend out offset n)[i]? = some (pattern out offset i) := by
    intro i hi
    have hlt : i < (extend out offset (i + 1)).length := by
      rw [length_extend hpos hout]
      omega
    rw [pattern, Int.toNat_natCast, getElem?_extend_congr (i + 1) hpos hout hi (by omega),
      List.getElem?_eq_getElem hlt]
    rfl
  refine ⟨fun h i hi => ?_, fun h p hp hp' => ?_⟩
  · rw [hlen] at hi
    rw [hget i hi, h i (by omega) (by omega)]
  · obtain ⟨i, rfl⟩ := Int.eq_ofNat_of_zero_le hp
    have hi := h i (by omega)
    rw [hget i (by omega)] at hi
    exact (Option.some.inj hi).symm

/-- The rest of a match goes on with the pattern. -/
theorem matchTurn_eq {s : State} {length : ℕ} (hip : s.ip = UInt8.ofNat (offset % 256) ::
      UInt8.ofNat (offset / 256) :: (lengthRun (length - 4) ++ rest))
    (hop : s.op = out.length) (hm : Holds s.mem out) (hlength : 4 ≤ length) (hpos : 0 < offset)
    (hout : offset ≤ out.length) (hlt : offset < 2 ^ 16) (hsize : out.length + length + 5 ≤ size) :
    ∃ m', matchTurn size (nibble (length - 4)) s =
        .ok (.more ⟨rest, (out.length + length : ℕ), m'⟩) ∧
      Holds m' (extend out offset length) := by
  have hload : load s.ip 2 = .ok [UInt8.ofNat (offset % 256), UInt8.ofNat (offset / 256)] := by
    rw [hip]
    exact load_of_le (Nat.le_add_left 2 _)
  have hoffset : (UInt8.ofNat (offset % 256)).toNat + 256 * (UInt8.ofNat (offset / 256)).toNat =
      offset := by
    rw [UInt8.toNat_ofNat', UInt8.toNat_ofNat']
    omega
  have hread : readLength (nibble (length - 4)) (s.ip.drop 2) = .ok (length - 4, rest) := by
    rw [hip]
    exact readLength_eq _ rest
  obtain ⟨m₁, distance, hstart, -, hstarted⟩ :=
    startMatch_spec size s.mem offset (show 0 ≤ s.op by omega) (by omega)
  obtain ⟨hfour, hpattern⟩ := hstarted hpos
  have hstart' : Agree s.mem (pattern out offset) 0 s.op := by
    have hagree := (agree_pattern (m := s.mem) hpos hout 0).mpr hm
    rwa [Int.natCast_zero, Int.add_zero, ← hop] at hagree
  have hrepeats := repeats_pattern hpos hout
  rw [← hop] at hrepeats
  obtain ⟨hagree, hlo, hrepeats'⟩ := hpattern _ 0 hrepeats (by omega) hstart'
  obtain ⟨r, hfinish, -, hsome⟩ := finishMatch_safe size m₁ distance
    (show 0 ≤ s.op + 4 by omega) (by omega)
    (show s.op + 4 ≤ s.op + 4 + (length - 4 : ℕ) by omega)
  obtain ⟨m₂, n, rfl, ⟨_, hr, -, hextends⟩, hcpy, -⟩ := hsome (by omega)
  cases hr
  have hend : s.op + 4 + (length - 4 : ℕ) = (out.length + length : ℕ) := by omega
  rw [hend] at hfinish
  refine ⟨m₂, ?_, ?_⟩
  · rw [matchTurn, hload]
    simp only [bind, Except.bind, hread, List.getD_cons_zero, List.getD_cons_succ, hoffset, hstart,
      hend, hfinish]
  · rw [← agree_pattern hpos hout]
    intro p hp hp'
    exact hextends hfour _ 0 hagree hlo (fun q hq _ => hrepeats' q hq) p hp (by omega)

/-! ### Turns -/

/-- Literals, and bytes behind them that will be written again. -/
theorem holds_put (hm : Holds m out) (l rest : List UInt8) (hn : l.length ≤ n) :
    Holds (put m out.length ((l ++ rest).take n)) (out ++ l) := by
  intro i hi
  rw [List.length_append] at hi
  by_cases hlt : i < out.length
  · rw [List.getElem?_append_left hlt, hm i hlt, frame_put _ _ _ i (.inl (by omega))]
  · have hle : l.length ≤ ((l ++ rest).take n).length := by
      rw [List.length_take, List.length_append]
      omega
    have hsub : ((i : ℤ) - out.length).toNat = i - out.length := by omega
    have hget : (l ++ rest)[i - out.length]? = some (l[i - out.length]) := by
      rw [List.getElem?_append_left (by omega), List.getElem?_eq_getElem (by omega)]
    rw [List.getElem?_append_right (by omega), put_apply (by omega) (by omega), hsub,
      List.getD_eq_getElem?_getD, List.getElem?_take_of_lt (by omega), hget,
      List.getElem?_eq_getElem (by omega)]
    rfl

theorem turn_sequence (size : ℕ) (rest : List UInt8) {s : Sequence} (hfits : s.Fits out)
    (hm : Holds m out) (hrest : 6 ≤ rest.length) (hsize : (s.expand out).length + 5 ≤ size) :
    ∃ m', turn size ⟨s.encode ++ rest, out.length, m⟩ =
        .ok (.more ⟨rest, (s.expand out).length, m'⟩) ∧ Holds m' (s.expand out) := by
  have hle : s.offset ≤ (out ++ s.literals).length := by
    rw [List.length_append]
    exact hfits.le
  have hfour := hfits.four_le
  rw [Sequence.expand, length_extend hfits.pos hle] at hsize ⊢
  have hlen : (out ++ s.literals).length = out.length + s.literals.length := List.length_append
  have hfirst : s.body ++ rest = lengthRun s.literals.length ++ (s.literals ++
      (UInt8.ofNat (s.offset % 256) :: UInt8.ofNat (s.offset / 256) ::
        (lengthRun (s.matchLength - 4) ++ rest))) := by
    simp [Sequence.body]
  generalize htail : (UInt8.ofNat (s.offset % 256) :: UInt8.ofNat (s.offset / 256) ::
    (lengthRun (s.matchLength - 4) ++ rest)) = tail at hfirst
  have htail' : 8 ≤ tail.length := by
    rw [← htail]
    simp only [List.length_cons, List.length_append]
    omega
  have hrounds := le_rounds s.literals.length
  have hrounds' := rounds_le s.literals.length
  -- the offset is where the literals end
  obtain ⟨m', hturn, hm'⟩ := matchTurn_eq
    (s := ⟨tail, (out ++ s.literals).length,
      put m out.length ((s.literals ++ tail).take (8 * rounds s.literals.length))⟩)
    htail.symm rfl (holds_put hm s.literals tail hrounds) hfour hfits.pos hle hfits.lt hsize
  refine ⟨m', ?_, hm'⟩
  have hliterals : literalRounds size (rounds s.literals.length) m out.length (s.literals ++ tail) =
      .ok (put m out.length ((s.literals ++ tail).take (8 * rounds s.literals.length))) :=
    literalRounds_eq (by omega) (by omega) (by rw [List.length_append]; omega)
  have hcpy : (out.length : ℤ) + s.literals.length = (out ++ s.literals).length := by
    rw [hlen]
    omega
  change turn size ⟨UInt8.ofNat _ :: (s.body ++ rest), _, _⟩ = _
  rw [hfirst, turn]
  simp only [bind, Except.bind, token_div (nibble_lt _) (nibble_lt _), token_mod _ (nibble_lt _),
    readLength_eq, hcpy]
  rw [if_neg (by omega), hliterals]
  simp only [List.drop_left]
  exact hturn

/-- The last turn. -/
theorem turn_last {last : List UInt8} (hm : Holds m out) (t : List UInt8)
    (hsize : out.length + last.length = size) :
    ∃ m', turn size ⟨UInt8.ofNat (16 * nibble last.length) :: (lengthRun last.length ++ last ++ t),
        out.length, m⟩ = .ok (.eof ⟨t, size, m'⟩) ∧ Holds m' (out ++ last) := by
  have hput := holds_put hm last t (Nat.le_refl _)
  rw [List.take_left' rfl] at hput
  refine ⟨_, ?_, hput⟩
  have hload : load (last ++ t) last.length = .ok last := by
    rw [load_of_le (by rw [List.length_append]; omega), List.take_left' rfl]
  have hstore : store size m out.length last = .ok (put m out.length last) :=
    store_eq (by omega) (by omega)
  have htoken := token_div (b := 0) (nibble_lt last.length) (by decide)
  rw [Nat.add_zero] at htoken
  rw [List.append_assoc, turn]
  simp only [bind, Except.bind, htoken, readLength_eq, hload, hstore, List.drop_left]
  rw [if_pos (by omega), if_neg (by omega)]
  have hend : (out.length : ℤ) + last.length = size := by omega
  rw [hend]

/-! ### Blocks -/

theorem length_expand {s : Sequence} (hfits : s.Fits out) :
    (s.expand out).length = out.length + s.literals.length + s.matchLength := by
  have hle : s.offset ≤ (out ++ s.literals).length := by
    rw [List.length_append]
    exact hfits.le
  rw [Sequence.expand, length_extend hfits.pos hle, List.length_append]

theorem le_length_foldl_expand {seqs : List Sequence} (h : Fit out seqs) :
    out.length ≤ (seqs.foldl Sequence.expand out).length := by
  induction seqs generalizing out with
  | nil => exact Nat.le_refl _
  | cons s seqs ih =>
    have hlen := length_expand h.1
    have hrest := ih h.2
    rw [List.foldl_cons]
    omega

theorem mainLoop_encode {seqs : List Sequence} {last : List UInt8} (t : List UInt8) (total : ℕ)
    {turns : ℕ} (hturns : seqs.length < turns) (hfit : Fit out seqs)
    (hlast : seqs = [] ∨ 5 ≤ last.length) (hm : Holds m out)
    (hsize : (seqs.foldl Sequence.expand out).length + last.length = size) :
    ∃ m', mainLoop size total turns ⟨seqs.flatMap Sequence.encode ++
        UInt8.ofNat (16 * nibble last.length) :: (lengthRun last.length ++ last ++ t),
          out.length, m⟩ = .ok ((total - t.length : ℕ), m') ∧
      Holds m' (seqs.foldl Sequence.expand out ++ last) := by
  induction seqs generalizing out m turns with
  | nil =>
    obtain ⟨turns, rfl⟩ := Nat.exists_eq_succ_of_ne_zero (Nat.ne_of_gt hturns)
    obtain ⟨m', hturn, hm'⟩ := turn_last hm t hsize
    refine ⟨m', ?_, hm'⟩
    rw [List.flatMap_nil, List.nil_append, mainLoop, hturn]
    rfl
  | cons s seqs ih =>
    obtain ⟨turns, rfl⟩ := Nat.exists_eq_succ_of_ne_zero (Nat.ne_of_gt (Nat.zero_lt_of_lt hturns))
    have hfive : 5 ≤ last.length := hlast.resolve_left (List.cons_ne_nil s seqs)
    have hle := le_length_foldl_expand hfit.2
    rw [List.foldl_cons] at hsize ⊢
    obtain ⟨m₁, hturn, hm₁⟩ := turn_sequence size (seqs.flatMap Sequence.encode ++
      UInt8.ofNat (16 * nibble last.length) :: (lengthRun last.length ++ last ++ t)) hfit.1 hm
      (by simp only [List.length_append, List.length_cons]; omega) (by omega)
    obtain ⟨m', hrun, hm'⟩ := ih (Nat.lt_of_succ_lt_succ hturns) hfit.2 (.inr hfive) hm₁
      hsize
    refine ⟨m', ?_, hm'⟩
    rw [List.flatMap_cons, List.append_assoc, mainLoop, hturn]
    exact hrun

theorem length_le_length_encode (seqs : List Sequence) :
    seqs.length ≤ (seqs.flatMap Sequence.encode).length := by
  induction seqs with
  | nil => exact Nat.le_refl _
  | cons s seqs ih =>
    rw [List.flatMap_cons, List.length_append, List.length_cons, Sequence.encode, List.length_cons]
    omega

theorem peek_eq_of_holds (h : Holds m out) : peek m 0 out.length = out := by
  refine List.ext_getElem? fun i => ?_
  by_cases hi : i < out.length
  · rw [h i hi, peek, List.getElem?_map, List.getElem?_range hi]
    simp
  · rw [List.getElem?_eq_none (Nat.le_of_not_lt hi),
      List.getElem?_eq_none (by rw [length_peek]; exact Nat.le_of_not_lt hi)]

/-- **The decoder is right.** A valid block is expanded into the output buffer, and what is returned
is the length of the block, whatever there was in the buffer and whatever comes behind the block. -/
theorem decompressFast_encode {b : Block} (h : b.Valid) (t : List UInt8) (m : Mem) :
    ∃ m', decompressFast (b.encode ++ t) b.expand.length m = .ok (b.encode.length, m') ∧
      peek m' 0 b.expand.length = b.expand := by
  obtain ⟨seqs, last⟩ := b
  obtain ⟨hfit, hlast⟩ := h
  have hlen : (Block.expand ⟨seqs, last⟩).length =
      (seqs.foldl Sequence.expand []).length + last.length := List.length_append
  rw [decompressFast]
  split_ifs with hsize
  · -- nothing but a token of `0`
    have hempty : last = [] := List.length_eq_zero_iff.mp (by omega)
    subst hempty
    have hnil : seqs = [] := hlast.resolve_right (Nat.not_succ_le_zero 4)
    subst hnil
    exact ⟨m, rfl, rfl⟩
  · have hturns := length_le_length_encode seqs
    have hencode : Block.encode ⟨seqs, last⟩ ++ t = seqs.flatMap Sequence.encode ++
        UInt8.ofNat (16 * nibble last.length) :: (lengthRun last.length ++ last ++ t) := by
      simp [Block.encode]
    have hlt : seqs.length < (Block.encode ⟨seqs, last⟩ ++ t).length + 1 := by
      rw [hencode, List.length_append]
      omega
    obtain ⟨m', hrun, hm'⟩ := mainLoop_encode t (Block.encode ⟨seqs, last⟩ ++ t).length
      hlt hfit hlast (m := m) (fun i hi => absurd hi (Nat.not_lt_zero i)) hlen.symm
    rw [← hencode] at hrun
    refine ⟨m', ?_, peek_eq_of_holds hm'⟩
    rw [List.length_append, Nat.add_sub_cancel] at hrun
    rw [List.length_append]
    exact hrun

/-- Two literals, one byte again and again, and five literals. -/
theorem decompressFast_encode_overlapping : ∃ m',
    decompressFast ([0x25, 1, 2, 1, 0, 0x50, 3, 4, 5, 6, 7] ++ [8, 9]) 16 (fun _ => 0) =
        .ok (11, m') ∧
      peek m' 0 16 = [1, 2, 2, 2, 2, 2, 2, 2, 2, 2, 2, 3, 4, 5, 6, 7] :=
  decompressFast_encode (b := ⟨[⟨[1, 2], 1, 9⟩], [3, 4, 5, 6, 7]⟩)
    ⟨⟨⟨by decide, by decide, by decide, by decide⟩, trivial⟩, .inr (by decide)⟩ [8, 9] fun _ => 0

/-! ### Images of LZ4 blocks -/

/-- A buffer of 2048 bytes with `m` in it, after `LZ4_decompress_fast`. -/
def decompressBlock (m : Mem) (source : List UInt8) : List UInt8 :=
  match decompressFast source 2048 m with
  | .ok (_, m') => peek m' 0 2048
  | .error _ => []

/-- A packer that writes blocks of LZ4, and the decoder. -/
def codec (pack : List UInt8 → Block) (m : Mem) : Zso.Codec where
  compress b := (pack b).encode
  decompressFast := decompressBlock m

/-- The packer writes valid blocks that say what it is given. -/
def Packs (pack : List UInt8 → Block) : Prop :=
  ∀ b, b.length = 2048 → (pack b).Valid ∧ (pack b).expand = b

theorem codec_inverse {pack : List UInt8 → Block} (hpack : Packs pack) (m : Mem) :
    (codec pack m).Inverse := by
  intro b t hb
  obtain ⟨hvalid, hexpand⟩ := hpack b hb
  obtain ⟨m', hrun, hout⟩ := decompressFast_encode hvalid t m
  rw [hexpand, hb] at hrun hout
  change decompressBlock m ((pack b).encode ++ t) = b
  rw [decompressBlock, hrun]
  exact hout

/-- A packer that knows blocks of one byte only. -/
def packRun : List UInt8 → Block
  | [] => ⟨[], []⟩
  | x :: b => if b = List.replicate 2047 x then ⟨[⟨[x], 1, 2042⟩], List.replicate 5 x⟩
    else ⟨[], x :: b⟩

theorem extend_replicate (x : UInt8) (k n : ℕ) :
    extend (List.replicate (k + 1) x) 1 n = List.replicate (k + 1 + n) x := by
  induction n with
  | zero => rfl
  | succ n ih =>
    rw [extend, ih, List.length_replicate, List.getElem?_replicate, if_pos (by omega),
      ← Nat.add_assoc, List.replicate_succ']
    rfl

theorem expand_run (x : UInt8) (n : ℕ) (last : List UInt8) :
    Block.expand ⟨[⟨[x], 1, n⟩], last⟩ = List.replicate (n + 1) x ++ last := by
  have h := extend_replicate x 0 n
  rw [Nat.zero_add, Nat.add_comm] at h
  rw [← h]
  rfl

theorem packs_packRun : Packs packRun := by
  intro b hb
  obtain - | ⟨x, b⟩ := b
  · exact absurd hb (by decide)
  rw [packRun]
  split_ifs with hrun
  · refine ⟨⟨⟨⟨show 4 ≤ 2042 by decide, Nat.one_pos, Nat.le_refl 1, show 1 < 2 ^ 16 by decide⟩,
      trivial⟩, .inr (List.length_replicate.symm.le)⟩, ?_⟩
    rw [expand_run, List.replicate_append_replicate, hrun]
    exact List.replicate_succ
  · exact ⟨⟨trivial, .inl rfl⟩, rfl⟩

end Lz4

end OpenPS2Loader
