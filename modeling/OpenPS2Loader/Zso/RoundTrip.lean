import Mathlib.Data.Nat.Bitwise
import OpenPS2Loader.Zso.Writer

/-!
# Images that `ziso.py` packs

The image that `ziso.py` makes of an ISO is laid out as `zso.c` expects, up to its last block: the
last index entry is the end of the file shifted by the alignment, and when the last block is stored
compressed and its length is not a multiple of the alignment, its place is cut short. This takes an
ISO of 2 GiB or more. From 24 GiB on, the alignment is too large for `read_raw_data`.

## Main definitions

* `LastWhole` — the last block is not cut short

## Main results

* `layout_compressZso` — the packed image is laid out as the reader expects
* `exists_compressZso_of_lt` — the packer succeeds
-/

namespace OpenPS2Loader

namespace Zso

open Bytes

variable {σ : Type} {z : Codec} {threshold n : ℕ} {pad : UInt8} {iso file : List UInt8}
  {raw : RawRead σ} {Good : σ → Prop}

/-! ### The file in parts -/

/-- The parts of a packed image. -/
structure Packed (z : Codec) (threshold : ℕ) (pad : UInt8) (iso : List UInt8) where
  header : List UInt8
  w : Writer
  write : writeIso z threshold pad iso = some w
  header_eq : generateZsoHeader iso.length (alignOf iso) = some header
  index_lt : ∀ i ∈ w.index ++ [w.pos >>> alignOf iso], i < 2 ^ 32

/-- What is in front of the blocks. -/
def Packed.front (P : Packed z threshold pad iso) : List UInt8 :=
  P.header ++ (P.w.index ++ [P.w.pos >>> alignOf iso]).flatMap (toLe 4)

/-- The file. -/
def Packed.image (P : Packed z threshold pad iso) : List UInt8 := P.front ++ P.w.out

theorem exists_packed (h : compressZso z threshold pad iso = some file) :
    ∃ P : Packed z threshold pad iso, file = P.image := by
  obtain ⟨header, hheader, h⟩ := Option.bind_eq_some_iff.mp h
  obtain ⟨w, hw, h⟩ := Option.bind_eq_some_iff.mp h
  obtain ⟨index, hindex, rfl⟩ := Option.map_eq_some_iff.mp h
  rw [packIndex] at hindex
  split_ifs at hindex with hlt
  cases hindex
  exact ⟨⟨header, w, hw, hheader, hlt⟩, rfl⟩

theorem length_generateZsoHeader {total align : ℕ} {header : List UInt8}
    (h : generateZsoHeader total align = some header) : header.length = headerSize := by
  rw [generateZsoHeader] at h
  split_ifs at h
  cases h
  simp only [List.length_append, length_toLe, List.length_cons, List.length_nil, headerSize]

theorem length_flatMap_toLe (k : ℕ) (l : List ℕ) : (l.flatMap (toLe k)).length = k * l.length := by
  induction l with
  | nil => rfl
  | cons i l ih => rw [List.flatMap_cons, List.length_append, length_toLe, ih, List.length_cons,
      Nat.mul_succ, Nat.add_comm]

/-- An entry of a packed index. -/
theorem entryAt_flatMap_toLe {l : List ℕ} (hl : ∀ i ∈ l, i < 2 ^ 32) (t : List UInt8) {k i : ℕ}
    (hk : l[k]? = some i) : Reader.entryAt (l.flatMap (toLe 4) ++ t) k = i := by
  induction l generalizing k with
  | nil => cases hk
  | cons j l ih =>
    rw [List.flatMap_cons, List.append_assoc]
    cases k with
    | zero =>
      cases hk
      rw [Reader.entryAt, Nat.mul_zero, List.drop_zero, List.take_left' (length_toLe 4 _)]
      exact ofLe_toLe (hl _ List.mem_cons_self)
    | succ k =>
      have hdrop : 4 * (k + 1) = (toLe 4 j).length + 4 * k := by
        rw [length_toLe]
        omega
      rw [Reader.entryAt, hdrop, List.drop_length_add_append]
      exact ih (fun i hi => hl i (List.mem_cons_of_mem j hi)) hk

/-- The blocks of the image. -/
def isoBlocks (iso : List UInt8) : List (List UInt8) :=
  (List.range (iso.length / 2048)).map (isoBlock iso)

theorem getElem?_isoBlocks {b : ℕ} (hb : b < iso.length / 2048) :
    (isoBlocks iso)[b]? = some (isoBlock iso b) := by
  rw [isoBlocks, List.getElem?_map, List.getElem?_range hb]
  rfl

theorem length_isoBlocks (iso : List UInt8) : (isoBlocks iso).length = iso.length / 2048 := by
  rw [isoBlocks, List.length_map, List.length_range]

theorem length_isoBlock {b : ℕ} (hb : b < iso.length / 2048) : (isoBlock iso b).length = 2048 := by
  rw [isoBlock, List.length_take, List.length_drop]
  omega

namespace Packed

variable (P : Packed z threshold pad iso)

theorem length_index : P.w.index.length = iso.length / 2048 := by
  obtain ⟨-, -, y, hy, hlen⟩ := writeBlocks_eq_some P.write
  rw [hy, List.nil_append, hlen, ← isoBlocks, length_isoBlocks]

theorem length_front : P.front.length = dataStart iso := by
  rw [front, List.length_append, length_generateZsoHeader P.header_eq, length_flatMap_toLe,
    List.length_append, P.length_index, List.length_singleton, dataStart, headerSize]

theorem pos_eq : P.w.pos =
    endPos z threshold (alignOf iso) (dataStart iso) (isoBlocks iso) :=
  (writeBlocks_eq_some P.write).1

/-- The file ends at the last `write_pos`. -/
theorem length_image : P.image.length = P.w.pos := by
  obtain ⟨hpos, ⟨x, hx, hlen⟩, -⟩ := writeBlocks_eq_some P.write
  have hle : dataStart iso ≤ P.w.pos := by
    rw [hpos]
    exact le_endPos _ _
  rw [image, List.length_append, P.length_front, hx, List.nil_append, hlen]
  dsimp only
  omega

/-- The place of a block, and of what follows the blocks. -/
def pos (z : Codec) (threshold : ℕ) (iso : List UInt8) (b : ℕ) : ℕ :=
  if b < iso.length / 2048 then
    alignUp (alignOf iso) (endPos z threshold (alignOf iso) (dataStart iso)
      ((isoBlocks iso).take b))
  else
    endPos z threshold (alignOf iso) (dataStart iso) (isoBlocks iso) / 2 ^ alignOf iso *
      2 ^ alignOf iso

theorem fileEntry_of_getElem? {b i : ℕ}
    (h : (P.w.index ++ [P.w.pos >>> alignOf iso])[b]? = some i) :
    fileEntry P.image b = i := by
  rw [fileEntry, image, front, List.append_assoc,
    List.drop_left' (length_generateZsoHeader P.header_eq)]
  exact entryAt_flatMap_toLe P.index_lt P.w.out h

theorem fileEntry_eq {b : ℕ} (hb : b < iso.length / 2048) :
    fileEntry P.image b = entryOf z threshold (alignOf iso) (isoBlock iso b)
      (pos z threshold iso b) := by
  obtain ⟨hentry, -⟩ := writeBlocks_getElem P.write (getElem?_isoBlocks hb)
  rw [List.length_nil, Nat.zero_add, ← isoBlocks] at hentry
  refine P.fileEntry_of_getElem? ?_
  rw [List.getElem?_append_left (by rwa [P.length_index]), hentry, pos, if_pos hb]

theorem fileEntry_last : fileEntry P.image (iso.length / 2048) = P.w.pos >>> alignOf iso := by
  refine P.fileEntry_of_getElem? ?_
  rw [← P.length_index, List.getElem?_concat_length]

/-- The place of a block starts with what is stored for it. -/
theorem drop_pos {b : ℕ} (hb : b < iso.length / 2048) :
    ∃ t, P.image.drop (pos z threshold iso b) = stored z threshold (isoBlock iso b) ++ t := by
  obtain ⟨-, x, y, hout, hx⟩ := writeBlocks_getElem P.write (getElem?_isoBlocks hb)
  rw [← isoBlocks] at hx
  dsimp only [List.length_nil] at hx
  refine ⟨y, ?_⟩
  have hpos : pos z threshold iso b = P.front.length + x.length := by
    rw [P.length_front, pos, if_pos hb]
    omega
  rw [hpos, image, List.drop_length_add_append, hout, List.append_assoc, List.drop_left]

/-! ### The layout -/

variable {P}

/-- The position after a block is that of the next one, aligned up, or the end of the blocks, cut
off to the alignment. -/
theorem endPos_take_succ {b : ℕ} (hb : b < iso.length / 2048) :
    endPos z threshold (alignOf iso) (dataStart iso) ((isoBlocks iso).take (b + 1)) =
      pos z threshold iso b + (stored z threshold (isoBlock iso b)).length := by
  rw [List.take_add_one, getElem?_isoBlocks hb, endPos_append, pos, if_pos hb]
  rfl

theorem pos_succ_of_lt {b : ℕ} (hb : b + 1 < iso.length / 2048) :
    pos z threshold iso (b + 1) = alignUp (alignOf iso)
      (pos z threshold iso b + (stored z threshold (isoBlock iso b)).length) := by
  rw [← endPos_take_succ (by omega), pos, if_pos hb]

theorem pos_succ_last {b : ℕ} (hb : b + 1 = iso.length / 2048) :
    pos z threshold iso (b + 1) =
      (pos z threshold iso b + (stored z threshold (isoBlock iso b)).length) / 2 ^ alignOf iso *
        2 ^ alignOf iso := by
  rw [← endPos_take_succ (by omega), pos, if_neg (by omega),
    List.take_of_length_le (by rw [length_isoBlocks]; omega)]

theorem dvd_pos (b : ℕ) : 2 ^ alignOf iso ∣ pos z threshold iso b := by
  rw [pos]
  split_ifs
  · exact dvd_alignUp _ _
  · exact Nat.dvd_mul_left _ _

theorem length_stored_le (hthreshold : threshold ≤ 100) {b : ℕ} (hb : b < iso.length / 2048) :
    (stored z threshold (isoBlock iso b)).length ≤ 2048 := by
  have hlen := length_isoBlock hb
  rw [stored]
  split_ifs with h
  · exact Nat.le_of_eq hlen
  · rw [isPlain, decide_eq_true_eq, hlen, Nat.not_le] at h
    omega

theorem pos_le_pos_succ {b : ℕ} (hb : b < iso.length / 2048) :
    pos z threshold iso b ≤ pos z threshold iso (b + 1) := by
  by_cases h : b + 1 < iso.length / 2048
  · rw [pos_succ_of_lt h]
    exact Nat.le_trans (Nat.le_add_right _ _) (le_alignUp _ _)
  · rw [pos_succ_last (by omega)]
    have hdvd : 2 ^ alignOf iso ∣ pos z threshold iso b := dvd_pos b
    obtain ⟨k, hk⟩ := hdvd
    rw [hk, Nat.mul_comm _ k]
    refine Nat.mul_le_mul_right _ ?_
    rw [Nat.le_div_iff_mul_le (Nat.two_pow_pos _)]
    exact Nat.le_add_right _ _

theorem pos_succ_le (hthreshold : threshold ≤ 100) (halign : alignOf iso ≤ 11) {b : ℕ}
    (hb : b < iso.length / 2048) : pos z threshold iso (b + 1) ≤ pos z threshold iso b + 2048 := by
  have hlen := length_stored_le (z := z) hthreshold hb
  by_cases h : b + 1 < iso.length / 2048
  · rw [pos_succ_of_lt h]
    refine alignUp_le (Nat.dvd_add (dvd_pos b) ?_) (by omega)
    exact Nat.pow_dvd_pow 2 halign
  · rw [pos_succ_last (by omega)]
    exact Nat.le_trans (Nat.div_mul_le_self _ _) (by omega)

theorem pos_last_le : pos z threshold iso (iso.length / 2048) ≤
    endPos z threshold (alignOf iso) (dataStart iso) (isoBlocks iso) := by
  rw [pos, if_neg (Nat.lt_irrefl _)]
  exact Nat.div_mul_le_self _ _

theorem pos_le_last {b : ℕ} (hb : b ≤ iso.length / 2048) :
    pos z threshold iso b ≤ pos z threshold iso (iso.length / 2048) := by
  obtain ⟨k, hk⟩ := Nat.exists_eq_add_of_le hb
  induction k generalizing b with
  | zero =>
    rw [hk]
    exact Nat.le_refl _
  | succ k ih => exact Nat.le_trans (pos_le_pos_succ (by omega)) (ih (by omega) (by omega))

/-- A block that fills its place up to the alignment is followed at once by the next one. -/
theorem pos_succ_of_dvd {b : ℕ} (hb : b < iso.length / 2048)
    (h : 2 ^ alignOf iso ∣ (stored z threshold (isoBlock iso b)).length) :
    pos z threshold iso (b + 1) =
      pos z threshold iso b + (stored z threshold (isoBlock iso b)).length := by
  have hpos : 2 ^ alignOf iso ∣ pos z threshold iso b := dvd_pos b
  have hdvd := Nat.dvd_add hpos h
  by_cases hlt : b + 1 < iso.length / 2048
  · rw [pos_succ_of_lt hlt, alignUp, if_neg]
    exact not_not.mpr (Nat.mod_eq_zero_of_dvd hdvd)
  · rw [pos_succ_last (by omega), Nat.div_mul_cancel hdvd]

end Packed

/-- The last block is stored as it is, or fills its place up to the alignment. -/
def LastWhole (z : Codec) (threshold : ℕ) (iso : List UInt8) : Prop :=
  2 ^ alignOf iso ∣ (stored z threshold (isoBlock iso (iso.length / 2048 - 1))).length

theorem Packed.length_le_place (hw : LastWhole z threshold iso ∨ n + 1 < iso.length / 2048)
    (hn : n < iso.length / 2048) : (stored z threshold (isoBlock iso n)).length ≤
      Packed.pos z threshold iso (n + 1) - Packed.pos z threshold iso n := by
  by_cases hlt : n + 1 < iso.length / 2048
  · have hle := le_alignUp (alignOf iso)
      (Packed.pos z threshold iso n + (stored z threshold (isoBlock iso n)).length)
    rw [Packed.pos_succ_of_lt hlt]
    omega
  · have hlast : iso.length / 2048 - 1 = n := by omega
    have hdvd := hw.resolve_right hlt
    rw [LastWhole, hlast] at hdvd
    rw [Packed.pos_succ_of_dvd hn hdvd]
    omega

/-- An entry has the position in its lower bits, and the plain mark in the top bit. -/
theorem entryOf_spec {align p : ℕ} {block : List UInt8} (hp : p / 2 ^ align < 2 ^ 31) :
    entryOf z threshold align block p % 2 ^ 31 = p / 2 ^ align ∧
      (2 ^ 31 ≤ entryOf z threshold align block p ↔ isPlain z threshold block = true) := by
  rw [entryOf, Nat.shiftRight_eq_div_pow]
  split_ifs with h
  · have hor := Nat.two_pow_add_eq_or_of_lt hp 1
    rw [Nat.mul_one] at hor
    rw [Nat.or_comm, ← hor, Nat.add_mod_left, Nat.mod_eq_of_lt hp]
    exact ⟨rfl, fun _ => h, fun _ => Nat.le_add_right _ _⟩
  · exact ⟨Nat.mod_eq_of_lt hp, fun hle => absurd hp (Nat.not_lt.mpr hle), fun ht => absurd ht h⟩

namespace Packed

variable (P : Packed z threshold pad iso)

theorem pos_le_length {b : ℕ} (hb : b ≤ iso.length / 2048) :
    pos z threshold iso b ≤ P.image.length := by
  rw [P.length_image, P.pos_eq]
  exact Nat.le_trans (pos_le_last hb) pos_last_le

theorem pos_div_lt (hfits : P.image.length >>> alignOf iso < 2 ^ 31) {b : ℕ}
    (hb : b ≤ iso.length / 2048) : pos z threshold iso b / 2 ^ alignOf iso < 2 ^ 31 := by
  rw [Nat.shiftRight_eq_div_pow] at hfits
  exact Nat.lt_of_le_of_lt (Nat.div_le_div_right (P.pos_le_length hb)) hfits

theorem fileEntry_mod (hfits : P.image.length >>> alignOf iso < 2 ^ 31) {b : ℕ}
    (hb : b ≤ iso.length / 2048) :
    fileEntry P.image b % 2 ^ 31 = pos z threshold iso b / 2 ^ alignOf iso := by
  by_cases hlt : b < iso.length / 2048
  · rw [P.fileEntry_eq hlt]
    exact (entryOf_spec (P.pos_div_lt hfits hb)).1
  · obtain rfl : b = iso.length / 2048 := by omega
    rw [P.fileEntry_last, ← P.length_image, Nat.mod_eq_of_lt hfits, pos, if_neg hlt,
      Nat.mul_div_cancel _ (Nat.two_pow_pos _), P.length_image, P.pos_eq,
      Nat.shiftRight_eq_div_pow]

theorem place_plain (halign : alignOf iso ≤ 11) {b : ℕ} (hb : b < iso.length / 2048)
    (hplain : isPlain z threshold (isoBlock iso b) = true) :
    (P.image.drop (pos z threshold iso b)).take
      (pos z threshold iso (b + 1) - pos z threshold iso b) = isoBlock iso b := by
  have hstored : stored z threshold (isoBlock iso b) = isoBlock iso b := by
    rw [stored, if_pos hplain]
  obtain ⟨t, ht⟩ := P.drop_pos hb
  have hdvd : 2 ^ alignOf iso ∣ (stored z threshold (isoBlock iso b)).length := by
    rw [hstored, length_isoBlock hb]
    exact Nat.pow_dvd_pow 2 halign
  rw [ht, pos_succ_of_dvd hb hdvd, Nat.add_sub_cancel_left, List.take_left, hstored]

theorem place_compressed {b : ℕ} (hb : b < iso.length / 2048)
    (hw : LastWhole z threshold iso ∨ b + 1 < iso.length / 2048)
    (hplain : isPlain z threshold (isoBlock iso b) = false) :
    ∃ t, (P.image.drop (pos z threshold iso b)).take
      (pos z threshold iso (b + 1) - pos z threshold iso b) = z.compress (isoBlock iso b) ++ t := by
  have hstored : stored z threshold (isoBlock iso b) = z.compress (isoBlock iso b) := by
    rw [stored, hplain, if_neg Bool.false_ne_true]
  have hle := length_le_place hw hb
  obtain ⟨t, ht⟩ := P.drop_pos hb
  rw [ht, List.take_append, List.take_of_length_le hle, hstored]
  exact ⟨_, rfl⟩

/-- **The packed image is laid out as the reader expects.** -/
def layout (hthreshold : threshold ≤ 100) (halign : alignOf iso ≤ 11)
    (hfits : P.image.length >>> alignOf iso < 2 ^ 31) :
    Layout z (isoBlock iso) (iso.length / 2048) (alignOf iso)
      (fun b => LastWhole z threshold iso ∨ b + 1 < iso.length / 2048) P.image where
  pos := pos z threshold iso
  plain b := isPlain z threshold (isoBlock iso b)
  length_block _ hb := length_isoBlock hb
  aligned b _ := dvd_pos b
  fits _ hb := P.pos_div_lt hfits hb
  entry _ hb := P.fileEntry_mod hfits hb
  topbit b hb := by
    rw [P.fileEntry_eq hb]
    exact (entryOf_spec (P.pos_div_lt hfits (Nat.le_of_lt hb))).2
  mono _ hb := pos_le_pos_succ hb
  size_le _ hb := pos_succ_le hthreshold halign hb
  pos_le := P.pos_le_length (Nat.le_refl _)
  stored_plain _ hb hplain := P.place_plain halign hb hplain
  stored _ hb hwhole hplain := P.place_compressed hb hwhole hplain

/-! ### The header -/

theorem image_eq_append : ∃ back, alignOf iso ≤ 127 ∧
    P.image = toLe 4 0x4F53495A ++ toLe 4 0x18 ++ toLe 4 iso.length ++
      toLe 4 (iso.length / 2 ^ 32) ++ toLe 4 2048 ++ toLe 1 1 ++ toLe 1 (alignOf iso) ++ back := by
  have hheader := P.header_eq
  rw [generateZsoHeader] at hheader
  split_ifs at hheader with halign
  rw [Option.some_inj] at hheader
  refine ⟨[0, 0] ++ (P.w.index ++ [P.w.pos >>> alignOf iso]).flatMap (toLe 4) ++ P.w.out,
    halign, ?_⟩
  have hsplit : toLe 8 iso.length = toLe 4 iso.length ++ toLe 4 (iso.length / 2 ^ 32) :=
    toLe_add 4 4 iso.length
  rw [image, front, ← hheader, hsplit]
  simp only [List.append_assoc]

end Packed

/-- The number of blocks, put together from the two halves of the size. -/
theorem or_halves {m : ℕ} (hm : m < 2 ^ 43) :
    ((m % 2 ^ 32) >>> 11) ||| ((m / 2 ^ 32 &&& 0x7ff) <<< 21) = m / 2048 := by
  have hhi : m / 2 ^ 32 &&& 0x7ff = m / 2 ^ 32 := by
    rw [show 0x7ff = 2 ^ 11 - 1 from rfl, Nat.and_two_pow_sub_one_eq_mod]
    omega
  have hlo : (m % 2 ^ 32) >>> 11 < 2 ^ 21 := by
    rw [Nat.shiftRight_eq_div_pow]
    omega
  rw [hhi, Nat.or_comm, ← Nat.shiftLeft_add_eq_or_of_lt hlo, Nat.shiftLeft_eq,
    Nat.shiftRight_eq_div_pow]
  omega

/-- What the reader takes from the header of a packed image. -/
theorem Packed.zisoInit_eq (P : Packed z threshold pad iso) (st : σ) (idxCache tmp : List UInt8) :
    (zisoInit P.image st idxCache tmp).align = alignOf iso ∧
      (zisoInit P.image st idxCache tmp).totalBlock = iso.length / 2048 := by
  obtain ⟨back, halign, himage⟩ := P.image_eq_append
  have hlen : iso.length < 2 ^ 38 := by
    rw [alignOf] at halign
    omega
  have hfield : (P.image.drop 21).take 1 = toLe 1 (alignOf iso) :=
    take_drop_of_append (himage.trans (List.append_assoc _ _ _))
      (by simp only [List.length_append, length_toLe]) (length_toLe _ _)
  have hlo : (P.image.drop 8).take 4 = toLe 4 iso.length :=
    take_drop_of_append (a := toLe 4 0x4F53495A ++ toLe 4 0x18)
      (c := toLe 4 (iso.length / 2 ^ 32) ++ toLe 4 2048 ++ toLe 1 1 ++ toLe 1 (alignOf iso) ++ back)
      (himage.trans (by simp only [List.append_assoc]))
      (by simp only [List.length_append, length_toLe]) (length_toLe _ _)
  have hhi : (P.image.drop 12).take 4 = toLe 4 (iso.length / 2 ^ 32) :=
    take_drop_of_append (a := toLe 4 0x4F53495A ++ toLe 4 0x18 ++ toLe 4 iso.length)
      (c := toLe 4 2048 ++ toLe 1 1 ++ toLe 1 (alignOf iso) ++ back)
      (himage.trans (by simp only [List.append_assoc]))
      (by simp only [List.length_append, length_toLe]) (length_toLe _ _)
  refine ⟨?_, ?_⟩
  · rw [zisoInit]
    dsimp only
    rw [hfield]
    exact ofLe_toLe (by omega)
  · rw [zisoInit]
    dsimp only
    rw [hlo, hhi, ofLe_toLe_mod, ofLe_toLe (by omega)]
    exact or_halves (by omega)

/-! ### Reading back -/

theorem flatMap_isoBlock {lsn count : ℕ} (h : lsn + count ≤ iso.length / 2048) :
    (List.range' lsn count).flatMap (isoBlock iso) =
      (iso.drop (2048 * lsn)).take (2048 * count) := by
  induction count generalizing lsn with
  | zero => rw [Nat.mul_zero, List.take_zero]; rfl
  | succ m ih =>
    rw [Layout.flatMap_range'_succ, ih (by omega), isoBlock, Nat.mul_succ, Nat.mul_succ,
      Nat.add_comm (2048 * m), List.take_add, List.drop_drop]

theorem Packed.indexed (P : Packed z threshold pad iso) (halign : alignOf iso ≤ 11) :
    Indexed P.image (iso.length / 2048) := by
  rw [alignOf] at halign
  refine ⟨?_, by rw [headerSize]; omega⟩
  have hle : P.image.length = P.front.length + P.w.out.length := List.length_append
  rw [P.length_front, dataStart] at hle
  rw [headerSize]
  omega

/-- Below 2 GiB no block is cut off. -/
theorem lastWhole_of_lt (h : iso.length < 2 ^ 31) : LastWhole z threshold iso := by
  have halign : alignOf iso = 0 := Nat.div_eq_of_lt h
  rw [LastWhole, halign]
  exact Nat.one_dvd _

/-! ### When the packer succeeds -/

theorem shiftRight_lt {p q align : ℕ} (hpq : p ≤ q) (hq : q >>> align < 2 ^ 31) :
    p >>> align < 2 ^ 31 := by
  rw [Nat.shiftRight_eq_div_pow] at hq ⊢
  exact Nat.lt_of_le_of_lt (Nat.div_le_div_right hpq) hq

theorem exists_writeBlocks (pad : UInt8) {align : ℕ} {bs : List (List UInt8)} (w : Writer)
    (h : endPos z threshold align w.pos bs >>> align < 2 ^ 31) :
    ∃ w', writeBlocks z threshold align pad w bs = some w' := by
  induction bs generalizing w with
  | nil => exact ⟨w, rfl⟩
  | cons b bs ih =>
    obtain ⟨hpos, -⟩ := setAlign_pos pad align w
    -- the position of the block has no top bit
    have hle : alignUp align w.pos ≤ endPos z threshold align w.pos (b :: bs) :=
      Nat.le_trans (Nat.le_add_right _ _) (le_endPos _ bs)
    have htop : alignUp align w.pos >>> align &&& 2 ^ 31 = 0 := by
      rw [Nat.and_two_pow, Nat.testBit_lt_two_pow (shiftRight_lt hle h), Bool.toNat_false,
        Nat.zero_mul]
    have hb : ∃ w₁, writeBlock z threshold align pad w b = some w₁ := by
      rw [writeBlock, Writer.addBlock, hpos, if_neg (not_not.mpr htop)]
      split_ifs
      · exact ⟨_, rfl⟩
      · exact ⟨_, rfl⟩
    obtain ⟨w₁, hw₁⟩ := hb
    obtain ⟨w', hw'⟩ := ih (w := w₁) (by rw [(writeBlock_eq_some hw₁).1]; exact h)
    exact ⟨w', by rw [writeBlocks, hw₁]; exact hw'⟩

theorem endPos_le (align : ℕ) {bs : List (List UInt8)} (p : ℕ)
    (h : ∀ b ∈ bs, (stored z threshold b).length ≤ 2048) :
    endPos z threshold align p bs ≤ p + (2048 + 2 ^ align) * bs.length := by
  induction bs generalizing p with
  | nil => exact Nat.le_add_right _ _
  | cons b bs ih =>
    have hup : alignUp align p ≤ p + 2 ^ align := by
      rw [alignUp]
      split_ifs <;> omega
    have hlen := h b List.mem_cons_self
    have hrest := ih (alignUp align p + (stored z threshold b).length) fun c hc =>
      h c (List.mem_cons_of_mem b hc)
    rw [endPos, List.length_cons, Nat.mul_succ]
    omega

theorem entryOf_lt {align p : ℕ} {block : List UInt8} (hp : p >>> align < 2 ^ 31) :
    entryOf z threshold align block p < 2 ^ 32 := by
  rw [entryOf]
  split_ifs
  · exact Nat.or_lt_two_pow (Nat.lt_trans hp (by decide)) (by decide)
  · exact Nat.lt_trans hp (by decide)

theorem index_lt_of_writeBlocks {align : ℕ} {bs : List (List UInt8)} {w w' : Writer}
    (h : writeBlocks z threshold align pad w bs = some w')
    (hfits : endPos z threshold align w.pos bs >>> align < 2 ^ 31)
    (hw : ∀ i ∈ w.index, i < 2 ^ 32) : ∀ i ∈ w'.index, i < 2 ^ 32 := by
  induction bs generalizing w with
  | nil =>
    cases h
    exact hw
  | cons b bs ih =>
    obtain ⟨w₁, h₁, hrest⟩ := Option.bind_eq_some_iff.mp h
    obtain ⟨hpos₁, hindex₁, -⟩ := writeBlock_eq_some h₁
    have hle : alignUp align w.pos ≤ endPos z threshold align w.pos (b :: bs) :=
      Nat.le_trans (Nat.le_add_right _ _) (le_endPos _ bs)
    refine ih hrest (by rw [hpos₁]; exact hfits) fun i hi => ?_
    rw [hindex₁, List.mem_append, List.mem_singleton] at hi
    obtain hi | rfl := hi
    · exact hw i hi
    · exact entryOf_lt (shiftRight_lt hle hfits)

/-- The packer succeeds when the positions fit, and the image fits then. -/
theorem exists_compressZso (halign : alignOf iso ≤ 127)
    (hfits : endPos z threshold (alignOf iso) (dataStart iso) (isoBlocks iso) >>> alignOf iso <
      2 ^ 31) :
    ∃ file, compressZso z threshold pad iso = some file ∧
      file.length >>> alignOf iso < 2 ^ 31 := by
  obtain ⟨w, hw⟩ := exists_writeBlocks pad ⟨[], dataStart iso, []⟩ hfits
  have hpos := (writeBlocks_eq_some hw).1
  have hindex := index_lt_of_writeBlocks hw hfits fun i hi => absurd hi List.not_mem_nil
  have hall : ∀ i ∈ w.index ++ [w.pos >>> alignOf iso], i < 2 ^ 32 := by
    intro i hi
    rw [List.mem_append, List.mem_singleton] at hi
    obtain hi | rfl := hi
    · exact hindex i hi
    · rw [hpos]
      exact Nat.lt_trans hfits (by decide)
  have hpack : ∃ file, compressZso z threshold pad iso = some file := by
    have hwrite : writeIso z threshold pad iso = some w := hw
    rw [compressZso, generateZsoHeader, if_pos halign, Option.bind_some, hwrite, Option.bind_some,
      packIndex, if_pos hall]
    exact ⟨_, rfl⟩
  obtain ⟨file, hfile⟩ := hpack
  obtain ⟨P, rfl⟩ := exists_packed hfile
  exact ⟨_, hfile, by rw [P.length_image, P.pos_eq]; exact hfits⟩

theorem exists_compressZso_of_lt (z : Codec) (pad : UInt8) (hthreshold : threshold ≤ 100)
    (h : iso.length < 2 ^ 30) :
    ∃ file, compressZso z threshold pad iso = some file ∧
      file.length >>> alignOf iso < 2 ^ 31 := by
  have halign : alignOf iso = 0 := Nat.div_eq_of_lt (by omega)
  refine exists_compressZso (by omega) ?_
  have hstored : ∀ b ∈ isoBlocks iso, (stored z threshold b).length ≤ 2048 := by
    intro b hb
    obtain ⟨i, hi, rfl⟩ := List.mem_map.mp hb
    exact Packed.length_stored_le hthreshold (List.mem_range.mp hi)
  have hle := endPos_le 0 (dataStart iso) hstored
  rw [length_isoBlocks, dataStart] at hle
  rw [halign, Nat.shiftRight_zero]
  rw [dataStart] at *
  omega

end Zso

end OpenPS2Loader
