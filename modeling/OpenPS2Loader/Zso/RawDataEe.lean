import Mathlib.Data.UInt
import OpenPS2Loader.Zso.RawData

/-!
# Raw access on both processors

`read_raw_data` has three copies: that of the IOP, and on the EE one for files and one for the hard
disk. They return how many bytes were read, and every device read succeeds.

The sectors of the hard disk have 512 bytes and 32-bit numbers: the number of the first one,
`probed_lba + lba * 4`, and the numbers behind it are taken modulo `2 ^ 32`. The IOP has 64 bits for
a sector number, and a file has 64 bits for a position.

## Main definitions

* `Ee.readRawData` — the EE copies
* `Ee.ReadsExactly` — what is stored are the bytes that were asked for, and their number is returned

## Main results

* `Ee.readHdd_eq` — the bytes that the hard disk copy stores
* `Ee.readsExactly_iff`
-/

namespace OpenPS2Loader

namespace Zso

open Bytes

/-- `read_raw_data` of `cdvdman.c`: the sector cache behind it, the bytes that are stored, and the
number that is returned. -/
def Cdvdman.readRawDataFull (disk : ℕ → UInt8) (s : SectorCache (List UInt8)) (toIndex : Bool)
    (tmp : List UInt8) (size offset shift : ℕ) :
    Option (SectorCache (List UInt8) × List UInt8 × ℕ) :=
  (transfer disk s toIndex tmp size offset shift).map fun t => (t.cache, t.stored, size - t.size)

namespace Ee

/-! ### The hard disk -/

/-- `ReadHDDSectors`. `hdd` has the bytes of the hard disk. -/
def readHddSectors (hdd : ℕ → UInt8) (probedLba lba nsectors : ℕ) : List UInt8 :=
  let lsn := (probedLba + lba * 4) % 2 ^ 32
  ((List.range (nsectors * 4)).map fun k => slice hdd (512 * ((lsn + k) % 2 ^ 32)) 512).flatten

/-- A transfer under way: the bytes stored, the number of bytes left and the next sector. -/
structure Transfer where
  stored : List UInt8
  size : ℕ
  lba : ℕ

/-- The bytes up to a sector boundary. -/
def readFirst (hdd : ℕ → UInt8) (probedLba pos : ℕ) (t : Transfer) : Transfer :=
  if pos ≠ 0 then
    let r := min t.size (2048 - pos)
    ⟨t.stored ++ ((readHddSectors hdd probedLba t.lba 1).drop pos).take r, t.size - r,
      (t.lba + 1) % 2 ^ 32⟩
  else t

/-- The intermediate sectors, if more than one sector is left. -/
def readMiddle (hdd : ℕ → UInt8) (probedLba : ℕ) (t : Transfer) : Transfer :=
  let n := Cdvdman.blocks t.size
  if 1 < n then
    ⟨t.stored ++ readHddSectors hdd probedLba t.lba (n - 1), t.size - 2048 * (n - 1),
      (t.lba + (n - 1)) % 2 ^ 32⟩
  else t

/-- The remaining data. -/
def readRest (hdd : ℕ → UInt8) (probedLba : ℕ) (t : Transfer) : Transfer :=
  if t.size ≠ 0 then
    ⟨t.stored ++ (readHddSectors hdd probedLba t.lba 1).take t.size, 0, t.lba⟩
  else t

/-- What was found out about the image, and the media: a file, and the hard disk. -/
structure Env where
  probedFd : ℤ
  probedLba : ℕ
  file : ℕ → UInt8
  hdd : ℕ → UInt8

/-- The copy for the hard disk: the bytes that are stored, and the number that is returned. -/
def readHdd (hdd : ℕ → UInt8) (probedLba lba pos size : ℕ) : List UInt8 × ℕ :=
  let t := readRest hdd probedLba (readMiddle hdd probedLba
    (readFirst hdd probedLba pos ⟨[], size, lba⟩))
  (t.stored, size - t.size)

/-- `read_raw_data` of `zso.c` on the EE. The file is sought as in `isofs.c`, and has the bytes. -/
def readRawData (e : Env) (size offset shift : ℕ) : Option (List UInt8 × ℕ) :=
  (locate offset shift).map fun (lba, pos) =>
    if 0 < e.probedFd then (slice e.file (Isofs.longLseek lba + pos) size, size)
    else readHdd e.hdd e.probedLba lba pos size

/-- All copies store the bytes that were asked for and return their number, whatever the devices
have, and whatever is in the cache and the temporary buffer. The image starts at `probed_lba` on the
hard disk. -/
structure ReadsExactly (probedLba size offset : UInt32) (shift : Fin 12) : Prop where
  iop : ∀ (disk : ℕ → UInt8) (s : SectorCache (List UInt8)) (toIndex : Bool) (tmp : List UInt8),
    s.Honest (Cdvdman.sector disk) → tmp.length = 2048 → ∃ s',
      Cdvdman.readRawDataFull disk s toIndex tmp size.toNat offset.toNat shift =
        some (s', slice disk (offset.toNat * 2 ^ shift.val) size.toNat, size.toNat) ∧
      s'.Honest (Cdvdman.sector disk)
  file : ∀ e : Env, 0 < e.probedFd → readRawData e size.toNat offset.toNat shift =
    some (slice e.file (offset.toNat * 2 ^ shift.val) size.toNat, size.toNat)
  hdd : ∀ e : Env, ¬ 0 < e.probedFd → e.probedLba = probedLba.toNat →
    readRawData e size.toNat offset.toNat shift =
      some (slice e.hdd (512 * probedLba.toNat + offset.toNat * 2 ^ shift.val) size.toNat,
        size.toNat)

/-! ### What the hard disk copy reads -/

section Hdd

variable {hdd : ℕ → UInt8} {probedLba lba pos size : ℕ}

/-- The image as the 32-bit sector numbers see it: behind sector `2 ^ 32` is sector 0. -/
def wrapped (hdd : ℕ → UInt8) (probedLba i : ℕ) : UInt8 := hdd ((512 * probedLba + i) % 2 ^ 41)

theorem readHddSectors_eq (hdd : ℕ → UInt8) (probedLba lba n : ℕ) :
    readHddSectors hdd probedLba lba n =
      slice (wrapped hdd probedLba) (2048 * lba) (2048 * n) := by
  have hsectors : ∀ m, ((List.range m).map fun k =>
      slice hdd (512 * (((probedLba + lba * 4) % 2 ^ 32 + k) % 2 ^ 32)) 512).flatten =
      slice (wrapped hdd probedLba) (2048 * lba) (512 * m) := by
    intro m
    induction m with
    | zero => rfl
    | succ m ih =>
      rw [List.range_succ, List.map_append, List.flatten_append, ih,
        Nat.mul_succ 512 m, slice_add]
      refine congrArg _ ?_
      rw [List.map_singleton, List.flatten_singleton]
      refine slice_congr fun i hi => ?_
      rw [wrapped]
      refine congrArg hdd ?_
      omega
  rw [readHddSectors, hsectors]
  congr 1
  omega

/-- Sector numbers that agree modulo `2 ^ 32` have the same bytes. -/
theorem readHddSectors_mod (hdd : ℕ → UInt8) (probedLba lba n : ℕ) :
    readHddSectors hdd probedLba (lba % 2 ^ 32) n = readHddSectors hdd probedLba lba n := by
  rw [readHddSectors, readHddSectors]
  have heq : (probedLba + lba % 2 ^ 32 * 4) % 2 ^ 32 = (probedLba + lba * 4) % 2 ^ 32 := by omega
  rw [heq]

/-- What holds while `n` bytes from position `p` on are read. -/
structure Transfer.Ok (hdd : ℕ → UInt8) (probedLba p n : ℕ) (t : Transfer) : Prop where
  le : t.size ≤ n
  stored : t.stored = slice (wrapped hdd probedLba) p (n - t.size)
  aligned : t.size ≠ 0 → ∃ lba, t.lba = lba % 2 ^ 32 ∧ 2048 * lba = p + (n - t.size)

theorem readFirst_ok (hlba : lba < 2 ^ 32) (hpos : pos < 2048) :
    (readFirst hdd probedLba pos ⟨[], size, lba⟩).Ok hdd probedLba (2048 * lba + pos) size := by
  rw [readFirst]
  split_ifs with h
  · refine ⟨Nat.sub_le _ _, ?_, fun hleft => ⟨lba + 1, rfl, ?_⟩⟩
    · dsimp only
      rw [List.nil_append, readHddSectors_eq, Nat.mul_one, drop_slice _ _ (Nat.le_of_lt hpos),
        take_slice _ _ (Nat.min_le_right _ _)]
      congr 1
      omega
    · dsimp only at hleft ⊢
      omega
  · refine ⟨Nat.le_refl _, ?_, fun _ => ⟨lba, (Nat.mod_eq_of_lt hlba).symm, ?_⟩⟩
    · rw [Nat.sub_self, slice_zero]
    · dsimp only
      omega

theorem readMiddle_ok {p n : ℕ} {t : Transfer} (ht : t.Ok hdd probedLba p n) :
    (readMiddle hdd probedLba t).Ok hdd probedLba p n ∧
      (readMiddle hdd probedLba t).size ≤ 2048 := by
  have hle := ht.le
  obtain ⟨hblocks, hblocks'⟩ := Cdvdman.blocks_bounds t.size
  rw [readMiddle]
  split_ifs with h
  · obtain ⟨lba, hlba, haligned⟩ := ht.aligned (by omega)
    refine ⟨⟨by dsimp only; omega, ?_, fun _ => ⟨lba + (Cdvdman.blocks t.size - 1), ?_, ?_⟩⟩, ?_⟩
    · dsimp only
      rw [ht.stored, hlba, readHddSectors_mod, readHddSectors_eq, haligned, ← slice_add]
      congr 1
      omega
    · dsimp only
      rw [hlba, Nat.mod_add_mod]
    · dsimp only
      omega
    · dsimp only
      omega
  · exact ⟨ht, by omega⟩

theorem readRest_ok {p n : ℕ} {t : Transfer} (ht : t.Ok hdd probedLba p n) (hsize : t.size ≤ 2048) :
    (readRest hdd probedLba t).Ok hdd probedLba p n ∧ (readRest hdd probedLba t).size = 0 := by
  rw [readRest]
  split_ifs with h
  · obtain ⟨lba, hlba, haligned⟩ := ht.aligned h
    have hle := ht.le
    refine ⟨⟨Nat.zero_le n, ?_, fun h0 => absurd rfl h0⟩, rfl⟩
    dsimp only
    rw [ht.stored, hlba, readHddSectors_mod, readHddSectors_eq, take_slice _ _ (by omega), haligned,
      ← slice_add]
    congr 1
    omega
  · exact ⟨ht, by omega⟩

/-- **The bytes that the hard disk copy stores**, and the number that it returns. -/
theorem readHdd_eq (hlba : lba < 2 ^ 32) (hpos : pos < 2048) :
    readHdd hdd probedLba lba pos size =
      (slice (wrapped hdd probedLba) (2048 * lba + pos) size, size) := by
  obtain ⟨hok, hle⟩ := readMiddle_ok (@readFirst_ok hdd probedLba lba pos size hlba hpos)
  obtain ⟨hok, hzero⟩ := readRest_ok hok hle
  rw [readHdd, hok.stored, hzero, Nat.sub_zero]

end Hdd

/-! ### All copies -/

section All

variable {probedLba size offset : UInt32} {shift : Fin 12}

/-- A byte behind the last sector is read as one from the start of the hard disk. -/
theorem slice_wrapped_iff {base p n : ℕ} :
    (∀ hdd, slice (wrapped hdd base) p n = slice hdd (512 * base + p) n) ↔
      n = 0 ∨ 512 * base + p + n ≤ 2 ^ 41 := by
  constructor
  · intro h
    by_contra hnot
    rw [not_or, not_le] at hnot
    obtain ⟨hn, hlong⟩ := hnot
    -- a hard disk that tells the two halves apart
    have hlast := congrArg (·[n - 1]?) (h fun i => if i < 2 ^ 41 then 0 else 1)
    have hlt : n - 1 < n := by omega
    simp only [slice, List.getElem?_map, List.getElem?_range hlt, Option.map_some, wrapped,
      Nat.mod_lt _ (show 0 < 2 ^ 41 by decide), if_true] at hlast
    rw [if_neg (by omega)] at hlast
    exact absurd hlast (by decide)
  · rintro hfits hdd
    refine slice_congr fun i hi => ?_
    rw [wrapped]
    refine congrArg hdd ?_
    omega

/-- What a read on the EE does for the place of an offset. -/
theorem readRawData_file (e : Env) (h : 0 < e.probedFd) :
    readRawData e size.toNat offset.toNat shift =
      some (slice e.file (offset.toNat * 2 ^ shift.val) size.toNat, size.toNat) := by
  obtain ⟨lba, pos, hlocate, -, heq⟩ := locate_of_le offset.toNat (Nat.le_of_lt_succ shift.isLt)
  rw [readRawData, hlocate, Option.map_some]
  dsimp only
  rw [if_pos h, Isofs.longLseek_eq, heq]

theorem readRawData_hdd (e : Env) (h : ¬ 0 < e.probedFd) :
    readRawData e size.toNat offset.toNat shift =
      some (slice (wrapped e.hdd e.probedLba) (offset.toNat * 2 ^ shift.val) size.toNat,
        size.toNat) := by
  obtain ⟨lba, pos, hlocate, hpos, heq⟩ :=
    locate_of_le offset.toNat (Nat.le_of_lt_succ shift.isLt)
  have hlba : lba < 2 ^ 32 := by
    rw [locate] at hlocate
    split_ifs at hlocate
    obtain ⟨rfl, -⟩ := Prod.mk.inj (Option.some.inj hlocate)
    exact Nat.lt_of_le_of_lt (Nat.div_le_self _ _) offset.toNat_lt
  rw [readRawData, hlocate, Option.map_some]
  dsimp only
  rw [if_neg h, readHdd_eq hlba hpos, heq]

theorem readRawDataFull_eq (disk : ℕ → UInt8) (s : SectorCache (List UInt8)) (toIndex : Bool)
    (tmp : List UInt8) (hs : s.Honest (Cdvdman.sector disk)) (htmp : tmp.length = 2048) :
    ∃ s', Cdvdman.readRawDataFull disk s toIndex tmp size.toNat offset.toNat shift =
        some (s', slice disk (offset.toNat * 2 ^ shift.val) size.toNat, size.toNat) ∧
      s'.Honest (Cdvdman.sector disk) := by
  obtain ⟨t, ht, hok, hzero⟩ := Cdvdman.transfer_ok hs toIndex htmp
    (Nat.le_of_lt_succ shift.isLt) offset.toNat_lt size.toNat_lt
  refine ⟨t.cache, ?_, hok.honest⟩
  rw [Cdvdman.readRawDataFull, ht, Option.map_some, hok.stored, hzero, Nat.sub_zero]

/-- **When all copies read exactly.** The hard disk copy does if and only if the bytes end before
sector `2 ^ 32` of the disk, or none is asked for; the other ones always do. -/
theorem readsExactly_iff (probedLba size offset : UInt32) (shift : Fin 12) :
    ReadsExactly probedLba size offset shift ↔
      size = 0 ∨ 512 * probedLba.toNat + offset.toNat * 2 ^ shift.val + size.toNat ≤ 2 ^ 41 := by
  have hsize : size = 0 ↔ size.toNat = 0 := UInt32.toNat_inj.symm
  rw [hsize, ← slice_wrapped_iff]
  constructor
  · intro h hdd
    have hread := h.hdd ⟨0, probedLba.toNat, hdd, hdd⟩ (Int.lt_irrefl 0) rfl
    rw [readRawData_hdd _ (Int.lt_irrefl 0)] at hread
    exact congrArg Prod.fst (Option.some.inj hread)
  · intro h
    refine ⟨readRawDataFull_eq, readRawData_file, fun e he hlba => ?_⟩
    rw [readRawData_hdd e he, hlba, h]

/-- The byte at the largest offset in sectors is read from the start of the hard disk. -/
theorem not_readsExactly_wrapped : ¬ ReadsExactly 0 1 (2 ^ 32 - 1) 11 := by
  intro h
  have hread := h.hdd ⟨0, 0, fun _ => 0, fun i => if i < 2 ^ 41 then 0 else 1⟩ (by decide) rfl
  rw [readRawData_hdd _ (by decide)] at hread
  exact absurd (congrArg Prod.fst (Option.some.inj hread)) (by decide)

end All

end Ee

end Zso

end OpenPS2Loader
