import Mathlib.Algebra.Group.Nat.Defs
import Mathlib.Data.Int.Notation
import Mathlib.Data.List.Basic
import Mathlib.Data.Nat.Notation
import Mathlib.Logic.Function.Iterate

/-!
# The checksum in the names of the parts

The parts of a split game carry a checksum of its name in their own names. It is computed in three
places: `USBA_crc32` of the console (`system.c`) and `crc32` of each of the two PC tools
(`iso2opl.c`, `opl2iso.c`). All three fill the same table and go through the name with its
terminator; they differ in the type of the character that is part of the index, and in the bound of
the loop.

An `int` of C is a `BitVec 32`, and an index is read from it with its sign. The table has `0x400`
entries of which the first 256 are filled; a read outside the table has no result.

## Main definitions

* `UsbExtreme.crcEntry`, `UsbExtreme.crctab` — the table
* `UsbExtreme.crcLoop` — the loop over the name, with the indices that it reads
* `UsbExtreme.usbaCrc32`, `UsbExtreme.Iso2opl.crc32`, `UsbExtreme.Opl2iso.crc32`

## Main results

* `UsbExtreme.crcLoop_ascii` — below `0x80`, the type of the character does not matter
* `UsbExtreme.crcLoop_signed_eq_none` — with signed characters, a byte from `0x80` on is an index
  below the table
* `UsbExtreme.crcsAgree_iff`
-/

namespace OpenPS2Loader

namespace UsbExtreme

/-! ### The table -/

/-- One round of the inner loop over `count`. -/
def crcShift (crc : BitVec 32) : BitVec 32 :=
  if crc.msb then crc <<< 1 else (crc <<< 1) ^^^ 0x04C11DB7#32

/-- What the inner loop makes of `table << 24`. -/
def crcEntry (table : ℕ) : BitVec 32 := crcShift^[8] (BitVec.ofNat 32 table <<< 24)

/-- `crctab[i]` after the outer loop: `crctab[255 - table]` is the entry of `table`, and the others
were never written. -/
def crctab (i : ℤ) : Option (BitVec 32) :=
  if 0 ≤ i ∧ i < 256 then some (crcEntry (255 - i.toNat))
  else if 256 ≤ i ∧ i < 0x400 then some 0
  else none

/-! ### The loop over the name -/

/-- A character as an `int`, where `char` is unsigned. -/
def unsignedChar (c : UInt8) : BitVec 32 := c.toBitVec.setWidth 32

/-- A character as an `int`, where `char` is signed. -/
def signedChar (c : UInt8) : BitVec 32 := c.toBitVec.signExtend 32

/-- `byte ^ ((crc >> 24) & 0xFF)`. -/
def crcIndex (byte crc : BitVec 32) : ℤ := (byte ^^^ (crc.sshiftRight 24 &&& 0xFF#32)).toInt

/-- The loop from the `count`-th character on: the result, and the indices that are read. The string
has to be terminated. -/
def crcLoop (char : UInt8 → BitVec 32) (goesOn : ℕ → Bool) (count : ℕ) (crc : BitVec 32) :
    List UInt8 → Option (BitVec 32) × List ℤ
  | [] => (none, [])
  | c :: string =>
    let i := crcIndex (char c) crc
    match crctab i with
    | none => (none, [i])
    | some entry =>
      let crc := entry ^^^ ((crc <<< 8) &&& 0xFFFFFF00#32)
      if c ≠ 0 ∧ goesOn (count + 1) then
        let rest := crcLoop char goesOn (count + 1) crc string
        (rest.1, i :: rest.2)
      else (some crc, [i])

/-- The three functions: `crc` is left from the last entry of the table, and `count` is 0. -/
def crcOf (char : UInt8 → BitVec 32) (goesOn : ℕ → Bool) (name : List UInt8) :
    Option (BitVec 32) × List ℤ :=
  crcLoop char goesOn 0 (crcEntry 255) (name ++ [0])

/-- `USBA_crc32`. -/
def usbaCrc32 : List UInt8 → Option (BitVec 32) × List ℤ :=
  crcOf unsignedChar fun count => decide (count ≤ 32)

/-- `crc32` of `iso2opl`. -/
def Iso2opl.crc32 : List UInt8 → Option (BitVec 32) × List ℤ := crcOf signedChar fun _ => true

/-- `crc32` of `opl2iso`. -/
def Opl2iso.crc32 : List UInt8 → Option (BitVec 32) × List ℤ := crcOf signedChar fun _ => true

/-! ### The index -/

section Index

variable (c : UInt8) (crc : BitVec 32)

theorem toNat_shifted_lt : (crc.sshiftRight 24 &&& 0xFF#32).toNat < 2 ^ 8 := by
  rw [BitVec.toNat_and]
  exact Nat.and_lt_two_pow _ (by decide)

theorem crcIndex_unsigned :
    0 ≤ crcIndex (unsignedChar c) crc ∧ crcIndex (unsignedChar c) crc < 256 := by
  have hbyte : (unsignedChar c).toNat < 2 ^ 8 := by
    rw [unsignedChar, BitVec.toNat_setWidth_of_le (by decide)]
    exact c.toNat_lt
  have hxor := Nat.xor_lt_two_pow hbyte (toNat_shifted_lt crc)
  rw [← BitVec.toNat_xor] at hxor
  rw [crcIndex, BitVec.toInt_eq_toNat_of_lt (by omega)]
  omega

theorem signedChar_of_lt {c : UInt8} (h : c < 0x80) : signedChar c = unsignedChar c := by
  have hmsb : c.toBitVec.msb = false := by
    rw [BitVec.msb_eq_false_iff_two_mul_lt]
    have : c.toNat < 128 := UInt8.lt_iff_toNat_lt.mp h
    exact (by omega : 2 * c.toNat < 2 ^ 8)
  exact BitVec.signExtend_eq_setWidth_of_msb_false hmsb

/-- A signed character from `0x80` on makes the index negative, whatever is left of the checksum. -/
theorem crcIndex_signed_neg {c : UInt8} (h : 0x80 ≤ c) : crcIndex (signedChar c) crc < 0 := by
  have hmsb : c.toBitVec.msb = true := by
    rw [BitVec.msb_eq_true_iff_two_mul_ge]
    have : 128 ≤ c.toNat := UInt8.le_iff_toNat_le.mp h
    exact (by omega : 2 * c.toNat ≥ 2 ^ 8)
  have hshifted : (crc.sshiftRight 24 &&& 0xFF#32).msb = false := by
    rw [BitVec.msb_eq_false_iff_two_mul_lt]
    have := toNat_shifted_lt crc
    omega
  have hxor : (signedChar c ^^^ (crc.sshiftRight 24 &&& 0xFF#32)).msb = true := by
    rw [BitVec.msb_xor, hshifted, Bool.xor_false, signedChar, BitVec.msb_signExtend]
    simp [hmsb]
  rw [crcIndex, BitVec.toInt_eq_msb_cond, if_pos hxor]
  have := (signedChar c ^^^ (crc.sshiftRight 24 &&& 0xFF#32)).isLt
  omega

theorem crctab_of_mem {i : ℤ} (h : 0 ≤ i ∧ i < 256) : ∃ entry, crctab i = some entry :=
  ⟨_, if_pos h⟩

theorem crctab_of_neg {i : ℤ} (h : i < 0) : crctab i = none := by
  rw [crctab, if_neg (by omega), if_neg (by omega)]

end Index

/-! ### The three functions -/

section Loop

variable {goesOn : ℕ → Bool} {name : List UInt8}

/-- With unsigned characters, the loop has a result, and stays in the entries that were filled. -/
theorem crcLoop_unsigned (goesOn : ℕ → Bool) (count : ℕ) (crc : BitVec 32) (name : List UInt8) :
    (∃ v, (crcLoop unsignedChar goesOn count crc (name ++ [0])).1 = some v) ∧
      ∀ i ∈ (crcLoop unsignedChar goesOn count crc (name ++ [0])).2, 0 ≤ i ∧ i < 256 := by
  induction name generalizing count crc with
  | nil =>
    obtain ⟨entry, hentry⟩ := crctab_of_mem (crcIndex_unsigned 0 crc)
    have hloop : crcLoop unsignedChar goesOn count crc ([] ++ [0]) =
        (some (entry ^^^ ((crc <<< 8) &&& 0xFFFFFF00#32)), [crcIndex (unsignedChar 0) crc]) := by
      simp [crcLoop, hentry]
    rw [hloop]
    refine ⟨⟨_, rfl⟩, fun i hi => ?_⟩
    rw [List.mem_singleton.mp hi]
    exact crcIndex_unsigned 0 crc
  | cons c name ih =>
    have hindex := crcIndex_unsigned c crc
    obtain ⟨entry, hentry⟩ := crctab_of_mem hindex
    obtain ⟨⟨v, hv⟩, hreads⟩ := ih (count + 1) (entry ^^^ ((crc <<< 8) &&& 0xFFFFFF00#32))
    rw [List.cons_append, crcLoop]
    dsimp only
    rw [hentry]
    dsimp only
    split
    · refine ⟨⟨v, hv⟩, fun i hi => ?_⟩
      obtain rfl | hi := List.mem_cons.mp hi
      · exact hindex
      · exact hreads i hi
    · refine ⟨⟨_, rfl⟩, fun i hi => ?_⟩
      rw [List.mem_singleton.mp hi]
      exact hindex

/-- Below `0x80`, the type of the character does not matter. -/
theorem crcLoop_ascii (count : ℕ) (crc : BitVec 32) (h : ∀ c ∈ name, c < 0x80) :
    crcLoop signedChar goesOn count crc (name ++ [0]) =
      crcLoop unsignedChar goesOn count crc (name ++ [0]) := by
  induction name generalizing count crc with
  | nil => rw [List.nil_append, crcLoop, crcLoop, signedChar_of_lt (by decide)]; rfl
  | cons c name ih =>
    have hrest : ∀ crc', crcLoop signedChar goesOn (count + 1) crc' (name ++ [0]) =
        crcLoop unsignedChar goesOn (count + 1) crc' (name ++ [0]) := by
      intro crc'
      exact ih (count + 1) crc' fun d hd => h d (List.mem_cons_of_mem c hd)
    rw [List.cons_append, crcLoop, crcLoop, signedChar_of_lt (h c List.mem_cons_self)]
    simp only [hrest]

/-- With signed characters, a byte from `0x80` on is an index below the table. -/
theorem crcLoop_signed_eq_none (count : ℕ) (crc : BitVec 32) (hnul : 0 ∉ name)
    (h : ∃ c ∈ name, 0x80 ≤ c) :
    (crcLoop signedChar (fun _ => true) count crc (name ++ [0])).1 = none := by
  induction name generalizing count crc with
  | nil =>
    obtain ⟨c, hc, -⟩ := h
    cases hc
  | cons c name ih =>
    rw [List.mem_cons, not_or] at hnul
    rw [List.cons_append, crcLoop]
    dsimp only
    by_cases hc : 0x80 ≤ c
    · rw [crctab_of_neg (crcIndex_signed_neg crc hc)]
    · have hrest : ∃ d ∈ name, 0x80 ≤ d := by
        obtain ⟨d, hd, hle⟩ := h
        obtain rfl | hd := List.mem_cons.mp hd
        · exact absurd hle hc
        · exact ⟨d, hd, hle⟩
      obtain ⟨entry, hentry⟩ := crctab_of_mem (crcIndex_unsigned c crc)
      rw [signedChar_of_lt (UInt8.not_le.mp hc), hentry]
      dsimp only
      rw [if_pos ⟨Ne.symm hnul.1, rfl⟩]
      exact ih (count + 1) _ hnul.2 hrest

/-- The bound of the console's loop is behind the terminator of a name of 32 bytes. -/
theorem crcLoop_bound {char : UInt8 → BitVec 32} (count : ℕ) (crc : BitVec 32)
    (h : count + name.length ≤ 32) :
    crcLoop char (fun n => decide (n ≤ 32)) count crc (name ++ [0]) =
      crcLoop char (fun _ => true) count crc (name ++ [0]) := by
  induction name generalizing count crc with
  | nil =>
    rw [List.nil_append, crcLoop, crcLoop]
    simp
  | cons c name ih =>
    rw [List.length_cons] at h
    have hrest : ∀ crc', crcLoop char (fun n => decide (n ≤ 32)) (count + 1) crc' (name ++ [0]) =
        crcLoop char (fun _ => true) (count + 1) crc' (name ++ [0]) := by
      intro crc'
      exact ih (count + 1) crc' (by omega)
    have hle : decide (count + 1 ≤ 32) = true := decide_eq_true (by omega)
    rw [List.cons_append, crcLoop, crcLoop]
    simp only [hrest, hle]

/-- On a name of at most 32 bytes below `0x80`, the tools compute what the console does. -/
theorem crc32_eq_usbaCrc32 (hlen : name.length ≤ 32) (h : ∀ c ∈ name, c < 0x80) :
    crcOf signedChar (fun _ => true) name = usbaCrc32 name := by
  rw [usbaCrc32, crcOf, crcOf, crcLoop_bound 0 _ (by omega), crcLoop_ascii 0 _ h]

theorem exists_usbaCrc32 (name : List UInt8) : ∃ v, (usbaCrc32 name).1 = some v :=
  (crcLoop_unsigned _ 0 _ name).1

/-- The three functions return the same value, and read the entries that were filled. -/
def CrcsAgree (name : List UInt8) : Prop :=
  (∃ v, (usbaCrc32 name).1 = some v ∧ (Iso2opl.crc32 name).1 = some v ∧
    (Opl2iso.crc32 name).1 = some v) ∧
  ∀ i ∈ (usbaCrc32 name).2 ++ (Iso2opl.crc32 name).2 ++ (Opl2iso.crc32 name).2, 0 ≤ i ∧ i < 256

/-- **When the three checksums agree.** -/
theorem crcsAgree_iff (name : List UInt8) (hlen : name.length ≤ 32) (hnul : 0 ∉ name) :
    CrcsAgree name ↔ ∀ c ∈ name, c < 0x80 := by
  constructor
  · rintro ⟨⟨v, -, hv, -⟩, -⟩ c hc
    by_contra hle
    have hnone := crcLoop_signed_eq_none 0 (crcEntry 255) hnul ⟨c, hc, UInt8.not_lt.mp hle⟩
    rw [Iso2opl.crc32, crcOf, hnone] at hv
    cases hv
  · intro h
    have heq := crc32_eq_usbaCrc32 hlen h
    obtain ⟨v, hv⟩ := exists_usbaCrc32 name
    rw [CrcsAgree, Iso2opl.crc32, Opl2iso.crc32, heq]
    refine ⟨⟨v, hv, hv, hv⟩, fun i hi => ?_⟩
    rw [List.mem_append, List.mem_append, or_self, or_self] at hi
    exact (crcLoop_unsigned _ 0 _ name).2 i hi

theorem crcsAgree_iff_at : (CrcsAgree [71] ↔ ∀ c ∈ [71], (c : UInt8) < 0x80) :=
  crcsAgree_iff [71] (by decide) (by decide)

/-- A title with an `é` of Latin-1. -/
theorem not_crcsAgree_latin : ¬CrcsAgree [80, 111, 107, 0xE9] := by
  rintro ⟨⟨v, -, hv, -⟩, -⟩
  have hnone : (Iso2opl.crc32 [80, 111, 107, 0xE9]).1 = none := by decide
  rw [hnone] at hv
  cases hv

end Loop

end UsbExtreme

end OpenPS2Loader
