import Mathlib.Algebra.Group.Int.Defs
import Mathlib.Data.Int.Notation
import Mathlib.Tactic.SplitIfs
import OpenPS2Loader.Lib.Bytes
import OpenPS2Loader.Lib.Transition

/-!
# Reading files of a disc

`cdrom_read` and `cdrom_lseek` of `cdvdman`'s `ioops.c`, and their twins `IsofsRead` and
`IsofsLseek` of `isofs.c`. A file is a run of sectors; a read is cut into the rest of the sector the
position is in, whole sectors that go straight to the destination, and the front of a last sector.

The two drivers read alike. They do not seek alike: `cdrom_lseek` moves to the end of the file when
the new position would not be in it, and `IsofsLseek` refuses with `-EINVAL` and stays, except from
the end of the file.

`position`, `filesize` and sector numbers are `unsigned int`, sizes and offsets `int`. The device
makes every read.

## Main definitions

* `FileHandle` — `FHANDLE`
* `FileHandle.cdromRead`, `FileHandle.cdromLseek` — the calls of `cdvdman`
* `FileHandle.isofsRead`, `FileHandle.isofsLseek` — the calls of `isofs`
* `FileHandle.Faithful` — what every call of a run has to do

## Main results

* `FileHandle.readPhases_eq` — the pieces of a read are the bytes from the position on
* `FileHandle.run_faithful` — all calls of a run, for both drivers
-/

namespace OpenPS2Loader

/-- `FHANDLE`: the file starts at sector `lsn`. -/
structure FileHandle where
  lsn : ℕ
  filesize : ℕ
  position : ℕ
  deriving DecidableEq

/-- `SEEK_SET`, `SEEK_CUR`, `SEEK_END`, and any other value of `where`. -/
inductive Whence
  | set
  | cur
  | fromEnd
  | other
  deriving DecidableEq

namespace FileHandle

variable {sector : ℕ → ℕ → UInt8} {h : FileHandle}

/-- The bytes of the file, and of what lies behind it on the disc. -/
def fileByte (sector : ℕ → ℕ → UInt8) (h : FileHandle) (k : ℕ) : UInt8 :=
  Bytes.ofSectors sector h.lsn k

/-- The value of an `int` as an `unsigned int`. -/
def toUnsigned (n : ℤ) : ℕ := (n % 2 ^ 32).toNat

/-- The value of an `unsigned int` as an `int`. -/
def toSigned (n : ℕ) : ℤ := if n < 2 ^ 31 then n else n - 2 ^ 32

/-! ### Reading -/

/-- `sceCdRead` or `cdEmuRead` at the position: the first `n` bytes from `skip` on. -/
def readSectors (sector : ℕ → ℕ → UInt8) (h : FileHandle) (skip n : ℕ) : List UInt8 :=
  Bytes.slice (Bytes.ofSectors sector ((h.lsn + h.position / 2048) % 2 ^ 32)) skip n

/-- The handle after `n` bytes. -/
def advance (h : FileHandle) (n : ℕ) : FileHandle :=
  { h with position := (h.position + n) % 2 ^ 32 }

/-- Phase 1: up to the next multiple of 2048. What is left to read, and what was read. -/
def phase1 (sector : ℕ → ℕ → UInt8) (h : FileHandle) (size : ℕ) : FileHandle × ℕ × List UInt8 :=
  let offset := h.position % 2048
  if offset ≠ 0 then
    let nbytes := min size (2048 - offset)
    (h.advance nbytes, size - nbytes, h.readSectors sector offset nbytes)
  else (h, size, [])

/-- Phase 2: whole sectors. -/
def phase2 (sector : ℕ → ℕ → UInt8) (h : FileHandle) (size : ℕ) : FileHandle × ℕ × List UInt8 :=
  let nsectors := size / 2048
  if 0 < nsectors then
    (h.advance (nsectors * 2048), size - nsectors * 2048, h.readSectors sector 0 (nsectors * 2048))
  else (h, size, [])

/-- Phase 3: what does not fill a sector. -/
def phase3 (sector : ℕ → ℕ → UInt8) (h : FileHandle) (size : ℕ) : FileHandle × List UInt8 :=
  if 0 < size then (h.advance size, h.readSectors sector 0 size) else (h, [])

/-- The three phases. -/
def readPhases (sector : ℕ → ℕ → UInt8) (h : FileHandle) (size : ℕ) : FileHandle × List UInt8 :=
  let one := h.phase1 sector size
  let two := one.1.phase2 sector one.2.1
  let three := two.1.phase3 sector two.2.1
  (three.1, one.2.2 ++ two.2.2 ++ three.2)

/-- The size after the comparison with the end of the file, whose sum is `unsigned`. -/
def clippedSize (h : FileHandle) (size : ℕ) : ℕ :=
  if h.filesize < (h.position + size) % 2 ^ 32 then h.filesize - h.position else size

/-- A read that ends at the end of the file: the handle, the result and what was stored. -/
def boundedRead (sector : ℕ → ℕ → UInt8) (h : FileHandle) (size : ℕ) :
    FileHandle × ℤ × List UInt8 :=
  let out := h.readPhases sector (h.clippedSize size)
  (out.1, h.clippedSize size, out.2)

/-- `cdrom_read`. -/
def cdromRead (sector : ℕ → ℕ → UInt8) (h : FileHandle) (size : ℕ) :
    FileHandle × ℤ × List UInt8 := h.boundedRead sector size

/-- `IsofsRead`. -/
def isofsRead (sector : ℕ → ℕ → UInt8) (h : FileHandle) (size : ℕ) :
    FileHandle × ℤ × List UInt8 := h.boundedRead sector size

/-! ### Seeking -/

/-- The new position before any check. -/
def target (h : FileHandle) (offset : ℤ) : Whence → ℕ
  | .set => toUnsigned offset
  | .cur => toUnsigned (h.position + offset)
  | .fromEnd => toUnsigned (h.filesize - offset)
  | .other => h.position

/-- `cdrom_lseek`. -/
def cdromLseek (h : FileHandle) (offset : ℤ) (whence : Whence) : FileHandle × ℤ :=
  let t := h.target offset whence
  if h.filesize < t then ({ h with position := h.filesize }, toSigned h.filesize)
  else ({ h with position := t }, toSigned t)

/-- `IsofsLseek`; `-EINVAL` is `-22`. -/
def isofsLseek (h : FileHandle) (offset : ℤ) (whence : Whence) : FileHandle × ℤ :=
  let t := h.target offset whence
  match whence with
  | .other => (h, -22)
  | .fromEnd => ({ h with position := min t h.filesize }, toSigned t)
  | .set | .cur => if h.filesize < t then (h, -22) else ({ h with position := t }, toSigned t)

/-! ### The phases of a read -/

theorem readSectors_eq (sector : ℕ → ℕ → UInt8) (h : FileHandle) (skip n : ℕ) :
    h.readSectors sector skip n =
      Bytes.slice (h.fileByte sector) (h.position / 2048 * 2048 + skip) n := by
  refine Bytes.slice_congr fun j _ => ?_
  rw [Bytes.ofSectors_add, fileByte, Nat.mul_comm 2048, Nat.add_assoc]

@[simp] theorem advance_zero (h : FileHandle) (hpos : h.position < 2 ^ 32) : h.advance 0 = h := by
  rw [advance, Nat.add_zero, Nat.mod_eq_of_lt hpos]

theorem fileByte_advance (sector : ℕ → ℕ → UInt8) (h : FileHandle) (n : ℕ) :
    (h.advance n).fileByte sector = h.fileByte sector := rfl

theorem advance_advance (h : FileHandle) (m n : ℕ) :
    (h.advance m).advance n = h.advance (m + n) := by
  simp only [advance, FileHandle.mk.injEq, true_and]
  omega

/-- Phase 1 stops at the end of a sector, or has read everything. -/
theorem phase1_eq {size : ℕ} (hlt : h.position + size < 2 ^ 32) :
    ∃ k ≤ size, h.phase1 sector size =
        (h.advance k, size - k, Bytes.slice (h.fileByte sector) h.position k) ∧
      (k < size → (h.position + k) % 2048 = 0) := by
  rw [phase1]
  by_cases hoff : h.position % 2048 = 0
  · refine ⟨0, Nat.zero_le _, ?_, fun _ => hoff⟩
    rw [if_neg (by omega), advance_zero h (by omega)]
    rfl
  · refine ⟨min size (2048 - h.position % 2048), Nat.min_le_left _ _, ?_, fun _ => by omega⟩
    have hpos : h.position / 2048 * 2048 + h.position % 2048 = h.position := by omega
    rw [if_pos hoff]
    dsimp only
    rw [readSectors_eq, hpos]

/-- Phase 2 starts and stops at the end of a sector. -/
theorem phase2_eq {size : ℕ} (hlt : h.position + size < 2 ^ 32)
    (haligned : 0 < size → h.position % 2048 = 0) :
    ∃ k ≤ size, h.phase2 sector size =
        (h.advance k, size - k, Bytes.slice (h.fileByte sector) h.position k) ∧
      (k < size → (h.position + k) % 2048 = 0) := by
  rw [phase2]
  by_cases hn : 0 < size / 2048
  · refine ⟨size / 2048 * 2048, by omega, ?_, fun _ => by omega⟩
    have hpos : h.position / 2048 * 2048 + 0 = h.position := by omega
    rw [if_pos hn, readSectors_eq, hpos]
  · refine ⟨0, Nat.zero_le _, ?_, haligned⟩
    rw [if_neg hn, advance_zero h (by omega)]
    rfl

theorem phase3_eq {size : ℕ} (hlt : h.position + size < 2 ^ 32)
    (haligned : 0 < size → h.position % 2048 = 0) :
    h.phase3 sector size = (h.advance size, Bytes.slice (h.fileByte sector) h.position size) := by
  rw [phase3]
  by_cases hs : 0 < size
  · have hpos : h.position / 2048 * 2048 + 0 = h.position := by omega
    rw [if_pos hs, readSectors_eq, hpos]
  · have h0 : size = 0 := by omega
    rw [if_neg hs, h0, advance_zero h (by omega)]
    rfl

/-- **The phases of a read** store the bytes from the position on. -/
theorem readPhases_eq (sector : ℕ → ℕ → UInt8) {h : FileHandle} {size : ℕ}
    (hlt : h.position + size < 2 ^ 32) :
    h.readPhases sector size =
      (h.advance size, Bytes.slice (h.fileByte sector) h.position size) := by
  obtain ⟨k, hk, h1, hk'⟩ := @phase1_eq sector h size hlt
  have hpos1 : (h.advance k).position = h.position + k := Nat.mod_eq_of_lt (by omega)
  obtain ⟨m, hm, h2, hm'⟩ := @phase2_eq sector (h.advance k) (size - k) (by omega)
    (fun hs => by rw [hpos1]; exact hk' (by omega))
  have hpos2 : ((h.advance k).advance m).position = h.position + k + m := by
    rw [advance_advance]
    exact (Nat.mod_eq_of_lt (by omega)).trans (Nat.add_assoc _ _ _).symm
  have h3 := @phase3_eq sector ((h.advance k).advance m) (size - k - m) (by omega)
    (fun hs => by rw [hpos2, ← hpos1]; exact hm' (by omega))
  have hsize : k + m + (size - k - m) = size := by omega
  rw [readPhases, h1]
  dsimp only
  rw [h2]
  dsimp only
  rw [h3, fileByte_advance, fileByte_advance, hpos2, hpos1, advance_advance, advance_advance,
    ← Bytes.slice_add, Nat.add_assoc h.position k m, ← Bytes.slice_add, hsize, ← Nat.add_assoc,
    hsize]

theorem advance_position_lt (h : FileHandle) (n : ℕ) : (h.advance n).position < 2 ^ 32 :=
  Nat.mod_lt _ (by decide)

/-- Phase 1 moves by what it reads, wherever the position is. -/
theorem phase1_advance (sector : ℕ → ℕ → UInt8) (size : ℕ) (hpos : h.position < 2 ^ 32) :
    ∃ k ≤ size, (h.phase1 sector size).1 = h.advance k ∧ (h.phase1 sector size).2.1 = size - k := by
  rw [phase1]
  split_ifs with hoff
  · exact ⟨min size (2048 - h.position % 2048), Nat.min_le_left _ _, rfl, rfl⟩
  · exact ⟨0, Nat.zero_le _, (advance_zero h hpos).symm, rfl⟩

theorem phase2_advance (sector : ℕ → ℕ → UInt8) (size : ℕ) (hpos : h.position < 2 ^ 32) :
    ∃ k ≤ size, (h.phase2 sector size).1 = h.advance k ∧ (h.phase2 sector size).2.1 = size - k := by
  rw [phase2]
  split_ifs with hn
  · exact ⟨size / 2048 * 2048, by omega, rfl, rfl⟩
  · exact ⟨0, Nat.zero_le _, (advance_zero h hpos).symm, rfl⟩

theorem phase3_advance (sector : ℕ → ℕ → UInt8) (size : ℕ) (hpos : h.position < 2 ^ 32) :
    (h.phase3 sector size).1 = h.advance size := by
  rw [phase3]
  split_ifs with hs
  · rfl
  · have h0 : size = 0 := by omega
    rw [h0, advance_zero h hpos]

/-- The phases move by the size of the read. -/
theorem readPhases_advance (sector : ℕ → ℕ → UInt8) (size : ℕ) (hpos : h.position < 2 ^ 32) :
    (h.readPhases sector size).1 = h.advance size := by
  obtain ⟨k, hk, h1, hk'⟩ := phase1_advance sector size hpos
  obtain ⟨m, hm, h2, hm'⟩ :=
    phase2_advance sector (size - k) (advance_position_lt h k)
  have hsize : k + (m + (size - k - m)) = size := by omega
  rw [readPhases]
  dsimp only
  rw [h1, hk', h2, hm', phase3_advance _ _ (advance_position_lt _ m), advance_advance,
    advance_advance, hsize]

/-! ### Runs -/

/-- The two drivers. -/
inductive Driver
  | cdrom
  | isofs
  deriving DecidableEq

/-- A call on an open handle; the size of a read is not negative. -/
inductive Op
  | lseek (offset : ℤ) (whence : Whence)
  | read (size : ℕ)

/-- A call: the handle, the result and what was stored. -/
def step (sector : ℕ → ℕ → UInt8) (h : FileHandle) : Driver → Op → FileHandle × ℤ × List UInt8
  | .cdrom, .lseek offset whence =>
    ((h.cdromLseek offset whence).1, (h.cdromLseek offset whence).2, [])
  | .isofs, .lseek offset whence =>
    ((h.isofsLseek offset whence).1, (h.isofsLseek offset whence).2, [])
  | .cdrom, .read size => h.cdromRead sector size
  | .isofs, .read size => h.isofsRead sector size

/-- A call leaves the position in the file. A read whose end is below `2 ^ 32` gives what the file
has from the position on, up to the size, and moves behind it. -/
def Faithful (sector : ℕ → ℕ → UInt8) (h : FileHandle) (driver : Driver) : Op → Prop
  | .lseek offset whence =>
    let out := h.step sector driver (.lseek offset whence)
    out.1.position ≤ out.1.filesize ∧ out.1.filesize = h.filesize
  | .read size =>
    let out := h.step sector driver (.read size)
    let n := min size (h.filesize - h.position)
    out.1.position ≤ out.1.filesize ∧ out.1.filesize = h.filesize ∧
      (h.position + size < 2 ^ 32 →
        out = ({ h with position := h.position + n }, (n : ℤ),
          Bytes.slice (h.fileByte sector) h.position n))

/-- All calls of a run. -/
def AllFaithful (sector : ℕ → ℕ → UInt8) (driver : Driver) : FileHandle → List Op → Prop
  | _, [] => True
  | h, op :: ops => h.Faithful sector driver op ∧
      AllFaithful sector driver (h.step sector driver op).1 ops

/-- A read of either driver. -/
theorem boundedRead_faithful (hpos : h.position ≤ h.filesize) (hsize : h.filesize < 2 ^ 32)
    (size : ℕ) :
    (h.boundedRead sector size).1.position ≤ (h.boundedRead sector size).1.filesize ∧
      (h.boundedRead sector size).1.filesize = h.filesize ∧
      (h.position + size < 2 ^ 32 →
        h.boundedRead sector size =
          ({ h with position := h.position + min size (h.filesize - h.position) },
            ((min size (h.filesize - h.position) : ℕ) : ℤ),
            Bytes.slice (h.fileByte sector) h.position (min size (h.filesize - h.position)))) := by
  have hadvance := readPhases_advance sector (h.clippedSize size)
    (show h.position < 2 ^ 32 by omega)
  refine ⟨?_, ?_, fun hlt => ?_⟩
  · rw [boundedRead]
    dsimp only
    rw [hadvance]
    show (h.position + h.clippedSize size) % 2 ^ 32 ≤ h.filesize
    rw [clippedSize]
    split_ifs <;> omega
  · rw [boundedRead]
    dsimp only
    rw [hadvance]
    rfl
  · have hclip : h.clippedSize size = min size (h.filesize - h.position) := by
      rw [clippedSize, Nat.mod_eq_of_lt hlt]
      split_ifs <;> omega
    have hend : h.position + min size (h.filesize - h.position) < 2 ^ 32 := by omega
    rw [boundedRead, hclip, readPhases_eq sector hend, advance, Nat.mod_eq_of_lt hend]

/-- One call of either driver. -/
theorem faithful_of_position_le (hpos : h.position ≤ h.filesize) (hsize : h.filesize < 2 ^ 32)
    (driver : Driver) (op : Op) : h.Faithful sector driver op := by
  cases op with
  | read size =>
    cases driver with
    | cdrom => exact boundedRead_faithful hpos hsize size
    | isofs => exact boundedRead_faithful hpos hsize size
  | lseek offset whence =>
    cases driver with
    | cdrom =>
      rw [Faithful, step, cdromLseek]
      split_ifs with hlt
      · exact ⟨Nat.le_refl _, rfl⟩
      · exact ⟨Nat.le_of_not_lt hlt, rfl⟩
    | isofs =>
      rw [Faithful, step]
      cases whence with
      | set =>
        rw [isofsLseek]
        split_ifs with hlt
        · exact ⟨hpos, rfl⟩
        · exact ⟨Nat.le_of_not_lt hlt, rfl⟩
      | cur =>
        rw [isofsLseek]
        split_ifs with hlt
        · exact ⟨hpos, rfl⟩
        · exact ⟨Nat.le_of_not_lt hlt, rfl⟩
      | fromEnd => exact ⟨Nat.min_le_right _ _, rfl⟩
      | other => exact ⟨hpos, rfl⟩

/-- The calls of `isofs` beside those of `cdvdman`: reads are the same, and so are seeks into the
file. Other seeks are refused by `isofs`, except that from the end of the file it moves as `cdvdman`
does. -/
structure Twin (sector : ℕ → ℕ → UInt8) (h : FileHandle) : Prop where
  read : ∀ size, h.isofsRead sector size = h.cdromRead sector size
  lseek : ∀ offset whence, whence ≠ .other → h.target offset whence ≤ h.filesize →
    h.isofsLseek offset whence = h.cdromLseek offset whence
  refused : ∀ offset whence, whence ≠ .other → whence ≠ .fromEnd →
    h.filesize < h.target offset whence → h.isofsLseek offset whence = (h, -22)
  other : ∀ offset, h.isofsLseek offset .other = (h, -22)
  fromEnd : ∀ offset, (h.isofsLseek offset .fromEnd).1 = (h.cdromLseek offset .fromEnd).1

theorem twin (sector : ℕ → ℕ → UInt8) (h : FileHandle) : h.Twin sector where
  read _ := rfl
  lseek offset whence hne hle := by
    rw [cdromLseek, if_neg (Nat.not_lt.mpr hle)]
    cases whence with
    | set => rw [isofsLseek, if_neg (Nat.not_lt.mpr hle)]
    | cur => rw [isofsLseek, if_neg (Nat.not_lt.mpr hle)]
    | fromEnd => rw [isofsLseek, Nat.min_eq_left hle]
    | other => exact absurd rfl hne
  refused offset whence hne hne' hlt := by
    cases whence with
    | set => rw [isofsLseek, if_pos hlt]
    | cur => rw [isofsLseek, if_pos hlt]
    | fromEnd => exact absurd rfl hne'
    | other => exact absurd rfl hne
  other _ := rfl
  fromEnd offset := by
    rw [isofsLseek, cdromLseek]
    split_ifs with hlt
    · rw [Nat.min_eq_right (Nat.le_of_lt hlt)]
    · rw [Nat.min_eq_left (Nat.le_of_not_lt hlt)]

/-- **All calls of a run**, for both drivers, and one driver beside the other. -/
theorem run_faithful (sector : ℕ → ℕ → UInt8) {h : FileHandle} (hpos : h.position ≤ h.filesize)
    (hsize : h.filesize < 2 ^ 32) (driver : Driver) (ops : List Op) :
    AllFaithful sector driver h ops ∧ ∀ h' : FileHandle, h'.Twin sector := by
  refine ⟨?_, twin sector⟩
  induction ops generalizing h with
  | nil => trivial
  | cons op ops ih =>
    have hop : h.Faithful sector driver op := faithful_of_position_le hpos hsize driver op
    refine ⟨hop, ?_⟩
    cases op with
    | read size =>
      obtain ⟨hpos', hsize', -⟩ := hop
      exact ih hpos' (hsize' ▸ hsize)
    | lseek offset whence =>
      obtain ⟨hpos', hsize'⟩ := hop
      exact ih hpos' (hsize' ▸ hsize)

/-- A file of three sectors and a half, read from the middle. -/
theorem run_faithful_middle :
    AllFaithful (fun _ k => UInt8.ofNat k) .cdrom ⟨100, 7168, 0⟩
      [.lseek 1000 .set, .read 5000, .lseek (-1) .cur, .read 5000] :=
  (run_faithful _ (by decide) (by decide) _ _).1

/-- A seek behind the end of a file: `cdvdman` moves to its end, `isofs` refuses. And a read whose
end is not below `2 ^ 32`: the sum wraps, and the size is not cut. -/
theorem isofsLseek_ne_cdromLseek :
    (⟨100, 10, 0⟩ : FileHandle).isofsLseek 11 .set ≠
        (⟨100, 10, 0⟩ : FileHandle).cdromLseek 11 .set ∧
      ((⟨100, 0xF0000001, 0xF0000000⟩ : FileHandle).cdromRead (fun _ _ => 0) 0x20000000).2.1 ≠
        min 0x20000000 (0xF0000001 - 0xF0000000) := by
  have hread : ((⟨100, 0xF0000001, 0xF0000000⟩ : FileHandle).cdromRead
      (fun _ _ => 0) 0x20000000).2.1 = 0x20000000 := rfl
  rw [hread]
  decide

end FileHandle

end OpenPS2Loader
