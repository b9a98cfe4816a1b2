import OpenPS2Loader.Cdvdman.SectorCache
import OpenPS2Loader.Lib.Bytes

/-!
# Raw access to a compressed image

`read_raw_data`, which `zso.c` leaves to its users: read bytes at an arbitrary position of the
file, given as an offset in units of `2 ^ shift` bytes. `cdvdman.c` has only sectors to read, and
goes through the sector cache except for the block index; `isofs.c` has a file to seek in.

Reads of the device are taken to succeed here: none of the callers looks at their result.

## Main definitions

* `RawRead` — the interface
* `Reads` — what the reader of `zso.c` needs of it
* `Cdvdman.readRawData`, `Isofs.readRawData` — the two implementations

## Main results

* `Cdvdman.reads_readRawData`, `Isofs.reads_readRawData`
-/

namespace OpenPS2Loader

namespace Zso

open Bytes

variable {σ : Type} {file : List UInt8}

/-- `read_raw_data(addr, size, offset, shift)`. The arguments are the state of the device, whether
`addr` is the index cache, what `ziso_tmp_buf` and the `size` bytes at `addr` hold before the call,
and `offset` and `shift`. The results are what they hold after it. -/
abbrev RawRead (σ : Type) :=
  σ → Bool → List UInt8 → List UInt8 → ℕ → ℕ → Option (σ × List UInt8 × List UInt8)

/-- The medium has the bytes of the file where the file has bytes. -/
def Agrees (file : List UInt8) (disk : ℕ → UInt8) : Prop :=
  ∀ i b, file[i]? = some b → disk i = b

theorem Agrees.slice_eq {disk : ℕ → UInt8} (h : Agrees file disk) {p n : ℕ}
    (hlen : p + n ≤ file.length) : slice disk p n = (file.drop p).take n := by
  refine slice_eq_of_getElem? ?_ fun i hi => ?_
  · rw [List.length_take, List.length_drop]
    omega
  · have hget : file[p + i]? = some (file.get ⟨p + i, by omega⟩) := List.getElem?_eq_getElem _
    rw [List.getElem?_take_of_lt hi, List.getElem?_drop, hget, h _ _ hget]

/-- `raw` reads the file, in all states with `Good`. What it stores for positions behind the end of
the file is not said. A `shift` that leaves no sector size divides by zero. -/
structure Reads (file : List UInt8) (raw : RawRead σ) (Good : σ → Prop) : Prop where
  read : ∀ st toIndex tmp dest offset shift, Good st → tmp.length = 2048 → shift ≤ 11 →
    offset < 2 ^ 32 → dest.length < 2 ^ 32 → ∃ st' tmp' disk,
      raw st toIndex tmp dest offset shift =
          some (st', tmp', slice disk (offset * 2 ^ shift) dest.length) ∧
        Agrees file disk ∧ Good st' ∧ tmp'.length = 2048
  fault : ∀ st toIndex tmp dest offset shift, 12 ≤ shift →
    raw st toIndex tmp dest offset shift = none

/-- `offset / (2048 >> shift)` and `(offset << shift) & 2047` are the sector and the position in
it. There is no sector size left when `shift` is too large. -/
def locate (offset shift : ℕ) : Option (ℕ × ℕ) :=
  if 2048 >>> shift = 0 then none
  else some (offset / (2048 >>> shift), (offset <<< shift) % 2048)

theorem locate_of_le (offset : ℕ) {shift : ℕ} (h : shift ≤ 11) :
    ∃ lba pos, locate offset shift = some (lba, pos) ∧ pos < 2048 ∧
      2048 * lba + pos = offset * 2 ^ shift := by
  have hsize : 2048 >>> shift * 2 ^ shift = 2048 := by
    rw [Nat.shiftRight_eq_div_pow, Nat.div_mul_cancel]
    exact Nat.pow_dvd_pow 2 h
  have hpos : 0 < 2048 >>> shift := by
    refine Nat.pos_of_ne_zero fun h0 => ?_
    rw [h0, Nat.zero_mul] at hsize
    exact absurd hsize (by decide)
  refine ⟨_, _, if_neg (Nat.ne_of_gt hpos), Nat.mod_lt _ (by decide), ?_⟩
  -- the sector number is the quotient of the shifted offset
  have hlba : offset / (2048 >>> shift) = offset * 2 ^ shift / 2048 := by
    conv_rhs => rw [← hsize]
    rw [Nat.mul_div_mul_right _ _ (Nat.two_pow_pos shift)]
  rw [hlba, Nat.shiftLeft_eq, Nat.div_add_mod]

theorem locate_eq_none {offset shift : ℕ} (h : 12 ≤ shift) : locate offset shift = none := by
  rw [locate, if_pos]
  rw [Nat.shiftRight_eq_div_pow, Nat.div_eq_of_lt]
  exact Nat.lt_of_lt_of_le (by decide) (Nat.pow_le_pow_right (by decide) h)

namespace Cdvdman

/-! ### Through the sector cache -/

variable {disk : ℕ → UInt8}

/-- The sectors of the device. -/
def sector (disk : ℕ → UInt8) (lba : ℕ) : List UInt8 := slice disk (2048 * lba) 2048

/-- `ReadSectors`: `DeviceReadSectors` for the index, `DeviceReadSectorsCached` for the data. -/
def readSectors (disk : ℕ → UInt8) (toIndex : Bool) (s : SectorCache (List UInt8))
    (lba sectors : ℕ) : Option (SectorCache (List UInt8) × List UInt8) :=
  if toIndex then
    some (s, ((List.range sectors).map
      (SectorCache.deviceReadSectors (sector disk) lba ⟨0, fun _ => []⟩).2).flatten)
  else
    let (s, _, data) :=
      s.deviceReadSectorsCached (sector disk) ⟨lba, sectors, ⟨0, fun _ => []⟩⟩
    data.map fun data => (s, data.flatten)

/-- A transfer under way: the bytes stored, the number of bytes left and the next sector. -/
structure Transfer where
  cache : SectorCache (List UInt8)
  tmp : List UInt8
  stored : List UInt8
  size : ℕ
  lba : ℕ

/-- The bytes up to a sector boundary. -/
def readFirst (disk : ℕ → UInt8) (toIndex : Bool) (pos : ℕ) (t : Transfer) : Option Transfer :=
  if pos ≠ 0 then
    let r := min t.size (2048 - pos)
    (readSectors disk toIndex t.cache t.lba 1).map fun (cache, tmp) =>
      ⟨cache, tmp, t.stored ++ (tmp.drop pos).take r, t.size - r, t.lba + 1⟩
  else some t

/-- `n_blocks`: the sectors that are touched from a sector boundary on. -/
def blocks (size : ℕ) : ℕ := size / 2048 + if size % 2048 ≠ 0 then 1 else 0

/-- The intermediate sectors, if more than one sector is left. -/
def readMiddle (disk : ℕ → UInt8) (toIndex : Bool) (t : Transfer) : Option Transfer :=
  let n := blocks t.size
  if 1 < n then
    (readSectors disk toIndex t.cache t.lba (n - 1)).map fun (cache, data) =>
      ⟨cache, t.tmp, t.stored ++ data, t.size - 2048 * (n - 1), t.lba + (n - 1)⟩
  else some t

/-- The remaining data. -/
def readRest (disk : ℕ → UInt8) (toIndex : Bool) (t : Transfer) : Option Transfer :=
  if t.size ≠ 0 then
    (readSectors disk toIndex t.cache t.lba 1).map fun (cache, tmp) =>
      ⟨cache, tmp, t.stored ++ tmp.take t.size, 0, t.lba⟩
  else some t

/-- `read_raw_data` of `cdvdman.c`. -/
def readRawData (disk : ℕ → UInt8) : RawRead (SectorCache (List UInt8)) :=
  fun s toIndex tmp dest offset shift => do
    let (lba, pos) ← locate offset shift
    let t ← readFirst disk toIndex pos ⟨s, tmp, [], dest.length, lba⟩
    let t ← readMiddle disk toIndex t
    let t ← readRest disk toIndex t
    some (t.cache, t.tmp, t.stored)

/-- The transfer at the end of `read_raw_data`. What is left of `size` is taken from the number that
is returned. -/
def transfer (disk : ℕ → UInt8) (s : SectorCache (List UInt8)) (toIndex : Bool)
    (tmp : List UInt8) (size offset shift : ℕ) : Option Transfer := do
  let (lba, pos) ← locate offset shift
  let t ← readFirst disk toIndex pos ⟨s, tmp, [], size, lba⟩
  let t ← readMiddle disk toIndex t
  readRest disk toIndex t

theorem readRawData_eq_transfer (disk : ℕ → UInt8) (s : SectorCache (List UInt8)) (toIndex : Bool)
    (tmp dest : List UInt8) (offset shift : ℕ) :
    readRawData disk s toIndex tmp dest offset shift =
      (transfer disk s toIndex tmp dest.length offset shift).map fun t =>
        (t.cache, t.tmp, t.stored) := by
  rw [readRawData, transfer]
  simp only [Option.bind_eq_bind, Option.map_eq_bind, Option.bind_assoc]
  rfl

theorem flatten_sectors (disk : ℕ → UInt8) (lba sectors : ℕ) :
    ((List.range sectors).map fun i => sector disk (lba + i)).flatten =
      slice disk (2048 * lba) (2048 * sectors) := by
  induction sectors with
  | zero => rfl
  | succ n ih =>
    rw [List.range_succ, List.map_append, List.flatten_append, ih, Nat.mul_succ, slice_add,
      ← Nat.mul_add]
    simp [sector]

/-- The sectors that were asked for are read, through the cache or not. -/
theorem readSectors_eq {s : SectorCache (List UInt8)} (hs : s.Honest (sector disk))
    (toIndex : Bool) (lba sectors : ℕ) (h : lba + sectors < 2 ^ 64) :
    ∃ s', readSectors disk toIndex s lba sectors =
      some (s', slice disk (2048 * lba) (2048 * sectors)) ∧
        s'.Honest (sector disk) := by
  cases toIndex with
  | true =>
    refine ⟨s, ?_, hs⟩
    rw [readSectors, if_pos rfl, ← flatten_sectors]
    simp only [SectorCache.deviceReadSectors, if_true]
  | false =>
    have hserved := SectorCache.Served.of_not_refillFails (c := ⟨lba, sectors, ⟨0, fun _ => []⟩⟩)
      hs h fun hfail => hfail.2.2 rfl
    have hcode : (SectorCache.deviceReadSectorsCached (sector disk) s
        ⟨lba, sectors, ⟨0, fun _ => []⟩⟩).2.1 = 0 := by
      rw [SectorCache.deviceReadSectorsCached]
      split_ifs <;> rfl
    refine ⟨_, ?_, hserved.honest⟩
    rw [readSectors, if_neg Bool.false_ne_true, ← flatten_sectors]
    simp only [hserved.success hcode, Option.map_some, SectorCache.onDevice]

/-- What holds while `n` bytes from position `p` on are read: those stored are on the device, and
those left start at a sector boundary. -/
structure Transfer.Ok (disk : ℕ → UInt8) (p n : ℕ) (t : Transfer) : Prop where
  honest : t.cache.Honest (sector disk)
  tmp : t.tmp.length = 2048
  le : t.size ≤ n
  stored : t.stored = slice disk p (n - t.size)
  aligned : t.size ≠ 0 → 2048 * t.lba = p + (n - t.size)

theorem readFirst_ok {pos n : ℕ} {t : Transfer} (toIndex : Bool)
    (hs : t.cache.Honest (sector disk)) (htmp : t.tmp.length = 2048) (hsize : t.size = n)
    (hstored : t.stored = []) (hpos : pos < 2048) (hlba : t.lba + 1 < 2 ^ 64) :
    ∃ t', readFirst disk toIndex pos t = some t' ∧ t'.Ok disk (2048 * t.lba + pos) n := by
  rw [readFirst]
  split_ifs with h
  · obtain ⟨s', hread, hs'⟩ := readSectors_eq hs toIndex t.lba 1 hlba
    refine ⟨_, by rw [hread]; rfl, hs', length_slice _ _ _, by dsimp only; omega, ?_, ?_⟩
    · dsimp only
      rw [hstored, List.nil_append, Nat.mul_one, drop_slice _ _ (Nat.le_of_lt hpos),
        take_slice _ _ (Nat.min_le_right _ _), hsize]
      congr 1
      omega
    · dsimp only
      intro hleft
      omega
  · have hpos : pos = 0 := by omega
    refine ⟨t, rfl, hs, htmp, Nat.le_of_eq hsize, ?_, fun _ => by omega⟩
    rw [hstored, hsize, Nat.sub_self, slice_zero]

theorem blocks_bounds (size : ℕ) : size ≤ 2048 * blocks size ∧
    2048 * blocks size < size + 2048 := by
  rw [blocks]
  split_ifs <;> omega

theorem readMiddle_ok {p n : ℕ} {t : Transfer} (toIndex : Bool) (ht : t.Ok disk p n)
    (hp : p + n < 2 ^ 64) :
    ∃ t', readMiddle disk toIndex t = some t' ∧ t'.Ok disk p n ∧ t'.size ≤ 2048 := by
  have hle := ht.le
  obtain ⟨hblocks, hblocks'⟩ := blocks_bounds t.size
  rw [readMiddle]
  dsimp only
  split_ifs with h
  · have haligned := ht.aligned (by omega)
    obtain ⟨s', hread, hs'⟩ := readSectors_eq ht.honest toIndex t.lba (blocks t.size - 1)
      (by omega)
    rw [hread]
    refine ⟨_, rfl, ⟨hs', ht.tmp, by dsimp only; omega, ?_, fun _ => ?_⟩, ?_⟩
    · dsimp only
      rw [ht.stored, haligned, ← slice_add]
      congr 1
      omega
    · dsimp only
      omega
    · dsimp only
      omega
  · exact ⟨t, rfl, ht, by omega⟩

theorem readRest_ok {p n : ℕ} {t : Transfer} (toIndex : Bool) (ht : t.Ok disk p n)
    (hsize : t.size ≤ 2048) (hp : p + n < 2 ^ 64) :
    ∃ t', readRest disk toIndex t = some t' ∧ t'.Ok disk p n ∧ t'.size = 0 := by
  rw [readRest]
  split_ifs with h
  · have haligned := ht.aligned h
    have hle := ht.le
    obtain ⟨s', hread, hs'⟩ := readSectors_eq ht.honest toIndex t.lba 1 (by omega)
    refine ⟨_, by rw [hread]; rfl, ⟨hs', length_slice _ _ _, Nat.zero_le n, ?_, ?_⟩, rfl⟩
    · dsimp only
      rw [ht.stored, take_slice _ _ (by omega), haligned, ← slice_add]
      congr 1
      omega
    · exact fun h0 => absurd rfl h0
  · exact ⟨t, rfl, ht, by omega⟩

/-- All of the bytes are read, and nothing is left. -/
theorem transfer_ok {s : SectorCache (List UInt8)} (hs : s.Honest (sector disk)) (toIndex : Bool)
    {tmp : List UInt8} (htmp : tmp.length = 2048) {size offset shift : ℕ} (hshift : shift ≤ 11)
    (hoffset : offset < 2 ^ 32) (hsize : size < 2 ^ 32) :
    ∃ t, transfer disk s toIndex tmp size offset shift = some t ∧
      t.Ok disk (offset * 2 ^ shift) size ∧ t.size = 0 := by
  obtain ⟨lba, pos, hlocate, hpos, heq⟩ := locate_of_le offset hshift
  have hbound : offset * 2 ^ shift < 2 ^ 44 := by
    have hpow : 2 ^ shift ≤ 2 ^ 11 := Nat.pow_le_pow_right (by decide) hshift
    have hmul := Nat.mul_le_mul (Nat.le_of_lt hoffset) hpow
    omega
  obtain ⟨t₁, h₁, ok₁⟩ := readFirst_ok (t := ⟨s, tmp, [], size, lba⟩) toIndex hs htmp rfl rfl
    hpos (by dsimp only; omega)
  obtain ⟨t₂, h₂, ok₂, hle⟩ := readMiddle_ok toIndex ok₁ (by dsimp only; omega)
  obtain ⟨t₃, h₃, ok₃, hzero⟩ := readRest_ok toIndex ok₂ hle (by dsimp only; omega)
  rw [← heq]
  refine ⟨t₃, ?_, ok₃, hzero⟩
  rw [transfer, hlocate]
  simp only [Option.bind_eq_bind, Option.bind_some, h₁, h₂, h₃]

/-- **`cdvdman.c` reads the image.** -/
theorem reads_readRawData (hdisk : Agrees file disk) :
    Reads file (readRawData disk) fun s => s.Honest (sector disk) := by
  refine ⟨fun s toIndex tmp dest offset shift hs htmp hshift hoffset hdest => ?_,
    fun s toIndex tmp dest offset shift h => by rw [readRawData, locate_eq_none h]; rfl⟩
  obtain ⟨t, ht, hok, hzero⟩ := transfer_ok hs toIndex htmp hshift hoffset hdest
  refine ⟨t.cache, t.tmp, disk, ?_, hdisk, hok.honest, hok.tmp⟩
  have hstored := hok.stored
  rw [hzero, Nat.sub_zero] at hstored
  rw [readRawData_eq_transfer, ht, Option.map_some, hstored]

end Cdvdman

namespace Isofs

/-! ### In a file -/

/-- `INT_MAX / 2048`, the longest way one `lseek` goes. -/
def maxSeek : ℕ := 1048575

/-- The loop of `longLseek`: the file position after it. -/
def seekRest (pos remaining : ℕ) : ℕ :=
  if _h : remaining = 0 then pos
  else
    let toSeek := if maxSeek < remaining then maxSeek else remaining
    seekRest (pos + toSeek * 2048) (remaining - toSeek)
termination_by remaining
decreasing_by
  rw [maxSeek]
  split_ifs <;> omega

/-- `longLseek`. -/
def longLseek (lba : ℕ) : ℕ :=
  if maxSeek < lba then seekRest (maxSeek * 2048) (lba - maxSeek) else lba * 2048

/-- `read_raw_data` of `isofs.c`. A read at the end of the file stores less than was asked for. -/
def readRawData (file : List UInt8) : RawRead Unit :=
  fun st _ tmp dest offset shift => do
    let (lba, pos) ← locate offset shift
    let data := (file.drop (longLseek lba + pos)).take dest.length
    some (st, tmp, overwrite dest 0 data)

theorem seekRest_eq (pos remaining : ℕ) : seekRest pos remaining = pos + remaining * 2048 := by
  induction pos, remaining using seekRest.induct with
  | case1 pos => rw [seekRest, dif_pos rfl, Nat.zero_mul, Nat.add_zero]
  | case2 pos remaining h toSeek ih =>
    have hle : toSeek ≤ remaining := by
      simp only [toSeek]
      split_ifs with hlt
      · exact Nat.le_of_lt hlt
      · exact Nat.le_refl remaining
    rw [seekRest, dif_neg h]
    change seekRest (pos + toSeek * 2048) (remaining - toSeek) = _
    rw [ih]
    omega

theorem longLseek_eq (lba : ℕ) : longLseek lba = 2048 * lba := by
  rw [longLseek]
  split_ifs with h
  · rw [seekRest_eq]
    omega
  · exact Nat.mul_comm lba 2048

/-- **`isofs.c` reads the image.** -/
theorem reads_readRawData (file : List UInt8) :
    Reads file (readRawData file) fun _ => True := by
  refine ⟨fun st _ tmp dest offset shift _ htmp hshift _ _ => ?_,
    fun s toIndex tmp dest offset shift h => by rw [readRawData, locate_eq_none h]; rfl⟩
  obtain ⟨lba, pos, hlocate, _, heq⟩ := locate_of_le offset hshift
  -- behind the end of the file the destination keeps what it holds
  refine ⟨st, tmp, fun i => (file[i]?).getD (dest.getD (i - offset * 2 ^ shift) 0), ?_,
    fun i b hb => by dsimp only; rw [hb]; rfl, trivial, htmp⟩
  rw [readRawData, hlocate]
  simp only [Option.bind_eq_bind, Option.bind_some, longLseek_eq, heq]
  congr 3
  symm
  set p := offset * 2 ^ shift
  have hlen : ((file.drop p).take dest.length).length ≤ dest.length := by
    rw [List.length_take]
    exact Nat.min_le_left _ _
  refine slice_eq_of_getElem? ?_ fun i hi => ?_
  · exact length_overwrite (by omega)
  · rw [overwrite, List.take_zero, List.nil_append, Nat.zero_add, List.getElem?_append,
      List.length_take, List.length_drop]
    split_ifs with h
    · rw [List.getElem?_take_of_lt hi, List.getElem?_drop, List.getElem?_eq_getElem (by omega)]
      rfl
    · rw [List.getElem?_drop, List.getElem?_eq_none (l := file) (by omega), Nat.add_sub_cancel_left,
        Option.getD_none, Nat.add_sub_cancel' (by omega)]
      simp [List.getD_eq_getElem?_getD, hi]

end Isofs

end Zso

end OpenPS2Loader
