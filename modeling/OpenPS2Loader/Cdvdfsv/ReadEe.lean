import Mathlib.Data.List.Nodup
import OpenPS2Loader.Lib.Bytes

/-!
# Disc reads into EE memory

`cdvd_readee` of `cdvdfsv`, for sectors of 2048 bytes: the sectors come into a work buffer on the
IOP and go from there to EE memory by DMA, in chunks, to addresses that are multiples of 64. For a
destination that is no such multiple, the bytes in front of the first multiple and those behind the
last one are put into `buf1` and `buf2`, which the EE copies to their places itself.

Each chunk then starts `b1len` bytes into its first sector, and ends as far in the sector behind it:
one sector more than the chunk has is read. The last chunk ends 64 bytes earlier.

Addresses and sector numbers are `u32`. The records that tell the EE about the state of the call go
by DMA as well, to places of their own; they are left out.

## Main definitions

* `ReadEe` — a call: the destination, the first sector and the number of sectors
* `ReadEe.Progress`, `ReadEe.pass` — the loop variables, and one pass of the loop
* `ReadEe.readee` — the whole call
* `ReadEe.writes` — the stores into EE memory

## Main results

* `ReadEe.readee_writes` — every byte of the destination is written once, with the byte of the disc
  it should have, and nothing else is
-/

namespace OpenPS2Loader

/-- `CDVDMAN_FS_SECTORS`. -/
def fsSectors : ℕ := 8

/-- A call of `cdvd_readee`, after the mask `0x1fffffff` on the address. -/
structure ReadEe where
  buf : ℕ
  lsn : ℕ
  sectors : ℕ
  buf_lt : buf < 2 ^ 29
  lsn_lt : lsn < 2 ^ 32
  sectors_pos : 0 < sectors

/-- The drive: its sectors, and what it answers to the reads and to the questions for an abort. -/
structure Drive where
  sector : ℕ → ℕ → UInt8
  reads : ℕ → Bool
  aborted : ℕ → Bool

namespace Drive

/-- The bytes of the disc from a sector on. -/
def bytes (d : Drive) (lsn k : ℕ) : UInt8 := Bytes.ofSectors d.sector lsn k

theorem bytes_add (d : Drive) (lsn n k : ℕ) :
    d.bytes ((lsn + n) % 2 ^ 32) k = d.bytes lsn (2048 * n + k) := Bytes.ofSectors_add ..

/-- The drive makes every read, and no abort is signalled. -/
structure Sound (d : Drive) : Prop where
  reads : ∀ k, d.reads k = true
  aborted : ∀ k, d.aborted k = false

/-- The drive after a read. -/
def next (d : Drive) : Drive :=
  { d with reads := fun k => d.reads (k + 1), aborted := fun k => d.aborted (k + 1) }

theorem Sound.next {d : Drive} (h : d.Sound) : d.next.Sound :=
  ⟨fun k => h.reads (k + 1), fun k => h.aborted (k + 1)⟩

end Drive

namespace ReadEe

variable {r : ReadEe} {d : Drive}

/-! ### Alignment -/

/-- `eeaddr_64b`: the first multiple of 64 in the destination. -/
def eeaddr64b (r : ReadEe) : ℕ := (r.buf + 0x3f) / 64 * 64

/-- `b1len`: the bytes in front of it. -/
def b1len (r : ReadEe) : ℕ := if r.buf % 64 = 0 then 0 else r.buf / 64 * 64 + 64 - r.buf

/-- `nbytes`. -/
def nbytes (r : ReadEe) : ℕ := r.sectors * 2048 % 2 ^ 32

/-- The address behind the destination. -/
def endAddr (r : ReadEe) : ℕ := (r.buf + r.nbytes) % 2 ^ 32

/-- `eeaddr2_64b`: the last multiple of 64 in the destination. -/
def eeaddr264b (r : ReadEe) : ℕ := r.endAddr / 64 * 64

/-- `b2len`: the bytes behind it. -/
def b2len (r : ReadEe) : ℕ := r.endAddr - r.eeaddr264b

/-- `flag_64b`. -/
def flag64b (r : ReadEe) : Bool := r.b1len == 0 && r.b2len == 0

theorem b1len_eq (r : ReadEe) : r.b1len = (64 - r.buf % 64) % 64 := by
  rw [b1len]
  split_ifs <;> omega

theorem b2len_eq (r : ReadEe) : r.b2len = r.buf % 64 := by
  rw [b2len, eeaddr264b, endAddr, nbytes]
  omega

theorem eeaddr64b_eq (r : ReadEe) : r.eeaddr64b = r.buf + r.b1len := by
  rw [b1len_eq, eeaddr64b]
  omega

/-! ### The loop -/

/-- What the loop has done. -/
structure Progress where
  /-- `cdvdfsv_buf` -/
  work : ℕ → UInt8
  buf1 : List UInt8
  buf2 : List UInt8
  sectorsToRead : ℕ
  lsn : ℕ
  eeaddr : ℕ
  bytesent : ℕ
  /-- the DMA transfers: an address and the bytes -/
  dmas : List (ℕ × List UInt8)
  /-- the parts of the work buffer that were accessed: where they start and how long they are -/
  accesses : List (ℕ × ℕ)

/-- The variables in front of the loop. -/
def start (r : ReadEe) (work : ℕ → UInt8) : Progress where
  work := work
  buf1 := []
  buf2 := []
  sectorsToRead := r.sectors
  lsn := r.lsn
  eeaddr := r.eeaddr64b
  bytesent := 0
  dmas := []
  accesses := []

/-- The number of sectors of the next chunk. -/
def chunk (r : ReadEe) (sectorsToRead : ℕ) : ℕ :=
  if r.flag64b then (if sectorsToRead < fsSectors then sectorsToRead else fsSectors)
  else if sectorsToRead < fsSectors - 1 then sectorsToRead else fsSectors - 1

/-- The number of sectors that are read for it. -/
def chunkRead (r : ReadEe) (nsectors : ℕ) : ℕ := if r.flag64b then nsectors else nsectors + 1

/-- `size_64bb`: the number of bytes of the DMA transfer. -/
def dmaSize (r : ReadEe) (sectorsToRead nsectors : ℕ) : ℕ :=
  if !r.flag64b && sectorsToRead == nsectors && r.b1len != 0 then nsectors * 2048 - 64
  else nsectors * 2048

/-- The work buffer after a read into `fsvRbuf`. -/
def fill (r : ReadEe) (d : Drive) (lsn count : ℕ) (work : ℕ → UInt8) : ℕ → UInt8 := fun p =>
  if r.b2len ≤ p ∧ p < r.b2len + count * 2048 then d.bytes lsn (p - r.b2len) else work p

/-- One pass of the inner loop, and the copy of the tail when it was the last one. -/
def pass (r : ReadEe) (d : Drive) (p : Progress) : Progress :=
  let nsectors := r.chunk p.sectorsToRead
  let size := nsectors * 2048
  let dmaSize := r.dmaSize p.sectorsToRead nsectors
  let work := r.fill d p.lsn (r.chunkRead nsectors) p.work
  let first := !r.flag64b && p.sectorsToRead == r.sectors
  let last := !r.flag64b && p.sectorsToRead == nsectors
  { work := work
    buf1 := if first then Bytes.slice work r.b2len r.b1len else p.buf1
    buf2 := if last then Bytes.slice work (r.b2len + size - r.b2len) r.b2len else p.buf2
    sectorsToRead := p.sectorsToRead - nsectors
    lsn := (p.lsn + nsectors) % 2 ^ 32
    eeaddr := (p.eeaddr + size) % 2 ^ 32
    bytesent := if dmaSize = 0 then p.bytesent else (p.bytesent + dmaSize) % 2 ^ 32
    dmas := if dmaSize = 0 then p.dmas
      else p.dmas ++ [(p.eeaddr, Bytes.slice work (r.b2len + r.b1len) dmaSize)]
    accesses := p.accesses ++ (r.b2len, r.chunkRead nsectors * 2048) ::
      (r.b2len + r.b1len, dmaSize) ::
      ((if first then [(r.b2len, r.b1len)] else []) ++
        if last then [(r.b2len + size - r.b2len, r.b2len)] else []) }

/-- The loop: it ends when all is read, on an abort, or when a read fails. The first component is
what is returned. -/
def loop (r : ReadEe) : ℕ → Drive → Progress → ℕ × Progress
  | 0, _, p => (r.nbytes, p)
  | fuel + 1, d, p =>
    if p.sectorsToRead = 0 ∨ d.aborted 0 = true then (r.nbytes, p)
    else if d.reads 0 = true then loop r fuel d.next (r.pass d p)
    else (p.bytesent, p)

/-- `cdvd_readee`. -/
def readee (r : ReadEe) (d : Drive) (work : ℕ → UInt8) : ℕ × Progress :=
  r.loop (r.sectors + 1) d (r.start work)

/-- Bytes at consecutive addresses. -/
def placed (addr : ℕ) (bytes : List UInt8) : List (ℕ × UInt8) :=
  bytes.zipIdx.map fun x => ((addr + x.2) % 2 ^ 32, x.1)

/-- The stores into EE memory: the head, the DMA transfers and the tail. -/
def writes (r : ReadEe) (p : Progress) : List (ℕ × UInt8) :=
  placed r.buf p.buf1 ++ (p.dmas.flatMap fun t => placed t.1 t.2) ++ placed r.eeaddr264b p.buf2

/-! ### Stores -/

/-- The stores the call should make, by their place in the destination. -/
def image (r : ReadEe) (d : Drive) (k : ℕ) : ℕ × UInt8 := ((r.buf + k) % 2 ^ 32, d.bytes r.lsn k)

theorem placed_slice (addr : ℕ) (f : ℕ → UInt8) (p n : ℕ) :
    placed addr (Bytes.slice f p n) =
      Bytes.slice (fun j => ((addr + j) % 2 ^ 32, f (p + j))) 0 n := by
  refine List.ext_getElem? fun i => ?_
  simp only [placed, Bytes.slice, List.getElem?_map, List.getElem?_zipIdx, Nat.zero_add]
  by_cases hi : i < n
  · simp [List.getElem?_range hi]
  · simp [List.getElem?_eq_none (show (List.range n).length ≤ i by rw [List.length_range]; omega)]

/-- Bytes of the disc that are placed where they belong. -/
theorem placed_bytes {lsn n q addr p m : ℕ} (hlsn : lsn = (r.lsn + n) % 2 ^ 32)
    (hq : q = 2048 * n + p) (haddr : ∀ j < m, (addr + j) % 2 ^ 32 = (r.buf + (q + j)) % 2 ^ 32) :
    placed addr (Bytes.slice (d.bytes lsn) p m) = Bytes.slice (r.image d) q m := by
  rw [placed_slice]
  refine Bytes.slice_congr fun j hj => ?_
  rw [Nat.zero_add, image, haddr j hj, hlsn, Drive.bytes_add, hq, Nat.add_assoc]

/-- What a read put into the work buffer. -/
theorem slice_fill {lsn count p m : ℕ} (work : ℕ → UInt8) (h : p + m ≤ count * 2048) :
    Bytes.slice (r.fill d lsn count work) (r.b2len + p) m = Bytes.slice (d.bytes lsn) p m := by
  refine Bytes.slice_congr fun j hj => ?_
  have hsub : r.b2len + p + j - r.b2len = p + j := by omega
  rw [fill, if_pos (by omega), hsub]

/-! ### Chunks -/

theorem flag64b_eq_true (h : r.flag64b = true) : r.b1len = 0 ∧ r.b2len = 0 := by
  simpa [flag64b] using h

theorem flag64b_eq_false (h : r.flag64b = false) : 0 < r.b1len ∧ r.b1len + r.b2len = 64 := by
  have h1 := r.b1len_eq
  have h2 := r.b2len_eq
  have hne : ¬ (r.b1len = 0 ∧ r.b2len = 0) := by simpa [flag64b] using h
  omega

theorem chunk_le (r : ReadEe) {s : ℕ} (h : 0 < s) : 0 < r.chunk s ∧ r.chunk s ≤ s := by
  rw [chunk, fsSectors]
  split_ifs <;> omega

/-- What is read for a chunk fits into the work buffer, and there is what its transfer needs. -/
theorem chunkRead_le (r : ReadEe) (s : ℕ) :
    r.b2len + r.chunkRead (r.chunk s) * 2048 ≤ fsSectors * 2048 + 64 ∧
      r.b1len + r.chunk s * 2048 ≤ r.chunkRead (r.chunk s) * 2048 := by
  have h2 := r.b2len_eq
  rw [chunkRead, chunk, fsSectors]
  cases hflag : r.flag64b with
  | true =>
    have hlen := flag64b_eq_true hflag
    simp only [if_true]
    split_ifs <;> omega
  | false =>
    have hlen := flag64b_eq_false hflag
    simp only [Bool.false_eq_true, if_false]
    split_ifs <;> omega

/-- The last transfer leaves out what the head and the tail take. -/
theorem dmaSize_eq (r : ReadEe) (s k : ℕ) :
    r.dmaSize s k = k * 2048 - if s = k then r.b1len + r.b2len else 0 := by
  rw [dmaSize]
  cases hflag : r.flag64b with
  | true =>
    have hlen := flag64b_eq_true hflag
    simp [hlen]
  | false =>
    have hlen := flag64b_eq_false hflag
    by_cases hsk : s = k
    · have hne : r.b1len ≠ 0 := by omega
      simp [hsk, hne, hlen]
    · simp [hsk]

/-! ### The invariant -/

/-- The state of the call when `c` sectors are delivered. -/
structure Delivered (r : ReadEe) (d : Drive) (c : ℕ) (p : Progress) : Prop where
  count : p.sectorsToRead + c = r.sectors
  lsn : p.lsn = (r.lsn + c) % 2 ^ 32
  eeaddr : p.eeaddr = (r.buf + r.b1len + 2048 * c) % 2 ^ 32
  buf1 : placed r.buf p.buf1 = if c = 0 then [] else Bytes.slice (r.image d) 0 r.b1len
  dmas : (p.dmas.flatMap fun t => placed t.1 t.2) = Bytes.slice (r.image d) r.b1len
    (2048 * c - if p.sectorsToRead = 0 then r.b1len + r.b2len else 0)
  buf2 : placed r.eeaddr264b p.buf2 = if p.sectorsToRead = 0 then
    Bytes.slice (r.image d) (2048 * r.sectors - r.b2len) r.b2len else []
  aligned : ∀ t ∈ p.dmas, t.1 % 64 = 0
  inside : ∀ x ∈ p.accesses, x.1 + x.2 ≤ fsSectors * 2048 + 64

theorem delivered_start (r : ReadEe) (d : Drive) (work : ℕ → UInt8) :
    r.Delivered d 0 (r.start work) := by
  have hpos := r.sectors_pos
  have hbuf := r.buf_lt
  have h1 := r.b1len_eq
  have hne : ¬ (r.start work).sectorsToRead = 0 := Nat.ne_of_gt hpos
  refine ⟨Nat.add_zero _, (Nat.mod_eq_of_lt r.lsn_lt).symm, ?_, rfl, ?_, ?_, by simp [start],
    by simp [start]⟩
  · show r.eeaddr64b = _
    rw [eeaddr64b_eq]
    omega
  · rw [if_neg hne]
    rfl
  · rw [if_neg hne]
    rfl

section pass

variable {c : ℕ} {p : Progress}

/-- The head after a pass. -/
theorem Delivered.pass_buf1 (h : r.Delivered d c p) :
    placed r.buf (r.pass d p).buf1 = Bytes.slice (r.image d) 0 r.b1len := by
  have hread := r.chunkRead_le p.sectorsToRead
  have hcount := h.count
  rw [pass]
  cases hflag : r.flag64b with
  | true =>
    have hlen := flag64b_eq_true hflag
    simp only [Bool.not_true, Bool.false_and, Bool.false_eq_true, if_false]
    rw [h.buf1, hlen.1]
    split_ifs <;> rfl
  | false =>
    by_cases hfirst : p.sectorsToRead = r.sectors
    · have hc : c = 0 := by omega
      simp only [hfirst, Bool.not_false, beq_self_eq_true, Bool.and_self, if_true]
      rw [← hfirst, show r.b2len = r.b2len + 0 from rfl, slice_fill _ (by omega)]
      exact placed_bytes h.lsn (by omega) fun j _ => by rw [Nat.zero_add]
    · simp only [hfirst, Bool.not_false, beq_iff_eq, Bool.and_eq_true, and_false, if_false]
      rw [h.buf1, if_neg (by omega)]

/-- The transfer of a pass. -/
theorem Delivered.pass_dma (h : r.Delivered d c p) :
    placed p.eeaddr (Bytes.slice (r.fill d p.lsn (r.chunkRead (r.chunk p.sectorsToRead)) p.work)
        (r.b2len + r.b1len) (r.dmaSize p.sectorsToRead (r.chunk p.sectorsToRead))) =
      Bytes.slice (r.image d) (r.b1len + 2048 * c)
        (r.dmaSize p.sectorsToRead (r.chunk p.sectorsToRead)) := by
  have hread := r.chunkRead_le p.sectorsToRead
  have hsize : r.dmaSize p.sectorsToRead (r.chunk p.sectorsToRead) ≤
      r.chunk p.sectorsToRead * 2048 := by
    rw [dmaSize_eq]
    omega
  have hadd := h.eeaddr
  rw [slice_fill _ (by omega)]
  exact placed_bytes h.lsn (by omega) fun j _ => by omega

/-- The tail after a pass. -/
theorem Delivered.pass_buf2 (h : r.Delivered d c p) (hs : 0 < p.sectorsToRead) :
    placed r.eeaddr264b (r.pass d p).buf2 = if (r.pass d p).sectorsToRead = 0 then
      Bytes.slice (r.image d) (2048 * r.sectors - r.b2len) r.b2len else [] := by
  have hbuf2 := h.buf2
  rw [if_neg (by omega)] at hbuf2
  have hchunk := r.chunk_le hs
  have hread := r.chunkRead_le p.sectorsToRead
  have hcount := h.count
  have hleft : (r.pass d p).sectorsToRead = p.sectorsToRead - r.chunk p.sectorsToRead := rfl
  rw [hleft]
  by_cases hlast : p.sectorsToRead = r.chunk p.sectorsToRead
  · rw [if_pos (by omega)]
    cases hflag : r.flag64b with
    | true =>
      have hlen := flag64b_eq_true hflag
      rw [pass]
      simp only [hflag, Bool.not_true, Bool.false_and, Bool.false_eq_true, if_false]
      rw [hbuf2, hlen.2]
      rfl
    | false =>
      have hlen := flag64b_eq_false hflag
      have hend : r.eeaddr264b + r.b2len = r.endAddr := by
        rw [b2len, eeaddr264b]
        omega
      have hpos : r.b2len + r.chunk p.sectorsToRead * 2048 - r.b2len =
          r.b2len + (r.chunk p.sectorsToRead * 2048 - r.b2len) := by omega
      rw [pass]
      simp only [hflag, Bool.not_false, Bool.true_and, beq_iff_eq, if_pos hlast]
      rw [hpos, slice_fill _ (by omega)]
      refine placed_bytes h.lsn (by omega) fun j hj => ?_
      rw [endAddr, nbytes] at hend
      omega
  · rw [if_neg (by omega), pass]
    simp only [hlast, beq_iff_eq, Bool.and_eq_true, and_false, if_false]
    exact hbuf2

/-- The parts of the work buffer that a pass accesses. -/
theorem inside_pass (hs : 0 < p.sectorsToRead)
    (hin : ∀ x ∈ p.accesses, x.1 + x.2 ≤ fsSectors * 2048 + 64) :
    ∀ x ∈ (r.pass d p).accesses, x.1 + x.2 ≤ fsSectors * 2048 + 64 := by
  have hread := r.chunkRead_le p.sectorsToRead
  have hchunk := r.chunk_le hs
  have hsize := r.dmaSize_eq p.sectorsToRead (r.chunk p.sectorsToRead)
  intro x hx
  rw [pass] at hx
  simp only [List.mem_append, List.mem_cons] at hx
  rcases hx with hx | rfl | rfl | hx | hx
  · exact hin x hx
  · exact hread.1
  · dsimp only
    omega
  · split_ifs at hx
    · rw [List.mem_singleton.mp hx]
      dsimp only
      omega
    · cases hx
  · split_ifs at hx
    · rw [List.mem_singleton.mp hx]
      dsimp only
      omega
    · cases hx

/-- A pass delivers its chunk. -/
theorem Delivered.pass (h : r.Delivered d c p) (hs : 0 < p.sectorsToRead) :
    r.Delivered d (c + r.chunk p.sectorsToRead) (r.pass d p) := by
  have hchunk := r.chunk_le hs
  have hcount := h.count
  have hsize := r.dmaSize_eq p.sectorsToRead (r.chunk p.sectorsToRead)
  have hb1 := r.b1len_eq
  have hb2 := r.b2len_eq
  have hpos : r.dmaSize p.sectorsToRead (r.chunk p.sectorsToRead) ≠ 0 := by
    rw [hsize]
    split_ifs <;> omega
  have hdmas : (r.pass d p).dmas = p.dmas ++ [(p.eeaddr, Bytes.slice
      (r.fill d p.lsn (r.chunkRead (r.chunk p.sectorsToRead)) p.work) (r.b2len + r.b1len)
      (r.dmaSize p.sectorsToRead (r.chunk p.sectorsToRead)))] := by
    rw [ReadEe.pass]
    exact if_neg hpos
  refine ⟨?_, ?_, ?_, ?_, ?_, h.pass_buf2 hs, fun t ht => ?_, inside_pass hs h.inside⟩
  · show p.sectorsToRead - r.chunk p.sectorsToRead + (c + r.chunk p.sectorsToRead) = r.sectors
    omega
  · show (p.lsn + r.chunk p.sectorsToRead) % 2 ^ 32 = _
    rw [h.lsn]
    omega
  · show (p.eeaddr + r.chunk p.sectorsToRead * 2048) % 2 ^ 32 = _
    rw [h.eeaddr]
    omega
  · rw [h.pass_buf1, if_neg (by omega)]
  · have hdone := h.dmas
    rw [if_neg (by omega), Nat.sub_zero] at hdone
    have hleft : (r.pass d p).sectorsToRead = p.sectorsToRead - r.chunk p.sectorsToRead := rfl
    have hlen : 2048 * c + r.dmaSize p.sectorsToRead (r.chunk p.sectorsToRead) =
        2048 * (c + r.chunk p.sectorsToRead) -
          if (r.pass d p).sectorsToRead = 0 then r.b1len + r.b2len else 0 := by
      rw [hsize, hleft]
      split_ifs <;> omega
    rw [hdmas, List.flatMap_append, hdone, List.flatMap_singleton, h.pass_dma, ← Bytes.slice_add,
      hlen]
  · rw [hdmas, List.mem_append, List.mem_singleton] at ht
    rcases ht with ht | rfl
    · exact h.aligned t ht
    · show p.eeaddr % 64 = 0
      rw [h.eeaddr]
      omega

end pass

/-! ### The whole call -/

/-- What is delivered does not depend on what the drive will answer. -/
theorem delivered_next {c : ℕ} {p : Progress} : r.Delivered d.next c p ↔ r.Delivered d c p :=
  ⟨fun h => ⟨h.1, h.2, h.3, h.4, h.5, h.6, h.7, h.8⟩,
    fun h => ⟨h.1, h.2, h.3, h.4, h.5, h.6, h.7, h.8⟩⟩

/-- The loop of a call with a drive that makes every read. -/
theorem loop_delivered (hd : d.Sound) {fuel c : ℕ} {p : Progress} (h : r.Delivered d c p)
    (hfuel : p.sectorsToRead < fuel) :
    (r.loop fuel d p).1 = r.nbytes ∧ (r.loop fuel d p).2.sectorsToRead = 0 ∧
      ∃ c', r.Delivered d c' (r.loop fuel d p).2 := by
  induction fuel generalizing d c p with
  | zero => omega
  | succ fuel ih =>
    rw [loop]
    by_cases hs : p.sectorsToRead = 0
    · rw [if_pos (Or.inl hs)]
      exact ⟨rfl, hs, c, h⟩
    · have hchunk := r.chunk_le (Nat.pos_of_ne_zero hs)
      have habort := hd.aborted 0
      rw [if_neg (by simp [hs, habort]), if_pos (hd.reads 0)]
      obtain ⟨hresult, hleft, c', h'⟩ := ih hd.next
        (delivered_next.mpr (h.pass (Nat.pos_of_ne_zero hs)))
        (show p.sectorsToRead - r.chunk p.sectorsToRead < fuel by omega)
      exact ⟨hresult, hleft, c', delivered_next.mp h'⟩

/-- **Realignment.** With a drive that makes every read and no abort, the head, the transfers and
the tail are, in order, the bytes of the requested sectors at the addresses of the destination;
the transfers go to multiples of 64, and no access leaves the work buffer. -/
theorem readee_writes (r : ReadEe) {d : Drive} (hd : d.Sound) (work : ℕ → UInt8) :
    (r.readee d work).1 = r.nbytes ∧
      r.writes (r.readee d work).2 =
        (List.range (2048 * r.sectors)).map (fun k => ((r.buf + k) % 2 ^ 32, d.bytes r.lsn k)) ∧
      (2048 * r.sectors ≤ 2 ^ 32 → ((r.writes (r.readee d work).2).map Prod.fst).Nodup) ∧
      (∀ t ∈ (r.readee d work).2.dmas, t.1 % 64 = 0) ∧
      ∀ x ∈ (r.readee d work).2.accesses, x.1 + x.2 ≤ fsSectors * 2048 + 64 := by
  obtain ⟨hresult, hleft, c, h⟩ := loop_delivered hd (r.delivered_start d work)
    (show r.sectors < r.sectors + 1 by omega)
  rw [← readee] at hresult hleft h
  have hcount := h.count
  have hc : c = r.sectors := by omega
  have hpos := r.sectors_pos
  have hb1 := r.b1len_eq
  have hb2 := r.b2len_eq
  have hwrites : r.writes (r.readee d work).2 = Bytes.slice (r.image d) 0 (2048 * r.sectors) := by
    generalize hm : 2048 * r.sectors - (r.b1len + r.b2len) = m
    have htotal : 2048 * r.sectors = r.b1len + m + r.b2len := by omega
    have htail : 2048 * r.sectors - r.b2len = 0 + (r.b1len + m) := by omega
    rw [writes, h.buf1, if_neg (by omega), h.dmas, if_pos hleft, h.buf2, if_pos hleft, hc, htail,
      hm, htotal, Bytes.slice_add, Bytes.slice_add, Nat.zero_add, Nat.zero_add]
  have hlist : r.writes (r.readee d work).2 =
      (List.range (2048 * r.sectors)).map (fun k => ((r.buf + k) % 2 ^ 32, d.bytes r.lsn k)) := by
    rw [hwrites]
    refine List.map_congr_left fun k _ => ?_
    rw [image, Nat.zero_add]
  refine ⟨hresult, hlist, fun hfit => ?_, h.aligned, h.inside⟩
  rw [hlist, List.map_map]
  refine List.Nodup.map_on ?_ List.nodup_range
  intro i hi j hj hij
  have hi' := List.mem_range.mp hi
  have hj' := List.mem_range.mp hj
  have heq : (r.buf + i) % 2 ^ 32 = (r.buf + j) % 2 ^ 32 := hij
  omega

/-- A destination that is not aligned, and ten sectors with byte `k` at place `k`. -/
theorem readee_writes_unaligned :
    let d : Drive := ⟨fun _ k => UInt8.ofNat k, fun _ => true, fun _ => false⟩
    let r : ReadEe := ⟨0x100013, 16, 10, by decide, by decide, by decide⟩
    d.Sound ∧ r.writes (r.readee d fun _ => 0).2 =
      (List.range (2048 * 10)).map fun k => ((0x100013 + k) % 2 ^ 32, d.bytes 16 k) :=
  ⟨⟨fun _ => rfl, fun _ => rfl⟩,
    (readee_writes _ ⟨fun _ => rfl, fun _ => rfl⟩ _).2.1⟩

end ReadEe

end OpenPS2Loader
