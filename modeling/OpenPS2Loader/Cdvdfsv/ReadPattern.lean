import OpenPS2Loader.Cdvdfsv.ReadEe
import OpenPS2Loader.Cdvdman.Read

/-!
# Disc reads with a data pattern

`cdvd_readee` takes the size of a sector from the data pattern of the call: 2048, 2328 or 2340
bytes. The reads that it issues have no mode, so that every sector comes with 2048 bytes; the size
of a DMA transfer and the end of the destination are computed with the size of the pattern.

The reads that are issued, the sectors that the drive is asked for, are kept beside the loop
variables of `ReadEe`. At 2048 bytes the call is the one of `ReadEe`.

## Main definitions

* `PatternRead` — a call
* `PatternRead.readee` — the call with the reads it issues
* `PatternRead.AsAsked` — it reads what was asked for, in the layout of the pattern

## Main results

* `PatternRead.asAsked_iff`
-/

namespace OpenPS2Loader

/-- `SCECdSecS2048`, `SCECdSecS2328` and `SCECdSecS2340`. -/
inductive Pattern
  | s2048 | s2328 | s2340
  deriving DecidableEq, Repr

/-- `sector_size` -/
def Pattern.sectorSize : Pattern → ℕ
  | .s2048 => 2048
  | .s2328 => 2328
  | .s2340 => 2340

/-- A call of `cdvd_readee`, after the mask `0x1fffffff` on the address. -/
structure PatternRead where
  buf : ℕ
  lsn : ℕ
  sectors : ℕ
  pattern : Pattern
  buf_lt : buf < 2 ^ 29
  lsn_lt : lsn < 2 ^ 32
  sectors_lt : sectors < 2 ^ 32

namespace PatternRead

variable {r : PatternRead} {d : Drive}

/-! ### Alignment -/

/-- `eeaddr_64b` -/
def eeaddr64b (r : PatternRead) : ℕ := (r.buf + 0x3f) / 64 * 64

/-- `b1len` -/
def b1len (r : PatternRead) : ℕ := if r.buf % 64 = 0 then 0 else r.buf / 64 * 64 + 64 - r.buf

/-- `nbytes` -/
def nbytes (r : PatternRead) : ℕ := r.sectors * r.pattern.sectorSize % 2 ^ 32

/-- The address behind the destination. -/
def endAddr (r : PatternRead) : ℕ := (r.buf + r.nbytes) % 2 ^ 32

/-- `eeaddr2_64b` -/
def eeaddr264b (r : PatternRead) : ℕ := r.endAddr / 64 * 64

/-- `b2len` -/
def b2len (r : PatternRead) : ℕ := r.endAddr - r.eeaddr264b

/-- `flag_64b` -/
def flag64b (r : PatternRead) : Bool := r.b1len == 0 && r.b2len == 0

/-! ### The loop -/

/-- The variables in front of the loop. -/
def start (r : PatternRead) (work : ℕ → UInt8) : ReadEe.Progress where
  work := work
  buf1 := []
  buf2 := []
  sectorsToRead := r.sectors
  lsn := r.lsn
  eeaddr := r.eeaddr64b
  bytesent := 0
  dmas := []
  accesses := []

/-- `nsectors` -/
def chunk (r : PatternRead) (sectorsToRead : ℕ) : ℕ :=
  if r.flag64b then (if sectorsToRead < fsSectors then sectorsToRead else fsSectors)
  else if sectorsToRead < fsSectors - 1 then sectorsToRead else fsSectors - 1

/-- The number of sectors that are read for it. -/
def chunkRead (r : PatternRead) (nsectors : ℕ) : ℕ := if r.flag64b then nsectors else nsectors + 1

/-- `size_64bb` -/
def dmaSize (r : PatternRead) (sectorsToRead nsectors : ℕ) : ℕ :=
  if !r.flag64b && sectorsToRead == nsectors && r.b1len != 0 then
    nsectors * r.pattern.sectorSize - 64
  else
    nsectors * r.pattern.sectorSize

/-- The work buffer after a read into `fsvRbuf`. Without a mode a sector has 2048 bytes. -/
def fill (r : PatternRead) (d : Drive) (lsn count : ℕ) (work : ℕ → UInt8) : ℕ → UInt8 := fun p =>
  if r.b2len ≤ p ∧ p < r.b2len + count * 2048 then d.bytes lsn (p - r.b2len) else work p

/-- One pass of the inner loop, and the copy of the tail when it was the last one. -/
def pass (r : PatternRead) (d : Drive) (p : ReadEe.Progress) : ReadEe.Progress :=
  let nsectors := r.chunk p.sectorsToRead
  let size := nsectors * r.pattern.sectorSize
  let dmaSize := r.dmaSize p.sectorsToRead nsectors
  let work := r.fill d p.lsn (r.chunkRead nsectors) p.work
  let first := !r.flag64b && p.sectorsToRead == r.sectors
  let last := !r.flag64b && p.sectorsToRead == nsectors
  { work := work
    buf1 := if first then Bytes.slice work r.b2len r.b1len else p.buf1
    buf2 := if last then Bytes.slice work (r.b2len + size - r.b2len) r.b2len else p.buf2
    sectorsToRead := p.sectorsToRead - nsectors
    lsn := (p.lsn + nsectors) % 2 ^ 32
    eeaddr := (p.eeaddr + size) % 2 ^ 32
    bytesent := if dmaSize = 0 then p.bytesent else (p.bytesent + dmaSize) % 2 ^ 32
    dmas := if dmaSize = 0 then p.dmas
      else p.dmas ++ [(p.eeaddr, Bytes.slice work (r.b2len + r.b1len) dmaSize)]
    accesses := p.accesses ++ (r.b2len, r.chunkRead nsectors * 2048) ::
      (r.b2len + r.b1len, dmaSize) ::
      ((if first then [(r.b2len, r.b1len)] else []) ++
        if last then [(r.b2len + size - r.b2len, r.b2len)] else []) }

/-- What a call leaves: its value, the variables, and the reads it issued, each a sector and a
number of sectors. -/
structure Outcome where
  value : ℕ
  progress : ReadEe.Progress
  reads : List (ℕ × ℕ)

/-- A read that was issued in front of the others. -/
def Outcome.after (o : Outcome) (rd : ℕ × ℕ) : Outcome := { o with reads := rd :: o.reads }

/-- The loop: it ends when all is read, on an abort, or when a read fails. -/
def loop (r : PatternRead) : ℕ → Drive → ReadEe.Progress → Outcome
  | 0, _, p => ⟨r.nbytes, p, []⟩
  | fuel + 1, d, p =>
    if p.sectorsToRead = 0 ∨ d.aborted 0 = true then
      ⟨r.nbytes, p, []⟩
    else if d.reads 0 = true then
      (loop r fuel d.next (r.pass d p)).after (p.lsn, r.chunkRead (r.chunk p.sectorsToRead))
    else
      ⟨p.bytesent, p, [(p.lsn, r.chunkRead (r.chunk p.sectorsToRead))]⟩

/-- `cdvd_readee` -/
def readee (r : PatternRead) (d : Drive) (work : ℕ → UInt8) : Outcome :=
  if r.sectors = 0 then
    ⟨0, r.start work, []⟩
  else
    r.loop (r.sectors + 1) d (r.start work)

/-- The stores into EE memory. -/
def writes (r : PatternRead) (p : ReadEe.Progress) : List (ℕ × UInt8) :=
  ReadEe.placed r.buf p.buf1 ++ (p.dmas.flatMap fun t => ReadEe.placed t.1 t.2) ++
    ReadEe.placed r.eeaddr264b p.buf2

/-! ### Sectors of 2048 bytes -/

/-- The call without its pattern. -/
def toReadEe (r : PatternRead) (h : 0 < r.sectors) : ReadEe :=
  ⟨r.buf, r.lsn, r.sectors, r.buf_lt, r.lsn_lt, h⟩

section toReadEe

variable (h : 0 < r.sectors) (hpattern : r.pattern = .s2048)

include hpattern

theorem nbytes_toReadEe : r.nbytes = (r.toReadEe h).nbytes := by
  rw [nbytes, hpattern]
  rfl

theorem b2len_toReadEe : r.b2len = (r.toReadEe h).b2len := by
  rw [b2len, eeaddr264b, endAddr, nbytes_toReadEe h hpattern]
  rfl

theorem flag64b_toReadEe : r.flag64b = (r.toReadEe h).flag64b := by
  rw [flag64b, b2len_toReadEe h hpattern]
  rfl

theorem pass_toReadEe (d : Drive) (p : ReadEe.Progress) :
    r.pass d p = (r.toReadEe h).pass d p := by
  have hb2 := b2len_toReadEe h hpattern
  have hflag := flag64b_toReadEe h hpattern
  have hchunk : ∀ s, r.chunk s = (r.toReadEe h).chunk s := by
    intro s
    rw [chunk, hflag]
    rfl
  have hread : ∀ n, r.chunkRead n = (r.toReadEe h).chunkRead n := by
    intro n
    rw [chunkRead, hflag]
    rfl
  have hsize : ∀ s n, r.dmaSize s n = (r.toReadEe h).dmaSize s n := by
    intro s n
    rw [dmaSize, hflag, hpattern]
    rfl
  have hfill : ∀ d lsn n w, r.fill d lsn n w = (r.toReadEe h).fill d lsn n w := by
    intro d lsn n w
    funext p
    simp only [fill, ReadEe.fill, hb2]
  simp only [pass, ReadEe.pass, hchunk, hread, hsize, hfill, hb2, hflag, hpattern]
  rfl

end toReadEe

/-! ### What was asked for -/

/-- What `cdvdman_read` leaves of a sector in the layout of the pattern. -/
def slot (pattern : Pattern) (lsn : ℕ) (data : Read.Sector) : Read.Slot where
  header := if pattern.sectorSize = 2340 then Read.sectorHeader lsn else []
  data := data

/-- The layout is that of a request of this sector size. -/
theorem slot_eq (pattern : Pattern) (q : Read.Request) (hq : q.sectorSize = pattern.sectorSize)
    (lsn : ℕ) (data : Read.Sector) : slot pattern lsn data = q.slot lsn data := by
  rw [slot, Read.Request.slot, hq]

/-- The bytes of the layout, from the start of a sector on. What is behind them is not written. -/
def slotBytes (pattern : Pattern) (lsn : ℕ) (data : Read.Sector) : List UInt8 :=
  (slot pattern lsn data).header ++ List.ofFn (slot pattern lsn data).data

/-- What the stores leave at an address. -/
def stored (ws : List (ℕ × UInt8)) (addr : ℕ) : Option UInt8 :=
  (ws.reverse.find? fun w => w.1 == addr).map Prod.snd

/-- **The call reads what was asked for.** -/
structure AsAsked (r : PatternRead) : Prop where
  /-- The reads cover requested sectors only. -/
  reads : ∀ (d : Drive) (work : ℕ → UInt8), ∀ rd ∈ (r.readee d work).reads, ∀ i < rd.2,
    ∃ j < r.sectors, (rd.1 + i) % 2 ^ 32 = (r.lsn + j) % 2 ^ 32
  /-- No read goes past the end of a disc that has the requested sectors. -/
  succeeds : ∀ d : Drive, d.Sound → ∀ (work : ℕ → UInt8), ∀ total < 2 ^ 32,
    (∀ rd ∈ (r.readee d work).reads, rd.1 + rd.2 ≤ total) ↔
      r.sectors = 0 ∨ r.lsn + r.sectors ≤ total
  /-- No access leaves the work buffer. -/
  inside : ∀ (d : Drive) (work : ℕ → UInt8), ∀ x ∈ (r.readee d work).progress.accesses,
    x.1 + x.2 ≤ fsSectors * 2048 + 64
  /-- Sectors that are larger than 2048 bytes have their layout. -/
  layout : r.pattern ≠ .s2048 → ∀ d : Drive, d.Sound → ∀ (work : ℕ → UInt8), ∀ j < r.sectors,
    ∀ k v, (slotBytes r.pattern ((r.lsn + j) % 2 ^ 32)
        fun i => d.sector ((r.lsn + j) % 2 ^ 32) i)[k]? = some v →
      stored (r.writes (r.readee d work).progress)
        ((r.buf + j * r.pattern.sectorSize + k) % 2 ^ 32) = some v

theorem b1len_eq_zero_iff : r.b1len = 0 ↔ r.buf % 64 = 0 := by
  rw [b1len]
  split_ifs <;> omega

theorem b2len_eq : r.b2len = (r.buf + r.sectors * r.pattern.sectorSize) % 64 := by
  rw [b2len, eeaddr264b, endAddr, nbytes]
  omega

theorem flag64b_iff : r.flag64b = true ↔ r.b1len = 0 ∧ r.b2len = 0 := by
  rw [flag64b, Bool.and_eq_true, beq_iff_eq, beq_iff_eq]

theorem chunk_bounds (r : PatternRead) {s : ℕ} (hs : 0 < s) : 0 < r.chunk s ∧ r.chunk s ≤ s := by
  rw [chunk, fsSectors]
  split_ifs <;> omega

@[simp] theorem reads_after (o : Outcome) (rd : ℕ × ℕ) : (o.after rd).reads = rd :: o.reads := rfl

@[simp] theorem progress_after (o : Outcome) (rd : ℕ × ℕ) : (o.after rd).progress = o.progress :=
  rfl

/-- Where the loop stands when `c` sectors are delivered. -/
structure At (r : PatternRead) (c : ℕ) (p : ReadEe.Progress) : Prop where
  count : p.sectorsToRead + c = r.sectors
  lsn : p.lsn = (r.lsn + c) % 2 ^ 32

theorem at_start (r : PatternRead) (work : ℕ → UInt8) : r.At 0 (r.start work) :=
  ⟨rfl, (Nat.mod_eq_of_lt r.lsn_lt).symm⟩

theorem At.pass {c : ℕ} {p : ReadEe.Progress} (h : r.At c p) (hs : 0 < p.sectorsToRead) :
    r.At (c + r.chunk p.sectorsToRead) (r.pass d p) := by
  have hchunk := r.chunk_bounds hs
  have hcount := h.count
  constructor
  · show p.sectorsToRead - r.chunk p.sectorsToRead + (c + r.chunk p.sectorsToRead) = r.sectors
    omega
  · show (p.lsn + r.chunk p.sectorsToRead) % 2 ^ 32 = _
    rw [h.lsn]
    omega

/-! ### The reads -/

/-- A read has the sectors of its chunk only when nothing has to be aligned. -/
theorem reads_loop (hflag : r.flag64b = true) {fuel c : ℕ} {p : ReadEe.Progress} (h : r.At c p) :
    ∀ rd ∈ (r.loop fuel d p).reads, ∀ i < rd.2,
      ∃ j < r.sectors, (rd.1 + i) % 2 ^ 32 = (r.lsn + j) % 2 ^ 32 := by
  induction fuel generalizing d c p with
  | zero =>
    intro rd hrd
    cases hrd
  | succ fuel ih =>
    rw [loop]
    split
    next =>
      intro rd hrd
      cases hrd
    next hmore =>
      have hs : 0 < p.sectorsToRead := Nat.pos_of_ne_zero fun hzero => hmore (.inl hzero)
      have hfirst : ∀ i < r.chunkRead (r.chunk p.sectorsToRead),
          ∃ j < r.sectors, (p.lsn + i) % 2 ^ 32 = (r.lsn + j) % 2 ^ 32 := by
        intro i hi
        rw [chunkRead, if_pos hflag] at hi
        have hchunk := r.chunk_bounds hs
        have hcount := h.count
        refine ⟨c + i, by omega, ?_⟩
        rw [h.lsn]
        omega
      split
      next =>
        intro rd hrd
        rw [reads_after] at hrd
        obtain rfl | hrd := List.mem_cons.mp hrd
        · exact hfirst
        · exact ih (h.pass hs) rd hrd
      next =>
        intro rd hrd
        obtain rfl := List.mem_singleton.mp hrd
        exact hfirst

/-- The reads stay on a disc that has the sectors, and only on such a disc. -/
theorem within_loop (hflag : r.flag64b = true) (hd : d.Sound) {total : ℕ} (htotal : total < 2 ^ 32)
    {fuel c : ℕ} {p : ReadEe.Progress} (hcount : p.sectorsToRead + c = r.sectors)
    (hlsn : p.lsn = r.lsn + c) (hfuel : p.sectorsToRead < fuel)
    (hstart : 0 < p.sectorsToRead ∨ r.lsn + c ≤ total) :
    (∀ rd ∈ (r.loop fuel d p).reads, rd.1 + rd.2 ≤ total) ↔ r.lsn + r.sectors ≤ total := by
  induction fuel generalizing d c p with
  | zero => omega
  | succ fuel ih =>
    rw [loop]
    by_cases hs : p.sectorsToRead = 0
    · rw [if_pos (.inl hs)]
      constructor
      · intro _
        omega
      · intro _ rd hrd
        cases hrd
    · have hpos : 0 < p.sectorsToRead := Nat.pos_of_ne_zero hs
      have hchunk := r.chunk_bounds hpos
      rw [if_neg (by simp [hs, hd.aborted 0]), if_pos (hd.reads 0), reads_after,
        List.forall_mem_cons, chunkRead, if_pos hflag]
      dsimp only
      by_cases hfits : p.lsn + r.chunk p.sectorsToRead ≤ total
      · rw [and_iff_right hfits]
        refine ih hd.next (c := c + r.chunk p.sectorsToRead) ?_ ?_ ?_ (.inr (by omega))
        · show p.sectorsToRead - r.chunk p.sectorsToRead + _ = _
          omega
        · show (p.lsn + r.chunk p.sectorsToRead) % 2 ^ 32 = _
          omega
        · show p.sectorsToRead - r.chunk p.sectorsToRead < fuel
          omega
      · constructor
        · intro h
          exact absurd h.1 hfits
        · intro h
          omega

/-- For a destination that has to be aligned the sector behind the last one is read as well. -/
theorem overread_loop (hflag : r.flag64b = false) (hd : d.Sound) {fuel c : ℕ}
    {p : ReadEe.Progress} (h : r.At c p) (hs : 0 < p.sectorsToRead)
    (hfuel : p.sectorsToRead < fuel) :
    ∃ rd ∈ (r.loop fuel d p).reads, ∃ i < rd.2,
      (rd.1 + i) % 2 ^ 32 = (r.lsn + r.sectors) % 2 ^ 32 := by
  induction fuel generalizing d c p with
  | zero => omega
  | succ fuel ih =>
    have hchunk := r.chunk_bounds hs
    have hcount := h.count
    have hread : ∀ n, r.chunkRead n = n + 1 := by
      intro n
      rw [chunkRead, hflag]
      rfl
    rw [loop, if_neg (by simp [Nat.ne_of_gt hs, hd.aborted 0]), if_pos (hd.reads 0), reads_after]
    by_cases hlast : r.chunk p.sectorsToRead = p.sectorsToRead
    · refine ⟨_, List.mem_cons_self, p.sectorsToRead, ?_, ?_⟩
      · rw [hread, hlast]
        exact Nat.lt_succ_self _
      · rw [h.lsn]
        omega
    · have hleft : (r.pass d p).sectorsToRead = p.sectorsToRead - r.chunk p.sectorsToRead := rfl
      have hpass := h.pass (d := d) hs
      obtain ⟨rd, hrd, hover⟩ := ih hd.next hpass (by omega) (by omega)
      exact ⟨rd, List.mem_cons_of_mem _ hrd, hover⟩

/-! ### The work buffer -/

/-- The accesses of a pass stay on record. -/
theorem accesses_loop {fuel : ℕ} {p : ReadEe.Progress} {x : ℕ × ℕ} (hx : x ∈ p.accesses) :
    x ∈ (r.loop fuel d p).progress.accesses := by
  induction fuel generalizing d p with
  | zero => exact hx
  | succ fuel ih =>
    rw [loop]
    split
    · exact hx
    · split
      · exact ih (List.mem_append_left _ hx)
      · exact hx

theorem inside_loop (h : 0 < r.sectors) (hpattern : r.pattern = .s2048) {fuel : ℕ}
    {p : ReadEe.Progress} (hin : ∀ x ∈ p.accesses, x.1 + x.2 ≤ fsSectors * 2048 + 64) :
    ∀ x ∈ (r.loop fuel d p).progress.accesses, x.1 + x.2 ≤ fsSectors * 2048 + 64 := by
  induction fuel generalizing d p with
  | zero => exact hin
  | succ fuel ih =>
    rw [loop]
    split
    next => exact hin
    next hmore =>
      have hs : 0 < p.sectorsToRead := Nat.pos_of_ne_zero fun hzero => hmore (.inl hzero)
      split
      next =>
        refine ih ?_
        rw [pass_toReadEe h hpattern]
        exact ReadEe.inside_pass hs hin
      next => exact hin

/-- Sectors that are larger than 2048 bytes fill multiples of 64 bytes by eight at least. -/
theorem eight_le_sectors (hflag : r.flag64b = true) (hpattern : r.pattern ≠ .s2048)
    (hs : 0 < r.sectors) : 8 ≤ r.sectors := by
  obtain ⟨hb1, hb2⟩ := flag64b_iff.mp hflag
  rw [b1len_eq_zero_iff] at hb1
  rw [b2len_eq] at hb2
  cases hp : r.pattern with
  | s2048 => exact absurd hp hpattern
  | s2328 =>
    rw [hp, Pattern.sectorSize] at hb2
    omega
  | s2340 =>
    rw [hp, Pattern.sectorSize] at hb2
    omega

/-- The transfer of eight such sectors leaves the work buffer. -/
theorem outside_readee (hflag : r.flag64b = true) (hpattern : r.pattern ≠ .s2048)
    (hs : 0 < r.sectors) (hd : d.Sound) (work : ℕ → UInt8) :
    ∃ x ∈ (r.readee d work).progress.accesses, fsSectors * 2048 + 64 < x.1 + x.2 := by
  have height := eight_le_sectors hflag hpattern hs
  obtain ⟨hb1, hb2⟩ := flag64b_iff.mp hflag
  have hchunk : r.chunk r.sectors = 8 := by
    rw [chunk, if_pos hflag, fsSectors]
    split_ifs <;> omega
  have hsize : r.dmaSize r.sectors 8 = 8 * r.pattern.sectorSize := by
    rw [dmaSize, hflag]
    rfl
  have hmem : (0, 8 * r.pattern.sectorSize) ∈ (r.pass d (r.start work)).accesses := by
    rw [pass]
    dsimp only
    rw [hb1, hb2, start]
    dsimp only
    rw [hchunk, hsize]
    simp
  refine ⟨(0, 8 * r.pattern.sectorSize), ?_, ?_⟩
  · rw [readee, if_neg (Nat.ne_of_gt hs), loop,
      if_neg (by simp [start, Nat.ne_of_gt hs, hd.aborted 0]), if_pos (hd.reads 0), progress_after]
    exact accesses_loop hmem
  · rw [fsSectors]
    cases hp : r.pattern with
    | s2048 => exact absurd hp hpattern
    | s2328 => decide
    | s2340 => decide

/-! ### The condition -/

/-- A drive that makes every read. -/
def blank : Drive := ⟨fun _ _ => 0, fun _ => true, fun _ => false⟩

theorem blank_sound : blank.Sound := ⟨fun _ => rfl, fun _ => rfl⟩

theorem asAsked_of_sectors_eq_zero (hs : r.sectors = 0) : r.AsAsked := by
  have hnone : ∀ d work, r.readee d work = ⟨0, r.start work, []⟩ := by
    intro d work
    rw [readee, if_pos hs]
  refine ⟨?_, ?_, ?_, ?_⟩
  · intro d work rd hrd
    rw [hnone] at hrd
    cases hrd
  · intro d _ work total _
    rw [hnone]
    simp [hs]
  · intro d work x hx
    rw [hnone] at hx
    cases hx
  · intro _ d _ work j hj
    omega

theorem asAsked_of_aligned (hs : 0 < r.sectors) (hpattern : r.pattern = .s2048)
    (hbuf : r.buf % 64 = 0) : r.AsAsked := by
  have hne : r.sectors ≠ 0 := Nat.ne_of_gt hs
  have hflag : r.flag64b = true := by
    refine flag64b_iff.mpr ⟨b1len_eq_zero_iff.mpr hbuf, ?_⟩
    rw [b2len_eq, hpattern, Pattern.sectorSize]
    omega
  refine ⟨?_, ?_, ?_, fun hother => absurd hpattern hother⟩
  · intro d work
    rw [readee, if_neg hne]
    exact reads_loop hflag (r.at_start work)
  · intro d hd work total htotal
    rw [readee, if_neg hne, or_iff_right hne]
    exact within_loop (c := 0) hflag hd htotal rfl rfl (Nat.lt_succ_self _) (.inl hs)
  · intro d work
    rw [readee, if_neg hne]
    refine inside_loop hs hpattern ?_
    intro x hx
    cases hx

/-- **When a call reads what was asked for.** Nothing is requested, or sectors of 2048 bytes to an
address that is a multiple of 64. -/
theorem asAsked_iff (r : PatternRead) :
    r.AsAsked ↔ r.sectors = 0 ∨ r.pattern = .s2048 ∧ r.buf % 64 = 0 := by
  constructor
  · intro h
    by_contra hnot
    obtain ⟨hs, hcond⟩ := not_or.mp hnot
    have hpos : 0 < r.sectors := Nat.pos_of_ne_zero hs
    cases hflag : r.flag64b with
    | true =>
      have hb1 := b1len_eq_zero_iff.mp (flag64b_iff.mp hflag).1
      have hpattern : r.pattern ≠ .s2048 := fun hp => hcond ⟨hp, hb1⟩
      obtain ⟨x, hx, hout⟩ := outside_readee hflag hpattern hpos blank_sound fun _ => 0
      have := h.inside _ _ x hx
      omega
    | false =>
      obtain ⟨rd, hrd, i, hi, hover⟩ := overread_loop hflag blank_sound
        (r.at_start fun _ => 0) hpos (Nat.lt_succ_self _)
      have hreads := h.reads blank (fun _ => 0) rd
      rw [readee, if_neg hs] at hreads
      obtain ⟨j, hj, heq⟩ := hreads hrd i hi
      have := r.sectors_lt
      omega
  · rintro (hs | ⟨hpattern, hbuf⟩)
    · exact asAsked_of_sectors_eq_zero hs
    · obtain hs | hs := Nat.eq_zero_or_pos r.sectors
      · exact asAsked_of_sectors_eq_zero hs
      · exact asAsked_of_aligned hs hpattern hbuf

/-- The last sector of a disc with 100 sectors, to an address that is no multiple of 64. -/
def lastSector : PatternRead := ⟨0x100010, 99, 1, .s2048, by decide, by decide, by decide⟩

/-- Eight sectors of 2328 bytes, to a multiple of 64. -/
def eightSectors : PatternRead := ⟨0x100000, 0, 8, .s2328, by decide, by decide, by decide⟩

/-- A sector of 2340 bytes. -/
def largeSector : PatternRead := ⟨0x100000, 0, 1, .s2340, by decide, by decide, by decide⟩

/-- A drive with the byte 77 everywhere. -/
def filled : Drive := ⟨fun _ _ => 77, fun _ => true, fun _ => false⟩

/-- Sector 100 is read as well; the transfer leaves the work buffer; what comes first is the data
and not the position. -/
theorem not_asAsked_lastSector :
    ((lastSector.readee filled fun _ => 0).reads = [(99, 2)] ∧ ¬lastSector.AsAsked) ∧
    ((0, 18624) ∈ (eightSectors.readee filled fun _ => 0).progress.accesses ∧
      ¬eightSectors.AsAsked) ∧
    ((largeSector.readee filled fun _ => 0).progress.dmas.map fun t => (t.1, t.2.head?)) =
        [(0x100000, some 77)] ∧
      (slotBytes .s2340 0 fun _ => 77).head? = some 0 := by
  refine ⟨⟨by decide +kernel, ?_⟩, ⟨by decide +kernel, ?_⟩, by decide +kernel, by decide +kernel⟩
  · intro h
    obtain ⟨j, hj, heq⟩ := h.reads filled (fun _ => 0) (99, 2) (by decide +kernel) 1 (by decide)
    have hlsn : lastSector.lsn = 99 := rfl
    have hone : j < 1 := hj
    omega
  · intro h
    exact absurd (h.inside filled (fun _ => 0) (0, 18624) (by decide +kernel)) (by decide)

end PatternRead

end OpenPS2Loader
