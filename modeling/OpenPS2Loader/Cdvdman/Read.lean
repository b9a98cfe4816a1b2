import Mathlib.Data.Fin.Basic
import OpenPS2Loader.Lib.Transition
import OpenPS2Loader.Zso.Lz4Format
import OpenPS2Loader.Zso.Reader

/-!
# Disc reads

`cdvdman.c`: a read request of the game is served by `cdvdman_read`, which hands it to
`cdvdman_read_sectors` as a whole, or in pieces through a bounce buffer when the destination is
not aligned or the sectors are larger than 2048 bytes. `cdvdman_read_sectors` probes the disc for
the compressed format before the first read, reads in chunks, and descrambles the PS2 logo.

The device answers each read with an error code; the answers still to come are part of the state.
What a failed read leaves in a buffer is not modelled: a request has a result only when every
`cdvdman_read_sectors` it made returned `0`.

The reader of compressed discs does not look at the errors of the device, and its index cache is
good for 256 sectors at a time. What it leaves where a read of the device failed, or where it ran
out of its cache, is up to the answer.

## Main definitions

* `Disc` — a disc image
* `Request` — a read request
* `deviceReadSectorsPtr` — the sector reader, for plain and for compressed discs
* `readSectors`, `read` — `cdvdman_read_sectors` and `cdvdman_read`
* `step` — requests, and the discovery of the size of the disc
-/

namespace OpenPS2Loader

namespace Read

/-! ### Discs -/

/-- The 2048 bytes of a sector. -/
abbrev Sector := Fin 2048 → UInt8

/-- A disc image: the bytes on the device. -/
structure Disc where
  bytes : ℕ → UInt8

/-- The sectors on the device. -/
def Disc.raw (disc : Disc) (lsn : ℕ) : Sector := fun j => disc.bytes (2048 * lsn + j)

/-- The first four bytes are `ZSO_MAGIC`. -/
def Disc.isZso (disc : Disc) : Bool :=
  disc.bytes 0 == 0x5A && disc.bytes 1 == 0x49 && disc.bytes 2 == 0x53 && disc.bytes 3 == 0x4F

/-- The error codes of `cdvdman_stat.err`. -/
inductive CdErr
  | no
  | ipi
  | eom
  | read
  deriving DecidableEq, Repr

/-! ### Requests -/

/-- How the module is built and configured. -/
structure Config where
  /-- `IOPCORE_COMPAT_ACCU_READS` -/
  accuReads : Bool
  /-- `HDD_DRIVER` or `USE_BDM_ATA`, which have a larger bounce buffer -/
  hddBuffer : Bool
  /-- `MAX_SECTOR_CACHE` -/
  sectorCache : ℕ

/-- `CDVDMAN_BUF_SECTORS`. -/
def Config.bufSectors (cfg : Config) : ℕ := if cfg.hddBuffer then 2 else 1

/-- A call of `cdvdman_read`. Sector numbers are 32 bits wide, and the destination lies in a
32-bit address space. -/
structure Request where
  lsn : ℕ
  sectors : ℕ
  sectorSize : ℕ
  buf : ℕ
  lsn_add_sectors_lt : lsn + sectors < 2 ^ 32
  sectors_lt : sectors * 2048 < 2 ^ 32

/-- The transfer goes through `cdvdman_buf`. -/
def Request.bounced (r : Request) : Bool := r.buf % 4 != 0 || r.sectorSize != 2048

/-- What is stored for one sector: the data, and the header of 2340-byte sectors. -/
structure Slot where
  header : List UInt8
  data : Sector

/-! ### The sector reader -/

/-- The variables of `zso.c`, which reads the device through the sector cache. -/
abbrev ZsoReader := Zso.Reader (SectorCache (List UInt8))

/-- What the device does in one call of the sector reader. -/
structure Answer where
  /-- how its reads end -/
  err : CdErr
  /-- what the memory holds that the call writes to, or that `ProbeZSO` allocates -/
  memory : ℕ → UInt8
  /-- what the ZSO reader leaves in its variables and in the buffer, when it is not served -/
  stray : ZsoReader × List UInt8

/-- The reader's part of the module's variables. -/
structure State where
  probed : Bool
  /-- the ZSO reader, when `DeviceReadSectorsPtr` is `DeviceReadSectorsCompressed` -/
  zso : Option ZsoReader
  /-- the `static u8 key` of the logo descrambler -/
  key : UInt8
  mediaLsnCount : ℕ
  err : CdErr
  /-- the answers the device is still going to give -/
  device : ℕ → Answer
  /-- not a variable of the module: a call of the ZSO reader was not served -/
  unserved : Bool

/-- The answer to a call of the sector reader. -/
def State.ask (st : State) : State × Answer :=
  ({ st with device := fun n => st.device (n + 1) }, st.device 0)

/-- `ziso_total_block` of a compressed disc. -/
def Disc.totalBlock (disc : Disc) : ℕ :=
  (Zso.zisoInit (Bytes.slice disc.bytes 0 2048) () [] []).totalBlock

/-- The sectors that `ziso_read_sector` goes through. -/
def zisoCount (total lsn n : ℕ) : ℕ := if total ≤ lsn then 0 else Zso.clampCount total lsn n

/-- No read of the device fails, and the index cache has an entry for all of the sectors. -/
def Answer.serves (a : Answer) (r : ZsoReader) (lsn n : ℕ) : Bool :=
  a.err == .no && decide (zisoCount r.totalBlock lsn n ≤ 256)

/-- `LZ4_decompress_fast`, to that memory. The module packs nothing. -/
def Answer.lz4 (a : Answer) : Zso.Codec where
  compress := id
  decompressFast := Lz4.decompressBlock fun p => a.memory p.toNat

/-- `ziso_read_sector`, on the part of the buffer that it fills. -/
def zisoReadSector (disc : Disc) (a : Answer) (r : ZsoReader) (lsn n : ℕ) :
    ZsoReader × ℕ × List UInt8 :=
  let count := zisoCount r.totalBlock lsn n
  let out := if a.serves r lsn n then
      Zso.zisoReadSector a.lz4 (Zso.Cdvdman.readRawData disc.bytes) r
        (Bytes.slice a.memory 0 (count * 2048)) lsn n
    else none
  out.getD ({ a.stray.1 with align := r.align, totalBlock := r.totalBlock }, count, a.stray.2)

/-- `DeviceReadSectorsCompressed`: its variables, the error and the buffer. `read_raw_data` drops
the errors of the device, so the error says only that the image ends before the sectors do. -/
def deviceReadSectorsCompressed (disc : Disc) (a : Answer) (r : ZsoReader) (lsn n : ℕ) :
    ZsoReader × CdErr × List UInt8 :=
  let (r, count, data) := zisoReadSector disc a r lsn n
  (r, if count = n then .no else .eom, data)

/-- A sector in a buffer. -/
def sectorAt (data : List UInt8) (i : ℕ) : Sector := fun j => data.getD (2048 * i + j) 0

/-- A call of `DeviceReadSectorsPtr`: the error, and the sectors that are stored. -/
def deviceReadSectorsPtr (disc : Disc) (st : State) (lsn n : ℕ) : State × CdErr × List Sector :=
  let (st, a) := st.ask
  match st.zso with
  | none => (st, a.err, (List.range n).map fun i => disc.raw (lsn + i))
  | some r =>
    let (r', err, data) := deviceReadSectorsCompressed disc a r lsn n
    ({ st with zso := some r', unserved := st.unserved || !a.serves r lsn n }, err,
      (List.range n).map (sectorAt data))

/-- The ZSO reader after `ziso_init` and `initCache`, which allocate their memory. -/
def zsoReader (cfg : Config) (disc : Disc) (memory : ℕ → UInt8) : ZsoReader :=
  Zso.zisoInit (Bytes.slice disc.bytes 0 2048)
    (SectorCache.initCache cfg.sectorCache fun i => Bytes.slice memory (2048 * i) 2048)
    (Bytes.slice memory 0 (4 * Zso.maxEntries)) (Bytes.slice memory 0 2048)

/-- `ProbeZSO`. -/
def probeZSO (cfg : Config) (disc : Disc) (st : State) : State × Bool :=
  let (st, a) := st.ask
  if a.err ≠ .no then (st, false)
  else
    let st := { st with probed := true }
    if disc.isZso then ({ st with zso := some (zsoReader cfg disc a.memory) }, true) else (st, true)

/-! ### Reading sectors -/

/-- One byte of the logo: `logo[j] ^= key` and a rotation by three bits. -/
def descrambleByte (key b : UInt8) : UInt8 :=
  ((b ^^^ key) <<< 3) ||| ((b ^^^ key) >>> 5)

/-- The descrambling loop, on one sector. -/
def descramble (key : UInt8) (s : Sector) : Sector := fun j => descrambleByte key (s j)

/-- The length of the next chunk. -/
def sectorsToRead (cfg : Config) (remaining : ℕ) : ℕ :=
  if cfg.accuReads && decide (8 < remaining) then 8 else remaining

theorem sectorsToRead_pos (cfg : Config) {remaining : ℕ} (h : remaining ≠ 0) :
    0 < sectorsToRead cfg remaining := by
  grind [sectorsToRead]

/-- The logo decryptor on a chunk of sectors that starts at `lsn`: the key is taken at sector 0,
and a chunk that starts below 13 is descrambled as a whole. -/
def descrambleChunk (key : UInt8) (lsn : ℕ) (data : List Sector) : UInt8 × List Sector :=
  if lsn < 13 then
    let key := if lsn = 0 then (data.headD default) 0 else key
    (key, if key ≠ 0 then data.map (descramble key) else data)
  else (key, data)

/-- The loop of `cdvdman_read_sectors`: the sectors stored before it ends. -/
def readLoop (cfg : Config) (disc : Disc) (st : State) (lsn remaining : ℕ) :
    State × List Sector :=
  if _h : remaining = 0 then (st, [])
  else
    let n := sectorsToRead cfg remaining
    let (st, err, data) := deviceReadSectorsPtr disc st lsn n
    let st := { st with err }
    if err ≠ .no then (st, [])
    else
      let (key, data) := descrambleChunk st.key lsn data
      let (st, rest) := readLoop cfg disc { st with key } (lsn + n) (remaining - n)
      (st, data ++ rest)
termination_by remaining
decreasing_by
  have := sectorsToRead_pos cfg _h
  omega

/-- The probe before the first read. -/
def probe (cfg : Config) (disc : Disc) (st : State) : State × Bool :=
  if st.probed then (st, true) else probeZSO cfg disc st

/-- The read goes past the end of the media. -/
def pastMedia (st : State) (lsn sectors : ℕ) : Bool :=
  decide (st.mediaLsnCount ≠ 0 ∧ st.mediaLsnCount < lsn + sectors)

/-- `cdvdman_read_sectors`: the sectors stored, when it returns `0`. A read past the end of the
media reads what there is and then fails. -/
def readSectors (cfg : Config) (disc : Disc) (st : State) (lsn sectors : ℕ) :
    State × Option (List Sector) :=
  if st.mediaLsnCount ≠ 0 ∧ st.mediaLsnCount ≤ lsn then ({ st with err := .ipi }, none)
  else
    let endOfMedia := pastMedia st lsn sectors
    let sectors := if endOfMedia then st.mediaLsnCount - lsn else sectors
    let (st, ok) := probe cfg disc st
    if ok then
      let (st, data) := readLoop cfg disc { st with err := .no } lsn sectors
      let err := if endOfMedia then .eom else st.err
      ({ st with err }, if err = .no then some data else none)
    else (st, none)

/-! ### Serving a request -/

/-- The BCD digits of a byte. -/
def toBcd (n : ℕ) : UInt8 := UInt8.ofNat (n / 10 * 16 + (n - n / 10 * 10))

/-- `sceCdIntToPos`: minute, second and sector of a sector number. -/
def sceCdIntToPos (i : ℕ) : UInt8 × UInt8 × UInt8 :=
  let i := (i + 150) % 2 ^ 32
  let se := i / 75
  let sc := i - se * 75
  let mi := se / 60
  (toBcd mi, toBcd (se - mi * 60), toBcd sc)

/-- The header `cdvdman_read` writes in front of a sector of 2340 bytes. -/
def sectorHeader (lsn : ℕ) : List UInt8 :=
  let (minute, second, sector) := sceCdIntToPos lsn
  [minute, second, sector, 0, 0, 0, 8, 0, 0, 0, 8, 0]

/-- What a sector that was read leaves in the destination. -/
def Request.slot (r : Request) (lsn : ℕ) (data : Sector) : Slot :=
  { header := if r.sectorSize = 2340 then sectorHeader lsn else [], data }

/-- How many sectors a bounced request reads at a time. -/
def Request.bounceSectors (cfg : Config) (r : Request) : ℕ :=
  if r.sectorSize ≠ 2048 then 1 else cfg.bufSectors

theorem Request.bounceSectors_pos (cfg : Config) (r : Request) : 0 < r.bounceSectors cfg := by
  grind [Request.bounceSectors, Config.bufSectors]

/-- The loop of `cdvdman_read` over the bounce buffer, which goes on after an error. -/
def bounceLoop (cfg : Config) (disc : Disc) (r : Request) (st : State) (rpos sectors : ℕ) :
    State × Option (List Slot) :=
  if _h : sectors = 0 then (st, some [])
  else
    let n := min sectors (r.bounceSectors cfg)
    let (st, data) := readSectors cfg disc st rpos n
    let (st, rest) := bounceLoop cfg disc r st (rpos + n) (sectors - n)
    (st, do return (← data).map (r.slot (rpos + n - 1)) ++ (← rest))
termination_by sectors
decreasing_by
  have := r.bounceSectors_pos cfg
  omega

/-- `cdvdman_read`: what is stored for each sector of the request, when every
`cdvdman_read_sectors` returned `0`. -/
def read (cfg : Config) (disc : Disc) (st : State) (r : Request) : State × Option (List Slot) :=
  if r.bounced then bounceLoop cfg disc r st r.lsn r.sectors
  else
    let (st, data) := readSectors cfg disc st r.lsn r.sectors
    (st, data.map (·.map (r.slot r.lsn)))

/-! ### Runs -/

/-- What happens to the reader: a request, or `cdvdman_searchfile_init` learning the size of the
disc. -/
inductive Event
  | read (r : Request)
  | media (lsnCount : ℕ)

/-- The reader takes a step. -/
def step (cfg : Config) (disc : Disc) (st : State) : Event → Option State
  | .read r => some (read cfg disc st r).1
  | .media lsnCount => some { st with mediaLsnCount := lsnCount }

/-- The reader before the first read. -/
def initState (device : ℕ → Answer) : State :=
  { probed := false, zso := none, key := 0, mediaLsnCount := 0, err := .no, device
    unserved := false }

/-- The states some run leads to. -/
def Reachable (cfg : Config) (disc : Disc) (st : State) : Prop :=
  ∃ device events, Transition.run (step cfg disc) (initState device) events = some st

end Read

end OpenPS2Loader
