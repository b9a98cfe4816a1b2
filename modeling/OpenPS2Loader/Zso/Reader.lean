import OpenPS2Loader.Zso.RawData

/-!
# The reader of compressed images

`zso.c`: the image is a header, an index of 32-bit block positions, and the blocks. The top bit of
an entry marks a block that is stored as it is, the other bits are its position in units of
`2 ^ align` bytes, and a block ends where the next one begins. Entries are taken from a cache of
`ZISO_IDX_MAX_ENTRIES` consecutive ones.

A read outside an array of the program, and a buffer that would have to start before the one the
caller gave, is `none`.

## Main definitions

* `Reader`, `zisoInit` — the variables of the reader
* `zisoReadSector` — read sectors of the image
-/

namespace OpenPS2Loader

namespace Zso

open Bytes

variable {σ : Type}

/-- LZ4: what the packer of the image does to a block, and `LZ4_decompress_fast` for blocks of 2048
bytes, which is given a buffer that starts with the compressed block. -/
structure Codec where
  compress : List UInt8 → List UInt8
  decompressFast : List UInt8 → List UInt8

/-- `ZISO_IDX_MAX_ENTRIES`. -/
def maxEntries : ℕ := 257

/-- `sizeof(ZISO_header)`. -/
def headerSize : ℕ := 24

/-- The variables of `zso.c`. `idxStart` is the 32-bit pattern of `ziso_idx_start_block`. -/
structure Reader (σ : Type) where
  align : ℕ
  totalBlock : ℕ
  idxStart : ℕ
  idxCache : List UInt8
  tmp : List UInt8
  raw : σ

/-- `ziso_init`, on the memory that was allocated. -/
def zisoInit (header : List UInt8) (raw : σ) (idxCache tmp : List UInt8) : Reader σ where
  align := ofLe ((header.drop 21).take 1)
  totalBlock := (ofLe ((header.drop 8).take 4) >>> 11) |||
    ((ofLe ((header.drop 12).take 4) &&& 0x7ff) <<< 21)
  idxStart := 2 ^ 32 - 1
  idxCache := idxCache
  tmp := tmp
  raw := raw

namespace Reader

/-- The `i`-th entry of a table of 32-bit numbers. -/
def entryAt (table : List UInt8) (i : ℕ) : ℕ := ofLe ((table.drop (4 * i)).take 4)

/-- `ziso_idx_cache[b - ziso_idx_start_block]`. -/
def lookup (r : Reader σ) (b : ℕ) : Option ℕ :=
  let i := (b + 2 ^ 32 - r.idxStart) % 2 ^ 32
  if i < maxEntries then some (entryAt r.idxCache i) else none

/-- The index is read again from `lsn` on when the cached part does not cover the call. -/
def refresh (raw : RawRead σ) (r : Reader σ) (lsn count : ℕ) : Option (Reader σ) :=
  if 2 ^ 31 ≤ r.idxStart ∨ lsn < r.idxStart ∨
      r.idxStart + maxEntries - 1 ≤ (lsn + count) % 2 ^ 32 then do
    let (st, tmp, idxCache) ← raw r.raw true r.tmp r.idxCache ((lsn * 4 + headerSize) % 2 ^ 32) 0
    some { r with raw := st, tmp := tmp, idxCache := idxCache, idxStart := lsn }
  else some r

end Reader

/-- `o_end - o_start`, in bytes. -/
def sizeBetween (align oStart oEnd : ℕ) : ℕ :=
  (oEnd + 2 ^ 32 - oStart) % 2 ^ 32 * 2 ^ align % 2 ^ 32

/-- The variables of the loop over the blocks: the caller's buffer, with `addr` and `c_buff` as
positions in it. -/
structure Cursor where
  buf : List UInt8
  tmp : List UInt8
  curBlock : ℕ
  addr : ℕ
  cBuff : ℕ

/-- The data of a block of `size` bytes, without the padding of a block of more than a sector. -/
def Cursor.data (c : Cursor) (size : ℕ) : List UInt8 := (c.buf.drop c.cBuff).take (min size 2048)

/-- A block with entry `e` is decompressed through the temporary buffer, or moved to its place. -/
def Cursor.store (z : Codec) (c : Cursor) (e size : ℕ) : Option Cursor :=
  if c.buf.length < c.cBuff + min size 2048 then none
  else if e < 2 ^ 31 then
    some ⟨overwrite c.buf c.addr (z.decompressFast (overwrite c.tmp 0 (c.data size))),
      overwrite c.tmp 0 (c.data size), c.curBlock + 1, c.addr + 2048, c.cBuff + size⟩
  else
    some ⟨overwrite c.buf c.addr (c.data size), c.tmp, c.curBlock + 1, c.addr + 2048,
      c.cBuff + size⟩

/-- One round of the loop. -/
def readBlock (z : Codec) (align : ℕ) (lookup : ℕ → Option ℕ) (c : Cursor) : Option Cursor :=
  (lookup c.curBlock).bind fun e => (lookup (c.curBlock + 1)).bind fun e' =>
    c.store z e (sizeBetween align (e % 2 ^ 31) (e' % 2 ^ 31))

/-- The loop over the blocks. -/
def readBlocks (z : Codec) (align : ℕ) (lookup : ℕ → Option ℕ) : ℕ → Cursor → Option Cursor
  | 0, c => some c
  | n + 1, c => (readBlock z align lookup c).bind (readBlocks z align lookup n)

/-- The `size` bytes of compressed data at `oStart` are read to the end of the buffer, and expanded
from there block by block. -/
def expandData (z : Codec) (raw : RawRead σ) (lookup : ℕ → Option ℕ) (r : Reader σ)
    (buf : List UInt8) (lsn count oStart size : ℕ) : Option (Reader σ × ℕ × List UInt8) :=
  if count * 2048 < size then none
  else
    (raw r.raw false r.tmp ((buf.drop (count * 2048 - size)).take size) oStart r.align).bind
      fun (st, tmp, data) =>
        (readBlocks z r.align lookup count
          ⟨overwrite buf (count * 2048 - size) data, tmp, lsn, 0, count * 2048 - size⟩).map
            fun cur => ({ r with raw := st, tmp := cur.tmp }, count, cur.buf)

/-- What `ziso_read_sector` does once the index is there. -/
def expand (z : Codec) (raw : RawRead σ) (lookup : ℕ → Option ℕ) (r : Reader σ) (buf : List UInt8)
    (lsn count : ℕ) : Option (Reader σ × ℕ × List UInt8) :=
  (lookup lsn).bind fun e => (lookup (lsn + count)).bind fun e' =>
    expandData z raw lookup r buf lsn count (e % 2 ^ 31)
      (sizeBetween r.align (e % 2 ^ 31) (e' % 2 ^ 31))

/-- `count`, adjusted to the end of the image. -/
def clampCount (total lsn count : ℕ) : ℕ :=
  if total < (lsn + count) % 2 ^ 32 then total - lsn else count

/-- `ziso_read_sector`: what it returns, and what the buffer of the caller holds then. -/
def zisoReadSector (z : Codec) (raw : RawRead σ) (r : Reader σ) (buf : List UInt8)
    (lsn count : ℕ) : Option (Reader σ × ℕ × List UInt8) :=
  if r.totalBlock ≤ lsn then some (r, 0, buf)
  else
    let count := clampCount r.totalBlock lsn count
    (r.refresh raw lsn count).bind fun r => expand z raw r.lookup r buf lsn count

end Zso

end OpenPS2Loader
