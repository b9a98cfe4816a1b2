import Mathlib.Data.List.Basic
import Mathlib.Data.List.DropRight
import OpenPS2Loader.Lib.Bytes

/-!
# The archive loader

`tar.c` reads art, configurations and cheats out of an uncompressed tar archive. The headers are
scanned once (`tarParseFile`) into an index of offsets, sizes and names, which is kept in a sidecar
file for the next session; a file is read through its index entry (`tarRead`).

An archive is a list of bytes. Memory is a parameter: `alloc` says which sizes `realloc` and
`malloc` can give.

## Main definitions

* `Tar.parseLoop` — the scan over the headers
* `Tar.tarReadCache`, `Tar.tarWriteCache` — the sidecar
* `Tar.tarParseFile`, `Tar.findEntry`, `Tar.tarRead`
-/

namespace OpenPS2Loader

namespace Tar

open Bytes

/-- `MAX_FILE_SIZE` -/
def maxFileSize : ℕ := 4 * 1024 * 1024

/-- `TarKind` -/
inductive Kind
  | art | cfg | cht
  deriving DecidableEq, Repr

/-- `entrySize`: the sizes of `TarEntryArt`, `TarEntryCfg` and `TarEntryCht`. -/
def Kind.entrySize : Kind → ℕ
  | .art => 64
  | .cfg => 40
  | .cht => 40

/-- `nameMax`; `TarEntryBase` has 16 bytes. -/
def Kind.nameMax (k : Kind) : ℕ := k.entrySize - 16 - 1

/-- An entry of the index: `TarEntryBase` and the name behind it. -/
structure Entry where
  offset : ℕ
  rawSize : ℕ
  paddedSize : ℕ
  name : List UInt8
  deriving DecidableEq, Repr

/-! ### Headers -/

def isOctal (c : UInt8) : Bool := 48 ≤ c && c ≤ 55

/-- `parseOctal` -/
def parseOctal (s : List UInt8) : ℕ :=
  (s.takeWhile isOctal).foldl (fun v c => 8 * v + (c.toNat - 48)) 0

/-- `isZeroBlock` -/
def isZeroBlock (h : List UInt8) : Bool := h.all (· == 0)

def typeflag (h : List UInt8) : UInt8 := h.getD 156 0

def rawSize (h : List UInt8) : ℕ := parseOctal (field h 124 12)

def paddedSize (h : List UInt8) : ℕ := (rawSize h + 511) / 512 * 512

/-- A field of text: blanks at its end are cut off, and it ends at a NUL. -/
def trimField (f : List UInt8) : List UInt8 :=
  (f.rdropWhile fun c => c == 32 || c == 0).takeWhile (· != 0)

/-- The prefix and the name, joined. -/
def joinPath (pre name : List UInt8) : List UInt8 :=
  if pre = [] then name else pre ++ 47 :: name

/-- `fullPath`, an array of 256 characters. -/
def fullPath (h : List UInt8) : List UInt8 :=
  (joinPath (trimField (field h 345 155)) (trimField (field h 0 100))).take 255

/-- `tolower` -/
def toLower (c : UInt8) : UInt8 := if 65 ≤ c && c ≤ 90 then c + 32 else c

/-- A leading `"./"` is cut off. -/
def stripDot (p : List UInt8) : List UInt8 := if p.take 2 = [46, 47] then p.drop 2 else p

/-- A leading `"ART/"`, `"CFG/"` or `"CHT/"` is cut off. -/
def stripDir (p : List UInt8) : List UInt8 :=
  if (p.take 4).map toLower ∈ [[97, 114, 116, 47], [99, 102, 103, 47], [99, 104, 116, 47]] then
    p.drop 4
  else p

/-- `cleanName`, and `queryClean` of the lookups -/
def cleanName (p : List UInt8) : List UInt8 := stripDir (stripDot p)

/-- The name in the index: `strncpy` of `nameMax` characters, and a NUL over the last. -/
def storedName (k : Kind) (h : List UInt8) : List UInt8 :=
  (cleanName (fullPath h)).take (k.nameMax - 1)

/-- The entry of a member whose data is at `off`. -/
def entryOf (k : Kind) (h : List UInt8) (off : ℕ) : Entry :=
  ⟨off, rawSize h, paddedSize h, storedName k h⟩

/-! ### The scan -/

/-- `newCap` -/
def newCap (cap : ℕ) : ℕ := if cap = 0 then 64 else cap + 64

/-- The capacity with room for one more entry. The size is a `u32`. -/
def grow (k : Kind) (alloc : ℕ → Bool) (count cap : ℕ) : Option ℕ :=
  if count < cap then some cap
  else if 2 ^ 32 ≤ k.entrySize * newCap cap then none
  else if alloc (k.entrySize * newCap cap) then some (newCap cap)
  else none

/-- The scan from position `pos` on, with the index so far and its capacity. `none` is a failure. -/
def parseLoop (k : Kind) (alloc : ℕ → Bool) (file : List UInt8) :
    ℕ → ℕ → List Entry → ℕ → Option (List Entry)
  | 0, _, _, _ => none
  | fuel + 1, pos, index, cap =>
    if field file pos 512 = [] then some index
    else if (field file pos 512).length ≠ 512 then none
    else if isZeroBlock (field file pos 512) then parseLoop k alloc file fuel (pos + 512) index cap
    else if typeflag (field file pos 512) ≠ 0 ∧ typeflag (field file pos 512) ≠ 48 then
      parseLoop k alloc file fuel (pos + 512 + paddedSize (field file pos 512)) index cap
    else if maxFileSize < rawSize (field file pos 512) then
      parseLoop k alloc file fuel (pos + 512 + paddedSize (field file pos 512)) index cap
    else
      (grow k alloc index.length cap).bind
        (parseLoop k alloc file fuel (pos + 512 + paddedSize (field file pos 512))
          (index ++ [entryOf k (field file pos 512) (pos + 512)]))

/-! ### The sidecar -/

/-- A sidecar file: its header, and the entries behind it. -/
structure Sidecar where
  magic : List UInt8
  version : ℕ
  tarSize : ℕ
  entryCount : ℕ
  entries : List Entry
  deriving DecidableEq, Repr

/-- `ARC_MAGIC` -/
def arcMagic : List UInt8 := [65, 82, 67, 0]

/-- `ARC_VERSION` -/
def arcVersion : ℕ := 4

/-- `tarReadCache`: the index in the sidecar, if it is accepted. -/
def tarReadCache (k : Kind) (alloc : ℕ → Bool) (tarSize : ℕ) (s : Sidecar) : Option (List Entry) :=
  if alloc (24 + k.entrySize * s.entries.length) = false then none
  else if s.magic ≠ arcMagic ∨ s.version ≠ arcVersion then none
  else if tarSize ≠ s.tarSize then none
  else if s.entries.length < s.entryCount then none
  else if alloc (k.entrySize * s.entryCount) = false then none
  else if (s.entries.take s.entryCount).any fun e => maxFileSize < e.rawSize then none
  else some (s.entries.take s.entryCount)

/-- `tarWriteCache` -/
def tarWriteCache (tarSize : ℕ) (index : List Entry) : Sidecar :=
  ⟨arcMagic, arcVersion, tarSize, index.length, index⟩

/-- `tarParseFile`: the index, and the sidecar that is left. `written` says whether the sidecar
could be written; one that could not is not accepted later. -/
def tarParseFile (k : Kind) (alloc : ℕ → Bool) (written : Bool) (file : List UInt8)
    (sidecar : Option Sidecar) : Option (List Entry × Option Sidecar) :=
  match sidecar.bind (tarReadCache k alloc file.length) with
  | some index => some (index, sidecar)
  | none => (parseLoop k alloc file (file.length + 1) 0 [] 0).map fun index =>
      (index, if written then some (tarWriteCache file.length index) else none)

/-! ### Looking up and reading -/

/-- `strcasecmp` says equal. -/
def eqNoCase (a b : List UInt8) : Bool := a.map toLower == b.map toLower

/-- `baseFname`: what is behind the last `/`. -/
def baseName (p : List UInt8) : List UInt8 := p.rtakeWhile (· != 47)

/-- The test of `tarFind` and `tarFindExact`. -/
def nameMatches (filename : List UInt8) (e : Entry) : Bool :=
  eqNoCase e.name filename || eqNoCase e.name (cleanName filename) ||
    eqNoCase (baseName e.name) (cleanName filename)

/-- The loop of `tarFind` and `tarFindExact`. -/
def findEntry (index : List Entry) (filename : List UInt8) : Option Entry :=
  index.find? (nameMatches filename)

/-- The loop of `tarRead`: `amount` says how many bytes each `read` gives, at least one before the
end of the file. -/
def readLoop (file : List UInt8) (e : Entry) (amount : ℕ → ℕ) : ℕ → List UInt8 → Option (List UInt8)
  | 0, _ => none
  | fuel + 1, dst =>
    if dst.length < e.rawSize then
      if file.length ≤ e.offset + dst.length then none
      else
        readLoop file e amount fuel (dst ++ field file (e.offset + dst.length)
          (min (max 1 (amount dst.length)) (e.rawSize - dst.length)))
    else some dst

/-- `tarRead`: what is read, or nothing when it fails. -/
def tarRead (file : List UInt8) (e : Entry) (dstSize : ℕ) (amount : ℕ → ℕ) : Option (List UInt8) :=
  if dstSize < e.rawSize then none else readLoop file e amount (e.rawSize + 1) []

end Tar

end OpenPS2Loader
