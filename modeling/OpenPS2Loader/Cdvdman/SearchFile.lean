import Mathlib.Data.Nat.Notation
import Mathlib.Data.Int.Notation
import Mathlib.Tactic.SplitIfs
import OpenPS2Loader.Lib.Bytes

/-!
# Looking a file up on the disc

`cdvdman_locatefile` and `cdvdman_findfile` of `modules/iopcore/cdvdman/searchfile.c`. A directory
is an extent of sectors, and a sector is a chain of records: the first starts at its first byte,
the next one where the length of the last one says, until a length of zero or the last 32 bytes.

The walk takes everything from the disc. Whether it ends, and whether it stays inside
`cdvdman_buf`, is a matter of the records it comes to, so the loop over the records of a sector has
fuel here and reading outside the 2048 bytes of the sector is a fault. The two loops around it are
bounded by the length of the extent and by the length of the path.

`sceCdRead` returns 1 for a sector behind the volume and leaves `cdvdman_buf` as it was: then the
records of the sector that was read last are walked once more, under the number of the new one.

## What is left out

What `cdvdman_findfile` writes to its `sceCdlFILE` from the record it found, and its semaphore.

## Main definitions

* `components` — how the path is taken apart
* `CdRead`, `Drive.sceCdRead` — what a read of a sector leaves in `cdvdman_buf`
* `scan`, `searchExtent`, `locatefile`, `findfile` — the lookup
* `Hit`, `Miss`, `Lookup` — the first entry with a name, and the lookup of a path by it
* `Clean`, `PathClean` — chains of records that end and stay inside the sector

## Main results

* `scan_of_clean`, `clean_of_scan` — one sector
* `lookup_iff` — the lookups that do what they should
-/

namespace OpenPS2Loader

namespace SearchFile

open Bytes

/-! ### The path -/

/-- Skip the slashes in front: first `/`, then `\`. -/
def skipSlashes (p : List UInt8) : List UInt8 := (p.dropWhile (· = 47)).dropWhile (· = 92)

/-- Where the component at the front ends: at the first `/`, and at the first `\` only if there is
no `/` at all. -/
def slashAt (p : List UInt8) : Option ℕ :=
  match p.idxOf? 47 with
  | some i => some i
  | none => p.idxOf? 92

theorem slashAt_lt {p : List UInt8} {i : ℕ} (h : slashAt p = some i) : i < p.length := by
  have hidx : ∀ c : UInt8, p.idxOf? c = some i → i < p.length := fun c hc => by
    rw [List.idxOf?] at hc
    exact (List.findIdx?_eq_some_iff_getElem.mp hc).1
  rw [slashAt] at h
  split at h
  · cases h
    exact hidx 47 ‹_›
  · exact hidx 92 h

theorem length_skipSlashes_le (p : List UInt8) : (skipSlashes p).length ≤ p.length :=
  le_trans (List.dropWhile_sublist _).length_le (List.dropWhile_sublist _).length_le

/-- What `cdvdman_dirname` holds at each turn, for the path `p`: a component that does not fit is
cut to 31 bytes. All but the last are looked up as directories. -/
def components (p : List UInt8) : List (List UInt8) :=
  match h : slashAt (skipSlashes p) with
  | none => [(skipSlashes p).take 31]
  | some i => ((skipSlashes p).take i).take 31 :: components ((skipSlashes p).drop (i + 1))
  termination_by p.length
  decreasing_by
    have := slashAt_lt h
    have := length_skipSlashes_le p
    simp only [List.length_drop]
    omega

/-- `cdvdman_trimspaces`: spaces and full stops at the end are taken off. -/
def trimspaces (str : List UInt8) : List UInt8 :=
  (str.reverse.dropWhile fun c => c = 32 ∨ c = 46).reverse

/-- `cdvdman_filepath`. -/
def filepath (name : List UInt8) : List UInt8 := trimspaces (name.take 255)

/-! ### Records -/

/-- What `cdvdman_buf` holds: 2048 bytes, and whatever is behind them. -/
abbrev Sector := ℕ → UInt8

variable (sec : Sector) (p : ℕ)

/-- `short length`. -/
def length : ℤ :=
  let n := ofLe (slice sec p 2)
  if n < 32768 then n else (n : ℤ) - 65536

def fileLBA : UInt32 := .ofNat (ofLe (slice sec (p + 2) 4))

def fileSize : UInt32 := .ofNat (ofLe (slice sec (p + 10) 4))

/-- Bit 1 of `fileProperties`: the record is a directory. -/
def isDirectory : Bool := sec (p + 25) &&& 2 ≠ 0

def filenameLength : ℕ := (sec (p + 32)).toNat

/-- `filename_len` after it was clamped to `cdvdman_curdir`. -/
def clampedLength : ℕ := if filenameLength sec p ≥ 15 then 14 else filenameLength sec p

/-- `cdvdman_curdir`: `strncpy` stops at a zero byte. -/
def curdir : List UInt8 := (slice sec (p + 33) (clampedLength sec p)).takeWhile (· ≠ 0)

/-- How many bytes of the name `strncpy` looks at. -/
def nameReads : ℕ := min (clampedLength sec p) ((curdir sec p).length + 1)

/-- The `strncpy` of the name stays inside the sector. -/
def NameInside : Prop := p + 33 + nameReads sec p ≤ 2048

/-- The record is what the walk looks for: its name agrees in the first 12 bytes, and it is a
directory if more of the path follows. -/
def Matches (name : List UInt8) (slash : Bool) : Prop :=
  name.take 12 = (curdir sec p).take 12 ∧ (slash = true → isDirectory sec p = true)

instance : Decidable (NameInside sec p) := inferInstanceAs (Decidable (_ ≤ _))

instance (name : List UInt8) (slash : Bool) : Decidable (Matches sec p name slash) :=
  inferInstanceAs (Decidable (_ ∧ _))

/-! ### The walk -/

/-- How the walk over the records of a sector comes out. -/
inductive Scan
  /-- Still walking. -/
  | timeout
  /-- A byte outside the sector was read. -/
  | fault
  /-- The last record was passed. -/
  | stop
  /-- The file, at this position. -/
  | file (p : ℕ)
  /-- The directory, at this position. -/
  | dir (p : ℕ)
  deriving DecidableEq, Repr

variable {p}

/-- The `do` loop over the records of a sector. A record without a name does not move `tocPos`. -/
def scan (name : List UInt8) (slash : Bool) : ℕ → ℤ → Scan
  | 0, _ => .timeout
  | fuel + 1, tocPos =>
    if 0 ≤ tocPos ∧ tocPos + 33 ≤ 2048 then
      let p := tocPos.toNat
      if length sec p = 0 then .stop
      else if filenameLength sec p = 0 then
        if tocPos < 2016 then scan name slash fuel tocPos else .stop
      else if NameInside sec p then
        if name.take 12 = (curdir sec p).take 12 ∧ slash = false then .file p
        else if name.take 12 = (curdir sec p).take 12 ∧ isDirectory sec p then .dir p
        else if tocPos + length sec p < 2016 then
          scan name slash fuel (tocPos + length sec p)
        else .stop
      else .fault
    else .fault

/-- What `sceCdRead` does with a sector: it returns 0, it leaves `cdvdman_buf` as it is, or the
sector is in the buffer. -/
inductive CdRead
  | refused
  | skipped
  | stored (sec : Sector)

/-- `cdvdman_buf` when a sector was read. -/
def CdRead.after (buf : Sector) : CdRead → Option Sector
  | .refused => none
  | .skipped => some buf
  | .stored sec => some sec

/-- A disc in the drive. -/
structure Drive where
  content : UInt32 → Sector
  /-- the sectors of the volume, or 0 -/
  mediaLsnCount : UInt32
  /-- another command is under way -/
  busy : UInt32 → Bool

/-- `sceCdRead` of one sector. An error is left in `cdvdman_stat` only. -/
def Drive.sceCdRead (v : Drive) (lsn : UInt32) : CdRead :=
  if v.busy lsn then .refused
  else if v.mediaLsnCount ≠ 0 ∧ v.mediaLsnCount ≤ lsn then .skipped
  else .stored (v.content lsn)

/-- A record that was found: the sector that was asked for, where it is in the buffer, and what it
names. -/
structure Entry where
  lsn : UInt32
  pos : ℕ
  fileLBA : UInt32
  fileSize : UInt32
  deriving DecidableEq, Repr

/-- The record at `p` of sector `lsn`. -/
def entry (lsn : UInt32) (p : ℕ) : Entry :=
  ⟨lsn, p, SearchFile.fileLBA sec p, SearchFile.fileSize sec p⟩

/-- `tocLBA` and `tocLength` of a directory. -/
structure Extent where
  lba : UInt32
  length : UInt32
  deriving DecidableEq, Repr

/-- The turns of `while (tocLength > 0)`: `tocLength` is an `int`. -/
def Extent.sectors (d : Extent) : ℕ :=
  if d.length < 2147483648 then (d.length.toNat + 2047) / 2048 else 0

/-- The sectors of the extent. -/
def Extent.Contains (d : Extent) (lsn : UInt32) : Prop := ∃ j < d.sectors, lsn = d.lba + .ofNat j

/-- How the search of an extent comes out. -/
inductive Search
  | timeout
  | fault
  /-- `NULL`: nothing was found, or `sceCdRead` returned 0. -/
  | null
  | file (e : Entry)
  | dir (e : Entry)
  deriving DecidableEq, Repr

/-- The `while` loop over the sectors of an extent, with the sectors it asks for and what
`cdvdman_buf` holds then. `disc` is `sceCdRead`. -/
def searchExtent (disc : UInt32 → CdRead) (name : List UInt8) (slash : Bool) (fuel : ℕ) :
    ℕ → UInt32 → Sector → List UInt32 × Sector × Search
  | 0, _, buf => ([], buf, .null)
  | n + 1, lba, buf =>
    match (disc lba).after buf with
    | none => ([lba], buf, .null)
    | some buf =>
      match scan buf name slash fuel 0 with
      | .timeout => ([lba], buf, .timeout)
      | .fault => ([lba], buf, .fault)
      | .file p => ([lba], buf, .file (entry buf lba p))
      | .dir p => ([lba], buf, .dir (entry buf lba p))
      | .stop =>
        let (reads, r) := searchExtent disc name slash fuel n (lba + 1) buf
        (lba :: reads, r)

/-- What decides where the extent of a directory is. -/
structure Layer where
  /-- `IOPCORE_COMPAT_EMU_DVDDL`. -/
  emuDvddl : Bool
  /-- From `sceCdReadDvdDualInfo`. -/
  layer1Start : UInt32
  /-- `layer != 0`. -/
  second : Bool
  deriving DecidableEq, Repr

/-- The extent of a directory that was found. -/
def Layer.extent (l : Layer) (e : Entry) : Extent :=
  ⟨if l.emuDvddl = false ∧ l.second = true then e.fileLBA + l.layer1Start
    else e.fileLBA, e.fileSize⟩

/-- A lookup that returned: the records of the directories that were followed, the sectors that were
asked for, and the record, `none` for `NULL`. -/
structure Trace where
  followed : List Entry
  reads : List UInt32
  found : Option Entry
  deriving DecidableEq, Repr

inductive Outcome
  | timeout
  | fault
  | returns (t : Trace)
  deriving DecidableEq, Repr

/-- The directory of `e` was followed, before the rest of the lookup. -/
def Outcome.after (e : Entry) (reads : List UInt32) : Outcome → Outcome
  | .returns t => .returns ⟨e :: t.followed, reads ++ t.reads, t.found⟩
  | r => r

/-- The lookup of the components that are left, from the directory `d` on. -/
def locate (disc : UInt32 → CdRead) (l : Layer) (fuel : ℕ) :
    List (List UInt8) → Extent → Sector → Outcome
  | [], _, _ => .returns ⟨[], [], none⟩
  | name :: rest, d, buf =>
    match searchExtent disc name (!rest.isEmpty) fuel d.sectors d.lba buf with
    | (_, _, .timeout) => .timeout
    | (_, _, .fault) => .fault
    | (reads, _, .null) => .returns ⟨[], reads, none⟩
    | (reads, _, .file e) => .returns ⟨[], reads, some e⟩
    | (reads, buf, .dir e) => (locate disc l fuel rest (l.extent e) buf).after e reads

/-- `cdvdman_locatefile`, when `cdvdman_buf` holds `buf`. -/
def locatefile (disc : UInt32 → CdRead) (l : Layer) (fuel : ℕ) (name : List UInt8)
    (toc : Extent) (buf : Sector) : Outcome :=
  locate disc l fuel (components name) toc buf

/-- `cdvdman_findfile`, up to the record. `layerInfo` are the root directories of the two layers. -/
def findfile (disc : UInt32 → CdRead) (layerInfo : Extent × Extent) (l : Layer) (fuel : ℕ)
    (name : List UInt8) (buf : Sector) : Outcome :=
  let l := if l.emuDvddl then { l with second := false } else l
  let root := if l.second then layerInfo.2 else layerInfo.1
  if root.lba = 0 then .returns ⟨[], [], none⟩ else locatefile disc l fuel (filepath name) root buf

/-! ### What a lookup should do -/

/-- From the record at `pos` on, the first one that matches is at `q`. -/
inductive Hit (name : List UInt8) (slash : Bool) : ℤ → ℤ → Prop
  | here {pos : ℤ} : length sec pos.toNat ≠ 0 → Matches sec pos.toNat name slash →
      Hit name slash pos pos
  | next {pos q : ℤ} : length sec pos.toNat ≠ 0 → ¬ Matches sec pos.toNat name slash →
      pos + length sec pos.toNat < 2016 → Hit name slash (pos + length sec pos.toNat) q →
      Hit name slash pos q

/-- From the record at `pos` on, none matches. -/
inductive Miss (name : List UInt8) (slash : Bool) : ℤ → Prop
  | stop {pos : ℤ} : length sec pos.toNat = 0 → Miss name slash pos
  | last {pos : ℤ} : length sec pos.toNat ≠ 0 → ¬ Matches sec pos.toNat name slash →
      2016 ≤ pos + length sec pos.toNat → Miss name slash pos
  | next {pos : ℤ} : length sec pos.toNat ≠ 0 → ¬ Matches sec pos.toNat name slash →
      pos + length sec pos.toNat < 2016 → Miss name slash (pos + length sec pos.toNat) →
      Miss name slash pos

/-- The first entry that matches in the `n` sectors from `lba` on. A sector that is not read has
none. -/
inductive ExtentHit (disc : UInt32 → CdRead) (name : List UInt8) (slash : Bool) :
    ℕ → UInt32 → Entry → Prop
  | here {n : ℕ} {lba : UInt32} {sec : Sector} {q : ℤ} :
      disc lba = .stored sec → Hit sec name slash 0 q →
      ExtentHit disc name slash (n + 1) lba (entry sec lba q.toNat)
  | next {n : ℕ} {lba : UInt32} {sec : Sector} {e : Entry} :
      disc lba = .stored sec → Miss sec name slash 0 →
      ExtentHit disc name slash n (lba + 1) e →
      ExtentHit disc name slash (n + 1) lba e
  | past {n : ℕ} {lba : UInt32} {e : Entry} :
      disc lba = .skipped → ExtentHit disc name slash n (lba + 1) e →
      ExtentHit disc name slash (n + 1) lba e

/-- No entry matches, up to the end of the extent or to where `sceCdRead` returns 0. -/
inductive ExtentMiss (disc : UInt32 → CdRead) (name : List UInt8) (slash : Bool) :
    ℕ → UInt32 → Prop
  | stop {lba : UInt32} : ExtentMiss disc name slash 0 lba
  | refused {n : ℕ} {lba : UInt32} : disc lba = .refused → ExtentMiss disc name slash (n + 1) lba
  | next {n : ℕ} {lba : UInt32} {sec : Sector} : disc lba = .stored sec → Miss sec name slash 0 →
      ExtentMiss disc name slash n (lba + 1) →
      ExtentMiss disc name slash (n + 1) lba
  | past {n : ℕ} {lba : UInt32} : disc lba = .skipped → ExtentMiss disc name slash n (lba + 1) →
      ExtentMiss disc name slash (n + 1) lba

/-- Looking up a path by the first entry with each of its names: the records of the directories that
are followed, and the record of the last name if every name has one. -/
inductive Lookup (disc : UInt32 → CdRead) (l : Layer) :
    List (List UInt8) → Extent → List Entry → Option Entry → Prop
  | file {name : List UInt8} {d : Extent} {e : Entry} :
      ExtentHit disc name false d.sectors d.lba e → Lookup disc l [name] d [] (some e)
  | dir {name : List UInt8} {rest : List (List UInt8)} {d : Extent} {followed : List Entry}
      {e : Entry} {r : Option Entry} : rest ≠ [] → ExtentHit disc name true d.sectors d.lba e →
      Lookup disc l rest (l.extent e) followed r → Lookup disc l (name :: rest) d (e :: followed) r
  | miss {name : List UInt8} {rest : List (List UInt8)} {d : Extent} :
      ExtentMiss disc name (!rest.isEmpty) d.sectors d.lba →
      Lookup disc l (name :: rest) d [] none

/-- What a lookup of `names` from `d` on should do: with enough fuel it returns, it has asked for
sectors of `d` and of the directories it followed and for nothing else, and those and the record are
the right ones. -/
def Correct (disc : UInt32 → CdRead) (l : Layer) (names : List (List UInt8)) (d : Extent)
    (outcome : ℕ → Outcome) : Prop :=
  ∃ t : Trace, (∃ n, ∀ fuel ≥ n, outcome fuel = .returns t) ∧
    (∀ lsn ∈ t.reads, ∃ d' ∈ d :: t.followed.map l.extent, d'.Contains lsn) ∧
    Lookup disc l names d t.followed t.found

/-! ### Directories that can be walked -/

/-- The record at `pos` starts inside the sector, has a name, and its name ends inside it too. -/
structure RecordOk (pos : ℤ) : Prop where
  nonneg : 0 ≤ pos
  named : filenameLength sec pos.toNat ≠ 0
  inside : NameInside sec pos.toNat

/-- From `pos` on, the chain of records comes to one that matches, to a length of zero or to the
last 32 bytes of the sector, and every record on it is `RecordOk`. -/
inductive Clean (name : List UInt8) (slash : Bool) : ℤ → Prop
  | stop {pos : ℤ} : 0 ≤ pos → length sec pos.toNat = 0 → Clean name slash pos
  | hit {pos : ℤ} : length sec pos.toNat ≠ 0 → RecordOk sec pos →
      Matches sec pos.toNat name slash → Clean name slash pos
  | last {pos : ℤ} : length sec pos.toNat ≠ 0 → RecordOk sec pos →
      ¬ Matches sec pos.toNat name slash → 2016 ≤ pos + length sec pos.toNat → Clean name slash pos
  | next {pos : ℤ} : length sec pos.toNat ≠ 0 → RecordOk sec pos →
      ¬ Matches sec pos.toNat name slash → pos + length sec pos.toNat < 2016 →
      Clean name slash (pos + length sec pos.toNat) → Clean name slash pos

/-- The sectors of an extent up to the one with the entry can be walked. Where a sector is skipped,
what is still in the buffer can be walked, and has no record that matches. -/
def ExtentClean (disc : UInt32 → CdRead) (name : List UInt8) (slash : Bool) :
    ℕ → UInt32 → Sector → Prop
  | 0, _, _ => True
  | n + 1, lba, buf =>
    match disc lba with
    | .refused => True
    | .skipped => Clean buf name slash 0 ∧ Miss buf name slash 0 ∧
        ExtentClean disc name slash n (lba + 1) buf
    | .stored sec => Clean sec name slash 0 ∧
        (Miss sec name slash 0 → ExtentClean disc name slash n (lba + 1) sec)

/-- The directories on the way to the file can be walked; the buffer holds the sector of the record
that was followed last. -/
def PathClean (disc : UInt32 → CdRead) (l : Layer) :
    List (List UInt8) → Extent → Sector → Prop
  | [], _, _ => True
  | name :: rest, d, buf => ExtentClean disc name (!rest.isEmpty) d.sectors d.lba buf ∧
      (rest ≠ [] → ∀ e sec, ExtentHit disc name true d.sectors d.lba e →
        disc e.lsn = .stored sec → PathClean disc l rest (l.extent e) sec)

/-! ### One sector -/

variable {sec : Sector} {name : List UInt8} {slash : Bool} {pos q : ℤ} {fuel : ℕ}

/-- What the loop returns for a record that matches. -/
def Scan.hit (slash : Bool) (p : ℕ) : Scan := if slash then .dir p else .file p

/-- One turn of the loop at a record that is all right. -/
theorem scan_succ (hok : RecordOk sec pos) (hpos : pos < 2016) (hlen : length sec pos.toNat ≠ 0) :
    scan sec name slash (fuel + 1) pos =
      if Matches sec pos.toNat name slash then .hit slash pos.toNat
      else if pos + length sec pos.toNat < 2016 then
        scan sec name slash fuel (pos + length sec pos.toNat)
      else .stop := by
  have hin : 0 ≤ pos ∧ pos + 33 ≤ 2048 := ⟨hok.nonneg, by omega⟩
  simp only [scan, if_pos hin, if_neg hlen, if_neg hok.named, if_pos hok.inside, Matches, Scan.hit]
  by_cases hn : name.take 12 = (curdir sec pos.toNat).take 12
  · cases slash <;> simp [hn]
  · simp [hn]

theorem scan_stop (h0 : 0 ≤ pos) (hpos : pos < 2016) (hlen : length sec pos.toNat = 0) :
    scan sec name slash (fuel + 1) pos = .stop := by
  have hin : 0 ≤ pos ∧ pos + 33 ≤ 2048 := ⟨h0, by omega⟩
  simp only [scan, if_pos hin, if_pos hlen]

/-- **A sector that can be walked**: with enough fuel the loop returns the first record that
matches, or comes to the end because there is none. -/
theorem scan_of_clean (h : Clean sec name slash pos) (hpos : pos < 2016) :
    (∃ q, Hit sec name slash pos q ∧
        ∃ n, ∀ fuel ≥ n, scan sec name slash fuel pos = .hit slash q.toNat) ∨
      (Miss sec name slash pos ∧ ∃ n, ∀ fuel ≥ n, scan sec name slash fuel pos = .stop) := by
  induction h with
  | stop h0 hlen =>
    refine Or.inr ⟨.stop hlen, 1, fun fuel hfuel => ?_⟩
    obtain ⟨fuel, rfl⟩ := Nat.exists_eq_add_of_le' hfuel
    exact scan_stop h0 hpos hlen
  | @hit pos hlen hok hm =>
    refine Or.inl ⟨pos, .here hlen hm, 1, fun fuel hfuel => ?_⟩
    obtain ⟨fuel, rfl⟩ := Nat.exists_eq_add_of_le' hfuel
    rw [scan_succ hok hpos hlen, if_pos hm]
  | last hlen hok hm hlast =>
    refine Or.inr ⟨.last hlen hm hlast, 1, fun fuel hfuel => ?_⟩
    obtain ⟨fuel, rfl⟩ := Nat.exists_eq_add_of_le' hfuel
    rw [scan_succ hok hpos hlen, if_neg hm, if_neg (by omega)]
  | next hlen hok hm hnext _ ih =>
    rcases ih hnext with ⟨q, hq, n, hn⟩ | ⟨hmiss, n, hn⟩
    · refine Or.inl ⟨q, .next hlen hm hnext hq, n + 1, fun fuel hfuel => ?_⟩
      obtain ⟨fuel, rfl⟩ := Nat.exists_eq_add_of_le' (le_trans (Nat.le_add_left 1 n) hfuel)
      rw [scan_succ hok hpos hlen, if_neg hm, if_pos hnext]
      exact hn fuel (by omega)
    · refine Or.inr ⟨.next hlen hm hnext hmiss, n + 1, fun fuel hfuel => ?_⟩
      obtain ⟨fuel, rfl⟩ := Nat.exists_eq_add_of_le' (le_trans (Nat.le_add_left 1 n) hfuel)
      rw [scan_succ hok hpos hlen, if_neg hm, if_pos hnext]
      exact hn fuel (by omega)

/-- A walk that comes out without a fault was over a chain that can be walked, and what it returns
is the first record that matches, or that there is none. -/
theorem clean_of_scan (hpos : pos < 2016) (ht : scan sec name slash fuel pos ≠ .timeout)
    (hf : scan sec name slash fuel pos ≠ .fault) : Clean sec name slash pos ∧
      ((∃ q, Hit sec name slash pos q ∧ scan sec name slash fuel pos = .hit slash q.toNat) ∨
        (Miss sec name slash pos ∧ scan sec name slash fuel pos = .stop)) := by
  induction fuel generalizing pos with
  | zero => exact absurd rfl ht
  | succ fuel ih =>
    by_cases hin : 0 ≤ pos ∧ pos + 33 ≤ 2048
    · by_cases hlen : length sec pos.toNat = 0
      · exact ⟨.stop hin.1 hlen, Or.inr ⟨.stop hlen, scan_stop hin.1 hpos hlen⟩⟩
      · by_cases hnamed : filenameLength sec pos.toNat = 0
        · -- the record does not move the walk on
          simp only [scan, if_pos hin, if_neg hlen, if_pos hnamed, if_pos hpos] at ht hf ⊢
          exact ih hpos ht hf
        · by_cases hname : NameInside sec pos.toNat
          · have hok : RecordOk sec pos := ⟨hin.1, hnamed, hname⟩
            rw [scan_succ hok hpos hlen] at ht hf ⊢
            by_cases hm : Matches sec pos.toNat name slash
            · rw [if_pos hm]
              exact ⟨.hit hlen hok hm, Or.inl ⟨pos, .here hlen hm, rfl⟩⟩
            · rw [if_neg hm] at ht hf ⊢
              by_cases hnext : pos + length sec pos.toNat < 2016
              · rw [if_pos hnext] at ht hf ⊢
                obtain ⟨hclean, hr⟩ := ih hnext ht hf
                refine ⟨.next hlen hok hm hnext hclean, ?_⟩
                rcases hr with ⟨q, hq, hr⟩ | ⟨hmiss, hr⟩
                · exact Or.inl ⟨q, .next hlen hm hnext hq, hr⟩
                · exact Or.inr ⟨.next hlen hm hnext hmiss, hr⟩
              · rw [if_neg hnext]
                exact ⟨.last hlen hok hm (by omega), Or.inr ⟨.last hlen hm (by omega), rfl⟩⟩
          · simp only [scan, if_pos hin, if_neg hlen, if_neg hnamed, if_neg hname] at hf
            exact absurd rfl hf
    · simp only [scan, if_neg hin] at hf
      exact absurd rfl hf

/-- There is one first record that matches. -/
theorem Hit.unique (h : Hit sec name slash pos q) {q' : ℤ} (h' : Hit sec name slash pos q') :
    q' = q := by
  induction h with
  | here hlen hm =>
    cases h' with
    | here => rfl
    | next _ hm' => exact absurd hm hm'
  | next hlen hm hnext _ ih =>
    cases h' with
    | here _ hm' => exact absurd hm' hm
    | next _ _ _ h' => exact ih h'

theorem Hit.not_miss (h : Hit sec name slash pos q) : ¬ Miss sec name slash pos := by
  induction h with
  | here hlen hm =>
    intro hmiss
    cases hmiss with
    | stop hzero => exact hlen hzero
    | last _ hm' => exact hm' hm
    | next _ hm' => exact hm' hm
  | next hlen hm hnext _ ih =>
    intro hmiss
    cases hmiss with
    | stop hzero => exact hlen hzero
    | last _ _ hlast => omega
    | next _ _ _ hmiss => exact ih hmiss

/-! ### One directory -/

variable {disc : UInt32 → CdRead} {l : Layer} {d : Extent} {n : ℕ} {lba : UInt32}
  {buf buf' : Sector}

/-- What the search of an extent returns for an entry that matches. -/
def Search.hit (slash : Bool) (e : Entry) : Search := if slash then .dir e else .file e

theorem searchExtent_none (hsec : (disc lba).after buf = none) :
    searchExtent disc name slash fuel (n + 1) lba buf = ([lba], buf, .null) := by
  simp only [searchExtent, hsec]

theorem searchExtent_hit {p : ℕ} (hsec : (disc lba).after buf = some sec)
    (hscan : scan sec name slash fuel 0 = .hit slash p) :
    searchExtent disc name slash fuel (n + 1) lba buf =
      ([lba], sec, .hit slash (entry sec lba p)) := by
  simp only [searchExtent, hsec, hscan, Scan.hit, Search.hit]
  cases slash <;> rfl

theorem searchExtent_stop (hsec : (disc lba).after buf = some sec)
    (hscan : scan sec name slash fuel 0 = .stop) :
    searchExtent disc name slash fuel (n + 1) lba buf =
      (lba :: (searchExtent disc name slash fuel n (lba + 1) sec).1,
        (searchExtent disc name slash fuel n (lba + 1) sec).2) := by
  simp only [searchExtent, hsec, hscan]

/-- The sectors that are asked for are sectors of the extent. -/
theorem mem_searchExtent {lsn : UInt32}
    (h : lsn ∈ (searchExtent disc name slash fuel n lba buf).1) :
    ∃ j < n, lsn = lba + .ofNat j := by
  induction n generalizing lba buf with
  | zero => simp [searchExtent] at h
  | succ n ih =>
    have hfirst : lsn = lba → ∃ j < n + 1, lsn = lba + .ofNat j := fun hl =>
      ⟨0, Nat.succ_pos n, by simpa using hl⟩
    rw [searchExtent] at h
    split at h
    · exact hfirst (by simpa using h)
    · split at h
      case h_5 =>
        rcases List.mem_cons.mp h with hl | hm
        · exact hfirst hl
        · obtain ⟨j, hj, hl⟩ := ih hm
          refine ⟨j + 1, by omega, ?_⟩
          rw [hl, Nat.add_comm j, UInt32.ofNat_add, UInt32.add_assoc]
          rfl
      all_goals exact hfirst (by simpa using h)

/-- An entry is in a sector of the extent. -/
theorem ExtentHit.lsn_eq {e : Entry} (h : ExtentHit disc name slash n lba e) :
    ∃ j < n, e.lsn = lba + .ofNat j := by
  have hstep : ∀ {n : ℕ} {lba : UInt32}, (∃ j < n, e.lsn = lba + 1 + .ofNat j) →
      ∃ j < n + 1, e.lsn = lba + .ofNat j := by
    rintro n lba ⟨j, hj, hl⟩
    refine ⟨j + 1, by omega, ?_⟩
    rw [hl, Nat.add_comm j, UInt32.ofNat_add, UInt32.add_assoc]
    rfl
  induction h with
  | here => exact ⟨0, Nat.succ_pos _, by simp [entry]⟩
  | next _ _ _ ih => exact hstep (ih hstep)
  | past _ _ ih => exact hstep (ih hstep)

/-- No entry of the sectors behind `lba` has its number. -/
theorem ExtentHit.lsn_ne {e : Entry} (h : ExtentHit disc name slash n (lba + 1) e)
    (hn : n < 2 ^ 32) : e.lsn ≠ lba := by
  obtain ⟨j, hj, hlsn⟩ := h.lsn_eq
  intro heq
  have hnat := congrArg UInt32.toNat (heq.symm.trans hlsn)
  rw [UInt32.toNat_add, UInt32.toNat_add, UInt32.toNat_ofNat'] at hnat
  have hlt := lba.toNat_lt
  have hone : (1 : UInt32).toNat = 1 := rfl
  omega

theorem Extent.sectors_lt (d : Extent) : d.sectors < 2 ^ 32 := by
  have := d.length.toNat_lt
  rw [Extent.sectors]
  split_ifs <;> omega

/-- **A directory that can be walked**: with enough fuel its search returns the first entry that
matches, or nothing because there is none. -/
theorem searchExtent_of_clean (h : ExtentClean disc name slash n lba buf) :
    ∃ reads buf' r, (∃ m, ∀ fuel ≥ m,
        searchExtent disc name slash fuel n lba buf = (reads, buf', r)) ∧
      ((∃ e, ExtentHit disc name slash n lba e ∧ disc e.lsn = .stored buf' ∧ r = .hit slash e) ∨
        (ExtentMiss disc name slash n lba ∧ r = .null)) := by
  induction n generalizing lba buf with
  | zero => exact ⟨[], buf, .null, ⟨0, fun _ _ => rfl⟩, Or.inr ⟨.stop, rfl⟩⟩
  | succ n ih =>
    rw [ExtentClean] at h
    cases hsec : disc lba with
    | refused =>
      have hafter : (disc lba).after buf = none := by rw [hsec]; rfl
      exact ⟨[lba], buf, .null, ⟨0, fun _ _ => searchExtent_none hafter⟩,
        Or.inr ⟨.refused hsec, rfl⟩⟩
    | skipped =>
      -- the old sector is walked, and has no record that matches
      have hafter : (disc lba).after buf = some buf := by rw [hsec]; rfl
      rw [hsec] at h
      obtain ⟨hclean, hold, hrest⟩ := h
      rcases scan_of_clean hclean (by omega) with ⟨q, hq, -⟩ | ⟨-, m, hm⟩
      · exact absurd hold hq.not_miss
      · obtain ⟨reads, buf', r, ⟨m', hm'⟩, hr⟩ := ih hrest
        refine ⟨lba :: reads, buf', r, ⟨max m m', fun fuel hfuel => ?_⟩, ?_⟩
        · rw [searchExtent_stop hafter (hm fuel (le_trans (le_max_left _ _) hfuel)),
            hm' fuel (le_trans (le_max_right _ _) hfuel)]
        · rcases hr with ⟨e, he, hlsn, hr⟩ | ⟨hnone, hr⟩
          · exact Or.inl ⟨e, .past hsec he, hlsn, hr⟩
          · exact Or.inr ⟨.past hsec hnone, hr⟩
    | stored sec =>
      have hafter : (disc lba).after buf = some sec := by rw [hsec]; rfl
      rw [hsec] at h
      obtain ⟨hclean, hrest⟩ := h
      rcases scan_of_clean hclean (by omega) with ⟨q, hq, m, hm⟩ | ⟨hmiss, m, hm⟩
      · refine ⟨[lba], sec, .hit slash (entry sec lba q.toNat), ⟨m, fun fuel hfuel => ?_⟩,
          Or.inl ⟨_, .here hsec hq, hsec, rfl⟩⟩
        exact searchExtent_hit hafter (hm fuel hfuel)
      · obtain ⟨reads, buf', r, ⟨m', hm'⟩, hr⟩ := ih (hrest hmiss)
        refine ⟨lba :: reads, buf', r, ⟨max m m', fun fuel hfuel => ?_⟩, ?_⟩
        · rw [searchExtent_stop hafter (hm fuel (le_trans (le_max_left _ _) hfuel)),
            hm' fuel (le_trans (le_max_right _ _) hfuel)]
        · rcases hr with ⟨e, he, hlsn, hr⟩ | ⟨hnone, hr⟩
          · exact Or.inl ⟨e, .next hsec hmiss he, hlsn, hr⟩
          · exact Or.inr ⟨.next hsec hmiss hnone, hr⟩

theorem ExtentHit.unique {e e' : Entry} (h : ExtentHit disc name slash n lba e)
    (h' : ExtentHit disc name slash n lba e') : e' = e := by
  induction h with
  | here hsec hq =>
    cases h' with
    | here hsec' hq' =>
      cases hsec.symm.trans hsec'
      rw [hq.unique hq']
    | next hsec' hmiss =>
      cases hsec.symm.trans hsec'
      exact absurd hmiss hq.not_miss
    | past hsec' => cases hsec.symm.trans hsec'
  | next hsec hmiss _ ih =>
    cases h' with
    | here hsec' hq =>
      cases hsec.symm.trans hsec'
      exact absurd hmiss hq.not_miss
    | next hsec' _ h' =>
      cases hsec.symm.trans hsec'
      exact ih h'
    | past hsec' => cases hsec.symm.trans hsec'
  | past hsec _ ih =>
    cases h' with
    | here hsec' => cases hsec.symm.trans hsec'
    | next hsec' => cases hsec.symm.trans hsec'
    | past _ h' => exact ih h'

/-- How a search ends well: without a fault, and an entry it returns is the first one. -/
structure Ends (disc : UInt32 → CdRead) (name : List UInt8) (slash : Bool) (n : ℕ) (lba : UInt32)
    (r : Search) : Prop where
  timeout : r ≠ .timeout
  fault : r ≠ .fault
  right : ∀ e, r = .hit slash e → ExtentHit disc name slash n lba e

/-- A search that ends well was over an extent that can be walked, and found what there is. -/
theorem clean_of_searchExtent (hn : n < 2 ^ 32)
    (h : Ends disc name slash n lba (searchExtent disc name slash fuel n lba buf).2.2) :
    ExtentClean disc name slash n lba buf ∧
      ∀ e, ExtentHit disc name slash n lba e →
        (searchExtent disc name slash fuel n lba buf).2.2 = .hit slash e ∧
        disc e.lsn = .stored (searchExtent disc name slash fuel n lba buf).2.1 := by
  induction n generalizing lba buf with
  | zero => exact ⟨trivial, nofun⟩
  | succ n ih =>
    cases hsec : disc lba with
    | refused =>
      refine ⟨by rw [ExtentClean, hsec]; trivial, fun e he => ?_⟩
      cases he with
      | here hsec' => cases hsec.symm.trans hsec'
      | next hsec' => cases hsec.symm.trans hsec'
      | past hsec' => cases hsec.symm.trans hsec'
    | skipped =>
      have hafter : (disc lba).after buf = some buf := by rw [hsec]; rfl
      have htime : scan buf name slash fuel 0 ≠ .timeout := fun hs =>
        h.timeout (by simp only [searchExtent, hafter, hs])
      have hfault : scan buf name slash fuel 0 ≠ .fault := fun hs =>
        h.fault (by simp only [searchExtent, hafter, hs])
      obtain ⟨hclean, ⟨q, hq, hs⟩ | ⟨hmiss, hs⟩⟩ := clean_of_scan (by omega) htime hfault
      · -- a record of the old sector is not an entry of the extent
        have hhit := searchExtent_hit (n := n) hafter hs
        rw [hhit] at h
        obtain ⟨e, hentry⟩ : ∃ e, e = entry buf lba q.toNat := ⟨_, rfl⟩
        have hlsn : e.lsn = lba := by rw [hentry]; rfl
        cases h.right e (by rw [hentry]) with
        | here hsec' => cases hsec.symm.trans hsec'
        | next hsec' => cases hsec.symm.trans hsec'
        | past _ he => exact absurd hlsn (he.lsn_ne (by omega))
      · rw [searchExtent_stop hafter hs] at h ⊢
        obtain ⟨hrest, hfound⟩ := ih (by omega) ⟨h.timeout, h.fault, fun e hr => by
          cases h.right e hr with
          | here hsec' => cases hsec.symm.trans hsec'
          | next hsec' => cases hsec.symm.trans hsec'
          | past _ he => exact he⟩
        refine ⟨by rw [ExtentClean, hsec]; exact ⟨hclean, hmiss, hrest⟩, fun e he => ?_⟩
        cases he with
        | here hsec' => cases hsec.symm.trans hsec'
        | next hsec' => cases hsec.symm.trans hsec'
        | past _ he => exact hfound e he
    | stored sec =>
      have hafter : (disc lba).after buf = some sec := by rw [hsec]; rfl
      have htime : scan sec name slash fuel 0 ≠ .timeout := fun hs =>
        h.timeout (by simp only [searchExtent, hafter, hs])
      have hfault : scan sec name slash fuel 0 ≠ .fault := fun hs =>
        h.fault (by simp only [searchExtent, hafter, hs])
      obtain ⟨hclean, ⟨q, hq, hs⟩ | ⟨hmiss, hs⟩⟩ := clean_of_scan (by omega) htime hfault
      · have hhit := searchExtent_hit (n := n) hafter hs
        refine ⟨by
          rw [ExtentClean, hsec]
          exact ⟨hclean, fun hmiss => absurd hmiss hq.not_miss⟩, fun e he => ?_⟩
        have heq : entry sec lba q.toNat = e := he.unique (.here hsec hq)
        rw [hhit, ← heq]
        exact ⟨rfl, hsec⟩
      · rw [searchExtent_stop hafter hs] at h ⊢
        obtain ⟨hrest, hfound⟩ := ih (by omega) ⟨h.timeout, h.fault, fun e hr => by
          cases h.right e hr with
          | here hsec' hq =>
            cases hsec.symm.trans hsec'
            exact absurd hmiss hq.not_miss
          | next _ _ he => exact he
          | past hsec' => cases hsec.symm.trans hsec'⟩
        refine ⟨by rw [ExtentClean, hsec]; exact ⟨hclean, fun _ => hrest⟩, fun e he => ?_⟩
        cases he with
        | here hsec' hq =>
          cases hsec.symm.trans hsec'
          exact absurd hmiss hq.not_miss
        | next _ _ he => exact hfound e he
        | past hsec' => cases hsec.symm.trans hsec'

/-! ### A path -/

theorem Outcome.after_eq_returns {e : Entry} {reads : List UInt32} {o : Outcome} {t : Trace}
    (h : o.after e reads = .returns t) :
    ∃ t', o = .returns t' ∧ t = ⟨e :: t'.followed, reads ++ t'.reads, t'.found⟩ := by
  cases o with
  | timeout => cases h
  | fault => cases h
  | returns t' =>
    cases h
    exact ⟨t', rfl, rfl⟩

/-- **A path whose directories can be walked** is looked up as it should be. -/
theorem correct_of_pathClean {names : List (List UInt8)} (hnames : names ≠ [])
    (h : PathClean disc l names d buf) :
    Correct disc l names d fun fuel => locate disc l fuel names d buf := by
  induction names generalizing d buf with
  | nil => exact absurd rfl hnames
  | cons name rest ih =>
    obtain ⟨hclean, hrest⟩ := h
    obtain ⟨reads, buf', r, ⟨m, hm⟩, hr⟩ := searchExtent_of_clean hclean
    have hreads : ∀ lsn ∈ reads, d.Contains lsn := fun lsn hlsn => by
      have hmem : lsn ∈ (searchExtent disc name (!rest.isEmpty) m d.sectors d.lba buf).1 := by
        rw [hm m le_rfl]
        exact hlsn
      exact mem_searchExtent hmem
    have hone : ∀ lsn ∈ reads, ∃ d' ∈ [d], d'.Contains lsn := fun lsn hlsn =>
      ⟨d, List.mem_singleton_self d, hreads lsn hlsn⟩
    rcases hr with ⟨e, he, hlsn, rfl⟩ | ⟨hmiss, rfl⟩
    · cases rest with
      | nil =>
        refine ⟨⟨[], reads, some e⟩, ⟨m, fun fuel hfuel => ?_⟩, hone, .file he⟩
        have hs : searchExtent disc name false fuel d.sectors d.lba buf = (reads, buf', .file e) :=
          hm fuel hfuel
        simp only [locate, List.isEmpty_nil, Bool.not_true, hs]
      | cons name' rest =>
        have hne := List.cons_ne_nil name' rest
        obtain ⟨t, ⟨m', hm'⟩, hin, hlook⟩ := ih hne (hrest hne e buf' he hlsn)
        refine ⟨⟨e :: t.followed, reads ++ t.reads, t.found⟩,
          ⟨max m m', fun fuel hfuel => ?_⟩, ?_, .dir hne he hlook⟩
        · have hs : searchExtent disc name true fuel d.sectors d.lba buf =
              (reads, buf', .dir e) := hm fuel (le_trans (le_max_left _ _) hfuel)
          have hloc : locate disc l fuel (name' :: rest) (l.extent e) buf' = .returns t :=
            hm' fuel (le_trans (le_max_right _ _) hfuel)
          change locate disc l fuel (name :: name' :: rest) d buf = _
          rw [locate.eq_def]
          simp only [List.isEmpty_cons, Bool.not_false, hs, hloc, Outcome.after]
        · intro lsn hlsn
          rcases List.mem_append.mp hlsn with hl | hl
          · exact ⟨d, List.mem_cons_self, hreads lsn hl⟩
          · obtain ⟨d', hd', hc⟩ := hin lsn hl
            exact ⟨d', List.mem_cons_of_mem d hd', hc⟩
    · refine ⟨⟨[], reads, none⟩, ⟨m, fun fuel hfuel => ?_⟩, hone, .miss hmiss⟩
      simp only [locate, hm fuel hfuel]

/-- A lookup that returns the right record has walked the directories on its way. -/
theorem pathClean_of_locate {names : List (List UInt8)} {t : Trace}
    (h : locate disc l fuel names d buf = .returns t)
    (hlook : Lookup disc l names d t.followed t.found) : PathClean disc l names d buf := by
  induction names generalizing d t buf with
  | nil => trivial
  | cons name rest ih =>
    rcases hs : searchExtent disc name (!rest.isEmpty) fuel d.sectors d.lba buf with
      ⟨reads, buf', r⟩
    have hends : Ends disc name (!rest.isEmpty) d.sectors d.lba r := by
      refine ⟨?_, ?_, fun e he => ?_⟩
      · rintro rfl
        simp only [locate, hs] at h
        cases h
      · rintro rfl
        simp only [locate, hs] at h
        cases h
      · cases rest with
        | nil =>
          have hfile : r = .file e := he
          simp only [locate, hs, hfile] at h
          cases h
          cases hlook with
          | file hhit => exact hhit
        | cons name' rest =>
          have hdir : r = .dir e := he
          simp only [locate, hs, hdir] at h
          obtain ⟨t', -, rfl⟩ := Outcome.after_eq_returns h
          cases hlook with
          | dir _ hhit => exact hhit
    have hall := @clean_of_searchExtent name (!rest.isEmpty) fuel disc d.sectors d.lba buf
      d.sectors_lt (by rw [hs]; exact hends)
    rw [hs] at hall
    refine ⟨hall.1, fun hne e sec he hlsn => ?_⟩
    have hslash : (!rest.isEmpty) = true := by
      cases rest with
      | nil => exact absurd rfl hne
      | cons name' rest => rfl
    rw [hslash] at hall hs
    obtain ⟨hdir, hbuf⟩ := hall.2 e he
    have hdir' : r = .dir e := hdir
    cases hbuf.symm.trans hlsn
    rw [locate, hslash, hs, hdir'] at h
    obtain ⟨t', ht', rfl⟩ := Outcome.after_eq_returns h
    cases hlook with
    | dir _ _ hrest => exact ih ht' hrest

theorem components_ne_nil (p : List UInt8) : components p ≠ [] := by
  rw [components]
  split
  · exact List.cons_ne_nil _ _
  · exact List.cons_ne_nil _ _

/-- The layer `cdvdman_findfile` really looks at, and its root directory. -/
def root (layerInfo : Extent × Extent) (l : Layer) : Layer × Extent :=
  let l := if l.emuDvddl then { l with second := false } else l
  (l, if l.second then layerInfo.2 else layerInfo.1)

/-- **When a lookup does what it should.** `cdvdman_locatefile` returns, asks only for sectors of
the directories it follows, reads only bytes of the sector, and its record is the one of the first
entries with the names of the path, exactly when the directories on the way can be walked: in each
sector it comes to, the chain of records reaches the entry or the end, and the records on it start
inside the sector, have a name, and their names end inside the sector; where it comes to a sector
behind the volume, the same holds of what is in the buffer, and there is no record that matches.
`cdvdman_findfile` is the same for the path it has trimmed and the root directory of the layer, if
there is one. -/
theorem lookup_iff (disc : UInt32 → CdRead) (l : Layer) (buf : Sector) :
    (∀ (name : List UInt8) (toc : Extent),
      Correct disc l (components name) toc (fun fuel => locatefile disc l fuel name toc buf) ↔
        PathClean disc l (components name) toc buf) ∧
    ∀ (layerInfo : Extent × Extent) (name : List UInt8),
      ((root layerInfo l).2.lba = 0 →
        ∀ fuel, findfile disc layerInfo l fuel name buf = .returns ⟨[], [], none⟩) ∧
      ((root layerInfo l).2.lba ≠ 0 →
        (Correct disc (root layerInfo l).1 (components (filepath name)) (root layerInfo l).2
            (fun fuel => findfile disc layerInfo l fuel name buf) ↔
          PathClean disc (root layerInfo l).1 (components (filepath name))
            (root layerInfo l).2 buf)) := by
  have hiff : ∀ (l : Layer) (name : List UInt8) (toc : Extent),
      Correct disc l (components name) toc (fun fuel => locatefile disc l fuel name toc buf) ↔
        PathClean disc l (components name) toc buf := fun l name toc => by
    refine ⟨?_, correct_of_pathClean (components_ne_nil name)⟩
    rintro ⟨t, ⟨n, hn⟩, -, hlook⟩
    exact pathClean_of_locate (hn n le_rfl) hlook
  refine ⟨hiff l, fun layerInfo name => ⟨fun hroot fuel => if_pos hroot, fun hroot => ?_⟩⟩
  have hfind : ∀ fuel, findfile disc layerInfo l fuel name buf =
      locatefile disc (root layerInfo l).1 fuel (filepath name) (root layerInfo l).2 buf :=
    fun fuel => if_neg hroot
  simp only [hfind]
  exact hiff (root layerInfo l).1 (filepath name) (root layerInfo l).2

/-- A sector with one record, for the file `A` of 5 bytes at sector 30. -/
def oneFile : Sector
  | 0 => 34
  | 2 => 30
  | 10 => 5
  | 32 => 1
  | 33 => 65
  | _ => 0

/-- The same record without a name. -/
def oneNameless : Sector
  | 0 => 34
  | 2 => 30
  | 10 => 5
  | _ => 0

/-- A disc of 100 sectors that all have the same content. -/
def driveOf (sec : Sector) : Drive := ⟨fun _ => sec, 100, fun _ => false⟩

theorem components_file : components [65] = [[65]] := by
  rw [components]
  rfl

theorem lookup_iff_oneFile :
    Correct (driveOf oneFile).sceCdRead ⟨false, 0, false⟩ (components [65]) ⟨20, 2048⟩
      (fun fuel => locatefile (driveOf oneFile).sceCdRead ⟨false, 0, false⟩ fuel [65] ⟨20, 2048⟩
        oneNameless) := by
  refine ((lookup_iff (driveOf oneFile).sceCdRead ⟨false, 0, false⟩ oneNameless).1 [65]
    ⟨20, 2048⟩).mpr ?_
  have hm : Matches oneFile 0 [65] false := by decide
  have hclean : Clean oneFile [65] false 0 :=
    .hit (by decide) ⟨by decide, by decide, by decide⟩ hm
  rw [components_file]
  exact ⟨⟨hclean, fun hmiss => absurd hmiss (Hit.here (by decide) hm).not_miss⟩,
    fun hne => absurd rfl hne⟩

/-- A record with a length and no name keeps the walk where it is. -/
theorem not_correct_oneNameless :
    (∀ fuel, locatefile (driveOf oneNameless).sceCdRead ⟨false, 0, false⟩ fuel [65] ⟨20, 2048⟩
        oneFile = .timeout) ∧
      ¬ Correct (driveOf oneNameless).sceCdRead ⟨false, 0, false⟩ (components [65]) ⟨20, 2048⟩
          (fun fuel => locatefile (driveOf oneNameless).sceCdRead ⟨false, 0, false⟩ fuel [65]
            ⟨20, 2048⟩ oneFile) := by
  have hscan : ∀ fuel, scan oneNameless [65] false fuel 0 = .timeout := fun fuel => by
    induction fuel with
    | zero => rfl
    | succ fuel ih => exact ih
  have hread : ((driveOf oneNameless).sceCdRead 20).after oneFile = some oneNameless := rfl
  have hloop : ∀ fuel, locatefile (driveOf oneNameless).sceCdRead ⟨false, 0, false⟩ fuel [65]
      ⟨20, 2048⟩ oneFile = .timeout := fun fuel => by
    have hext : searchExtent (driveOf oneNameless).sceCdRead [65] false fuel 1 20 oneFile
        = ([20], oneNameless, .timeout) := by
      simp only [searchExtent, hread, hscan fuel]
    have hsec : Extent.sectors ⟨20, 2048⟩ = 1 := by decide
    rw [locatefile, components_file]
    simp only [locate, List.isEmpty_nil, Bool.not_true, hsec, hext]
  refine ⟨hloop, ?_⟩
  rintro ⟨t, ⟨n, hn⟩, -, -⟩
  exact absurd (hn n le_rfl) (by simp only [hloop n]; exact nofun)

/-- In a directory behind the volume, the file is found that the buffer still has. -/
example : locatefile (driveOf oneNameless).sceCdRead ⟨false, 0, false⟩ 1 [65] ⟨200, 2048⟩ oneFile =
    .returns ⟨[], [200], some ⟨200, 0, 30, 5⟩⟩ := by
  rw [locatefile, components_file]
  rfl

end SearchFile

end OpenPS2Loader
