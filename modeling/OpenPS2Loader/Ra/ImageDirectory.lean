import Mathlib.Data.List.GetD
import Mathlib.Data.Nat.Notation
import Mathlib.Tactic.SplitIfs
import OpenPS2Loader.Lib.Bytes

/-!
# The directory of an image

`find_entry` of `rahash.c` looks a file up in a directory of an image: sector after sector, and in
each sector from record to record, until one has the name. The walk takes the lengths from the
image, so a record counts only if it ends inside of the directory, and its name inside of the
record.

What the walk reads comes from a reader, which is asked for bytes at an offset and gets some of
them, or none. The counter of the walk has 32 bits and goes on in steps of a sector. Where a
directory is said to have more than 2³² − 2048 bytes, the counter never reaches its size: if all of
its 2²¹ sectors can be read and no record has the name, the walk starts again at the first one, and
does not end. So the loop has fuel here.

## Main definitions

* `RaHash.findEntry` — `find_entry`
* `RaHash.directory` — the records that the walk considers
* `RaHash.First` — the first record with a name

## Main results

* `RaHash.inside_of_mem_directory` — the records lie inside of the directory
* `RaHash.findEntry_first`, `RaHash.findEntry_missing` — what is found is the first one
* `RaHash.findEntry_ends`, `RaHash.findEntry_endless` — when the walk ends
-/

namespace OpenPS2Loader

namespace RaHash

open Bytes

/-- The bytes of an image. -/
structure Image where
  size : ℕ
  byte : ℕ → UInt8

/-- What each call of `read_at` gives, for an offset and a number of bytes; `none` where it returns
a negative number. -/
abbrev Reader : Type := ℕ → ℕ → ℕ → Option (List UInt8)

/-- `ISO_SECTOR` -/
def isoSector : ℕ := 2048

/-! ### Records -/

/-- A record of a directory: where it is, and what it says. -/
structure Record where
  pos : ℕ
  length : ℕ
  name : List UInt8
  lba : ℕ
  size : ℕ
  deriving DecidableEq

/-- The comparison of `find_entry`: the names are equal, or the one in the record goes on with a
`;`. -/
def cmpName : List UInt8 → List UInt8 → Bool
  | [], [] => true
  | [], _ :: _ => false
  | c :: _, [] => c == 59
  | c :: name, w :: want => c == w && cmpName name want

/-- `le32` -/
def le32 (buf : List UInt8) (p : ℕ) : ℕ := ofLe (field buf p 4)

/-- `len`, the first byte of the record at `p` -/
def recordLength (buf : List UInt8) (p : ℕ) : ℕ := (buf.getD p 0).toNat

/-- `namelen` -/
def nameLength (buf : List UInt8) (p : ℕ) : ℕ := (buf.getD (p + 32) 0).toNat

/-- The loop of `find_entry` over a sector, at the record at `p`. -/
def scanSector (want buf : List UInt8) (limit p : ℕ) : Option (ℕ × ℕ) :=
  if p < limit then
    if recordLength buf p = 0 then none
    else if recordLength buf p < 33 ∨ limit < p + recordLength buf p then none
    else if recordLength buf p < 33 + nameLength buf p then none
    else if 0 < nameLength buf p ∧ cmpName (field buf (p + 33) (nameLength buf p)) want = true then
      some (le32 buf (p + 2), le32 buf (p + 10))
    else scanSector want buf limit (p + recordLength buf p)
  else none
termination_by limit - p

/-- How `find_entry` ends. -/
inductive Found
  /-- a record, and the number of the next read -/
  | entry (lba size c : ℕ)
  | readFailed
  | missing
  deriving DecidableEq

/-- `find_entry`, at the byte `done` of the directory. -/
def findEntry (read : Reader) (want : List UInt8) (dirLba dirSize : ℕ) :
    ℕ → ℕ → ℕ → Option Found
  | 0, _, _ => none
  | fuel + 1, done, c =>
    if done < dirSize then
      match read c (isoSector * dirLba + done) isoSector with
      | none => some .readFailed
      | some buf =>
        if buf.length ≠ isoSector then some .readFailed
        else
          match scanSector want buf (min (dirSize - done) isoSector) 0 with
          | some (lba, size) => some (.entry lba size (c + 1))
          | none => findEntry read want dirLba dirSize fuel ((done + isoSector) % 2 ^ 32) (c + 1)
    else some .missing

/-! ### The directory -/

/-- The record at `p`. -/
def recordAt (buf : List UInt8) (base p : ℕ) : Record :=
  ⟨base + p, recordLength buf p, field buf (p + 33) (nameLength buf p), le32 buf (p + 2),
    le32 buf (p + 10)⟩

/-- The records of a sector from `p` on, each ending in front of `limit`. -/
def sectorRecords (buf : List UInt8) (base limit p : ℕ) : List Record :=
  if p < limit then
    if recordLength buf p < 33 ∨ limit < p + recordLength buf p then []
    else if recordLength buf p < 33 + nameLength buf p then []
    else recordAt buf base p :: sectorRecords buf base limit (p + recordLength buf p)
  else []
termination_by limit - p

/-- The sector `i` of the directory at `dirLba`. -/
def sectorOf (img : Image) (dirLba i : ℕ) : List UInt8 :=
  slice img.byte (isoSector * dirLba + isoSector * i) isoSector

/-- The records of a directory. -/
def directory (img : Image) (dirLba dirSize : ℕ) : List Record :=
  (List.range ((dirSize + 2047) / 2048)).flatMap fun i =>
    sectorRecords (sectorOf img dirLba i) (isoSector * i)
      (min (dirSize - isoSector * i) isoSector) 0

/-- The record has this name, up to a version behind a `;`. A record without a name is the one of no
file. -/
def SameName (want : List UInt8) (r : Record) : Prop :=
  r.name ≠ [] ∧ (r.name = want ∨ ∃ version, r.name = want ++ 59 :: version)

/-- The first record with the name. -/
def First (img : Image) (dirLba dirSize : ℕ) (want : List UInt8) (r : Record) : Prop :=
  ∃ pre post, directory img dirLba dirSize = pre ++ r :: post ∧ SameName want r ∧
    ∀ x ∈ pre, ¬ SameName want x

variable {img : Image} {read : Reader} {want buf : List UInt8} {dirLba dirSize base limit p : ℕ}
  {fuel c i j : ℕ} {r : Record}

theorem cmpName_iff {name want : List UInt8} :
    cmpName name want = true ↔ name = want ∨ ∃ version, name = want ++ 59 :: version := by
  fun_induction cmpName name want with
  | case1 => simp
  | case2 w want => simp
  | case3 c name =>
    rw [beq_iff_eq]
    constructor
    · rintro rfl
      exact .inr ⟨name, rfl⟩
    · rintro (h | ⟨version, h⟩)
      · cases h
      · exact (List.cons_eq_cons.mp h).1
  | case4 c name w want ih =>
    rw [Bool.and_eq_true, beq_iff_eq, ih]
    constructor
    · rintro ⟨rfl, rfl | ⟨version, rfl⟩⟩
      · exact .inl rfl
      · exact .inr ⟨version, rfl⟩
    · rintro (h | ⟨version, h⟩)
      · obtain ⟨rfl, rfl⟩ := List.cons_eq_cons.mp h
        exact ⟨rfl, .inl rfl⟩
      · obtain ⟨rfl, rfl⟩ := List.cons_eq_cons.mp h
        exact ⟨rfl, .inr ⟨version, rfl⟩⟩

/-- The test of a record. -/
def sameName (want : List UInt8) (r : Record) : Bool := !r.name.isEmpty && cmpName r.name want

theorem sameName_iff : sameName want r = true ↔ SameName want r := by
  rw [sameName, Bool.and_eq_true, cmpName_iff, SameName, Bool.not_eq_true',
    List.isEmpty_eq_false_iff]

theorem sameName_recordAt (want : List UInt8) (base : ℕ) (h : limit ≤ buf.length)
    (hin : p + 33 + nameLength buf p ≤ limit) :
    sameName want (recordAt buf base p) = true ↔
      0 < nameLength buf p ∧ cmpName (field buf (p + 33) (nameLength buf p)) want = true := by
  have hlen : (field buf (p + 33) (nameLength buf p)).length = nameLength buf p :=
    length_field (by omega)
  rw [sameName, Bool.and_eq_true, Bool.not_eq_true', List.isEmpty_eq_false_iff,
    ← List.length_pos_iff]
  show 0 < (field buf (p + 33) (nameLength buf p)).length ∧ _ ↔ _
  rw [hlen]
  rfl

/-- The walk over a sector finds the first of its records with the name. -/
theorem scanSector_eq (want buf : List UInt8) (base : ℕ) (hbuf : limit ≤ buf.length) (p : ℕ) :
    scanSector want buf limit p =
      ((sectorRecords buf base limit p).find? (sameName want)).map fun r => (r.lba, r.size) := by
  fun_induction sectorRecords buf base limit p with
  | case1 p hp h =>
    rw [scanSector, if_pos hp, if_pos h, ite_self]
    rfl
  | case2 p hp h hname =>
    rw [scanSector, if_pos hp, if_neg h, if_pos hname, ite_self]
    rfl
  | case3 p hp h hname ih =>
    have hsame := sameName_recordAt want base hbuf
      (show p + 33 + nameLength buf p ≤ limit by omega)
    rw [scanSector, if_pos hp, if_neg (by omega), if_neg h, if_neg hname, ih]
    split_ifs with hfound
    · rw [List.find?_cons_of_pos (hsame.mpr hfound)]
      rfl
    · rw [List.find?_cons_of_neg (mt hsame.mp hfound)]
  | case4 p hp =>
    rw [scanSector, if_neg hp]
    rfl

theorem exists_of_mem_sectorRecords (h : r ∈ sectorRecords buf base limit p) :
    ∃ q, q < limit ∧ r = recordAt buf base q ∧ q + r.length ≤ limit ∧
      33 + r.name.length ≤ r.length := by
  fun_induction sectorRecords buf base limit p with
  | case1 => cases h
  | case2 => cases h
  | case3 p hp hlen hname ih =>
    rcases List.mem_cons.mp h with rfl | h
    · have hle : (field buf (p + 33) (nameLength buf p)).length ≤ nameLength buf p :=
        List.length_take_le _ _
      refine ⟨p, hp, rfl, ?_, ?_⟩
      · show p + recordLength buf p ≤ limit
        omega
      · show 33 + (field buf (p + 33) (nameLength buf p)).length ≤ recordLength buf p
        omega
    · exact ih h
  | case4 => cases h

/-- A record, and the sector it is in. -/
theorem exists_of_mem_directory (h : r ∈ directory img dirLba dirSize) :
    ∃ q, isoSector * (r.pos / isoSector) < dirSize ∧
      r ∈ sectorRecords (sectorOf img dirLba (r.pos / isoSector)) (isoSector * (r.pos / isoSector))
        (min (dirSize - isoSector * (r.pos / isoSector)) isoSector) 0 ∧
      r = recordAt (sectorOf img dirLba (r.pos / isoSector)) (isoSector * (r.pos / isoSector)) q ∧
      r.pos + r.length ≤ dirSize ∧ 33 + r.name.length ≤ r.length := by
  obtain ⟨i, hi, hr⟩ := List.mem_flatMap.mp h
  rw [List.mem_range] at hi
  obtain ⟨q, hq, hrec, hlen, hname⟩ := exists_of_mem_sectorRecords hr
  have hpos : r.pos = isoSector * i + q := congrArg Record.pos hrec
  have hmin : min (dirSize - isoSector * i) isoSector ≤ isoSector := Nat.min_le_right _ _
  have hsector : r.pos / isoSector = i := by
    rw [hpos, Nat.mul_add_div (by decide), Nat.div_eq_of_lt (by omega), Nat.add_zero]
  have hlt : isoSector * i < dirSize := by
    rw [isoSector]
    omega
  rw [hsector]
  exact ⟨q, hlt, hr, hrec, by omega, hname⟩

/-- **The records lie inside of the directory**, and their names inside of them. -/
theorem inside_of_mem_directory (h : r ∈ directory img dirLba dirSize) :
    r.pos + r.length ≤ dirSize ∧ 33 + r.name.length ≤ r.length := by
  obtain ⟨-, -, -, -, hinside⟩ := exists_of_mem_directory h
  exact hinside

theorem le32_lt (buf : List UInt8) (p : ℕ) : le32 buf p < 2 ^ 32 := by
  have hlen : (field buf p 4).length ≤ 4 := List.length_take_le _ _
  exact Nat.lt_of_lt_of_le (ofLe_lt _) (Nat.pow_le_pow_right (by decide) hlen)

theorem recordAt_lba_lt (buf : List UInt8) (base p : ℕ) : (recordAt buf base p).lba < 2 ^ 32 :=
  le32_lt buf (p + 2)

theorem lba_lt_of_mem_directory (h : r ∈ directory img dirLba dirSize) : r.lba < 2 ^ 32 := by
  obtain ⟨q, -, -, hrec, -⟩ := exists_of_mem_directory h
  exact Nat.lt_of_le_of_lt (Nat.le_of_eq (congrArg Record.lba hrec)) (recordAt_lba_lt _ _ q)

/-! ### Sectors -/

/-- What the walk finds in the sector `i`. -/
def entryAt (img : Image) (want : List UInt8) (dirLba dirSize i : ℕ) : Option (ℕ × ℕ) :=
  scanSector want (sectorOf img dirLba i) (min (dirSize - isoSector * i) isoSector) 0

/-- The sector `i` is in the image. -/
def InImage (img : Image) (dirLba i : ℕ) : Prop :=
  isoSector * dirLba + isoSector * (i + 1) ≤ img.size

theorem InImage.mono (h : InImage img dirLba j) (hij : i ≤ j) : InImage img dirLba i :=
  Nat.le_trans (Nat.add_le_add_left (Nat.mul_le_mul_left _ (Nat.succ_le_succ hij)) _) h

/-- How often 2048 goes into 2³². -/
def sectorsMax : ℕ := 2 ^ 21

theorem entryAt_eq (img : Image) (want : List UInt8) (dirLba dirSize i : ℕ) :
    entryAt img want dirLba dirSize i =
      ((sectorRecords (sectorOf img dirLba i) (isoSector * i)
        (min (dirSize - isoSector * i) isoSector) 0).find? (sameName want)).map
          fun r => (r.lba, r.size) := by
  refine scanSector_eq want _ _ ?_ 0
  rw [sectorOf, length_slice]
  exact Nat.min_le_right _ _

theorem find?_directory (img : Image) (want : List UInt8) (dirLba dirSize : ℕ) :
    ((directory img dirLba dirSize).find? (sameName want)).map (fun r => (r.lba, r.size)) =
      (List.range ((dirSize + 2047) / 2048)).findSome? (entryAt img want dirLba dirSize) := by
  rw [directory, List.find?_flatMap, List.map_findSome?]
  congr 1
  funext i
  exact (entryAt_eq img want dirLba dirSize i).symm

theorem first_iff : First img dirLba dirSize want r ↔
    (directory img dirLba dirSize).find? (sameName want) = some r := by
  rw [List.find?_eq_some_iff_append, sameName_iff, First]
  constructor
  · rintro ⟨pre, post, hsplit, hsame, hpre⟩
    refine ⟨hsame, pre, post, hsplit, fun x hx => ?_⟩
    rw [Bool.not_eq_true', ← Bool.not_eq_true, sameName_iff]
    exact hpre x hx
  · rintro ⟨hsame, pre, post, hsplit, hpre⟩
    refine ⟨pre, post, hsplit, hsame, fun x hx => ?_⟩
    rw [← sameName_iff, Bool.not_eq_true, ← Bool.not_eq_true']
    exact hpre x hx

theorem First.unique {r' : Record} (h : First img dirLba dirSize want r)
    (h' : First img dirLba dirSize want r') : r = r' :=
  Option.some.inj ((first_iff.mp h).symm.trans (first_iff.mp h'))

theorem First.mem (h : First img dirLba dirSize want r) : r ∈ directory img dirLba dirSize := by
  obtain ⟨pre, post, hsplit, -⟩ := h
  rw [hsplit]
  exact List.mem_append_right _ List.mem_cons_self

theorem First.sameName (h : First img dirLba dirSize want r) : SameName want r := by
  obtain ⟨-, -, -, hsame, -⟩ := h
  exact hsame

/-- No record has the name. -/
theorem find?_eq_none_iff : (directory img dirLba dirSize).find? (sameName want) = none ↔
    ∀ x ∈ directory img dirLba dirSize, ¬ SameName want x := by
  rw [List.find?_eq_none]
  exact forall₂_congr fun x _ => not_congr sameName_iff

/-- The sector of a record with the name has an entry. -/
theorem entryAt_ne_none (h : r ∈ directory img dirLba dirSize) (hsame : SameName want r) :
    entryAt img want dirLba dirSize (r.pos / isoSector) ≠ none := by
  obtain ⟨-, -, hr, -⟩ := exists_of_mem_directory h
  rw [entryAt_eq, Ne, Option.map_eq_none_iff, List.find?_eq_none]
  exact fun hnone => hnone r hr (sameName_iff.mpr hsame)

/-- The first sector with an entry has the first record. -/
theorem first_of_entryAt {lba size : ℕ} (hj : isoSector * j < dirSize)
    (hentry : entryAt img want dirLba dirSize j = some (lba, size))
    (hbefore : ∀ i < j, entryAt img want dirLba dirSize i = none) :
    ∃ r, First img dirLba dirSize want r ∧ r.lba = lba ∧ r.size = size := by
  have hsplit : (dirSize + 2047) / 2048 = j + ((dirSize + 2047) / 2048 - j - 1 + 1) := by
    rw [isoSector] at hj
    omega
  have hnone : (List.range j).findSome? (entryAt img want dirLba dirSize) = none :=
    List.findSome?_eq_none_iff.mpr fun i hi => hbefore i (List.mem_range.mp hi)
  have hfind := find?_directory img want dirLba dirSize
  rw [hsplit, List.range_add, List.findSome?_append, hnone, Option.none_or, List.range_succ_eq_map,
    List.map_cons, Nat.add_zero, List.findSome?_cons, hentry] at hfind
  obtain ⟨r, hr, hpair⟩ := Option.map_eq_some_iff.mp hfind
  obtain ⟨hlba, hsize⟩ := Prod.mk.inj hpair
  exact ⟨r, first_iff.mpr hr, hlba, hsize⟩

/-- Without an entry in any sector, no record has the name. -/
theorem entryAt_eq_none_iff :
    (∀ i, isoSector * i < dirSize → entryAt img want dirLba dirSize i = none) ↔
      ∀ x ∈ directory img dirLba dirSize, ¬ SameName want x := by
  rw [← find?_eq_none_iff, ← Option.map_eq_none_iff (f := fun r : Record => (r.lba, r.size)),
    find?_directory, List.findSome?_eq_none_iff]
  refine forall_congr' fun i => ?_
  rw [List.mem_range, isoSector]
  exact imp_congr_left (by omega)

/-! ### Readers -/

/-- An offset in the image, or in front of the end of a disc with 2³² sectors. -/
def Near (img : Image) (off : ℕ) : Prop := off ≤ img.size ∨ off < 2 ^ 43

/-- What the reader gives are bytes of the image, and no more than it was asked for. -/
def Reads (img : Image) (read : Reader) : Prop :=
  ∀ c off len b, Near img off → read c off len = some b →
    b.length ≤ len ∧ (b ≠ [] → off + b.length ≤ img.size) ∧ b = slice img.byte off b.length

/-- The reader gives every sector of the image in whole. -/
def WholeSectors (img : Image) (read : Reader) : Prop :=
  ∀ c off, Near img off → off % isoSector = 0 → off + isoSector ≤ img.size →
    read c off isoSector = some (slice img.byte off isoSector)

/-- The walk comes to the sector `j`. -/
structure At (img : Image) (want : List UInt8) (dirLba dirSize j : ℕ) : Prop where
  lba : dirLba < 2 ^ 32
  lt : j < sectorsMax
  before : ∀ i < j, entryAt img want dirLba dirSize i = none
  near : Near img (isoSector * dirLba + isoSector * j)

/-- The read of the sector `j` gives it in whole. -/
def ReadsSector (img : Image) (read : Reader) (dirLba j c : ℕ) : Prop :=
  read c (isoSector * dirLba + isoSector * j) isoSector = some (sectorOf img dirLba j)

theorem WholeSectors.readsSector (h : WholeSectors img read)
    (hnear : Near img (isoSector * dirLba + isoSector * j)) (hin : InImage img dirLba j) :
    ReadsSector img read dirLba j c := by
  refine h c _ hnear ?_ ?_
  · rw [← Nat.mul_add, Nat.mul_mod_right]
  · rw [InImage, Nat.mul_add] at hin
    omega

theorem at_zero (hlba : dirLba < 2 ^ 32) : At img want dirLba dirSize 0 where
  lba := hlba
  lt := by decide
  before _ h := absurd h (Nat.not_lt_zero _)
  near := .inr (by rw [isoSector]; omega)

/-- The next sector, which is the first one again behind the last one. -/
theorem At.next (h : At img want dirLba dirSize j) (hin : InImage img dirLba j)
    (hnone : entryAt img want dirLba dirSize j = none) :
    At img want dirLba dirSize ((j + 1) % sectorsMax) := by
  rcases Nat.lt_or_ge (j + 1) sectorsMax with hlt | hge
  · rw [Nat.mod_eq_of_lt hlt]
    refine ⟨h.lba, hlt, fun i hi => ?_, .inl hin⟩
    rcases Nat.lt_succ_iff_lt_or_eq.mp hi with hi | rfl
    · exact h.before i hi
    · exact hnone
  · have hj := h.lt
    rw [show j + 1 = sectorsMax by omega, Nat.mod_self]
    exact at_zero h.lba

theorem ReadsSector.inImage (h : ReadsSector img read dirLba j c) (hread : Reads img read)
    (hnear : Near img (isoSector * dirLba + isoSector * j)) : InImage img dirLba j := by
  obtain ⟨-, hle, -⟩ := hread _ _ _ _ hnear h
  have hlen : (sectorOf img dirLba j).length = isoSector := length_slice ..
  have hne : sectorOf img dirLba j ≠ [] := List.ne_nil_of_length_pos (by rw [hlen]; decide)
  have hend := hle hne
  rw [hlen] at hend
  rw [InImage, Nat.mul_add]
  omega

/-- A sector is read, and the walk goes on or finds an entry. -/
theorem findEntry_of_readsSector (hj : isoSector * j < dirSize)
    (hsector : ReadsSector img read dirLba j c) :
    findEntry read want dirLba dirSize (fuel + 1) (isoSector * j) c =
      match entryAt img want dirLba dirSize j with
      | some (lba, size) => some (.entry lba size (c + 1))
      | none => findEntry read want dirLba dirSize fuel (isoSector * ((j + 1) % sectorsMax))
          (c + 1) := by
  have hlen : (sectorOf img dirLba j).length = isoSector := length_slice ..
  have hwrap : (isoSector * j + isoSector) % 2 ^ 32 = isoSector * ((j + 1) % sectorsMax) := by
    rw [← Nat.mul_mod_mul_left]
    rfl
  rw [findEntry, if_pos hj, hsector]
  dsimp only
  rw [if_neg (not_not.mpr hlen), hwrap]
  rfl

/-- A sector cannot be read in whole. -/
theorem findEntry_of_not_readsSector (hj : isoSector * j < dirSize) (hread : Reads img read)
    (hnear : Near img (isoSector * dirLba + isoSector * j))
    (hsector : ¬ ReadsSector img read dirLba j c) :
    findEntry read want dirLba dirSize (fuel + 1) (isoSector * j) c = some .readFailed := by
  rw [findEntry, if_pos hj]
  cases hb : read c (isoSector * dirLba + isoSector * j) isoSector with
  | none => rfl
  | some b =>
    dsimp only
    refine if_pos fun hlen => hsector ?_
    obtain ⟨-, -, hslice⟩ := hread _ _ _ _ hnear hb
    rw [hlen] at hslice
    rw [ReadsSector, hb, hslice, sectorOf]

theorem findEntry_of_le (hj : dirSize ≤ isoSector * j) :
    findEntry read want dirLba dirSize (fuel + 1) (isoSector * j) c = some .missing := by
  rw [findEntry, if_neg (Nat.not_lt.mpr hj)]

/-! ### How the walk ends -/

/-- Why the walk ends as it does. -/
inductive Ends (img : Image) (read : Reader) (want : List UInt8) (dirLba dirSize : ℕ) :
    Found → Prop
  | entry (j lba size c : ℕ) (hj : isoSector * j < dirSize) (hin : InImage img dirLba j)
    (hentry : entryAt img want dirLba dirSize j = some (lba, size))
    (hbefore : ∀ i < j, entryAt img want dirLba dirSize i = none) :
    Ends img read want dirLba dirSize (.entry lba size c)
  | readFailed (j c : ℕ) (hj : isoSector * j < dirSize)
    (hnear : Near img (isoSector * dirLba + isoSector * j))
    (hsector : ¬ ReadsSector img read dirLba j c)
    (hbefore : ∀ i < j, entryAt img want dirLba dirSize i = none) :
    Ends img read want dirLba dirSize .readFailed
  | missing (hnone : ∀ x ∈ directory img dirLba dirSize, ¬ SameName want x) :
    Ends img read want dirLba dirSize .missing

/-- **The walk**, by induction on the fuel. -/
theorem ends_of_findEntry {found : Found} (hread : Reads img read)
    (hat : At img want dirLba dirSize j)
    (h : findEntry read want dirLba dirSize fuel (isoSector * j) c = some found) :
    Ends img read want dirLba dirSize found := by
  induction fuel generalizing j c with
  | zero => cases h
  | succ fuel ih =>
    rcases Nat.lt_or_ge (isoSector * j) dirSize with hj | hj
    · by_cases hsector : ReadsSector img read dirLba j c
      · have hin := hsector.inImage hread hat.near
        rw [findEntry_of_readsSector hj hsector] at h
        cases hentry : entryAt img want dirLba dirSize j with
        | some entry =>
          obtain ⟨lba, size⟩ := entry
          rw [hentry] at h
          obtain rfl := Option.some.inj h
          exact .entry j lba size (c + 1) hj hin hentry hat.before
        | none =>
          rw [hentry] at h
          exact ih (hat.next hin hentry) h
      · rw [findEntry_of_not_readsSector hj hread hat.near hsector] at h
        obtain rfl := Option.some.inj h
        exact .readFailed j c hj hat.near hsector hat.before
    · rw [findEntry_of_le hj] at h
      obtain rfl := Option.some.inj h
      refine .missing (entryAt_eq_none_iff.mp fun i hi => hat.before i ?_)
      rw [isoSector] at hi hj
      omega

/-- **What is found** is the first record with the name. -/
theorem findEntry_first {lba size c' : ℕ} (hread : Reads img read) (hlba : dirLba < 2 ^ 32)
    (h : findEntry read want dirLba dirSize fuel 0 c = some (.entry lba size c')) :
    ∃ r, First img dirLba dirSize want r ∧ r.lba = lba ∧ r.size = size := by
  cases ends_of_findEntry hread (at_zero hlba) h with
  | entry j lba size c hj hin hentry hbefore => exact first_of_entryAt hj hentry hbefore

/-- When none is found, there is none. -/
theorem findEntry_missing (hread : Reads img read) (hlba : dirLba < 2 ^ 32)
    (h : findEntry read want dirLba dirSize fuel 0 c = some .missing) :
    ∀ x ∈ directory img dirLba dirSize, ¬ SameName want x := by
  cases ends_of_findEntry hread (at_zero hlba) h with
  | missing hnone => exact hnone

/-- The walk does not get behind the sector `j`. -/
def Stops (img : Image) (want : List UInt8) (dirLba dirSize j : ℕ) : Prop :=
  dirSize ≤ isoSector * j ∨ ¬ InImage img dirLba j ∨ entryAt img want dirLba dirSize j ≠ none

/-- **The walk ends** where it cannot get behind a sector, by induction on how far that is. -/
theorem findEntry_ends_at {n : ℕ} (hread : Reads img read) (hat : At img want dirLba dirSize j)
    (hlt : j + n < sectorsMax) (hstops : Stops img want dirLba dirSize (j + n)) :
    (findEntry read want dirLba dirSize (n + 1) (isoSector * j) c).isSome := by
  induction n generalizing j c with
  | zero =>
    rcases Nat.lt_or_ge (isoSector * j) dirSize with hj | hj
    · by_cases hsector : ReadsSector img read dirLba j c
      · rcases hstops with hle | hout | hentry
        · exact absurd hj (Nat.not_lt.mpr hle)
        · exact absurd (hsector.inImage hread hat.near) hout
        · rw [findEntry_of_readsSector hj hsector]
          obtain ⟨entry, hentry⟩ := Option.ne_none_iff_exists'.mp hentry
          rw [Nat.add_zero] at hentry
          rw [hentry]
          rfl
      · rw [findEntry_of_not_readsSector hj hread hat.near hsector]
        rfl
    · rw [findEntry_of_le hj]
      rfl
  | succ n ih =>
    rcases Nat.lt_or_ge (isoSector * j) dirSize with hj | hj
    · by_cases hsector : ReadsSector img read dirLba j c
      · rw [findEntry_of_readsSector hj hsector]
        cases hentry : entryAt img want dirLba dirSize j with
        | some entry => rfl
        | none =>
          have hnext := hat.next (hsector.inImage hread hat.near) hentry
          rw [Nat.mod_eq_of_lt (by omega)] at hnext
          rw [Nat.mod_eq_of_lt (by omega)]
          refine ih hnext (by omega) ?_
          rwa [Nat.add_assoc, Nat.add_comm 1 n]
      · rw [findEntry_of_not_readsSector hj hread hat.near hsector]
        rfl
    · rw [findEntry_of_le hj]
      rfl

/-! ### The directory that does not end -/

/-- The size is out of reach of the counter, the image has all of the sectors, and no record has the
name. -/
structure EndlessDirectory (img : Image) (want : List UInt8) (dirLba dirSize : ℕ) : Prop where
  size : 2 ^ 32 - 2048 < dirSize
  image : isoSector * dirLba + 2 ^ 32 ≤ img.size
  none : ∀ x ∈ directory img dirLba dirSize, ¬ SameName want x

/-- **The walk ends**, unless the directory is one that does not end. -/
theorem findEntry_ends (hread : Reads img read) (hlba : dirLba < 2 ^ 32) (hsize : dirSize < 2 ^ 32)
    (h : ¬ EndlessDirectory img want dirLba dirSize) (c : ℕ) :
    ∃ fuel, (findEntry read want dirLba dirSize fuel 0 c).isSome := by
  have hstops : ∃ j < sectorsMax, Stops img want dirLba dirSize j := by
    by_contra hnot
    refine h ⟨?_, ?_, entryAt_eq_none_iff.mp fun i hi => ?_⟩
    · by_contra hsmall
      refine hnot ⟨(dirSize + 2047) / 2048, ?_, .inl ?_⟩
      · rw [sectorsMax]
        omega
      · rw [isoSector]
        omega
    · by_contra hout
      refine hnot ⟨sectorsMax - 1, by decide, .inr (.inl fun hin => hout ?_)⟩
      rw [InImage, isoSector, sectorsMax] at hin
      rw [isoSector]
      omega
    · by_contra hentry
      refine hnot ⟨i, ?_, .inr (.inr hentry)⟩
      rw [isoSector] at hi
      rw [sectorsMax]
      omega
  obtain ⟨j, hj, hstop⟩ := hstops
  have hends := findEntry_ends_at (j := 0) (c := c) hread (at_zero hlba)
    (show 0 + j < sectorsMax by omega) (by rwa [Nat.zero_add])
  exact ⟨j + 1, hends⟩

theorem EndlessDirectory.inImage (h : EndlessDirectory img want dirLba dirSize)
    (hj : j < sectorsMax) : InImage img dirLba j := by
  have hle : isoSector * (j + 1) ≤ 2 ^ 32 :=
    Nat.mul_le_mul_left isoSector (show j + 1 ≤ 2 ^ 21 from hj)
  exact Nat.le_trans (Nat.add_le_add_left hle _) h.image

/-- **The walk that does not end.** -/
theorem findEntry_endless (hwhole : WholeSectors img read)
    (hlba : dirLba < 2 ^ 32) (h : EndlessDirectory img want dirLba dirSize) (fuel c : ℕ) :
    findEntry read want dirLba dirSize fuel 0 c = none := by
  have hloop : ∀ j, At img want dirLba dirSize j → ∀ c,
      findEntry read want dirLba dirSize fuel (isoSector * j) c = none := by
    induction fuel with
    | zero => exact fun _ _ _ => rfl
    | succ fuel ih =>
      intro j hat c
      have hlt := hat.lt
      rw [sectorsMax] at hlt
      have hj : isoSector * j < dirSize := by
        have hsize := h.size
        rw [isoSector]
        omega
      have hin := h.inImage hat.lt
      have hnone := entryAt_eq_none_iff.mpr h.none j hj
      rw [findEntry_of_readsSector hj (hwhole.readsSector hat.near hin), hnone]
      exact ih _ (hat.next hin hnone) (c + 1)
  exact hloop 0 (at_zero hlba) c

/-- Readers that give every sector in whole find the same. -/
theorem findEntry_congr {read' : Reader} (hread : Reads img read) (hwhole : WholeSectors img read)
    (hread' : Reads img read') (hwhole' : WholeSectors img read')
    (hat : At img want dirLba dirSize j) (fuel c : ℕ) :
    findEntry read want dirLba dirSize fuel (isoSector * j) c =
      findEntry read' want dirLba dirSize fuel (isoSector * j) c := by
  induction fuel generalizing j c with
  | zero => rfl
  | succ fuel ih =>
    rcases Nat.lt_or_ge (isoSector * j) dirSize with hj | hj
    · by_cases hin : InImage img dirLba j
      · rw [findEntry_of_readsSector hj (hwhole.readsSector hat.near hin),
          findEntry_of_readsSector hj (hwhole'.readsSector hat.near hin)]
        cases hentry : entryAt img want dirLba dirSize j with
        | some entry => rfl
        | none => exact ih (hat.next hin hentry) (c + 1)
      · rw [findEntry_of_not_readsSector hj hread hat.near fun h => hin (h.inImage hread hat.near),
          findEntry_of_not_readsSector hj hread' hat.near fun h => hin (h.inImage hread' hat.near)]
    · rw [findEntry_of_le hj, findEntry_of_le hj]

end RaHash

end OpenPS2Loader
