import Mathlib.Algebra.Group.Int.Defs
import Mathlib.Logic.Relation
import OpenPS2Loader.Lib.Bytes
import OpenPS2Loader.Lib.CString

/-!
# The id of a PS1 image

`retrogemParseIsoSector16` looks for `SYSTEM.CNF` in the root directory of an image and takes the id
of the game from the value of `BOOT` in it. When there is none, it looks up the time at which the
volume was made.

The directory is read into an array in one piece, and walked from record to record. A read outside
of this array has no result. The walk goes forward in every round, so it ends.

`long` is 32 bits wide. `fseek` fails for a negative offset only.

## Main definitions

* `Retrogem.retrogemCleanTitleID`, `Retrogem.retrogemParseIsoSector16` — the functions
* `Retrogem.walk` — the loop over the directory
* `Retrogem.Reaches` — where the loop looks
* `Retrogem.Short` — a record for which it reads behind the array

## Main results

* `Retrogem.walk_isSome_iff` — the loop stays in the array unless it reaches such a record
* `Retrogem.readsInside_iff`
-/

namespace OpenPS2Loader

namespace Retrogem

open Bytes

/-! ### Ids -/

/-- `isValidIdChar` -/
def isValidIdChar (c : Char) : Bool := c.isAlphanum || c == '_' || c == '.' || c == '-'

/-- The prefix that `retrogemCleanTitleID` steps over. -/
def skipPrefix (p : Text) : Text :=
  if "cdrom0:\\".toList <+: p then p.drop 8
  else if "cdrom:\\".toList <+: p then p.drop 7
  else if "XX.".toList <+: p ∨ "SB.".toList <+: p then p.drop 3
  else p

/-- A slash or a space in front of the id. -/
def isLeading (c : Char) : Bool := c == '\\' || c == '/' || c == ' '

/-- A character that ends the id. -/
def endsTitle (c : Char) : Bool := c == ';' || c == ' ' || c == '\r' || c == '\n'

/-- `tmp`, once it was copied. -/
def titleText (raw : Text) : Text :=
  (((skipPrefix raw).dropWhile isLeading).takeWhile fun c => !endsTitle c).take 31

/-- `tmp` without the extension of a file. -/
def stripExtension (tmp : Text) : Text :=
  if 4 ≤ tmp.length ∧ (tmp.drop (tmp.length - 4)).map Char.toLower ∈
      [".elf".toList, ".vcd".toList] then tmp.take (tmp.length - 4)
  else tmp

/-- `out`, by the shape of the id. -/
def shapeId (tmp : Text) : Text :=
  if 11 ≤ tmp.length ∧ (tmp.take 4).all isValidIdChar then tmp.take 11
  else if tmp.length = 10 ∧ tmp[4]? = some '-' then
    tmp.take 4 ++ '_' :: (tmp.drop 5).take 3 ++ '.' :: tmp.drop 8
  else (tmp.take 11).takeWhile isValidIdChar

/-- A name that is not the one of a game. -/
def isGeneric (out : Text) : Bool :=
  out.map Char.toLower == "psx.exe".toList || out.map Char.toLower == "boot.exe".toList ||
    out.take 3 == "???".toList

/-- `retrogemCleanTitleID`: the id, or `none` for the result 0. -/
def retrogemCleanTitleID (raw : Text) (maxLen : ℕ) : Option Text :=
  if maxLen < 12 then none
  else
    let tmp := stripExtension (titleText raw)
    if tmp.length < 8 then none
    else
      let out := shapeId tmp
      if out.length < 8 || isGeneric out then none else some out

/-! ### The image -/

/-- A file: its bytes, and how many there are. -/
structure Image where
  byte : ℕ → UInt8
  length : ℕ

/-- `fseek` and `fread`, when all bytes are read. -/
def Image.read (f : Image) (offset : ℤ) (n : ℕ) : Option (List UInt8) :=
  let offset := offset.bmod (2 ^ 32)
  if 0 ≤ offset ∧ offset.toNat + n ≤ f.length then some (slice f.byte offset.toNat n) else none

/-- How the sectors are stored. -/
inductive Storage
  | cooked
  | raw
  deriving DecidableEq

namespace Storage

/-- `sectorSize` -/
def sectorSize : Storage → ℕ
  | cooked => 2048
  | raw => 2352

/-- `modeOffset` -/
def modeOffset : Storage → ℕ
  | cooked => 0
  | raw => 16

/-- `pvdOffset` -/
def pvdOffset : Storage → ℕ
  | cooked => 32768
  | raw => 37648

theorem sectorSize_pos (st : Storage) : 0 < st.sectorSize := by
  cases st <;> decide

/-- The offset of a sector. -/
def offset (st : Storage) (lba : ℕ) : ℤ := lba * st.sectorSize + st.modeOffset

end Storage

/-- Bytes as characters. -/
def chars (l : List UInt8) : Text := l.map fun b => Char.ofNat b.toNat

/-- The descriptor of a volume. -/
def isPvd (pvd : List UInt8) : Bool := pvd[0]? == some 1 && chars (field pvd 1 5) == "CD001".toList

/-- The descriptor that is found in sector 16. -/
def findPvd (f : Image) : Option (Storage × List UInt8) :=
  match (f.read Storage.cooked.pvdOffset 2048).filter isPvd with
  | some pvd => some (.cooked, pvd)
  | none => ((f.read Storage.raw.pvdOffset 2048).filter isPvd).map (.raw, ·)

/-- `rootLba` -/
def rootLba (pvd : List UInt8) : ℕ := ofLe (field pvd 158 4)

/-- `rootLen` -/
def rootLen (pvd : List UInt8) : ℕ := ofLe (field pvd 166 4)

/-- `dirBuf`, when it can be allocated and read. -/
def rootDir (alloc : ℕ → Bool) (f : Image) (st : Storage) (pvd : List UInt8) :
    Option (List UInt8) :=
  if 0 < rootLen pvd ∧ rootLen pvd ≤ 32768 ∧ alloc (rootLen pvd) = true then
    f.read (st.offset (rootLba pvd)) (rootLen pvd)
  else none

/-! ### `SYSTEM.CNF` -/

/-- `strstr` -/
def strstr (s pat : Text) : Option Text := (Text.find pat s).map s.drop

/-- The id in the text of `SYSTEM.CNF`. -/
def bootId (sys : Text) (maxLen : ℕ) : Option Text :=
  ((strstr sys "BOOT".toList).or (strstr sys "boot".toList)).bind fun bootPtr =>
    (Text.cutAt '=' bootPtr).2.bind fun value => retrogemCleanTitleID value maxLen

/-- The id in the file that `SYSTEM.CNF` is. -/
def sysId (alloc : ℕ → Bool) (f : Image) (st : Storage) (maxLen sysLba sysSize : ℕ) : Option Text :=
  if 0 < sysSize ∧ sysSize < 4096 ∧ alloc (sysSize + 1) = true then
    (f.read (st.offset sysLba) sysSize).bind fun sysBuf => bootId (cstr (chars sysBuf)) maxLen
  else none

/-! ### The directory -/

/-- Bytes of an array. -/
def readAt (buf : List UInt8) (p n : ℕ) : Option (List UInt8) :=
  if p + n ≤ buf.length then some (field buf p n) else none

/-- The comparison of a name with `SYSTEM.CNF`. -/
def isSystemCnf (name : Text) : Bool := (name.take 10).map Char.toLower == "system.cnf".toList

/-- What the record at `off` leads to: an id, or none. -/
def recordId (alloc : ℕ → Bool) (f : Image) (st : Storage) (maxLen : ℕ) (dirBuf : List UInt8)
    (off : ℕ) : Option (Option Text) :=
  (dirBuf[off + 32]?).bind fun nameLen =>
    if 10 ≤ nameLen.toNat ∧ off + 33 + nameLen.toNat ≤ dirBuf.length then
      (readAt dirBuf (off + 33) (min nameLen.toNat 31)).bind fun nameBuf =>
        if isSystemCnf (chars nameBuf) then
          (readAt dirBuf (off + 2) 4).bind fun sysLba =>
            (readAt dirBuf (off + 10) 4).map fun sysSize =>
              sysId alloc f st maxLen (ofLe sysLba) (ofLe sysSize)
        else some none
    else some none

/-- The start of the next sector is ahead. -/
theorem lt_nextSector (st : Storage) (off : ℕ) :
    off < (off / st.sectorSize + 1) * st.sectorSize := by
  rw [Nat.mul_comm]
  exact Nat.lt_mul_div_succ off st.sectorSize_pos

/-- The loop over the directory. -/
def walk (alloc : ℕ → Bool) (f : Image) (st : Storage) (maxLen : ℕ) (dirBuf : List UInt8)
    (off : ℕ) : Option (Option Text) :=
  if h : off < dirBuf.length then
    let recLen := dirBuf[off]
    if hzero : recLen = 0 then
      walk alloc f st maxLen dirBuf ((off / st.sectorSize + 1) * st.sectorSize)
    else if dirBuf.length < off + recLen.toNat then some none
    else
      (recordId alloc f st maxLen dirBuf off).bind fun
        | some id => some (some id)
        | none => walk alloc f st maxLen dirBuf (off + recLen.toNat)
  else some none
termination_by dirBuf.length - off
decreasing_by
  · exact Nat.sub_lt_sub_left h (lt_nextSector st off)
  · refine Nat.sub_lt_sub_left h (Nat.lt_add_of_pos_right ?_)
    exact Nat.pos_of_ne_zero fun h0 => hzero (UInt8.toNat_inj.mp h0)

/-- `ps1_generic_game_ids` -/
def ps1GenericGameIds : List (Text × Text) := [("1995121500000000".toList, "SLUS_000.01".toList)]

/-- The id by the time of the volume. -/
def timestampId (pvd : List UInt8) (maxLen : ℕ) : Option Text :=
  (ps1GenericGameIds.find? fun e => e.1 == chars (field pvd 813 16)).map fun e =>
    e.2.take (maxLen - 1)

/-- `retrogemParseIsoSector16`: the id, or `none` for the result 0. There is no result when bytes
outside of `dirBuf` are read. -/
def retrogemParseIsoSector16 (alloc : ℕ → Bool) (f : Image) (maxLen : ℕ) : Option (Option Text) :=
  match findPvd f with
  | none => some none
  | some (st, pvd) =>
    let tier1 := match rootDir alloc f st pvd with
      | some dirBuf => walk alloc f st maxLen dirBuf 0
      | none => some none
    tier1.map fun id => id.or (timestampId pvd maxLen)

/-! ### Rounds of the loop -/

section Walk

variable {alloc : ℕ → Bool} {f : Image} {st : Storage} {maxLen : ℕ} {dirBuf : List UInt8}
  {off : ℕ} {len : UInt8}

theorem walk_of_le (h : dirBuf.length ≤ off) : walk alloc f st maxLen dirBuf off = some none := by
  rw [walk, dif_neg (Nat.not_lt.mpr h)]

/-- The rest of a sector is passed over. -/
theorem walk_of_zero (h : dirBuf[off]? = some 0) : walk alloc f st maxLen dirBuf off =
    walk alloc f st maxLen dirBuf ((off / st.sectorSize + 1) * st.sectorSize) := by
  obtain ⟨hlt, hget⟩ := List.getElem?_eq_some_iff.mp h
  rw [walk, dif_pos hlt, dif_pos hget]

/-- A record that does not end in the directory. -/
theorem walk_of_lt (h : dirBuf[off]? = some len) (hzero : len ≠ 0)
    (hlen : dirBuf.length < off + len.toNat) :
    walk alloc f st maxLen dirBuf off = some none := by
  obtain ⟨hlt, rfl⟩ := List.getElem?_eq_some_iff.mp h
  rw [walk, dif_pos hlt, dif_neg hzero, if_pos hlen]

theorem walk_of_record (h : dirBuf[off]? = some len) (hzero : len ≠ 0)
    (hlen : off + len.toNat ≤ dirBuf.length) : walk alloc f st maxLen dirBuf off =
    (recordId alloc f st maxLen dirBuf off).bind fun
      | some id => some (some id)
      | none => walk alloc f st maxLen dirBuf (off + len.toNat) := by
  obtain ⟨hlt, rfl⟩ := List.getElem?_eq_some_iff.mp h
  rw [walk, dif_pos hlt, dif_neg hzero, if_neg (Nat.not_lt.mpr hlen)]

theorem parse_of_none (h : findPvd f = none) :
    retrogemParseIsoSector16 alloc f maxLen = some none := by
  unfold retrogemParseIsoSector16
  generalize findPvd f = found at h ⊢
  subst h
  rfl

variable {pvd : List UInt8}

theorem parse_of_unread (h : findPvd f = some (st, pvd)) (hdir : rootDir alloc f st pvd = none) :
    retrogemParseIsoSector16 alloc f maxLen = some (timestampId pvd maxLen) := by
  unfold retrogemParseIsoSector16
  generalize findPvd f = found at h ⊢
  subst h
  simp only [hdir, Option.map_some, Option.none_or]

theorem parse_of_dir (h : findPvd f = some (st, pvd))
    (hdir : rootDir alloc f st pvd = some dirBuf) :
    retrogemParseIsoSector16 alloc f maxLen =
      (walk alloc f st maxLen dirBuf 0).map fun id => id.or (timestampId pvd maxLen) := by
  unfold retrogemParseIsoSector16
  generalize findPvd f = found at h ⊢
  subst h
  simp only [hdir]

end Walk

/-! ### Reads in the array -/

section Safety

/-- A round of the loop that is followed by another one. -/
inductive Step (alloc : ℕ → Bool) (f : Image) (st : Storage) (maxLen : ℕ) (dirBuf : List UInt8) :
    ℕ → ℕ → Prop
  | skip {off} : dirBuf[off]? = some 0 →
      Step alloc f st maxLen dirBuf off ((off / st.sectorSize + 1) * st.sectorSize)
  | next {off len} : dirBuf[off]? = some len → len ≠ 0 → off + len.toNat ≤ dirBuf.length →
      recordId alloc f st maxLen dirBuf off = some none →
      Step alloc f st maxLen dirBuf off (off + len.toNat)

/-- The offsets at which the loop looks when it starts at `off`. -/
def Reaches (alloc : ℕ → Bool) (f : Image) (st : Storage) (maxLen : ℕ) (dirBuf : List UInt8) :
    ℕ → ℕ → Prop :=
  Relation.ReflTransGen (Step alloc f st maxLen dirBuf)

variable {alloc : ℕ → Bool} {f : Image} {st : Storage} {maxLen : ℕ} {dirBuf : List UInt8}
  {off off' : ℕ} {len : UInt8}

/-- A record in the last 32 bytes of the directory, where the length of its name is not. -/
def Short (dirBuf : List UInt8) (off : ℕ) : Prop :=
  ∃ len, dirBuf[off]? = some len ∧ len ≠ 0 ∧ off + len.toNat ≤ dirBuf.length ∧
    dirBuf.length < off + 33

theorem readAt_isSome {buf : List UInt8} {p n : ℕ} (h : p + n ≤ buf.length) :
    readAt buf p n = some (field buf p n) := if_pos h

/-- Only the length of the name is read without a look at the length of the directory. -/
theorem recordId_eq_none_iff :
    recordId alloc f st maxLen dirBuf off = none ↔ dirBuf.length < off + 33 := by
  rw [recordId]
  rcases hget : dirBuf[off + 32]? with _ | nameLen
  · rw [List.getElem?_eq_none_iff] at hget
    simp only [Option.bind_none, true_iff]
    omega
  · obtain ⟨hlt, -⟩ := List.getElem?_eq_some_iff.mp hget
    have hge : ¬ dirBuf.length < off + 33 := by omega
    refine iff_of_false ?_ hge
    rw [Option.bind_some]
    split_ifs with hname
    · rw [readAt_isSome (by omega), Option.bind_some]
      split_ifs
      · rw [readAt_isSome (by omega), Option.bind_some, readAt_isSome (by omega), Option.map_some]
        exact Option.some_ne_none _
      · exact not_false
    · exact not_false

/-- What holds at an offset that is reached. -/
theorem exists_reaches_iff {P : ℕ → Prop} :
    (∃ o, Reaches alloc f st maxLen dirBuf off o ∧ P o) ↔
      P off ∨ ∃ o, Step alloc f st maxLen dirBuf off o ∧
        ∃ o', Reaches alloc f st maxLen dirBuf o o' ∧ P o' := by
  constructor
  · rintro ⟨o, hreach, hP⟩
    rcases Relation.ReflTransGen.cases_head hreach with rfl | ⟨o', hstep, htail⟩
    · exact Or.inl hP
    · exact Or.inr ⟨o', hstep, o, htail, hP⟩
  · rintro (hP | ⟨o, hstep, o', htail, hP⟩)
    · exact ⟨off, Relation.ReflTransGen.refl, hP⟩
    · exact ⟨o', Relation.ReflTransGen.head hstep htail, hP⟩

theorem step_of_zero (h : dirBuf[off]? = some 0) :
    Step alloc f st maxLen dirBuf off off' ↔
      off' = (off / st.sectorSize + 1) * st.sectorSize := by
  constructor
  · rintro (_ | ⟨hget, hzero, -, -⟩)
    · rfl
    · exact absurd (Option.some.inj (hget.symm.trans h)) hzero
  · rintro rfl
    exact Step.skip h

theorem step_of_record (h : dirBuf[off]? = some len) (hzero : len ≠ 0) :
    Step alloc f st maxLen dirBuf off off' ↔ off' = off + len.toNat ∧
      off + len.toNat ≤ dirBuf.length ∧ recordId alloc f st maxLen dirBuf off = some none := by
  constructor
  · rintro (hget | ⟨hget, -, hlen, hid⟩)
    · exact absurd (Option.some.inj (h.symm.trans hget)) hzero
    · obtain rfl := Option.some.inj (hget.symm.trans h)
      exact ⟨rfl, hlen, hid⟩
  · rintro ⟨rfl, hlen, hid⟩
    exact Step.next h hzero hlen hid

theorem not_short_of_zero (h : dirBuf[off]? = some 0) : ¬ Short dirBuf off := by
  rintro ⟨len, hget, hzero, -, -⟩
  exact hzero (Option.some.inj (hget.symm.trans h))

theorem short_iff (h : dirBuf[off]? = some len) (hzero : len ≠ 0) :
    Short dirBuf off ↔ off + len.toNat ≤ dirBuf.length ∧ dirBuf.length < off + 33 := by
  constructor
  · rintro ⟨len', hget, -, hlen, hend⟩
    obtain rfl := Option.some.inj (hget.symm.trans h)
    exact ⟨hlen, hend⟩
  · rintro ⟨hlen, hend⟩
    exact ⟨len, h, hzero, hlen, hend⟩

/-- **The loop reads in the array** unless it reaches a record that starts too near to the end of
it. -/
theorem walk_isSome_iff (off : ℕ) : (walk alloc f st maxLen dirBuf off).isSome = true ↔
    ¬ ∃ o, Reaches alloc f st maxLen dirBuf off o ∧ Short dirBuf o := by
  induction hn : dirBuf.length - off using Nat.strong_induction_on generalizing off with
  | _ n ih =>
  rw [exists_reaches_iff]
  rcases hget : dirBuf[off]? with _ | len
  · -- behind the directory there is neither a record nor a round
    have hno : ¬ Short dirBuf off := by
      rintro ⟨len, hlen, -⟩
      cases hget.symm.trans hlen
    rw [walk_of_le (List.getElem?_eq_none_iff.mp hget), Option.isSome_some]
    simp only [true_iff, not_or, not_exists, not_and]
    refine ⟨hno, fun o hstep => ?_⟩
    rcases hstep with h | ⟨h, -⟩ <;> cases hget.symm.trans h
  obtain ⟨hlt, -⟩ := List.getElem?_eq_some_iff.mp hget
  by_cases hzero : len = 0
  · subst hzero
    have hnext := lt_nextSector st off
    rw [walk_of_zero hget, ih _ (by omega) _ rfl, or_iff_right (not_short_of_zero hget)]
    simp only [step_of_zero hget, exists_eq_left]
  have hpos : 0 < len.toNat := Nat.pos_of_ne_zero fun h0 => hzero (UInt8.toNat_inj.mp h0)
  rw [short_iff hget hzero]
  simp only [step_of_record hget hzero]
  rcases Nat.lt_or_ge dirBuf.length (off + len.toNat) with hout | hin
  · rw [walk_of_lt hget hzero hout, Option.isSome_some]
    simp only [true_iff, not_or, not_exists, not_and]
    exact ⟨fun hlen => absurd hlen (Nat.not_le.mpr hout),
      fun o ho => absurd ho.2.1 (Nat.not_le.mpr hout)⟩
  rw [walk_of_record hget hzero hin]
  rcases hid : recordId alloc f st maxLen dirBuf off with _ | (_ | id)
  · simp only [Option.bind_none, Option.isSome_none, Bool.false_eq_true, false_iff, not_not]
    exact Or.inl ⟨hin, recordId_eq_none_iff.mp hid⟩
  · have hend : ¬ dirBuf.length < off + 33 := fun h => by
      cases hid.symm.trans (recordId_eq_none_iff.mpr h)
    rw [Option.bind_some, ih _ (by omega) _ rfl, or_iff_right fun h => hend h.2]
    simp only [hin, and_true, exists_eq_left]
  · have hend : ¬ dirBuf.length < off + 33 := fun h => by
      cases hid.symm.trans (recordId_eq_none_iff.mpr h)
    simp [hend]

/-- The reads of the array `dirBuf` are in it, for a file and a memory. -/
def ReadsInside (alloc : ℕ → Bool) (f : Image) (maxLen : ℕ) : Prop :=
  (retrogemParseIsoSector16 alloc f maxLen).isSome = true

/-- No record that is reached is short. -/
def NoneShort (alloc : ℕ → Bool) (f : Image) (maxLen : ℕ) : Prop :=
  ∀ st pvd dirBuf, findPvd f = some (st, pvd) → rootDir alloc f st pvd = some dirBuf →
    ¬ ∃ off, Reaches alloc f st maxLen dirBuf 0 off ∧ Short dirBuf off

theorem readsInside_iff : ReadsInside alloc f maxLen ↔ NoneShort alloc f maxLen := by
  rw [ReadsInside, NoneShort]
  rcases hpvd : findPvd f with _ | ⟨st, pvd⟩
  · rw [parse_of_none hpvd]
    refine iff_of_true rfl fun st pvd dirBuf h => ?_
    cases h
  rcases hdir : rootDir alloc f st pvd with _ | dirBuf
  · rw [parse_of_unread hpvd hdir]
    refine iff_of_true rfl fun st' pvd' dirBuf h hdir' => ?_
    obtain ⟨rfl, rfl⟩ := Prod.mk.inj (Option.some.inj h)
    cases hdir.symm.trans hdir'
  rw [parse_of_dir hpvd hdir, Option.isSome_map, walk_isSome_iff]
  constructor
  · intro hshort st' pvd' dirBuf' h hdir'
    obtain ⟨rfl, rfl⟩ := Prod.mk.inj (Option.some.inj h)
    obtain rfl := Option.some.inj (hdir.symm.trans hdir')
    exact hshort
  · intro h
    exact h st pvd dirBuf rfl hdir

end Safety

end Retrogem

end OpenPS2Loader
