import Mathlib.Algebra.Group.Int.Defs
import Mathlib.Algebra.Group.Nat.Defs
import Mathlib.Algebra.GroupWithZero.Nat
import OpenPS2Loader.Lib.Bytes

/-!
# The favourites file

`favourites.bin` in the OFAV format has a header of eight bytes (magic, version, number of records)
and records of variable length. `favWriteFile` writes version 3. `favReadFile` reads the versions
1 to 3, which differ in the byte between the text id and the length of the text: version 1 has none,
in version 2 it says whether the title is a VCD, in version 3 it is the kind. A file without the
magic is read as one of uOPL or wOPL (`favReadWoplFile`).

A file descriptor is what is left to read. Copies into the text of a record, into the array of
records and into the image of the file are checked against their bounds, and a function that leaves
them is `none`. Allocations succeed here.

## Main definitions

* `Favourites.FavRaw` — `fav_raw_t`
* `Favourites.favReadFile`, `Favourites.favReadWoplFile`
* `Favourites.favImage` — the bytes that `favWriteFile` writes
* `Favourites.Fields` — a well-formed record of the file, `Favourites.Fields.bytes` its layout
* `Favourites.IsPrefix`, `Favourites.documentedKind` — what a file of a version says

## Main results

* `Favourites.favReadFile_favImage` — what is written is read back
* `Favourites.readRecords_spec` — the records that are read are the longest prefix of well-formed
  ones
* `Favourites.migrates_iff` — a file is read with the documented kinds unless it is one of version 1
  with an application
-/

namespace OpenPS2Loader

namespace Favourites

open Bytes

/-! ### Records -/

/-- `FAV_TEXT_MAX` -/
def favTextMax : ℕ := 256

/-- `FAV_MAX_ITEMS` -/
def favMaxItems : ℕ := 512

/-- `FAV_MAGIC` -/
def favMagic : ℕ := 0x4641464F

/-- `FAV_VERSION` -/
def favVersion : ℕ := 3

/-- `APP_MODE` of `IO_MODES` -/
def appMode : ℤ := 10

/-- `FAV_KIND` -/
inductive FavKind
  | iso
  | vcd
  | cue
  | elf
  deriving DecidableEq, Repr

/-- The number of a kind. -/
def FavKind.toByte : FavKind → UInt8
  | .iso => 0
  | .vcd => 1
  | .cue => 2
  | .elf => 3

/-- The kind of a byte of version 3. A value that is not one of `FAV_KIND` is an ISO. -/
def FavKind.ofByte (b : UInt8) : FavKind :=
  if b = 1 then .vcd else if b = 2 then .cue else if b = 3 then .elf else .iso

theorem FavKind.ofByte_toByte (k : FavKind) : FavKind.ofByte k.toByte = k := by
  cases k <;> rfl

/-- `fav_raw_t`. The text is the C string in `char text[FAV_TEXT_MAX]`. -/
structure FavRaw where
  mode : ℤ
  id : UInt32
  iconId : UInt32
  textId : UInt32
  kind : FavKind
  text : List UInt8
  length_text : text.length < favTextMax
  zero_not_mem_text : 0 ∉ text
  deriving DecidableEq

/-! ### Reading -/

/-- `rdBytes` -/
def rdBytes (fd : List UInt8) (n : ℕ) : Option (List UInt8 × List UInt8) :=
  if n ≤ fd.length then some (fd.take n, fd.drop n) else none

/-- `rdU16` -/
def rdU16 (fd : List UInt8) : Option (UInt16 × List UInt8) :=
  (rdBytes fd 2).map fun r => (UInt16.ofNat (ofLe r.1), r.2)

/-- `rdU32` -/
def rdU32 (fd : List UInt8) : Option (UInt32 × List UInt8) :=
  (rdBytes fd 4).map fun r => (UInt32.ofNat (ofLe r.1), r.2)

/-- What is read of a record before it is stored. Version 1 has no byte for the kind: the variable
stays zero. The last byte of the text is cleared later. -/
structure Fields where
  mode : UInt16
  id : UInt32
  iconId : UInt32
  textId : UInt32
  kindByte : UInt8
  text : List UInt8
  deriving DecidableEq

/-- The byte that records have from version 2 on. -/
def rdKindByte (ver : ℕ) (fd : List UInt8) : Option (UInt8 × List UInt8) :=
  if 2 ≤ ver then (rdBytes fd 1).map fun r => (r.1.headD 0, r.2) else some (0, fd)

/-- The length of a text and the text. -/
def rdText (fd : List UInt8) : Option (List UInt8 × List UInt8) := do
  let (tlen, fd) ← rdU16 fd
  if tlen = 0 ∨ favTextMax < tlen.toNat then none else rdBytes fd tlen.toNat

/-- A turn of the loop of `favReadFile` up to the read of the text. -/
def rdFields (ver : ℕ) (fd : List UInt8) : Option (Fields × List UInt8) := do
  let (mode, fd) ← rdU16 fd
  let (id, fd) ← rdU32 fd
  let (icon, fd) ← rdU32 fd
  let (tid, fd) ← rdU32 fd
  let (kindByte, fd) ← rdKindByte ver fd
  let (text, fd) ← rdText fd
  return (⟨mode, id, icon, tid, kindByte, text⟩, fd)

/-- The text of a new record after `bytes` was read into it and the last of its bytes was cleared:
both have to stay in the array, and so has the C string. -/
def storeText (bytes : List UInt8) : Option {t : List UInt8 // t.length < favTextMax ∧ 0 ∉ t} := do
  let buf ← store (List.replicate favTextMax 0) 0 bytes
  let buf ← store buf (bytes.length - 1) [0]
  if h : (Bytes.cstr buf).length < favTextMax then
    some ⟨Bytes.cstr buf, h, zero_not_mem_cstr buf⟩
  else none

/-- The kind of a record. -/
def kindOf (ver : ℕ) (mode : UInt16) (kindByte : UInt8) : FavKind :=
  if 3 ≤ ver then
    FavKind.ofByte kindByte
  else if kindByte ≠ 0 then
    .vcd
  else if (mode.toNat : ℤ) = appMode then .elf else .iso

/-- A turn of the loop of `favReadFile` from the read of the text on. -/
def Fields.store (ver : ℕ) (f : Fields) : Option FavRaw := do
  let text ← storeText f.text
  return ⟨f.mode.toNat, f.id, f.iconId, f.textId, kindOf ver f.mode f.kindByte, text.1, text.2.1,
    text.2.2⟩

/-- The loop of `favReadFile`: `n` turns are left, and `recs` are the records that were stored in
the array of `cnt`. -/
def readRecords (ver cnt : ℕ) : ℕ → List FavRaw → List UInt8 → Option (List FavRaw)
  | 0, recs, _ => some recs
  | n + 1, recs, fd =>
    match rdFields ver fd with
    | none => some recs
    | some (f, fd) =>
      if recs.length < cnt then
        (f.store ver).bind fun r => readRecords ver cnt n (recs ++ [r]) fd
      else
        none

/-- `favMapWoplMode` -/
def favMapWoplMode (m : ℤ) : ℤ :=
  if m = 5 then 8 else if m = 6 then 9 else if m = 7 then appMode else if m = 8 then 12
  else if m = 9 then 11 else m

/-- The value of a `short`. -/
def ofShort (v : UInt16) : ℤ := if v.toNat < 2 ^ 15 then v.toNat else v.toNat - 2 ^ 16

/-- The length of the text of a record of uOPL or wOPL, and the text. -/
def rdWoplText (fd : List UInt8) : Option (List UInt8 × List UInt8) := do
  let (tlen, fd) ← rdU32 fd
  if tlen = 0 ∨ favTextMax < tlen.toNat then none else rdBytes fd tlen.toNat

/-- The loop of `favReadWoplFile`, which leaves the kind as `calloc` cleared it. -/
def readWopl : ℕ → List FavRaw → List UInt8 → Option (List FavRaw)
  | 0, recs, _ => some recs
  | n + 1, recs, fd =>
    match (do
      let (st, fd) ← rdBytes fd 32
      let (bytes, fd) ← rdWoplText fd
      let (mode, fd) ← rdU16 fd
      return (st, bytes, mode, fd) : Option (List UInt8 × List UInt8 × UInt16 × List UInt8)) with
    | none => some recs
    | some (st, bytes, mode, fd) =>
      if recs.length < favMaxItems then
        (storeText bytes).bind fun text =>
          readWopl n (recs ++ [⟨favMapWoplMode (ofShort mode), UInt32.ofNat (ofLe (field st 12 4)),
            UInt32.ofNat (ofLe (field st 0 4)), UInt32.ofNat (ofLe (field st 8 4)), .iso, text.1,
            text.2.1, text.2.2⟩]) fd
      else
        none

/-- `favReadWoplFile`. No records and `NULL` are the same. -/
def favReadWoplFile (fd : List UInt8) : Option (List FavRaw) := readWopl favMaxItems [] fd

/-- The header: magic, version and number of records. -/
def rdHeader (fd : List UInt8) : Option (UInt32 × UInt16 × UInt16 × List UInt8) := do
  let (magic, fd) ← rdU32 fd
  let (ver, fd) ← rdU16 fd
  let (cnt, fd) ← rdU16 fd
  return (magic, ver, cnt, fd)

/-- `favReadFile` of a file that was opened. -/
def favReadFile (file : List UInt8) : Option (List FavRaw) :=
  match rdHeader file with
  | none => favReadWoplFile file
  | some (magic, ver, cnt, fd) =>
    if magic.toNat ≠ favMagic then
      favReadWoplFile file
    else if ver < 1 ∨ favVersion < ver.toNat then
      some []
    else
      let cnt := min cnt.toNat favMaxItems
      readRecords ver.toNat cnt cnt [] fd

/-! ### Writing -/

/-- The value of a mode in the file. -/
def toU16 (mode : ℤ) : ℕ := (mode % 2 ^ 16).toNat

/-- The length of a text in the file, with its zero. -/
def textLen (r : FavRaw) : ℕ := min (r.text.length + 1) favTextMax

/-- The parts of a record in the image, in the order of the calls. -/
def recordParts (r : FavRaw) : List (List UInt8) :=
  [toLe 2 (toU16 r.mode), toLe 4 r.id.toNat, toLe 4 r.iconId.toNat, toLe 4 r.textId.toNat,
    [r.kind.toByte], toLe 2 (textLen r), r.text.take (textLen r - 1), [0]]

/-- The bytes that `favWriteFile` allocates. -/
def imageSize (recs : List FavRaw) : ℕ := 8 + (recs.map fun r => 17 + textLen r).sum

/-- The image that `favWriteFile` writes. -/
def favImage (recs : List FavRaw) : Option (List UInt8) :=
  let recs := recs.take favMaxItems
  appends (List.replicate (imageSize recs) 0) 0
    ([toLe 4 favMagic, toLe 2 favVersion, toLe 2 recs.length] ++ recs.flatMap recordParts)

/-! ### What the reads accept -/

theorem rdBytes_eq_some {fd b rest : List UInt8} {n : ℕ} :
    rdBytes fd n = some (b, rest) ↔ b.length = n ∧ fd = b ++ rest := by
  rw [rdBytes]
  constructor
  · intro h
    split at h
    next hn =>
      obtain ⟨rfl, rfl⟩ := Prod.mk.inj (Option.some.inj h)
      exact ⟨List.length_take_of_le hn, (List.take_append_drop n fd).symm⟩
    next => cases h
  · rintro ⟨rfl, rfl⟩
    rw [if_pos (by rw [List.length_append]; omega), List.take_left, List.drop_left]

private theorem rdLe_eq_some {fd rest : List UInt8} {k v : ℕ} (hv : v < 256 ^ k) :
    (rdBytes fd k).map (fun r => (ofLe r.1, r.2)) = some (v, rest) ↔ fd = toLe k v ++ rest := by
  constructor
  · intro h
    obtain ⟨⟨b, r⟩, hb, hr⟩ := Option.map_eq_some_iff.mp h
    obtain ⟨rfl, rfl⟩ := Prod.mk.inj hr
    obtain ⟨rfl, rfl⟩ := rdBytes_eq_some.mp hb
    rw [toLe_ofLe]
  · intro h
    rw [rdBytes_eq_some.mpr ⟨length_toLe k v, h⟩, Option.map_some, ofLe_toLe hv]

theorem rdU16_eq_some {fd rest : List UInt8} {v : UInt16} :
    rdU16 fd = some (v, rest) ↔ fd = toLe 2 v.toNat ++ rest := by
  rw [← rdLe_eq_some v.toNat_lt, rdU16, Option.map_eq_some_iff, Option.map_eq_some_iff]
  refine exists_congr fun ⟨b, r⟩ => and_congr_right fun hr => ?_
  have hlt : ofLe b < 2 ^ 16 := by
    obtain ⟨hlen, -⟩ := rdBytes_eq_some.mp hr
    simpa [hlen] using ofLe_lt b
  rw [Prod.mk.injEq, Prod.mk.injEq, ← UInt16.toNat_inj, UInt16.toNat_ofNat_of_lt' hlt]

theorem rdU32_eq_some {fd rest : List UInt8} {v : UInt32} :
    rdU32 fd = some (v, rest) ↔ fd = toLe 4 v.toNat ++ rest := by
  rw [← rdLe_eq_some v.toNat_lt, rdU32, Option.map_eq_some_iff, Option.map_eq_some_iff]
  refine exists_congr fun ⟨b, r⟩ => and_congr_right fun hr => ?_
  have hlt : ofLe b < 2 ^ 32 := by
    obtain ⟨hlen, -⟩ := rdBytes_eq_some.mp hr
    simpa [hlen] using ofLe_lt b
  rw [Prod.mk.injEq, Prod.mk.injEq, ← UInt32.toNat_inj, UInt32.toNat_ofNat_of_lt' hlt]

/-- The byte of the kind in the file. -/
def kindBytes (ver : ℕ) (b : UInt8) : List UInt8 := if 2 ≤ ver then [b] else []

theorem rdKindByte_eq_some {ver : ℕ} {fd rest : List UInt8} {b : UInt8} :
    rdKindByte ver fd = some (b, rest) ↔
      (ver < 2 → b = 0) ∧ fd = kindBytes ver b ++ rest := by
  rw [rdKindByte, kindBytes]
  by_cases hver : 2 ≤ ver
  · rw [if_pos hver, if_pos hver, Option.map_eq_some_iff]
    constructor
    · rintro ⟨⟨d, r⟩, hd, hr⟩
      obtain ⟨rfl, rfl⟩ := Prod.mk.inj hr
      obtain ⟨hlen, rfl⟩ := rdBytes_eq_some.mp hd
      obtain ⟨c, rfl⟩ := List.length_eq_one_iff.mp hlen
      exact ⟨fun h => absurd hver (Nat.not_le.mpr h), rfl⟩
    · rintro ⟨-, rfl⟩
      exact ⟨([b], rest), rdBytes_eq_some.mpr ⟨rfl, rfl⟩, rfl⟩
  · rw [if_neg hver, if_neg hver, Option.some.injEq, Prod.mk.injEq, List.nil_append]
    constructor
    · rintro ⟨rfl, rfl⟩
      exact ⟨fun _ => rfl, rfl⟩
    · rintro ⟨hb, rfl⟩
      exact ⟨(hb (Nat.lt_of_not_le hver)).symm, rfl⟩

theorem rdText_eq_some {fd t rest : List UInt8} :
    rdText fd = some (t, rest) ↔
      (t ≠ [] ∧ t.length ≤ favTextMax) ∧ fd = toLe 2 t.length ++ (t ++ rest) := by
  rw [rdText, Option.bind_eq_bind, Option.bind_eq_some_iff]
  constructor
  · rintro ⟨⟨tlen, r⟩, htlen, ht⟩
    obtain rfl := rdU16_eq_some.mp htlen
    dsimp only at ht
    split at ht
    next => cases ht
    next hok =>
      obtain ⟨hlen, rfl⟩ := rdBytes_eq_some.mp ht
      rw [not_or, ← UInt16.toNat_inj] at hok
      refine ⟨⟨?_, by omega⟩, by rw [hlen]⟩
      rintro rfl
      exact hok.1 (hlen.symm.trans UInt16.toNat_zero.symm)
  · rintro ⟨⟨hne, hlen⟩, rfl⟩
    have hpos : 0 < t.length := List.length_pos_iff.mpr hne
    have hbound : t.length < 2 ^ 16 := by
      rw [favTextMax] at hlen
      omega
    have hnat : (UInt16.ofNat t.length).toNat = t.length := UInt16.toNat_ofNat_of_lt' hbound
    refine ⟨(UInt16.ofNat t.length, t ++ rest), rdU16_eq_some.mpr (by rw [hnat]), ?_⟩
    have hok : ¬(UInt16.ofNat t.length = 0 ∨ favTextMax < (UInt16.ofNat t.length).toNat) := by
      rw [not_or, ← UInt16.toNat_inj, hnat, UInt16.toNat_zero]
      omega
    dsimp only
    rw [if_neg hok, hnat, rdBytes_eq_some]
    exact ⟨rfl, rfl⟩

/-- A record that a file of version `ver` can have: the length of its text is in range, and there
is no byte for the kind before version 2. -/
structure Fields.WellFormed (ver : ℕ) (f : Fields) : Prop where
  text_ne_nil : f.text ≠ []
  length_text : f.text.length ≤ favTextMax
  kindByte : ver < 2 → f.kindByte = 0

/-- The layout of a record in a file of version `ver`. -/
def Fields.bytes (ver : ℕ) (f : Fields) : List UInt8 :=
  toLe 2 f.mode.toNat ++ (toLe 4 f.id.toNat ++ (toLe 4 f.iconId.toNat ++ (toLe 4 f.textId.toNat ++
    (kindBytes ver f.kindByte ++ (toLe 2 f.text.length ++ f.text)))))

/-- A turn of the loop reads a well-formed record, and every well-formed record is read. -/
theorem rdFields_eq_some {ver : ℕ} {fd rest : List UInt8} {f : Fields} :
    rdFields ver fd = some (f, rest) ↔ f.WellFormed ver ∧ fd = f.bytes ver ++ rest := by
  obtain ⟨mode, id, icon, tid, kindByte, text⟩ := f
  simp only [rdFields, Option.bind_eq_bind, Option.bind_eq_some_iff, Option.pure_def, Prod.exists,
    rdU16_eq_some, rdU32_eq_some, rdKindByte_eq_some, rdText_eq_some, Option.some.injEq,
    Prod.mk.injEq, Fields.mk.injEq, Fields.bytes, List.append_assoc]
  constructor
  · rintro ⟨_, _, rfl, _, _, rfl, _, _, rfl, _, _, rfl, _, _, ⟨hkind, rfl⟩, _, _,
      ⟨⟨hne, hlen⟩, rfl⟩, ⟨rfl, rfl, rfl, rfl, rfl, rfl⟩, rfl⟩
    exact ⟨⟨hne, hlen, hkind⟩, rfl⟩
  · rintro ⟨⟨hne, hlen, hkind⟩, rfl⟩
    exact ⟨_, _, rfl, _, _, rfl, _, _, rfl, _, _, rfl, _, _, ⟨hkind, rfl⟩, _, _,
      ⟨⟨hne, hlen⟩, rfl⟩, ⟨rfl, rfl, rfl, rfl, rfl, rfl⟩, rfl⟩

/-! ### What is stored -/

/-- A well-formed record of a file of version `ver`. -/
abbrev Record (ver : ℕ) : Type := {f : Fields // f.WellFormed ver}

/-- The text of a record without its last byte, which the reader clears. -/
theorem length_dropLast_lt {ver : ℕ} (f : Record ver) :
    (Bytes.cstr f.1.text.dropLast).length < favTextMax := by
  have hle := length_cstr_le f.1.text.dropLast
  have hpos := List.length_pos_iff.mpr f.2.text_ne_nil
  have hlen := f.2.length_text
  rw [List.length_dropLast] at hle
  omega

/-- What a record of the file says, with the kind by `rule`. -/
def Record.raw {ver : ℕ} (rule : UInt16 → UInt8 → FavKind) (f : Record ver) : FavRaw where
  mode := f.1.mode.toNat
  id := f.1.id
  iconId := f.1.iconId
  textId := f.1.textId
  kind := rule f.1.mode f.1.kindByte
  text := Bytes.cstr f.1.text.dropLast
  length_text := length_dropLast_lt f
  zero_not_mem_text := zero_not_mem_cstr _

theorem storeText_of_le {t : List UInt8} (hne : t ≠ []) (hlen : t.length ≤ favTextMax) :
    (storeText t).map Subtype.val = some (Bytes.cstr t.dropLast) := by
  have hpos := List.length_pos_iff.mpr hne
  have hbuf : (List.replicate favTextMax (0 : UInt8)).length = favTextMax := List.length_replicate
  have hread : 0 + t.length ≤ (List.replicate favTextMax (0 : UInt8)).length := by omega
  have hlast : t.length - 1 + [(0 : UInt8)].length ≤
      (overwrite (List.replicate favTextMax 0) 0 t).length := by
    rw [length_overwrite hread, List.length_singleton]
    omega
  have hcstr :
      Bytes.cstr (overwrite (overwrite (List.replicate favTextMax 0) 0 t) (t.length - 1) [0]) =
        Bytes.cstr t.dropLast := by
    rw [overwrite, List.append_assoc, List.singleton_append, cstr_append_zero, overwrite,
      List.take_zero, List.nil_append, List.take_append_of_le_length (by omega),
      List.dropLast_eq_take]
  have hlt : (Bytes.cstr t.dropLast).length < favTextMax := by
    have hle := length_cstr_le t.dropLast
    rw [List.length_dropLast] at hle
    omega
  rw [storeText, store_of_le hread]
  simp only [Option.bind_eq_bind, Option.bind_some]
  rw [store_of_le hlast, Option.bind_some, dif_pos (by rw [hcstr]; exact hlt), Option.map_some]
  exact congrArg some hcstr

/-- A well-formed record is stored inside of its array. -/
theorem Record.store_eq {ver : ℕ} (f : Record ver) :
    f.1.store ver = some (f.raw (kindOf ver)) := by
  have htext := storeText_of_le f.2.text_ne_nil f.2.length_text
  obtain ⟨⟨t, ht⟩, hstore, heq⟩ := Option.map_eq_some_iff.mp htext
  obtain rfl : t = Bytes.cstr f.1.text.dropLast := heq
  rw [Fields.store, hstore]
  rfl

/-! ### The longest prefix of well-formed records -/

/-- At most `cap` records of version `ver`, one after the other at the start of `body`. -/
def IsPrefix (ver cap : ℕ) (body : List UInt8) (fs : List (Record ver)) : Prop :=
  fs.length ≤ cap ∧ fs.flatMap (fun f => f.1.bytes ver) <+: body

/-- Every such sequence of records is at the start of this one. -/
def IsLongest (ver cap : ℕ) (body : List UInt8) (fs : List (Record ver)) : Prop :=
  IsPrefix ver cap body fs ∧ ∀ gs, IsPrefix ver cap body gs → gs <+: fs

/-- What the first of the records leaves to read. -/
theorem rdFields_of_isPrefix {ver cap : ℕ} {body : List UInt8} {f : Record ver}
    {fs : List (Record ver)} (h : IsPrefix ver cap body (f :: fs)) :
    ∃ rest, rdFields ver body = some (f.1, rest) ∧ IsPrefix ver (cap - 1) rest fs := by
  obtain ⟨hlen, tail, rfl⟩ := h
  rw [List.flatMap_cons, List.append_assoc]
  refine ⟨_, rdFields_eq_some.mpr ⟨f.2, rfl⟩, ?_, tail, rfl⟩
  rw [List.length_cons] at hlen
  omega

/-- The loop of `favReadFile` stays in the array and stores the longest prefix. -/
theorem readRecords_spec (ver cnt n : ℕ) (recs : List FavRaw) (fd : List UInt8)
    (hroom : recs.length + n ≤ cnt) :
    ∃ fs, IsLongest ver n fd fs ∧
      readRecords ver cnt n recs fd = some (recs ++ fs.map (Record.raw (kindOf ver))) := by
  induction n generalizing recs fd with
  | zero =>
    refine ⟨[], ⟨⟨le_rfl, List.nil_prefix⟩, fun gs hgs => ?_⟩, by simp [readRecords]⟩
    obtain rfl := List.eq_nil_of_length_eq_zero (Nat.le_zero.mp hgs.1)
    exact List.prefix_rfl
  | succ n ih =>
    rw [readRecords]
    cases hread : rdFields ver fd with
    | none =>
      refine ⟨[], ⟨⟨Nat.zero_le _, List.nil_prefix⟩, fun gs hgs => ?_⟩, by simp⟩
      cases gs with
      | nil => exact List.prefix_rfl
      | cons g gs =>
        obtain ⟨rest, hg, -⟩ := rdFields_of_isPrefix hgs
        rw [hread] at hg
        cases hg
    | some r =>
      obtain ⟨f, rest⟩ := r
      obtain ⟨hf, rfl⟩ := rdFields_eq_some.mp hread
      obtain ⟨fs, ⟨⟨hlen, hprefix⟩, hlongest⟩, hfs⟩ :=
        ih (recs ++ [Record.raw (kindOf ver) ⟨f, hf⟩]) rest (by simp; omega)
      refine ⟨⟨f, hf⟩ :: fs, ⟨⟨?_, ?_⟩, fun gs hgs => ?_⟩, ?_⟩
      · rw [List.length_cons]
        omega
      · rw [List.flatMap_cons]
        exact (List.prefix_append_right_inj _).mpr hprefix
      · cases gs with
        | nil => exact List.nil_prefix
        | cons g gs =>
          obtain ⟨rest', hg, hgs'⟩ := rdFields_of_isPrefix hgs
          rw [hread, Option.some.injEq, Prod.mk.injEq] at hg
          obtain ⟨hgf, rfl⟩ := hg
          obtain rfl : g = ⟨f, hf⟩ := Subtype.ext hgf.symm
          exact List.cons_prefix_cons.mpr ⟨rfl, hlongest gs hgs'⟩
      · have hstore := Record.store_eq (⟨f, hf⟩ : Record ver)
        dsimp only at hstore ⊢
        rw [if_pos (by omega), hstore, Option.bind_some, hfs, List.map_cons, List.append_assoc]
        rfl

/-- The header before the records. -/
def header (ver cnt : ℕ) : List UInt8 := toLe 4 favMagic ++ (toLe 2 ver ++ toLe 2 cnt)

theorem rdHeader_header {ver cnt : ℕ} (hver : ver < 2 ^ 16) (hcnt : cnt < 2 ^ 16)
    (body : List UInt8) :
    rdHeader (header ver cnt ++ body) =
      some (UInt32.ofNat favMagic, UInt16.ofNat ver, UInt16.ofNat cnt, body) := by
  simp only [rdHeader, Option.bind_eq_bind, Option.bind_eq_some_iff, Option.pure_def, Prod.exists,
    rdU16_eq_some, rdU32_eq_some, Option.some.injEq, Prod.mk.injEq, header, List.append_assoc]
  refine ⟨UInt32.ofNat favMagic, _, rfl, UInt16.ofNat ver, toLe 2 cnt ++ body, ?_,
    UInt16.ofNat cnt, body, ?_, rfl, rfl, rfl, rfl⟩
  · rw [UInt16.toNat_ofNat_of_lt' hver]
  · rw [UInt16.toNat_ofNat_of_lt' hcnt]

/-- `favReadFile` of a file of one of the versions. -/
theorem favReadFile_header {ver : ℕ} (hver : 1 ≤ ver) (hver' : ver ≤ favVersion) {cnt : ℕ}
    (hcnt : cnt < 2 ^ 16) (body : List UInt8) :
    ∃ fs, IsLongest ver (min cnt favMaxItems) body fs ∧
      favReadFile (header ver cnt ++ body) = some (fs.map (Record.raw (kindOf ver))) := by
  have hverLt : ver < 2 ^ 16 := by
    rw [favVersion] at hver'
    omega
  have hverNat : (UInt16.ofNat ver).toNat = ver := UInt16.toNat_ofNat_of_lt' hverLt
  have hcntNat : (UInt16.ofNat cnt).toNat = cnt := UInt16.toNat_ofNat_of_lt' hcnt
  obtain ⟨fs, hfs, hread⟩ :=
    readRecords_spec ver (min cnt favMaxItems) (min cnt favMaxItems) [] body
    (by simp)
  refine ⟨fs, hfs, ?_⟩
  have hmagic : ¬(UInt32.ofNat favMagic).toNat ≠ favMagic := by decide
  have hsupported : ¬(UInt16.ofNat ver < 1 ∨ favVersion < (UInt16.ofNat ver).toNat) := by
    rw [UInt16.lt_iff_toNat_lt, hverNat, UInt16.toNat_one]
    omega
  rw [favReadFile, rdHeader_header hverLt hcnt]
  dsimp only
  rw [if_neg hmagic, if_neg hsupported, hverNat, hcntNat, hread, List.nil_append]

/-- The import stays in its array as well. -/
theorem readWopl_total (n : ℕ) (recs : List FavRaw) (fd : List UInt8)
    (hroom : recs.length + n ≤ favMaxItems) :
    ∃ rs, readWopl n recs fd = some rs ∧ rs.length ≤ favMaxItems := by
  induction n generalizing recs fd with
  | zero => exact ⟨recs, rfl, hroom⟩
  | succ n ih =>
    rw [readWopl]
    split
    next => exact ⟨recs, rfl, by omega⟩
    next st bytes mode fd' hread =>
      simp only [Option.bind_eq_bind, Option.bind_eq_some_iff, Option.pure_def, Prod.exists,
        Option.some.injEq, Prod.mk.injEq] at hread
      obtain ⟨_, _, -, t, _, htext, _, _, -, -, rfl, -, -⟩ := hread
      rw [rdWoplText, Option.bind_eq_bind, Option.bind_eq_some_iff] at htext
      obtain ⟨⟨tlen, fd₁⟩, -, htext⟩ := htext
      dsimp only at htext
      split at htext
      next => cases htext
      next hlen =>
        rw [not_or, ← UInt32.toNat_inj, UInt32.toNat_zero] at hlen
        obtain ⟨hbytes, -⟩ := rdBytes_eq_some.mp htext
        have hne : t ≠ [] := List.length_pos_iff.mp (by omega)
        obtain ⟨text, htext', -⟩ := Option.map_eq_some_iff.mp (storeText_of_le hne (by omega))
        rw [if_pos (by omega), htext', Option.bind_some]
        exact ih _ _ (by simp; omega)

/-- Every file is read without leaving the array. -/
theorem favReadFile_total (file : List UInt8) :
    ∃ rs, favReadFile file = some rs ∧ rs.length ≤ favMaxItems := by
  rw [favReadFile]
  split
  next => exact readWopl_total favMaxItems [] file (by simp)
  next magic ver cnt fd _ =>
    split
    next => exact readWopl_total favMaxItems [] file (by simp)
    next =>
      split
      next => exact ⟨[], rfl, Nat.zero_le _⟩
      next =>
        obtain ⟨fs, ⟨⟨hlen, -⟩, -⟩, hread⟩ := readRecords_spec ver.toNat
          (min cnt.toNat favMaxItems) (min cnt.toNat favMaxItems) [] fd (by simp)
        refine ⟨_, hread, ?_⟩
        rw [List.nil_append, List.length_map]
        exact hlen.trans (Nat.min_le_right _ _)

/-! ### The round trip -/

/-- A record as `favWriteFile` writes it. -/
def Record.ofRaw (r : FavRaw) : Record favVersion where
  val := ⟨UInt16.ofNat (toU16 r.mode), r.id, r.iconId, r.textId, r.kind.toByte, r.text ++ [0]⟩
  property := by
    refine ⟨List.append_ne_nil_of_right_ne_nil _ (List.cons_ne_nil _ _), ?_, fun h => ?_⟩
    · rw [List.length_append, List.length_singleton]
      exact r.length_text
    · rw [favVersion] at h
      omega

theorem toU16_lt (mode : ℤ) : toU16 mode < 2 ^ 16 := by
  rw [toU16]
  omega

theorem textLen_eq (r : FavRaw) : textLen r = r.text.length + 1 :=
  Nat.min_eq_left r.length_text

theorem flatten_recordParts (r : FavRaw) :
    (recordParts r).flatten = (Record.ofRaw r).1.bytes favVersion := by
  have hmode : (UInt16.ofNat (toU16 r.mode)).toNat = toU16 r.mode :=
    UInt16.toNat_ofNat_of_lt' (toU16_lt r.mode)
  have htake : r.text.take (r.text.length + 1 - 1) = r.text := List.take_length
  have hlen : (r.text ++ [0]).length = r.text.length + 1 := by simp
  have hkind : kindBytes favVersion r.kind.toByte = [r.kind.toByte] := rfl
  rw [recordParts, textLen_eq, htake, Fields.bytes]
  dsimp only [Record.ofRaw]
  rw [hmode, hlen, hkind]
  simp only [List.flatten_cons, List.flatten_nil, List.append_nil]

theorem length_bytes_ofRaw (r : FavRaw) :
    ((Record.ofRaw r).1.bytes favVersion).length = 17 + textLen r := by
  rw [← flatten_recordParts, recordParts]
  simp only [List.flatten_cons, List.flatten_nil, List.length_append, length_toLe,
    List.length_singleton, List.length_nil, List.length_take, textLen_eq]
  omega

theorem flatten_flatMap_recordParts (recs : List FavRaw) :
    (recs.flatMap recordParts).flatten =
      (recs.map Record.ofRaw).flatMap fun f => f.1.bytes favVersion := by
  induction recs with
  | nil => rfl
  | cons r recs ih =>
    rw [List.flatMap_cons, List.flatten_append, ih, flatten_recordParts, List.map_cons,
      List.flatMap_cons]

/-- `favWriteFile` fills its image exactly. -/
theorem favImage_eq (recs : List FavRaw) (h : recs.length ≤ favMaxItems) :
    favImage recs = some (header favVersion recs.length ++
      (recs.map Record.ofRaw).flatMap fun f => f.1.bytes favVersion) := by
  have htake : recs.take favMaxItems = recs := List.take_of_length_le h
  have hflat : ([toLe 4 favMagic, toLe 2 favVersion, toLe 2 recs.length] ++
      recs.flatMap recordParts).flatten = header favVersion recs.length ++
        (recs.map Record.ofRaw).flatMap fun f => f.1.bytes favVersion := by
    rw [List.flatten_append, flatten_flatMap_recordParts, header]
    simp only [List.flatten_cons, List.flatten_nil, List.append_nil]
  have hbody : ((recs.map Record.ofRaw).flatMap fun f => f.1.bytes favVersion).length =
      (recs.map fun r => 17 + textLen r).sum := by
    rw [List.length_flatMap, List.map_map]
    exact congrArg List.sum (List.map_congr_left fun r _ => length_bytes_ofRaw r)
  have hlen : (header favVersion recs.length ++
      (recs.map Record.ofRaw).flatMap fun f => f.1.bytes favVersion).length =
        (List.replicate (imageSize recs) (0 : UInt8)).length := by
    rw [List.length_append, hbody, header, List.length_replicate, imageSize]
    simp only [List.length_append, length_toLe]
  rw [favImage, htake, appends_of_le (by rw [hflat, hlen, Nat.zero_add]), hflat,
    overwrite_all hlen]

theorem raw_ofRaw {r : FavRaw} (hmode : 0 ≤ r.mode) (hmode' : r.mode < 2 ^ 16) :
    (Record.ofRaw r).raw (kindOf favVersion) = r := by
  have hnat : (UInt16.ofNat (toU16 r.mode)).toNat = toU16 r.mode :=
    UInt16.toNat_ofNat_of_lt' (toU16_lt r.mode)
  have hval : ((toU16 r.mode : ℕ) : ℤ) = r.mode := by
    rw [toU16]
    omega
  have htext : Bytes.cstr (r.text ++ [0]).dropLast = r.text := by
    rw [List.dropLast_concat, cstr_of_not_mem r.zero_not_mem_text]
  have hkind : kindOf favVersion (UInt16.ofNat (toU16 r.mode)) r.kind.toByte = r.kind :=
    FavKind.ofByte_toByte r.kind
  obtain ⟨mode, id, icon, tid, kind, text, hlen, hzero⟩ := r
  dsimp only [Record.raw, Record.ofRaw]
  rw [FavRaw.mk.injEq]
  exact ⟨by rw [hnat]; exact hval, rfl, rfl, rfl, hkind, htext⟩

/-- What is written is read back, in the same order. -/
theorem favReadFile_favImage (recs : List FavRaw) (hlen : recs.length ≤ favMaxItems)
    (hmode : ∀ r ∈ recs, 0 ≤ r.mode ∧ r.mode < 2 ^ 16) :
    (favImage recs).bind favReadFile = some recs := by
  have hcnt : recs.length < 2 ^ 16 := by
    rw [favMaxItems] at hlen
    omega
  obtain ⟨fs, ⟨⟨hfsLen, -⟩, hlongest⟩, hread⟩ := favReadFile_header
    (by decide : 1 ≤ favVersion) le_rfl hcnt
    ((recs.map Record.ofRaw).flatMap fun f => f.1.bytes favVersion)
  rw [Nat.min_eq_left hlen] at hfsLen hlongest
  -- the records that were written are a prefix, and there is room for no more
  have hall : recs.map Record.ofRaw <+: fs :=
    hlongest _ ⟨by rw [List.length_map], List.prefix_rfl⟩
  have hfs : recs.map Record.ofRaw = fs :=
    hall.eq_of_length_le (by rw [List.length_map]; exact hfsLen)
  rw [favImage_eq recs hlen, Option.bind_some, hread, ← hfs, List.map_map]
  refine congrArg some ?_
  have hid : ∀ r ∈ recs, (Record.raw (kindOf favVersion) ∘ Record.ofRaw) r = r := by
    intro r hr
    exact raw_ofRaw (hmode r hr).1 (hmode r hr).2
  rw [List.map_congr_left hid, List.map_id']

/-! ### Files of the three versions -/

/-- A file that starts with the magic and a version. -/
def ofav (ver : ℕ) (rest : List UInt8) : List UInt8 := toLe 4 favMagic ++ (toLe 2 ver ++ rest)

/-- The records a file may have: the number in its header, which is cut at `FAV_MAX_ITEMS`. A file
without that number has none. -/
def storedCount (rest : List UInt8) : ℕ :=
  if 2 ≤ rest.length then min (ofLe (rest.take 2)) favMaxItems else 0

/-- The kinds as the comment in `favReadFile` has them: "v1: no byte at all -> ISO", in version 2
the byte is a boolean and "a v2 record whose source is the APPS tab is an ELF favourite; that is the
only record whose shelf changes on upgrade", and version 3 "stores the kind directly". -/
def documentedKind (ver : ℕ) (mode : UInt16) (kindByte : UInt8) : FavKind :=
  if ver = 1 then
    .iso
  else if ver = 2 then
    if kindByte ≠ 0 then .vcd else if (mode.toNat : ℤ) = appMode then .elf else .iso
  else
    FavKind.ofByte kindByte

/-- The file is read as its longest prefix of well-formed records, with the documented kinds, and
reads the same after it was saved. -/
def Migrates (ver : ℕ) (rest : List UInt8) : Prop :=
  ∃ fs : List (Record ver), IsLongest ver (storedCount rest) (rest.drop 2) fs ∧
    favReadFile (ofav ver rest) = some (fs.map (Record.raw (documentedKind ver))) ∧
    (favImage (fs.map (Record.raw (documentedKind ver)))).bind favReadFile =
      some (fs.map (Record.raw (documentedKind ver)))

/-- `favReadFile` of a file with the magic and one of the versions. -/
theorem favReadFile_ofav {ver : ℕ} (hver : 1 ≤ ver) (hver' : ver ≤ favVersion)
    (rest : List UInt8) :
    ∃ fs, IsLongest ver (storedCount rest) (rest.drop 2) fs ∧
      favReadFile (ofav ver rest) = some (fs.map (Record.raw (kindOf ver))) := by
  by_cases hlen : 2 ≤ rest.length
  · have hcount : storedCount rest = min (ofLe (rest.take 2)) favMaxItems := if_pos hlen
    have htake : (rest.take 2).length = 2 := List.length_take_of_le hlen
    have hlt : ofLe (rest.take 2) < 2 ^ 16 := by
      simpa [htake] using ofLe_lt (rest.take 2)
    have hfile : ofav ver rest = header ver (ofLe (rest.take 2)) ++ rest.drop 2 := by
      have hcnt : toLe 2 (ofLe (rest.take 2)) = rest.take 2 := by
        have h := toLe_ofLe (rest.take 2)
        rwa [htake] at h
      rw [ofav, header, hcnt, List.append_assoc, List.append_assoc, List.take_append_drop]
    rw [hcount, hfile]
    exact favReadFile_header hver hver' hlt (rest.drop 2)
  · have hcount : storedCount rest = 0 := if_neg hlen
    have hshort : (ofav ver rest).length < 8 := by
      rw [ofav, List.length_append, List.length_append, length_toLe, length_toLe]
      omega
    -- a header that is too short goes to the import, which needs 32 bytes
    have hheader : rdHeader (ofav ver rest) = none := by
      cases hread : rdHeader (ofav ver rest) with
      | none => rfl
      | some r =>
        obtain ⟨magic, v, c, fd⟩ := r
        simp only [rdHeader, Option.bind_eq_bind, Option.bind_eq_some_iff, Option.pure_def,
          Prod.exists, rdU16_eq_some, rdU32_eq_some] at hread
        obtain ⟨_, _, hmagic, _, _, hv, _, _, hc, -⟩ := hread
        rw [hmagic, hv, hc] at hshort
        simp only [List.length_append, length_toLe] at hshort
        omega
    have himport : rdBytes (ofav ver rest) 32 = none := if_neg (by omega)
    refine ⟨[], ⟨⟨Nat.zero_le _, List.nil_prefix⟩, fun gs hgs => ?_⟩, ?_⟩
    · rw [hcount] at hgs
      obtain rfl := List.eq_nil_of_length_eq_zero (Nat.le_zero.mp hgs.1)
      exact List.prefix_rfl
    · rw [favReadFile, hheader]
      dsimp only
      rw [favReadWoplFile, favMaxItems, readWopl, himport]
      rfl

theorem kindOf_eq_documentedKind {ver : ℕ} (hver : 1 ≤ ver) (hver' : ver ≤ favVersion)
    {f : Fields} (hf : f.WellFormed ver) :
    kindOf ver f.mode f.kindByte = documentedKind ver f.mode f.kindByte ↔
      ¬(ver = 1 ∧ (f.mode.toNat : ℤ) = appMode) := by
  rw [favVersion] at hver'
  obtain rfl | rfl | rfl : ver = 1 ∨ ver = 2 ∨ ver = 3 := by omega
  · have hzero : f.kindByte = 0 := hf.kindByte (by decide)
    rw [hzero, kindOf, documentedKind, if_neg (by decide), if_neg (by decide), if_pos rfl]
    by_cases happ : (f.mode.toNat : ℤ) = appMode
    · rw [if_pos happ]
      exact ⟨fun h => FavKind.noConfusion h, fun h => absurd ⟨rfl, happ⟩ h⟩
    · rw [if_neg happ]
      exact ⟨fun _ h => happ h.2, fun _ => rfl⟩
  · exact ⟨fun _ h => absurd h.1 (by decide), fun _ => rfl⟩
  · exact ⟨fun _ h => absurd h.1 (by decide), fun _ => rfl⟩

theorem IsLongest.unique {ver cap : ℕ} {body : List UInt8} {fs gs : List (Record ver)}
    (hfs : IsLongest ver cap body fs) (hgs : IsLongest ver cap body gs) : fs = gs :=
  (hgs.2 fs hfs.1).eq_of_length_le (hfs.2 gs hgs.1).length_le

/-- Some record of the file is one of version 1 that came from the applications. -/
def HasOldApp (ver : ℕ) (rest : List UInt8) : Prop :=
  ver = 1 ∧ ∃ fs : List (Record ver), IsPrefix ver (storedCount rest) (rest.drop 2) fs ∧
    ∃ f ∈ fs, (f.1.mode.toNat : ℤ) = appMode

theorem map_raw_eq_iff {ver : ℕ} (hver : 1 ≤ ver) (hver' : ver ≤ favVersion)
    (fs : List (Record ver)) :
    fs.map (Record.raw (kindOf ver)) = fs.map (Record.raw (documentedKind ver)) ↔
      ∀ f ∈ fs, ¬(ver = 1 ∧ (f.1.mode.toNat : ℤ) = appMode) := by
  rw [List.map_inj_left]
  refine forall₂_congr fun f _ => ?_
  rw [← kindOf_eq_documentedKind hver hver' f.2, Record.raw, Record.raw, FavRaw.mk.injEq]
  exact ⟨fun h => h.2.2.2.2.1, fun h => ⟨rfl, rfl, rfl, rfl, h, rfl⟩⟩

theorem migrates_iff {ver : ℕ} (hver : 1 ≤ ver) (hver' : ver ≤ favVersion) (rest : List UInt8) :
    Migrates ver rest ↔ ¬HasOldApp ver rest := by
  obtain ⟨fs, hfs, hread⟩ := favReadFile_ofav hver hver' rest
  have happ : HasOldApp ver rest ↔ ¬∀ f ∈ fs, ¬(ver = 1 ∧ (f.1.mode.toNat : ℤ) = appMode) := by
    constructor
    · rintro ⟨hone, gs, hgs, f, hf, hmode⟩ hall
      exact hall f ((hfs.2 gs hgs).subset hf) ⟨hone, hmode⟩
    · intro h
      simp only [not_forall, not_not] at h
      obtain ⟨f, hf, hone, hmode⟩ := h
      exact ⟨hone, fs, hfs.1, f, hf, hmode⟩
  rw [happ, not_not, ← map_raw_eq_iff hver hver']
  constructor
  · rintro ⟨gs, hgs, hread', -⟩
    obtain rfl := hfs.unique hgs
    exact Option.some.inj (hread.symm.trans hread')
  · intro hkinds
    refine ⟨fs, hfs, hread.trans (congrArg some hkinds), ?_⟩
    refine favReadFile_favImage _ ?_ fun r hr => ?_
    · rw [List.length_map]
      refine hfs.1.1.trans ?_
      rw [storedCount]
      split
      · exact Nat.min_le_right _ _
      · exact Nat.zero_le _
    · obtain ⟨f, -, rfl⟩ := List.mem_map.mp hr
      have hlt := f.1.mode.toNat_lt
      have hmode : (f.raw (documentedKind ver)).mode = f.1.mode.toNat := rfl
      rw [hmode]
      omega

/-- **The favourites file.** Every list of records is read back as it was written. A file with the
magic and one of the versions is read as its longest prefix of well-formed records, with the
documented kinds, and is stable when it is saved, exactly if it is not a file of version 1 with an
application: `favReadFile` makes that one an ELF favourite as well. -/
theorem ofav_round_trip (recs : List FavRaw) (hlen : recs.length ≤ favMaxItems)
    (hmode : ∀ r ∈ recs, 0 ≤ r.mode ∧ r.mode < 2 ^ 16) {ver : ℕ} (hver : 1 ≤ ver)
    (hver' : ver ≤ favVersion) (rest : List UInt8) :
    (favImage recs).bind favReadFile = some recs ∧ (Migrates ver rest ↔ ¬HasOldApp ver rest) :=
  ⟨favReadFile_favImage recs hlen hmode, migrates_iff hver hver' rest⟩

/-- The record of an application, "A", with the fields of version 1. -/
def oldApp : Record 1 := ⟨⟨10, 0, 0, 0, 0, [65, 0]⟩, List.cons_ne_nil _ _, by decide, fun _ => rfl⟩

/-- A file of version 1 with an application is not read with the documented kind. -/
theorem not_migrates_oldApp : ¬Migrates 1 (toLe 2 1 ++ oldApp.1.bytes 1) := by
  rw [migrates_iff le_rfl (by decide), not_not]
  exact ⟨rfl, [oldApp], ⟨by decide, by decide⟩, oldApp, List.mem_singleton_self _, rfl⟩

/-- The application in files of versions 3 and 2. -/
theorem ofav_round_trip_app :
    (favImage [oldApp.raw (kindOf 1)]).bind favReadFile = some [oldApp.raw (kindOf 1)] ∧
      (Migrates 2 (toLe 2 1 ++ oldApp.1.bytes 2) ↔ ¬HasOldApp 2 (toLe 2 1 ++ oldApp.1.bytes 2)) :=
  ofav_round_trip [oldApp.raw (kindOf 1)] (by decide) (by decide) (by decide) (by decide) _

end Favourites

end OpenPS2Loader
