import OpenPS2Loader.Retrogem.BootText

/-!
# Discs, images and the walk over a directory

An image has the data of a disc in sectors of 2048 bytes, or in raw sectors of 2352 bytes with other
bytes around the data. The directory is read in one piece from the start of its first sector: in a
raw image this piece has the other bytes in it, and ends earlier.

The walk over the directory goes on at the next multiple of the size of a sector when it meets a
zero. In a raw image this is the data of the next sector, but a sector without a zero at its end is
followed by the bytes around the data.

## Main definitions

* `Retrogem.Disc`, `Disc.cooked`, `Disc.raw` — a disc and its images
* `Retrogem.Record` — a record of a directory
* `Retrogem.GameDisc` — a disc with a root directory and a `SYSTEM.CNF` in it
* `Retrogem.Stores` — an image that is recognised

## Main results

* `Retrogem.walk_record`, `walk_records`, `walk_sector` — what the loop does with records
* `Retrogem.GameDisc.walk_sectors`, `GameDisc.walk_index` — and with the directory of a disc
-/

namespace OpenPS2Loader

namespace Retrogem

open Bytes

/-! ### Discs -/

/-- The data of a disc, which has at most 100 minutes of 60 seconds of 75 sectors. -/
structure Disc where
  sector : ℕ → ℕ → UInt8
  sectors : ℕ
  sectors_le : sectors ≤ 450000

/-- A raw sector has a header, and in mode 2 a subheader, in front of the data. -/
inductive RawMode
  | mode1
  | mode2
  deriving DecidableEq

/-- The place of the data in a raw sector. -/
def RawMode.start : RawMode → ℕ
  | mode1 => 16
  | mode2 => 24

namespace Disc

variable (d : Disc)

/-- The data of the sectors, one behind the other. -/
def data (p : ℕ) : UInt8 := d.sector (p / 2048) (p % 2048)

/-- The image with sectors of 2048 bytes. -/
def cooked : Image where
  byte := d.data
  length := 2048 * d.sectors

/-- The image with raw sectors. The bytes around the data are those of `frame`. -/
def raw (mode : RawMode) (frame : ℕ → ℕ → UInt8) : Image where
  byte p :=
    if mode.start ≤ p % 2352 ∧ p % 2352 < mode.start + 2048 then
      d.sector (p / 2352) (p % 2352 - mode.start)
    else frame (p / 2352) (p % 2352)
  length := 2352 * d.sectors

/-- The descriptor of the volume. -/
def pvd : List UInt8 := slice (d.sector 16) 0 2048

end Disc

/-- A record of a directory: it starts with its length, and its name ends in it. -/
structure Record where
  bytes : List UInt8
  length_lt : bytes.length < 256
  head_eq : bytes[0]? = some (UInt8.ofNat bytes.length)
  name_le : 33 + (bytes.getD 32 0).toNat ≤ bytes.length

namespace Record

/-- The name. -/
def name (r : Record) : Text := chars (field r.bytes 33 (r.bytes.getD 32 0).toNat)

/-- The first sector of the file. -/
def lba (r : Record) : ℕ := ofLe (field r.bytes 2 4)

/-- The size of the file. -/
def size (r : Record) : ℕ := ofLe (field r.bytes 10 4)

/-- The bytes of some records. -/
def allBytes (rs : List Record) : List UInt8 := rs.flatMap bytes

@[simp] theorem allBytes_cons (r : Record) (rs : List Record) :
    allBytes (r :: rs) = r.bytes ++ allBytes rs := rfl

theorem allBytes_append (rs ss : List Record) : allBytes (rs ++ ss) = allBytes rs ++ allBytes ss :=
  List.flatMap_append

theorem length_ge (r : Record) : 33 ≤ r.bytes.length :=
  (Nat.le_add_right _ _).trans r.name_le

end Record

/-- A disc with a root directory of whole sectors, which consist of records and are filled up with
zeros. One of the records is the one of `SYSTEM.CNF`. -/
structure GameDisc extends Disc where
  sixteen_lt : 16 < sectors
  isPvd_pvd : isPvd toDisc.pvd = true
  /-- The sectors of the directory. -/
  count : ℕ
  count_pos : 0 < count
  rootLen_eq : rootLen toDisc.pvd = 2048 * count
  root_le : rootLba toDisc.pvd + count ≤ sectors
  records : ℕ → List Record
  layout : ∀ i < count, ∃ pad, slice (sector (rootLba toDisc.pvd + i)) 0 2048 =
    Record.allBytes (records i) ++ List.replicate pad 0
  /-- The sector with the record of `SYSTEM.CNF`. -/
  index : ℕ
  index_lt : index < count
  before : List Record
  cnf : Record
  after : List Record
  records_index : records index = before ++ cnf :: after
  name_cnf : isSystemCnf cnf.name = true
  /-- No other file is called so. -/
  name_sector : ∀ i < count, i ≠ index → ∀ r ∈ records i, isSystemCnf r.name = false
  name_index : ∀ r ∈ before ++ after, isSystemCnf r.name = false
  text : BootText
  file_le : 2048 * cnf.lba + cnf.size ≤ 2048 * sectors
  file_eq : chars (slice toDisc.data (2048 * cnf.lba) cnf.size) = text.text

/-! ### The loop and the records -/

section Walk

variable {alloc : ℕ → Bool} {f : Image} {st : Storage} {maxLen off : ℕ} {dir l : List UInt8}

theorem getElem?_of_prefix (h : l <+: dir.drop off) {i : ℕ} (hi : i < l.length) :
    dir[off + i]? = l[i]? := by
  obtain ⟨t, ht⟩ := h
  rw [← List.getElem?_drop, ← ht, List.getElem?_append_left hi]

theorem field_of_prefix (h : l <+: dir.drop off) {p n : ℕ} (hle : p + n ≤ l.length) :
    field dir (off + p) n = field l p n := by
  obtain ⟨t, ht⟩ := h
  rw [field, ← List.drop_drop, ← ht, List.drop_append_of_le_length (by omega),
    List.take_append_of_le_length (by rw [List.length_drop]; omega), field]

theorem length_le_of_prefix (h : l <+: dir.drop off) (hne : l ≠ []) :
    off + l.length ≤ dir.length := by
  have hle := h.length_le
  have hpos := List.length_pos_iff.mpr hne
  rw [List.length_drop] at hle
  omega

theorem prefix_drop_add {m : List UInt8} (h : l ++ m <+: dir.drop off) :
    m <+: dir.drop (off + l.length) := by
  obtain ⟨t, ht⟩ := h
  rw [← List.drop_drop, ← ht, List.append_assoc, List.drop_left]
  exact List.prefix_append m t

theorem chars_take (l : List UInt8) (n : ℕ) : (chars l).take n = chars (l.take n) :=
  List.map_take.symm

/-- A record leads to an id when it is the one of `SYSTEM.CNF`. -/
theorem recordId_eq {r : Record} (h : r.bytes <+: dir.drop off) :
    recordId alloc f st maxLen dir off =
      some (if isSystemCnf r.name then sysId alloc f st maxLen r.lba r.size else none) := by
  have hge := r.length_ge
  have hle := length_le_of_prefix h (List.length_pos_iff.mp (by omega))
  obtain ⟨b, hb⟩ : ∃ b, r.bytes[32]? = some b := ⟨_, List.getElem?_eq_getElem (by omega)⟩
  have hname := r.name_le
  have hlen : r.bytes.getD 32 0 = b := by rw [List.getD_eq_getElem?_getD, hb, Option.getD_some]
  rw [hlen] at hname
  rw [recordId, getElem?_of_prefix h (by omega), hb, Option.bind_some]
  by_cases hten : 10 ≤ b.toNat
  · rw [if_pos ⟨hten, by omega⟩, readAt_isSome (by omega), Option.bind_some,
      field_of_prefix h (by omega)]
    have hcnf : isSystemCnf (chars (field r.bytes 33 (min b.toNat 31))) = isSystemCnf r.name := by
      rw [Record.name, hlen, isSystemCnf, isSystemCnf, chars_take, chars_take, field, field,
        List.take_take, List.take_take, Nat.min_eq_left (by omega), Nat.min_eq_left hten]
    rw [hcnf]
    split_ifs
    · rw [readAt_isSome (by omega), Option.bind_some, readAt_isSome (by omega), Option.map_some,
        field_of_prefix h (by omega), field_of_prefix h (by omega), Record.lba, Record.size]
    · rfl
  · have hcnf : isSystemCnf r.name = false := by
      rw [isSystemCnf, beq_eq_false_iff_ne]
      intro heq
      have := congrArg List.length heq
      rw [List.length_map, List.length_take, Record.name, chars, List.length_map, hlen,
        length_field (by omega), show "system.cnf".toList.length = 10 from rfl] at this
      omega
    rw [if_neg fun h => hten h.1, hcnf]
    rfl

theorem walk_record {r : Record} (h : r.bytes <+: dir.drop off) :
    walk alloc f st maxLen dir off =
      (if isSystemCnf r.name then sysId alloc f st maxLen r.lba r.size else none).elim
        (walk alloc f st maxLen dir (off + r.bytes.length)) fun id => some (some id) := by
  have hge := r.length_ge
  have hlt := r.length_lt
  have hle := length_le_of_prefix h (List.length_pos_iff.mp (by omega))
  have htoNat : (UInt8.ofNat r.bytes.length).toNat = r.bytes.length := by
    rw [UInt8.toNat_ofNat', Nat.mod_eq_of_lt hlt]
  have hhead : dir[off]? = some (UInt8.ofNat r.bytes.length) := by
    have hget := getElem?_of_prefix h (i := 0) (by omega)
    rwa [Nat.add_zero, r.head_eq] at hget
  have hzero : UInt8.ofNat r.bytes.length ≠ 0 := by
    intro h0
    rw [h0] at htoNat
    have : (0 : UInt8).toNat = 0 := rfl
    omega
  rw [walk_of_record hhead hzero (by rw [htoNat]; exact hle), recordId_eq h, Option.bind_some,
    htoNat]
  generalize (if isSystemCnf r.name then _ else _ : Option Text) = found
  cases found <;> rfl

/-- Records of other files are passed over. -/
theorem walk_records {rs : List Record} (h : Record.allBytes rs <+: dir.drop off)
    (hname : ∀ r ∈ rs, isSystemCnf r.name = false) :
    walk alloc f st maxLen dir off =
      walk alloc f st maxLen dir (off + (Record.allBytes rs).length) := by
  induction rs generalizing off with
  | nil => rfl
  | cons r rs ih =>
    rw [Record.allBytes_cons] at h
    have hr : r.bytes <+: dir.drop off := (List.prefix_append _ _).trans h
    rw [walk_record hr, hname r List.mem_cons_self, if_neg Bool.false_ne_true, Option.elim_none,
      ih (prefix_drop_add h) fun r hr => hname r (List.mem_cons_of_mem _ hr),
      Record.allBytes_cons, List.length_append, Nat.add_assoc]

theorem sectorSize_ge (st : Storage) : 2048 ≤ st.sectorSize := by
  cases st <;> decide

/-- What is left of a sector is passed over when it has zeros at its end, or when the sectors have
nothing between them. -/
theorem walk_sector {rs : List Record} {i q pad : ℕ}
    (h : Record.allBytes rs ++ List.replicate pad 0 <+: dir.drop (st.sectorSize * i + q))
    (hlen : q + (Record.allBytes rs).length + pad = 2048)
    (hname : ∀ r ∈ rs, isSystemCnf r.name = false)
    (hfull : q + (Record.allBytes rs).length < 2048 ∨ st = .cooked) :
    walk alloc f st maxLen dir (st.sectorSize * i + q) =
      walk alloc f st maxLen dir (st.sectorSize * (i + 1)) := by
  have hge := sectorSize_ge st
  rw [walk_records ((List.prefix_append _ _).trans h) hname]
  rcases Nat.eq_zero_or_pos pad with hpad | hpad
  · have hcooked : st = .cooked := hfull.resolve_left (by omega)
    have hsize : st.sectorSize = 2048 := by rw [hcooked]; rfl
    rw [Nat.add_assoc, show q + (Record.allBytes rs).length = 2048 by omega, Nat.mul_succ, hsize]
  · have hzero : dir[st.sectorSize * i + q + (Record.allBytes rs).length]? = some 0 := by
      have hget := getElem?_of_prefix (prefix_drop_add h) (i := 0)
        (by rw [List.length_replicate]; exact hpad)
      rw [Nat.add_zero] at hget
      rw [hget, List.getElem?_replicate, if_pos hpad]
    have hdiv : (st.sectorSize * i + q + (Record.allBytes rs).length) / st.sectorSize = i := by
      rw [Nat.add_assoc, Nat.mul_add_div st.sectorSize_pos, Nat.div_eq_of_lt (by omega),
        Nat.add_zero]
    rw [walk_of_zero hzero, hdiv, Nat.mul_comm]

end Walk

/-! ### Images -/

namespace Image

theorem read_of_le (f : Image) {p n : ℕ} (hp : p < 2 ^ 31) (h : p + n ≤ f.length) :
    f.read p n = some (slice f.byte p n) := by
  have hmod : (p : ℤ).bmod (2 ^ 32) = p := by
    refine Int.bmod_eq_of_le ?_ ?_ <;> omega
  rw [read, hmod, if_pos ⟨Int.natCast_nonneg p, h⟩, Int.toNat_natCast]

end Image

/-- The place of a sector in an image. -/
def Storage.place (st : Storage) (lba : ℕ) : ℕ := st.sectorSize * lba + st.modeOffset

/-- The image `f` has the data of the disc `d` in the form `st`, which is recognised. -/
structure Stores (d : Disc) (st : Storage) (f : Image) : Prop where
  byte_eq : ∀ lba q, q < 2048 → f.byte (st.place lba + q) = d.sector lba q
  length_eq : f.length = st.sectorSize * d.sectors
  findPvd_eq : findPvd f = some (st, d.pvd)

namespace Stores

variable {d : Disc} {st : Storage} {f : Image} {lba n : ℕ}

/-- A part of a sector. -/
theorem slice_eq (h : Stores d st f) (hn : n ≤ 2048) :
    slice f.byte (st.place lba) n = slice (d.sector lba) 0 n := by
  refine slice_congr fun i hi => ?_
  rw [h.byte_eq lba i (by omega), Nat.zero_add]

/-- What is on the disc can be read from the first sector on. -/
theorem read_eq (h : Stores d st f) (hn : 0 < n) (hle : 2048 * lba + n ≤ 2048 * d.sectors) :
    f.read (st.offset lba) n = some (slice f.byte (st.place lba) n) := by
  have hsectors := d.sectors_le
  have hplace : st.place lba < 2 ^ 31 ∧ st.place lba + n ≤ f.length := by
    rw [h.length_eq]
    cases st
    · simp only [Storage.place, Storage.sectorSize, Storage.modeOffset]
      omega
    · simp only [Storage.place, Storage.sectorSize, Storage.modeOffset]
      omega
  have hoffset : st.offset lba = (st.place lba : ℤ) := by
    rw [Storage.offset, Storage.place, Int.natCast_add, Int.natCast_mul, Int.mul_comm]
  rw [hoffset, f.read_of_le hplace.1 hplace.2]

/-- What the array with the directory has of a sector. -/
theorem prefix_drop (h : Stores d st f) {i len : ℕ} (hn : n ≤ 2048)
    (hle : st.sectorSize * i + n ≤ len) :
    slice (d.sector (lba + i)) 0 n <+:
      (slice f.byte (st.place lba) len).drop (st.sectorSize * i) := by
  have hplace : st.place lba + st.sectorSize * i = st.place (lba + i) := by
    rw [Storage.place, Storage.place, Nat.mul_add]
    omega
  rw [drop_slice _ _ (by omega), hplace, slice_split f.byte _ (show n ≤ len - _ by omega),
    h.slice_eq hn]
  exact List.prefix_append _ _

end Stores

theorem findPvd_of_cooked {f : Image} {pvd : List UInt8}
    (h : f.read Storage.cooked.pvdOffset 2048 = some pvd) (hpvd : isPvd pvd = true) :
    findPvd f = some (.cooked, pvd) := by
  unfold findPvd
  generalize f.read Storage.cooked.pvdOffset 2048 = found at h ⊢
  subst h
  rw [Option.filter_some_pos hpvd]

theorem findPvd_of_raw {f : Image} {other pvd : List UInt8}
    (hother : f.read Storage.cooked.pvdOffset 2048 = some other) (hno : isPvd other = false)
    (h : f.read Storage.raw.pvdOffset 2048 = some pvd) (hpvd : isPvd pvd = true) :
    findPvd f = some (.raw, pvd) := by
  unfold findPvd
  generalize f.read Storage.cooked.pvdOffset 2048 = found at hother ⊢
  generalize f.read Storage.raw.pvdOffset 2048 = found' at h ⊢
  subst hother h
  rw [Option.filter_some_neg hno, Option.filter_some_pos hpvd]
  rfl

theorem Disc.data_eq (d : Disc) (lba : ℕ) {q : ℕ} (hq : q < 2048) :
    d.data (2048 * lba + q) = d.sector lba q := by
  rw [Disc.data, Nat.mul_add_div (by decide), Nat.div_eq_of_lt hq, Nat.mul_add_mod,
    Nat.mod_eq_of_lt hq, Nat.add_zero]

namespace GameDisc

variable (d : GameDisc)

theorem stores_cooked : Stores d.toDisc .cooked d.cooked where
  byte_eq lba q hq := d.data_eq lba hq
  length_eq := rfl
  findPvd_eq := by
    have hlt := d.sixteen_lt
    have hslice : slice d.cooked.byte 32768 2048 = d.pvd :=
      slice_congr fun i hi => by rw [Nat.zero_add]; exact d.data_eq 16 hi
    refine findPvd_of_cooked ?_ d.isPvd_pvd
    rw [← hslice]
    refine d.cooked.read_of_le (by decide) ?_
    change 32768 + 2048 ≤ 2048 * d.sectors
    omega

variable {mode : RawMode} {frame : ℕ → ℕ → UInt8}

theorem raw_byte_eq (lba : ℕ) {q : ℕ} (hq : q < 2048) :
    (d.raw .mode1 frame).byte (2352 * lba + 16 + q) = d.sector lba q := by
  have hdiv : (2352 * lba + 16 + q) / 2352 = lba := by omega
  have hmod : (2352 * lba + 16 + q) % 2352 = 16 + q := by omega
  have hin : RawMode.mode1.start ≤ 16 + q ∧ 16 + q < RawMode.mode1.start + 2048 := by
    rw [RawMode.start]
    omega
  rw [Disc.raw]
  simp only [hdiv, hmod, if_pos hin]
  rw [RawMode.start, Nat.add_sub_cancel_left]

/-- A raw image is recognised when its data starts behind a header of 16 bytes, and what stands at
the place of the descriptor in the other form is none. -/
theorem stores_raw (hno : isPvd (slice (d.raw .mode1 frame).byte 32768 2048) = false) :
    Stores d.toDisc .raw (d.raw .mode1 frame) where
  byte_eq lba q hq := d.raw_byte_eq lba hq
  length_eq := rfl
  findPvd_eq := by
    have hlt := d.sixteen_lt
    have hlen : (d.raw .mode1 frame).length = 2352 * d.sectors := rfl
    have hslice : slice (d.raw .mode1 frame).byte 37648 2048 = d.pvd :=
      slice_congr fun i hi => by rw [Nat.zero_add]; exact d.raw_byte_eq 16 hi
    refine findPvd_of_raw ((d.raw .mode1 frame).read_of_le (by decide) ?_) hno ?_ d.isPvd_pvd
    · rw [hlen, Storage.pvdOffset]
      omega
    · rw [← hslice]
      refine (d.raw .mode1 frame).read_of_le (by decide) ?_
      rw [hlen, Storage.pvdOffset]
      omega

end GameDisc

/-! ### The directory of a disc -/

namespace GameDisc

variable (d : GameDisc) {alloc : ℕ → Bool} {st : Storage} {f : Image} {maxLen : ℕ}

/-- The array with the directory. -/
def dirBuf (st : Storage) (f : Image) : List UInt8 :=
  slice f.byte (st.place (rootLba d.pvd)) (rootLen d.pvd)

theorem length_dirBuf : (d.dirBuf st f).length = 2048 * d.count := by
  rw [dirBuf, length_slice, d.rootLen_eq]

theorem rootDir_eq (alloc : ℕ → Bool) (h : Stores d.toDisc st f) : rootDir alloc f st d.pvd =
    if rootLen d.pvd ≤ 32768 ∧ alloc (rootLen d.pvd) = true then some (d.dirBuf st f)
    else none := by
  have hpos : 0 < rootLen d.pvd := by
    have := d.count_pos
    rw [d.rootLen_eq]
    omega
  have hle : 2048 * rootLba d.pvd + rootLen d.pvd ≤ 2048 * d.sectors := by
    have := d.root_le
    rw [d.rootLen_eq]
    omega
  rw [rootDir, h.read_eq hpos hle]
  simp only [hpos, true_and, dirBuf]

/-- The bytes of a sector of the directory. -/
theorem layout_prefix (h : Stores d.toDisc st f) {i : ℕ} {l : List UInt8}
    (hl : l <+: slice (d.sector (rootLba d.pvd + i)) 0 2048)
    (hle : st.sectorSize * i + l.length ≤ rootLen d.pvd) :
    l <+: (d.dirBuf st f).drop (st.sectorSize * i) := by
  have hlen : l.length ≤ 2048 := by
    have := hl.length_le
    rwa [length_slice] at this
  have heq : l = slice (d.sector (rootLba d.pvd + i)) 0 l.length := by
    rw [← take_slice _ _ hlen]
    exact List.prefix_iff_eq_take.mp hl
  rw [heq]
  exact h.prefix_drop hlen hle

/-- **Sectors without `SYSTEM.CNF` are passed over.** -/
theorem walk_sectors (alloc : ℕ → Bool) (maxLen : ℕ) (h : Stores d.toDisc st f) {i : ℕ} (k : ℕ)
    (hk : i + k ≤ d.count)
    (hname : ∀ j, i ≤ j → j < i + k → ∀ r ∈ d.records j, isSystemCnf r.name = false)
    (hfull : ∀ j, i ≤ j → j < i + k →
      (Record.allBytes (d.records j)).length < 2048 ∨ st = .cooked)
    (hfit : st.sectorSize * (i + k) ≤ rootLen d.pvd) :
    walk alloc f st maxLen (d.dirBuf st f) (st.sectorSize * i) =
      walk alloc f st maxLen (d.dirBuf st f) (st.sectorSize * (i + k)) := by
  induction k with
  | zero => rfl
  | succ k ih =>
    have hle : st.sectorSize * (i + k) + st.sectorSize ≤ rootLen d.pvd := by
      rwa [← Nat.mul_succ]
    rw [ih (by omega) (fun j hij hj => hname j hij (by omega))
      (fun j hij hj => hfull j hij (by omega)) (by omega)]
    obtain ⟨pad, hlay⟩ := d.layout (i + k) (by omega)
    have hlen := congrArg List.length hlay
    rw [length_slice, List.length_append, List.length_replicate] at hlen
    have hge := sectorSize_ge st
    have hlenpad : 0 + (Record.allBytes (d.records (i + k))).length + pad = 2048 := by omega
    refine walk_sector ?_ hlenpad (hname (i + k) (by omega) (by omega)) ?_
    · refine d.layout_prefix h ?_ ?_
      · exact ⟨[], by rw [List.append_nil, hlay]⟩
      · rw [← hlay, length_slice]
        omega
    · rw [Nat.zero_add]
      exact hfull (i + k) (by omega) (by omega)

/-- What the record of `SYSTEM.CNF` leads to. -/
def fileId (alloc : ℕ → Bool) (f : Image) (st : Storage) (maxLen : ℕ) : Option Text :=
  sysId alloc f st maxLen d.cnf.lba d.cnf.size

/-- The records in front of `SYSTEM.CNF` and its own. -/
def upTo : List UInt8 := Record.allBytes d.before ++ d.cnf.bytes

theorem allBytes_index :
    Record.allBytes (d.records d.index) = d.upTo ++ Record.allBytes d.after := by
  rw [d.records_index, Record.allBytes_append, Record.allBytes_cons, upTo, List.append_assoc]

theorem upTo_prefix : d.upTo <+: slice (d.sector (rootLba d.pvd + d.index)) 0 2048 := by
  obtain ⟨pad, hlay⟩ := d.layout d.index d.index_lt
  rw [hlay, d.allBytes_index, List.append_assoc]
  exact List.prefix_append _ _

/-- The record of `SYSTEM.CNF` is reached. -/
theorem walk_index (h : Stores d.toDisc st f)
    (hfit : st.sectorSize * d.index + d.upTo.length ≤ rootLen d.pvd) :
    walk alloc f st maxLen (d.dirBuf st f) (st.sectorSize * d.index) =
      (d.fileId alloc f st maxLen).elim
        (walk alloc f st maxLen (d.dirBuf st f) (st.sectorSize * d.index + d.upTo.length))
        fun id => some (some id) := by
  have hpre := d.layout_prefix h d.upTo_prefix hfit
  have hbefore : ∀ r ∈ d.before, isSystemCnf r.name = false := fun r hr =>
    d.name_index r (List.mem_append_left _ hr)
  rw [walk_records ((List.prefix_append _ _).trans hpre) hbefore,
    walk_record (prefix_drop_add hpre), d.name_cnf, if_pos rfl, fileId, upTo, List.length_append,
    Nat.add_assoc]

end GameDisc

end Retrogem

end OpenPS2Loader
