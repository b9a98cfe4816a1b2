import OpenPS2Loader.Retrogem.Disc

/-!
# The two forms of a PS1 disc

The id in the `SYSTEM.CNF` of a disc is compared with the one that is found in its images. The file
is read in one piece as well, so that the end of a file with more than one sector is not what it is
on the disc when the image is a raw one.

## Main definitions

* `Retrogem.GameDisc.CookedOk`, `GameDisc.RawOk` — when the id is found
* `Retrogem.GameDisc.Identified` — it is found in both images

## Main results

* `Retrogem.GameDisc.parse_cooked_iff`, `GameDisc.parse_raw`
* `Retrogem.readsInside_iff_and_identified`
-/

namespace OpenPS2Loader

namespace Retrogem

open Bytes

/-! ### The file -/

namespace GameDisc

variable (d : GameDisc) {alloc : ℕ → Bool} {st : Storage} {f : Image} {maxLen : ℕ}

/-- The directory and `SYSTEM.CNF` are small enough to be read, and there is memory for them. -/
def Readable (alloc : ℕ → Bool) : Prop :=
  (rootLen d.pvd ≤ 32768 ∧ alloc (rootLen d.pvd) = true) ∧
    d.cnf.size < 4096 ∧ alloc (d.cnf.size + 1) = true

instance (alloc : ℕ → Bool) : Decidable (d.Readable alloc) := inferInstanceAs (Decidable (_ ∧ _))

theorem length_text : d.text.text.length = d.cnf.size := by
  rw [← d.file_eq, chars, List.length_map, length_slice]

theorem size_pos : 0 < d.cnf.size := by
  rw [← d.length_text]
  refine List.length_pos_iff.mpr fun h => ?_
  rw [BootText.text, BootText.front, BootText.key] at h
  simp at h

theorem fileId_eq (h : Stores d.toDisc st f) : d.fileId alloc f st maxLen =
    if d.cnf.size < 4096 ∧ alloc (d.cnf.size + 1) = true then
      bootId (cstr (chars (slice f.byte (st.place d.cnf.lba) d.cnf.size))) maxLen
    else none := by
  rw [fileId, sysId, h.read_eq d.size_pos d.file_le]
  simp only [d.size_pos, true_and, Option.bind_some]

/-- In sectors of 2048 bytes the file is as it is on the disc. -/
theorem fileId_cooked : d.fileId alloc d.cooked .cooked maxLen =
    if d.cnf.size < 4096 ∧ alloc (d.cnf.size + 1) = true then
      bootId (cstr d.text.text) maxLen
    else none := by
  rw [d.fileId_eq d.stores_cooked, ← d.file_eq]
  rfl

/-- The start of the file is as it is on the disc. -/
theorem take_file (h : Stores d.toDisc st f) {n : ℕ} (hn : n ≤ 2048) (hle : n ≤ d.cnf.size) :
    (chars (slice f.byte (st.place d.cnf.lba) d.cnf.size)).take n = d.text.text.take n := by
  rw [← d.file_eq, chars_take, chars_take, take_slice _ _ hle, take_slice _ _ hle,
    h.slice_eq hn]
  congr 1
  refine slice_congr fun i hi => ?_
  rw [d.data_eq d.cnf.lba (by omega), Nat.zero_add]

/-- **The value is read** when it ends in the first sector of the file. -/
theorem fileId_of_front (h : Stores d.toDisc st f)
    (hread : d.cnf.size < 4096 ∧ alloc (d.cnf.size + 1) = true) (hmax : 12 ≤ maxLen)
    (hplain : d.text.Plain) (hfront : d.cnf.size ≤ 2048 ∨ d.text.front.length < 2048) :
    d.fileId alloc f st maxLen = some d.text.name.id := by
  have hsize : d.text.front.length + d.text.rest.length = d.cnf.size := by
    rw [← d.length_text, BootText.text, List.length_append]
  rw [d.fileId_eq h, if_pos hread]
  generalize htext : chars (slice f.byte (st.place d.cnf.lba) d.cnf.size) = text
  have hlen : text.length = d.cnf.size := by
    rw [← htext, chars, List.length_map, length_slice]
  have htake : ∀ n ≤ 2048, n ≤ d.cnf.size → text.take n = d.text.text.take n := by
    intro n hn hle
    rw [← htext]
    exact d.take_file h hn hle
  have hpre : text.take d.text.front.length = d.text.front := by
    rw [htake _ (by omega) (by omega), BootText.text, List.take_left]
  -- what follows the value starts alike
  have hrest : ∀ c ∈ (text.drop d.text.front.length).head?, endsTitle c = true := by
    intro c hc
    refine d.text.rest_head c ?_
    rw [List.head?_drop] at hc
    have hlt := (List.getElem?_eq_some_iff.mp hc).1
    have hnext := htake (d.text.front.length + 1) (by omega) (by omega)
    have hget := congrArg (fun l : Text => l[d.text.front.length]?) hnext
    simp only [List.getElem?_take_of_lt (Nat.lt_succ_self _)] at hget
    rw [hc, BootText.text, List.getElem?_append_right le_rfl, Nat.sub_self] at hget
    rw [List.head?_eq_getElem?]
    exact hget.symm
  have heq : text =
      ({ d.text with rest := text.drop d.text.front.length, rest_head := hrest } :
        BootText).text := by
    rw [BootText.text]
    change text = d.text.front ++ text.drop d.text.front.length
    conv_lhs => rw [← List.take_append_drop d.text.front.length text, hpre]
  rw [heq]
  exact BootText.bootId_of_plain _ hmax hplain

end GameDisc

/-! ### Both images -/

namespace GameDisc

variable (d : GameDisc) {alloc : ℕ → Bool} {st : Storage} {f : Image} {maxLen : ℕ}

/-- The id that `SYSTEM.CNF` names. -/
def id : Text := d.text.name.id

/-- When the id is found in the image with sectors of 2048 bytes: the value is plain; or nothing is
read, and the id is the one of the time of the volume. -/
def CookedOk (alloc : ℕ → Bool) (maxLen : ℕ) : Prop :=
  12 ≤ maxLen ∧
    (d.Readable alloc ∧ d.text.Plain ∨
      (¬ d.Readable alloc ∨ '\t' ∈ d.text.blanks) ∧
        (chars (field d.pvd 813 16), d.id) ∈ ps1GenericGameIds)

/-- When the loop finds the id in a raw image: the value is plain, and ends in the first sector of
the file; the sectors in front of the one with `SYSTEM.CNF` have a zero at their end; and the record
is within the first `rootLen` raw bytes. -/
structure RawFound (alloc : ℕ → Bool) : Prop where
  readable : d.Readable alloc
  plain : d.text.Plain
  front_lt : d.cnf.size ≤ 2048 ∨ d.text.front.length < 2048
  zero_end : ∀ i < d.index, (Record.allBytes (d.records i)).length < 2048
  upTo_le : 2352 * d.index + d.upTo.length ≤ rootLen d.pvd

/-- A condition under which the id is found in a raw image: the data stands behind a header of 16
bytes, and no descriptor where the other form has it; the loop finds the id, or the directory is not
read, and the id is the one of the time of the volume. -/
structure RawOk (alloc : ℕ → Bool) (maxLen : ℕ) (mode : RawMode) (frame : ℕ → ℕ → UInt8) :
    Prop where
  maxLen_ge : 12 ≤ maxLen
  mode_eq : mode = .mode1
  isPvd_eq : isPvd (slice (d.raw mode frame).byte 32768 2048) = false
  found : d.RawFound alloc ∨
    ¬(rootLen d.pvd ≤ 32768 ∧ alloc (rootLen d.pvd) = true) ∧
      (chars (field d.pvd 813 16), d.id) ∈ ps1GenericGameIds

/-- The loop reaches the record when the sectors in front of it are passed over. -/
theorem walk_start (h : Stores d.toDisc st f)
    (hfull : ∀ j < d.index, (Record.allBytes (d.records j)).length < 2048 ∨ st = .cooked)
    (hfit : st.sectorSize * d.index + d.upTo.length ≤ rootLen d.pvd) :
    walk alloc f st maxLen (d.dirBuf st f) 0 =
      (d.fileId alloc f st maxLen).elim
        (walk alloc f st maxLen (d.dirBuf st f) (st.sectorSize * d.index + d.upTo.length))
        fun id => some (some id) := by
  have hlt := d.index_lt
  have hname : ∀ j, 0 ≤ j → j < 0 + d.index → ∀ r ∈ d.records j, isSystemCnf r.name = false :=
    fun j _ hj => d.name_sector j (by omega) (by omega)
  have hwalk := d.walk_sectors alloc maxLen h (i := 0) d.index
    (by omega) hname (fun j _ hj => hfull j (by omega)) (by rw [Nat.zero_add]; omega)
  rw [Nat.mul_zero, Nat.zero_add] at hwalk
  rw [hwalk, d.walk_index h hfit]

theorem length_upTo_le : d.upTo.length ≤ 2048 := by
  have := d.upTo_prefix.length_le
  rwa [length_slice] at this

/-- In sectors of 2048 bytes the loop goes on to the end of the directory. -/
theorem walk_rest (h : Stores d.toDisc .cooked f) :
    walk alloc f .cooked maxLen (d.dirBuf .cooked f)
      (Storage.cooked.sectorSize * d.index + d.upTo.length) = some none := by
  have hsize : Storage.cooked.sectorSize = 2048 := rfl
  have hlt := d.index_lt
  obtain ⟨pad, hlay⟩ := d.layout d.index d.index_lt
  rw [d.allBytes_index, List.append_assoc] at hlay
  have hlen := congrArg List.length hlay
  rw [length_slice, List.length_append, List.length_append, List.length_replicate] at hlen
  have hpre := d.layout_prefix h (i := d.index)
    (l := d.upTo ++ (Record.allBytes d.after ++ List.replicate pad 0))
    ⟨[], by rw [List.append_nil, hlay]⟩
    (by rw [← hlay, length_slice, hsize, d.rootLen_eq]; omega)
  have hafter : ∀ r ∈ d.after, isSystemCnf r.name = false := fun r hr =>
    d.name_index r (List.mem_append_right _ hr)
  rw [walk_sector (prefix_drop_add hpre) (by omega) hafter (Or.inr rfl)]
  have hrest := d.walk_sectors alloc maxLen h (i := d.index + 1)
    (d.count - (d.index + 1)) (by omega) (fun j hj hj' => d.name_sector j (by omega) (by omega))
    (fun j _ _ => Or.inr rfl) (by rw [hsize, d.rootLen_eq]; omega)
  rw [hrest]
  refine walk_of_le ?_
  rw [d.length_dirBuf, hsize]
  omega

/-- What is read in the image with sectors of 2048 bytes. -/
theorem parse_cooked : retrogemParseIsoSector16 alloc d.cooked maxLen =
    some ((if d.Readable alloc then bootId (cstr d.text.text) maxLen else none).or
      (timestampId d.pvd maxLen)) := by
  have hstores := d.stores_cooked
  by_cases hroot : rootLen d.pvd ≤ 32768 ∧ alloc (rootLen d.pvd) = true
  · have hdir := d.rootDir_eq alloc hstores
    rw [if_pos hroot] at hdir
    have hfile : d.fileId alloc d.cooked .cooked maxLen =
        if d.Readable alloc then bootId (cstr d.text.text) maxLen else none := by
      rw [d.fileId_cooked]
      simp only [Readable, hroot, true_and]
    have hfit : Storage.cooked.sectorSize * d.index + d.upTo.length ≤ rootLen d.pvd := by
      have hle := d.length_upTo_le
      have hlt := d.index_lt
      rw [d.rootLen_eq, Storage.sectorSize]
      omega
    rw [parse_of_dir hstores.findPvd_eq hdir,
      d.walk_start hstores (fun j _ => Or.inr rfl) hfit, d.walk_rest hstores, hfile]
    generalize (if d.Readable alloc then _ else _ : Option Text) = found
    cases found <;> rfl
  · have hdir := d.rootDir_eq alloc hstores
    rw [if_neg hroot] at hdir
    rw [parse_of_unread hstores.findPvd_eq hdir, if_neg fun h => hroot h.1, Option.none_or]

end GameDisc

/-! ### When the id is found -/

section Iff

variable {alloc : ℕ → Bool} {maxLen : ℕ}

/-- The table has one id for each time, and no id in it is cut. -/
theorem timestampId_eq_some_iff (pvd : List UInt8) (maxLen : ℕ) {id : Text}
    (hlen : id.length = 11) : timestampId pvd maxLen = some id ↔
    12 ≤ maxLen ∧ (chars (field pvd 813 16), id) ∈ ps1GenericGameIds := by
  rw [timestampId, ps1GenericGameIds, List.mem_singleton, Prod.mk.injEq, List.find?_cons]
  by_cases htime : "1995121500000000".toList = chars (field pvd 813 16)
  · rw [beq_iff_eq.mpr htime, Option.map_some, Option.some.injEq]
    constructor
    · rintro rfl
      rw [List.length_take] at hlen
      have hmax : 12 ≤ maxLen := by omega
      refine ⟨hmax, htime.symm, List.take_of_length_le ?_⟩
      change 11 ≤ maxLen - 1
      omega
    · rintro ⟨hmax, -, rfl⟩
      refine List.take_of_length_le ?_
      change 11 ≤ maxLen - 1
      omega
  · rw [beq_eq_false_iff_ne.mpr htime]
    constructor
    · intro h
      cases h
    · rintro ⟨-, h, -⟩
      exact absurd h.symm htime

namespace GameDisc

variable (d : GameDisc)

/-- **The id is found in an image with sectors of 2048 bytes** when the value is plain, apart from
an id that is known from the time as well. -/
theorem parse_cooked_iff :
    retrogemParseIsoSector16 alloc d.cooked maxLen = some (some d.id) ↔
      d.CookedOk alloc maxLen := by
  have htime := timestampId_eq_some_iff d.pvd maxLen d.text.name.length_id
  rw [d.parse_cooked, CookedOk, Option.some.injEq]
  by_cases hmax : 12 ≤ maxLen
  · simp only [hmax, true_and] at htime ⊢
    by_cases hread : d.Readable alloc
    · rw [if_pos hread]
      simp only [hread, true_and, not_true, false_or]
      by_cases hplain : d.text.Plain
      · rw [d.text.bootId_of_plain hmax hplain, Option.some_or]
        exact iff_of_true rfl (Or.inl hplain)
      by_cases htab : '\t' ∈ d.text.blanks
      · rw [d.text.bootId_of_tab htab, Option.none_or, or_iff_right hplain, and_iff_right htab]
        exact htime
      · have hdevice : d.text.device ≠ .none := fun h => hplain (Or.inr ⟨h, htab⟩)
        have hvalue : d.text.blanks ≠ [] ∨ d.text.slashes = [] := by
          rw [or_iff_not_imp_left, not_not]
          exact fun hnil => not_not.mp fun h => hplain (Or.inl ⟨hnil, h⟩)
        obtain ⟨x, hx, hne⟩ := d.text.bootId_of_device hmax hdevice htab hvalue
        rw [hx, Option.some_or, Option.some.injEq]
        refine iff_of_false hne ?_
        rintro (h | ⟨h, -⟩)
        · exact hplain h
        · exact htab h
    · rw [if_neg hread, Option.none_or]
      simp only [hread, false_and, false_or, not_false_eq_true, true_or, true_and]
      exact htime
  · have hnone : bootId (cstr d.text.text) maxLen = none := by
      rw [d.text.bootId_eq, retrogemCleanTitleID, if_pos (Nat.not_le.mp hmax)]
    rw [hnone, ite_self, Option.none_or]
    exact iff_of_false (fun h => hmax (htime.mp h).1) fun h => hmax h.1

/-- **The id is found in a raw image.** -/
theorem parse_raw {mode : RawMode} {frame : ℕ → ℕ → UInt8} (h : d.RawOk alloc maxLen mode frame) :
    retrogemParseIsoSector16 alloc (d.raw mode frame) maxLen = some (some d.id) := by
  obtain ⟨hmax, rfl, hno, hfound⟩ := h
  have hstores := d.stores_raw hno
  have hdir := d.rootDir_eq alloc hstores
  obtain ⟨⟨hroot, hread⟩, hplain, hfront, hzero, hfit⟩ | ⟨hroot, htime⟩ := hfound
  · rw [if_pos hroot] at hdir
    rw [parse_of_dir hstores.findPvd_eq hdir,
      d.walk_start hstores (fun j hj => Or.inl (hzero j hj)) hfit,
      d.fileId_of_front hstores hread hmax hplain hfront]
    rfl
  · rw [if_neg hroot] at hdir
    rw [parse_of_unread hstores.findPvd_eq hdir,
      (timestampId_eq_some_iff d.pvd maxLen d.text.name.length_id).mpr ⟨hmax, htime⟩]
    rfl

/-- Both images of the disc lead to the id that `SYSTEM.CNF` names. -/
def Identified (alloc : ℕ → Bool) (maxLen : ℕ) (mode : RawMode) (frame : ℕ → ℕ → UInt8) : Prop :=
  retrogemParseIsoSector16 alloc d.cooked maxLen = some (some d.id) ∧
    retrogemParseIsoSector16 alloc (d.raw mode frame) maxLen = some (some d.id)

theorem cookedOk_of_rawOk {mode : RawMode} {frame : ℕ → ℕ → UInt8}
    (h : d.RawOk alloc maxLen mode frame) : d.CookedOk alloc maxLen := by
  refine ⟨h.maxLen_ge, ?_⟩
  obtain hfound | ⟨hroot, htime⟩ := h.found
  · exact Or.inl ⟨hfound.readable, hfound.plain⟩
  · exact Or.inr ⟨Or.inl fun hread => hroot hread.1, htime⟩

end GameDisc

end Iff

/-- **The loop stays in its array if and only if it meets no record that starts too near to the end
of it.** The id is found in an image with sectors of 2048 bytes if and only if the value is plain
and everything is read, or the time is known; and in both images when what the raw one has
in between is not met. -/
theorem readsInside_iff_and_identified (alloc : ℕ → Bool) (maxLen : ℕ) (f : Image) (d : GameDisc)
    (mode : RawMode) (frame : ℕ → ℕ → UInt8) :
    (ReadsInside alloc f maxLen ↔ NoneShort alloc f maxLen) ∧
      (retrogemParseIsoSector16 alloc d.cooked maxLen = some (some d.id) ↔
        d.CookedOk alloc maxLen) ∧
      (d.RawOk alloc maxLen mode frame → d.Identified alloc maxLen mode frame) :=
  ⟨readsInside_iff, d.parse_cooked_iff, fun h =>
    ⟨d.parse_cooked_iff.mpr (d.cookedOk_of_rawOk h), d.parse_raw h⟩⟩

/-! ### A disc -/

section Sample

/-- The bytes of a sector that start with `l`. -/
def padded (l : List UInt8) (p : ℕ) : UInt8 := l.getD p 0

theorem slice_padded {l : List UInt8} {n : ℕ} (h : l.length ≤ n) :
    slice (padded l) 0 n = l ++ List.replicate (n - l.length) 0 := by
  refine slice_eq_of_getElem? ?_ fun i hi => ?_
  · rw [List.length_append, List.length_replicate]
    omega
  · rw [Nat.zero_add, padded, List.getD_eq_getElem?_getD]
    rcases Nat.lt_or_ge i l.length with hin | hout
    · rw [List.getElem?_append_left hin, List.getElem?_eq_getElem hin, Option.getD_some]
    · rw [List.getElem?_append_right hout, List.getElem?_replicate, if_pos (by omega),
        List.getElem?_eq_none hout, Option.getD_none]

/-- Characters as bytes. -/
def ascii (t : Text) : List UInt8 := t.map fun c => UInt8.ofNat c.toNat

theorem length_ascii (t : Text) : (ascii t).length = t.length := List.length_map _

/-- A descriptor with the place and the size of the root directory. -/
def pvdOf (lba len : ℕ) : List UInt8 :=
  [1] ++ ascii "CD001".toList ++ List.replicate 152 0 ++ toLe 4 lba ++ List.replicate 4 0 ++
    toLe 4 len

/-- A record of `SYSTEM.CNF`. -/
def cnfRecord (lba size : ℕ) : List UInt8 :=
  [44, 0] ++ toLe 4 lba ++ List.replicate 4 0 ++ toLe 4 size ++ List.replicate 18 0 ++ [10] ++
    ascii "SYSTEM.CNF".toList ++ [0]

theorem length_pvdOf (lba len : ℕ) : (pvdOf lba len).length = 170 := by
  simp [pvdOf, ascii]

theorem length_cnfRecord (lba size : ℕ) : (cnfRecord lba size).length = 44 := rfl

/-- A value `cdrom:\SLUS_000.02;1`, with the blanks in front of it. -/
def sampleText (blanks : Text) (h : ∀ c ∈ blanks, c = ' ' ∨ c = '\t') : BootText where
  before := []
  gap := [' ']
  blanks := blanks
  device := .cdrom
  slashes := ['\\']
  name :=
    { region := "SLUS".toList
      number := "00002".toList
      dashed := false
      length_region := by decide
      length_number := by decide
      alphanum := by decide
      digit := by decide }
  rest := ";1\r\n".toList
  before_end := Or.inl rfl
  before_find := by decide
  nul_not_mem_before := by decide
  gap_blank := by decide
  blanks_blank := h
  slashes_eq := by decide
  rest_head := by decide

/-- The sectors of a disc whose root directory and `SYSTEM.CNF` have a sector each. -/
def sampleSector (t : List UInt8) (lba : ℕ) : ℕ → UInt8 :=
  if lba = 16 then padded (pvdOf 18 2048)
  else if lba = 18 then padded (cnfRecord 19 t.length)
  else padded t

/-- The disc. -/
def sample (t : List UInt8) : Disc where
  sector := sampleSector t
  sectors := 20
  sectors_le := by decide

theorem pvd_sample (t : List UInt8) :
    (sample t).pvd = pvdOf 18 2048 ++ List.replicate 1878 0 := by
  have hle : (pvdOf 18 2048).length ≤ 2048 := by
    rw [length_pvdOf]
    decide
  have hslice := slice_padded hle
  rwa [length_pvdOf] at hslice

theorem rootLba_sample (t : List UInt8) : rootLba (sample t).pvd = 18 := by
  rw [pvd_sample]
  rfl

theorem rootLen_sample (t : List UInt8) : rootLen (sample t).pvd = 2048 * 1 := by
  rw [pvd_sample]
  rfl

/-- The record of a file with less than 256 bytes. -/
def sampleRecord (n : ℕ) : Record where
  bytes := cnfRecord 19 n
  length_lt := by
    rw [length_cnfRecord]
    decide
  head_eq := rfl
  name_le := by
    rw [length_cnfRecord]
    change 33 + 10 ≤ 44
    decide

theorem size_sampleRecord {n : ℕ} (h : n < 256) : (sampleRecord n).size = n := by
  have hfield : field (cnfRecord 19 n) 10 4 = toLe 4 n := rfl
  rw [Record.size, sampleRecord, hfield, ofLe_toLe (by omega)]

/-- The disc with the text of its `SYSTEM.CNF`. -/
def sampleDisc (b : BootText) (hlen : b.text.length < 256)
    (hchars : chars (ascii b.text) = b.text) : GameDisc where
  toDisc := sample (ascii b.text)
  sixteen_lt := by
    change 16 < 20
    decide
  isPvd_pvd := by
    rw [pvd_sample]
    rfl
  count := 1
  count_pos := by decide
  rootLen_eq := rootLen_sample _
  root_le := by
    rw [rootLba_sample]
    change 18 + 1 ≤ 20
    decide
  records _ := [sampleRecord (ascii b.text).length]
  layout i hi := by
    obtain rfl : i = 0 := by omega
    refine ⟨2004, ?_⟩
    rw [rootLba_sample]
    have hle : (cnfRecord 19 (ascii b.text).length).length ≤ 2048 := by
      rw [length_cnfRecord]
      decide
    have hslice := slice_padded hle
    rw [length_cnfRecord] at hslice
    exact hslice
  index := 0
  index_lt := by decide
  before := []
  cnf := sampleRecord (ascii b.text).length
  after := []
  records_index := rfl
  name_cnf := by
    change isSystemCnf (chars (ascii "SYSTEM.CNF".toList)) = true
    decide
  name_sector i hi hne := absurd (by omega) hne
  name_index r hr := absurd hr List.not_mem_nil
  text := b
  file_le := by
    have hlba : (sampleRecord (ascii b.text).length).lba = 19 := rfl
    rw [hlba, size_sampleRecord (by rwa [length_ascii]), length_ascii]
    change 2048 * 19 + b.text.length ≤ 2048 * 20
    omega
  file_eq := by
    have hlba : (sampleRecord (ascii b.text).length).lba = 19 := rfl
    rw [hlba, size_sampleRecord (by rwa [length_ascii])]
    have hslice : slice (sample (ascii b.text)).data (2048 * 19) (ascii b.text).length =
        ascii b.text := by
      have hpad := slice_padded (le_refl (ascii b.text).length)
      rw [Nat.sub_self, List.replicate_zero, List.append_nil] at hpad
      refine Eq.trans (slice_congr fun i hi => ?_) hpad
      have hi' : i < 2048 := by
        rw [length_ascii] at hi
        omega
      rw [(sample (ascii b.text)).data_eq 19 hi', Nat.zero_add]
      rfl
    rw [hslice, hchars]

/-- A file with a directory of one byte, which is the length of a record. -/
def shortImage : Image where
  byte p := if p = 0 then 1 else padded (pvdOf 0 1) (p - 32768)
  length := 34816

theorem not_noneShort : ¬ NoneShort (fun _ => true) shortImage 12 := by
  have hslice : slice shortImage.byte 32768 2048 = pvdOf 0 1 ++ List.replicate 1878 0 := by
    have hle : (pvdOf 0 1).length ≤ 2048 := by
      rw [length_pvdOf]
      decide
    have hpad := slice_padded hle
    rw [length_pvdOf] at hpad
    refine Eq.trans (slice_congr fun i _ => ?_) hpad
    have hne : 32768 + i ≠ 0 := by omega
    rw [Nat.zero_add, shortImage]
    simp only [if_neg hne, Nat.add_sub_cancel_left]
  have hread : shortImage.read Storage.cooked.pvdOffset 2048 =
      some (pvdOf 0 1 ++ List.replicate 1878 0) := by
    rw [← hslice]
    exact shortImage.read_of_le (by decide) (by decide)
  have hlba : rootLba (pvdOf 0 1 ++ List.replicate 1878 0) = 0 := rfl
  have hlen : rootLen (pvdOf 0 1 ++ List.replicate 1878 0) = 1 := rfl
  have hdir : rootDir (fun _ => true) shortImage .cooked (pvdOf 0 1 ++ List.replicate 1878 0) =
      some [1] := by
    rw [rootDir, hlba, hlen, if_pos (by decide)]
    exact shortImage.read_of_le (p := 0) (by decide) (by decide)
  intro h
  exact h _ _ _ (findPvd_of_cooked hread rfl) hdir
    ⟨0, Relation.ReflTransGen.refl, 1, rfl, by decide, by decide, by decide⟩

theorem isPvd_slice_eq_false {f : ℕ → UInt8} {p : ℕ} (h : f p ≠ 1) :
    isPvd (slice f p 2048) = false := by
  have hone : slice f p 1 = [f p] := rfl
  have hne : (some (f p) == some 1) = false := beq_eq_false_iff_ne.mpr fun h' =>
    h (Option.some.inj h')
  rw [slice_split f p (show 1 ≤ 2048 by decide), hone, isPvd, List.singleton_append,
    List.getElem?_cons_zero, hne, Bool.false_and]

/-- Without the space both images lead to the id. -/
example : (sampleDisc (sampleText [] (by decide)) (by decide) (by decide)).RawOk
    (fun _ => true) 12 .mode1 (fun _ _ => 0) := by
  refine ⟨le_rfl, rfl, isPvd_slice_eq_false (by decide), Or.inl ?_⟩
  have hsize : (sampleRecord 28).size = 28 := size_sampleRecord (by decide)
  refine ⟨⟨⟨?_, rfl⟩, lt_of_eq_of_lt hsize (by decide), rfl⟩, by decide, Or.inl (by decide),
    fun i hi => absurd hi (Nat.not_lt_zero i), ?_⟩
  · change rootLen (sample _).pvd ≤ 32768
    rw [rootLen_sample]
    decide
  · change 2352 * 0 + 44 ≤ rootLen (sample _).pvd
    rw [rootLen_sample]
    decide

/-- **A record at the end of the directory is read behind it, and with a space in front of it the
device is read as the id.** -/
theorem not_readsInside_and_not_identified :
    ¬ ReadsInside (fun _ => true) shortImage 12 ∧
      ¬ (sampleDisc (sampleText [' '] (by decide)) (by decide) (by decide)).Identified
        (fun _ => true) 12 .mode1 (fun _ _ => 0) := by
  refine ⟨fun h => not_noneShort (readsInside_iff.mp h), fun h => ?_⟩
  obtain ⟨-, ⟨-, hplain⟩ | ⟨-, hmem⟩⟩ := (GameDisc.parse_cooked_iff _).mp h.1
  · exact absurd hplain (by decide)
  · have hid := (Prod.mk.inj (List.mem_singleton.mp hmem)).2
    exact absurd hid (by decide)

end Sample

end Retrogem

end OpenPS2Loader
