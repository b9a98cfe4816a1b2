import OpenPS2Loader.Lib.Bytes
import OpenPS2Loader.Lib.Scan
import OpenPS2Loader.UsbExtreme.Crc

/-!
# Games in parts

`iso2opl` cuts an image into parts of one gigabyte (`write_parts`) and appends an entry of 64 bytes
to `ul.cfg` (`write_cfg`); `opl2iso` joins the parts of an entry again (`exportGame`). The console
opens the parts by `sbCreatePath`, and the SMB driver of the game by the names of `DeviceFSInit`.
Each of the four makes the name of a part from the checksum of the name of the game, the boot file
of the disc and the number of the part: the tools with `%02d`, the others with `%02x`.

A drive is a directory with its files and subdirectories, by their paths from there. A file can be
made where its directory exists. The tools are those of a POSIX host.

## Main definitions

* `UsbExtreme.Drive` — the files and directories
* `UsbExtreme.Iso2opl.writeParts`, `UsbExtreme.Iso2opl.writeCfg`
* `UsbExtreme.Opl2iso.findGame`, `UsbExtreme.Opl2iso.exportEntry`, `UsbExtreme.Opl2iso.exportGame`
* `UsbExtreme.sbCreatePath`, `UsbExtreme.smbPart` — the names the console opens
* `UsbExtreme.Joins` — what was cut is joined again, under the names all of them use

## Main results

* `UsbExtreme.writeParts_spec` — the files that `write_parts` leaves
* `UsbExtreme.exportParts_spec` — the parts, one after the other
* `UsbExtreme.joins_iff`
* `UsbExtreme.exportGame_append` — the entry that was appended is the one that is exported
-/

namespace OpenPS2Loader

namespace UsbExtreme

open Scan

/-! ### Drives -/

/-- The files and directories of a drive, by their paths. -/
structure Drive where
  files : List UInt8 → Option (List UInt8)
  dirs : List UInt8 → Bool
  /-- The drive itself is there. -/
  root : dirs [] = true

/-- The directory of a path: what stands before its last slash. -/
def dirOf (path : List UInt8) : List UInt8 :=
  ((path.reverse.dropWhile (· ≠ 47)).drop 1).reverse

/-- The drive with a file. -/
def Drive.put (d : Drive) (path contents : List UInt8) : Drive :=
  { d with files := Function.update d.files path (some contents) }

@[simp] theorem Drive.put_dirs (d : Drive) (path contents : List UInt8) :
    (d.put path contents).dirs = d.dirs := rfl

theorem Drive.put_files_self (d : Drive) (path contents : List UInt8) :
    (d.put path contents).files path = some contents := Function.update_self _ _ _

theorem Drive.put_files_of_ne (d : Drive) {path p : List UInt8} (contents : List UInt8)
    (h : p ≠ path) : (d.put path contents).files p = d.files p := Function.update_of_ne h _ _

/-- A file is made; there is none without its directory. -/
def Drive.create (d : Drive) (path contents : List UInt8) : Option Drive :=
  if d.dirs (dirOf path) then some (d.put path contents) else none

theorem dirOf_of_not_mem {path : List UInt8} (h : 47 ∉ path) : dirOf path = [] := by
  rw [dirOf, List.dropWhile_eq_nil_iff.mpr, List.drop_nil, List.reverse_nil]
  intro c hc
  rw [decide_eq_true_eq]
  rintro rfl
  exact h (List.mem_reverse.mp hc)

theorem Drive.create_of_not_mem (d : Drive) {path : List UInt8} (h : 47 ∉ path)
    (contents : List UInt8) : d.create path contents = some (d.put path contents) := by
  rw [Drive.create, dirOf_of_not_mem h, if_pos d.root]

/-! ### The names of the parts -/

/-- `ul.` -/
def ulDot : List UInt8 := [117, 108, 46]

/-- `ul.%08X.%s` -/
def ulName (crc : BitVec 32) (id : List UInt8) : List UInt8 :=
  ulDot ++ hexDigits 65 8 crc.toNat ++ 46 :: id

/-- The name of a part in `iso2opl`. -/
def Iso2opl.partName (name id : List UInt8) (i : ℕ) : Option (List UInt8) :=
  (crc32 name).1.map fun crc => ulName crc id ++ 46 :: decimal02 i

/-- `compute_name` of `opl2iso`, behind the `ul.` of the entry. -/
def Opl2iso.computeName (name id : List UInt8) (i : ℕ) : Option (List UInt8) :=
  (crc32 name).1.map fun crc => ulName crc id ++ 46 :: decimal02 i

/-- `sbCreatePath` for `GAME_FORMAT_USBLD`, below the prefix. -/
def sbCreatePath (name startup : List UInt8) (i : ℕ) : Option (List UInt8) :=
  (usbaCrc32 name).1.map fun crc => ulName crc startup ++ 46 :: hexDigits 97 2 i

/-- The name of a part in `DeviceFSInit`: the name the menu hands over, and the number. -/
def smbPart (name startup : List UInt8) (i : ℕ) : Option (List UInt8) :=
  ((usbaCrc32 name).1.map fun crc => ulName crc startup).map fun filename =>
    filename ++ 46 :: hexDigits 97 2 i

/-! ### Cutting -/

namespace Iso2opl

/-- `WR_SIZE` -/
def wrSize : ℕ := 524288

/-- The size of a part. -/
def partSize : ℕ := 1073741824

/-- The number of parts of an image. -/
def numParts (filesize : ℕ) : ℕ := filesize / partSize + if filesize % partSize ≠ 0 then 1 else 0

/-- The loop that copies `nbytes` of the image: nothing where a read is short. -/
def readPart (iso : List UInt8) (pos nbytes : ℕ) : Option (List UInt8) :=
  if nbytes = 0 then some []
  else
    let buf := Bytes.field iso pos (min nbytes wrSize)
    if buf.length = min nbytes wrSize then
      (readPart iso (pos + min nbytes wrSize) (nbytes - min nbytes wrSize)).map (buf ++ ·)
    else none
termination_by nbytes
decreasing_by simp only [wrSize]; omega

/-- The loop of `write_parts`: `n` more parts, from the `i`-th on. -/
def writePartsFrom (name id iso : List UInt8) : ℕ → ℕ → ℕ → ℕ → Drive → Option Drive
  | 0, _, _, _, d => some d
  | n + 1, i, filesize, pos, d =>
    (partName name id i).bind fun path =>
    (readPart iso pos (min filesize partSize)).bind fun contents =>
    (d.create path contents).bind fun d =>
      writePartsFrom name id iso n (i + 1) (filesize - min filesize partSize)
        (pos + min filesize partSize) d

/-- `write_parts`. -/
def writeParts (d : Drive) (name id iso : List UInt8) (parts : ℕ) : Option Drive :=
  writePartsFrom name id iso parts 0 iso.length 0 d

/-- The disc. -/
inductive Media
  | cd
  | dvd
  deriving DecidableEq

def Media.code : Media → UInt8
  | .cd => 0x12
  | .dvd => 0x14

/-- The entry that `write_cfg` appends. The text of `image` may run on into the bytes behind it,
where it is written over, but not out of the entry. -/
def cfgEntry (name id : List UInt8) (media : Media) (parts : ℕ) : Option (List UInt8) :=
  Bytes.stores (List.replicate 64 0) [(0, name.take 32), (32, ulDot ++ id ++ [0]),
    (47, [UInt8.ofNat parts]), (53, [8]), (48, [media.code])]

/-- `ul.cfg` -/
def ulCfg : List UInt8 := [117, 108, 46, 99, 102, 103]

/-- `write_cfg`. -/
def writeCfg (d : Drive) (entry : List UInt8) : Option Drive :=
  d.create ulCfg ((d.files ulCfg).getD [] ++ entry)

end Iso2opl

/-! ### Joining -/

namespace Opl2iso

/-- The string in a field of bytes. -/
def str (l : List UInt8) : List UInt8 := l.takeWhile (· ≠ 0)

/-- `cfg_t` of `opl2iso`; the two texts are followed by a byte that is 0. -/
structure Cfg where
  name : List UInt8
  image : List UInt8
  parts : UInt8
  media : UInt8
  deriving DecidableEq

/-- An entry of `ul.cfg` as it is read. -/
def readCfg (entry : List UInt8) : Cfg where
  name := Bytes.field entry 0 32
  image := Bytes.field entry 32 15
  parts := (entry.drop 47).headD 0
  media := (entry.drop 48).headD 0

/-- `strncmp(a, b, n) == 0` -/
def sameStart (n : ℕ) (a b : List UInt8) : Bool := (str a).take n = (str b).take n

/-- What `findGame` takes for the entry. -/
def isNamedBy (item : Cfg) (gameid : List UInt8) : Bool :=
  let temp := (gameid.reverse.takeWhile (· ≠ 47)).reverse
  sameStart 15 item.image gameid || sameStart 12 (item.image.drop 3) gameid ||
    sameStart 32 item.name gameid ||
    (decide (23 ≤ temp.length) && sameStart 3 ulDot temp &&
      sameStart 12 (item.image.drop 2) (temp.drop 11))

/-- `findGame`. -/
def findGame (ul gameid : List UInt8) : Option Cfg :=
  ((List.range (ul.length / 64)).map fun k => readCfg (Bytes.field ul (k * 64) 64)).find?
    fun item => isNamedBy item gameid

/-- The copy of a part, by blocks of 64 kB. -/
def copyBlocks (contents : List UInt8) : List UInt8 :=
  if contents = [] then [] else contents.take 65536 ++ copyBlocks (contents.drop 65536)
termination_by contents.length
decreasing_by
  rename_i h
  rw [List.length_drop]
  have := List.length_pos_iff.mpr h
  omega

/-- The loop over the parts: `n` more of them, from the `i`-th on. -/
def exportParts (d : Drive) (item : Cfg) : ℕ → ℕ → Option (List UInt8)
  | 0, _ => some []
  | n + 1, i =>
    (computeName (str item.name) (str (item.image.drop 3)) i).bind fun sname =>
    (d.files sname).bind fun contents =>
      (exportParts d item n (i + 1)).map (copyBlocks contents ++ ·)

/-- `CD` or `DVD`. -/
def mediatype (media : UInt8) : Option (List UInt8) :=
  if media = 0x12 then some [67, 68] else if media = 0x14 then some [68, 86, 68] else none

/-- `%s/%s.%s.iso`, with the first eleven characters of the boot file. -/
def destination (mediatype id name : List UInt8) : List UInt8 :=
  mediatype ++ 47 :: (id.take 11 ++ 46 :: (name ++ [46, 105, 115, 111]))

/-- `exportGame` behind the search: the drive, and the file that was made. -/
def exportEntry (d : Drive) (item : Cfg) : Option (Drive × List UInt8) :=
  (mediatype item.media).bind fun media =>
  if (str item.image).length ≤ 3 then none
  else
    let rname := destination media (str (item.image.drop 3)) (str item.name)
    (d.create rname []).bind fun d =>
    (exportParts d item item.parts.toNat 0).bind fun contents =>
      (d.create rname contents).map fun d => (d, rname)

/-- `exportGame`. -/
def exportGame (d : Drive) (gameid : List UInt8) : Option (Drive × List UInt8) :=
  (d.files Iso2opl.ulCfg).bind fun ul => (findGame ul gameid).bind fun item => exportEntry d item

end Opl2iso

/-! ### The copies -/

section Copies

open Iso2opl Opl2iso

variable {iso : List UInt8} {pos nbytes : ℕ}

theorem field_of_length_le {l : List UInt8} {p : ℕ} (h : l.length ≤ p) (n : ℕ) :
    Bytes.field l p n = [] := by
  rw [Bytes.field, List.drop_eq_nil_of_le h, List.take_nil]

/-- A field ends where the bytes end. -/
theorem field_min {l : List UInt8} {p m : ℕ} (h : p + m = l.length) (n : ℕ) :
    Bytes.field l p (min m n) = Bytes.field l p n := by
  have hlen : (l.drop p).length = m := by
    rw [List.length_drop]
    omega
  rw [Bytes.field, Bytes.field, List.take_eq_take_iff, hlen]
  omega

theorem readPart_eq (h : pos + nbytes ≤ iso.length) :
    readPart iso pos nbytes = some (Bytes.field iso pos nbytes) := by
  induction nbytes using Nat.strong_induction_on generalizing pos with
  | _ nbytes ih =>
    rw [readPart]
    by_cases hzero : nbytes = 0
    · rw [if_pos hzero, hzero, Bytes.field, List.take_zero]
    · have hpos : 0 < min nbytes wrSize := by
        rw [wrSize]
        omega
      have hle : min nbytes wrSize ≤ nbytes := Nat.min_le_left _ _
      rw [if_neg hzero]
      dsimp only
      rw [if_pos (Bytes.length_field (by omega)), ih _ (by omega) (by omega), Option.map_some,
        ← Bytes.field_add, Nat.add_sub_cancel' hle]

theorem copyBlocks_eq (contents : List UInt8) : copyBlocks contents = contents := by
  induction hn : contents.length using Nat.strong_induction_on generalizing contents with
  | _ n ih =>
    rw [copyBlocks]
    split_ifs with hnil
    · exact hnil.symm
    · have hpos := List.length_pos_iff.mpr hnil
      have hlt : (contents.drop 65536).length < n := by
        rw [List.length_drop]
        omega
      rw [ih _ hlt _ rfl, List.take_append_drop]

theorem le_numParts_mul (filesize : ℕ) : filesize ≤ numParts filesize * partSize := by
  have hdiv := Nat.div_add_mod filesize partSize
  have hmod : filesize % partSize < partSize := Nat.mod_lt _ (by decide)
  rw [numParts, Nat.add_mul, Nat.mul_comm]
  split_ifs with h
  · omega
  · omega

end Copies

/-! ### The names of the parts -/

section Names

variable {name id : List UInt8} {v : BitVec 32} {i j : ℕ}

/-- The name of a part in the tools, when the name has a checksum. -/
def toolPart (v : BitVec 32) (id : List UInt8) (i : ℕ) : List UInt8 :=
  ulName v id ++ 46 :: decimal02 i

theorem toolPart_injective (v : BitVec 32) (id : List UInt8) :
    Function.Injective (toolPart v id) := by
  intro i j h
  have htail := List.append_cancel_left h
  exact decimal02_injective (List.tail_eq_of_cons_eq htail)

theorem slash_not_mem_hexDigits (k n : ℕ) : 47 ∉ hexDigits 65 k n := by
  have hdigit : ∀ m < 16,
      (if m < 10 then UInt8.ofNat (48 + m) else (65 : UInt8) + UInt8.ofNat (m - 10)) ≠ 47 := by
    decide
  induction k generalizing n with
  | zero => simp [hexDigits]
  | succ k ih =>
    rw [hexDigits, List.mem_append, not_or, List.mem_singleton]
    exact ⟨ih (n / 16), Ne.symm (hdigit (n % 16) (Nat.mod_lt n (by decide)))⟩

theorem slash_not_mem_toolPart (hid : 47 ∉ id) : 47 ∉ toolPart v id i := by
  have hdecimal : 47 ∉ decimal02 i := fun h =>
    absurd (isDigit_of_mem_decimal02 h) (by decide)
  simp only [toolPart, ulName, ulDot, List.mem_append, List.mem_cons, not_or]
  refine ⟨⟨⟨by decide, slash_not_mem_hexDigits 8 _⟩, by decide, hid⟩, by decide, hdecimal⟩

theorem ulCfg_ne_toolPart : Iso2opl.ulCfg ≠ toolPart v id i := by
  intro h
  have hlen := congrArg List.length h
  simp [Iso2opl.ulCfg, toolPart, ulName, ulDot] at hlen
  omega

end Names

/-! ### What the tools leave -/

section Tools

open Iso2opl Opl2iso

variable {name id iso : List UInt8} {v : BitVec 32}

/-- **The files that `write_parts` leaves.** -/
theorem writePartsFrom_spec (hv : (Iso2opl.crc32 name).1 = some v) (hid : 47 ∉ id)
    (n i filesize pos : ℕ) (d : Drive) (hsize : pos + filesize = iso.length) :
    ∃ d', writePartsFrom name id iso n i filesize pos d = some d' ∧ d'.dirs = d.dirs ∧
      (∀ j < n, d'.files (toolPart v id (i + j)) =
        some (Bytes.field iso (pos + j * partSize) partSize)) ∧
      ∀ p, (∀ j < n, p ≠ toolPart v id (i + j)) → d'.files p = d.files p := by
  induction n generalizing i filesize pos d with
  | zero => exact ⟨d, rfl, rfl, fun j hj => absurd hj (Nat.not_lt_zero j), fun _ _ => rfl⟩
  | succ n ih =>
    have hmin : min filesize partSize ≤ filesize := Nat.min_le_left _ _
    have hpath : partName name id i = some (toolPart v id i) := by
      rw [partName, hv, Option.map_some, toolPart]
    obtain ⟨d', hd', hdirs, hparts, hframe⟩ := ih (i + 1) (filesize - min filesize partSize)
      (pos + min filesize partSize)
      (d.put (toolPart v id i) (Bytes.field iso pos (min filesize partSize))) (by omega)
    refine ⟨d', ?_, hdirs, ?_, ?_⟩
    · rw [writePartsFrom, hpath, Option.bind_some, readPart_eq (by omega), Option.bind_some,
        d.create_of_not_mem (slash_not_mem_toolPart hid), Option.bind_some, hd']
    · intro j hj
      cases j with
      | zero =>
        rw [hframe _ fun k _ h => absurd (toolPart_injective v id h) (by omega)]
        rw [Nat.add_zero, d.put_files_self, Nat.zero_mul, Nat.add_zero, field_min hsize]
      | succ j =>
        have hnext := hparts j (by omega)
        rw [Nat.add_assoc, Nat.add_comm 1 j] at hnext
        rw [hnext, Option.some_inj]
        by_cases hfull : partSize ≤ filesize
        · rw [Nat.min_eq_right hfull, Nat.succ_mul]
          congr 1
          omega
        · rw [field_of_length_le (by omega), field_of_length_le (by rw [Nat.succ_mul]; omega)]
    · intro p hp
      rw [hframe p fun j hj => ?_]
      · exact d.put_files_of_ne _ (by simpa using hp 0 (Nat.succ_pos n))
      · have := hp (j + 1) (by omega)
        rwa [Nat.add_assoc, Nat.add_comm 1 j]

/-- The parts, one after the other. -/
theorem exportParts_spec {d : Drive} {item : Cfg} {f : ℕ → List UInt8} (n i : ℕ)
    (h : ∀ j < n, ∃ sname, computeName (str item.name) (str (item.image.drop 3)) (i + j) =
      some sname ∧ d.files sname = some (f (i + j))) :
    exportParts d item n i = some ((List.range' i n).flatMap f) := by
  induction n generalizing i with
  | zero => rfl
  | succ n ih =>
    obtain ⟨sname, hsname, hfile⟩ := h 0 (Nat.succ_pos n)
    have hrest := ih (i + 1) fun j hj => by
      obtain ⟨p, hp, hfile⟩ := h (j + 1) (by omega)
      rw [← Nat.add_assoc, Nat.add_right_comm] at hp hfile
      exact ⟨p, hp, hfile⟩
    rw [exportParts, ← Nat.add_zero i, hsname, Option.bind_some, hfile, Option.bind_some,
      Nat.add_zero, hrest, Option.map_some, copyBlocks_eq, List.range'_succ, List.flatMap_cons]

/-! ### The entry -/

theorem str_of_not_mem {l : List UInt8} (h : 0 ∉ l) : str l = l := by
  rw [str, List.takeWhile_eq_self_iff]
  intro c hc
  rw [decide_eq_true_eq]
  rintro rfl
  exact h hc

/-- A text that is cut, or is followed by its terminator. -/
theorem str_take_append {l : List UInt8} (h : 0 ∉ l) (z : List UInt8) (n : ℕ) :
    str ((l ++ 0 :: z).take n) = l.take n := by
  by_cases hn : n ≤ l.length
  · rw [List.take_append_of_le_length hn]
    exact str_of_not_mem fun hmem => h (List.mem_of_mem_take hmem)
  · obtain ⟨k, hk⟩ : ∃ k, n - l.length = k + 1 := ⟨n - l.length - 1, by omega⟩
    have hpos : ∀ c ∈ l, decide (c ≠ 0) = true := by
      intro c hc
      rw [decide_eq_true_eq]
      rintro rfl
      exact h hc
    rw [List.take_append, List.take_of_length_le (by omega), hk, List.take_succ_cons, str,
      List.takeWhile_append_of_pos hpos, List.takeWhile_cons_of_neg (by decide), List.append_nil]

/-- What `sbReadList` and `opl2iso` find in an entry: the name, and the boot file as far as it
fits. -/
structure EntryOf (name id : List UInt8) (media : Media) (parts : ℕ)
    (entry : List UInt8) : Prop where
  name : str (Bytes.field entry 0 32) = name
  image : ∃ z, Bytes.field entry 32 15 = (ulDot ++ (id ++ 0 :: z)).take 15
  parts : (entry.drop 47).headD 0 = UInt8.ofNat parts
  media : (entry.drop 48).headD 0 = media.code

theorem headD_drop_of_field {l : List UInt8} {p : ℕ} {b : UInt8} (h : Bytes.field l p 1 = [b]) :
    (l.drop p).headD 0 = b := by
  rw [Bytes.field] at h
  cases hl : l.drop p with
  | nil =>
    rw [hl] at h
    cases h
  | cons c l =>
    rw [hl, List.take_succ_cons, List.cons.injEq] at h
    exact h.1

theorem cfgEntry_spec {media : Media} {parts : ℕ} {entry : List UInt8} (hname : name.length ≤ 32)
    (hnul : 0 ∉ name) (h : cfgEntry name id media parts = some entry) :
    EntryOf name id media parts entry := by
  have hfits : 0 + name.length ≤ (List.replicate 64 (0 : UInt8)).length := by
    rw [List.length_replicate]
    omega
  rw [cfgEntry, List.take_of_length_le hname, Bytes.stores_cons, Bytes.store_of_le hfits,
    Option.bind_some, Bytes.stores_cons] at h
  obtain ⟨l, hl, hrest⟩ := Option.bind_eq_some_iff.mp h
  have hlen₁ := Bytes.length_overwrite hfits
  rw [List.length_replicate] at hlen₁
  obtain ⟨himage, rfl⟩ : 32 + (ulDot ++ id ++ [0]).length ≤
      (Bytes.overwrite (List.replicate 64 (0 : UInt8)) 0 name).length ∧
      Bytes.overwrite (Bytes.overwrite (List.replicate 64 (0 : UInt8)) 0 name) 32
        (ulDot ++ id ++ [0]) = l := by
    rw [Bytes.store] at hl
    split_ifs at hl with hle
    exact ⟨hle, Option.some.inj hl⟩
  have hlen := Bytes.length_overwrite himage
  rw [hlen₁] at hlen
  have hbounds : ∀ w ∈ [(47, [UInt8.ofNat parts]), (53, [8]), (48, [media.code])],
      w.1 + w.2.length ≤ (Bytes.overwrite (Bytes.overwrite (List.replicate 64 (0 : UInt8)) 0 name)
        32 (ulDot ++ id ++ [0])).length := by
    rw [hlen]
    simp
  obtain ⟨entry', hentry', -, hframe⟩ := Bytes.exists_stores _ _ hbounds
  obtain rfl := Option.some.inj (hentry'.symm.trans hrest)
  refine ⟨?_, ?_, ?_, ?_⟩
  · rw [hframe 0 32 (by simp [Bytes.Apart]), Bytes.field_overwrite_of_le himage (by simp),
      Bytes.field, Bytes.overwrite, List.drop_zero, List.take_zero, List.nil_append,
      List.drop_replicate]
    obtain ⟨k, hk⟩ : ∃ k, 64 - (0 + name.length) = k + 1 := ⟨63 - name.length, by omega⟩
    rw [hk, List.replicate_succ, str_take_append hnul, List.take_of_length_le hname]
  · rw [hframe 32 15 (by simp [Bytes.Apart]), Bytes.field, Bytes.overwrite, List.append_assoc,
      List.drop_left' (by rw [List.length_take, hlen₁]; rfl)]
    exact ⟨_, by rw [List.append_assoc, List.append_assoc, List.append_assoc]; rfl⟩
  · have hstores : Bytes.stores _
        ([] ++ (47, [UInt8.ofNat parts]) :: [(53, [8]), (48, [media.code])]) =
          some entry' := hentry'
    exact headD_drop_of_field (Bytes.field_stores hbounds hstores (by simp [Bytes.Apart]))
  · have hstores : Bytes.stores _
        ([(47, [UInt8.ofNat parts]), (53, [8])] ++ (48, [media.code]) :: []) =
          some entry' := hentry'
    exact headD_drop_of_field (Bytes.field_stores hbounds hstores (by simp))

theorem exists_cfgEntry (name : List UInt8) {id : List UInt8} (hid : id.length ≤ 12) (media : Media)
    (parts : ℕ) : ∃ entry, cfgEntry name id media parts = some entry := by
  obtain ⟨entry, hentry, -, -⟩ := Bytes.exists_stores (List.replicate 64 (0 : UInt8))
    [(0, name.take 32), (32, ulDot ++ id ++ [0]), (47, [UInt8.ofNat parts]), (53, [8]),
      (48, [media.code])] (by simp [ulDot]; omega)
  exact ⟨entry, hentry⟩

/-! ### Cutting and joining -/

/-- The names of the `i`-th part: the one `iso2opl` writes, and those `opl2iso`, the console and the
SMB driver open for the entry. -/
def NamesAgree (name id entry : List UInt8) (i : ℕ) : Prop :=
  ∃ p, partName name id i = some p ∧
    computeName (str (readCfg entry).name) (str ((readCfg entry).image.drop 3)) i = some p ∧
    sbCreatePath (str (Bytes.field entry 0 32)) (str (Bytes.field entry 35 12)) i = some p ∧
    smbPart (str (Bytes.field entry 0 32)) (str (Bytes.field entry 35 12)) i = some p

/-- What `iso2opl` cuts, `opl2iso` joins again, and the parts have the names that are opened. -/
def Joins (d : Drive) (name id iso : List UInt8) (media : Media) : Prop :=
  ∃ d₁ entry d₂, writeParts d name id iso (numParts iso.length) = some d₁ ∧
    cfgEntry name id media (numParts iso.length) = some entry ∧ writeCfg d₁ entry = some d₂ ∧
    (∃ d₃ rname, exportEntry d₂ (readCfg entry) = some (d₃, rname) ∧
      d₃.files rname = some iso) ∧
    ∀ i < numParts iso.length, NamesAgree name id entry i

/-- The directory of the discs. -/
def Iso2opl.Media.dir : Media → List UInt8
  | .cd => [67, 68]
  | .dvd => [68, 86, 68]

theorem mediatype_code (media : Media) : mediatype media.code = some media.dir := by
  cases media <;> rfl

section Joins

variable {d : Drive} {media : Media} {entry : List UInt8} {parts i : ℕ}

/-- The boot file in the entry. -/
theorem EntryOf.startup (h : EntryOf name id media parts entry) (hnul : 0 ∉ id) :
    str ((readCfg entry).image.drop 3) = id.take 12 ∧
      str (Bytes.field entry 35 12) = id.take 12 := by
  obtain ⟨z, hz⟩ := h.image
  have hdrop : (Bytes.field entry 32 15).drop 3 = (id ++ 0 :: z).take 12 := by
    rw [hz]
    rfl
  have hfield : Bytes.field entry 35 12 = (Bytes.field entry 32 15).drop 3 := by
    rw [Bytes.field, Bytes.field, List.drop_take, List.drop_drop]
  rw [hfield]
  change str ((Bytes.field entry 32 15).drop 3) = _ ∧ _
  rw [hdrop, str_take_append hnul]
  exact ⟨rfl, rfl⟩

theorem computeName_entry (h : EntryOf name id media parts entry) (hnul : 0 ∉ id)
    (hv : (Opl2iso.crc32 name).1 = some v) :
    computeName (str (readCfg entry).name) (str ((readCfg entry).image.drop 3)) i =
      some (toolPart v (id.take 12) i) := by
  rw [(h.startup hnul).1]
  change computeName (str (Bytes.field entry 0 32)) _ i = _
  rw [h.name, computeName, hv, Option.map_some, toolPart]

/-- Up to the tenth part, a number is written with the same digits in both formats. -/
theorem decimal02_eq_hexDigits (h : i < 10) : decimal02 i = hexDigits 97 2 i := by
  revert i
  decide

theorem sbCreatePath_entry (h : EntryOf name id media parts entry) (hnul : 0 ∉ id)
    (hv : (usbaCrc32 name).1 = some v) :
    sbCreatePath (str (Bytes.field entry 0 32)) (str (Bytes.field entry 35 12)) i =
      some (ulName v (id.take 12) ++ 46 :: hexDigits 97 2 i) := by
  rw [(h.startup hnul).2, h.name, sbCreatePath, hv, Option.map_some]

theorem smbPart_eq_sbCreatePath (name startup : List UInt8) (i : ℕ) :
    smbPart name startup i = sbCreatePath name startup i := by
  rw [smbPart, sbCreatePath, Option.map_map]
  rfl

/-- What `exportGame` needs of the drive besides the parts. -/
theorem exportEntry_dirs (h : EntryOf name id media parts entry) (hnul : 0 ∉ id)
    (hexport : ∃ r, exportEntry d (readCfg entry) = some r) :
    d.dirs (dirOf (destination media.dir id name)) = true := by
  obtain ⟨r, hr⟩ := hexport
  obtain ⟨m, hm, hr⟩ := Option.bind_eq_some_iff.mp hr
  have hmedia : m = media.dir := by
    have hcode : mediatype (readCfg entry).media = some media.dir := by
      rw [← mediatype_code, ← h.media]
      rfl
    exact Option.some.inj (hm.symm.trans hcode)
  split_ifs at hr
  obtain ⟨d', hd', -⟩ := Option.bind_eq_some_iff.mp hr
  have hdest : destination m (str ((readCfg entry).image.drop 3)) (str (readCfg entry).name) =
      destination media.dir id name := by
    rw [(h.startup hnul).1, hmedia]
    change destination _ _ (str (Bytes.field entry 0 32)) = _
    rw [h.name, destination, destination, List.take_take]
    rfl
  rw [hdest, Drive.create] at hd'
  split_ifs at hd' with hdir
  exact hdir

theorem slash_mem_destination (m id name : List UInt8) : 47 ∈ destination m id name := by
  simp [destination]

/-- **Joining the parts of an entry.** -/
theorem exportEntry_spec (h : EntryOf name id media (numParts iso.length) entry)
    (hid : id ≠ [] ∧ 0 ∉ id ∧ 47 ∉ id) (hlen : id.length ≤ 12)
    (hv : (Opl2iso.crc32 name).1 = some v) (hparts : numParts iso.length ≤ 255)
    (hdir : d.dirs (dirOf (destination media.dir id name)) = true)
    (hfiles : ∀ j < numParts iso.length,
      d.files (toolPart v id j) = some (Bytes.field iso (j * partSize) partSize)) :
    ∃ d' rname, exportEntry d (readCfg entry) = some (d', rname) ∧ d'.files rname = some iso := by
  have hcode : mediatype (readCfg entry).media = some media.dir := by
    rw [← mediatype_code, ← h.media]
    rfl
  have himage : ¬(str (readCfg entry).image).length ≤ 3 := by
    obtain ⟨z, hz⟩ := h.image
    have hpos := List.length_pos_iff.mpr hid.1
    have hnul : 0 ∉ ulDot ++ id := by
      rw [List.mem_append, not_or]
      exact ⟨by decide, hid.2.1⟩
    change ¬(str (Bytes.field entry 32 15)).length ≤ 3
    rw [hz, ← List.append_assoc, str_take_append hnul, List.length_take, List.length_append]
    have : ulDot.length = 3 := rfl
    omega
  have hname : str (readCfg entry).name = name := h.name
  have hstartup : str ((readCfg entry).image.drop 3) = id := by
    rw [(h.startup hid.2.1).1, List.take_of_length_le hlen]
  have hcount : (readCfg entry).parts.toNat = numParts iso.length := by
    change ((entry.drop 47).headD 0).toNat = _
    rw [h.parts, UInt8.toNat_ofNat', Nat.mod_eq_of_lt (by omega)]
  have hexport : exportParts (d.put (destination media.dir id name) []) (readCfg entry)
      (numParts iso.length) 0 = some iso := by
    rw [exportParts_spec (f := fun j => Bytes.field iso (j * partSize) partSize) _ _ fun j hj => ?_]
    · rw [← List.range_eq_range', Bytes.flatMap_field_range,
        List.take_of_length_le (le_numParts_mul _)]
    · have hne : toolPart v id j ≠ destination media.dir id name := by
        intro heq
        exact slash_not_mem_toolPart hid.2.2 (heq ▸ slash_mem_destination media.dir id name)
      refine ⟨toolPart v id j, ?_, ?_⟩
      · rw [computeName_entry h hid.2.1 hv, List.take_of_length_le hlen, Nat.zero_add]
      · rw [Nat.zero_add, d.put_files_of_ne _ hne, hfiles j hj]
  refine ⟨(d.put (destination media.dir id name) []).put (destination media.dir id name) iso,
    destination media.dir id name, ?_, Drive.put_files_self _ _ _⟩
  rw [exportEntry, hcode, Option.bind_some, if_neg himage, hname, hstartup]
  dsimp only
  rw [Drive.create, if_pos hdir, Option.bind_some, hcount, hexport, Option.bind_some, Drive.create,
    Drive.put_dirs, if_pos hdir, Option.map_some]

/-- The game that `iso2opl` installs, whatever becomes of it. -/
theorem exists_writeParts (d : Drive) (hcrc : (Iso2opl.crc32 name).1 = some v) (hid : 47 ∉ id)
    (iso : List UInt8) :
    ∃ d₁, writeParts d name id iso (numParts iso.length) = some d₁ ∧
      (∀ entry, writeCfg d₁ entry = some (d₁.put ulCfg ((d₁.files ulCfg).getD [] ++ entry))) ∧
      d₁.dirs = d.dirs ∧
      ∀ j < numParts iso.length,
        d₁.files (toolPart v id j) = some (Bytes.field iso (j * partSize) partSize) := by
  obtain ⟨d₁, hd₁, hdirs, hfiles, -⟩ :=
    writePartsFrom_spec hcrc hid (numParts iso.length) 0 iso.length 0 d (Nat.zero_add _)
  refine ⟨d₁, hd₁, fun entry => d₁.create_of_not_mem (by decide) _, hdirs, fun j hj => ?_⟩
  have hfile := hfiles j hj
  rwa [Nat.zero_add, Nat.zero_add] at hfile

section Names

variable (hname : name.length ≤ 32) (hprint : ∀ c ∈ name, 0x20 ≤ c ∧ c ≤ 0x7E)
include hname hprint

/-- A printable name has one checksum. -/
theorem exists_crc32_printable :
    ∃ v, (usbaCrc32 name).1 = some v ∧ (Iso2opl.crc32 name).1 = some v := by
  have hascii : ∀ c ∈ name, c < 0x80 := by
    intro c hc
    exact UInt8.lt_of_le_of_lt (hprint c hc).2 (by decide)
  obtain ⟨v, hv⟩ := exists_usbaCrc32 name
  refine ⟨v, hv, ?_⟩
  rw [Iso2opl.crc32, crc32_eq_usbaCrc32 hname hascii, hv]

theorem entryOf_printable (h : cfgEntry name id media parts = some entry) :
    EntryOf name id media parts entry := by
  refine cfgEntry_spec hname (fun h0 => ?_) h
  exact absurd (hprint 0 h0).1 (by decide)

/-- The eleventh part is named `10` by the tools, and `0a` by the others. -/
theorem numParts_le_of_joins (hnul : 0 ∉ id) (h : Joins d name id iso media) :
    numParts iso.length ≤ 10 := by
  obtain ⟨-, entry, -, -, hentry, -, -, hnames⟩ := h
  obtain ⟨v, hv, hcrc⟩ := exists_crc32_printable hname hprint
  by_contra hmany
  obtain ⟨p, hp, -, hp', -⟩ := hnames 10 (by omega)
  rw [partName, hcrc, Option.map_some] at hp
  rw [sbCreatePath_entry (entryOf_printable hname hprint hentry) hnul hv] at hp'
  have htail := List.append_inj_right' (Option.some.inj (hp.trans hp'.symm)) (by decide)
  exact absurd htail (by decide)

/-- A boot file of more than twelve characters does not fit into the entry. -/
theorem length_le_of_joins (hnul : 0 ∉ id) (hiso : iso ≠ []) (h : Joins d name id iso media) :
    id.length ≤ 12 := by
  obtain ⟨-, entry, -, -, hentry, -, -, hnames⟩ := h
  obtain ⟨v, -, hcrc⟩ := exists_crc32_printable hname hprint
  have hpos : 0 < numParts iso.length := by
    have hle := le_numParts_mul iso.length
    have := List.length_pos_iff.mpr hiso
    exact Nat.pos_of_ne_zero fun h0 => by
      rw [h0, Nat.zero_mul] at hle
      omega
  obtain ⟨p, hp, hp', -⟩ := hnames 0 hpos
  rw [partName, hcrc, Option.map_some] at hp
  rw [computeName_entry (entryOf_printable hname hprint hentry) hnul hcrc] at hp'
  have hlen := congrArg List.length (Option.some.inj (hp.trans hp'.symm))
  simp only [toolPart, ulName, List.length_append, List.length_cons, List.length_take] at hlen
  omega

theorem dirs_of_joins (hid : 0 ∉ id ∧ 47 ∉ id) (h : Joins d name id iso media) :
    d.dirs (dirOf (destination media.dir id name)) = true := by
  obtain ⟨d₁', entry, d₂, hd₁', hentry, hd₂, ⟨d₃, rname, hexport, -⟩, -⟩ := h
  obtain ⟨v, -, hcrc⟩ := exists_crc32_printable hname hprint
  obtain ⟨d₁, hd₁, hcfg, hdirs, -⟩ := exists_writeParts d hcrc hid.2 iso
  obtain rfl := Option.some.inj (hd₁.symm.trans hd₁')
  obtain rfl := Option.some.inj ((hcfg entry).symm.trans hd₂)
  have hdir := exportEntry_dirs (entryOf_printable hname hprint hentry) hid.1 ⟨_, hexport⟩
  rwa [Drive.put_dirs, hdirs] at hdir

/-- **When a game in parts is joined again, and found by all.** -/
theorem joins_iff (d : Drive) (id iso : List UInt8) (media : Media)
    (hid : id ≠ [] ∧ 0 ∉ id ∧ 47 ∉ id) (hiso : iso ≠ []) (hparts : numParts iso.length ≤ 255) :
    Joins d name id iso media ↔
      numParts iso.length ≤ 10 ∧ id.length ≤ 12 ∧
        d.dirs (dirOf (destination media.dir id name)) = true := by
  constructor
  · intro h
    exact ⟨numParts_le_of_joins hname hprint hid.2.1 h,
      length_le_of_joins hname hprint hid.2.1 hiso h, dirs_of_joins hname hprint hid.2 h⟩
  · rintro ⟨hfew, hlen, hdir⟩
    obtain ⟨v, hv, hcrc⟩ := exists_crc32_printable hname hprint
    obtain ⟨d₁, hd₁, hcfg, hdirs, hfiles⟩ := exists_writeParts d hcrc hid.2.2 iso
    obtain ⟨entry, hentry⟩ := exists_cfgEntry name hlen media (numParts iso.length)
    have hspec := entryOf_printable hname hprint hentry
    refine ⟨d₁, entry, _, hd₁, hentry, hcfg entry, ?_, fun i hi => ?_⟩
    · refine exportEntry_spec hspec hid hlen hcrc hparts ?_ fun j hj => ?_
      · rw [Drive.put_dirs, hdirs, hdir]
      · rw [Drive.put_files_of_ne _ _ (Ne.symm ulCfg_ne_toolPart), hfiles j hj]
    · have hshort : id.take 12 = id := List.take_of_length_le hlen
      have hsb := sbCreatePath_entry (i := i) hspec hid.2.1 hv
      rw [hshort, ← decimal02_eq_hexDigits (by omega)] at hsb
      refine ⟨toolPart v id i, ?_, ?_, hsb, ?_⟩
      · rw [partName, hcrc, Option.map_some, toolPart]
      · rw [computeName_entry hspec hid.2.1 hcrc, hshort]
      · rw [smbPart_eq_sbCreatePath, hsb, toolPart]

end Names

/-- A drive with an empty directory for DVDs. -/
def dvdDrive : Drive := ⟨fun _ => none, fun p => p = [] ∨ p = [68, 86, 68], by decide⟩

/-- `SLUS_123.45` -/
def bootFile : List UInt8 := [83, 76, 85, 83, 95, 49, 50, 51, 46, 52, 53]

/-- The name `G`. -/
theorem printable_letter : ∀ c ∈ [(71 : UInt8)], 0x20 ≤ c ∧ c ≤ 0x7E := by
  intro c hc
  rw [List.mem_singleton.mp hc]
  decide

theorem joins_iff_smallImage : Joins dvdDrive [71] bootFile [1, 2, 3] .dvd :=
  (joins_iff (by decide) printable_letter dvdDrive bootFile [1, 2, 3] .dvd (by decide) (by decide)
    (by decide)).mpr (by decide)

/-- An image of ten gigabytes and one byte. -/
theorem not_joins_elevenParts :
    ¬Joins dvdDrive [71] bootFile (List.replicate 10737418241 0) .dvd := by
  intro h
  have hle := numParts_le_of_joins (by decide) printable_letter (by decide) h
  rw [List.length_replicate] at hle
  exact absurd hle (by decide)

/-- The entry that was appended is found, when no earlier one is named so. -/
theorem findGame_append {ul gameid : List UInt8} (hul : ul.length % 64 = 0)
    (hentry : entry.length = 64) (hnone : findGame ul gameid = none)
    (hnamed : isNamedBy (readCfg entry) gameid = true) :
    findGame (ul ++ entry) gameid = some (readCfg entry) := by
  obtain ⟨k, hk⟩ : ∃ k, ul.length = k * 64 := ⟨ul.length / 64, by omega⟩
  have hcount : (ul ++ entry).length / 64 = k + 1 := by
    rw [List.length_append]
    omega
  have hold : ∀ j < k, Bytes.field (ul ++ entry) (j * 64) 64 = Bytes.field ul (j * 64) 64 := by
    intro j hj
    rw [Bytes.field, Bytes.field, List.drop_append_of_le_length (by omega),
      List.take_append_of_le_length (by rw [List.length_drop]; omega)]
  have hnew : Bytes.field (ul ++ entry) (k * 64) 64 = entry := by
    rw [Bytes.field, List.drop_left' hk, List.take_of_length_le (by omega)]
  have hmap : (List.range k).map (fun j => readCfg (Bytes.field (ul ++ entry) (j * 64) 64)) =
      (List.range k).map (fun j => readCfg (Bytes.field ul (j * 64) 64)) := by
    refine List.map_congr_left fun j hj => ?_
    rw [hold j (List.mem_range.mp hj)]
  rw [findGame, hk, Nat.mul_div_cancel _ (by decide)] at hnone
  rw [findGame, hcount, List.range_succ, List.map_append, hmap, List.find?_append, hnone,
    Option.none_or, List.map_singleton, hnew, List.find?_singleton, if_pos hnamed]

/-- **What was appended is exported**, whatever else is in `ul.cfg`. -/
theorem exportGame_append {d : Drive} {ul gameid : List UInt8}
    (hcfg : d.files Iso2opl.ulCfg = some (ul ++ entry)) (hul : ul.length % 64 = 0)
    (hentry : entry.length = 64) (hnone : findGame ul gameid = none)
    (hnamed : isNamedBy (readCfg entry) gameid = true) :
    exportGame d gameid = exportEntry d (readCfg entry) := by
  rw [exportGame, hcfg, Option.bind_some, findGame_append hul hentry hnone hnamed,
    Option.bind_some]

end Joins

end Tools

end UsbExtreme

end OpenPS2Loader
