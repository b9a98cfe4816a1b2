import Mathlib.Data.Int.Notation
import OpenPS2Loader.Ra.ImageDirectory

/-!
# The hash of an image

`hash_boot_exec` of `rahash.c`: the root directory is found in sector 16, the boot executable in the
root directory, and the hash is the MD5 of its name and its contents. `raHashIsoDirect` reads from
an image file, where every read may give less than it was asked for; `raHashDisc` reads from the
drive, which gives whole sectors, or none after 16 attempts, but asks the driver of the disc's file
system first.

MD5 is a parameter: its state, and the three calls of `md5.c`, which together give the digest of
what was appended. The driver is a parameter too. What the crumbs and the log say is left out, and
so are arguments that are null.

## Main definitions

* `RaHash.imageReadAt`, `RaHash.discReadAt` — the two sides of `read_at`
* `RaHash.hashBootExec`, `RaHash.raHashIsoDirect`, `RaHash.raHashDisc`
* `RaHash.HashesImage` — what the hash of an image has to satisfy
* `RaHash.EndlessImage` — the images whose root directory does not end

## Main results

* `RaHash.hashesImage_iff`
* `RaHash.not_hashesImage_endless`
-/

namespace OpenPS2Loader

namespace RaHash

open Bytes

/-! ### Reading -/

/-- `read_at` of an image file. The call `c` gives `came c` bytes at most, or fails. -/
def imageReadAt (img : Image) (came : ℕ → Option ℕ) : Reader := fun c off len =>
  (came c).map fun n => slice img.byte off (min (min n len) (img.size - off))

/-- How an attempt to read from the drive ends. -/
inductive Attempt
  /-- `sceCdRead` returns 0 -/
  | refused
  /-- `sceCdGetError` returns an error -/
  | failed
  | done
  deriving DecidableEq

/-- `DISC_READ_TRIES` -/
def discReadTries : ℕ := 16

/-- The loop of `disc_read_sectors`, from an attempt on. -/
def discReadLoop (attempt : ℕ → Attempt) : ℕ → ℕ → Bool
  | 0, _ => false
  | n + 1, i => if attempt i = .done then true else discReadLoop attempt n (i + 1)

/-- `disc_read_sectors`. Sectors behind the end of the disc cannot be read. -/
def discReadSectors (img : Image) (attempt : ℕ → Attempt) (lba count : ℕ) : Bool :=
  if isoSector * (lba + count) ≤ img.size then discReadLoop attempt discReadTries 0 else false

/-- `disc_read_at`. The number of a sector has 32 bits. -/
def discReadAt (img : Image) (attempt : ℕ → ℕ → Attempt) : Reader := fun c off len =>
  if len = 0 then none
  else if off % isoSector ≠ 0 then none
  else if discReadSectors img (attempt c) (off / isoSector % 2 ^ 32)
      ((len + isoSector - 1) / isoSector) then
    some (slice img.byte (isoSector * (off / isoSector % 2 ^ 32)) len)
  else none

/-! ### Hashing -/

/-- MD5, in the calls of `md5.c` and as a whole. -/
structure Md5 where
  State : Type
  init : State
  append : State → List UInt8 → State
  finish : State → List UInt8
  digest : List UInt8 → List UInt8
  finish_foldl : ∀ chunks : List (List UInt8),
    finish (chunks.foldl append init) = digest chunks.flatten

/-- The calls as ones that keep what is appended, with the whole of it as the digest. -/
def Md5.plain : Md5 where
  State := List UInt8
  init := []
  append := (· ++ ·)
  finish := id
  digest := id
  finish_foldl chunks := by
    rw [id, id]
    induction chunks using List.reverseRecOn with
    | nil => rfl
    | append_singleton chunks chunk ih =>
      rw [List.foldl_append, ih, List.flatten_append, List.flatten_singleton]
      rfl

/-- A digit of `hex`. -/
def hexDigit (n : ℕ) : UInt8 := if n < 10 then UInt8.ofNat (48 + n) else UInt8.ofNat (87 + n)

/-- `out33`, without its terminator. -/
def hexText (digest : List UInt8) : List UInt8 :=
  digest.flatMap fun b => [hexDigit (b.toNat / 16), hexDigit (b.toNat % 16)]

/-- `RA_HASH_MAX_EXEC` -/
def raHashMaxExec : ℕ := 64 * 1024 * 1024

/-- `RA_HASH_CHUNK` -/
def raHashChunk : ℕ := 64 * 1024

/-- `"CD001"` -/
def cd001 : List UInt8 := [67, 68, 48, 48, 49]

/-- What a volume descriptor says about the root directory. -/
def rootRecord (pvd : List UInt8) : Option (ℕ × ℕ) :=
  if field pvd 1 5 ≠ cd001 then none else some (le32 pvd 158, le32 pvd 166)

/-- `read_root` -/
def readRoot (read : Reader) : Option (ℕ × ℕ) :=
  match read 0 (16 * isoSector) isoSector with
  | none => none
  | some pvd => if pvd.length ≠ isoSector then none else rootRecord pvd

/-- The loop that reads the executable. -/
def execLoop (m : Md5) (read : Reader) (c off left : ℕ) (state : m.State) : Option m.State :=
  if left = 0 then some state
  else
    match read c off (min left raHashChunk) with
    | none => none
    | some [] => none
    | some (b :: bs) =>
      execLoop m read (c + 1) (off + (bs.length + 1)) (left - (bs.length + 1))
        (m.append state (b :: bs))
termination_by left

/-- `hash_boot_exec` behind `find_entry`. -/
def hashEntry (m : Md5) (read : Reader) (startup : List UInt8) : Found → Except ℤ (List UInt8)
  | .entry lba size c =>
    if size = 0 ∨ raHashMaxExec < size then .error (-4)
    else
      match execLoop m read c (isoSector * lba) size (m.append m.init startup) with
      | none => .error (-5)
      | some state => .ok (hexText (m.finish state))
  | _ => .error (-3)

/-- `hash_boot_exec`: what it returns, and the hash if that is 0. -/
def hashBootExec (m : Md5) (read : Reader) (startup : List UInt8) (fuel : ℕ) :
    Option (Except ℤ (List UInt8)) :=
  match readRoot read with
  | none => some (.error (-2))
  | some (rootLba, rootSize) =>
    (findEntry read startup rootLba rootSize fuel 0 1).map (hashEntry m read startup)

/-- `raHashIsoDirect` -/
def raHashIsoDirect (m : Md5) (img : Image) (opened : Bool) (came : ℕ → Option ℕ)
    (startup : List UInt8) (fuel : ℕ) : Option (Except ℤ (List UInt8)) :=
  if opened then hashBootExec m (imageReadAt img came) startup fuel else some (.error (-1))

/-- What the driver of the file system gives for the boot path. -/
structure RomFile where
  /-- `lseek` to the end -/
  size : ℤ
  /-- `lseek` to the start succeeds -/
  rewinds : Bool
  /-- a read, its number, where in the file it is and how many bytes it asks for -/
  read : Reader

/-- A read that gives more than it was asked for is not taken. -/
def RomFile.readAt (f : RomFile) : Reader := fun c off len =>
  (f.read c off len).filter fun b => decide (b.length ≤ len)

/-- `raHashDisc` as long as it reads through the driver. -/
def romHash (m : Md5) (rom : Option RomFile) (startup : List UInt8) : Option (List UInt8) :=
  rom.bind fun f =>
    if 0 < f.size ∧ f.size ≤ raHashMaxExec ∧ f.rewinds = true then
      (execLoop m f.readAt 0 0 f.size.toNat (m.append m.init startup)).map fun state =>
        hexText (m.finish state)
    else none

/-- `raHashDisc` -/
def raHashDisc (m : Md5) (img : Image) (rom : Option RomFile) (attempt : ℕ → ℕ → Attempt)
    (startup : List UInt8) (fuel : ℕ) : Option (Except ℤ (List UInt8)) :=
  match romHash m rom startup with
  | some text => some (.ok text)
  | none => hashBootExec m (discReadAt img attempt) startup fuel

/-! ### What the hash has to satisfy -/

/-- The root directory of an image: its sector and its size. -/
def rootOf (img : Image) : Option (ℕ × ℕ) :=
  if 17 * isoSector ≤ img.size then rootRecord (slice img.byte (16 * isoSector) isoSector) else none

/-- The bytes of the file of a record. -/
def Record.content (r : Record) (img : Image) : List UInt8 :=
  slice img.byte (isoSector * r.lba) r.size

/-- The file of a record, as an image of its own. -/
def Record.file (r : Record) (img : Image) : Image :=
  ⟨r.size, fun i => img.byte (isoSector * r.lba + i)⟩

/-- The hash of an image that has this boot executable. -/
def hashOf (m : Md5) (img : Image) (startup : List UInt8) (r : Record) : List UInt8 :=
  hexText (m.digest (startup ++ r.content img))

/-- The hash with one reader: it comes to its end; `find_entry` gives the first record with the name
among those that lie inside of the directory; and what is reported is the hash of the executable
that the image has under that name. -/
structure HashesBoot (m : Md5) (img : Image) (startup : List UInt8) (read : Reader) : Prop where
  terminates : ∃ fuel, (hashBootExec m read startup fuel).isSome
  first : ∀ dirLba dirSize fuel c lba size c', dirLba < 2 ^ 32 →
    findEntry read startup dirLba dirSize fuel 0 c = some (.entry lba size c') →
    ∃ r, First img dirLba dirSize startup r ∧ r.pos + r.length ≤ dirSize ∧ r.lba = lba ∧
      r.size = size
  hash : ∀ fuel text, hashBootExec m read startup fuel = some (.ok text) →
    ∃ rootLba rootSize r, rootOf img = some (rootLba, rootSize) ∧
      First img rootLba rootSize startup r ∧ isoSector * r.lba + r.size ≤ img.size ∧
      text = hashOf m img startup r

/-- The image is one of a disc: of whole sectors, whose numbers have 32 bits. -/
def IsDisc (img : Image) : Prop := ∃ n, n < 2 ^ 32 ∧ img.size = isoSector * n

/-- The image file can be read: no read fails, and a sector comes in one piece. -/
def ImageReadable (came : ℕ → Option ℕ) : Prop := ∀ c, ∃ n, came c = some n ∧ isoSector ≤ n

/-- The disc can be read: one of the attempts succeeds. -/
def DiscReadable (attempt : ℕ → ℕ → Attempt) : Prop :=
  ∀ c, ∃ i, i < discReadTries ∧ attempt c i = .done

/-- The driver of the file system reads the disc: a file that it opens, with a size that is
accepted, is the one of the first record with the name, and what it reads are bytes of this file. -/
def RomReads (img : Image) (startup : List UInt8) (rom : Option RomFile) : Prop :=
  ∀ f, rom = some f → 0 < f.size → f.size ≤ raHashMaxExec →
    ∃ rootLba rootSize r, rootOf img = some (rootLba, rootSize) ∧
      First img rootLba rootSize startup r ∧ InImage img rootLba (r.pos / isoSector) ∧
      f.size = r.size ∧ isoSector * r.lba + r.size ≤ img.size ∧ Reads (r.file img) f.readAt

/-- The hash of an image with every reader, and of the disc. -/
structure HashesImage (m : Md5) (img : Image) (startup : List UInt8) : Prop where
  image : ∀ came, HashesBoot m img startup (imageReadAt img came)
  disc : IsDisc img → ∀ attempt, HashesBoot m img startup (discReadAt img attempt)
  same : IsDisc img → ∀ came attempt rom, ImageReadable came → DiscReadable attempt →
    RomReads img startup rom → ∃ fuel result,
      raHashIsoDirect m img true came startup fuel = some result ∧
      raHashDisc m img rom attempt startup fuel = some result

/-- The root directory does not end. -/
def EndlessImage (img : Image) (startup : List UInt8) : Prop :=
  ∃ rootLba rootSize, rootOf img = some (rootLba, rootSize) ∧
    EndlessDirectory img startup rootLba rootSize

variable {m : Md5} {img : Image} {read : Reader} {startup : List UInt8} {c off left len : ℕ}
  {state state' : m.State} {came : ℕ → Option ℕ} {attempt : ℕ → ℕ → Attempt} {r : Record}

/-! ### The two readers -/

theorem reads_image (img : Image) (came : ℕ → Option ℕ) : Reads img (imageReadAt img came) := by
  intro c off len b _ hb
  obtain ⟨n, -, rfl⟩ := Option.map_eq_some_iff.mp hb
  rw [length_slice]
  refine ⟨by omega, fun hne => ?_, rfl⟩
  have hpos := List.length_pos_iff.mpr hne
  rw [length_slice] at hpos
  omega

theorem wholeSectors_image (h : ImageReadable came) : WholeSectors img (imageReadAt img came) := by
  intro c off _ _ hend
  obtain ⟨n, hn, hle⟩ := h c
  rw [imageReadAt, hn, Option.map_some, Nat.min_eq_right hle, Nat.min_eq_left (by omega)]

/-- A sector of a disc has a number of 32 bits. -/
theorem div_mod_of_near (hdisc : IsDisc img) (hnear : Near img off) (hoff : off % isoSector = 0) :
    isoSector * (off / isoSector % 2 ^ 32) = off := by
  have hlt : off < 2 ^ 43 := by
    rcases hnear with hle | hlt
    · obtain ⟨n, hn, hsize⟩ := hdisc
      rw [hsize, isoSector] at hle
      omega
    · exact hlt
  rw [isoSector] at hoff ⊢
  omega

theorem reads_disc (hdisc : IsDisc img) (attempt : ℕ → ℕ → Attempt) :
    Reads img (discReadAt img attempt) := by
  intro c off len b hnear hb
  rw [discReadAt] at hb
  split_ifs at hb with hlen haligned hsectors
  obtain rfl := Option.some.inj hb
  have hoff := div_mod_of_near hdisc hnear (not_not.mp haligned)
  rw [discReadSectors] at hsectors
  split_ifs at hsectors with hin
  rw [Nat.mul_add, hoff] at hin
  rw [hoff, length_slice]
  refine ⟨Nat.le_refl _, fun _ => ?_, rfl⟩
  rw [isoSector] at hin
  omega

theorem discReadLoop_of_done {attempt : ℕ → Attempt} {n i j : ℕ} (hj : j < n)
    (hdone : attempt (i + j) = .done) : discReadLoop attempt n i = true := by
  induction n generalizing i j with
  | zero => exact absurd hj (Nat.not_lt_zero j)
  | succ n ih =>
    rw [discReadLoop]
    split_ifs with hi
    · rfl
    · cases j with
      | zero => exact absurd hdone hi
      | succ j =>
        refine ih (Nat.lt_of_succ_lt_succ hj) ?_
        rwa [Nat.add_assoc, Nat.add_comm 1 j]

/-- A readable disc gives whatever lies inside of it, from the start of a sector on. -/
theorem discReadAt_of_readable (hdisc : IsDisc img) (h : DiscReadable attempt) (hlen : 0 < len)
    (hoff : off % isoSector = 0) (hend : off + len ≤ img.size) :
    discReadAt img attempt c off len = some (slice img.byte off len) := by
  have hlba := div_mod_of_near hdisc (.inl (by omega)) hoff
  obtain ⟨i, hi, hdone⟩ := h c
  have hin : isoSector * (off / isoSector % 2 ^ 32 + (len + isoSector - 1) / isoSector) ≤
      img.size := by
    rw [Nat.mul_add, hlba]
    obtain ⟨n, -, hsize⟩ := hdisc
    rw [hsize, isoSector] at hend ⊢
    rw [isoSector] at hoff
    omega
  have hloop : discReadLoop (attempt c) discReadTries 0 = true :=
    discReadLoop_of_done hi (by rwa [Nat.zero_add])
  rw [discReadAt, if_neg (by omega), if_neg (not_not.mpr hoff), discReadSectors, if_pos hin,
    if_pos hloop, hlba]

theorem wholeSectors_disc (hdisc : IsDisc img) (h : DiscReadable attempt) :
    WholeSectors img (discReadAt img attempt) :=
  fun _ _ _ hoff hend => discReadAt_of_readable hdisc h (by decide) hoff hend

/-! ### The loop that reads the executable -/

theorem execLoop_zero (m : Md5) (read : Reader) (c off : ℕ) (state : m.State) :
    execLoop m read c off 0 state = some state := by
  rw [execLoop, if_pos rfl]

/-- A read that gives something. -/
theorem execLoop_of_read {b : List UInt8} (hleft : 0 < left) (hb : b ≠ [])
    (h : read c off (min left raHashChunk) = some b) :
    execLoop m read c off left state =
      execLoop m read (c + 1) (off + b.length) (left - b.length) (m.append state b) := by
  rw [execLoop, if_neg (by omega), h]
  cases b with
  | nil => exact absurd rfl hb
  | cons x b => rfl

/-- A loop that ends well has read something first. -/
theorem exists_read_of_execLoop (hleft : 0 < left)
    (h : execLoop m read c off left state = some state') :
    ∃ b, read c off (min left raHashChunk) = some b ∧ b ≠ [] := by
  rw [execLoop, if_neg (by omega)] at h
  split at h
  next => cases h
  next => cases h
  next b bs hread => exact ⟨b :: bs, hread, List.cons_ne_nil b bs⟩

/-- **The loop** appends the bytes of the image, in whatever pieces they come; by induction on what
is left. -/
theorem execLoop_spec (hread : Reads img read) (hnear : Near img off) (hleft : 0 < left)
    (h : execLoop m read c off left state = some state') :
    off + left ≤ img.size ∧ ∃ chunks : List (List UInt8),
      state' = chunks.foldl m.append state ∧ chunks.flatten = slice img.byte off left := by
  induction left using Nat.strongRecOn generalizing c off state with
  | ind left ih =>
    obtain ⟨b, hb, hne⟩ := exists_read_of_execLoop hleft h
    obtain ⟨hlen, hend, hslice⟩ := hread _ _ _ _ hnear hb
    have hpos := List.length_pos_iff.mpr hne
    have hend := hend hne
    have hle : b.length ≤ left := Nat.le_trans hlen (Nat.min_le_left _ _)
    rw [execLoop_of_read hleft hne hb] at h
    rcases Nat.eq_zero_or_pos (left - b.length) with hzero | hmore
    · rw [hzero, execLoop_zero] at h
      obtain rfl := Option.some.inj h
      have hall : b.length = left := by omega
      refine ⟨by omega, [b], rfl, ?_⟩
      rw [List.flatten_cons, List.flatten_nil, List.append_nil, ← hall]
      exact hslice
    · obtain ⟨hend', chunks, hstate, hchunks⟩ :=
        ih (left - b.length) (by omega) (.inl hend) hmore h
      refine ⟨by omega, b :: chunks, hstate, ?_⟩
      rw [List.flatten_cons, hchunks, slice_split img.byte off hle, ← hslice]

/-- The loop reads everything, where each read at a `G` offset gives something and leads to one. -/
theorem execLoop_isSome {G : ℕ → Prop} (hread : Reads img read)
    (hprogress : ∀ c off len, G off → 0 < len → off + len ≤ img.size →
      ∃ b, read c off len = some b ∧ b ≠ [])
    (hnext : ∀ c off left b, G off → read c off (min left raHashChunk) = some b →
      b.length < left → off + left ≤ img.size → G (off + b.length))
    (hgood : G off) (hend : off + left ≤ img.size) :
    (execLoop m read c off left state).isSome := by
  induction left using Nat.strongRecOn generalizing c off state with
  | ind left ih =>
    rcases Nat.eq_zero_or_pos left with rfl | hleft
    · rw [execLoop_zero]
      rfl
    have hchunk : 0 < min left raHashChunk := Nat.lt_min.mpr ⟨hleft, by decide⟩
    obtain ⟨b, hb, hne⟩ := hprogress c off _ hgood hchunk (by omega)
    have hpos := List.length_pos_iff.mpr hne
    obtain ⟨hlen, -, -⟩ := hread _ _ _ _ (.inl (by omega)) hb
    rw [execLoop_of_read hleft hne hb]
    rcases Nat.lt_or_ge b.length left with hlt | hge
    · exact ih _ (by omega) (hnext c off left b hgood hb hlt hend) (by omega)
    · rw [show left - b.length = 0 by omega, execLoop_zero]
      rfl

theorem execLoop_isSome_image (h : ImageReadable came) (hend : off + left ≤ img.size) :
    (execLoop m (imageReadAt img came) c off left state).isSome := by
  refine execLoop_isSome (G := fun _ => True) (reads_image img came)
    (fun c off len _ hlen hend => ?_) (fun _ _ _ _ _ _ _ _ => trivial) trivial hend
  obtain ⟨n, hn, hle⟩ := h c
  refine ⟨slice img.byte off (min (min n len) (img.size - off)), ?_, ?_⟩
  · rw [imageReadAt, hn, Option.map_some]
  · refine List.ne_nil_of_length_pos ?_
    rw [length_slice]
    rw [isoSector] at hle
    omega

theorem execLoop_isSome_disc (hdisc : IsDisc img) (h : DiscReadable attempt)
    (hoff : off % isoSector = 0) (hend : off + left ≤ img.size) :
    (execLoop m (discReadAt img attempt) c off left state).isSome := by
  refine execLoop_isSome (G := fun off => off % isoSector = 0) (reads_disc hdisc attempt)
    (fun c off len hoff hlen hend => ?_) (fun c off left b hoff hb hlt hend => ?_) hoff hend
  · refine ⟨_, discReadAt_of_readable hdisc h hlen hoff hend, List.ne_nil_of_length_pos ?_⟩
    rw [length_slice]
    exact hlen
  · have hchunk : 0 < min left raHashChunk := Nat.lt_min.mpr ⟨by omega, by decide⟩
    rw [discReadAt_of_readable hdisc h hchunk hoff (by omega)] at hb
    obtain rfl := Option.some.inj hb
    rw [length_slice] at hlt ⊢
    rw [show min left raHashChunk = raHashChunk by omega, Nat.add_mod, hoff]
    rfl

/-! ### The root directory -/

theorem rootOf_lt {rootLba rootSize : ℕ} (h : rootOf img = some (rootLba, rootSize)) :
    rootLba < 2 ^ 32 ∧ rootSize < 2 ^ 32 := by
  rw [rootOf] at h
  split_ifs at h
  rw [rootRecord] at h
  split_ifs at h
  obtain ⟨rfl, rfl⟩ := Prod.mk.inj (Option.some.inj h)
  exact ⟨le32_lt _ _, le32_lt _ _⟩

theorem near_volume (img : Image) : Near img (16 * isoSector) := .inr (by decide)

/-- What is read as the root directory is the one of the image. -/
theorem rootOf_of_readRoot {root : ℕ × ℕ} (hread : Reads img read)
    (h : readRoot read = some root) : rootOf img = some root := by
  rw [readRoot] at h
  split at h
  next => cases h
  next pvd hpvd =>
    split_ifs at h with hlen
    obtain ⟨-, hend, hslice⟩ := hread _ _ _ _ (near_volume img) hpvd
    rw [not_not] at hlen
    have hin := hend (List.ne_nil_of_length_pos (by rw [hlen]; decide))
    rw [hlen] at hin hslice
    rw [rootOf, if_pos (by rw [isoSector] at hin ⊢; omega), ← hslice]
    exact h

theorem readRoot_eq (hread : Reads img read) (hwhole : WholeSectors img read) :
    readRoot read = rootOf img := by
  by_cases hin : 17 * isoSector ≤ img.size
  · have hpvd := hwhole 0 _ (near_volume img) (by decide) (by rw [isoSector] at hin ⊢; omega)
    rw [readRoot, hpvd, rootOf, if_pos hin]
    exact if_neg (not_not.mpr (length_slice ..))
  · cases hroot : readRoot read with
    | none => rw [rootOf, if_neg hin]
    | some root =>
      have hof := rootOf_of_readRoot hread hroot
      rw [rootOf, if_neg hin] at hof
      cases hof

/-! ### One reader -/

/-- **The hash of an entry** that was found: of an extent that can be read, in whatever pieces. -/
theorem hashEntry_ok {lba size : ℕ} {text : List UInt8} (hread : Reads img read)
    (hlba : lba < 2 ^ 32) (h : hashEntry m read startup (.entry lba size c) = .ok text) :
    isoSector * lba + size ≤ img.size ∧
      text = hexText (m.digest (startup ++ slice img.byte (isoSector * lba) size)) := by
  rw [hashEntry] at h
  split_ifs at h with hodd
  rw [not_or] at hodd
  split at h
  next => cases h
  next state hstate =>
    obtain rfl := Except.ok.inj h
    obtain ⟨hend, chunks, rfl, hchunks⟩ := execLoop_spec hread
      (.inr (by rw [isoSector]; omega)) (Nat.pos_of_ne_zero hodd.1) hstate
    refine ⟨hend, ?_⟩
    have hfinish := m.finish_foldl (startup :: chunks)
    rw [List.foldl_cons, List.flatten_cons, hchunks] at hfinish
    rw [hfinish]

/-- The reader gives every extent of the image that starts with a sector. -/
def WholeExtents (m : Md5) (img : Image) (read : Reader) : Prop :=
  ∀ c lba size state, isoSector * lba + size ≤ img.size →
    (execLoop m read c (isoSector * lba) size state).isSome

/-- With such a reader, it is the image that says how the entry is hashed. -/
theorem hashEntry_entry {lba size : ℕ} (hread : Reads img read) (hexec : WholeExtents m img read)
    (hlba : lba < 2 ^ 32) :
    hashEntry m read startup (.entry lba size c) =
      if size = 0 ∨ raHashMaxExec < size then .error (-4)
      else if isoSector * lba + size ≤ img.size then
        .ok (hexText (m.digest (startup ++ slice img.byte (isoSector * lba) size)))
      else .error (-5) := by
  by_cases hodd : size = 0 ∨ raHashMaxExec < size
  · rw [hashEntry, if_pos hodd, if_pos hodd]
  rw [if_neg hodd]
  by_cases hend : isoSector * lba + size ≤ img.size
  · obtain ⟨state, hstate⟩ :=
      Option.isSome_iff_exists.mp (hexec c lba size (m.append m.init startup) hend)
    have hok : hashEntry m read startup (.entry lba size c) = .ok (hexText (m.finish state)) := by
      rw [hashEntry, if_neg hodd, hstate]
    rw [if_pos hend, hok, (hashEntry_ok hread hlba hok).2]
  · cases hentry : hashEntry m read startup (.entry lba size c) with
    | ok text => exact absurd (hashEntry_ok hread hlba hentry).1 hend
    | error code =>
      rw [if_neg hend]
      rw [hashEntry, if_neg hodd] at hentry
      split at hentry
      next => exact hentry.symm
      next => cases hentry

theorem hashBootExec_terminates (hread : Reads img read) (h : ¬ EndlessImage img startup) :
    ∃ fuel, (hashBootExec m read startup fuel).isSome := by
  cases hroot : readRoot read with
  | none =>
    refine ⟨0, ?_⟩
    rw [hashBootExec, hroot]
    rfl
  | some root =>
    obtain ⟨rootLba, rootSize⟩ := root
    have hof := rootOf_of_readRoot hread hroot
    obtain ⟨hlba, hsize⟩ := rootOf_lt hof
    obtain ⟨fuel, hfuel⟩ := findEntry_ends hread hlba hsize
      (fun hendless => h ⟨rootLba, rootSize, hof, hendless⟩) 1
    refine ⟨fuel, ?_⟩
    rw [hashBootExec, hroot]
    dsimp only
    rwa [Option.isSome_map]

/-- **What is reported** is the hash of the executable. -/
theorem hash_of_hashBootExec {fuel : ℕ} {text : List UInt8} (hread : Reads img read)
    (h : hashBootExec m read startup fuel = some (.ok text)) :
    ∃ rootLba rootSize r, rootOf img = some (rootLba, rootSize) ∧
      First img rootLba rootSize startup r ∧ isoSector * r.lba + r.size ≤ img.size ∧
      text = hashOf m img startup r := by
  rw [hashBootExec] at h
  split at h
  next => cases Option.some.inj h
  next rootLba rootSize hroot =>
    have hof := rootOf_of_readRoot hread hroot
    obtain ⟨found, hfound, hentry⟩ := Option.map_eq_some_iff.mp h
    cases found with
    | entry lba size c =>
      obtain ⟨r, hfirst, rfl, rfl⟩ := findEntry_first hread (rootOf_lt hof).1 hfound
      have hlt := lba_lt_of_mem_directory hfirst.mem
      exact ⟨rootLba, rootSize, r, hof, hfirst, hashEntry_ok hread hlt hentry⟩
    | readFailed => cases hentry
    | missing => cases hentry

theorem hashesBoot (m : Md5) (hread : Reads img read) (h : ¬ EndlessImage img startup) :
    HashesBoot m img startup read where
  terminates := hashBootExec_terminates hread h
  first _ _ _ _ _ _ _ hlba hfound := by
    obtain ⟨r, hfirst, hr⟩ := findEntry_first hread hlba hfound
    exact ⟨r, hfirst, (inside_of_mem_directory hfirst.mem).1, hr⟩
  hash _ _ := hash_of_hashBootExec hread

/-! ### The disc and its image -/

/-- A read that fails is the one of a sector that the image does not have. -/
theorem exists_not_inImage {rootLba rootSize fuel : ℕ} (hread : Reads img read)
    (hwhole : WholeSectors img read) (hlba : rootLba < 2 ^ 32)
    (h : findEntry read startup rootLba rootSize fuel 0 c = some .readFailed) :
    ∃ j, ¬ InImage img rootLba j ∧ ∀ i < j, entryAt img startup rootLba rootSize i = none := by
  cases ends_of_findEntry hread (at_zero hlba) h with
  | readFailed j c hj hnear hsector hbefore =>
    exact ⟨j, fun hin => hsector (hwhole.readsSector hnear hin), hbefore⟩

/-- **The executable that is there is hashed.** -/
theorem hashBootExec_eq {rootLba rootSize fuel : ℕ} (hread : Reads img read)
    (hwhole : WholeSectors img read) (hexec : WholeExtents m img read)
    (hof : rootOf img = some (rootLba, rootSize)) (hfirst : First img rootLba rootSize startup r)
    (hin : InImage img rootLba (r.pos / isoSector)) (hpos : 0 < r.size)
    (hmax : r.size ≤ raHashMaxExec) (hend : isoSector * r.lba + r.size ≤ img.size)
    (hends : (hashBootExec m read startup fuel).isSome) :
    hashBootExec m read startup fuel = some (.ok (hashOf m img startup r)) := by
  have hlba := (rootOf_lt hof).1
  rw [hashBootExec, readRoot_eq hread hwhole, hof] at hends ⊢
  dsimp only at hends ⊢
  rw [Option.isSome_map] at hends
  obtain ⟨found, hfound⟩ := Option.isSome_iff_exists.mp hends
  rw [hfound, Option.map_some]
  cases found with
  | entry lba size c =>
    obtain ⟨r', hfirst', rfl, rfl⟩ := findEntry_first hread hlba hfound
    obtain rfl := hfirst.unique hfirst'
    rw [hashEntry_entry hread hexec (lba_lt_of_mem_directory hfirst.mem), if_neg (by omega),
      if_pos hend]
    rfl
  | readFailed =>
    obtain ⟨j, hout, hbefore⟩ := exists_not_inImage hread hwhole hlba hfound
    have hentry := entryAt_ne_none hfirst.mem hfirst.sameName
    have hle : j ≤ r.pos / isoSector := Nat.le_of_not_lt fun hlt => hentry (hbefore _ hlt)
    exact absurd (hin.mono hle) hout
  | missing => exact absurd hfirst.sameName (findEntry_missing hread hlba hfound r hfirst.mem)

/-- Two such readers give the same. -/
theorem hashBootExec_congr {read' : Reader} (hread : Reads img read)
    (hwhole : WholeSectors img read) (hexec : WholeExtents m img read)
    (hread' : Reads img read') (hwhole' : WholeSectors img read')
    (hexec' : WholeExtents m img read') (fuel : ℕ) :
    hashBootExec m read startup fuel = hashBootExec m read' startup fuel := by
  rw [hashBootExec, hashBootExec, readRoot_eq hread hwhole, readRoot_eq hread' hwhole']
  cases hof : rootOf img with
  | none => rfl
  | some root =>
    obtain ⟨rootLba, rootSize⟩ := root
    have hlba := (rootOf_lt hof).1
    dsimp only
    have hsame := findEntry_congr hread hwhole hread' hwhole'
      (@at_zero img startup rootLba rootSize hlba) fuel 1
    rw [Nat.mul_zero] at hsame
    rw [hsame]
    cases hfound : findEntry read' startup rootLba rootSize fuel 0 1 with
    | none => rfl
    | some found =>
      rw [Option.map_some, Option.map_some]
      cases found with
      | entry lba size c =>
        obtain ⟨r, hfirst, rfl, rfl⟩ := findEntry_first hread' hlba hfound
        have hlt := lba_lt_of_mem_directory hfirst.mem
        rw [hashEntry_entry hread hexec hlt, hashEntry_entry hread' hexec' hlt]
      | readFailed => rfl
      | missing => rfl

theorem wholeExtents_image (h : ImageReadable came) :
    WholeExtents m img (imageReadAt img came) :=
  fun _ _ _ _ hend => execLoop_isSome_image h hend

theorem wholeExtents_disc (hdisc : IsDisc img) (h : DiscReadable attempt) :
    WholeExtents m img (discReadAt img attempt) :=
  fun _ _ _ _ hend => execLoop_isSome_disc hdisc h (Nat.mul_mod_right ..) hend

/-- What is hashed through the driver is the executable. -/
theorem romHash_eq {rom : Option RomFile} {text : List UInt8} (hrom : RomReads img startup rom)
    (h : romHash m rom startup = some text) :
    ∃ rootLba rootSize r, rootOf img = some (rootLba, rootSize) ∧
      First img rootLba rootSize startup r ∧ InImage img rootLba (r.pos / isoSector) ∧
      0 < r.size ∧ r.size ≤ raHashMaxExec ∧ isoSector * r.lba + r.size ≤ img.size ∧
      text = hashOf m img startup r := by
  obtain ⟨f, rfl, hf⟩ := Option.bind_eq_some_iff.mp h
  split_ifs at hf with haccepted
  obtain ⟨state, hstate, rfl⟩ := Option.map_eq_some_iff.mp hf
  obtain ⟨hpos, hmax, -⟩ := haccepted
  obtain ⟨rootLba, rootSize, r, hof, hfirst, hin, hsize, hend, hreads⟩ := hrom f rfl hpos hmax
  rw [hsize] at hpos hmax
  have hpos' : 0 < r.size := Int.natCast_pos.mp hpos
  refine ⟨rootLba, rootSize, r, hof, hfirst, hin, hpos', Int.ofNat_le.mp hmax, hend, ?_⟩
  rw [hsize, Int.toNat_natCast] at hstate
  obtain ⟨-, chunks, rfl, hchunks⟩ := execLoop_spec hreads (.inr (by decide)) hpos' hstate
  have hfinish := m.finish_foldl (startup :: chunks)
  rw [List.foldl_cons, List.flatten_cons, hchunks] at hfinish
  have hcontent : slice (r.file img).byte 0 r.size = r.content img :=
    slice_congr fun i _ => by rw [Nat.zero_add]; rfl
  rw [hfinish, hcontent, hashOf]

/-- **The disc and its image** have the same hash. -/
theorem same_of_not_endless {rom : Option RomFile} (m : Md5) (h : ¬ EndlessImage img startup)
    (hdisc : IsDisc img) (hcame : ImageReadable came) (hattempt : DiscReadable attempt)
    (hrom : RomReads img startup rom) : ∃ fuel result,
      raHashIsoDirect m img true came startup fuel = some result ∧
      raHashDisc m img rom attempt startup fuel = some result := by
  have hread := reads_image img came
  obtain ⟨fuel, hfuel⟩ := hashBootExec_terminates (m := m) hread h
  cases hdriver : romHash m rom startup with
  | none =>
    obtain ⟨result, hresult⟩ := Option.isSome_iff_exists.mp hfuel
    refine ⟨fuel, result, hresult, ?_⟩
    rw [raHashDisc, hdriver, ← hresult]
    exact hashBootExec_congr (reads_disc hdisc attempt) (wholeSectors_disc hdisc hattempt)
      (wholeExtents_disc hdisc hattempt) hread (wholeSectors_image hcame)
      (wholeExtents_image hcame) fuel
  | some text =>
    obtain ⟨rootLba, rootSize, r, hof, hfirst, hin, hpos, hmax, hend, rfl⟩ :=
      romHash_eq hrom hdriver
    refine ⟨fuel, .ok (hashOf m img startup r), ?_, ?_⟩
    · exact hashBootExec_eq hread (wholeSectors_image hcame) (wholeExtents_image hcame) hof hfirst
        hin hpos hmax hend hfuel
    · rw [raHashDisc, hdriver]

/-! ### The images that are hashed -/

theorem not_terminates_of_endless (hread : Reads img read) (hwhole : WholeSectors img read)
    (h : EndlessImage img startup) (fuel : ℕ) : hashBootExec m read startup fuel = none := by
  obtain ⟨rootLba, rootSize, hof, hendless⟩ := h
  rw [hashBootExec, readRoot_eq hread hwhole, hof]
  dsimp only
  rw [findEntry_endless hwhole (rootOf_lt hof).1 hendless fuel 1]
  rfl

/-- **The hash of an image.** Whatever reads give, the hash comes to its end and is the one of the
boot executable, and a disc has the hash of its image, exactly when the root directory is not one
that does not end. -/
theorem hashesImage_iff (m : Md5) (img : Image) (startup : List UInt8) :
    HashesImage m img startup ↔ ¬ EndlessImage img startup := by
  constructor
  · intro h hendless
    have hreadable : ImageReadable fun _ => some isoSector :=
      fun _ => ⟨isoSector, rfl, Nat.le_refl _⟩
    obtain ⟨fuel, hfuel⟩ := (h.image fun _ => some isoSector).terminates
    rw [not_terminates_of_endless (reads_image img _) (wholeSectors_image hreadable) hendless]
      at hfuel
    exact Bool.noConfusion hfuel
  · intro h
    exact ⟨fun came => hashesBoot m (reads_image img came) h,
      fun hdisc attempt => hashesBoot m (reads_disc hdisc attempt) h,
      fun hdisc _ _ _ => same_of_not_endless m h hdisc⟩

/-- `"SLUS_210.65"` -/
def slus : List UInt8 := [83, 76, 85, 83, 95, 50, 49, 48, 46, 54, 53]

/-- A volume descriptor with a root directory of one sector, sector 18. -/
def bootVolume : List UInt8 :=
  [1, 67, 68, 48, 48, 49] ++ List.replicate 152 0 ++ [18, 0, 0, 0, 0, 0, 0, 0, 0, 8, 0, 0]

/-- The record of `"SLUS_210.65;1"`: 5 bytes, at sector 19. -/
def bootRecord : List UInt8 :=
  [46, 0, 19, 0, 0, 0, 0, 0, 0, 0, 5, 0, 0, 0] ++ List.replicate 18 0 ++ [13] ++ slus ++ [59, 49]

/-- The executable. -/
def bootFile : List UInt8 := [127, 69, 76, 70, 1]

/-- An image of 20 sectors with these three. -/
def bootImage : Image where
  size := 20 * isoSector
  byte p :=
    if p < 16 * isoSector then 0
    else if p < 18 * isoSector then bootVolume.getD (p - 16 * isoSector) 0
    else if p < 19 * isoSector then bootRecord.getD (p - 18 * isoSector) 0
    else bootFile.getD (p - 19 * isoSector) 0

/-- The descriptor and the directory come in one piece, the executable in pieces of two bytes. -/
def shortReads (c : ℕ) : Option ℕ := some (if c < 2 then isoSector else 2)

theorem hashesImage_bootImage :
    HashesImage Md5.plain bootImage slus ∧
      raHashIsoDirect Md5.plain bootImage true shortReads slus 2 =
        some (.ok (hexText (slus ++ bootFile))) ∧
      raHashDisc Md5.plain bootImage none (fun _ _ => .done) slus 2 =
        some (.ok (hexText (slus ++ bootFile))) := by
  refine ⟨(hashesImage_iff _ _ _).mpr ?_, by decide +kernel, by decide +kernel⟩
  have hroot : rootOf bootImage = some (18, isoSector) := by decide +kernel
  rintro ⟨rootLba, rootSize, hof, hhuge, -⟩
  obtain ⟨-, rfl⟩ := Prod.mk.inj (Option.some.inj (hroot.symm.trans hof))
  exact absurd hhuge (by decide)

/-! ### A root directory that does not end -/

/-- A volume descriptor with a root directory at sector 100, of 2³² − 1 bytes. -/
def hugeRoot : List UInt8 :=
  [1, 67, 68, 48, 48, 49] ++ List.replicate 152 0 ++ [100, 0, 0, 0, 0, 0, 0, 0, 255, 255, 255, 255]

/-- An image of 8 GiB, which is zero behind the volume descriptor. -/
def hugeImage : Image where
  size := 2 ^ 33
  byte p := if p < 16 * isoSector then 0 else hugeRoot.getD (p - 16 * isoSector) 0

theorem rootOf_hugeImage : rootOf hugeImage = some (100, 2 ^ 32 - 1) := by
  have hfield : ∀ q n, q + n ≤ isoSector →
      field (slice hugeImage.byte (16 * isoSector) isoSector) q n =
        slice hugeImage.byte (16 * isoSector + q) n := by
    intro q n h
    rw [field, drop_slice _ _ (by omega), take_slice _ _ (by omega)]
  rw [rootOf, if_pos (by decide), rootRecord, le32, le32, hfield 1 5 (by decide),
    hfield 158 4 (by decide), hfield 166 4 (by decide)]
  decide +kernel

theorem length_hugeRoot : hugeRoot.length = 170 := by
  rw [hugeRoot, List.length_append, List.length_append, List.length_replicate]
  rfl

/-- The sectors of the directory have no record. -/
theorem directory_hugeImage : directory hugeImage 100 (2 ^ 32 - 1) = [] := by
  refine List.flatMap_eq_nil_iff.mpr fun i _ => ?_
  have hzero : recordLength (sectorOf hugeImage 100 i) 0 = 0 := by
    have hbyte : hugeImage.byte (isoSector * 100 + isoSector * i + 0) = 0 := by
      have hbehind : ¬ isoSector * 100 + isoSector * i + 0 < 16 * isoSector := by
        rw [isoSector]
        omega
      refine (if_neg hbehind).trans (List.getD_eq_default _ _ ?_)
      rw [length_hugeRoot, isoSector]
      omega
    rw [recordLength, sectorOf, slice_split _ _ (show 1 ≤ isoSector by decide)]
    exact congrArg UInt8.toNat hbyte
  rw [sectorRecords, hzero]
  simp

/-- **The image is not hashed**: the walk goes round and round. -/
theorem not_hashesImage_endless : ¬ HashesImage Md5.plain hugeImage slus := by
  intro h
  refine (hashesImage_iff _ _ _).mp h ⟨100, 2 ^ 32 - 1, rootOf_hugeImage, by decide, by decide, ?_⟩
  rw [directory_hugeImage]
  exact fun _ hx => absurd hx List.not_mem_nil

end RaHash

end OpenPS2Loader
