import Mathlib.Data.Int.Notation
import Mathlib.Data.List.Basic
import Mathlib.Logic.Function.Basic
import Mathlib.Tactic.SplitIfs

/-!
# Equipping a BDMA driver pair

`vcdEquipBdma` of `src/vcdsupport.c`, with `vcdSafeCopyFile`, `vcdSafeWriteFile` and the marker.
POPStarter loads its block device driver from two files on the memory card. Equipping a variant
stages both files of the variant on the card, commits them over the live pair one after the other,
and records the variant in the marker; the FAT32 variant is no pair at all.

Every call of the file system and of the card can fail on its own, and what they return is an input
here: `CopyEnv` and `WriteEnv` are what one copy and one write get to see. Only `unlink` does what
it is asked to. A `read` that does not fail returns at least one byte while there are any, and the
same for a `write`.

## What is left out

Which of the two cards holds the `POPSTARTER` folder, how the paths of the source files are put
together, and the loading of the source device's modules: `Env.pre` and `Env.family` are the folders
that are probed, in order.

## Main definitions

* `safeCopyFile`, `safeWriteFile`, `writeBdmaMarker`, `readBdmaMode`
* `vcdEquipBdma`
* `Sound` — no torn pair and no pair with a wrong marker
* `Labelled` — the marker write does not leave a wrong marker behind

## Main results

* `safeCopyFile_of_copies`, `safeCopyFile_of_not_copies`, `writeBdmaMarker_cases`
* `sound_iff` — the runs that leave the card sound
-/

namespace OpenPS2Loader

namespace Bdma

/-! ### Writing to the card -/

/-- `VCD_COPY_MARGIN`. -/
def copyMargin : ℤ := 16 * 1024

/-- `VCD_COPY_CHUNK`. -/
def copyChunk : ℕ := 16 * 1024

/-- `vcdMcHasSpace`, from what `vcdMcFreeBytes` says: negative when it cannot tell. -/
def mcHasSpace (freeBytes needBytes : ℤ) : ℤ :=
  if freeBytes < 0 then -1 else if freeBytes ≥ needBytes + copyMargin then 1 else 0

/-- What the calls of a `vcdSafeCopyFile` return. `none` is an error of `read` or `write`, and
`some n` a call that is good for `n` bytes. -/
structure CopyEnv where
  openSrc : Bool
  /-- `SEEK_END` is supported. -/
  seekEnd : Bool
  seekSet : Bool
  freeBytes : ℤ
  malloc : Bool
  openDst : Bool
  reads : ℕ → Option ℕ
  writes : ℕ → Option ℕ

/-- What the calls of a `vcdSafeWriteFile` return. -/
structure WriteEnv where
  freeBytes : ℤ
  openDst : Bool
  writes : ℕ → Option ℕ

/-- The loop that writes `data` behind `out`, from the `i`-th call of `write` on: what is in the
file afterwards, the next call, and whether all of `data` is. -/
def writeLoop (writes : ℕ → Option ℕ) (i : ℕ) (data out : List UInt8) : List UInt8 × ℕ × Bool :=
  if data = [] then (out, i, true)
  else
    match writes i with
    | none => (out, i + 1, false)
    | some w =>
      writeLoop writes (i + 1) (data.drop (max 1 w)) (out ++ data.take (max 1 w))
  termination_by data.length
  decreasing_by
    have := List.length_pos_iff.mpr ‹¬ data = []›
    simp only [List.length_drop]
    omega

/-- The loop of `vcdSafeCopyFile` over the chunks of the source, with `rest` still to be read. -/
def copyLoop (e : CopyEnv) (r i : ℕ) (rest out : List UInt8) : List UInt8 × Bool :=
  match e.reads r with
  | none => (out, false)
  | some n =>
    if rest = [] then (out, true)
    else
      let chunk := min copyChunk (max 1 n)
      match writeLoop e.writes i (rest.take chunk) out with
      | (out, _, false) => (out, false)
      | (out, i, true) => copyLoop e (r + 1) i (rest.drop chunk) out
  termination_by rest.length
  decreasing_by
    have := List.length_pos_iff.mpr ‹¬ rest = []›
    simp only [List.length_drop, copyChunk]
    omega

/-- The files of the card that are concerned. -/
inductive CardFile
  | usbd
  | usbhdfsd
  /-- `usbd.irx.new` -/
  | usbdNew
  /-- `usbhdfsd.irx.new` -/
  | usbhdfsdNew
  /-- `bdma_config.txt` -/
  | marker
  deriving DecidableEq, Repr

/-- What the files hold, `none` where there is no file. -/
abbrev Card := CardFile → Option (List UInt8)

/-- `unlink`. -/
def Card.unlink (c : Card) (f : CardFile) : Card := Function.update c f none

/-- A file that was written completely. -/
def Card.store (c : Card) (f : CardFile) (bytes : List UInt8) : Card :=
  Function.update c f (some bytes)

/-- `srcSize`: `0` where `SEEK_END` is not supported. -/
def CopyEnv.srcSize (e : CopyEnv) (bytes : List UInt8) : ℤ := if e.seekEnd then bytes.length else 0

/-- `vcdSafeCopyFile` of a file with these contents to the card. -/
def safeCopyFile (e : CopyEnv) (src : Option (List UInt8)) (dst : CardFile) (c : Card) : ℤ × Card :=
  match src with
  | none => (-1, c)
  | some bytes =>
    if e.openSrc = false then (-1, c)
    else if e.seekEnd = true ∧ e.seekSet = false then (-1, c)
    else if mcHasSpace e.freeBytes (e.srcSize bytes) = 0 then (-2, c)
    else if e.malloc = false then (-3, c)
    else if e.openDst = false then (-3, c)
    else
      match copyLoop e 0 0 bytes [] with
      | (out, true) => (0, c.store dst out)
      | (_, false) => (-3, c.unlink dst)

/-- `vcdSafeWriteFile`. -/
def safeWriteFile (e : WriteEnv) (dst : CardFile) (bytes : List UInt8) (c : Card) : ℤ × Card :=
  if mcHasSpace e.freeBytes bytes.length = 0 then (-2, c)
  else if e.openDst = false then (-3, c)
  else
    match writeLoop e.writes 0 bytes [] with
    | (out, _, true) => (0, c.store dst out)
    | (_, _, false) => (-3, c.unlink dst)

/-! ### The variants and the marker -/

/-- `VCD_BDMA_*`. -/
inductive Mode
  | fat32
  | usbexfat
  | mx4sio
  | mmce
  | ata
  | ilink
  deriving DecidableEq, Repr

/-- The modes in the order of their numbers. -/
def modes : List Mode := [.fat32, .usbexfat, .mx4sio, .mmce, .ata, .ilink]

/-- `vcdBdmaSuffix`. -/
def Mode.suffix : Mode → String
  | .fat32 => "fat32"
  | .usbexfat => "usbexfat"
  | .mx4sio => "mx4sio"
  | .mmce => "mmce"
  | .ata => "ata"
  | .ilink => "ilink"

/-- The suffix as the marker holds it. -/
def Mode.token (m : Mode) : List UInt8 := m.suffix.toList.map fun ch => .ofNat ch.toNat

/-- `VCD_BDMA_SRC_*`. -/
inductive Source
  | usb
  | mx4sio
  | mmce
  | hdd
  | ilink
  deriving DecidableEq, Repr

/-- The sources in the order of their numbers. -/
def sources : List Source := [.usb, .mx4sio, .mmce, .hdd, .ilink]

/-- The element with this number, `none` when it is out of range. -/
def ofInt {α : Type*} (xs : List α) (n : ℤ) : Option α := if n < 0 then none else xs[n.toNat]?

/-- `vcdReadBdmaMode`, from the marker: 31 bytes of it, without the white space at the end and up to
a zero byte. -/
def readBdmaMode (marker : Option (List UInt8)) : Mode :=
  match marker with
  | none => .fat32
  | some bytes =>
    let buf := bytes.take 31
    if buf = [] then .fat32
    else
      let trimmed := (buf.reverse.dropWhile fun b => b = 10 ∨ b = 13 ∨ b = 32 ∨ b = 9).reverse
      (modes.find? fun m => trimmed.takeWhile (· ≠ 0) = m.token).getD .fat32

/-- `vcdWriteBdmaMarker`. -/
def writeBdmaMarker (e : WriteEnv) (m : Mode) (c : Card) : ℤ × Card :=
  safeWriteFile e .marker m.token c

/-! ### Equipping -/

/-- A folder that is probed for the two files of a variant. -/
structure Folder where
  /-- The device, as the message names it. -/
  root : String
  usbd : Mode → Option (List UInt8)
  usbhdfsd : Mode → Option (List UInt8)
  /-- The probing `open`s succeed on files that are there. -/
  probe : Bool × Bool

/-- What `vcdEquipBdma` runs on. -/
structure Env where
  /-- `vcdResolvePopstarterMc` finds or makes the folder on a card. -/
  mc : Bool
  /-- The folders of the pre-probe. -/
  pre : List Folder
  /-- The folders of the devices of a source family. -/
  family : Source → List Folder
  stage : CopyEnv × CopyEnv
  commit : CopyEnv × CopyEnv
  marker : WriteEnv

/-- Both files of the variant are in the folder and can be opened. -/
def Folder.find (f : Folder) (m : Mode) : Option (List UInt8 × List UInt8) :=
  match f.usbd m, f.usbhdfsd m with
  | some a, some b => if f.probe.1 ∧ f.probe.2 then some (a, b) else none
  | _, _ => none

/-- The pair that is equipped: the first one found. -/
def Env.variant (e : Env) (s : Source) (m : Mode) : Option (List UInt8 × List UInt8) :=
  (e.pre ++ e.family s).findSome? (·.find m)

/-- What `vcdEquipBdma` returns, writes to `diag`, and leaves on the card. -/
structure Result where
  rc : ℤ
  diag : String
  card : Card

/-- The message when no folder has the pair. -/
def notFound (m : Mode) (folders : List Folder) : String :=
  let searched := ((folders.head?).map Folder.root).getD "no matching device"
  "Need usbd.irx." ++ m.suffix ++ " + usbhdfsd.irx." ++ m.suffix ++
    " in a device POPS/ folder; searched " ++ searched ++ "."

/-- Staging both files next to the live pair. -/
def stagePair (e : Env) (v : List UInt8 × List UInt8) (c : Card) : ℤ × Card :=
  let c := (c.unlink .usbdNew).unlink .usbhdfsdNew
  let (r, c) := safeCopyFile e.stage.1 (some v.1) .usbdNew c
  if r = 0 then safeCopyFile e.stage.2 (some v.2) .usbhdfsdNew c else (r, c)

/-- Committing the staged files by copy. -/
def commitPair (e : Env) (c : Card) : ℤ × Card :=
  let c := c.unlink .usbd
  let (r, c) := safeCopyFile e.commit.1 (c .usbdNew) .usbd c
  if r = 0 then
    let c := c.unlink .usbhdfsd
    safeCopyFile e.commit.2 (c .usbhdfsdNew) .usbhdfsd c
  else (r, c)

/-- `vcdEquipBdma` of a variant that was found. -/
def equipPair (e : Env) (m : Mode) (v : List UInt8 × List UInt8) (c : Card) : ℤ × Card :=
  let (r, c) := stagePair e v c
  if r ≠ 0 then (r, (c.unlink .usbdNew).unlink .usbhdfsdNew)
  else
    let (r, c) := commitPair e c
    let c := (c.unlink .usbdNew).unlink .usbhdfsdNew
    if r ≠ 0 then
      -- back to no pair; what the marker write returns is not looked at
      (r, (writeBdmaMarker e.marker .fat32 ((c.unlink .usbd).unlink .usbhdfsd)).2)
    else writeBdmaMarker e.marker m c

/-- `vcdEquipBdma`. -/
def vcdEquipBdma (e : Env) (source mode : ℤ) (c : Card) : Result :=
  match ofInt modes mode, ofInt sources source with
  | some m, some s =>
    if e.mc = false then ⟨-3, "No writable PS2 memory card is available.", c⟩
    else if m = .fat32 then
      let (r, c) := writeBdmaMarker e.marker .fat32 ((c.unlink .usbd).unlink .usbhdfsd)
      ⟨r, "", c⟩
    else
      match e.variant s m with
      | none => ⟨-4, notFound m (e.family s), c⟩
      | some v =>
        let (r, c) := equipPair e m v c
        ⟨r, "", c⟩
  | _, _ => ⟨-1, "", c⟩

/-! ### What should be on the card -/

/-- The live pair. -/
def Card.pair (c : Card) : Option (List UInt8) × Option (List UInt8) := (c .usbd, c .usbhdfsd)

/-- The marker and the pair agree: no pair when it reads as FAT32, and a pair otherwise. -/
def Card.Agrees (c : Card) : Prop :=
  if readBdmaMode (c .marker) = .fat32 then c.pair = (none, none)
  else (c .usbd).isSome = true ∧ (c .usbhdfsd).isSome = true

/-- The pair and the marker are those from before. -/
def Kept (c c' : Card) : Prop := c'.pair = c.pair ∧ c' .marker = c .marker

/-- The card holds the pair that was found, and the marker says so. -/
def Equipped (e : Env) (source mode : ℤ) (c' : Card) : Prop :=
  ∃ s m v, ofInt sources source = some s ∧ ofInt modes mode = some m ∧ m ≠ .fat32 ∧
    e.variant s m = some v ∧ c'.pair = (some v.1, some v.2) ∧ readBdmaMode (c' .marker) = m

/-- There is no pair, and the marker reads as FAT32. -/
def Bare (c' : Card) : Prop := c'.pair = (none, none) ∧ readBdmaMode (c' .marker) = .fat32

/-- What `vcdEquipBdma` should come to: it leaves the old pair with the old marker, the new pair
with the new marker, or no pair with a marker that reads as FAT32; and it returns `0` only when
that is what was asked for. -/
def SoundResult (e : Env) (source mode : ℤ) (c : Card) (r : Result) : Prop :=
  (Kept c r.card ∨ Equipped e source mode r.card ∨ Bare r.card) ∧
    (r.rc = 0 → Equipped e source mode r.card ∨
      (ofInt modes mode = some .fat32 ∧ Bare r.card))

/-- `vcdEquipBdma` leaves the card as it should. -/
def Sound (e : Env) (source mode : ℤ) (c : Card) : Prop :=
  SoundResult e source mode c (vcdEquipBdma e source mode c)

/-! ### One copy, one write -/

variable {e : Env} {c c' : Card} {dst : CardFile}

/-- What was written when every `write` was good. -/
theorem writeLoop_eq (writes : ℕ → Option ℕ) (i : ℕ) (data out : List UInt8)
    (h : (writeLoop writes i data out).2.2 = true) :
    (writeLoop writes i data out).1 = out ++ data := by
  fun_induction writeLoop writes i data out with
  | case1 => simp
  | case2 => cases h
  | case3 i data out hne w hw ih =>
    rw [ih h, List.append_assoc, List.take_append_drop]

/-- What was copied when every `read` and `write` was good. -/
theorem copyLoop_eq {e : CopyEnv} {r i : ℕ} {rest out : List UInt8}
    (h : (copyLoop e r i rest out).2 = true) : (copyLoop e r i rest out).1 = out ++ rest := by
  fun_induction copyLoop e r i rest out with
  | case1 => cases h
  | case2 => simp
  | case3 => cases h
  | case4 r i rest out n hr hne chunk out' i' hw ih =>
    have hout := writeLoop_eq e.writes i (rest.take chunk) out
    rw [hw] at hout
    simp only at hout
    rw [ih h, hout trivial, List.append_assoc, List.take_append_drop]

/-- Every call of a `vcdSafeCopyFile` of these bytes is good. -/
def Copies (e : CopyEnv) (bytes : List UInt8) : Prop :=
  e.openSrc = true ∧ ¬ (e.seekEnd = true ∧ e.seekSet = false) ∧
    mcHasSpace e.freeBytes (e.srcSize bytes) ≠ 0 ∧ e.malloc = true ∧
    e.openDst = true ∧ (copyLoop e 0 0 bytes []).2 = true

instance (e : CopyEnv) (bytes : List UInt8) : Decidable (Copies e bytes) :=
  inferInstanceAs (Decidable (_ ∧ _))

/-- The write is turned down before the file is touched. -/
def Refuses (e : WriteEnv) (bytes : List UInt8) : Prop :=
  mcHasSpace e.freeBytes bytes.length = 0 ∨ e.openDst = false

/-- Every call of a `vcdSafeWriteFile` of these bytes is good. -/
def Writes (e : WriteEnv) (bytes : List UInt8) : Prop :=
  ¬ Refuses e bytes ∧ (writeLoop e.writes 0 bytes []).2.2 = true

instance (e : WriteEnv) (bytes : List UInt8) : Decidable (Refuses e bytes) :=
  inferInstanceAs (Decidable (_ ∨ _))

instance (e : WriteEnv) (bytes : List UInt8) : Decidable (Writes e bytes) :=
  inferInstanceAs (Decidable (_ ∧ _))

theorem safeCopyFile_of_copies {e : CopyEnv} {bytes : List UInt8} (h : Copies e bytes) :
    safeCopyFile e (some bytes) dst c = (0, c.store dst bytes) := by
  obtain ⟨hopen, hseek, hspace, hmalloc, hdst, hloop⟩ := h
  have hout := copyLoop_eq hloop
  simp only [safeCopyFile, hopen, hseek, hspace, hmalloc, hdst, Bool.true_eq_false, if_false]
  rcases hrun : copyLoop e 0 0 bytes [] with ⟨out, ok⟩
  rw [hrun] at hloop hout
  simp only [List.nil_append] at hloop hout
  subst hloop hout
  rfl

/-- A copy that does not go through leaves the card as it was, or removes the file. -/
theorem safeCopyFile_of_not_copies {e : CopyEnv} {bytes : List UInt8} (h : ¬ Copies e bytes) :
    (safeCopyFile e (some bytes) dst c).1 ≠ 0 ∧
      ((safeCopyFile e (some bytes) dst c).2 = c ∨
        (safeCopyFile e (some bytes) dst c).2 = c.unlink dst) := by
  rw [safeCopyFile]
  split_ifs with hopen hseek hspace hmalloc hdst
  · exact ⟨by simp, Or.inl rfl⟩
  · exact ⟨by simp, Or.inl rfl⟩
  · exact ⟨by simp, Or.inl rfl⟩
  · exact ⟨by simp, Or.inl rfl⟩
  · exact ⟨by simp, Or.inl rfl⟩
  · rcases hrun : copyLoop e 0 0 bytes [] with ⟨out, _ | _⟩
    · exact ⟨by simp, Or.inr rfl⟩
    · exact absurd ⟨by simpa using hopen, hseek, hspace, by simpa using hmalloc,
        by simpa using hdst, by rw [hrun]⟩ h

/-- The marker write goes through, is turned down, or removes the marker. -/
theorem writeBdmaMarker_cases (e : WriteEnv) (m : Mode) (c : Card) :
    (Writes e m.token ∧
        writeBdmaMarker e m c = (0, c.store .marker m.token)) ∨
      (Refuses e m.token ∧ (writeBdmaMarker e m c).1 ≠ 0 ∧ (writeBdmaMarker e m c).2 = c) ∨
      (¬ Refuses e m.token ∧ ¬ Writes e m.token ∧
        writeBdmaMarker e m c = (-3, c.unlink .marker)) := by
  rw [writeBdmaMarker, safeWriteFile]
  split_ifs with hspace hdst
  · exact Or.inr (Or.inl ⟨Or.inl hspace, by simp, rfl⟩)
  · exact Or.inr (Or.inl ⟨Or.inr hdst, by simp, rfl⟩)
  · have hnot : ¬ Refuses e m.token := fun h => h.elim hspace hdst
    have hout := writeLoop_eq e.writes 0 m.token []
    rcases hrun : writeLoop e.writes 0 m.token [] with ⟨out, i, _ | _⟩
    · refine Or.inr (Or.inr ⟨hnot, fun h => ?_, rfl⟩)
      have := h.2
      rw [hrun] at this
      cases this
    · rw [hrun] at hout
      simp only [List.nil_append] at hout
      rw [hout trivial]
      exact Or.inl ⟨⟨hnot, by rw [hrun]⟩, rfl⟩

/-! ### Staging and committing -/

variable {m : Mode} {v : List UInt8 × List UInt8} {source mode : ℤ}

/-- Both files of the variant reach the card. -/
def Staged (e : Env) (v : List UInt8 × List UInt8) : Prop :=
  Copies e.stage.1 v.1 ∧ Copies e.stage.2 v.2

/-- Both staged files replace the live ones. -/
def Committed (e : Env) (v : List UInt8 × List UInt8) : Prop :=
  Copies e.commit.1 v.1 ∧ Copies e.commit.2 v.2

instance (e : Env) (v : List UInt8 × List UInt8) : Decidable (Staged e v) :=
  inferInstanceAs (Decidable (_ ∧ _))

instance (e : Env) (v : List UInt8 × List UInt8) : Decidable (Committed e v) :=
  inferInstanceAs (Decidable (_ ∧ _))

theorem Card.unlink_of_ne (c : Card) {f g : CardFile} (h : g ≠ f) : c.unlink f g = c g := by
  rw [Card.unlink, Function.update_of_ne h]

theorem kept_of_eq (hu : c' .usbd = c .usbd) (hh : c' .usbhdfsd = c .usbhdfsd)
    (hm : c' .marker = c .marker) : Kept c c' := by
  refine ⟨?_, hm⟩
  rw [Card.pair, Card.pair, hu, hh]

/-- A copy that does not go through leaves the other files alone. -/
theorem safeCopyFile_frame {e : CopyEnv} {bytes : List UInt8} (h : ¬ Copies e bytes)
    {f : CardFile} (hf : f ≠ dst) : (safeCopyFile e (some bytes) dst c).2 f = c f := by
  rcases (safeCopyFile_of_not_copies h).2 with hc | hc
  · rw [hc]
  · rw [hc, Card.unlink_of_ne c hf]

theorem stagePair_of_staged (h : Staged e v) (c : Card) :
    (stagePair e v c).1 = 0 ∧ Kept c (stagePair e v c).2 ∧
      (stagePair e v c).2 .usbdNew = some v.1 ∧ (stagePair e v c).2 .usbhdfsdNew = some v.2 := by
  have heq : stagePair e v c = (0, (((c.unlink .usbdNew).unlink .usbhdfsdNew).store .usbdNew
      v.1).store .usbhdfsdNew v.2) := by
    simp only [stagePair, safeCopyFile_of_copies h.1, safeCopyFile_of_copies h.2, if_true]
  rw [heq]
  exact ⟨rfl, kept_of_eq rfl rfl rfl, rfl, rfl⟩

/-- Staging that does not go through leaves the live pair and the marker alone. -/
theorem stagePair_of_not_staged (h : ¬ Staged e v) (c : Card) :
    (stagePair e v c).1 ≠ 0 ∧ Kept c (stagePair e v c).2 := by
  by_cases h1 : Copies e.stage.1 v.1
  · have h2 : ¬ Copies e.stage.2 v.2 := fun h2 => h ⟨h1, h2⟩
    have heq : stagePair e v c = safeCopyFile e.stage.2 (some v.2) .usbhdfsdNew
        (((c.unlink .usbdNew).unlink .usbhdfsdNew).store .usbdNew v.1) := by
      simp only [stagePair, safeCopyFile_of_copies h1, if_true]
    rw [heq]
    refine ⟨(safeCopyFile_of_not_copies h2).1, kept_of_eq ?_ ?_ ?_⟩
    all_goals
      rw [safeCopyFile_frame h2 (by decide)]
      rfl
  · have heq : stagePair e v c = safeCopyFile e.stage.1 (some v.1) .usbdNew
        ((c.unlink .usbdNew).unlink .usbhdfsdNew) := by
      simp only [stagePair, if_neg (safeCopyFile_of_not_copies h1).1]
    rw [heq]
    refine ⟨(safeCopyFile_of_not_copies h1).1, kept_of_eq ?_ ?_ ?_⟩
    all_goals
      rw [safeCopyFile_frame h1 (by decide)]
      rfl

/-- The second half of a commit. -/
theorem commitPair_eq (hc : Copies e.commit.1 v.1) (h0 : c .usbdNew = some v.1)
    (h1 : c .usbhdfsdNew = some v.2) :
    commitPair e c = safeCopyFile e.commit.2 (some v.2) .usbhdfsd
      (((c.unlink .usbd).store .usbd v.1).unlink .usbhdfsd) := by
  have h0' : c.unlink .usbd .usbdNew = some v.1 := h0
  have h1' : (((c.unlink .usbd).store .usbd v.1).unlink .usbhdfsd) .usbhdfsdNew = some v.2 := h1
  simp only [commitPair, h0', safeCopyFile_of_copies hc, if_true, h1']

theorem commitPair_of_committed (h : Committed e v) (h0 : c .usbdNew = some v.1)
    (h1 : c .usbhdfsdNew = some v.2) :
    (commitPair e c).1 = 0 ∧ (commitPair e c).2.pair = (some v.1, some v.2) ∧
      (commitPair e c).2 .marker = c .marker := by
  rw [commitPair_eq h.1 h0 h1, safeCopyFile_of_copies h.2]
  exact ⟨rfl, rfl, rfl⟩

/-- A commit that does not go through has not touched the marker. -/
theorem commitPair_of_not_committed (h : ¬ Committed e v) (h0 : c .usbdNew = some v.1)
    (h1 : c .usbhdfsdNew = some v.2) :
    (commitPair e c).1 ≠ 0 ∧ (commitPair e c).2 .marker = c .marker := by
  by_cases hc : Copies e.commit.1 v.1
  · have hc' : ¬ Copies e.commit.2 v.2 := fun hc' => h ⟨hc, hc'⟩
    rw [commitPair_eq hc h0 h1]
    refine ⟨(safeCopyFile_of_not_copies hc').1, ?_⟩
    rw [safeCopyFile_frame hc' (by decide)]
    rfl
  · have h0' : c.unlink .usbd .usbdNew = some v.1 := h0
    have heq : commitPair e c = safeCopyFile e.commit.1 (some v.1) .usbd (c.unlink .usbd) := by
      simp only [commitPair, h0', if_neg (safeCopyFile_of_not_copies hc).1]
    rw [heq]
    refine ⟨(safeCopyFile_of_not_copies hc).1, ?_⟩
    rw [safeCopyFile_frame hc (by decide)]
    rfl

/-- What equipping a variant comes to: nothing happens to the pair and the marker, the marker is
written behind the new pair, or it is written behind the removal of the pair. -/
theorem equipPair_cases (e : Env) (m : Mode) (v : List UInt8 × List UInt8) (c : Card) :
    (¬ Staged e v ∧ (equipPair e m v c).1 ≠ 0 ∧ Kept c (equipPair e m v c).2) ∨
      (Staged e v ∧ Committed e v ∧ ∃ c', c'.pair = (some v.1, some v.2) ∧
        c' .marker = c .marker ∧ equipPair e m v c = writeBdmaMarker e.marker m c') ∨
      (Staged e v ∧ ¬ Committed e v ∧ ∃ c', c'.pair = (none, none) ∧ c' .marker = c .marker ∧
        (equipPair e m v c).1 ≠ 0 ∧
        (equipPair e m v c).2 = (writeBdmaMarker e.marker .fat32 c').2) := by
  have heq : equipPair e m v c =
      if (stagePair e v c).1 ≠ 0 then
        ((stagePair e v c).1, ((stagePair e v c).2.unlink .usbdNew).unlink .usbhdfsdNew)
      else if (commitPair e (stagePair e v c).2).1 ≠ 0 then
        ((commitPair e (stagePair e v c).2).1, (writeBdmaMarker e.marker .fat32
          (((((commitPair e (stagePair e v c).2).2.unlink .usbdNew).unlink .usbhdfsdNew).unlink
            .usbd).unlink .usbhdfsd)).2)
      else writeBdmaMarker e.marker m
        (((commitPair e (stagePair e v c).2).2.unlink .usbdNew).unlink .usbhdfsdNew) := rfl
  by_cases hs : Staged e v
  · obtain ⟨hr, hkept, h0, h1⟩ := stagePair_of_staged hs c
    rw [heq, if_neg (by simpa using hr)]
    by_cases hcom : Committed e v
    · obtain ⟨hr', hpair, hmark⟩ := commitPair_of_committed hcom h0 h1
      rw [if_neg (by simpa using hr')]
      refine Or.inr (Or.inl ⟨hs, hcom, _, ?_, ?_, rfl⟩)
      · exact hpair
      · exact hmark.trans hkept.2
    · obtain ⟨hr', hmark⟩ := commitPair_of_not_committed hcom h0 h1
      rw [if_pos hr']
      refine Or.inr (Or.inr ⟨hs, hcom, _, ?_, ?_, hr', rfl⟩)
      · rfl
      · exact hmark.trans hkept.2
  · obtain ⟨hr, hkept⟩ := stagePair_of_not_staged hs c
    rw [heq, if_pos hr]
    exact Or.inl ⟨hs, hr, hkept.1, hkept.2⟩

/-! ### The marker -/

theorem readBdmaMode_token (m : Mode) : readBdmaMode (some m.token) = m := by
  cases m <;> decide

/-- After the pair is gone, the marker write is not turned down, or the marker reads as FAT32
already. -/
def BareLabelled (e : Env) (c : Card) : Prop :=
  ¬ Refuses e.marker Mode.fat32.token ∨ readBdmaMode (c .marker) = .fat32

/-- After the new pair is in place, the marker write goes through, or it is turned down and the
marker reads as the new mode already or the pair is the one from before. -/
def PairLabelled (e : Env) (m : Mode) (v : List UInt8 × List UInt8) (c : Card) : Prop :=
  Writes e.marker m.token ∨ (Refuses e.marker m.token ∧
    (readBdmaMode (c .marker) = m ∨ c.pair = (some v.1, some v.2)))

/-- The marker write the run comes to, if it comes to one, does not leave a wrong marker behind. -/
def Labelled (e : Env) (source mode : ℤ) (c : Card) : Prop :=
  ∀ m s, ofInt modes mode = some m → ofInt sources source = some s → e.mc = true →
    if m = .fat32 then BareLabelled e c
    else ∀ v, e.variant s m = some v → Staged e v →
      if Committed e v then PairLabelled e m v c else BareLabelled e c

/-- A card whose marker does not read as FAT32 has a pair. -/
theorem Card.Agrees.bare (h : c.Agrees) (hp : c.pair = (none, none)) :
    readBdmaMode (c .marker) = .fat32 := by
  by_contra hne
  rw [Card.Agrees, if_neg hne] at h
  have hu : c .usbd = none := congrArg Prod.fst hp
  rw [hu] at h
  exact absurd h.1 (by simp)

/-- The marker behind the removal of the pair. -/
theorem sound_bare_iff (e : Env) (source mode : ℤ) (ha : c.Agrees) {c₀ : Card}
    (hp : c₀.pair = (none, none)) (hm : c₀ .marker = c .marker) :
    let c' := (writeBdmaMarker e.marker .fat32 c₀).2
    ((Kept c c' ∨ Equipped e source mode c' ∨ Bare c') ↔ BareLabelled e c) ∧
      ((writeBdmaMarker e.marker .fat32 c₀).1 = 0 → Bare c') := by
  intro c'
  have hpair : c'.pair = (none, none) := by
    rcases writeBdmaMarker_cases e.marker .fat32 c₀ with ⟨-, hc⟩ | ⟨-, -, hc⟩ | ⟨-, -, hc⟩
    all_goals
      simp only [c', hc]
      exact hp
  -- without a pair, only the third of the outcomes is left
  have hbare : (Kept c c' ∨ Equipped e source mode c' ∨ Bare c') ↔ Bare c' := by
    refine ⟨?_, fun h => Or.inr (Or.inr h)⟩
    rintro (⟨hk, hmark⟩ | ⟨s, m, v, -, -, -, -, hv, -⟩ | h)
    · refine ⟨hpair, ?_⟩
      rw [hmark]
      exact ha.bare (hk.symm.trans hpair)
    · cases hpair.symm.trans hv
    · exact h
  rw [hbare]
  rcases writeBdmaMarker_cases e.marker .fat32 c₀ with ⟨hw, hc⟩ | ⟨href, hr, hc⟩ | ⟨hnref, -, hc⟩
  · have hmark : c' .marker = some Mode.fat32.token := by
      simp only [c', hc]
      rfl
    have h : Bare c' := ⟨hpair, by rw [hmark, readBdmaMode_token]⟩
    exact ⟨⟨fun _ => Or.inl hw.1, fun _ => h⟩, fun _ => h⟩
  · have hmark : c' .marker = c .marker := by rw [← hm, ← hc]
    refine ⟨⟨fun h => Or.inr (hmark ▸ h.2), fun h => ⟨hpair, ?_⟩⟩, fun h0 => absurd h0 hr⟩
    rw [hmark]
    exact h.resolve_left fun hn => hn href
  · have hmark : c' .marker = none := by
      simp only [c', hc]
      rfl
    have h : Bare c' := ⟨hpair, by rw [hmark]; rfl⟩
    exact ⟨⟨fun _ => Or.inl hnref, fun _ => h⟩, fun _ => h⟩

/-- The marker behind the new pair. -/
theorem sound_pair_iff (ha : c.Agrees) {s : Source} (hs : ofInt sources source = some s)
    (hmode : ofInt modes mode = some m) (hne : m ≠ .fat32) (hv : e.variant s m = some v)
    {c₀ : Card} (hp : c₀.pair = (some v.1, some v.2)) (hm : c₀ .marker = c .marker) :
    let c' := (writeBdmaMarker e.marker m c₀).2
    ((Kept c c' ∨ Equipped e source mode c' ∨ Bare c') ↔ PairLabelled e m v c) ∧
      ((writeBdmaMarker e.marker m c₀).1 = 0 → Equipped e source mode c') := by
  intro c'
  have hpair : c'.pair = (some v.1, some v.2) := by
    rcases writeBdmaMarker_cases e.marker m c₀ with ⟨-, hc⟩ | ⟨-, -, hc⟩ | ⟨-, -, hc⟩
    all_goals
      simp only [c', hc]
      exact hp
  have hequip : Equipped e source mode c' ↔ readBdmaMode (c' .marker) = m := by
    refine ⟨?_, fun h => ⟨s, m, v, hs, hmode, hne, hv, hpair, h⟩⟩
    rintro ⟨-, m', -, -, hmode', -, -, -, hread⟩
    cases hmode.symm.trans hmode'
    exact hread
  have hbare : ¬ Bare c' := fun h => by cases hpair.symm.trans h.1
  rcases writeBdmaMarker_cases e.marker m c₀ with ⟨hw, hc⟩ | ⟨href, hr, hc⟩ | ⟨hnref, hnw, hc⟩
  · have hmark : c' .marker = some m.token := by
      simp only [c', hc]
      rfl
    have h : Equipped e source mode c' := hequip.mpr (by rw [hmark, readBdmaMode_token])
    exact ⟨⟨fun _ => Or.inl hw, fun _ => Or.inr (Or.inl h)⟩, fun _ => h⟩
  · have hmark : c' .marker = c .marker := by rw [← hm, ← hc]
    refine ⟨⟨?_, ?_⟩, fun h0 => absurd h0 hr⟩
    · rintro (hk | h | h)
      · exact Or.inr ⟨href, Or.inr (hk.1.symm.trans hpair)⟩
      · exact Or.inr ⟨href, Or.inl (hmark ▸ hequip.mp h)⟩
      · exact absurd h hbare
    · rintro (hw | ⟨-, hread | hold⟩)
      · exact absurd href hw.1
      · exact Or.inr (Or.inl (hequip.mpr (hmark ▸ hread)))
      · exact Or.inl ⟨hpair.trans hold.symm, hmark⟩
  · have hmark : c' .marker = none := by
      simp only [c', hc]
      rfl
    refine ⟨⟨?_, ?_⟩, fun h0 => absurd h0 (by simp [hc])⟩
    · rintro (hk | h | h)
      · -- the marker was there before, or there was no pair
        have hold : readBdmaMode (c .marker) = .fat32 := by rw [← hk.2, hmark]; rfl
        rw [Card.Agrees, if_pos hold] at ha
        cases ha.symm.trans (hk.1.symm.trans hpair)
      · have hread := hequip.mp h
        rw [hmark] at hread
        exact absurd hread.symm hne
      · exact absurd h hbare
    · rintro (hw | ⟨href, -⟩)
      · exact absurd hw hnw
      · exact absurd href hnref

/-- An error that leaves the pair and the marker alone. -/
theorem soundResult_of_kept {r : Result} (hk : Kept c r.card) (hr : r.rc ≠ 0) :
    SoundResult e source mode c r := ⟨Or.inl hk, fun h0 => absurd h0 hr⟩

/-- A variant that was found. -/
theorem soundResult_equipPair_iff (ha : c.Agrees) {s : Source}
    (hs : ofInt sources source = some s) (hmode : ofInt modes mode = some m) (hne : m ≠ .fat32)
    (hv : e.variant s m = some v) (diag : String) :
    SoundResult e source mode c ⟨(equipPair e m v c).1, diag, (equipPair e m v c).2⟩ ↔
      (Staged e v → if Committed e v then PairLabelled e m v c else BareLabelled e c) := by
  rcases equipPair_cases e m v c with ⟨hst, hr, hk⟩ | ⟨hst, hcom, c₀, hp, hm, heq⟩ |
    ⟨hst, hcom, c₀, hp, hm, hr, heq⟩
  · exact iff_of_true (soundResult_of_kept hk hr) fun h => absurd h hst
  · obtain ⟨hiff, hzero⟩ := sound_pair_iff ha hs hmode hne hv hp hm
    rw [if_pos hcom, heq, SoundResult]
    exact ⟨fun h _ => hiff.mp h.1, fun h => ⟨hiff.mpr (h hst), fun h0 => Or.inl (hzero h0)⟩⟩
  · obtain ⟨hiff, -⟩ := sound_bare_iff e source mode ha hp hm
    rw [if_neg hcom, SoundResult]
    simp only [heq]
    exact ⟨fun h _ => hiff.mp h.1, fun h => ⟨hiff.mpr (h hst), fun h0 => absurd h0 hr⟩⟩

/-- **When equipping leaves the card sound.** For every card whose marker and pair agree, every
source, mode and pattern of failures: the card is left with its old pair and marker, with the new
pair and its marker, or with no pair and a marker that reads as FAT32, and `0` is returned only for
what was asked for, exactly when the marker write the run comes to does not leave a wrong marker
behind. -/
theorem sound_iff (e : Env) (source mode : ℤ) (c : Card) (ha : c.Agrees) :
    Sound e source mode c ↔ Labelled e source mode c := by
  rw [Sound]
  cases hmode : ofInt modes mode with
  | none =>
    have heq : vcdEquipBdma e source mode c = ⟨-1, "", c⟩ := by simp only [vcdEquipBdma, hmode]
    rw [heq]
    refine iff_of_true (soundResult_of_kept ⟨rfl, rfl⟩ (by simp)) fun m s hm => ?_
    cases hmode.symm.trans hm
  | some m =>
    cases hsource : ofInt sources source with
    | none =>
      have heq : vcdEquipBdma e source mode c = ⟨-1, "", c⟩ := by
        simp only [vcdEquipBdma, hmode, hsource]
      rw [heq]
      refine iff_of_true (soundResult_of_kept ⟨rfl, rfl⟩ (by simp)) fun m s _ hs => ?_
      cases hsource.symm.trans hs
    | some s =>
      have hlab : Labelled e source mode c ↔ (e.mc = true →
          if m = .fat32 then BareLabelled e c
          else ∀ v, e.variant s m = some v → Staged e v →
            if Committed e v then PairLabelled e m v c else BareLabelled e c) := by
        refine ⟨fun h => h m s hmode hsource, fun h m' s' hm' hs' => ?_⟩
        cases hmode.symm.trans hm'
        cases hsource.symm.trans hs'
        exact h
      rw [hlab]
      cases hmc : e.mc with
      | false =>
        simp only [vcdEquipBdma, hmode, hsource, hmc, if_true]
        exact iff_of_true (soundResult_of_kept ⟨rfl, rfl⟩ (by simp)) nofun
      | true =>
        simp only [vcdEquipBdma, hmode, hsource, hmc, Bool.true_eq_false, if_false, forall_const]
        by_cases hne : m = .fat32
        · -- the pair is removed first
          have hp : ((c.unlink .usbd).unlink .usbhdfsd).pair = (none, none) := rfl
          obtain ⟨hiff, hzero⟩ := sound_bare_iff e source mode ha hp rfl
          rw [if_pos hne, if_pos hne, SoundResult, ← hiff]
          exact ⟨fun h => h.1, fun h => ⟨h, fun h0 => Or.inr ⟨hne ▸ hmode, hzero h0⟩⟩⟩
        · rw [if_neg hne, if_neg hne]
          cases hv : e.variant s m with
          | none => exact iff_of_true (soundResult_of_kept ⟨rfl, rfl⟩ (by simp)) nofun
          | some v =>
            rw [soundResult_equipPair_iff ha hsource hmode hne hv]
            exact ⟨fun h v' hv' => by cases hv'; exact h, fun h => h v rfl⟩

/-- Calls that all succeed. -/
def CopyEnv.good : CopyEnv := ⟨true, true, true, -1, true, true, fun _ => some 1, fun _ => some 1⟩

/-- A card with a pair and a marker for USB. -/
def usbCard : Card
  | .usbd => some [1]
  | .usbhdfsd => some [2]
  | .marker => some Mode.usbexfat.token
  | _ => none

/-- The other pair is on a device, every copy goes through, and the card has this much room when the
marker is written. -/
def roomEnv (freeBytes : ℤ) : Env where
  mc := true
  pre := []
  family _ := [⟨"mass0:/", fun _ => some [3], fun _ => some [4], (true, true)⟩]
  stage := (.good, .good)
  commit := (.good, .good)
  marker := ⟨freeBytes, true, fun _ => some 1⟩

theorem copies_good : Copies .good [3] ∧ Copies .good [4] := by
  simp [Copies, CopyEnv.good, mcHasSpace, copyLoop, writeLoop, copyChunk]

theorem usbCard_agrees : usbCard.Agrees := by
  have hne : readBdmaMode (usbCard .marker) ≠ .fat32 := by decide
  rw [Card.Agrees, if_neg hne]
  exact ⟨rfl, rfl⟩

theorem sound_iff_roomEnv : Sound (roomEnv 65536) 0 2 usbCard := by
  refine (sound_iff (roomEnv 65536) 0 2 usbCard usbCard_agrees).mpr ?_
  rintro m s ⟨⟩ ⟨⟩ -
  rw [if_neg (by decide)]
  rintro v ⟨⟩ -
  have hcom : Committed (roomEnv 65536) ([3], [4]) := copies_good
  rw [if_pos hcom]
  refine Or.inl ⟨by decide, ?_⟩
  simp [roomEnv, writeLoop, Mode.token, Mode.suffix]

/-- With no room for the marker, FAT32 leaves no pair and a marker that says USB, and MX4SIO leaves
the pair for MX4SIO under a marker that says USB. -/
theorem not_sound_roomEnv :
    usbCard.Agrees ∧ ¬ Sound (roomEnv 0) 0 0 usbCard ∧ ¬ Sound (roomEnv 0) 0 2 usbCard := by
  have hmark : readBdmaMode (usbCard .marker) = .usbexfat := by decide
  refine ⟨usbCard_agrees, fun h => ?_, fun h => ?_⟩
  · have heq : vcdEquipBdma (roomEnv 0) 0 0 usbCard
        = ⟨-2, "", (usbCard.unlink .usbd).unlink .usbhdfsd⟩ := rfl
    rw [Sound, heq] at h
    rcases h.1 with ⟨hk, -⟩ | ⟨-, m, -, -, hm, hne, -⟩ | ⟨-, hb⟩
    · cases hk
    · cases hm
      exact hne rfl
    · cases hmark.symm.trans hb
  · have hst : Staged (roomEnv 0) ([3], [4]) := copies_good
    have hcom : Committed (roomEnv 0) ([3], [4]) := copies_good
    have hlab := (soundResult_equipPair_iff usbCard_agrees rfl rfl (by decide) rfl "").mp h hst
    rw [if_pos hcom] at hlab
    rcases hlab with hw | ⟨-, hread | hold⟩
    · exact hw.1 (by decide)
    · cases hmark.symm.trans hread
    · cases hold

end Bdma

end OpenPS2Loader
