import Mathlib.Data.Fin.Basic
import OpenPS2Loader.Mcemu.Commands

/-!
# Accesses to a card that fail

`mcemu` has four back ends for the pages of a card: a block device, the hard disk, a file on a
share, and a card in the memory card slot. The functions `DeviceReadPage` and `DeviceWritePage` of a
back end return 1, or 0 for an error, but only the hard disk returns 0 for every error: the block
device and the card in the slot do not look at what the driver returns, and on a share an error is
mostly a negative number, which is not 0. On a share a request that fails keeps the semaphore
`smb_io_sema` as well, so that the next access waits for ever. And an answer to a read that has an
error status counts as one that brings all that was asked for: see `Smb.receive_short`.

What the driver does is an input. The calls `MceRead`, `MceWrite` and `MceEraseBlock` are those of
`Mce`, with what they leave when an access fails. Beside the variables of the source the states have
what is said about a run: whether an access failed, and whether the page in `mcdatabuf` and the
codes in `cbufp` come from a page that was transferred.

## Main definitions

* `Mce.smbFile` — the loop of `smb_ReadFile` and `smb_WriteFile`
* `Mce.Access.outcome` — what a back end makes of the results of the driver
* `Mce.deviceReadPage`, `Mce.deviceWritePage`
* `Mce.Access.Reported` — the back end comes back, and returns 0 when the access fails
* `Mce.readChunk`, `Mce.writeChunk`, `Mce.eraseBlock` — the calls of a card

## Main results

* `Mce.readChunk_copied`, `Mce.writeChunk_left` — a call that ends well is one of `Mce`
-/

namespace OpenPS2Loader

namespace Mce

/-! ### The back ends -/

/-- The back ends: `device-bdm.c`, `device-hdd.c`, `device-smb.c` and `device-mmce.c`. -/
inductive Backend
  | bdm
  | hdd
  | smb
  | mmce
  deriving DecidableEq

inductive Direction
  | read
  | write
  deriving DecidableEq

/-- What the server answers to `smb_OpenAndX`. -/
inductive OpenReply
  | noMagic
  | refused
  | opened (fid : UInt16)

/-- `smb_OpenAndX` -/
def smbOpenAndX : OpenReply → ℤ
  | .noMagic => -1
  | .refused => -1000
  | .opened _ => 1

/-- What becomes of a request on a share: it is answered with the number of bytes that the server
transferred, or has a negative number for an error; the answer transfers nothing, because it has an
error status or because its first segment ends in front of its number; or the connection ends inside
the answer. -/
inductive SmbAnswer
  | counted (n : ℤ)
  | empty
  | cut
  deriving DecidableEq

/-- What the driver does in an access to a page: the answer when the file is opened, should it be;
what its calls return in their order; on a share, what becomes of its requests; and the bytes that a
read leaves in the buffer. `exported` says that the functions of `mmcedrv` were found. -/
structure Access where
  opened : OpenReply
  exported : Bool
  results : ℕ → ℤ
  answers : ℕ → SmbAnswer
  page : List UInt8
  length_page : page.length = pageSize

/-- What `smb_ReadAndX` and `smb_WriteAndX` return for `nbytes` bytes, and whether these bytes were
transferred. A read returns the number in the answer, or the number of the request that is left in
its place, and does not return when the connection ends inside the answer; a write looks at the
status, but not at the number. -/
def smbAndX (nbytes : ℕ) : Direction → SmbAnswer → Option (ℤ × Bool)
  | .read, .counted n => some (n, true)
  | .read, .empty => some (nbytes, false)
  | .read, .cut => none
  | .write, .counted n => some (if n < 0 then -5 else nbytes, n = nbytes)
  | .write, .empty => some (-5, false)
  | .write, .cut => some (-5, false)

/-- `CLIENT_MAX_RECV_SIZE` and `CLIENT_MAX_XMIT_SIZE`. -/
def clientMax : Direction → ℕ
  | .read => 8192
  | .write => 65535

/-- How `smb_ReadFile` or `smb_WriteFile` ends: what it returns, whether it signals `smb_io_sema`,
and whether all bytes were transferred. -/
structure SmbResult where
  result : ℤ
  signalled : Bool
  transferred : Bool

/-- The loop of `smb_ReadFile` and `smb_WriteFile`, `k` calls on. -/
def smbFile (dir : Direction) (answers : ℕ → SmbAnswer) (k remaining : ℕ) : Option SmbResult :=
  if remaining = 0 then some ⟨pageSize, true, true⟩
  else
    match smbAndX (min remaining (clientMax dir)) dir (answers k) with
    | none => none
    | some (result, transferred) =>
      if result ≤ 0 then some ⟨result, false, false⟩
      else
        (smbFile dir answers (k + 1) (remaining - result.toNat)).map fun r =>
          { r with transferred := transferred && r.transferred }
termination_by remaining

/-- What a back end makes of an access: whether it comes back, whether it returns 1 then, whether
the page was transferred, and whether `smb_io_sema` is given back. -/
structure Outcome where
  ended : Bool
  returned : Bool
  transferred : Bool
  signalled : Bool

namespace Access

/-- The driver of a block device returns the number of sectors, `sceAtaDmaTransfer` 0 when it is
done; `mmce_read_offset` and `mmce_write_offset` call `lseek` first, and the other call returns the
number of bytes. -/
def outcome (b : Backend) (dir : Direction) (a : Access) : Outcome :=
  match b with
  | .bdm => ⟨true, true, a.results 0 = 1, true⟩
  | .hdd => ⟨true, a.results 0 = 0, a.results 0 = 0, true⟩
  | .smb =>
    match smbFile dir a.answers 0 pageSize with
    | none => ⟨false, false, false, false⟩
    | some r => ⟨true, r.result ≠ 0, r.transferred, r.signalled⟩
  | .mmce => ⟨true, true, a.exported ∧ 0 ≤ a.results 0 ∧ a.results 1 = pageSize, true⟩

/-- The back end comes back and returns 0 when the access fails, and the file of a share can be
opened. -/
def Reported (b : Backend) (dir : Direction) (a : Access) : Prop :=
  (a.outcome b dir).ended = true ∧
    ((a.outcome b dir).transferred = false → (a.outcome b dir).returned = false) ∧
    (b = .smb → dir = .read → 0 < smbOpenAndX a.opened)

end Access

/-- What the accesses change: `mcdatabuf`, the files that are open on a share and `smb_io_sema`; and
how many accesses there were, whether one of them failed, and whether the page in the buffer comes
from one that did not. -/
structure Device where
  buf : List UInt8
  fid : Fin 2 → UInt16
  sema : Bool
  accesses : ℕ
  failed : Bool
  obtained : Bool

/-- What the driver does in the accesses of a run, from the number of an access, its direction and
its page. -/
abbrev Accesses : Type := ℕ → Direction → UInt32 → Access

/-- The back end reports every access that fails. -/
def Reporting (b : Backend) (acc : Accesses) : Prop :=
  ∀ n dir page, (acc n dir page).Reported b dir

namespace Device

/-- The next access waits for a semaphore that nobody gives back. -/
def Blocked (b : Backend) (d : Device) : Prop := b = .smb ∧ d.sema = false

instance (b : Backend) (d : Device) : Decidable (d.Blocked b) := inferInstanceAs (Decidable (_ ∧ _))

/-- After an access. -/
def after (d : Device) (signalled transferred : Bool) : Device :=
  { d with
    sema := d.sema && signalled
    accesses := d.accesses + 1
    failed := d.failed || !transferred }

/-- After a read, of a page or of a part of it. -/
def loaded (d : Device) (page : List UInt8) (transferred : Bool) : Device :=
  { d with buf := page, obtained := transferred }

end Device

/-- `DeviceWritePage`. -/
def deviceWritePage (b : Backend) (acc : Accesses) (d : Device) (page : UInt32) :
    Option (Device × Bool) :=
  let o := (acc d.accesses .write page).outcome b .write
  if d.Blocked b ∨ o.ended = false then none
  else some (d.after o.signalled o.transferred, o.returned)

/-- `DeviceReadPage`. On a share the file is opened when it is not; only 0 is taken for an error. -/
def deviceReadPage (b : Backend) (acc : Accesses) (c : Fin 2) (d : Device) (page : UInt32) :
    Option (Device × Bool) :=
  let a := acc d.accesses .read page
  let o := a.outcome b .read
  if d.Blocked b ∨ o.ended = false then none
  else if b = .smb ∧ d.fid c = 0xFFFF then
    match a.opened with
    | .opened fid =>
      some ({ (d.after o.signalled o.transferred).loaded a.page o.transferred with
        fid := Function.update d.fid c fid }, o.returned)
    | reply =>
      if smbOpenAndX reply = 0 then some (d.after true false, false)
      else some ((d.after o.signalled false).loaded a.page false, o.returned)
  else some ((d.after o.signalled o.transferred).loaded a.page o.transferred, o.returned)

/-! ### Reading -/

/-- The fields of a `MemoryCard`, and whether the codes in `cbufp` are those of a page that was
transferred. -/
structure Slot extends Port where
  eccObtained : Bool

/-- How a pass over a chunk ends: the card and the device behind it, whether the call goes on or
ends well, what it copied, whether that comes from pages that were transferred, and the size of the
next pass, or 0. -/
structure ReadPass where
  port : Slot
  dev : Device
  ok : Bool
  out : List UInt8
  obtained : Bool
  next : ℕ

section Card

variable (b : Backend) (acc : Accesses) (c : Fin 2) (spec : CardSpec)

/-- `do_read`. -/
def readPage (p : Slot) (d : Device) : Option (Slot × Device × Bool) :=
  (deviceReadPage b acc c d p.rpage).map fun (d, ok) =>
    if ok then
      ({ p with cbufp := eccArea spec.flags d.buf, eccObtained := d.obtained }, d, true)
    else
      ({ p with cbufp := List.replicate 16 (padByte spec.flags), eccObtained := false }, d, false)

/-- The data part of a pass of `MceRead`. -/
def readPart (tot : ℕ) (p : Slot) (d : Device) (size : ℕ) : Option ReadPass :=
  (if p.rdoff = 0 then readPage b acc c spec p d else some (p, d, true)).map fun (p, d, ok) =>
    if ok then
      let size := dataSize p.rdoff size
      let out := (d.buf.drop p.rdoff).take size
      if p.rdoff + size = pageSize then
        ⟨{ p with rpage := p.rpage + 1, rdoff := 0, rcoff := p.rcoff + 3 }, d, true, out,
          d.obtained, tot - size⟩
      else ⟨{ p with rdoff := p.rdoff + size, rcoff := p.rcoff + 3 }, d, true, out, d.obtained, 0⟩
    else ⟨p, d, false, [], true, 0⟩

/-- A pass of `MceRead`, from `restart` on, in a chunk of `tot` bytes. -/
def readOnce (tot : ℕ) (p : Slot) (d : Device) (size : ℕ) : Option ReadPass :=
  if p.rcoff ≠ 0 ∧ p.rdoff = 0 then
    let out := p.cbufp.take (eccSize size)
    let q := { p with rcoff := eccLeft p.rcoff size }
    if size - eccSize size = 0 then some ⟨q, d, true, out, p.eccObtained, 0⟩
    else
      (readPart b acc c spec tot q d (size - eccSize size)).map fun r =>
        { r with out := out ++ r.out, obtained := p.eccObtained && r.obtained }
  else readPart b acc c spec tot p d size

/-- The passes of `MceRead`. -/
def readOnwards (tot : ℕ) : ℕ → Slot → Device → ℕ → Option ReadPass
  | 0, _, _, _ => none
  | fuel + 1, p, d, size =>
    (readOnce b acc c spec tot p d size).bind fun r =>
      if r.next = 0 then some r
      else
        (readOnwards tot fuel r.port r.dev r.next).map fun r' =>
          { r' with out := r.out ++ r'.out, obtained := r.obtained && r'.obtained }

/-- `MceRead`. The size of a chunk is one byte: two passes are enough. -/
def readChunk (p : Slot) (d : Device) (size : ℕ) : Option ReadPass :=
  readOnwards b acc c spec size 2 p d size

/-! ### Writing -/

/-- How a pass over a chunk that is written ends; `rest` is what is left for the next pass. -/
structure WritePass where
  port : Slot
  dev : Device
  ok : Bool
  rest : List UInt8
  next : ℕ

/-- A pass of `MceWrite` behind its ECC part. -/
def writePart (tot : ℕ) (p : Slot) (d : Device) (buf : List UInt8) (size : ℕ) :
    Option WritePass :=
  let size := dataSize p.wroff size
  let page := d.buf.take p.wroff ++ buf.take size ++ d.buf.drop (p.wroff + size)
  let d := { d with buf := page, obtained := d.obtained && size == 0 }
  if p.wroff + size = pageSize then
    (deviceWritePage b acc d p.wpage).map fun (d, ok) =>
      if ok then
        ⟨{ p with wpage := p.wpage + 1, wroff := 0, wcoff := p.wcoff + 3 }, d, true, buf.drop size,
          tot - size⟩
      else ⟨{ p with wroff := 0, wcoff := p.wcoff + 3 }, d, false, buf.drop size, 0⟩
  else
    some ⟨{ p with wroff := p.wroff + size, wcoff := p.wcoff + 3 }, d, true, buf.drop size, 0⟩

/-- A pass of `MceWrite`, from `restart` on, in a chunk of `tot` bytes. -/
def writeOnce (tot : ℕ) (p : Slot) (d : Device) (buf : List UInt8) (size : ℕ) :
    Option WritePass :=
  if p.wcoff ≠ 0 ∧ p.wroff = 0 then
    let q := { p with wcoff := eccLeft p.wcoff size }
    if size - eccSize size = 0 then some ⟨q, d, true, buf.drop (eccSize size), 0⟩
    else writePart b acc tot q d (buf.drop (eccSize size)) (size - eccSize size)
  else writePart b acc tot p d buf size

/-- The passes of `MceWrite`. -/
def writeOnwards (tot : ℕ) : ℕ → Slot → Device → List UInt8 → ℕ → Option WritePass
  | 0, _, _, _, _ => none
  | fuel + 1, p, d, buf, size =>
    (writeOnce b acc tot p d buf size).bind fun r =>
      if r.next = 0 then some r else writeOnwards tot fuel r.port r.dev r.rest r.next

/-- `MceWrite`. -/
def writeChunk (p : Slot) (d : Device) (buf : List UInt8) : Option WritePass :=
  writeOnwards b acc buf.length 2 p d buf buf.length

/-! ### Erasing -/

/-- The loop of `MceEraseBlock`. -/
def erasePages : ℕ → UInt32 → Device → Option (Device × Bool)
  | 0, _, d => some (d, true)
  | n + 1, page, d =>
    (deviceWritePage b acc d page).bind fun (d, ok) =>
      if ok then erasePages n (page + 1) d else some (d, false)

/-- `MceEraseBlock`. -/
def eraseBlock (d : Device) (page : UInt32) : Option (Device × Bool) :=
  erasePages b acc spec.blockSize.toNat page
    { d with buf := List.replicate pageSize spec.clearByte, obtained := false }

end Card

/-! ### The calls without failures

A call for which every access succeeds is the one of `Mce`. -/

section Refine

/-- The pages that the next access reads, or an error. -/
def Device.readable (d : Device) (b : Backend) (acc : Accesses) (c : Fin 2) : ReadPage := fun q =>
  (deviceReadPage b acc c d q).bind fun r => if r.2 then some r.1.buf else none

/-- A pass that ends well, as one of `Mce`. -/
def ReadPass.result (r : ReadPass) : Option (ReadState × List UInt8 × ℕ) :=
  if r.ok then some (r.port.readState r.dev.buf, r.out, r.next) else none

/-- What a call that ends well copies. -/
def ReadPass.copied (r : ReadPass) : Option (ReadState × List UInt8) :=
  if r.ok then some (r.port.readState r.dev.buf, r.out) else none

variable (b : Backend) (acc : Accesses) (c : Fin 2) (spec : CardSpec) (tot : ℕ) (p : Slot)
  (d : Device) (size : ℕ)

theorem readPart_result :
    (readPart b acc c spec tot p d size).bind ReadPass.result =
      readData spec.flags (d.readable b acc c) tot (p.readState d.buf) size := by
  rw [readPart, readData]
  by_cases hoff : p.rdoff = 0
  · rw [if_pos hoff, if_pos (show (p.readState d.buf).rdoff = 0 from hoff), readPage, doRead,
      Device.readable]
    cases hread : deviceReadPage b acc c d p.rpage with
    | none => simp only [hread, Port.readState, Option.map_none, Option.bind_none]
    | some r =>
      obtain ⟨d', ok⟩ := r
      cases ok with
      | false => simp [hread, Port.readState, ReadPass.result]
      | true =>
        simp only [hread, Port.readState, Option.map_some, Option.bind_some, if_true]
        split_ifs <;> rfl
  · rw [if_neg hoff, if_neg (show ¬(p.readState d.buf).rdoff = 0 from hoff)]
    simp only [Port.readState, Option.map_some, Option.bind_some, if_true]
    split_ifs <;> rfl

theorem readOnce_result :
    (readOnce b acc c spec tot p d size).bind ReadPass.result =
      readPass spec.flags (d.readable b acc c) tot (p.readState d.buf) size := by
  rw [readOnce, readPass]
  by_cases hecc : p.rcoff ≠ 0 ∧ p.rdoff = 0
  · have hecc' : (p.readState d.buf).rcoff ≠ 0 ∧ (p.readState d.buf).rdoff = 0 := hecc
    rw [if_pos hecc, if_pos hecc']
    dsimp only
    by_cases hsize : size - eccSize size = 0
    · rw [if_pos hsize, if_pos hsize]
      rfl
    · have hpart := readPart_result b acc c spec tot { p with rcoff := eccLeft p.rcoff size } d
        (size - eccSize size)
      rw [if_neg hsize, if_neg hsize]
      refine Eq.trans ?_ (congrArg _ hpart)
      cases readPart b acc c spec tot { p with rcoff := eccLeft p.rcoff size } d
          (size - eccSize size) with
      | none => rfl
      | some r =>
        obtain ⟨q, d', ok, out, obtained, next⟩ := r
        cases ok with
        | false => rfl
        | true => rfl
  · have hecc' : ¬((p.readState d.buf).rcoff ≠ 0 ∧ (p.readState d.buf).rdoff = 0) := hecc
    rw [if_neg hecc, if_neg hecc']
    exact readPart_result b acc c spec tot p d size

variable {b acc c spec tot p d size}

/-- Only a pass that did not access the device is followed by another one. -/
theorem dev_readPart {r : ReadPass} (hsize : size < pageSize)
    (h : readPart b acc c spec tot p d size = some r) (hnext : r.next ≠ 0) :
    r.ok = true ∧ r.dev = d ∧ p.rdoff ≠ 0 := by
  obtain ⟨⟨q, d', ok⟩, hload, hr⟩ := Option.map_eq_some_iff.mp h
  have hoff : q.rdoff = p.rdoff := by
    split_ifs at hload
    · obtain ⟨⟨d₁, ok₁⟩, -, heq⟩ := Option.map_eq_some_iff.mp hload
      dsimp only at heq
      split_ifs at heq <;> cases heq <;> rfl
    · cases hload
      rfl
  dsimp only at hr
  rw [hoff] at hr
  split_ifs at hr with hok hend
  · have hne : p.rdoff ≠ 0 := by
      intro hzero
      rw [hzero, dataSize, if_neg (by omega)] at hend
      omega
    rw [if_neg hne] at hload
    cases hload
    subst hr
    exact ⟨rfl, rfl, hne⟩
  · subst hr
    exact absurd rfl hnext
  · subst hr
    exact absurd rfl hnext

theorem dev_readOnce {r : ReadPass} (hsize : size < pageSize)
    (h : readOnce b acc c spec tot p d size = some r) (hnext : r.next ≠ 0) :
    r.ok = true ∧ r.dev = d := by
  rw [readOnce] at h
  dsimp only at h
  split_ifs at h with hecc hend
  · cases h
    exact absurd rfl hnext
  · obtain ⟨r', hr', rfl⟩ := Option.map_eq_some_iff.mp h
    exact absurd hecc.2 (dev_readPart (show size - eccSize size < pageSize by omega) hr' hnext).2.2
  · have hpart := dev_readPart hsize h hnext
    exact ⟨hpart.1, hpart.2.1⟩

/-- The last pass of a call. -/
theorem readOnwards_one :
    (readOnwards b acc c spec tot 1 p d size).bind ReadPass.copied =
      readPasses spec.flags (d.readable b acc c) tot 1 (p.readState d.buf) size := by
  rw [readOnwards, readPasses, ← readOnce_result]
  cases readOnce b acc c spec tot p d size with
  | none => rfl
  | some r =>
    rw [Option.bind_some, Option.bind_some]
    by_cases hnext : r.next = 0
    · rw [if_pos hnext, Option.bind_some, ReadPass.result, ReadPass.copied]
      cases r.ok with
      | false => rfl
      | true => exact (if_pos hnext).symm
    · rw [if_neg hnext, ReadPass.result]
      cases r.ok with
      | false => rfl
      | true => exact (if_neg hnext).symm

/-- **A chunk that is read well** is the one that `mceRead` reads. -/
theorem readChunk_copied (hsize : size < pageSize) :
    (readChunk b acc c spec p d size).bind ReadPass.copied =
      mceRead spec.flags (d.readable b acc c) (p.readState d.buf) size := by
  rw [readChunk, readOnwards, mceRead, readPasses, ← readOnce_result]
  cases honce : readOnce b acc c spec size p d size with
  | none => rfl
  | some r =>
    rw [Option.bind_some, Option.bind_some]
    by_cases hnext : r.next = 0
    · rw [if_pos hnext, Option.bind_some, ReadPass.result, ReadPass.copied]
      cases r.ok with
      | false => rfl
      | true => exact (if_pos hnext).symm
    · obtain ⟨hok, rfl⟩ := dev_readOnce hsize honce hnext
      rw [if_neg hnext, ReadPass.result, hok, if_pos rfl, Option.bind_some]
      dsimp only
      rw [if_neg hnext, ← readOnwards_one]
      cases readOnwards b acc c spec size 1 r.port r.dev r.next with
      | none => rfl
      | some r' =>
        rw [Option.map_some, Option.bind_some, Option.bind_some, ReadPass.copied, ReadPass.copied]
        cases r'.ok with
        | false => rfl
        | true => rfl

end Refine

section RefineWrite

/-- Whether the next access can write a page. -/
def Device.writable (d : Device) (b : Backend) (acc : Accesses) : WritePage := fun q _ =>
  (deviceWritePage b acc d q).any fun r => r.2

/-- A pass that ends well, as one of `Mce`. -/
def WritePass.result (r : WritePass) : Option (WriteState × List UInt8 × ℕ) :=
  if r.ok then some (r.port.writeState r.dev.buf, r.rest, r.next) else none

/-- What a call that ends well leaves. -/
def WritePass.left (r : WritePass) : Option WriteState :=
  if r.ok then some (r.port.writeState r.dev.buf) else none

/-- A pass of `Mce` without the pages that it writes. -/
def unpaged (r : WriteState × List (UInt32 × List UInt8) × List UInt8 × ℕ) :
    WriteState × List UInt8 × ℕ := (r.1, r.2.2)

variable (b : Backend) (acc : Accesses) (tot : ℕ) (p : Slot) (d : Device) (buf : List UInt8)
  (size : ℕ)

/-- A write does not depend on what is in the buffer. -/
theorem deviceWritePage_withBuf (page : List UInt8) (obtained : Bool) (q : UInt32) :
    deviceWritePage b acc { d with buf := page, obtained := obtained } q =
      (deviceWritePage b acc d q).map fun r =>
        ({ r.1 with buf := page, obtained := obtained }, r.2) := by
  rw [deviceWritePage, deviceWritePage]
  dsimp only
  by_cases hblocked : d.Blocked b ∨ ((acc d.accesses .write q).outcome b .write).ended = false
  · rw [if_pos hblocked]
    exact if_pos hblocked
  · rw [if_neg hblocked]
    exact if_neg hblocked

theorem writePart_result :
    (writePart b acc tot p d buf size).bind WritePass.result =
      (writeData (d.writable b acc) tot (p.writeState d.buf) buf size).map unpaged := by
  rw [writePart, writeData]
  dsimp only
  by_cases hend : p.wroff + dataSize p.wroff size = pageSize
  · have hend' : (p.writeState d.buf).wroff + dataSize (p.writeState d.buf).wroff size =
        pageSize := hend
    have hdev : ∀ page, d.writable b acc (p.writeState d.buf).wpage page =
        (deviceWritePage b acc d p.wpage).any fun r => r.2 := fun _ => rfl
    rw [if_pos hend, if_pos hend', deviceWritePage_withBuf, hdev]
    cases deviceWritePage b acc d p.wpage with
    | none => rfl
    | some r =>
      obtain ⟨d', ok⟩ := r
      cases ok with
      | false => rfl
      | true => rfl
  · have hend' : ¬(p.writeState d.buf).wroff + dataSize (p.writeState d.buf).wroff size =
        pageSize := hend
    rw [if_neg hend, if_neg hend']
    rfl

theorem writeOnce_result :
    (writeOnce b acc tot p d buf size).bind WritePass.result =
      (writePass (d.writable b acc) tot (p.writeState d.buf) buf size).map unpaged := by
  rw [writeOnce, writePass]
  by_cases hecc : p.wcoff ≠ 0 ∧ p.wroff = 0
  · have hecc' : (p.writeState d.buf).wcoff ≠ 0 ∧ (p.writeState d.buf).wroff = 0 := hecc
    rw [if_pos hecc, if_pos hecc']
    dsimp only
    by_cases hsize : size - eccSize size = 0
    · rw [if_pos hsize, if_pos hsize]
      rfl
    · rw [if_neg hsize, if_neg hsize]
      exact writePart_result b acc tot { p with wcoff := eccLeft p.wcoff size } d
        (buf.drop (eccSize size)) (size - eccSize size)
  · have hecc' : ¬((p.writeState d.buf).wcoff ≠ 0 ∧ (p.writeState d.buf).wroff = 0) := hecc
    rw [if_neg hecc, if_neg hecc']
    exact writePart_result b acc tot p d buf size

variable {b acc tot p d buf size}

/-- From the start of a page a pass writes nothing. -/
theorem writePass_congr {dev dev' : WritePage} {s : WriteState} (hoff : s.wroff = 0)
    (hsize : size < pageSize) : writePass dev tot s buf size = writePass dev' tot s buf size := by
  have hdata : ∀ (s : WriteState) (buf : List UInt8) (n : ℕ), s.wroff = 0 → n < pageSize →
      writeData dev tot s buf n = writeData dev' tot s buf n := by
    intro s buf n hoff hn
    have hend : ¬s.wroff + dataSize s.wroff n = pageSize := by
      rw [hoff, dataSize, if_neg (by omega)]
      omega
    rw [writeData, writeData, if_neg hend, if_neg hend]
  rw [writePass, writePass, hdata s buf size hoff hsize]
  dsimp only
  rw [hdata { s with wcoff := eccLeft s.wcoff size } _ _ hoff (by omega)]

/-- A pass that is followed by another one has ended a page. -/
theorem wroff_writeOnce {r : WritePass} (h : writeOnce b acc tot p d buf size = some r)
    (hnext : r.next ≠ 0) : r.ok = true ∧ r.port.wroff = 0 ∧ r.next ≤ tot := by
  have hpart : ∀ (p : Slot) (buf : List UInt8) (n : ℕ),
      writePart b acc tot p d buf n = some r → r.ok = true ∧ r.port.wroff = 0 ∧ r.next ≤ tot := by
    intro p buf n h
    rw [writePart] at h
    dsimp only at h
    split_ifs at h
    · obtain ⟨⟨d', ok⟩, -, hr⟩ := Option.map_eq_some_iff.mp h
      cases ok with
      | false =>
        subst hr
        exact absurd rfl hnext
      | true =>
        subst hr
        exact ⟨rfl, rfl, Nat.sub_le _ _⟩
    · cases h
      exact absurd rfl hnext
  rw [writeOnce] at h
  dsimp only at h
  split_ifs at h
  · cases h
    exact absurd rfl hnext
  · exact hpart _ _ _ h
  · exact hpart _ _ _ h

/-- A pass waits, fails, or is one of `Mce`. -/
theorem writeOnce_cases (b : Backend) (acc : Accesses) (tot : ℕ) (p : Slot) (d : Device)
    (buf : List UInt8) (size : ℕ) :
    (∀ r, writeOnce b acc tot p d buf size = some r → r.ok = false) ∧
        writePass (d.writable b acc) tot (p.writeState d.buf) buf size = none ∨
      ∃ r pages, writeOnce b acc tot p d buf size = some r ∧ r.ok = true ∧
        writePass (d.writable b acc) tot (p.writeState d.buf) buf size =
          some (r.port.writeState r.dev.buf, pages, r.rest, r.next) := by
  have hresult := writeOnce_result b acc tot p d buf size
  cases hpass : writePass (d.writable b acc) tot (p.writeState d.buf) buf size with
  | none =>
    rw [hpass] at hresult
    refine .inl ⟨fun r hr => ?_, rfl⟩
    rw [hr, Option.bind_some, WritePass.result] at hresult
    by_contra hok
    rw [if_pos (by simpa using hok)] at hresult
    cases hresult
  | some s =>
    rw [hpass] at hresult
    obtain ⟨r, hr, hrs⟩ := Option.bind_eq_some_iff.mp hresult
    rw [WritePass.result] at hrs
    split_ifs at hrs with hok
    obtain ⟨state, pages, rest, next⟩ := s
    cases hrs
    exact .inr ⟨r, pages, hr, hok, rfl⟩

/-- The last pass of a call. -/
theorem writeOnwards_one :
    (writeOnwards b acc tot 1 p d buf size).bind WritePass.left =
      (writePasses (d.writable b acc) tot 1 (p.writeState d.buf) buf size).map Prod.fst := by
  rw [writeOnwards, writePasses]
  obtain ⟨hfail, hpass⟩ | ⟨r, pages, honce, hok, hpass⟩ := writeOnce_cases b acc tot p d buf size
  · rw [hpass]
    cases honce : writeOnce b acc tot p d buf size with
    | none => rfl
    | some r =>
      rw [Option.bind_some]
      split_ifs with hnext
      · rw [Option.bind_some, WritePass.left, hfail r honce]
        rfl
      · rfl
  · rw [honce, hpass, Option.bind_some, Option.bind_some]
    dsimp only
    split_ifs with hnext
    · rw [Option.bind_some, WritePass.left, if_pos hok]
      rfl
    · rfl

/-- **A chunk that is written well** leaves the card as `mceWrite` does. -/
theorem writeChunk_left (hsize : buf.length < pageSize) :
    (writeChunk b acc p d buf).bind WritePass.left =
      (mceWrite (d.writable b acc) (p.writeState d.buf) buf).map Prod.fst := by
  rw [writeChunk, writeOnwards, mceWrite, writePasses]
  obtain ⟨hfail, hpass⟩ | ⟨r, pages, honce, hok, hpass⟩ :=
    writeOnce_cases b acc buf.length p d buf buf.length
  · rw [hpass]
    cases honce : writeOnce b acc buf.length p d buf buf.length with
    | none => rfl
    | some r =>
      have hlast : r.next = 0 := by
        by_contra hnext
        exact Bool.noConfusion ((hfail r honce).symm.trans (wroff_writeOnce honce hnext).1)
      rw [Option.bind_some, if_pos hlast, Option.bind_some, WritePass.left, hfail r honce]
      rfl
  · rw [honce, hpass, Option.bind_some, Option.bind_some]
    dsimp only
    split_ifs with hnext
    · rw [Option.bind_some, WritePass.left, if_pos hok]
      rfl
    · obtain ⟨-, hoff, hle⟩ := wroff_writeOnce honce hnext
      have hcongr : writePasses (d.writable b acc) buf.length 1 (r.port.writeState r.dev.buf)
          r.rest r.next = writePasses (r.dev.writable b acc) buf.length 1
            (r.port.writeState r.dev.buf) r.rest r.next := by
        rw [writePasses, writePasses, writePass_congr hoff (by omega)]
        rfl
      rw [writeOnwards_one, hcongr, Option.map_map]
      rfl

end RefineWrite

end Mce

end OpenPS2Loader
