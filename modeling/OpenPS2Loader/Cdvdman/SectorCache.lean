import Mathlib.Algebra.Group.Nat.Defs
import Mathlib.Data.List.Basic

/-!
# The sector cache

`DeviceReadSectorsCached` of `cdvdman.c`: a read of few sectors is served from a window of sectors
that was read ahead, and the window is moved when it does not cover the request. A read of many
sectors goes to the device.

The window is filled in place and its tag is set whatever the device answered. A read ahead that
failed is therefore reported as a success, and what it left in the buffer is served until the
window moves.

## Main definitions

* `Answer` — the answer of the device to one read
* `SectorCache` — the window
* `SectorCache.deviceReadSectorsCached` — the cached read
* `SectorCache.Honest` — the window holds what is on the device

## Main results

* `SectorCache.allServed_iff` — when all calls of a sequence are served as the device would
-/

namespace OpenPS2Loader

/-- The answer of the device to one read: `0` is `SCECdErNO`. A read that fails leaves something in
its destination. -/
structure Answer (α : Type*) where
  code : ℕ
  left : ℕ → α

/-- A call of `DeviceReadSectorsCached`, with the answer of the device should it be asked. -/
structure SectorCall (α : Type*) where
  lsn : ℕ
  sectors : ℕ
  answer : Answer α

/-- `MAX_SECTOR_CACHE`, `sector_cache` and `cur_sector`. -/
structure SectorCache (α : Type*) where
  size : ℕ
  slots : ℕ → α
  curSector : ℕ

namespace SectorCache

variable {α : Type*} {dev : ℕ → α} {s : SectorCache α} {c : SectorCall α}

/-- The value of `cur_sector` before the first read. -/
def noSector : ℕ := 2 ^ 64 - 1

/-- `initCache`: nothing was read yet. -/
def initCache (size : ℕ) (slots : ℕ → α) : SectorCache α := ⟨size, slots, noSector⟩

/-- `DeviceReadSectors`: the answer, and what its destination holds then. -/
def deviceReadSectors (dev : ℕ → α) (lsn : ℕ) (answer : Answer α) : ℕ × (ℕ → α) :=
  (answer.code, fun i => if answer.code = 0 then dev (lsn + i) else answer.left i)

/-- The window does not cover the request. All numbers are `u64`. -/
def misses (s : SectorCache α) (lsn sectors : ℕ) : Prop :=
  s.curSector = noSector ∨ lsn < s.curSector ∨
    s.size < (lsn + sectors + 2 ^ 64 - s.curSector) % 2 ^ 64

instance (s : SectorCache α) (lsn sectors : ℕ) : Decidable (s.misses lsn sectors) :=
  inferInstanceAs (Decidable (_ ∨ _ ∨ _))

/-- The window is read. -/
def refill (dev : ℕ → α) (s : SectorCache α) (c : SectorCall α) : SectorCache α :=
  if s.misses c.lsn c.sectors then
    { s with slots := (deviceReadSectors dev c.lsn c.answer).2, curSector := c.lsn }
  else s

/-- The sectors that are copied out of the window. There are none when they are not all in it. -/
def copyOut (s : SectorCache α) (lsn sectors : ℕ) : Option (List α) :=
  let pos := (lsn + 2 ^ 64 - s.curSector) % 2 ^ 64
  if pos + sectors ≤ s.size then some ((List.range sectors).map fun i => s.slots (pos + i))
  else none

/-- `DeviceReadSectorsCached`: what it returns, and the sectors it stores. -/
def deviceReadSectorsCached (dev : ℕ → α) (s : SectorCache α) (c : SectorCall α) :
    SectorCache α × ℕ × Option (List α) :=
  if c.sectors < s.size then
    let s := refill dev s c
    (s, 0, copyOut s c.lsn c.sectors)
  else
    let (code, data) := deviceReadSectors dev c.lsn c.answer
    (s, code, some ((List.range c.sectors).map data))

/-! ### What a call should do -/

/-- The sectors of a call on the device. -/
def onDevice (dev : ℕ → α) (c : SectorCall α) : List α :=
  (List.range c.sectors).map fun i => dev (c.lsn + i)

/-- The device is asked by the call. -/
def asksDevice (s : SectorCache α) (c : SectorCall α) : Prop :=
  c.sectors < s.size → s.misses c.lsn c.sectors

/-- Every sector of the window was read. -/
def Honest (dev : ℕ → α) (s : SectorCache α) : Prop :=
  s.curSector = noSector ∨ ∀ i < s.size, s.slots i = dev (s.curSector + i)

/-- The call is served as the device would serve it: a success delivers what is on the device, a
failure of the device is returned, and the window is left honest. -/
structure Served (dev : ℕ → α) (s : SectorCache α) (c : SectorCall α) : Prop where
  success : (deviceReadSectorsCached dev s c).2.1 = 0 →
    (deviceReadSectorsCached dev s c).2.2 = some (onDevice dev c)
  failure : asksDevice s c → c.answer.code ≠ 0 →
    (deviceReadSectorsCached dev s c).2.1 = c.answer.code
  honest : Honest dev (deviceReadSectorsCached dev s c).1

/-- All the calls are served, one after the other. -/
def AllServed (dev : ℕ → α) : SectorCache α → List (SectorCall α) → Prop
  | _, [] => True
  | s, c :: cs => Served dev s c ∧ AllServed dev (deviceReadSectorsCached dev s c).1 cs

/-- The call has to move the window, and the device fails. -/
def RefillFails (s : SectorCache α) (c : SectorCall α) : Prop :=
  c.sectors < s.size ∧ s.misses c.lsn c.sectors ∧ c.answer.code ≠ 0

/-- No call of the sequence has to move the window when the device fails. -/
def NoRefillFails (dev : ℕ → α) : SectorCache α → List (SectorCall α) → Prop
  | _, [] => True
  | s, c :: cs => ¬ RefillFails s c ∧ NoRefillFails dev (deviceReadSectorsCached dev s c).1 cs

/-! ### One call -/

theorem refill_size (dev : ℕ → α) (s : SectorCache α) (c : SectorCall α) :
    (refill dev s c).size = s.size := by
  rw [refill]
  split_ifs <;> rfl

theorem Honest.refill (h : Honest dev s) (hc : c.sectors < s.size) (hok : ¬ RefillFails s c) :
    Honest dev (refill dev s c) := by
  rw [SectorCache.refill]
  split_ifs with hmiss
  · refine Or.inr fun i _ => ?_
    have hcode : c.answer.code = 0 := by
      by_contra hne
      exact hok ⟨hc, hmiss, hne⟩
    simp only [deviceReadSectors, if_pos hcode]
  · exact h

/-- After the refill the window covers the request. -/
theorem copyOut_refill (h : Honest dev s) (hc : c.sectors < s.size) (hok : ¬ RefillFails s c)
    (hlsn : c.lsn + c.sectors < 2 ^ 64) :
    copyOut (refill dev s c) c.lsn c.sectors = some (onDevice dev c) := by
  have hhonest := h.refill hc hok
  have hsize := refill_size dev s c
  by_cases hmiss : s.misses c.lsn c.sectors
  · have hcur : (refill dev s c).curSector = c.lsn := by rw [SectorCache.refill, if_pos hmiss]
    have hcode : c.answer.code = 0 := by
      by_contra hne
      exact hok ⟨hc, hmiss, hne⟩
    have hslots : (refill dev s c).slots = fun i => dev (c.lsn + i) := by
      rw [SectorCache.refill, if_pos hmiss]
      funext i
      simp only [deviceReadSectors, if_pos hcode]
    have hpos : (c.lsn + 2 ^ 64 - c.lsn) % 2 ^ 64 = 0 := by
      rw [Nat.add_sub_cancel_left, Nat.mod_self]
    rw [copyOut, hcur, hpos, hsize, hslots]
    simp only [Nat.zero_add]
    rw [if_pos (Nat.le_of_lt hc), onDevice]
  · have hs : refill dev s c = s := by rw [SectorCache.refill, if_neg hmiss]
    rw [misses, not_or, not_or] at hmiss
    obtain ⟨hne, hlt, hle⟩ := hmiss
    have hpos : (c.lsn + 2 ^ 64 - s.curSector) % 2 ^ 64 = c.lsn - s.curSector := by omega
    have hdiff : (c.lsn + c.sectors + 2 ^ 64 - s.curSector) % 2 ^ 64 =
        c.lsn + c.sectors - s.curSector := by omega
    rw [hs, copyOut, hpos, if_pos (by omega), onDevice]
    congr 1
    refine List.map_congr_left fun i hi => ?_
    rw [List.mem_range] at hi
    rw [h.resolve_left hne _ (by omega)]
    congr 1
    omega

theorem Served.of_not_refillFails (h : Honest dev s) (hlsn : c.lsn + c.sectors < 2 ^ 64)
    (hok : ¬ RefillFails s c) : Served dev s c := by
  by_cases hc : c.sectors < s.size
  · have hcall : deviceReadSectorsCached dev s c =
        (refill dev s c, 0, copyOut (refill dev s c) c.lsn c.sectors) := by
      rw [deviceReadSectorsCached, if_pos hc]
    refine ⟨fun _ => ?_, fun hasks hne => absurd ⟨hc, hasks hc, hne⟩ hok, ?_⟩
    · rw [hcall]
      exact copyOut_refill h hc hok hlsn
    · rw [hcall]
      exact h.refill hc hok
  · have hcall : deviceReadSectorsCached dev s c = (s, c.answer.code,
        some ((List.range c.sectors).map (deviceReadSectors dev c.lsn c.answer).2)) := by
      rw [deviceReadSectorsCached, if_neg hc]
      rfl
    refine ⟨fun hcode => ?_, fun _ _ => by rw [hcall], by rw [hcall]; exact h⟩
    rw [hcall] at hcode ⊢
    have hcode : c.answer.code = 0 := hcode
    simp only [deviceReadSectors, if_pos hcode, onDevice]

/-- A refill that fails is reported as a success. -/
theorem not_served_of_refillFails (h : RefillFails s c) : ¬ Served dev s c := by
  obtain ⟨hc, hmiss, hne⟩ := h
  intro hs
  have hcode := hs.failure (fun _ => hmiss) hne
  rw [deviceReadSectorsCached, if_pos hc] at hcode
  exact hne hcode.symm

/-! ### Sequences of calls -/

theorem allServed_iff_of_honest (h : Honest dev s) {cs : List (SectorCall α)}
    (hlsn : ∀ c ∈ cs, c.lsn + c.sectors < 2 ^ 64) :
    AllServed dev s cs ↔ NoRefillFails dev s cs := by
  induction cs generalizing s with
  | nil => exact Iff.rfl
  | cons c cs ih =>
    have hfirst := hlsn c List.mem_cons_self
    have hrest : ∀ x ∈ cs, x.lsn + x.sectors < 2 ^ 64 := fun x hx =>
      hlsn x (List.mem_cons_of_mem c hx)
    constructor
    · rintro ⟨hserved, hall⟩
      exact ⟨fun hfail => not_served_of_refillFails hfail hserved,
        (ih hserved.honest hrest).mp hall⟩
    · rintro ⟨hok, hall⟩
      have hserved := Served.of_not_refillFails h hfirst hok
      exact ⟨hserved, (ih hserved.honest hrest).mpr hall⟩

/-- **The sector cache and failing devices.** From the start, and for any device and any pattern
of errors, all the calls of a sequence are served as the device would serve them exactly when the
device fails in none of the calls that have to move the window. -/
theorem allServed_iff (dev slots : ℕ → α) (size : ℕ) (cs : List (SectorCall α))
    (hlsn : ∀ c ∈ cs, c.lsn + c.sectors < 2 ^ 64) :
    AllServed dev (initCache size slots) cs ↔ NoRefillFails dev (initCache size slots) cs :=
  allServed_iff_of_honest (Or.inl rfl) hlsn

/-- Two reads of neighbouring sectors, of a device that has the sector number in each sector. -/
def neighbours (code : ℕ) : List (SectorCall ℕ) := [⟨10, 1, ⟨code, fun _ => 99⟩⟩, ⟨11, 2, ⟨0, id⟩⟩]

theorem allServed_neighbours : AllServed id (initCache 4 id) (neighbours 0) := by
  refine (allServed_iff id id 4 (neighbours 0) (by decide)).mpr ⟨?_, ?_, trivial⟩
  · exact fun h => h.2.2 rfl
  · exact fun h => h.2.2 rfl

/-- The device fails with code 2 when the window is filled. The call returns success and stores what
the failed read left, and so does the next one, without asking the device again. -/
theorem not_allServed_neighbours :
    (∀ c ∈ neighbours 2, c.lsn + c.sectors < 2 ^ 64) ∧
      ¬ AllServed id (initCache 4 id) (neighbours 2) ∧
      ∃ s, deviceReadSectorsCached id (initCache 4 id) ⟨10, 1, ⟨2, fun _ => 99⟩⟩ =
          (s, 0, some [99]) ∧
        (deviceReadSectorsCached id s ⟨11, 2, ⟨0, id⟩⟩).2 = (0, some [99, 99]) := by
  refine ⟨by decide, fun h => ?_, _, rfl, by decide⟩
  have := h.1.success rfl
  exact absurd this (by decide)

end SectorCache

end OpenPS2Loader
