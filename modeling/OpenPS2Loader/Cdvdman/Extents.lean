import Mathlib.Algebra.Group.Nat.Defs
import Mathlib.Data.List.Range

/-!
# Extents of a disc image on the hard disk

`DeviceReadSectors` of `device-hdd.c`: a disc image lies in up to 65 extents of the hard disk. The
extent of the last sector that was read is remembered in `CurrentPart`, across calls, and the table
is searched when the next sector is not in it.

All numbers are `u32`, the sector number as well: only the lower half of the `u64` argument is
looked at. The end of an extent is the sum modulo `2 ^ 32`, and the LBA of a sector is too. So an
extent that ends at sector `2 ^ 32` or behind it counts as one without sectors.

## Main definitions

* `Extent`, `ExtentTable` — `hdl_partspecs_t`, and a table of extents that do not overlap
* `ExtentTable.deviceReadSectors` — the loop, with the transfers it makes
* `ExtentTable.MapsRequest` — what a request has to transfer, by the numbers of the extents
* `ExtentTable.Addressable` — 32 bits are enough for a sector

## Main results

* `ExtentTable.mapsRequest` — when a request is mapped, whatever extent is remembered
* `ExtentTable.not_mapsRequest_lastSector`
-/

namespace OpenPS2Loader

/-- `hdl_partspecs_t`. -/
structure Extent where
  partOffset : UInt32
  dataStart : UInt32
  partSize : UInt32

namespace Extent

/-- The sector behind the extent. -/
def stop (e : Extent) : UInt32 := e.partOffset + e.partSize / 2048

/-- The sector is in the extent. -/
def Contains (e : Extent) (lsn : UInt32) : Prop := e.partOffset ≤ lsn ∧ lsn < e.stop

instance (e : Extent) (lsn : UInt32) : Decidable (e.Contains lsn) :=
  inferInstanceAs (Decidable (_ ∧ _))

/-- The sector behind the extent, as a number. -/
def finish (e : Extent) : ℕ := e.partOffset.toNat + e.partSize.toNat / 2048

/-- The sector is in the range of the extent. -/
def Holds (e : Extent) (n : ℕ) : Prop := e.partOffset.toNat ≤ n ∧ n < e.finish

instance (e : Extent) (n : ℕ) : Decidable (e.Holds n) := inferInstanceAs (Decidable (_ ∧ _))

/-- Where a sector of the range is on the disk. -/
def place (e : Extent) (n : ℕ) : ℕ := e.dataStart.toNat + 4 * (n - e.partOffset.toNat)

/-- The LBA of a sector of the extent. -/
def lba (e : Extent) (lsn : UInt32) : UInt32 := e.dataStart + ((lsn - e.partOffset) <<< 2)

theorem contains_iff (e : Extent) (lsn : UInt32) :
    e.Contains lsn ↔ e.partOffset.toNat ≤ lsn.toNat ∧
      lsn.toNat < e.partOffset.toNat + e.partSize.toNat / 2048 ∧
      e.stop.toNat = e.partOffset.toNat + e.partSize.toNat / 2048 := by
  have hstop : e.stop.toNat = (e.partOffset.toNat + e.partSize.toNat / 2048) % 2 ^ 32 := by
    rw [stop, UInt32.toNat_add, UInt32.toNat_div]
    rfl
  have hsize := e.partSize.toNat_lt
  have hoff := e.partOffset.toNat_lt
  have hlsn := lsn.toNat_lt
  rw [Contains, UInt32.le_iff_toNat_le, UInt32.lt_iff_toNat_lt]
  omega

/-- The test of the code is right for an extent that ends below `2 ^ 32`, and fails otherwise. -/
theorem contains_iff_holds (e : Extent) (lsn : UInt32) :
    e.Contains lsn ↔ e.Holds lsn.toNat ∧ e.finish < 2 ^ 32 := by
  have hstop := e.stop.toNat_lt
  have hsum : e.stop.toNat = e.finish % 2 ^ 32 := by
    rw [stop, UInt32.toNat_add, UInt32.toNat_div]
    rfl
  rw [contains_iff, Holds]
  rw [finish] at hsum ⊢
  omega

/-- The LBA of a sector is its place, modulo `2 ^ 32`. -/
theorem lba_eq_place {e : Extent} {n : ℕ} (h : e.Holds n) :
    (e.lba (UInt32.ofNat n)).toNat = e.place n % 2 ^ 32 := by
  have hle := h.1
  have hoff := e.partOffset.toNat_lt
  rw [lba, UInt32.toNat_add, UInt32.toNat_shiftLeft, Nat.shiftLeft_eq, UInt32.toNat_sub,
    UInt32.toNat_ofNat', place]
  show (e.dataStart.toNat + (2 ^ 32 - e.partOffset.toNat + n % 2 ^ 32) % 2 ^ 32 * 4 % 2 ^ 32) %
    2 ^ 32 = _
  omega

/-- The sectors from one in the extent up to its end are in it. -/
theorem Contains.add {e : Extent} {lsn : UInt32} (h : e.Contains lsn) {j : ℕ}
    (hj : j < (e.stop - lsn).toNat) : e.Contains (lsn + UInt32.ofNat j) := by
  rw [contains_iff] at h ⊢
  have hstop := e.stop.toNat_lt
  have hlsn := lsn.toNat_lt
  rw [UInt32.toNat_sub] at hj
  rw [UInt32.toNat_add, UInt32.toNat_ofNat']
  omega

/-- There is at least the sector itself. -/
theorem Contains.sub_pos {e : Extent} {lsn : UInt32} (h : e.Contains lsn) :
    0 < (e.stop - lsn).toNat := by
  rw [contains_iff] at h
  have hstop := e.stop.toNat_lt
  have hlsn := lsn.toNat_lt
  rw [UInt32.toNat_sub]
  omega

/-- Sectors lie one behind the other in their extent. -/
theorem lba_add (e : Extent) (lsn : UInt32) (j : ℕ) :
    e.lba (lsn + UInt32.ofNat j) = e.lba lsn + UInt32.ofNat (4 * j) := by
  have hshift : ∀ x : UInt32, (x <<< 2).toNat = x.toNat * 4 % 2 ^ 32 := by
    intro x
    rw [UInt32.toNat_shiftLeft, Nat.shiftLeft_eq]
    rfl
  rw [← UInt32.toNat_inj]
  simp only [lba, UInt32.toNat_add, hshift, UInt32.toNat_sub, UInt32.toNat_ofNat']
  have hoff := e.partOffset.toNat_lt
  omega

end Extent

/-! ### The table -/

/-- `cdvdman_partspecs` with `NumParts`: the extents do not overlap. -/
structure ExtentTable where
  extents : List Extent
  pos : 0 < extents.length
  /-- `HDL_NUM_PART_SPECS` -/
  length_le : extents.length ≤ 65
  disjoint : ∀ i j : Fin extents.length, ∀ n,
    (extents.get i).Holds n → (extents.get j).Holds n → i = j

/-- A result of `DeviceReadSectors`. -/
inductive ExtentResult
  | no
  | trmopn
  | read
  deriving DecidableEq, Repr

/-- A call of `sceAtaDmaTransfer`: an offset in the buffer, an LBA and a number of 2048-byte
sectors. -/
structure DmaTransfer where
  offset : UInt32
  lba : UInt32
  nsectors : ℕ
  deriving DecidableEq

/-- The sectors of a transfer: where each goes in the buffer, and the LBA it comes from. -/
def DmaTransfer.sectors (t : DmaTransfer) : List (UInt32 × UInt32) :=
  (List.range t.nsectors).map fun j =>
    (t.offset + UInt32.ofNat (2048 * j), t.lba + UInt32.ofNat (4 * j))

namespace ExtentTable

variable {t : ExtentTable} {cur cur' : Fin t.extents.length} {lsn : UInt32}

/-- `cdvdman_get_part_specs`: the first extent with the sector. -/
def getPartSpecs (t : ExtentTable) (lsn : UInt32) : Option (Fin t.extents.length) :=
  (List.finRange t.extents.length).find? fun i => decide ((t.extents.get i).Contains lsn)

/-- The extent of the next sector: `CurrentPart`, or the one that is found. -/
def seek (t : ExtentTable) (cur : Fin t.extents.length) (lsn : UInt32) :
    Option (Fin t.extents.length) :=
  if (t.extents.get cur).Contains lsn then some cur else t.getPartSpecs lsn

/-- What a call leaves: its result, `CurrentPart`, and the transfers it made. -/
structure Outcome (t : ExtentTable) where
  result : ExtentResult
  cur : Fin t.extents.length
  transfers : List DmaTransfer

/-- The outcome with one more transfer in front. -/
def Outcome.cons (d : DmaTransfer) (o : Outcome t) : Outcome t :=
  { o with transfers := d :: o.transfers }

/-- The loop of `DeviceReadSectors`; `ata` says which transfers succeed. Every iteration takes at
least one sector, which bounds them. -/
def readLoop (t : ExtentTable) : ℕ → (ℕ → Bool) → Fin t.extents.length → UInt32 → UInt32 → ℕ →
    Outcome t
  | 0, _, cur, _, _, _ => ⟨.no, cur, []⟩
  | fuel + 1, ata, cur, lsn, offset, sectors =>
    if sectors = 0 then ⟨.no, cur, []⟩
    else
      match t.seek cur lsn with
      | none => ⟨.trmopn, cur, []⟩
      | some cur =>
        let e := t.extents.get cur
        let nsectors := min sectors (e.stop - lsn).toNat
        let d : DmaTransfer := ⟨offset, e.lba lsn, nsectors⟩
        if ata 0 then
          (readLoop t fuel (fun n => ata (n + 1)) cur (lsn + UInt32.ofNat nsectors)
            (offset + UInt32.ofNat (nsectors * 2048)) (sectors - nsectors)).cons d
        else ⟨.read, cur, [d]⟩

/-- `DeviceReadSectors`. -/
def deviceReadSectors (t : ExtentTable) (ata : ℕ → Bool) (cur : Fin t.extents.length) (lsn : UInt64)
    (sectors : UInt32) : Outcome t :=
  t.readLoop sectors.toNat ata cur lsn.toUInt32 0 sectors.toNat

/-! ### The remembered extent does not matter -/

theorem contains_of_getPartSpecs {i : Fin t.extents.length} (h : t.getPartSpecs lsn = some i) :
    (t.extents.get i).Contains lsn := by
  rw [getPartSpecs] at h
  have hfound := List.find?_some h
  exact of_decide_eq_true hfound

theorem getPartSpecs_eq_some {i : Fin t.extents.length} (h : (t.extents.get i).Contains lsn) :
    t.getPartSpecs lsn = some i := by
  have hsome : (t.getPartSpecs lsn).isSome := by
    rw [getPartSpecs, List.find?_isSome]
    exact ⟨i, List.mem_finRange i, decide_eq_true h⟩
  obtain ⟨j, hj⟩ := Option.isSome_iff_exists.mp hsome
  have hfirst := (Extent.contains_iff_holds _ _).mp (contains_of_getPartSpecs hj)
  rw [hj, t.disjoint j i lsn.toNat hfirst.1 ((Extent.contains_iff_holds _ _).mp h).1]

theorem getPartSpecs_eq_none (h : t.getPartSpecs lsn = none) :
    ∀ e ∈ t.extents, ¬ e.Contains lsn := by
  intro e he hcontains
  obtain ⟨i, rfl⟩ := List.mem_iff_get.mp he
  rw [getPartSpecs_eq_some hcontains] at h
  cases h

/-- The search gives the remembered extent when the sector is in it. -/
theorem seek_eq_getPartSpecs (t : ExtentTable) (cur : Fin t.extents.length) (lsn : UInt32) :
    t.seek cur lsn = t.getPartSpecs lsn := by
  rw [seek]
  split_ifs with h
  · rw [getPartSpecs_eq_some h]
  · rfl

theorem readLoop_cur (t : ExtentTable) (fuel : ℕ) (ata : ℕ → Bool) (cur cur' : Fin t.extents.length)
    (lsn offset : UInt32) (sectors : ℕ) :
    (t.readLoop fuel ata cur lsn offset sectors).result =
        (t.readLoop fuel ata cur' lsn offset sectors).result ∧
      (t.readLoop fuel ata cur lsn offset sectors).transfers =
        (t.readLoop fuel ata cur' lsn offset sectors).transfers := by
  cases fuel with
  | zero => exact ⟨rfl, rfl⟩
  | succ fuel =>
    rw [readLoop, readLoop, seek_eq_getPartSpecs, seek_eq_getPartSpecs]
    by_cases h0 : sectors = 0
    · rw [if_pos h0, if_pos h0]
      exact ⟨rfl, rfl⟩
    · rw [if_neg h0, if_neg h0]
      cases t.getPartSpecs lsn with
      | none => exact ⟨rfl, rfl⟩
      | some i => exact ⟨rfl, rfl⟩

/-! ### The transfers -/

/-- Where a sector goes and where it comes from, when an extent has it. -/
def mapped (t : ExtentTable) (lsn offset : UInt32) (k : ℕ) : Option (UInt32 × UInt32) :=
  (t.getPartSpecs (lsn + UInt32.ofNat k)).map fun i =>
    (offset + UInt32.ofNat (2048 * k), (t.extents.get i).lba (lsn + UInt32.ofNat k))

theorem mapped_add (t : ExtentTable) (lsn offset : UInt32) (m k : ℕ) :
    t.mapped lsn offset (m + k) =
      t.mapped (lsn + UInt32.ofNat m) (offset + UInt32.ofNat (m * 2048)) k := by
  have hlsn : lsn + UInt32.ofNat (m + k) = lsn + UInt32.ofNat m + UInt32.ofNat k := by
    rw [UInt32.ofNat_add, UInt32.add_assoc]
  have hoff : offset + UInt32.ofNat (2048 * (m + k)) =
      offset + UInt32.ofNat (m * 2048) + UInt32.ofNat (2048 * k) := by
    rw [Nat.mul_add, UInt32.ofNat_add, UInt32.add_assoc, Nat.mul_comm 2048 m]
  rw [mapped, mapped, hlsn, hoff]

/-- The sectors of one transfer are those of the map. -/
theorem sectors_map_some {i : Fin t.extents.length} (h : t.getPartSpecs lsn = some i)
    (offset : UInt32) {n : ℕ} (hn : n ≤ ((t.extents.get i).stop - lsn).toNat) :
    (DmaTransfer.sectors ⟨offset, (t.extents.get i).lba lsn, n⟩).map some =
      (List.range n).map (t.mapped lsn offset) := by
  have hcontains := contains_of_getPartSpecs h
  rw [DmaTransfer.sectors, List.map_map]
  refine List.map_congr_left fun j hj => ?_
  have hj' := List.mem_range.mp hj
  have hfound := getPartSpecs_eq_some (hcontains.add (Nat.lt_of_lt_of_le hj' hn))
  rw [mapped, hfound, Option.map_some, Extent.lba_add]
  rfl

/-- The transfers of the loop are those of the map for the first sectors of the request: for all
of them when there is no error, and up to the first one that no extent has when it says so. -/
theorem readLoop_maps (t : ExtentTable) (fuel : ℕ) (ata : ℕ → Bool) (cur : Fin t.extents.length)
    (lsn offset : UInt32) {n : ℕ} (hfuel : n ≤ fuel) :
    ∃ m ≤ n,
      ((t.readLoop fuel ata cur lsn offset n).transfers.flatMap DmaTransfer.sectors).map some =
        (List.range m).map (t.mapped lsn offset) ∧
      ((t.readLoop fuel ata cur lsn offset n).result = .no → m = n) ∧
      ((t.readLoop fuel ata cur lsn offset n).result = .trmopn →
        m < n ∧ t.getPartSpecs (lsn + UInt32.ofNat m) = none) ∧
      ((t.readLoop fuel ata cur lsn offset n).result = .read → ∃ k, ata k = false) := by
  induction fuel generalizing ata cur lsn offset n with
  | zero =>
    have h0 : n = 0 := by omega
    exact ⟨0, by omega, rfl, fun _ => h0.symm, nofun, nofun⟩
  | succ fuel ih =>
    rw [readLoop, seek_eq_getPartSpecs]
    by_cases h0 : n = 0
    · rw [if_pos h0]
      exact ⟨0, by omega, rfl, fun _ => h0.symm, nofun, nofun⟩
    rw [if_neg h0]
    cases hfound : t.getPartSpecs lsn with
    | none =>
      refine ⟨0, by omega, rfl, nofun, fun _ => ⟨by omega, ?_⟩, nofun⟩
      rw [show lsn + UInt32.ofNat 0 = lsn from UInt32.add_zero lsn]
      exact hfound
    | some i =>
      dsimp only
      generalize hd : min n ((t.extents.get i).stop - lsn).toNat = d
      have hpos := (contains_of_getPartSpecs hfound).sub_pos
      have hsectors := sectors_map_some hfound offset
        (show d ≤ ((t.extents.get i).stop - lsn).toNat by omega)
      by_cases hata : ata 0 = true
      · rw [if_pos hata]
        obtain ⟨m, hm, hmap, hno, htrmopn, hread⟩ := ih (fun n => ata (n + 1)) i
          (lsn + UInt32.ofNat d) (offset + UInt32.ofNat (d * 2048)) (show n - d ≤ fuel by omega)
        refine ⟨d + m, by omega, ?_, fun h => ?_, fun h => ?_, fun h => ?_⟩
        · rw [Outcome.cons, List.flatMap_cons, List.map_append, hsectors, hmap, List.range_add,
            List.map_append, List.map_map]
          congr 1
          exact List.map_congr_left fun k _ => (mapped_add t lsn offset d k).symm
        · rw [hno h]
          omega
        · obtain ⟨hlt, hnone⟩ := htrmopn h
          refine ⟨by omega, ?_⟩
          rw [UInt32.ofNat_add, ← UInt32.add_assoc]
          exact hnone
        · obtain ⟨k, hk⟩ := hread h
          exact ⟨k + 1, hk⟩
      · rw [if_neg hata]
        refine ⟨d, by omega, ?_, nofun, nofun, fun _ => ⟨0, ?_⟩⟩
        · rw [List.flatMap_singleton, hsectors]
        · exact Bool.not_eq_true _ ▸ hata

/-- The sectors that a call transfers. -/
def moved (t : ExtentTable) (ata : ℕ → Bool) (cur : Fin t.extents.length) (lsn : UInt64)
    (sectors : UInt32) : List (UInt32 × UInt32) :=
  (t.deviceReadSectors ata cur lsn sectors).transfers.flatMap DmaTransfer.sectors

/-- The sector is in an extent. -/
def Held (t : ExtentTable) (n : ℕ) : Prop := ∃ e ∈ t.extents, e.Holds n

/-- What a request has to transfer: sector after sector, each from its place; all of them up to one
that is in no extent, which makes the call fail; and the same for every extent that is remembered.
The drive may stop it with a transfer that fails. -/
structure MapsRequest (t : ExtentTable) (lsn : UInt64) (sectors : UInt32) : Prop where
  place : ∀ ata cur k x, (t.moved ata cur lsn sectors)[k]? = some x → k < sectors.toNat ∧
    ∃ e ∈ t.extents, e.Holds (lsn.toNat + k) ∧ x.1 = UInt32.ofNat (2048 * k) ∧
      x.2.toNat = e.place (lsn.toNat + k)
  all : ∀ ata cur, (t.deviceReadSectors ata cur lsn sectors).result = .no →
    (t.moved ata cur lsn sectors).length = sectors.toNat
  held : ∀ ata cur, (∀ k, ata k = true) → ∀ k < sectors.toNat,
    (∀ j ≤ k, t.Held (lsn.toNat + j)) → k < (t.moved ata cur lsn sectors).length
  trmopn : ∀ ata cur, (∀ k, ata k = true) →
    ((t.deviceReadSectors ata cur lsn sectors).result = .trmopn ↔
      ∃ k < sectors.toNat, ¬ t.Held (lsn.toNat + k))
  no : ∀ ata cur, (∀ k, ata k = true) →
    ((t.deviceReadSectors ata cur lsn sectors).result = .no ↔
      ∀ k < sectors.toNat, t.Held (lsn.toNat + k))
  cursor : ∀ ata cur cur', (t.deviceReadSectors ata cur' lsn sectors).result =
      (t.deviceReadSectors ata cur lsn sectors).result ∧
    (t.deviceReadSectors ata cur' lsn sectors).transfers =
      (t.deviceReadSectors ata cur lsn sectors).transfers

/-- 32 bits are enough for a sector: the end of its extent and its place have not more, or it is in
no extent without its upper half either. -/
structure Addressable (t : ExtentTable) (n : ℕ) : Prop where
  held : ∀ e ∈ t.extents, e.Holds n → e.finish < 2 ^ 32 ∧ e.place n < 2 ^ 32
  free : ¬ t.Held n → ∀ e ∈ t.extents, e.Holds (n % 2 ^ 32) → 2 ^ 32 ≤ e.finish

/-- Every sector of the request up to the first one that is in no extent is addressable. -/
def AddressableRequest (t : ExtentTable) (lsn : UInt64) (sectors : UInt32) : Prop :=
  ∀ k < sectors.toNat, (∀ j < k, t.Held (lsn.toNat + j)) → t.Addressable (lsn.toNat + k)

theorem eq_of_holds {e e' : Extent} {n : ℕ} (he : e ∈ t.extents) (he' : e' ∈ t.extents)
    (h : e.Holds n) (h' : e'.Holds n) : e = e' := by
  obtain ⟨i, rfl⟩ := List.mem_iff_get.mp he
  obtain ⟨j, rfl⟩ := List.mem_iff_get.mp he'
  rw [t.disjoint i j n h h']

/-- The extent that is found for an addressable sector is the one with it. -/
theorem Addressable.contains_iff {e : Extent} {n : ℕ} (h : t.Addressable n) (he : e ∈ t.extents) :
    e.Contains (UInt32.ofNat n) ↔ e.Holds n := by
  rw [Extent.contains_iff_holds, UInt32.toNat_ofNat']
  constructor
  · rintro ⟨hmod, hfinish⟩
    by_cases hheld : t.Held n
    · obtain ⟨e', he', h'⟩ := hheld
      have hn : n < 2 ^ 32 := Nat.lt_trans h'.2 (h.held e' he' h').1
      rwa [Nat.mod_eq_of_lt hn] at hmod
    · exact absurd (h.free hheld e he hmod) (Nat.not_le.mpr hfinish)
  · intro hholds
    have hfinish := (h.held e he hholds).1
    rw [Nat.mod_eq_of_lt (Nat.lt_trans hholds.2 hfinish)]
    exact ⟨hholds, hfinish⟩

/-- What the loop does, by the numbers of the sectors. -/
theorem deviceReadSectors_spec (t : ExtentTable) (ata : ℕ → Bool) (cur : Fin t.extents.length)
    (lsn : UInt64) (sectors : UInt32) :
    ∃ m ≤ sectors.toNat, (t.moved ata cur lsn sectors).length = m ∧
      (∀ k < m, ∃ e ∈ t.extents, e.Contains (UInt32.ofNat (lsn.toNat + k)) ∧
        (t.moved ata cur lsn sectors)[k]? =
          some (UInt32.ofNat (2048 * k), e.lba (UInt32.ofNat (lsn.toNat + k)))) ∧
      ((t.deviceReadSectors ata cur lsn sectors).result = .no → m = sectors.toNat) ∧
      ((t.deviceReadSectors ata cur lsn sectors).result = .trmopn → m < sectors.toNat ∧
        ∀ e ∈ t.extents, ¬ e.Contains (UInt32.ofNat (lsn.toNat + m))) ∧
      ((t.deviceReadSectors ata cur lsn sectors).result = .read → ∃ k, ata k = false) := by
  have hlsn : ∀ k, lsn.toUInt32 + UInt32.ofNat k = UInt32.ofNat (lsn.toNat + k) := by
    intro k
    rw [← UInt32.toNat_inj, UInt32.toNat_add, UInt64.toNat_toUInt32, UInt32.toNat_ofNat',
      UInt32.toNat_ofNat']
    omega
  obtain ⟨m, hm, hmap, hno, htrmopn, hread⟩ :=
    t.readLoop_maps sectors.toNat ata cur lsn.toUInt32 0 (Nat.le_refl _)
  rw [← deviceReadSectors] at hmap hno htrmopn hread
  change (t.moved ata cur lsn sectors).map some = _ at hmap
  have hlen := congrArg List.length hmap
  rw [List.length_map, List.length_map, List.length_range] at hlen
  refine ⟨m, hm, hlen, fun k hk => ?_, hno, fun h => ⟨(htrmopn h).1, ?_⟩, hread⟩
  · have hget := congrArg (fun l => l[k]?) hmap
    simp only [List.getElem?_map, List.getElem?_range hk, Option.map_some] at hget
    obtain ⟨y, hy, hmapped⟩ := Option.map_eq_some_iff.mp hget
    obtain ⟨i, hi, rfl⟩ := Option.map_eq_some_iff.mp hmapped.symm
    rw [hlsn] at hi
    refine ⟨t.extents.get i, List.get_mem _ _, contains_of_getPartSpecs hi, ?_⟩
    rw [hy, UInt32.zero_add, hlsn]
  · have hnone := (htrmopn h).2
    rw [hlsn] at hnone
    exact getPartSpecs_eq_none hnone

/-- The sectors of a request that is addressable are moved as far as they are held; by induction on
their number. -/
theorem held_of_moved {lsn : UInt64} {sectors : UInt32} {m : ℕ}
    (h : t.AddressableRequest lsn sectors) (hm : m ≤ sectors.toNat)
    (hfound : ∀ k < m, ∃ e ∈ t.extents, e.Contains (UInt32.ofNat (lsn.toNat + k))) :
    ∀ k < m, t.Held (lsn.toNat + k) := by
  intro k
  induction k using Nat.strongRecOn with
  | ind k ih =>
    intro hk
    obtain ⟨e, he, hcontains⟩ := hfound k hk
    have haddr := h k (Nat.lt_of_lt_of_le hk hm) fun j hj => ih j hj (Nat.lt_trans hj hk)
    exact ⟨e, he, (haddr.contains_iff he).mp hcontains⟩

/-- A call of a request that is addressable, by the ranges of the extents. -/
theorem AddressableRequest.spec {lsn : UInt64} {sectors : UInt32}
    (h : t.AddressableRequest lsn sectors) (ata : ℕ → Bool) (cur : Fin t.extents.length) :
    ∃ m ≤ sectors.toNat, (t.moved ata cur lsn sectors).length = m ∧
      (∀ k < m, ∃ e ∈ t.extents, e.Holds (lsn.toNat + k) ∧
        (t.moved ata cur lsn sectors)[k]? =
          some (UInt32.ofNat (2048 * k), e.lba (UInt32.ofNat (lsn.toNat + k)))) ∧
      ((t.deviceReadSectors ata cur lsn sectors).result = .no → m = sectors.toNat) ∧
      ((t.deviceReadSectors ata cur lsn sectors).result = .trmopn →
        m < sectors.toNat ∧ ¬ t.Held (lsn.toNat + m)) ∧
      ((t.deviceReadSectors ata cur lsn sectors).result = .read → ∃ k, ata k = false) := by
  obtain ⟨m, hm, hlen, hmoved, hno, htrmopn, hread⟩ := t.deviceReadSectors_spec ata cur lsn sectors
  have hheld := held_of_moved h hm fun k hk => by
    obtain ⟨e, he, hcontains, -⟩ := hmoved k hk
    exact ⟨e, he, hcontains⟩
  refine ⟨m, hm, hlen, fun k hk => ?_, hno, fun hres => ⟨(htrmopn hres).1, ?_⟩, hread⟩
  · obtain ⟨e, he, hcontains, hget⟩ := hmoved k hk
    have haddr := h k (Nat.lt_of_lt_of_le hk hm) fun j hj => hheld j (Nat.lt_trans hj hk)
    exact ⟨e, he, (haddr.contains_iff he).mp hcontains, hget⟩
  · rintro ⟨e, he, hholds⟩
    have haddr := h m (htrmopn hres).1 hheld
    exact (htrmopn hres).2 e he ((haddr.contains_iff he).mpr hholds)

/-- On a drive that makes every transfer, such a request is moved up to the first sector that is in
no extent. -/
theorem AddressableRequest.spec_drive {lsn : UInt64} {sectors : UInt32}
    (h : t.AddressableRequest lsn sectors) {ata : ℕ → Bool} (hata : ∀ k, ata k = true)
    (cur : Fin t.extents.length) :
    (∀ k < (t.moved ata cur lsn sectors).length, t.Held (lsn.toNat + k)) ∧
      ((t.deviceReadSectors ata cur lsn sectors).result = .no ∧
          (t.moved ata cur lsn sectors).length = sectors.toNat ∨
        (t.deviceReadSectors ata cur lsn sectors).result = .trmopn ∧
          (t.moved ata cur lsn sectors).length < sectors.toNat ∧
          ¬ t.Held (lsn.toNat + (t.moved ata cur lsn sectors).length)) := by
  obtain ⟨m, -, hlen, hmoved, hno, htrmopn, hread⟩ := h.spec ata cur
  rw [hlen]
  refine ⟨fun k hk => ?_, ?_⟩
  · obtain ⟨e, he, hholds, -⟩ := hmoved k hk
    exact ⟨e, he, hholds⟩
  · cases hres : (t.deviceReadSectors ata cur lsn sectors).result with
    | no => exact .inl ⟨rfl, hno hres⟩
    | trmopn => exact .inr ⟨rfl, htrmopn hres⟩
    | read =>
      obtain ⟨k, hk⟩ := hread hres
      rw [hata k] at hk
      cases hk

theorem AddressableRequest.maps {lsn : UInt64} {sectors : UInt32}
    (h : t.AddressableRequest lsn sectors) : t.MapsRequest lsn sectors where
  place ata cur k x hx := by
    obtain ⟨m, hm, hlen, hmoved, -⟩ := h.spec ata cur
    have hk : k < m := by
      rw [← hlen]
      exact (List.getElem?_eq_some_iff.mp hx).1
    obtain ⟨e, he, hholds, hget⟩ := hmoved k hk
    have hlt := Nat.lt_of_lt_of_le hk hm
    have haddr := h k hlt fun j hj => by
      obtain ⟨e, he, hholds, -⟩ := hmoved j (Nat.lt_trans hj hk)
      exact ⟨e, he, hholds⟩
    obtain rfl := Option.some.inj (hx.symm.trans hget)
    refine ⟨hlt, e, he, hholds, rfl, ?_⟩
    rw [Extent.lba_eq_place hholds, Nat.mod_eq_of_lt (haddr.held e he hholds).2]
  all ata cur hres := by
    obtain ⟨m, -, hlen, -, hno, -⟩ := h.spec ata cur
    rw [hlen, hno hres]
  held ata cur hata k hk hheld := by
    obtain ⟨-, ⟨-, hlen⟩ | ⟨-, hlt, hfree⟩⟩ := h.spec_drive hata cur
    · rwa [hlen]
    · by_contra hge
      exact hfree (hheld _ (Nat.not_lt.mp hge))
  trmopn ata cur hata := by
    obtain ⟨hmoved, ⟨hres, hlen⟩ | ⟨hres, hlt, hfree⟩⟩ := h.spec_drive hata cur
    · rw [hlen] at hmoved
      rw [hres]
      exact ⟨nofun, fun ⟨k, hk, hfree⟩ => absurd (hmoved k hk) hfree⟩
    · exact ⟨fun _ => ⟨_, hlt, hfree⟩, fun _ => hres⟩
  no ata cur hata := by
    obtain ⟨hmoved, ⟨hres, hlen⟩ | ⟨hres, hlt, hfree⟩⟩ := h.spec_drive hata cur
    · rw [hlen] at hmoved
      exact ⟨fun _ => hmoved, fun _ => hres⟩
    · rw [hres]
      exact ⟨nofun, fun hall => absurd (hall _ hlt) hfree⟩
  cursor ata cur cur' := readLoop_cur ..

/-- A held sector of a request that is mapped: what the code finds for it is at its place. -/
theorem MapsRequest.found {lsn : UInt64} {sectors : UInt32} (h : t.MapsRequest lsn sectors) {k : ℕ}
    (hk : k < (t.moved (fun _ => true) ⟨0, t.pos⟩ lsn sectors).length) :
    ∃ e ∈ t.extents, e.Holds (lsn.toNat + k) ∧ e.place (lsn.toNat + k) < 2 ^ 32 ∧
      ∃ e' ∈ t.extents, e'.Contains (UInt32.ofNat (lsn.toNat + k)) := by
  obtain ⟨m, -, hlen, hmoved, -⟩ := t.deviceReadSectors_spec (fun _ => true) ⟨0, t.pos⟩ lsn sectors
  obtain ⟨e', he', hcontains, hget⟩ := hmoved k (by rwa [← hlen])
  obtain ⟨-, e, he, hholds, -, hplace⟩ := h.place _ _ k _ hget
  refine ⟨e, he, hholds, ?_, e', he', hcontains⟩
  rw [← hplace]
  exact UInt32.toNat_lt _

/-- An extent of a request below `2 ^ 32` that is mapped ends below `2 ^ 32`: if it did not, its
sector `2 ^ 32 - 1` would not be found. -/
theorem MapsRequest.finish_lt {lsn : UInt64} {sectors : UInt32} (h : t.MapsRequest lsn sectors)
    (hlsn : lsn.toNat < 2 ^ 32) {k : ℕ} (hk : k < sectors.toNat)
    (hheld : ∀ j ≤ k, t.Held (lsn.toNat + j)) {e : Extent} (he : e ∈ t.extents)
    (hholds : e.Holds (lsn.toNat + k)) : e.finish < 2 ^ 32 := by
  obtain ⟨j, hj, hlt, hholdsj⟩ : ∃ j ≤ k, lsn.toNat + j < 2 ^ 32 ∧ e.Holds (lsn.toNat + j) := by
    rcases Nat.lt_or_ge (lsn.toNat + k) (2 ^ 32) with hlt | hge
    · exact ⟨k, Nat.le_refl k, hlt, hholds⟩
    · have hoff := e.partOffset.toNat_lt
      have hend := hholds.2
      refine ⟨2 ^ 32 - 1 - lsn.toNat, by omega, by omega, ?_, ?_⟩
      · omega
      · omega
  have hmoved := h.held (fun _ => true) ⟨0, t.pos⟩ (fun _ => rfl) j (by omega)
    fun i hi => hheld i (Nat.le_trans hi hj)
  obtain ⟨-, -, -, -, e', he', hcontains⟩ := h.found hmoved
  obtain ⟨hholds', hfinish⟩ := (Extent.contains_iff_holds _ _).mp hcontains
  rw [UInt32.toNat_ofNat', Nat.mod_eq_of_lt hlt] at hholds'
  rwa [eq_of_holds he he' hholdsj hholds']

/-- The code finds no extent for a sector that has none, where the request is mapped. -/
theorem MapsRequest.free {lsn : UInt64} {sectors : UInt32} (h : t.MapsRequest lsn sectors) {k : ℕ}
    (hk : k < sectors.toNat) (hbefore : ∀ j < k, t.Held (lsn.toNat + j))
    (hfree : ¬ t.Held (lsn.toNat + k)) {e : Extent} (he : e ∈ t.extents) :
    ¬ e.Contains (UInt32.ofNat (lsn.toNat + k)) := by
  intro hcontains
  obtain ⟨m, hm, hlen, hmoved, -, htrmopn, -⟩ :=
    t.deviceReadSectors_spec (fun _ => true) ⟨0, t.pos⟩ lsn sectors
  obtain ⟨hlt, hnone⟩ := htrmopn ((h.trmopn _ _ fun _ => rfl).mpr ⟨k, hk, hfree⟩)
  -- the sectors in front of `k` are moved, and `k` is not, so the loop stops at `k`
  have hge : k ≤ m := by
    rcases Nat.eq_zero_or_pos k with rfl | hpos
    · exact Nat.zero_le m
    · have hlast := h.held (fun _ => true) ⟨0, t.pos⟩ (fun _ => rfl) (k - 1) (by omega)
        fun j hj => hbefore j (by omega)
      omega
  have hle : m ≤ k := by
    by_contra hlt
    obtain ⟨e', he', hholds, -⟩ := h.found (k := k) (by rw [hlen]; omega)
    exact hfree ⟨e', he', hholds⟩
  obtain rfl : m = k := by omega
  exact hnone e he hcontains

theorem MapsRequest.addressableRequest {lsn : UInt64} {sectors : UInt32}
    (h : t.MapsRequest lsn sectors) (hlsn : lsn.toNat < 2 ^ 32) :
    t.AddressableRequest lsn sectors := by
  intro k hk hbefore
  refine ⟨fun e he hholds => ?_, fun hfree e he hmod => ?_⟩
  · have hheld : ∀ j ≤ k, t.Held (lsn.toNat + j) := by
      intro j hj
      rcases Nat.lt_or_eq_of_le hj with hlt | rfl
      · exact hbefore j hlt
      · exact ⟨e, he, hholds⟩
    have hmoved := h.held (fun _ => true) ⟨0, t.pos⟩ (fun _ => rfl) k hk hheld
    obtain ⟨e', he', hholds', hplace, -⟩ := h.found hmoved
    obtain rfl := eq_of_holds he he' hholds hholds'
    exact ⟨h.finish_lt hlsn hk hheld he hholds, hplace⟩
  · by_contra hlt
    refine h.free hk hbefore hfree he ((Extent.contains_iff_holds _ _).mpr ⟨?_, ?_⟩)
    · rwa [UInt32.toNat_ofNat']
    · exact Nat.not_le.mp hlt

/-- **The map.** A request is mapped as its extents say if 32 bits are enough for all of its sectors
up to the first one that is in no extent; a request that starts below `2 ^ 32` is mapped only
then. -/
theorem mapsRequest (t : ExtentTable) (lsn : UInt64) (sectors : UInt32) :
    (t.AddressableRequest lsn sectors → t.MapsRequest lsn sectors) ∧
      (lsn.toNat < 2 ^ 32 → (t.MapsRequest lsn sectors ↔ t.AddressableRequest lsn sectors)) :=
  ⟨AddressableRequest.maps,
    fun hlsn => ⟨fun h => h.addressableRequest hlsn, AddressableRequest.maps⟩⟩

/-- Where all extents end below `2 ^ 32`, on the disk as well, its sectors are addressable. -/
theorem addressable_of_lt {n : ℕ}
    (h : ∀ e ∈ t.extents, e.finish < 2 ^ 32 ∧ e.place e.finish ≤ 2 ^ 32) (hn : n < 2 ^ 32) :
    t.Addressable n where
  held e he hholds := by
    obtain ⟨hfinish, hplace⟩ := h e he
    obtain ⟨hle, hlt⟩ := hholds
    refine ⟨hfinish, Nat.lt_of_lt_of_le ?_ hplace⟩
    rw [Extent.place, Extent.place]
    omega
  free hfree e he hmod := by
    rw [Nat.mod_eq_of_lt hn] at hmod
    exact absurd ⟨e, he, hmod⟩ hfree

/-- A table of two extents, one in front of the other. -/
def pair (a b : Extent) (h : a.finish ≤ b.partOffset.toNat) : ExtentTable where
  extents := [a, b]
  pos := Nat.zero_lt_two
  length_le := show 2 ≤ 65 by decide
  disjoint := by
    have hapart : ∀ n, a.Holds n → ¬ b.Holds n := fun n ha hb =>
      absurd (Nat.le_trans h hb.1) (Nat.not_le.mpr ha.2)
    refine Fin.forall_fin_two.mpr ⟨Fin.forall_fin_two.mpr ⟨?_, ?_⟩,
      Fin.forall_fin_two.mpr ⟨?_, ?_⟩⟩
    · exact fun _ _ _ => rfl
    · exact fun n ha hb => absurd hb (hapart n ha)
    · exact fun n hb ha => absurd hb (hapart n ha)
    · exact fun _ _ _ => rfl

/-- An image of four sectors, whose second half lies in front of the first one on the disk. -/
def splitImage : ExtentTable := pair ⟨0, 0x1000, 4096⟩ ⟨2, 0x800, 4096⟩ (by decide)

theorem mapsRequest_splitImage :
    splitImage.MapsRequest 1 2 ∧ ∀ cur : Fin 2,
      (splitImage.deviceReadSectors (fun _ => true) cur 1 2).transfers =
        [⟨0, 0x1004, 1⟩, ⟨2048, 0x800, 1⟩] := by
  refine ⟨(splitImage.mapsRequest 1 2).1 ?_, by decide⟩
  intro k hk _
  have hlt : k < 2 := hk
  have hone : (1 : UInt64).toNat = 1 := rfl
  exact addressable_of_lt (by decide) (by omega)

/-- An image whose last sector has the greatest number that 32 bits have. -/
def lastSector : ExtentTable := pair ⟨0, 0x1000, 4096⟩ ⟨0xffffffff, 0x800, 2048⟩ (by decide)

/-- **The last sector is not found**: its extent ends at `2 ^ 32`, which 32 bits take for 0. -/
theorem not_mapsRequest_lastSector : ¬ lastSector.MapsRequest 0xffffffff 1 := by
  intro h
  have hres :
      (lastSector.deviceReadSectors (fun _ => true) ⟨0, lastSector.pos⟩ 0xffffffff 1).result =
        .trmopn := by decide
  obtain ⟨k, hk, hfree⟩ := (h.trmopn _ _ fun _ => rfl).mp hres
  obtain rfl : k = 0 := Nat.lt_one_iff.mp hk
  exact hfree ⟨⟨0xffffffff, 0x800, 2048⟩, .tail _ (.head _), by decide⟩

end ExtentTable

end OpenPS2Loader
