import Mathlib.Algebra.BigOperators.Group.List.Basic
import Mathlib.Algebra.GroupWithZero.Nat
import Mathlib.Data.Fin.VecNotation
import Mathlib.Data.List.GetD
import Mathlib.Data.List.Induction
import Mathlib.Logic.Function.Basic
import Mathlib.Tactic.SplitIfs
import OpenPS2Loader.Mcemu.Mce

/-!
# Virtual memory cards on the hard disk

`hddLaunchGame` gives `mcemu` the block list of the file of each memory card: the extents of its
PFS inode, in zones of 16 sectors, and the partitions they lie in. `device-hdd.c` turns a page of
the card into a sector of the disk.

The page that is in no extent is sector 0, and is transferred like any other. `hdd_vmc_infos` is one
record for both cards: behind the extents of the second one are those of the first one that the
second did not need, and a page behind the end of the second card is a sector of the first one.

The record of a card is put where the image of `mcemu` has a word that marks the place. The image
stays in memory when a launch is backed out of, and has no such word left for a card that the launch
came to: the next launch does not find the place, and `mcemu` gets the record of the card before.

## What is left out

The words of the image that are in no record, and the rest of the launch: whether it goes on is a
field of `Launch`.

## Main definitions

* `DeviceHdd.hddGetPartitionInfo`, `DeviceHdd.hddGetFileBlockInfo`, `DeviceHdd.sysCheckVMC`
* `DeviceHdd.hddLaunchVmc`, `DeviceHdd.imageAfter` — a launch, and the launches before it
* `DeviceHdd.mcpageToApasector`, `DeviceHdd.deviceTransfers`
* `DeviceHdd.fileSectors` — the sectors of a file, one after the other
* `DeviceHdd.OwnSectorsOnly` — what is transferred for a page

## Main results

* `DeviceHdd.hddLaunchVmc_spec` — what `mcemu` has for a card
* `DeviceHdd.imageAfter_spec` — what launches that were backed out of leave
* `DeviceHdd.ownSectorsOnly_iff`
-/

namespace OpenPS2Loader

namespace DeviceHdd

/-! ### The disk -/

/-- `apa_sub_t`. -/
structure ApaSub where
  start : UInt32
  length : UInt32
  deriving DecidableEq

/-- `pfs_blockinfo_t`: an extent, `count` zones from the zone `number` of a sub-partition on. -/
structure BlockInfo where
  number : UInt32
  subpart : UInt16
  count : UInt16
  deriving DecidableEq

/-- `APA_MAXSUB`. -/
def apaMaxSub : ℕ := 64

/-- What is read of an `apa_header_t`. -/
structure ApaHeader where
  start : UInt32
  length : UInt32
  nsub : UInt32
  subs : List ApaSub
  length_subs : subs.length = apaMaxSub

/-- What is read of a `pfs_inode_t`. The first entry of `data` is the inode itself. -/
structure PfsInode where
  data : List BlockInfo
  length_data : data.length = 114
  numberData : UInt32

/-- The partition with the cards, as it is read: its header, and the inodes of its files, whose
extents are in the partition or in one of its sub-partitions. -/
structure PfsDisk where
  header : Option ApaHeader
  inode : UInt32 → Option PfsInode
  subpart_le : ∀ h ∈ header, ∀ lba, ∀ i ∈ inode lba, ∀ b ∈ i.data.take i.numberData.toNat,
    b.subpart.toNat ≤ h.nsub.toNat

/-- `hddGetPartitionInfo`, on the header. -/
def hddGetPartitionInfo (header : ApaHeader) : List ApaSub :=
  let nsub := if apaMaxSub < header.nsub.toNat then apaMaxSub else header.nsub.toNat
  ⟨header.start, header.length⟩ :: header.subs.take nsub

/-- `hddGetFileBlockInfo`: `stat` has the sub-partition and the sector of the inode. -/
def hddGetFileBlockInfo (disk : PfsDisk) (stat : Option (UInt32 × UInt32)) (subs : List ApaSub)
    (max : ℕ) : Option (List BlockInfo) :=
  stat.bind fun (sub, sector) =>
    (disk.inode ((subs.getD sub.toNat ⟨0, 0⟩).start + sector)).bind fun inode =>
      if inode.numberData.toNat < max then some (inode.data.take inode.numberData.toNat) else none

/-! ### Launching a game -/

/-- `MCEMU_PORTS`. -/
abbrev Slot : Type := Fin 2

/-- `hdd_vmc_infos_t`. -/
structure HddVmcInfos where
  active : UInt32
  parts : List ApaSub
  blocks : List BlockInfo
  flags : UInt32
  blockSize : UInt16
  deriving DecidableEq

/-- What is read of a `vmc_superblock_t`. -/
structure VmcSuperblock where
  magic : List UInt8
  pageSize : UInt16
  pagesPerCluster : UInt16
  pagesPerBlock : UInt16
  clustersPerCard : UInt32
  mcType : UInt8
  mcFlag : UInt8

/-- A file that is set as a memory card: its size, as an `int`, and its superblock, if it can be
opened, and where its inode is. -/
structure VmcFile where
  opened : Option (ℤ × VmcSuperblock)
  stat : Option (UInt32 × UInt32)

/-- `"Sony PS2 Memory Card Format"`. -/
def vmcMagic : List UInt8 :=
  [83, 111, 110, 121, 32, 80, 83, 50, 32, 77, 101, 109, 111, 114, 121, 32, 67, 97, 114, 100, 32, 70,
    111, 114, 109, 97, 116]

/-- `sysCheckVMC`, which is not asked to make the file: the size in MiB. -/
def sysCheckVMC (file : VmcFile) : ℤ :=
  match file.opened with
  | none => -1
  | some (size, superblock) =>
    let valid := superblock.magic.take 27 = vmcMagic ∧ superblock.mcType = 2 ∧
      UInt32.ofInt size = superblock.pagesPerCluster.toUInt32 * superblock.clustersPerCard *
        superblock.pageSize.toUInt32
    let size := if valid then size else 0
    if size.tmod 1048576 ≠ 0 then 0 else size.tdiv 1048576

/-- The word that marks the place of a record in the image. -/
def marker (slot : Slot) : UInt32 := 0xC0DEFAC0 + UInt32.ofNat slot

/-- `vmcSpec`, as `mcemu` is built. -/
def vmcSpec (slot : Slot) : HddVmcInfos :=
  ⟨marker slot, List.replicate 5 ⟨0, 0⟩, List.replicate 10 ⟨0, 0, 0⟩, 0, 0⟩

/-- `vmcSpec` in `hdd_mcemu_irx`. -/
abbrev Image : Type := Slot → HddVmcInfos

/-- The place of the record of a slot is still marked. -/
def Image.Marked (image : Image) (slot : Slot) : Prop := (image slot).active = marker slot

instance (image : Image) (slot : Slot) : Decidable (image.Marked slot) :=
  inferInstanceAs (Decidable (_ = _))

/-- `hdd_vmc_infos`, once the partitions are known. -/
def initialInfos (parts : List ApaSub) : HddVmcInfos :=
  ⟨0, parts ++ List.replicate (5 - parts.length) ⟨0, 0⟩, List.replicate 10 ⟨0, 0, 0⟩, 0, 0⟩

/-- A file of the loop over the cards: `hdd_vmc_infos` behind it, and `have_error`. -/
def vmcInfos (disk : PfsDisk) (parts : List ApaSub) (infos : HddVmcInfos) (file : VmcFile) :
    HddVmcInfos × ℕ :=
  let infos := { infos with active := 0 }
  match file.opened with
  | some (_, superblock) =>
    if 0 < sysCheckVMC file then
      let infos := { infos with
        flags := superblock.mcFlag.toUInt32 ||| 0x100
        blockSize := superblock.pagesPerBlock }
      match hddGetFileBlockInfo disk file.stat parts 11 with
      | some (_ :: blocks) =>
        ({ infos with active := 1, blocks := blocks ++ infos.blocks.drop blocks.length }, 0)
      | _ => (infos, 2)
    else (infos, 1)
  | none => (infos, 1)

/-- A call of `hddLaunchGame`, as far as the memory cards go. -/
structure Launch where
  disk : PfsDisk
  files : Slot → Option VmcFile
  /-- What the player says to an error of a card. -/
  goOn : Slot → Bool
  /-- The search for the word of a slot looks at four times the image, and comes to it behind. -/
  behind : Slot → Bool
  /-- The launch is not backed out of behind the memory cards. -/
  finished : Bool

/-- The variables of the loop over the cards, and the image: `mcemu` is `size_mcemu_irx ≠ 0`. -/
structure Loop where
  infos : HddVmcInfos
  image : Image
  mcemu : Bool

/-- The search for the word of a slot, and the `memcpy`. -/
def Loop.patch (st : Loop) (slot : Slot) (behind : Bool) : Loop :=
  { st with
    image := if st.image.Marked slot then Function.update st.image slot st.infos else st.image
    mcemu := st.mcemu ||
      (decide (st.infos.active ≠ 0) && (decide (st.image.Marked slot) || behind)) }

/-- A round of the loop over the cards, and whether the launch goes on. -/
def vmcRound (l : Launch) (parts : List ApaSub) (st : Loop) (slot : Slot) : Loop × Bool :=
  match l.files slot with
  | none => (st, true)
  | some file =>
    let (infos, haveError) := vmcInfos l.disk parts st.infos file
    if haveError ≠ 0 ∧ l.goOn slot = false then ({ st with infos }, false)
    else ({ st with infos }.patch slot (l.behind slot), true)

/-- `hddLaunchGame`: the image when it is done with the cards, and whether the game is started with
`mcemu`, `none` if it is not started. -/
def hddLaunchVmc (image : Image) (l : Launch) : Image × Option Bool :=
  let finish (mcemu : Bool) := if l.finished then some mcemu else none
  match l.disk.header with
  | none => (image, finish false)
  | some header =>
    let parts := hddGetPartitionInfo header
    if 5 < parts.length then (image, finish false)
    else
      let (st, goOn) := vmcRound l parts ⟨initialInfos parts, image, false⟩ 0
      if goOn then
        let (st, goOn) := vmcRound l parts st 1
        (st.image, if goOn then finish st.mcemu else none)
      else (st.image, none)

/-- The image when a game is launched: the launches before were backed out of. -/
def imageAfter (before : List Launch) : Image :=
  before.foldl (fun image l => (hddLaunchVmc image l).1) vmcSpec

/-- `mc_configure`: whether the card of a slot is emulated. -/
def mcConfigure (spec : Slot → HddVmcInfos) (slot : Slot) : Bool := (spec slot).active = 1

/-! ### Pages and sectors -/

/-- The loop of `Mcpage_to_Apasector`. -/
def sectorLoop (parts : List ApaSub) (mcPage : UInt32) : List BlockInfo → UInt32 → UInt32 → UInt32
  | [], _, sector => sector
  | b :: blocks, lbound, sector =>
    let ubound := lbound + b.count.toUInt32
    sectorLoop parts mcPage blocks ubound
      (if lbound <<< 4 ≤ mcPage ∧ mcPage < ubound <<< 4 then
        (parts.getD b.subpart.toNat ⟨0, 0⟩).start + (b.number <<< 4) + (mcPage - (lbound <<< 4))
      else sector)

/-- `Mcpage_to_Apasector`. -/
def mcpageToApasector (spec : HddVmcInfos) (mcPage : UInt32) : UInt32 :=
  sectorLoop spec.parts mcPage spec.blocks 0 0

/-- `ATA_DIR_READ`, `ATA_DIR_WRITE`. -/
inductive Dir
  | read
  | write
  deriving DecidableEq

/-- A call of `sceAtaDmaTransfer`, for one sector. -/
structure Transfer where
  lba : UInt32
  dir : Dir
  deriving DecidableEq

/-- The transfers of `DeviceReadPage` and `DeviceWritePage`. -/
def deviceTransfers (spec : HddVmcInfos) (dir : Dir) (page : UInt32) : List Transfer :=
  [⟨mcpageToApasector spec page, dir⟩]

/-! ### The sectors of a file -/

/-- The sectors of an extent. -/
def blockSectors (parts : List ApaSub) (b : BlockInfo) : List UInt32 :=
  (List.range (16 * b.count.toNat)).map fun k =>
    (parts.getD b.subpart.toNat ⟨0, 0⟩).start + (b.number <<< 4) + UInt32.ofNat k

/-- The sectors of a file. -/
def fileSectors (parts : List ApaSub) (blocks : List BlockInfo) : List UInt32 :=
  blocks.flatMap (blockSectors parts)

/-- The partitions of the disk. -/
def PfsDisk.parts (disk : PfsDisk) : List ApaSub := (disk.header.map hddGetPartitionInfo).getD []

/-- The extents of the file of a card. -/
def ownBlocks (disk : PfsDisk) (files : Slot → Option VmcFile) (slot : Slot) : List BlockInfo :=
  (((files slot).bind fun file => hddGetFileBlockInfo disk file.stat disk.parts 11).getD []).tail

/-- How many zones they have. -/
def zones (blocks : List BlockInfo) : ℕ := (blocks.map fun b => b.count.toNat).sum

/-- What is transferred for a page of a card is the sector of the file of that card which holds the
page. Where there is none, there is no transfer. -/
def OwnSectorsOnly (disk : PfsDisk) (files : Slot → Option VmcFile) (spec : Slot → HddVmcInfos)
    (slot : Slot) (page : UInt32) : Prop :=
  ∀ dir, ∀ t ∈ deviceTransfers (spec slot) dir page,
    (fileSectors disk.parts (ownBlocks disk files slot))[page.toNat]? = some t.lba

section Sectors

variable {parts : List ApaSub} {blocks : List BlockInfo}

theorem length_blockSectors (parts : List ApaSub) (b : BlockInfo) :
    (blockSectors parts b).length = 16 * b.count.toNat := by
  rw [blockSectors, List.length_map, List.length_range]

theorem fileSectors_cons (parts : List ApaSub) (b : BlockInfo) (blocks : List BlockInfo) :
    fileSectors parts (b :: blocks) = blockSectors parts b ++ fileSectors parts blocks :=
  List.flatMap_cons

theorem fileSectors_append (parts : List ApaSub) (blocks rest : List BlockInfo) :
    fileSectors parts (blocks ++ rest) = fileSectors parts blocks ++ fileSectors parts rest :=
  List.flatMap_append

theorem zones_cons (b : BlockInfo) (blocks : List BlockInfo) :
    zones (b :: blocks) = b.count.toNat + zones blocks := by
  rw [zones, List.map_cons, List.sum_cons, zones]

theorem length_fileSectors (parts : List ApaSub) (blocks : List BlockInfo) :
    (fileSectors parts blocks).length = 16 * zones blocks := by
  induction blocks with
  | nil => rfl
  | cons b blocks ih =>
    rw [fileSectors_cons, List.length_append, length_blockSectors, ih, zones_cons, Nat.mul_add]

theorem zones_le (blocks : List BlockInfo) : zones blocks ≤ 65535 * blocks.length := by
  induction blocks with
  | nil => exact Nat.le_refl 0
  | cons b blocks ih =>
    have hb := b.count.toNat_lt
    rw [zones_cons, List.length_cons]
    omega

/-- Zones into sectors. -/
theorem toNat_shiftLeft_four (n : UInt32) (h : 16 * n.toNat < 2 ^ 32) :
    (n <<< 4).toNat = 16 * n.toNat := by
  rw [UInt32.toNat_shiftLeft, show (4 : UInt32).toNat % 32 = 4 from rfl, Nat.shiftLeft_eq]
  omega

/-- The loop from the extent that starts at the zone `lbound` on. -/
theorem sectorLoop_eq (parts : List ApaSub) (page : UInt32) (blocks : List BlockInfo)
    (lbound sector : UInt32) (h : 16 * (lbound.toNat + zones blocks) < 2 ^ 32) :
    sectorLoop parts page blocks lbound sector =
      if 16 * lbound.toNat ≤ page.toNat then
        ((fileSectors parts blocks)[page.toNat - 16 * lbound.toNat]?).getD sector
      else sector := by
  induction blocks generalizing lbound sector with
  | nil => exact (ite_self sector).symm
  | cons b blocks ih =>
    rw [zones_cons] at h
    have hubound : (lbound + b.count.toUInt32).toNat = lbound.toNat + b.count.toNat := by
      rw [UInt32.toNat_add, UInt16.toNat_toUInt32]
      omega
    have hl := toNat_shiftLeft_four lbound (by omega)
    have hu := toNat_shiftLeft_four (lbound + b.count.toUInt32) (by omega)
    have hlen := length_blockSectors parts b
    rw [sectorLoop, ih _ _ (by omega), hubound, fileSectors_cons]
    simp only [UInt32.le_iff_toNat_le, UInt32.lt_iff_toNat_lt, hl, hu, hubound]
    rcases Nat.lt_or_ge page.toNat (16 * lbound.toNat) with hbefore | hfrom
    · rw [if_neg (by omega), if_neg (by omega), if_neg (by omega)]
    rw [if_pos hfrom]
    rcases Nat.lt_or_ge page.toNat (16 * (lbound.toNat + b.count.toNat)) with hin | hbehind
    · have hoff : page - lbound <<< 4 = UInt32.ofNat (page.toNat - 16 * lbound.toNat) := by
        refine UInt32.toNat_inj.mp ?_
        rw [UInt32.toNat_sub_of_le _ _ (UInt32.le_iff_toNat_le.mpr (by omega)), hl,
          UInt32.toNat_ofNat_of_lt' (Nat.lt_of_le_of_lt (Nat.sub_le ..) page.toNat_lt)]
      rw [if_neg (by omega), if_pos ⟨hfrom, hin⟩, List.getElem?_append_left (by omega), hoff,
        blockSectors, List.getElem?_map, List.getElem?_range (by omega)]
      rfl
    · rw [if_pos hbehind, if_neg (by omega), List.getElem?_append_right (by omega), hlen]
      congr 2
      omega

/-- A page of the extents, whatever is behind them. -/
theorem mcpageToApasector_eq {spec : HddVmcInfos} {rest : List BlockInfo} {page : UInt32}
    (hparts : ∀ b ∈ blocks, spec.parts.getD b.subpart.toNat ⟨0, 0⟩ =
      parts.getD b.subpart.toNat ⟨0, 0⟩)
    (hblocks : spec.blocks = blocks ++ rest) (hlen : spec.blocks.length ≤ 10)
    (hpage : page.toNat < 16 * zones blocks) :
    (fileSectors parts blocks)[page.toNat]? = some (mcpageToApasector spec page) := by
  have hzones := zones_le spec.blocks
  have hsame : fileSectors spec.parts blocks = fileSectors parts blocks :=
    List.flatMap_congr fun b hb => by rw [blockSectors, hparts b hb, blockSectors]
  have hlt : page.toNat < (fileSectors parts blocks).length := by rwa [length_fileSectors]
  rw [mcpageToApasector, sectorLoop_eq _ _ _ _ _ (by rw [UInt32.toNat_zero]; omega),
    UInt32.toNat_zero, if_pos (Nat.zero_le _), hblocks, fileSectors_append, hsame, Nat.mul_zero,
    Nat.sub_zero, List.getElem?_append_left hlt, List.getElem?_eq_getElem hlt, Option.getD_some]

end Sectors

section Launch

variable {disk : PfsDisk} {parts : List ApaSub} {infos infos' spec : HddVmcInfos}
  {blocks : List BlockInfo}

/-- `hdd_vmc_infos`, at any time: the partitions stay, and there are at most ten extents. -/
structure InfosOf (parts : List ApaSub) (infos : HddVmcInfos) : Prop where
  parts_eq : infos.parts = parts ++ List.replicate (5 - parts.length) ⟨0, 0⟩
  length_le : infos.blocks.length ≤ 10

theorem infosOf_initialInfos (parts : List ApaSub) : InfosOf parts (initialInfos parts) :=
  ⟨rfl, Nat.le_refl 10⟩

/-- The record of an emulated card starts with the extents of its file. -/
structure SpecOf (disk : PfsDisk) (parts : List ApaSub) (file : VmcFile) (spec : HddVmcInfos) :
    Prop extends InfosOf parts spec where
  own : ∃ inode blocks rest, hddGetFileBlockInfo disk file.stat parts 11 = some (inode :: blocks) ∧
    spec.blocks = blocks ++ rest

/-- The inode that the extents are from. -/
theorem exists_inode {stat : Option (UInt32 × UInt32)} {max : ℕ}
    (h : hddGetFileBlockInfo disk stat parts max = some blocks) :
    ∃ lba, ∃ i ∈ disk.inode lba, i.numberData.toNat < max ∧
      blocks = i.data.take i.numberData.toNat := by
  obtain ⟨⟨sub, sector⟩, -, h⟩ := Option.bind_eq_some_iff.mp h
  obtain ⟨i, hi, h⟩ := Option.bind_eq_some_iff.mp h
  refine ⟨_, i, hi, ?_⟩
  split_ifs at h with hmax
  exact ⟨hmax, (Option.some.inj h).symm⟩

/-- A file of the loop. -/
theorem vmcInfos_spec (disk : PfsDisk) (file : VmcFile) (h : InfosOf parts infos) :
    InfosOf parts (vmcInfos disk parts infos file).1 ∧
      ((vmcInfos disk parts infos file).1.active = 1 →
        SpecOf disk parts file (vmcInfos disk parts infos file).1) := by
  have hne : (0 : UInt32) ≠ 1 := by decide
  rw [vmcInfos]
  dsimp only
  split
  · rename_i superblock _
    split_ifs with hchecked
    · split
      · rename_i inode blocks hblocks
        obtain ⟨lba, i, -, hmax, heq⟩ := exists_inode hblocks
        have hlen := congrArg List.length heq
        rw [List.length_cons, List.length_take] at hlen
        have hinfos : InfosOf parts { infos with
            active := 1
            blocks := blocks ++ infos.blocks.drop blocks.length
            flags := superblock.mcFlag.toUInt32 ||| 0x100
            blockSize := superblock.pagesPerBlock } := by
          refine ⟨h.parts_eq, ?_⟩
          have := h.length_le
          rw [List.length_append, List.length_drop]
          omega
        exact ⟨hinfos, fun _ => ⟨hinfos, inode, blocks, _, hblocks, rfl⟩⟩
      · exact ⟨⟨h.parts_eq, h.length_le⟩, fun hactive => absurd hactive hne⟩
    · exact ⟨⟨h.parts_eq, h.length_le⟩, fun hactive => absurd hactive hne⟩
  · exact ⟨⟨h.parts_eq, h.length_le⟩, fun hactive => absurd hactive hne⟩

/-- What a launch has put in the image for a slot: nothing, or, where the place was marked, a record
that is the file of the slot if the card is emulated. -/
def Patched (l : Launch) (parts : List ApaSub) (image image' : Image) (slot : Slot) : Prop :=
  image' slot = image slot ∨ image.Marked slot ∧ ∃ file, l.files slot = some file ∧
    ((image' slot).active = 1 → SpecOf l.disk parts file (image' slot))

/-- The variables of the loop over the cards. -/
structure LoopOf (l : Launch) (parts : List ApaSub) (image : Image) (st : Loop) : Prop where
  infos : InfosOf parts st.infos
  patched : ∀ slot, Patched l parts image st.image slot

/-- A round of the loop. -/
theorem LoopOf.round {l : Launch} {image : Image} {st : Loop} (h : LoopOf l parts image st)
    (slot : Slot) : LoopOf l parts image (vmcRound l parts st slot).1 := by
  rw [vmcRound]
  split
  · exact h
  rename_i file hfile
  obtain ⟨hinfos, hspec⟩ := vmcInfos_spec l.disk file h.infos
  dsimp only
  split_ifs
  · exact ⟨hinfos, h.patched⟩
  refine ⟨hinfos, fun slot' => ?_⟩
  simp only [Loop.patch]
  split_ifs with hmarked
  · rcases eq_or_ne slot' slot with rfl | hne
    · have hbefore : image.Marked slot' := by
        rcases h.patched slot' with hsame | ⟨hbefore, -⟩
        · rwa [Image.Marked, ← hsame]
        · exact hbefore
      refine Or.inr ⟨hbefore, file, hfile, ?_⟩
      rw [Function.update_self]
      exact hspec
    · have hother := h.patched slot'
      rwa [Patched, ← Function.update_of_ne hne (vmcInfos l.disk parts st.infos file).1 st.image]
        at hother
  · exact h.patched slot'

/-- **A launch** leaves the record of a slot as it was, or it has found the place marked, and then
an emulated card is the file that its slot is set to. -/
theorem hddLaunchVmc_spec (image : Image) (l : Launch) (slot : Slot) :
    (hddLaunchVmc image l).1 slot = image slot ∨
      ∃ header, l.disk.header = some header ∧ (hddGetPartitionInfo header).length ≤ 5 ∧
        Patched l (hddGetPartitionInfo header) image (hddLaunchVmc image l).1 slot := by
  rw [hddLaunchVmc]
  split
  · exact Or.inl rfl
  rename_i header hheader
  dsimp only
  rcases Nat.lt_or_ge 5 (hddGetPartitionInfo header).length with hmany | hparts
  · rw [if_pos hmany]
    exact Or.inl rfl
  rw [if_neg (Nat.not_lt.mpr hparts)]
  refine Or.inr ⟨header, hheader, hparts, ?_⟩
  have hstart : LoopOf l (hddGetPartitionInfo header) image
      ⟨initialInfos (hddGetPartitionInfo header), image, false⟩ :=
    ⟨infosOf_initialInfos _, fun _ => Or.inl rfl⟩
  have hfirst := hstart.round 0
  split
  · exact (hfirst.round 1).patched slot
  · exact hfirst.patched slot

/-- **What is left in the image**: an emulated card is the file that its slot was set to in one of
the launches. -/
theorem imageAfter_spec (before : List Launch) (slot : Slot)
    (hactive : (imageAfter before slot).active = 1) :
    ∃ l ∈ before, ∃ header file, l.disk.header = some header ∧ l.files slot = some file ∧
      SpecOf l.disk (hddGetPartitionInfo header) file (imageAfter before slot) := by
  induction before using List.reverseRecOn with
  | nil =>
    have hbuilt : ∀ slot, ¬(vmcSpec slot).active = 1 := by decide
    exact absurd hactive (hbuilt slot)
  | append_singleton before l ih =>
    have hlast : imageAfter (before ++ [l]) = (hddLaunchVmc (imageAfter before) l).1 :=
      List.foldl_concat ..
    rw [hlast] at hactive ⊢
    rcases hddLaunchVmc_spec (imageAfter before) l slot with
      hsame | ⟨header, hheader, -, hsame | ⟨-, file, hfile, hspec⟩⟩
    · rw [hsame] at hactive ⊢
      obtain ⟨l', hl', hrest⟩ := ih hactive
      exact ⟨l', List.mem_append_left _ hl', hrest⟩
    · rw [hsame] at hactive ⊢
      obtain ⟨l', hl', hrest⟩ := ih hactive
      exact ⟨l', List.mem_append_left _ hl', hrest⟩
    · exact ⟨l, List.mem_append_right _ (List.mem_singleton_self l), header, file, hheader, hfile,
        hspec hactive⟩

/-- The extents of a file are in the partitions that were read. -/
theorem subpart_lt {header : ApaHeader} {stat : Option (UInt32 × UInt32)} {max : ℕ}
    (hheader : disk.header = some header) (hlen : (hddGetPartitionInfo header).length ≤ 5)
    (h : hddGetFileBlockInfo disk stat parts max = some blocks) (b : BlockInfo) (hb : b ∈ blocks) :
    b.subpart.toNat < (hddGetPartitionInfo header).length := by
  obtain ⟨lba, i, hi, -, rfl⟩ := exists_inode h
  have hsub := disk.subpart_le header hheader lba i hi b hb
  have hsubs := header.length_subs
  rw [hddGetPartitionInfo, List.length_cons, List.length_take] at hlen ⊢
  rw [apaMaxSub] at hlen hsubs ⊢
  split_ifs at hlen ⊢ <;> omega

end Launch

section Own

variable {image specs : Image} {l : Launch} {slot : Slot} {page : UInt32}

theorem marker_ne_one : ∀ slot, marker slot ≠ 1 := by decide

theorem not_active_of_marked (h : image.Marked slot) : ¬(image slot).active = 1 := fun hactive =>
  marker_ne_one slot (h.symm.trans hactive)

/-- A page in the extents of the file of a card, when its place was marked. -/
theorem fileSectors_getElem? (hlaunch : (hddLaunchVmc image l).1 = specs)
    (hmarked : image.Marked slot) (hcard : mcConfigure specs slot)
    (hpage : page.toNat < 16 * zones (ownBlocks l.disk l.files slot)) :
    (fileSectors l.disk.parts (ownBlocks l.disk l.files slot))[page.toNat]? =
      some (mcpageToApasector (specs slot) page) := by
  have hactive : (specs slot).active = 1 := of_decide_eq_true hcard
  have hsame : ¬ specs slot = image slot := fun hsame =>
    not_active_of_marked hmarked (hsame ▸ hactive)
  obtain ⟨header, hheader, hlen, hpatched⟩ :=
    (hddLaunchVmc_spec image l slot).resolve_left (hlaunch ▸ hsame)
  rw [hlaunch] at hpatched
  obtain ⟨-, f, hf, hspec⟩ := hpatched.resolve_left hsame
  obtain ⟨inode, blocks, rest, hblocks, happend⟩ := (hspec hactive).own
  have hparts : l.disk.parts = hddGetPartitionInfo header := by
    rw [PfsDisk.parts, hheader]
    rfl
  have hown : ownBlocks l.disk l.files slot = blocks := by
    rw [ownBlocks, hf, Option.bind_some, hparts, hblocks]
    rfl
  rw [hown] at hpage
  rw [hparts, hown]
  refine mcpageToApasector_eq (fun b hb => ?_) happend (hspec hactive).length_le hpage
  have hlt := subpart_lt hheader hlen hblocks b (List.mem_cons_of_mem inode hb)
  rw [(hspec hactive).parts_eq, List.getD_append _ _ _ _ hlt]

theorem ownSectorsOnly_of_lt (hlaunch : (hddLaunchVmc image l).1 = specs)
    (hmarked : image.Marked slot) (hcard : mcConfigure specs slot)
    (hpage : page.toNat < 16 * zones (ownBlocks l.disk l.files slot)) :
    OwnSectorsOnly l.disk l.files specs slot page := by
  intro dir t ht
  rw [List.mem_singleton.mp ht]
  exact fileSectors_getElem? hlaunch hmarked hcard hpage

/-- **Only the sectors of its own file** are transferred for a page of an emulated card, whatever
launches were backed out of before, exactly when the page is in the extents of that file, and the
launch finds the place of the record marked, or the record that is left there has the page in the
same sector. -/
theorem ownSectorsOnly_iff (before : List Launch) (l : Launch) (specs : Image)
    (hlaunch : hddLaunchVmc (imageAfter before) l = (specs, some true)) (slot : Slot)
    (hcard : mcConfigure specs slot) (page : UInt32) :
    OwnSectorsOnly l.disk l.files specs slot page ↔
      page.toNat < 16 * zones (ownBlocks l.disk l.files slot) ∧
        ((imageAfter before).Marked slot ∨
          (fileSectors l.disk.parts (ownBlocks l.disk l.files slot))[page.toNat]? =
            some (mcpageToApasector (imageAfter before slot) page)) := by
  have himage : (hddLaunchVmc (imageAfter before) l).1 = specs := by rw [hlaunch]
  constructor
  · intro h
    have hsome := h .read _ List.mem_cons_self
    obtain ⟨hlt, -⟩ := List.getElem?_eq_some_iff.mp hsome
    rw [length_fileSectors] at hlt
    refine ⟨hlt, or_iff_not_imp_left.mpr fun hmarked => ?_⟩
    have hsame : specs slot = imageAfter before slot := by
      rcases hddLaunchVmc_spec (imageAfter before) l slot with
        hsame | ⟨header, -, -, hsame | ⟨hfound, -⟩⟩
      · exact himage ▸ hsame
      · exact himage ▸ hsame
      · exact absurd hfound hmarked
    rwa [← hsame]
  · rintro ⟨hpage, hplace⟩
    by_cases hmarked : (imageAfter before).Marked slot
    · exact ownSectorsOnly_of_lt himage hmarked hcard hpage
    · -- the record was not touched
      have hsame : specs slot = imageAfter before slot := by
        rcases hddLaunchVmc_spec (imageAfter before) l slot with
          hsame | ⟨header, -, -, hsame | ⟨hfound, -⟩⟩
        · exact himage ▸ hsame
        · exact himage ▸ hsame
        · exact absurd hfound hmarked
      intro dir t ht
      rw [List.mem_singleton.mp ht, hsame]
      exact hplace.resolve_left hmarked

end Own

/-! ### A game in its file -/

/-- `DeviceReadPage`, on a disk that can be read or not. -/
def deviceReadPage (ata : UInt32 → Option (List UInt8)) (spec : HddVmcInfos) : Mce.ReadPage :=
  fun page => ata (mcpageToApasector spec page)

/-- A file as a card. -/
def filePage (ata : UInt32 → Option (List UInt8)) (sectors : List UInt32) : Mce.ReadPage :=
  fun page => (sectors[page.toNat]?).bind ata

/-- **A chunk** of a card is read from the file of that card, as long as the game is in it. -/
theorem mceRead_ownFile {image specs : Image} {l : Launch} {slot : Slot}
    (hlaunch : (hddLaunchVmc image l).1 = specs) (hmarked : image.Marked slot)
    (hcard : mcConfigure specs slot) (ata : UInt32 → Option (List UInt8)) (s : Mce.ReadState)
    (size : ℕ) (hpage : s.rpage.toNat < 16 * zones (ownBlocks l.disk l.files slot))
    (hnext : (s.rpage + 1).toNat < 16 * zones (ownBlocks l.disk l.files slot)) :
    Mce.mceRead (specs slot).flags (deviceReadPage ata (specs slot)) s size =
      Mce.mceRead (specs slot).flags
        (filePage ata (fileSectors l.disk.parts (ownBlocks l.disk l.files slot))) s size := by
  refine Mce.mceRead_congr ?_ ?_
  · rw [deviceReadPage, filePage, fileSectors_getElem? hlaunch hmarked hcard hpage,
      Option.bind_some]
  · rw [deviceReadPage, filePage, fileSectors_getElem? hlaunch hmarked hcard hnext,
      Option.bind_some]

/-- **A chunk** that is written goes to the file of the card, as long as the game is in it. -/
theorem mceWrite_ownFile {image specs : Image} {l : Launch} {slot : Slot}
    (hlaunch : (hddLaunchVmc image l).1 = specs) (hmarked : image.Marked slot)
    (hcard : mcConfigure specs slot) {dev : Mce.WritePage} {s s' : Mce.WriteState}
    {buf : List UInt8} {pages : List (UInt32 × List UInt8)}
    (hwrite : Mce.mceWrite dev s buf = some (s', pages))
    (hpage : s.wpage.toNat < 16 * zones (ownBlocks l.disk l.files slot))
    (hnext : (s.wpage + 1).toNat < 16 * zones (ownBlocks l.disk l.files slot)) :
    ∀ w ∈ pages, OwnSectorsOnly l.disk l.files specs slot w.1 := by
  intro w hw
  rcases Mce.wpage_mceWrite hwrite w hw with hsame | hlater
  · exact hsame ▸ ownSectorsOnly_of_lt hlaunch hmarked hcard hpage
  · exact hlater ▸ ownSectorsOnly_of_lt hlaunch hmarked hcard hnext

/-- **A block** that is erased is one of the file of the card, as long as its pages are in it. -/
theorem mceEraseBlock_ownFile {image specs : Image} {l : Launch} {slot : Slot}
    (hlaunch : (hddLaunchVmc image l).1 = specs) (hmarked : image.Marked slot)
    (hcard : mcConfigure specs slot) {dev : Mce.WritePage} {page : UInt32}
    {pages : List (UInt32 × List UInt8)}
    (herase : Mce.mceEraseBlock (specs slot).flags (specs slot).blockSize.toNat dev page =
      some pages)
    (hpage : ∀ i < (specs slot).blockSize.toNat,
      (page + UInt32.ofNat i).toNat < 16 * zones (ownBlocks l.disk l.files slot)) :
    ∀ w ∈ pages, OwnSectorsOnly l.disk l.files specs slot w.1 := by
  intro w hw
  obtain ⟨i, hi, heq⟩ := Mce.page_mceEraseBlock herase w hw
  exact heq ▸ ownSectorsOnly_of_lt hlaunch hmarked hcard (hpage i hi)

/-! ### Two cards -/

/-- An inode with these extents. -/
def inodeOf (blocks : List BlockInfo) (h : blocks.length ≤ 113) : PfsInode where
  data := ⟨0, 0, 1⟩ :: (blocks ++ List.replicate (113 - blocks.length) ⟨0, 0, 0⟩)
  length_data := by
    rw [List.length_cons, List.length_append, List.length_replicate]
    omega
  numberData := UInt32.ofNat (blocks.length + 1)

/-- A partition with two cards of 8 MiB: one with two extents, and one with a single one. -/
def twoFiles : PfsDisk where
  header := some ⟨0x40000, 0x40000, 0, List.replicate 64 ⟨0, 0⟩, List.length_replicate⟩
  inode := fun lba =>
    if lba = 0x40010 then some (inodeOf [⟨16, 0, 1000⟩, ⟨1100, 0, 24⟩] (by decide))
    else if lba = 0x40020 then some (inodeOf [⟨2000, 0, 1024⟩] (by decide))
    else none
  subpart_le := by
    intro h hh lba i hi b hb
    cases hh
    have hzero : b.subpart = 0 := by
      split_ifs at hi
      · cases hi
        revert b
        decide
      · cases hi
        revert b
        decide
      · cases hi
    rw [hzero]
    exact Nat.le_refl 0

/-- A card of 8 MiB, whose inode is in the main partition. -/
def card (sector : UInt32) : VmcFile :=
  ⟨some (8388608, ⟨vmcMagic, 512, 2, 16, 8192, 2, 0x2B⟩), some (0, sector)⟩

/-- A launch with these cards, where nothing goes wrong. -/
def launchOf (files : Slot → Option VmcFile) : Launch :=
  ⟨twoFiles, files, fun _ => true, fun _ => false, true⟩

/-- A launch with both cards. -/
def twoCards : Launch := launchOf ![some (card 0x10), some (card 0x20)]

/-- The records that `mcemu` gets. -/
def twoSpecs : Image := (hddLaunchVmc vmcSpec twoCards).1

/-- A launch with the second file as the card of the first slot, which is backed out of. -/
def backedOut : Launch := { launchOf ![some (card 0x20), none] with finished := false }

/-- A page in the second extent of the first card, after a launch without cards. -/
theorem ownSectorsOnly_firstCard : OwnSectorsOnly twoFiles twoCards.files twoSpecs 0 16003 :=
  (ownSectorsOnly_iff [launchOf fun _ => none] twoCards twoSpecs (Prod.ext rfl (by decide)) 0
    (by decide) 16003).mpr ⟨by decide, Or.inl (by decide)⟩

/-- A page behind the end of the second card is a sector of the first one. -/
example : deviceTransfers (twoSpecs 1) .write 16384 = [⟨0x444C0, .write⟩] := by decide

/-- A page behind the end of the second card is transferred; and when a launch was backed out of
behind its cards, the first page of the first card is a sector of the file it was set to then. -/
theorem not_ownSectorsOnly_twoCards :
    ((hddLaunchVmc (imageAfter []) twoCards).2 = some true ∧ mcConfigure twoSpecs 1 = true ∧
        ¬ OwnSectorsOnly twoFiles twoCards.files twoSpecs 1 16384) ∧
      ∃ specs, hddLaunchVmc (imageAfter [backedOut]) twoCards = (specs, some true) ∧
        mcConfigure specs 0 = true ∧ deviceTransfers (specs 0) .write 0 = [⟨0x47D00, .write⟩] ∧
        ¬ OwnSectorsOnly twoFiles twoCards.files specs 0 0 := by
  refine ⟨⟨by decide, by decide, fun h => ?_⟩, _, rfl, by decide, by decide, fun h => ?_⟩
  · obtain ⟨hlt, -⟩ := List.getElem?_eq_some_iff.mp (h .write _ List.mem_cons_self)
    rw [length_fileSectors] at hlt
    exact absurd hlt (by decide)
  · have hsector := h .write _ List.mem_cons_self
    have hown := @fileSectors_getElem? vmcSpec twoSpecs twoCards 0 0 rfl (by decide) (by decide)
      (by decide)
    exact absurd (hown.symm.trans hsector) (by decide)

end DeviceHdd

end OpenPS2Loader
