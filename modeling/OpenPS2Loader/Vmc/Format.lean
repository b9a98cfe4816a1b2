import OpenPS2Loader.Vmc.Image

/-!
# Formatting a virtual memory card

`vmc_mcformat` in `genvmc.c` makes the image of an empty card: it erases all clusters, then writes
the indirect FAT clusters, the FAT, the root directory and last the superblock. The FAT has a word
for every cluster that can be allocated, and is found through the list of indirect FAT clusters in
the superblock.

A size in KB and the number of pages in an erase block are `int`s; `size_kb * 1024` and the
counters of the loops wrap around at 32 bits.

## Main definitions

* `Vmc.MCDevInfo` — the superblock
* `Vmc.vmcMcformat`
* `Vmc.IsCard` — the image is a well-formed card
* `Vmc.FormatsWell` — `vmc_mcformat` makes such an image when it returns 0

## Main results

* `Vmc.formatsWell_iff`
-/

namespace OpenPS2Loader

namespace Vmc

/-! ### The superblock -/

/-- `MCDevInfo`, 384 bytes. -/
structure MCDevInfo where
  magic : List UInt8
  version : List UInt8
  pagesize : ℕ
  pagesPerCluster : ℕ
  blocksize : ℕ
  unused : ℕ
  clustersPerCard : ℕ
  allocOffset : ℕ
  allocEnd : ℕ
  rootdirCluster : ℕ
  backupBlock1 : ℕ
  backupBlock2 : ℕ
  unused2 : ℕ
  ifcList : List ℕ
  badBlockList : List ℕ
  cardtype : ℕ
  cardflags : ℕ
  unused3 : ℕ
  clusterSize : ℕ
  fatEntriesPerCluster : ℕ
  clustersPerBlock : ℕ
  cardform : ℕ
  rootdirCluster2 : ℕ
  unknown1 : ℕ
  unknown2 : ℕ
  maxAllocatableClusters : ℕ
  unknown3 : ℕ
  unknown4 : ℕ
  unknown5 : ℕ

/-- The bytes of the superblock. -/
def MCDevInfo.toBytes (info : MCDevInfo) : List UInt8 :=
  info.magic ++ info.version ++ Bytes.toLe 2 info.pagesize ++ Bytes.toLe 2 info.pagesPerCluster ++
    Bytes.toLe 2 info.blocksize ++ Bytes.toLe 2 info.unused ++
    wordBytes [info.clustersPerCard, info.allocOffset, info.allocEnd, info.rootdirCluster,
      info.backupBlock1, info.backupBlock2] ++
    Bytes.toLe 8 info.unused2 ++ wordBytes info.ifcList ++ wordBytes info.badBlockList ++
    Bytes.toLe 1 info.cardtype ++ Bytes.toLe 1 info.cardflags ++ Bytes.toLe 2 info.unused3 ++
    wordBytes [info.clusterSize, info.fatEntriesPerCluster, info.clustersPerBlock, info.cardform,
      info.rootdirCluster2, info.unknown1, info.unknown2, info.maxAllocatableClusters,
      info.unknown3, info.unknown4, info.unknown5]

/-- `SUPERBLOCK_VERSION` -/
def superblockVersion : List UInt8 := ascii "1.2.0.0"

/-- The bytes of a cluster. -/
def clusterSize : ℕ := 1024

/-- `clusters_per_card`, from a size in KB. -/
def clustersPerCard (sizeKb : UInt32) : ℕ := (sizeKb * 1024).toNat / clusterSize

/-- `clusters_per_block`: `blocksize` is kept in 16 bits. -/
def clustersPerBlock (blocksize : UInt32) : ℕ := blocksize.toUInt16.toNat / 2

/-- The fields of the superblock that are set first. -/
def specs (old : MCDevInfo) (sizeKb blocksize : UInt32) : MCDevInfo :=
  { old with
    magic := superblockMagic
    version := superblockVersion ++ List.replicate 5 0
    clusterSize := clusterSize
    blocksize := blocksize.toUInt16.toNat
    pagesPerCluster := 2
    pagesize := clusterSize / 2
    clustersPerBlock := clustersPerBlock blocksize
    clustersPerCard := clustersPerCard sizeKb
    cardtype := 2
    cardflags := 0x2b
    cardform := 0xffffffff
    fatEntriesPerCluster := clusterSize / 4
    badBlockList := List.replicate 32 0xffffffff }

/-! ### The passes of `vmc_mcformat` -/

/-- `cluster_buf` after it was filled with 0xFF. -/
def erasedBuf : List UInt8 := List.replicate (16 * 1024 + 16) 0xff

/-- The loop that erases the clusters, 16 at a time; the progress is a percentage. -/
def eraseLoop (host : Host) (cpc i : ℕ) (f : VmcFile) : Except Stop VmcFile :=
  if i < cpc then
    if cpc / 99 = 0 then .error .divided
    else
      (onFail (-102) (mcWriteCluster host clusterSize f i erasedBuf 16)).bind fun f =>
        eraseLoop host cpc (i + 16) f
  else .ok f
termination_by cpc - i

/-- `fat_length` and `ifc_length`, before they are capped. -/
def fullFatLength (cpc : ℕ) : ℕ := ((cpc * 4 + 2 ^ 32 - 1) % 2 ^ 32) / clusterSize + 1

def fullIfcLength (cpc : ℕ) : ℕ := (fullFatLength cpc * 4 - 1) / clusterSize + 1

/-- `fat_length` -/
def fatLength (cpc : ℕ) : ℕ := if fullIfcLength cpc ≤ 32 then fullFatLength cpc else 256 * 32

/-- `ifc_length` -/
def ifcLength (cpc : ℕ) : ℕ := if fullIfcLength cpc ≤ 32 then fullIfcLength cpc else 32

/-- `ifc_list` -/
def ifcList (cpb cpc : ℕ) : List ℕ :=
  (List.range 32).map fun k => if k < ifcLength cpc then cpb + k else 0xffffffff

/-- The loop that lists the clusters of the FAT. -/
def buildIfc (cpc : ℕ) : ℕ → ℕ → Except Stop (List ℕ)
  | 0, _ => .ok []
  | n + 1, i =>
    if cpc ≤ i then .error (.returned (-104)) else (buildIfc cpc n (i + 1)).map (i :: ·)

/-- `ifc_mem`. -/
def ifcMem (cpc : ℕ) (ifc : List ℕ) : List UInt8 :=
  Bytes.overwrite (List.replicate (ifcLength cpc * clusterSize) 0) 0 (wordBytes ifc)

/-- The loop that writes the indirect FAT clusters, from the cluster `z` of them on. -/
def writeIfc (host : Host) (list : List ℕ) (mem : List UInt8) :
    ℕ → ℕ → VmcFile → Except Stop VmcFile
  | 0, _, f => .ok f
  | n + 1, z, f =>
    (onFail (-105) (mcWriteCluster host clusterSize f (list.getD z 0)
      (mem.drop (z * clusterSize)) 1)).bind fun f => writeIfc host list mem n (z + 1) f

/-- The high word of `long_multiply`. -/
def longMultiply (v1 v2 : UInt32) : UInt32 :=
  let a := (v1 >>> 16) &&& 0xffff
  let b := v1 &&& 0xffff
  let c := (v2 >>> 16) &&& 0xffff
  let d := v2 &&& 0xffff
  let x := a * d + c * b
  let y := ((b * d >>> 16) &&& 0xffff) + x
  ((y >>> 16) &&& 0xffff) + a * c

/-- `max_allocatable_clusters` -/
def maxAllocatableClusters (cpc : ℕ) : ℕ :=
  let temp := (longMultiply cpc.toUInt32 0x10624dd3 >>> 6) - (cpc.toUInt32 >>> 31)
  ((((((temp <<< 5) - temp) <<< 2) + temp) <<< 3) + 1).toNat

/-- A cluster of the FAT: `sz` free clusters, the first one of the card being the root directory. -/
def fatCluster (z sz : ℕ) : List ℕ :=
  (List.range 256).map fun b =>
    if z = 0 ∧ b = 0 then 0xffffffff else if b < sz then 0x7fffffff else 0

/-- The loop that writes the FAT: the cluster `j` of the card is the first one that has no entry
yet, `z` clusters have one. After `2 ^ 24` passes `j` is what it was. -/
def fatLoop (host : Host) (bound : ℕ) :
    ℕ → ℕ → ℕ → ℕ → MCDevInfo → VmcFile → Except Stop (MCDevInfo × ℕ × VmcFile)
  | 0, _, _, _, _, _ => .error .endless
  | fuel + 1, j, z, idx, info, f =>
    if j < bound then
      let sz := min (bound - j) 256
      let info := if z = 0 then { info with allocOffset := j, rootdirCluster := 0 } else info
      (onFail (-107) (mcWriteCluster host clusterSize f idx
        (Bytes.overwrite erasedBuf 0 (wordBytes (fatCluster z sz))) 1)).bind fun f =>
          fatLoop host bound fuel ((j + 256) % 2 ^ 32) ((z + sz) % 2 ^ 32) (idx + 1) info f
    else .ok (info, z, f)

/-- `sceMcStDateTime` -/
structure DateTime where
  resv2 : UInt8
  sec : UInt8
  min : UInt8
  hour : UInt8
  day : UInt8
  month : UInt8
  year : UInt16

def DateTime.toBytes (time : DateTime) : List UInt8 :=
  [time.resv2, time.sec, time.min, time.hour, time.day, time.month] ++
    Bytes.toLe 2 time.year.toNat

/-- A `McFsEntry` of the root directory, with two entries in it: the mode, the times and the
name. -/
def fsEntry (mode : ℕ) (time : DateTime) (name : List UInt8) : List UInt8 :=
  Bytes.toLe 2 mode ++ Bytes.toLe 2 0 ++ Bytes.toLe 4 2 ++ time.toBytes ++ Bytes.toLe 4 0 ++
    Bytes.toLe 4 0 ++ time.toBytes ++ List.replicate 32 0 ++ name ++
    List.replicate (448 - name.length) 0

/-- The cluster of the root directory: `.` can be read, `..` is hidden. -/
def rootDirectory (time : DateTime) : List UInt8 :=
  fsEntry 0x8427 time (ascii ".") ++ fsEntry 0xa426 time (ascii "..")

/-- The cluster behind the FAT. -/
def allocOffset (cpb cpc : ℕ) : ℕ := cpb + ifcLength cpc + fatLength cpc

/-- The cluster behind the last one that can be allocated: two blocks are kept. -/
def fatBound (cpb cpc : ℕ) : ℕ := ((cpc / cpb + 2 ^ 32 - 2) % 2 ^ 32 * cpb) % 2 ^ 32

/-- The fields that are set before the FAT is written. -/
def withBackups (info : MCDevInfo) : MCDevInfo :=
  { info with
    backupBlock1 := (info.clustersPerCard / info.clustersPerBlock + 2 ^ 32 - 1) % 2 ^ 32
    backupBlock2 := (info.clustersPerCard / info.clustersPerBlock + 2 ^ 32 - 2) % 2 ^ 32
    maxAllocatableClusters := maxAllocatableClusters info.clustersPerCard }

/-- The fields that are set behind it. -/
def finished (info : MCDevInfo) (bound : ℕ) : MCDevInfo :=
  { info with
    allocEnd := (bound + 2 ^ 32 - info.allocOffset) % 2 ^ 32
    unknown1 := 0
    unknown2 := 0
    unknown5 := 0xffffffff
    rootdirCluster2 := info.rootdirCluster
    cardform := 1 }

/-- The root directory and the superblock. -/
def writeRoot (host : Host) (time : DateTime) (info : MCDevInfo) (f : VmcFile) :
    Except Stop VmcFile :=
  (onFail (-109) (mcWriteCluster host clusterSize f (info.allocOffset + info.rootdirCluster)
    (Bytes.overwrite erasedBuf 0 (rootDirectory time)) 1)).bind fun f =>
      onFail (-110) (mcWriteCluster host clusterSize f 0
        (Bytes.overwrite erasedBuf 0 info.toBytes) 1)

/-- The FAT, and what comes behind it. -/
def writeCard (host : Host) (time : DateTime) (info : MCDevInfo) (f : VmcFile) :
    Except Stop (MCDevInfo × VmcFile) :=
  let cpc := info.clustersPerCard
  let cpb := info.clustersPerBlock
  if cpb = 0 then .error .divided
  else
    (fatLoop host (fatBound cpb cpc) (2 ^ 24 + 1) (allocOffset cpb cpc) 0 (cpb + ifcLength cpc)
      (withBackups info) f).bind fun (info, z, f) =>
        if z < cpb then .error (.returned (-108))
        else
          let info := finished info (fatBound cpb cpc)
          (writeRoot host time info f).map fun f => (info, f)

/-- The indirect FAT, and what comes behind it. -/
def fillCard (host : Host) (time : DateTime) (info : MCDevInfo) (f : VmcFile) :
    Except Stop (MCDevInfo × VmcFile) :=
  let cpc := info.clustersPerCard
  if host.allocates = false then .error (.returned (-103))
  else
    (buildIfc cpc (fatLength cpc) (info.blocksize / 2 + ifcLength cpc)).bind fun ifc =>
      if ifcLength cpc * clusterSize < (wordBytes ifc).length then .error .outside
      else
        (writeIfc host info.ifcList (ifcMem cpc ifc) (ifcLength cpc) 0 f).bind fun f =>
          writeCard host time info f

/-- The fields that are set before the indirect FAT is built. -/
def withIfc (info : MCDevInfo) : MCDevInfo :=
  { info with ifcList := ifcList (info.blocksize / 2) info.clustersPerCard }

/-- `vmc_mcformat`: the superblock and the file when it returns 0. `old` is what `devinfo` has in it
before, `time` is what `mc_getmcrtime` gives. -/
def vmcMcformat (host : Host) (time : DateTime) (old : MCDevInfo) (sizeKb blocksize : UInt32) :
    Except Stop (MCDevInfo × VmcFile) :=
  if host.opens = false then .error (.returned (-101))
  else
    let info := withIfc (specs old sizeKb blocksize)
    (eraseLoop host info.clustersPerCard 0 .empty).bind fun f => fillCard host time info f

/-! ### Well-formed cards -/

/-- The word `m` of the indirect FAT: a cluster of the FAT. -/
def ifcEntry (info : MCDevInfo) (f : VmcFile) (m : ℕ) : ℕ :=
  f.word (info.ifcList.getD (m / 256) 0) (m % 256)

/-- The word of the FAT for the cluster `c` of the allocatable area. -/
def fatEntry (info : MCDevInfo) (f : VmcFile) (c : ℕ) : ℕ :=
  f.word (ifcEntry info f (c / 256)) (c % 256)

/-- The clusters of the superblock, the indirect FAT, the FAT, the allocatable area and the two
blocks that are kept: the first one, and the one behind. -/
def areas (info : MCDevInfo) (ifcStart ifcLen fatStart fatLen : ℕ) : List (ℕ × ℕ) :=
  [(0, 1), (ifcStart, ifcStart + ifcLen), (fatStart, fatStart + fatLen),
    (info.allocOffset, info.allocOffset + info.allocEnd),
    (info.backupBlock2 * info.clustersPerBlock, (info.backupBlock2 + 1) * info.clustersPerBlock),
    (info.backupBlock1 * info.clustersPerBlock, (info.backupBlock1 + 1) * info.clustersPerBlock)]

/-- A file is the image of the card of a superblock, with an indirect FAT and a FAT at these
places. -/
structure IsCard (info : MCDevInfo) (f : VmcFile) (ifcStart ifcLen fatStart fatLen : ℕ) :
    Prop where
  size_le : f.size ≤ 1024 * info.clustersPerCard
  superblock : Bytes.slice f.bytes 0 384 = info.toBytes
  apart : (areas info ifcStart ifcLen fatStart fatLen).Pairwise fun a b => a.2 ≤ b.1 ∨ b.2 ≤ a.1
  inside : ∀ a ∈ areas info ifcStart ifcLen fatStart fatLen, a.2 ≤ info.clustersPerCard
  ifcLen_le : ifcLen ≤ 32
  ifcList : ∀ k < 32, info.ifcList[k]? = some (if k < ifcLen then ifcStart + k else 0xffffffff)
  fatLen_le : fatLen ≤ 256 * ifcLen
  ifcEntry : ∀ m < 256 * ifcLen, ifcEntry info f m = if m < fatLen then fatStart + m else 0
  allocEnd_le : info.allocEnd ≤ 256 * fatLen
  fatEntry : ∀ c < info.allocEnd, fatEntry info f c = if c = 0 then 0xffffffff else 0x7fffffff

/-- `VMC_size_mb * 1024` -/
def sizeKb (sizeMb : UInt32) : UInt32 := sizeMb * 1024

/-- The call that makes a card of this size, with blocks of this many pages, has no access outside
of a buffer, and leaves a well-formed card when it returns 0. -/
def FormatsWell (sizeMb blocksize : UInt32) : Prop :=
  ∀ host time old, vmcMcformat host time old (sizeKb sizeMb) blocksize ≠ .error .outside ∧
    ∀ info f, vmcMcformat host time old (sizeKb sizeMb) blocksize = .ok (info, f) →
      ∃ ifcStart ifcLen fatStart fatLen, IsCard info f ifcStart ifcLen fatStart fatLen

/-! ### The geometry -/

theorem clustersPerCard_sizeKb (sizeMb : UInt32) :
    clustersPerCard (sizeKb sizeMb) = 1024 * (sizeMb.toNat % 4096) := by
  have h : (sizeMb * 1024 * 1024).toNat = sizeMb.toNat * 1024 % 2 ^ 32 * 1024 % 2 ^ 32 := by
    rw [UInt32.toNat_mul, UInt32.toNat_mul]
    rfl
  rw [clustersPerCard, sizeKb, h, clusterSize]
  omega

theorem clustersPerBlock_eq (blocksize : UInt32) :
    clustersPerBlock blocksize = blocksize.toNat % 65536 / 2 := by
  rw [clustersPerBlock, UInt32.toNat_toUInt16]

theorem clustersPerBlock_lt (blocksize : UInt32) : clustersPerBlock blocksize < 2 ^ 15 := by
  rw [clustersPerBlock_eq]
  omega

section Geometry

variable {m : ℕ}

theorem fullFatLength_eq (hm : 0 < m) (hlt : m < 4096) : fullFatLength (1024 * m) = 4 * m := by
  rw [fullFatLength, clusterSize]
  omega

theorem fullIfcLength_eq (hm : 0 < m) (hlt : m < 4096) :
    fullIfcLength (1024 * m) = (m + 63) / 64 := by
  rw [fullIfcLength, fullFatLength_eq hm hlt, clusterSize]
  omega

/-- The FAT has an entry for every cluster, unless it is capped. -/
theorem fatLength_eq (hm : 0 < m) (hlt : m < 4096) :
    fatLength (1024 * m) = if m ≤ 2048 then 4 * m else 8192 := by
  rw [fatLength, fullIfcLength_eq hm hlt, fullFatLength_eq hm hlt]
  split_ifs <;> omega

theorem ifcLength_eq (hm : 0 < m) (hlt : m < 4096) :
    ifcLength (1024 * m) = if m ≤ 2048 then (m + 63) / 64 else 32 := by
  rw [ifcLength, fullIfcLength_eq hm hlt]
  split_ifs <;> omega

/-- The length of the FAT and of the indirect FAT go together. -/
theorem length_bounds (cpc : ℕ) (hlt : cpc < 2 ^ 22) :
    fatLength cpc ≤ 256 * ifcLength cpc ∧ ifcLength cpc ≤ 32 ∧ 0 < ifcLength cpc := by
  rw [fatLength, ifcLength, fullIfcLength, fullFatLength, clusterSize]
  split_ifs <;> omega

end Geometry

theorem fatLength_pos (cpc : ℕ) : 0 < fatLength cpc := by
  rw [fatLength]
  split
  · exact Nat.succ_pos _
  · decide

/-- A card of one block and a rest, with room for the FAT in the first block: the number of blocks
that are not kept is -1. -/
def OneBlock (m b : ℕ) : Prop := 512 * m < b ∧ b < 1020 * m

/-- A card of more than 2 GB that has more clusters than the FAT has entries. -/
def BeyondFat (m b : ℕ) : Prop := 2048 < m ∧ b + 2105376 < (1024 * m / b - 2) * b

instance (m b : ℕ) : Decidable (OneBlock m b) := inferInstanceAs (Decidable (_ ∧ _))

instance (m b : ℕ) : Decidable (BeyondFat m b) := inferInstanceAs (Decidable (_ ∧ _))

/-! ### Writing clusters -/

section Loops

variable {host : Host} {f f' : VmcFile} {c n z : ℕ} {buf : List UInt8} {r : ℤ}

/-- A cluster that is written is below 2 GB. -/
theorem put_of_mcWriteCluster (hc : c < 2 ^ 21)
    (h : onFail r (mcWriteCluster host clusterSize f c buf 1) = .ok f') :
    f' = f.put (1024 * c) (buf.take 1024) ∧ 1024 ≤ buf.length := by
  obtain ⟨hlen, hput⟩ := mcWriteCluster_eq_ok (onFail_eq_ok.mp h)
  have hpos : c * clusterSize % 2 ^ 32 = 1024 * c := by
    rw [clusterSize]
    omega
  have hsize : clusterSize * 1 % 2 ^ 32 = 1024 := rfl
  rw [hsize] at hlen hput
  rw [hpos, VmcFile.seek, if_pos (by omega)] at hput
  exact ⟨hput, hlen⟩

theorem mcWriteCluster_ok (hhost : host.Succeeds) (r : ℤ) (f : VmcFile) (c : ℕ)
    (hbuf : 1024 ≤ buf.length) :
    ∃ f', onFail r (mcWriteCluster host clusterSize f c buf 1) = .ok f' := by
  refine ⟨_, onFail_eq_ok.mpr (mcWriteCluster_of_succeeds hhost ?_)⟩
  exact hbuf

theorem mcWriteCluster_inside (r : ℤ) (f : VmcFile) (c : ℕ) (hbuf : 1024 ≤ buf.length) :
    onFail r (mcWriteCluster host clusterSize f c buf 1) ≠ .error .outside :=
  onFail_ne_outside (mcWriteCluster_ne_outside hbuf)

theorem length_overwrite_erasedBuf (d : List UInt8) :
    1024 ≤ (Bytes.overwrite erasedBuf 0 d).length := by
  rw [Bytes.overwrite, List.length_append, List.length_append, List.length_drop, erasedBuf,
    List.length_replicate]
  omega

theorem take_overwrite_erasedBuf {d : List UInt8} (h : d.length = 1024) :
    (Bytes.overwrite erasedBuf 0 d).take 1024 = d := by
  rw [Bytes.overwrite, List.take_zero, List.nil_append, List.take_left' h]

/-! ### Erasing -/

theorem size_eraseLoop {cpc i : ℕ} (hcpc : 16 ∣ cpc) (hlt : cpc < 2 ^ 22) (hi : 16 ∣ i)
    (hle : i ≤ cpc) (hpos : f.pos = 1024 * i) (hsize : f.size ≤ 1024 * i)
    (h : eraseLoop host cpc i f = .ok f') : f'.size ≤ 1024 * cpc := by
  induction i, f using eraseLoop.induct cpc with
  | case1 i f hi' hzero =>
    rw [eraseLoop, if_pos hi', if_pos hzero] at h
    cases h
  | case2 i f hi' hzero ih =>
    rw [eraseLoop, if_pos hi', if_neg hzero] at h
    obtain ⟨f₁, hwrite, hrest⟩ := bind_eq_ok.mp h
    obtain ⟨-, hput⟩ := mcWriteCluster_eq_ok (onFail_eq_ok.mp hwrite)
    have hoffset : i * clusterSize % 2 ^ 32 = 1024 * i := by
      rw [clusterSize]
      omega
    have hseek : f.seek (i * clusterSize % 2 ^ 32) = 1024 * i := by
      rw [hoffset, VmcFile.seek, hpos, ite_self]
    have hbuf : (erasedBuf.take (clusterSize * 16 % 2 ^ 32)).length = 16384 := by
      rw [List.length_take, erasedBuf, List.length_replicate]
      rfl
    rw [hseek] at hput
    refine ih f₁ (by omega) (by omega) ?_ ?_ hrest
    · rw [hput, VmcFile.pos_put, hbuf]
      omega
    · have hle := VmcFile.size_put_le f (1024 * i) (erasedBuf.take (clusterSize * 16 % 2 ^ 32))
      rw [hbuf] at hle
      rw [hput]
      omega
  | case3 i f hi' =>
    rw [eraseLoop, if_neg hi'] at h
    cases h
    omega

theorem eraseLoop_ok (hhost : host.Succeeds) {cpc : ℕ} (hcpc : 99 ≤ cpc) (i : ℕ) (f : VmcFile) :
    ∃ f', eraseLoop host cpc i f = .ok f' := by
  induction i, f using eraseLoop.induct cpc with
  | case1 i f hi hzero => omega
  | case2 i f hi hzero ih =>
    have hwrite : mcWriteCluster host clusterSize f i erasedBuf 16 = _ :=
      mcWriteCluster_of_succeeds hhost (show clusterSize * 16 % 2 ^ 32 ≤ erasedBuf.length by
        rw [erasedBuf, List.length_replicate]; decide)
    obtain ⟨f', hf'⟩ := ih _
    refine ⟨f', ?_⟩
    rw [eraseLoop, if_pos hi, if_neg hzero]
    exact bind_eq_ok.mpr ⟨_, onFail_eq_ok.mpr hwrite, hf'⟩
  | case3 i f hi =>
    rw [eraseLoop, if_neg hi]
    exact ⟨f, rfl⟩

theorem eraseLoop_ne_outside (cpc i : ℕ) (f : VmcFile) :
    eraseLoop host cpc i f ≠ .error .outside := by
  induction i, f using eraseLoop.induct cpc with
  | case1 i f hi hzero =>
    rw [eraseLoop, if_pos hi, if_pos hzero]
    simp
  | case2 i f hi hzero ih =>
    rw [eraseLoop, if_pos hi, if_neg hzero]
    refine bind_ne_error (onFail_ne_outside (mcWriteCluster_ne_outside ?_)) fun f' _ => ih f'
    rw [erasedBuf, List.length_replicate]
    decide
  | case3 i f hi =>
    rw [eraseLoop, if_neg hi]
    simp

/-! ### The indirect FAT -/

theorem buildIfc_eq (cpc n i : ℕ) :
    buildIfc cpc n i =
      if n = 0 ∨ i + n ≤ cpc then .ok (List.range' i n) else .error (.returned (-104)) := by
  induction n generalizing i with
  | zero => rfl
  | succ n ih =>
    rw [buildIfc]
    split
    · rw [if_neg (by omega)]
    · rw [ih]
      by_cases hn : n = 0 ∨ i + 1 + n ≤ cpc
      · rw [if_pos hn, if_pos (by omega)]
        rfl
      · rw [if_neg hn, if_neg (by omega)]
        rfl

/-- The word `m` of the indirect FAT. -/
theorem field_ifcMem {cpc s m : ℕ} (hfit : fatLength cpc ≤ 256 * ifcLength cpc)
    (hm : m < 256 * ifcLength cpc) :
    Bytes.field (ifcMem cpc (List.range' s (fatLength cpc))) (4 * m) 4 =
      Bytes.toLe 4 (if m < fatLength cpc then s + m else 0) := by
  have hlen : (wordBytes (List.range' s (fatLength cpc))).length = 4 * fatLength cpc := by
    rw [length_wordBytes, List.length_range']
  rw [ifcMem, clusterSize]
  split
  next hlt =>
    rw [Bytes.field_overwrite_zero (by rw [hlen]; omega),
      field_wordBytes (by rw [List.length_range']; exact hlt), List.getElem_range', Nat.one_mul]
  next hge =>
    rw [Bytes.field_overwrite_of_ge (by rw [hlen, List.length_replicate]; omega)
      (by rw [hlen]; omega), Bytes.field, List.drop_replicate, List.take_replicate,
      Nat.min_eq_left (by omega)]
    rfl

theorem length_ifcMem {cpc s : ℕ} (hfit : fatLength cpc ≤ 256 * ifcLength cpc) :
    (ifcMem cpc (List.range' s (fatLength cpc))).length = 1024 * ifcLength cpc := by
  rw [ifcMem, clusterSize, Bytes.length_overwrite, List.length_replicate, Nat.mul_comm]
  rw [length_wordBytes, List.length_range', List.length_replicate]
  omega

/-- The clusters from `c` to `c + n` were written, and no others. -/
structure Filled (f f' : VmcFile) (c n : ℕ) : Prop where
  word_eq : ∀ q k, k < 256 → q < c ∨ c + n ≤ q → f'.word q k = f.word q k
  size_le : f'.size ≤ max f.size (1024 * (c + n))

theorem Filled.refl (f : VmcFile) (c : ℕ) : Filled f f c 0 :=
  ⟨fun _ _ _ _ => rfl, by omega⟩

theorem Filled.put {d : List UInt8} (hd : d.length = 1024) : Filled f (f.put (1024 * c) d) c 1 := by
  refine ⟨fun q k hk hq => VmcFile.word_put_of_apart hk (by omega), ?_⟩
  have hle := VmcFile.size_put_le f (1024 * c) d
  omega

theorem Filled.trans {f₁ : VmcFile} (h : Filled f f₁ c 1) (h' : Filled f₁ f' (c + 1) n) :
    Filled f f' c (n + 1) := by
  refine ⟨fun q k hk hq => ?_, ?_⟩
  · rw [h'.word_eq q k hk (by omega), h.word_eq q k hk (by omega)]
  · have hle := h.size_le
    have hle' := h'.size_le
    omega

/-- The indirect FAT clusters have the words of `ifc_mem`. -/
theorem writeIfc_file {list : List ℕ} {mem : List UInt8}
    (hlist : ∀ t < n, list.getD (z + t) 0 = c + t) (hmem : 1024 * (z + n) ≤ mem.length)
    (hc : c + n ≤ 2 ^ 21) (h : writeIfc host list mem n z f = .ok f') :
    Filled f f' c n ∧ ∀ m < 256 * n, ∀ w < 2 ^ 32,
      Bytes.field mem (4 * (256 * z + m)) 4 = Bytes.toLe 4 w →
        f'.word (c + m / 256) (m % 256) = w := by
  induction n generalizing z c f with
  | zero =>
    cases h
    exact ⟨Filled.refl _ c, fun m hm => absurd hm (by omega)⟩
  | succ n ih =>
    obtain ⟨f₁, hwrite, hrest⟩ := bind_eq_ok.mp h
    have hfirst : list.getD z 0 = c := hlist 0 (by omega)
    rw [hfirst] at hwrite
    obtain ⟨hput, hlen⟩ := put_of_mcWriteCluster (by omega) hwrite
    have htake : ((mem.drop (z * clusterSize)).take 1024).length = 1024 :=
      List.length_take_of_le hlen
    obtain ⟨hfilled, hwords⟩ := ih (z := z + 1) (c := c + 1)
      (fun t ht => by
        have := hlist (t + 1) (by omega)
        rw [show z + 1 + t = z + (t + 1) by omega, this]
        omega) (by omega) (by omega) hrest
    have hfilled₁ : Filled f f₁ c 1 := by
      rw [hput]
      exact Filled.put htake
    refine ⟨hfilled₁.trans hfilled, fun m hm w hw hfield => ?_⟩
    by_cases hm' : m < 256
    · rw [Nat.div_eq_of_lt hm', Nat.mod_eq_of_lt hm', Nat.add_zero,
        hfilled.word_eq c m hm' (by omega), hput]
      refine VmcFile.word_put ?_ (by omega) hw
      rw [Bytes.field_take _ (by omega), ← hfield, Bytes.field, Bytes.field, List.drop_drop,
        clusterSize]
      congr 2
      omega
    · have hword := hwords (m - 256) (by omega) w hw (by
        rw [show 256 * (z + 1) + (m - 256) = 256 * z + m by omega]
        exact hfield)
      rw [show c + m / 256 = c + 1 + (m - 256) / 256 by omega,
        show m % 256 = (m - 256) % 256 by omega]
      exact hword

theorem writeIfc_ok (hhost : host.Succeeds) (list : List ℕ) {mem : List UInt8}
    (hmem : 1024 * (z + n) ≤ mem.length) (f : VmcFile) :
    ∃ f', writeIfc host list mem n z f = .ok f' := by
  induction n generalizing z f with
  | zero => exact ⟨f, rfl⟩
  | succ n ih =>
    have hbuf : 1024 ≤ (mem.drop (z * clusterSize)).length := by
      rw [List.length_drop, clusterSize]
      omega
    obtain ⟨f₁, hf₁⟩ := mcWriteCluster_ok hhost (-105) f (list.getD z 0) hbuf
    obtain ⟨f', hf'⟩ := ih (z := z + 1) (by omega) f₁
    exact ⟨f', bind_eq_ok.mpr ⟨f₁, hf₁, hf'⟩⟩

theorem writeIfc_ne_outside (list : List ℕ) {mem : List UInt8}
    (hmem : 1024 * (z + n) ≤ mem.length) (f : VmcFile) :
    writeIfc host list mem n z f ≠ .error .outside := by
  induction n generalizing z f with
  | zero => simp [writeIfc]
  | succ n ih =>
    refine bind_ne_error (mcWriteCluster_inside _ _ _ ?_) fun f' _ => ih (by omega) f'
    rw [List.length_drop, clusterSize]
    omega

/-! ### The FAT -/

theorem length_fatCluster (z sz : ℕ) : (wordBytes (fatCluster z sz)).length = 1024 := by
  rw [length_wordBytes, fatCluster, List.length_map, List.length_range]

theorem field_fatCluster {z sz k : ℕ} (hk : k < 256) :
    Bytes.field (wordBytes (fatCluster z sz)) (4 * k) 4 =
      Bytes.toLe 4 (if z = 0 ∧ k = 0 then 0xffffffff else if k < sz then 0x7fffffff else 0) := by
  have hlen : k < (fatCluster z sz).length := by
    rw [fatCluster, List.length_map, List.length_range]
    exact hk
  rw [field_wordBytes hlen]
  simp only [fatCluster, List.getElem_map, List.getElem_range]

section fatLoop

variable {bound fuel j z' : ℕ} {info info' : MCDevInfo}

/-- The FAT has an entry for every cluster up to the bound. -/
theorem fatLoop_file (hbound : bound + 256 ≤ 2 ^ 32) (hz : z + (bound - j) < 2 ^ 32)
    (hc : c + (bound - j + 255) / 256 ≤ 2 ^ 21)
    (h : fatLoop host bound fuel j z c info f = .ok (info', z', f')) :
    Filled f f' c ((bound - j + 255) / 256) ∧
      ∀ b < bound - j, f'.word (c + b / 256) (b % 256) =
        if z + b = 0 then 0xffffffff else 0x7fffffff := by
  induction fuel generalizing j z c info f with
  | zero => cases h
  | succ fuel ih =>
    rw [fatLoop] at h
    split at h
    next hj =>
      obtain ⟨f₁, hwrite, hrest⟩ := bind_eq_ok.mp h
      obtain ⟨hput, -⟩ := put_of_mcWriteCluster (by omega) hwrite
      rw [take_overwrite_erasedBuf (length_fatCluster _ _)] at hput
      have hfilled₁ : Filled f f₁ c 1 := by
        rw [hput]
        exact Filled.put (length_fatCluster _ _)
      have hj' : (j + 256) % 2 ^ 32 = j + 256 := Nat.mod_eq_of_lt (by omega)
      have hz' : (z + min (bound - j) 256) % 2 ^ 32 = z + min (bound - j) 256 :=
        Nat.mod_eq_of_lt (by omega)
      rw [hj', hz'] at hrest
      obtain ⟨hfilled, hwords⟩ := ih (by omega) (by omega) hrest
      have hcount : (bound - j + 255) / 256 = (bound - (j + 256) + 255) / 256 + 1 := by omega
      rw [hcount]
      refine ⟨hfilled₁.trans hfilled, fun b hb => ?_⟩
      by_cases hb' : b < 256
      · rw [Nat.div_eq_of_lt hb', Nat.mod_eq_of_lt hb', Nat.add_zero,
          hfilled.word_eq c b hb' (by omega), hput]
        refine VmcFile.word_put ?_ (by rw [length_fatCluster]; omega) (by split <;> decide)
        rw [field_fatCluster hb']
        congr 1
        split_ifs <;> omega
      · rw [show c + b / 256 = c + 1 + (b - 256) / 256 by omega,
          show b % 256 = (b - 256) % 256 by omega, hwords (b - 256) (by omega)]
        split_ifs <;> omega
    next hj =>
      cases h
      rw [show bound - j = 0 by omega]
      exact ⟨Filled.refl _ c, fun b hb => absurd hb (Nat.not_lt_zero b)⟩

/-- Every cluster up to the bound is counted, and the first pass sets the start of the area. -/
theorem fatLoop_result (hbound : bound + 256 ≤ 2 ^ 32) (hz : z + (bound - j) < 2 ^ 32)
    (h : fatLoop host bound fuel j z c info f = .ok (info', z', f')) :
    z' = z + (bound - j) ∧
      info' = if z = 0 ∧ j < bound then { info with allocOffset := j, rootdirCluster := 0 }
        else info := by
  induction fuel generalizing j z c info f with
  | zero => cases h
  | succ fuel ih =>
    rw [fatLoop] at h
    split at h
    next hj =>
      obtain ⟨f₁, -, hrest⟩ := bind_eq_ok.mp h
      have hj' : (j + 256) % 2 ^ 32 = j + 256 := Nat.mod_eq_of_lt (by omega)
      have hz' : (z + min (bound - j) 256) % 2 ^ 32 = z + min (bound - j) 256 :=
        Nat.mod_eq_of_lt (by omega)
      rw [hj', hz'] at hrest
      obtain ⟨hcount, hinfo⟩ := ih (by omega) hrest
      constructor
      · omega
      · rw [hinfo, if_neg (by omega)]
        simp only [hj, and_true]
    next hj =>
      cases h
      refine ⟨by omega, ?_⟩
      rw [if_neg fun hand => hj hand.2]

theorem fatLoop_ok (fuel : ℕ) (hhost : host.Succeeds) (hbound : bound + 256 ≤ 2 ^ 32)
    (hfuel : bound - j + 255 < 256 * fuel) (z c : ℕ) (info : MCDevInfo) (f : VmcFile) :
    ∃ r, fatLoop host bound fuel j z c info f = .ok r := by
  induction fuel generalizing j z c info f with
  | zero => omega
  | succ fuel ih =>
    rw [fatLoop]
    split
    next hj =>
      obtain ⟨f₁, hf₁⟩ := mcWriteCluster_ok hhost (-107) f c
        (length_overwrite_erasedBuf (wordBytes (fatCluster z (min (bound - j) 256))))
      have hj' : (j + 256) % 2 ^ 32 = j + 256 := Nat.mod_eq_of_lt (by omega)
      obtain ⟨r, hr⟩ := ih (j := j + 256) (by omega) ((z + min (bound - j) 256) % 2 ^ 32) (c + 1)
        (if z = 0 then { info with allocOffset := j, rootdirCluster := 0 } else info) f₁
      refine ⟨r, bind_eq_ok.mpr ⟨f₁, hf₁, ?_⟩⟩
      rw [hj']
      exact hr
    next hj => exact ⟨_, rfl⟩

theorem fatLoop_ne_outside (bound fuel j z c : ℕ) (info : MCDevInfo) (f : VmcFile) :
    fatLoop host bound fuel j z c info f ≠ .error .outside := by
  induction fuel generalizing j z c info f with
  | zero => simp [fatLoop]
  | succ fuel ih =>
    rw [fatLoop]
    split
    · exact bind_ne_error (mcWriteCluster_inside _ _ _ (length_overwrite_erasedBuf _))
        fun f' _ => ih _ _ _ _ f'
    · simp

end fatLoop

end Loops

/-! ### The root directory and the superblock -/

section Card

variable {host : Host} {time : DateTime} {info info' old : MCDevInfo} {f f' : VmcFile}

theorem writeRoot_file (hroot : info.rootdirCluster = 0) (hoffset : info.allocOffset < 2 ^ 21)
    (hlen : info.toBytes.length = 384) (h : writeRoot host time info f = .ok f') :
    Bytes.slice f'.bytes 0 384 = info.toBytes ∧
      f'.size ≤ max f.size (1024 * (info.allocOffset + 1)) ∧
      ∀ q k, k < 256 → 0 < q → q ≠ info.allocOffset → f'.word q k = f.word q k := by
  obtain ⟨f₁, hdir, hsuper⟩ := bind_eq_ok.mp h
  rw [hroot, Nat.add_zero] at hdir
  obtain ⟨hput₁, hlen₁⟩ := put_of_mcWriteCluster hoffset hdir
  obtain ⟨hput, hlen₂⟩ := put_of_mcWriteCluster (by decide) hsuper
  have hfilled₁ : Filled f f₁ info.allocOffset 1 := by
    rw [hput₁]
    exact Filled.put (List.length_take_of_le hlen₁)
  have hfilled : Filled f₁ f' 0 1 := by
    rw [hput]
    exact Filled.put (List.length_take_of_le hlen₂)
  refine ⟨?_, ?_, fun q k hk hpos hne => ?_⟩
  · have hslice := VmcFile.slice_put f₁ (1024 * 0)
      ((Bytes.overwrite erasedBuf 0 info.toBytes).take 1024)
    rw [← hput, List.length_take_of_le hlen₂] at hslice
    rw [← Bytes.take_slice f'.bytes 0 (show 384 ≤ 1024 by decide), hslice, List.take_take,
      Bytes.overwrite, List.take_zero, List.nil_append]
    exact List.take_left' hlen
  · have hle := hfilled₁.size_le
    have hle' := hfilled.size_le
    omega
  · rw [hfilled.word_eq q k hk (by omega), hfilled₁.word_eq q k hk (by omega)]

theorem writeRoot_ok (hhost : host.Succeeds) (time : DateTime) (info : MCDevInfo) (f : VmcFile) :
    ∃ f', writeRoot host time info f = .ok f' := by
  obtain ⟨f₁, hf₁⟩ := mcWriteCluster_ok hhost (-109) f (info.allocOffset + info.rootdirCluster)
    (length_overwrite_erasedBuf (rootDirectory time))
  obtain ⟨f', hf'⟩ := mcWriteCluster_ok hhost (-110) f₁ 0
    (length_overwrite_erasedBuf info.toBytes)
  exact ⟨f', bind_eq_ok.mpr ⟨f₁, hf₁, hf'⟩⟩

theorem writeRoot_ne_outside (info : MCDevInfo) (f : VmcFile) :
    writeRoot host time info f ≠ .error .outside :=
  bind_ne_error (mcWriteCluster_inside _ _ _ (length_overwrite_erasedBuf _))
    fun _ _ => mcWriteCluster_inside _ _ _ (length_overwrite_erasedBuf _)

/-- What a call that gets to its end has done behind the indirect FAT. -/
theorem writeCard_eq_ok (h : writeCard host time info f = .ok (info', f')) :
    info.clustersPerBlock ≠ 0 ∧ ∃ info₁ z f₁,
      fatLoop host (fatBound info.clustersPerBlock info.clustersPerCard) (2 ^ 24 + 1)
        (allocOffset info.clustersPerBlock info.clustersPerCard) 0
        (info.clustersPerBlock + ifcLength info.clustersPerCard) (withBackups info) f =
          .ok (info₁, z, f₁) ∧
      info.clustersPerBlock ≤ z ∧
      info' = finished info₁ (fatBound info.clustersPerBlock info.clustersPerCard) ∧
      writeRoot host time info' f₁ = .ok f' := by
  rw [writeCard] at h
  split at h
  next => cases h
  next hcpb =>
    obtain ⟨⟨info₁, z, f₁⟩, hfat, hrest⟩ := bind_eq_ok.mp h
    dsimp only at hrest
    split at hrest
    next => cases hrest
    next hz =>
      obtain ⟨f'', hroot, heq⟩ := map_eq_ok.mp hrest
      obtain ⟨rfl, rfl⟩ := Prod.mk.inj heq
      exact ⟨hcpb, info₁, z, f₁, hfat, Nat.le_of_not_lt hz, rfl, hroot⟩

/-- The words of the indirect FAT. -/
def ifcWords (info : MCDevInfo) : List ℕ :=
  List.range' (info.clustersPerBlock + ifcLength info.clustersPerCard)
    (fatLength info.clustersPerCard)

/-- The indirect FAT has the places in it when they are on the card. -/
theorem fillCard_eq (host : Host) (time : DateTime) (info : MCDevInfo) (f : VmcFile)
    (hblock : info.blocksize / 2 = info.clustersPerBlock)
    (hlens : fatLength info.clustersPerCard ≤ 256 * ifcLength info.clustersPerCard) :
    fillCard host time info f =
      if host.allocates = false then .error (.returned (-103))
      else if allocOffset info.clustersPerBlock info.clustersPerCard ≤ info.clustersPerCard then
        (writeIfc host info.ifcList (ifcMem info.clustersPerCard (ifcWords info))
          (ifcLength info.clustersPerCard) 0 f).bind fun f => writeCard host time info f
      else .error (.returned (-104)) := by
  have hpos := fatLength_pos info.clustersPerCard
  have hmem : ¬ifcLength info.clustersPerCard * clusterSize <
      (wordBytes (ifcWords info)).length := by
    rw [length_wordBytes, ifcWords, List.length_range', clusterSize]
    omega
  have hwords : buildIfc info.clustersPerCard (fatLength info.clustersPerCard)
      (info.clustersPerBlock + ifcLength info.clustersPerCard) =
        if allocOffset info.clustersPerBlock info.clustersPerCard ≤ info.clustersPerCard then
          .ok (ifcWords info)
        else .error (.returned (-104)) := by
    rw [buildIfc_eq, allocOffset, ifcWords]
    simp only [hpos.ne', false_or]
  rw [fillCard, hblock, hwords]
  by_cases hfit : allocOffset info.clustersPerBlock info.clustersPerCard ≤ info.clustersPerCard
  · rw [if_pos hfit, if_pos hfit, bind_ok, if_neg hmem]
  · rw [if_neg hfit, if_neg hfit, bind_error]

theorem blocksize_specs (old : MCDevInfo) (sizeKb blocksize : UInt32) :
    (withIfc (specs old sizeKb blocksize)).blocksize / 2 =
      (withIfc (specs old sizeKb blocksize)).clustersPerBlock := rfl

/-- What a call that gets to its end has done. -/
theorem vmcMcformat_eq_ok {sizeKb blocksize : UInt32} (hlt : clustersPerCard sizeKb < 2 ^ 22)
    (h : vmcMcformat host time old sizeKb blocksize = .ok (info, f)) :
    allocOffset (clustersPerBlock blocksize) (clustersPerCard sizeKb) ≤ clustersPerCard sizeKb ∧
      ∃ f₁ f₂, eraseLoop host (clustersPerCard sizeKb) 0 .empty = .ok f₁ ∧
        writeIfc host (ifcList (clustersPerBlock blocksize) (clustersPerCard sizeKb))
          (ifcMem (clustersPerCard sizeKb) (ifcWords (withIfc (specs old sizeKb blocksize))))
          (ifcLength (clustersPerCard sizeKb)) 0 f₁ = .ok f₂ ∧
        writeCard host time (withIfc (specs old sizeKb blocksize)) f₂ = .ok (info, f) := by
  rw [vmcMcformat] at h
  split at h
  next => cases h
  next =>
    obtain ⟨f₁, herase, hrest⟩ := bind_eq_ok.mp h
    rw [fillCard_eq host time _ f₁ (blocksize_specs old sizeKb blocksize)
      (length_bounds _ hlt).1] at hrest
    split at hrest
    next => cases hrest
    next =>
      split at hrest
      next hfit =>
        obtain ⟨f₂, hwrite, hcard⟩ := bind_eq_ok.mp hrest
        exact ⟨hfit, f₁, f₂, herase, hwrite, hcard⟩
      next => cases hrest

/-! ### The card that is made -/

theorem length_toBytes (hmagic : info.magic.length = 28) (hversion : info.version.length = 12)
    (hifc : info.ifcList.length = 32) (hbad : info.badBlockList.length = 32) :
    info.toBytes.length = 384 := by
  simp only [MCDevInfo.toBytes, List.length_append, Bytes.length_toLe, length_wordBytes,
    List.length_cons, List.length_nil, hmagic, hversion, hifc, hbad]

theorem getElem?_ifcList (cpb cpc : ℕ) {k : ℕ} (hk : k < 32) :
    (ifcList cpb cpc)[k]? = some (if k < ifcLength cpc then cpb + k else 0xffffffff) := by
  rw [ifcList, List.getElem?_map, List.getElem?_range hk]
  rfl

section Blocks

variable {m b : ℕ}

/-- Two blocks are there to be kept, and the FAT has an entry for every cluster in front of
them. -/
theorem fatBound_eq (hm : m < 4096) (hb : 0 < b) (hblock : b < 2 ^ 15)
    (hfit : allocOffset b (1024 * m) ≤ 1024 * m) (hone : ¬OneBlock m b) (hfat : ¬BeyondFat m b) :
    2 ≤ 1024 * m / b ∧ fatBound b (1024 * m) = (1024 * m / b - 2) * b ∧
      fatBound b (1024 * m) ≤ allocOffset b (1024 * m) + 256 * fatLength (1024 * m) := by
  have hpos : 0 < m := by
    have := fatLength_pos (1024 * m)
    rw [allocOffset] at hfit
    omega
  rw [allocOffset, fatLength_eq hpos hm, ifcLength_eq hpos hm] at hfit
  have htwo : 2 ≤ 1024 * m / b := by
    refine (Nat.le_div_iff_mul_le hb).mpr ?_
    by_contra hlt
    refine hone ⟨by omega, ?_⟩
    rw [if_pos (by omega), if_pos (by omega)] at hfit
    omega
  have hq : 1024 * m / b * b ≤ 1024 * m := Nat.div_mul_le_self _ _
  have hsub : (1024 * m / b - 2) * b + 2 * b = 1024 * m / b * b := by
    rw [← Nat.add_mul, Nat.sub_add_cancel htwo]
  have hdiv : 1024 * m / b ≤ 1024 * m := Nat.div_le_self _ _
  have hbound : fatBound b (1024 * m) = (1024 * m / b - 2) * b := by
    rw [fatBound, show (1024 * m / b + 2 ^ 32 - 2) % 2 ^ 32 = 1024 * m / b - 2 by omega]
    exact Nat.mod_eq_of_lt (by omega)
  refine ⟨htwo, hbound, ?_⟩
  rw [hbound, allocOffset, fatLength_eq hpos hm, ifcLength_eq hpos hm]
  split_ifs with hcap
  · omega
  · have hle : ¬b + 2105376 < (1024 * m / b - 2) * b := fun hlt => hfat ⟨by omega, hlt⟩
    omega

end Blocks

/-- The superblock that is written. -/
def made (info : MCDevInfo) : MCDevInfo :=
  finished
    { withBackups info with
      allocOffset := allocOffset info.clustersPerBlock info.clustersPerCard
      rootdirCluster := 0 }
    (fatBound info.clustersPerBlock info.clustersPerCard)

theorem length_toBytes_made (old : MCDevInfo) (sizeKb blocksize : UInt32) :
    (made (withIfc (specs old sizeKb blocksize))).toBytes.length = 384 := by
  refine length_toBytes rfl rfl ?_ List.length_replicate
  show (ifcList _ _).length = 32
  rw [ifcList, List.length_map, List.length_range]

theorem writeCard_made
    (hbound : fatBound info.clustersPerBlock info.clustersPerCard + 256 ≤ 2 ^ 32)
    (h : writeCard host time info f = .ok (info', f')) :
    0 < info.clustersPerBlock ∧
      allocOffset info.clustersPerBlock info.clustersPerCard + info.clustersPerBlock ≤
        fatBound info.clustersPerBlock info.clustersPerCard ∧
      info' = made info ∧ ∃ info₁ z f₁,
        fatLoop host (fatBound info.clustersPerBlock info.clustersPerCard) (2 ^ 24 + 1)
          (allocOffset info.clustersPerBlock info.clustersPerCard) 0
          (info.clustersPerBlock + ifcLength info.clustersPerCard) (withBackups info) f =
            .ok (info₁, z, f₁) ∧
        writeRoot host time (made info) f₁ = .ok f' := by
  obtain ⟨hcpb, info₁, z, f₁, hloop, hz, hinfo, hroot⟩ := writeCard_eq_ok h
  obtain ⟨hcount, hinfo₁⟩ := fatLoop_result hbound (by omega) hloop
  rw [if_pos ⟨rfl, by omega⟩] at hinfo₁
  have hmade : info' = made info := by
    rw [hinfo, hinfo₁]
    rfl
  rw [hmade] at hroot
  exact ⟨by omega, by omega, hmade, info₁, z, f₁, hloop, hroot⟩

theorem geometry_specs (old : MCDevInfo) (sizeKb blocksize : UInt32) :
    (withIfc (specs old sizeKb blocksize)).clustersPerBlock = clustersPerBlock blocksize ∧
      (withIfc (specs old sizeKb blocksize)).clustersPerCard = clustersPerCard sizeKb :=
  ⟨rfl, rfl⟩

theorem clustersPerCard_made (info : MCDevInfo) :
    (made info).clustersPerCard = info.clustersPerCard := by
  rw [made, finished, withBackups]

theorem clustersPerBlock_made (info : MCDevInfo) :
    (made info).clustersPerBlock = info.clustersPerBlock := by
  rw [made, finished, withBackups]

theorem ifcList_made (info : MCDevInfo) : (made info).ifcList = info.ifcList := by
  rw [made, finished, withBackups]

theorem rootdirCluster_made (info : MCDevInfo) : (made info).rootdirCluster = 0 := rfl

theorem allocEnd_made (info : MCDevInfo)
    (hle : allocOffset info.clustersPerBlock info.clustersPerCard ≤
      fatBound info.clustersPerBlock info.clustersPerCard)
    (hlt : fatBound info.clustersPerBlock info.clustersPerCard < 2 ^ 32) :
    (made info).allocEnd = fatBound info.clustersPerBlock info.clustersPerCard -
      allocOffset info.clustersPerBlock info.clustersPerCard := by
  show (fatBound _ _ + 2 ^ 32 - allocOffset _ _) % 2 ^ 32 = _
  omega

theorem backupBlock2_made (info : MCDevInfo) : (made info).backupBlock2 =
    (info.clustersPerCard / info.clustersPerBlock + 2 ^ 32 - 2) % 2 ^ 32 := by
  rw [made, finished, withBackups]

theorem backupBlock_made (info : MCDevInfo)
    (htwo : 2 ≤ info.clustersPerCard / info.clustersPerBlock)
    (hlt : info.clustersPerCard / info.clustersPerBlock < 2 ^ 32) :
    (made info).backupBlock2 = info.clustersPerCard / info.clustersPerBlock - 2 ∧
      (made info).backupBlock1 = info.clustersPerCard / info.clustersPerBlock - 1 := by
  constructor
  · rw [backupBlock2_made]
    omega
  · show (info.clustersPerCard / info.clustersPerBlock + 2 ^ 32 - 1) % 2 ^ 32 = _
    omega

/-- The areas of the card are one behind the other. -/
theorem apart_areas {cpb il fl P : ℕ} (hcpb : 0 < cpb)
    (hoffset : info.allocOffset = cpb + il + fl) (hend : info.allocOffset + info.allocEnd = P)
    (hblock : info.clustersPerBlock = cpb) (hsecond : info.backupBlock2 * cpb = P)
    (hfirst : info.backupBlock1 = info.backupBlock2 + 1)
    (hcard : P + 2 * cpb ≤ info.clustersPerCard) :
    ((areas info cpb il (cpb + il) fl).Pairwise fun a b => a.2 ≤ b.1 ∨ b.2 ≤ a.1) ∧
      ∀ a ∈ areas info cpb il (cpb + il) fl, a.2 ≤ info.clustersPerCard := by
  have hsecond' : (info.backupBlock2 + 1) * cpb = P + cpb := by rw [Nat.succ_mul, hsecond]
  have hfirst' : (info.backupBlock2 + 1 + 1) * cpb = P + 2 * cpb := by
    rw [Nat.succ_mul, hsecond']
    omega
  have hareas : areas info cpb il (cpb + il) fl =
      [(0, 1), (cpb, cpb + il), (cpb + il, cpb + il + fl), (cpb + il + fl, P), (P, P + cpb),
        (P + cpb, P + 2 * cpb)] := by
    rw [areas, hblock, hfirst, hfirst', hsecond', hsecond, hend, hoffset]
  rw [hareas]
  constructor
  · simp only [List.pairwise_cons, List.mem_cons, List.not_mem_nil, or_false, forall_eq_or_imp,
      forall_eq, false_imp_iff, implies_true, List.Pairwise.nil, and_true]
    omega
  · simp only [List.mem_cons, List.not_mem_nil, or_false, forall_eq_or_imp, forall_eq]
    omega

theorem isCard_of_ok {sizeMb blocksize : UInt32}
    (hone : ¬OneBlock (sizeMb.toNat % 4096) (clustersPerBlock blocksize))
    (hfat : ¬BeyondFat (sizeMb.toNat % 4096) (clustersPerBlock blocksize))
    (h : vmcMcformat host time old (sizeKb sizeMb) blocksize = .ok (info, f)) :
    IsCard info f (clustersPerBlock blocksize) (ifcLength (clustersPerCard (sizeKb sizeMb)))
      (clustersPerBlock blocksize + ifcLength (clustersPerCard (sizeKb sizeMb)))
      (fatLength (clustersPerCard (sizeKb sizeMb))) := by
  have hcpc := clustersPerCard_sizeKb sizeMb
  obtain ⟨hfit, f₁, f₂, herase, hifc, hcard⟩ := vmcMcformat_eq_ok (by omega) h
  have hlen := length_toBytes_made old (sizeKb sizeMb) blocksize
  have hblock := clustersPerBlock_lt blocksize
  have hm : sizeMb.toNat % 4096 < 4096 := Nat.mod_lt _ (by decide)
  generalize hold : withIfc (specs old (sizeKb sizeMb) blocksize) = info₀ at hifc hcard hlen
  have hcpb₀ : info₀.clustersPerBlock = clustersPerBlock blocksize := by rw [← hold]; rfl
  have hcpc₀ : info₀.clustersPerCard = clustersPerCard (sizeKb sizeMb) := by rw [← hold]; rfl
  have hlist₀ : info₀.ifcList =
      ifcList (clustersPerBlock blocksize) (clustersPerCard (sizeKb sizeMb)) := by rw [← hold]; rfl
  have hwords₀ : ifcWords info₀ = List.range'
      (clustersPerBlock blocksize + ifcLength (clustersPerCard (sizeKb sizeMb)))
      (fatLength (clustersPerCard (sizeKb sizeMb))) := by
    rw [ifcWords, hcpb₀, hcpc₀]
  rw [hwords₀] at hifc
  clear hold h
  generalize sizeMb.toNat % 4096 = m at hone hfat hcpc hm
  generalize clustersPerBlock blocksize = b at *
  generalize clustersPerCard (sizeKb sizeMb) = cpc at *
  subst hcpc
  have hb : 0 < b := by
    rw [← hcpb₀]
    exact Nat.pos_of_ne_zero (writeCard_eq_ok hcard).1
  obtain ⟨htwo, hbound, hfatLen⟩ := fatBound_eq hm hb hblock hfit hone hfat
  obtain ⟨hlens, hifcLen, -⟩ := length_bounds (1024 * m) (by omega)
  have hq : 1024 * m / b * b ≤ 1024 * m := Nat.div_mul_le_self _ _
  have hsub : (1024 * m / b - 2) * b + 2 * b = 1024 * m / b * b := by
    rw [← Nat.add_mul, Nat.sub_add_cancel htwo]
  have hdiv : 1024 * m / b ≤ 1024 * m := Nat.div_le_self _ _
  have hmade := writeCard_made (by rw [hcpb₀, hcpc₀]; omega) hcard
  rw [hcpb₀, hcpc₀] at hmade
  obtain ⟨-, hleft, rfl, info₁, z, f₃, hloop, hroot⟩ := hmade
  have hoffset : (made info₀).allocOffset = b + ifcLength (1024 * m) + fatLength (1024 * m) := by
    rw [← allocOffset, ← hcpb₀, ← hcpc₀]
    rfl
  have hbehind : allocOffset b (1024 * m) = b + ifcLength (1024 * m) + fatLength (1024 * m) := rfl
  have hend := allocEnd_made info₀ (by rw [hcpb₀, hcpc₀]; omega) (by rw [hcpb₀, hcpc₀]; omega)
  obtain ⟨hsecond, hfirst⟩ := backupBlock_made info₀ (by rw [hcpb₀, hcpc₀]; exact htwo)
    (by rw [hcpb₀, hcpc₀]; omega)
  rw [hcpb₀, hcpc₀] at hend hsecond hfirst
  obtain ⟨hapart, hinside⟩ := apart_areas hb hoffset
    (P := fatBound b (1024 * m)) (by omega) (by rw [clustersPerBlock_made, hcpb₀])
    (by rw [hsecond, hbound]) (by omega) (by rw [clustersPerCard_made, hcpc₀]; omega)
  -- the words of the file, from the last write back to the first one
  obtain ⟨hsuper, hsize, hroot⟩ :=
    writeRoot_file (rootdirCluster_made info₀) (by rw [hoffset]; omega) hlen hroot
  have hcount : (fatBound b (1024 * m) - allocOffset b (1024 * m) + 255) / 256 ≤
      fatLength (1024 * m) := by omega
  obtain ⟨hfilled, hentries⟩ := fatLoop_file (by omega) (by omega) (by omega) hloop
  have hgetD : ∀ k < 32, (ifcList b (1024 * m)).getD k 0 =
      if k < ifcLength (1024 * m) then b + k else 0xffffffff := by
    intro k hk
    rw [List.getD_eq_getElem?_getD, getElem?_ifcList _ _ hk, Option.getD_some]
  obtain ⟨hfilled', hlisted⟩ := writeIfc_file (c := b) (z := 0) (fun t ht => by
    rw [Nat.zero_add, hgetD t (by omega), if_pos ht])
    (by rw [length_ifcMem hlens]; omega) (by omega) hifc
  have hifcEntry : ∀ k < 256 * ifcLength (1024 * m), ifcEntry (made info₀) f k =
      if k < fatLength (1024 * m) then b + ifcLength (1024 * m) + k else 0 := by
    intro k hk
    have hlist : (made info₀).ifcList = ifcList b (1024 * m) := by
      rw [ifcList_made, hlist₀]
    rw [ifcEntry, hlist, hgetD _ (by omega), if_pos (by omega),
      hroot _ _ (Nat.mod_lt _ (by decide)) (by omega) (by omega),
      hfilled.word_eq _ _ (Nat.mod_lt _ (by decide)) (by omega)]
    refine hlisted k hk _ ?_ ?_
    · split_ifs <;> omega
    · rw [Nat.mul_zero, Nat.zero_add]
      exact field_ifcMem hlens hk
  refine ⟨?_, hsuper, hapart, hinside, hifcLen, ?_, hlens, hifcEntry, ?_, ?_⟩
  · have hsize₁ := size_eraseLoop (by omega) (by omega) (by decide)
      (Nat.zero_le _) rfl (Nat.zero_le _) herase
    have hsize₂ := hfilled'.size_le
    have hsize₃ := hfilled.size_le
    rw [clustersPerCard_made, hcpc₀]
    omega
  · intro k hk
    rw [ifcList_made, hlist₀]
    exact getElem?_ifcList b (1024 * m) hk
  · omega
  · intro c hc
    rw [fatEntry, hifcEntry _ (by omega), if_pos (by omega),
      hroot _ _ (Nat.mod_lt _ (by decide)) (by omega) (by omega), hentries c (by omega)]
    split_ifs <;> omega

/-! ### Calls that get to their end -/

theorem writeCard_ne_outside (host : Host) (time : DateTime) (info : MCDevInfo) (f : VmcFile) :
    writeCard host time info f ≠ .error .outside := by
  rw [writeCard]
  split
  · simp
  · refine bind_ne_error (fatLoop_ne_outside _ _ _ _ _ _ _) fun r _ => ?_
    dsimp only
    split
    · simp
    · exact map_ne_error (writeRoot_ne_outside _ _)

theorem fillCard_ne_outside (host : Host) (time : DateTime) (info : MCDevInfo) (f : VmcFile)
    (hblock : info.blocksize / 2 = info.clustersPerBlock)
    (hlens : fatLength info.clustersPerCard ≤ 256 * ifcLength info.clustersPerCard) :
    fillCard host time info f ≠ .error .outside := by
  rw [fillCard_eq _ _ _ _ hblock hlens]
  split
  · simp
  · split
    · refine bind_ne_error (writeIfc_ne_outside _ ?_ f) fun f' _ => writeCard_ne_outside _ _ _ _
      rw [ifcWords, length_ifcMem hlens, Nat.zero_add]
    · simp

/-- No access is outside of a buffer. -/
theorem vmcMcformat_ne_outside (host : Host) (time : DateTime) (old : MCDevInfo)
    (sizeKb blocksize : UInt32) (hlt : clustersPerCard sizeKb < 2 ^ 22) :
    vmcMcformat host time old sizeKb blocksize ≠ .error .outside := by
  rw [vmcMcformat]
  split
  · simp
  · exact bind_ne_error (eraseLoop_ne_outside _ _ _)
      fun f _ => fillCard_ne_outside _ _ _ f (blocksize_specs old sizeKb blocksize)
        (length_bounds _ hlt).1

theorem writeCard_ok (hhost : host.Succeeds) (time : DateTime) (info : MCDevInfo) (f : VmcFile)
    (hcpb : 0 < info.clustersPerBlock)
    (hbound : fatBound info.clustersPerBlock info.clustersPerCard + 256 ≤ 2 ^ 32)
    (hroom : allocOffset info.clustersPerBlock info.clustersPerCard + info.clustersPerBlock ≤
      fatBound info.clustersPerBlock info.clustersPerCard) :
    ∃ f', writeCard host time info f = .ok (made info, f') := by
  obtain ⟨⟨info₁, z, f₁⟩, hloop⟩ := fatLoop_ok (2 ^ 24 + 1) hhost hbound (by omega) 0
    (info.clustersPerBlock + ifcLength info.clustersPerCard) (withBackups info) f
  obtain ⟨hcount, -⟩ := fatLoop_result hbound (by omega) hloop
  obtain ⟨f', hroot⟩ := writeRoot_ok hhost time
    (finished info₁ (fatBound info.clustersPerBlock info.clustersPerCard)) f₁
  have hcard : writeCard host time info f =
      .ok (finished info₁ (fatBound info.clustersPerBlock info.clustersPerCard), f') := by
    rw [writeCard, if_neg (by omega), hloop, bind_ok]
    dsimp only
    rw [if_neg (by omega), hroot]
    rfl
  obtain ⟨-, -, hmade, -⟩ := writeCard_made hbound hcard
  exact ⟨f', by rw [hcard, hmade]⟩

/-- A call gets to its end when the FAT is on the card and a block is left for files. -/
theorem vmcMcformat_ok (hhost : host.Succeeds) (time : DateTime) (old : MCDevInfo)
    (sizeKb blocksize : UInt32) (hlt : clustersPerCard sizeKb < 2 ^ 22)
    (hcpc : 99 ≤ clustersPerCard sizeKb) (hcpb : 0 < clustersPerBlock blocksize)
    (hfit : allocOffset (clustersPerBlock blocksize) (clustersPerCard sizeKb) ≤
      clustersPerCard sizeKb)
    (hbound : fatBound (clustersPerBlock blocksize) (clustersPerCard sizeKb) + 256 ≤ 2 ^ 32)
    (hroom : allocOffset (clustersPerBlock blocksize) (clustersPerCard sizeKb) +
      clustersPerBlock blocksize ≤
        fatBound (clustersPerBlock blocksize) (clustersPerCard sizeKb)) :
    ∃ f, vmcMcformat host time old sizeKb blocksize =
      .ok (made (withIfc (specs old sizeKb blocksize)), f) := by
  obtain ⟨hlens, -, -⟩ := length_bounds (clustersPerCard sizeKb) hlt
  obtain ⟨f₁, herase⟩ := eraseLoop_ok hhost hcpc 0 .empty
  have hmem : 1024 * (0 + ifcLength (clustersPerCard sizeKb)) ≤
      (ifcMem (clustersPerCard sizeKb)
        (ifcWords (withIfc (specs old sizeKb blocksize)))).length := by
    rw [ifcWords, Nat.zero_add]
    exact (length_ifcMem hlens).ge
  obtain ⟨f₂, hifc⟩ := writeIfc_ok hhost (withIfc (specs old sizeKb blocksize)).ifcList hmem f₁
  obtain ⟨f, hcard⟩ := writeCard_ok hhost time (withIfc (specs old sizeKb blocksize)) f₂ hcpb hbound
    hroom
  refine ⟨f, ?_⟩
  rw [vmcMcformat, if_neg (by rw [hhost.opens]; decide)]
  refine bind_eq_ok.mpr ⟨f₁, herase, ?_⟩
  rw [fillCard_eq host time _ f₁ (blocksize_specs old sizeKb blocksize) hlens,
    if_neg (by rw [hhost.allocates]; decide)]
  exact (if_pos hfit).trans (bind_eq_ok.mpr ⟨f₂, hifc, hcard⟩)

end Card

/-- A host that does all that it is asked for. -/
def Host.ideal : Host := ⟨fun _ => false, fun _ _ _ => true, true, true⟩

theorem Host.succeeds_ideal : Host.ideal.Succeeds :=
  ⟨fun _ => rfl, fun _ _ _ => rfl, rfl, rfl⟩

def DateTime.zero : DateTime := ⟨0, 0, 0, 0, 0, 0, 0⟩

/-- `devinfo` before the first call. -/
def MCDevInfo.zero : MCDevInfo :=
  ⟨List.replicate 28 0, List.replicate 12 0, 0, 0, 0, 0, 0, 0, 0, 0, 0, 0, 0, List.replicate 32 0,
    List.replicate 32 0, 0, 0, 0, 0, 0, 0, 0, 0, 0, 0, 0, 0, 0, 0⟩

section Failing

variable {sizeMb blocksize : UInt32}

/-- With one block the number of the second block that is kept is -1. -/
theorem not_formatsWell_of_oneBlock
    (h : OneBlock (sizeMb.toNat % 4096) (clustersPerBlock blocksize)) :
    ¬FormatsWell sizeMb blocksize := by
  obtain ⟨hlow, hhigh⟩ := h
  have hcpc := clustersPerCard_sizeKb sizeMb
  have hblock := clustersPerBlock_lt blocksize
  have hm : sizeMb.toNat % 4096 < 4096 := Nat.mod_lt _ (by decide)
  have hfat := fatLength_eq (m := sizeMb.toNat % 4096) (by omega) hm
  have hifc := ifcLength_eq (m := sizeMb.toNat % 4096) (by omega) hm
  rw [if_pos (by omega), ← hcpc] at hfat hifc
  have hq : clustersPerCard (sizeKb sizeMb) / clustersPerBlock blocksize = 1 :=
    Nat.div_eq_of_lt_le (by omega) (by omega)
  have hbound : fatBound (clustersPerBlock blocksize) (clustersPerCard (sizeKb sizeMb)) =
      2 ^ 32 - clustersPerBlock blocksize := by
    rw [fatBound, hq]
    omega
  obtain ⟨f, hok⟩ := vmcMcformat_ok Host.succeeds_ideal .zero .zero (sizeKb sizeMb) blocksize
    (by omega) (by omega) (by omega)
    (by rw [allocOffset]; omega) (by omega) (by rw [allocOffset]; omega)
  intro hall
  obtain ⟨_, _, _, _, hcard⟩ := (hall .ideal .zero .zero).2 _ _ hok
  have hinside := hcard.inside _ (by
    rw [areas]
    exact List.mem_cons_of_mem _ (List.mem_cons_of_mem _ (List.mem_cons_of_mem _
      (List.mem_cons_of_mem _ List.mem_cons_self))))
  dsimp only at hinside
  obtain ⟨hcpb₀, hcpc₀⟩ := geometry_specs .zero (sizeKb sizeMb) blocksize
  rw [clustersPerCard_made, clustersPerBlock_made, backupBlock2_made, hcpb₀, hcpc₀, hq] at hinside
  omega

/-- The entries of the FAT do not reach the end of the allocatable area. -/
theorem not_formatsWell_of_beyondFat
    (h : BeyondFat (sizeMb.toNat % 4096) (clustersPerBlock blocksize)) :
    ¬FormatsWell sizeMb blocksize := by
  obtain ⟨hlow, hhigh⟩ := h
  have hcpc := clustersPerCard_sizeKb sizeMb
  have hblock := clustersPerBlock_lt blocksize
  have hm : sizeMb.toNat % 4096 < 4096 := Nat.mod_lt _ (by decide)
  have hfat := fatLength_eq (m := sizeMb.toNat % 4096) (by omega) hm
  have hifc := ifcLength_eq (m := sizeMb.toNat % 4096) (by omega) hm
  rw [if_neg (by omega), ← hcpc] at hfat hifc
  rw [← hcpc] at hhigh
  have hb : 0 < clustersPerBlock blocksize := by
    refine Nat.pos_of_ne_zero fun hzero => ?_
    rw [hzero, Nat.mul_zero] at hhigh
    exact Nat.not_lt_zero _ hhigh
  have hq : clustersPerCard (sizeKb sizeMb) / clustersPerBlock blocksize *
      clustersPerBlock blocksize ≤ clustersPerCard (sizeKb sizeMb) := Nat.div_mul_le_self _ _
  have hdiv : clustersPerCard (sizeKb sizeMb) / clustersPerBlock blocksize ≤
      clustersPerCard (sizeKb sizeMb) := Nat.div_le_self _ _
  have htwo : 2 ≤ clustersPerCard (sizeKb sizeMb) / clustersPerBlock blocksize := by
    by_contra hlt
    rw [Nat.sub_eq_zero_of_le (by omega), Nat.zero_mul] at hhigh
    exact Nat.not_lt_zero _ hhigh
  have hsub := Nat.mul_le_mul_right (clustersPerBlock blocksize)
    (Nat.sub_le (clustersPerCard (sizeKb sizeMb) / clustersPerBlock blocksize) 2)
  have hbound : fatBound (clustersPerBlock blocksize) (clustersPerCard (sizeKb sizeMb)) =
      (clustersPerCard (sizeKb sizeMb) / clustersPerBlock blocksize - 2) *
        clustersPerBlock blocksize := by
    rw [fatBound, show (clustersPerCard (sizeKb sizeMb) / clustersPerBlock blocksize + 2 ^ 32 - 2) %
      2 ^ 32 = clustersPerCard (sizeKb sizeMb) / clustersPerBlock blocksize - 2 by omega]
    exact Nat.mod_eq_of_lt (by omega)
  have hoffset : allocOffset (clustersPerBlock blocksize) (clustersPerCard (sizeKb sizeMb)) =
      clustersPerBlock blocksize + 32 + 8192 := by rw [allocOffset, hfat, hifc]
  obtain ⟨f, hok⟩ := vmcMcformat_ok Host.succeeds_ideal .zero .zero (sizeKb sizeMb) blocksize
    (by omega) (by omega) hb (by omega)
    (by omega) (by omega)
  intro hall
  obtain ⟨_, _, _, _, hcard⟩ := (hall .ideal .zero .zero).2 _ _ hok
  have hend := hcard.allocEnd_le
  have hfatLen := hcard.fatLen_le
  have hifcLen := hcard.ifcLen_le
  obtain ⟨hcpb₀, hcpc₀⟩ := geometry_specs .zero (sizeKb sizeMb) blocksize
  rw [allocEnd_made _ (by rw [hcpb₀, hcpc₀]; omega) (by rw [hcpb₀, hcpc₀]; omega), hcpb₀,
    hcpc₀] at hend
  omega

end Failing

/-- **Which cards are formatted well.** `vmc_mcformat` makes a well-formed card, or returns an
error, unless the card has one block and a rest, or has more clusters than the FAT has entries. -/
theorem formatsWell_iff (sizeMb blocksize : UInt32) :
    FormatsWell sizeMb blocksize ↔
      ¬OneBlock (sizeMb.toNat % 4096) (blocksize.toNat % 65536 / 2) ∧
        ¬BeyondFat (sizeMb.toNat % 4096) (blocksize.toNat % 65536 / 2) := by
  rw [← clustersPerBlock_eq]
  constructor
  · intro h
    exact ⟨fun hone => not_formatsWell_of_oneBlock hone h,
      fun hfat => not_formatsWell_of_beyondFat hfat h⟩
  · rintro ⟨hone, hfat⟩ host time old
    have hcpc := clustersPerCard_sizeKb sizeMb
    refine ⟨vmcMcformat_ne_outside host time old _ _ (by omega), fun info f h => ?_⟩
    exact ⟨_, _, _, _, isCard_of_ok hone hfat h⟩

/-- The sizes of the menu, with blocks of 16 pages. -/
example : ∀ sizeMb ∈ [8, 16, 32, 64], ¬OneBlock sizeMb (16 / 2) ∧ ¬BeyondFat sizeMb (16 / 2) := by
  decide

/-- A card of 8 MB with blocks of 10000 pages. -/
theorem not_formatsWell_oneBlock : ¬FormatsWell 8 10000 :=
  not_formatsWell_of_oneBlock (by decide)

end Vmc

end OpenPS2Loader
