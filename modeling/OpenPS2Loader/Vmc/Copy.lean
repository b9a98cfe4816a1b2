import OpenPS2Loader.Vmc.Image

/-!
# Copying a memory card

`vmc_mccopy` in `genvmc.c` copies a memory card to a file. The first page of the card is its
superblock, and four fields of it say how the card is laid out. As many clusters as 16 KB of pages
hold are copied at once, and the clusters that are left are copied one by one. The counters and the
offsets are 32 bits wide.

A page has as many bytes as the superblock says. The offset of a write has 32 bits. `lseek` takes it
for an `int` and refuses it from 2 GB on, which does no harm: the file position is already there.
But a write that should begin at 4 GB or behind it goes to the start of the file.

## Main definitions

* `Vmc.Geometry` — the fields of the superblock that are used
* `Vmc.vmcMccopy`
* `Vmc.CopiesWell` — no division by zero, no access outside of `cluster_buf`, and a file with all
  pages when it returns 0
* `Vmc.Copyable` — the geometries for which it does so

## Main results

* `Vmc.copyLoop_spec` — every byte of the file behind a copy loop whose writes begin below 4 GB
* `Vmc.copiesWell_of_copyable`
-/

namespace OpenPS2Loader

namespace Vmc

/-! ### The copy -/

/-- `pagesize`, `pages_per_cluster`, `cluster_size` and `clusters_per_card`. -/
structure Geometry where
  pagesize : Int16
  pagesPerCluster : UInt16
  clusterSize : UInt32
  clustersPerCard : UInt32
  deriving DecidableEq

/-- The fields of a superblock. -/
def geometryOf (buf : List UInt8) : Geometry where
  pagesize := (Bytes.ofLe (Bytes.field buf 40 2)).toUInt16.toInt16
  pagesPerCluster := (Bytes.ofLe (Bytes.field buf 42 2)).toUInt16
  clusterSize := (Bytes.ofLe (Bytes.field buf 340 4)).toUInt32
  clustersPerCard := (Bytes.ofLe (Bytes.field buf 48 4)).toUInt32

namespace Geometry

variable (g : Geometry)

/-- `pagesblock`: the quotient is an `int`, the variable is unsigned. -/
def pagesblock : ℕ := (Int.tdiv (16 * 1024) g.pagesize.toInt % 2 ^ 32).toNat

/-- `clustersblock` -/
def clustersblock : ℕ := g.pagesblock / g.pagesPerCluster.toNat

/-- `blocks` -/
def blocks : ℕ := g.clustersPerCard.toNat / g.clustersblock

/-- The bytes of a page. -/
def pageLen : ℕ := g.pagesize.toInt.toNat

end Geometry

/-- A memory card: what `sceMcDetectCard` and `sceMcGetCardType` return, the pages, and whether a
page can be read. -/
structure MemCard where
  detect : ℤ
  cardType : ℤ
  page : ℕ → List UInt8
  reads : ℕ → Bool

/-- The loop that reads `n` pages behind each other into the buffer, from its page `j` on. -/
def readPages (card : MemCard) (pagesize : ℤ) (first : ℕ) :
    ℕ → ℕ → List UInt8 → Except Stop (List UInt8)
  | 0, _, buf => .ok buf
  | n + 1, j, buf =>
    let page := (first + j) % 2 ^ 32
    let at_ := (j * pagesize % 2 ^ 32).toNat
    if card.reads page = false then .error (.returned (-102))
    else if buf.length < at_ + (card.page page).length then .error .outside
    else readPages card pagesize first n (j + 1) (Bytes.overwrite buf at_ (card.page page))

/-- `n` passes of a copy loop, from the pass `i` on: a pass reads `pages` pages and writes them as
`dup` clusters. -/
def copyLoop (host : Host) (card : MemCard) (g : Geometry) (pages dup : ℕ) :
    ℕ → ℕ → List UInt8 → VmcFile → Except Stop (List UInt8 × VmcFile)
  | 0, _, buf, f => .ok (buf, f)
  | n + 1, i, buf, f =>
    (readPages card g.pagesize.toInt (i * pages % 2 ^ 32) pages 0 buf).bind fun buf =>
      (onFail (-103)
        (mcWriteCluster host g.clusterSize.toNat f (i * dup % 2 ^ 32) buf dup)).bind fun f =>
          copyLoop host card g pages dup n (i + 1) buf f

/-- The copy of a card, behind the check of the superblock. -/
def copyCard (host : Host) (card : MemCard) (g : Geometry) (buf : List UInt8) :
    Except Stop VmcFile :=
  if g.pagesize.toInt = 0 ∨ g.pagesPerCluster = 0 ∨ g.clustersblock = 0 then .error .divided
  else if host.opens = false then .error (.returned (-101))
  -- the first pass divides by `blocks / 99`
  else if g.blocks ≠ 0 ∧ g.blocks / 99 = 0 then .error .divided
  else
    (copyLoop host card g g.pagesblock g.clustersblock g.blocks 0 buf .empty).bind fun r =>
      (copyLoop host card g g.pagesPerCluster.toNat 1
        (g.clustersPerCard.toNat - g.blocks * g.clustersblock) (g.blocks * g.clustersblock)
        r.1 r.2).map Prod.snd

/-- `vmc_mccopy`: the file when it returns 0. `buf` is what `cluster_buf` has in it before. -/
def vmcMccopy (host : Host) (card : MemCard) (buf : List UInt8) : Except Stop VmcFile :=
  if card.detect < -1 ∧ card.cardType ≠ 2 then .error (.returned (-98))
  else if card.reads 0 = false then .error (.returned (-99))
  else if buf.length < (card.page 0).length then .error .outside
  else
    let buf := Bytes.overwrite buf 0 (card.page 0)
    if buf.take 28 ≠ superblockMagic then .error (.returned (-100))
    else copyCard host card (geometryOf buf) buf

/-! ### What the copy is for -/

/-- A buffer, and a card with this geometry in its superblock. -/
structure HasSuperblock (card : MemCard) (buf : List UInt8) (g : Geometry) : Prop where
  length_buf : buf.length = 16 * 1024 + 16
  length_page : ∀ p, (card.page p).length = g.pageLen
  magic : (Bytes.overwrite buf 0 (card.page 0)).take 28 = superblockMagic
  geometry : geometryOf (Bytes.overwrite buf 0 (card.page 0)) = g

/-- The file has the first `n` pages of the card in it. -/
def Holds (f : VmcFile) (card : MemCard) (len n : ℕ) : Prop :=
  n * len ≤ f.size ∧ ∀ p < n, Bytes.slice f.bytes (p * len) len = card.page p

/-- A card with this geometry is copied without a division by zero or an access outside of
`cluster_buf`, and the file has all pages of it. -/
def CopiesWell (g : Geometry) : Prop :=
  ∀ host card buf, HasSuperblock card buf g →
    vmcMccopy host card buf ≠ .error .divided ∧ vmcMccopy host card buf ≠ .error .outside ∧
      ∀ f, vmcMccopy host card buf = .ok f →
        Holds f card g.pageLen (g.clustersPerCard.toNat * g.pagesPerCluster.toNat)

namespace Geometry

variable (g : Geometry)

/-- The bytes of a write of a block of clusters. -/
def blockLen : ℕ := g.clusterSize.toNat * g.clustersblock % 2 ^ 32

/-- Clusters that are copied one by one, behind the blocks. -/
def HasRest : Prop := g.blocks * g.clustersblock < g.clustersPerCard.toNat

/-- Fewer clusters than a block has: a cluster has the bytes of its pages, or there is one cluster
with at least these. -/
def CopiesClusters : Prop :=
  g.blocks = 0 ∧ g.clusterSize.toNat ≤ 16 * 1024 + 16 ∧
    if g.pagesize.toInt < 0 then g.pagesPerCluster = 1
    else g.clusterSize.toNat = g.pagesPerCluster.toNat * g.pageLen ∨
      g.clustersPerCard = 1 ∧ g.pagesPerCluster.toNat * g.pageLen ≤ g.clusterSize.toNat

/-- The last write of a block, and the last one of a cluster, begins below 4 GB. -/
def NoWrap : Prop :=
  g.blocks * g.blockLen < 2 ^ 32 + g.blockLen ∧
    (g.HasRest → g.clustersPerCard.toNat * g.clusterSize.toNat < 2 ^ 32 + g.clusterSize.toNat)

/-- The blocks, and the clusters that are left, are written one behind the other. -/
def CopiesBlocks : Prop :=
  99 ≤ g.blocks ∧ 0 < g.pagesize.toInt ∧ g.blockLen ≤ 16 * 1024 + 16 ∧
    (g.HasRest → g.clusterSize.toNat ≤ 16 * 1024 + 16) ∧ g.NoWrap ∧
    g.blockLen = g.pagesblock * g.pageLen ∧
    (g.HasRest → g.pagesblock = g.clustersblock * g.pagesPerCluster.toNat ∨
      g.clustersPerCard.toNat * g.pagesPerCluster.toNat ≤ g.blocks * g.pagesblock)

/-- The geometries that are copied well. -/
def Copyable : Prop :=
  g.pagesize.toInt ≠ 0 ∧ g.pagesPerCluster ≠ 0 ∧ g.clustersblock ≠ 0 ∧
    (g.clustersPerCard = 0 ∨ g.CopiesClusters ∨ g.CopiesBlocks)

end Geometry

/-! ### Reading pages -/

section readPages

variable {card : MemCard} {len first n j : ℕ} {buf buf' : List UInt8}

/-- A page that fits into the buffer. -/
theorem readPages_succ (hpage : ∀ p, (card.page p).length = len)
    (hfit : j * len + len ≤ buf.length) (hbuf : buf.length < 2 ^ 32) :
    readPages card len first (n + 1) j buf =
      if card.reads ((first + j) % 2 ^ 32) = false then .error (.returned (-102))
      else readPages card len first n (j + 1)
        (Bytes.overwrite buf (j * len) (card.page ((first + j) % 2 ^ 32))) := by
  have hat : (j * len % 2 ^ 32 : ℤ).toNat = j * len := by omega
  rw [readPages, hat, hpage, if_neg (show ¬buf.length < j * len + len by omega)]

theorem fit_succ {m : ℕ} (h : (j + (n + 1)) * len ≤ m) :
    j * len + len ≤ m ∧ (j + 1 + n) * len ≤ m := by
  have hswap : j + 1 + n = j + (n + 1) := by omega
  have hle : (j + 1) * len ≤ (j + (n + 1)) * len := Nat.mul_le_mul_right len (by omega)
  rw [Nat.succ_mul] at hle
  exact ⟨by omega, by rw [hswap]; exact h⟩

/-- The pages are in the buffer, and what is around them is as before. -/
theorem readPages_spec (hlen : 0 < len) (hpage : ∀ p, (card.page p).length = len)
    (hfit : (j + n) * len ≤ buf.length) (hbuf : buf.length < 2 ^ 32)
    (h : readPages card len first n j buf = .ok buf') :
    buf'.length = buf.length ∧ ∀ x, buf'.getD x 0 =
      if j * len ≤ x ∧ x < (j + n) * len then
        (card.page ((first + x / len) % 2 ^ 32)).getD (x % len) 0
      else buf.getD x 0 := by
  induction n generalizing j buf with
  | zero =>
    cases h
    refine ⟨rfl, fun x => ?_⟩
    rw [if_neg (by rw [Nat.add_zero]; omega)]
  | succ n ih =>
    obtain ⟨hfit₁, hfit₂⟩ := fit_succ hfit
    have hlt : j * len + (card.page ((first + j) % 2 ^ 32)).length ≤ buf.length := by
      rw [hpage]
      exact hfit₁
    have hbuf' := Bytes.length_overwrite hlt
    rw [readPages_succ hpage hfit₁ hbuf] at h
    split at h
    next => cases h
    next =>
      obtain ⟨hlength, hbytes⟩ := ih (by rw [hbuf']; exact hfit₂) (by rw [hbuf']; exact hbuf) h
      refine ⟨hlength.trans hbuf', fun x => ?_⟩
      have hnext : (j + 1) * len = j * len + len := Nat.succ_mul j len
      have hend : (j + 1) * len ≤ (j + 1 + n) * len := Nat.mul_le_mul_right len (by omega)
      rw [hbytes, Bytes.getD_overwrite hlt, hpage, show j + (n + 1) = j + 1 + n by omega]
      by_cases hx : j * len ≤ x ∧ x < j * len + len
      · have hdiv : x / len = j := Nat.div_eq_of_lt_le hx.1 (by rw [hnext]; exact hx.2)
        have hmod : x % len = x - j * len := by
          have := Nat.div_add_mod x len
          rw [hdiv, Nat.mul_comm] at this
          omega
        rw [if_neg (by omega), if_pos hx, if_pos (by omega), hdiv, hmod]
      · by_cases hx' : (j + 1) * len ≤ x ∧ x < (j + 1 + n) * len
        · rw [if_pos hx', if_pos (by omega)]
        · rw [if_neg hx', if_neg hx, if_neg (by omega)]

/-- The pages fit into the buffer. -/
theorem readPages_ne_outside (hpage : ∀ p, (card.page p).length = len)
    (hfit : (j + n) * len ≤ buf.length) (hbuf : buf.length < 2 ^ 32) :
    readPages card len first n j buf ≠ .error .outside := by
  induction n generalizing j buf with
  | zero => simp [readPages]
  | succ n ih =>
    obtain ⟨hfit₁, hfit₂⟩ := fit_succ hfit
    have hbuf' := Bytes.length_overwrite (l := buf) (p := j * len)
      (d := card.page ((first + j) % 2 ^ 32)) (by rw [hpage]; exact hfit₁)
    rw [readPages_succ hpage hfit₁ hbuf]
    split
    · simp
    · exact ih (by rw [hbuf']; exact hfit₂) (by rw [hbuf']; exact hbuf)

theorem readPages_ok (hpage : ∀ p, (card.page p).length = len)
    (hreads : ∀ p, card.reads p = true) (hfit : (j + n) * len ≤ buf.length)
    (hbuf : buf.length < 2 ^ 32) : ∃ buf', readPages card len first n j buf = .ok buf' := by
  induction n generalizing j buf with
  | zero => exact ⟨buf, rfl⟩
  | succ n ih =>
    obtain ⟨hfit₁, hfit₂⟩ := fit_succ hfit
    have hbuf' := Bytes.length_overwrite (l := buf) (p := j * len)
      (d := card.page ((first + j) % 2 ^ 32)) (by rw [hpage]; exact hfit₁)
    rw [readPages_succ hpage hfit₁ hbuf, hreads, if_neg (by decide)]
    exact ih (by rw [hbuf']; exact hfit₂) (by rw [hbuf']; exact hbuf)

theorem readPages_ne_divided (pagesize : ℤ) :
    readPages card pagesize first n j buf ≠ .error .divided := by
  induction n generalizing j buf with
  | zero => simp [readPages]
  | succ n ih =>
    rw [readPages]
    split
    · simp
    · split
      · simp
      · exact ih

end readPages

/-! ### Passes -/

/-- The byte `b` of the buffer in the pass `t`: a byte of a page, or one that was there before. -/
def passByte (card : MemCard) (len pages : ℕ) (buf : List UInt8) (t b : ℕ) : UInt8 :=
  if b < pages * len then (card.page ((t * pages + b / len) % 2 ^ 32)).getD (b % len) 0
  else buf.getD b 0

/-- `n` passes from the pass `i` on, with writes of `size` bytes. -/
structure Copied (card : MemCard) (len pages size n i : ℕ) (buf buf' : List UInt8)
    (f f' : VmcFile) : Prop where
  length : buf'.length = buf.length
  stale : ∀ x, pages * len ≤ x → buf'.getD x 0 = buf.getD x 0
  pos : f'.pos = (i + n) * size
  size_le : f'.size ≤ max f.size ((i + n) * size)
  size_ge : i * size ≤ f.size → (i + n) * size ≤ f'.size
  size_mono : f.size ≤ f'.size
  frame : ∀ x < i * size, f'.bytes x = f.bytes x
  bytes : ∀ t b, i ≤ t → t < i + n → b < size →
    f'.bytes (t * size + b) = passByte card len pages buf t b

section copyLoop

variable {host : Host} {card : MemCard} {g : Geometry} {pages dup n i : ℕ}
  {buf buf' : List UInt8} {f f' : VmcFile}

/-- The offset of a pass. -/
theorem offset_eq (i cs dup : ℕ) :
    i * dup % 2 ^ 32 * cs % 2 ^ 32 = i * (cs * dup % 2 ^ 32) % 2 ^ 32 := by
  rw [Nat.mod_mul_mod, Nat.mul_assoc, Nat.mul_comm dup cs, ← Nat.mul_mod_mod]

/-- The position is the one of the pass `i`, or the pass moves it there. -/
def AtPass (size : ℕ) (f : VmcFile) (i : ℕ) : Prop :=
  f.pos = i * size % 2 ^ 32 ∨ i * size % 2 ^ 32 < 2 ^ 31

/-- A pass writes at its offset, whether `lseek` takes the offset or not. -/
theorem AtPass.seek {size : ℕ} (h : AtPass size f i) :
    f.seek (i * size % 2 ^ 32) = i * size % 2 ^ 32 := by
  rw [VmcFile.seek]
  split_ifs with hlt
  · rfl
  · exact h.resolve_right hlt

/-- Behind the pass `i`, the position is the one of the next pass, or that one is at the start of
the file. -/
theorem atPass_put {size : ℕ} (hsize : size ≤ 2 ^ 31) {d : List UInt8} (hd : d.length = size) :
    AtPass size (f.put (i * size % 2 ^ 32) d) (i + 1) := by
  rw [AtPass, VmcFile.pos_put, hd, Nat.succ_mul]
  omega

/-- The buffer of a pass. -/
theorem readPages_passByte (hlen : 0 < g.pageLen) (hpage : ∀ p, (card.page p).length = g.pageLen)
    (hfit : pages * g.pageLen ≤ buf.length) (hbuf : buf.length < 2 ^ 32)
    (h : readPages card g.pageLen (i * pages % 2 ^ 32) pages 0 buf = .ok buf') :
    buf'.length = buf.length ∧ ∀ b, buf'.getD b 0 = passByte card g.pageLen pages buf i b := by
  obtain ⟨hlength, hbytes⟩ := readPages_spec hlen hpage (by rw [Nat.zero_add]; exact hfit) hbuf h
  refine ⟨hlength, fun b => ?_⟩
  rw [hbytes, passByte, Nat.zero_mul, Nat.zero_add, Nat.mod_add_mod]
  by_cases hb : b < pages * g.pageLen
  · rw [if_pos ⟨Nat.zero_le b, hb⟩, if_pos hb]
  · rw [if_neg fun h => hb h.2, if_neg hb]

/-- One pass that succeeds: what is read, and what is written where. -/
theorem copyLoop_succ_eq_ok (hps : g.pagesize.toInt = g.pageLen) (hlen : 0 < g.pageLen)
    (hpage : ∀ p, (card.page p).length = g.pageLen) (hfit : pages * g.pageLen ≤ buf.length)
    (hbuf : buf.length < 2 ^ 32) (hat : AtPass (g.clusterSize.toNat * dup % 2 ^ 32) f i)
    (h : copyLoop host card g pages dup (n + 1) i buf f = .ok (buf', f')) :
    ∃ buf₁, buf₁.length = buf.length ∧
      (∀ b, buf₁.getD b 0 = passByte card g.pageLen pages buf i b) ∧
      g.clusterSize.toNat * dup % 2 ^ 32 ≤ buf₁.length ∧
      copyLoop host card g pages dup n (i + 1) buf₁
        (f.put (i * (g.clusterSize.toNat * dup % 2 ^ 32) % 2 ^ 32)
          (buf₁.take (g.clusterSize.toNat * dup % 2 ^ 32))) = .ok (buf', f') := by
  obtain ⟨buf₁, hread, hrest⟩ := bind_eq_ok.mp h
  obtain ⟨f₁, hwrite, hrest⟩ := bind_eq_ok.mp hrest
  obtain ⟨hsize, hput⟩ := mcWriteCluster_eq_ok (onFail_eq_ok.mp hwrite)
  rw [hps] at hread
  obtain ⟨hlength, hbytes⟩ := readPages_passByte hlen hpage hfit hbuf hread
  rw [offset_eq, hat.seek] at hput
  exact ⟨buf₁, hlength, hbytes, hsize, hput ▸ hrest⟩

theorem copyLoop_spec (hps : g.pagesize.toInt = g.pageLen)
    (hlen : 0 < g.pageLen) (hpage : ∀ p, (card.page p).length = g.pageLen)
    (hfit : pages * g.pageLen ≤ buf.length) (hbuf : buf.length < 2 ^ 31)
    (hpos : f.pos = i * (g.clusterSize.toNat * dup % 2 ^ 32))
    (hend : (i + n) * (g.clusterSize.toNat * dup % 2 ^ 32) <
      2 ^ 32 + g.clusterSize.toNat * dup % 2 ^ 32)
    (h : copyLoop host card g pages dup n i buf f = .ok (buf', f')) :
    Copied card g.pageLen pages (g.clusterSize.toNat * dup % 2 ^ 32) n i buf buf' f f' := by
  induction n generalizing i buf f with
  | zero =>
    cases h
    exact ⟨rfl, fun _ _ => rfl, hpos, by omega, id, le_rfl, fun _ _ => rfl,
      fun t b hle hlt => by omega⟩
  | succ n ih =>
    generalize hcs : g.clusterSize.toNat * dup % 2 ^ 32 = size at *
    have hnext : (i + 1) * size = i * size + size := Nat.succ_mul i size
    have hswap : i + 1 + n = i + (n + 1) := by omega
    have hle : (i + 1) * size ≤ (i + (n + 1)) * size := Nat.mul_le_mul_right size (by omega)
    have hi : i * size % 2 ^ 32 = i * size := Nat.mod_eq_of_lt (by omega)
    have hat : AtPass (g.clusterSize.toNat * dup % 2 ^ 32) f i := by
      rw [hcs]
      exact .inl (hpos.trans hi.symm)
    obtain ⟨buf₁, hlength, hbytes, hsize, hrest⟩ :=
      copyLoop_succ_eq_ok hps hlen hpage hfit (by omega) hat h
    rw [hcs] at hsize hrest
    rw [hi] at hrest
    generalize hput : f.put (i * size) (buf₁.take size) = f₁ at hrest
    have htake : (buf₁.take size).length = size := List.length_take_of_le hsize
    have hcopied := ih (by rw [hlength]; exact hfit) (by rw [hlength]; exact hbuf)
      (by rw [← hput, VmcFile.pos_put, htake, hnext]) (by rw [hswap]; exact hend) hrest
    have hstale : ∀ x, pages * g.pageLen ≤ x → buf₁.getD x 0 = buf.getD x 0 := by
      intro x hx
      rw [hbytes, passByte, if_neg (by omega)]
    have hpass : ∀ t b, passByte card g.pageLen pages buf₁ t b =
        passByte card g.pageLen pages buf t b := by
      intro t b
      rw [passByte, passByte]
      split
      next => rfl
      next hb => exact hstale b (by omega)
    have hsize₁ := VmcFile.size_put_le f (i * size) (buf₁.take size)
    rw [htake, hput] at hsize₁
    refine ⟨hcopied.length.trans hlength, ?_, ?_, ?_, ?_, ?_, ?_, ?_⟩
    · intro x hx
      rw [hcopied.stale x hx, hstale x hx]
    · rw [← hswap]
      exact hcopied.pos
    · have := hcopied.size_le
      rw [hswap] at this
      omega
    · intro hge
      have hge₁ := VmcFile.add_length_le_size_put (buf₁.take size) hge
      rw [htake, hput, ← hnext] at hge₁
      have := hcopied.size_ge hge₁
      rw [hswap] at this
      exact this
    · have := VmcFile.size_le_size_put f (i * size) (buf₁.take size)
      rw [hput] at this
      exact this.trans hcopied.size_mono
    · intro x hx
      rw [hcopied.frame x (by omega), ← hput]
      exact VmcFile.bytes_put_of_apart (.inl hx)
    · intro t b hle hlt hb
      by_cases ht : t = i
      · subst ht
        rw [hcopied.frame _ (by omega), ← hput, VmcFile.bytes_put (by rw [htake]; exact hb),
          ← hbytes, List.getD_eq_getElem?_getD, List.getElem?_take_of_lt hb,
          ← List.getD_eq_getElem?_getD]
      · rw [hcopied.bytes t b (by omega) (by omega) hb, hpass]

theorem copyLoop_ne_divided : copyLoop host card g pages dup n i buf f ≠ .error .divided := by
  induction n generalizing i buf f with
  | zero => simp [copyLoop]
  | succ n ih =>
    refine bind_ne_error (readPages_ne_divided _) fun buf' _ => ?_
    refine bind_ne_error (onFail_ne_divided ?_) fun f' _ => ih
    rw [mcWriteCluster]
    split
    · simp
    · dsimp only
      split
      · simp
      · split <;> simp

theorem copyLoop_ne_outside (hps : g.pagesize.toInt = g.pageLen) (hlen : 0 < g.pageLen)
    (hpage : ∀ p, (card.page p).length = g.pageLen) (hfit : pages * g.pageLen ≤ buf.length)
    (hbuf : buf.length < 2 ^ 32) (hsize : g.clusterSize.toNat * dup % 2 ^ 32 ≤ buf.length) :
    copyLoop host card g pages dup n i buf f ≠ .error .outside := by
  induction n generalizing i buf f with
  | zero => simp [copyLoop]
  | succ n ih =>
    rw [copyLoop, hps]
    refine bind_ne_error (readPages_ne_outside hpage (by rw [Nat.zero_add]; exact hfit) hbuf)
      fun buf' hread => ?_
    have hlength := (readPages_passByte hlen hpage hfit hbuf hread).1
    exact bind_ne_error (onFail_ne_outside (mcWriteCluster_ne_outside (by omega)))
      fun f' _ => ih (by omega) (by omega) (by omega)

/-- A host that lets all writes through. -/
def Host.free : Host := ⟨fun _ => false, fun _ _ _ => true, true, true⟩

theorem opens_free : Host.free.opens = true := rfl

/-- A pass of the host above. -/
theorem pass_ok {i : ℕ} (hps : g.pagesize.toInt = g.pageLen) (hlen : 0 < g.pageLen)
    (hpage : ∀ p, (card.page p).length = g.pageLen) (hreads : ∀ p, card.reads p = true)
    (hfit : pages * g.pageLen ≤ buf.length) (hbuf : buf.length < 2 ^ 32) :
    ∃ buf', readPages card g.pagesize.toInt (i * pages % 2 ^ 32) pages 0 buf = .ok buf' ∧
      buf'.length = buf.length := by
  rw [hps]
  obtain ⟨buf', hread⟩ := readPages_ok (n := pages) (j := 0) hpage
    hreads (by rw [Nat.zero_add]; exact hfit) hbuf
  exact ⟨buf', hread, (readPages_passByte hlen hpage hfit hbuf hread).1⟩

theorem copyLoop_ok (hps : g.pagesize.toInt = g.pageLen) (hlen : 0 < g.pageLen)
    (hpage : ∀ p, (card.page p).length = g.pageLen) (hreads : ∀ p, card.reads p = true)
    (hfit : pages * g.pageLen ≤ buf.length) (hbuf : buf.length < 2 ^ 32)
    (hsize : g.clusterSize.toNat * dup % 2 ^ 32 ≤ buf.length) :
    ∃ r, copyLoop .free card g pages dup n i buf f = .ok r ∧ r.1.length = buf.length := by
  induction n generalizing i buf f with
  | zero => exact ⟨_, rfl, rfl⟩
  | succ n ih =>
    obtain ⟨buf', hread, hlength⟩ := pass_ok (i := i) hps hlen hpage hreads hfit hbuf
    have hwrite : mcWriteCluster .free g.clusterSize.toNat f (i * dup % 2 ^ 32) buf' dup = _ :=
      mcWriteCluster_of_writes rfl (by rw [hlength]; exact hsize) rfl
    obtain ⟨r, hr, hlen'⟩ := ih (i := i + 1)
      (f := f.put (f.seek (i * dup % 2 ^ 32 * g.clusterSize.toNat % 2 ^ 32))
        (buf'.take (g.clusterSize.toNat * dup % 2 ^ 32)))
      (by rw [hlength]; exact hfit) (by rw [hlength]; exact hbuf) (by rw [hlength]; exact hsize)
    exact ⟨r, bind_eq_ok.mpr ⟨buf', hread, bind_eq_ok.mpr ⟨_, onFail_eq_ok.mpr hwrite, hr⟩⟩,
      hlen'.trans hlength⟩

/-- A write that is larger than the buffer. -/
theorem copyLoop_outside (hps : g.pagesize.toInt = g.pageLen) (hlen : 0 < g.pageLen)
    (hpage : ∀ p, (card.page p).length = g.pageLen) (hreads : ∀ p, card.reads p = true)
    (hfit : pages * g.pageLen ≤ buf.length) (hbuf : buf.length < 2 ^ 32)
    (hsize : buf.length < g.clusterSize.toNat * dup % 2 ^ 32) (hn : 0 < n) :
    copyLoop .free card g pages dup n i buf f = .error .outside := by
  obtain ⟨buf', hread, hlength⟩ := pass_ok (i := i) hps hlen hpage hreads hfit hbuf
  cases n with
  | zero => omega
  | succ n =>
    have hwrite : mcWriteCluster .free g.clusterSize.toNat f (i * dup % 2 ^ 32) buf' dup =
        .error .outside := by
      rw [mcWriteCluster, if_neg (show ¬Host.free.aborts f.count = true from Bool.false_ne_true)]
      exact if_pos (by rw [hlength]; exact hsize)
    rw [copyLoop, hread, bind_ok, hwrite]
    rfl

end copyLoop

/-! ### The geometry -/

namespace Geometry

variable {g : Geometry}

theorem pagesize_eq (h : 0 < g.pagesize.toInt) : g.pagesize.toInt = g.pageLen := by
  rw [pageLen]
  omega

theorem pageLen_pos (h : 0 < g.pagesize.toInt) : 0 < g.pageLen := by
  rw [pageLen]
  omega

theorem pagesblock_eq (h : 0 < g.pagesize.toInt) : g.pagesblock = 16384 / g.pageLen := by
  have hdiv : 16384 / g.pageLen ≤ 16384 := Nat.div_le_self _ _
  have htdiv : Int.tdiv (16 * 1024) (g.pageLen : ℤ) = ((16384 / g.pageLen : ℕ) : ℤ) := rfl
  rw [pagesblock, pagesize_eq h, htdiv]
  generalize 16384 / g.pageLen = q at *
  omega

/-- The pages of a block fit into the buffer. -/
theorem pagesblock_mul_le (h : 0 < g.pagesize.toInt) : g.pagesblock * g.pageLen ≤ 16384 := by
  rw [pagesblock_eq h]
  exact Nat.div_mul_le_self _ _

theorem clustersblock_mul_le : g.clustersblock * g.pagesPerCluster.toNat ≤ g.pagesblock :=
  Nat.div_mul_le_self _ _

/-- And so do the pages of a cluster. -/
theorem pagesPerCluster_mul_le (h : 0 < g.pagesize.toInt) (hcb : g.clustersblock ≠ 0) :
    g.pagesPerCluster.toNat * g.pageLen ≤ 16384 := by
  have hle : g.pagesPerCluster.toNat ≤ g.pagesblock :=
    (Nat.le_mul_of_pos_left _ (Nat.pos_of_ne_zero hcb)).trans clustersblock_mul_le
  exact (Nat.mul_le_mul_right _ hle).trans (pagesblock_mul_le h)

theorem pageLen_le (h : 0 < g.pagesize.toInt) (hcb : g.clustersblock ≠ 0) :
    g.pageLen ≤ 16384 := by
  have hpos : 0 < g.pagesblock := by
    refine Nat.pos_of_ne_zero fun hzero => hcb ?_
    rw [clustersblock, hzero, Nat.zero_div]
  exact (Nat.le_mul_of_pos_left _ hpos).trans (pagesblock_mul_le h)

theorem blocks_mul_le : g.blocks * g.clustersblock ≤ g.clustersPerCard.toNat :=
  Nat.div_mul_le_self _ _

end Geometry

/-! ### Geometries that are copied well -/

section copyCard

variable {host : Host} {card : MemCard} {g : Geometry} {buf : List UInt8} {f : VmcFile}

/-- The copy without divisions by zero. -/
theorem copyCard_eq (hps : g.pagesize.toInt ≠ 0) (hppc : g.pagesPerCluster ≠ 0)
    (hcb : g.clustersblock ≠ 0) (hblocks : g.blocks = 0 ∨ 99 ≤ g.blocks) :
    copyCard host card g buf =
      if host.opens = false then .error (.returned (-101))
      else
        (copyLoop host card g g.pagesblock g.clustersblock g.blocks 0 buf .empty).bind fun r =>
          (copyLoop host card g g.pagesPerCluster.toNat 1
            (g.clustersPerCard.toNat - g.blocks * g.clustersblock) (g.blocks * g.clustersblock)
            r.1 r.2).map Prod.snd := by
  rw [copyCard, if_neg (by simp [hps, hppc, hcb]),
    if_neg (show ¬(g.blocks ≠ 0 ∧ g.blocks / 99 = 0) by omega)]

theorem copyCard_ne_divided (hps : g.pagesize.toInt ≠ 0) (hppc : g.pagesPerCluster ≠ 0)
    (hcb : g.clustersblock ≠ 0) (hblocks : g.blocks = 0 ∨ 99 ≤ g.blocks) :
    copyCard host card g buf ≠ .error .divided := by
  rw [copyCard_eq hps hppc hcb hblocks]
  split
  · simp
  · exact bind_ne_error copyLoop_ne_divided fun r _ => map_ne_error copyLoop_ne_divided

theorem Holds.mono {len m n : ℕ} (h : Holds f card len n) (hle : m ≤ n) : Holds f card len m :=
  ⟨(Nat.mul_le_mul_right len hle).trans h.1, fun p hp => h.2 p (by omega)⟩

section Copied

variable {len pages size n i m : ℕ} {buf' : List UInt8} {f' : VmcFile}

/-- What is in front of the first pass stays in the file. -/
theorem Copied.holds_frame (h : Copied card len pages size n i buf buf' f f')
    (hm : Holds f card len m) (hle : m * len ≤ i * size) : Holds f' card len m := by
  refine ⟨hm.1.trans h.size_mono, fun p hp => ?_⟩
  have hend : (p + 1) * len ≤ m * len := Nat.mul_le_mul_right len hp
  rw [Nat.succ_mul] at hend
  rw [← hm.2 p hp]
  exact Bytes.slice_congr fun x hx => h.frame _ (by omega)

/-- The pages of the passes are in the file: a pass writes its pages, or there is one pass that
writes them and more. -/
theorem Copied.holds (h : Copied card len pages size n i buf buf' f f') (hlen : 0 < len)
    (hpage : ∀ p, (card.page p).length = len) (hindex : (i + n) * pages ≤ 2 ^ 32)
    (hsize : pages * len ≤ size) (honly : i + n ≤ 1 ∨ size = pages * len)
    (hstart : i * size ≤ f.size) (hbefore : Holds f card len (i * pages)) :
    Holds f' card len ((i + n) * pages) := by
  have hfront : i * pages * len ≤ i * size := by
    rw [Nat.mul_assoc]
    exact Nat.mul_le_mul_left i hsize
  have hkept := h.holds_frame hbefore hfront
  constructor
  · refine le_trans ?_ (h.size_ge hstart)
    rw [Nat.mul_assoc]
    exact Nat.mul_le_mul_left _ hsize
  · intro p hp
    by_cases hlt : p < i * pages
    · exact hkept.2 p hlt
    · have hpages : 0 < pages := by
        refine Nat.pos_of_ne_zero fun hzero => ?_
        rw [hzero, Nat.mul_zero] at hp
        exact Nat.not_lt_zero p hp
      have ht : i ≤ p / pages := (Nat.le_div_iff_mul_le hpages).mpr (by omega)
      have ht' : p / pages < i + n := (Nat.div_lt_iff_lt_mul hpages).mpr hp
      have hdiv : p / pages * pages + p % pages = p := Nat.div_add_mod' p pages
      have hmod : p % pages < pages := Nat.mod_lt p hpages
      have hplace : p / pages * size = p / pages * (pages * len) := by
        obtain honly | honly := honly
        · rw [show p / pages = 0 by omega, Nat.zero_mul, Nat.zero_mul]
        · rw [honly]
      have hp : p * len = p / pages * size + p % pages * len := by
        rw [hplace, ← Nat.mul_assoc, ← Nat.add_mul, hdiv]
      have hroom : (p % pages + 1) * len ≤ pages * len := Nat.mul_le_mul_right len hmod
      rw [Nat.succ_mul] at hroom
      refine Bytes.slice_eq_of_getElem? (hpage p) fun x hx => ?_
      rw [hp, Nat.add_assoc, h.bytes _ _ ht ht' (by omega), passByte, if_pos (by omega),
        Nat.mul_comm (p % pages) len, Nat.mul_add_div hlen, Nat.div_eq_of_lt hx, Nat.add_zero,
        hdiv, Nat.mul_add_mod, Nat.mod_eq_of_lt hx, Nat.mod_eq_of_lt (by omega),
        List.getD_eq_getElem?_getD, List.getElem?_eq_getElem (by rw [hpage]; exact hx)]
      rfl

end Copied

/-- A copy that gets to its end. -/
theorem copyCard_eq_ok (hps : g.pagesize.toInt ≠ 0) (hppc : g.pagesPerCluster ≠ 0)
    (hcb : g.clustersblock ≠ 0) (hblocks : g.blocks = 0 ∨ 99 ≤ g.blocks)
    (h : copyCard host card g buf = .ok f) :
    ∃ buf₁ f₁ buf₂, copyLoop host card g g.pagesblock g.clustersblock g.blocks 0 buf .empty =
        .ok (buf₁, f₁) ∧
      copyLoop host card g g.pagesPerCluster.toNat 1
        (g.clustersPerCard.toNat - g.blocks * g.clustersblock) (g.blocks * g.clustersblock)
        buf₁ f₁ = .ok (buf₂, f) := by
  rw [copyCard_eq hps hppc hcb hblocks] at h
  split at h
  next => cases h
  next =>
    obtain ⟨⟨buf₁, f₁⟩, hloop, hrest⟩ := bind_eq_ok.mp h
    obtain ⟨⟨buf₂, f₂⟩, hloop', rfl⟩ := map_eq_ok.mp hrest
    exact ⟨buf₁, f₁, buf₂, hloop, hloop'⟩

/-- The writes of the clusters one by one. -/
theorem clusterLen_eq : g.clusterSize.toNat * 1 % 2 ^ 32 = g.clusterSize.toNat := by
  have := g.clusterSize.toNat_lt
  omega

/-- As many clusters as a block has are less than 4 GB. -/
theorem mul_clustersblock_lt (hps : 0 < g.pagesize.toInt)
    (hcs : g.clusterSize.toNat ≤ 16 * 1024 + 16) :
    g.clusterSize.toNat * g.clustersblock < 2 ^ 32 := by
  have hcb : g.clustersblock ≤ 16384 := by
    refine (Nat.div_le_self _ _).trans ?_
    rw [Geometry.pagesblock_eq hps]
    exact Nat.div_le_self _ _
  calc g.clusterSize.toNat * g.clustersblock ≤ (16 * 1024 + 16) * 16384 := Nat.mul_le_mul hcs hcb
    _ < 2 ^ 32 := by decide

/-- A block of clusters that are not larger than the buffer. -/
theorem blockLen_eq (hps : 0 < g.pagesize.toInt) (hcs : g.clusterSize.toNat ≤ 16 * 1024 + 16) :
    g.blockLen = g.clusterSize.toNat * g.clustersblock :=
  Nat.mod_eq_of_lt (mul_clustersblock_lt hps hcs)

/-- As many writes as begin below 4 GB have pages whose numbers have 32 bits: a page has two bytes
at least, or the pages of a write divide the ones of 4 GB. -/
theorem mul_pages_le {n pages len : ℕ} (hlen : 0 < len) (hsmall : pages * len ≤ 16384)
    (hone : len = 1 → pages ∣ 16384) (h : n * (pages * len) < 2 ^ 32 + pages * len) :
    n * pages ≤ 2 ^ 32 := by
  rcases Nat.lt_or_ge 1 len with htwo | hle
  · have hmul : n * pages * 2 ≤ n * pages * len := Nat.mul_le_mul_left _ htwo
    rw [← Nat.mul_assoc] at h
    omega
  · obtain rfl : len = 1 := by omega
    obtain ⟨q, hq⟩ := hone rfl
    rw [Nat.mul_one] at h
    have hall : 2 ^ 32 = pages * (q * 2 ^ 18) :=
      (Nat.pow_add 2 14 18).trans (by rw [← Nat.mul_assoc, ← hq])
    rw [hall, Nat.mul_comm n, ← Nat.mul_succ] at h
    rw [hall, Nat.mul_comm n]
    exact Nat.mul_le_mul_left _ (Nat.le_of_lt_succ (Nat.lt_of_mul_lt_mul_left h))

theorem blocks_mul_pagesblock_le (hps : 0 < g.pagesize.toInt) (hwrap : g.NoWrap)
    (hblock : g.blockLen = g.pagesblock * g.pageLen) : g.blocks * g.pagesblock ≤ 2 ^ 32 := by
  refine mul_pages_le (Geometry.pageLen_pos hps) (Geometry.pagesblock_mul_le hps)
    (fun hone => ?_) ?_
  · have hpages := Geometry.pagesblock_eq hps
    rw [hone] at hpages
    exact hpages ▸ Nat.dvd_refl _
  · rw [← hblock]
    exact hwrap.1

/-- The loop over the blocks. -/
theorem copied_blocks_of_noWrap {buf' : List UInt8} {f' : VmcFile} (hps : 0 < g.pagesize.toInt)
    (hpage : ∀ p, (card.page p).length = g.pageLen) (hbuf : buf.length = 16 * 1024 + 16)
    (hwrap : g.NoWrap)
    (h : copyLoop host card g g.pagesblock g.clustersblock g.blocks 0 buf .empty =
      .ok (buf', f')) :
    Copied card g.pageLen g.pagesblock g.blockLen g.blocks 0 buf buf' .empty f' := by
  have hfit := Geometry.pagesblock_mul_le hps
  refine copyLoop_spec (Geometry.pagesize_eq hps) (Geometry.pageLen_pos hps) hpage (by omega)
    (by omega) (Nat.zero_mul _).symm ?_ h
  rw [Nat.zero_add]
  exact hwrap.1

/-- The loop over the clusters that are left. -/
theorem copied_rest_of_noWrap {buf₁ buf' : List UInt8} {f₁ f' : VmcFile}
    (hps : 0 < g.pagesize.toInt) (hcb : g.clustersblock ≠ 0)
    (hpage : ∀ p, (card.page p).length = g.pageLen) (hbuf : buf₁.length = 16 * 1024 + 16)
    (hcs : g.clusterSize.toNat ≤ 16 * 1024 + 16) (hwrap : g.NoWrap) (hhas : g.HasRest)
    (hpos : f₁.pos = g.blocks * g.blockLen)
    (h : copyLoop host card g g.pagesPerCluster.toNat 1
      (g.clustersPerCard.toNat - g.blocks * g.clustersblock) (g.blocks * g.clustersblock)
        buf₁ f₁ = .ok (buf', f')) :
    Copied card g.pageLen g.pagesPerCluster.toNat g.clusterSize.toNat
      (g.clustersPerCard.toNat - g.blocks * g.clustersblock) (g.blocks * g.clustersblock)
        buf₁ buf' f₁ f' := by
  have hfit := Geometry.pagesPerCluster_mul_le hps hcb
  have hall : g.blocks * g.clustersblock +
      (g.clustersPerCard.toNat - g.blocks * g.clustersblock) = g.clustersPerCard.toNat :=
    Nat.add_sub_cancel' Geometry.blocks_mul_le
  have hcopied := copyLoop_spec (Geometry.pagesize_eq hps) (Geometry.pageLen_pos hps) hpage
    (by omega) (by omega) (by
      rw [clusterLen_eq, hpos, blockLen_eq hps hcs, Nat.mul_assoc, Nat.mul_comm g.clustersblock])
    (by rw [clusterLen_eq, hall]; exact hwrap.2 hhas) h
  rwa [clusterLen_eq] at hcopied

theorem copyCard_holds_clusters (hps : 0 < g.pagesize.toInt)
    (hppc : g.pagesPerCluster ≠ 0) (hcb : g.clustersblock ≠ 0)
    (hpage : ∀ p, (card.page p).length = g.pageLen) (hbuf : buf.length = 16 * 1024 + 16)
    (hcopies : g.CopiesClusters) (h : copyCard host card g buf = .ok f) :
    Holds f card g.pageLen (g.clustersPerCard.toNat * g.pagesPerCluster.toNat) := by
  obtain ⟨hblocks, hcs, hsize⟩ := hcopies
  rw [if_neg (by omega)] at hsize
  obtain ⟨buf₁, f₁, buf₂, hloop, hloop'⟩ :=
    copyCard_eq_ok (Int.ne_of_gt hps) hppc hcb (.inl hblocks) h
  rw [hblocks] at hloop
  cases hloop
  rw [hblocks, Nat.zero_mul, Nat.sub_zero] at hloop'
  have hfit := Geometry.pagesPerCluster_mul_le hps hcb
  have hlen := Geometry.pageLen_pos hps
  have hfew : g.clustersPerCard.toNat < g.clustersblock :=
    (Nat.div_eq_zero_iff_lt (Nat.pos_of_ne_zero hcb)).mp hblocks
  have hend : g.clustersPerCard.toNat * g.clusterSize.toNat < 2 ^ 32 := by
    rw [Nat.mul_comm]
    exact (Nat.mul_le_mul_left _ hfew.le).trans_lt (mul_clustersblock_lt hps hcs)
  have hcopied := copyLoop_spec (Geometry.pagesize_eq hps) hlen hpage
    (by omega) (by omega) (Nat.zero_mul _).symm
    (by rw [clusterLen_eq, Nat.zero_add]; omega) hloop'
  rw [clusterLen_eq] at hcopied
  have hindex : (0 + g.clustersPerCard.toNat) * g.pagesPerCluster.toNat ≤ 2 ^ 32 := by
    have hle := Nat.mul_le_mul_right g.pagesPerCluster.toNat hfew.le
    have hblock := Geometry.clustersblock_mul_le (g := g)
    have hpages : g.pagesblock ≤ 16384 := by
      rw [Geometry.pagesblock_eq hps]
      exact Nat.div_le_self _ _
    rw [Nat.zero_add]
    omega
  have hholds := hcopied.holds hlen hpage hindex (by omega)
    (by
      obtain hsize | ⟨hone, -⟩ := hsize
      · exact .inr hsize
      · rw [hone]
        exact .inl le_rfl)
    (by omega) ⟨by omega, fun p hp => by omega⟩
  rwa [Nat.zero_add] at hholds

theorem copyCard_holds_blocks (hppc : g.pagesPerCluster ≠ 0)
    (hcb : g.clustersblock ≠ 0) (hpage : ∀ p, (card.page p).length = g.pageLen)
    (hbuf : buf.length = 16 * 1024 + 16) (hcopies : g.CopiesBlocks)
    (h : copyCard host card g buf = .ok f) :
    Holds f card g.pageLen (g.clustersPerCard.toNat * g.pagesPerCluster.toNat) := by
  obtain ⟨hblocks, hps, hsize, hrest, hwrap, hblock, hshape⟩ := hcopies
  obtain ⟨buf₁, f₁, buf₂, hloop, hloop'⟩ :=
    copyCard_eq_ok (Int.ne_of_gt hps) hppc hcb (.inr hblocks) h
  have hlen := Geometry.pageLen_pos hps
  have hcopied := copied_blocks_of_noWrap hps hpage hbuf hwrap hloop
  have hpos := hcopied.pos
  rw [Nat.zero_add] at hpos
  have hbefore : Holds f₁ card g.pageLen (g.blocks * g.pagesblock) := by
    have hholds := hcopied.holds hlen hpage
      (by rw [Nat.zero_add]; exact blocks_mul_pagesblock_le hps hwrap hblock) hblock.ge
      (.inr hblock) (by omega) ⟨by omega, fun p hp => by omega⟩
    rwa [Nat.zero_add] at hholds
  have hsize₁ := hcopied.size_ge (by omega)
  rw [Nat.zero_add] at hsize₁
  by_cases hhas : g.HasRest
  · have hcs := hrest hhas
    have hblockLen := blockLen_eq hps hcs
    have hplace : g.blocks * g.clustersblock * g.clusterSize.toNat = g.blocks * g.blockLen := by
      rw [hblockLen, Nat.mul_assoc, Nat.mul_comm g.clustersblock]
    have hcopied' := copied_rest_of_noWrap hps hcb hpage (hcopied.length.trans hbuf) hcs hwrap hhas
      hpos hloop'
    have hall : g.blocks * g.clustersblock +
        (g.clustersPerCard.toNat - g.blocks * g.clustersblock) = g.clustersPerCard.toNat :=
      Nat.add_sub_cancel' Geometry.blocks_mul_le
    obtain hshape | hshape := hshape hhas
    · have hcluster : g.clusterSize.toNat = g.pagesPerCluster.toNat * g.pageLen := by
        refine Nat.eq_of_mul_eq_mul_left (Nat.pos_of_ne_zero hcb) ?_
        rw [Nat.mul_comm, ← hblockLen, hblock, hshape, Nat.mul_assoc]
      have hindex : g.clustersPerCard.toNat * g.pagesPerCluster.toNat ≤ 2 ^ 32 := by
        refine mul_pages_le hlen (Geometry.pagesPerCluster_mul_le hps hcb) (fun hone => ?_) ?_
        · refine ⟨g.clustersblock, ?_⟩
          rw [Nat.mul_comm, ← hshape, Geometry.pagesblock_eq hps, hone]
        · rw [← hcluster]
          exact hwrap.2 hhas
      have hholds := hcopied'.holds hlen hpage (by rw [hall]; exact hindex) hcluster.ge
        (.inr hcluster) (by rw [hplace]; exact hsize₁) (by
          rw [Nat.mul_assoc, ← hshape]
          exact hbefore)
      rwa [hall] at hholds
    · refine (hcopied'.holds_frame hbefore ?_).mono hshape
      rw [hplace, hblock, Nat.mul_assoc]
  · have hall : g.clustersPerCard.toNat = g.blocks * g.clustersblock := by
      have := Geometry.blocks_mul_le (g := g)
      rw [Geometry.HasRest] at hhas
      omega
    rw [hall, Nat.sub_self] at hloop'
    cases hloop'
    refine hbefore.mono ?_
    rw [hall, Nat.mul_assoc]
    exact Nat.mul_le_mul_left _ Geometry.clustersblock_mul_le

/-- A page of a negative size is read to the start of the buffer. -/
theorem readPages_of_neg {first : ℕ} (hps : g.pagesize.toInt < 0)
    (hpage : ∀ p, (card.page p).length = g.pageLen) :
    readPages card g.pagesize.toInt first 1 0 buf =
      if card.reads ((first + 0) % 2 ^ 32) = false then .error (.returned (-102))
      else .ok buf := by
  have hlen : g.pageLen = 0 := by
    rw [Geometry.pageLen]
    omega
  have hat : ((0 : ℕ) * g.pagesize.toInt % 2 ^ 32 : ℤ).toNat = 0 := by omega
  have hnil : card.page ((first + 0) % 2 ^ 32) = [] :=
    List.length_eq_zero_iff.mp ((hpage _).trans hlen)
  rw [readPages, readPages, hat, hnil, Bytes.overwrite_nil, List.length_nil,
    if_neg (Nat.not_lt_zero _)]

theorem copyLoop_ne_outside_of_neg {n i : ℕ} (hps : g.pagesize.toInt < 0)
    (hpage : ∀ p, (card.page p).length = g.pageLen)
    (hsize : g.clusterSize.toNat * 1 % 2 ^ 32 ≤ buf.length) :
    copyLoop host card g 1 1 n i buf f ≠ .error .outside := by
  induction n generalizing i buf f with
  | zero => simp [copyLoop]
  | succ n ih =>
    rw [copyLoop, readPages_of_neg hps hpage]
    split
    · simp [Except.bind]
    · rw [bind_ok]
      exact bind_ne_error (onFail_ne_outside (mcWriteCluster_ne_outside hsize))
        fun f' _ => ih hsize

theorem copyCard_ne_outside
    (hpage : ∀ p, (card.page p).length = g.pageLen) (hbuf : buf.length = 16 * 1024 + 16)
    (hcopyable : g.Copyable) : copyCard host card g buf ≠ .error .outside := by
  obtain ⟨hps, hppc, hcb,
    hzero | ⟨hblocks, hcs, hsize⟩ | ⟨hblocks, hpos, hsize, hrest, hwrap, -⟩⟩ := hcopyable
  · have hblocks : g.blocks = 0 := by
      rw [Geometry.blocks, hzero]
      exact Nat.zero_div _
    rw [copyCard_eq hps hppc hcb (.inl hblocks), hblocks, hzero]
    split
    · simp
    · simp [copyLoop, Except.bind, Except.map]
  · rw [copyCard_eq hps hppc hcb (.inl hblocks), hblocks, Nat.zero_mul, Nat.sub_zero, copyLoop,
      bind_ok]
    dsimp only
    split
    · simp
    · refine map_ne_error ?_
      split at hsize
      next hneg =>
        rw [hsize]
        exact copyLoop_ne_outside_of_neg hneg hpage (by rw [clusterLen_eq]; omega)
      next hnonneg =>
        have hpos : 0 < g.pagesize.toInt := by omega
        have hfit := Geometry.pagesPerCluster_mul_le hpos hcb
        exact copyLoop_ne_outside (Geometry.pagesize_eq hpos) (Geometry.pageLen_pos hpos) hpage
          (by omega) (by omega) (by rw [clusterLen_eq]; omega)
  · have hlen := Geometry.pageLen_pos hpos
    have hpsEq := Geometry.pagesize_eq hpos
    have hfit := Geometry.pagesblock_mul_le hpos
    rw [copyCard_eq hps hppc hcb (.inr hblocks)]
    split
    · simp
    · refine bind_ne_error (copyLoop_ne_outside hpsEq hlen hpage (by omega) (by omega)
        (by rw [← Geometry.blockLen]; omega)) fun r hloop => map_ne_error ?_
      have hlength : r.1.length = 16 * 1024 + 16 :=
        (copied_blocks_of_noWrap hpos hpage hbuf hwrap hloop).length.trans hbuf
      by_cases hhas : g.HasRest
      · have hcs := hrest hhas
        have hfit' := Geometry.pagesPerCluster_mul_le hpos hcb
        exact copyLoop_ne_outside hpsEq hlen hpage (by omega) (by omega)
          (by rw [clusterLen_eq]; omega)
      · rw [Geometry.HasRest] at hhas
        rw [Nat.sub_eq_zero_of_le (by omega)]
        simp [copyLoop]

/-- The call behind the check of the superblock. -/
theorem vmcMccopy_eq (h : HasSuperblock card buf g) (hlen : g.pageLen ≤ 16 * 1024 + 16) :
    (Bytes.overwrite buf 0 (card.page 0)).length = 16 * 1024 + 16 ∧
      vmcMccopy host card buf =
        if card.detect < -1 ∧ card.cardType ≠ 2 then .error (.returned (-98))
        else if card.reads 0 = false then .error (.returned (-99))
        else copyCard host card g (Bytes.overwrite buf 0 (card.page 0)) := by
  have hbuf := h.length_buf
  have hpage := h.length_page 0
  constructor
  · rw [Bytes.length_overwrite (by omega)]
    exact hbuf
  · rw [vmcMccopy, if_neg (show ¬buf.length < (card.page 0).length by omega)]
    dsimp only
    rw [if_neg (not_not.mpr h.magic), h.geometry]

/-- The geometries that are copyable are copied well. -/
theorem copiesWell_of_copyable (hcopyable : g.Copyable) : CopiesWell g := by
  intro host card buf hsuper
  have hpage := hsuper.length_page
  obtain ⟨hps, hppc, hcb, hcopies⟩ := hcopyable
  have hlen : g.pageLen ≤ 16 * 1024 + 16 := by
    by_cases hpos : 0 < g.pagesize.toInt
    · have := Geometry.pageLen_le hpos hcb
      omega
    · rw [Geometry.pageLen]
      omega
  have hblocks : g.blocks = 0 ∨ 99 ≤ g.blocks := by
    obtain hzero | hclusters | hblocks := hcopies
    · rw [Geometry.blocks, hzero]
      exact .inl (Nat.zero_div _)
    · exact .inl hclusters.1
    · exact .inr hblocks.1
  obtain ⟨hlength, heq⟩ := vmcMccopy_eq hsuper hlen
  rw [heq]
  refine ⟨?_, ?_, fun f hf => ?_⟩
  · split
    · simp
    · split
      · simp
      · exact copyCard_ne_divided hps hppc hcb hblocks
  · split
    · simp
    · split
      · simp
      · exact copyCard_ne_outside hpage hlength ⟨hps, hppc, hcb, hcopies⟩
  · split at hf
    next => cases hf
    next =>
      split at hf
      next => cases hf
      next =>
        obtain hzero | hclusters | hblocks := hcopies
        · rw [hzero]
          exact ⟨by simp, fun p hp => absurd hp (by simp)⟩
        · by_cases hpos : 0 < g.pagesize.toInt
          · exact copyCard_holds_clusters hpos hppc hcb hpage hlength hclusters hf
          · have hnone : g.pageLen = 0 := by
              rw [Geometry.pageLen]
              omega
            rw [hnone]
            refine ⟨by simp, fun p _ => ?_⟩
            exact (List.length_eq_zero_iff.mp ((hpage p).trans hnone)).symm
        · exact copyCard_holds_blocks hppc hcb hpage hlength hblocks hf

end copyCard

end Vmc

end OpenPS2Loader
