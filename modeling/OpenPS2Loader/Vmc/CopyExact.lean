import OpenPS2Loader.Vmc.CopyWrap

/-!
# Memory cards that are not copied well

For every geometry that is not copyable there is a card with it whose copy goes wrong: there is a
division by zero, an access outside of `cluster_buf`, or the file does not have the pages of the
card. Pages of one byte are the exception: there are copies of such cards that come to the start of
the file again and write there what is there already.

## Main results

* `Vmc.copiesWell`
* `Vmc.not_copiesWell_smallCard`
-/

namespace OpenPS2Loader

namespace Vmc

section Marked

variable {g : Geometry} {k : ℕ} {v : UInt8}

/-! ### Geometries that are not copied well -/

theorem not_copiesWell_of_zero
    (h : g.pagesize.toInt = 0 ∨ g.pagesPerCluster = 0 ∨ g.clustersblock = 0) :
    ¬CopiesWell g := by
  intro hall
  by_cases hlen : g.pageLen ≤ 16 * 1024 + 16
  · exact (hall.marked hlen 0 0).1 (if_pos h)
  · refine (hall .free (markedCard g 0 0) (superblockBuf g)
      (hasSuperblock_markedCard g 0 0)).2.1 ?_
    have hlong : (superblockBuf g).length < ((markedCard g 0 0).page 0).length := by
      rw [length_superblockBuf, length_page_markedCard]
      omega
    exact if_pos hlong

/-- The progress of fewer than 99 blocks. -/
theorem not_copiesWell_of_few (hlen : g.pageLen ≤ 16 * 1024 + 16)
    (hnz : ¬(g.pagesize.toInt = 0 ∨ g.pagesPerCluster = 0 ∨ g.clustersblock = 0))
    (hpos : g.blocks ≠ 0) (hlt : g.blocks < 99) : ¬CopiesWell g := by
  intro hall
  refine (hall.marked hlen 0 0).1 ?_
  rw [copyCard, if_neg hnz, opens_free, if_neg (show ¬true = false by decide)]
  exact if_pos ⟨hpos, Nat.div_eq_of_lt hlt⟩

/-- The second page of a negative size is in front of the buffer. -/
theorem copyLoop_outside_of_neg {pages dup n i : ℕ} {f : VmcFile} (hps : g.pagesize.toInt < 0)
    (hpages : 2 ≤ pages) (hn : 0 < n) :
    copyLoop .free (markedCard g k v) g pages dup n i (superblockBuf g) f =
      .error .outside := by
  obtain ⟨n, rfl⟩ : ∃ m, n = m + 1 := ⟨n - 1, by omega⟩
  obtain ⟨pages, rfl⟩ : ∃ m, pages = m + 2 := ⟨pages - 2, by omega⟩
  have hbound := g.pagesize.le_toInt
  have hnil : ∀ p, (markedCard g k v).page p = [] := by
    intro p
    refine List.length_eq_zero_iff.mp ((length_page_markedCard g k v p).trans ?_)
    rw [Geometry.pageLen]
    omega
  have hread : ∀ first, readPages (markedCard g k v) g.pagesize.toInt first (pages + 2) 0
      (superblockBuf g) = .error .outside := by
    intro first
    have hat : (((0 : ℕ) + 1 : ℕ) * g.pagesize.toInt % 2 ^ 32 : ℤ).toNat > 16 * 1024 + 16 := by
      omega
    have hat₀ : ((0 : ℕ) * g.pagesize.toInt % 2 ^ 32 : ℤ).toNat = 0 := by omega
    rw [readPages, hat₀, hnil, Bytes.overwrite_nil, List.length_nil, if_neg (Nat.not_lt_zero _),
      reads_markedCard, if_neg (show ¬true = false by decide), readPages, hnil, List.length_nil,
      reads_markedCard, if_neg (show ¬true = false by decide), if_pos]
    rw [length_superblockBuf]
    omega
  rw [copyLoop, hread, bind_error]

/-- The copy of fewer clusters than a block has. -/
theorem copyCard_clusters {card : MemCard} {buf : List UInt8} (hps : g.pagesize.toInt ≠ 0)
    (hppc : g.pagesPerCluster ≠ 0) (hcb : g.clustersblock ≠ 0) (hblocks : g.blocks = 0) :
    copyCard .free card g buf =
      (copyLoop .free card g g.pagesPerCluster.toNat 1 g.clustersPerCard.toNat 0 buf .empty).map
        Prod.snd := by
  rw [copyCard_eq hps hppc hcb (.inl hblocks), hblocks, Nat.zero_mul, Nat.sub_zero, copyLoop,
    bind_ok, opens_free, if_neg (by decide)]

/-- The file of a card with few clusters. -/
theorem copied_clusters (hall : CopiesWell g) (hps : 0 < g.pagesize.toInt)
    (hppc : g.pagesPerCluster ≠ 0) (hcb : g.clustersblock ≠ 0) (hblocks : g.blocks = 0)
    (hcs : g.clusterSize.toNat ≤ 16 * 1024 + 16) (k : ℕ) (v : UInt8) :
    ∃ buf f, Copied (markedCard g k v) g.pageLen g.pagesPerCluster.toNat g.clusterSize.toNat
        g.clustersPerCard.toNat 0 (superblockBuf g) buf .empty f ∧
      Holds f (markedCard g k v) g.pageLen
        (g.clustersPerCard.toNat * g.pagesPerCluster.toNat) := by
  have hlen := Geometry.pageLen_pos hps
  have hlen' := Geometry.pageLen_le hps hcb
  have hfit := Geometry.pagesPerCluster_mul_le hps hcb
  have hbuf := length_superblockBuf g
  have hpsEq := Geometry.pagesize_eq hps
  have hfew : g.clustersPerCard.toNat < g.clustersblock :=
    (Nat.div_eq_zero_iff_lt (Nat.pos_of_ne_zero hcb)).mp hblocks
  have hend : g.clustersPerCard.toNat * g.clusterSize.toNat < 2 ^ 32 := by
    rw [Nat.mul_comm]
    exact (Nat.mul_le_mul_left _ hfew.le).trans_lt (mul_clustersblock_lt hps hcs)
  obtain ⟨⟨buf, f⟩, hok, -⟩ := copyLoop_ok (n := g.clustersPerCard.toNat) (i := 0) (f := .empty)
    hpsEq hlen (length_page_markedCard g k v) (fun _ => rfl)
    (show g.pagesPerCluster.toNat * g.pageLen ≤ (superblockBuf g).length by omega) (by omega)
    (by rw [clusterLen_eq]; omega)
  have hcopied := copyLoop_spec hpsEq hlen (length_page_markedCard g k v)
    (by omega) (by omega) (Nat.zero_mul _).symm (by rw [clusterLen_eq, Nat.zero_add]; omega) hok
  rw [clusterLen_eq] at hcopied
  refine ⟨buf, f, hcopied, (hall.marked (by omega) k v).2.2 f ?_⟩
  rw [copyCard_clusters (Int.ne_of_gt hps) hppc hcb hblocks, hok]
  rfl

/-- A card without blocks whose size of a page is negative. -/
theorem not_copiesWell_of_clusters_neg (hneg : g.pagesize.toInt < 0) (hppc : g.pagesPerCluster ≠ 0)
    (hcb : g.clustersblock ≠ 0) (hcard : g.clustersPerCard ≠ 0) (hblocks : g.blocks = 0)
    (hnot : ¬g.CopiesClusters) : ¬CopiesWell g := by
  intro hall
  have hn := Geometry.clustersPerCard_pos hcard
  have hpages := Geometry.pagesPerCluster_pos hppc
  have hps : g.pagesize.toInt ≠ 0 := by omega
  have hlen : g.pageLen ≤ 16 * 1024 + 16 := by
    rw [Geometry.pageLen]
    omega
  refine (hall.marked hlen 0 0).2.1 ?_
  rw [copyCard_clusters hps hppc hcb hblocks]
  by_cases hone : g.pagesPerCluster = 1
  · have hcs : 16 * 1024 + 16 < g.clusterSize.toNat := by
      by_contra hle
      exact hnot ⟨hblocks, by omega, by rw [if_pos hneg]; exact hone⟩
    obtain ⟨n, hn⟩ : ∃ m, g.clustersPerCard.toNat = m + 1 := ⟨_, (Nat.sub_add_cancel hn).symm⟩
    have hwrite : ∀ c, mcWriteCluster .free g.clusterSize.toNat .empty c (superblockBuf g) 1 =
        .error .outside := by
      intro c
      rw [mcWriteCluster,
        if_neg (show ¬Host.free.aborts VmcFile.empty.count = true from Bool.false_ne_true)]
      exact if_pos (by rw [length_superblockBuf, clusterLen_eq]; exact hcs)
    have hppc₁ : g.pagesPerCluster.toNat = 1 := by rw [hone]; rfl
    rw [hn, hppc₁, copyLoop, readPages_of_neg hneg (length_page_markedCard g 0 0),
      reads_markedCard, if_neg (by decide), bind_ok, hwrite]
    rfl
  · have htwo : 2 ≤ g.pagesPerCluster.toNat := by
      by_contra hlt
      refine hone (UInt16.toNat_inj.mp ?_)
      show g.pagesPerCluster.toNat = 1
      omega
    rw [copyLoop_outside_of_neg hneg htwo hn]
    rfl

/-- A card without blocks whose pages do not fill its clusters. -/
theorem not_copiesWell_of_clusters_pos (hpos : 0 < g.pagesize.toInt) (hppc : g.pagesPerCluster ≠ 0)
    (hcb : g.clustersblock ≠ 0) (hcard : g.clustersPerCard ≠ 0) (hblocks : g.blocks = 0)
    (hnot : ¬g.CopiesClusters) : ¬CopiesWell g := by
  intro hall
  have hn := Geometry.clustersPerCard_pos hcard
  have hpages := Geometry.pagesPerCluster_pos hppc
  have hps : g.pagesize.toInt ≠ 0 := by omega
  have hneg : ¬g.pagesize.toInt < 0 := by omega
  have hlen := Geometry.pageLen_pos hpos
  have hlen' := Geometry.pageLen_le hpos hcb
  have hfit := Geometry.pagesPerCluster_mul_le hpos hcb
  have hbuf := length_superblockBuf g
  have hpsEq := Geometry.pagesize_eq hpos
  by_cases hcs : 16 * 1024 + 16 < g.clusterSize.toNat
  · refine (hall.marked (by omega) 0 0).2.1 ?_
    rw [copyCard_clusters hps hppc hcb hblocks, copyLoop_outside hpsEq hlen
      (length_page_markedCard g 0 0) (fun _ => rfl) (by omega) (by omega)
      (by rw [clusterLen_eq]; omega) hn]
    rfl
  · obtain ⟨buf, f, hcopied, hholds⟩ := copied_clusters hall hpos hppc hcb hblocks (by omega)
      g.pagesPerCluster.toNat
      ((superblockBuf g).getD (g.pagesPerCluster.toNat * g.pageLen) 0 + 1)
    have hsize : f.size ≤ g.clustersPerCard.toNat * g.clusterSize.toNat := by
      have := hcopied.size_le
      rw [Nat.zero_add] at this
      exact this.trans (Nat.max_le.mpr ⟨Nat.zero_le _, le_rfl⟩)
    have hroom := hholds.1
    rw [Nat.mul_assoc] at hroom
    have hle : g.pagesPerCluster.toNat * g.pageLen ≤ g.clusterSize.toNat :=
      Nat.le_of_mul_le_mul_left (hroom.trans hsize) hn
    have hne : g.clusterSize.toNat ≠ g.pagesPerCluster.toNat * g.pageLen ∧
        g.clustersPerCard.toNat ≠ 1 := by
      constructor
      · intro heq
        exact hnot ⟨hblocks, by omega, by rw [if_neg hneg]; exact .inl heq⟩
      · intro hone
        refine hnot ⟨hblocks, by omega, ?_⟩
        rw [if_neg hneg]
        exact .inr ⟨UInt32.toNat_inj.mp hone, hle⟩
    -- the byte behind the pages of the first cluster was in the buffer before
    have hstale := hcopied.bytes 0 (g.pagesPerCluster.toNat * g.pageLen) le_rfl (by omega)
      (by omega)
    rw [Nat.zero_mul, Nat.zero_add, passByte, if_neg (Nat.lt_irrefl _)] at hstale
    have htwo : 2 * g.pagesPerCluster.toNat ≤
        g.clustersPerCard.toNat * g.pagesPerCluster.toNat := Nat.mul_le_mul_right _ (by omega)
    have hbyte := hholds.getD_eq (p := g.pagesPerCluster.toNat) (by omega) hlen
    rw [Nat.add_zero, hstale, getD_page_markedCard hpages.ne' hlen] at hbyte
    exact ne_add_one _ hbyte

theorem not_copiesWell_of_clusters (hps : g.pagesize.toInt ≠ 0) (hppc : g.pagesPerCluster ≠ 0)
    (hcb : g.clustersblock ≠ 0) (hcard : g.clustersPerCard ≠ 0) (hblocks : g.blocks = 0)
    (hnot : ¬g.CopiesClusters) : ¬CopiesWell g := by
  obtain hneg | hpos := Int.lt_or_lt_of_ne hps
  · exact not_copiesWell_of_clusters_neg hneg hppc hcb hcard hblocks hnot
  · exact not_copiesWell_of_clusters_pos hpos hppc hcb hcard hblocks hnot

/-- The file of a card with blocks: the blocks, and behind them the clusters that are left. -/
theorem copied_blocks (hall : CopiesWell g) (hps : 0 < g.pagesize.toInt)
    (hppc : g.pagesPerCluster ≠ 0) (hcb : g.clustersblock ≠ 0) (hblocks : 99 ≤ g.blocks)
    (hsize : g.blockLen ≤ 16 * 1024 + 16)
    (hrest : g.HasRest → g.clusterSize.toNat ≤ 16 * 1024 + 16) (hwrap : g.NoWrap) (k : ℕ)
    (v : UInt8) :
    ∃ f, Holds f (markedCard g k v) g.pageLen
        (g.clustersPerCard.toNat * g.pagesPerCluster.toNat) ∧
      (∀ t b, t < g.blocks → b < g.blockLen → f.bytes (t * g.blockLen + b) =
        passByte (markedCard g k v) g.pageLen g.pagesblock (superblockBuf g) t b) ∧
      (g.blockLen = 0 → f.size = 0) ∧
      (g.HasRest → 0 < g.clusterSize.toNat → f.bytes (g.blocks * g.blockLen) =
        ((markedCard g k v).page
          (g.blocks * g.clustersblock * g.pagesPerCluster.toNat % 2 ^ 32)).getD 0 0) := by
  have hlen := Geometry.pageLen_pos hps
  have hlen' := Geometry.pageLen_le hps hcb
  have hpages := Geometry.pagesPerCluster_pos hppc
  obtain ⟨buf₁, f₁, buf₂, f, hlen₁, hok₁, hok₂, hok, -⟩ :=
    copyCard_free hps hppc hcb hblocks hsize hrest k v
  have hcopied₁ := copied_blocks_of_noWrap hps (length_page_markedCard g k v)
    (length_superblockBuf g) hwrap hok₁
  have hbytes₁ : ∀ t b, t < g.blocks → b < g.blockLen → f₁.bytes (t * g.blockLen + b) =
      passByte (markedCard g k v) g.pageLen g.pagesblock (superblockBuf g) t b :=
    fun t b ht hb => hcopied₁.bytes t b (Nat.zero_le t) (by omega) hb
  have hsize₁ := hcopied₁.size_le
  have hpos₁ := hcopied₁.pos
  rw [Nat.zero_add] at hsize₁ hpos₁
  have hempty : VmcFile.empty.size = 0 := rfl
  have hholds := (hall.marked (by omega) k v).2.2 f hok
  by_cases hhas : g.HasRest
  · have hcs := hrest hhas
    have hcopied := copied_rest_of_noWrap hps hcb (length_page_markedCard g k v) hlen₁ hcs hwrap
      hhas hpos₁ hok₂
    have hblockLen := blockLen_eq hps hcs
    have hplace : g.blocks * g.clustersblock * g.clusterSize.toNat = g.blocks * g.blockLen := by
      rw [hblockLen, Nat.mul_assoc, Nat.mul_comm g.clustersblock]
    refine ⟨f, hholds, fun t b ht hb => ?_, fun hzero => ?_, fun _ hpos => ?_⟩
    · have hbefore : (t + 1) * g.blockLen ≤ g.blocks * g.blockLen := Nat.mul_le_mul_right _ ht
      rw [Nat.succ_mul] at hbefore
      rw [hcopied.frame _ (by omega), hbytes₁ t b ht hb]
    · have hcs₀ : g.clusterSize.toNat = 0 := by
        rw [hblockLen] at hzero
        exact (Nat.mul_eq_zero.mp hzero).resolve_right hcb
      have hsize' := hcopied.size_le
      rw [hcs₀, Nat.mul_zero] at hsize'
      rw [hzero, Nat.mul_zero] at hsize₁
      omega
    · rw [Geometry.HasRest] at hhas
      have hbyte := hcopied.bytes (g.blocks * g.clustersblock) 0 le_rfl (by omega) hpos
      rw [Nat.add_zero, hplace, passByte, if_pos (Nat.mul_pos hpages hlen), Nat.zero_div,
        Nat.zero_mod, Nat.add_zero] at hbyte
      exact hbyte
  · have hnone := hhas
    rw [Geometry.HasRest] at hnone
    rw [Nat.sub_eq_zero_of_le (by omega)] at hok₂
    obtain ⟨rfl, rfl⟩ := Prod.mk.inj (Except.ok.inj hok₂)
    refine ⟨f₁, hholds, hbytes₁, fun hzero => ?_, fun h => absurd h hhas⟩
    rw [hzero, Nat.mul_zero] at hsize₁
    omega

/-- The pages of a block are pages of the card. -/
theorem pagesblock_lt (hcb : g.clustersblock ≠ 0) (hppc : g.pagesPerCluster ≠ 0)
    (hblocks : 99 ≤ g.blocks) :
    g.pagesblock < g.clustersPerCard.toNat * g.pagesPerCluster.toNat := by
  have hpages := Geometry.pagesPerCluster_pos hppc
  have hlt : g.pagesblock < (g.clustersblock + 1) * g.pagesPerCluster.toNat :=
    Nat.lt_mul_of_div_lt (Nat.lt_succ_self _) hpages
  have htwo : (g.clustersblock + 1) * g.pagesPerCluster.toNat ≤
      2 * g.clustersblock * g.pagesPerCluster.toNat := Nat.mul_le_mul_right _ (by omega)
  have hmany : 2 * g.clustersblock ≤ g.clustersPerCard.toNat :=
    (Nat.mul_le_mul_right _ (by omega)).trans Geometry.blocks_mul_le
  exact hlt.trans_le (htwo.trans (Nat.mul_le_mul_right _ hmany))

section Blocks

variable (hps : 0 < g.pagesize.toInt) (hppc : g.pagesPerCluster ≠ 0) (hcb : g.clustersblock ≠ 0)
  (hblocks : 99 ≤ g.blocks) (hsize : g.blockLen ≤ 16 * 1024 + 16)
  (hrest : g.HasRest → g.clusterSize.toNat ≤ 16 * 1024 + 16) (hwrap : g.NoWrap)

include hps hppc hcb hblocks hsize hrest hwrap

/-- A block that is written short: the next one begins in the middle of it. -/
theorem not_copiesWell_of_lt (hlt : g.blockLen < g.pagesblock * g.pageLen) : ¬CopiesWell g := by
  intro hall
  have hlen := Geometry.pageLen_pos hps
  have hfit := Geometry.pagesblock_mul_le hps
  have hpages := pagesblock_lt hcb hppc hblocks
  have hmark : g.blockLen / g.pageLen < g.pagesblock := (Nat.div_lt_iff_lt_mul hlen).mpr hlt
  generalize hw :
    ((markedCard g 0 0).page (g.blockLen / g.pageLen)).getD (g.blockLen % g.pageLen) 0 = w
  obtain ⟨f, hholds, hbytes, hzero, -⟩ := copied_blocks hall hps hppc hcb hblocks hsize hrest hwrap
    g.pagesblock (w + 1)
  by_cases hnone : g.blockLen = 0
  · have hroom := hholds.1
    rw [hzero hnone] at hroom
    have := Nat.mul_pos (show 0 < g.clustersPerCard.toNat * g.pagesPerCluster.toNat by omega) hlen
    omega
  · have hsmall : g.pagesblock ≤ 16384 := (Nat.le_mul_of_pos_right _ hlen).trans hfit
    have hbyte := hholds.getD_eq (p := g.blockLen / g.pageLen) (by omega)
      (Nat.mod_lt g.blockLen hlen)
    have hnext := hbytes 1 0 (by omega) (by omega)
    rw [Nat.add_zero, Nat.one_mul, passByte, if_pos (by omega), Nat.one_mul, Nat.zero_div,
      Nat.zero_mod, Nat.add_zero, Nat.mod_eq_of_lt (show g.pagesblock < 2 ^ 32 by omega),
      getD_page_markedCard (Nat.ne_zero_of_lt hmark) hlen] at hnext
    rw [Nat.div_add_mod', page_markedCard_of_ne hmark.ne, hnext, hw] at hbyte
    exact ne_add_one _ hbyte.symm

/-- A block that is written with bytes behind its pages. -/
theorem not_copiesWell_of_gt (hgt : g.pagesblock * g.pageLen < g.blockLen) : ¬CopiesWell g := by
  intro hall
  have hlen := Geometry.pageLen_pos hps
  have hpages := pagesblock_lt hcb hppc hblocks
  have hpos : g.pagesblock ≠ 0 := by
    intro hzero
    exact hcb (by rw [Geometry.clustersblock, hzero, Nat.zero_div])
  obtain ⟨f, hholds, hbytes, -, -⟩ := copied_blocks hall hps hppc hcb hblocks hsize hrest hwrap
    g.pagesblock ((superblockBuf g).getD (g.pagesblock * g.pageLen) 0 + 1)
  have hbyte := hholds.getD_eq hpages hlen
  have hstale := hbytes 0 (g.pagesblock * g.pageLen) (by omega) hgt
  rw [Nat.zero_mul, Nat.zero_add, passByte, if_neg (Nat.lt_irrefl _)] at hstale
  rw [Nat.add_zero, hstale, getD_page_markedCard hpos hlen] at hbyte
  exact ne_add_one _ hbyte

/-- Blocks that take up more pages than their clusters have, and clusters behind them that do not
follow. -/
theorem not_copiesWell_of_rest (heq : g.blockLen = g.pagesblock * g.pageLen) (hhas : g.HasRest)
    (hne : g.pagesblock ≠ g.clustersblock * g.pagesPerCluster.toNat)
    (hlt : g.blocks * g.pagesblock < g.clustersPerCard.toNat * g.pagesPerCluster.toNat) :
    ¬CopiesWell g := by
  intro hall
  have hlen := Geometry.pageLen_pos hps
  have hpos : 0 < g.pagesblock := by
    refine Nat.pos_of_ne_zero fun hzero => hcb ?_
    rw [Geometry.clustersblock, hzero, Nat.zero_div]
  have hpages := Geometry.pagesPerCluster_pos hppc
  have hcs : 0 < g.clusterSize.toNat := by
    refine Nat.pos_of_ne_zero fun hzero => ?_
    have hnone : g.blockLen = 0 := by rw [Geometry.blockLen, hzero, Nat.zero_mul, Nat.zero_mod]
    have := Nat.mul_pos hpos hlen
    omega
  obtain ⟨f, hholds, -, -, hfirst⟩ := copied_blocks hall hps hppc hcb hblocks hsize hrest hwrap
    (g.blocks * g.pagesblock) 1
  have hplace : g.blocks * g.blockLen = g.blocks * g.pagesblock * g.pageLen := by
    rw [heq, Nat.mul_assoc]
  have hsmall := blocks_mul_pagesblock_le hps hwrap heq
  have hless : g.blocks * g.clustersblock * g.pagesPerCluster.toNat <
      g.blocks * g.pagesblock := by
    rw [Nat.mul_assoc]
    refine Nat.mul_lt_mul_of_pos_left ?_ (by omega)
    exact lt_of_le_of_ne Geometry.clustersblock_mul_le hne.symm
  have hsome : 0 < g.blocks * g.clustersblock * g.pagesPerCluster.toNat :=
    Nat.mul_pos (Nat.mul_pos (by omega) (Nat.pos_of_ne_zero hcb)) hpages
  have hbyte := hholds.getD_eq hlt hlen
  rw [Nat.add_zero, ← hplace, hfirst hhas hcs, Nat.mod_eq_of_lt (by omega),
    getD_page_markedCard_zero (by omega) (by omega), getD_page_markedCard (by omega) hlen] at hbyte
  exact absurd hbyte (by decide)

end Blocks

/-- A page size below zero makes a block of very many pages. -/
theorem two_le_pagesblock (hps : g.pagesize.toInt < 0) (hcb : g.clustersblock ≠ 0) :
    2 ≤ g.pagesblock := by
  have hne : g.pagesblock ≠ 0 := by
    intro hzero
    exact hcb (by rw [Geometry.clustersblock, hzero, Nat.zero_div])
  obtain ⟨m, hm⟩ : ∃ m : ℕ, g.pagesize.toInt = -(m : ℤ) := ⟨g.pagesize.toInt.natAbs, by omega⟩
  have hdiv : Int.tdiv (16 * 1024) g.pagesize.toInt = -((16384 / m : ℕ) : ℤ) := by
    rw [hm, Int.tdiv_neg]
    rfl
  have hle : 16384 / m ≤ 16384 := Nat.div_le_self _ _
  rw [Geometry.pagesblock, hdiv] at hne ⊢
  generalize 16384 / m = q at *
  omega

theorem not_copiesWell_of_blocks (hps : g.pagesize.toInt ≠ 0) (hone : g.pagesize ≠ 1)
    (hppc : g.pagesPerCluster ≠ 0) (hcb : g.clustersblock ≠ 0) (hblocks : 99 ≤ g.blocks)
    (hnot : ¬g.CopiesBlocks) : ¬CopiesWell g := by
  by_cases hneg : g.pagesize.toInt < 0
  · intro hall
    have hlen : g.pageLen ≤ 16 * 1024 + 16 := by
      rw [Geometry.pageLen]
      omega
    refine (hall.marked hlen 0 0).2.1 ?_
    rw [copyCard_eq hps hppc hcb (.inr hblocks), opens_free, if_neg (by decide),
      copyLoop_outside_of_neg hneg (two_le_pagesblock hneg hcb) (by omega)]
    rfl
  have hpos : 0 < g.pagesize.toInt := by omega
  have hlen := Geometry.pageLen_pos hpos
  have hlen' := Geometry.pageLen_le hpos hcb
  have hfit := Geometry.pagesblock_mul_le hpos
  have hfit' := Geometry.pagesPerCluster_mul_le hpos hcb
  have hbuf := length_superblockBuf g
  by_cases hsize : 16 * 1024 + 16 < g.blockLen
  · intro hall
    refine (hall.marked (by omega) 0 0).2.1 ?_
    rw [copyCard_eq hps hppc hcb (.inr hblocks), opens_free, if_neg (by decide),
      copyLoop_outside (Geometry.pagesize_eq hpos) hlen (length_page_markedCard g 0 0)
        (fun _ => rfl) (by omega) (by omega) (by rw [← Geometry.blockLen]; omega) (by omega)]
    rfl
  by_cases hlarge : g.HasRest ∧ 16 * 1024 + 16 < g.clusterSize.toNat
  · intro hall
    obtain ⟨hhas, hcs⟩ := hlarge
    rw [Geometry.HasRest] at hhas
    obtain ⟨⟨buf, f⟩, hok, hbuf'⟩ := copyLoop_ok (n := g.blocks) (i := 0) (f := .empty)
      (Geometry.pagesize_eq hpos) hlen (length_page_markedCard g 0 0) (fun _ => rfl)
      (show g.pagesblock * g.pageLen ≤ (superblockBuf g).length by omega) (by omega)
      (by rw [← Geometry.blockLen]; omega)
    have hbuf' : buf.length = 16 * 1024 + 16 := hbuf'.trans hbuf
    refine (hall.marked (by omega) 0 0).2.1 ?_
    rw [copyCard_eq hps hppc hcb (.inr hblocks), opens_free, if_neg (by decide), hok, bind_ok,
      copyLoop_outside (Geometry.pagesize_eq hpos) hlen (length_page_markedCard g 0 0)
        (fun _ => rfl) (by dsimp only; omega) (by dsimp only; omega)
        (by rw [clusterLen_eq]; dsimp only; omega) (by omega)]
    rfl
  have hrest : g.HasRest → g.clusterSize.toNat ≤ 16 * 1024 + 16 := by
    intro hhas
    by_contra hlt
    exact hlarge ⟨hhas, by omega⟩
  by_cases hwrap : g.NoWrap
  · obtain hlt | heq | hgt := Nat.lt_trichotomy g.blockLen (g.pagesblock * g.pageLen)
    · exact not_copiesWell_of_lt hpos hppc hcb hblocks (by omega) hrest hwrap hlt
    · by_cases hshape : g.HasRest ∧ g.pagesblock ≠ g.clustersblock * g.pagesPerCluster.toNat ∧
          g.blocks * g.pagesblock < g.clustersPerCard.toNat * g.pagesPerCluster.toNat
      · exact not_copiesWell_of_rest hpos hppc hcb hblocks (by omega) hrest hwrap heq hshape.1
          hshape.2.1 hshape.2.2
      · refine absurd ⟨hblocks, hpos, by omega, hrest, hwrap, heq, fun hhas => ?_⟩ hnot
        by_contra hneither
        obtain ⟨hne, hlt⟩ := not_or.mp hneither
        exact hshape ⟨hhas, hne, by omega⟩
    · exact not_copiesWell_of_gt hpos hppc hcb hblocks (by omega) hrest hwrap hgt
  · have htwo : 2 ≤ g.pageLen := by
      by_contra hlt
      refine hone (Int16.toInt_inj.mp ?_)
      have hpsEq := Geometry.pagesize_eq hpos
      show g.pagesize.toInt = 1
      omega
    exact not_copiesWell_of_wrap hpos hppc hcb hblocks (by omega) hrest htwo hwrap

theorem CopiesWell.copyable (hall : CopiesWell g) (hone : g.pagesize ≠ 1) : g.Copyable := by
  by_contra hnot
  by_cases hzero : g.pagesize.toInt = 0 ∨ g.pagesPerCluster = 0 ∨ g.clustersblock = 0
  · exact not_copiesWell_of_zero hzero hall
  · obtain ⟨hps, hppc, hcb⟩ : g.pagesize.toInt ≠ 0 ∧ g.pagesPerCluster ≠ 0 ∧
        g.clustersblock ≠ 0 := by simpa only [not_or] using hzero
    have hcard : g.clustersPerCard ≠ 0 := fun h => hnot ⟨hps, hppc, hcb, .inl h⟩
    have hclusters : ¬g.CopiesClusters := fun h => hnot ⟨hps, hppc, hcb, .inr (.inl h)⟩
    have hmany : ¬g.CopiesBlocks := fun h => hnot ⟨hps, hppc, hcb, .inr (.inr h)⟩
    by_cases hnone : g.blocks = 0
    · exact not_copiesWell_of_clusters hps hppc hcb hcard hnone hclusters hall
    · by_cases hfew : g.blocks < 99
      · have hlen : g.pageLen ≤ 16 * 1024 + 16 := by
          by_cases hpos : 0 < g.pagesize.toInt
          · have := Geometry.pageLen_le hpos hcb
            omega
          · rw [Geometry.pageLen]
            omega
        exact not_copiesWell_of_few hlen hzero hnone hfew hall
      · exact not_copiesWell_of_blocks hps hone hppc hcb (by omega) hmany hall

end Marked

/-- **Which cards are copied well.** The copy is as it should be for every superblock whose geometry
is copyable, and, unless a page has one byte, only for these. -/
theorem copiesWell (g : Geometry) :
    (g.Copyable → CopiesWell g) ∧ (g.pagesize ≠ 1 → (CopiesWell g ↔ g.Copyable)) :=
  ⟨copiesWell_of_copyable, fun hone => ⟨fun hall => hall.copyable hone, copiesWell_of_copyable⟩⟩

/-- A card of 8 MB. -/
def standardCard : Geometry := ⟨512, 2, 1024, 8192⟩

theorem copiesWell_standardCard :
    CopiesWell standardCard ∧ ∃ f, vmcMccopy .free (markedCard standardCard 5 7)
      (superblockBuf standardCard) = .ok f := by
  have hhas : ¬standardCard.HasRest := show ¬512 * 16 < 8192 by decide
  have hnone : standardCard.HasRest → standardCard.clusterSize.toNat ≤ 16 * 1024 + 16 :=
    fun h => absurd h hhas
  refine ⟨((copiesWell standardCard).2 (by decide)).mpr ?_, ?_⟩
  · exact ⟨by decide, by decide, by decide, .inr (.inr ⟨by decide, by decide, by decide, hnone,
      ⟨by decide, fun h => absurd h hhas⟩, by decide, fun h => absurd h hhas⟩)⟩
  · obtain ⟨-, -, -, f, -, -, -, hok, -⟩ := copyCard_free (g := standardCard) (by decide)
      (by decide) (by decide) (by decide) (by decide) hnone 5 7
    exact ⟨f, (vmcMccopy_markedCard (by decide)).trans hok⟩

/-- A card of 1 MB: 64 blocks, so that the progress is divided by zero. -/
def smallCard : Geometry := ⟨512, 2, 1024, 1024⟩

theorem not_copiesWell_smallCard : ¬CopiesWell smallCard :=
  not_copiesWell_of_few (by decide) (by decide) (by decide) (by decide)

/-- A card whose last write crosses 2 GB, with clusters that are shorter than a page. -/
example : ¬Geometry.Copyable ⟨16384, 1, 16000, 134218⟩ := by
  rintro ⟨-, -, -, hzero | ⟨hnone, -⟩ | ⟨-, -, -, -, -, hblock, -⟩⟩
  · exact absurd hzero (by decide)
  · exact absurd hnone (by decide)
  · exact absurd hblock (by decide)

end Vmc

end OpenPS2Loader
