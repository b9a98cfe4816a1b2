import Mathlib.Data.Nat.Find
import OpenPS2Loader.Vmc.Copy

/-!
# Memory cards of more than 4 GB

The offset of a write has 32 bits. A write that should begin at 4 GB or behind it begins a new lap
of the file, and the pages that are there are lost. So the file does not hold the card, unless a
page has one byte only.

What a copy gets wrong is shown by cards whose pages are zero, apart from one of them.

## Main definitions

* `Vmc.markedCard` — the card with one page that differs

## Main results

* `Vmc.copyLoop_frame`, `Vmc.copyLoop_first` — what a copy loop leaves of the file, whatever the lap
* `Vmc.not_copiesWell_of_wrap`
-/

namespace OpenPS2Loader

namespace Vmc

/-! ### Cards with one page that differs -/

/-- A superblock with this geometry, and zeros behind it. -/
def superblockOf (g : Geometry) : List UInt8 :=
  superblockMagic ++ List.replicate 12 0 ++ Bytes.toLe 2 g.pagesize.toUInt16.toNat ++
    Bytes.toLe 2 g.pagesPerCluster.toNat ++ List.replicate 4 0 ++
    Bytes.toLe 4 g.clustersPerCard.toNat ++ List.replicate 288 0 ++
    Bytes.toLe 4 g.clusterSize.toNat ++ List.replicate 33000 0

theorem length_superblockOf (g : Geometry) : (superblockOf g).length = 33344 := by
  simp only [superblockOf, List.length_append, List.length_replicate, Bytes.length_toLe]
  rfl

/-- A buffer that starts with the superblock has its geometry. -/
theorem geometryOf_superblockOf (g : Geometry) {m : ℕ} (hm : 344 ≤ m) :
    geometryOf ((superblockOf g).take m) = g := by
  have hfield : ∀ {a b c : List UInt8} {p n : ℕ}, superblockOf g = a ++ (b ++ c) → a.length = p →
      b.length = n → p + n ≤ m → Bytes.field ((superblockOf g).take m) p n = b := by
    intro a b c p n heq ha hb hle
    rw [Bytes.field_take _ hle, Bytes.field, heq, List.drop_left' ha, List.take_left' hb]
  have hassoc : superblockOf g = superblockMagic ++ (List.replicate 12 0 ++
      (Bytes.toLe 2 g.pagesize.toUInt16.toNat ++ (Bytes.toLe 2 g.pagesPerCluster.toNat ++
      (List.replicate 4 0 ++ (Bytes.toLe 4 g.clustersPerCard.toNat ++ (List.replicate 288 0 ++
      (Bytes.toLe 4 g.clusterSize.toNat ++ List.replicate 33000 0))))))) := by
    simp only [superblockOf, List.append_assoc]
  have hpagesize : Bytes.field ((superblockOf g).take m) 40 2 =
      Bytes.toLe 2 g.pagesize.toUInt16.toNat :=
    hfield (a := superblockMagic ++ List.replicate 12 0) (by rw [hassoc]; rfl) rfl
      (Bytes.length_toLe _ _) (by omega)
  have hpages : Bytes.field ((superblockOf g).take m) 42 2 =
      Bytes.toLe 2 g.pagesPerCluster.toNat :=
    hfield (a := superblockMagic ++ (List.replicate 12 0 ++
      Bytes.toLe 2 g.pagesize.toUInt16.toNat)) (by rw [hassoc]; rfl) rfl
      (Bytes.length_toLe _ _) (by omega)
  have hcard : Bytes.field ((superblockOf g).take m) 48 4 =
      Bytes.toLe 4 g.clustersPerCard.toNat :=
    hfield (a := superblockMagic ++ (List.replicate 12 0 ++
      (Bytes.toLe 2 g.pagesize.toUInt16.toNat ++ (Bytes.toLe 2 g.pagesPerCluster.toNat ++
        List.replicate 4 0)))) (by rw [hassoc]; rfl) rfl (Bytes.length_toLe _ _) (by omega)
  have hcluster : Bytes.field ((superblockOf g).take m) 340 4 =
      Bytes.toLe 4 g.clusterSize.toNat :=
    hfield (a := superblockMagic ++ (List.replicate 12 0 ++
      (Bytes.toLe 2 g.pagesize.toUInt16.toNat ++ (Bytes.toLe 2 g.pagesPerCluster.toNat ++
        (List.replicate 4 0 ++ (Bytes.toLe 4 g.clustersPerCard.toNat ++
          List.replicate 288 0)))))) (by rw [hassoc]; rfl)
      (by simp only [List.length_append, List.length_replicate, Bytes.length_toLe]; rfl)
      (Bytes.length_toLe _ _) (by omega)
  rw [geometryOf, hpagesize, hpages, hcard, hcluster, Bytes.ofLe_toLe g.pagesize.toUInt16.toNat_lt,
    Bytes.ofLe_toLe g.pagesPerCluster.toNat_lt, Bytes.ofLe_toLe g.clusterSize.toNat_lt,
    Bytes.ofLe_toLe g.clustersPerCard.toNat_lt]
  simp

/-- The buffer that has the superblock in it, and zeros. -/
def superblockBuf (g : Geometry) : List UInt8 := (superblockOf g).take (16 * 1024 + 16)

/-- A card with the superblock on page 0, `v` everywhere on page `k`, and zeros on the others. -/
def markedCard (g : Geometry) (k : ℕ) (v : UInt8) : MemCard where
  detect := 0
  cardType := 2
  page p :=
    if p = 0 then (superblockOf g).take g.pageLen
    else List.replicate g.pageLen (if p = k then v else 0)
  reads _ := true

section Marked

variable {g : Geometry} {k : ℕ} {v : UInt8}

theorem pageLen_lt (g : Geometry) : g.pageLen < 32768 := by
  have := g.pagesize.toInt_lt
  rw [Geometry.pageLen]
  omega

theorem reads_markedCard {p : ℕ} : (markedCard g k v).reads p = true := rfl

theorem length_page_markedCard (g : Geometry) (k : ℕ) (v : UInt8) (p : ℕ) :
    ((markedCard g k v).page p).length = g.pageLen := by
  show (if p = 0 then _ else _ : List UInt8).length = _
  split
  · have := pageLen_lt g
    rw [List.length_take, length_superblockOf]
    omega
  · exact List.length_replicate

/-- The pages apart from page `k` do not depend on what is on it. -/
theorem page_markedCard_of_ne {p : ℕ} (hp : p ≠ k) :
    (markedCard g k v).page p = (markedCard g 0 0).page p := by
  show (if p = 0 then _ else _ : List UInt8) = if p = 0 then _ else _
  rw [if_neg hp, ite_self]

theorem getD_page_markedCard {b : ℕ} (hk : k ≠ 0) (hb : b < g.pageLen) :
    ((markedCard g k v).page k).getD b 0 = v := by
  show (if k = 0 then _ else _ : List UInt8).getD b 0 = v
  rw [if_neg hk, if_pos rfl, List.getD_eq_getElem?_getD, List.getElem?_replicate, if_pos hb]
  rfl

theorem getD_page_markedCard_zero {p b : ℕ} (hp : p ≠ 0) (hne : p ≠ k) :
    ((markedCard g k v).page p).getD b 0 = 0 := by
  show (if p = 0 then _ else _ : List UInt8).getD b 0 = 0
  rw [if_neg hp, if_neg hne, List.getD_eq_getElem?_getD, List.getElem?_replicate]
  split <;> rfl

theorem overwrite_superblockBuf (g : Geometry) (k : ℕ) (v : UInt8) :
    Bytes.overwrite (superblockBuf g) 0 ((markedCard g k v).page 0) =
      (superblockOf g).take (max (16 * 1024 + 16) g.pageLen) := by
  have hlen := length_page_markedCard g k v 0
  have hpage : (markedCard g k v).page 0 = (superblockOf g).take g.pageLen := rfl
  rw [Bytes.overwrite, hlen, hpage, superblockBuf, List.take_zero, List.nil_append, Nat.zero_add,
    List.drop_take]
  by_cases hle : g.pageLen ≤ 16 * 1024 + 16
  · rw [Nat.max_eq_left hle]
    conv_rhs => rw [← Nat.add_sub_cancel' hle, List.take_add]
  · rw [Nat.max_eq_right (by omega), Nat.sub_eq_zero_of_le (by omega), List.take_zero,
      List.append_nil]

theorem hasSuperblock_markedCard (g : Geometry) (k : ℕ) (v : UInt8) :
    HasSuperblock (markedCard g k v) (superblockBuf g) g := by
  refine ⟨?_, length_page_markedCard g k v, ?_, ?_⟩
  · rw [superblockBuf, List.length_take, length_superblockOf]
    rfl
  · rw [overwrite_superblockBuf, List.take_take, Nat.min_eq_left (by omega)]
    simp only [superblockOf, List.append_assoc]
    exact List.take_left' rfl
  · rw [overwrite_superblockBuf]
    exact geometryOf_superblockOf g (by omega)

/-- The call for such a card. -/
theorem vmcMccopy_markedCard (hlen : g.pageLen ≤ 16 * 1024 + 16) :
    vmcMccopy .free (markedCard g k v) (superblockBuf g) =
      copyCard .free (markedCard g k v) g (superblockBuf g) := by
  have hsuper := hasSuperblock_markedCard g k v
  obtain ⟨-, heq⟩ := vmcMccopy_eq hsuper hlen
  have hbuf := overwrite_superblockBuf g k v
  rw [Nat.max_eq_left hlen, ← superblockBuf] at hbuf
  rw [heq, hbuf]
  rfl

theorem length_superblockBuf (g : Geometry) : (superblockBuf g).length = 16 * 1024 + 16 :=
  (hasSuperblock_markedCard g 0 0).length_buf

/-- What a copy that goes well does with such a card. -/
theorem CopiesWell.marked (h : CopiesWell g) (hlen : g.pageLen ≤ 16 * 1024 + 16) (k : ℕ)
    (v : UInt8) :
    copyCard .free (markedCard g k v) g (superblockBuf g) ≠ .error .divided ∧
      copyCard .free (markedCard g k v) g (superblockBuf g) ≠ .error .outside ∧
      ∀ f, copyCard .free (markedCard g k v) g (superblockBuf g) = .ok f →
        Holds f (markedCard g k v) g.pageLen
          (g.clustersPerCard.toNat * g.pagesPerCluster.toNat) := by
  have hall := h .free (markedCard g k v) (superblockBuf g)
    (hasSuperblock_markedCard g k v)
  rw [vmcMccopy_markedCard hlen] at hall
  exact hall

/-- A byte of a page in the file. -/
theorem Holds.getD_eq {card : MemCard} {f : VmcFile} {len n p b : ℕ} (h : Holds f card len n)
    (hp : p < n) (hb : b < len) : f.bytes (p * len + b) = (card.page p).getD b 0 := by
  rw [← h.2 p hp, Bytes.slice, List.getD_eq_getElem?_getD, List.getElem?_map,
    List.getElem?_range hb]
  rfl

theorem ne_add_one (x : UInt8) : x ≠ x + 1 := by
  intro h
  have := congrArg UInt8.toNat h
  rw [UInt8.toNat_add] at this
  have hlt := x.toNat_lt
  simp at this
  omega

/-- Page `q` has been written where another page belongs. -/
theorem not_copiesWell_of_byte {o q : ℕ} (hlen : 0 < g.pageLen) (hlen' : g.pageLen ≤ 16 * 1024 + 16)
    (hq : q ≠ 0) (hne : o / g.pageLen ≠ q)
    (hlt : o / g.pageLen < g.clustersPerCard.toNat * g.pagesPerCluster.toNat)
    (h : ∀ k v, ∃ f, copyCard .free (markedCard g k v) g (superblockBuf g) = .ok f ∧
      f.bytes o = ((markedCard g k v).page q).getD 0 0) : ¬CopiesWell g := by
  intro hall
  generalize hw : ((markedCard g 0 0).page (o / g.pageLen)).getD (o % g.pageLen) 0 = w
  obtain ⟨f, hok, hbyte⟩ := h q (w + 1)
  have hplace := ((hall.marked hlen' q (w + 1)).2.2 f hok).getD_eq hlt (Nat.mod_lt o hlen)
  rw [Nat.div_add_mod', hbyte, getD_page_markedCard hq hlen, page_markedCard_of_ne hne,
    hw] at hplace
  exact ne_add_one _ hplace.symm

/-- The file is too short. -/
theorem not_copiesWell_of_size {f : VmcFile} (hlen' : g.pageLen ≤ 16 * 1024 + 16)
    (hok : copyCard .free (markedCard g 0 0) g (superblockBuf g) = .ok f)
    (hlt : f.size < g.clustersPerCard.toNat * g.pagesPerCluster.toNat * g.pageLen) :
    ¬CopiesWell g := fun hall =>
  absurd ((hall.marked hlen' 0 0).2.2 f hok).1 (Nat.not_le.mpr hlt)

end Marked

/-! ### Copy loops in any lap of the file -/

section Laps

variable {host : Host} {card : MemCard} {g : Geometry} {pages dup n i t x size : ℕ}
  {buf buf' : List UInt8} {f f' : VmcFile}

/-- What a loop leaves: the buffer is as long, the file is not longer than 4 GB and a write, and the
position is right for the next pass. -/
theorem copyLoop_after (hps : g.pagesize.toInt = g.pageLen) (hlen : 0 < g.pageLen)
    (hpage : ∀ p, (card.page p).length = g.pageLen) (hfit : pages * g.pageLen ≤ buf.length)
    (hbuf : buf.length < 2 ^ 31) (hcs : g.clusterSize.toNat * dup % 2 ^ 32 = size)
    (hat : AtPass size f i) (h : copyLoop host card g pages dup n i buf f = .ok (buf', f')) :
    buf'.length = buf.length ∧ f'.size ≤ max f.size (2 ^ 32 + size) ∧ AtPass size f' (i + n) := by
  induction n generalizing i buf f with
  | zero =>
    cases h
    exact ⟨rfl, Nat.le_max_left _ _, hat⟩
  | succ n ih =>
    subst hcs
    obtain ⟨buf₁, hlength, -, hsize, hrest⟩ :=
      copyLoop_succ_eq_ok hps hlen hpage hfit (by omega) hat h
    have htake := List.length_take_of_le hsize
    obtain ⟨hlength', hsize', hat'⟩ := ih (by rw [hlength]; exact hfit)
      (by rw [hlength]; exact hbuf) (atPass_put (by omega) htake) hrest
    have hput := VmcFile.size_put_le f (i * (g.clusterSize.toNat * dup % 2 ^ 32) % 2 ^ 32)
      (buf₁.take (g.clusterSize.toNat * dup % 2 ^ 32))
    rw [htake] at hput
    refine ⟨hlength'.trans hlength, ?_, ?_⟩
    · have hplace : i * (g.clusterSize.toNat * dup % 2 ^ 32) % 2 ^ 32 < 2 ^ 32 :=
        Nat.mod_lt _ (by decide)
      omega
    · rwa [show i + (n + 1) = i + 1 + n by omega]

/-- A byte that no pass writes. -/
theorem copyLoop_frame (hps : g.pagesize.toInt = g.pageLen) (hlen : 0 < g.pageLen)
    (hpage : ∀ p, (card.page p).length = g.pageLen) (hfit : pages * g.pageLen ≤ buf.length)
    (hbuf : buf.length < 2 ^ 31) (hcs : g.clusterSize.toNat * dup % 2 ^ 32 = size)
    (hat : AtPass size f i) (hx : ∀ t, i ≤ t → t < i + n → x < t * size % 2 ^ 32)
    (h : copyLoop host card g pages dup n i buf f = .ok (buf', f')) : f'.bytes x = f.bytes x := by
  induction n generalizing i buf f with
  | zero =>
    cases h
    rfl
  | succ n ih =>
    subst hcs
    obtain ⟨buf₁, hlength, -, hsize, hrest⟩ :=
      copyLoop_succ_eq_ok hps hlen hpage hfit (by omega) hat h
    have htake := List.length_take_of_le hsize
    rw [ih (by rw [hlength]; exact hfit) (by rw [hlength]; exact hbuf)
      (atPass_put (by omega) htake) (fun t ht ht' => hx t (by omega) (by omega)) hrest]
    exact VmcFile.bytes_put_of_apart (.inl (hx i le_rfl (by omega)))

/-- The first byte of a pass, where all passes behind it write behind it: it is the first one of its
first page. -/
theorem copyLoop_first (hps : g.pagesize.toInt = g.pageLen) (hlen : 0 < g.pageLen)
    (hpage : ∀ p, (card.page p).length = g.pageLen) (hpages : 0 < pages)
    (hfit : pages * g.pageLen ≤ buf.length) (hbuf : buf.length < 2 ^ 31)
    (hcs : g.clusterSize.toNat * dup % 2 ^ 32 = size) (hsize : 0 < size) (hat : AtPass size f i)
    (hi : i ≤ t) (ht : t < i + n)
    (hlater : ∀ t', t < t' → t' < i + n → t * size % 2 ^ 32 < t' * size % 2 ^ 32)
    (h : copyLoop host card g pages dup n i buf f = .ok (buf', f')) :
    f'.bytes (t * size % 2 ^ 32) = (card.page (t * pages % 2 ^ 32)).getD 0 0 := by
  induction n generalizing i buf f with
  | zero => omega
  | succ n ih =>
    subst hcs
    obtain ⟨buf₁, hlength, hbytes, hle, hrest⟩ :=
      copyLoop_succ_eq_ok hps hlen hpage hfit (by omega) hat h
    have htake := List.length_take_of_le hle
    have hfit' : pages * g.pageLen ≤ buf₁.length := by rwa [hlength]
    have hat' := atPass_put (f := f) (i := i) (by omega) htake
    rcases Nat.lt_or_eq_of_le hi with hlt | rfl
    · exact ih hfit' (by omega) hat' hlt (by omega)
        (fun t' h₁ h₂ => hlater t' h₁ (by omega)) hrest
    · rw [copyLoop_frame hps hlen hpage hfit' (by omega) rfl hat'
        (fun t' h₁ h₂ => hlater t' h₁ (by omega)) hrest]
      have hbyte := VmcFile.bytes_put (f := f)
        (p := i * (g.clusterSize.toNat * dup % 2 ^ 32) % 2 ^ 32) (q := 0)
        (d := buf₁.take (g.clusterSize.toNat * dup % 2 ^ 32)) (by omega)
      rw [Nat.add_zero] at hbyte
      rw [hbyte, List.getD_eq_getElem?_getD, List.getElem?_take_of_lt hsize,
        ← List.getD_eq_getElem?_getD, hbytes, passByte, if_pos (Nat.mul_pos hpages hlen),
        Nat.zero_div, Nat.zero_mod, Nat.add_zero]

/-- The first pass from `a` on whose write should begin at `m` or behind it. -/
theorem exists_first {a b m : ℕ} (hab : a ≤ b) (hm : m ≤ b * size) :
    ∃ t, a ≤ t ∧ t ≤ b ∧ m ≤ t * size ∧ (t = a ∨ t * size < m + size) := by
  have hex : ∃ t, a ≤ t ∧ m ≤ t * size := ⟨b, hab, hm⟩
  obtain ⟨hle, hge⟩ := Nat.find_spec hex
  refine ⟨Nat.find hex, hle, Nat.find_min' hex ⟨hab, hm⟩, hge, ?_⟩
  generalize hfind : Nat.find hex = t at *
  rcases Nat.lt_or_eq_of_le hle with hlt | heq
  · have hbefore := Nat.find_min hex (m := t - 1) (by omega)
    have hprev : (t - 1) * size < m := by
      by_contra hnot
      exact hbefore ⟨by omega, by omega⟩
    have hsucc : t * size = (t - 1) * size + size := by
      rw [← Nat.succ_mul]
      congr 1
      omega
    exact .inr (by omega)
  · exact .inl heq.symm

end Laps

/-! ### Cards that are copied to a second lap -/

section Wrap

variable {g : Geometry} {k : ℕ} {v : UInt8}

theorem Geometry.clustersPerCard_pos (hcard : g.clustersPerCard ≠ 0) :
    0 < g.clustersPerCard.toNat := by
  refine Nat.pos_of_ne_zero fun hzero => hcard ?_
  exact UInt32.toNat_inj.mp hzero

theorem Geometry.pagesPerCluster_pos (hppc : g.pagesPerCluster ≠ 0) :
    0 < g.pagesPerCluster.toNat := by
  refine Nat.pos_of_ne_zero fun hzero => hppc ?_
  exact UInt16.toNat_inj.mp hzero

/-- A page of a block and more is in the clusters of the block twice over. -/
theorem pagesblock_lt_two_mul (hppc : g.pagesPerCluster ≠ 0) (hcb : g.clustersblock ≠ 0) :
    g.pagesblock < 2 * (g.clustersblock * g.pagesPerCluster.toNat) := by
  have hlt : g.pagesblock < (g.clustersblock + 1) * g.pagesPerCluster.toNat :=
    Nat.lt_mul_of_div_lt (Nat.lt_succ_self _) (Geometry.pagesPerCluster_pos hppc)
  rw [← Nat.mul_assoc]
  exact hlt.trans_le (Nat.mul_le_mul_right _ (by omega))

/-- A lap of small writes begins behind many of them. -/
theorem lt_of_lap {t size : ℕ} (hsize : size ≤ 16 * 1024 + 16) (h : 2 ^ 32 ≤ t * size) :
    16 * 1024 + 16 < t := by
  by_contra hle
  have hmul : t * size ≤ (16 * 1024 + 16) * (16 * 1024 + 16) := Nat.mul_le_mul (by omega) hsize
  omega

/-- The write `r` begins a lap: its first page is not the one that belongs there, or its number has
more than 32 bits, and the card more bytes than the file. -/
theorem not_copiesWell_of_lap {p o r : ℕ} (htwo : 2 ≤ g.pageLen)
    (hlen' : g.pageLen ≤ 16 * 1024 + 16) (ho : o ≤ 16 * 1024 + 16) (hr : 16 * 1024 + 16 < r)
    (hpages : 0 < p) (hlt : r < g.clustersPerCard.toNat * g.pagesPerCluster.toNat)
    (hlong : 2 ^ 32 ≤ r * p → 2 ^ 32 + (16 * 1024 + 16) <
      g.clustersPerCard.toNat * g.pagesPerCluster.toNat * g.pageLen)
    (h : ∀ k v, ∃ f, copyCard .free (markedCard g k v) g (superblockBuf g) = .ok f ∧
      f.size ≤ 2 ^ 32 + (16 * 1024 + 16) ∧
      f.bytes o = ((markedCard g k v).page (r * p % 2 ^ 32)).getD 0 0) : ¬CopiesWell g := by
  have hdiv : o / g.pageLen ≤ o := Nat.div_le_self _ _
  by_cases hwrap : 2 ^ 32 ≤ r * p
  · obtain ⟨f, hok, hsize, -⟩ := h 0 0
    exact not_copiesWell_of_size hlen' hok (hsize.trans_lt (hlong hwrap))
  · have hle : r ≤ r * p := Nat.le_mul_of_pos_right _ hpages
    rw [Nat.mod_eq_of_lt (Nat.not_le.mp hwrap)] at h
    refine not_copiesWell_of_byte (o := o) (q := r * p) (by omega) hlen' (by omega) (by omega)
      (by omega) fun k v => ?_
    obtain ⟨f, hok, -, hbyte⟩ := h k v
    exact ⟨f, hok, hbyte⟩

variable (hps : 0 < g.pagesize.toInt) (hppc : g.pagesPerCluster ≠ 0) (hcb : g.clustersblock ≠ 0)
  (hblocks : 99 ≤ g.blocks) (hsize : g.blockLen ≤ 16 * 1024 + 16)
  (hrest : g.HasRest → g.clusterSize.toNat ≤ 16 * 1024 + 16)

include hps hppc hcb hblocks hsize hrest

/-- The two loops of a copy by a free host. -/
theorem copyCard_free (k : ℕ) (v : UInt8) :
    ∃ buf₁ f₁ buf₂ f, buf₁.length = 16 * 1024 + 16 ∧
      copyLoop .free (markedCard g k v) g g.pagesblock g.clustersblock g.blocks 0
        (superblockBuf g) .empty = .ok (buf₁, f₁) ∧
      copyLoop .free (markedCard g k v) g g.pagesPerCluster.toNat 1
        (g.clustersPerCard.toNat - g.blocks * g.clustersblock) (g.blocks * g.clustersblock)
        buf₁ f₁ = .ok (buf₂, f) ∧
      copyCard .free (markedCard g k v) g (superblockBuf g) = .ok f ∧
      f.size ≤ 2 ^ 32 + (16 * 1024 + 16) ∧
      (g.HasRest → AtPass g.clusterSize.toNat f₁ (g.blocks * g.clustersblock)) := by
  have hlen := Geometry.pageLen_pos hps
  have hfit := Geometry.pagesblock_mul_le hps
  have hfit' := Geometry.pagesPerCluster_mul_le hps hcb
  have hbuf := length_superblockBuf g
  have hpsEq := Geometry.pagesize_eq hps
  obtain ⟨⟨buf₁, f₁⟩, hok₁, hlen₁⟩ := copyLoop_ok (n := g.blocks) (i := 0) (f := .empty)
    hpsEq hlen (length_page_markedCard g k v) (fun _ => rfl)
    (show g.pagesblock * g.pageLen ≤ (superblockBuf g).length by omega) (by omega)
    (by rw [← Geometry.blockLen]; omega)
  have hlen₁ : buf₁.length = 16 * 1024 + 16 := hlen₁.trans hbuf
  have hloop : ∃ r, copyLoop .free (markedCard g k v) g g.pagesPerCluster.toNat 1
      (g.clustersPerCard.toNat - g.blocks * g.clustersblock) (g.blocks * g.clustersblock)
      buf₁ f₁ = .ok r := by
    by_cases hhas : g.HasRest
    · obtain ⟨r, hr, -⟩ := copyLoop_ok
        (n := g.clustersPerCard.toNat - g.blocks * g.clustersblock)
        (i := g.blocks * g.clustersblock) (f := f₁) hpsEq hlen (length_page_markedCard g k v)
        (fun _ => rfl) (show g.pagesPerCluster.toNat * g.pageLen ≤ buf₁.length by omega)
        (by omega) (by rw [clusterLen_eq, hlen₁]; exact hrest hhas)
      exact ⟨r, hr⟩
    · rw [Geometry.HasRest] at hhas
      rw [Nat.sub_eq_zero_of_le (by omega)]
      exact ⟨_, rfl⟩
  obtain ⟨⟨buf₂, f⟩, hok₂⟩ := hloop
  obtain ⟨-, hsize₁, hat₁⟩ := copyLoop_after hpsEq hlen (length_page_markedCard g k v)
    (by omega) (by omega) rfl (.inl (by rw [Nat.zero_mul]; rfl)) hok₁
  rw [← Geometry.blockLen] at hsize₁ hat₁
  have hempty : VmcFile.empty.size = 0 := rfl
  have hat : g.HasRest → AtPass g.clusterSize.toNat f₁ (g.blocks * g.clustersblock) := by
    intro hhas
    rw [AtPass, blockLen_eq hps (hrest hhas), Nat.zero_add, Nat.mul_comm g.clusterSize.toNat,
      ← Nat.mul_assoc] at hat₁
    exact hat₁
  refine ⟨buf₁, f₁, buf₂, f, hlen₁, hok₁, hok₂, ?_, ?_, hat⟩
  · rw [copyCard_eq (Int.ne_of_gt hps) hppc hcb (.inr hblocks), opens_free, if_neg (by decide),
      hok₁, bind_ok, hok₂]
    rfl
  · by_cases hhas : g.HasRest
    · have hcs := hrest hhas
      obtain ⟨-, hsize₂, -⟩ := copyLoop_after hpsEq hlen (length_page_markedCard g k v)
        (by omega) (by omega) clusterLen_eq (hat hhas) hok₂
      omega
    · rw [Geometry.HasRest] at hhas
      rw [Nat.sub_eq_zero_of_le (by omega)] at hok₂
      cases hok₂
      omega

/-- A lap that begins with a cluster behind the blocks. -/
theorem not_copiesWell_of_lap_rest (htwo : 2 ≤ g.pageLen) (hhas : g.HasRest) {m : ℕ} (hm : 0 < m)
    (hbefore : g.blocks * g.blockLen < 2 ^ 32 * m + g.blockLen)
    (hlap : 2 ^ 32 * m ≤ (g.clustersPerCard.toNat - 1) * g.clusterSize.toNat) : ¬CopiesWell g := by
  have hcs := hrest hhas
  have hlen' := Geometry.pageLen_le hps hcb
  have hpages := Geometry.pagesPerCluster_pos hppc
  have hblockLen := blockLen_eq hps hcs
  have hbound := mul_clustersblock_lt hps hcs
  have hhas' := hhas
  rw [Geometry.HasRest] at hhas
  obtain ⟨t, hge, hle, hstart, hfirst⟩ :=
    exists_first (show g.blocks * g.clustersblock ≤ g.clustersPerCard.toNat - 1 by omega) hlap
  -- the write is near the start of the file
  have hnear : t * g.clusterSize.toNat < 2 ^ 32 * m + (16 * 1024 + 16) := by
    rcases hfirst with rfl | hlt
    · rw [Nat.mul_assoc, Nat.mul_comm g.clustersblock, ← hblockLen]
      omega
    · omega
  have hmany := lt_of_lap hcs (Nat.le_trans (by omega) hstart)
  have hcspos : 0 < g.clusterSize.toNat := Nat.pos_of_mul_pos_left (show 0 < t * _ by omega)
  have hfew : g.clustersPerCard.toNat < g.blocks * g.clustersblock + g.clustersblock := by
    rw [← Nat.succ_mul]
    exact Nat.lt_mul_of_div_lt (Nat.lt_succ_self _) (Nat.pos_of_ne_zero hcb)
  have hlater : ∀ t', t < t' → t' < g.blocks * g.clustersblock +
      (g.clustersPerCard.toNat - g.blocks * g.clustersblock) →
      t * g.clusterSize.toNat % 2 ^ 32 < t' * g.clusterSize.toNat % 2 ^ 32 := by
    intro t' hlt hlt'
    obtain ⟨d, rfl⟩ : ∃ d, t' = t + (d + 1) := ⟨t' - t - 1, by omega⟩
    have hd : (d + 1) * g.clusterSize.toNat ≤ g.clusterSize.toNat * g.clustersblock := by
      rw [Nat.mul_comm]
      exact Nat.mul_le_mul_left _ (by omega)
    rw [← hblockLen] at hd
    rw [Nat.add_mul]
    have hone : (d + 1) * g.clusterSize.toNat = d * g.clusterSize.toNat + g.clusterSize.toNat :=
      Nat.succ_mul d _
    omega
  have hbyte : ∀ k v, ∃ f, copyCard .free (markedCard g k v) g (superblockBuf g) = .ok f ∧
      f.size ≤ 2 ^ 32 + (16 * 1024 + 16) ∧ f.bytes (t * g.clusterSize.toNat % 2 ^ 32) =
        ((markedCard g k v).page (t * g.pagesPerCluster.toNat % 2 ^ 32)).getD 0 0 := by
    intro k v
    obtain ⟨buf₁, f₁, buf₂, f, hlen₁, -, hok₂, hok, hsize', hat⟩ :=
      copyCard_free hps hppc hcb hblocks hsize hrest k v
    have hfit := Geometry.pagesPerCluster_mul_le hps hcb
    exact ⟨f, hok, hsize', copyLoop_first (Geometry.pagesize_eq hps) (Geometry.pageLen_pos hps)
      (length_page_markedCard g k v) hpages (by omega) (by omega) clusterLen_eq hcspos (hat hhas')
      hge (by omega) hlater hok₂⟩
  refine not_copiesWell_of_lap htwo (by omega) (r := t) (p := g.pagesPerCluster.toNat)
    (by omega) hmany hpages ?_ (fun hwrap => ?_) hbyte
  · exact (show t < g.clustersPerCard.toNat by omega).trans_le (Nat.le_mul_of_pos_right _ hpages)
  · have hall : t * g.pagesPerCluster.toNat * 2 ≤
        g.clustersPerCard.toNat * g.pagesPerCluster.toNat * g.pageLen :=
      Nat.mul_le_mul (Nat.mul_le_mul_right _ (by omega)) htwo
    omega

/-- A lap that begins with a block, and ends behind the clusters that are left. -/
theorem not_copiesWell_of_lap_blocks (htwo : 2 ≤ g.pageLen) {m : ℕ} (hm : 0 < m)
    (hlap : 2 ^ 32 * m ≤ (g.blocks - 1) * g.blockLen)
    (hbefore : (g.blocks - 1) * g.blockLen < 2 ^ 32 * (m + 1))
    (hnone : g.HasRest →
      (g.clustersPerCard.toNat - 1) * g.clusterSize.toNat < 2 ^ 32 * (m + 1)) :
    ¬CopiesWell g := by
  have hlen' := Geometry.pageLen_le hps hcb
  have hpages := Geometry.pagesPerCluster_pos hppc
  have hblock := pagesblock_lt_two_mul hppc hcb
  have hpos : 0 < g.pagesblock := by
    refine Nat.pos_of_ne_zero fun hzero => hcb ?_
    rw [Geometry.clustersblock, hzero, Nat.zero_div]
  obtain ⟨t, -, hle, hstart, hfirst⟩ := exists_first (Nat.zero_le (g.blocks - 1)) hlap
  have hnear : t * g.blockLen < 2 ^ 32 * m + (16 * 1024 + 16) := by
    rcases hfirst with rfl | hlt
    · omega
    · omega
  have hmany := lt_of_lap hsize (Nat.le_trans (by omega) hstart)
  have hspos : 0 < g.blockLen := Nat.pos_of_mul_pos_left (show 0 < t * _ by omega)
  have hlater : ∀ t', t < t' → t' < 0 + g.blocks →
      t * g.blockLen % 2 ^ 32 < t' * g.blockLen % 2 ^ 32 := by
    intro t' hlt hlt'
    have hnext : (t + 1) * g.blockLen ≤ t' * g.blockLen := Nat.mul_le_mul_right _ hlt
    have hlast : t' * g.blockLen ≤ (g.blocks - 1) * g.blockLen :=
      Nat.mul_le_mul_right _ (by omega)
    rw [Nat.succ_mul] at hnext
    omega
  have hbyte : ∀ k v, ∃ f, copyCard .free (markedCard g k v) g (superblockBuf g) = .ok f ∧
      f.size ≤ 2 ^ 32 + (16 * 1024 + 16) ∧ f.bytes (t * g.blockLen % 2 ^ 32) =
        ((markedCard g k v).page (t * g.pagesblock % 2 ^ 32)).getD 0 0 := by
    intro k v
    obtain ⟨buf₁, f₁, buf₂, f, hlen₁, hok₁, hok₂, hok, hsize', hat⟩ :=
      copyCard_free hps hppc hcb hblocks hsize hrest k v
    have hfit := Geometry.pagesblock_mul_le hps
    have hfit' := Geometry.pagesPerCluster_mul_le hps hcb
    have hbuf := length_superblockBuf g
    have hfirst := copyLoop_first (Geometry.pagesize_eq hps) (Geometry.pageLen_pos hps)
      (length_page_markedCard g k v) hpos (by omega) (by omega) rfl hspos
      (.inl (by rw [Nat.zero_mul]; rfl)) (Nat.zero_le t) (by omega) hlater hok₁
    refine ⟨f, hok, hsize', ?_⟩
    by_cases hhas : g.HasRest
    · rw [copyLoop_frame (Geometry.pagesize_eq hps) (Geometry.pageLen_pos hps)
        (length_page_markedCard g k v) (by omega) (by omega) clusterLen_eq (hat hhas)
        (fun t' hge hlt => ?_) hok₂]
      · exact hfirst
      · have hblockLen := blockLen_eq hps (hrest hhas)
        have hnone := hnone hhas
        have hnext : (t + 1) * g.blockLen ≤ g.blocks * g.blockLen :=
          Nat.mul_le_mul_right _ (by omega)
        have hstart' : g.blocks * g.blockLen ≤ t' * g.clusterSize.toNat := by
          rw [hblockLen, Nat.mul_comm g.clusterSize.toNat, ← Nat.mul_assoc]
          exact Nat.mul_le_mul_right _ hge
        have hlast : t' * g.clusterSize.toNat ≤
            (g.clustersPerCard.toNat - 1) * g.clusterSize.toNat :=
          Nat.mul_le_mul_right _ (by omega)
        rw [Nat.succ_mul] at hnext
        omega
    · rw [Geometry.HasRest] at hhas
      rw [Nat.sub_eq_zero_of_le (by omega)] at hok₂
      cases hok₂
      exact hfirst
  have hclusters : g.blocks * (g.clustersblock * g.pagesPerCluster.toNat) ≤
      g.clustersPerCard.toNat * g.pagesPerCluster.toNat := by
    rw [← Nat.mul_assoc]
    exact Nat.mul_le_mul_right _ Geometry.blocks_mul_le
  refine not_copiesWell_of_lap htwo (by omega) (r := t) (p := g.pagesblock) (by omega) hmany
    hpos ?_ (fun hwrap => ?_) hbyte
  · have hone : g.blocks * 1 ≤ g.blocks * (g.clustersblock * g.pagesPerCluster.toNat) :=
      Nat.mul_le_mul_left _ (by omega)
    omega
  · -- the pages of the blocks are less than twice as many as the ones of their clusters
    have hall : g.clustersPerCard.toNat * g.pagesPerCluster.toNat * 2 ≤
        g.clustersPerCard.toNat * g.pagesPerCluster.toNat * g.pageLen := Nat.mul_le_mul_left _ htwo
    have htwice : g.blocks * (g.pagesblock + 1) ≤
        g.blocks * (2 * (g.clustersblock * g.pagesPerCluster.toNat)) :=
      Nat.mul_le_mul_left _ hblock
    have hfront : t * g.pagesblock ≤ g.blocks * g.pagesblock := Nat.mul_le_mul_right _ (by omega)
    rw [Nat.mul_succ, Nat.mul_left_comm] at htwice
    omega

/-- **A card whose copy comes to the start of the file again** is not copied well. -/
theorem not_copiesWell_of_wrap (htwo : 2 ≤ g.pageLen) (hwrap : ¬g.NoWrap) : ¬CopiesWell g := by
  generalize hm : (g.blocks - 1) * g.blockLen / 2 ^ 32 = m
  have hlast : g.blocks * g.blockLen = (g.blocks - 1) * g.blockLen + g.blockLen := by
    rw [← Nat.succ_mul]
    congr 1
    omega
  by_cases hnext : g.HasRest ∧
      2 ^ 32 * (m + 1) ≤ (g.clustersPerCard.toNat - 1) * g.clusterSize.toNat
  · exact not_copiesWell_of_lap_rest hps hppc hcb hblocks hsize hrest htwo hnext.1
      (Nat.succ_pos m) (by omega) hnext.2
  · have hnone : g.HasRest →
        (g.clustersPerCard.toNat - 1) * g.clusterSize.toNat < 2 ^ 32 * (m + 1) :=
      fun hhas => Nat.not_le.mp fun hle => hnext ⟨hhas, hle⟩
    have hpos : 0 < m := by
      by_contra hzero
      refine hwrap ⟨by omega, fun hhas => ?_⟩
      have hlt := hnone hhas
      have hone : g.clustersPerCard.toNat * g.clusterSize.toNat =
          (g.clustersPerCard.toNat - 1) * g.clusterSize.toNat + g.clusterSize.toNat := by
        rw [Geometry.HasRest] at hhas
        rw [← Nat.succ_mul]
        congr 1
        omega
      rw [show m = 0 by omega] at hlt
      omega
    exact not_copiesWell_of_lap_blocks hps hppc hcb hblocks hsize hrest htwo hpos (by omega)
      (by omega) hnone

end Wrap

end Vmc

end OpenPS2Loader
