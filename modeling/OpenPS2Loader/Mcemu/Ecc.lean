import Mathlib.Data.Finset.Card
import Mathlib.Data.Fintype.Prod
import Mathlib.Data.List.Basic
import OpenPS2Loader.Mcemu.Mce

/-!
# The codes of the memory card

`CalculateECC` of `mcemu_sys.c` gives every 128 bytes of a page a code of three bytes. The first one
has parities of the bits of a byte, the others have parities of the numbers of the bytes that have
an odd number of bits set. Here the codes of two blocks are compared that differ in one bit or in
two.

## Main definitions

* `Mce.bitAt`, `Mce.DifferIn` — the bits in which two blocks differ
* `Mce.syndrome` — how the codes of two blocks differ

## Main results

* `Mce.calculateECC_flip` — what a bit does to the code
* `Mce.ecc_corrects_one_detects_two`
-/

namespace OpenPS2Loader

namespace Mce

/-- A bit of a block: the number of the byte, and that of the bit. -/
abbrev BitPos := Fin 128 × Fin 8

/-- The byte in which only the bit `k` is set. -/
def bitByte (k : Fin 8) : UInt8 := UInt8.ofNat (2 ^ k.val)

/-- A bit of a block. -/
def bitAt (block : Vector UInt8 128) (p : BitPos) : Bool := block[p.1].toNat.testBit p.2

/-- The blocks differ in the bits `s`, and in no others. -/
def DifferIn (block block' : Vector UInt8 128) (s : Finset BitPos) : Prop :=
  ∀ p, bitAt block p ≠ bitAt block' p ↔ p ∈ s

/-- A block with one bit changed. -/
def flipBit (block : Vector UInt8 128) (p : BitPos) : Vector UInt8 128 :=
  block.set p.1 (block[p.1] ^^^ bitByte p.2)

/-- Byte by byte. -/
def xorBytes (code code' : List UInt8) : List UInt8 := List.zipWith (· ^^^ ·) code code'

/-- How the codes of two blocks differ. -/
def syndrome (block block' : Vector UInt8 128) : List UInt8 :=
  xorBytes (calculateECC block.toList) (calculateECC block'.toList)

/-- What a bit contributes to the code. -/
def bitCode (p : BitPos) : List UInt8 :=
  [xorTable.getD (bitByte p.2).toNat 0 &&& 0x77, ~~~UInt8.ofNat p.1 &&& 0x7F,
    UInt8.ofNat p.1 &&& 0x7F]

/-! ### One bit -/

section Bits

variable {block block' : Vector UInt8 128} {p q : BitPos}

theorem testBit_bitByte (k : Fin 8) (n : ℕ) : (bitByte k).toNat.testBit n = decide (k.val = n) := by
  have htoNat : ∀ k : Fin 8, (bitByte k).toNat = 2 ^ k.val := by decide
  rw [htoNat, Nat.testBit_two_pow]

theorem bitAt_flip (block : Vector UInt8 128) (p q : BitPos) :
    bitAt (flipBit block p) q = (bitAt block q ^^ decide (p = q)) := by
  obtain ⟨i, k⟩ := p
  obtain ⟨j, l⟩ := q
  rw [bitAt, flipBit, bitAt]
  by_cases hij : i = j
  · subst hij
    have hset : (block.set i (block[i] ^^^ bitByte k))[i] = block[i] ^^^ bitByte k :=
      Vector.getElem_set_self i.isLt
    have hpair : ((i, k) = (i, l)) = (k.val = l.val) := by
      simp [Fin.ext_iff]
    rw [hset, UInt8.toNat_xor, Nat.testBit_xor, testBit_bitByte]
    simp only [hpair]
  · have hset : (block.set i (block[i] ^^^ bitByte k))[j] = block[j] :=
      Vector.getElem_set_ne i.isLt j.isLt fun h => hij (Fin.ext h)
    have hpair : ¬ (i, k) = (j, l) := fun h => hij (congrArg Prod.fst h)
    rw [hset, decide_eq_false hpair, Bool.xor_false]

/-- Blocks with the same bits. -/
theorem eq_of_bitAt (h : ∀ p, bitAt block p = bitAt block' p) : block = block' := by
  refine Vector.ext fun i hi => ?_
  refine UInt8.toNat_inj.mp (Nat.eq_of_testBit_eq fun k => ?_)
  by_cases hk : k < 8
  · exact h (⟨i, hi⟩, ⟨k, hk⟩)
  · have hhigh (x : UInt8) : x.toNat.testBit k = false := by
      refine Nat.testBit_lt_two_pow (x.toNat_lt.trans_le ?_)
      exact Nat.pow_le_pow_right Nat.two_pos (Nat.le_of_not_lt hk)
    rw [hhigh, hhigh]

theorem differIn_flip (block : Vector UInt8 128) (p : BitPos) :
    DifferIn block (flipBit block p) {p} := by
  intro q
  rw [bitAt_flip, Finset.mem_singleton]
  by_cases h : p = q
  · simp [h]
  · simp [h, Ne.symm h]

theorem differIn_flip_flip (block : Vector UInt8 128) (h : p ≠ q) :
    DifferIn block (flipBit (flipBit block p) q) {p, q} := by
  intro r
  rw [bitAt_flip, bitAt_flip, Finset.mem_insert, Finset.mem_singleton]
  by_cases hpr : p = r
  · have hqr : ¬ q = r := fun hqr => h (hpr.trans hqr.symm)
    simp [hpr, hqr]
  · by_cases hqr : q = r
    · simp [hqr, hpr]
    · simp [hpr, hqr, Ne.symm hpr, Ne.symm hqr]

theorem DifferIn.eq_flip (h : DifferIn block block' {p}) : block' = flipBit block p := by
  refine eq_of_bitAt fun q => ?_
  have hq := h q
  rw [Finset.mem_singleton] at hq
  rw [bitAt_flip]
  by_cases hpq : p = q
  · have hne := hq.mpr hpq.symm
    rw [decide_eq_true hpq, Bool.xor_true]
    exact (Bool.not_eq.mpr hne).symm
  · have heq := not_not.mp (mt hq.mp (Ne.symm hpq))
    rw [decide_eq_false hpq, Bool.xor_false, heq]

theorem DifferIn.eq_flip_flip (hne : p ≠ q) (h : DifferIn block block' {p, q}) :
    block' = flipBit (flipBit block p) q := by
  refine DifferIn.eq_flip fun r => ?_
  have hr := h r
  rw [Finset.mem_insert, Finset.mem_singleton] at hr
  rw [bitAt_flip, Finset.mem_singleton]
  by_cases hpr : p = r
  · have hqr : ¬ r = q := fun hrq => hne (hpr.trans hrq)
    have hbit := Bool.eq_not.mpr (hr.mpr (.inl hpr.symm))
    simp [hpr, hqr, hbit]
  · simpa [hpr, Ne.symm hpr] using hr

end Bits

/-! ### The code -/

/-- A changed bit changes the entry of the table, and its top bit. -/
theorem xorTable_flip (x : UInt8) (k : Fin 8) :
    xorTable.getD (x ^^^ bitByte k).toNat 0 =
        xorTable.getD x.toNat 0 ^^^ xorTable.getD (bitByte k).toNat 0 ∧
      (xorTable.getD (x ^^^ bitByte k).toNat 0 &&& 0x80 ≠ 0 ↔
        ¬ xorTable.getD x.toNat 0 &&& 0x80 ≠ 0) := by
  have hall : ∀ (n : Fin 256) (k : Fin 8),
      xorTable.getD (UInt8.ofFin n ^^^ bitByte k).toNat 0 =
          xorTable.getD (UInt8.ofFin n).toNat 0 ^^^ xorTable.getD (bitByte k).toNat 0 ∧
        (xorTable.getD (UInt8.ofFin n ^^^ bitByte k).toNat 0 &&& 0x80 ≠ 0 ↔
          ¬ xorTable.getD (UInt8.ofFin n).toNat 0 &&& 0x80 ≠ 0) := by
    decide +kernel
  exact hall x.toFin k

/-- Component by component. -/
def xor3 (c d : UInt8 × UInt8 × UInt8) : UInt8 × UInt8 × UInt8 :=
  (c.1 ^^^ d.1, c.2.1 ^^^ d.2.1, c.2.2 ^^^ d.2.2)

/-- The loop adds to what it starts with. -/
theorem eccLoop_xor3 (l : List UInt8) (i : UInt8) (c d : UInt8 × UInt8 × UInt8) :
    eccLoop l i (xor3 c d) = xor3 (eccLoop l i c) d := by
  induction l generalizing i c with
  | nil => rfl
  | cons x l ih =>
    obtain ⟨c1, c2, c3⟩ := c
    rw [eccLoop, eccLoop, ← ih]
    dsimp only [xor3]
    congr 1
    split_ifs
    · simp only [UInt8.xor_assoc, UInt8.xor_comm d.1, UInt8.xor_comm d.2.1, UInt8.xor_comm d.2.2]
    · simp only [UInt8.xor_assoc, UInt8.xor_comm d.1]

/-- A bit of the `n`-th byte. -/
theorem eccLoop_set {l : List UInt8} {n : ℕ} (hn : n < l.length) (k : Fin 8) (i : UInt8)
    (c : UInt8 × UInt8 × UInt8) :
    eccLoop (l.set n (l[n] ^^^ bitByte k)) i c =
      xor3 (eccLoop l i c)
        (xorTable.getD (bitByte k).toNat 0, ~~~(i + UInt8.ofNat n), i + UInt8.ofNat n) := by
  induction l generalizing n i c with
  | nil => exact absurd hn (Nat.not_lt_zero n)
  | cons x l ih =>
    obtain ⟨c1, c2, c3⟩ := c
    cases n with
    | zero =>
      obtain ⟨hentry, htop⟩ := xorTable_flip x k
      rw [List.getElem_cons_zero, List.set_cons_zero, eccLoop, eccLoop, ← eccLoop_xor3, hentry]
      rw [hentry] at htop
      congr 1
      dsimp only [xor3]
      by_cases hx : xorTable.getD x.toNat 0 &&& 0x80 ≠ 0
      · rw [if_neg fun h => htop.mp h hx, if_pos hx]
        simp [UInt8.xor_assoc]
      · rw [if_pos (htop.mpr hx), if_neg hx]
        simp [UInt8.xor_assoc]
    | succ n =>
      have hi : i + 1 + UInt8.ofNat n = i + UInt8.ofNat (n + 1) := by
        rw [UInt8.ofNat_add, UInt8.add_assoc, UInt8.add_comm 1]
        rfl
      rw [List.getElem_cons_succ, List.set_cons_succ, eccLoop, eccLoop,
        ih (Nat.lt_of_succ_lt_succ hn), hi]

/-- **A bit.** The code of a block with one bit changed. -/
theorem calculateECC_flip (block : Vector UInt8 128) (p : BitPos) :
    calculateECC (flipBit block p).toList = xorBytes (calculateECC block.toList) (bitCode p) := by
  have hmask (c d m : UInt8) : ~~~(c ^^^ d) &&& m = (~~~c &&& m) ^^^ (d &&& m) := by
    rw [← UInt8.not_xor, ← UInt8.toNat_inj]
    simp only [UInt8.toNat_and, UInt8.toNat_xor, Nat.and_xor_distrib_right]
  have hlen : p.1.val < block.toList.length := by
    rw [Vector.length_toList]
    exact p.1.isLt
  have hflip : (flipBit block p).toList =
      block.toList.set p.1 (block.toList[p.1.val] ^^^ bitByte p.2) := by
    rw [flipBit, Vector.toList_set]
    rfl
  rw [calculateECC, calculateECC, hflip, eccLoop_set hlen, UInt8.zero_add]
  simp only [xor3, xorBytes, bitCode, List.zipWith_cons_cons, List.zipWith_nil_left, hmask]

theorem xorBytes_calculateECC (l d : List UInt8) (hd : d.length = 3) :
    xorBytes (calculateECC l) (xorBytes (calculateECC l) d) = d := by
  match d, hd with
  | [d1, d2, d3], _ =>
    simp only [calculateECC, xorBytes, List.zipWith_cons_cons, List.zipWith_nil_left,
      ← UInt8.xor_assoc, UInt8.xor_self, UInt8.zero_xor]

/-- One bit. -/
theorem DifferIn.syndrome_eq {block block' : Vector UInt8 128} {p : BitPos}
    (h : DifferIn block block' {p}) : syndrome block block' = bitCode p := by
  rw [h.eq_flip, syndrome, calculateECC_flip, xorBytes_calculateECC _ _ rfl]

/-- Two bits. -/
theorem DifferIn.syndrome_eq_pair {block block' : Vector UInt8 128} {p q : BitPos} (hne : p ≠ q)
    (h : DifferIn block block' {p, q}) :
    syndrome block block' = xorBytes (bitCode p) (bitCode q) := by
  have hassoc : xorBytes (xorBytes (calculateECC block.toList) (bitCode p)) (bitCode q) =
      xorBytes (calculateECC block.toList) (xorBytes (bitCode p) (bitCode q)) := by
    simp only [calculateECC, bitCode, xorBytes, List.zipWith_cons_cons, List.zipWith_nil_left,
      UInt8.xor_assoc]
  rw [h.eq_flip_flip hne, syndrome, calculateECC_flip, calculateECC_flip, hassoc,
    xorBytes_calculateECC _ _ rfl]

/-- The first byte has the bit, the last one the byte. -/
theorem bitCode_injective : Function.Injective bitCode := by
  have hbit : ∀ k l : Fin 8, xorTable.getD (bitByte k).toNat 0 &&& 0x77 =
      xorTable.getD (bitByte l).toNat 0 &&& 0x77 → k = l := by decide
  have hbyte : ∀ i : Fin 128, (UInt8.ofNat i &&& 0x7F).toNat = i.val := by decide
  rintro ⟨i, k⟩ ⟨j, l⟩ h
  obtain ⟨h1, -, h3⟩ : _ ∧ _ ∧ _ := by
    simpa only [bitCode, List.cons.injEq, and_true] using h
  have hij := congrArg UInt8.toNat h3
  rw [hbyte, hbyte] at hij
  rw [Fin.ext hij, hbit k l h1]

/-- The two bytes of line parities differ in every place after one bit, and in none after two. -/
theorem xorBytes_bitCode_ne (p q r : BitPos) : xorBytes (bitCode p) (bitCode q) ≠ bitCode r := by
  have hlines : ∀ i : Fin 128,
      (~~~UInt8.ofNat i &&& 0x7F) ^^^ (UInt8.ofNat i &&& 0x7F) = 0x7F := by decide
  intro h
  obtain ⟨-, h2, h3⟩ : _ ∧ _ ∧ _ := by
    simpa only [bitCode, xorBytes, List.zipWith_cons_cons, List.zipWith_nil_left,
      List.cons.injEq, and_true] using h
  have hzero : (0x7F : UInt8) = 0x7F ^^^ 0x7F := by
    calc (0x7F : UInt8) = (~~~UInt8.ofNat r.1 &&& 0x7F) ^^^ (UInt8.ofNat r.1 &&& 0x7F) :=
          (hlines r.1).symm
      _ = ((~~~UInt8.ofNat p.1 &&& 0x7F) ^^^ (UInt8.ofNat p.1 &&& 0x7F)) ^^^
          ((~~~UInt8.ofNat q.1 &&& 0x7F) ^^^ (UInt8.ofNat q.1 &&& 0x7F)) := by
        rw [← h2, ← h3]
        ac_rfl
      _ = 0x7F ^^^ 0x7F := by rw [hlines, hlines]
  exact absurd hzero (by decide)

/-- **One bit is corrected, and two are detected.** -/
theorem ecc_corrects_one_detects_two :
    (∀ (a a' b b' : Vector UInt8 128) (p q : BitPos), DifferIn a a' {p} → DifferIn b b' {q} →
      (syndrome a a' = syndrome b b' ↔ p = q)) ∧
    (∀ (a a' b b' : Vector UInt8 128) (p : BitPos) (s : Finset BitPos), DifferIn a a' {p} →
      DifferIn b b' s → s.card = 2 → syndrome a a' ≠ syndrome b b') ∧
    ∀ (a a' : Vector UInt8 128) (s : Finset BitPos), DifferIn a a' s → s.card = 1 ∨ s.card = 2 →
      calculateECC a.toList ≠ calculateECC a'.toList := by
  have hsame (a a' : Vector UInt8 128) (h : calculateECC a.toList = calculateECC a'.toList) :
      syndrome a a' = [0, 0, 0] := by
    rw [syndrome, ← h]
    simp only [calculateECC, xorBytes, List.zipWith_cons_cons, List.zipWith_nil_left,
      UInt8.xor_self]
  refine ⟨fun a a' b b' p q ha hb => ?_, fun a a' b b' p s ha hb hs => ?_,
    fun a a' s h hs heq => ?_⟩
  · rw [ha.syndrome_eq, hb.syndrome_eq]
    exact bitCode_injective.eq_iff
  · obtain ⟨q, r, hqr, rfl⟩ := Finset.card_eq_two.mp hs
    rw [ha.syndrome_eq, hb.syndrome_eq_pair hqr]
    exact (xorBytes_bitCode_ne q r p).symm
  · have hzero := hsame a a' heq
    rcases hs with hs | hs
    · obtain ⟨p, rfl⟩ := Finset.card_eq_one.mp hs
      -- the code of a bit twice is the one of no bit
      have htwo : xorBytes (bitCode p) (bitCode p) = [0, 0, 0] := by
        simp only [bitCode, xorBytes, List.zipWith_cons_cons, List.zipWith_nil_left,
          UInt8.xor_self]
      exact xorBytes_bitCode_ne p p p (by rw [htwo, ← hzero, h.syndrome_eq])
    · obtain ⟨p, q, hpq, rfl⟩ := Finset.card_eq_two.mp hs
      rw [h.syndrome_eq_pair hpq] at hzero
      refine hpq (bitCode_injective ?_)
      simpa only [bitCode, xorBytes, List.zipWith_cons_cons, List.zipWith_nil_left,
        List.cons.injEq, UInt8.xor_eq_zero_iff] using hzero

/-- Blocks around an empty one. -/
theorem ecc_corrects_one_detects_two_empty :
    let block : Vector UInt8 128 := Vector.replicate 128 0
    syndrome block (flipBit block (0, 1)) ≠ syndrome block (flipBit block (2, 3)) ∧
      syndrome block (flipBit block (0, 1)) ≠
        syndrome (flipBit block (0, 1)) (flipBit (flipBit (flipBit block (0, 1)) (2, 3)) (4, 5)) ∧
      calculateECC block.toList ≠ calculateECC (flipBit block (0, 1)).toList :=
  let block : Vector UInt8 128 := Vector.replicate 128 0
  ⟨fun h => absurd ((ecc_corrects_one_detects_two.1 _ _ _ _ _ _ (differIn_flip block (0, 1))
      (differIn_flip block (2, 3))).mp h) (by decide),
    ecc_corrects_one_detects_two.2.1 _ _ _ _ _ _ (differIn_flip block (0, 1))
      (differIn_flip_flip (flipBit block (0, 1)) (by decide : ((2, 3) : BitPos) ≠ (4, 5)))
      (by decide),
    ecc_corrects_one_detects_two.2.2 _ _ _ (differIn_flip block (0, 1)) (by decide)⟩

end Mce

end OpenPS2Loader
