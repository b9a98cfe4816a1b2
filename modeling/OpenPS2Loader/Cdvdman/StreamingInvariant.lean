import Mathlib.Data.Int.ModEq
import Mathlib.Tactic.Ring
import OpenPS2Loader.Cdvdman.Streaming
import OpenPS2Loader.Lib.Ring

/-!
# The ring of the streaming buffer

The read pointer, the write pointer and the number of buffered sectors describe a window of the
ring that starts at the read pointer. A fill adds a bank behind the window and a read takes sectors
from its front, and the arithmetic of the source, on `u16` with explicit wraps, is the arithmetic
modulo the size of the ring.

The window holds the sectors of the stream that follow those handed over. A fill that is not counted
in is for the sectors behind it and for the bank at the write pointer, and `StIsReading` belongs to
one thread at a time: the one that is about to start a read, the read, or the callback.

## Main definitions

* `RingInv` — the pointers bound a window of the ring, and banks do not straddle its end
* `Stream` — the window is the disc, from the next sector to hand over
* `Pending` — a fill that is not counted in
* `Dma` — a copy that was set up and is not committed
* `Drive.Held` — who has `StIsReading`

## Main results

* `RingInv.consume`, `RingInv.produce`, `RingInv.reset` — the operations keep it
* `stmCallbackSection_eq`, `readSectors_eq` — what they do to the window
* `readSectorsEE_eq_readSectors` — the EE variant plans the same copies
* `Stream.consume`, `Stream.produce` — the same for the sectors in it
* `Drive.fillStep_spec` — a section of a fill, whoever runs it
-/

namespace OpenPS2Loader

namespace Streaming

variable {α : Type*} {disc : ℕ → α} {d d' : StreamingData} {buf : ℕ → α} {base : ℕ}
  {delivered copied : List α}

/-! ### Machine arithmetic -/

theorem u16_of_lt {n : ℕ} (h : n < 65536) : u16 n = n := Nat.mod_eq_of_lt h

theorem u16OfInt_sub {a b : ℕ} (hb : b ≤ a) (ha : a < 65536) : u16OfInt ((a : ℤ) - b) = a - b := by
  rw [u16OfInt]
  omega

theorem u16OfInt_cast {m : ℕ} (h : m < 65536) : u16OfInt (m : ℤ) = m := by
  rw [u16OfInt]
  omega

theorem u32_add_u32 (a b : ℕ) : u32 (u32 a + b) = u32 (a + b) := by simp [u32]

@[simp] theorem u32_u32 (a : ℕ) : u32 (u32 a) = u32 a := by simp [u32]

/-! ### The ring -/

/-- The five counters describe a ring of `stBufmax` slots, a window of `stStreamed` of them from
`stReadPtr` on, and a write pointer right behind the window on a bank boundary. -/
structure RingInv (d : StreamingData) : Prop where
  pos : 0 < d.stBufmax
  lt : d.stBufmax < 65536
  bank_lt : d.stBanksize < 65536
  /-- The ring is a whole number of banks; one that is smaller than a bank is never filled. -/
  whole : d.stBufmax < d.stBanksize ∨ d.stBanksize ∣ d.stBufmax
  streamed_le : d.stStreamed ≤ d.stBufmax
  read_lt : d.stReadPtr < d.stBufmax
  write_lt : d.stWritePtr < d.stBufmax
  write_eq : d.stWritePtr = (d.stReadPtr + d.stStreamed) % d.stBufmax
  bank_dvd : d.stBanksize ∣ d.stWritePtr

/-- A sum below two turns of the ring wraps at most once. -/
theorem mod_cases {a N : ℕ} (h : a < 2 * N) : (a < N ∧ a % N = a) ∨ (N ≤ a ∧ a % N + N = a) := by
  rcases Nat.lt_or_ge a N with ha | ha
  · exact Or.inl ⟨ha, Nat.mod_eq_of_lt ha⟩
  · refine Or.inr ⟨ha, ?_⟩
    rw [Nat.mod_eq_sub_mod ha, Nat.mod_eq_of_lt (by omega)]
    omega

/-- Where the write pointer is, without a remainder. -/
theorem RingInv.write_cases (h : RingInv d) :
    (d.stReadPtr + d.stStreamed < d.stBufmax ∧ d.stWritePtr = d.stReadPtr + d.stStreamed) ∨
      (d.stBufmax ≤ d.stReadPtr + d.stStreamed ∧
        d.stWritePtr + d.stBufmax = d.stReadPtr + d.stStreamed) := by
  have h1 := h.streamed_le
  have h2 := h.read_lt
  rw [h.write_eq]
  rcases mod_cases (show d.stReadPtr + d.stStreamed < 2 * d.stBufmax by omega) with hc | hc
  · exact Or.inl hc
  · exact Or.inr hc

/-- A bank that fits the ring ends inside it: the write pointer only stops at bank boundaries. -/
theorem RingInv.write_add_le (h : RingInv d) (hroom : d.stBanksize ≤ d.stBufmax) :
    d.stWritePtr + d.stBanksize ≤ d.stBufmax := by
  have hdvd : d.stBanksize ∣ d.stBufmax := h.whole.resolve_left (by omega)
  obtain ⟨w, hw⟩ := h.bank_dvd
  obtain ⟨n, hn⟩ := hdvd
  have hlt : d.stBanksize * w < d.stBanksize * n := hw ▸ hn ▸ h.write_lt
  have hwn : w + 1 ≤ n := lt_of_mul_lt_mul_left hlt (Nat.zero_le _)
  calc d.stWritePtr + d.stBanksize = d.stBanksize * (w + 1) := by rw [hw]; ring
    _ ≤ d.stBanksize * n := Nat.mul_le_mul_left _ hwn
    _ = d.stBufmax := hn.symm

/-- Emptying the ring. -/
theorem RingInv.reset (h : RingInv d) {d' : StreamingData} (hN : d'.stBufmax = d.stBufmax)
    (hb : d'.stBanksize = d.stBanksize) : RingInv (stReset d') where
  pos := hN ▸ h.pos
  lt := hN ▸ h.lt
  bank_lt := hb ▸ h.bank_lt
  whole := by simpa only [stReset, hN, hb] using h.whole
  streamed_le := Nat.zero_le _
  read_lt := hN ▸ h.pos
  write_lt := hN ▸ h.pos
  write_eq := (Nat.zero_mod _).symm
  bank_dvd := dvd_zero _

/-- The ring does not mention the fill flag. -/
theorem RingInv.setReading (h : RingInv d) (r : Bool) : RingInv { d with stIsReading := r } :=
  ⟨h.pos, h.lt, h.bank_lt, h.whole, h.streamed_le, h.read_lt, h.write_lt, h.write_eq, h.bank_dvd⟩

/-- Taking `n` sectors out of the window. -/
theorem RingInv.consume (h : RingInv d) {n : ℕ} (hn : n ≤ d.stStreamed) :
    RingInv { d with
      stReadPtr := (d.stReadPtr + n) % d.stBufmax
      stStreamed := d.stStreamed - n } where
  pos := h.pos
  lt := h.lt
  bank_lt := h.bank_lt
  whole := h.whole
  streamed_le := le_trans (Nat.sub_le _ _) h.streamed_le
  read_lt := Nat.mod_lt _ h.pos
  write_lt := h.write_lt
  write_eq := by
    have : d.stReadPtr + n + (d.stStreamed - n) = d.stReadPtr + d.stStreamed := by omega
    simpa [Nat.mod_add_mod, this] using h.write_eq
  bank_dvd := h.bank_dvd

/-- `AllocBank` succeeds exactly when a whole bank is free. -/
theorem allocBank_eq (d : StreamingData) :
    allocBank d = if d.stStreamed + d.stBanksize ≤ d.stBufmax then some d.stWritePtr else none := by
  rw [allocBank]
  congr 1
  exact propext ⟨fun h => by omega, fun h => by omega⟩

/-- The section of `StFillStreamBuffer` when no fill is under way. -/
theorem stFillSection_eq (hr : d.stIsReading = false) :
    stFillSection d = ({ d with stIsReading := true },
      if d.stStreamed + d.stBanksize ≤ d.stBufmax then .bank d.stWritePtr else .full) := by
  simp only [stFillSection, hr, Bool.false_eq_true, if_false, allocBank_eq]
  split_ifs <;> rfl

/-- The callback's section, when it counts a bank in: the bank is behind the window, and the
write pointer moves to the next bank boundary. -/
theorem stmCallbackCount_eq (h : RingInv d) (hroom : d.stStreamed + d.stBanksize ≤ d.stBufmax) :
    stmCallbackCount d =
      { d with stlsn := u32 (d.stlsn + d.stBanksize)
               stStreamed := d.stStreamed + d.stBanksize
               stWritePtr := (d.stWritePtr + d.stBanksize) % d.stBufmax
               stIsReading := false } := by
  have hlt := h.lt
  have hle : d.stWritePtr + d.stBanksize ≤ d.stBufmax := h.write_add_le (by omega)
  have hmod : (if d.stWritePtr + d.stBanksize ≥ d.stBufmax then 0 else d.stWritePtr + d.stBanksize)
      = (d.stWritePtr + d.stBanksize) % d.stBufmax := by
    rcases Nat.lt_or_ge (d.stWritePtr + d.stBanksize) d.stBufmax with hc | hc
    · rw [if_neg (by omega), Nat.mod_eq_of_lt hc]
    · rw [if_pos hc, le_antisymm hle hc, Nat.mod_self]
  simp only [stmCallbackCount]
  rw [u16_of_lt (by omega), u16_of_lt (by omega), hmod]

/-- Counting a bank in. -/
theorem RingInv.produce (h : RingInv d) (hroom : d.stStreamed + d.stBanksize ≤ d.stBufmax) :
    RingInv (stmCallbackCount d) := by
  rw [stmCallbackCount_eq h hroom]
  exact {
    pos := h.pos
    lt := h.lt
    bank_lt := h.bank_lt
    whole := h.whole
    streamed_le := hroom
    read_lt := h.read_lt
    write_lt := Nat.mod_lt _ h.pos
    write_eq := by
      simp only
      conv_lhs => rw [h.write_eq]
      rw [Nat.mod_add_mod, Nat.add_assoc]
    bank_dvd := by
      have hdvd : d.stBanksize ∣ d.stBufmax := h.whole.resolve_left (by omega)
      exact (Nat.dvd_mod_iff hdvd).mpr (Nat.dvd_add h.bank_dvd dvd_rfl) }

/-! ### Copying sectors out -/

/-- The wrap of the read pointer is a remainder. -/
theorem wrap_eq {rd c N : ℕ} (h : rd + c ≤ N) (hN : N < 65536) :
    (if u16 (rd + c) ≥ N then 0 else u16 (rd + c)) = (rd + c) % N := by
  rw [u16_of_lt (by omega)]
  rcases Nat.lt_or_ge (rd + c) N with hc | hc
  · rw [if_neg (by omega), Nat.mod_eq_of_lt hc]
  · rw [if_pos hc, le_antisymm h hc, Nat.mod_self]

/-- The clamp of `SectorsToCopy` to the sectors still wanted is a minimum. -/
theorem clamp_eq {avail m : ℕ} (h : avail < 65536) :
    (if (avail : ℤ) > (m : ℤ) then u16OfInt (m : ℤ) else avail) = min avail m := by
  rcases Nat.lt_or_ge m avail with hc | hc
  · rw [if_pos (by omega), u16OfInt_cast (by omega), min_eq_right (by omega)]
  · rw [if_neg (by omega), min_eq_left hc]

theorem readSectorsTail_eq (h : RingInv d) (m : ℕ)
    (hc : d.stWritePtr ≤ d.stReadPtr ∧ d.stStreamed > 0) :
    readSectorsTail d m =
      ({ d with stReadPtr := (d.stReadPtr + min (d.stBufmax - d.stReadPtr) m) % d.stBufmax
                stStreamed := d.stStreamed - min (d.stBufmax - d.stReadPtr) m },
        List.range' d.stReadPtr (min (d.stBufmax - d.stReadPtr) m)) := by
  have hlt := h.lt
  have hrd := h.read_lt
  have hst := h.streamed_le
  have hw := h.write_cases
  simp only [readSectorsTail, if_pos hc]
  rw [u16OfInt_sub (by omega) hlt, clamp_eq (by omega), wrap_eq (by omega) hlt,
    u16OfInt_sub (by omega) (by omega)]

theorem readSectorsHead_eq (h : RingInv d) {m k : ℕ} (hk : k < m)
    (hc : d.stReadPtr < d.stWritePtr) :
    readSectorsHead d m k =
      ({ d with stReadPtr := (d.stReadPtr + min (d.stWritePtr - d.stReadPtr) (m - k)) % d.stBufmax
                stStreamed := d.stStreamed - min (d.stWritePtr - d.stReadPtr) (m - k) },
        List.range' d.stReadPtr (min (d.stWritePtr - d.stReadPtr) (m - k))) := by
  have hlt := h.lt
  have hwr := h.write_lt
  have hst := h.streamed_le
  have hw := h.write_cases
  have hmk : (m : ℤ) - k = ((m - k : ℕ) : ℤ) := by omega
  simp only [readSectorsHead, if_pos (And.intro (by omega : (k : ℤ) < m) hc), hmk]
  rw [u16OfInt_sub (by omega) (by omega), clamp_eq (by omega), wrap_eq (by omega) hlt,
    u16OfInt_sub (by omega) (by omega)]

/-- **What `ReadSectors` does.** It hands over the first `min maxcount stStreamed` sectors of the
window and takes them out of it. -/
theorem readSectors_eq (h : RingInv d) (m : ℕ) :
    readSectors d m =
      ({ d with stReadPtr := (d.stReadPtr + min m d.stStreamed) % d.stBufmax
                stStreamed := d.stStreamed - min m d.stStreamed },
        Ring.slots d.stBufmax d.stReadPtr (min m d.stStreamed)) := by
  have hlt := h.lt
  have hrd := h.read_lt
  have hst := h.streamed_le
  have hw := h.write_cases
  have hrange : ∀ n, d.stReadPtr + n ≤ d.stBufmax →
      List.range' d.stReadPtr n = Ring.slots d.stBufmax d.stReadPtr n := fun n hn =>
    (Ring.slots_eq_range' hn).symm
  by_cases hc : d.stWritePtr ≤ d.stReadPtr ∧ d.stStreamed > 0
  · -- the window reaches the end of the buffer, and may go on from its start
    rw [readSectors, readSectorsTail_eq h m hc]
    simp only [List.length_range']
    set c := min (d.stBufmax - d.stReadPtr) m with hcdef
    have h' : RingInv { d with stReadPtr := (d.stReadPtr + c) % d.stBufmax
                               stStreamed := d.stStreamed - c } := h.consume (by omega)
    by_cases hm : c < m ∧ 0 < d.stWritePtr
    · have hcN : d.stReadPtr + c = d.stBufmax := by omega
      have hzero : (d.stReadPtr + c) % d.stBufmax = 0 := by rw [hcN, Nat.mod_self]
      have hsum : c + min d.stWritePtr (m - c) = min m d.stStreamed := by omega
      rw [readSectorsHead_eq h' hm.1 (by simp only [hzero]; exact hm.2)]
      simp only [hzero, Nat.sub_zero, Nat.zero_add]
      refine Prod.ext ?_ ?_
      · simp only [StreamingData.mk.injEq, true_and, and_true]
        refine ⟨?_, by omega⟩
        rw [← hsum, ← Nat.add_assoc, hcN, Nat.add_mod_left]
      · simp only
        rw [← hsum, Ring.slots_add, hrange c (by omega), hcN, Ring.slots_self,
          Ring.slots_eq_range' (show 0 + min d.stWritePtr (m - c) ≤ d.stBufmax by omega)]
    · have hmin : min m d.stStreamed = c := by omega
      have hlast : ¬((c : ℤ) < m ∧ (d.stReadPtr + c) % d.stBufmax < d.stWritePtr) := by
        rcases mod_cases (show d.stReadPtr + c < 2 * d.stBufmax by omega) with hcc | hcc <;> omega
      simp only [readSectorsHead, if_neg hlast, List.append_nil, hmin]
      rw [hrange c (by omega)]
  · -- the window does not reach the end of the buffer
    rw [readSectors, readSectorsTail, if_neg hc]
    simp only [List.length_nil, List.nil_append]
    by_cases hm : 0 < m ∧ d.stReadPtr < d.stWritePtr
    · have hmin : min (d.stWritePtr - d.stReadPtr) (m - 0) = min m d.stStreamed := by omega
      rw [readSectorsHead_eq h hm.1 hm.2, hmin, hrange _ (by omega)]
    · have hmin : min m d.stStreamed = 0 := by omega
      have hlast : ¬(((0 : ℕ) : ℤ) < m ∧ d.stReadPtr < d.stWritePtr) := by omega
      simp only [readSectorsHead, if_neg hlast, hmin, Nat.add_zero, Nat.sub_zero, Ring.slots_zero,
        Nat.mod_eq_of_lt hrd]

/-- `ReadSectorsEE` plans what `ReadSectors` does. -/
theorem readSectorsEE_eq_readSectors (d : StreamingData) (m : ℤ) :
    readSectorsEE d m = ((readSectors d m).1.stReadPtr, (readSectors d m).2) := by
  simp only [readSectorsEE, readSectors, readSectorsTail, readSectorsHead]
  split_ifs <;> simp_all

/-! ### The stream in the ring -/

/-- Sector `i` of the stream that starts at `base`. Sector numbers are `u32` throughout. -/
def streamSector (disc : ℕ → α) (base i : ℕ) : α := disc (u32 (base + i))

/-- The ring holds the sectors of the stream that follow the ones already handed over, and `stlsn`
is the sector after those. -/
structure Stream (disc : ℕ → α) (d : StreamingData) (buf : ℕ → α) (base : ℕ)
    (delivered : List α) : Prop where
  lsn_eq : d.stlsn = u32 (base + delivered.length + d.stStreamed)
  holds : Ring.Holds d.stBufmax buf d.stReadPtr d.stStreamed fun i =>
    streamSector disc base (delivered.length + i)

/-- A fill that is not counted in yet: it is for the sectors at `stlsn` and the bank at the write
pointer, the bank is free, and what is stored so far is right. -/
structure Pending (disc : ℕ → α) (d : StreamingData) (buf : ℕ → α) (f : CdRead) : Prop where
  lba_eq : f.lba = d.stlsn
  slot_eq : f.slot = d.stWritePtr
  sectors_eq : f.sectors = d.stBanksize
  room : d.stStreamed + d.stBanksize ≤ d.stBufmax
  stored : ∀ j < f.done, buf (d.stWritePtr + j) = disc (u32 (d.stlsn + j))

/-- The DMA of `ReadSectorsEE`, half way: `copied` is at the destination, `plan` is what is left,
and both are in the window, which only the caller itself shortens. -/
structure Dma (disc : ℕ → α) (d : StreamingData) (base : ℕ) (delivered : List α) (r : ReadCall)
    (rdptr : ℕ) (plan : List ℕ) (copied : List α) : Prop where
  wanted : 0 ≤ r.sectorsToRead - (copied.length + plan.length)
  le : copied.length + plan.length ≤ d.stStreamed
  rdptr_eq : rdptr = (d.stReadPtr + (copied.length + plan.length)) % d.stBufmax
  plan_eq : plan = Ring.slots d.stBufmax (d.stReadPtr + copied.length) plan.length
  copied_eq : copied = (List.range copied.length).map fun i =>
    streamSector disc base (delivered.length + i)

/-- The ring, and the sectors in it, do not mention the fill flag. -/
theorem Stream.setReading (h : Stream disc d buf base delivered) (r : Bool) :
    Stream disc { d with stIsReading := r } buf base delivered :=
  ⟨h.lsn_eq, h.holds⟩

theorem Pending.setReading {f : CdRead} (h : Pending disc d buf f) (r : Bool) :
    Pending disc { d with stIsReading := r } buf f :=
  ⟨h.lba_eq, h.slot_eq, h.sectors_eq, h.room, h.stored⟩

/-- An empty ring. -/
theorem Stream.empty (hlsn : d.stlsn = u32 base) (hzero : d.stStreamed = 0) :
    Stream disc d buf base [] := by
  refine ⟨?_, ?_⟩
  · rw [hlsn, hzero]
    rfl
  · rw [hzero]
    exact Ring.holds_zero _ _ _ _

/-- A copy that was set up stays valid while the window only grows behind it. -/
theorem Dma.mono {r : ReadCall} {rdptr : ℕ} {plan : List ℕ}
    (h : Dma disc d base delivered r rdptr plan copied) (hN : d'.stBufmax = d.stBufmax)
    (hrd : d'.stReadPtr = d.stReadPtr) (hst : d.stStreamed ≤ d'.stStreamed) :
    Dma disc d' base delivered r rdptr plan copied := by
  refine ⟨h.wanted, le_trans h.le hst, ?_, ?_, h.copied_eq⟩
  · rw [hN, hrd]
    exact h.rdptr_eq
  · rw [hN, hrd]
    exact h.plan_eq

/-- The DMA list of `ReadSectorsEE` for the first `n` sectors of the window. -/
theorem Dma.ofSlots {r : ReadCall} {n : ℕ} (hn : n ≤ d.stStreamed)
    (hwant : 0 ≤ r.sectorsToRead - n) :
    Dma disc d base delivered r ((d.stReadPtr + n) % d.stBufmax)
      (Ring.slots d.stBufmax d.stReadPtr n) [] := by
  refine ⟨?_, ?_, ?_, ?_, rfl⟩
  · simpa using hwant
  · simpa using hn
  · simp
  · simp

/-- The DMA copies one more sector. -/
theorem Dma.copy {r : ReadCall} {rdptr slot : ℕ} {rest : List ℕ}
    (h : Dma disc d base delivered r rdptr (slot :: rest) copied)
    (hstr : Stream disc d buf base delivered) :
    Dma disc d base delivered r rdptr rest (copied ++ [buf slot]) := by
  have hplan := h.plan_eq
  rw [List.length_cons, Ring.slots_succ] at hplan
  obtain ⟨hslot, hrest⟩ := List.cons.inj hplan
  have hle := h.le
  have hwant := h.wanted
  rw [List.length_cons] at hle hwant
  refine ⟨?_, ?_, ?_, ?_, ?_⟩
  · simp only [List.length_append, List.length_singleton]
    omega
  · simp only [List.length_append, List.length_singleton]
    omega
  · have hcount : (copied ++ [buf slot]).length + rest.length
        = copied.length + (slot :: rest).length := by
      simp only [List.length_append, List.length_cons, List.length_nil]
      omega
    rw [hcount]
    exact h.rdptr_eq
  · simpa only [List.length_append, List.length_singleton, ← Nat.add_assoc] using hrest
  · have hbuf : buf slot = streamSector disc base (delivered.length + copied.length) := by
      rw [hslot]
      exact hstr.holds copied.length (by omega)
    rw [List.length_append, List.length_singleton, List.range_succ, List.map_append,
      ← h.copied_eq, hbuf]
    rfl

/-- Handing over the first `n` sectors of the window leaves the window of the stream behind
them. -/
theorem Stream.consume (hs : Stream disc d buf base delivered) {n : ℕ} (hn : n ≤ d.stStreamed)
    (hcopied : copied.length = n) :
    Stream disc { d with stReadPtr := (d.stReadPtr + n) % d.stBufmax
                         stStreamed := d.stStreamed - n } buf base (delivered ++ copied) := by
  have hlen : (delivered ++ copied).length = delivered.length + n := by simp [hcopied]
  refine ⟨?_, ?_⟩
  · rw [hlen, hs.lsn_eq]
    simp only
    congr 1
    omega
  · have hdrop := hs.holds.drop n
    rw [hlen]
    simpa only [Nat.add_assoc] using hdrop

/-- What was handed over stays the front of the stream when the next sectors are. -/
theorem delivered_append {base n : ℕ} {xs copied : List α}
    (h : xs = (List.range xs.length).map (streamSector disc base))
    (hcopied : copied = (List.range n).map fun i => streamSector disc base (xs.length + i)) :
    xs ++ copied = (List.range (xs ++ copied).length).map (streamSector disc base) := by
  have hlen : (xs ++ copied).length = xs.length + n := by simp [hcopied]
  rw [hlen, List.range_add, List.map_append, List.map_map, ← h, hcopied]
  rfl

/-- The bank at the write pointer is behind the window, so storing into it leaves the window
alone. -/
theorem holds_update_bank {d : StreamingData} {buf f : ℕ → α} (h : RingInv d)
    (hroom : d.stStreamed + d.stBanksize ≤ d.stBufmax)
    (hf : Ring.Holds d.stBufmax buf d.stReadPtr d.stStreamed f) {j : ℕ} (hj : j < d.stBanksize)
    (v : α) :
    Ring.Holds d.stBufmax (Function.update buf (d.stWritePtr + j) v) d.stReadPtr d.stStreamed
      f := by
  have hle := h.write_add_le (by omega)
  have hslot : (d.stReadPtr + (d.stStreamed + j)) % d.stBufmax = d.stWritePtr + j := by
    rw [← Nat.add_assoc, ← Nat.mod_add_mod, ← h.write_eq, Nat.mod_eq_of_lt (by omega)]
  rw [← hslot]
  exact hf.update (by omega) (by omega) v

/-- Counting in a bank that is completely stored keeps the stream. -/
theorem Stream.produce (h : Stream disc d buf base delivered) (hring : RingInv d) {f : CdRead}
    (hp : Pending disc d buf f) (hdone : f.done = f.sectors) :
    Stream disc (stmCallbackCount d) buf base delivered := by
  have hlen : f.done = d.stBanksize := by rw [hdone, hp.sectors_eq]
  have hle := hring.write_add_le (by have := hp.room; omega)
  rw [stmCallbackCount_eq hring hp.room]
  refine ⟨?_, ?_⟩
  · simp only
    rw [h.lsn_eq, u32_add_u32, Nat.add_assoc]
  · refine h.holds.append fun j hj => ?_
    have hslot : (d.stReadPtr + d.stStreamed + j) % d.stBufmax = d.stWritePtr + j := by
      rw [← Nat.mod_add_mod, ← hring.write_eq, Nat.mod_eq_of_lt (by omega)]
    rw [hslot, hp.stored j (by omega), h.lsn_eq, u32_add_u32]
    simp only [streamSector, Nat.add_assoc]

/-- A fill stores one more sector. -/
theorem Pending.transfer {f : CdRead} (h : Pending disc d buf f) :
    Pending disc d (Function.update buf (f.slot + f.done) (disc (u32 (f.lba + f.done))))
      { f with done := f.done + 1 } := by
  refine ⟨h.lba_eq, h.slot_eq, h.sectors_eq, h.room, fun j hj => ?_⟩
  rw [h.slot_eq, h.lba_eq]
  rcases Nat.lt_succ_iff_lt_or_eq.mp hj with hj | rfl
  · rw [Function.update_of_ne (by omega)]
    exact h.stored j hj
  · rw [Function.update_self]

/-! ### Filling -/

section Drive

variable {ρ : Type*} {read : CdRead → ρ} {fly : ρ → ℕ} {s t u : Drive ρ} {pc : FillPc} {k : ℕ}

/-- `1` where `StIsReading` was set by this thread and is its own to take back. -/
def FillPc.owns : FillPc → ℕ
  | .async _ | .failed | .full => 1
  | .alloc | .reschedule => 0

/-- The same for a thread that may have returned. -/
def ownsAt : Option FillPc → ℕ
  | none => 0
  | some pc => pc.owns

/-- The bank a thread is about to ask for is the one at the write pointer, and it is free. -/
def FillPc.Inv (d : StreamingData) : FillPc → Prop
  | .async slot => slot = d.stWritePtr ∧ d.stStreamed + d.stBanksize ≤ d.stBufmax
  | _ => True

/-- `1` while a read that counts as one is in flight. -/
def Drive.flying (fly : ρ → ℕ) (s : Drive ρ) : ℕ := s.cdread.elim 0 fly

/-- `StIsReading` is set when the read in flight or one of the `k` threads has it. There is one of
them at most. -/
def Drive.Held (fly : ρ → ℕ) (s : Drive ρ) (k : ℕ) : Prop :=
  s.flying fly + k ≤ s.d.stIsReading.toNat

theorem Drive.Held.le_one (h : s.Held fly k) : s.flying fly + k ≤ 1 :=
  le_trans h (Bool.toNat_le _)

/-- What the sections of a fill may have done: to the flag, to the alarm, and a read of the bank
behind the window. -/
structure Filled (read : CdRead → ρ) (s t : Drive ρ) : Prop where
  d_eq : ∃ b, t.d = { s.d with stIsReading := b }
  cdread : t.cdread = s.cdread ∨ s.cdread = none ∧
    s.d.stStreamed + s.d.stBanksize ≤ s.d.stBufmax ∧
    t.cdread = some (read ⟨s.d.stlsn, s.d.stBanksize, s.d.stWritePtr, 0⟩)

theorem Filled.refl (s : Drive ρ) : Filled read s s := ⟨⟨s.d.stIsReading, rfl⟩, Or.inl rfl⟩

theorem Filled.trans (h : Filled read s t) (h' : Filled read t u) : Filled read s u := by
  obtain ⟨b, hd⟩ := h.d_eq
  obtain ⟨b', hd'⟩ := h'.d_eq
  refine ⟨⟨b', by rw [hd', hd]⟩, ?_⟩
  rcases h'.cdread with hsame' | ⟨hnone', hroom', hread'⟩
  · rw [hsame']
    exact h.cdread
  · rcases h.cdread with hsame | ⟨-, -, hread⟩
    · rw [hd] at hroom' hread'
      exact Or.inr ⟨hsame ▸ hnone', hroom', hread'⟩
    · rw [hread] at hnone'
      cases hnone'

/-- A section that sets or clears the flag, or the alarm. -/
theorem Filled.ofFlag (s : Drive ρ) (b a : Bool) :
    Filled read s { s with d := { s.d with stIsReading := b }, alarm := a } :=
  ⟨⟨b, rfl⟩, Or.inl rfl⟩

/-- **A section of a fill**, whoever runs it: what the thread had of `StIsReading` it still has, has
given back, or has handed to the read in flight. -/
theorem Drive.fillStep_spec (hread : ∀ f, fly (read f) = 1) (h : s.Held fly (k + pc.owns))
    (hpc : pc.Inv s.d) :
    Filled read s (s.fillStep read pc).1 ∧
      (s.fillStep read pc).1.Held fly (k + ownsAt (s.fillStep read pc).2) ∧
      ∀ pc', (s.fillStep read pc).2 = some pc' → pc'.Inv (s.fillStep read pc).1.d := by
  have hle := h.le_one
  cases pc with
  | alloc =>
    cases hr : s.d.stIsReading with
    | true =>
      simp only [Drive.fillStep, stFillSection, hr, if_true]
      exact ⟨.refl s, h, fun _ h => by cases h⟩
    | false =>
      have hheld : s.flying fly + k ≤ 0 := by simpa [Drive.Held, hr, FillPc.owns] using h
      simp only [Drive.fillStep, stFillSection_eq hr]
      split_ifs with hroom
      · refine ⟨.ofFlag s true false, ?_, ?_⟩
        · change s.flying fly + (k + 1) ≤ 1
          omega
        · rintro pc' ⟨⟩
          exact ⟨rfl, hroom⟩
      · refine ⟨.ofFlag s true false, ?_, ?_⟩
        · change s.flying fly + (k + 1) ≤ 1
          omega
        · rintro pc' ⟨⟩
          trivial
  | async slot =>
    obtain ⟨hslot, hroom⟩ := hpc
    cases hc : s.cdread with
    | some r =>
      simp only [Drive.fillStep, hc]
      refine ⟨.refl s, h, ?_⟩
      rintro pc' ⟨⟩
      trivial
    | none =>
      have hheld : 0 + (k + 1) ≤ s.d.stIsReading.toNat := by
        simpa only [Drive.Held, Drive.flying, hc, Option.elim_none, FillPc.owns] using h
      simp only [Drive.fillStep, hc, hslot]
      refine ⟨⟨⟨_, rfl⟩, Or.inr ⟨hc, hroom, rfl⟩⟩, ?_, fun _ h => by cases h⟩
      change fly (read _) + (k + 0) ≤ s.d.stIsReading.toNat
      rw [hread]
      omega
  | failed =>
    refine ⟨.ofFlag s false s.alarm, ?_, ?_⟩
    · change s.flying fly + (k + 0) ≤ 0
      change s.flying fly + (k + 1) ≤ 1 at hle
      omega
    · rintro pc' ⟨⟩
      trivial
  | reschedule => exact ⟨⟨⟨_, rfl⟩, Or.inl rfl⟩, h, fun _ h => by cases h⟩
  | full =>
    refine ⟨.ofFlag s false s.alarm, ?_, fun _ h => by cases h⟩
    change s.flying fly + (k + 0) ≤ 0
    change s.flying fly + (k + 1) ≤ 1 at hle
    omega

/-- The sections of a fill in interrupt context. -/
theorem Drive.fillSections_spec (hread : ∀ f, fly (read f) = 1) (m : ℕ)
    (h : s.Held fly (k + pc.owns)) (hpc : pc.Inv s.d) :
    Filled read s (Drive.fillSections read m s pc).1 ∧
      (Drive.fillSections read m s pc).1.Held fly
        (k + ownsAt (Drive.fillSections read m s pc).2) := by
  induction m generalizing s pc with
  | zero => exact ⟨.refl s, h⟩
  | succ m ih =>
    obtain ⟨hfilled, hheld, hnext⟩ := Drive.fillStep_spec hread h hpc
    rw [Drive.fillSections]
    rcases hstep : s.fillStep read pc with ⟨s', _ | pc'⟩
    · rw [hstep] at hfilled hheld
      exact ⟨hfilled, hheld⟩
    · rw [hstep] at hfilled hheld hnext
      obtain ⟨hrest, hheld'⟩ := ih hheld (hnext pc' rfl)
      exact ⟨hfilled.trans hrest, hheld'⟩

/-- Four sections are enough. -/
theorem Drive.fillSections_alloc (s : Drive ρ) :
    (Drive.fillSections read 4 s .alloc).2 = none := by
  simp only [Drive.fillSections, Drive.fillStep]
  rcases stFillSection s.d with ⟨d, _ | _ | slot⟩
  · rfl
  · rfl
  · cases s.cdread <;> rfl

/-- **The alarm.** -/
theorem Drive.stmScheduleCb_spec (hread : ∀ f, fly (read f) = 1) (h : s.Held fly k) :
    Filled read s (s.stmScheduleCb read) ∧ (s.stmScheduleCb read).Held fly k := by
  have hsections := @Drive.fillSections_spec ρ read fly { s with alarm := false } .alloc k hread 4 h
    trivial
  rw [Drive.fillSections_alloc] at hsections
  exact ⟨⟨hsections.1.d_eq, hsections.1.cdread⟩, hsections.2⟩

end Drive

/-! ### The ring that is laid out -/

/-- The ring that `sceCdStInit bufmax bankmax` lays out is not empty and is a whole number of
banks, or is too small for a single one. All three sizes are the `unsigned short int`s the driver
keeps. -/
def RingOk (bufmax bankmax : ℕ) : Prop :=
  let banksize := u16 (bufmax / bankmax)
  let size := u16 (banksize * u16 bankmax)
  0 < size ∧ (size < banksize ∨ banksize ∣ size)

instance (bufmax bankmax : ℕ) : Decidable (RingOk bufmax bankmax) :=
  inferInstanceAs (Decidable (_ ∧ (_ < _ ∨ _ ∣ _)))

theorem ringInv_of_init {bufmax bankmax : ℕ} {d d₀ : StreamingData}
    (hring : RingOk bufmax bankmax) (hinit : sceCdStInit bufmax bankmax d₀ = some d) :
    RingInv d := by
  rw [sceCdStInit] at hinit
  split_ifs at hinit
  cases hinit
  exact {
    pos := hring.1
    lt := Nat.mod_lt _ (by norm_num)
    bank_lt := Nat.mod_lt _ (by norm_num)
    whole := hring.2
    streamed_le := Nat.zero_le _
    read_lt := hring.1
    write_lt := hring.1
    write_eq := (Nat.zero_mod _).symm
    bank_dvd := dvd_zero _ }

end Streaming

end OpenPS2Loader
