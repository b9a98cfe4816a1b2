import OpenPS2Loader.Cdvdman.StreamingRuns

/-!
# Copying sectors out of the ring

`ReadSectors` copies to the IOP and writes the driver's record on the way; `ReadSectorsEE` works on
a copy of `StReadPtr`, makes a list of DMA transfers, and writes the record when they are done. Here
both have their copies with source, destination and number of sectors, and the count they return.
No fill is completed between the two sections of `ReadSectorsEE`.

## Main definitions

* `Streaming.readSectorsIop`, `Streaming.readSectorsToEe` — the two functions
* `Streaming.sectors` — the sectors of a list of copies, in order

## Main results

* `Streaming.readSectorsToEe_eq` — the functions do the same
* `Streaming.copies_agree`
-/

namespace OpenPS2Loader

namespace Streaming

/-! ### The functions -/

/-- A `memcpy` or an entry of the DMA list: `count` sectors from the slot `src` on. -/
structure Copy where
  src : ℕ
  dest : ℕ
  count : ℕ
  deriving DecidableEq, Repr

/-- `if (SectorsToCopy > maxcount) SectorsToCopy = maxcount` -/
def clip (sectorsToCopy : ℕ) (maxcount : ℤ) : ℕ :=
  if (sectorsToCopy : ℤ) > maxcount then u16OfInt maxcount else sectorsToCopy

/-- The locals of `ReadSectors` and the record. -/
structure Iop where
  d : StreamingData
  result : ℕ
  ptr : ℕ
  copies : List Copy
  deriving DecidableEq

/-- The block that copies in `ReadSectors`, which is there twice. -/
def Iop.copy (st : Iop) (sectorsToCopy : ℕ) : Iop :=
  if sectorsToCopy > 0 then
    let rd := u16 (st.d.stReadPtr + sectorsToCopy)
    { d := { st.d with
        stReadPtr := if rd ≥ st.d.stBufmax then 0 else rd
        stStreamed := u16OfInt ((st.d.stStreamed : ℤ) - sectorsToCopy) }
      result := st.result + sectorsToCopy
      ptr := st.ptr + sectorsToCopy * 2048
      copies := st.copies ++ [⟨st.d.stReadPtr, st.ptr, sectorsToCopy⟩] }
  else st

/-- `ReadSectors`, the part that goes to the end of the buffer. -/
def Iop.tail (maxcount : ℤ) (st : Iop) : Iop :=
  if st.d.stWritePtr ≤ st.d.stReadPtr ∧ st.d.stStreamed > 0 then
    st.copy (clip (u16OfInt ((st.d.stBufmax : ℤ) - st.d.stReadPtr)) maxcount)
  else st

/-- `ReadSectors`, the part that goes to the write pointer. -/
def Iop.head (maxcount : ℤ) (st : Iop) : Iop :=
  if (st.result : ℤ) < maxcount ∧ st.d.stReadPtr < st.d.stWritePtr then
    st.copy (clip (u16OfInt ((st.d.stWritePtr : ℤ) - st.d.stReadPtr)) (maxcount - st.result))
  else st

/-- `ReadSectors`: the record, the count that is returned, and the copies. -/
def readSectorsIop (d : StreamingData) (maxcount : ℤ) (buffer : ℕ) :
    StreamingData × ℕ × List Copy :=
  let st := ((Iop.mk d 0 buffer []).tail maxcount).head maxcount
  (st.d, st.result, st.copies)

/-- The locals of `ReadSectorsEE`. -/
structure ToEe where
  rdptr : ℕ
  result : ℕ
  ptr : ℕ
  dmat : List Copy
  deriving DecidableEq

/-- The block that makes an entry of the DMA list in `ReadSectorsEE`, which is there twice. -/
def ToEe.copy (d : StreamingData) (st : ToEe) (sectorsToCopy : ℕ) : ToEe :=
  if sectorsToCopy > 0 then
    let rd := u16 (st.rdptr + sectorsToCopy)
    { rdptr := if rd ≥ d.stBufmax then 0 else rd
      result := st.result + sectorsToCopy
      ptr := st.ptr + sectorsToCopy * 2048
      dmat := st.dmat ++ [⟨st.rdptr, st.ptr, sectorsToCopy⟩] }
  else st

/-- `ReadSectorsEE`, the part that goes to the end of the buffer. -/
def ToEe.tail (d : StreamingData) (maxcount : ℤ) (st : ToEe) : ToEe :=
  if d.stWritePtr ≤ st.rdptr ∧ d.stStreamed > 0 then
    st.copy d (clip (u16OfInt ((d.stBufmax : ℤ) - st.rdptr)) maxcount)
  else st

/-- `ReadSectorsEE`, the part that goes to the write pointer. -/
def ToEe.head (d : StreamingData) (maxcount : ℤ) (st : ToEe) : ToEe :=
  if (st.result : ℤ) < maxcount ∧ st.rdptr < d.stWritePtr then
    st.copy d (clip (u16OfInt ((d.stWritePtr : ℤ) - st.rdptr)) (maxcount - st.result))
  else st

/-- `ReadSectorsEE`: the record when it returns, the count that is returned, and the DMA list. -/
def readSectorsToEe (d : StreamingData) (maxcount : ℤ) (buffer : ℕ) :
    StreamingData × ℕ × List Copy :=
  let st := ((ToEe.mk d.stReadPtr 0 buffer []).tail d maxcount).head d maxcount
  (if st.dmat.length > 0 then
      { d with
        stReadPtr := st.rdptr
        stStreamed := u16OfInt ((d.stStreamed : ℤ) - st.result) }
    else d, st.result, st.dmat)

/-- The sectors of a list of copies: the slot and the destination of each. -/
def sectors (copies : List Copy) : List (ℕ × ℕ) :=
  copies.flatMap fun c => (List.range c.count).map fun i => (c.src + i, c.dest + 2048 * i)

/-! ### The functions do the same -/

section Agree

variable {d : StreamingData} {st : Iop} {ee : ToEe} {n : ℕ}

/-- The record as it would be when the transfers that were listed are done. -/
def ToEe.commit (d : StreamingData) (ee : ToEe) : StreamingData :=
  if ee.dmat.length > 0 then
    { d with
      stReadPtr := ee.rdptr
      stStreamed := u16OfInt ((d.stStreamed : ℤ) - ee.result) }
  else d

/-- The locals agree, and the record is what is to be committed. -/
structure Same (d : StreamingData) (st : Iop) (ee : ToEe) : Prop where
  d_eq : st.d = ee.commit d
  rdptr_eq : ee.rdptr = st.d.stReadPtr
  result_eq : ee.result = st.result
  ptr_eq : ee.ptr = st.ptr
  dmat_eq : ee.dmat = st.copies
  none : ee.dmat = [] → ee.result = 0

theorem u16OfInt_sub_sub (a b c : ℕ) :
    u16OfInt ((u16OfInt ((a : ℤ) - b) : ℤ) - c) = u16OfInt ((a : ℤ) - (b + c : ℕ)) := by
  rw [u16OfInt, u16OfInt, u16OfInt]
  omega

/-- One block keeps the agreement. -/
theorem Same.copy (h : Same d st ee) (n : ℕ) : Same d (st.copy n) (ee.copy d n) := by
  rw [Iop.copy, ToEe.copy]
  split_ifs with hn
  · have hbuf : st.d.stBufmax = d.stBufmax := by
      rw [h.d_eq, ToEe.commit]
      split_ifs <;> rfl
    have hstreamed : u16OfInt ((st.d.stStreamed : ℤ) - n) =
        u16OfInt ((d.stStreamed : ℤ) - (ee.result + n : ℕ)) := by
      rw [h.d_eq, ToEe.commit]
      split_ifs with hlen
      · exact u16OfInt_sub_sub _ _ _
      · rw [h.none (List.length_eq_zero_iff.mp (by omega)), Nat.zero_add]
    have hother : ∀ rd streamed, { st.d with stReadPtr := rd, stStreamed := streamed } =
        { d with stReadPtr := rd, stStreamed := streamed } := by
      intro rd streamed
      rw [h.d_eq, ToEe.commit]
      split_ifs <;> rfl
    refine ⟨?_, ?_, ?_, ?_, ?_, ?_⟩
    · have hpos : (ee.dmat ++ [Copy.mk st.d.stReadPtr ee.ptr n]).length > 0 := by simp
      rw [ToEe.commit]
      dsimp only
      rw [h.rdptr_eq, if_pos hpos, hstreamed]
      refine (hother _ _).trans ?_
      rw [hbuf]
    · dsimp only
      rw [h.rdptr_eq, hbuf]
    · dsimp only
      rw [h.result_eq]
    · dsimp only
      rw [h.ptr_eq]
    · dsimp only
      rw [h.dmat_eq, h.rdptr_eq, h.ptr_eq]
    · intro hnil
      simp at hnil
  · exact h

/-- **`ReadSectorsEE` does what `ReadSectors` does**, for every record and every count. -/
theorem readSectorsToEe_eq (d : StreamingData) (maxcount : ℤ) (buffer : ℕ) :
    readSectorsToEe d maxcount buffer = readSectorsIop d maxcount buffer := by
  have hstart : Same d ⟨d, 0, buffer, []⟩ ⟨d.stReadPtr, 0, buffer, []⟩ :=
    ⟨rfl, rfl, rfl, rfl, rfl, fun _ => rfl⟩
  have htail : Same d ((Iop.mk d 0 buffer []).tail maxcount)
      ((ToEe.mk d.stReadPtr 0 buffer []).tail d maxcount) := by
    rw [Iop.tail, ToEe.tail]
    split_ifs
    · exact hstart.copy _
    · exact hstart
  have hhead : Same d (((Iop.mk d 0 buffer []).tail maxcount).head maxcount)
      (((ToEe.mk d.stReadPtr 0 buffer []).tail d maxcount).head d maxcount) := by
    have hwrite : ((Iop.mk d 0 buffer []).tail maxcount).d.stWritePtr = d.stWritePtr := by
      rw [htail.d_eq, ToEe.commit]
      split_ifs <;> rfl
    rw [Iop.head, ToEe.head, htail.rdptr_eq, htail.result_eq, hwrite]
    split_ifs
    · exact htail.copy _
    · exact htail
  rw [readSectorsToEe, readSectorsIop]
  exact Prod.ext hhead.d_eq.symm (Prod.ext hhead.result_eq hhead.dmat_eq)

end Agree

/-! ### Where the sectors go -/

section Sectors

variable {d : StreamingData} {st : Iop} {buffer n : ℕ} {maxcount : ℤ}

theorem sectors_concat (copies : List Copy) (c : Copy) :
    sectors (copies ++ [c]) =
      sectors copies ++ (List.range c.count).map fun i => (c.src + i, c.dest + 2048 * i) := by
  rw [sectors, sectors, List.flatMap_append, List.flatMap_singleton]

/-- The sectors go to consecutive places from `buffer` on, and `ptr` is behind the last one. -/
structure Laid (buffer : ℕ) (st : Iop) : Prop where
  ptr_eq : st.ptr = buffer + 2048 * st.result
  dest : (sectors st.copies).map Prod.snd = (List.range st.result).map fun k => buffer + 2048 * k

theorem Laid.copy (h : Laid buffer st) (n : ℕ) : Laid buffer (st.copy n) := by
  rw [Iop.copy]
  split_ifs with hn
  · refine ⟨?_, ?_⟩
    · dsimp only
      rw [h.ptr_eq]
      omega
    · dsimp only
      rw [sectors_concat, List.map_append, h.dest, List.map_map, List.range_add, List.map_append,
        List.map_map]
      refine congrArg _ (List.map_congr_left fun i _ => ?_)
      simp only [Function.comp_apply, h.ptr_eq]
      omega
  · exact h

theorem laid_readSectorsIop (d : StreamingData) (maxcount : ℤ) (buffer : ℕ) :
    Laid buffer (((Iop.mk d 0 buffer []).tail maxcount).head maxcount) := by
  have hstart : Laid buffer ⟨d, 0, buffer, []⟩ := ⟨rfl, rfl⟩
  have htail : Laid buffer ((Iop.mk d 0 buffer []).tail maxcount) := by
    rw [Iop.tail]
    split_ifs
    · exact hstart.copy _
    · exact hstart
  rw [Iop.head]
  split_ifs
  · exact htail.copy _
  · exact htail

/-- The counters are `unsigned short int`s, and the read pointer is in the buffer. -/
structure Within (d : StreamingData) : Prop where
  read_lt : d.stReadPtr < d.stBufmax
  lt : d.stBufmax < 65536
  streamed_lt : d.stStreamed < 65536

/-- What a block does, whether it has something to copy or not. -/
theorem Iop.copy_eq (h : Within st.d) (n : ℕ) :
    (st.copy n).d = { st.d with
        stReadPtr :=
          if u16 (st.d.stReadPtr + n) ≥ st.d.stBufmax then 0 else u16 (st.d.stReadPtr + n)
        stStreamed := u16OfInt ((st.d.stStreamed : ℤ) - n) } ∧
      (st.copy n).result = st.result + n ∧
      (sectors (st.copy n).copies).map Prod.fst =
        (sectors st.copies).map Prod.fst ++ List.range' st.d.stReadPtr n := by
  rw [Iop.copy]
  by_cases hn : n > 0
  · rw [if_pos hn]
    refine ⟨rfl, rfl, ?_⟩
    dsimp only
    rw [sectors_concat, List.map_append, List.map_map, List.range'_eq_map_range]
    rfl
  · obtain rfl : n = 0 := by omega
    have hread := h.read_lt
    have hlt := h.lt
    have hstreamed : u16OfInt ((st.d.stStreamed : ℤ) - (0 : ℕ)) = st.d.stStreamed :=
      u16OfInt_sub (Nat.zero_le _) h.streamed_lt
    rw [if_neg hn, hstreamed, Nat.add_zero, u16_of_lt (by omega), if_neg (by omega)]
    exact ⟨rfl, rfl, (List.append_nil _).symm⟩

theorem Within.copy (h : Within st.d) (n : ℕ) : Within (st.copy n).d := by
  have hread := h.read_lt
  rw [(Iop.copy_eq h n).1]
  refine ⟨?_, h.lt, ?_⟩
  · dsimp only
    split_ifs <;> omega
  · exact Int.toNat_lt' (by decide) |>.mpr (Int.emod_lt_of_pos _ (by decide))

/-- `ReadSectors` as the machine of the stream has it. -/
theorem readSectorsIop_eq (h : Within d) (maxcount : ℤ) (buffer : ℕ) :
    (readSectorsIop d maxcount buffer).1 = (readSectors d maxcount).1 ∧
      (readSectorsIop d maxcount buffer).2.1 = (readSectors d maxcount).2.length ∧
      (sectors (readSectorsIop d maxcount buffer).2.2).map Prod.fst =
        (readSectors d maxcount).2 := by
  have htail : ((Iop.mk d 0 buffer []).tail maxcount).d = (readSectorsTail d maxcount).1 ∧
      ((Iop.mk d 0 buffer []).tail maxcount).result = (readSectorsTail d maxcount).2.length ∧
      (sectors ((Iop.mk d 0 buffer []).tail maxcount).copies).map Prod.fst =
        (readSectorsTail d maxcount).2 ∧ Within ((Iop.mk d 0 buffer []).tail maxcount).d := by
    rw [Iop.tail, readSectorsTail]
    split_ifs
    · have hcopy := @Iop.copy_eq ⟨d, 0, buffer, []⟩ h
        (clip (u16OfInt ((d.stBufmax : ℤ) - d.stReadPtr)) maxcount)
      refine ⟨hcopy.1, ?_, hcopy.2.2, @Within.copy ⟨d, 0, buffer, []⟩ h _⟩
      rw [hcopy.2.1, List.length_range', Nat.zero_add]
      rfl
    · exact ⟨rfl, rfl, rfl, h⟩
  obtain ⟨hd, hresult, hslots, hwithin⟩ := htail
  rw [readSectorsIop, readSectors]
  dsimp only
  rw [← hresult, ← hd, ← hslots, Iop.head, readSectorsHead]
  split_ifs
  · obtain ⟨hd', hresult', hslots'⟩ := Iop.copy_eq hwithin
      (clip (u16OfInt ((((Iop.mk d 0 buffer []).tail maxcount).d.stWritePtr : ℤ) -
        ((Iop.mk d 0 buffer []).tail maxcount).d.stReadPtr))
        (maxcount - ((Iop.mk d 0 buffer []).tail maxcount).result))
    refine ⟨hd', ?_, hslots'⟩
    rw [hresult', List.length_append, List.length_range', hslots, hresult]
    rfl
  · refine ⟨rfl, ?_, (List.append_nil _).symm⟩
    rw [List.append_nil, hslots, hresult]

end Sectors

/-! ### Runs -/

section Runs

variable {α : Type*}

/-- The states that are reached after a `sceCdStInit` that lays out a proper ring, when the reading
thread never goes on with a `StIsReading` that was taken back. -/
def Reached (disc : ℕ → α) (s : State α) : Prop :=
  ∃ (bufmax bankmax : ℕ) (d : StreamingData) (buf : ℕ → α) (es : List Event),
    RingOk bufmax bankmax ∧ sceCdStInit bufmax bankmax .zero = some d ∧
      Transition.RunOk (step disc) Event.Ok (initState d buf) es ∧
      run disc (initState d buf) es = some s

theorem Reached.inv {disc : ℕ → α} {s : State α} (h : Reached disc s) : Inv disc s := by
  obtain ⟨bufmax, bankmax, d, buf, es, hring, hinit, hok, hrun⟩ := h
  exact Transition.run_invariant_of_runOk (fun _ _ _ hs he hstep => hs.step he hstep)
    (Inv.init hring rfl hinit buf) hok hrun

/-- **Both functions copy the same.** For every record and every count they make the same copies, to
consecutive places, return the same count and leave the same record. In the states that are reached
they copy as many sectors as they are asked for and there are, the first of the ring. -/
theorem copies_agree (s : State α) (maxcount : ℤ) (buffer : ℕ) :
    readSectorsToEe s.d maxcount buffer = readSectorsIop s.d maxcount buffer ∧
      ((sectors (readSectorsIop s.d maxcount buffer).2.2).map Prod.snd =
        (List.range (readSectorsIop s.d maxcount buffer).2.1).map fun k => buffer + 2048 * k) ∧
      ∀ disc, Reached disc s → 0 ≤ maxcount →
        ((readSectorsIop s.d maxcount buffer).2.1 : ℤ) = min maxcount s.d.stStreamed ∧
        (sectors (readSectorsIop s.d maxcount buffer).2.2).map Prod.fst =
          Ring.slots s.d.stBufmax s.d.stReadPtr (readSectorsIop s.d maxcount buffer).2.1 := by
  refine ⟨readSectorsToEe_eq s.d maxcount buffer,
    (laid_readSectorsIop s.d maxcount buffer).dest, ?_⟩
  intro disc hreached hcount
  obtain ⟨m, rfl⟩ := Int.eq_ofNat_of_zero_le hcount
  have hring := hreached.inv.ring
  have hwithin : Within s.d :=
    ⟨hring.read_lt, hring.lt, Nat.lt_of_le_of_lt hring.streamed_le hring.lt⟩
  obtain ⟨-, hresult, hslots⟩ := readSectorsIop_eq hwithin m buffer
  rw [hresult, hslots, readSectors_eq hring, Ring.length_slots]
  exact ⟨by omega, rfl⟩

/-- A stream at sector `0`, when `n` banks of `k` sectors are full. -/
def banksFull (k : ℕ) (n : ℕ) : List Event :=
  [.call (.stStart 0), .caller, .caller, .caller] ++ List.replicate (n * (k + 8)) .reader

theorem copies_agree_two_banks :
    ∃ s, run (fun lsn => lsn) (initState ⟨4, 2, 2, 0, 0, 0, false, false, 0⟩ fun _ => 0)
        (banksFull 2 2) = some s ∧
      readSectorsToEe s.d 3 4096 = readSectorsIop s.d 3 4096 ∧
      ((readSectorsIop s.d 3 4096).2.1 : ℤ) = 3 :=
  ⟨_, rfl, (copies_agree _ 3 4096).1, ((copies_agree _ 3 4096).2.2 (fun lsn => lsn)
    ⟨4, 2, _, fun _ => 0, banksFull 2 2, by decide, rfl, by decide, rfl⟩ (by decide)).1⟩

/-- A ring that is not a whole number of banks has five sectors, four of which are copied when all
are asked for; and a count below zero takes more sectors than there are. -/
theorem not_min_copies :
    ((sceCdStInit 65541 21847 .zero).bind fun d =>
        (run (fun lsn => lsn) (initState d fun _ => 99)
          (banksFull 3 1 ++ [.call (.stRead 1 0 false), .caller, .caller, .caller, .caller] ++
            List.replicate 11 .reader)).map fun s =>
          (s.d.stStreamed, (readSectorsIop s.d 5 0).2.1, (readSectorsToEe s.d 5 0).2.1)) =
        some (5, 4, 4) ∧
      ((sceCdStInit 4 2 .zero).bind fun d =>
        (run (fun lsn => lsn) (initState d fun _ => 99) (banksFull 2 2)).map fun s =>
          (s.d.stStreamed, (readSectorsIop s.d (-2147483643) 0).2.1)) = some (4, 5) :=
  ⟨by decide, by decide⟩

end Runs

end Streaming

end OpenPS2Loader
