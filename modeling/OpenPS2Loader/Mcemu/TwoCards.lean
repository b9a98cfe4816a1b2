import Mathlib.Algebra.Group.Nat.Defs
import Mathlib.Data.Fin.Basic
import Mathlib.Tactic.SplitIfs
import OpenPS2Loader.Lib.Projection
import OpenPS2Loader.Mcemu.Commands

/-!
# Two memory cards

`Sio2McEmu` serves the two ports of the console. Each card has its own offsets and its own ECC
buffer, but `mc_configure` gives both of them the one buffer `mcdatabuf` for the data of a page: a
page is read into it and handed out chunk by chunk, and a page that is written is put together in
it.

The accesses to the card images succeed here. A run has commands to either card; what a card answers
and keeps is compared with the run of its own commands.

## Main definitions

* `Mce.execute` — what a card answers
* `Mce.Cards`, `Mce.cardStep` — both of them
* `Mce.Undisturbed` — the buffer is overwritten only when the other card is not in the middle of a
  page

## Main results

* `Mce.mceRead_withBuf`, `Mce.mceWrite_withBuf` — which part of the buffer a chunk depends on
* `Mce.cards_apart`
-/

namespace OpenPS2Loader

namespace Mce

/-! ### Commands -/

/-- The fields of a `MemoryCard`, and the pages of its image. -/
structure CardPort extends Port where
  image : UInt32 → List UInt8

namespace CardPort

def withRead (p : CardPort) (s : ReadState) : CardPort :=
  { p with toPort := p.toPort.withRead s }

def withWrite (p : CardPort) (s : WriteState) : CardPort :=
  { p with toPort := p.toPort.withWrite s }

/-- The card after pages were written. -/
def withPages (p : CardPort) (pages : List (UInt32 × List UInt8)) : CardPort :=
  { p with image := pages.foldl (fun image w q => if q = w.1 then w.2 else image q) p.image }

end CardPort

/-- A command of `Sio2McEmu`: the card and the buffer behind it, and the bytes of the answer. -/
def execute (spec : CardSpec) (p : CardPort) (buf : List UInt8) :
    Command → Option (CardPort × List UInt8 × List UInt8)
  | .erase length page =>
    (mceEraseBlock spec.flags spec.blockSize.toNat (fun _ _ => true) page).map fun pages =>
      (p.withPages pages, List.replicate pageSize spec.clearByte, sioResponse p.tcode length)
  | .startWrite length page =>
    some (p.withWrite (mceStartWrite (p.writeState buf) page), buf, sioResponse p.tcode length)
  | .startRead length page =>
    some (p.withRead (mceStartRead (p.readState buf) page), buf, sioResponse p.tcode length)
  | .spec =>
    some (p, buf, [0xFF, 0xFF, spec.flags.toUInt8] ++ spec.bytes ++
      [calculateEDC spec.bytes, p.tcode])
  | .termCode length code => some ({ p with tcode := code }, buf, sioResponse code length)
  | .write length size data =>
    (mceWrite (fun _ _ => true) (p.writeState buf) (Bytes.slice data 0 size.toNat)).map fun r =>
      ((p.withWrite r.1).withPages r.2, r.1.dbufp, sioResponse p.tcode length)
  | .read size =>
    (mceRead spec.flags (fun q => some (p.image q)) (p.readState buf) size.toNat).map fun r =>
      (p.withRead r.1, r.1.dbufp, [0xFF, 0xFF, 0xFF, 0x2B] ++ r.2 ++ [calculateEDC r.2, p.tcode])

/-- The two cards, and `mcdatabuf`. -/
structure Cards where
  port : Fin 2 → CardPort
  mcdatabuf : List UInt8

/-- A command to a card. -/
def cardStep (spec : Fin 2 → CardSpec) (s : Cards) (e : Fin 2 × Command) :
    Option (Cards × List UInt8) :=
  (execute (spec e.1) (s.port e.1) s.mcdatabuf e.2).map fun r =>
    (⟨fun c => if c = e.1 then r.1 else s.port c, r.2.1⟩, r.2.2)

/-! ### The buffer -/

/-- When a command puts something into the buffer, the other card is not in the middle of a page. -/
def Undisturbed (s : Cards) (e : Fin 2 × Command) : Prop :=
  (s.port e.1).overwrites e.2 = true → ∀ c, c ≠ e.1 → (s.port c).midPage = false

instance (s : Cards) (e : Fin 2 × Command) : Decidable (Undisturbed s e) :=
  inferInstanceAs (Decidable (_ → _))

/-! ### Reading a chunk -/

section Read

variable {flags : UInt32} {image : UInt32 → List UInt8} {s : ReadState} {tot size : ℕ}

/-- The state with another buffer. -/
def ReadState.withBuf (s : ReadState) (d : List UInt8) : ReadState := { s with dbufp := d }

/-- The page is in the buffer. -/
def loaded (flags : UInt32) (image : UInt32 → List UInt8) (s : ReadState) : ReadState :=
  if s.rdoff = 0 then
    { s with dbufp := image s.rpage, cbufp := eccArea flags (image s.rpage) }
  else
    s

/-- The data part of a pass. -/
theorem readData_eq (flags : UInt32) (image : UInt32 → List UInt8) (tot : ℕ) (s : ReadState)
    (size : ℕ) :
    readData flags (fun q => some (image q)) tot s size =
      some (if s.rdoff + dataSize s.rdoff size = pageSize then
          ({ loaded flags image s with rpage := s.rpage + 1, rdoff := 0, rcoff := s.rcoff + 3 },
            ((loaded flags image s).dbufp.drop s.rdoff).take (dataSize s.rdoff size),
            tot - dataSize s.rdoff size)
        else
          ({ loaded flags image s with
              rdoff := s.rdoff + dataSize s.rdoff size
              rcoff := s.rcoff + 3 },
            ((loaded flags image s).dbufp.drop s.rdoff).take (dataSize s.rdoff size), 0)) := by
  rw [readData, doRead, loaded]
  split
  next hoff =>
    simp only [Option.map_some, hoff]
  next hoff => rw [Option.map_some]

theorem dataSize_zero {size : ℕ} (h : size < pageSize) : dataSize 0 size = size := by
  rw [dataSize, if_neg (by omega)]

theorem eccSize_of_le_sixteen (h : size ≤ 16) : eccSize size = size := by
  rw [eccSize]
  split_ifs <;> omega

/-- A pass in the ECC area. -/
theorem readPass_eccOnly {dev : ReadPage} (h : EccOnly s.rdoff s.rcoff size) :
    readPass flags dev tot s size =
      some ({ s with rcoff := eccLeft s.rcoff size }, s.cbufp.take size, 0) := by
  obtain ⟨hcoff, hoff, hsize⟩ := h
  rw [readPass, if_pos ⟨hcoff, hoff⟩, eccSize_of_le_sixteen hsize]
  dsimp only
  rw [if_pos (Nat.sub_self size)]

/-- A pass from the start of a page that has data. -/
theorem readPass_start (hoff : s.rdoff = 0) (hsize : size < pageSize)
    (h : ¬EccOnly s.rdoff s.rcoff size) :
    ∃ s' out, s'.rdoff < pageSize ∧ s'.dbufp = image s.rpage ∧
      ∀ d, readPass flags (fun q => some (image q)) tot (s.withBuf d) size = some (s', out, 0) := by
  have hdata : ∀ (c : ℤ) (n : ℕ), n < pageSize → ∃ s' out, s'.rdoff < pageSize ∧
      s'.dbufp = image s.rpage ∧ ∀ d, readData flags (fun q => some (image q)) tot
        { s.withBuf d with rcoff := c } n = some (s', out, 0) := by
    intro c n hn
    refine ⟨⟨s.rpage, n, c + 3, image s.rpage, eccArea flags (image s.rpage)⟩,
      (image s.rpage).take n, hn, rfl, fun d => ?_⟩
    rw [readData_eq, loaded, ReadState.withBuf]
    dsimp only
    rw [hoff, dataSize_zero hn, Nat.zero_add, if_neg (Nat.ne_of_lt hn), if_pos rfl, List.drop_zero]
  by_cases hcoff : s.rcoff = 0
  · obtain ⟨s', out, hlt, hbuf, hall⟩ := hdata s.rcoff size hsize
    refine ⟨s', out, hlt, hbuf, fun d => ?_⟩
    rw [readPass, if_neg fun hecc => hecc.1 hcoff]
    exact hall d
  · have hlarge : ¬size ≤ 16 := fun hle => h ⟨hcoff, hoff, hle⟩
    obtain ⟨s', out, hlt, hbuf, hall⟩ := hdata (eccLeft s.rcoff size) (size - eccSize size)
      (by omega)
    refine ⟨s', s.cbufp.take (eccSize size) ++ out, hlt, hbuf, fun d => ?_⟩
    have hecc : eccSize size = 16 := by rw [eccSize, if_neg (by omega)]
    rw [readPass, if_pos ⟨hcoff, hoff⟩]
    dsimp only
    rw [if_neg (by omega)]
    have hd := hall d
    rw [ReadState.withBuf] at hd ⊢
    dsimp only at hd ⊢
    rw [hd, Option.map_some]

/-- A call of one pass. -/
theorem readPasses_of_pass {dev : ReadPage} {fuel : ℕ} {s' : ReadState} {out : List UInt8}
    (h : readPass flags dev tot s size = some (s', out, 0)) :
    readPasses flags dev tot (fuel + 1) s size = some (s', out) := by
  rw [readPasses, h, Option.bind_some]
  exact if_pos rfl

/-- The chunk does not depend on the buffer, unless the game is in the middle of a page, and leaves
the buffer or a page of the card in it. -/
structure ReadResult (flags : UInt32) (image : UInt32 → List UInt8) (s : ReadState) (size : ℕ)
    (s' : ReadState) (out : List UInt8) : Prop where
  rdoff_lt : s'.rdoff < pageSize
  kept : loads s.rdoff s.rcoff size = false → (s'.rdoff ≠ 0 → s.rdoff ≠ 0) ∧
    ∀ d, (s.rdoff ≠ 0 → d = s.dbufp) →
      mceRead flags (fun q => some (image q)) (s.withBuf d) size = some (s'.withBuf d, out)
  filled : loads s.rdoff s.rcoff size = true → (∃ q, s'.dbufp = image q) ∧
    ∀ d, (s.rdoff ≠ 0 → d = s.dbufp) →
      mceRead flags (fun q => some (image q)) (s.withBuf d) size = some (s', out)

/-- A chunk at the start of a page. -/
theorem readPasses_start (tot : ℕ) (hoff : s.rdoff = 0) (hsize : size < pageSize) :
    ∃ s' out, s'.rdoff < pageSize ∧
      (EccOnly 0 s.rcoff size → s'.rdoff = 0 ∧ ∀ fuel d,
        readPasses flags (fun q => some (image q)) tot (fuel + 1) (s.withBuf d) size =
          some (s'.withBuf d, out)) ∧
      (¬EccOnly 0 s.rcoff size → s'.dbufp = image s.rpage ∧ ∀ fuel d,
        readPasses flags (fun q => some (image q)) tot (fuel + 1) (s.withBuf d) size =
          some (s', out)) := by
  by_cases hecc : EccOnly 0 s.rcoff size
  · refine ⟨{ s with rcoff := eccLeft s.rcoff size }, s.cbufp.take size, ?_, ?_,
      fun hnot => absurd hecc hnot⟩
    · show s.rdoff < pageSize
      rw [hoff]
      decide
    · intro _
      refine ⟨hoff, fun fuel d => readPasses_of_pass ?_⟩
      have hat : EccOnly (s.withBuf d).rdoff (s.withBuf d).rcoff size := ⟨hecc.1, hoff, hecc.2.2⟩
      rw [readPass_eccOnly hat]
      rfl
  · obtain ⟨s', out, hlt, hbuf, hall⟩ := readPass_start hoff hsize (by rwa [hoff])
    exact ⟨s', out, hlt, fun h => absurd h hecc, fun _ =>
      ⟨hbuf, fun fuel d => readPasses_of_pass (hall d)⟩⟩

theorem ReadState.withBuf_of_middle (hzero : s.rdoff ≠ 0) {d : List UInt8}
    (hd : s.rdoff ≠ 0 → d = s.dbufp) : s.withBuf d = s := by
  rw [hd hzero]
  rfl

/-- A pass in the middle of a page takes what is in the buffer. -/
theorem readPass_middle (hzero : s.rdoff ≠ 0) :
    readPass flags (fun q => some (image q)) size s size =
      some (if s.rdoff + dataSize s.rdoff size = pageSize then
        ({ s with rpage := s.rpage + 1, rdoff := 0, rcoff := s.rcoff + 3 },
          (s.dbufp.drop s.rdoff).take (dataSize s.rdoff size), size - dataSize s.rdoff size)
      else
        ({ s with rdoff := s.rdoff + dataSize s.rdoff size, rcoff := s.rcoff + 3 },
          (s.dbufp.drop s.rdoff).take (dataSize s.rdoff size), 0)) := by
  rw [readPass, if_neg fun h => hzero h.2, readData_eq, loaded, if_neg hzero]

/-- A chunk at the start of a page depends on the page only. -/
theorem mceRead_atStart (hzero : s.rdoff = 0) (hsmall : size < pageSize) :
    ∃ s' out, ReadResult flags image s size s' out := by
  obtain ⟨s', out, hlt, hecc, hdata⟩ := readPasses_start size hzero hsmall
  have hloads : loads s.rdoff s.rcoff size = !decide (EccOnly 0 s.rcoff size) := by
    rw [loads, if_pos hzero]
  refine ⟨s', out, hlt, ?_, ?_⟩
  · intro hkept
    rw [hloads] at hkept
    obtain ⟨hzero', hall⟩ := hecc (by simpa using hkept)
    exact ⟨fun hne => absurd hzero' hne, fun d _ => hall 1 d⟩
  · intro hfilled
    rw [hloads] at hfilled
    obtain ⟨hbuf, hall⟩ := hdata (by simpa using hfilled)
    exact ⟨⟨_, hbuf⟩, fun d _ => hall 1 d⟩

/-- A chunk across the end of a page is the rest of the buffer and a chunk at the start of the next
page. -/
theorem mceRead_across (hoff : s.rdoff < pageSize) (hzero : s.rdoff ≠ 0) (hsmall : size < pageSize)
    (hend : pageSize < s.rdoff + size) : ∃ s' out, ReadResult flags image s size s' out := by
  have hpass : readPass flags (fun q => some (image q)) size s size = _ := readPass_middle hzero
  have hdata : dataSize s.rdoff size = pageSize - s.rdoff := by rw [dataSize, if_pos (by omega)]
  have hnext : size - (pageSize - s.rdoff) ≠ 0 := by omega
  rw [hdata, if_pos (by omega)] at hpass
  obtain ⟨s', out, hlt, hecc, hmore⟩ := readPasses_start
    (s := { s with rpage := s.rpage + 1, rdoff := 0, rcoff := s.rcoff + 3 }) size rfl
    (show size - (pageSize - s.rdoff) < pageSize by omega)
  have hloads : loads s.rdoff s.rcoff size =
      !decide (EccOnly 0 (s.rcoff + 3) (size - (pageSize - s.rdoff))) := by
    rw [loads, if_neg hzero, decide_eq_true (by omega), Bool.true_and]
  have hread : ∀ t o, readPasses flags (fun q => some (image q)) size (0 + 1)
      { s with rpage := s.rpage + 1, rdoff := 0, rcoff := s.rcoff + 3 }
      (size - (pageSize - s.rdoff)) = some (t, o) →
      mceRead flags (fun q => some (image q)) s size = some (t,
        (s.dbufp.drop s.rdoff).take (pageSize - s.rdoff) ++ o) := by
    intro t o h
    rw [mceRead, readPasses, hpass, Option.bind_some]
    dsimp only
    rw [if_neg hnext, h, Option.map_some]
  refine ⟨s', (s.dbufp.drop s.rdoff).take (pageSize - s.rdoff) ++ out, hlt, ?_, ?_⟩
  · intro hkept
    rw [hloads] at hkept
    obtain ⟨hzero', hall⟩ := hecc (by simpa using hkept)
    refine ⟨fun hne => absurd hzero' hne, fun d hd => ?_⟩
    rw [ReadState.withBuf_of_middle hzero hd, hd hzero]
    exact hread _ _ (hall 0 s.dbufp)
  · intro hfilled
    rw [hloads] at hfilled
    obtain ⟨hbuf, hall⟩ := hmore (by simpa using hfilled)
    refine ⟨⟨_, hbuf⟩, fun d hd => ?_⟩
    rw [ReadState.withBuf_of_middle hzero hd]
    exact hread _ _ (hall 0 s.dbufp)

/-- A chunk inside a page is taken from the buffer, which stays. -/
theorem mceRead_inside (hzero : s.rdoff ≠ 0) (hend : s.rdoff + size ≤ pageSize) :
    ∃ s' out, ReadResult flags image s size s' out := by
  have hdata : dataSize s.rdoff size = size := by rw [dataSize, if_neg (by omega)]
  have hloads : loads s.rdoff s.rcoff size = false := by
    rw [loads, if_neg hzero, decide_eq_false (by omega), Bool.false_and]
  have hone : ∃ s', s'.rdoff < pageSize ∧ s'.dbufp = s.dbufp ∧
      readPass flags (fun q => some (image q)) size s size =
        some (s', (s.dbufp.drop s.rdoff).take size, 0) := by
    rw [readPass_middle hzero, hdata]
    split
    next hfull =>
      refine ⟨{ s with rpage := s.rpage + 1, rdoff := 0, rcoff := s.rcoff + 3 }, ?_, rfl, ?_⟩
      · show 0 < pageSize
        decide
      · rw [Nat.sub_self]
    next hfull =>
      refine ⟨{ s with rdoff := s.rdoff + size, rcoff := s.rcoff + 3 }, ?_, rfl, rfl⟩
      show s.rdoff + size < pageSize
      omega
  obtain ⟨s', hlt, hbuf, hall⟩ := hone
  refine ⟨s', (s.dbufp.drop s.rdoff).take size, hlt, ?_, ?_⟩
  · intro _
    refine ⟨fun _ => hzero, fun d hd => ?_⟩
    have hsame' : s'.withBuf d = s' := by
      rw [hd hzero, ← hbuf]
      rfl
    rw [ReadState.withBuf_of_middle hzero hd, hsame']
    exact readPasses_of_pass hall
  · intro hfilled
    rw [hloads] at hfilled
    cases hfilled

/-- **A chunk that is read.** -/
theorem mceRead_withBuf (hoff : s.rdoff < pageSize) (hsize : size < 256) :
    ∃ s' out, ReadResult flags image s size s' out := by
  have hsmall : size < pageSize := by
    rw [pageSize]
    omega
  by_cases hzero : s.rdoff = 0
  · exact mceRead_atStart hzero hsmall
  · by_cases hend : pageSize < s.rdoff + size
    · exact mceRead_across hoff hzero hsmall hend
    · exact mceRead_inside hzero (by omega)

end Read

/-! ### Writing a chunk -/

section Write

open Bytes

variable {s s' : WriteState} {d d' buf : List UInt8} {tot size : ℕ}
  {pages pages' : List (UInt32 × List UInt8)}

/-- The state with another buffer. -/
def WriteState.withBuf (s : WriteState) (d : List UInt8) : WriteState := { s with dbufp := d }

/-- The buffers have the same bytes of the page that is put together. -/
structure Agrees (s : WriteState) (d : List UInt8) : Prop where
  length : d.length = pageSize
  length_dbufp : s.dbufp.length = pageSize
  take : d.take s.wroff = s.dbufp.take s.wroff

/-- What a chunk keeps when it is written with two buffers. -/
structure WriteResult (s : WriteState) (d : List UInt8) (s' : WriteState) (d' : List UInt8)
    (pages : List (UInt32 × List UInt8)) : Prop where
  wroff_lt : s'.wroff < pageSize
  agrees : Agrees s' d'
  same : d = s.dbufp → d' = s'.dbufp
  length_pages : ∀ w ∈ pages, w.2.length = pageSize

theorem WriteResult.trans (h : WriteResult s d s' d' pages) {s₁ : WriteState} {d₁ : List UInt8}
    (h' : WriteResult s' d' s₁ d₁ pages') : WriteResult s d s₁ d₁ (pages ++ pages') := by
  refine ⟨h'.wroff_lt, h'.agrees, fun hd => h'.same (h.same hd), ?_⟩
  intro w hw
  obtain hw | hw := List.mem_append.mp hw
  · exact h.length_pages w hw
  · exact h'.length_pages w hw

theorem writeData_eq (tot : ℕ) (s : WriteState) (buf : List UInt8) {size n : ℕ}
    (hn : dataSize s.wroff size = n) (hlen : n ≤ buf.length) :
    writeData (fun _ _ => true) tot s buf size =
      some (if s.wroff + n = pageSize then
          (⟨s.wpage + 1, 0, s.wcoff + 3, overwrite s.dbufp s.wroff (buf.take n)⟩,
            [(s.wpage, (overwrite s.dbufp s.wroff (buf.take n)).take pageSize)], buf.drop n,
            tot - n)
        else
          (⟨s.wpage, s.wroff + n, s.wcoff + 3, overwrite s.dbufp s.wroff (buf.take n)⟩, [],
            buf.drop n, 0)) := by
  have hover : s.dbufp.take s.wroff ++ buf.take n ++ s.dbufp.drop (s.wroff + n) =
      overwrite s.dbufp s.wroff (buf.take n) := by
    rw [overwrite, List.length_take_of_le hlen]
  rw [writeData, hn, hover]
  split
  · rfl
  · rfl

/-- The data part of a pass with two buffers: it ends the chunk, or it ends the page. -/
theorem writeData_withBuf (h : Agrees s d) (hoff : s.wroff < pageSize)
    (hsize : size ≤ buf.length) :
    ∃ s' d' pages rest next,
      writeData (fun _ _ => true) tot s buf size = some (s', pages, rest, next) ∧
      writeData (fun _ _ => true) tot (s.withBuf d) buf size =
        some (s'.withBuf d', pages, rest, next) ∧
      WriteResult s d s' d' pages ∧ (size = 0 → s'.dbufp = s.dbufp) ∧
      (next = 0 ∨ pageSize - s.wroff ≤ size ∧ next = tot - (pageSize - s.wroff) ∧
        rest = buf.drop (pageSize - s.wroff) ∧ s'.wroff = 0 ∧ s'.wcoff = s.wcoff + 3) := by
  obtain ⟨n, hn⟩ : ∃ n, dataSize s.wroff size = n := ⟨_, rfl⟩
  have hbound : n ≤ size ∧ s.wroff + n ≤ pageSize := by
    rw [dataSize] at hn
    split at hn <;> omega
  have hlen : (buf.take n).length = n := List.length_take_of_le (by omega)
  have hfits : s.wroff + (buf.take n).length ≤ s.dbufp.length := by
    rw [hlen, h.length_dbufp]
    exact hbound.2
  have hfits' : s.wroff + (buf.take n).length ≤ d.length := by
    rw [hlen, h.length]
    exact hbound.2
  have htake : (overwrite d s.wroff (buf.take n)).take (s.wroff + n) =
      (overwrite s.dbufp s.wroff (buf.take n)).take (s.wroff + n) := by
    have hs := take_overwrite hfits
    have hd := take_overwrite hfits'
    rw [hlen] at hs hd
    rw [hs, hd, h.take]
  have hagree : ∀ t : WriteState, t.dbufp = overwrite s.dbufp s.wroff (buf.take n) →
      t.wroff ≤ s.wroff + n → Agrees t (overwrite d s.wroff (buf.take n)) := by
    intro t hbuf hle
    refine ⟨?_, ?_, ?_⟩
    · rw [length_overwrite hfits', h.length]
    · rw [hbuf, length_overwrite hfits, h.length_dbufp]
    · have hcut := congrArg (List.take t.wroff) htake
      rwa [List.take_take, List.take_take, Nat.min_eq_left hle, ← hbuf] at hcut
  have hsame : d = s.dbufp →
      overwrite d s.wroff (buf.take n) = overwrite s.dbufp s.wroff (buf.take n) := by
    rintro rfl
    rfl
  have hzero : size = 0 → overwrite s.dbufp s.wroff (buf.take n) = s.dbufp := by
    intro hs
    obtain rfl : n = 0 := by omega
    rw [List.take_zero, overwrite_nil]
  have heq := writeData_eq tot s buf hn (by omega)
  have heq' := writeData_eq tot (s.withBuf d) buf hn (by omega)
  rw [WriteState.withBuf] at heq'
  dsimp only at heq'
  by_cases hend : s.wroff + n = pageSize
  · rw [if_pos hend] at heq heq'
    rw [← hend, htake, hend] at heq'
    refine ⟨_, overwrite d s.wroff (buf.take n), _, _, _, heq, heq',
      ⟨show 0 < pageSize by decide, hagree _ rfl (Nat.zero_le _), hsame, ?_⟩, hzero, .inr ?_⟩
    · intro w hw
      obtain rfl := List.mem_singleton.mp hw
      dsimp only
      rw [List.length_take, length_overwrite hfits, h.length_dbufp, Nat.min_self]
    · obtain rfl : n = pageSize - s.wroff := by omega
      exact ⟨hbound.1, rfl, rfl, rfl, rfl⟩
  · rw [if_neg hend] at heq heq'
    refine ⟨_, overwrite d s.wroff (buf.take n), _, _, _, heq, heq',
      ⟨?_, hagree _ rfl (Nat.le_refl _), hsame, ?_⟩, hzero, .inl rfl⟩
    · show s.wroff + n < pageSize
      omega
    · intro w hw
      cases hw

/-- A call of one pass. -/
theorem writePasses_of_pass {dev : WritePage} {fuel : ℕ} {rest : List UInt8}
    (h : writePass dev tot s buf size = some (s', pages, rest, 0)) :
    writePasses dev tot (fuel + 1) s buf size = some (s', pages) := by
  rw [writePasses, h, Option.bind_some]
  exact if_pos rfl

/-- A chunk at the start of a page. -/
theorem writePasses_start (tot : ℕ) (h : Agrees s d) (hoff : s.wroff = 0) (hsmall : size < pageSize)
    (hsize : size ≤ buf.length) :
    ∃ s' d' pages,
      (∀ fuel, writePasses (fun _ _ => true) tot (fuel + 1) s buf size = some (s', pages) ∧
        writePasses (fun _ _ => true) tot (fuel + 1) (s.withBuf d) buf size =
          some (s'.withBuf d', pages)) ∧
      WriteResult s d s' d' pages ∧
      (size = 0 ∨ EccOnly s.wroff s.wcoff size → s'.dbufp = s.dbufp) := by
  have hlt : s.wroff < pageSize := by
    rw [hoff]
    decide
  by_cases hcoff : s.wcoff = 0
  · obtain ⟨s', d', pages, rest, next, heq, heq', hres, hzero, hend⟩ :=
      writeData_withBuf h hlt hsize
    have hnext : next = 0 := by
      rw [hoff, Nat.sub_zero] at hend
      omega
    subst hnext
    refine ⟨s', d', pages, fun fuel => ⟨writePasses_of_pass (?_ : _ = some (s', pages, rest, 0)),
      writePasses_of_pass (?_ : _ = some (s'.withBuf d', pages, rest, 0))⟩, hres, ?_⟩
    · rw [writePass, if_neg fun hecc => hecc.1 hcoff, heq]
    · rw [writePass, if_neg fun hecc => hecc.1 hcoff, heq']
    · rintro (hs | hecc)
      · exact hzero hs
      · exact absurd hcoff hecc.1
  · have hagree : Agrees { s with wcoff := eccLeft s.wcoff size } d := ⟨h.1, h.2, h.3⟩
    by_cases hecc : size - eccSize size = 0
    · refine ⟨{ s with wcoff := eccLeft s.wcoff size }, d, [], fun fuel =>
        ⟨writePasses_of_pass (?_ : _ = some (_, [], buf.drop (eccSize size), 0)),
          writePasses_of_pass (?_ : _ = some (_, [], buf.drop (eccSize size), 0))⟩,
        ⟨hlt, hagree, id, fun w hw => absurd hw List.not_mem_nil⟩, fun _ => rfl⟩
      · rw [writePass, if_pos ⟨hcoff, hoff⟩]
        exact if_pos hecc
      · rw [writePass, WriteState.withBuf, if_pos ⟨hcoff, hoff⟩]
        exact if_pos hecc
    · have hlarge : ¬size ≤ 16 := by
        intro hle
        rw [eccSize_of_le_sixteen hle] at hecc
        omega
      have hrest : size - eccSize size ≤ (buf.drop (eccSize size)).length := by
        rw [List.length_drop]
        omega
      obtain ⟨s', d', pages, rest, next, heq, heq', hres, -, hend⟩ :=
        writeData_withBuf hagree hlt hrest
      have hnext : next = 0 := by
        dsimp only at hend
        rw [hoff, Nat.sub_zero] at hend
        omega
      subst hnext
      refine ⟨s', d', pages, fun fuel => ⟨writePasses_of_pass (?_ : _ = some (s', pages, rest, 0)),
        writePasses_of_pass (?_ : _ = some (s'.withBuf d', pages, rest, 0))⟩,
        ⟨hres.1, hres.2, hres.3, hres.4⟩, ?_⟩
      · rw [writePass, if_pos ⟨hcoff, hoff⟩]
        dsimp only
        rw [if_neg hecc, heq]
      · rw [WriteState.withBuf] at heq' ⊢
        rw [writePass, if_pos ⟨hcoff, hoff⟩]
        dsimp only at heq' ⊢
        rw [if_neg hecc, heq']
      · rintro (hs | hecc)
        · omega
        · exact absurd hecc.2.2 hlarge

/-- **A chunk that is written.** -/
theorem mceWrite_withBuf (h : Agrees s d) (hoff : s.wroff < pageSize) (hlen : buf.length < 256) :
    ∃ s' d' pages, mceWrite (fun _ _ => true) s buf = some (s', pages) ∧
      mceWrite (fun _ _ => true) (s.withBuf d) buf = some (s'.withBuf d', pages) ∧
      WriteResult s d s' d' pages ∧
      (buf.length = 0 ∨ EccOnly s.wroff s.wcoff buf.length → s'.dbufp = s.dbufp) := by
  have hsmall : buf.length < pageSize := by
    rw [pageSize]
    omega
  by_cases hzero : s.wroff = 0
  · obtain ⟨s', d', pages, hall, hres, hkept⟩ :=
      writePasses_start buf.length h hzero hsmall (Nat.le_refl _)
    exact ⟨s', d', pages, (hall 1).1, (hall 1).2, hres, hkept⟩
  · obtain ⟨s₁, d₁, pages₁, rest, next, heq, heq', hres, hsame, hend⟩ :=
      writeData_withBuf h hoff (Nat.le_refl _)
    have hpass : writePass (fun _ _ => true) buf.length s buf buf.length =
        some (s₁, pages₁, rest, next) := by
      rw [writePass, if_neg fun hecc => hzero hecc.2, heq]
    have hpass' : writePass (fun _ _ => true) buf.length (s.withBuf d) buf buf.length =
        some (s₁.withBuf d₁, pages₁, rest, next) := by
      rw [writePass, if_neg fun hecc => hzero hecc.2, heq']
    have hkept : buf.length = 0 ∨ EccOnly s.wroff s.wcoff buf.length → buf.length = 0 :=
      fun h => h.resolve_right fun hecc => hzero hecc.2.1
    by_cases hnext : next = 0
    · subst hnext
      exact ⟨s₁, d₁, pages₁, writePasses_of_pass hpass, writePasses_of_pass hpass', hres,
        fun h => hsame (hkept h)⟩
    · obtain ⟨hle, rfl, rfl, hoff₁, -⟩ := hend.resolve_left hnext
      obtain ⟨s', d', pages, hall, hres', -⟩ := writePasses_start buf.length hres.agrees hoff₁
        (show buf.length - (pageSize - s.wroff) < pageSize by omega)
        (show _ ≤ (buf.drop (pageSize - s.wroff)).length by rw [List.length_drop])
      refine ⟨s', d', pages₁ ++ pages, ?_, ?_, hres.trans hres', fun h => ?_⟩
      · rw [mceWrite, writePasses, hpass, Option.bind_some]
        dsimp only
        rw [if_neg hnext, (hall 0).1, Option.map_some]
      · rw [mceWrite, writePasses, hpass', Option.bind_some]
        dsimp only
        rw [if_neg hnext, (hall 0).2, Option.map_some]
      · have := hkept h
        omega

end Write

/-! ### A command -/

/-- The offsets are in a page, and the image has pages. -/
structure CardPort.Sound (p : CardPort) : Prop where
  rdoff_lt : p.rdoff < pageSize
  wroff_lt : p.wroff < pageSize
  length_image : ∀ q, (p.image q).length = pageSize

/-- A buffer that does for a card what the other one does: it is the same one in the middle of a
page that is read, and has the same bytes of a page that is put together. -/
structure Serves (p : CardPort) (buf d : List UInt8) : Prop where
  length : d.length = pageSize
  reading : p.rdoff ≠ 0 → d = buf
  writing : d.take p.wroff = buf.take p.wroff

theorem Serves.refl {buf : List UInt8} (h : buf.length = pageSize) (p : CardPort) :
    Serves p buf buf :=
  ⟨h, fun _ => rfl, rfl⟩

/-- Any buffer does when the game is not in the middle of a page. -/
theorem serves_of_not_midPage {p : CardPort} {buf d : List UInt8} (h : p.midPage = false)
    (hd : d.length = pageSize) : Serves p buf d := by
  obtain ⟨hr, hw⟩ : p.rdoff = 0 ∧ p.wroff = 0 := by simpa [Port.midPage] using h
  exact ⟨hd, fun hne => absurd hr hne, by rw [hw, List.take_zero, List.take_zero]⟩

theorem length_withPages {p : CardPort} (h : ∀ q, (p.image q).length = pageSize)
    {pages : List (UInt32 × List UInt8)} (hpages : ∀ w ∈ pages, w.2.length = pageSize) :
    ∀ q, ((p.withPages pages).image q).length = pageSize := by
  suffices hall : ∀ image : UInt32 → List UInt8, (∀ q, (image q).length = pageSize) → ∀ q,
      (pages.foldl (fun image w q => if q = w.1 then w.2 else image q) image q).length =
        pageSize from hall p.image h
  induction pages with
  | nil => exact fun image himage => himage
  | cons w pages ih =>
    intro image himage
    refine ih (fun v hv => hpages v (List.mem_cons_of_mem _ hv)) _ fun q => ?_
    dsimp only
    split
    · exact hpages w List.mem_cons_self
    · exact himage q

theorem eraseLoop_true (clear : List UInt8) (n : ℕ) (page : UInt32) :
    ∃ pages, eraseLoop (fun _ _ => true) clear n page = some pages ∧ ∀ w ∈ pages, w.2 = clear := by
  induction n generalizing page with
  | zero => exact ⟨[], rfl, fun w hw => absurd hw List.not_mem_nil⟩
  | succ n ih =>
    obtain ⟨pages, hpages, hclear⟩ := ih (page + 1)
    refine ⟨(page, clear) :: pages, ?_, ?_⟩
    · rw [eraseLoop, if_pos rfl, hpages, Option.map_some]
    · intro w hw
      obtain rfl | hw := List.mem_cons.mp hw
      · rfl
      · exact hclear w hw

/-- What a command does with one buffer it does with another one that serves. -/
structure Executes (spec : CardSpec) (p : CardPort) (buf : List UInt8) (cmd : Command)
    (p' : CardPort)
    (buf' reply : List UInt8) : Prop where
  sound : p'.Sound
  length : buf'.length = pageSize
  kept : p.overwrites cmd = false → buf' = buf
  serves : ∀ d, Serves p buf d →
    ∃ d', execute spec p d cmd = some (p', d', reply) ∧ Serves p' buf' d' ∧ (d = buf → d' = buf')

section execute

variable (spec : CardSpec) {p : CardPort} {buf : List UInt8} (hp : p.Sound)
  (hbuf : buf.length = pageSize)

include hp hbuf

theorem executes_read (size : UInt8) :
    ∃ p' buf' reply, Executes spec p buf (.read size) p' buf' reply := by
  obtain ⟨s', out, hread⟩ : ∃ s' out, ReadResult spec.flags p.image (p.readState buf) size.toNat
      s' out := mceRead_withBuf hp.rdoff_lt size.toNat_lt
  have hsound : (p.withRead s').Sound := ⟨hread.rdoff_lt, hp.wroff_lt, hp.length_image⟩
  cases hloads : loads p.rdoff p.rcoff size.toNat with
  | false =>
    obtain ⟨hmid, hall⟩ := hread.kept hloads
    refine ⟨p.withRead s', buf, [0xFF, 0xFF, 0xFF, 0x2B] ++ out ++ [calculateEDC out, p.tcode],
      hsound, hbuf, fun _ => rfl, fun d hd => ⟨d, ?_, ?_, id⟩⟩
    · have heq : mceRead spec.flags (fun q => some (p.image q)) (p.readState d) size.toNat =
          some (s'.withBuf d, out) := hall d hd.reading
      rw [execute, heq]
      rfl
    · exact ⟨hd.length, fun hne => hd.reading (hmid hne), hd.writing⟩
  | true =>
    obtain ⟨⟨q, hq⟩, hall⟩ := hread.filled hloads
    refine ⟨p.withRead s', s'.dbufp,
      [0xFF, 0xFF, 0xFF, 0x2B] ++ out ++ [calculateEDC out, p.tcode], hsound, ?_, ?_,
      fun d hd => ⟨s'.dbufp, ?_, ?_, fun _ => rfl⟩⟩
    · rw [hq]
      exact hp.length_image q
    · intro hkept
      exact absurd (hloads.symm.trans hkept) (by decide)
    · have heq : mceRead spec.flags (fun q => some (p.image q)) (p.readState d) size.toNat =
          some (s', out) := hall d hd.reading
      rw [execute, heq]
      rfl
    · exact Serves.refl (by rw [hq]; exact hp.length_image q) _

theorem executes_write (length : ℕ) (size : UInt8) (data : ℕ → UInt8) :
    ∃ p' buf' reply, Executes spec p buf (.write length size data) p' buf' reply := by
  have hlen : (Bytes.slice data 0 size.toNat).length < 256 := by
    rw [Bytes.length_slice]
    exact size.toNat_lt
  obtain ⟨s', d', pages, hwrite, -, hres, hkept⟩ := mceWrite_withBuf
    (s := p.writeState buf) (d := buf) ⟨hbuf, hbuf, rfl⟩ hp.wroff_lt hlen
  refine ⟨(p.withWrite s').withPages pages, s'.dbufp, sioResponse p.tcode length,
    ⟨hp.rdoff_lt, hres.wroff_lt, length_withPages hp.length_image hres.length_pages⟩,
    hres.agrees.length_dbufp, ?_, ?_⟩
  · intro hnot
    refine hkept ?_
    rw [Bytes.length_slice]
    by_cases hsize : size = 0
    · exact .inl (by rw [hsize]; rfl)
    · have hecc : EccOnly p.wroff p.wcoff size.toNat := by
        simpa [Port.overwrites, hsize] using hnot
      exact .inr hecc
  · intro d hd
    obtain ⟨s₁, d₁, pages₁, hwrite₁, hwrite', hres₁, -⟩ := mceWrite_withBuf
      (s := p.writeState buf) (d := d) ⟨hd.length, hbuf, hd.writing⟩ hp.wroff_lt hlen
    obtain ⟨rfl, rfl⟩ := Prod.mk.inj (Option.some.inj (hwrite.symm.trans hwrite₁))
    refine ⟨d₁, ?_, ⟨hres₁.agrees.length, fun hne => hres₁.same (hd.reading hne),
      hres₁.agrees.take⟩, hres₁.same⟩
    have heq : mceWrite (fun _ _ => true) (p.writeState d) (Bytes.slice data 0 size.toNat) =
        some (s'.withBuf d₁, pages) := hwrite'
    rw [execute, heq]
    rfl

/-- **Every command has an answer**, and depends on the part of the buffer that serves. -/
theorem executes (cmd : Command) : ∃ p' buf' reply, Executes spec p buf cmd p' buf' reply := by
  cases cmd with
  | erase length page =>
    obtain ⟨pages, hpages, hclear⟩ := eraseLoop_true
      (List.replicate pageSize spec.clearByte) spec.blockSize.toNat page
    have hlen : (List.replicate pageSize spec.clearByte).length = pageSize :=
      List.length_replicate
    refine ⟨p.withPages pages, List.replicate pageSize spec.clearByte,
      sioResponse p.tcode length, ⟨hp.rdoff_lt, hp.wroff_lt, length_withPages hp.length_image ?_⟩,
      hlen, ?_, fun d _ => ⟨List.replicate pageSize spec.clearByte, ?_, Serves.refl hlen _,
        fun _ => rfl⟩⟩
    · intro w hw
      rw [hclear w hw, hlen]
    · intro hnot
      cases hnot
    · have herase : mceEraseBlock spec.flags spec.blockSize.toNat (fun _ _ => true) page =
          some pages := hpages
      rw [execute, herase]
      rfl
  | startWrite length page =>
    refine ⟨p.withWrite (mceStartWrite (p.writeState buf) page), buf, sioResponse p.tcode length,
      ⟨hp.rdoff_lt, show 0 < pageSize by decide, hp.length_image⟩, hbuf, fun _ => rfl,
      fun d hd => ⟨d, rfl, ⟨hd.length, hd.reading, rfl⟩, id⟩⟩
  | startRead length page =>
    refine ⟨p.withRead (mceStartRead (p.readState buf) page), buf, sioResponse p.tcode length,
      ⟨show 0 < pageSize by decide, hp.wroff_lt, hp.length_image⟩, hbuf, fun _ => rfl,
      fun d hd => ⟨d, rfl, ⟨hd.length, fun hne => absurd rfl hne, hd.writing⟩, id⟩⟩
  | spec => exact ⟨p, buf, _, hp, hbuf, fun _ => rfl, fun d hd => ⟨d, rfl, hd, id⟩⟩
  | termCode length code =>
    exact ⟨{ p with tcode := code }, buf, _, ⟨hp.1, hp.2, hp.3⟩, hbuf, fun _ => rfl,
      fun d hd => ⟨d, rfl, ⟨hd.1, hd.2, hd.3⟩, id⟩⟩
  | write length size data => exact executes_write spec hp hbuf length size data
  | read size => exact executes_read spec hp hbuf size

end execute

/-! ### Both cards -/

/-- The cards, before a command. -/
structure Cards.Sound (s : Cards) : Prop where
  port : ∀ c, (s.port c).Sound
  length : s.mcdatabuf.length = pageSize

/-- A command to a card, with all that it leaves. -/
theorem cardStep_cases (spec : Fin 2 → CardSpec) {s : Cards} (hs : s.Sound)
    (e : Fin 2 × Command) :
    ∃ s' reply, cardStep spec s e = some (s', reply) ∧ s'.Sound ∧
      (∀ c, c ≠ e.1 → s'.port c = s.port c) ∧
      Executes (spec e.1) (s.port e.1) s.mcdatabuf e.2 (s'.port e.1) s'.mcdatabuf reply := by
  obtain ⟨p', buf', reply, hexec⟩ := executes (spec e.1) (hs.port e.1) hs.length e.2
  obtain ⟨d', heq, -, hd'⟩ := hexec.serves s.mcdatabuf (Serves.refl hs.length _)
  obtain rfl := hd' rfl
  refine ⟨⟨fun c => if c = e.1 then p' else s.port c, d'⟩, reply, ?_, ⟨fun c => ?_, hexec.length⟩,
    fun c hc => if_neg hc, ?_⟩
  · rw [cardStep, heq]
    rfl
  · show (if c = e.1 then p' else s.port c).Sound
    split
    · exact hexec.sound
    · exact hs.port c
  · show Executes (spec e.1) (s.port e.1) s.mcdatabuf e.2 (if e.1 = e.1 then p' else _) d' reply
    rw [if_pos rfl]
    exact hexec

/-- The run of both cards and the run of the card `c`: it has the same fields and the same image,
and the buffer serves it. -/
structure SameCard (c : Fin 2) (s t : Cards) : Prop where
  sound : s.Sound
  port : t.port c = s.port c
  serves : Serves (s.port c) s.mcdatabuf t.mcdatabuf

theorem SameCard.own {spec : Fin 2 → CardSpec} {c : Fin 2} {s t s' : Cards} {e : Fin 2 × Command}
    {reply : List UInt8} (h : SameCard c s t) (hc : e.1 = c)
    (hstep : cardStep spec s e = some (s', reply)) :
    ∃ t', cardStep spec t e = some (t', reply) ∧ SameCard c s' t' := by
  subst hc
  obtain ⟨s₁, reply₁, hstep₁, hsound, -, hexec⟩ := cardStep_cases spec h.sound e
  obtain ⟨rfl, rfl⟩ := Prod.mk.inj (Option.some.inj (hstep₁.symm.trans hstep))
  obtain ⟨d', heq, hserves, -⟩ := hexec.serves t.mcdatabuf h.serves
  refine ⟨⟨fun c => if c = e.1 then s₁.port e.1 else t.port c, d'⟩, ?_, hsound, if_pos rfl,
    hserves⟩
  rw [cardStep, h.port, heq]
  rfl

theorem SameCard.other {spec : Fin 2 → CardSpec} {c : Fin 2} {s t s' : Cards} {e : Fin 2 × Command}
    {reply : List UInt8} (h : SameCard c s t) (hc : e.1 ≠ c) (hok : Undisturbed s e)
    (hstep : cardStep spec s e = some (s', reply)) : SameCard c s' t := by
  obtain ⟨s₁, reply₁, hstep₁, hsound, hport, hexec⟩ := cardStep_cases spec h.sound e
  obtain ⟨rfl, rfl⟩ := Prod.mk.inj (Option.some.inj (hstep₁.symm.trans hstep))
  have hsame : s₁.port c = s.port c := hport c hc.symm
  refine ⟨hsound, h.port.trans hsame.symm, ?_⟩
  rw [hsame]
  cases hover : (s.port e.1).overwrites e.2 with
  | false =>
    rw [hexec.kept hover]
    exact h.serves
  | true => exact serves_of_not_midPage (hok hover c hc.symm) h.serves.length

/-- **The cards do not disturb each other.** In a run of commands to both cards in which the data
buffer is overwritten only when the other card is not in the middle of a page, each card gives the
answers and keeps the image of the run of its own commands. -/
theorem cards_apart (spec : Fin 2 → CardSpec) {s : Cards} (hs : s.Sound)
    (es : List (Fin 2 × Command))
    (hok : Transition.RunOk (Transition.quiet (cardStep spec)) Undisturbed s es) :
    ∃ s' log, Transition.runLog (cardStep spec) s es = some (s', log) ∧
      ∀ c, ∃ t, Transition.runLog (cardStep spec) s (es.filter fun e => e.1 == c) =
          some (t, log.filter fun x => x.1.1 == c) ∧
        (t.port c).image = (s'.port c).image := by
  have htotal : ∀ (s : Cards) (e : Fin 2 × Command), s.Sound →
      ∃ s' reply, cardStep spec s e = some (s', reply) ∧ s'.Sound := by
    intro s e hs
    obtain ⟨s', reply, hstep, hsound, -, -⟩ := cardStep_cases spec hs e
    exact ⟨s', reply, hstep, hsound⟩
  obtain ⟨s', log, hrun, -⟩ := Transition.runLog_total (P := Cards.Sound) htotal hs
  refine ⟨s', log, hrun, fun c => ?_⟩
  obtain ⟨t, hrun', hsame⟩ := Transition.runLog_filter (fun e : Fin 2 × Command => e.1 == c)
    (R := SameCard c) (fun s t e s' o h hmine hstep => h.own (beq_iff_eq.mp hmine) hstep)
    (fun s t e s' o h hmine hok hstep => h.other (beq_eq_false_iff_ne.mp hmine) hok hstep)
    ⟨hs, rfl, Serves.refl hs.length _⟩ hok hrun
  exact ⟨t, hrun', congrArg CardPort.image hsame.port⟩

/-- Two cards with a page to a block and 0xFF everywhere. -/
def blankCards : Cards :=
  ⟨fun _ => ⟨⟨0, 0, 0, [], 0, 0, 0, 0x5A⟩, fun _ => List.replicate pageSize 0xFF⟩,
    List.replicate pageSize 0⟩

def smallBlocks : Fin 2 → CardSpec := fun _ => ⟨0, 1, 16384⟩

theorem sound_blankCards : blankCards.Sound :=
  ⟨fun _ => ⟨show 0 < pageSize by decide, show 0 < pageSize by decide,
    fun _ => List.length_replicate⟩, List.length_replicate⟩

def card0 : Fin 2 := ⟨0, Nat.zero_lt_two⟩

def card1 : Fin 2 := ⟨1, Nat.one_lt_two⟩

/-- A page of card 0 is read, and its ECC area while a page of card 1 is written. -/
def takeTurns : List (Fin 2 × Command) :=
  [(card0, .startRead 4 3), (card1, .termCode 5 0x5A), (card0, .read 255), (card0, .read 255),
    (card0, .read 2), (card1, .startWrite 4 0), (card1, .write 6 128 fun _ => 7), (card0, .read 16),
    (card1, .spec)]

theorem cards_apart_takeTurns :
    ∃ s' log, Transition.runLog (cardStep smallBlocks) blankCards takeTurns = some (s', log) ∧
      ∀ c, ∃ t, Transition.runLog (cardStep smallBlocks) blankCards
          (takeTurns.filter fun e => e.1 == c) = some (t, log.filter fun x => x.1.1 == c) ∧
        (t.port c).image = (s'.port c).image :=
  cards_apart smallBlocks sound_blankCards takeTurns (by decide +kernel)

/-- Two chunks of a page of card 0 are written, a block of card 1 is erased, and then the rest of
the page is written. -/
def eraseBetween : List (Fin 2 × Command) :=
  [(card0, .startWrite 4 0), (card0, .write 6 255 fun _ => 7), (card0, .write 6 255 fun _ => 7),
    (card1, .erase 4 8), (card0, .write 6 2 fun _ => 7)]

/-- What card 0 keeps is not what it keeps without the erase of card 1. -/
theorem not_cards_apart_eraseBetween :
    ((Transition.runLog (cardStep smallBlocks) blankCards eraseBetween).map fun r =>
        (r.1.port 0).image 0) = some (List.replicate 510 0xFF ++ [7, 7]) ∧
      ((Transition.runLog (cardStep smallBlocks) blankCards
        (eraseBetween.filter fun e => e.1 == 0)).map fun r => (r.1.port 0).image 0) =
          some (List.replicate 512 7) := by
  constructor
  · decide +kernel
  · decide +kernel

end Mce

end OpenPS2Loader
