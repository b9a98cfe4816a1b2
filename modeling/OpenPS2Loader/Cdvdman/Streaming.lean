import Mathlib.Data.Int.Notation
import Mathlib.Data.List.Basic
import Mathlib.Logic.Function.Basic
import OpenPS2Loader.Lib.Transition

/-!
# The streaming ring buffer of `cdvdman`

`modules/iopcore/cdvdman/streaming.c`, with the parts of `cdvdman.c` and `ncmd.c` it runs on:
`cdvdman_AsyncRead`, the end of a read in `cdvdman_cdread_Thread`, and `sceCdSync`.

The module is a machine. One thread of the game issues the streaming calls; the reading thread
stores the sectors of the fill that is in flight and, when the last one is stored, gives `sync_flag`
back and runs the callback; the alarm runs in interrupt context. What the source does inside one
interrupt-disabled section is one step, and between two such steps the other thread and the alarm
may do anything they are able to do.

## Granularity

* The reading thread stops between the last sector and the first test of `Stm0Callback`, before and
  after it gives `sync_flag` back, before the second test, before and after the test of
  `StIsReading`, and between the sections of the fill that `StmCallback` starts.
* `sceCdStRead` takes two steps for every turn of its loop: the wait for the event flag, and the
  section that copies. With an EE destination a turn is longer: the section that sets up the DMA,
  one step for every sector the DMA copies, and the section that commits `StReadPtr` and
  `StStreamed`.
* The sectors of a fill are stored one at a time, so a fill may overlap with everything the caller
  does.

## What is left out

`cdvdman_stat.err` and `status` are written by these calls and read by none of them, and the
addresses of the buffers only ever occur as `base + 2048 * slot`, so the model keeps the slots.
`Stlsn` is read in the step of the `cdvdman_AsyncRead` it is an argument of.

## Main definitions

* `StreamingData`, `Drive`, `State` — the driver's record, and the record with its surroundings
* `sceCdStInit`, `stFillSection`, `stmCallbackCount`, `readSectors`, `readSectorsEE`
* `Drive.fillStep` — a section of a fill, whoever runs it
* `step`, `run` — the machine
-/

namespace OpenPS2Loader

namespace Streaming

/-- Conversion to `unsigned short int`. -/
def u16 (n : ℕ) : ℕ := n % 65536

/-- Conversion to `u32`. -/
def u32 (n : ℕ) : ℕ := n % 4294967296

/-- Conversion of an `int` to `unsigned short int`. -/
def u16OfInt (i : ℤ) : ℕ := (i % 65536).toNat

/-- Conversion of a `u32` to `int`. -/
def intOfU32 (n : ℕ) : ℤ := if n < 2147483648 then n else (n : ℤ) - 4294967296

/-! ### The driver's record -/

/-- `struct SteamingData`. The two flags are `unsigned short int` in the source and only ever
hold `0` or `1`. -/
structure StreamingData where
  stBufmax : ℕ
  stBankmax : ℕ
  stBanksize : ℕ
  stWritePtr : ℕ
  stReadPtr : ℕ
  stStreamed : ℕ
  stStat : Bool
  stIsReading : Bool
  stlsn : ℕ
  deriving DecidableEq, Repr

/-- The record as the module's zeroed data segment has it. -/
def StreamingData.zero : StreamingData := ⟨0, 0, 0, 0, 0, 0, false, false, 0⟩

/-- `StReset`. -/
def stReset (d : StreamingData) : StreamingData :=
  { d with stWritePtr := 0, stReadPtr := 0, stStreamed := 0, stIsReading := false }

/-- `sceCdStInit`. It has no error return; the only way not to come back is the division by
`bankmax`, which traps when it is zero. -/
def sceCdStInit (bufmax bankmax : ℕ) (d : StreamingData) : Option StreamingData :=
  if bankmax = 0 then none
  else
    let stBankmax := u16 bankmax
    let stBanksize := u16 (bufmax / bankmax)
    some (stReset { d with stBankmax, stBanksize, stBufmax := u16 (stBanksize * stBankmax) })

/-- `AllocBank`: the slot the next bank goes to, if the ring has room for a whole bank. The
subtraction is one of `int`s in the source. -/
def allocBank (d : StreamingData) : Option ℕ :=
  if (d.stBufmax : ℤ) - d.stStreamed ≥ d.stBanksize then some d.stWritePtr else none

/-- What the interrupt-disabled section of `StFillStreamBuffer` found. -/
inductive FillResult
  /-- A fill is already under way. -/
  | busy
  /-- No room for a bank. -/
  | full
  /-- A bank was allocated at this slot. -/
  | bank (slot : ℕ)
  deriving DecidableEq, Repr

/-- The interrupt-disabled section of `StFillStreamBuffer`. -/
def stFillSection (d : StreamingData) : StreamingData × FillResult :=
  if d.stIsReading then (d, .busy)
  else
    let d := { d with stIsReading := true }
    match allocBank d with
    | some slot => (d, .bank slot)
    | none => (d, .full)

/-- The interrupt-disabled section of `StmCallback`, which counts a bank in. -/
def stmCallbackCount (d : StreamingData) : StreamingData :=
  let wr := u16 (d.stWritePtr + d.stBanksize)
  { d with
    stlsn := u32 (d.stlsn + d.stBanksize)
    stStreamed := u16 (d.stStreamed + d.stBanksize)
    stWritePtr := if wr ≥ d.stBufmax then 0 else wr
    stIsReading := false }

/-- The test of `StmCallback` and its section. -/
def stmCallbackSection (d : StreamingData) : StreamingData :=
  if d.stIsReading then stmCallbackCount d else d

/-! ### Copying sectors out -/

/-- The first half of `ReadSectors`, down to the end of the buffer: the new record and the slots
that were copied. -/
def readSectorsTail (d : StreamingData) (maxcount : ℤ) : StreamingData × List ℕ :=
  if d.stWritePtr ≤ d.stReadPtr ∧ d.stStreamed > 0 then
    let avail := u16OfInt ((d.stBufmax : ℤ) - d.stReadPtr)
    let count := if (avail : ℤ) > maxcount then u16OfInt maxcount else avail
    let rd := u16 (d.stReadPtr + count)
    ({ d with
        stReadPtr := if rd ≥ d.stBufmax then 0 else rd
        stStreamed := u16OfInt ((d.stStreamed : ℤ) - count) }, List.range' d.stReadPtr count)
  else (d, [])

/-- The second half of `ReadSectors`, up to the write pointer. `result` is what the first half
copied. -/
def readSectorsHead (d : StreamingData) (maxcount : ℤ) (result : ℕ) : StreamingData × List ℕ :=
  if (result : ℤ) < maxcount ∧ d.stReadPtr < d.stWritePtr then
    let avail := u16OfInt ((d.stWritePtr : ℤ) - d.stReadPtr)
    let count := if (avail : ℤ) > maxcount - result then u16OfInt (maxcount - result) else avail
    let rd := u16 (d.stReadPtr + count)
    ({ d with
        stReadPtr := if rd ≥ d.stBufmax then 0 else rd
        stStreamed := u16OfInt ((d.stStreamed : ℤ) - count) }, List.range' d.stReadPtr count)
  else (d, [])

/-- `ReadSectors`: the new record and the slots copied to the destination, in order. A count of
zero in either half changes nothing, so the source's `SectorsToCopy > 0` tests are not repeated. -/
def readSectors (d : StreamingData) (maxcount : ℤ) : StreamingData × List ℕ :=
  let (d₁, s₁) := readSectorsTail d maxcount
  let (d₂, s₂) := readSectorsHead d₁ maxcount s₁.length
  (d₂, s₁ ++ s₂)

/-- The first section of `ReadSectorsEE`: the read pointer to commit later and the slots the DMA
list names, in order. It works on a copy of `StReadPtr`; the record is not touched. -/
def readSectorsEE (d : StreamingData) (maxcount : ℤ) : ℕ × List ℕ :=
  let rdptr := d.stReadPtr
  let (rdptr, s₁) :=
    if d.stWritePtr ≤ rdptr ∧ d.stStreamed > 0 then
      let avail := u16OfInt ((d.stBufmax : ℤ) - rdptr)
      let count := if (avail : ℤ) > maxcount then u16OfInt maxcount else avail
      let rd := u16 (rdptr + count)
      (if rd ≥ d.stBufmax then 0 else rd, List.range' rdptr count)
    else (rdptr, [])
  let (rdptr, s₂) :=
    if (s₁.length : ℤ) < maxcount ∧ rdptr < d.stWritePtr then
      let avail := u16OfInt ((d.stWritePtr : ℤ) - rdptr)
      let count :=
        if (avail : ℤ) > maxcount - s₁.length then u16OfInt (maxcount - s₁.length) else avail
      let rd := u16 (rdptr + count)
      (if rd ≥ d.stBufmax then 0 else rd, List.range' rdptr count)
    else (rdptr, [])
  (rdptr, s₁ ++ s₂)

/-- The last section of `ReadSectorsEE`, run when the DMA is done and had something to copy. -/
def readSectorsEECommit (d : StreamingData) (rdptr result : ℕ) : StreamingData :=
  { d with stReadPtr := rdptr, stStreamed := u16OfInt ((d.stStreamed : ℤ) - result) }

/-! ### Filling -/

/-- A fill that `cdvdman_AsyncRead` has started: `cdread_lba`, `cdread_sectors`, the slot
`cdread_buf` points at, and how many sectors are stored already. -/
structure CdRead where
  lba : ℕ
  sectors : ℕ
  slot : ℕ
  done : ℕ
  deriving DecidableEq, Repr

/-- Where a thread is in `StStartFillStreamBuffer`. -/
inductive FillPc
  /-- Before the section that sets `StIsReading` and allocates the bank. -/
  | alloc
  /-- Before the section of `cdvdman_AsyncRead`, for the bank at this slot. -/
  | async (slot : ℕ)
  /-- `cdvdman_AsyncRead` has failed, and `StIsReading` is still set. -/
  | failed
  /-- Before the `SetAlarm` that tries again later. -/
  | reschedule
  /-- The ring is full, and `StIsReading` is still set. -/
  | full
  deriving DecidableEq, Repr

/-- What `StStartFillStreamBuffer` works on, with reads in a type of their own. -/
structure Drive (ρ : Type*) where
  d : StreamingData
  /-- The read that holds `sync_flag`. -/
  cdread : Option ρ
  /-- The alarm that reschedules a fill is set. -/
  alarm : Bool

section Drive

variable {ρ : Type*}

/-- A thread runs on by one section of `StStartFillStreamBuffer`; the second component is where it
is afterwards, `none` when it has returned. `read` makes a read of a fill. -/
def Drive.fillStep (read : CdRead → ρ) (s : Drive ρ) : FillPc → Drive ρ × Option FillPc
  | .alloc =>
    match stFillSection s.d with
    | (d, .busy) => ({ s with d }, none)
    | (d, .full) => ({ s with d, alarm := false }, some .full)
    | (d, .bank slot) => ({ s with d, alarm := false }, some (.async slot))
  | .async slot =>
    match s.cdread with
    | some _ => (s, some .failed)
    | none => ({ s with cdread := some (read ⟨s.d.stlsn, s.d.stBanksize, slot, 0⟩) }, none)
  | .failed => ({ s with d := { s.d with stIsReading := false } }, some .reschedule)
  | .reschedule => ({ s with alarm := true }, none)
  | .full => ({ s with d := { s.d with stIsReading := false } }, none)

/-- Up to `n` sections of a fill without interruption. -/
def Drive.fillSections (read : CdRead → ρ) : ℕ → Drive ρ → FillPc → Drive ρ × Option FillPc
  | 0, s, pc => (s, some pc)
  | n + 1, s, pc =>
    match s.fillStep read pc with
    | (s', none) => (s', none)
    | (s', some pc') => fillSections read n s' pc'

/-- `StmScheduleCb`, in interrupt context. The alarm that goes off is spent; a return value other
than zero sets it again, as the `SetAlarm` of `StStartFillStreamBuffer` does. A fill has at most
four sections. -/
def Drive.stmScheduleCb (read : CdRead → ρ) (s : Drive ρ) : Drive ρ :=
  (Drive.fillSections read 4 { s with alarm := false } .alloc).1

end Drive

/-! ### The machine -/

/-- The locals of a `sceCdStRead` call at the head of its loop. -/
structure ReadCall where
  sectors : ℕ
  sectorsToRead : ℤ
  result : ℕ
  mode : ℕ
  /-- The destination address has its top bit set: copy to the EE. -/
  ee : Bool
  deriving DecidableEq, Repr

/-- Where the caller is. -/
inductive Pc (α : Type*)
  /-- Outside every streaming call. -/
  | idle
  /-- In `sceCdStStop`, before its section. With `some lsn` the stop is the one inside
  `sceCdStStart(lsn)`, which goes on afterwards. -/
  | stop (next : Option ℕ)
  /-- In `sceCdStPause`, before its section. -/
  | pause
  /-- In the `sceCdSync(0)` of `sceCdStStop` or `sceCdStPause`. -/
  | sync (next : Option ℕ)
  /-- In `sceCdStStart`, before its own section. -/
  | start (lsn : ℕ)
  /-- In `StStartFillStreamBuffer`. -/
  | fill (pc : FillPc)
  /-- At the head of the loop of `sceCdStRead`. -/
  | read (r : ReadCall)
  /-- In that loop, behind the wait for the event flag. -/
  | copy (r : ReadCall)
  /-- In `ReadSectorsEE`, with the DMA still to copy `plan` and `copied` at the destination. -/
  | dma (r : ReadCall) (rdptr : ℕ) (plan : List ℕ) (copied : List α)
  deriving DecidableEq, Repr

/-- A fill, and ghost: how often `StIsReading` had been taken back when it was started. -/
structure Fill extends CdRead where
  gen : ℕ
  deriving DecidableEq, Repr

/-- Where `cdvdman_cdread_Thread` is, with the fill it has read. -/
inductive Reader
  /-- Waiting for a read, or at work on the one that holds `sync_flag`. -/
  | wait
  /-- Before `sync_flag` is given back; `stm` says whether `Stm0Callback` was set at the first
  test. -/
  | signal (f : Fill) (stm : Bool)
  /-- Before the event flag is set. -/
  | event (f : Fill) (stm : Bool)
  /-- Before the second test of `Stm0Callback`. -/
  | test (f : Fill)
  /-- In `StmCallback`, before the test of `StIsReading`. -/
  | callback (f : Fill)
  /-- In `StmCallback`, before the section. -/
  | count (f : Fill)
  /-- In the `StStartFillStreamBuffer` of `StmCallback`, and ghost: how often `StIsReading` had been
  taken back when it was entered. -/
  | fill (pc : FillPc) (gen : ℕ)
  deriving DecidableEq, Repr

/-- The streaming calls of the game. -/
inductive Call
  | stStart (lsn : ℕ)
  | stSeek (lsn : ℕ)
  | stRead (sectors mode : ℕ) (ee : Bool)
  | stPause
  | stResume
  | stStop
  deriving DecidableEq, Repr

/-- What can happen next. -/
inductive Event
  /-- The game enters a streaming call. -/
  | call (c : Call)
  /-- The caller runs on by one section. -/
  | caller
  /-- The reading thread runs on. -/
  | reader
  /-- The rescheduling alarm goes off. -/
  | alarm
  deriving DecidableEq, Repr

/-- The driver and what it runs on. -/
structure State (α : Type*) extends Drive Fill where
  /-- The memory from `StIOP_bufaddr` on, by sector. -/
  buf : ℕ → α
  /-- `Stm0Callback != NULL`. -/
  stm0Callback : Bool
  /-- Bit 8 of `intr_ef`, the one `sceCdStRead` waits for. -/
  intrEf : Bool
  pc : Pc α
  reader : Reader
  /-- Ghost: the argument of the last `sceCdStStart`. -/
  base : ℕ
  /-- Ghost: what `sceCdStRead` has handed over since that `sceCdStStart`. -/
  delivered : List α
  /-- Ghost: how often a stop, a pause or a start has taken `StIsReading` back. -/
  gen : ℕ

variable {α : Type*}

/-- The fill that is started now. -/
def State.read (s : State α) (f : CdRead) : Fill := ⟨f, s.gen⟩

/-- The section of `sceCdStStop`. -/
def stStopSection (s : State α) : State α :=
  { s with d := stReset { s.d with stStreamed := 0, stStat := false }
           stm0Callback := false
           gen := s.gen + 1 }

/-- The section of `sceCdStPause`. -/
def stPauseSection (s : State α) : State α :=
  { s with d := { s.d with stIsReading := false }, stm0Callback := false, gen := s.gen + 1 }

/-- The section of `sceCdStStart`. -/
def stStartSection (s : State α) (lsn : ℕ) : State α :=
  { s with d := stReset { s.d with stlsn := u32 lsn, stStat := true }
           stm0Callback := true
           base := u32 lsn
           delivered := []
           gen := s.gen + 1 }

/-- Entering a call: up to its first section, which for a stop and a pause comes after
`CancelAlarm`. -/
def callStep (s : State α) : Call → State α
  | .stStart lsn =>
    if s.d.stStat then { s with alarm := false, pc := .stop (some lsn) }
    else { s with pc := .start lsn }
  | .stSeek lsn => if s.d.stStat then { s with alarm := false, pc := .stop (some lsn) } else s
  | .stRead sectors mode ee =>
    if s.d.stStat then
      { s with intrEf := true, pc := .read ⟨u32 sectors, intOfU32 (u32 sectors), 0, mode, ee⟩ }
    else s
  | .stPause => if s.d.stStat then { s with alarm := false, pc := .pause } else s
  | .stResume => if s.d.stStat then { s with stm0Callback := true, pc := .fill .alloc } else s
  | .stStop => if s.d.stStat then { s with alarm := false, pc := .stop none } else s

/-- The end of a turn of the loop in `sceCdStRead`, after `n` sectors were handed over. -/
def readNext (r : ReadCall) (n : ℕ) : Pc α :=
  if r.mode = 0 then .fill .alloc
  else .read { r with result := u32 (r.result + n), sectorsToRead := r.sectorsToRead - n }

/-- The section of a turn of the loop in `sceCdStRead`. -/
def copyStep (s : State α) (r : ReadCall) : State α :=
  if r.ee then
    let (rdptr, plan) := readSectorsEE s.d r.sectorsToRead
    { s with pc := if plan = [] then readNext r 0 else .dma r rdptr plan [] }
  else
    let (d, slots) := readSectors s.d r.sectorsToRead
    { s with d, delivered := s.delivered ++ slots.map s.buf, pc := readNext r slots.length }

/-- The calling thread after a section of a fill. -/
def Pc.ofFill : Option FillPc → Pc α
  | none => .idle
  | some pc => .fill pc

/-- The caller runs on by one section; `none` while it waits or is outside every call. -/
def callerStep (s : State α) : Option (State α) :=
  match s.pc with
  | .idle => none
  | .stop next => some { stStopSection s with pc := .sync next }
  | .pause => some { stPauseSection s with pc := .sync none }
  | .sync next =>
    if s.cdread.isSome then none
    else some { s with pc := match next with | none => .idle | some lsn => .start lsn }
  | .start lsn => some { stStartSection s lsn with pc := .fill .alloc }
  | .fill pc =>
    let (t, pc') := s.toDrive.fillStep s.read pc
    some { s with toDrive := t, pc := .ofFill pc' }
  | .read r =>
    if r.result < r.sectors then
      if s.intrEf then some { s with intrEf := false, pc := .copy r } else none
    else some { s with pc := .fill .alloc }
  | .copy r => some (copyStep s r)
  | .dma r rdptr plan copied =>
    match plan with
    | slot :: rest => some { s with pc := .dma r rdptr rest (copied ++ [s.buf slot]) }
    | [] =>
      some { s with d := readSectorsEECommit s.d rdptr copied.length
                    delivered := s.delivered ++ copied
                    pc := readNext r copied.length }

/-- The reading thread after a section of a fill. -/
def Reader.ofFill (gen : ℕ) : Option FillPc → Reader
  | none => .wait
  | some pc => .fill pc gen

/-- The reading thread runs on: it stores a sector of the fill that holds `sync_flag`, or goes on
behind the last one. Without `Stm0Callback` at the first test, `cdvdman_cb_event` gives `sync_flag`
back. -/
def readerStep (disc : ℕ → α) (s : State α) : Option (State α) :=
  match s.reader with
  | .wait =>
    match s.cdread with
    | none => none
    | some f =>
      if f.done < f.sectors then
        some { s with buf := Function.update s.buf (f.slot + f.done) (disc (u32 (f.lba + f.done)))
                      cdread := some { f with done := f.done + 1 } }
      else some { s with reader := .signal f s.stm0Callback }
  | .signal f stm => some { s with cdread := none, reader := .event f stm }
  | .event f stm => some { s with intrEf := true, reader := if stm then .test f else .wait }
  | .test f => some { s with reader := if s.stm0Callback then .callback f else .wait }
  | .callback f =>
    some { s with reader := if s.d.stIsReading then .count f else .fill .alloc s.gen }
  | .count _ => some { s with d := stmCallbackCount s.d, reader := .fill .alloc s.gen }
  | .fill pc gen =>
    let (t, pc') := s.toDrive.fillStep s.read pc
    some { s with toDrive := t, reader := .ofFill (if pc = .alloc then s.gen else gen) pc' }

/-- One step of the machine on a disc whose sector `lsn` reads as `disc lsn`. -/
def step (disc : ℕ → α) (s : State α) : Event → Option (State α)
  | .call c => match s.pc with | .idle => some (callStep s c) | _ => none
  | .caller => callerStep s
  | .reader => readerStep disc s
  | .alarm => if s.alarm then some { s with toDrive := s.toDrive.stmScheduleCb s.read } else none

/-- The machine after `sceCdStInit`, with whatever the buffer memory holds. -/
def initState (d : StreamingData) (buf : ℕ → α) : State α :=
  ⟨⟨d, none, false⟩, buf, false, false, .idle, .wait, 0, [], 0⟩

/-- A run of the machine over a list of events. -/
def run (disc : ℕ → α) : State α → List Event → Option (State α) :=
  Transition.run (step disc)

end Streaming

end OpenPS2Loader
