import OpenPS2Loader.Cdvdman.StreamingInvariant

/-!
# Streaming beside the game's own reads

A stream shares the drive with the reads the game issues itself. There is one `sync_flag`, one
reading thread and one completion callback for both, and `StmCallback` does not know whose read has
ended: it takes any completion for the end of a fill while `StIsReading` is set.

The machine here is one stream, from the section of `sceCdStStart` on, and both threads that run
`StFillStreamBuffer` stop between its sections: after `StIsReading` is set and the bank is
allocated, after `cdvdman_AsyncRead` found `sync_flag` set, and before `StIsReading` is taken back.
A game read may take `sync_flag` whenever it is free and may end whenever the reading thread comes
to it. A read that is in flight when the stream starts is one that is issued right after.

The alarm runs in interrupt context, so `StmScheduleCb` is not stopped in between. Reads that bypass
the reading thread (`cdvdman_SyncRead`) do not run the callback and are left out, and the game does
not read into the memory of the ring.

## Main definitions

* `step`, `startState` — the machine
* `Undisturbed` — the fields of the driver follow the fills that have ended
* `Event.Ok` — the callback of a game read does not find `StIsReading` set

## Main results

* `Core.filled` — what the sections of a fill keep, whoever runs them
* `run_undisturbed` — runs whose steps are `Ok`
-/

namespace OpenPS2Loader

namespace GameReads

open Streaming

/-! ### The machine -/

/-- A read that holds `sync_flag`. -/
inductive Read
  /-- Started by `StFillStreamBuffer`. -/
  | fill (f : CdRead)
  /-- Started by the game. -/
  | game (lsn sectors : ℕ)
  deriving DecidableEq, Repr

/-- Where the thread that calls `sceCdStStart` and `sceCdStRead` is. -/
inductive Caller (α : Type*)
  | idle
  | fill (pc : FillPc)
  /-- At the head of the loop of `sceCdStRead`. -/
  | read (r : ReadCall)
  /-- In `ReadSectorsEE`, with the DMA still to copy `plan` and `copied` at the destination. -/
  | dma (r : ReadCall) (rdptr : ℕ) (plan : List ℕ) (copied : List α)
  deriving DecidableEq, Repr

/-- Where `cdvdman_cdread_Thread` is. -/
inductive Reader
  /-- Waiting for a read, or at work on the one that holds `sync_flag`. -/
  | wait
  /-- This read has given `sync_flag` back, and `StmCallback` is about to run. -/
  | callback (r : Read)
  /-- In the `StStartFillStreamBuffer` of `StmCallback`. -/
  | fill (pc : FillPc)
  deriving DecidableEq, Repr

/-- The driver and what it runs on while a stream is on. -/
structure State (α : Type*) extends Streaming.Drive Read where
  /-- The memory from `StIOP_bufaddr` on, by sector. -/
  buf : ℕ → α
  /-- Bit 8 of `intr_ef`. -/
  intrEf : Bool
  caller : Caller α
  reader : Reader
  /-- Ghost: the argument of `sceCdStStart`. -/
  base : ℕ
  /-- Ghost: what `sceCdStRead` has handed over. -/
  delivered : List α
  /-- Ghost: the fills that have ended, in order. -/
  completed : List CdRead

variable {α : Type*}

/-- The end of a turn of the loop in `sceCdStRead`, after `n` sectors were handed over. -/
def readNext (r : ReadCall) (n : ℕ) : Caller α :=
  if r.mode = 0 then .fill .alloc
  else .read { r with result := u32 (r.result + n), sectorsToRead := r.sectorsToRead - n }

/-- One turn of the loop in `sceCdStRead`; `none` while it waits for the event flag. -/
def readStep (s : State α) (r : ReadCall) : Option (State α) :=
  if r.result < r.sectors then
    if s.intrEf then
      if r.ee then
        let (rdptr, plan) := readSectorsEE s.d r.sectorsToRead
        if plan = [] then some { s with intrEf := false, caller := readNext r 0 }
        else some { s with intrEf := false, caller := .dma r rdptr plan [] }
      else
        let (d, slots) := readSectors s.d r.sectorsToRead
        some { s with d, intrEf := false, delivered := s.delivered ++ slots.map s.buf,
                      caller := readNext r slots.length }
    else none
  else some { s with caller := .fill .alloc }

/-- The calling thread after a section of a fill. -/
def Caller.ofFill : Option FillPc → Caller α
  | none => .idle
  | some pc => .fill pc

/-- The reading thread after a section of a fill. -/
def Reader.ofFill : Option FillPc → Reader
  | none => .wait
  | some pc => .fill pc

/-- The calling thread runs on by one section. -/
def callerStep (s : State α) : Option (State α) :=
  match s.caller with
  | .idle => none
  | .fill pc =>
    let (t, pc') := s.toDrive.fillStep .fill pc
    some { s with toDrive := t, caller := .ofFill pc' }
  | .read r => readStep s r
  | .dma r rdptr (slot :: rest) copied =>
    some { s with caller := .dma r rdptr rest (copied ++ [s.buf slot]) }
  | .dma r rdptr [] copied =>
    some { s with d := readSectorsEECommit s.d rdptr copied.length
                  delivered := s.delivered ++ copied
                  caller := readNext r copied.length }

/-- The reading thread runs on: it stores a sector of a fill, ends a read (`sync_flag` is given
back and the event flag set), runs the section of `StmCallback`, or a section of the fill after
it. -/
def readerStep (disc : ℕ → α) (s : State α) : Option (State α) :=
  match s.reader with
  | .wait =>
    match s.cdread with
    | none => none
    | some (.fill f) =>
      if f.done < f.sectors then
        some { s with buf := Function.update s.buf (f.slot + f.done) (disc (u32 (f.lba + f.done)))
                      cdread := some (.fill { f with done := f.done + 1 }) }
      else
        some { s with cdread := none, intrEf := true, completed := s.completed ++ [f],
                      reader := .callback (.fill f) }
    | some (.game lsn n) =>
      some { s with cdread := none, intrEf := true, reader := .callback (.game lsn n) }
  | .callback _ => some { s with d := stmCallbackSection s.d, reader := .fill .alloc }
  | .fill pc =>
    let (t, pc') := s.toDrive.fillStep .fill pc
    some { s with toDrive := t, reader := .ofFill pc' }

/-- What can happen next. -/
inductive Event
  /-- The game calls `sceCdStRead`. -/
  | stRead (sectors mode : ℕ) (ee : Bool)
  /-- The game issues a read of its own; without `sync_flag` it fails and changes nothing. -/
  | gameRead (lsn sectors : ℕ)
  | caller
  | reader
  | alarm
  deriving DecidableEq, Repr

/-- One step of the machine on a disc whose sector `lsn` reads as `disc lsn`. -/
def step (disc : ℕ → α) (s : State α) : Event → Option (State α)
  | .stRead sectors mode ee =>
    match s.caller with
    | .idle =>
      some { s with
        intrEf := true
        caller := .read ⟨u32 sectors, intOfU32 (u32 sectors), 0, mode, ee⟩ }
    | _ => none
  | .gameRead lsn sectors =>
    match s.cdread with
    | none => some { s with cdread := some (.game lsn sectors) }
    | some _ => some s
  | .caller => callerStep s
  | .reader => readerStep disc s
  | .alarm => if s.alarm then some { s with toDrive := s.toDrive.stmScheduleCb .fill } else none

/-- After the section of `sceCdStStart lsn`, with whatever the buffer memory holds. -/
def startState (d : StreamingData) (lsn : ℕ) (buf : ℕ → α) : State α :=
  ⟨⟨stReset { d with stlsn := u32 lsn, stStat := true }, none, false⟩, buf, false, .fill .alloc,
    .wait, u32 lsn, [], []⟩

/-- A run of the machine over a list of events. -/
def run (disc : ℕ → α) : State α → List Event → Option (State α) := Transition.run (step disc)

/-! ### What is claimed of a run -/

/-- `1` between the end of a fill and the section of `StmCallback` that counts it in. -/
def Reader.pending : Reader → ℕ
  | .callback (.fill _) => 1
  | _ => 0

/-- The fills that have ended and whose callback has run its section. -/
def State.counted (s : State α) : ℕ := s.completed.length - s.reader.pending

/-- The read that fills bank `i` of a stream, when it has ended. -/
def bankRead (d : StreamingData) (base i : ℕ) : CdRead :=
  ⟨u32 (base + i * d.stBanksize), d.stBanksize, i * d.stBanksize % d.stBufmax, d.stBanksize⟩

/-- The fills that have ended were for one bank after the other. The fields of the driver have
advanced by one bank for each of them whose callback has run, and by nothing else: `Stlsn`, the
write pointer, and `StStreamed` together with what was handed over. And what was handed over is the
disc from the start of the stream on. -/
structure Undisturbed (disc : ℕ → α) (s : State α) : Prop where
  fills : s.completed = (List.range s.completed.length).map (bankRead s.d s.base)
  lsn : s.d.stlsn = u32 (s.base + s.counted * s.d.stBanksize)
  write : s.d.stWritePtr = s.counted * s.d.stBanksize % s.d.stBufmax
  streamed : s.d.stStreamed + s.delivered.length = s.counted * s.d.stBanksize
  delivered : s.delivered = (List.range s.delivered.length).map fun i => disc (u32 (s.base + i))

/-- The steps that do not disturb a stream: the callback of a game read runs while `StIsReading` is
clear, and `sceCdStRead` counts its sectors in an `int`. -/
def Event.Ok (s : State α) : Event → Prop
  | .stRead sectors _ _ => sectors < 2147483648
  | .reader =>
    match s.reader with
    | .callback (.game _ _) => s.d.stIsReading = false
    | _ => True
  | _ => True

instance (s : State α) : (e : Event) → Decidable (e.Ok s)
  | .stRead sectors _ _ => inferInstanceAs (Decidable (sectors < 2147483648))
  | .reader =>
    match h : s.reader with
    | .callback (.game _ _) =>
      decidable_of_iff (s.d.stIsReading = false) (by rw [Event.Ok, h])
    | .callback (.fill _) => isTrue (by rw [Event.Ok, h]; trivial)
    | .wait => isTrue (by rw [Event.Ok, h]; trivial)
    | .fill _ => isTrue (by rw [Event.Ok, h]; trivial)
  | .gameRead _ _ | .caller | .alarm => inferInstanceAs (Decidable True)

/-! ### The invariant -/

/-- `1` where the calling thread has `StIsReading`. -/
def Caller.owns : Caller α → ℕ
  | .fill pc => pc.owns
  | _ => 0

/-- The same for the reading thread, which also has it while it is about to count a fill in. -/
def Reader.owns : Reader → ℕ
  | .fill pc => pc.owns
  | r => r.pending

/-- `1` for a read that has `StIsReading`. -/
def Read.owns : Read → ℕ
  | .fill _ => 1
  | .game _ _ => 0

theorem Read.owns_fill (f : CdRead) : (Read.fill f).owns = 1 := rfl

/-- What does not depend on where the threads are, with `n` banks counted in and `k` threads that
have `StIsReading`. -/
structure Core (disc : ℕ → α) (s : State α) (n k : ℕ) : Prop where
  stat : s.d.stStat = true
  ring : RingInv s.d
  stream : Stream disc s.d s.buf s.base s.delivered
  delivered_eq : s.delivered = (List.range s.delivered.length).map (streamSector disc s.base)
  fills : s.completed = (List.range s.completed.length).map (bankRead s.d s.base)
  write : s.d.stWritePtr = n * s.d.stBanksize % s.d.stBufmax
  streamed : s.d.stStreamed + s.delivered.length = n * s.d.stBanksize
  flight : ∀ f, s.cdread = some (.fill f) → f.done ≤ f.sectors ∧ Pending disc s.d s.buf f
  held : s.toDrive.Held Read.owns k

/-- What holds where the calling thread is. -/
def CallerInv (disc : ℕ → α) (s : State α) : Caller α → Prop
  | .idle => True
  | .fill pc => pc.Inv s.d
  | .read r => 0 ≤ r.sectorsToRead
  | .dma r rdptr plan copied => Dma disc s.d s.base s.delivered r rdptr plan copied

/-- What holds where the reading thread is. -/
def ReaderInv (disc : ℕ → α) (s : State α) : Reader → Prop
  | .wait => True
  | .callback (.fill f) => f.done = f.sectors ∧ Pending disc s.d s.buf f
  | .callback (.game _ _) => True
  | .fill pc => pc.Inv s.d

/-- The invariant of the machine. -/
structure Inv (disc : ℕ → α) (s : State α) : Prop where
  total : s.reader.pending ≤ s.completed.length
  core : Core disc s s.counted (s.caller.owns + s.reader.owns)
  caller : CallerInv disc s s.caller
  reader : ReaderInv disc s s.reader

variable {disc : ℕ → α} {s s' : State α} {n k : ℕ} {pc : FillPc}

/-- `Stlsn` from the number of banks counted in. -/
theorem Core.lsn (h : Core disc s n k) : s.d.stlsn = u32 (s.base + n * s.d.stBanksize) := by
  have hlsn : s.d.stlsn = u32 (s.base + s.delivered.length + s.d.stStreamed) := h.stream.lsn_eq
  rw [hlsn, ← h.streamed]
  congr 1
  omega

theorem Inv.undisturbed (h : Inv disc s) : Undisturbed disc s :=
  ⟨h.core.fills, h.core.lsn, h.core.write, h.core.streamed, h.core.delivered_eq⟩

theorem Core.withCaller (h : Core disc s n k) (c : Caller α) :
    Core disc { s with caller := c } n k :=
  ⟨h.stat, h.ring, h.stream, h.delivered_eq, h.fills, h.write, h.streamed, h.flight, h.held⟩

theorem Core.withReader (h : Core disc s n k) (r : Reader) :
    Core disc { s with reader := r } n k :=
  ⟨h.stat, h.ring, h.stream, h.delivered_eq, h.fills, h.write, h.streamed, h.flight, h.held⟩

/-- **The sections of a fill**, whoever runs them. -/
theorem Core.filled (h : Core disc s n k) {t : Streaming.Drive Read} {k' : ℕ}
    (hf : Filled .fill s.toDrive t) (hheld : t.Held Read.owns k') :
    Core disc { s with toDrive := t } n k' := by
  obtain ⟨td, tc, ta⟩ := t
  obtain ⟨⟨b, rfl⟩, hcdread⟩ := hf
  refine ⟨h.stat, h.ring.setReading b, h.stream.setReading b, h.delivered_eq, h.fills, h.write,
    h.streamed, fun f hread => ?_, hheld⟩
  have hread : tc = some (.fill f) := hread
  rcases hcdread with hsame | ⟨-, hroom, hnew⟩
  · obtain ⟨hdone, hp⟩ := h.flight f (hsame.symm.trans hread)
    exact ⟨hdone, hp.setReading b⟩
  · cases hnew.symm.trans hread
    exact ⟨Nat.zero_le _, rfl, rfl, rfl, hroom, fun j hj => absurd hj (Nat.not_lt_zero j)⟩

/-! ### The calling thread -/

/-- What a thread relies on does not mention the flag, the alarm, the read in flight or the other
thread. -/
theorem CallerInv.frame {x : Caller α} {b : Bool} (h : CallerInv disc s x)
    (hd : s'.d = { s.d with stIsReading := b }) (hbase : s'.base = s.base)
    (hdel : s'.delivered = s.delivered) : CallerInv disc s' x := by
  cases x with
  | idle => trivial
  | fill pc =>
    cases pc with
    | async slot =>
      simp only [CallerInv, FillPc.Inv, hd] at h ⊢
      exact h
    | alloc => trivial
    | failed => trivial
    | reschedule => trivial
    | full => trivial
  | read r => exact h
  | dma r rdptr plan copied =>
    rw [CallerInv, hbase, hdel]
    refine Dma.mono h ?_ ?_ (le_of_eq ?_)
    all_goals simp only [hd]

theorem ReaderInv.frame {x : Reader} {b : Bool} (h : ReaderInv disc s x)
    (hd : s'.d = { s.d with stIsReading := b }) (hbuf : s'.buf = s.buf) :
    ReaderInv disc s' x := by
  cases x with
  | wait => trivial
  | callback r =>
    cases r with
    | fill f =>
      obtain ⟨hdone, hp⟩ := h
      rw [ReaderInv, hd, hbuf]
      exact ⟨hdone, hp.lba_eq, hp.slot_eq, hp.sectors_eq, hp.room, hp.stored⟩
    | game lsn m => trivial
  | fill pc =>
    cases pc with
    | async slot =>
      simp only [ReaderInv, FillPc.Inv, hd] at h ⊢
      exact h
    | alloc => trivial
    | failed => trivial
    | reschedule => trivial
    | full => trivial

theorem Inv.callerFill (h : Inv disc s) (hc : s.caller = .fill pc) (hs : callerStep s = some s') :
    Inv disc s' := by
  have hcore := h.core
  have hcaller := h.caller
  rw [hc] at hcaller hcore
  rw [Caller.owns, Nat.add_comm] at hcore
  obtain ⟨hfilled, hheld, hnext⟩ :=
    Streaming.Drive.fillStep_spec Read.owns_fill hcore.held hcaller
  simp only [callerStep, hc, Option.some.injEq] at hs
  subst hs
  generalize s.toDrive.fillStep .fill pc = r at hfilled hheld hnext ⊢
  obtain ⟨t, pc'⟩ := r
  have howns : (Caller.ofFill pc' : Caller α).owns = ownsAt pc' := by cases pc' <;> rfl
  obtain ⟨b, hd⟩ := hfilled.d_eq
  refine ⟨h.total, ?_, ?_, h.reader.frame hd rfl⟩
  · simp only [howns, Nat.add_comm (ownsAt pc')]
    exact (hcore.filled hfilled hheld).withCaller _
  · cases pc' with
    | none => trivial
    | some pc' => exact hnext pc' rfl

/-- After a turn of the loop the caller is at the loop head again, or on its way to the fill. -/
theorem callerInv_readNext {r : ReadCall} {m : ℕ} (hm : 0 ≤ r.sectorsToRead - m) :
    CallerInv disc s (readNext r m) := by
  rw [readNext]
  split_ifs
  · trivial
  · exact hm

theorem owns_readNext (r : ReadCall) (m : ℕ) : (readNext r m : Caller α).owns = 0 := by
  rw [readNext]
  split_ifs <;> rfl

/-- Handing over the first `m` sectors of the window. -/
theorem Inv.consume (h : Inv disc s) (hown : s.caller.owns = 0) {m : ℕ}
    (hm : m ≤ s.d.stStreamed) {copied : List α} (hcopied : copied = (List.range m).map fun i =>
      streamSector disc s.base (s.delivered.length + i)) {ef : Bool} {r : ReadCall}
    (hleft : 0 ≤ r.sectorsToRead - m) :
    Inv disc { s with
      d := { s.d with stReadPtr := (s.d.stReadPtr + m) % s.d.stBufmax
                      stStreamed := s.d.stStreamed - m }
      intrEf := ef
      delivered := s.delivered ++ copied
      caller := readNext r m } := by
  have hlen : copied.length = m := by simp [hcopied]
  have hcore := h.core
  have hstr := hcore.streamed
  have hp : ∀ f, Pending disc s.d s.buf f →
      Pending disc { s.d with stReadPtr := (s.d.stReadPtr + m) % s.d.stBufmax
                              stStreamed := s.d.stStreamed - m } s.buf f := fun f hf =>
    ⟨hf.lba_eq, hf.slot_eq, hf.sectors_eq, by have := hf.room; simp only; omega, hf.stored⟩
  refine ⟨h.total, ?_, callerInv_readNext hleft, ?_⟩
  · refine ⟨hcore.stat, hcore.ring.consume hm, ?_, ?_, hcore.fills, hcore.write, ?_,
      fun f hf => ⟨(hcore.flight f hf).1, hp f (hcore.flight f hf).2⟩, ?_⟩
    · exact hcore.stream.consume hm hlen
    · exact delivered_append hcore.delivered_eq hcopied
    · change s.d.stStreamed - m + (s.delivered ++ copied).length = s.counted * s.d.stBanksize
      rw [List.length_append]
      omega
    · simp only [owns_readNext]
      exact hown ▸ hcore.held
  · have hreader := h.reader
    cases hr : s.reader with
    | wait => trivial
    | callback q =>
      cases q with
      | fill f =>
        rw [hr] at hreader
        exact ⟨hreader.1, hp f hreader.2⟩
      | game lsn q => trivial
    | fill pc =>
      rw [hr] at hreader
      cases pc with
      | async slot =>
        obtain ⟨hslot, hroom⟩ := hreader
        exact ⟨hslot, by simp only; omega⟩
      | alloc => trivial
      | failed => trivial
      | reschedule => trivial
      | full => trivial

/-- A step of the caller that leaves the ring and the read in flight alone. -/
theorem Inv.moveCaller (h : Inv disc s) (hown : s.caller.owns = 0) {ef : Bool} {c : Caller α}
    (hc : CallerInv disc s c) (hown' : c.owns = 0) :
    Inv disc { s with intrEf := ef, caller := c } := by
  have hcore := h.core
  rw [hown, ← hown'] at hcore
  refine ⟨h.total, ?_, hc.frame rfl rfl rfl, h.reader.frame rfl rfl⟩
  exact ⟨hcore.stat, hcore.ring, ⟨hcore.stream.lsn_eq, hcore.stream.holds⟩, hcore.delivered_eq,
    hcore.fills, hcore.write, hcore.streamed, hcore.flight, hcore.held⟩

theorem Inv.read (h : Inv disc s) {r : ReadCall} (hc : s.caller = .read r)
    (hs : readStep s r = some s') : Inv disc s' := by
  have hown : s.caller.owns = 0 := by rw [hc]; rfl
  have hwant : 0 ≤ r.sectorsToRead := by simpa only [CallerInv, hc] using h.caller
  obtain ⟨m, hm⟩ := Int.eq_ofNat_of_zero_le hwant
  have hmin : min m s.d.stStreamed ≤ s.d.stStreamed := min_le_right _ _
  have hread := readSectors_eq h.core.ring m
  have hleft : 0 ≤ r.sectorsToRead - (min m s.d.stStreamed : ℕ) := by omega
  rw [readStep] at hs
  split_ifs at hs with hlt hef hee
  · -- EE destination: the DMA list is the front of the window
    rw [readSectorsEE_eq_readSectors, hm, hread] at hs
    simp only at hs
    split_ifs at hs with hplan
    · simp only [Option.some.injEq] at hs
      subst hs
      exact h.moveCaller hown (callerInv_readNext (by simpa using hwant)) (owns_readNext r 0)
    · simp only [Option.some.injEq] at hs
      subst hs
      exact h.moveCaller hown (Dma.ofSlots hmin hleft) rfl
  · -- IOP destination: handed over in one section
    rw [hm, hread] at hs
    simp only [Ring.length_slots, Option.some.injEq] at hs
    subst hs
    exact h.consume hown hmin (h.core.stream.holds.map_slots hmin) hleft
  · simp only [Option.some.injEq] at hs
    subst hs
    exact h.moveCaller hown trivial rfl

theorem Inv.dma (h : Inv disc s) {r : ReadCall} {rdptr : ℕ} {plan : List ℕ} {copied : List α}
    (hc : s.caller = .dma r rdptr plan copied) (hs : callerStep s = some s') : Inv disc s' := by
  have hown : s.caller.owns = 0 := by rw [hc]; rfl
  have hd : Dma disc s.d s.base s.delivered r rdptr plan copied := by
    simpa only [CallerInv, hc] using h.caller
  cases plan with
  | cons slot rest =>
    simp only [callerStep, hc, Option.some.injEq] at hs
    subst hs
    exact h.moveCaller hown (hd.copy h.core.stream) rfl
  | nil =>
    simp only [callerStep, hc, Option.some.injEq] at hs
    subst hs
    have hle : copied.length ≤ s.d.stStreamed := by simpa using hd.le
    have hlt := h.core.ring.lt
    have hst := h.core.ring.streamed_le
    have hrd : rdptr = (s.d.stReadPtr + copied.length) % s.d.stBufmax := by
      simpa using hd.rdptr_eq
    rw [readSectorsEECommit, u16OfInt_sub hle (by omega), hrd]
    exact h.consume hown hle hd.copied_eq (by simpa using hd.wanted)

theorem Inv.callerStep (h : Inv disc s) (hs : callerStep s = some s') : Inv disc s' := by
  cases hc : s.caller with
  | idle => simp [GameReads.callerStep, hc] at hs
  | fill pc => exact h.callerFill hc hs
  | read r =>
    simp only [GameReads.callerStep, hc] at hs
    exact h.read hc hs
  | dma r rdptr plan copied => exact h.dma hc hs

/-! ### The reading thread -/

theorem Inv.readerFill (h : Inv disc s) (hr : s.reader = .fill pc)
    (hs : readerStep disc s = some s') : Inv disc s' := by
  have hcore := h.core
  have hreader := h.reader
  rw [hr] at hreader hcore
  have hcount : s.counted = s.completed.length := by rw [State.counted, hr]; rfl
  obtain ⟨hfilled, hheld, hnext⟩ :=
    Streaming.Drive.fillStep_spec Read.owns_fill hcore.held hreader
  simp only [readerStep, hr, Option.some.injEq] at hs
  subst hs
  generalize s.toDrive.fillStep .fill pc = r at hfilled hheld hnext ⊢
  obtain ⟨t, pc'⟩ := r
  have howns : (Reader.ofFill pc').owns = ownsAt pc' := by cases pc' <;> rfl
  have hpend : (Reader.ofFill pc').pending = 0 := by cases pc' <;> rfl
  obtain ⟨b, hd⟩ := hfilled.d_eq
  refine ⟨by simp only [hpend]; exact Nat.zero_le _, ?_, h.caller.frame hd rfl rfl, ?_⟩
  · have hcore' := (hcore.filled hfilled hheld).withReader (.ofFill pc')
    rw [hcount] at hcore'
    simp only [State.counted, howns, hpend, Nat.sub_zero]
    exact hcore'
  · cases pc' with
    | none => trivial
    | some pc' => exact hnext pc' rfl

/-- What the caller relies on survives everything the reading thread does to the ring. -/
theorem CallerInv.grow {x : Caller α} (h : CallerInv disc s x) (hown : x.owns = 0)
    (hN : s'.d.stBufmax = s.d.stBufmax) (hrd : s'.d.stReadPtr = s.d.stReadPtr)
    (hst : s.d.stStreamed ≤ s'.d.stStreamed) (hbase : s'.base = s.base)
    (hdel : s'.delivered = s.delivered) : CallerInv disc s' x := by
  cases x with
  | idle => trivial
  | fill pc =>
    cases pc with
    | async slot => cases hown
    | alloc => trivial
    | failed => trivial
    | reschedule => trivial
    | full => trivial
  | read r => exact h
  | dma r rdptr plan copied =>
    rw [CallerInv, hbase, hdel]
    exact Dma.mono h hN hrd hst

/-- Away from the callback, everything that has ended is counted in. -/
theorem State.counted_of_wait (hr : s.reader = .wait) : s.counted = s.completed.length := by
  rw [State.counted, hr]
  rfl

/-- While a fill is in flight, no thread has `StIsReading`. -/
theorem Core.owns_eq_zero (h : Core disc s n k) {f : CdRead} (hf : s.cdread = some (.fill f)) :
    k = 0 := by
  have hheld := h.held.le_one
  rw [Streaming.Drive.flying, hf, Option.elim_some, Read.owns] at hheld
  omega

/-- The reading thread stores a sector of a fill. -/
theorem Inv.transfer (h : Inv disc s) (hr : s.reader = .wait) {f : CdRead}
    (hf : s.cdread = some (.fill f)) (hlt : f.done < f.sectors) :
    Inv disc { s with buf := Function.update s.buf (f.slot + f.done) (disc (u32 (f.lba + f.done)))
                      cdread := some (.fill { f with done := f.done + 1 }) } := by
  have hcore := h.core
  obtain ⟨-, hp⟩ := hcore.flight f hf
  have hown : s.caller.owns = 0 := by have := hcore.owns_eq_zero hf; omega
  have hheld := hcore.held
  rw [Streaming.Drive.Held, Streaming.Drive.flying, hf] at hheld
  refine ⟨h.total, ?_, h.caller.grow hown rfl rfl le_rfl rfl rfl, ?_⟩
  · refine ⟨hcore.stat, hcore.ring, ⟨hcore.stream.lsn_eq, ?_⟩, hcore.delivered_eq, hcore.fills,
      hcore.write, hcore.streamed, ?_, hheld⟩
    · have hsec := hp.sectors_eq
      simp only [hp.slot_eq]
      exact holds_update_bank hcore.ring hp.room hcore.stream.holds (by omega) _
    · rintro g ⟨⟩
      refine ⟨Nat.succ_le_of_lt hlt, hp.lba_eq, hp.slot_eq, hp.sectors_eq, hp.room, ?_⟩
      intro j hj
      simp only [hp.slot_eq, hp.lba_eq]
      rcases Nat.lt_succ_iff_lt_or_eq.mp hj with hj | rfl
      · rw [Function.update_of_ne (by omega)]
        exact hp.stored j hj
      · rw [Function.update_self]
  · simp only [hr]
    trivial

/-- A fill ends: it is the next bank. -/
theorem Inv.endFill (h : Inv disc s) (hr : s.reader = .wait) {f : CdRead}
    (hf : s.cdread = some (.fill f)) (hge : ¬ f.done < f.sectors) :
    Inv disc { s with cdread := none, intrEf := true, completed := s.completed ++ [f],
                      reader := .callback (.fill f) } := by
  have hcore := h.core
  have hcount := State.counted_of_wait hr
  obtain ⟨hle, hp⟩ := hcore.flight f hf
  have hdone : f.done = f.sectors := by omega
  have hown : s.caller.owns = 0 := by have := hcore.owns_eq_zero hf; omega
  have hlast : f = bankRead s.d s.base s.completed.length := by
    obtain ⟨lba, sectors, slot, done⟩ := f
    have hlba := hp.lba_eq
    have hslot := hp.slot_eq
    have hsec := hp.sectors_eq
    rw [hcore.lsn, hcount] at hlba
    rw [hcore.write, hcount] at hslot
    simp only [bankRead, CdRead.mk.injEq]
    exact ⟨hlba, hsec, hslot, hdone.trans hsec⟩
  refine ⟨by simp [Reader.pending], ?_, h.caller.grow hown rfl rfl le_rfl rfl rfl, hdone, hp⟩
  have hcount' : (s.completed ++ [f]).length - 1 = s.counted := by simp [hcount]
  change Core disc _ ((s.completed ++ [f]).length - 1) _
  rw [hcount']
  refine ⟨hcore.stat, hcore.ring, ⟨hcore.stream.lsn_eq, hcore.stream.holds⟩, hcore.delivered_eq,
    ?_, hcore.write, hcore.streamed, (fun _ h => by cases h), ?_⟩
  · change s.completed ++ [f] = (List.range (s.completed ++ [f]).length).map (bankRead s.d s.base)
    rw [List.length_append, List.length_singleton, List.range_succ, List.map_append, ← hcore.fills,
      List.map_singleton, ← hlast]
  · have hheld := hcore.held
    simp only [Streaming.Drive.Held, Streaming.Drive.flying, hf, hr, hown, Option.elim_some,
      Option.elim_none, Read.owns, Reader.owns, Reader.pending] at hheld ⊢
    omega

/-- A game read ends. -/
theorem Inv.endGame (h : Inv disc s) (hr : s.reader = .wait) {lsn m : ℕ}
    (hf : s.cdread = some (.game lsn m)) :
    Inv disc { s with cdread := none, intrEf := true, reader := .callback (.game lsn m) } := by
  have hcore := h.core
  have hcount := State.counted_of_wait hr
  refine ⟨Nat.zero_le _, ?_, h.caller.frame rfl rfl rfl, trivial⟩
  rw [hcount] at hcore
  refine ⟨hcore.stat, hcore.ring, ⟨hcore.stream.lsn_eq, hcore.stream.holds⟩, hcore.delivered_eq,
    hcore.fills, hcore.write, hcore.streamed, (fun _ h => by cases h), ?_⟩
  simpa only [Streaming.Drive.Held, Streaming.Drive.flying, hf, hr, Option.elim_some,
    Option.elim_none, Read.owns, Reader.owns, Reader.pending] using hcore.held

/-- **The callback of a fill** counts its bank in. -/
theorem Inv.callbackFill (h : Inv disc s) {f : CdRead} (hr : s.reader = .callback (.fill f)) :
    Inv disc { s with d := stmCallbackSection s.d, reader := .fill .alloc } := by
  have hcore := h.core
  have hreader := h.reader
  have htotal := h.total
  have hheld := hcore.held
  have hle := hheld.le_one
  rw [hr] at hreader htotal
  obtain ⟨hdone, hp⟩ := hreader
  simp only [Streaming.Drive.Held, hr, Reader.owns, Reader.pending] at hheld hle htotal
  have hreading : s.d.stIsReading = true := by
    cases hb : s.d.stIsReading with
    | true => rfl
    | false =>
      rw [hb] at hheld
      simp at hheld
  have hown : s.caller.owns = 0 := by omega
  have hflying : s.toDrive.flying Read.owns = 0 := by omega
  have hcount : s.counted + 1 = s.completed.length := by
    rw [State.counted, hr]
    exact Nat.sub_add_cancel htotal
  have hsection : stmCallbackSection s.d = stmCallbackCount s.d := if_pos hreading
  have hsec := stmCallbackCount_eq hcore.ring hp.room
  have hstream := hcore.stream.produce hcore.ring hp hdone
  rw [hsection]
  refine ⟨Nat.zero_le _, ?_, h.caller.grow hown ?_ ?_ ?_ rfl rfl, trivial⟩
  · change Core disc _ s.completed.length _
    rw [← hcount]
    refine ⟨by rw [hsec]; exact hcore.stat, hcore.ring.produce hp.room, hstream,
      hcore.delivered_eq, by rw [hsec]; exact hcore.fills, ?_, ?_, fun g hg => ?_, ?_⟩
    · simp only [hsec]
      rw [hcore.write, Nat.mod_add_mod, Nat.add_mul, Nat.one_mul]
    · simp only [hsec]
      rw [Nat.add_mul, Nat.one_mul, ← hcore.streamed]
      omega
    · have hg : s.cdread = some (.fill g) := hg
      rw [Streaming.Drive.flying, hg] at hflying
      cases hflying
    · change s.toDrive.flying Read.owns + (s.caller.owns + 0) ≤ _
      omega
  all_goals simp [hsec]

theorem Inv.readerStep (h : Inv disc s) (hok : Event.reader.Ok s)
    (hs : readerStep disc s = some s') : Inv disc s' := by
  cases hr : s.reader with
  | wait =>
    simp only [GameReads.readerStep, hr] at hs
    split at hs
    case h_1 => cases hs
    case h_2 f hf =>
      split_ifs at hs with hlt
      · simp only [Option.some.injEq] at hs
        have htransfer := h.transfer hr hf hlt
        rw [hr] at htransfer
        exact hs ▸ htransfer
      · simp only [Option.some.injEq] at hs
        exact hs ▸ h.endFill hr hf hlt
    case h_3 lsn m hf =>
      simp only [Option.some.injEq] at hs
      exact hs ▸ h.endGame hr hf
  | callback r =>
    simp only [GameReads.readerStep, hr, Option.some.injEq] at hs
    subst hs
    cases r with
    | fill f => exact h.callbackFill hr
    | game lsn m =>
      -- the flag is clear, so the callback leaves the fields alone
      have hclear : s.d.stIsReading = false := by simpa only [Event.Ok, hr] using hok
      have hsec : stmCallbackSection s.d = s.d := by
        rw [stmCallbackSection, hclear]
        rfl
      have hcore := h.core
      have hcount : s.counted = s.completed.length := by rw [State.counted, hr]; rfl
      rw [hcount, hr] at hcore
      rw [hsec]
      exact ⟨Nat.zero_le _, hcore.withReader _, h.caller.frame rfl rfl rfl, trivial⟩
  | fill pc => exact h.readerFill hr hs

/-! ### Runs -/

/-- **One step.** -/
theorem Inv.step (h : Inv disc s) {e : Event} (hok : e.Ok s) (hs : step disc s e = some s') :
    Inv disc s' := by
  cases e with
  | stRead sectors mode ee =>
    simp only [GameReads.step] at hs
    split at hs
    case h_2 => cases hs
    case h_1 hc =>
      simp only [Option.some.injEq] at hs
      subst hs
      refine h.moveCaller (by rw [hc]; rfl) ?_ rfl
      have hlt : sectors < 2147483648 := hok
      rw [CallerInv, intOfU32, u32]
      simp only
      omega
  | gameRead lsn sectors =>
    simp only [GameReads.step] at hs
    split at hs
    case h_1 hf =>
      simp only [Option.some.injEq] at hs
      subst hs
      have hcore := h.core
      have hheld := hcore.held
      rw [Streaming.Drive.Held, Streaming.Drive.flying, hf] at hheld
      exact ⟨h.total, ⟨hcore.stat, hcore.ring, hcore.stream, hcore.delivered_eq, hcore.fills,
        hcore.write, hcore.streamed, (fun _ h => by cases h), hheld⟩, h.caller.frame rfl rfl rfl,
        h.reader.frame rfl rfl⟩
    case h_2 =>
      cases hs
      exact h
  | caller => exact h.callerStep hs
  | reader => exact h.readerStep hok hs
  | alarm =>
    simp only [GameReads.step] at hs
    split_ifs at hs with hal
    simp only [Option.some.injEq] at hs
    subst hs
    obtain ⟨hfilled, hheld⟩ := Streaming.Drive.stmScheduleCb_spec Read.owns_fill h.core.held
    obtain ⟨b, hd⟩ := hfilled.d_eq
    exact ⟨h.total, h.core.filled hfilled hheld, h.caller.frame hd rfl rfl, h.reader.frame hd rfl⟩

/-- A stream starts with an empty ring and nothing in flight. -/
theorem Inv.init {d : StreamingData} (hring : RingInv d) (lsn : ℕ) (buf : ℕ → α) :
    Inv disc (startState d lsn buf) := by
  refine ⟨Nat.zero_le _, ?_, trivial, trivial⟩
  refine ⟨rfl, hring.reset rfl rfl, .empty (u32_u32 lsn).symm rfl, rfl, rfl, ?_, ?_,
    (fun _ h => by cases h), Nat.le_refl 0⟩
  · simp [startState, State.counted, stReset]
  · simp [startState, State.counted, stReset]

/-- **A stream the game's own reads do not disturb.** After a `sceCdStInit` that lays out a proper
ring, in every state of every run in which no callback of a game read finds `StIsReading` set: the
fields of the driver have advanced by one bank for each fill that has ended and by nothing else,
each fill was for the `Stlsn` and the bank that were next, and what `sceCdStRead` has handed over
is the disc from the start of the stream on. -/
theorem run_undisturbed (disc buf : ℕ → α) {bufmax bankmax : ℕ} (hring : RingOk bufmax bankmax)
    {d : StreamingData} (hinit : sceCdStInit bufmax bankmax .zero = some d) (lsn : ℕ)
    (es : List Event) (hok : Transition.RunOk (step disc) Event.Ok (startState d lsn buf) es)
    {s : State α} (hrun : run disc (startState d lsn buf) es = some s) : Undisturbed disc s := by
  have h : Inv disc s :=
    Transition.run_invariant_of_runOk (fun _ _ _ hs he hstep => hs.step he hstep)
      (Inv.init (ringInv_of_init hring hinit) lsn buf) hok hrun
  exact h.undisturbed

/-- A ring of two banks of two sectors. A game read is issued between the end of a fill and its
callback, so the next fill fails, is rescheduled, fails again in the alarm, and is started by the
callback of the game read. -/
def sharedRun : List Event :=
  [.caller, .caller, .reader, .reader, .reader, .gameRead 900 4, .reader, .reader, .reader, .reader,
    .reader, .alarm, .reader, .reader, .reader, .reader, .reader, .reader, .reader, .reader,
    .reader, .stRead 3 0 false, .caller]

theorem run_undisturbed_sharedRun :
    ∃ s, run (fun lsn => lsn) (startState ⟨4, 2, 2, 0, 0, 0, false, false, 0⟩ 16 fun _ => 99)
        sharedRun = some s ∧ s.delivered = [16, 17, 18] ∧ Undisturbed (fun lsn => lsn) s :=
  ⟨_, rfl, rfl, run_undisturbed (fun lsn => lsn) (fun _ => 99) (show RingOk 4 2 by decide) rfl 16
    sharedRun (by decide) rfl⟩

/-- A game read is in flight when a stream starts at sector 16. It ends after `StFillStreamBuffer`
has set `StIsReading` and before its `cdvdman_AsyncRead`: the callback counts a bank in that nobody
has filled, the fill that follows is for sector 18 and for the bank that was just counted in, and
`sceCdStRead` hands over what the memory held before. -/
theorem not_undisturbed_gameRead :
    ∃ s, run (fun lsn => lsn) (startState ⟨4, 2, 2, 0, 0, 0, false, false, 0⟩ 16 fun _ => 99)
        [.gameRead 900 4, .caller, .reader, .reader, .caller, .stRead 2 0 false, .caller] = some s ∧
      s.completed = [] ∧ s.d.stlsn = 18 ∧ s.cdread = some (.fill ⟨18, 2, 0, 0⟩) ∧
      s.delivered = [99, 99] ∧ ¬ Undisturbed (fun lsn => lsn) s := by
  refine ⟨_, rfl, rfl, rfl, rfl, rfl, fun h => ?_⟩
  exact absurd h.lsn (by decide)

end GameReads

end OpenPS2Loader
