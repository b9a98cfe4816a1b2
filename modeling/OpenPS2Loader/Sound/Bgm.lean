import Mathlib.Algebra.Group.Int.Defs
import Mathlib.Logic.Function.Basic
import OpenPS2Loader.Lib.Transition

/-!
# Background music

`sound.c`: `bgmIoThread` decodes a track into a ring of chunks and `bgmThread` hands the chunks to
the audio server. Two semaphores count the free chunks and the full ones. `bgmStart` makes the
semaphores and the threads of a session, `bgmStop` waits for the threads and deletes all of it, and
gives up after a while; `bgmQuiesce` only asks the threads to stop.

The threads and the main thread share the variables of the file, whatever session they belong to. A
step is an operation on a semaphore, on a thread or on the decoder, or one read or write of a shared
variable; a thread that waits for a semaphore waits for the one that the variable named when it
began to. The results of the calls are inputs: whether something can be created, and what `ov_read`
returns. A thread that is not dormant cannot be deleted: it goes on. The calls of the main thread
come after `audioInit`.

The bytes of a track are numbered in the order in which they are decoded. The states also have the
chunks that were decoded and those that were played in each session, and whether something was
deleted or replaced while a thread could still execute a statement.

## Main definitions

* `Bgm.PlayPc`, `Bgm.IoPc`, `Bgm.MainPc` — the statements of the threads and of the main thread
* `Bgm.Shared`, `Bgm.Part` — the variables of `sound.c`, and the threads of a session
* `Bgm.playStep`, `Bgm.ioStep`, `Bgm.mainStep`
* `Bgm.step` — the threads, interleaved
-/

namespace OpenPS2Loader

namespace Bgm

/-- `BGM_RING_BUFFER_COUNT` -/
def ringCount : ℕ := 192

/-- `BGM_RING_BUFFER_SIZE` -/
def chunkSize : ℕ := 4096

/-- `BGM_STOP_WAIT_SLICES` -/
def stopWaits : ℕ := 16

/-- `BGM_IO_RESUME_WATER_CHUNKS` -/
def resumeWater : ℤ := 80

/-- The bytes of an entry of `bgmBuffer`. -/
abbrev Chunk : Type := Fin chunkSize → ℕ

/-- The bytes from `n` on. -/
def pieceAt (n : ℕ) : Chunk := fun j => n + j

/-! ### Statements -/

/-- The statement that `bgmThread` executes next. -/
inductive PlayPc
  | dormant
  | begin
  | loop
  | wait
  /-- asleep on this semaphore -/
  | waiting (sema : Option ℕ)
  | check
  | adjust
  | play
  | readRd
  | writeRd (rd : ℕ)
  | signal
  /-- `audsrv_stop_audio` and `rdPtr = 0` -/
  | stopAudio
  | resetWr
  | clearRunning
  | clearPlaying
  | ended
  deriving DecidableEq

/-- The statement that `bgmIoThread` executes next. -/
inductive IoPc
  | dormant
  | begin
  | wait
  /-- asleep on this semaphore -/
  | waiting (sema : Option ℕ)
  | check
  | checkEnable
  /-- at `ov_read` -/
  | decode (bufferPtr : ℕ)
  /-- behind the loop over `ov_read` -/
  | checkFailed (bufferPtr : ℕ)
  | readWr
  | writeWr (wr : ℕ)
  | adjust
  | signal
  | loop
  | loopEnable
  | clearRunning
  | setTerminate
  | lastSignal
  | ended
  deriving DecidableEq

/-- What a session has. -/
inductive Resource
  | inSema
  | outSema
  | playThread
  | ioThread
  | vorbisFile
  deriving DecidableEq

/-- The statement that the main thread executes next; `stop` says whether it is in `bgmStop` or in
`bgmQuiesce`. -/
inductive MainPc
  | idle
  | initTerminate
  | initRd
  | initWr
  | initRunning
  | initIoRunning
  | initBuffered
  | initPrimed
  | createIn
  | createOut
  | createPlay
  | createIo
  | load
  | setPlaying
  | startIo
  | startPlay
  /-- what `bgmDeinit`, or a `bgmInit` that failed, has still to delete -/
  | cleanup (todo : List Resource)
  | setTerminate (stop : Bool)
  | signalIn (stop : Bool)
  | signalOut (stop : Bool)
  | awaitIo (waits : ℕ)
  | awaitPlay (waits : ℕ)
  | checkIo
  | checkPlay
  deriving DecidableEq

/-! ### Variables -/

/-- The variables of the ring. An identifier of a semaphore is `none` when it is an error; `semas`
has the counts of the semaphores that exist. `decoded` is the number of bytes decoded so far. -/
structure Memory where
  terminateFlag : Bool
  rdPtr : ℕ
  wrPtr : ℕ
  inSema : Option ℕ
  outSema : Option ℕ
  semas : ℕ → Option ℕ
  bgmBuffer : ℕ → Chunk
  decoded : ℕ

/-- The variables of `sound.c`. `vorbisFile` says whether the pointer is not `NULL`, and no
semaphore from `nextSema` on was made. -/
structure Shared extends Memory where
  bgmIsPlaying : Bool
  bgmThreadRunning : Bool
  bgmIoThreadRunning : Bool
  bgmBufferedChunks : ℤ
  bgmBufferPrimed : Bool
  gEnableBGM : Bool
  vorbisFile : Bool
  nextSema : ℕ

/-- The threads of a session, where the chunks that they decoded start, and the chunks that they
played. -/
structure Part where
  play : PlayPc
  io : IoPc
  chunks : List ℕ
  played : List Chunk

/-- A session whose threads are not started. -/
def Part.fresh : Part := ⟨.dormant, .dormant, [], []⟩

namespace Memory

/-- A semaphore that does not exist does not make a thread wait. -/
def waitSema (v : Memory) : Option ℕ → Option Memory
  | none => some v
  | some id =>
    match v.semas id with
    | none => some v
    | some 0 => none
    | some (n + 1) => some { v with semas := Function.update v.semas id (some n) }

/-- `SignalSema`; the count stays at its maximum. -/
def signalSema (v : Memory) : Option ℕ → Memory
  | none => v
  | some id =>
    match v.semas id with
    | none => v
    | some n =>
      { v with semas := Function.update v.semas id (some (if n < ringCount then n + 1 else n)) }

/-- `DeleteSema` -/
def deleteSema (v : Memory) : Option ℕ → Memory
  | none => v
  | some id => { v with semas := Function.update v.semas id none }

/-- `ov_read` puts `n` bytes into the chunk at `wrPtr`, from `bufferPtr` on. -/
def store (v : Memory) (bufferPtr n : ℕ) : Memory :=
  { v with
    bgmBuffer := Function.update v.bgmBuffer v.wrPtr fun j =>
      if bufferPtr ≤ j ∧ (j : ℕ) < bufferPtr + n then v.decoded + (j - bufferPtr)
      else v.bgmBuffer v.wrPtr j
    decoded := v.decoded + n }

end Memory

/-- `bgmAdjustBufferedChunks` -/
def Shared.adjust (v : Shared) (delta : ℤ) : Shared :=
  let n := v.bgmBufferedChunks + delta
  let n := if n < 0 then 0 else if (ringCount : ℤ) < n then (ringCount : ℤ) else n
  { v with
    bgmBufferedChunks := n
    bgmBufferPrimed := v.bgmBufferPrimed || decide (resumeWater ≤ n) }

/-! ### The threads -/

/-- `bgmThread`. -/
def playStep (v : Shared) (t : Part) : Option (Shared × Part) :=
  match t.play with
  | .dormant => none
  | .begin => some ({ v with bgmThreadRunning := true }, { t with play := .loop })
  | .loop => some (v, { t with play := if v.terminateFlag then .stopAudio else .wait })
  | .wait => some (v, { t with play := .waiting v.outSema })
  | .waiting sema =>
    (v.toMemory.waitSema sema).map fun m => ({ v with toMemory := m }, { t with play := .check })
  | .check => some (v, { t with play := if v.terminateFlag then .stopAudio else .adjust })
  | .adjust => some (v.adjust (-1), { t with play := .play })
  | .play => some (v, { t with play := .readRd, played := t.played ++ [v.bgmBuffer v.rdPtr] })
  | .readRd => some (v, { t with play := .writeRd v.rdPtr })
  | .writeRd rd => some ({ v with rdPtr := (rd + 1) % ringCount }, { t with play := .signal })
  | .signal =>
    some ({ v with toMemory := v.toMemory.signalSema v.inSema }, { t with play := .loop })
  | .stopAudio => some ({ v with rdPtr := 0 }, { t with play := .resetWr })
  | .resetWr => some ({ v with wrPtr := 0 }, { t with play := .clearRunning })
  | .clearRunning => some ({ v with bgmThreadRunning := false }, { t with play := .clearPlaying })
  | .clearPlaying => some ({ v with bgmIsPlaying := false }, { t with play := .ended })
  | .ended => none

/-- What `ov_read` returns: bytes, `OV_HOLE`, another error, or the end of the stream, where
`ov_pcm_seek` succeeds or not. -/
inductive Decode
  | bytes (n : ℕ)
  | hole
  | error
  | endOfStream (rewound : Bool)

/-- `ov_read` and what follows in its loop. -/
def decodeStep (r : Decode) (v : Shared) (t : Part) (bufferPtr : ℕ) : Option (Shared × Part) :=
  match r with
  | .bytes n =>
    if 0 < n ∧ bufferPtr + n ≤ chunkSize then
      some ({ v with toMemory := v.toMemory.store bufferPtr n },
        { t with io := if bufferPtr + n = chunkSize then .checkFailed (bufferPtr + n)
          else .decode (bufferPtr + n) })
    else none
  | .hole => some (v, t)
  | .endOfStream true => some (v, t)
  | _ => some ({ v with terminateFlag := true }, { t with io := .checkFailed bufferPtr })

/-- `bgmIoThread`. -/
def ioStep (r : Decode) (v : Shared) (t : Part) : Option (Shared × Part) :=
  match t.io with
  | .dormant => none
  | .begin => some ({ v with bgmIoThreadRunning := true }, { t with io := .wait })
  | .wait => some (v, { t with io := .waiting v.inSema })
  | .waiting sema =>
    (v.toMemory.waitSema sema).map fun m => ({ v with toMemory := m }, { t with io := .check })
  | .check => some (v, { t with io := if v.terminateFlag then .clearRunning else .checkEnable })
  | .checkEnable => some (v, { t with io := if v.gEnableBGM then .decode 0 else .clearRunning })
  | .decode bufferPtr => decodeStep r v t bufferPtr
  | .checkFailed _ => some (v, { t with io := if v.terminateFlag then .clearRunning else .readWr })
  | .readWr => some (v, { t with io := .writeWr v.wrPtr })
  | .writeWr wr =>
    some ({ v with wrPtr := (wr + 1) % ringCount },
      { t with io := .adjust, chunks := t.chunks ++ [v.decoded - chunkSize] })
  | .adjust => some (v.adjust 1, { t with io := .signal })
  | .signal =>
    some ({ v with toMemory := v.toMemory.signalSema v.outSema }, { t with io := .loop })
  | .loop => some (v, { t with io := if v.terminateFlag then .clearRunning else .loopEnable })
  | .loopEnable => some (v, { t with io := if v.gEnableBGM then .wait else .clearRunning })
  | .clearRunning => some ({ v with bgmIoThreadRunning := false }, { t with io := .setTerminate })
  | .setTerminate => some ({ v with terminateFlag := true }, { t with io := .lastSignal })
  | .lastSignal =>
    some ({ v with toMemory := v.toMemory.signalSema v.outSema }, { t with io := .ended })
  | .ended => none

/-- A thread of the session can still execute a statement. -/
def Part.alive (t : Part) : Bool :=
  !(t.play == .dormant || t.play == .ended) || !(t.io == .dormant || t.io == .ended)

end Bgm

open Bgm in
/-- The sessions, the current one among them, and the main thread; `harmed` says that something was
deleted or replaced while a thread could still execute a statement. -/
structure Bgm where
  shared : Shared
  main : MainPc
  session : ℕ
  parts : ℕ → Part
  harmed : Bool

namespace Bgm

/-! ### The main thread -/

/-- The threads of the current session. -/
def current (s : Bgm) : Part := s.parts s.session

/-- A thread of some session can still execute a statement. -/
def someAlive (s : Bgm) : Bool := (List.range (s.session + 1)).any fun m => (s.parts m).alive

/-- The main thread goes on. -/
def goes (s : Bgm) (pc : MainPc) : Bgm := { s with main := pc }

/-- The main thread goes on after it deleted or replaced something. -/
def replaces (s : Bgm) (pc : MainPc) : Bgm :=
  { s with main := pc, harmed := s.harmed || s.someAlive }

/-- What `bgmDeinit` deletes. -/
def deinit : List Resource := [.inSema, .outSema, .playThread, .ioThread, .vorbisFile]

/-- A statement of `bgmDeinit`. -/
def delete (v : Shared) : Resource → Shared
  | .inSema => { v with toMemory := v.toMemory.deleteSema v.inSema }
  | .outSema => { v with toMemory := v.toMemory.deleteSema v.outSema }
  | .playThread => v
  | .ioThread => v
  | .vorbisFile => { v with vorbisFile := false }

/-- A statement of `bgmInit`, `bgmStart`, `bgmDeinit`, `bgmStop` or `bgmQuiesce`; `ok` says whether
a call succeeds. -/
def mainStep (ok : Bool) (s : Bgm) : Option Bgm :=
  let v := s.shared
  match s.main with
  | .idle => none
  | .initTerminate => some { s with shared := { v with terminateFlag := false }, main := .initRd }
  | .initRd => some { s with shared := { v with rdPtr := 0 }, main := .initWr }
  | .initWr => some { s with shared := { v with wrPtr := 0 }, main := .initRunning }
  | .initRunning =>
    some { s with shared := { v with bgmThreadRunning := false }, main := .initIoRunning }
  | .initIoRunning =>
    some { s with shared := { v with bgmIoThreadRunning := false }, main := .initBuffered }
  | .initBuffered =>
    some { s with shared := { v with bgmBufferedChunks := 0 }, main := .initPrimed }
  | .initPrimed => some { s with shared := { v with bgmBufferPrimed := false }, main := .createIn }
  | .createIn =>
    if ok then
      some { s.replaces .createOut with
        shared := { v with
          inSema := some v.nextSema
          semas := Function.update v.semas v.nextSema (some ringCount)
          nextSema := v.nextSema + 1 }
        session := s.session + 1 }
    else some { s.replaces .idle with shared := { v with inSema := none } }
  | .createOut =>
    if ok then
      some { s.replaces .createPlay with
        shared := { v with
          outSema := some v.nextSema
          semas := Function.update v.semas v.nextSema (some 0)
          nextSema := v.nextSema + 1 } }
    else some { s.replaces (.cleanup [.inSema]) with shared := { v with outSema := none } }
  | .createPlay => some (s.replaces (if ok then .createIo else .cleanup [.inSema, .outSema]))
  | .createIo =>
    some (s.replaces (if ok then .load else .cleanup [.inSema, .outSema, .playThread]))
  | .load =>
    some { s.replaces (if ok then .setPlaying else .cleanup deinit) with
      shared := { v with vorbisFile := ok } }
  | .setPlaying => some { s with shared := { v with bgmIsPlaying := true }, main := .startIo }
  | .startIo =>
    some { s with
      parts := Function.update s.parts s.session
        { s.current with io := if ok then .begin else .dormant }
      main := .startPlay }
  | .startPlay =>
    some { s with
      parts := Function.update s.parts s.session
        { s.current with play := if ok then .begin else .dormant }
      main := .idle }
  | .cleanup [] => some (s.goes .idle)
  | .cleanup (r :: todo) => some { s.replaces (.cleanup todo) with shared := delete v r }
  | .setTerminate stop =>
    some { s with shared := { v with terminateFlag := true }, main := .signalIn stop }
  | .signalIn stop =>
    some { s with
      shared := { v with toMemory := v.toMemory.signalSema v.inSema }
      main := .signalOut stop }
  | .signalOut stop =>
    some { s with
      shared := { v with toMemory := v.toMemory.signalSema v.outSema }
      main := if stop then .awaitIo stopWaits else .idle }
  | .awaitIo waits =>
    some (s.goes (if v.bgmIoThreadRunning && waits != 0 then .awaitIo (waits - 1)
      else .awaitPlay stopWaits))
  | .awaitPlay waits =>
    some (s.goes (if v.bgmThreadRunning && waits != 0 then .awaitPlay (waits - 1) else .checkIo))
  | .checkIo => some (s.goes (if v.bgmIoThreadRunning then .idle else .checkPlay))
  | .checkPlay => some (s.goes (if v.bgmThreadRunning then .idle else .cleanup deinit))

/-! ### Runs -/

/-- The calls of the main thread. -/
inductive Call
  | bgmStart
  | bgmStop
  | bgmQuiesce

/-- Where a call begins. -/
def Call.entry : Call → MainPc
  | .bgmStart => .initTerminate
  | .bgmStop => .setTerminate true
  | .bgmQuiesce => .setTerminate false

/-- The main thread calls a function or executes a statement, a thread of the session `m` executes
one, or the setting changes. -/
inductive Event
  | call (c : Call)
  | main (ok : Bool)
  | play (m : ℕ)
  | io (m : ℕ) (r : Decode)
  | enable (b : Bool)

/-- A step of a thread of the session `m`. -/
def withPart (s : Bgm) (m : ℕ) (r : Option (Shared × Part)) : Option Bgm :=
  r.map fun r => { s with shared := r.1, parts := Function.update s.parts m r.2 }

def step (s : Bgm) : Event → Option Bgm
  | .call c => if s.main = .idle then some (s.goes c.entry) else none
  | .main ok => s.mainStep ok
  | .play m => s.withPart m (playStep s.shared (s.parts m))
  | .io m r => s.withPart m (ioStep r s.shared (s.parts m))
  | .enable b => some { s with shared := { s.shared with gEnableBGM := b } }

/-- Before the first call. -/
def init : Bgm where
  shared := ⟨⟨false, 0, 0, some 0, some 0, fun _ => none, fun _ _ => 0, 0⟩, false, false, false, 0,
    false, false, false, 1⟩
  main := .idle
  session := 0
  parts _ := .fresh
  harmed := false

end Bgm

end OpenPS2Loader
