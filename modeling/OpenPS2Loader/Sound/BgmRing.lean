import Mathlib.Algebra.Group.Nat.Defs
import Mathlib.Data.List.GetD
import Mathlib.Data.List.Infix
import Mathlib.Tactic.SplitIfs
import OpenPS2Loader.Lib.Ring
import OpenPS2Loader.Sound.Bgm

/-!
# The ring of the background music

While both threads of a session work, the chunks that were decoded and not yet played are in the
slots from `rdPtr` to `wrPtr`, and the two semaphores count the slots that are not taken and the
chunks that are not played: a thread that got past a semaphore has a slot or a chunk of its own.

Once `terminateFlag` is set the counts say nothing any more, since everybody who sets the flag
signals the semaphores as well. What a thread has got before it keeps: `bgmThread` plays its chunk,
`bgmIoThread` fills its slot, and both look at the flag before they take another one. When
`bgmThread` leaves its loop it resets both pointers, and nothing is played after that.

## Main definitions

* `Bgm.RingInv` — what is between the threads of a session

## Main results

* `Bgm.RingInv.playStep`, `Bgm.RingInv.ioStep` — the threads keep it
* `Bgm.RingInv.bgmBuffer_rdPtr` — what is played is the next chunk
-/

namespace OpenPS2Loader

namespace Bgm

/-! ### Places -/

namespace PlayPc

/-- In the loop of `bgmThread`, or before it. -/
def inLoop : PlayPc → Bool
  | .stopAudio | .resetWr | .clearRunning | .clearPlaying | .ended => false
  | _ => true

/-- It has taken a chunk from `outSema` and not played it. -/
def takes : PlayPc → ℕ
  | .check | .adjust | .play => 1
  | _ => 0

/-- It looked at the flag after that. -/
def plays : PlayPc → Bool
  | .adjust | .play => true
  | _ => false

/-- It has played a chunk and not given its slot back. -/
def frees : PlayPc → ℕ
  | .readRd | .writeRd _ | .signal => 1
  | _ => 0

/-- `rdPtr` is still at the chunk that was played. -/
def behind : PlayPc → ℕ
  | .readRd | .writeRd _ => 1
  | _ => 0

/-- `bgmThreadRunning` is set. -/
def running : PlayPc → Bool
  | .dormant | .begin | .clearPlaying | .ended => false
  | _ => true

end PlayPc

namespace IoPc

/-- It has taken a slot from `inSema` and not filled it. -/
def takes : IoPc → ℕ
  | .check | .checkEnable | .decode _ | .checkFailed _ | .readWr | .writeWr _ => 1
  | _ => 0

/-- It looked at the flag after that. -/
def fills : IoPc → Bool
  | .checkEnable | .decode _ | .checkFailed _ | .readWr | .writeWr _ => true
  | _ => false

/-- The bytes that are in its slot. -/
def filled : IoPc → ℕ
  | .decode n | .checkFailed n => n
  | .readWr | .writeWr _ => chunkSize
  | _ => 0

/-- It has filled a slot and not signalled `outSema`. -/
def owes : IoPc → ℕ
  | .adjust | .signal => 1
  | _ => 0

/-- `bgmIoThreadRunning` is set. -/
def running : IoPc → Bool
  | .dormant | .begin | .setTerminate | .lastSignal | .ended => false
  | _ => true

end IoPc

/-- A chunk that was decoded. -/
def Part.chunk (t : Part) (k : ℕ) : Chunk := pieceAt (t.chunks.getD k 0)

/-- The counts say what they should, unless the flag is set. -/
def Counts (v : Memory) (t : Part) : Prop :=
  ∃ i o a b, v.inSema = some i ∧ v.outSema = some o ∧ i ≠ o ∧ v.semas i = some a ∧
    v.semas o = some b ∧ (v.terminateFlag = false →
      a + t.io.takes + t.chunks.length + t.play.frees ≤ ringCount + t.played.length ∧
        b + t.played.length + t.play.takes + t.io.owes ≤ t.chunks.length)

/-- What is between the threads of a session. -/
structure RingInv (v : Memory) (t : Part) : Prop where
  counts : Counts v t
  le : t.played.length ≤ t.chunks.length
  plays : t.play.plays = true → t.played.length < t.chunks.length
  fills : t.io.fills = true → t.chunks.length < t.played.length + ringCount
  exited : t.play.inLoop = false → v.terminateFlag = true
  closing : t.io = .lastSignal → v.terminateFlag = true
  complete : ∀ n, t.io = .checkFailed n → v.terminateFlag = false → n = chunkSize
  decoded : t.io.filled ≤ v.decoded
  window : t.play.inLoop = true → Ring.Holds ringCount v.bgmBuffer t.played.length
    (t.chunks.length - t.played.length) fun i => t.chunk (t.played.length + i)
  slot : t.play.inLoop = true → ∀ j : Fin chunkSize, (j : ℕ) < t.io.filled →
    v.bgmBuffer (t.chunks.length % ringCount) j + t.io.filled = v.decoded + j
  rd : t.play.inLoop = true → (v.rdPtr + t.play.behind) % ringCount = t.played.length % ringCount
  rdLocal : ∀ rd, t.play = .writeRd rd → rd = v.rdPtr
  wr : t.play.inLoop = true → v.wrPtr = t.chunks.length % ringCount
  wrLocal : t.play.inLoop = true → ∀ wr, t.io = .writeWr wr → wr = v.wrPtr
  playWaits : ∀ sema, t.play = .waiting sema → sema = v.outSema
  ioWaits : ∀ sema, t.io = .waiting sema → sema = v.inSema

section Steps

variable {v : Memory} {t : Part}

/-- A session begins with all slots free. -/
theorem RingInv.fresh {i o : ℕ} (hin : v.inSema = some i) (hout : v.outSema = some o) (hne : i ≠ o)
    (ha : v.semas i = some ringCount) (hb : v.semas o = some 0) (hrd : v.rdPtr = 0)
    (hwr : v.wrPtr = 0) : RingInv v .fresh where
  counts := ⟨i, o, _, _, hin, hout, hne, ha, hb, fun _ => ⟨Nat.le_refl _, Nat.le_refl _⟩⟩
  le := Nat.le_refl 0
  plays := nofun
  fills := nofun
  exited := nofun
  closing := nofun
  complete := nofun
  decoded := Nat.zero_le _
  window _ i hi := absurd hi (Nat.not_lt_zero i)
  slot _ j hj := absurd hj (Nat.not_lt_zero j)
  rd _ := by
    rw [hrd]
    rfl
  rdLocal := nofun
  wr _ := hwr
  wrLocal _ := nofun
  playWaits := nofun
  ioWaits := nofun

/-- `bgmThread` goes on to a statement, and the counts change. -/
theorem RingInv.playTakes (h : RingInv v t) {pc : PlayPc} {semas : ℕ → Option ℕ}
    (hcounts : Counts { v with semas := semas } { t with play := pc })
    (hbehind : pc.behind = t.play.behind)
    (hplays : pc.plays = true → t.played.length < t.chunks.length)
    (hloop : pc.inLoop = true → t.play.inLoop = true)
    (hexit : pc.inLoop = false → v.terminateFlag = true)
    (hlocal : ∀ rd, pc = .writeRd rd → rd = v.rdPtr)
    (hwait : ∀ sema, pc = .waiting sema → sema = v.outSema) :
    RingInv { v with semas := semas } { t with play := pc } where
  counts := hcounts
  le := h.le
  plays := hplays
  fills := h.fills
  exited := hexit
  closing := h.closing
  complete := h.complete
  decoded := h.decoded
  window hpc := h.window (hloop hpc)
  slot hpc := h.slot (hloop hpc)
  rd hpc := by
    rw [hbehind]
    exact h.rd (hloop hpc)
  rdLocal := hlocal
  wr hpc := h.wr (hloop hpc)
  wrLocal hpc := h.wrLocal (hloop hpc)
  playWaits := hwait
  ioWaits := h.ioWaits

/-- `bgmThread` goes on to a statement. -/
theorem RingInv.playGoes (h : RingInv v t) {pc : PlayPc} (htakes : pc.takes ≤ t.play.takes)
    (hfrees : pc.frees ≤ t.play.frees) (hbehind : pc.behind = t.play.behind)
    (hplays : pc.plays = true → t.played.length < t.chunks.length)
    (hloop : pc.inLoop = true → t.play.inLoop = true)
    (hexit : pc.inLoop = false → v.terminateFlag = true)
    (hlocal : ∀ rd, pc = .writeRd rd → rd = v.rdPtr)
    (hwait : ∀ sema, pc = .waiting sema → sema = v.outSema) :
    RingInv v { t with play := pc } := by
  refine h.playTakes ?_ hbehind hplays hloop hexit hlocal hwait
  obtain ⟨i, o, a, b, hin, hout, hne, ha, hb, hcount⟩ := h.counts
  refine ⟨i, o, a, b, hin, hout, hne, ha, hb, fun hterm => ?_⟩
  obtain ⟨hfree, hfull⟩ := hcount hterm
  dsimp only
  constructor
  · omega
  · omega

/-- `bgmIoThread` goes on to a statement, and the counts change. -/
theorem RingInv.ioTakes (h : RingInv v t) {pc : IoPc} {semas : ℕ → Option ℕ}
    (hcounts : Counts { v with semas := semas } { t with io := pc })
    (hfilled : pc.filled = t.io.filled ∨ pc.filled = 0)
    (hfills : pc.fills = true → t.chunks.length < t.played.length + ringCount)
    (hclosing : pc = .lastSignal → v.terminateFlag = true)
    (hcomplete : ∀ n, pc = .checkFailed n → v.terminateFlag = false → n = chunkSize)
    (hlocal : t.play.inLoop = true → ∀ wr, pc = .writeWr wr → wr = v.wrPtr)
    (hwait : ∀ sema, pc = .waiting sema → sema = v.inSema) :
    RingInv { v with semas := semas } { t with io := pc } where
  counts := hcounts
  le := h.le
  plays := h.plays
  fills := hfills
  exited := h.exited
  closing := hclosing
  complete := hcomplete
  decoded := by
    have := h.decoded
    dsimp only
    omega
  window := h.window
  slot hpc j hj := by
    dsimp only at hj ⊢
    obtain hsame | hzero := hfilled
    · rw [hsame] at hj ⊢
      exact h.slot hpc j hj
    · omega
  rd := h.rd
  rdLocal := h.rdLocal
  wr := h.wr
  wrLocal := hlocal
  playWaits := h.playWaits
  ioWaits := hwait

/-- `bgmIoThread` goes on to a statement. -/
theorem RingInv.ioGoes (h : RingInv v t) {pc : IoPc} (htakes : pc.takes ≤ t.io.takes)
    (howes : pc.owes ≤ t.io.owes) (hfilled : pc.filled = t.io.filled ∨ pc.filled = 0)
    (hfills : pc.fills = true → t.chunks.length < t.played.length + ringCount)
    (hclosing : pc = .lastSignal → v.terminateFlag = true)
    (hcomplete : ∀ n, pc = .checkFailed n → v.terminateFlag = false → n = chunkSize)
    (hlocal : t.play.inLoop = true → ∀ wr, pc = .writeWr wr → wr = v.wrPtr)
    (hwait : ∀ sema, pc = .waiting sema → sema = v.inSema) :
    RingInv v { t with io := pc } := by
  refine h.ioTakes ?_ hfilled hfills hclosing hcomplete hlocal hwait
  obtain ⟨i, o, a, b, hin, hout, hne, ha, hb, hcount⟩ := h.counts
  refine ⟨i, o, a, b, hin, hout, hne, ha, hb, fun hterm => ?_⟩
  obtain ⟨hfree, hfull⟩ := hcount hterm
  dsimp only
  constructor
  · omega
  · omega

/-- `terminateFlag` is set. -/
theorem RingInv.terminates (h : RingInv v t) : RingInv { v with terminateFlag := true } t where
  counts := by
    obtain ⟨i, o, a, b, hin, hout, hne, ha, hb, -⟩ := h.counts
    exact ⟨i, o, a, b, hin, hout, hne, ha, hb, nofun⟩
  le := h.le
  plays := h.plays
  fills := h.fills
  exited _ := rfl
  closing _ := rfl
  complete _ _ := nofun
  decoded := h.decoded
  window := h.window
  slot := h.slot
  rd := h.rd
  rdLocal := h.rdLocal
  wr := h.wr
  wrLocal := h.wrLocal
  playWaits := h.playWaits
  ioWaits := h.ioWaits

/-- A signal when the flag is set. -/
theorem RingInv.signals (h : RingInv v t) (hterm : v.terminateFlag = true) {id : Option ℕ} :
    RingInv (v.signalSema id) t := by
  obtain ⟨i, o, a, b, hin, hout, hne, ha, hb, -⟩ := h.counts
  have hno : ¬v.terminateFlag = false := by
    rw [hterm]
    decide
  cases id with
  | none => exact h
  | some id =>
    cases hid : v.semas id with
    | none =>
      rw [Memory.signalSema, hid]
      exact h
    | some n =>
      rw [Memory.signalSema, hid]
      obtain ⟨a', ha'⟩ : ∃ a', Function.update v.semas id
          (some (if n < ringCount then n + 1 else n)) i = some a' := by
        by_cases hi : i = id
        · subst hi
          exact ⟨_, Function.update_self _ _ _⟩
        · exact ⟨a, (Function.update_of_ne hi _ _).trans ha⟩
      obtain ⟨b', hb'⟩ : ∃ b', Function.update v.semas id
          (some (if n < ringCount then n + 1 else n)) o = some b' := by
        by_cases ho : o = id
        · subst ho
          exact ⟨_, Function.update_self _ _ _⟩
        · exact ⟨b, (Function.update_of_ne ho _ _).trans hb⟩
      exact h.playTakes ⟨i, o, a', b', hin, hout, hne, ha', hb', fun hfalse => absurd hfalse hno⟩
        rfl h.plays (fun hpc => hpc) h.exited h.rdLocal h.playWaits

/-! ### `bgmThread` -/

/-- It gets a chunk from `outSema`. -/
theorem RingInv.playWakes (h : RingInv v t) {sema : Option ℕ} {m : Memory}
    (hpc : t.play = .waiting sema) (hm : v.waitSema sema = some m) :
    RingInv m { t with play := .check } := by
  obtain ⟨i, o, a, b, hin, hout, hne, ha, hb, hcount⟩ := h.counts
  rw [h.playWaits sema hpc, hout, Memory.waitSema, hb] at hm
  rw [hpc] at hcount
  cases b with
  | zero => cases hm
  | succ b =>
    cases hm
    refine h.playTakes ⟨i, o, a, b, hin, hout, hne, ?_, ?_, fun hterm => ?_⟩ ?_ nofun ?_ nofun
      nofun nofun
    · exact (Function.update_of_ne hne _ _).trans ha
    · exact Function.update_self _ _ _
    · obtain ⟨hfree, hfull⟩ := hcount hterm
      dsimp only [PlayPc.takes, PlayPc.frees] at hfree hfull ⊢
      constructor
      · omega
      · omega
    · rw [hpc]
      rfl
    · rw [hpc]
      exact fun _ => rfl

/-- It gives a slot back. -/
theorem RingInv.playSignals (h : RingInv v t) (hpc : t.play = .signal) :
    RingInv (v.signalSema v.inSema) { t with play := .loop } := by
  obtain ⟨i, o, a, b, hin, hout, hne, ha, hb, hcount⟩ := h.counts
  rw [hin, Memory.signalSema, ha]
  rw [hpc] at hcount
  refine h.playTakes ⟨i, o, _, b, hin, hout, hne, Function.update_self _ _ _, ?_, fun hterm => ?_⟩
    ?_ nofun ?_ nofun nofun nofun
  · exact (Function.update_of_ne hne.symm _ _).trans hb
  · obtain ⟨hfree, hfull⟩ := hcount hterm
    dsimp only [PlayPc.takes, PlayPc.frees] at hfree hfull ⊢
    constructor
    · split_ifs
      · omega
      · omega
    · exact hfull
  · rw [hpc]
    rfl
  · rw [hpc]
    exact fun _ => rfl

/-- **What is played** is the next chunk. -/
theorem RingInv.bgmBuffer_rdPtr (h : RingInv v t) (hlt : v.rdPtr < ringCount)
    (hpc : t.play = .play) : v.bgmBuffer v.rdPtr = t.chunk t.played.length := by
  have hplays := h.plays
  have hwindow := h.window
  have hrd := h.rd
  rw [hpc] at hplays hwindow hrd
  have hnext := hplays rfl
  have hslot := hwindow rfl 0 (by omega)
  have hmod : v.rdPtr % ringCount = t.played.length % ringCount := hrd rfl
  rw [Nat.mod_eq_of_lt hlt] at hmod
  rw [hmod]
  exact hslot

/-- It plays a chunk. -/
theorem RingInv.plays_next (h : RingInv v t) (hpc : t.play = .play) (c : Chunk) :
    RingInv v { t with play := .readRd, played := t.played ++ [c] } := by
  have hnext : t.played.length < t.chunks.length := h.plays (by rw [hpc]; rfl)
  have hloop : t.play.inLoop = true := by rw [hpc]; rfl
  have hlen : (t.played ++ [c]).length = t.played.length + 1 := List.length_append
  refine ⟨?_, ?_, nofun, fun hfills => ?_, nofun, h.closing, h.complete, h.decoded, fun _ => ?_,
    fun _ => h.slot hloop, fun _ => ?_, nofun, fun _ => h.wr hloop, fun _ => h.wrLocal hloop, nofun,
    h.ioWaits⟩
  · obtain ⟨i, o, a, b, hin, hout, hne, ha, hb, hcount⟩ := h.counts
    rw [hpc] at hcount
    refine ⟨i, o, a, b, hin, hout, hne, ha, hb, fun hterm => ?_⟩
    obtain ⟨hfree, hfull⟩ := hcount hterm
    dsimp only [PlayPc.takes, PlayPc.frees] at hfree hfull ⊢
    constructor
    · omega
    · omega
  · dsimp only
    omega
  · have := h.fills hfills
    dsimp only
    omega
  · have hdrop := Ring.holds_mod.mp ((h.window hloop).drop 1)
    dsimp only
    rw [hlen, Nat.sub_add_eq]
    intro i hi
    rw [hdrop i hi]
    show t.chunk (t.played.length + (1 + i)) = t.chunk (t.played.length + 1 + i)
    rw [Nat.add_assoc]
  · have hmod := h.rd hloop
    rw [hpc] at hmod
    dsimp only [PlayPc.behind] at hmod ⊢
    rw [hlen]
    exact Nat.ModEq.add_right 1 hmod

/-- It moves `rdPtr` on. -/
theorem RingInv.playAdvances (h : RingInv v t) {rd : ℕ} (hpc : t.play = .writeRd rd) :
    RingInv { v with rdPtr := (rd + 1) % ringCount } { t with play := .signal } := by
  have hloop : t.play.inLoop = true := by rw [hpc]; rfl
  refine ⟨?_, h.le, nofun, h.fills, nofun, h.closing, h.complete, h.decoded,
    fun _ => h.window hloop, fun _ => h.slot hloop, fun _ => ?_, nofun, fun _ => h.wr hloop,
    fun _ => h.wrLocal hloop, nofun, h.ioWaits⟩
  · obtain ⟨i, o, a, b, hin, hout, hne, ha, hb, hcount⟩ := h.counts
    rw [hpc] at hcount
    exact ⟨i, o, a, b, hin, hout, hne, ha, hb, hcount⟩
  · have hmod := h.rd hloop
    rw [hpc] at hmod
    rw [h.rdLocal rd hpc]
    exact (Nat.mod_mod _ _).trans hmod

/-- It is out of the loop and resets the pointers. -/
theorem RingInv.playResets (h : RingInv v t) (rd wr : ℕ) {pc : PlayPc}
    (hloop : t.play.inLoop = false) (hpc : pc.inLoop = false) :
    RingInv { v with rdPtr := rd, wrPtr := wr } { t with play := pc } := by
  have hterm := h.exited hloop
  have hno : ¬v.terminateFlag = false := by
    rw [hterm]
    decide
  have hnot : ¬pc.inLoop = true := by
    rw [hpc]
    decide
  obtain ⟨i, o, a, b, hin, hout, hne, ha, hb, -⟩ := h.counts
  refine ⟨⟨i, o, a, b, hin, hout, hne, ha, hb, fun hfalse => absurd hfalse hno⟩, h.le,
    fun hplays => ?_, h.fills, fun _ => hterm, h.closing, h.complete, h.decoded,
    fun hin => absurd hin hnot, fun hin => absurd hin hnot, fun hin => absurd hin hnot,
    fun rd hrd => ?_, fun hin => absurd hin hnot, fun hin => absurd hin hnot,
    fun sema hsema => ?_, h.ioWaits⟩
  · cases pc <;> cases hplays <;> cases hpc
  · dsimp only at hrd
    rw [hrd] at hpc
    cases hpc
  · dsimp only at hsema
    rw [hsema] at hpc
    cases hpc

/-- **A statement of `bgmThread`.** -/
theorem RingInv.playStep {v v' : Shared} {t' : Part} (h : RingInv v.toMemory t)
    (hstep : playStep v t = some (v', t')) : RingInv v'.toMemory t' := by
  obtain ⟨pc, io, chunks, played⟩ := t
  cases pc with
  | dormant => cases hstep
  | begin =>
    cases hstep
    exact h.playGoes (Nat.le_refl 0) (Nat.le_refl 0) rfl nofun (fun _ => rfl) nofun nofun nofun
  | loop =>
    cases hstep
    cases hterm : v.terminateFlag with
    | false =>
      exact h.playGoes (Nat.le_refl 0) (Nat.le_refl 0) rfl nofun (fun _ => rfl) nofun nofun nofun
    | true =>
      exact h.playGoes (Nat.le_refl 0) (Nat.le_refl 0) rfl nofun nofun (fun _ => hterm) nofun nofun
  | wait =>
    cases hstep
    exact h.playGoes (Nat.le_refl 0) (Nat.le_refl 0) rfl nofun (fun _ => rfl) nofun nofun
      fun sema hsema => (PlayPc.waiting.inj hsema).symm
  | waiting sema =>
    obtain ⟨m, hm, heq⟩ := Option.map_eq_some_iff.mp hstep
    cases heq
    exact h.playWakes rfl hm
  | check =>
    cases hstep
    cases hterm : v.terminateFlag with
    | false =>
      refine h.playGoes (Nat.le_refl 1) (Nat.le_refl 0) rfl (fun _ => ?_) (fun _ => rfl) nofun nofun
        nofun
      obtain ⟨i, o, a, b, -, -, -, -, -, hcount⟩ := h.counts
      obtain ⟨-, hfull⟩ := hcount hterm
      dsimp only [PlayPc.takes] at hfull ⊢
      omega
    | true =>
      exact h.playGoes (Nat.zero_le 1) (Nat.le_refl 0) rfl nofun nofun (fun _ => hterm) nofun nofun
  | adjust =>
    cases hstep
    exact h.playGoes (Nat.le_refl 1) (Nat.le_refl 0) rfl h.plays (fun _ => rfl) nofun nofun nofun
  | play =>
    cases hstep
    exact h.plays_next rfl _
  | readRd =>
    cases hstep
    exact h.playGoes (Nat.le_refl 0) (Nat.le_refl 1) rfl nofun (fun _ => rfl) nofun
      (fun rd hrd => (PlayPc.writeRd.inj hrd).symm) nofun
  | writeRd rd =>
    cases hstep
    exact h.playAdvances rfl
  | signal =>
    cases hstep
    exact h.playSignals rfl
  | stopAudio =>
    cases hstep
    exact h.playResets 0 v.wrPtr rfl rfl
  | resetWr =>
    cases hstep
    exact h.playResets v.rdPtr 0 rfl rfl
  | clearRunning =>
    cases hstep
    exact h.playGoes (Nat.le_refl 0) (Nat.le_refl 0) rfl nofun nofun (fun _ => h.exited rfl) nofun
      nofun
  | clearPlaying =>
    cases hstep
    exact h.playGoes (Nat.le_refl 0) (Nat.le_refl 0) rfl nofun nofun (fun _ => h.exited rfl) nofun
      nofun
  | ended => cases hstep

/-! ### `bgmIoThread` -/

/-- It gets a slot from `inSema`. -/
theorem RingInv.ioWakes (h : RingInv v t) {sema : Option ℕ} {m : Memory}
    (hpc : t.io = .waiting sema) (hm : v.waitSema sema = some m) :
    RingInv m { t with io := .check } := by
  obtain ⟨i, o, a, b, hin, hout, hne, ha, hb, hcount⟩ := h.counts
  rw [h.ioWaits sema hpc, hin, Memory.waitSema, ha] at hm
  rw [hpc] at hcount
  cases a with
  | zero => cases hm
  | succ a =>
    cases hm
    refine h.ioTakes ⟨i, o, a, b, hin, hout, hne, ?_, ?_, fun hterm => ?_⟩ (.inr rfl) nofun nofun
      nofun nofun nofun
    · exact Function.update_self _ _ _
    · exact (Function.update_of_ne hne.symm _ _).trans hb
    · obtain ⟨hfree, hfull⟩ := hcount hterm
      dsimp only [IoPc.takes, IoPc.owes] at hfree hfull ⊢
      constructor
      · omega
      · omega

/-- It signals a chunk. -/
theorem RingInv.ioSignals (h : RingInv v t) (hpc : t.io = .signal) :
    RingInv (v.signalSema v.outSema) { t with io := .loop } := by
  obtain ⟨i, o, a, b, hin, hout, hne, ha, hb, hcount⟩ := h.counts
  rw [hout, Memory.signalSema, hb]
  rw [hpc] at hcount
  refine h.ioTakes ⟨i, o, a, _, hin, hout, hne, ?_, Function.update_self _ _ _, fun hterm => ?_⟩
    (.inr rfl) nofun nofun nofun nofun nofun
  · exact (Function.update_of_ne hne _ _).trans ha
  · obtain ⟨hfree, hfull⟩ := hcount hterm
    dsimp only [IoPc.takes, IoPc.owes] at hfree hfull ⊢
    constructor
    · exact hfree
    · split_ifs
      · omega
      · omega

/-- It decodes bytes into its slot. -/
theorem RingInv.stores (h : RingInv v t) {bufferPtr n : ℕ} (hpc : t.io = .decode bufferPtr)
    {pc : IoPc} (hfilled : pc.filled = bufferPtr + n) (htakes : pc.takes = 1) (howes : pc.owes = 0)
    (hclosing : pc ≠ .lastSignal) (hcomplete : ∀ k, pc = .checkFailed k → k = chunkSize)
    (hlocal : ∀ wr, pc ≠ .writeWr wr) (hwait : ∀ sema, pc ≠ .waiting sema) :
    RingInv (v.store bufferPtr n) { t with io := pc } := by
  have hroom : t.chunks.length < t.played.length + ringCount := h.fills (by rw [hpc]; rfl)
  have hle := h.le
  have hbefore := h.decoded
  rw [hpc] at hbefore
  refine ⟨?_, hle, h.plays, fun _ => hroom, h.exited, fun hlast => absurd hlast hclosing,
    fun k hk _ => hcomplete k hk, ?_, fun hloop => ?_, fun hloop j hj => ?_, h.rd, h.rdLocal, h.wr,
    fun _ wr hwr => absurd hwr (hlocal wr), h.playWaits,
    fun sema hsema => absurd hsema (hwait sema)⟩
  · obtain ⟨i, o, a, b, hin, hout, hne, ha, hb, hcount⟩ := h.counts
    refine ⟨i, o, a, b, hin, hout, hne, ha, hb, fun hterm => ?_⟩
    have hcount := hcount hterm
    rw [hpc] at hcount
    dsimp only
    rw [htakes, howes]
    exact hcount
  · dsimp only [IoPc.filled] at hbefore
    dsimp only [Memory.store]
    rw [hfilled]
    omega
  · have hupdate := (h.window hloop).update (k := t.chunks.length - t.played.length) (Nat.le_refl _)
      (by omega)
    rw [Nat.add_sub_cancel' hle, ← h.wr hloop] at hupdate
    exact hupdate _
  · have hslot := h.slot hloop j
    rw [hpc] at hslot
    dsimp only at hj ⊢
    rw [hfilled] at hj ⊢
    rw [Memory.store]
    dsimp only
    rw [← h.wr hloop, Function.update_self]
    rw [← h.wr hloop] at hslot
    dsimp only [IoPc.filled] at hslot
    split_ifs with hnew
    · omega
    · have := hslot (by omega)
      omega

/-- It moves `wrPtr` on: its slot is the last chunk. -/
theorem RingInv.publishes (h : RingInv v t) {wr : ℕ} (hpc : t.io = .writeWr wr) :
    RingInv { v with wrPtr := (wr + 1) % ringCount }
      { t with io := .adjust, chunks := t.chunks ++ [v.decoded - chunkSize] } := by
  have hle := h.le
  have hdecoded := h.decoded
  rw [hpc] at hdecoded
  obtain ⟨start, hstart⟩ : ∃ start, v.decoded - chunkSize = start := ⟨_, rfl⟩
  rw [hstart]
  have hlen : (t.chunks ++ [start]).length = t.chunks.length + 1 := List.length_append
  refine ⟨?_, ?_, fun hplays => ?_, nofun, h.exited, nofun, nofun, ?_, fun hloop => ?_,
    fun _ j hj => absurd hj (Nat.not_lt_zero j), h.rd, h.rdLocal, fun hloop => ?_, nofun,
    h.playWaits, nofun⟩
  · obtain ⟨i, o, a, b, hin, hout, hne, ha, hb, hcount⟩ := h.counts
    rw [hpc] at hcount
    refine ⟨i, o, a, b, hin, hout, hne, ha, hb, fun hterm => ?_⟩
    obtain ⟨hfree, hfull⟩ := hcount hterm
    dsimp only [IoPc.takes, IoPc.owes] at hfree hfull ⊢
    constructor
    · omega
    · omega
  · dsimp only
    omega
  · dsimp only
    omega
  · exact Nat.zero_le _
  · have hslot := h.slot hloop
    rw [hpc] at hslot
    dsimp only [IoPc.filled] at hdecoded hslot
    dsimp only
    rw [hlen, Nat.sub_add_comm hle]
    refine Ring.Holds.append (fun i hi => ?_) fun j hj => ?_
    · rw [h.window hloop i hi]
      show t.chunk (t.played.length + i) = pieceAt _
      rw [List.getD_append _ _ _ _ (show t.played.length + i < t.chunks.length by omega)]
      rfl
    · have hnext : t.played.length + (t.chunks.length - t.played.length) = t.chunks.length :=
        Nat.add_sub_cancel' hle
      rw [Nat.lt_one_iff.mp hj, Nat.add_zero, Nat.add_zero, hnext]
      show _ = pieceAt ((t.chunks ++ [start]).getD t.chunks.length 0)
      rw [List.getD_append_right _ _ _ _ (Nat.le_refl _), Nat.sub_self]
      funext k
      have := hslot k k.isLt
      show v.bgmBuffer (t.chunks.length % ringCount) k = start + k
      omega
  · dsimp only
    rw [hlen, h.wrLocal hloop wr hpc, h.wr hloop, Nat.mod_add_mod]

/-- It leaves its loop, or goes on in it. -/
theorem RingInv.ioLooks (h : RingInv v t) {pc : IoPc} (htakes : pc.takes ≤ t.io.takes)
    (howes : pc.owes ≤ t.io.owes) (hfilled : pc.filled = 0) (hfills : pc.fills = false)
    (hclosing : pc ≠ .lastSignal) (hcomplete : ∀ n, pc ≠ .checkFailed n)
    (hlocal : ∀ wr, pc ≠ .writeWr wr) (hwait : ∀ sema, pc ≠ .waiting sema) :
    RingInv v { t with io := pc } := by
  refine h.ioGoes htakes howes (.inr hfilled) (fun hpc => ?_) (fun hpc => absurd hpc hclosing)
    (fun n hpc => absurd hpc (hcomplete n)) (fun _ wr hpc => absurd hpc (hlocal wr))
    fun sema hpc => absurd hpc (hwait sema)
  rw [hfills] at hpc
  cases hpc

/-- `ov_read` and what follows in its loop. -/
theorem RingInv.decodeStep {r : Decode} {v v' : Shared} {t' : Part} {bufferPtr : ℕ}
    (h : RingInv v.toMemory t) (hpc : t.io = .decode bufferPtr)
    (hstep : decodeStep r v t bufferPtr = some (v', t')) : RingInv v'.toMemory t' := by
  have hfails : RingInv { v.toMemory with terminateFlag := true }
      { t with io := .checkFailed bufferPtr } := by
    refine h.terminates.ioGoes ?_ ?_ (.inl ?_) (fun _ => h.fills ?_) (fun _ => rfl)
      (fun _ _ => nofun) nofun nofun
    all_goals rw [hpc]
    · exact Nat.le_refl 1
    · exact Nat.le_refl 0
    · rfl
    · rfl
  cases r with
  | bytes n =>
    rw [Bgm.decodeStep] at hstep
    split_ifs at hstep with hn hfull
    · cases hstep
      refine h.stores hpc rfl rfl rfl nofun (fun k hk => ?_) nofun nofun
      rw [← IoPc.checkFailed.inj hk]
      exact hfull
    · cases hstep
      exact h.stores hpc rfl rfl rfl nofun nofun nofun nofun
  | hole =>
    cases hstep
    exact h
  | error =>
    cases hstep
    exact hfails
  | endOfStream rewound =>
    cases rewound with
    | true =>
      cases hstep
      exact h
    | false =>
      cases hstep
      exact hfails

/-- **A statement of `bgmIoThread`.** -/
theorem RingInv.ioStep {r : Decode} {v v' : Shared} {t' : Part} (h : RingInv v.toMemory t)
    (hstep : ioStep r v t = some (v', t')) : RingInv v'.toMemory t' := by
  obtain ⟨playPc, pc, chunks, played⟩ := t
  cases pc with
  | dormant => cases hstep
  | begin =>
    cases hstep
    exact h.ioLooks (Nat.le_refl 0) (Nat.le_refl 0) rfl rfl nofun nofun nofun nofun
  | wait =>
    cases hstep
    exact h.ioGoes (Nat.le_refl 0) (Nat.le_refl 0) (.inr rfl) nofun nofun nofun nofun
      fun sema hsema => (IoPc.waiting.inj hsema).symm
  | waiting sema =>
    obtain ⟨m, hm, heq⟩ := Option.map_eq_some_iff.mp hstep
    cases heq
    exact h.ioWakes rfl hm
  | check =>
    cases hstep
    cases hterm : v.terminateFlag with
    | false =>
      refine h.ioGoes (Nat.le_refl 1) (Nat.le_refl 0) (.inr rfl) (fun _ => ?_) nofun nofun nofun
        nofun
      obtain ⟨i, o, a, b, -, -, -, -, -, hcount⟩ := h.counts
      obtain ⟨hfree, -⟩ := hcount hterm
      dsimp only [IoPc.takes] at hfree ⊢
      omega
    | true => exact h.ioLooks (Nat.zero_le 1) (Nat.le_refl 0) rfl rfl nofun nofun nofun nofun
  | checkEnable =>
    cases hstep
    cases henable : v.gEnableBGM with
    | false => exact h.ioLooks (Nat.zero_le 1) (Nat.le_refl 0) rfl rfl nofun nofun nofun nofun
    | true =>
      exact h.ioGoes (Nat.le_refl 1) (Nat.le_refl 0) (.inr rfl) h.fills nofun nofun nofun nofun
  | decode bufferPtr => exact h.decodeStep rfl hstep
  | checkFailed n =>
    cases hstep
    cases hterm : v.terminateFlag with
    | false =>
      exact h.ioGoes (Nat.le_refl 1) (Nat.le_refl 0) (.inl (h.complete n rfl hterm).symm) h.fills
        nofun nofun nofun nofun
    | true => exact h.ioLooks (Nat.zero_le 1) (Nat.le_refl 0) rfl rfl nofun nofun nofun nofun
  | readWr =>
    cases hstep
    exact h.ioGoes (Nat.le_refl 1) (Nat.le_refl 0) (.inl rfl) h.fills nofun nofun
      (fun _ wr hwr => (IoPc.writeWr.inj hwr).symm) nofun
  | writeWr wr =>
    cases hstep
    exact h.publishes rfl
  | adjust =>
    cases hstep
    exact h.ioLooks (Nat.le_refl 0) (Nat.le_refl 1) rfl rfl nofun nofun nofun nofun
  | signal =>
    cases hstep
    exact h.ioSignals rfl
  | loop =>
    cases hstep
    cases hterm : v.terminateFlag with
    | false => exact h.ioLooks (Nat.le_refl 0) (Nat.le_refl 0) rfl rfl nofun nofun nofun nofun
    | true => exact h.ioLooks (Nat.le_refl 0) (Nat.le_refl 0) rfl rfl nofun nofun nofun nofun
  | loopEnable =>
    cases hstep
    cases henable : v.gEnableBGM with
    | false => exact h.ioLooks (Nat.le_refl 0) (Nat.le_refl 0) rfl rfl nofun nofun nofun nofun
    | true => exact h.ioLooks (Nat.le_refl 0) (Nat.le_refl 0) rfl rfl nofun nofun nofun nofun
  | clearRunning =>
    cases hstep
    exact h.ioLooks (Nat.le_refl 0) (Nat.le_refl 0) rfl rfl nofun nofun nofun nofun
  | setTerminate =>
    cases hstep
    exact h.terminates.ioGoes (Nat.le_refl 0) (Nat.le_refl 0) (.inr rfl) nofun (fun _ => rfl) nofun
      nofun nofun
  | lastSignal =>
    cases hstep
    exact (h.signals (h.closing rfl)).ioLooks (Nat.le_refl 0) (Nat.le_refl 0) rfl rfl nofun nofun
      nofun nofun
  | ended => cases hstep

end Steps

end Bgm

end OpenPS2Loader
