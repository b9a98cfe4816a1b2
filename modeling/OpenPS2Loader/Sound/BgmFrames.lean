import OpenPS2Loader.Sound.BgmRing

/-!
# What the threads of the background music leave alone

A statement of a thread changes little. `bgmThread` does not touch the chunks that were decoded nor
`terminateFlag`, `bgmIoThread` does not touch what was played, and each writes its own flag only.
The pointers stay in the ring whatever the thread read before, and a thread that is dormant or has
ended does nothing.

## Main definitions

* `Bgm.PlayFrame`, `Bgm.IoFrame`

## Main results

* `Bgm.playFrame`, `Bgm.ioFrame` — every statement has them
-/

namespace OpenPS2Loader

namespace Bgm

/-! ### Semaphores -/

theorem Memory.waitSema_eq {v m : Memory} {id : Option ℕ} (h : v.waitSema id = some m) :
    ∃ semas, m = { v with semas := semas } := by
  cases id with
  | none =>
    cases h
    exact ⟨v.semas, rfl⟩
  | some id =>
    rw [Memory.waitSema] at h
    cases hid : v.semas id with
    | none =>
      rw [hid] at h
      cases h
      exact ⟨v.semas, rfl⟩
    | some n =>
      rw [hid] at h
      cases n with
      | zero => cases h
      | succ n =>
        cases h
        exact ⟨_, rfl⟩

theorem Memory.signalSema_eq (v : Memory) (id : Option ℕ) :
    ∃ semas, v.signalSema id = { v with semas := semas } := by
  cases id with
  | none => exact ⟨v.semas, rfl⟩
  | some id =>
    rw [Memory.signalSema]
    cases v.semas id with
    | none => exact ⟨v.semas, rfl⟩
    | some n => exact ⟨_, rfl⟩

theorem Memory.deleteSema_eq (v : Memory) (id : Option ℕ) :
    ∃ semas, v.deleteSema id = { v with semas := semas } := by
  cases id with
  | none => exact ⟨v.semas, rfl⟩
  | some id => exact ⟨_, rfl⟩

/-! ### `bgmThread` -/

variable {v v' : Shared} {t t' : Part}

/-- What a statement of `bgmThread` leaves alone, and what it does to its flag, the pointers and the
chunks that were played. -/
structure PlayFrame (v v' : Shared) (t t' : Part) : Prop where
  started : t.play ≠ .dormant ∧ t.play ≠ .ended
  io : t'.io = t.io
  chunks : t'.chunks = t.chunks
  terminateFlag : v'.terminateFlag = v.terminateFlag
  decoded : v'.decoded = v.decoded
  ioFlag : v'.bgmIoThreadRunning = v.bgmIoThreadRunning
  playFlag : v.bgmThreadRunning = t.play.running → v'.bgmThreadRunning = t'.play.running
  rdPtr : v.rdPtr < ringCount → v'.rdPtr < ringCount
  wrPtr : v.wrPtr < ringCount → v'.wrPtr < ringCount
  played : t'.played = t.played ∨ t.play = .play ∧ t'.played = t.played ++ [v.bgmBuffer v.rdPtr]

theorem playFrame (h : playStep v t = some (v', t')) : PlayFrame v v' t t' := by
  have hpos : 0 < ringCount := by decide
  obtain ⟨pc, io, chunks, played⟩ := t
  cases pc with
  | dormant => cases h
  | begin =>
    cases h
    exact ⟨⟨nofun, nofun⟩, rfl, rfl, rfl, rfl, rfl, fun _ => rfl, id, id, .inl rfl⟩
  | loop =>
    cases h
    refine ⟨⟨nofun, nofun⟩, rfl, rfl, rfl, rfl, rfl, fun hflag => hflag.trans ?_, id, id, .inl rfl⟩
    cases v.terminateFlag <;> rfl
  | wait =>
    cases h
    exact ⟨⟨nofun, nofun⟩, rfl, rfl, rfl, rfl, rfl, fun hflag => hflag, id, id, .inl rfl⟩
  | waiting sema =>
    obtain ⟨m, hm, heq⟩ := Option.map_eq_some_iff.mp h
    obtain ⟨semas, rfl⟩ := Memory.waitSema_eq hm
    cases heq
    exact ⟨⟨nofun, nofun⟩, rfl, rfl, rfl, rfl, rfl, fun hflag => hflag, id, id, .inl rfl⟩
  | check =>
    cases h
    refine ⟨⟨nofun, nofun⟩, rfl, rfl, rfl, rfl, rfl, fun hflag => hflag.trans ?_, id, id, .inl rfl⟩
    cases v.terminateFlag <;> rfl
  | adjust =>
    cases h
    exact ⟨⟨nofun, nofun⟩, rfl, rfl, rfl, rfl, rfl, fun hflag => hflag, id, id, .inl rfl⟩
  | play =>
    cases h
    exact ⟨⟨nofun, nofun⟩, rfl, rfl, rfl, rfl, rfl, fun hflag => hflag, id, id, .inr ⟨rfl, rfl⟩⟩
  | readRd =>
    cases h
    exact ⟨⟨nofun, nofun⟩, rfl, rfl, rfl, rfl, rfl, fun hflag => hflag, id, id, .inl rfl⟩
  | writeRd rd =>
    cases h
    exact ⟨⟨nofun, nofun⟩, rfl, rfl, rfl, rfl, rfl, fun hflag => hflag,
      fun _ => Nat.mod_lt _ hpos, id, .inl rfl⟩
  | signal =>
    cases h
    obtain ⟨semas, hsemas⟩ := v.toMemory.signalSema_eq v.inSema
    rw [hsemas]
    exact ⟨⟨nofun, nofun⟩, rfl, rfl, rfl, rfl, rfl, fun hflag => hflag, id, id, .inl rfl⟩
  | stopAudio =>
    cases h
    exact ⟨⟨nofun, nofun⟩, rfl, rfl, rfl, rfl, rfl, fun hflag => hflag, fun _ => hpos, id, .inl rfl⟩
  | resetWr =>
    cases h
    exact ⟨⟨nofun, nofun⟩, rfl, rfl, rfl, rfl, rfl, fun hflag => hflag, id, fun _ => hpos, .inl rfl⟩
  | clearRunning =>
    cases h
    exact ⟨⟨nofun, nofun⟩, rfl, rfl, rfl, rfl, rfl, fun _ => rfl, id, id, .inl rfl⟩
  | clearPlaying =>
    cases h
    exact ⟨⟨nofun, nofun⟩, rfl, rfl, rfl, rfl, rfl, fun hflag => hflag, id, id, .inl rfl⟩
  | ended => cases h

/-! ### `bgmIoThread` -/

/-- What a statement of `bgmIoThread` leaves alone, and what it does to the flags, the pointers and
the chunks that were decoded. -/
structure IoFrame (v v' : Shared) (t t' : Part) : Prop where
  started : t.io ≠ .dormant ∧ t.io ≠ .ended
  play : t'.play = t.play
  played : t'.played = t.played
  terminateFlag : v.terminateFlag = true → v'.terminateFlag = true
  playFlag : v'.bgmThreadRunning = v.bgmThreadRunning
  ioFlag : v.bgmIoThreadRunning = t.io.running → v'.bgmIoThreadRunning = t'.io.running
  rdPtr : v'.rdPtr = v.rdPtr
  wrPtr : v.wrPtr < ringCount → v'.wrPtr < ringCount
  chunks : t'.chunks = t.chunks ∧ v'.decoded + t.io.filled ≥ v.decoded + t'.io.filled ∨
    (∃ wr, t.io = .writeWr wr) ∧ t'.io.filled = 0 ∧ v'.decoded = v.decoded ∧
      t'.chunks = t.chunks ++ [v.decoded - chunkSize]

/-- A statement that only goes on, or looks at something. -/
theorem IoFrame.goes {pc : IoPc} (hstarted : t.io ≠ .dormant ∧ t.io ≠ .ended)
    (hrunning : pc.running = t.io.running) (hfilled : pc.filled ≤ t.io.filled) :
    IoFrame v v t { t with io := pc } where
  started := hstarted
  play := rfl
  played := rfl
  terminateFlag h := h
  playFlag := rfl
  ioFlag h := h.trans hrunning.symm
  rdPtr := rfl
  wrPtr h := h
  chunks := .inl ⟨rfl, Nat.add_le_add_left hfilled _⟩

theorem decodeFrame {r : Decode} {bufferPtr : ℕ} (hpc : t.io = .decode bufferPtr)
    (h : decodeStep r v t bufferPtr = some (v', t')) : IoFrame v v' t t' := by
  have hstarted : t.io ≠ .dormant ∧ t.io ≠ .ended := by
    rw [hpc]
    exact ⟨nofun, nofun⟩
  have hrunning : t.io.running = true := by
    rw [hpc]
    rfl
  have hfilled : t.io.filled = bufferPtr := by
    rw [hpc]
    rfl
  have hsame : IoFrame v v t t := IoFrame.goes hstarted rfl (Nat.le_refl _)
  have hfails : IoFrame v { v with terminateFlag := true } t
      { t with io := .checkFailed bufferPtr } :=
    ⟨hstarted, rfl, rfl, fun _ => rfl, rfl, fun hflag => hflag.trans hrunning, rfl, id,
      .inl ⟨rfl, Nat.add_le_add_left hfilled.ge _⟩⟩
  cases r with
  | bytes n =>
    rw [decodeStep] at h
    split_ifs at h with hn hfull
    · cases h
      refine ⟨hstarted, rfl, rfl, id, rfl, fun hflag => hflag.trans hrunning, rfl, id,
        .inl ⟨rfl, ?_⟩⟩
      rw [hfilled]
      dsimp only [IoPc.filled, Memory.store]
      omega
    · cases h
      refine ⟨hstarted, rfl, rfl, id, rfl, fun hflag => hflag.trans hrunning, rfl, id,
        .inl ⟨rfl, ?_⟩⟩
      rw [hfilled]
      dsimp only [IoPc.filled, Memory.store]
      omega
  | hole =>
    cases h
    exact hsame
  | error =>
    cases h
    exact hfails
  | endOfStream rewound =>
    cases rewound with
    | true =>
      cases h
      exact hsame
    | false =>
      cases h
      exact hfails

theorem ioFrame {r : Decode} (hring : RingInv v.toMemory t) (h : ioStep r v t = some (v', t')) :
    IoFrame v v' t t' := by
  have hpos : 0 < ringCount := by decide
  have hstarted : t.io ≠ .dormant ∧ t.io ≠ .ended := by
    constructor <;> intro hpc <;> rw [ioStep, hpc] at h <;> cases h
  obtain ⟨playPc, pc, chunks, played⟩ := t
  cases pc with
  | dormant => cases h
  | begin =>
    cases h
    exact ⟨hstarted, rfl, rfl, id, rfl, fun _ => rfl, rfl, id, .inl ⟨rfl, Nat.le_refl _⟩⟩
  | wait =>
    cases h
    exact .goes hstarted rfl (Nat.le_refl 0)
  | waiting sema =>
    obtain ⟨m, hm, heq⟩ := Option.map_eq_some_iff.mp h
    obtain ⟨semas, rfl⟩ := Memory.waitSema_eq hm
    cases heq
    exact ⟨hstarted, rfl, rfl, id, rfl, id, rfl, id, .inl ⟨rfl, Nat.le_refl _⟩⟩
  | check =>
    cases h
    cases v.terminateFlag with
    | false => exact .goes hstarted rfl (Nat.le_refl 0)
    | true => exact .goes hstarted rfl (Nat.le_refl 0)
  | checkEnable =>
    cases h
    cases v.gEnableBGM with
    | false => exact .goes hstarted rfl (Nat.le_refl 0)
    | true => exact .goes hstarted rfl (Nat.le_refl 0)
  | decode bufferPtr => exact decodeFrame rfl h
  | checkFailed n =>
    cases h
    cases hterm : v.terminateFlag with
    | false => exact .goes hstarted rfl (hring.complete n rfl hterm).ge
    | true => exact .goes hstarted rfl (Nat.zero_le n)
  | readWr =>
    cases h
    exact .goes hstarted rfl (Nat.le_refl _)
  | writeWr wr =>
    cases h
    exact ⟨hstarted, rfl, rfl, id, rfl, id, rfl, fun _ => Nat.mod_lt _ hpos,
      .inr ⟨⟨wr, rfl⟩, rfl, rfl, rfl⟩⟩
  | adjust =>
    cases h
    exact ⟨hstarted, rfl, rfl, id, rfl, id, rfl, id, .inl ⟨rfl, Nat.le_refl _⟩⟩
  | signal =>
    cases h
    obtain ⟨semas, hsemas⟩ := v.toMemory.signalSema_eq v.outSema
    rw [hsemas]
    exact ⟨hstarted, rfl, rfl, id, rfl, id, rfl, id, .inl ⟨rfl, Nat.le_refl _⟩⟩
  | loop =>
    cases h
    cases v.terminateFlag with
    | false => exact .goes hstarted rfl (Nat.le_refl 0)
    | true => exact .goes hstarted rfl (Nat.le_refl 0)
  | loopEnable =>
    cases h
    cases v.gEnableBGM with
    | false => exact .goes hstarted rfl (Nat.le_refl 0)
    | true => exact .goes hstarted rfl (Nat.le_refl 0)
  | clearRunning =>
    cases h
    exact ⟨hstarted, rfl, rfl, id, rfl, fun _ => rfl, rfl, id, .inl ⟨rfl, Nat.le_refl _⟩⟩
  | setTerminate =>
    cases h
    exact ⟨hstarted, rfl, rfl, fun _ => rfl, rfl, id, rfl, id, .inl ⟨rfl, Nat.le_refl _⟩⟩
  | lastSignal =>
    cases h
    obtain ⟨semas, hsemas⟩ := v.toMemory.signalSema_eq v.outSema
    rw [hsemas]
    exact ⟨hstarted, rfl, rfl, id, rfl, id, rfl, id, .inl ⟨rfl, Nat.le_refl _⟩⟩
  | ended => cases h

end Bgm

end OpenPS2Loader
