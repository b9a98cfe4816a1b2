import OpenPS2Loader.Sound.BgmFrames

/-!
# Runs of the background music

A run is any interleaving of the calls of the main thread, its statements and those of the threads
of every session. `bgmStart` and `bgmStop` go by `bgmThreadRunning` and `bgmIoThreadRunning`, which
do not say whether a thread has ended: a thread that was started and has not executed its first
statement has not set its flag yet, and a thread clears the flag before its last statements. Nor
does `bgmStart` look at the flags, so that it replaces the semaphores of threads which `bgmStop` has
given up.

In a run where `bgmStart` comes only when both flags are clear, and no thread is at one of these
places when a clear flag decides, the sessions follow each other: the threads of a session have
ended when something of it is deleted or replaced, what is played in it is what was decoded, in
order, and the pointers stay in the ring.

## Main definitions

* `Bgm.Kept` — what is to hold in every state
* `Bgm.EventOk` — the flags tell the truth when they decide
* `Bgm.PhaseOk`, `Bgm.Inv` — the invariant

## Main results

* `Bgm.Inv.step` — a step keeps it
* `Bgm.run_kept`
-/

namespace OpenPS2Loader

namespace Bgm

/-! ### What is to hold -/

/-- The chunks of a session are different bytes, in order. -/
def Part.Ordered (t : Part) : Prop := t.chunks.Pairwise fun c c' => c + chunkSize ≤ c'

/-- The pointers are in the ring, nothing was deleted or replaced while a thread could execute a
statement, and what was played in a session are the chunks that were decoded in it. -/
structure Kept (s : Bgm) : Prop where
  rdPtr : s.shared.rdPtr < ringCount
  wrPtr : s.shared.wrPtr < ringCount
  harmed : s.harmed = false
  played : ∀ m, (s.parts m).played <+: (s.parts m).chunks.map pieceAt
  ordered : ∀ m, (s.parts m).Ordered

/-- `bgmThread` has not begun, or has cleared its flag and not ended. -/
def PlayPc.between : PlayPc → Bool
  | .begin | .clearPlaying => true
  | _ => false

/-- `bgmIoThread` has not begun, or has cleared its flag and not ended. -/
def IoPc.between : IoPc → Bool
  | .begin | .setTerminate | .lastSignal => true
  | _ => false

/-- Where `bgmStart` begins both flags are clear, and where a clear flag decides its thread is not
between. -/
def EventOk (s : Bgm) : Event → Prop
  | .call .bgmStart => s.shared.bgmThreadRunning = false ∧ s.shared.bgmIoThreadRunning = false ∧
      s.current.play.between = false ∧ s.current.io.between = false
  | .main _ =>
    (s.main = .checkIo → s.shared.bgmIoThreadRunning = false → s.current.io.between = false) ∧
      (s.main = .checkPlay → s.shared.bgmThreadRunning = false → s.current.play.between = false)
  | _ => True

instance (s : Bgm) : (e : Event) → Decidable (EventOk s e)
  | .call .bgmStart => inferInstanceAs (Decidable (_ ∧ _ ∧ _ ∧ _))
  | .call .bgmStop => inferInstanceAs (Decidable True)
  | .call .bgmQuiesce => inferInstanceAs (Decidable True)
  | .main _ => inferInstanceAs (Decidable (_ ∧ _))
  | .play _ => inferInstanceAs (Decidable True)
  | .io _ _ => inferInstanceAs (Decidable True)
  | .enable _ => inferInstanceAs (Decidable True)

/-! ### Threads that have ended -/

theorem Part.alive_eq_false_iff (t : Part) : t.alive = false ↔
    (t.play = .dormant ∨ t.play = .ended) ∧ (t.io = .dormant ∨ t.io = .ended) := by
  simp [Part.alive, or_iff_not_imp_left]

theorem PlayPc.ended_of_between {pc : PlayPc} (hrun : pc.running = false)
    (hbetween : pc.between = false) : pc = .dormant ∨ pc = .ended := by
  cases pc <;> first
    | exact .inl rfl
    | exact .inr rfl
    | exact Bool.noConfusion hrun
    | exact Bool.noConfusion hbetween

theorem IoPc.ended_of_between {pc : IoPc} (hrun : pc.running = false)
    (hbetween : pc.between = false) : pc = .dormant ∨ pc = .ended := by
  cases pc <;> first
    | exact .inl rfl
    | exact .inr rfl
    | exact Bool.noConfusion hrun
    | exact Bool.noConfusion hbetween

theorem PlayPc.running_of_ended {pc : PlayPc} (h : pc = .dormant ∨ pc = .ended) :
    pc.running = false := by
  obtain rfl | rfl := h <;> rfl

theorem IoPc.running_of_ended {pc : IoPc} (h : pc = .dormant ∨ pc = .ended) :
    pc.running = false := by
  obtain rfl | rfl := h <;> rfl

/-! ### The invariant -/

/-- `bgmInit` has made the semaphores, and `bgmStart` is not done. -/
def MainPc.builds : MainPc → Bool
  | .createPlay | .createIo | .load | .setPlaying | .startIo | .startPlay => true
  | _ => false

/-- What the main thread has done for its next statement. -/
def PhaseOk (v : Shared) (t : Part) : MainPc → Prop
  | .initTerminate => t.alive = false
  | .initRd => t.alive = false ∧ v.terminateFlag = false
  | .initWr => t.alive = false ∧ v.terminateFlag = false ∧ v.rdPtr = 0
  | .initRunning | .initIoRunning | .initBuffered | .initPrimed | .createIn =>
    t.alive = false ∧ v.terminateFlag = false ∧ v.rdPtr = 0 ∧ v.wrPtr = 0
  | .createOut => t = .fresh ∧ v.terminateFlag = false ∧ v.rdPtr = 0 ∧ v.wrPtr = 0 ∧
      ∃ i, v.inSema = some i ∧ i < v.nextSema ∧ v.semas i = some ringCount
  | .createPlay | .createIo | .load | .setPlaying | .startIo => t = .fresh
  | .startPlay => t.play = .dormant
  | .cleanup _ => t.alive = false
  | .signalIn _ | .signalOut _ => v.terminateFlag = true
  | .checkPlay => t.io = .dormant ∨ t.io = .ended
  | _ => True

/-- The invariant of a run. -/
structure Inv (s : Bgm) : Prop where
  rdPtr : s.shared.rdPtr < ringCount
  wrPtr : s.shared.wrPtr < ringCount
  harmed : s.harmed = false
  others : ∀ m, m ≠ s.session → (s.parts m).alive = false
  later : ∀ m, s.session < m → s.parts m = .fresh
  played : ∀ m, (s.parts m).played <+: (s.parts m).chunks.map pieceAt
  ordered : ∀ m, (s.parts m).Ordered
  decoded : ∀ c ∈ s.current.chunks, c + chunkSize + s.current.io.filled ≤ s.shared.decoded
  playFlag : s.shared.bgmThreadRunning = s.current.play.running
  ioFlag : s.shared.bgmIoThreadRunning = s.current.io.running
  phase : PhaseOk s.shared s.current s.main
  ring : s.current.alive = true ∨ s.main.builds = true → RingInv s.shared.toMemory s.current

theorem Inv.kept {s : Bgm} (h : s.Inv) : s.Kept :=
  ⟨h.rdPtr, h.wrPtr, h.harmed, h.played, h.ordered⟩

/-! ### Steps of the threads -/

section Steps

variable {s s' : Bgm}

theorem Part.alive_of_play {t : Part} (h : t.play ≠ .dormant ∧ t.play ≠ .ended) :
    t.alive = true := by
  simp [Part.alive, h]

theorem Part.alive_of_io {t : Part} (h : t.io ≠ .dormant ∧ t.io ≠ .ended) : t.alive = true := by
  simp [Part.alive, h]

theorem alive_ne {t : Part} (h : t.alive = true) : t.alive ≠ false := by
  rw [h]
  decide

theorem PlayFrame.phase {v v' : Shared} {t t' : Part} (h : PlayFrame v v' t t') {pc : MainPc}
    (hphase : PhaseOk v t pc) : PhaseOk v' t' pc := by
  have halive := alive_ne (Part.alive_of_play h.started)
  have hfresh : t ≠ .fresh := fun hfresh => h.started.1 (by rw [hfresh]; rfl)
  cases pc with
  | initTerminate => exact absurd hphase halive
  | initRd | initWr | initRunning | initIoRunning | initBuffered | initPrimed | createIn =>
    exact absurd hphase.1 halive
  | createOut => exact absurd hphase.1 hfresh
  | createPlay | createIo | load | setPlaying | startIo => exact absurd hphase hfresh
  | startPlay => exact absurd hphase h.started.1
  | cleanup todo => exact absurd hphase halive
  | signalIn stop | signalOut stop => exact h.terminateFlag.trans hphase
  | checkPlay =>
    rw [PhaseOk, h.io]
    exact hphase
  | idle | setTerminate stop | awaitIo waits | awaitPlay waits | checkIo => trivial

theorem IoFrame.phase {v v' : Shared} {t t' : Part} (h : IoFrame v v' t t') {pc : MainPc}
    (hphase : PhaseOk v t pc) : PhaseOk v' t' pc := by
  have halive := alive_ne (Part.alive_of_io h.started)
  have hfresh : t ≠ .fresh := fun hfresh => h.started.1 (by rw [hfresh]; rfl)
  cases pc with
  | initTerminate => exact absurd hphase halive
  | initRd | initWr | initRunning | initIoRunning | initBuffered | initPrimed | createIn =>
    exact absurd hphase.1 halive
  | createOut => exact absurd hphase.1 hfresh
  | createPlay | createIo | load | setPlaying | startIo => exact absurd hphase hfresh
  | startPlay => exact h.play.trans hphase
  | cleanup todo => exact absurd hphase halive
  | signalIn stop | signalOut stop => exact h.terminateFlag hphase
  | checkPlay => exact hphase.elim (absurd · h.started.1) (absurd · h.started.2)
  | idle | setTerminate stop | awaitIo waits | awaitPlay waits | checkIo => trivial

/-- What `bgmIoThread` decodes next comes behind its chunks. -/
theorem IoFrame.decoded {v v' : Shared} {t t' : Part} (h : IoFrame v v' t t')
    (hle : t.io.filled ≤ v.decoded)
    (hdecoded : ∀ c ∈ t.chunks, c + chunkSize + t.io.filled ≤ v.decoded) :
    ∀ c ∈ t'.chunks, c + chunkSize + t'.io.filled ≤ v'.decoded := by
  intro c hc
  obtain ⟨hchunks, hfilled⟩ | ⟨⟨wr, hpc⟩, hfilled, hsame, hchunks⟩ := h.chunks
  · rw [hchunks] at hc
    have := hdecoded c hc
    omega
  · have hslot : t.io.filled = chunkSize := by
      rw [hpc]
      rfl
    rw [hchunks] at hc
    obtain hc | hc := List.mem_append.mp hc
    · have := hdecoded c hc
      omega
    · have := List.mem_singleton.mp hc
      omega

/-- The chunks stay in order. -/
theorem IoFrame.ordered {v v' : Shared} {t t' : Part} (h : IoFrame v v' t t')
    (hordered : t.Ordered) (hdecoded : ∀ c ∈ t.chunks, c + chunkSize + t.io.filled ≤ v.decoded) :
    t'.Ordered := by
  obtain ⟨hchunks, -⟩ | ⟨⟨wr, hpc⟩, -, -, hchunks⟩ := h.chunks
  · rw [Part.Ordered, hchunks]
    exact hordered
  · have hslot : t.io.filled = chunkSize := by
      rw [hpc]
      rfl
    rw [Part.Ordered, hchunks]
    refine List.pairwise_append.mpr ⟨hordered, List.pairwise_singleton _ _, fun c hc c' hc' => ?_⟩
    have := hdecoded c hc
    have := List.mem_singleton.mp hc'
    omega

/-- Only the threads of the current session execute statements. -/
theorem Inv.session_of_alive (h : s.Inv) {m : ℕ} (hm : (s.parts m).alive = true) :
    m = s.session := by
  by_contra hne
  exact Bool.noConfusion (hm.symm.trans (h.others m hne))

/-- The current session goes on. -/
theorem Inv.goesOn (h : s.Inv) {v : Shared} {t : Part} {pc : MainPc} (hrd : v.rdPtr < ringCount)
    (hwr : v.wrPtr < ringCount) (hplayed : t.played <+: t.chunks.map pieceAt) (hordered : t.Ordered)
    (hdecoded : ∀ c ∈ t.chunks, c + chunkSize + t.io.filled ≤ v.decoded)
    (hplayFlag : v.bgmThreadRunning = t.play.running)
    (hioFlag : v.bgmIoThreadRunning = t.io.running) (hphase : PhaseOk v t pc)
    (hring : t.alive = true ∨ pc.builds = true → RingInv v.toMemory t) :
    Inv { s with shared := v, main := pc, parts := Function.update s.parts s.session t } := by
  have hcurrent : Bgm.current
      { s with shared := v, main := pc, parts := Function.update s.parts s.session t } = t :=
    Function.update_self _ _ _
  have hother : ∀ m, m ≠ s.session → Function.update s.parts s.session t m = s.parts m :=
    fun m hm => Function.update_of_ne hm _ _
  refine ⟨hrd, hwr, h.harmed, fun m hm => ?_, fun m hm => ?_, fun m => ?_, fun m => ?_, ?_, ?_, ?_,
    ?_, ?_⟩
  · dsimp only
    rw [hother m hm]
    exact h.others m hm
  · dsimp only
    rw [hother m (Nat.ne_of_gt hm)]
    exact h.later m hm
  · dsimp only
    by_cases hm : m = s.session
    · subst hm
      rw [Function.update_self]
      exact hplayed
    · rw [hother m hm]
      exact h.played m
  · dsimp only
    by_cases hm : m = s.session
    · subst hm
      rw [Function.update_self]
      exact hordered
    · rw [hother m hm]
      exact h.ordered m
  all_goals rw [hcurrent]
  · exact hdecoded
  · exact hplayFlag
  · exact hioFlag
  · exact hphase
  · exact hring

/-- The next chunk is played. -/
theorem played_concat {played : List Chunk} {chunks : List ℕ} (h : played <+: chunks.map pieceAt)
    (hlt : played.length < chunks.length) :
    played ++ [pieceAt (chunks.getD played.length 0)] <+: chunks.map pieceAt := by
  obtain ⟨rest, hrest⟩ := h
  have hget : (chunks.map pieceAt)[played.length]? =
      some (pieceAt (chunks.getD played.length 0)) := by
    rw [List.getElem?_map, List.getElem?_eq_getElem hlt, List.getD_eq_getElem _ _ hlt]
    rfl
  rw [← hrest, List.getElem?_append_right (Nat.le_refl _), Nat.sub_self] at hget
  cases rest with
  | nil => cases hget
  | cons c rest =>
    cases hget
    exact ⟨rest, by rw [List.append_assoc, List.singleton_append]; exact hrest⟩

/-- **A statement of `bgmThread`.** -/
theorem Inv.play (h : s.Inv) {m : ℕ} (hstep : s.step (.play m) = some s') : s'.Inv := by
  obtain ⟨⟨v, t⟩, hplay, rfl⟩ := Option.map_eq_some_iff.mp hstep
  have hframe := playFrame hplay
  have halive := Part.alive_of_play hframe.started
  have hm := h.session_of_alive halive
  subst hm
  have hring := h.ring (.inl halive)
  refine h.goesOn (hframe.rdPtr h.rdPtr) (hframe.wrPtr h.wrPtr) ?_ ?_ ?_
    (hframe.playFlag h.playFlag) ?_ (hframe.phase h.phase) fun _ => hring.playStep hplay
  · rw [hframe.chunks]
    obtain hplayed | ⟨hpc, hplayed⟩ := hframe.played
    · rw [hplayed]
      exact h.played _
    · rw [hplayed, hring.bgmBuffer_rdPtr h.rdPtr hpc]
      exact played_concat (h.played _) (hring.plays (by rw [current, hpc]; rfl))
  · rw [Part.Ordered, hframe.chunks]
    exact h.ordered _
  · rw [hframe.chunks, hframe.io, hframe.decoded]
    exact h.decoded
  · rw [hframe.ioFlag, hframe.io]
    exact h.ioFlag

/-- **A statement of `bgmIoThread`.** -/
theorem Inv.io (h : s.Inv) {m : ℕ} {r : Decode} (hstep : s.step (.io m r) = some s') :
    s'.Inv := by
  obtain ⟨⟨v, t⟩, hio, rfl⟩ := Option.map_eq_some_iff.mp hstep
  have halive : (s.parts m).alive = true := by
    refine Part.alive_of_io ⟨fun hpc => ?_, fun hpc => ?_⟩
    · rw [ioStep, hpc] at hio
      cases hio
    · rw [ioStep, hpc] at hio
      cases hio
  have hm := h.session_of_alive halive
  subst hm
  have hring := h.ring (.inl halive)
  have hframe := ioFrame hring hio
  refine h.goesOn (hframe.rdPtr.trans_lt h.rdPtr) (hframe.wrPtr h.wrPtr) ?_
    (hframe.ordered (h.ordered _) h.decoded) (hframe.decoded hring.decoded h.decoded) ?_
    (hframe.ioFlag h.ioFlag) (hframe.phase h.phase) fun _ => hring.ioStep hio
  · rw [hframe.played]
    obtain ⟨hchunks, -⟩ | ⟨-, -, -, hchunks⟩ := hframe.chunks
    · rw [hchunks]
      exact h.played _
    · rw [hchunks, List.map_append]
      exact (h.played _).trans (List.prefix_append _ _)
  · rw [hframe.playFlag, hframe.play]
    exact h.playFlag

/-! ### Steps of the main thread -/

/-- The main thread goes on, and changes variables. -/
theorem Inv.changes (h : s.Inv) {v : Shared} {pc : MainPc} (hrd : v.rdPtr < ringCount)
    (hwr : v.wrPtr < ringCount) (hdecoded : v.decoded = s.shared.decoded)
    (hplayFlag : v.bgmThreadRunning = s.current.play.running)
    (hioFlag : v.bgmIoThreadRunning = s.current.io.running) (hphase : PhaseOk v s.current pc)
    (hring : s.current.alive = true ∨ pc.builds = true → RingInv v.toMemory s.current) :
    Inv { s with shared := v, main := pc } := by
  have hgoes := h.goesOn (t := s.current) hrd hwr (h.played _) (h.ordered _)
    (hdecoded ▸ h.decoded) hplayFlag hioFlag hphase hring
  rw [current, Function.update_eq_self] at hgoes
  exact hgoes

theorem ring_of_dead {t : Part} {pc : MainPc} {P : Prop} (hdead : t.alive = false)
    (hbuilds : pc.builds = false) : t.alive = true ∨ pc.builds = true → P := by
  rw [hdead, hbuilds]
  rintro (h | h)
  · cases h
  · cases h

/-- The main thread deletes or replaces something of a session that has ended. -/
theorem Inv.replaces_eq (h : s.Inv) (hdead : s.current.alive = false) (pc : MainPc) :
    s.replaces pc = s.goes pc := by
  have hnone : s.someAlive = false := by
    rw [someAlive, List.any_eq_false]
    intro m _
    by_cases hm : m = s.session
    · rw [hm]
      exact Bool.not_eq_true _ ▸ hdead
    · exact Bool.not_eq_true _ ▸ h.others m hm
  rw [replaces, hnone, Bool.or_false]
  rfl

theorem Part.play_running_of_dead {t : Part} (hdead : t.alive = false) : t.play.running = false :=
  PlayPc.running_of_ended ((Part.alive_eq_false_iff t).mp hdead).1

theorem Part.io_running_of_dead {t : Part} (hdead : t.alive = false) : t.io.running = false :=
  IoPc.running_of_ended ((Part.alive_eq_false_iff t).mp hdead).2

theorem Inv.createIn (h : s.Inv) (hpc : s.main = .createIn) {ok : Bool}
    (hstep : s.mainStep ok = some s') : s'.Inv := by
  have hphase := h.phase
  rw [hpc] at hphase
  obtain ⟨hdead, hterm, hrd, hwr⟩ := hphase
  rw [mainStep, hpc] at hstep
  dsimp only at hstep
  rw [h.replaces_eq hdead, h.replaces_eq hdead] at hstep
  cases ok with
  | false =>
    cases hstep
    exact h.changes h.rdPtr h.wrPtr rfl h.playFlag h.ioFlag trivial (ring_of_dead hdead rfl)
  | true =>
    cases hstep
    have hnext : s.parts (s.session + 1) = .fresh := h.later _ (Nat.lt_succ_self _)
    refine ⟨h.rdPtr, h.wrPtr, h.harmed, fun m hm => ?_, fun m hm => ?_, h.played, h.ordered, ?_, ?_,
      ?_, ?_, ?_⟩
    · by_cases hcurrent : m = s.session
      · rw [hcurrent]
        exact hdead
      · exact h.others m hcurrent
    · exact h.later m (Nat.lt_of_succ_lt hm)
    all_goals rw [current]; dsimp only [goes]; rw [hnext]
    · exact nofun
    · exact h.playFlag.trans (Part.play_running_of_dead hdead)
    · exact h.ioFlag.trans (Part.io_running_of_dead hdead)
    · exact ⟨rfl, hterm, hrd, hwr, _, rfl, Nat.lt_succ_self _, Function.update_self _ _ _⟩
    · exact ring_of_dead rfl rfl

theorem Inv.createOut (h : s.Inv) (hpc : s.main = .createOut) {ok : Bool}
    (hstep : s.mainStep ok = some s') : s'.Inv := by
  have hphase := h.phase
  rw [hpc] at hphase
  obtain ⟨hfresh, hterm, hrd, hwr, i, hin, hlt, ha⟩ := hphase
  have hdead : s.current.alive = false := by
    rw [hfresh]
    rfl
  rw [mainStep, hpc] at hstep
  dsimp only at hstep
  rw [h.replaces_eq hdead, h.replaces_eq hdead] at hstep
  cases ok with
  | false =>
    cases hstep
    exact h.changes h.rdPtr h.wrPtr rfl h.playFlag h.ioFlag hdead (ring_of_dead hdead rfl)
  | true =>
    cases hstep
    refine h.changes h.rdPtr h.wrPtr rfl h.playFlag h.ioFlag hfresh fun _ => ?_
    rw [hfresh]
    exact .fresh hin rfl (Nat.ne_of_lt hlt)
      ((Function.update_of_ne (Nat.ne_of_lt hlt) _ _).trans ha) (Function.update_self _ _ _) hrd hwr

/-- The main thread creates something of a session that is not started, or cannot. -/
theorem Inv.creates (h : s.Inv) (hbuilds : s.main.builds = true) (hfresh : s.current = .fresh)
    {pc : MainPc} (vorbisFile : Bool) (hphase : PhaseOk s.shared .fresh pc) :
    Inv { s.replaces pc with shared := { s.shared with vorbisFile := vorbisFile } } := by
  have hdead : s.current.alive = false := by
    rw [hfresh]
    rfl
  rw [h.replaces_eq hdead]
  exact h.changes h.rdPtr h.wrPtr rfl h.playFlag h.ioFlag (hfresh ▸ hphase) fun _ =>
    h.ring (.inr hbuilds)

theorem Inv.cleanup (h : s.Inv) {r : Resource} {todo : List Resource}
    (hpc : s.main = .cleanup (r :: todo)) :
    Inv { s.replaces (.cleanup todo) with shared := delete s.shared r } := by
  have hphase := h.phase
  rw [hpc] at hphase
  have hdead : s.current.alive = false := hphase
  rw [h.replaces_eq hdead]
  cases r with
  | inSema =>
    obtain ⟨semas, hsemas⟩ := s.shared.deleteSema_eq s.shared.inSema
    rw [delete, hsemas]
    exact h.changes h.rdPtr h.wrPtr rfl h.playFlag h.ioFlag hdead (ring_of_dead hdead rfl)
  | outSema =>
    obtain ⟨semas, hsemas⟩ := s.shared.deleteSema_eq s.shared.outSema
    rw [delete, hsemas]
    exact h.changes h.rdPtr h.wrPtr rfl h.playFlag h.ioFlag hdead (ring_of_dead hdead rfl)
  | playThread | ioThread | vorbisFile =>
    exact h.changes h.rdPtr h.wrPtr rfl h.playFlag h.ioFlag hdead (ring_of_dead hdead rfl)

/-- The main thread goes on without changing anything. -/
theorem Inv.advances (h : s.Inv) {pc : MainPc} (hphase : PhaseOk s.shared s.current pc)
    (hbuilds : pc.builds = false) : (s.goes pc).Inv := by
  refine h.changes h.rdPtr h.wrPtr rfl h.playFlag h.ioFlag hphase ?_
  rw [hbuilds]
  exact fun hring => h.ring (.inl (hring.resolve_right nofun))

/-- `terminateFlag` is set by the main thread. -/
theorem Inv.terminates (h : s.Inv) {pc : MainPc} (hphase : PhaseOk
    { s.shared with terminateFlag := true } s.current pc) (hbuilds : pc.builds = false) :
    Inv { s with shared := { s.shared with terminateFlag := true }, main := pc } := by
  refine h.changes h.rdPtr h.wrPtr rfl h.playFlag h.ioFlag hphase ?_
  rw [hbuilds]
  exact fun hring => (h.ring (.inl (hring.resolve_right nofun))).terminates

/-- The main thread signals a semaphore after it has set `terminateFlag`. -/
theorem Inv.signals (h : s.Inv) (hterm : s.shared.terminateFlag = true) {pc : MainPc}
    (id : Option ℕ) (hphase : ∀ v : Shared, v.terminateFlag = true → PhaseOk v s.current pc)
    (hbuilds : pc.builds = false) :
    Inv { s with
      shared := { s.shared with toMemory := s.shared.toMemory.signalSema id }
      main := pc } := by
  have hring : s.current.alive = true ∨ pc.builds = true →
      RingInv (s.shared.toMemory.signalSema id) s.current := by
    rw [hbuilds]
    exact fun hring => (h.ring (.inl (hring.resolve_right nofun))).signals hterm
  obtain ⟨semas, hsemas⟩ := s.shared.toMemory.signalSema_eq id
  rw [hsemas] at hring ⊢
  exact h.changes h.rdPtr h.wrPtr rfl h.playFlag h.ioFlag (hphase _ hterm) hring

/-- `StartThread` puts the threads of the session where they begin. -/
theorem Inv.starts (h : s.Inv) (hbuilds : s.main.builds = true) (playPc : PlayPc) (ioPc : IoPc)
    {pc : MainPc} (hplay : playPc.running = s.current.play.running)
    (hio : ioPc.running = s.current.io.running) (hfilled : ioPc.filled ≤ s.current.io.filled)
    (hphase : PhaseOk s.shared { s.current with play := playPc, io := ioPc } pc)
    (hring : RingInv s.shared.toMemory s.current →
      RingInv s.shared.toMemory { s.current with play := playPc, io := ioPc }) :
    Inv { s with
      parts := Function.update s.parts s.session { s.current with play := playPc, io := ioPc }
      main := pc } := by
  refine h.goesOn h.rdPtr h.wrPtr (h.played _) (h.ordered _) (fun c hc => ?_)
    (h.playFlag.trans hplay.symm) (h.ioFlag.trans hio.symm) hphase fun _ =>
      hring (h.ring (.inr hbuilds))
  exact (Nat.add_le_add_left hfilled _).trans (h.decoded c hc)

/-! ### Statements of the main thread -/

theorem Inv.initTerminate (h : s.Inv) (hpc : s.main = .initTerminate) {ok : Bool}
    (hstep : s.mainStep ok = some s') : s'.Inv := by
  have hphase := h.phase
  rw [mainStep, hpc] at hstep
  rw [hpc] at hphase
  cases hstep
  exact h.changes h.rdPtr h.wrPtr rfl h.playFlag h.ioFlag ⟨hphase, rfl⟩ (ring_of_dead hphase rfl)

theorem Inv.initRd (h : s.Inv) (hpc : s.main = .initRd) {ok : Bool}
    (hstep : s.mainStep ok = some s') : s'.Inv := by
  have hpos : 0 < ringCount := by decide
  have hphase := h.phase
  rw [mainStep, hpc] at hstep
  rw [hpc] at hphase
  cases hstep
  obtain ⟨hdead, hterm⟩ := hphase
  exact h.changes hpos h.wrPtr rfl h.playFlag h.ioFlag ⟨hdead, hterm, rfl⟩
    (ring_of_dead hdead rfl)

theorem Inv.initWr (h : s.Inv) (hpc : s.main = .initWr) {ok : Bool}
    (hstep : s.mainStep ok = some s') : s'.Inv := by
  have hpos : 0 < ringCount := by decide
  have hphase := h.phase
  rw [mainStep, hpc] at hstep
  rw [hpc] at hphase
  cases hstep
  obtain ⟨hdead, hterm, hrd⟩ := hphase
  exact h.changes h.rdPtr hpos rfl h.playFlag h.ioFlag ⟨hdead, hterm, hrd, rfl⟩
    (ring_of_dead hdead rfl)

theorem Inv.initRunning (h : s.Inv) (hpc : s.main = .initRunning) {ok : Bool}
    (hstep : s.mainStep ok = some s') : s'.Inv := by
  have hphase := h.phase
  rw [mainStep, hpc] at hstep
  rw [hpc] at hphase
  cases hstep
  exact h.changes h.rdPtr h.wrPtr rfl (Part.play_running_of_dead hphase.1).symm h.ioFlag hphase
    (ring_of_dead hphase.1 rfl)

theorem Inv.initIoRunning (h : s.Inv) (hpc : s.main = .initIoRunning) {ok : Bool}
    (hstep : s.mainStep ok = some s') : s'.Inv := by
  have hphase := h.phase
  rw [mainStep, hpc] at hstep
  rw [hpc] at hphase
  cases hstep
  exact h.changes h.rdPtr h.wrPtr rfl h.playFlag (Part.io_running_of_dead hphase.1).symm hphase
    (ring_of_dead hphase.1 rfl)

/-- `StartThread` of `bgmIoThread`. -/
theorem Inv.startIo (h : s.Inv) (hpc : s.main = .startIo) {ok : Bool}
    (hstep : s.mainStep ok = some s') : s'.Inv := by
  have hphase := h.phase
  have hbuilds : s.main.builds = true := by
    rw [hpc]
    rfl
  rw [mainStep, hpc] at hstep
  rw [hpc] at hphase
  cases hstep
  have hplay : s.current.play = .dormant := by
    rw [hphase]
    rfl
  have hio : s.current.io = .dormant := by
    rw [hphase]
    rfl
  cases ok with
  | false =>
    refine h.starts hbuilds s.current.play .dormant rfl (hio ▸ rfl) (Nat.zero_le _) hplay
      fun hring => ?_
    exact hring.ioLooks (Nat.zero_le _) (Nat.zero_le _) rfl rfl nofun nofun nofun nofun
  | true =>
    refine h.starts hbuilds s.current.play .begin rfl (hio ▸ rfl) (Nat.zero_le _) hplay
      fun hring => ?_
    exact hring.ioLooks (Nat.zero_le _) (Nat.zero_le _) rfl rfl nofun nofun nofun nofun

/-- `StartThread` of `bgmThread`. -/
theorem Inv.startPlay (h : s.Inv) (hpc : s.main = .startPlay) {ok : Bool}
    (hstep : s.mainStep ok = some s') : s'.Inv := by
  have hphase := h.phase
  have hbuilds : s.main.builds = true := by
    rw [hpc]
    rfl
  rw [mainStep, hpc] at hstep
  rw [hpc] at hphase
  cases hstep
  have hplay : s.current.play = .dormant := hphase
  cases ok with
  | false =>
    refine h.starts hbuilds .dormant s.current.io (hplay ▸ rfl) rfl (Nat.le_refl _) trivial
      fun hring => ?_
    exact hring.playGoes (Nat.zero_le _) (Nat.zero_le _) (hplay ▸ rfl) nofun
      (fun _ => hplay ▸ rfl) nofun nofun nofun
  | true =>
    refine h.starts hbuilds .begin s.current.io (hplay ▸ rfl) rfl (Nat.le_refl _) trivial
      fun hring => ?_
    exact hring.playGoes (Nat.zero_le _) (Nat.zero_le _) (hplay ▸ rfl) nofun
      (fun _ => hplay ▸ rfl) nofun nofun nofun

/-- The last look at the flag of `bgmIoThread`. -/
theorem Inv.checkIo (h : s.Inv) (hpc : s.main = .checkIo) {ok : Bool} (hok : EventOk s (.main ok))
    (hstep : s.mainStep ok = some s') : s'.Inv := by
  rw [mainStep, hpc] at hstep
  cases hstep
  split_ifs with hrunning
  · exact h.advances trivial rfl
  · have hclear := Bool.eq_false_of_not_eq_true hrunning
    exact h.advances (IoPc.ended_of_between (h.ioFlag.symm.trans hclear) (hok.1 hpc hclear)) rfl

/-- The last look at the flag of `bgmThread`: both threads have ended. -/
theorem Inv.checkPlay (h : s.Inv) (hpc : s.main = .checkPlay) {ok : Bool}
    (hok : EventOk s (.main ok)) (hstep : s.mainStep ok = some s') : s'.Inv := by
  have hphase := h.phase
  rw [mainStep, hpc] at hstep
  rw [hpc] at hphase
  cases hstep
  split_ifs with hrunning
  · exact h.advances trivial rfl
  · have hclear := Bool.eq_false_of_not_eq_true hrunning
    have hplay := PlayPc.ended_of_between (h.playFlag.symm.trans hclear) (hok.2 hpc hclear)
    exact h.advances ((Part.alive_eq_false_iff _).mpr ⟨hplay, hphase⟩) rfl

/-- **A statement of the main thread.** -/
theorem Inv.main {ok : Bool} (h : s.Inv) (hok : EventOk s (.main ok))
    (hstep : s.step (.main ok) = some s') : s'.Inv := by
  have hphase := h.phase
  change s.mainStep ok = some s' at hstep
  cases hpc : s.main with
  | idle =>
    rw [mainStep, hpc] at hstep
    cases hstep
  | initTerminate => exact h.initTerminate hpc hstep
  | initRd => exact h.initRd hpc hstep
  | initWr => exact h.initWr hpc hstep
  | initRunning => exact h.initRunning hpc hstep
  | initIoRunning => exact h.initIoRunning hpc hstep
  | initBuffered | initPrimed =>
    rw [mainStep, hpc] at hstep
    rw [hpc] at hphase
    cases hstep
    exact h.changes h.rdPtr h.wrPtr rfl h.playFlag h.ioFlag hphase (ring_of_dead hphase.1 rfl)
  | createIn => exact h.createIn hpc hstep
  | createOut => exact h.createOut hpc hstep
  | createPlay | createIo =>
    have hbuilds : s.main.builds = true := by
      rw [hpc]
      rfl
    rw [mainStep, hpc] at hstep
    rw [hpc] at hphase
    cases hstep
    cases ok with
    | false => exact h.creates hbuilds hphase s.shared.vorbisFile rfl
    | true => exact h.creates hbuilds hphase s.shared.vorbisFile rfl
  | load =>
    have hbuilds : s.main.builds = true := by
      rw [hpc]
      rfl
    rw [mainStep, hpc] at hstep
    rw [hpc] at hphase
    cases hstep
    cases ok with
    | false => exact h.creates hbuilds hphase _ rfl
    | true => exact h.creates hbuilds hphase _ rfl
  | setPlaying =>
    have hbuilds : s.main.builds = true := by
      rw [hpc]
      rfl
    rw [mainStep, hpc] at hstep
    rw [hpc] at hphase
    cases hstep
    exact h.changes h.rdPtr h.wrPtr rfl h.playFlag h.ioFlag hphase fun _ => h.ring (.inr hbuilds)
  | startIo => exact h.startIo hpc hstep
  | startPlay => exact h.startPlay hpc hstep
  | cleanup todo =>
    cases todo with
    | nil =>
      rw [mainStep, hpc] at hstep
      cases hstep
      exact h.advances trivial rfl
    | cons r todo =>
      rw [mainStep, hpc] at hstep
      cases hstep
      exact h.cleanup hpc
  | setTerminate stop =>
    rw [mainStep, hpc] at hstep
    cases hstep
    exact h.terminates rfl rfl
  | signalIn stop =>
    rw [mainStep, hpc] at hstep
    rw [hpc] at hphase
    cases hstep
    exact h.signals hphase _ (fun _ hterm => hterm) rfl
  | signalOut stop =>
    rw [mainStep, hpc] at hstep
    rw [hpc] at hphase
    cases hstep
    cases stop with
    | false => exact h.signals hphase _ (fun _ _ => trivial) rfl
    | true => exact h.signals hphase _ (fun _ _ => trivial) rfl
  | awaitIo waits =>
    rw [mainStep, hpc] at hstep
    cases hstep
    split_ifs
    · exact h.advances trivial rfl
    · exact h.advances trivial rfl
  | awaitPlay waits =>
    rw [mainStep, hpc] at hstep
    cases hstep
    split_ifs
    · exact h.advances trivial rfl
    · exact h.advances trivial rfl
  | checkIo => exact h.checkIo hpc hok hstep
  | checkPlay => exact h.checkPlay hpc hok hstep

/-- **A step.** -/
theorem Inv.step {e : Event} (h : s.Inv) (hok : EventOk s e) (hstep : s.step e = some s') :
    s'.Inv := by
  cases e with
  | call c =>
    rw [Bgm.step] at hstep
    split_ifs at hstep with hidle
    cases hstep
    cases c with
    | bgmStart =>
      obtain ⟨hplayFlag, hioFlag, hplay, hio⟩ := hok
      have hdead : s.current.alive = false := (Part.alive_eq_false_iff _).mpr
        ⟨PlayPc.ended_of_between (h.playFlag.symm.trans hplayFlag) hplay,
          IoPc.ended_of_between (h.ioFlag.symm.trans hioFlag) hio⟩
      exact h.advances hdead rfl
    | bgmStop => exact h.advances trivial rfl
    | bgmQuiesce => exact h.advances trivial rfl
  | main ok => exact h.main hok hstep
  | play m => exact h.play hstep
  | io m r => exact h.io hstep
  | enable b =>
    cases hstep
    exact h.changes h.rdPtr h.wrPtr rfl h.playFlag h.ioFlag h.phase h.ring

end Steps

/-! ### Runs -/

theorem init_inv : init.Inv where
  rdPtr := by decide
  wrPtr := by decide
  harmed := rfl
  others _ _ := rfl
  later _ _ := rfl
  played _ := List.prefix_refl _
  ordered _ := List.Pairwise.nil
  decoded := nofun
  playFlag := rfl
  ioFlag := rfl
  phase := trivial
  ring := nofun

/-- **Every run** where `bgmStart` comes when both threads have ended and the flags tell the truth
when `bgmStop` goes by them: the pointers stay in the ring, what is played in a session are the
chunks that were decoded in it, in order, and nothing of a session is deleted or replaced while one
of its threads can execute a statement. -/
theorem run_kept (es : List Event) (s : Bgm) (hok : Transition.RunOk step EventOk init es)
    (hrun : Transition.run step init es = some s) : s.Kept :=
  (Transition.run_invariant_of_runOk (fun _ _ _ => Inv.step) init_inv hok hrun).kept

/-- A session in which a chunk is decoded and played. -/
def playedSession : List Event :=
  List.flatten [[.enable true, .call .bgmStart], List.replicate 15 (.main true),
    List.replicate 5 (.io 1 .hole), [.io 1 (.bytes chunkSize)], List.replicate 7 (.io 1 .hole),
    List.replicate 10 (.play 1), [.call .bgmStop], List.replicate 3 (.main true),
    List.replicate 6 (.io 1 .hole), List.replicate 5 (.play 1), List.replicate 10 (.main true)]

theorem run_kept_playedSession : ∃ s, Transition.run step init playedSession = some s ∧ s.Kept ∧
    s.main = .idle ∧ (s.parts 1).alive = false ∧ (s.parts 1).chunks = [0] ∧
    (s.parts 1).played.length = 1 := by
  have hend : (Transition.run step init playedSession).any (fun s =>
      s.main == .idle && !(s.parts 1).alive && (s.parts 1).chunks == [0] &&
        (s.parts 1).played.length == 1) = true := by
    decide +kernel
  obtain ⟨s, hs, hend⟩ := Option.any_eq_true _ _ |>.mp hend
  simp only [Bool.and_eq_true, beq_iff_eq, Bool.not_eq_true'] at hend
  exact ⟨s, hs, run_kept playedSession s (by decide +kernel) hs, hend.1.1.1, hend.1.1.2, hend.1.2,
    hend.2⟩

/-- `bgmStop` right after `bgmStart`: `bgmThread` runs and ends, `bgmIoThread` has not begun. -/
def stoppedEarly : List Event :=
  List.flatten [[.enable true, .call .bgmStart], List.replicate 15 (.main true),
    List.replicate 3 (.play 1), [.call .bgmStop], List.replicate 3 (.main true),
    List.replicate 6 (.play 1), List.replicate 5 (.main true)]

/-- `bgmStop` deletes the semaphore that `bgmIoThread` is going to wait for. -/
theorem not_run_kept : ¬∀ es s, Transition.run step init es = some s → s.Kept := by
  intro h
  have hharmed : (Transition.run step init stoppedEarly).any (·.harmed) = true := by
    decide +kernel
  obtain ⟨s, hs, hharmed⟩ := Option.any_eq_true _ _ |>.mp hharmed
  exact Bool.noConfusion (hharmed.symm.trans (h stoppedEarly s hs).harmed)

end Bgm

end OpenPS2Loader
