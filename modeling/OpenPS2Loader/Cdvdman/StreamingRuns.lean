import OpenPS2Loader.Cdvdman.StreamingInvariant

/-!
# Every run of the streaming machine delivers the disc in order

The caller, the reading thread and the alarm interleave freely. `StIsReading` is taken by the thread
that starts a fill and goes with the fill to the callback that counts it in. A stop, a pause and a
start take it back from whoever has it; what a thread or a fill has from before is then void. The
fill in flight is waited for by `sceCdSync` and stores into the bank behind the window, or into an
empty ring; but the reading thread, once it has given `sync_flag` back, is not waited for, and
nothing tells it that what it is about to do is void.

## Main definitions

* `Event.Ok` — the reading thread does not go on with what is void
* `Flying` — a fill in flight
* `Inv` — what every step keeps

## Main results

* `Inv.caller`, `Inv.reader` — one kind of step each
* `stream_in_order` — the sectors handed over by any run
* `not_stream_in_order` — a seek between the end of a fill and its callback
-/

namespace OpenPS2Loader

namespace Streaming

variable {α : Type*} {disc : ℕ → α} {s s' : State α}

/-! ### What disturbs a stream -/

/-- The calls the invariant speaks about: `sceCdStRead` counts its sectors in an `int`. -/
def Call.Ok : Call → Prop
  | .stRead sectors _ _ => sectors < 2147483648
  | _ => True

instance : (c : Call) → Decidable c.Ok
  | .stRead sectors _ _ => inferInstanceAs (Decidable (sectors < 2147483648))
  | .stStart _ | .stSeek _ | .stPause | .stResume | .stStop => inferInstanceAs (Decidable True)

/-- The section of a fill neither starts a read nor clears a flag that is set. -/
def FillPc.Idle (s : Drive Fill) : FillPc → Prop
  | .async _ => s.cdread.isSome
  | .failed | .full => s.d.stIsReading = false
  | .alloc | .reschedule => True

/-- The reading thread does not go on with a `StIsReading` that was taken back since: it does not
count a bank in, and in the fill it neither starts a read nor clears the flag of another. -/
def Reader.Ok (s : State α) : Reader → Prop
  | .count f => f.gen = s.gen
  | .fill pc gen => gen = s.gen ∨ pc.Idle s.toDrive
  | .wait | .signal _ _ | .event _ _ | .test _ | .callback _ => True

/-- The steps the invariant speaks about. -/
def Event.Ok (s : State α) : Event → Prop
  | .call c => c.Ok
  | .reader => s.reader.Ok s
  | .caller | .alarm => True

instance (s : Drive Fill) : (pc : FillPc) → Decidable (pc.Idle s)
  | .async _ => inferInstanceAs (Decidable (_ = true))
  | .failed | .full => inferInstanceAs (Decidable (_ = false))
  | .alloc | .reschedule => inferInstanceAs (Decidable True)

instance (s : State α) : (r : Reader) → Decidable (r.Ok s)
  | .count _ => inferInstanceAs (Decidable (_ = _))
  | .fill _ _ => inferInstanceAs (Decidable (_ ∨ _))
  | .wait | .signal _ _ | .event _ _ | .test _ | .callback _ => inferInstanceAs (Decidable True)

instance (s : State α) : (e : Event) → Decidable (e.Ok s)
  | .call c => inferInstanceAs (Decidable c.Ok)
  | .reader => inferInstanceAs (Decidable (s.reader.Ok s))
  | .caller | .alarm => inferInstanceAs (Decidable True)

/-! ### The invariant -/

/-- `1` for a fill that has `StIsReading`. -/
def Fill.owns (gen : ℕ) (f : Fill) : ℕ := if f.gen = gen then 1 else 0

theorem State.owns_read (s : State α) (f : CdRead) : (s.read f).owns s.gen = 1 := if_pos rfl

/-- The same for the calling thread. -/
def Pc.owns : Pc α → ℕ
  | .fill pc => pc.owns
  | _ => 0

/-- The same for the reading thread, which has it from the end of a fill to the callback. -/
def Reader.owns (gen : ℕ) : Reader → ℕ
  | .wait | .signal _ _ => 0
  | .event f _ | .test f | .callback f | .count f => f.owns gen
  | .fill pc gen' => if gen' = gen then pc.owns else 0

/-- The bank of a fill is the one behind the window. -/
structure Behind (d : StreamingData) (f : CdRead) : Prop where
  slot_eq : f.slot = d.stWritePtr
  sectors_eq : f.sectors = d.stBanksize
  room : d.stStreamed + d.stBanksize ≤ d.stBufmax

theorem Pending.behind {d : StreamingData} {buf : ℕ → α} {f : CdRead} (h : Pending disc d buf f) :
    Behind d f :=
  ⟨h.slot_eq, h.sectors_eq, h.room⟩

/-- A fill in flight stores into the bank behind the window, or into an empty ring. -/
structure Flying (disc : ℕ → α) (d : StreamingData) (buf : ℕ → α) (gen : ℕ) (f : Fill) : Prop where
  done_le : f.done ≤ f.sectors
  gen_le : f.gen ≤ gen
  free : d.stStreamed = 0 ∨ Behind d f.toCdRead
  current : f.gen = gen → Pending disc d buf f.toCdRead

/-- A fill that has ended and is not void: no other read is in flight. -/
structure Ended (disc : ℕ → α) (d : StreamingData) (buf : ℕ → α) (cdread : Option Fill) (gen : ℕ)
    (f : Fill) : Prop where
  gen_le : f.gen ≤ gen
  done : f.gen = gen → f.done = f.sectors
  alone : f.gen = gen → cdread = none
  current : f.gen = gen → Pending disc d buf f.toCdRead

/-- What holds where the caller is. -/
def Pc.Inv (disc : ℕ → α) (d : StreamingData) (base : ℕ) (delivered : List α) : Pc α → Prop
  | .fill pc => pc.Inv d
  | .read r | .copy r => d.stStat = true ∧ 0 ≤ r.sectorsToRead
  | .dma r rdptr plan copied =>
    d.stStat = true ∧ Dma disc d base delivered r rdptr plan copied
  | _ => True

/-- What holds where the reading thread is. -/
def Reader.Inv (disc : ℕ → α) (d : StreamingData) (buf : ℕ → α) (cdread : Option Fill) (gen : ℕ) :
    Reader → Prop
  | .wait => True
  | .signal f _ => cdread = some f ∧ f.done = f.sectors
  | .event f _ | .test f | .callback f | .count f => Ended disc d buf cdread gen f
  | .fill pc gen' => gen' ≤ gen ∧ (gen' = gen → pc.Inv d)

theorem Reader.Inv.imp {d d' : StreamingData} {buf : ℕ → α} {cdread : Option Fill} {gen gen' : ℕ}
    {r : Reader} (h : r.Inv disc d buf cdread gen)
    (hended : ∀ f, Ended disc d buf cdread gen f → Ended disc d' buf cdread gen' f)
    (hfill : ∀ g (pc : FillPc),
      g ≤ gen ∧ (g = gen → pc.Inv d) → g ≤ gen' ∧ (g = gen' → pc.Inv d')) :
    r.Inv disc d' buf cdread gen' := by
  cases r with
  | wait => trivial
  | signal f stm => exact h
  | event f stm => exact hended f h
  | test f => exact hended f h
  | callback f => exact hended f h
  | count f => exact hended f h
  | fill pc g => exact hfill g pc h

/-- The invariant of the machine. -/
structure Inv (disc : ℕ → α) (s : State α) : Prop where
  ring : RingInv s.d
  delivered_eq : s.delivered = (List.range s.delivered.length).map (streamSector disc s.base)
  stream : s.d.stStat = true → Stream disc s.d s.buf s.base s.delivered
  flight : ∀ f, s.cdread = some f → Flying disc s.d s.buf s.gen f
  held : s.toDrive.Held (Fill.owns s.gen) (s.pc.owns + s.reader.owns s.gen)
  pc : s.pc.Inv disc s.d s.base s.delivered
  reader : s.reader.Inv disc s.d s.buf s.cdread s.gen

/-! ### Sections of a fill -/

section Filled

variable {d : StreamingData} {buf : ℕ → α} {gen : ℕ} {base : ℕ} {delivered : List α} {x : Pc α}
  {r : Reader} {f : Fill} {t : Drive Fill}

theorem Flying.setReading (h : Flying disc d buf gen f) (b : Bool) :
    Flying disc { d with stIsReading := b } buf gen f :=
  ⟨h.done_le, h.gen_le, h.free.imp_right fun h => ⟨h.slot_eq, h.sectors_eq, h.room⟩,
    fun hgen => (h.current hgen).setReading b⟩

theorem Pc.Inv.setReading (h : x.Inv disc d base delivered) (b : Bool) :
    x.Inv disc { d with stIsReading := b } base delivered := by
  cases x with
  | fill pc => cases pc <;> exact h
  | dma q rdptr plan copied => exact ⟨h.1, h.2.mono rfl rfl le_rfl⟩
  | _ => exact h

/-- What the reading thread relies on is kept by everything that keeps `Held`: a fill that has ended
has the flag, so that nobody starts another one. -/
theorem Reader.Inv.filled (h : r.Inv disc s.d s.buf s.cdread s.gen)
    (hf : Filled s.read s.toDrive t) {k : ℕ} (hheld : t.Held (Fill.owns s.gen) (k + r.owns s.gen)) :
    r.Inv disc t.d s.buf t.cdread s.gen := by
  obtain ⟨b, hd⟩ := hf.d_eq
  have hended : ∀ f : Fill, r.owns s.gen = f.owns s.gen →
      Ended disc s.d s.buf s.cdread s.gen f → Ended disc t.d s.buf t.cdread s.gen f := by
    intro f hr he
    refine ⟨he.gen_le, he.done, fun hgen => ?_, fun hgen => hd ▸ (he.current hgen).setReading b⟩
    rcases hf.cdread with hsame | ⟨-, -, hnew⟩
    · exact hsame.trans (he.alone hgen)
    · have hle := hheld.le_one
      rw [Drive.flying, hnew, Option.elim_some, s.owns_read, hr, Fill.owns, if_pos hgen] at hle
      omega
  cases r with
  | wait => trivial
  | signal f stm =>
    refine ⟨?_, h.2⟩
    rcases hf.cdread with hsame | ⟨hnone, -⟩
    · exact hsame.trans h.1
    · cases hnone.symm.trans h.1
  | event f stm => exact hended f rfl h
  | test f => exact hended f rfl h
  | callback f => exact hended f rfl h
  | count f => exact hended f rfl h
  | fill pc gen' =>
    refine ⟨h.1, fun hgen => ?_⟩
    rw [hd]
    cases pc <;> exact h.2 hgen

/-- **The sections of a fill**, whoever runs them. -/
theorem Inv.filled (h : Inv disc s) (hf : Filled s.read s.toDrive t) {x : Pc α} {r : Reader}
    (hheld : t.Held (Fill.owns s.gen) (x.owns + r.owns s.gen))
    (hpc : x.Inv disc t.d s.base s.delivered) (hr : r.Inv disc t.d s.buf t.cdread s.gen) :
    Inv disc { s with toDrive := t, pc := x, reader := r } := by
  obtain ⟨td, tc, ta⟩ := t
  obtain ⟨⟨b, rfl⟩, hcdread⟩ := hf
  refine ⟨h.ring.setReading b, h.delivered_eq, fun hstat => (h.stream hstat).setReading b,
    fun f hread => ?_, hheld, hpc, hr⟩
  have hread : tc = some f := hread
  rcases hcdread with hsame | ⟨-, hroom, hnew⟩
  · exact (h.flight f (hsame.symm.trans hread)).setReading b
  · cases hnew.symm.trans hread
    exact ⟨Nat.zero_le _, Nat.le_refl _, Or.inr ⟨rfl, rfl, hroom⟩,
      fun _ => ⟨rfl, rfl, rfl, hroom, fun j hj => absurd hj (Nat.not_lt_zero j)⟩⟩

end Filled

theorem Inv.callerFill (h : Inv disc s) {pc : FillPc} (hpc : s.pc = .fill pc)
    (hs : callerStep s = some s') : Inv disc s' := by
  have hheld := h.held
  have hinv := h.pc
  rw [hpc] at hheld hinv
  rw [Pc.owns, Nat.add_comm] at hheld
  obtain ⟨hfilled, hheld', hnext⟩ := Drive.fillStep_spec s.owns_read hheld hinv
  simp only [callerStep, hpc, Option.some.injEq] at hs
  subst hs
  generalize s.toDrive.fillStep s.read pc = x at hfilled hheld' hnext ⊢
  obtain ⟨t, pc'⟩ := x
  have howns : (Pc.ofFill pc' : Pc α).owns = ownsAt pc' := by cases pc' <;> rfl
  refine h.filled hfilled ?_ ?_ (h.reader.filled hfilled (Nat.add_comm _ (ownsAt pc') ▸ hheld'))
  · rw [howns, Nat.add_comm]
    exact hheld'
  · cases pc' with
    | none => trivial
    | some pc' => exact hnext pc' rfl

theorem Inv.readerFill (h : Inv disc s) {pc : FillPc} {gen : ℕ} (hr : s.reader = .fill pc gen)
    (hok : Event.reader.Ok s) (hs : readerStep disc s = some s') : Inv disc s' := by
  have hheld := h.held
  have hinv := h.reader
  rw [hr] at hheld hinv
  rw [Event.Ok, hr] at hok
  simp only [readerStep, hr, Option.some.injEq] at hs
  subst hs
  by_cases hvoid : gen = s.gen ∨ pc = .alloc ∨ pc = .reschedule
  · -- what the thread has of the flag is its own
    have howns : (Reader.fill pc gen).owns s.gen = pc.owns := by
      rcases hvoid with hgen | rfl | rfl
      · exact if_pos hgen
      · exact ite_self 0
      · exact ite_self 0
    have hpcinv : pc.Inv s.d := by
      rcases hvoid with hgen | rfl | rfl
      · exact hinv.2 hgen
      · trivial
      · trivial
    rw [howns] at hheld
    obtain ⟨hfilled, hheld', hnext⟩ := Drive.fillStep_spec s.owns_read hheld hpcinv
    have hlast : ∀ pc', (s.toDrive.fillStep s.read pc).2 = some pc' →
        (if pc = .alloc then s.gen else gen) = s.gen := by
      intro pc' hpc'
      rcases hvoid with hgen | rfl | rfl
      · rw [hgen, ite_self]
      · exact if_pos rfl
      · cases hpc'
    generalize s.toDrive.fillStep s.read pc = x at hfilled hheld' hnext hlast ⊢
    obtain ⟨t, pc'⟩ := x
    obtain ⟨b, hd⟩ := hfilled.d_eq
    refine h.filled hfilled ?_ (hd ▸ h.pc.setReading b) ?_
    · cases pc' with
      | none => exact hheld'
      | some pc' =>
        rw [Reader.ofFill, Reader.owns, if_pos (hlast pc' rfl)]
        exact hheld'
    · cases pc' with
      | none => trivial
      | some pc' => exact ⟨le_of_eq (hlast pc' rfl), fun _ => hnext pc' rfl⟩
  · -- void: the section changes nothing
    have hgen : gen ≠ s.gen := fun hgen => hvoid (Or.inl hgen)
    have hidle := hok.resolve_left hgen
    have howns : ∀ pc, (Reader.fill pc gen).owns s.gen = 0 := fun pc => if_neg hgen
    have hlt : gen < s.gen := lt_of_le_of_ne hinv.1 hgen
    have hsame : ∀ {x : Reader}, x.owns s.gen = 0 → x.Inv disc s.d s.buf s.cdread s.gen →
        Inv disc { s with reader := x } := by
      intro x hx hxinv
      refine ⟨h.ring, h.delivered_eq, h.stream, h.flight, ?_, h.pc, hxinv⟩
      rw [howns] at hheld
      rw [hx]
      exact hheld
    cases pc with
    | alloc => exact absurd (Or.inr (Or.inl rfl)) hvoid
    | reschedule => exact absurd (Or.inr (Or.inr rfl)) hvoid
    | async slot =>
      obtain ⟨f, hf⟩ := Option.isSome_iff_exists.mp hidle
      simp only [Drive.fillStep, hf]
      exact hsame (howns .failed) ⟨le_of_lt hlt, fun hc => absurd hc hgen⟩
    | failed =>
      have hflag : { s.d with stIsReading := false } = s.d := by
        rw [← (show s.d.stIsReading = false from hidle)]
      simp only [Drive.fillStep, hflag]
      exact hsame (howns .reschedule) ⟨le_of_lt hlt, fun _ => trivial⟩
    | full =>
      have hflag : { s.d with stIsReading := false } = s.d := by
        rw [← (show s.d.stIsReading = false from hidle)]
      simp only [Drive.fillStep, hflag]
      exact hsame rfl trivial

theorem Inv.alarm (h : Inv disc s) :
    Inv disc { s with toDrive := s.toDrive.stmScheduleCb s.read } := by
  obtain ⟨hfilled, hheld⟩ := Drive.stmScheduleCb_spec s.owns_read h.held
  obtain ⟨b, hd⟩ := hfilled.d_eq
  exact h.filled hfilled hheld (hd ▸ h.pc.setReading b) (h.reader.filled hfilled hheld)

/-! ### The reading thread -/

/-- The reading thread stores a sector. -/
theorem Inv.transfer (h : Inv disc s) (hr : s.reader = .wait) {f : Fill} (hf : s.cdread = some f)
    (hlt : f.done < f.sectors) :
    Inv disc { s with buf := Function.update s.buf (f.slot + f.done) (disc (u32 (f.lba + f.done)))
                      cdread := some { f with done := f.done + 1 } } := by
  have hfly := h.flight f hf
  have hheld := h.held
  rw [Drive.Held, Drive.flying, hf] at hheld
  refine ⟨h.ring, h.delivered_eq, fun hstat => ⟨(h.stream hstat).lsn_eq, ?_⟩, ?_, hheld, h.pc, ?_⟩
  · have hholds := (h.stream hstat).holds
    rcases hfly.free with hzero | hbehind
    · rw [hzero]
      exact Ring.holds_zero _ _ _ _
    · rw [hbehind.slot_eq]
      have hsec := hbehind.sectors_eq
      exact holds_update_bank h.ring hbehind.room hholds (by omega) _
  · rintro g ⟨⟩
    refine ⟨Nat.succ_le_of_lt hlt, hfly.gen_le, ?_, fun hgen => (hfly.current hgen).transfer⟩
    exact hfly.free.imp_right fun hb => ⟨hb.slot_eq, hb.sectors_eq, hb.room⟩
  · rw [hr]
    trivial

/-- A step of the reading thread that leaves the driver alone, and does not take the flag. -/
theorem Inv.moveReader (h : Inv disc s) {x : Reader} {ef : Bool}
    (hx : x.Inv disc s.d s.buf s.cdread s.gen) (howns : x.owns s.gen ≤ s.reader.owns s.gen) :
    Inv disc { s with intrEf := ef, reader := x } := by
  refine ⟨h.ring, h.delivered_eq, h.stream, h.flight, ?_, h.pc, hx⟩
  exact le_trans (Nat.add_le_add_left (Nat.add_le_add_left howns _) _) h.held

/-- `sync_flag` is given back: the fill is the reading thread's. -/
theorem Inv.signal (h : Inv disc s) {f : Fill} {stm : Bool} (hr : s.reader = .signal f stm) :
    Inv disc { s with cdread := none, reader := .event f stm } := by
  have hinv := h.reader
  have hheld := h.held
  rw [hr] at hinv hheld
  obtain ⟨hf, hdone⟩ := hinv
  have hfly := h.flight f hf
  rw [Drive.Held, Drive.flying, hf, Option.elim_some, Reader.owns] at hheld
  refine ⟨h.ring, h.delivered_eq, h.stream, (fun _ h => by cases h), ?_, h.pc, hfly.gen_le,
    fun _ => hdone, fun _ => rfl, hfly.current⟩
  change 0 + (s.pc.owns + f.owns s.gen) ≤ s.d.stIsReading.toNat
  omega

/-- What the caller relies on survives a bank that is counted in. -/
theorem Pc.Inv.grow {x : Pc α} {d d' : StreamingData} {base : ℕ} {delivered : List α}
    (h : x.Inv disc d base delivered) (hown : x.owns = 0) (hN : d'.stBufmax = d.stBufmax)
    (hrd : d'.stReadPtr = d.stReadPtr) (hst : d.stStreamed ≤ d'.stStreamed)
    (hstat : d'.stStat = d.stStat) : x.Inv disc d' base delivered := by
  cases x with
  | fill pc =>
    cases pc with
    | async slot => cases hown
    | _ => trivial
  | read r => exact ⟨hstat ▸ h.1, h.2⟩
  | copy r => exact ⟨hstat ▸ h.1, h.2⟩
  | dma r rdptr plan copied => exact ⟨hstat ▸ h.1, h.2.mono hN hrd hst⟩
  | _ => trivial

/-- **The callback** counts the bank in that the fill has filled. -/
theorem Inv.count (h : Inv disc s) {f : Fill} (hr : s.reader = .count f) (hgen : f.gen = s.gen) :
    Inv disc { s with d := stmCallbackCount s.d, reader := .fill .alloc s.gen } := by
  have hinv := h.reader
  have hle := h.held.le_one
  rw [hr] at hinv hle
  rw [Reader.owns, Fill.owns, if_pos hgen] at hle
  have hp := hinv.current hgen
  have hsec := stmCallbackCount_eq h.ring hp.room
  have hown : s.pc.owns = 0 := by omega
  refine ⟨h.ring.produce hp.room, h.delivered_eq, fun hstat => ?_, fun g hg => ?_, ?_, ?_,
    Nat.le_refl _, fun _ => trivial⟩
  · have hstat' : s.d.stStat = true := by simpa [hsec] using hstat
    exact (h.stream hstat').produce h.ring hp (hinv.done hgen)
  · have hg : s.cdread = some g := hg
    rw [hinv.alone hgen] at hg
    cases hg
  · change s.cdread.elim 0 (Fill.owns s.gen) +
      (s.pc.owns + if s.gen = s.gen then FillPc.alloc.owns else 0) ≤ _
    rw [hinv.alone hgen, hown, if_pos rfl]
    exact Nat.zero_le _
  · refine h.pc.grow hown ?_ ?_ ?_ ?_
    all_goals simp [hsec]

theorem Inv.readerStep (h : Inv disc s) (hok : Event.reader.Ok s)
    (hs : readerStep disc s = some s') : Inv disc s' := by
  have hinv := h.reader
  cases hr : s.reader with
  | wait =>
    simp only [Streaming.readerStep, hr] at hs
    split at hs
    case h_1 => cases hs
    case h_2 f hf =>
      split_ifs at hs with hlt
      · simp only [Option.some.injEq] at hs
        have htransfer := h.transfer hr hf hlt
        rw [hr] at htransfer
        exact hs ▸ htransfer
      · simp only [Option.some.injEq] at hs
        subst hs
        have hdone := (h.flight f hf).done_le
        exact h.moveReader ⟨hf, by omega⟩ (Nat.zero_le _)
  | signal f stm =>
    simp only [Streaming.readerStep, hr, Option.some.injEq] at hs
    exact hs ▸ h.signal hr
  | event f stm =>
    rw [hr] at hinv
    simp only [Streaming.readerStep, hr, Option.some.injEq] at hs
    subst hs
    cases stm with
    | true => exact h.moveReader hinv (by rw [hr]; exact Nat.le_refl _)
    | false => exact h.moveReader trivial (Nat.zero_le _)
  | test f =>
    rw [hr] at hinv
    simp only [Streaming.readerStep, hr, Option.some.injEq] at hs
    subst hs
    refine h.moveReader ?_ ?_
    · split_ifs
      · exact hinv
      · trivial
    · rw [hr]
      split_ifs
      · exact Nat.le_refl _
      · exact Nat.zero_le _
  | callback f =>
    rw [hr] at hinv
    simp only [Streaming.readerStep, hr, Option.some.injEq] at hs
    subst hs
    refine h.moveReader ?_ ?_
    · split_ifs
      · exact hinv
      · exact ⟨Nat.le_refl _, fun _ => trivial⟩
    · rw [hr]
      split_ifs
      · exact Nat.le_refl _
      · simp only [Reader.owns, FillPc.owns, ite_self, Nat.zero_le]
  | count f =>
    simp only [Streaming.readerStep, hr, Option.some.injEq] at hs
    rw [Event.Ok, hr] at hok
    exact hs ▸ h.count hr hok
  | fill pc gen => exact h.readerFill hr hok hs

/-! ### The calling thread -/

/-- A step of the caller that leaves the driver alone. -/
theorem Inv.moveCaller (h : Inv disc s) {x : Pc α} {cb ef al : Bool}
    (hx : x.Inv disc s.d s.base s.delivered) (howns : x.owns = 0) :
    Inv disc { s with alarm := al, stm0Callback := cb, intrEf := ef, pc := x } := by
  refine ⟨h.ring, h.delivered_eq, h.stream, h.flight, ?_, hx, h.reader⟩
  have hheld := h.held
  simp only [Drive.Held, howns] at hheld ⊢
  change s.toDrive.flying (Fill.owns s.gen) + (0 + s.reader.owns s.gen) ≤ s.d.stIsReading.toNat
  omega

/-- **Taking `StIsReading` back**: what anyone has of it is void. -/
theorem Inv.takeBack (h : Inv disc s) {d : StreamingData} {cb : Bool} {x : Pc α} {base : ℕ}
    {delivered : List α} (hring : RingInv d) (hflag : d.stIsReading = false)
    (hdel : delivered = (List.range delivered.length).map (streamSector disc base))
    (hstream : d.stStat = true → Stream disc d s.buf base delivered)
    (hfree : ∀ f, s.cdread = some f → d.stStreamed = 0 ∨ Behind d f.toCdRead)
    (hpc : x.Inv disc d base delivered) (howns : x.owns = 0) :
    Inv disc { s with d := d, stm0Callback := cb, pc := x, base := base, delivered := delivered,
                      gen := s.gen + 1 } := by
  have hne : ∀ {g}, g ≤ s.gen → g ≠ s.gen + 1 := fun hg => Nat.ne_of_lt (Nat.lt_succ_of_le hg)
  refine ⟨hring, hdel, hstream, fun f hf => ?_, ?_, hpc, ?_⟩
  · have hfly := h.flight f hf
    exact ⟨hfly.done_le, Nat.le_succ_of_le hfly.gen_le, hfree f hf,
      fun hgen => absurd hgen (hne hfly.gen_le)⟩
  · have hflying : s.toDrive.flying (Fill.owns (s.gen + 1)) = 0 := by
      rw [Drive.flying]
      cases hf : s.cdread with
      | none => rfl
      | some f => exact if_neg (hne (h.flight f hf).gen_le)
    have hreader : s.reader.owns (s.gen + 1) = 0 := by
      have hinv := h.reader
      cases hr : s.reader with
      | wait => rfl
      | signal f stm => rfl
      | event f stm => rw [hr] at hinv; exact if_neg (hne hinv.gen_le)
      | test f => rw [hr] at hinv; exact if_neg (hne hinv.gen_le)
      | callback f => rw [hr] at hinv; exact if_neg (hne hinv.gen_le)
      | count f => rw [hr] at hinv; exact if_neg (hne hinv.gen_le)
      | fill pc gen => rw [hr] at hinv; exact if_neg (hne hinv.1)
    change s.toDrive.flying (Fill.owns (s.gen + 1)) +
      (x.owns + s.reader.owns (s.gen + 1)) ≤ d.stIsReading.toNat
    rw [hflying, hreader, howns, hflag]
    exact Nat.le_refl 0
  · refine h.reader.imp (fun f he => ?_) fun gen pc hfill => ?_
    · exact ⟨Nat.le_succ_of_le he.gen_le, fun hgen => absurd hgen (hne he.gen_le),
        fun hgen => absurd hgen (hne he.gen_le), fun hgen => absurd hgen (hne he.gen_le)⟩
    · exact ⟨Nat.le_succ_of_le hfill.1, fun hgen => absurd hgen (hne hfill.1)⟩

theorem Inv.call (h : Inv disc s) {c : Call} (hc : c.Ok) : Inv disc (callStep s c) := by
  cases hstat : s.d.stStat with
  | false =>
    cases c with
    | stStart lsn =>
      simp only [callStep, hstat, Bool.false_eq_true, if_false]
      exact h.moveCaller trivial rfl
    | _ => simpa only [callStep, hstat, Bool.false_eq_true, if_false] using h
  | true =>
    cases c with
    | stRead sectors mode ee =>
      simp only [callStep, hstat, if_true]
      refine h.moveCaller ⟨hstat, ?_⟩ rfl
      have hlt : sectors < 2147483648 := hc
      simp only [intOfU32, u32]
      omega
    | stResume =>
      simp only [callStep, hstat, if_true]
      exact h.moveCaller trivial rfl
    | _ =>
      simp only [callStep, hstat, if_true]
      exact h.moveCaller trivial rfl

/-- After a turn of the loop the caller is at the loop head again, or on its way to the fill. -/
theorem inv_readNext {d : StreamingData} {base : ℕ} {delivered : List α} {r : ReadCall} {m : ℕ}
    (hstat : d.stStat = true) (hm : 0 ≤ r.sectorsToRead - m) :
    (readNext r m : Pc α).Inv disc d base delivered := by
  rw [readNext]
  split_ifs
  · trivial
  · exact ⟨hstat, hm⟩

theorem owns_readNext (r : ReadCall) (m : ℕ) : (readNext r m : Pc α).owns = 0 := by
  rw [readNext]
  split_ifs <;> rfl

/-- Handing over the first `m` sectors of the window. -/
theorem Inv.consume (h : Inv disc s) (hstat : s.d.stStat = true) (hown : s.pc.owns = 0) {m : ℕ}
    (hm : m ≤ s.d.stStreamed) {copied : List α} (hcopied : copied = (List.range m).map fun i =>
      streamSector disc s.base (s.delivered.length + i)) {r : ReadCall}
    (hleft : 0 ≤ r.sectorsToRead - m) :
    Inv disc { s with
      d := { s.d with stReadPtr := (s.d.stReadPtr + m) % s.d.stBufmax
                      stStreamed := s.d.stStreamed - m }
      delivered := s.delivered ++ copied
      pc := readNext r m } := by
  have hlen : copied.length = m := by simp [hcopied]
  have hbehind : ∀ f, Behind s.d f →
      Behind { s.d with stReadPtr := (s.d.stReadPtr + m) % s.d.stBufmax
                        stStreamed := s.d.stStreamed - m } f := fun f hb =>
    ⟨hb.slot_eq, hb.sectors_eq, by have := hb.room; simp only; omega⟩
  have hpending : ∀ f, Pending disc s.d s.buf f →
      Pending disc { s.d with stReadPtr := (s.d.stReadPtr + m) % s.d.stBufmax
                              stStreamed := s.d.stStreamed - m } s.buf f := fun f hp =>
    ⟨hp.lba_eq, hp.slot_eq, hp.sectors_eq, (hbehind f hp.behind).room, hp.stored⟩
  refine ⟨h.ring.consume hm, delivered_append h.delivered_eq hcopied,
    fun _ => (h.stream hstat).consume hm hlen, fun f hf => ?_, ?_, inv_readNext hstat hleft, ?_⟩
  · have hfly := h.flight f hf
    refine ⟨hfly.done_le, hfly.gen_le, ?_, fun hgen => hpending _ (hfly.current hgen)⟩
    rcases hfly.free with hzero | hb
    · exact Or.inl (by simp only; omega)
    · exact Or.inr (hbehind _ hb)
  · have hheld := h.held
    rw [hown] at hheld
    simp only [owns_readNext]
    exact hheld
  · refine h.reader.imp (fun f he => ?_) fun gen pc hfill => ?_
    · exact ⟨he.gen_le, he.done, he.alone, fun hgen => hpending _ (he.current hgen)⟩
    · refine ⟨hfill.1, fun hgen => ?_⟩
      cases pc with
      | async slot =>
        obtain ⟨hslot, hroom⟩ := hfill.2 hgen
        exact ⟨hslot, by simp only; omega⟩
      | _ => trivial

theorem Inv.copy (h : Inv disc s) {r : ReadCall} (hpc : s.pc = .copy r) :
    Inv disc (copyStep s r) := by
  have hown : s.pc.owns = 0 := by rw [hpc]; rfl
  have hp := h.pc
  rw [hpc] at hp
  obtain ⟨hstat, hwant⟩ := hp
  obtain ⟨m, hm⟩ := Int.eq_ofNat_of_zero_le hwant
  have hmin : min m s.d.stStreamed ≤ s.d.stStreamed := min_le_right _ _
  have hread := readSectors_eq h.ring m
  have hleft : 0 ≤ r.sectorsToRead - (min m s.d.stStreamed : ℕ) := by omega
  rw [copyStep]
  split_ifs with hee
  · -- EE destination: the DMA list is the front of the window
    rw [readSectorsEE_eq_readSectors, hm, hread]
    simp only
    split_ifs with hplan
    · exact h.moveCaller (inv_readNext hstat (by simpa using hwant)) (owns_readNext r 0)
    · exact h.moveCaller ⟨hstat, .ofSlots hmin hleft⟩ rfl
  · -- IOP destination: handed over in one section
    rw [hm, hread]
    simp only [Ring.length_slots]
    exact h.consume hstat hown hmin ((h.stream hstat).holds.map_slots hmin) hleft

theorem Inv.dma (h : Inv disc s) {r : ReadCall} {rdptr : ℕ} {plan : List ℕ} {copied : List α}
    (hpc : s.pc = .dma r rdptr plan copied) (hs : callerStep s = some s') : Inv disc s' := by
  have hown : s.pc.owns = 0 := by rw [hpc]; rfl
  have hp := h.pc
  rw [hpc] at hp
  obtain ⟨hstat, hd⟩ := hp
  cases plan with
  | cons slot rest =>
    simp only [Streaming.callerStep, hpc, Option.some.injEq] at hs
    subst hs
    exact h.moveCaller ⟨hstat, hd.copy (h.stream hstat)⟩ rfl
  | nil =>
    simp only [Streaming.callerStep, hpc, Option.some.injEq] at hs
    subst hs
    have hle : copied.length ≤ s.d.stStreamed := by simpa using hd.le
    have hlt := h.ring.lt
    have hst := h.ring.streamed_le
    have hrd : rdptr = (s.d.stReadPtr + copied.length) % s.d.stBufmax := by
      simpa using hd.rdptr_eq
    rw [readSectorsEECommit, u16OfInt_sub hle (by omega), hrd]
    exact h.consume hstat hown hle hd.copied_eq (by simpa using hd.wanted)

theorem Inv.callerStep (h : Inv disc s) (hs : callerStep s = some s') : Inv disc s' := by
  cases hpc : s.pc with
  | idle => simp [Streaming.callerStep, hpc] at hs
  | stop next =>
    simp only [Streaming.callerStep, hpc, Option.some.injEq] at hs
    subst hs
    exact h.takeBack (h.ring.reset rfl rfl) rfl h.delivered_eq (fun hstat => by
      simp [stReset] at hstat) (fun _ _ => Or.inl rfl) trivial rfl
  | pause =>
    simp only [Streaming.callerStep, hpc, Option.some.injEq] at hs
    subst hs
    refine h.takeBack (h.ring.setReading false) rfl h.delivered_eq
      (fun hstat => (h.stream hstat).setReading false) (fun f hf => ?_) trivial rfl
    exact (h.flight f hf).free.imp_right fun hb => ⟨hb.slot_eq, hb.sectors_eq, hb.room⟩
  | sync next =>
    simp only [Streaming.callerStep, hpc] at hs
    split at hs
    · cases hs
    · cases hs
      cases next with
      | none => exact h.moveCaller trivial rfl
      | some lsn => exact h.moveCaller trivial rfl
  | start lsn =>
    simp only [Streaming.callerStep, hpc, Option.some.injEq] at hs
    subst hs
    exact h.takeBack (h.ring.reset rfl rfl) rfl rfl
      (fun _ => .empty (u32_u32 lsn).symm rfl) (fun _ _ => Or.inl rfl) trivial rfl
  | fill pc => exact h.callerFill hpc hs
  | read r =>
    have hp := h.pc
    rw [hpc] at hp
    simp only [Streaming.callerStep, hpc] at hs
    split_ifs at hs
    · cases hs
      exact h.moveCaller hp rfl
    · cases hs
      exact h.moveCaller trivial rfl
  | copy r =>
    simp only [Streaming.callerStep, hpc, Option.some.injEq] at hs
    exact hs ▸ h.copy hpc
  | dma r rdptr plan copied => exact h.dma hpc hs

/-! ### Runs -/

/-- **One step.** -/
theorem Inv.step (h : Inv disc s) {e : Event} (he : e.Ok s) (hs : step disc s e = some s') :
    Inv disc s' := by
  cases e with
  | call c =>
    simp only [Streaming.step] at hs
    split at hs
    case h_1 hpc =>
      cases hs
      exact h.call he
    case h_2 => cases hs
  | caller => exact h.callerStep hs
  | reader => exact h.readerStep he hs
  | alarm =>
    simp only [Streaming.step] at hs
    split_ifs at hs with hal
    cases hs
    exact h.alarm

theorem Inv.init {bufmax bankmax : ℕ} {d d₀ : StreamingData} (hring : RingOk bufmax bankmax)
    (hstat : d₀.stStat = false) (hinit : sceCdStInit bufmax bankmax d₀ = some d) (buf : ℕ → α) :
    Inv disc (initState d buf) := by
  have hringInv := ringInv_of_init hring hinit
  rw [sceCdStInit] at hinit
  split_ifs at hinit
  cases hinit
  refine ⟨hringInv, rfl, fun hst => ?_, (fun _ h => by cases h), Nat.zero_le _, trivial, trivial⟩
  simp [initState, stReset, hstat] at hst

/-- **The stream is the disc, in order.** In every state of every run after a `sceCdStInit` that
lays out a proper ring, in which the reading thread never goes on with a `StIsReading` that a stop,
a pause or a start has taken back, the counters describe a window of the ring, `stlsn` is the next
sector to be handed over plus the number of sectors in the ring, and what the reads since the last
start or seek have handed over is the disc from its sector on: nothing lost, repeated or
overwritten. -/
theorem stream_in_order (disc buf : ℕ → α) {bufmax bankmax : ℕ} (hring : RingOk bufmax bankmax)
    {d : StreamingData} (hinit : sceCdStInit bufmax bankmax .zero = some d) (es : List Event)
    (hok : Transition.RunOk (step disc) Event.Ok (initState d buf) es) {s : State α}
    (hrun : run disc (initState d buf) es = some s) :
    s.d.stStreamed ≤ s.d.stBufmax ∧ s.d.stReadPtr < s.d.stBufmax ∧ s.d.stWritePtr < s.d.stBufmax ∧
      (s.d.stWritePtr : ℤ) - s.d.stReadPtr ≡ s.d.stStreamed [ZMOD s.d.stBufmax] ∧
      (s.d.stStat = true →
        s.d.stlsn = u32 (u32 (s.base + s.delivered.length) + s.d.stStreamed)) ∧
      s.delivered = (List.range s.delivered.length).map fun i => disc (u32 (s.base + i)) := by
  have h : Inv disc s :=
    Transition.run_invariant_of_runOk (fun _ _ _ hs he hstep => hs.step he hstep)
      (Inv.init hring rfl hinit buf) hok hrun
  refine ⟨h.ring.streamed_le, h.ring.read_lt, h.ring.write_lt, ?_, fun hstat => ?_, h.delivered_eq⟩
  · rcases h.ring.write_cases with ⟨-, hw⟩ | ⟨-, hw⟩
    · rw [hw]
      push_cast
      rw [add_sub_cancel_left]
    · refine Int.modEq_iff_dvd.mpr ⟨1, ?_⟩
      omega
  · rw [u32_add_u32]
    exact (h.stream hstat).lsn_eq

/-- A ring of two banks of two sectors, started at sector 16. A seek to sector 100 comes while the
second bank is filled; then both banks are filled, and three sectors are read at a time, first to
the IOP and then to the EE. -/
def twoBankRun : List Event :=
  [Event.call (.stStart 16), .caller, .caller, .caller] ++ List.replicate 11 Event.reader ++
    [Event.call (.stSeek 100), .caller] ++ List.replicate 4 Event.reader ++
    [Event.caller, .caller, .caller, .caller] ++ List.replicate 20 Event.reader ++
    [Event.call (.stRead 3 0 false), .caller, .caller, .caller, .caller] ++
    [Event.call (.stRead 3 0 true), .caller, .caller, .caller, .caller]

theorem stream_in_order_two_banks :
    ∃ s, run (fun lsn => lsn) (initState ⟨4, 2, 2, 0, 0, 0, false, false, 0⟩ fun _ => 0) twoBankRun
        = some s ∧ s.base = 100 ∧ s.delivered.length = 4 ∧
      s.delivered = (List.range s.delivered.length).map fun i => u32 (s.base + i) := by
  have hinit : sceCdStInit 4 2 .zero = some ⟨4, 2, 2, 0, 0, 0, false, false, 0⟩ := rfl
  have hend : (run (fun lsn => lsn) (initState ⟨4, 2, 2, 0, 0, 0, false, false, 0⟩ fun _ => 0)
      twoBankRun).map (fun s => (s.base, s.delivered.length)) = some (100, 4) := by
    decide
  obtain ⟨s, hrun, hend⟩ := Option.map_eq_some_iff.mp hend
  obtain ⟨hbase, hlength⟩ := Prod.mk.inj hend
  exact ⟨s, hrun, hbase, hlength, (stream_in_order (fun lsn => lsn) (fun _ => 0)
    (show RingOk 4 2 by decide) hinit twoBankRun (by decide) hrun).2.2.2.2.2⟩

/-- The first bank of a stream at sector 16 is full, and `sync_flag` is given back, when the game
seeks to sector 100. The seek has nothing to wait for, and sets `StIsReading` for the new fill; then
the callback of the old one counts a bank in, and `sceCdStRead` hands over sectors 16 and 17. -/
def seekRun : List Event :=
  [.call (.stStart 16), .caller, .caller, .caller, .reader, .reader, .reader, .reader,
    .call (.stSeek 100), .caller, .caller, .caller, .caller, .caller, .reader, .reader, .reader,
    .reader, .call (.stRead 2 0 false), .caller, .caller]

theorem not_stream_in_order :
    ∃ s, run (fun lsn => lsn) (initState ⟨4, 2, 2, 0, 0, 0, false, false, 0⟩ fun _ => 99) seekRun =
        some s ∧ sceCdStInit 4 2 .zero = some ⟨4, 2, 2, 0, 0, 0, false, false, 0⟩ ∧
      s.base = 100 ∧ s.delivered = [16, 17] ∧
      s.delivered ≠ (List.range s.delivered.length).map fun i => u32 (s.base + i) :=
  ⟨_, rfl, rfl, rfl, rfl, by decide⟩

end Streaming

end OpenPS2Loader
