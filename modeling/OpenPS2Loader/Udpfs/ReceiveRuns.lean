import OpenPS2Loader.Udpfs.Receive

/-!
# What the receiver has, over runs

From `udprdma_create` on, whatever the order is in which packets arrive, the alarm fires and the
caller goes on.

## Main results

* `Udprdma.run_delivers` — the buffer has the data of the peer, in order and once; what is sent
  acknowledges what was taken before
* `Udprdma.run_progress` — packets that arrive in order are taken
* `Udprdma.run_frame` — nothing else is written
-/

namespace OpenPS2Loader

namespace Udprdma

open Bytes

variable {P : Peer} {g : Track} {m : Mem} {dmaMaxBlockSize : ℕ}

/-- After `udprdma_create`. -/
def World.initial (port serviceId : ℕ) (m : Mem) : World :=
  ⟨create port serviceId, m, .idle 0, false, []⟩

/-- No packet was taken. -/
def Track.initial : Track := ⟨0, 0, 0, 0, []⟩

theorem inv_initial (P : Peer) (port serviceId : ℕ) (m : Mem) :
    Inv P (World.initial port serviceId m, Track.initial) where
  expected := rfl
  start_le := Nat.le_refl 0
  fine := trivial
  holding _ := by
    have hreceived : Track.received P Track.initial = [] := List.take_zero
    refine ⟨fun _ hb => ?_, rfl, ?_, ?_⟩
    · cases hb
    · rw [hreceived]
      rfl
    · rw [hreceived]
      rfl
  complete _ hs := by
    rcases hs with hs | hs
    · exact absurd hs Bool.false_ne_true
    · exact absurd hs Bool.false_ne_true
  acks := ⟨.nil, .nil, fun _ ha => absurd ha List.not_mem_nil⟩

/-- What holds in every state of a run. -/
structure Delivered (P : Peer) (x : World × Track) : Prop where
  /-- the next number is that of the next position -/
  expected : x.1.socket.rxSeqNrExpected = x.2.accepted % 2 ^ 12
  /-- the buffer has the data of the packets that were taken since the transfer started -/
  holding : x.1.pc.settled = true → Holding P x.1.socket x.1.mem x.2
  /-- what `udprdma_recv` returns is complete -/
  complete : x.1.pc = .recvResult → x.2.Complete P
  /-- each packet that was sent is for those that had been taken when it was sent -/
  acks : Acked x.2 x.1.sent

theorem Inv.delivered {x : World × Track} (h : Inv P x) : Delivered P x where
  expected := h.expected
  holding := h.holding
  complete hpc := h.complete (by rw [hpc]; rfl) (.inr (by rw [hpc]; rfl))
  acks := h.acks

/-- **Delivery.** Packets are lost, repeated and reordered, the threads take turns in any way: the
buffer of the transfer has the data of consecutive packets of the peer, each once, and `rx_received`
counts it. Each acknowledgement is for the packets that were taken before it was sent. When
`udprdma_recv` returns, the peer has said that this is all, or the buffer is full. -/
theorem run_delivers (P : Peer) (port serviceId : ℕ) (m : Mem) {es : List Input}
    {x : World × Track}
    (hok : Transition.RunOk (trackedStep dmaMaxBlockSize P) Ok
      (World.initial port serviceId m, Track.initial) es)
    (hrun : Transition.run (trackedStep dmaMaxBlockSize P)
      (World.initial port serviceId m, Track.initial) es = some x) : Delivered P x :=
  (Transition.run_invariant_of_runOk (fun _ _ _ h hok hx => h.step hok hx)
    (inv_initial P port serviceId m) hok hrun).delivered

/-- A peer that sends two bytes in a packet, and three packets at a time. -/
def twoBytes : Peer where
  fin i := i % 3 == 2
  header _ := []
  data i := [UInt8.ofNat (2 * i), UInt8.ofNat (2 * i + 1)]
  payload _ := by simp
  header_le _ := Nat.zero_le _
  even _ := by simp

/-- The caller goes on, `n` times. -/
def goOn (n : ℕ) : List Input := List.replicate n (.other .advance)

/-- `udprdma_discover`, and a transfer of six bytes to address 100: the first packet comes twice,
and the third one before the second, which is asked for. -/
def sixBytes : List Input :=
  List.flatten [[.other (.call .discover)], goOn 2, [.other (.packet (.inform 7 1 2))], goOn 3,
    [.other (.call (.setRxBuffer 100 6))], goOn 5,
    [.arrives 0 0 false, .arrives 0 0 false, .arrives 2 0 false, .other (.call (.recv 100 6))],
    goOn 4, [.arrives 1 0 false, .arrives 2 0 false], goOn 4]

theorem run_delivers_sixBytes : ∃ x,
    Transition.run (trackedStep 512 twoBytes) (World.initial 0 7 fun _ => 0, Track.initial)
      sixBytes = some x ∧
    slice x.1.mem 100 7 = [0, 1, 2, 3, 4, 5, 0] ∧ x.2.sentAt = [0, 1, 3] ∧
    x.1.sent = [.discovery, .ack false 0 1, .ack true 0 2] ∧ Delivered twoBytes x := by
  have hok : Transition.RunOk (trackedStep 512 twoBytes) Ok
      (World.initial 0 7 fun _ => 0, Track.initial) sixBytes := by decide
  have hends : (Transition.run (trackedStep 512 twoBytes)
      (World.initial 0 7 fun _ => 0, Track.initial) sixBytes).map
        (fun x => (slice x.1.mem 100 7, x.2.sentAt, x.1.sent)) =
      some ([0, 1, 2, 3, 4, 5, 0], [0, 1, 3], [.discovery, .ack false 0 1, .ack true 0 2]) := by
    decide
  obtain ⟨x, hx, hends⟩ := Option.map_eq_some_iff.mp hends
  obtain ⟨hslice, hends⟩ := Prod.mk.inj hends
  obtain ⟨hat, hsent⟩ := Prod.mk.inj hends
  exact ⟨x, hx, hslice, hat, hsent, run_delivers twoBytes 0 7 (fun _ => 0) hok hx⟩

/-! ### Progress -/

/-- The positions of the packets that arrive. -/
def Input.position : Input → Option ℕ
  | .arrives i _ _ => some i
  | .other _ => none

/-- A packet arrives when there is a buffer. -/
def Listening (x : World × Track) (e : Input) : Prop :=
  e.position.isSome = true → x.1.socket.rxBuffer.isSome = true

instance (x : World × Track) : DecidablePred (Listening x) :=
  fun e => inferInstanceAs (Decidable (e.position.isSome = true → _))

theorem accepted_next {x : World × Track} {e : Input} (h : Listening x e) :
    (x.2.next x.1 e).accepted = InOrder.advance x.2.accepted e.position.toList := by
  obtain ⟨w, g⟩ := x
  cases e with
  | arrives i seqNrAck ack =>
    have h : w.socket.rxBuffer.isSome = true := h rfl
    rw [Track.next]
    change _ = InOrder.advance g.accepted [i]
    by_cases hi : i = g.accepted
    · rw [if_pos ⟨hi, h⟩, hi, InOrder.advance_cons_self]
      rfl
    · rw [if_neg fun hh => hi hh.1, InOrder.advance_cons_of_ne hi]
      rfl
  | other e =>
    cases e with
    | advance =>
      rw [Track.next]
      split <;> rfl
    | packet p => rfl
    | alarm => rfl
    | call c => rfl

theorem run_accepted {x x' : World × Track} {es : List Input}
    (hlisten : Transition.RunOk (trackedStep dmaMaxBlockSize P) Listening x es)
    (hrun : Transition.run (trackedStep dmaMaxBlockSize P) x es = some x') :
    x'.2.accepted = InOrder.advance x.2.accepted (es.filterMap Input.position) := by
  induction es generalizing x with
  | nil =>
    cases hrun
    rfl
  | cons e es ih =>
    obtain ⟨x₁, hx₁, hrest⟩ := Transition.run_cons_eq_some.mp hrun
    rw [Transition.runOk_cons_of_eq_some hx₁] at hlisten
    obtain ⟨w₁, -, rfl⟩ := Option.map_eq_some_iff.mp hx₁
    have hnext := accepted_next (x := (x.1, x.2.record x.1 w₁)) hlisten.1
    rw [ih hlisten.2 hrest, hnext, Track.record, ← InOrder.advance_append]
    congr 1
    rcases hposition : e.position with - | i
    · rw [List.filterMap_cons_none hposition]
      rfl
    · rw [List.filterMap_cons_some hposition]
      rfl

/-- **Progress.** When packets arrive in order, whatever arrives between them, while there is a
buffer, they are taken. -/
theorem run_progress (P : Peer) (port serviceId : ℕ) (m : Mem) {es fs : List Input}
    {x x' : World × Track} {n : ℕ}
    (hok : Transition.RunOk (trackedStep dmaMaxBlockSize P) Ok
      (World.initial port serviceId m, Track.initial) (es ++ fs))
    (hes : Transition.run (trackedStep dmaMaxBlockSize P)
      (World.initial port serviceId m, Track.initial) es = some x)
    (hlisten : Transition.RunOk (trackedStep dmaMaxBlockSize P) Listening x fs)
    (hfs : Transition.run (trackedStep dmaMaxBlockSize P) x fs = some x')
    (harrive : (List.range' x.2.accepted n).Sublist (fs.filterMap Input.position)) :
    x.2.accepted + n ≤ x'.2.accepted ∧ Delivered P x' := by
  refine ⟨?_, run_delivers P port serviceId m hok ?_⟩
  · rw [run_accepted hlisten hfs]
    exact InOrder.add_le_advance harrive
  · rw [Transition.run_append, hes]
    exact hfs

/-- The three packets come with repetitions, and one before its turn. -/
theorem run_progress_threePackets : ∃ x x',
    Transition.run (trackedStep 512 twoBytes) (World.initial 0 7 fun _ => 0, Track.initial)
      (.other (.call (.setRxBuffer 100 6)) :: goOn 5) = some x ∧
    Transition.run (trackedStep 512 twoBytes) x ([0, 0, 2, 1, 2].map (.arrives · 0 false)) =
      some x' ∧
    x.2.accepted + 3 ≤ x'.2.accepted ∧ Delivered twoBytes x' := by
  have hok : Transition.RunOk (trackedStep 512 twoBytes) Ok
      (World.initial 0 7 fun _ => 0, Track.initial)
      ((.other (.call (.setRxBuffer 100 6)) :: goOn 5) ++
        [0, 0, 2, 1, 2].map (.arrives · 0 false)) := by decide
  have hlisten : ∀ x ∈ Transition.run (trackedStep 512 twoBytes)
      (World.initial 0 7 fun _ => 0, Track.initial)
      (.other (.call (.setRxBuffer 100 6)) :: goOn 5),
      Transition.RunOk (trackedStep 512 twoBytes) Listening x
        ([0, 0, 2, 1, 2].map (.arrives · 0 false)) ∧
      (Transition.run (trackedStep 512 twoBytes) x
        ([0, 0, 2, 1, 2].map (.arrives · 0 false))).isSome ∧
      (List.range' x.2.accepted 3).Sublist
        (([0, 0, 2, 1, 2].map (.arrives · 0 false)).filterMap Input.position) := by decide
  have hrun : (Transition.run (trackedStep 512 twoBytes)
      (World.initial 0 7 fun _ => 0, Track.initial)
      (.other (.call (.setRxBuffer 100 6)) :: goOn 5)).isSome := by decide
  obtain ⟨x, hx⟩ := Option.isSome_iff_exists.mp hrun
  obtain ⟨hlistens, hsome, harrive⟩ := hlisten x hx
  obtain ⟨x', hx'⟩ := Option.isSome_iff_exists.mp hsome
  exact ⟨x, x', hx, hx', run_progress twoBytes 0 7 (fun _ => 0) hok hx hlistens hx' harrive⟩

/-! ### The rest of memory -/

variable {s s' : Socket} {m' : Mem} {a : ℕ}

/-- The address is in no buffer of the socket. Without a buffer for data there is none. -/
def Socket.Avoids (s : Socket) (a : ℕ) : Prop :=
  ∀ b ∈ s.rxBuffer, (a < b ∨ b + s.rxBufferSize ≤ a) ∧
    ∀ dst ∈ s.rxHdrBuffer, a < dst ∨ dst + maxAppHdr ≤ a

instance (s : Socket) (a : ℕ) : Decidable (s.Avoids a) :=
  inferInstanceAs (Decidable (∀ b ∈ s.rxBuffer, _))

theorem smapFifoRead_of_apart (dmaMaxBlockSize : ℕ) (m : Mem) {dst : ℕ} {l : List UInt8}
    (h : a < dst ∨ dst + l.length ≤ a) : smapFifoRead dmaMaxBlockSize m dst l a = m a := by
  refine write_of_apart m _ ?_
  rw [List.length_take]
  omega

/-- A packet writes into the buffers only. -/
theorem mem_ist {seqNr seqNrAck : ℕ} {ack fin : Bool} {header data : List UInt8}
    (hheader : header.length ≤ maxAppHdr) (hroom : s.rxReceived ≤ s.rxBufferSize)
    (havoid : s.Avoids a)
    (h : s.ist dmaMaxBlockSize m (.data seqNr seqNrAck ack fin header data) = some (s', m')) :
    m' a = m a := by
  obtain ⟨hsame, hhdr, -⟩ := s.same_acked seqNrAck ack
  rw [Socket.ist] at h
  rw [← hsame.rxReceived, ← hsame.rxBufferSize] at hroom
  have havoid' : (s.acked seqNrAck ack).Avoids a := by
    rw [Socket.Avoids, hsame.rxBuffer, hsame.rxBufferSize, hhdr]
    exact havoid
  generalize s.acked seqNrAck ack = s at hroom havoid' h
  by_cases hpayload : header.length + data.length = 0
  · rw [Socket.payload, if_pos hpayload] at h
    cases h
    rfl
  rcases hbuffer : s.rxBuffer with - | b
  · rw [Socket.payload, if_neg hpayload] at h
    simp only [hbuffer, Option.some.injEq, Prod.mk.injEq] at h
    rw [h.2]
  · by_cases hseq : seqNr = s.rxSeqNrExpected
    · obtain ⟨n, m₁, htaken, hm₁⟩ := s.payload_self dmaMaxBlockSize m fin hbuffer hseq
        (Nat.pos_of_ne_zero hpayload) hheader
      have hfirst : m₁ a = m a := by
        obtain rfl | ⟨dst, hdst, rfl⟩ := hm₁
        · rfl
        · exact smapFifoRead_of_apart _ _ (((havoid' b hbuffer).2 dst hdst).imp_right (by omega))
      rw [htaken] at h
      simp only [Option.some.injEq, Prod.mk.injEq] at h
      rw [← h.2, ← hfirst]
      refine smapFifoRead_of_apart _ _ ((havoid' b hbuffer).1.imp ?_ ?_)
      · exact fun hlt => Nat.lt_of_lt_of_le hlt (Nat.le_add_right _ _)
      · intro hle
        rw [List.length_take, Socket.remaining, if_pos hroom]
        dsimp only
        omega
    · rw [Socket.payload, if_neg hpayload] at h
      simp only [hbuffer, if_neg hseq, Option.some.injEq, Prod.mk.injEq] at h
      rw [h.2]

/-- The caller writes nothing. -/
theorem mem_advance {w w' : World} (h : w.advance = some w') : w'.mem = w.mem := by
  rw [World.advance] at h
  split at h
  next => cases h
  all_goals first
    | (cases h; rfl)
    | (split_ifs at h; cases h; rfl)
    | (obtain rfl := Option.some.inj h; split_ifs <;> rfl)

theorem mem_call (w : World) (c : Call) : (w.call c).mem = w.mem := by
  cases c with
  | setRxBuffer buffer size => rfl
  | setRxAppHeader buffer => rfl
  | discover => rfl
  | send data size =>
    rw [World.call]
    split_ifs <;> rfl
  | sendLl header data size =>
    rw [World.call]
    split_ifs <;> rfl
  | recv buffer size =>
    rw [World.call]
    split_ifs <;> rfl

theorem mem_step {x x' : World × Track} (h : Inv P x) {e : Input} (hok : Ok x e)
    (havoid : e.position.isSome → x.1.socket.Avoids a)
    (hx : trackedStep dmaMaxBlockSize P x e = some x') : x'.1.mem a = x.1.mem a := by
  obtain ⟨w, g⟩ := x
  obtain ⟨w', hw, rfl⟩ := Option.map_eq_some_iff.mp hx
  cases e with
  | arrives i seqNrAck ack =>
    obtain ⟨hnear, hnear', htaken⟩ := hok
    have hexpected : w.socket.rxSeqNrExpected = g.accepted % 2 ^ 12 := h.expected
    obtain ⟨⟨s', m'⟩, hist, rfl⟩ := Option.map_eq_some_iff.mp hw
    by_cases hi : i = g.accepted
    · have hheld := h.holding (htaken hi).1
      refine mem_ist (P.header_le i) ?_ (havoid rfl) hist
      rw [hheld.received, hheld.size]
      exact List.length_take_le _ _
    · have hne : i % 2 ^ 12 ≠ w.socket.rxSeqNrExpected := by
        rw [hexpected]
        exact fun heq => hi ((InOrder.number_eq_iff hnear hnear').mp heq)
      obtain ⟨s₁, hist₁, -⟩ := h.arrives_other dmaMaxBlockSize (.inr hne) seqNrAck ack
      obtain ⟨-, rfl⟩ := Prod.mk.inj (Option.some.inj (hist.symm.trans hist₁))
      rfl
  | other e =>
    cases e with
    | packet p =>
      obtain ⟨s₁, hist, -⟩ := h.packet dmaMaxBlockSize hok
      change (w.socket.ist dmaMaxBlockSize w.mem p).map _ = _ at hw
      rw [hist] at hw
      cases hw
      rfl
    | alarm =>
      change (if w.alarm then _ else none) = _ at hw
      split_ifs at hw
      cases hw
      rfl
    | call c =>
      rw [Input.event, step] at hw
      split at hw
      next result hpc =>
        cases hw
        exact congrFun (mem_call w c) a
      next => cases hw
    | advance => exact congrFun (mem_advance hw) a

/-- **Frame.** What is in no buffer of the socket when a packet of the peer arrives stays as it was.
Between the end of `udprdma_recv` and the next `udprdma_set_rx_buffer` nothing is written. -/
theorem run_frame (P : Peer) (port serviceId : ℕ) (m : Mem) {a : ℕ} {es : List Input}
    {x : World × Track}
    (hok : Transition.RunOk (trackedStep dmaMaxBlockSize P)
      (fun x e => Ok x e ∧ (e.position.isSome → x.1.socket.Avoids a))
      (World.initial port serviceId m, Track.initial) es)
    (hrun : Transition.run (trackedStep dmaMaxBlockSize P)
      (World.initial port serviceId m, Track.initial) es = some x) : x.1.mem a = m a := by
  refine (Transition.run_invariant_of_runOk (P := fun x => Inv P x ∧ x.1.mem a = m a)
    (fun x e x' h hok hx => ?_) ⟨inv_initial P port serviceId m, rfl⟩ hok hrun).2
  exact ⟨h.1.step hok.1 hx, (mem_step h.1 hok.1 hok.2 hx).trans h.2⟩

theorem run_frame_sixBytes : ∃ x,
    Transition.run (trackedStep 512 twoBytes) (World.initial 0 7 fun _ => 9, Track.initial)
      sixBytes = some x ∧ x.1.mem 106 = 9 := by
  have hok : Transition.RunOk (trackedStep 512 twoBytes)
      (fun x e => Ok x e ∧ (e.position.isSome → x.1.socket.Avoids 106))
      (World.initial 0 7 fun _ => 9, Track.initial) sixBytes := by decide
  have hrun : (Transition.run (trackedStep 512 twoBytes)
      (World.initial 0 7 fun _ => 9, Track.initial) sixBytes).isSome := by decide
  obtain ⟨x, hx⟩ := Option.isSome_iff_exists.mp hrun
  exact ⟨x, hx, run_frame twoBytes 0 7 (fun _ => 9) hok hx⟩

end Udprdma

end OpenPS2Loader
