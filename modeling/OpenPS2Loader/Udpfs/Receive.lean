import OpenPS2Loader.Lib.InOrder
import OpenPS2Loader.Udpfs.Udprdma

/-!
# What the receiver has

The peer has a sequence of packets with data. The network may lose them, repeat them and change
their order; no packet that arrives is `2 ^ 12` or more packets away from the one that is expected.
Above that, positions take the place of the numbers of 12 bits: the receiver is one that takes the
packet at position `accepted` and drops the others.

`smap_fifo_read` moves an even number of bytes, so the last byte of a buffer of odd size is never
written.

## Main definitions

* `Udprdma.Peer` — the packets of the peer
* `Udprdma.Track` — the receiver that knows positions
* `Udprdma.Holding` — the buffer has what was taken
-/

namespace OpenPS2Loader

namespace Udprdma

open Bytes

/-! ### The peer -/

/-- The packets of the peer that carry data. The peer is one that sends data of even sizes, and no
application header that does not fit the array it may be skipped into. -/
structure Peer where
  fin : ℕ → Bool
  header : ℕ → List UInt8
  data : ℕ → List UInt8
  payload : ∀ i, 0 < (header i).length + (data i).length
  header_le : ∀ i, (header i).length ≤ maxAppHdr
  even : ∀ i, (data i).length % 2 = 0

/-- The data of `n` packets. -/
def Peer.bytes (P : Peer) (start n : ℕ) : List UInt8 := (List.range' start n).flatMap P.data

/-- What happens: the packet at a position arrives, with an acknowledgement, or something else. -/
inductive Input
  | arrives (i seqNrAck : ℕ) (ack : Bool)
  | other (e : Event)

/-- What the threads see of it. -/
def Input.event (P : Peer) : Input → Event
  | .arrives i seqNrAck ack =>
    .packet (.data (i % 2 ^ 12) seqNrAck ack (P.fin i) (P.header i) (P.data i))
  | .other e => e

/-- Packets with data come from the peer. -/
def Event.Plain : Event → Prop
  | .packet (.data _ _ _ _ header data) => header.length + data.length = 0
  | _ => True

instance : DecidablePred Event.Plain
  | .packet (.data _ _ _ _ header data) =>
    inferInstanceAs (Decidable (header.length + data.length = 0))
  | .packet (.discovery _ _) => isTrue trivial
  | .packet (.inform _ _ _) => isTrue trivial
  | .packet .unknown => isTrue trivial
  | .alarm => isTrue trivial
  | .call _ => isTrue trivial
  | .advance => isTrue trivial

/-- The receiver that knows positions: how many packets it took, how many of them before the
transfer, and the buffer of the transfer. `sentAt` is a record: how many packets it had taken when
it sent each of its own. -/
structure Track where
  accepted : ℕ
  start : ℕ
  buffer : ℕ
  size : ℕ
  sentAt : List ℕ

/-- A transfer starts where `rx_received` is set to 0. -/
def Track.next (g : Track) (w : World) : Input → Track
  | .arrives i _ _ =>
    if i = g.accepted ∧ w.socket.rxBuffer.isSome then { g with accepted := g.accepted + 1 } else g
  | .other .advance =>
    match w.pc with
    | .assign .rxReceived _ =>
      { g with
        start := g.accepted
        buffer := w.socket.rxBuffer.getD 0
        size := w.socket.rxBufferSize }
    | _ => g
  | .other _ => g

/-- What is sent in a step is recorded with the packets that were taken before. -/
def Track.record (g : Track) (w w' : World) : Track :=
  { g with sentAt := g.sentAt ++ List.replicate (w'.sent.length - w.sent.length) g.accepted }

/-- The two threads, and next to them the receiver that knows positions. -/
def trackedStep (dmaMaxBlockSize : ℕ) (P : Peer) (x : World × Track) (e : Input) :
    Option (World × Track) :=
  (step dmaMaxBlockSize x.1 (e.event P)).map fun w => (w, (x.2.record x.1 w).next x.1 e)

/-- What was taken in the transfer, as far as the buffer goes. -/
def Track.received (P : Peer) (g : Track) : List UInt8 :=
  (P.bytes g.start (g.accepted - g.start)).take g.size

/-- The peer has said that the transfer is complete, or the buffer is full. -/
def Track.Complete (P : Peer) (g : Track) : Prop :=
  (∃ i, g.start ≤ i ∧ i < g.accepted ∧ P.fin i = true) ∨
    g.size ≤ (P.bytes g.start (g.accepted - g.start)).length

/-- The buffer has what was taken; of an odd number of bytes the last one is missing. -/
structure Holding (P : Peer) (s : Socket) (m : Mem) (g : Track) : Prop where
  buffer : ∀ b, s.rxBuffer = some b → b = g.buffer
  size : s.rxBufferSize = g.size
  received : s.rxReceived = (g.received P).length
  mem : slice m g.buffer ((g.received P).length / 2 * 2) =
    (g.received P).take ((g.received P).length / 2 * 2)

/-! ### The bytes of a packet -/

variable {P : Peer} {g : Track} {s : Socket} {m : Mem} {dmaMaxBlockSize start n : ℕ}

theorem Peer.bytes_succ (P : Peer) (start n : ℕ) :
    P.bytes start (n + 1) = P.bytes start n ++ P.data (start + n) := by
  rw [bytes, List.range'_1_concat, List.flatMap_append, List.flatMap_singleton, bytes]

theorem Peer.length_bytes_mod (P : Peer) (start n : ℕ) : (P.bytes start n).length % 2 = 0 := by
  induction n with
  | zero => rfl
  | succ n ih =>
    have heven := P.even (start + n)
    rw [P.bytes_succ, List.length_append]
    omega

theorem fifoBytes_eq (dmaMaxBlockSize bytes : ℕ) :
    fifoBytes dmaMaxBlockSize bytes = bytes / 2 * 2 := by
  have hdma : dmaBytes dmaMaxBlockSize bytes % 4 = 0 ∧ dmaBytes dmaMaxBlockSize bytes ≤ bytes := by
    rw [dmaBytes]
    split_ifs <;> omega
  rw [fifoBytes]
  split_ifs <;> omega

/-- A buffer whose first bytes are `l`, after more bytes came behind them. -/
theorem slice_smapFifoRead {b : ℕ} {l x : List UInt8} (heven : x ≠ [] → l.length % 2 = 0)
    (h : slice m b (l.length / 2 * 2) = l.take (l.length / 2 * 2)) :
    slice (smapFifoRead dmaMaxBlockSize m (b + l.length) x) b ((l ++ x).length / 2 * 2) =
      (l ++ x).take ((l ++ x).length / 2 * 2) := by
  rw [smapFifoRead, fifoBytes_eq]
  obtain rfl | hx := eq_or_ne x []
  · rw [List.take_nil, write_nil, List.append_nil]
    exact h
  · have hl : l.length / 2 * 2 = l.length := by
      have := heven hx
      omega
    have hx' : (x.take (x.length / 2 * 2)).length = x.length / 2 * 2 := by
      rw [List.length_take]
      omega
    have hlen : (l ++ x).length / 2 * 2 = l.length + (x.take (x.length / 2 * 2)).length := by
      rw [List.length_append, hx']
      omega
    rw [hl, List.take_length] at h
    rw [hlen, slice_add, slice_write_self, slice_write_of_apart _ _ (.inl (Nat.le_refl _)), h,
      List.take_length_add_append, hx']

/-- One more packet is in the buffer. -/
theorem Holding.takeData (h : Holding P s m g) (dmaMaxBlockSize : ℕ) (hle : g.start ≤ g.accepted)
    {b : ℕ} (hb : s.rxBuffer = some b) :
    Holding P (s.takeData dmaMaxBlockSize m b (P.data g.accepted)).1
      (s.takeData dmaMaxBlockSize m b (P.data g.accepted)).2
      { g with accepted := g.accepted + 1 } := by
  obtain ⟨hbuffer, hsize, hreceived, hmem⟩ := h
  have heven := P.length_bytes_mod g.start (g.accepted - g.start)
  have hlen : (g.received P).length ≤ g.size := List.length_take_le _ _
  have hremaining : s.remaining = g.size - (g.received P).length := by
    rw [Socket.remaining, hsize, hreceived, if_pos hlen]
  have hnext : Track.received P { g with accepted := g.accepted + 1 } =
      g.received P ++ (P.data g.accepted).take (g.size - (g.received P).length) := by
    have hsub : g.size - (P.bytes g.start (g.accepted - g.start)).length =
        g.size - (g.received P).length := by
      rw [Track.received, List.length_take]
      omega
    rw [← hsub, Track.received, Track.received]
    dsimp only
    rw [Nat.succ_sub hle, P.bytes_succ, Nat.add_sub_cancel' hle, List.take_append]
  obtain rfl := hbuffer b hb
  rw [Socket.takeData, hremaining]
  refine ⟨fun c hc => hbuffer c hc, hsize, ?_, ?_⟩
  · rw [hnext, List.length_append, hreceived]
  · rw [hnext, hreceived]
    refine slice_smapFifoRead (fun hx => ?_) hmem
    -- there is room, so all the data so far is in the buffer
    have hroom : 0 < g.size - (g.received P).length := by
      refine Nat.pos_of_ne_zero fun h0 => hx ?_
      rw [h0, List.take_zero]
    rw [Track.received, List.length_take] at hroom ⊢
    omega

/-! ### A packet is taken, or it is not -/

theorem Holding.congr {s' : Socket} (h : Holding P s m g)
    (hbuffer : ∀ b, s'.rxBuffer = some b → s.rxBuffer = some b)
    (hsize : s'.rxBufferSize = s.rxBufferSize) (hreceived : s'.rxReceived = s.rxReceived) :
    Holding P s' m g :=
  ⟨fun b hb => h.buffer b (hbuffer b hb), hsize.trans h.size, hreceived.trans h.received, h.mem⟩

theorem Holding.sent (h : Holding P s m g) (sentAt : List ℕ) :
    Holding P s m { g with sentAt := sentAt } :=
  ⟨h.buffer, h.size, h.received, h.mem⟩

/-- What of the socket belongs to the transfer is the same. -/
structure Socket.Same (s s' : Socket) : Prop where
  rxBuffer : s'.rxBuffer = s.rxBuffer
  rxBufferSize : s'.rxBufferSize = s.rxBufferSize
  rxReceived : s'.rxReceived = s.rxReceived
  rxSeqNrExpected : s'.rxSeqNrExpected = s.rxSeqNrExpected

theorem Socket.Same.holding {s' : Socket} (h : s.Same s') (hh : Holding P s m g) :
    Holding P s' m g :=
  hh.congr (fun b hb => by rwa [h.rxBuffer] at hb) h.rxBufferSize h.rxReceived

theorem Socket.same_acked (s : Socket) (seqNrAck : ℕ) (ack : Bool) :
    s.Same (s.acked seqNrAck ack) ∧ (s.acked seqNrAck ack).rxHdrBuffer = s.rxHdrBuffer ∧
      (s.acked seqNrAck ack).flags.rxFin = s.flags.rxFin := by
  rw [Socket.acked]
  split_ifs
  · exact ⟨⟨rfl, rfl, rfl, rfl⟩, rfl, rfl⟩
  · exact ⟨⟨rfl, rfl, rfl, rfl⟩, rfl, rfl⟩

theorem Socket.same_outOfOrder (s : Socket) :
    s.Same s.outOfOrder ∧ s.outOfOrder.flags.rxFin = s.flags.rxFin := by
  rw [Socket.outOfOrder]
  split_ifs
  · exact ⟨⟨rfl, rfl, rfl, rfl⟩, rfl⟩
  · exact ⟨⟨rfl, rfl, rfl, rfl⟩, rfl⟩

/-- The header goes to its buffer, or nowhere. -/
theorem Socket.takeHeader_eq (dmaMaxBlockSize : ℕ) (s : Socket) (m : Mem) {header : List UInt8}
    (h : header.length ≤ maxAppHdr) : ∃ n m',
      s.takeHeader dmaMaxBlockSize m header = some ({ s with rxHdrReceived := n }, m') ∧
      (m' = m ∨ ∃ dst, s.rxHdrBuffer = some dst ∧
        m' = smapFifoRead dmaMaxBlockSize m dst header) := by
  rw [Socket.takeHeader]
  by_cases hzero : header.length = 0
  · rw [if_pos hzero]
    exact ⟨s.rxHdrReceived, m, rfl, .inl rfl⟩
  · rw [if_neg hzero]
    rcases hdst : s.rxHdrBuffer with - | dst
    · exact ⟨header.length, m, by simp [h], .inl rfl⟩
    · by_cases hreceived : s.rxHdrReceived = 0
      · exact ⟨header.length, _, by simp [hreceived], .inr ⟨dst, rfl, rfl⟩⟩
      · exact ⟨header.length, m, by simp [hreceived, h], .inl rfl⟩

/-- The packet that is expected: the header, the data, and what is behind it. -/
theorem Socket.payload_self (dmaMaxBlockSize : ℕ) (s : Socket) (m : Mem) (fin : Bool) {b : ℕ}
    {seqNr : ℕ} {header data : List UInt8} (hb : s.rxBuffer = some b)
    (hseq : seqNr = s.rxSeqNrExpected) (hpayload : 0 < header.length + data.length)
    (hheader : header.length ≤ maxAppHdr) :
    ∃ n m', s.payload dmaMaxBlockSize m seqNr fin header data =
        some
          ((({ s with rxHdrReceived := n }).takeData dmaMaxBlockSize m' b data).1.taken seqNr fin,
          (({ s with rxHdrReceived := n }).takeData dmaMaxBlockSize m' b data).2) ∧
      (m' = m ∨ ∃ dst, s.rxHdrBuffer = some dst ∧
        m' = smapFifoRead dmaMaxBlockSize m dst header) := by
  obtain ⟨n, m', htake, hm'⟩ := s.takeHeader_eq dmaMaxBlockSize m hheader
  refine ⟨n, m', ?_, hm'⟩
  rw [Socket.payload, if_neg (by omega)]
  simp only [hb, if_pos hseq, htake, Option.map_some]

theorem Socket.flags_takeData (dmaMaxBlockSize : ℕ) (s : Socket) (m : Mem) (b : ℕ)
    (data : List UInt8) : (s.takeData dmaMaxBlockSize m b data).1.flags = s.flags := rfl

/-- What is behind a packet that was taken. -/
theorem Socket.taken_spec (s : Socket) (seqNr : ℕ) (fin : Bool) :
    (s.taken seqNr fin).rxBuffer = s.rxBuffer ∧
      (s.taken seqNr fin).rxBufferSize = s.rxBufferSize ∧
      (s.taken seqNr fin).rxReceived = s.rxReceived ∧
      (s.taken seqNr fin).rxSeqNrExpected = (seqNr + 1) % 2 ^ 12 ∧
      ((s.taken seqNr fin).flags.rxFin = true →
        s.flags.rxFin = true ∨ fin = true ∨ s.rxBufferSize ≤ s.rxReceived) := by
  rw [Socket.taken]
  dsimp only
  split_ifs with hfin hcount
  · exact ⟨rfl, rfl, rfl, rfl, fun _ => .inr hfin⟩
  · exact ⟨rfl, rfl, rfl, rfl, .inl⟩
  · exact ⟨rfl, rfl, rfl, rfl, .inl⟩

/-! ### The caller -/

/-- The buffer of the transfer is not being changed. -/
def Pc.settled : Pc → Bool
  | .assign (.rxBufferSize _) _ => false
  | .assign .rxReceived _ => false
  | _ => true

/-- At the assignment of 0 to `rx_received`. -/
def Pc.startsTransfer : Pc → Bool
  | .assign .rxReceived _ => true
  | _ => false

/-- `udprdma_recv` was woken by `EF_RX_FIN`. -/
def Pc.sawFin : Pc → Bool
  | .recvCancel bits => bits.rxFin
  | .recvFin => true
  | .recvResult => true
  | _ => false

/-- The size of a buffer is assigned behind the buffer, and `rx_received` behind the size. -/
def Pc.Fine : Pc → Prop
  | .assign (.rxBuffer (some _)) next =>
    (∃ size next', next = .assign (.rxBufferSize size) next') ∧ next.Fine
  | .assign (.rxBufferSize _) next => (∃ next', next = .assign .rxReceived next') ∧ next.Fine
  | .assign _ next => next.sawFin = false ∧ next.Fine
  | _ => True

/-- The header of a packet does not go where its data goes. -/
def Socket.Apart (s : Socket) : Prop :=
  ∀ b ∈ s.rxBuffer, ∀ dst ∈ s.rxHdrBuffer, b + s.rxBufferSize ≤ dst ∨ dst + maxAppHdr ≤ b

instance (s : Socket) : Decidable s.Apart := inferInstanceAs (Decidable (∀ b ∈ s.rxBuffer, _))

/-- What the network, the peer and the caller have to see to: a packet is near the one that is
expected; a packet that will be taken does not come while the buffer is being changed; no
`EF_RX_FIN` is left over when a transfer starts. -/
def Ok (x : World × Track) : Input → Prop
  | .arrives i _ _ => i < x.2.accepted + 2 ^ 12 ∧ x.2.accepted < i + 2 ^ 12 ∧
      (i = x.2.accepted → x.1.pc.settled = true ∧ x.1.socket.Apart)
  | .other .advance => x.1.pc.startsTransfer = true → x.1.socket.flags.rxFin = false
  | .other e => e.Plain

instance (x : World × Track) : DecidablePred (Ok x)
  | .arrives _ _ _ => inferInstanceAs (Decidable (_ ∧ _ ∧ (_ → _ ∧ _)))
  | .other .advance => inferInstanceAs (Decidable (_ → _))
  | .other (.packet p) => inferInstanceAs (Decidable (Event.packet p).Plain)
  | .other .alarm => isTrue trivial
  | .other (.call _) => isTrue trivial

/-- An acknowledgement, or a request for a packet, that was sent when `a` packets had been taken. -/
def Sent.Acks (a : ℕ) : Sent → Prop
  | .discovery => True
  | .ack isAck _ seqNrAck => seqNrAck = (if isAck then a + 2 ^ 12 - 1 else a) % 2 ^ 12
  | .data _ seqNrAck _ _ => seqNrAck = (a + 2 ^ 12 - 1) % 2 ^ 12

/-- Each packet that was sent acknowledges what had been taken when it was sent. -/
structure Acked (g : Track) (sent : List Sent) : Prop where
  each : List.Forall₂ Sent.Acks g.sentAt sent
  sorted : g.sentAt.Pairwise (· ≤ ·)
  le : ∀ a ∈ g.sentAt, a ≤ g.accepted

/-- Where a run can get. -/
structure Inv (P : Peer) (x : World × Track) : Prop where
  expected : x.1.socket.rxSeqNrExpected = x.2.accepted % 2 ^ 12
  start_le : x.2.start ≤ x.2.accepted
  fine : x.1.pc.Fine
  holding : x.1.pc.settled = true → Holding P x.1.socket x.1.mem x.2
  complete : x.1.pc.settled = true → x.1.socket.flags.rxFin = true ∨ x.1.pc.sawFin = true →
    x.2.Complete P
  acks : Acked x.2 x.1.sent

/-- A header leaves the buffer of the transfer alone. -/
theorem Holding.header (h : Holding P s m g) {m' : Mem} {b : ℕ} {header : List UInt8}
    (hb : s.rxBuffer = some b) (hapart : s.Apart) (hheader : header.length ≤ maxAppHdr)
    (hm' : m' = m ∨ ∃ dst, s.rxHdrBuffer = some dst ∧
      m' = smapFifoRead dmaMaxBlockSize m dst header) (n : ℕ) :
    Holding P { s with rxHdrReceived := n } m' g := by
  obtain ⟨hbuffer, hsize, hreceived, hmem⟩ := h
  refine ⟨hbuffer, hsize, hreceived, ?_⟩
  obtain rfl | ⟨dst, hdst, rfl⟩ := hm'
  · exact hmem
  · have hle : (g.received P).length ≤ g.size := List.length_take_le _ _
    have hoff := hapart b hb dst hdst
    rw [hsize] at hoff
    obtain rfl := hbuffer b hb
    rw [smapFifoRead, slice_write_of_apart _ _ ?_, hmem]
    rw [List.length_take]
    omega

theorem Track.Complete.succ (h : g.Complete P) (hle : g.start ≤ g.accepted) :
    Track.Complete P { g with accepted := g.accepted + 1 } := by
  obtain ⟨i, hi, hlt, hfin⟩ | hfull := h
  · exact .inl ⟨i, hi, Nat.lt_succ_of_lt hlt, hfin⟩
  · refine .inr (Nat.le_trans hfull ?_)
    dsimp only
    rw [Nat.succ_sub hle, P.bytes_succ, List.length_append]
    exact Nat.le_add_right _ _

/-- What was sent before stays sent. -/
theorem Acked.succ {sent : List Sent} (h : Acked g sent) :
    Acked { g with accepted := g.accepted + 1 } sent :=
  ⟨h.each, h.sorted, fun a ha => Nat.le_succ_of_le (h.le a ha)⟩

/-- One more packet is sent. -/
theorem Acked.send {sent : List Sent} (h : Acked g sent) {o : Sent} (ho : o.Acks g.accepted) :
    Acked { g with sentAt := g.sentAt ++ [g.accepted] } (sent ++ [o]) where
  each := List.rel_append h.each (.cons ho .nil)
  sorted := by
    rw [List.pairwise_append]
    refine ⟨h.sorted, List.pairwise_singleton _ _, fun a ha b hb => ?_⟩
    rw [List.mem_singleton.mp hb]
    exact h.le a ha
  le a ha := by
    rcases List.mem_append.mp ha with ha | ha
    · exact h.le a ha
    · exact (List.mem_singleton.mp ha).le

/-- The packet that is expected is taken. -/
theorem Inv.arrives_self (dmaMaxBlockSize : ℕ) {w : World} (h : Inv P (w, g)) {b : ℕ}
    (hb : w.socket.rxBuffer = some b) (hsettled : w.pc.settled = true) (hapart : w.socket.Apart)
    (seqNrAck : ℕ) (ack : Bool) :
    ∃ s' m', w.socket.ist dmaMaxBlockSize w.mem
        (.data (g.accepted % 2 ^ 12) seqNrAck ack (P.fin g.accepted) (P.header g.accepted)
          (P.data g.accepted)) = some (s', m') ∧
      Inv P ({ w with socket := s', mem := m' }, { g with accepted := g.accepted + 1 }) := by
  obtain ⟨hexpected, hstart, hfine, hholding, hcomplete, hacks⟩ := h
  obtain ⟨hsame, hhdr, hfin⟩ := w.socket.same_acked seqNrAck ack
  rw [Socket.ist]
  generalize w.socket.acked seqNrAck ack = s at hsame hhdr hfin
  have hb' : s.rxBuffer = some b := hsame.rxBuffer.trans hb
  have hapart' : s.Apart := by
    intro c hc dst hdst
    rw [hsame.rxBuffer] at hc
    rw [hhdr] at hdst
    rw [hsame.rxBufferSize]
    exact hapart c hc dst hdst
  have hseq : g.accepted % 2 ^ 12 = s.rxSeqNrExpected :=
    hexpected.symm.trans hsame.rxSeqNrExpected.symm
  obtain ⟨n, m₁, hpayload, hm₁⟩ := s.payload_self dmaMaxBlockSize w.mem (P.fin g.accepted) hb' hseq
    (P.payload g.accepted) (P.header_le g.accepted)
  have hheld :=
    (hsame.holding (hholding hsettled)).header hb' hapart' (P.header_le g.accepted) hm₁ n
  have hnext := hheld.takeData dmaMaxBlockSize hstart hb'
  refine ⟨_, _, hpayload, ?_⟩
  have hflags : (({ s with rxHdrReceived := n }).takeData dmaMaxBlockSize m₁ b
      (P.data g.accepted)).1.flags.rxFin = w.socket.flags.rxFin := by
    rw [Socket.flags_takeData]
    exact hfin
  generalize ({ s with rxHdrReceived := n }).takeData dmaMaxBlockSize m₁ b (P.data g.accepted) = r
    at hnext hflags
  obtain ⟨hbuffer, hbufferSize, hreceived, hnumber, hdone⟩ :=
    r.1.taken_spec (g.accepted % 2 ^ 12) (P.fin g.accepted)
  refine ⟨?_, Nat.le_succ_of_le hstart, hfine, fun _ => ?_, fun _ hsaw => ?_, ?_⟩
  · dsimp only
    rw [hnumber]
    omega
  · exact hnext.congr (fun c hc => by rwa [hbuffer] at hc) hbufferSize hreceived
  · rcases hsaw with hsaw | hsaw
    · obtain hold | hlast | hfull := hdone hsaw
      · exact (hcomplete hsettled (.inl (hflags.symm.trans hold))).succ hstart
      · exact .inl ⟨g.accepted, hstart, Nat.lt_succ_self _, hlast⟩
      · refine .inr ?_
        rw [hnext.size, hnext.received, Track.received, List.length_take] at hfull
        exact Nat.le_trans hfull (Nat.min_le_right _ _)
    · exact (hcomplete hsettled (.inr hsaw)).succ hstart
  · exact hacks.succ

/-- A step that leaves the transfer alone. -/
theorem Inv.same {w : World} (h : Inv P (w, g)) (s' : Socket) (hsame : w.socket.Same s')
    (hfin : s'.flags.rxFin = true → w.socket.flags.rxFin = true) (alarm : Bool) :
    Inv P ({ w with socket := s', alarm := alarm }, g) := by
  obtain ⟨hexpected, hstart, hfine, hholding, hcomplete, hacks⟩ := h
  exact ⟨hsame.rxSeqNrExpected.trans hexpected, hstart, hfine,
    fun hsettled => hsame.holding (hholding hsettled),
    fun hsettled hsaw => hcomplete hsettled (hsaw.imp_left hfin), hacks⟩

/-- A packet that is not the next one is not taken. -/
theorem Inv.arrives_other (dmaMaxBlockSize : ℕ) {w : World} (h : Inv P (w, g)) {i : ℕ}
    (hi : w.socket.rxBuffer = none ∨ i % 2 ^ 12 ≠ w.socket.rxSeqNrExpected) (seqNrAck : ℕ)
    (ack : Bool) :
    ∃ s', w.socket.ist dmaMaxBlockSize w.mem
        (.data (i % 2 ^ 12) seqNrAck ack (P.fin i) (P.header i) (P.data i)) = some (s', w.mem) ∧
      Inv P ({ w with socket := s' }, g) := by
  obtain ⟨hsame, -, hfin⟩ := w.socket.same_acked seqNrAck ack
  have hpayload := P.payload i
  rw [Socket.ist]
  generalize w.socket.acked seqNrAck ack = s at hsame hfin
  rw [Socket.payload, if_neg (by omega)]
  rcases hbuffer : s.rxBuffer with - | b
  · exact ⟨s, rfl, h.same _ hsame (fun hs => hfin.symm.trans hs) w.alarm⟩
  · have hne : i % 2 ^ 12 ≠ s.rxSeqNrExpected := by
      rw [hsame.rxSeqNrExpected]
      refine hi.resolve_left fun hnone => ?_
      rw [hsame.rxBuffer, hnone] at hbuffer
      cases hbuffer
    obtain ⟨hsame', hfin'⟩ := s.same_outOfOrder
    refine ⟨s.outOfOrder, if_neg hne, h.same _ ⟨hsame'.1.trans hsame.1, hsame'.2.trans hsame.2,
      hsame'.3.trans hsame.3, hsame'.4.trans hsame.4⟩ (fun hs => ?_) w.alarm⟩
    rw [← hfin, ← hfin', hs]

/-- Packets without data. -/
theorem Inv.packet (dmaMaxBlockSize : ℕ) {w : World} (h : Inv P (w, g)) {p : Packet}
    (hp : (Event.packet p).Plain) :
    ∃ s', w.socket.ist dmaMaxBlockSize w.mem p = some (s', w.mem) ∧
      Inv P ({ w with socket := s' }, g) := by
  cases p with
  | discovery serviceId addrSrc =>
    refine ⟨_, rfl, h.same _ ?_ ?_ w.alarm⟩
    · split_ifs <;> exact ⟨rfl, rfl, rfl, rfl⟩
    · split_ifs <;> exact id
  | inform serviceId addrSrc portSrc =>
    refine ⟨_, rfl, h.same _ ?_ ?_ w.alarm⟩
    · split_ifs <;> exact ⟨rfl, rfl, rfl, rfl⟩
    · split_ifs <;> exact id
  | data seqNr seqNrAck ack fin header data =>
    obtain ⟨hsame, -, hfin⟩ := w.socket.same_acked seqNrAck ack
    exact ⟨_, if_pos hp, h.same _ hsame (fun hs => hfin.symm.trans hs) w.alarm⟩
  | unknown => exact ⟨_, rfl, h⟩

/-! ### The caller's statements -/

/-- A statement that leaves the transfer alone, and the statement behind it. -/
theorem Inv.go {w : World} (h : Inv P (w, g)) (hpc : w.pc.settled = true) (s' : Socket) (pc' : Pc)
    (alarm : Bool) (hsame : w.socket.Same s')
    (hfin : s'.flags.rxFin = true → w.socket.flags.rxFin = true) (hfine : pc'.Fine)
    (hsaw : pc'.sawFin = true → w.socket.flags.rxFin = true ∨ w.pc.sawFin = true) :
    Inv P ({ w with socket := s', pc := pc', alarm := alarm }, g) := by
  obtain ⟨hexpected, hstart, -, hholding, hcomplete, hacks⟩ := h
  refine ⟨hsame.rxSeqNrExpected.trans hexpected, hstart, hfine,
    fun _ => hsame.holding (hholding hpc), fun _ hs => hcomplete hpc ?_, hacks⟩
  rcases hs with hs | hs
  · exact .inl (hfin hs)
  · exact hsaw hs

/-- The statement behind it was not reached through `EF_RX_FIN`. -/
theorem Inv.goOn {w : World} (h : Inv P (w, g)) (hpc : w.pc.settled = true) (s' : Socket)
    (pc' : Pc) (alarm : Bool) (hsame : w.socket.Same s')
    (hfin : s'.flags.rxFin = true → w.socket.flags.rxFin = true) (hfine : pc'.Fine)
    (hsaw : pc'.sawFin = false) :
    Inv P ({ w with socket := s', pc := pc', alarm := alarm }, g) :=
  h.go hpc s' pc' alarm hsame hfin hfine fun hs =>
    absurd (hsaw.symm.trans hs) Bool.false_ne_true

theorem Socket.Same.refl (s : Socket) : s.Same s := ⟨rfl, rfl, rfl, rfl⟩

theorem Track.record_of_eq {w w' : World} (hsent : w'.sent = w.sent) : g.record w w' = g := by
  rw [Track.record, hsent, Nat.sub_self, List.replicate_zero, List.append_nil]

/-- A step in which nothing is sent. -/
theorem Inv.unsent {w w' : World} (h : Inv P (w', g)) (hsent : w'.sent = w.sent) :
    Inv P (w', g.record w w') := by
  rwa [Track.record_of_eq hsent]

/-- A packet is sent. -/
theorem Inv.send {w w' : World} (h : Inv P (w', g)) {o : Sent} (ho : o.Acks g.accepted)
    (hsent : w'.sent = w.sent) :
    Inv P ({ w' with sent := w'.sent ++ [o] },
      g.record w { w' with sent := w'.sent ++ [o] }) := by
  obtain ⟨hexpected, hstart, hfine, hholding, hcomplete, hacks⟩ := h
  have hrecord : g.record w { w' with sent := w'.sent ++ [o] } =
      { g with sentAt := g.sentAt ++ [g.accepted] } := by
    rw [Track.record]
    dsimp only
    rw [List.length_append, hsent, Nat.add_sub_cancel_left]
    rfl
  rw [hrecord]
  exact ⟨hexpected, hstart, hfine, fun hsettled => (hholding hsettled).sent _, hcomplete,
    hacks.send ho⟩

/-- An assignment. -/
theorem Inv.assign {w : World} (h : Inv P (w, g)) {a : Assign} {next : Pc}
    (hpc : w.pc = .assign a next) (ha : a ≠ .rxReceived) :
    Inv P ({ w with socket := w.socket.assign a, pc := next }, g) := by
  have hgo : (Pc.assign a next).settled = true → next.sawFin = false ∧ next.Fine →
      w.socket.Same (w.socket.assign a) → (w.socket.assign a).flags = w.socket.flags →
      Inv P ({ w with socket := w.socket.assign a, pc := next }, g) := by
    intro hsettled hnext hsame hflags
    refine h.go (by rwa [hpc]) _ _ w.alarm hsame (fun hs => by rwa [hflags] at hs) hnext.2
      fun hs => ?_
    rw [hnext.1] at hs
    exact absurd hs Bool.false_ne_true
  obtain ⟨hexpected, hstart, hfine, hholding, hcomplete, hacks⟩ := h
  rw [hpc] at hfine hholding hcomplete
  cases a with
  | rxReceived => exact absurd rfl ha
  | rxBufferSize size =>
    obtain ⟨⟨next', rfl⟩, hnext⟩ := hfine
    exact ⟨hexpected, hstart, hnext, fun hs => absurd hs Bool.false_ne_true,
      fun hs => absurd hs Bool.false_ne_true, hacks⟩
  | rxBuffer buffer =>
    cases buffer with
    | none =>
      obtain ⟨hsaw, hnext⟩ := hfine
      refine ⟨hexpected, hstart, hnext, fun _ => (hholding rfl).congr (fun b hb => ?_) rfl rfl,
        fun _ hs => ?_, hacks⟩
      · cases hb
      · rw [hsaw] at hs
        exact hcomplete rfl (hs.imp_right fun hs => absurd hs Bool.false_ne_true)
    | some b =>
      obtain ⟨⟨size, next', rfl⟩, hnext⟩ := hfine
      exact ⟨hexpected, hstart, hnext, fun hs => absurd hs Bool.false_ne_true,
      fun hs => absurd hs Bool.false_ne_true, hacks⟩
  | state state => exact hgo rfl hfine ⟨rfl, rfl, rfl, rfl⟩ rfl
  | rxWindowCount => exact hgo rfl hfine ⟨rfl, rfl, rfl, rfl⟩ rfl
  | rxNackSent => exact hgo rfl hfine ⟨rfl, rfl, rfl, rfl⟩ rfl
  | rxHdrBuffer buffer => exact hgo rfl hfine ⟨rfl, rfl, rfl, rfl⟩ rfl
  | rxHdrReceived => exact hgo rfl hfine ⟨rfl, rfl, rfl, rfl⟩ rfl

/-- A transfer starts. -/
theorem Inv.transfer {w : World} (h : Inv P (w, g)) {next : Pc}
    (hpc : w.pc = .assign .rxReceived next) (hfin : w.socket.flags.rxFin = false) :
    Inv P ({ w with socket := w.socket.assign .rxReceived, pc := next },
      { g with
        start := g.accepted
        buffer := w.socket.rxBuffer.getD 0
        size := w.socket.rxBufferSize }) := by
  obtain ⟨hexpected, -, hfine, -, -, hacks⟩ := h
  rw [hpc] at hfine
  obtain ⟨hsaw, hnext⟩ := hfine
  have hreceived : Track.received P { g with
      start := g.accepted
      buffer := w.socket.rxBuffer.getD 0
      size := w.socket.rxBufferSize } = [] := by
    rw [Track.received]
    dsimp only
    rw [Nat.sub_self]
    exact List.take_nil
  refine ⟨hexpected, Nat.le_refl _, hnext, fun _ => ⟨fun b hb => ?_, rfl, ?_, ?_⟩, fun _ hs => ?_,
    ⟨hacks.each, hacks.sorted, hacks.le⟩⟩
  · change b = w.socket.rxBuffer.getD 0
    change w.socket.rxBuffer = some b at hb
    rw [hb]
    rfl
  · rw [hreceived]
    rfl
  · rw [hreceived]
    rfl
  · rcases hs with hs | hs
    · exact absurd (hfin.symm.trans hs) Bool.false_ne_true
    · exact absurd (hsaw.symm.trans hs) Bool.false_ne_true

theorem Inv.call {w : World} (h : Inv P (w, g)) {result : ℤ} (hpc : w.pc = .idle result)
    (c : Call) : Inv P (w.call c, g) := by
  have hsettled : w.pc.settled = true := by
    rw [hpc]
    trivial
  have hgo : ∀ {pc' : Pc}, pc'.Fine → pc'.sawFin = false → Inv P ({ w with pc := pc' }, g) :=
    fun hfine hsaw => h.goOn hsettled w.socket _ w.alarm (.refl _) id hfine hsaw
  have hsend : ∀ header data, Inv P (w.sendFirst header data, g) := fun header data =>
    h.goOn hsettled { w.socket with flags := { w.socket.flags with rxAck := false } }
      (.send header data 0) w.alarm ⟨rfl, rfl, rfl, rfl⟩ id trivial rfl
  cases c with
  | setRxBuffer buffer size =>
    exact hgo ⟨⟨_, _, rfl⟩, ⟨_, rfl⟩, rfl, rfl, rfl, trivial⟩ rfl
  | setRxAppHeader buffer => exact hgo ⟨rfl, rfl, trivial⟩ rfl
  | discover => exact hgo ⟨rfl, trivial⟩ rfl
  | send data size =>
    rw [World.call]
    split_ifs
    · exact hgo trivial rfl
    · exact hgo trivial rfl
    · exact hsend _ _
    · exact hsend _ _
  | sendLl header data size =>
    rw [World.call]
    split_ifs
    · exact hgo trivial rfl
    · exact hgo trivial rfl
    · exact hgo trivial rfl
    · exact hsend _ _
  | recv buffer size =>
    rw [World.call]
    split_ifs
    · exact hgo trivial rfl
    · exact hgo trivial rfl
    · exact hgo ⟨⟨_, _, rfl⟩, ⟨_, rfl⟩, rfl, trivial⟩ rfl
    · exact hgo trivial rfl

/-- Behind `CancelAlarm` in `udprdma_discover`. -/
theorem Inv.discoverCancel {w w' : World} {retries : ℕ} {bits : Flags} (h : Inv P (w, g))
    (hpc : w.pc = .discoverCancel retries bits) (hw : w.advance = some w') :
    Inv P (w', g.record w w') := by
  rw [World.advance, hpc] at hw
  cases hw
  refine Inv.unsent ?_ rfl
  refine h.goOn (by rw [hpc]; rfl) w.socket _ false (.refl _) id ?_ ?_
  · split_ifs
    · exact ⟨rfl, trivial⟩
    · trivial
    · exact ⟨rfl, trivial⟩
  · split_ifs <;> rfl

/-- The test for the acknowledgement. -/
theorem Inv.sendCheck {w w' : World} {header data : List UInt8} {retries sentSeqNr : ℕ}
    {bits : Flags} (h : Inv P (w, g)) (hpc : w.pc = .sendCheck header data retries sentSeqNr bits)
    (hw : w.advance = some w') : Inv P (w', g.record w w') := by
  have hsettled : w.pc.settled = true := by
    rw [hpc]
    rfl
  rw [World.advance, hpc] at hw
  obtain rfl := Option.some.inj hw
  refine Inv.unsent ?_ (by split_ifs <;> rfl)
  split_ifs
  · exact h.goOn hsettled _ _ w.alarm ⟨rfl, rfl, rfl, rfl⟩ id trivial rfl
  · refine h.goOn hsettled _ _ w.alarm ⟨rfl, rfl, rfl, rfl⟩ id ?_ ?_
    · split_ifs
      · trivial
      · exact ⟨rfl, trivial⟩
    · split_ifs <;> rfl

/-- Behind `CancelAlarm` in `udprdma_recv`. -/
theorem Inv.recvCancel {w w' : World} {bits : Flags} (h : Inv P (w, g))
    (hpc : w.pc = .recvCancel bits) (hw : w.advance = some w') : Inv P (w', g.record w w') := by
  rw [World.advance, hpc] at hw
  cases hw
  refine Inv.unsent ?_ rfl
  refine h.go (by rw [hpc]; rfl) w.socket _ false (.refl _) id ?_ fun hs => .inr ?_
  · split_ifs <;> first | exact trivial | exact ⟨rfl, rfl, rfl, trivial⟩
  · rw [hpc]
    split_ifs at hs with hbits
    · exact hbits
    all_goals exact absurd hs Bool.false_ne_true

/-- Any statement but the one a transfer starts with. -/
theorem Inv.advance {w w' : World} (h : Inv P (w, g)) (hw : w.advance = some w')
    (hpc : ∀ next, w.pc ≠ .assign .rxReceived next) : Inv P (w', g.record w w') := by
  have hexpected : w.socket.rxSeqNrExpected = g.accepted % 2 ^ 12 := h.expected
  have hack : (w.socket.rxSeqNrExpected + 2 ^ 12 - 1) % 2 ^ 12 =
      (g.accepted + 2 ^ 12 - 1) % 2 ^ 12 := by
    rw [hexpected]
    omega
  have hall := hw
  have hgo := h.goOn
  rw [World.advance] at hw
  split at hw
  next hidle => cases hw
  next a next hassign =>
    cases hw
    refine Inv.unsent ?_ rfl
    exact h.assign hassign fun ha => hpc next (by rw [hassign, ha])
  next retries hdiscover =>
    cases hw
    rw [hdiscover] at hgo
    exact (hgo rfl w.socket (.discoverWait retries) true (.refl _) id trivial rfl).send trivial rfl
  next retries hwait =>
    rw [hwait] at hgo
    split_ifs at hw
    cases hw
    refine Inv.unsent ?_ rfl
    exact hgo rfl _ _ w.alarm ⟨rfl, rfl, rfl, rfl⟩ (fun hs => absurd hs Bool.false_ne_true)
      trivial rfl
  next retries bits hcancel => exact h.discoverCancel hcancel hall
  next header data retries hsend =>
    cases hw
    rw [hsend] at hgo
    exact (hgo rfl { w.socket with txSeqNr := (w.socket.txSeqNr + 1) % 2 ^ 12 }
      (.sendWait header data retries w.socket.txSeqNr) true ⟨rfl, rfl, rfl, rfl⟩ id trivial
      rfl).send hack rfl
  next header data retries sentSeqNr hwait =>
    rw [hwait] at hgo
    split_ifs at hw
    cases hw
    refine Inv.unsent ?_ rfl
    exact hgo rfl w.socket _ w.alarm (.refl _) id trivial rfl
  next header data retries sentSeqNr bits hcancel =>
    cases hw
    rw [hcancel] at hgo
    refine Inv.unsent ?_ rfl
    exact hgo rfl w.socket _ false (.refl _) id trivial rfl
  next header data retries sentSeqNr bits hcheck => exact h.sendCheck hcheck hall
  next hrecv =>
    cases hw
    rw [hrecv] at hgo
    refine Inv.unsent ?_ rfl
    exact hgo rfl w.socket _ true (.refl _) id trivial rfl
  next hwait =>
    split_ifs at hw
    cases hw
    refine Inv.unsent ?_ rfl
    exact h.go (by rw [hwait]; rfl) _ _ w.alarm ⟨rfl, rfl, rfl, rfl⟩
      (fun hs => absurd hs Bool.false_ne_true) trivial fun hs => .inl hs
  next bits hcancel => exact h.recvCancel hcancel hall
  next hfin =>
    cases hw
    exact (h.go (by rw [hfin]; rfl) w.socket .recvResult w.alarm (.refl _) id trivial
      fun _ => .inr (by rw [hfin]; rfl)).send hack rfl
  next hresult =>
    cases hw
    rw [hresult] at hgo
    refine Inv.unsent ?_ rfl
    exact hgo rfl w.socket _ w.alarm (.refl _) id ⟨rfl, rfl, trivial⟩ rfl
  next hnack =>
    cases hw
    rw [hnack] at hgo
    exact (hgo rfl w.socket .recv w.alarm (.refl _) id trivial rfl).send hexpected rfl
  next hwindow =>
    cases hw
    rw [hwindow] at hgo
    exact (hgo rfl w.socket .recv w.alarm (.refl _) id trivial rfl).send hack rfl

/-! ### Runs -/

theorem Inv.arrives {w w' : World} (h : Inv P (w, g)) {i seqNrAck : ℕ} {ack : Bool}
    (hok : Ok (w, g) (.arrives i seqNrAck ack))
    (hw : step dmaMaxBlockSize w (Input.event P (.arrives i seqNrAck ack)) = some w') :
    Inv P (w', (g.record w w').next w (.arrives i seqNrAck ack)) := by
  obtain ⟨hnear, hnear', htaken⟩ := hok
  have hexpected : w.socket.rxSeqNrExpected = g.accepted % 2 ^ 12 := h.expected
  obtain ⟨⟨s', m'⟩, hist, rfl⟩ := Option.map_eq_some_iff.mp hw
  have hrecord : g.record w { w with socket := s', mem := m' } = g := Track.record_of_eq rfl
  dsimp only
  rw [hrecord, Track.next]
  rcases hbuffer : w.socket.rxBuffer with - | b
  · obtain ⟨s₁, hist₁, hinv⟩ := h.arrives_other dmaMaxBlockSize (i := i) (.inl hbuffer)
      seqNrAck ack
    obtain ⟨rfl, rfl⟩ := Prod.mk.inj (Option.some.inj (hist.symm.trans hist₁))
    rw [if_neg (by simp)]
    exact hinv
  · by_cases hi : i = g.accepted
    · subst hi
      obtain ⟨hsettled, hapart⟩ := htaken rfl
      obtain ⟨s₁, m₁, hist₁, hinv⟩ := h.arrives_self dmaMaxBlockSize hbuffer hsettled hapart
        seqNrAck ack
      obtain ⟨rfl, rfl⟩ := Prod.mk.inj (Option.some.inj (hist.symm.trans hist₁))
      rw [if_pos (by simp)]
      exact hinv
    · have hne : i % 2 ^ 12 ≠ w.socket.rxSeqNrExpected := by
        rw [hexpected]
        exact fun heq => hi ((InOrder.number_eq_iff hnear hnear').mp heq)
      obtain ⟨s₁, hist₁, hinv⟩ := h.arrives_other dmaMaxBlockSize (.inr hne) seqNrAck ack
      obtain ⟨rfl, rfl⟩ := Prod.mk.inj (Option.some.inj (hist.symm.trans hist₁))
      rw [if_neg fun h => hi h.1]
      exact hinv

theorem sent_call (w : World) (c : Call) : (w.call c).sent = w.sent := by
  cases c with
  | setRxBuffer buffer size => rfl
  | setRxAppHeader buffer => rfl
  | discover => rfl
  | send data size =>
    rw [World.call]
    split_ifs <;> rfl
  | sendLl header data size =>
    rw [World.call]
    split_ifs <;> rfl
  | recv buffer size =>
    rw [World.call]
    split_ifs <;> rfl

theorem Inv.other {w w' : World} (h : Inv P (w, g)) {e : Event} (hok : Ok (w, g) (.other e))
    (hw : step dmaMaxBlockSize w e = some w') :
    Inv P (w', (g.record w w').next w (.other e)) := by
  cases e with
  | packet p =>
    obtain ⟨s₁, hist, hinv⟩ := h.packet dmaMaxBlockSize hok
    rw [step, hist] at hw
    cases hw
    exact hinv.unsent rfl
  | alarm =>
    rw [step] at hw
    split_ifs at hw
    cases hw
    exact (h.same { w.socket with flags := { w.socket.flags with timeout := true } }
      ⟨rfl, rfl, rfl, rfl⟩ id false).unsent rfl
  | call c =>
    rw [step] at hw
    split at hw
    next result hpc =>
      cases hw
      exact (h.call hpc c).unsent (sent_call w c)
    next => cases hw
  | advance =>
    by_cases hstarts : ∃ next, w.pc = .assign .rxReceived next
    · obtain ⟨next, hpc⟩ := hstarts
      have hadvance : w.advance =
          some { w with socket := w.socket.assign .rxReceived, pc := next } := by
        rw [World.advance, hpc]
      cases hadvance.symm.trans hw
      have hrecord : g.record w { w with socket := w.socket.assign .rxReceived, pc := next } = g :=
        Track.record_of_eq rfl
      rw [hrecord, Track.next, hpc]
      exact h.transfer hpc (hok (by rw [hpc]; rfl))
    · have hnext : (g.record w w').next w (.other .advance) = g.record w w' := by
        rw [Track.next]
        split
        next next hpc => exact absurd ⟨next, hpc⟩ hstarts
        next => rfl
      rw [hnext]
      exact h.advance hw fun next hpc => hstarts ⟨next, hpc⟩

/-- **A step**, whichever thread takes it. -/
theorem Inv.step {x x' : World × Track} (h : Inv P x) {e : Input} (hok : Ok x e)
    (hx : trackedStep dmaMaxBlockSize P x e = some x') : Inv P x' := by
  obtain ⟨w', hw, rfl⟩ := Option.map_eq_some_iff.mp hx
  cases e with
  | arrives i seqNrAck ack => exact h.arrives hok hw
  | other e => exact h.other hok hw

end Udprdma

end OpenPS2Loader
