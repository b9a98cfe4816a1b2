import Mathlib.Algebra.Group.Int.Defs
import Mathlib.Algebra.Group.Nat.Defs
import Mathlib.Data.Int.Notation
import OpenPS2Loader.Lib.Bytes
import OpenPS2Loader.Lib.Transition

/-!
# Transfers over UDP

`udprdma.c`: packets carry numbers of 12 bits. The receiver takes the packet whose number it expects
and no other, asks once for a packet that is missing, and acknowledges what it has. The sender
repeats a packet until an acknowledgement comes.

The thread of the network interrupt handles one packet at a time, in `_ist`; it has the higher
priority, so the thread of the caller may be interrupted between any two statements. A step is a
packet, the alarm, or one access of the caller to what both threads use. `WEF_CLEAR` clears the
whole event flag.

What `smap_fifo_read` delivers of a packet is the application header and the data that the header of
the packet announces. A header that is longer than the array `dummy` it is skipped into has no next
state. `rx_hdr_size` is never read.

## Main definitions

* `Udprdma.Socket`, `Udprdma.Packet`
* `Udprdma.ist` — a packet arrives
* `Udprdma.Pc` — the statements of `udprdma_discover`, `udprdma_send`, `udprdma_send_ll`,
  `udprdma_recv`, `udprdma_set_rx_buffer` and `udprdma_set_rx_app_header`
* `Udprdma.step` — the two threads, interleaved
-/

namespace OpenPS2Loader

namespace Udprdma

open Bytes

/-- The memory of the IOP. -/
abbrev Mem : Type := ℕ → UInt8

/-- `UDPRDMA_MAX_RETRIES` -/
def maxRetries : ℕ := 4

/-- `UDPRDMA_RX_ACK_WINDOW` -/
def rxAckWindow : ℕ := 6

/-- `UDPRDMA_MAX_PAYLOAD` -/
def maxPayload : ℕ := 1408

/-- `UDPRDMA_MAX_APP_HDR` -/
def maxAppHdr : ℕ := 32

/-- `UDPRDMA_ERR_TIMEOUT` -/
def errTimeout : ℤ := -1

/-- `UDPRDMA_ERR_NACK` -/
def errNack : ℤ := -2

/-- `UDPRDMA_ERR_INVAL` -/
def errInval : ℤ := -4

/-- `UDPRDMA_ERR_NOTCONN` -/
def errNotconn : ℤ := -5

/-! ### The socket -/

/-- `udprdma_state_t` -/
inductive SocketState
  | init
  | discovering
  | connected
  | disconnected
  deriving DecidableEq

/-- The bits of the event flag. -/
structure Flags where
  rxDisc : Bool
  rxInfo : Bool
  rxAck : Bool
  rxNack : Bool
  timeout : Bool
  rxFin : Bool
  rxWindow : Bool
  deriving DecidableEq

/-- No bit. -/
def Flags.none : Flags := ⟨false, false, false, false, false, false, false⟩

/-- `struct udprdma_socket`, without the headers that are filled in for every packet. -/
structure Socket where
  port : ℕ
  serviceId : ℕ
  state : SocketState
  peerIp : ℕ
  txSeqNr : ℕ
  txSeqNrAcked : ℕ
  rxBuffer : Option ℕ
  rxBufferSize : ℕ
  rxReceived : ℕ
  rxSeqNrExpected : ℕ
  rxWindowCount : ℕ
  rxNackSent : Bool
  rxHdrBuffer : Option ℕ
  rxHdrReceived : ℕ
  flags : Flags

/-- `udprdma_create` -/
def create (port serviceId : ℕ) : Socket where
  port := if port = 0 then 0xF5F6 else port
  serviceId := serviceId
  state := .init
  peerIp := 0
  txSeqNr := 0
  txSeqNrAcked := 0
  rxBuffer := none
  rxBufferSize := 0
  rxReceived := 0
  rxSeqNrExpected := 0
  rxWindowCount := 0
  rxNackSent := false
  rxHdrBuffer := none
  rxHdrReceived := 0
  flags := .none

/-! ### Packets -/

/-- A packet that arrives. The last is one of an unknown type. -/
inductive Packet
  | discovery (serviceId addrSrc : ℕ)
  | inform (serviceId addrSrc portSrc : ℕ)
  | data (seqNr seqNrAck : ℕ) (ack fin : Bool) (header data : List UInt8)
  | unknown

/-- How many bytes `smap_fifo_read` moves by DMA. -/
def dmaBytes (dmaMaxBlockSize bytes : ℕ) : ℕ :=
  if bytes < 64 then 0
  else if 512 ≤ bytes ∧ 512 ≤ dmaMaxBlockSize ∧ bytes % 512 = 0 then bytes
  else if 256 ≤ bytes ∧ 256 ≤ dmaMaxBlockSize ∧ bytes % 256 = 0 then bytes
  else if 128 ≤ bytes ∧ bytes % 128 = 0 then bytes
  else if 128 ≤ bytes then bytes - bytes % 128
  else bytes - bytes % 64

/-- How many bytes it moves: the rest in words, and in a half word. -/
def fifoBytes (dmaMaxBlockSize bytes : ℕ) : ℕ :=
  let i := dmaBytes dmaMaxBlockSize bytes
  let i := i + 4 * ((bytes - i) / 4)
  if i + 2 ≤ bytes then i + 2 else i

/-- `smap_fifo_read`, where the frame has `l` from the offset on. -/
def smapFifoRead (dmaMaxBlockSize : ℕ) (m : Mem) (dst : ℕ) (l : List UInt8) : Mem :=
  write m dst (l.take (fifoBytes dmaMaxBlockSize l.length))

namespace Socket

/-- The application header of a packet. -/
def takeHeader (dmaMaxBlockSize : ℕ) (s : Socket) (m : Mem) (header : List UInt8) :
    Option (Socket × Mem) :=
  if header.length = 0 then some (s, m)
  else
    match s.rxHdrBuffer with
    | some dst =>
      if s.rxHdrReceived = 0 then
        some ({ s with rxHdrReceived := header.length }, smapFifoRead dmaMaxBlockSize m dst header)
      else if header.length ≤ maxAppHdr then
        some ({ s with rxHdrReceived := header.length }, m)
      else none
    | none =>
      if header.length ≤ maxAppHdr then some ({ s with rxHdrReceived := header.length }, m)
      else none

/-- `remaining`, of 32 bits -/
def remaining (s : Socket) : ℕ :=
  if s.rxReceived ≤ s.rxBufferSize then s.rxBufferSize - s.rxReceived
  else s.rxBufferSize + 2 ^ 32 - s.rxReceived

/-- The data of a packet, as far as the buffer at `dst` goes. -/
def takeData (dmaMaxBlockSize : ℕ) (s : Socket) (m : Mem) (dst : ℕ) (data : List UInt8) :
    Socket × Mem :=
  let xfer := data.take s.remaining
  ({ s with rxReceived := s.rxReceived + xfer.length },
    smapFifoRead dmaMaxBlockSize m (dst + s.rxReceived) xfer)

/-- What `_ist` does when the packet was taken. -/
def taken (s : Socket) (seqNr : ℕ) (fin : Bool) : Socket :=
  let s := { s with rxSeqNrExpected := (seqNr + 1) % 2 ^ 12, rxNackSent := false }
  if fin ∨ s.rxBufferSize ≤ s.rxReceived then { s with flags := { s.flags with rxFin := true } }
  else
    let count := (s.rxWindowCount + 1) % 2 ^ 8
    if rxAckWindow ≤ count then
      { s with rxWindowCount := 0, flags := { s.flags with rxWindow := true } }
    else { s with rxWindowCount := count }

/-- What it does when it is out of order. -/
def outOfOrder (s : Socket) : Socket :=
  if s.rxNackSent then s
  else { s with rxNackSent := true, flags := { s.flags with rxNack := true } }

/-- The acknowledgement in a packet. -/
def acked (s : Socket) (seqNrAck : ℕ) (ack : Bool) : Socket :=
  if ack then { s with txSeqNrAcked := seqNrAck, flags := { s.flags with rxAck := true } } else s

/-- The payload of a packet. -/
def payload (dmaMaxBlockSize : ℕ) (s : Socket) (m : Mem) (seqNr : ℕ) (fin : Bool)
    (header data : List UInt8) : Option (Socket × Mem) :=
  if header.length + data.length = 0 then some (s, m)
  else
    match s.rxBuffer with
    | none => some (s, m)
    | some dst =>
      if seqNr = s.rxSeqNrExpected then
        (s.takeHeader dmaMaxBlockSize m header).map fun (s, m) =>
          let (s, m) := s.takeData dmaMaxBlockSize m dst data
          (s.taken seqNr fin, m)
      else some (s.outOfOrder, m)

/-- `_ist` -/
def ist (dmaMaxBlockSize : ℕ) (s : Socket) (m : Mem) : Packet → Option (Socket × Mem)
  | .discovery serviceId addrSrc =>
    some (if serviceId = s.serviceId then
      { s with peerIp := addrSrc, flags := { s.flags with rxDisc := true } } else s, m)
  | .inform serviceId addrSrc portSrc =>
    some (if s.state ≠ .connected ∧ serviceId = s.serviceId then
      { s with peerIp := addrSrc, port := portSrc, flags := { s.flags with rxInfo := true } }
      else s, m)
  | .data seqNr seqNrAck ack fin header data =>
    (s.acked seqNrAck ack).payload dmaMaxBlockSize m seqNr fin header data
  | .unknown => some (s, m)

end Socket

/-! ### The caller -/

/-- A statement that assigns to a field of the socket. -/
inductive Assign
  | state (state : SocketState)
  | rxBuffer (buffer : Option ℕ)
  | rxBufferSize (size : ℕ)
  | rxReceived
  | rxWindowCount
  | rxNackSent
  | rxHdrBuffer (buffer : Option ℕ)
  | rxHdrReceived
  deriving DecidableEq

/-- The assignment; a field without a value gets 0. -/
def Socket.assign (s : Socket) : Assign → Socket
  | .state state => { s with state := state }
  | .rxBuffer buffer => { s with rxBuffer := buffer }
  | .rxBufferSize size => { s with rxBufferSize := size }
  | .rxReceived => { s with rxReceived := 0 }
  | .rxWindowCount => { s with rxWindowCount := 0 }
  | .rxNackSent => { s with rxNackSent := false }
  | .rxHdrBuffer buffer => { s with rxHdrBuffer := buffer }
  | .rxHdrReceived => { s with rxHdrReceived := 0 }

/-- What the caller does next. -/
inductive Pc
  /-- a call returned this -/
  | idle (result : ℤ)
  | assign (a : Assign) (next : Pc)
  /-- at `_send_discovery` -/
  | discover (retries : ℕ)
  | discoverWait (retries : ℕ)
  | discoverCancel (retries : ℕ) (bits : Flags)
  /-- at `_send_data` or `_send_data_ll` -/
  | send (header data : List UInt8) (retries : ℕ)
  | sendWait (header data : List UInt8) (retries sentSeqNr : ℕ)
  | sendCancel (header data : List UInt8) (retries sentSeqNr : ℕ) (bits : Flags)
  | sendCheck (header data : List UInt8) (retries sentSeqNr : ℕ) (bits : Flags)
  /-- at `SetAlarm` -/
  | recv
  | recvWait
  | recvCancel (bits : Flags)
  /-- at `_send_ack`, behind `EF_RX_FIN` -/
  | recvFin
  | recvResult
  | recvNack
  | recvWindow

/-- A packet that is sent. -/
inductive Sent
  | discovery
  /-- `_send_ack` -/
  | ack (isAck : Bool) (seqNr seqNrAck : ℕ)
  | data (seqNr seqNrAck : ℕ) (header data : List UInt8)
  deriving DecidableEq

/-- The socket, the memory, the caller, whether the alarm is set, and the packets that were sent. -/
structure World where
  socket : Socket
  mem : Mem
  pc : Pc
  alarm : Bool
  sent : List Sent

/-- A call. The data of `udprdma_send` and of `udprdma_send_ll` is what lies in memory from the
pointer on, and a header comes with the latter only. -/
inductive Call
  | setRxBuffer (buffer size : ℕ)
  | setRxAppHeader (buffer : Option ℕ)
  | discover
  | send (data : List UInt8) (size : ℕ)
  | sendLl (header data : List UInt8) (size : ℕ)
  | recv (buffer size : ℕ)

/-- `(size + 3) & ~3` -/
def padded (size : ℕ) : ℕ := (size + 3) / 4 * 4

/-- `udprdma_set_rx_buffer`, and then `next`. -/
def setRxBuffer (buffer size : ℕ) (next : Pc) : Pc :=
  .assign (.rxBuffer (some buffer)) <| .assign (.rxBufferSize size) <| .assign .rxReceived <|
    .assign .rxWindowCount <| .assign .rxNackSent next

/-- The first packet of a call to send; an acknowledgement that came before is forgotten. -/
def World.sendFirst (w : World) (header data : List UInt8) : World :=
  { w with
    socket := { w.socket with flags := { w.socket.flags with rxAck := false } }
    pc := .send header data 0 }

/-- What a call does up to the first access that the other thread could disturb. -/
def World.call (w : World) : Call → World
  | .setRxBuffer buffer size => { w with pc := Udprdma.setRxBuffer buffer size (.idle 0) }
  | .setRxAppHeader buffer =>
    { w with pc := .assign (.rxHdrBuffer buffer) <| .assign .rxHdrReceived <| .idle 0 }
  | .discover => { w with pc := .assign (.state .discovering) <| .discover 0 }
  | .send data size =>
    if size = 0 then { w with pc := .idle 0 }
    else if w.socket.state ≠ .connected then { w with pc := .idle errNotconn }
    else w.sendFirst [] (data.take (padded (if maxPayload < size then maxPayload else size)))
  | .sendLl header data size =>
    if maxAppHdr < header.length then { w with pc := .idle errInval }
    else if header.length + size = 0 then { w with pc := .idle 0 }
    else if w.socket.state ≠ .connected then { w with pc := .idle errNotconn }
    else w.sendFirst header (data.take (padded size))
  | .recv buffer size =>
    if size = 0 then { w with pc := .idle 0 }
    else if w.socket.state ≠ .connected then { w with pc := .idle errNotconn }
    else if w.socket.rxBuffer = none then
      { w with pc := .assign (.rxBuffer (some buffer)) <| .assign (.rxBufferSize size) <|
          .assign .rxReceived .recv }
    else { w with pc := .recv }

/-- `(int16_t)((tx_seq_nr_acked - sent_seq_nr) & 0xFFF)` -/
def ackDiff (acked sentSeqNr : ℕ) : ℤ :=
  let d : ℤ := (acked - sentSeqNr : ℤ) % 2 ^ 12
  if d < 2 ^ 15 then d else d - 2 ^ 16

/-- `_send_ack` -/
def World.sendAck (w : World) (isAck : Bool) (next : Pc) : World :=
  { w with
    pc := next
    sent := w.sent ++ [.ack isAck w.socket.txSeqNr
      (if isAck then (w.socket.rxSeqNrExpected + 2 ^ 12 - 1) % 2 ^ 12
        else w.socket.rxSeqNrExpected)] }

/-- A call to send goes on with the next try, or gives up. -/
def World.retry (w : World) (header data : List UInt8) (retries sentSeqNr : ℕ) : World :=
  { w with
    socket := { w.socket with txSeqNr := sentSeqNr }
    pc := if retries + 1 < maxRetries then .send header data (retries + 1)
      else .assign (.state .disconnected) (.idle errNack) }

/-- The next statement of the caller. There is none when it waits. -/
def World.advance (w : World) : Option World :=
  match w.pc with
  | .idle _ => none
  | .assign a next => some { w with socket := w.socket.assign a, pc := next }
  | .discover retries =>
    some { w with pc := .discoverWait retries, alarm := true, sent := w.sent ++ [.discovery] }
  | .discoverWait retries =>
    if w.socket.flags.rxInfo ∨ w.socket.flags.timeout then
      some { w with
        socket := { w.socket with flags := .none }
        pc := .discoverCancel retries w.socket.flags }
    else none
  | .discoverCancel retries bits =>
    some { w with
      alarm := false
      pc := if bits.rxInfo then .assign (.state .connected) (.idle 0)
        else if retries + 1 < maxRetries then .discover (retries + 1)
        else .assign (.state .disconnected) (.idle errTimeout) }
  | .send header data retries =>
    some { w with
      socket := { w.socket with txSeqNr := (w.socket.txSeqNr + 1) % 2 ^ 12 }
      pc := .sendWait header data retries w.socket.txSeqNr
      alarm := true
      sent := w.sent ++ [.data w.socket.txSeqNr
        ((w.socket.rxSeqNrExpected + 2 ^ 12 - 1) % 2 ^ 12) header data] }
  | .sendWait header data retries sentSeqNr =>
    if w.socket.flags.rxAck ∨ w.socket.flags.timeout then
      some { w with pc := .sendCancel header data retries sentSeqNr w.socket.flags }
    else none
  | .sendCancel header data retries sentSeqNr bits =>
    some { w with pc := .sendCheck header data retries sentSeqNr bits, alarm := false }
  | .sendCheck header data retries sentSeqNr bits =>
    let flags := { w.socket.flags with rxAck := false, timeout := false }
    let w := { w with socket := { w.socket with flags := flags } }
    let diff := ackDiff w.socket.txSeqNrAcked sentSeqNr
    some (if bits.rxAck ∧ (0 ≤ diff ∨ diff < -2048) then { w with pc := .idle 0 }
      else w.retry header data retries sentSeqNr)
  | .recv => some { w with pc := .recvWait, alarm := true }
  | .recvWait =>
    if w.socket.flags.rxFin ∨ w.socket.flags.rxNack ∨ w.socket.flags.rxWindow ∨
        w.socket.flags.timeout then
      some { w with
        socket := { w.socket with flags := .none }
        pc := .recvCancel w.socket.flags }
    else none
  | .recvCancel bits =>
    some { w with
      alarm := false
      pc := if bits.rxFin then .recvFin
        else if bits.rxNack then .recvNack
        else if bits.rxWindow then .recvWindow
        else if bits.timeout then
          .assign (.rxBuffer none) <| .assign (.rxHdrBuffer none) <|
            .assign (.state .disconnected) <| .idle errTimeout
        else .recv }
  | .recvFin => some (w.sendAck true .recvResult)
  | .recvResult =>
    some { w with
      pc := .assign (.rxBuffer none) <| .assign (.rxHdrBuffer none) <|
        .idle w.socket.rxReceived }
  | .recvNack => some (w.sendAck false .recv)
  | .recvWindow => some (w.sendAck true .recv)

/-- What happens. -/
inductive Event
  | packet (p : Packet)
  /-- `_timeout_cb` -/
  | alarm
  | call (c : Call)
  | advance

/-- The two threads. -/
def step (dmaMaxBlockSize : ℕ) (w : World) : Event → Option World
  | .packet p => (w.socket.ist dmaMaxBlockSize w.mem p).map fun (s, m) =>
      { w with socket := s, mem := m }
  | .alarm =>
    if w.alarm then
      some { w with
        socket := { w.socket with flags := { w.socket.flags with timeout := true } }
        alarm := false }
    else none
  | .call c =>
    match w.pc with
    | .idle _ => some (w.call c)
    | _ => none
  | .advance => w.advance

end Udprdma

end OpenPS2Loader
