import OpenPS2Loader.Udpfs.ReceiveRuns

/-!
# What the sender sends

A call to send sends its packet up to four times. The number moves on when the call succeeds. The
test for an acknowledgement that is too old compares a number of 12 bits, taken as one of 16, with
0; any acknowledgement passes it.

The calls are recorded beside the machine, with what they were asked to send and what they returned.
A call that is refused (no data, not connected, a header that is too long) returns at once and is
not recorded.

## Main definitions

* `Udprdma.Call.message` — what a call is asked to send
* `Udprdma.Log`, `Udprdma.loggedStep` — the calls to send, in order, and what they returned
* `Udprdma.numbered` — the packets of calls
* `Udprdma.SentBy` — the packets that were sent are those of the calls of the log

## Main results

* `Udprdma.run_sends` — in every run
-/

namespace OpenPS2Loader

namespace Udprdma

/-! ### The log -/

/-- What a call is asked to send: the header and the data. -/
structure Message where
  header : List UInt8
  data : List UInt8
  deriving DecidableEq

/-- Of `udprdma_send` up to `UDPRDMA_MAX_PAYLOAD` bytes; the data is rounded up to words. -/
def Call.message : Call → Option Message
  | .send data size => some ⟨[], data.take (padded (min size maxPayload))⟩
  | .sendLl header data size => some ⟨header, data.take (padded size)⟩
  | _ => none

/-- A call to send that returned. -/
structure SendCall where
  message : Message
  result : ℤ
  deriving DecidableEq

/-- The call has succeeded. -/
def SendCall.ok (c : SendCall) : Bool := c.result = 0

/-- The calls to send that returned, and the one in progress. -/
structure Log where
  calls : List SendCall
  current : Option Message
  deriving DecidableEq

/-- How the log goes on, where `pc` is what the caller does next. -/
def Log.next (g : Log) (pc : Pc) : Event → Log
  | .call c =>
    match pc with
    | .idle _ => g
    | _ => { g with current := c.message }
  | _ =>
    match pc, g.current with
    | .idle result, some message => ⟨g.calls ++ [⟨message, result⟩], none⟩
    | _, _ => g

/-- The two threads, and the log. -/
def loggedStep (dmaMaxBlockSize : ℕ) (x : World × Log) (e : Event) : Option (World × Log) :=
  (step dmaMaxBlockSize x.1 e).map fun w => (w, x.2.next w.pc e)

/-! ### The packets of calls -/

/-- A packet with data: its number, the header and the data. -/
abbrev DataPacket : Type := ℕ × List UInt8 × List UInt8

/-- The packet of a message, when `n` calls succeeded before. -/
def Message.packet (m : Message) (n : ℕ) : DataPacket := (n % 2 ^ 12, m.header, m.data)

/-- The packets of calls, each with the number of its copies, when `n` calls succeeded before. -/
def numbered : ℕ → List (SendCall × ℕ) → List DataPacket
  | _, [] => []
  | n, (c, k) :: cs =>
    List.replicate k (c.message.packet n) ++ numbered (if c.ok then n + 1 else n) cs

/-- The packets with data among those that were sent. -/
def Sent.dataPacket : Sent → Option DataPacket
  | .data seqNr _ header payload => some (seqNr, header, payload)
  | _ => none

/-- A call that succeeds has sent its packet up to four times, one that fails four times. -/
def SendCall.Copies (c : SendCall) (k : ℕ) : Prop :=
  1 ≤ k ∧ k ≤ maxRetries ∧ (c.result = 0 ∨ c.result = errNack ∧ k = maxRetries)

/-- The caller is not in a call to send. -/
def Pc.Quiet : Pc → Prop
  | .send _ _ _ => False
  | .sendWait _ _ _ _ => False
  | .sendCancel _ _ _ _ _ => False
  | .sendCheck _ _ _ _ _ => False
  | .assign _ next => next.Quiet
  | _ => True

/-- What the call in progress has sent, and the number of its packet. -/
inductive Sending (n tx : ℕ) (tail : List DataPacket) : Option Message → Pc → Prop
  | quiet (pc : Pc) (hpc : pc.Quiet) (htx : tx = n % 2 ^ 12) (htail : tail = []) :
    Sending n tx tail none pc
  | send (m : Message) (retries : ℕ) (hretries : retries < maxRetries) (htx : tx = n % 2 ^ 12)
    (htail : tail = List.replicate retries (m.packet n)) :
    Sending n tx tail (some m) (.send m.header m.data retries)
  | wait (m : Message) (retries : ℕ) (hretries : retries < maxRetries)
    (htx : tx = (n + 1) % 2 ^ 12) (htail : tail = List.replicate (retries + 1) (m.packet n)) :
    Sending n tx tail (some m) (.sendWait m.header m.data retries (n % 2 ^ 12))
  | cancel (m : Message) (retries : ℕ) (bits : Flags) (hretries : retries < maxRetries)
    (htx : tx = (n + 1) % 2 ^ 12) (htail : tail = List.replicate (retries + 1) (m.packet n)) :
    Sending n tx tail (some m) (.sendCancel m.header m.data retries (n % 2 ^ 12) bits)
  | check (m : Message) (retries : ℕ) (bits : Flags) (hretries : retries < maxRetries)
    (htx : tx = (n + 1) % 2 ^ 12) (htail : tail = List.replicate (retries + 1) (m.packet n)) :
    Sending n tx tail (some m) (.sendCheck m.header m.data retries (n % 2 ^ 12) bits)
  /-- the call has given up -/
  | failed (m : Message) (htx : tx = n % 2 ^ 12)
    (htail : tail = List.replicate maxRetries (m.packet n)) :
    Sending n tx tail (some m) (.assign (.state .disconnected) (.idle errNack))

/-- The packets that were sent are those of the calls of the log, and of the call in progress. -/
def SentBy (x : World × Log) : Prop :=
  ∃ copies tail, List.Forall₂ SendCall.Copies x.2.calls copies ∧
    x.1.sent.filterMap Sent.dataPacket = numbered 0 (x.2.calls.zip copies) ++ tail ∧
    Sending (x.2.calls.countP SendCall.ok) x.1.socket.txSeqNr tail x.2.current x.1.pc

variable {w w' : World} {g : Log} {n tx : ℕ} {tail : List DataPacket} {cur : Option Message}

theorem numbered_append (n : ℕ) (cs : List SendCall) (copies : List ℕ) (c : SendCall) (k : ℕ)
    (hlen : cs.length = copies.length) :
    numbered n ((cs ++ [c]).zip (copies ++ [k])) =
      numbered n (cs.zip copies) ++ List.replicate k (c.message.packet (n + cs.countP SendCall.ok))
    := by
  rw [List.zip_append hlen]
  induction cs generalizing n copies with
  | nil => simp [numbered]
  | cons d cs ih =>
    obtain ⟨j, copies, rfl⟩ := List.exists_cons_of_length_eq_add_one hlen.symm
    rw [List.zip_cons_cons, List.cons_append, numbered, numbered,
      ih _ copies (Nat.succ.inj hlen), List.append_assoc, List.countP_cons]
    congr 4
    split_ifs <;> omega

/-- Between calls, the number is the count of calls that succeeded. -/
theorem Sending.eq_of_quiet {pc : Pc} (h : Sending n tx tail cur pc) (hcur : cur = none) :
    tx = n % 2 ^ 12 ∧ tail = [] := by
  cases h with
  | quiet _ _ htx htail => exact ⟨htx, htail⟩
  | _ => cases hcur

/-! ### What other threads do -/

theorem txSeqNr_acked (s : Socket) (seqNrAck : ℕ) (ack : Bool) :
    (s.acked seqNrAck ack).txSeqNr = s.txSeqNr := by
  rw [Socket.acked]
  split_ifs <;> rfl

theorem txSeqNr_taken (s : Socket) (seqNr : ℕ) (fin : Bool) :
    (s.taken seqNr fin).txSeqNr = s.txSeqNr := by
  rw [Socket.taken]
  dsimp only
  split_ifs <;> rfl

theorem txSeqNr_takeHeader {dmaMaxBlockSize : ℕ} {s s' : Socket} {m m' : Mem} {header : List UInt8}
    (h : s.takeHeader dmaMaxBlockSize m header = some (s', m')) : s'.txSeqNr = s.txSeqNr := by
  rw [Socket.takeHeader] at h
  split at h
  · cases h
    rfl
  · split at h
    · split_ifs at h
      · cases h
        rfl
      · cases h
        rfl
    · split_ifs at h
      cases h
      rfl

/-- A packet does not change what is being sent. -/
theorem txSeqNr_ist {dmaMaxBlockSize : ℕ} {s s' : Socket} {m m' : Mem} {p : Packet}
    (h : s.ist dmaMaxBlockSize m p = some (s', m')) : s'.txSeqNr = s.txSeqNr := by
  cases p with
  | discovery serviceId addrSrc =>
    cases h
    split_ifs <;> rfl
  | inform serviceId addrSrc portSrc =>
    cases h
    split_ifs <;> rfl
  | data seqNr seqNrAck ack fin header data =>
    rw [Socket.ist] at h
    rw [← txSeqNr_acked s seqNrAck ack]
    generalize s.acked seqNrAck ack = s at h
    rw [Socket.payload] at h
    split at h
    · cases h
      rfl
    · split at h
      · cases h
        rfl
      · split_ifs at h
        · obtain ⟨⟨s₁, m₁⟩, htake, hr⟩ := Option.map_eq_some_iff.mp h
          cases hr
          rw [txSeqNr_taken]
          have hheader : s₁.txSeqNr = s.txSeqNr := txSeqNr_takeHeader htake
          exact hheader
        · cases h
          rw [Socket.outOfOrder]
          split_ifs <;> rfl
  | unknown =>
    cases h
    rfl

/-- Nothing was sent, and the caller is where it was. -/
theorem SentBy.frame (h : SentBy (w, g)) (htx : w'.socket.txSeqNr = w.socket.txSeqNr)
    (hpc : w'.pc = w.pc) (hsent : w'.sent = w.sent) : SentBy (w', g) := by
  obtain ⟨copies, tail, hcopies, hdata, hsending⟩ := h
  refine ⟨copies, tail, hcopies, by rw [hsent, hdata], ?_⟩
  rw [htx, hpc]
  exact hsending

/-! ### The statements of other calls -/

/-- What a statement of another call leaves. -/
structure Kept (w w' : World) : Prop where
  quiet : w'.pc.Quiet
  txSeqNr : w'.socket.txSeqNr = w.socket.txSeqNr
  dataPackets : w'.sent.filterMap Sent.dataPacket = w.sent.filterMap Sent.dataPacket

theorem dataPackets_append {o : Sent} (ho : o.dataPacket = none) (sent : List Sent) :
    (sent ++ [o]).filterMap Sent.dataPacket = sent.filterMap Sent.dataPacket := by
  rw [List.filterMap_append, List.filterMap_cons_none ho, List.filterMap_nil, List.append_nil]

theorem kept_of_advance (hpc : w.pc.Quiet) (hw : w.advance = some w') : Kept w w' := by
  rw [World.advance] at hw
  split at hw
  next => cases hw
  next a next hassign =>
    cases hw
    rw [hassign] at hpc
    refine ⟨hpc, ?_, rfl⟩
    cases a <;> rfl
  next retries hdiscover =>
    cases hw
    exact ⟨trivial, rfl, dataPackets_append rfl _⟩
  next retries hwait =>
    split_ifs at hw
    cases hw
    exact ⟨trivial, rfl, rfl⟩
  next retries bits hcancel =>
    cases hw
    refine ⟨?_, rfl, rfl⟩
    split_ifs <;> exact trivial
  next header data retries hsend =>
    rw [hsend] at hpc
    exact hpc.elim
  next header data retries sentSeqNr hwait =>
    rw [hwait] at hpc
    exact hpc.elim
  next header data retries sentSeqNr bits hcancel =>
    rw [hcancel] at hpc
    exact hpc.elim
  next header data retries sentSeqNr bits hcheck =>
    rw [hcheck] at hpc
    exact hpc.elim
  next hrecv =>
    cases hw
    exact ⟨trivial, rfl, rfl⟩
  next hwait =>
    split_ifs at hw
    cases hw
    exact ⟨trivial, rfl, rfl⟩
  next bits hcancel =>
    cases hw
    refine ⟨?_, rfl, rfl⟩
    split_ifs <;> exact trivial
  next hfin =>
    cases hw
    exact ⟨trivial, rfl, dataPackets_append rfl _⟩
  next hresult =>
    cases hw
    exact ⟨trivial, rfl, rfl⟩
  next hnack =>
    cases hw
    exact ⟨trivial, rfl, dataPackets_append rfl _⟩
  next hwindow =>
    cases hw
    exact ⟨trivial, rfl, dataPackets_append rfl _⟩

theorem SentBy.kept (h : SentBy (w, g)) (hcur : g.current = none) (hkept : Kept w w') :
    SentBy (w', g) := by
  obtain ⟨copies, tail, hcopies, hdata, hsending⟩ := h
  obtain ⟨htx, htail⟩ := hsending.eq_of_quiet hcur
  refine ⟨copies, tail, hcopies, hkept.dataPackets.trans hdata, ?_⟩
  rw [hkept.txSeqNr, hcur]
  exact .quiet _ hkept.quiet htx htail

/-! ### A call begins -/

theorem SentBy.sendFirst (h : SentBy (w, g)) (hcur : g.current = none) (m : Message) :
    SentBy (w.sendFirst m.header m.data, { g with current := some m }) := by
  obtain ⟨copies, tail, hcopies, hdata, hsending⟩ := h
  obtain ⟨htx, rfl⟩ := hsending.eq_of_quiet hcur
  exact ⟨copies, [], hcopies, hdata, .send m 0 (by decide) htx rfl⟩

/-- Between calls there is none in progress. -/
theorem SentBy.current_eq_none (h : SentBy (w, g)) {result : ℤ} (hpc : w.pc = .idle result) :
    g.current = none := by
  obtain ⟨copies, tail, -, -, hsending⟩ := h
  rw [hpc] at hsending
  dsimp only at hsending
  generalize g.current = cur at hsending
  cases hsending
  rfl

/-- The log of a step that is no call, when no call to send is in progress. -/
theorem Log.next_of_none (hcur : g.current = none) (pc : Pc) :
    g.next pc .advance = g ∧ g.next pc .alarm = g ∧ ∀ p, g.next pc (.packet p) = g := by
  obtain ⟨calls, current⟩ := g
  obtain rfl : current = none := hcur
  cases pc <;> exact ⟨rfl, rfl, fun _ => rfl⟩

/-- The log of a statement behind which the caller is not between calls. -/
theorem Log.next_of_busy (g : Log) {pc : Pc} (hpc : ∀ result, pc ≠ .idle result) :
    g.next pc .advance = g ∧ g.next pc .alarm = g ∧ ∀ p, g.next pc (.packet p) = g := by
  cases pc with
  | idle result => exact absurd rfl (hpc result)
  | _ => exact ⟨rfl, rfl, fun _ => rfl⟩

/-- The log of a call that sends nothing. -/
theorem Log.next_call_of_none (hcur : g.current = none) {c : Call} (hmessage : c.message = none)
    (pc : Pc) : g.next pc (.call c) = g := by
  obtain ⟨calls, current⟩ := g
  obtain rfl : current = none := hcur
  cases pc with
  | idle result => rfl
  | _ => exact congrArg (Log.mk calls) hmessage

/-- A call that sends nothing. -/
theorem SentBy.callQuiet (h : SentBy (w, g)) (hcur : g.current = none) {c : Call} {pc : Pc}
    (hquiet : pc.Quiet) (hmessage : c.message = none ∨ ∃ result, pc = .idle result) :
    SentBy ({ w with pc := pc }, g.next pc (.call c)) := by
  have hnext : g.next pc (.call c) = g := by
    obtain hnone | ⟨result, rfl⟩ := hmessage
    · exact Log.next_call_of_none hcur hnone pc
    · rfl
  rw [hnext]
  exact h.kept hcur ⟨hquiet, rfl, rfl⟩

theorem min_eq_ite (size : ℕ) : (if maxPayload < size then maxPayload else size) =
    min size maxPayload := by
  split_ifs <;> omega

theorem SentBy.call (h : SentBy (w, g)) {result : ℤ} (hpc : w.pc = .idle result) (c : Call) :
    SentBy (w.call c, g.next (w.call c).pc (.call c)) := by
  have hcur := h.current_eq_none hpc
  cases c with
  | setRxBuffer buffer size => exact h.callQuiet hcur trivial (.inl rfl)
  | setRxAppHeader buffer => exact h.callQuiet hcur trivial (.inl rfl)
  | discover => exact h.callQuiet hcur trivial (.inl rfl)
  | send data size =>
    rw [World.call, min_eq_ite]
    by_cases hsize : size = 0
    · rw [if_pos hsize]
      exact h.callQuiet hcur trivial (.inr ⟨_, rfl⟩)
    · rw [if_neg hsize]
      by_cases hconn : w.socket.state ≠ .connected
      · rw [if_pos hconn]
        exact h.callQuiet hcur trivial (.inr ⟨_, rfl⟩)
      · rw [if_neg hconn]
        exact h.sendFirst hcur ⟨[], data.take (padded (min size maxPayload))⟩
  | sendLl header data size =>
    rw [World.call]
    by_cases hlong : maxAppHdr < header.length
    · rw [if_pos hlong]
      exact h.callQuiet hcur trivial (.inr ⟨_, rfl⟩)
    · rw [if_neg hlong]
      by_cases hsize : header.length + size = 0
      · rw [if_pos hsize]
        exact h.callQuiet hcur trivial (.inr ⟨_, rfl⟩)
      · rw [if_neg hsize]
        by_cases hconn : w.socket.state ≠ .connected
        · rw [if_pos hconn]
          exact h.callQuiet hcur trivial (.inr ⟨_, rfl⟩)
        · rw [if_neg hconn]
          exact h.sendFirst hcur ⟨header, data.take (padded size)⟩
  | recv buffer size =>
    rw [World.call]
    split_ifs
    · exact h.callQuiet hcur trivial (.inl rfl)
    · exact h.callQuiet hcur trivial (.inl rfl)
    · exact h.callQuiet hcur trivial (.inl rfl)
    · exact h.callQuiet hcur trivial (.inl rfl)

/-! ### A call goes on -/

section Current

variable {m : Message} {retries : ℕ}

/-- The packet of the call is sent once more. -/
theorem SentBy.again {copies : List ℕ} (hcopies : List.Forall₂ SendCall.Copies g.calls copies)
    (hdata : w.sent.filterMap Sent.dataPacket = numbered 0 (g.calls.zip copies) ++
      List.replicate retries (m.packet (g.calls.countP SendCall.ok)))
    (hcur : g.current = some m) (hretries : retries < maxRetries)
    (htx : w.socket.txSeqNr = g.calls.countP SendCall.ok % 2 ^ 12) (seqNrAck : ℕ) :
    SentBy ({ w with
      socket := { w.socket with txSeqNr := (w.socket.txSeqNr + 1) % 2 ^ 12 }
      pc := .sendWait m.header m.data retries w.socket.txSeqNr
      alarm := true
      sent := w.sent ++ [.data w.socket.txSeqNr seqNrAck m.header m.data] }, g) := by
  refine ⟨copies, List.replicate (retries + 1) (m.packet (g.calls.countP SendCall.ok)), hcopies, ?_,
    ?_⟩
  · rw [List.filterMap_append, hdata, htx, List.replicate_succ', List.append_assoc]
    rfl
  · dsimp only
    rw [hcur, htx]
    exact .wait m retries hretries (by omega) rfl

/-- The call returns. -/
theorem SentBy.returns {copies : List ℕ} {result : ℤ}
    (hcopies : List.Forall₂ SendCall.Copies g.calls copies)
    (hdata : w.sent.filterMap Sent.dataPacket = numbered 0 (g.calls.zip copies) ++
      List.replicate retries (m.packet (g.calls.countP SendCall.ok)))
    (hcur : g.current = some m) (hfits : SendCall.Copies ⟨m, result⟩ retries)
    (hpc : w.pc = .idle result)
    (htx : w.socket.txSeqNr = (g.calls.countP SendCall.ok + if result = 0 then 1 else 0) % 2 ^ 12) :
    SentBy (w, g.next w.pc .advance) := by
  have hnext : g.next w.pc .advance = ⟨g.calls ++ [⟨m, result⟩], none⟩ := by
    obtain ⟨calls, current⟩ := g
    obtain rfl : current = some m := hcur
    rw [hpc]
    rfl
  rw [hnext]
  refine ⟨copies ++ [retries], [], List.rel_append hcopies (.cons hfits .nil), ?_, ?_⟩
  · rw [hdata, List.append_nil, numbered_append _ _ _ _ _ hcopies.length_eq, Nat.zero_add]
  · rw [hpc]
    refine .quiet _ trivial (htx.trans ?_) rfl
    rw [List.countP_append, List.countP_singleton]
    simp only [SendCall.ok, decide_eq_true_eq]

/-- The test for the acknowledgement. -/
theorem SentBy.check {copies : List ℕ} {bits : Flags}
    (hcopies : List.Forall₂ SendCall.Copies g.calls copies)
    (hdata : w.sent.filterMap Sent.dataPacket = numbered 0 (g.calls.zip copies) ++
      List.replicate (retries + 1) (m.packet (g.calls.countP SendCall.ok)))
    (hcur : g.current = some m) (hretries : retries < maxRetries)
    (htx : w.socket.txSeqNr = (g.calls.countP SendCall.ok + 1) % 2 ^ 12)
    (hpc : w.pc = .sendCheck m.header m.data retries (g.calls.countP SendCall.ok % 2 ^ 12) bits)
    (hw : w.advance = some w') : SentBy (w', g.next w'.pc .advance) := by
  rw [World.advance, hpc] at hw
  obtain rfl := Option.some.inj hw
  split_ifs with hok
  · exact .returns hcopies hdata hcur ⟨Nat.succ_pos _, hretries, .inl rfl⟩ rfl htx
  · rw [World.retry]
    by_cases hlast : retries + 1 < maxRetries
    · rw [if_pos hlast, (g.next_of_busy fun _ h => by cases h).1]
      refine ⟨copies, _, hcopies, hdata, ?_⟩
      rw [hcur]
      exact .send m (retries + 1) hlast rfl rfl
    · obtain hfour : retries + 1 = maxRetries := Nat.le_antisymm hretries (Nat.not_lt.mp hlast)
      rw [if_neg hlast, (g.next_of_busy fun _ h => by cases h).1]
      refine ⟨copies, _, hcopies, hdata, ?_⟩
      rw [hcur]
      exact .failed m rfl (by rw [hfour])

theorem SentBy.advance (h : SentBy (w, g)) (hw : w.advance = some w') :
    SentBy (w', g.next w'.pc .advance) := by
  have hkept : g.current = none → w.pc.Quiet → SentBy (w', g.next w'.pc .advance) := by
    intro hcur hquiet
    rw [(Log.next_of_none hcur w'.pc).1]
    exact h.kept hcur (kept_of_advance hquiet hw)
  obtain ⟨copies, tail, hcopies, hdata, hsending⟩ := h
  dsimp only at hcopies hdata hsending
  generalize hcur : g.current = cur at hsending
  generalize hpc : w.pc = pc at hsending
  cases hsending with
  | quiet _ hquiet htx htail => exact hkept hcur (hpc ▸ hquiet)
  | send m retries hretries htx htail =>
    rw [World.advance, hpc] at hw
    cases hw
    rw [(g.next_of_busy fun _ h => by cases h).1]
    exact .again hcopies (htail ▸ hdata) hcur hretries htx _
  | wait m retries hretries htx htail =>
    rw [World.advance, hpc] at hw
    dsimp only at hw
    split_ifs at hw
    cases hw
    rw [(g.next_of_busy fun _ h => by cases h).1]
    refine ⟨copies, tail, hcopies, hdata, ?_⟩
    rw [hcur]
    exact .cancel m retries _ hretries htx htail
  | cancel m retries bits hretries htx htail =>
    rw [World.advance, hpc] at hw
    cases hw
    rw [(g.next_of_busy fun _ h => by cases h).1]
    refine ⟨copies, tail, hcopies, hdata, ?_⟩
    rw [hcur]
    exact .check m retries bits hretries htx htail
  | check m retries bits hretries htx htail =>
    exact .check hcopies (htail ▸ hdata) hcur hretries htx hpc hw
  | failed m htx htail =>
    rw [World.advance, hpc] at hw
    cases hw
    exact .returns hcopies (htail ▸ hdata) hcur ⟨by decide, Nat.le_refl _, .inr ⟨rfl, rfl⟩⟩ rfl htx

end Current

/-! ### Runs -/

/-- **A step**, whatever the packets are. -/
theorem SentBy.step {dmaMaxBlockSize : ℕ} {x x' : World × Log} {e : Event} (h : SentBy x)
    (hx : loggedStep dmaMaxBlockSize x e = some x') : SentBy x' := by
  obtain ⟨w, g⟩ := x
  obtain ⟨w', hw, rfl⟩ := Option.map_eq_some_iff.mp hx
  dsimp only at hw ⊢
  have hother : g.next w.pc .alarm = g ∧ ∀ p, g.next w.pc (.packet p) = g := by
    by_cases hidle : ∃ result, w.pc = .idle result
    · obtain ⟨result, hpc⟩ := hidle
      exact (Log.next_of_none (h.current_eq_none hpc) w.pc).2
    · exact (g.next_of_busy fun result hpc => hidle ⟨result, hpc⟩).2
  cases e with
  | packet p =>
    obtain ⟨⟨s', m'⟩, hist, rfl⟩ := Option.map_eq_some_iff.mp hw
    dsimp only
    rw [hother.2 p]
    exact h.frame (txSeqNr_ist hist) rfl rfl
  | alarm =>
    rw [Udprdma.step] at hw
    split_ifs at hw
    cases hw
    dsimp only
    rw [hother.1]
    exact h.frame rfl rfl rfl
  | call c =>
    rw [Udprdma.step] at hw
    split at hw
    next result hpc =>
      cases hw
      exact h.call hpc c
    next => cases hw
  | advance => exact h.advance hw

/-- No call was made. -/
def Log.initial : Log := ⟨[], none⟩

theorem sentBy_initial (port serviceId : ℕ) (m : Mem) :
    SentBy (World.initial port serviceId m, Log.initial) :=
  ⟨[], [], .nil, rfl, .quiet _ trivial rfl rfl⟩

/-- **What is sent.** In every run, whatever packets arrive, the packets with data are those of the
calls to send, in their order: each one to four times, and four times where the call fails, with
what the call was asked to send and, in 12 bits, the count of the calls that succeeded before. -/
theorem run_sends (dmaMaxBlockSize port serviceId : ℕ) (m : Mem) {es : List Event}
    {x : World × Log}
    (hrun : Transition.run (loggedStep dmaMaxBlockSize)
      (World.initial port serviceId m, Log.initial) es = some x) : SentBy x :=
  Transition.run_invariant (P := SentBy) (fun _ _ _ h (_ : True) hx => h.step hx)
    (sentBy_initial port serviceId m) (fun _ _ => trivial) hrun

/-- `udprdma_discover`, and three bytes: the packet is sent again after the alarm, and the call
succeeds. The next one fails. -/
def twoCalls : List Event :=
  List.flatten [[.call .discover, .advance, .advance, .packet (.inform 7 1 2)],
    List.replicate 3 .advance, [.call (.send [1, 2, 3, 4] 3), .advance, .alarm],
    List.replicate 4 .advance, [.packet (.data 0 0 true false [] [])], List.replicate 3 .advance,
    [.call (.sendLl [9, 9, 9, 9] [5, 6, 7, 8] 4)],
    (List.replicate 4 [.advance, .alarm, .advance, .advance, .advance]).flatten, [.advance]]

theorem run_sends_twoCalls : ∃ x,
    Transition.run (loggedStep 512) (World.initial 0 7 fun _ => 0, Log.initial) twoCalls = some x ∧
    x.2 = ⟨[⟨⟨[], [1, 2, 3, 4]⟩, 0⟩, ⟨⟨[9, 9, 9, 9], [5, 6, 7, 8]⟩, errNack⟩], none⟩ ∧
    x.1.sent.filterMap Sent.dataPacket = [(0, [], [1, 2, 3, 4]), (0, [], [1, 2, 3, 4])] ++
      List.replicate 4 (1, [9, 9, 9, 9], [5, 6, 7, 8]) ∧
    SentBy x := by
  have hends : (Transition.run (loggedStep 512) (World.initial 0 7 fun _ => 0, Log.initial)
      twoCalls).map (fun x => (x.2, x.1.sent.filterMap Sent.dataPacket)) =
      some (⟨[⟨⟨[], [1, 2, 3, 4]⟩, 0⟩, ⟨⟨[9, 9, 9, 9], [5, 6, 7, 8]⟩, errNack⟩], none⟩,
        [(0, [], [1, 2, 3, 4]), (0, [], [1, 2, 3, 4])] ++
          List.replicate 4 (1, [9, 9, 9, 9], [5, 6, 7, 8])) := by decide
  obtain ⟨x, hx, hends⟩ := Option.map_eq_some_iff.mp hends
  obtain ⟨hlog, hdata⟩ := Prod.mk.inj hends
  exact ⟨x, hx, hlog, hdata, run_sends 512 0 7 (fun _ => 0) hx⟩

end Udprdma

end OpenPS2Loader
