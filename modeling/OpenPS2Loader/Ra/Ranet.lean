import Mathlib.Data.List.Basic
import OpenPS2Loader.Lib.Bytes
import OpenPS2Loader.Lib.Scan
import OpenPS2Loader.Lib.Transition

/-!
# Asking the PC for a watch list

`raAskPC` of `ranet.c` asks the PC about a game and fetches its watch list in chunks over UDP. Each
request goes through `ask`, which drops what has arrived, sends the request, polls for a reply and
starts over when none comes. The machine here makes one step per `recvfrom`; what the call returns
in each is up to the network.

Chunk replies are told apart by their index only. A reply to a request of another transfer that
comes in late is taken for the answer, a chunk that is shorter than `RA_CHUNK` leaves a gap before
the next one, and `sscanf` skips white space at the front of a chunk.

## Main definitions

* `Ranet.Answer`, `Ranet.Datagram` — what can arrive
* `Ranet.State`, `Ranet.step` — `ask` and `raAskPC`
* `Ranet.Intact` — the list is the one the PC sent

## Main results

* `Ranet.run_intact` — a transfer is intact when every chunk reply that is taken belongs to it, is
  full unless it is the last, and does not start with white space
-/

namespace OpenPS2Loader

namespace Ranet

open Bytes Scan

/-! ### Datagrams -/

/-- The PC's answer to a `RAG1` request: which game and which transfer the request was of, and the
chunk. `padding` follows the chunk. -/
structure Answer where
  hash : List UInt8
  transfer : ℕ
  index : ℕ
  payload : List UInt8
  padding : List UInt8
  index_lt : index < 2 ^ 31
  length_lt : payload.length < 2 ^ 31
  deriving DecidableEq

/-- `"RAC1"` -/
def rac1 : List UInt8 := [82, 65, 67, 49]

/-- The text in front of a chunk. -/
def Answer.header (a : Answer) : List UInt8 :=
  rac1 ++ 32 :: (decimal a.index ++ 32 :: (decimal a.payload.length ++ [32]))

inductive Datagram
  | chunk (a : Answer)
  | other (bytes : List UInt8)
  deriving DecidableEq

def Datagram.bytes : Datagram → List UInt8
  | .chunk a => a.header ++ (a.payload ++ a.padding)
  | .other bytes => bytes

/-! ### The machine -/

/-- `RA_CHUNK` -/
def chunkLen : ℕ := 896

/-- `RA_RECV_MAX` -/
def recvMax : ℕ := 992

/-- `RA_TRY` -/
def tries : ℕ := 12

/-- `RA_WAIT_ROUNDS` -/
def waitRounds : ℕ := 8

/-- `RA_MAX_BYTES` -/
def maxBytes : ℕ := 16 * 1024

/-- What is asked for: about the game, in a round of waiting, or for chunk `i` of `chunks`. -/
inductive Goal
  | question (round : ℕ)
  | chunk (chunks i attempt : ℕ)
  deriving DecidableEq, Repr

/-- Where the call is: in attempt `t` of `ask`, dropping replies (`none`) or at poll `w`; or it has
returned. -/
inductive Phase
  | ask (goal : Goal) (t : ℕ) (poll : Option ℕ)
  | done (code : ℤ)
  deriving DecidableEq, Repr

structure State where
  phase : Phase
  /-- `total` -/
  total : ℕ
  /-- `received` -/
  received : ℕ
  /-- `g_wl` -/
  wl : ℕ → UInt8
  /-- the datagrams `recvfrom` gave -/
  seen : List Datagram

/-- `raAskPC` up to the first `recvfrom`. -/
def start (nicBusy socketOk : Bool) (wl : ℕ → UInt8) : State where
  phase :=
    if nicBusy then .done (-8) else if socketOk then .ask (.question 0) 0 none else .done (-1)
  total := 0
  received := 0
  wl := wl
  seen := []

/-- What `recvfrom` puts into `g_rx`. -/
def received : Option Datagram → List UInt8
  | none => []
  | some d => d.bytes.take recvMax

/-- `sscanf` with `"RAC1 %d %d %n"`: `idx`, and when that many were read, `len` and `hdr`. -/
def scanChunk (rx : List UInt8) : ℤ × Option (ℤ × ℕ) :=
  if rac1 <+: rx then
    match scanInt (rx.drop 4) with
    | none => (-1, none)
    | some (idx, rest) =>
      match scanInt rest with
      | none => (idx, none)
      | some (len, rest) => (idx, some (len, rx.length - (skipSpace rest).length))
  else (-1, none)

/-- `sscanf` with `"%d %d"`. -/
def scanTotals (l : List UInt8) : Option (ℤ × ℤ) :=
  (scanInt l).bind fun a => (scanInt a.2).map fun b => (a.1, b.1)

/-- `d` is copied to position `p`. -/
def put (wl : ℕ → UInt8) (p : ℕ) (d : List UInt8) (j : ℕ) : UInt8 :=
  if p ≤ j then d.getD (j - p) (wl j) else wl j

/-- `"RAA1 WAIT"` -/
def raa1Wait : List UInt8 := [82, 65, 65, 49, 32, 87, 65, 73, 84]

/-- `"RAA1 OK "` -/
def raa1Ok : List UInt8 := [82, 65, 65, 49, 32, 79, 75, 32]

/-- `ask` gave up. -/
def Goal.failed : Goal → ℤ
  | .question _ => -2
  | .chunk _ _ _ => -4

/-- The reply to the question. -/
def State.onQuestion (s : State) (round : ℕ) (rx : List UInt8) : State :=
  if raa1Wait <+: rx then
    if round < waitRounds then { s with phase := .ask (.question (round + 1)) 0 none }
    else { s with phase := .done (-7) }
  else if raa1Ok <+: rx then
    match scanTotals (rx.drop 8) with
    | none => { s with phase := .done (-3) }
    | some (total, chunks) =>
      if total ≤ 0 ∨ (maxBytes : ℤ) < total ∨ chunks ≤ 0 then { s with phase := .done (-3) }
      else { s with phase := .ask (.chunk chunks.toNat 0 0) 0 none, total := total.toNat }
  else { s with phase := .done 1 }

/-- Chunk `i` was read from the reply. -/
def State.takeChunk (s : State) (chunks i : ℕ) (rx : List UInt8) (len : ℤ) (hdr : ℕ) : State :=
  if len < 0 ∨ (chunkLen : ℤ) < len ∨ (maxBytes : ℤ) < i * chunkLen + len ∨ hdr = 0 ∨
      (rx.length : ℤ) < hdr + len then { s with phase := .done (-6) }
  else
    { s with
      wl := put s.wl (i * chunkLen) (field rx hdr len.toNat)
      received := s.received + len.toNat
      phase :=
        if i + 1 < chunks then .ask (.chunk chunks (i + 1) 0) 0 none
        else if s.received + len.toNat ≠ s.total then .done (-6)
        else .done 0 }

/-- The reply to the request for chunk `i`. -/
def State.onChunk (s : State) (chunks i attempt : ℕ) (rx : List UInt8) : State :=
  match scanChunk rx with
  | (idx, some (len, hdr)) =>
    if idx = i then s.takeChunk chunks i rx len hdr
    else if attempt + 1 < 3 then { s with phase := .ask (.chunk chunks i (attempt + 1)) 0 none }
    else { s with phase := .done (-5) }
  | (idx, none) =>
    if attempt + 1 < 3 then { s with phase := .ask (.chunk chunks i (attempt + 1)) 0 none }
    else { s with phase := .done (if idx = i then -6 else -5) }

/-- `ask` returned a reply. -/
def State.onReply (s : State) (rx : List UInt8) : Goal → State
  | .question round => s.onQuestion round rx
  | .chunk chunks i attempt => s.onChunk chunks i attempt rx

/-- `recvfrom` gave nothing. -/
def silence (goal : Goal) (t : ℕ) : Option ℕ → Phase
  | none => .ask goal t (some 0)
  | some w =>
    if w + 1 < 10 then .ask goal t (some (w + 1))
    else if t + 1 < tries then .ask goal (t + 1) none
    else .done goal.failed

/-- One `recvfrom`, and what follows up to the next one. -/
def step (s : State) (e : Option Datagram) : Option State :=
  match s.phase with
  | .done _ => none
  | .ask goal t poll =>
    if received e = [] then some { s with phase := silence goal t poll }
    else
      match poll with
      | none => some { s with seen := s.seen ++ e.toList }
      | some _ => some (State.onReply { s with seen := s.seen ++ e.toList } (received e) goal)

/-! ### Intact transfers -/

/-- The call: the hash of the game, and the number of the transfer. -/
structure Call where
  hash : List UInt8
  transfer : ℕ
  deriving DecidableEq, Repr

/-- Answers to the requests of the call, in the order of their indices. -/
def Own (c : Call) (as : List Answer) : Prop :=
  ∀ (k : ℕ) (a : Answer), as[k]? = some a → a.hash = c.hash ∧ a.transfer = c.transfer ∧ a.index = k

/-- The list that is handed over is made of chunks the PC sent for this transfer. -/
def Intact (c : Call) (s : State) : Prop :=
  ∃ as : List Answer, (∀ a ∈ as, .chunk a ∈ s.seen) ∧ Own c as ∧
    slice s.wl 0 s.total = as.flatMap Answer.payload

/-- An answer that is taken as it should be, for chunk `i` of `chunks`. -/
def answerOk (c : Call) (chunks i : ℕ) : Datagram → Bool
  | .chunk a => a.hash = c.hash && a.transfer = c.transfer &&
      (chunks ≤ i + 1 || a.payload.length = chunkLen) && !a.payload.head?.any isSpace
  | .other _ => false

/-- A reply that is taken as a chunk is one that should be. -/
def takenOk (c : Call) (s : State) (e : Option Datagram) : Bool :=
  match s.phase, e with
  | .ask (.chunk chunks i _) _ (some _), some d =>
    (scanChunk (received e)).1 ≠ i || (scanChunk (received e)).2.isNone || answerOk c chunks i d
  | _, _ => true

/-! ### Reading a chunk reply -/

theorem Answer.length_header_le (a : Answer) : a.header.length ≤ 27 := by
  have hindex := length_decimalFrom_le (a.index + 1) (show 0 < 10 by decide)
    (a.index_lt.trans (show 2 ^ 31 < 10 ^ 10 by decide))
  have hlength := length_decimalFrom_le (a.payload.length + 1) (show 0 < 10 by decide)
    (a.length_lt.trans (show 2 ^ 31 < 10 ^ 10 by decide))
  rw [← decimal] at hindex hlength
  simp only [header, rac1, List.length_append, List.length_cons, List.length_nil]
  omega

/-- What `recvfrom` gives of a chunk reply: the header, and as much of the rest as fits. -/
theorem received_chunk (a : Answer) :
    received (some (.chunk a)) =
      a.header ++ (a.payload ++ a.padding).take (recvMax - a.header.length) := by
  have hle := a.length_header_le
  rw [received, Datagram.bytes, List.take_append, List.take_of_length_le]
  rw [recvMax]
  omega

/-- `sscanf` reads the index and the length, and skips white space. -/
theorem scanChunk_answer (a : Answer) (rest : List UInt8) :
    scanChunk (a.header ++ rest) = ((a.index : ℤ), some ((a.payload.length : ℤ),
      (a.header ++ rest).length - (skipSpace rest).length)) := by
  have hspace : isSpace 32 = true := rfl
  have hdigit : isDigit 32 = false := rfl
  have hdrop : (a.header ++ rest).drop 4 =
      32 :: (decimal a.index ++ 32 :: (decimal a.payload.length ++ 32 :: rest)) := by
    simp [Answer.header, rac1]
  have hprefix : rac1 <+: a.header ++ rest :=
    ⟨32 :: (decimal a.index ++ 32 :: (decimal a.payload.length ++ 32 :: rest)), by
      simp [Answer.header]⟩
  rw [scanChunk, if_pos hprefix, hdrop, scanInt_cons_of_space hspace, scanInt_decimal _ hdigit]
  dsimp only
  rw [scanInt_cons_of_space hspace, scanInt_decimal _ hdigit]
  dsimp only
  rw [skipSpace_cons_of_space hspace]

/-- A chunk that does not start with white space is read as it is. -/
theorem field_received_chunk {a : Answer} (hspace : a.payload.head?.any isSpace = false)
    {len : ℤ} {hdr : ℕ} (hscan : (scanChunk (received (some (.chunk a)))).2 = some (len, hdr))
    (hfit : (hdr + len : ℤ) ≤ (received (some (.chunk a))).length) :
    len = a.payload.length ∧ field (received (some (.chunk a))) hdr len.toNat = a.payload := by
  rw [received_chunk] at hscan hfit ⊢
  rw [scanChunk_answer] at hscan
  obtain ⟨rfl, rfl⟩ := Prod.mk.inj (Option.some.inj hscan)
  refine ⟨rfl, ?_⟩
  rw [Int.toNat_natCast]
  obtain hnil | hskip : a.payload = [] ∨ skipSpace
      ((a.payload ++ a.padding).take (recvMax - a.header.length)) =
        (a.payload ++ a.padding).take (recvMax - a.header.length) := by
    cases hp : a.payload with
    | nil => exact Or.inl rfl
    | cons c p =>
      have hle := a.length_header_le
      rw [hp, List.head?_cons, Option.any_some] at hspace
      obtain ⟨m, hm⟩ : ∃ m, recvMax - a.header.length = m + 1 :=
        ⟨recvMax - a.header.length - 1, by rw [recvMax]; omega⟩
      rw [hm, List.cons_append, List.take_succ_cons]
      exact Or.inr (skipSpace_cons_of_not_space hspace _)
  · rw [hnil, field, List.length_nil, List.take_zero]
  · rw [hskip, List.length_append, Nat.add_sub_cancel, List.length_take] at hfit
    rw [hskip, List.length_append, Nat.add_sub_cancel, field, List.drop_left' rfl, List.take_take,
      Nat.min_eq_left (by omega), List.take_left' rfl]

/-- The bytes up to the end of a copy. -/
theorem slice_put (wl : ℕ → UInt8) (p : ℕ) (d : List UInt8) :
    slice (put wl p d) 0 (p + d.length) = slice wl 0 p ++ d := by
  rw [slice_add, Nat.zero_add]
  congr 1
  · refine slice_congr fun i hi => ?_
    rw [put, if_neg (by omega)]
  · refine slice_eq_of_getElem? rfl fun i hi => ?_
    rw [put, if_pos (Nat.le_add_right p i), Nat.add_sub_cancel_left, List.getD_eq_getElem?_getD,
      List.getElem?_eq_getElem hi, Option.getD_some]

/-! ### The invariant -/

/-- What holds of the answers `as` taken so far, by where the call is. -/
def Stored (s : State) (as : List Answer) : Phase → Prop
  | .ask (.question _) _ _ => as = [] ∧ s.received = 0
  | .ask (.chunk _ i _) _ _ => as.length = i ∧ s.received = i * chunkLen ∧
      slice s.wl 0 s.received = as.flatMap Answer.payload
  | .done code => code = 0 → slice s.wl 0 s.total = as.flatMap Answer.payload

/-- The answers taken so far are those that are stored. -/
structure Collected (c : Call) (s : State) (as : List Answer) : Prop where
  seen : ∀ a ∈ as, .chunk a ∈ s.seen
  own : Own c as
  stored : Stored s as s.phase

theorem Own.concat {c : Call} {as : List Answer} (h : Own c as) {a : Answer}
    (ha : a.hash = c.hash ∧ a.transfer = c.transfer ∧ a.index = as.length) : Own c (as ++ [a]) := by
  intro k b hb
  rw [List.getElem?_append] at hb
  split_ifs at hb with hk
  · exact h k b hb
  · rw [List.getElem?_singleton] at hb
    split_ifs at hb with hk'
    obtain rfl := Option.some.inj hb
    exact ⟨ha.1, ha.2.1, by omega⟩

/-- A chunk of the transfer is stored behind those before it. -/
theorem Collected.takeChunk {c : Call} {s : State} {as : List Answer} {chunks i attempt t : ℕ}
    {poll : Option ℕ} (h : Collected c s as)
    (hphase : s.phase = .ask (.chunk chunks i attempt) t poll)
    {a : Answer} (ha : .chunk a ∈ s.seen) (hok : answerOk c chunks i (.chunk a) = true)
    (hindex : a.index = i) {len : ℤ} {hdr : ℕ}
    (hscan : (scanChunk (received (some (.chunk a)))).2 = some (len, hdr)) :
    ∃ as', Collected c (s.takeChunk chunks i (received (some (.chunk a))) len hdr) as' := by
  have hstored := h.stored
  rw [hphase] at hstored
  obtain ⟨hlen, hreceived, hslice⟩ := hstored
  simp only [answerOk, Bool.and_eq_true, Bool.or_eq_true, decide_eq_true_eq,
    Bool.not_eq_true'] at hok
  obtain ⟨⟨⟨hhash, htransfer⟩, hfull⟩, hspace⟩ := hok
  have hown : Own c (as ++ [a]) := h.own.concat ⟨hhash, htransfer, hindex.trans hlen.symm⟩
  have hseen : ∀ b ∈ as ++ [a], .chunk b ∈ s.seen := by
    intro b hb
    obtain hb | hb := List.mem_append.mp hb
    · exact h.seen b hb
    · obtain rfl := List.mem_singleton.mp hb
      exact ha
  have hput : (hdr + len : ℤ) ≤ (received (some (.chunk a))).length →
      slice (put s.wl (i * chunkLen) (field (received (some (.chunk a))) hdr len.toNat)) 0
        (s.received + len.toNat) = (as ++ [a]).flatMap Answer.payload ∧
          len = a.payload.length := by
    intro hfit
    obtain ⟨hval, hread⟩ := field_received_chunk hspace hscan hfit
    refine ⟨?_, hval⟩
    rw [hread, hval, Int.toNat_natCast, hreceived, slice_put, ← hreceived, hslice,
      List.flatMap_append, List.flatMap_singleton]
  rw [State.takeChunk]
  split_ifs with hbad hmore htotal
  · exact ⟨as, h.seen, h.own, fun h0 => absurd h0 (by decide)⟩
  · obtain ⟨hslice', hval⟩ := hput (by omega)
    refine ⟨as ++ [a], hseen, hown, ?_, ?_, hslice'⟩
    · rw [List.length_append, hlen, List.length_singleton]
    · have hchunk := hfull.resolve_left (by omega)
      rw [hval, Int.toNat_natCast, hreceived, hchunk, Nat.succ_mul]
  · exact ⟨as, h.seen, h.own, fun h0 => absurd h0 (by decide)⟩
  · obtain ⟨hslice', -⟩ := hput (by omega)
    refine ⟨as ++ [a], hseen, hown, fun _ => ?_⟩
    dsimp only
    rw [← not_not.mp htotal, hslice']

/-- Asking again, or giving up. -/
theorem Collected.of_phase {c : Call} {s : State} {as : List Answer} (h : Collected c s as)
    {goal : Goal} {t : ℕ} {poll : Option ℕ} (hphase : s.phase = .ask goal t poll) {p : Phase}
    (hp : (∃ t' poll', p = .ask goal t' poll') ∨ ∃ code, p = .done code ∧ code ≠ 0) :
    Collected c { s with phase := p } as := by
  refine ⟨h.seen, h.own, ?_⟩
  have hstored := h.stored
  rw [hphase] at hstored
  obtain ⟨t', poll', rfl⟩ | ⟨code, rfl, hcode⟩ := hp
  · cases goal with
    | question round => exact hstored
    | chunk chunks i attempt => exact hstored
  · exact fun h0 => absurd h0 hcode

theorem silence_cases (goal : Goal) (t : ℕ) (poll : Option ℕ) :
    (∃ t' poll', silence goal t poll = .ask goal t' poll') ∨
      ∃ code, silence goal t poll = .done code ∧ code ≠ 0 := by
  cases poll with
  | none => exact Or.inl ⟨t, some 0, rfl⟩
  | some w =>
    rw [silence]
    split_ifs
    · exact Or.inl ⟨t, some (w + 1), rfl⟩
    · exact Or.inl ⟨t + 1, none, rfl⟩
    · refine Or.inr ⟨goal.failed, rfl, ?_⟩
      cases goal with
      | question _ => exact (by decide : (-2 : ℤ) ≠ 0)
      | chunk _ _ _ => exact (by decide : (-4 : ℤ) ≠ 0)

theorem Collected.onQuestion {c : Call} {s : State} {as : List Answer} (h : Collected c s as)
    {round t : ℕ} {poll : Option ℕ} (hphase : s.phase = .ask (.question round) t poll)
    (rx : List UInt8) : Collected c (s.onQuestion round rx) as := by
  have hstored := h.stored
  rw [hphase] at hstored
  obtain ⟨has, hreceived⟩ := hstored
  rw [State.onQuestion]
  split_ifs
  · exact ⟨h.seen, h.own, has, hreceived⟩
  · exact ⟨h.seen, h.own, fun h0 => absurd h0 (by decide)⟩
  · split
    next => exact ⟨h.seen, h.own, fun h0 => absurd h0 (by decide)⟩
    next =>
      split_ifs
      · exact ⟨h.seen, h.own, fun h0 => absurd h0 (by decide)⟩
      · refine ⟨h.seen, h.own, ?_, ?_, ?_⟩
        · rw [has, List.length_nil]
        · rw [hreceived, Nat.zero_mul]
        · rw [hreceived, has, slice_zero, List.flatMap_nil]
  · exact ⟨h.seen, h.own, fun h0 => absurd h0 (by decide)⟩

theorem Collected.onChunk {c : Call} {s : State} {as : List Answer} (h : Collected c s as)
    {chunks i attempt t : ℕ} {poll : Option ℕ}
    (hphase : s.phase = .ask (.chunk chunks i attempt) t poll) {d : Datagram} (hd : d ∈ s.seen)
    (hok : (scanChunk (received (some d))).1 = i → (scanChunk (received (some d))).2.isSome →
      answerOk c chunks i d = true) :
    ∃ as', Collected c (s.onChunk chunks i attempt (received (some d))) as' := by
  have hagain : ∀ attempt', Collected c
      { s with phase := .ask (.chunk chunks i attempt') 0 none } as := by
    intro attempt'
    have hstored := h.stored
    rw [hphase] at hstored
    exact ⟨h.seen, h.own, hstored⟩
  have hfail : ∀ code : ℤ, code ≠ 0 → Collected c { s with phase := .done code } as :=
    fun code hcode =>
    h.of_phase hphase (Or.inr ⟨code, rfl, hcode⟩)
  rw [State.onChunk]
  split
  next idx len hdr hscan =>
    split_ifs with hidx
    · rw [hscan] at hok
      have hans := hok hidx rfl
      cases d with
      | other bytes => cases hans
      | chunk a =>
        rw [received_chunk, scanChunk_answer] at hscan
        have hindex : a.index = i := by
          have := (Prod.mk.inj hscan).1
          omega
        refine h.takeChunk hphase hd hans hindex ?_
        rw [received_chunk, scanChunk_answer, (Prod.mk.inj hscan).2]
    · exact ⟨as, hagain (attempt + 1)⟩
    · exact ⟨as, hfail (-5) (by decide)⟩
  next idx hscan =>
    split_ifs
    · exact ⟨as, hagain (attempt + 1)⟩
    · exact ⟨as, hfail (-6) (by decide)⟩
    · exact ⟨as, hfail (-5) (by decide)⟩

/-- One `recvfrom` keeps the invariant. -/
theorem Collected.step {c : Call} {s s' : State} {as : List Answer} {e : Option Datagram}
    (h : Collected c s as) (hok : takenOk c s e = true) (hstep : step s e = some s') :
    ∃ as', Collected c s' as' := by
  obtain ⟨phase, total, rcv, wl, seen⟩ := s
  cases phase with
  | done code => cases hstep
  | ask goal t poll =>
    rw [Ranet.step] at hstep
    dsimp only at hstep
    split_ifs at hstep with hnone
    · cases hstep
      exact ⟨as, h.of_phase rfl (silence_cases goal t poll)⟩
    · have hgrow : Collected c ⟨.ask goal t poll, total, rcv, wl, seen ++ e.toList⟩ as :=
        ⟨fun a ha => List.mem_append_left _ (h.seen a ha), h.own, h.stored⟩
      cases poll with
      | none =>
        cases hstep
        exact ⟨as, hgrow⟩
      | some w =>
        cases hstep
        cases e with
        | none => exact absurd rfl hnone
        | some d =>
          cases goal with
          | question round => exact ⟨as, hgrow.onQuestion rfl _⟩
          | chunk chunks i attempt =>
            refine hgrow.onChunk rfl (List.mem_append_right _ (List.mem_singleton.mpr rfl)) ?_
            intro hidx hsome
            simp only [takenOk, Bool.or_eq_true, decide_eq_true_eq, hidx, ne_eq, not_true_eq_false,
              Option.isNone_iff_eq_none, false_or] at hok
            obtain hnone' | hans := hok
            · rw [hnone'] at hsome
              cases hsome
            · exact hans

/-- **The transfer is intact.** Whatever the network does, when every reply that is taken as a chunk
answers a request of this call, is full unless it is the last, and does not start with white space,
a call that returns 0 hands over the chunks the PC sent for it. -/
theorem run_intact (c : Call) (nicBusy socketOk : Bool) (wl : ℕ → UInt8)
    (es : List (Option Datagram)) (s : State)
    (hok : Transition.RunOk step (fun s e => takenOk c s e = true) (start nicBusy socketOk wl) es)
    (hrun : Transition.run step (start nicBusy socketOk wl) es = some s)
    (hdone : s.phase = .done 0) : Intact c s := by
  have hstart : ∃ as, Collected c (start nicBusy socketOk wl) as := by
    refine ⟨[], ⟨(fun a ha => by cases ha), (fun k a ha => by cases ha), ?_⟩⟩
    rw [start]
    dsimp only
    split_ifs
    · exact fun h0 => absurd h0 (by decide)
    · exact ⟨rfl, rfl⟩
    · exact fun h0 => absurd h0 (by decide)
  obtain ⟨as, h⟩ := Transition.run_invariant_of_runOk (P := fun s => ∃ as, Collected c s as)
    (fun _ _ _ ⟨_, h⟩ hok hstep => h.step hok hstep) hstart hok hrun
  have hstored := h.stored
  rw [hdone] at hstored
  exact ⟨as, h.seen, h.own, hstored rfl⟩

/-! ### Runs -/

/-- The reply that announces the list. -/
def announce (total chunks : ℕ) : Datagram :=
  .other (raa1Ok ++ (decimal total ++ 32 :: (decimal chunks ++ [32])))

/-- Game `A` and game `B`, in transfers 2 and 1. -/
def gameA : Call := ⟨[65], 2⟩

def answerA (index : ℕ) (payload padding : List UInt8) (hindex : index < 2 ^ 31)
    (hlength : payload.length < 2 ^ 31) : Datagram :=
  .chunk ⟨[65], 2, index, payload, padding, hindex, hlength⟩

def answerB (payload : List UInt8) (hlength : payload.length < 2 ^ 31) : Datagram :=
  .chunk ⟨[66], 1, 0, payload, [], by decide, hlength⟩

def fullChunk : List UInt8 := List.replicate chunkLen 7

theorem length_fullChunk_lt : fullChunk.length < 2 ^ 31 := by
  rw [fullChunk, List.length_replicate]
  decide

/-- Two chunks, the first one full. -/
def twoChunks : List (Option Datagram) :=
  [none, some (announce 898 2), none,
    some (answerA 0 fullChunk [] (by decide) length_fullChunk_lt), none,
    some (answerA 1 [8, 9] [0, 0] (by decide) (by decide))]

theorem run_intact_twoChunks : ∃ s,
    Transition.run step (start false true fun _ => 170) twoChunks = some s ∧ s.phase = .done 0 ∧
      s.total = 898 ∧ Intact gameA s := by
  have hends : (Transition.run step (start false true fun _ => 170) twoChunks).map
      (fun s => (s.phase, s.total)) = some (.done 0, 898) := by decide +kernel
  obtain ⟨s, hs, hends⟩ := Option.map_eq_some_iff.mp hends
  obtain ⟨hdone, htotal⟩ := Prod.mk.inj hends
  refine ⟨s, hs, hdone, htotal, run_intact gameA false true (fun _ => 170) twoChunks s ?_ hs hdone⟩
  decide +kernel

/-- The datagram has the byte `b` in a chunk of the game. -/
def Datagram.carries (c : Call) (b : UInt8) : Datagram → Bool
  | .chunk a => a.hash = c.hash && a.payload.contains b
  | .other _ => false

/-- A byte of an intact list is one of a chunk of the game. -/
theorem Intact.carries {c : Call} {s : State} (h : Intact c s) {b : UInt8}
    (hb : b ∈ slice s.wl 0 s.total) : s.seen.any (Datagram.carries c b) = true := by
  obtain ⟨as, hseen, hown, hslice⟩ := h
  rw [hslice] at hb
  obtain ⟨a, ha, hba⟩ := List.mem_flatMap.mp hb
  obtain ⟨k, hk⟩ := List.mem_iff_getElem?.mp ha
  refine List.any_eq_true.mpr ⟨.chunk a, hseen a ha, ?_⟩
  rw [Datagram.carries, (hown k a hk).1, List.contains_iff_mem.mpr hba, Bool.and_true]
  exact decide_eq_true rfl

/-- Three transfers of game `A` that return 0 with another list: a late answer about game `B`; a
first chunk of one byte, and what was in the buffer before in the place of the second; a chunk that
starts with a space. -/
theorem not_run_intact :
    (∃ s, Transition.run step (start false true fun _ => 170)
        [none, some (announce 2 1), none, some (answerB [3, 4] (by decide))] = some s ∧
      s.phase = .done 0 ∧ ¬Intact gameA s) ∧
    (∃ s, Transition.run step (start false true fun _ => 170)
        [none, some (announce 3 2), none, some (answerA 0 [7] [] (by decide) (by decide)), none,
          some (answerA 1 [8, 9] [] (by decide) (by decide))] = some s ∧
      s.phase = .done 0 ∧ ¬Intact gameA s) ∧
    ∃ s, Transition.run step (start false true fun _ => 170)
        [none, some (announce 2 1), none, some (answerA 0 [32, 7] [0] (by decide) (by decide))] =
          some s ∧
      s.phase = .done 0 ∧ ¬Intact gameA s := by
  refine ⟨⟨_, rfl, rfl, fun h => ?_⟩, ⟨_, rfl, rfl, fun h => ?_⟩, _, rfl, rfl, fun h => ?_⟩
  · exact absurd (h.carries (b := 3) (by decide)) (by decide)
  · exact absurd (h.carries (b := 170) (by decide)) (by decide)
  · exact absurd (h.carries (b := 0) (by decide)) (by decide)

end Ranet

end OpenPS2Loader
