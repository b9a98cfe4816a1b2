import Mathlib.Tactic.NormNum
import OpenPS2Loader.Http.StreamRange

/-!
# Disc reads over HTTP

`DeviceReadSectors` of `device-http.c`: the sectors of a read are one range of the image, requested
on the socket that is kept alive, or on a new one. A connection that was dropped is retried once.

That the server has dropped a connection is seen when the request is sent, or when nothing is
received behind it. Only the first is retried: without an answer, `HttpStreamBegin` says that the
header is wrong.

`httpStopped` is set by another thread: what it is when it is looked at is an input. A socket is
what the server sends behind the request, and whether it is the server that ends it or the time
that runs out.

## Main definitions

* `HttpDevice.deviceReadSectors`
* `HttpDevice.ReadsExactly`, `HttpDevice.RetriesDropped` — what a read should do

## Main results

* `HttpDevice.readsExactly` — a read that succeeds is the range
* `HttpDevice.readsAndRetries_iff`
* `HttpDevice.not_readsAndRetries_silent`
-/

namespace OpenPS2Loader

namespace HttpDevice

open HttpStream

/-! ### The device -/

/-- A connected socket: what is received on it, whether all of a request can be sent, and whether it
ends because the server closes it. -/
structure Sock where
  conn : Conn
  send : Text → Bool
  closed : Bool

/-- The settings that a launch leaves for the driver. -/
structure Settings where
  server : Text
  uri : Text
  sizeLo : UInt32
  sizeHi : UInt32

/-- The size of the image. -/
def Settings.expected (s : Settings) : UInt64 := (s.sizeHi.toUInt64 <<< 32) ||| s.sizeLo.toUInt64

/-- What the driver meets: `httpReady`, `httpStopped` when it is looked at before the read and
before each attempt, and what `httpOpen` gives in each attempt. -/
structure World where
  ready : Bool
  stoppedBefore : Bool
  stopped : ℕ → Bool
  httpOpen : ℕ → Option Sock

/-- `SCECdErNO`, `SCECdErREAD`. -/
inductive Rv
  | no
  | read
  deriving DecidableEq

/-- What a read returns, what it has stored in the buffer from its start on, the socket it leaves,
and the attempts in which it called `httpOpen`. -/
structure Result where
  rv : Rv
  buffer : Text
  sock : Option Sock
  opened : List ℕ

/-- The request for the range from `first` to `last`. -/
def rangeRequest (settings : Settings) (first last : UInt64) : Request where
  host := settings.server
  uri := settings.uri
  useRange := true
  rangeStart := first.toNat
  rangeEnd := last.toNat
  keepAlive := true

/-- The loop over `HttpStreamRead`, with `need` bytes still to come: the bytes that are stored, and
whether they are all. -/
def readLoop (stream : Stream) (conn : Conn) (need : ℕ) : Text × Bool × Conn :=
  if _h : need = 0 then ([], true, conn)
  else
    match httpStreamRead stream conn need with
    | (.ok (b :: r), stream, conn) =>
      let (rest, all, conn) := readLoop stream conn (need - (b :: r).length)
      (b :: r ++ rest, all, conn)
    | (_, _, conn) => ([], false, conn)
termination_by need
decreasing_by
  simp only [List.length_cons]
  omega

/-- An attempt on a connected socket: the bytes that are stored, and the socket when they are all,
or the status. -/
def attempt (settings : Settings) (req : Request) (s : Sock) :
    Text × Except (Except StreamErr ℕ) Sock :=
  let (reply, stream, conn) := httpStreamBegin s.send req s.conn
  match reply.result with
  | .ok 206 =>
    if reply.hasTotal = true ∧ reply.total = settings.expected.toNat then
      let (buffer, all, conn) := readLoop stream conn reply.contentLen.toNat
      (buffer, if all then .ok { s with conn } else .error (.error .trunc))
    else ([], .error (.ok 206))
  | status => ([], .error status)

/-- The attempts, from the `i`-th one on. -/
def attempts (settings : Settings) (w : World) (req : Request) :
    ℕ → ℕ → Option Sock → Result
  | 0, _, sock => ⟨.read, [], sock, []⟩
  | n + 1, i, sock =>
    if w.stopped i then ⟨.read, [], sock, []⟩
    else
      let opened := if sock.isNone then [i] else []
      match sock.or (w.httpOpen i) with
      | none => ⟨.read, [], none, opened⟩
      | some s =>
        match attempt settings req s with
        | (buffer, .ok s) => ⟨.no, buffer, some s, opened⟩
        | (buffer, .error status) =>
          if status = .error .send ∨ status = .error .trunc then
            let r := attempts settings w req n (i + 1) none
            { r with opened := opened ++ r.opened }
          else ⟨.read, buffer, none, opened⟩

/-- `DeviceReadSectors`, with the socket that the read before has left. -/
def deviceReadSectors (settings : Settings) (w : World) (sock : Option Sock) (lsn : UInt64)
    (sectors : UInt32) : Result :=
  let expected := settings.expected
  if sectors = 0 then ⟨.no, [], sock, []⟩
  else if w.ready = false ∨ w.stoppedBefore = true ∨ expected >>> 11 < lsn ∨
      (expected >>> 11) - lsn < sectors.toUInt64 ∨ 0x7fffffff / 2048 < sectors then
    ⟨.read, [], sock, []⟩
  else
    let first := lsn <<< 11
    let last := first + (sectors.toUInt64 <<< 11) - 1
    attempts settings w (rangeRequest settings first last) 2 0 sock

/-! ### What a read should do -/

/-- The bytes are the body of an answer that `HttpStreamBegin` takes for exactly this range of an
image of this size: the header says so, and the body is what follows it. -/
structure Answered (settings : Settings) (first size : ℕ) (response buffer : Text) : Prop where
  length : buffer.length = size
  body : ∃ e status h, headerEnd response = some e ∧
    parseHeader (response.take e) = .ok (status, h) ∧ status = 206 ∧
    h.sawChunked = false ∧ h.sawEncoding = false ∧ h.sawMultipart = false ∧
    h.bodyLen = some size ∧
    h.range = some (first, first + size - 1, settings.expected.toNat) ∧
    buffer = (response.drop e).take size

/-- A read that succeeds has stored the sectors: there are none, or they are in the image, and an
attempt was answered. -/
def ReadsExactly (settings : Settings) (w : World) (sock : Option Sock) (lsn : UInt64)
    (sectors : UInt32) : Prop :=
  (deviceReadSectors settings w sock lsn sectors).rv = .no →
    sectors = 0 ∧ (deviceReadSectors settings w sock lsn sectors).buffer = [] ∨
      2048 * (lsn.toNat + sectors.toNat) ≤ settings.expected.toNat ∧
        ∃ s, (sock = some s ∨ ∃ i, w.httpOpen i = some s) ∧
          Answered settings (2048 * lsn.toNat) (2048 * sectors.toNat) s.conn.rest
            (deviceReadSectors settings w sock lsn sectors).buffer

/-- A read that gets as far as an attempt. -/
def Attempted (settings : Settings) (w : World) (lsn : UInt64) (sectors : UInt32) : Prop :=
  sectors ≠ 0 ∧ w.ready = true ∧ w.stoppedBefore = false ∧ w.stopped 0 = false ∧
    lsn.toNat + sectors.toNat ≤ settings.expected.toNat / 2048 ∧ sectors.toNat ≤ 1048575 ∧
    checkRequest (rangeRequest settings (lsn <<< 11)
      ((lsn <<< 11) + (sectors.toUInt64 <<< 11) - 1)) = .ok ()

/-- The request of that attempt. -/
def firstRequest (settings : Settings) (lsn : UInt64) (sectors : UInt32) : Text :=
  requestText (rangeRequest settings (lsn <<< 11) ((lsn <<< 11) + (sectors.toUInt64 <<< 11) - 1))

/-- A socket that was kept alive and that the server has closed, before it has sent a byte, is
retried on a new connection, unless the driver is stopped. -/
def RetriesDropped (settings : Settings) (w : World) (sock : Option Sock) (lsn : UInt64)
    (sectors : UInt32) : Prop :=
  ∀ s ∈ sock, Attempted settings w lsn sectors → s.closed = true →
    (s.send (firstRequest settings lsn sectors) = false ∨ s.conn.rest = []) →
    w.stopped 1 = false → 1 ∈ (deviceReadSectors settings w sock lsn sectors).opened

/-- The server has closed a socket that was kept alive, and it is seen only when nothing is received
behind the request. -/
def Silent (settings : Settings) (w : World) (sock : Option Sock) (lsn : UInt64)
    (sectors : UInt32) : Prop :=
  ∃ s ∈ sock, Attempted settings w lsn sectors ∧ s.closed = true ∧
    s.send (firstRequest settings lsn sectors) = true ∧ s.conn.rest = [] ∧ w.stopped 1 = false

section Exact

variable {settings : Settings} {w : World} {req : Request} {s s' : Sock} {stream : Stream}
  {conn : Conn} {need : ℕ} {avail buffer : Text}

/-- **The loop over the body.** When all of it is there, it is what was stored. -/
theorem readLoop_framed (h : Framed stream conn need avail)
    (hall : (readLoop stream conn need).2.1 = true) :
    (readLoop stream conn need).1 = avail.take need ∧ need ≤ avail.length := by
  induction need using Nat.strong_induction_on generalizing stream conn avail with
  | _ need ih =>
    rw [readLoop] at hall ⊢
    by_cases hzero : need = 0
    · rw [dif_pos hzero, hzero]
      exact ⟨rfl, Nat.zero_le _⟩
    rw [dif_neg hzero] at hall ⊢
    obtain ⟨hok, herr⟩ := httpStreamRead_framed h (w := need) (by omega) rfl
    generalize hn : min (min (need : ℤ) streamChunk).toNat need = n at hok herr
    have hpos : 0 < n := by
      rw [← hn, streamChunk]
      omega
    have hle : n ≤ need := by omega
    rcases Nat.lt_or_ge avail.length n with hshort | hlong
    · obtain ⟨hread, -⟩ := herr hshort
      rcases hres : httpStreamRead stream conn need with ⟨res, stream', conn'⟩
      rw [hres] at hread hall
      cases hread
      cases hall
    · obtain ⟨hread, hnext⟩ := hok hlong
      rcases hres : httpStreamRead stream conn need with ⟨res, stream', conn'⟩
      rw [hres] at hread hnext hall
      obtain ⟨b, r, hbr⟩ := List.exists_cons_of_ne_nil
        (List.ne_nil_of_length_pos (by rw [List.length_take]; omega : 0 < (avail.take n).length))
      have hlen : (b :: r).length = n := by
        rw [← hbr, List.length_take]
        omega
      dsimp only at hread hnext
      rw [hread, hbr] at hall ⊢
      dsimp only at hall ⊢
      rw [hlen] at hall ⊢
      obtain ⟨hrest, hmore⟩ := ih (need - n) (by omega) hnext hall
      rw [List.length_drop] at hmore
      refine ⟨?_, by omega⟩
      rw [hrest, ← hbr, ← List.take_add, Nat.add_sub_cancel' hle]

/-- What a 206 has to say for its body to be streamed. -/
theorem checkResponse_partial {hd : Header} {bodyLen : ℕ} (hreq : req.useRange = true)
    (h : checkResponse req 206 hd = .ok (some bodyLen)) :
    hd.sawChunked = false ∧ hd.sawEncoding = false ∧ hd.sawMultipart = false ∧
      bodyLen = req.rangeEnd - req.rangeStart + 1 ∧ hd.bodyLen = some bodyLen ∧
      hd.range = some (req.rangeStart, req.rangeEnd, hd.total) := by
  have hbody := bodyLen_of_checkResponse h
  rw [checkResponse, hreq] at h
  split_ifs at h with hcoded hrange h200 h300
  · cases h
  · simp only [Bool.or_eq_true, not_or, Bool.not_eq_true] at hcoded
    have hmatch : rangeMatches req hd = true := by simpa using hrange
    rcases hrng : hd.range with _ | ⟨first, last, total⟩
    · simp [rangeMatches, hrng] at hmatch
    simp only [rangeMatches, hrng, Bool.and_eq_true, beq_iff_eq, decide_eq_true_eq] at hmatch
    obtain ⟨⟨⟨rfl, rfl⟩, -⟩, hlen⟩ := hmatch
    rw [hbody] at hlen
    exact ⟨hcoded.1.1, hcoded.1.2, hcoded.2, Option.some.inj hlen, hbody, by
      rw [Header.total, hrng]⟩

/-- An attempt that succeeds. -/
theorem attempt_ok (hreq : req.useRange = true) (h : attempt settings req s = (buffer, .ok s')) :
    ∃ e hd, headerEnd s.conn.rest = some e ∧
      parseHeader (s.conn.rest.take e) = .ok (206, hd) ∧
      hd.sawChunked = false ∧ hd.sawEncoding = false ∧ hd.sawMultipart = false ∧
      hd.bodyLen = some (req.rangeEnd - req.rangeStart + 1) ∧
      hd.range = some (req.rangeStart, req.rangeEnd, settings.expected.toNat) ∧
      buffer = (s.conn.rest.drop e).take (req.rangeEnd - req.rangeStart + 1) ∧
      buffer.length = req.rangeEnd - req.rangeStart + 1 := by
  have hlive : (httpStreamBegin s.send req s.conn).1.hasTotal = true →
      (httpStreamBegin s.send req s.conn).2.1.live = true := live_of_hasTotal
  rw [attempt] at h
  rcases hbegin : httpStreamBegin s.send req s.conn with ⟨reply, stream, conn⟩
  rw [hbegin] at h hlive
  dsimp only at h hlive
  split at h
  · rename_i hstatus
    by_cases htotal : reply.hasTotal = true ∧ reply.total = settings.expected.toNat
    · rw [if_pos htotal] at h
      have hbegun : (httpStreamBegin s.send req s.conn).2.1.live = true := by
        rw [hbegin]
        exact hlive htotal.1
      obtain ⟨e, status, hd, bodyLen, he, -, hp, hc, hreply, hframed⟩ := httpStreamBegin_live hbegun
      rw [hbegin] at hreply hframed
      dsimp only at hreply hframed
      rw [hreply] at hstatus htotal h
      obtain rfl : status = 206 := Except.ok.inj hstatus
      obtain ⟨hchunked, hencoding, hmultipart, rfl, hbody, hrange⟩ := checkResponse_partial hreq hc
      rw [show hd.total = settings.expected.toNat from htotal.2] at hrange
      obtain ⟨rfl, hsock⟩ := Prod.mk.inj h
      have hall : (readLoop stream conn (req.rangeEnd - req.rangeStart + 1)).2.1 = true := by
        rw [Int.toNat_natCast] at hsock
        split_ifs at hsock with hall
        exact hall
      obtain ⟨hread, hlen⟩ := readLoop_framed hframed hall
      refine ⟨e, hd, he, hp, hchunked, hencoding, hmultipart, hbody, hrange, hread, ?_⟩
      rw [Int.toNat_natCast, hread, List.length_take, Nat.min_eq_left hlen]
    · rw [if_neg htotal] at h
      cases h
  · cases h

/-- The attempt that a read succeeds with. -/
theorem attempts_no {n i : ℕ} {sock : Option Sock}
    (h : (attempts settings w req n i sock).rv = .no) :
    ∃ s s', (sock = some s ∨ ∃ j, w.httpOpen j = some s) ∧
      attempt settings req s = ((attempts settings w req n i sock).buffer, .ok s') := by
  induction n generalizing i sock with
  | zero => cases h
  | succ n ih =>
    rw [attempts] at h ⊢
    by_cases hstop : w.stopped i = true
    · rw [if_pos hstop] at h
      cases h
    rw [if_neg hstop] at h ⊢
    dsimp only at h ⊢
    rcases hs : sock.or (w.httpOpen i) with _ | s
    · rw [hs] at h
      cases h
    rw [hs] at h
    have hsock : sock = some s ∨ ∃ j, w.httpOpen j = some s := by
      rcases Option.or_eq_some_iff.mp hs with hsome | ⟨-, hopen⟩
      · exact .inl hsome
      · exact .inr ⟨i, hopen⟩
    dsimp only at h ⊢
    rcases hattempt : attempt settings req s with ⟨buffer, status | s'⟩
    · rw [hattempt] at h
      dsimp only at h ⊢
      by_cases hretry : status = .error .send ∨ status = .error .trunc
      · rw [if_pos hretry] at h ⊢
        obtain ⟨s₁, s₁', hs₁, heq⟩ := ih h
        refine ⟨s₁, s₁', .inr ?_, heq⟩
        rcases hs₁ with hnone | hopen
        · cases hnone
        · exact hopen
      · rw [if_neg hretry] at h
        cases h
    · exact ⟨s, s', hsock, hattempt⟩

end Exact

section Range

variable {settings : Settings} {w : World} {sock : Option Sock} {lsn : UInt64} {sectors : UInt32}

/-- A read that gets past the checks. -/
structure InImage (settings : Settings) (lsn : UInt64) (sectors : UInt32) : Prop where
  image : lsn.toNat + sectors.toNat ≤ settings.expected.toNat / 2048
  count : sectors.toNat ≤ 1048575

theorem inImage_iff : (settings.expected >>> 11 < lsn ∨
    (settings.expected >>> 11) - lsn < sectors.toUInt64 ∨ 0x7fffffff / 2048 < sectors) ↔
    ¬InImage settings lsn sectors := by
  have hshift : (settings.expected >>> 11).toNat = settings.expected.toNat / 2048 := by
    rw [UInt64.toNat_shiftRight, Nat.shiftRight_eq_div_pow]
    rfl
  have hmax : ((0x7fffffff : UInt32) / 2048).toNat = 1048575 := by decide
  rw [UInt64.lt_iff_toNat_lt, UInt64.lt_iff_toNat_lt, UInt32.lt_iff_toNat_lt, hshift, hmax]
  constructor
  · rintro h ⟨himage, hcount⟩
    rw [UInt64.toNat_sub_of_le _ _ (by rw [UInt64.le_iff_toNat_le, hshift]; omega), hshift,
      UInt32.toNat_toUInt64] at h
    omega
  · intro h
    by_contra hnot
    rw [not_or, not_or] at hnot
    obtain ⟨hlsn, hsub, hcount⟩ := hnot
    rw [UInt64.toNat_sub_of_le _ _ (by rw [UInt64.le_iff_toNat_le, hshift]; omega), hshift,
      UInt32.toNat_toUInt64] at hsub
    exact h ⟨by omega, by omega⟩

/-- The range does not leave 64 bits. -/
theorem InImage.range (h : InImage settings lsn sectors) (hne : sectors ≠ 0) :
    (lsn <<< 11).toNat = 2048 * lsn.toNat ∧
      ((lsn <<< 11) + (sectors.toUInt64 <<< 11) - 1).toNat =
        2048 * lsn.toNat + 2048 * sectors.toNat - 1 := by
  obtain ⟨himage, hcount⟩ := h
  have hexpected := settings.expected.toNat_lt
  have hpos : 0 < sectors.toNat := by
    refine Nat.pos_of_ne_zero fun hzero => hne ?_
    exact UInt32.toNat_inj.mp hzero
  have hfirst : (lsn <<< 11).toNat = 2048 * lsn.toNat := by
    rw [UInt64.toNat_shiftLeft, Nat.shiftLeft_eq]
    change lsn.toNat * 2 ^ 11 % 2 ^ 64 = _
    omega
  have hcountShift : (sectors.toUInt64 <<< 11).toNat = 2048 * sectors.toNat := by
    rw [UInt64.toNat_shiftLeft, Nat.shiftLeft_eq, UInt32.toNat_toUInt64]
    change sectors.toNat * 2 ^ 11 % 2 ^ 64 = _
    omega
  have hend : ((lsn <<< 11) + (sectors.toUInt64 <<< 11)).toNat =
      2048 * lsn.toNat + 2048 * sectors.toNat := by
    rw [UInt64.toNat_add, hfirst, hcountShift]
    omega
  refine ⟨hfirst, ?_⟩
  rw [UInt64.toNat_sub_of_le _ _ (by rw [UInt64.le_iff_toNat_le, hend]; change 1 ≤ _; omega), hend]
  rfl

/-- A read that is not refused. -/
theorem deviceReadSectors_eq (hne : sectors ≠ 0) (hready : w.ready = true)
    (hstop : w.stoppedBefore = false) (h : InImage settings lsn sectors) :
    deviceReadSectors settings w sock lsn sectors = attempts settings w
      (rangeRequest settings (lsn <<< 11) ((lsn <<< 11) + (sectors.toUInt64 <<< 11) - 1)) 2 0
      sock := by
  rw [deviceReadSectors, if_neg hne]
  refine if_neg ?_
  rw [hready, hstop, or_iff_right (by decide), or_iff_right (by decide), inImage_iff, not_not]
  exact h

/-- A read that succeeds is not refused. -/
theorem not_refused (hne : sectors ≠ 0)
    (h : (deviceReadSectors settings w sock lsn sectors).rv = .no) :
    w.ready = true ∧ w.stoppedBefore = false ∧ InImage settings lsn sectors := by
  rw [deviceReadSectors, if_neg hne] at h
  dsimp only at h
  split_ifs at h with hcheck
  rw [inImage_iff, not_or, not_or, not_not] at hcheck
  obtain ⟨hready, hstop, himage⟩ := hcheck
  exact ⟨by simpa using hready, by simpa using hstop, himage⟩

/-- **A read that succeeds is the range**, whatever the server sends. -/
theorem readsExactly (settings : Settings) (w : World) (sock : Option Sock) (lsn : UInt64)
    (sectors : UInt32) : ReadsExactly settings w sock lsn sectors := by
  intro h
  by_cases hzero : sectors = 0
  · rw [deviceReadSectors, if_pos hzero]
    exact .inl ⟨hzero, rfl⟩
  obtain ⟨hready, hstop, himage⟩ := not_refused hzero h
  obtain ⟨hfirst, hlast⟩ := himage.range hzero
  rw [deviceReadSectors_eq hzero hready hstop himage] at h ⊢
  have hpos : 0 < sectors.toNat :=
    Nat.pos_of_ne_zero fun hnat => hzero (UInt32.toNat_inj.mp hnat)
  obtain ⟨s, s', hs, hattempt⟩ := attempts_no h
  obtain ⟨e, hd, he, hp, hchunked, hencoding, hmultipart, hbody, hrange, hbuffer, hlen⟩ :=
    attempt_ok rfl hattempt
  have hsize : (rangeRequest settings (lsn <<< 11)
      ((lsn <<< 11) + (sectors.toUInt64 <<< 11) - 1)).rangeEnd -
      (rangeRequest settings (lsn <<< 11)
        ((lsn <<< 11) + (sectors.toUInt64 <<< 11) - 1)).rangeStart + 1 = 2048 * sectors.toNat := by
    change (((lsn <<< 11) + (sectors.toUInt64 <<< 11) - 1).toNat - (lsn <<< 11).toNat) + 1 = _
    rw [hfirst, hlast]
    omega
  rw [hsize] at hbody hbuffer hlen
  have hrange' : hd.range = some (2048 * lsn.toNat, 2048 * lsn.toNat + 2048 * sectors.toNat - 1,
      settings.expected.toNat) := by
    rw [hrange]
    change some ((lsn <<< 11).toNat, ((lsn <<< 11) + (sectors.toUInt64 <<< 11) - 1).toNat,
      settings.expected.toNat) = _
    rw [hfirst, hlast]
  refine .inr ⟨?_, s, hs, hlen, e, 206, hd, he, hp, rfl, hchunked, hencoding, hmultipart, hbody,
    hrange', hbuffer⟩
  have := himage.image
  omega

end Range

section Retry

variable {settings : Settings} {w : World} {req : Request} {s : Sock} {lsn : UInt64}
  {sectors : UInt32}

/-- A request that cannot be sent. -/
theorem attempt_send (hcheck : checkRequest req = .ok ())
    (hsend : s.send (requestText req) = false) :
    attempt settings req s = ([], .error (.error .send)) := by
  rw [attempt, httpStreamBegin, hcheck]
  dsimp only
  rw [hsend]
  rfl

/-- A request without an answer. -/
theorem attempt_silent (hcheck : checkRequest req = .ok ())
    (hsend : s.send (requestText req) = true) (hrest : s.conn.rest = []) :
    attempt settings req s = ([], .error (.error .headers)) := by
  have hrecv := recvHeader_spec s.conn [] rfl (by simp)
  rw [List.nil_append, hrest] at hrecv
  have hnone : (recvHeader s.conn []).1 = none := by
    rcases hrecv with ⟨-, hnone⟩ | ⟨e, k, he, -⟩
    · exact hnone
    · have hnil : headerEnd [] = none := by decide
      rw [hnil] at he
      cases he
  rcases hres : recvHeader s.conn [] with ⟨res, conn⟩
  rw [hres] at hnone
  dsimp only at hnone
  rw [hnone] at hres
  rw [attempt, httpStreamBegin, hcheck]
  dsimp only
  rw [hsend, hres]
  rfl

/-- The first attempt, on a socket that was kept alive. -/
theorem Attempted.eq (h : Attempted settings w lsn sectors) :
    deviceReadSectors settings w (some s) lsn sectors = attempts settings w
      (rangeRequest settings (lsn <<< 11) ((lsn <<< 11) + (sectors.toUInt64 <<< 11) - 1)) 2 0
      (some s) := by
  obtain ⟨hne, hready, hstop, -, himage, hcount, -⟩ := h
  exact deviceReadSectors_eq hne hready hstop ⟨himage, hcount⟩

/-- The second attempt is on a new connection. -/
theorem opened_of_send (h : Attempted settings w lsn sectors)
    (hsend : s.send (firstRequest settings lsn sectors) = false) (hstop : w.stopped 1 = false) :
    1 ∈ (deviceReadSectors settings w (some s) lsn sectors).opened := by
  rw [h.eq]
  obtain ⟨-, -, -, hstop₀, -, -, hcheck⟩ := h
  have hattempt : attempt settings _ s = _ := attempt_send hcheck hsend
  have hretry : ∀ r, 1 ∈ (attempts settings w r 1 1 none).opened := by
    intro r
    rw [attempts, if_neg (by rw [hstop]; exact Bool.false_ne_true)]
    dsimp only
    rw [Option.none_or, if_pos Option.isNone_none]
    rcases w.httpOpen 1 with _ | s₁
    · exact List.mem_singleton.mpr rfl
    · dsimp only
      rcases attempt settings r s₁ with ⟨buffer, status | s₁'⟩
      · dsimp only
        split_ifs
        · exact List.mem_append_left _ (List.mem_singleton.mpr rfl)
        · exact List.mem_singleton.mpr rfl
      · exact List.mem_singleton.mpr rfl
  rw [attempts, if_neg (by rw [hstop₀]; exact Bool.false_ne_true)]
  dsimp only
  rw [Option.some_or]
  dsimp only
  rw [hattempt]
  dsimp only
  rw [if_pos (.inl rfl)]
  exact List.mem_append_right _ (hretry _)

/-- There is no second attempt. -/
theorem opened_of_silent (h : Attempted settings w lsn sectors)
    (hsend : s.send (firstRequest settings lsn sectors) = true) (hrest : s.conn.rest = []) :
    (deviceReadSectors settings w (some s) lsn sectors).rv = .read ∧
      (deviceReadSectors settings w (some s) lsn sectors).opened = [] := by
  rw [h.eq]
  obtain ⟨-, -, -, hstop₀, -, -, hcheck⟩ := h
  have hattempt : attempt settings _ s = _ := attempt_silent hcheck hsend hrest
  rw [attempts, if_neg (by rw [hstop₀]; exact Bool.false_ne_true)]
  dsimp only
  rw [Option.some_or]
  dsimp only
  rw [hattempt]
  dsimp only
  rw [if_neg (by decide)]
  exact ⟨rfl, rfl⟩

/-- **A read is exact, and a dropped connection is retried**, exactly when it is not only seen
behind the request that the server has closed the socket. -/
theorem readsAndRetries_iff (settings : Settings) (w : World) (sock : Option Sock) (lsn : UInt64)
    (sectors : UInt32) :
    ReadsExactly settings w sock lsn sectors ∧ RetriesDropped settings w sock lsn sectors ↔
      ¬Silent settings w sock lsn sectors := by
  constructor
  · rintro ⟨-, hretries⟩ ⟨s, hs, hattempted, hclosed, hsend, hrest, hstop⟩
    have hmem := hretries s hs hattempted hclosed (.inr hrest) hstop
    obtain rfl : sock = some s := hs
    rw [(opened_of_silent hattempted hsend hrest).2] at hmem
    exact List.not_mem_nil hmem
  · intro hnot
    refine ⟨readsExactly settings w sock lsn sectors, ?_⟩
    intro s hs hattempted hclosed hdropped hstop
    obtain rfl : sock = some s := hs
    cases hsend : s.send (firstRequest settings lsn sectors) with
    | false => exact opened_of_send hattempted hsend hstop
    | true =>
      rcases hdropped with hfalse | hrest
      · exact absurd (hfalse.symm.trans hsend) Bool.false_ne_true
      · exact absurd ⟨s, rfl, hattempted, hclosed, hsend, hrest, hstop⟩ hnot

/-- An image of two sectors. -/
def twoSectors : Settings := ⟨"10.0.0.1".toList, "/game.iso".toList, 4096, 0⟩

/-- A server that can be connected to. -/
def reachable : World := ⟨true, false, fun _ => false, fun _ => none⟩

/-- A socket that the server has closed since the read before. -/
def closedSock : Sock := ⟨⟨[], fun _ => 0⟩, fun _ => true, true⟩

/-- The second sector is not read: there is no answer, and no second attempt. -/
theorem not_readsAndRetries_silent :
    ¬ ∀ (settings : Settings) (w : World) (sock : Option Sock) (lsn : UInt64) (sectors : UInt32),
      ReadsExactly settings w sock lsn sectors ∧ RetriesDropped settings w sock lsn sectors := by
  intro h
  have hattempted : Attempted twoSectors reachable 1 1 :=
    ⟨by decide, rfl, rfl, rfl, by decide, by decide, by decide⟩
  have hmem := (h twoSectors reachable (some closedSock) 1 1).2 closedSock rfl hattempted rfl
    (.inr rfl) rfl
  rw [(opened_of_silent hattempted rfl rfl).2] at hmem
  exact List.not_mem_nil hmem

end Retry

end HttpDevice

end OpenPS2Loader
