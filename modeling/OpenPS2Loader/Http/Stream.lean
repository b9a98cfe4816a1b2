import OpenPS2Loader.Lib.Text
import Mathlib.Data.Int.Notation

/-!
# The HTTP stream reader

`modules/network/common/httpstream.inc`: `HttpStreamBegin` sends a GET request and reads the
response header, `HttpStreamRead` hands out the body.

The transport is a byte stream that ends, by end of file or by an error, and that is delivered in
pieces: every receive returns some non-empty part of what is left, no longer than what was asked
for, and how much it returns is up to the schedule of the connection. Bytes are characters here.

## Main definitions

* `Conn`, `recvBounded` — the transport
* `recvHeader` — the header receive loop
* `parseHeader`, `parseDecimal` — the header lines
* `httpStreamBegin`, `httpStreamRead` — the two calls
-/

namespace OpenPS2Loader

namespace HttpStream

/-! ### The transport -/

/-- A connection: what the peer is still going to send, and how the receives will cut it up. -/
structure Conn where
  rest : Text
  sizes : ℕ → ℕ

/-- `RecvBounded`: between one and `max` bytes, or none at the end of the stream or on an error. -/
def recvBounded (conn : Conn) (max : ℕ) : Text × Conn :=
  let n := min max (conn.sizes 0 + 1)
  (conn.rest.take n, { rest := conn.rest.drop n, sizes := fun i => conn.sizes (i + 1) })

/-- `HTTP_STREAM_ERR_*`. -/
inductive StreamErr
  | send
  | headers
  | status
  | encoding
  | range
  | noStream
  | trunc
  deriving DecidableEq, Repr

/-- `HTTP_HDR_MAX`. -/
def hdrMax : ℕ := 1024

/-- `HTTP_CLIENT_STREAM_CHUNK`. -/
def streamChunk : ℕ := 2048

/-- `HTTP_CLIENT_STREAM_URI_MAX`. -/
def streamUriMax : ℕ := 768

/-- `HTTP_CLIENT_SERVER_NAME_MAX`. -/
def serverNameMax : ℕ := 30

/-! ### The request -/

/-- The arguments of `HttpStreamBegin` that describe the request; the range is inclusive. -/
structure Request where
  host : Text
  uri : Text
  useRange : Bool
  rangeStart : ℕ
  rangeEnd : ℕ
  keepAlive : Bool

/-- One pass of the division loop of `u64ToDec` over the 16-bit parts of a value: the quotient by
ten and the remainder. -/
def divTen (rem : ℕ) : List ℕ → List ℕ × ℕ
  | [] => ([], rem)
  | part :: parts =>
    let cur := rem <<< 16 ||| part
    let (rest, rem) := divTen (cur % 10) parts
    (cur / 10 :: rest, rem)

/-- The outer loop of `u64ToDec`, which stops after twenty digits: the digits of the parts, last
one first. -/
def decDigits : ℕ → List ℕ → Text
  | 0, _ => []
  | fuel + 1, parts =>
    let (parts, rem) := divTen 0 parts
    Char.ofNat (48 + rem) :: if parts.all (· == 0) then [] else decDigits fuel parts

/-- `u64ToDec`. -/
def u64ToDec (value : ℕ) : Text :=
  (decDigits 20 [value >>> 48 &&& 0xFFFF, value >>> 32 &&& 0xFFFF, value >>> 16 &&& 0xFFFF,
    value &&& 0xFFFF]).reverse

/-- The bytes that may not stand in a host or a URI. -/
def isControl (c : Char) : Bool := c.toNat ≤ 32 || c.toNat == 127

/-- The checks `HttpStreamBegin` makes before it sends anything. -/
def checkRequest (req : Request) : Except StreamErr Unit :=
  if streamUriMax ≤ req.uri.length ∨ serverNameMax ≤ req.host.length then .error .headers
  else if req.uri.any isControl then .error .headers
  else if req.host.any isControl then .error .headers
  else if req.useRange ∧ (req.rangeEnd < req.rangeStart ∨
      0x7fffffff ≤ req.rangeEnd - req.rangeStart) then .error .range
  else .ok ()

/-- The request on the wire. -/
def requestText (req : Request) : Text :=
  "GET ".toList ++ req.uri ++ " HTTP/1.1\r\nHost: ".toList ++ req.host ++
    "\r\nUser-Agent: RiptOPL\r\nAccept: */*\r\nAccept-Encoding: identity\r\n".toList ++
    (if req.useRange then
      "Range: bytes=".toList ++ u64ToDec req.rangeStart ++ "-".toList ++ u64ToDec req.rangeEnd ++
        "\r\n".toList
    else []) ++
    (if req.keepAlive then "Connection: keep-alive\r\n\r\n".toList
    else "Connection: close\r\n\r\n".toList)

/-! ### Receiving the header -/

/-- The end of a header block. -/
def terminator : Text := "\r\n\r\n".toList

/-- The scan of `HttpStreamBegin` for the end of the header block, from position `i` on. -/
def scanEnd (hdr : Text) (i : ℕ) : Option ℕ :=
  (Text.find terminator (hdr.drop i)).map (· + i + 4)

/-- The receive loop of `HttpStreamBegin`: the bytes received, and the end of the header block
among them. -/
def recvHeader (conn : Conn) (hdr : Text) : Option (Text × ℕ) × Conn :=
  if _h : hdr.length < hdrMax then
    match _hr : recvBounded conn (hdrMax - hdr.length) with
    | ([], conn) => (none, conn)
    | (b :: r, conn) =>
      -- the scan resumes three bytes before what was received last
      match scanEnd (hdr ++ b :: r) (hdr.length - 3) with
      | some hdrEnd => (some (hdr ++ b :: r, hdrEnd), conn)
      | none => recvHeader conn (hdr ++ b :: r)
  else (none, conn)
termination_by hdrMax - hdr.length
decreasing_by
  simp only [List.length_append, List.length_cons]
  omega

/-! ### Parsing the header -/

/-- A space or a TAB. -/
def isBlank (c : Char) : Bool := c == ' ' || c == '\t'

/-- `SkipBlanks`. -/
def skipBlanks (s : Text) : Text := s.dropWhile isBlank

/-- `HeaderIs`: the line starts with the name, without case. -/
def headerIs (line : Text) (name : String) : Bool :=
  (name.toList.map Char.toLower).isPrefixOf (line.map Char.toLower)

/-- The loop of `ParseDecimal`, which fails before the value would leave 64 bits. -/
def parseDecimalFrom (v : ℕ) : Text → Option (ℕ × Text)
  | [] => some (v, [])
  | c :: s =>
    if c.isDigit then
      let digit := c.toNat - 48
      if 1844674407370955161 < v ∨ (v = 1844674407370955161 ∧ 5 < digit) then none
      else parseDecimalFrom (v <<< 3 + v <<< 1 + digit) s
    else some (v, c :: s)

/-- `ParseDecimal`: the value and what follows the digits. -/
def parseDecimal : Text → Option (ℕ × Text)
  | [] => none
  | c :: s => if c.isDigit then parseDecimalFrom 0 (c :: s) else none

/-- The status line: the status code. -/
def parseStatus (hdr : Text) : Option ℕ :=
  if !headerIs hdr "HTTP/1." then none
  else
    match hdr.drop 7 with
    | minor :: sp :: d₁ :: d₂ :: d₃ :: next :: _ =>
      if (minor = '0' ∨ minor = '1') ∧ sp = ' ' ∧ '1' ≤ d₁ ∧ d₁ ≤ '5' ∧ '0' ≤ d₂ ∧ d₂ ≤ '9' ∧
          '0' ≤ d₃ ∧ d₃ ≤ '9' ∧ (next = ' ' ∨ next = '\r') then
        some ((d₁.toNat - 48) * 100 + (d₂.toNat - 48) * 10 + (d₃.toNat - 48))
      else none
    | _ => none

/-- The split of a header block into lines, with the line read so far. A byte that stands alone
at the end is overwritten by the terminator of its line. -/
def headerLinesFrom (line : Text) : Text → List Text
  | [] => []
  | '\r' :: '\n' :: s => line :: headerLinesFrom [] s
  | [_] => [line]
  | c :: d :: s => headerLinesFrom (line ++ [c]) (d :: s)

/-- The lines of a header block. -/
def headerLines (hdr : Text) : List Text := headerLinesFrom [] hdr

/-- What the header lines said. -/
structure Header where
  bodyLen : Option ℕ
  sawChunked : Bool
  sawEncoding : Bool
  sawMultipart : Bool
  /-- first, last and total of `Content-Range` -/
  range : Option (ℕ × ℕ × ℕ)
  deriving DecidableEq, Repr

/-- The total size from `Content-Range`; `0` when it is absent. -/
def Header.total (h : Header) : ℕ :=
  match h.range with
  | none => 0
  | some (_, _, total) => total

/-- The value of `Content-Length`. -/
def parseLength (value : Text) : Option ℕ :=
  match parseDecimal (skipBlanks value) with
  | some (v, rest) => if skipBlanks rest = [] ∧ v ≤ 0x7fffffff then some v else none
  | none => none

/-- The value of `Content-Range`: `bytes first-last/total`. -/
def parseRange (value : Text) : Option (ℕ × ℕ × ℕ) :=
  if headerIs (skipBlanks value) "bytes " then
    match parseDecimal (skipBlanks ((skipBlanks value).drop 6)) with
    | some (first, '-' :: v) =>
      match parseDecimal v with
      | some (last, '/' :: v) =>
        match parseDecimal v with
        | some (total, v) => if skipBlanks v = [] then some (first, last, total) else none
        | none => none
      | _ => none
    | _ => none
  else none

/-- The body of the loop over the header lines. -/
def headerStep (h : Header) (line : Text) : Except StreamErr Header :=
  if headerIs line "Content-Length:" then
    match h.bodyLen, parseLength (line.drop 15) with
    | none, some n => .ok { h with bodyLen := some n }
    | _, _ => .error .headers
  else if headerIs line "Transfer-Encoding:" then .ok { h with sawChunked := true }
  else if headerIs line "Content-Encoding:" then
    let v := skipBlanks (line.drop 17)
    if !headerIs v "identity" || skipBlanks (v.drop 8) ≠ [] then
      .ok { h with sawEncoding := true }
    else .ok h
  else if headerIs line "Content-Type:" then
    if headerIs (skipBlanks (line.drop 13)) "multipart/" then .ok { h with sawMultipart := true }
    else .ok h
  else if headerIs line "Content-Range:" then
    match h.range, parseRange (line.drop 14) with
    | none, some range => .ok { h with range := some range }
    | _, _ => .error .range
  else .ok h

/-- A header block that said nothing. -/
def emptyHeader : Header :=
  { bodyLen := none, sawChunked := false, sawEncoding := false, sawMultipart := false
    range := none }

/-- The status code and the header lines of a header block. -/
def parseHeader (hdr : Text) : Except StreamErr (ℕ × Header) :=
  match parseStatus hdr with
  | none => .error .status
  | some status =>
    if '\x00' ∈ hdr then .error .status
    else
      match (headerLines hdr).tail.foldlM headerStep emptyHeader with
      | .error err => .error err
      | .ok h => .ok (status, h)

/-! ### `HttpStreamBegin` -/

/-- A 206 must be the range that was asked for. -/
def rangeMatches (req : Request) (h : Header) : Bool :=
  match h.range with
  | none => false
  | some (first, last, total) =>
    first == req.rangeStart && last == req.rangeEnd && decide (last < total) &&
      h.bodyLen == some (req.rangeEnd - req.rangeStart + 1)

/-- The checks on a parsed header: the length of the body to stream, or none when the status is
only reported. -/
def checkResponse (req : Request) (status : ℕ) (h : Header) : Except StreamErr (Option ℕ) :=
  if h.sawChunked || h.sawEncoding || h.sawMultipart then .error .encoding
  else if req.useRange && status == 206 && !rangeMatches req h then .error .range
  else if (req.useRange && status == 200) || (!req.useRange && status == 206) then .error .range
  else if 300 ≤ status then .ok none
  else
    match h.bodyLen with
    | none => .error .headers
    | some bodyLen => .ok (some bodyLen)

/-- `gStream`, with the part of `gStage` that was not handed out yet. -/
structure Stream where
  live : Bool
  remaining : ℤ
  stage : Text

/-- `HttpStreamEnd`. -/
def httpStreamEnd : Stream := { live := false, remaining := 0, stage := [] }

/-- What `HttpStreamBegin` returns, with its output arguments. -/
structure Reply where
  result : Except StreamErr ℕ
  contentLen : ℤ
  total : ℕ
  hasTotal : Bool

/-- A return before the output arguments are set. -/
def Reply.early (result : Except StreamErr ℕ) : Reply :=
  { result, contentLen := -1, total := 0, hasTotal := false }

/-- The last part of `HttpStreamBegin`, on the bytes received and the end of the header block. -/
def finishBegin (req : Request) (hdr : Text) (hdrEnd : ℕ) : Reply × Stream :=
  match parseHeader (hdr.take hdrEnd) with
  | .error err => (.early (.error err), httpStreamEnd)
  | .ok (status, h) =>
    match checkResponse req status h with
    | .error err => (.early (.error err), httpStreamEnd)
    | .ok none => (.early (.ok status), httpStreamEnd)
    | .ok (some bodyLen) =>
      if bodyLen < hdr.length - hdrEnd then (.early (.error .trunc), httpStreamEnd)
      else
        ({ result := .ok status, contentLen := bodyLen, total := h.total
           hasTotal := h.range.isSome },
          { live := true, remaining := bodyLen, stage := (hdr.drop hdrEnd).take streamChunk })

/-- `HttpStreamBegin`. `send` says whether `SendData` sends the whole request. -/
def httpStreamBegin (send : Text → Bool) (req : Request) (conn : Conn) : Reply × Stream × Conn :=
  match checkRequest req with
  | .error err => (.early (.error err), httpStreamEnd, conn)
  | .ok () =>
    if !send (requestText req) then (.early (.error .send), httpStreamEnd, conn)
    else
      match recvHeader conn [] with
      | (none, conn) => (.early (.error .headers), httpStreamEnd, conn)
      | (some (hdr, hdrEnd), conn) =>
        let (reply, stream) := finishBegin req hdr hdrEnd
        (reply, stream, conn)

/-! ### `HttpStreamRead` -/

/-- How much the next receive asks for, when `need` bytes are wanted. -/
def chunkSize (remaining : ℤ) (need : ℕ) : ℕ :=
  if 0 < remaining ∧ remaining < need then remaining.toNat else need

/-- The receive loop of `HttpStreamRead`, with `need` bytes still wanted: the bytes it stores. -/
def recvBody (conn : Conn) (remaining : ℤ) (need : ℕ) : Except StreamErr Text × ℤ × Conn :=
  if _h : need = 0 ∨ remaining = 0 then (.ok [], remaining, conn)
  else
    match _hr : recvBounded conn (chunkSize remaining need) with
    | ([], conn) =>
      -- short of what `Content-Length` promised
      if 0 < remaining then (.error .trunc, remaining, conn) else (.ok [], remaining, conn)
    | (b :: r, conn) =>
      let remaining := if 0 < remaining then remaining - (b :: r).length else remaining
      let (res, remaining, conn) := recvBody conn remaining (need - (b :: r).length)
      (res.map (b :: r ++ ·), remaining, conn)
termination_by need
decreasing_by
  simp only [List.length_cons]
  omega

/-- `HttpStreamRead`: the bytes stored in the buffer. -/
def httpStreamRead (stream : Stream) (conn : Conn) (wanted : ℤ) :
    Except StreamErr Text × Stream × Conn :=
  if !stream.live then (.error .noStream, stream, conn)
  else
    let wanted := (min wanted streamChunk).toNat
    if wanted = 0 then (.ok [], stream, conn)
    else
      -- body bytes that arrived alongside the headers come first
      let staged := stream.stage.take wanted
      let stage := stream.stage.drop wanted
      let remaining :=
        if 0 < stream.remaining then stream.remaining - staged.length else stream.remaining
      let (res, remaining, conn) := recvBody conn remaining (wanted - staged.length)
      (res.map (staged ++ ·), { live := res.isOk, remaining, stage }, conn)

end HttpStream

end OpenPS2Loader
