import Mathlib.Algebra.Group.Int.Defs
import Mathlib.Algebra.Group.Nat.Defs
import Mathlib.Tactic.SplitIfs
import OpenPS2Loader.Lib.Bytes

/-!
# Receiving a reply to a read

`smb_ReadAndX` of `smb.c` over `lwip_recvfrom` of `SMSTCPIP`. The first receive of a reply splits
it: 63 bytes of header go to `SMB_buf`, and what lies behind `DataOffset` goes to the buffer of the
caller. Further receives only add to that buffer.

All of it is decided by the first segment. When it has fewer than 63 bytes, it is laid over the
request that is still in `SMB_buf`, and fields it does not reach are read from the request:
`MaxCountLow` lies where `DataLengthLow` of a reply is, and `MaxCountHigh` where `DataLengthHigh`
is. A reply with an error status has 39 bytes; so it counts as one that brings all that was asked
for.

A connection that ends inside a reply makes `lwip_recvfrom` return `0` in a loop that waits for
more. What comes behind a reply is not followed, and neither are the two cases in which a
`DataOffset` points past the first segment: there 16-bit lengths wrap, or the bytes that follow go
to places in front of the buffer.

## Main definitions

* `Buf` — the bytes that were stored into a buffer
* `Smb.recvFirst`, `Smb.recvRest` — the two calls of `lwip_recvfrom`
* `Smb.receive` — what `smb_ReadAndX` does with the segments it receives
* `Smb.Whole` — the segments of a complete reply whose header comes with the first of them

## Main results

* `Smb.receive_whole` — a reply in such segments is stored, and its length returned
* `Smb.receive_short` — the count of a first segment that ends in front of `DataLength`
-/

namespace OpenPS2Loader

open Bytes (slice overwrite ofLe toLe field)

/-! ### Buffers -/

/-- The bytes that were stored into a buffer. -/
abbrev Buf := ℕ → Option UInt8

/-- The buffer after the first `n` bytes of `f` were stored from `pos` on. -/
def Buf.put (buf : Buf) (pos n : ℕ) (f : ℕ → UInt8) : Buf := fun k =>
  if pos ≤ k ∧ k < pos + n then some (f (k - pos)) else buf k

@[simp] theorem Buf.put_zero (buf : Buf) (pos : ℕ) (f : ℕ → UInt8) : buf.put pos 0 f = buf := by
  funext k
  rw [Buf.put, if_neg (by omega)]

theorem Buf.put_of_lt (buf : Buf) {pos n k : ℕ} (f : ℕ → UInt8) (h : k < pos) :
    buf.put pos n f k = buf k := if_neg (by omega)

theorem Buf.put_add (buf : Buf) {pos n k : ℕ} (f : ℕ → UInt8) (h : k < n) :
    buf.put pos n f (pos + k) = some (f k) := by
  rw [Buf.put, if_pos (by omega), Nat.add_sub_cancel_left]

theorem Buf.put_congr (buf : Buf) (pos : ℕ) {n : ℕ} {f g : ℕ → UInt8} (h : ∀ k < n, f k = g k) :
    buf.put pos n f = buf.put pos n g := by
  funext k
  by_cases hk : pos ≤ k ∧ k < pos + n
  · rw [Buf.put, if_pos hk, Buf.put, if_pos hk, h (k - pos) (by omega)]
  · rw [Buf.put, if_neg hk, Buf.put, if_neg hk]

/-- Two stores, one behind the other. -/
theorem Buf.put_put (buf : Buf) (pos m n : ℕ) (f : ℕ → UInt8) :
    (buf.put pos m f).put (pos + m) n (fun k => f (m + k)) = buf.put pos (m + n) f := by
  funext k
  by_cases hk : pos + m ≤ k ∧ k < pos + m + n
  · have hsub : m + (k - (pos + m)) = k - pos := by omega
    rw [Buf.put, if_pos hk, Buf.put, if_pos (by omega), hsub]
  · rw [Buf.put, if_neg hk]
    by_cases hk' : pos ≤ k ∧ k < pos + m
    · rw [Buf.put, if_pos hk', Buf.put, if_pos (by omega)]
    · rw [Buf.put, if_neg hk', Buf.put, if_neg (by omega)]

namespace Smb

/-! ### `SMB_buf` -/

/-- The cast of a `u32` to an `int`. -/
def toInt (n : ℕ) : ℤ :=
  if n % 2 ^ 32 < 2 ^ 31 then (n % 2 ^ 32 : ℕ) else (n % 2 ^ 32 : ℕ) - 2 ^ 32

theorem toInt_of_lt {n : ℕ} (h : n < 2 ^ 31) : toInt n = n := by
  rw [toInt, if_pos (by omega)]
  omega

/-- `SMB_buf` with a `ReadAndXRequest_t` behind the session header. -/
def readAndXRequest (uid tid fid low high nbytes : ℕ) : List UInt8 :=
  [0, 0, 0, 59] ++
    -- the `SMBHeader_t`: `SMB_MAGIC`, `SMB_COM_READ_ANDX`, `Flags2`, `TID` and `UID` are set
    [0xFF, 0x53, 0x4D, 0x42, 0x2E, 0, 0, 0, 0, 0, 0x00, 0x40] ++ List.replicate 12 0 ++
    toLe 2 tid ++ [0, 0] ++ toLe 2 uid ++ [0, 0] ++
    -- `smbWordcount`, `smbAndxCmd` and their fields
    [12, 0xFF, 0, 0, 0] ++ toLe 2 fid ++ toLe 4 low ++ toLe 2 nbytes ++ [0, 0] ++
    toLe 2 (nbytes / 2 ^ 16) ++ [0, 0] ++ [0, 0] ++ toLe 4 high ++ [0, 0]

/-- `nb_GetPacketType`. -/
def packetType (header : List UInt8) : UInt8 := header.getD 0 0

/-- `nb_GetSessionMessageLength`. -/
def sessionMessageLength (header : List UInt8) : ℕ :=
  (header.getD 1 0).toNat * 2 ^ 16 + (header.getD 2 0).toNat * 2 ^ 8 + (header.getD 3 0).toNat

/-- `DataLengthHigh` and `DataLengthLow` of a `ReadAndXResponse_t`, as `DataLength`. -/
def dataLength (header : List UInt8) : ℕ :=
  (ofLe (field header 51 4) * 2 ^ 16 + ofLe (field header 47 2)) % 2 ^ 32

/-- `DataOffset`. -/
def dataOffset (header : List UInt8) : ℕ := ofLe (field header 49 2)

/-- A keep-alive of the session service. -/
def keepAlive : List UInt8 := [0x85, 0, 0, 0]

/-! ### The receives -/

/-- What the first receive leaves: the number of bytes it returns, `SMB_buf`, the bytes for the
buffer of the caller, and the rest of the segment. -/
structure First where
  rcvSize : ℕ
  header : List UInt8
  payload : List UInt8
  left : List UInt8

/-- `lwip_recvfrom` with a header; `index` is the byte of `DataOffset` plus `4`. -/
def recvFirst (header seg : List UInt8) (plen : ℕ) : Option First :=
  if 63 ≤ seg.length then
    let header := overwrite header 0 (seg.take 63)
    let index := (header.getD 49 0).toNat + 4
    if index ≤ seg.length then
      let payload := (seg.drop index).take plen
      some ⟨index + payload.length, header, payload, seg.drop (index + payload.length)⟩
    else none
  else some ⟨seg.length, overwrite header 0 seg, [], []⟩

/-- `sock->lastdata`: the rest of a segment comes before the segments that are still to come. -/
def keep (left : List UInt8) (segs : List (List UInt8)) : List (List UInt8) :=
  if left = [] then segs else left :: segs

/-- The loop that drops keep-alives: `some none` when the connection has ended, and `none` when
there is no outcome that is followed. The argument that is counted down bounds the receives. -/
def recvHeader (ptr plen : ℕ) :
    ℕ → List UInt8 → List (List UInt8) → Buf → Option (Option First × List (List UInt8) × Buf)
  | 0, _, _, _ => none
  | _ + 1, _, [], buf => some (none, [], buf)
  | fuel + 1, header, seg :: segs, buf =>
    (recvFirst header seg plen).bind fun r =>
      let buf := buf.put ptr r.payload.length fun k => r.payload.getD k 0
      if r.rcvSize = 0 then some (none, segs, buf)
      else if packetType r.header ≠ 0 then
        recvHeader ptr plen fuel r.header (keep r.left segs) buf
      else some (some r, keep r.left segs, buf)

/-- The receives behind the first one, which write from `rcv_size - DataOffset - 4` on: `none` when
the connection ends before all is there. -/
def recvRest (ptr index expected : ℕ) : ℕ → List (List UInt8) → Buf → Option Buf
  | rcvSize, [], buf => if rcvSize < expected then none else some buf
  | rcvSize, seg :: segs, buf =>
    if rcvSize < expected then
      let n := min (expected - rcvSize) seg.length
      recvRest ptr index expected (rcvSize + n) segs
        (buf.put (ptr + (rcvSize - index)) n fun k => seg.getD k 0)
    else some buf

/-- `smb_ReadAndX` behind `SendData`: what it returns, and the buffer. -/
def receive (header : List UInt8) (segs : List (List UInt8)) (ptr plen : ℕ) (buf : Buf) :
    Option (ℤ × Buf) :=
  (recvHeader ptr plen (segs.length + segs.flatten.length + 1) header segs buf).bind fun out =>
    match out with
    | (none, _, buf) => some (-2, buf)
    | (some r, segs, buf) =>
      let expected := sessionMessageLength r.header + 4
      let index := dataOffset r.header + 4
      if expected ≤ r.rcvSize then some (toInt (dataLength r.header), buf)
      else if index ≤ r.rcvSize then
        (recvRest ptr index expected r.rcvSize segs buf).map fun buf =>
          (toInt (dataLength r.header), buf)
      else none

/-! ### Fields -/

section fields

variable {header seg : List UInt8} {p n : ℕ}

theorem ofLe_field_succ (h : p < seg.length) :
    ofLe (field seg p (n + 1)) = (seg.getD p 0).toNat + 256 * ofLe (field seg (p + 1) n) := by
  have hget : seg.getD p 0 = seg[p] := by
    rw [List.getD_eq_getElem?_getD, List.getElem?_eq_getElem h, Option.getD_some]
  rw [field, List.drop_eq_getElem_cons h, List.take_succ_cons, ofLe, field, hget]

theorem getD_take (h : p < n) : (seg.take n).getD p 0 = seg.getD p 0 := by
  rw [List.getD_eq_getElem?_getD, List.getElem?_take_of_lt h, List.getD_eq_getElem?_getD]

theorem sessionMessageLength_lt (header : List UInt8) : sessionMessageLength header < 2 ^ 24 := by
  have h1 := (header.getD 1 0).toNat_lt
  have h2 := (header.getD 2 0).toNat_lt
  have h3 := (header.getD 3 0).toNat_lt
  rw [sessionMessageLength]
  omega

/-- A header that is complete replaces what was in `SMB_buf`. -/
theorem overwrite_take (hheader : header.length = 63) (hseg : 63 ≤ seg.length) :
    overwrite header 0 (seg.take 63) = seg.take 63 := by
  have hlen : (seg.take 63).length = 63 := List.length_take_of_le hseg
  rw [overwrite, hlen, List.take_zero, List.nil_append, List.drop_eq_nil_of_le (by omega),
    List.append_nil]

theorem packetType_take (seg : List UInt8) : packetType (seg.take 63) = packetType seg :=
  getD_take (by decide)

theorem sessionMessageLength_take (seg : List UInt8) :
    sessionMessageLength (seg.take 63) = sessionMessageLength seg := by
  rw [sessionMessageLength, getD_take (by decide), getD_take (by decide), getD_take (by decide),
    sessionMessageLength]

theorem dataLength_take (seg : List UInt8) : dataLength (seg.take 63) = dataLength seg := by
  rw [dataLength, Bytes.field_take _ (by decide), Bytes.field_take _ (by decide), dataLength]

theorem dataOffset_take (seg : List UInt8) : dataOffset (seg.take 63) = dataOffset seg := by
  rw [dataOffset, Bytes.field_take _ (by decide), dataOffset]

/-- The byte that is read of `DataOffset`. -/
theorem toNat_dataOffset (hseg : 63 ≤ seg.length) (h : dataOffset seg < 2 ^ 8) :
    (seg.getD 49 0).toNat = dataOffset seg := by
  rw [dataOffset, ofLe_field_succ (by omega)] at h ⊢
  omega

end fields

/-! ### Whole replies -/

/-- A reply that is received as a whole: its first segment brings the header and the padding, and
`DataOffset` fits into the byte that is read of it. -/
structure IsReply (count : ℕ) (data : ℕ → UInt8) (first : List UInt8) (rest : List (List UInt8)) :
    Prop where
  type_eq : packetType first = 0
  header_le : 63 ≤ first.length
  dataLength_eq : dataLength first = count
  dataOffset_lt : dataOffset first < 2 ^ 8
  dataOffset_le : dataOffset first + 4 ≤ first.length
  length_eq : sessionMessageLength first = dataOffset first + count
  data_eq : first.drop (dataOffset first + 4) ++ rest.flatten = slice data 0 count

/-- The segments are a reply with `count` bytes of data, behind keep-alives. -/
def Whole (count : ℕ) (data : ℕ → UInt8) (segs : List (List UInt8)) : Prop :=
  ∃ n first rest, segs = List.replicate n keepAlive ++ first :: rest ∧ IsReply count data first rest

section receive

variable {header first : List UInt8} {segs rest : List (List UInt8)} {count ptr plen : ℕ}
  {data : ℕ → UInt8} {buf : Buf}

/-- The first elements of what begins with a segment. -/
theorem getD_of_append_eq_slice {seg l : List UInt8} {n : ℕ} (h : seg ++ l = slice data 0 n) {k : ℕ}
    (hk : k < seg.length) : seg.getD k 0 = data k := by
  have hlen := congrArg List.length h
  rw [List.length_append, Bytes.length_slice] at hlen
  have hlt : k < n := by omega
  have hget := congrArg (fun l => l[k]?) h
  simp only [slice, Nat.zero_add, List.getElem?_append_left hk, List.getElem?_map,
    List.getElem?_range hlt, Option.map_some] at hget
  rw [List.getD_eq_getElem?_getD, hget, Option.getD_some]

/-- What is left behind a segment. -/
theorem append_eq_slice {seg l : List UInt8} {n : ℕ} (h : seg ++ l = slice data 0 n) :
    seg.length ≤ n ∧ l = slice (fun k => data (seg.length + k)) 0 (n - seg.length) := by
  have hlen := congrArg List.length h
  rw [List.length_append, Bytes.length_slice] at hlen
  have hle : seg.length ≤ n := by omega
  refine ⟨hle, ?_⟩
  have hdrop := congrArg (List.drop seg.length) h
  rw [List.drop_left, Bytes.drop_slice _ _ hle] at hdrop
  rw [hdrop]
  exact Bytes.slice_congr fun i _ => by rw [Nat.zero_add, Nat.zero_add]

/-- The receives behind the first one, when all is still to come. -/
theorem recvRest_eq {index expected rcvSize : ℕ} (hindex : index ≤ rcvSize)
    (hle : rcvSize ≤ expected) (hsegs : segs.flatten = slice data 0 (expected - rcvSize)) :
    recvRest ptr index expected rcvSize segs buf =
      some (buf.put (ptr + (rcvSize - index)) (expected - rcvSize) data) := by
  induction segs generalizing rcvSize data buf with
  | nil =>
    have hlen := congrArg List.length hsegs
    rw [List.flatten_nil, List.length_nil, Bytes.length_slice] at hlen
    rw [recvRest, if_neg (by omega), ← hlen, Buf.put_zero]
  | cons seg segs ih =>
    rw [List.flatten_cons] at hsegs
    obtain ⟨hseg, hrest⟩ := append_eq_slice hsegs
    rw [recvRest]
    by_cases hlt : rcvSize < expected
    · have hsum : expected - (rcvSize + seg.length) = expected - rcvSize - seg.length := by omega
      have hpos : ptr + (rcvSize + seg.length - index) = ptr + (rcvSize - index) + seg.length := by
        omega
      have hall : seg.length + (expected - rcvSize - seg.length) = expected - rcvSize := by omega
      rw [if_pos hlt]
      dsimp only
      rw [Nat.min_eq_right hseg, ih (by omega) (by omega) (by rw [hsum]; exact hrest), hsum, hpos,
        Buf.put_congr _ _ fun k hk => getD_of_append_eq_slice hsegs hk, Buf.put_put, hall]
    · have hzero : expected - rcvSize = 0 := by omega
      rw [if_neg hlt, hzero, Buf.put_zero]

/-- Keep-alives are dropped. -/
theorem recvHeader_replicate (hheader : header.length = 63) (n fuel : ℕ) :
    ∃ header', header'.length = 63 ∧
      recvHeader ptr plen (fuel + n) header (List.replicate n keepAlive ++ segs) buf =
        recvHeader ptr plen fuel header' segs buf := by
  induction n generalizing header with
  | zero => exact ⟨header, hheader, rfl⟩
  | succ n ih =>
    have hlen : (overwrite header 0 keepAlive).length = 63 := by
      rw [Bytes.length_overwrite (by rw [hheader]; decide), hheader]
    have htype : packetType (overwrite header 0 keepAlive) ≠ 0 := by
      show (0x85 : UInt8) ≠ 0
      decide
    obtain ⟨header', hheader', h⟩ := ih hlen
    refine ⟨header', hheader', ?_⟩
    rw [List.replicate_succ, List.cons_append, ← Nat.add_assoc, recvHeader, recvFirst,
      if_neg (by decide), Option.bind_some]
    dsimp only
    rw [if_neg (by decide), if_pos htype, keep, if_pos rfl, List.length_nil, Buf.put_zero, h]

theorem flatten_keep (left : List UInt8) (segs : List (List UInt8)) :
    (keep left segs).flatten = left ++ segs.flatten := by
  rw [keep]
  split_ifs with h
  · rw [h, List.nil_append]
  · rw [List.flatten_cons]

/-- The first segment of a reply. -/
theorem recvFirst_eq (h : IsReply count data first rest) (hheader : header.length = 63)
    (plen : ℕ) :
    recvFirst header first plen = some
      ⟨dataOffset first + 4 + ((first.drop (dataOffset first + 4)).take plen).length,
        first.take 63, (first.drop (dataOffset first + 4)).take plen,
        first.drop (dataOffset first + 4 +
          ((first.drop (dataOffset first + 4)).take plen).length)⟩ := by
  rw [recvFirst, if_pos h.header_le]
  dsimp only
  rw [overwrite_take hheader h.header_le, getD_take (by decide),
    toNat_dataOffset h.header_le h.dataOffset_lt, if_pos h.dataOffset_le]

/-- **A reply in one piece or in many.** When the first segment behind the keep-alives brings the
header, what the reply brings is stored and its length returned, however the rest is cut. -/
theorem receive_whole (hheader : header.length = 63) (hsegs : Whole count data segs) (ptr plen : ℕ)
    (buf : Buf) :
    receive header segs ptr plen buf = some ((count : ℤ), buf.put ptr count data) := by
  obtain ⟨n, first, rest, rfl, h⟩ := hsegs
  have hlt := sessionMessageLength_lt first
  have hcount : count < 2 ^ 31 := by
    rw [h.length_eq] at hlt
    omega
  generalize hoff : dataOffset first + 4 = off
  generalize hpay : (first.drop off).take plen = payload
  have hsplit : payload ++ ((first.drop off).drop payload.length ++ rest.flatten) =
      slice data 0 count := by
    rw [← List.append_assoc, ← h.data_eq, hoff]
    congr 1
    rw [← hpay, List.length_take]
    rcases Nat.le_total plen (first.drop off).length with hle | hle
    · rw [Nat.min_eq_left hle, List.take_append_drop]
    · rw [Nat.min_eq_right hle, List.take_of_length_le hle, List.drop_length, List.append_nil]
  obtain ⟨hle, hleft⟩ := append_eq_slice hsplit
  have hfuel : (List.replicate n keepAlive ++ first :: rest).length +
      (List.replicate n keepAlive ++ first :: rest).flatten.length + 1 =
      rest.length + 1 + (List.replicate n keepAlive ++ first :: rest).flatten.length + 1 + n := by
    rw [List.length_append, List.length_replicate, List.length_cons]
    omega
  obtain ⟨header', hheader', hrecv⟩ := @recvHeader_replicate header (first :: rest) ptr plen buf
    hheader n (rest.length + 1 + (List.replicate n keepAlive ++ first :: rest).flatten.length + 1)
  rw [receive, hfuel, hrecv, recvHeader, recvFirst_eq h hheader', Option.bind_some]
  dsimp only
  rw [hoff, hpay, if_neg (by omega), packetType_take, if_neg (not_not_intro h.type_eq),
    Option.bind_some]
  dsimp only
  rw [sessionMessageLength_take, dataOffset_take, dataLength_take, hoff, h.dataLength_eq,
    toInt_of_lt hcount, h.length_eq,
    Buf.put_congr _ _ fun k hk => getD_of_append_eq_slice hsplit hk]
  have hexpected : dataOffset first + count + 4 = off + count := by omega
  rw [hexpected]
  by_cases hall : count ≤ payload.length
  · have heq : payload.length = count := by omega
    rw [if_pos (by omega), heq]
  · have hrest : off + count - (off + payload.length) = count - payload.length := by omega
    have hpos : off + payload.length - off = payload.length := by omega
    have hsum : payload.length + (count - payload.length) = count := by omega
    rw [if_neg (by omega), if_pos (by omega),
      recvRest_eq (by omega) (by omega)
        (by rw [flatten_keep, ← List.drop_drop, hrest]; exact hleft),
      Option.map_some, hrest, hpos, Buf.put_put, hsum]

/-- The number of bytes of a reply has 24 bits. -/
theorem Whole.count_lt (h : Whole count data segs) : count < 2 ^ 31 := by
  obtain ⟨n, first, rest, rfl, h⟩ := h
  have hlt := sessionMessageLength_lt first
  rw [h.length_eq] at hlt
  omega

/-- A connection that ends without a reply. -/
theorem receive_keepAlives (hheader : header.length = 63) (n ptr plen : ℕ) (buf : Buf) :
    receive header (List.replicate n keepAlive) ptr plen buf = some (-2, buf) := by
  have hfuel : (List.replicate n keepAlive).length + (List.replicate n keepAlive).flatten.length +
      1 = (List.replicate n keepAlive).flatten.length + 1 + n := by
    rw [List.length_replicate]
    omega
  obtain ⟨header', -, hrecv⟩ := @recvHeader_replicate header [] ptr plen buf hheader n
    ((List.replicate n keepAlive).flatten.length + 1)
  rw [List.append_nil] at hrecv
  rw [receive, hfuel, hrecv, recvHeader, Option.bind_some]

end receive

/-- The header of a reply whose data follows without padding. -/
def replyHeader (count : ℕ) : List UInt8 :=
  let length := 59 + count
  [0, UInt8.ofNat (length / 2 ^ 16), UInt8.ofNat (length / 2 ^ 8), UInt8.ofNat length] ++
    [0xFF, 0x53, 0x4D, 0x42, 0x2E] ++ List.replicate 27 0 ++ [12, 0xFF] ++ List.replicate 9 0 ++
    toLe 2 count ++ [59, 0] ++ toLe 4 (count / 2 ^ 16) ++ List.replicate 8 0

/-- A reply in two segments, of which the first has up to 1460 bytes. -/
def replySegs (count : ℕ) (data : ℕ → UInt8) : List (List UInt8) :=
  [replyHeader count ++ slice data 0 (min count 1397),
    slice data (min count 1397) (count - min count 1397)]

theorem whole_replySegs {count : ℕ} (data : ℕ → UInt8) (h : count < 2 ^ 16) :
    Whole count data (replySegs count data) := by
  refine ⟨0, _, _, rfl, ?_⟩
  have hoff : dataOffset (replyHeader count ++ slice data 0 (min count 1397)) = 59 := rfl
  have hlen : (replyHeader count).length = 63 := rfl
  refine ⟨rfl, ?_, ?_, by rw [hoff]; decide, ?_, ?_, ?_⟩
  · rw [List.length_append, hlen]
    exact Nat.le_add_right _ _
  · have hlow : field (replyHeader count ++ slice data 0 (min count 1397)) 47 2 = toLe 2 count :=
      rfl
    have hhigh : field (replyHeader count ++ slice data 0 (min count 1397)) 51 4 =
        toLe 4 (count / 2 ^ 16) := rfl
    rw [dataLength, hlow, hhigh, Bytes.ofLe_toLe_mod, Bytes.ofLe_toLe_mod]
    omega
  · rw [hoff, List.length_append, hlen]
    exact Nat.le_add_right _ _
  · have hsize : sessionMessageLength (replyHeader count ++ slice data 0 (min count 1397)) =
        (UInt8.ofNat ((59 + count) / 2 ^ 16)).toNat * 2 ^ 16 +
          (UInt8.ofNat ((59 + count) / 2 ^ 8)).toNat * 2 ^ 8 +
          (UInt8.ofNat (59 + count)).toNat := rfl
    rw [hsize, hoff, UInt8.toNat_ofNat', UInt8.toNat_ofNat', UInt8.toNat_ofNat']
    omega
  · have hdrop : (replyHeader count ++ slice data 0 (min count 1397)).drop (59 + 4) =
        slice data 0 (min count 1397) := List.drop_left' hlen
    rw [hoff, hdrop, List.flatten_cons, List.flatten_nil, List.append_nil]
    have hsplit := Bytes.slice_split data 0 (Nat.min_le_left count 1397)
    rw [Nat.zero_add] at hsplit
    exact hsplit.symm

/-! ### Short segments -/

theorem toInt_mod (n : ℕ) : toInt (n % 2 ^ 32) = toInt n := by
  rw [toInt, toInt, Nat.mod_mod]

@[simp] theorem length_readAndXRequest (uid tid fid low high nbytes : ℕ) :
    (readAndXRequest uid tid fid low high nbytes).length = 63 := by
  unfold readAndXRequest
  simp only [List.length_append, List.length_cons, List.length_nil, List.length_replicate,
    Bytes.length_toLe]

/-- The count of the request lies where the count of a reply is. -/
theorem dataLength_readAndXRequest (uid tid fid low high nbytes : ℕ) :
    dataLength (readAndXRequest uid tid fid low high nbytes) = nbytes % 2 ^ 32 := by
  have hfields : readAndXRequest uid tid fid low high nbytes =
      [0, 0, 0, 59, 0xFF, 0x53, 0x4D, 0x42, 0x2E, 0, 0, 0, 0, 0, 0x00, 0x40] ++
        List.replicate 12 0 ++ toLe 2 tid ++ [0, 0] ++ toLe 2 uid ++ [0, 0, 12, 0xFF, 0, 0, 0] ++
        toLe 2 fid ++ toLe 4 low ++ (toLe 2 nbytes ++ ([0, 0] ++
        (toLe 2 (nbytes / 2 ^ 16) ++ [0, 0] ++ ([0, 0] ++ toLe 4 high ++ [0, 0])))) := by
    unfold readAndXRequest
    simp only [List.append_assoc, List.cons_append, List.nil_append]
  have hlow : field (readAndXRequest uid tid fid low high nbytes) 47 2 = toLe 2 nbytes := by
    rw [hfields]
    exact Bytes.take_drop_of_append rfl (by simp) (by simp)
  have hhigh : field (readAndXRequest uid tid fid low high nbytes) 51 4 =
      toLe 2 (nbytes / 2 ^ 16) ++ [0, 0] := by
    rw [hfields, ← List.append_assoc, ← List.append_assoc]
    exact Bytes.take_drop_of_append rfl (by simp) (by simp)
  have hlast : ofLe (toLe 2 (nbytes / 2 ^ 16) ++ [0, 0]) = ofLe (toLe 2 (nbytes / 2 ^ 16)) := rfl
  rw [dataLength, hlow, hhigh, hlast, Bytes.ofLe_toLe_mod, Bytes.ofLe_toLe_mod]
  omega

/-- **A first segment that ends in front of `DataLength`.** The count that was asked for is
returned, whatever the reply brings; such are all replies with an error status. -/
theorem receive_short {uid tid fid low high nbytes ptr plen : ℕ} {first : List UInt8}
    {rest : List (List UInt8)} {buf buf' : Buf} {result : ℤ} (hpos : 0 < first.length)
    (hshort : first.length ≤ 47) (htype : packetType first = 0)
    (h : receive (readAndXRequest uid tid fid low high nbytes) (first :: rest) ptr plen buf =
      some (result, buf')) :
    result = toInt nbytes := by
  generalize hreq : readAndXRequest uid tid fid low high nbytes = request at h
  have hlen : request.length = 63 := hreq ▸ length_readAndXRequest _ _ _ _ _ _
  have htype' : packetType (overwrite request 0 first) = 0 := by
    rw [packetType, Bytes.getD_overwrite (by omega), if_pos (by omega)]
    exact htype
  have hcount : dataLength (overwrite request 0 first) = nbytes % 2 ^ 32 := by
    rw [dataLength, Bytes.field_overwrite_of_ge (by omega) (by omega),
      Bytes.field_overwrite_of_ge (by omega) (by omega), ← dataLength, ← hreq,
      dataLength_readAndXRequest]
  rw [receive, recvHeader, recvFirst, if_neg (by omega), Option.bind_some] at h
  dsimp only at h
  rw [if_neg (by omega), if_neg (not_not_intro htype'), Option.bind_some] at h
  dsimp only at h
  rw [hcount, toInt_mod] at h
  split_ifs at h with hexpected hindex
  · cases h
    rfl
  · obtain ⟨buf1, -, hout⟩ := Option.map_eq_some_iff.mp h
    cases hout
    rfl

end Smb

end OpenPS2Loader
