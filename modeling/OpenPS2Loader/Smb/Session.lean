import Mathlib.Algebra.Group.Int.Defs
import Mathlib.Algebra.Group.Nat.Defs
import Mathlib.Data.Int.Notation
import Mathlib.Logic.Function.Basic
import Mathlib.Tactic.SplitIfs
import OpenPS2Loader.Smb.Receive

/-!
# File transfers over SMB

`smb.c` of `cdvdman`: `smb_ReadFile` and `smb_WriteFile` cut a transfer into `ReadAndX` and
`WriteAndX` requests, one at a time, under the semaphore `smb_io_sema`.

Both loops leave from the middle when a request fails, and then the semaphore stays taken:
`smb_OpenAndX` signals it on its error paths, these two do not. And `smb_WriteAndX` does not look
at the count of its reply.

The server answers one request after the other; the answers still to come are part of the state.
An answer to a read is given by the segments that are received, and may depend on what the file has
from the offset on.

## Main definitions

* `Smb` — the semaphore, the files on the server, and the answers still to come
* `Smb.readFile`, `Smb.writeFile` — `smb_ReadFile` and `smb_WriteFile`
* `Smb.Reads`, `Smb.WholeReplies` — servers that answer every read, and whose answers are whole
* `Smb.AllExact` — every call of a sequence transfers what it says and gives the semaphore back

## Main results

* `Smb.readFile_eq_put`, `Smb.writeFile_eq_put` — one call with a server that does its part
* `Smb.allExact` — all calls of a sequence
-/

namespace OpenPS2Loader

/-! ### Files -/

/-- The offset `offsethigh`, `offsetlow` of a request. -/
def offset (low high : ℕ) : UInt64 := UInt64.ofNat (high * 2 ^ 32 + low)

/-- The bytes of a file from an offset on. -/
def fileFrom (file : UInt64 → UInt8) (off : UInt64) (k : ℕ) : UInt8 := file (off + UInt64.ofNat k)

theorem fileFrom_add (file : UInt64 → UInt8) (off : UInt64) (m k : ℕ) :
    fileFrom file (off + UInt64.ofNat m) k = fileFrom file off (m + k) := by
  rw [fileFrom, fileFrom, UInt64.ofNat_add, UInt64.add_assoc]

/-- A file after the first `n` bytes of `f` were written at an offset. -/
def filePut (file : UInt64 → UInt8) (off : UInt64) (n : ℕ) (f : ℕ → UInt8) : UInt64 → UInt8 :=
  fun p => if (p - off).toNat < n then f (p - off).toNat else file p

@[simp] theorem filePut_zero (file : UInt64 → UInt8) (off : UInt64) (f : ℕ → UInt8) :
    filePut file off 0 f = file := by
  funext p
  rw [filePut, if_neg (by omega)]

/-- Two writes, one behind the other. -/
theorem filePut_filePut (file : UInt64 → UInt8) (off : UInt64) {m n : ℕ} (f : ℕ → UInt8)
    (h : m + n ≤ 2 ^ 64) :
    filePut (filePut file off m f) (off + UInt64.ofNat m) n (fun k => f (m + k)) =
      filePut file off (m + n) f := by
  funext p
  have hsub : (p - (off + UInt64.ofNat m)).toNat = (2 ^ 64 - m + (p - off).toNat) % 2 ^ 64 := by
    rw [UInt64.toNat_sub, UInt64.toNat_sub, UInt64.toNat_add, UInt64.toNat_ofNat']
    have := p.toNat_lt
    have := off.toNat_lt
    omega
  have hlt := (p - off).toNat_lt
  by_cases hm : (p - off).toNat < m
  · rw [filePut, if_neg (by omega), filePut, if_pos hm, filePut, if_pos (by omega)]
  · have hk : m + (2 ^ 64 - m + (p - off).toNat) % 2 ^ 64 = (p - off).toNat := by omega
    by_cases hn : (p - off).toNat < m + n
    · rw [filePut, if_pos (by omega), hsub, hk, filePut, if_pos hn]
    · rw [filePut, if_neg (by omega), filePut, if_neg hm, filePut, if_neg hn]

/-- `offsetlow += result` with the carry into `offsethigh`. -/
def carry (low high result : ℕ) : ℕ × ℕ :=
  let low' := (low + result) % 2 ^ 32
  (low', if low' < low then (high + 1) % 2 ^ 32 else high)

theorem carry_fst_lt (low high result : ℕ) : (carry low high result).1 < 2 ^ 32 :=
  Nat.mod_lt _ (by decide)

/-- The carry is right modulo the width of an offset. -/
theorem offset_carry {low high result : ℕ} (hlow : low < 2 ^ 32) (hresult : result < 2 ^ 32) :
    offset (carry low high result).1 (carry low high result).2 =
      offset low high + UInt64.ofNat result := by
  rw [offset, offset, ← UInt64.ofNat_add, UInt64.ofNat_eq_iff_mod_eq_toNat, UInt64.toNat_ofNat']
  simp only [carry]
  split_ifs <;> omega

/-! ### The session -/

/-- What becomes of a `ReadAndX` request: it cannot be sent, or these segments are received until
the connection ends or the next request is sent. What they bring is made from the bytes of the file
from the offset on. -/
inductive ReadReply
  | unsent
  | received (segs : (ℕ → UInt8) → List (List UInt8))

/-- What becomes of a `WriteAndX` request: it cannot be sent, the reply is lost, the reply has an
error status, or the reply has a count. -/
inductive WriteReply
  | unsent
  | lost
  | refused
  | done (count : ℕ)
  deriving DecidableEq

/-- The part of the session that transfers need. -/
structure Smb where
  /-- the count of `smb_io_sema` -/
  sema : ℕ
  /-- the files by their `FID` -/
  files : ℕ → UInt64 → UInt8
  /-- what becomes of the requests still to come, if they read that many bytes -/
  reads : ℕ → ℕ → ReadReply
  /-- what becomes of the requests still to come, if they write that many bytes -/
  writes : ℕ → ℕ → WriteReply
  /-- `UID` -/
  uid : ℕ
  /-- `TID` -/
  tid : ℕ

namespace Smb

variable {s s' : Smb} {fid low high ptr fuel : ℕ} {buf buf' : Buf} {remaining : ℤ}

/-- The session after `n` more requests. -/
def skip (s : Smb) (n : ℕ) : Smb :=
  { s with reads := fun k => s.reads (k + n), writes := fun k => s.writes (k + n) }

@[simp] theorem skip_sema (s : Smb) (n : ℕ) : (s.skip n).sema = s.sema := rfl

@[simp] theorem skip_files (s : Smb) (n : ℕ) : (s.skip n).files = s.files := rfl

theorem skip_skip (s : Smb) (m n : ℕ) : (s.skip m).skip n = s.skip (n + m) := by
  simp only [skip, Nat.add_assoc]

/-- `smb_ReadAndX`: `none` when it does not return. -/
def readAndX (s : Smb) (fid low high : ℕ) (buf : Buf) (ptr nbytes : ℕ) : Option (Smb × ℤ × Buf) :=
  match s.reads 0 nbytes with
  | .unsent => some (s.skip 1, -1, buf)
  | .received segs =>
    (receive (readAndXRequest s.uid s.tid fid low high nbytes)
      (segs (fileFrom (s.files fid) (offset low high))) ptr nbytes buf).map fun out =>
        (s.skip 1, out.1, out.2)

/-- `CLIENT_MAX_RECV_SIZE`. -/
def clientMaxRecvSize : ℕ := 8192

/-- `CLIENT_MAX_XMIT_SIZE`. -/
def clientMaxXmitSize : ℕ := 65535

/-- The size of the next request. -/
def chunk (limit : ℕ) (remaining : ℤ) : ℕ :=
  if (limit : ℤ) < remaining then limit else remaining.toNat

/-- The loop of `smb_ReadFile`: a result is a return from the middle. The argument that is counted
down bounds the iterations; each of them transfers something. -/
def readLoop (fid : ℕ) : ℕ → Smb → ℕ → ℕ → Buf → ℕ → ℤ → Option (Smb × Option ℤ × Buf)
  | 0, s, _, _, buf, _, _ => some (s, none, buf)
  | fuel + 1, s, low, high, buf, ptr, remaining =>
    if 0 < remaining then
      (s.readAndX fid low high buf ptr (chunk clientMaxRecvSize remaining)).bind fun r =>
        if r.2.1 ≤ 0 then some (r.1, some r.2.1, r.2.2)
        else
          let off := carry low high r.2.1.toNat
          readLoop fid fuel r.1 off.1 off.2 r.2.2 (ptr + r.2.1.toNat) (remaining - r.2.1)
    else some (s, none, buf)

/-- `WaitSema`: `none` when it does not return. -/
def waitSema (s : Smb) : Option Smb :=
  if s.sema = 0 then none else some { s with sema := s.sema - 1 }

/-- `SignalSema`. -/
def signalSema (s : Smb) : Smb := { s with sema := s.sema + 1 }

/-- `smb_ReadFile`. -/
def readFile (s : Smb) (fid : ℕ) (low high : UInt32) (buf : Buf) (ptr : ℕ) (nbytes : ℤ) :
    Option (Smb × ℤ × Buf) :=
  s.waitSema.bind fun s =>
    (readLoop fid nbytes.toNat s low.toNat high.toNat buf ptr nbytes).map fun out =>
      match out with
      | (s, some result, buf) => (s, result, buf)
      | (s, none, buf) => (s.signalSema, nbytes, buf)

/-- The result of `smb_WriteAndX`: what was asked for, or `-EIO`. -/
def writeResult (nbytes : ℕ) : WriteReply → ℤ
  | .done _ => nbytes
  | _ => -5

/-- The number of bytes the server wrote. -/
def writeCount (nbytes : ℕ) : WriteReply → ℕ
  | .done count => min count nbytes
  | _ => 0

/-- The session after the first `n` bytes of `f` were written to a file. -/
def putFile (s : Smb) (fid : ℕ) (off : UInt64) (n : ℕ) (f : ℕ → UInt8) : Smb :=
  { s with files := Function.update s.files fid (filePut (s.files fid) off n f) }

@[simp] theorem putFile_sema (s : Smb) (fid : ℕ) (off : UInt64) (n : ℕ) (f : ℕ → UInt8) :
    (s.putFile fid off n f).sema = s.sema := rfl

@[simp] theorem putFile_zero (s : Smb) (fid : ℕ) (off : UInt64) (f : ℕ → UInt8) :
    s.putFile fid off 0 f = s := by
  rw [putFile, filePut_zero, Function.update_eq_self]

theorem skip_putFile (s : Smb) (fid : ℕ) (off : UInt64) (n : ℕ) (f : ℕ → UInt8) (m : ℕ) :
    (s.putFile fid off n f).skip m = (s.skip m).putFile fid off n f := rfl

theorem putFile_putFile (s : Smb) (fid : ℕ) (off : UInt64) {m n : ℕ} (f : ℕ → UInt8)
    (h : m + n ≤ 2 ^ 64) :
    (s.putFile fid off m f).putFile fid (off + UInt64.ofNat m) n (fun k => f (m + k)) =
      s.putFile fid off (m + n) f := by
  simp only [putFile, Function.update_self, Function.update_idem, filePut_filePut _ _ _ h]

/-- `smb_WriteAndX`. -/
def writeAndX (s : Smb) (fid low high : ℕ) (f : ℕ → UInt8) (nbytes : ℕ) : Smb × ℤ :=
  let reply := s.writes 0 nbytes
  ((s.skip 1).putFile fid (offset low high) (writeCount nbytes reply) f, writeResult nbytes reply)

/-- The loop of `smb_WriteFile`. -/
def writeLoop (fid : ℕ) : ℕ → Smb → ℕ → ℕ → (ℕ → UInt8) → ℤ → Smb × Option ℤ
  | 0, s, _, _, _, _ => (s, none)
  | fuel + 1, s, low, high, f, remaining =>
    if 0 < remaining then
      let r := s.writeAndX fid low high f (chunk clientMaxXmitSize remaining)
      if r.2 ≤ 0 then (r.1, some r.2)
      else
        let off := carry low high r.2.toNat
        writeLoop fid fuel r.1 off.1 off.2 (fun k => f (r.2.toNat + k)) (remaining - r.2)
    else (s, none)

/-- `smb_WriteFile`. -/
def writeFile (s : Smb) (fid : ℕ) (low high : UInt32) (f : ℕ → UInt8) (nbytes : ℤ) :
    Option (Smb × ℤ) :=
  s.waitSema.map fun s =>
    match writeLoop fid nbytes.toNat s low.toNat high.toNat f nbytes with
    | (s, some result) => (s, result)
    | (s, none) => (s.signalSema, nbytes)

/-! ### Servers -/

/-- The server answers every read as a whole, with something and with no more than it was asked
for. -/
def Reads (s : Smb) : Prop :=
  ∀ k nbytes, 0 < nbytes → nbytes ≤ clientMaxRecvSize →
    ∃ segs count, s.reads k nbytes = .received segs ∧ 0 < count ∧ count ≤ nbytes ∧
      ∀ data, Whole count data (segs data)

/-- The server performs every write as a whole. -/
def Writes (s : Smb) : Prop :=
  ∀ k nbytes, 0 < nbytes → s.writes k nbytes = .done nbytes

/-- A read is not sent, or the connection ends without a reply, or the reply is whole. -/
def WholeReplies (s : Smb) : Prop :=
  ∀ k nbytes, 0 < nbytes → nbytes ≤ clientMaxRecvSize →
    s.reads k nbytes = .unsent ∨ ∃ segs, s.reads k nbytes = .received segs ∧
      ∀ data, (∃ n, segs data = List.replicate n keepAlive) ∨ ∃ count, Whole count data (segs data)

theorem Reads.skip (h : s.Reads) (n : ℕ) : (s.skip n).Reads := fun k => h (k + n)

theorem Writes.skip (h : s.Writes) (n : ℕ) : (s.skip n).Writes := fun k => h (k + n)

theorem WholeReplies.skip (h : s.WholeReplies) (n : ℕ) : (s.skip n).WholeReplies :=
  fun k => h (k + n)

theorem Reads.wholeReplies (h : s.Reads) : s.WholeReplies := by
  intro k nbytes hpos hle
  obtain ⟨segs, count, hsegs, -, -, hwhole⟩ := h k nbytes hpos hle
  exact Or.inr ⟨segs, hsegs, fun data => Or.inr ⟨count, hwhole data⟩⟩

/-! ### Reading -/

theorem chunk_pos {limit : ℕ} (hlimit : 0 < limit) (h : 0 < remaining) :
    0 < chunk limit remaining := by
  rw [chunk]
  split_ifs <;> omega

theorem chunk_le (limit : ℕ) (remaining : ℤ) :
    chunk limit remaining ≤ limit ∧ chunk limit remaining ≤ remaining.toNat := by
  rw [chunk]
  split_ifs <;> omega

/-- One request with a server that answers every read. -/
theorem readAndX_of_reads (hs : s.Reads) {nbytes : ℕ} (hpos : 0 < nbytes)
    (hle : nbytes ≤ clientMaxRecvSize) (fid low high : ℕ) (buf : Buf) (ptr : ℕ) :
    ∃ count : ℕ, 0 < count ∧ count ≤ nbytes ∧
      s.readAndX fid low high buf ptr nbytes = some (s.skip 1, (count : ℤ),
        buf.put ptr count (fileFrom (s.files fid) (offset low high))) := by
  obtain ⟨segs, count, hsegs, hcount, hcle, hwhole⟩ := hs 0 nbytes hpos hle
  refine ⟨count, hcount, hcle, ?_⟩
  rw [readAndX, hsegs]
  dsimp only
  rw [receive_whole (length_readAndXRequest _ _ _ _ _ _) (hwhole _), Option.map_some]

/-- One request with a server whose replies are whole: what is counted has been stored. -/
theorem readAndX_of_wholeReplies (hs : s.WholeReplies) {nbytes : ℕ} (hpos : 0 < nbytes)
    (hle : nbytes ≤ clientMaxRecvSize) (fid low high : ℕ) (buf : Buf) (ptr : ℕ) :
    ∃ result buf', s.readAndX fid low high buf ptr nbytes = some (s.skip 1, result, buf') ∧
      (0 < result → result.toNat < 2 ^ 32 ∧
        buf' = buf.put ptr result.toNat (fileFrom (s.files fid) (offset low high))) := by
  rw [readAndX]
  rcases hs 0 nbytes hpos hle with hunsent | ⟨segs, hsegs, hall⟩
  · exact ⟨-1, buf, by rw [hunsent], fun h => absurd h (by decide)⟩
  · rw [hsegs]
    dsimp only
    rcases hall (fileFrom (s.files fid) (offset low high)) with ⟨n, hn⟩ | ⟨count, hwhole⟩
    · refine ⟨-2, buf, ?_, fun h => absurd h (by decide)⟩
      rw [hn, receive_keepAlives (length_readAndXRequest _ _ _ _ _ _), Option.map_some]
    · have hlt := hwhole.count_lt
      refine ⟨count, _, ?_, fun _ => ⟨by omega, rfl⟩⟩
      rw [receive_whole (length_readAndXRequest _ _ _ _ _ _) hwhole, Option.map_some,
        Int.toNat_natCast]

/-- The loop with a server that answers every read. -/
theorem readLoop_of_reads (hs : s.Reads) (hlow : low < 2 ^ 32) (hfuel : remaining.toNat ≤ fuel) :
    ∃ n, readLoop fid fuel s low high buf ptr remaining =
      some (s.skip n, none,
        buf.put ptr remaining.toNat (fileFrom (s.files fid) (offset low high))) := by
  induction fuel generalizing s low high buf ptr remaining with
  | zero =>
    have h0 : remaining.toNat = 0 := by omega
    exact ⟨0, by rw [readLoop, h0, Buf.put_zero]; rfl⟩
  | succ fuel ih =>
    rw [readLoop]
    by_cases hpos : 0 < remaining
    · have hchunk := chunk_le clientMaxRecvSize remaining
      have hcpos : 0 < chunk clientMaxRecvSize remaining := chunk_pos (by decide) hpos
      obtain ⟨count, hcount0, hcle, hread⟩ :=
        readAndX_of_reads hs hcpos hchunk.1 fid low high buf ptr
      have hrecv : clientMaxRecvSize = 8192 := rfl
      have hrest : (remaining - count).toNat ≤ fuel := by omega
      obtain ⟨n, hn⟩ := @ih (s.skip 1) (carry low high count).1 (carry low high count).2
        (ptr + count) (buf.put ptr count (fileFrom (s.files fid) (offset low high)))
        (remaining - count) (hs.skip 1) (carry_fst_lt _ _ _) hrest
      refine ⟨n + 1, ?_⟩
      have hsum : count + (remaining - count).toNat = remaining.toNat := by omega
      rw [if_pos hpos, hread, Option.bind_some]
      simp only [Int.toNat_natCast]
      rw [if_neg (by omega), hn, skip_skip, skip_files,
        offset_carry hlow (by omega), ← hsum, ← Buf.put_put]
      congr 4
      funext k
      exact fileFrom_add _ _ _ _
    · have h0 : remaining.toNat = 0 := by omega
      exact ⟨0, by rw [if_neg hpos, h0, Buf.put_zero]; rfl⟩

/-- What is returned from the middle of the loop is an error. -/
theorem readLoop_some_le {result : ℤ}
    (h : readLoop fid fuel s low high buf ptr remaining = some (s', some result, buf')) :
    result ≤ 0 := by
  induction fuel generalizing s low high buf ptr remaining with
  | zero => cases h
  | succ fuel ih =>
    rw [readLoop] at h
    by_cases hpos : 0 < remaining
    · rw [if_pos hpos, Option.bind_eq_some_iff] at h
      obtain ⟨r, -, h⟩ := h
      dsimp only at h
      split_ifs at h with hneg
      · cases h
        exact hneg
      · exact ih h
    · rw [if_neg hpos] at h
      cases h

/-- The loop with a server whose replies are whole: what was asked for is there when the loop
ends. -/
theorem readLoop_of_wholeReplies (hs : s.WholeReplies) (hlow : low < 2 ^ 32)
    (hfuel : remaining.toNat ≤ fuel)
    (h : readLoop fid fuel s low high buf ptr remaining = some (s', none, buf')) :
    (∃ n, s' = s.skip n) ∧
      (∀ k < remaining.toNat,
        buf' (ptr + k) = some (fileFrom (s.files fid) (offset low high) k)) ∧
      ∀ k < ptr, buf' k = buf k := by
  induction fuel generalizing s low high buf ptr remaining with
  | zero =>
    cases h
    exact ⟨⟨0, rfl⟩, fun k hk => by omega, fun k _ => rfl⟩
  | succ fuel ih =>
    rw [readLoop] at h
    by_cases hpos : 0 < remaining
    · have hcpos : 0 < chunk clientMaxRecvSize remaining := chunk_pos (by decide) hpos
      obtain ⟨result, buf1, hread, hstored⟩ := readAndX_of_wholeReplies hs hcpos
        (chunk_le clientMaxRecvSize remaining).1 fid low high buf ptr
      rw [if_pos hpos, hread, Option.bind_some] at h
      dsimp only at h
      by_cases hneg : result ≤ 0
      · rw [if_pos hneg] at h
        cases h
      · rw [if_neg hneg] at h
        obtain ⟨hlt, rfl⟩ := hstored (by omega)
        obtain ⟨⟨n, hn⟩, hin, hfront⟩ := ih (hs.skip 1) (carry_fst_lt _ _ _) (by omega) h
        refine ⟨⟨n + 1, by rw [hn, skip_skip]⟩, fun k hk => ?_, fun k hk => ?_⟩
        · by_cases hk' : k < result.toNat
          · rw [hfront (ptr + k) (by omega), Buf.put_add _ _ hk']
          · have hrest := hin (k - result.toNat) (by omega)
            have hpos' : ptr + result.toNat + (k - result.toNat) = ptr + k := by omega
            have hk'' : result.toNat + (k - result.toNat) = k := by omega
            rw [hpos', offset_carry hlow hlt, fileFrom_add, hk''] at hrest
            exact hrest
        · rw [hfront k (by omega), Buf.put_of_lt _ _ hk]
    · rw [if_neg hpos] at h
      cases h
      exact ⟨⟨0, rfl⟩, fun k hk => by omega, fun k _ => rfl⟩

/-! ### Writing -/

/-- The loop with a server that performs every write. -/
theorem writeLoop_of_writes {f : ℕ → UInt8} (hs : s.Writes) (hlow : low < 2 ^ 32)
    (hfuel : remaining.toNat ≤ fuel) (hremaining : remaining < 2 ^ 31) :
    ∃ n, writeLoop fid fuel s low high f remaining =
      ((s.skip n).putFile fid (offset low high) remaining.toNat f, none) := by
  induction fuel generalizing s low high f remaining with
  | zero =>
    have h0 : remaining.toNat = 0 := by omega
    exact ⟨0, by rw [writeLoop, h0, putFile_zero]; rfl⟩
  | succ fuel ih =>
    rw [writeLoop]
    by_cases hpos : 0 < remaining
    · generalize hc : chunk clientMaxXmitSize remaining = count
      have hchunk := chunk_le clientMaxXmitSize remaining
      have hcpos : 0 < chunk clientMaxXmitSize remaining := chunk_pos (by decide) hpos
      rw [hc] at hchunk hcpos
      have hxmit : clientMaxXmitSize = 65535 := rfl
      have hw : ((s.skip 1).putFile fid (offset low high) count f).Writes := hs.skip 1
      obtain ⟨n, hn⟩ := @ih _ (carry low high count).1 (carry low high count).2
        (remaining - count) (fun k => f (count + k)) hw (carry_fst_lt _ _ _) (by omega) (by omega)
      have hsum : count + (remaining - count).toNat = remaining.toNat := by omega
      refine ⟨n + 1, ?_⟩
      rw [if_pos hpos]
      simp only [writeAndX, hs 0 count hcpos, writeCount, writeResult, Nat.min_self,
        Int.toNat_natCast]
      rw [if_neg (by omega), hn, skip_putFile, skip_skip, offset_carry hlow (by omega),
        putFile_putFile _ _ _ _ (by omega), hsum]
    · have h0 : remaining.toNat = 0 := by omega
      exact ⟨0, by rw [if_neg hpos, h0, putFile_zero]; rfl⟩

/-! ### Calls -/

theorem waitSema_eq_some (h : s.sema ≠ 0) :
    s.waitSema = some { s with sema := s.sema - 1 } := if_neg h

/-- One read with a server that answers every read. -/
theorem readFile_eq_put (hs : s.Reads) (hsema : s.sema ≠ 0) (fid : ℕ) (low high : UInt32)
    (buf : Buf) (ptr : ℕ) (nbytes : ℤ) :
    ∃ n, s.readFile fid low high buf ptr nbytes = some (s.skip n, nbytes,
      buf.put ptr nbytes.toNat (fileFrom (s.files fid) (offset low.toNat high.toNat))) := by
  have hreads : ({ s with sema := s.sema - 1 } : Smb).Reads := hs
  obtain ⟨n, hn⟩ := @readLoop_of_reads _ fid _ high.toNat ptr _ buf nbytes hreads low.toNat_lt
    (Nat.le_refl _)
  refine ⟨n, ?_⟩
  have hsema' : s.sema - 1 + 1 = s.sema := by omega
  rw [readFile, waitSema_eq_some hsema, Option.bind_some, hn, Option.map_some]
  simp only [signalSema, skip, hsema']

/-- One read with a server whose replies are whole: when it does not return an error, what was asked
for is there. -/
theorem readFile_of_wholeReplies (hs : s.WholeReplies) {low high : UInt32} {nbytes result : ℤ}
    (h : s.readFile fid low high buf ptr nbytes = some (s', result, buf'))
    (hresult : 0 < result) :
    (∃ n, s' = s.skip n) ∧
      (∀ k < nbytes.toNat,
        buf' (ptr + k) = some (fileFrom (s.files fid) (offset low.toNat high.toNat) k)) ∧
      ∀ k < ptr, buf' k = buf k := by
  rw [readFile, Option.bind_eq_some_iff] at h
  obtain ⟨s0, hs0, hmap⟩ := h
  obtain ⟨hsema, rfl⟩ : s.sema ≠ 0 ∧ { s with sema := s.sema - 1 } = s0 := by
    rw [waitSema] at hs0
    split_ifs at hs0 with h0
    exact ⟨h0, Option.some.inj hs0⟩
  have hwhole : ({ s with sema := s.sema - 1 } : Smb).WholeReplies := hs
  obtain ⟨⟨s1, o, buf1⟩, hloop, hmatch⟩ := Option.map_eq_some_iff.mp hmap
  cases o with
  | some r =>
    cases hmatch
    exact absurd (readLoop_some_le hloop) (by omega)
  | none =>
    cases hmatch
    obtain ⟨⟨n, hn⟩, hin, hfront⟩ :=
      readLoop_of_wholeReplies hwhole low.toNat_lt (Nat.le_refl _) hloop
    refine ⟨⟨n, ?_⟩, hin, hfront⟩
    have hsema' : s.sema - 1 + 1 = s.sema := by omega
    rw [hn]
    simp only [signalSema, skip, hsema']

/-- One write with a server that performs every write. -/
theorem writeFile_eq_put (hs : s.Writes) (hsema : s.sema ≠ 0) (fid : ℕ) (low high : UInt32)
    (f : ℕ → UInt8) {nbytes : ℤ} (hnbytes : nbytes < 2 ^ 31) :
    ∃ n, s.writeFile fid low high f nbytes = some
      ((s.skip n).putFile fid (offset low.toNat high.toNat) nbytes.toNat f, nbytes) := by
  have hwrites : ({ s with sema := s.sema - 1 } : Smb).Writes := hs
  obtain ⟨n, hn⟩ := @writeLoop_of_writes _ fid _ high.toNat _ nbytes f hwrites low.toNat_lt
    (Nat.le_refl _) hnbytes
  refine ⟨n, ?_⟩
  have hsema' : s.sema - 1 + 1 = s.sema := by omega
  rw [writeFile, waitSema_eq_some hsema, Option.map_some, hn]
  simp only [signalSema, skip, putFile, hsema']

/-- The arguments of a transfer; `nbytes` is an `int`. -/
structure Transfer where
  fid : ℕ
  low : UInt32
  high : UInt32
  nbytes : ℤ
  nbytes_lt : nbytes < 2 ^ 31

/-- The offset of a transfer. -/
def Transfer.off (t : Transfer) : UInt64 := offset t.low.toNat t.high.toNat

/-- A call of `smb_ReadFile` or `smb_WriteFile`. -/
inductive Call
  | read (t : Transfer) (buf : Buf) (ptr : ℕ)
  | write (t : Transfer) (f : ℕ → UInt8)

/-- Every call of the sequence returns and leaves the semaphore as it found it, and a call that
returns `nbytes` transferred the `nbytes` bytes from its offset on and nothing else. -/
def AllExact : Smb → List Call → Prop
  | _, [] => True
  | s, .read t buf ptr :: cs => ∃ s' result buf',
      s.readFile t.fid t.low t.high buf ptr t.nbytes = some (s', result, buf') ∧
        s'.sema = s.sema ∧
        (result = t.nbytes →
          buf' = buf.put ptr t.nbytes.toNat (fileFrom (s.files t.fid) t.off) ∧
            s'.files = s.files) ∧
        AllExact s' cs
  | s, .write t f :: cs => ∃ s' result,
      s.writeFile t.fid t.low t.high f t.nbytes = some (s', result) ∧
        s'.sema = s.sema ∧
        (result = t.nbytes →
          s'.files = Function.update s.files t.fid
            (filePut (s.files t.fid) t.off t.nbytes.toNat f)) ∧
        AllExact s' cs

/-- **Calls with a server that answers.** When every read is answered as a whole, with something and
with no more than was asked for, and every write is performed as a whole, all calls of a sequence
give the semaphore back and transfer what they say. -/
theorem allExact (hsema : s.sema ≠ 0) (hreads : s.Reads) (hwrites : s.Writes) (cs : List Call) :
    s.AllExact cs := by
  induction cs generalizing s with
  | nil => trivial
  | cons c cs ih =>
    cases c with
    | read t buf ptr =>
      obtain ⟨n, hn⟩ := readFile_eq_put hreads hsema t.fid t.low t.high buf ptr t.nbytes
      exact ⟨_, _, _, hn, rfl, fun _ => ⟨rfl, rfl⟩, ih hsema (hreads.skip n) (hwrites.skip n)⟩
    | write t f =>
      obtain ⟨n, hn⟩ := writeFile_eq_put hwrites hsema t.fid t.low t.high f t.nbytes_lt
      exact ⟨_, _, hn, rfl, fun _ => rfl, ih hsema (hreads.skip n) (hwrites.skip n)⟩

/-- A connection that ends. -/
def lossy : Smb := ⟨1, fun _ _ => 0, fun _ _ => .received fun _ => [], fun _ _ => .lost, 0, 0⟩

/-- A read of one sector. -/
def oneSector : Transfer := ⟨0, 0, 0, 2048, by decide⟩

/-- A server that sends half of what it is asked for, and performs every write. -/
def halving : Smb :=
  ⟨1, fun _ _ => 7, fun _ nbytes => .received (replySegs ((nbytes + 1) / 2)),
    fun _ nbytes => .done nbytes, 0, 0⟩

theorem allExact_halving :
    halving.AllExact [.read oneSector (fun _ => none) 0, .write oneSector fun _ => 1] :=
  allExact (by decide)
    (fun _ nbytes hpos hle => ⟨_, (nbytes + 1) / 2, rfl, by omega, by omega, fun data =>
      whole_replySegs data (by rw [clientMaxRecvSize] at hle; omega)⟩)
    (fun _ _ _ => rfl) _

/-- A lost reply leaves the semaphore taken. -/
theorem not_allExact_lossy : ¬ lossy.AllExact [.read oneSector (fun _ => none) 0] := by
  rintro ⟨s', result, buf', h, hsema, -⟩
  have hread : lossy.readFile oneSector.fid oneSector.low oneSector.high (fun _ => none) 0
      oneSector.nbytes = some (({ lossy with sema := 0 } : Smb).skip 1, -2,
        Buf.put (fun _ => none) 0 0 (fileFrom (lossy.files 0) (offset 0 0))) := rfl
  rw [hread] at h
  cases h
  exact absurd hsema (by decide)

end Smb

end OpenPS2Loader
