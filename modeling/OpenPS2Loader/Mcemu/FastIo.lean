import Mathlib.Data.Int.Notation
import Mathlib.Data.List.Basic
import OpenPS2Loader.Lib.Bytes

/-!
# Fast I/O of the memory card

`hookMcman63` and `hookMcman68` of `mcemu_rpc.c` stand for `sceMcReadFast` and `sceMcWriteFast`. A
file is moved in chunks through a buffer of one cluster on the IOP: a write has each chunk from the
EE before it calls MCMAN, a read has it from MCMAN, starts a transfer to the EE, and tells libmc how
many bytes there are for it at its address.

Addresses have 32 bits. MCMAN is a parameter: for each call what it would return if it was asked for
enough. What it returns is not more than it was asked for, and a negative number is an error.

## Main definitions

* `FastIo.hookMcman63`, `FastIo.hookMcman68`
* `FastIo.DmaTransfer.Copies` — a transfer that takes bytes from the IOP to the EE
* `FastIo.chunk` — the sizes of the chunks
* `FastIo.ReadRun.Well`, `FastIo.WriteRun.Well` — what is asked of a call

## Main results

* `FastIo.writeLoop_spec`, `FastIo.readLoop_spec`
* `FastIo.fastIo_well_iff`
-/

namespace OpenPS2Loader

namespace FastIo

/-- `MC2_CLUSTER_SIZE`: the size of the fast buffer. -/
def clusterSize : ℕ := 0x400

theorem clusterSize_cast : (clusterSize : ℤ) = 1024 := rfl

/-- The size of a chunk when `len` bytes are left. -/
def chunkSize (len : ℤ) : ℤ := if clusterSize < len then clusterSize else len

theorem chunkSize_eq_min (len : ℤ) : chunkSize len = min len clusterSize := by
  rw [chunkSize]
  split_ifs <;> omega

theorem chunkSize_pos {len : ℤ} (h : 0 < len) : 0 < chunkSize len := by
  rw [chunkSize_eq_min, clusterSize]
  omega

/-- The bytes from an address on. -/
def bytesAt (mem : UInt32 → UInt8) (a : UInt32) (n : ℕ) : List UInt8 :=
  Bytes.slice (fun j => mem (a + UInt32.ofNat j)) 0 n

/-! ### Writing -/

/-- `pMcWrite` for `size` bytes from position `off` of the fast buffer: what it returns, and what it
writes. It fails when it would read outside the buffer. -/
def mcWrite (mc : ℤ) (fiobuf : List UInt8) (off : ℕ) (size : ℤ) : Option (ℤ × List UInt8) :=
  if off + size.toNat ≤ fiobuf.length then
    some (min mc size, (fiobuf.drop off).take (min mc size).toNat)
  else none

/-- What a call of `hookMcman68` does. -/
structure WriteRun where
  /-- The addresses that `SifRpcGetOtherData` is called with. -/
  requests : List UInt32
  /-- The calls of MCMAN: the size, and what was returned. -/
  calls : List (ℤ × ℤ)
  /-- What is written to the file. -/
  written : List UInt8
  result : ℤ
  deriving DecidableEq

/-- A chunk in front of the others. -/
def WriteRun.cons (ea : UInt32) (call : ℤ × ℤ) (data : List UInt8) (run : WriteRun) : WriteRun where
  requests := ea :: run.requests
  calls := call :: run.calls
  written := data ++ run.written
  result := run.result

/-- The loop of `hookMcman68`, from its `k`-th call of MCMAN on. -/
def writeLoop (ee : UInt32 → UInt8) (mc : ℕ → ℤ) (k : ℕ) (ea : UInt32) (wlen : ℤ) :
    Option WriteRun :=
  if 0 < wlen then
    let size := chunkSize wlen
    (mcWrite (mc k) (bytesAt ee ea clusterSize) 0 size).bind fun (rval, data) =>
      if rval < 0 then some ⟨[ea], [(size, rval)], data, rval⟩
      else
        (writeLoop ee mc (k + 1) (ea + UInt32.ofInt size) (wlen - size)).map
          (WriteRun.cons ea (size, rval) data)
  else some ⟨[], [], [], 0⟩
termination_by wlen.toNat
decreasing_by
  have := chunkSize_pos ‹_›
  omega

/-- `hookMcman68`. The first chunk of an address that is not aligned starts inside the buffer. -/
def hookMcman68 (ee : UInt32 → UInt8) (mc : ℕ → ℤ) (eeaddr : UInt32) (nbyte : ℤ) :
    Option WriteRun :=
  let off := eeaddr &&& 0x3F
  if off ≠ 0 then
    let ea := eeaddr &&& ~~~0x3F
    let size : ℤ := clusterSize - off.toNat
    let size := if nbyte < size then nbyte else size
    (mcWrite (mc 0) (bytesAt ee ea clusterSize) off.toNat size).bind fun (rval, data) =>
      if rval < 0 then some ⟨[ea], [(size, rval)], data, rval⟩
      else
        (writeLoop ee mc 1 (eeaddr + UInt32.ofInt size) (nbyte - size)).map
          (WriteRun.cons ea (size, rval) data)
  else writeLoop ee mc 0 eeaddr nbyte

/-- What is asked of a write: the addresses are aligned, all bytes are written when every call of
MCMAN does what it was asked for, and a success says that they were written. -/
structure WriteRun.Well (run : WriteRun) (ee : UInt32 → UInt8) (eeaddr : UInt32) (nbyte : ℤ) :
    Prop where
  aligned : ∀ a ∈ run.requests, a % 64 = 0
  exact : (∀ c ∈ run.calls, c.2 = c.1) → run.written = bytesAt ee eeaddr nbyte.toNat
  announced : run.result = 0 → run.written.length = nbyte.toNat

/-! ### Reading -/

/-- `SifDmaTransfer_t`: from the IOP to the EE. -/
structure DmaTransfer where
  src : UInt32
  dest : UInt32
  size : ℕ
  deriving DecidableEq

/-- The memory of the EE after the transfer. -/
def DmaTransfer.apply (sdd : DmaTransfer) (iop ee : UInt32 → UInt8) (a : UInt32) : UInt8 :=
  if (a - sdd.dest).toNat < sdd.size then iop (sdd.src + (a - sdd.dest)) else ee a

/-- Whatever stands there, the transfer copies `n` bytes from the address `a` of the IOP to the
address `b` of the EE. -/
def DmaTransfer.Copies (sdd : DmaTransfer) (a b : UInt32) (n : ℕ) : Prop :=
  ∀ iop ee, bytesAt (sdd.apply iop ee) b n = bytesAt iop a n

/-- A pass of the loop of `hookMcman63` that tells libmc of new data. -/
structure ReadPass where
  /-- The number of bytes that libmc is told of. -/
  size : ℤ
  /-- What MCMAN had returned. -/
  rval : ℤ
  /-- The fast buffer. -/
  fiobuf : List UInt8
  sdd : DmaTransfer

/-- What a call of `hookMcman63` does. -/
structure ReadRun where
  calls : List (ℤ × ℤ)
  passes : List ReadPass
  result : ℤ

/-- A pass in front of the others. -/
def ReadRun.cons (p : ReadPass) (run : ReadRun) : ReadRun where
  calls := (p.size, p.rval) :: run.calls
  passes := p :: run.passes
  result := run.result

/-- The loop of `hookMcman63`, from its `k`-th call of MCMAN on: `fast` is the address of the fast
buffer and `fiobuf` what it holds, `pos` is the position in the file. -/
def readLoop (file : ℕ → UInt8) (mc : ℕ → ℤ) (fast eeaddr : UInt32) (k pos : ℕ)
    (fiobuf : List UInt8) (rlen : ℤ) : ReadRun :=
  if 0 < rlen then
    let size := chunkSize rlen
    let rval := min (mc k) size
    if rval < 0 then ⟨[(size, rval)], [], rval⟩
    else
      let fiobuf := Bytes.overwrite fiobuf 0 (Bytes.slice file pos rval.toNat)
      -- the source is the address of the EE, and the destination that of the fast buffer
      (readLoop file mc fast eeaddr (k + 1) (pos + rval.toNat) fiobuf (rlen - size)).cons
        ⟨size, rval, fiobuf, ⟨eeaddr, fast, clusterSize⟩⟩
  else ⟨[], [], 0⟩
termination_by rlen.toNat
decreasing_by
  have := chunkSize_pos ‹_›
  omega

/-- `hookMcman63`. -/
def hookMcman63 (file : ℕ → UInt8) (mc : ℕ → ℤ) (fast : UInt32) (fiobuf : Vector UInt8 clusterSize)
    (eeaddr : UInt32) (nbyte : ℤ) : ReadRun :=
  readLoop file mc fast eeaddr 0 0 fiobuf.toList nbyte

/-- What is asked of a read: when every call of MCMAN does what it was asked for, the bytes of the
file were transferred to the EE before libmc is told of them, and libmc is not told of bytes that
were not read. -/
structure ReadRun.Well (run : ReadRun) (file : ℕ → UInt8) (fast eeaddr : UInt32) (nbyte : ℤ) :
    Prop where
  exact : (∀ c ∈ run.calls, c.2 = c.1) →
    run.passes.flatMap (fun p => p.fiobuf.take p.size.toNat) = Bytes.slice file 0 nbyte.toNat ∧
      ∀ p ∈ run.passes, p.sdd.Copies fast eeaddr p.size.toNat
  announced : ∀ p ∈ run.passes, p.size ≤ p.rval

/-! ### The chunks -/

section Chunks

variable {off n : ℤ} {P Q : ℕ → ℤ → Prop}

/-- The part of the `i`-th cluster that belongs to a transfer of `n` bytes at the offset `off`. -/
def chunk (off n : ℤ) (i : ℕ) : ℤ :=
  min ((clusterSize : ℤ) * (i + 1)) (off + n) - max ((clusterSize : ℤ) * i) off

/-- `P` holds of every chunk. -/
def AllChunks (off n : ℤ) (P : ℕ → ℤ → Prop) : Prop :=
  ∀ i, 0 < chunk off n i → P i (chunk off n i)

theorem allChunks_of_nonpos (hn : n ≤ 0) : AllChunks off n P := by
  intro i hi
  rw [chunk, clusterSize_cast] at hi
  omega

/-- The first chunk, and the others. -/
theorem allChunks_iff (hoff : 0 ≤ off) (hlt : off < clusterSize) (hn : 0 < n) :
    AllChunks off n P ↔ P 0 (min n (clusterSize - off)) ∧
      AllChunks 0 (n - min n (clusterSize - off)) fun i => P (i + 1) := by
  have hzero : chunk off n 0 = min n (clusterSize - off) := by
    rw [chunk, clusterSize_cast]
    omega
  have hsucc (i : ℕ) (h : 0 < chunk off n (i + 1) ∨
      0 < chunk 0 (n - min n (clusterSize - off)) i) :
      chunk off n (i + 1) = chunk 0 (n - min n (clusterSize - off)) i := by
    rw [clusterSize_cast] at hlt
    simp only [chunk, clusterSize_cast, Int.natCast_add, Int.natCast_one] at h ⊢
    omega
  constructor
  · intro h
    refine ⟨?_, fun i hi => ?_⟩
    · rw [← hzero]
      refine h 0 ?_
      rw [hzero]
      omega
    · have heq := hsucc i (.inr hi)
      rw [← heq] at hi ⊢
      exact h (i + 1) hi
  · rintro ⟨hfirst, hrest⟩ i hi
    cases i with
    | zero => rwa [hzero]
    | succ i =>
      have heq := hsucc i (.inl hi)
      rw [heq] at hi ⊢
      exact hrest i hi

theorem AllChunks.mono (h : AllChunks off n P) (hPQ : ∀ i c, 0 < c → P i c → Q i c) :
    AllChunks off n Q := fun i hi => hPQ i _ hi (h i hi)

end Chunks

/-! ### Addresses -/

theorem length_bytesAt (mem : UInt32 → UInt8) (a : UInt32) (n : ℕ) :
    (bytesAt mem a n).length = n := Bytes.length_slice _ _ _

theorem drop_bytesAt (mem : UInt32 → UInt8) (a : UInt32) {m n : ℕ} (h : m ≤ n) :
    (bytesAt mem a n).drop m = bytesAt mem (a + UInt32.ofNat m) (n - m) := by
  rw [bytesAt, Bytes.drop_slice _ _ h, bytesAt]
  refine Bytes.slice_congr fun i _ => ?_
  rw [Nat.zero_add, Nat.zero_add, UInt32.ofNat_add, UInt32.add_assoc]

theorem take_bytesAt (mem : UInt32 → UInt8) (a : UInt32) {m n : ℕ} (h : m ≤ n) :
    (bytesAt mem a n).take m = bytesAt mem a m := Bytes.take_slice _ _ h

theorem bytesAt_append (mem : UInt32 → UInt8) (a : UInt32) (m n : ℕ) :
    bytesAt mem a m ++ bytesAt mem (a + UInt32.ofNat m) n = bytesAt mem a (m + n) := by
  have hle : m ≤ m + n := Nat.le_add_right m n
  rw [← take_bytesAt mem a hle, ← Nat.add_sub_cancel_left m n, ← drop_bytesAt mem a hle,
    Nat.add_sub_cancel_left, List.take_append_drop]

theorem ofInt_natCast (s : ℕ) : UInt32.ofInt s = UInt32.ofNat s := by
  rw [UInt32.ofInt, ← UInt32.toNat_inj]
  simp
  omega

theorem and_cluster_mask (a : UInt32) : a &&& 0x3F = a % 64 := by
  rw [← UInt32.toNat_inj, UInt32.toNat_and, UInt32.toNat_mod]
  exact Nat.and_two_pow_sub_one_eq_mod _ 6

/-- An address rounded down, and what was cut off. -/
theorem and_not_add_and (a m : UInt32) : (a &&& ~~~m) + (a &&& m) = a := by
  rw [← UInt32.toBitVec_inj, UInt32.toBitVec_add, UInt32.toBitVec_and, UInt32.toBitVec_and,
    UInt32.toBitVec_not, BitVec.add_eq_or_of_and_eq_zero]
  · ext i
    simp only [BitVec.getElem_or, BitVec.getElem_and, BitVec.getElem_not]
    cases m.toBitVec[i] <;> simp
  · ext i
    simp only [BitVec.getElem_and, BitVec.getElem_not, BitVec.getElem_zero]
    cases m.toBitVec[i] <;> simp

theorem and_not_mod (a : UInt32) : (a &&& ~~~0x3F) % 64 = 0 := by
  rw [← and_cluster_mask, UInt32.and_assoc]
  simp

theorem add_aligned {a : UInt32} {s : ℕ} (h : (a.toNat + s) % 64 = 0) :
    (a + UInt32.ofNat s) % 64 = 0 := by
  rw [← UInt32.toNat_inj, UInt32.toNat_mod, UInt32.toNat_add, UInt32.toNat_ofNat']
  exact (by omega : (a.toNat + s % 2 ^ 32) % 2 ^ 32 % 64 = 0)

/-! ### The writes -/

section Writes

variable {ee : UInt32 → UInt8} {mc : ℕ → ℤ} {a ea : UInt32} {off : ℕ} {n size rval : ℤ}
  {data : List UInt8} {run : WriteRun}

/-- `pMcWrite` with a chunk of what was just received. -/
theorem mcWrite_bytesAt (ee : UInt32 → UInt8) (a : UInt32) (mc : ℤ)
    (hoff : off ≤ clusterSize) (hsize : size ≤ clusterSize - off) :
    mcWrite mc (bytesAt ee a clusterSize) off size =
      some (min mc size, bytesAt ee (a + UInt32.ofNat off) (min mc size).toNat) := by
  rw [mcWrite, length_bytesAt, if_pos (by omega), drop_bytesAt _ _ hoff,
    take_bytesAt _ _ (by omega)]

/-- What is known of a run that writes `n` bytes from the address `ea` on, `off` bytes behind the
start of a cluster. -/
structure WriteRun.Spec (run : WriteRun) (ee : UInt32 → UInt8) (mc : ℕ → ℤ) (ea : UInt32)
    (off : ℕ) (n : ℤ) : Prop where
  aligned : ∀ a ∈ run.requests, a % 64 = 0
  exact : (∀ c ∈ run.calls, c.2 = c.1) → run.written = bytesAt ee ea n.toNat
  result : run.result = 0 ↔ AllChunks off n fun i _ => 0 ≤ mc i
  le : run.written.length ≤ n.toNat
  length : run.result = 0 →
    (run.written.length = n.toNat ↔ AllChunks off n fun i c => c ≤ mc i)

/-- Nothing to write. -/
theorem WriteRun.spec_nil (hn : n ≤ 0) : (WriteRun.mk [] [] [] 0).Spec ee mc ea 0 n where
  aligned _ h := absurd h List.not_mem_nil
  exact _ := by
    rw [Int.toNat_of_nonpos hn]
    rfl
  result := iff_of_true rfl (allChunks_of_nonpos hn)
  le := Nat.zero_le _
  length _ := iff_of_true (Int.toNat_of_nonpos hn).symm (allChunks_of_nonpos hn)

/-- A chunk that MCMAN refuses. -/
theorem WriteRun.spec_error (mc : ℕ → ℤ) (hn : 0 < n) (hoff : off < clusterSize)
    (hsize : size = min n (clusterSize - off)) (hrval : min (mc 0) size < 0) (ha : a % 64 = 0) :
    (WriteRun.mk [a] [(size, min (mc 0) size)] (bytesAt ee ea (min (mc 0) size).toNat)
      (min (mc 0) size)).Spec ee mc ea off n := by
  have hlt : (off : ℤ) < clusterSize := by omega
  have hmc : mc 0 < 0 := by omega
  have hnil : (min (mc 0) size).toNat = 0 := by omega
  refine ⟨fun b hb => ?_, fun hfull => ?_, iff_of_false (Int.ne_of_lt hrval) fun hall => ?_, ?_,
    fun h => ?_⟩
  · rwa [List.mem_singleton.mp hb]
  · have hcall := hfull _ List.mem_cons_self
    dsimp only at hcall
    omega
  · have hfirst := ((allChunks_iff (by omega) hlt hn).mp hall).1
    omega
  · rw [length_bytesAt, hnil]
    exact Nat.zero_le _
  · exact absurd h (Int.ne_of_lt hrval)

/-- A chunk in front of the others. -/
theorem WriteRun.Spec.cons (mc : ℕ → ℤ) (hn : 0 < n) (hoff : off < clusterSize)
    (hsize : size = min n (clusterSize - off)) (hrval : ¬ min (mc 0) size < 0) (ha : a % 64 = 0)
    (h : run.Spec ee (fun i => mc (i + 1)) (ea + UInt32.ofInt size) 0 (n - size)) :
    (run.cons a (size, min (mc 0) size) (bytesAt ee ea (min (mc 0) size).toNat)).Spec
      ee mc ea off n := by
  have hlt : (off : ℤ) < clusterSize := by omega
  have hlen : (run.cons a (size, min (mc 0) size)
      (bytesAt ee ea (min (mc 0) size).toNat)).written.length =
      (min (mc 0) size).toNat + run.written.length := by
    rw [WriteRun.cons, List.length_append, length_bytesAt]
  have hle := h.le
  refine ⟨List.forall_mem_cons.mpr ⟨ha, h.aligned⟩, fun hfull => ?_, ?_, ?_, fun hresult => ?_⟩
  · obtain ⟨hcall, hrest⟩ := List.forall_mem_cons.mp hfull
    dsimp only at hcall
    have hnat : size = (size.toNat : ℤ) := by omega
    have htotal : size.toNat + (n - size).toNat = n.toNat := by omega
    rw [WriteRun.cons, h.exact hrest, hcall, ← htotal, ← bytesAt_append]
    rw [← ofInt_natCast, ← hnat]
  · rw [allChunks_iff (by omega) hlt hn, ← hsize]
    exact h.result.trans (and_iff_right (by omega)).symm
  · rw [hlen]
    omega
  · have hrest := h.length hresult
    rw [hlen, allChunks_iff (by omega) hlt hn, ← hsize]
    constructor
    · intro heq
      exact ⟨by omega, hrest.mp (by omega)⟩
    · rintro ⟨hfirst, hall⟩
      have hwritten := hrest.mpr hall
      omega

/-- **The loop of `hookMcman68`.** -/
theorem writeLoop_spec (ee : UInt32 → UInt8) (mc : ℕ → ℤ) (k : ℕ) (ea : UInt32) (wlen : ℤ)
    (hea : 0 < wlen → ea % 64 = 0) :
    ∃ run, writeLoop ee mc k ea wlen = some run ∧
      run.Spec ee (fun i => mc (k + i)) ea 0 wlen := by
  fun_induction writeLoop ee mc k ea wlen with
  | case1 k ea wlen hpos size ih =>
    have hsize : size = min wlen (clusterSize - (0 : ℕ)) := by
      rw [Int.natCast_zero, Int.sub_zero]
      exact chunkSize_eq_min wlen
    have hwrite := mcWrite_bytesAt ee ea (mc k) (Nat.zero_le clusterSize) (by omega : size ≤ _)
    have hbase : ea + UInt32.ofNat 0 = ea := UInt32.add_zero ea
    have hoff : 0 < clusterSize := by decide
    rw [hbase] at hwrite
    rw [hwrite, Option.bind_some]
    dsimp only
    split_ifs with hrval
    · exact ⟨_, rfl, WriteRun.spec_error (fun i => mc (k + i)) hpos hoff hsize hrval
        (hea hpos)⟩
    · have hnext : 0 < wlen - size → (ea + UInt32.ofInt size) % 64 = 0 := by
        intro hrest
        have hfull : size = (clusterSize : ℕ) := by omega
        have haligned : ea.toNat % 64 = 0 := congrArg UInt32.toNat (hea hpos)
        rw [hfull, ofInt_natCast]
        exact add_aligned (by rw [clusterSize]; omega)
      obtain ⟨run, hrun, hspec⟩ := ih hnext
      have hshift : (fun i => mc (k + 1 + i)) = fun i => mc (k + (i + 1)) := by
        funext i
        rw [Nat.add_assoc, Nat.add_comm 1]
      rw [hshift] at hspec
      rw [hrun]
      exact ⟨_, rfl, hspec.cons (fun i => mc (k + i)) hpos hoff hsize hrval (hea hpos)⟩
  | case2 k ea wlen hneg => exact ⟨_, rfl, WriteRun.spec_nil (Int.not_lt.mp hneg)⟩

/-- **`hookMcman68`** for at least one byte. -/
theorem hookMcman68_spec (ee : UInt32 → UInt8) (mc : ℕ → ℤ) (ea : UInt32) (hn : 0 < n) :
    ∃ run, hookMcman68 ee mc ea n = some run ∧ run.Spec ee mc ea (ea.toNat % 64) n := by
  have hoff : (ea &&& 0x3F).toNat = ea.toNat % 64 := by
    rw [and_cluster_mask]
    rfl
  have hlt : ea.toNat % 64 < clusterSize := by
    rw [clusterSize]
    omega
  have hsize : (if n < (clusterSize : ℤ) - (ea &&& 0x3F).toNat then n
      else (clusterSize : ℤ) - (ea &&& 0x3F).toNat) =
        min n (clusterSize - (ea.toNat % 64 : ℕ)) := by
    rw [hoff]
    split_ifs <;> omega
  rw [hookMcman68]
  dsimp only
  by_cases hzero : ea &&& 0x3F ≠ 0
  · have hbase : (ea &&& ~~~0x3F) + UInt32.ofNat (ea.toNat % 64) = ea := by
      rw [← hoff, UInt32.ofNat_toNat, and_not_add_and]
    generalize hchunk : min n ((clusterSize : ℤ) - (ea.toNat % 64 : ℕ)) = size at hsize
    rw [if_pos hzero, hsize, hoff, mcWrite_bytesAt ee _ (mc 0) hlt.le (by omega), hbase,
      Option.bind_some]
    dsimp only
    split_ifs with hrval
    · exact ⟨_, rfl, WriteRun.spec_error mc hn hlt hchunk.symm hrval (and_not_mod ea)⟩
    · obtain ⟨run, hrun, hspec⟩ := writeLoop_spec ee mc 1 (ea + UInt32.ofInt size) (n - size)
        fun hrest => by
          have hfull : size = (clusterSize - ea.toNat % 64 : ℕ) := by omega
          rw [hfull, ofInt_natCast]
          exact add_aligned (by rw [clusterSize] at hlt ⊢; omega)
      rw [hrun]
      refine ⟨_, rfl, WriteRun.Spec.cons mc hn hlt hchunk.symm hrval (and_not_mod ea) ?_⟩
      simpa only [Nat.add_comm 1] using hspec
  · have haligned : ea.toNat % 64 = 0 := by
      rw [← hoff, not_not.mp hzero]
      rfl
    obtain ⟨run, hrun, hspec⟩ := writeLoop_spec ee mc 0 ea n fun _ =>
      UInt32.toNat_inj.mp haligned
    simp only [Nat.zero_add] at hspec
    rw [if_neg hzero, haligned]
    exact ⟨run, hrun, hspec⟩

/-- Nothing to write. -/
theorem exists_hookMcman68_nil (hn : n ≤ 0) :
    ∃ run, hookMcman68 ee mc ea n = some run ∧ run.Well ee ea n := by
  have hnat : n.toNat = 0 := Int.toNat_of_nonpos hn
  have hoff : (ea &&& 0x3F).toNat ≤ clusterSize := by
    rw [and_cluster_mask]
    exact (Nat.mod_lt _ (by decide : 0 < 64)).le.trans (by decide)
  rw [hookMcman68]
  dsimp only
  by_cases hzero : ea &&& 0x3F ≠ 0
  · have hsize : (if n < (clusterSize : ℤ) - (ea &&& 0x3F).toNat then n
        else (clusterSize : ℤ) - (ea &&& 0x3F).toNat) = n := by
      split_ifs <;> omega
    have hmin : (min (mc 0) n).toNat = 0 := by omega
    have hloop : writeLoop ee mc 1 (ea + UInt32.ofInt n) (n - n) = some ⟨[], [], [], 0⟩ := by
      rw [writeLoop, if_neg (by omega)]
    rw [if_pos hzero, hsize, mcWrite_bytesAt ee _ (mc 0) hoff (by omega), Option.bind_some, hmin,
      hloop]
    dsimp only
    split_ifs with hrval
    all_goals
      refine ⟨_, rfl, fun a ha => ?_, fun _ => ?_, fun _ => ?_⟩
      · rw [List.mem_singleton.mp ha]
        exact and_not_mod ea
      · rw [hnat]
        rfl
      · rw [hnat]
        rfl
  · rw [if_neg hzero, writeLoop, if_neg (by omega)]
    refine ⟨_, rfl, fun a ha => absurd ha List.not_mem_nil, fun _ => ?_, fun _ => ?_⟩
    all_goals
      rw [hnat]
      rfl

/-- **Writes.** A success has to say that nothing fell short. -/
theorem hookMcman68_well_iff (ee : UInt32 → UInt8) (mc : ℕ → ℤ) (ea : UInt32) (n : ℤ) :
    (∃ run, hookMcman68 ee mc ea n = some run ∧ run.Well ee ea n) ↔
      (AllChunks (ea.toNat % 64 : ℕ) n (fun i _ => 0 ≤ mc i) →
        AllChunks (ea.toNat % 64 : ℕ) n fun i c => c ≤ mc i) := by
  rcases Int.lt_or_le 0 n with hn | hn
  · obtain ⟨run, hrun, hspec⟩ := hookMcman68_spec ee mc ea hn
    constructor
    · rintro ⟨run', hrun', hwell⟩ hall
      obtain rfl := Option.some.inj (hrun.symm.trans hrun')
      have hresult := hspec.result.mpr hall
      exact (hspec.length hresult).mp (hwell.announced hresult)
    · intro h
      exact ⟨run, hrun, hspec.aligned, hspec.exact, fun hresult =>
        (hspec.length hresult).mpr (h (hspec.result.mp hresult))⟩
  · exact iff_of_true (exists_hookMcman68_nil hn) fun _ => allChunks_of_nonpos hn

end Writes

/-! ### The reads -/

section Reads

variable {file : ℕ → UInt8} {mc : ℕ → ℤ} {fast eeaddr : UInt32} {pos : ℕ} {n : ℤ}
  {fiobuf : List UInt8} {run : ReadRun}

/-- The transfer of the loop does what it should only when the two addresses are the same. -/
theorem copies_iff {m : ℕ} (hm : 0 < m) (hle : m ≤ clusterSize) :
    (DmaTransfer.mk eeaddr fast clusterSize).Copies fast eeaddr m ↔ eeaddr = fast := by
  constructor
  · intro h
    -- a mark at the start of the fast buffer arrives
    have hbytes := h (fun a => if a = fast then 1 else 0) fun _ => 0
    obtain ⟨m, rfl⟩ := Nat.exists_eq_add_one.mpr hm
    have hfirst := congrArg List.head? hbytes
    have hbase : ∀ a : UInt32, a + UInt32.ofNat (0 + 0) = a := UInt32.add_zero
    simp only [bytesAt, Bytes.slice, List.range_succ_eq_map, List.map_cons, List.head?_cons,
      hbase, if_true, Option.some.injEq, DmaTransfer.apply] at hfirst
    split_ifs at hfirst with hin heq
    · have hnat := congrArg UInt32.toNat heq
      have hfast : eeaddr = fast + (eeaddr - fast) := by
        rw [UInt32.add_comm, UInt32.sub_add_cancel]
      generalize eeaddr - fast = d at hin hnat hfast
      rw [hfast, UInt32.add_assoc] at hnat
      simp only [UInt32.toNat_add, clusterSize] at hnat hin
      have hd : d = 0 := UInt32.toNat_inj.mp (by
        have := fast.toNat_lt
        have := d.toNat_lt
        show d.toNat = 0
        omega)
      rw [hfast, hd, UInt32.add_zero]
    · exact absurd hfirst (by decide)
    · exact absurd hfirst (by decide)
  · rintro rfl iop ee
    refine Bytes.slice_congr fun i hi => ?_
    have hsub : eeaddr + UInt32.ofNat (0 + i) - eeaddr = UInt32.ofNat (0 + i) := by
      rw [UInt32.add_comm, UInt32.add_sub_cancel]
    have hlt : (UInt32.ofNat (0 + i)).toNat < clusterSize := by
      rw [UInt32.toNat_ofNat']
      exact (Nat.mod_le _ _).trans_lt (by omega)
    simp only [DmaTransfer.apply, hsub, if_pos hlt]

/-- What is known of a run that reads `n` bytes from the position `pos` of the file on. -/
structure ReadRun.Spec (run : ReadRun) (file : ℕ → UInt8) (mc : ℕ → ℤ) (fast eeaddr : UInt32)
    (pos : ℕ) (n : ℤ) : Prop where
  sdd : ∀ p ∈ run.passes, p.sdd = ⟨eeaddr, fast, clusterSize⟩
  size : ∀ p ∈ run.passes, 0 < p.size ∧ p.size ≤ clusterSize
  full : (∀ c ∈ run.calls, c.2 = c.1) ↔ AllChunks 0 n fun i c => c ≤ mc i
  nil : run.passes = [] ↔ n ≤ 0 ∨ mc 0 < 0
  exact : (∀ c ∈ run.calls, c.2 = c.1) →
    run.passes.flatMap (fun p => p.fiobuf.take p.size.toNat) = Bytes.slice file pos n.toNat
  announced : (∀ p ∈ run.passes, p.size ≤ p.rval) ↔
    AllChunks 0 n fun i c => (∀ j ≤ i, 0 ≤ mc j) → c ≤ mc i

/-- **The loop of `hookMcman63`.** -/
theorem readLoop_spec (file : ℕ → UInt8) (mc : ℕ → ℤ) (fast eeaddr : UInt32) (k pos : ℕ) (n : ℤ)
    (hbuf : fiobuf.length = clusterSize) :
    (readLoop file mc fast eeaddr k pos fiobuf n).Spec file (fun i => mc (k + i)) fast eeaddr
      pos n := by
  fun_induction readLoop file mc fast eeaddr k pos fiobuf n with
  | case1 k pos fiobuf n hpos size rval hrval =>
    have hsize : 0 < size := chunkSize_pos hpos
    have hmc : mc (k + 0) < 0 := by
      rw [Nat.add_zero]
      omega
    have hshort : ¬ ∀ c ∈ [(size, rval)], c.2 = c.1 := by
      intro hfull
      have hcall : rval = size := hfull _ List.mem_cons_self
      omega
    refine ⟨by simp, by simp, iff_of_false hshort fun hall => ?_, iff_of_true rfl (.inr hmc),
      fun hfull => absurd hfull hshort, iff_of_true (by simp) fun i _ hreached => ?_⟩
    · have hfirst := ((allChunks_iff (Int.le_refl 0) (by decide) hpos).mp hall).1
      rw [clusterSize_cast] at hfirst
      omega
    · exact absurd (hreached 0 (Nat.zero_le i)) (by omega)
  | case2 k pos fiobuf n hpos size rval hrval buf ih =>
    have hsize : 0 < size := chunkSize_pos hpos
    have hmin : size = min n (clusterSize - 0) := by
      rw [Int.sub_zero]
      exact chunkSize_eq_min n
    have hle : size ≤ clusterSize := by omega
    have hrval' : rval = min (mc (k + 0)) size := rfl
    have hfit : 0 + (Bytes.slice file pos rval.toNat).length ≤ fiobuf.length := by
      rw [Bytes.length_slice, hbuf]
      omega
    have hspec := ih ((Bytes.length_overwrite hfit).trans hbuf)
    have hshift : (fun i => mc (k + 1 + i)) = fun i => mc (k + (i + 1)) := by
      funext i
      rw [Nat.add_assoc, Nat.add_comm 1]
    rw [hshift] at hspec
    have hchunks : ∀ P : ℕ → ℤ → Prop, AllChunks 0 n P ↔
        P 0 size ∧ AllChunks 0 (n - size) fun i => P (i + 1) := fun P => by
      rw [allChunks_iff (Int.le_refl 0) (by decide) hpos, hmin]
    refine ⟨List.forall_mem_cons.mpr ⟨rfl, hspec.sdd⟩,
      List.forall_mem_cons.mpr ⟨⟨hsize, hle⟩, hspec.size⟩, ?_, ?_, fun hfull => ?_, ?_⟩
    · rw [hchunks, ← hspec.full, ReadRun.cons, List.forall_mem_cons]
      refine and_congr_left fun _ => ?_
      show rval = size ↔ size ≤ mc (k + 0)
      omega
    · refine iff_of_false (List.cons_ne_nil _ _) fun h => ?_
      omega
    · obtain ⟨hcall, hrest⟩ := List.forall_mem_cons.mp hfull
      have hcall : rval = size := hcall
      have htake : buf.take size.toNat = Bytes.slice file pos size.toNat := by
        have htake := Bytes.take_overwrite hfit
        rw [Bytes.length_slice, Nat.zero_add, List.take_zero, List.nil_append] at htake
        rw [← hcall]
        exact htake
      have htotal : size.toNat + (n - size).toNat = n.toNat := by omega
      rw [ReadRun.cons, List.flatMap_cons, hspec.exact hrest, htake, hcall, ← htotal,
        Bytes.slice_add]
    · rw [hchunks, ReadRun.cons, List.forall_mem_cons, hspec.announced]
      refine and_congr ?_ (forall_congr' fun i => imp_congr_right fun _ => ?_)
      · show size ≤ rval ↔ ((∀ j ≤ 0, 0 ≤ mc (k + j)) → size ≤ mc (k + 0))
        constructor
        · intro h _
          omega
        · intro h
          have hle := h fun j hj => by
            rw [Nat.le_zero.mp hj]
            omega
          omega
      · refine imp_congr_left ⟨fun h j hj => ?_, fun h j hj => h (j + 1) (Nat.succ_le_succ hj)⟩
        cases j with
        | zero => omega
        | succ j => exact h j (Nat.le_of_succ_le_succ hj)
  | case3 k pos fiobuf n hneg =>
    have hn : n ≤ 0 := Int.not_lt.mp hneg
    refine ⟨by simp, by simp, iff_of_true (by simp) (allChunks_of_nonpos hn),
      iff_of_true rfl (.inl hn), fun _ => ?_, iff_of_true (by simp) (allChunks_of_nonpos hn)⟩
    rw [Int.toNat_of_nonpos hn]
    rfl

/-- **Reads.** The transfer has to go from the address of the fast buffer to that of the EE, and no
read that libmc is told of falls short. -/
theorem hookMcman63_well_iff (file : ℕ → UInt8) (mc : ℕ → ℤ) (fast : UInt32)
    (fiobuf : Vector UInt8 clusterSize) (eeaddr : UInt32) (n : ℤ) :
    (hookMcman63 file mc fast fiobuf eeaddr n).Well file fast eeaddr n ↔
      ((AllChunks 0 n fun i c => c ≤ mc i) → n ≤ 0 ∨ eeaddr = fast) ∧
        AllChunks 0 n fun i c => (∀ j ≤ i, 0 ≤ mc j) → c ≤ mc i := by
  have hspec : (hookMcman63 file mc fast fiobuf eeaddr n).Spec file mc fast eeaddr 0 n := by
    have h := readLoop_spec file mc fast eeaddr 0 0 n fiobuf.length_toList
    simp only [Nat.zero_add] at h
    exact h
  have hcopies : ∀ p ∈ (hookMcman63 file mc fast fiobuf eeaddr n).passes,
      (p.sdd.Copies fast eeaddr p.size.toNat ↔ eeaddr = fast) := by
    intro p hp
    obtain ⟨hpos, hle⟩ := hspec.size p hp
    rw [hspec.sdd p hp]
    exact copies_iff (by omega) (by omega)
  constructor
  · intro hwell
    refine ⟨fun hall => ?_, hspec.announced.mp hwell.announced⟩
    have hpasses := (hwell.exact (hspec.full.mpr hall)).2
    by_contra hne
    obtain ⟨hn, hne⟩ := not_or.mp hne
    have hmc : ¬ mc 0 < 0 := by
      have hfirst := ((allChunks_iff (Int.le_refl 0) (by decide) (Int.not_le.mp hn)).mp hall).1
      rw [clusterSize_cast] at hfirst
      omega
    obtain ⟨p, hp⟩ := List.exists_mem_of_ne_nil _ fun hnil =>
      (hspec.nil.mp hnil).elim hn hmc
    exact hne ((hcopies p hp).mp (hpasses p hp))
  · rintro ⟨hdma, hshort⟩
    refine ⟨fun hfull => ⟨hspec.exact hfull, fun p hp => ?_⟩, hspec.announced.mpr hshort⟩
    rcases hdma (hspec.full.mp hfull) with hn | heq
    · rw [hspec.nil.mpr (.inl hn)] at hp
      exact absurd hp List.not_mem_nil
    · exact (hcopies p hp).mpr heq

end Reads

/-- **Fast I/O.** A write is as it should be just when a success means that no call of MCMAN fell
short. A read is just when none of the calls that libmc is told of fell short, and there is nothing
to transfer, or the address on the EE is that of the fast buffer on the IOP. -/
theorem fastIo_well_iff (ee : UInt32 → UInt8) (file : ℕ → UInt8) (mc : ℕ → ℤ) (fast : UInt32)
    (fiobuf : Vector UInt8 clusterSize) (eeaddr : UInt32) (nbyte : ℤ) :
    ((∃ run, hookMcman68 ee mc eeaddr nbyte = some run ∧ run.Well ee eeaddr nbyte) ↔
      (AllChunks (eeaddr.toNat % 64 : ℕ) nbyte (fun i _ => 0 ≤ mc i) →
        AllChunks (eeaddr.toNat % 64 : ℕ) nbyte fun i c => c ≤ mc i)) ∧
    ((hookMcman63 file mc fast fiobuf eeaddr nbyte).Well file fast eeaddr nbyte ↔
      ((AllChunks 0 nbyte fun i c => c ≤ mc i) → nbyte ≤ 0 ∨ eeaddr = fast) ∧
        AllChunks 0 nbyte fun i c => (∀ j ≤ i, 0 ≤ mc j) → c ≤ mc i) :=
  ⟨hookMcman68_well_iff ee mc eeaddr nbyte, hookMcman63_well_iff file mc fast fiobuf eeaddr nbyte⟩

/-- One byte is read, and the transfer goes the wrong way; of two bytes one is written, and the
result is a success. -/
theorem not_fastIo_well :
    ¬ (hookMcman63 (fun _ => 0x41) (fun _ => 1) 0x10000 (Vector.replicate clusterSize 0) 0x100000
        1).Well (fun _ => 0x41) 0x10000 0x100000 1 ∧
      ¬ ∃ run, hookMcman68 (fun _ => 0x41) (fun _ => 1) 0x100000 2 = some run ∧
        run.Well (fun _ => 0x41) 0x100000 2 := by
  rw [hookMcman63_well_iff, hookMcman68_well_iff]
  refine ⟨fun h => ?_, fun h => ?_⟩
  · have hall : AllChunks 0 1 fun i c => c ≤ 1 := fun i _ => by
      rw [chunk, clusterSize_cast]
      omega
    exact (h.1 hall).elim (by decide) (by decide)
  · have hle : chunk 0 2 0 ≤ 1 := h (fun i _ => Int.zero_le_ofNat 1) 0 (by decide)
    exact absurd hle (by decide)

end FastIo

end OpenPS2Loader
