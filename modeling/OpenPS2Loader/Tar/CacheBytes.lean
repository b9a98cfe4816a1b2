import Mathlib.Data.Int.ModEq
import OpenPS2Loader.Tar.Parse

/-!
# The bytes of the sidecar

`tarReadCache` and `tarWriteCache` on the bytes of the sidecar: a header of 24 bytes, the last four
of which are padding, and behind it the index as it lies in memory. The number of entries comes from
the header, and the size of the file is an `int`.

The index in memory is a block of bytes with a number of entries. `malloc` gives no block of
2 GiB or more (`Heap`).

## Main definitions

* `TarCache.tarReadCache`, `TarCache.tarWriteCache`
* `TarCache.IndexMem.Holds` — the index in memory
* `TarCache.sidecarOf` — the sidecar that the bytes stand for

## Main results

* `TarCache.readEntries_map_entries` — the bytes are read as the sidecar that they stand for
* `TarCache.cache_round_trip`
-/

namespace OpenPS2Loader

namespace TarCache

open Bytes Tar

/-! ### The file -/

/-- `malloc` and `memalign`: the sizes they give. -/
structure Heap where
  gives : ℕ → Bool
  lt : ∀ n, gives n = true → n < 2 ^ 31

/-- `TarCacheHeader` -/
structure Header where
  magic : List UInt8
  version : ℕ
  tarSize : ℕ
  entryCount : ℕ

/-- `sizeof(TarCacheHeader)` -/
def headerSize : ℕ := 24

/-- The header at the start of a buffer. -/
def Header.read (buf : List UInt8) : Header :=
  ⟨field buf 0 4, ofLe (field buf 4 4), ofLe (field buf 8 8), ofLe (field buf 16 4)⟩

/-- The bytes of a header. Nothing sets the padding. -/
def Header.bytes (h : Header) (padding : UInt32) : List UInt8 :=
  h.magic ++ (toLe 4 h.version ++ (toLe 8 h.tarSize ++ (toLe 4 h.entryCount ++
    toLe 4 padding.toNat)))

/-- `s_index`, `s_count` and `s_cap` of a kind. -/
structure IndexMem where
  mem : List UInt8
  count : ℕ
  cap : ℕ
  deriving DecidableEq

/-- `rawSize` of the entry with number `i`. The address is computed in 32 bits. -/
def rawSizeAt (k : Kind) (entries : List UInt8) (i : ℕ) : ℕ :=
  ofLe (field entries (k.entrySize * i % 2 ^ 32 + 8) 4)

/-- What the calls of `tarReadCache` return. -/
structure ReadEnv where
  opens : Bool
  fstat : Bool
  /-- `read` gives the whole file. -/
  readAll : Bool
  heap : Heap
  /-- `stat` of the archive -/
  tarSize : Option UInt64

/-- The entries that `tarReadCache` accepts. -/
def readEntries (e : ReadEnv) (k : Kind) (file : List UInt8) : Option IndexMem :=
  if e.opens = false ∨ e.fstat = false then none
  else
    let fileSize : ℤ := Int.bmod file.length (2 ^ 32)
    if fileSize < headerSize then none
    else if e.heap.gives fileSize.toNat = false ∨ e.readAll = false then none
    else
      let buf := file.take fileSize.toNat
      let hdr := Header.read buf
      if hdr.magic ≠ arcMagic ∨ hdr.version ≠ arcVersion then none
      else if e.tarSize.map UInt64.toNat ≠ some hdr.tarSize then none
      -- the number of entries is checked by a division, which does not overflow
      else if (fileSize.toNat - headerSize) / k.entrySize < hdr.entryCount then none
      else
        let total := hdr.entryCount * k.entrySize % 2 ^ 32
        if e.heap.gives total = false then none
        else
          let entries := field buf headerSize total
          if (List.range hdr.entryCount).any fun i => maxFileSize < rawSizeAt k entries i then none
          else some ⟨entries, hdr.entryCount, hdr.entryCount⟩

/-- `tarReadCache` -/
def tarReadCache (e : ReadEnv) (k : Kind) (file : List UInt8) (s : IndexMem) : ℤ × IndexMem :=
  match readEntries e k file with
  | some index => (0, index)
  | none => (-1, s)

/-- What the calls of `tarWriteCache` return. -/
structure WriteEnv where
  /-- `stat` of the archive -/
  tarSize : Option UInt64
  opens : Bool
  padding : UInt32
  /-- how many bytes the two calls of `write` can write -/
  room₁ : ℕ
  room₂ : ℕ

/-- `tarWriteCache`: its value, and the file it leaves in place of `old`. -/
def tarWriteCache (w : WriteEnv) (k : Kind) (s : IndexMem) (old : Option (List UInt8)) :
    ℤ × Option (List UInt8) :=
  match w.tarSize with
  | none => (-1, old)
  | some size =>
    if w.opens = false then (-1, old)
    else
      let hdr := (Header.mk arcMagic arcVersion size.toNat s.count).bytes w.padding
      if w.room₁ < hdr.length then (-1, some (hdr.take w.room₁))
      else
        let totalSize := k.entrySize * s.count % 2 ^ 32
        if totalSize = 0 then (0, some hdr)
        else if w.room₂ < totalSize then (-1, some (hdr ++ (s.mem.take totalSize).take w.room₂))
        else (0, some (hdr ++ s.mem.take totalSize))

/-! ### The index in memory -/

/-- The index in memory: the entries lie in their block, and no file is too large. -/
structure IndexMem.Holds (k : Kind) (s : IndexMem) : Prop where
  fits : k.entrySize * s.count ≤ s.mem.length
  lt : s.mem.length < 2 ^ 31
  rawSize_le : ∀ i < s.count, rawSizeAt k s.mem i ≤ maxFileSize

theorem entrySize_pos (k : Kind) : 0 < k.entrySize := by cases k <;> decide

theorem sixteen_le_entrySize (k : Kind) : 16 ≤ k.entrySize := by cases k <;> decide

/-- The bytes of the entries. -/
def IndexMem.used (k : Kind) (s : IndexMem) : List UInt8 := s.mem.take (k.entrySize * s.count)

/-- What is left when only the entries are kept. -/
def IndexMem.trimmed (k : Kind) (s : IndexMem) : IndexMem := ⟨s.used k, s.count, s.count⟩

namespace IndexMem.Holds

variable {k : Kind} {s : IndexMem}

theorem total_lt (h : s.Holds k) : k.entrySize * s.count < 2 ^ 31 := h.fits.trans_lt h.lt

theorem count_lt (h : s.Holds k) : s.count < 2 ^ 32 := by
  have := h.total_lt
  have := Nat.mul_le_mul_right s.count (entrySize_pos k)
  omega

theorem length_used (h : s.Holds k) : (s.used k).length = k.entrySize * s.count := by
  rw [IndexMem.used, List.length_take]
  exact Nat.min_eq_left h.fits

/-- An entry lies in front of the next one. -/
theorem entry_end_le {i n : ℕ} (hi : i < n) : k.entrySize * i + 16 ≤ k.entrySize * n := by
  have hnext : k.entrySize * (i + 1) ≤ k.entrySize * n := Nat.mul_le_mul_left _ hi
  have := sixteen_le_entrySize k
  rw [Nat.mul_succ] at hnext
  omega

theorem rawSizeAt_used (h : s.Holds k) {i : ℕ} (hi : i < s.count) :
    rawSizeAt k (s.used k) i = rawSizeAt k s.mem i := by
  have hend := entry_end_le (k := k) hi
  have := h.total_lt
  rw [rawSizeAt, rawSizeAt, IndexMem.used, field_take]
  omega

end IndexMem.Holds

/-! ### Headers -/

@[simp] theorem length_bytes {h : Header} (hmagic : h.magic.length = 4) (padding : UInt32) :
    (h.bytes padding).length = headerSize := by
  simp [Header.bytes, hmagic, headerSize]

/-- A header is read back. -/
theorem read_bytes {h : Header} (hmagic : h.magic.length = 4) (hversion : h.version < 2 ^ 32)
    (htar : h.tarSize < 2 ^ 64) (hcount : h.entryCount < 2 ^ 32) (padding : UInt32)
    (rest : List UInt8) : Header.read (h.bytes padding ++ rest) = h := by
  have hmag : field (h.bytes padding ++ rest) 0 4 = h.magic := by
    rw [field, List.drop_zero, Header.bytes, List.append_assoc, List.take_left' hmagic]
  have hver : field (h.bytes padding ++ rest) 4 4 = toLe 4 h.version :=
    take_drop_of_append (a := h.magic) (by rw [Header.bytes]; simp only [List.append_assoc]; rfl)
      hmagic (length_toLe _ _)
  have hsize : field (h.bytes padding ++ rest) 8 8 = toLe 8 h.tarSize :=
    take_drop_of_append (a := h.magic ++ toLe 4 h.version)
      (by rw [Header.bytes]; simp only [List.append_assoc]; rfl)
      (by rw [List.length_append, hmagic, length_toLe]) (length_toLe _ _)
  have hcnt : field (h.bytes padding ++ rest) 16 4 = toLe 4 h.entryCount :=
    take_drop_of_append (a := h.magic ++ (toLe 4 h.version ++ toLe 8 h.tarSize))
      (by rw [Header.bytes]; simp only [List.append_assoc]; rfl)
      (by rw [List.length_append, List.length_append, hmagic, length_toLe, length_toLe])
      (length_toLe _ _)
  rw [Header.read, hmag, hver, hsize, hcnt, ofLe_toLe hversion, ofLe_toLe htar, ofLe_toLe hcount]

/-! ### What is accepted -/

/-- The number of entries fits the file. -/
theorem count_le_iff {k : Kind} {n count : ℕ} (hn : headerSize ≤ n) :
    ¬(n - headerSize) / k.entrySize < count ↔ headerSize + k.entrySize * count ≤ n := by
  rw [Nat.not_lt, Nat.le_div_iff_mul_le (entrySize_pos k), Nat.mul_comm]
  omega

/-- `tarReadCache` reads `n` bytes and accepts this index in them. -/
structure Accepts (e : ReadEnv) (k : Kind) (file : List UInt8) (n : ℕ) (index : IndexMem) :
    Prop where
  size : Int.bmod file.length (2 ^ 32) = (n : ℤ)
  header_le : headerSize ≤ n
  opens : e.opens = true
  fstat : e.fstat = true
  gives : e.heap.gives n = true
  readAll : e.readAll = true
  magic : (Header.read (file.take n)).magic = arcMagic
  version : (Header.read (file.take n)).version = arcVersion
  tarSize : e.tarSize.map UInt64.toNat = some (Header.read (file.take n)).tarSize
  count : index.count = (Header.read (file.take n)).entryCount
  cap : index.cap = index.count
  mem : index.mem = field (file.take n) headerSize (k.entrySize * index.count)
  count_le : headerSize + k.entrySize * index.count ≤ n
  gives_mem : e.heap.gives (k.entrySize * index.count) = true
  rawSize_le : ∀ i < index.count, rawSizeAt k index.mem i ≤ maxFileSize

/-- **What `tarReadCache` accepts.** -/
theorem readEntries_eq_some_iff {e : ReadEnv} {k : Kind} {file : List UInt8} {index : IndexMem} :
    readEntries e k file = some index ↔ ∃ n, Accepts e k file n index := by
  have htotal : ∀ {n count : ℕ}, e.heap.gives n = true → headerSize + k.entrySize * count ≤ n →
      count * k.entrySize % 2 ^ 32 = k.entrySize * count := by
    intro n count hn hle
    have := e.heap.lt n hn
    rw [Nat.mul_comm, Nat.mod_eq_of_lt]
    omega
  constructor
  · intro h
    rw [readEntries] at h
    split at h
    next => cases h
    next hopens =>
    dsimp only at h
    split at h
    next => cases h
    next hsize =>
    split at h
    next => cases h
    next hgives =>
    split at h
    next => cases h
    next hmagic =>
    split at h
    next => cases h
    next htar =>
    split at h
    next => cases h
    next hcount =>
    split at h
    next => cases h
    next halloc =>
    split at h
    next => cases h
    next hsizes =>
    obtain ⟨n, hn⟩ : ∃ n : ℕ, Int.bmod file.length (2 ^ 32) = (n : ℤ) :=
      ⟨(Int.bmod file.length (2 ^ 32)).toNat, by omega⟩
    rw [hn, Int.toNat_natCast] at hgives hmagic htar hcount halloc hsizes h
    rw [hn] at hsize
    have hle : headerSize ≤ n := by omega
    rw [count_le_iff hle] at hcount
    rw [not_or, Bool.not_eq_false, Bool.not_eq_false] at hopens hgives
    rw [not_or, not_not, not_not] at hmagic
    rw [htotal hgives.1 hcount] at halloc hsizes h
    obtain rfl := Option.some.inj h
    refine ⟨n, hn, hle, hopens.1, hopens.2, hgives.1, hgives.2, hmagic.1, hmagic.2,
      not_not.mp htar, rfl, rfl, rfl, hcount, Bool.not_eq_false _ ▸ halloc, ?_⟩
    intro i hi
    by_contra hlarge
    refine hsizes (List.any_eq_true.mpr ⟨i, List.mem_range.mpr hi, decide_eq_true ?_⟩)
    exact Nat.not_le.mp hlarge
  · rintro ⟨n, h⟩
    have hle := h.header_le
    have hcount := (count_le_iff hle).mpr h.count_le
    have hmem := h.mem
    rw [readEntries, if_neg (by simp [h.opens, h.fstat]), h.size]
    dsimp only
    rw [Int.toNat_natCast, if_neg (by omega), if_neg (by simp [h.gives, h.readAll]),
      if_neg (by simp [h.magic, h.version]), if_neg (not_not.mpr h.tarSize), ← h.count,
      if_neg hcount, htotal h.gives h.count_le, if_neg (by simp [h.gives_mem]), ← hmem, if_neg]
    · obtain ⟨mem, count, cap⟩ := index
      obtain rfl : cap = count := h.cap
      rfl
    · intro hany
      obtain ⟨i, hi, hlarge⟩ := List.any_eq_true.mp hany
      have := h.rawSize_le i (List.mem_range.mp hi)
      have := of_decide_eq_true hlarge
      omega

namespace Accepts

variable {e : ReadEnv} {k : Kind} {file : List UInt8} {n : ℕ} {index : IndexMem}

theorem le_length (h : Accepts e k file n index) : n ≤ file.length := by
  have := h.size
  rw [Int.bmod_def] at this
  split at this <;> omega

theorem length_mem (h : Accepts e k file n index) :
    index.mem.length = k.entrySize * index.count := by
  have := h.le_length
  have := h.count_le
  rw [h.mem, length_field]
  rw [List.length_take]
  omega

/-- The index that is accepted lies in its block. -/
theorem holds (h : Accepts e k file n index) : index.Holds k where
  fits := h.length_mem.ge
  lt := by
    rw [h.length_mem]
    exact e.heap.lt _ h.gives_mem
  rawSize_le := h.rawSize_le

end Accepts

/-! ### What is written -/

/-- The file that is written when nothing fails. -/
def sidecarFile (k : Kind) (size : UInt64) (padding : UInt32) (s : IndexMem) : List UInt8 :=
  (Header.mk arcMagic arcVersion size.toNat s.count).bytes padding ++ s.used k

section Written

variable {k : Kind} {s : IndexMem} (size : UInt64) (padding : UInt32)

theorem length_sidecarFile (h : s.Holds k) :
    (sidecarFile k size padding s).length = headerSize + k.entrySize * s.count := by
  rw [sidecarFile, List.length_append, length_bytes rfl, h.length_used]

theorem header_sidecarFile (h : s.Holds k) {n : ℕ} (hn : headerSize ≤ n) :
    Header.read ((sidecarFile k size padding s).take n) =
      ⟨arcMagic, arcVersion, size.toNat, s.count⟩ := by
  have hhdr : ((Header.mk arcMagic arcVersion size.toNat s.count).bytes padding).length ≤ n := by
    rw [length_bytes rfl]
    exact hn
  obtain ⟨m, rfl⟩ := Nat.exists_eq_add_of_le hhdr
  rw [sidecarFile, List.take_length_add_append]
  exact read_bytes rfl (show arcVersion < 2 ^ 32 by decide) size.toNat_lt h.count_lt padding _

/-- What was written in full is accepted when the two blocks are there. -/
theorem accepts_sidecarFile (h : s.Holds k) {e : ReadEnv} {n : ℕ} {index : IndexMem} :
    Accepts e k (sidecarFile k size padding s) n index ↔
      (e.opens = true ∧ e.fstat = true ∧ e.readAll = true ∧ e.tarSize = some size ∧
        e.heap.gives (headerSize + k.entrySize * s.count) = true ∧
        e.heap.gives (k.entrySize * s.count) = true) ∧
      n = headerSize + k.entrySize * s.count ∧ index = s.trimmed k := by
  have hlen := length_sidecarFile size padding h
  have htotal := h.total_lt
  have htar : e.tarSize.map UInt64.toNat = some size.toNat ↔ e.tarSize = some size := by
    rw [Option.map_eq_some_iff]
    constructor
    · rintro ⟨size', hsize', heq⟩
      rw [hsize', UInt64.toNat_inj.mp heq]
    · intro hsize
      exact ⟨size, hsize, rfl⟩
  constructor
  · intro ha
    have hn := ha.le_length
    have hcount : index.count = s.count := by
      rw [ha.count, header_sidecarFile size padding h ha.header_le]
    have hle := ha.count_le
    rw [hcount] at hle
    obtain rfl : n = headerSize + k.entrySize * s.count := by omega
    have hsize := ha.tarSize
    rw [header_sidecarFile size padding h ha.header_le, htar] at hsize
    have hmem := ha.gives_mem
    rw [hcount] at hmem
    refine ⟨⟨ha.opens, ha.fstat, ha.readAll, hsize, ha.gives, hmem⟩, rfl, ?_⟩
    have hall := ha.mem
    rw [hcount, List.take_of_length_le hlen.le, sidecarFile, field,
      List.drop_left' (length_bytes rfl padding), List.take_of_length_le h.length_used.le] at hall
    obtain ⟨mem, count, cap⟩ := index
    obtain rfl : cap = count := ha.cap
    obtain rfl : cap = s.count := hcount
    rw [IndexMem.trimmed, ← hall]
  · rintro ⟨⟨hopens, hfstat, hread, hsize, hgives, hmem⟩, rfl, rfl⟩
    have hhdr := header_sidecarFile size padding h
      (n := headerSize + k.entrySize * s.count) (Nat.le_add_right _ _)
    refine ⟨?_, Nat.le_add_right _ _, hopens, hfstat, hgives, hread, ?_, ?_, ?_, ?_, rfl, ?_,
      Nat.le_refl _, hmem, ?_⟩
    · have := e.heap.lt _ hgives
      rw [hlen, Int.bmod_eq_of_le] <;> omega
    · rw [hhdr]
    · rw [hhdr]
    · rw [hhdr, htar]
      exact hsize
    · rw [hhdr]
      rfl
    · rw [List.take_of_length_le hlen.le, sidecarFile, field,
        List.drop_left' (length_bytes rfl padding)]
      exact (List.take_of_length_le h.length_used.le).symm
    · intro i hi
      rw [IndexMem.trimmed, h.rawSizeAt_used hi]
      exact h.rawSize_le i hi

/-- What was not written in full is not accepted. -/
theorem not_accepts_take (h : s.Holds k) {e : ReadEnv} {n m : ℕ} {index : IndexMem}
    (hm : m < headerSize + k.entrySize * s.count) :
    ¬Accepts e k ((sidecarFile k size padding s).take m) n index := by
  intro ha
  have hn := ha.le_length
  rw [List.length_take] at hn
  have hcount : index.count = s.count := by
    rw [ha.count, List.take_take, Nat.min_eq_left (by omega),
      header_sidecarFile size padding h ha.header_le]
  have hle := ha.count_le
  rw [hcount] at hle
  omega

end Written

/-- What `tarWriteCache` leaves: the archive or the file cannot be opened, and nothing happens; a
call of `write` stops early, and a part of the file is left; or all of it is written. -/
theorem tarWriteCache_cases (w : WriteEnv) {k : Kind} {s : IndexMem} (h : s.Holds k)
    (old : Option (List UInt8)) :
    tarWriteCache w k s old = (-1, old) ∨
      ∃ size, w.tarSize = some size ∧
        ((∃ m < headerSize + k.entrySize * s.count, tarWriteCache w k s old =
            (-1, some ((sidecarFile k size w.padding s).take m))) ∨
          tarWriteCache w k s old = (0, some (sidecarFile k size w.padding s))) := by
  have htotal : k.entrySize * s.count % 2 ^ 32 = k.entrySize * s.count :=
    Nat.mod_eq_of_lt (by have := h.total_lt; omega)
  rw [tarWriteCache.eq_def]
  cases w.tarSize with
  | none => exact .inl rfl
  | some size =>
    have hlen : ((Header.mk arcMagic arcVersion size.toNat s.count).bytes w.padding).length =
        headerSize := length_bytes rfl w.padding
    dsimp only
    split
    next => exact .inl rfl
    next =>
      refine .inr ⟨size, rfl, ?_⟩
      rw [htotal, hlen]
      split
      next hroom =>
        refine .inl ⟨w.room₁, by omega, ?_⟩
        rw [sidecarFile, List.take_append_of_le_length (by omega)]
      next =>
        split
        next hzero =>
          refine .inr ?_
          rw [sidecarFile, IndexMem.used, hzero, List.take_zero, List.append_nil]
        next =>
          split
          next hroom =>
            refine .inl ⟨headerSize + w.room₂, by omega, ?_⟩
            rw [sidecarFile, ← hlen, List.take_length_add_append, IndexMem.used]
          next => exact .inr rfl

/-! ### The sidecar that the bytes stand for -/

/-- The entry with number `i`. -/
def entryAt (k : Kind) (entries : List UInt8) (i : ℕ) : Entry :=
  ⟨ofLe (field entries (k.entrySize * i) 8), ofLe (field entries (k.entrySize * i + 8) 4),
    ofLe (field entries (k.entrySize * i + 12) 4),
    Bytes.cstr (field entries (k.entrySize * i + 16) (k.entrySize - 16))⟩

/-- The entries of an index in memory. -/
def IndexMem.entries (k : Kind) (s : IndexMem) : List Entry :=
  (List.range s.count).map (entryAt k s.mem)

/-- The sidecar that a file stands for. -/
def sidecarOf (k : Kind) (file : List UInt8) : Sidecar where
  magic := (Header.read file).magic
  version := (Header.read file).version
  tarSize := (Header.read file).tarSize
  entryCount := (Header.read file).entryCount
  entries := (List.range ((file.length - headerSize) / k.entrySize)).map
    (entryAt k (file.drop headerSize))

/-- An entry is read out of the bytes that it has. -/
theorem entryAt_take (k : Kind) (entries : List UInt8) {i n : ℕ} (hi : i < n) :
    entryAt k (entries.take (k.entrySize * n)) i = entryAt k entries i := by
  have hend := IndexMem.Holds.entry_end_le (k := k) hi
  have hnext : k.entrySize * i + k.entrySize ≤ k.entrySize * n := by
    rw [← Nat.mul_succ]
    exact Nat.mul_le_mul_left _ hi
  have := sixteen_le_entrySize k
  rw [entryAt, entryAt, field_take _ (by omega), field_take _ (by omega), field_take _ (by omega),
    field_take _ (by omega)]

theorem rawSizeAt_eq {k : Kind} {entries : List UInt8} {i : ℕ} (h : k.entrySize * i < 2 ^ 32) :
    rawSizeAt k entries i = (entryAt k entries i).rawSize := by
  rw [rawSizeAt, Nat.mod_eq_of_lt h, entryAt]

/-- The first entries of a file. -/
theorem take_entries (k : Kind) (entries : List UInt8) {n m : ℕ} (h : n ≤ m) :
    ((List.range m).map (entryAt k entries)).take n =
      (List.range n).map (entryAt k (entries.take (k.entrySize * n))) := by
  rw [← List.map_take, List.take_range, Nat.min_eq_left h]
  refine List.map_congr_left fun i hi => ?_
  exact (entryAt_take k entries (List.mem_range.mp hi)).symm

/-- The test of the sizes. -/
theorem any_rawSizeAt {k : Kind} {entries : List UInt8} {n : ℕ} (h : k.entrySize * n < 2 ^ 32) :
    ((List.range n).any fun i => decide (maxFileSize < rawSizeAt k entries i)) =
      ((List.range n).map (entryAt k entries)).any
        fun entry => decide (maxFileSize < entry.rawSize) := by
  rw [List.any_map, Bool.eq_iff_iff, List.any_eq_true, List.any_eq_true]
  refine exists_congr fun i => and_congr_right fun hi => ?_
  have := Nat.mul_le_mul_left k.entrySize (List.mem_range.mp hi).le
  rw [rawSizeAt_eq (by omega)]
  exact Iff.rfl

/-- The bytes are read as the sidecar that they stand for. -/
theorem readEntries_map_entries {e : ReadEnv} {k : Kind} {file : List UInt8} {m : ℕ}
    (hopens : e.opens = true) (hfstat : e.fstat = true) (hread : e.readAll = true)
    (hlen : file.length = headerSize + k.entrySize * m) (hlt : file.length < 2 ^ 31) :
    (readEntries e k file).map (IndexMem.entries k) =
      e.tarSize.bind fun size =>
        Tar.tarReadCache k e.heap.gives size.toNat (sidecarOf k file) := by
  have hnum : (file.length - headerSize) / k.entrySize = m := by
    rw [hlen, Nat.add_sub_cancel_left, Nat.mul_div_cancel_left _ (entrySize_pos k)]
  have hbmod : Int.bmod file.length (2 ^ 32) = (file.length : ℤ) := by
    rw [Int.bmod_eq_of_le] <;> omega
  have hside : sidecarOf k file = ⟨(Header.read file).magic, (Header.read file).version,
      (Header.read file).tarSize, (Header.read file).entryCount,
      (List.range m).map (entryAt k (file.drop headerSize))⟩ := by
    rw [sidecarOf, hnum]
  have hall : 24 + k.entrySize * m = file.length := hlen.symm
  rw [readEntries, if_neg (by simp [hopens, hfstat]), hbmod, hside]
  dsimp only
  rw [Int.toNat_natCast, if_neg (by omega), List.take_length, hnum]
  generalize Header.read file = hdr
  cases e.tarSize with
  | none =>
    rw [Option.map_none]
    split
    · rfl
    · split <;> rfl
  | some size =>
    rw [Option.bind_some, Option.map_some, Tar.tarReadCache]
    dsimp only
    rw [List.length_map, List.length_range, hall]
    by_cases hgives : e.heap.gives file.length = false
    · rw [if_pos (.inl hgives), if_pos hgives, Option.map_none]
    rw [if_neg (by simp [hgives, hread]), if_neg hgives]
    by_cases hmagic : hdr.magic ≠ arcMagic ∨ hdr.version ≠ arcVersion
    · rw [if_pos hmagic, if_pos hmagic, Option.map_none]
    rw [if_neg hmagic, if_neg hmagic]
    by_cases htar : size.toNat = hdr.tarSize
    case neg => rw [if_pos fun h => htar (Option.some.inj h), if_pos htar, Option.map_none]
    rw [if_neg (not_not.mpr (congrArg some htar)), if_neg (not_not.mpr htar)]
    by_cases hcount : m < hdr.entryCount
    · rw [if_pos hcount, if_pos hcount, Option.map_none]
    have hle : k.entrySize * hdr.entryCount ≤ k.entrySize * m :=
      Nat.mul_le_mul_left _ (Nat.not_lt.mp hcount)
    have htotal : hdr.entryCount * k.entrySize % 2 ^ 32 = k.entrySize * hdr.entryCount := by
      rw [Nat.mul_comm, Nat.mod_eq_of_lt (by omega)]
    rw [if_neg hcount, if_neg hcount, htotal, take_entries k _ (Nat.not_lt.mp hcount), ← field,
      any_rawSizeAt (by omega)]
    by_cases hmem : e.heap.gives (k.entrySize * hdr.entryCount) = false
    · rw [if_pos hmem, if_pos hmem, Option.map_none]
    rw [if_neg hmem, if_neg hmem]
    split
    · rfl
    · rfl

/-- What is written stands for the sidecar of the entries. -/
theorem sidecarOf_sidecarFile {k : Kind} {s : IndexMem} (size : UInt64) (padding : UInt32)
    (h : s.Holds k) :
    sidecarOf k (sidecarFile k size padding s) =
      Tar.tarWriteCache size.toNat (IndexMem.entries k s) := by
  have hlen := length_sidecarFile size padding h
  have hhdr := header_sidecarFile size padding h (n := (sidecarFile k size padding s).length)
    (by rw [hlen]; exact Nat.le_add_right _ _)
  have hdrop : (sidecarFile k size padding s).drop headerSize = s.used k := by
    rw [sidecarFile, List.drop_left' (length_bytes rfl padding)]
  rw [List.take_length] at hhdr
  rw [sidecarOf, hhdr, hdrop, hlen, Nat.add_sub_cancel_left,
    Nat.mul_div_cancel_left _ (entrySize_pos k), Tar.tarWriteCache, IndexMem.entries,
    List.length_map, List.length_range, IndexMem.used, ← take_entries k s.mem (Nat.le_refl _),
    List.take_of_length_le (by simp)]

/-! ### The round trip -/

/-- **The round trip of the sidecar.** What `tarWriteCache` wrote with success is read back, with
the same entries, when the archive has the same size and there is memory for it; otherwise, and so
for every other size, the reader fails and leaves the index in memory. When the writer failed, the
file is the one that was there, or the reader fails. Any bytes at all are refused, and the index in
memory stays, or an index is installed whose entries fill their block and have sizes that are not
too large. -/
theorem cache_round_trip (k : Kind) :
    (∀ (w : WriteEnv) (s : IndexMem) (old : Option (List UInt8)), s.Holds k →
      (∀ file, tarWriteCache w k s old = (0, some file) → ∀ (e : ReadEnv) (s' : IndexMem),
        tarReadCache e k file s' =
          if e.opens = true ∧ e.fstat = true ∧ e.readAll = true ∧ e.tarSize = w.tarSize ∧
              e.heap.gives (headerSize + k.entrySize * s.count) = true ∧
              e.heap.gives (k.entrySize * s.count) = true then
            (0, ⟨s.mem.take (k.entrySize * s.count), s.count, s.count⟩)
          else
            (-1, s')) ∧
      ((tarWriteCache w k s old).1 ≠ 0 → (tarWriteCache w k s old).2 = old ∨
        ∃ file, (tarWriteCache w k s old).2 = some file ∧
          ∀ (e : ReadEnv) (s' : IndexMem), tarReadCache e k file s' = (-1, s'))) ∧
    ∀ (e : ReadEnv) (file : List UInt8) (s' : IndexMem),
      tarReadCache e k file s' = (-1, s') ∨
        ∃ index, tarReadCache e k file s' = (0, index) ∧
          index.mem.length = k.entrySize * index.count ∧ e.heap.gives index.mem.length = true ∧
          index.Holds k := by
  refine ⟨fun w s old hs => ⟨?_, ?_⟩, ?_⟩
  · intro file hfile e s'
    obtain hnone | ⟨size, hsize, ⟨m, -, hpart⟩ | hall⟩ := tarWriteCache_cases w hs old
    · rw [hnone] at hfile
      cases hfile
    · rw [hpart] at hfile
      cases hfile
    · rw [hall] at hfile
      obtain rfl := Option.some.inj (Prod.mk.inj hfile).2
      rw [hsize, tarReadCache]
      split
      next index hindex =>
        obtain ⟨n, ha⟩ := readEntries_eq_some_iff.mp hindex
        obtain ⟨hconds, -, rfl⟩ := (accepts_sidecarFile size w.padding hs).mp ha
        rw [if_pos hconds]
        rfl
      next hnone =>
        rw [if_neg]
        intro hconds
        have ha := (accepts_sidecarFile size w.padding hs).mpr ⟨hconds, rfl, rfl⟩
        rw [readEntries_eq_some_iff.mpr ⟨_, ha⟩] at hnone
        cases hnone
  · intro hfailed
    obtain hnone | ⟨size, -, ⟨m, hm, hpart⟩ | hall⟩ := tarWriteCache_cases w hs old
    · rw [hnone]
      exact .inl rfl
    · refine .inr ⟨_, by rw [hpart], fun e s' => ?_⟩
      rw [tarReadCache]
      split
      next index hindex =>
        obtain ⟨n, ha⟩ := readEntries_eq_some_iff.mp hindex
        exact absurd ha (not_accepts_take size w.padding hs hm)
      next => rfl
    · rw [hall] at hfailed
      exact absurd rfl hfailed
  · intro e file s'
    rw [tarReadCache]
    split
    next index hindex =>
      obtain ⟨n, ha⟩ := readEntries_eq_some_iff.mp hindex
      refine .inr ⟨index, rfl, ha.length_mem, ?_, ha.holds⟩
      rw [ha.length_mem]
      exact ha.gives_mem
    next => exact .inl rfl

/-- A heap that gives small blocks. -/
def smallHeap : Heap := ⟨fun n => n < 4096, fun n h => by have := of_decide_eq_true h; omega⟩

/-- An index of one file of 3 bytes, in a block with room for two. -/
def oneEntry : IndexMem :=
  ⟨toLe 8 512 ++ toLe 4 3 ++ toLe 4 512 ++ List.replicate 24 65 ++ List.replicate 40 0, 1, 2⟩

theorem cache_round_trip_oneEntry :
    tarWriteCache ⟨some 2048, true, 7, 4096, 4096⟩ .cfg oneEntry none =
        (0, some (sidecarFile .cfg 2048 7 oneEntry)) ∧
      tarReadCache ⟨true, true, true, smallHeap, some 2048⟩ .cfg (sidecarFile .cfg 2048 7 oneEntry)
        ⟨[], 0, 0⟩ = (0, ⟨oneEntry.mem.take 40, 1, 1⟩) := by
  have hholds : oneEntry.Holds .cfg := ⟨by decide, by decide, by decide⟩
  have hwritten : tarWriteCache ⟨some 2048, true, 7, 4096, 4096⟩ .cfg oneEntry none =
      (0, some (sidecarFile .cfg 2048 7 oneEntry)) := by decide +kernel
  have hread := ((cache_round_trip .cfg).1 ⟨some 2048, true, 7, 4096, 4096⟩ oneEntry none
    hholds).1 _ hwritten ⟨true, true, true, smallHeap, some 2048⟩ ⟨[], 0, 0⟩
  exact ⟨hwritten, hread.trans (if_pos ⟨rfl, rfl, rfl, rfl, rfl, rfl⟩)⟩

end TarCache

end OpenPS2Loader
