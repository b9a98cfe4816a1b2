import Mathlib.Algebra.Group.Nat.Defs
import Mathlib.Algebra.BigOperators.Group.List.Defs
import Mathlib.Algebra.GroupWithZero.Nat
import OpenPS2Loader.Lib.Bytes

/-!
# Watch lists and snapshots

A watch list says which addresses of the game's memory are reported each frame. The loader checks
the list that arrives (`SetWatchList` of `rawatch.c`), `ee_core` keeps a copy of it
(`RA_SetupWatchList` of `ra.c`), and `ra_snap_send` packs the values of the watched addresses into a
snapshot and sends it into a buffer of the IOP.

The memory of the game is a function from addresses. All writes go through `Bytes.store`, so a
call has a result only when it stays in its buffer.

## Main definitions

* `Telemetry.setWatchList` — `SetWatchList`
* `Telemetry.setupWatchList` — `RA_SetupWatchList`
* `Telemetry.Ee.snapSend` — `ra_snap_send`
* `Telemetry.Carries` — a buffer that holds a snapshot of some values

## Main results

* `Telemetry.Ee.exists_snapSend` — a call stays in its buffer and sends the watched values
-/

namespace OpenPS2Loader

namespace Telemetry

open Bytes

/-! ### Layout: `ra_watch.h` and `ra_snap.h` -/

/-- `RA_WATCH_MAGIC` -/
def watchMagic : ℕ := 0x4C574152

/-- `RA_WATCH_VERSION` -/
def watchVersion : ℕ := 1

/-- `RA_WATCH_MAX` -/
def watchMax : ℕ := 1024

/-- `RA_SNAP_HEAD_BYTES` -/
def snapHeadBytes : ℕ := 167

/-- `RA_SNAP_CHUNK_BYTES` -/
def snapChunkBytes : ℕ := 1472 - snapHeadBytes

/-- `RA_SNAP_PARTS` -/
def snapParts : ℕ := 3

/-- `RA_SNAP_MAX_BYTES` -/
def snapMaxBytes : ℕ := snapChunkBytes * snapParts

/-- `RA_WATCH_ADDR` -/
def watchAddr (e : ℕ) : ℕ := e &&& 0x0FFFFFFF

/-- `RA_WATCH_SIZE` -/
def watchSize (e : ℕ) : ℕ := e >>> 28

/-- `RA_SNAP_MAGIC` -/
def snapMagic : ℕ := 0x52415331

/-- `RA_SNAP_HDR` -/
def snapHdr : ℕ := 48

/-- `RA_SNAP_TRAILER_OFF` -/
def trailerOff (bytes : ℕ) : ℕ := snapHdr + (bytes + 3) / 4 * 4

/-- `RA_SNAP_DMA_SIZE` -/
def dmaSize (bytes : ℕ) : ℕ := (trailerOff bytes + 4 + 15) / 16 * 16

/-- `RA_SNAP_TOTAL` -/
def snapTotal : ℕ := (dmaSize snapMaxBytes + 63) / 64 * 64

theorem snapMaxBytes_eq : snapMaxBytes = 3915 := rfl

theorem snapTotal_eq : snapTotal = 3968 := rfl

/-- The word at position `p`. -/
def wordAt (l : List UInt8) (p : ℕ) : ℕ := ofLe (field l p 4)

/-! ### The loader's list: `rawatch.c` -/

structure WatchList where
  /-- `gWatchList` -/
  list : List ℕ
  /-- `gWatchCount` -/
  count : ℕ
  /-- `gWatchBytes` -/
  bytes : ℕ
  /-- `gWatchStartup` -/
  startup : List UInt8
  deriving DecidableEq, Repr

/-- `ClearWatchList` -/
def WatchList.clear (w : WatchList) : WatchList := ⟨w.list, 0, 0, []⟩

/-- The words behind the header of a list with `count` entries. -/
def entriesOf (data : List UInt8) (count : ℕ) : List ℕ :=
  (List.range count).map fun i => wordAt data (16 + 4 * i)

/-- `SetWatchList`, with the number it returns. `none` is a null pointer. -/
def setWatchList (w : WatchList) (data startup : Option (List UInt8)) : WatchList × ℤ :=
  match data, startup with
  | some data, some startup =>
    if data.length < 16 then (w.clear, -1)
    else if wordAt data 0 ≠ watchMagic then (w.clear, -3)
    else if wordAt data 4 ≠ watchVersion then (w.clear, -4)
    else if wordAt data 8 = 0 ∨ watchMax < wordAt data 8 then (w.clear, -5)
    else if wordAt data 12 = 0 ∨ snapMaxBytes < wordAt data 12 then (w.clear, -6)
    else if data.length < 16 + 4 * wordAt data 8 then (w.clear, -7)
    else
      (⟨overwrite w.list 0 (entriesOf data (wordAt data 8)), wordAt data 8, wordAt data 12,
        startup.take 15⟩, wordAt data 8)
  | _, _ => (w.clear, -1)

/-- An accepted list is the one in the data, and it is within the limits. -/
theorem setWatchList_accepted {w : WatchList} {data startup : Option (List UInt8)}
    (h : 0 ≤ (setWatchList w data startup).2) :
    ∃ d, data = some d ∧
      (setWatchList w data startup).1.count = wordAt d 8 ∧
      (setWatchList w data startup).1.bytes = wordAt d 12 ∧
      (setWatchList w data startup).1.list = overwrite w.list 0 (entriesOf d (wordAt d 8)) ∧
      0 < wordAt d 8 ∧ wordAt d 8 ≤ watchMax ∧ 0 < wordAt d 12 ∧ wordAt d 12 ≤ snapMaxBytes := by
  cases data with
  | none => exact absurd h (by simp [setWatchList])
  | some d =>
    cases startup with
    | none => exact absurd h (by simp [setWatchList])
    | some n =>
      refine ⟨d, rfl, ?_⟩
      rw [setWatchList] at h ⊢
      split_ifs at h ⊢
      iterate 6
        · exact absurd h (by simp)
      exact ⟨rfl, rfl, rfl, by omega, by omega, by omega, by omega⟩

/-! ### The copy in `ee_core`: `ra.c` -/

/-- `RA_SetupWatchList`: the words of `ra_watch` that count, and `ra_watch_bytes`. -/
def setupWatchList (w : WatchList) : List ℕ × ℕ :=
  if w.count = 0 then ([], 0)
  else if watchMax < w.count then ([], 0)
  else if w.bytes = 0 ∨ snapMaxBytes < w.bytes then ([], 0)
  else (w.list.take w.count, w.bytes)

theorem length_entriesOf (data : List UInt8) (count : ℕ) :
    (entriesOf data count).length = count := by
  rw [entriesOf, List.length_map, List.length_range]

/-- `ee_core` gets the entries of the data. -/
theorem setupWatchList_eq {w : WatchList} {data startup : Option (List UInt8)}
    (h : 0 ≤ (setWatchList w data startup).2) :
    ∃ d, data = some d ∧ 0 < wordAt d 8 ∧ 0 < wordAt d 12 ∧ wordAt d 12 ≤ snapMaxBytes ∧
      setupWatchList (setWatchList w data startup).1 = (entriesOf d (wordAt d 8), wordAt d 12) := by
  obtain ⟨d, rfl, hcount, hbytes, hlist, hpos, hle, hbpos, hble⟩ := setWatchList_accepted h
  refine ⟨d, rfl, hpos, hbpos, hble, ?_⟩
  rw [setupWatchList, hcount, hbytes, hlist, if_neg (by omega), if_neg (by omega),
    if_neg (by omega), overwrite, List.take_zero, List.nil_append,
    List.take_left' (length_entriesOf _ _)]

structure Ee where
  /-- `ra_watch`, `ra_watch_count` words of it -/
  watch : List ℕ
  /-- `ra_watch_bytes` -/
  bytes : ℕ
  /-- `config->GameID` -/
  gameId : ℕ → UInt8
  /-- whether `ra_snap_iop` is an address -/
  iop : Bool
  /-- `ra_snap_buf` -/
  buf : List UInt8
  /-- `ra_snap_dma_id` -/
  dmaId : ℕ
  /-- `ra_snap_seq` -/
  seq : ℕ
  /-- `ra_snap_skip` -/
  skip : ℕ
  /-- `ra_snap_fail` -/
  fail : ℕ
  /-- `ra_frames` -/
  frames : ℕ

/-- What a call of `ra_snap_send` meets: the memory of the game, whether the last transfer is in
flight, and the id `isceSifSetDma` returns. -/
structure Frame where
  mem : ℕ → UInt8
  inFlight : Bool
  dmaId : ℕ

/-- The bytes of an entry, as they are packed. -/
def entryBytes (mem : ℕ → UInt8) (e : ℕ) : List UInt8 :=
  if watchSize e = 4 then toLe 4 (ofLe (slice mem (watchAddr e) 4))
  else if watchSize e = 2 then toLe 2 (ofLe (slice mem (watchAddr e) 2))
  else [mem (watchAddr e)]

/-- The loop over the watch list, `off` bytes of values being packed. -/
def packValues (mem : ℕ → UInt8) (bytes : ℕ) : List ℕ → ℕ → List UInt8 → Option (List UInt8)
  | [], _, buf => some buf
  | e :: es, off, buf =>
    if off < bytes then
      (store buf (snapHdr + off) (entryBytes mem e)).bind
        (packValues mem bytes es (off + (entryBytes mem e).length))
    else some buf

/-- The fields that are written before the values. -/
def Ee.header (ee : Ee) (seq : ℕ) : List (ℕ × List UInt8) :=
  [(0, toLe 4 snapMagic), (4, toLe 4 seq), (8, toLe 4 ee.frames), (12, toLe 4 ee.skip),
    (16, toLe 4 ee.fail), (20, toLe 4 ee.watch.length), (24, toLe 4 ee.bytes),
    (32, slice ee.gameId 0 16)]

/-- `seq_end` and the trailer. -/
def Ee.trailer (ee : Ee) (seq : ℕ) : List (ℕ × List UInt8) :=
  [(28, toLe 4 seq), (trailerOff ee.bytes, toLe 4 seq)]

/-- `ra_snap_buf` after the snapshot with number `seq` was put into it. -/
def Ee.fill (ee : Ee) (mem : ℕ → UInt8) (seq : ℕ) : Option (List UInt8) :=
  (stores ee.buf (ee.header seq)).bind fun b =>
    (packValues mem ee.bytes ee.watch 0 b).bind fun b => stores b (ee.trailer seq)

/-- `ra_snap_send`, with the bytes the DMA carries. -/
def Ee.snapSend (ee : Ee) (f : Frame) : Option (Ee × Option (List UInt8)) :=
  if ee.iop = false ∨ ee.watch = [] then some (ee, none)
  else if ee.dmaId ≠ 0 ∧ f.inFlight then some ({ ee with skip := (ee.skip + 1) % 2 ^ 32 }, none)
  else
    (ee.fill f.mem ((ee.seq + 1) % 2 ^ 32)).map fun b =>
      if f.dmaId = 0 then
        ({ ee with seq := (ee.seq + 1) % 2 ^ 32, buf := b, dmaId := 0,
                   fail := (ee.fail + 1) % 2 ^ 32 }, none)
      else
        ({ ee with seq := (ee.seq + 1) % 2 ^ 32, buf := b, dmaId := f.dmaId },
          some (b.take (dmaSize ee.bytes)))

/-! ### What is sent -/

/-- The watch list is consistent: entries of one, two or four bytes, as many bytes as it says. -/
structure Consistent (es : List ℕ) (bytes : ℕ) : Prop where
  size : ∀ e ∈ es, watchSize e = 1 ∨ watchSize e = 2 ∨ watchSize e = 4
  sum : (es.map watchSize).sum = bytes

/-- The values of the watched addresses: the bytes of the memory there, the lowest first. -/
def values (mem : ℕ → UInt8) (es : List ℕ) : List UInt8 :=
  es.flatMap fun e => slice mem (watchAddr e) (watchSize e)

theorem length_values (mem : ℕ → UInt8) (es : List ℕ) :
    (values mem es).length = (es.map watchSize).sum := by
  rw [values, List.length_flatMap]
  congr 1
  exact List.map_congr_left fun e _ => length_slice _ _ _

theorem entryBytes_eq (mem : ℕ → UInt8) {e : ℕ}
    (h : watchSize e = 1 ∨ watchSize e = 2 ∨ watchSize e = 4) :
    entryBytes mem e = slice mem (watchAddr e) (watchSize e) := by
  have hle : ∀ n, toLe n (ofLe (slice mem (watchAddr e) n)) = slice mem (watchAddr e) n := by
    intro n
    have h := toLe_ofLe (slice mem (watchAddr e) n)
    rwa [length_slice] at h
  rw [entryBytes]
  obtain h | h | h := h
  · rw [if_neg (by omega), if_neg (by omega), h]
    rfl
  · rw [if_neg (by omega), if_pos h, hle, h]
  · rw [if_pos h, hle, h]

/-- The loop packs the values of the entries that are left. -/
theorem packValues_eq (mem : ℕ → UInt8) {bytes off : ℕ} {es : List ℕ} {buf : List UInt8}
    (hsize : ∀ e ∈ es, watchSize e = 1 ∨ watchSize e = 2 ∨ watchSize e = 4)
    (hsum : off + (es.map watchSize).sum = bytes) (hroom : snapHdr + bytes ≤ buf.length) :
    packValues mem bytes es off buf = store buf (snapHdr + off) (values mem es) := by
  induction es generalizing off buf with
  | nil =>
    rw [packValues, values, List.flatMap_nil, store_of_le, overwrite]
    · simp
    · simp only [List.map_nil, List.sum_nil, Nat.add_zero] at hsum
      rw [List.length_nil, hsum]
      exact hroom
  | cons e es ih =>
    have he := hsize e List.mem_cons_self
    have hlen : (slice mem (watchAddr e) (watchSize e)).length = watchSize e := length_slice _ _ _
    rw [List.map_cons, List.sum_cons] at hsum
    have hfit : snapHdr + off + (slice mem (watchAddr e) (watchSize e)).length ≤ buf.length := by
      rw [hlen]
      omega
    have hall : snapHdr + off + (values mem (e :: es)).length ≤ buf.length := by
      rw [length_values, List.map_cons, List.sum_cons]
      omega
    rw [packValues, if_pos (by omega), entryBytes_eq mem he, store_of_le hfit, Option.bind_some,
      ih (fun e' he' => hsize e' (List.mem_cons_of_mem e he')) (by rw [hlen]; omega)
        (by rw [length_overwrite hfit]; exact hroom), ← Nat.add_assoc, store_of_le,
      overwrite_overwrite _ hfit, store_of_le hall]
    · rfl
    · rw [length_overwrite hfit, length_values, hlen]
      omega

/-- The buffer holds a whole snapshot: `vals` behind the header, and the same number in front of
them and behind. -/
structure Carries (vals : List UInt8) (buf : List UInt8) : Prop where
  magic : wordAt buf 0 = snapMagic
  bytes : wordAt buf 24 = vals.length
  values : field buf snapHdr vals.length = vals
  trailer : wordAt buf (trailerOff vals.length) = wordAt buf 4

/-- A transfer carries all of the snapshot. -/
theorem Carries.congr {vals b b' : List UInt8} (h : Carries vals b)
    (hb : ∀ p n, p + n ≤ dmaSize vals.length → field b' p n = field b p n) : Carries vals b' := by
  have hsize : trailerOff vals.length + 4 ≤ dmaSize vals.length := by
    rw [dmaSize]
    omega
  have htrailer : snapHdr + vals.length ≤ trailerOff vals.length := by
    rw [trailerOff]
    omega
  rw [snapHdr] at htrailer
  have hword : ∀ p, p ≤ trailerOff vals.length → wordAt b' p = wordAt b p := by
    intro p hp
    rw [wordAt, hb p 4 (by omega), wordAt]
  refine ⟨?_, ?_, ?_, ?_⟩
  · rw [hword 0 (by omega), h.magic]
  · rw [hword 24 (by omega), h.bytes]
  · rw [hb _ _ (by rw [snapHdr]; omega), h.values]
  · rw [hword _ (Nat.le_refl _), hword 4 (by omega), h.trailer]

/-- All writes of a call, in order. -/
def Ee.writes (ee : Ee) (seq : ℕ) (vals : List UInt8) : List (ℕ × List UInt8) :=
  ee.header seq ++ (snapHdr, vals) :: ee.trailer seq

theorem Ee.writes_inside {ee : Ee} (hbytes : ee.bytes ≤ snapMaxBytes) (seq : ℕ) {vals : List UInt8}
    (hvals : vals.length = ee.bytes) :
    ∀ w ∈ ee.writes seq vals, w.1 + w.2.length ≤ snapTotal := by
  rw [snapMaxBytes_eq] at hbytes
  rw [snapTotal_eq]
  intro w hw
  simp only [writes, header, trailer, List.cons_append, List.nil_append, List.mem_cons,
    List.not_mem_nil, or_false] at hw
  obtain rfl | rfl | rfl | rfl | rfl | rfl | rfl | rfl | rfl | rfl | rfl := hw
  all_goals simp only [length_toLe, length_slice, hvals, snapHdr, trailerOff]
  all_goals omega

/-- After the writes of a call the buffer holds the snapshot. -/
theorem Ee.exists_stores_writes {ee : Ee} (hbuf : ee.buf.length = snapTotal)
    (hbytes : ee.bytes ≤ snapMaxBytes) {seq : ℕ} (hseq : seq < 2 ^ 32) {vals : List UInt8}
    (hvals : vals.length = ee.bytes) :
    ∃ b, stores ee.buf (ee.writes seq vals) = some b ∧ b.length = snapTotal ∧ Carries vals b := by
  have hin := ee.writes_inside hbytes seq hvals
  rw [← hbuf] at hin
  obtain ⟨b, hb, hlen, -⟩ := exists_stores ee.buf _ hin
  refine ⟨b, hb, hlen.trans hbuf, ?_⟩
  rw [snapMaxBytes_eq] at hbytes
  -- what later writes leave alone is read back
  have hread : ∀ ws w vs, ee.writes seq vals = ws ++ w :: vs →
      (∀ v ∈ vs, Apart w.1 w.2.length v) → field b w.1 w.2.length = w.2 := by
    intro ws w vs hsplit hvs
    rw [hsplit] at hin hb
    exact field_stores hin hb hvs
  have hword : ∀ ws p v vs, ee.writes seq vals = ws ++ (p, toLe 4 v) :: vs → v < 2 ^ 32 →
      (∀ w ∈ vs, p + 4 ≤ w.1) → wordAt b p = v := by
    intro ws p v vs hsplit hv hvs
    have h := hread ws (p, toLe 4 v) vs hsplit fun w hw => Or.inl (by
      rw [length_toLe]
      exact hvs w hw)
    rw [length_toLe] at h
    rw [wordAt, h, ofLe_toLe hv]
  have hhdr : 48 ≤ trailerOff ee.bytes := Nat.le_add_right _ _
  have hmagic : wordAt b 0 = snapMagic := by
    refine hword [] 0 snapMagic _ rfl (by decide) ?_
    simp [trailer, snapHdr]
    omega
  have hnumber : wordAt b 4 = seq := by
    refine hword [_] 4 seq _ rfl hseq ?_
    simp [trailer, snapHdr]
    omega
  have hlength : wordAt b 24 = ee.bytes := by
    refine hword [_, _, _, _, _, _] 24 ee.bytes _ rfl (by omega) ?_
    simp [trailer, snapHdr]
    omega
  refine ⟨hmagic, hlength.trans hvals.symm, ?_, ?_⟩
  · refine hread (ee.header seq) (snapHdr, vals) _ rfl ?_
    simp [trailer, Apart, snapHdr, trailerOff, hvals]
    omega
  · rw [hnumber, hvals]
    exact hword (ee.header seq ++ [(snapHdr, vals), (28, toLe 4 seq)]) _ seq [] (by
      simp [writes, trailer]) hseq (by simp)

/-- The buffer of a state is as large as it was allocated, and the watch list is consistent. -/
structure Ee.Ready (ee : Ee) : Prop where
  buf : ee.buf.length = snapTotal
  bytes_pos : 0 < ee.bytes
  bytes_le : ee.bytes ≤ snapMaxBytes
  consistent : Consistent ee.watch ee.bytes

theorem Ee.exists_fill {ee : Ee} (h : ee.Ready) (mem : ℕ → UInt8) {seq : ℕ} (hseq : seq < 2 ^ 32) :
    ∃ b, ee.fill mem seq = some b ∧ b.length = snapTotal ∧ Carries (values mem ee.watch) b := by
  have hvals : (values mem ee.watch).length = ee.bytes := by
    rw [length_values, h.consistent.sum]
  obtain ⟨b, hb, hlen, hcarries⟩ := ee.exists_stores_writes h.buf h.bytes_le hseq hvals
  refine ⟨b, ?_, hlen, hcarries⟩
  rw [Ee.writes, stores_append] at hb
  obtain ⟨b₁, hb₁, hb⟩ := Option.bind_eq_some_iff.mp hb
  have hroom : snapHdr + ee.bytes ≤ b₁.length := by
    obtain ⟨b', hb', hlen', -⟩ := exists_stores ee.buf (ee.header seq) fun w hw => by
      rw [h.buf]
      exact ee.writes_inside h.bytes_le seq hvals w (List.mem_append_left _ hw)
    have hle := h.bytes_le
    rw [snapMaxBytes_eq] at hle
    rw [Option.some.inj (hb₁.symm.trans hb'), hlen', h.buf, snapTotal_eq, snapHdr]
    omega
  rw [fill, hb₁, Option.bind_some, packValues_eq mem h.consistent.size
    (by rw [Nat.zero_add, h.consistent.sum]) hroom, Nat.add_zero, ← hb, stores_cons]

theorem dmaSize_le {bytes : ℕ} (h : bytes ≤ snapMaxBytes) : dmaSize bytes ≤ snapTotal := by
  rw [snapMaxBytes_eq] at h
  rw [snapTotal_eq, dmaSize, trailerOff, snapHdr]
  omega

/-- **A snapshot holds the watched values.** A call stays in its buffer; what it sends fits the
buffer of the IOP, and once it is there the buffer holds the values of the watched addresses. -/
theorem Ee.exists_snapSend {ee : Ee} (h : ee.Ready) (f : Frame) :
    ∃ ee' t, ee.snapSend f = some (ee', t) ∧ ee'.Ready ∧ ee'.watch = ee.watch ∧
      ∀ b ∈ t, b.length ≤ snapTotal ∧
        ∀ iop : List UInt8, Carries (values f.mem ee.watch) (overwrite iop 0 b) := by
  obtain ⟨b, hb, hlen, hcarries⟩ :=
    ee.exists_fill h f.mem (Nat.mod_lt (ee.seq + 1) (Nat.two_pow_pos 32))
  have hready : ∀ dmaId seq fail, Ee.Ready { ee with buf := b, dmaId, seq, fail } := fun _ _ _ =>
    ⟨hlen, h.bytes_pos, h.bytes_le, h.consistent⟩
  rw [snapSend, hb, Option.map_some]
  split_ifs with hnone hskip hid
  · exact ⟨ee, none, rfl, h, rfl, fun b hb => by cases hb⟩
  · exact ⟨_, none, rfl, ⟨h.buf, h.bytes_pos, h.bytes_le, h.consistent⟩, rfl,
      fun b hb => by cases hb⟩
  · exact ⟨_, none, rfl, hready _ _ _, rfl, fun b hb => by cases hb⟩
  · refine ⟨_, _, rfl, hready _ _ _, rfl, fun c hc => ?_⟩
    obtain rfl := Option.mem_some.mp hc
    have htake : (b.take (dmaSize ee.bytes)).length = dmaSize ee.bytes :=
      List.length_take_of_le (hlen ▸ dmaSize_le h.bytes_le)
    refine ⟨htake.trans_le (dmaSize_le h.bytes_le), fun iop => hcarries.congr fun p n hp => ?_⟩
    rw [length_values, h.consistent.sum] at hp
    rw [field_overwrite_zero (by rw [htake]; exact hp), field_take _ hp]

end Telemetry

end OpenPS2Loader
