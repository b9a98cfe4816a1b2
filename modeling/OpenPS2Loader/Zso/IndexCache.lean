import OpenPS2Loader.Zso.Reader

/-!
# The index cache

The reader of a compressed image takes the positions of blocks from a cache of 257 consecutive
entries, which it fills again when a call is not covered. Here it is shown to be transparent: for
every block of a call the cache holds the entries of the file, whatever was read before.

A call for more than 256 sectors walks over the end of the cache. The header says that no game
should ask for so many, and nothing checks it.

## Main definitions

* `Transparent` — a call that uses the entries of the file
* `Synced` — the cached entries are those of the file

## Main results

* `Synced.transparent` — a call of at most 256 sectors
-/

namespace OpenPS2Loader

namespace Zso

open Bytes

variable {σ : Type} {file : List UInt8} {raw : RawRead σ} {Good : σ → Prop} {z : Codec}

/-! ### The index without a cache -/

/-- Entry `b` of the index of a file. -/
def fileEntry (file : List UInt8) (b : ℕ) : ℕ := Reader.entryAt (file.drop headerSize) b

/-- A call of `ziso_read_sector`. -/
structure Call where
  lsn : ℕ
  count : ℕ
  buf : List UInt8

/-- The sectors a call asks for, adjusted to the end of the image. -/
def Call.clamped (total : ℕ) (c : Call) : ℕ := clampCount total c.lsn c.count

/-- The call finds in the cache, for all its blocks, the entries the file has for them, and does
what it would do with the index of the file in place of the cache. -/
def Transparent (z : Codec) (raw : RawRead σ) (file : List UInt8) (r : Reader σ)
    (c : Call) : Prop :=
  c.lsn < r.totalBlock → ∃ r', r.refresh raw c.lsn (c.clamped r.totalBlock) = some r' ∧
    (∀ b, c.lsn ≤ b → b ≤ c.lsn + c.clamped r.totalBlock →
      r'.lookup b = some (fileEntry file b)) ∧
    expand z raw r'.lookup r' c.buf c.lsn (c.clamped r.totalBlock) =
      expand z raw (fun b => some (fileEntry file b)) r' c.buf c.lsn (c.clamped r.totalBlock)

/-! ### The loop -/

theorem readBlock_congr {align : ℕ} {l₁ l₂ : ℕ → Option ℕ} {c : Cursor}
    (h : l₁ c.curBlock = l₂ c.curBlock) (h' : l₁ (c.curBlock + 1) = l₂ (c.curBlock + 1)) :
    readBlock z align l₁ c = readBlock z align l₂ c := by
  rw [readBlock, readBlock, h, h']

/-- What one round leaves, whatever the entries are. -/
theorem readBlock_spec {align : ℕ} {lookup : ℕ → Option ℕ} {c c' : Cursor}
    (h : readBlock z align lookup c = some c') :
    c'.curBlock = c.curBlock + 1 ∧ (c.tmp.length = 2048 → c'.tmp.length = 2048) := by
  simp only [readBlock, Option.bind_eq_some_iff, Cursor.store] at h
  obtain ⟨e, _, e', _, h⟩ := h
  split_ifs at h with hlen htop
  all_goals cases h
  · refine ⟨rfl, fun htmp => ?_⟩
    dsimp only
    rw [length_overwrite, htmp]
    rw [Cursor.data, List.length_take, htmp]
    omega
  · exact ⟨rfl, id⟩

theorem readBlocks_congr {align : ℕ} {l₁ l₂ : ℕ → Option ℕ} {n : ℕ} {c : Cursor}
    (h : ∀ b, c.curBlock ≤ b → b ≤ c.curBlock + n → l₁ b = l₂ b) :
    readBlocks z align l₁ n c = readBlocks z align l₂ n c := by
  induction n generalizing c with
  | zero => rfl
  | succ n ih =>
    rw [readBlocks, readBlocks, readBlock_congr (h _ (by omega) (by omega))
      (h _ (by omega) (by omega))]
    cases hc : readBlock z align l₂ c with
    | none => rfl
    | some c' =>
      have hcur := (readBlock_spec hc).1
      exact ih fun b hb hb' => h b (by omega) (by omega)

theorem length_tmp_readBlocks {align : ℕ} {lookup : ℕ → Option ℕ} {n : ℕ} {c c' : Cursor}
    (h : readBlocks z align lookup n c = some c') (htmp : c.tmp.length = 2048) :
    c'.tmp.length = 2048 := by
  induction n generalizing c with
  | zero =>
    cases h
    exact htmp
  | succ n ih =>
    obtain ⟨c₁, h₁, h⟩ := Option.bind_eq_some_iff.mp h
    exact ih h ((readBlock_spec h₁).2 htmp)

theorem expand_congr {l₁ l₂ : ℕ → Option ℕ} (r : Reader σ) (buf : List UInt8) {lsn count : ℕ}
    (h : ∀ b, lsn ≤ b → b ≤ lsn + count → l₁ b = l₂ b) :
    expand z raw l₁ r buf lsn count = expand z raw l₂ r buf lsn count := by
  have hloop : ∀ buf tmp c, readBlocks z r.align l₁ count ⟨buf, tmp, lsn, 0, c⟩ =
      readBlocks z r.align l₂ count ⟨buf, tmp, lsn, 0, c⟩ := fun _ _ _ => readBlocks_congr h
  rw [expand, expand, h lsn (by omega) (by omega), h (lsn + count) (by omega) (by omega)]
  simp only [expandData, hloop]

/-! ### The cache and the file -/

/-- The memory of the reader is as allocated, and the cached entries are those of the file. -/
structure Synced (file : List UInt8) (Good : σ → Prop) (r : Reader σ) : Prop where
  good : Good r.raw
  tmp : r.tmp.length = 2048
  cache : r.idxCache.length = 4 * maxEntries
  start : r.idxStart < 2 ^ 32
  entries : r.idxStart < 2 ^ 31 → ∀ i < maxEntries, r.idxStart + i ≤ r.totalBlock →
    Reader.entryAt r.idxCache i = fileEntry file (r.idxStart + i)

theorem synced_zisoInit (file header : List UInt8) {st : σ} {idxCache tmp : List UInt8}
    (hst : Good st) (hcache : idxCache.length = 4 * maxEntries) (htmp : tmp.length = 2048) :
    Synced file Good (zisoInit header st idxCache tmp) := by
  have hstart : (zisoInit header st idxCache tmp).idxStart = 2 ^ 32 - 1 := rfl
  refine ⟨hst, htmp, hcache, by rw [hstart]; decide, fun h => ?_⟩
  rw [hstart] at h
  exact absurd h (by decide)

/-- An entry that was read from the medium. -/
theorem entryAt_slice {disk : ℕ → UInt8} (h : Agrees file disk) {lsn i : ℕ} (hi : i < maxEntries)
    (hlen : headerSize + 4 * (lsn + i + 1) ≤ file.length) :
    Reader.entryAt (slice disk (lsn * 4 + headerSize) (4 * maxEntries)) i =
      fileEntry file (lsn + i) := by
  rw [maxEntries] at hi ⊢
  rw [Reader.entryAt, drop_slice _ _ (by omega), take_slice _ _ (by omega),
    h.slice_eq (by omega), fileEntry, Reader.entryAt, List.drop_drop]
  congr 3
  omega

theorem lookup_of_lt {r : Reader σ} {b i : ℕ} (hi : (b + 2 ^ 32 - r.idxStart) % 2 ^ 32 = i)
    (h : i < maxEntries) : r.lookup b = some (Reader.entryAt r.idxCache i) := by
  simp only [Reader.lookup, hi, if_pos h]

theorem lookup_eq_none {r : Reader σ} {b i : ℕ} (hi : (b + 2 ^ 32 - r.idxStart) % 2 ^ 32 = i)
    (h : maxEntries ≤ i) : r.lookup b = none := by
  simp only [Reader.lookup, hi, if_neg (Nat.not_lt.mpr h)]

/-- The hypotheses on a file: it has its index, within reach of 32-bit offsets. -/
structure Indexed (file : List UInt8) (total : ℕ) : Prop where
  length : headerSize + 4 * (total + 1) ≤ file.length
  reach : headerSize + 4 * total < 2 ^ 32

theorem clampCount_add_le {total lsn count : ℕ} (hlsn : lsn < total) (htotal : total < 2 ^ 31)
    (h : clampCount total lsn count < 2 ^ 31) : lsn + clampCount total lsn count ≤ total := by
  rw [clampCount] at h ⊢
  split_ifs at h ⊢ with hlt
  · omega
  · omega

/-- After the refresh the cache covers the call. -/
theorem Synced.refresh {r : Reader σ} (hr : Synced file Good r) (hraw : Reads file raw Good)
    (hfile : Indexed file r.totalBlock) {lsn count : ℕ} (hlsn : lsn + count ≤ r.totalBlock)
    (hcount : count < maxEntries) :
    ∃ r', r.refresh raw lsn count = some r' ∧ Synced file Good r' ∧
      r'.totalBlock = r.totalBlock ∧ r'.align = r.align ∧
      ∀ b, lsn ≤ b → b ≤ lsn + count → r'.lookup b = some (fileEntry file b) := by
  obtain ⟨hlength, hreach⟩ := hfile
  simp only [headerSize] at hlength hreach
  rw [maxEntries] at hcount
  rw [Reader.refresh]
  split_ifs with h
  · have hoffset : (lsn * 4 + headerSize) % 2 ^ 32 = lsn * 4 + headerSize := by
      rw [headerSize]
      omega
    obtain ⟨st, tmp, disk, hread, hdisk, hst, htmp⟩ := hraw.read r.raw true r.tmp r.idxCache
      ((lsn * 4 + headerSize) % 2 ^ 32) 0 hr.good hr.tmp (by omega) (Nat.mod_lt _ (by decide))
      (by rw [hr.cache]; decide)
    rw [hoffset, Nat.pow_zero, Nat.mul_one, hr.cache] at hread
    have hentries : ∀ i < maxEntries, lsn + i ≤ r.totalBlock → Reader.entryAt
        (slice disk (lsn * 4 + headerSize) (4 * maxEntries)) i = fileEntry file (lsn + i) :=
      fun i hi hle => entryAt_slice hdisk hi (by rw [headerSize]; omega)
    have hlen : (slice disk (lsn * 4 + headerSize) (4 * maxEntries)).length = 4 * maxEntries :=
      length_slice _ _ _
    generalize slice disk (lsn * 4 + headerSize) (4 * maxEntries) = table at hread hentries hlen
    rw [hoffset, hread]
    refine ⟨{ r with raw := st, tmp := tmp, idxCache := table, idxStart := lsn }, rfl,
      ⟨hst, htmp, hlen, by dsimp only; omega, fun _ => hentries⟩, rfl, rfl, ?_⟩
    intro b hb hb'
    have hi : (b + 2 ^ 32 - lsn) % 2 ^ 32 = b - lsn := by omega
    have hlt : b - lsn < maxEntries := by
      rw [maxEntries]
      omega
    rw [lookup_of_lt hi hlt, hentries _ hlt (by omega), Nat.add_sub_cancel' hb]
  · refine ⟨r, rfl, hr, rfl, rfl, ?_⟩
    intro b hb hb'
    rw [not_or, not_or, maxEntries] at h
    obtain ⟨h₁, h₂, h₃⟩ := h
    have hi : (b + 2 ^ 32 - r.idxStart) % 2 ^ 32 = b - r.idxStart := by omega
    have hlt : b - r.idxStart < maxEntries := by
      rw [maxEntries]
      omega
    rw [lookup_of_lt hi hlt, hr.entries (by omega) _ hlt (by omega), Nat.add_sub_cancel' (by omega)]

theorem sizeBetween_lt (align oStart oEnd : ℕ) : sizeBetween align oStart oEnd < 2 ^ 32 :=
  Nat.mod_lt _ (by decide)

/-- The data of a call does not touch the cache. -/
theorem Synced.expand {r r' : Reader σ} (hr : Synced file Good r) (hraw : Reads file raw Good)
    {lookup : ℕ → Option ℕ} {buf : List UInt8} {lsn count : ℕ} {out : ℕ × List UInt8}
    (h : expand z raw lookup r buf lsn count = some (r', out)) :
    Synced file Good r' ∧ r'.totalBlock = r.totalBlock ∧ r'.align = r.align := by
  simp only [Zso.expand, Option.bind_eq_some_iff, expandData] at h
  obtain ⟨e, _, e', _, h⟩ := h
  split_ifs at h with hsize
  simp only [Option.bind_eq_some_iff, Option.map_eq_some_iff] at h
  obtain ⟨⟨st, tmp, data⟩, hread, cur, hcur, h⟩ := h
  cases h
  have halign : r.align ≤ 11 := by
    by_contra hlt
    rw [hraw.fault _ _ _ _ _ _ (by omega)] at hread
    cases hread
  have hoffset : e % 2 ^ 31 < 2 ^ 32 := by omega
  obtain ⟨st', tmp', disk, hread', _, hst, htmp⟩ := hraw.read r.raw false r.tmp _ _ _ hr.good hr.tmp
    halign hoffset (Nat.lt_of_le_of_lt (List.length_take_le _ _) (sizeBetween_lt _ _ _))
  rw [hread'] at hread
  cases hread
  exact ⟨⟨hst, length_tmp_readBlocks hcur htmp, hr.cache, hr.start, hr.entries⟩, rfl, rfl⟩

/-! ### Calls -/

theorem zisoReadSector_of_lt {r : Reader σ} {buf : List UInt8} {lsn count : ℕ}
    (h : lsn < r.totalBlock) : zisoReadSector z raw r buf lsn count =
      (r.refresh raw lsn (clampCount r.totalBlock lsn count)).bind fun r' =>
        expand z raw r'.lookup r' buf lsn (clampCount r.totalBlock lsn count) := by
  rw [zisoReadSector, if_neg (Nat.not_le.mpr h)]

theorem Synced.transparent {r : Reader σ} (hr : Synced file Good r) (hraw : Reads file raw Good)
    (hfile : Indexed file r.totalBlock) {c : Call}
    (hc : c.lsn < r.totalBlock → c.clamped r.totalBlock < maxEntries) :
    Transparent z raw file r c := by
  intro hlsn
  have hcount := hc hlsn
  have hreach := hfile.reach
  rw [maxEntries] at hcount
  have hle : c.lsn + c.clamped r.totalBlock ≤ r.totalBlock :=
    clampCount_add_le hlsn (by omega) (by rw [← Call.clamped]; omega)
  obtain ⟨r', hr', -, -, -, hlookup⟩ := hr.refresh hraw hfile hle (hc hlsn)
  exact ⟨r', hr', hlookup, expand_congr r' c.buf hlookup⟩

theorem Synced.zisoReadSector {r r' : Reader σ} (hr : Synced file Good r)
    (hraw : Reads file raw Good) (hfile : Indexed file r.totalBlock) {c : Call}
    (hc : c.lsn < r.totalBlock → c.clamped r.totalBlock < maxEntries) {out : ℕ × List UInt8}
    (h : zisoReadSector z raw r c.buf c.lsn c.count = some (r', out)) :
    Synced file Good r' ∧ r'.totalBlock = r.totalBlock ∧ r'.align = r.align := by
  by_cases hlsn : r.totalBlock ≤ c.lsn
  · rw [Zso.zisoReadSector, if_pos hlsn] at h
    cases h
    exact ⟨hr, rfl, rfl⟩
  · have hcount := hc (by omega)
    have hreach := hfile.reach
    rw [maxEntries] at hcount
    have hle : c.lsn + c.clamped r.totalBlock ≤ r.totalBlock :=
      clampCount_add_le (by omega) (by omega) (by rw [← Call.clamped]; omega)
    obtain ⟨r₁, hr₁, hsync, htotal, halign, -⟩ := hr.refresh hraw hfile hle (hc (by omega))
    rw [zisoReadSector_of_lt (by omega), ← Call.clamped, hr₁, Option.bind_some] at h
    obtain ⟨hsync', htotal', halign'⟩ := hsync.expand hraw h
    exact ⟨hsync', htotal'.trans htotal, halign'.trans halign⟩

/-! ### Calls for more sectors -/

/-- Among 258 blocks there is one that has no place in the cache. -/
theorem exists_lookup_eq_none {r : Reader σ} (hr : r.idxStart < 2 ^ 32) (lsn : ℕ) :
    ∃ b, lsn ≤ b ∧ b ≤ lsn + maxEntries ∧ r.lookup b = none := by
  obtain ⟨i, hi⟩ : ∃ i, (lsn + 2 ^ 32 - r.idxStart) % 2 ^ 32 = i := ⟨_, rfl⟩
  by_cases h : i < maxEntries
  · rw [maxEntries] at h ⊢
    refine ⟨lsn + (257 - i), by omega, by omega, lookup_eq_none (i := 257) (by omega) ?_⟩
    exact Nat.le_refl maxEntries
  · exact ⟨lsn, Nat.le_refl lsn, by omega, lookup_eq_none hi (by omega)⟩

theorem readBlocks_eq_none {align : ℕ} {lookup : ℕ → Option ℕ} {n b : ℕ} {c : Cursor} (hn : 0 < n)
    (hb : c.curBlock ≤ b) (hb' : b ≤ c.curBlock + n) (h : lookup b = none) :
    readBlocks z align lookup n c = none := by
  induction n generalizing c with
  | zero => exact absurd hn (Nat.lt_irrefl 0)
  | succ n ih =>
    rw [readBlocks]
    cases hc : readBlock z align lookup c with
    | none => rfl
    | some c' =>
      have hcur := (readBlock_spec hc).1
      -- the round found both its entries
      simp only [readBlock, Option.bind_eq_some_iff] at hc
      obtain ⟨e, he, e', he', -⟩ := hc
      have hne : b ≠ c.curBlock := by
        rintro rfl
        rw [h] at he
        cases he
      have hne' : b ≠ c.curBlock + 1 := by
        rintro rfl
        rw [h] at he'
        cases he'
      exact ih (by omega) (by omega) (by omega)

theorem expand_eq_none {lookup : ℕ → Option ℕ} (r : Reader σ) (buf : List UInt8) {lsn count b : ℕ}
    (hcount : 0 < count) (hb : lsn ≤ b) (hb' : b ≤ lsn + count) (h : lookup b = none) :
    expand z raw lookup r buf lsn count = none := by
  refine Option.eq_none_iff_forall_ne_some.mpr fun out hout => ?_
  simp only [expand, Option.bind_eq_some_iff, expandData] at hout
  obtain ⟨e, _, e', _, hout⟩ := hout
  split_ifs at hout
  simp only [Option.bind_eq_some_iff, Option.map_eq_some_iff] at hout
  obtain ⟨_, _, cur, hcur, -⟩ := hout
  rw [readBlocks_eq_none hcount hb hb' h] at hcur
  cases hcur

theorem idxStart_lt_of_refresh {r r' : Reader σ} (hr : r.idxStart < 2 ^ 32) {lsn count : ℕ}
    (hlsn : lsn < 2 ^ 32) (h : r.refresh raw lsn count = some r') : r'.idxStart < 2 ^ 32 := by
  rw [Reader.refresh] at h
  split_ifs at h
  · obtain ⟨_, _, h⟩ := Option.bind_eq_some_iff.mp h
    cases h
    exact hlsn
  · cases h
    exact hr

/-- A call for more than 256 sectors reads behind the end of the cache. -/
theorem zisoReadSector_eq_none {r : Reader σ} (hr : r.idxStart < 2 ^ 32) (buf : List UInt8)
    {lsn count : ℕ} (hlsn : lsn < r.totalBlock) (hlt : lsn < 2 ^ 32)
    (hc : 256 < clampCount r.totalBlock lsn count) :
    zisoReadSector z raw r buf lsn count = none := by
  rw [zisoReadSector_of_lt hlsn]
  refine Option.bind_eq_none_iff.mpr fun r' hr' => ?_
  obtain ⟨b, hb, hb', hnone⟩ := exists_lookup_eq_none (idxStart_lt_of_refresh hr hlt hr') lsn
  rw [maxEntries] at hb'
  exact expand_eq_none r' buf (by omega) hb (by omega) hnone

theorem not_transparent_of_lt {r : Reader σ} (hr : r.idxStart < 2 ^ 32) {c : Call}
    (hlsn : c.lsn < r.totalBlock) (hlt : c.lsn < 2 ^ 32) (hc : 256 < c.clamped r.totalBlock) :
    ¬ Transparent z raw file r c := by
  intro h
  obtain ⟨r', hr', hlookup, -⟩ := h hlsn
  obtain ⟨b, hb, hb', hnone⟩ := exists_lookup_eq_none (idxStart_lt_of_refresh hr hlt hr') c.lsn
  rw [maxEntries] at hb'
  rw [hlookup b hb (by omega)] at hnone
  cases hnone

end Zso

end OpenPS2Loader
