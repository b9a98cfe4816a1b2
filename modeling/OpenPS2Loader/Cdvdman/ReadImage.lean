import OpenPS2Loader.Cdvdman.Read
import OpenPS2Loader.Zso.RoundTrip

/-!
# The sectors of a disc

The sectors of a plain disc are on the device. Those of a compressed disc are in the blocks of an
image, and `DeviceReadSectorsCompressed` delivers them as long as it is served: no read of the
device fails, and no call is for more than 256 sectors. A call behind the end of the image is an
error.

## Main definitions

* `Image` — an image of some sectors, on a disc
* `Disc.Has` — the sectors of a disc

## Main results

* `deviceReadSectorsPtr_spec` — a call of the sector reader
* `exists_image_of_packed` — the images that `ziso.py` packs
-/

namespace OpenPS2Loader

namespace Read

open Bytes

variable {cfg : Config} {disc : Disc} {content : ℕ → Sector} {st : State} {a : Answer}
  {r : ZsoReader} {lsn n : ℕ}

/-- The 2048 bytes as a list. -/
def Sector.toList (s : Sector) : List UInt8 := List.ofFn s

/-- A compressed image on a disc: its blocks are the sectors, packed with LZ4, and the place of
none of them is longer than a sector. -/
structure Image (disc : Disc) (content : ℕ → Sector) where
  file : List UInt8
  total : ℕ
  align : ℕ
  pack : List UInt8 → Lz4.Block
  packs : Lz4.Packs pack
  agrees : Zso.Agrees file disc.bytes
  indexed : Zso.Indexed file total
  align_le : align ≤ 11
  header : (Zso.zisoInit (slice disc.bytes 0 2048) () [] []).align = align ∧
    (Zso.zisoInit (slice disc.bytes 0 2048) () [] []).totalBlock = total
  layout : ∀ m, Zso.Layout (Lz4.codec pack m) (fun b => (content b).toList) total align
    (fun _ => True) file

/-- The disc has these sectors: they are on the device, or an image of them is. -/
def Disc.Has (disc : Disc) (content : ℕ → Sector) : Prop :=
  if disc.isZso then Nonempty (Image disc content) else content = disc.raw

/-! ### Sectors in a buffer -/

theorem length_toList (s : Sector) : s.toList.length = 2048 := List.length_ofFn

theorem drop_flatMap_toList (content : ℕ → Sector) {i : ℕ} (hi : i < n) :
    ∃ t, ((List.range' lsn n).flatMap fun b => (content b).toList).drop (2048 * i) =
      (content (lsn + i)).toList ++ t := by
  induction i generalizing lsn n with
  | zero =>
    obtain ⟨m, rfl⟩ := Nat.exists_eq_succ_of_ne_zero (Nat.ne_of_gt hi)
    exact ⟨_, Zso.Layout.flatMap_range'_succ _ _ _⟩
  | succ i ih =>
    obtain ⟨m, rfl⟩ := Nat.exists_eq_succ_of_ne_zero (Nat.ne_zero_of_lt hi)
    obtain ⟨t, ht⟩ := @ih (lsn + 1) m (by omega)
    have hlen : 2048 * (i + 1) = (content lsn).toList.length + 2048 * i := by
      rw [length_toList]
      omega
    refine ⟨t, ?_⟩
    rw [Zso.Layout.flatMap_range'_succ, hlen, List.drop_length_add_append, ht, Nat.add_assoc,
      Nat.add_comm 1 i]

/-- The sectors of a buffer that they were put into. -/
theorem sectorAt_flatMap (content : ℕ → Sector) {i : ℕ} (hi : i < n) :
    sectorAt ((List.range' lsn n).flatMap fun b => (content b).toList) i = content (lsn + i) := by
  obtain ⟨t, ht⟩ := @drop_flatMap_toList lsn n content i hi
  funext j
  have hj : (j : ℕ) < (content (lsn + i)).toList.length := by
    rw [length_toList]
    exact j.isLt
  rw [sectorAt, List.getD_eq_getElem?_getD, ← List.getElem?_drop, ht,
    List.getElem?_append_left hj, List.getElem?_eq_getElem hj, Option.getD_some]
  exact List.getElem_ofFn _

/-! ### The ZSO reader -/

/-- The packer of a codec is not used to read. -/
theorem store_congr {z z' : Zso.Codec} (h : z.decompressFast = z'.decompressFast)
    (c : Zso.Cursor) (e size : ℕ) : c.store z e size = c.store z' e size := by
  rw [Zso.Cursor.store, Zso.Cursor.store, h]

theorem readBlocks_congr {z z' : Zso.Codec} (h : z.decompressFast = z'.decompressFast)
    (align : ℕ) (lookup : ℕ → Option ℕ) (n : ℕ) (c : Zso.Cursor) :
    Zso.readBlocks z align lookup n c = Zso.readBlocks z' align lookup n c := by
  have hone : Zso.readBlock z align lookup = Zso.readBlock z' align lookup := by
    funext c
    simp only [Zso.readBlock, store_congr h]
  induction n generalizing c with
  | zero => rfl
  | succ n ih =>
    have hrest : Zso.readBlocks z align lookup n = Zso.readBlocks z' align lookup n := funext ih
    rw [Zso.readBlocks, Zso.readBlocks, hone, hrest]

theorem zisoReadSector_congr {z z' : Zso.Codec} (h : z.decompressFast = z'.decompressFast)
    (raw : Zso.RawRead (SectorCache (List UInt8))) (r : ZsoReader) (buf : List UInt8)
    (lsn n : ℕ) :
    Zso.zisoReadSector z raw r buf lsn n = Zso.zisoReadSector z' raw r buf lsn n := by
  simp only [Zso.zisoReadSector, Zso.expand, Zso.expandData, readBlocks_congr h]

theorem refresh_totalBlock {raw : Zso.RawRead (SectorCache (List UInt8))} {r' : ZsoReader}
    (h : r.refresh raw lsn n = some r') : r'.totalBlock = r.totalBlock := by
  rw [Zso.Reader.refresh] at h
  split_ifs at h
  · obtain ⟨_, _, h⟩ := Option.bind_eq_some_iff.mp h
    cases h
    rfl
  · cases h
    rfl

theorem expand_count {z : Zso.Codec} {raw : Zso.RawRead (SectorCache (List UInt8))}
    {lookup : ℕ → Option ℕ} {buf : List UInt8} {r' : ZsoReader} {out : ℕ × List UInt8}
    (h : Zso.expand z raw lookup r buf lsn n = some (r', out)) :
    out.1 = n ∧ r'.totalBlock = r.totalBlock := by
  simp only [Zso.expand, Option.bind_eq_some_iff, Zso.expandData] at h
  obtain ⟨e, _, e', _, h⟩ := h
  split_ifs at h
  simp only [Option.bind_eq_some_iff, Option.map_eq_some_iff] at h
  obtain ⟨_, _, _, _, h⟩ := h
  cases h
  exact ⟨rfl, rfl⟩

/-- What a call returns does not depend on what is read. -/
theorem zisoReadSector_count (disc : Disc) (a : Answer) (r : ZsoReader) (lsn n : ℕ) :
    (zisoReadSector disc a r lsn n).2.1 = zisoCount r.totalBlock lsn n ∧
      (zisoReadSector disc a r lsn n).1.totalBlock = r.totalBlock := by
  rw [zisoReadSector]
  dsimp only
  split_ifs
  · rcases hout : Zso.zisoReadSector a.lz4 (Zso.Cdvdman.readRawData disc.bytes) r
      (slice a.memory 0 (zisoCount r.totalBlock lsn n * 2048)) lsn n with _ | ⟨r', c, data⟩
    · exact ⟨rfl, rfl⟩
    rw [Zso.zisoReadSector] at hout
    rw [Option.getD_some, zisoCount]
    split_ifs at hout ⊢
    · cases hout
      exact ⟨rfl, rfl⟩
    · obtain ⟨r₁, hr₁, hout⟩ := Option.bind_eq_some_iff.mp hout
      obtain ⟨hcount, htotal⟩ := expand_count hout
      exact ⟨hcount, htotal.trans (refresh_totalBlock hr₁)⟩
  · exact ⟨rfl, rfl⟩

/-- What the reader of an image knows of it. -/
structure Image.Synced (I : Image disc content) (r : ZsoReader) : Prop where
  synced : Zso.Synced I.file (fun s => s.Honest (Zso.Cdvdman.sector disc.bytes)) r
  totalBlock : r.totalBlock = I.total
  align : r.align = I.align

theorem Image.synced_zsoReader (I : Image disc content) (cfg : Config) (memory : ℕ → UInt8) :
    I.Synced (zsoReader cfg disc memory) where
  synced := Zso.synced_zisoInit _ _ (Or.inl rfl) (length_slice _ _ _) (length_slice _ _ _)
  totalBlock := I.header.2
  align := I.header.1

theorem add_zisoCount_le {total : ℕ} (hlsn : lsn < total) (hlt : lsn + n < 2 ^ 32) :
    lsn + zisoCount total lsn n ≤ total := by
  rw [zisoCount, if_neg (Nat.not_le.mpr hlsn), Zso.clampCount]
  split_ifs <;> omega

theorem clampCount_zisoCount {total : ℕ} (hlsn : lsn < total) :
    Zso.clampCount total lsn (zisoCount total lsn n) = Zso.clampCount total lsn n := by
  rw [zisoCount, if_neg (Nat.not_le.mpr hlsn)]
  by_cases h : total < (lsn + n) % 2 ^ 32
  · have hle := Nat.mod_le total (2 ^ 32)
    rw [show Zso.clampCount total lsn n = total - lsn from if_pos h, Zso.clampCount,
      Nat.add_sub_cancel' (Nat.le_of_lt hlsn), if_neg (Nat.not_lt.mpr hle)]
  · rw [show Zso.clampCount total lsn n = n from if_neg h]
    exact if_neg h

/-- **A call of `ziso_read_sector` that is served.** -/
theorem Image.zisoReadSector_eq (I : Image disc content) (hr : I.Synced r)
    (hserves : a.serves r lsn n = true) (hlt : lsn + n < 2 ^ 32) :
    ∃ r', zisoReadSector disc a r lsn n = (r', zisoCount I.total lsn n,
        (List.range' lsn (zisoCount I.total lsn n)).flatMap fun b => (content b).toList) ∧
      I.Synced r' := by
  rw [zisoReadSector, if_pos hserves, hr.totalBlock]
  dsimp only
  rcases Nat.lt_or_ge lsn I.total with hlsn | hlsn
  · have hcount : zisoCount I.total lsn n ≤ 256 := by
      simp only [Answer.serves, hr.totalBlock, Bool.and_eq_true, decide_eq_true_eq] at hserves
      exact hserves.2
    obtain ⟨r', hread, hsync, htotal, halign⟩ :=
      (I.layout fun p => a.memory p.toNat).zisoReadSector_eq (Lz4.codec_inverse I.packs _)
        (Zso.Cdvdman.reads_readRawData I.agrees) I.indexed hr.synced hr.totalBlock hr.align
        I.align_le (length_slice a.memory 0 _) (add_zisoCount_le hlsn hlt) hcount
        (fun _ _ _ => trivial)
    -- the count is adjusted to the end of the image once only
    have hcall : ∀ (z : Zso.Codec) buf,
        Zso.zisoReadSector z (Zso.Cdvdman.readRawData disc.bytes) r buf lsn n =
        Zso.zisoReadSector z (Zso.Cdvdman.readRawData disc.bytes) r buf lsn
          (zisoCount I.total lsn n) := fun z buf => by
      rw [Zso.zisoReadSector, Zso.zisoReadSector, hr.totalBlock, clampCount_zisoCount hlsn]
    rw [hcall, zisoReadSector_congr
      (show a.lz4.decompressFast = (Lz4.codec I.pack fun p => a.memory p.toNat).decompressFast
        from rfl), hread]
    exact ⟨r', rfl, hsync, htotal, halign⟩
  · have hzero : zisoCount I.total lsn n = 0 := if_pos hlsn
    have hge : r.totalBlock ≤ lsn := hr.totalBlock ▸ hlsn
    rw [Zso.zisoReadSector, if_pos hge, hzero, Nat.zero_mul]
    exact ⟨r, rfl, hr⟩

/-! ### The sector reader -/

/-- The reader knows the format of the disc, and its ZSO reader the image. -/
structure Ready (disc : Disc) (content : ℕ → Sector) (st : State) : Prop where
  zso : st.zso.isSome = (st.probed && disc.isZso)
  synced : ∀ r, st.zso = some r → ∀ I : Image disc content, I.Synced r

theorem unserved_of_deviceReadSectorsPtr
    (h : (deviceReadSectorsPtr disc st lsn n).1.unserved = false) : st.unserved = false := by
  rw [deviceReadSectorsPtr] at h
  rcases hz : st.zso with _ | r <;> simp only [State.ask, hz] at h
  · exact h
  · exact (Bool.or_eq_false_iff.mp h).1

/-- What a call of the sector reader leaves alone. -/
theorem deviceReadSectorsPtr_frame (disc : Disc) (st : State) (lsn n : ℕ) :
    (deviceReadSectorsPtr disc st lsn n).1.probed = st.probed ∧
      (deviceReadSectorsPtr disc st lsn n).1.key = st.key ∧
      (deviceReadSectorsPtr disc st lsn n).1.mediaLsnCount = st.mediaLsnCount ∧
      (deviceReadSectorsPtr disc st lsn n).1.device = fun n => st.device (n + 1) := by
  rw [deviceReadSectorsPtr]
  rcases hz : st.zso with _ | r <;> simp only [State.ask, hz, and_self]

/-- **A call of the sector reader.** When it is served and does not fail, it stores the sectors of
the disc. -/
theorem deviceReadSectorsPtr_spec (hc : disc.Has content) (hst : Ready disc content st)
    (hp : st.probed = true) (hlt : lsn + n < 2 ^ 32)
    (hserved : (deviceReadSectorsPtr disc st lsn n).1.unserved = false) :
    Ready disc content (deviceReadSectorsPtr disc st lsn n).1 ∧
      ((deviceReadSectorsPtr disc st lsn n).2.1 = .no →
        (deviceReadSectorsPtr disc st lsn n).2.2 =
          (List.range n).map fun i => content (lsn + i)) := by
  have hzso := hst.zso
  rw [hp, Bool.true_and] at hzso
  rw [deviceReadSectorsPtr] at hserved ⊢
  rcases hz : st.zso with _ | r
  · -- a plain disc
    rw [hz, Option.isSome_none] at hzso
    rw [Disc.Has, ← hzso, if_neg Bool.false_ne_true] at hc
    simp only [State.ask, hz]
    exact ⟨⟨by simp [hp, ← hzso], fun r hr => by cases hr⟩, fun _ => by rw [hc]⟩
  · rw [hz, Option.isSome_some] at hzso
    rw [Disc.Has, ← hzso, if_pos rfl] at hc
    obtain ⟨I⟩ := hc
    simp only [State.ask, hz] at hserved ⊢
    have hserves : (st.device 0).serves r lsn n = true := by
      simpa using (Bool.or_eq_false_iff.mp hserved).2
    refine ⟨⟨?_, ?_⟩, ?_⟩
    · simp [hp, ← hzso]
    · intro r' hr' J
      obtain ⟨r'', hread, hsync⟩ := J.zisoReadSector_eq (hst.synced r hz J) hserves hlt
      rw [deviceReadSectorsCompressed, hread] at hr'
      cases hr'
      exact hsync
    · obtain ⟨r', hread, -⟩ := I.zisoReadSector_eq (hst.synced r hz I) hserves hlt
      rw [deviceReadSectorsCompressed, hread]
      dsimp only
      split_ifs with hcount
      · intro _
        refine List.map_congr_left fun i hi => ?_
        rw [hcount]
        exact sectorAt_flatMap content (List.mem_range.mp hi)
      · intro h
        cases h

/-! ### Packed images -/

/-- The sectors of an ISO. -/
def isoContent (iso : List UInt8) : ℕ → Sector := sectorAt iso

theorem toList_isoContent {iso : List UInt8} {b : ℕ} (hb : b < iso.length / 2048) :
    (isoContent iso b).toList = Zso.isoBlock iso b := by
  have hlen := Zso.length_isoBlock hb
  refine List.ext_getElem (by rw [length_toList, hlen]) fun j hj hj' => ?_
  rw [length_toList] at hj
  have hget : iso[2048 * b + j]? = some ((Zso.isoBlock iso b).get ⟨j, hj'⟩) := by
    rw [← List.getElem?_drop, ← List.getElem?_take_of_lt hj]
    exact List.getElem?_eq_getElem hj'
  simp only [Sector.toList, isoContent, sectorAt, List.getElem_ofFn,
    List.getD_eq_getElem?_getD, hget, Option.getD_some, List.get_eq_getElem]

/-- A medium that holds a file. -/
def Disc.ofFile (file : List UInt8) : Disc := ⟨fun i => file.getD i 0⟩

theorem agrees_ofFile (file : List UInt8) : Zso.Agrees file (Disc.ofFile file).bytes := by
  intro i b hb
  change file.getD i 0 = b
  rw [List.getD_eq_getElem?_getD, hb, Option.getD_some]

theorem field_header {file : List UInt8} {disk : ℕ → UInt8} (h : Zso.Agrees file disk) {p n : ℕ}
    (hlen : p + n ≤ file.length) (hle : p + n ≤ 2048) :
    ((slice disk 0 2048).drop p).take n = (file.drop p).take n := by
  rw [drop_slice _ _ (by omega), take_slice _ _ (by omega), Nat.zero_add, h.slice_eq hlen]

/-- The first bytes of a packed image. -/
theorem isZso_ofFile {z : Zso.Codec} {threshold : ℕ} {pad : UInt8} {iso : List UInt8}
    (P : Zso.Packed z threshold pad iso) : (Disc.ofFile P.image).isZso = true := by
  obtain ⟨back, -, himage⟩ := P.image_eq_append
  have hmagic : toLe 4 0x4F53495A = [0x5A, 0x49, 0x53, 0x4F] := by decide
  rw [hmagic] at himage
  simp only [List.append_assoc, List.cons_append] at himage
  rw [Disc.ofFile, himage]
  rfl

/-- **Packed images.** The image that `ziso.py` makes of an ISO below 1 GiB is an image of the
sectors of the ISO. -/
theorem exists_image_of_packed {pack : List UInt8 → Lz4.Block} (hpack : Lz4.Packs pack)
    (m : Lz4.Mem) {threshold : ℕ} {pad : UInt8} {iso file : List UInt8}
    (hthreshold : threshold ≤ 100)
    (hsize : iso.length < 2 ^ 30)
    (hfile : Zso.compressZso (Lz4.codec pack m) threshold pad iso = some file) :
    (Disc.ofFile file).isZso = true ∧
      ∃ I : Image (Disc.ofFile file) (isoContent iso), I.total = iso.length / 2048 := by
  obtain ⟨file', hfile', hfits⟩ :=
    Zso.exists_compressZso_of_lt (Lz4.codec pack m) pad hthreshold hsize
  obtain rfl : file = file' := Option.some.inj (hfile.symm.trans hfile')
  obtain ⟨P, rfl⟩ := Zso.exists_packed hfile
  have halign : Zso.alignOf iso = 0 := Nat.div_eq_of_lt (by omega)
  have hindexed := P.indexed (by omega)
  have hlen := hindexed.length
  rw [Zso.headerSize] at hlen
  have hagrees := agrees_ofFile P.image
  obtain ⟨hinit, hinit'⟩ := P.zisoInit_eq () [] []
  have L := P.layout hthreshold (by omega) hfits
  refine ⟨isZso_ofFile P, {
    file := P.image, total := iso.length / 2048, align := Zso.alignOf iso, pack := pack
    packs := hpack, agrees := hagrees, indexed := hindexed, align_le := by omega
    header := ⟨?_, ?_⟩
    layout := fun m' => {
      pos := L.pos, plain := L.plain, length_block := fun _ _ => length_toList _
      aligned := L.aligned, fits := L.fits, entry := L.entry, topbit := L.topbit, mono := L.mono
      size_le := L.size_le, pos_le := L.pos_le
      stored_plain := fun b hb hplain => ?_
      stored := fun b hb _ hplain => ?_ } }, rfl⟩
  · rw [← hinit, Zso.zisoInit, Zso.zisoInit, field_header hagrees (by omega) (by omega)]
  · rw [← hinit', Zso.zisoInit, Zso.zisoInit, field_header (p := 21) hagrees (by omega) (by omega),
      field_header (p := 8) hagrees (by omega) (by omega),
      field_header (p := 12) hagrees (by omega) (by omega)]
  · rw [toList_isoContent hb]
    exact L.stored_plain b hb hplain
  · rw [toList_isoContent hb]
    exact L.stored b hb (.inl (Zso.lastWhole_of_lt (by omega))) hplain

end Read

end OpenPS2Loader
