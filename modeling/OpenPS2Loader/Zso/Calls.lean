import OpenPS2Loader.Zso.Lz4Format
import OpenPS2Loader.Zso.RoundTrip

/-!
# Calls of the reader

Sequences of calls of `ziso_read_sector`, from `ziso_init` on: the index cache does not show in any
of them, and on an image that `ziso.py` packed they return the sectors of the ISO.

## Main definitions

* `AllTransparent` — calls that use the entries of the file
* `Decoded` — calls that return the sectors of the ISO

## Main results

* `allTransparent_of_le` — sequences of calls of at most 256 sectors
* `decoded_compressZso` — what is read is what was packed
* `Lz4.readsBack_compressZso` — with the decoder of `lz4.c`
-/

namespace OpenPS2Loader

namespace Zso

open Bytes

variable {σ : Type} {z : Codec} {threshold : ℕ} {pad : UInt8} {iso file : List UInt8}
  {raw : RawRead σ} {Good : σ → Prop}

/-! ### An image with both kinds of blocks -/

/-- A sector that LZ4 makes short. -/
def runSector : List UInt8 := List.replicate 2048 7

/-- A sector that `packRun` does not make short. -/
def mixedSector : List UInt8 := 0 :: List.replicate 2047 1

/-- `n` times the one and the other. -/
def sampleIso : ℕ → List UInt8
  | 0 => []
  | n + 1 => runSector ++ (mixedSector ++ sampleIso n)

/-- LZ4, as a packer that looks for runs. -/
def sampleCodec : Codec := Lz4.codec Lz4.packRun fun _ => 0

theorem sampleCodec_inverse : sampleCodec.Inverse := Lz4.codec_inverse Lz4.packs_packRun _

theorem length_runSector : runSector.length = 2048 := List.length_replicate

theorem length_mixedSector : mixedSector.length = 2048 :=
  congrArg (· + 1) List.length_replicate

theorem length_sampleIso (n : ℕ) : (sampleIso n).length = 4096 * n := by
  induction n with
  | zero => rfl
  | succ n ih =>
    rw [sampleIso, List.length_append, List.length_append, ih, length_runSector,
      length_mixedSector]
    omega

theorem sectors_sampleIso (n : ℕ) : (sampleIso n).length / 2048 = 2 * n := by
  rw [length_sampleIso]
  omega

theorem isPlain_runSector : isPlain sampleCodec 95 runSector = false := by
  have hpack : Lz4.packRun runSector = ⟨[⟨[7], 1, 2042⟩], List.replicate 5 7⟩ := by
    rw [runSector, List.replicate_succ, Lz4.packRun, if_pos rfl]
  have hlen : (sampleCodec.compress runSector).length = 18 := by
    change (Lz4.packRun runSector).encode.length = 18
    rw [hpack]
    decide
  rw [isPlain, hlen, length_runSector]
  decide

theorem isPlain_mixedSector : isPlain sampleCodec 95 mixedSector = true := by
  have hne : List.replicate 2047 (1 : UInt8) ≠ List.replicate 2047 0 := by
    intro h
    have hhead := congrArg List.head? h
    simp at hhead
  have hpack : Lz4.packRun mixedSector = ⟨[], mixedSector⟩ := by
    rw [mixedSector, Lz4.packRun, if_neg hne]
  have hlen : 2048 ≤ (sampleCodec.compress mixedSector).length := by
    change 2048 ≤ (Lz4.packRun mixedSector).encode.length
    rw [hpack, Lz4.Block.encode]
    simp only [List.length_append, List.length_cons, length_mixedSector]
    omega
  rw [isPlain, length_mixedSector]
  exact decide_eq_true (by omega)

/-- The first sector is stored compressed, and the second one as it is. -/
theorem isPlain_sampleIso (n : ℕ) :
    isPlain sampleCodec 95 (isoBlock (sampleIso (n + 1)) 0) = false ∧
      isPlain sampleCodec 95 (isoBlock (sampleIso (n + 1)) 1) = true := by
  have hrun : isoBlock (sampleIso (n + 1)) 0 = runSector := List.take_left' length_runSector
  have hmixed : isoBlock (sampleIso (n + 1)) 1 = mixedSector := by
    rw [isoBlock, sampleIso, List.drop_left' length_runSector]
    exact List.take_left' length_mixedSector
  rw [hrun, hmixed]
  exact ⟨isPlain_runSector, isPlain_mixedSector⟩

theorem exists_compress_sampleIso {n : ℕ} (hn : n < 2 ^ 18) :
    ∃ file, compressZso sampleCodec 95 0x58 (sampleIso n) = some file ∧
      file.length >>> alignOf (sampleIso n) < 2 ^ 31 := by
  refine exists_compressZso_of_lt sampleCodec 0x58 (by decide) ?_
  rw [length_sampleIso]
  omega

/-! ### Reading back -/

/-- Every call returns the sectors of the ISO it asks for. -/
def Decoded (z : Codec) (raw : RawRead σ) (iso : List UInt8) : Reader σ → List Call → Prop
  | _, [] => True
  | r, c :: cs => ∃ r', zisoReadSector z raw r c.buf c.lsn c.count =
      some (r', c.count, (iso.drop (2048 * c.lsn)).take (2048 * c.count)) ∧ Decoded z raw iso r' cs

/-- A call for sectors of the image, with a buffer for them. -/
def Call.Within (n : ℕ) (c : Call) : Prop := c.lsn + c.count ≤ n ∧ c.buf.length = c.count * 2048

theorem Layout.decoded {whole : ℕ → Prop}
    (L : Layout z (isoBlock iso) (iso.length / 2048) (alignOf iso) whole file) (hz : z.Inverse)
    (hraw : Reads file raw Good) (hfile : Indexed file (iso.length / 2048))
    (halign : alignOf iso ≤ 11) {r : Reader σ} (hr : Synced file Good r)
    (htotal : r.totalBlock = iso.length / 2048) (hralign : r.align = alignOf iso) {cs : List Call}
    (hcs : ∀ c ∈ cs, c.Within (iso.length / 2048)) (hcount : ∀ c ∈ cs, c.count ≤ 256)
    (hwhole : ∀ c ∈ cs, ∀ b, c.lsn ≤ b → b < c.lsn + c.count → whole b) :
    Decoded z raw iso r cs := by
  induction cs generalizing r with
  | nil => trivial
  | cons c cs ih =>
    obtain ⟨hle, hbuf⟩ := hcs c List.mem_cons_self
    obtain ⟨r', hr', hsync, htotal', halign'⟩ := L.zisoReadSector_eq hz hraw hfile hr htotal hralign
      halign hbuf hle (hcount c List.mem_cons_self) (hwhole c List.mem_cons_self)
    rw [flatMap_isoBlock hle] at hr'
    exact ⟨r', hr', ih hsync htotal' halign' (fun d hd => hcs d (List.mem_cons_of_mem c hd))
      (fun d hd => hcount d (List.mem_cons_of_mem c hd))
      fun d hd => hwhole d (List.mem_cons_of_mem c hd)⟩

theorem Packed.decoded (P : Packed z threshold pad iso) (hz : z.Inverse)
    (hthreshold : threshold ≤ 100) (hfits : P.image.length >>> alignOf iso < 2 ^ 31)
    (hraw : Reads P.image raw Good) {st : σ} {idxCache tmp : List UInt8} (hst : Good st)
    (hcache : idxCache.length = 4 * maxEntries) (htmp : tmp.length = 2048) {cs : List Call}
    (hcs : ∀ c ∈ cs, c.Within (iso.length / 2048)) (hsize : iso.length < 12 * 2 ^ 31)
    (hcount : ∀ c ∈ cs, c.count ≤ 256)
    (hlast : ∀ c ∈ cs, LastWhole z threshold iso ∨ c.lsn + c.count < iso.length / 2048) :
    Decoded z raw iso (zisoInit P.image st idxCache tmp) cs := by
  have halign : alignOf iso ≤ 11 := by
    rw [alignOf]
    omega
  obtain ⟨hralign, htotal⟩ := P.zisoInit_eq st idxCache tmp
  refine (P.layout hthreshold halign hfits).decoded hz hraw (P.indexed halign) halign
    (synced_zisoInit P.image P.image hst hcache htmp) htotal hralign hcs hcount ?_
  intro c hc b _ hb
  exact (hlast c hc).imp_right fun h => by omega

/-- **Reading undoes packing.** What `ziso_read_sector` returns on the image that `ziso.py` made of
an ISO are the sectors of the ISO, for all calls one after the other, when the ISO is smaller than
24 GiB, no call is for more than 256 sectors, and the last sector is not read where its compressed
form was cut off. -/
theorem decoded_compressZso (hz : z.Inverse) (hthreshold : threshold ≤ 100)
    (hpack : compressZso z threshold pad iso = some file)
    (hfits : file.length >>> alignOf iso < 2 ^ 31) (hraw : Reads file raw Good) {st : σ}
    {idxCache tmp : List UInt8} (hst : Good st) (hcache : idxCache.length = 4 * maxEntries)
    (htmp : tmp.length = 2048) {cs : List Call} (hcs : ∀ c ∈ cs, c.Within (iso.length / 2048))
    (hsize : iso.length < 12 * 2 ^ 31) (hcount : ∀ c ∈ cs, c.count ≤ 256)
    (hlast : ∀ c ∈ cs, LastWhole z threshold iso ∨ c.lsn + c.count < iso.length / 2048) :
    Decoded z raw iso (zisoInit file st idxCache tmp) cs := by
  obtain ⟨P, rfl⟩ := exists_packed hpack
  exact P.decoded hz hthreshold hfits hraw hst hcache htmp hcs hsize hcount hlast

/-- A buffer for `n` sectors. -/
def sectorBuf (n : ℕ) : List UInt8 := List.replicate (n * 2048) 0

theorem within_sectorBuf {n lsn count : ℕ} (h : lsn + count ≤ n) :
    (Call.mk lsn count (sectorBuf count)).Within n := ⟨h, List.length_replicate⟩

/-- The reader of `isofs.c`, on a file. -/
def sampleReader (file : List UInt8) : Reader Unit :=
  zisoInit file () (List.replicate (4 * maxEntries) 0) (List.replicate 2048 0)

theorem lastWhole_sampleIso {n : ℕ} (hn : n < 2 ^ 18) :
    LastWhole sampleCodec 95 (sampleIso n) := by
  refine lastWhole_of_lt ?_
  rw [length_sampleIso]
  omega

/-- Four sectors, read back in three calls. The first call expands a block, moves one that is
stored as it is, and expands another one. -/
theorem decoded_fourSectors : ∃ file,
    compressZso sampleCodec 95 0x58 (sampleIso 2) = some file ∧
      isPlain sampleCodec 95 (isoBlock (sampleIso 2) 0) = false ∧
      isPlain sampleCodec 95 (isoBlock (sampleIso 2) 1) = true ∧
      Decoded sampleCodec (Isofs.readRawData file) (sampleIso 2) (sampleReader file)
        [⟨0, 3, sectorBuf 3⟩, ⟨3, 1, sectorBuf 1⟩, ⟨2, 1, sectorBuf 1⟩] := by
  obtain ⟨file, hfile, hfits⟩ := exists_compress_sampleIso (n := 2) (by decide)
  obtain ⟨hfirst, hsecond⟩ := isPlain_sampleIso 1
  refine ⟨file, hfile, hfirst, hsecond, decoded_compressZso sampleCodec_inverse (by decide) hfile
    hfits (Isofs.reads_readRawData file) trivial List.length_replicate List.length_replicate ?_ ?_
    ?_ fun c _ => .inl (lastWhole_sampleIso (by decide))⟩
  · rw [sectors_sampleIso]
    simp only [List.forall_mem_cons, List.not_mem_nil, false_imp_iff, implies_true, and_true]
    exact ⟨within_sectorBuf (by decide), within_sectorBuf (by decide), within_sectorBuf (by decide)⟩
  · rw [length_sampleIso]
    decide
  · simp

theorem totalBlock_sampleReader {n : ℕ}
    (h : compressZso sampleCodec 95 0x58 (sampleIso n) = some file) :
    (sampleReader file).totalBlock = 2 * n := by
  obtain ⟨P, rfl⟩ := exists_packed h
  rw [← sectors_sampleIso n]
  exact (P.zisoInit_eq () _ _).2

theorem zisoReadSector_sample_eq_none
    (h : compressZso sampleCodec 95 0x58 (sampleIso 129) = some file) :
    zisoReadSector sampleCodec (Isofs.readRawData file) (sampleReader file) (sectorBuf 257) 0 257 =
      none := by
  have htotal := totalBlock_sampleReader h
  refine zisoReadSector_eq_none (by change 2 ^ 32 - 1 < 2 ^ 32; decide) _ ?_ (by decide) ?_
  · rw [htotal]
    decide
  · rw [htotal]
    decide

/-- An ISO of 258 sectors, of which 257 are read in one call: the reader runs over the end of its
index. -/
theorem not_decoded_manySectors : sampleCodec.Inverse ∧ ∃ file,
    compressZso sampleCodec 95 0x58 (sampleIso 129) = some file ∧
      file.length >>> alignOf (sampleIso 129) < 2 ^ 31 ∧
      zisoReadSector sampleCodec (Isofs.readRawData file) (sampleReader file) (sectorBuf 257) 0
        257 = none := by
  obtain ⟨file, hfile, hfits⟩ := exists_compress_sampleIso (n := 129) (by decide)
  refine ⟨sampleCodec_inverse, file, hfile, hfits, ?_⟩
  exact zisoReadSector_sample_eq_none hfile

/-! ### The index cache -/

/-- All the calls, one after the other. -/
def AllTransparent (z : Codec) (raw : RawRead σ) (file : List UInt8) : Reader σ → List Call → Prop
  | _, [] => True
  | r, c :: cs => Transparent z raw file r c ∧ ∀ r' out,
      zisoReadSector z raw r c.buf c.lsn c.count = some (r', out) → AllTransparent z raw file r' cs

/-- **The index cache is transparent.** From `ziso_init` on, and whatever is read in which order,
every call uses for each of its blocks the entries of the file, as long as the calls are for at
most 256 sectors of the image. -/
theorem allTransparent_of_le (hraw : Reads file raw Good) (z : Codec) (header : List UInt8) {st : σ}
    {idxCache tmp : List UInt8} (hst : Good st) (hcache : idxCache.length = 4 * maxEntries)
    (htmp : tmp.length = 2048)
    (hfile : Indexed file (zisoInit header st idxCache tmp).totalBlock) (cs : List Call)
    (hcs : ∀ c ∈ cs, c.lsn < (zisoInit header st idxCache tmp).totalBlock →
      c.clamped (zisoInit header st idxCache tmp).totalBlock ≤ 256) :
    AllTransparent z raw file (zisoInit header st idxCache tmp) cs := by
  have hr := synced_zisoInit file header hst hcache htmp
  generalize zisoInit header st idxCache tmp = r at hr hfile hcs
  induction cs generalizing r with
  | nil => trivial
  | cons c cs ih =>
    have hc : c.lsn < r.totalBlock → c.clamped r.totalBlock < maxEntries := fun hlsn =>
      Nat.lt_succ_of_le (hcs c List.mem_cons_self hlsn)
    refine ⟨hr.transparent hraw hfile hc, fun r' out h => ?_⟩
    obtain ⟨hr', htotal, -⟩ := hr.zisoReadSector hraw hfile hc h
    refine ih r' hr' (by rwa [htotal]) fun c' hc' => ?_
    rw [htotal]
    exact hcs c' (List.mem_cons_of_mem c hc')

/-- The window of the cache moves on and back, and the last call asks for more than there is. -/
theorem allTransparent_packed : ∃ file,
    compressZso sampleCodec 95 0x58 (sampleIso 300) = some file ∧
      AllTransparent sampleCodec (Isofs.readRawData file) file (sampleReader file)
        [⟨0, 2, sectorBuf 2⟩, ⟨340, 256, sectorBuf 256⟩, ⟨100, 200, sectorBuf 200⟩,
          ⟨255, 2, sectorBuf 2⟩, ⟨590, 16, sectorBuf 16⟩] ∧
      Decoded sampleCodec (Isofs.readRawData file) (sampleIso 300) (sampleReader file)
        [⟨0, 2, sectorBuf 2⟩, ⟨340, 256, sectorBuf 256⟩, ⟨100, 200, sectorBuf 200⟩,
          ⟨255, 2, sectorBuf 2⟩] := by
  obtain ⟨file, hfile, hfits⟩ := exists_compress_sampleIso (n := 300) (by decide)
  have htotal := totalBlock_sampleReader hfile
  obtain ⟨P, rfl⟩ := exists_packed hfile
  have hindexed := P.indexed (by rw [alignOf, length_sampleIso]; decide)
  rw [sectors_sampleIso] at hindexed
  refine ⟨P.image, hfile, ?_, ?_⟩
  · refine allTransparent_of_le (Isofs.reads_readRawData _) sampleCodec P.image trivial
      List.length_replicate List.length_replicate ?_ _ ?_
    · change Indexed P.image (sampleReader P.image).totalBlock
      rw [htotal]
      exact hindexed
    · change ∀ c : Call, c ∈ _ → c.lsn < (sampleReader P.image).totalBlock →
        c.clamped (sampleReader P.image).totalBlock ≤ 256
      rw [htotal]
      simp [Call.clamped, clampCount]
  · refine P.decoded sampleCodec_inverse (by decide) hfits (Isofs.reads_readRawData _) trivial
      List.length_replicate List.length_replicate ?_ ?_ ?_ fun c _ =>
        .inl (lastWhole_sampleIso (by decide))
    · rw [sectors_sampleIso]
      simp only [List.forall_mem_cons, List.not_mem_nil, false_imp_iff, implies_true, and_true]
      exact ⟨within_sectorBuf (by decide), within_sectorBuf (by decide),
        within_sectorBuf (by decide), within_sectorBuf (by decide)⟩
    · rw [length_sampleIso]
      decide
    · simp

/-- 257 sectors in one call. -/
theorem not_allTransparent_manySectors : ∃ file,
    compressZso sampleCodec 95 0x58 (sampleIso 129) = some file ∧
      Indexed file (sampleReader file).totalBlock ∧
      ¬ AllTransparent sampleCodec (Isofs.readRawData file) file (sampleReader file)
        [⟨0, 257, sectorBuf 257⟩] ∧
      zisoReadSector sampleCodec (Isofs.readRawData file) (sampleReader file) (sectorBuf 257) 0
        257 = none := by
  obtain ⟨file, hfile, -⟩ := exists_compress_sampleIso (n := 129) (by decide)
  have htotal := totalBlock_sampleReader hfile
  have hnone := zisoReadSector_sample_eq_none hfile
  obtain ⟨P, rfl⟩ := exists_packed hfile
  have hindexed := P.indexed (by rw [alignOf, length_sampleIso]; decide)
  rw [sectors_sampleIso] at hindexed
  refine ⟨P.image, hfile, by rw [htotal]; exact hindexed, fun h => ?_, hnone⟩
  refine not_transparent_of_lt (by change 2 ^ 32 - 1 < 2 ^ 32; decide) ?_ (by decide) ?_ h.1
  · rw [htotal]
    decide
  · rw [htotal]
    decide

end Zso

namespace Lz4

open Zso

/-- **From the packer to the game.** An image of an ISO below 1 GiB whose blocks were written by an
LZ4 packer gives back the sectors of the ISO, call by call, through `ziso_read_sector` and
`LZ4_decompress_fast`. -/
theorem readsBack_compressZso {σ : Type} {raw : RawRead σ} {Good : σ → Prop} {iso file : List UInt8}
    {threshold : ℕ} {pad : UInt8} {pack : List UInt8 → Block} (hpack : Packs pack) (m : Mem)
    (hthreshold : threshold ≤ 100)
    (hfile : compressZso (codec pack m) threshold pad iso = some file) (hsize : iso.length < 2 ^ 30)
    (hraw : Reads file raw Good) {st : σ} {idxCache tmp : List UInt8} (hst : Good st)
    (hcache : idxCache.length = 4 * maxEntries) (htmp : tmp.length = 2048) {cs : List Call}
    (hcs : ∀ c ∈ cs, c.Within (iso.length / 2048)) (hcount : ∀ c ∈ cs, c.count ≤ 256) :
    Decoded (codec pack m) raw iso (zisoInit file st idxCache tmp) cs := by
  obtain ⟨file', hfile', hfits⟩ := exists_compressZso_of_lt (codec pack m) pad hthreshold hsize
  obtain rfl : file = file' := Option.some.inj (hfile.symm.trans hfile')
  obtain ⟨P, rfl⟩ := exists_packed hfile
  exact P.decoded (codec_inverse hpack m) hthreshold hfits hraw hst hcache htmp hcs (by omega)
    hcount fun c _ => .inl (lastWhole_of_lt (by omega))

/-- Six sectors, half of them compressed, packed and read back in two calls. -/
theorem readsBack_sixSectors : ∃ file,
    compressZso (codec packRun fun _ => 0) 95 0x58 (sampleIso 3) = some file ∧
      Decoded (codec packRun fun _ => 0) (Isofs.readRawData file) (sampleIso 3) (sampleReader file)
        [⟨1, 5, sectorBuf 5⟩, ⟨0, 2, sectorBuf 2⟩] := by
  obtain ⟨file, hfile, -⟩ := exists_compress_sampleIso (n := 3) (by decide)
  refine ⟨file, hfile, readsBack_compressZso packs_packRun _ (by decide) hfile ?_
    (Isofs.reads_readRawData file) trivial List.length_replicate List.length_replicate ?_ ?_⟩
  · rw [length_sampleIso]
    decide
  · rw [sectors_sampleIso]
    simp only [List.forall_mem_cons, List.not_mem_nil, false_imp_iff, implies_true, and_true]
    exact ⟨within_sectorBuf (by decide), within_sectorBuf (by decide)⟩
  · simp

end Lz4

end OpenPS2Loader
