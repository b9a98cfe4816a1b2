import OpenPS2Loader.Cdvdman.ReadImage
import OpenPS2Loader.Zso.Calls

/-!
# How the bytes of a sector depend on the request

The sectors of a request are read in chunks of a fixed width: the whole request, eight sectors in
the compatibility mode, or what fits the bounce buffer. The logo descrambler looks at the first
sector of a chunk only. A chunk that starts below sector 13 is descrambled as a whole, with a key
that is not known before a chunk started at sector 0; a chunk that starts at 13 or above is left
alone. So the bytes stored for a sector depend on where its chunk starts and on the history, and
on nothing else, as long as every call of the ZSO reader is served.

## Main definitions

* `Inv` — what holds of the reader in every run
* `Request.chunkStart`, `Request.Descrambled` — the chunk of a sector, and whether it is descrambled
* `storedAt` — the bytes a request stores for a sector

## Main results

* `readLoop_spec`, `readSectors_spec`, `bounceLoop_spec`, `read_spec` — what is stored, layer by
  layer
* `read_isSome` — reads of a device that does not fail succeed
* `storedAt_eq_iff` — when two requests store the same bytes for a sector
-/

namespace OpenPS2Loader

namespace Read

variable {cfg : Config} {disc : Disc} {content : ℕ → Sector} {st st' : State}

/-! ### What is stored for a sector -/

theorem sector_pos : 0 < 2048 := Nat.zero_lt_succ 2047

/-- The value the logo of the disc is scrambled with: its first byte. -/
def logoKey (content : ℕ → Sector) : UInt8 := content 0 ⟨0, sector_pos⟩

/-- What is stored for sector `s` by a chunk that starts at `start` with the key `key`. -/
def storedSector (content : ℕ → Sector) (key : UInt8) (start s : ℕ) : Sector :=
  if start < 13 ∧ key ≠ 0 then descramble key (content s) else content s

/-- The sector reader knows the disc, and the key is the disc's or not known yet. -/
structure Inv (disc : Disc) (content : ℕ → Sector) (st : State) : Prop where
  ready : Ready disc content st
  key : st.key = 0 ∨ st.key = logoKey content

/-- The key in force after a read at `lsn`. -/
def keyAfter (content : ℕ → Sector) (st : State) (lsn : ℕ) : UInt8 :=
  if lsn = 0 then logoKey content else st.key

theorem descrambleChunk_eq {key : UInt8} {lsn n : ℕ} (hn : 0 < n) :
    descrambleChunk key lsn ((List.range n).map fun i => content (lsn + i)) =
      (if lsn = 0 then logoKey content else key,
        (List.range n).map fun i =>
          storedSector content (if lsn = 0 then logoKey content else key) lsn (lsn + i)) := by
  have hhead : lsn = 0 → (((List.range n).map fun i => content (lsn + i)).headD default) 0 =
      logoKey content := by
    rintro rfl
    obtain ⟨m, rfl⟩ := Nat.exists_eq_succ_of_ne_zero hn.ne'
    simp [List.range_succ_eq_map, logoKey]
  have hkey : (if lsn = 0 then
      (((List.range n).map fun i => content (lsn + i)).headD default) 0 else key) =
      if lsn = 0 then logoKey content else key := by
    split_ifs with h
    · exact hhead h
    · rfl
  rw [descrambleChunk]
  by_cases hl : lsn < 13
  · simp only [hkey, storedSector, hl, true_and]
    split_ifs <;> simp [Function.comp_def]
  · have h0 : lsn ≠ 0 := by omega
    simp [hl, h0, storedSector]

/-- The next chunk of a loop that reads `W` sectors at a time. -/
theorem sectorsToRead_eq {W n : ℕ} (hW : if cfg.accuReads then W = 8 else n ≤ W) :
    sectorsToRead cfg n = min n W := by
  grind [sectorsToRead]

/-- The state after a chunk that the device delivered. -/
def afterChunk (disc : Disc) (content : ℕ → Sector) (st : State) (lsn n : ℕ) : State :=
  { (deviceReadSectorsPtr disc st lsn n).1 with err := .no, key := keyAfter content st lsn }

theorem inv_afterChunk (hc : disc.Has content) (hinv : Inv disc content st)
    (hp : st.probed = true) {lsn n : ℕ} (hlt : lsn + n < 2 ^ 32)
    (hserved : (deviceReadSectorsPtr disc st lsn n).1.unserved = false) :
    Inv disc content (afterChunk disc content st lsn n) := by
  obtain ⟨hready, -⟩ := deviceReadSectorsPtr_spec hc hinv.ready hp hlt hserved
  refine ⟨⟨hready.zso, hready.synced⟩, ?_⟩
  simp only [afterChunk, keyAfter]
  split_ifs
  · exact .inr rfl
  · exact hinv.key

theorem probed_afterChunk (hp : st.probed = true) (lsn n : ℕ) :
    (afterChunk disc content st lsn n).probed = true :=
  (deviceReadSectorsPtr_frame disc st lsn n).1.trans hp

theorem readLoop_of_error {lsn n : ℕ} (hn : n ≠ 0)
    (hd : (deviceReadSectorsPtr disc st lsn (sectorsToRead cfg n)).2.1 ≠ .no) :
    readLoop cfg disc st lsn n =
      ({ (deviceReadSectorsPtr disc st lsn (sectorsToRead cfg n)).1 with
          err := (deviceReadSectorsPtr disc st lsn (sectorsToRead cfg n)).2.1 }, []) := by
  rw [readLoop, dif_neg hn]
  simp only [ne_eq, hd, not_false_eq_true, if_true]

theorem readLoop_of_ok {lsn n : ℕ} (hn : n ≠ 0)
    (hd : (deviceReadSectorsPtr disc st lsn (sectorsToRead cfg n)).2.1 = .no)
    (hdata : (deviceReadSectorsPtr disc st lsn (sectorsToRead cfg n)).2.2 =
      (List.range (sectorsToRead cfg n)).map fun i => content (lsn + i)) :
    readLoop cfg disc st lsn n =
      ((readLoop cfg disc (afterChunk disc content st lsn (sectorsToRead cfg n))
          (lsn + sectorsToRead cfg n) (n - sectorsToRead cfg n)).1,
        ((List.range (sectorsToRead cfg n)).map fun i =>
          storedSector content (keyAfter content st lsn) lsn (lsn + i)) ++
        (readLoop cfg disc (afterChunk disc content st lsn (sectorsToRead cfg n))
          (lsn + sectorsToRead cfg n) (n - sectorsToRead cfg n)).2) := by
  have hk := @descrambleChunk_eq content st.key lsn _ (sectorsToRead_pos cfg hn)
  have hkey := (deviceReadSectorsPtr_frame disc st lsn (sectorsToRead cfg n)).2.1
  rw [readLoop, dif_neg hn]
  simp only [ne_eq, hd, not_true, if_false, hdata, hkey, hk]
  rfl

/-- Whatever a loop does, its first chunk is served when all of it is. -/
theorem unserved_of_readLoop {lsn n : ℕ} (h : (readLoop cfg disc st lsn n).1.unserved = false) :
    st.unserved = false ∧ (n ≠ 0 →
      (deviceReadSectorsPtr disc st lsn (sectorsToRead cfg n)).1.unserved = false) := by
  induction n using Nat.strong_induction_on generalizing st lsn with
  | _ n ih =>
    rw [readLoop] at h
    by_cases hn : n = 0
    · rw [dif_pos hn] at h
      exact ⟨h, fun hne => absurd hn hne⟩
    have hlt := sectorsToRead_pos cfg hn
    have hchunk : (deviceReadSectorsPtr disc st lsn (sectorsToRead cfg n)).1.unserved = false := by
      rw [dif_neg hn] at h
      dsimp only at h
      split_ifs at h
      · exact h
      · exact (ih _ (by omega) h).1
    exact ⟨unserved_of_deviceReadSectorsPtr hchunk, fun _ => hchunk⟩

theorem sectorsToRead_le (cfg : Config) (n : ℕ) : sectorsToRead cfg n ≤ n := by
  grind [sectorsToRead]

theorem readLoop_inv (hc : disc.Has content) {lsn n : ℕ} (hinv : Inv disc content st)
    (hp : st.probed = true) (hlt : lsn + n < 2 ^ 32)
    (hserved : (readLoop cfg disc st lsn n).1.unserved = false) :
    Inv disc content (readLoop cfg disc st lsn n).1 := by
  induction n using Nat.strong_induction_on generalizing st lsn with
  | _ n ih =>
    by_cases hn : n = 0
    · rw [readLoop, dif_pos hn]
      exact hinv
    have hle := sectorsToRead_le cfg n
    have hpos := sectorsToRead_pos cfg hn
    have hchunk := (unserved_of_readLoop hserved).2 hn
    obtain ⟨hready, hdata⟩ := deviceReadSectorsPtr_spec hc hinv.ready hp
      (show lsn + sectorsToRead cfg n < 2 ^ 32 by omega) hchunk
    by_cases hd : (deviceReadSectorsPtr disc st lsn (sectorsToRead cfg n)).2.1 = .no
    · rw [readLoop_of_ok hn hd (hdata hd)] at hserved ⊢
      exact ih _ (by omega) (inv_afterChunk hc hinv hp (by omega) hchunk)
        (probed_afterChunk hp _ _) (by omega) hserved
    · rw [readLoop_of_error hn hd]
      refine ⟨⟨hready.zso, hready.synced⟩, ?_⟩
      dsimp only
      rw [(deviceReadSectorsPtr_frame disc st lsn (sectorsToRead cfg n)).2.1]
      exact hinv.key

/-- The first chunk of a sequence cut into chunks of `W`, and the rest. -/
theorem map_range_chunk {α : Type*} (f : ℕ → ℕ → α) {W : ℕ} (hW : 0 < W) (n : ℕ) :
    (List.range n).map (fun i => f (W * (i / W)) i) =
      (List.range (min n W)).map (f 0) ++
        (List.range (n - min n W)).map fun i => f (min n W + W * (i / W)) (min n W + i) := by
  have hfirst : ∀ m ≤ W, (List.range m).map (fun i => f (W * (i / W)) i) =
      (List.range m).map (f 0) := by
    intro m hm
    refine List.map_congr_left fun i hi => ?_
    rw [Nat.div_eq_of_lt ((List.mem_range.mp hi).trans_le hm), Nat.mul_zero]
  rcases le_total n W with hn | hn
  · simp [Nat.min_eq_left hn, hfirst n hn]
  · obtain ⟨m, rfl⟩ := Nat.exists_eq_add_of_le hn
    rw [Nat.min_eq_right hn, List.range_add, List.map_append, hfirst W le_rfl, List.map_map,
      Nat.add_sub_cancel_left]
    congr 1
    refine List.map_congr_left fun i _ => ?_
    simp [Nat.add_div_left i hW, Nat.mul_add, Nat.add_comm]

/-- **The loop of `cdvdman_read_sectors`.** When no chunk failed, every sector is stored from the
chunk of `W` sectors that it falls into, with the key in force after the first chunk. -/
theorem readLoop_spec (hc : disc.Has content) {W lsn n : ℕ} (hinv : Inv disc content st)
    (hp : st.probed = true) (hlt : lsn + n < 2 ^ 32)
    (hserved : (readLoop cfg disc st lsn n).1.unserved = false) (hW : 0 < W)
    (hn : if cfg.accuReads then W = 8 else n ≤ W)
    (herr : (readLoop cfg disc st lsn n).1.err = .no) :
    (readLoop cfg disc st lsn n).2 = (List.range n).map (fun i =>
        storedSector content (keyAfter content st lsn) (lsn + W * (i / W)) (lsn + i)) ∧
      (readLoop cfg disc st lsn n).1.key = if n = 0 then st.key else keyAfter content st lsn := by
  induction n using Nat.strong_induction_on generalizing st lsn with
  | _ n ih =>
    by_cases hn0 : n = 0
    · rw [readLoop, dif_pos hn0]
      simp [hn0]
    have hle := sectorsToRead_le cfg n
    have hpos := sectorsToRead_pos cfg hn0
    have hchunk := (unserved_of_readLoop hserved).2 hn0
    obtain ⟨-, hdata⟩ := deviceReadSectorsPtr_spec hc hinv.ready hp
      (show lsn + sectorsToRead cfg n < 2 ^ 32 by omega) hchunk
    by_cases hd : (deviceReadSectorsPtr disc st lsn (sectorsToRead cfg n)).2.1 = .no
    · have hafter := inv_afterChunk hc hinv hp
        (show lsn + sectorsToRead cfg n < 2 ^ 32 by omega) hchunk
      rw [readLoop_of_ok hn0 hd (hdata hd)] at herr hserved ⊢
      obtain ⟨hrest, hkey⟩ := ih _ (by omega) hafter (probed_afterChunk hp _ _) (by omega) hserved
        (by grind) herr
      rw [hrest, hkey]
      have hafter : keyAfter content (afterChunk disc content st lsn (sectorsToRead cfg n))
          (lsn + sectorsToRead cfg n) = keyAfter content st lsn := by
        rw [keyAfter, if_neg (by omega)]
        rfl
      rw [hafter, sectorsToRead_eq hn]
      constructor
      · have := map_range_chunk
          (fun a i => storedSector content (keyAfter content st lsn) (lsn + a) (lsn + i)) hW n
        simp only [Nat.add_zero, ← Nat.add_assoc] at this
        exact this.symm
      · split_ifs <;> rfl
    · rw [readLoop_of_error hn0 hd] at herr
      exact absurd herr hd

/-! ### One call of `cdvdman_read_sectors` -/

/-- What the probe leaves alone. -/
theorem probe_frame (cfg : Config) (disc : Disc) (st : State) :
    (probe cfg disc st).1.key = st.key ∧ (probe cfg disc st).1.unserved = st.unserved ∧
      (probe cfg disc st).1.mediaLsnCount = st.mediaLsnCount ∧
      ((probe cfg disc st).2 = true → (probe cfg disc st).1.probed = true) := by
  rw [probe]
  by_cases hp : st.probed = true
  · rw [if_pos hp]
    exact ⟨rfl, rfl, rfl, fun _ => hp⟩
  rw [if_neg hp, probeZSO]
  by_cases he : (st.device 0).err = .no
  · cases hz : disc.isZso <;>
      simp only [State.ask, he, ne_eq, not_true, if_false, if_true, Bool.false_eq_true, true_and,
        implies_true]
  · simp only [State.ask, he, ne_eq, not_false_eq_true, if_true]
    exact ⟨trivial, trivial, trivial, by simp⟩

theorem probe_inv (cfg : Config) (hinv : Inv disc content st) :
    Inv disc content (probe cfg disc st).1 := by
  rw [probe]
  by_cases hp : st.probed = true
  · rw [if_pos hp]
    exact hinv
  have hzso : st.zso = none := by
    have := hinv.ready.zso
    rwa [Bool.eq_false_iff.mpr hp, Bool.false_and, Option.isSome_eq_false_iff,
      Option.isNone_iff_eq_none] at this
  rw [if_neg hp, probeZSO]
  by_cases he : (st.device 0).err = .no
  · cases hz : disc.isZso
    · simp only [State.ask, he, ne_eq, not_true, if_false, Bool.false_eq_true]
      exact ⟨⟨by simp [hzso, hz], hinv.ready.synced⟩, hinv.key⟩
    · simp only [State.ask, he, ne_eq, not_true, if_false, if_true]
      refine ⟨⟨by simp [hz], fun r hr I => ?_⟩, hinv.key⟩
      obtain rfl := Option.some.inj hr
      exact I.synced_zsoReader cfg (st.device 0).memory
  · simp only [State.ask, he, ne_eq, not_false_eq_true, if_true]
    exact ⟨⟨hinv.ready.zso, hinv.ready.synced⟩, hinv.key⟩

/-- The sectors that a call reads. -/
theorem limit_lt {lsn n : ℕ} (hlt : lsn + n < 2 ^ 32) :
    lsn + (if pastMedia st lsn n then st.mediaLsnCount - lsn else n) < 2 ^ 32 := by
  split_ifs with h
  · simp only [pastMedia, decide_eq_true_eq] at h
    omega
  · exact hlt

theorem unserved_of_readSectors {lsn n : ℕ}
    (h : (readSectors cfg disc st lsn n).1.unserved = false) : st.unserved = false := by
  obtain ⟨-, hun, -⟩ := probe_frame cfg disc st
  rw [readSectors] at h
  by_cases hm : st.mediaLsnCount ≠ 0 ∧ st.mediaLsnCount ≤ lsn
  · rw [if_pos hm] at h
    exact h
  rw [if_neg hm] at h
  rw [← hun]
  rcases hpr : probe cfg disc st with ⟨st₁, _ | _⟩ <;> rw [hpr] at h
  · exact h
  · exact (unserved_of_readLoop h).1

theorem readSectors_inv (hc : disc.Has content) (hinv : Inv disc content st) {lsn n : ℕ}
    (hlt : lsn + n < 2 ^ 32) (hserved : (readSectors cfg disc st lsn n).1.unserved = false) :
    Inv disc content (readSectors cfg disc st lsn n).1 := by
  have hi := probe_inv cfg hinv
  obtain ⟨-, -, -, hp⟩ := probe_frame cfg disc st
  rw [readSectors] at hserved ⊢
  by_cases hm : st.mediaLsnCount ≠ 0 ∧ st.mediaLsnCount ≤ lsn
  · rw [if_pos hm]
    exact ⟨⟨hinv.ready.zso, hinv.ready.synced⟩, hinv.key⟩
  rw [if_neg hm] at hserved ⊢
  rcases hpr : probe cfg disc st with ⟨st₁, _ | _⟩ <;> rw [hpr] at hi hp hserved
  · exact hi
  · have h₁ : Inv disc content { st₁ with err := .no } :=
      ⟨⟨hi.ready.zso, hi.ready.synced⟩, hi.key⟩
    have := readLoop_inv hc h₁ (hp rfl) (limit_lt hlt) hserved
    exact ⟨⟨this.ready.zso, this.ready.synced⟩, this.key⟩

/-- **One call of `cdvdman_read_sectors`.** -/
theorem readSectors_spec (hc : disc.Has content) {W lsn n : ℕ} {data : List Sector}
    (hinv : Inv disc content st) (hlt : lsn + n < 2 ^ 32)
    (hserved : (readSectors cfg disc st lsn n).1.unserved = false) (hW : 0 < W)
    (hn : if cfg.accuReads then W = 8 else n ≤ W)
    (h : (readSectors cfg disc st lsn n).2 = some data) :
    data = (List.range n).map (fun i =>
        storedSector content (keyAfter content st lsn) (lsn + W * (i / W)) (lsn + i)) ∧
      (readSectors cfg disc st lsn n).1.key =
        if n = 0 then st.key else keyAfter content st lsn := by
  have hi := probe_inv cfg hinv
  obtain ⟨hk, -, -, hp⟩ := probe_frame cfg disc st
  rw [readSectors] at h hserved ⊢
  by_cases hm : st.mediaLsnCount ≠ 0 ∧ st.mediaLsnCount ≤ lsn
  · rw [if_pos hm] at h
    cases h
  rw [if_neg hm] at h hserved ⊢
  rcases hpr : probe cfg disc st with ⟨st₁, _ | _⟩ <;> rw [hpr] at h hi hk hp hserved
  · cases h
  cases he : pastMedia st lsn n with
  | true => simp [he] at h
  | false =>
    simp only [he, Bool.false_eq_true, if_false, if_true] at h hserved ⊢
    split_ifs at h with herr
    cases h
    have h₁ : Inv disc content { st₁ with err := .no } :=
      ⟨⟨hi.ready.zso, hi.ready.synced⟩, hi.key⟩
    have hkey : keyAfter content { st₁ with err := .no } lsn = keyAfter content st lsn := by
      simp only [keyAfter]
      rw [← hk]
    have := readLoop_spec hc h₁ (hp rfl) hlt hserved hW hn herr
    rw [hkey] at this
    exact ⟨this.1, this.2.trans (by rw [← hk])⟩

/-! ### A request -/

/-- How many sectors a request reads with one call of the device. -/
def Request.width (cfg : Config) (r : Request) : ℕ :=
  if r.bounced then r.bounceSectors cfg else if cfg.accuReads then 8 else r.sectors

/-- The first sector of the chunk that reads sector `s`. -/
def Request.chunkStart (cfg : Config) (r : Request) (s : ℕ) : ℕ :=
  r.lsn + r.width cfg * ((s - r.lsn) / r.width cfg)

theorem unserved_of_bounceLoop {r : Request} {rpos n : ℕ}
    (h : (bounceLoop cfg disc r st rpos n).1.unserved = false) :
    st.unserved = false ∧ (n ≠ 0 →
      (readSectors cfg disc st rpos (min n (r.bounceSectors cfg))).1.unserved = false) := by
  induction n using Nat.strong_induction_on generalizing st rpos with
  | _ n ih =>
    rw [bounceLoop] at h
    by_cases hn : n = 0
    · rw [dif_pos hn] at h
      exact ⟨h, fun hne => absurd hn hne⟩
    · have := r.bounceSectors_pos cfg
      rw [dif_neg hn] at h
      obtain ⟨hpiece, -⟩ := ih _ (by omega) h
      exact ⟨unserved_of_readSectors hpiece, fun _ => hpiece⟩

theorem bounceLoop_inv (hc : disc.Has content) {r : Request} (hinv : Inv disc content st)
    {rpos n : ℕ} (hlt : rpos + n < 2 ^ 32)
    (hserved : (bounceLoop cfg disc r st rpos n).1.unserved = false) :
    Inv disc content (bounceLoop cfg disc r st rpos n).1 := by
  induction n using Nat.strong_induction_on generalizing st rpos with
  | _ n ih =>
    by_cases hn : n = 0
    · rw [bounceLoop, dif_pos hn]
      exact hinv
    · have := r.bounceSectors_pos cfg
      have hpiece := (unserved_of_bounceLoop hserved).2 hn
      rw [bounceLoop, dif_neg hn] at hserved ⊢
      exact ih _ (by omega) (readSectors_inv hc hinv (by omega) hpiece) (by omega) hserved

/-- A piece that fits the bounce buffer is read in one chunk. -/
theorem readSectors_piece (hc : disc.Has content) {r : Request} {rpos n : ℕ} {data : List Sector}
    (hinv : Inv disc content st) (hlt : rpos + n < 2 ^ 32)
    (hserved : (readSectors cfg disc st rpos n).1.unserved = false) (hn0 : n ≠ 0)
    (hn : n ≤ r.bounceSectors cfg) (h : (readSectors cfg disc st rpos n).2 = some data) :
    data = (List.range n).map (fun i =>
        storedSector content (keyAfter content st rpos) rpos (rpos + i)) ∧
      (readSectors cfg disc st rpos n).1.key = keyAfter content st rpos := by
  have h2 : r.bounceSectors cfg ≤ 2 := by grind [Request.bounceSectors, Config.bufSectors]
  obtain ⟨hdata, hkey⟩ := readSectors_spec (W := if cfg.accuReads then 8 else n) hc hinv hlt
    hserved (by split_ifs <;> omega) (by split_ifs <;> simp) h
  rw [if_neg hn0] at hkey
  refine ⟨hdata.trans (List.map_congr_left fun i hi => ?_), hkey⟩
  have hlt : i < if cfg.accuReads then 8 else n := by
    have := List.mem_range.mp hi
    split_ifs <;> omega
  rw [Nat.div_eq_of_lt hlt, Nat.mul_zero, Nat.add_zero]

theorem bounceLoop_spec (hc : disc.Has content) {r : Request} {rpos n : ℕ} {slots : List Slot}
    (hinv : Inv disc content st) (hlt : rpos + n < 2 ^ 32)
    (hserved : (bounceLoop cfg disc r st rpos n).1.unserved = false)
    (h : (bounceLoop cfg disc r st rpos n).2 = some slots) :
    slots.map Slot.data = (List.range n).map (fun i =>
        storedSector content (keyAfter content st rpos)
          (rpos + r.bounceSectors cfg * (i / r.bounceSectors cfg)) (rpos + i)) := by
  induction n using Nat.strong_induction_on generalizing st rpos slots with
  | _ n ih =>
    have hb := r.bounceSectors_pos cfg
    by_cases hn : n = 0
    · rw [bounceLoop, dif_pos hn] at h
      cases h
      simp [hn]
    · have hpiece := (unserved_of_bounceLoop hserved).2 hn
      rw [bounceLoop, dif_neg hn] at h hserved
      dsimp only at h
      rcases hd : (readSectors cfg disc st rpos (min n (r.bounceSectors cfg))).2 with _ | data
      · simp [hd] at h
      rcases hr : (bounceLoop cfg disc r
          (readSectors cfg disc st rpos (min n (r.bounceSectors cfg))).1
          (rpos + min n (r.bounceSectors cfg)) (n - min n (r.bounceSectors cfg))).2 with _ | rest
      · simp [hd, hr] at h
      obtain ⟨hdata, hkey⟩ := readSectors_piece hc hinv (by omega) hpiece (by omega)
        (min_le_right _ _) hd
      have hrest := ih _ (by omega) (readSectors_inv hc hinv (by omega) hpiece) (by omega) hserved
        hr
      rw [keyAfter, if_neg (by omega), hkey] at hrest
      simp only [hd, hr, Option.pure_def, Option.bind_eq_bind, Option.bind_some,
        Option.some.injEq] at h
      have hslot : ∀ lsn, (Slot.data ∘ r.slot lsn) = id := fun lsn => rfl
      rw [← h, List.map_append, List.map_map, hslot, List.map_id, hrest, hdata]
      have := map_range_chunk
        (fun a i => storedSector content (keyAfter content st rpos) (rpos + a) (rpos + i)) hb n
      simp only [Nat.add_zero, ← Nat.add_assoc] at this
      exact this.symm

theorem unserved_of_read {r : Request} (h : (read cfg disc st r).1.unserved = false) :
    st.unserved = false := by
  rw [read] at h
  split_ifs at h
  · exact (unserved_of_bounceLoop h).1
  · exact unserved_of_readSectors h

theorem read_inv (hc : disc.Has content) (hinv : Inv disc content st) {r : Request}
    (hserved : (read cfg disc st r).1.unserved = false) :
    Inv disc content (read cfg disc st r).1 := by
  rw [read] at hserved ⊢
  split_ifs at hserved ⊢
  · exact bounceLoop_inv hc hinv r.lsn_add_sectors_lt hserved
  · exact readSectors_inv hc hinv r.lsn_add_sectors_lt hserved

/-- What holds in every run, until a call of the ZSO reader is not served. -/
theorem Reachable.inv (hc : disc.Has content) (h : Reachable cfg disc st)
    (hserved : st.unserved = false) : Inv disc content st := by
  obtain ⟨device, events, hrun⟩ := h
  have hstep : ∀ s e s', (s.unserved = false → Inv disc content s) → True →
      step cfg disc s e = some s' → s'.unserved = false → Inv disc content s' := by
    rintro s (r | lsnCount) s' hs - h hserved
    · cases h
      exact read_inv hc (hs (unserved_of_read hserved)) hserved
    · cases h
      exact ⟨⟨(hs hserved).ready.zso, (hs hserved).ready.synced⟩, (hs hserved).key⟩
  have hinit : Inv disc content (initState device) := ⟨⟨rfl, fun r hr => by cases hr⟩, .inl rfl⟩
  exact Transition.run_invariant hstep (fun _ => hinit) (fun _ _ => trivial) hrun hserved

/-- **What a successful request stores for a sector.** -/
theorem read_spec (hc : disc.Has content) {r : Request} {slots : List Slot}
    (hinv : Inv disc content st) (hserved : (read cfg disc st r).1.unserved = false)
    (h : (read cfg disc st r).2 = some slots) :
    slots.map Slot.data = (List.range r.sectors).map (fun i =>
        storedSector content (keyAfter content st r.lsn)
          (r.lsn + r.width cfg * (i / r.width cfg)) (r.lsn + i)) := by
  have hslot : ∀ lsn, (Slot.data ∘ r.slot lsn) = id := fun lsn => rfl
  have hlt := r.lsn_add_sectors_lt
  rw [read] at h hserved
  by_cases hb : r.bounced = true
  · rw [if_pos hb] at h hserved
    rw [Request.width, if_pos hb]
    exact bounceLoop_spec hc hinv hlt hserved h
  · rw [if_neg hb] at h hserved
    rw [Request.width, if_neg hb]
    obtain ⟨data, hdata, rfl⟩ := Option.map_eq_some_iff.mp h
    rw [List.map_map, hslot, List.map_id]
    rcases Nat.eq_zero_or_pos r.sectors with h0 | hpos
    · rw [h0] at hdata hserved ⊢
      exact (readSectors_spec (W := 8) hc hinv (by omega) hserved (by omega) (by simp) hdata).1
    · exact (readSectors_spec hc hinv hlt hserved (by split_ifs <;> omega)
        (by split_ifs <;> simp) hdata).1

/-! ### Reads that succeed -/

/-- The device will not fail. -/
def Healthy (st : State) : Prop := ∀ n, (st.device n).err = .no

/-- The reads below the end of the media. -/
def WithinMedia (st : State) (lsn n : ℕ) : Prop :=
  st.mediaLsnCount = 0 ∨ lsn + n ≤ st.mediaLsnCount

/-- The reads below the end of a compressed image, in chunks that its reader serves. -/
def WithinImage (disc : Disc) (content : ℕ → Sector) (lsn n W : ℕ) : Prop :=
  disc.isZso = true → ∃ I : Image disc content, lsn + n ≤ I.total ∧ W ≤ 256

theorem WithinImage.mono {lsn lsn' n n' W : ℕ} (h : WithinImage disc content lsn n W)
    (hle : lsn' + n' ≤ lsn + n) : WithinImage disc content lsn' n' W := by
  intro hz
  obtain ⟨I, hI, hW⟩ := h hz
  exact ⟨I, hle.trans hI, hW⟩

theorem deviceReadSectorsPtr_healthy {lsn n W : ℕ} (hst : Ready disc content st)
    (hp : st.probed = true) (hd : Healthy st) (hn : 0 < n) (hnW : n ≤ W)
    (hlt : lsn + n < 2 ^ 32) (hI : WithinImage disc content lsn n W) :
    (deviceReadSectorsPtr disc st lsn n).2.1 = .no ∧
      (deviceReadSectorsPtr disc st lsn n).1.unserved = st.unserved := by
  have hzso := hst.zso
  rw [hp, Bool.true_and] at hzso
  rw [deviceReadSectorsPtr]
  rcases hz : st.zso with _ | r
  · simp only [State.ask, hz, hd 0, and_self]
  · rw [hz, Option.isSome_some] at hzso
    obtain ⟨I, hle, hW⟩ := hI hzso.symm
    have hsync := hst.synced r hz I
    have hcount : zisoCount I.total lsn n = n := by
      rw [zisoCount, if_neg (by omega), Zso.clampCount, Nat.mod_eq_of_lt hlt, if_neg (by omega)]
    have hserves : (st.device 0).serves r lsn n = true := by
      rw [Answer.serves, hd 0, hsync.totalBlock, hcount]
      simpa using hnW.trans hW
    obtain ⟨r', hread, -⟩ := I.zisoReadSector_eq hsync hserves hlt
    simp only [State.ask, hz, deviceReadSectorsCompressed, hread, hcount, hserves, if_true,
      Bool.not_true, Bool.or_false, and_self]

theorem readLoop_healthy (hc : disc.Has content) {W lsn n : ℕ} (hinv : Inv disc content st)
    (hp : st.probed = true) (hd : Healthy st) (he : st.err = .no) (hun : st.unserved = false)
    (hlt : lsn + n < 2 ^ 32) (hn : if cfg.accuReads then W = 8 else n ≤ W)
    (hI : WithinImage disc content lsn n W) :
    (readLoop cfg disc st lsn n).1.err = .no ∧ (readLoop cfg disc st lsn n).1.unserved = false ∧
      Healthy (readLoop cfg disc st lsn n).1 ∧
      (readLoop cfg disc st lsn n).1.mediaLsnCount = st.mediaLsnCount := by
  induction n using Nat.strong_induction_on generalizing st lsn with
  | _ n ih =>
    by_cases hn0 : n = 0
    · rw [readLoop, dif_pos hn0]
      exact ⟨he, hun, hd, rfl⟩
    have hpos := sectorsToRead_pos cfg hn0
    have hle := sectorsToRead_le cfg n
    have hwidth : sectorsToRead cfg n ≤ W := by
      rw [sectorsToRead_eq hn]
      exact min_le_right _ _
    obtain ⟨herr, hun'⟩ := deviceReadSectorsPtr_healthy hinv.ready hp hd hpos hwidth (by omega)
      (hI.mono (show lsn + sectorsToRead cfg n ≤ lsn + n by omega))
    have hchunk := hun'.trans hun
    obtain ⟨-, hdata⟩ := deviceReadSectorsPtr_spec hc hinv.ready hp
      (show lsn + sectorsToRead cfg n < 2 ^ 32 by omega) hchunk
    obtain ⟨-, -, hmedia, hdevice⟩ := deviceReadSectorsPtr_frame disc st lsn (sectorsToRead cfg n)
    have hd' : Healthy (afterChunk disc content st lsn (sectorsToRead cfg n)) := by
      intro k
      change (((deviceReadSectorsPtr disc st lsn (sectorsToRead cfg n)).1.device) k).err = .no
      rw [hdevice]
      exact hd (k + 1)
    rw [readLoop_of_ok hn0 herr (hdata herr)]
    obtain ⟨h₁, h₂, h₃, h₄⟩ := ih _ (by omega) (inv_afterChunk hc hinv hp (by omega) hchunk)
      (probed_afterChunk hp _ _) hd' rfl hchunk (by omega) (by grind)
      (hI.mono (show lsn + sectorsToRead cfg n + (n - sectorsToRead cfg n) ≤ lsn + n by omega))
    exact ⟨h₁, h₂, h₃, h₄.trans hmedia⟩

theorem probe_healthy (cfg : Config) (disc : Disc) (hd : Healthy st) :
    (probe cfg disc st).2 = true ∧ Healthy (probe cfg disc st).1 := by
  rw [probe, probeZSO]
  have hd' : ∀ n, (st.device (n + 1)).err = .no := fun n => hd (n + 1)
  cases hpr : st.probed <;> cases hz : disc.isZso <;>
    simp only [State.ask, hd 0, ne_eq, not_true, if_false, if_true, Bool.false_eq_true]
  · exact ⟨trivial, hd'⟩
  · exact ⟨trivial, hd'⟩
  · exact ⟨trivial, hd⟩
  · exact ⟨trivial, hd⟩

theorem readSectors_healthy (hc : disc.Has content) {W lsn n : ℕ} (hinv : Inv disc content st)
    (hd : Healthy st) (hun : st.unserved = false) (hlt : lsn + n < 2 ^ 32) (hn0 : n ≠ 0)
    (hn : if cfg.accuReads then W = 8 else n ≤ W) (hm : WithinMedia st lsn n)
    (hI : WithinImage disc content lsn n W) :
    (readSectors cfg disc st lsn n).2.isSome ∧
      (readSectors cfg disc st lsn n).1.unserved = false ∧
      Healthy (readSectors cfg disc st lsn n).1 ∧
      (readSectors cfg disc st lsn n).1.mediaLsnCount = st.mediaLsnCount := by
  have h₁ : ¬ (st.mediaLsnCount ≠ 0 ∧ st.mediaLsnCount ≤ lsn) := by
    unfold WithinMedia at hm
    omega
  have h₂ : pastMedia st lsn n = false := by
    unfold WithinMedia at hm
    simp only [pastMedia, decide_eq_false_iff_not]
    omega
  have hi := probe_inv cfg hinv
  obtain ⟨-, hun', hmedia, hp⟩ := probe_frame cfg disc st
  obtain ⟨hok, hd'⟩ := probe_healthy cfg disc hd
  rw [readSectors, if_neg h₁]
  rcases hpr : probe cfg disc st with ⟨st₁, ok⟩
  rw [hpr] at hi hp hun' hmedia hok hd'
  obtain rfl : ok = true := hok
  have hinv₁ : Inv disc content { st₁ with err := .no } :=
    ⟨⟨hi.ready.zso, hi.ready.synced⟩, hi.key⟩
  obtain ⟨herr, hun₁, hd₁, hmedia₁⟩ := readLoop_healthy hc hinv₁ (hp rfl) hd' rfl
    (hun'.trans hun) hlt hn hI
  simp only [h₂, Bool.false_eq_true, if_false, if_true, herr, Option.isSome_some, true_and]
  exact ⟨hun₁, hd₁, hmedia₁.trans hmedia⟩

theorem bounceLoop_healthy (hc : disc.Has content) {r : Request} {rpos n : ℕ}
    (hinv : Inv disc content st) (hd : Healthy st) (hun : st.unserved = false)
    (hlt : rpos + n < 2 ^ 32) (hm : WithinMedia st rpos n)
    (hI : WithinImage disc content rpos n 8) :
    (bounceLoop cfg disc r st rpos n).2.isSome ∧
      (bounceLoop cfg disc r st rpos n).1.unserved = false := by
  induction n using Nat.strong_induction_on generalizing st rpos with
  | _ n ih =>
    rw [bounceLoop]
    by_cases hn : n = 0
    · rw [dif_pos hn]
      exact ⟨rfl, hun⟩
    · have hb := r.bounceSectors_pos cfg
      have h2 : r.bounceSectors cfg ≤ 2 := by grind [Request.bounceSectors, Config.bufSectors]
      have hpiece : WithinMedia st rpos (min n (r.bounceSectors cfg)) := by
        rw [WithinMedia] at hm ⊢
        omega
      obtain ⟨hok, hun₁, hd₁, hmedia⟩ := @readSectors_healthy cfg disc content st hc 8 rpos
        (min n (r.bounceSectors cfg)) hinv hd hun (by omega) (by omega) (by split_ifs <;> omega)
        hpiece (hI.mono (by omega))
      have hrest : WithinMedia (readSectors cfg disc st rpos (min n (r.bounceSectors cfg))).1
          (rpos + min n (r.bounceSectors cfg)) (n - min n (r.bounceSectors cfg)) := by
        rw [WithinMedia] at hm ⊢
        rw [hmedia]
        omega
      obtain ⟨hok', hun'⟩ := ih _ (by omega) (readSectors_inv hc hinv (by omega) hun₁) hd₁ hun₁
        (show rpos + min n (r.bounceSectors cfg) + (n - min n (r.bounceSectors cfg)) < 2 ^ 32 by
          omega) hrest (hI.mono (by omega))
      obtain ⟨data, hdata⟩ := Option.isSome_iff_exists.mp hok
      obtain ⟨rest, hrest⟩ := Option.isSome_iff_exists.mp hok'
      refine ⟨?_, ?_⟩
      · simp [hn, hdata, hrest]
      · simpa [hn] using hun'

/-- **A request below the end of the media succeeds when the device does**, and on a compressed
disc when it is also below the end of the image, in chunks of at most 256 sectors. -/
theorem read_isSome (hc : disc.Has content) {r : Request} (hinv : Inv disc content st)
    (hd : Healthy st) (hun : st.unserved = false) (hr : r.sectors ≠ 0)
    (hm : WithinMedia st r.lsn r.sectors)
    (hI : WithinImage disc content r.lsn r.sectors (max 8 (r.width cfg))) :
    (read cfg disc st r).2.isSome ∧ (read cfg disc st r).1.unserved = false := by
  have hlt := r.lsn_add_sectors_lt
  rw [read]
  by_cases hb : r.bounced = true
  · rw [if_pos hb]
    refine bounceLoop_healthy hc hinv hd hun hlt hm fun hz => ?_
    obtain ⟨I, hle, hW⟩ := hI hz
    exact ⟨I, hle, by decide⟩
  · rw [if_neg hb]
    have hwidth : if cfg.accuReads then r.width cfg = 8 else r.sectors ≤ r.width cfg := by
      rw [Request.width, if_neg hb]
      split_ifs <;> simp
    obtain ⟨hok, hun', -⟩ := readSectors_healthy hc hinv hd hun hlt hr hwidth hm fun hz => by
      obtain ⟨I, hle, hW⟩ := hI hz
      exact ⟨I, hle, (le_max_right _ _).trans hW⟩
    exact ⟨by simpa using hok, hun'⟩

/-! ### Two requests -/

/-- The request reads sector `s`. -/
def Request.Covers (r : Request) (s : ℕ) : Prop := r.lsn ≤ s ∧ s < r.lsn + r.sectors

/-- The bytes a request stores for sector `s`, when it succeeds. -/
def storedAt (cfg : Config) (disc : Disc) (st : State) (r : Request) (s : ℕ) : Option Sector :=
  (read cfg disc st r).2.bind fun slots => slots[s - r.lsn]?.map Slot.data

/-- The logo descrambler is run over sector `s`: the chunk that reads it starts below sector 13,
and the key was taken before, or is taken by this request. -/
def Request.Descrambled (cfg : Config) (st : State) (r : Request) (s : ℕ) : Prop :=
  r.chunkStart cfg s < 13 ∧ (r.lsn = 0 ∨ st.key ≠ 0)

instance (cfg : Config) (st : State) (r : Request) (s : ℕ) :
    Decidable (r.Descrambled cfg st s) := inferInstanceAs (Decidable (_ ∧ _))

/-- Sector `s` as the game is meant to see it: the logo occupies the first 12 sectors. -/
def unscrambled (content : ℕ → Sector) (s : ℕ) : Sector :=
  if s < 12 ∧ logoKey content ≠ 0 then descramble (logoKey content) (content s) else content s

theorem storedSector_eq (hinv : Inv disc content st) (r : Request) (s : ℕ) :
    storedSector content (keyAfter content st r.lsn) (r.chunkStart cfg s) s =
      if r.Descrambled cfg st s ∧ logoKey content ≠ 0 then descramble (logoKey content) (content s)
      else content s := by
  have hkey : keyAfter content st r.lsn ≠ 0 ↔ (r.lsn = 0 ∨ st.key ≠ 0) ∧ logoKey content ≠ 0 := by
    rw [keyAfter]
    rcases hinv.key with hk | hk <;> split_ifs with h0 <;> simp [h0, hk]
  have hval : keyAfter content st r.lsn ≠ 0 → keyAfter content st r.lsn = logoKey content := by
    rw [keyAfter]
    rcases hinv.key with hk | hk <;> split_ifs <;> simp [hk]
  have hiff : r.chunkStart cfg s < 13 ∧ keyAfter content st r.lsn ≠ 0 ↔
      r.Descrambled cfg st s ∧ logoKey content ≠ 0 := by
    rw [hkey, ← and_assoc]
    rfl
  rw [storedSector]
  by_cases h : r.chunkStart cfg s < 13 ∧ keyAfter content st r.lsn ≠ 0
  · rw [if_pos h, if_pos (hiff.mp h), hval h.2]
  · rw [if_neg h, if_neg (mt hiff.mpr h)]

/-- **What a successful request stores for a sector it covers.** -/
theorem storedAt_eq (hc : disc.Has content) {r : Request} {s : ℕ} (hinv : Inv disc content st)
    (hok : (read cfg disc st r).2.isSome) (hserved : (read cfg disc st r).1.unserved = false)
    (hs : r.Covers s) :
    storedAt cfg disc st r s =
      some (if r.Descrambled cfg st s ∧ logoKey content ≠ 0 then
        descramble (logoKey content) (content s) else content s) := by
  obtain ⟨slots, hslots⟩ := Option.isSome_iff_exists.mp hok
  obtain ⟨hle, hlt⟩ := hs
  have hi : s - r.lsn < r.sectors := by omega
  rw [storedAt, hslots, Option.bind_some, ← List.getElem?_map, read_spec hc hinv hserved hslots,
    List.getElem?_map, List.getElem?_range hi, Option.map_some, Nat.add_sub_cancel' hle,
    ← storedSector_eq hinv]
  rfl

theorem ite_eq_ite_iff_of_ne {α : Type*} {a b : α} {p q : Prop} [Decidable p] [Decidable q]
    (hab : a ≠ b) : (if p then a else b) = (if q then a else b) ↔ (p ↔ q) := by
  by_cases hp : p <;> by_cases hq : q <;> simp [hp, hq, hab, hab.symm]

/-- **When two requests store the same bytes.** Up to the first call of the ZSO reader that is not
served, and in any two states the reader can reach on a disc, two successful requests that cover
sector `s` store the same bytes for it exactly when the logo of the disc is not scrambled, or the
descrambler leaves the sector as it is, or it is run over the sector by both requests or by neither;
and a request stores the sector as it is meant to be seen exactly when, for such a disc and sector,
it is run over it just if the sector is one of the first 12. -/
theorem storedAt_eq_iff (hc : disc.Has content) {σ σ' : State} (hσ : Reachable cfg disc σ)
    (hσ' : Reachable cfg disc σ') {r r' : Request} {s : ℕ} (hs : r.Covers s) (hs' : r'.Covers s)
    (hok : (read cfg disc σ r).2.isSome) (hok' : (read cfg disc σ' r').2.isSome)
    (hserved : (read cfg disc σ r).1.unserved = false)
    (hserved' : (read cfg disc σ' r').1.unserved = false) :
    (storedAt cfg disc σ r s = storedAt cfg disc σ' r' s ↔
        logoKey content = 0 ∨ descramble (logoKey content) (content s) = content s ∨
          (r.Descrambled cfg σ s ↔ r'.Descrambled cfg σ' s)) ∧
      (storedAt cfg disc σ r s = some (unscrambled content s) ↔
        logoKey content = 0 ∨ descramble (logoKey content) (content s) = content s ∨
          (r.Descrambled cfg σ s ↔ s < 12)) := by
  have hinv := hσ.inv hc (unserved_of_read hserved)
  have hinv' := hσ'.inv hc (unserved_of_read hserved')
  rw [storedAt_eq hc hinv hok hserved hs, storedAt_eq hc hinv' hok' hserved' hs', unscrambled,
    Option.some.injEq, Option.some.injEq]
  by_cases hk : logoKey content = 0
  · simp [hk]
  by_cases hd : descramble (logoKey content) (content s) = content s
  · simp [hd]
  · simp only [hk, hd, ne_eq, not_false_eq_true, and_true, false_or, ite_eq_ite_iff_of_ne hd,
      and_self]

/-! ### Two discs of 16 sectors -/

/-- A build without the compatibility mode, with the small bounce buffer and a cache of 8
sectors. -/
def plainConfig : Config := { accuReads := false, hddBuffer := false, sectorCache := 8 }

/-- A device that does not fail. -/
def goodDevice : ℕ → Answer := fun _ =>
  { err := .no, memory := fun _ => 0
    stray := (⟨0, 0, 0, [], [], SectorCache.initCache 0 fun _ => []⟩, []) }

/-- The first 16 sectors, to an aligned buffer. -/
def firstSectors : Request :=
  { lsn := 0, sectors := 16, sectorSize := 2048, buf := 0
    lsn_add_sectors_lt := by decide, sectors_lt := by decide }

/-- Sector 15 alone, to an aligned buffer. -/
def lastSector : Request :=
  { lsn := 15, sectors := 1, sectorSize := 2048, buf := 0
    lsn_add_sectors_lt := by decide, sectors_lt := by decide }

theorem covers_firstSectors : firstSectors.Covers 15 := ⟨by decide, by decide⟩

theorem covers_lastSector : lastSector.Covers 15 := ⟨by decide, by decide⟩

/-- The reader after `firstSectors`, the first request it serves. -/
def afterFirst (disc : Disc) : State :=
  (read plainConfig disc (initState goodDevice) firstSectors).1

theorem reachable_init (disc : Disc) : Reachable plainConfig disc (initState goodDevice) :=
  ⟨goodDevice, [], rfl⟩

theorem reachable_afterFirst (disc : Disc) : Reachable plainConfig disc (afterFirst disc) :=
  ⟨goodDevice, [.read firstSectors], rfl⟩

theorem firstSectors_isSome (hc : disc.Has content) (hI : WithinImage disc content 0 16 16) :
    (read plainConfig disc (initState goodDevice) firstSectors).2.isSome ∧
      (read plainConfig disc (initState goodDevice) firstSectors).1.unserved = false :=
  read_isSome hc ((reachable_init disc).inv hc rfl) (fun _ => rfl) rfl (by decide) (.inl rfl) hI

theorem lastSector_isSome (hc : disc.Has content) (hI : WithinImage disc content 0 16 16) :
    (read plainConfig disc (afterFirst disc) lastSector).2.isSome ∧
      (read plainConfig disc (afterFirst disc) lastSector).1.unserved = false := by
  obtain ⟨-, hun, hd, hm⟩ := @readSectors_healthy plainConfig disc content _ hc 16 0 16
    ((reachable_init disc).inv hc rfl) (fun _ => rfl) rfl (by decide) (by decide) (by decide)
    (.inl rfl) hI
  have hinv := (reachable_afterFirst disc).inv hc hun
  refine read_isSome hc hinv hd hun (by decide) (.inl hm) fun hz => ?_
  obtain ⟨I, hle, -⟩ := hI hz
  exact ⟨I, hle, by decide⟩

/-- An ISO of 16 sectors, packed: both requests go through the ZSO reader, and sector 15 is stored
in two ways. -/
theorem storedAt_eq_iff_sampleIso : ∃ file,
    Zso.compressZso Zso.sampleCodec 95 0x58 (Zso.sampleIso 8) = some file ∧
      (Disc.ofFile file).isZso = true ∧
      (storedAt plainConfig (Disc.ofFile file) (initState goodDevice) firstSectors 15 =
          storedAt plainConfig (Disc.ofFile file) (afterFirst (Disc.ofFile file)) lastSector 15 ↔
        logoKey (isoContent (Zso.sampleIso 8)) = 0 ∨
          descramble (logoKey (isoContent (Zso.sampleIso 8))) (isoContent (Zso.sampleIso 8) 15) =
            isoContent (Zso.sampleIso 8) 15 ∨
          (firstSectors.Descrambled plainConfig (initState goodDevice) 15 ↔
            lastSector.Descrambled plainConfig (afterFirst (Disc.ofFile file)) 15)) := by
  obtain ⟨file, hfile, -⟩ := Zso.exists_compress_sampleIso (n := 8) (by decide)
  obtain ⟨hzso, I, htotal⟩ := exists_image_of_packed Lz4.packs_packRun _ (by decide)
    (by rw [Zso.length_sampleIso]; decide) hfile
  rw [Zso.sectors_sampleIso] at htotal
  have hc : (Disc.ofFile file).Has (isoContent (Zso.sampleIso 8)) := by
    rw [Disc.Has, if_pos hzso]
    exact ⟨I⟩
  have hI : WithinImage (Disc.ofFile file) (isoContent (Zso.sampleIso 8)) 0 16 16 :=
    fun _ => ⟨I, by omega, by decide⟩
  obtain ⟨hok, hserved⟩ := firstSectors_isSome hc hI
  obtain ⟨hok', hserved'⟩ := lastSector_isSome hc hI
  exact ⟨file, hfile, hzso, (storedAt_eq_iff hc (reachable_init _) (reachable_afterFirst _)
    covers_firstSectors covers_lastSector hok hok' hserved hserved').1⟩

/-- A disc that holds the byte `1` everywhere. -/
def onesDisc : Disc := ⟨fun _ => 1⟩

theorem has_onesDisc : onesDisc.Has fun _ _ => 1 := rfl

theorem withinImage_onesDisc : WithinImage onesDisc (fun _ _ => 1) 0 16 16 := fun hz => by cases hz

/-- Sector 15 comes out descrambled when it is read with the first sectors of the disc, and as it
is on the disc when it is read alone after that. -/
theorem not_storedAt_eq :
    storedAt plainConfig onesDisc (initState goodDevice) firstSectors 15 = some (fun _ => 0) ∧
      storedAt plainConfig onesDisc (afterFirst onesDisc) lastSector 15 = some (fun _ => 1) := by
  obtain ⟨hok, hserved⟩ := firstSectors_isSome has_onesDisc withinImage_onesDisc
  obtain ⟨hok', hserved'⟩ := lastSector_isSome has_onesDisc withinImage_onesDisc
  have hinv := (reachable_init onesDisc).inv has_onesDisc rfl
  have hinv' := (reachable_afterFirst onesDisc).inv has_onesDisc hserved
  have hd : descramble (logoKey fun _ _ => 1) (fun _ => 1) = fun _ => 0 :=
    funext fun _ => show descrambleByte 1 1 = 0 by decide
  rw [storedAt_eq has_onesDisc hinv hok hserved covers_firstSectors,
    storedAt_eq has_onesDisc hinv' hok' hserved' covers_lastSector, hd]
  refine ⟨?_, ?_⟩
  · rw [if_pos ⟨⟨by decide, .inl rfl⟩, by decide⟩]
  · rw [if_neg]
    rintro ⟨⟨h, -⟩, -⟩
    exact absurd h (by decide)

end Read

end OpenPS2Loader
