import Mathlib.Data.Stream.Init
import Mathlib.Tactic.SplitIfs
import OpenPS2Loader.Cdvdman.ReadImage

/-!
# What a disc read reports

`cdvdman_read` returns nothing: what the game learns of a read is `cdvdman_stat.err`. This file
follows that variable, and which of the requested sectors the device delivered, for a device in
which any sectors may be bad.

The reader of a compressed disc drops the errors of the device. What it reports is only whether the
sectors are in the image, and a call for more sectors than its index cache has entries for reads
something else.

On the aligned path one call of `cdvdman_read_sectors` serves the whole request, and its loop stops
at the first chunk that fails. On the bounce path each piece of one or two sectors is a call of its
own, which clears the variable again: the variable speaks of the last piece only. On both paths a
failed probe for the compressed format leaves whatever was in it before.

## Main definitions

* `Device` — which sectors the device fails to read
* `readSectors`, `read` — `cdvdman_read_sectors` and `cdvdman_read`, and the sectors delivered
* `Reports` — the variable is clear exactly when every requested sector was delivered
* `Truthful` — when that is so

## Main results

* `reports_iff` — a request is reported truthfully exactly when `Truthful` says so
* `read_simulates` — the reads of `OpenPS2Loader.Read` leave the same variables
-/

namespace OpenPS2Loader

namespace ReadErrors

open Read (Config Disc CdErr sectorsToRead sectorsToRead_pos zisoCount)

variable {cfg : Config} {disc : Disc}

/-! ### The device -/

/-- The errors of the device: the one each of its sectors is read with, and the sectors of a
compressed image for whose index entry or data a read of the device fails. -/
structure Device where
  raw : ℕ → CdErr
  lost : ℕ → Bool

/-- The answer to a read of `n` sectors: the error of the first bad one. -/
def answer (sectors : ℕ → CdErr) (lsn n : ℕ) : CdErr :=
  (((List.range n).map fun i => sectors (lsn + i)).find? (· ≠ .no)).getD .no

theorem answer_eq_no {sectors : ℕ → CdErr} {lsn n : ℕ} :
    answer sectors lsn n = .no ↔ ∀ i < n, sectors (lsn + i) = .no := by
  rw [answer]
  rcases hf : ((List.range n).map fun i => sectors (lsn + i)).find? (· ≠ .no) with _ | e
  · have hall := List.find?_eq_none.mp hf
    rw [hf, Option.getD_none]
    simp only [true_iff]
    intro i hi
    simpa using hall _ (List.mem_map_of_mem (List.mem_range.mpr hi))
  · have hmem := List.mem_of_find?_eq_some hf
    have hne : e ≠ .no := by simpa using List.find?_some hf
    obtain ⟨i, hi, rfl⟩ := List.mem_map.mp hmem
    rw [hf]
    simp only [Option.getD_some, hne, false_iff, not_forall]
    exact ⟨i, List.mem_range.mp hi, hne⟩

/-- What `DeviceReadSectorsPtr` returns: `DeviceReadSectorsCompressed` looks at the number of
sectors alone. -/
def deviceReadSectorsPtr (disc : Disc) (dev : Device) (compressed : Bool) (lsn n : ℕ) : CdErr :=
  if compressed then if zisoCount disc.totalBlock lsn n = n then .no else .eom
  else answer dev.raw lsn n

/-- The `i`-th of `n` sectors was read, when no error was returned. -/
def Device.stores (dev : Device) (compressed : Bool) (lsn n i : ℕ) : Bool :=
  !compressed || (decide (n ≤ 256) && !dev.lost (lsn + i))

/-! ### Reading sectors -/

/-- The variables of the module that a read consults. -/
structure State where
  probed : Bool
  /-- `DeviceReadSectorsPtr` is `DeviceReadSectorsCompressed` -/
  compressed : Bool
  mediaLsnCount : ℕ
  err : CdErr
  deriving DecidableEq, Repr

/-- A call of `cdvdman_read`. -/
structure Call where
  lsn : ℕ
  sectors : ℕ
  sectorSize : ℕ
  buf : ℕ
  lsn_lt : lsn < 2 ^ 32

/-- The transfer goes through `cdvdman_buf`. -/
def Call.bounced (r : Call) : Bool := r.buf % 4 != 0 || r.sectorSize != 2048

/-- How many sectors a bounced request reads at a time. -/
def Call.bounceSectors (cfg : Config) (r : Call) : ℕ :=
  if r.sectorSize ≠ 2048 then 1 else cfg.bufSectors

theorem Call.bounceSectors_pos (cfg : Config) (r : Call) : 0 < r.bounceSectors cfg := by
  grind [Call.bounceSectors, Config.bufSectors]

theorem Call.bounceSectors_le (cfg : Config) (r : Call) : r.bounceSectors cfg ≤ 2 := by
  grind [Call.bounceSectors, Config.bufSectors]

/-- `ProbeZSO`. -/
def probeZSO (disc : Disc) (dev : Device) (st : State) : State × Bool :=
  if answer dev.raw 0 1 ≠ .no then (st, false)
  else
    let st := { st with probed := true }
    if disc.isZso then ({ st with compressed := true }, true) else (st, true)

/-- The probe before the first read. -/
def probe (disc : Disc) (dev : Device) (st : State) : State × Bool :=
  if st.probed then (st, true) else probeZSO disc dev st

/-- The loop of `cdvdman_read_sectors`: for each of the `remaining` sectors, whether the device
delivered it. -/
def readLoop (cfg : Config) (disc : Disc) (dev : Device) (st : State) (lsn remaining : ℕ) :
    State × List Bool :=
  if _h : remaining = 0 then (st, [])
  else
    let n := sectorsToRead cfg remaining
    let err := deviceReadSectorsPtr disc dev st.compressed lsn n
    let stored := (List.range n).map (dev.stores st.compressed lsn n)
    let st := { st with err }
    if err ≠ .no then (st, List.replicate remaining false)
    else
      let (st, rest) := readLoop cfg disc dev st ((lsn + n) % 2 ^ 32) (remaining - n)
      (st, stored ++ rest)
termination_by remaining
decreasing_by
  have := sectorsToRead_pos cfg _h
  omega

/-- The read starts past the end of the media. -/
def beyondMedia (st : State) (lsn : ℕ) : Bool :=
  decide (st.mediaLsnCount ≠ 0 ∧ st.mediaLsnCount ≤ lsn)

/-- The read goes past the end of the media. -/
def pastMedia (st : State) (lsn sectors : ℕ) : Bool :=
  decide (st.mediaLsnCount ≠ 0 ∧ st.mediaLsnCount < (lsn + sectors) % 2 ^ 32)

/-- `cdvdman_read_sectors`. -/
def readSectors (cfg : Config) (disc : Disc) (dev : Device) (st : State) (lsn sectors : ℕ) :
    State × List Bool :=
  if beyondMedia st lsn then ({ st with err := .ipi }, List.replicate sectors false)
  else
    let endOfMedia := pastMedia st lsn sectors
    let limit := if endOfMedia then st.mediaLsnCount - lsn else sectors
    let (st, ok) := probe disc dev st
    if ok then
      let (st, read) := readLoop cfg disc dev { st with err := .no } lsn limit
      ({ st with err := if endOfMedia then .eom else st.err },
        read ++ List.replicate (sectors - limit) false)
    else (st, List.replicate sectors false)

/-- The loop of `cdvdman_read` over the bounce buffer. The result of `cdvdman_read_sectors` is not
looked at. -/
def bounceLoop (cfg : Config) (disc : Disc) (dev : Device) (r : Call) (st : State)
    (rpos sectors : ℕ) : State × List Bool :=
  if _h : sectors = 0 then (st, [])
  else
    let n := min sectors (r.bounceSectors cfg)
    let (st, read) := readSectors cfg disc dev st rpos n
    let (st, rest) := bounceLoop cfg disc dev r st ((rpos + n) % 2 ^ 32) (sectors - n)
    (st, read ++ rest)
termination_by sectors
decreasing_by
  have := r.bounceSectors_pos cfg
  omega

/-- `cdvdman_read`: the variables it leaves, and for each requested sector whether the device
delivered it. -/
def read (cfg : Config) (disc : Disc) (dev : Device) (st : State) (r : Call) : State × List Bool :=
  if r.bounced then bounceLoop cfg disc dev r st r.lsn r.sectors
  else readSectors cfg disc dev st r.lsn r.sectors

/-! ### Truthful reports -/

/-- The error variable is clear exactly when every requested sector was read. -/
def Reports (cfg : Config) (disc : Disc) (dev : Device) (st : State) (r : Call) : Prop :=
  (read cfg disc dev st r).1.err = .no ↔ ∀ ok ∈ (read cfg disc dev st r).2, ok = true

/-- The disc was probed, or the probe will succeed. -/
def Ready (dev : Device) (st : State) : Prop := st.probed = true ∨ dev.raw 0 = .no

/-- The sector reader is the compressed one, once the disc has been probed. -/
def State.reader (disc : Disc) (st : State) : Bool :=
  st.compressed || (!st.probed && disc.isZso)

/-- No error is left by a read of `n` sectors at `lsn` with one call of the device. -/
def Clear (disc : Disc) (dev : Device) (st : State) (lsn n : ℕ) : Prop :=
  beyondMedia st lsn = false ∧ pastMedia st lsn n = false ∧
    deviceReadSectorsPtr disc dev (st.reader disc) lsn n = .no

/-- A call of the device that returns no error stores all of its `n` sectors at `lsn`. -/
def Stored (disc : Disc) (dev : Device) (st : State) (lsn n : ℕ) : Prop :=
  ∀ i < n, dev.stores (st.reader disc) lsn n i = true

/-- The first sector of the `j`-th piece of a read of the sectors from `lsn` on, in pieces of `W`
sectors. -/
def pieceLsn (W lsn j : ℕ) : ℕ := (lsn + W * j) % 2 ^ 32

/-- The length of the `j`-th piece of a read of `n` sectors. -/
def pieceLen (W n j : ℕ) : ℕ := min (n - W * j) W

/-- The number of pieces before the last one. -/
def lastPiece (W n : ℕ) : ℕ := (n - 1) / W

/-- How many sectors `cdvdman_read_sectors` reads with one call of the device. -/
def chunkSectors (cfg : Config) (n : ℕ) : ℕ := if cfg.accuReads then 8 else n

/-- When an aligned request is reported truthfully. The old value of the error variable counts where
nothing is read. When no chunk fails, they all have to be stored. -/
def TruthfulAligned (cfg : Config) (disc : Disc) (dev : Device) (st : State) (lsn n : ℕ) : Prop :=
  if beyondMedia st lsn then n ≠ 0
  else
    (Ready dev st → pastMedia st lsn n = false →
      (∀ j ≤ lastPiece (chunkSectors cfg n) n,
        deviceReadSectorsPtr disc dev (st.reader disc) (pieceLsn (chunkSectors cfg n) lsn j)
          (pieceLen (chunkSectors cfg n) n j) = .no) →
      ∀ j ≤ lastPiece (chunkSectors cfg n) n,
        Stored disc dev st (pieceLsn (chunkSectors cfg n) lsn j)
          (pieceLen (chunkSectors cfg n) n j)) ∧
    (¬ Ready dev st → (st.err = .no ↔ n = 0))

/-- When a bounced request is reported truthfully: no piece may fail, or not be stored, when the
last one is read. -/
def TruthfulBounced (cfg : Config) (disc : Disc) (dev : Device) (st : State) (r : Call) : Prop :=
  if r.sectors = 0 then st.err = .no
  else
    (Ready dev st →
      Clear disc dev st
        (pieceLsn (r.bounceSectors cfg) r.lsn (lastPiece (r.bounceSectors cfg) r.sectors))
        (pieceLen (r.bounceSectors cfg) r.sectors (lastPiece (r.bounceSectors cfg) r.sectors)) →
      ∀ j ≤ lastPiece (r.bounceSectors cfg) r.sectors,
        Clear disc dev st (pieceLsn (r.bounceSectors cfg) r.lsn j)
            (pieceLen (r.bounceSectors cfg) r.sectors j) ∧
          Stored disc dev st (pieceLsn (r.bounceSectors cfg) r.lsn j)
            (pieceLen (r.bounceSectors cfg) r.sectors j)) ∧
    (¬ Ready dev st → st.err = .no →
      ∃ j ≤ lastPiece (r.bounceSectors cfg) r.sectors,
        beyondMedia st (pieceLsn (r.bounceSectors cfg) r.lsn j) = true)

/-- When a request is reported truthfully. -/
def Truthful (cfg : Config) (disc : Disc) (dev : Device) (st : State) (r : Call) : Prop :=
  if r.bounced then TruthfulBounced cfg disc dev st r
  else TruthfulAligned cfg disc dev st r.lsn r.sectors

variable {dev : Device} {st : State}

/-! ### Pieces -/

theorem pieceLsn_zero {lsn : ℕ} (W : ℕ) (h : lsn < 2 ^ 32) : pieceLsn W lsn 0 = lsn := by
  rw [pieceLsn, Nat.mul_zero, Nat.add_zero, Nat.mod_eq_of_lt h]

theorem pieceLsn_succ (W lsn j : ℕ) :
    pieceLsn W ((lsn + W) % 2 ^ 32) j = pieceLsn W lsn (j + 1) := by
  rw [pieceLsn, pieceLsn, Nat.mod_add_mod, Nat.mul_succ]
  congr 1
  omega

theorem pieceLen_zero (W n : ℕ) : pieceLen W n 0 = min n W := by
  rw [pieceLen, Nat.mul_zero, Nat.sub_zero]

theorem pieceLen_succ (W n j : ℕ) : pieceLen W (n - W) j = pieceLen W n (j + 1) := by
  rw [pieceLen, pieceLen, Nat.mul_succ, Nat.sub_sub, Nat.add_comm W]

theorem lastPiece_of_le {W n : ℕ} (hW : 0 < W) (h : n ≤ W) : lastPiece W n = 0 := by
  rw [lastPiece, Nat.div_eq_of_lt (by omega)]

theorem lastPiece_of_lt {W n : ℕ} (hW : 0 < W) (h : W < n) :
    lastPiece W n = lastPiece W (n - W) + 1 := by
  rw [lastPiece, lastPiece, ← Nat.add_div_right _ hW]
  congr 1
  omega

theorem forall_le_succ {p : ℕ → Prop} {n : ℕ} :
    (∀ j ≤ n + 1, p j) ↔ p 0 ∧ ∀ j ≤ n, p (j + 1) := by
  simp only [← Nat.lt_succ_iff]
  exact Nat.forall_lt_succ_left

/-! ### What one call of `cdvdman_read_sectors` leaves -/

theorem not_forall_replicate_false {n : ℕ} (hn : n ≠ 0) :
    ¬ ∀ ok ∈ List.replicate n false, ok = true := by
  intro hall
  exact absurd (hall false (List.mem_replicate.mpr ⟨hn, rfl⟩)) Bool.false_ne_true

theorem forall_mem_map_range {f : ℕ → Bool} {n : ℕ} :
    (∀ ok ∈ (List.range n).map f, ok = true) ↔ ∀ i < n, f i = true := by
  simp only [List.mem_map, List.mem_range, forall_exists_index, and_imp,
    forall_apply_eq_imp_iff₂]

/-- The next chunk of a loop that reads `W` sectors at a time. -/
theorem sectorsToRead_eq {W n : ℕ} (hW : if cfg.accuReads then W = 8 else n ≤ W) :
    sectorsToRead cfg n = min n W := by
  grind [sectorsToRead]

theorem deviceReadSectorsPtr_zero (compressed : Bool) (lsn : ℕ) :
    deviceReadSectorsPtr disc dev compressed lsn 0 = .no := by
  have hle := Nat.mod_le lsn (2 ^ 32)
  have hzero : zisoCount disc.totalBlock lsn 0 = 0 := by
    rw [zisoCount]
    split_ifs with h
    · rfl
    · rw [Zso.clampCount, Nat.add_zero, if_neg (by omega)]
  rw [deviceReadSectorsPtr, if_pos hzero]
  split_ifs <;> rfl

/-- **The loop of `cdvdman_read_sectors`.** It leaves no error exactly when no chunk fails. -/
theorem readLoop_spec {W lsn n : ℕ} (hW : 0 < W) (hn : if cfg.accuReads then W = 8 else n ≤ W)
    (hlsn : lsn < 2 ^ 32) (h : st.err = .no) :
    ((readLoop cfg disc dev st lsn n).1.err = .no ↔ ∀ j ≤ lastPiece W n,
        deviceReadSectorsPtr disc dev st.compressed (pieceLsn W lsn j) (pieceLen W n j) = .no) ∧
      ((∀ ok ∈ (readLoop cfg disc dev st lsn n).2, ok = true) ↔ ∀ j ≤ lastPiece W n,
        deviceReadSectorsPtr disc dev st.compressed (pieceLsn W lsn j) (pieceLen W n j) = .no ∧
          ∀ i < pieceLen W n j,
            dev.stores st.compressed (pieceLsn W lsn j) (pieceLen W n j) i = true) := by
  induction n using Nat.strong_induction_on generalizing st lsn with
  | _ n ih =>
    rw [readLoop]
    by_cases hn0 : n = 0
    · subst hn0
      rw [dif_pos rfl, lastPiece_of_le hW (Nat.zero_le W)]
      simp only [Nat.le_zero, forall_eq, pieceLen_zero, Nat.zero_min, deviceReadSectorsPtr_zero, h]
      simp
    rw [dif_neg hn0, sectorsToRead_eq hn]
    dsimp only
    by_cases he : deviceReadSectorsPtr disc dev st.compressed lsn (min n W) = .no
    · rw [if_neg (not_not.mpr he)]
      dsimp only
      rw [List.forall_mem_append, forall_mem_map_range]
      rcases Nat.lt_or_ge W n with hlt | hge
      · -- the chunks behind the first one
        rw [Nat.min_eq_right hlt.le] at he ⊢
        obtain ⟨ihErr, ihAll⟩ := @ih (n - W) (by omega) { st with err := .no } _
          (by grind) (Nat.mod_lt (lsn + W) (by decide)) rfl
        simp only [pieceLsn_succ, pieceLen_succ] at ihErr ihAll
        rw [lastPiece_of_lt hW hlt, forall_le_succ, forall_le_succ, pieceLsn_zero W hlsn,
          pieceLen_zero, Nat.min_eq_right hlt.le, he]
        exact ⟨ihErr.trans (by simp), (and_congr_right fun _ => ihAll).trans (by simp)⟩
      · rw [Nat.min_eq_left hge] at he ⊢
        rw [lastPiece_of_le hW hge, Nat.sub_self, readLoop, dif_pos rfl]
        simp only [Nat.le_zero, forall_eq, pieceLsn_zero W hlsn, pieceLen_zero,
          Nat.min_eq_left hge, he, List.not_mem_nil, false_imp_iff, implies_true, and_true,
          true_and]
    · rw [if_pos he]
      have hfirst := pieceLsn_zero W hlsn
      refine ⟨iff_of_false he fun hall => ?_, iff_of_false (not_forall_replicate_false hn0)
        fun hall => ?_⟩
      · have := hall 0 (Nat.zero_le _)
        rw [hfirst, pieceLen_zero] at this
        exact he this
      · have := (hall 0 (Nat.zero_le _)).1
        rw [hfirst, pieceLen_zero] at this
        exact he this

/-- The loop changes nothing but the error variable. -/
theorem readLoop_frame (lsn n : ℕ) :
    (readLoop cfg disc dev st lsn n).1 =
      { st with err := (readLoop cfg disc dev st lsn n).1.err } := by
  induction n using Nat.strong_induction_on generalizing st lsn with
  | _ n ih =>
    rw [readLoop]
    by_cases hn : n = 0
    · rw [dif_pos hn]
    rw [dif_neg hn]
    have hpos := sectorsToRead_pos cfg hn
    by_cases he : deviceReadSectorsPtr disc dev st.compressed lsn (sectorsToRead cfg n) = .no
    · simp only [he, ne_eq, not_true, if_false]
      rw [ih (n - sectorsToRead cfg n) (by omega)]
    · simp only [he, ne_eq, not_false_eq_true, if_true]

theorem probe_of_ready (h : Ready dev st) :
    probe disc dev st = ({ st with probed := true, compressed := st.reader disc }, true) := by
  rcases st with ⟨_ | _, compressed, media, err⟩
  · obtain h | h := h
    · cases h
    have ha : answer dev.raw 0 1 = .no := by
      rw [answer_eq_no]
      intro i hi
      obtain rfl : i = 0 := by omega
      exact h
    cases hz : disc.isZso <;> simp [probe, probeZSO, ha, State.reader, hz]
  · simp [probe, State.reader]

theorem probe_of_not_ready (h : ¬ Ready dev st) : probe disc dev st = (st, false) := by
  obtain ⟨hp, hr⟩ := not_or.mp h
  have ha : answer dev.raw 0 1 ≠ .no := by
    rw [Ne, answer_eq_no]
    intro hall
    exact hr (hall 0 Nat.one_pos)
  rw [probe, if_neg hp, probeZSO, if_pos ha]

/-- What a call of `cdvdman_read_sectors` leaves alone. -/
structure Frame (disc : Disc) (dev : Device) (st st' : State) : Prop where
  mediaLsnCount : st'.mediaLsnCount = st.mediaLsnCount
  reader : st'.reader disc = st.reader disc
  ready : Ready dev st' ↔ Ready dev st

theorem Frame.beyondMedia {st' : State} (h : Frame disc dev st st') (lsn : ℕ) :
    beyondMedia st' lsn = beyondMedia st lsn := by
  simp only [ReadErrors.beyondMedia, h.mediaLsnCount]

theorem Frame.clear {st' : State} (h : Frame disc dev st st') (lsn n : ℕ) :
    Clear disc dev st' lsn n ↔ Clear disc dev st lsn n := by
  simp only [Clear, h.beyondMedia, h.reader, pastMedia, h.mediaLsnCount]

theorem Frame.stored {st' : State} (h : Frame disc dev st st') (lsn n : ℕ) :
    Stored disc dev st' lsn n ↔ Stored disc dev st lsn n := by
  simp only [Stored, h.reader]

theorem readSectors_frame (lsn n : ℕ) :
    Frame disc dev st (readSectors cfg disc dev st lsn n).1 := by
  rw [readSectors]
  by_cases hb : beyondMedia st lsn = true
  · rw [if_pos hb]
    exact ⟨rfl, rfl, Iff.rfl⟩
  rw [if_neg hb]
  by_cases hr : Ready dev st
  · rw [probe_of_ready hr]
    simp only [if_true]
    rw [readLoop_frame]
    constructor
    · rfl
    · simp [State.reader]
    · exact iff_of_true (.inl rfl) hr
  · rw [probe_of_not_ready hr]
    exact ⟨rfl, rfl, Iff.rfl⟩

theorem readSectors_of_beyond {lsn n : ℕ} (h : beyondMedia st lsn = true) :
    readSectors cfg disc dev st lsn n = ({ st with err := .ipi }, List.replicate n false) := by
  rw [readSectors, if_pos h]

theorem readSectors_of_not_ready {lsn n : ℕ} (h : beyondMedia st lsn = false)
    (hr : ¬ Ready dev st) :
    readSectors cfg disc dev st lsn n = (st, List.replicate n false) := by
  rw [readSectors, probe_of_not_ready hr]
  simp [h]

/-- **One call of `cdvdman_read_sectors`.** Once the disc can be probed, the call reports the
chunks that fail and the sectors past the end of the media. -/
theorem readSectors_spec {W lsn n : ℕ} (hb : beyondMedia st lsn = false) (hr : Ready dev st)
    (hlsn : lsn < 2 ^ 32) (hW : 0 < W) (hn : if cfg.accuReads then W = 8 else n ≤ W) :
    ((readSectors cfg disc dev st lsn n).1.err = .no ↔ pastMedia st lsn n = false ∧
        ∀ j ≤ lastPiece W n, deviceReadSectorsPtr disc dev (st.reader disc) (pieceLsn W lsn j)
          (pieceLen W n j) = .no) ∧
      ((∀ ok ∈ (readSectors cfg disc dev st lsn n).2, ok = true) ↔ pastMedia st lsn n = false ∧
        ∀ j ≤ lastPiece W n, deviceReadSectorsPtr disc dev (st.reader disc) (pieceLsn W lsn j)
          (pieceLen W n j) = .no ∧ Stored disc dev st (pieceLsn W lsn j) (pieceLen W n j)) := by
  rw [readSectors, probe_of_ready hr]
  cases hp : pastMedia st lsn n with
  | true =>
    -- the sectors past the end are not delivered
    have hmod := Nat.mod_le (lsn + n) (2 ^ 32)
    have hlen : n - (st.mediaLsnCount - lsn) ≠ 0 := by
      simp only [beyondMedia, pastMedia, decide_eq_true_eq, decide_eq_false_iff_not] at hb hp
      omega
    simp only [hb, Bool.false_eq_true, if_false, if_true, reduceCtorEq, false_and, iff_false,
      true_and]
    intro hall
    exact absurd (hall false (List.mem_append_right _ (List.mem_replicate.mpr ⟨hlen, rfl⟩)))
      Bool.false_ne_true
  | false =>
    have hloop := @readLoop_spec cfg disc dev
      { st with probed := true, compressed := st.reader disc, err := .no } W lsn n hW hn hlsn rfl
    simp only [hb, Bool.false_eq_true, if_false, if_true, Nat.sub_self, List.replicate_zero,
      List.append_nil, true_and]
    exact hloop

/-- A piece of a bounced read leaves a clear error variable exactly when its chunk does not fail. -/
theorem readSectors_piece {lsn n : ℕ} (hlsn : lsn < 2 ^ 32) (hr : Ready dev st) (hn : n ≠ 0)
    (hn8 : n ≤ 8) :
    ((readSectors cfg disc dev st lsn n).1.err = .no ↔ Clear disc dev st lsn n) ∧
      ((∀ ok ∈ (readSectors cfg disc dev st lsn n).2, ok = true) ↔
        Clear disc dev st lsn n ∧ Stored disc dev st lsn n) := by
  cases hb : beyondMedia st lsn with
  | true =>
    rw [readSectors_of_beyond hb]
    refine ⟨by simp [Clear, hb], iff_of_false (not_forall_replicate_false hn) ?_⟩
    rintro ⟨⟨hb', -⟩, -⟩
    rw [hb] at hb'
    cases hb'
  | false =>
    have hW : if cfg.accuReads then max n (chunkSectors cfg n) = 8
        else n ≤ max n (chunkSectors cfg n) := by
      rw [chunkSectors]
      split_ifs <;> omega
    obtain ⟨herr, hall⟩ := @readSectors_spec cfg disc dev st _ _ _ hb hr hlsn (by omega) hW
    rw [lastPiece_of_le (by omega) (le_max_left _ _)] at herr hall
    simp only [Nat.le_zero, forall_eq, pieceLsn_zero _ hlsn, pieceLen_zero,
      Nat.min_eq_left (le_max_left n _)] at herr hall
    refine ⟨herr.trans (by simp [Clear, hb]), hall.trans ?_⟩
    simp only [Clear, hb, true_and, and_assoc]

/-! ### The bounce path -/

theorem bounceLoop_last {r : Call} {n : ℕ} (rpos : ℕ) (hn : n ≠ 0) (h : n ≤ r.bounceSectors cfg) :
    bounceLoop cfg disc dev r st rpos n = readSectors cfg disc dev st rpos n := by
  rw [bounceLoop, dif_neg hn, Nat.min_eq_left h]
  simp only [Nat.sub_self]
  rw [bounceLoop]
  simp

theorem bounceLoop_step {r : Call} {n : ℕ} (rpos : ℕ) (h : r.bounceSectors cfg < n) :
    bounceLoop cfg disc dev r st rpos n =
      ((bounceLoop cfg disc dev r (readSectors cfg disc dev st rpos (r.bounceSectors cfg)).1
          ((rpos + r.bounceSectors cfg) % 2 ^ 32) (n - r.bounceSectors cfg)).1,
        (readSectors cfg disc dev st rpos (r.bounceSectors cfg)).2 ++
          (bounceLoop cfg disc dev r (readSectors cfg disc dev st rpos (r.bounceSectors cfg)).1
            ((rpos + r.bounceSectors cfg) % 2 ^ 32) (n - r.bounceSectors cfg)).2) := by
  rw [bounceLoop, dif_neg (by omega), Nat.min_eq_right h.le]

/-- **The bounce loop, once the disc can be probed.** The error variable speaks of the last piece
alone. -/
theorem bounceLoop_of_ready {r : Call} {W rpos n : ℕ} (hr : Ready dev st) (hrpos : rpos < 2 ^ 32)
    (hn : n ≠ 0) (hW : W = r.bounceSectors cfg) :
    ((bounceLoop cfg disc dev r st rpos n).1.err = .no ↔
        Clear disc dev st (pieceLsn W rpos (lastPiece W n)) (pieceLen W n (lastPiece W n))) ∧
      ((∀ ok ∈ (bounceLoop cfg disc dev r st rpos n).2, ok = true) ↔ ∀ j ≤ lastPiece W n,
        Clear disc dev st (pieceLsn W rpos j) (pieceLen W n j) ∧
          Stored disc dev st (pieceLsn W rpos j) (pieceLen W n j)) := by
  subst hW
  induction n using Nat.strong_induction_on generalizing st rpos with
  | _ n ih =>
    have hpos := r.bounceSectors_pos cfg
    have hle := r.bounceSectors_le cfg
    rcases Nat.lt_or_ge (r.bounceSectors cfg) n with hlt | hge
    · have hframe : Frame disc dev st
          (readSectors cfg disc dev st rpos (r.bounceSectors cfg)).1 := readSectors_frame _ _
      have hpiece := (@readSectors_piece cfg disc dev st rpos (r.bounceSectors cfg) hrpos hr
        (by omega) (by omega)).2
      obtain ⟨ihErr, ihAll⟩ := ih (n - r.bounceSectors cfg) (by omega) (hframe.ready.mpr hr)
        (Nat.mod_lt (rpos + r.bounceSectors cfg) (by decide)) (by omega)
      simp only [hframe.clear, hframe.stored, pieceLsn_succ, pieceLen_succ] at ihErr ihAll
      rw [bounceLoop_step rpos hlt, lastPiece_of_lt hpos hlt, forall_le_succ,
        pieceLsn_zero _ hrpos, pieceLen_zero, Nat.min_eq_right hlt.le]
      refine ⟨ihErr, ?_⟩
      rw [List.forall_mem_append, hpiece, ihAll]
    · obtain ⟨herr, hall⟩ := @readSectors_piece cfg disc dev st rpos n hrpos hr hn (by omega)
      rw [bounceLoop_last rpos hn hge, lastPiece_of_le hpos hge]
      simp only [Nat.le_zero, forall_eq, pieceLsn_zero _ hrpos, pieceLen_zero,
        Nat.min_eq_left hge]
      exact ⟨herr, hall⟩

/-- **The bounce loop, when the probe fails.** Nothing is delivered, and the error variable is set
only by the pieces past the end of the media. -/
theorem bounceLoop_of_not_ready {r : Call} {W rpos n : ℕ} (hr : ¬ Ready dev st)
    (hrpos : rpos < 2 ^ 32) (hn : n ≠ 0) (hW : W = r.bounceSectors cfg) :
    ((bounceLoop cfg disc dev r st rpos n).1.err = .no ↔
        st.err = .no ∧ ∀ j ≤ lastPiece W n, beyondMedia st (pieceLsn W rpos j) = false) ∧
      ¬ ∀ ok ∈ (bounceLoop cfg disc dev r st rpos n).2, ok = true := by
  subst hW
  have hpiece : ∀ (st : State) (lsn m : ℕ), ¬ Ready dev st →
      ((readSectors cfg disc dev st lsn m).1.err = .no ↔
        st.err = .no ∧ beyondMedia st lsn = false) ∧
      (readSectors cfg disc dev st lsn m).2 = List.replicate m false := by
    intro st lsn m hr
    cases hb : beyondMedia st lsn with
    | true => simp [readSectors_of_beyond hb]
    | false => simp [readSectors_of_not_ready hb hr]
  induction n using Nat.strong_induction_on generalizing st rpos with
  | _ n ih =>
    have hpos := r.bounceSectors_pos cfg
    rcases Nat.lt_or_ge (r.bounceSectors cfg) n with hlt | hge
    · have hframe : Frame disc dev st
          (readSectors cfg disc dev st rpos (r.bounceSectors cfg)).1 := readSectors_frame _ _
      obtain ⟨ihErr, ihAll⟩ := ih (n - r.bounceSectors cfg) (by omega)
        (fun h => hr (hframe.ready.mp h))
        (Nat.mod_lt (rpos + r.bounceSectors cfg) (by decide)) (by omega)
      simp only [hframe.beyondMedia, pieceLsn_succ] at ihErr
      rw [bounceLoop_step rpos hlt, lastPiece_of_lt hpos hlt, forall_le_succ,
        pieceLsn_zero _ hrpos]
      constructor
      · rw [ihErr, (hpiece st rpos _ hr).1, and_assoc]
      · intro hall
        exact ihAll fun ok hok => hall ok (List.mem_append_right _ hok)
    · rw [bounceLoop_last rpos hn hge, lastPiece_of_le hpos hge, (hpiece st rpos n hr).1,
        (hpiece st rpos n hr).2]
      simp only [Nat.le_zero, forall_eq, pieceLsn_zero _ hrpos]
      exact ⟨trivial, not_forall_replicate_false hn⟩

/-! ### Truthful reports -/

theorem chunkSectors_spec (cfg : Config) {n : ℕ} (hn : n ≠ 0) : 0 < chunkSectors cfg n ∧
    if cfg.accuReads then chunkSectors cfg n = 8 else n ≤ chunkSectors cfg n := by
  rw [chunkSectors]
  split_ifs
  · exact ⟨by decide, rfl⟩
  · exact ⟨by omega, le_rfl⟩

theorem reportsAligned_iff (st : State) {lsn : ℕ} (n : ℕ) (hlsn : lsn < 2 ^ 32) :
    ((readSectors cfg disc dev st lsn n).1.err = .no ↔
        ∀ ok ∈ (readSectors cfg disc dev st lsn n).2, ok = true) ↔
      TruthfulAligned cfg disc dev st lsn n := by
  rw [TruthfulAligned]
  cases hb : beyondMedia st lsn with
  | true =>
    rw [readSectors_of_beyond hb]
    simp
  | false =>
    by_cases hr : Ready dev st
    · simp only [Bool.false_eq_true, if_false, hr, not_true, true_imp_iff, false_imp_iff, and_true]
      by_cases hn : n = 0
      · subst hn
        rw [readSectors, probe_of_ready hr]
        have hp : pastMedia st lsn 0 = false := by
          simp only [beyondMedia, pastMedia, decide_eq_false_iff_not, Nat.add_zero] at hb ⊢
          omega
        have hlast : lastPiece (chunkSectors cfg 0) 0 = 0 := Nat.zero_div _
        simp only [hb, hp, hlast, Bool.false_eq_true, if_false, if_true, Nat.sub_self]
        rw [readLoop, dif_pos rfl]
        simp [Stored, pieceLen]
      · obtain ⟨hW, hwidth⟩ := chunkSectors_spec cfg hn
        obtain ⟨herr, hall⟩ := @readSectors_spec cfg disc dev st _ _ _ hb hr hlsn hW hwidth
        rw [herr, hall]
        constructor
        · intro h hp hclear j hj
          exact ((h.mp ⟨hp, hclear⟩).2 j hj).2
        · intro h
          exact ⟨fun hclear => ⟨hclear.1, fun j hj => ⟨hclear.2 j hj, h hclear.1 hclear.2 j hj⟩⟩,
            fun hstored => ⟨hstored.1, fun j hj => (hstored.2 j hj).1⟩⟩
    · rw [readSectors_of_not_ready hb hr]
      simp [hr]

theorem reportsBounced_iff (st : State) (r : Call) :
    ((bounceLoop cfg disc dev r st r.lsn r.sectors).1.err = .no ↔
        ∀ ok ∈ (bounceLoop cfg disc dev r st r.lsn r.sectors).2, ok = true) ↔
      TruthfulBounced cfg disc dev st r := by
  rw [TruthfulBounced]
  by_cases h0 : r.sectors = 0
  · rw [if_pos h0, h0, bounceLoop]
    simp
  rw [if_neg h0]
  by_cases hr : Ready dev st
  · obtain ⟨herr, hall⟩ := @bounceLoop_of_ready cfg disc dev st r _ _ _ hr r.lsn_lt h0 rfl
    rw [herr, hall]
    constructor
    · intro h
      exact ⟨fun _ => h.mp, fun hn => absurd hr hn⟩
    · rintro ⟨h, -⟩
      exact ⟨h hr, fun hpieces => (hpieces _ le_rfl).1⟩
  · obtain ⟨herr, hall⟩ := @bounceLoop_of_not_ready cfg disc dev st r _ _ _ hr r.lsn_lt h0 rfl
    rw [herr, iff_false_right hall]
    simp only [hr, false_imp_iff, not_false_eq_true, true_imp_iff, true_and, not_and, not_forall,
      Bool.not_eq_false, exists_prop]

/-- **What a disc read reports.** After a request the error variable is clear exactly when every
requested sector was read, if and only if the request is one that `Truthful` admits. -/
theorem reports_iff (st : State) (r : Call) :
    Reports cfg disc dev st r ↔ Truthful cfg disc dev st r := by
  rw [Reports, Truthful, read]
  split_ifs
  · exact reportsBounced_iff st r
  · exact reportsAligned_iff st r.sectors r.lsn_lt

/-- A device on which sector 5 is bad. -/
def badFive : Device :=
  { raw := fun lsn => if lsn = 5 then .read else .no, lost := fun _ => false }

/-- Sectors 5 and 6 of a plain disc are read to an odd address: the second piece clears the error of
the first. -/
theorem not_reports_bounced :
    ¬ ∀ (cfg : Config) (disc : Disc) (dev : Device) (st : State) (r : Call),
      Reports cfg disc dev st r := by
  intro h
  let disc : Disc := ⟨fun _ => 0⟩
  let cfg : Config := ⟨false, false, 0⟩
  let st : State := ⟨true, false, 0, .no⟩
  let r : Call := ⟨5, 2, 2048, 1, by decide⟩
  have hreports : Reports cfg disc badFive st r := h cfg disc badFive st r
  obtain ⟨herr, hall⟩ := @bounceLoop_of_ready cfg disc badFive st r _ 5 2 (.inl rfl) (by decide)
    (by decide) rfl
  have hlast : lastPiece (r.bounceSectors cfg) 2 = 1 := by decide
  rw [hlast] at herr hall
  have hdelivered := hall.mp (hreports.mp (herr.mpr ⟨rfl, rfl, by decide⟩)) 0 (by decide)
  exact absurd hdelivered.1.2.2 (by decide)

/-! ### The paths agree -/

/-- The sector can be read. -/
def Good (disc : Disc) (dev : Device) (st : State) (s : ℕ) : Prop :=
  if st.reader disc then s < disc.totalBlock ∧ dev.lost s = false else dev.raw s = .no

theorem good_of_stored {lsn n : ℕ} (hlt : lsn + n < 2 ^ 32)
    (hclear : deviceReadSectorsPtr disc dev (st.reader disc) lsn n = .no)
    (hstored : Stored disc dev st lsn n) : ∀ i < n, Good disc dev st (lsn + i) := by
  intro i hi
  have hi' := hstored i hi
  rw [Good]
  cases hz : st.reader disc with
  | true =>
    rw [hz, deviceReadSectorsPtr, if_pos rfl] at hclear
    rw [hz, Device.stores, Bool.not_true, Bool.false_or, Bool.and_eq_true] at hi'
    have hcount : zisoCount disc.totalBlock lsn n = n := by
      by_contra hne
      rw [if_neg hne] at hclear
      cases hclear
    rw [if_pos rfl]
    refine ⟨?_, by simpa using hi'.2⟩
    rw [zisoCount, Zso.clampCount, Nat.mod_eq_of_lt hlt] at hcount
    split_ifs at hcount <;> omega
  | false =>
    rw [hz, deviceReadSectorsPtr, if_neg Bool.false_ne_true] at hclear
    rw [if_neg Bool.false_ne_true]
    exact answer_eq_no.mp hclear i hi

theorem clear_of_good {lsn n : ℕ} (hlt : lsn + n < 2 ^ 32)
    (h : ∀ i < n, Good disc dev st (lsn + i)) :
    deviceReadSectorsPtr disc dev (st.reader disc) lsn n = .no := by
  rw [deviceReadSectorsPtr]
  cases hz : st.reader disc with
  | true =>
    rcases Nat.eq_zero_or_pos n with rfl | hpos
    · rw [← hz]
      simpa [deviceReadSectorsPtr, hz] using @deviceReadSectorsPtr_zero disc dev true lsn
    · have hlast := h (n - 1) (by omega)
      rw [Good, hz, if_pos rfl] at hlast
      rw [if_pos rfl, if_pos]
      rw [zisoCount, Zso.clampCount, Nat.mod_eq_of_lt hlt, if_neg (by omega), if_neg (by omega)]
  | false =>
    rw [if_neg Bool.false_ne_true, answer_eq_no]
    intro i hi
    have hgood := h i hi
    rwa [Good, hz, if_neg Bool.false_ne_true] at hgood

section Pieces

variable {W lsn n : ℕ} (hW : 0 < W) (hlt : lsn + n < 2 ^ 32)

include hlt in
theorem pieceLsn_eq {j : ℕ} (hj : j ≤ lastPiece W n) :
    pieceLsn W lsn j = lsn + W * j ∧ pieceLsn W lsn j + pieceLen W n j < 2 ^ 32 := by
  have hmul : W * j ≤ n - 1 := (Nat.mul_le_mul_left W hj).trans (Nat.mul_div_le (n - 1) W)
  have heq : pieceLsn W lsn j = lsn + W * j := Nat.mod_eq_of_lt (by omega)
  refine ⟨heq, ?_⟩
  rw [heq, pieceLen]
  omega

include hW hlt

/-- What holds of every sector of every piece holds of every sector. -/
theorem forall_pieces {p : ℕ → Prop} :
    (∀ j ≤ lastPiece W n, ∀ i < pieceLen W n j, p (pieceLsn W lsn j + i)) ↔
      ∀ i < n, p (lsn + i) := by
  constructor
  · intro h i hi
    have hj : i / W ≤ lastPiece W n := Nat.div_le_div_right (by omega)
    have hmod := Nat.div_add_mod i W
    have hlen : i % W < pieceLen W n (i / W) := by
      have := Nat.mod_lt i hW
      rw [pieceLen]
      omega
    have := h _ hj _ hlen
    rwa [(pieceLsn_eq hlt hj).1, Nat.add_assoc, hmod] at this
  · intro h j hj i hi
    rw [(pieceLsn_eq hlt hj).1, Nat.add_assoc]
    rw [pieceLen] at hi
    exact h _ (by omega)

/-- The pieces lie within the media exactly when the whole does. -/
theorem media_pieces :
    (∀ j ≤ lastPiece W n, beyondMedia st (pieceLsn W lsn j) = false ∧
        pastMedia st (pieceLsn W lsn j) (pieceLen W n j) = false) ↔
      beyondMedia st lsn = false ∧ pastMedia st lsn n = false := by
  constructor
  · intro h
    have hlast : W * lastPiece W n + pieceLen W n (lastPiece W n) = n := by
      have := Nat.div_add_mod (n - 1) W
      have := Nat.mod_lt (n - 1) hW
      rw [pieceLen, lastPiece]
      omega
    obtain ⟨hb, -⟩ := h 0 (Nat.zero_le _)
    obtain ⟨-, hp⟩ := h _ le_rfl
    rw [(pieceLsn_eq hlt (Nat.zero_le _)).1, Nat.mul_zero, Nat.add_zero] at hb
    rw [(pieceLsn_eq hlt le_rfl).1, pastMedia, Nat.add_assoc, hlast] at hp
    exact ⟨hb, hp⟩
  · rintro ⟨hb, hp⟩ j hj
    obtain ⟨heq, hlt'⟩ := pieceLsn_eq hlt hj
    have hle : W * j ≤ n - 1 := (Nat.mul_le_mul_left W hj).trans (Nat.mul_div_le (n - 1) W)
    simp only [beyondMedia, pastMedia, decide_eq_false_iff_not, not_and, not_le, not_lt] at hb hp
    rw [Nat.mod_eq_of_lt hlt] at hp
    simp only [beyondMedia, pastMedia, decide_eq_false_iff_not, not_and, not_le, not_lt,
      Nat.mod_eq_of_lt hlt']
    rw [heq, pieceLen]
    omega

end Pieces

/-- A request that is reported truthfully leaves a clear error variable exactly when it lies within
the media and all its sectors can be read. -/
theorem read_err_of_truthful {r : Call} (hr : Ready dev st) (h0 : r.sectors ≠ 0)
    (hlt : r.lsn + r.sectors < 2 ^ 32) (h : Truthful cfg disc dev st r) :
    (read cfg disc dev st r).1.err = .no ↔
      (beyondMedia st r.lsn = false ∧ pastMedia st r.lsn r.sectors = false) ∧
        ∀ i < r.sectors, Good disc dev st (r.lsn + i) := by
  have hreports := (reports_iff st r).mpr h
  rw [Reports] at hreports
  rw [read] at hreports ⊢
  by_cases hbounced : r.bounced = true
  · rw [if_pos hbounced] at hreports ⊢
    have hW := r.bounceSectors_pos cfg
    obtain ⟨herr, hall⟩ := @bounceLoop_of_ready cfg disc dev st r _ _ _ hr r.lsn_lt h0 rfl
    constructor
    · intro hclear
      have hpieces := hall.mp (hreports.mp hclear)
      exact ⟨(media_pieces hW hlt).mp fun j hj => ⟨(hpieces j hj).1.1, (hpieces j hj).1.2.1⟩,
        (forall_pieces hW hlt).mp fun j hj =>
          good_of_stored (pieceLsn_eq hlt hj).2 (hpieces j hj).1.2.2 (hpieces j hj).2⟩
    · rintro ⟨hmedia, hgood⟩
      obtain ⟨hb, hp⟩ := (media_pieces hW hlt).mpr hmedia _ le_rfl
      exact herr.mpr ⟨hb, hp, clear_of_good (pieceLsn_eq hlt le_rfl).2
        ((forall_pieces hW hlt).mpr hgood _ le_rfl)⟩
  · rw [if_neg hbounced] at hreports ⊢
    cases hb : beyondMedia st r.lsn with
    | true =>
      rw [readSectors_of_beyond hb]
      simp
    | false =>
      obtain ⟨hW, hwidth⟩ := chunkSectors_spec cfg h0
      obtain ⟨herr, hall⟩ := @readSectors_spec cfg disc dev st _ _ _ hb hr r.lsn_lt hW hwidth
      constructor
      · intro hclear
        obtain ⟨hp, hpieces⟩ := hall.mp (hreports.mp hclear)
        exact ⟨⟨rfl, hp⟩, (forall_pieces hW hlt).mp fun j hj =>
          good_of_stored (pieceLsn_eq hlt hj).2 (hpieces j hj).1 (hpieces j hj).2⟩
      · rintro ⟨⟨-, hp⟩, hgood⟩
        exact herr.mpr ⟨hp, fun j hj => clear_of_good (pieceLsn_eq hlt hj).2
          ((forall_pieces hW hlt).mpr hgood j hj)⟩

/-- **Two paths, one outcome.** Once the disc can be probed, two requests for the same sectors leave
the same verdict when both are reported truthfully, wherever their buffers lie. -/
theorem read_err_congr {r r' : Call} (hr : Ready dev st) (hlsn : r.lsn = r'.lsn)
    (hsectors : r.sectors = r'.sectors) (h0 : r.sectors ≠ 0) (hlt : r.lsn + r.sectors < 2 ^ 32)
    (h : Truthful cfg disc dev st r) (h' : Truthful cfg disc dev st r') :
    (read cfg disc dev st r).1.err = .no ↔ (read cfg disc dev st r').1.err = .no := by
  rw [read_err_of_truthful hr h0 hlt h,
    read_err_of_truthful hr (hsectors ▸ h0) (hlsn ▸ hsectors ▸ hlt) h', hlsn, hsectors]

/-! ### The reader of a stream of answers -/

/-- The reader has the variables that are followed here, and the ZSO reader the size of its
image. -/
structure Follows (disc : Disc) (s : Read.State) (st : State) : Prop where
  probed : s.probed = st.probed
  compressed : s.zso.isSome = st.compressed
  mediaLsnCount : s.mediaLsnCount = st.mediaLsnCount
  err : s.err = st.err
  totalBlock : ∀ r, s.zso = some r → r.totalBlock = disc.totalBlock

/-- The errors the device is going to answer with. -/
def errors (device : ℕ → Read.Answer) : Stream' CdErr := fun n => (device n).err

/-- A piece of the reader, given the right answers, does to the variables what is said here. -/
def Simulates (disc : Disc) (f : Read.State → Read.State) (st st' : State) : Prop :=
  ∃ answers : List CdErr, ∀ (s : Read.State) (rest : Stream' CdErr),
    Follows disc s st → errors s.device = answers ++ₛ rest →
      Follows disc (f s) st' ∧ errors (f s).device = rest

theorem Simulates.comp {f g : Read.State → Read.State} {st st' st'' : State}
    (hf : Simulates disc f st st') (hg : Simulates disc g st' st'') :
    Simulates disc (fun s => g (f s)) st st'' := by
  obtain ⟨answers, hf⟩ := hf
  obtain ⟨answers', hg⟩ := hg
  refine ⟨answers ++ answers', fun s rest hs hd => ?_⟩
  obtain ⟨hs', hd'⟩ := hf s _ hs (hd.trans (Stream'.append_append_stream answers answers' rest))
  exact hg (f s) rest hs' hd'

/-- A call of the sector reader takes one answer. -/
theorem deviceReadSectorsPtr_simulates (disc : Disc) (dev : Device) (st : State) (lsn n : ℕ) :
    ∃ answer : CdErr, ∀ (s : Read.State) (rest : Stream' CdErr),
      Follows disc s st → errors s.device = [answer] ++ₛ rest →
        Follows disc (Read.deviceReadSectorsPtr disc s lsn n).1 st ∧
          (Read.deviceReadSectorsPtr disc s lsn n).2.1 =
            deviceReadSectorsPtr disc dev st.compressed lsn n ∧
          errors (Read.deviceReadSectorsPtr disc s lsn n).1.device = rest := by
  refine ⟨answer dev.raw lsn n, fun s rest hs hd => ?_⟩
  have h0 : (s.device 0).err = answer dev.raw lsn n := congrFun hd 0
  have htail : errors (fun n => s.device (n + 1)) = rest :=
    funext fun n => congrFun hd (n + 1)
  have hcompressed := hs.compressed
  rw [Read.deviceReadSectorsPtr, deviceReadSectorsPtr]
  rcases hz : s.zso with _ | r <;> rw [hz] at hcompressed <;> rw [← hcompressed]
  · simp only [Read.State.ask, hz]
    exact ⟨⟨hs.probed, hcompressed, hs.mediaLsnCount, hs.err, fun r hr => by cases hr⟩, h0, htail⟩
  · obtain ⟨hcount, htotal⟩ := Read.zisoReadSector_count disc (s.device 0) r lsn n
    have hr := hs.totalBlock r hz
    simp only [Read.State.ask, hz, Read.deviceReadSectorsCompressed, hcount, hr]
    refine ⟨⟨hs.probed, hcompressed, hs.mediaLsnCount, hs.err, fun r' hr' => ?_⟩, rfl, htail⟩
    cases hr'
    exact htotal.trans hr

theorem Follows.setErr {s : Read.State} {st : State} (h : Follows disc s st) (err : CdErr) :
    Follows disc { s with err } { st with err } :=
  ⟨h.probed, h.compressed, h.mediaLsnCount, rfl, h.totalBlock⟩

theorem readLoop_simulates (disc : Disc) (st : State) {lsn n : ℕ} (hlt : lsn + n < 2 ^ 32) :
    Simulates disc (fun s => (Read.readLoop cfg disc s lsn n).1) st
      (readLoop cfg disc dev st lsn n).1 := by
  induction n using Nat.strong_induction_on generalizing st lsn with
  | _ n ih =>
    by_cases hn : n = 0
    · refine ⟨[], fun s rest hs hd => ?_⟩
      beta_reduce
      rw [Read.readLoop, dif_pos hn, readLoop, dif_pos hn]
      exact ⟨hs, hd⟩
    have hpos := sectorsToRead_pos cfg hn
    have hle : sectorsToRead cfg n ≤ n := by grind [sectorsToRead]
    obtain ⟨answer, hchunk⟩ := deviceReadSectorsPtr_simulates disc dev st lsn (sectorsToRead cfg n)
    by_cases he : deviceReadSectorsPtr disc dev st.compressed lsn (sectorsToRead cfg n) = .no
    · obtain ⟨answers, hrest⟩ := ih (n - sectorsToRead cfg n) (by omega) { st with err := .no }
        (show lsn + sectorsToRead cfg n + (n - sectorsToRead cfg n) < 2 ^ 32 by omega)
      refine ⟨[answer] ++ answers, fun s rest hs hd => ?_⟩
      obtain ⟨hs', herr, hd'⟩ := hchunk s _ hs
        (hd.trans (Stream'.append_append_stream [answer] answers rest))
      beta_reduce
      rw [Read.readLoop, dif_neg hn, readLoop, dif_neg hn]
      simp only [herr, he, ne_eq, not_true, if_false]
      rw [Nat.mod_eq_of_lt (by omega)]
      refine hrest _ rest ?_ hd'
      exact ⟨hs'.probed, hs'.compressed, hs'.mediaLsnCount, rfl, hs'.totalBlock⟩
    · refine ⟨[answer], fun s rest hs hd => ?_⟩
      obtain ⟨hs', herr, hd'⟩ := hchunk s rest hs hd
      beta_reduce
      rw [Read.readLoop, dif_neg hn, readLoop, dif_neg hn]
      simp only [herr, he, ne_eq, not_false_eq_true, if_true]
      exact ⟨hs'.setErr _, hd'⟩

theorem probe_simulates (cfg : Config) (disc : Disc) (dev : Device) (st : State) :
    ∃ answers : List CdErr, ∀ (s : Read.State) (rest : Stream' CdErr),
      Follows disc s st → errors s.device = answers ++ₛ rest →
        Follows disc (Read.probe cfg disc s).1 (probe disc dev st).1 ∧
          (Read.probe cfg disc s).2 = (probe disc dev st).2 ∧
          errors (Read.probe cfg disc s).1.device = rest := by
  cases hp : st.probed with
  | true =>
    refine ⟨[], fun s rest hs hd => ?_⟩
    rw [Read.probe, if_pos (hs.probed.trans hp), probe, if_pos hp]
    exact ⟨hs, rfl, hd⟩
  | false =>
    refine ⟨[answer dev.raw 0 1], fun s rest hs hd => ?_⟩
    have hsp : s.probed = false := hs.probed.trans hp
    have h0 : (s.device 0).err = answer dev.raw 0 1 := congrFun hd 0
    have htail : errors (fun n => s.device (n + 1)) = rest :=
      funext fun n => congrFun hd (n + 1)
    rw [Read.probe, hsp, probe, hp, Read.probeZSO, probeZSO]
    simp only [Read.State.ask, h0, Bool.false_eq_true, if_false]
    split_ifs
    · exact ⟨⟨hs.probed, hs.compressed, hs.mediaLsnCount, hs.err, hs.totalBlock⟩, rfl, htail⟩
    · refine ⟨⟨rfl, rfl, hs.mediaLsnCount, hs.err, fun r hr => ?_⟩, rfl, htail⟩
      obtain rfl := Option.some.inj hr
      rfl
    · exact ⟨⟨rfl, hs.compressed, hs.mediaLsnCount, hs.err, hs.totalBlock⟩, rfl, htail⟩

theorem readSectors_simulates (disc : Disc) (st : State) {lsn n : ℕ} (hlt : lsn + n < 2 ^ 32) :
    Simulates disc (fun s => (Read.readSectors cfg disc s lsn n).1) st
      (readSectors cfg disc dev st lsn n).1 := by
  have hbeyond : ∀ s, Follows disc s st →
      (beyondMedia st lsn = true ↔ s.mediaLsnCount ≠ 0 ∧ s.mediaLsnCount ≤ lsn) := fun s hs => by
    rw [beyondMedia, decide_eq_true_iff, hs.mediaLsnCount]
  by_cases hb : beyondMedia st lsn = true
  · refine ⟨[], fun s rest hs hd => ?_⟩
    beta_reduce
    rw [Read.readSectors, if_pos ((hbeyond s hs).mp hb), readSectors, if_pos hb]
    exact ⟨hs.setErr .ipi, hd⟩
  have hpast : ∀ s : Read.State, Follows disc s st →
      Read.pastMedia s lsn n = pastMedia st lsn n := by
    intro s hs
    rw [Read.pastMedia, pastMedia, Nat.mod_eq_of_lt hlt, hs.mediaLsnCount]
  obtain ⟨answers, hprobe⟩ := probe_simulates cfg disc dev st
  have hlimit : lsn + (if pastMedia st lsn n then st.mediaLsnCount - lsn else n) < 2 ^ 32 := by
    split_ifs with h
    · simp only [pastMedia, decide_eq_true_eq, Nat.mod_eq_of_lt hlt] at h
      omega
    · exact hlt
  obtain ⟨answers', hloop⟩ := @readLoop_simulates cfg dev disc
    { (probe disc dev st).1 with err := .no } lsn _ hlimit
  cases hok : (probe disc dev st).2 with
  | false =>
    refine ⟨answers, fun s rest hs hd => ?_⟩
    obtain ⟨hst, hres, hdev⟩ := hprobe s rest hs hd
    beta_reduce
    rw [Read.readSectors, if_neg (mt (hbeyond s hs).mpr hb), readSectors, if_neg hb]
    simp only [hres, hok, Bool.false_eq_true, if_false]
    exact ⟨hst, hdev⟩
  | true =>
    refine ⟨answers ++ answers', fun s rest hs hd => ?_⟩
    obtain ⟨hst, hres, hdev⟩ := hprobe s _ hs
      (hd.trans (Stream'.append_append_stream answers answers' rest))
    obtain ⟨hst', hdev'⟩ := hloop { (Read.probe cfg disc s).1 with err := .no } rest
      (hst.setErr .no) hdev
    beta_reduce
    rw [Read.readSectors, if_neg (mt (hbeyond s hs).mpr hb), readSectors, if_neg hb]
    simp only [hres, hok, hpast s hs, hs.mediaLsnCount, if_true]
    refine ⟨?_, hdev'⟩
    rw [hst'.err]
    exact hst'.setErr _

/-- A request of the reader as a call. -/
def Call.of (r : Read.Request) : Call :=
  { lsn := r.lsn, sectors := r.sectors, sectorSize := r.sectorSize, buf := r.buf,
    lsn_lt := (Nat.le_add_right _ _).trans_lt r.lsn_add_sectors_lt }

theorem bounceLoop_simulates (disc : Disc) (r : Read.Request) (st : State) {rpos n : ℕ}
    (hlt : rpos + n < 2 ^ 32) :
    Simulates disc (fun s => (Read.bounceLoop cfg disc r s rpos n).1) st
      (bounceLoop cfg disc dev (Call.of r) st rpos n).1 := by
  induction n using Nat.strong_induction_on generalizing st rpos with
  | _ n ih =>
    by_cases hn : n = 0
    · refine ⟨[], fun s rest hs hd => ?_⟩
      beta_reduce
      rw [Read.bounceLoop, dif_pos hn, bounceLoop, dif_pos hn]
      exact ⟨hs, hd⟩
    have hpos := r.bounceSectors_pos cfg
    have hwidth : (Call.of r).bounceSectors cfg = r.bounceSectors cfg := rfl
    have hpiece : rpos + min n (r.bounceSectors cfg) < 2 ^ 32 := by omega
    obtain ⟨answers, h⟩ := (@readSectors_simulates cfg dev disc st _ _ hpiece).comp
      (ih (n - min n (r.bounceSectors cfg)) (by omega)
        (readSectors cfg disc dev st rpos (min n (r.bounceSectors cfg))).1
        (show rpos + min n (r.bounceSectors cfg) + (n - min n (r.bounceSectors cfg)) < 2 ^ 32 by
          omega))
    refine ⟨answers, fun s rest hs hd => ?_⟩
    beta_reduce
    rw [Read.bounceLoop, dif_neg hn, bounceLoop, dif_neg hn, hwidth]
    simp only [Nat.mod_eq_of_lt hpiece]
    exact h s rest hs hd

/-- **The reader of `OpenPS2Loader.Read`**, given the answers of a device with bad sectors, leaves
the variables that are computed here. -/
theorem read_simulates (disc : Disc) (r : Read.Request) (st : State) :
    Simulates disc (fun s => (Read.read cfg disc s r).1) st
      (read cfg disc dev st (Call.of r)).1 := by
  by_cases hb : r.bounced = true
  · have hread : ∀ s, (Read.read cfg disc s r).1 =
        (Read.bounceLoop cfg disc r s r.lsn r.sectors).1 := fun s => by
      rw [Read.read, if_pos hb]
    rw [read, if_pos (show (Call.of r).bounced = true from hb)]
    simp only [hread]
    exact bounceLoop_simulates disc r st r.lsn_add_sectors_lt
  · have hread : ∀ s, (Read.read cfg disc s r).1 =
        (Read.readSectors cfg disc s r.lsn r.sectors).1 := fun s => by
      rw [Read.read, if_neg hb]
    rw [read, if_neg (show ¬ (Call.of r).bounced = true from hb)]
    simp only [hread]
    exact readSectors_simulates disc st r.lsn_add_sectors_lt

end ReadErrors

end OpenPS2Loader
