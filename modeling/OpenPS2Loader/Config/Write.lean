import OpenPS2Loader.Config.Legacy
import OpenPS2Loader.Config.Libconfig

/-!
# Saving a config set

`configWrite` opens the file with `O_TRUNC`, which empties it, and writes the set through a file
buffer. Before that it takes a snapshot of the file, and when the save fails it writes the snapshot
back, provided the file is now shorter than the snapshot was. On a failed close the file is read
back and compared with what was to be written.

A write that fails after some of its bytes reached the file leaves a prefix there. When that prefix
is not shorter than the file was, it is taken for an undamaged file and stays.

## Main definitions

* `WriteEnv` — how the calls of a save end
* `configWrite` — the save
* `Atomic` — the file is the old one or the new one, whatever fails

## Main results

* `atomic_iff` — the sets and files for which a save is atomic
-/

namespace OpenPS2Loader

namespace Config

/-! ### The save -/

/-- How `openFileBuffer` with `O_TRUNC` ends: it may fail without touching the file, or after the
file was emptied. -/
inductive OpenOutcome where
  | ok
  | failed
  | failedTruncated
  deriving DecidableEq

/-- How the calls of a save end. -/
structure WriteEnv where
  /-- `fileXioGetStat` fails: the file is absent. -/
  statFails : Bool
  /-- The snapshot is opened, allocated and read completely. -/
  snapshotOk : Bool
  openOutcome : OpenOutcome
  /-- The `write` calls of the file buffer. -/
  outcome : ℕ → WriteOutcome
  closeOk : Bool
  /-- The copy of what is to be written is allocated. -/
  intendedOk : Bool
  /-- The file is opened and read back completely. -/
  verifyOk : Bool
  /-- The file is opened to look at its length. -/
  checkOk : Bool
  /-- The file is opened to write the snapshot back. -/
  restoreOk : Bool
  restoreOutcome : WriteOutcome

/-- `CONFIG_MAX_RESTORE_BYTES`. -/
def configMaxRestoreBytes : ℕ := 256 * 1024

/-- `configPathIsRawApa`: `hddN:`. -/
def configPathIsRawApa (path : Text) : Bool :=
  path.take 3 = "hdd".toList && path[3]?.any (fun c => '0' ≤ c && c ≤ '9') && path[4]? = some ':'

/-- A memory card: one open, no snapshot. -/
def singleOpenDevice (path : Text) : Bool := path.take 2 = "mc".toList

/-- A file system whose cache makes reading back prove nothing. -/
def isPfs (path : Text) : Bool := path.take 3 = "pfs".toList

/-- Opening, writing, closing and, when the close failed, reading back: whether the save succeeded,
and the file it leaves. -/
def writeNew (env : WriteEnv) (path : Text) (s : ConfigSet) (file : Option Text) :
    Bool × Option Text :=
  match env.openOutcome with
  | .failed => (false, file)
  | .failedTruncated => (false, some [])
  | .ok =>
    let wb := WriteBuffer.writeAll env.outcome (WriteBuffer.openFileBuffer 4096) (pieces s)
    -- the buffer is all that is to be written only when nothing was flushed early
    let intended := wb.buffer ≠ [] && wb.totalQueued = wb.buffer.length && env.intendedOk
    let (ok, bytes) := WriteBuffer.closeFileBuffer env.outcome env.closeOk wb
    let verified := intended && !singleOpenDevice path && !isPfs path && env.verifyOk &&
      bytes = wb.buffer
    (ok || verified, some bytes)

/-- What is left after a failed save: the snapshot is written back when the file is shorter. -/
def restore (env : WriteEnv) (original file : Option Text) : Option Text :=
  match original with
  | none => file
  | some bytes =>
    let curLen := if env.checkOk then (file.map List.length).getD 0 else 0
    if curLen < bytes.length ∧ env.restoreOk then
      some (WriteBuffer.landed env.restoreOutcome bytes)
    else file

/-- `configWrite` of a set with the file name `path`, where the file is `file` before: whether it
returns 1, and the set and the file afterwards. -/
def configWrite (env : WriteEnv) (path : Option Text) (s : ConfigSet) (file : Option Text) :
    Bool × ConfigSet × Option Text :=
  -- a populated set whose file is absent is saved even when nothing was modified
  let s := if !s.modified && path.isSome && s.items ≠ [] && env.statFails then
    { s with modified := true } else s
  if s.modified then
    match path with
    | none => (false, s, file)
    | some path =>
      if configPathIsRawApa path then (false, s, file)
      else
        let original := if !singleOpenDevice path && env.snapshotOk then
          file.filter fun b => b ≠ [] ∧ b.length ≤ configMaxRestoreBytes else none
        let (ok, file) := writeNew env path s file
        if ok then (true, { s with modified := false }, file)
        else (false, s, restore env original file)
  else (true, s, file)

/-- Whatever fails, as long as writing the snapshot back does not: a save that returns 0 leaves the
old file or the complete new one, and the set modified; a save that returns 1 leaves the complete
new file, or every write and the close reported success, and the set is not modified. -/
def Atomic (path : Text) (s : ConfigSet) (original : Text) : Prop :=
  ∀ env : WriteEnv, env.snapshotOk = true → env.restoreOk = true → env.restoreOutcome = none →
    let (ret, s', file) := configWrite env (some path) s (some original)
    (ret = false → (file = some original ∨ file = some (serialise s)) ∧ s'.modified = true) ∧
    (ret = true → (file = some (serialise s) ∨
      (∀ n, env.outcome n = none) ∧ env.closeOk = true) ∧ s'.modified = false)

/-! ### The pieces of a set -/

/-- A piece ends with a line feed, has something before it and fits the buffer. -/
structure IsPiece (p : Text) : Prop where
  line : ∃ q, p = q ++ ['\n'] ∧ ∃ c ∈ q, c ≠ '\n'
  length_le : p.length ≤ 4096

theorem isPiece_line {l : Text} (hmem : ∃ c ∈ l, c ≠ '\n') (hlen : l.length ≤ 4095) :
    IsPiece (l ++ ['\n']) :=
  ⟨⟨l, rfl, hmem⟩, by rw [List.length_append, List.length_singleton]; omega⟩

theorem isPiece_scalar {indent key : Text} (hindent : indent.length ≤ 2) (hkey : key.length ≤ 31)
    (b : CharBuf 255) : IsPiece (cfgWriteLibconfigLine indent key b.text) := by
  rw [cfgWriteLibconfigLine_eq hindent hkey]
  have := length_scalarLine_le hkey b
  refine isPiece_line ⟨'=', ?_, by decide⟩ ?_
  · simp [scalarLine]
  · rw [List.length_append]
    omega

theorem isPiece_of_mem_pieces {s : ConfigSet} {p : Text} (hp : p ∈ pieces s) : IsPiece p := by
  rw [pieces] at hp
  split at hp
  · rcases List.mem_append.mp hp with hp | hp
    · obtain ⟨it, -, rfl⟩ := List.mem_map.mp hp
      exact isPiece_scalar (Nat.zero_le _) (length_rootName_le it) it.val
    · obtain ⟨g, hg, hp⟩ := List.mem_flatMap.mp hp
      have hheader : ∀ g ∈ cfgLibconfigGroups,
          snprintf 128 (g ++ " :\n\x7b\n".toList) = (g ++ " :\n\x7b".toList) ++ ['\n'] ∧
            ':' ∈ g ++ " :\n\x7b".toList ∧ (g ++ " :\n\x7b".toList).length ≤ 4095 := by decide
      rw [writeGroup] at hp
      split_ifs at hp
      · cases hp
      · rw [List.cons_append, List.mem_cons, List.mem_append, List.mem_singleton] at hp
        rcases hp with rfl | hp | rfl
        · obtain ⟨heq, hmem, hlen⟩ := hheader g hg
          rw [heq]
          exact isPiece_line ⟨':', hmem, by decide⟩ hlen
        · obtain ⟨it, -, hp⟩ := List.mem_filterMap.mp hp
          obtain ⟨key, hkey, rfl⟩ := Option.map_eq_some_iff.mp hp
          exact isPiece_scalar (by decide)
            (groupOf_eq_some (keyIn_eq_some hkey)).2.1.length_le it.val
        · exact isPiece_line (l := ['}', ';']) ⟨'}', by decide⟩ (by decide)
  · obtain ⟨it, -, rfl⟩ := List.mem_map.mp hp
    have := length_legacyLine_le it
    rw [writeLegacyLine_eq]
    exact isPiece_line ⟨'=', by simp [legacyLine], by decide⟩ (by omega)

/-- Pieces, one after the other, end with a line feed and have something before it. -/
theorem flatten_isPiece {ps : List Text} (h : ∀ p ∈ ps, IsPiece p) (hne : ps ≠ []) :
    ∃ q, ps.flatten = q ++ ['\n'] ∧ ∃ c ∈ q, c ≠ '\n' := by
  rcases List.eq_nil_or_concat ps with rfl | ⟨init, p, rfl⟩
  · exact absurd rfl hne
  · obtain ⟨q, rfl, c, hc, hcne⟩ := (h p (by simp)).line
    exact ⟨init.flatten ++ q, by simp, c, List.mem_append_right _ hc, hcne⟩

/-- A line feed can be moved over line feeds only. -/
theorem all_lf_of_append_eq {b : Text} (h : b ++ ['\n'] = '\n' :: b) : ∀ c ∈ b, c = '\n' := by
  induction b with
  | nil => simp
  | cons c b ih =>
    rw [List.cons_append, List.cons.injEq] at h
    obtain ⟨rfl, h⟩ := h
    intro d hd
    rcases List.mem_cons.mp hd with rfl | hd
    · rfl
    · exact ih h d hd

/-! ### What a save leaves -/

section Save

variable {env : WriteEnv} {path : Text} {s : ConfigSet} {original : Text}

theorem length_le_of_mem_pieces : ∀ p ∈ pieces s, p.length ≤ 4096 := fun _ hp =>
  (isPiece_of_mem_pieces hp).length_le

/-- The `write` calls of a save. -/
def saveCalls (s : ConfigSet) : List Text := WriteBuffer.calls 4096 (pieces s)

theorem mem_saveCalls {c : Text} (hc : c ∈ saveCalls s) : c ≠ [] ∧ c.length ≤ 4096 :=
  WriteBuffer.mem_calls length_le_of_mem_pieces c hc

theorem saveCalls_flatten (s : ConfigSet) : (saveCalls s).flatten = serialise s :=
  WriteBuffer.calls_flatten 4096 (pieces s)

/-- When the file was opened, what the calls left is in it; and when the save counts as successful
it is the complete new file. -/
theorem writeNew_of_ok (hopen : env.openOutcome = .ok) (file : Option Text) :
    (writeNew env path s file).2 = some (WriteBuffer.landedAll env.outcome 0 (saveCalls s)) ∧
      ((writeNew env path s file).1 = true →
        WriteBuffer.landedAll env.outcome 0 (saveCalls s) = serialise s) := by
  rw [writeNew, hopen]
  dsimp only
  rw [WriteBuffer.closeFileBuffer_writeAll length_le_of_mem_pieces,
    WriteBuffer.writeAll_eq _ length_le_of_mem_pieces]
  refine ⟨rfl, fun hok => ?_⟩
  rw [Bool.or_eq_true] at hok
  rcases hok with hok | hverified
  · rw [Bool.and_eq_true, Bool.not_eq_true'] at hok
    rw [saveCalls, WriteBuffer.landedAll_of_ok hok.1, ← saveCalls, saveCalls_flatten]
  · -- nothing was flushed early, so the buffer was the whole new file
    simp only [Bool.and_eq_true, decide_eq_true_eq] at hverified
    obtain ⟨⟨⟨⟨⟨⟨-, hqueued⟩, -⟩, -⟩, -⟩, -⟩, hbytes⟩ := hverified
    rw [saveCalls, hbytes, serialise]
    have hflat := WriteBuffer.schedule_flatten 4096 [] (pieces s)
    rw [List.nil_append] at hflat
    dsimp only [WriteBuffer.openFileBuffer] at hqueued hflat ⊢
    rw [Nat.zero_add, ← hflat, List.length_append] at hqueued
    rw [← hflat, List.eq_nil_of_length_eq_zero (show
      (WriteBuffer.schedule 4096 [] (pieces s)).1.flatten.length = 0 by omega), List.nil_append]

/-- The file after a failed save whose snapshot could be written back: the old file, or what the
calls left where that is not shorter. -/
theorem restore_cases (hok : env.restoreOk = true) (hout : env.restoreOutcome = none)
    (hne : original ≠ []) (bytes : Text) :
    restore env (some original) (some bytes) = some original ∨
      restore env (some original) (some bytes) = some bytes ∧
        original.length ≤ bytes.length := by
  have hpos := List.length_pos_iff.mpr hne
  have hlanded : some (WriteBuffer.landed env.restoreOutcome original) = some original := by
    rw [hout]
    rfl
  rw [restore, hok, Option.map_some, Option.getD_some]
  rcases hcheck : env.checkOk with _ | _
  · -- a file that cannot be opened counts as empty
    rw [if_neg Bool.false_ne_true, if_pos ⟨hpos, rfl⟩]
    exact .inl hlanded
  · rw [if_pos rfl]
    split_ifs with hcur
    · exact .inl hlanded
    · exact .inr ⟨rfl, Nat.not_lt.mp fun h => hcur ⟨h, rfl⟩⟩

/-- A file that is not shorter than the snapshot stays as it is. -/
theorem restore_of_le (hcheck : env.checkOk = true) {bytes : Text}
    (hle : original.length ≤ bytes.length) :
    restore env (some original) (some bytes) = some bytes := by
  rw [restore, hcheck, if_pos rfl, Option.map_some, Option.getD_some, if_neg fun h => by omega]

/-- Bytes that the calls leave, and that are not fewer than the old file has. -/
theorem landedAll_eq_original_or_serialise (hne : original ≠ [])
    (hcond : (serialise s).length ≤ original.length ∨
      (serialise s).length ≤ 4096 ∧ original = (serialise s).dropLast)
    (outcome : ℕ → WriteOutcome)
    (hle : original.length ≤ (WriteBuffer.landedAll outcome 0 (saveCalls s)).length) :
    WriteBuffer.landedAll outcome 0 (saveCalls s) = original ∨
      WriteBuffer.landedAll outcome 0 (saveCalls s) = serialise s := by
  have hflat := saveCalls_flatten s
  rcases hcond with hcond | ⟨hfits, horiginal⟩
  · right
    rw [← hflat]
    exact WriteBuffer.landedAll_eq_flatten (by rw [hflat]; omega)
  · -- there is one call, for the whole file
    have hnil : serialise s ≠ [] := fun h => hne (by rw [horiginal, h]; rfl)
    have hone : saveCalls s = [serialise s] := by
      have hsched := @WriteBuffer.schedule_of_fits 4096 [] (pieces s)
        (by simpa [serialise] using hfits)
      rw [List.nil_append, ← serialise] at hsched
      rw [saveCalls, WriteBuffer.calls, hsched, if_neg hnil]
      rfl
    rw [hone, WriteBuffer.landedAll, WriteBuffer.landedAll, List.append_nil] at hle ⊢
    generalize outcome 0 = o at hle ⊢
    rcases o with _ | k
    · exact .inr rfl
    · change original.length ≤ ((serialise s).take k).length at hle
      change (serialise s).take k = original ∨ (serialise s).take k = serialise s
      rw [horiginal, List.length_dropLast, List.length_take] at hle
      have hpos := List.length_pos_iff.mpr hnil
      rw [horiginal, List.dropLast_eq_take]
      rcases Nat.lt_or_ge k (serialise s).length with hk | hk
      · exact .inl (by rw [show k = (serialise s).length - 1 by omega])
      · exact .inr (List.take_of_length_le hk)

/-! ### A save in which one call fails -/

/-- A save in which only the call number `k` fails, after `n` bytes. -/
def failAt (k n : ℕ) : WriteEnv where
  statFails := false
  snapshotOk := true
  openOutcome := .ok
  outcome i := if i = k then some n else none
  closeOk := true
  intendedOk := true
  verifyOk := true
  checkOk := true
  restoreOk := true
  restoreOutcome := none

theorem anyFails_failAt {k n m : ℕ} {cs : List Text}
    (h : ∀ i, m ≤ i → i < m + cs.length → i ≠ k) :
    WriteBuffer.anyFails (failAt k n).outcome m cs = false := by
  induction cs generalizing m with
  | nil => rfl
  | cons c cs ih =>
    rw [List.length_cons] at h
    have hm : m ≠ k := h m (Nat.le_refl m) (by omega)
    rw [WriteBuffer.anyFails, ih fun i hi hlt => h i (by omega) (by omega)]
    simp [failAt, hm]

/-- What one failing call leaves. -/
theorem landedAll_failAt (cs : List Text) (c : Text) (ds : List Text) (n : ℕ) :
    WriteBuffer.landedAll (failAt cs.length n).outcome 0 (cs ++ c :: ds) =
      cs.flatten ++ c.take n ++ ds.flatten := by
  rw [WriteBuffer.landedAll_append, WriteBuffer.landedAll,
    WriteBuffer.landedAll_of_ok (anyFails_failAt fun i _ hi => by omega),
    WriteBuffer.landedAll_of_ok (anyFails_failAt fun i hi _ => by omega), List.append_assoc]
  simp [failAt, WriteBuffer.landed]

/-! ### When a save is atomic -/

section Snapshot

variable (hpath : singleOpenDevice path = false) (hraw : configPathIsRawApa path = false)
  (hmod : s.modified = true) (hne : original ≠ []) (hlen : original.length ≤ configMaxRestoreBytes)

include hpath hraw hmod hne hlen

/-- A save with a snapshot, of a path that is written. -/
theorem configWrite_of_snapshot (henv : env.snapshotOk = true) :
    configWrite env (some path) s (some original) =
      if (writeNew env path s (some original)).1 then
        (true, { s with modified := false }, (writeNew env path s (some original)).2)
      else (false, s, restore env (some original) (writeNew env path s (some original)).2) := by
  have hfilter : (some original).filter
      (fun b => decide (b ≠ [] ∧ b.length ≤ configMaxRestoreBytes)) = some original := by
    simp [Option.filter, hne, hlen]
  rw [configWrite]
  simp only [hmod, Bool.not_true, Bool.false_and, Bool.false_eq_true, if_false, if_true, hraw,
    hpath, henv, Bool.not_false, Bool.and_self, hfilter]

/-- In an atomic save, what a failing call leaves is the old file, unless it is the new one or
shorter than the old one. -/
theorem eq_original_of_atomic (h : Atomic path s original) {k n : ℕ} {bytes : Text}
    (hbytes : WriteBuffer.landedAll (failAt k n).outcome 0 (saveCalls s) = bytes)
    (hnew : bytes.length + 1 = (serialise s).length) (hle : original.length ≤ bytes.length) :
    bytes = original := by
  have hshort : bytes ≠ serialise s := fun heq => by
    rw [heq] at hnew
    omega
  have hatomic := h (failAt k n) rfl rfl rfl
  obtain ⟨hfile, hok⟩ := @writeNew_of_ok (failAt k n) path s rfl (some original)
  have hfail : ¬ (writeNew (failAt k n) path s (some original)).1 = true := fun htrue =>
    hshort (hbytes ▸ hok htrue)
  rw [configWrite_of_snapshot hpath hraw hmod hne hlen rfl, if_neg hfail, hfile, hbytes,
    restore_of_le rfl hle] at hatomic
  rcases (hatomic.1 rfl).1 with heq | heq
  · exact Option.some.inj heq
  · exact absurd (Option.some.inj heq) hshort

/-- The last call may lose its last byte. -/
theorem eq_dropLast_of_atomic (h : Atomic path s original)
    (hlt : original.length < (serialise s).length) : original = (serialise s).dropLast := by
  have hflat := saveCalls_flatten s
  rcases List.eq_nil_or_concat (saveCalls s) with hnil | ⟨init, c, hconcat⟩
  · rw [hnil] at hflat
    rw [← hflat] at hlt
    cases hlt
  rw [List.concat_eq_append] at hconcat
  have hcne : c ≠ [] := (mem_saveCalls (show c ∈ saveCalls s by rw [hconcat]; simp)).1
  have hlanded : WriteBuffer.landedAll (failAt init.length (c.length - 1)).outcome 0
      (saveCalls s) = (serialise s).dropLast := by
    rw [hconcat, landedAll_failAt, ← hflat, hconcat, List.flatten_append, List.flatten_singleton,
      List.dropLast_append_of_ne_nil hcne, List.dropLast_eq_take]
    exact List.append_nil _
  refine (eq_original_of_atomic hpath hraw hmod hne hlen h hlanded ?_ ?_).symm
  · rw [List.length_dropLast]
    omega
  · rw [List.length_dropLast]
    omega

/-- With an early flush, the first call may lose its last byte instead, which is not the same. -/
theorem length_le_of_atomic (h : Atomic path s original)
    (hlt : original.length < (serialise s).length) : (serialise s).length ≤ 4096 := by
  have horiginal := eq_dropLast_of_atomic hpath hraw hmod hne hlen h hlt
  have hflat := saveCalls_flatten s
  refine Nat.not_lt.mp fun hbig => ?_
  obtain ⟨c, cs, hcs⟩ : ∃ c cs, (WriteBuffer.schedule 4096 [] (pieces s)).1 = c :: cs := by
    rcases hsched : (WriteBuffer.schedule 4096 [] (pieces s)).1 with _ | ⟨c, cs⟩
    · -- what was never flushed fits the buffer
      have hsched' := WriteBuffer.schedule_flatten 4096 [] (pieces s)
      have hsize := (WriteBuffer.mem_schedule (show ([] : Text).length ≤ 4096 from Nat.zero_le _)
        (@length_le_of_mem_pieces s)).2
      rw [hsched, List.flatten_nil, List.nil_append, List.nil_append] at hsched'
      rw [hsched'] at hsize
      exact absurd hbig (Nat.not_lt.mpr hsize)
    · exact ⟨c, cs, rfl⟩
  obtain ⟨ps₁, ps₂, hps, hc, hps₂⟩ := WriteBuffer.schedule_first hcs
  obtain ⟨ds, hds⟩ : ∃ ds, saveCalls s = c :: ds :=
    ⟨_, by rw [saveCalls, WriteBuffer.calls, hcs]; rfl⟩
  have hps₁ : ps₁ ≠ [] := by
    rintro rfl
    exact (mem_saveCalls (show c ∈ saveCalls s by rw [hds]; exact List.mem_cons_self)).1 hc
  -- both parts end with a line feed, and the second one is not made of line feeds
  have hpieces : ∀ p ∈ ps₁ ++ ps₂, IsPiece p :=
    fun p hp => isPiece_of_mem_pieces (s := s) (hps ▸ hp)
  obtain ⟨a, ha, -⟩ := flatten_isPiece (fun p hp => hpieces p (List.mem_append_left _ hp)) hps₁
  obtain ⟨b, hb, d, hd, hdne⟩ :=
    flatten_isPiece (fun p hp => hpieces p (List.mem_append_right _ hp)) hps₂
  rw [List.nil_append, ha] at hc
  have hnew : serialise s = a ++ ['\n'] ++ (b ++ ['\n']) := by
    rw [serialise, hps, List.flatten_append, ha, hb]
  have hrest : ds.flatten = b ++ ['\n'] := by
    rw [hds, List.flatten_cons, hc, hnew, List.append_cancel_left_eq] at hflat
    exact hflat
  have hlanded : WriteBuffer.landedAll (failAt 0 a.length).outcome 0 (saveCalls s) =
      a ++ (b ++ ['\n']) := by
    rw [hds]
    refine (landedAll_failAt [] c ds a.length).trans ?_
    rw [hc, List.take_left, hrest]
    rfl
  have hlength : (a ++ (b ++ ['\n'])).length + 1 = (serialise s).length := by
    rw [hnew]
    simp only [List.length_append, List.length_cons, List.length_nil]
    omega
  have heq := eq_original_of_atomic hpath hraw hmod hne hlen h hlanded hlength (by
    rw [horiginal, List.length_dropLast]
    omega)
  rw [horiginal, hnew, ← List.append_assoc (a ++ ['\n']), List.dropLast_concat, List.append_assoc,
    List.append_cancel_left_eq, List.singleton_append] at heq
  exact hdne (all_lf_of_append_eq heq d hd)

theorem atomic_of_cond
    (hcond : (serialise s).length ≤ original.length ∨
      (serialise s).length ≤ 4096 ∧ original = (serialise s).dropLast) :
    Atomic path s original := by
  intro env hsnap hrestore hout
  rw [configWrite_of_snapshot hpath hraw hmod hne hlen hsnap]
  rcases hopen : env.openOutcome with _ | _ | _
  · obtain ⟨hfile, hok⟩ := @writeNew_of_ok env path s hopen (some original)
    split_ifs with hret
    · refine ⟨nofun, fun _ => ⟨.inl ?_, rfl⟩⟩
      rw [hfile, hok hret]
    · refine ⟨fun _ => ⟨?_, hmod⟩, nofun⟩
      rw [hfile]
      rcases restore_cases hrestore hout hne
        (WriteBuffer.landedAll env.outcome 0 (saveCalls s)) with heq | ⟨heq, hle⟩
      · exact .inl heq
      · rw [heq, Option.some.injEq, Option.some.injEq]
        exact landedAll_eq_original_or_serialise hne hcond env.outcome hle
  · have hnew : writeNew env path s (some original) = (false, some original) := by
      rw [writeNew, hopen]
    rw [hnew, if_neg Bool.false_ne_true]
    refine ⟨fun _ => ⟨.inl ?_, hmod⟩, nofun⟩
    rcases restore_cases hrestore hout hne original with heq | ⟨heq, -⟩ <;> exact heq
  · have hnew : writeNew env path s (some original) = (false, some []) := by
      rw [writeNew, hopen]
    rw [hnew, if_neg Bool.false_ne_true]
    refine ⟨fun _ => ⟨.inl ?_, hmod⟩, nofun⟩
    rcases restore_cases hrestore hout hne [] with heq | ⟨-, hle⟩
    · exact heq
    · exact absurd (List.eq_nil_of_length_eq_zero (Nat.le_zero.mp hle)) hne

end Snapshot

end Save

/-- **When a save is atomic.** Take a path that is not on a memory card, a set that has to be saved
and a file that is taken as a snapshot. The save is atomic exactly when the path is one that is
never written, or the new file is not longer than the old one, or the new file fits the buffer and
the old one is all of it but its last byte. -/
theorem atomic_iff (path : Text) (s : ConfigSet) (original : Text)
    (hpath : singleOpenDevice path = false) (hmod : s.modified = true) (hne : original ≠ [])
    (hlen : original.length ≤ configMaxRestoreBytes) :
    Atomic path s original ↔
      configPathIsRawApa path = true ∨ (serialise s).length ≤ original.length ∨
        (serialise s).length ≤ 4096 ∧ original = (serialise s).dropLast := by
  rcases hraw : configPathIsRawApa path with _ | _
  · rw [Bool.false_eq_true, false_or]
    constructor
    · intro h
      rcases Nat.lt_or_ge original.length (serialise s).length with hlt | hge
      · exact .inr ⟨length_le_of_atomic hpath hraw hmod hne hlen h hlt,
          eq_dropLast_of_atomic hpath hraw hmod hne hlen h hlt⟩
      · exact .inl hge
    · exact atomic_of_cond hpath hraw hmod hne hlen
  · refine ⟨fun _ => .inl rfl, fun _ env _ _ _ => ?_⟩
    rw [configWrite]
    simp [hmod, hraw]

/-- A set whose file is `title=A`. -/
def titleSet : ConfigSet where
  items := [allocConfigItem "title".toList "A".toList]
  modified := true
  format := .legacy

theorem atomic_titleSet : Atomic "mass0:a.cfg".toList titleSet "title=AB\n".toList :=
  (atomic_iff _ _ _ (by decide) rfl (by decide) (by decide)).mpr (.inr (.inl (by decide)))

/-- The old file is `a=1`, and the write of the new one fails after five of its eight bytes. The
file that is left is longer than the old one, so it is not restored. -/
theorem not_atomic_titleSet :
    singleOpenDevice "mass0:a.cfg".toList = false ∧ titleSet.modified = true ∧
    "a=1\n".toList.length = 4 ∧ ¬ Atomic "mass0:a.cfg".toList titleSet "a=1\n".toList := by
  refine ⟨by decide, rfl, by decide, fun h => ?_⟩
  have hatomic := h (failAt 0 5) rfl rfl rfl
  have hwrite : configWrite (failAt 0 5) (some "mass0:a.cfg".toList) titleSet
      (some "a=1\n".toList) = (false, titleSet, some "title".toList) := by decide +kernel
  rw [hwrite] at hatomic
  exact absurd (hatomic.1 rfl).1 (by decide +kernel)

end Config

end OpenPS2Loader
