import OpenPS2Loader.Config.Syntax
import OpenPS2Loader.Util.LineSplit

/-!
# Small config files

`configRead` reads a file of at most 4096 bytes at once, `configOpenSingleShot`, and goes back to
the window of 4096 bytes of `openFileBuffer` when it is larger or a call fails.

## Main definitions

* `Config.configOpenSingleShot`, `Config.Opens` — the file buffers from which `configRead` reads
* `FileBuffer.skipBom` — the content of a file

## Main results

* `Config.configOpenSingleShot_agrees` — the set does not depend on the way the file is opened
-/

namespace OpenPS2Loader

namespace FileBuffer

/-- The bytes behind the byte order mark, if there is one. -/
def skipBom (file : Text) : Text := if file.take 3 = bom then file.drop 3 else file

theorem opened_openFileBuffer (size : ℕ) (file : Text) :
    Opened size (skipBom file) (openFileBuffer size file) := by
  rw [skipBom]
  split_ifs with h
  · have hfile : bom ++ file.drop 3 = file := by rw [← h, List.take_append_drop]
    have hopened : Opened size (file.drop 3) (openFileBuffer size (bom ++ file.drop 3)) :=
      .fileWithBom
    rwa [hfile] at hopened
  · exact .file h

theorem nul_not_mem_skipBom {file : Text} (h : nul ∉ file) : nul ∉ skipBom file := by
  rw [skipBom]
  split_ifs
  · exact fun hmem => h (List.mem_of_mem_drop hmem)
  · exact h

/-- Lines of which the first one starts behind the byte order mark of the file, if there is one. -/
def dropBom : List Text → List Text
  | [] => []
  | l :: ls => skipBom l :: ls

/-- A byte order mark has no line feed, so it stands in the first line. -/
theorem skipBom_joinLines (ls : List Text) : skipBom (joinLines ls) = joinLines (dropBom ls) := by
  rcases ls with _ | ⟨l, ls⟩
  · rfl
  have hjoin (t : Text) : joinLines (t :: ls) = t ++ '\n' :: joinLines ls := by
    simp [joinLines]
  rw [dropBom, hjoin, hjoin, skipBom, skipBom]
  by_cases hlen : 3 ≤ l.length
  · rw [List.take_append_of_le_length hlen, List.drop_append_of_le_length hlen]
    split_ifs <;> rfl
  · have hl : l.take 3 ≠ bom := by
      intro h
      have hthree := congrArg List.length h
      rw [List.length_take] at hthree
      have : bom.length = 3 := rfl
      omega
    have hfile : (l ++ '\n' :: joinLines ls).take 3 ≠ bom := by
      intro h
      have hmem : '\n' ∈ (l ++ '\n' :: joinLines ls).take 3 := by
        rw [List.take_append, List.mem_append]
        refine .inr ?_
        obtain ⟨n, hn⟩ := Nat.exists_eq_add_of_lt (Nat.lt_of_not_le hlen)
        rw [show 3 - l.length = n + 1 by omega, List.take_succ_cons]
        exact List.mem_cons_self
      rw [h] at hmem
      exact absurd hmem (by decide)
    rw [if_neg hl, if_neg hfile]

theorem skipBom_suffix (l : Text) : skipBom l <:+ l := by
  rw [skipBom]
  split_ifs
  · exact List.drop_suffix 3 l
  · exact List.suffix_rfl

end FileBuffer

namespace Config

open FileBuffer (skipBom dropBom)

/-- How the calls of `configOpenSingleShot` end. -/
structure SingleShotEnv where
  /-- The file is opened. -/
  opened : Bool
  /-- `buf` is allocated. -/
  allocated : Bool
  /-- What `read` returns. When it is the size of the file, its bytes are in `buf`. -/
  rd : ℤ
  /-- The file buffer and its bytes are allocated. -/
  bufferAllocated : Bool

/-- `configOpenSingleShot`. -/
def configOpenSingleShot (env : SingleShotEnv) (file : Text) : Option FileBuffer :=
  let sz : ℤ := file.length
  if !env.opened || sz ≤ 0 || 4096 < sz || !env.allocated || env.rd ≠ sz then none
  else
    let off := if 3 ≤ sz ∧ file.take 3 = FileBuffer.bom then 3 else 0
    if env.bufferAllocated then some (FileBuffer.openFileBufferBuffer (file.drop off)) else none

/-- No call fails. -/
structure SingleShotEnv.Succeeds (env : SingleShotEnv) (file : Text) : Prop where
  opened : env.opened = true
  allocated : env.allocated = true
  rd : env.rd = file.length
  bufferAllocated : env.bufferAllocated = true

/-- The buffer that is opened has the content of the file in it. -/
theorem eq_of_configOpenSingleShot {env : SingleShotEnv} {file : Text} {fb : FileBuffer}
    (h : configOpenSingleShot env file = some fb) :
    fb = FileBuffer.openFileBufferBuffer (skipBom file) := by
  rw [configOpenSingleShot] at h
  dsimp only at h
  split_ifs at h with hfail halloc hbom
  · rw [← Option.some.inj h, skipBom, if_pos hbom.2]
  · have hne : file.take 3 ≠ FileBuffer.bom := by
      intro htake
      refine hbom ⟨?_, htake⟩
      have hlen := congrArg List.length htake
      rw [List.length_take] at hlen
      have : FileBuffer.bom.length = 3 := rfl
      omega
    rw [← Option.some.inj h, skipBom, if_neg hne, List.drop_zero]

/-- `configRead` reads a file at once, and through the window when that fails. -/
def Opens (fb : FileBuffer) (file : Text) : Prop :=
  (∃ env, configOpenSingleShot env file = some fb) ∨ fb = FileBuffer.openFileBuffer 4096 file

theorem opens_openFileBuffer (file : Text) : Opens (FileBuffer.openFileBuffer 4096 file) file :=
  .inr rfl

/-- What is read from a file that is given by pieces, which may be several lines each. -/
theorem Opens.lines {fb : FileBuffer} {ps : List Text} (h : Opens fb (joinLines ps))
    (hps : ∀ p ∈ ps, nul ∉ p ∧ p.length ≤ 4093) :
    fb.lines = some (FileBuffer.visible (dropBom (subLines ps))) := by
  have hopens : fb.Opens (joinLines (dropBom (subLines ps))) := by
    rw [← FileBuffer.skipBom_joinLines, joinLines_subLines]
    rcases h with ⟨env, henv⟩ | rfl
    · exact .inr (eq_of_configOpenSingleShot henv)
    · exact .inl rfl
  have hline : ∀ l ∈ subLines ps, '\n' ∉ l ∧ nul ∉ l ∧ l.length ≤ 4094 := by
    intro l hl
    obtain ⟨p, hp, hl⟩ := List.mem_flatMap.mp hl
    obtain ⟨hlf, hlen, hmem⟩ := mem_splitLines hl
    obtain ⟨hnul, hbound⟩ := hps p hp
    rw [List.length_append, List.length_singleton] at hlen
    refine ⟨hlf, fun hn => ?_, by omega⟩
    rcases List.mem_append.mp (hmem nul hn) with hn | hn
    · exact hnul hn
    · exact absurd hn (by decide)
  refine FileBuffer.lines_of_opens hopens ?_
  generalize subLines ps = ls at hline
  rcases ls with _ | ⟨l, ls⟩
  · exact fun l hl => by cases hl
  · intro m hm
    rcases List.mem_cons.mp hm with rfl | hm
    · obtain ⟨hlf, hnul, hlen⟩ := hline l List.mem_cons_self
      have hsub := FileBuffer.skipBom_suffix l
      exact ⟨fun hin => hlf (hsub.mem hin), fun hin => hnul (hsub.mem hin),
        hsub.length_le.trans hlen⟩
    · exact hline m (List.mem_cons_of_mem l hm)

theorem isSome_configOpenSingleShot {env : SingleShotEnv} {file : Text} (henv : env.Succeeds file)
    (hpos : 1 ≤ file.length) (hlen : file.length ≤ 4096) :
    (configOpenSingleShot env file).isSome = true := by
  have hne : file ≠ [] := List.ne_nil_of_length_pos hpos
  have hfits : ¬ 4096 < (file.length : ℤ) := by omega
  rw [configOpenSingleShot]
  simp [henv.opened, henv.allocated, henv.rd, henv.bufferAllocated, hne, hfits]

/-- **Both ways of opening** a small file lead to the same set: its lines fit the window, and it
does not end with a comment that has no line feed. -/
theorem configOpenSingleShot_agrees {file : Text} (hpos : 1 ≤ file.length)
    (hlen : file.length ≤ 4096) (hnul : nul ∉ file)
    (hlines : ∀ l ∈ splitLines (skipBom file), l.length ≤ 4094)
    (hlast : ¬ FileBuffer.EndsInComment (skipBom file)) (s : ConfigSet) :
    ∃ s', configReadFileBuffer (FileBuffer.openFileBuffer 4096 file) s = some s' ∧
      (∀ env fb, configOpenSingleShot env file = some fb → configReadFileBuffer fb s = some s') ∧
      ∀ env : SingleShotEnv, env.Succeeds file →
        (configOpenSingleShot env file).isSome = true := by
  have hsize : ∀ l ∈ splitLines (skipBom file ++ ['\n']), l.length + 1 < 4096 := by
    intro l hl
    rcases mem_splitLines_concat_lf hl with hl | rfl
    · have := hlines l hl
      omega
    · decide
  have hread {fb : FileBuffer} (hfb : FileBuffer.Opened 4096 (skipBom file) fb) :
      configReadFileBuffer fb s =
        some (readLines s (FileBuffer.visible (splitLines (skipBom file)))) := by
    rw [configReadFileBuffer,
      FileBuffer.lines_of_opened hfb (FileBuffer.nul_not_mem_skipBom hnul) hsize hlast,
      Option.map_some]
  refine ⟨_, hread (FileBuffer.opened_openFileBuffer 4096 file), fun env fb hfb => ?_,
    fun env henv => isSome_configOpenSingleShot henv hpos hlen⟩
  rw [eq_of_configOpenSingleShot hfb]
  exact hread .buffer

/-- A byte order mark, `#c`, and `a=1` without a line feed. -/
def markedFile : Text := FileBuffer.bom ++ "#c\na=1".toList

theorem configOpenSingleShot_agrees_markedFile :
    ∃ s', configReadFileBuffer (FileBuffer.openFileBuffer 4096 markedFile) configAlloc = some s' ∧
      (∀ env fb, configOpenSingleShot env markedFile = some fb →
        configReadFileBuffer fb configAlloc = some s') ∧
      ∀ env : SingleShotEnv, env.Succeeds markedFile →
        (configOpenSingleShot env markedFile).isSome = true :=
  configOpenSingleShot_agrees (by decide) (by decide) (by decide) (by decide) (by decide)
    configAlloc

end Config

end OpenPS2Loader
