import OpenPS2Loader.Config.SingleShot

/-!
# Round trip in our own syntax

A set whose keys and values survive as lines `key=value` is written by `configWrite`, and the bytes
are read back by `configReadFileBuffer`.

## Main definitions

* `LegacyItem` — a node that survives as a line
* `legacyLine` — its line

## Main results

* `readLines_legacyLine` — reading the lines of a list of nodes stores these nodes
* `legacyRoundTrips_iff` — when the set that is read is the set that was written
-/

namespace OpenPS2Loader

namespace Config

open FileBuffer (skipBom dropBom)

/-- A node that survives as a line: the key is not empty and has no `=`, no CR, no LF, no blank at
its ends and no `#` or `/` at its beginning; the value has no CR and no LF. -/
structure LegacyItem (it : ConfigValue) : Prop where
  key_ne_nil : it.key.text ≠ []
  key_eq : '=' ∉ it.key.text
  key_cr : '\r' ∉ it.key.text
  key_lf : '\n' ∉ it.key.text
  key_head : ∀ c ∈ it.key.text.head?, isWS c = false ∧ c ≠ '#' ∧ c ≠ '/'
  key_last : ∀ c ∈ it.key.text.getLast?, isWS c = false
  val_cr : '\r' ∉ it.val.text
  val_lf : '\n' ∉ it.val.text

/-- `key=value`. -/
def legacyLine (it : ConfigValue) : Text := it.key.text ++ '=' :: it.val.text

theorem length_legacyLine_le (it : ConfigValue) : (legacyLine it).length ≤ 287 := by
  have := it.key.length_le
  have := it.val.length_le
  rw [legacyLine, List.length_append, List.length_cons]
  omega

/-- The buffer of `configWrite` is large enough for every line. -/
theorem writeLegacyLine_eq (it : ConfigValue) : writeLegacyLine it = legacyLine it ++ ['\n'] := by
  rw [writeLegacyLine, snprintf, List.take_of_length_le]
  · rfl
  · have := length_legacyLine_le it
    rw [← legacyLine, List.length_append, List.length_singleton]
    omega

theorem nul_not_mem_legacyLine (it : ConfigValue) : nul ∉ legacyLine it := by
  rw [legacyLine, List.mem_append, List.mem_cons, not_or, not_or]
  exact ⟨it.key.nul_not_mem, by decide, it.val.nul_not_mem⟩

section LegacyItem

variable {it : ConfigValue} (h : LegacyItem it)

include h

theorem LegacyItem.persisted : persisted it = true := by
  rw [Config.persisted, Bool.and_eq_true, decide_eq_true_eq, decide_eq_true_eq]
  exact ⟨h.key_ne_nil, fun hc => (h.key_head '#' hc).2.1 rfl⟩

theorem LegacyItem.configKeyValidate : configKeyValidate it.key.text = true := by
  rw [Config.configKeyValidate, CharBuf.cstr_text, Bool.and_eq_true, decide_eq_true_eq,
    decide_eq_true_eq]
  exact ⟨h.key_ne_nil, h.key_eq⟩

theorem LegacyItem.lf_not_mem : '\n' ∉ legacyLine it := by
  rw [legacyLine, List.mem_append, List.mem_cons, not_or, not_or]
  exact ⟨h.key_lf, by decide, h.val_lf⟩

theorem LegacyItem.cr_not_mem : '\r' ∉ legacyLine it := by
  rw [legacyLine, List.mem_append, List.mem_cons, not_or, not_or]
  exact ⟨h.key_cr, by decide, h.val_cr⟩

/-- The first character of the line is that of the key. -/
theorem LegacyItem.exists_cons :
    ∃ c s, it.key.text = c :: s ∧ isWS c = false ∧ c ≠ '#' ∧ c ≠ '/' := by
  obtain ⟨c, s, hcs⟩ := List.exists_cons_of_ne_nil h.key_ne_nil
  exact ⟨c, s, hcs, h.key_head c (by rw [hcs]; rfl)⟩

theorem LegacyItem.skipWS : skipWS (legacyLine it) = legacyLine it := by
  obtain ⟨c, s, hcs, hws, -, -⟩ := h.exists_cons
  rw [legacyLine, hcs, List.cons_append, Config.skipWS, List.dropWhile_cons_of_neg (by simp [hws])]

theorem LegacyItem.cutAt : Text.cutAt '=' (legacyLine it) = (it.key.text, some it.val.text) :=
  Text.cutAt_append h.key_eq _

/-- The line has no blank before its `=`, so it speaks for our own syntax. -/
theorem LegacyItem.cfgClassifyLine : cfgClassifyLine (legacyLine it) = .legacy := by
  have hne : legacyLine it ≠ [] := by simp [legacyLine]
  have hcomment : ¬ startsComment (legacyLine it) = true := by
    obtain ⟨c, s, hcs, -, hhash, hslash⟩ := h.exists_cons
    rw [legacyLine, hcs, List.cons_append, startsComment_cons hhash hslash]
    exact Bool.false_ne_true
  have hblank : ¬ ∃ c ∈ it.key.text.getLast?, isWS c = true := by
    rintro ⟨c, hc, hws⟩
    rw [h.key_last c hc] at hws
    cases hws
  simp only [Config.cfgClassifyLine, h.skipWS, h.cutAt, if_neg hne, if_neg hcomment, hblank,
    false_and, if_false, ite_self]

/-- Reading the line back: the node, and no prefix. -/
theorem LegacyItem.readLegacyLine (pre : Text) :
    readLegacyLine (legacyLine it) pre = ([], some (it.key.text, it.val.text)) := by
  have hsplit : splitAssignment (legacyLine it) = some (it.key.text, it.val.text) := by
    rw [splitAssignment, h.skipWS, h.cutAt]
    dsimp only
    rw [List.take_of_length_le it.key.length_le, List.take_of_length_le it.val.length_le]
  have hhead : ¬ ∃ c ∈ (legacyLine it).head?, isWS c = true := by
    obtain ⟨c, s, hcs, hws, -, -⟩ := h.exists_cons
    rw [legacyLine, hcs, List.cons_append, List.head?_cons]
    simp [hws]
  have hkey : compose [] it.key.text = it.key.text := by
    have := it.key.length_le
    rw [compose, if_neg (by simp), List.take_of_length_le (by omega)]
  rw [Config.readLegacyLine, hsplit]
  dsimp only
  rw [if_neg hhead, hkey]

end LegacyItem

/-- All the lines of the nodes are seen by the reader. -/
theorem visible_legacyLine {items : List ConfigValue} (h : ∀ it ∈ items, LegacyItem it) :
    FileBuffer.visible (items.map legacyLine) = items.map legacyLine := by
  refine FileBuffer.visible_eq_self fun l hl => ?_
  obtain ⟨it, hit, rfl⟩ := List.mem_map.mp hl
  refine ⟨(h it hit).cr_not_mem, ?_⟩
  obtain ⟨c, s, hcs, -, hhash, -⟩ := (h it hit).exists_cons
  rw [legacyLine, hcs, List.cons_append, List.head?_cons]
  simpa using hhash

/-- Once the format is latched, the lines store their nodes one after the other. -/
theorem foldl_readLine_legacyLine {items : List ConfigValue} (h : ∀ it ∈ items, LegacyItem it)
    (s : ConfigSet) (group : Text) :
    (items.map legacyLine).foldl readLine (s, ⟨some .legacy, [], group⟩) =
      (configMerge s items, ⟨some .legacy, [], group⟩) := by
  induction items generalizing s with
  | nil => rfl
  | cons it items ih =>
    have hline : readLine (s, ⟨some .legacy, [], group⟩) (legacyLine it) =
        (configSetStr s it.key.text it.val.text, ⟨some .legacy, [], group⟩) := by
      rw [readLine]
      dsimp only
      rw [readKnownLine, (h it List.mem_cons_self).readLegacyLine]
      rfl
    rw [List.map_cons, List.foldl_cons, hline, ih fun x hx => h x (List.mem_cons_of_mem it hx)]
    rfl

/-- Reading the lines of a list of nodes into a set in our own format stores these nodes. -/
theorem readLines_legacyLine {items : List ConfigValue} (h : ∀ it ∈ items, LegacyItem it)
    {s : ConfigSet} (hs : s.format = .legacy) :
    readLines s (items.map legacyLine) = { configMerge s items with modified := false } := by
  cases items with
  | nil => rfl
  | cons it items =>
    have hline : readLine (s, ReadState.init) (legacyLine it) =
        (configSetStr s it.key.text it.val.text, ⟨some .legacy, [], []⟩) := by
      have hfmt : ConfigStore.setFormat s .legacy = s := by
        rw [← hs]
        rfl
      rw [readLine]
      simp only [ReadState.init, (h it List.mem_cons_self).cfgClassifyLine, hfmt]
      rw [readKnownLine, (h it List.mem_cons_self).readLegacyLine]
      rfl
    rw [readLines, List.map_cons, List.foldl_cons, hline,
      foldl_readLine_legacyLine fun x hx => h x (List.mem_cons_of_mem it hx)]
    rfl

/-- The bytes of a file in our own syntax are its lines. -/
theorem writeLegacy_flatten (items : List ConfigValue) :
    (writeLegacy items).flatten = joinLines ((items.filter persisted).map legacyLine) := by
  rw [writeLegacy, joinLines, List.flatMap_map, ← List.flatMap_def]
  exact List.flatMap_congr fun it _ => writeLegacyLine_eq it

theorem pieces_flatten_legacy {s : ConfigSet} (hfmt : s.format = .legacy)
    (h : ∀ it ∈ s.items, LegacyItem it) :
    (pieces s).flatten = joinLines (s.items.map legacyLine) := by
  have hfilter : s.items.filter persisted = s.items :=
    List.filter_eq_self.mpr fun it hit => (h it hit).persisted
  rw [pieces, hfmt]
  dsimp only
  rw [writeLegacy_flatten, hfilter]

/-! ### A byte order mark -/

/-- A set is written by `configWrite` through a buffer of 4096 bytes, and from the file `configRead`
reads the same nodes in the same order, unmodified and in our own format. -/
def LegacyRoundTrips (s : ConfigSet) : Prop :=
  ∃ bytes,
    WriteBuffer.closeFileBuffer (fun _ => none) true
      (WriteBuffer.writeAll (fun _ => none) (WriteBuffer.openFileBuffer 4096) (pieces s)) =
        (true, bytes) ∧
    ∀ fb : FileBuffer, Opens fb bytes →
      configReadFileBuffer fb configAlloc =
        some { items := s.items, modified := false, format := .legacy }

/-- The lines that are read from the file of the nodes. -/
theorem lines_legacy {items : List ConfigValue} (h : ∀ it ∈ items, LegacyItem it) {fb : FileBuffer}
    (hfb : Opens fb (joinLines (items.map legacyLine))) :
    fb.lines = some (FileBuffer.visible (dropBom (items.map legacyLine))) := by
  have hsub : subLines (items.map legacyLine) = items.map legacyLine := by
    refine subLines_eq_self fun l hl => ?_
    obtain ⟨it, hit, rfl⟩ := List.mem_map.mp hl
    exact (h it hit).lf_not_mem
  rw [hfb.lines, hsub]
  intro l hl
  obtain ⟨it, -, rfl⟩ := List.mem_map.mp hl
  have := length_legacyLine_le it
  exact ⟨nul_not_mem_legacyLine it, by omega⟩

/-- The three bytes are in the key, or there is no mark. -/
theorem take_legacyLine (it : ConfigValue) :
    (legacyLine it).take 3 = FileBuffer.bom ↔ it.key.text.take 3 = FileBuffer.bom := by
  rw [legacyLine]
  by_cases hlen : 3 ≤ it.key.text.length
  · rw [List.take_append_of_le_length hlen]
  · have hshort : it.key.text.take 3 ≠ FileBuffer.bom := by
      intro hbom
      have hthree := congrArg List.length hbom
      rw [List.length_take] at hthree
      have : FileBuffer.bom.length = 3 := rfl
      omega
    have hline : (it.key.text ++ '=' :: it.val.text).take 3 ≠ FileBuffer.bom := by
      intro hbom
      have hmem : '=' ∈ (it.key.text ++ '=' :: it.val.text).take 3 := by
        rw [List.take_append, show 3 - it.key.text.length = (2 - it.key.text.length) + 1 by omega,
          List.take_succ_cons]
        exact List.mem_append_right _ List.mem_cons_self
      rw [hbom] at hmem
      exact absurd hmem (by decide)
    exact ⟨fun h => absurd h hline, fun h => absurd h hshort⟩

/-- The first line of a file, when it assigns to `k`: it is a comment, or it latches our own format
and stores at most a key that is not longer than `k`. -/
theorem readLine_assignment {k v : Text} (hk : '=' ∉ k)
    (hlast : ∀ c ∈ k.getLast?, isWS c = false) :
    ∃ s st, readLine (configAlloc, ReadState.init) (k ++ '=' :: v) = (s, st) ∧
      (s = configAlloc ∧ st = ReadState.init ∨ st = ⟨some .legacy, [], []⟩) ∧
      ∀ x ∈ s.items, x.key.text.length ≤ k.length := by
  have hskip : skipWS (k ++ '=' :: v) = skipWS k ++ '=' :: v := by
    rw [skipWS, List.dropWhile_append]
    split_ifs with hnil
    · rw [List.isEmpty_iff] at hnil
      rw [skipWS, hnil]
      rfl
    · rfl
  have hsuffix : skipWS k <:+ k := List.dropWhile_suffix isWS
  have hcut : Text.cutAt '=' (skipWS k ++ '=' :: v) = (skipWS k, some v) :=
    Text.cutAt_append (fun hmem => hk (hsuffix.mem hmem)) v
  have hempty : ∀ x ∈ (configAlloc : ConfigSet).items, x.key.text.length ≤ k.length :=
    fun x hx => by cases hx
  rw [readLine]
  rcases hclass : cfgClassifyLine (k ++ '=' :: v) with _ | _ | _ | _
  · exact ⟨_, _, rfl, .inl ⟨rfl, rfl⟩, hempty⟩
  · exact ⟨_, _, rfl, .inl ⟨rfl, rfl⟩, hempty⟩
  · have hread : readLegacyLine (k ++ '=' :: v) [] =
        ([], some ((skipWS k).take 31, v.take 255)) := by
      have hsplit : splitAssignment (k ++ '=' :: v) = some ((skipWS k).take 31, v.take 255) := by
        rw [splitAssignment, hskip, hcut]
      have hpre (key : Text) (hlen : key.length ≤ 31) : compose [] key = key := by
        rw [compose, if_neg (by simp), List.take_of_length_le (by omega)]
      rw [readLegacyLine, hsplit]
      dsimp only
      rw [ite_self, hpre _ (List.length_take_le 31 _)]
    refine ⟨configSetStr configAlloc ((skipWS k).take 31) (v.take 255), ⟨some .legacy, [], []⟩, ?_,
      .inr rfl, fun x hx => ?_⟩
    · dsimp only [ReadState.init]
      rw [readKnownLine, hread]
      rfl
    · rcases mem_configSetStr hx with ⟨y, hy, -⟩ | hkey
      · cases hy
      · rw [hkey, CharBuf.strncpy_text]
        have hcstr : (cstr ((skipWS k).take 31)).length ≤ (skipWS k).length :=
          (List.takeWhile_sublist _).length_le.trans (List.take_sublist 31 _).length_le
        exact (List.length_take_le' 31 _).trans (hcstr.trans hsuffix.length_le)
  · exfalso
    rw [cfgClassifyLine, hskip, hcut] at hclass
    dsimp only at hclass
    split_ifs at hclass with _ _ _ hshape
    obtain ⟨⟨c, hc, hws⟩, -⟩ := hshape
    have hmem : c ∈ k.getLast? := by
      obtain ⟨b, hb⟩ := hsuffix
      rw [← hb, List.getLast?_append, Option.mem_def.mp hc]
      rfl
    rw [hlast c hmem] at hws
    cases hws

/-- When the file starts with a byte order mark, no node with the key of the first one is read. -/
theorem readLines_marked {it : ConfigValue} {rest : List ConfigValue}
    (h : ∀ x ∈ it :: rest, LegacyItem x) (hbom : it.key.text.take 3 = FileBuffer.bom) :
    ∃ s : ConfigSet, (∀ x ∈ s.items, x.key ≠ it.key) ∧
      (readLines configAlloc (FileBuffer.visible (dropBom ((it :: rest).map legacyLine)))).items =
        (configMerge s rest).items := by
  have hit := h it List.mem_cons_self
  have hrest : ∀ x ∈ rest, LegacyItem x := fun x hx => h x (List.mem_cons_of_mem it hx)
  have hthree : 3 ≤ it.key.text.length := by
    have hlen := congrArg List.length hbom
    rw [List.length_take] at hlen
    have : FileBuffer.bom.length = 3 := rfl
    omega
  have hline : skipBom (legacyLine it) = it.key.text.drop 3 ++ '=' :: it.val.text := by
    rw [skipBom, if_pos ((take_legacyLine it).mpr hbom), legacyLine,
      List.drop_append_of_le_length hthree]
  have hnone : ∀ x ∈ (configAlloc : ConfigSet).items, x.key ≠ it.key := fun x hx => by cases hx
  have hcr : FileBuffer.stripCR (it.key.text.drop 3 ++ '=' :: it.val.text) =
      it.key.text.drop 3 ++ '=' :: it.val.text := by
    rw [FileBuffer.stripCR, if_neg]
    intro hlast
    have hmem := List.mem_of_getLast? hlast
    rw [← hline] at hmem
    exact hit.cr_not_mem ((FileBuffer.skipBom_suffix _).mem hmem)
  rw [List.map_cons, dropBom, FileBuffer.visible_cons, visible_legacyLine hrest, hline, hcr]
  split_ifs with hhash
  · -- what is left of the line is a comment
    exact ⟨configAlloc, hnone, by rw [readLines_legacyLine hrest rfl]⟩
  · have hk : '=' ∉ it.key.text.drop 3 := fun hmem => hit.key_eq (List.mem_of_mem_drop hmem)
    have hlast : ∀ c ∈ (it.key.text.drop 3).getLast?, isWS c = false := by
      intro c hc
      refine hit.key_last c ?_
      rw [← List.take_append_drop 3 it.key.text, List.getLast?_append, Option.mem_def.mp hc]
      rfl
    obtain ⟨s, st, hread, hst, hshort⟩ := readLine_assignment (v := it.val.text) hk hlast
    have hne : ∀ x ∈ s.items, x.key ≠ it.key := by
      intro x hx hkey
      have hlen := hshort x hx
      rw [hkey, List.length_drop] at hlen
      omega
    refine ⟨s, hne, ?_⟩
    rw [readLines, List.foldl_cons, hread]
    rcases hst with ⟨rfl, rfl⟩ | rfl
    · rw [← readLines, readLines_legacyLine hrest rfl]
    · rw [foldl_readLine_legacyLine hrest]
      rfl

/-- **Round trip in our own syntax.** Take a set whose keys are distinct, and whose nodes survive as
lines. What `configRead` reads from its file is the set exactly when the file does not start with a
byte order mark. -/
theorem legacyRoundTrips_iff (s : ConfigSet) (hfmt : s.format = .legacy)
    (hdistinct : KeysDistinct s) (h : ∀ it ∈ s.items, LegacyItem it) :
    LegacyRoundTrips s ↔ ∀ it ∈ s.items.head?, it.key.text.take 3 ≠ FileBuffer.bom := by
  have hbytes := WriteBuffer.closeFileBuffer_of_ok (fun _ => rfl) 4096 (pieces s)
  rw [pieces_flatten_legacy hfmt h] at hbytes
  constructor
  · rintro ⟨bytes, hwrite, hread⟩ it hit hbom
    obtain rfl : joinLines (s.items.map legacyLine) = bytes :=
      congrArg Prod.snd (hbytes.symm.trans hwrite)
    have hopens := opens_openFileBuffer (joinLines (s.items.map legacyLine))
    have hr := hread _ hopens
    rw [configReadFileBuffer, lines_legacy h hopens, Option.map_some, Option.some.injEq] at hr
    obtain ⟨rest, hitems⟩ : ∃ rest, s.items = it :: rest := by
      cases hs : s.items with
      | nil =>
        rw [hs] at hit
        cases hit
      | cons x rest =>
        rw [hs] at hit
        cases hit
        exact ⟨rest, rfl⟩
    rw [KeysDistinct, hitems, List.map_cons, List.nodup_cons] at hdistinct
    rw [hitems] at h hr
    obtain ⟨s₁, hne, hmerge⟩ := readLines_marked h hbom
    rw [hr] at hmerge
    have hmem : it ∈ (configMerge s₁ rest).items := by
      rw [← hmerge]
      exact List.mem_cons_self
    rcases mem_configMerge hmem with ⟨x, hx, hkey⟩ | ⟨x, hx, hkey⟩
    · exact hne x hx hkey
    · exact hdistinct.1 (List.mem_map.mpr ⟨x, hx, hkey⟩)
  · intro hmark
    refine ⟨_, hbytes, fun fb hfb => ?_⟩
    have hdrop : dropBom (s.items.map legacyLine) = s.items.map legacyLine := by
      cases hs : s.items with
      | nil => rfl
      | cons it rest =>
        have hno : (legacyLine it).take 3 ≠ FileBuffer.bom := fun hbom =>
          hmark it (by rw [hs]; rfl) ((take_legacyLine it).mp hbom)
        rw [List.map_cons, dropBom, skipBom, if_neg hno]
    have hitems : (configMerge configAlloc s.items).items = s.items :=
      configMerge_items (fun it hit => (h it hit).configKeyValidate) hdistinct
    rw [configReadFileBuffer, lines_legacy h hfb, hdrop, visible_legacyLine h, Option.map_some,
      readLines_legacyLine h rfl]
    dsimp only
    rw [configMerge_format, hitems]
    rfl

/-- The application entry of a launcher, and a key with a colon in it. -/
def launcherSet : ConfigSet where
  items := [allocConfigItem "title".toList "a = b; c".toList,
    allocConfigItem "main0:type".toList []]
  modified := true
  format := .legacy

theorem legacyRoundTrips_launcherSet :
    launcherSet.items.length = 2 ∧ LegacyRoundTrips launcherSet := by
  refine ⟨rfl, (legacyRoundTrips_iff launcherSet rfl (by rw [KeysDistinct]; decide) ?_).mpr ?_⟩
  · intro it hit
    simp only [launcherSet, List.mem_cons, List.not_mem_nil, or_false] at hit
    rcases hit with rfl | rfl <;> constructor <;> decide
  · decide

/-- A key of which the first three characters are those of a byte order mark. -/
def markedSet : ConfigSet where
  items := [allocConfigItem (FileBuffer.bom ++ ['a']) "1".toList]
  modified := true
  format := .legacy

/-- The key is read as `a`. -/
theorem not_legacyRoundTrips_markedSet :
    markedSet.format = .legacy ∧ KeysDistinct markedSet ∧
      (∀ it ∈ markedSet.items, LegacyItem it) ∧ ¬ LegacyRoundTrips markedSet := by
  refine ⟨rfl, by rw [KeysDistinct]; decide, ?_, fun h => ?_⟩
  · intro it hit
    simp only [markedSet, List.mem_cons, List.not_mem_nil, or_false] at hit
    rcases hit with rfl
    constructor <;> decide
  · obtain ⟨bytes, hwrite, hread⟩ := h
    have hbytes : bytes = FileBuffer.bom ++ "a=1\n".toList := by
      have hfile : WriteBuffer.closeFileBuffer (fun _ => none) true (WriteBuffer.writeAll
          (fun _ => none) (WriteBuffer.openFileBuffer 4096) (pieces markedSet)) =
            (true, FileBuffer.bom ++ "a=1\n".toList) := by decide +kernel
      exact congrArg Prod.snd (hwrite.symm.trans hfile)
    have hr := hread _ (opens_openFileBuffer bytes)
    rw [hbytes] at hr
    have hkeys : (configReadFileBuffer (FileBuffer.openFileBuffer 4096
        (FileBuffer.bom ++ "a=1\n".toList)) configAlloc).map (fun s => s.items.map (·.key.text)) =
          some ["a".toList] := by decide +kernel
    rw [hr] at hkeys
    exact absurd hkeys (by decide)

end Config

end OpenPS2Loader
