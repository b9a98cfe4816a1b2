import OpenPS2Loader.Config.Legacy
import OpenPS2Loader.Config.Libconfig

/-!
# Which format a written file is read in

The reader latches the format of a file from its first line that is neither blank nor a comment.
Here the lines it takes for libconfig are described by their shape, and the sets are described whose
file is read in the format it was written in.

## Main definitions

* `LibconfigShape` — the lines that are taken for libconfig
* `silent`, `evidence` — the lines that say nothing, and the first one that does
* `writtenLines` — what is written for a set, line by line
* `Latches` — a set whose file latches the format it was written in
* `ClearlyMarked` — the same, told by the nodes of the set

## Main results

* `cfgClassifyLine_eq_libconfig_iff` — the discriminator, by the shape of a line
* `readLines_format` — the format after reading a file
* `latches_iff_clearlyMarked` — the sets whose file latches the format it was written in
-/

namespace OpenPS2Loader

namespace Config

/-! ### The shape of a line -/

/-- Blanks only. -/
def Blanks (s : Text) : Prop := ∀ c ∈ s, isWS c = true

/-- An identifier, at least one blank, a `=` and, at the end, a `;`. -/
def LibconfigShape (l : Text) : Prop :=
  ∃ b k b' v b'', Blanks b ∧ cfgIsLibconfigIdent k = true ∧ Blanks b' ∧ b' ≠ [] ∧ Blanks b'' ∧
    l = b ++ (k ++ b' ++ '=' :: (v ++ ';' :: b''))

/-- A line that says nothing about the format: blank, or a comment. -/
def silent (l : Text) : Bool := skipWS l = [] || startsComment (skipWS l)

theorem exists_skipWS (s : Text) :
    ∃ b, Blanks b ∧ s = b ++ skipWS s ∧ ∀ c ∈ (skipWS s).head?, isWS c = false := by
  refine ⟨s.takeWhile isWS, fun _ hc => List.mem_takeWhile_imp hc,
    (List.takeWhile_append_dropWhile).symm, fun c hc => ?_⟩
  have hne : s.dropWhile isWS ≠ [] := by
    intro hnil
    rw [skipWS, hnil] at hc
    cases hc
  have := List.head_dropWhile_not isWS hne
  rw [skipWS, List.head?_eq_some_head hne, Option.mem_some_iff] at hc
  rwa [hc] at this

theorem exists_trimEnd (s : Text) :
    ∃ b, Blanks b ∧ s = trimEnd s ++ b ∧ ∀ c ∈ (trimEnd s).getLast?, isWS c = false := by
  refine ⟨s.rtakeWhile isWS, fun _ hc => List.mem_rtakeWhile_imp hc,
    List.rdropWhile_append_rtakeWhile.symm, fun c hc => ?_⟩
  have hne : s.rdropWhile isWS ≠ [] := by
    intro hnil
    rw [trimEnd, hnil] at hc
    cases hc
  have := List.rdropWhile_last_not isWS s hne
  rw [trimEnd, List.getLast?_eq_some_getLast hne, Option.mem_some_iff] at hc
  rw [hc] at this
  exact Bool.eq_false_iff.mpr this

/-- The characters of an identifier. -/
theorem ident_char {c : Char}
    (h : (c.isAlphanum || c = '_' || c = '-' || c = '*') = true) :
    isWS c = false ∧ c ≠ '=' ∧ c ≠ '#' ∧ c ≠ '/' := by
  refine ⟨?_, ?_, ?_, ?_⟩
  · by_contra hws
    rw [Bool.not_eq_false, isWS, Bool.or_eq_true, decide_eq_true_eq, decide_eq_true_eq] at hws
    rcases hws with rfl | rfl <;> exact absurd h (by decide)
  all_goals
    rintro rfl
    exact absurd h (by decide)

theorem mem_ident {k : Text} (hk : cfgIsLibconfigIdent k = true) :
    k ≠ [] ∧ ∀ c ∈ k, isWS c = false ∧ c ≠ '=' ∧ c ≠ '#' ∧ c ≠ '/' := by
  cases k with
  | nil => cases hk
  | cons c k =>
    rw [cfgIsLibconfigIdent, Bool.and_eq_true, List.all_eq_true] at hk
    refine ⟨by simp, fun d hd => ?_⟩
    rcases List.mem_cons.mp hd with rfl | hd
    · refine ident_char ?_
      have := hk.1
      rw [Bool.or_eq_true] at this
      rcases this with h | h <;> simp [Char.isAlphanum, h]
    · exact ident_char (hk.2 d hd)

theorem not_silent_of_shape {l : Text} (h : LibconfigShape l) : silent l = false := by
  obtain ⟨b, k, b', v, b'', hb, hk, -, -, -, rfl⟩ := h
  obtain ⟨hne, hmem⟩ := mem_ident hk
  obtain ⟨c, k, rfl⟩ := List.exists_cons_of_ne_nil hne
  obtain ⟨hws, -, hhash, hslash⟩ := hmem c List.mem_cons_self
  have hskip : skipWS (b ++ (c :: k ++ b' ++ '=' :: (v ++ ';' :: b''))) =
      c :: k ++ b' ++ '=' :: (v ++ ';' :: b'') :=
    Text.dropWhile_append_of_all hb (by simpa using hws)
  rw [silent, hskip, List.cons_append, List.cons_append, startsComment_cons hhash hslash]
  simp

/-- A text that reaches past a character and ends with another one has something between them. -/
theorem exists_between {k body s : Text} {c d : Char} (hleft : k ++ [c] <+: s)
    (hbody : body <+: s) (hlen : k.length < body.length) (hlast : body.getLast? = some d)
    (hne : c ≠ d) : ∃ v, body = k ++ c :: (v ++ [d]) := by
  have hpre : k ++ [c] <+: body := by
    refine List.prefix_of_prefix_length_le hleft hbody ?_
    rw [List.length_append, List.length_singleton]
    omega
  obtain ⟨w, rfl⟩ := hpre
  rcases List.eq_nil_or_concat w with rfl | ⟨v, e, rfl⟩
  · rw [List.append_nil, List.getLast?_concat, Option.some.injEq] at hlast
    exact absurd hlast hne
  · rw [List.concat_eq_append, ← List.append_assoc, List.getLast?_concat,
      Option.some.injEq] at hlast
    exact ⟨v, by rw [hlast]; simp⟩

theorem libconfigShape_of_cfgClassifyLine {l : Text} (h : cfgClassifyLine l = .libconfig) :
    LibconfigShape l := by
  obtain ⟨b, hb, hl, -⟩ := exists_skipWS l
  obtain ⟨b'', hb'', hp, -⟩ := exists_trimEnd (skipWS l)
  rw [cfgClassifyLine] at h
  split_ifs at h
  dsimp only at h
  rcases hcut : Text.cutAt '=' (skipWS l) with ⟨k, _ | r⟩
  · rw [hcut] at h
    cases h
  rw [hcut] at h
  dsimp only at h
  split_ifs at h with hlen hshape
  obtain ⟨⟨c, hc, hws⟩, hsemi, hident⟩ := hshape
  obtain ⟨b', hb', hk, hlast⟩ := exists_trimEnd k
  obtain ⟨hpk, -⟩ := Text.cutAt_eq_some.mp hcut
  have hleft : k ++ ['='] <+: skipWS l := ⟨r, by rw [hpk]; simp⟩
  obtain ⟨v, hv⟩ := exists_between hleft ⟨b'', hp.symm⟩ (by omega) hsemi (by decide)
  refine ⟨b, trimEnd k, b', v, b'', hb, hident, hb', ?_, hb'', ?_⟩
  · rintro rfl
    rw [List.append_nil] at hk
    rw [hk] at hc
    rw [hlast c hc] at hws
    cases hws
  · rw [← hk]
    conv_lhs => rw [hl, hp, hv]
    simp

theorem cfgClassifyLine_of_libconfigShape {l : Text} (h : LibconfigShape l) :
    cfgClassifyLine l = .libconfig := by
  have hsilent := not_silent_of_shape h
  obtain ⟨b, k, b', v, b'', hb, hk, hb', hne', hb'', rfl⟩ := h
  obtain ⟨hne, hmem⟩ := mem_ident hk
  set p := k ++ b' ++ '=' :: (v ++ ';' :: b'') with hp
  have hskip : skipWS (b ++ p) = p := by
    refine Text.dropWhile_append_of_all hb fun c hc => (hmem c ?_).1
    obtain ⟨d, k, rfl⟩ := List.exists_cons_of_ne_nil hne
    rw [hp, List.cons_append, List.cons_append, List.head?_cons, Option.mem_some_iff] at hc
    exact hc ▸ List.mem_cons_self
  rw [silent, hskip, Bool.or_eq_false_iff, decide_eq_false_iff_not] at hsilent
  have hcut : Text.cutAt '=' p = (k ++ b', some (v ++ ';' :: b'')) := by
    refine Text.cutAt_append ?_ _
    rw [List.mem_append, not_or]
    refine ⟨fun h => (hmem '=' h).2.1 rfl, fun h => ?_⟩
    have hws := hb' '=' h
    exact absurd hws (by decide)
  have htrim : trimEnd p = k ++ b' ++ '=' :: (v ++ [';']) := by
    have hsplit : p = (k ++ b' ++ '=' :: (v ++ [';'])) ++ b'' := by simp [hp]
    rw [hsplit]
    refine Text.rdropWhile_append_of_all hb'' fun c hc => ?_
    rw [← List.cons_append, ← List.append_assoc, List.getLast?_concat,
      Option.mem_some_iff] at hc
    rw [← hc]
    decide
  have hlast : (k ++ b' ++ '=' :: (v ++ [';'])).getLast? = some ';' := by
    rw [← List.cons_append, ← List.append_assoc, List.getLast?_concat]
  have hblank : ∃ c ∈ (k ++ b').getLast?, isWS c = true := by
    rw [List.getLast?_append_of_ne_nil _ hne', List.getLast?_eq_some_getLast hne']
    exact ⟨_, rfl, hb' _ (List.getLast_mem hne')⟩
  have hident : trimEnd (k ++ b') = k :=
    Text.rdropWhile_append_of_all hb' fun c hc => (hmem c (List.mem_of_getLast? hc)).1
  rw [cfgClassifyLine, hskip, if_neg hsilent.1, hsilent.2, if_neg Bool.false_ne_true, hcut, htrim]
  dsimp only
  rw [if_neg, if_pos]
  · exact ⟨hblank, hlast, by rw [hident]; exact hk⟩
  · simp only [List.length_append, List.length_cons]
    omega

/-- The discriminator of the reader, by the shape of the line. -/
theorem cfgClassifyLine_eq_libconfig_iff {l : Text} :
    cfgClassifyLine l = .libconfig ↔ LibconfigShape l :=
  ⟨libconfigShape_of_cfgClassifyLine, cfgClassifyLine_of_libconfigShape⟩

theorem silent_iff {l : Text} :
    silent l = true ↔ cfgClassifyLine l = .blank ∨ cfgClassifyLine l = .comment := by
  rw [silent, Bool.or_eq_true, decide_eq_true_eq, cfgClassifyLine]
  split_ifs with hblank hcomment
  · simp [hblank]
  · simp [hcomment]
  · simp only [hblank, hcomment, false_or, Bool.false_eq_true, false_iff, not_or]
    split
    · simp
    · split_ifs <;> simp

/-! ### The latch -/

/-- The format a line with evidence latches. -/
def latched (l : Text) : Format := if cfgClassifyLine l = .libconfig then .libconfig else .legacy

/-- The first line with evidence. -/
def evidence (ls : List Text) : Option Text := ls.find? fun l => !silent l

theorem store_format (s : ConfigSet) (assignment : Option (Text × Text)) :
    (store s assignment).format = s.format := by
  rcases assignment with _ | ⟨key, val⟩
  · rfl
  · exact configSetStr_format s key val

theorem readKnownLine_format (fmt : Format) (s : ConfigSet) (st : ReadState) (line : Text) :
    (readKnownLine fmt s st line).1.format = s.format ∧
      (readKnownLine fmt s st line).2.fmt = st.fmt := by
  cases fmt <;> exact ⟨store_format s _, rfl⟩

/-- Once it is latched the format does not change. -/
theorem foldl_readLine_format {fmt : Format} (ls : List Text) (x : ConfigSet × ReadState)
    (h : x.2.fmt = some fmt) : (ls.foldl readLine x).1.format = x.1.format := by
  induction ls generalizing x with
  | nil => rfl
  | cons l ls ih =>
    have hline : readLine x l = readKnownLine fmt x.1 x.2 l := by rw [readLine, h]
    obtain ⟨hformat, hfmt⟩ := readKnownLine_format fmt x.1 x.2 l
    rw [List.foldl_cons, hline, ih _ (hfmt.trans h), hformat]

/-- **The format of a file.** It is the one of its first line with evidence, and a file without such
a line leaves the format of the set alone. -/
theorem readLines_format (s : ConfigSet) (ls : List Text) :
    (readLines s ls).format = ((evidence ls).map latched).getD s.format := by
  change (ls.foldl readLine (s, ReadState.init)).1.format = _
  induction ls with
  | nil => rfl
  | cons l ls ih =>
    rw [List.foldl_cons, evidence, List.find?_cons]
    rcases hclass : cfgClassifyLine l with _ | _ | _ | _
    · rw [silent_iff.mpr (.inl hclass), readLine, hclass]
      exact ih
    · rw [silent_iff.mpr (.inr hclass), readLine, hclass]
      exact ih
    all_goals
      have hsilent : silent l = false := by
        rw [Bool.eq_false_iff, Ne, silent_iff, hclass]
        simp
      rw [hsilent, readLine, hclass]
      dsimp only [ReadState.init]
      rw [foldl_readLine_format _ _ (readKnownLine_format _ _ _ l).2,
        (readKnownLine_format _ _ _ l).1]
      simp only [Bool.not_false, Option.map_some, Option.getD_some, latched, hclass, if_true,
        reduceCtorEq, if_false]
      rfl

/-! ### Written files -/

/-- The lines of the nodes `items` when each is written as `line` says, as the reader sees them:
without a byte order mark at the beginning of the first one. -/
def nodeLines (line : ConfigValue → Text) (items : List ConfigValue) : List Text :=
  (FileBuffer.dropBom (subLines (items.map line))).map FileBuffer.stripCR

/-- The file of the set latches the format it was written in, whatever the set it is read into. -/
def Latches (s : ConfigSet) : Prop :=
  ∀ fb : FileBuffer, Opens fb (serialise s) → ∀ dst : ConfigSet,
    ∃ r, configReadFileBuffer fb dst = some r ∧ r.format = s.format

/-- In our own syntax: the first line of the nodes that is neither blank nor a comment does not look
like libconfig. In libconfig: of the nodes outside the groups, the first line that is neither blank
nor a comment has the shape of libconfig. In both, that there is such a line. -/
def ClearlyMarked (s : ConfigSet) : Prop :=
  match s.format with
  | .legacy =>
    ∃ l, evidence (nodeLines legacyLine (s.items.filter persisted)) = some l ∧ ¬ LibconfigShape l
  | .libconfig =>
    ∃ l, evidence (nodeLines rootLine (rootItems s.items)) = some l ∧ LibconfigShape l

theorem evidence_append (ls ms : List Text) :
    evidence (ls ++ ms) = (evidence ls).or (evidence ms) :=
  List.find?_append

/-- A line that the file buffer drops would have said nothing. -/
theorem evidence_visible (ls : List Text) :
    evidence (FileBuffer.visible ls) = evidence (ls.map FileBuffer.stripCR) := by
  rw [evidence, FileBuffer.visible, List.find?_filter, evidence]
  congr 1
  funext l
  by_cases hhash : l.head? = some '#'
  · obtain ⟨s, rfl⟩ : ∃ s, l = '#' :: s := by
      cases l with
      | nil => cases hhash
      | cons c s =>
        rw [List.head?_cons, Option.some.injEq] at hhash
        exact ⟨s, by rw [hhash]⟩
    have : silent ('#' :: s) = true := by
      rw [silent, skipWS, List.dropWhile_cons_of_neg (by decide)]
      rfl
    simp [this]
  · simp [hhash]

theorem nul_not_mem_writeValue (b : CharBuf 255) : nul ∉ writeValue b.text := by
  intro h
  have hescape : nul ∉ escape b.text := by
    intro hm
    rcases mem_escape hm with hm | hm
    · exact b.nul_not_mem hm
    · exact absurd hm (by decide)
  rw [writeValue_eq, content] at h
  split_ifs at h
  · exact b.nul_not_mem h
  · simp only [List.cons_append, List.mem_cons, List.mem_append, List.not_mem_nil, or_false] at h
    rcases h with h | h | h
    · exact absurd h (by decide)
    · exact hescape h
    · exact absurd h (by decide)

theorem nul_not_mem_scalarLine {key : Text} (hkey : nul ∉ key) (b : CharBuf 255) :
    nul ∉ scalarLine key b := by
  intro h
  simp only [scalarLine, List.mem_append, List.mem_cons, List.not_mem_nil, or_false] at h
  rcases h with (h | h | h | h | h) | h
  · exact hkey h
  · exact absurd h (by decide)
  · exact absurd h (by decide)
  · exact absurd h (by decide)
  · exact nul_not_mem_writeValue b h
  · exact absurd h (by decide)

theorem nul_not_mem_rootName (it : ConfigValue) : nul ∉ rootName it := by
  rw [rootName]
  rcases h : cfgOursToWopl it.key.text with _ | w
  · exact it.key.nul_not_mem
  · exact (mem_cfgWoplPerGameKeys _ (cfgOursToWopl_eq_some h)).1.nul

/-- The lines of a group are short. -/
theorem mem_groupBlock {items : List ConfigValue} {g l : Text} (hg : g ∈ cfgLibconfigGroups)
    (h : l ∈ groupBlock items g) : nul ∉ l ∧ l.length ≤ 549 := by
  have hfixed : ∀ g ∈ cfgLibconfigGroups, nul ∉ g ++ [' ', ':'] ∧
      (g ++ [' ', ':']).length ≤ 549 := by
    decide
  rw [groupBlock] at h
  split_ifs at h
  · cases h
  · rw [List.cons_append, List.cons_append, List.mem_cons, List.mem_cons, List.mem_append,
      List.mem_singleton] at h
    rcases h with rfl | rfl | h | rfl
    · exact hfixed g hg
    · decide
    · obtain ⟨it, hit, rfl⟩ := List.mem_map.mp h
      obtain ⟨key, hkey⟩ := Option.isSome_iff_exists.mp (List.mem_filter.mp hit).2
      obtain ⟨-, hname, -⟩ := groupOf_eq_some (keyIn_eq_some hkey)
      have hnul := nul_not_mem_scalarLine hname.nul it.val
      have hlen := length_scalarLine_le hname.length_le it.val
      rw [groupLine, hkey, Option.getD_some]
      refine ⟨?_, by rw [List.length_cons, List.length_cons]; omega⟩
      rw [List.mem_cons, List.mem_cons, not_or, not_or]
      exact ⟨by decide, by decide, hnul⟩
    · decide

/-- What is written for a set, one entry for every line feed of the writer. -/
def writtenLines (s : ConfigSet) : List Text :=
  match s.format with
  | .legacy => (s.items.filter persisted).map legacyLine
  | .libconfig => libconfigLines s.items

theorem serialise_eq (s : ConfigSet) : serialise s = joinLines (writtenLines s) := by
  rw [serialise, pieces, writtenLines]
  rcases s.format with _ | _
  · exact writeLegacy_flatten s.items
  · exact flatten_cfgWriteLibconfig s.items

theorem mem_writtenLines {s : ConfigSet} : ∀ p ∈ writtenLines s, nul ∉ p ∧ p.length ≤ 4093 := by
  intro p hp
  rw [writtenLines] at hp
  rcases hfmt : s.format with _ | _ <;> rw [hfmt] at hp
  · obtain ⟨it, -, rfl⟩ := List.mem_map.mp hp
    have := length_legacyLine_le it
    exact ⟨nul_not_mem_legacyLine it, by omega⟩
  · rcases List.mem_append.mp hp with hp | hp
    · obtain ⟨it, -, rfl⟩ := List.mem_map.mp hp
      have := length_scalarLine_le (length_rootName_le it) it.val
      exact ⟨nul_not_mem_scalarLine (nul_not_mem_rootName it) it.val, by rw [rootLine]; omega⟩
    · obtain ⟨g, hg, hp⟩ := List.mem_flatMap.mp hp
      obtain ⟨hnul, hlen⟩ := mem_groupBlock hg hp
      exact ⟨hnul, by omega⟩

/-- The lines of a set, as the file buffer delivers its bytes. -/
theorem lines_of_opens_serialise {s : ConfigSet} {fb : FileBuffer} (h : fb.Opens (serialise s)) :
    fb.lines = some (FileBuffer.visible (subLines (writtenLines s))) := by
  rw [serialise_eq] at h
  exact FileBuffer.lines_of_opens_pieces h mem_writtenLines

/-- What the reader sees of the file of a set. -/
def seenLines (s : ConfigSet) : List Text :=
  (FileBuffer.dropBom (subLines (writtenLines s))).map FileBuffer.stripCR

/-- The first line of the groups is the header of one, which does not look like libconfig. -/
theorem evidence_groupBlock (items : List ConfigValue) {gs : List Text}
    (hgs : gs ⊆ cfgLibconfigGroups) :
    ∀ l ∈ evidence ((subLines (gs.flatMap (groupBlock items))).map FileBuffer.stripCR),
      ¬ LibconfigShape l := by
  have hheader : ∀ g ∈ cfgLibconfigGroups,
      '\n' ∉ g ++ [' ', ':'] ∧ FileBuffer.stripCR (g ++ [' ', ':']) = g ++ [' ', ':'] ∧
        silent (g ++ [' ', ':']) = false ∧ '=' ∉ g ++ [' ', ':'] := by
    decide
  induction gs with
  | nil => exact fun l hl => by cases hl
  | cons g gs ih =>
    rw [List.flatMap_cons, groupBlock]
    split_ifs
    · exact ih fun x hx => hgs (List.mem_cons_of_mem g hx)
    · obtain ⟨hlf, hstrip, hsilent, heq⟩ := hheader g (hgs List.mem_cons_self)
      rw [List.cons_append, List.cons_append, subLines, List.flatMap_cons, splitLines_line hlf,
        List.map_append, List.map_cons, hstrip, evidence, List.cons_append,
        List.find?_cons_of_pos (by rw [hsilent]; rfl)]
      rintro l hl ⟨b, k, b', v, b'', -, -, -, -, -, rfl⟩
      rw [Option.mem_some_iff] at hl
      rw [hl] at heq
      simp at heq

/-- A set latches its format when the first line of its file that says anything says so: without
such a line the format of the set that is read into would stay. -/
theorem latches_iff_evidence (s : ConfigSet) :
    Latches s ↔ ∃ l, evidence (seenLines s) = some l ∧ latched l = s.format := by
  have hread : ∀ fb : FileBuffer, Opens fb (serialise s) → ∀ dst : ConfigSet,
      ∃ r, configReadFileBuffer fb dst = some r ∧
        r.format = ((evidence (seenLines s)).map latched).getD dst.format := by
    intro fb hfb dst
    rw [serialise_eq] at hfb
    refine ⟨_, by rw [configReadFileBuffer, hfb.lines mem_writtenLines]; rfl, ?_⟩
    rw [readLines_format, evidence_visible, seenLines]
  constructor
  · intro h
    have hopens := opens_openFileBuffer (serialise s)
    -- a set in the other format shows that there is evidence
    obtain ⟨other, hother⟩ : ∃ f : Format, f ≠ s.format := by
      rcases s.format with _ | _
      · exact ⟨.libconfig, by decide⟩
      · exact ⟨.legacy, by decide⟩
    obtain ⟨r, hr, hformat⟩ := h _ hopens { configAlloc with format := other }
    obtain ⟨r', hr', hformat'⟩ := hread _ hopens { configAlloc with format := other }
    rw [hr, Option.some.injEq] at hr'
    rw [← hr', hformat] at hformat'
    rcases hev : evidence (seenLines s) with _ | l
    · rw [hev] at hformat'
      exact absurd hformat'.symm hother
    · rw [hev] at hformat'
      exact ⟨l, rfl, hformat'.symm⟩
  · rintro ⟨l, hev, hl⟩ fb hfb dst
    obtain ⟨r, hr, hformat⟩ := hread fb hfb dst
    rw [hev] at hformat
    exact ⟨r, hr, hformat.trans hl⟩

/-- The header of a group does not start with a byte order mark. -/
theorem dropBom_groupBlock (items : List ConfigValue) {gs : List Text}
    (hgs : gs ⊆ cfgLibconfigGroups) :
    FileBuffer.dropBom (subLines (gs.flatMap (groupBlock items))) =
      subLines (gs.flatMap (groupBlock items)) := by
  have hheader : ∀ g ∈ cfgLibconfigGroups,
      '\n' ∉ g ++ [' ', ':'] ∧ FileBuffer.skipBom (g ++ [' ', ':']) = g ++ [' ', ':'] := by
    decide
  induction gs with
  | nil => rfl
  | cons g gs ih =>
    rw [List.flatMap_cons, groupBlock]
    split_ifs
    · exact ih fun x hx => hgs (List.mem_cons_of_mem g hx)
    · obtain ⟨hlf, hbom⟩ := hheader g (hgs List.mem_cons_self)
      rw [List.cons_append, List.cons_append, subLines, List.flatMap_cons, splitLines_line hlf,
        List.cons_append, FileBuffer.dropBom, hbom]

/-- The lines outside the groups, and those of the groups. -/
theorem seenLines_libconfig (items : List ConfigValue) :
    (FileBuffer.dropBom (subLines (libconfigLines items))).map FileBuffer.stripCR =
      nodeLines rootLine (rootItems items) ++
        (subLines (cfgLibconfigGroups.flatMap (groupBlock items))).map FileBuffer.stripCR := by
  rw [libconfigLines, subLines, List.flatMap_append, ← subLines, ← subLines, nodeLines]
  rcases hroot : subLines ((rootItems items).map rootLine) with _ | ⟨l, ls⟩
  · rw [List.nil_append, dropBom_groupBlock items (List.Subset.refl _)]
    rfl
  · rw [List.cons_append, FileBuffer.dropBom, FileBuffer.dropBom, ← List.cons_append,
      List.map_append]

/-- **Which files are read in the format they were written in.** A set of our own syntax latches
our own format, and a libconfig set latches libconfig, exactly when the set is clearly marked. A
libconfig set with no node outside the groups never is. -/
theorem latches_iff_clearlyMarked (s : ConfigSet) : Latches s ↔ ClearlyMarked s := by
  rw [latches_iff_evidence, ClearlyMarked, seenLines, writtenLines]
  rcases s.format with _ | _
  · simp only [nodeLines, latched, ← cfgClassifyLine_eq_libconfig_iff, ite_eq_right_iff,
      reduceCtorEq, imp_false]
  · dsimp only
    rw [seenLines_libconfig, evidence_append]
    have hgroups := evidence_groupBlock s.items (List.Subset.refl cfgLibconfigGroups)
    simp only [latched, ← cfgClassifyLine_eq_libconfig_iff, ite_eq_left_iff, reduceCtorEq,
      imp_false, not_not] at hgroups ⊢
    -- a file without a line outside the groups starts with the header of one
    rcases evidence (nodeLines rootLine (rootItems s.items)) with _ | l
    · rw [Option.none_or]
      constructor
      · rintro ⟨l, hl, hclass⟩
        exact absurd hclass (hgroups l hl)
      · rintro ⟨l, hl, -⟩
        cases hl
    · rw [Option.some_or]

/-- A per-game file in libconfig with one setting, which is in a group. -/
def gsmSet : ConfigSet where
  items := [allocConfigItem "$EnableGSM".toList "1".toList]
  modified := true
  format := .libconfig

/-- A key with a blank at its end, and a value that ends with a semicolon. -/
def paddedSet : ConfigSet where
  items := [allocConfigItem "title ".toList "A;".toList]
  modified := true
  format := .legacy

/-- The file of `gsmSet` starts with the header of the group and is read as one of ours; the file of
`paddedSet` is read as libconfig. -/
theorem not_latches :
    (∀ s ∈ [gsmSet, paddedSet],
      (∀ it ∈ s.items, configKeyValidate it.key.text = true) ∧
        ∃ it ∈ s.items, persisted it = true) ∧
    ¬ Latches gsmSet ∧ ¬ Latches paddedSet := by
  refine ⟨by decide, fun h => ?_, fun h => ?_⟩
  · obtain ⟨r, hr, hformat⟩ := h (.openFileBuffer 4096 (serialise gsmSet)) (.inr rfl) configAlloc
    have hread : (configReadFileBuffer (.openFileBuffer 4096 (serialise gsmSet))
        configAlloc).map (·.format) = some .legacy := by decide +kernel
    rw [hr, Option.map_some, hformat] at hread
    exact absurd hread (by decide)
  · obtain ⟨r, hr, hformat⟩ :=
      h (.openFileBuffer 4096 (serialise paddedSet)) (.inr rfl) configAlloc
    have hread : (configReadFileBuffer (.openFileBuffer 4096 (serialise paddedSet))
        configAlloc).map (·.format) = some .libconfig := by decide +kernel
    rw [hr, Option.map_some, hformat] at hread
    exact absurd hread (by decide)

end Config

end OpenPS2Loader
