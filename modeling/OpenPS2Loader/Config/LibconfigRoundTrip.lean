import OpenPS2Loader.Config.Classify

/-!
# Round trip in libconfig

A libconfig set is written with its special characters escaped, its per-game keys renamed and most
of them put into groups, and the reader undoes all of this but the escapes. Here the nodes that come
back are described, and with them the sets that survive.

## Main definitions

* `LibconfigItem` — a node that can be written as a scalar
* `emitted` — the nodes of a set in the order in which they are written
* `readsAs` — the node that is read for a node that was written
* `RoundTrips` — reading the file of a set gives the same keys with the same values
* `Survives` — a value that is not changed by escaping it

## Main results

* `readLines_libconfigLines` — reading the file stores what its nodes are read as
* `roundTrips_iff` — the sets that survive
-/

namespace OpenPS2Loader

namespace Config

/-- A node that can be written as a scalar: the key has no `=`, no `:`, no blank, no CR and no LF,
and does not start something else; the value is not empty, has no CR and no LF, and is not a
boolean of libconfig. -/
structure LibconfigItem (it : ConfigValue) : Prop where
  key_eq : '=' ∉ it.key.text
  key_colon : ':' ∉ it.key.text
  key_ws : ∀ c ∈ it.key.text, isWS c = false
  key_cr : '\r' ∉ it.key.text
  key_lf : '\n' ∉ it.key.text
  key_head : ∀ c ∈ it.key.text.head?, c ≠ '#' ∧ c ≠ '/' ∧ c ≠ '{' ∧ c ≠ '}'
  val_ne_nil : it.val.text ≠ []
  val_cr : '\r' ∉ it.val.text
  val_lf : '\n' ∉ it.val.text
  val_ne_true : it.val.text ≠ "true".toList
  val_ne_false : it.val.text ≠ "false".toList

/-- The nodes of a set in the order in which they are written. -/
def emitted (items : List ConfigValue) : List ConfigValue :=
  rootItems items ++ cfgLibconfigGroups.flatMap (groupItems items)

/-- The node that is read for a node that was written. -/
def readsAs (it : ConfigValue) : ConfigValue :=
  allocConfigItem (translate it.key.text) (readBool ((content it.val.text).take 255))

/-- What a set stores under a key. -/
def valueOf (s : ConfigSet) (key : Text) : Option Text :=
  (s.items.find? (·.key.text = key)).map (·.val.text)

/-- Reading the file of a set into a fresh one gives the same value for every key, and the format
libconfig. -/
def RoundTrips (s : ConfigSet) : Prop :=
  ∀ fb : FileBuffer, fb.Opens (serialise s) →
    ∃ r, configReadFileBuffer fb configAlloc = some r ∧
      (∀ key, valueOf r key = valueOf s key) ∧ r.format = .libconfig

/-- No backslash and no quote; or as long as a value can be, and nothing but backslashes from the
first of them on. -/
def Survives (v : Text) : Prop :=
  (∀ c ∈ v, isSpecial c = false) ∨
    v.length = 255 ∧ ∃ u n, v = u ++ List.replicate n '\\' ∧ ∀ c ∈ u, isSpecial c = false

/-! ### What is read for a node -/

theorem content_eq_escape (v : Text) : content v = escape v := by
  rw [content]
  split_ifs with hbare
  · exact (escape_of_plain fun c hc => ((mem_of_bareScalar hbare).2 c hc).2).symm
  · rfl

theorem length_le_length_escape (v : Text) : v.length ≤ (escape v).length := by
  induction v with
  | nil => exact Nat.zero_le _
  | cons c v ih =>
    rw [escape_cons, List.length_append, List.length_cons]
    split_ifs <;> simp only [List.length_cons, List.length_nil] <;> omega

/-- Escaping adds a character for each special one. -/
theorem length_escape_eq_iff {v : Text} :
    (escape v).length = v.length ↔ ∀ c ∈ v, isSpecial c = false := by
  constructor
  · intro h
    induction v with
    | nil => simp
    | cons c v ih =>
      have hle := length_le_length_escape v
      rw [escape_cons, List.length_append, List.length_cons] at h
      split_ifs at h with hc
      · simp only [List.length_cons, List.length_nil] at h
        omega
      · intro d hd
        rcases List.mem_cons.mp hd with rfl | hd
        · exact Bool.eq_false_iff.mpr hc
        · exact ih (by simp only [List.length_cons, List.length_nil] at h; omega) d hd
  · exact fun h => by rw [escape_of_plain h]

/-- The values that come back unchanged. -/
theorem take_content_eq_self_iff {v : Text} (hlen : v.length ≤ 255) :
    (content v).take 255 = v ↔ Survives v := by
  have hle := length_le_length_escape v
  rw [content_eq_escape, Survives]
  by_cases hfull : v.length = 255
  · have hiff := take_escape_eq_self_iff (v := v)
    rw [hfull] at hiff
    rw [hiff]
    refine ⟨fun h => .inr ⟨hfull, h⟩, ?_⟩
    rintro (h | ⟨-, h⟩)
    · exact ⟨v, 0, by simp, h⟩
    · exact h
  · -- a shorter value comes back as long as it was escaped
    simp only [hfull, false_and, or_false]
    constructor
    · intro h
      refine length_escape_eq_iff.mp ?_
      have := congrArg List.length h
      rw [List.length_take] at this
      omega
    · intro h
      rw [escape_of_plain h, List.take_of_length_le hlen]

section Item

variable {it : ConfigValue} (h : LibconfigItem it)

include h

theorem LibconfigItem.content_ne_nil : content it.val.text ≠ [] := by
  have := length_le_length_escape it.val.text
  have hpos := List.length_pos_iff.mpr h.val_ne_nil
  rw [content_eq_escape, ← List.length_pos_iff]
  omega

/-- A value that is no boolean of libconfig is not read as one. -/
theorem LibconfigItem.readBool_content :
    readBool ((content it.val.text).take 255) = (content it.val.text).take 255 := by
  -- what is read would have to be the value itself
  have hword : ∀ w : Text, w.length < 255 → (∀ c ∈ w, isSpecial c = false) →
      (content it.val.text).take 255 = w → it.val.text = w := by
    intro w hw hplain heq
    have hlen := congrArg List.length heq
    rw [List.length_take] at hlen
    rw [List.take_of_length_le (by omega), content_eq_escape] at heq
    have hval : ∀ c ∈ it.val.text, isSpecial c = false := by
      intro c hc
      refine hplain c ?_
      rw [← heq]
      refine List.mem_flatMap.mpr ⟨c, hc, ?_⟩
      split_ifs <;> simp
    rw [← heq, escape_of_plain hval]
  rw [readBool, if_neg, if_neg]
  · exact fun heq => h.val_ne_false (hword _ (by decide) (by decide) heq)
  · exact fun heq => h.val_ne_true (hword _ (by decide) (by decide) heq)

theorem LibconfigItem.plainName (hne : it.key.text ≠ []) : PlainName it.key.text :=
  ⟨hne, it.key.length_le, h.key_eq, h.key_colon, h.key_ws, h.key_cr, h.key_lf, it.key.nul_not_mem,
    h.key_head⟩

end Item

/-- The stored key is the name that was read. -/
theorem readsAs_key (it : ConfigValue) : (readsAs it).key.text = translate it.key.text := by
  have hshort : nul ∉ translate it.key.text ∧ (translate it.key.text).length ≤ 31 := by
    rw [translate]
    rcases h : cfgWoplToOurs it.key.text with _ | ours
    · exact ⟨it.key.nul_not_mem, it.key.length_le⟩
    · obtain ⟨-, -, -, -, hlen, hnul⟩ := mem_cfgWoplPerGameKeys _ (cfgWoplToOurs_eq_some h)
      exact ⟨hnul, hlen⟩
  change (cstr (translate it.key.text)).take 31 = _
  rw [cstr_of_nul_not_mem hshort.1, List.take_of_length_le hshort.2]

theorem LibconfigItem.readsAs_val {it : ConfigValue} (h : LibconfigItem it) :
    (readsAs it).val.text = (content it.val.text).take 255 := by
  have hnul : nul ∉ (content it.val.text).take 255 := by
    intro hm
    have := List.mem_of_mem_take hm
    rw [content_eq_escape] at this
    rcases mem_escape this with hm | hm
    · exact it.val.nul_not_mem hm
    · exact absurd hm (by decide)
  change (cstr (readBool ((content it.val.text).take 255))).take 255 = _
  rw [h.readBool_content, cstr_of_nul_not_mem hnul, List.take_take, Nat.min_self]

/-! ### Reading the lines -/

/-- A set with its format latched, outside the groups. -/
abbrev latchedState (group : Text) : ReadState := ⟨some .libconfig, [], group⟩

/-- A scalar stores what its node is read as. -/
theorem readLine_scalarLine {it : ConfigValue} (h : LibconfigItem it) {indent key group : Text}
    (hindent : Blanks indent) (hkey : PlainName key)
    (hname : translate (compose group key) = translate it.key.text) (s : ConfigSet) :
    readLine (s, latchedState group) (indent ++ scalarLine key it.val) =
      (configSetStr s (readsAs it).key.text (readsAs it).val.text, latchedState group) := by
  rw [readLine]
  dsimp only
  rw [readKnownLine, cfgReadLibconfigLine_scalarLine hindent hkey, if_neg h.content_ne_nil,
    readsAs_key, h.readsAs_val, ← hname, h.readBool_content]
  rfl

theorem compose_nil {key : Text} (h : key.length ≤ 31) : compose [] key = key := by
  rw [compose, if_neg (by simp), List.take_of_length_le (by omega)]

/-- A name outside the groups is read back, and comes back to the key it stands for. -/
theorem rootName_spec {it : ConfigValue} (h : LibconfigItem it) (hne : it.key.text ≠ []) :
    PlainName (rootName it) ∧ translate (compose [] (rootName it)) = translate it.key.text := by
  rw [compose_nil (length_rootName_le it), rootName]
  rcases hw : cfgOursToWopl it.key.text with _ | w
  · exact ⟨h.plainName hne, rfl⟩
  · obtain ⟨hback, hself⟩ := translate_of_cfgOursToWopl hw
    exact ⟨(mem_cfgWoplPerGameKeys _ (cfgOursToWopl_eq_some hw)).1, by
      rw [Option.getD_some, hback, hself]⟩

theorem foldl_rootLine {its : List ConfigValue}
    (h : ∀ it ∈ its, LibconfigItem it ∧ it.key.text ≠ []) (s : ConfigSet) :
    (its.map rootLine).foldl readLine (s, latchedState []) =
      (configMerge s (its.map readsAs), latchedState []) := by
  induction its generalizing s with
  | nil => rfl
  | cons it its ih =>
    obtain ⟨hit, hne⟩ := h it List.mem_cons_self
    obtain ⟨hplain, hname⟩ := rootName_spec hit hne
    have hline := readLine_scalarLine hit (show Blanks [] by simp [Blanks]) hplain hname s
    rw [List.nil_append] at hline
    rw [List.map_cons, List.foldl_cons, rootLine, hline,
      ih fun x hx => h x (List.mem_cons_of_mem it hx)]
    rfl

theorem foldl_groupLine {g : Text} {its : List ConfigValue}
    (h : ∀ it ∈ its, LibconfigItem it ∧ (keyIn g it).isSome) (s : ConfigSet) :
    (its.map (groupLine g)).foldl readLine (s, latchedState g) =
      (configMerge s (its.map readsAs), latchedState g) := by
  induction its generalizing s with
  | nil => rfl
  | cons it its ih =>
    obtain ⟨hit, hsome⟩ := h it List.mem_cons_self
    obtain ⟨key, hkey⟩ := Option.isSome_iff_exists.mp hsome
    obtain ⟨-, hplain, hback, hself⟩ := groupOf_eq_some (keyIn_eq_some hkey)
    have hindent : Blanks [' ', ' '] := by simp [Blanks, isWS]
    have hline := readLine_scalarLine hit hindent hplain (hback.trans hself.symm) s
    have heq : groupLine g it = [' ', ' '] ++ scalarLine key it.val := by
      rw [groupLine, hkey]
      rfl
    rw [List.map_cons, List.foldl_cons, heq, hline,
      ih fun x hx => h x (List.mem_cons_of_mem it hx)]
    rfl

/-- The header opens the group. -/
theorem readLine_header {g : Text} (hg : g ∈ cfgLibconfigGroups) (s : ConfigSet) :
    readLine (s, latchedState []) (g ++ [' ', ':']) = (s, latchedState g) := by
  have hread : ∀ g ∈ cfgLibconfigGroups, cfgReadLibconfigLine (g ++ [' ', ':']) [] = (g, none) := by
    decide +kernel
  rw [readLine]
  dsimp only
  rw [readKnownLine, hread g hg]
  rfl

theorem foldl_groupBlock {items : List ConfigValue} (h : ∀ it ∈ items, LibconfigItem it) {g : Text}
    (hg : g ∈ cfgLibconfigGroups) (s : ConfigSet) :
    (groupBlock items g).foldl readLine (s, latchedState []) =
      (configMerge s ((groupItems items g).map readsAs), latchedState []) := by
  rw [groupBlock]
  split_ifs with hnil
  · rw [hnil]
    rfl
  · have hopen : readLine (s, latchedState g) ['{'] = (s, latchedState g) := rfl
    have hclose : ∀ t : ConfigSet, readLine (t, latchedState g) ['}', ';'] = (t, latchedState []) :=
      fun _ => rfl
    have hmem : ∀ it ∈ groupItems items g, LibconfigItem it ∧ (keyIn g it).isSome := by
      intro it hit
      obtain ⟨hit, hkey⟩ := List.mem_filter.mp hit
      exact ⟨h it (List.mem_filter.mp hit).1, hkey⟩
    simp only [List.foldl_append, List.foldl_cons, List.foldl_nil, readLine_header hg, hopen,
      foldl_groupLine hmem, hclose]

theorem configMerge_append (s : ConfigSet) (as bs : List ConfigValue) :
    configMerge s (as ++ bs) = configMerge (configMerge s as) bs :=
  List.foldl_append

theorem foldl_groups {items : List ConfigValue} (h : ∀ it ∈ items, LibconfigItem it)
    {gs : List Text} (hgs : gs ⊆ cfgLibconfigGroups) (s : ConfigSet) :
    (gs.flatMap (groupBlock items)).foldl readLine (s, latchedState []) =
      (configMerge s ((gs.flatMap (groupItems items)).map readsAs), latchedState []) := by
  induction gs generalizing s with
  | nil => rfl
  | cons g gs ih =>
    rw [List.flatMap_cons, List.foldl_append, foldl_groupBlock h (hgs List.mem_cons_self),
      ih fun x hx => hgs (List.mem_cons_of_mem g hx), List.flatMap_cons, List.map_append,
      configMerge_append]

theorem scalarLine_shape {key : Text} (hkey : cfgIsLibconfigIdent key = true) (b : CharBuf 255) :
    LibconfigShape (scalarLine key b) :=
  ⟨[], key, [' '], ' ' :: writeValue b.text, [], by simp [Blanks], hkey, by simp [Blanks, isWS],
    by simp, by simp [Blanks], by simp [scalarLine]⟩

/-- From the first line on, a file whose first line looks like libconfig is read as libconfig. -/
theorem foldl_readLine_of_shape {l : Text} (h : LibconfigShape l) (ls : List Text) (s : ConfigSet) :
    (l :: ls).foldl readLine (s, ReadState.init) =
      (l :: ls).foldl readLine ({ s with format := .libconfig }, latchedState []) := by
  have hline : readLine (s, ReadState.init) l =
      readLine ({ s with format := .libconfig }, latchedState []) l := by
    rw [readLine, readLine]
    dsimp only [ReadState.init]
    rw [cfgClassifyLine_eq_libconfig_iff.mpr h]
    rfl
  rw [List.foldl_cons, List.foldl_cons, hline]

theorem persisted_of_mem_rootItems {items : List ConfigValue} {it : ConfigValue}
    (h : it ∈ rootItems items) : it ∈ items ∧ it.key.text ≠ [] := by
  obtain ⟨hmem, hroot⟩ := List.mem_filter.mp h
  rw [Bool.and_eq_true, persisted, Bool.and_eq_true, decide_eq_true_eq] at hroot
  exact ⟨hmem, hroot.1.1⟩

/-- **Reading a libconfig file.** Its lines store what the nodes are read as, in the order in which
they were written. -/
theorem readLines_libconfigLines {items : List ConfigValue} (h : ∀ it ∈ items, LibconfigItem it)
    {first : ConfigValue} (hfirst : (rootItems items).head? = some first)
    (hident : cfgIsLibconfigIdent (rootName first) = true) :
    readLines configAlloc (libconfigLines items) =
      { configMerge { configAlloc with format := .libconfig } ((emitted items).map readsAs) with
        modified := false } := by
  have hroot : ∀ it ∈ rootItems items, LibconfigItem it ∧ it.key.text ≠ [] := fun it hit =>
    ⟨h it (persisted_of_mem_rootItems hit).1, (persisted_of_mem_rootItems hit).2⟩
  obtain ⟨ls, hls⟩ : ∃ ls, libconfigLines items = rootLine first :: ls := by
    rcases hitems : rootItems items with _ | ⟨it, its⟩
    · rw [hitems] at hfirst
      cases hfirst
    · rw [hitems] at hfirst
      cases hfirst
      exact ⟨_, by rw [libconfigLines, hitems]; rfl⟩
  have hfold : (libconfigLines items).foldl readLine
      ({ configAlloc with format := .libconfig }, latchedState []) =
        (configMerge { configAlloc with format := .libconfig } ((emitted items).map readsAs),
          latchedState []) := by
    rw [libconfigLines, List.foldl_append, foldl_rootLine hroot,
      foldl_groups h (List.Subset.refl _), emitted, List.map_append, configMerge_append]
  have hshape : LibconfigShape (rootLine first) := scalarLine_shape hident first.val
  rw [readLines, hls, foldl_readLine_of_shape hshape, ← hls]
  exact congrArg (fun x => ConfigStore.clearModified x.1) hfold

/-! ### The lines of the file are read as they are -/

theorem mem_writeValue {b : CharBuf 255} {c : Char} (h : c ∈ writeValue b.text) :
    c ∈ b.text ∨ c = '\\' ∨ c = '"' := by
  rw [writeValue_eq, content_eq_escape] at h
  split_ifs at h
  · rcases mem_escape h with h | h
    · exact .inl h
    · exact .inr (.inl h)
  · simp only [List.cons_append, List.mem_cons, List.mem_append, List.not_mem_nil, or_false] at h
    rcases h with h | h | h
    · exact .inr (.inr h)
    · rcases mem_escape h with h | h
      · exact .inl h
      · exact .inr (.inl h)
    · exact .inr (.inr h)

theorem mem_scalarLine {key : Text} {b : CharBuf 255} {c : Char} (h : c ∈ scalarLine key b) :
    c ∈ key ∨ c ∈ b.text ∨ c ∈ [' ', '=', '\\', '"', ';'] := by
  simp only [scalarLine, List.mem_append, List.mem_cons, List.not_mem_nil, or_false] at h ⊢
  rcases h with (h | h | h | h | h) | h
  · exact .inl h
  · exact .inr (.inr (.inl h))
  · exact .inr (.inr (.inr (.inl h)))
  · exact .inr (.inr (.inl h))
  · rcases mem_writeValue h with h | h | h
    · exact .inr (.inl h)
    · exact .inr (.inr (.inr (.inr (.inl h))))
    · exact .inr (.inr (.inr (.inr (.inr (.inl h)))))
  · exact .inr (.inr (.inr (.inr (.inr (.inr h)))))

theorem scalarLine_plain {it : ConfigValue} (h : LibconfigItem it) {key : Text}
    (hkey : PlainName key) :
    '\n' ∉ scalarLine key it.val ∧ '\r' ∉ scalarLine key it.val ∧
      (scalarLine key it.val).head? ≠ some '#' := by
  refine ⟨fun hm => ?_, fun hm => ?_, ?_⟩
  · rcases mem_scalarLine hm with hm | hm | hm
    · exact hkey.lf hm
    · exact h.val_lf hm
    · exact absurd hm (by decide)
  · rcases mem_scalarLine hm with hm | hm | hm
    · exact hkey.cr hm
    · exact h.val_cr hm
    · exact absurd hm (by decide)
  · obtain ⟨c, s, rfl⟩ := List.exists_cons_of_ne_nil hkey.ne_nil
    simpa [scalarLine] using (hkey.head c rfl).1

theorem mem_libconfigLines {items : List ConfigValue} (h : ∀ it ∈ items, LibconfigItem it)
    {l : Text} (hl : l ∈ libconfigLines items) : '\n' ∉ l ∧ '\r' ∉ l ∧ l.head? ≠ some '#' := by
  have hheader : ∀ g ∈ cfgLibconfigGroups, '\n' ∉ g ++ [' ', ':'] ∧ '\r' ∉ g ++ [' ', ':'] ∧
      (g ++ [' ', ':']).head? ≠ some '#' := by decide
  rcases List.mem_append.mp hl with hl | hl
  · obtain ⟨it, hit, rfl⟩ := List.mem_map.mp hl
    obtain ⟨hmem, hne⟩ := persisted_of_mem_rootItems hit
    exact scalarLine_plain (h it hmem) (rootName_spec (h it hmem) hne).1
  · obtain ⟨g, hg, hl⟩ := List.mem_flatMap.mp hl
    rw [groupBlock] at hl
    split_ifs at hl
    · cases hl
    · rw [List.cons_append, List.cons_append, List.mem_cons, List.mem_cons, List.mem_append,
        List.mem_singleton] at hl
      rcases hl with rfl | rfl | hl | rfl
      · exact hheader g hg
      · decide
      · obtain ⟨it, hit, rfl⟩ := List.mem_map.mp hl
        obtain ⟨hit, hsome⟩ := List.mem_filter.mp hit
        obtain ⟨key, hkey⟩ := Option.isSome_iff_exists.mp hsome
        obtain ⟨hlf, hcr, -⟩ := scalarLine_plain (h it (List.mem_filter.mp hit).1)
          (groupOf_eq_some (keyIn_eq_some hkey)).2.1
        rw [groupLine, hkey]
        simpa using ⟨hlf, hcr⟩
      · decide

/-! ### The nodes in the order they are written -/

/-- A list cut by a function into some classes, and what is in none of them. -/
theorem perm_filter_append_flatMap {α β : Type*} [DecidableEq β] (f : α → Option β) {bs : List β}
    (hnd : bs.Nodup) (l : List α) :
    List.Perm ((l.filter fun a => ∀ b ∈ bs, f a ≠ some b) ++
      bs.flatMap fun b => l.filter fun a => f a = some b) l := by
  induction bs with
  | nil => simp
  | cons b bs ih =>
    rw [List.nodup_cons] at hnd
    refine .trans ?_ (ih hnd.2)
    rw [List.flatMap_cons, ← List.append_assoc]
    refine .append_right _ ?_
    have hin : (l.filter fun a => ∀ b ∈ bs, f a ≠ some b).filter (fun a => f a = some b) =
        l.filter fun a => f a = some b := by
      rw [List.filter_filter]
      refine List.filter_congr fun a _ => ?_
      rw [Bool.eq_iff_iff, Bool.and_eq_true, decide_eq_true_eq, decide_eq_true_eq]
      refine ⟨fun h => h.1, fun ha => ⟨ha, fun x hx he => hnd.1 ?_⟩⟩
      rw [ha, Option.some.injEq] at he
      rwa [he]
    have hout : (l.filter fun a => ∀ b ∈ bs, f a ≠ some b).filter
        (fun a => !decide (f a = some b)) = l.filter fun a => ∀ x ∈ b :: bs, f a ≠ some x := by
      rw [List.filter_filter]
      refine List.filter_congr fun a _ => ?_
      by_cases ha : f a = some b <;> simp [ha]
    have hperm := List.filter_append_perm (fun a => decide (f a = some b))
      (l.filter fun a => ∀ b ∈ bs, f a ≠ some b)
    rw [hin, hout] at hperm
    exact List.perm_append_comm.trans hperm

/-- The nodes that are written are those with a key that is not empty and no comment. -/
theorem emitted_perm (items : List ConfigValue) :
    (emitted items).Perm (items.filter persisted) := by
  have hnd : cfgLibconfigGroups.Nodup := by decide
  have hperm := perm_filter_append_flatMap (fun it => (groupOf it).map Prod.fst) hnd
    (items.filter persisted)
  have hroot : (items.filter persisted).filter (fun it => ∀ g ∈ cfgLibconfigGroups,
      (groupOf it).map Prod.fst ≠ some g) = rootItems items := by
    rw [List.filter_filter, rootItems]
    refine List.filter_congr fun it _ => ?_
    rcases hg : groupOf it with _ | ⟨g, key⟩
    · simp
    · have := (groupOf_eq_some hg).1
      simpa using fun hne => absurd rfl (hne g this)
  have hgroup : ∀ g, (items.filter persisted).filter
      (fun it => (groupOf it).map Prod.fst = some g) = groupItems items g := by
    intro g
    refine List.filter_congr fun it _ => ?_
    rw [keyIn]
    rcases hg : groupOf it with _ | ⟨g', key⟩
    · simp
    · by_cases he : g' = g <;> simp [he]
  rw [hroot] at hperm
  simp only [hgroup] at hperm
  exact hperm

/-! ### The sets that survive -/

theorem valueOf_eq_some_iff {s : ConfigSet} (hs : KeysDistinct s) {key v : Text} :
    valueOf s key = some v ↔ ∃ it ∈ s.items, it.key.text = key ∧ it.val.text = v := by
  rw [valueOf, Option.map_eq_some_iff]
  constructor
  · rintro ⟨it, hit, rfl⟩
    have := List.find?_some hit
    rw [decide_eq_true_eq] at this
    exact ⟨it, List.mem_of_find?_eq_some hit, this, rfl⟩
  · rintro ⟨it, hit, rfl, rfl⟩
    refine ⟨it, ?_, rfl⟩
    rw [KeysDistinct] at hs
    generalize s.items = items at hit hs
    induction items with
    | nil => cases hit
    | cons x items ih =>
      rw [List.map_cons, List.nodup_cons] at hs
      rcases List.mem_cons.mp hit with rfl | hit
      · exact List.find?_cons_of_pos (by simp)
      · rw [List.find?_cons_of_neg, ih hit hs.2]
        rw [decide_eq_true_eq]
        intro he
        exact hs.1 (List.mem_map.mpr ⟨it, hit, CharBuf.ext he.symm⟩)

/-- The set that is read for the nodes `items`. -/
def readBack (items : List ConfigValue) : ConfigSet :=
  { configMerge { configAlloc with format := .libconfig } ((emitted items).map readsAs) with
    modified := false }

theorem configReadFileBuffer_libconfig {s : ConfigSet} (hfmt : s.format = .libconfig)
    (h : ∀ it ∈ s.items, LibconfigItem it) {first : ConfigValue}
    (hfirst : (rootItems s.items).head? = some first)
    (hident : cfgIsLibconfigIdent (rootName first) = true) {fb : FileBuffer}
    (hfb : fb.Opens (serialise s)) :
    configReadFileBuffer fb configAlloc = some (readBack s.items) := by
  have hlines : fb.lines = some (libconfigLines s.items) := by
    rw [lines_of_opens_serialise hfb, writtenLines, hfmt]
    dsimp only
    rw [subLines_eq_self fun l hl => (mem_libconfigLines h hl).1,
      FileBuffer.visible_eq_self fun l hl => (mem_libconfigLines h hl).2]
  rw [configReadFileBuffer, hlines, Option.map_some, readLines_libconfigLines h hfirst hident,
    readBack]

theorem LibconfigItem.persisted {it : ConfigValue} (h : LibconfigItem it)
    (hne : it.key.text ≠ []) : persisted it = true := by
  rw [Config.persisted, Bool.and_eq_true, decide_eq_true_eq, decide_eq_true_eq]
  exact ⟨hne, fun hc => (h.key_head '#' hc).1 rfl⟩

theorem emitted_perm_self {items : List ConfigValue} (h : ∀ it ∈ items, LibconfigItem it)
    (hne : ∀ it ∈ items, it.key.text ≠ []) : (emitted items).Perm items := by
  have := emitted_perm items
  rwa [List.filter_eq_self.mpr fun it hit => (h it hit).persisted (hne it hit)] at this

/-- When no key is empty and none is a name of theirs, the nodes that are read are those that were
written, but for their values. -/
theorem readBack_items {s : ConfigSet} (hs : KeysDistinct s)
    (h : ∀ it ∈ s.items, LibconfigItem it)
    (hkeys : ∀ it ∈ s.items, it.key.text ≠ [] ∧ cfgWoplToOurs it.key.text = none) :
    (readBack s.items).items = (emitted s.items).map readsAs ∧
      (∀ it ∈ s.items, (readsAs it).key = it.key) ∧ KeysDistinct (readBack s.items) := by
  have hperm := emitted_perm_self h fun it hit => (hkeys it hit).1
  have hkey : ∀ it ∈ s.items, (readsAs it).key = it.key := by
    intro it hit
    refine CharBuf.ext ?_
    rw [readsAs_key, translate, (hkeys it hit).2]
    rfl
  have hmap : ((emitted s.items).map readsAs).map (·.key) = (emitted s.items).map (·.key) := by
    rw [List.map_map]
    exact List.map_congr_left fun it hit => hkey it (hperm.mem_iff.mp hit)
  have hnd : (((emitted s.items).map readsAs).map (·.key)).Nodup := by
    rw [hmap]
    exact (hperm.map _).nodup_iff.mpr hs
  have hitems : (readBack s.items).items = (emitted s.items).map readsAs := by
    refine configMerge_items ?_ (by simpa [configAlloc] using hnd)
    intro x hx
    obtain ⟨it, hit, rfl⟩ := List.mem_map.mp hx
    have hmem := hperm.mem_iff.mp hit
    rw [hkey it hmem, configKeyValidate, CharBuf.cstr_text, Bool.and_eq_true, decide_eq_true_eq,
      decide_eq_true_eq]
    exact ⟨(hkeys it hmem).1, (h it hmem).key_eq⟩
  exact ⟨hitems, hkey, by rw [KeysDistinct, hitems]; exact hnd⟩

/-- A key that is read is not empty and not a name of theirs. -/
theorem key_of_mem_readBack {items : List ConfigValue} {x : ConfigValue}
    (hx : x ∈ (readBack items).items) :
    x.key.text ≠ [] ∧ cfgWoplToOurs x.key.text = none := by
  rcases mem_configMerge hx with ⟨y, hy, -⟩ | ⟨y, hy, hykey⟩
  · cases hy
  · obtain ⟨z, hz, rfl⟩ := List.mem_map.mp hy
    have hzne : z.key.text ≠ [] := by
      have := (List.mem_filter.mp ((emitted_perm items).mem_iff.mp hz)).2
      rw [persisted, Bool.and_eq_true, decide_eq_true_eq] at this
      exact this.1
    rw [← hykey, readsAs_key]
    refine ⟨?_, cfgWoplToOurs_translate _⟩
    rw [translate]
    rcases hours : cfgWoplToOurs z.key.text with _ | ours
    · exact hzne
    · intro hnil
      have := (mem_cfgWoplPerGameKeys _ (cfgWoplToOurs_eq_some hours)).2.2.2.1
      rw [show ours = [] from hnil] at this
      cases this

/-- **Round trip in libconfig.** Take a libconfig set with distinct keys whose nodes can be written
as scalars, and whose first line is an identifier scalar. Reading its file gives the same keys with
the same values exactly when no key is empty or one of the names of the other side's per-game files,
and no value has a backslash or a quote (but for a value of 255 characters that ends in backslashes
and has no other special character). Nothing that was escaped is unescaped. -/
theorem roundTrips_iff (s : ConfigSet) (hfmt : s.format = .libconfig) (hs : KeysDistinct s)
    (h : ∀ it ∈ s.items, LibconfigItem it)
    (hfirst : ∃ it, (rootItems s.items).head? = some it ∧
      cfgIsLibconfigIdent (rootName it) = true) :
    RoundTrips s ↔ ∀ it ∈ s.items,
      it.key.text ≠ [] ∧ cfgWoplToOurs it.key.text = none ∧ Survives it.val.text := by
  obtain ⟨first, hfirst, hident⟩ := hfirst
  have hread : ∀ {fb : FileBuffer}, fb.Opens (serialise s) →
      configReadFileBuffer fb configAlloc = some (readBack s.items) :=
    fun hfb => configReadFileBuffer_libconfig hfmt h hfirst hident hfb
  constructor
  · intro hrt
    obtain ⟨r, hr, hvalue, -⟩ := hrt (.openFileBufferBuffer (serialise s)) (.inr rfl)
    rw [hread (.inr rfl), Option.some.injEq] at hr
    subst hr
    -- a key that is found in what was read is the name something was read as
    have hkeys : ∀ it ∈ s.items, it.key.text ≠ [] ∧ cfgWoplToOurs it.key.text = none := by
      intro it hit
      have hsome := hvalue it.key.text
      rw [(valueOf_eq_some_iff hs).mpr ⟨it, hit, rfl, rfl⟩, valueOf,
        Option.map_eq_some_iff] at hsome
      obtain ⟨x, hx, -⟩ := hsome
      have hxkey := List.find?_some hx
      rw [decide_eq_true_eq] at hxkey
      rw [← hxkey]
      exact key_of_mem_readBack (List.mem_of_find?_eq_some hx)
    obtain ⟨hitems, hkey, hdistinct⟩ := readBack_items hs h hkeys
    intro it hit
    refine ⟨(hkeys it hit).1, (hkeys it hit).2, ?_⟩
    have hmem : readsAs it ∈ (readBack s.items).items := by
      rw [hitems]
      exact List.mem_map_of_mem
        ((emitted_perm_self h fun x hx => (hkeys x hx).1).mem_iff.mpr hit)
    have hval := hvalue it.key.text
    rw [(valueOf_eq_some_iff hs).mpr ⟨it, hit, rfl, rfl⟩,
      (valueOf_eq_some_iff hdistinct).mpr ⟨readsAs it, hmem, by rw [hkey it hit], rfl⟩,
      Option.some.injEq, (h it hit).readsAs_val] at hval
    exact (take_content_eq_self_iff it.val.length_le).mp hval
  · intro hcond fb hfb
    have hkeys : ∀ it ∈ s.items, it.key.text ≠ [] ∧ cfgWoplToOurs it.key.text = none :=
      fun it hit => ⟨(hcond it hit).1, (hcond it hit).2.1⟩
    obtain ⟨hitems, hkey, hdistinct⟩ := readBack_items hs h hkeys
    have hperm := emitted_perm_self h fun it hit => (hkeys it hit).1
    -- every node is read as itself
    have hself : ∀ it ∈ s.items, readsAs it = it := by
      intro it hit
      refine ConfigValue.ext (hkey it hit) (CharBuf.ext ?_)
      rw [(h it hit).readsAs_val]
      exact (take_content_eq_self_iff it.val.length_le).mpr (hcond it hit).2.2
    have hmap : (emitted s.items).map readsAs = emitted s.items := by
      conv_rhs => rw [← List.map_id (emitted s.items)]
      exact List.map_congr_left fun it hit => hself it (hperm.mem_iff.mp hit)
    refine ⟨_, hread hfb, fun key => ?_, configMerge_format _ _⟩
    refine Option.ext fun v => ?_
    rw [valueOf_eq_some_iff hdistinct, valueOf_eq_some_iff hs, hitems, hmap]
    simp only [hperm.mem_iff]

/-- An application with a path that has a blank, a semicolon and a blank at its end. -/
def appSet : ConfigSet where
  items := [allocConfigItem "title".toList " My App; ".toList,
    allocConfigItem "$EnableGSM".toList "1".toList]
  modified := true
  format := .libconfig

theorem roundTrips_appSet : RoundTrips appSet := by
  refine (roundTrips_iff appSet rfl (by rw [KeysDistinct]; decide) ?_ ?_).mpr ?_
  · intro it hit
    simp only [appSet, List.mem_cons, List.not_mem_nil, or_false] at hit
    rcases hit with rfl | rfl <;> constructor <;> decide
  · exact ⟨_, rfl, by decide⟩
  · intro it hit
    simp only [appSet, List.mem_cons, List.not_mem_nil, or_false] at hit
    rcases hit with rfl | rfl
    · exact ⟨by decide, by decide, .inl (by decide)⟩
    · exact ⟨by decide, by decide, .inl (by decide)⟩

/-- An application whose title has a quote in it. -/
def quotedSet : ConfigSet where
  items := [allocConfigItem "title".toList "a\"b".toList]
  modified := true
  format := .libconfig

/-- The quote comes back with the backslash in front of it. -/
theorem not_roundTrips_quotedSet :
    quotedSet.format = .libconfig ∧ KeysDistinct quotedSet ∧
    (∀ it ∈ quotedSet.items, LibconfigItem it) ∧
    (∃ it, (rootItems quotedSet.items).head? = some it ∧
      cfgIsLibconfigIdent (rootName it) = true) ∧
    ¬ RoundTrips quotedSet := by
  refine ⟨rfl, by rw [KeysDistinct]; decide, ?_, ⟨_, rfl, by decide⟩, fun h => ?_⟩
  · intro it hit
    simp only [quotedSet, List.mem_cons, List.not_mem_nil, or_false] at hit
    rcases hit with rfl
    constructor <;> decide
  · obtain ⟨r, hr, hvalue, -⟩ := h (.openFileBufferBuffer (serialise quotedSet)) (.inr rfl)
    have hread : (configReadFileBuffer (.openFileBufferBuffer (serialise quotedSet))
        configAlloc).map (fun s => valueOf s "title".toList) = some (some "a\\\"b".toList) := by
      decide +kernel
    rw [hr, Option.map_some, hvalue] at hread
    exact absurd hread (by decide)

end Config

end OpenPS2Loader
