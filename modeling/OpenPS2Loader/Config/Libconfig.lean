import OpenPS2Loader.Config.Syntax

/-!
# The lines of a libconfig file

What `cfgWriteLibconfig` writes, as lines: a scalar `key = value;` for each node, at the root or,
indented, in the block of its group. And what `cfgReadLibconfigLine` makes of these lines: a string
comes back as it was escaped, since nothing is unescaped.

## Main definitions

* `escape`, `content` — a value as it stands in the file, without its quotes
* `scalarLine` — the line of a scalar
* `PlainName` — a name that is read back

## Main results

* `cfgWriteLibconfigLine_eq` — the buffers of the writer are large enough
* `cfgReadLibconfigLine_scalarLine` — reading a scalar
* `take_escape_eq_self_iff` — the values that escaping leaves alone
-/

namespace OpenPS2Loader

namespace Config

/-! ### Escaping -/

/-- A value with its special characters escaped. -/
def escape (v : Text) : Text := v.flatMap fun c => if isSpecial c then ['\\', c] else [c]

theorem escape_cons (c : Char) (v : Text) :
    escape (c :: v) = (if isSpecial c then ['\\', c] else [c]) ++ escape v := rfl

theorem length_escape_le (v : Text) : (escape v).length ≤ 2 * v.length := by
  induction v with
  | nil => exact Nat.zero_le _
  | cons c v ih =>
    rw [escape_cons, List.length_append, List.length_cons]
    split_ifs <;> simp only [List.length_cons, List.length_nil] <;> omega

/-- The `char[512]` takes every value of 255 characters. -/
theorem escapeFrom_eq {i : ℕ} {v : Text} (h : i + 2 * v.length ≤ 510) :
    escapeFrom i v = escape v := by
  induction v generalizing i with
  | nil => rfl
  | cons c v ih =>
    rw [List.length_cons] at h
    rw [escapeFrom, if_pos (by omega), escape_cons]
    split_ifs
    · rw [ih (by omega)]
      rfl
    · rw [ih (by omega)]
      rfl

theorem mem_escape {v : Text} {c : Char} (h : c ∈ escape v) : c ∈ v ∨ c = '\\' := by
  obtain ⟨d, hd, hc⟩ := List.mem_flatMap.mp h
  split_ifs at hc with hs
  · rcases List.mem_cons.mp hc with rfl | hc
    · exact .inr rfl
    · exact .inl (List.mem_singleton.mp hc ▸ hd)
  · exact .inl (List.mem_singleton.mp hc ▸ hd)

theorem escape_of_plain {v : Text} (h : ∀ c ∈ v, isSpecial c = false) : escape v = v := by
  induction v with
  | nil => rfl
  | cons c v ih =>
    rw [escape_cons, h c List.mem_cons_self, ih fun d hd => h d (List.mem_cons_of_mem c hd)]
    rfl

theorem escape_replicate (n : ℕ) :
    escape (List.replicate n '\\') = List.replicate (2 * n) '\\' := by
  induction n with
  | zero => rfl
  | succ n ih =>
    rw [List.replicate_succ, escape_cons, if_pos (by decide), ih, Nat.mul_succ, Nat.add_comm,
      List.replicate_add]
    rfl

/-- When backslashes are in front of the escaped value and it is still the same, each of its
characters is one. -/
theorem eq_replicate_of_take_escape {m : ℕ} {v : Text}
    (h : (List.replicate (m + 1) '\\' ++ escape v).take v.length = v) :
    v = List.replicate v.length '\\' := by
  induction v generalizing m with
  | nil => rfl
  | cons c v ih =>
    rw [List.replicate_succ, List.cons_append, List.length_cons, List.take_succ_cons,
      List.cons.injEq] at h
    obtain ⟨hc, h⟩ := h
    subst hc
    rw [List.length_cons, List.replicate_succ, List.cons.injEq]
    refine ⟨rfl, ih (m := m + 1) ?_⟩
    rwa [escape_cons, if_pos (by decide), ← List.append_assoc,
      show ['\\', '\\'] = List.replicate 2 '\\' from rfl, ← List.replicate_add] at h

/-- A value that is the same when it is escaped and cut to its length: it has no special character,
or nothing but backslashes from the first one on. -/
theorem take_escape_eq_self_iff {v : Text} :
    (escape v).take v.length = v ↔
      ∃ u n, v = u ++ List.replicate n '\\' ∧ ∀ c ∈ u, isSpecial c = false := by
  constructor
  · intro h
    induction v with
    | nil => exact ⟨[], 0, rfl, by simp⟩
    | cons c v ih =>
      rw [escape_cons, List.length_cons] at h
      split_ifs at h with hc
      · rw [List.cons_append, List.take_succ_cons, List.cons.injEq] at h
        obtain ⟨rfl, h⟩ := h
        refine ⟨[], v.length + 1, ?_, by simp⟩
        rw [List.nil_append, List.replicate_succ, List.cons.injEq]
        exact ⟨rfl, eq_replicate_of_take_escape (m := 0) h⟩
      · rw [List.singleton_append, List.take_succ_cons, List.cons.injEq] at h
        obtain ⟨u, n, hv, hu⟩ := ih h.2
        refine ⟨c :: u, n, by rw [List.cons_append, ← hv], ?_⟩
        intro d hd
        rcases List.mem_cons.mp hd with rfl | hd
        · exact Bool.eq_false_iff.mpr hc
        · exact hu d hd
  · rintro ⟨u, n, rfl, hu⟩
    have happ : escape (u ++ List.replicate n '\\') = u ++ List.replicate (2 * n) '\\' := by
      rw [escape, List.flatMap_append, ← escape, ← escape, escape_of_plain hu, escape_replicate]
    rw [happ, List.length_append, List.take_length_add_append, List.length_replicate,
      List.take_replicate, Nat.min_eq_left (by omega)]

/-! ### Values -/

/-- What stands in the file for a value, without the quotes. -/
def content (v : Text) : Text := if cfgValueIsBareScalar v then v else escape v

theorem writeValue_eq (b : CharBuf 255) :
    writeValue b.text =
      if cfgValueIsBareScalar b.text then content b.text
      else '"' :: content b.text ++ ['"'] := by
  have := b.length_le
  rw [writeValue, content]
  split_ifs
  · rfl
  · rw [escapeFrom_eq (by omega)]

theorem length_writeValue_le (b : CharBuf 255) : (writeValue b.text).length ≤ 512 := by
  have hb := b.length_le
  have := length_escape_le b.text
  rw [writeValue_eq, content]
  split_ifs
  · omega
  · simp only [List.length_append, List.length_cons, List.length_nil]
    omega

/-- A bare scalar is made of letters, digits and a sign. -/
theorem mem_of_bareScalar {v : Text} (h : cfgValueIsBareScalar v = true) :
    v ≠ [] ∧ ∀ c ∈ v, isWS c = false ∧ isSpecial c = false := by
  have hword : ∀ w ∈ ["true".toList, "false".toList],
      w ≠ [] ∧ ∀ c ∈ w, isWS c = false ∧ isSpecial c = false := by decide
  have hdigit : ∀ c : Char, c.isDigit = true → isWS c = false ∧ isSpecial c = false := by
    intro c hc
    constructor
    · by_contra hws
      rw [Bool.not_eq_false, isWS, Bool.or_eq_true, decide_eq_true_eq, decide_eq_true_eq] at hws
      rcases hws with rfl | rfl <;> simp at hc
    · by_contra hs
      rw [Bool.not_eq_false, isSpecial, Bool.or_eq_true, decide_eq_true_eq,
        decide_eq_true_eq] at hs
      rcases hs with rfl | rfl <;> simp at hc
  rw [cfgValueIsBareScalar] at h
  split_ifs at h with hb hsign
  · rcases hb with rfl | rfl
    · exact hword _ (by simp)
    · exact hword _ (by simp)
  · rw [Bool.and_eq_true, decide_eq_true_eq, List.all_eq_true] at h
    cases v with
    | nil => cases hsign
    | cons c v =>
      rw [List.head?_cons, Option.some.injEq] at hsign
      refine ⟨by simp, fun d hd => ?_⟩
      rcases List.mem_cons.mp hd with rfl | hd
      · rw [hsign]
        decide
      · exact hdigit d (h.2 d hd)
  · rw [Bool.and_eq_true, decide_eq_true_eq, List.all_eq_true] at h
    exact ⟨h.1, fun d hd => hdigit d (h.2 d hd)⟩

/-! ### Scalars -/

/-- The line of a scalar, without its indentation. -/
def scalarLine (key : Text) (b : CharBuf 255) : Text :=
  key ++ ' ' :: '=' :: ' ' :: writeValue b.text ++ [';']

theorem length_scalarLine_le {key : Text} (hkey : key.length ≤ 31) (b : CharBuf 255) :
    (scalarLine key b).length ≤ 547 := by
  have := length_writeValue_le b
  simp only [scalarLine, List.length_append, List.length_cons, List.length_nil]
  omega

/-- The buffer of the writer takes every scalar. -/
theorem cfgWriteLibconfigLine_eq {indent key : Text} (hindent : indent.length ≤ 2)
    (hkey : key.length ≤ 31) (b : CharBuf 255) :
    cfgWriteLibconfigLine indent key b.text = indent ++ scalarLine key b ++ ['\n'] := by
  have := length_scalarLine_le hkey b
  have heq : indent ++ key ++ " = ".toList ++ writeValue b.text ++ ";\n".toList =
      indent ++ scalarLine key b ++ ['\n'] := by
    simp [scalarLine]
  rw [cfgWriteLibconfigLine, snprintf, heq, List.take_of_length_le]
  simp only [List.length_append, List.length_cons, List.length_nil]
  omega

/-- A name that is read back from a scalar: no `=`, no `:`, no blank, no CR, no LF, no NUL, and none
of the characters that start something else. -/
structure PlainName (name : Text) : Prop where
  ne_nil : name ≠ []
  length_le : name.length ≤ 31
  eq : '=' ∉ name
  colon : ':' ∉ name
  ws : ∀ c ∈ name, isWS c = false
  cr : '\r' ∉ name
  lf : '\n' ∉ name
  nul : nul ∉ name
  head : ∀ c ∈ name.head?, c ≠ '#' ∧ c ≠ '/' ∧ c ≠ '{' ∧ c ≠ '}'

theorem isWS_getLast_writeValue (b : CharBuf 255) :
    writeValue b.text ≠ [] ∧ (∀ c ∈ (writeValue b.text).head?, isWS c = false) ∧
      ∀ c ∈ (writeValue b.text).getLast?, isWS c = false := by
  rw [writeValue_eq, content]
  split_ifs with hbare
  · obtain ⟨hne, hmem⟩ := mem_of_bareScalar hbare
    exact ⟨hne, fun c hc => (hmem c (List.mem_of_head? hc)).1,
      fun c hc => (hmem c (List.mem_of_getLast? hc)).1⟩
  · refine ⟨by simp, ?_, ?_⟩
    · intro c hc
      rw [List.cons_append, List.head?_cons, Option.mem_some_iff] at hc
      rw [← hc]
      decide
    · intro c hc
      rw [List.getLast?_concat, Option.mem_some_iff] at hc
      rw [← hc]
      decide

/-- The quotes that were written are dropped. -/
theorem unquote_writeValue (b : CharBuf 255) :
    unquote (' ' :: writeValue b.text) = content b.text := by
  have hskip : skipWS (' ' :: writeValue b.text) = writeValue b.text :=
    Text.dropWhile_append_of_all (b := [' ']) (by decide) (isWS_getLast_writeValue b).2.1
  rw [unquote, hskip, writeValue_eq]
  split_ifs with hbare
  · -- a bare scalar does not start with a quote
    rw [content, if_pos hbare]
    split
    · rename_i v heq
      have := ((mem_of_bareScalar hbare).2 '"' (by rw [heq]; exact List.mem_cons_self)).2
      exact absurd this (by decide)
    · rfl
  · rw [List.cons_append]
    exact (if_pos List.getLast?_concat).trans List.dropLast_concat

/-- The `;` is dropped, and nothing else. -/
theorem dropTerminator_scalarLine (key : Text) (b : CharBuf 255) :
    dropTerminator (scalarLine key b) = key ++ ' ' :: '=' :: ' ' :: writeValue b.text := by
  obtain ⟨hne, -, hlast⟩ := isWS_getLast_writeValue b
  have htrim : trimEnd (scalarLine key b) = scalarLine key b := by
    refine Text.rdropWhile_of_last fun c hc => ?_
    rw [scalarLine, List.getLast?_concat, Option.mem_some_iff] at hc
    rw [← hc]
    decide
  rw [dropTerminator, htrim, scalarLine, List.getLast?_concat, if_pos rfl, List.dropLast_concat]
  refine Text.rdropWhile_of_last fun c hc => hlast c ?_
  have happ : key ++ ' ' :: '=' :: ' ' :: writeValue b.text =
      (key ++ [' ', '=', ' ']) ++ writeValue b.text := by simp
  rw [happ, List.getLast?_append_of_ne_nil _ hne] at hc
  exact hc

/-- **Reading a scalar.** The name is put behind the name of the group and translated. The value is
what stands between the quotes, cut to 255 characters; it is not unescaped. -/
theorem cfgReadLibconfigLine_scalarLine {indent key : Text} (hindent : ∀ c ∈ indent, isWS c = true)
    (hkey : PlainName key) (b : CharBuf 255) (group : Text) :
    cfgReadLibconfigLine (indent ++ scalarLine key b) group =
      (group, if content b.text = [] then none
        else some ((cfgWoplToOurs (compose group key)).getD (compose group key),
          readBool ((content b.text).take 255))) := by
  obtain ⟨c, s, hcs⟩ := List.exists_cons_of_ne_nil hkey.ne_nil
  obtain ⟨hhash, hslash, hopen, hclose⟩ := hkey.head c (by rw [hcs]; rfl)
  have hcons : scalarLine key b = c :: (scalarLine key b).tail := by
    rw [scalarLine, hcs]
    rfl
  have hskip : skipWS (indent ++ scalarLine key b) = scalarLine key b := by
    refine Text.dropWhile_append_of_all hindent fun d hd => ?_
    rw [hcons, List.head?_cons, Option.mem_some_iff] at hd
    exact hd ▸ hkey.ws c (hcs ▸ List.mem_cons_self)
  have hcomment : ¬ (scalarLine key b = [] ∨ startsComment (scalarLine key b) = true) := by
    rw [hcons, startsComment_cons hhash hslash]
    simp
  have hcut : Text.cutAt '=' (scalarLine key b) =
      (key ++ [' '], some (' ' :: writeValue b.text ++ [';'])) := by
    have happ : scalarLine key b =
        (key ++ [' ']) ++ '=' :: (' ' :: writeValue b.text ++ [';']) := by
      simp [scalarLine]
    rw [happ, Text.cutAt_append]
    simpa using hkey.eq
  have htrim : trimEnd (key ++ [' ']) = key := by
    refine Text.rdropWhile_append_of_all (by decide) fun d hd => ?_
    exact hkey.ws d (List.mem_of_getLast? hd)
  have hdrop : (dropTerminator (scalarLine key b)).drop ((key ++ [' ']).length + 1) =
      ' ' :: writeValue b.text := by
    rw [dropTerminator_scalarLine, List.length_append, List.length_singleton, Nat.add_assoc,
      ← List.drop_drop, List.drop_left]
    rfl
  have hcolon : ':' ∉ key ++ [' '] := by simpa using hkey.colon
  have hlen : ¬ (key = [] ∨ 32 ≤ key.length) := by
    have := hkey.length_le
    simp only [hkey.ne_nil, false_or]
    omega
  have hbrace : (scalarLine key b).head? ≠ some '}' ∧ (scalarLine key b).head? ≠ some '{' := by
    rw [hcons]
    simpa using ⟨hclose, hopen⟩
  rw [cfgReadLibconfigLine, hskip, if_neg hcomment, if_neg hbrace.1, if_neg hbrace.2, hcut]
  dsimp only
  rw [if_neg hcolon, htrim, if_neg hlen, hdrop, unquote_writeValue]
  split_ifs <;> rfl

/-! ### The table of keys -/

instance (name : Text) : Decidable (PlainName name) :=
  decidable_of_iff (name ≠ [] ∧ name.length ≤ 31 ∧ '=' ∉ name ∧ ':' ∉ name ∧
      (∀ c ∈ name, isWS c = false) ∧ '\r' ∉ name ∧ '\n' ∉ name ∧ OpenPS2Loader.nul ∉ name ∧
      ∀ c ∈ name.head?, c ≠ '#' ∧ c ≠ '/' ∧ c ≠ '{' ∧ c ≠ '}')
    ⟨fun ⟨h₁, h₂, h₃, h₄, h₅, h₆, h₇, h₈, h₉⟩ => ⟨h₁, h₂, h₃, h₄, h₅, h₆, h₇, h₈, h₉⟩,
      fun h => ⟨h.1, h.2, h.3, h.4, h.5, h.6, h.7, h.8, h.9⟩⟩

/-- The rows of the table: a name of theirs is read back and translated to ours, and no name of ours
is one of theirs. -/
theorem mem_cfgWoplPerGameKeys : ∀ row ∈ cfgWoplPerGameKeys,
    PlainName row.1 ∧ cfgWoplToOurs row.1 = some row.2 ∧ cfgWoplToOurs row.2 = none ∧
      row.2.head? = some '$' ∧ row.2.length ≤ 31 ∧ nul ∉ row.2 := by
  decide +kernel

/-- A name in a group is put together again from the name of the group and the rest. -/
theorem cfgMatchGroup_row : ∀ row ∈ cfgWoplPerGameKeys, ∀ x ∈ cfgMatchGroup row.1,
    x.1 ∈ cfgLibconfigGroups ∧ compose x.1 (row.1.drop x.2) = row.1 ∧
      PlainName (row.1.drop x.2) := by
  decide +kernel

theorem cfgOursToWopl_eq_some {key w : Text} (h : cfgOursToWopl key = some w) :
    (w, key) ∈ cfgWoplPerGameKeys := by
  obtain ⟨row, hrow, rfl⟩ := Option.map_eq_some_iff.mp h
  have := List.find?_some hrow
  rw [decide_eq_true_eq] at this
  exact this ▸ List.mem_of_find?_eq_some hrow

theorem cfgWoplToOurs_eq_some {key ours : Text} (h : cfgWoplToOurs key = some ours) :
    (key, ours) ∈ cfgWoplPerGameKeys := by
  obtain ⟨row, hrow, rfl⟩ := Option.map_eq_some_iff.mp h
  have := List.find?_some hrow
  rw [decide_eq_true_eq] at this
  exact this ▸ List.mem_of_find?_eq_some hrow

/-- The name a key is stored under when its own name is read. -/
def translate (key : Text) : Text := (cfgWoplToOurs key).getD key

/-- No name of theirs is stored. -/
theorem cfgWoplToOurs_translate (key : Text) : cfgWoplToOurs (translate key) = none := by
  rw [translate]
  rcases h : cfgWoplToOurs key with _ | ours
  · exact h
  · exact (mem_cfgWoplPerGameKeys _ (cfgWoplToOurs_eq_some h)).2.2.1

theorem translate_of_cfgOursToWopl {key w : Text} (h : cfgOursToWopl key = some w) :
    translate w = key ∧ translate key = key := by
  obtain ⟨-, hours, hnone, -⟩ := mem_cfgWoplPerGameKeys _ (cfgOursToWopl_eq_some h)
  exact ⟨by rw [translate, hours]; rfl, by rw [translate, hnone]; rfl⟩

theorem length_rootName_le (it : ConfigValue) : (rootName it).length ≤ 31 := by
  rw [rootName]
  rcases h : cfgOursToWopl it.key.text with _ | w
  · exact it.key.length_le
  · exact (mem_cfgWoplPerGameKeys _ (cfgOursToWopl_eq_some h)).1.length_le

/-- A node in a group: its name there, and the name it comes back to. -/
theorem groupOf_eq_some {it : ConfigValue} {g key : Text} (h : groupOf it = some (g, key)) :
    g ∈ cfgLibconfigGroups ∧ PlainName key ∧ translate (compose g key) = it.key.text ∧
      translate it.key.text = it.key.text := by
  rw [groupOf] at h
  obtain ⟨w, hw, h⟩ := Option.bind_eq_some_iff.mp h
  obtain ⟨x, hx, h⟩ := Option.bind_eq_some_iff.mp h
  cases h
  obtain ⟨hg, hcompose, hname⟩ := cfgMatchGroup_row _ (cfgOursToWopl_eq_some hw) x hx
  obtain ⟨hback, hself⟩ := translate_of_cfgOursToWopl hw
  exact ⟨hg, hname, by rw [hcompose, hback], hself⟩

/-! ### The lines of a file -/

/-- The line of a node outside the groups. -/
def rootLine (it : ConfigValue) : Text := scalarLine (rootName it) it.val

/-- The nodes in the group `g`. -/
def groupItems (items : List ConfigValue) (g : Text) : List ConfigValue :=
  (items.filter persisted).filter fun it => (keyIn g it).isSome

/-- The line of a node in the group `g`. -/
def groupLine (g : Text) (it : ConfigValue) : Text :=
  ' ' :: ' ' :: scalarLine ((keyIn g it).getD []) it.val

/-- The lines of the group `g`. -/
def groupBlock (items : List ConfigValue) (g : Text) : List Text :=
  if groupItems items g = [] then []
  else (g ++ [' ', ':']) :: ['{'] :: (groupItems items g).map (groupLine g) ++ [['}', ';']]

/-- The lines of a libconfig file. -/
def libconfigLines (items : List ConfigValue) : List Text :=
  (rootItems items).map rootLine ++ cfgLibconfigGroups.flatMap (groupBlock items)

theorem keyIn_eq_some {g : Text} {it : ConfigValue} {key : Text} (h : keyIn g it = some key) :
    groupOf it = some (g, key) := by
  obtain ⟨x, hx, h⟩ := Option.bind_eq_some_iff.mp h
  split_ifs at h with hg
  cases h
  rw [hx, ← hg]

theorem flatten_groupLines (items : List ConfigValue) (g : Text) :
    groupLines items g = (groupItems items g).map fun it => groupLine g it ++ ['\n'] := by
  rw [groupLines, groupItems]
  induction items.filter persisted with
  | nil => rfl
  | cons it items ih =>
    rcases hkey : keyIn g it with _ | key
    · rw [List.filterMap_cons_none (by rw [hkey]; rfl), List.filter_cons_of_neg (by simp [hkey]),
        ih]
    · rw [List.filterMap_cons_some (by rw [hkey]; rfl), List.filter_cons_of_pos (by simp [hkey]),
        List.map_cons, ih]
      have hlen := (groupOf_eq_some (keyIn_eq_some hkey)).2.1.length_le
      have hline := cfgWriteLibconfigLine_eq (show "  ".toList.length ≤ 2 by decide) hlen it.val
      rw [groupLine, hkey, List.cons.injEq]
      exact ⟨hline, rfl⟩

theorem flatten_writeGroup (items : List ConfigValue) {g : Text} (hg : g ∈ cfgLibconfigGroups) :
    (writeGroup items g).flatten = joinLines (groupBlock items g) := by
  have hshort : ∀ g ∈ cfgLibconfigGroups, g.length ≤ 100 := by decide
  have hheader : snprintf 128 (g ++ " :\n\x7b\n".toList) = g ++ " :\n\x7b\n".toList := by
    have := hshort g hg
    refine List.take_of_length_le ?_
    have hrest : " :\n\x7b\n".toList.length = 5 := by decide
    rw [List.length_append, hrest]
    omega
  have hmap : ((groupItems items g).map fun it => groupLine g it ++ ['\n']).flatten =
      joinLines ((groupItems items g).map (groupLine g)) := by
    rw [joinLines, List.flatMap_map, ← List.flatMap_def]
  rw [writeGroup, flatten_groupLines, groupBlock]
  by_cases hnil : groupItems items g = []
  · rw [if_pos (by rw [hnil]; rfl), if_pos hnil]
    rfl
  · rw [if_neg (by simpa using hnil), if_neg hnil, hheader]
    rw [List.flatten_append, List.flatten_cons, hmap, joinLines_append, joinLines_cons,
      joinLines_cons]
    simp [snprintf]

/-- The bytes of a libconfig file are its lines. -/
theorem flatten_cfgWriteLibconfig (items : List ConfigValue) :
    (cfgWriteLibconfig items).flatten = joinLines (libconfigLines items) := by
  rw [cfgWriteLibconfig, libconfigLines, List.flatten_append, joinLines_append]
  congr 1
  · rw [joinLines, List.flatMap_map, ← List.flatMap_def]
    refine List.flatMap_congr fun it _ => ?_
    rw [cfgWriteLibconfigLine_eq (Nat.zero_le _) (length_rootName_le it)]
    rfl
  · have hgroups : ∀ gs ⊆ cfgLibconfigGroups, (gs.flatMap (writeGroup items)).flatten =
        joinLines (gs.flatMap (groupBlock items)) := by
      intro gs hgs
      induction gs with
      | nil => rfl
      | cons g gs ih =>
        rw [List.flatMap_cons, List.flatten_append, List.flatMap_cons, joinLines_append,
          flatten_writeGroup items (hgs List.mem_cons_self),
          ih fun x hx => hgs (List.mem_cons_of_mem g hx)]
    exact hgroups _ (List.Subset.refl _)

end Config

end OpenPS2Loader
