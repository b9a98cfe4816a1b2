import Mathlib.Data.Int.Notation
import Mathlib.Data.List.Infix
import Mathlib.Tactic.SplitIfs
import OpenPS2Loader.Lib.Text

/-!
# Game ids in the names of PS1 rows

The name of a `.VCD` file may start with the id of the game, as in `SLUS_005.51.Title`, and with a
prefix of POPSTARTER before the id. `vcdExtractGameId` reads the id, `vcdGameIdPrefixLen` says how
much of the name is not shown when ids are hidden, and `vcdPopsPartitionTitleOffset` finds the title
in the label of a partition.

A name is `none` for a null pointer. The character at a place of a name is `none` at its end, where
the source reads the terminator.

`vcdGameIdPrefixLen` skips the prefix before it calls `vcdExtractGameId`, which skips a prefix
again: a name with two prefixes before the id is shown without its first fifteen characters,
although there is no id to extract.

## Main definitions

* `Vcd.vcdExtractGameId`, `vcdGameIdPrefixLen`, `vcdDisplayNameForRow`, `vcdSortKey`
* `Vcd.vcdPopsPartitionTitleOffset`
* `Vcd.TwoPrefixes` — the names that are read differently

## Main results

* `Vcd.gameId_agrees_iff` — the other ones are read alike
-/

namespace OpenPS2Loader

namespace Vcd

/-! ### The prefix and the id -/

/-- One of the prefixes `XX.`, `SB.`, `EL.` and `SM.`, in capitals or not. -/
def isPopstarterPrefix (pre : Text) : Bool :=
  ["xx.".toList, "sb.".toList, "el.".toList, "sm.".toList].contains (pre.map Char.toLower)

/-- `vcdSkipPopstarterPrefix` -/
def vcdSkipPopstarterPrefix (name : Text) : ℕ :=
  if name.length < 3 then 0 else if isPopstarterPrefix (name.take 3) then 3 else 0

/-- The shape `AAAA_NNN.NN` of an id. -/
def isGameId (id : Text) : Bool :=
  id.length == 11 && (id.take 4).all Char.isAlphanum && id[4]? == some '_' &&
    ((id.drop 5).take 3).all Char.isDigit && id[8]? == some '.' && (id.drop 9).all Char.isDigit

/-- What may stand behind an id. -/
def separators : List Char := ['.', '_', ' ', '-']

/-- `VCD_ID_MAX` -/
def vcdIdMax : ℕ := 16

/-- `vcdExtractGameId`: the id in capitals, or `none` for the result 0. -/
def vcdExtractGameId (name : Option Text) (idSize : ℕ) : Option Text :=
  if idSize ≤ 11 then none
  else name.bind fun name =>
    let p := name.drop (vcdSkipPopstarterPrefix name)
    if p.length < 11 then none
    else if !isGameId (p.take 11) then none
    else if p[11]?.any (· ∉ separators) then none
    else some ((p.take 11).map Char.toUpper)

/-- `vcdGameIdPrefixLen` -/
def vcdGameIdPrefixLen : Option Text → ℕ
  | none => 0
  | some name =>
    let prefixLen := vcdSkipPopstarterPrefix name
    let p := name.drop prefixLen
    if (vcdExtractGameId (some p) vcdIdMax).isSome then
      if p[11]?.any (· ∈ separators) then prefixLen + 12 else prefixLen + 11
    else 0

/-! ### The shown name -/

/-- `enum LIB_VIEW` -/
inductive LibView
  | iso
  | ps1
  | elf
  | all
  | mixed
  | ps1Elf
  deriving DecidableEq

/-- The view with a number. -/
def LibView.ofInt (view : ℤ) : Option LibView :=
  if view < 0 then none else [iso, ps1, elf, all, mixed, ps1Elf][view.toNat]?

/-- What the shown names depend on in an `item_list_t`. -/
structure ItemList where
  /-- `libListViewActive` -/
  active : LibView
  /-- `itemGetView` -/
  itemGetView : Option (ℤ → ℤ)

/-- `libListRowView` -/
def libListRowView (itemList : Option ItemList) (id : ℤ) : LibView :=
  match itemList with
  | none => .iso
  | some l => (l.itemGetView.bind fun view => LibView.ofInt (view id)).getD l.active

/-- `vcdDisplayNameForRow`, with `gVcdHideGameId` as its first argument. -/
def vcdDisplayNameForRow (hide : Bool) (itemList : Option ItemList) (id : ℤ) (text : Option Text) :
    Option Text :=
  if !hide || text.isNone || itemList.isNone || libListRowView itemList id ≠ .ps1 then text
  else text.map (·.drop (vcdGameIdPrefixLen text))

/-- `vcdSortKey`, with `gVcdHideGameId` as its first argument. -/
def vcdSortKey (hide : Bool) (name : Option Text) : Option Text :=
  if hide then name.map (·.drop (vcdGameIdPrefixLen name)) else name

/-! ### Partition labels -/

/-- The shape `AAAA-NNNNN` of an id in a label. -/
def isLabelId (id : Text) : Bool :=
  (id.take 4).all Char.isAlphanum && id[4]? == some '-' && ((id.drop 5).take 5).all Char.isDigit

/-- `vcdPopsPartitionTitleOffset` -/
def vcdPopsPartitionTitleOffset : Option Text → ℕ
  | none => 0
  | some label =>
    if label.take 3 ≠ "PP.".toList then 0
    else
      let tail := label.drop 3
      if 18 ≤ tail.length && (vcdExtractGameId (some tail) vcdIdMax).isSome &&
          tail[11]? == some '.' && (tail.drop 12).take 5 == "POPS.".toList && tail[17]?.isSome then
        3 + 17
      else if tail.length < 17 then 0
      else if !isLabelId tail then 0
      else
        let marker :=
          if tail[10]? == some '.' && tail[11]?.any Char.isDigit && tail[12]?.any Char.isDigit then
            13
          else 10
        if (tail.drop marker).take 6 == ".POPS.".toList && tail[marker + 6]?.isSome then
          3 + (marker + 6)
        else 0

/-! ### What they say -/

/-- `name` is the title in the label `PP.AAAA_NNN.NN.POPS.name` or `PP.AAAA-NNNNN.NN.POPS.name`,
where the last `.NN` may be missing. -/
def IsTitle (label name : Text) : Prop :=
  name ≠ [] ∧
    ((∃ id, isGameId id = true ∧ label = "PP.".toList ++ id ++ ".POPS.".toList ++ name) ∨
      ∃ id suffix, id.length = 10 ∧ isLabelId id = true ∧
        (suffix = [] ∨ ∃ a b : Char, a.isDigit ∧ b.isDigit ∧ suffix = ['.', a, b]) ∧
        label = "PP.".toList ++ id ++ suffix ++ ".POPS.".toList ++ name)

/-- The offset is zero when there is no title, and points at the title when there is one. -/
def TitleFound (label : Option Text) : Prop :=
  (vcdPopsPartitionTitleOffset label ≠ 0 ↔ ∃ l ∈ label, ∃ name, IsTitle l name) ∧
    ∀ l ∈ label, ∀ name, IsTitle l name →
      vcdPopsPartitionTitleOffset label + name.length = l.length ∧
        l.drop (vcdPopsPartitionTitleOffset label) = name

/-- The part of a name that is hidden is the prefix, the id that is extracted, and the separator
behind it. -/
def Hidden (name id : Text) : Prop :=
  ∃ pre body sep rest, name = pre ++ (body ++ (sep ++ rest)) ∧
    (pre = [] ∨ isPopstarterPrefix pre = true) ∧
    isGameId body = true ∧ id = body.map Char.toUpper ∧
    ((∃ c ∈ separators, sep = [c]) ∨ sep = [] ∧ rest = []) ∧
    vcdGameIdPrefixLen (some name) = pre.length + 11 + sep.length ∧
    ∀ itemList row, libListRowView (some itemList) row = .ps1 →
      vcdDisplayNameForRow true (some itemList) row (some name) = some rest

/-- The two readings of a name agree. -/
def GameIdAgrees (name : Option Text) : Prop :=
  (vcdExtractGameId name vcdIdMax = none → vcdGameIdPrefixLen name = 0) ∧
    ∀ id, vcdExtractGameId name vcdIdMax = some id → ∃ n ∈ name, Hidden n id

/-- The name has two prefixes before an id. -/
def TwoPrefixes (name : Option Text) : Prop :=
  ∃ n ∈ name, ∃ pre pre' id rest, n = pre ++ (pre' ++ (id ++ rest)) ∧
    isPopstarterPrefix pre = true ∧ isPopstarterPrefix pre' = true ∧ isGameId id = true ∧
    ∀ c ∈ rest.head?, c ∈ separators

/-! ### Prefixes -/

section Prefix

variable {name pre id rest p : Text}

theorem toLower_ne_dot {c : Char} (h : c.isAlphanum = true) : c.toLower ≠ '.' := by
  intro hdot
  delta Char.toLower at hdot
  split at hdot
  next hupper =>
    have hval : c.val + 32 = 46 := congrArg Char.val hdot
    have hle : 65 ≤ c.val.toNat ∧ c.val.toNat ≤ 90 := hupper
    have hadd := congrArg UInt32.toNat hval
    rw [UInt32.toNat_add, show (32 : UInt32).toNat = 32 from rfl,
      show (46 : UInt32).toNat = 46 from rfl, Nat.mod_eq_of_lt (by omega)] at hadd
    omega
  next =>
    subst hdot
    exact absurd h (by decide)

theorem length_of_isPopstarterPrefix (h : isPopstarterPrefix pre = true) : pre.length = 3 := by
  have hmem := List.contains_iff_mem.mp h
  rw [← List.length_map (f := Char.toLower)]
  simp only [List.mem_cons, List.not_mem_nil, or_false] at hmem
  obtain h | h | h | h := hmem <;> rw [h] <;> rfl

/-- A prefix ends in a dot. -/
theorem getElem?_of_isPopstarterPrefix (h : isPopstarterPrefix pre = true) :
    pre[2]?.map Char.toLower = some '.' := by
  have hmem := List.contains_iff_mem.mp h
  rw [← List.getElem?_map]
  simp only [List.mem_cons, List.not_mem_nil, or_false] at hmem
  obtain h | h | h | h := hmem <;> rw [h] <;> rfl

theorem vcdSkipPopstarterPrefix_append (h : isPopstarterPrefix pre = true) :
    vcdSkipPopstarterPrefix (pre ++ rest) = 3 := by
  have hlen := length_of_isPopstarterPrefix h
  rw [vcdSkipPopstarterPrefix, if_neg (by rw [List.length_append]; omega),
    List.take_left' hlen, if_pos h]

/-- The text that is skipped is a prefix. -/
theorem exists_skipped (name : Text) :
    ∃ pre p, name = pre ++ p ∧ vcdSkipPopstarterPrefix name = pre.length ∧
      name.drop (vcdSkipPopstarterPrefix name) = p ∧
      (pre = [] ∨ isPopstarterPrefix pre = true) := by
  refine ⟨name.take (vcdSkipPopstarterPrefix name), name.drop (vcdSkipPopstarterPrefix name),
    (List.take_append_drop _ _).symm, ?_, rfl, ?_⟩
  · rw [List.length_take, vcdSkipPopstarterPrefix]
    split_ifs <;> omega
  · rw [vcdSkipPopstarterPrefix]
    split_ifs with hlen hpre
    · exact .inl List.take_zero
    · exact .inr hpre
    · exact .inl List.take_zero

theorem length_of_isGameId (h : isGameId id = true) : id.length = 11 := by
  simp only [isGameId, Bool.and_eq_true, beq_iff_eq] at h
  exact h.1.1.1.1.1

theorem getElem?_eleven_append (h : isGameId id = true) : (id ++ rest)[11]? = rest.head? := by
  have hlen := length_of_isGameId h
  rw [List.getElem?_append_right (by omega), hlen, Nat.sub_self, List.head?_eq_getElem?]

/-- No prefix stands at the start of an id. -/
theorem vcdSkipPopstarterPrefix_of_isGameId (h : isGameId id = true) :
    vcdSkipPopstarterPrefix (id ++ rest) = 0 := by
  have hlen := length_of_isGameId h
  have halnum : ∀ c ∈ id[2]?, c.isAlphanum = true := by
    intro c hc
    simp only [isGameId, Bool.and_eq_true] at h
    refine List.all_eq_true.mp h.1.1.1.1.2 c (List.mem_of_getElem? (i := 2) ?_)
    rw [List.getElem?_take_of_lt (by omega)]
    exact hc
  rw [vcdSkipPopstarterPrefix]
  split_ifs with hshort hpre
  · rfl
  · have hdot := getElem?_of_isPopstarterPrefix hpre
    rw [List.getElem?_take_of_lt (by omega), List.getElem?_append_left (by omega)] at hdot
    obtain ⟨c, hc, hlower⟩ := Option.map_eq_some_iff.mp hdot
    exact absurd hlower (toLower_ne_dot (halnum c hc))
  · rfl

end Prefix

/-! ### The id -/

section Id

variable {name id p : Text}

/-- The id at the start of `p` is `body`, and `rest` follows it. -/
def IdAt (p body rest : Text) : Prop :=
  p = body ++ rest ∧ isGameId body = true ∧ ∀ c ∈ rest.head?, c ∈ separators

theorem vcdExtractGameId_eq_some_iff :
    vcdExtractGameId (some name) vcdIdMax = some id ↔
      ∃ body rest, IdAt (name.drop (vcdSkipPopstarterPrefix name)) body rest ∧
        id = body.map Char.toUpper := by
  rw [vcdExtractGameId, if_neg (by decide), Option.bind_some]
  generalize name.drop (vcdSkipPopstarterPrefix name) = p
  constructor
  · intro h
    dsimp only at h
    split_ifs at h with hlen hid hsep
    refine ⟨p.take 11, p.drop 11, ⟨(List.take_append_drop _ _).symm, by simpa using hid, ?_⟩,
      (Option.some.inj h).symm⟩
    intro c hc
    rw [List.head?_drop] at hc
    by_contra hmem
    exact hsep (by rw [hc]; simpa using hmem)
  · rintro ⟨body, rest, ⟨rfl, hid, hsep⟩, rfl⟩
    have hlen := length_of_isGameId hid
    have hany : rest.head?.any (fun c => decide (c ∉ separators)) = false := by
      cases hhead : rest.head? with
      | none => rfl
      | some c => simpa using hsep c hhead
    rw [if_neg (by rw [List.length_append]; omega), List.take_left' hlen, hid,
      getElem?_eleven_append hid, hany]
    rfl

theorem IdAt.skip_eq {body rest : Text} (h : IdAt p body rest) :
    vcdSkipPopstarterPrefix p = 0 := by
  obtain ⟨rfl, hid, -⟩ := h
  exact vcdSkipPopstarterPrefix_of_isGameId hid

/-- The second prefix is not there when an id is read. -/
theorem vcdExtractGameId_drop (h : ¬ TwoPrefixes (some name)) :
    vcdExtractGameId (some (name.drop (vcdSkipPopstarterPrefix name))) vcdIdMax =
      vcdExtractGameId (some name) vcdIdMax := by
  obtain ⟨pre, p, rfl, hskip, hdrop, hpre⟩ := exists_skipped name
  rw [hdrop]
  refine Option.ext fun id => ?_
  rw [vcdExtractGameId_eq_some_iff, vcdExtractGameId_eq_some_iff, hdrop]
  obtain ⟨pre', q, rfl, hskip', hdrop', hpre'⟩ := exists_skipped p
  rw [hdrop']
  obtain rfl | hpre' := hpre'
  · rfl
  · constructor
    · rintro ⟨body, rest, ⟨rfl, hid, hsep⟩, -⟩
      obtain rfl | hpre := hpre
      · rw [List.nil_append, vcdSkipPopstarterPrefix_append hpre'] at hskip
        cases hskip
      · exact absurd ⟨_, rfl, pre, pre', body, rest, rfl, hpre, hpre', hid, hsep⟩ h
    · rintro ⟨body, rest, hat, -⟩
      have hzero := hat.skip_eq
      rw [vcdSkipPopstarterPrefix_append hpre'] at hzero
      cases hzero

end Id

/-! ### Names -/

section Name

variable {name id : Text}

theorem vcdDisplayNameForRow_ps1 {itemList : ItemList} {row : ℤ}
    (h : libListRowView (some itemList) row = .ps1) :
    vcdDisplayNameForRow true (some itemList) row (some name) =
      some (name.drop (vcdGameIdPrefixLen (some name))) := by
  rw [vcdDisplayNameForRow, h]
  rfl

theorem gameIdAgrees_of_not_twoPrefixes (h : ¬ TwoPrefixes (some name)) :
    GameIdAgrees (some name) := by
  constructor
  · intro hnone
    rw [vcdGameIdPrefixLen, vcdExtractGameId_drop h, hnone]
    rfl
  · intro id hid
    refine ⟨name, rfl, ?_⟩
    have hsome := hid
    obtain ⟨body, rest, ⟨hp, hbody, hsep⟩, rfl⟩ := vcdExtractGameId_eq_some_iff.mp hid
    obtain ⟨pre, p, rfl, hskip, hdrop, hpre⟩ := exists_skipped name
    have hlen := length_of_isGameId hbody
    have hprefix : vcdGameIdPrefixLen (some (pre ++ p)) =
        if rest.head?.any (· ∈ separators) then pre.length + 12 else pre.length + 11 := by
      rw [vcdGameIdPrefixLen, vcdExtractGameId_drop h, hsome, hp, getElem?_eleven_append hbody,
        hskip]
      rfl
    obtain rfl : p = body ++ rest := hdrop.symm.trans hp
    cases rest with
    | nil =>
      refine ⟨pre, body, [], [], by simp, hpre, hbody, rfl, .inr ⟨rfl, rfl⟩, hprefix, ?_⟩
      intro itemList row hrow
      rw [vcdDisplayNameForRow_ps1 hrow, hprefix]
      simp [← hlen]
    | cons c rest =>
      have hc := hsep c rfl
      rw [List.head?_cons, Option.any_some, decide_eq_true hc, if_pos rfl] at hprefix
      refine ⟨pre, body, [c], rest, rfl, hpre, hbody, rfl, .inl ⟨c, hc, rfl⟩, hprefix, ?_⟩
      intro itemList row hrow
      rw [vcdDisplayNameForRow_ps1 hrow, hprefix]
      have hcut : pre ++ (body ++ c :: rest) = (pre ++ (body ++ [c])) ++ rest := by simp
      rw [hcut, List.drop_left' (by simp [hlen])]

theorem not_gameIdAgrees_of_twoPrefixes (h : TwoPrefixes (some name)) :
    ¬ GameIdAgrees (some name) := by
  obtain ⟨n, hn, pre, pre', id, rest, hname, hpre, hpre', hid, hsep⟩ := h
  obtain rfl : name = pre ++ (pre' ++ (id ++ rest)) := (Option.some.inj hn).trans hname
  have hskip : vcdSkipPopstarterPrefix (pre ++ (pre' ++ (id ++ rest))) = 3 :=
    vcdSkipPopstarterPrefix_append hpre
  have hdrop : (pre ++ (pre' ++ (id ++ rest))).drop 3 = pre' ++ (id ++ rest) :=
    List.drop_left' (length_of_isPopstarterPrefix hpre)
  have hdrop' : (pre' ++ (id ++ rest)).drop 3 = id ++ rest :=
    List.drop_left' (length_of_isPopstarterPrefix hpre')
  have hnone : vcdExtractGameId (some (pre ++ (pre' ++ (id ++ rest)))) vcdIdMax = none := by
    refine Option.eq_none_iff_forall_ne_some.mpr fun id' h' => ?_
    obtain ⟨body, rest', hat, -⟩ := vcdExtractGameId_eq_some_iff.mp h'
    rw [hskip, hdrop] at hat
    have hzero := hat.skip_eq
    rw [vcdSkipPopstarterPrefix_append hpre'] at hzero
    cases hzero
  have hsome : vcdExtractGameId (some (pre' ++ (id ++ rest))) vcdIdMax =
      some (id.map Char.toUpper) := by
    refine vcdExtractGameId_eq_some_iff.mpr ⟨id, rest, ?_, rfl⟩
    rw [vcdSkipPopstarterPrefix_append hpre', hdrop']
    exact ⟨rfl, hid, hsep⟩
  intro hagrees
  have hzero := hagrees.1 hnone
  rw [vcdGameIdPrefixLen, hskip, hdrop, hsome] at hzero
  simp only [Option.isSome_some, if_true] at hzero
  split_ifs at hzero

end Name

/-! ### Labels -/

section Label

variable {label name id suffix tail : Text}

/-- What stands behind a marker that is found, when something does. -/
theorem exists_of_marker {l m : Text} {n : ℕ} (h : (l.drop n).take m.length = m)
    (hs : l[n + m.length]?.isSome = true) : ∃ name, name ≠ [] ∧ l.drop n = m ++ name := by
  refine ⟨(l.drop n).drop m.length, ?_, ?_⟩
  · rw [List.drop_drop]
    intro hnil
    rw [← List.head?_drop, hnil] at hs
    cases hs
  · conv_lhs => rw [← List.take_append_drop m.length (l.drop n), h]

theorem drop_eq_cons {l : Text} {n : ℕ} {c : Char} (h : l[n]? = some c) :
    l.drop n = c :: l.drop (n + 1) := by
  obtain ⟨hlt, rfl⟩ := List.getElem?_eq_some_iff.mp h
  exact List.drop_eq_getElem_cons hlt

theorem isLabelId_append (h : id.length = 10) (rest : Text) :
    isLabelId (id ++ rest) = isLabelId id := by
  rw [isLabelId, isLabelId, List.take_append_of_le_length (by omega),
    List.getElem?_append_left (by omega), List.drop_append_of_le_length (by omega),
    List.take_append_of_le_length (by rw [List.length_drop]; omega)]

theorem length_take_ten (h : ¬ tail.length < 17) : (tail.take 10).length = 10 := by
  rw [List.length_take]
  omega

theorem isLabelId_take (hlen : ¬ tail.length < 17) (h : ¬ (!isLabelId tail) = true) :
    isLabelId (tail.take 10) = true := by
  rw [← isLabelId_append (length_take_ten hlen) (tail.drop 10), List.take_append_drop]
  simpa using h

/-- The first form cannot have a prefix of POPSTARTER: a digit would stand where its marker is. -/
theorem exists_id_of_marker (hid : (vcdExtractGameId (some tail) vcdIdMax).isSome = true)
    (hmark : tail[12]? = some 'P') : ∃ id rest, tail = id ++ rest ∧ isGameId id = true := by
  obtain ⟨id', hid'⟩ := Option.isSome_iff_exists.mp hid
  obtain ⟨id, rest, ⟨hp, hgame, -⟩, -⟩ := vcdExtractGameId_eq_some_iff.mp hid'
  obtain ⟨pre, p, rfl, hskip, hdrop, hpre⟩ := exists_skipped tail
  obtain rfl : p = id ++ rest := hdrop.symm.trans hp
  obtain rfl | hpre := hpre
  · exact ⟨id, rest, rfl, hgame⟩
  · have hlen := length_of_isPopstarterPrefix hpre
    have hid := length_of_isGameId hgame
    rw [List.getElem?_append_right (by omega), hlen,
      List.getElem?_append_left (by omega)] at hmark
    simp only [isGameId, Bool.and_eq_true] at hgame
    have hmem : 'P' ∈ id.drop 9 := by
      refine List.mem_of_getElem? (i := 0) ?_
      rw [List.getElem?_drop]
      exact hmark
    exact absurd (List.all_eq_true.mp hgame.2 _ hmem) (by decide)

theorem exists_isTitle (h : vcdPopsPartitionTitleOffset (some label) ≠ 0) :
    ∃ name, IsTitle label name := by
  rw [vcdPopsPartitionTitleOffset] at h
  split_ifs at h with hpp
  · exact absurd rfl h
  have hlabel : label = "PP.".toList ++ label.drop 3 := by
    conv_lhs => rw [← List.take_append_drop 3 label, not_not.mp hpp]
  generalize label.drop 3 = tail at h hlabel
  subst hlabel
  dsimp only at h
  split_ifs at h with hform hlen hid hsuffix hmarker hmarker
  · -- the form with an underscore
    simp only [Bool.and_eq_true, beq_iff_eq, decide_eq_true_eq] at hform
    obtain ⟨⟨⟨⟨hlen, hid⟩, hdot⟩, hpops⟩, hsome⟩ := hform
    obtain ⟨name, hname, hrest⟩ := exists_of_marker (m := "POPS.".toList) hpops hsome
    obtain ⟨id, rest, rfl, hgame⟩ := exists_id_of_marker hid (by
      rw [← List.head?_drop, hrest]
      rfl)
    have hdrop := drop_eq_cons hdot
    rw [hrest, List.drop_left' (length_of_isGameId hgame)] at hdrop
    exact ⟨name, hname, .inl ⟨id, hgame, by rw [hdrop]; simp⟩⟩
  · exact absurd rfl h
  · exact absurd rfl h
  · -- the form with a hyphen and a suffix
    simp only [Bool.and_eq_true, beq_iff_eq, Option.any_eq_true] at hsuffix hmarker
    obtain ⟨⟨hdot, a, ha, hda⟩, b, hb, hdb⟩ := hsuffix
    obtain ⟨name, hname, hrest⟩ := exists_of_marker (m := ".POPS.".toList) hmarker.1 hmarker.2
    have hdrop : tail.drop 10 = ['.', a, b] ++ (".POPS.".toList ++ name) := by
      rw [drop_eq_cons hdot, drop_eq_cons ha, drop_eq_cons hb, hrest]
      rfl
    refine ⟨name, hname, .inr ⟨tail.take 10, ['.', a, b], ?_, ?_, .inr ⟨a, b, hda, hdb, rfl⟩, ?_⟩⟩
    · exact length_take_ten hlen
    · exact isLabelId_take hlen hid
    · conv_lhs => rw [← List.take_append_drop 10 tail, hdrop]
      simp
  · exact absurd rfl h
  · -- the form with a hyphen alone
    simp only [Bool.and_eq_true, beq_iff_eq] at hmarker
    obtain ⟨name, hname, hrest⟩ := exists_of_marker (m := ".POPS.".toList) hmarker.1 hmarker.2
    refine ⟨name, hname, .inr ⟨tail.take 10, [], ?_, ?_, .inl rfl, ?_⟩⟩
    · exact length_take_ten hlen
    · exact isLabelId_take hlen hid
    · conv_lhs => rw [← List.take_append_drop 10 tail, hrest]
      simp
  · exact absurd rfl h

theorem take_pp (tail : Text) : ¬ ("PP.".toList ++ tail).take 3 ≠ "PP.".toList :=
  not_not.mpr rfl

theorem drop_pp (tail : Text) : ("PP.".toList ++ tail).drop 3 = tail := rfl

/-- The marker of the first form is found behind the id. -/
theorem vcdPopsPartitionTitleOffset_underscore (hid : isGameId id = true) (hname : name ≠ []) :
    vcdPopsPartitionTitleOffset (some ("PP.".toList ++ id ++ ".POPS.".toList ++ name)) = 20 := by
  have hlen := length_of_isGameId hid
  have hpos := List.length_pos_iff.mpr hname
  have hcut : "PP.".toList ++ id ++ ".POPS.".toList ++ name =
      "PP.".toList ++ (id ++ (".POPS.".toList ++ name)) := by simp
  have hsome :
      (vcdExtractGameId (some (id ++ (".POPS.".toList ++ name))) vcdIdMax).isSome = true := by
    refine Option.isSome_iff_exists.mpr ⟨_, vcdExtractGameId_eq_some_iff.mpr
      ⟨id, ".POPS.".toList ++ name, ?_, rfl⟩⟩
    rw [vcdSkipPopstarterPrefix_of_isGameId hid]
    refine ⟨rfl, hid, fun c hc => ?_⟩
    obtain rfl : '.' = c := Option.some.inj hc
    exact List.mem_cons_self
  have hdot : (id ++ (".POPS.".toList ++ name))[11]? = some '.' := by
    rw [List.getElem?_append_right (by omega), hlen]
    rfl
  have hpops : ((id ++ (".POPS.".toList ++ name)).drop 12).take 5 = "POPS.".toList := by
    rw [show 12 = id.length + 1 by omega, List.drop_length_add_append]
    rfl
  have hend : (id ++ (".POPS.".toList ++ name))[17]?.isSome = true := by
    rw [List.getElem?_eq_getElem (by simp; omega)]
    rfl
  rw [hcut, vcdPopsPartitionTitleOffset, if_neg (take_pp _)]
  dsimp only
  rw [drop_pp, if_pos]
  simp only [Bool.and_eq_true, beq_iff_eq, decide_eq_true_eq]
  exact ⟨⟨⟨⟨by simp; omega, hsome⟩, hdot⟩, hpops⟩, hend⟩

/-- The marker of the second form is found behind the id and the suffix. -/
theorem vcdPopsPartitionTitleOffset_hyphen (hlen : id.length = 10) (hid : isLabelId id = true)
    (hsuffix : suffix = [] ∨ ∃ a b : Char, a.isDigit ∧ b.isDigit ∧ suffix = ['.', a, b])
    (hname : name ≠ []) :
    vcdPopsPartitionTitleOffset
      (some ("PP.".toList ++ id ++ suffix ++ ".POPS.".toList ++ name)) = 19 + suffix.length := by
  have hpos := List.length_pos_iff.mpr hname
  have hcut : "PP.".toList ++ id ++ suffix ++ ".POPS.".toList ++ name =
      "PP.".toList ++ (id ++ (suffix ++ (".POPS.".toList ++ name))) := by simp
  have hlabel : isLabelId (id ++ (suffix ++ (".POPS.".toList ++ name))) = true := by
    rw [isLabelId_append hlen, hid]
  have hat : ∀ k, (id ++ (suffix ++ (".POPS.".toList ++ name)))[10 + k]? =
      (suffix ++ (".POPS.".toList ++ name))[k]? := by
    intro k
    rw [List.getElem?_append_right (by omega), hlen, Nat.add_sub_cancel_left]
  have hdrop : ∀ k, (id ++ (suffix ++ (".POPS.".toList ++ name))).drop (10 + k) =
      (suffix ++ (".POPS.".toList ++ name)).drop k := by
    intro k
    rw [← hlen, List.drop_length_add_append]
  rw [hcut, vcdPopsPartitionTitleOffset, if_neg (take_pp _)]
  dsimp only
  rw [drop_pp]
  have hrest : (suffix ++ (".POPS.".toList ++ name))[0]? = some '.' ∧
      (suffix ++ (".POPS.".toList ++ name))[1]? ≠ some '.' ∧
      (if (suffix ++ (".POPS.".toList ++ name))[0]? == some '.' &&
          (suffix ++ (".POPS.".toList ++ name))[1]?.any Char.isDigit &&
          (suffix ++ (".POPS.".toList ++ name))[2]?.any Char.isDigit then 13 else 10) =
        10 + suffix.length := by
    obtain rfl | ⟨a, b, ha, hb, rfl⟩ := hsuffix
    · refine ⟨rfl, ?_, rfl⟩
      show some 'P' ≠ some '.'
      decide
    · refine ⟨rfl, ?_, if_pos ?_⟩
      · rintro hdot
        obtain rfl : a = '.' := Option.some.inj hdot
        exact absurd ha (by decide)
      · show (true && a.isDigit && b.isDigit) = true
        rw [ha, hb]
        rfl
  generalize htail : id ++ (suffix ++ (".POPS.".toList ++ name)) = tail at *
  have hfull : 17 ≤ tail.length := by
    rw [← htail]
    simp
    omega
  have hmarker : (tail.drop (10 + suffix.length)).take 6 = ".POPS.".toList := by
    rw [hdrop, List.drop_left' rfl]
    rfl
  have hend : tail[10 + suffix.length + 6]?.isSome = true := by
    rw [List.getElem?_eq_getElem (by rw [← htail]; simp; omega)]
    rfl
  rw [if_neg, if_neg (by omega), hlabel, if_neg (by decide),
    show tail[10]? = _ from hat 0, show tail[11]? = _ from hat 1, show tail[12]? = _ from hat 2,
    hrest.2.2, if_pos]
  · omega
  · rw [hmarker, hend]
    rfl
  · simp only [Bool.and_eq_true, beq_iff_eq, not_and]
    intro hdot
    exact absurd ((hat 1).symm.trans hdot.1.2) hrest.2.1

/-- **The title of a label is found**, when it has one, and only then. -/
theorem titleFound (label : Option Text) : TitleFound label := by
  have hfound : ∀ l name, IsTitle l name →
      vcdPopsPartitionTitleOffset (some l) ≠ 0 ∧
        vcdPopsPartitionTitleOffset (some l) + name.length = l.length ∧
        l.drop (vcdPopsPartitionTitleOffset (some l)) = name := by
    rintro l name ⟨hname, ⟨id, hid, rfl⟩ | ⟨id, suffix, hlen, hid, hsuffix, rfl⟩⟩
    · have hlen := length_of_isGameId hid
      rw [vcdPopsPartitionTitleOffset_underscore hid hname]
      refine ⟨by decide, by simp [hlen]; omega, List.drop_left' (by simp [hlen])⟩
    · rw [vcdPopsPartitionTitleOffset_hyphen hlen hid hsuffix hname]
      refine ⟨by omega, by simp [hlen]; omega, List.drop_left' (by simp [hlen]; omega)⟩
  cases label with
  | none =>
    refine ⟨⟨fun h => absurd rfl h, ?_⟩, ?_⟩
    · rintro ⟨l, hl, -⟩
      cases hl
    · intro l hl
      cases hl
  | some label =>
    refine ⟨⟨fun h => ⟨label, rfl, exists_isTitle h⟩, ?_⟩, ?_⟩
    · rintro ⟨l, hl, name, hname⟩
      cases hl
      exact (hfound label name hname).1
    · intro l hl name hname
      cases hl
      exact (hfound label name hname).2

end Label

/-- **Names and labels are read alike** unless a name has two prefixes before its id. -/
theorem gameId_agrees_iff (name label : Option Text) :
    GameIdAgrees name ∧ TitleFound label ↔ ¬ TwoPrefixes name := by
  constructor
  · rintro ⟨hagrees, -⟩ htwo
    cases name with
    | none =>
      obtain ⟨n, hn, -⟩ := htwo
      cases hn
    | some name => exact not_gameIdAgrees_of_twoPrefixes htwo hagrees
  · intro h
    refine ⟨?_, titleFound label⟩
    cases name with
    | none => exact ⟨fun _ => rfl, fun id hid => by cases hid⟩
    | some name => exact gameIdAgrees_of_not_twoPrefixes h

/-- The name `XX.SB.SLUS_005.51.Game` has no id, and is shown without its first fifteen characters,
which end before `51`. -/
theorem not_gameId_agrees :
    ¬ ∀ name label : Option Text, GameIdAgrees name ∧ TitleFound label := by
  intro h
  have hzero := (h (some "XX.SB.SLUS_005.51.Game".toList) none).1.1 (by decide)
  exact absurd hzero (by decide)

end Vcd

end OpenPS2Loader
