import OpenPS2Loader.Cheats.Parse
import Mathlib.Data.List.GetD

/-!
# The list of codes for the game

`set_cheats_list` copies the codes of the enabled cheats to `gCheatList`, which has room for 510
words, and ends it with a pair of zeros. A cheat ends where its code has the address zero.

## Main definitions

* `Cheats.Table`, `Cheats.parseTable`, `Cheats.setCheatsList`
* `Cheats.specList` — the codes of the enabled cheats, as the file has them
* `Cheats.Flattens` — the whole way from the text to the list

## Main results

* `Cheats.setCheatsList_eq` — what `set_cheats_list` makes of a table
* `Cheats.flattens_iff`
-/

namespace OpenPS2Loader

namespace Cheats

open Bytes

/-! ### The table -/

/-- `gCheats` -/
structure Table where
  name : ℕ → List UInt8
  codes : ℕ → ℕ → Code
  enabled : ℕ → Bool

/-- The table after it was cleared. -/
def Table.empty : Table := ⟨fun _ => [], fun _ _ => .zero, fun _ => false⟩

/-- A code at its place. -/
def setCode (codes : ℕ → ℕ → Code) (i j : ℕ) (c : Code) : ℕ → ℕ → Code :=
  Function.update codes i (Function.update (codes i) j c)

/-- The table with a new cheat, which is enabled. -/
def Table.newCheat (tbl : Table) : Option (ℕ × List UInt8) → Option Table
  | none => some tbl
  | some (i, name) =>
    if i < maxCodes then
      some { tbl with
        name := Function.update tbl.name i name, enabled := Function.update tbl.enabled i true }
    else
      none

/-- The table with a code. -/
def Table.newCode (tbl : Table) : Option (ℕ × ℕ × Code) → Option Table
  | none => some tbl
  | some (i, j, c) =>
    if i < maxCodes ∧ j < maxCheatList then
      some { tbl with codes := setCode tbl.codes i j c }
    else
      none

/-- The table after a turn of `parse_buf`. A write outside of it is `none`. -/
def Table.write (tbl : Table) (w : Write) : Option Table :=
  (tbl.newCheat w.cheat).bind fun tbl => tbl.newCode w.code

/-- The table after `parse_buf`. -/
def parseTable (buf : List UInt8) : Option Table := (parseBuf buf).foldlM Table.write .empty

/-! ### The list -/

/-- The inner loop of `set_cheats_list`, with the turns that are left: `cheatCount` and
`gCheatList`. -/
def copyCodes (codes : ℕ → Code) : ℕ → ℕ → ℕ × List UInt32 → Option (ℕ × List UInt32)
  | 0, _, st => some st
  | n + 1, j, (count, list) =>
    if (codes j).addr ≠ 0 then
      if count + 2 ≤ maxCheatList then
        (store list count [(codes j).addr, (codes j).val]).bind fun list =>
          copyCodes codes n (j + 1) (count + 2, list)
      else
        some (count, list)
    else
      some (count, list)

/-- The loops of `set_cheats_list`. -/
def copyCheats (tbl : Table) (st : ℕ × List UInt32) : Option (ℕ × List UInt32) :=
  (List.range maxCodes).foldlM
    (fun st i => if tbl.enabled i then copyCodes (tbl.codes i) maxCheatList 0 st else some st) st

/-- `set_cheats_list`: the words of `gCheatList`. A write outside of it is `none`. -/
def setCheatsList (tbl : Table) : Option (List UInt32) :=
  (copyCheats tbl (0, List.replicate maxCheatList 0)).bind fun st =>
    if st.1 < maxCheatList then store st.2 st.1 [0, 0] else store st.2 (st.1 - 2) [0, 0]

/-! ### What the file says -/

/-- The words of codes. -/
def words (l : List Code) : List UInt32 := l.flatMap fun c => [c.addr, c.val]

/-- `gCheatList` with these codes, and zeros behind them. -/
def listOf (l : List Code) : List UInt32 :=
  words l ++ List.replicate (maxCheatList - (words l).length) 0

/-- The codes that fit, with a pair of zeros behind them. -/
def capacity : ℕ := 254

/-- The codes of the enabled cheats, cut off at the capacity. Headings beyond `MAX_CODES` do not
count. -/
def specList (cheats : List (List Code)) (enabled : ℕ → Bool) : List UInt32 :=
  listOf (((List.range maxCodes).flatMap fun i =>
    if enabled i then cheats.getD i [] else []).take capacity)

/-- The lines of a file by their kinds. -/
def kindsOf (buf : List UInt8) : List Kind := (textLines (Bytes.cstr buf)).map kind

/-- Every line counts as one, every code is stored where it belongs, nothing is written outside of
the tables, and for every choice of cheats the list has their codes. -/
def Flattens (buf : List UInt8) : Prop :=
  scanLines (Bytes.cstr buf).length (Bytes.cstr buf) =
      (textLines (Bytes.cstr buf)).map (List.take cheatLineMax) ∧
    (parseBuf buf).map Write.code = specLog .init (kindsOf buf) ∧
    ∃ tbl, parseTable buf = some tbl ∧ ∀ enabled,
      setCheatsList { tbl with enabled := enabled } =
        some (specList (cheatsOf (kindsOf buf)) enabled)

/-! ### The loops of `set_cheats_list` -/

theorem length_words (l : List Code) : (words l).length = 2 * l.length := by
  induction l with
  | nil => rfl
  | cons c l ih =>
    rw [words, List.flatMap_cons, List.length_append, ← words, ih]
    simp only [List.length_cons, List.length_nil]
    omega

theorem words_append (l m : List Code) : words (l ++ m) = words l ++ words m := List.flatMap_append

theorem length_listOf {l : List Code} (h : l.length ≤ 255) :
    (listOf l).length = maxCheatList := by
  rw [listOf, List.length_append, List.length_replicate, length_words, maxCheatList]
  omega

/-- A pair behind the codes. -/
theorem store_listOf {l : List Code} (h : l.length < 255) (c : Code) :
    store (listOf l) (2 * l.length) [c.addr, c.val] = some (listOf (l ++ [c])) := by
  have hlen := length_listOf h.le
  have hroom : 2 * l.length + [c.addr, c.val].length ≤ (listOf l).length := by
    rw [hlen, maxCheatList]
    simp only [List.length_cons, List.length_nil]
    omega
  have hwords : (words l).length = 2 * l.length := length_words l
  have hwords' : (words (l ++ [c])).length = 2 * l.length + 2 := by
    rw [length_words, List.length_append, List.length_singleton]
    omega
  have hpair : words [c] = [c.addr, c.val] := rfl
  rw [store_of_le hroom, overwrite, listOf, List.take_left' hwords, List.drop_append, hwords,
    List.drop_eq_nil_of_le (by rw [hwords]; omega), List.nil_append, List.drop_replicate, listOf,
    hwords', words_append, hpair]
  congr 3
  simp only [List.length_cons, List.length_nil]
  omega

/-- The codes that the inner loop copies. -/
def run (codes : ℕ → Code) : ℕ → ℕ → List Code
  | 0, _ => []
  | n + 1, j => if (codes j).addr ≠ 0 then codes j :: run codes n (j + 1) else []

/-- What the inner loop does. -/
theorem copyCodes_eq (codes : ℕ → Code) (n j : ℕ) {l : List Code} (h : l.length ≤ 255) :
    copyCodes codes n j (2 * l.length, listOf l) =
      some (2 * ((l ++ run codes n j).take 255).length,
        listOf ((l ++ run codes n j).take 255)) := by
  have hstop : (l ++ []).take 255 = l := by
    rw [List.append_nil, List.take_of_length_le h]
  induction n generalizing j l with
  | zero => rw [copyCodes, run, hstop]
  | succ n ih =>
    rw [copyCodes, run]
    by_cases haddr : (codes j).addr ≠ 0
    · rw [if_pos haddr, if_pos haddr]
      by_cases hroom : l.length < 255
      · have hlen : 2 * l.length + 2 = 2 * (l ++ [codes j]).length := by
          rw [List.length_append, List.length_singleton]
          omega
        have hle : (l ++ [codes j]).length ≤ 255 := by
          rw [List.length_append, List.length_singleton]
          omega
        rw [if_pos (by rw [maxCheatList]; omega), store_listOf hroom, Option.bind_some, hlen,
          ih (j + 1) hle (by rw [List.append_nil, List.take_of_length_le hle]), List.append_assoc,
          List.singleton_append]
      · have htake : (l ++ codes j :: run codes n (j + 1)).take 255 = l := by
          rw [List.take_append_of_le_length (by omega), List.take_of_length_le h]
        rw [if_neg (by rw [maxCheatList]; omega), htake]
    · rw [if_neg haddr, if_neg haddr, hstop]

/-- The codes of the enabled cheats of a table. -/
def enabledCodes (tbl : Table) (is : List ℕ) : List Code :=
  is.flatMap fun i => if tbl.enabled i then run (tbl.codes i) maxCheatList 0 else []

theorem take_take_append {α : Type*} (l m : List α) (n : ℕ) :
    (l.take n ++ m).take n = (l ++ m).take n := by
  by_cases h : n ≤ l.length
  · rw [List.take_append_of_le_length (by rw [List.length_take]; omega),
      List.take_append_of_le_length h, List.take_take, Nat.min_self]
  · rw [List.take_of_length_le (by omega : l.length ≤ n)]

theorem copyCheats_eq (tbl : Table) (is : List ℕ) {l : List Code} (h : l.length ≤ 255) :
    is.foldlM (fun st i => if tbl.enabled i then copyCodes (tbl.codes i) maxCheatList 0 st
        else some st) (2 * l.length, listOf l) =
      some (2 * ((l ++ enabledCodes tbl is).take 255).length,
        listOf ((l ++ enabledCodes tbl is).take 255)) := by
  induction is generalizing l with
  | nil =>
    rw [List.foldlM_nil, enabledCodes, List.flatMap_nil, List.append_nil, List.take_of_length_le h]
    rfl
  | cons i is ih =>
    have hcons : enabledCodes tbl (i :: is) =
        (if tbl.enabled i then run (tbl.codes i) maxCheatList 0 else []) ++
          enabledCodes tbl is := rfl
    rw [List.foldlM_cons, hcons]
    by_cases hen : tbl.enabled i = true
    · rw [if_pos hen, if_pos hen, copyCodes_eq _ _ _ h, Option.bind_eq_bind, Option.bind_some,
        ih (List.length_take_le _ _), take_take_append, List.append_assoc]
    · rw [if_neg hen, if_neg hen, Option.bind_eq_bind, Option.bind_some, ih h, List.nil_append]

/-- **What `set_cheats_list` makes of a table.** -/
theorem setCheatsList_eq (tbl : Table) :
    setCheatsList tbl =
      some (listOf ((enabledCodes tbl (List.range maxCodes)).take capacity)) := by
  have hnil : ([] : List Code).length ≤ 255 := Nat.zero_le 255
  have hcopy := copyCheats_eq tbl (List.range maxCodes) hnil
  rw [List.nil_append] at hcopy
  have hstart : copyCheats tbl (0, List.replicate maxCheatList 0) =
      some (2 * ((enabledCodes tbl (List.range maxCodes)).take 255).length,
        listOf ((enabledCodes tbl (List.range maxCodes)).take 255)) := hcopy
  generalize enabledCodes tbl (List.range maxCodes) = l at hstart
  have hle : (l.take 255).length ≤ 255 := List.length_take_le _ _
  rw [setCheatsList, hstart, Option.bind_some]
  dsimp only
  by_cases hfull : (l.take 255).length < 255
  · have htake : l.take capacity = l.take 255 := by
      rw [List.length_take] at hfull
      rw [capacity, List.take_of_length_le (by omega), List.take_of_length_le (by omega)]
    have hzero := store_listOf hfull Code.zero
    have hend : listOf (l.take 255 ++ [Code.zero]) = listOf (l.take 255) := by
      have hpair : words [Code.zero] = List.replicate 2 0 := rfl
      rw [listOf, words_append, hpair, List.append_assoc, ← List.replicate_add, listOf]
      congr 2
      rw [List.length_append, length_words, List.length_replicate, maxCheatList]
      omega
    rw [if_pos (by rw [maxCheatList]; omega), htake]
    exact hzero.trans (congrArg some hend)
  · -- the last pair gives way to the zeros
    have hlen : (l.take 255).length = 255 := by omega
    have hcap : (l.take capacity).length = 254 := by
      rw [List.length_take] at hlen
      rw [List.length_take, capacity]
      omega
    obtain ⟨c, hc⟩ : ∃ c, l.take 255 = l.take capacity ++ [c] := by
      have hlt : 254 < l.length := by
        rw [List.length_take] at hlen
        omega
      exact ⟨l[254], List.take_succ_eq_append_getElem hlt⟩
    have hwords : (words (l.take capacity)).length = 508 := by rw [length_words, hcap]
    have hlist : listOf (l.take 255) = words (l.take capacity) ++ [c.addr, c.val] := by
      rw [listOf, length_words, hlen, hc, words_append]
      exact List.append_nil _
    have hroom : 508 + [(0 : UInt32), 0].length ≤ (listOf (l.take 255)).length := by
      rw [length_listOf hle]
      decide
    have hend : (listOf (l.take 255)).drop (508 + [(0 : UInt32), 0].length) = [] := by
      refine List.drop_eq_nil_of_le ?_
      rw [length_listOf hle]
      decide
    rw [if_neg (by rw [hlen]; decide), hlen]
    change store _ 508 _ = _
    rw [store_of_le hroom, overwrite, hend, List.append_nil, hlist, List.take_left' hwords, listOf,
      hwords]
    rfl

/-! ### The table of a file -/

/-- The codes of a table after these were stored. -/
def writeCodes (codes : ℕ → ℕ → Code) (log : List (Option (ℕ × ℕ × Code))) : ℕ → ℕ → Code :=
  log.foldl (fun codes w => w.elim codes fun p => setCode codes p.1 p.2.1 p.2.2) codes

/-- A write inside of the table. -/
def Write.InBounds (w : Write) : Prop :=
  (∀ p ∈ w.cheat, p.1 < maxCodes) ∧ ∀ p ∈ w.code, p.1 < maxCodes ∧ p.2.1 < maxCheatList

theorem write_of_inBounds (tbl : Table) {w : Write} (h : w.InBounds) :
    ∃ tbl', tbl.write w = some tbl' ∧
      tbl'.codes = w.code.elim tbl.codes fun p => setCode tbl.codes p.1 p.2.1 p.2.2 := by
  obtain ⟨cheat, code⟩ := w
  obtain ⟨hcheat, hcode⟩ := h
  have hnew : ∃ tbl₁, tbl.newCheat cheat = some tbl₁ ∧ tbl₁.codes = tbl.codes := by
    cases cheat with
    | none => exact ⟨tbl, rfl, rfl⟩
    | some p => exact ⟨_, if_pos (hcheat p rfl), rfl⟩
  obtain ⟨tbl₁, htbl₁, hcodes⟩ := hnew
  rw [Table.write, htbl₁, Option.bind_some, ← hcodes]
  cases code with
  | none => exact ⟨tbl₁, rfl, rfl⟩
  | some p => exact ⟨_, if_pos (hcode p rfl), rfl⟩

theorem foldlM_write (log : List Write) (tbl : Table) (h : ∀ w ∈ log, w.InBounds) :
    ∃ tbl', log.foldlM Table.write tbl = some tbl' ∧
      tbl'.codes = writeCodes tbl.codes (log.map Write.code) := by
  induction log generalizing tbl with
  | nil => exact ⟨tbl, rfl, rfl⟩
  | cons w log ih =>
    obtain ⟨tbl₁, hwrite, hcodes⟩ := write_of_inBounds tbl (h w List.mem_cons_self)
    obtain ⟨tbl', htbl', hcodes'⟩ := ih tbl₁ fun v hv => h v (List.mem_cons_of_mem _ hv)
    refine ⟨tbl', ?_, ?_⟩
    · rw [List.foldlM_cons, hwrite, Option.bind_eq_bind, Option.bind_some, htbl']
    · rw [hcodes', hcodes]
      rfl

/-- The index of the cheat stays in the table. -/
theorem parseStep_inBounds {t : ParseState} (h : t.cheats ≤ maxCodes) (piece : List UInt8) :
    (parseStep t piece).1.cheats ≤ maxCodes ∧ (parseStep t piece).2.InBounds := by
  have hskip : Write.skip.InBounds :=
    ⟨fun p hp => absurd hp (Option.not_mem_none p), fun p hp => absurd hp (Option.not_mem_none p)⟩
  have hadd : ∀ c, (addCode t c).1.cheats ≤ maxCodes ∧ (addCode t c).2.InBounds := by
    intro c
    have hnone : ∀ {β : Type} {Q : β → Prop}, ∀ p ∈ (none : Option β), Q p := by
      intro β Q p hp
      cases hp
    by_cases hnew : t.cheats < maxCodes ∧ t.tempName ≠ []
    · have hempty : t.tempName.isEmpty = false := by
        rw [Bool.eq_false_iff, ne_eq, List.isEmpty_iff]
        exact hnew.2
      rw [addCode, hempty, decide_eq_true hnew.1]
      simp only [Bool.not_false, Bool.and_self, if_true]
      split
      next hroom =>
        refine ⟨hnew.1, ?_, ?_⟩
        · rintro p ⟨⟩
          exact hnew.1
        · rintro p ⟨⟩
          exact ⟨hnew.1, hroom.2⟩
      next =>
        refine ⟨hnew.1, ?_, hnone⟩
        rintro p ⟨⟩
        exact hnew.1
    · rw [addCode_old c hnew]
      split
      next hroom =>
        refine ⟨h, hnone, ?_⟩
        rintro p ⟨⟩
        refine ⟨?_, hroom.2⟩
        dsimp only
        omega
      next => exact ⟨h, hnone, hnone⟩
  rw [parseStep]
  split
  next =>
    dsimp only
    split
    next => exact ⟨h, hskip⟩
    next =>
      split
      next => exact ⟨h, hskip⟩
      next => exact hadd _
  next => exact ⟨h, hskip⟩

theorem parseLog_inBounds {t : ParseState} (h : t.cheats ≤ maxCodes) (pieces : List (List UInt8)) :
    ∀ w ∈ parseLog t pieces, w.InBounds := by
  induction pieces generalizing t with
  | nil =>
    intro w hw
    cases hw
  | cons piece pieces ih =>
    obtain ⟨hnext, hwrite⟩ := parseStep_inBounds h piece
    intro w hw
    obtain rfl | hw := List.mem_cons.mp hw
    · exact hwrite
    · exact ih hnext w hw

/-- `parse_buf` stays in the table. -/
theorem parseTable_eq (buf : List UInt8) :
    ∃ tbl, parseTable buf = some tbl ∧
      tbl.codes = writeCodes (fun _ _ => .zero) ((parseBuf buf).map Write.code) :=
  foldlM_write _ _ (parseLog_inBounds (Nat.zero_le _) _)


theorem getD_concat {α : Type*} (l : List α) (a d : α) (i : ℕ) :
    (l ++ [a]).getD i d = if i = l.length then a else l.getD i d := by
  rw [List.getD_eq_getElem?_getD, List.getElem?_append, List.getD_eq_getElem?_getD]
  by_cases hlt : i < l.length
  · rw [if_pos hlt, if_neg (by omega)]
  · rw [if_neg hlt, List.getElem?_eq_none (by omega : l.length ≤ i)]
    by_cases heq : i = l.length
    · rw [if_pos heq, heq, Nat.sub_self]
      rfl
    · rw [if_neg heq, List.getElem?_eq_none (by rw [List.length_singleton]; omega)]

theorem setCode_apply (codes : ℕ → ℕ → Code) (i j : ℕ) (c : Code) (g k : ℕ) :
    setCode codes i j c g k = if g = i ∧ k = j then c else codes g k := by
  rw [setCode, Function.update_apply]
  by_cases hg : g = i
  · rw [if_pos hg, Function.update_apply, hg]
    simp only [true_and]
  · rw [if_neg hg, if_neg fun h => hg h.1]

/-- A table with the codes of the cheats. -/
def TableOf (codes : ℕ → ℕ → Code) (cheats : List (List Code)) : Prop :=
  ∀ g < maxCodes, ∀ j < maxCheatList, codes g j = (cheats.getD g []).getD j .zero

theorem write_place (codes : ℕ → ℕ → Code) (i k : ℕ) (c : Code) {g j : ℕ} (hg : g < maxCodes)
    (hj : j < maxCheatList) :
    ((place i k c).elim codes fun p => setCode codes p.1 p.2.1 p.2.2) g j =
      if g = i ∧ j = k then c else codes g j := by
  rw [place]
  split
  next => exact setCode_apply codes i k c g j
  next hout =>
    rw [if_neg]
    · rfl
    · rintro ⟨rfl, rfl⟩
      exact hout ⟨hg, hj⟩

/-- A line adds its code to the table. -/
theorem TableOf.step {codes : ℕ → ℕ → Code} {s : Spec} (h : TableOf codes s.cheats.reverse)
    (k : Kind) :
    TableOf ((specPlace s k).elim codes fun p => setCode codes p.1 p.2.1 p.2.2)
      (specStep s k).cheats.reverse := by
  obtain ⟨cheats, pending, ghost⟩ := s
  cases k with
  | blank => exact h
  | ghost => exact h
  | heading => exact h
  | code c =>
    intro g hg j hj
    have hold := h g hg j hj
    dsimp only at hold
    cases pending with
    | true =>
      change ((place cheats.length 0 c).elim codes _) g j =
        (([c] :: cheats).reverse.getD g []).getD j _
      rw [write_place codes _ _ c hg hj, List.reverse_cons, getD_concat, List.length_reverse]
      by_cases hgi : g = cheats.length
      · have hend : cheats.reverse.getD g [] = [] :=
          List.getD_eq_default _ _ (by rw [List.length_reverse, hgi])
        rw [hend] at hold
        have hone := getD_concat ([] : List Code) c .zero j
        rw [List.nil_append] at hone
        rw [if_pos hgi, hone]
        simp only [hgi, true_and, List.length_nil]
        rw [← hgi, hold]
      · rw [if_neg fun hno => hgi hno.1, if_neg hgi, hold]
    | false =>
      cases cheats with
      | nil => exact hold
      | cons cheat cheats =>
        change ((place cheats.length cheat.length c).elim codes _) g j =
          (((cheat ++ [c]) :: cheats).reverse.getD g []).getD j _
        rw [List.reverse_cons, getD_concat, List.length_reverse] at hold
        rw [write_place codes _ _ c hg hj, List.reverse_cons, getD_concat, List.length_reverse]
        by_cases hgi : g = cheats.length
        · rw [if_pos hgi] at hold
          rw [if_pos hgi, getD_concat, hold]
          simp only [hgi, true_and]
        · rw [if_neg hgi] at hold
          rw [if_neg fun hno => hgi hno.1, if_neg hgi, hold]

/-- The table of the codes that are stored where they belong. -/
theorem tableOf_specLog {codes : ℕ → ℕ → Code} {s : Spec} (h : TableOf codes s.cheats.reverse)
    (kinds : List Kind) :
    TableOf (writeCodes codes (specLog s kinds)) (kinds.foldl specStep s).cheats.reverse := by
  induction kinds generalizing codes s with
  | nil => exact h
  | cons k kinds ih => exact ih (h.step k)

/-! ### Codes of zeros -/

/-- No code that is stored is one of zeros. -/
def Nonzero (s : Spec) : Prop :=
  ∀ g < maxCodes, ∀ c ∈ (s.cheats.reverse.getD g []).take maxCheatList, c ≠ .zero

theorem Nonzero.step {s : Spec} {k : Kind} (h : Nonzero s) (hok : LineOk s k) :
    Nonzero (specStep s k) := by
  obtain ⟨cheats, pending, ghost⟩ := s
  cases k with
  | blank => exact h
  | ghost => exact h
  | heading => exact h
  | code c =>
    intro g hg
    have hold := h g hg
    dsimp only at hold
    cases pending with
    | true =>
      simp only [LineOk, if_true] at hok
      change ∀ d ∈ (([c] :: cheats).reverse.getD g []).take _, d ≠ _
      rw [List.reverse_cons, getD_concat, List.length_reverse]
      by_cases hgi : g = cheats.length
      · rw [if_pos (hgi ▸ hg)] at hok
        rw [if_pos hgi]
        intro d hd
        rw [List.mem_singleton.mp (List.mem_of_mem_take hd)]
        exact hok
      · rwa [if_neg hgi]
    | false =>
      cases cheats with
      | nil => exact hold
      | cons cheat cheats =>
        simp only [LineOk, Bool.false_eq_true, if_false] at hok
        rw [List.reverse_cons, getD_concat, List.length_reverse] at hold
        change ∀ d ∈ (((cheat ++ [c]) :: cheats).reverse.getD g []).take _, d ≠ _
        rw [List.reverse_cons, getD_concat, List.length_reverse]
        by_cases hgi : g = cheats.length
        · rw [if_pos hgi] at hold
          rw [if_pos (hgi ▸ hg)] at hok
          rw [if_pos hgi, List.take_append]
          intro d hd
          obtain hd | hd := List.mem_append.mp hd
          · exact hold d hd
          · obtain ⟨hc, -⟩ | ⟨-, hfull⟩ := hok
            · rwa [List.mem_singleton.mp (List.mem_of_mem_take hd)]
            · rw [Nat.sub_eq_zero_of_le hfull] at hd
              cases hd
        · rw [if_neg hgi] at hold
          rwa [if_neg hgi]

theorem nonzero_of_linesOk {s : Spec} (h : Nonzero s) {kinds : List Kind}
    (hok : LinesOk s kinds) : Nonzero (kinds.foldl specStep s) := by
  induction kinds generalizing s with
  | nil => exact h
  | cons k kinds ih => exact ih (h.step hok.1) hok.2

/-! ### From the table to the list -/

/-- The code does not end a cheat. -/
def goesOn (c : Code) : Bool := c.addr != 0

/-- What the inner loop copies of a cheat. -/
theorem run_eq_takeWhile {codes : ℕ → Code} {n j : ℕ} {l : List Code}
    (h : ∀ i < n, codes (j + i) = l.getD i .zero) :
    run codes n j = (l.take n).takeWhile goesOn := by
  induction n generalizing j l with
  | zero => rfl
  | succ n ih =>
    have hfirst := h 0 (Nat.succ_pos n)
    rw [Nat.add_zero] at hfirst
    cases l with
    | nil =>
      have hzero : codes j = .zero := hfirst
      rw [run, hzero, if_neg (fun hne => hne rfl)]
      rfl
    | cons c l =>
      have hc : codes j = c := hfirst
      have hrest : ∀ i < n, codes (j + 1 + i) = l.getD i .zero := by
        intro i hi
        have hnext := h (i + 1) (by omega)
        rw [List.getD_cons_succ] at hnext
        rw [← hnext]
        congr 1
        omega
      rw [run, hc, List.take_succ_cons]
      by_cases hgo : goesOn c = true
      · rw [if_pos (bne_iff_ne.mp hgo), List.takeWhile_cons_of_pos hgo, ih hrest]
      · rw [if_neg fun haddr => hgo (bne_iff_ne.mpr haddr), List.takeWhile_cons_of_neg hgo]

theorem take_append_take {α : Type*} (l m : List α) (n : ℕ) :
    (l ++ m.take n).take n = (l ++ m).take n := by
  rw [List.take_append, List.take_append, List.take_take, Nat.min_eq_left (Nat.sub_le n l.length)]

/-- Only the first codes of each cheat count. -/
theorem take_flatMap_congr {α β : Type*} {f g : α → List β} {n : ℕ} (is : List α)
    (h : ∀ i ∈ is, (f i).take n = (g i).take n) :
    (is.flatMap f).take n = (is.flatMap g).take n := by
  induction is with
  | nil => rfl
  | cons i is ih =>
    rw [List.flatMap_cons, List.flatMap_cons, ← take_take_append, h i List.mem_cons_self,
      take_take_append, ← take_append_take, ih fun j hj => h j (List.mem_cons_of_mem _ hj),
      take_append_take]

/-- A cheat whose codes are in the list as they are has no code that ends it. -/
theorem goesOn_of_listOf_eq {l : List Code} (hnz : ∀ c ∈ l, c ≠ .zero)
    (h : listOf (l.takeWhile goesOn) = listOf l) : ∀ c ∈ l, goesOn c = true := by
  have happ := List.takeWhile_append_dropWhile (p := goesOn) (l := l)
  cases hd : l.dropWhile goesOn with
  | nil =>
    rw [hd, List.append_nil] at happ
    intro c hc
    rw [← happ] at hc
    exact List.all_eq_true.mp List.all_takeWhile c hc
  | cons c rest =>
    -- the pair of this code is zero in the one list, so the code is one of zeros
    have hstop : goesOn c = false := by
      have hne : l.dropWhile goesOn ≠ [] := by
        rw [hd]
        exact List.cons_ne_nil _ _
      have hhead := List.head_dropWhile_not goesOn hne
      simpa only [hd, List.head_cons] using hhead
    rw [hd] at happ
    have hwords : words (c :: rest) = c.addr :: c.val :: words rest := rfl
    have hc : c ≠ .zero := by
      refine hnz c ?_
      rw [← happ]
      exact List.mem_append_right _ List.mem_cons_self
    generalize l.takeWhile goesOn = m at happ h
    rw [listOf, listOf, ← happ, words_append, List.append_assoc, hwords] at h
    have htail := List.append_cancel_left h
    have hval : c.val ∈ List.replicate (maxCheatList - (words m).length) (0 : UInt32) := by
      rw [htail]
      simp only [List.cons_append, List.mem_cons, true_or, or_true]
    have haddr : c.addr = 0 := by
      rw [goesOn, bne_eq_false_iff_eq] at hstop
      exact hstop
    have hzero := List.eq_of_mem_replicate hval
    refine absurd ?_ hc
    obtain ⟨addr, val⟩ := c
    dsimp only at haddr hzero
    rw [haddr, hzero, Code.zero]

/-- One cheat alone. -/
theorem flatMap_only {α : Type*} (f : ℕ → List α) {g n : ℕ} (h : g < n) :
    ((List.range n).flatMap fun i => if decide (i = g) = true then f i else []) = f g := by
  obtain ⟨m, rfl⟩ := Nat.exists_eq_add_of_lt h
  have hsplit : List.range (g + m + 1) = List.range g ++ g :: (List.range m).map (g + 1 + ·) := by
    rw [show g + m + 1 = g + (m + 1) by omega, List.range_add, List.range_succ_eq_map,
      List.map_cons, List.map_map, Nat.add_zero]
    congr 3
    funext i
    exact (Nat.succ_add_eq_add_succ g i).symm
  have hnil : ∀ is : List ℕ, g ∉ is →
      (is.flatMap fun i => if decide (i = g) = true then f i else []) = [] := by
    intro is hg
    rw [List.flatMap_eq_nil_iff]
    intro i hi
    refine if_neg ?_
    rw [decide_eq_true_eq]
    rintro rfl
    exact hg hi
  rw [hsplit, List.flatMap_append, List.flatMap_cons, hnil _ (by simp), hnil _ (by simp; omega),
    List.nil_append, List.append_nil, if_pos (decide_eq_true rfl)]

/-! ### The whole way -/

/-- What the code asks of a file: lines that fit the buffer, no code where it would go astray
(`LinesOk`), and no code with the address zero among those that can be copied. -/
structure WellFormed (buf : List UInt8) : Prop where
  short : ∀ line ∈ textLines (Bytes.cstr buf), line.length ≤ cheatLineMax
  lines : LinesOk .init (kindsOf buf)
  codes : ∀ g < maxCodes, ∀ c ∈ ((cheatsOf (kindsOf buf)).getD g []).take capacity, c.addr ≠ 0

/-- The codes go where they belong if the lines are those of the file. -/
theorem log_eq_iff {buf : List UInt8}
    (h : ∀ line ∈ textLines (Bytes.cstr buf), line.length ≤ cheatLineMax) :
    (parseBuf buf).map Write.code = specLog .init (kindsOf buf) ↔ LinesOk .init (kindsOf buf) := by
  have hid : (textLines (Bytes.cstr buf)).map (List.take cheatLineMax) =
      textLines (Bytes.cstr buf) := by
    rw [List.map_congr_left fun line hline => List.take_of_length_le (h line hline), List.map_id']
  rw [parseBuf, (scanLines_eq_iff le_rfl).mpr h, hid]
  exact logs_eq_iff agree_init _

/-- What is copied of each cheat. -/
theorem run_of_log_eq {buf : List UInt8} {tbl : Table}
    (hcodes : tbl.codes = writeCodes (fun _ _ => .zero) ((parseBuf buf).map Write.code))
    (hlog : (parseBuf buf).map Write.code = specLog .init (kindsOf buf)) {g : ℕ}
    (hg : g < maxCodes) :
    (run (tbl.codes g) maxCheatList 0).take capacity =
      (((cheatsOf (kindsOf buf)).getD g []).take capacity).takeWhile goesOn := by
  have hempty : TableOf (fun _ _ => .zero) Spec.init.cheats.reverse := fun g _ j _ => rfl
  have htable := tableOf_specLog hempty (kindsOf buf)
  rw [← hlog, ← hcodes] at htable
  have hrun : run (tbl.codes g) maxCheatList 0 =
      (((cheatsOf (kindsOf buf)).getD g []).take maxCheatList).takeWhile goesOn := by
    refine run_eq_takeWhile fun i hi => ?_
    rw [Nat.zero_add]
    exact htable g hg i hi
  rw [hrun, List.take_takeWhile, List.take_take, Nat.min_eq_left (by decide)]

/-- **The list has the codes of the enabled cheats, as the file has them,** whichever they are,
exactly if the file is well formed. -/
theorem flattens_iff (buf : List UInt8) : Flattens buf ↔ WellFormed buf := by
  obtain ⟨tbl, htbl, hcodes⟩ := parseTable_eq buf
  constructor
  · rintro ⟨hscan, hlog, tbl', htbl', hlist⟩
    obtain rfl : tbl = tbl' := Option.some.inj (htbl.symm.trans htbl')
    have hshort := (scanLines_eq_iff le_rfl).mp hscan
    have hlines := (log_eq_iff hshort).mp hlog
    refine ⟨hshort, hlines, fun g hg => ?_⟩
    have hnz : Nonzero ((kindsOf buf).foldl specStep .init) := by
      refine nonzero_of_linesOk ?_ hlines
      intro g _ c hc
      rw [Spec.init] at hc
      simp at hc
    -- only this cheat
    have honly := hlist fun i => decide (i = g)
    rw [setCheatsList_eq, Option.some.injEq, enabledCodes, specList] at honly
    dsimp only at honly
    rw [flatMap_only (fun i => run (tbl.codes i) maxCheatList 0) hg,
      flatMap_only (fun i => (cheatsOf (kindsOf buf)).getD i []) hg,
      run_of_log_eq hcodes hlog hg] at honly
    intro c hc
    refine bne_iff_ne.mp (goesOn_of_listOf_eq (fun d hd => ?_) honly c hc)
    exact hnz g hg d (List.take_subset_take_left _ (by decide) hd)
  · rintro ⟨hshort, hlines, haddr⟩
    have hlog := (log_eq_iff hshort).mpr hlines
    refine ⟨(scanLines_eq_iff le_rfl).mpr hshort, hlog, tbl, htbl, fun enabled => ?_⟩
    rw [setCheatsList_eq, specList, enabledCodes]
    dsimp only
    rw [take_flatMap_congr]
    intro i hi
    by_cases hen : enabled i = true
    · have hall : ∀ c ∈ ((cheatsOf (kindsOf buf)).getD i []).take capacity, goesOn c = true :=
        fun c hc => bne_iff_ne.mpr (haddr i (List.mem_range.mp hi) c hc)
      rw [if_pos hen, if_pos hen, run_of_log_eq hcodes hlog (List.mem_range.mp hi),
        List.takeWhile_eq_self_iff.mpr hall]
    · rw [if_neg hen, if_neg hen]

/-- A cheat with a code, a comment of more than 255 characters, and another code. -/
def longComment : List UInt8 :=
  [65, 10] ++ List.replicate 16 49 ++ [10] ++ ([47, 47] ++ List.replicate 300 120) ++ [10] ++
    List.replicate 16 50 ++ [10]

/-- The rest of the comment is taken for a heading. -/
theorem not_flattens_longComment : ¬Flattens longComment := by
  rintro ⟨hscan, -⟩
  have hshort := (scanLines_eq_iff le_rfl).mp hscan
  have hline : [47, 47] ++ List.replicate 300 120 ∈ textLines (Bytes.cstr longComment) := by
    decide +kernel
  have hlen := hshort _ hline
  rw [List.length_append, List.length_replicate] at hlen
  exact absurd hlen (by decide)

end Cheats

end OpenPS2Loader
