import OpenPS2Loader.Retrogem.DiscId

/-!
# The id in `SYSTEM.CNF`

The line of `SYSTEM.CNF` with the key `BOOT` names the file to start: `BOOT = cdrom:\SLUS_000.01;1`.
The file is called like the game, `AAAA_NNN.NN` or `AAAA-NNNNN`.

`retrogemCleanTitleID` looks for the device before it skips spaces, and it knows the device with a
backslash only. With a space behind the equals sign, or without a backslash behind the device, it
takes the device for the id.

## Main definitions

* `Retrogem.GameName` — the name of a game, and its id
* `Retrogem.BootText` — the text of a `SYSTEM.CNF`
* `Retrogem.BootText.Plain` — the value is one that is read

## Main results

* `Retrogem.BootText.bootId_of_plain`, `bootId_of_tab`, `bootId_of_device` — what is read
-/

namespace OpenPS2Loader

namespace Retrogem

/-! ### Names -/

/-- The name of a game: four letters or digits, and a number of five digits. -/
structure GameName where
  region : Text
  number : Text
  /-- The two are separated by a hyphen. -/
  dashed : Bool
  length_region : region.length = 4
  length_number : number.length = 5
  alphanum : ∀ c ∈ region, c.isAlphanum = true
  digit : ∀ c ∈ number, c.isDigit = true

namespace GameName

variable (n : GameName)

/-- The id of the game. -/
def id : Text := n.region ++ '_' :: (n.number.take 3 ++ '.' :: n.number.drop 3)

/-- The name as it is written. -/
def text : Text := if n.dashed then n.region ++ '-' :: n.number else n.id

theorem length_id : n.id.length = 11 := by
  simp only [id, List.length_append, List.length_cons, List.length_take, List.length_drop,
    n.length_region, n.length_number]
  omega

theorem length_text : n.text.length = 10 ∧ n.dashed = true ∨
    n.text.length = 11 ∧ n.dashed = false := by
  rcases hdash : n.dashed with _ | _
  · exact Or.inr ⟨by rw [text, hdash]; exact n.length_id, rfl⟩
  · refine Or.inl ⟨?_, rfl⟩
    rw [text, hdash, if_pos rfl, List.length_append, List.length_cons, n.length_region,
      n.length_number]

theorem isValidIdChar_of_alphanum {c : Char} (h : c.isAlphanum = true) :
    isValidIdChar c = true := by
  rw [isValidIdChar, h]
  rfl

theorem isValidIdChar_of_digit {c : Char} (h : c.isDigit = true) : isValidIdChar c = true := by
  rw [isValidIdChar, Char.isAlphanum, h, Bool.or_true]
  rfl

/-- The name has no other characters. -/
theorem isValidIdChar_of_mem {c : Char} (h : c ∈ n.text) : isValidIdChar c = true := by
  have hregion : ∀ c ∈ n.region, isValidIdChar c = true := fun c hc =>
    isValidIdChar_of_alphanum (n.alphanum c hc)
  have hnumber : ∀ c ∈ n.number, isValidIdChar c = true := fun c hc =>
    isValidIdChar_of_digit (n.digit c hc)
  rw [text] at h
  split_ifs at h
  · rcases List.mem_append.mp h with h | h
    · exact hregion c h
    · rcases List.mem_cons.mp h with rfl | h
      · rfl
      · exact hnumber c h
  · rcases List.mem_append.mp h with h | h
    · exact hregion c h
    rcases List.mem_cons.mp h with rfl | h
    · rfl
    rcases List.mem_append.mp h with h | h
    · exact hnumber c (List.mem_of_mem_take h)
    rcases List.mem_cons.mp h with rfl | h
    · rfl
    · exact hnumber c (List.mem_of_mem_drop h)

/-- What the name starts with. -/
theorem exists_text : ∃ c tail, n.text = n.region ++ c :: tail ∧ (c = '-' ∨ c = '_') := by
  rw [text]
  split_ifs
  · exact ⟨'-', n.number, rfl, Or.inl rfl⟩
  · exact ⟨'_', _, rfl, Or.inr rfl⟩

theorem getElem?_text_of_lt {i : ℕ} (h : i < 4) {c : Char} (hc : n.text[i]? = some c) :
    c.isAlphanum = true := by
  obtain ⟨d, tail, htext, -⟩ := n.exists_text
  rw [htext, List.getElem?_append_left (by rw [n.length_region]; exact h)] at hc
  exact n.alphanum c (List.mem_of_getElem? hc)

theorem getElem?_text_four : n.text[4]? = some '-' ∨ n.text[4]? = some '_' := by
  obtain ⟨d, tail, htext, hd⟩ := n.exists_text
  have hget : n.text[4]? = some d := by
    rw [htext, List.getElem?_append_right (by rw [n.length_region]), n.length_region]
    rfl
  rcases hd with rfl | rfl
  · exact Or.inl hget
  · exact Or.inr hget

theorem getElem?_id_four : n.id[4]? = some '_' := by
  rw [id, List.getElem?_append_right (by rw [n.length_region]), n.length_region]
  rfl

theorem text_ne_nil : n.text ≠ [] := by
  obtain ⟨c, tail, htext, -⟩ := n.exists_text
  rw [htext]
  simp

/-- The last character is a digit. -/
theorem isDigit_getLast : ∀ c ∈ n.text.getLast?, c.isDigit = true := by
  intro c hc
  have hlast : n.text.getLast? = n.number.getLast? := by
    have hne : n.number ≠ [] := fun h => by
      have := n.length_number
      rw [h] at this
      cases this
    have hne' : n.number.drop 3 ≠ [] := fun h => by
      have := congrArg List.length h
      rw [List.length_drop, n.length_number] at this
      cases this
    have hdrop : (n.number.drop 3).getLast? = n.number.getLast? := by
      rw [List.getLast?_drop, if_neg (by rw [n.length_number]; decide)]
    rw [text]
    split_ifs
    · rw [List.getLast?_append_of_ne_nil _ (by simp), List.getLast?_cons,
        List.getLast?_eq_some_getLast hne]
      rfl
    · rw [id, List.getLast?_append_of_ne_nil _ (by simp), List.getLast?_cons,
        List.getLast?_append_of_ne_nil _ (by simp), List.getLast?_cons, hdrop,
        List.getLast?_eq_some_getLast hne]
      rfl
  rw [hlast] at hc
  exact n.digit c (List.mem_of_getLast? hc)

end GameName

/-! ### The text -/

/-- The device of a path. -/
inductive Device
  | none
  | cdrom
  | cdrom0
  deriving DecidableEq

/-- The device as it is written. -/
def Device.text : Device → Text
  | none => []
  | cdrom => ['c', 'd', 'r', 'o', 'm', ':']
  | cdrom0 => ['c', 'd', 'r', 'o', 'm', '0', ':']

/-- The text of a `SYSTEM.CNF`, taken apart at the value of `BOOT`: the lines in front of it, what
stands around the equals sign, the parts of the value, and what follows. -/
structure BootText where
  before : Text
  gap : Text
  blanks : Text
  device : Device
  slashes : Text
  name : GameName
  rest : Text
  /-- The key starts a line. -/
  before_end : before = [] ∨ before.getLast? = some '\n'
  /-- It is the first one. -/
  before_find : Text.find "BOOT".toList before = none
  nul_not_mem_before : nul ∉ before
  gap_blank : ∀ c ∈ gap, c = ' ' ∨ c = '\t'
  blanks_blank : ∀ c ∈ blanks, c = ' ' ∨ c = '\t'
  slashes_eq : ∀ c ∈ slashes, c = '\\'
  /-- The version of the file, a space or the end of the line. -/
  rest_head : ∀ c ∈ rest.head?, endsTitle c = true

namespace BootText

variable (b : BootText)

/-- The device and the path. -/
def path : Text := b.device.text ++ (b.slashes ++ b.name.text)

/-- The text in front of the value. -/
def key : Text := b.before ++ ("BOOT".toList ++ (b.gap ++ ['=']))

/-- The text up to the name of the file. -/
def front : Text := b.key ++ (b.blanks ++ b.path)

/-- The text. -/
def text : Text := b.front ++ b.rest

/-- The device comes directly behind the equals sign and is followed by a backslash; or there is
none, and the blanks are spaces. -/
def Plain : Prop :=
  b.blanks = [] ∧ b.slashes ≠ [] ∨ b.device = .none ∧ '\t' ∉ b.blanks

instance : Decidable b.Plain := inferInstanceAs (Decidable (_ ∨ _))

/-! ### What is read -/

theorem nul_not_mem_front : nul ∉ b.front := by
  have hblank : ∀ {l : Text}, (∀ c ∈ l, c = ' ' ∨ c = '\t') → nul ∉ l := by
    intro l hl hmem
    rcases hl nul hmem with h | h <;> exact absurd h (by decide)
  have hname : nul ∉ b.name.text := fun h =>
    absurd (b.name.isValidIdChar_of_mem h) (by decide)
  have hslashes : nul ∉ b.slashes := fun h => absurd (b.slashes_eq nul h) (by decide)
  have hdevice : nul ∉ b.device.text := by
    cases b.device <;> decide
  have hboot : nul ∉ "BOOT".toList := by decide
  have heq : nul ∉ ['='] := by decide
  simp only [front, key, path, List.mem_append, not_or]
  exact ⟨⟨b.nul_not_mem_before, hboot, hblank b.gap_blank, heq⟩, hblank b.blanks_blank, hdevice,
    hslashes, hname⟩

/-- The first occurrence of the key is the one at the start of a line. -/
theorem strstr_key (u : Text) :
    strstr (b.before ++ ("BOOT".toList ++ u)) "BOOT".toList = some ("BOOT".toList ++ u) := by
  have hskip : ∀ i < b.before.length,
      ¬ "BOOT".toList <+: (b.before ++ ("BOOT".toList ++ u)).drop i := by
    intro i hi hpre
    have hne : b.before ≠ [] := List.length_pos_iff.mp (Nat.zero_lt_of_lt hi)
    obtain ⟨init, hinit⟩ := List.getLast?_eq_some_iff.mp (b.before_end.resolve_left hne)
    have hle : i ≤ init.length := by
      rw [hinit, List.length_append, List.length_singleton] at hi
      omega
    refine Text.not_prefix_of_find_eq_none b.before_find i hi.le ?_
    rw [hinit, List.drop_append_of_le_length hle]
    obtain ⟨v, hv⟩ := hpre
    rw [hinit, List.append_assoc, List.drop_append_of_le_length hle, List.singleton_append] at hv
    exact (Text.prefix_of_append_eq hv (by decide)).trans (List.prefix_append _ _)
  have hzero : Text.find "BOOT".toList ("BOOT".toList ++ u) = some 0 :=
    if_pos (List.prefix_append "BOOT".toList u)
  rw [strstr, Text.find_eq_find_drop b.before.length (by rw [List.length_append]; omega) hskip,
    List.drop_left, hzero, Option.map_some, Option.map_some, Nat.zero_add, List.drop_left]

/-- The text behind the equals sign is read. -/
theorem bootId_eq (maxLen : ℕ) : bootId (cstr b.text) maxLen =
    retrogemCleanTitleID (b.blanks ++ (b.path ++ cstr b.rest)) maxLen := by
  have hcut : ∀ v, (Text.cutAt '=' ("BOOT".toList ++ (b.gap ++ '=' :: v))).2 = some v := by
    intro v
    have heq : '=' ∉ "BOOT".toList ++ b.gap := by
      rw [List.mem_append, not_or]
      refine ⟨by decide, fun h => ?_⟩
      rcases b.gap_blank _ h with h | h <;> exact absurd h (by decide)
    rw [← List.append_assoc, Text.cutAt_append heq]
  rw [text, cstr_append b.nul_not_mem_front, bootId, front, key]
  simp only [List.append_assoc, List.cons_append, List.nil_append]
  rw [b.strstr_key, Option.some_or, Option.bind_some, hcut, Option.bind_some]

/-- What follows the name ends it, up to the end of the string as well. -/
theorem cstr_rest_head : ∀ c ∈ (cstr b.rest).head?, endsTitle c = true := by
  intro c hc
  rcases hrest : b.rest with _ | ⟨d, r⟩
  · rw [hrest] at hc
    cases hc
  · have hd := b.rest_head
    rw [hrest] at hc hd
    have hnul : d ≠ nul := by
      rintro rfl
      exact absurd (hd nul rfl) (by decide)
    rw [cstr, List.takeWhile_cons_of_pos (by simpa using hnul)] at hc
    cases hc
    exact hd _ rfl

end BootText

/-! ### Titles -/

section Title

variable {raw lead body rest : Text}

/-- A text is no prefix when the characters at one place differ. -/
theorem not_prefix_of_getElem? {p l : Text} {c : Char} (i : ℕ) (hp : p[i]? = some c)
    (hl : l[i]? ≠ some c) : ¬ p <+: l := by
  rintro ⟨t, rfl⟩
  rw [List.getElem?_append_left (List.getElem?_eq_some_iff.mp hp).1] at hl
  exact hl hp

theorem skipPrefix_eq_self (hcdrom0 : ¬ "cdrom0:\\".toList <+: raw)
    (hcdrom : ¬ "cdrom:\\".toList <+: raw) (hxx : ¬ "XX.".toList <+: raw)
    (hsb : ¬ "SB.".toList <+: raw) : skipPrefix raw = raw := by
  rw [skipPrefix, if_neg hcdrom0, if_neg hcdrom, if_neg (not_or.mpr ⟨hxx, hsb⟩)]

theorem skipPrefix_of_head {c : Char} (h : c ∉ ['c', 'X', 'S']) (s : Text) :
    skipPrefix (c :: s) = c :: s := by
  simp only [List.mem_cons, List.not_mem_nil, or_false, not_or] at h
  have hhead : ∀ {p : Text} {d : Char}, p[0]? = some d → c ≠ d → ¬ p <+: c :: s :=
    fun hp hne => not_prefix_of_getElem? 0 hp fun heq => hne (Option.some.inj heq)
  exact skipPrefix_eq_self (hhead rfl h.1) (hhead rfl h.1) (hhead rfl h.2.1) (hhead rfl h.2.2)

theorem titleText_eq (hskip : skipPrefix raw = lead ++ (body ++ rest))
    (hlead : ∀ c ∈ lead, isLeading c = true) (hne : body ≠ [])
    (hhead : ∀ c ∈ body.head?, isLeading c = false) (hbody : ∀ c ∈ body, endsTitle c = false)
    (hrest : ∀ c ∈ rest.head?, endsTitle c = true) : titleText raw = body.take 31 := by
  have hdrop : (lead ++ (body ++ rest)).dropWhile isLeading = body ++ rest := by
    refine Text.dropWhile_append_of_all hlead fun c hc => hhead c ?_
    rwa [List.head?_append_of_ne_nil _ hne] at hc
  have hend : rest.takeWhile (fun c => !endsTitle c) = [] := by
    cases rest with
    | nil => rfl
    | cons c r => exact List.takeWhile_cons_of_neg (by simp [hrest c rfl])
  rw [titleText, hskip, hdrop, List.takeWhile_append_of_pos fun c hc => by simp [hbody c hc], hend,
    List.append_nil]

theorem retrogemCleanTitleID_eq_some {out : Text} {maxLen : ℕ} (hmax : 12 ≤ maxLen)
    (hlen : 8 ≤ (stripExtension (titleText raw)).length)
    (hshape : shapeId (stripExtension (titleText raw)) = out) (hout : 8 ≤ out.length)
    (hgeneric : isGeneric out = false) : retrogemCleanTitleID raw maxLen = some out := by
  have hkeep : ¬ (decide (out.length < 8) || isGeneric out) = true := by
    rw [hgeneric, Bool.or_false, decide_eq_true_eq]
    exact Nat.not_lt.mpr hout
  rw [retrogemCleanTitleID, if_neg (Nat.not_lt.mpr hmax)]
  dsimp only
  rw [if_neg (Nat.not_lt.mpr hlen), hshape, if_neg hkeep]

end Title

namespace GameName

variable (n : GameName)

theorem toLower_of_isDigit {c : Char} (h : c.isDigit = true) : c.toLower = c := by
  delta Char.toLower
  split
  next hupper =>
    rw [Char.isDigit, Bool.and_eq_true, decide_eq_true_eq, decide_eq_true_eq] at h
    have hle : c.val.toNat ≤ 57 := h.2
    have hge : 65 ≤ c.val.toNat := hupper.1
    omega
  next => rfl

theorem stripExtension_text : stripExtension n.text = n.text := by
  refine if_neg fun h => ?_
  obtain ⟨hlen, hmem⟩ := h
  obtain ⟨d, hd⟩ : ∃ d, n.text.getLast? = some d :=
    ⟨_, List.getLast?_eq_some_getLast n.text_ne_nil⟩
  have hdigit := n.isDigit_getLast d hd
  have hlast : ((n.text.drop (n.text.length - 4)).map Char.toLower).getLast? = some d := by
    rw [List.getLast?_map, List.getLast?_drop, if_neg (by omega), hd, Option.map_some,
      toLower_of_isDigit hdigit]
  simp only [List.mem_cons, List.not_mem_nil, or_false] at hmem
  rcases hmem with hmem | hmem
  · rw [hmem] at hlast
    obtain rfl : 'f' = d := Option.some.inj hlast
    cases hdigit
  · rw [hmem] at hlast
    obtain rfl : 'd' = d := Option.some.inj hlast
    cases hdigit

theorem shapeId_text : shapeId n.text = n.id := by
  rcases n.length_text with ⟨hlen, hdash⟩ | ⟨hlen, hdash⟩
  · have htext : n.text = n.region ++ '-' :: n.number := by rw [text, if_pos hdash]
    have hget : n.text[4]? = some '-' := by
      rw [htext, List.getElem?_append_right (by rw [n.length_region]), n.length_region]
      rfl
    have hdrop : ∀ j, n.text.drop (4 + 1 + j) = n.number.drop j := by
      intro j
      rw [htext, ← n.length_region, Text.drop_append_cons]
    rw [shapeId, if_neg (by omega), if_pos ⟨hlen, hget⟩, hdrop 0, hdrop 3, List.drop_zero, htext,
      List.take_left' n.length_region, id, List.append_assoc, List.cons_append]
  · have htext : n.text = n.id := by rw [text, hdash, if_neg Bool.false_ne_true]
    have hall : (n.text.take 4).all isValidIdChar = true := List.all_eq_true.mpr fun c hc =>
      n.isValidIdChar_of_mem (List.mem_of_mem_take hc)
    rw [shapeId, if_pos ⟨hlen.ge, hall⟩, List.take_of_length_le hlen.le, htext]

/-- None of the names of `isGeneric` is as long as an id. -/
theorem isGeneric_eq_false {out : Text} (hlen : out.length = 11)
    (hhead : ∀ c ∈ out.head?, c ≠ '?') : isGeneric out = false := by
  have hne : ∀ {t : Text}, t.length ≠ 11 → (out.map Char.toLower == t) = false := by
    intro t ht
    rw [beq_eq_false_iff_ne]
    rintro rfl
    exact ht (by rw [List.length_map, hlen])
  have hquest : (out.take 3 == "???".toList) = false := by
    rw [beq_eq_false_iff_ne]
    intro h
    rcases out with _ | ⟨c, out⟩
    · cases hlen
    · exact hhead c rfl (List.cons.inj h).1
  rw [isGeneric, hne (by decide), hne (by decide), hquest]
  rfl

theorem head?_id : ∀ c ∈ n.id.head?, c ≠ '?' := by
  rintro c hc rfl
  have hmem : '?' ∈ n.region := by
    rw [id, List.head?_append_of_ne_nil] at hc
    · exact List.mem_of_head? hc
    · exact fun h => by
        have := n.length_region
        rw [h] at this
        cases this
  exact absurd (n.alphanum _ hmem) (by decide)

/-- **The name of a game is read as its id.** -/
theorem retrogemCleanTitleID_eq {raw : Text} {maxLen : ℕ} (hmax : 12 ≤ maxLen)
    (h : titleText raw = n.text) : retrogemCleanTitleID raw maxLen = some n.id := by
  have hlen : ¬ n.text.length < 8 := by
    rcases n.length_text with h | h <;> omega
  have hshape : shapeId (stripExtension (titleText raw)) = n.id := by
    rw [h, n.stripExtension_text, n.shapeId_text]
  refine retrogemCleanTitleID_eq_some hmax ?_ hshape ?_ (isGeneric_eq_false n.length_id n.head?_id)
  · rw [h, n.stripExtension_text]
    exact Nat.not_lt.mp hlen
  · rw [n.length_id]
    decide

theorem skipPrefix_text (r : Text) : skipPrefix (n.text ++ r) = n.text ++ r := by
  have hlen : 10 ≤ n.text.length := by
    rcases n.length_text with h | h <;> omega
  have hfour : (n.text ++ r)[4]? ≠ some 'm' := by
    rw [List.getElem?_append_left (by omega)]
    rcases n.getElem?_text_four with h | h <;> rw [h] <;> decide
  have htwo : (n.text ++ r)[2]? ≠ some '.' := by
    rw [List.getElem?_append_left (by omega)]
    exact fun h => absurd (n.getElem?_text_of_lt (by decide) h) (by decide)
  exact skipPrefix_eq_self (not_prefix_of_getElem? 4 rfl hfour) (not_prefix_of_getElem? 4 rfl hfour)
    (not_prefix_of_getElem? 2 rfl htwo) (not_prefix_of_getElem? 2 rfl htwo)

end GameName

/-- Spaces, tabs and backslashes start no prefix. -/
theorem skipPrefix_append {lead s : Text} (h : ∀ c ∈ lead, c = ' ' ∨ c = '\t' ∨ c = '\\')
    (hs : skipPrefix s = s) : skipPrefix (lead ++ s) = lead ++ s := by
  rcases lead with _ | ⟨c, lead⟩
  · exact hs
  · refine skipPrefix_of_head (fun hmem => ?_) (lead ++ s)
    rcases h c List.mem_cons_self with rfl | rfl | rfl <;> exact absurd hmem (by decide)

theorem skipPrefix_cdrom (s : Text) : skipPrefix ("cdrom:\\".toList ++ s) = s := by
  have hcdrom0 : ¬ "cdrom0:\\".toList <+: "cdrom:\\".toList ++ s :=
    not_prefix_of_getElem? 5 rfl (by rw [List.getElem?_append_left (by decide)]; decide)
  rw [skipPrefix, if_neg hcdrom0, if_pos (List.prefix_append _ _)]
  exact List.drop_left' rfl

theorem skipPrefix_cdrom0 (s : Text) : skipPrefix ("cdrom0:\\".toList ++ s) = s := by
  rw [skipPrefix, if_pos (List.prefix_append _ _)]
  exact List.drop_left' rfl

/-! ### The three kinds of values -/

theorem exists_stripExtension (tmp : Text) :
    ∃ k, tmp.length - 4 ≤ k ∧ stripExtension tmp = tmp.take k := by
  rw [stripExtension]
  split_ifs
  · exact ⟨tmp.length - 4, le_rfl, rfl⟩
  · exact ⟨tmp.length, Nat.sub_le _ _, (List.take_length).symm⟩

namespace BootText

variable (b : BootText) {maxLen : ℕ}

theorem not_endsTitle_of_valid {c : Char} (h : isValidIdChar c = true) : endsTitle c = false := by
  rw [Bool.eq_false_iff]
  intro hend
  simp only [endsTitle, Bool.or_eq_true, beq_iff_eq] at hend
  rcases hend with ((rfl | rfl) | rfl) | rfl <;> exact absurd h (by decide)

theorem not_isLeading_of_valid {c : Char} (h : isValidIdChar c = true) : isLeading c = false := by
  rw [Bool.eq_false_iff]
  intro hlead
  simp only [isLeading, Bool.or_eq_true, beq_iff_eq] at hlead
  rcases hlead with (rfl | rfl) | rfl <;> exact absurd h (by decide)

theorem isLeading_of_mem_slashes {c : Char} (h : c ∈ b.slashes) : isLeading c = true := by
  rw [b.slashes_eq c h]
  rfl

theorem isLeading_of_mem_blanks (htab : '\t' ∉ b.blanks) {c : Char} (h : c ∈ b.blanks) :
    isLeading c = true := by
  rcases b.blanks_blank c h with rfl | rfl
  · rfl
  · exact absurd h htab

/-- The name is left when everything in front of it is skipped. -/
theorem titleText_of_lead {raw : Text} (lead : Text)
    (hskip : skipPrefix raw = lead ++ (b.name.text ++ cstr b.rest))
    (hlead : ∀ c ∈ lead, isLeading c = true) : titleText raw = b.name.text := by
  have hlen : b.name.text.length ≤ 31 := by
    rcases b.name.length_text with h | h <;> omega
  rw [titleText_eq hskip hlead b.name.text_ne_nil ?_ ?_ b.cstr_rest_head,
    List.take_of_length_le hlen]
  · exact fun c hc => not_isLeading_of_valid (b.name.isValidIdChar_of_mem (List.mem_of_head? hc))
  · exact fun c hc => not_endsTitle_of_valid (b.name.isValidIdChar_of_mem hc)

theorem titleText_of_plain (h : b.Plain) :
    titleText (b.blanks ++ (b.path ++ cstr b.rest)) = b.name.text := by
  rcases hdevice : b.device with _ | _ | _
  · -- without a device the blanks are spaces, and skipped like the slashes
    have htab : '\t' ∉ b.blanks := by
      rcases h with ⟨hnil, -⟩ | ⟨-, htab⟩
      · rw [hnil]
        exact List.not_mem_nil
      · exact htab
    refine b.titleText_of_lead (b.blanks ++ b.slashes) ?_ ?_
    · rw [path, hdevice, Device.text, List.nil_append, ← List.append_assoc, ← List.append_assoc,
        List.append_assoc (b.blanks ++ b.slashes)]
      refine skipPrefix_append (fun c hc => ?_) (b.name.skipPrefix_text _)
      rcases List.mem_append.mp hc with hc | hc
      · exact (b.blanks_blank c hc).imp_right Or.inl
      · exact Or.inr (Or.inr (b.slashes_eq c hc))
    · intro c hc
      rcases List.mem_append.mp hc with hc | hc
      · exact b.isLeading_of_mem_blanks htab hc
      · exact b.isLeading_of_mem_slashes hc
  all_goals
    obtain ⟨hnil, hslashes⟩ : b.blanks = [] ∧ b.slashes ≠ [] := by
      rcases h with h | ⟨hnone, -⟩
      · exact h
      · cases hdevice.symm.trans hnone
    obtain ⟨c, sl, hsl⟩ := List.exists_cons_of_ne_nil hslashes
    have hlead : ∀ d ∈ sl, isLeading d = true := fun d hd =>
      b.isLeading_of_mem_slashes (by rw [hsl]; exact List.mem_cons_of_mem c hd)
    obtain rfl : c = '\\' := b.slashes_eq c (by rw [hsl]; exact List.mem_cons_self)
    refine b.titleText_of_lead sl ?_ hlead
    simp only [hnil, path, hdevice, hsl, List.nil_append, List.append_assoc, List.cons_append]
  · exact skipPrefix_cdrom (sl ++ (b.name.text ++ cstr b.rest))
  · exact skipPrefix_cdrom0 (sl ++ (b.name.text ++ cstr b.rest))

/-- **A plain value is read as the id.** -/
theorem bootId_of_plain (hmax : 12 ≤ maxLen) (h : b.Plain) :
    bootId (cstr b.text) maxLen = some b.name.id := by
  rw [b.bootId_eq, b.name.retrogemCleanTitleID_eq hmax (b.titleText_of_plain h)]

end BootText

namespace BootText

variable (b : BootText) {maxLen : ℕ}

/-- The path with a device, of which the first characters are the device. -/
theorem path_of_device (h : b.device ≠ .none) :
    (b.path.take 4).all isValidIdChar = true ∧ b.path[4]? = some 'm' ∧ 15 < b.path.length ∧
      (∀ c ∈ b.path.head?, isLeading c = false) ∧ ∀ c ∈ b.path, endsTitle c = false := by
  have hname : 10 ≤ b.name.text.length := by
    rcases b.name.length_text with h | h <;> omega
  have htail : ∀ c ∈ b.slashes ++ b.name.text, endsTitle c = false := by
    intro c hc
    rcases List.mem_append.mp hc with hc | hc
    · rw [b.slashes_eq c hc]
      rfl
    · exact not_endsTitle_of_valid (b.name.isValidIdChar_of_mem hc)
  rw [path]
  rcases hdevice : b.device with _ | _ | _
  · exact absurd hdevice h
  all_goals
    refine ⟨rfl, rfl, ?_, ?_, ?_⟩
    · simp only [List.length_append, List.length_cons, List.length_nil, Device.text]
      omega
    · rintro c ⟨⟩
      rfl
    · intro c hc
      rcases List.mem_append.mp hc with hc | hc
      · exact (by decide : ∀ d ∈ Device.text _, endsTitle d = false) c hc
      · exact htail c hc

/-- There is no prefix to step over when a space comes first or no backslash follows. -/
theorem skipPrefix_path (h : b.blanks ≠ [] ∨ b.slashes = []) (r : Text) :
    skipPrefix (b.blanks ++ (b.path ++ r)) = b.blanks ++ (b.path ++ r) := by
  rcases hblanks : b.blanks with _ | ⟨c, bs⟩
  · have hslashes : b.slashes = [] := h.resolve_left fun hne => hne hblanks
    rw [List.nil_append, path, hslashes, List.nil_append, List.append_assoc]
    obtain ⟨c, tail, htext⟩ := List.exists_cons_of_ne_nil b.name.text_ne_nil
    have hc : some c ≠ some '\\' := by
      intro h
      obtain rfl := Option.some.inj h
      exact absurd (b.name.isValidIdChar_of_mem (by rw [htext]; exact List.mem_cons_self))
        (by decide)
    have hdevice : ∀ {d : Device} {i : ℕ} {e : Char}, i < d.text.length → d.text[i]? ≠ some e →
        (d.text ++ (b.name.text ++ r))[i]? ≠ some e := by
      intro d i e hi hne
      rwa [List.getElem?_append_left hi]
    rcases b.device with _ | _ | _
    · exact b.name.skipPrefix_text r
    · refine skipPrefix_eq_self (not_prefix_of_getElem? (c := '0') 5 rfl ?_)
        (not_prefix_of_getElem? (c := '\\') 6 rfl ?_) (not_prefix_of_getElem? (c := 'X') 0 rfl ?_)
        (not_prefix_of_getElem? (c := 'S') 0 rfl ?_)
      · exact hdevice (by decide) (by decide)
      · rw [htext]
        exact hc
      · exact hdevice (by decide) (by decide)
      · exact hdevice (by decide) (by decide)
    · refine skipPrefix_eq_self (not_prefix_of_getElem? (c := '\\') 7 rfl ?_)
        (not_prefix_of_getElem? (c := ':') 5 rfl ?_) (not_prefix_of_getElem? (c := 'X') 0 rfl ?_)
        (not_prefix_of_getElem? (c := 'S') 0 rfl ?_)
      · rw [htext]
        exact hc
      · exact hdevice (by decide) (by decide)
      · exact hdevice (by decide) (by decide)
      · exact hdevice (by decide) (by decide)
  · have hc := b.blanks_blank c (by rw [hblanks]; exact List.mem_cons_self)
    rw [List.cons_append]
    refine skipPrefix_of_head ?_ _
    rcases hc with rfl | rfl <;> decide

/-- **A device that is not stepped over is read as the id.** -/
theorem bootId_of_device (hmax : 12 ≤ maxLen) (hdevice : b.device ≠ .none) (htab : '\t' ∉ b.blanks)
    (h : b.blanks ≠ [] ∨ b.slashes = []) :
    ∃ id, bootId (cstr b.text) maxLen = some id ∧ id ≠ b.name.id := by
  obtain ⟨hvalid, hfour, hlen, hhead, hend⟩ := b.path_of_device hdevice
  have hne : b.path ≠ [] := List.length_pos_iff.mp (Nat.zero_lt_of_lt hlen)
  have htitle : titleText (b.blanks ++ (b.path ++ cstr b.rest)) = b.path.take 31 :=
    titleText_eq (b.skipPrefix_path h _) (fun c hc => b.isLeading_of_mem_blanks htab hc) hne hhead
      hend b.cstr_rest_head
  obtain ⟨k, hk, hstrip⟩ := exists_stripExtension (b.path.take 31)
  -- the end of the path is not looked at
  obtain ⟨m, hm, htmp⟩ : ∃ m, 11 ≤ m ∧ stripExtension (b.path.take 31) = b.path.take m := by
    rw [List.length_take] at hk
    exact ⟨min k 31, by omega, by rw [hstrip, List.take_take]⟩
  have hlentmp : 11 ≤ (b.path.take m).length := by
    rw [List.length_take]
    omega
  have hout : shapeId (b.path.take m) = b.path.take 11 := by
    rw [shapeId, List.take_take, List.take_take, Nat.min_eq_left (by omega), Nat.min_eq_left hm,
      if_pos ⟨hlentmp, hvalid⟩]
  have hlenout : (b.path.take 11).length = 11 := by
    rw [List.length_take]
    omega
  have hgeneric : isGeneric (b.path.take 11) = false := by
    refine GameName.isGeneric_eq_false hlenout ?_
    rw [List.head?_take, if_neg (by decide)]
    rintro c hc rfl
    have hmem : '?' ∈ b.path.take 4 := by
      refine List.mem_of_head? ?_
      rw [List.head?_take, if_neg (by decide)]
      exact hc
    exact absurd (List.all_eq_true.mp hvalid _ hmem) (by decide)
  refine ⟨b.path.take 11, ?_, fun heq => ?_⟩
  · rw [b.bootId_eq]
    refine retrogemCleanTitleID_eq_some hmax ?_ ?_ (by omega) hgeneric
    · rw [htitle, htmp]
      omega
    · rw [htitle, htmp, hout]
  · have hid : (b.path.take 11)[4]? = b.name.id[4]? := by rw [heq]
    rw [b.name.getElem?_id_four, List.getElem?_take_of_lt (by decide), hfour] at hid
    cases hid

/-- What is read of a value in which a tab stands in front of the name. -/
theorem retrogemCleanTitleID_of_tab {raw w r : Text} (hskip : skipPrefix raw = raw)
    (hdrop : raw.dropWhile isLeading = '\t' :: (w ++ (b.name.text ++ r))) (hw : '-' ∉ w) :
    retrogemCleanTitleID raw maxLen = none := by
  have hlen : 10 ≤ b.name.text.length := by
    rcases b.name.length_text with h | h <;> omega
  -- a hyphen at the place 4 is the one in the name, which starts later
  have hhyphen : ('\t' :: (w ++ (b.name.text ++ r)))[4]? ≠ some '-' := by
    rw [List.getElem?_cons_succ]
    rcases Nat.lt_or_ge 3 w.length with hin | hout
    · rw [List.getElem?_append_left hin]
      exact fun h => hw (List.mem_of_getElem? h)
    · rw [List.getElem?_append_right hout, List.getElem?_append_left (by omega)]
      exact fun h => absurd (b.name.getElem?_text_of_lt (by omega) h) (by decide)
  obtain ⟨k, -, hstrip⟩ := exists_stripExtension (titleText raw)
  have hpre : stripExtension (titleText raw) <+: '\t' :: (w ++ (b.name.text ++ r)) := by
    rw [hstrip, titleText, hskip, hdrop]
    exact (List.take_prefix _ _).trans ((List.take_prefix _ _).trans (List.takeWhile_prefix _))
  rw [retrogemCleanTitleID]
  split_ifs with hmax
  · rfl
  generalize stripExtension (titleText raw) = tmp at hpre
  dsimp only
  rcases tmp with _ | ⟨c, tmp⟩
  · rfl
  obtain rfl : c = '\t' := (List.cons_prefix_cons.mp hpre).1
  have hout : shapeId ('\t' :: tmp) = [] := by
    have hvalid : ¬ (('\t' :: tmp).take 4).all isValidIdChar = true := Bool.false_ne_true
    rw [shapeId, if_neg fun h => hvalid h.2, if_neg]
    · rfl
    · rintro ⟨-, hget⟩
      obtain ⟨t, ht⟩ := hpre
      refine hhyphen ?_
      rw [← ht, List.getElem?_append_left (List.getElem?_eq_some_iff.mp hget).1, hget]
  rw [hout]
  exact ite_self none

/-- **A value with a tab in front of it is not read.** -/
theorem bootId_of_tab (h : '\t' ∈ b.blanks) : bootId (cstr b.text) maxLen = none := by
  obtain ⟨pre, post, hblanks, hpre⟩ := List.eq_append_cons_of_mem h
  have hspaces : ∀ c ∈ pre, isLeading c = true := by
    intro c hc
    rcases b.blanks_blank c (by rw [hblanks]; exact List.mem_append_left _ hc) with rfl | rfl
    · rfl
    · exact absurd hc hpre
  have hw : '-' ∉ post ++ (b.device.text ++ b.slashes) := by
    simp only [List.mem_append, not_or]
    refine ⟨fun hc => ?_, ?_, fun hc => absurd (b.slashes_eq _ hc) (by decide)⟩
    · have hmem : '-' ∈ b.blanks := by
        rw [hblanks]
        exact List.mem_append_right _ (List.mem_cons_of_mem _ hc)
      rcases b.blanks_blank _ hmem with h | h <;> exact absurd h (by decide)
    · cases b.device <;> decide
  have hne : b.blanks ≠ [] := List.ne_nil_of_mem h
  have hraw : b.blanks ++ (b.path ++ cstr b.rest) = pre ++ '\t' ::
      ((post ++ (b.device.text ++ b.slashes)) ++ (b.name.text ++ cstr b.rest)) := by
    simp only [hblanks, path, List.append_assoc, List.cons_append]
  have hdrop : (b.blanks ++ (b.path ++ cstr b.rest)).dropWhile isLeading =
      '\t' :: ((post ++ (b.device.text ++ b.slashes)) ++ (b.name.text ++ cstr b.rest)) := by
    rw [hraw]
    refine Text.dropWhile_append_of_all hspaces fun c hc => ?_
    obtain rfl := Option.some.inj hc
    rfl
  rw [b.bootId_eq]
  exact b.retrogemCleanTitleID_of_tab (b.skipPrefix_path (Or.inl hne) _) hdrop hw

end BootText

end Retrogem

end OpenPS2Loader
