import Mathlib.Data.List.DropRight

/-!
# Text as lists of characters

C strings and Python strings are read here as lists of characters, without the terminating NUL.
The scanning idioms shared by the modelled parsers are collected once: cutting a text at the first
occurrence of a character (`strchr`), and trimming a class of characters from both ends.

## Main definitions

* `Text` — a text
* `Text.cutAt` — what stands before the first occurrence of a character, and what follows it
* `Text.trim` — a text without the leading and trailing characters of a class
* `Text.find` — where a text occurs in another one first

## Main results

* `Text.cutAt_eq_none` and `Text.cutAt_eq_some` — the two outcomes of a cut
* `Text.find_append_eq_find_drop` — a search that did not succeed can go on where it stopped
-/

namespace OpenPS2Loader

/-- A text: the characters of a string, terminator excluded. -/
abbrev Text := List Char

namespace Text

/-! ### Quantifiers

A quantifier over the characters of a text is decided by going through the text. The instances are
of high priority: there is one for a quantifier over all characters, which goes through all of
them. -/

section Decidable

variable (p : Char → Prop) [DecidablePred p]

instance (priority := high) decidableForallMem (s : Text) : Decidable (∀ c ∈ s, p c) :=
  List.decidableBAll p s

instance (priority := high) decidableExistsMem (s : Text) : Decidable (∃ c ∈ s, p c) :=
  List.decidableBEx p s

instance (priority := high) decidableForallMemOption (o : Option Char) :
    Decidable (∀ c ∈ o, p c) :=
  Option.decidableForallMem o

instance (priority := high) decidableExistsMemOption (o : Option Char) :
    Decidable (∃ c ∈ o, p c) :=
  Option.decidableExistsMem o

end Decidable

/-- The equality of texts, under a name of its own: a definition that looks for a text in a list
refers to it. -/
instance (priority := high) lawfulBEq : LawfulBEq Text := inferInstance

/-! ### Cutting at a character -/

/-- The part of a text before the first occurrence of `c`, and the part after it when there is
one. -/
def cutAt (c : Char) : Text → Text × Option Text
  | [] => ([], none)
  | x :: s => if x = c then ([], some s) else (x :: (cutAt c s).1, (cutAt c s).2)

theorem cutAt_of_not_mem {c : Char} {s : Text} (h : c ∉ s) : cutAt c s = (s, none) := by
  induction s with
  | nil => rfl
  | cons x s ih =>
    rw [List.mem_cons, not_or] at h
    rw [cutAt, if_neg (Ne.symm h.1), ih h.2]

theorem cutAt_append {c : Char} {s : Text} (h : c ∉ s) (r : Text) :
    cutAt c (s ++ c :: r) = (s, some r) := by
  induction s with
  | nil => simp [cutAt]
  | cons x s ih =>
    rw [List.mem_cons, not_or] at h
    rw [List.cons_append, cutAt, if_neg (Ne.symm h.1), ih h.2]

theorem fst_cutAt_append {c : Char} {s : Text} (h : c ∉ s) (t : Text) :
    (cutAt c (s ++ t)).1 = s ++ (cutAt c t).1 := by
  induction s with
  | nil => rfl
  | cons x s ih =>
    rw [List.mem_cons, not_or] at h
    rw [List.cons_append, cutAt, if_neg (Ne.symm h.1), ih h.2, List.cons_append]

theorem cutAt_eq_none {c : Char} {s f : Text} : cutAt c s = (f, none) ↔ s = f ∧ c ∉ f := by
  constructor
  · intro h
    by_cases hs : c ∈ s
    · obtain ⟨a, b, rfl, ha⟩ := List.eq_append_cons_of_mem hs
      simp [cutAt_append ha] at h
    · simp only [cutAt_of_not_mem hs, Prod.mk.injEq, and_true] at h
      exact ⟨h, h ▸ hs⟩
  · rintro ⟨rfl, hf⟩
    exact cutAt_of_not_mem hf

theorem cutAt_eq_some {c : Char} {s f r : Text} :
    cutAt c s = (f, some r) ↔ s = f ++ c :: r ∧ c ∉ f := by
  constructor
  · intro h
    by_cases hs : c ∈ s
    · obtain ⟨a, b, rfl, ha⟩ := List.eq_append_cons_of_mem hs
      rw [cutAt_append ha] at h
      cases h
      exact ⟨rfl, ha⟩
    · simp [cutAt_of_not_mem hs] at h
  · rintro ⟨rfl, hf⟩
    exact cutAt_append hf r

/-- What follows the cut is shorter than the text. -/
theorem length_lt_of_cutAt {c : Char} {s f r : Text} (h : cutAt c s = (f, some r)) :
    r.length < s.length := by
  rw [(cutAt_eq_some.mp h).1, List.length_append, List.length_cons]
  omega

/-- When a text without `c` starts another one, it ends before the first `c` there. -/
theorem prefix_of_append_eq {t u l rest : Text} {c : Char} (h : t ++ u = l ++ c :: rest)
    (hc : c ∉ t) : t <+: l := by
  rcases List.append_eq_append_iff.mp h with ⟨v, hv, -⟩ | ⟨v, hv, hv'⟩
  · exact ⟨v, hv.symm⟩
  · cases v with
    | nil => exact ⟨[], by simpa using hv⟩
    | cons d v =>
      cases hv'
      simp [hv] at hc

theorem take_append_cons (s rest : Text) (c : Char) (j : ℕ) :
    (s ++ c :: rest).take (s.length + 1 + j) = s ++ c :: rest.take j := by
  rw [Nat.add_assoc, List.take_length_add_append, Nat.add_comm 1 j, List.take_succ_cons]

theorem drop_append_cons (s rest : Text) (c : Char) (j : ℕ) :
    (s ++ c :: rest).drop (s.length + 1 + j) = rest.drop j := by
  rw [Nat.add_assoc, ← List.drop_drop, List.drop_left, Nat.add_comm 1 j, List.drop_succ_cons]

/-! ### Trimming -/

/-- A text without the leading and trailing characters that satisfy `p`. -/
def trim (p : Char → Bool) (s : Text) : Text := (s.dropWhile p).rdropWhile p

private theorem dropWhile_congr {p q : Char → Bool} {s : Text} (h : ∀ c ∈ s, p c = q c) :
    s.dropWhile p = s.dropWhile q := by
  induction s with
  | nil => rfl
  | cons x s ih =>
    rw [List.dropWhile_cons, List.dropWhile_cons, h x List.mem_cons_self,
      ih fun c hc => h c (List.mem_cons_of_mem x hc)]

/-- Trimming depends only on how the characters of the text are classified. -/
theorem trim_congr {p q : Char → Bool} {s : Text} (h : ∀ c ∈ s, p c = q c) :
    trim p s = trim q s := by
  rw [trim, trim, dropWhile_congr h, List.rdropWhile, List.rdropWhile, dropWhile_congr]
  intro c hc
  exact h c ((List.dropWhile_sublist q).subset (List.mem_reverse.mp hc))

theorem dropWhile_append_of_all {p : Char → Bool} {b t : Text} (hb : ∀ c ∈ b, p c = true)
    (ht : ∀ c ∈ t.head?, p c = false) : (b ++ t).dropWhile p = t := by
  induction b with
  | nil =>
    cases t with
    | nil => rfl
    | cons c t => exact List.dropWhile_cons_of_neg (by simp [ht c rfl])
  | cons c b ih =>
    rw [List.cons_append, List.dropWhile_cons_of_pos (hb c List.mem_cons_self),
      ih fun d hd => hb d (List.mem_cons_of_mem c hd)]

theorem rdropWhile_append_of_all {p : Char → Bool} {t b : Text} (hb : ∀ c ∈ b, p c = true)
    (ht : ∀ c ∈ t.getLast?, p c = false) : (t ++ b).rdropWhile p = t := by
  rw [List.rdropWhile, List.reverse_append, dropWhile_append_of_all, List.reverse_reverse]
  · exact fun c hc => hb c (List.mem_reverse.mp hc)
  · rwa [List.head?_reverse]

theorem rdropWhile_of_last {p : Char → Bool} {t : Text} (ht : ∀ c ∈ t.getLast?, p c = false) :
    t.rdropWhile p = t := by
  simpa using rdropWhile_append_of_all (p := p) (t := t) (b := []) (by simp) ht

/-! ### Searching -/

/-- The position of the first occurrence of `pat`. -/
def find (pat : Text) : Text → Option ℕ
  | [] => if pat = [] then some 0 else none
  | c :: s => if pat <+: c :: s then some 0 else (find pat s).map (· + 1)

theorem find_eq_some {pat s : Text} {i : ℕ} (h : find pat s = some i) :
    pat <+: s.drop i ∧ i + pat.length ≤ s.length := by
  induction s generalizing i with
  | nil =>
    rw [find] at h
    split_ifs at h with hp
    cases h
    simp [hp]
  | cons c s ih =>
    rw [find] at h
    split_ifs at h with hp
    · cases h
      simpa using ⟨hp, hp.length_le⟩
    · obtain ⟨j, hj, rfl⟩ := Option.map_eq_some_iff.mp h
      obtain ⟨hpre, hlen⟩ := ih hj
      exact ⟨by simpa using hpre, by rw [List.length_cons]; omega⟩

/-- More text behind a match does not move it. -/
theorem find_append_of_eq_some {pat s : Text} {i : ℕ} (h : find pat s = some i) (t : Text) :
    find pat (s ++ t) = some i := by
  induction s generalizing i with
  | nil =>
    rw [find] at h
    split_ifs at h with hp
    cases h
    subst hp
    cases t <;> simp [find]
  | cons c s ih =>
    rw [find] at h
    rw [List.cons_append, find]
    split_ifs at h with hp
    · cases h
      exact if_pos (hp.trans (List.prefix_append (c :: s) t))
    · obtain ⟨j, hj, rfl⟩ := Option.map_eq_some_iff.mp h
      have hlen := (find_eq_some hj).2
      rw [if_neg, ih hj]
      · rfl
      · intro hpre
        rw [← List.cons_append] at hpre
        refine hp (List.prefix_of_prefix_length_le hpre (List.prefix_append _ _) ?_)
        rw [List.length_cons]
        omega

/-- A search may skip the positions where nothing matches. -/
theorem find_eq_find_drop {pat s : Text} (k : ℕ) (hk : k ≤ s.length)
    (h : ∀ i < k, ¬ pat <+: s.drop i) : find pat s = (find pat (s.drop k)).map (· + k) := by
  induction k generalizing s with
  | zero => simp
  | succ k ih =>
    cases s with
    | nil => simp at hk
    | cons c s =>
      have h0 : ¬ pat <+: c :: s := by simpa using h 0 (by omega)
      rw [find, if_neg h0, ih (by simpa using hk), List.drop_succ_cons, Option.map_map]
      · rfl
      · intro i hi
        simpa using h (i + 1) (by omega)

theorem not_prefix_of_find_eq_none {pat s : Text} (h : find pat s = none) (i : ℕ)
    (hi : i ≤ s.length) : ¬ pat <+: s.drop i := by
  induction s generalizing i with
  | nil =>
    rw [find] at h
    split_ifs at h with hp
    simpa using hp
  | cons c s ih =>
    rw [find] at h
    split_ifs at h with hp
    cases i with
    | zero => simpa using hp
    | succ i =>
      rw [List.drop_succ_cons]
      exact ih (Option.map_eq_none_iff.mp h) i (by simpa using hi)

/-- **Resuming a search.** When nothing was found in `s`, the search in a longer text needs to
look only from the last `pat.length - 1` characters of `s` on. -/
theorem find_append_eq_find_drop {pat s : Text} (hpat : pat ≠ []) (h : find pat s = none)
    (t : Text) :
    find pat (s ++ t) = (find pat ((s ++ t).drop (s.length - (pat.length - 1)))).map
      (· + (s.length - (pat.length - 1))) := by
  have hpos := List.length_pos_iff.mpr hpat
  refine find_eq_find_drop _ (by rw [List.length_append]; omega) fun i hi hpre => ?_
  refine not_prefix_of_find_eq_none h i (by omega) ?_
  rw [List.drop_append_of_le_length (by omega)] at hpre
  refine List.prefix_of_prefix_length_le hpre (List.prefix_append _ _) ?_
  rw [List.length_drop]
  omega

end Text

end OpenPS2Loader
