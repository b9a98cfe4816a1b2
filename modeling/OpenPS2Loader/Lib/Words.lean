import Mathlib.Algebra.BigOperators.Group.List.Basic
import Mathlib.Algebra.GroupWithZero.Nat
import Mathlib.Algebra.Order.BigOperators.Group.List
import Mathlib.Algebra.Order.Group.Nat
import Mathlib.Data.List.Perm.Subperm

/-!
# Words and separators

A text is cut into words at the characters of a class, and words are joined with a separator between
each two. Joined words are cut into the same words again.

## Main definitions

* `Words.tokens` — the words of a text
* `Words.joined` — words with a separator between each two
* `Words.weight` — the length of words, each with a separator

## Main results

* `Words.tokens_joined` — the words of joined words
* `Words.length_joined` — how long they are
* `Words.weight_tokens_le`, `Words.weight_le_of_subperm`
-/

namespace OpenPS2Loader

namespace Words

variable {α : Type*} {p : α → Bool} {sep : α}

/-- The words of a text, in their order. -/
def tokens (p : α → Bool) (s : List α) : List (List α) :=
  (s.splitOnP p).filter fun t => !t.isEmpty

/-- Words with a separator between each two. -/
def joined (sep : α) : List (List α) → List α
  | [] => []
  | [t] => t
  | t :: u :: ts => t ++ sep :: joined sep (u :: ts)

/-- The length of words, each with a separator. -/
def weight (ts : List (List α)) : ℕ := (ts.map fun t => t.length + 1).sum

/-- A word is not empty, and has no separator in it. -/
structure IsWord (p : α → Bool) (t : List α) : Prop where
  ne_nil : t ≠ []
  not_sep : ∀ c ∈ t, p c = false

/-! ### Words of a text -/

theorem not_sep_of_mem_splitOnP {s t : List α} (h : t ∈ s.splitOnP p) : ∀ c ∈ t, p c = false := by
  induction s generalizing t with
  | nil =>
    rw [List.splitOnP_nil, List.mem_singleton] at h
    simp [h]
  | cons c s ih =>
    obtain ⟨u, us, hus⟩ := List.exists_cons_of_ne_nil (List.splitOnP_ne_nil p s)
    rw [List.splitOnP_cons_eq_if_modifyHead] at h
    split_ifs at h with hc
    · rcases List.mem_cons.mp h with rfl | h
      · simp
      · exact ih h
    · rw [hus, List.modifyHead_cons] at h
      rw [hus] at ih
      rcases List.mem_cons.mp h with rfl | h
      · intro d hd
        rcases List.mem_cons.mp hd with rfl | hd
        · exact Bool.not_eq_true _ ▸ hc
        · exact ih List.mem_cons_self d hd
      · exact ih (List.mem_cons_of_mem u h)

theorem isWord_of_mem_tokens {s t : List α} (h : t ∈ tokens p s) : IsWord p t := by
  rw [tokens, List.mem_filter] at h
  exact ⟨by simpa using h.2, not_sep_of_mem_splitOnP h.1⟩

@[simp] theorem tokens_nil : tokens p [] = [] := rfl

theorem tokens_append_cons (hsep : p sep = true) (s t : List α) :
    tokens p (s ++ sep :: t) = tokens p s ++ tokens p t := by
  rw [tokens, List.splitOnP_append_cons s t hsep, List.filter_append]
  rfl

theorem tokens_of_isWord {t : List α} (h : IsWord p t) : tokens p t = [t] := by
  rw [tokens, List.splitOnP_eq_singleton h.not_sep]
  simp [h.ne_nil]

theorem joined_cons {t : List α} {ts : List (List α)} (h : ts ≠ []) :
    joined sep (t :: ts) = t ++ sep :: joined sep ts := by
  cases ts with
  | nil => exact absurd rfl h
  | cons u ts => rfl

/-- The words of texts that are joined. -/
theorem tokens_joined_flatMap (hsep : p sep = true) (ts : List (List α)) :
    tokens p (joined sep ts) = ts.flatMap (tokens p) := by
  induction ts with
  | nil => rfl
  | cons t ts ih =>
    by_cases hts : ts = []
    · rw [hts]
      simp [joined]
    · rw [joined_cons hts, tokens_append_cons hsep, ih, List.flatMap_cons]

theorem tokens_joined (hsep : p sep = true) {ts : List (List α)} (h : ∀ t ∈ ts, IsWord p t) :
    tokens p (joined sep ts) = ts := by
  rw [tokens_joined_flatMap hsep]
  induction ts with
  | nil => rfl
  | cons t ts ih =>
    rw [List.flatMap_cons, tokens_of_isWord (h t List.mem_cons_self),
      ih fun u hu => h u (List.mem_cons_of_mem t hu), List.singleton_append]

/-! ### Lengths -/

@[simp] theorem weight_nil : weight ([] : List (List α)) = 0 := rfl

theorem weight_cons (t : List α) (ts : List (List α)) :
    weight (t :: ts) = t.length + 1 + weight ts := by
  rw [weight, List.map_cons, List.sum_cons, weight]

theorem weight_append (ts us : List (List α)) : weight (ts ++ us) = weight ts + weight us := by
  rw [weight, List.map_append, List.sum_append, weight, weight]

theorem length_joined (sep : α) {ts : List (List α)} (h : ts ≠ []) :
    (joined sep ts).length + 1 = weight ts := by
  induction ts with
  | nil => exact absurd rfl h
  | cons t ts ih =>
    rw [weight_cons]
    by_cases hts : ts = []
    · rw [hts]
      simp [joined]
    · rw [joined_cons hts, List.length_append, List.length_cons, ← ih hts]
      omega

/-- How far joined words reach. -/
theorem length_joined_le_iff {ts : List (List α)} {n : ℕ} :
    (joined sep ts).length ≤ n ↔ weight ts ≤ n + 1 := by
  by_cases hts : ts = []
  · rw [hts]
    simp [joined]
  · rw [← length_joined sep hts]
    omega

theorem weight_splitOnP (s : List α) : weight (s.splitOnP p) = s.length + 1 := by
  induction s with
  | nil => rfl
  | cons c s ih =>
    rw [List.splitOnP_cons_eq_if_modifyHead, List.length_cons]
    split_ifs
    · rw [weight_cons, ih, List.length_nil]
      omega
    · rcases hs : s.splitOnP p with _ | ⟨t, ts⟩
      · exact absurd hs (List.splitOnP_ne_nil p s)
      · rw [hs] at ih
        rw [List.modifyHead_cons, weight_cons, List.length_cons]
        rw [weight_cons] at ih
        omega

theorem weight_le_of_subperm {ts us : List (List α)} (h : ts.Subperm us) :
    weight ts ≤ weight us := by
  obtain ⟨vs, hperm, hsub⟩ := h
  have hsum := (hsub.map fun t : List α => t.length + 1).sum_le_sum fun _ _ => Nat.zero_le _
  calc weight ts = weight vs := (hperm.map fun t : List α => t.length + 1).sum_eq.symm
    _ ≤ weight us := hsum

theorem weight_tokens_le (s : List α) : weight (tokens p s) ≤ s.length + 1 := by
  rw [← weight_splitOnP (p := p)]
  exact weight_le_of_subperm List.filter_sublist.subperm

end Words

end OpenPS2Loader
