import Mathlib.Data.List.Nodup

/-!
# The first of each kind

Of the elements with one key, a list keeps the first. A loop that keeps what it has not seen yet
computes it.

## Main definitions

* `firstOf` — the elements whose key does not occur before them
* `firstUnseen` — those whose key was not seen before the list, either

## Main results

* `firstOf_sublist` — what is kept is in the order of the list
* `firstUnseen_cons` — one round of the loop
-/

namespace OpenPS2Loader

variable {α κ : Type*} [DecidableEq κ] {key : α → κ} {a : α} {l : List α}

/-- The elements of a list whose key does not occur before them. -/
def firstOf (key : α → κ) : List α → List α
  | [] => []
  | a :: l => a :: (firstOf key l).filter fun b => key b ≠ key a

theorem firstOf_sublist (key : α → κ) (l : List α) : (firstOf key l).Sublist l := by
  induction l with
  | nil => exact List.Sublist.refl []
  | cons a l ih => exact (List.filter_sublist.trans ih).cons_cons a

theorem firstOf_eq_nil : firstOf key l = [] ↔ l = [] := by
  cases l <;> simp [firstOf]

/-- Elements of one key may be dropped before or after. -/
theorem filter_firstOf (k : κ) (l : List α) :
    (firstOf key l).filter (fun b => key b ≠ k) = firstOf key (l.filter fun b => key b ≠ k) := by
  induction l with
  | nil => rfl
  | cons a l ih =>
    rw [firstOf, List.filter_cons, List.filter_cons, List.filter_filter]
    by_cases ha : key a = k
    · rw [if_neg (by simpa using ha), if_neg (by simpa using ha), ← ih]
      refine List.filter_congr fun b _ => ?_
      rw [ha, Bool.and_self]
    · rw [if_pos (by simpa using ha), if_pos (by simpa using ha), firstOf, ← ih, List.filter_filter]
      congr 1
      exact List.filter_congr fun b _ => Bool.and_comm _ _

/-- What a loop keeps of a list when the keys `seen` were met before. -/
def firstUnseen (key : α → κ) (seen : List κ) (l : List α) : List α :=
  (firstOf key l).filter fun b => key b ∉ seen

theorem firstUnseen_nil (key : α → κ) (l : List α) : firstUnseen key [] l = firstOf key l :=
  List.filter_eq_self.mpr fun _ _ => decide_eq_true List.not_mem_nil

/-- One round of the loop: an element whose key was seen is passed over, and the key of another one
is seen from then on. -/
theorem firstUnseen_cons (seen : List κ) (a : α) (l : List α) :
    firstUnseen key seen (a :: l) =
      if key a ∈ seen then firstUnseen key seen l
      else a :: firstUnseen key (seen ++ [key a]) l := by
  rw [firstUnseen, firstOf, List.filter_cons, List.filter_filter]
  by_cases ha : key a ∈ seen
  · rw [if_neg (by simpa using ha), if_pos ha]
    refine List.filter_congr fun b _ => ?_
    by_cases hb : key b = key a
    · simp [hb, ha]
    · simp [hb]
  · rw [if_pos (by simpa using ha), if_neg ha]
    congr 1
    refine List.filter_congr fun b _ => ?_
    simp [not_or]

end OpenPS2Loader
