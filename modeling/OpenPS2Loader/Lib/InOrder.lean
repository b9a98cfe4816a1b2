import Mathlib.Data.List.Basic
import Mathlib.Data.List.Range
import Mathlib.Data.Nat.ModEq

/-!
# Packets taken in order

A receiver that takes the packets of a sequence in order, and drops every packet that is not the
next one. The packets carry their positions modulo `N`; this is enough when no packet is `N` or more
positions away from the one that is expected.

## Main definitions

* `InOrder.advance` — how many packets have been taken

## Main results

* `InOrder.add_le_advance` — packets that arrive in order are taken, whatever arrives between them
* `InOrder.number_eq_iff` — numbers modulo `N` are as good as positions in the window
-/

namespace OpenPS2Loader

namespace InOrder

variable {k n i N : ℕ} {l : List ℕ}

/-- How many packets have been taken when `k` had been, and then the packets at `l` arrived. -/
def advance : ℕ → List ℕ → ℕ
  | k, [] => k
  | k, i :: l => advance (if i = k then k + 1 else k) l

@[simp] theorem advance_nil (k : ℕ) : advance k [] = k := rfl

theorem advance_cons_self (k : ℕ) (l : List ℕ) : advance k (k :: l) = advance (k + 1) l := by
  rw [advance, if_pos rfl]

theorem advance_cons_of_ne (h : i ≠ k) (l : List ℕ) : advance k (i :: l) = advance k l := by
  rw [advance, if_neg h]

theorem advance_append (k : ℕ) (l l' : List ℕ) :
    advance k (l ++ l') = advance (advance k l) l' := by
  induction l generalizing k with
  | nil => rfl
  | cons i l ih => exact ih _

theorem le_advance (k : ℕ) (l : List ℕ) : k ≤ advance k l := by
  induction l generalizing k with
  | nil => exact Nat.le_refl k
  | cons i l ih =>
    refine Nat.le_trans ?_ (ih _)
    split_ifs <;> omega

/-- **Progress.** What arrives in order is taken. -/
theorem add_le_advance (h : (List.range' k n).Sublist l) : k + n ≤ advance k l := by
  induction l generalizing k n with
  | nil =>
    rw [List.sublist_nil, List.range'_eq_nil_iff] at h
    rw [h]
    exact Nat.le_refl k
  | cons i l ih =>
    cases n with
    | zero => exact le_advance k (i :: l)
    | succ n =>
      rw [List.range'_succ] at h
      by_cases hi : i = k
      · subst hi
        rw [advance_cons_self, Nat.add_comm n, ← Nat.add_assoc]
        exact ih (List.cons_sublist_cons.mp h)
      · rw [advance_cons_of_ne hi]
        refine ih ?_
        rw [List.range'_succ]
        exact List.Sublist.of_cons_of_ne (Ne.symm hi) h

/-- Two positions less than `N` apart have different numbers. -/
theorem number_eq_iff (h : i < k + N) (h' : k < i + N) : i % N = k % N ↔ i = k := by
  refine ⟨fun heq => ?_, fun heq => by rw [heq]⟩
  obtain hle | hle := Nat.le_total i k
  · have hmod : (k - i) % N = 0 := Nat.sub_mod_eq_zero_of_mod_eq heq.symm
    rw [Nat.mod_eq_of_lt (by omega)] at hmod
    omega
  · have hmod : (i - k) % N = 0 := Nat.sub_mod_eq_zero_of_mod_eq heq
    rw [Nat.mod_eq_of_lt (by omega)] at hmod
    omega

/-- The packets 1 and 2 are taken, although 2 came first. -/
example : advance 1 [2, 0, 1, 1, 2] = 3 := by decide

end InOrder

end OpenPS2Loader
