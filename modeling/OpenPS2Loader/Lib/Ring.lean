import Mathlib.Data.List.Range
import Mathlib.Data.Nat.ModEq
import Mathlib.Logic.Function.Basic

/-!
# Windows of a ring

A ring of `N` slots holds a window of a sequence: `n` consecutive elements, the first of them in
slot `rd`, wrapping from the last slot to slot `0`. The lemmas here are the three things a
bounded queue does to such a window: read a prefix of it, write a free slot, and append a block
that was written behind it.

## Main definitions

* `Ring.slots` — the slots of a window, in order
* `Ring.Holds` — the window starting at `rd` holds the first `n` elements of a sequence
-/

namespace OpenPS2Loader

namespace Ring

variable {α : Type*} {N rd n m b : ℕ} {buf : ℕ → α} {f : ℕ → α}

/-- The `n` slots of the window that starts at `rd`, in order. -/
def slots (N rd n : ℕ) : List ℕ := (List.range n).map fun i => (rd + i) % N

@[simp] theorem length_slots (N rd n : ℕ) : (slots N rd n).length = n := by simp [slots]

@[simp] theorem slots_zero (N rd : ℕ) : slots N rd 0 = [] := rfl

theorem slots_succ (N rd n : ℕ) : slots N rd (n + 1) = rd % N :: slots N (rd + 1) n := by
  simp [slots, List.range_succ_eq_map, Function.comp_def, Nat.add_assoc, Nat.add_comm 1]

theorem slots_add (N rd m n : ℕ) : slots N rd (m + n) = slots N rd m ++ slots N (rd + m) n := by
  simp [slots, List.range_add, Function.comp_def, Nat.add_assoc]

theorem slots_mod (N rd n : ℕ) : slots N (rd % N) n = slots N rd n := by simp [slots]

theorem slots_self (N n : ℕ) : slots N N n = slots N 0 n := by
  rw [← slots_mod, Nat.mod_self]

/-- A window that does not wrap is an interval. -/
theorem slots_eq_range' (h : rd + n ≤ N) : slots N rd n = List.range' rd n := by
  rw [slots, List.range'_eq_map_range]
  refine List.map_congr_left fun i hi => Nat.mod_eq_of_lt ?_
  have := List.mem_range.mp hi
  omega

/-- The window starting at `rd` holds the first `n` elements of `f`. -/
def Holds (N : ℕ) (buf : ℕ → α) (rd n : ℕ) (f : ℕ → α) : Prop :=
  ∀ i < n, buf ((rd + i) % N) = f i

theorem holds_zero (N : ℕ) (buf : ℕ → α) (rd : ℕ) (f : ℕ → α) : Holds N buf rd 0 f :=
  fun i hi => absurd hi (Nat.not_lt_zero i)

/-- A window may start a turn later. -/
theorem holds_mod : Holds N buf (rd % N) n f ↔ Holds N buf rd n f := by
  simp only [Holds, Nat.mod_add_mod]

/-- Reading a prefix of a window gives the prefix of the sequence. -/
theorem Holds.map_slots (h : Holds N buf rd n f) (hm : m ≤ n) :
    (slots N rd m).map buf = (List.range m).map f := by
  rw [slots, List.map_map]
  exact List.map_congr_left fun i hi => h i (lt_of_lt_of_le (List.mem_range.mp hi) hm)

/-- Dropping a prefix of the window drops it from the sequence. -/
theorem Holds.drop (h : Holds N buf rd n f) (m : ℕ) :
    Holds N buf ((rd + m) % N) (n - m) fun i => f (m + i) := by
  intro i hi
  rw [Nat.mod_add_mod, Nat.add_assoc]
  exact h (m + i) (by omega)

/-- Two different positions inside one turn of the ring are different slots. -/
theorem slot_ne {i j : ℕ} (hi : i < N) (hj : j < N) (hij : i ≠ j) (rd : ℕ) :
    (rd + i) % N ≠ (rd + j) % N := by
  intro h
  have hmod : i ≡ j [MOD N] := Nat.ModEq.add_left_cancel' rd h
  exact hij (by rwa [Nat.ModEq, Nat.mod_eq_of_lt hi, Nat.mod_eq_of_lt hj] at hmod)

/-- Writing a slot behind the window leaves the window alone. -/
theorem Holds.update (h : Holds N buf rd n f) {k : ℕ} (hk : n ≤ k) (hkN : k < N) (v : α) :
    Holds N (Function.update buf ((rd + k) % N) v) rd n f := by
  intro i hi
  rw [Function.update_of_ne (slot_ne (by omega) hkN (by omega) rd)]
  exact h i hi

/-- A block written behind the window extends it. -/
theorem Holds.append (h : Holds N buf rd n f)
    (hb : ∀ j < b, buf ((rd + n + j) % N) = f (n + j)) : Holds N buf rd (n + b) f := by
  intro i hi
  rcases Nat.lt_or_ge i n with hin | hin
  · exact h i hin
  · obtain ⟨j, rfl⟩ := Nat.exists_eq_add_of_le hin
    rw [← Nat.add_assoc]
    exact hb j (by omega)

end Ring

end OpenPS2Loader
