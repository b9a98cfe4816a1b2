import Mathlib.Algebra.BigOperators.Group.List.Basic
import Mathlib.Algebra.Order.BigOperators.Group.List
import Mathlib.Algebra.Order.Group.Nat
import Mathlib.Algebra.Ring.Nat

/-!
# Threads and the permits they hold

The threads of a machine are a list, and `permits` says how many permits of a semaphore a thread
holds at its place. `Semaphore.held` adds them up. A step of one thread replaces one entry of the
list, so that the sum changes by the difference of two numbers; a semaphore with one permit keeps
two threads apart because the sum is at most 1.

The same sum with the number of steps a thread has still to make is a measure of a run.
-/

namespace OpenPS2Loader

namespace Semaphore

variable {α : Type*} (permits : α → ℕ) {l : List α} {a b : α} {i k : ℕ}

/-- The permits that the threads of a list hold. -/
def held (l : List α) : ℕ := (l.map permits).sum

@[simp] theorem held_nil : held permits [] = 0 := rfl

@[simp] theorem held_cons (a : α) (l : List α) :
    held permits (a :: l) = permits a + held permits l := rfl

@[simp] theorem held_append (l l' : List α) :
    held permits (l ++ l') = held permits l + held permits l' := by
  simp [held]

/-- One thread makes a step. -/
theorem held_set (h : l[k]? = some a) :
    held permits (l.set k b) + permits a = held permits l + permits b := by
  induction l generalizing k with
  | nil => simp at h
  | cons c l ih =>
    cases k with
    | zero =>
      simp only [List.getElem?_cons_zero, Option.some.injEq] at h
      subst h
      simp only [List.set_cons_zero, held_cons]
      omega
    | succ k =>
      have hrest := ih (k := k) (by simpa using h)
      simp only [List.set_cons_succ, held_cons]
      omega

theorem le_held (h : a ∈ l) : permits a ≤ held permits l :=
  List.le_sum_of_mem (List.mem_map_of_mem h)

/-- What two threads hold. -/
theorem add_le_held (hne : i ≠ k) (hi : l[i]? = some a) (hk : l[k]? = some b) :
    permits a + permits b ≤ held permits l := by
  induction l generalizing i k with
  | nil => simp at hi
  | cons c l ih =>
    rw [held_cons]
    cases i with
    | zero =>
      cases k with
      | zero => exact absurd rfl hne
      | succ k =>
        simp only [List.getElem?_cons_zero, Option.some.injEq] at hi
        have hb : permits b ≤ held permits l :=
          le_held permits (List.mem_of_getElem? (by simpa using hk))
        subst hi
        omega
    | succ i =>
      cases k with
      | zero =>
        simp only [List.getElem?_cons_zero, Option.some.injEq] at hk
        have ha : permits a ≤ held permits l :=
          le_held permits (List.mem_of_getElem? (by simpa using hi))
        subst hk
        omega
      | succ k =>
        have hrest : permits a + permits b ≤ held permits l :=
          ih (fun h => hne (congrArg (· + 1) h)) (by simpa using hi) (by simpa using hk)
        omega

theorem exists_of_held_pos (h : 0 < held permits l) : ∃ a ∈ l, 0 < permits a := by
  by_contra hnone
  refine absurd (List.sum_eq_zero fun n hn => ?_) h.ne'
  obtain ⟨a, ha, rfl⟩ := List.mem_map.mp hn
  exact Nat.eq_zero_of_not_pos fun hpos => hnone ⟨a, ha, hpos⟩

/-- A semaphore that is taken is held by a thread. -/
theorem exists_holder {p : α → Bool} (h : 0 < held (fun a => (p a).toNat) l) :
    ∃ a ∈ l, p a = true := by
  obtain ⟨a, ha, hpos⟩ := exists_of_held_pos _ h
  refine ⟨a, ha, ?_⟩
  cases hp : p a with
  | true => rfl
  | false =>
    rw [hp] at hpos
    cases hpos

theorem held_eq_zero (h : ∀ a ∈ l, permits a = 0) : held permits l = 0 := by
  refine List.sum_eq_zero fun n hn => ?_
  obtain ⟨a, ha, rfl⟩ := List.mem_map.mp hn
  exact h a ha

/-- The threads are marked, and hold what they held. -/
theorem held_map {f : α → α} (h : ∀ a, permits (f a) = permits a) :
    held permits (l.map f) = held permits l := by
  rw [held, List.map_map]
  exact congrArg _ (List.map_congr_left fun a _ => h a)

end Semaphore

end OpenPS2Loader
