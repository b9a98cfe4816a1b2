import Mathlib.Data.List.Basic
import Mathlib.Data.Nat.Notation

/-!
# Back references

A sequence grows by copies of what it ends with: `n` entries are appended, each of them the one that
stands `d` places before. The copy may be longer than `d`; the end of the sequence is repeated then.

## Main definitions

* `BackReference.extend`

## Main results

* `BackReference.getElem?_extend_of_le` — the copy has period `d`
-/

namespace OpenPS2Loader

namespace BackReference

variable {α : Type*} {out : List α} {d n i : ℕ}

/-- `n` entries are appended, each of them the one `d` places before. -/
def extend (out : List α) (d : ℕ) : ℕ → List α
  | 0 => out
  | n + 1 => extend out d n ++ ((extend out d n)[(extend out d n).length - d]?).toList

@[simp] theorem extend_zero (out : List α) (d : ℕ) : extend out d 0 = out := rfl

theorem length_extend (hd : 0 < d) (hout : d ≤ out.length) (n : ℕ) :
    (extend out d n).length = out.length + n := by
  induction n with
  | zero => simp
  | succ n ih =>
    have hlt : (extend out d n).length - d < (extend out d n).length := by omega
    rw [extend, List.length_append, List.getElem?_eq_getElem hlt, Option.toList_some,
      List.length_singleton, ih, Nat.add_assoc]

/-- What is there stays. -/
theorem getElem?_extend_succ (hi : i < (extend out d n).length) :
    (extend out d (n + 1))[i]? = (extend out d n)[i]? := by
  rw [extend, List.getElem?_append_left hi]

theorem getElem?_extend_add (hd : 0 < d) (hout : d ≤ out.length) (m : ℕ)
    (hi : i < out.length + n) : (extend out d (n + m))[i]? = (extend out d n)[i]? := by
  induction m with
  | zero => rfl
  | succ m ih =>
    rw [← Nat.add_assoc, getElem?_extend_succ (by rw [length_extend hd hout]; omega), ih]

/-- How far it is extended does not matter. -/
theorem getElem?_extend_congr (n' : ℕ) (hd : 0 < d) (hout : d ≤ out.length)
    (hi : i < out.length + n) (hi' : i < out.length + n') :
    (extend out d n)[i]? = (extend out d n')[i]? := by
  obtain hle | hle := Nat.le_total n n'
  · obtain ⟨m, rfl⟩ := Nat.exists_eq_add_of_le hle
    exact (getElem?_extend_add hd hout m hi).symm
  · obtain ⟨m, rfl⟩ := Nat.exists_eq_add_of_le hle
    exact getElem?_extend_add hd hout m hi'

/-- **The copy has period `d`.** -/
theorem getElem?_extend_of_le (hd : 0 < d) (hout : d ≤ out.length) (hi : out.length ≤ i)
    (hn : i < out.length + n) : (extend out d n)[i]? = (extend out d n)[i - d]? := by
  obtain ⟨k, rfl⟩ := Nat.exists_eq_add_of_le hi
  have hlen := length_extend hd hout k
  have hlt : (extend out d k).length - d < (extend out d k).length := by omega
  rw [getElem?_extend_congr (k + 1) hd hout hn (by omega), extend,
    List.getElem?_append_right (by omega), hlen, Nat.sub_self, ← hlen,
    List.getElem?_eq_getElem hlt]
  simp only [Option.toList_some, List.getElem?_cons_zero]
  rw [← List.getElem?_eq_getElem hlt, hlen]
  exact getElem?_extend_congr _ hd hout (by omega) (by omega)

/-- The bytes of a run. -/
example : extend [1, 2] 1 3 = [1, 2, 2, 2, 2] := by decide

end BackReference

end OpenPS2Loader
