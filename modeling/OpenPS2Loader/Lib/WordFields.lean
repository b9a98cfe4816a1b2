import Mathlib.Algebra.Order.Group.Nat

/-!
# Fields of a word

A word of 32 bits as the number that its fields make up: a shift to the right and a mask take the
fields apart, a shift to the left and a disjunction put them together.

## Main results

* `WordFields.ofNat_shiftRight`, `WordFields.ofNat_shiftLeft`, `WordFields.ofNat_and`
* `WordFields.high_field`, `WordFields.low_field` — the field above a bit, and the one below
* `WordFields.ofNat_or` — two fields that do not meet
-/

namespace OpenPS2Loader

namespace WordFields

theorem toNat_ofNat {n : ℕ} (h : n < 2 ^ 32) : (UInt32.ofNat n).toNat = n :=
  UInt32.toNat_ofNat_of_lt' h

theorem ofNat_shiftRight {n j : ℕ} {k : UInt32} (hk : k.toNat = j) (hj : j < 32)
    (h : n < 2 ^ 32) : UInt32.ofNat n >>> k = UInt32.ofNat (n / 2 ^ j) := by
  have hdiv : n / 2 ^ j < 2 ^ 32 := Nat.lt_of_le_of_lt (Nat.div_le_self _ _) h
  apply UInt32.toNat_inj.mp
  rw [UInt32.toNat_shiftRight, toNat_ofNat h, toNat_ofNat hdiv, hk, Nat.mod_eq_of_lt hj,
    Nat.shiftRight_eq_div_pow]

theorem ofNat_shiftLeft {n j : ℕ} {k : UInt32} (hk : k.toNat = j) (hj : j < 32) :
    UInt32.ofNat n <<< k = UInt32.ofNat (n * 2 ^ j) := by
  apply UInt32.toNat_inj.mp
  rw [UInt32.toNat_shiftLeft, hk]
  simp [Nat.mod_eq_of_lt hj, Nat.shiftLeft_eq]

/-- A mask keeps the low bits. -/
theorem ofNat_and {n k : ℕ} (h : n < 2 ^ 32) (hk : k ≤ 32) :
    UInt32.ofNat n &&& UInt32.ofNat (2 ^ k - 1) = UInt32.ofNat (n % 2 ^ k) := by
  have hle : 2 ^ k ≤ 2 ^ 32 := Nat.pow_le_pow_right (by decide) hk
  have hmod : n % 2 ^ k < 2 ^ k := Nat.mod_lt n (Nat.two_pow_pos k)
  have hmask : 2 ^ k - 1 < 2 ^ 32 := by omega
  apply UInt32.toNat_inj.mp
  rw [UInt32.toNat_and, toNat_ofNat h, toNat_ofNat hmask,
    toNat_ofNat (hmod.trans_le hle), Nat.and_two_pow_sub_one_eq_mod]

theorem high_field {m n j : ℕ} {k : UInt32} (hk : k.toNat = j) (hj : j < 32)
    (h : m * 2 ^ j + n < 2 ^ 32) (hn : n < 2 ^ j) :
    UInt32.ofNat (m * 2 ^ j + n) >>> k = UInt32.ofNat m := by
  rw [ofNat_shiftRight hk hj h, Nat.mul_comm, Nat.mul_add_div (Nat.two_pow_pos j),
    Nat.div_eq_of_lt hn, Nat.add_zero]

/-- The mask may end below bit `j`, as long as the field does too. -/
theorem low_field {m n j k : ℕ} (hk : k ≤ j) (hj : j ≤ 32) (h : m * 2 ^ j + n < 2 ^ 32)
    (hn : n < 2 ^ k) :
    UInt32.ofNat (m * 2 ^ j + n) &&& UInt32.ofNat (2 ^ k - 1) = UInt32.ofNat n := by
  obtain ⟨d, rfl⟩ := Nat.exists_eq_add_of_le hk
  have hmod : (m * 2 ^ (k + d) + n) % 2 ^ k = n := by
    rw [Nat.pow_add, Nat.mul_left_comm, Nat.mul_add_mod, Nat.mod_eq_of_lt hn]
  rw [ofNat_and h (hk.trans hj), hmod]

/-- **Two fields that do not meet make up a number.** -/
theorem ofNat_or {m n k : ℕ} (h : m * 2 ^ k + n < 2 ^ 32) (hn : n < 2 ^ k) :
    UInt32.ofNat n ||| UInt32.ofNat (m * 2 ^ k) = UInt32.ofNat (m * 2 ^ k + n) := by
  have hlow : n < 2 ^ 32 := by omega
  have hhigh : m * 2 ^ k < 2 ^ 32 := by omega
  apply UInt32.toNat_inj.mp
  rw [UInt32.toNat_or, toNat_ofNat hlow, toNat_ofNat hhigh,
    toNat_ofNat h, Nat.or_comm, ← Nat.shiftLeft_eq, Nat.shiftLeft_add_eq_or_of_lt hn]

end WordFields

end OpenPS2Loader
