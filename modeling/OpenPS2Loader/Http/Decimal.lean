import Mathlib.Data.Nat.Digits.Defs
import OpenPS2Loader.Http.StreamRange
import OpenPS2Loader.Lib.Bytes
import OpenPS2Loader.Lib.CString

/-!
# Decimal numbers of 64 bits

`u64ToDec` and `ParseDecimal` of `httpstream.inc`. The first divides by ten in base `2 ^ 16`, so
that no dividend has more than 32 bits, and has the digits in a scratch array before it copies them
to the caller. The second multiplies by ten with shifts, and fails before the value would leave 64
bits.

## Main definitions

* `u64ToDecInto` — `u64ToDec` with its scratch array and the buffer of the caller
* `parseDecimalCall` — `ParseDecimal` with its cursor and the variable of the caller
* `ofParts` — the value of parts of 16 bits

## Main results

* `u64ToDec_eq`, `parseDecimal_eq`
* `decimal_conversions`
-/

namespace OpenPS2Loader

namespace HttpStream

/-- The first loop of `u64ToDec`: the digits go into `tmp`, last one first. -/
def digitLoop : ℕ → List ℕ → Text → ℕ → Option (Text × ℕ)
  | 0, _, tmp, n => some (tmp, n)
  | fuel + 1, parts, tmp, n =>
    let (parts, rem) := divTen 0 parts
    (Bytes.store tmp n [Char.ofNat (48 + rem)]).bind fun tmp =>
      if parts.all (· == 0) then some (tmp, n + 1) else digitLoop fuel parts tmp (n + 1)

/-- The second loop: the `n` digits in `tmp` go to `out` from `j` on, and a NUL behind them. -/
def copyLoop (tmp : Text) : ℕ → Text → ℕ → Option (Text × ℕ)
  | 0, out, j => (Bytes.store out j [nul]).map fun out => (out, j)
  | n + 1, out, j =>
    tmp[n]?.bind fun c => (Bytes.store out j [c]).bind fun out => copyLoop tmp n out (j + 1)

/-- `u64ToDec`: what it leaves in `out`, and what it returns. It fails when it would write outside
an array. -/
def u64ToDecInto (value : ℕ) (tmp out : Text) : Option (Text × ℕ) :=
  (digitLoop 20 [value >>> 48 &&& 0xFFFF, value >>> 32 &&& 0xFFFF, value >>> 16 &&& 0xFFFF,
    value &&& 0xFFFF] tmp 0).bind fun (tmp, n) => copyLoop tmp n out 0

/-- `ParseDecimal`: what it returns, the cursor and the value. -/
def parseDecimalCall (cursor : Text) (value : ℕ) : ℕ × Text × ℕ :=
  match parseDecimal cursor with
  | some (v, rest) => (1, rest, v)
  | none => (0, cursor, value)

/-! ### Division in parts -/

section Division

variable {parts : List ℕ} {rem fuel : ℕ}

/-- The value of parts of 16 bits, behind the value `v`. -/
def ofParts (v : ℕ) (parts : List ℕ) : ℕ := parts.foldl (fun v part => 2 ^ 16 * v + part) v

theorem ofParts_cons (v part : ℕ) (parts : List ℕ) :
    ofParts v (part :: parts) = ofParts (2 ^ 16 * v + part) parts := rfl

theorem ofParts_eq_zero_iff {v : ℕ} : ofParts v parts = 0 ↔ v = 0 ∧ ∀ part ∈ parts, part = 0 := by
  induction parts generalizing v with
  | nil => simp [ofParts]
  | cons part parts ih =>
    rw [ofParts_cons, ih, List.forall_mem_cons, Nat.add_eq_zero_iff, Nat.mul_eq_zero, and_assoc]
    exact and_congr_left' (or_iff_right (by decide))

/-- **A pass.** The quotient and the remainder are those of the value. -/
theorem divTen_spec (hparts : ∀ part ∈ parts, part < 2 ^ 16) (hrem : rem < 10) :
    (divTen rem parts).2 < 10 ∧ (∀ part ∈ (divTen rem parts).1, part < 2 ^ 16) ∧
      ∀ v, ofParts (10 * v + rem) parts =
        10 * ofParts v (divTen rem parts).1 + (divTen rem parts).2 := by
  induction parts generalizing rem with
  | nil => exact ⟨hrem, by simp [divTen], fun v => rfl⟩
  | cons part parts ih =>
    obtain ⟨hpart, hparts⟩ := List.forall_mem_cons.mp hparts
    have hcur : rem <<< 16 ||| part = 2 ^ 16 * rem + part := by
      rw [← Nat.shiftLeft_add_eq_or_of_lt hpart, Nat.shiftLeft_eq, Nat.mul_comm]
    have hrem : (2 ^ 16 * rem + part) % 10 < 10 := Nat.mod_lt _ (by decide)
    obtain ⟨hlt, hquot, hval⟩ := ih hparts hrem
    simp only [divTen, hcur]
    refine ⟨hlt, List.forall_mem_cons.mpr ⟨by omega, hquot⟩, fun v => ?_⟩
    have hstep : 2 ^ 16 * (10 * v + rem) + part =
        10 * (2 ^ 16 * v + (2 ^ 16 * rem + part) / 10) + (2 ^ 16 * rem + part) % 10 := by
      omega
    rw [ofParts_cons, ofParts_cons, hstep, hval]

theorem digitChar_of_lt : ∀ {n : ℕ}, n < 10 → Char.ofNat (48 + n) = Nat.digitChar n := by
  decide

/-- **The digits.** -/
theorem reverse_decDigits (hparts : ∀ part ∈ parts, part < 2 ^ 16)
    (hlt : ofParts 0 parts < 10 ^ (fuel + 1)) :
    (decDigits (fuel + 1) parts).reverse = Nat.toDigits 10 (ofParts 0 parts) := by
  induction fuel generalizing parts with
  | zero =>
    obtain ⟨hrem, hquot, hval⟩ := divTen_spec hparts (Nat.zero_lt_succ 9)
    have hvalue := hval 0
    simp only [Nat.mul_zero, Nat.zero_add] at hvalue
    have hzero : ofParts 0 (divTen 0 parts).1 = 0 := by omega
    have hall : (divTen 0 parts).1.all (· == 0) = true := by
      simpa using (ofParts_eq_zero_iff.mp hzero).2
    rw [hzero, Nat.mul_zero, Nat.zero_add] at hvalue
    rw [decDigits, hvalue, Nat.toDigits_of_lt_base hrem]
    simp only [hall, if_true, digitChar_of_lt hrem, List.reverse_singleton]
  | succ fuel ih =>
    obtain ⟨hrem, hquot, hval⟩ := divTen_spec hparts (Nat.zero_lt_succ 9)
    have hvalue := hval 0
    simp only [Nat.mul_zero, Nat.zero_add] at hvalue
    rw [decDigits]
    dsimp only
    split_ifs with hall
    · have hzero : ofParts 0 (divTen 0 parts).1 = 0 :=
        ofParts_eq_zero_iff.mpr ⟨rfl, by simpa using hall⟩
      rw [hzero, Nat.mul_zero, Nat.zero_add] at hvalue
      rw [hvalue, Nat.toDigits_of_lt_base hrem, digitChar_of_lt hrem, List.reverse_singleton]
    · have hpos : 0 < ofParts 0 (divTen 0 parts).1 := by
        refine Nat.pos_of_ne_zero fun hzero => hall ?_
        simpa using (ofParts_eq_zero_iff.mp hzero).2
      have hpow : 10 ^ (fuel + 1 + 1) = 10 * 10 ^ (fuel + 1) := Nat.pow_succ'
      rw [List.reverse_cons, ih hquot (by omega), digitChar_of_lt hrem, hvalue,
        ← Nat.toDigits_append_toDigits (by decide) hpos hrem, Nat.toDigits_of_lt_base hrem]

end Division

/-- The parts that `u64ToDec` starts with. -/
theorem ofParts_u64 {value : ℕ} (h : value < 2 ^ 64) :
    ofParts 0 [value >>> 48 &&& 0xFFFF, value >>> 32 &&& 0xFFFF, value >>> 16 &&& 0xFFFF,
      value &&& 0xFFFF] = value := by
  have hmask : ∀ n : ℕ, n &&& 0xFFFF = n % 2 ^ 16 := fun n => Nat.and_two_pow_sub_one_eq_mod n 16
  simp only [ofParts, List.foldl_cons, List.foldl_nil, hmask, Nat.shiftRight_eq_div_pow]
  omega

/-- **`u64ToDec`** writes the decimal digits. -/
theorem u64ToDec_eq {value : ℕ} (h : value < 2 ^ 64) : u64ToDec value = Nat.toDigits 10 value := by
  have hmask : ∀ n : ℕ, n &&& 0xFFFF < 2 ^ 16 := by
    intro n
    rw [show n &&& 0xFFFF = n % 2 ^ 16 from Nat.and_two_pow_sub_one_eq_mod n 16]
    exact Nat.mod_lt _ (by decide)
  have hvalue := ofParts_u64 h
  have hparts : ∀ part ∈ [value >>> 48 &&& 0xFFFF, value >>> 32 &&& 0xFFFF,
      value >>> 16 &&& 0xFFFF, value &&& 0xFFFF], part < 2 ^ 16 := by
    simp only [List.mem_cons, List.not_mem_nil, or_false]
    rintro part (rfl | rfl | rfl | rfl) <;> exact hmask _
  have hlt : ofParts 0 [value >>> 48 &&& 0xFFFF, value >>> 32 &&& 0xFFFF, value >>> 16 &&& 0xFFFF,
      value &&& 0xFFFF] < 10 ^ (19 + 1) := by
    rw [hvalue]
    exact h.trans (by decide)
  rw [u64ToDec, reverse_decDigits hparts hlt, hvalue]

/-! ### The two loops -/

/-- **The first loop.** The digits stand in the scratch array. -/
theorem digitLoop_eq {fuel n : ℕ} {parts : List ℕ} {tmp : Text}
    (h : n + (decDigits fuel parts).length ≤ tmp.length) :
    digitLoop fuel parts tmp n = some (Bytes.overwrite tmp n (decDigits fuel parts),
      n + (decDigits fuel parts).length) := by
  induction fuel generalizing parts tmp n with
  | zero => rw [digitLoop, decDigits, Bytes.overwrite_nil, List.length_nil, Nat.add_zero]
  | succ fuel ih =>
    rw [decDigits] at h
    dsimp only at h
    rw [List.length_cons] at h
    have hd : n + [Char.ofNat (48 + (divTen 0 parts).2)].length ≤ tmp.length := by
      rw [List.length_singleton]
      omega
    rw [digitLoop, decDigits]
    dsimp only
    rw [Bytes.store_of_le hd, Option.bind_some]
    split_ifs at h ⊢ with hall
    · rfl
    · rw [ih (by rw [Bytes.length_overwrite hd]; omega),
        show n + 1 = n + [Char.ofNat (48 + (divTen 0 parts).2)].length from rfl,
        Bytes.overwrite_overwrite _ hd, List.singleton_append, List.length_cons, List.length_nil,
        List.length_cons, Nat.add_assoc, Nat.zero_add, Nat.add_comm 1]

/-- **The second loop** turns them around. -/
theorem copyLoop_eq {tmp : Text} {n : ℕ} (h : n ≤ tmp.length) (out : Text) (j : ℕ) :
    copyLoop tmp n out j =
      (Bytes.store out j ((tmp.take n).reverse ++ [nul])).map (·, j + n) := by
  induction n generalizing out j with
  | zero => rfl
  | succ n ih =>
    have htake : (tmp.take (n + 1)).reverse = tmp[n] :: (tmp.take n).reverse := by
      rw [List.take_succ_eq_append_getElem h, List.reverse_append, List.reverse_singleton,
        List.singleton_append]
    rw [copyLoop, htake, List.cons_append, Bytes.store_cons, List.getElem?_eq_getElem h,
      Option.bind_some, Option.map_bind]
    congr 1
    funext out'
    rw [ih (Nat.le_of_succ_le h), Nat.add_right_comm j 1 n]
    rfl

/-- **The call** stays in its scratch array, and writes the digits and a NUL. -/
theorem u64ToDecInto_eq {value : ℕ} (h : value < 2 ^ 64) {tmp : Text} (htmp : 20 ≤ tmp.length)
    (out : Text) :
    u64ToDecInto value tmp out =
      (Bytes.store out 0 (u64ToDec value ++ [nul])).map (·, (u64ToDec value).length) := by
  have hlen : (u64ToDec value).length ≤ 20 := by
    rw [u64ToDec_eq h]
    exact Nat.toDigits_length 10 value 20 (by decide) (h.trans (by decide))
  have hdigits : 0 + (decDigits 20 [value >>> 48 &&& 0xFFFF, value >>> 32 &&& 0xFFFF,
      value >>> 16 &&& 0xFFFF, value &&& 0xFFFF]).length ≤ tmp.length := by
    rw [u64ToDec, List.length_reverse] at hlen
    omega
  rw [u64ToDecInto, digitLoop_eq hdigits, Option.bind_some]
  dsimp only
  rw [copyLoop_eq]
  · rw [Bytes.take_overwrite hdigits, List.take_zero, List.nil_append, ← u64ToDec, Nat.zero_add,
      Nat.zero_add, u64ToDec, List.length_reverse]
  · rw [Bytes.length_overwrite hdigits]
    exact hdigits

/-! ### Reading -/

/-- `digits` is how the number `v` is written: without a zero in front. -/
structure IsCanonical (digits : Text) (v : ℕ) : Prop extends IsDecimal digits v where
  head : digits.head? = some '0' → digits = ['0']

theorem toDigits_head (v : ℕ) :
    (Nat.toDigits 10 v).head? = some '0' → Nat.toDigits 10 v = ['0'] := by
  induction v using Nat.strongRecOn with
  | ind v ih =>
    intro hhead
    rcases Nat.lt_or_ge v 10 with hlt | hge
    · rw [Nat.toDigits_of_lt_base hlt] at hhead ⊢
      rw [Option.some.inj hhead]
    · -- the number without its last digit is not zero, and starts with the same digit
      rw [Nat.toDigits_of_base_le (by decide) hge, List.head?_append_of_ne_nil _
        Nat.toDigits_ne_nil] at hhead
      have hdiv := ih (v / 10) (by omega) hhead
      have hvalue : v / 10 = 0 := by
        rw [← Nat.ofDigitChars_ten_toDigits (n := v / 10), hdiv]
        rfl
      omega

theorem isCanonical_toDigits {v : ℕ} (h : v < 2 ^ 64) : IsCanonical (Nat.toDigits 10 v) v where
  ne_nil := Nat.toDigits_ne_nil
  isDigit _ hc := Nat.isDigit_of_mem_toDigits (by decide) (by decide) hc
  value := Nat.ofDigitChars_ten_toDigits
  lt := h
  head := toDigits_head v

theorem le_foldl_decimal (digits : Text) (v : ℕ) :
    v ≤ digits.foldl (fun v c => 10 * v + (c.toNat - 48)) v := by
  induction digits generalizing v with
  | nil => exact le_rfl
  | cons c digits ih =>
    rw [List.foldl_cons]
    exact le_trans (by omega) (ih _)

/-- **The loop.** It fails just when the value of the whole run leaves 64 bits. -/
theorem parseDecimalFrom_eq {s : Text} {v : ℕ} (hv : v < 2 ^ 64) :
    parseDecimalFrom v s =
      if (s.takeWhile Char.isDigit).foldl (fun v c => 10 * v + (c.toNat - 48)) v < 2 ^ 64 then
        some ((s.takeWhile Char.isDigit).foldl (fun v c => 10 * v + (c.toNat - 48)) v,
          s.dropWhile Char.isDigit)
      else none := by
  induction s generalizing v with
  | nil => exact (if_pos hv).symm
  | cons c s ih =>
    have hstep : v <<< 3 + v <<< 1 + (c.toNat - 48) = 10 * v + (c.toNat - 48) := by
      rw [Nat.shiftLeft_eq, Nat.shiftLeft_eq]
      omega
    rw [parseDecimalFrom]
    dsimp only
    rw [hstep]
    by_cases hc : c.isDigit = true
    · have hd := digit_le_nine hc
      rw [if_pos hc, List.takeWhile_cons_of_pos hc, List.dropWhile_cons_of_pos hc, List.foldl_cons]
      split_ifs with hover hlt hlt
      · have hle := le_foldl_decimal (s.takeWhile Char.isDigit) (10 * v + (c.toNat - 48))
        omega
      · rfl
      · rw [ih (by omega), if_pos hlt]
      · rw [ih (by omega), if_neg hlt]
    · rw [if_neg hc, List.takeWhile_cons_of_neg hc, List.dropWhile_cons_of_neg hc]
      exact (if_pos hv).symm

/-- **`ParseDecimal`** reads the whole run of digits, or fails. -/
theorem parseDecimal_eq (s : Text) :
    parseDecimal s =
      if s.takeWhile Char.isDigit ≠ [] ∧ decimalValue (s.takeWhile Char.isDigit) < 2 ^ 64 then
        some (decimalValue (s.takeWhile Char.isDigit), s.dropWhile Char.isDigit)
      else none := by
  cases s with
  | nil => rfl
  | cons c s =>
    rw [parseDecimal]
    by_cases hc : c.isDigit = true
    · have hne : (c :: s).takeWhile Char.isDigit ≠ [] := by
        rw [List.takeWhile_cons_of_pos hc]
        exact List.cons_ne_nil _ _
      rw [if_pos hc, parseDecimalFrom_eq (Nat.two_pow_pos 64), if_congr (and_iff_right hne) rfl rfl]
      rfl
    · have hnil : (c :: s).takeWhile Char.isDigit = [] := List.takeWhile_cons_of_neg hc
      rw [if_neg hc, if_neg fun h => h.1 hnil]

/-- A decimal number in front of something else than a digit. -/
theorem IsDecimal.parseDecimal_append {digits rest : Text} {v : ℕ} (h : IsDecimal digits v)
    (hrest : ∀ c ∈ rest.head?, c.isDigit = false) :
    parseDecimal (digits ++ rest) = some (v, rest) := by
  have htake : rest.takeWhile Char.isDigit = [] ∧ rest.dropWhile Char.isDigit = rest := by
    cases rest with
    | nil => exact ⟨rfl, rfl⟩
    | cons c rest =>
      have hc : ¬ c.isDigit = true := by
        rw [hrest c rfl]
        exact Bool.false_ne_true
      exact ⟨List.takeWhile_cons_of_neg hc, List.dropWhile_cons_of_neg hc⟩
  rw [parseDecimal_eq, List.takeWhile_append_of_pos h.isDigit,
    List.dropWhile_append_of_pos h.isDigit, htake.1, htake.2, List.append_nil, h.value,
    if_pos ⟨h.ne_nil, h.lt⟩]

/-- **Numbers of 64 bits in decimal.** `u64ToDec` writes the number as it should be written, and a
NUL, and `ParseDecimal` reads it back. Of any text `ParseDecimal` reads the run of digits that it
starts with, or nothing. -/
theorem decimal_conversions :
    (∀ (value : UInt64) (tmp : Vector Char 24) (out : Text), ∃ digits,
      IsCanonical digits value.toNat ∧ digits.length ≤ 20 ∧
      u64ToDecInto value.toNat tmp.toList out =
        (Bytes.store out 0 (digits ++ [nul])).map (·, digits.length) ∧
      ∀ rest v, (∀ c ∈ rest.head?, c.isDigit = false) →
        parseDecimalCall (digits ++ rest) v = (1, rest, value.toNat)) ∧
    ∀ (cursor : Text) (value : ℕ), parseDecimalCall cursor value =
      if cursor.takeWhile Char.isDigit ≠ [] ∧
          decimalValue (cursor.takeWhile Char.isDigit) ≤ 2 ^ 64 - 1 then
        (1, cursor.dropWhile Char.isDigit, decimalValue (cursor.takeWhile Char.isDigit))
      else (0, cursor, value) := by
  constructor
  · intro value tmp out
    have hcanonical := isCanonical_toDigits value.toNat_lt
    refine ⟨Nat.toDigits 10 value.toNat, hcanonical, ?_, ?_, fun rest v hrest => ?_⟩
    · exact Nat.toDigits_length 10 _ 20 (by decide) (value.toNat_lt.trans (by decide))
    · rw [u64ToDecInto_eq value.toNat_lt (by rw [Vector.length_toList]; decide),
        u64ToDec_eq value.toNat_lt]
    · rw [parseDecimalCall, hcanonical.toIsDecimal.parseDecimal_append hrest]
  · intro cursor value
    rw [parseDecimalCall, parseDecimal_eq]
    by_cases h : cursor.takeWhile Char.isDigit ≠ [] ∧
        decimalValue (cursor.takeWhile Char.isDigit) < 2 ^ 64
    · rw [if_pos h, if_pos ⟨h.1, Nat.le_sub_one_of_lt h.2⟩]
    · have hle : ¬ (cursor.takeWhile Char.isDigit ≠ [] ∧
          decimalValue (cursor.takeWhile Char.isDigit) ≤ 2 ^ 64 - 1) := fun hle =>
        h ⟨hle.1, Nat.lt_of_le_sub_one (Nat.two_pow_pos 64) hle.2⟩
      rw [if_neg h, if_neg hle]

end HttpStream

end OpenPS2Loader
