import Mathlib.Algebra.Group.Nat.Defs
import Mathlib.Data.List.TakeWhile

/-!
# Scanning decimal numbers

The parts of `sscanf` that read decimal numbers from bytes. A byte that is not part of what is
scanned ends it, so the NUL at the end of a string needs no case of its own.

## Main definitions

* `Scan.skipSpace` — a white-space directive
* `Scan.scanInt` — a `%d` directive, with what is left
* `Scan.decimal` — the text of a number
* `Scan.sscanf` — a format of `%d`, white space and other bytes
* `Scan.decimal02`, `Scan.hexDigits` — `%02d`, and hexadecimal digits of a fixed number

## Main results

* `Scan.scanInt_decimal` — what is written is read back
* `Scan.decimal02_injective`
-/

namespace OpenPS2Loader

namespace Scan

/-- `isspace` -/
def isSpace (c : UInt8) : Bool := (9 ≤ c && c ≤ 13) || c == 32

/-- `isdigit` -/
def isDigit (c : UInt8) : Bool := 48 ≤ c && c ≤ 57

def skipSpace (l : List UInt8) : List UInt8 := l.dropWhile isSpace

/-- The number of some digits. -/
def digitsValue (l : List UInt8) : ℕ := l.foldl (fun n d => 10 * n + (d.toNat - 48)) 0

/-- Digits, at least one of them. -/
def scanNat (l : List UInt8) : Option (ℕ × List UInt8) :=
  if l.takeWhile isDigit = [] then none
  else some (digitsValue (l.takeWhile isDigit), l.dropWhile isDigit)

/-- Digits behind a sign. -/
def scanSigned : List UInt8 → Option (ℤ × List UInt8)
  | [] => none
  | c :: l =>
    if c = 45 then (scanNat l).map fun r => (-(r.1 : ℤ), r.2)
    else if c = 43 then (scanNat l).map fun r => ((r.1 : ℤ), r.2)
    else (scanNat (c :: l)).map fun r => ((r.1 : ℤ), r.2)

/-- `%d` -/
def scanInt (l : List UInt8) : Option (ℤ × List UInt8) := scanSigned (skipSpace l)

theorem skipSpace_cons_of_space {c : UInt8} (h : isSpace c = true) (l : List UInt8) :
    skipSpace (c :: l) = skipSpace l := List.dropWhile_cons_of_pos h

theorem skipSpace_cons_of_not_space {c : UInt8} (h : isSpace c = false) (l : List UInt8) :
    skipSpace (c :: l) = c :: l :=
  List.dropWhile_cons_of_neg (by rw [h]; exact Bool.false_ne_true)

theorem scanInt_cons_of_space {c : UInt8} (h : isSpace c = true) (l : List UInt8) :
    scanInt (c :: l) = scanInt l := by
  rw [scanInt, skipSpace_cons_of_space h, scanInt]

/-! ### Writing numbers -/

/-- The digits of a number, with fuel. -/
def decimalFrom : ℕ → ℕ → List UInt8
  | 0, _ => []
  | fuel + 1, n =>
    if n < 10 then [UInt8.ofNat (48 + n)]
    else decimalFrom fuel (n / 10) ++ [UInt8.ofNat (48 + n % 10)]

/-- The text of a number. -/
def decimal (n : ℕ) : List UInt8 := decimalFrom (n + 1) n

theorem toNat_digit {d : ℕ} (h : d < 10) : (UInt8.ofNat (48 + d)).toNat = 48 + d := by
  rw [UInt8.toNat_ofNat']
  omega

theorem isDigit_digit {d : ℕ} (h : d < 10) : isDigit (UInt8.ofNat (48 + d)) = true := by
  rw [isDigit, Bool.and_eq_true, decide_eq_true_eq, decide_eq_true_eq, UInt8.le_iff_toNat_le,
    UInt8.le_iff_toNat_le, toNat_digit h]
  exact ⟨Nat.le_add_right _ _, by change 48 + d ≤ 57; omega⟩

theorem isDigit_of_mem_decimalFrom {fuel n : ℕ} {c : UInt8} (h : c ∈ decimalFrom fuel n) :
    isDigit c = true := by
  induction fuel generalizing n with
  | zero => cases h
  | succ fuel ih =>
    rw [decimalFrom] at h
    split_ifs at h with hn
    · obtain rfl := List.mem_singleton.mp h
      exact isDigit_digit hn
    · obtain h | h := List.mem_append.mp h
      · exact ih h
      · obtain rfl := List.mem_singleton.mp h
        exact isDigit_digit (Nat.mod_lt n (by decide))

theorem digitsValue_concat (l : List UInt8) {d : ℕ} (h : d < 10) :
    digitsValue (l ++ [UInt8.ofNat (48 + d)]) = 10 * digitsValue l + d := by
  rw [digitsValue, List.foldl_append, ← digitsValue, List.foldl_cons, List.foldl_nil, toNat_digit h]
  omega

theorem digitsValue_decimalFrom {fuel n : ℕ} (h : n < fuel) :
    digitsValue (decimalFrom fuel n) = n := by
  induction fuel generalizing n with
  | zero => exact absurd h (Nat.not_lt_zero n)
  | succ fuel ih =>
    rw [decimalFrom]
    split_ifs with hn
    · have hone := digitsValue_concat [] hn
      rw [List.nil_append] at hone
      rw [hone]
      exact Nat.zero_add n
    · rw [digitsValue_concat _ (Nat.mod_lt n (by decide)), ih (by omega)]
      omega

theorem length_decimalFrom_le (fuel : ℕ) {n k : ℕ} (hk : 0 < k) (h : n < 10 ^ k) :
    (decimalFrom fuel n).length ≤ k := by
  induction fuel generalizing n k with
  | zero => exact Nat.zero_le k
  | succ fuel ih =>
    rw [decimalFrom]
    split_ifs with hn
    · exact hk
    · obtain ⟨j, rfl⟩ := Nat.exists_eq_succ_of_ne_zero (Nat.ne_of_gt hk)
      have hj : 0 < j := Nat.pos_of_ne_zero fun h0 => by
        rw [h0, Nat.pow_one] at h
        omega
      have hdiv : n / 10 < 10 ^ j := Nat.div_lt_of_lt_mul (by rwa [Nat.pow_succ'] at h)
      have hle := ih hj hdiv
      rw [List.length_append, List.length_singleton]
      omega

theorem decimal_ne_nil (n : ℕ) : decimal n ≠ [] := by
  rw [decimal, decimalFrom]
  split_ifs <;> simp

/-- A digit is neither white space nor a sign. -/
theorem digit_bounds {d : UInt8} (hd : isDigit d = true) : 48 ≤ d.toNat ∧ d.toNat ≤ 57 := by
  rw [isDigit, Bool.and_eq_true, decide_eq_true_eq, decide_eq_true_eq, UInt8.le_iff_toNat_le,
    UInt8.le_iff_toNat_le] at hd
  exact hd

theorem isSpace_of_isDigit {d : UInt8} (hd : isDigit d = true) : isSpace d = false := by
  have hrange := digit_bounds hd
  rw [Bool.eq_false_iff]
  intro h
  rw [isSpace, Bool.or_eq_true, Bool.and_eq_true, decide_eq_true_eq, decide_eq_true_eq,
    UInt8.le_iff_toNat_le, UInt8.le_iff_toNat_le, beq_iff_eq, ← UInt8.toNat_inj] at h
  obtain ⟨-, h⟩ | h := h
  · have : d.toNat ≤ 13 := h
    omega
  · have : d.toNat = 32 := h
    omega

theorem isDigit_of_mem_decimal {n : ℕ} {d : UInt8} (h : d ∈ decimal n) : isDigit d = true :=
  isDigit_of_mem_decimalFrom h

/-- A number starts with a digit. -/
theorem exists_decimal_eq_cons (n : ℕ) : ∃ d ds, decimal n = d :: ds ∧ isDigit d = true := by
  obtain ⟨d, ds, hds⟩ := List.exists_cons_of_ne_nil (decimal_ne_nil n)
  exact ⟨d, ds, hds, isDigit_of_mem_decimal (by rw [hds]; exact List.mem_cons_self)⟩

/-- **What is written is read back**, up to a byte that is no digit or to the end. -/
theorem scanInt_decimal_append (n : ℕ) (l : List UInt8) (hl : ∀ c ∈ l.head?, isDigit c = false) :
    scanInt (decimal n ++ l) = some ((n : ℤ), l) := by
  have hdigits : ∀ d ∈ decimal n, isDigit d = true := fun d hd => isDigit_of_mem_decimal hd
  have htakel : l.takeWhile isDigit = [] := by
    cases l with
    | nil => rfl
    | cons c l =>
      rw [List.takeWhile_cons_of_neg]
      rw [hl c rfl]
      exact Bool.false_ne_true
  have hdropl : l.dropWhile isDigit = l := by
    cases l with
    | nil => rfl
    | cons c l =>
      rw [List.dropWhile_cons_of_neg]
      rw [hl c rfl]
      exact Bool.false_ne_true
  have htake : (decimal n ++ l).takeWhile isDigit = decimal n := by
    rw [List.takeWhile_append_of_pos hdigits, htakel, List.append_nil]
  have hdrop : (decimal n ++ l).dropWhile isDigit = l := by
    rw [List.dropWhile_append_of_pos hdigits, hdropl]
  have hvalue : digitsValue (decimal n) = n := digitsValue_decimalFrom (Nat.lt_succ_self n)
  obtain ⟨d, ds, hds, hd⟩ := exists_decimal_eq_cons n
  rw [hds] at htake hdrop hvalue ⊢
  rw [List.cons_append] at htake hdrop ⊢
  have hrange := digit_bounds hd
  have hminus : d ≠ 45 := fun h => by
    have : d.toNat = 45 := by rw [h]; rfl
    omega
  have hplus : d ≠ 43 := fun h => by
    have : d.toNat = 43 := by rw [h]; rfl
    omega
  rw [scanInt, skipSpace_cons_of_not_space (isSpace_of_isDigit hd), scanSigned, if_neg hminus,
    if_neg hplus, scanNat, htake, hdrop, hvalue, if_neg (List.cons_ne_nil d ds), Option.map_some]

theorem scanInt_decimal (n : ℕ) {c : UInt8} (hc : isDigit c = false) (l : List UInt8) :
    scanInt (decimal n ++ c :: l) = some ((n : ℤ), c :: l) :=
  scanInt_decimal_append n (c :: l) fun _ hd => by
    rw [← Option.some.inj hd]
    exact hc

/-! ### Formats -/

/-- A directive of `sscanf`. -/
inductive Directive
  | int
  | space
  | lit (c : UInt8)
  deriving DecidableEq

/-- `sscanf`: the values that are converted before something does not match. -/
def sscanf : List Directive → List UInt8 → List ℤ
  | [], _ => []
  | .int :: ds, l =>
    match scanInt l with
    | none => []
    | some (v, l) => v :: sscanf ds l
  | .space :: ds, l => sscanf ds (skipSpace l)
  | .lit _ :: _, [] => []
  | .lit c :: ds, x :: l => if x = c then sscanf ds l else []

theorem sscanf_int_decimal (ds : List Directive) (n : ℕ) (l : List UInt8)
    (hl : ∀ c ∈ l.head?, isDigit c = false) :
    sscanf (.int :: ds) (decimal n ++ l) = (n : ℤ) :: sscanf ds l := by
  rw [sscanf, scanInt_decimal_append n l hl]

theorem sscanf_lit (ds : List Directive) (c : UInt8) (l : List UInt8) :
    sscanf (.lit c :: ds) (c :: l) = sscanf ds l := by
  rw [sscanf, if_pos rfl]

/-- White space is skipped, and a number behind it is read. -/
theorem sscanf_space_decimal (ds : List Directive) {c : UInt8} (hc : isSpace c = true) (n : ℕ)
    (l : List UInt8) :
    sscanf (.space :: ds) (c :: (decimal n ++ l)) = sscanf ds (decimal n ++ l) := by
  obtain ⟨d, e, hd, hdigit⟩ := exists_decimal_eq_cons n
  rw [sscanf, skipSpace_cons_of_space hc, hd, List.cons_append,
    skipSpace_cons_of_not_space (isSpace_of_isDigit hdigit)]

/-- `%02d` of a number that is not negative. -/
def decimal02 (n : ℕ) : List UInt8 :=
  List.replicate (2 - (decimal n).length) 48 ++ decimal n

theorem digitsValue_replicate_zero (k : ℕ) (l : List UInt8) :
    digitsValue (List.replicate k 48 ++ l) = digitsValue l := by
  induction k with
  | zero => rfl
  | succ k ih => rw [List.replicate_succ, List.cons_append, digitsValue, List.foldl_cons]; exact ih

theorem decimal02_injective : Function.Injective decimal02 := by
  intro m n h
  have hvalue : ∀ k, digitsValue (decimal02 k) = k := by
    intro k
    rw [decimal02, digitsValue_replicate_zero, decimal,
      digitsValue_decimalFrom (Nat.lt_succ_self k)]
  rw [← hvalue m, ← hvalue n, h]

theorem isDigit_of_mem_decimal02 {n : ℕ} {c : UInt8} (h : c ∈ decimal02 n) : isDigit c = true := by
  obtain h | h := List.mem_append.mp h
  · rw [List.eq_of_mem_replicate h]
    rfl
  · exact isDigit_of_mem_decimalFrom h

/-- The `k` lowest hexadecimal digits of a number; the digit ten is `a`. -/
def hexDigits (a : UInt8) : ℕ → ℕ → List UInt8
  | 0, _ => []
  | k + 1, n => hexDigits a k (n / 16) ++
      [if n % 16 < 10 then UInt8.ofNat (48 + n % 16) else a + UInt8.ofNat (n % 16 - 10)]

@[simp] theorem length_hexDigits (a : UInt8) (k n : ℕ) : (hexDigits a k n).length = k := by
  induction k generalizing n with
  | zero => rfl
  | succ k ih => rw [hexDigits, List.length_append, ih, List.length_singleton]

end Scan

end OpenPS2Loader
