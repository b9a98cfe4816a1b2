import Mathlib.Algebra.Order.Group.Nat
import Mathlib.Tactic.IntervalCases
import OpenPS2Loader.EeCore.CheatCodes
import OpenPS2Loader.Lib.WordFields

/-!
# A turn of the cheat engine

What `CodeHandler` does with the lines of a code, and with the line of a condition.

## Main results

* `CheatEngine.turn_code` — a code is done as it is meant
* `CheatEngine.turn_cond` — a condition skips its lines or does not, in both of its forms
-/

namespace OpenPS2Loader

namespace CheatEngine

open WordFields

variable {s : State} {k t p n : ℕ} {v : UInt32} {a : Addr} {o : Operand} {m : Mem}

/-! ### Fields -/

theorem Operand.val_lt (o : Operand) : o.val < 2 ^ 16 := by
  cases o <;> simp only [Operand.val] <;> omega

theorem Operand.testCode_lt (o : Operand) : o.testCode < 2 := by
  cases o <;> simp [Operand.testCode]

theorem Test.code_lt (t : Test) : t.code < 8 := by
  cases t <;> decide

theorem toNat_first (ht : t < 16) (hp : p < 2 ^ 28) : (first t p).toNat = t * 2 ^ 28 + p :=
  toNat_ofNat (by omega)

theorem first_type (ht : t < 16) (hp : p < 2 ^ 28) : (first t p >>> 28).toNat = t := by
  rw [first, high_field (j := 28) rfl (by decide) (by omega) hp, toNat_ofNat (by omega)]

theorem first_addr (t : ℕ) {p : ℕ} : first t p <<< 7 >>> 7 = UInt32.ofNat (p % 2 ^ 25) := by
  have hwrap : UInt32.ofNat ((t * 2 ^ 28 + p) * 2 ^ 7) = UInt32.ofNat (p % 2 ^ 25 * 2 ^ 7) := by
    apply UInt32.toNat_inj.mp
    simp
    omega
  have hshift : first t p <<< 7 = UInt32.ofNat (p % 2 ^ 25 * 2 ^ 7) :=
    (ofNat_shiftLeft (j := 7) rfl (by decide)).trans hwrap
  rw [hshift, ofNat_shiftRight (j := 7) rfl (by decide) (by omega),
    Nat.mul_div_cancel _ (by decide)]

theorem first_ne_zero (ht : t < 16) (hp : p < 2 ^ 28) (h : t ≠ 0 ∨ p ≠ 0) : first t p ≠ 0 := by
  intro h0
  have hnat := toNat_first ht hp
  rw [h0, show (0 : UInt32).toNat = 0 from rfl] at hnat
  omega

/-- The line of a type that is in the table. -/
theorem turn_eq {a₀ : UInt32} {type : State → ℕ → UInt32 → UInt32 → Option (State × Next)}
    (h : s.codelist k = (a₀, v)) (hne : a₀ ≠ 0) (htab : typeTab (a₀ >>> 28).toNat = some type) :
    turn s k = type s k (a₀ <<< 7 >>> 7) v := by
  rw [turn, h]
  dsimp only
  rw [if_neg hne, htab]

theorem turn_first {type : State → ℕ → UInt32 → UInt32 → Option (State × Next)}
    (h : s.codelist k = (first t p, v)) (ht : t < 16) (hp : p < 2 ^ 28) (hne : t ≠ 0 ∨ p ≠ 0)
    (htab : typeTab t = some type) : turn s k = type s k (UInt32.ofNat (p % 2 ^ 25)) v := by
  rw [← first_type ht hp] at htab
  rw [turn_eq h (first_ne_zero ht hp hne) htab, first_addr]

/-- The address of a line is the address of the code. -/
theorem turn_addr {type : State → ℕ → UInt32 → UInt32 → Option (State × Next)}
    (h : s.codelist k = (first t a, v)) (ht : t < 16) (hne : t ≠ 0 ∨ a.val ≠ 0)
    (htab : typeTab t = some type) : turn s k = type s k a.word v := by
  have ha := a.isLt
  rw [turn_first h ht (by omega) hne htab, Nat.mod_eq_of_lt ha, Addr.word]

theorem addr_masked : a.word <<< 7 >>> 7 = a.word := by
  have h : first 0 a <<< 7 >>> 7 = UInt32.ofNat (a % 2 ^ 25) := first_addr 0
  rwa [first, Nat.zero_mul, Nat.zero_add, Nat.mod_eq_of_lt a.isLt] at h

/-! ### Loops -/

theorem word_succ (x y : UInt32) (j : ℕ) :
    x + y + y * UInt32.ofNat j = x + y * UInt32.ofNat (j + 1) := by
  rw [UInt32.ofNat_add, UInt32.mul_add, UInt32.add_assoc, UInt32.add_comm y]
  simp

theorem serialLoop_eq (m : Mem) (a₀ a₁ a₂ a₃ : UInt32) (n : ℕ) :
    serialLoop m a₀ a₁ a₂ a₃ n = (List.range (n + 1)).foldlM
      (fun m j => sw m (a₀ + a₁ * UInt32.ofNat j) (a₂ + a₃ * UInt32.ofNat j)) m := by
  induction n generalizing m a₀ a₂ with
  | zero => simp [serialLoop]
  | succ n ih =>
    rw [serialLoop, List.range_succ_eq_map, List.foldlM_cons]
    simp only [List.foldlM_map, ih, word_succ]
    simp

theorem copyLoop_eq (m : Mem) (a₀ a₂ : UInt32) (n : ℕ) :
    copyLoop m a₀ a₂ n = (List.range (n + 1)).foldl
      (fun m j => sb m (a₂ + UInt32.ofNat j) (lbu m (a₀ + UInt32.ofNat j))) m := by
  induction n generalizing m a₀ a₂ with
  | zero => simp [copyLoop]
  | succ n ih =>
    have hsucc (x : UInt32) (j : ℕ) : x + 1 + UInt32.ofNat j = x + UInt32.ofNat (j + 1) := by
      rw [UInt32.ofNat_add, UInt32.add_assoc, UInt32.add_comm 1]
      rfl
    rw [copyLoop, List.range_succ_eq_map, List.foldl_cons, List.foldl_map]
    simp only [ih, hsucc]
    simp

/-! ### Codes -/

/-- The line of a write is none of zeros. -/
theorem write_ne_zero {w : Width} (hw : (Code.write w a v).Writable) :
    w.code ≠ 0 ∨ a.val ≠ 0 := by
  cases w with
  | byte => exact .inr hw
  | half => exact .inl (by decide)
  | word => exact .inl (by decide)

theorem turn_write (w : Width) (h : s.codelist k = (first w.code a, v))
    (hw : w.code ≠ 0 ∨ a.val ≠ 0) : turn s k = (w.store s.mem a.word v).map (s.wrote k) := by
  cases w with
  | byte => exact turn_addr h (by decide) hw rfl
  | half => exact turn_addr h (by decide) hw rfl
  | word => exact turn_addr h (by decide) hw rfl

/-- The fields of the first word of type 3. -/
theorem type3_fields {q n : ℕ} (hq : q < 8) (hn : n < 2 ^ 16) :
    UInt32.ofNat (q * 2 ^ 20 + n) >>> 20 = UInt32.ofNat q ∧
      UInt32.ofNat (q * 2 ^ 20 + n) &&& 0xffff = UInt32.ofNat n := by
  constructor
  · exact high_field (j := 20) rfl (by decide) (by omega) (by omega)
  · exact low_field (j := 20) (k := 16) (by decide) (by decide) (by omega) hn

theorem add_code_lt (o : Operand) (dec : Bool) : 2 * o.code + dec.toNat < 8 := by
  cases o <;> cases dec <;> simp [Operand.code]

theorem addWord_code_lt (dec : Bool) : 4 + dec.toNat < 8 := by
  cases dec <;> decide

theorem bool_code_lt (op : BoolOp) (o : Operand) : 2 * op.code + o.code < 8 := by
  cases o <;> cases op <;> simp [Operand.code, BoolOp.code]

theorem turn_add (dec : Bool)
    (h : s.codelist k = (first 3 ((2 * o.code + dec.toNat) * 2 ^ 20 + o.val), a.word)) :
    turn s k = ((Code.add o dec a).run s.mem).map (s.wrote k) := by
  have hv := o.val_lt
  have hq := add_code_lt o dec
  rw [turn_first h (by decide) (by omega) (.inl (by decide)) rfl, Nat.mod_eq_of_lt (by omega),
    type3]
  obtain ⟨h₁, h₂⟩ := type3_fields hq hv
  simp only [h₁, h₂, addr_masked]
  cases o with
  | byte v =>
    cases dec <;> simp +decide [Operand.code, Code.run, Operand.load, Operand.store, changed,
      Operand.word]
  | half v =>
    cases dec <;> simp +decide [Operand.code, Code.run, Operand.load, Operand.store, changed,
      Operand.word, Option.map_bind]

theorem turn_addWord (dec : Bool)
    (h : s.codelist k = (first 3 ((4 + dec.toNat) * 2 ^ 20), a.word))
    (h' : s.codelist (k + 1) = (v, 0)) :
    turn s k = ((Code.addWord v dec a).run s.mem).map (s.wrote (k + 1)) := by
  have hq := addWord_code_lt dec
  rw [turn_first h (by decide) (by omega) (.inl (by decide)) rfl, Nat.mod_eq_of_lt (by omega),
    type3]
  obtain ⟨h₁, h₂⟩ := type3_fields hq (n := 0) (by decide)
  simp only [Nat.add_zero] at h₁ h₂
  simp only [h₁, h₂, h', addr_masked]
  cases dec <;> simp +decide [Code.run, changed, Option.map_bind]

/-- The two halves of a word. -/
theorem halves {x y : ℕ} (hx : x < 2 ^ 16) (hy : y < 2 ^ 16) :
    (UInt32.ofNat (x * 2 ^ 16 + y) >>> 16).toNat = x ∧
      UInt32.ofNat (x * 2 ^ 16 + y) &&& 0xffff = UInt32.ofNat y := by
  constructor
  · rw [high_field (j := 16) rfl (by decide) (by omega) hy, toNat_ofNat (by omega)]
  · exact low_field (j := 16) (k := 16) le_rfl (by decide) (by omega) hy

theorem atLeastOnce_eq (n : ℕ) : atLeastOnce n = n - 1 + 1 := by
  rw [atLeastOnce]
  split_ifs <;> omega

theorem turn_serial (n₀ s₀ : Fin (2 ^ 16)) (i : UInt32)
    (h : s.codelist k = (first 4 a, UInt32.ofNat (n₀ * 2 ^ 16 + s₀)))
    (h' : s.codelist (k + 1) = (v, i)) :
    turn s k = ((Code.serial a n₀ s₀ v i).run s.mem).map (s.wrote (k + 1)) := by
  obtain ⟨h₁, h₂⟩ := halves n₀.isLt s₀.isLt
  have hs : UInt32.ofNat s₀ <<< 2 = UInt32.ofNat (4 * s₀) := by
    rw [ofNat_shiftLeft (j := 2) rfl (by decide), Nat.mul_comm, show 2 ^ 2 = 4 from rfl]
  rw [turn_addr h (by decide) (.inl (by decide)) rfl, type4]
  simp only [h', h₁, h₂, hs, serialLoop_eq, ← atLeastOnce_eq, Code.run]

theorem turnsLeft_eq (n₀ : Fin (2 ^ 31)) : turnsLeft (UInt32.ofNat n₀) = n₀ - 1 := by
  have hn := n₀.isLt
  rw [turnsLeft, toNat_ofNat (by omega), if_pos (by omega)]

theorem turn_copy (n₀ : Fin (2 ^ 31)) (d x : UInt32)
    (h : s.codelist k = (first 5 a, UInt32.ofNat n₀)) (h' : s.codelist (k + 1) = (d, x)) :
    turn s k = ((Code.copy a n₀ d).run s.mem).map (s.wrote (k + 1)) := by
  rw [turn_addr h (by decide) (.inl (by decide)) rfl, type5]
  simp only [h', turnsLeft_eq, copyLoop_eq, ← atLeastOnce_eq, Code.run, Option.map_some]

theorem turn_pointer (w : Width) (i : UInt32) (h : s.codelist k = (first 6 a, v))
    (h' : s.codelist (k + 1) = (UInt32.ofNat (w.code * 2 ^ 16), i)) :
    turn s k = ((Code.pointer w a v i).run s.mem).map (s.wrote (k + 1)) := by
  rw [turn_addr h (by decide) (.inl (by decide)) rfl, type6]
  simp only [h', Code.run, Option.map_bind]
  congr 1
  funext x
  by_cases hx : x &&& 0x3ffffffc = 0
  · simp [hx, State.wrote]
  · cases w <;> simp +decide [hx, Width.store]

theorem sb_apply (op : BoolOp) (m : Mem) (a x : UInt32) {y z : UInt32}
    (h : y.toUInt8 = z.toUInt8) : sb m a (op.apply x y) = sb m a (op.apply x z) := by
  simp only [sb]
  cases op <;>
    simp only [BoolOp.apply, UInt32.toUInt8_or, UInt32.toUInt8_and, UInt32.toUInt8_xor, h]

/-- A Boolean operation works on every byte for itself. -/
theorem sh_apply (op : BoolOp) (m : Mem) (a x : UInt32) {y z : UInt32}
    (hlow : y.toUInt8 = z.toUInt8) (hhigh : (y >>> 8).toUInt8 = (z >>> 8).toUInt8) :
    sh m a (op.apply x y) = sh m a (op.apply x z) := by
  simp only [sh, sb]
  cases op <;>
    simp only [BoolOp.apply, UInt32.toUInt8_or, UInt32.toUInt8_and, UInt32.toUInt8_xor,
      UInt32.shiftRight_or, UInt32.shiftRight_and, UInt32.shiftRight_xor, hlow, hhigh]

theorem low_bytes {q n : ℕ} (hq : q < 8) (hn : n < 2 ^ 16) :
    (UInt32.ofNat (q * 2 ^ 20 + n)).toUInt8 = (UInt32.ofNat n).toUInt8 ∧
      (UInt32.ofNat (q * 2 ^ 20 + n) >>> 8).toUInt8 = (UInt32.ofNat n >>> 8).toUInt8 := by
  rw [ofNat_shiftRight (j := 8) rfl (by decide) (by omega),
    ofNat_shiftRight (j := 8) rfl (by decide) (by omega)]
  constructor
  all_goals
    apply UInt8.toNat_inj.mp
    simp only [UInt32.toNat_toUInt8]
    rw [toNat_ofNat (by omega), toNat_ofNat (by omega)]
    omega

/-- The bits of type 7. -/
theorem bool_flags (op : BoolOp) (o : Operand) :
    UInt32.ofNat (2 * op.code + o.code) &&& 6 = UInt32.ofNat (2 * op.code) ∧
      UInt32.ofNat (2 * op.code + o.code) &&& 1 = UInt32.ofNat o.code := by
  cases op <;> cases o <;> simp +decide [Operand.code, BoolOp.code]

theorem turn_bool (op : BoolOp)
    (h : s.codelist k =
      (first 7 a, UInt32.ofNat ((2 * op.code + o.code) * 2 ^ 20 + o.val))) :
    turn s k = ((Code.bool op o a).run s.mem).map (s.wrote k) := by
  have hv := o.val_lt
  have hq := bool_code_lt op o
  obtain ⟨h₁, -⟩ := type3_fields hq hv
  obtain ⟨hlow, hhigh⟩ := low_bytes hq hv
  obtain ⟨h₆, h₀⟩ := bool_flags op o
  have hop (x y : UInt32) : (if UInt32.ofNat (2 * op.code) = 0 then x ||| y
      else if UInt32.ofNat (2 * op.code) = 2 then x &&& y else x ^^^ y) = op.apply x y := by
    cases op <;> rfl
  rw [turn_addr h (by decide) (.inl (by decide)) rfl, type7]
  simp only [h₁, h₆, h₀, hop]
  generalize UInt32.ofNat ((2 * op.code + o.code) * 2 ^ 20 + o.val) = y at hlow hhigh
  cases o with
  | byte v =>
    rw [if_neg (by simp [Operand.code]), sb_apply op s.mem a.word _ hlow]
    rfl
  | half v =>
    rw [if_pos (by simp [Operand.code])]
    simp only [sh_apply op s.mem a.word _ hlow hhigh]
    simp only [Code.run, Operand.load, Operand.store, Option.map_bind]
    rfl

theorem turn_nothing (h : Ignored (s.codelist k)) : turn s k = some (s, .next k) := by
  rw [turn]
  rcases h with h | h
  · rw [if_pos h]
  · split_ifs
    · rfl
    · rw [h]

/-- **A code is done as it is meant.** -/
theorem turn_code {c : Code} (h : Stands s.codelist k c.lines) (hw : c.Writable) :
    turn s k = (c.run s.mem).map (s.wrote (k + (c.lines.length - 1))) := by
  cases c with
  | write w a v => exact turn_write w h.1 (write_ne_zero hw)
  | add o dec a => exact turn_add dec h.1
  | addWord v dec a => exact turn_addWord dec h.1 h.2.1
  | serial a n₀ s₀ v i => exact turn_serial n₀ s₀ i h.1 h.2.1
  | copy a n₀ d => exact turn_copy n₀ d 0 h.1 h.2.1
  | pointer w a v i => exact turn_pointer w i h.1 h.2.1
  | bool op o a => exact turn_bool op h.1
  | nothing l =>
    obtain ⟨rfl, -⟩ := h
    exact turn_nothing hw

/-! ### Conditions -/

/-- The fields of the second word of type D. -/
theorem cond_fields {n t b v : ℕ} (hn : n < 2 ^ 8) (ht : t < 8) (hb : b < 2) (hv : v < 2 ^ 16) :
    UInt32.ofNat (n * 2 ^ 24 + t * 2 ^ 20 + b * 2 ^ 16 + v) >>> 16 &&& 1 = UInt32.ofNat b ∧
    UInt32.ofNat (n * 2 ^ 24 + t * 2 ^ 20 + b * 2 ^ 16 + v) >>> 20 &&& 7 = UInt32.ofNat t ∧
    UInt32.ofNat (n * 2 ^ 24 + t * 2 ^ 20 + b * 2 ^ 16 + v) >>> 24 = UInt32.ofNat n ∧
    UInt32.ofNat (n * 2 ^ 24 + t * 2 ^ 20 + b * 2 ^ 16 + v) &&& 0xffff = UInt32.ofNat v ∧
    UInt32.ofNat (n * 2 ^ 24 + t * 2 ^ 20 + b * 2 ^ 16 + v) &&& 0xff =
      UInt32.ofNat (v % 2 ^ 8) := by
  have hx : n * 2 ^ 24 + t * 2 ^ 20 + b * 2 ^ 16 + v < 2 ^ 32 := by omega
  generalize hgen : n * 2 ^ 24 + t * 2 ^ 20 + b * 2 ^ 16 + v = x at hx
  have hfield {k : UInt32} {i j : ℕ} (hk : k.toNat = i) (hi : i < 32) (hj : j ≤ 32) :
      UInt32.ofNat x >>> k &&& UInt32.ofNat (2 ^ j - 1) = UInt32.ofNat (x / 2 ^ i % 2 ^ j) := by
    rw [ofNat_shiftRight hk hi hx, ofNat_and (Nat.lt_of_le_of_lt (Nat.div_le_self _ _) hx) hj]
  refine ⟨(hfield (i := 16) (j := 1) rfl (by decide) (by decide)).trans ?_,
    (hfield (i := 20) (j := 3) rfl (by decide) (by decide)).trans ?_,
    (ofNat_shiftRight (j := 24) rfl (by decide) hx).trans ?_,
    (ofNat_and (k := 16) hx (by decide)).trans ?_, (ofNat_and (k := 8) hx (by decide)).trans ?_⟩
  all_goals
    congr 1
    omega

theorem skips_eq (t : Test) (x v : UInt32) : skips (UInt32.ofNat t.code) x v = !t.holds x v := by
  have hsub : x - v = 0 ↔ x = v := by
    constructor
    · intro h
      rw [← UInt32.sub_add_cancel x v, h, UInt32.zero_add]
    · rintro rfl
      exact UInt32.sub_self x
  have hle (x v : UInt32) : decide (v ≤ x) = !decide (x < v) := by
    rw [← decide_not, decide_eq_decide]
    exact UInt32.not_lt.symm
  cases t <;> simp [skips, Test.code, Test.holds, hsub, hle]

/-- The lines that a condition with this number goes over. -/
theorem typeD_eq (s : State) (k : ℕ) (t : Test) (o : Operand) (a : Addr) (hn : n < 2 ^ 8) :
    typeD s k a.word
        (UInt32.ofNat (n * 2 ^ 24 + t.code * 2 ^ 20 + o.testCode * 2 ^ 16 + o.val)) =
      (o.load s.mem a.word).map fun x =>
        (s, .next (if t.holds x o.word then k else k + atLeastOnce n)) := by
  have ht := t.code_lt
  have hb := o.testCode_lt
  have hv := o.val_lt
  obtain ⟨h₁, h₂, h₃, h₄, h₅⟩ := cond_fields hn ht hb hv
  have hcount : (if UInt32.ofNat n = 0 then (1 : UInt32) else UInt32.ofNat n).toNat =
      atLeastOnce n := by
    rw [atLeastOnce]
    by_cases h0 : n = 0
    · rw [h0]
      rfl
    · have hne : UInt32.ofNat n ≠ 0 := fun h => h0 (by
        have hnat := congrArg UInt32.toNat h
        rwa [toNat_ofNat (by omega)] at hnat)
      rw [if_neg hne, if_neg h0, toNat_ofNat (by omega)]
  rw [typeD]
  simp only [h₁, h₂, h₃, h₄, h₅, skips_eq, hcount]
  have hskip (x : UInt32) : (if (!t.holds x o.word) = true then k + atLeastOnce n else k) =
      if t.holds x o.word then k else k + atLeastOnce n := by
    cases t.holds x o.word <;> rfl
  cases o with
  | byte v =>
    have hmod : (Operand.byte v).val % 2 ^ 8 = v := Nat.mod_eq_of_lt v.isLt
    rw [if_neg (by simp [Operand.testCode]), hmod]
    exact congrArg (fun j => some (s, Next.next j)) (hskip _)
  | half v =>
    rw [if_pos (by simp [Operand.testCode])]
    show Option.map _ _ = Option.map _ _
    simp only [← hskip]
    rfl

/-- The second word of type D is put together from the words of type E. -/
theorem old_fields {q c p : ℕ} (hq : q < 2 ^ 25) (hc : c < 8) (hp : p < 2 ^ 28) :
    (UInt32.ofNat q &&& (0xffff : UInt32)) ||| ((first c p >>> 28) <<< 20 : UInt32) |||
        ((UInt32.ofNat q >>> 24) <<< 16 : UInt32) ||| ((UInt32.ofNat q >>> 16) <<< 24 : UInt32) =
      UInt32.ofNat (q / 2 ^ 16 % 2 ^ 8 * 2 ^ 24 + (c * 2 ^ 20 + (q / 2 ^ 24 * 2 ^ 16 +
        q % 2 ^ 16))) := by
  have hlow : UInt32.ofNat q &&& (0xffff : UInt32) = UInt32.ofNat (q % 2 ^ 16) :=
    ofNat_and (k := 16) (by omega) (by decide)
  have htest : ((first c p >>> 28) <<< 20 : UInt32) = UInt32.ofNat (c * 2 ^ 20) := by
    rw [first, high_field (j := 28) rfl (by decide) (by omega) hp,
      ofNat_shiftLeft (j := 20) rfl (by decide)]
  have hwidth : ((UInt32.ofNat q >>> 24) <<< 16 : UInt32) = UInt32.ofNat (q / 2 ^ 24 * 2 ^ 16) := by
    rw [ofNat_shiftRight (j := 24) rfl (by decide) (by omega),
      ofNat_shiftLeft (j := 16) rfl (by decide)]
  have hcount : ((UInt32.ofNat q >>> 16) <<< 24 : UInt32) =
      UInt32.ofNat (q / 2 ^ 16 % 2 ^ 8 * 2 ^ 24) := by
    rw [ofNat_shiftRight (j := 16) rfl (by decide) (by omega),
      ofNat_shiftLeft (j := 24) rfl (by decide)]
    apply UInt32.toNat_inj.mp
    rw [toNat_ofNat (n := q / 2 ^ 16 % 2 ^ 8 * 2 ^ 24) (by omega), UInt32.toNat_ofNat']
    omega
  rw [hlow, htest, hwidth, hcount, UInt32.or_assoc (UInt32.ofNat (q % 2 ^ 16)),
    UInt32.or_comm (UInt32.ofNat (c * 2 ^ 20)), ← UInt32.or_assoc (UInt32.ofNat (q % 2 ^ 16)),
    ofNat_or (by omega) (by omega), ofNat_or (by omega) (by omega), ofNat_or (by omega) (by omega)]

/-- A line of type E becomes one of type D. -/
theorem typeE_eq (s : State) (k : ℕ) (t : Test) (o : Operand) (a : Addr) (hn : n < 2 ^ 8) :
    typeE s k (UInt32.ofNat (o.testCode * 2 ^ 24 + n * 2 ^ 16 + o.val)) (first t.code a) =
      typeD { s with codelist := Function.update s.codelist k (condLine t o a n) } k a.word
        (condLine t o a n).2 := by
  have ht := t.code_lt
  have hb := o.testCode_lt
  have hv := o.val_lt
  have ha := a.isLt
  have haddr : first t.code a <<< 7 >>> 7 = a.word := by
    rw [first_addr, Nat.mod_eq_of_lt ha, Addr.word]
  have htype : (0xd0000000 : UInt32) ||| a.word = first 0xd a := by
    rw [UInt32.or_comm]
    exact ofNat_or (m := 13) (k := 28) (by omega) (by omega)
  have hfields := old_fields (q := o.testCode * 2 ^ 24 + n * 2 ^ 16 + o.val) (by omega) ht
    (by omega : a.val < 2 ^ 28)
  have hsnd : (o.testCode * 2 ^ 24 + n * 2 ^ 16 + o.val) / 2 ^ 16 % 2 ^ 8 * 2 ^ 24 +
      (t.code * 2 ^ 20 + ((o.testCode * 2 ^ 24 + n * 2 ^ 16 + o.val) / 2 ^ 24 * 2 ^ 16 +
        (o.testCode * 2 ^ 24 + n * 2 ^ 16 + o.val) % 2 ^ 16)) =
      n * 2 ^ 24 + t.code * 2 ^ 20 + o.testCode * 2 ^ 16 + o.val := by
    omega
  rw [hsnd] at hfields
  rw [typeE]
  simp only [hfields, haddr, htype, condLine]

/-- **A condition skips its lines, or does not.** The line may be written anew. -/
theorem turn_cond {t : Test} (h : IsCond (s.codelist k) t o a n) (hn : n < 2 ^ 8) (hpos : 0 < n) :
    ∃ l, IsCond l t o a n ∧
      turn s k = (o.load s.mem a.word).map fun x =>
        ({ s with codelist := Function.update s.codelist k l },
          .next (if t.holds x o.word then k else k + n)) := by
  obtain ⟨nn, hcount, hline⟩ := h
  have hnn : nn < 2 ^ 8 := by omega
  have honce : atLeastOnce nn = n := by
    rw [atLeastOnce]
    split_ifs <;> omega
  have ht := t.code_lt
  have hb := o.testCode_lt
  have hv := o.val_lt
  refine ⟨condLine t o a nn, ⟨nn, hcount, .inl rfl⟩, ?_⟩
  rcases hline with hline | hline
  · have hsame : Function.update s.codelist k (condLine t o a nn) = s.codelist := by
      rw [← hline, Function.update_eq_self]
    rw [hsame, turn_addr hline (by decide) (.inl (by decide)) rfl, typeD_eq s k t o a hnn, honce]
  · have hold := typeE_eq s k t o a hnn
    rw [first] at hold
    rw [turn_first hline (by decide) (by omega) (.inl (by decide)) rfl, Nat.mod_eq_of_lt (by omega),
      hold, condLine, typeD_eq _ k t o a hnn, honce]

theorem turn_only (h : s.codelist k = onlyLine a v) :
    turn s k = (lw s.mem a.word).map fun x => if x = v then (s, .next k) else (s, .chRet) := by
  rw [turn_addr h (by decide) (.inl (by decide)) rfl, typeC]
  congr 1
  funext x
  by_cases hx : x = v <;> simp [hx]

end CheatEngine

end OpenPS2Loader
