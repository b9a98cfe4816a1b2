import Mathlib.Algebra.Group.Nat.Defs
import Mathlib.Data.Fin.Basic
import OpenPS2Loader.EeCore.CheatEngine

/-!
# Cheat codes

What the comments in `cheat_engine.S` say of the code types, as a language: codes that change the
memory, conditions that guard the codes in their body, and conditions that guard all that follows.
`Program.exec` is what a program means. `Holds` says that a program stands in a code list, in the
format of the comments; a condition may be written in the form of type D or in that of type E.

## Main definitions

* `CheatEngine.Code`, `CheatEngine.Program`
* `Code.run`, `Program.exec` — what they mean
* `Code.lines`, `CheatEngine.Holds` — how they are written
-/

namespace OpenPS2Loader

namespace CheatEngine

/-! ### Values -/

/-- A line of the code list: two words. -/
abbrev Line : Type := UInt32 × UInt32

/-- An address in a code, of 25 bits. -/
abbrev Addr : Type := Fin (2 ^ 25)

/-- The address as a word. -/
def Addr.word (a : Addr) : UInt32 := UInt32.ofNat a.val

/-- How much a code writes. -/
inductive Width
  | byte
  | half
  | word
  deriving DecidableEq

/-- The number of a width in a code. -/
def Width.code : Width → ℕ
  | .byte => 0
  | .half => 1
  | .word => 2

/-- A value is stored; of a short one the low bytes. -/
def Width.store : Width → Mem → UInt32 → UInt32 → Option Mem
  | .byte, m, a, v => some (sb m a v)
  | .half, m, a, v => sh m a v
  | .word, m, a, v => sw m a v

/-- A value of 8 or of 16 bits. -/
inductive Operand
  | byte (v : Fin (2 ^ 8))
  | half (v : Fin (2 ^ 16))
  deriving DecidableEq

/-- The value. -/
def Operand.val : Operand → ℕ
  | .byte v => v.val
  | .half v => v.val

def Operand.word (o : Operand) : UInt32 := UInt32.ofNat o.val

/-- What lies in memory where the operand goes. -/
def Operand.load : Operand → Mem → UInt32 → Option UInt32
  | .byte _, m, a => some (lbu m a)
  | .half _, m, a => lhu m a

/-- A value is stored where the operand goes. -/
def Operand.store : Operand → Mem → UInt32 → UInt32 → Option Mem
  | .byte _, m, a, v => some (sb m a v)
  | .half _, m, a, v => sh m a v

/-! ### What codes mean -/

/-- A Boolean operation. -/
inductive BoolOp
  | or
  | and
  | xor
  deriving DecidableEq

def BoolOp.code : BoolOp → ℕ
  | .or => 0
  | .and => 1
  | .xor => 2

def BoolOp.apply : BoolOp → UInt32 → UInt32 → UInt32
  | .or, x, v => x ||| v
  | .and, x, v => x &&& v
  | .xor, x, v => x ^^^ v

/-- A test condition. -/
inductive Test
  | equal
  | notEqual
  | lessThan
  | greaterThan
  | nand
  | and
  | nor
  | or
  deriving DecidableEq

def Test.code : Test → ℕ
  | .equal => 0
  | .notEqual => 1
  | .lessThan => 2
  | .greaterThan => 3
  | .nand => 4
  | .and => 5
  | .nor => 6
  | .or => 7

/-- The condition, for the value `x` in memory and the value `v` of the code. -/
def Test.holds : Test → UInt32 → UInt32 → Bool
  | .equal, x, v => x = v
  | .notEqual, x, v => x ≠ v
  | .lessThan, x, v => x < v
  | .greaterThan, x, v => v < x
  | .nand, x, v => x &&& v = 0
  | .and, x, v => x &&& v ≠ 0
  | .nor, x, v => x ||| v = 0
  | .or, x, v => x ||| v ≠ 0

/-- A code that changes the memory, or does nothing. -/
inductive Code
  /-- constant write -/
  | write (w : Width) (a : Addr) (v : UInt32)
  /-- increment, decrement -/
  | add (o : Operand) (dec : Bool) (a : Addr)
  /-- 32-bit increment, decrement -/
  | addWord (v : UInt32) (dec : Bool) (a : Addr)
  /-- 32-bit constant serial write -/
  | serial (a : Addr) (n s : Fin (2 ^ 16)) (v i : UInt32)
  /-- copy bytes -/
  | copy (s : Addr) (n : Fin (2 ^ 31)) (d : UInt32)
  /-- pointer write -/
  | pointer (w : Width) (a : Addr) (v i : UInt32)
  /-- Boolean operation -/
  | bool (op : BoolOp) (o : Operand) (a : Addr)
  /-- a line without an address, or of a type that is not in the table -/
  | nothing (l : Line)

/-- The engine tests a count at the end of its loop. -/
def atLeastOnce (n : ℕ) : ℕ := if n = 0 then 1 else n

/-- The value at `x` is changed by `v`. -/
def changed (dec : Bool) (x v : UInt32) : UInt32 := if dec then x - v else x + v

/-- What a code makes of the memory. An access that is not aligned has no result. -/
def Code.run : Code → Mem → Option Mem
  | .write w a v, m => w.store m a.word v
  | .add o dec a, m => (o.load m a.word).bind fun x => o.store m a.word (changed dec x o.word)
  | .addWord v dec a, m => (lw m a.word).bind fun x => sw m a.word (changed dec x v)
  | .serial a n s v i, m =>
    (List.range (atLeastOnce n)).foldlM
      (fun m j => sw m (a.word + UInt32.ofNat (4 * s) * UInt32.ofNat j) (v + i * UInt32.ofNat j)) m
  | .copy s n d, m =>
    some ((List.range (atLeastOnce n)).foldl
      (fun m j => sb m (d + UInt32.ofNat j) (lbu m (s.word + UInt32.ofNat j))) m)
  | .pointer w a v i, m =>
    (lw m a.word).bind fun x =>
      if x &&& 0x3ffffffc = 0 then some m else w.store m ((x &&& 0x3ffffffc) + i) v
  | .bool op o a, m => (o.load m a.word).bind fun x => o.store m a.word (op.apply x o.word)
  | .nothing _, m => some m

/-- Codes in their order. -/
inductive Program
  | nil
  | code (c : Code) (rest : Program)
  /-- do all following codes if equal to -/
  | only (a : Addr) (v : UInt32) (rest : Program)
  /-- do the codes of the body if conditional -/
  | cond (t : Test) (o : Operand) (a : Addr) (body rest : Program)

/-- What a program makes of the memory, and whether the codes after it are done. -/
def Program.exec : Program → Mem → Option (Mem × Bool)
  | .nil, m => some (m, true)
  | .code c rest, m => (c.run m).bind rest.exec
  | .only a v rest, m => (lw m a.word).bind fun x => if x = v then rest.exec m else some (m, false)
  | .cond t o a body rest, m =>
    (o.load m a.word).bind fun x =>
      if t.holds x o.word then
        (body.exec m).bind fun y => if y.2 then rest.exec y.1 else some (y.1, false)
      else rest.exec m

/-! ### How codes are written -/

/-- A first word: the type, and 28 bits. -/
def first (t p : ℕ) : UInt32 := UInt32.ofNat (t * 2 ^ 28 + p)

/-- The number of an operand's width in a code of type 3 or 7. -/
def Operand.code : Operand → ℕ
  | .byte _ => 0
  | .half _ => 1

/-- The number of an operand's width in a code of type D or E. -/
def Operand.testCode : Operand → ℕ
  | .byte _ => 1
  | .half _ => 0

/-- The lines of a code. -/
def Code.lines : Code → List Line
  | .write w a v => [(first w.code a, v)]
  | .add o dec a => [(first 3 ((2 * o.code + dec.toNat) * 2 ^ 20 + o.val), a.word)]
  | .addWord v dec a => [(first 3 ((4 + dec.toNat) * 2 ^ 20), a.word), (v, 0)]
  | .serial a n s v i => [(first 4 a, UInt32.ofNat (n * 2 ^ 16 + s)), (v, i)]
  | .copy s n d => [(first 5 s, UInt32.ofNat n), (d, 0)]
  | .pointer w a v i => [(first 6 a, v), (UInt32.ofNat (w.code * 2 ^ 16), i)]
  | .bool op o a => [(first 7 a, UInt32.ofNat ((2 * op.code + o.code) * 2 ^ 20 + o.val))]
  | .nothing l => [l]

/-- Type C. -/
def onlyLine (a : Addr) (v : UInt32) : Line := (first 0xc a, v)

/-- Type D, for `n` lines. -/
def condLine (t : Test) (o : Operand) (a : Addr) (n : ℕ) : Line :=
  (first 0xd a, UInt32.ofNat (n * 2 ^ 24 + t.code * 2 ^ 20 + o.testCode * 2 ^ 16 + o.val))

/-- Type E, for `n` lines. -/
def oldCondLine (t : Test) (o : Operand) (a : Addr) (n : ℕ) : Line :=
  (first 0xe (o.testCode * 2 ^ 24 + n * 2 ^ 16 + o.val), UInt32.ofNat (t.code * 2 ^ 28 + a))

/-- A line that does nothing. -/
def Ignored (l : Line) : Prop := l.1 = 0 ∨ typeTab (l.1 >>> 28).toNat = none

/-- A code that can be written: the line of an 8-bit write to address 0 has no first word. -/
def Code.Writable : Code → Prop
  | .write .byte a _ => a.val ≠ 0
  | .nothing l => Ignored l
  | _ => True

/-- The number of the lines of a program. -/
def Program.lines : Program → ℕ
  | .nil => 0
  | .code c rest => c.lines.length + rest.lines
  | .only _ _ rest => 1 + rest.lines
  | .cond _ _ _ body rest => 1 + body.lines + rest.lines

/-- Every code can be written, and so can the number of lines of every body. -/
def Program.Writable : Program → Prop
  | .nil => True
  | .code c rest => c.Writable ∧ rest.Writable
  | .only _ _ rest => rest.Writable
  | .cond _ _ _ body rest =>
    0 < body.lines ∧ body.lines < 2 ^ 8 ∧ body.Writable ∧ rest.Writable

/-- The lines stand in the code list from line `k` on. -/
def Stands (f : ℕ → Line) : ℕ → List Line → Prop
  | _, [] => True
  | k, l :: ls => f k = l ∧ Stands f (k + 1) ls

/-- A line is a condition for `n` lines, in one of its forms. The number 0 stands for 1. -/
def IsCond (l : Line) (t : Test) (o : Operand) (a : Addr) (n : ℕ) : Prop :=
  ∃ nn, (nn = n ∨ nn = 0 ∧ n = 1) ∧ (l = condLine t o a nn ∨ l = oldCondLine t o a nn)

/-- The program stands in the code list from line `k` on. -/
def Holds (f : ℕ → Line) : ℕ → Program → Prop
  | _, .nil => True
  | k, .code c rest => Stands f k c.lines ∧ Holds f (k + c.lines.length) rest
  | k, .only a v rest => f k = onlyLine a v ∧ Holds f (k + 1) rest
  | k, .cond t o a body rest =>
    IsCond (f k) t o a body.lines ∧ Holds f (k + 1) body ∧ Holds f (k + 1 + body.lines) rest

end CheatEngine

end OpenPS2Loader
