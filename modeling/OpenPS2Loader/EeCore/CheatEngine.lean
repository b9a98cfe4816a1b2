import Mathlib.Algebra.Group.Nat.Defs
import Mathlib.Data.Nat.Notation
import Mathlib.Logic.Function.Basic

/-!
# The cheat engine

`cheat_engine.S`: `CodeHandler` goes through the code list, which has two words in a line, many
times a second, and does what each line says. The first nibble of a line is its type; some types
take the next line as well, and the conditional types skip lines. A line of type E is rewritten in
place, to a line of type D, the first time it is done.

The registers have their names; `at` stands for `$at`. A load or a store that is not aligned raises
an exception and has no result here. The code list lies in memory of its own: a code that writes
over the engine is not told apart from one that writes elsewhere.

## Main definitions

* `CheatEngine.Mem`, `lhu`, `lw`, `sb`, `sh`, `sw` — bytes at 32 bit addresses, and the accesses
* `CheatEngine.State` — the code list, and the memory
* `CheatEngine.type0` … `CheatEngine.typeE` — the types, and `typeTab`
* `CheatEngine.codeHandler`
-/

namespace OpenPS2Loader

namespace CheatEngine

/-! ### Memory -/

/-- Bytes by their 32 bit address. -/
abbrev Mem : Type := UInt32 → UInt8

def lbu (m : Mem) (a : UInt32) : UInt32 := (m a).toUInt32

def lhu (m : Mem) (a : UInt32) : Option UInt32 :=
  if a % 2 = 0 then some ((m a).toUInt32 ||| (m (a + 1)).toUInt32 <<< 8) else none

def lw (m : Mem) (a : UInt32) : Option UInt32 :=
  if a % 4 = 0 then
    some ((m a).toUInt32 ||| (m (a + 1)).toUInt32 <<< 8 ||| (m (a + 2)).toUInt32 <<< 16 |||
      (m (a + 3)).toUInt32 <<< 24)
  else none

def sb (m : Mem) (a v : UInt32) : Mem := Function.update m a v.toUInt8

def sh (m : Mem) (a v : UInt32) : Option Mem :=
  if a % 2 = 0 then some (sb (sb m a v) (a + 1) (v >>> 8)) else none

def sw (m : Mem) (a v : UInt32) : Option Mem :=
  if a % 4 = 0 then
    some (sb (sb (sb (sb m a v) (a + 1) (v >>> 8)) (a + 2) (v >>> 16)) (a + 3) (v >>> 24))
  else none

/-! ### The types -/

/-- `codelist`, two words in a line, and the memory of the game. -/
structure State where
  codelist : ℕ → UInt32 × UInt32
  mem : Mem

/-- Where a type goes on: at `ch_ret`, or at `next` with this `$t4`. -/
inductive Next
  | chRet
  | next (t4 : ℕ)
  deriving DecidableEq

/-- The memory was written, and the loop goes on at `next`. -/
def State.wrote (s : State) (t4 : ℕ) (m : Mem) : State × Next := ({ s with mem := m }, .next t4)

/-- 8-bit constant write -/
def type0 (s : State) (t4 : ℕ) (a0 a1 : UInt32) : Option (State × Next) :=
  some (s.wrote t4 (sb s.mem a0 a1))

/-- 16-bit constant write -/
def type1 (s : State) (t4 : ℕ) (a0 a1 : UInt32) : Option (State × Next) :=
  (sh s.mem a0 a1).map (s.wrote t4)

/-- 32-bit constant write -/
def type2 (s : State) (t4 : ℕ) (a0 a1 : UInt32) : Option (State × Next) :=
  (sw s.mem a0 a1).map (s.wrote t4)

/-- Increment / Decrement -/
def type3 (s : State) (t4 : ℕ) (a0 a1 : UInt32) : Option (State × Next) :=
  let t6 := a0 >>> 20
  let at' := t6 &&& 1
  let a0 := a0 &&& 0xffff
  let a1 := a1 <<< 7 >>> 7
  let t6 := t6 &&& 6
  let a2 := t6 &&& 2
  if t6 = 0 then
    let t5 := lbu s.mem a1
    some (s.wrote t4 (sb s.mem a1 (if at' = 0 then t5 + a0 else t5 - a0)))
  else if a2 ≠ 0 then
    (lhu s.mem a1).bind fun t5 =>
      (sh s.mem a1 (if at' = 0 then t5 + a0 else t5 - a0)).map (s.wrote t4)
  else
    (lw s.mem a1).bind fun t5 =>
      let a0 := (s.codelist (t4 + 1)).1
      (sw s.mem a1 (if at' = 0 then t5 + a0 else t5 - a0)).map (s.wrote (t4 + 1))

/-- The loop of `type_4`, which tests at its end: `t5` turns are left after this one. -/
def serialLoop (m : Mem) (a0 a1 a2 a3 : UInt32) : ℕ → Option Mem
  | 0 => sw m a0 a2
  | t5 + 1 => (sw m a0 a2).bind fun m => serialLoop m (a0 + a1) a1 (a2 + a3) a3 t5

/-- 32-bit constant serial write -/
def type4 (s : State) (t4 : ℕ) (a0 a1 : UInt32) : Option (State × Next) :=
  let a2 := (s.codelist (t4 + 1)).1
  let a3 := (s.codelist (t4 + 1)).2
  let t5 := a1 >>> 16
  let a1 := (a1 &&& 0xffff) <<< 2
  (serialLoop s.mem a0 a1 a2 a3 (t5.toNat - 1)).map (s.wrote (t4 + 1))

/-- The loop of `type_5`, which tests at its end: `a1` turns are left after this one. -/
def copyLoop (m : Mem) (a0 a2 : UInt32) : ℕ → Mem
  | 0 => sb m a2 (lbu m a0)
  | a1 + 1 => copyLoop (sb m a2 (lbu m a0)) (a0 + 1) (a2 + 1) a1

/-- The turns of the loop that follow the first one: the count is signed where it is tested. -/
def turnsLeft (a1 : UInt32) : ℕ := if a1.toNat ≤ 2 ^ 31 then a1.toNat - 1 else 0

/-- Copy bytes -/
def type5 (s : State) (t4 : ℕ) (a0 a1 : UInt32) : Option (State × Next) :=
  let a2 := (s.codelist (t4 + 1)).1
  some (s.wrote (t4 + 1) (copyLoop s.mem a0 a2 (turnsLeft a1)))

/-- Pointer write -/
def type6 (s : State) (t4 : ℕ) (a0 a1 : UInt32) : Option (State × Next) :=
  (lw s.mem a0).bind fun t5 =>
    let t5 := t5 &&& 0x3ffffffc
    let a2 := (s.codelist (t4 + 1)).1 >>> 16
    let a3 := (s.codelist (t4 + 1)).2
    if t5 = 0 then some (s, .next (t4 + 1))
    else
      let t5 := t5 + a3
      if a2 = 0 then some (s.wrote (t4 + 1) (sb s.mem t5 a1))
      else if a2 = 1 then (sh s.mem t5 a1).map (s.wrote (t4 + 1))
      else (sw s.mem t5 a1).map (s.wrote (t4 + 1))

/-- Boolean operation -/
def type7 (s : State) (t4 : ℕ) (a0 a1 : UInt32) : Option (State × Next) :=
  let t6 := a1 >>> 20
  let at' := t6 &&& 1
  let t6 := t6 &&& 6
  let op (t5 : UInt32) := if t6 = 0 then t5 ||| a1 else if t6 = 2 then t5 &&& a1 else t5 ^^^ a1
  if at' ≠ 0 then
    (lhu s.mem a0).bind fun t5 => (sh s.mem a0 (op t5)).map (s.wrote t4)
  else
    some (s.wrote t4 (sb s.mem a0 (op (lbu s.mem a0))))

/-- 32-bit do all following codes if equal to -/
def typeC (s : State) (t4 : ℕ) (a0 a1 : UInt32) : Option (State × Next) :=
  (lw s.mem a0).map fun t5 => if t5 ≠ a1 then (s, .chRet) else (s, .next t4)

/-- The tests of `type_d`: whether the lines are skipped. -/
def skips (t6 t5 a1 : UInt32) : Bool :=
  if t6 = 0 then t5 - a1 ≠ 0
  else if t6 = 1 then t5 - a1 = 0
  else if t6 = 2 then ¬t5 < a1
  else if t6 = 3 then ¬a1 < t5
  else if t6 = 4 then t5 &&& a1 ≠ 0
  else if t6 = 5 then t5 &&& a1 = 0
  else if t6 = 6 then t5 ||| a1 ≠ 0
  else t5 ||| a1 = 0

/-- Do multi-lines if conditional -/
def typeD (s : State) (t4 : ℕ) (a0 a1 : UInt32) : Option (State × Next) :=
  let a3 := (a1 >>> 16) &&& 1
  let t6 := (a1 >>> 20) &&& 7
  let a2 : UInt32 := if a1 >>> 24 = 0 then 1 else a1 >>> 24
  let skip (t5 a1 : UInt32) : State × Next :=
    (s, .next (if skips t6 t5 a1 then t4 + a2.toNat else t4))
  if a3 = 0 then (lhu s.mem a0).map fun t5 => skip t5 (a1 &&& 0xffff)
  else some (skip (lbu s.mem a0) (a1 &&& 0xff))

/-- Do multi-lines if conditional (deprecated): the line is rewritten, and done as type D. -/
def typeE (s : State) (t4 : ℕ) (a0 a1 : UInt32) : Option (State × Next) :=
  let a2 : UInt32 := a0 &&& 0xffff
  let a2 : UInt32 := a2 ||| a1 >>> 28 <<< 20
  let a2 : UInt32 := a2 ||| a0 >>> 24 <<< 16
  let a2 : UInt32 := a2 ||| a0 >>> 16 <<< 24
  let a0 := a1 <<< 7 >>> 7
  let t5 := 0xd0000000 ||| a0
  typeD { s with codelist := Function.update s.codelist t4 (t5, a2) } t4 a0 a2

/-! ### The loop -/

/-- `type_tab`. An entry that is 0 is none; types 9 and F are hook codes. -/
def typeTab : ℕ → Option (State → ℕ → UInt32 → UInt32 → Option (State × Next))
  | 0x0 => some type0
  | 0x1 => some type1
  | 0x2 => some type2
  | 0x3 => some type3
  | 0x4 => some type4
  | 0x5 => some type5
  | 0x6 => some type6
  | 0x7 => some type7
  | 0xc => some typeC
  | 0xd => some typeD
  | 0xe => some typeE
  | _ => none

/-- A turn of `ch_loop`: the line with number `$t4`. -/
def turn (s : State) (t4 : ℕ) : Option (State × Next) :=
  let a0 := (s.codelist t4).1
  let a1 := (s.codelist t4).2
  if a0 = 0 then some (s, .next t4)
  else
    match typeTab (a0 >>> 28).toNat with
    | none => some (s, .next t4)
    | some type => type s t4 (a0 <<< 7 >>> 7) a1

/-- `ch_loop` from line `$t4` on, for so many turns at most. -/
def chLoop (numcodes : ℕ) : ℕ → State → ℕ → Option State
  | 0, s, t4 => if t4 < numcodes then none else some s
  | fuel + 1, s, t4 =>
    if t4 < numcodes then
      match turn s t4 with
      | none => none
      | some (s, .chRet) => some s
      | some (s, .next t4) => chLoop numcodes fuel s (t4 + 1)
    else some s

/-- `CodeHandler`. The loop does not come back to a line. -/
def codeHandler (numcodes : ℕ) (s : State) : Option State := chLoop numcodes numcodes s 0

end CheatEngine

end OpenPS2Loader
