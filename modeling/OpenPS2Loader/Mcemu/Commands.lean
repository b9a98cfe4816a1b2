import Mathlib.Algebra.Group.Nat.Defs
import OpenPS2Loader.Lib.Bytes
import OpenPS2Loader.Mcemu.Mce

/-!
# Commands of a memory card

`Sio2McEmu` in `mcemu.c`: what `mc_configure` sets for a card, the fields of a card that its
commands change, the commands with their arguments, and the parts of an answer.

## Main definitions

* `Mce.CardSpec`, `Mce.Port` — the fields of a `MemoryCard`
* `Mce.Command` — the commands of a card
* `Mce.sioResponse`, `Mce.calculateEDC`
* `Mce.Port.overwrites` — a command puts something into the buffer of a page
-/

namespace OpenPS2Loader

namespace Mce

/-- What `mc_configure` sets: `mcd->flags` and the other two fields of `mcd->cspec`. -/
structure CardSpec where
  flags : UInt32
  blockSize : UInt16
  cardSize : UInt32

/-- The other fields of a `MemoryCard`. -/
structure Port where
  rpage : UInt32
  rdoff : ℕ
  rcoff : ℤ
  cbufp : List UInt8
  wpage : UInt32
  wroff : ℕ
  wcoff : ℤ
  tcode : UInt8

namespace Port

/-- The fields that a read uses. -/
def readState (p : Port) (buf : List UInt8) : ReadState := ⟨p.rpage, p.rdoff, p.rcoff, buf, p.cbufp⟩

/-- The fields that a write uses. -/
def writeState (p : Port) (buf : List UInt8) : WriteState := ⟨p.wpage, p.wroff, p.wcoff, buf⟩

def withRead (p : Port) (s : ReadState) : Port :=
  { p with rpage := s.rpage, rdoff := s.rdoff, rcoff := s.rcoff, cbufp := s.cbufp }

def withWrite (p : Port) (s : WriteState) : Port :=
  { p with wpage := s.wpage, wroff := s.wroff, wcoff := s.wcoff }

end Port

/-- `CalculateEDC` -/
def calculateEDC (buf : List UInt8) : UInt8 := buf.foldl (· ^^^ ·) 0

/-- `SioResponse` -/
def sioResponse (tcode : UInt8) (length : ℕ) : List UInt8 :=
  if length < 2 then [] else List.replicate (length - 2) 0xFF ++ [0x2B, tcode]

/-- `mcd->cspec`. -/
def CardSpec.bytes (spec : CardSpec) : List UInt8 :=
  Bytes.toLe 2 pageSize ++ Bytes.toLe 2 spec.blockSize.toNat ++ Bytes.toLe 4 spec.cardSize.toNat

/-- The byte that `MceEraseBlock` fills the buffer with. -/
def CardSpec.clearByte (spec : CardSpec) : UInt8 := if spec.flags &&& 0x10 ≠ 0 then 0 else 0xFF

/-- The commands of a card: erase, start of a write, start of a read, spec, termination code, write
and read. The length of an answer comes from the control word, the size of a chunk is a byte. -/
inductive Command
  | erase (length : ℕ) (page : UInt32)
  | startWrite (length : ℕ) (page : UInt32)
  | startRead (length : ℕ) (page : UInt32)
  | spec
  | termCode (length : ℕ) (code : UInt8)
  | write (length : ℕ) (size : UInt8) (data : ℕ → UInt8)
  | read (size : UInt8)

/-! ### The buffer -/

/-- A chunk is all in the ECC area. -/
def EccOnly (off : ℕ) (coff : ℤ) (size : ℕ) : Prop := coff ≠ 0 ∧ off = 0 ∧ size ≤ 16

instance (off : ℕ) (coff : ℤ) (size : ℕ) : Decidable (EccOnly off coff size) :=
  inferInstanceAs (Decidable (_ ∧ _))

/-- A read of this size loads a page: the game is at the start of one, or it gets there and goes
on. -/
def loads (rdoff : ℕ) (rcoff : ℤ) (size : ℕ) : Bool :=
  if rdoff = 0 then
    !decide (EccOnly 0 rcoff size)
  else
    decide (pageSize - rdoff < size) &&
      !decide (EccOnly 0 (rcoff + 3) (size - (pageSize - rdoff)))

/-- A command puts something into the buffer. -/
def Port.overwrites (p : Port) : Command → Bool
  | .erase _ _ => true
  | .write _ size _ => decide (size ≠ 0) && !decide (EccOnly p.wroff p.wcoff size.toNat)
  | .read size => loads p.rdoff p.rcoff size.toNat
  | _ => false

/-- The game is in the middle of a page. -/
def Port.midPage (p : Port) : Bool := p.rdoff != 0 || p.wroff != 0

end Mce

end OpenPS2Loader
