import Mathlib.Data.Int.Notation
import Mathlib.Data.Nat.Notation
import Mathlib.Tactic.SplitIfs

/-!
# Pages of a virtual memory card

`mcemu.c`: a game reads and writes a memory card in chunks. A page is followed by its ECC area, 16
bytes that are computed when the page is read and thrown away when it is written. Two offsets say
how far the game is: `rdoff` in the page and `rcoff` in the ECC area, which is not 0 when the area
of the page is still to come.

A page has 512 bytes, the size of `mcdatabuf`; its ECC area has four codes of three bytes. An offset
in a page is below its size: it is reset when the page is done. An access to the card that fails
ends the chunk.

## Main definitions

* `Mce.calculateECC`, `Mce.eccArea` — the ECC area of a page
* `Mce.ReadState`, `Mce.mceRead` — reading a chunk
* `Mce.WriteState`, `Mce.mceWrite` — writing one
* `Mce.mceEraseBlock`
-/

namespace OpenPS2Loader

namespace Mce

/-! ### The ECC area -/

/-- `xortable`. -/
def xorTable : List UInt8 :=
  [
    0x00, 0x87, 0x96, 0x11, 0xA5, 0x22, 0x33, 0xB4, 0xB4, 0x33, 0x22, 0xA5, 0x11, 0x96, 0x87, 0x00,
    0xC3, 0x44, 0x55, 0xD2, 0x66, 0xE1, 0xF0, 0x77, 0x77, 0xF0, 0xE1, 0x66, 0xD2, 0x55, 0x44, 0xC3,
    0xD2, 0x55, 0x44, 0xC3, 0x77, 0xF0, 0xE1, 0x66, 0x66, 0xE1, 0xF0, 0x77, 0xC3, 0x44, 0x55, 0xD2,
    0x11, 0x96, 0x87, 0x00, 0xB4, 0x33, 0x22, 0xA5, 0xA5, 0x22, 0x33, 0xB4, 0x00, 0x87, 0x96, 0x11,
    0xE1, 0x66, 0x77, 0xF0, 0x44, 0xC3, 0xD2, 0x55, 0x55, 0xD2, 0xC3, 0x44, 0xF0, 0x77, 0x66, 0xE1,
    0x22, 0xA5, 0xB4, 0x33, 0x87, 0x00, 0x11, 0x96, 0x96, 0x11, 0x00, 0x87, 0x33, 0xB4, 0xA5, 0x22,
    0x33, 0xB4, 0xA5, 0x22, 0x96, 0x11, 0x00, 0x87, 0x87, 0x00, 0x11, 0x96, 0x22, 0xA5, 0xB4, 0x33,
    0xF0, 0x77, 0x66, 0xE1, 0x55, 0xD2, 0xC3, 0x44, 0x44, 0xC3, 0xD2, 0x55, 0xE1, 0x66, 0x77, 0xF0,
    0xF0, 0x77, 0x66, 0xE1, 0x55, 0xD2, 0xC3, 0x44, 0x44, 0xC3, 0xD2, 0x55, 0xE1, 0x66, 0x77, 0xF0,
    0x33, 0xB4, 0xA5, 0x22, 0x96, 0x11, 0x00, 0x87, 0x87, 0x00, 0x11, 0x96, 0x22, 0xA5, 0xB4, 0x33,
    0x22, 0xA5, 0xB4, 0x33, 0x87, 0x00, 0x11, 0x96, 0x96, 0x11, 0x00, 0x87, 0x33, 0xB4, 0xA5, 0x22,
    0xE1, 0x66, 0x77, 0xF0, 0x44, 0xC3, 0xD2, 0x55, 0x55, 0xD2, 0xC3, 0x44, 0xF0, 0x77, 0x66, 0xE1,
    0x11, 0x96, 0x87, 0x00, 0xB4, 0x33, 0x22, 0xA5, 0xA5, 0x22, 0x33, 0xB4, 0x00, 0x87, 0x96, 0x11,
    0xD2, 0x55, 0x44, 0xC3, 0x77, 0xF0, 0xE1, 0x66, 0x66, 0xE1, 0xF0, 0x77, 0xC3, 0x44, 0x55, 0xD2,
    0xC3, 0x44, 0x55, 0xD2, 0x66, 0xE1, 0xF0, 0x77, 0x77, 0xF0, 0xE1, 0x66, 0xD2, 0x55, 0x44, 0xC3,
    0x00, 0x87, 0x96, 0x11, 0xA5, 0x22, 0x33, 0xB4, 0xB4, 0x33, 0x22, 0xA5, 0x11, 0x96, 0x87, 0x00]

/-- The loop of `CalculateECC`, from the byte `i` on. Of `c2` and `c3` the low bits are kept. -/
def eccLoop : List UInt8 → UInt8 → UInt8 × UInt8 × UInt8 → UInt8 × UInt8 × UInt8
  | [], _, c => c
  | x :: xs, i, (c1, c2, c3) =>
    let b := xorTable.getD x.toNat 0
    eccLoop xs (i + 1)
      (if b &&& 0x80 ≠ 0 then (c1 ^^^ b, c2 ^^^ ~~~i, c3 ^^^ i) else (c1 ^^^ b, c2, c3))

/-- `CalculateECC`: the code of 128 bytes. -/
def calculateECC (buf : List UInt8) : List UInt8 :=
  let (c1, c2, c3) := eccLoop buf 0 (0, 0, 0)
  [~~~c1 &&& 0x77, ~~~c2 &&& 0x7F, ~~~c3 &&& 0x7F]

/-- `cspec.PageSize`. -/
def pageSize : ℕ := 512

/-- `mcd->flags`: bit 4 says how an erased card reads. -/
def padByte (flags : UInt32) : UInt8 := if flags &&& 0x10 ≠ 0 then 0xFF else 0

/-- What `do_read` leaves in `cbufp`: the codes of the groups of the page, and padding. -/
def eccArea (flags : UInt32) (page : List UInt8) : List UInt8 :=
  calculateECC (page.take 128) ++ calculateECC ((page.drop 128).take 128) ++
    calculateECC ((page.drop 256).take 128) ++ calculateECC ((page.drop 384).take 128) ++
    List.replicate 4 (padByte flags)

/-! ### Reading -/

/-- The fields of a `MemoryCard` that a read uses. -/
structure ReadState where
  rpage : UInt32
  rdoff : ℕ
  rcoff : ℤ
  dbufp : List UInt8
  cbufp : List UInt8
  deriving DecidableEq

/-- A page of the card, or an error. -/
abbrev ReadPage : Type := UInt32 → Option (List UInt8)

/-- `MceStartRead`. -/
def mceStartRead (s : ReadState) (page : UInt32) : ReadState :=
  { s with rpage := page, rdoff := 0, rcoff := 0 }

/-- `do_read`. -/
def doRead (flags : UInt32) (dev : ReadPage) (s : ReadState) : Option ReadState :=
  (dev s.rpage).map fun page => { s with dbufp := page, cbufp := eccArea flags page }

/-- `size < 16 ? size : 16`: how much of a chunk belongs to the ECC area. -/
def eccSize (size : ℕ) : ℕ := if size < 16 then size else 16

/-- The ECC offset behind it. -/
def eccLeft (off : ℤ) (size : ℕ) : ℤ := if 12 < eccSize size then 0 else off - eccSize size

/-- How much of a chunk belongs to the page, from the offset `off` on. -/
def dataSize (off size : ℕ) : ℕ := if pageSize < size + off then pageSize - off else size

/-- The data part of a pass of `MceRead`, and the end of the pass: what is copied, and the size of
the next pass, or 0. -/
def readData (flags : UInt32) (dev : ReadPage) (tot : ℕ) (s : ReadState) (size : ℕ) :
    Option (ReadState × List UInt8 × ℕ) :=
  (if s.rdoff = 0 then doRead flags dev s else some s).map fun s =>
    let size := dataSize s.rdoff size
    let out := (s.dbufp.drop s.rdoff).take size
    if s.rdoff + size = pageSize then
      ({ s with rpage := s.rpage + 1, rdoff := 0, rcoff := s.rcoff + 3 }, out, tot - size)
    else ({ s with rdoff := s.rdoff + size, rcoff := s.rcoff + 3 }, out, 0)

/-- A pass of `MceRead`, from `restart` on, in a chunk of `tot` bytes. -/
def readPass (flags : UInt32) (dev : ReadPage) (tot : ℕ) (s : ReadState) (size : ℕ) :
    Option (ReadState × List UInt8 × ℕ) :=
  if s.rcoff ≠ 0 ∧ s.rdoff = 0 then
    let out := s.cbufp.take (eccSize size)
    let s := { s with rcoff := eccLeft s.rcoff size }
    if size - eccSize size = 0 then some (s, out, 0)
    else
      (readData flags dev tot s (size - eccSize size)).map fun (s, data, next) =>
        (s, out ++ data, next)
  else readData flags dev tot s size

/-- The passes of `MceRead`. -/
def readPasses (flags : UInt32) (dev : ReadPage) (tot : ℕ) :
    ℕ → ReadState → ℕ → Option (ReadState × List UInt8)
  | 0, _, _ => none
  | fuel + 1, s, size =>
    (readPass flags dev tot s size).bind fun (s, out, next) =>
      if next = 0 then some (s, out)
      else (readPasses flags dev tot fuel s next).map fun (s, out') => (s, out ++ out')

/-- `MceRead`, and what it copies. The size of a chunk is one byte: two passes are enough. -/
def mceRead (flags : UInt32) (dev : ReadPage) (s : ReadState) (size : ℕ) :
    Option (ReadState × List UInt8) :=
  readPasses flags dev size 2 s size

/-! ### Writing -/

/-- The fields of a `MemoryCard` that a write uses. -/
structure WriteState where
  wpage : UInt32
  wroff : ℕ
  wcoff : ℤ
  dbufp : List UInt8
  deriving DecidableEq

/-- Whether a page can be written. -/
abbrev WritePage : Type := UInt32 → List UInt8 → Bool

/-- `MceStartWrite`. -/
def mceStartWrite (s : WriteState) (page : UInt32) : WriteState :=
  { s with wpage := page, wroff := 0, wcoff := 0 }

/-- A pass of `MceWrite` behind its ECC part: the page it wrote, and what is left for the next
pass, with its size. -/
def writeData (dev : WritePage) (tot : ℕ) (s : WriteState) (buf : List UInt8) (size : ℕ) :
    Option (WriteState × List (UInt32 × List UInt8) × List UInt8 × ℕ) :=
  let size := dataSize s.wroff size
  let page := s.dbufp.take s.wroff ++ buf.take size ++ s.dbufp.drop (s.wroff + size)
  if s.wroff + size = pageSize then
    if dev s.wpage (page.take pageSize) then
      some (⟨s.wpage + 1, 0, s.wcoff + 3, page⟩, [(s.wpage, page.take pageSize)], buf.drop size,
        tot - size)
    else none
  else some (⟨s.wpage, s.wroff + size, s.wcoff + 3, page⟩, [], buf.drop size, 0)

/-- A pass of `MceWrite`, from `restart` on, in a chunk of `tot` bytes. -/
def writePass (dev : WritePage) (tot : ℕ) (s : WriteState) (buf : List UInt8) (size : ℕ) :
    Option (WriteState × List (UInt32 × List UInt8) × List UInt8 × ℕ) :=
  if s.wcoff ≠ 0 ∧ s.wroff = 0 then
    let s := { s with wcoff := eccLeft s.wcoff size }
    let buf := buf.drop (eccSize size)
    if size - eccSize size = 0 then some (s, [], buf, 0)
    else writeData dev tot s buf (size - eccSize size)
  else writeData dev tot s buf size

/-- The passes of `MceWrite`. -/
def writePasses (dev : WritePage) (tot : ℕ) :
    ℕ → WriteState → List UInt8 → ℕ → Option (WriteState × List (UInt32 × List UInt8))
  | 0, _, _, _ => none
  | fuel + 1, s, buf, size =>
    (writePass dev tot s buf size).bind fun (s, pages, buf, next) =>
      if next = 0 then some (s, pages)
      else (writePasses dev tot fuel s buf next).map fun (s, pages') => (s, pages ++ pages')

/-- `MceWrite`, and the pages it writes. -/
def mceWrite (dev : WritePage) (s : WriteState) (buf : List UInt8) :
    Option (WriteState × List (UInt32 × List UInt8)) :=
  writePasses dev buf.length 2 s buf buf.length

/-! ### Erasing -/

/-- The loop of `MceEraseBlock`: the pages it writes. -/
def eraseLoop (dev : WritePage) (clear : List UInt8) :
    ℕ → UInt32 → Option (List (UInt32 × List UInt8))
  | 0, _ => some []
  | n + 1, page =>
    if dev page clear then (eraseLoop dev clear n (page + 1)).map ((page, clear) :: ·) else none

/-- `MceEraseBlock`. -/
def mceEraseBlock (flags : UInt32) (blockSize : ℕ) (dev : WritePage) (page : UInt32) :
    Option (List (UInt32 × List UInt8)) :=
  eraseLoop dev (List.replicate pageSize (if flags &&& 0x10 ≠ 0 then 0 else 0xFF)) blockSize page

/-! ### The pages of a call -/

section Read

variable {flags : UInt32} {dev dev' : ReadPage} {s s' : ReadState} {tot size next : ℕ}
  {out : List UInt8}

/-- A pass reads the page that it is at. -/
theorem readData_congr (h : dev s.rpage = dev' s.rpage) :
    readData flags dev tot s size = readData flags dev' tot s size := by
  rw [readData, readData, doRead, doRead, h]

theorem readPass_congr (h : dev s.rpage = dev' s.rpage) :
    readPass flags dev tot s size = readPass flags dev' tot s size := by
  have hnext (c : ℤ) : readData flags dev tot { s with rcoff := c } (size - eccSize size) =
      readData flags dev' tot { s with rcoff := c } (size - eccSize size) := readData_congr h
  rw [readPass, readPass, readData_congr h]
  dsimp only
  rw [hnext]

theorem rpage_readData (h : readData flags dev tot s size = some (s', out, next)) :
    s'.rpage = s.rpage ∨ s'.rpage = s.rpage + 1 := by
  obtain ⟨s₁, hs₁, heq⟩ := Option.map_eq_some_iff.mp h
  have hrpage : s₁.rpage = s.rpage := by
    split_ifs at hs₁
    · obtain ⟨page, -, rfl⟩ := Option.map_eq_some_iff.mp hs₁
      rfl
    · rw [Option.some.inj hs₁]
  dsimp only at heq
  split_ifs at heq
  · cases heq
    exact .inr (congrArg (· + 1) hrpage)
  · cases heq
    exact .inl hrpage

theorem rpage_readPass (h : readPass flags dev tot s size = some (s', out, next)) :
    s'.rpage = s.rpage ∨ s'.rpage = s.rpage + 1 := by
  rw [readPass] at h
  dsimp only at h
  split_ifs at h
  · cases h
    exact .inl rfl
  · obtain ⟨⟨s₁, out₁, next₁⟩, hs₁, heq⟩ := Option.map_eq_some_iff.mp h
    have hrpage := rpage_readData hs₁
    cases heq
    exact hrpage
  · exact rpage_readData h

/-- **A chunk** is read from the page that the game is at, and from the next one. -/
theorem mceRead_congr (h : dev s.rpage = dev' s.rpage)
    (h' : dev (s.rpage + 1) = dev' (s.rpage + 1)) :
    mceRead flags dev s size = mceRead flags dev' s size := by
  rw [mceRead, mceRead, readPasses, readPasses, readPass_congr h]
  refine Option.bind_congr fun ⟨s₁, out, next⟩ hs₁ => ?_
  have hpass : readPass flags dev size s₁ next = readPass flags dev' size s₁ next := by
    rcases rpage_readPass hs₁ with hsame | hnext
    · exact readPass_congr (hsame ▸ h)
    · exact readPass_congr (hnext ▸ h')
  dsimp only
  rw [readPasses, readPasses, hpass]
  rfl

end Read

section Write

variable {dev : WritePage} {s s' : WriteState} {buf rest : List UInt8} {tot size next : ℕ}
  {pages : List (UInt32 × List UInt8)}

/-- What a pass has written: nothing, or the page that it is at. -/
theorem wpage_writeData (h : writeData dev tot s buf size = some (s', pages, rest, next)) :
    (pages = [] ∧ s'.wpage = s.wpage) ∨
      ∃ data, pages = [(s.wpage, data)] ∧ s'.wpage = s.wpage + 1 := by
  rw [writeData] at h
  split_ifs at h
  · cases h
    exact .inr ⟨_, rfl, rfl⟩
  · cases h
    exact .inl ⟨rfl, rfl⟩

theorem wpage_writePass (h : writePass dev tot s buf size = some (s', pages, rest, next)) :
    (pages = [] ∧ s'.wpage = s.wpage) ∨
      ∃ data, pages = [(s.wpage, data)] ∧ s'.wpage = s.wpage + 1 := by
  rw [writePass] at h
  dsimp only at h
  split_ifs at h
  · cases h
    exact .inl ⟨rfl, rfl⟩
  · have hdata := wpage_writeData h
    exact hdata
  · exact wpage_writeData h

/-- **A chunk** is written to the page that the game is at, or to the next one. -/
theorem wpage_mceWrite (h : mceWrite dev s buf = some (s', pages)) :
    ∀ w ∈ pages, w.1 = s.wpage ∨ w.1 = s.wpage + 1 := by
  obtain ⟨⟨s₁, pages₁, rest₁, next₁⟩, hs₁, h⟩ := Option.bind_eq_some_iff.mp h
  have hfirst := wpage_writePass hs₁
  dsimp only at h
  split_ifs at h with hnext
  · cases h
    rcases hfirst with ⟨rfl, -⟩ | ⟨data, rfl, -⟩
    · exact fun w hw => absurd hw List.not_mem_nil
    · exact fun w hw => .inl (by rw [List.mem_singleton.mp hw])
  · obtain ⟨⟨s₂, pages₂⟩, hs₂, heq⟩ := Option.map_eq_some_iff.mp h
    obtain ⟨⟨s₃, pages₃, rest₃, next₃⟩, hs₃, h₃⟩ := Option.bind_eq_some_iff.mp hs₂
    have hsecond := wpage_writePass hs₃
    dsimp only at h₃
    split_ifs at h₃
    · cases h₃
      cases heq
      intro w hw
      rcases List.mem_append.mp hw with hw | hw
      · rcases hfirst with ⟨rfl, -⟩ | ⟨data, rfl, -⟩
        · exact absurd hw List.not_mem_nil
        · exact .inl (by rw [List.mem_singleton.mp hw])
      · rcases hsecond with ⟨rfl, -⟩ | ⟨data, rfl, -⟩
        · exact absurd hw List.not_mem_nil
        · rw [List.mem_singleton.mp hw]
          exact hfirst.imp (fun h => h.2) fun ⟨_, _, h⟩ => h
    · cases h₃

/-- **A block** is erased page by page. -/
theorem page_mceEraseBlock {flags page : UInt32} {blockSize : ℕ}
    (h : mceEraseBlock flags blockSize dev page = some pages) :
    ∀ w ∈ pages, ∃ i < blockSize, w.1 = page + UInt32.ofNat i := by
  rw [mceEraseBlock] at h
  generalize List.replicate pageSize _ = clear at h
  induction blockSize generalizing page pages with
  | zero =>
    cases h
    exact fun w hw => absurd hw List.not_mem_nil
  | succ n ih =>
    rw [eraseLoop] at h
    split_ifs at h
    obtain ⟨rest, hrest, rfl⟩ := Option.map_eq_some_iff.mp h
    intro w hw
    rcases List.mem_cons.mp hw with rfl | hw
    · exact ⟨0, Nat.succ_pos n, (UInt32.add_zero page).symm⟩
    · obtain ⟨i, hi, hpage⟩ := ih hrest w hw
      refine ⟨i + 1, by omega, ?_⟩
      rw [hpage, UInt32.ofNat_add, UInt32.add_assoc, UInt32.add_comm 1]
      rfl

end Write

end Mce

end OpenPS2Loader
