import Mathlib.Algebra.Group.Int.Defs
import Mathlib.Data.Int.Notation
import Mathlib.Data.List.GetD
import Mathlib.Logic.Function.Basic
import Mathlib.Tactic.SplitIfs

/-!
# The LZ4 decoder

`lz4.c`: `LZ4_decompress_fast` knows the size of its output and nothing about that of its source. It
copies in steps of four and eight bytes that run over the end of what is to be copied, and over the
compressed data behind it; what they write too much is written again later.

Positions in the output are counted from its first byte. The memory in front of it is there, because
an offset may lead there, and the steps are those of a machine with pointers of 32 bits: `STEPSIZE`
is 4, `COPYLENGTH` is 8 and `LASTLITERALS` is 5. The source is what can be read from its first byte
on; it is shorter than `2 ^ 23` bytes, so that lengths and pointers do not wrap: no length is more
than 255 times that.

## Main definitions

* `Lz4.store`, `Lz4.load` — accesses that stay in the output buffer and in the source, or do not
* `Lz4.turn` — a turn of the main loop
* `Lz4.decompressFast`

## Main results

* `Lz4.mainLoop_turns` — the number of turns the loop is given does not matter
* `Lz4.decompressFast_safe` — nothing outside the output buffer is written
-/

namespace OpenPS2Loader

namespace Lz4

/-- The memory around the output buffer. -/
abbrev Mem : Type := ℤ → UInt8

/-- What goes wrong. -/
inductive Fault
  /-- a byte behind the source is read -/
  | read
  /-- a byte outside the output buffer is written -/
  | write
  deriving DecidableEq

/-! ### Copies -/

/-- The memory after bytes were written to `op`. -/
def put (m : Mem) (op : ℤ) (l : List UInt8) : Mem := fun p =>
  if op ≤ p ∧ p < op + l.length then l.getD (p - op).toNat 0 else m p

/-- Bytes are written to `op`. -/
def store (size : ℕ) (m : Mem) (op : ℤ) (l : List UInt8) : Except Fault Mem :=
  if 0 ≤ op ∧ op + l.length ≤ size then .ok (put m op l) else .error .write

/-- `n` bytes are read from `ip`. -/
def load (ip : List UInt8) (n : ℕ) : Except Fault (List UInt8) :=
  if n ≤ ip.length then .ok (ip.take n) else .error .read

/-- The `n` bytes at `ref`. -/
def peek (m : Mem) (ref : ℤ) (n : ℕ) : List UInt8 := (List.range n).map fun i : ℕ => m (ref + i)

/-- `LZ4_COPYSTEP`, inside the output. -/
def copyStep (size : ℕ) (m : Mem) (op ref : ℤ) : Except Fault Mem :=
  store size m op (peek m ref 4)

/-- `LZ4_COPY8`, inside the output. -/
def copy8 (size : ℕ) (m : Mem) (op ref : ℤ) : Except Fault Mem := do
  let m ← copyStep size m op ref
  copyStep size m (op + 4) (ref + 4)

/-- `LZ4_COPY8`, from the source. -/
def literal8 (size : ℕ) (m : Mem) (op : ℤ) (ip : List UInt8) : Except Fault Mem := do
  let l ← load ip 4
  let m ← store size m op l
  let l ← load (ip.drop 4) 4
  store size m (op + 4) l

/-- How often `LZ4_WILDCOPY` executes `LZ4_COPY8`: at least once, and until `d >= e`. -/
def rounds (distance : ℕ) : ℕ := if distance ≤ 8 then 1 else (distance + 7) / 8

/-- `LZ4_COPY8` inside the output, `n` times. -/
def copyRounds (size : ℕ) : ℕ → Mem → ℤ → ℤ → Except Fault Mem
  | 0, m, _, _ => .ok m
  | n + 1, m, op, ref => do
    let m ← copy8 size m op ref
    copyRounds size n m (op + 8) (ref + 8)

/-- `LZ4_COPY8` from the source, `n` times. -/
def literalRounds (size : ℕ) : ℕ → Mem → ℤ → List UInt8 → Except Fault Mem
  | 0, m, _, _ => .ok m
  | n + 1, m, op, ip => do
    let m ← literal8 size m op ip
    literalRounds size n m (op + 8) (ip.drop 8)

/-- `LZ4_WILDCOPY` inside the output. -/
def wildCopy (size : ℕ) (m : Mem) (op ref e : ℤ) : Except Fault Mem :=
  copyRounds size (rounds (e - op).toNat) m op ref

/-- `*op++ = *ref++`, `n` times. -/
def copyBytes (size : ℕ) : ℕ → Mem → ℤ → ℤ → Except Fault Mem
  | 0, m, _, _ => .ok m
  | n + 1, m, op, ref => do
    let m ← store size m op [m ref]
    copyBytes size n m (op + 1) (ref + 1)

/-- `LZ4_SECURECOPY` up to `oend - COPYLENGTH`, and the bytes up to `cpy`. -/
def secureCopy (size : ℕ) (m : Mem) (op ref cpy : ℤ) : Except Fault Mem :=
  let e : ℤ := size - 8
  if op < e then do
    let m ← wildCopy size m op ref e
    let n : ℤ := 8 * rounds (e - op).toNat
    copyBytes size (cpy - (op + n)).toNat m (op + n) (ref + n)
  else copyBytes size (cpy - op).toNat m op ref

/-! ### A turn of the main loop -/

/-- The bytes that continue a length: 255 as long as there is more. -/
def addRun : List UInt8 → ℕ → Except Fault (ℕ × List UInt8)
  | [], _ => .error .read
  | s :: ip, length =>
    if s = 255 then addRun ip (length + 255) else .ok (length + s.toNat, ip)

/-- A length, whose first part is in the token. -/
def readLength (nibble : ℕ) (ip : List UInt8) : Except Fault (ℕ × List UInt8) :=
  if nibble = 15 then addRun ip 15 else .ok (nibble, ip)

/-- `dec32table` -/
def dec32table (distance : ℕ) : ℕ := [4, 1, 2, 1, 4, 4, 4, 4].getD distance 0

/-- The first bytes of a match, where `op` and `ref` are less than `STEPSIZE` apart: four bytes one
by one, and four more from where the pattern repeats. The new place of `ref` comes with the
memory. -/
def startNear (size : ℕ) (m : Mem) (op : ℤ) (distance : ℕ) : Except Fault (Mem × ℤ) := do
  let ref : ℤ := op - distance
  let m ← copyBytes size 4 m op ref
  let ref := ref + dec32table distance
  let m ← store size m (op + 4) (peek m ref 4)
  .ok (m, ref)

/-- The first bytes of a match. -/
def startMatch (size : ℕ) (m : Mem) (op : ℤ) (distance : ℕ) : Except Fault (Mem × ℤ) :=
  if distance < 4 then startNear size m op distance
  else do
    let m ← copyStep size m op (op - distance)
    .ok (m, op - distance + 4)

/-- The rest of the source at `ip`, `op`, and the memory. -/
structure State where
  ip : List UInt8
  op : ℤ
  mem : Mem

/-- How a turn ends. -/
inductive Turn
  | more (s : State)
  /-- behind the last literals -/
  | eof (s : State)
  /-- at `_output_error` -/
  | outputError (s : State)

/-- The rest of a match, up to `cpy`; there is none at `_output_error`. -/
def finishMatch (size : ℕ) (m : Mem) (op ref cpy : ℤ) : Except Fault (Option Mem) :=
  if (size : ℤ) - 8 < cpy then
    if (size : ℤ) - 5 < cpy then .ok none else (secureCopy size m op ref cpy).map some
  else (wildCopy size m op ref cpy).map some

/-- The repeated sequence: the offset, the length of the match and the copy. -/
def matchTurn (size nibble : ℕ) (s : State) : Except Fault Turn := do
  let l ← load s.ip 2
  let (length, ip) ← readLength nibble (s.ip.drop 2)
  let (m, ref) ← startMatch size s.mem s.op ((l.getD 0 0).toNat + 256 * (l.getD 1 0).toNat)
  match ← finishMatch size m (s.op + 4) ref (s.op + 4 + length) with
  | none => .ok (.outputError ⟨ip, s.op + 4, m⟩)
  | some m => .ok (.more ⟨ip, s.op + 4 + length, m⟩)

/-- A turn of the main loop. -/
def turn (size : ℕ) (s : State) : Except Fault Turn :=
  match s.ip with
  | [] => .error .read
  | token :: ip => do
    let (length, ip) ← readLength (token.toNat / 16) ip
    let cpy := s.op + length
    if (size : ℤ) - 8 < cpy then
      if cpy ≠ size then .ok (.outputError ⟨ip, s.op, s.mem⟩)
      else do
        let l ← load ip length
        let m ← store size s.mem s.op l
        .ok (.eof ⟨ip.drop length, cpy, m⟩)
    else do
      let m ← literalRounds size (rounds length) s.mem s.op ip
      matchTurn size (token.toNat % 16) ⟨ip.drop length, cpy, m⟩

/-- The main loop: what is returned, where the source has `total` bytes. Each turn takes a byte of
the source at least, so that one turn more than it has bytes is as good as any number. -/
def mainLoop (size total : ℕ) : ℕ → State → Except Fault (ℤ × Mem)
  | 0, _ => .error .read
  | n + 1, s => do
    match ← turn size s with
    | .more s => mainLoop size total n s
    | .eof s => .ok ((total - s.ip.length : ℕ), s.mem)
    | .outputError s => .ok (-((total - s.ip.length : ℕ) : ℤ) - 1, s.mem)

/-- `LZ4_decompress_fast`: what it returns, and the memory then. -/
def decompressFast (source : List UInt8) (size : ℕ) (m : Mem) : Except Fault (ℤ × Mem) :=
  if size = 0 then do
    let l ← load source 1
    .ok (if l.getD 0 0 = 0 then 1 else -1, m)
  else mainLoop size source.length (source.length + 1) ⟨source, 0, m⟩

/-! ### What a copy does -/

variable {size n : ℕ} {m m' : Mem} {op ref : ℤ} {l ip : List UInt8}

/-- The memory is that of `g` from `lo` to `hi`. -/
def Agree (m g : Mem) (lo hi : ℤ) : Prop := ∀ p, lo ≤ p → p < hi → m p = g p

/-- A copy of `n` bytes to `op` changes nothing else. -/
def Frame (m m' : Mem) (op : ℤ) (n : ℕ) : Prop := ∀ p, p < op ∨ op + n ≤ p → m' p = m p

theorem Frame.trans {m'' : Mem} {n' : ℕ} (h : Frame m m' op n) (h' : Frame m' m'' (op + n) n') :
    Frame m m'' op (n + n') := by
  intro p hp
  rw [h' p (by omega), h p (by omega)]

theorem frame_put (m : Mem) (op : ℤ) (l : List UInt8) : Frame m (put m op l) op l.length := by
  intro p hp
  exact if_neg (by omega)

theorem put_apply {p : ℤ} (h : op ≤ p) (h' : p < op + l.length) :
    put m op l p = l.getD (p - op).toNat 0 :=
  if_pos ⟨h, h'⟩

theorem store_eq (h : 0 ≤ op) (h' : op + l.length ≤ size) : store size m op l = .ok (put m op l) :=
  if_pos ⟨h, h'⟩

theorem length_peek (m : Mem) (ref : ℤ) (n : ℕ) : (peek m ref n).length = n := by
  rw [peek, List.length_map, List.length_range]

theorem getD_peek {i : ℕ} (h : i < n) : (peek m ref n).getD i 0 = m (ref + i) := by
  rw [peek, List.getD_eq_getElem?_getD, List.getElem?_map, List.getElem?_range h]
  rfl

/-- Bytes of the output, all read before the first is written. -/
theorem store_peek (m : Mem) (ref : ℤ) (h : 0 ≤ op) (h' : op + n ≤ size) : ∃ m',
    store size m op (peek m ref n) = .ok m' ∧ Frame m m' op n ∧
      ∀ p, op ≤ p → p < op + n → m' p = m (p - op + ref) := by
  have hlen := length_peek m ref n
  refine ⟨_, store_eq h (by rw [hlen]; exact h'), ?_, fun p hp hp' => ?_⟩
  · have hframe := frame_put m op (peek m ref n)
    rw [hlen] at hframe
    exact hframe
  · rw [put_apply hp (by rw [hlen]; exact hp'), getD_peek (by omega)]
    congr 1
    omega

/-- A copy from `distance` bytes before, where the pattern of `g` repeats. -/
def Extends (m m' : Mem) (op : ℤ) (distance n : ℕ) : Prop :=
  ∀ g lo, Agree m g lo op → lo ≤ op - distance →
    (∀ p, op ≤ p → p < op + n → g p = g (p - distance)) → Agree m' g lo (op + n)

theorem Extends.trans {m'' : Mem} {distance n' : ℕ} (h : Extends m m' op distance n)
    (h' : Extends m' m'' (op + n) distance n') : Extends m m'' op distance (n + n') := by
  intro g lo hm hlo hg
  have hfirst := h g lo hm hlo fun p hp hp' => hg p hp (by omega)
  have hsecond := h' g lo hfirst (by omega) fun p hp hp' => hg p (by omega) (by omega)
  rw [Int.natCast_add, ← Int.add_assoc]
  exact hsecond

/-- A copy to `op` that stays in the buffer. It repeats the pattern when the steps are not longer
than the distance. -/
def Copies (r : Except Fault Mem) (m : Mem) (op : ℤ) (distance step n : ℕ) : Prop :=
  ∃ m', r = .ok m' ∧ Frame m m' op n ∧ (step ≤ distance → Extends m m' op distance n)

theorem copies_zero (m : Mem) (op : ℤ) (distance step : ℕ) :
    Copies (.ok m) m op distance step 0 := by
  refine ⟨m, rfl, fun _ _ => rfl, fun _ g lo hm _ _ p hp hp' => ?_⟩
  exact hm p hp (by omega)

/-- One copy behind another. -/
theorem Copies.bind {r : Except Fault Mem} {f : Mem → Except Fault Mem} {distance step n' k : ℕ}
    (h : Copies r m op distance step n)
    (h' : ∀ m', Copies (f m') m' (op + n) distance step n') (hk : k = n + n') :
    Copies (r.bind f) m op distance step k := by
  obtain ⟨m', rfl, hframe, hextends⟩ := h
  obtain ⟨m'', hf, hframe', hextends'⟩ := h' m'
  subst hk
  exact ⟨m'', hf, hframe.trans hframe', fun hstep => (hextends hstep).trans (hextends' hstep)⟩

/-- `n` bytes at once. -/
theorem copies_store (size n : ℕ) (m : Mem) (distance : ℕ) (h : 0 ≤ op) (h' : op + n ≤ size) :
    Copies (store size m op (peek m (op - distance) n)) m op distance n n := by
  obtain ⟨m', hstore, hframe, hcopy⟩ := store_peek m (op - distance) h h'
  refine ⟨m', hstore, hframe, fun hn g lo hm hlo hg p hp hp' => ?_⟩
  by_cases hlt : p < op
  · rw [hframe p (.inl hlt)]
    exact hm p hp hlt
  · rw [hcopy p (by omega) hp', hg p (by omega) hp', hm _ (by omega) (by omega)]
    congr 1
    omega

theorem copies_copyStep (size : ℕ) (m : Mem) (distance : ℕ) (h : 0 ≤ op) (h' : op + 4 ≤ size) :
    Copies (copyStep size m op (op - distance)) m op distance 4 4 :=
  copies_store size 4 m distance h h'

theorem copies_copy8 (size : ℕ) (m : Mem) (distance : ℕ) (h : 0 ≤ op) (h' : op + 8 ≤ size) :
    Copies (copy8 size m op (op - distance)) m op distance 4 8 := by
  refine Copies.bind (copies_copyStep size m distance h (by omega)) (fun m' => ?_)
    (Nat.add_comm 4 4)
  have href : op - distance + 4 = op + (4 : ℕ) - distance := by omega
  rw [href]
  exact copies_copyStep size m' distance (by omega) (by omega)

theorem copies_copyRounds (size n : ℕ) (m : Mem) (distance : ℕ) (h : 0 ≤ op)
    (h' : op + 8 * (n : ℤ) ≤ size) :
    Copies (copyRounds size n m op (op - distance)) m op distance 4 (8 * n) := by
  induction n generalizing m op with
  | zero => exact copies_zero m op distance 4
  | succ n ih =>
    refine Copies.bind (copies_copy8 size m distance h (by omega)) (fun m' => ?_)
      (Nat.add_comm (8 * n) 8)
    have href : op - distance + 8 = op + (8 : ℕ) - distance := by omega
    rw [href]
    exact ih m' (by omega) (by omega)

theorem copies_byte (size : ℕ) (m : Mem) (distance : ℕ) (h : 0 ≤ op) (h' : op + 1 ≤ size) :
    Copies (store size m op [m (op - distance)]) m op distance 1 1 := by
  have hbyte := copies_store size 1 m distance h h'
  rw [peek, List.range_one, List.map_singleton] at hbyte
  have href : op - distance + (0 : ℕ) = op - distance := by omega
  rw [href] at hbyte
  exact hbyte

theorem copies_copyBytes (size n : ℕ) (m : Mem) (distance : ℕ) (h : 0 ≤ op) (h' : op + n ≤ size) :
    Copies (copyBytes size n m op (op - distance)) m op distance 1 n := by
  induction n generalizing m op with
  | zero => exact copies_zero m op distance 1
  | succ n ih =>
    refine Copies.bind (copies_byte size m distance h (by omega)) (fun m' => ?_) (Nat.add_comm n 1)
    have href : op - distance + 1 = op + (1 : ℕ) - distance := by omega
    rw [href]
    exact ih m' (by omega) (by omega)

theorem Copies.mono {r : Except Fault Mem} {distance step step' : ℕ}
    (h : Copies r m op distance step n) (hstep : step ≤ step') :
    Copies r m op distance step' n := by
  obtain ⟨m', hr, hframe, hextends⟩ := h
  exact ⟨m', hr, hframe, fun hle => hextends (Nat.le_trans hstep hle)⟩

theorem le_rounds (distance : ℕ) : distance ≤ 8 * rounds distance := by
  rw [rounds]
  split_ifs
  · omega
  · omega

theorem rounds_le (distance : ℕ) : 8 * rounds distance ≤ distance + 8 := by
  rw [rounds]
  split_ifs
  · omega
  · omega

theorem copies_wildCopy (distance : ℕ) {e : ℤ} (h : 0 ≤ op) (h' : op + 8 ≤ size)
    (he : e + 8 ≤ size) :
    Copies (wildCopy size m op (op - distance) e) m op distance 4 (8 * rounds (e - op).toNat) := by
  have hle := rounds_le (e - op).toNat
  exact copies_copyRounds size _ m distance h (by omega)

/-- The copy of a match that ends near the end of the output. -/
theorem copies_secureCopy (distance : ℕ) {cpy : ℤ} (h : 0 ≤ op) (h' : op ≤ size)
    (hcpy : cpy ≤ size) : ∃ n, Copies (secureCopy size m op (op - distance) cpy) m op distance 4 n ∧
      cpy ≤ op + n ∧ op + n ≤ size := by
  rw [secureCopy]
  split_ifs with hlt
  · have hle := rounds_le ((size : ℤ) - 8 - op).toNat
    have hge := le_rounds ((size : ℤ) - 8 - op).toNat
    have hwild : wildCopy size m op (op - distance) ((size : ℤ) - 8) =
        copyRounds size (rounds ((size : ℤ) - 8 - op).toNat) m op
          (op - distance) := rfl
    rw [hwild]
    generalize rounds ((size : ℤ) - 8 - op).toNat = k at hle hge ⊢
    have hk : op + (8 * k : ℕ) ≤ size := by omega
    have hmax : cpy ≤ op + (8 * k + (cpy - (op + (8 * k : ℕ))).toNat : ℕ) := by omega
    have hmin : op + (8 * k + (cpy - (op + (8 * k : ℕ))).toNat : ℕ) ≤ size := by omega
    refine ⟨_, Copies.bind (copies_copyRounds size k m distance h (by omega)) (fun m' => ?_) rfl,
      hmax, hmin⟩
    dsimp only
    have href : op - distance + (8 * k : ℤ) = op + (8 * k : ℕ) - distance := by omega
    have hcount : op + (8 * k : ℤ) = op + (8 * k : ℕ) := by omega
    rw [href, hcount]
    exact (copies_copyBytes size _ m' distance (by omega) (by omega)).mono (by omega)
  · exact ⟨_, (copies_copyBytes size _ m distance h (by omega)).mono (by omega), by omega, by omega⟩

/-- The pattern of `g` repeats from `op` on. -/
def Repeats (g : Mem) (op : ℤ) (distance : ℕ) : Prop := ∀ p, op ≤ p → g p = g (p - distance)

theorem Frame.mono {n' : ℕ} (h : Frame m m' op n) (hn : n ≤ n') : Frame m m' op n' := by
  intro p hp
  exact h p (by omega)

/-- After the first bytes of a match, `ref` is `distance'` before `op`: four bytes at least, and a
number of times the offset. -/
def Started (m m' : Mem) (op : ℤ) (distance distance' : ℕ) : Prop :=
  Frame m m' op 8 ∧ (0 < distance → 4 ≤ distance' ∧ ∀ g lo, Repeats g op distance →
    lo ≤ op - distance → Agree m g lo op →
      Agree m' g lo (op + 4) ∧ lo ≤ op + 4 - distance' ∧ Repeats g (op + 4) distance')

theorem startNear_spec (size : ℕ) (m : Mem) {distance : ℕ} (hnear : distance < 4) (h : 0 ≤ op)
    (h' : op + 8 ≤ size) :
    ∃ m' distance', startNear size m op distance = .ok (m', op + 4 - (distance' : ℕ)) ∧
      Started m m' op distance distance' := by
  obtain ⟨m₁, hfirst, hframe₁, hextends⟩ :=
    copies_copyBytes size 4 m distance h (by omega)
  have hdec : dec32table distance ≤ distance + 4 := by
    obtain rfl | rfl | rfl | rfl : distance = 0 ∨ distance = 1 ∨ distance = 2 ∨ distance = 3 := by
      omega
    all_goals decide
  have href : op - distance + (dec32table distance : ℕ) =
      op + 4 - (distance + 4 - dec32table distance : ℕ) := by omega
  obtain ⟨m₂, hsecond, hframe₂, -⟩ := copies_store size 4 m₁
    (distance + 4 - dec32table distance) (show 0 ≤ op + 4 by omega) (by omega)
  refine ⟨m₂, distance + 4 - dec32table distance, ?_, hframe₁.trans hframe₂, fun hpos => ?_⟩
  · rw [startNear, hfirst]
    dsimp only [bind, Except.bind]
    rw [href, hsecond]
  · have hagree : ∀ g lo, Repeats g op distance → lo ≤ op - distance → Agree m g lo op →
        Agree m₂ g lo (op + 4) := by
      intro g lo hg hlo hm p hp hp'
      rw [hframe₂ p (.inl hp')]
      exact hextends hpos g lo hm hlo (fun p hp _ => hg p hp) p hp hp'
    obtain rfl | rfl | rfl : distance = 1 ∨ distance = 2 ∨ distance = 3 := by omega
    · refine ⟨by decide, fun g lo hg hlo hm => ⟨hagree g lo hg hlo hm, ?_, fun p hp => ?_⟩⟩
      · change lo ≤ op + 4 - (4 : ℕ)
        omega
      · change g p = g (p - (4 : ℕ))
        rw [hg p (by omega), hg _ (by omega), hg _ (by omega), hg _ (by omega)]
        congr 1
        omega
    · refine ⟨by decide, fun g lo hg hlo hm => ⟨hagree g lo hg hlo hm, ?_, fun p hp => ?_⟩⟩
      · change lo ≤ op + 4 - (4 : ℕ)
        omega
      · change g p = g (p - (4 : ℕ))
        rw [hg p (by omega), hg _ (by omega)]
        congr 1
        omega
    · refine ⟨by decide, fun g lo hg hlo hm => ⟨hagree g lo hg hlo hm, ?_, fun p hp => ?_⟩⟩
      · change lo ≤ op + 4 - (6 : ℕ)
        omega
      · change g p = g (p - (6 : ℕ))
        rw [hg p (by omega), hg _ (by omega)]
        congr 1
        omega

theorem startMatch_spec (size : ℕ) (m : Mem) (distance : ℕ) (h : 0 ≤ op) (h' : op + 8 ≤ size) :
    ∃ m' distance', startMatch size m op distance = .ok (m', op + 4 - (distance' : ℕ)) ∧
      Started m m' op distance distance' := by
  rw [startMatch]
  split_ifs with hnear
  · exact startNear_spec size m hnear h h'
  · have hfar : 4 ≤ distance := Nat.le_of_not_lt hnear
    obtain ⟨m₁, hstep, hframe, hextends⟩ :=
      copies_copyStep size m distance h (by omega)
    have href : op - distance + 4 = op + 4 - distance := by omega
    refine ⟨m₁, distance, ?_, hframe.mono (by decide), fun _ => ⟨hfar, fun g lo hg hlo hm => ?_⟩⟩
    · rw [hstep]
      dsimp only [bind, Except.bind]
      rw [href]
    · exact ⟨hextends hfar g lo hm hlo fun p hp _ => hg p hp, by omega, fun p hp => hg p (by omega)⟩

/-! ### Literals -/

theorem put_append (m : Mem) (op : ℤ) (l l' : List UInt8) :
    put (put m op l) (op + l.length) l' = put m op (l ++ l') := by
  funext p
  by_cases hlt : p < op + l.length
  · by_cases hge : op ≤ p
    · rw [frame_put _ _ l' p (.inl hlt), put_apply hge hlt,
        put_apply hge (by rw [List.length_append]; omega), List.getD_append _ _ _ _ (by omega)]
    · rw [frame_put _ _ l' p (.inl hlt), frame_put _ _ l p (by omega),
        frame_put _ _ (l ++ l') p (by omega)]
  · by_cases hge : p < op + l.length + l'.length
    · rw [put_apply (by omega) hge, put_apply (by omega) (by rw [List.length_append]; omega),
        List.getD_append_right _ _ _ _ (by omega)]
      congr 1
      omega
    · rw [frame_put _ _ l' p (by omega), frame_put _ _ l p (by omega),
        frame_put _ _ (l ++ l') p (by rw [List.length_append]; omega)]

theorem load_of_le (h : n ≤ ip.length) : load ip n = .ok (ip.take n) := if_pos h

theorem load_of_lt (h : ip.length < n) : load ip n = .error .read := if_neg (Nat.not_le.mpr h)

theorem literal8_eq (h : 0 ≤ op) (h' : op + 8 ≤ size) (hip : 8 ≤ ip.length) :
    literal8 size m op ip = .ok (put m op (ip.take 8)) := by
  have hlen : (ip.take 4).length = 4 := List.length_take_of_le (by omega)
  have hrest : 4 ≤ (ip.drop 4).length := by
    rw [List.length_drop]
    omega
  have hlen' : ((ip.drop 4).take 4).length = 4 := List.length_take_of_le hrest
  have happend := put_append m op (ip.take 4) ((ip.drop 4).take 4)
  rw [hlen, ← List.take_add] at happend
  change put (put m op (ip.take 4)) (op + 4) ((ip.drop 4).take 4) = put m op (ip.take 8) at happend
  change (load ip 4).bind (fun l => (store size m op l).bind fun m =>
    (load (ip.drop 4) 4).bind fun l => store size m (op + 4) l) = _
  rw [load_of_le (by omega)]
  change (store size m op (ip.take 4)).bind _ = _
  rw [store_eq h (by omega)]
  change (load (ip.drop 4) 4).bind _ = _
  rw [load_of_le hrest]
  change store size _ (op + 4) _ = _
  rw [store_eq (by omega) (by omega), happend]

theorem literal8_of_lt (h : 0 ≤ op) (h' : op + 8 ≤ size) (hip : ip.length < 8) :
    literal8 size m op ip = .error .read := by
  change (load ip 4).bind (fun l => (store size m op l).bind fun m =>
    (load (ip.drop 4) 4).bind fun l => store size m (op + 4) l) = _
  by_cases hfour : 4 ≤ ip.length
  · have hlen : (ip.take 4).length = 4 := List.length_take_of_le hfour
    have hrest : (ip.drop 4).length < 4 := by
      rw [List.length_drop]
      omega
    rw [load_of_le hfour]
    change (store size m op (ip.take 4)).bind _ = _
    rw [store_eq h (by omega)]
    change (load (ip.drop 4) 4).bind _ = _
    rw [load_of_lt hrest]
    rfl
  · rw [load_of_lt (by omega)]
    rfl

/-- The literals, and what comes behind them. -/
theorem literalRounds_eq (h : 0 ≤ op) (h' : op + 8 * (n : ℤ) ≤ size) (hip : 8 * n ≤ ip.length) :
    literalRounds size n m op ip = .ok (put m op (ip.take (8 * n))) := by
  induction n generalizing m op ip with
  | zero =>
    refine congrArg Except.ok (funext fun p => ?_)
    rw [frame_put _ _ _ p (by rw [List.take_zero, List.length_nil]; omega)]
  | succ n ih =>
    have hrest : 8 * n ≤ (ip.drop 8).length := by
      rw [List.length_drop]
      omega
    have hlen : (ip.take 8).length = 8 := List.length_take_of_le (by omega)
    have happend := put_append m op (ip.take 8) ((ip.drop 8).take (8 * n))
    rw [hlen, ← List.take_add, Nat.add_comm 8] at happend
    change (literal8 size m op ip).bind (fun m => literalRounds size n m (op + 8) (ip.drop 8)) = _
    rw [literal8_eq h (by omega) (by omega)]
    change literalRounds size n _ (op + 8) (ip.drop 8) = _
    rw [ih (by omega) (by omega) hrest]
    exact congrArg Except.ok happend

theorem literalRounds_of_lt (h : 0 ≤ op) (h' : op + 8 * (n : ℤ) ≤ size)
    (hip : ip.length < 8 * n) : literalRounds size n m op ip = .error .read := by
  induction n generalizing m op ip with
  | zero => exact absurd hip (Nat.not_lt_zero _)
  | succ n ih =>
    change (literal8 size m op ip).bind (fun m => literalRounds size n m (op + 8) (ip.drop 8)) = _
    by_cases height : 8 ≤ ip.length
    · rw [literal8_eq h (by omega) height]
      exact ih (by omega) (by omega) (by rw [List.length_drop]; omega)
    · rw [literal8_of_lt h (by omega) (by omega)]
      rfl

/-! ### Turns -/

theorem bind_eq_ok {α β : Type} {x : Except Fault α} {f : α → Except Fault β} {b : β} :
    x.bind f = .ok b ↔ ∃ a, x = .ok a ∧ f a = .ok b := by
  rcases x with e | a
  · simp [Except.bind]
  · simp [Except.bind]

theorem length_of_readLength {nibble length : ℕ} {rest : List UInt8}
    (h : readLength nibble ip = .ok (length, rest)) : rest.length ≤ ip.length := by
  have hrun : ∀ (ip : List UInt8) (k : ℕ), addRun ip k = .ok (length, rest) →
      rest.length ≤ ip.length := by
    intro ip
    induction ip with
    | nil => simp [addRun]
    | cons b ip ih =>
      intro k hk
      rw [addRun] at hk
      split_ifs at hk
      · exact Nat.le_succ_of_le (ih _ hk)
      · simp only [Except.ok.injEq, Prod.mk.injEq] at hk
        rw [← hk.2]
        exact Nat.le_succ _
  rw [readLength] at h
  split_ifs at h
  · exact hrun ip 15 h
  · simp only [Except.ok.injEq, Prod.mk.injEq] at h
    exact Nat.le_of_eq (congrArg List.length h.2.symm)

/-- Lengths are as long as the source allows; below `2 ^ 23` bytes nothing wraps. -/
theorem le_of_readLength {nibble length : ℕ} {rest : List UInt8} (hn : nibble ≤ 15)
    (h : readLength nibble ip = .ok (length, rest)) : length ≤ 15 + 255 * ip.length := by
  have hrun : ∀ (ip : List UInt8) (k : ℕ), addRun ip k = .ok (length, rest) →
      length ≤ k + 255 * ip.length := by
    intro ip
    induction ip with
    | nil => simp [addRun]
    | cons b ip ih =>
      intro k hk
      have hb := UInt8.toNat_lt b
      rw [addRun] at hk
      rw [List.length_cons]
      split_ifs at hk
      · have hrest := ih _ hk
        omega
      · simp only [Except.ok.injEq, Prod.mk.injEq] at hk
        omega
  rw [readLength] at h
  split_ifs at h
  · exact hrun ip 15 h
  · simp only [Except.ok.injEq, Prod.mk.injEq] at h
    omega

theorem length_of_matchTurn {nibble : ℕ} {s s' : State}
    (h : matchTurn size nibble s = .ok (.more s')) : s'.ip.length ≤ s.ip.length := by
  obtain ⟨l, -, h⟩ := bind_eq_ok.mp h
  obtain ⟨⟨length, rest⟩, hlength, h⟩ := bind_eq_ok.mp h
  obtain ⟨⟨m₁, ref⟩, -, h⟩ := bind_eq_ok.mp h
  obtain ⟨r, -, h⟩ := bind_eq_ok.mp h
  have hle := length_of_readLength hlength
  rw [List.length_drop] at hle
  rcases r with - | m₂
  · simp at h
  · simp only [Except.ok.injEq, Turn.more.injEq] at h
    rw [← h]
    exact Nat.le_trans hle (Nat.sub_le _ 2)

/-- A turn takes the token at least. -/
theorem length_of_turn {s s' : State} (h : turn size s = .ok (.more s')) :
    s'.ip.length < s.ip.length := by
  obtain ⟨ip, op, m⟩ := s
  obtain - | ⟨token, ip⟩ := ip
  · simp [turn] at h
  rw [turn] at h
  obtain ⟨⟨length, rest⟩, hlength, h⟩ := bind_eq_ok.mp h
  have hle := length_of_readLength hlength
  simp only at h
  split_ifs at h with hend hexact
  · simp at h
  · obtain ⟨l, -, h⟩ := bind_eq_ok.mp h
    obtain ⟨m₁, -, h⟩ := bind_eq_ok.mp h
    simp at h
  · obtain ⟨m₁, -, h⟩ := bind_eq_ok.mp h
    have hmatch := length_of_matchTurn h
    rw [List.length_drop] at hmatch
    exact Nat.lt_succ_of_le (Nat.le_trans hmatch (Nat.le_trans (Nat.sub_le _ _) hle))

/-- The loop ends in as many turns as there are bytes: more of them change nothing. -/
theorem mainLoop_turns (total : ℕ) {turns turns' : ℕ} {s : State} (h : s.ip.length < turns)
    (h' : s.ip.length < turns') : mainLoop size total turns s = mainLoop size total turns' s := by
  induction turns generalizing turns' s with
  | zero => exact absurd h (Nat.not_lt_zero _)
  | succ turns ih =>
    obtain ⟨turns', rfl⟩ := Nat.exists_eq_succ_of_ne_zero (Nat.ne_of_gt (Nat.zero_lt_of_lt h'))
    change (turn size s).bind _ = (turn size s).bind _
    rcases hturn : turn size s with f | s' | s' | s'
    · rfl
    · have hlt := length_of_turn hturn
      exact ih (by omega) (by omega)
    · rfl
    · rfl

/-! ### Safety -/

/-- Nothing outside the output buffer is changed. -/
def Kept (size : ℕ) (m m' : Mem) : Prop := ∀ p : ℤ, p < 0 ∨ size ≤ p → m' p = m p

theorem Kept.trans {m'' : Mem} (h : Kept size m m') (h' : Kept size m' m'') : Kept size m m'' :=
  fun p hp => (h' p hp).trans (h p hp)

theorem Frame.kept (hframe : Frame m m' op n) (h : 0 ≤ op) (h' : op + n ≤ size) :
    Kept size m m' := by
  intro p hp
  refine hframe p ?_
  rcases hp with hp | hp
  · exact .inl (Int.lt_of_lt_of_le hp h)
  · exact .inr (Int.le_trans h' hp)

/-- A turn writes in the buffer only, and the next one starts in it. -/
def SafeTurn (size : ℕ) (m : Mem) : Except Fault Turn → Prop
  | .error f => f = .read
  | .ok (.more s) => 0 ≤ s.op ∧ s.op ≤ size ∧ Kept size m s.mem
  | .ok (.eof s) => Kept size m s.mem
  | .ok (.outputError s) => Kept size m s.mem

theorem SafeTurn.of_kept {r : Except Fault Turn} (h : Kept size m m') (h' : SafeTurn size m' r) :
    SafeTurn size m r := by
  rcases r with f | s | s | s
  · exact h'
  · exact ⟨h'.1, h'.2.1, h.trans h'.2.2⟩
  · exact h.trans h'
  · exact h.trans h'

theorem readLength_error {nibble : ℕ} {f : Fault} (h : readLength nibble ip = .error f) :
    f = .read := by
  have hrun : ∀ (ip : List UInt8) (k : ℕ), addRun ip k = .error f → f = .read := by
    intro ip
    induction ip with
    | nil =>
      intro k hk
      exact (Except.error.inj hk).symm
    | cons b ip ih =>
      intro k hk
      rw [addRun] at hk
      split_ifs at hk
      exact ih _ hk
  rw [readLength] at h
  split_ifs at h
  exact hrun ip 15 h

theorem load_error {f : Fault} (h : load ip n = .error f) : f = .read := by
  rw [load] at h
  split_ifs at h
  exact (Except.error.inj h).symm

theorem length_of_load (h : load ip n = .ok l) : l.length = n := by
  rw [load] at h
  split_ifs at h with hle
  rw [← Except.ok.inj h]
  exact List.length_take_of_le hle

theorem finishMatch_safe (size : ℕ) (m : Mem) (distance : ℕ) {cpy : ℤ} (h : 0 ≤ op)
    (h' : op + 4 ≤ size) (hop : op ≤ cpy) :
    ∃ r, finishMatch size m op (op - distance) cpy = .ok r ∧
      (size - 5 < cpy → r = none) ∧ (cpy ≤ size - 5 → ∃ m' n, r = some m' ∧
        Copies (.ok m') m op distance 4 n ∧ cpy ≤ op + n ∧ op + n ≤ size) := by
  rw [finishMatch]
  split_ifs with hend hlast
  · exact ⟨none, rfl, fun _ => rfl, fun hle => absurd hlast (by omega)⟩
  · obtain ⟨n, ⟨m', hcopy, hcopies⟩, hcpy, hn⟩ :=
      copies_secureCopy (m := m) distance h (show op ≤ size by omega) (show cpy ≤ size by omega)
    refine ⟨some m', by rw [hcopy]; rfl, fun hlt => absurd hlt hlast, fun _ => ?_⟩
    exact ⟨m', n, rfl, ⟨m', rfl, hcopies⟩, hcpy, hn⟩
  · obtain ⟨m', hcopy, hcopies⟩ :=
      copies_wildCopy (m := m) distance (e := cpy) h (show op + 8 ≤ size by omega) (by omega)
    have hle := rounds_le (cpy - op).toNat
    have hge := le_rounds (cpy - op).toNat
    refine ⟨some m', by rw [hcopy]; rfl, fun hlt => by omega, fun _ => ?_⟩
    exact ⟨m', _, rfl, ⟨m', rfl, hcopies⟩, by omega, by omega⟩

theorem matchTurn_safe (nibble : ℕ) (s : State) (h : 0 ≤ s.op) (h' : s.op + 8 ≤ size) :
    SafeTurn size s.mem (matchTurn size nibble s) := by
  rw [matchTurn]
  cases hload : load s.ip 2 with
  | error f => exact load_error hload
  | ok l =>
    cases hlength : readLength nibble (s.ip.drop 2) with
    | error f =>
      simp only [bind, Except.bind]
      exact readLength_error hlength
    | ok r =>
      obtain ⟨length, ip⟩ := r
      obtain ⟨m₁, distance, hstart, hframe, -⟩ := startMatch_spec size s.mem
        ((l.getD 0 0).toNat + 256 * (l.getD 1 0).toNat) h h'
      obtain ⟨r, hfinish, hnone, hsome⟩ := finishMatch_safe size m₁ distance
        (show 0 ≤ s.op + 4 by omega) (by omega) (show s.op + 4 ≤ s.op + 4 + length by omega)
      have hkept := hframe.kept h h'
      simp only [bind, Except.bind, hstart, hfinish]
      by_cases hlast : (size : ℤ) - 5 < s.op + 4 + length
      · rw [hnone hlast]
        exact hkept
      · obtain ⟨m₂, n, rfl, ⟨_, hr, hframe', -⟩, hcpy, hn⟩ := hsome (by omega)
        cases hr
        exact ⟨by dsimp only; omega, by dsimp only; omega,
          hkept.trans (hframe'.kept (by omega) hn)⟩

theorem turn_safe (size : ℕ) (s : State) (h : 0 ≤ s.op) : SafeTurn size s.mem (turn size s) := by
  obtain ⟨ip, op, m⟩ := s
  rw [turn]
  rcases ip with - | ⟨token, ip⟩
  · exact rfl
  cases hlength : readLength (token.toNat / 16) ip with
  | error f =>
    simp only [bind, Except.bind, hlength]
    exact readLength_error hlength
  | ok r =>
    obtain ⟨length, ip'⟩ := r
    simp only [bind, Except.bind, hlength]
    split_ifs with hend hexact
    · exact fun _ _ => rfl
    · -- the last literals end where the buffer does
      cases hload : load ip' length with
      | error f => exact load_error hload
      | ok l =>
        have hl : l.length = length := length_of_load hload
        simp only
        rw [store_eq h (by dsimp only at *; omega)]
        have hframe := frame_put m op l
        exact hframe.kept h (by dsimp only at *; omega)
    · have hop : 0 ≤ op := h
      have hle := rounds_le length
      have hge := le_rounds length
      by_cases hip : 8 * rounds length ≤ ip'.length
      · rw [literalRounds_eq hop (by omega) hip]
        have hput : Kept size m (put m op (ip'.take (8 * rounds length))) :=
          (frame_put m op _).kept hop (by rw [List.length_take]; omega)
        refine SafeTurn.of_kept hput ?_
        exact matchTurn_safe _ ⟨ip'.drop length, op + length, _⟩
          (show 0 ≤ op + length by omega) (show op + length + 8 ≤ size by omega)
      · rw [literalRounds_of_lt hop (by omega) (by omega)]
        exact rfl

/-- A run writes in the buffer only; if it goes wrong, then behind the source. -/
def SafeRun (size : ℕ) (m : Mem) : Except Fault (ℤ × Mem) → Prop
  | .error f => f = .read
  | .ok r => Kept size m r.2

theorem SafeRun.of_kept {r : Except Fault (ℤ × Mem)} (h : Kept size m m')
    (h' : SafeRun size m' r) : SafeRun size m r := by
  rcases r with f | r
  · exact h'
  · exact h.trans h'

theorem mainLoop_safe (total turns : ℕ) (s : State) (h : 0 ≤ s.op) :
    SafeRun size s.mem (mainLoop size total turns s) := by
  induction turns generalizing s with
  | zero => exact rfl
  | succ turns ih =>
    have hsafe := turn_safe size s h
    change SafeRun size s.mem ((turn size s).bind _)
    rcases hturn : turn size s with f | s' | s' | s'
    · rw [hturn] at hsafe
      exact hsafe
    · rw [hturn] at hsafe
      exact SafeRun.of_kept hsafe.2.2 (ih s' hsafe.1)
    · rw [hturn] at hsafe
      exact hsafe
    · rw [hturn] at hsafe
      exact hsafe

/-- **Memory safety.** Whatever the source is, `LZ4_decompress_fast` writes between the first and
the last byte of the output only. -/
theorem decompressFast_safe (source : List UInt8) (size : ℕ) (m : Mem) :
    SafeRun size m (decompressFast source size m) := by
  rw [decompressFast]
  split_ifs with hsize
  · cases hload : load source 1 with
    | error f => exact load_error hload
    | ok l => exact fun _ _ => rfl
  · exact mainLoop_safe _ _ ⟨source, 0, m⟩ (Int.le_refl 0)

end Lz4

end OpenPS2Loader
