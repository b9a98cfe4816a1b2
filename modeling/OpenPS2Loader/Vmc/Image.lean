import Mathlib.Algebra.Group.Int.Defs
import Mathlib.Data.Int.Notation
import Mathlib.Tactic.SplitIfs
import OpenPS2Loader.Lib.Bytes

/-!
# The file of a virtual memory card

`genvmc.c` writes the file of a card cluster by cluster. `mc_writecluster` looks for an abort, moves
the file position, and writes some clusters from a buffer. Offsets and sizes are 32 bits wide; a
negative offset is refused, and then the file position stays where it was. Whether the file system
takes all bytes of a write is up to the host.

## Main definitions

* `Vmc.Stop` — the ways in which a call comes to an early end
* `Vmc.VmcFile` — the file, with its position
* `Vmc.mcWriteCluster`
* `Vmc.wordBytes`, `Vmc.VmcFile.word` — the 32-bit words of a cluster

## Main results

* `Vmc.mcWriteCluster_eq_ok`, `Vmc.mcWriteCluster_of_succeeds`
* `Vmc.VmcFile.word_put` — the words of a cluster that was written
-/

namespace OpenPS2Loader

namespace Vmc

/-- An access outside of a buffer, a division by zero, a loop without an end, or a value that is
returned on an error. -/
inductive Stop
  | outside
  | divided
  | endless
  | returned (r : ℤ)
  deriving DecidableEq

theorem bind_ok {α β : Type*} (a : α) (f : α → Except Stop β) :
    (Except.ok a : Except Stop α).bind f = f a := rfl

theorem bind_error {α β : Type*} (e : Stop) (f : α → Except Stop β) :
    (Except.error e : Except Stop α).bind f = .error e := rfl

theorem bind_eq_ok {α β : Type*} {x : Except Stop α} {f : α → Except Stop β} {b : β} :
    x.bind f = .ok b ↔ ∃ a, x = .ok a ∧ f a = .ok b := by
  cases x with
  | error e =>
    constructor
    · intro h
      cases h
    · rintro ⟨a, ha, -⟩
      cases ha
  | ok a =>
    constructor
    · intro h
      exact ⟨a, rfl, h⟩
    · rintro ⟨a', ha, h⟩
      cases ha
      exact h

theorem bind_ne_error {α β : Type*} {x : Except Stop α} {g : α → Except Stop β} {e : Stop}
    (hx : x ≠ .error e) (hg : ∀ a, x = .ok a → g a ≠ .error e) : x.bind g ≠ .error e := by
  cases x with
  | error e' =>
    intro h
    cases h
    exact hx rfl
  | ok a => exact hg a rfl

theorem map_eq_ok {α β : Type*} {x : Except Stop α} {g : α → β} {b : β} :
    x.map g = .ok b ↔ ∃ a, x = .ok a ∧ g a = b := by
  cases x with
  | error e =>
    constructor
    · intro h
      cases h
    · rintro ⟨a, ha, -⟩
      cases ha
  | ok a =>
    constructor
    · intro h
      exact ⟨a, rfl, Except.ok.inj h⟩
    · rintro ⟨a', ha, h⟩
      cases ha
      exact congrArg _ h

theorem map_ne_error {α β : Type*} {x : Except Stop α} {g : α → β} {e : Stop} (hx : x ≠ .error e) :
    x.map g ≠ .error e := by
  cases x with
  | error e' =>
    intro h
    cases h
    exact hx rfl
  | ok a =>
    intro h
    cases h

def ascii (s : String) : List UInt8 := s.toList.map fun c => c.toNat.toUInt8

/-- `SUPERBLOCK_MAGIC` -/
def superblockMagic : List UInt8 := ascii "Sony PS2 Memory Card Format "

/-- What `genvmc` does not decide: `aborts n`, an abort is asked for before the write `n`;
`writes n p size`, all bytes of it get to the file at the position `p`; `opens`, the file can be
opened; `allocates`, there is memory. -/
structure Host where
  aborts : ℕ → Bool
  writes : ℕ → ℕ → ℕ → Bool
  opens : Bool
  allocates : Bool

/-- Nothing goes wrong. -/
structure Host.Succeeds (host : Host) : Prop where
  aborts : ∀ n, host.aborts n = false
  writes : ∀ n p size, host.writes n p size = true
  opens : host.opens = true
  allocates : host.allocates = true

/-- The file of a card: the position, the size, the bytes, and how many writes there were. -/
structure VmcFile where
  pos : ℕ
  size : ℕ
  bytes : ℕ → UInt8
  count : ℕ

namespace VmcFile

/-- A file that was truncated. -/
def empty : VmcFile := ⟨0, 0, fun _ => 0, 0⟩

/-- `lseek` from the start of the file; the offset is an `int`. -/
def seek (f : VmcFile) (offset : ℕ) : ℕ := if offset < 2 ^ 31 then offset else f.pos

/-- `write` at a position. -/
def put (f : VmcFile) (p : ℕ) (d : List UInt8) : VmcFile where
  pos := p + d.length
  size := if d.length = 0 then f.size else max f.size (p + d.length)
  bytes q := if p ≤ q ∧ q < p + d.length then d.getD (q - p) 0 else f.bytes q
  count := f.count + 1

end VmcFile

/-- `mc_writecluster`: `dup` clusters of `clusterSize` bytes from `buf`. -/
def mcWriteCluster (host : Host) (clusterSize : ℕ) (f : VmcFile) (cluster : ℕ) (buf : List UInt8)
    (dup : ℕ) : Except Stop VmcFile :=
  if host.aborts f.count then .error (.returned (-2))
  else
    let p := f.seek (cluster * clusterSize % 2 ^ 32)
    let size := clusterSize * dup % 2 ^ 32
    if buf.length < size then .error .outside
    else if host.writes f.count p size then .ok (f.put p (buf.take size))
    else .error (.returned (-1))

/-- What the callers of `mc_writecluster` return: an abort has a value of its own. -/
def onFail {α : Type*} (r : ℤ) : Except Stop α → Except Stop α
  | .error (.returned e) => .error (.returned (if e = -2 then -1000 else r))
  | x => x

theorem onFail_eq_ok {α : Type*} {r : ℤ} {x : Except Stop α} {a : α} :
    onFail r x = .ok a ↔ x = .ok a := by
  cases x with
  | error e => cases e <;> simp [onFail]
  | ok b => rfl

theorem onFail_ne_divided {α : Type*} {r : ℤ} {x : Except Stop α} (h : x ≠ .error .divided) :
    onFail r x ≠ .error .divided := by
  cases x with
  | error e => cases e <;> simp [onFail] at h ⊢
  | ok b => exact h

theorem onFail_ne_outside {α : Type*} {r : ℤ} {x : Except Stop α} (h : x ≠ .error .outside) :
    onFail r x ≠ .error .outside := by
  cases x with
  | error e => cases e <;> simp [onFail] at h ⊢
  | ok b => exact h

section mcWriteCluster

variable {host : Host} {clusterSize cluster dup : ℕ} {f f' : VmcFile} {buf : List UInt8}

theorem mcWriteCluster_eq_ok (h : mcWriteCluster host clusterSize f cluster buf dup = .ok f') :
    clusterSize * dup % 2 ^ 32 ≤ buf.length ∧
      f' = f.put (f.seek (cluster * clusterSize % 2 ^ 32))
        (buf.take (clusterSize * dup % 2 ^ 32)) := by
  rw [mcWriteCluster] at h
  split at h
  · cases h
  · dsimp only at h
    split at h
    · cases h
    · split at h
      · exact ⟨by omega, (Except.ok.inj h).symm⟩
      · cases h

theorem mcWriteCluster_ne_outside (h : clusterSize * dup % 2 ^ 32 ≤ buf.length) :
    mcWriteCluster host clusterSize f cluster buf dup ≠ .error .outside := by
  rw [mcWriteCluster]
  split
  · simp
  · dsimp only
    rw [if_neg (by omega)]
    split <;> simp

theorem mcWriteCluster_of_writes (haborts : host.aborts f.count = false)
    (h : clusterSize * dup % 2 ^ 32 ≤ buf.length)
    (hwrites : host.writes f.count (f.seek (cluster * clusterSize % 2 ^ 32))
      (clusterSize * dup % 2 ^ 32) = true) :
    mcWriteCluster host clusterSize f cluster buf dup =
      .ok (f.put (f.seek (cluster * clusterSize % 2 ^ 32))
        (buf.take (clusterSize * dup % 2 ^ 32))) := by
  rw [mcWriteCluster, haborts, if_neg (by decide)]
  dsimp only
  rw [if_neg (by omega), hwrites, if_pos rfl]

theorem mcWriteCluster_of_succeeds (hhost : host.Succeeds)
    (h : clusterSize * dup % 2 ^ 32 ≤ buf.length) :
    mcWriteCluster host clusterSize f cluster buf dup =
      .ok (f.put (f.seek (cluster * clusterSize % 2 ^ 32))
        (buf.take (clusterSize * dup % 2 ^ 32))) :=
  mcWriteCluster_of_writes (hhost.aborts _) h (hhost.writes _ _ _)

end mcWriteCluster

/-! ### The bytes of a file -/

namespace VmcFile

variable {f : VmcFile} {p q n : ℕ} {d : List UInt8}

/-- The bytes that were written. -/
theorem bytes_put (hq : q < d.length) : (f.put p d).bytes (p + q) = d.getD q 0 := by
  show (if p ≤ p + q ∧ p + q < p + d.length then d.getD (p + q - p) 0 else _) = _
  rw [if_pos (by omega), Nat.add_sub_cancel_left]

theorem slice_put (f : VmcFile) (p : ℕ) (d : List UInt8) :
    Bytes.slice (f.put p d).bytes p d.length = d := by
  refine Bytes.slice_eq_of_getElem? rfl fun i hi => ?_
  rw [bytes_put hi, List.getD_eq_getElem?_getD, List.getElem?_eq_getElem hi]
  rfl

theorem pos_put (f : VmcFile) (p : ℕ) (d : List UInt8) : (f.put p d).pos = p + d.length := rfl

theorem size_put_le (f : VmcFile) (p : ℕ) (d : List UInt8) :
    (f.put p d).size ≤ max f.size (p + d.length) := by
  rw [put]
  dsimp only
  split_ifs <;> omega

theorem size_le_size_put (f : VmcFile) (p : ℕ) (d : List UInt8) : f.size ≤ (f.put p d).size := by
  rw [put]
  dsimp only
  split_ifs <;> omega

theorem add_length_le_size_put (d : List UInt8) (h : p ≤ f.size) :
    p + d.length ≤ (f.put p d).size := by
  rw [put]
  dsimp only
  split_ifs <;> omega

theorem bytes_put_of_apart (h : q < p ∨ p + d.length ≤ q) : (f.put p d).bytes q = f.bytes q :=
  if_neg (by omega)

/-- The bytes next to what was written. -/
theorem slice_put_of_apart (h : q + n ≤ p ∨ p + d.length ≤ q) :
    Bytes.slice (f.put p d).bytes q n = Bytes.slice f.bytes q n :=
  Bytes.slice_congr fun i hi => bytes_put_of_apart (by omega)

/-- The word `k` of a cluster of 1024 bytes. -/
def word (f : VmcFile) (cluster k : ℕ) : ℕ :=
  Bytes.ofLe (Bytes.slice f.bytes (1024 * cluster + 4 * k) 4)

end VmcFile

/-- An array of 32-bit words. -/
def wordBytes (ws : List ℕ) : List UInt8 := ws.flatMap (Bytes.toLe 4)

theorem length_wordBytes (ws : List ℕ) : (wordBytes ws).length = 4 * ws.length := by
  induction ws with
  | nil => rfl
  | cons w ws ih =>
    rw [wordBytes, List.flatMap_cons, List.length_append, Bytes.length_toLe, List.length_cons]
    rw [wordBytes] at ih
    omega

theorem field_wordBytes {ws : List ℕ} {k : ℕ} (hk : k < ws.length) :
    Bytes.field (wordBytes ws) (4 * k) 4 = Bytes.toLe 4 ws[k] := by
  induction ws generalizing k with
  | nil => exact absurd hk (Nat.not_lt_zero k)
  | cons w ws ih =>
    have hw : (Bytes.toLe 4 w).length = 4 := Bytes.length_toLe 4 w
    rw [wordBytes, List.flatMap_cons]
    cases k with
    | zero =>
      rw [Bytes.field, Nat.mul_zero, List.drop_zero, List.take_left' hw]
      rfl
    | succ k =>
      have hdrop : (Bytes.toLe 4 w ++ ws.flatMap (Bytes.toLe 4)).drop (4 * (k + 1)) =
          (ws.flatMap (Bytes.toLe 4)).drop (4 * k) := by
        rw [List.drop_append, hw, List.drop_eq_nil_of_le (by omega), List.nil_append]
        congr 1
      rw [Bytes.field, hdrop]
      exact ih (Nat.lt_of_succ_lt_succ hk)

namespace VmcFile

variable {f : VmcFile} {c k p : ℕ} {d : List UInt8}

/-- The word `k` of a cluster that was written. -/
theorem word_put {w : ℕ} (h : Bytes.field d (4 * k) 4 = Bytes.toLe 4 w)
    (hd : 4 * k + 4 ≤ d.length) (hw : w < 2 ^ 32) : (f.put (1024 * c) d).word c k = w := by
  have hslice : Bytes.slice (f.put (1024 * c) d).bytes (1024 * c + 4 * k) 4 =
      Bytes.field d (4 * k) 4 := by
    conv_rhs => rw [← slice_put f (1024 * c) d]
    rw [Bytes.field, Bytes.drop_slice _ _ (by omega), Bytes.take_slice _ _ (by omega)]
  rw [word, hslice, h, Bytes.ofLe_toLe hw]

/-- A word of another cluster. -/
theorem word_put_of_apart (hk : k < 256) (h : c < p ∨ 1024 * p + d.length ≤ 1024 * c) :
    (f.put (1024 * p) d).word c k = f.word c k := by
  rw [word, slice_put_of_apart (by omega), word]

end VmcFile

end Vmc

end OpenPS2Loader
