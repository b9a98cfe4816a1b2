import Mathlib.Data.UInt
import Mathlib.Tactic.Ring
import OpenPS2Loader.Lib.Bytes
import OpenPS2Loader.Lib.Tiling
import OpenPS2Loader.Lib.Transition

/-!
# The atlas of glyphs

`atlas.c`: the glyphs of a font are placed in a surface. The rectangles that are free are the leaves
of a tree. A glyph goes into the first leaf it fits in, which gets two leaves for the space that is
left beside the glyph and below it.

The numbers have 32 bits: the fields of an allocation are of type `int`, and in all comparisons and
sums the other operand is a `size_t`.

## Main definitions

* `Atlas.Allocation`, `Atlas.allocPlace` — the tree
* `Atlas.atlasPlace` — a glyph is placed and copied
* `Atlas.Packing`, `Atlas.place` — the atlas, and the rectangles that were given away

## Main results

* `Atlas.allocPlace_spec`, `Atlas.tiles_cut` — a leaf is cut in three
* `Atlas.copyRows_spec`, `Atlas.atlasCopyData_spec`
* `Atlas.run_packs`
-/

namespace OpenPS2Loader

namespace Atlas

/-! ### The tree -/

/-- The position and the size of an allocation. -/
@[ext] structure Rect where
  x : UInt32
  y : UInt32
  w : UInt32
  h : UInt32
  deriving DecidableEq

/-- `struct atlas_allocation_t`. The two leaves are made together. -/
inductive Allocation where
  | free (r : Rect)
  | split (r : Rect) (leaf1 leaf2 : Allocation)

/-- The fields of the root. -/
def Allocation.rect : Allocation → Rect
  | .free r => r
  | .split r _ _ => r

/-- `ALLOC_FITS`. -/
def allocFits (r : Rect) (width height : UInt32) : Prop := width ≤ r.w ∧ height ≤ r.h

instance (r : Rect) (width height : UInt32) : Decidable (allocFits r width height) :=
  inferInstanceAs (Decidable (_ ∧ _))

/-- The two leaves of an allocation that is given away. The wider piece is also longer. -/
def leaves (r : Rect) (width height : UInt32) : Rect × Rect :=
  let dx := r.w - width
  let dy := r.h - height
  if dx < dy then (⟨r.x + width, r.y, dx, height⟩, ⟨r.x, r.y + height, r.w, dy⟩)
  else (⟨r.x, r.y + height, width, dy⟩, ⟨r.x + width, r.y, dx, r.h⟩)

/-- `allocPlace`: the allocation that is returned, and the tree. -/
def allocPlace : Allocation → UInt32 → UInt32 → Option (Rect × Allocation)
  | .free r, width, height =>
    if allocFits r width height then
      let (leaf1, leaf2) := leaves r width height
      some (r, .split r (.free leaf1) (.free leaf2))
    else none
  | .split r leaf1 leaf2, width, height =>
    if allocFits r width height then
      match allocPlace leaf1 width height with
      | some (p, leaf1) => some (p, .split r leaf1 leaf2)
      | none => (allocPlace leaf2 width height).map fun (p, leaf2) => (p, .split r leaf1 leaf2)
    else none

/-! ### The surface -/

/-- The pixel formats that `pixelSize` knows. -/
inductive Psm where
  | ct32
  | ct24
  | ct16
  | ct16s
  | t8
  | other
  deriving DecidableEq

/-- `pixelSize`. -/
def pixelSize : Psm → UInt32
  | .ct32 => 4
  | .ct24 => 4
  | .ct16 => 2
  | .ct16s => 2
  | .t8 => 1
  | .other => 0

/-- `atlas_t`. -/
structure AtlasT where
  allocation : Allocation
  psm : Psm
  mem : List UInt8

/-- `atlasNew`, with the size of the surface from `gsKit_texture_size`. -/
def atlasNew (width height : UInt32) (psm : Psm) (txtsize : ℕ) : AtlasT where
  allocation := .free ⟨0, 0, width, height⟩
  psm := psm
  mem := List.replicate txtsize 0

/-- The loop of `atlasCopyData`, for `n` more rows: `data` and `src` are offsets in the surface and
in the pixels of the glyph. -/
def copyRows (rowsize stride : ℕ) (surface : ℕ → UInt8) :
    ℕ → ℕ → ℕ → List UInt8 → Option (List UInt8)
  | 0, _, _, mem => some mem
  | n + 1, data, src, mem =>
    (Bytes.store mem data (Bytes.slice surface src rowsize)).bind
      (copyRows rowsize stride surface n (data + stride) (src + rowsize))

/-- `atlasCopyData`. It fails when it would write outside the surface. -/
def atlasCopyData (atlas : AtlasT) (al : Rect) (width height : UInt32) (surface : ℕ → UInt8) :
    Option (List UInt8) :=
  let ps := pixelSize atlas.psm
  if ps = 0 then some atlas.mem
  else
    copyRows (width * ps).toNat (ps * atlas.allocation.rect.w).toNat surface height.toNat
      (ps * (al.y * atlas.allocation.rect.w + al.x)).toNat 0 atlas.mem

/-- A call of `atlasPlace`. -/
structure Request where
  width : UInt32
  height : UInt32
  /-- The pixels, unless the pointer is `NULL`. -/
  surface : Option (ℕ → UInt8)

/-- `atlasPlace`: what it returns, and the atlas. -/
def atlasPlace (atlas : AtlasT) (q : Request) : Option (Option Rect × AtlasT) :=
  match q.surface with
  | none => some (none, atlas)
  | some surface =>
    match allocPlace atlas.allocation (q.width + 1) (q.height + 1) with
    | none => some (none, atlas)
    | some (al, allocation) =>
      let atlas := { atlas with allocation }
      (atlasCopyData atlas al q.width q.height surface).map fun mem => (some al, { atlas with mem })

/-! ### What is asked of it -/

/-- The points of a rectangle. -/
def Rect.covers (r : Rect) (p : ℕ × ℕ) : Bool :=
  decide (r.x.toNat ≤ p.1 ∧ p.1 < r.x.toNat + r.w.toNat ∧
    r.y.toNat ≤ p.2 ∧ p.2 < r.y.toNat + r.h.toNat)

/-- The rectangle lies in an atlas of the given size. -/
def Rect.Inside (r : Rect) (width height : UInt32) : Prop :=
  r.x.toNat + r.w.toNat ≤ width.toNat ∧ r.y.toNat + r.h.toNat ≤ height.toNat

/-- The leaves that are free. -/
def freeLeaves : Allocation → List Rect
  | .free r => [r]
  | .split _ leaf1 leaf2 => freeLeaves leaf1 ++ freeLeaves leaf2

/-- An atlas, and the rectangles that were given away. -/
structure Packing where
  atlas : AtlasT
  placed : List Rect

/-- A request. The rectangle that it gets has a pixel more in each direction. -/
def place (s : Packing) (q : Request) : Option Packing :=
  (atlasPlace s.atlas q).map fun (al, atlas) =>
    ⟨atlas, match al with
      | none => s.placed
      | some al => ⟨al.x, al.y, q.width + 1, q.height + 1⟩ :: s.placed⟩

/-- The pixel that the `b`-th byte of the surface belongs to. -/
def pixelAt (ps width b : ℕ) : ℕ × ℕ := (b / ps % width, b / ps / width)

/-- The rectangles are in order: free leaves and rectangles that were given away tile the atlas, and
the latter are inside it and do not overlap. -/
structure Packing.Packed (s : Packing) (width height : UInt32) : Prop where
  tiles : Tiles Rect.covers (Rect.covers ⟨0, 0, width, height⟩)
    (freeLeaves s.atlas.allocation ++ s.placed)
  inside : ∀ r ∈ s.placed, r.Inside width height
  disjoint : s.placed.Pairwise fun r r' => ∀ p, ¬ (r.covers p = true ∧ r'.covers p = true)

/-- A request changes only what it gets: nothing, or the pixels of a new rectangle, which are part
of the surface. -/
structure Packing.Framed (s s' : Packing) (width height : UInt32) : Prop where
  written : ∀ b, s'.atlas.mem.getD b 0 ≠ s.atlas.mem.getD b 0 →
    b < (pixelSize s.atlas.psm).toNat * (width.toNat * height.toNat) ∧
    ∃ r, s'.placed = r :: s.placed ∧
      r.covers (pixelAt (pixelSize s.atlas.psm).toNat width.toNat b) = true
  kept : ∀ r ∈ s.placed, ∀ b,
    r.covers (pixelAt (pixelSize s.atlas.psm).toNat width.toNat b) = true →
    s'.atlas.mem.getD b 0 = s.atlas.mem.getD b 0

/-! ### The tree -/

section Tree

variable {t t' : Allocation} {r al : Rect} {width height : UInt32}

/-- **A leaf is given away**: it is the first one that fits, and two leaves take its place. -/
theorem allocPlace_spec (hp : allocPlace t width height = some (al, t')) :
    allocFits al width height ∧ t'.rect = t.rect ∧ ∃ rest, (freeLeaves t).Perm (al :: rest) ∧
      (freeLeaves t').Perm ((leaves al width height).1 :: (leaves al width height).2 :: rest) := by
  induction t generalizing t' with
  | free r =>
    rw [allocPlace] at hp
    split_ifs at hp with hfit
    obtain ⟨rfl, rfl⟩ := Prod.ext_iff.mp (Option.some.inj hp)
    exact ⟨hfit, rfl, [], List.Perm.refl _, List.Perm.refl _⟩
  | split r leaf1 leaf2 ih1 ih2 =>
    rw [allocPlace] at hp
    split_ifs at hp with hfit
    cases h1 : allocPlace leaf1 width height with
    | some res =>
      obtain ⟨p, leaf1'⟩ := res
      rw [h1] at hp
      obtain ⟨rfl, rfl⟩ := Prod.ext_iff.mp (Option.some.inj hp)
      obtain ⟨hal, -, rest, hold, hnew⟩ := ih1 h1
      exact ⟨hal, rfl, rest ++ freeLeaves leaf2, hold.append_right _, hnew.append_right _⟩
    | none =>
      rw [h1] at hp
      obtain ⟨⟨p, leaf2'⟩, h2, heq⟩ := Option.map_eq_some_iff.mp hp
      obtain ⟨rfl, rfl⟩ := Prod.ext_iff.mp heq
      obtain ⟨hal, -, rest, hold, hnew⟩ := ih2 h2
      refine ⟨hal, rfl, freeLeaves leaf1 ++ rest, ?_, ?_⟩
      · exact (hold.append_left _).trans List.perm_middle
      · exact (hnew.append_left _).trans
          (List.perm_middle.trans (List.perm_middle.cons _))

/-- The numbers that `leaves` computes stay in 32 bits. -/
theorem toNat_cut (hr : r.Inside width height) {w h : UInt32} (hfit : allocFits r w h) :
    (r.x + w).toNat = r.x.toNat + w.toNat ∧ (r.y + h).toNat = r.y.toNat + h.toNat ∧
      (r.w - w).toNat = r.w.toNat - w.toNat ∧ (r.h - h).toNat = r.h.toNat - h.toNat := by
  have hw : w.toNat ≤ r.w.toNat := UInt32.le_iff_toNat_le.mp hfit.1
  have hh : h.toNat ≤ r.h.toNat := UInt32.le_iff_toNat_le.mp hfit.2
  have hx : r.x.toNat + w.toNat < 2 ^ 32 := by
    have := hr.1.trans_lt width.toNat_lt
    omega
  have hy : r.y.toNat + h.toNat < 2 ^ 32 := by
    have := hr.2.trans_lt height.toNat_lt
    omega
  refine ⟨?_, ?_, UInt32.toNat_sub_of_le _ _ hfit.1, UInt32.toNat_sub_of_le _ _ hfit.2⟩
  · rw [UInt32.toNat_add, Nat.mod_eq_of_lt hx]
  · rw [UInt32.toNat_add, Nat.mod_eq_of_lt hy]

/-- What is given away and the two leaves tile the leaf that was there. -/
theorem tiles_cut (hr : r.Inside width height) {w h : UInt32} (hfit : allocFits r w h) :
    Tiles Rect.covers r.covers [(leaves r w h).1, (leaves r w h).2, ⟨r.x, r.y, w, h⟩] := by
  obtain ⟨hx, hy, hdx, hdy⟩ := toNat_cut hr hfit
  have hw : w.toNat ≤ r.w.toNat := UInt32.le_iff_toNat_le.mp hfit.1
  have hh : h.toNat ≤ r.h.toNat := UInt32.le_iff_toNat_le.mp hfit.2
  have hone : ∀ P : Prop, [Decidable P] → (decide P).toNat = if P then 1 else 0 := by
    intro P _
    split_ifs with hP <;> simp [hP]
  intro p
  simp only [List.countP_cons, List.countP_nil, Rect.covers, hone, decide_eq_true_eq, leaves]
  split_ifs <;> simp only [hx, hy, hdx, hdy] at * <;> omega

/-- The new leaves are inside. -/
theorem inside_leaves (hr : r.Inside width height) {w h : UInt32} (hfit : allocFits r w h) :
    (leaves r w h).1.Inside width height ∧ (leaves r w h).2.Inside width height ∧
      (Rect.mk r.x r.y w h).Inside width height := by
  obtain ⟨hx, hy, hdx, hdy⟩ := toNat_cut hr hfit
  have hw : w.toNat ≤ r.w.toNat := UInt32.le_iff_toNat_le.mp hfit.1
  have hh : h.toNat ≤ r.h.toNat := UInt32.le_iff_toNat_le.mp hfit.2
  obtain ⟨hrx, hry⟩ := hr
  rw [leaves]
  split_ifs
  · simp only [Rect.Inside, hx, hy, hdx, hdy]
    omega
  · simp only [Rect.Inside, hx, hy, hdx, hdy]
    omega

end Tree

/-! ### The copy -/

section Copy

/-- **The loop** writes its rows and nothing else. -/
theorem copyRows_spec (surface : ℕ → UInt8) (rowsize stride n data src : ℕ) (mem : List UInt8)
    (hfit : ∀ k < n, data + k * stride + rowsize ≤ mem.length) :
    ∃ mem', copyRows rowsize stride surface n data src mem = some mem' ∧
      mem'.length = mem.length ∧ ∀ b, mem'.getD b 0 ≠ mem.getD b 0 →
        ∃ k < n, data + k * stride ≤ b ∧ b < data + k * stride + rowsize := by
  induction n generalizing data src mem with
  | zero => exact ⟨mem, rfl, rfl, fun b hb => absurd rfl hb⟩
  | succ n ih =>
    have hfirst := hfit 0 (Nat.zero_lt_succ n)
    rw [Nat.zero_mul, Nat.add_zero] at hfirst
    have hrow : data + (Bytes.slice surface src rowsize).length ≤ mem.length := by
      rwa [Bytes.length_slice]
    have hshift (k : ℕ) : data + stride + k * stride = data + (k + 1) * stride := by
      rw [Nat.succ_mul, Nat.add_assoc, Nat.add_comm stride]
    obtain ⟨mem', hmem', hlen, hrows⟩ := ih (data + stride) (src + rowsize)
      (Bytes.overwrite mem data (Bytes.slice surface src rowsize)) fun k hk => by
        rw [hshift, Bytes.length_overwrite hrow]
        exact hfit (k + 1) (Nat.succ_lt_succ hk)
    rw [copyRows, Bytes.store_of_le hrow, Option.bind_some]
    refine ⟨mem', hmem', hlen.trans (Bytes.length_overwrite hrow), fun b hb => ?_⟩
    by_cases hlater : mem'.getD b 0 =
        (Bytes.overwrite mem data (Bytes.slice surface src rowsize)).getD b 0
    · -- the byte was changed by the first row
      rw [hlater, Bytes.getD_overwrite hrow, Bytes.length_slice] at hb
      by_cases hin : data ≤ b ∧ b < data + rowsize
      · refine ⟨0, Nat.zero_lt_succ n, ?_⟩
        rwa [Nat.zero_mul, Nat.add_zero]
      · rw [if_neg hin] at hb
        exact absurd rfl hb
    · obtain ⟨k, hk, hle, hlt⟩ := hrows b hlater
      rw [hshift] at hle hlt
      exact ⟨k + 1, Nat.succ_lt_succ hk, hle, hlt⟩

/-- A byte of a row belongs to a pixel of the row. -/
theorem pixelAt_row {ps width x y w b : ℕ} (hps : 0 < ps) (hx : x + w ≤ width)
    (hle : ps * (y * width + x) ≤ b) (hlt : b < ps * (y * width + x) + ps * w) :
    x ≤ (pixelAt ps width b).1 ∧ (pixelAt ps width b).1 < x + w ∧ (pixelAt ps width b).2 = y := by
  have hlow : y * width + x ≤ b / ps := (Nat.le_div_iff_mul_le hps).mpr (by rwa [Nat.mul_comm])
  have hhigh : b / ps < y * width + x + w := by
    rw [Nat.div_lt_iff_lt_mul hps, Nat.mul_comm, Nat.mul_add]
    exact hlt
  obtain ⟨i, hi⟩ := Nat.exists_eq_add_of_le hlow
  have hiw : x + i < width := by omega
  have hmod : b / ps % width = x + i := by
    rw [hi, Nat.add_assoc, Nat.mul_add_mod', Nat.mod_eq_of_lt hiw]
  have hdiv : b / ps / width = y := by
    rw [hi, Nat.add_assoc, Nat.add_comm, Nat.add_mul_div_right _ _ (by omega),
      Nat.div_eq_of_lt hiw, Nat.zero_add]
  rw [pixelAt, hmod, hdiv]
  exact ⟨by omega, by omega, rfl⟩

theorem row_le (x y w width height : ℕ) (hx : x + w ≤ width) (hy : y < height) :
    y * width + x + w ≤ width * height := by
  calc y * width + x + w ≤ y * width + width := by omega
    _ = (y + 1) * width := (Nat.succ_mul y width).symm
    _ ≤ height * width := Nat.mul_le_mul_right width hy
    _ = width * height := Nat.mul_comm height width

/-- **`atlasCopyData`** writes pixels of the rectangle and nothing else. -/
theorem atlasCopyData_spec (atlas : AtlasT) {al : Rect} {width height w h : UInt32}
    (surface : ℕ → UInt8) (hroot : atlas.allocation.rect = ⟨0, 0, width, height⟩)
    (hmem : (pixelSize atlas.psm).toNat * (width.toNat * height.toNat) ≤ atlas.mem.length)
    (hlt : atlas.mem.length < 2 ^ 32) (hw : (w + 1).toNat = w.toNat + 1)
    (hh : (h + 1).toNat = h.toNat + 1)
    (hal : (Rect.mk al.x al.y (w + 1) (h + 1)).Inside width height) :
    ∃ mem', atlasCopyData atlas al w h surface = some mem' ∧ mem'.length = atlas.mem.length ∧
      ∀ b, mem'.getD b 0 ≠ atlas.mem.getD b 0 →
        b < (pixelSize atlas.psm).toNat * (width.toNat * height.toNat) ∧
        (Rect.mk al.x al.y (w + 1) (h + 1)).covers
          (pixelAt (pixelSize atlas.psm).toNat width.toNat b) = true := by
  rw [atlasCopyData, hroot]
  generalize pixelSize atlas.psm = ps at hmem
  dsimp only
  split_ifs with hzero
  · exact ⟨atlas.mem, rfl, rfl, fun b hb => absurd rfl hb⟩
  · have hps : 0 < ps.toNat := Nat.pos_of_ne_zero fun h0 => hzero (UInt32.toNat_inj.mp h0)
    obtain ⟨hx, hy⟩ := hal
    dsimp only at hx hy
    rw [hw] at hx
    rw [hh] at hy
    have harea : width.toNat * height.toNat ≤ ps.toNat * (width.toNat * height.toNat) :=
      Nat.le_mul_of_pos_left _ hps
    -- no product leaves 32 bits
    have hrow (k : ℕ) (hk : k ≤ h.toNat) :
        ps.toNat * ((al.y.toNat + k) * width.toNat + al.x.toNat) + ps.toNat * w.toNat ≤
          ps.toNat * (width.toNat * height.toNat) := by
      rw [← Nat.mul_add]
      exact Nat.mul_le_mul_left _ (row_le _ _ _ _ _ (by omega) (by omega))
    have hoffset : (al.y * width + al.x).toNat = al.y.toNat * width.toNat + al.x.toNat := by
      have hle := row_le al.x.toNat al.y.toNat 0 width.toNat height.toNat (by omega) (by omega)
      rw [UInt32.toNat_add, UInt32.toNat_mul, Nat.mod_add_mod, Nat.mod_eq_of_lt (by omega)]
    have hdata : (ps * (al.y * width + al.x)).toNat =
        ps.toNat * (al.y.toNat * width.toNat + al.x.toNat) := by
      have hle := hrow 0 (Nat.zero_le _)
      rw [Nat.add_zero] at hle
      rw [UInt32.toNat_mul, hoffset, Nat.mod_eq_of_lt (by omega)]
    have hstride : (ps * width).toNat = ps.toNat * width.toNat := by
      have hle : ps.toNat * width.toNat ≤ ps.toNat * (width.toNat * height.toNat) :=
        Nat.mul_le_mul_left _ (Nat.le_mul_of_pos_right _ (by omega))
      rw [UInt32.toNat_mul, Nat.mod_eq_of_lt (by omega)]
    have hsize : (w * ps).toNat = ps.toNat * w.toNat := by
      have hle := hrow 0 (Nat.zero_le _)
      rw [UInt32.toNat_mul, Nat.mul_comm, Nat.mod_eq_of_lt (by omega)]
    have hstart (k : ℕ) : ps.toNat * (al.y.toNat * width.toNat + al.x.toNat) +
        k * (ps.toNat * width.toNat) =
        ps.toNat * ((al.y.toNat + k) * width.toNat + al.x.toNat) := by
      ring
    rw [hdata, hstride, hsize]
    obtain ⟨mem', hmem', hlen, hrows⟩ := copyRows_spec surface (ps.toNat * w.toNat)
      (ps.toNat * width.toNat) h.toNat
      (ps.toNat * (al.y.toNat * width.toNat + al.x.toNat)) 0 atlas.mem fun k hk => by
        rw [hstart]
        exact (hrow k hk.le).trans hmem
    refine ⟨mem', hmem', hlen, fun b hb => ?_⟩
    obtain ⟨k, hk, hle, hlt⟩ := hrows b hb
    rw [hstart] at hle hlt
    obtain ⟨hx₁, hx₂, hy₁⟩ := pixelAt_row hps (by omega) hle hlt
    refine ⟨hlt.trans_le (hrow k hk.le), ?_⟩
    rw [Rect.covers, decide_eq_true_eq]
    dsimp only
    rw [hw, hh]
    omega

end Copy

/-! ### The runs -/

section Runs

variable {s s' : Packing} {width height : UInt32} {psm : Psm} {txtsize : ℕ} {q : Request}

/-- What holds of every state: besides the tiling, the root is the atlas, and the surface has room
for its pixels. -/
structure Packing.Inv (s : Packing) (width height : UInt32) (psm : Psm) (txtsize : ℕ) : Prop where
  root : s.atlas.allocation.rect = ⟨0, 0, width, height⟩
  format : s.atlas.psm = psm
  length : s.atlas.mem.length = txtsize
  tiles : Tiles Rect.covers (Rect.covers ⟨0, 0, width, height⟩)
    (freeLeaves s.atlas.allocation ++ s.placed)
  leaves : ∀ r ∈ freeLeaves s.atlas.allocation, r.Inside width height
  inside : ∀ r ∈ s.placed, r.Inside width height

theorem Packing.Inv.packed (h : s.Inv width height psm txtsize) : s.Packed width height where
  tiles := h.tiles
  inside := h.inside
  disjoint := (List.pairwise_append.mp h.tiles.disjoint).2.1

theorem Packing.inv_new : (Packing.mk (atlasNew width height psm txtsize) []).Inv width height psm
    txtsize where
  root := rfl
  format := rfl
  length := List.length_replicate
  tiles := tiles_singleton Rect.covers _
  leaves r hr := by
    rw [List.mem_singleton.mp hr]
    exact ⟨(Nat.zero_add _).le, (Nat.zero_add _).le⟩
  inside r hr := absurd hr List.not_mem_nil

/-- A request that changes nothing. -/
theorem Packing.framed_refl (s : Packing) (width height : UInt32) : s.Framed s width height where
  written _ hb := absurd rfl hb
  kept _ _ _ _ := rfl

/-- **A step.** -/
theorem place_spec (hs : s.Inv width height psm txtsize)
    (hmem : (pixelSize psm).toNat * (width.toNat * height.toNat) ≤ txtsize)
    (hlt : txtsize < 2 ^ 32) (hw : q.width < 2 ^ 31) (hh : q.height < 2 ^ 31) :
    ∃ s', place s q = some s' ∧ s'.Inv width height psm txtsize ∧ s.Framed s' width height := by
  have hstay : ∃ s', some s = some s' ∧ s'.Inv width height psm txtsize ∧
      s.Framed s' width height := ⟨s, rfl, hs, s.framed_refl width height⟩
  rw [place, atlasPlace]
  cases hsurface : q.surface with
  | none => exact hstay
  | some surface =>
    dsimp only
    cases hplace : allocPlace s.atlas.allocation (q.width + 1) (q.height + 1) with
    | none => exact hstay
    | some res =>
      obtain ⟨al, t'⟩ := res
      obtain ⟨hfit, hroot, rest, hold, hnew⟩ := allocPlace_spec hplace
      have hal : al.Inside width height := hs.leaves al (hold.mem_iff.mpr List.mem_cons_self)
      obtain ⟨hl1, hl2, hrect⟩ := inside_leaves hal hfit
      have hsucc {n : UInt32} (hn : n < 2 ^ 31) : (n + 1).toNat = n.toNat + 1 := by
        have hn : n.toNat < 2 ^ 31 := UInt32.lt_iff_toNat_lt.mp hn
        rw [UInt32.toNat_add]
        exact Nat.mod_eq_of_lt (by omega : n.toNat + 1 < 2 ^ 32)
      obtain ⟨mem', hcopy, hlen, hwritten⟩ := atlasCopyData_spec
        ⟨t', s.atlas.psm, s.atlas.mem⟩ surface (hroot.trans hs.root)
        (by rw [hs.length, hs.format]; exact hmem) (by rw [hs.length]; exact hlt)
        (hsucc hw) (hsucc hh) hrect
      have hrest : ∀ r ∈ rest, r.Inside width height := fun r hr =>
        hs.leaves r (hold.mem_iff.mpr (List.mem_cons_of_mem al hr))
      have htiles : Tiles Rect.covers (Rect.covers ⟨0, 0, width, height⟩)
          (freeLeaves t' ++ ⟨al.x, al.y, q.width + 1, q.height + 1⟩ :: s.placed) := by
        have hcut := (hs.tiles.perm (hold.append_right s.placed)).refine (tiles_cut hal hfit)
        refine hcut.perm ?_
        refine List.Perm.trans ?_ (hnew.symm.append_right _)
        exact ((@List.perm_middle _ _ rest s.placed).symm.cons _).cons _
      have hinv : (Packing.mk ⟨t', s.atlas.psm, mem'⟩
          (⟨al.x, al.y, q.width + 1, q.height + 1⟩ :: s.placed)).Inv width height psm txtsize := by
        refine ⟨hroot.trans hs.root, hs.format, hlen.trans hs.length, htiles, fun r hr => ?_,
          List.forall_mem_cons.mpr ⟨hrect, hs.inside⟩⟩
        rcases List.mem_cons.mp (hnew.mem_iff.mp hr) with rfl | hr
        · exact hl1
        · rcases List.mem_cons.mp hr with rfl | hr
          · exact hl2
          · exact hrest r hr
      dsimp only
      rw [hcopy]
      refine ⟨_, rfl, hinv, fun b hb => ?_, fun r hr b hb => ?_⟩
      · obtain ⟨hlt, hcovers⟩ := hwritten b hb
        exact ⟨hlt, _, rfl, hcovers⟩
      · by_contra hne
        have hdisjoint := (List.pairwise_cons.mp hinv.packed.disjoint).1 r hr
        exact hdisjoint _ ⟨(hwritten b hne).2, hb⟩

/-- **The packing.** Whatever is asked for, the rectangles that were given away are inside the atlas
and do not overlap, they tile it together with the free leaves, and the next request writes only to
the pixels of the rectangle that it gets. -/
theorem run_packs (hmem : (pixelSize psm).toNat * (width.toNat * height.toNat) ≤ txtsize)
    (hlt : txtsize < 2 ^ 32) {requests : List Request}
    (hrequests : ∀ q ∈ requests, q.width < 2 ^ 31 ∧ q.height < 2 ^ 31) :
    ∃ s, Transition.run place ⟨atlasNew width height psm txtsize, []⟩ requests = some s ∧
      s.Packed width height ∧
      ∀ q : Request, q.width < 2 ^ 31 ∧ q.height < 2 ^ 31 →
        ∃ s', place s q = some s' ∧ s'.Packed width height ∧ s.Framed s' width height := by
  have hstep (s : Packing) (q : Request) (hs : s.Inv width height psm txtsize)
      (hq : q.width < 2 ^ 31 ∧ q.height < 2 ^ 31) :
      ∃ s', place s q = some s' ∧ s'.Inv width height psm txtsize := by
    obtain ⟨s', hs', hinv, -⟩ := place_spec hs hmem hlt hq.1 hq.2
    exact ⟨s', hs', hinv⟩
  obtain ⟨s, hrun, hs⟩ := Transition.run_total hstep Packing.inv_new hrequests
  refine ⟨s, hrun, hs.packed, fun q hq => ?_⟩
  obtain ⟨s', hs', hinv, hframed⟩ := place_spec hs hmem hlt hq.1 hq.2
  exact ⟨s', hs', hinv.packed, hframed⟩

/-- Two glyphs that fit, one that does not, and one without pixels. -/
def fourGlyphs : List Request :=
  [⟨1, 2, some fun _ => 0xFF⟩, ⟨8, 8, some fun _ => 0xFF⟩, ⟨2, 1, some fun _ => 0xEE⟩, ⟨0, 0, none⟩]

theorem run_packs_fourGlyphs :
    (Transition.run place ⟨atlasNew 8 8 .t8 64, []⟩ fourGlyphs).map Packing.placed =
      some [⟨2, 0, 3, 2⟩, ⟨0, 0, 2, 3⟩] ∧
    ∃ s, Transition.run place ⟨atlasNew 8 8 .t8 64, []⟩ fourGlyphs = some s ∧ s.Packed 8 8 ∧
      ∀ q : Request, q.width < 2 ^ 31 ∧ q.height < 2 ^ 31 →
        ∃ s', place s q = some s' ∧ s'.Packed 8 8 ∧ s.Framed s' 8 8 :=
  ⟨by decide, run_packs (by decide) (by decide) (by decide)⟩

end Runs

end Atlas

end OpenPS2Loader
