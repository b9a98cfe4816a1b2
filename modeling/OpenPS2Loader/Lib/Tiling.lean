import Mathlib.Data.List.Basic

/-!
# Tilings

A list of pieces tiles a whole when each point of the whole lies in exactly one of them, and the
other points in none. A piece may be replaced by pieces that tile it.

## Main definitions

* `Tiles`

## Main results

* `Tiles.refine` — a piece is cut
* `Tiles.disjoint`
-/

namespace OpenPS2Loader

variable {ι α : Type*} {covers : ι → α → Bool} {whole : α → Bool} {i : ι} {l parts : List ι}

/-- The pieces `l` tile the whole. -/
def Tiles (covers : ι → α → Bool) (whole : α → Bool) (l : List ι) : Prop :=
  ∀ p, l.countP (fun i => covers i p) = (whole p).toNat

theorem tiles_singleton (covers : ι → α → Bool) (i : ι) : Tiles covers (covers i) [i] := by
  intro p
  rw [List.countP_singleton]
  cases covers i p <;> rfl

theorem Tiles.perm {l' : List ι} (h : Tiles covers whole l) (hp : l.Perm l') :
    Tiles covers whole l' := fun p => (hp.countP_eq _).symm.trans (h p)

/-- A piece is cut into others. -/
theorem Tiles.refine (h : Tiles covers whole (i :: l)) (hparts : Tiles covers (covers i) parts) :
    Tiles covers whole (parts ++ l) := by
  intro p
  have hp := h p
  rw [List.countP_cons] at hp
  rw [List.countP_append, hparts p, ← hp, Nat.add_comm]
  cases covers i p <;> rfl

/-- No point lies in two pieces. -/
theorem Tiles.disjoint (h : Tiles covers whole l) :
    l.Pairwise fun i j => ∀ p, ¬ (covers i p = true ∧ covers j p = true) := by
  have hle : ∀ p, l.countP (fun i => covers i p) ≤ 1 := fun p => h p ▸ Bool.toNat_le (whole p)
  clear h
  induction l with
  | nil => exact List.Pairwise.nil
  | cons i l ih =>
    refine List.Pairwise.cons (fun j hj p hboth => ?_) (ih fun p => ?_)
    · have hp := hle p
      have hpos : 0 < l.countP fun i => covers i p := List.countP_pos_iff.mpr ⟨j, hj, hboth.2⟩
      rw [List.countP_cons, if_pos hboth.1] at hp
      omega
    · have hp := hle p
      rw [List.countP_cons] at hp
      omega

end OpenPS2Loader
