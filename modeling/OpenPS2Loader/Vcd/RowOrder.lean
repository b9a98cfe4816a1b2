import Mathlib.Data.Finset.Dedup
import Mathlib.Data.Finset.Insert
import Mathlib.Data.Set.Function
import OpenPS2Loader.Menu.Submenu

/-!
# The order of the PS1 rows

The rows of a PS1 list are sorted by `ps1RowCmp` with `qsort`, and then put in a submenu that is
sorted once more. `ps1RowCmp` compares what is left of the names when the ids are hidden, without
regard to case, and then the extensions. A result of `qsort` is any sorted arrangement of the rows:
the order of rows that compare equal is not known.

Two discs of a game with one title compare equal when their ids are hidden, and so do names that
differ in case.

## Main definitions

* `Vcd.ps1RowCmp`
* `Vcd.Arranged` — a result of `qsort`
* `Vcd.Deterministic` — the order is a strict total order, there is only one result, and
  `submenuSort` leaves it as it is

## Main results

* `Vcd.submenuSort_of_arranged` — a menu of the sorted rows is sorted
* `Vcd.deterministic_iff`
-/

namespace OpenPS2Loader

namespace Vcd

/-- What is compared of a `base_game_info_t`. -/
structure Row where
  name : Text
  extension : Text
  deriving DecidableEq

theorem isSome_vcdSortKey (hide : Bool) (name : Text) :
    (vcdSortKey hide (some name)).isSome = true := by
  cases hide <;> rfl

/-- `vcdSortKey` of a name that is there. -/
def sortTitle (hide : Bool) (r : Row) : Text :=
  (vcdSortKey hide (some r.name)).get (isSome_vcdSortKey hide r.name)

/-- `ps1RowCmp`, with `gVcdHideGameId` as its first argument. -/
def ps1RowCmp (hide : Bool) (a b : Row) : Ordering :=
  (Submenu.strcasecmp (sortTitle hide a) (sortTitle hide b)).then
    (Submenu.strcasecmp a.extension b.extension)

/-- The rows in an order that `qsort` may give them. -/
structure Arranged (hide : Bool) (rows : Finset Row) (l : List Row) : Prop where
  nodup : l.Nodup
  mem_iff : ∀ r, r ∈ l ↔ r ∈ rows
  sorted : l.Pairwise fun a b => ps1RowCmp hide a b ≠ .gt

/-- The item shows the row of a PS1 list: its text is the name. -/
structure Shows (e : Submenu.SortEnv) (it : Submenu.Item) (r : Row) : Prop where
  text : it.text = some r.name
  textId : it.textId < 0
  isFolder : it.isFolder = false
  view : libListRowView e.support it.id = .ps1

/-- The order of a set of rows does not depend on how they were found. -/
structure Deterministic (hide : Bool) (rows : Finset Row) : Prop where
  antisymm : ∀ a ∈ rows, ∀ b ∈ rows, ps1RowCmp hide a b = .lt ↔ ps1RowCmp hide b a = .gt
  trans : ∀ a ∈ rows, ∀ b ∈ rows, ∀ c ∈ rows, ps1RowCmp hide a b = .lt →
    ps1RowCmp hide b c = .lt → ps1RowCmp hide a c = .lt
  eq_iff : ∀ a ∈ rows, ∀ b ∈ rows, ps1RowCmp hide a b = .eq ↔ a = b
  exists_arranged : ∃ l, Arranged hide rows l
  unique : ∀ l l', Arranged hide rows l → Arranged hide rows l' → l = l'
  menu : ∀ l, Arranged hide rows l → ∀ (m : Submenu.Menu) (e : Submenu.SortEnv)
    (nodes : List (ℕ × Submenu.Item)), e.hide = hide → Submenu.WellLinked m nodes →
    List.Forall₂ (fun n r => Shows e n.2 r) nodes l →
    ∃ m', Submenu.submenuSort m e = some m' ∧ Submenu.WellLinked m' nodes

/-- What two rows are compared by. -/
def rowKey (hide : Bool) (r : Row) : Text × Text :=
  ((sortTitle hide r).map Char.toLower, r.extension.map Char.toLower)

/-! ### The comparison -/

section Cmp

variable {hide : Bool} {a b c : Row}

theorem ps1RowCmp_eq (hide : Bool) :
    ps1RowCmp hide = compareLex (compareOn fun r => (rowKey hide r).1)
      (compareOn fun r => (rowKey hide r).2) := rfl

theorem transCmp_ps1RowCmp (hide : Bool) : Std.TransCmp (ps1RowCmp hide) := by
  rw [ps1RowCmp_eq]
  infer_instance

/-- Rows compare equal when they have the same key. -/
theorem ps1RowCmp_eq_eq : ps1RowCmp hide a b = .eq ↔ rowKey hide a = rowKey hide b := by
  rw [ps1RowCmp, Ordering.then_eq_eq, Submenu.strcasecmp, Submenu.strcasecmp,
    Std.LawfulEqOrd.compare_eq_iff_eq, Std.LawfulEqOrd.compare_eq_iff_eq, rowKey, rowKey,
    Prod.mk.injEq]

theorem ps1RowCmp_eq_lt : ps1RowCmp hide a b = .lt ↔ ps1RowCmp hide b a = .gt := by
  have := transCmp_ps1RowCmp hide
  exact Std.OrientedCmp.gt_iff_lt.symm

end Cmp

/-! ### The menu -/

section Menu

variable {e : Submenu.SortEnv} {it it' : Submenu.Item} {r r' : Row}

/-- The title of the row on the screen is the one it was sorted by. -/
theorem Shows.rowTitle_eq (h : Shows e it r) : Submenu.rowTitle e it = sortTitle e.hide r := by
  have hraw : Submenu.submenuItemGetText e.lang it = some r.name := by
    rw [Submenu.submenuItemGetText, if_neg (not_le.mpr h.textId), h.text]
  have htext : Submenu.rowText e it = vcdSortKey e.hide (some r.name) := by
    rw [Submenu.rowText, h.isFolder, if_neg Bool.false_ne_true, hraw, vcdDisplayNameForRow, h.view]
    cases hsup : e.support with
    | none =>
      have hview := h.view
      rw [hsup] at hview
      cases hview
    | some l =>
      cases e.hide <;> rfl
  simp only [Submenu.rowTitle, sortTitle, htext]

theorem rowGreater_of_shows (h : Shows e it r) (h' : Shows e it' r')
    (hle : ps1RowCmp e.hide r r' ≠ .gt) : Submenu.rowGreater e it it' = false := by
  rw [Submenu.rowGreater, h.isFolder, h'.isFolder, if_neg (not_not.mpr rfl), h.rowTitle_eq,
    h'.rowTitle_eq, beq_eq_false_iff_ne]
  intro hgt
  rw [ps1RowCmp, hgt] at hle
  exact hle rfl

theorem exists_shows {nodes : List (ℕ × Submenu.Item)} {l : List Row} {n : ℕ × Submenu.Item}
    (h : List.Forall₂ (fun n r => Shows e n.2 r) nodes l) (hn : n ∈ nodes) :
    ∃ r ∈ l, Shows e n.2 r := by
  induction h with
  | nil => cases hn
  | cons hhead _ ih =>
    obtain rfl | hn := List.mem_cons.mp hn
    · exact ⟨_, List.mem_cons_self, hhead⟩
    · obtain ⟨r, hr, hshows⟩ := ih hn
      exact ⟨r, List.mem_cons_of_mem _ hr, hshows⟩

/-- **`submenuSort` keeps the order** that the rows were sorted in before. -/
theorem submenuSort_of_arranged {m : Submenu.Menu} {nodes : List (ℕ × Submenu.Item)}
    {l : List Row} (hsorted : l.Pairwise fun a b => ps1RowCmp e.hide a b ≠ .gt)
    (hm : Submenu.WellLinked m nodes) (hl : List.Forall₂ (fun n r => Shows e n.2 r) nodes l) :
    ∃ m', Submenu.submenuSort m e = some m' ∧ Submenu.WellLinked m' nodes := by
  have hnodes : nodes.Pairwise fun p q => Submenu.nodeGreater e p q = false := by
    clear hm
    induction hl with
    | nil => exact List.Pairwise.nil
    | @cons n r nodes l hn hl ih =>
      obtain ⟨hhead, htail⟩ := List.pairwise_cons.mp hsorted
      refine List.pairwise_cons.mpr ⟨fun p hp => ?_, ih htail⟩
      obtain ⟨r', hr', hshows⟩ := exists_shows hl hp
      exact rowGreater_of_shows hn hshows (hhead r' hr')
  obtain ⟨m', nodes', hm', hlinked, hstable⟩ := Submenu.submenuSort_of_wellLinked hm e
  obtain rfl := hstable.unique (Submenu.strictWeak_nodeGreater e)
    (StableSort.Stable.of_sorted hnodes)
  exact ⟨m', hm', hlinked⟩

end Menu

/-! ### Arrangements -/

section Arranged

variable {hide : Bool} {rows : Finset Row} {l l' : List Row}

theorem exists_arranged (hide : Bool) (rows : Finset Row) : ∃ l, Arranged hide rows l := by
  have htrans := transCmp_ps1RowCmp hide
  obtain ⟨l, -, hstable⟩ := StableSort.sort_stable (l := rows.toList)
    (StableSort.strictWeak_of_cmp (ps1RowCmp hide)) (Nat.lt_succ_self _)
  refine ⟨l, hstable.perm.nodup_iff.mpr rows.nodup_toList, fun r => ?_, ?_⟩
  · rw [hstable.perm.mem_iff, Finset.mem_toList]
  · exact hstable.sorted.imp fun h => beq_eq_false_iff_ne.mp h

/-- Rows with different keys have one arrangement only. -/
theorem Arranged.unique (hkey : Set.InjOn (rowKey hide) rows) (h : Arranged hide rows l)
    (h' : Arranged hide rows l') : l = l' := by
  have htrans := transCmp_ps1RowCmp hide
  have hperm : l.Perm l' := (List.perm_ext_iff_of_nodup h.nodup h'.nodup).mpr fun r =>
    (h.mem_iff r).trans (h'.mem_iff r).symm
  refine List.Perm.eq_of_pairwise ?_ h.sorted h'.sorted hperm
  intro a b ha hb hab hba
  have heq : ps1RowCmp hide a b = .eq := by
    cases hcmp : ps1RowCmp hide a b with
    | lt => exact absurd (ps1RowCmp_eq_lt.mp hcmp) hba
    | eq => rfl
    | gt => exact absurd hcmp hab
  exact hkey ((h.mem_iff a).mp ha) ((h'.mem_iff b).mp hb) (ps1RowCmp_eq_eq.mp heq)

/-- **The order of the rows is deterministic** if and only if no two of them have the same title
and the same extension, up to case and without the ids that are hidden. -/
theorem deterministic_iff (hide : Bool) (rows : Finset Row) :
    Deterministic hide rows ↔ Set.InjOn (rowKey hide) rows := by
  have htrans := transCmp_ps1RowCmp hide
  constructor
  · intro h a ha b hb hab
    exact (h.eq_iff a ha b hb).mp (ps1RowCmp_eq_eq.mpr hab)
  · intro hkey
    refine ⟨fun _ _ _ _ => ps1RowCmp_eq_lt, fun _ _ _ _ _ _ => Std.TransCmp.lt_trans, ?_,
      exists_arranged hide rows, fun l l' => Arranged.unique hkey, ?_⟩
    · intro a ha b hb
      constructor
      · intro hab
        exact hkey ha hb (ps1RowCmp_eq_eq.mp hab)
      · rintro rfl
        exact ps1RowCmp_eq_eq.mpr rfl
    · rintro l hl m e nodes rfl hm hshows
      exact submenuSort_of_arranged hl.sorted hm hshows

end Arranged

/-- Two discs of a game compare equal when the ids are hidden. -/
theorem not_deterministic_hidden :
    ¬ Deterministic true {⟨"SLUS_005.51.Game".toList, ".VCD".toList⟩,
      ⟨"SLES_012.58.Game".toList, ".VCD".toList⟩} := by
  intro h
  have heq := (h.eq_iff _ (Finset.mem_insert_self _ _) _
    (Finset.mem_insert_of_mem (Finset.mem_singleton_self _))).mp (by decide)
  exact absurd heq (by decide)

end Vcd

end OpenPS2Loader
