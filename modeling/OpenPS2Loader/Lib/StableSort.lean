import Mathlib.Data.List.Basic

/-!
# Bubble sort

Neighbours are exchanged while the first is greater than the second, in passes over the list, until
a pass exchanges nothing. `gt` is a test as a program has it: "greater" of a comparison that returns
a number. For a comparison by a key it is a strict weak order, and the sort is stable: elements of
which none is greater than the other keep their order. There is only one list that is sorted and has
them in their order.

## Main definitions

* `StableSort.StrictWeak` — the comparisons by a key
* `StableSort.carry`, `StableSort.pass`, `StableSort.sort` — the sort
* `StableSort.Stable` — a list is the stable sort of another one

## Main results

* `StableSort.sort_stable` — the sort comes to an end with the stable sort
* `StableSort.Stable.unique`
-/

namespace OpenPS2Loader

namespace StableSort

variable {α : Type*} (gt : α → α → Bool)

/-- `gt` compares by a key. -/
structure StrictWeak : Prop where
  asymm : ∀ a b, gt a b = true → gt b a = false
  trans : ∀ a b c, gt a b = false → gt b c = false → gt a c = false

/-- None of the two is greater. -/
def tied (a b : α) : Bool := !gt a b && !gt b a

/-- The rest of a pass with `a` before the elements that are left, and whether two elements were
exchanged. -/
def carry : α → List α → List α × Bool
  | a, [] => ([a], false)
  | a, b :: l =>
    if gt a b then (b :: (carry a l).1, true) else (a :: (carry b l).1, (carry b l).2)

/-- One pass. -/
def pass : List α → List α × Bool
  | [] => ([], false)
  | a :: l => carry gt a l

/-- Passes until one exchanges nothing. -/
def sort : ℕ → List α → Option (List α)
  | 0, _ => none
  | fuel + 1, l => if (pass gt l).2 then sort fuel (pass gt l).1 else some (pass gt l).1

/-- The list `l'` has the elements of `l`, sorted, with tied elements in the order of `l`. -/
structure Stable (l l' : List α) : Prop where
  perm : l'.Perm l
  sorted : l'.Pairwise fun a b => gt a b = false
  stable : ∀ a, l'.filter (tied gt a) = l.filter (tied gt a)

/-- The pairs that are in the wrong order. -/
def inversions : List α → ℕ
  | [] => 0
  | a :: l => l.countP (gt a) + inversions l

variable {gt} {a b c : α} {l l' l'' : List α}

theorem StrictWeak.irrefl (h : StrictWeak gt) (a : α) : gt a a = false := by
  cases haa : gt a a with
  | false => rfl
  | true =>
    rw [h.asymm a a haa] at haa
    cases haa

/-- The comparisons by a lawful order. -/
theorem strictWeak_of_cmp (cmp : α → α → Ordering) [Std.TransCmp cmp] :
    StrictWeak fun a b => cmp a b == .gt where
  asymm a b h := by
    rw [beq_iff_eq] at h
    rw [beq_eq_false_iff_ne, Std.OrientedCmp.lt_of_gt h]
    exact Ordering.noConfusion
  trans a b c hab hbc := by
    rw [beq_eq_false_iff_ne] at *
    exact Ordering.isLE_iff_ne_gt.mp (Std.TransCmp.isLE_trans (Ordering.isLE_iff_ne_gt.mpr hab)
      (Ordering.isLE_iff_ne_gt.mpr hbc))

/-- The elements are compared by a part of them. -/
theorem StrictWeak.on {β : Type*} (h : StrictWeak gt) (f : β → α) :
    StrictWeak fun x y => gt (f x) (f y) :=
  ⟨fun x y => h.asymm (f x) (f y), fun x y z => h.trans (f x) (f y) (f z)⟩

theorem tied_iff : tied gt a b = true ↔ gt a b = false ∧ gt b a = false := by simp [tied]

/-- Two elements that a third one is tied to are tied. -/
theorem StrictWeak.not_gt_of_tied (h : StrictWeak gt) (ha : tied gt c a = true)
    (hb : tied gt c b = true) : gt a b = false :=
  h.trans a c b (tied_iff.mp ha).2 (tied_iff.mp hb).1

/-- Tied elements are tied to the same elements. -/
theorem StrictWeak.tied_congr (h : StrictWeak gt) (hab : tied gt a b = true) :
    tied gt a c = tied gt b c := by
  obtain ⟨hab, hba⟩ := tied_iff.mp hab
  refine Bool.eq_iff_iff.mpr (tied_iff.trans (Iff.trans ?_ tied_iff.symm))
  constructor
  · rintro ⟨hac, hca⟩
    exact ⟨h.trans b a c hba hac, h.trans c a b hca hab⟩
  · rintro ⟨hbc, hcb⟩
    exact ⟨h.trans a b c hab hbc, h.trans c b a hcb hba⟩

/-! ### A pass -/

theorem perm_carry (a : α) (l : List α) : (carry gt a l).1.Perm (a :: l) := by
  induction l generalizing a with
  | nil => exact List.Perm.refl _
  | cons b l ih =>
    rw [carry]
    split
    · exact ((ih a).cons b).trans (List.Perm.swap a b l)
    · exact (ih b).cons a

theorem filter_carry (h : StrictWeak gt) (c a : α) (l : List α) :
    (carry gt a l).1.filter (tied gt c) = (a :: l).filter (tied gt c) := by
  induction l generalizing a with
  | nil => rfl
  | cons b l ih =>
    rw [carry]
    split
    next hgt =>
      have hone : ¬(tied gt c a = true ∧ tied gt c b = true) := by
        rintro ⟨ha, hb⟩
        rw [h.not_gt_of_tied ha hb] at hgt
        cases hgt
      dsimp only
      rw [List.filter_cons, ih a, List.filter_cons, List.filter_cons, List.filter_cons]
      split_ifs with hb ha
      · exact absurd ⟨ha, hb⟩ hone
      · rfl
      · rfl
      · rfl
    next =>
      dsimp only
      rw [List.filter_cons, ih b, List.filter_cons (x := a)]

/-- A pass that exchanges nothing has found the elements in order. -/
theorem carry_of_not_swapped (h : StrictWeak gt) (hs : (carry gt a l).2 = false) :
    (carry gt a l).1 = a :: l ∧ (a :: l).Pairwise fun a b => gt a b = false := by
  induction l generalizing a with
  | nil => exact ⟨rfl, List.pairwise_singleton _ _⟩
  | cons b l ih =>
    rw [carry] at hs ⊢
    split at hs
    · cases hs
    next hgt =>
      obtain ⟨heq, hsorted⟩ := ih hs
      have hab : gt a b = false := eq_false_of_ne_true hgt
      rw [if_neg hgt]
      refine ⟨congrArg _ heq, List.pairwise_cons.mpr ⟨fun c hc => ?_, hsorted⟩⟩
      obtain rfl | hc := List.mem_cons.mp hc
      · exact hab
      · exact h.trans a b c hab ((List.pairwise_cons.mp hsorted).1 c hc)

/-- Each exchange removes one pair from the wrong ones. -/
theorem inversions_carry (h : StrictWeak gt) (a : α) (l : List α) :
    inversions gt (carry gt a l).1 ≤ inversions gt (a :: l) ∧
      ((carry gt a l).2 = true → inversions gt (carry gt a l).1 < inversions gt (a :: l)) := by
  induction l generalizing a with
  | nil => exact ⟨Nat.le_refl _, fun h => nomatch h⟩
  | cons b l ih =>
    rw [carry]
    split
    next hgt =>
      have hcount : (carry gt a l).1.countP (gt b) = l.countP (gt b) := by
        rw [(perm_carry a l).countP_eq, List.countP_cons_of_neg]
        rw [h.asymm a b hgt]
        exact Bool.false_ne_true
      have hle := (ih a).1
      have hlt : inversions gt (b :: (carry gt a l).1) < inversions gt (a :: b :: l) := by
        rw [inversions, inversions, inversions, hcount, List.countP_cons_of_pos hgt]
        rw [inversions] at hle
        omega
      exact ⟨Nat.le_of_lt hlt, fun _ => hlt⟩
    next hgt =>
      have hcount : (carry gt b l).1.countP (gt a) = (b :: l).countP (gt a) :=
        (perm_carry b l).countP_eq _
      obtain ⟨hle, hlt⟩ := ih b
      dsimp only
      rw [inversions, inversions, hcount]
      exact ⟨Nat.add_le_add_left hle _, fun hs => Nat.add_lt_add_left (hlt hs) _⟩

/-- There are no more pairs than places for the two. -/
theorem inversions_le (l : List α) : inversions gt l ≤ l.length * l.length := by
  induction l with
  | nil => exact Nat.le_refl _
  | cons a l ih =>
    rw [inversions, List.length_cons, Nat.succ_mul_succ]
    have hcount := List.countP_le_length (p := gt a) (l := l)
    omega

theorem perm_pass (l : List α) : (pass gt l).1.Perm l := by
  cases l with
  | nil => exact List.Perm.refl _
  | cons a l => exact perm_carry a l

theorem filter_pass (h : StrictWeak gt) (c : α) (l : List α) :
    (pass gt l).1.filter (tied gt c) = l.filter (tied gt c) := by
  cases l with
  | nil => rfl
  | cons a l => exact filter_carry h c a l

theorem sorted_pass (h : StrictWeak gt) (hs : (pass gt l).2 = false) :
    (pass gt l).1.Pairwise fun a b => gt a b = false := by
  cases l with
  | nil => exact List.Pairwise.nil
  | cons a l =>
    obtain ⟨heq, hsorted⟩ := carry_of_not_swapped h hs
    show (carry gt a l).1.Pairwise fun a b => gt a b = false
    rw [heq]
    exact hsorted

theorem inversions_pass (h : StrictWeak gt) (hs : (pass gt l).2 = true) :
    inversions gt (pass gt l).1 < inversions gt l := by
  cases l with
  | nil => cases hs
  | cons a l => exact (inversions_carry h a l).2 hs

/-! ### The sort -/

/-- **The sort comes to an end** after as many passes as there are pairs in the wrong order, and one
more, with the stable sort of the list. -/
theorem sort_stable (h : StrictWeak gt) {fuel : ℕ} {l : List α} (hfuel : inversions gt l < fuel) :
    ∃ l', sort gt fuel l = some l' ∧ Stable gt l l' := by
  induction fuel generalizing l with
  | zero => exact absurd hfuel (Nat.not_lt_zero _)
  | succ fuel ih =>
    rw [sort]
    split
    next hs =>
      have hlt := inversions_pass h hs
      obtain ⟨l', hl', hstable⟩ := ih (l := (pass gt l).1) (by omega)
      exact ⟨l', hl', hstable.perm.trans (perm_pass l), hstable.sorted,
        fun a => (hstable.stable a).trans (filter_pass h a l)⟩
    next hs =>
      exact ⟨_, rfl, perm_pass l, sorted_pass h (eq_false_of_ne_true hs),
        fun a => filter_pass h a l⟩

/-- A list that is sorted by a part of its elements has the parts sorted. -/
theorem Stable.map {β : Type*} (h : StrictWeak gt) {f : β → α} {t t' : List β}
    (ht : Stable (fun x y => gt (f x) (f y)) t t') : Stable gt (t.map f) (t'.map f) := by
  refine ⟨ht.perm.map f, List.pairwise_map.mpr ht.sorted, fun a => ?_⟩
  rw [List.filter_map, List.filter_map]
  by_cases hmem : ∃ x ∈ t, tied gt a (f x) = true
  · obtain ⟨x, -, hx⟩ := hmem
    have heq : tied gt a ∘ f = tied (fun x y => gt (f x) (f y)) x := funext fun y => h.tied_congr hx
    rw [heq, ht.stable x]
  · have hnone : ∀ x ∈ t, ¬ (tied gt a ∘ f) x = true := fun x hx htied => hmem ⟨x, hx, htied⟩
    rw [List.filter_eq_nil_iff.mpr hnone,
      List.filter_eq_nil_iff.mpr fun x hx => hnone x (ht.perm.mem_iff.mp hx)]

theorem Stable.of_sorted (hs : l.Pairwise fun a b => gt a b = false) : Stable gt l l :=
  ⟨List.Perm.refl _, hs, fun _ => rfl⟩

/-- The heads of two stable sorts are the same. -/
theorem Stable.head_eq {t t' : List α} (h : StrictWeak gt) (hl : Stable gt l (a :: t))
    (hl' : Stable gt l (b :: t')) : a = b := by
  have hle : ∀ {x y : α} {u u' : List α}, Stable gt l (x :: u) → Stable gt l (y :: u') →
      gt x y = false := by
    intro x y u u' hx hy
    have hmem : y ∈ x :: u := (hx.perm.trans hy.perm.symm).mem_iff.mpr List.mem_cons_self
    obtain rfl | hmem := List.mem_cons.mp hmem
    · exact h.irrefl y
    · exact (List.pairwise_cons.mp hx.sorted).1 y hmem
  have haa : tied gt a a = true := tied_iff.mpr ⟨h.irrefl a, h.irrefl a⟩
  have hab : tied gt a b = true := tied_iff.mpr ⟨hle hl hl', hle hl' hl⟩
  have heq := (hl.stable a).trans (hl'.stable a).symm
  rw [List.filter_cons_of_pos haa, List.filter_cons_of_pos hab] at heq
  exact (List.cons.inj heq).1

/-- **The stable sort is unique.** -/
theorem Stable.unique (h : StrictWeak gt) (hl : Stable gt l l') (hl' : Stable gt l l'') :
    l' = l'' := by
  induction l' generalizing l l'' with
  | nil =>
    have hnil : l''.Perm [] := hl'.perm.trans hl.perm.symm
    exact hnil.eq_nil.symm
  | cons a t ih =>
    cases l'' with
    | nil =>
      have hnil : (a :: t).Perm [] := hl.perm.trans hl'.perm.symm
      cases hnil.eq_nil
    | cons b t' =>
      obtain rfl := Stable.head_eq h hl hl'
      refine congrArg _ (ih (l := t) ?_ ?_)
      · exact Stable.of_sorted (List.pairwise_cons.mp hl.sorted).2
      · refine ⟨((hl'.perm.trans hl.perm.symm).cons_inv), (List.pairwise_cons.mp hl'.sorted).2,
          fun c => ?_⟩
        have heq := (hl'.stable c).trans (hl.stable c).symm
        rw [List.filter_cons, List.filter_cons] at heq
        split at heq
        · exact (List.cons.inj heq).2
        · exact heq

end StableSort

end OpenPS2Loader
