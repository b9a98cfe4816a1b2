import Mathlib.Data.List.Nodup
import OpenPS2Loader.Lib.DoublyLinked

/-!
# Segments of doubly linked lists

A list of addresses with their data says what a piece of a doubly linked list is: every node has a
link to the next one and a link back, and the ends have the links `prev` and `next` that the
segment is given. Segments are cut and joined, and the link at an end is written.

## Main definitions

* `DList.Seg` — the nodes stand one behind the other
* `DList.modifyAt` — a node is written through a pointer that may be null

## Main results

* `DList.seg_append` — a segment is two segments, one behind the other
* `DList.Seg.exists_setNext`, `DList.Seg.exists_setPrev` — an end gets another neighbour
-/

namespace OpenPS2Loader

namespace DList

variable {α : Type*} {cells cells' : ℕ → Option (DNode α)} {prev next : Option ℕ}
  {l l₁ l₂ : List (ℕ × α)} {a : ℕ} {x : α}

/-- The address of the first node. -/
def firstAddr (l : List (ℕ × α)) : Option ℕ := l.head?.map Prod.fst

/-- The address of the last node. -/
def lastAddr (l : List (ℕ × α)) : Option ℕ := l.getLast?.map Prod.fst

/-- The nodes stand one behind the other, behind `prev` and before `next`. -/
def Seg (cells : ℕ → Option (DNode α)) : Option ℕ → List (ℕ × α) → Option ℕ → Prop
  | _, [], _ => True
  | prev, (a, x) :: l, next =>
    cells a = some ⟨x, (firstAddr l).or next, prev⟩ ∧ Seg cells (some a) l next

/-- The node behind a pointer, if there is one, is written. -/
def modifyAt (cells : ℕ → Option (DNode α)) (ptr : Option ℕ) (f : DNode α → DNode α) :
    Option (ℕ → Option (DNode α)) :=
  match ptr with
  | none => some cells
  | some a => modify cells a f

/-! ### Addresses -/

@[simp] theorem firstAddr_nil : firstAddr ([] : List (ℕ × α)) = none := rfl

@[simp] theorem firstAddr_cons : firstAddr ((a, x) :: l) = some a := rfl

@[simp] theorem lastAddr_nil : lastAddr ([] : List (ℕ × α)) = none := rfl

@[simp] theorem lastAddr_concat : lastAddr (l ++ [(a, x)]) = some a := by
  simp [lastAddr]

theorem firstAddr_append (l₁ l₂ : List (ℕ × α)) :
    firstAddr (l₁ ++ l₂) = (firstAddr l₁).or (firstAddr l₂) := by
  cases l₁ <;> rfl

theorem lastAddr_cons (a : ℕ) (x : α) (l : List (ℕ × α)) :
    lastAddr ((a, x) :: l) = (lastAddr l).or (some a) := by
  rw [lastAddr, List.getLast?_cons, lastAddr]
  cases l.getLast? <;> rfl

/-! ### Segments -/

/-- A segment is two segments, one behind the other. -/
theorem seg_append :
    Seg cells prev (l₁ ++ l₂) next ↔
      Seg cells prev l₁ ((firstAddr l₂).or next) ∧ Seg cells ((lastAddr l₁).or prev) l₂ next := by
  induction l₁ generalizing prev with
  | nil => simp [Seg]
  | cons n l₁ ih =>
    obtain ⟨a, x⟩ := n
    rw [List.cons_append, Seg, ih, Seg, firstAddr_append, lastAddr_cons, Option.or_assoc,
      Option.or_assoc, Option.some_or, and_assoc]

/-- Only the cells of its nodes matter. -/
theorem Seg.congr (h : Seg cells prev l next) (heq : ∀ b ∈ l.map Prod.fst, cells' b = cells b) :
    Seg cells' prev l next := by
  induction l generalizing prev with
  | nil => trivial
  | cons n l ih =>
    obtain ⟨hcell, hseg⟩ := h
    refine ⟨?_, ih hseg fun b hb => heq b (List.mem_cons_of_mem _ hb)⟩
    rw [heq n.1 List.mem_cons_self, hcell]

theorem Seg.update (h : Seg cells prev l next) (ha : a ∉ l.map Prod.fst) (c : Option (DNode α)) :
    Seg (Function.update cells a c) prev l next :=
  h.congr fun _ hb => Function.update_of_ne (ne_of_mem_of_not_mem hb ha) _ _

/-- The cell of a node. -/
theorem Seg.cell (h : Seg cells prev (l₁ ++ (a, x) :: l₂) next) :
    cells a = some ⟨x, (firstAddr l₂).or next, (lastAddr l₁).or prev⟩ :=
  (seg_append.mp h).2.1

theorem modify_eq {n : DNode α} (h : cells a = some n) (f : DNode α → DNode α) :
    modify cells a f = some (Function.update cells a (some (f n))) := by
  rw [modify, h]
  rfl

/-- Another node stands behind the last one. -/
theorem Seg.exists_setNext (h : Seg cells prev l next) (hnd : (l.map Prod.fst).Nodup)
    (next' : Option ℕ) :
    ∃ cells', modifyAt cells (lastAddr l) (fun n => { n with next := next' }) = some cells' ∧
      Seg cells' prev l next' ∧ ∀ b ∉ l.map Prod.fst, cells' b = cells b := by
  obtain rfl | ⟨k, ⟨a, x⟩, rfl⟩ := List.eq_nil_or_concat l
  · exact ⟨cells, rfl, trivial, fun _ _ => rfl⟩
  · rw [List.concat_eq_append] at *
    rw [List.map_append, List.nodup_append] at hnd
    have ha : a ∉ k.map Prod.fst := fun hmem =>
      hnd.2.2 a hmem a (List.mem_singleton_self a) rfl
    refine ⟨_, by rw [lastAddr_concat]; exact modify_eq h.cell _, ?_, ?_⟩
    · refine seg_append.mpr ⟨((seg_append.mp h).1).update ha _, ?_, trivial⟩
      rw [Function.update_self]
      rfl
    · intro b hb
      refine Function.update_of_ne (fun heq => hb ?_) _ _
      rw [heq, List.map_append]
      exact List.mem_append_right _ (List.mem_singleton_self a)

/-- Another node stands before the first one. -/
theorem Seg.exists_setPrev (h : Seg cells prev l next) (hnd : (l.map Prod.fst).Nodup)
    (prev' : Option ℕ) :
    ∃ cells', modifyAt cells (firstAddr l) (fun n => { n with prev := prev' }) = some cells' ∧
      Seg cells' prev' l next ∧ ∀ b ∉ l.map Prod.fst, cells' b = cells b := by
  cases l with
  | nil => exact ⟨cells, rfl, trivial, fun _ _ => rfl⟩
  | cons n l =>
    obtain ⟨a, x⟩ := n
    refine ⟨_, modify_eq h.1 _, ⟨Function.update_self _ _ _, ?_⟩, ?_⟩
    · exact h.2.update (List.nodup_cons.mp hnd).1 _
    · intro b hb
      exact Function.update_of_ne (ne_of_mem_of_not_mem List.mem_cons_self hb).symm _ _

/-! ### Both directions -/

/-- The link back of the next node points at the node. -/
theorem Seg.prev_of_next {b : ℕ} {n : DNode α} (h : Seg cells prev l none) (ha : a ∈ l.map Prod.fst)
    (hn : cells a = some n) (hb : n.next = some b) :
    ∃ m, cells b = some m ∧ m.prev = some a := by
  obtain ⟨⟨a', x⟩, hmem, rfl⟩ := List.mem_map.mp ha
  obtain ⟨l₁, l₂, rfl⟩ := List.append_of_mem hmem
  rw [h.cell] at hn
  cases hn
  cases l₂ with
  | nil => cases hb
  | cons m l₂ =>
    obtain ⟨b', y⟩ := m
    cases hb
    exact ⟨_, (seg_append.mp h).2.2.1, rfl⟩

end DList

end OpenPS2Loader
