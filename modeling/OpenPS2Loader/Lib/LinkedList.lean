import Mathlib.Data.List.Nodup
import Mathlib.Data.List.Perm.Subperm
import Mathlib.Logic.Function.Basic

/-!
# Singly linked lists with a tail pointer

A list of nodes in memory, with pointers to its first and its last node. The operations follow the
pointers, and have no result where they would follow a pointer to no node or free a node twice. A
list of addresses with their data says what the nodes represent, and each operation is compared
with the operation on lists it carries out.

## Main definitions

* `LinkedList` — the nodes and the two pointers
* `LinkedList.find`, `setData`, `pushBack`, `remove`, `clear` — the operations
* `LinkedList.Rep` — the nodes from `head` on are these, and `tail` points to the last one

## Main results

* `LinkedList.find_of_rep`, `setData_of_rep`, `pushBack_of_rep`, `remove_of_rep`, `clear_of_rep` —
  every operation has a result and keeps the representation
-/

namespace OpenPS2Loader

/-- A node. -/
structure Node (α : Type*) where
  data : α
  next : Option ℕ

/-- The nodes by their address, and the two pointers; `none` is the null pointer. -/
structure LinkedList (α : Type*) where
  cells : ℕ → Option (Node α)
  /-- The addresses from here on were never used. -/
  fresh : ℕ
  head : Option ℕ
  tail : Option ℕ

namespace LinkedList

variable {α : Type*}

/-! ### The operations -/

/-- No node. -/
def empty : LinkedList α := ⟨fun _ => none, 0, none, none⟩

/-- The address of the first node from `ptr` on whose data satisfies `p`, or the null pointer. -/
def findFrom (cells : ℕ → Option (Node α)) (p : α → Bool) : ℕ → Option ℕ → Option (Option ℕ)
  | _, none => some none
  | 0, some _ => none
  | fuel + 1, some a =>
    match cells a with
    | none => none
    | some n => if p n.data then some (some a) else findFrom cells p fuel n.next

/-- The first node whose data satisfies `p`. A list has no more nodes than were ever made. -/
def find (l : LinkedList α) (p : α → Bool) : Option (Option ℕ) :=
  findFrom l.cells p l.fresh l.head

/-- The data of a node is replaced. -/
def setData (l : LinkedList α) (a : ℕ) (x : α) : Option (LinkedList α) :=
  (l.cells a).map fun n => { l with cells := Function.update l.cells a (some { n with data := x }) }

/-- A new node is linked behind the last one. -/
def pushBack (l : LinkedList α) (x : α) : Option (LinkedList α) :=
  let cells := Function.update l.cells l.fresh (some ⟨x, none⟩)
  match l.tail with
  | none => some ⟨cells, l.fresh + 1, some l.fresh, some l.fresh⟩
  | some t => (cells t).map fun n =>
      ⟨Function.update cells t (some { n with next := some l.fresh }), l.fresh + 1, l.head,
        some l.fresh⟩

/-- A node is given back. -/
def free (cells : ℕ → Option (Node α)) (a : ℕ) : Option (ℕ → Option (Node α)) :=
  (cells a).map fun _ => Function.update cells a none

/-- The node at `v` is taken out of the list, behind the node at `prev` if there is one: `next` is
what follows it. -/
def unlink (l : LinkedList α) (v : ℕ) (next prev : Option ℕ) : Option (LinkedList α) :=
  let tail := if l.tail = some v then prev else l.tail
  match prev with
  | some u =>
    (l.cells u).bind fun m => m.next.bind fun w => (free l.cells w).map fun cells =>
      { l with cells := Function.update cells u (some { m with next := next }), tail := tail }
  | none =>
    l.head.bind fun w => (free l.cells w).map fun cells =>
      { l with cells := cells, head := next, tail := tail }

/-- The nodes from `ptr` on whose data satisfies `p` are taken out; `prev` is the node before. -/
def removeFrom (p : α → Bool) : ℕ → LinkedList α → Option ℕ → Option ℕ → Option (LinkedList α)
  | _, l, none, _ => some l
  | 0, _, some _, _ => none
  | fuel + 1, l, some v, prev =>
    match l.cells v with
    | none => none
    | some n =>
      if p n.data then (unlink l v n.next prev).bind fun l => removeFrom p fuel l n.next prev
      else removeFrom p fuel l n.next (some v)

/-- All the nodes whose data satisfies `p` are taken out. -/
def remove (l : LinkedList α) (p : α → Bool) : Option (LinkedList α) :=
  removeFrom p l.fresh l l.head none

/-- The nodes from `ptr` on are given back. -/
def freeFrom : ℕ → (ℕ → Option (Node α)) → Option ℕ → Option (ℕ → Option (Node α))
  | _, cells, none => some cells
  | 0, _, some _ => none
  | fuel + 1, cells, some a =>
    match cells a with
    | none => none
    | some n => (free cells a).bind fun cells => freeFrom fuel cells n.next

/-- The list is emptied. -/
def clear (l : LinkedList α) : Option (LinkedList α) :=
  (freeFrom l.fresh l.cells l.head).map fun cells => ⟨cells, l.fresh, none, none⟩

/-! ### What the nodes represent -/

/-- Following the pointers from `ptr` on meets the nodes `ns` and arrives at `last`. -/
def Seg (cells : ℕ → Option (Node α)) : Option ℕ → List (ℕ × α) → Option ℕ → Prop
  | ptr, [], last => ptr = last
  | ptr, (a, x) :: ns, last =>
    ptr = some a ∧ ∃ next, cells a = some ⟨x, next⟩ ∧ Seg cells next ns last

/-- The nodes of the list are `ns`, all of them different, and `tail` points to the last one. -/
structure Rep (l : LinkedList α) (ns : List (ℕ × α)) : Prop where
  seg : Seg l.cells l.head ns none
  nodup : (ns.map Prod.fst).Nodup
  lt_fresh : ∀ a ∈ ns.map Prod.fst, a < l.fresh
  tail : l.tail = ns.getLast?.map Prod.fst

theorem seg_append {cells : ℕ → Option (Node α)} {ptr last : Option ℕ} {ns ms : List (ℕ × α)} :
    Seg cells ptr (ns ++ ms) last ↔ ∃ mid, Seg cells ptr ns mid ∧ Seg cells mid ms last := by
  induction ns generalizing ptr with
  | nil => exact ⟨fun h => ⟨ptr, rfl, h⟩, fun ⟨_, h, h'⟩ => h ▸ h'⟩
  | cons n ns ih =>
    obtain ⟨a, x⟩ := n
    constructor
    · rintro ⟨hptr, next, hcell, hseg⟩
      obtain ⟨mid, h, h'⟩ := ih.mp hseg
      exact ⟨mid, ⟨hptr, next, hcell, h⟩, h'⟩
    · rintro ⟨mid, ⟨hptr, next, hcell, h⟩, h'⟩
      exact ⟨hptr, next, hcell, ih.mpr ⟨mid, h, h'⟩⟩

/-- Only the cells of the nodes that are met matter. -/
theorem seg_congr {cells cells' : ℕ → Option (Node α)} {ptr last : Option ℕ} {ns : List (ℕ × α)}
    (h : Seg cells ptr ns last) (heq : ∀ a ∈ ns.map Prod.fst, cells' a = cells a) :
    Seg cells' ptr ns last := by
  induction ns generalizing ptr with
  | nil => exact h
  | cons n ns ih =>
    obtain ⟨a, x⟩ := n
    obtain ⟨hptr, next, hcell, hseg⟩ := h
    refine ⟨hptr, next, ?_, ih hseg fun b hb => heq b (List.mem_cons_of_mem a hb)⟩
    rw [heq a List.mem_cons_self, hcell]

/-- A cell that is not met may change. -/
theorem seg_update {cells : ℕ → Option (Node α)} {ptr last : Option ℕ} {ns : List (ℕ × α)}
    (h : Seg cells ptr ns last) {a : ℕ} (ha : a ∉ ns.map Prod.fst) (c : Option (Node α)) :
    Seg (Function.update cells a c) ptr ns last :=
  seg_congr h fun _ hb => Function.update_of_ne (by rintro rfl; exact ha hb) _ _

/-- The pointer to a node whose successors are `ns` is that of the first of them. -/
theorem seg_head {cells : ℕ → Option (Node α)} {ptr : Option ℕ} {ns : List (ℕ × α)}
    (h : Seg cells ptr ns none) : ptr = ns.head?.map Prod.fst := by
  cases ns with
  | nil => exact h
  | cons n ns => exact h.1

/-- The pointers of a list determine its nodes. -/
theorem seg_unique {cells : ℕ → Option (Node α)} {ptr : Option ℕ} {ns ms : List (ℕ × α)}
    (hns : Seg cells ptr ns none) (hms : Seg cells ptr ms none) : ns = ms := by
  induction ns generalizing ptr ms with
  | nil =>
    rw [show ptr = none from hns] at hms
    cases ms with
    | nil => rfl
    | cons m ms => cases hms.1
  | cons n ns ih =>
    obtain ⟨rfl, next, hcell, hns⟩ := hns
    cases ms with
    | nil => cases hms
    | cons m ms =>
      obtain ⟨hptr, next', hcell', hms⟩ := hms
      obtain ⟨a, x⟩ := n
      obtain ⟨b, y⟩ := m
      cases hptr
      rw [hcell] at hcell'
      cases hcell'
      rw [ih hns hms]

section Rep

variable {l : LinkedList α} {ns : List (ℕ × α)}

theorem rep_empty : Rep (empty : LinkedList α) [] := ⟨rfl, List.nodup_nil, by simp, rfl⟩

theorem Rep.length_le (h : Rep l ns) : ns.length ≤ l.fresh := by
  have hsub : ns.map Prod.fst ⊆ List.range l.fresh := fun a ha =>
    List.mem_range.mpr (h.lt_fresh a ha)
  simpa using (List.subperm_of_subset h.nodup hsub).length_le

/-- The two pointers are null together. -/
theorem Rep.head_eq_none_iff (h : Rep l ns) : l.head = none ↔ l.tail = none := by
  rw [seg_head h.seg, h.tail]
  cases ns <;> simp

theorem findFrom_of_seg {cells : ℕ → Option (Node α)} (p : α → Bool) {fuel : ℕ} {ptr : Option ℕ}
    (h : Seg cells ptr ns none) (hfuel : ns.length ≤ fuel) :
    findFrom cells p fuel ptr = some ((ns.find? fun n => p n.2).map Prod.fst) := by
  induction ns generalizing fuel ptr with
  | nil =>
    rw [show ptr = none from h]
    cases fuel <;> rfl
  | cons n ns ih =>
    obtain ⟨a, x⟩ := n
    obtain ⟨rfl, next, hcell, hseg⟩ := h
    obtain ⟨fuel, rfl⟩ := Nat.exists_eq_add_of_le' (Nat.one_le_of_lt hfuel)
    rw [findFrom, hcell, List.find?_cons]
    dsimp only
    rcases hp : p x with _ | _
    · simpa using ih hseg (Nat.le_of_succ_le_succ hfuel)
    · rfl

/-- A search finds the first node that satisfies the predicate. -/
theorem find_of_rep (h : Rep l ns) (p : α → Bool) :
    find l p = some ((ns.find? fun n => p n.2).map Prod.fst) :=
  findFrom_of_seg p h.seg h.length_le

/-- The cell of a node. -/
theorem Rep.cell (pre : List (ℕ × α)) {post : List (ℕ × α)} {a : ℕ} {x : α}
    (h : Rep l (pre ++ (a, x) :: post)) :
    ∃ next, l.cells a = some ⟨x, next⟩ ∧ Seg l.cells l.head pre (some a) ∧
      Seg l.cells next post none := by
  obtain ⟨mid, hpre, rfl, next, hcell, hpost⟩ := seg_append.mp h.seg
  exact ⟨next, hcell, hpre, hpost⟩

/-- A node is none of the others. -/
theorem Rep.not_mem (pre : List (ℕ × α)) {post : List (ℕ × α)} {a : ℕ} {x : α}
    (h : Rep l (pre ++ (a, x) :: post)) :
    a ∉ pre.map Prod.fst ∧ a ∉ post.map Prod.fst := by
  have hnd := h.nodup
  rw [List.map_append, List.map_cons, List.nodup_append] at hnd
  obtain ⟨-, hpost, hdisj⟩ := hnd
  exact ⟨fun ha => hdisj a ha a List.mem_cons_self rfl, (List.nodup_cons.mp hpost).1⟩

/-- Replacing the data of a node changes this node only. -/
theorem setData_of_rep {pre post : List (ℕ × α)} {a : ℕ} {x : α}
    (h : Rep l (pre ++ (a, x) :: post)) (y : α) :
    ∃ l', setData l a y = some l' ∧ Rep l' (pre ++ (a, y) :: post) := by
  obtain ⟨next, hcell, hpre, hpost⟩ := h.cell
  obtain ⟨hapre, hapost⟩ := h.not_mem
  have hmap : (pre ++ (a, y) :: post).map Prod.fst = (pre ++ (a, x) :: post).map Prod.fst := by
    simp
  refine ⟨_, by rw [setData, hcell]; rfl, ⟨?_, ?_, ?_, ?_⟩⟩
  · refine seg_append.mpr
      ⟨some a, seg_update hpre hapre _, rfl, next, ?_, seg_update hpost hapost _⟩
    exact Function.update_self _ _ _
  · rw [hmap]
    exact h.nodup
  · rw [hmap]
    exact h.lt_fresh
  · have htail := h.tail
    rw [List.getLast?_append] at htail ⊢
    rw [htail]
    cases post <;> rfl

/-- A new node is the last one. -/
theorem pushBack_of_rep (h : Rep l ns) (x : α) :
    ∃ l', pushBack l x = some l' ∧ Rep l' (ns ++ [(l.fresh, x)]) := by
  have hfresh : l.fresh ∉ ns.map Prod.fst := fun ha => absurd (h.lt_fresh _ ha) (Nat.lt_irrefl _)
  have hnodup : ((ns ++ [(l.fresh, x)]).map Prod.fst).Nodup := by
    rw [List.map_append, List.map_singleton, ← List.concat_eq_append, List.nodup_concat]
    exact ⟨hfresh, h.nodup⟩
  have hlt : ∀ a ∈ (ns ++ [(l.fresh, x)]).map Prod.fst, a < l.fresh + 1 := by
    intro a ha
    rw [List.map_append, List.mem_append] at ha
    rcases ha with ha | ha
    · exact Nat.lt_succ_of_lt (h.lt_fresh a ha)
    · rw [List.map_singleton, List.mem_singleton] at ha
      exact ha ▸ Nat.lt_succ_self _
  have hlast : some l.fresh = (ns ++ [(l.fresh, x)]).getLast?.map Prod.fst := by
    rw [List.getLast?_concat]
    rfl
  rcases List.eq_nil_or_concat ns with rfl | ⟨init, ⟨t, y⟩, rfl⟩
  · have htail : l.tail = none := h.tail
    refine ⟨_, by rw [pushBack, htail], ⟨?_, hnodup, hlt, hlast⟩⟩
    exact ⟨rfl, none, Function.update_self _ _ _, rfl⟩
  · rw [List.concat_eq_append] at h hnodup hlt hlast hfresh ⊢
    obtain ⟨next, hcell, hinit, hnext⟩ := h.cell
    have hnone : next = none := hnext
    subst hnone
    have htail : l.tail = some t := by
      rw [h.tail, List.getLast?_concat]
      rfl
    have htne : t ≠ l.fresh := fun he => hfresh (by simp [he])
    have hcell' : Function.update l.cells l.fresh (some ⟨x, none⟩) t = some ⟨y, none⟩ := by
      rw [Function.update_of_ne htne, hcell]
    refine ⟨_, by rw [pushBack, htail]; dsimp only; rw [hcell']; rfl, ⟨?_, hnodup, hlt, hlast⟩⟩
    -- the old last node points to the new one
    rw [List.append_assoc]
    refine seg_append.mpr ⟨some t, ?_, rfl, some l.fresh, Function.update_self _ _ _, rfl, none, ?_,
      rfl⟩
    · refine seg_update (seg_update hinit ?_ _) h.not_mem.1 _
      exact fun ha => hfresh (by rw [List.map_append]; exact List.mem_append_left _ ha)
    · dsimp only
      rw [Function.update_of_ne (Ne.symm htne), Function.update_self]

/-- The node at `v` is taken out. -/
theorem unlink_of_rep {kept rest : List (ℕ × α)} {v : ℕ} {x : α}
    (h : Rep l (kept ++ (v, x) :: rest)) {next : Option ℕ} (hcell : l.cells v = some ⟨x, next⟩) :
    ∃ l', unlink l v next (kept.getLast?.map Prod.fst) = some l' ∧ Rep l' (kept ++ rest) ∧
      l'.fresh = l.fresh := by
  obtain ⟨next', hcell', hkept, hrest⟩ := h.cell
  obtain ⟨hvkept, hvrest⟩ := h.not_mem
  rw [hcell] at hcell'
  cases hcell'
  have hsub : ((kept ++ rest).map Prod.fst).Sublist ((kept ++ (v, x) :: rest).map Prod.fst) :=
    ((List.sublist_cons_self _ _).append_left kept).map _
  have hnodup := h.nodup.sublist hsub
  have hlt : ∀ a ∈ (kept ++ rest).map Prod.fst, a < l.fresh := fun a ha =>
    h.lt_fresh a (hsub.subset ha)
  -- the last node changes only when it is the one that goes
  have htail : (if l.tail = some v then kept.getLast?.map Prod.fst else l.tail) =
      (kept ++ rest).getLast?.map Prod.fst := by
    have htail := h.tail
    rw [List.getLast?_append, List.getLast?_cons] at htail
    rcases List.eq_nil_or_concat rest with rfl | ⟨init, ⟨w, y⟩, rfl⟩
    · rw [if_pos (by rw [htail]; rfl), List.append_nil]
    · rw [List.concat_eq_append] at hvrest htail ⊢
      rw [List.getLast?_concat] at htail
      have hne : l.tail ≠ some v := by
        rw [htail]
        intro he
        have hwv : w = v := Option.some.inj he
        exact hvrest (by simp [hwv])
      rw [if_neg hne, htail, ← List.append_assoc, List.getLast?_concat]
      rfl
  rcases List.eq_nil_or_concat kept with rfl | ⟨init, ⟨u, y⟩, rfl⟩
  · have hhead : l.head = some v := hkept
    refine ⟨⟨Function.update l.cells v none, l.fresh, next,
      if l.tail = some v then none else l.tail⟩, ?_, ⟨?_, hnodup, hlt, htail⟩, rfl⟩
    · simp only [List.getLast?_nil, Option.map_none, unlink, hhead, Option.bind_some, free, hcell,
        Option.map_some]
    · exact seg_update hrest hvrest _
  · rw [List.concat_eq_append] at h hkept hvkept hnodup hlt htail hsub ⊢
    -- the node before it points to what follows
    obtain ⟨mid, hinit, rfl, next', hucell, hu⟩ := seg_append.mp hkept
    have hu' : next' = some v := hu
    subst hu'
    have huv : u ≠ v := fun he => hvkept (by simp [he])
    have hrep' : Rep l (init ++ (u, y) :: ((v, x) :: rest)) := by simpa using h
    obtain ⟨huinit, hurest⟩ := hrep'.not_mem
    rw [List.map_cons, List.mem_cons, not_or] at hurest
    have hvinit : v ∉ init.map Prod.fst := fun ha =>
      hvkept (by rw [List.map_append]; exact List.mem_append_left _ ha)
    refine ⟨⟨Function.update (Function.update l.cells v none) u (some ⟨y, next⟩), l.fresh, l.head,
      if l.tail = some v then some u else l.tail⟩, ?_, ⟨?_, hnodup, hlt, ?_⟩, rfl⟩
    · simp only [List.getLast?_concat, Option.map_some, unlink, hucell, Option.bind_some, free,
        hcell]
    · dsimp only
      rw [List.append_assoc]
      refine seg_append.mpr ⟨some u, seg_update (seg_update hinit hvinit _) huinit _, rfl, next,
        Function.update_self _ _ _, ?_⟩
      exact seg_update (seg_update hrest hvrest _) hurest.2 _
    · rw [← htail, List.getLast?_concat]
      rfl

theorem removeFrom_of_rep (p : α → Bool) {fuel : ℕ} {kept rest : List (ℕ × α)}
    (h : Rep l (kept ++ rest)) {ptr : Option ℕ} (hptr : ptr = rest.head?.map Prod.fst)
    (hfuel : rest.length ≤ fuel) :
    ∃ l', removeFrom p fuel l ptr (kept.getLast?.map Prod.fst) = some l' ∧
      Rep l' (kept ++ rest.filter fun n => !p n.2) := by
  induction rest generalizing fuel l kept ptr with
  | nil =>
    rw [show ptr = none from hptr]
    exact ⟨l, by cases fuel <;> rfl, h⟩
  | cons n rest ih =>
    obtain ⟨v, x⟩ := n
    rw [show ptr = some v from hptr]
    obtain ⟨fuel, rfl⟩ := Nat.exists_eq_add_of_le' (Nat.one_le_of_lt hfuel)
    obtain ⟨next, hcell, -, hrest⟩ := h.cell
    rw [removeFrom, hcell]
    dsimp only
    rcases hp : p x with _ | _
    · -- the node stays, and is the one before the next
      rw [if_neg Bool.false_ne_true, List.filter_cons_of_pos (by simp [hp])]
      have hkeep : Rep l ((kept ++ [(v, x)]) ++ rest) := by simpa using h
      obtain ⟨l', hl', hrep⟩ := ih hkeep (seg_head hrest) (Nat.le_of_succ_le_succ hfuel)
      rw [List.getLast?_concat] at hl'
      exact ⟨l', hl', by simpa using hrep⟩
    · rw [if_pos rfl, List.filter_cons_of_neg (by simp [hp])]
      obtain ⟨l₁, hl₁, hrep₁, -⟩ := unlink_of_rep h hcell
      rw [hl₁, Option.bind_some]
      exact ih hrep₁ (seg_head hrest) (Nat.le_of_succ_le_succ hfuel)

/-- Taking out nodes leaves the others in their order. -/
theorem remove_of_rep (h : Rep l ns) (p : α → Bool) :
    ∃ l', remove l p = some l' ∧ Rep l' (ns.filter fun n => !p n.2) :=
  removeFrom_of_rep p (show Rep l ([] ++ ns) from h) (seg_head h.seg) h.length_le

theorem freeFrom_of_seg {cells : ℕ → Option (Node α)} {fuel : ℕ} {ptr : Option ℕ}
    (h : Seg cells ptr ns none) (hnd : (ns.map Prod.fst).Nodup) (hfuel : ns.length ≤ fuel) :
    ∃ cells', freeFrom fuel cells ptr = some cells' := by
  induction ns generalizing fuel ptr cells with
  | nil =>
    rw [show ptr = none from h]
    exact ⟨cells, by cases fuel <;> rfl⟩
  | cons n ns ih =>
    obtain ⟨a, x⟩ := n
    obtain ⟨rfl, next, hcell, hseg⟩ := h
    rw [List.map_cons, List.nodup_cons] at hnd
    obtain ⟨fuel, rfl⟩ := Nat.exists_eq_add_of_le' (Nat.one_le_of_lt hfuel)
    rw [freeFrom, hcell]
    dsimp only
    rw [free, hcell, Option.map_some, Option.bind_some]
    exact ih (seg_update hseg hnd.1 _) hnd.2 (Nat.le_of_succ_le_succ hfuel)

/-- Emptying the list. -/
theorem clear_of_rep (h : Rep l ns) : ∃ l', clear l = some l' ∧ Rep l' [] := by
  obtain ⟨cells, hcells⟩ := freeFrom_of_seg h.seg h.nodup h.length_le
  exact ⟨⟨cells, l.fresh, none, none⟩, by rw [clear, hcells]; rfl,
    ⟨rfl, List.nodup_nil, by simp, rfl⟩⟩

end Rep

end LinkedList

end OpenPS2Loader
