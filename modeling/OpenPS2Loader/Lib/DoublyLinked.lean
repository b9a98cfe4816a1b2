import Mathlib.Data.Nat.Notation
import Mathlib.Logic.Function.Basic

/-!
# Intrusive doubly linked lists

Nodes in memory that carry their own links, and a list through some of them with pointers to its
first and its last node. A node is made and given back apart from the list: the operations only
link nodes that exist, and have no result where they would follow a pointer to no node.

## Main definitions

* `DList` — the nodes and the two pointers
* `DList.modify` — a node is written through a pointer
* `DList.pushBack`, `pushFront`, `popFront`, `moveToFront` — the operations
* `DList.dataOf` — what the nodes carry besides their links

## Main results

* `DList.dataOf_pushBack`, `dataOf_pushFront`, `dataOf_popFront`, `dataOf_moveToFront` — linking
  makes no node and takes none away, and writes the data of one node at most
-/

namespace OpenPS2Loader

/-- A node with both links. -/
structure DNode (α : Type*) where
  data : α
  next : Option ℕ
  prev : Option ℕ
  deriving DecidableEq

/-- The nodes by their address, and the two pointers; `none` is the null pointer. -/
structure DList (α : Type*) where
  cells : ℕ → Option (DNode α)
  head : Option ℕ
  tail : Option ℕ

namespace DList

variable {α : Type*}

/-- No node. -/
def empty : DList α := ⟨fun _ => none, none, none⟩

/-- The node at `a` is written. -/
def modify (cells : ℕ → Option (DNode α)) (a : ℕ) (f : DNode α → DNode α) :
    Option (ℕ → Option (DNode α)) :=
  (cells a).map fun n => Function.update cells a (some (f n))

/-- The node at `a` is linked behind the last one. -/
def pushBack (l : DList α) (a : ℕ) (f : α → α) : Option (DList α) :=
  (modify l.cells a fun n => ⟨f n.data, none, l.tail⟩).bind fun cells =>
    match l.tail with
    | none => some ⟨cells, some a, some a⟩
    | some t => (modify cells t fun n => { n with next := some a }).map fun cells =>
        ⟨cells, l.head, some a⟩

/-- The node at `a` is linked in front of the first one. -/
def pushFront (l : DList α) (a : ℕ) (f : α → α) : Option (DList α) :=
  (modify l.cells a fun n => ⟨f n.data, l.head, none⟩).bind fun cells =>
    match l.head with
    | none => some ⟨cells, some a, some a⟩
    | some h => (modify cells h fun n => { n with prev := some a }).map fun cells =>
        ⟨cells, some a, l.tail⟩

/-- The first node is taken out. Nothing happens to an empty list. -/
def popFront (l : DList α) (f : α → α) : Option (DList α) :=
  match l.head with
  | none => some l
  | some a => (l.cells a).bind fun n =>
    match n.next with
    | none => (modify l.cells a fun n => ⟨f n.data, none, none⟩).map fun cells =>
        ⟨cells, none, none⟩
    | some b => (modify l.cells b fun n => { n with prev := none }).bind fun cells =>
        (modify cells a fun n => ⟨f n.data, none, none⟩).map fun cells =>
          ⟨cells, some b, l.tail⟩

/-- The node behind a removed one gets the link back to `p`; without one, `p` is the last node. -/
def closeGap (cells : ℕ → Option (DNode α)) (tail : Option ℕ) (p : ℕ) (next : Option ℕ) :
    Option ((ℕ → Option (DNode α)) × Option ℕ) :=
  match next with
  | none => some (cells, some p)
  | some q => (modify cells q fun n => { n with prev := some p }).map fun cells => (cells, tail)

/-- A node that is not the first one is taken out of its place and linked in front. -/
def moveToFront (l : DList α) (a : ℕ) : Option (DList α) :=
  (l.cells a).bind fun n =>
    match n.prev with
    | none => some l
    | some p =>
      (modify l.cells p fun m => { m with next := n.next }).bind fun cells =>
      (closeGap cells l.tail p n.next).bind fun (cells, tail) =>
      (modify cells a fun m => { m with next := l.head, prev := none }).bind fun cells =>
      l.head.bind fun h => (modify cells h fun m => { m with prev := some a }).map fun cells =>
        ⟨cells, some a, tail⟩

/-! ### The data -/

/-- The data of the nodes, without their links. -/
def dataOf (cells : ℕ → Option (DNode α)) : ℕ → Option α := fun a => (cells a).map DNode.data

section DataOf

variable {cells cells' : ℕ → Option (DNode α)} {l l' : DList α} {a : ℕ}

theorem dataOf_update (cells : ℕ → Option (DNode α)) (a : ℕ) (c : Option (DNode α)) :
    dataOf (Function.update cells a c) = Function.update (dataOf cells) a (c.map DNode.data) := by
  funext b
  rcases eq_or_ne b a with rfl | hb
  · rw [dataOf, Function.update_self, Function.update_self]
  · rw [dataOf, Function.update_of_ne hb, Function.update_of_ne hb, dataOf]

theorem dataOf_modify {f : DNode α → DNode α} {g : α → α} (hm : modify cells a f = some cells')
    (hf : ∀ n, (f n).data = g n.data) :
    dataOf cells' = Function.update (dataOf cells) a ((dataOf cells a).map g) := by
  obtain ⟨n, hn, rfl⟩ := Option.map_eq_some_iff.mp hm
  rw [dataOf_update, dataOf, hn, Option.map_some, Option.map_some, Option.map_some, hf]

/-- Writing a link writes no data. -/
theorem dataOf_modify_links {f : DNode α → DNode α} (hm : modify cells a f = some cells')
    (hf : ∀ n, (f n).data = n.data) : dataOf cells' = dataOf cells := by
  rw [dataOf_modify (g := id) hm hf, Option.map_id, id, Function.update_eq_self]

theorem dataOf_pushBack {f : α → α} (hl : pushBack l a f = some l') :
    dataOf l'.cells = Function.update (dataOf l.cells) a ((dataOf l.cells a).map f) := by
  obtain ⟨cells, hcells, hl⟩ := Option.bind_eq_some_iff.mp hl
  rw [← dataOf_modify hcells fun _ => rfl]
  cases htail : l.tail with
  | none =>
    rw [htail] at hl
    cases hl
    rfl
  | some t =>
    rw [htail] at hl
    obtain ⟨cells', hcells', rfl⟩ := Option.map_eq_some_iff.mp hl
    exact dataOf_modify_links hcells' fun _ => rfl

theorem dataOf_pushFront {f : α → α} (hl : pushFront l a f = some l') :
    dataOf l'.cells = Function.update (dataOf l.cells) a ((dataOf l.cells a).map f) := by
  obtain ⟨cells, hcells, hl⟩ := Option.bind_eq_some_iff.mp hl
  rw [← dataOf_modify hcells fun _ => rfl]
  cases hhead : l.head with
  | none =>
    rw [hhead] at hl
    cases hl
    rfl
  | some b =>
    rw [hhead] at hl
    obtain ⟨cells', hcells', rfl⟩ := Option.map_eq_some_iff.mp hl
    exact dataOf_modify_links hcells' fun _ => rfl

theorem dataOf_popFront {f : α → α} (hhead : l.head = some a) (hl : popFront l f = some l') :
    dataOf l'.cells = Function.update (dataOf l.cells) a ((dataOf l.cells a).map f) := by
  rw [popFront, hhead] at hl
  obtain ⟨n, -, hl⟩ := Option.bind_eq_some_iff.mp hl
  cases hnext : n.next with
  | none =>
    rw [hnext] at hl
    obtain ⟨cells, hcells, rfl⟩ := Option.map_eq_some_iff.mp hl
    exact dataOf_modify hcells fun _ => rfl
  | some b =>
    rw [hnext] at hl
    obtain ⟨cells, hcells, hl⟩ := Option.bind_eq_some_iff.mp hl
    obtain ⟨cells', hcells', rfl⟩ := Option.map_eq_some_iff.mp hl
    rw [← dataOf_modify_links hcells fun _ => rfl]
    exact dataOf_modify hcells' fun _ => rfl

theorem dataOf_closeGap {tail tail' next : Option ℕ} {p : ℕ}
    (hc : closeGap cells tail p next = some (cells', tail')) : dataOf cells' = dataOf cells := by
  cases next with
  | none =>
    cases hc
    rfl
  | some q =>
    obtain ⟨cells'', hcells, heq⟩ := Option.map_eq_some_iff.mp hc
    cases heq
    exact dataOf_modify_links hcells fun _ => rfl

theorem dataOf_moveToFront (hl : moveToFront l a = some l') : dataOf l'.cells = dataOf l.cells := by
  obtain ⟨n, -, hl⟩ := Option.bind_eq_some_iff.mp hl
  cases hprev : n.prev with
  | none =>
    rw [hprev] at hl
    cases hl
    rfl
  | some p =>
    rw [hprev] at hl
    obtain ⟨cells₁, h₁, hl⟩ := Option.bind_eq_some_iff.mp hl
    obtain ⟨⟨cells₂, tail⟩, h₂, hl⟩ := Option.bind_eq_some_iff.mp hl
    obtain ⟨cells₃, h₃, hl⟩ := Option.bind_eq_some_iff.mp hl
    obtain ⟨b, -, hl⟩ := Option.bind_eq_some_iff.mp hl
    obtain ⟨cells₄, h₄, rfl⟩ := Option.map_eq_some_iff.mp hl
    calc dataOf cells₄ = dataOf cells₃ := dataOf_modify_links h₄ fun _ => rfl
      _ = dataOf cells₂ := dataOf_modify_links h₃ fun _ => rfl
      _ = dataOf cells₁ := dataOf_closeGap h₂
      _ = dataOf l.cells := dataOf_modify_links h₁ fun _ => rfl

end DataOf

end DList

end OpenPS2Loader
