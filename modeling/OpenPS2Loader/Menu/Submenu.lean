import Mathlib.Data.List.Perm.Subperm
import OpenPS2Loader.Lib.DoublySegment
import OpenPS2Loader.Lib.StableSort
import OpenPS2Loader.Lib.Transition
import OpenPS2Loader.Vcd.GameId

/-!
# The rows of a submenu

A submenu is a doubly linked list of rows with a pointer to the first one. `submenuAppendItem` links
a row behind the last one, `submenuRemoveItem` takes out the rows with an id, `submenuSort` is a
bubble sort that exchanges nodes, and `submenuDestroy` gives them all back.

A node has an address that no node had before. The operations follow the pointers of the source, and
have no result where they would read or write through a pointer to no node. The loops count down
from a number of steps that is enough for a list of the nodes that were ever made.

`submenuRemoveItem` writes the link to the next node only: a row that stands behind a removed one
keeps a link back to memory that was given back.

## Main definitions

* `Submenu.submenuAppendItem`, `submenuRemoveItem`, `submenuSort`, `submenuDestroy`
* `Submenu.WellLinked` — the rows, and their links in both directions
* `Submenu.Edits` — what a sequence of operations makes of a list of rows

## Main results

* `Submenu.submenuSort_of_wellLinked` — the sort comes to an end, and is stable
* `Submenu.wellLinked_of_runOk` — the rows are well linked, as long as rows are only removed from
  the end of the list
-/

namespace OpenPS2Loader

namespace Submenu

open Vcd

/-! ### Rows -/

/-- A `submenu_item_t`, without its caches and its marks. A row has a text of its own, or one of the
language. -/
structure Item where
  iconId : ℤ
  text : Option Text
  textId : ℤ
  id : ℤ
  isFolder : Bool
  titled : 0 ≤ textId ∨ text.isSome = true
  deriving DecidableEq

/-- What a sort depends on besides the rows: the texts of the language (`_l`), the setting that
hides ids, and the list that the rows come from, when the mode has one. -/
structure SortEnv where
  lang : ℕ → Text
  hide : Bool
  support : Option ItemList

/-- `submenuItemGetText` -/
def submenuItemGetText (lang : ℕ → Text) (it : Item) : Option Text :=
  if 0 ≤ it.textId then some (lang it.textId.toNat) else it.text

/-- The text that is compared, `txt1` or `txt2`. -/
def rowText (e : SortEnv) (it : Item) : Option Text :=
  if it.isFolder then submenuItemGetText e.lang it
  else vcdDisplayNameForRow e.hide e.support it.id (submenuItemGetText e.lang it)

theorem isSome_rowText (e : SortEnv) (it : Item) : (rowText e it).isSome = true := by
  have hraw : (submenuItemGetText e.lang it).isSome = true := by
    rw [submenuItemGetText]
    split
    next => rfl
    next h => exact it.titled.resolve_left h
  rw [rowText, vcdDisplayNameForRow]
  split_ifs
  · exact hraw
  · exact hraw
  · rw [Option.isSome_map]
    exact hraw

/-- The title on the screen. -/
def rowTitle (e : SortEnv) (it : Item) : Text := (rowText e it).get (isSome_rowText e it)

/-- `strcasecmp`, as the order of the two texts. -/
def strcasecmp (s t : Text) : Ordering := compare (s.map Char.toLower) (t.map Char.toLower)

/-- `cmp > 0` in the loop of `submenuSort`. -/
def rowGreater (e : SortEnv) (a b : Item) : Bool :=
  if a.isFolder ≠ b.isFolder then !a.isFolder
  else strcasecmp (rowTitle e a) (rowTitle e b) == .gt

/-! ### The list -/

/-- The nodes, and the pointer to the first one. -/
structure Menu where
  cells : ℕ → Option (DNode Item)
  /-- The addresses from here on were never used. -/
  fresh : ℕ
  head : Option ℕ

/-- No rows. -/
def empty : Menu := ⟨fun _ => none, 0, none⟩

/-- `while (cur->next) cur = cur->next` -/
def toEnd (cells : ℕ → Option (DNode Item)) : ℕ → ℕ → Option ℕ
  | 0, _ => none
  | fuel + 1, cur => (cells cur).bind fun n =>
    match n.next with
    | none => some cur
    | some next => toEnd cells fuel next

/-- `submenuAppendItem`. The row is what the caller makes of the new node: folders are marked behind
the call. -/
def submenuAppendItem (m : Menu) (it : Item) : Option Menu :=
  let cells := Function.update m.cells m.fresh (some ⟨it, none, none⟩)
  match m.head with
  | none => some ⟨cells, m.fresh + 1, some m.fresh⟩
  | some head => (toEnd m.cells m.fresh head).bind fun cur =>
      (DList.modify cells cur fun n => { n with next := some m.fresh }).bind fun cells =>
      (DList.modify cells m.fresh fun n => { n with prev := some cur }).map fun cells =>
        ⟨cells, m.fresh + 1, some head⟩

/-- The loop of `submenuRemoveItem`. -/
def removeLoop (id : ℤ) : ℕ → Option ℕ → Option ℕ → Menu → Option Menu
  | _, none, _, m => some m
  | 0, some _, _, _ => none
  | fuel + 1, some cur, prev, m => (m.cells cur).bind fun n =>
    if n.data.id = id then
      (DList.modifyAt m.cells prev fun p => { p with next := n.next }).bind fun cells =>
        removeLoop id fuel n.next prev ⟨Function.update cells cur none, m.fresh,
          if m.head = some cur then n.next else m.head⟩
    else removeLoop id fuel n.next (some cur) m

/-- `submenuRemoveItem` -/
def submenuRemoveItem (m : Menu) (id : ℤ) : Option Menu := removeLoop id m.fresh m.head none m

/-- The loop of `submenuDestroy`. -/
def destroyLoop : ℕ → Option ℕ → (ℕ → Option (DNode Item)) → Option (ℕ → Option (DNode Item))
  | _, none, cells => some cells
  | 0, some _, _ => none
  | fuel + 1, some td, cells => (cells td).bind fun n =>
    destroyLoop fuel n.next (Function.update cells td none)

/-- `submenuDestroy` -/
def submenuDestroy (m : Menu) : Option Menu :=
  (destroyLoop m.fresh m.head m.cells).map fun cells => ⟨cells, m.fresh, none⟩

/-- `swap` -/
def swap (cells : ℕ → Option (DNode Item)) (a b : ℕ) : Option (ℕ → Option (DNode Item)) :=
  (cells a).bind fun na => (cells b).bind fun nb =>
  (DList.modify cells a fun n => { n with next := nb.next }).bind fun cells =>
  (DList.modify cells b fun n => { n with prev := na.prev }).bind fun cells =>
  (DList.modify cells b fun n => { n with next := some a }).bind fun cells =>
  (DList.modify cells a fun n => { n with prev := some b }).bind fun cells =>
  (DList.modifyAt cells na.prev fun n => { n with next := some b }).bind fun cells =>
  DList.modifyAt cells nb.next fun n => { n with prev := some a }

/-- The inner loop of `submenuSort`, with `head`, `tip` and `sorted`. -/
def sortPass (e : SortEnv) : ℕ → (ℕ → Option (DNode Item)) → Option ℕ → ℕ → Bool →
    Option ((ℕ → Option (DNode Item)) × Option ℕ × Bool)
  | 0, _, _, _, _ => none
  | fuel + 1, cells, head, tip, sorted => (cells tip).bind fun n =>
    match n.next with
    | none => some (cells, head, sorted)
    | some nxt => (cells nxt).bind fun m =>
      if rowGreater e n.data m.data then
        (swap cells tip nxt).bind fun cells =>
          sortPass e fuel cells (if head = some tip then some nxt else head) tip false
      else sortPass e fuel cells head nxt sorted

/-- The outer loop of `submenuSort`. -/
def sortLoop (e : SortEnv) (nodes : ℕ) : ℕ → (ℕ → Option (DNode Item)) → Option ℕ →
    Option ((ℕ → Option (DNode Item)) × Option ℕ)
  | 0, _, _ => none
  | fuel + 1, cells, head => head.bind fun tip =>
    (sortPass e nodes cells head tip true).bind fun (cells, head, sorted) =>
      if sorted then some (cells, head) else sortLoop e nodes fuel cells head

/-- `submenuSort` -/
def submenuSort (m : Menu) (e : SortEnv) : Option Menu :=
  match m.head with
  | none => some m
  | some head => (m.cells head).bind fun n =>
    if n.next = none then some m
    else (sortLoop e m.fresh (m.fresh * m.fresh + 1) m.cells m.head).map fun (cells, head) =>
      ⟨cells, m.fresh, head⟩

/-! ### Sequences of operations -/

/-- The operations. -/
inductive Op
  | append (it : Item)
  | remove (id : ℤ)
  | sort (e : SortEnv)
  | destroy

/-- One operation. -/
def step (m : Menu) : Op → Option Menu
  | .append it => submenuAppendItem m it
  | .remove id => submenuRemoveItem m id
  | .sort e => submenuSort m e
  | .destroy => submenuDestroy m

/-- The rows from a pointer on. -/
def rowsFrom (cells : ℕ → Option (DNode Item)) : ℕ → Option ℕ → List Item
  | _, none => []
  | 0, some _ => []
  | fuel + 1, some a =>
    match cells a with
    | none => []
    | some n => n.data :: rowsFrom cells fuel n.next

/-- The rows of a menu. -/
def Menu.rows (m : Menu) : List Item := rowsFrom m.cells m.fresh m.head

/-- From the first row with the id on, all rows have it. -/
def AtEnd (id : ℤ) (rows : List Item) : Prop :=
  ∀ it ∈ rows.dropWhile fun it => decide (it.id ≠ id), it.id = id

instance (id : ℤ) (rows : List Item) : Decidable (AtEnd id rows) :=
  inferInstanceAs (Decidable (∀ it ∈ _, _))

/-- The rows that are removed stand at the end of the list. -/
def StepOk (m : Menu) : Op → Prop
  | .append _ | .sort _ | .destroy => True
  | .remove id => AtEnd id m.rows

instance (m : Menu) : ∀ op, Decidable (StepOk m op)
  | .append _ | .sort _ | .destroy => inferInstanceAs (Decidable True)
  | .remove id => inferInstanceAs (Decidable (AtEnd id m.rows))

/-! ### What the list is for -/

/-- What an operation makes of a list of rows. -/
def Edit (rows : List Item) : Op → List Item → Prop
  | .append it, rows' => rows' = rows ++ [it]
  | .remove id, rows' => rows' = rows.filter fun it => decide (it.id ≠ id)
  | .sort e, rows' => StableSort.Stable (rowGreater e) rows rows'
  | .destroy, rows' => rows' = []

/-- What a sequence of operations makes of it. -/
def Edits : List Item → List Op → List Item → Prop
  | rows, [], rows' => rows' = rows
  | rows, op :: ops, rows' => ∃ rows₁, Edit rows op rows₁ ∧ Edits rows₁ ops rows'

/-- The nodes of the list, one behind the other, with links in both directions. -/
structure WellLinked (m : Menu) (nodes : List (ℕ × Item)) : Prop where
  head : m.head = DList.firstAddr nodes
  nodup : (nodes.map Prod.fst).Nodup
  lt_fresh : ∀ a ∈ nodes.map Prod.fst, a < m.fresh
  seg : DList.Seg m.cells none nodes none

/-! ### The order of the rows -/

/-- The order of the rows: folders first, then the titles. -/
def rowCmp (e : SortEnv) : Item → Item → Ordering :=
  compareLex (compareOn fun it => !it.isFolder)
    (compareOn fun it => (rowTitle e it).map Char.toLower)

theorem rowGreater_eq (e : SortEnv) (a b : Item) : rowGreater e a b = (rowCmp e a b == .gt) := by
  rw [rowGreater, rowCmp, compareLex, compareOn, compareOn]
  cases a.isFolder <;> cases b.isFolder <;> rfl

theorem strictWeak_rowGreater (e : SortEnv) : StableSort.StrictWeak (rowGreater e) := by
  rw [show rowGreater e = fun a b => rowCmp e a b == .gt from
    funext fun a => funext fun b => rowGreater_eq e a b]
  have htrans : Std.TransCmp (rowCmp e) := by
    rw [rowCmp]
    infer_instance
  exact StableSort.strictWeak_of_cmp (rowCmp e)

/-- The comparison of two nodes. -/
def nodeGreater (e : SortEnv) (p q : ℕ × Item) : Bool := rowGreater e p.2 q.2

theorem strictWeak_nodeGreater (e : SortEnv) : StableSort.StrictWeak (nodeGreater e) :=
  (strictWeak_rowGreater e).on Prod.snd

/-! ### Well linked lists -/

section WellLinked

variable {m m' : Menu} {nodes : List (ℕ × Item)} {cells : ℕ → Option (DNode Item)}

theorem wellLinked_empty : WellLinked empty [] :=
  ⟨rfl, List.nodup_nil, by simp, trivial⟩

theorem WellLinked.length_le (h : WellLinked m nodes) : nodes.length ≤ m.fresh := by
  have hsub : nodes.map Prod.fst ⊆ List.range m.fresh := fun a ha =>
    List.mem_range.mpr (h.lt_fresh a ha)
  simpa using (List.subperm_of_subset h.nodup hsub).length_le

theorem rowsFrom_of_seg {fuel : ℕ} {prev : Option ℕ} (h : DList.Seg cells prev nodes none)
    (hfuel : nodes.length ≤ fuel) :
    rowsFrom cells fuel (DList.firstAddr nodes) = nodes.map Prod.snd := by
  induction nodes generalizing fuel prev with
  | nil =>
    cases fuel <;> rfl
  | cons n nodes ih =>
    obtain ⟨a, x⟩ := n
    obtain ⟨hcell, hseg⟩ := h
    rw [List.length_cons] at hfuel
    cases fuel with
    | zero => omega
    | succ fuel =>
      rw [DList.firstAddr_cons, rowsFrom, hcell]
      dsimp only
      rw [Option.or_none, ih hseg (by omega)]
      rfl

theorem WellLinked.rows_eq (h : WellLinked m nodes) : m.rows = nodes.map Prod.snd := by
  rw [Menu.rows, h.head]
  exact rowsFrom_of_seg h.seg h.length_le

/-- The first row has no link back. -/
theorem WellLinked.head_prev {a : ℕ} {n : DNode Item} (h : WellLinked m nodes)
    (ha : m.head = some a) (hn : m.cells a = some n) : n.prev = none := by
  rw [h.head] at ha
  cases nodes with
  | nil => cases ha
  | cons node nodes =>
    cases ha
    rw [h.seg.1] at hn
    cases hn
    rfl

end WellLinked

/-! ### Appending -/

section Append

variable {m : Menu} {nodes : List (ℕ × Item)} {cells : ℕ → Option (DNode Item)}

theorem toEnd_of_seg {fuel a : ℕ} {x : Item} {prev : Option ℕ}
    (h : DList.Seg cells prev ((a, x) :: nodes) none) (hfuel : nodes.length < fuel) :
    toEnd cells fuel a = DList.lastAddr ((a, x) :: nodes) := by
  induction nodes generalizing fuel a x prev with
  | nil =>
    cases fuel with
    | zero => omega
    | succ fuel =>
      rw [toEnd, h.1]
      rfl
  | cons n nodes ih =>
    obtain ⟨b, y⟩ := n
    rw [List.length_cons] at hfuel
    cases fuel with
    | zero => omega
    | succ fuel =>
      rw [toEnd, h.1, Option.bind_some, DList.firstAddr_cons, Option.some_or]
      dsimp only
      rw [ih h.2 (by omega), DList.lastAddr_cons a, DList.lastAddr_cons b]
      cases DList.lastAddr nodes <;> rfl

theorem submenuAppendItem_of_wellLinked (h : WellLinked m nodes) (it : Item) :
    ∃ m', submenuAppendItem m it = some m' ∧ WellLinked m' (nodes ++ [(m.fresh, it)]) := by
  have hfresh : m.fresh ∉ nodes.map Prod.fst := fun ha =>
    absurd (h.lt_fresh _ ha) (Nat.lt_irrefl _)
  have hnodup : ((nodes ++ [(m.fresh, it)]).map Prod.fst).Nodup := by
    rw [List.map_append, List.map_singleton, ← List.concat_eq_append, List.nodup_concat]
    exact ⟨hfresh, h.nodup⟩
  have hlt : ∀ a ∈ (nodes ++ [(m.fresh, it)]).map Prod.fst, a < m.fresh + 1 := by
    intro a ha
    rw [List.map_append, List.mem_append] at ha
    obtain ha | ha := ha
    · exact Nat.lt_succ_of_lt (h.lt_fresh a ha)
    · rw [List.map_singleton, List.mem_singleton] at ha
      omega
  have hseg := h.seg.update hfresh (some ⟨it, none, none⟩)
  rw [submenuAppendItem]
  cases nodes with
  | nil =>
    rw [h.head, DList.firstAddr_nil]
    exact ⟨_, rfl, rfl, hnodup, hlt, Function.update_self _ _ _, trivial⟩
  | cons n nodes =>
    obtain ⟨a, x⟩ := n
    have hend : toEnd m.cells m.fresh a = DList.lastAddr ((a, x) :: nodes) :=
      toEnd_of_seg h.seg h.length_le
    obtain ⟨cells, hcells, hseg', hframe⟩ := hseg.exists_setNext h.nodup (some m.fresh)
    obtain ⟨last, hlast⟩ : ∃ last, DList.lastAddr ((a, x) :: nodes) = some last := by
      rw [DList.lastAddr_cons]
      cases DList.lastAddr nodes <;> exact ⟨_, rfl⟩
    have hnew : cells m.fresh = some ⟨it, none, none⟩ := by
      rw [hframe _ hfresh, Function.update_self]
    rw [hlast] at hcells
    rw [h.head, DList.firstAddr_cons]
    dsimp only
    rw [hend, hlast, Option.bind_some, show DList.modify _ last _ = some cells from hcells,
      Option.bind_some, DList.modify_eq hnew]
    refine ⟨_, rfl, rfl, hnodup, hlt, DList.seg_append.mpr ⟨hseg'.update hfresh _, ?_, trivial⟩⟩
    refine (Function.update_self _ _ _).trans ?_
    rw [hlast]
    rfl

end Append

/-! ### Removing -/

section Remove

variable {m : Menu} {nodes kept rest : List (ℕ × Item)} {id : ℤ}

/-- The nodes that are left are kept: nothing is written. -/
theorem removeLoop_of_kept {fuel : ℕ} {prev : Option ℕ}
    (hseg : DList.Seg m.cells prev (kept ++ rest) none) (hkept : ∀ n ∈ kept, n.2.id ≠ id)
    (hfuel : (kept ++ rest).length ≤ fuel) :
    ∃ fuel', rest.length ≤ fuel' ∧
      removeLoop id fuel (DList.firstAddr (kept ++ rest)) prev m =
        removeLoop id fuel' (DList.firstAddr rest) ((DList.lastAddr kept).or prev) m := by
  induction kept generalizing fuel prev with
  | nil => exact ⟨fuel, hfuel, rfl⟩
  | cons n kept ih =>
    obtain ⟨a, x⟩ := n
    rw [List.cons_append, List.length_cons] at hfuel
    cases fuel with
    | zero => omega
    | succ fuel =>
      obtain ⟨fuel', hfuel', heq⟩ := ih hseg.2 (fun n hn => hkept n (List.mem_cons_of_mem _ hn))
        (Nat.le_of_succ_le_succ hfuel)
      refine ⟨fuel', hfuel', ?_⟩
      rw [List.cons_append, DList.firstAddr_cons, removeLoop, hseg.1, Option.bind_some,
        if_neg (hkept _ List.mem_cons_self), Option.or_none, DList.lastAddr_cons,
        Option.or_assoc, Option.some_or]
      exact heq

/-- The nodes that are left are removed, behind those that are kept. -/
theorem removeLoop_of_removed {fuel : ℕ} {prev : Option ℕ}
    (hhead : m.head = DList.firstAddr (kept ++ rest))
    (hnd : ((kept ++ rest).map Prod.fst).Nodup) (hlt : ∀ a ∈ kept.map Prod.fst, a < m.fresh)
    (hkept : DList.Seg m.cells none kept (DList.firstAddr rest))
    (hrest : DList.Seg m.cells prev rest none) (hid : ∀ n ∈ rest, n.2.id = id)
    (hfuel : rest.length ≤ fuel) :
    ∃ m', removeLoop id fuel (DList.firstAddr rest) (DList.lastAddr kept) m = some m' ∧
      WellLinked m' kept := by
  induction rest generalizing fuel prev m with
  | nil =>
    rw [List.append_nil] at hhead hnd
    have heq : removeLoop id fuel none (DList.lastAddr kept) m = some m := by
      cases fuel <;> rfl
    exact ⟨m, heq, hhead, hnd, hlt, hkept⟩
  | cons n rest ih =>
    obtain ⟨a, x⟩ := n
    rw [List.length_cons] at hfuel
    cases fuel with
    | zero => omega
    | succ fuel =>
      rw [List.map_append, List.nodup_append] at hnd
      obtain ⟨hndk, hndr, hdisj⟩ := hnd
      obtain ⟨har, hndr⟩ := List.nodup_cons.mp hndr
      have hak : a ∉ kept.map Prod.fst := fun ha => hdisj a ha a List.mem_cons_self rfl
      obtain ⟨cells, hcells, hkept', hframe⟩ := hkept.exists_setNext hndk (DList.firstAddr rest)
      have hrest' : DList.Seg cells (some a) rest none :=
        hrest.2.congr fun b hb => hframe b fun hbk => hdisj b hbk b (List.mem_cons_of_mem _ hb) rfl
      rw [DList.firstAddr_cons, removeLoop, hrest.1, Option.bind_some,
        if_pos (hid _ List.mem_cons_self), Option.or_none, hcells, Option.bind_some]
      refine ih ?_ ?_ hlt (hkept'.update hak none) (hrest'.update har none)
        (fun n hn => hid n (List.mem_cons_of_mem _ hn)) (by omega)
      · dsimp only
        rw [hhead]
        cases kept with
        | nil =>
          rw [List.nil_append, List.nil_append, DList.firstAddr_cons, if_pos rfl]
        | cons k kept =>
          obtain ⟨b, y⟩ := k
          rw [List.cons_append, List.cons_append, DList.firstAddr_cons, DList.firstAddr_cons,
            if_neg]
          intro heq
          cases heq
          exact hak List.mem_cons_self
      · rw [List.map_append, List.nodup_append]
        exact ⟨hndk, hndr, fun b hb c hc => hdisj b hb c (List.mem_cons_of_mem _ hc)⟩

theorem submenuRemoveItem_of_atEnd (h : WellLinked m nodes) (hend : AtEnd id m.rows) :
    ∃ m', submenuRemoveItem m id = some m' ∧
      WellLinked m' (nodes.filter fun n => decide (n.2.id ≠ id)) := by
  have hsplit := List.takeWhile_append_dropWhile (p := fun n => decide (n.2.id ≠ id)) (l := nodes)
  have hkept : ∀ n ∈ nodes.takeWhile fun n => decide (n.2.id ≠ id), n.2.id ≠ id := by
    intro n hn
    simpa using List.mem_takeWhile_imp hn
  have hrest : ∀ n ∈ nodes.dropWhile fun n => decide (n.2.id ≠ id), n.2.id = id := by
    intro n hn
    rw [h.rows_eq, AtEnd, List.dropWhile_map] at hend
    exact hend n.2 (List.mem_map_of_mem hn)
  have hfilter : (nodes.filter fun n => decide (n.2.id ≠ id)) =
      nodes.takeWhile fun n => decide (n.2.id ≠ id) := by
    conv_lhs => rw [← hsplit]
    rw [List.filter_append, List.filter_eq_self.mpr fun n hn => decide_eq_true (hkept n hn),
      List.filter_eq_nil_iff.mpr fun n hn => by simpa using hrest n hn, List.append_nil]
  rw [hfilter]
  generalize (nodes.takeWhile fun n => decide (n.2.id ≠ id)) = kept at hkept hsplit
  generalize (nodes.dropWhile fun n => decide (n.2.id ≠ id)) = rest at hrest hsplit
  subst hsplit
  obtain ⟨fuel, hfuel, heq⟩ := removeLoop_of_kept h.seg hkept h.length_le
  obtain ⟨hsegk, hsegr⟩ := DList.seg_append.mp h.seg
  rw [submenuRemoveItem, h.head, heq, Option.or_none]
  refine removeLoop_of_removed h.head h.nodup (fun a ha => h.lt_fresh a ?_) ?_ hsegr hrest hfuel
  · rw [List.map_append]
    exact List.mem_append_left _ ha
  · rwa [Option.or_none] at hsegk

end Remove

/-! ### Giving back -/

section Destroy

variable {m : Menu} {nodes : List (ℕ × Item)} {cells : ℕ → Option (DNode Item)}

theorem destroyLoop_of_seg {fuel : ℕ} {prev : Option ℕ} (h : DList.Seg cells prev nodes none)
    (hnd : (nodes.map Prod.fst).Nodup) (hfuel : nodes.length ≤ fuel) :
    ∃ cells', destroyLoop fuel (DList.firstAddr nodes) cells = some cells' := by
  induction nodes generalizing fuel prev cells with
  | nil =>
    cases fuel <;> exact ⟨cells, rfl⟩
  | cons n nodes ih =>
    obtain ⟨a, x⟩ := n
    obtain ⟨ha, hnd⟩ := List.nodup_cons.mp hnd
    rw [List.length_cons] at hfuel
    cases fuel with
    | zero => omega
    | succ fuel =>
      rw [DList.firstAddr_cons, destroyLoop, h.1, Option.bind_some, Option.or_none]
      exact ih (h.2.update ha none) hnd (by omega)

theorem submenuDestroy_of_wellLinked (h : WellLinked m nodes) :
    ∃ m', submenuDestroy m = some m' ∧ WellLinked m' [] := by
  obtain ⟨cells, hcells⟩ := destroyLoop_of_seg h.seg h.nodup h.length_le
  rw [submenuDestroy, h.head, hcells]
  exact ⟨_, rfl, rfl, List.nodup_nil, by simp, trivial⟩

end Destroy

/-! ### Sorting -/

section Sorting

variable {m : Menu} {nodes l₁ l₂ done rest : List (ℕ × Item)} {cells : ℕ → Option (DNode Item)}
  {a b : ℕ} {x y : Item} {e : SortEnv}

/-- **Two neighbours are exchanged**, and the rest of the list is as before. -/
theorem swap_of_seg (h : DList.Seg cells none (l₁ ++ (a, x) :: (b, y) :: l₂) none)
    (hnd : ((l₁ ++ (a, x) :: (b, y) :: l₂).map Prod.fst).Nodup) :
    ∃ cells', swap cells a b = some cells' ∧
      DList.Seg cells' none (l₁ ++ (b, y) :: (a, x) :: l₂) none := by
  obtain ⟨h₁, ha, hb, h₂⟩ := DList.seg_append.mp h
  rw [List.map_append, List.map_cons, List.map_cons, List.nodup_append] at hnd
  obtain ⟨hnd₁, hnd₂, hdisj⟩ := hnd
  obtain ⟨hab, hnd₂⟩ := List.nodup_cons.mp hnd₂
  obtain ⟨hb₂, hnd₂⟩ := List.nodup_cons.mp hnd₂
  rw [List.mem_cons, not_or] at hab
  obtain ⟨hab, ha₂⟩ := hab
  have ha₁ : a ∉ l₁.map Prod.fst := fun hmem => hdisj a hmem a List.mem_cons_self rfl
  have hb₁ : b ∉ l₁.map Prod.fst := fun hmem =>
    hdisj b hmem b (List.mem_cons_of_mem _ List.mem_cons_self) rfl
  have h₁₂ : ∀ c ∈ l₂.map Prod.fst, c ∉ l₁.map Prod.fst := fun c hc hmem =>
    hdisj c hmem c (List.mem_cons_of_mem _ (List.mem_cons_of_mem _ hc)) rfl
  simp only [Option.or_none, DList.firstAddr_cons] at ha hb h₁
  -- the four links of the two nodes
  have hb' : Function.update cells a (some ⟨x, DList.firstAddr l₂, DList.lastAddr l₁⟩) b =
      some ⟨y, DList.firstAddr l₂, some a⟩ := by
    rw [Function.update_of_ne (Ne.symm hab), hb]
  rw [swap, ha, Option.bind_some, hb, Option.bind_some, DList.modify_eq ha, Option.bind_some,
    DList.modify_eq hb', Option.bind_some, DList.modify_eq (Function.update_self _ _ _),
    Option.bind_some, DList.modify_eq (n := ⟨x, DList.firstAddr l₂, DList.lastAddr l₁⟩) (by
      rw [Function.update_of_ne hab, Function.update_of_ne hab, Function.update_self]),
    Option.bind_some]
  generalize hc : Function.update _ a _ = c
  have hca : c a = some ⟨x, DList.firstAddr l₂, some b⟩ := by
    rw [← hc, Function.update_self]
  have hcb : c b = some ⟨y, some a, DList.lastAddr l₁⟩ := by
    rw [← hc, Function.update_of_ne (Ne.symm hab), Function.update_self]
  have hother : ∀ k, k ≠ a → k ≠ b → c k = cells k := by
    intro k hka hkb
    rw [← hc, Function.update_of_ne hka, Function.update_of_ne hkb, Function.update_of_ne hkb,
      Function.update_of_ne hka]
  clear hc
  -- the links of the neighbours
  have h₁ : DList.Seg c none l₁ (some a) := h₁.congr fun k hk =>
    hother k (ne_of_mem_of_not_mem hk ha₁) (ne_of_mem_of_not_mem hk hb₁)
  obtain ⟨c₁, hc₁, h₁, hframe₁⟩ := h₁.exists_setNext hnd₁ (some b)
  have h₂ : DList.Seg c₁ (some b) l₂ none := h₂.congr fun k hk => by
    rw [hframe₁ k (h₁₂ k hk), hother k (ne_of_mem_of_not_mem hk ha₂)
      (ne_of_mem_of_not_mem hk hb₂)]
  obtain ⟨c₂, hc₂, h₂, hframe₂⟩ := h₂.exists_setPrev hnd₂ (some a)
  rw [hc₁, Option.bind_some]
  refine ⟨c₂, hc₂, DList.seg_append.mpr ⟨?_, ?_, ?_, h₂⟩⟩
  · refine h₁.congr fun k hk => hframe₂ k fun hk₂ => h₁₂ k hk₂ hk
  · rw [hframe₂ b hb₂, hframe₁ b hb₁, hcb]
    simp
  · rw [hframe₂ a ha₂, hframe₁ a ha₁, hca, Option.or_none]

/-- The nodes in another order. -/
theorem nodup_of_perm {l l' : List (ℕ × Item)} (hperm : l'.Perm l)
    (hnd : (l.map Prod.fst).Nodup) : (l'.map Prod.fst).Nodup :=
  (hperm.map Prod.fst).nodup_iff.mpr hnd

/-- The pointer to the first node moves on when the first node is exchanged. -/
theorem head_swap (hnd : ((done ++ (a, x) :: (b, y) :: rest).map Prod.fst).Nodup) :
    (if DList.firstAddr (done ++ (a, x) :: (b, y) :: rest) = some a then some b
      else DList.firstAddr (done ++ (a, x) :: (b, y) :: rest)) =
      DList.firstAddr (done ++ [(b, y)] ++ (a, x) :: rest) := by
  cases done with
  | nil => exact if_pos rfl
  | cons n done =>
    obtain ⟨c, z⟩ := n
    refine if_neg fun heq => ?_
    obtain rfl := Option.some.inj heq
    refine (List.nodup_cons.mp hnd).1 (List.mem_map_of_mem (a := (c, x)) ?_)
    exact List.mem_append_right _ List.mem_cons_self

/-- A pass of the source is a pass over the nodes. -/
theorem sortPass_of_seg {fuel : ℕ} {sorted : Bool}
    (h : DList.Seg cells none (done ++ (a, x) :: rest) none)
    (hnd : ((done ++ (a, x) :: rest).map Prod.fst).Nodup) (hfuel : rest.length < fuel) :
    ∃ cells', sortPass e fuel cells (DList.firstAddr (done ++ (a, x) :: rest)) a sorted =
        some (cells', DList.firstAddr (done ++ (StableSort.carry (nodeGreater e) (a, x) rest).1),
          sorted && !(StableSort.carry (nodeGreater e) (a, x) rest).2) ∧
      DList.Seg cells' none (done ++ (StableSort.carry (nodeGreater e) (a, x) rest).1) none := by
  induction rest generalizing fuel cells done a x sorted with
  | nil =>
    cases fuel with
    | zero => omega
    | succ fuel =>
      refine ⟨cells, ?_, h⟩
      rw [sortPass, h.cell, Option.bind_some, StableSort.carry]
      simp
  | cons n rest ih =>
    obtain ⟨b, y⟩ := n
    rw [List.length_cons] at hfuel
    cases fuel with
    | zero => omega
    | succ fuel =>
      have hcellb := (DList.seg_append.mp h).2.2.1
      rw [sortPass, h.cell, Option.bind_some, DList.firstAddr_cons, Option.some_or]
      dsimp only
      rw [hcellb, Option.bind_some, StableSort.carry]
      have hlt : rest.length < fuel := by omega
      by_cases hgt : rowGreater e x y = true
      · obtain ⟨cells', hswap, hseg⟩ := swap_of_seg h hnd
        have hperm : (done ++ (b, y) :: (a, x) :: rest).Perm (done ++ (a, x) :: (b, y) :: rest) :=
          (List.Perm.swap _ _ _).append_left _
        have hnd' := nodup_of_perm hperm hnd
        rw [List.append_cons done (b, y)] at hseg hnd'
        obtain ⟨cells'', hpass, hseg'⟩ := @ih (done ++ [(b, y)]) cells' a x fuel false hseg hnd' hlt
        rw [← List.append_cons done (b, y) (StableSort.carry _ (a, x) rest).1] at hpass hseg'
        rw [if_pos hgt, if_pos (show nodeGreater e (a, x) (b, y) = true from hgt), hswap,
          Option.bind_some, head_swap hnd, Bool.not_true, Bool.and_false]
        exact ⟨cells'', hpass, hseg'⟩
      · rw [List.append_cons done (a, x)] at h hnd
        obtain ⟨cells', hpass, hseg⟩ := @ih (done ++ [(a, x)]) cells b y fuel sorted h hnd hlt
        rw [← List.append_cons done (a, x) (StableSort.carry _ (b, y) rest).1] at hpass hseg
        rw [if_neg hgt, if_neg (show ¬ nodeGreater e (a, x) (b, y) = true from hgt),
          List.append_cons done (a, x)]
        exact ⟨cells', hpass, hseg⟩

/-- The outer loop of the source sorts the nodes. -/
theorem sortLoop_of_seg {n fuel : ℕ} (h : DList.Seg cells none nodes none)
    (hnd : (nodes.map Prod.fst).Nodup) (hne : nodes ≠ []) (hn : nodes.length ≤ n)
    (hsort : StableSort.sort (nodeGreater e) fuel nodes = some rest) :
    ∃ cells', sortLoop e n fuel cells (DList.firstAddr nodes) =
        some (cells', DList.firstAddr rest) ∧ DList.Seg cells' none rest none := by
  induction fuel generalizing cells nodes with
  | zero => cases hsort
  | succ fuel ih =>
    obtain ⟨⟨a, x⟩, l, rfl⟩ := List.exists_cons_of_ne_nil hne
    obtain ⟨cells', hpass, hseg⟩ := @sortPass_of_seg [] l cells a x e n true h hnd hn
    rw [List.nil_append, List.nil_append, Bool.true_and] at hpass
    rw [List.nil_append] at hseg
    rw [sortLoop, DList.firstAddr_cons, Option.bind_some]
    rw [DList.firstAddr_cons] at hpass
    rw [hpass, Option.bind_some]
    rw [StableSort.sort, StableSort.pass] at hsort
    have hperm := @StableSort.perm_carry _ (nodeGreater e) (a, x) l
    dsimp only
    split at hsort
    next hs =>
      rw [hs, Bool.not_true, if_neg Bool.false_ne_true]
      refine ih hseg (nodup_of_perm hperm hnd) ?_ (hperm.length_eq.trans_le hn) hsort
      intro hnil
      rw [hnil] at hperm
      cases hperm.symm.eq_nil
    next hs =>
      obtain rfl := Option.some.inj hsort
      rw [eq_false_of_ne_true hs, Bool.not_false, if_pos rfl]
      exact ⟨cells', rfl, hseg⟩

/-- **The sort comes to an end**, and the rows are in the order of their titles, folders first, with
tied rows as they were. -/
theorem submenuSort_of_wellLinked (h : WellLinked m nodes) (e : SortEnv) :
    ∃ m' nodes', submenuSort m e = some m' ∧ WellLinked m' nodes' ∧
      StableSort.Stable (nodeGreater e) nodes nodes' := by
  cases nodes with
  | nil =>
    rw [submenuSort, h.head]
    exact ⟨m, [], rfl, h, StableSort.Stable.of_sorted List.Pairwise.nil⟩
  | cons n l =>
    obtain ⟨a, x⟩ := n
    rw [submenuSort, h.head, DList.firstAddr_cons]
    dsimp only
    rw [h.seg.1, Option.bind_some, Option.or_none]
    by_cases hl : l = []
    · subst hl
      exact ⟨m, _, rfl, h, StableSort.Stable.of_sorted (List.pairwise_singleton _ _)⟩
    · have hnext : ¬ DList.firstAddr l = none := by
        obtain ⟨⟨b, y⟩, l, rfl⟩ := List.exists_cons_of_ne_nil hl
        exact Option.some_ne_none _
      have hfuel : StableSort.inversions (nodeGreater e) ((a, x) :: l) < m.fresh * m.fresh + 1 :=
        Nat.lt_succ_of_le ((StableSort.inversions_le _).trans
          (Nat.mul_le_mul h.length_le h.length_le))
      obtain ⟨nodes', hsort, hstable⟩ := StableSort.sort_stable (strictWeak_nodeGreater e) hfuel
      obtain ⟨cells', hloop, hseg⟩ :=
        sortLoop_of_seg h.seg h.nodup (List.cons_ne_nil _ _) h.length_le hsort
      rw [DList.firstAddr_cons] at hloop
      rw [if_neg hnext, hloop]
      refine ⟨_, nodes', rfl, ⟨rfl, nodup_of_perm hstable.perm h.nodup, ?_, hseg⟩, hstable⟩
      intro b hb
      exact h.lt_fresh b ((hstable.perm.map Prod.fst).mem_iff.mp hb)

end Sorting

/-! ### Runs -/

section Runs

variable {m : Menu} {nodes : List (ℕ × Item)} {ops : List Op}

/-- **The step lemma.** Every operation has a result, and is the one on lists. -/
theorem exists_step (h : WellLinked m nodes) {op : Op} (hok : StepOk m op) :
    ∃ m' nodes', step m op = some m' ∧ WellLinked m' nodes' ∧
      Edit (nodes.map Prod.snd) op (nodes'.map Prod.snd) := by
  cases op with
  | append it =>
    obtain ⟨m', hm', hlinked⟩ := submenuAppendItem_of_wellLinked h it
    exact ⟨m', _, hm', hlinked, List.map_append⟩
  | remove id =>
    obtain ⟨m', hm', hlinked⟩ := submenuRemoveItem_of_atEnd h hok
    refine ⟨m', _, hm', hlinked, ?_⟩
    rw [Edit, List.filter_map]
    rfl
  | sort e =>
    obtain ⟨m', nodes', hm', hlinked, hstable⟩ := submenuSort_of_wellLinked h e
    exact ⟨m', nodes', hm', hlinked, hstable.map (strictWeak_rowGreater e)⟩
  | destroy =>
    obtain ⟨m', hm', hlinked⟩ := submenuDestroy_of_wellLinked h
    exact ⟨m', [], hm', hlinked, rfl⟩

/-- **The run lemma.** -/
theorem exists_run (h : WellLinked m nodes) (hok : Transition.RunOk step StepOk m ops) :
    ∃ m' nodes', Transition.run step m ops = some m' ∧ WellLinked m' nodes' ∧
      Edits (nodes.map Prod.snd) ops (nodes'.map Prod.snd) := by
  induction ops generalizing m nodes with
  | nil => exact ⟨m, nodes, rfl, h, rfl⟩
  | cons op ops ih =>
    obtain ⟨m₁, nodes₁, hstep, h₁, hedit⟩ := exists_step h hok.1
    obtain ⟨m', nodes', hrun, h', hedits⟩ :=
      ih h₁ ((Transition.runOk_cons_of_eq_some hstep).mp hok).2
    exact ⟨m', nodes', Transition.run_cons_eq_some.mpr ⟨m₁, hstep, hrun⟩, h', _, hedit, hedits⟩

/-- **The rows of a submenu.** When rows are only removed from the end of the list, every sequence
of operations comes to an end with the rows that were appended and not removed, each once, and
sorted when they were sorted. The first row has no link back, and every other row has one to the row
before it. -/
theorem wellLinked_of_runOk (hok : Transition.RunOk step StepOk empty ops) :
    ∃ m nodes, Transition.run step empty ops = some m ∧ WellLinked m nodes ∧
      (∀ a n, m.head = some a → m.cells a = some n → n.prev = none) ∧
      (∀ a ∈ nodes.map Prod.fst, ∀ n b, m.cells a = some n → n.next = some b →
        ∃ n', m.cells b = some n' ∧ n'.prev = some a) ∧
      Edits [] ops (nodes.map Prod.snd) := by
  obtain ⟨m, nodes, hrun, hlinked, hedits⟩ := exists_run wellLinked_empty hok
  exact ⟨m, nodes, hrun, hlinked, fun a n => hlinked.head_prev,
    fun a ha n b => hlinked.seg.prev_of_next ha, hedits⟩

end Runs

/-- A row with a text of its own. -/
def row (id : ℤ) (text : Text) (isFolder : Bool) : Item :=
  ⟨-1, some text, -1, id, isFolder, .inr rfl⟩

/-- Three rows are sorted, and the last one is removed. -/
def threeRows : List Op :=
  [.append (row 1 ['b'] false), .append (row 2 ['A'] false), .append (row 3 ['c'] true),
    .sort ⟨fun _ => [], false, none⟩, .remove 1]

theorem wellLinked_threeRows :
    ∃ m nodes, Transition.run step empty threeRows = some m ∧ WellLinked m nodes ∧
      (∀ a n, m.head = some a → m.cells a = some n → n.prev = none) ∧
      (∀ a ∈ nodes.map Prod.fst, ∀ n b, m.cells a = some n → n.next = some b →
        ∃ n', m.cells b = some n' ∧ n'.prev = some a) ∧
      Edits [] threeRows (nodes.map Prod.snd) :=
  wellLinked_of_runOk (by decide)

/-- When the first of two rows is removed, the other one keeps its link back. -/
theorem not_wellLinked_of_remove :
    ∃ m a n, Transition.run step empty
        [.append (row 1 ['a'] false), .append (row 2 ['b'] false), .remove 1] = some m ∧
      m.head = some a ∧ m.cells a = some n ∧ n.prev = some 0 ∧ m.cells 0 = none :=
  ⟨_, 1, _, rfl, rfl, rfl, rfl, rfl⟩

end Submenu

end OpenPS2Loader
