import Mathlib.Data.Nat.Notation
import Mathlib.Logic.Function.Iterate
import Mathlib.Tactic.SplitIfs

/-!
# The pages of a submenu

A list of rows is shown page by page. Two pointers go along the list: `current` is the selected row,
and `pagestart` is the first row of the page that is shown, which has `displayedItems` rows. A row
is its place in the list here, and a pointer is `none` when it is null.

The loops that move the pointers count down before they test, so that a loop that starts with
`displayedItems + 1` makes `displayedItems` moves, and one that starts with `displayedItems` makes
one move less.

## Main definitions

* `Pages.Cursor` — the two pointers
* `Pages.menuNextV`, `menuPrevV`, `menuNextPage`, `menuPrevPage`, `menuFirstPage`, `menuLastPage`
* `Pages.Visible` — the selected row is on the page

## Main results

* `Pages.visible_step`, `Pages.visible_run` — it always is
* `Pages.run_shows` — with what `menuNextPage` and `menuNextV` do
-/

namespace OpenPS2Loader

namespace Pages

/-! ### The pointers -/

/-- `row->next` in a list of `rows` rows. -/
def next (rows r : ℕ) : Option ℕ := if r + 1 < rows then some (r + 1) else none

/-- `row->prev` -/
def prev (r : ℕ) : Option ℕ := if r = 0 then none else some (r - 1)

/-- `while (cur->next) cur = cur->next` -/
def toEnd (rows cur : ℕ) : ℕ :=
  if cur + 1 < rows then toEnd rows (cur + 1) else cur
  termination_by rows - cur

/-- `while (--itms && cur->prev) cur = cur->prev`. A count of zero does not end the loop. -/
def back : ℕ → ℕ → ℕ
  | 0, _ => 0
  | 1, cur => cur
  | itms + 2, cur =>
    match prev cur with
    | some p => back (itms + 1) p
    | none => cur

/-- `while (--itms && cur->next) cur = cur->next` -/
def forth (rows : ℕ) : ℕ → ℕ → ℕ
  | 0, cur => toEnd rows cur
  | 1, cur => cur
  | itms + 2, cur =>
    match next rows cur with
    | some q => forth rows (itms + 1) q
    | none => cur

/-- `while (n-- && probe) probe = probe->next` -/
def probe (rows : ℕ) : ℕ → Option ℕ → Option ℕ
  | 0, r => r
  | n + 1, r => r.bind fun r => probe rows n (next rows r)

/-- The test of `menuNextV`: the row is met on the way from `cur`. -/
def onPage (rows row : ℕ) : ℕ → Option ℕ → Bool
  | 0, _ | 1, _ => false
  | itms + 2, cur =>
    match cur with
    | none => false
    | some cur => if row = cur then true else onPage rows row (itms + 1) (next rows cur)

/-- `current` and `pagestart` of the selected menu. -/
structure Cursor where
  current : Option ℕ
  pagestart : Option ℕ
  deriving DecidableEq

variable (rows displayedItems : ℕ)

def menuFirstPage (s : Cursor) : Cursor :=
  match s.current with
  | none => s
  | some _ => ⟨some 0, some 0⟩

def menuLastPage (s : Cursor) : Cursor :=
  match s.current with
  | none => s
  | some cur =>
    let last := toEnd rows cur
    ⟨some last, some (back displayedItems last)⟩

def menuNextV (s : Cursor) : Cursor :=
  match s.current.bind (next rows) with
  | some cur =>
    if onPage rows cur (displayedItems + 1) s.pagestart then { s with current := some cur }
    else ⟨some cur, some cur⟩
  | none => menuFirstPage s

def menuPrevV (s : Cursor) : Cursor :=
  match s.current.bind prev with
  | some cur =>
    ⟨some cur,
      if s.pagestart = s.current then s.pagestart.map (back (displayedItems + 1)) else s.pagestart⟩
  | none => menuLastPage rows displayedItems s

def menuNextPage (s : Cursor) : Cursor :=
  match s.pagestart, probe rows displayedItems s.pagestart with
  | some cur, some _ =>
    ⟨some (forth rows (displayedItems + 1) cur), some (forth rows (displayedItems + 1) cur)⟩
  | _, _ => s

def menuPrevPage (s : Cursor) : Cursor :=
  match s.pagestart, s.pagestart.bind prev with
  | some cur, some _ => ⟨some (back (displayedItems + 1) cur), some (back (displayedItems + 1) cur)⟩
  | _, _ => menuLastPage rows displayedItems s

/-- What the user can do. -/
inductive Move
  | nextV
  | prevV
  | nextPage
  | prevPage
  | firstPage
  | lastPage
  deriving DecidableEq

def step (s : Cursor) : Move → Cursor
  | .nextV => menuNextV rows displayedItems s
  | .prevV => menuPrevV rows displayedItems s
  | .nextPage => menuNextPage rows displayedItems s
  | .prevPage => menuPrevPage rows displayedItems s
  | .firstPage => menuFirstPage s
  | .lastPage => menuLastPage rows displayedItems s

/-- The first row is selected, and is the first of the page. -/
def start : Cursor := ⟨some 0, some 0⟩

def run (ms : List Move) : Cursor := ms.foldl (step rows displayedItems) start

/-- The pointers are rows, and the selected row is one of those that are shown. -/
def Visible (s : Cursor) : Prop :=
  ∃ cur top, s = ⟨some cur, some top⟩ ∧ cur < rows ∧ top ≤ cur ∧ cur < top + displayedItems

/-! ### The loops -/

section loops

variable {rows displayedItems : ℕ}

theorem next_of_lt {r : ℕ} (h : r + 1 < rows) : next rows r = some (r + 1) := if_pos h

theorem next_of_le {r : ℕ} (h : rows ≤ r + 1) : next rows r = none := if_neg (Nat.not_lt.mpr h)

theorem toEnd_eq {cur : ℕ} (h : cur < rows) : toEnd rows cur = rows - 1 := by
  induction cur using toEnd.induct rows with
  | case1 cur hlt ih =>
    rw [toEnd, if_pos hlt]
    exact ih hlt
  | case2 cur hlast =>
    rw [toEnd, if_neg hlast]
    omega

/-- The loop goes back over all its moves, or to the first row. -/
theorem back_eq (itms cur : ℕ) : back (itms + 1) cur = cur - itms := by
  induction itms generalizing cur with
  | zero => rfl
  | succ itms ih =>
    rw [back, prev]
    split_ifs with h
    · show cur = cur - (itms + 1)
      omega
    · show back (itms + 1) (cur - 1) = cur - (itms + 1)
      rw [ih]
      omega

theorem forth_eq (itms : ℕ) {cur : ℕ} (h : cur < rows) :
    forth rows (itms + 1) cur = min (cur + itms) (rows - 1) := by
  induction itms generalizing cur with
  | zero =>
    show cur = min (cur + 0) (rows - 1)
    omega
  | succ itms ih =>
    rw [forth]
    by_cases hlast : cur + 1 < rows
    · rw [next_of_lt hlast]
      show forth rows (itms + 1) (cur + 1) = _
      rw [ih hlast]
      omega
    · rw [next_of_le (Nat.not_lt.mp hlast)]
      show cur = _
      omega

/-- The probe comes to a row when there are rows behind the page. -/
theorem probe_eq (n : ℕ) {r : ℕ} (h : r < rows) :
    probe rows n (some r) = if r + n < rows then some (r + n) else none := by
  induction n generalizing r with
  | zero => rw [probe, Nat.add_zero, if_pos h]
  | succ n ih =>
    show probe rows n (next rows r) = _
    by_cases hlast : r + 1 < rows
    · rw [next_of_lt hlast, ih hlast, show r + 1 + n = r + (n + 1) by omega]
    · rw [next_of_le (Nat.not_lt.mp hlast), if_neg (by omega)]
      cases n with
      | zero => rfl
      | succ n => rfl

/-- The rows that `menuNextV` looks at are those of the page. -/
theorem onPage_eq (itms : ℕ) {row cur : ℕ} (hrow : row < rows) (h : cur < rows) :
    onPage rows row (itms + 1) (some cur) = decide (cur ≤ row ∧ row < cur + itms) := by
  induction itms generalizing cur with
  | zero =>
    rw [onPage, decide_eq_false]
    omega
  | succ itms ih =>
    show (if row = cur then true else onPage rows row (itms + 1) (next rows cur)) = _
    by_cases heq : row = cur
    · rw [if_pos heq, decide_eq_true]
      omega
    · rw [if_neg heq]
      by_cases hlast : cur + 1 < rows
      · rw [next_of_lt hlast, ih hlast]
        refine decide_eq_decide.mpr ?_
        omega
      · rw [next_of_le (Nat.not_lt.mp hlast), decide_eq_false (by omega)]
        cases itms with
        | zero => rfl
        | succ itms => rfl

end loops

/-! ### The moves -/

section moves

variable {rows displayedItems : ℕ} {s : Cursor} {cur top : ℕ}

theorem menuLastPage_eq (hitems : 0 < displayedItems) (hcur : cur < rows) (t : Option ℕ) :
    menuLastPage rows displayedItems ⟨some cur, t⟩ =
      ⟨some (rows - 1), some (rows - 1 - (displayedItems - 1))⟩ := by
  obtain ⟨itms, rfl⟩ := Nat.exists_eq_add_of_lt hitems
  rw [menuLastPage]
  dsimp only
  rw [toEnd_eq hcur, Nat.zero_add, back_eq, Nat.add_sub_cancel]

theorem visible_first (hrows : 0 < rows) (hitems : 0 < displayedItems) :
    Visible rows displayedItems ⟨some 0, some 0⟩ :=
  ⟨0, 0, rfl, hrows, Nat.le_refl 0, by omega⟩

theorem visible_last (hitems : 0 < displayedItems) (hcur : cur < rows) (t : Option ℕ) :
    Visible rows displayedItems (menuLastPage rows displayedItems ⟨some cur, t⟩) := by
  rw [menuLastPage_eq hitems hcur]
  refine ⟨rows - 1, rows - 1 - (displayedItems - 1), rfl, ?_, ?_, ?_⟩ <;> omega

/-- A move down: the next row, or the first one from the last. -/
theorem menuNextV_current (hcur : cur < rows) (t : Option ℕ) :
    (menuNextV rows displayedItems ⟨some cur, t⟩).current = some ((cur + 1) % rows) := by
  rw [menuNextV]
  by_cases hlast : cur + 1 < rows
  · rw [Option.bind_some, next_of_lt hlast, Nat.mod_eq_of_lt hlast]
    dsimp only
    split_ifs <;> rfl
  · rw [Option.bind_some, next_of_le (Nat.not_lt.mp hlast), show cur + 1 = rows by omega,
      Nat.mod_self]
    rfl

theorem visible_nextV (hitems : 0 < displayedItems) (h : Visible rows displayedItems s) :
    Visible rows displayedItems (menuNextV rows displayedItems s) := by
  obtain ⟨cur, top, rfl, hcur, htop, hpage⟩ := h
  rw [menuNextV]
  by_cases hlast : cur + 1 < rows
  · rw [Option.bind_some, next_of_lt hlast]
    dsimp only
    rw [onPage_eq displayedItems hlast (by omega)]
    split_ifs with hon
    · obtain ⟨hle, hlt⟩ := of_decide_eq_true hon
      exact ⟨cur + 1, top, rfl, hlast, hle, hlt⟩
    · -- the page starts at the row that is selected
      exact ⟨cur + 1, cur + 1, rfl, hlast, Nat.le_refl _, by omega⟩
  · rw [Option.bind_some, next_of_le (Nat.not_lt.mp hlast)]
    exact visible_first (by omega) hitems

theorem visible_prevV (hitems : 0 < displayedItems) (h : Visible rows displayedItems s) :
    Visible rows displayedItems (menuPrevV rows displayedItems s) := by
  obtain ⟨cur, top, rfl, hcur, htop, hpage⟩ := h
  rw [menuPrevV, Option.bind_some, prev]
  by_cases hfirst : cur = 0
  · rw [if_pos hfirst]
    exact visible_last hitems hcur _
  · rw [if_neg hfirst]
    dsimp only
    by_cases heq : top = cur
    · rw [if_pos (congrArg some heq), Option.map_some, back_eq]
      refine ⟨cur - 1, top - displayedItems, rfl, ?_, ?_, ?_⟩ <;> omega
    · rw [if_neg fun h => heq (Option.some.inj h)]
      refine ⟨cur - 1, top, rfl, ?_, ?_, ?_⟩ <;> omega

theorem visible_nextPage (hitems : 0 < displayedItems) (h : Visible rows displayedItems s) :
    Visible rows displayedItems (menuNextPage rows displayedItems s) := by
  obtain ⟨cur, top, rfl, hcur, htop, hpage⟩ := h
  rw [menuNextPage]
  dsimp only
  rw [probe_eq displayedItems (by omega)]
  by_cases hmore : top + displayedItems < rows
  · rw [if_pos hmore]
    dsimp only
    rw [forth_eq displayedItems (by omega)]
    refine ⟨_, _, rfl, ?_, Nat.le_refl _, ?_⟩ <;> omega
  · rw [if_neg hmore]
    exact ⟨cur, top, rfl, hcur, htop, hpage⟩

theorem visible_prevPage (hitems : 0 < displayedItems) (h : Visible rows displayedItems s) :
    Visible rows displayedItems (menuPrevPage rows displayedItems s) := by
  obtain ⟨cur, top, rfl, hcur, htop, hpage⟩ := h
  rw [menuPrevPage, Option.bind_some, prev]
  by_cases hfirst : top = 0
  · rw [if_pos hfirst]
    exact visible_last hitems hcur _
  · rw [if_neg hfirst]
    dsimp only
    rw [back_eq]
    refine ⟨_, _, rfl, ?_, Nat.le_refl _, ?_⟩ <;> omega

/-- **One move.** -/
theorem visible_step (hitems : 0 < displayedItems) (h : Visible rows displayedItems s) (m : Move) :
    Visible rows displayedItems (step rows displayedItems s m) := by
  cases m with
  | nextV => exact visible_nextV hitems h
  | prevV => exact visible_prevV hitems h
  | nextPage => exact visible_nextPage hitems h
  | prevPage => exact visible_prevPage hitems h
  | firstPage =>
    obtain ⟨cur, top, rfl, hcur, -, -⟩ := h
    exact visible_first (by omega) hitems
  | lastPage =>
    obtain ⟨cur, top, rfl, hcur, -, -⟩ := h
    exact visible_last hitems hcur (some top)

/-- **All moves.** -/
theorem visible_run (hrows : 0 < rows) (hitems : 0 < displayedItems) (ms : List Move) :
    Visible rows displayedItems (run rows displayedItems ms) := by
  have hall : ∀ s, Visible rows displayedItems s →
      Visible rows displayedItems (ms.foldl (step rows displayedItems) s) := by
    induction ms with
    | nil =>
      intro s h
      exact h
    | cons m ms ih =>
      intro s h
      exact ih _ (visible_step hitems h m)
  exact hall start (visible_first hrows hitems)

/-- A page behind which there are no rows stays. -/
theorem menuNextPage_of_fits (hfits : rows ≤ top + displayedItems) (htop : top < rows)
    (c : Option ℕ) : menuNextPage rows displayedItems ⟨c, some top⟩ = ⟨c, some top⟩ := by
  rw [menuNextPage]
  dsimp only
  rw [probe_eq displayedItems htop, if_neg (Nat.not_lt.mpr hfits)]

/-- The rows one after the other, and around. -/
theorem iterate_menuNextV (hitems : 0 < displayedItems) (h : Visible rows displayedItems s)
    (hcur : s.current = some cur) (k : ℕ) :
    ((menuNextV rows displayedItems)^[k] s).current = some ((cur + k) % rows) ∧
      Visible rows displayedItems ((menuNextV rows displayedItems)^[k] s) := by
  induction k with
  | zero =>
    obtain ⟨c, top, rfl, hlt, -, -⟩ := id h
    cases hcur
    exact ⟨by rw [Nat.add_zero, Nat.mod_eq_of_lt hlt]; rfl, h⟩
  | succ k ih =>
    rw [Function.iterate_succ_apply']
    obtain ⟨hk, hvisible⟩ := ih
    refine ⟨?_, visible_nextV hitems hvisible⟩
    obtain ⟨c, top, heq, hlt, -, -⟩ := hvisible
    rw [heq] at hk ⊢
    rw [menuNextV_current hlt, Option.some.inj hk, Nat.mod_add_mod, Nat.add_assoc]

end moves

/-- **The page shows the selected row.** After any moves, the two pointers are rows of the list and
the selected row is one of the `displayedItems` rows from the first of the page on; `menuNextPage`
does nothing when there are no rows behind the page; and `menuNextV` comes to every row once before
it comes to the first row again. -/
theorem run_shows (rows displayedItems : ℕ) (hrows : 0 < rows) (hitems : 0 < displayedItems)
    (ms : List Move) :
    ∃ cur top, run rows displayedItems ms = ⟨some cur, some top⟩ ∧ cur < rows ∧ top < rows ∧
      top ≤ cur ∧ cur < top + displayedItems ∧
      (rows ≤ top + displayedItems →
        menuNextPage rows displayedItems (run rows displayedItems ms) =
          run rows displayedItems ms) ∧
      ∀ k, ((menuNextV rows displayedItems)^[k] (run rows displayedItems ms)).current =
        some ((cur + k) % rows) := by
  have hvisible := visible_run hrows hitems ms
  obtain ⟨cur, top, heq, hcur, htop, hpage⟩ := id hvisible
  refine ⟨cur, top, heq, hcur, by omega, htop, hpage, fun hfits => ?_, fun k => ?_⟩
  · rw [heq]
    exact menuNextPage_of_fits hfits (by omega) _
  · exact (iterate_menuNextV hitems hvisible (by rw [heq]) k).1

theorem run_shows_five :
    0 < 5 ∧ 0 < 2 ∧ run 5 2 [.nextV, .nextV, .prevPage, .prevV] = ⟨some 4, some 3⟩ ∧
      ∃ cur top, run 5 2 [.nextV, .nextV, .prevPage, .prevV] = ⟨some cur, some top⟩ ∧
        top ≤ cur ∧ cur < top + 2 := by
  refine ⟨by decide, by decide, by decide +kernel, ?_⟩
  obtain ⟨cur, top, heq, -, -, hle, hlt, -⟩ :=
    run_shows 5 2 (by decide) (by decide) [.nextV, .nextV, .prevPage, .prevV]
  exact ⟨cur, top, heq, hle, hlt⟩

end Pages

end OpenPS2Loader
