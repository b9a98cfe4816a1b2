import Mathlib.Data.Int.Notation
import Mathlib.Data.Nat.Notation
import Mathlib.Logic.Function.Basic
import OpenPS2Loader.Lib.Transition

/-!
# The config of the selected row

`menusys.c` keeps the config of one row: `itemConfig`, with the list and the index it belongs to.
The drawing thread asks for it when the selection settles, the settings dialogs and a launch ask
for it when they need it, and the info screen asks for one with the size of the game. The files
are read by the I/O worker, which takes its requests in order; a launch reads by itself.

A step is a section of `menuSemaId`, a read of a config file, a call of `ioPutRequest`, or an
access to `actionStatus` or `itemConfig` that the code makes outside of the semaphore. The drawing
thread also asks for the config while it waits in `guiGameHandleDeferedIO` and
`guiHandleDeferedIO`, since these draw; `Draw` is its place in that call. A `configFree` behind a
section is part of its step: nobody else knows the set. The selection may change at any time, by
the user or because a list is read again.

A config set is a number, in the order of the reads, and what a dialog writes into it is not
modelled: an edit is lost when its set is. An index in a list is not negative. `_menuLoadConfig`
follows `selected_item` without looking at it, so it has no step when there is none.

## Main definitions

* `Menu` — the variables and where the threads are
* `Menu.requestConfig`, `loadConfig`, `publishAsync`, `publishInfo`, `launch`, `publishLaunch`,
  `requestInfoSize` — the sections
* `Menu.step` — the threads, interleaved
-/

namespace OpenPS2Loader

namespace Menu

/-! ### The data -/

/-- A row: its list, and its index there. -/
structure Row where
  list : ℕ
  id : ℕ
  deriving DecidableEq

/-- What `selected_item` points to: `userdata`, and the id of `current`. -/
structure Tab where
  list : ℕ
  current : Option ℕ
  deriving DecidableEq

/-- The selected row. -/
def rowOf (selected : Option Tab) : Option Row :=
  selected.bind fun tab => tab.current.map fun id => ⟨tab.list, id⟩

/-- The handlers that are queued. A save has its number. -/
inductive Handler
  | requestConfig
  | loadConfig
  | loadConfigAsync
  | resolveInfoSize
  | saveConfig (save : ℕ)
  deriving DecidableEq

/-- Where the GUI thread is. -/
inductive Gui
  | idle
  /-- in `gameMenuLoadConfig`, behind the look at the cache -/
  | asking
  /-- behind `actionStatus = 1` -/
  | asked
  /-- `ioPutRequest` failed -/
  | askFailed
  /-- in the loop of `guiGameHandleDeferedIO` -/
  | waiting
  /-- about to return `itemConfig` -/
  | returning
  /-- in `menuLoadConfig`, behind its first section -/
  | launching (row : Row)
  /-- behind its read -/
  | launched (row : Row) (set : Option ℕ)
  /-- in `menuRequestInfoSize`, with the worker to queue -/
  | infoPutting
  /-- `ioPutRequest` failed -/
  | infoFailed
  /-- in `menuSaveConfig`, behind `actionStatus = 1` -/
  | saving
  /-- `ioPutRequest` failed -/
  | saveFailed
  /-- in the loop of `guiHandleDeferedIO` -/
  | saveWaiting
  deriving DecidableEq

/-- Where the GUI thread is in `_menuRequestConfig`, when it draws. -/
inductive Draw
  | idle
  /-- with a load to queue -/
  | putting (waiter : Bool)
  /-- `ioPutRequest` failed -/
  | failed
  deriving DecidableEq

/-- Where the I/O worker is. -/
inductive Worker
  | idle
  /-- at the start of a handler -/
  | start (h : Handler)
  /-- in `_menuRequestConfig`, with a load to queue -/
  | putting (waiter : Bool)
  /-- `ioPutRequest` failed -/
  | failed
  /-- in `_menuLoadConfigAsync`, behind its first section -/
  | reading (list : ℕ) (id : ℤ)
  /-- behind its read -/
  | read (list : ℕ) (id : ℤ) (set : Option ℕ)
  /-- in `_menuResolveInfoSize`, with its target -/
  | target (row : Row) (generation : UInt32)
  /-- behind its read -/
  | sized (row : Row) (generation : UInt32) (set : Option ℕ)
  /-- at `complete_request` -/
  | completing (generation : UInt32)
  /-- in `_menuSaveConfig`, behind its first section -/
  | writing (save : ℕ)
  deriving DecidableEq

/-- A set that a dialog or a launch got for the selected row, and the number of saves before. -/
structure Hold where
  row : Row
  set : ℕ
  saves : ℕ
  deriving DecidableEq

end Menu

open Menu in
/-- The variables of `menusys.c`, the queue of the worker, and where the threads are. -/
structure Menu where
  /-- `selected_item` -/
  selected : Option Tab
  actionStatus : Bool
  itemConfigId : ℤ
  itemConfig : Option ℕ
  itemConfigList : Option ℕ
  infoSizeWorkerPending : Bool
  /-- `infoSizeRequestList` and `infoSizeRequestId` -/
  infoSizeRequest : Option Row
  infoSizeRequestGeneration : UInt32
  queue : List Handler
  gui : Gui
  draw : Draw
  worker : Worker
  /-- a record: how many sets were read -/
  sets : ℕ
  /-- a record: what each set was read for -/
  origin : ℕ → ℕ × ℤ
  /-- a record: how often each set was published -/
  published : ℕ → ℕ
  /-- a record: how often each set was freed -/
  freed : ℕ → ℕ
  /-- a record: how many saves were queued -/
  saves : ℕ
  /-- a record: the set of a dialog or a launch, while its row stays selected and is not saved -/
  hold : Option Hold
  /-- a record: no target came after the one the worker took -/
  newest : Bool
  /-- a record: the last target was loaded or found left behind, or could not be queued -/
  answered : Bool

namespace Menu

/-- The variables after `menuInit`. -/
def init : Menu where
  selected := none
  actionStatus := false
  itemConfigId := -1
  itemConfig := none
  itemConfigList := none
  infoSizeWorkerPending := false
  infoSizeRequest := none
  infoSizeRequestGeneration := 0
  queue := []
  gui := .idle
  draw := .idle
  worker := .idle
  sets := 0
  origin := fun _ => (0, 0)
  published := fun _ => 0
  freed := fun _ => 0
  saves := 0
  hold := none
  newest := true
  answered := true

/-! ### Sets -/

/-- `itemGetConfig`, which may return `NULL`. -/
def load (s : Menu) (list : ℕ) (id : ℤ) (ok : Bool) : Menu × Option ℕ :=
  if ok then
    ({ s with sets := s.sets + 1, origin := Function.update s.origin s.sets (list, id) },
      some s.sets)
  else
    (s, none)

/-- `itemConfig = loadedConfig` -/
def publish (s : Menu) (set : ℕ) : Menu :=
  { s with
    itemConfig := some set
    published := Function.update s.published set (s.published set + 1) }

/-- `configFree(loadedConfig)`, unless it is `NULL`. -/
def free (s : Menu) (set : Option ℕ) : Menu :=
  { s with freed := set.elim s.freed fun n => Function.update s.freed n (s.freed n + 1) }

/-- `configFree(itemConfig); itemConfig = NULL;`, unless it is `NULL`. -/
def freeItemConfig (s : Menu) : Menu := { s.free s.itemConfig with itemConfig := none }

/-- A dialog or a launch gets a set for the selected row, unless it is `NULL`. -/
def give (s : Menu) (set : Option ℕ) : Menu :=
  { s with
    hold :=
      match rowOf s.selected, set with
      | some row, some set => some ⟨row, set, s.saves⟩
      | _, _ => s.hold }

/-- The selection changes. What is held for another row is not held any longer. -/
def select (s : Menu) (tab : Option Tab) : Menu :=
  { s with
    selected := tab
    hold := s.hold.filter fun hold => decide (rowOf tab = some hold.row) }

/-! ### Requests -/

/-- The cache is the row's. -/
def Owns (s : Menu) (row : Row) : Prop := s.itemConfigId = row.id ∧ s.itemConfigList = some row.list

instance (s : Menu) (row : Row) : Decidable (s.Owns row) := inferInstanceAs (Decidable (_ ∧ _))

/-- The section of `_menuRequestConfig`. `settled` is `guiInactiveFrames >= list->delay`. The second
result is the load to queue: whether someone waits for it. -/
def requestConfig (s : Menu) (settled : Bool) : Menu × Option Bool :=
  match rowOf s.selected with
  | none => ({ s with actionStatus := false }, none)
  | some row =>
    if ¬s.Owns row then
      let s := s.freeItemConfig
      if s.itemConfigId = -1 ∨ settled then
        ({ s with itemConfigId := row.id, itemConfigList := some row.list }, some s.actionStatus)
      else
        ({ s with actionStatus := false }, none)
    else if s.itemConfig = none ∧ s.actionStatus = true then
      (s, some s.actionStatus)
    else
      ({ s with actionStatus := false }, none)

/-- What that section does. -/
theorem requestConfig_cases (s : Menu) (settled : Bool) :
    s.requestConfig settled = ({ s with actionStatus := false }, none) ∨
      (∃ row, rowOf s.selected = some row ∧ ¬s.Owns row ∧
        (s.requestConfig settled = ({ s.freeItemConfig with actionStatus := false }, none) ∨
          s.requestConfig settled =
            ({ s.freeItemConfig with itemConfigId := row.id, itemConfigList := some row.list },
              some s.actionStatus))) ∨
      (s.itemConfig = none ∧ s.actionStatus = true ∧ s.requestConfig settled = (s, some true)) := by
  cases hrow : rowOf s.selected with
  | none =>
    refine .inl ?_
    rw [requestConfig, hrow]
  | some row =>
    by_cases howns : s.Owns row
    · by_cases hask : s.itemConfig = none ∧ s.actionStatus = true
      · refine .inr (.inr ⟨hask.1, hask.2, ?_⟩)
        rw [requestConfig, hrow]
        dsimp only
        rw [if_neg (not_not_intro howns), if_pos hask, hask.2]
      · refine .inl ?_
        rw [requestConfig, hrow]
        dsimp only
        rw [if_neg (not_not_intro howns), if_neg hask]
    · refine .inr (.inl ⟨row, rfl, howns, ?_⟩)
      rw [requestConfig, hrow]
      dsimp only
      rw [if_pos howns]
      by_cases hsettled : s.freeItemConfig.itemConfigId = -1 ∨ settled = true
      · rw [if_pos hsettled]
        exact .inr rfl
      · rw [if_neg hsettled]
        exact .inl rfl

/-- The load that `_menuRequestConfig` queues. -/
def loader (waiter : Bool) : Handler := if waiter then .loadConfig else .loadConfigAsync

/-- The section of `_menuRequestConfig` after `ioPutRequest` failed. -/
def requestFailed (s : Menu) : Menu :=
  { s with
    itemConfigId := if s.itemConfig = none then -1 else s.itemConfigId
    itemConfigList := if s.itemConfig = none then none else s.itemConfigList
    actionStatus := false }

/-- `menuGetCachedCurrentConfig` -/
def cachedCurrentConfig (s : Menu) : Option ℕ :=
  match rowOf s.selected with
  | none => none
  | some row =>
    if s.Owns row then s.itemConfig else none

/-- `menuRequestInfoSize` up to `ioPutRequest`. -/
def requestInfoSize (s : Menu) : Menu :=
  match rowOf s.selected with
  | none => s
  | some row =>
    if s.infoSizeWorkerPending = true ∧ s.infoSizeRequest = some row then
      s
    else
      { s with
        infoSizeRequest := some row
        infoSizeRequestGeneration := s.infoSizeRequestGeneration + 1
        newest := false
        answered := false
        infoSizeWorkerPending := true
        gui := if s.infoSizeWorkerPending then s.gui else .infoPutting }

/-! ### Loads -/

/-- `_menuLoadConfig` -/
def loadConfig (s : Menu) (ok : Bool) : Option Menu :=
  if s.itemConfig = none then
    s.selected.map fun tab =>
      match s.load tab.list s.itemConfigId ok with
      | (s, none) => { s with actionStatus := false }
      | (s, some set) =>
        { s.publish set with itemConfigList := some tab.list, actionStatus := false }
  else
    some { s with actionStatus := false }

/-- The first section of `_menuLoadConfigAsync`. -/
def startAsync (s : Menu) : Menu :=
  match s.selected with
  | none => { s with worker := .idle }
  | some tab =>
    if s.itemConfig = none ∧ 0 ≤ s.itemConfigId then
      { s with worker := .reading tab.list s.itemConfigId }
    else
      { s with worker := .idle }

/-- The second section of `_menuLoadConfigAsync`. -/
def publishAsync (s : Menu) (list : ℕ) (id : ℤ) : Option ℕ → Menu
  | none => { s with worker := .idle }
  | some set =>
    if s.itemConfig = none ∧ s.itemConfigId = id ∧ s.itemConfigList = some list ∧
        s.selected.map Tab.list = some list then
      { s.publish set with worker := .idle }
    else
      { s.free (some set) with worker := .idle }

/-- The section of `menuLoadConfig` before its read. -/
def launch (s : Menu) : Menu :=
  match rowOf s.selected with
  | none =>
    { s.freeItemConfig with itemConfigId := -1, itemConfigList := none, actionStatus := false }
  | some row =>
    if s.itemConfig ≠ none ∧ s.Owns row then
      { s.give s.itemConfig with actionStatus := false }
    else
      { s.freeItemConfig with
        itemConfigId := row.id
        itemConfigList := some row.list
        actionStatus := false
        gui := .launching row }

/-- `menuLoadConfig` returns what is cached for its row. -/
def giveLaunch (s : Menu) (row : Row) : Menu :=
  s.give (if s.Owns row ∧ rowOf s.selected = some row then s.itemConfig else none)

/-- The section of `menuLoadConfig` behind its read. -/
def publishLaunch (s : Menu) (row : Row) : Option ℕ → Menu
  | none => { s.giveLaunch row with gui := .idle }
  | some set =>
    if s.itemConfig = none ∧ s.Owns row then
      { (s.publish set).giveLaunch row with gui := .idle }
    else
      { (s.free (some set)).giveLaunch row with gui := .idle }

/-! ### The size of the game -/

/-- The first section of the loop of `_menuResolveInfoSize`. -/
def takeInfo (s : Menu) : Menu :=
  match s.infoSizeRequest with
  | none => { s with newest := true, worker := .completing s.infoSizeRequestGeneration }
  | some row => { s with newest := true, worker := .target row s.infoSizeRequestGeneration }

/-- `stillWanted`, which is also what a set is published for. -/
def StillWanted (s : Menu) (row : Row) (generation : UInt32) : Prop :=
  s.infoSizeRequestGeneration = generation ∧ s.infoSizeRequest = some row ∧
    rowOf s.selected = some row

instance (s : Menu) (row : Row) (generation : UInt32) : Decidable (s.StillWanted row generation) :=
  inferInstanceAs (Decidable (_ ∧ _ ∧ _))

/-- A turn of the loop that waits for the music. -/
def awaitBgm (s : Menu) (row : Row) (generation : UInt32) : Menu :=
  if s.StillWanted row generation then
    s
  else
    { s with
      answered := s.answered || s.newest && decide (rowOf s.selected ≠ some row)
      worker := .completing generation }

/-- The section that publishes. -/
def publishInfo (s : Menu) (row : Row) (generation : UInt32) : Option ℕ → Menu
  | none => { s with worker := .completing generation }
  | some set =>
    if s.StillWanted row generation then
      { s.freeItemConfig.publish set with
        itemConfigId := row.id
        itemConfigList := some row.list
        worker := .completing generation }
    else
      { s.free (some set) with worker := .completing generation }

/-- The section at `complete_request`. -/
def completeInfo (s : Menu) (generation : UInt32) : Menu :=
  if s.infoSizeRequestGeneration = generation then
    { s with infoSizeRequest := none, infoSizeWorkerPending := false, worker := .idle }
  else
    { s with worker := .start .resolveInfoSize }

/-! ### Saves -/

/-- The second section of `_menuSaveConfig`. It ends the hold of a dialog that asked for it. -/
def saveConfig (s : Menu) (save : ℕ) : Menu :=
  { s with
    itemConfigId := -1
    actionStatus := false
    hold := s.hold.filter fun hold => decide (save < hold.saves)
    worker := .idle }

/-! ### The threads -/

/-- What happens. The flag is what a thread learns: the result of `ioPutRequest`, of `itemGetConfig`
and of the comparison with the idle frames, or whether a wait goes on. -/
inductive Act
  /-- the selection changes -/
  | select (tab : Option Tab)
  /-- `menuNextH`, `menuPrevH` -/
  | changeTab (tab : Tab)
  /-- `gameMenuLoadConfig` -/
  | dialog
  /-- `menuLoadConfig` -/
  | launch
  /-- `menuRequestInfoSize` -/
  | info
  /-- `menuSaveConfig` -/
  | save
  /-- the GUI thread goes on -/
  | gui (ok : Bool)
  /-- `_menuRequestConfig` of a frame -/
  | browse (settled : Bool)
  /-- it goes on -/
  | draw (ok : Bool)
  /-- the worker takes a request -/
  | pop
  /-- the worker waits for the music -/
  | awaitBgm
  /-- the worker goes on -/
  | work (ok : Bool)
  deriving DecidableEq

/-- The GUI thread goes on. -/
def guiStep (s : Menu) (ok : Bool) : Option Menu :=
  match s.gui with
  | .idle => none
  | .asking => some { s with actionStatus := true, gui := .asked }
  | .asked =>
    some (if ok then { s with queue := s.queue ++ [.requestConfig], gui := .waiting }
      else { s with gui := .askFailed })
  | .askFailed => some { s with actionStatus := false, gui := .returning }
  | .waiting => if s.actionStatus then none else some { s with gui := .returning }
  | .returning => some { s.give s.itemConfig with gui := .idle }
  | .launching row =>
    let (s, set) := s.load row.list row.id ok
    some { s with gui := .launched row set }
  | .launched row set => some (s.publishLaunch row set)
  | .infoPutting =>
    some (if ok then { s with queue := s.queue ++ [.resolveInfoSize], gui := .idle }
      else { s with gui := .infoFailed })
  | .infoFailed =>
    some { s with
      infoSizeWorkerPending := false, infoSizeRequest := none, answered := true, gui := .idle }
  | .saving =>
    some (if ok then
        { s with
          queue := s.queue ++ [.saveConfig s.saves], saves := s.saves + 1, gui := .saveWaiting }
      else { s with gui := .saveFailed })
  | .saveFailed => some { s with actionStatus := false, gui := .idle }
  | .saveWaiting =>
    -- the wait is given up after a time
    if s.actionStatus && ok then none else some { s with actionStatus := false, gui := .idle }

/-- The GUI thread goes on in `_menuRequestConfig`. -/
def drawStep (s : Menu) (ok : Bool) : Option Menu :=
  match s.draw with
  | .idle => none
  | .putting waiter =>
    some (if ok then { s with queue := s.queue ++ [loader waiter], draw := .idle }
      else { s with draw := .failed })
  | .failed => some { s.requestFailed with draw := .idle }

/-- The first step of a handler. -/
def startStep (s : Menu) (ok : Bool) : Handler → Option Menu
  | .requestConfig =>
    match s.requestConfig ok with
    | (s, none) => some { s with worker := .idle }
    | (s, some waiter) => some { s with worker := .putting waiter }
  | .loadConfig => (s.loadConfig ok).map fun s => { s with worker := .idle }
  | .loadConfigAsync => some s.startAsync
  | .resolveInfoSize => some s.takeInfo
  | .saveConfig save => some { s with worker := .writing save }

/-- The worker goes on. -/
def workerStep (s : Menu) (ok : Bool) : Option Menu :=
  match s.worker with
  | .idle => none
  | .start h => s.startStep ok h
  | .putting waiter =>
    some (if ok then { s with queue := s.queue ++ [loader waiter], worker := .idle }
      else { s with worker := .failed })
  | .failed => some { s.requestFailed with worker := .idle }
  | .reading list id =>
    let (s, set) := s.load list id ok
    some { s with worker := .read list id set }
  | .read list id set => some (s.publishAsync list id set)
  | .target row generation =>
    let (s, set) := s.load row.list row.id ok
    some { s with answered := s.answered || s.newest, worker := .sized row generation set }
  | .sized row generation set => some (s.publishInfo row generation set)
  | .completing generation => some (s.completeInfo generation)
  | .writing save => some (s.saveConfig save)

/-- The GUI thread can start something. -/
def GuiFree (s : Menu) : Prop := s.gui = .idle ∧ s.draw = .idle

instance (s : Menu) : Decidable s.GuiFree := inferInstanceAs (Decidable (_ ∧ _))

/-- The GUI thread draws. -/
def Draws (s : Menu) : Prop :=
  (s.gui = .idle ∨ s.gui = .waiting ∨ s.gui = .saveWaiting) ∧ s.draw = .idle

instance (s : Menu) : Decidable s.Draws := inferInstanceAs (Decidable (_ ∧ _))

/-- One step. -/
def step (s : Menu) : Act → Option Menu
  | .select tab => some (s.select tab)
  | .changeTab tab =>
    if s.GuiFree then some { s.select (some tab) with itemConfigId := -1, hold := none } else none
  | .dialog =>
    if s.GuiFree then
      match s.cachedCurrentConfig with
      | some set => some (s.give (some set))
      | none => some { s with gui := .asking }
    else none
  | .launch => if s.GuiFree then some s.launch else none
  | .info => if s.GuiFree then some s.requestInfoSize else none
  | .save => if s.GuiFree then some { s with actionStatus := true, gui := .saving } else none
  | .gui ok => if s.draw = .idle then s.guiStep ok else none
  | .browse settled =>
    if s.Draws then
      match s.requestConfig settled with
      | (s, none) => some s
      | (s, some waiter) => some { s with draw := .putting waiter }
    else none
  | .draw ok => s.drawStep ok
  | .pop =>
    match s.worker, s.queue with
    | .idle, h :: queue => some { s with queue := queue, worker := .start h }
    | _, _ => none
  | .awaitBgm =>
    match s.worker with
    | .target row generation => some (s.awaitBgm row generation)
    | _ => none
  | .work ok => s.workerStep ok

end Menu

end OpenPS2Loader
