import OpenPS2Loader.Lib.Ledger
import OpenPS2Loader.Menu.Machine

/-!
# Who owns a config set

A set that was read is in the hand of the thread that read it, then in `itemConfig` or freed. That
is a ledger (`Lib.Ledger`) with the two threads for hands, `itemConfig` for the slot, and the row of
`itemConfigList` and `itemConfigId` for its owner.

What a dialog or a launch got stays in `itemConfig` under three conditions (`Menu.Ok`). The info
worker is the only one that replaces a set that is already there, so it must not publish while one
is held; a save that was given up must not be written under a later dialog, since it makes the next
request drop the set; and `gameMenuLoadConfig` must not return, by its unchecked read, the set of
another row.

## Main results

* `Menu.sound_step` — the ledger stays balanced
* `Menu.kept_step` — what is held stays cached
* `Menu.owned_of_runOk`
-/

namespace OpenPS2Loader

namespace Menu

/-! ### The ledger -/

/-- The threads that read sets. -/
inductive Thread
  | gui
  | worker
  deriving DecidableEq

/-- The set in the hand of the GUI thread, and what it was read for. -/
def Gui.hand : Gui → Option (ℕ × Option ℕ × ℤ)
  | .launched row (some set) => some (set, some row.list, row.id)
  | _ => none

/-- The set in the hand of the worker, and what it was read for. -/
def Worker.hand : Worker → Option (ℕ × Option ℕ × ℤ)
  | .read list id (some set) => some (set, some list, id)
  | .sized row _ (some set) => some (set, some row.list, row.id)
  | _ => none

/-- The hands of both. -/
def hands (g w : Option (ℕ × Option ℕ × ℤ)) : Thread → Option (ℕ × Option ℕ × ℤ)
  | .gui => g
  | .worker => w

theorem update_hands_gui (g w x : Option (ℕ × Option ℕ × ℤ)) :
    Function.update (hands g w) .gui x = hands x w := by
  funext i
  cases i with
  | gui => exact Function.update_self _ _ _
  | worker => exact Function.update_of_ne (by decide) _ _

theorem update_hands_worker (g w x : Option (ℕ × Option ℕ × ℤ)) :
    Function.update (hands g w) .worker x = hands g x := by
  funext i
  cases i with
  | gui => exact Function.update_of_ne (by decide) _ _
  | worker => exact Function.update_self _ _ _

/-- The row the cache is said to be for. A negative index says nothing. -/
def owner (id : ℤ) (list : Option ℕ) : Option (Option ℕ × ℤ) :=
  if 0 ≤ id then some (list, id) else none

theorem eq_of_owner_eq_some {id : ℤ} {list : Option ℕ} {u : Option ℕ × ℤ}
    (h : owner id list = some u) : u = (list, id) := by
  rw [owner] at h
  split at h
  next => exact (Option.some.inj h).symm
  next => cases h

/-- What a set was read for. -/
def tag (origin : ℕ → ℕ × ℤ) (set : ℕ) : Option ℕ × ℤ := (some (origin set).1, (origin set).2)

theorem tag_update (origin : ℕ → ℕ × ℤ) (n list : ℕ) (id : ℤ) :
    tag (Function.update origin n (list, id)) = Function.update (tag origin) n (some list, id) := by
  funext m
  rw [tag, Function.update_apply, Function.update_apply]
  split
  next => rfl
  next => rfl

/-- The sets, with these hands. -/
def ledger (s : Menu) (g w : Option (ℕ × Option ℕ × ℤ)) : Ledger Thread (Option ℕ × ℤ) :=
  ⟨s.sets, tag s.origin, hands g w, s.itemConfig, owner s.itemConfigId s.itemConfigList,
    s.published, s.freed⟩

/-- Every set is where it belongs. -/
def Sound (s : Menu) : Prop := (s.ledger s.gui.hand s.worker.hand).Balanced

section Ledger

variable {s : Menu} {g w : Option (ℕ × Option ℕ × ℤ)} {n list : ℕ} {id : ℤ}

theorem balanced_load_gui (h : (s.ledger none w).Balanced) (list : ℕ) (id : ℤ) :
    ((s.load list id true).1.ledger (some (s.sets, some list, id)) w).Balanced := by
  have hmake := h.make (i := Thread.gui) rfl (some list, id)
  rw [Ledger.make, ledger, update_hands_gui, ← tag_update] at hmake
  exact hmake

theorem balanced_load_worker (h : (s.ledger g none).Balanced) (list : ℕ) (id : ℤ) :
    ((s.load list id true).1.ledger g (some (s.sets, some list, id))).Balanced := by
  have hmake := h.make (i := Thread.worker) rfl (some list, id)
  rw [Ledger.make, ledger, update_hands_worker, ← tag_update] at hmake
  exact hmake

theorem balanced_publish_gui (h : (s.ledger (some (n, some list, id)) w).Balanced)
    (hnone : s.itemConfig = none) :
    ({ s.publish n with
      itemConfigId := id, itemConfigList := some list }.ledger none w).Balanced := by
  have hpub := h.publish (i := Thread.gui) rfl hnone fun u hu => eq_of_owner_eq_some hu
  rw [Ledger.publish, ledger, update_hands_gui] at hpub
  exact hpub

theorem balanced_publish_worker (h : (s.ledger g (some (n, some list, id))).Balanced)
    (hnone : s.itemConfig = none) :
    ({ s.publish n with
      itemConfigId := id, itemConfigList := some list }.ledger g none).Balanced := by
  have hpub := h.publish (i := Thread.worker) rfl hnone fun u hu => eq_of_owner_eq_some hu
  rw [Ledger.publish, ledger, update_hands_worker] at hpub
  exact hpub

theorem balanced_free_gui (h : (s.ledger (some (n, some list, id)) w).Balanced) :
    ((s.free (some n)).ledger none w).Balanced := by
  have hdrop := h.drop (i := Thread.gui) rfl
  rw [Ledger.drop, ledger, update_hands_gui] at hdrop
  exact hdrop

theorem balanced_free_worker (h : (s.ledger g (some (n, some list, id))).Balanced) :
    ((s.free (some n)).ledger g none).Balanced := by
  have hdrop := h.drop (i := Thread.worker) rfl
  rw [Ledger.drop, ledger, update_hands_worker] at hdrop
  exact hdrop

/-- The slot is emptied, and may be for another row from then on. -/
theorem balanced_freeItemConfig (h : (s.ledger g w).Balanced) (id : ℤ) (list : Option ℕ) :
    ({ s.freeItemConfig with itemConfigId := id, itemConfigList := list }.ledger g w).Balanced := by
  exact h.clear (owner id list)

/-- The section of `_menuRequestConfig`, which leaves the threads where they are. -/
theorem balanced_requestConfig {s' : Menu} {settled : Bool} {r : Option Bool}
    (h : (s.ledger g w).Balanced) (hreq : s.requestConfig settled = (s', r)) :
    (s'.ledger g w).Balanced ∧ s'.gui = s.gui ∧ s'.worker = s.worker := by
  obtain hsame | ⟨row, -, -, hfree | hload⟩ | ⟨-, -, hask⟩ := requestConfig_cases s settled
  · rw [hsame] at hreq
    cases hreq
    exact ⟨h, rfl, rfl⟩
  · rw [hfree] at hreq
    cases hreq
    exact ⟨balanced_freeItemConfig h s.itemConfigId s.itemConfigList, rfl, rfl⟩
  · rw [hload] at hreq
    cases hreq
    exact ⟨balanced_freeItemConfig h row.id (some row.list), rfl, rfl⟩
  · rw [hask] at hreq
    cases hreq
    exact ⟨h, rfl, rfl⟩

theorem balanced_requestFailed (h : (s.ledger g w).Balanced) :
    (s.requestFailed.ledger g w).Balanced := by
  by_cases hnone : s.itemConfig = none
  · exact h.own (.inl hnone)
  · have hsame : s.requestFailed = { s with actionStatus := false } := by
      rw [requestFailed, if_neg hnone, if_neg hnone]
    rw [hsame]
    exact h

end Ledger

/-! ### The steps -/

section Steps

variable {s t : Menu}

theorem Sound.launch (h : s.Sound) (hgui : s.gui = .idle) : s.launch.Sound := by
  rw [Menu.launch]
  split
  next => exact balanced_freeItemConfig h (-1) none
  next row _ =>
    split
    next => exact h
    next =>
      rw [Sound, hgui] at h
      exact balanced_freeItemConfig h row.id (some row.list)

theorem Sound.requestInfoSize (h : s.Sound) (hgui : s.gui = .idle) : s.requestInfoSize.Sound := by
  rw [Menu.requestInfoSize]
  split
  next => exact h
  next =>
    split
    next => exact h
    next =>
      rw [Sound, hgui] at h
      rw [hgui]
      cases s.infoSizeWorkerPending with
      | true => exact h
      | false => exact h

theorem Sound.publishLaunch {row : Row} {set : Option ℕ} (h : s.Sound)
    (hgui : s.gui = .launched row set) : (s.publishLaunch row set).Sound := by
  rw [Sound, hgui] at h
  cases set with
  | none => exact h
  | some n =>
    rw [Menu.publishLaunch]
    split
    next hcond =>
      obtain ⟨hnone, hid, hlist⟩ := hcond
      have hpub := balanced_publish_gui h hnone
      rw [← hid, ← hlist] at hpub
      exact hpub
    next => exact balanced_free_gui h

theorem Sound.guiStep {ok : Bool} (h : s.Sound) (hstep : s.guiStep ok = some t) : t.Sound := by
  rw [Menu.guiStep] at hstep
  rw [Sound] at h
  generalize hgui : s.gui = g at h hstep
  cases g with
  | idle => cases hstep
  | asking =>
    cases hstep
    exact h
  | asked =>
    cases ok with
    | true =>
      cases hstep
      exact h
    | false =>
      cases hstep
      exact h
  | askFailed =>
    cases hstep
    exact h
  | waiting =>
    dsimp only at hstep
    split at hstep
    next => cases hstep
    next =>
      cases hstep
      exact h
  | returning =>
    cases hstep
    exact h
  | launching row =>
    cases ok with
    | true =>
      cases hstep
      exact balanced_load_gui h row.list row.id
    | false =>
      cases hstep
      exact h
  | launched row set =>
    cases hstep
    refine Sound.publishLaunch ?_ hgui
    rwa [Sound, hgui]
  | infoPutting =>
    cases ok with
    | true =>
      cases hstep
      exact h
    | false =>
      cases hstep
      exact h
  | infoFailed =>
    cases hstep
    exact h
  | saving =>
    cases ok with
    | true =>
      cases hstep
      exact h
    | false =>
      cases hstep
      exact h
  | saveFailed =>
    cases hstep
    exact h
  | saveWaiting =>
    dsimp only at hstep
    split at hstep
    next => cases hstep
    next =>
      cases hstep
      exact h

theorem Sound.drawStep {ok : Bool} (h : s.Sound) (hstep : s.drawStep ok = some t) : t.Sound := by
  rw [Menu.drawStep] at hstep
  cases hdraw : s.draw with
  | idle =>
    rw [hdraw] at hstep
    cases hstep
  | putting waiter =>
    rw [hdraw] at hstep
    cases ok with
    | true =>
      cases hstep
      exact h
    | false =>
      cases hstep
      exact h
  | failed =>
    rw [hdraw] at hstep
    cases hstep
    exact balanced_requestFailed h

theorem Sound.loadConfig {ok : Bool} (h : s.Sound) (hworker : s.worker = .start .loadConfig)
    (hload : s.loadConfig ok = some t) : { t with worker := .idle }.Sound := by
  rw [Sound, hworker] at h
  rw [Menu.loadConfig] at hload
  split at hload
  next hnone =>
    obtain ⟨tab, -, rfl⟩ := Option.map_eq_some_iff.mp hload
    cases ok with
    | false => exact h
    | true =>
      have hmake := balanced_load_worker h tab.list s.itemConfigId
      exact balanced_publish_worker hmake hnone
  next =>
    cases hload
    exact h

theorem Sound.publishAsync {list : ℕ} {id : ℤ} {set : Option ℕ} (h : s.Sound)
    (hworker : s.worker = .read list id set) : (s.publishAsync list id set).Sound := by
  rw [Sound, hworker] at h
  cases set with
  | none => exact h
  | some n =>
    rw [Menu.publishAsync]
    split
    next hcond =>
      obtain ⟨hnone, hid, hlist, -⟩ := hcond
      have hpub := balanced_publish_worker h hnone
      rw [← hid, ← hlist] at hpub
      exact hpub
    next => exact balanced_free_worker h

theorem Sound.publishInfo {row : Row} {generation : UInt32} {set : Option ℕ} (h : s.Sound)
    (hworker : s.worker = .sized row generation set) :
    (s.publishInfo row generation set).Sound := by
  rw [Sound, hworker] at h
  cases set with
  | none => exact h
  | some n =>
    rw [Menu.publishInfo]
    split
    next =>
      have hfree := balanced_freeItemConfig h s.itemConfigId s.itemConfigList
      exact balanced_publish_worker hfree rfl
    next => exact balanced_free_worker h

theorem Sound.startStep {ok : Bool} {handler : Handler} (h : s.Sound)
    (hworker : s.worker = .start handler) (hstep : s.startStep ok handler = some t) : t.Sound := by
  have hsame := h
  rw [Sound, hworker] at hsame
  cases handler with
  | requestConfig =>
    rw [Menu.startStep] at hstep
    split at hstep
    next s' hreq =>
      cases hstep
      obtain ⟨hbal, hgui, -⟩ := balanced_requestConfig hsame hreq
      rw [Sound]
      dsimp only
      rw [hgui]
      exact hbal
    next s' waiter hreq =>
      cases hstep
      obtain ⟨hbal, hgui, -⟩ := balanced_requestConfig hsame hreq
      rw [Sound]
      dsimp only
      rw [hgui]
      exact hbal
  | loadConfig =>
    obtain ⟨s', hload, rfl⟩ := Option.map_eq_some_iff.mp hstep
    exact h.loadConfig hworker hload
  | loadConfigAsync =>
    cases hstep
    rw [startAsync]
    split
    next => exact hsame
    next =>
      split
      next => exact hsame
      next => exact hsame
  | resolveInfoSize =>
    cases hstep
    rw [takeInfo]
    split
    next => exact hsame
    next => exact hsame
  | saveConfig save =>
    cases hstep
    exact hsame

theorem Sound.workerStep {ok : Bool} (h : s.Sound) (hstep : s.workerStep ok = some t) :
    t.Sound := by
  have hsame := h
  rw [Menu.workerStep] at hstep
  rw [Sound] at hsame
  generalize hworker : s.worker = w at hsame hstep
  cases w with
  | idle => cases hstep
  | start handler => exact h.startStep hworker hstep
  | putting waiter =>
    cases ok with
    | true =>
      cases hstep
      exact hsame
    | false =>
      cases hstep
      exact hsame
  | failed =>
    cases hstep
    exact balanced_requestFailed hsame
  | reading list id =>
    cases ok with
    | true =>
      cases hstep
      exact balanced_load_worker hsame list id
    | false =>
      cases hstep
      exact hsame
  | read list id set =>
    cases hstep
    exact h.publishAsync hworker
  | target row generation =>
    cases ok with
    | true =>
      cases hstep
      exact balanced_load_worker hsame row.list row.id
    | false =>
      cases hstep
      exact hsame
  | sized row generation set =>
    cases hstep
    exact h.publishInfo hworker
  | completing generation =>
    cases hstep
    rw [completeInfo]
    split
    next => exact hsame
    next => exact hsame
  | writing save =>
    cases hstep
    exact Ledger.Balanced.own hsame (.inr rfl)

/-- **The ledger stays balanced.** -/
theorem sound_step {a : Act} (h : s.Sound) (hstep : s.step a = some t) : t.Sound := by
  cases a with
  | select tab =>
    cases hstep
    exact h
  | changeTab tab =>
    obtain ⟨-, hstep⟩ := Option.ite_none_right_eq_some.mp hstep
    cases hstep
    exact Ledger.Balanced.own h (.inr rfl)
  | dialog =>
    obtain ⟨hfree, hstep⟩ := Option.ite_none_right_eq_some.mp hstep
    split at hstep
    next =>
      cases hstep
      exact h
    next =>
      cases hstep
      rw [Sound, hfree.1] at h
      exact h
  | launch =>
    obtain ⟨hfree, hstep⟩ := Option.ite_none_right_eq_some.mp hstep
    cases hstep
    exact h.launch hfree.1
  | info =>
    obtain ⟨hfree, hstep⟩ := Option.ite_none_right_eq_some.mp hstep
    cases hstep
    exact h.requestInfoSize hfree.1
  | save =>
    obtain ⟨hfree, hstep⟩ := Option.ite_none_right_eq_some.mp hstep
    cases hstep
    rw [Sound, hfree.1] at h
    exact h
  | gui ok =>
    obtain ⟨-, hstep⟩ := Option.ite_none_right_eq_some.mp hstep
    exact h.guiStep hstep
  | browse settled =>
    obtain ⟨-, hstep⟩ := Option.ite_none_right_eq_some.mp hstep
    split at hstep
    next s' hreq =>
      cases hstep
      obtain ⟨hbal, hgui, hworker⟩ := balanced_requestConfig h hreq
      rw [Sound, hgui, hworker]
      exact hbal
    next s' waiter hreq =>
      cases hstep
      obtain ⟨hbal, hgui, hworker⟩ := balanced_requestConfig h hreq
      rw [Sound]
      dsimp only
      rw [hgui, hworker]
      exact hbal
  | draw ok => exact h.drawStep hstep
  | pop =>
    rw [step] at hstep
    split at hstep
    next hworker _ =>
      cases hstep
      rw [Sound, hworker] at h
      exact h
    next => cases hstep
  | awaitBgm =>
    rw [step] at hstep
    split at hstep
    next row generation hworker =>
      cases hstep
      rw [awaitBgm]
      split
      next => exact h
      next =>
        rw [Sound, hworker] at h
        exact h
    next => cases hstep
  | work ok => exact h.workerStep hstep

/-! ### What is held -/

/-- What a dialog or a launch got is cached, and the cache is its row's. -/
def Kept (s : Menu) : Prop :=
  ∀ hold, s.hold = some hold →
    rowOf s.selected = some hold.row ∧ s.itemConfig = some hold.set ∧ s.Owns hold.row

/-- What must not happen to a set that is held: the info worker does not publish, a save from
before is not written, and a dialog does not get the set of another row. -/
def Ok (s : Menu) : Act → Prop
  | .work _ =>
    match s.worker with
    | .sized row generation (some _) => s.StillWanted row generation → s.hold = none
    | .writing save => ∀ hold, s.hold = some hold → hold.saves ≤ save
    | _ => True
  | .gui _ =>
    s.gui = .returning → ∀ row, rowOf s.selected = some row → s.itemConfig ≠ none → s.Owns row
  | _ => True

theorem kept_of_none (h : s.hold = none) : s.Kept := by
  intro hold hhold
  rw [h] at hhold
  cases hhold

/-- Nothing is held when nothing is cached, -/
theorem Kept.hold_of_none (h : s.Kept) (hnone : s.itemConfig = none) : s.hold = none := by
  cases hhold : s.hold with
  | none => rfl
  | some hold =>
    rw [(h hold hhold).2.1] at hnone
    cases hnone

/-- nor when the cache is not the selected row's. -/
theorem Kept.hold_of_not_owns (h : s.Kept)
    (howns : ∀ row, rowOf s.selected = some row → ¬s.Owns row) :
    s.hold = none := by
  cases hhold : s.hold with
  | none => rfl
  | some hold =>
    obtain ⟨hrow, -, hown⟩ := h hold hhold
    exact absurd hown (howns _ hrow)

theorem Kept.give {set : Option ℕ} (h : s.Kept)
    (hset : ∀ row n, rowOf s.selected = some row → set = some n → s.itemConfig = set ∧ s.Owns row) :
    (s.give set).Kept := by
  intro hold hhold
  unfold Menu.give at hhold
  dsimp only at hhold
  split at hhold
  next row n hrow =>
    cases hhold
    obtain ⟨hcfg, howns⟩ := hset row n hrow rfl
    exact ⟨hrow, hcfg, howns⟩
  next => exact h hold hhold

theorem Kept.giveLaunch (h : s.Kept) (row : Row) : (s.giveLaunch row).Kept := by
  refine h.give fun row' n hrow hset => ?_
  split at hset
  next hcond =>
    rw [if_pos hcond]
    rw [hcond.2] at hrow
    cases hrow
    exact ⟨rfl, hcond.1⟩
  next => cases hset

theorem Kept.requestConfig {s' : Menu} {settled : Bool} {r : Option Bool} (h : s.Kept)
    (hreq : s.requestConfig settled = (s', r)) : s'.Kept := by
  obtain hsame | ⟨row, hrow, howns, hcase⟩ | ⟨-, -, hask⟩ := requestConfig_cases s settled
  · rw [hsame] at hreq
    cases hreq
    exact h
  · have hnone : s.hold = none := by
      refine h.hold_of_not_owns fun row' hrow' => ?_
      rw [hrow] at hrow'
      cases hrow'
      exact howns
    obtain hfree | hload := hcase
    · rw [hfree] at hreq
      cases hreq
      exact kept_of_none hnone
    · rw [hload] at hreq
      cases hreq
      exact kept_of_none hnone
  · rw [hask] at hreq
    cases hreq
    exact h

theorem Kept.requestFailed (h : s.Kept) : s.requestFailed.Kept := by
  by_cases hnone : s.itemConfig = none
  · exact kept_of_none (h.hold_of_none hnone)
  · have hsame : s.requestFailed = { s with actionStatus := false } := by
      rw [Menu.requestFailed, if_neg hnone, if_neg hnone]
    rw [hsame]
    exact h

theorem Kept.launch (h : s.Kept) : s.launch.Kept := by
  rw [Menu.launch]
  split
  next hrow =>
    have hnone : s.hold = none := by
      refine h.hold_of_not_owns fun row hrow' => ?_
      rw [hrow] at hrow'
      cases hrow'
    exact kept_of_none hnone
  next row hrow =>
    split
    next hcond =>
      refine Kept.give h fun row' n hrow' _ => ⟨rfl, ?_⟩
      rw [hrow] at hrow'
      cases hrow'
      exact hcond.2
    next hcond =>
      have hnone : s.hold = none := by
        by_cases hcfg : s.itemConfig = none
        · exact h.hold_of_none hcfg
        · refine h.hold_of_not_owns fun row' hrow' howns => ?_
          rw [hrow] at hrow'
          cases hrow'
          exact hcond ⟨hcfg, howns⟩
      exact kept_of_none hnone

theorem Kept.publishLaunch (h : s.Kept) (row : Row) (set : Option ℕ) :
    (s.publishLaunch row set).Kept := by
  cases set with
  | none => exact h.giveLaunch row
  | some n =>
    rw [Menu.publishLaunch]
    split
    next hcond =>
      have hpub : (s.publish n).Kept := kept_of_none (h.hold_of_none hcond.1)
      exact hpub.giveLaunch row
    next =>
      have hfree : (s.free (some n)).Kept := h
      exact hfree.giveLaunch row

theorem Kept.guiStep {ok : Bool} (h : s.Kept) (hok : s.Ok (.gui ok))
    (hstep : s.guiStep ok = some t) : t.Kept := by
  rw [Menu.guiStep] at hstep
  split at hstep
  next => cases hstep
  next =>
    cases hstep
    exact h
  next =>
    cases ok <;> (cases hstep; exact h)
  next =>
    cases hstep
    exact h
  next =>
    obtain ⟨-, hstep⟩ := Option.ite_none_left_eq_some.mp hstep
    cases hstep
    exact h
  next hgui =>
    cases hstep
    refine Kept.give h fun row n hrow hset => ⟨rfl, hok hgui row hrow ?_⟩
    rw [hset]
    exact Option.some_ne_none n
  next =>
    cases ok <;> (cases hstep; exact h)
  next row set _ =>
    cases hstep
    exact h.publishLaunch row set
  next =>
    cases ok <;> (cases hstep; exact h)
  next =>
    cases hstep
    exact h
  next =>
    cases ok <;> (cases hstep; exact h)
  next =>
    cases hstep
    exact h
  next =>
    obtain ⟨-, hstep⟩ := Option.ite_none_left_eq_some.mp hstep
    cases hstep
    exact h

theorem Kept.drawStep {ok : Bool} (h : s.Kept) (hstep : s.drawStep ok = some t) : t.Kept := by
  rw [Menu.drawStep] at hstep
  split at hstep
  next => cases hstep
  next =>
    cases ok <;> (cases hstep; exact h)
  next =>
    cases hstep
    exact h.requestFailed

theorem Kept.startStep {ok : Bool} {handler : Handler} (h : s.Kept)
    (hstep : s.startStep ok handler = some t) : t.Kept := by
  cases handler with
  | requestConfig =>
    rw [Menu.startStep] at hstep
    split at hstep
    next hreq =>
      cases hstep
      have hkept := h.requestConfig hreq
      exact hkept
    next hreq =>
      cases hstep
      have hkept := h.requestConfig hreq
      exact hkept
  | loadConfig =>
    obtain ⟨s', hload, rfl⟩ := Option.map_eq_some_iff.mp hstep
    rw [Menu.loadConfig] at hload
    split at hload
    next hnone =>
      obtain ⟨tab, -, rfl⟩ := Option.map_eq_some_iff.mp hload
      have hhold := h.hold_of_none hnone
      cases ok <;> exact kept_of_none hhold
    next =>
      cases hload
      exact h
  | loadConfigAsync =>
    cases hstep
    rw [startAsync]
    split
    next => exact h
    next => split <;> exact h
  | resolveInfoSize =>
    cases hstep
    rw [takeInfo]
    split <;> exact h
  | saveConfig save =>
    cases hstep
    exact h

theorem Kept.workerStep {ok : Bool} (h : s.Kept) (hok : s.Ok (.work ok))
    (hstep : s.workerStep ok = some t) : t.Kept := by
  rw [Menu.workerStep] at hstep
  cases hworker : s.worker with
  | idle =>
    rw [hworker] at hstep
    cases hstep
  | start handler =>
    rw [hworker] at hstep
    exact h.startStep hstep
  | putting waiter =>
    rw [hworker] at hstep
    cases ok <;> (cases hstep; exact h)
  | failed =>
    rw [hworker] at hstep
    cases hstep
    exact h.requestFailed
  | reading list id =>
    rw [hworker] at hstep
    cases ok <;> (cases hstep; exact h)
  | read list id set =>
    rw [hworker] at hstep
    cases hstep
    cases set with
    | none => exact h
    | some n =>
      rw [publishAsync]
      split
      next hcond => exact kept_of_none (h.hold_of_none hcond.1)
      next => exact h
  | target row generation =>
    rw [hworker] at hstep
    cases ok <;> (cases hstep; exact h)
  | sized row generation set =>
    rw [Ok, hworker] at hok
    rw [hworker] at hstep
    cases hstep
    cases set with
    | none => exact h
    | some n =>
      rw [publishInfo]
      split
      next hwanted => exact kept_of_none (hok hwanted)
      next => exact h
  | completing generation =>
    rw [hworker] at hstep
    cases hstep
    rw [completeInfo]
    split <;> exact h
  | writing save =>
    rw [Ok, hworker] at hok
    rw [hworker] at hstep
    cases hstep
    -- a save that the dialog asked for ends the hold
    intro hold hhold
    obtain ⟨hhold, hlate⟩ := Option.filter_eq_some_iff.mp hhold
    have hle := hok hold hhold
    have hlt := of_decide_eq_true hlate
    exact absurd hlt (Nat.not_lt.mpr hle)

/-- **What is held stays cached.** -/
theorem kept_step {a : Act} (h : s.Kept) (hok : s.Ok a) (hstep : s.step a = some t) : t.Kept := by
  cases a with
  | select tab =>
    cases hstep
    intro hold hhold
    obtain ⟨hhold, hrow⟩ := Option.filter_eq_some_iff.mp hhold
    exact ⟨of_decide_eq_true hrow, (h hold hhold).2⟩
  | changeTab tab =>
    obtain ⟨-, hstep⟩ := Option.ite_none_right_eq_some.mp hstep
    cases hstep
    exact kept_of_none rfl
  | dialog =>
    obtain ⟨-, hstep⟩ := Option.ite_none_right_eq_some.mp hstep
    split at hstep
    next set hset =>
      cases hstep
      refine h.give fun row n hrow _ => ?_
      rw [cachedCurrentConfig, hrow] at hset
      dsimp only at hset
      split at hset
      next howns => exact ⟨hset, howns⟩
      next => cases hset
    next =>
      cases hstep
      exact h
  | launch =>
    obtain ⟨-, hstep⟩ := Option.ite_none_right_eq_some.mp hstep
    cases hstep
    exact h.launch
  | info =>
    obtain ⟨-, hstep⟩ := Option.ite_none_right_eq_some.mp hstep
    cases hstep
    rw [requestInfoSize]
    split
    next => exact h
    next => split <;> exact h
  | save =>
    obtain ⟨-, hstep⟩ := Option.ite_none_right_eq_some.mp hstep
    cases hstep
    exact h
  | gui ok =>
    obtain ⟨-, hstep⟩ := Option.ite_none_right_eq_some.mp hstep
    exact h.guiStep hok hstep
  | browse settled =>
    obtain ⟨-, hstep⟩ := Option.ite_none_right_eq_some.mp hstep
    split at hstep
    next hreq =>
      cases hstep
      have hkept := h.requestConfig hreq
      exact hkept
    next hreq =>
      cases hstep
      have hkept := h.requestConfig hreq
      exact hkept
  | draw ok => exact h.drawStep hstep
  | pop =>
    rw [step] at hstep
    split at hstep
    next =>
      cases hstep
      exact h
    next => cases hstep
  | awaitBgm =>
    rw [step] at hstep
    split at hstep
    next =>
      cases hstep
      rw [awaitBgm]
      split <;> exact h
    next => cases hstep
  | work ok => exact h.workerStep hok hstep

end Steps

/-! ### Whole runs -/

/-- A set that was read and neither published nor freed yet. -/
def InHand (s : Menu) (set : ℕ) : Prop :=
  ∃ t, s.gui.hand = some (set, t) ∨ s.worker.hand = some (set, t)

/-- What the menu owes to the sets. -/
structure Owned (s : Menu) : Prop where
  /-- what is cached for a row was read for it -/
  cache : ∀ set, s.itemConfig = some set → 0 ≤ s.itemConfigId →
    s.itemConfigList = some (s.origin set).1 ∧ s.itemConfigId = (s.origin set).2
  /-- `menuGetCachedCurrentConfig` returns the config of the selected row -/
  current : ∀ set, s.cachedCurrentConfig = some set →
    ∃ row, rowOf s.selected = some row ∧ s.origin set = (row.list, (row.id : ℤ))
  /-- a set in a hand is neither published nor freed -/
  inHand : ∀ set, s.InHand set → s.published set = 0 ∧ s.freed set = 0
  /-- the set that is cached is published and not freed -/
  cached : ∀ set, s.itemConfig = some set → s.published set = 1 ∧ s.freed set = 0
  /-- every other set that was read is freed, and was published at most once -/
  gone : ∀ set < s.sets, ¬s.InHand set → s.itemConfig ≠ some set →
    s.freed set = 1 ∧ s.published set ≤ 1
  /-- what a dialog or a launch got is still cached -/
  held : ∀ hold, s.hold = some hold → s.itemConfig = some hold.set

theorem sound_init : init.Sound where
  new _ _ := ⟨rfl, rfl⟩
  hand i n t h := by cases i <;> cases h
  apart i j n t u h := by cases i <;> cases h
  slot n h := by cases h
  owner n t h := by cases h
  gone n h := absurd h (Nat.not_lt_zero n)

theorem Sound.cache {s : Menu} (h : s.Sound) {set : ℕ} (hset : s.itemConfig = some set)
    (hid : 0 ≤ s.itemConfigId) :
    s.itemConfigList = some (s.origin set).1 ∧ s.itemConfigId = (s.origin set).2 := by
  have htag := h.owner set (s.itemConfigList, s.itemConfigId) hset (if_pos hid)
  exact ⟨(Prod.mk.inj htag).1.symm, (Prod.mk.inj htag).2.symm⟩

theorem Sound.inHand {s : Menu} (h : s.Sound) {set : ℕ} (hset : s.InHand set) :
    s.published set = 0 ∧ s.freed set = 0 := by
  obtain ⟨t, hgui | hworker⟩ := hset
  · exact (h.hand .gui set t hgui).2.2
  · exact (h.hand .worker set t hworker).2.2

theorem owned_of_sound {s : Menu} (h : s.Sound) (hkept : s.Kept) : s.Owned where
  cache _ := h.cache
  current set hset := by
    rw [cachedCurrentConfig] at hset
    split at hset
    next => cases hset
    next row hrow =>
      split at hset
      next howns =>
        obtain ⟨hid, hlist⟩ := howns
        have hnonneg : 0 ≤ s.itemConfigId := by
          rw [hid]
          exact Int.natCast_nonneg row.id
        obtain ⟨hlist', hid'⟩ := h.cache hset hnonneg
        rw [hlist] at hlist'
        rw [hid] at hid'
        exact ⟨row, hrow, Prod.ext (Option.some.inj hlist').symm hid'.symm⟩
      next => cases hset
  inHand _ := h.inHand
  cached set hset := (h.slot set hset).2
  gone set hlt hhand hcfg := by
    refine h.gone set hlt (fun i t hi => hhand ⟨t, ?_⟩) hcfg
    cases i with
    | gui => exact .inl hi
    | worker => exact .inr hi
  held hold hhold := (hkept hold hhold).2.1

/-- **Who owns a config set.** Along every run whose steps are `Ok`. -/
theorem owned_of_runOk {acts : List Act} {s : Menu} (hok : Transition.RunOk step Ok init acts)
    (hrun : Transition.run step init acts = some s) : s.Owned := by
  have hinv : s.Sound ∧ s.Kept := by
    refine Transition.run_invariant_of_runOk (P := fun s => s.Sound ∧ s.Kept)
      (fun s a t h hok hstep => ?_) ⟨sound_init, kept_of_none rfl⟩ hok hrun
    exact ⟨sound_step h.1 hstep, kept_step h.2 hok hstep⟩
  exact owned_of_sound hinv.1 hinv.2

/-- The row settles and its config is read; the info screen is opened, and a dialog after it. -/
def infoThenDialog : List Act :=
  [.select (some ⟨0, some 5⟩), .browse true, .draw true, .pop, .work true, .work true, .work true,
    .info, .gui true, .pop, .work true, .work true, .dialog]

theorem owned_infoThenDialog :
    (Transition.run step init infoThenDialog).map hold = some (some ⟨⟨0, 5⟩, 0, 0⟩) ∧
      ∀ s, Transition.run step init infoThenDialog = some s → s.Owned := by
  refine ⟨by decide, fun s hs => owned_of_runOk ?_ hs⟩
  exact ⟨trivial, trivial, trivial, trivial, trivial, trivial, trivial, trivial, nofun, trivial,
    trivial, trivial, trivial, trivial⟩

/-- The info worker replaces the set that the dialog has. -/
theorem not_owned_infoThenDialog :
    ¬∀ acts s, Transition.run step init acts = some s → s.Owned := by
  intro h
  have hrun : (Transition.run step init (infoThenDialog ++ [.work true])).map
      (fun s => (s.hold, s.itemConfig)) = some (some ⟨⟨0, 5⟩, 0, 0⟩, some 1) := by decide
  obtain ⟨s, hs, heq⟩ := Option.map_eq_some_iff.mp hrun
  obtain ⟨hhold, hcfg⟩ := Prod.mk.inj heq
  have hheld := (h _ s hs).held _ hhold
  rw [hcfg] at hheld
  exact absurd hheld (by decide)

end Menu

end OpenPS2Loader
