import OpenPS2Loader.Menu.Machine

/-!
# Nobody waits for nothing

`gameMenuLoadConfig` and `menuSaveConfig` set `actionStatus` and wait until it is cleared, so there
must be someone who clears it: a handler in the queue or at work, or the thread itself that has not
queued its request yet. The comment above `_menuRequestConfig` asks that of every path through it.

`_menuResolveInfoSize` has a latch of the same kind. The target it works for can be replaced while
it runs, and it knows by a generation of 32 bits whether that happened. When the generation comes
round during one read, the worker takes the last target for its own and clears it unread
(`Menu.NoWrap` excludes that).

## Main results

* `Menu.waits_step` — somebody clears `actionStatus`
* `Menu.latched_step` — the latch, and the targets of the info worker
* `Menu.completes_of_runOk`
-/

namespace OpenPS2Loader

namespace Menu

/-! ### Who clears `actionStatus` -/

/-- The handlers that clear `actionStatus`, or queue one that does. -/
def Handler.clears : Handler → Bool
  | .requestConfig => true
  | .loadConfig => true
  | .loadConfigAsync => false
  | .resolveInfoSize => false
  | .saveConfig _ => true

/-- The GUI thread is about to queue one, or to clear it by itself. -/
def Gui.clears : Gui → Bool
  | .asked => true
  | .askFailed => true
  | .saving => true
  | .saveFailed => true
  | _ => false

/-- The same in `_menuRequestConfig`. -/
def Draw.clears : Draw → Bool
  | .idle => false
  | .putting waiter => waiter
  | .failed => true

/-- The worker is in one. -/
def Worker.clears : Worker → Bool
  | .start h => h.clears
  | .putting waiter => waiter
  | .failed => true
  | .writing _ => true
  | _ => false

/-- Somebody will clear `actionStatus`. -/
def Awaited (s : Menu) : Prop :=
  s.gui.clears = true ∨ s.draw.clears = true ∨ s.worker.clears = true ∨
    ∃ h ∈ s.queue, h.clears = true

/-- `actionStatus` is set only if somebody will clear it. -/
def Waits (s : Menu) : Prop := s.actionStatus = true → s.Awaited

section Waits

variable {s t : Menu}

theorem waits_of_clear (h : s.actionStatus = false) : s.Waits := by
  intro hact
  rw [h] at hact
  cases hact

theorem awaited_of_mem {h : Handler} (hmem : h ∈ s.queue) (hclears : h.clears = true) : s.Awaited :=
  .inr (.inr (.inr ⟨h, hmem, hclears⟩))

/-- A step of the GUI thread that has nothing to do with it, -/
theorem Waits.of_gui (h : s.Waits) (hgui : s.gui.clears = false)
    (hstatus : t.actionStatus = s.actionStatus) (hdraw : t.draw = s.draw)
    (hworker : t.worker = s.worker) (hqueue : s.queue ⊆ t.queue) : t.Waits := by
  intro hact
  rw [hstatus] at hact
  obtain h | h | h | ⟨handler, hmem, hclears⟩ := h hact
  · rw [hgui] at h
    cases h
  · exact .inr (.inl (hdraw ▸ h))
  · exact .inr (.inr (.inl (hworker ▸ h)))
  · exact awaited_of_mem (hqueue hmem) hclears

/-- one in `_menuRequestConfig`, -/
theorem Waits.of_draw (h : s.Waits) (hdraw : s.draw.clears = false)
    (hstatus : t.actionStatus = true → s.actionStatus = true) (hgui : t.gui = s.gui)
    (hworker : t.worker = s.worker) (hqueue : s.queue ⊆ t.queue) : t.Waits := by
  intro hact
  obtain h | h | h | ⟨handler, hmem, hclears⟩ := h (hstatus hact)
  · exact .inl (hgui ▸ h)
  · rw [hdraw] at h
    cases h
  · exact .inr (.inr (.inl (hworker ▸ h)))
  · exact awaited_of_mem (hqueue hmem) hclears

/-- and one of the worker. -/
theorem Waits.of_worker (h : s.Waits) (hworker : s.worker.clears = false)
    (hstatus : t.actionStatus = s.actionStatus) (hgui : t.gui = s.gui) (hdraw : t.draw = s.draw)
    (hqueue : s.queue ⊆ t.queue) : t.Waits := by
  intro hact
  rw [hstatus] at hact
  obtain h | h | h | ⟨handler, hmem, hclears⟩ := h hact
  · exact .inl (hgui ▸ h)
  · exact .inr (.inl (hdraw ▸ h))
  · rw [hworker] at h
    cases h
  · exact awaited_of_mem (hqueue hmem) hclears

/-- What the section of `_menuRequestConfig` can change. When it leaves `actionStatus` set, there
is a load to queue for the one who waits. -/
theorem requestConfig_eq {s' : Menu} {settled : Bool} {r : Option Bool}
    (hreq : s.requestConfig settled = (s', r)) :
    ∃ id list config freed status,
      s' = { s with
        itemConfigId := id, itemConfigList := list, itemConfig := config, freed := freed
        actionStatus := status } ∧
        (status = true → s.actionStatus = true ∧ r = some true) := by
  obtain hsame | ⟨row, -, -, hfree | hload⟩ | ⟨-, hact, hask⟩ := requestConfig_cases s settled
  · rw [hsame] at hreq
    cases hreq
    exact ⟨_, _, _, _, false, rfl, nofun⟩
  · rw [hfree] at hreq
    cases hreq
    exact ⟨_, _, _, _, false, rfl, nofun⟩
  · rw [hload] at hreq
    cases hreq
    exact ⟨_, _, _, _, s.actionStatus, rfl, fun hact => ⟨hact, congrArg some hact⟩⟩
  · rw [hask] at hreq
    cases hreq
    exact ⟨_, _, _, _, s.actionStatus, rfl, fun hact => ⟨hact, rfl⟩⟩

theorem Waits.publishLaunch {row : Row} {set : Option ℕ} (h : s.Waits)
    (hgui : s.gui.clears = false) : (s.publishLaunch row set).Waits := by
  cases set with
  | none => exact h.of_gui hgui rfl rfl rfl (List.Subset.refl _)
  | some n =>
    rw [Menu.publishLaunch]
    split
    next => exact h.of_gui hgui rfl rfl rfl (List.Subset.refl _)
    next => exact h.of_gui hgui rfl rfl rfl (List.Subset.refl _)

theorem Waits.guiStep {ok : Bool} (h : s.Waits) (hstep : s.guiStep ok = some t) : t.Waits := by
  rw [Menu.guiStep] at hstep
  split at hstep
  next => cases hstep
  next =>
    cases hstep
    exact fun _ => .inl rfl
  next =>
    cases ok with
    | true =>
      cases hstep
      exact fun _ => awaited_of_mem (List.mem_append_right _ List.mem_cons_self) rfl
    | false =>
      cases hstep
      exact fun _ => .inl rfl
  next =>
    cases hstep
    exact waits_of_clear rfl
  next =>
    obtain ⟨hno, hstep⟩ := Option.ite_none_left_eq_some.mp hstep
    cases hstep
    exact fun hact => absurd hact hno
  next hgui =>
    cases hstep
    exact h.of_gui (by rw [hgui]; rfl) rfl rfl rfl (List.Subset.refl _)
  next row hgui =>
    cases ok with
    | true =>
      cases hstep
      exact h.of_gui (by rw [hgui]; rfl) rfl rfl rfl (List.Subset.refl _)
    | false =>
      cases hstep
      exact h.of_gui (by rw [hgui]; rfl) rfl rfl rfl (List.Subset.refl _)
  next row set hgui =>
    cases hstep
    exact h.publishLaunch (by rw [hgui]; rfl)
  next hgui =>
    cases ok with
    | true =>
      cases hstep
      exact h.of_gui (by rw [hgui]; rfl) rfl rfl rfl (List.subset_append_left _ _)
    | false =>
      cases hstep
      exact h.of_gui (by rw [hgui]; rfl) rfl rfl rfl (List.Subset.refl _)
  next hgui =>
    cases hstep
    exact h.of_gui (by rw [hgui]; rfl) rfl rfl rfl (List.Subset.refl _)
  next =>
    cases ok with
    | true =>
      cases hstep
      exact fun _ => awaited_of_mem (List.mem_append_right _ List.mem_cons_self) rfl
    | false =>
      cases hstep
      exact fun _ => .inl rfl
  next =>
    cases hstep
    exact waits_of_clear rfl
  next =>
    obtain ⟨-, hstep⟩ := Option.ite_none_left_eq_some.mp hstep
    cases hstep
    exact waits_of_clear rfl

theorem Waits.drawStep {ok : Bool} (h : s.Waits) (hstep : s.drawStep ok = some t) : t.Waits := by
  rw [Menu.drawStep] at hstep
  split at hstep
  next => cases hstep
  next waiter hdraw =>
    cases ok with
    | true =>
      cases hstep
      cases waiter with
      | true => exact fun _ => awaited_of_mem (List.mem_append_right _ List.mem_cons_self) rfl
      | false => exact h.of_draw (by rw [hdraw]; rfl) id rfl rfl (List.subset_append_left _ _)
    | false =>
      cases hstep
      exact fun _ => .inr (.inl rfl)
  next =>
    cases hstep
    exact waits_of_clear rfl

theorem Waits.startStep {ok : Bool} {handler : Handler} (h : s.Waits)
    (hworker : s.worker = .start handler) (hstep : s.startStep ok handler = some t) : t.Waits := by
  cases handler with
  | requestConfig =>
    rw [Menu.startStep] at hstep
    split at hstep
    next s' hreq =>
      cases hstep
      obtain ⟨_, _, _, _, status, rfl, hstatus⟩ := requestConfig_eq hreq
      intro hact
      cases (hstatus hact).2
    next s' waiter hreq =>
      cases hstep
      obtain ⟨_, _, _, _, status, rfl, hstatus⟩ := requestConfig_eq hreq
      intro hact
      obtain ⟨-, hwaiter⟩ := hstatus hact
      cases hwaiter
      exact .inr (.inr (.inl rfl))
  | loadConfig =>
    obtain ⟨s', hload, rfl⟩ := Option.map_eq_some_iff.mp hstep
    rw [Menu.loadConfig] at hload
    split at hload
    next =>
      obtain ⟨tab, -, rfl⟩ := Option.map_eq_some_iff.mp hload
      cases ok <;> exact waits_of_clear rfl
    next =>
      cases hload
      exact waits_of_clear rfl
  | loadConfigAsync =>
    have hclears : s.worker.clears = false := by
      rw [hworker]
      rfl
    cases hstep
    rw [startAsync]
    split
    next => exact h.of_worker hclears rfl rfl rfl (List.Subset.refl _)
    next =>
      split
      next => exact h.of_worker hclears rfl rfl rfl (List.Subset.refl _)
      next => exact h.of_worker hclears rfl rfl rfl (List.Subset.refl _)
  | resolveInfoSize =>
    have hclears : s.worker.clears = false := by
      rw [hworker]
      rfl
    cases hstep
    rw [takeInfo]
    split
    next => exact h.of_worker hclears rfl rfl rfl (List.Subset.refl _)
    next => exact h.of_worker hclears rfl rfl rfl (List.Subset.refl _)
  | saveConfig save =>
    cases hstep
    exact fun _ => .inr (.inr (.inl rfl))

theorem Waits.workerStep {ok : Bool} (h : s.Waits) (hstep : s.workerStep ok = some t) :
    t.Waits := by
  rw [Menu.workerStep] at hstep
  cases hworker : s.worker with
  | idle =>
    rw [hworker] at hstep
    cases hstep
  | start handler =>
    rw [hworker] at hstep
    exact h.startStep hworker hstep
  | putting waiter =>
    rw [hworker] at hstep
    cases ok with
    | true =>
      cases hstep
      cases waiter with
      | true => exact fun _ => awaited_of_mem (List.mem_append_right _ List.mem_cons_self) rfl
      | false => exact h.of_worker (by rw [hworker]; rfl) rfl rfl rfl (List.subset_append_left _ _)
    | false =>
      cases hstep
      exact fun _ => .inr (.inr (.inl rfl))
  | failed =>
    rw [hworker] at hstep
    cases hstep
    exact waits_of_clear rfl
  | reading list id =>
    rw [hworker] at hstep
    cases ok with
    | true =>
      cases hstep
      exact h.of_worker (by rw [hworker]; rfl) rfl rfl rfl (List.Subset.refl _)
    | false =>
      cases hstep
      exact h.of_worker (by rw [hworker]; rfl) rfl rfl rfl (List.Subset.refl _)
  | read list id set =>
    rw [hworker] at hstep
    cases hstep
    cases set with
    | none => exact h.of_worker (by rw [hworker]; rfl) rfl rfl rfl (List.Subset.refl _)
    | some n =>
      rw [publishAsync]
      split
      next => exact h.of_worker (by rw [hworker]; rfl) rfl rfl rfl (List.Subset.refl _)
      next => exact h.of_worker (by rw [hworker]; rfl) rfl rfl rfl (List.Subset.refl _)
  | target row generation =>
    rw [hworker] at hstep
    cases ok with
    | true =>
      cases hstep
      exact h.of_worker (by rw [hworker]; rfl) rfl rfl rfl (List.Subset.refl _)
    | false =>
      cases hstep
      exact h.of_worker (by rw [hworker]; rfl) rfl rfl rfl (List.Subset.refl _)
  | sized row generation set =>
    rw [hworker] at hstep
    cases hstep
    cases set with
    | none => exact h.of_worker (by rw [hworker]; rfl) rfl rfl rfl (List.Subset.refl _)
    | some n =>
      rw [publishInfo]
      split
      next => exact h.of_worker (by rw [hworker]; rfl) rfl rfl rfl (List.Subset.refl _)
      next => exact h.of_worker (by rw [hworker]; rfl) rfl rfl rfl (List.Subset.refl _)
  | completing generation =>
    rw [hworker] at hstep
    cases hstep
    rw [completeInfo]
    split
    next => exact h.of_worker (by rw [hworker]; rfl) rfl rfl rfl (List.Subset.refl _)
    next => exact h.of_worker (by rw [hworker]; rfl) rfl rfl rfl (List.Subset.refl _)
  | writing save =>
    rw [hworker] at hstep
    cases hstep
    exact waits_of_clear rfl

/-- **Somebody clears `actionStatus`.** -/
theorem waits_step {a : Act} (h : s.Waits) (hstep : s.step a = some t) : t.Waits := by
  cases a with
  | select tab =>
    cases hstep
    exact h
  | changeTab tab =>
    obtain ⟨-, hstep⟩ := Option.ite_none_right_eq_some.mp hstep
    cases hstep
    exact h
  | dialog =>
    obtain ⟨hfree, hstep⟩ := Option.ite_none_right_eq_some.mp hstep
    split at hstep
    next =>
      cases hstep
      exact h
    next =>
      cases hstep
      exact h.of_gui (by rw [hfree.1]; rfl) rfl rfl rfl (List.Subset.refl _)
  | launch =>
    obtain ⟨-, hstep⟩ := Option.ite_none_right_eq_some.mp hstep
    cases hstep
    rw [launch]
    split
    next => exact waits_of_clear rfl
    next => split <;> exact waits_of_clear rfl
  | info =>
    obtain ⟨hfree, hstep⟩ := Option.ite_none_right_eq_some.mp hstep
    cases hstep
    rw [requestInfoSize]
    split
    next => exact h
    next =>
      split
      next => exact h
      next => exact h.of_gui (by rw [hfree.1]; rfl) rfl rfl rfl (List.Subset.refl _)
  | save =>
    obtain ⟨-, hstep⟩ := Option.ite_none_right_eq_some.mp hstep
    cases hstep
    exact fun _ => .inl rfl
  | gui ok =>
    obtain ⟨-, hstep⟩ := Option.ite_none_right_eq_some.mp hstep
    exact h.guiStep hstep
  | browse settled =>
    obtain ⟨hdraws, hstep⟩ := Option.ite_none_right_eq_some.mp hstep
    split at hstep
    next hreq =>
      cases hstep
      obtain ⟨_, _, _, _, status, rfl, hstatus⟩ := requestConfig_eq hreq
      intro hact
      cases (hstatus hact).2
    next hreq =>
      cases hstep
      obtain ⟨_, _, _, _, status, rfl, hstatus⟩ := requestConfig_eq hreq
      intro hact
      obtain ⟨-, hwaiter⟩ := hstatus hact
      cases hwaiter
      exact .inr (.inl rfl)
  | draw ok => exact h.drawStep hstep
  | pop =>
    rw [step] at hstep
    split at hstep
    next handler queue hworker hqueue =>
      cases hstep
      intro hact
      obtain h | h | h | ⟨handler', hmem, hclears⟩ := h hact
      · exact .inl h
      · exact .inr (.inl h)
      · rw [hworker] at h
        cases h
      · -- the one that is taken, or one behind it
        rw [hqueue] at hmem
        obtain rfl | hmem := List.mem_cons.mp hmem
        · exact .inr (.inr (.inl hclears))
        · exact awaited_of_mem hmem hclears
    next => cases hstep
  | awaitBgm =>
    rw [step] at hstep
    split at hstep
    next row generation hworker =>
      cases hstep
      rw [awaitBgm]
      split
      next => exact h
      next => exact h.of_worker (by rw [hworker]; rfl) rfl rfl rfl (List.Subset.refl _)
    next => cases hstep
  | work ok => exact h.workerStep hstep

end Waits

/-! ### The latch of the info worker -/

/-- The GUI thread is about to queue the info worker, or could not. -/
def Gui.infoWorkers : Gui → ℕ
  | .infoPutting => 1
  | .infoFailed => 1
  | _ => 0

/-- The worker is in `_menuResolveInfoSize`. -/
def Worker.infoWorkers : Worker → ℕ
  | .start .resolveInfoSize => 1
  | .target _ _ => 1
  | .sized _ _ _ => 1
  | .completing _ => 1
  | _ => 0

/-- How many info workers there are: about to be queued, queued, or at work. -/
def infoWorkers (s : Menu) : ℕ :=
  s.gui.infoWorkers + s.queue.count .resolveInfoSize + s.worker.infoWorkers

/-- What the info worker knows. A generation that is still the same means that its target is the
last one, and at the end the last target is answered. -/
def Serves (s : Menu) : Worker → Prop
  | .target row generation =>
    (s.infoSizeRequestGeneration = generation → s.newest = true) ∧
      (s.newest = true →
        s.infoSizeRequestGeneration = generation ∧ s.infoSizeRequest = some row)
  | .sized _ generation _ =>
    (s.infoSizeRequestGeneration = generation → s.newest = true) ∧
      (s.newest = true → s.answered = true)
  | .completing generation =>
    (s.infoSizeRequestGeneration = generation → s.newest = true) ∧
      (s.newest = true → s.answered = true)
  | _ => True

/-- The latch is set while there is an info worker, and then there is one only; a target is not
cleared before it is answered. -/
structure Latched (s : Menu) : Prop where
  count : s.infoWorkers = s.infoSizeWorkerPending.toNat
  served : s.infoSizeRequest = none → s.answered = true
  worker : s.Serves s.worker

/-- The generation that the info worker took. -/
def Worker.generation : Worker → Option UInt32
  | .target _ generation => some generation
  | .sized _ generation _ => some generation
  | .completing generation => some generation
  | _ => none

/-- A new target does not bring the generation round to the one that the info worker took. -/
def NoWrap (s : Menu) : Act → Prop
  | .info => ∀ row, rowOf s.selected = some row →
      ¬(s.infoSizeWorkerPending = true ∧ s.infoSizeRequest = some row) →
        s.worker.generation ≠ some (s.infoSizeRequestGeneration + 1)
  | _ => True

section Latched

variable {s t : Menu}

theorem serves_of_infoWorkers_eq_zero {w : Worker} (h : w.infoWorkers = 0) : s.Serves w := by
  cases w with
  | target row generation => cases h
  | sized row generation set => cases h
  | completing generation => cases h
  | _ => trivial

/-- A step that has nothing to do with it. -/
theorem Latched.congr (h : s.Latched) (hcount : t.infoWorkers = s.infoWorkers)
    (hpending : t.infoSizeWorkerPending = s.infoSizeWorkerPending)
    (hrequest : t.infoSizeRequest = s.infoSizeRequest) (hanswered : t.answered = s.answered)
    (hworker : t.Serves t.worker) : t.Latched := by
  refine ⟨?_, ?_, hworker⟩
  · rw [hcount, hpending, h.count]
  · rw [hrequest, hanswered]
    exact h.served

theorem Latched.requestInfoSize (h : s.Latched) (hgui : s.gui = .idle) (hok : s.NoWrap .info) :
    s.requestInfoSize.Latched := by
  rw [Menu.requestInfoSize]
  split
  next => exact h
  next row hrow =>
    split
    next => exact h
    next hnew =>
      have hwrap := hok row hrow hnew
      refine ⟨?_, nofun, ?_⟩
      · have hcount := h.count
        rw [infoWorkers, hgui] at hcount
        rw [infoWorkers, hgui]
        cases hpending : s.infoSizeWorkerPending with
        | true =>
          rw [hpending] at hcount
          exact hcount
        | false =>
          rw [hpending] at hcount
          simp only [Bool.false_eq_true, if_false, Gui.infoWorkers, Bool.toNat_false,
            Bool.toNat_true] at hcount ⊢
          omega
      · generalize s.worker = w at hwrap
        cases w with
        | target row' generation =>
          exact ⟨fun heq => absurd (congrArg some heq.symm) hwrap, nofun⟩
        | sized row' generation set =>
          exact ⟨fun heq => absurd (congrArg some heq.symm) hwrap, nofun⟩
        | completing generation =>
          exact ⟨fun heq => absurd (congrArg some heq.symm) hwrap, nofun⟩
        | _ => trivial

/-- A step of the GUI thread to a place that has as little to do with it. -/
theorem Latched.of_gui (h : s.Latched) (g : Gui) (hgui : s.gui.infoWorkers = g.infoWorkers) :
    { s with gui := g }.Latched := by
  refine h.congr ?_ rfl rfl rfl h.worker
  rw [infoWorkers, infoWorkers, hgui]

/-- A request for something else is queued. -/
theorem Latched.of_put (h : s.Latched) (handler : Handler) (hne : handler ≠ .resolveInfoSize) :
    { s with queue := s.queue ++ [handler] }.Latched := by
  refine h.congr ?_ rfl rfl rfl h.worker
  rw [infoWorkers, infoWorkers, List.count_append, List.count_singleton,
    if_neg (by simpa using hne)]
  rfl

/-- The worker goes on with something else. -/
theorem Latched.of_worker (h : s.Latched) (w : Worker) (hold : s.worker.infoWorkers = 0)
    (hnew : w.infoWorkers = 0) : { s with worker := w }.Latched := by
  refine h.congr ?_ rfl rfl rfl (serves_of_infoWorkers_eq_zero hnew)
  rw [infoWorkers, infoWorkers, hold, hnew]

theorem Latched.publishLaunch {row : Row} {set : Option ℕ} (h : s.Latched)
    (hgui : s.gui.infoWorkers = 0) : (s.publishLaunch row set).Latched := by
  have hidle : s.gui.infoWorkers = Gui.idle.infoWorkers := hgui
  have hnext := h.of_gui .idle hidle
  cases set with
  | none => exact hnext.congr rfl rfl rfl rfl hnext.worker
  | some n =>
    rw [Menu.publishLaunch]
    split
    next => exact hnext.congr rfl rfl rfl rfl hnext.worker
    next => exact hnext.congr rfl rfl rfl rfl hnext.worker

theorem Latched.guiStep {ok : Bool} (h : s.Latched) (hstep : s.guiStep ok = some t) :
    t.Latched := by
  rw [Menu.guiStep] at hstep
  cases hgui : s.gui with
  | idle =>
    rw [hgui] at hstep
    cases hstep
  | asking =>
    rw [hgui] at hstep
    cases hstep
    have hnext := h.of_gui .asked (by rw [hgui]; rfl)
    exact hnext.congr rfl rfl rfl rfl hnext.worker
  | asked =>
    rw [hgui] at hstep
    cases ok with
    | true =>
      cases hstep
      exact (h.of_gui .waiting (by rw [hgui]; rfl)).of_put .requestConfig (by decide)
    | false =>
      cases hstep
      exact h.of_gui _ (by rw [hgui]; rfl)
  | askFailed =>
    rw [hgui] at hstep
    cases hstep
    have hnext := h.of_gui .returning (by rw [hgui]; rfl)
    exact hnext.congr rfl rfl rfl rfl hnext.worker
  | waiting =>
    rw [hgui] at hstep
    obtain ⟨-, hstep⟩ := Option.ite_none_left_eq_some.mp hstep
    cases hstep
    exact h.of_gui _ (by rw [hgui]; rfl)
  | returning =>
    rw [hgui] at hstep
    cases hstep
    have hnext := h.of_gui .idle (by rw [hgui]; rfl)
    exact hnext.congr rfl rfl rfl rfl hnext.worker
  | launching row =>
    rw [hgui] at hstep
    cases ok with
    | true =>
      cases hstep
      have hnext := h.of_gui (.launched row (some s.sets)) (by rw [hgui]; rfl)
      exact hnext.congr rfl rfl rfl rfl hnext.worker
    | false =>
      cases hstep
      exact h.of_gui _ (by rw [hgui]; rfl)
  | launched row set =>
    rw [hgui] at hstep
    cases hstep
    exact h.publishLaunch (by rw [hgui]; rfl)
  | infoPutting =>
    rw [hgui] at hstep
    cases ok with
    | true =>
      cases hstep
      refine h.congr ?_ rfl rfl rfl h.worker
      change 0 + (s.queue ++ [Handler.resolveInfoSize]).count .resolveInfoSize +
        s.worker.infoWorkers = _
      rw [infoWorkers, hgui, List.count_append, List.count_singleton_self, Gui.infoWorkers]
      omega
    | false =>
      cases hstep
      exact h.of_gui _ (by rw [hgui]; rfl)
  | infoFailed =>
    rw [hgui] at hstep
    cases hstep
    -- this one is the only info worker
    have hcount := h.count
    have hle := Bool.toNat_le s.infoSizeWorkerPending
    rw [infoWorkers, hgui, Gui.infoWorkers] at hcount
    have hqueue : s.queue.count .resolveInfoSize = 0 := by omega
    have hnone : s.worker.infoWorkers = 0 := by omega
    refine ⟨?_, fun _ => rfl, serves_of_infoWorkers_eq_zero hnone⟩
    rw [infoWorkers, hqueue, hnone]
    rfl
  | saving =>
    rw [hgui] at hstep
    cases ok with
    | true =>
      cases hstep
      have hnext := (h.of_gui .saveWaiting (by rw [hgui]; rfl)).of_put (.saveConfig s.saves) nofun
      exact hnext.congr rfl rfl rfl rfl hnext.worker
    | false =>
      cases hstep
      exact h.of_gui _ (by rw [hgui]; rfl)
  | saveFailed =>
    rw [hgui] at hstep
    cases hstep
    have hnext := h.of_gui .idle (by rw [hgui]; rfl)
    exact hnext.congr rfl rfl rfl rfl hnext.worker
  | saveWaiting =>
    rw [hgui] at hstep
    obtain ⟨-, hstep⟩ := Option.ite_none_left_eq_some.mp hstep
    cases hstep
    have hnext := h.of_gui .idle (by rw [hgui]; rfl)
    exact hnext.congr rfl rfl rfl rfl hnext.worker

theorem loader_ne (waiter : Bool) : loader waiter ≠ .resolveInfoSize := by
  cases waiter <;> decide

theorem Latched.drawStep {ok : Bool} (h : s.Latched) (hstep : s.drawStep ok = some t) :
    t.Latched := by
  rw [Menu.drawStep] at hstep
  split at hstep
  next => cases hstep
  next waiter _ =>
    cases ok with
    | true =>
      cases hstep
      have hnext := h.of_put (loader waiter) (loader_ne waiter)
      exact hnext.congr rfl rfl rfl rfl hnext.worker
    | false =>
      cases hstep
      exact h.congr rfl rfl rfl rfl h.worker
  next =>
    cases hstep
    exact h.congr rfl rfl rfl rfl h.worker

theorem Latched.startStep {ok : Bool} {handler : Handler} (h : s.Latched)
    (hworker : s.worker = .start handler) (hstep : s.startStep ok handler = some t) :
    t.Latched := by
  cases handler with
  | requestConfig =>
    have hnone : s.worker.infoWorkers = 0 := by
      rw [hworker]
      rfl
    rw [Menu.startStep] at hstep
    split at hstep
    next hreq =>
      cases hstep
      obtain ⟨_, _, _, _, _, rfl, -⟩ := requestConfig_eq hreq
      have hnext := h.of_worker .idle hnone rfl
      exact hnext.congr rfl rfl rfl rfl hnext.worker
    next waiter hreq =>
      cases hstep
      obtain ⟨_, _, _, _, _, rfl, -⟩ := requestConfig_eq hreq
      have hnext := h.of_worker (.putting waiter) hnone rfl
      exact hnext.congr rfl rfl rfl rfl hnext.worker
  | loadConfig =>
    have hnone : s.worker.infoWorkers = 0 := by
      rw [hworker]
      rfl
    have hnext := h.of_worker .idle hnone rfl
    obtain ⟨s', hload, rfl⟩ := Option.map_eq_some_iff.mp hstep
    rw [Menu.loadConfig] at hload
    split at hload
    next =>
      obtain ⟨tab, -, rfl⟩ := Option.map_eq_some_iff.mp hload
      cases ok <;> exact hnext.congr rfl rfl rfl rfl hnext.worker
    next =>
      cases hload
      exact hnext.congr rfl rfl rfl rfl hnext.worker
  | loadConfigAsync =>
    have hnone : s.worker.infoWorkers = 0 := by
      rw [hworker]
      rfl
    cases hstep
    rw [startAsync]
    split
    next => exact h.of_worker _ hnone rfl
    next =>
      split
      next => exact h.of_worker _ hnone rfl
      next => exact h.of_worker _ hnone rfl
  | resolveInfoSize =>
    have hone : s.worker.infoWorkers = 1 := by
      rw [hworker]
      rfl
    cases hstep
    rw [takeInfo]
    split
    next hrequest =>
      refine h.congr ?_ rfl rfl rfl ⟨fun _ => rfl, fun _ => h.served hrequest⟩
      rw [infoWorkers, infoWorkers, hone]
      rfl
    next row hrequest =>
      refine h.congr ?_ rfl rfl rfl ⟨fun _ => rfl, fun _ => ⟨rfl, hrequest⟩⟩
      rw [infoWorkers, infoWorkers, hone]
      rfl
  | saveConfig save =>
    cases hstep
    exact h.of_worker _ (by rw [hworker]; rfl) rfl

theorem Latched.publishAsync {list : ℕ} {id : ℤ} {set : Option ℕ} (h : s.Latched)
    (hnone : s.worker.infoWorkers = 0) : (s.publishAsync list id set).Latched := by
  have hnext := h.of_worker .idle hnone rfl
  cases set with
  | none => exact hnext
  | some n =>
    rw [Menu.publishAsync]
    split
    next => exact hnext.congr rfl rfl rfl rfl hnext.worker
    next => exact hnext.congr rfl rfl rfl rfl hnext.worker

theorem Latched.publishInfo {row : Row} {generation : UInt32} {set : Option ℕ} (h : s.Latched)
    (hworker : s.worker = .sized row generation set) :
    (s.publishInfo row generation set).Latched := by
  have hserves := h.worker
  rw [hworker] at hserves
  have hnext : { s with worker := .completing generation }.Latched := by
    refine h.congr ?_ rfl rfl rfl hserves
    rw [infoWorkers, infoWorkers, hworker]
    rfl
  cases set with
  | none => exact hnext
  | some n =>
    rw [Menu.publishInfo]
    split
    next => exact hnext.congr rfl rfl rfl rfl hnext.worker
    next => exact hnext.congr rfl rfl rfl rfl hnext.worker

theorem Latched.completeInfo {generation : UInt32} (h : s.Latched)
    (hworker : s.worker = .completing generation) : (s.completeInfo generation).Latched := by
  have hserves := h.worker
  have hcount := h.count
  rw [hworker] at hserves
  rw [infoWorkers, hworker] at hcount
  rw [Menu.completeInfo]
  split
  next heq =>
    -- the target is the last one, and it is answered
    refine ⟨?_, fun _ => hserves.2 (hserves.1 heq), trivial⟩
    have hle := Bool.toNat_le s.infoSizeWorkerPending
    rw [infoWorkers]
    simp only [Worker.infoWorkers, Bool.toNat_false] at hcount ⊢
    omega
  next => exact ⟨hcount, h.served, trivial⟩

theorem Latched.awaitBgm {row : Row} {generation : UInt32} (h : s.Latched)
    (hworker : s.worker = .target row generation) : (s.awaitBgm row generation).Latched := by
  have hserves := h.worker
  have hcount := h.count
  rw [hworker] at hserves
  rw [infoWorkers, hworker] at hcount
  rw [Menu.awaitBgm]
  split
  next => exact h
  next hnot =>
    refine ⟨hcount, fun hrequest => ?_, hserves.1, fun hnewest => ?_⟩
    · dsimp only
      rw [h.served hrequest, Bool.true_or]
    · -- the last target is no longer wanted, so the selection has left it
      have hleft : rowOf s.selected ≠ some row := by
        intro hrow
        obtain ⟨hgeneration, hrequest⟩ := hserves.2 hnewest
        exact hnot ⟨hgeneration, hrequest, hrow⟩
      have hnewest' : s.newest = true := hnewest
      dsimp only
      rw [hnewest', decide_eq_true hleft, Bool.and_self, Bool.or_true]

theorem Latched.workerStep {ok : Bool} (h : s.Latched) (hstep : s.workerStep ok = some t) :
    t.Latched := by
  rw [Menu.workerStep] at hstep
  cases hworker : s.worker with
  | idle =>
    rw [hworker] at hstep
    cases hstep
  | start handler =>
    rw [hworker] at hstep
    exact h.startStep hworker hstep
  | putting waiter =>
    rw [hworker] at hstep
    cases ok with
    | true =>
      cases hstep
      exact (h.of_worker .idle (by rw [hworker]; rfl) rfl).of_put (loader waiter) (loader_ne waiter)
    | false =>
      cases hstep
      exact h.of_worker _ (by rw [hworker]; rfl) rfl
  | failed =>
    rw [hworker] at hstep
    cases hstep
    have hnext := h.of_worker .idle (by rw [hworker]; rfl) rfl
    exact hnext.congr rfl rfl rfl rfl hnext.worker
  | reading list id =>
    rw [hworker] at hstep
    cases ok with
    | true =>
      cases hstep
      have hnext := h.of_worker (.read list id (some s.sets)) (by rw [hworker]; rfl) rfl
      exact hnext.congr rfl rfl rfl rfl hnext.worker
    | false =>
      cases hstep
      exact h.of_worker _ (by rw [hworker]; rfl) rfl
  | read list id set =>
    rw [hworker] at hstep
    cases hstep
    exact h.publishAsync (by rw [hworker]; rfl)
  | target row generation =>
    rw [hworker] at hstep
    have hserves := h.worker
    have hcount := h.count
    rw [hworker] at hserves
    rw [infoWorkers, hworker] at hcount
    have hanswered : s.infoSizeRequest = none → (s.answered || s.newest) = true := by
      intro hrequest
      rw [h.served hrequest, Bool.true_or]
    have hnewest : s.newest = true → (s.answered || s.newest) = true := by
      intro hnewest
      rw [hnewest, Bool.or_true]
    cases ok with
    | true =>
      cases hstep
      exact ⟨hcount, hanswered, hserves.1, hnewest⟩
    | false =>
      cases hstep
      exact ⟨hcount, hanswered, hserves.1, hnewest⟩
  | sized row generation set =>
    rw [hworker] at hstep
    cases hstep
    exact h.publishInfo hworker
  | completing generation =>
    rw [hworker] at hstep
    cases hstep
    exact h.completeInfo hworker
  | writing save =>
    rw [hworker] at hstep
    cases hstep
    have hnext := h.of_worker .idle (by rw [hworker]; rfl) rfl
    exact hnext.congr rfl rfl rfl rfl hnext.worker

/-- **The latch of the info worker, and its targets.** -/
theorem latched_step {a : Act} (h : s.Latched) (hok : s.NoWrap a) (hstep : s.step a = some t) :
    t.Latched := by
  cases a with
  | select tab =>
    cases hstep
    exact h.congr rfl rfl rfl rfl h.worker
  | changeTab tab =>
    obtain ⟨-, hstep⟩ := Option.ite_none_right_eq_some.mp hstep
    cases hstep
    exact h.congr rfl rfl rfl rfl h.worker
  | dialog =>
    obtain ⟨hfree, hstep⟩ := Option.ite_none_right_eq_some.mp hstep
    split at hstep
    next =>
      cases hstep
      exact h.congr rfl rfl rfl rfl h.worker
    next =>
      cases hstep
      exact h.of_gui _ (by rw [hfree.1]; rfl)
  | launch =>
    obtain ⟨hfree, hstep⟩ := Option.ite_none_right_eq_some.mp hstep
    cases hstep
    rw [launch]
    split
    next => exact h.congr rfl rfl rfl rfl h.worker
    next row _ =>
      split
      next => exact h.congr rfl rfl rfl rfl h.worker
      next =>
        have hnext := h.of_gui (.launching row) (by rw [hfree.1]; rfl)
        exact hnext.congr rfl rfl rfl rfl hnext.worker
  | info =>
    obtain ⟨hfree, hstep⟩ := Option.ite_none_right_eq_some.mp hstep
    cases hstep
    exact h.requestInfoSize hfree.1 hok
  | save =>
    obtain ⟨hfree, hstep⟩ := Option.ite_none_right_eq_some.mp hstep
    cases hstep
    have hnext := h.of_gui .saving (by rw [hfree.1]; rfl)
    exact hnext.congr rfl rfl rfl rfl hnext.worker
  | gui ok =>
    obtain ⟨-, hstep⟩ := Option.ite_none_right_eq_some.mp hstep
    exact h.guiStep hstep
  | browse settled =>
    obtain ⟨-, hstep⟩ := Option.ite_none_right_eq_some.mp hstep
    split at hstep
    next hreq =>
      cases hstep
      obtain ⟨_, _, _, _, _, rfl, -⟩ := requestConfig_eq hreq
      exact h.congr rfl rfl rfl rfl h.worker
    next hreq =>
      cases hstep
      obtain ⟨_, _, _, _, _, rfl, -⟩ := requestConfig_eq hreq
      exact h.congr rfl rfl rfl rfl h.worker
  | draw ok => exact h.drawStep hstep
  | pop =>
    rw [step] at hstep
    split at hstep
    next handler queue hworker hqueue =>
      cases hstep
      refine h.congr ?_ rfl rfl rfl trivial
      rw [infoWorkers, infoWorkers, hworker, hqueue, List.count_cons]
      cases handler <;> rfl
    next => cases hstep
  | awaitBgm =>
    rw [step] at hstep
    split at hstep
    next hworker =>
      cases hstep
      exact h.awaitBgm hworker
    next => cases hstep
  | work ok => exact h.workerStep hstep

end Latched

/-! ### Whole runs -/

/-- An info worker is about to be queued, queued, or at work. -/
def InfoActive (s : Menu) : Prop :=
  s.gui = .infoPutting ∨ s.gui = .infoFailed ∨ .resolveInfoSize ∈ s.queue ∨
    s.worker.infoWorkers = 1

/-- What the code promises to those who wait. -/
structure Completes (s : Menu) : Prop where
  /-- somebody will clear `actionStatus` -/
  waiter : s.actionStatus = true → s.Awaited
  /-- the latch is set only if there is an info worker -/
  latch : s.infoSizeWorkerPending = true → s.InfoActive
  /-- the last target is cleared only after it was loaded or found left behind, or could not be
  queued -/
  served : s.infoSizeRequest = none → s.answered = true

theorem Latched.infoActive {s : Menu} (h : s.Latched) (hpending : s.infoSizeWorkerPending = true) :
    s.InfoActive := by
  have hcount := h.count
  rw [hpending, infoWorkers, Bool.toNat_true] at hcount
  by_cases hmem : Handler.resolveInfoSize ∈ s.queue
  · exact .inr (.inr (.inl hmem))
  rw [List.count_eq_zero_of_not_mem hmem] at hcount
  cases hgui : s.gui with
  | infoPutting => exact .inl hgui
  | infoFailed => exact .inr (.inl hgui)
  | _ =>
    rw [hgui] at hcount
    simp only [Gui.infoWorkers, Nat.zero_add] at hcount
    exact .inr (.inr (.inr hcount))

theorem latched_init : init.Latched := ⟨rfl, fun _ => rfl, trivial⟩

/-- **Nobody waits for nothing.** Along every run in which the generation does not come round. -/
theorem completes_of_runOk {acts : List Act} {s : Menu}
    (hok : Transition.RunOk step NoWrap init acts)
    (hrun : Transition.run step init acts = some s) : s.Completes := by
  have hinv : s.Waits ∧ s.Latched := by
    refine Transition.run_invariant_of_runOk (P := fun s => s.Waits ∧ s.Latched)
      (fun s a t h hok hstep => ?_) ⟨nofun, latched_init⟩ hok hrun
    exact ⟨waits_step h.1 hstep, latched_step h.2 hok hstep⟩
  exact ⟨hinv.1, hinv.2.infoActive, hinv.2.served⟩

/-- The info screen is opened for the first row, and the worker takes its target. -/
def takeFirst : List Act := [.select (some ⟨0, some 0⟩), .info, .gui true, .pop, .work true]

/-- While the worker reads, the info screen is opened for the second row. The worker then takes this
row as well, and its target is cleared after it was loaded. -/
def takeTwo : List Act :=
  takeFirst ++ [.select (some ⟨0, some 1⟩), .info] ++ List.replicate 7 (.work true)

theorem completes_takeTwo :
    (Transition.run step init (takeFirst ++ [.select (some ⟨0, some 1⟩), .info])).map
        (fun s => (s.worker, s.infoSizeRequestGeneration)) = some (.target ⟨0, 0⟩ 1, 2) ∧
    (Transition.run step init takeTwo).map
        (fun s => (s.infoSizeRequest, s.infoSizeWorkerPending, s.itemConfigId)) =
      some (none, false, 1) ∧
    ∀ s, Transition.run step init takeTwo = some s → s.Completes := by
  refine ⟨by decide, by decide, fun s hs => completes_of_runOk ?_ hs⟩
  refine ⟨trivial, fun _ _ _ => nofun, trivial, trivial, trivial, trivial, fun _ _ _ => ?_, ?_⟩
  · decide
  · exact ⟨trivial, trivial, trivial, trivial, trivial, trivial, trivial, trivial⟩

/-- The info screen is opened for the second row and for the third. -/
def lap : List Act :=
  [.select (some ⟨0, some 1⟩), .info, .select (some ⟨0, some 2⟩), .info]

/-- As often as `n` times. -/
def laps : ℕ → List Act
  | 0 => []
  | n + 1 => lap ++ laps n

/-- The worker has the first row, the last target is the third. -/
def lapped (generation : UInt32) : Menu :=
  { init with
    selected := some ⟨0, some 2⟩
    infoSizeWorkerPending := true
    infoSizeRequest := some ⟨0, 2⟩
    infoSizeRequestGeneration := generation
    worker := .target ⟨0, 0⟩ 1
    newest := false
    answered := false }

theorem run_lap (generation : UInt32) :
    Transition.run step (lapped generation) lap = some (lapped (generation + 1 + 1)) := rfl

theorem run_laps (n : ℕ) (generation : UInt32) :
    Transition.run step (lapped generation) (laps n) =
      some (lapped (generation + UInt32.ofNat (2 * n))) := by
  induction n generalizing generation with
  | zero =>
    rw [laps, Transition.run_nil]
    exact congrArg (fun g => some (lapped g)) (UInt32.add_zero generation).symm
  | succ n ih =>
    have htwo : UInt32.ofNat (2 * (n + 1)) = 1 + 1 + UInt32.ofNat (2 * n) := by
      rw [Nat.mul_succ, Nat.add_comm, UInt32.ofNat_add]
      rfl
    rw [laps, Transition.run_append, run_lap, Option.bind_some, ih, htwo, UInt32.add_assoc,
      UInt32.add_assoc, UInt32.add_assoc]

/-- When the generation comes round to 1, the worker clears the third row with the first. -/
theorem not_completes_of_laps {n : ℕ} (hn : 3 + UInt32.ofNat (2 * n) = (1 : UInt32)) :
    ∃ acts s, Transition.run step init acts = some s ∧ ¬s.Completes := by
  have hfirst : Transition.run step init (takeFirst ++ lap) = some (lapped 3) := rfl
  have hlast : (Transition.run step (lapped 1) [.work true, .work true, .work true]).map
      (fun s => (s.infoSizeRequest, s.answered)) = some (none, false) := by decide
  obtain ⟨s, hs, heq⟩ := Option.map_eq_some_iff.mp hlast
  obtain ⟨hrequest, hanswered⟩ := Prod.mk.inj heq
  refine ⟨(takeFirst ++ lap) ++ laps n ++ [.work true, .work true, .work true], s, ?_, ?_⟩
  · rw [Transition.run_append, Transition.run_append, hfirst, Option.bind_some, run_laps, hn,
      Option.bind_some, hs]
  · intro h
    rw [h.served hrequest] at hanswered
    cases hanswered

/-- The generation comes round after 2 ^ 32 targets. -/
theorem not_completes : ¬∀ acts s, Transition.run step init acts = some s → s.Completes := by
  intro h
  obtain ⟨acts, s, hrun, hnot⟩ := not_completes_of_laps (n := 2 ^ 31 - 1) (by decide)
  exact hnot (h acts s hrun)

end Menu

end OpenPS2Loader
