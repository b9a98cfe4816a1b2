import OpenPS2Loader.Vmc.Jobs

/-!
# The control of the jobs

What every step keeps that does no harm: one thread at most has each semaphore, a job that was
aborted or failed is on its way to say so, and while `vmc_abort` waits, a job has still to signal.
No state of such a run is a deadlock, since who has `genvmc_abort_sema` can always go on, and when
nobody has it, whoever is awaited can.

## Main definitions

* `Vmc.Jobs.Inv` — the invariant

## Main results

* `Vmc.Jobs.step_inv` — what every step keeps that does no harm
* `Vmc.Jobs.Inv.goesOn` — no deadlock
* `Vmc.Jobs.runs_controlled`
-/

namespace OpenPS2Loader

namespace Vmc

theorem Place.eq_of_holdsThread {p : Place} (h : p.holdsThread = false) :
    p = .start ∨ p = .gone := by
  cases p with
  | start => exact .inl rfl
  | gone => exact .inr rfl
  | _ => cases h

theorem Place.holdsThread_of_holdsAbort {p : Place} (h : p.holdsAbort = true) :
    p.holdsThread = true := by
  cases p <;> first | rfl | cases h

/-- The thread has stored its status, at least. -/
@[simp] def Place.stored : Place → Bool
  | .error _ | .finished _ | .exit | .gone => true
  | _ => false

namespace Job

/-- A job that was aborted or failed will look at the flag, or has the result of a failure. -/
def StopsRight (j : Job) (abort : Bool) : Prop :=
  match j.place with
  | .busy | .clears | .cluster => abort = true ∧ j.left ≠ []
  | .checks _ => abort = true
  | .avail r | .error r | .finished r => r < 0
  | .refused | .exit | .gone => True
  | .start | .locks | .resets | .unlocks | .writes _ | .written => False

/-- The statistics while a job is at a place. -/
def StatsRight (j : Job) (k : ℕ) (stats : Stats) (statsOf : Option ℕ) : Prop :=
  match j.place with
  | .start | .locks | .resets | .unlocks | .busy => statsOf ≠ some k
  | .clears | .cluster | .checks _ | .refused | .writes _ | .written | .avail _ =>
    statsOf = some k ∧ stats.status = .busy
  | .error _ => statsOf = some k ∧ stats.status = .avail
  | .finished _ => statsOf = some k ∧ stats.status = .avail ∧ (j.stopped = true → stats.error ≠ 0)
  | .exit | .gone => statsOf = some k → stats.status = .avail ∧ (j.stopped = true → stats.error ≠ 0)

/-- The job was aborted, and has still to signal that it ended. -/
def answers (j : Job) : Bool :=
  j.stopped && match j.place with
    | .busy | .clears | .cluster | .checks _ | .refused => true
    | .avail r | .error r | .finished r => decide (r = -1000)
    | _ => false

variable {j : Job}

@[simp] theorem abort_place (j : Job) : j.abort.place = j.place := rfl

@[simp] theorem abort_left (j : Job) : j.abort.left = j.left := rfl

theorem holdsThread_of_listens (h : j.listens = true) : j.place.holdsThread = true := by
  rw [listens] at h
  cases hplace : j.place with
  | busy | clears | cluster => rfl
  | _ =>
    rw [hplace] at h
    cases h

theorem stopsRight_of_listens (h : j.listens = true) : j.abort.StopsRight true := by
  rw [listens] at h
  rw [StopsRight, abort_place]
  cases hplace : j.place with
  | busy | clears | cluster =>
    rw [hplace] at h
    exact ⟨rfl, by simpa using h⟩
  | _ => simp [hplace] at h

theorem answers_of_listens (h : j.listens = true) : j.abort.answers = true := by
  rw [listens] at h
  cases hplace : j.place with
  | busy | clears | cluster => simp [answers, abort, hplace, Place.atWork]
  | _ =>
    rw [hplace] at h
    cases h

/-- The flag does not go down. -/
theorem StopsRight.raise {flag : Bool} (h : j.StopsRight flag) : j.abort.StopsRight true := by
  rw [StopsRight] at h
  rw [StopsRight, abort_place]
  cases hplace : j.place with
  | busy | clears | cluster =>
    rw [hplace] at h
    exact ⟨rfl, h.2⟩
  | checks code => rfl
  | _ =>
    rw [hplace] at h
    exact h

theorem holdsThread_of_answers (h : j.answers = true) : j.place.holdsThread = true := by
  cases hplace : j.place with
  | start | gone => simp [answers, hplace] at h
  | _ => rfl

/-- A job that has stored its status is aborted no more. -/
theorem abort_of_stored (h : j.place.stored = true) : j.abort = j := by
  have hwork : j.place.atWork = false := by
    cases hplace : j.place <;> rw [hplace] at h <;> first | rfl | cases h
  rw [abort, hwork, Bool.or_false]

theorem statsRight_abort {k : ℕ} {stats : Stats} {statsOf : Option ℕ}
    (h : j.StatsRight k stats statsOf) : j.abort.StatsRight k stats statsOf := by
  cases hstored : j.place.stored with
  | true =>
    rw [abort_of_stored hstored]
    exact h
  | false =>
    rw [StatsRight] at h
    rw [StatsRight, abort_place]
    cases hplace : j.place with
    | error r | finished r | exit | gone =>
      rw [hplace] at hstored
      cases hstored
    | _ =>
      rw [hplace] at h
      exact h

end Job

namespace Jobs

variable {s s' t : Jobs} {k : ℕ} {j j' : Job} {ok : Bool} {e : Event}

/-- What holds of one job. -/
structure JobOk (s : Jobs) (k : ℕ) (j : Job) : Prop where
  stops : j.stopped = true → j.StopsRight s.abort
  stats : j.StatsRight k s.stats s.statsOf
  report : ∀ st, s.report = some (st, some k) → st.status = .avail →
    j.place.stored = true ∧ (j.stopped = true → st.error ≠ 0)

/-- What holds of a call: while the semaphore of an abort is not signalled, a job will do it. -/
def CallerOk (s : Jobs) : Prop :=
  match s.caller with
  | .idle | .locks | .raises => s.finishedSema = none
  | .unlocks | .creates => s.finishedSema = none ∧ ∃ j ∈ s.jobs, j.answers = true
  | .awaits => s.finishedSema = some true ∨
      s.finishedSema = some false ∧ ∃ j ∈ s.jobs, j.answers = true
  | .deletes => True

/-- What every step keeps that does no harm. -/
structure Inv (s : Jobs) : Prop where
  thread : Semaphore.held (fun j : Job => j.place.holdsThread.toNat) s.jobs + s.threadSema.toNat = 1
  abort : Semaphore.held (fun j : Job => j.place.holdsAbort.toNat) s.jobs +
    s.caller.holdsAbort.toNat + s.abortSema.toNat = 1
  job : ∀ k j, s.jobs[k]? = some j → JobOk s k j
  caller : CallerOk s
  statsOf_lt : ∀ k, s.statsOf = some k → k < s.jobs.length
  report_lt : ∀ st k, s.report = some (st, some k) → k < s.jobs.length

theorem inv_init : init.Inv where
  thread := rfl
  abort := rfl
  job k j h := by simp [init] at h
  caller := rfl
  statsOf_lt k h := nomatch h
  report_lt st k h := nomatch h

/-- Only one job is beyond its first wait and not gone. -/
theorem Inv.others (h : s.Inv) (hj : s.jobs[k]? = some j) (hholds : j.place.holdsThread = true)
    {k' : ℕ} (hne : k' ≠ k) (hj' : s.jobs[k']? = some j') : j'.place.holdsThread = false := by
  have hle := Semaphore.add_le_held (fun j : Job => j.place.holdsThread.toNat) hne hj' hj
  have hthread := h.thread
  cases hj'' : j'.place.holdsThread with
  | false => rfl
  | true =>
    rw [hholds, hj''] at hle
    simp only [Bool.toNat_true] at hle
    omega

theorem JobOk.congr (h : JobOk s k j) (habort : t.abort = s.abort) (hstats : t.stats = s.stats)
    (hof : t.statsOf = s.statsOf) (hreport : t.report = s.report) : JobOk t k j :=
  ⟨by rw [habort]; exact h.stops, by rw [hstats, hof]; exact h.stats,
    by rw [hreport]; exact h.report⟩

/-- A job that waits or is gone depends on its own statistics only. -/
theorem JobOk.keep (h : JobOk s k j) (hholds : j.place.holdsThread = false)
    (hof : t.statsOf = s.statsOf ∨ t.statsOf ≠ some k)
    (hstats : t.statsOf = some k → t.stats = s.stats) (hreport : t.report = s.report) :
    JobOk t k j := by
  have hstops := h.stops
  have hright := h.stats
  have hback : t.statsOf = some k → s.statsOf = some k := by
    intro hk
    obtain hof | hof := hof
    · rw [← hof, hk]
    · exact absurd hk hof
  refine ⟨?_, ?_, by rw [hreport]; exact h.report⟩
  · obtain hplace | hplace := Place.eq_of_holdsThread hholds
    · rw [Job.StopsRight, hplace] at hstops ⊢
      exact hstops
    · rw [Job.StopsRight, hplace]
      exact fun _ => trivial
  · obtain hplace | hplace := Place.eq_of_holdsThread hholds
    · rw [Job.StatsRight, hplace] at hright ⊢
      exact fun hk => hright (hback hk)
    · rw [Job.StatsRight, hplace] at hright ⊢
      intro hk
      rw [hstats hk]
      exact hright (hback hk)

/-- A job makes a step that its own report does not forbid. -/
theorem JobOk.goes (h : JobOk s k j) (hstops : j'.stopped = true → j'.StopsRight s'.abort)
    (hstats : j'.StatsRight k s'.stats s'.statsOf) (hreport : s'.report = s.report)
    (hstored : j.place.stored = true → j'.place.stored = true ∧ j'.stopped = j.stopped) :
    JobOk s' k j' := by
  refine ⟨hstops, hstats, fun st hst havail => ?_⟩
  rw [hreport] at hst
  obtain ⟨hold, herror⟩ := h.report st hst havail
  obtain ⟨hnew, hsame⟩ := hstored hold
  exact ⟨hnew, fun hstopped => herror (hsame ▸ hstopped)⟩

/-- The other jobs and the caller after the step of a job. `s'` has what the step stores. -/
theorem Inv.put (h : s.Inv) (hj : s.jobs[k]? = some j) (hjobs : s'.jobs = s.jobs)
    (hcall : s'.caller = s.caller) (hreport : s'.report = s.report)
    (hthread : j'.place.holdsThread.toNat + s'.threadSema.toNat =
      j.place.holdsThread.toNat + s.threadSema.toNat)
    (habort : j'.place.holdsAbort.toNat + s'.abortSema.toNat =
      j.place.holdsAbort.toNat + s.abortSema.toNat)
    (hself : JobOk s' k j')
    (hshared : s'.abort = s.abort ∧ s'.stats = s.stats ∧ s'.statsOf = s.statsOf ∨
      j.place.holdsThread = true ∧
        (s'.statsOf = some k ∨ s'.statsOf = s.statsOf ∧ s'.stats = s.stats))
    (hcaller : CallerOk (s'.put k j')) : (s'.put k j').Inv := by
  have hset₁ := Semaphore.held_set (fun j : Job => j.place.holdsThread.toNat) (b := j') hj
  have hset₂ := Semaphore.held_set (fun j : Job => j.place.holdsAbort.toNat) (b := j') hj
  have hone := h.thread
  have hone' := h.abort
  refine ⟨?_, ?_, fun k' j'' hj'' => ?_, hcaller, fun k' hk' => ?_, fun st k' hk' => ?_⟩
  · rw [put_jobs, hjobs]
    show _ + s'.threadSema.toNat = 1
    omega
  · rw [put_jobs, hjobs]
    show _ + s'.caller.holdsAbort.toNat + s'.abortSema.toNat = 1
    rw [hcall]
    omega
  · rw [put_jobs, hjobs, List.getElem?_set] at hj''
    split at hj''
    next heq =>
      subst heq
      rw [if_pos (List.getElem?_eq_some_iff.mp hj).1] at hj''
      cases hj''
      exact hself.congr rfl rfl rfl rfl
    next hne =>
      have hold := h.job k' j'' hj''
      obtain ⟨hflag, hstats, hof⟩ | ⟨hholds, hstats⟩ := hshared
      · exact hold.congr hflag hstats hof hreport
      · have hfree := h.others hj hholds (Ne.symm hne) hj''
        obtain hof | ⟨hof, hstats⟩ := hstats
        · have hother : s'.statsOf ≠ some k' := by
            rw [hof]
            exact fun he => hne (Option.some.inj he)
          exact hold.keep hfree (.inr hother) (fun he => absurd he hother) hreport
        · exact hold.keep hfree (.inl hof) (fun _ => hstats) hreport
  · have hsome : s'.statsOf = some k' := hk'
    rw [put_jobs, List.length_set, hjobs]
    obtain ⟨-, -, hof⟩ | ⟨-, hof | ⟨hof, -⟩⟩ := hshared
    · exact h.statsOf_lt k' (hof ▸ hsome)
    · rw [hof] at hsome
      cases hsome
      exact (List.getElem?_eq_some_iff.mp hj).1
    · exact h.statsOf_lt k' (hof ▸ hsome)
  · rw [put_jobs, List.length_set, hjobs]
    exact h.report_lt st k' (hreport ▸ hk')

/-- The caller waits for the job as before. -/
theorem CallerOk.put (h : CallerOk s) (hj : s.jobs[k]? = some j) (hjobs : s'.jobs = s.jobs)
    (hcall : s'.caller = s.caller) (hfinished : s'.finishedSema = s.finishedSema)
    (hanswers : j.answers = true → j'.answers = true) : CallerOk (s'.put k j') := by
  have hlt := (List.getElem?_eq_some_iff.mp hj).1
  have hex : (∃ i ∈ s.jobs, i.answers = true) → ∃ i ∈ s.jobs.set k j', i.answers = true := by
    rintro ⟨i, hi, hans⟩
    obtain ⟨m, hm⟩ := List.getElem?_of_mem hi
    by_cases hmk : k = m
    · subst hmk
      rw [hj] at hm
      cases hm
      exact ⟨j', List.mem_set hlt j', hanswers hans⟩
    · exact ⟨i, List.mem_of_getElem? ((List.getElem?_set_ne hmk).trans hm), hans⟩
  rw [CallerOk] at h ⊢
  show match s'.caller with
    | .idle | .locks | .raises => s'.finishedSema = none
    | .unlocks | .creates => s'.finishedSema = none ∧ ∃ j ∈ s'.jobs.set k j', j.answers = true
    | .awaits => s'.finishedSema = some true ∨
        s'.finishedSema = some false ∧ ∃ j ∈ s'.jobs.set k j', j.answers = true
    | .deletes => True
  rw [hcall, hfinished, hjobs]
  cases hcaller : s.caller with
  | unlocks | creates =>
    rw [hcaller] at h
    exact ⟨h.1, hex h.2⟩
  | awaits =>
    rw [hcaller] at h
    exact h.imp_right fun h => ⟨h.1, hex h.2⟩
  | deletes => trivial
  | _ =>
    rw [hcaller] at h
    exact h

/-- A step of a job that leaves the semaphore of the abort alone. -/
theorem Inv.moves (h : s.Inv) (hj : s.jobs[k]? = some j) (hjobs : s'.jobs = s.jobs)
    (hcall : s'.caller = s.caller) (hreport : s'.report = s.report)
    (hfinished : s'.finishedSema = s.finishedSema)
    (hthread : j'.place.holdsThread.toNat + s'.threadSema.toNat =
      j.place.holdsThread.toNat + s.threadSema.toNat)
    (habort : j'.place.holdsAbort.toNat + s'.abortSema.toNat =
      j.place.holdsAbort.toNat + s.abortSema.toNat)
    (hstops : j'.stopped = true → j'.StopsRight s'.abort)
    (hstats : j'.StatsRight k s'.stats s'.statsOf)
    (hstored : j.place.stored = true → j'.place.stored = true ∧ j'.stopped = j.stopped)
    (hshared : s'.abort = s.abort ∧ s'.stats = s.stats ∧ s'.statsOf = s.statsOf ∨
      j.place.holdsThread = true ∧
        (s'.statsOf = some k ∨ s'.statsOf = s.statsOf ∧ s'.stats = s.stats))
    (hanswers : j.answers = true → j'.answers = true) : (s'.put k j').Inv :=
  h.put hj hjobs hcall hreport hthread habort ((h.job k j hj).goes hstops hstats hreport hstored)
    hshared (h.caller.put hj hjobs hcall hfinished hanswers)

/-- The semaphore of the threads is taken while a job has it. -/
theorem Inv.threadSema_eq (h : s.Inv) (hj : s.jobs[k]? = some j)
    (hholds : j.place.holdsThread = true) : s.threadSema = false := by
  have hle := Semaphore.le_held (fun j : Job => j.place.holdsThread.toNat) (List.mem_of_getElem? hj)
  have hone := h.thread
  rw [hholds, Bool.toNat_true] at hle
  cases hsema : s.threadSema with
  | false => rfl
  | true =>
    rw [hsema, Bool.toNat_true] at hone
    omega

/-- The semaphore of the clusters is taken while a job has it. -/
theorem Inv.abortSema_eq (h : s.Inv) (hj : s.jobs[k]? = some j)
    (hholds : j.place.holdsAbort = true) : s.abortSema = false := by
  have hle := Semaphore.le_held (fun j : Job => j.place.holdsAbort.toNat) (List.mem_of_getElem? hj)
  have hone := h.abort
  rw [hholds, Bool.toNat_true] at hle
  cases hsema : s.abortSema with
  | false => rfl
  | true =>
    rw [hsema, Bool.toNat_true] at hone
    omega

/-- The job signals the semaphore that the caller waits for. -/
theorem CallerOk.signal (h : CallerOk s) (hsignal : s.finishedSema ≠ none)
    (hcall : s'.caller = s.caller)
    (hfinished : s'.finishedSema = s.finishedSema.map fun _ => true) : CallerOk s' := by
  obtain ⟨b, hb⟩ := Option.ne_none_iff_exists'.mp hsignal
  rw [CallerOk] at h ⊢
  rw [hcall, hfinished, hb]
  cases hcaller : s.caller with
  | awaits => exact .inl rfl
  | deletes => trivial
  | idle | locks | raises =>
    rw [hcaller] at h
    exact absurd h hsignal
  | unlocks | creates =>
    rw [hcaller] at h
    exact absurd h.1 hsignal

/-- In front of a cluster, or behind the last one. -/
theorem Inv.cluster (h : s.Inv) (hj : s.jobs[k]? = some j) (hplace : j.place = .cluster)
    (hstep : s.jobStep k j ok = some t) : t.Inv := by
  have hstops := (h.job k j hj).stops
  have hstats := (h.job k j hj).stats
  rw [Job.StopsRight, hplace] at hstops
  rw [Job.StatsRight, hplace] at hstats
  rw [jobStep, hplace] at hstep
  dsimp only at hstep
  split at hstep
  next hleft =>
    cases hstep
    have hgoing : j.stopped = false := by
      by_contra hs
      exact (hstops (eq_true_of_ne_false hs)).2 hleft
    refine h.moves hj rfl rfl rfl rfl ?_ ?_ ?_ hstats ?_ (.inl ⟨rfl, rfl, rfl⟩) ?_ <;>
      simp [hplace, hgoing, Job.answers, Job.StopsRight]
  next code left hleft =>
    obtain ⟨hfree, hstep⟩ := Option.ite_none_right_eq_some.mp hstep
    cases hstep
    refine h.moves hj rfl rfl rfl rfl ?_ ?_ (fun hs => (hstops hs).1) hstats ?_
      (.inl ⟨rfl, rfl, rfl⟩) ?_ <;>
      simp [hplace, hfree, Job.answers]

/-- The job looks at the flag. -/
theorem Inv.checks (h : s.Inv) (hj : s.jobs[k]? = some j) {code : ErrorCode}
    (hplace : j.place = .checks code) (hstep : s.jobStep k j ok = some t) : t.Inv := by
  have hstops := (h.job k j hj).stops
  have hstats := (h.job k j hj).stats
  rw [Job.StopsRight, hplace] at hstops
  rw [Job.StatsRight, hplace] at hstats
  rw [jobStep, hplace] at hstep
  cases hstep
  cases habort : s.abort with
  | true =>
    refine h.moves hj rfl rfl rfl rfl ?_ ?_ (fun _ => trivial) hstats ?_
      (.inl ⟨rfl, rfl, rfl⟩) ?_ <;>
      simp [hplace, Job.answers]
  | false =>
    have hgoing : j.stopped = false := by
      by_contra hs
      rw [hstops (eq_true_of_ne_false hs)] at habort
      cases habort
    refine h.moves hj rfl rfl rfl rfl ?_ ?_ ?_ hstats ?_ (.inl ⟨rfl, rfl, rfl⟩) ?_ <;>
      simp [hplace, hgoing, Job.answers]

/-- A job that was aborted signals the semaphore that the caller made. -/
theorem Inv.finished (h : s.Inv) (hj : s.jobs[k]? = some j) {r : ℤ}
    (hplace : j.place = .finished r) (hsignal : r = -1000 → s.finishedSema ≠ none)
    (hstep : s.jobStep k j ok = some t) : t.Inv := by
  have hstats := (h.job k j hj).stats
  rw [Job.StatsRight, hplace] at hstats
  rw [jobStep, hplace] at hstep
  cases hstep
  have hstats' : (j.goes .exit).StatsRight k s.stats s.statsOf := fun _ => hstats.2
  by_cases hr : r = -1000
  · rw [if_pos hr]
    refine h.put hj rfl rfl rfl ?_ ?_ ?_ (.inl ⟨rfl, rfl, rfl⟩)
      (h.caller.signal (hsignal hr) rfl rfl)
    · simp [Job.goes, hplace, Place.holdsThread]
    · simp [Job.goes, hplace, Place.holdsAbort]
    · exact (h.job k j hj).goes (fun _ => trivial) hstats' rfl fun _ => ⟨rfl, rfl⟩
  · rw [if_neg hr]
    refine h.moves hj rfl rfl rfl rfl ?_ ?_ (fun _ => trivial) hstats' (fun _ => ⟨rfl, rfl⟩)
      (.inl ⟨rfl, rfl, rfl⟩) ?_ <;>
      simp [hplace, hr, Job.answers]

/-- **The step of a job.** -/
theorem jobStep_inv (h : s.Inv) (hj : s.jobs[k]? = some j)
    (hwrite : j.place.isWrite = true → ok = true)
    (hsignal : j.place = .finished (-1000) → s.finishedSema ≠ none)
    (hstep : s.jobStep k j ok = some t) : t.Inv := by
  have hjob := hstep
  have hstops := (h.job k j hj).stops
  have hstats := (h.job k j hj).stats
  rw [Job.StopsRight] at hstops
  rw [Job.StatsRight] at hstats
  rw [jobStep] at hstep
  cases hplace : j.place with
  | start =>
    rw [hplace] at hstep hstops hstats
    obtain ⟨hfree, hstep⟩ := Option.ite_none_right_eq_some.mp hstep
    cases hstep
    refine h.moves hj rfl rfl rfl rfl ?_ ?_ hstops hstats ?_ (.inl ⟨rfl, rfl, rfl⟩) ?_ <;>
      simp [hplace, hfree, Job.answers]
  | locks =>
    rw [hplace] at hstep hstops hstats
    obtain ⟨hfree, hstep⟩ := Option.ite_none_right_eq_some.mp hstep
    cases hstep
    refine h.moves hj rfl rfl rfl rfl ?_ ?_ hstops hstats ?_ (.inl ⟨rfl, rfl, rfl⟩) ?_ <;>
      simp [hplace, hfree, Job.answers]
  | resets =>
    rw [hplace] at hstep hstops hstats
    cases hstep
    refine h.moves hj rfl rfl rfl rfl ?_ ?_ hstops hstats ?_ ?_ ?_ <;>
      simp [hplace, Job.answers]
  | unlocks =>
    rw [hplace] at hstep hstops hstats
    cases hstep
    have hsema := h.abortSema_eq hj (by rw [hplace]; rfl)
    refine h.moves hj rfl rfl rfl rfl ?_ ?_ (fun hs => (hstops hs).elim) hstats ?_
      (.inl ⟨rfl, rfl, rfl⟩) ?_ <;>
      simp [hplace, hsema, Job.answers]
  | busy =>
    rw [hplace] at hstep hstops hstats
    cases hstep
    refine h.moves hj rfl rfl rfl rfl ?_ ?_ hstops ⟨rfl, rfl⟩ ?_ ?_ ?_ <;>
      simp [hplace, Job.answers]
  | clears =>
    rw [hplace] at hstep hstops hstats
    cases hstep
    refine h.moves hj rfl rfl rfl rfl ?_ ?_ hstops hstats ?_ ?_ ?_ <;>
      simp [hplace, hstats.1, Job.answers]
  | cluster => exact h.cluster hj hplace hjob
  | checks code => exact h.checks hj hplace hjob
  | refused =>
    rw [hplace] at hstep hstops hstats
    cases hstep
    have hsema := h.abortSema_eq hj (by rw [hplace]; rfl)
    refine h.moves hj rfl rfl rfl rfl ?_ ?_ ?_ hstats ?_ (.inl ⟨rfl, rfl, rfl⟩) ?_ <;>
      simp [hplace, hsema, Job.answers, Job.StopsRight]
  | writes code =>
    rw [hplace] at hstep hstops hstats
    obtain rfl : ok = true := hwrite (by rw [hplace]; rfl)
    cases hstep
    refine h.moves hj rfl rfl rfl rfl ?_ ?_ hstops hstats ?_ (.inl ⟨rfl, rfl, rfl⟩) ?_ <;>
      simp [hplace, Job.answers]
  | written =>
    rw [hplace] at hstep hstops hstats
    cases hstep
    have hsema := h.abortSema_eq hj (by rw [hplace]; rfl)
    refine h.moves hj rfl rfl rfl rfl ?_ ?_ (fun hs => (hstops hs).elim) hstats ?_
      (.inl ⟨rfl, rfl, rfl⟩) ?_ <;>
      simp [hplace, hsema, Job.answers]
  | avail r =>
    rw [hplace] at hstep hstops hstats
    cases hstep
    refine h.moves hj rfl rfl rfl rfl ?_ ?_ hstops ⟨hstats.1, rfl⟩ ?_ ?_ ?_ <;>
      simp [hplace, hstats.1, Job.answers]
  | error r =>
    rw [hplace] at hstep hstops hstats
    cases hstep
    refine h.moves hj rfl rfl rfl rfl ?_ ?_ hstops
      ⟨hstats.1, hstats.2, fun hs => (hstops hs).ne⟩ ?_ ?_ ?_ <;>
      simp [hplace, hstats.1, Job.answers]
  | finished r => exact h.finished hj hplace (fun hr => hsignal (by rw [hplace, hr])) hjob
  | exit =>
    rw [hplace] at hstep hstops hstats
    cases hstep
    have hsema := h.threadSema_eq hj (by rw [hplace]; rfl)
    refine h.moves hj rfl rfl rfl rfl ?_ ?_ (fun _ => trivial) hstats ?_
        (.inl ⟨rfl, rfl, rfl⟩) ?_ <;>
      simp [hplace, hsema, Job.answers]
  | gone =>
    rw [hplace] at hstep
    cases hstep

/-- A job that is at work is the one that listens, if there is one. -/
theorem Inv.listens_of_atWork (h : s.Inv) (hlistens : ∃ j ∈ s.jobs, j.listens = true)
    (hj : s.jobs[k]? = some j) (hwork : j.place.atWork = true) : j.listens = true := by
  obtain ⟨i, hi, hil⟩ := hlistens
  obtain ⟨m, hm⟩ := List.getElem?_of_mem hi
  by_cases hmk : m = k
  · subst hmk
    rw [hj] at hm
    cases hm
    exact hil
  · have hfree := h.others hm (Job.holdsThread_of_listens hil) (Ne.symm hmk) hj
    obtain hplace | hplace := Place.eq_of_holdsThread hfree
    · rw [hplace] at hwork
      cases hwork
    · rw [hplace] at hwork
      cases hwork

/-- The flag is raised. -/
theorem JobOk.raised (h : JobOk s k j) (hlistens : j.place.atWork = true → j.listens = true)
    (hflag : t.abort = true) (hstats : t.stats = s.stats) (hof : t.statsOf = s.statsOf)
    (hreport : t.report = s.report) : JobOk t k j.abort := by
  refine ⟨fun hstopped => ?_, ?_, fun st hst havail => ?_⟩
  · rw [hflag]
    obtain hold | hwork := Bool.or_eq_true_iff.mp hstopped
    · exact (h.stops hold).raise
    · exact Job.stopsRight_of_listens (hlistens hwork)
  · rw [hstats, hof]
    exact Job.statsRight_abort h.stats
  · rw [hreport] at hst
    obtain ⟨hstored, herror⟩ := h.report st hst havail
    refine ⟨hstored, fun hstopped => herror ?_⟩
    rwa [Job.abort_of_stored hstored] at hstopped

/-- **A step of `vmc_abort`.** -/
theorem callStep_inv (h : s.Inv)
    (hlistens : s.caller = .raises → ∃ j ∈ s.jobs, j.listens = true)
    (hstep : s.callStep = some t) : t.Inv := by
  have hone := h.abort
  have hcaller := h.caller
  have hjob := fun k j hj => (h.job k j hj).congr (t := t)
  rw [CallerOk] at hcaller
  rw [callStep] at hstep
  cases hcall : s.caller with
  | idle =>
    rw [hcall] at hstep
    cases hstep
  | locks =>
    rw [hcall] at hstep hone hcaller
    obtain ⟨hfree, hstep⟩ := Option.ite_none_right_eq_some.mp hstep
    cases hstep
    rw [hfree] at hone
    exact ⟨h.thread, hone, fun k j hj => hjob k j hj rfl rfl rfl rfl, hcaller, h.statsOf_lt,
      h.report_lt⟩
  | raises =>
    rw [hcall] at hstep hone hcaller
    cases hstep
    obtain ⟨j, hj, hl⟩ := hlistens hcall
    refine ⟨?_, ?_, fun k i hi => ?_, ⟨hcaller, j.abort, List.mem_map_of_mem hj,
      Job.answers_of_listens hl⟩, ?_, ?_⟩
    · rw [Semaphore.held_map (f := Job.abort) _ fun _ => rfl]
      exact h.thread
    · rw [Semaphore.held_map (f := Job.abort) _ fun _ => rfl]
      exact hone
    · obtain ⟨i, hk, rfl⟩ := Option.map_eq_some_iff.mp ((List.getElem?_map).symm.trans hi)
      exact (h.job k i hk).raised (h.listens_of_atWork (hlistens hcall) hk) rfl rfl rfl rfl
    · exact fun k hk => (List.length_map Job.abort).symm ▸ h.statsOf_lt k hk
    · exact fun st k hk => (List.length_map Job.abort).symm ▸ h.report_lt st k hk
  | unlocks =>
    rw [hcall] at hstep hone hcaller
    cases hstep
    have hone' : Semaphore.held (fun j : Job => j.place.holdsAbort.toNat) s.jobs + 1 +
      s.abortSema.toNat = 1 := hone
    refine ⟨h.thread, ?_, fun k j hj => hjob k j hj rfl rfl rfl rfl, hcaller, h.statsOf_lt,
      h.report_lt⟩
    show Semaphore.held (fun j : Job => j.place.holdsAbort.toNat) s.jobs + 0 + 1 = 1
    omega
  | creates =>
    rw [hcall] at hstep hone hcaller
    cases hstep
    exact ⟨h.thread, hone, fun k j hj => hjob k j hj rfl rfl rfl rfl, .inr ⟨rfl, hcaller.2⟩,
      h.statsOf_lt, h.report_lt⟩
  | awaits =>
    rw [hcall] at hstep hone hcaller
    obtain ⟨-, hstep⟩ := Option.ite_none_right_eq_some.mp hstep
    cases hstep
    exact ⟨h.thread, hone, fun k j hj => hjob k j hj rfl rfl rfl rfl, trivial, h.statsOf_lt,
      h.report_lt⟩
  | deletes =>
    rw [hcall] at hstep hone hcaller
    cases hstep
    exact ⟨h.thread, hone, fun k j hj => hjob k j hj rfl rfl rfl rfl, rfl, h.statsOf_lt,
      h.report_lt⟩

/-- The statistics are copied. -/
theorem JobOk.reported (h : JobOk s k j) (hmid : j.place.midReport = false)
    (habort : t.abort = s.abort) (hstats : t.stats = s.stats) (hof : t.statsOf = s.statsOf)
    (hreport : t.report = some (s.stats, s.statsOf)) : JobOk t k j := by
  have hstops := h.stops
  have hright := h.stats
  refine ⟨habort ▸ hstops, by rw [hstats, hof]; exact hright, fun st hst havail => ?_⟩
  rw [hreport, Option.some.injEq, Prod.mk.injEq] at hst
  obtain ⟨rfl, hk⟩ := hst
  rw [Job.StatsRight] at hright
  rw [Job.StopsRight] at hstops
  cases hplace : j.place with
  | start | locks | resets | unlocks | busy =>
    rw [hplace] at hright
    exact absurd hk hright
  | clears | cluster | checks | refused | writes | written | avail =>
    rw [hplace] at hright
    rw [hright.2] at havail
    cases havail
  | error r =>
    rw [hplace] at hstops hmid
    exact ⟨rfl, fun hs => absurd (hstops hs) (of_decide_eq_false hmid)⟩
  | finished r =>
    rw [hplace] at hright
    exact ⟨rfl, hright.2.2⟩
  | exit | gone =>
    rw [hplace] at hright
    exact ⟨rfl, (hright hk).2⟩

/-- A job is created. -/
theorem JobOk.created (h : s.Inv) (clusters : List ErrorCode) (result : Option ErrorCode) :
    JobOk s s.jobs.length ⟨clusters, result, .start, false⟩ :=
  ⟨fun hs => Bool.noConfusion hs, fun hof => (h.statsOf_lt _ hof).false,
    fun st hst => absurd (h.report_lt st _ hst) (Nat.lt_irrefl _)⟩

/-- **A step that does no harm.** -/
theorem step_inv (s : Jobs) (e : Event) (t : Jobs) (h : s.Inv) (hok : Undisturbed s e)
    (hstep : step s e = some t) : t.Inv := by
  have hcaller := h.caller
  have hone := h.abort
  have hjob := fun k j hj => (h.job k j hj).congr (t := t)
  rw [CallerOk] at hcaller
  cases e with
  | create clusters result =>
    obtain ⟨hidle, hstep⟩ := Option.ite_none_right_eq_some.mp hstep
    cases hstep
    rw [hidle] at hcaller
    refine ⟨?_, ?_, fun k j hj => ?_, ?_, fun k hk => ?_, fun st k hk => ?_⟩
    · rw [Semaphore.held_append]
      exact h.thread
    · rw [Semaphore.held_append]
      exact hone
    · dsimp only at hj
      rw [List.getElem?_append] at hj
      split at hj
      · exact hjob k j hj rfl rfl rfl rfl
      next hge =>
        rw [List.getElem?_singleton] at hj
        split at hj
        next hzero =>
          cases hj
          obtain rfl : k = s.jobs.length := by omega
          exact (JobOk.created h clusters result).congr rfl rfl rfl rfl
        · cases hj
    · rw [CallerOk, hidle]
      exact hcaller
    · rw [List.length_append]
      exact Nat.lt_add_right 1 (h.statsOf_lt k hk)
    · rw [List.length_append]
      exact Nat.lt_add_right 1 (h.report_lt st k hk)
  | abort =>
    obtain ⟨hidle, hstep⟩ := Option.ite_none_right_eq_some.mp hstep
    cases hstep
    rw [hidle] at hcaller hone
    exact ⟨h.thread, hone, fun k j hj => hjob k j hj rfl rfl rfl rfl, hcaller, h.statsOf_lt,
      h.report_lt⟩
  | status =>
    obtain ⟨hidle, hstep⟩ := Option.ite_none_right_eq_some.mp hstep
    cases hstep
    refine ⟨h.thread, hone, fun k j hj => ?_, h.caller, h.statsOf_lt, fun st k hk => ?_⟩
    · exact (h.job k j hj).reported (hok j (List.mem_of_getElem? hj)) rfl rfl rfl rfl
    · exact h.statsOf_lt k (Prod.ext_iff.mp (Option.some.inj hk)).2
  | call => exact callStep_inv h hok hstep
  | job k ok =>
    obtain ⟨j, hj, hstep⟩ := Option.bind_eq_some_iff.mp hstep
    obtain ⟨hwrite, hsignal⟩ := hok j hj
    exact jobStep_inv h hj hwrite hsignal hstep

/-! ### The claim about the control -/

/-- A job that has the semaphore of the threads can make a step when the other semaphore is free,
and one that has both can make a step in any case. -/
theorem jobStep_isSome (hholds : j.place.holdsThread = true)
    (hfree : s.abortSema = true ∨ j.place.holdsAbort = true) :
    ∃ t, s.jobStep k j true = some t := by
  rw [jobStep]
  cases hplace : j.place with
  | start | gone =>
    rw [hplace] at hholds
    cases hholds
  | locks =>
    rw [hplace] at hfree
    exact ⟨_, if_pos (hfree.resolve_right Bool.false_ne_true)⟩
  | cluster =>
    rw [hplace] at hfree
    dsimp only
    split
    · exact ⟨_, rfl⟩
    · exact ⟨_, if_pos (hfree.resolve_right Bool.false_ne_true)⟩
  | _ => exact ⟨_, rfl⟩

theorem step_of_job (hj : j ∈ s.jobs) (hstep : ∀ k, ∃ t, s.jobStep k j true = some t) :
    ∃ e t, e.ofThread = true ∧ step s e = some t := by
  obtain ⟨k, hk⟩ := List.getElem?_of_mem hj
  obtain ⟨t, ht⟩ := hstep k
  exact ⟨.job k true, t, rfl, Option.bind_eq_some_iff.mpr ⟨j, hk, ht⟩⟩

theorem step_of_call (hstep : ∃ t, s.callStep = some t) :
    ∃ e t, e.ofThread = true ∧ step s e = some t :=
  hstep.imp' (fun _ => Event.call) fun t ht => ⟨t, rfl, ht⟩

/-- **No deadlock.** -/
theorem Inv.goesOn (h : s.Inv) (hbusy : s.caller ≠ .idle ∨ ∃ j ∈ s.jobs, j.place ≠ .gone) :
    ∃ e t, e.ofThread = true ∧ step s e = some t := by
  cases hsema : s.abortSema with
  | false =>
    -- who has the semaphore goes on
    cases hholds : s.caller.holdsAbort with
    | true =>
      refine step_of_call ?_
      cases hcall : s.caller <;> rw [hcall] at hholds <;> cases hholds
      · exact ⟨_, by rw [callStep, hcall]⟩
      · exact ⟨_, by rw [callStep, hcall]⟩
    | false =>
      have hone := h.abort
      rw [hholds, hsema] at hone
      simp only [Bool.toNat_false, Nat.add_zero] at hone
      obtain ⟨j, hj, hj'⟩ := Semaphore.exists_holder (hone ▸ Nat.one_pos)
      exact step_of_job hj fun k => jobStep_isSome (Place.holdsThread_of_holdsAbort hj') (.inr hj')
  | true =>
    have hgoes : ∀ j ∈ s.jobs, j.place.holdsThread = true →
        ∃ e t, e.ofThread = true ∧ step s e = some t := fun j hj hholds =>
      step_of_job hj fun k => jobStep_isSome hholds (.inl hsema)
    have hcaller := h.caller
    rw [CallerOk] at hcaller
    cases hcall : s.caller with
    | idle =>
      obtain ⟨j, hj, hplace⟩ := hbusy.resolve_left (not_not_intro hcall)
      cases hholds : j.place.holdsThread with
      | true => exact hgoes j hj hholds
      | false =>
        have hstart := (Place.eq_of_holdsThread hholds).resolve_right hplace
        cases hthread : s.threadSema with
        | true => exact step_of_job hj fun k => ⟨_, by rw [jobStep, hstart]; exact if_pos hthread⟩
        | false =>
          have hone := h.thread
          rw [hthread] at hone
          obtain ⟨i, hi, hholds⟩ := Semaphore.exists_holder (hone ▸ Nat.one_pos)
          exact hgoes i hi hholds
    | locks => exact step_of_call ⟨_, by rw [callStep, hcall]; exact if_pos hsema⟩
    | awaits =>
      rw [hcall] at hcaller
      obtain hfinished | ⟨-, j, hj, hanswers⟩ := hcaller
      · exact step_of_call ⟨_, by rw [callStep, hcall]; exact if_pos hfinished⟩
      · exact hgoes j hj (Job.holdsThread_of_answers hanswers)
    | _ => exact step_of_call ⟨_, by rw [callStep, hcall]⟩

/-- A state that is reached without harm is controlled. -/
theorem Inv.controlled (h : s.Inv) : s.Controlled where
  abortSema hjobs hcall := by
    have hone := h.abort
    rw [Semaphore.held_eq_zero _ fun j hj => by rw [hjobs j hj]; rfl, hcall] at hone
    cases hsema : s.abortSema with
    | true => rfl
    | false =>
      rw [hsema] at hone
      cases hone
  threadSema hjobs := by
    have hone := h.thread
    rw [Semaphore.held_eq_zero _ fun j hj => by rw [hjobs j hj]; rfl] at hone
    cases hsema : s.threadSema with
    | true => rfl
    | false =>
      rw [hsema] at hone
      cases hone
  goesOn := h.goesOn
  ends es t hes hrun := ends_of_work hes hrun
  honest st k j hreport hj hstopped havail := ((h.job k j hj).report st hreport havail).2 hstopped

/-- **The control of the jobs.** In every state of a run whose steps do no harm, the semaphores are
free when no thread has them, a call that is served returns, and a job that was aborted or failed is
not reported as one without an error. -/
theorem runs_controlled (es : List Event) (s : Jobs)
    (hok : Transition.RunOk step Undisturbed init es)
    (hrun : Transition.run step init es = some s) : s.Controlled :=
  (Transition.run_invariant_of_runOk step_inv inv_init hok hrun).controlled

/-- The code of a write of `vmc_mccopy`. -/
def copyCode : ErrorCode := ⟨-103, by decide⟩

/-- A copy of two clusters that is aborted after the first one. -/
def abortedRun : List Event :=
  .create [copyCode, copyCode] none :: List.replicate 10 (Event.job 0 true) ++
    .abort :: List.replicate 4 Event.call ++ List.replicate 7 (Event.job 0 true) ++
      [Event.call, .call, .status, .create [copyCode] none, .job 1 true]

theorem runs_controlled_abortedRun : ∃ s : Jobs, Transition.run step init abortedRun = some s ∧
    s.Controlled ∧ s.caller = .idle ∧ s.report = some (⟨.avail, -1000⟩, some 0) := by
  refine ⟨_, rfl, runs_controlled abortedRun _ (by decide +kernel) rfl, ?_, ?_⟩
  · rfl
  · rfl

/-- A copy of one cluster whose write fails. -/
def failedRun : List Event :=
  .create [copyCode] none :: List.replicate 8 (Event.job 0 true) ++ .job 0 false ::
    List.replicate 4 (Event.job 0 true)

/-- The semaphore of the clusters is taken, and all threads are gone. -/
theorem not_runs_controlled :
    ¬∀ es s, Transition.run step init es = some s → s.Controlled := by
  intro h
  have hfree := (h failedRun _ rfl).abortSema (by decide) rfl
  cases hfree

end Jobs

end Vmc

end OpenPS2Loader
