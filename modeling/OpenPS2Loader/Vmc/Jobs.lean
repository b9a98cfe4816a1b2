import OpenPS2Loader.Lib.Semaphore
import OpenPS2Loader.Lib.Transition

/-!
# The jobs that create virtual memory cards

`genvmc` serves one call at a time: `genvmc_io_sema` is taken for the time of a call. `vmc_create`
starts a thread and returns. The thread runs its job under `genvmc_thread_sema`, so that one job
follows the other, and writes each cluster under `genvmc_abort_sema`, after a look at the flag
`genvmc_abort`. `vmc_abort` raises the flag and waits for the job to signal a semaphore that
`vmc_abort` creates for this one wait. A step of the machine is a wait for a semaphore or a signal,
or one access to a shared variable.

A job is a list of clusters and a result: it writes the clusters, and returns the result, unless it
is aborted or a write fails. What the clusters are is the matter of `vmc_mcformat` and `vmc_mccopy`.

Three things go wrong. `mc_writecluster` leaves `genvmc_abort_sema` taken when a write fails. An
abort is lost when the flag is raised while no job will look at it: before a job lowers the flag,
after the last cluster, or without a job. And the signal of the job is lost when it comes before the
semaphore is created.

## Main definitions

* `Vmc.Jobs`, `Vmc.Jobs.Event`, `Vmc.Jobs.step` — the threads
* `Vmc.Jobs.Controlled` — the semaphores are free, calls return, and a job that failed says so
* `Vmc.Jobs.Undisturbed` — the steps that do no harm

## Main results

* `Vmc.Jobs.ends_of_work` — the threads come to an end
-/

namespace OpenPS2Loader

namespace Vmc

/-- What `vmc_mcformat` and `vmc_mccopy` return when they fail on their own. -/
abbrev ErrorCode := { r : ℤ // -1000 < r ∧ r < 0 }

/-- Where the thread of a job is: the names are those of the next step. -/
inductive Place
  /-- `WaitSema(genvmc_thread_sema)` -/
  | start
  /-- `WaitSema(genvmc_abort_sema)` -/
  | locks
  /-- `genvmc_abort = 0` -/
  | resets
  /-- `SignalSema(genvmc_abort_sema)` -/
  | unlocks
  /-- `genvmc_stats.VMC_status = GENVMC_STAT_BUSY` -/
  | busy
  /-- `genvmc_stats.VMC_error = 0` -/
  | clears
  /-- `WaitSema(genvmc_abort_sema)` for the next cluster, or the return of the job -/
  | cluster
  /-- `if (genvmc_abort)` -/
  | checks (code : ErrorCode)
  /-- `SignalSema(genvmc_abort_sema)`, and -2 is returned -/
  | refused
  /-- `write(fd, buf, size)` -/
  | writes (code : ErrorCode)
  /-- `SignalSema(genvmc_abort_sema)`, and 0 is returned -/
  | written
  /-- `genvmc_stats.VMC_status = GENVMC_STAT_AVAIL` -/
  | avail (r : ℤ)
  /-- `genvmc_stats.VMC_error = r` -/
  | error (r : ℤ)
  /-- `SignalSema(genvmc_abort_finished_sema)` after an abort -/
  | finished (r : ℤ)
  /-- `SignalSema(genvmc_thread_sema)` -/
  | exit
  | gone
  deriving DecidableEq

namespace Place

/-- Between `WaitSema(genvmc_thread_sema)` and its signal. -/
@[simp] def holdsThread : Place → Bool
  | start | gone => false
  | _ => true

/-- Between `WaitSema(genvmc_abort_sema)` and its signal. -/
@[simp] def holdsAbort : Place → Bool
  | resets | unlocks | checks _ | refused | writes _ | written => true
  | _ => false

/-- The job has the semaphore of the threads, and no result yet. -/
@[simp] def atWork : Place → Bool
  | locks | resets | unlocks | busy | clears | cluster | checks _ | refused | writes _ | written =>
    true
  | _ => false

/-- The result of a job that failed is stored in part. -/
def midReport : Place → Bool
  | error r => decide (r < 0)
  | _ => false

@[simp] def isWrite : Place → Bool
  | writes _ => true
  | _ => false

end Place

/-- The thread of a job. `left` has the clusters that are still to be written, each as the value
that the job returns when the write fails, and `result` is what is returned after the last one.
`stopped` is not a variable of the source: the job was aborted at work, or failed. -/
structure Job where
  left : List ErrorCode
  result : Option ErrorCode
  place : Place
  stopped : Bool
  deriving DecidableEq

namespace Job

/-- The thread goes on. -/
@[simp] def goes (j : Job) (p : Place) : Job := { j with place := p }

/-- `vmc_mcformat` or `vmc_mccopy` returns. -/
@[simp] def returns (j : Job) (r : ℤ) : Job :=
  { j with place := .avail r, stopped := j.stopped || decide (r < 0) }

/-- The flag is raised. -/
def abort (j : Job) : Job := { j with stopped := j.stopped || j.place.atWork }

/-- The job looks at the flag before it ends. -/
def listens (j : Job) : Bool :=
  match j.place with
  | .busy | .clears | .cluster => !j.left.isEmpty
  | _ => false

/-- The steps that the thread of a job has still to make. -/
def work (j : Job) : ℕ :=
  match j.place with
  | .start => 11 + 4 * j.left.length
  | .locks => 10 + 4 * j.left.length
  | .resets => 9 + 4 * j.left.length
  | .unlocks => 8 + 4 * j.left.length
  | .busy => 7 + 4 * j.left.length
  | .clears => 6 + 4 * j.left.length
  | .cluster => 5 + 4 * j.left.length
  | .checks _ => 8 + 4 * j.left.length
  | .refused => 5
  | .writes _ => 7 + 4 * j.left.length
  | .written => 6 + 4 * j.left.length
  | .avail _ => 4
  | .error _ => 3
  | .finished _ => 2
  | .exit => 1
  | .gone => 0

end Job

/-- `VMC_status` -/
inductive VmcStatus
  | avail
  | busy
  deriving DecidableEq

/-- `VMC_status` and `VMC_error` of a `statusVMCparam_t`. -/
structure Stats where
  status : VmcStatus
  error : ℤ
  deriving DecidableEq

/-- Where the caller is in `vmc_abort`: the names are those of the next step. -/
inductive Caller
  /-- no call is served: `genvmc_io_sema` is free -/
  | idle
  /-- `WaitSema(genvmc_abort_sema)` -/
  | locks
  /-- `genvmc_abort = 1` -/
  | raises
  /-- `SignalSema(genvmc_abort_sema)` -/
  | unlocks
  /-- `genvmc_abort_finished_sema = CreateMutex(IOP_MUTEX_LOCKED)` -/
  | creates
  /-- `WaitSema(genvmc_abort_finished_sema)` -/
  | awaits
  /-- `DeleteSema(genvmc_abort_finished_sema)` -/
  | deletes
  deriving DecidableEq

namespace Caller

/-- Between `WaitSema(genvmc_abort_sema)` and its signal. -/
def holdsAbort : Caller → Bool
  | raises | unlocks => true
  | _ => false

/-- The steps of the call that are still to be made. -/
def work : Caller → ℕ
  | idle => 0
  | locks => 6
  | raises => 5
  | unlocks => 4
  | creates => 3
  | awaits => 2
  | deletes => 1

end Caller

/-- The semaphores (`true` when free; there is no semaphore of the abort outside of `vmc_abort`),
the flag, the statistics, the threads and the caller. `statsOf` and `report` are not variables of
the source: the job that the statistics are of, and what `vmc_status` copied last, with its job. -/
structure Jobs where
  threadSema : Bool
  abortSema : Bool
  finishedSema : Option Bool
  abort : Bool
  stats : Stats
  jobs : List Job
  caller : Caller
  statsOf : Option ℕ
  report : Option (Stats × Option ℕ)
  deriving DecidableEq

namespace Jobs

/-- After `genvmc_init`. -/
def init : Jobs := ⟨true, true, none, false, ⟨.avail, 0⟩, [], .idle, none, none⟩

/-- `genvmc_devctl` with one of its commands, a step of `vmc_abort`, or a step of a job. `ok` says
of a write that all bytes were written. -/
inductive Event
  | create (clusters : List ErrorCode) (result : Option ErrorCode)
  | abort
  | status
  | call
  | job (k : ℕ) (ok : Bool)
  deriving DecidableEq

def put (s : Jobs) (k : ℕ) (j : Job) : Jobs := { s with jobs := s.jobs.set k j }

/-- `VMC_create_thread`, `mc_writecluster` -/
def jobStep (s : Jobs) (k : ℕ) (j : Job) (ok : Bool) : Option Jobs :=
  match j.place with
  | .start =>
    if s.threadSema then some ({ s with threadSema := false }.put k (j.goes .locks)) else none
  | .locks =>
    if s.abortSema then some ({ s with abortSema := false }.put k (j.goes .resets)) else none
  | .resets => some ({ s with abort := false }.put k (j.goes .unlocks))
  | .unlocks => some ({ s with abortSema := true }.put k (j.goes .busy))
  | .busy =>
    some ({ s with stats.status := .busy, statsOf := some k }.put k (j.goes .clears))
  | .clears => some ({ s with stats.error := 0 }.put k (j.goes .cluster))
  | .cluster =>
    match j.left with
    | [] => some (s.put k (j.returns (j.result.elim 0 Subtype.val)))
    | code :: left =>
      if s.abortSema then
        some ({ s with abortSema := false }.put k ({ j with left := left }.goes (.checks code)))
      else none
  | .checks code => some (s.put k (j.goes (if s.abort then .refused else .writes code)))
  | .refused => some ({ s with abortSema := true }.put k (j.returns (-1000)))
  | .writes code =>
    -- the semaphore is not signalled when the write fails
    some (s.put k (if ok then j.goes .written else j.returns code))
  | .written => some ({ s with abortSema := true }.put k (j.goes .cluster))
  | .avail r => some ({ s with stats.status := .avail }.put k (j.goes (.error r)))
  | .error r => some ({ s with stats.error := r }.put k (j.goes (.finished r)))
  | .finished r =>
    -- a semaphore that does not exist is not signalled
    some ({ s with finishedSema := if r = -1000 then s.finishedSema.map fun _ => true
      else s.finishedSema }.put k (j.goes .exit))
  | .exit => some ({ s with threadSema := true }.put k (j.goes .gone))
  | .gone => none

/-- `vmc_abort` -/
def callStep (s : Jobs) : Option Jobs :=
  match s.caller with
  | .idle => none
  | .locks => if s.abortSema then some { s with abortSema := false, caller := .raises } else none
  | .raises => some { s with abort := true, jobs := s.jobs.map Job.abort, caller := .unlocks }
  | .unlocks => some { s with abortSema := true, caller := .creates }
  | .creates => some { s with finishedSema := some false, caller := .awaits }
  | .awaits =>
    if s.finishedSema = some true then
      some { s with finishedSema := some false, caller := .deletes }
    else none
  | .deletes => some { s with finishedSema := none, caller := .idle }

def step (s : Jobs) : Event → Option Jobs
  | .create clusters result =>
    if s.caller = .idle then some { s with jobs := s.jobs ++ [⟨clusters, result, .start, false⟩] }
    else none
  | .abort => if s.caller = .idle then some { s with caller := .locks } else none
  | .status =>
    if s.caller = .idle then some { s with report := some (s.stats, s.statsOf) } else none
  | .call => s.callStep
  | .job k ok => s.jobs[k]?.bind fun j => s.jobStep k j ok

/-! ### What is asked for -/

/-- The steps of the threads, and not those that make new ones. -/
def Event.ofThread : Event → Bool
  | call | job _ _ => true
  | _ => false

/-- The steps that the threads have still to make. -/
def work (s : Jobs) : ℕ := Semaphore.held Job.work s.jobs + s.caller.work

/-- What the control of the jobs is for. -/
structure Controlled (s : Jobs) : Prop where
  /-- `genvmc_abort_sema` is free when no thread has it -/
  abortSema : (∀ j ∈ s.jobs, j.place.holdsAbort = false) → s.caller.holdsAbort = false →
    s.abortSema = true
  /-- `genvmc_thread_sema` is free when no thread has it -/
  threadSema : (∀ j ∈ s.jobs, j.place.holdsThread = false) → s.threadSema = true
  /-- while a call is served or a job is not gone, some thread can make a step -/
  goesOn : s.caller ≠ .idle ∨ (∃ j ∈ s.jobs, j.place ≠ .gone) →
    ∃ e t, e.ofThread = true ∧ step s e = some t
  /-- and there is an end of such steps, so that the call returns -/
  ends : ∀ es t, (∀ e ∈ es, e.ofThread = true) → Transition.run step s es = some t →
    es.length ≤ s.work
  /-- a job that was aborted or failed is not reported as one without an error -/
  honest : ∀ st k j, s.report = some (st, some k) → s.jobs[k]? = some j → j.stopped = true →
    st.status = .avail → st.error ≠ 0

/-- The steps that do no harm: no write fails; the flag is raised while a job will look at it; a job
that was aborted does not signal before the semaphore is there; and nobody asks for the status
between the two stores of a result. -/
def Undisturbed (s : Jobs) : Event → Prop
  | .create _ _ | .abort => True
  | .status => ∀ j ∈ s.jobs, j.place.midReport = false
  | .call => s.caller = .raises → ∃ j ∈ s.jobs, j.listens = true
  | .job k ok => ∀ j ∈ s.jobs[k]?, (j.place.isWrite = true → ok = true) ∧
      (j.place = .finished (-1000) → s.finishedSema ≠ none)

instance (s : Jobs) : ∀ e, Decidable (Undisturbed s e)
  | .create _ _ => inferInstanceAs (Decidable True)
  | .abort => inferInstanceAs (Decidable True)
  | .status => inferInstanceAs (Decidable (∀ j ∈ s.jobs, j.place.midReport = false))
  | .call => inferInstanceAs (Decidable (s.caller = .raises → ∃ j ∈ s.jobs, j.listens = true))
  | .job k ok => inferInstanceAs (Decidable (∀ j ∈ s.jobs[k]?,
      (j.place.isWrite = true → ok = true) ∧ (j.place = .finished (-1000) → s.finishedSema ≠ none)))

/-! ### The steps come to an end -/

variable {s t : Jobs} {k : ℕ} {j j' : Job} {ok : Bool} {e : Event}

@[simp] theorem put_jobs (s : Jobs) (k : ℕ) (j : Job) : (s.put k j).jobs = s.jobs.set k j := rfl

/-- What a step of a job does to its thread. -/
theorem jobStep_jobs (h : s.jobStep k j ok = some t) :
    t.caller = s.caller ∧ ∃ j', t.jobs = s.jobs.set k j' ∧ j'.work < j.work := by
  rw [jobStep] at h
  cases hplace : j.place with
  | start | locks =>
    rw [hplace] at h
    obtain ⟨-, h⟩ := Option.ite_none_right_eq_some.mp h
    cases h
    exact ⟨rfl, _, rfl, by simp [Job.work, Job.goes, hplace]⟩
  | cluster =>
    rw [hplace] at h
    dsimp only at h
    split at h
    next hleft =>
      cases h
      exact ⟨rfl, _, rfl, by simp [Job.work, Job.returns, hplace, hleft]⟩
    next code left hleft =>
      obtain ⟨-, h⟩ := Option.ite_none_right_eq_some.mp h
      cases h
      exact ⟨rfl, _, rfl, by simp [Job.work, Job.goes, hplace, hleft]; omega⟩
  | checks code =>
    rw [hplace] at h
    cases h
    refine ⟨rfl, _, rfl, ?_⟩
    cases s.abort <;> simp [Job.work, Job.goes, hplace]
    omega
  | writes code =>
    rw [hplace] at h
    cases h
    refine ⟨rfl, _, rfl, ?_⟩
    cases ok <;> simp [Job.work, Job.goes, Job.returns, hplace]
    omega
  | gone =>
    rw [hplace] at h
    cases h
  | _ =>
    rw [hplace] at h
    cases h
    exact ⟨rfl, _, rfl, by simp [Job.work, Job.goes, Job.returns, hplace]⟩

theorem callStep_work (h : s.callStep = some t) : t.work < s.work := by
  rw [callStep] at h
  cases hcaller : s.caller with
  | idle =>
    rw [hcaller] at h
    cases h
  | locks | awaits =>
    rw [hcaller] at h
    obtain ⟨-, h⟩ := Option.ite_none_right_eq_some.mp h
    cases h
    simp [work, hcaller, Caller.work]
  | raises =>
    rw [hcaller] at h
    cases h
    have hheld : Semaphore.held Job.work (s.jobs.map Job.abort) = Semaphore.held Job.work s.jobs :=
      Semaphore.held_map Job.work fun _ => rfl
    simp [work, hheld, hcaller, Caller.work]
  | _ =>
    rw [hcaller] at h
    cases h
    simp [work, hcaller, Caller.work]

/-- A step of a thread is one of those that are still to be made. -/
theorem work_step (he : e.ofThread = true) (h : step s e = some t) : t.work < s.work := by
  cases e with
  | call => exact callStep_work h
  | job k ok =>
    obtain ⟨j, hj, hstep⟩ := Option.bind_eq_some_iff.mp h
    obtain ⟨hcaller, j', hjobs, hlt⟩ := jobStep_jobs hstep
    have hheld : Semaphore.held Job.work (s.jobs.set k j') + j.work =
        Semaphore.held Job.work s.jobs + j'.work := Semaphore.held_set Job.work hj
    rw [work, work, hjobs, hcaller]
    omega
  | _ => cases he

theorem ends_of_work {es : List Event} (hes : ∀ e ∈ es, e.ofThread = true)
    (hrun : Transition.run step s es = some t) : es.length ≤ s.work := by
  induction es generalizing s with
  | nil => exact Nat.zero_le _
  | cons e es ih =>
    obtain ⟨s', hstep, hrest⟩ := Transition.run_cons_eq_some.mp hrun
    have hlt := work_step (hes e List.mem_cons_self) hstep
    have hle := ih (fun e' he' => hes e' (List.mem_cons_of_mem e he')) hrest
    rw [List.length_cons]
    omega

end Jobs

end Vmc

end OpenPS2Loader
