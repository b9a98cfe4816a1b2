import Mathlib.Logic.Basic

/-!
# Runs of a partial step function

A machine is a partial step function `step : σ → ε → Option σ`: an event that is not enabled in a
state has no successor. A run feeds a list of events through it, and an invariant of one step is
an invariant of every run.

The hypotheses on the events of a run are kept apart from the machine: `run_invariant` takes a
predicate `Ok` that the step lemma may use and that every event of the run has to satisfy. Where
the hypothesis is about an event and the state it happens in, `RunOk` says it of a whole run.
-/

namespace OpenPS2Loader

namespace Transition

variable {σ ε : Type*}

/-- Feed the events to the step function, in order. `none` when one of them was not enabled. -/
def run (step : σ → ε → Option σ) : σ → List ε → Option σ
  | s, [] => some s
  | s, e :: es => (step s e).bind fun s' => run step s' es

@[simp] theorem run_nil (step : σ → ε → Option σ) (s : σ) : run step s [] = some s := rfl

theorem run_cons (step : σ → ε → Option σ) (s : σ) (e : ε) (es : List ε) :
    run step s (e :: es) = (step s e).bind fun s' => run step s' es := rfl

/-- The first step of a run that succeeds, and the rest of it. -/
theorem run_cons_eq_some {step : σ → ε → Option σ} {s t : σ} {e : ε} {es : List ε} :
    run step s (e :: es) = some t ↔ ∃ s', step s e = some s' ∧ run step s' es = some t := by
  rw [run_cons]
  exact Option.bind_eq_some_iff

theorem run_append (step : σ → ε → Option σ) (s : σ) (es fs : List ε) :
    run step s (es ++ fs) = (run step s es).bind fun t => run step t fs := by
  induction es generalizing s with
  | nil => rfl
  | cons e es ih =>
    rw [List.cons_append, run_cons, run_cons, Option.bind_assoc]
    exact congrArg _ (funext ih)

/-- **The invariant rule.** What one step keeps under `Ok`, a run of `Ok` events keeps. -/
theorem run_invariant {step : σ → ε → Option σ} {P : σ → Prop} {Ok : ε → Prop}
    (hstep : ∀ s e s', P s → Ok e → step s e = some s' → P s') {es : List ε} {s t : σ} (hs : P s)
    (hok : ∀ e ∈ es, Ok e) (hrun : run step s es = some t) : P t := by
  induction es generalizing s with
  | nil =>
    cases hrun
    exact hs
  | cons e es ih =>
    obtain ⟨s', hs', hrest⟩ := run_cons_eq_some.mp hrun
    refine ih (hstep s e s' hs (hok e (by simp)) hs') (fun e' he' => hok e' (by simp [he'])) hrest

/-- **The rule for machines that do not stop.** When every `Ok` event is enabled and keeps `P`, a
run of such events arrives at a state with `P`. -/
theorem run_total {step : σ → ε → Option σ} {P : σ → Prop} {Ok : ε → Prop}
    (hstep : ∀ s e, P s → Ok e → ∃ s', step s e = some s' ∧ P s') {es : List ε} {s : σ} (hs : P s)
    (hok : ∀ e ∈ es, Ok e) : ∃ t, run step s es = some t ∧ P t := by
  induction es generalizing s with
  | nil => exact ⟨s, rfl, hs⟩
  | cons e es ih =>
    obtain ⟨s', hs', hP⟩ := hstep s e hs (hok e (by simp))
    obtain ⟨t, ht, hPt⟩ := ih hP fun e' he' => hok e' (by simp [he'])
    exact ⟨t, run_cons_eq_some.mpr ⟨s', hs', ht⟩, hPt⟩

/-- Every event of the run satisfies `Ok` in the state it happens in. -/
def RunOk (step : σ → ε → Option σ) (Ok : σ → ε → Prop) : σ → List ε → Prop
  | _, [] => True
  | s, e :: es => Ok s e ∧
      match step s e with
      | none => True
      | some s' => RunOk step Ok s' es

instance decidableRunOk (step : σ → ε → Option σ) (Ok : σ → ε → Prop)
    [∀ s e, Decidable (Ok s e)] : ∀ s es, Decidable (RunOk step Ok s es)
  | _, [] => inferInstanceAs (Decidable True)
  | s, e :: es =>
    letI : Decidable (match step s e with
        | none => True
        | some s' => RunOk step Ok s' es) :=
      match step s e with
      | none => inferInstanceAs (Decidable True)
      | some s' => decidableRunOk step Ok s' es
    inferInstanceAs (Decidable (_ ∧ _))

theorem runOk_cons_of_eq_some {step : σ → ε → Option σ} {Ok : σ → ε → Prop} {s s' : σ} {e : ε}
    {es : List ε} (h : step s e = some s') :
    RunOk step Ok s (e :: es) ↔ Ok s e ∧ RunOk step Ok s' es := by
  rw [RunOk, h]

theorem runOk_append {step : σ → ε → Option σ} {Ok : σ → ε → Prop} {s : σ} {es fs : List ε} :
    RunOk step Ok s (es ++ fs) ↔
      RunOk step Ok s es ∧ ∀ t, run step s es = some t → RunOk step Ok t fs := by
  induction es generalizing s with
  | nil => simp [RunOk]
  | cons e es ih =>
    rw [List.cons_append]
    cases hs : step s e with
    | none => simp [RunOk, run_cons, hs]
    | some s' =>
      rw [runOk_cons_of_eq_some hs, runOk_cons_of_eq_some hs, ih, and_assoc, run_cons, hs]
      rfl

theorem runOk_of_forall {step : σ → ε → Option σ} {Ok : σ → ε → Prop} {s : σ} {es : List ε}
    (h : ∀ e ∈ es, ∀ s, Ok s e) : RunOk step Ok s es := by
  induction es generalizing s with
  | nil => trivial
  | cons e es ih =>
    refine ⟨h e List.mem_cons_self s, ?_⟩
    split
    · trivial
    · exact ih fun e' he' => h e' (List.mem_cons_of_mem e he')

theorem RunOk.imp {step : σ → ε → Option σ} {Ok Ok' : σ → ε → Prop} {s : σ} {es : List ε}
    (h : RunOk step Ok s es) (himp : ∀ s e, Ok s e → Ok' s e) : RunOk step Ok' s es := by
  induction es generalizing s with
  | nil => trivial
  | cons e es ih =>
    refine ⟨himp s e h.1, ?_⟩
    cases hs : step s e with
    | none => trivial
    | some s' => exact ih ((runOk_cons_of_eq_some hs).mp h).2

theorem RunOk.and {step : σ → ε → Option σ} {Ok Ok' : σ → ε → Prop} {s : σ} {es : List ε}
    (h : RunOk step Ok s es) (h' : RunOk step Ok' s es) :
    RunOk step (fun s e => Ok s e ∧ Ok' s e) s es := by
  induction es generalizing s with
  | nil => trivial
  | cons e es ih =>
    refine ⟨⟨h.1, h'.1⟩, ?_⟩
    cases hs : step s e with
    | none => trivial
    | some s' => exact ih ((runOk_cons_of_eq_some hs).mp h).2 ((runOk_cons_of_eq_some hs).mp h').2

/-- **The invariant rule** for hypotheses on events in their states. -/
theorem run_invariant_of_runOk {step : σ → ε → Option σ} {P : σ → Prop} {Ok : σ → ε → Prop}
    (hstep : ∀ s e s', P s → Ok s e → step s e = some s' → P s') {es : List ε} {s t : σ} (hs : P s)
    (hok : RunOk step Ok s es) (hrun : run step s es = some t) : P t := by
  induction es generalizing s with
  | nil =>
    cases hrun
    exact hs
  | cons e es ih =>
    obtain ⟨s', hs', hrest⟩ := run_cons_eq_some.mp hrun
    rw [runOk_cons_of_eq_some hs'] at hok
    exact ih (hstep s e s' hs hok.1 hs') hok.2 hrest

/-- **The rule for machines that do not stop**, for hypotheses on events in their states. -/
theorem run_total_of_runOk {step : σ → ε → Option σ} {P : σ → Prop} {Ok : σ → ε → Prop}
    (hstep : ∀ s e, P s → Ok s e → ∃ s', step s e = some s' ∧ P s') {es : List ε} {s : σ} (hs : P s)
    (hok : RunOk step Ok s es) : ∃ t, run step s es = some t ∧ P t := by
  induction es generalizing s with
  | nil => exact ⟨s, rfl, hs⟩
  | cons e es ih =>
    obtain ⟨s', hs', hP⟩ := hstep s e hs hok.1
    rw [runOk_cons_of_eq_some hs'] at hok
    obtain ⟨t, ht, hPt⟩ := ih hP hok.2
    exact ⟨t, run_cons_eq_some.mpr ⟨s', hs', ht⟩, hPt⟩

end Transition

end OpenPS2Loader
