import Mathlib.Data.List.Basic
import OpenPS2Loader.Lib.Transition

/-!
# The run of one party

A machine whose steps give answers serves several parties. A party is not disturbed by the others
when its answers are those of the run in which only its own events happen. That follows from a
relation between a state of the whole run and a state of the party's own run: an event of the party
gets the same answer in related states and leaves related ones, and an event of another party keeps
the relation.

The hypotheses on the events are those of `Transition.RunOk`, on an event in the state it happens
in.
-/

namespace OpenPS2Loader

namespace Transition

variable {σ τ ε ο : Type*}

/-- Feed the events to a step function with answers. The log has each event with its answer. -/
def runLog (step : σ → ε → Option (σ × ο)) : σ → List ε → Option (σ × List (ε × ο))
  | s, [] => some (s, [])
  | s, e :: es => (step s e).bind fun r => (runLog step r.1 es).map fun t => (t.1, (e, r.2) :: t.2)

/-- The step function without the answers. -/
def quiet (step : σ → ε → Option (σ × ο)) (s : σ) (e : ε) : Option σ := (step s e).map Prod.fst

theorem runLog_cons_of_eq_some {step : σ → ε → Option (σ × ο)} {s s' : σ} {e : ε} {o : ο}
    {es : List ε} (h : step s e = some (s', o)) :
    runLog step s (e :: es) = (runLog step s' es).map fun t => (t.1, (e, o) :: t.2) := by
  rw [runLog, h]
  rfl

theorem runLog_cons_eq_some {step : σ → ε → Option (σ × ο)} {s t : σ} {e : ε} {es : List ε}
    {log : List (ε × ο)} (h : runLog step s (e :: es) = some (t, log)) :
    ∃ s' o log', step s e = some (s', o) ∧ runLog step s' es = some (t, log') ∧
      log = (e, o) :: log' := by
  obtain ⟨⟨s', o⟩, hstep, hrest⟩ := Option.bind_eq_some_iff.mp h
  obtain ⟨⟨t', log'⟩, hrun, heq⟩ := Option.map_eq_some_iff.mp hrest
  cases heq
  exact ⟨s', o, log', hstep, hrun, rfl⟩

/-- **The rule for machines that do not stop.** -/
theorem runLog_total {step : σ → ε → Option (σ × ο)} {P : σ → Prop}
    (hstep : ∀ s e, P s → ∃ s' o, step s e = some (s', o) ∧ P s') {es : List ε} {s : σ} (hs : P s) :
    ∃ t log, runLog step s es = some (t, log) ∧ P t := by
  induction es generalizing s with
  | nil => exact ⟨s, [], rfl, hs⟩
  | cons e es ih =>
    obtain ⟨s', o, hs', hP⟩ := hstep s e hs
    obtain ⟨t, log, hrun, hPt⟩ := ih hP
    refine ⟨t, (e, o) :: log, ?_, hPt⟩
    rw [runLog_cons_of_eq_some hs', hrun]
    rfl

/-- **The rule for the run of one party.** -/
theorem runLog_filter {step : σ → ε → Option (σ × ο)} {step' : τ → ε → Option (τ × ο)}
    (own : ε → Bool) {Ok : σ → ε → Prop} {R : σ → τ → Prop}
    (hown : ∀ s t e s' o, R s t → own e = true → step s e = some (s', o) →
      ∃ t', step' t e = some (t', o) ∧ R s' t')
    (hother : ∀ s t e s' o, R s t → own e = false → Ok s e → step s e = some (s', o) → R s' t)
    {es : List ε} {s s' : σ} {t : τ} {log : List (ε × ο)} (hR : R s t)
    (hok : RunOk (quiet step) Ok s es) (hrun : runLog step s es = some (s', log)) :
    ∃ t', runLog step' t (es.filter own) = some (t', log.filter fun x => own x.1) ∧ R s' t' := by
  induction es generalizing s t log with
  | nil =>
    cases hrun
    exact ⟨t, rfl, hR⟩
  | cons e es ih =>
    obtain ⟨s₁, o, log₁, hstep, hrest, rfl⟩ := runLog_cons_eq_some hrun
    have hquiet : quiet step s e = some s₁ := by rw [quiet, hstep, Option.map_some]
    rw [runOk_cons_of_eq_some hquiet] at hok
    cases hmine : own e with
    | true =>
      obtain ⟨t₁, hstep', hR₁⟩ := hown s t e s₁ o hR hmine hstep
      obtain ⟨t', hrun', hR'⟩ := ih hR₁ hok.2 hrest
      refine ⟨t', ?_, hR'⟩
      simp only [List.filter_cons, hmine, if_true]
      rw [runLog_cons_of_eq_some hstep', hrun']
      rfl
    | false =>
      obtain ⟨t', hrun', hR'⟩ := ih (hother s t e s₁ o hR hmine hok.1 hstep) hok.2 hrest
      refine ⟨t', ?_, hR'⟩
      simp only [List.filter_cons, hmine, Bool.false_eq_true, if_false]
      exact hrun'

end Transition

end OpenPS2Loader
