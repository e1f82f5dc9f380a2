import Mathlib

/-!
# Runs of a labelled transition relation

A system takes steps, each with a label, in any order its relation allows.  `invariant`
and `history` are the rules for what every run keeps, the second with the labels seen so
far; `simulation` carries every run over to a second system.
-/

set_option autoImplicit false

namespace LabelledRuns

variable {σ τ ε : Type} {step : σ → ε → σ → Prop}

inductive Run (step : σ → ε → σ → Prop) : σ → List ε → σ → Prop
  | nil (state : σ) : Run step state [] state
  | cons {state next final : σ} {event : ε} {events : List ε}
      (stepped : step state event next) (ran : Run step next events final) :
      Run step state (event :: events) final

namespace Run

theorem single {state next : σ} {event : ε} (stepped : step state event next) :
    Run step state [event] next :=
  Run.cons stepped (Run.nil next)

theorem append {start middle final : σ} {front back : List ε} (first : Run step start front middle)
    (second : Run step middle back final) : Run step start (front ++ back) final := by
  induction first with
  | nil state => exact second
  | cons stepped _ inductionHypothesis => exact Run.cons stepped (inductionHypothesis second)

theorem of_append {start final : σ} {front back : List ε}
    (ran : Run step start (front ++ back) final) :
    ∃ middle, Run step start front middle ∧ Run step middle back final := by
  induction front generalizing start with
  | nil => exact ⟨start, Run.nil start, ran⟩
  | cons event front inductionHypothesis =>
      cases ran with
      | cons stepped rest =>
          obtain ⟨middle, first, second⟩ := inductionHypothesis rest
          exact ⟨middle, Run.cons stepped first, second⟩

theorem invariant (kept : σ → Prop)
    (keeps : ∀ state event next, kept state → step state event next → kept next)
    {start final : σ} {events : List ε} (atStart : kept start)
    (ran : Run step start events final) : kept final := by
  induction ran with
  | nil state => exact atStart
  | cons stepped _ inductionHypothesis => exact inductionHypothesis (keeps _ _ _ atStart stepped)

theorem history_from {motive : List ε → σ → Prop}
    (keeps : ∀ events state event next, motive events state → step state event next →
      motive (events ++ [event]) next)
    {start final : σ} {events : List ε} (ran : Run step start events final) (earlier : List ε)
    (holds : motive earlier start) : motive (earlier ++ events) final := by
  induction ran generalizing earlier with
  | nil state => rwa [List.append_nil]
  | @cons state next final event events stepped _ inductionHypothesis =>
      have after := inductionHypothesis (earlier ++ [event]) (keeps _ _ _ _ holds stepped)
      rwa [List.append_assoc, List.singleton_append] at after

/-- What holds at the start and is kept by every step holds after every run, along with the
labels of the run. -/
theorem history (motive : List ε → σ → Prop)
    (keeps : ∀ events state event next, motive events state → step state event next →
      motive (events ++ [event]) next)
    {start final : σ} {events : List ε} (atStart : motive [] start)
    (ran : Run step start events final) : motive events final :=
  history_from keeps ran [] atStart

/-- A view of the states that takes every step to a step takes every run to a run. -/
theorem simulation {step' : τ → ε → τ → Prop} (kept : σ → Prop) (view : σ → τ)
    (keeps : ∀ state event next, kept state → step state event next → kept next)
    (simulates : ∀ state event next, kept state → step state event next →
      step' (view state) event (view next))
    {start final : σ} {events : List ε} (atStart : kept start)
    (ran : Run step start events final) : Run step' (view start) events (view final) := by
  induction ran with
  | nil state => exact Run.nil (view state)
  | cons stepped _ inductionHypothesis =>
      exact Run.cons (simulates _ _ _ atStart stepped)
        (inductionHypothesis (keeps _ _ _ atStart stepped))

end Run

end LabelledRuns
