import Mathlib

/-!
# Runs of a machine that answers

A machine takes events one after the other; each step answers, or stops the
machine (`none`).  `run_induction` is the invariant rule for whole runs, over the
events taken and the answers given so far, `run_forall₂` relates each event to its
answer, `run_simulation` compares two machines, and `run_returns` is the rule for
showing that a run is not stopped.
-/

set_option autoImplicit false

namespace EventRuns

variable {σ ε ω : Type} {step : σ → ε → Option (σ × ω)}

def run (step : σ → ε → Option (σ × ω)) (state : σ) : List ε → Option (σ × List ω)
  | [] => some (state, [])
  | event :: rest => do
      let (next, answer) ← step state event
      let (final, answers) ← run step next rest
      return (final, answer :: answers)

theorem run_cons_eq_some_iff {state final : σ} {event : ε} {rest : List ε} {answers : List ω} :
    run step state (event :: rest) = some (final, answers) ↔
      ∃ next answer later, step state event = some (next, answer) ∧
        run step next rest = some (final, later) ∧ answers = answer :: later := by
  rw [run, Option.bind_eq_bind, Option.bind_eq_some_iff]
  constructor
  · rintro ⟨⟨next, answer⟩, stepped, ran⟩
    rw [Option.bind_eq_bind, Option.bind_eq_some_iff] at ran
    obtain ⟨⟨_, later⟩, ranRest, returned⟩ := ran
    obtain ⟨rfl, rfl⟩ := Prod.mk.inj (Option.some.inj returned)
    exact ⟨next, answer, later, stepped, ranRest, rfl⟩
  · rintro ⟨next, answer, later, stepped, ranRest, rfl⟩
    exact ⟨(next, answer), stepped, by simp only [ranRest]; rfl⟩

theorem run_append_eq_some_iff {state final : σ} {front back : List ε} {answers : List ω} :
    run step state (front ++ back) = some (final, answers) ↔
      ∃ middle earlier later, run step state front = some (middle, earlier) ∧
        run step middle back = some (final, later) ∧ answers = earlier ++ later := by
  induction front generalizing state answers with
  | nil =>
      constructor
      · intro ran
        exact ⟨state, [], answers, rfl, ran, rfl⟩
      · rintro ⟨middle, earlier, later, nothing, ran, rfl⟩
        obtain ⟨rfl, rfl⟩ := Prod.mk.inj (Option.some.inj nothing)
        exact ran
  | cons event rest inductionHypothesis =>
      rw [List.cons_append, run_cons_eq_some_iff]
      constructor
      · rintro ⟨next, answer, _, stepped, ran, rfl⟩
        obtain ⟨middle, earlier, later, ranFront, ranBack, rfl⟩ := inductionHypothesis.mp ran
        exact ⟨middle, answer :: earlier, later,
          run_cons_eq_some_iff.mpr ⟨next, answer, earlier, stepped, ranFront, rfl⟩, ranBack, rfl⟩
      · rintro ⟨middle, _, later, ranFront, ranBack, rfl⟩
        obtain ⟨next, answer, earlier, stepped, ranRest, rfl⟩ := run_cons_eq_some_iff.mp ranFront
        exact ⟨next, answer, earlier ++ later, stepped,
          inductionHypothesis.mpr ⟨middle, earlier, later, ranRest, ranBack, rfl⟩, rfl⟩

theorem run_concat_eq_some_iff {state final : σ} {events : List ε} {event : ε} {answers : List ω} :
    run step state (events ++ [event]) = some (final, answers) ↔
      ∃ middle earlier answer, run step state events = some (middle, earlier) ∧
        step middle event = some (final, answer) ∧ answers = earlier ++ [answer] := by
  rw [run_append_eq_some_iff]
  constructor
  · rintro ⟨middle, earlier, _, ran, last, rfl⟩
    obtain ⟨_, answer, _, stepped, nothing, rfl⟩ := run_cons_eq_some_iff.mp last
    obtain ⟨rfl, rfl⟩ := Prod.mk.inj (Option.some.inj nothing)
    exact ⟨middle, earlier, answer, ran, stepped, rfl⟩
  · rintro ⟨middle, earlier, answer, ran, stepped, rfl⟩
    exact ⟨middle, earlier, [answer], ran,
      run_cons_eq_some_iff.mpr ⟨final, answer, [], stepped, rfl, rfl⟩, rfl⟩

/-- What holds at the start and is kept by every step holds after every run. -/
theorem run_induction {start : σ} {motive : List ε → List ω → σ → Prop}
    (atStart : motive [] [] start)
    (kept : ∀ events answers state event answer after, motive events answers state →
      step state event = some (after, answer) →
        motive (events ++ [event]) (answers ++ [answer]) after)
    {events : List ε} {answers : List ω} {final : σ}
    (ran : run step start events = some (final, answers)) : motive events answers final := by
  induction events using List.reverseRecOn generalizing answers final with
  | nil =>
      obtain ⟨rfl, rfl⟩ := Prod.mk.inj (Option.some.inj ran)
      exact atStart
  | append_singleton events event inductionHypothesis =>
      obtain ⟨middle, earlier, answer, ranBefore, stepped, rfl⟩ := run_concat_eq_some_iff.mp ran
      exact kept events earlier middle event answer final (inductionHypothesis ranBefore) stepped

/-- What every step says of its event and its answer holds event by event along a run. -/
theorem run_forall₂ (invariant : σ → Prop) {relates : ε → ω → Prop} {start : σ}
    (atStart : invariant start)
    (kept : ∀ state event after answer, invariant state → step state event = some (after, answer) →
      invariant after ∧ relates event answer)
    {events : List ε} {answers : List ω} {final : σ}
    (ran : run step start events = some (final, answers)) :
    invariant final ∧ List.Forall₂ relates events answers := by
  induction events generalizing start answers with
  | nil =>
      obtain ⟨rfl, rfl⟩ := Prod.mk.inj (Option.some.inj ran)
      exact ⟨atStart, List.Forall₂.nil⟩
  | cons event rest inductionHypothesis =>
      obtain ⟨next, answer, later, stepped, ranRest, rfl⟩ := run_cons_eq_some_iff.mp ran
      obtain ⟨nextInvariant, related⟩ := kept start event next answer atStart stepped
      obtain ⟨finalInvariant, laterRelated⟩ := inductionHypothesis nextInvariant ranRest
      exact ⟨finalInvariant, List.Forall₂.cons related laterRelated⟩

/-- Two machines that answer alike from related states make the same runs. -/
theorem run_simulation {τ : Type} {step' : τ → ε → Option (τ × ω)} (related : σ → τ → Prop)
    (simulates : ∀ left right event, related left right →
      ∃ left' right' answer, step left event = some (left', answer) ∧
        step' right event = some (right', answer) ∧ related left' right')
    (events : List ε) {left : σ} {right : τ} (start : related left right) :
    ∃ left' right' answers, run step left events = some (left', answers) ∧
      run step' right events = some (right', answers) ∧ related left' right' := by
  induction events generalizing left right with
  | nil => exact ⟨left, right, [], rfl, rfl, start⟩
  | cons event rest inductionHypothesis =>
      obtain ⟨nextLeft, nextRight, answer, leftStepped, rightStepped, next⟩ :=
        simulates left right event start
      obtain ⟨finalLeft, finalRight, later, leftRan, rightRan, final⟩ := inductionHypothesis next
      exact ⟨finalLeft, finalRight, answer :: later,
        run_cons_eq_some_iff.mpr ⟨nextLeft, answer, later, leftStepped, leftRan, rfl⟩,
        run_cons_eq_some_iff.mpr ⟨nextRight, answer, later, rightStepped, rightRan, rfl⟩, final⟩

/-- A machine that is ready for the events to come makes the run. -/
theorem run_returns (ready : List ε → σ → Prop)
    (advances : ∀ event rest state, ready (event :: rest) state →
      ∃ after answer, step state event = some (after, answer) ∧ ready rest after)
    (events : List ε) (state : σ) (isReady : ready events state) :
    ∃ final answers, run step state events = some (final, answers) := by
  induction events generalizing state with
  | nil => exact ⟨state, [], rfl⟩
  | cons event rest inductionHypothesis =>
      obtain ⟨next, answer, stepped, stillReady⟩ := advances event rest state isReady
      obtain ⟨final, later, ran⟩ := inductionHypothesis next stillReady
      exact ⟨final, answer :: later,
        run_cons_eq_some_iff.mpr ⟨next, answer, later, stepped, ran, rfl⟩⟩

end EventRuns
