import Mathlib

/-!
# Two runs of one program

A program over a state may panic (`none`); one written with `ExceptT` may also
return an error, and then keeps what it changed so far.  `Both pre program post`
compares the program's run on one state with its run on another: from related
states, if the first run returns then so does the second, with the same value
and again related states.  There is one rule for each way to build a program.
The last section has the equations of a single run.
-/

set_option autoImplicit false

namespace TwoRuns

variable {σ ε α β : Type}

/-- From states related by `pre`, the second run follows the first. -/
def Both (pre : σ → σ → Prop) (program : StateT σ Option α) (post : α → σ → σ → Prop) : Prop :=
  ∀ left right, pre left right → ∀ value leftAfter, program.run left = some (value, leftAfter) →
    ∃ rightAfter, program.run right = some (value, rightAfter) ∧ post value leftAfter rightAfter

def panicOr (value : Option α) : StateT σ Option α := fun state => value.map (·, state)

def perform (program : StateT σ Option α) : ExceptT ε (StateT σ Option) α := ExceptT.lift program

def stateless (value : Option (Except ε α)) : ExceptT ε (StateT σ Option) α :=
  ExceptT.mk (panicOr value)

variable {pre : σ → σ → Prop}

theorem Both.pure {post : α → σ → σ → Prop} (value : α)
    (entails : ∀ left right, pre left right → post value left right) :
    Both pre (Pure.pure value) post := by
  intro left right related returned leftAfter ran
  obtain ⟨rfl, rfl⟩ := Prod.mk.inj (Option.some.inj ran)
  exact ⟨right, rfl, entails left right related⟩

theorem Both.bind {middle : α → σ → σ → Prop} {post : β → σ → σ → Prop}
    {first : StateT σ Option α} {next : α → StateT σ Option β} (head : Both pre first middle)
    (tail : ∀ value, Both (middle value) (next value) post) : Both pre (first >>= next) post := by
  intro left right related returned leftAfter ran
  rw [StateT.run_bind, Option.bind_eq_bind, Option.bind_eq_some_iff] at ran
  obtain ⟨⟨value, leftMiddle⟩, firstRan, nextRan⟩ := ran
  obtain ⟨rightMiddle, firstRight, relatedMiddle⟩ := head left right related value leftMiddle firstRan
  obtain ⟨rightAfter, nextRight, relatedAfter⟩ :=
    tail value leftMiddle rightMiddle relatedMiddle returned leftAfter nextRan
  refine ⟨rightAfter, ?_, relatedAfter⟩
  rw [StateT.run_bind, firstRight, Option.bind_eq_bind, Option.bind_some, nextRight]

theorem Both.mono {weaker : σ → σ → Prop} {post stronger : α → σ → σ → Prop}
    {program : StateT σ Option α} (holds : Both weaker program stronger)
    (before : ∀ left right, pre left right → weaker left right)
    (after : ∀ value left right, stronger value left right → post value left right) :
    Both pre program post := by
  intro left right related value leftAfter ran
  obtain ⟨rightAfter, rightRan, relatedAfter⟩ :=
    holds left right (before left right related) value leftAfter ran
  exact ⟨rightAfter, rightRan, after value leftAfter rightAfter relatedAfter⟩

/-- What does not look at the state behaves the same and changes nothing. -/
theorem Both.panicOr (value : Option α) :
    Both pre (TwoRuns.panicOr value) fun result left right =>
      value = some result ∧ pre left right := by
  intro left right related returned leftAfter ran
  cases value with
  | none => cases ran
  | some value =>
      obtain ⟨rfl, rfl⟩ := Prod.mk.inj (Option.some.inj ran)
      exact ⟨right, rfl, rfl, related⟩

/-- A fact about values that the relation carries may be assumed. -/
theorem Both.assuming {fact : Prop} {program : StateT σ Option α} {post : α → σ → σ → Prop}
    (holds : fact → Both pre program post) :
    Both (fun left right => fact ∧ pre left right) program post :=
  fun left right related => holds related.1 left right related.2

theorem Both.existing {pre : β → σ → σ → Prop} {program : StateT σ Option α}
    {post : α → σ → σ → Prop} (holds : ∀ value, Both (pre value) program post) :
    Both (fun left right => ∃ value, pre value left right) program post := by
  rintro left right ⟨value, related⟩
  exact holds value left right related

/-! ## Programs that may return an error -/

/-- The relation after a step that may fail: `ok` for a value, `failed` for an error. -/
def onOk (ok : α → σ → σ → Prop) (failed : σ → σ → Prop) : Except ε α → σ → σ → Prop
  | .ok value => ok value
  | .error _ => failed

theorem Both.bindExcept {middle : α → σ → σ → Prop} {ok : β → σ → σ → Prop}
    {failed : σ → σ → Prop} {first : ExceptT ε (StateT σ Option) α}
    {next : α → ExceptT ε (StateT σ Option) β} (head : Both pre first.run (onOk middle failed))
    (tail : ∀ value, Both (middle value) (next value).run (onOk ok failed)) :
    Both pre (first >>= next).run (onOk ok failed) := by
  rw [ExceptT.run_bind]
  apply head.bind
  intro result
  cases result with
  | ok value => exact tail value
  | error failure => exact Both.pure _ fun _ _ related => related

theorem Both.throw {ok : α → σ → σ → Prop} (failure : ε) :
    Both pre (MonadExcept.throw failure : ExceptT ε (StateT σ Option) α).run (onOk ok pre) :=
  Both.pure _ fun _ _ related => related

theorem Both.pureExcept {ok : α → σ → σ → Prop} {failed : σ → σ → Prop} (value : α)
    (entails : ∀ left right, pre left right → ok value left right) :
    Both pre (Pure.pure value : ExceptT ε (StateT σ Option) α).run (onOk ok failed) :=
  Both.pure _ entails

theorem Both.perform {ok : α → σ → σ → Prop} {failed : σ → σ → Prop}
    {program : StateT σ Option α} (holds : Both pre program ok) :
    Both pre (TwoRuns.perform program : ExceptT ε (StateT σ Option) α).run (onOk ok failed) := by
  have lifted : (TwoRuns.perform program : ExceptT ε (StateT σ Option) α).run =
      program >>= fun value => Pure.pure (Except.ok value) := by
    rw [bind_pure_comp]
    rfl
  rw [lifted]
  exact holds.bind fun value => Both.pure _ fun _ _ related => related

theorem Both.stateless (value : Option (Except ε α)) :
    Both pre (TwoRuns.stateless value).run (onOk (fun _ => pre) pre) := by
  apply (Both.panicOr value).mono (fun _ _ related => related)
  intro result left right related
  cases result <;> exact related.2

/-- A loop whose body keeps the relation, also when it fails, keeps it. -/
theorem Both.forM {items : List α} {body : α → ExceptT ε (StateT σ Option) PUnit}
    (step : ∀ item ∈ items, Both pre (body item).run (onOk (fun _ => pre) pre)) :
    Both pre (items.forM body).run (onOk (fun _ => pre) pre) := by
  induction items with
  | nil => exact Both.pureExcept _ fun _ _ related => related
  | cons item rest inductionHypothesis =>
      have tail := inductionHypothesis fun later member => step later (List.mem_cons_of_mem item member)
      exact (step item List.mem_cons_self).bindExcept fun _ => tail

/-! ## A single run -/

theorem run_bind (first : ExceptT ε (StateT σ Option) α)
    (next : α → ExceptT ε (StateT σ Option) β) (state : σ) :
    (first >>= next).run.run state = (first.run.run state).bind fun result =>
      match result.1 with
      | .ok value => (next value).run.run result.2
      | .error failure => some (.error failure, result.2) := by
  rw [ExceptT.run_bind, StateT.run_bind, Option.bind_eq_bind]
  congr 1
  funext result
  obtain ⟨value | failure, after⟩ := result <;> rfl

theorem run_perform (program : StateT σ Option α) (state : σ) :
    (perform program : ExceptT ε (StateT σ Option) α).run.run state =
      (program.run state).map fun result => (.ok result.1, result.2) := by
  rw [perform, ExceptT.run_lift, StateT.run_map]
  rfl

theorem run_perform_bind (program : StateT σ Option α)
    (next : α → ExceptT ε (StateT σ Option) β) (state : σ) :
    (perform program >>= next).run.run state =
      (program.run state).bind fun result => (next result.1).run.run result.2 := by
  rw [run_bind, run_perform, Option.bind_map]
  rfl

theorem run_panicOr (value : Option α) (state : σ) :
    (panicOr value).run state = value.map (·, state) := rfl

theorem run_stateless (value : Option (Except ε α)) (state : σ) :
    (stateless value).run.run state = value.map (·, state) := rfl

theorem run_throw (failure : ε) (state : σ) :
    (throw failure : ExceptT ε (StateT σ Option) α).run.run state =
      some (.error failure, state) := rfl

theorem perform_panicOr_bind (value : α) (next : α → ExceptT ε (StateT σ Option) β) :
    perform (panicOr (some value)) >>= next = next value := rfl

theorem stateless_panic_bind (next : α → ExceptT ε (StateT σ Option) β) :
    stateless none >>= next = stateless none := rfl

theorem stateless_error_bind (failure : ε) (next : α → ExceptT ε (StateT σ Option) β) :
    stateless (some (.error failure)) >>= next = stateless (some (.error failure)) := rfl

theorem stateless_ok_bind (value : α) (next : α → ExceptT ε (StateT σ Option) β) :
    stateless (some (.ok value)) >>= next = next value := rfl

/-! ## Programs without a state -/

theorem run_lift_bind (value : Option α) (next : α → ExceptT ε Option β) :
    (liftM value >>= next).run = value.bind fun found => (next found).run := by
  cases value <;> rfl

/-- A check that returns an error before the rest. -/
theorem run_guard (refused : Prop) [Decidable refused] (failure : ε) (rest : ExceptT ε Option α) :
    (if refused then do throw failure; rest else rest).run =
      if refused then some (.error failure) else rest.run := by
  split <;> rfl

/-- A value of a program without a state comes through its first step. -/
theorem run_bind_eq_ok {first : ExceptT ε Option α} {next : α → ExceptT ε Option β}
    {value : β} (returned : (first >>= next).run = some (.ok value)) :
    ∃ between, first.run = some (.ok between) ∧ (next between).run = some (.ok value) := by
  rw [ExceptT.run_bind, Option.bind_eq_bind, Option.bind_eq_some_iff] at returned
  obtain ⟨failure | between, ran, rest⟩ := returned
  · cases rest
  · exact ⟨between, ran, rest⟩

end TwoRuns
