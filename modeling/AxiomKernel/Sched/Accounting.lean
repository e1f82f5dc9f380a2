import Mathlib
import AxiomKernel.Lib.Bytes
import AxiomKernel.Lib.EventRun
import AxiomKernel.Sched.Scheduler

/-!
# Exact SCBA accounting

A task takes a turn when `prepare_switch` is called with at least two tasks while
it is current, whether or not the call finds another task.  The counters of a task
are the quotient and the remainder of its turns by its budget, in every run.
-/

set_option autoImplicit false

namespace AxiomKernel.Sched

open ByteStrings EventRuns Scheduler

/-! ## Turns -/

def Scheduler.takesTurn (sched : Scheduler) (i : Nat) : SchedOp → Bool
  | .prepareSwitch => decide (2 ≤ sched.tasks.length ∧ sched.current = i)
  | .addTask _ => false

/-- How many of the operations charge task `i`. -/
def turns (i : Nat) : Scheduler → List SchedOp → Nat
  | _, [] => 0
  | sched, op :: rest =>
      (sched.takesTurn i op).toNat +
        match sched.perform op with
        | some (next, _) => turns i next rest
        | none => 0

theorem turns_concat {sched final : Scheduler} {ops : List SchedOp} {answers : List SchedAnswer}
    (ran : run perform sched ops = some (final, answers)) (i : Nat) (op : SchedOp) :
    turns i sched (ops ++ [op]) = turns i sched ops + (final.takesTurn i op).toNat := by
  induction ops generalizing sched answers with
  | nil =>
      obtain ⟨rfl, -⟩ := Prod.mk.inj (Option.some.inj ran)
      rw [List.nil_append, turns, turns]
      cases sched.perform op <;> simp [turns]
  | cons first rest inductionHypothesis =>
      obtain ⟨next, answer, later, performed, ranRest, -⟩ := run_cons_eq_some_iff.mp ran
      simp only [List.cons_append, turns, performed, inductionHypothesis ranRest, Nat.add_assoc]

/-! ## One task -/

/-- `max(1, budget_max)`, the turns of an epoch. -/
def ScbaState.period (scba : ScbaState) : Nat := max 1 scba.budgetMax.toNat

theorem ScbaState.period_pos (scba : ScbaState) : 0 < scba.period :=
  lt_of_lt_of_le Nat.zero_lt_one (le_max_left _ _)

structure ScbaState.Spent (scba : ScbaState) (count : Nat) : Prop where
  budgetConsumed : scba.budgetConsumed.toNat = count % scba.period
  fenceCount : scba.fenceCount.toNat = count / scba.period
  epoch : scba.epoch.toNat = count / scba.period

theorem ScbaState.spent_new (budgetMax : U64) : (ScbaState.new budgetMax).Spent 0 :=
  ⟨(Nat.zero_mod _).symm, (Nat.zero_div _).symm, (Nat.zero_div _).symm⟩

theorem ScbaState.Spent.consumed_lt {scba : ScbaState} {count : Nat} (spent : scba.Spent count) :
    scba.budgetConsumed.toNat < scba.period := by
  rw [spent.budgetConsumed]
  exact Nat.mod_lt _ scba.period_pos

theorem succ_div_mod_of_last {count period : Nat} (positive : 0 < period)
    (last : count % period + 1 = period) :
    (count + 1) / period = count / period + 1 ∧ (count + 1) % period = 0 := by
  have decomposed := Nat.mod_add_div count period
  rw [Nat.div_mod_unique positive, Nat.mul_add, Nat.mul_one]
  omega

theorem succ_div_mod_of_inside {count period : Nat} (inside : count % period + 1 < period) :
    (count + 1) / period = count / period ∧ (count + 1) % period = count % period + 1 := by
  have decomposed := Nat.mod_add_div count period
  rw [Nat.div_mod_unique (Nat.zero_lt_of_lt inside)]
  omega

/-- The budget is exhausted in the last turn of each period. -/
theorem ScbaState.Charged.exhausted_iff {scba after : ScbaState} {exhausted : Bool} {count : Nat}
    (charged : scba.Charged after exhausted) (spent : scba.Spent count) :
    exhausted = true ↔ count % scba.period + 1 = scba.period := by
  have consumedLt := spent.consumed_lt
  rw [charged.whenSpent, ← spent.budgetConsumed]
  rw [ScbaState.period] at consumedLt ⊢
  omega

theorem ScbaState.Charged.spent {scba after : ScbaState} {exhausted : Bool} {count : Nat}
    (charged : scba.Charged after exhausted) (spent : scba.Spent count) :
    after.Spent (count + 1) := by
  have samePeriod : after.period = scba.period := by
    rw [ScbaState.period, charged.budgetMax, ScbaState.period]
  have consumedLt := spent.consumed_lt
  rw [spent.budgetConsumed] at consumedLt
  have whenSpent := charged.exhausted_iff spent
  cases exhausted with
  | true =>
      obtain ⟨epochs, consumed⟩ := succ_div_mod_of_last scba.period_pos (whenSpent.mp rfl)
      refine ⟨?_, ?_, ?_⟩
      · rw [charged.budgetConsumed, samePeriod, consumed, if_pos rfl]
      · rw [charged.fenceCount, samePeriod, epochs, spent.fenceCount, Bool.toNat_true]
      · rw [charged.epoch, samePeriod, epochs, spent.epoch, Bool.toNat_true]
  | false =>
      have inside : count % scba.period + 1 < scba.period :=
        Nat.lt_of_le_of_ne consumedLt (mt whenSpent.mpr Bool.false_ne_true)
      obtain ⟨epochs, consumed⟩ := succ_div_mod_of_inside inside
      refine ⟨?_, ?_, ?_⟩
      · rw [charged.budgetConsumed, samePeriod, consumed, if_neg Bool.false_ne_true,
          spent.budgetConsumed]
      · rw [charged.fenceCount, samePeriod, epochs, spent.fenceCount, Bool.toNat_false,
          Nat.add_zero]
      · rw [charged.epoch, samePeriod, epochs, spent.epoch, Bool.toNat_false, Nat.add_zero]

/-! ## The tasks' accounts -/

def Scheduler.accounts (sched : Scheduler) : List ScbaState := sched.tasks.map Task.scba

theorem Scheduler.Charges.accounts {sched charged : Scheduler} {needFence : Bool} {old : Task}
    {scba : ScbaState} (charges : sched.Charges charged needFence old scba) :
    sched.accounts[sched.current]? = some old.scba ∧
      charged.accounts = sched.accounts.set sched.current scba := by
  constructor
  · rw [Scheduler.accounts, List.getElem?_map, charges.found]
    rfl
  · rw [Scheduler.accounts, charges.tasks, List.map_set]
    rfl

/-- Making a task running leaves its account alone. -/
theorem Scheduler.Switches.accounts {charged next : Scheduler} {oldIdx nextIdx : Nat} {task : Task}
    (switches : charged.Switches next oldIdx nextIdx task) : next.accounts = charged.accounts := by
  have kept : charged.accounts[nextIdx]? = some task.scba := by
    rw [Scheduler.accounts, List.getElem?_map, switches.found]
    rfl
  obtain ⟨bound, same⟩ := List.getElem?_eq_some_iff.mp kept
  rw [Scheduler.accounts, switches.tasks, List.map_set]
  show charged.accounts.set _ task.scba = charged.accounts
  rw [← same, List.set_getElem_self]

/-- What a call of `prepare_switch` does to the accounts. -/
theorem Scheduler.Prepares.accounts {sched next : Scheduler} {switch : Option Switch}
    (prepares : sched.Prepares next switch) :
    (sched.tasks.length < 2 ∧ next = sched) ∨
      (2 ≤ sched.tasks.length ∧ ∃ before after needFence,
        sched.accounts[sched.current]? = some before ∧ before.Charged after needFence ∧
        next.accounts = sched.accounts.set sched.current after ∧
        next.stats.totalFences.toNat = sched.stats.totalFences.toNat + needFence.toNat ∧
        ∀ prepared, switch = some prepared → prepared.needFence = needFence) := by
  cases prepares with
  | few tasksFew => exact Or.inl ⟨tasksFew, rfl⟩
  | stayed enough charges alone =>
      obtain ⟨found, accounts⟩ := charges.accounts
      exact Or.inr ⟨enough, _, _, _, found, ScbaState.charged_of_charge charges.charges, accounts,
        charges.totalFences, nofun⟩
  | switched enough charges switches first =>
      obtain ⟨found, accounts⟩ := charges.accounts
      refine Or.inr ⟨enough, _, _, _, found, ScbaState.charged_of_charge charges.charges,
        switches.accounts.trans accounts, ?_, ?_⟩
      · rw [switches.totalFences, charges.totalFences]
      · intro prepared returned
        rw [← Option.some.inj returned]

theorem sum_set_of_getElem? {values : List Nat} {i value : Nat} (found : values[i]? = some value)
    (more : Nat) : (values.set i (value + more)).sum = values.sum + more := by
  induction values generalizing i with
  | nil => cases found
  | cons head rest inductionHypothesis =>
      cases i with
      | zero =>
          obtain rfl := Option.some.inj found
          rw [List.set_cons_zero, List.sum_cons, List.sum_cons]
          omega
      | succ i =>
          rw [List.set_cons_succ, List.sum_cons, List.sum_cons, inductionHypothesis found]
          omega

/-- The accounts after a run from `Scheduler::new`. -/
structure Accounted (ops : List SchedOp) (sched : Scheduler) : Prop where
  placed : sched.Placed
  spent : ∀ (i : Nat) (scba : ScbaState), sched.accounts[i]? = some scba →
    scba.Spent (turns i Scheduler.new ops)
  unborn : ∀ i, sched.tasks.length ≤ i → turns i Scheduler.new ops = 0
  totalFences : sched.stats.totalFences.toNat =
    (sched.accounts.map fun scba => scba.fenceCount.toNat).sum

theorem accounted_new : Accounted [] Scheduler.new where
  placed := Or.inl rfl
  spent := by
    intro i scba found
    cases found
  unborn := fun _ _ => rfl
  totalFences := rfl

theorem TaskSpec.make_spent (spec : TaskSpec) : spec.make.scba.Spent 0 := by
  cases spec <;> exact ScbaState.spent_new _

theorem Accounted.addTask {ops : List SchedOp} {sched : Scheduler} (accounted : Accounted ops sched)
    {spec : TaskSpec}
    (sameTurns : ∀ i, turns i Scheduler.new (ops ++ [.addTask spec]) = turns i Scheduler.new ops) :
    Accounted (ops ++ [.addTask spec]) (sched.addTask spec.make) := by
  have accounts : (sched.addTask spec.make).accounts = sched.accounts ++ [spec.make.scba] := by
    rw [Scheduler.accounts, Scheduler.addTask, List.map_append]
    rfl
  have accountsLength : sched.accounts.length = sched.tasks.length := List.length_map _
  refine ⟨addTask_placed accounted.placed _, ?_, ?_, ?_⟩
  · intro i scba found
    rw [sameTurns]
    rw [accounts] at found
    rcases getElem?_concat_eq_some found with earlier | ⟨rfl, rfl⟩
    · exact accounted.spent i scba earlier
    · rw [accountsLength, accounted.unborn _ (le_refl _)]
      exact spec.make_spent
  · intro i beyond
    rw [sameTurns]
    simp only [Scheduler.addTask, List.length_append, List.length_singleton] at beyond
    exact accounted.unborn i (by omega)
  · have fresh : spec.make.scba.fenceCount.toNat = 0 := by cases spec <;> rfl
    rw [accounts, List.map_append, List.sum_append, List.map_cons, List.map_nil, List.sum_singleton,
      fresh, Nat.add_zero]
    exact accounted.totalFences

theorem takesTurn_of_few {sched : Scheduler} (tasksFew : sched.tasks.length < 2) (i : Nat) :
    sched.takesTurn i .prepareSwitch = false :=
  decide_eq_false fun both => absurd both.1 (Nat.not_le.mpr tasksFew)

theorem takesTurn_of_ne {sched : Scheduler} {i : Nat} (other : i ≠ sched.current) :
    sched.takesTurn i .prepareSwitch = false :=
  decide_eq_false fun both => other both.2.symm

theorem takesTurn_current {sched : Scheduler} (enough : 2 ≤ sched.tasks.length) :
    sched.takesTurn sched.current .prepareSwitch = true :=
  decide_eq_true ⟨enough, rfl⟩

theorem Accounted.prepareSwitch {ops : List SchedOp} {sched next : Scheduler}
    {switch : Option Switch} (accounted : Accounted ops sched)
    (prepares : sched.Prepares next switch)
    (newTurns : ∀ i, turns i Scheduler.new (ops ++ [.prepareSwitch]) =
      turns i Scheduler.new ops + (sched.takesTurn i .prepareSwitch).toNat) :
    Accounted (ops ++ [.prepareSwitch]) next := by
  rcases prepares.accounts with ⟨tasksFew, rfl⟩ |
    ⟨enough, before, after, needFence, found, charged, accounts, totalFences, -⟩
  · have sameTurns : ∀ i, turns i Scheduler.new (ops ++ [.prepareSwitch]) =
        turns i Scheduler.new ops := by
      intro i
      rw [newTurns, takesTurn_of_few tasksFew, Bool.toNat_false, Nat.add_zero]
    refine ⟨accounted.placed, ?_, ?_, accounted.totalFences⟩
    · intro i scba foundScba
      rw [sameTurns]
      exact accounted.spent i scba foundScba
    · intro i beyond
      rw [sameTurns]
      exact accounted.unborn i beyond
  · have inside := accounted.placed.inside enough
    refine ⟨prepares.placed accounted.placed, ?_, ?_, ?_⟩
    · intro i scba foundScba
      rw [accounts] at foundScba
      rw [newTurns]
      by_cases isCurrent : i = sched.current
      · rw [isCurrent, List.getElem?_set_self (by rwa [Scheduler.accounts, List.length_map])]
          at foundScba
        obtain rfl := Option.some.inj foundScba
        rw [isCurrent, takesTurn_current enough]
        exact charged.spent (accounted.spent _ _ found)
      · rw [List.getElem?_set_ne (Ne.symm isCurrent)] at foundScba
        rw [takesTurn_of_ne isCurrent]
        exact accounted.spent i scba foundScba
    · intro i beyond
      rw [prepares.length] at beyond
      rw [newTurns, accounted.unborn i beyond, takesTurn_of_ne (by omega)]
      rfl
    · have fences : (sched.accounts.map fun scba => scba.fenceCount.toNat)[sched.current]? =
          some before.fenceCount.toNat := by
        rw [List.getElem?_map, found]
        rfl
      rw [totalFences, accounts, List.map_set, charged.fenceCount, sum_set_of_getElem? fences,
        accounted.totalFences]

theorem accounted_of_run {ops : List SchedOp} {sched : Scheduler} {answers : List SchedAnswer}
    (ran : run perform Scheduler.new ops = some (sched, answers)) : Accounted ops sched := by
  suffices both : run perform Scheduler.new ops = some (sched, answers) ∧ Accounted ops sched from
    both.2
  refine run_induction (motive := fun ops answers sched =>
    run perform Scheduler.new ops = some (sched, answers) ∧ Accounted ops sched)
    ⟨rfl, accounted_new⟩ ?_ ran
  rintro ops answers sched op answer after ⟨ran, accounted⟩ performed
  refine ⟨run_concat_eq_some_iff.mpr ⟨sched, answers, answer, ran, performed, rfl⟩, ?_⟩
  have newTurns := fun i => turns_concat ran i op
  cases op with
  | addTask spec =>
      obtain ⟨rfl, -⟩ := Prod.mk.inj (Option.some.inj performed)
      exact accounted.addTask newTurns
  | prepareSwitch =>
      obtain ⟨switch, prepared, -⟩ := perform_prepareSwitch performed
      exact accounted.prepareSwitch (prepares_of_prepareSwitch prepared) newTurns

/-- Exact accounting: in every run the counters of a task are the quotient and the
remainder of its turns by its budget. -/
theorem scba_accounting_exact (ops : List SchedOp) (bounded : switchCalls ops < 2 ^ 64) :
    ∃ sched answers, run perform Scheduler.new ops = some (sched, answers) ∧
      (∀ i task, sched.tasks[i]? = some task →
        task.scba.budgetConsumed.toNat =
            turns i Scheduler.new ops % max 1 task.scba.budgetMax.toNat ∧
          task.scba.fenceCount.toNat =
            turns i Scheduler.new ops / max 1 task.scba.budgetMax.toNat ∧
          task.scba.epoch.toNat = turns i Scheduler.new ops / max 1 task.scba.budgetMax.toNat ∧
          task.scba.budgetConsumed.toNat < max 1 task.scba.budgetMax.toNat) ∧
      sched.stats.totalFences.toNat =
        (sched.tasks.map fun task => task.scba.fenceCount.toNat).sum := by
  obtain ⟨sched, answers, ran⟩ := run_perform_returns (Or.inl rfl) new_counted ops (by omega)
  have accounted := accounted_of_run ran
  refine ⟨sched, answers, ran, ?_, ?_⟩
  · intro i task found
    have account : sched.accounts[i]? = some task.scba := by
      rw [Scheduler.accounts, List.getElem?_map, found]
      rfl
    have spent := accounted.spent i task.scba account
    exact ⟨spent.budgetConsumed, spent.fenceCount, spent.epoch, spent.consumed_lt⟩
  · rw [accounted.totalFences, Scheduler.accounts, List.map_map]
    rfl

theorem scba_accounting_exact_three_calls :
    ∃ sched answers, run perform Scheduler.new [.addTask (.withBudget 1 0x8000 0),
        .addTask (.withBudget 2 0x9000 2), .prepareSwitch, .prepareSwitch, .prepareSwitch] =
          some (sched, answers) ∧
      sched.stats.totalFences.toNat =
        (sched.tasks.map fun task => task.scba.fenceCount.toNat).sum := by
  obtain ⟨sched, answers, ran, -, total⟩ := scba_accounting_exact
    [.addTask (.withBudget 1 0x8000 0), .addTask (.withBudget 2 0x9000 2), .prepareSwitch,
      .prepareSwitch, .prepareSwitch] (by decide)
  exact ⟨sched, answers, ran, total⟩

end AxiomKernel.Sched
