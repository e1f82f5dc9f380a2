import Mathlib
import AxiomKernel.Lib.Bytes
import AxiomKernel.Lib.EventRun
import AxiomKernel.Sched.Scheduler
import AxiomKernel.Sched.Accounting

/-!
# Fences that are counted and fences that are issued

`prepare_switch` charges the current task, and counts a fence, before it looks for
another task.  When it finds none it returns `None`, and the timer interrupt does
not reach the barrier of `perform_switch`.
-/

set_option autoImplicit false

namespace AxiomKernel.Sched

open ByteStrings EventRuns Scheduler

/-! ## The second phase of a switch -/

inductive CpuEvent where
  | lfence
  | mfence
  | contextSwitch (oldIdx : Nat) (newRsp : U64)

def performSwitch (switch : Switch) : List CpuEvent :=
  (if switch.needFence then [.lfence, .mfence] else []) ++
    [.contextSwitch switch.oldIdx switch.newRsp]

/-- What `timer_interrupt_handler` does with the answer of `prepare_switch`. -/
def timerSwitch : Option Switch → List CpuEvent
  | some switch => performSwitch switch
  | none => []

/-- The call answers `Some((_, _, true))`, and the barrier is issued. -/
def Fenced (switch : Option Switch) : Prop :=
  ∃ prepared, switch = some prepared ∧ prepared.needFence = true ∧
    List.IsPrefix [.lfence, .mfence] (timerSwitch switch)

theorem fenced_of_needFence {prepared : Switch} (needFence : prepared.needFence = true) :
    Fenced (some prepared) := by
  refine ⟨prepared, rfl, needFence, [.contextSwitch prepared.oldIdx prepared.newRsp], ?_⟩
  rw [timerSwitch, performSwitch, if_pos needFence]

theorem not_fenced_none : ¬ Fenced none := by
  rintro ⟨prepared, returned, -⟩
  cases returned

/-! ## Counted fences -/

def Scheduler.epochs (sched : Scheduler) : List U64 := sched.accounts.map ScbaState.epoch

def CountsFence (sched next : Scheduler) : Prop :=
  next.stats.totalFences ≠ sched.stats.totalFences ∨ next.epochs ≠ sched.epochs

theorem not_countsFence_self (sched : Scheduler) : ¬ CountsFence sched sched := by
  rintro (changed | changed)
  · exact changed rfl
  · exact changed rfl

/-- Fences are counted, and epochs begun, exactly when the charge exhausts the budget. -/
theorem countsFence_iff {sched next : Scheduler} {before after : ScbaState} {needFence : Bool}
    (found : sched.accounts[sched.current]? = some before) (charged : before.Charged after needFence)
    (accounts : next.accounts = sched.accounts.set sched.current after)
    (totalFences : next.stats.totalFences.toNat =
      sched.stats.totalFences.toNat + needFence.toNat) :
    CountsFence sched next ↔ needFence = true := by
  cases needFence with
  | true =>
      refine iff_of_true (Or.inl fun same => ?_) rfl
      rw [same, Bool.toNat_true] at totalFences
      omega
  | false =>
      have sameEpoch : after.epoch = before.epoch := BitVec.eq_of_toNat_eq charged.epoch
      have sameEpochs : next.epochs = sched.epochs := by
        obtain ⟨inside, current⟩ := List.getElem?_eq_some_iff.mp found
        rw [Scheduler.epochs, accounts, List.map_set, sameEpoch, ← current, ← List.map_set,
          List.set_getElem_self, Scheduler.epochs]
      refine iff_of_false ?_ Bool.false_ne_true
      rintro (changed | changed)
      · exact changed (BitVec.eq_of_toNat_eq totalFences)
      · exact changed sameEpochs

theorem Scheduler.Prepares.fenced {sched next : Scheduler} {prepared : Switch}
    (prepares : sched.Prepares next (some prepared)) (counts : CountsFence sched next) :
    Fenced (some prepared) := by
  rcases prepares.accounts with ⟨-, rfl⟩ |
    ⟨-, before, after, needFence, found, charged, accounts, totalFences, returned⟩
  · exact absurd counts (not_countsFence_self next)
  · refine fenced_of_needFence ?_
    rw [returned prepared rfl]
    exact (countsFence_iff found charged accounts totalFences).mp counts

/-! ## Another task is ready -/

def Scheduler.OtherReady (sched : Scheduler) : Prop :=
  ∃ i, i ≠ sched.current ∧ sched.isReady i = some true

/-- With another task ready the call switches, and leaves the old task ready. -/
theorem Scheduler.OtherReady.switches {sched next : Scheduler} {switch : Option Switch}
    (otherReady : sched.OtherReady) (enough : 2 ≤ sched.tasks.length)
    (prepares : sched.Prepares next switch) :
    next.OtherReady ∧ ∃ prepared, switch = some prepared := by
  obtain ⟨i, other, ready⟩ := otherReady
  cases prepares with
  | few tasksFew => omega
  | stayed _ charges alone =>
      rw [← charges.isReady_of_ne other] at ready
      exact absurd (alone i ready) other
  | switched _ charges switches first =>
      refine ⟨⟨sched.current, ?_, ?_⟩, _, rfl⟩
      · rw [switches.current]
        exact switches.different.symm
      · rw [switches.isReady_of_ne switches.different.symm]
        exact charges.oldReady

/-! ## No other task becomes ready -/

/-- The first task is current, no other is ready, and `k` turns are spent. -/
structure Stuck (period k : Nat) (sched : Scheduler) : Prop where
  enough : 2 ≤ sched.tasks.length
  current : sched.current = 0
  others : ∀ i, i ≠ 0 → sched.isReady i ≠ some true
  spent : ∃ scba, sched.accounts[0]? = some scba ∧ scba.period = period ∧ scba.Spent k

theorem Stuck.stays {period k : Nat} {sched next : Scheduler} {switch : Option Switch}
    (stuck : Stuck period k sched) (prepares : sched.Prepares next switch) :
    switch = none ∧ next.current = 0 ∧ ∀ i, i ≠ 0 → next.isReady i ≠ some true := by
  have current := stuck.current
  cases prepares with
  | few tasksFew =>
      have enough := stuck.enough
      omega
  | stayed _ charges alone =>
      refine ⟨rfl, charges.current.trans current, ?_⟩
      intro i other
      rw [charges.isReady_of_ne (by rwa [current])]
      exact stuck.others i other
  | switched _ charges switches first =>
      have wasReady := switches.wasReady
      rw [charges.isReady_of_ne switches.different] at wasReady
      exact absurd wasReady (stuck.others _ (by rw [← current]; exact switches.different))

theorem Stuck.step {period k : Nat} {sched next : Scheduler} {switch : Option Switch}
    (stuck : Stuck period k sched) (prepares : sched.Prepares next switch) :
    Stuck period (k + 1) next ∧ switch = none ∧
      (CountsFence sched next ↔ k % period + 1 = period) := by
  obtain ⟨returned, current, others⟩ := stuck.stays prepares
  have enough := stuck.enough
  rcases prepares.accounts with ⟨tasksFew, -⟩ |
    ⟨-, before, after, needFence, found, charged, accounts, totalFences, -⟩
  · omega
  · obtain ⟨scba, foundFirst, rfl, spent⟩ := stuck.spent
    have counts := countsFence_iff found charged accounts totalFences
    rw [stuck.current] at found accounts
    obtain rfl := Option.some.inj (foundFirst.symm.trans found)
    have inside := (List.getElem?_eq_some_iff.mp found).1
    refine ⟨⟨?_, current, others, after, ?_, ?_, charged.spent spent⟩, returned, ?_⟩
    · rw [prepares.length]
      exact enough
    · rw [accounts, List.getElem?_set_self inside]
    · rw [ScbaState.period, charged.budgetMax, ScbaState.period]
    · rw [counts, charged.exhausted_iff spent]

/-! ## Filled schedulers -/

def filled (specs : List TaskSpec) : Scheduler :=
  specs.foldl (fun sched spec => sched.addTask spec.make) Scheduler.new

theorem foldl_addTask (specs : List TaskSpec) (sched : Scheduler) :
    specs.foldl (fun sched spec => sched.addTask spec.make) sched =
      { sched with tasks := sched.tasks ++ specs.map TaskSpec.make } := by
  induction specs generalizing sched with
  | nil => rw [List.foldl_nil, List.map_nil, List.append_nil]
  | cons spec rest inductionHypothesis =>
      rw [List.foldl_cons, inductionHypothesis, Scheduler.addTask, List.map_cons, List.append_assoc,
        List.singleton_append]

theorem filled_eq (specs : List TaskSpec) :
    filled specs = { tasks := specs.map TaskSpec.make, current := 0, stats := ⟨0, 0⟩ } :=
  foldl_addTask specs Scheduler.new

theorem filled_length (specs : List TaskSpec) : (filled specs).tasks.length = specs.length := by
  rw [filled_eq, List.length_map]

theorem filled_placed (specs : List TaskSpec) : (filled specs).Placed := by
  rw [filled_eq]
  exact Or.inl rfl

theorem filled_counted (specs : List TaskSpec) : (filled specs).Counted 0 :=
  List.foldlRecOn (motive := fun sched : Scheduler => sched.Counted 0) specs _ new_counted
    fun _ counted spec _ => addTask_counted counted spec

theorem filled_isReady (specs : List TaskSpec) (i : Nat) :
    (filled specs).isReady i =
      specs[i]?.map fun spec => decide (spec.make.state = .ready) := by
  rw [filled_eq, isReady, List.getElem?_map, Option.map_map]
  rfl

theorem TaskSpec.make_ready_iff (spec : TaskSpec) :
    spec.make.state = .ready ↔ spec.IsWithBudget := by
  cases spec with
  | idle id =>
      refine iff_of_false nofun ?_
      rintro ⟨_, _, _, same⟩
      cases same
  | withBudget id rsp budgetMax => exact iff_of_true rfl ⟨id, rsp, budgetMax, rfl⟩

theorem filled_otherReady {specs : List TaskSpec} {spec : TaskSpec} (member : spec ∈ specs.tail)
    (budgeted : spec.IsWithBudget) : (filled specs).OtherReady := by
  obtain ⟨i, found⟩ := List.getElem?_of_mem member
  rw [List.getElem?_tail] at found
  refine ⟨i + 1, ?_, ?_⟩
  · rw [filled_eq]
    exact Nat.succ_ne_zero i
  · rw [filled_isReady, found, Option.map_some, decide_eq_true (spec.make_ready_iff.mpr budgeted)]

theorem filled_stuck {specs : List TaskSpec} {first : TaskSpec} (enough : 2 ≤ specs.length)
    (head : specs.head? = some first) (noneBudgeted : ¬ ∃ spec ∈ specs.tail, spec.IsWithBudget) :
    Stuck first.make.scba.period 0 (filled specs) where
  enough := by rwa [filled_length]
  current := by rw [filled_eq]
  others := by
    intro i other ready
    obtain ⟨j, rfl⟩ := Nat.exists_eq_succ_of_ne_zero other
    rw [filled_isReady, Nat.succ_eq_add_one, ← List.getElem?_tail, Option.map_eq_some_iff] at ready
    obtain ⟨spec, found, isReadySpec⟩ := ready
    exact noneBudgeted ⟨spec, List.mem_of_getElem? found,
      spec.make_ready_iff.mp (of_decide_eq_true isReadySpec)⟩
  spent := by
    refine ⟨first.make.scba, ?_, rfl, first.make_spent⟩
    rw [List.head?_eq_getElem?] at head
    rw [filled_eq, Scheduler.accounts, List.getElem?_map, List.getElem?_map, head]
    rfl

/-! ## Sequences of calls -/

/-- In the first `calls` calls of `prepare_switch` every counted fence is issued. -/
def FencesExecuted (specs : List TaskSpec) (calls : Nat) : Prop :=
  ∀ k < calls, ∀ sched answers next switch,
    run perform (filled specs) (List.replicate k .prepareSwitch) = some (sched, answers) →
    sched.prepareSwitch = some (next, switch) → CountsFence sched next → Fenced switch

theorem fencesExecuted_of_few {specs : List TaskSpec} (few : specs.length < 2) (calls : Nat) :
    FencesExecuted specs calls := by
  intro k _ sched answers next switch ran prepared counts
  have length : sched.tasks.length = specs.length :=
    run_calls_induction (motive := fun _ sched => sched.tasks.length = specs.length)
      (filled_length specs)
      (fun _ _ _ _ before prepared => (prepares_of_prepareSwitch prepared).length.trans before) ran
  rw [prepareSwitch, if_pos (by omega)] at prepared
  obtain ⟨rfl, -⟩ := Prod.mk.inj (Option.some.inj prepared)
  exact absurd counts (not_countsFence_self sched)

theorem fencesExecuted_of_budgeted {specs : List TaskSpec} (enough : 2 ≤ specs.length)
    (budgeted : ∃ spec ∈ specs.tail, spec.IsWithBudget) (calls : Nat) :
    FencesExecuted specs calls := by
  intro k _ sched answers next switch ran prepared counts
  obtain ⟨spec, member, specBudgeted⟩ := budgeted
  have reached : 2 ≤ sched.tasks.length ∧ sched.OtherReady := by
    refine run_calls_induction
      (motive := fun _ sched => 2 ≤ sched.tasks.length ∧ sched.OtherReady)
      ⟨by rwa [filled_length], filled_otherReady member specBudgeted⟩ ?_ ran
    rintro _ state after _ ⟨stateEnough, otherReady⟩ called
    have prepares := prepares_of_prepareSwitch called
    rw [prepares.length]
    exact ⟨stateEnough, (otherReady.switches stateEnough prepares).1⟩
  have prepares := prepares_of_prepareSwitch prepared
  obtain ⟨-, switched, rfl⟩ := reached.2.switches reached.1 prepares
  exact prepares.fenced counts

theorem stuck_of_run {specs : List TaskSpec} {period k : Nat} {sched : Scheduler}
    {answers : List SchedAnswer} (start : Stuck period 0 (filled specs))
    (ran : run perform (filled specs) (List.replicate k .prepareSwitch) = some (sched, answers)) :
    Stuck period k sched :=
  run_calls_induction start
    (fun _ _ _ _ before prepared => (before.step (prepares_of_prepareSwitch prepared)).1) ran

/-- Without another ready task the first fence is the one that is lost. -/
theorem fencesExecuted_iff_of_stuck {specs : List TaskSpec} {period : Nat} (calls : Nat)
    (start : Stuck period 0 (filled specs)) (positive : 0 < period) (bounded : period < 2 ^ 64) :
    FencesExecuted specs calls ↔ calls < period := by
  constructor
  · intro executed
    by_contra late
    obtain ⟨k, rfl⟩ : ∃ k, period = k + 1 := ⟨period - 1, by omega⟩
    obtain ⟨next, answers, ran⟩ := run_perform_returns (filled_placed specs) (filled_counted specs)
      (List.replicate (k + 1) .prepareSwitch) (by
        rw [← List.nil_append (List.replicate _ _), switchCalls_append_calls, switchCalls]
        simpa using bounded)
    rw [List.replicate_succ', run_concat_eq_some_iff] at ran
    obtain ⟨sched, earlier, answer, ranBefore, performed, -⟩ := ran
    obtain ⟨switch, prepared, -⟩ := perform_prepareSwitch performed
    obtain ⟨-, rfl, counts⟩ := (stuck_of_run start ranBefore).step
      (prepares_of_prepareSwitch prepared)
    have lastTurn : k % (k + 1) + 1 = k + 1 := by rw [Nat.mod_eq_of_lt (Nat.lt_succ_self k)]
    exact not_fenced_none
      (executed k (by omega) sched earlier next none ranBefore prepared (counts.mpr lastTurn))
  · intro early k kLt sched answers next switch ran prepared counts
    have step := (stuck_of_run start ran).step (prepares_of_prepareSwitch prepared)
    have lastTurn := step.2.2.mp counts
    rw [Nat.mod_eq_of_lt (by omega)] at lastTurn
    omega

theorem ScbaState.period_lt (scba : ScbaState) : scba.period < 2 ^ 64 := by
  have bound := scba.budgetMax.isLt
  rw [ScbaState.period]
  omega

/-- Every counted fence is issued exactly when there are fewer than two tasks, or a task
behind the first was made with a budget, or the calls end before the first task's
budget does. -/
theorem counted_fences_executed_iff (specs : List TaskSpec) (calls : Nat) :
    FencesExecuted specs calls ↔
      specs.length < 2 ∨ (∃ spec ∈ specs.tail, spec.IsWithBudget) ∨
        ∃ first, specs.head? = some first ∧ calls < max 1 first.make.scba.budgetMax.toNat := by
  by_cases few : specs.length < 2
  · exact iff_of_true (fencesExecuted_of_few few calls) (Or.inl few)
  · have enough : 2 ≤ specs.length := Nat.not_lt.mp few
    by_cases budgeted : ∃ spec ∈ specs.tail, spec.IsWithBudget
    · exact iff_of_true (fencesExecuted_of_budgeted enough budgeted calls) (Or.inr (Or.inl budgeted))
    · obtain ⟨first, head⟩ : ∃ first, specs.head? = some first :=
        ⟨_, List.head?_eq_some_head (List.ne_nil_of_length_pos (by omega))⟩
      have start := filled_stuck enough head budgeted
      rw [fencesExecuted_iff_of_stuck calls start first.make.scba.period_pos
        first.make.scba.period_lt]
      constructor
      · intro early
        exact Or.inr (Or.inr ⟨first, head, early⟩)
      · rintro (isFew | isBudgeted | ⟨other, otherHead, early⟩)
        · exact absurd isFew few
        · exact absurd isBudgeted budgeted
        · obtain rfl := Option.some.inj (head.symm.trans otherHead)
          exact early

/-- A task with budget one in front of an idle task: the first call counts a fence, starts
an epoch and answers `None`. -/
theorem fence_counted_and_not_issued :
    (∃ next, (filled [.withBudget 1 0x8000 1, .idle 0]).prepareSwitch = some (next, none) ∧
      (filled [.withBudget 1 0x8000 1, .idle 0]).stats.totalFences = 0 ∧
      next.stats.totalFences = 1 ∧ next.epochs = [1, 0] ∧ timerSwitch none = []) ∧
    ¬ FencesExecuted [.withBudget 1 0x8000 1, .idle 0] 1 := by
  refine ⟨⟨_, rfl, rfl, rfl, rfl, rfl⟩, ?_⟩
  intro executed
  exact not_fenced_none
    (executed 0 Nat.zero_lt_one _ _ _ none rfl rfl (Or.inl (by decide)))

end AxiomKernel.Sched
