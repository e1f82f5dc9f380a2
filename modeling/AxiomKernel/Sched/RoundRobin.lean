import Mathlib
import AxiomKernel.Lib.Bytes
import AxiomKernel.Lib.EventRun
import AxiomKernel.Lib.RingQueue
import AxiomKernel.Lib.RingSearch
import AxiomKernel.Sched.Scheduler

/-!
# Round-robin scheduling

With the idle task first and only budgeted tasks after it, exactly one task is
`Running` and it is the current one, so the search of `prepare_switch` stops at
the next task and `current` goes round.
-/

set_option autoImplicit false

namespace AxiomKernel.Sched

open ByteStrings EventRuns RingSearch Scheduler

structure Scheduler.OneRunning (sched : Scheduler) : Prop where
  inside : sched.current < sched.tasks.length
  running : ∀ i task, sched.tasks[i]? = some task → (task.state = .running ↔ i = sched.current)

/-- The scheduler with the idle task. -/
def booted (id : TaskId) : Scheduler := Scheduler.new.addTask (Task.newIdle id)

theorem booted_oneRunning (id : TaskId) : (booted id).OneRunning where
  inside := Nat.zero_lt_one
  running := by
    intro i task found
    obtain ⟨rfl, rfl⟩ : i = 0 ∧ Task.newIdle id = task := by
      cases i with
      | zero => exact ⟨rfl, Option.some.inj found⟩
      | succ i => cases found
    exact ⟨fun _ => rfl, fun _ => rfl⟩

theorem Scheduler.OneRunning.addTask {sched : Scheduler} (oneRunning : sched.OneRunning)
    {spec : TaskSpec} (budgeted : spec.IsWithBudget) : (sched.addTask spec.make).OneRunning where
  inside := by
    have inside := oneRunning.inside
    simp only [Scheduler.addTask, List.length_append]
    omega
  running := by
    intro i task found
    have inside := oneRunning.inside
    rcases getElem?_concat_eq_some found with earlier | ⟨rfl, rfl⟩
    · exact oneRunning.running i task earlier
    · obtain ⟨id, rsp, budgetMax, rfl⟩ := budgeted
      refine iff_of_false ?_ (Nat.ne_of_gt inside)
      intro impossible
      cases impossible

theorem Scheduler.OneRunning.allReady {sched charged : Scheduler} {needFence : Bool} {old : Task}
    {scba : ScbaState} (oneRunning : sched.OneRunning)
    (charges : sched.Charges charged needFence old scba) {i : Nat}
    (iLt : i < sched.tasks.length) : charged.isReady i = some true := by
  by_cases isCurrent : i = sched.current
  · rw [isCurrent]
    exact charges.oldReady
  · have found := List.getElem?_eq_getElem iLt
    rw [charges.isReady_of_ne isCurrent, isReady, found, Option.map_some]
    have notRunning := mt (oneRunning.running i _ found).mp isCurrent
    cases state : (sched.tasks[i]).state with
    | ready => rfl
    | running => exact absurd state notRunning

theorem Scheduler.OneRunning.switched {sched charged next : Scheduler} {needFence : Bool}
    {old task : Task} {scba : ScbaState} {nextIdx : Nat} (oneRunning : sched.OneRunning)
    (charges : sched.Charges charged needFence old scba)
    (switches : charged.Switches next sched.current nextIdx task) : next.OneRunning := by
  have nextLt := (List.getElem?_eq_some_iff.mp switches.found).1
  refine ⟨by rwa [switches.current, switches.tasks, List.length_set], ?_⟩
  intro i other found
  rw [switches.current]
  by_cases isNext : i = nextIdx
  · rw [isNext, switches.tasks, List.getElem?_set_self nextLt] at found
    obtain rfl := Option.some.inj found
    exact ⟨fun _ => isNext, fun _ => rfl⟩
  · rw [switches.tasks, List.getElem?_set_ne (Ne.symm isNext)] at found
    have iLt := (List.getElem?_eq_some_iff.mp found).1
    rw [charges.length] at iLt
    have ready := oneRunning.allReady charges iLt
    rw [isReady, found, Option.map_some] at ready
    have state : other.state = .ready := of_decide_eq_true (Option.some.inj ready)
    rw [state]
    exact iff_of_false (by decide) isNext

/-- A call with two tasks or more switches to the next task. -/
structure Advances (sched next : Scheduler) (switch : Option Switch) : Prop where
  returned : ∃ prepared, switch = some prepared ∧ prepared.oldIdx = sched.current
  current : next.current = (sched.current + 1) % sched.tasks.length
  length : next.tasks.length = sched.tasks.length
  oneRunning : next.OneRunning
  totalSwitches : next.stats.totalSwitches.toNat = sched.stats.totalSwitches.toNat + 1

theorem Scheduler.OneRunning.advances {sched next : Scheduler} {switch : Option Switch}
    (oneRunning : sched.OneRunning) (enough : 2 ≤ sched.tasks.length)
    (prepares : sched.Prepares next switch) : Advances sched next switch := by
  have inside := oneRunning.inside
  have nextLt : (sched.current + 1) % sched.tasks.length < sched.tasks.length :=
    Nat.mod_lt _ (by omega)
  have nextOther : (sched.current + 1) % sched.tasks.length ≠ sched.current := by
    intro same
    have offsets := RingQueues.offset_inj (by omega : 1 < sched.tasks.length)
      (by omega : 0 < sched.tasks.length) (same.trans (Nat.mod_eq_of_lt inside).symm)
    cases offsets
  have length := prepares.length
  cases prepares with
  | few tasksFew => omega
  | stayed _ charges alone => exact absurd (alone _ (oneRunning.allReady charges nextLt)) nextOther
  | @switched charged _ needFence old task scba k _ charges switches first =>
      -- the search stops at once
      obtain rfl : k = 0 := by
        by_contra later
        have missed := first 0 (by omega)
        rw [Nat.add_zero, oneRunning.allReady charges nextLt] at missed
        cases missed
      rw [Nat.add_zero] at switches
      refine ⟨⟨_, rfl, rfl⟩, switches.current, length, oneRunning.switched charges switches, ?_⟩
      rw [switches.totalSwitches, charges.totalSwitches]

/-! ## Runs -/

theorem oneRunning_of_run {id : TaskId} {ops : List SchedOp} {sched : Scheduler}
    {answers : List SchedAnswer}
    (budgeted : ∀ spec, SchedOp.addTask spec ∈ ops → spec.IsWithBudget)
    (ran : run perform (booted id) ops = some (sched, answers)) : sched.OneRunning := by
  refine run_induction (motive := fun ops _ sched =>
    (∀ spec, SchedOp.addTask spec ∈ ops → spec.IsWithBudget) → sched.OneRunning)
    (fun _ => booted_oneRunning id) ?_ ran budgeted
  intro ops answers sched op answer after inductionHypothesis performed budgeted
  have before := inductionHypothesis fun spec member =>
    budgeted spec (List.mem_append_left _ member)
  cases op with
  | addTask spec =>
      obtain ⟨rfl, rfl⟩ := Prod.mk.inj (Option.some.inj performed)
      exact before.addTask (budgeted spec (List.mem_append_right _ List.mem_cons_self))
  | prepareSwitch =>
      obtain ⟨switch, prepared, -⟩ := perform_prepareSwitch performed
      have prepares := prepares_of_prepareSwitch prepared
      by_cases enough : 2 ≤ sched.tasks.length
      · exact (before.advances enough prepares).oneRunning
      · rw [prepareSwitch, if_pos (Nat.lt_of_not_le enough)] at prepared
        obtain ⟨rfl, -⟩ := Prod.mk.inj (Option.some.inj prepared)
        exact before

theorem Scheduler.OneRunning.calls {sched later : Scheduler} {answers : List SchedAnswer} {k : Nat}
    (oneRunning : sched.OneRunning) (enough : 2 ≤ sched.tasks.length)
    (ran : run perform sched (List.replicate k .prepareSwitch) = some (later, answers)) :
    later.OneRunning ∧ later.tasks.length = sched.tasks.length ∧
      later.current = (sched.current + k) % sched.tasks.length := by
  refine run_calls_induction (motive := fun k later => later.OneRunning ∧
    later.tasks.length = sched.tasks.length ∧
    later.current = (sched.current + k) % sched.tasks.length)
    ⟨oneRunning, rfl, (Nat.mod_eq_of_lt oneRunning.inside).symm⟩ ?_ ran
  rintro k state next switch ⟨stateRunning, length, current⟩ prepared
  have advances := stateRunning.advances (by omega) (prepares_of_prepareSwitch prepared)
  refine ⟨advances.oneRunning, advances.length.trans length, ?_⟩
  rw [advances.current, length, current, Nat.mod_add_mod, Nat.add_assoc]

/-- Round-robin scheduling: from any run the next call advances by one task, and `n`
calls with `n` tasks make each of them current once. -/
theorem round_robin (id : TaskId) (ops : List SchedOp)
    (budgeted : ∀ spec, SchedOp.addTask spec ∈ ops → spec.IsWithBudget)
    (bounded : switchCalls ops < 2 ^ 64) :
    ∃ sched answers, run perform (booted id) ops = some (sched, answers) ∧ sched.OneRunning ∧
      (sched.tasks.length < 2 → sched.prepareSwitch = some (sched, none)) ∧
      (2 ≤ sched.tasks.length → switchCalls ops + 1 < 2 ^ 64 →
        ∃ next switch, sched.prepareSwitch = some (next, switch) ∧ Advances sched next switch) ∧
      (2 ≤ sched.tasks.length → switchCalls ops + sched.tasks.length < 2 ^ 64 →
        ∀ i < sched.tasks.length, ∃! k, (1 ≤ k ∧ k ≤ sched.tasks.length) ∧
          ∃ later laterAnswers,
            run perform sched (List.replicate k .prepareSwitch) = some (later, laterAnswers) ∧
            later.current = i) := by
  have placed : (booted id).Placed := Or.inl rfl
  have counted : (booted id).Counted 0 := addTask_counted new_counted (.idle id)
  obtain ⟨sched, answers, ran⟩ := run_perform_returns placed counted ops (by omega)
  have oneRunning := oneRunning_of_run budgeted ran
  refine ⟨sched, answers, ran, oneRunning, fun tasksFew => if_pos tasksFew, ?_, ?_⟩
  · intro enough room
    obtain ⟨next, later, called⟩ := run_calls_returns placed counted ran 1 (by omega)
    obtain ⟨_, answer, _, performed, nothing, -⟩ := run_cons_eq_some_iff.mp called
    obtain ⟨rfl, -⟩ := Prod.mk.inj (Option.some.inj nothing)
    obtain ⟨switch, prepared, -⟩ := perform_prepareSwitch performed
    exact ⟨_, switch, prepared,
      oneRunning.advances enough (prepares_of_prepareSwitch prepared)⟩
  · intro enough room i iLt
    have calls : ∀ k, 1 ≤ k ∧ k ≤ sched.tasks.length →
        ((∃ later laterAnswers,
          run perform sched (List.replicate k .prepareSwitch) = some (later, laterAnswers) ∧
          later.current = i) ↔ (sched.current + k) % sched.tasks.length = i) := by
      intro k kBounds
      obtain ⟨final, laterAnswers, called⟩ := run_calls_returns placed counted ran k (by omega)
      constructor
      · rintro ⟨later, _, calledLater, rfl⟩
        exact (oneRunning.calls enough calledLater).2.2.symm
      · rintro rfl
        exact ⟨final, laterAnswers, called, (oneRunning.calls enough called).2.2⟩
    obtain ⟨k, ⟨kBounds, turn⟩, unique⟩ := existsUnique_turn sched.current iLt
    refine ⟨k, ⟨kBounds, (calls k kBounds).mpr turn⟩, ?_⟩
    rintro other ⟨otherBounds, reached⟩
    exact unique other ⟨otherBounds, (calls other otherBounds).mp reached⟩

theorem round_robin_two_tasks :
    ∃ sched answers, run perform (booted 0)
        [.addTask (.withBudget 1 0x8000 4), .prepareSwitch] = some (sched, answers) ∧
      sched.OneRunning := by
  obtain ⟨sched, answers, ran, oneRunning, -⟩ := round_robin 0
    [.addTask (.withBudget 1 0x8000 4), .prepareSwitch]
    (by
      intro spec member
      simp only [List.mem_cons, SchedOp.addTask.injEq, reduceCtorEq, List.not_mem_nil, or_false]
        at member
      exact ⟨1, 0x8000, 4, member⟩)
    (by decide)
  exact ⟨sched, answers, ran, oneRunning⟩

end AxiomKernel.Sched
