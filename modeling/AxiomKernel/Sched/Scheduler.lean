import Mathlib
import AxiomKernel.Lib.Bytes
import AxiomKernel.Lib.Words
import AxiomKernel.Lib.EventRun
import AxiomKernel.Lib.RingSlots
import AxiomKernel.Lib.RingQueue
import AxiomKernel.Lib.RingSearch

/-!
# Tasks and the SCBA scheduler

Model of `task.rs` and of `Scheduler` in `scheduler.rs`.  `none` is a panic: an
index outside `tasks`, or the overflow of a counter.  A task's stack and entry
point stay outside; the saved stack pointer that `new_with_budget` computes is an
argument.  `prepare_switch` returns a pointer to the old task's `rsp`, here the
index of that task.
-/

set_option autoImplicit false

namespace AxiomKernel.Sched

open ByteStrings MachineWords EventRuns RingSearch

/-! ## Tasks -/

abbrev TaskId := U64

inductive TaskState where
  | ready
  | running
  deriving DecidableEq

structure ScbaState where
  budgetMax : U64
  budgetConsumed : U64
  fenceCount : U64
  throttleCount : U64
  epoch : U64

namespace ScbaState

def new (budgetMax : U64) : ScbaState where
  budgetMax := budgetMax
  budgetConsumed := 0
  fenceCount := 0
  throttleCount := 0
  epoch := 0

/-- One tick of CPU time, and whether the budget is exhausted. -/
def tick (scba : ScbaState) : Option (ScbaState × Bool) := do
  let budgetConsumed ← checkedAdd scba.budgetConsumed 1
  return ({ scba with budgetConsumed }, decide (scba.budgetMax ≤ budgetConsumed))

def resetEpoch (scba : ScbaState) : Option ScbaState := do
  let fenceCount ← checkedAdd scba.fenceCount 1
  let epoch ← checkedAdd scba.epoch 1
  return { scba with budgetConsumed := 0, fenceCount, epoch }

/-- The tick of `prepare_switch`, with the new epoch when the budget is exhausted. -/
def charge (scba : ScbaState) : Option (ScbaState × Bool) := do
  let (ticked, exhausted) ← scba.tick
  if exhausted then
    let reset ← ticked.resetEpoch
    return (reset, true)
  else
    return (ticked, false)

end ScbaState

structure Task where
  id : TaskId
  state : TaskState
  rsp : U64
  scba : ScbaState

def Task.newWithBudget (id : TaskId) (rsp budgetMax : U64) : Task where
  id := id
  state := .ready
  rsp := rsp
  scba := ScbaState.new budgetMax

/-- The boot thread; its budget is `u64::MAX`. -/
def Task.newIdle (id : TaskId) : Task where
  id := id
  state := .running
  rsp := 0
  scba := ScbaState.new (BitVec.allOnes 64)

inductive TaskSpec where
  | idle (id : TaskId)
  | withBudget (id : TaskId) (rsp budgetMax : U64)

def TaskSpec.make : TaskSpec → Task
  | .idle id => Task.newIdle id
  | .withBudget id rsp budgetMax => Task.newWithBudget id rsp budgetMax

def TaskSpec.IsWithBudget (spec : TaskSpec) : Prop :=
  ∃ id rsp budgetMax, spec = .withBudget id rsp budgetMax

/-! ## The scheduler -/

structure ScbaStats where
  totalFences : U64
  totalSwitches : U64

structure Scheduler where
  tasks : List Task
  current : Nat
  stats : ScbaStats

structure Switch where
  oldIdx : Nat
  newRsp : U64
  needFence : Bool

namespace Scheduler

def new : Scheduler where
  tasks := []
  current := 0
  stats := ⟨0, 0⟩

def addTask (sched : Scheduler) (task : Task) : Scheduler :=
  { sched with tasks := sched.tasks ++ [task] }

/-- `total_fences += 1` when a fence is needed. -/
def countFence (totalFences : U64) (needFence : Bool) : Option U64 :=
  if needFence then checkedAdd totalFences 1 else some totalFences

/-- The accounting: charge the current task, count the fence, make the task ready. -/
def chargeCurrent (sched : Scheduler) : Option (Scheduler × Bool) := do
  let old ← sched.tasks[sched.current]?
  let (scba, needFence) ← old.scba.charge
  let totalFences ← countFence sched.stats.totalFences needFence
  return ({ sched with
    tasks := sched.tasks.set sched.current { old with scba, state := .ready }
    stats := { sched.stats with totalFences } }, needFence)

/-- The test of the search loop; `none` is an index outside. -/
def isReady (sched : Scheduler) (i : Nat) : Option Bool :=
  sched.tasks[i]?.map fun task => decide (task.state = .ready)

def switchTo (sched : Scheduler) (oldIdx nextIdx : Nat) (needFence : Bool) :
    Option (Scheduler × Option Switch) :=
  if nextIdx = oldIdx then some (sched, none)
  else do
    let next ← sched.tasks[nextIdx]?
    let totalSwitches ← checkedAdd sched.stats.totalSwitches 1
    return ({ tasks := sched.tasks.set nextIdx { next with state := .running }
              current := nextIdx
              stats := { sched.stats with totalSwitches } },
      some { oldIdx, newRsp := next.rsp, needFence })

/-- The search for the next ready task, from the one behind the old task on. -/
def switchFrom (sched : Scheduler) (oldIdx : Nat) (needFence : Bool) :
    Option (Scheduler × Option Switch) := do
  let n := sched.tasks.length
  let start := (oldIdx + 1) % n
  match ← searchRing n sched.isReady start n start with
  | none => return (sched, none)
  | some nextIdx => sched.switchTo oldIdx nextIdx needFence

def prepareSwitch (sched : Scheduler) : Option (Scheduler × Option Switch) :=
  if sched.tasks.length < 2 then some (sched, none)
  else do
    let (charged, needFence) ← sched.chargeCurrent
    charged.switchFrom sched.current needFence

end Scheduler

/-! ## Runs -/

inductive SchedOp where
  | addTask (spec : TaskSpec)
  | prepareSwitch

inductive SchedAnswer where
  | added
  | prepared (switch : Option Switch)

def Scheduler.perform (sched : Scheduler) : SchedOp → Option (Scheduler × SchedAnswer)
  | .addTask spec => some (sched.addTask spec.make, .added)
  | .prepareSwitch => do
      let (next, switch) ← sched.prepareSwitch
      return (next, .prepared switch)

def switchCalls (ops : List SchedOp) : Nat :=
  ops.countP fun
    | .prepareSwitch => true
    | .addTask _ => false

theorem switchCalls_addTask (spec : TaskSpec) (rest : List SchedOp) :
    switchCalls (.addTask spec :: rest) = switchCalls rest :=
  List.countP_cons_of_neg (by simp)

theorem switchCalls_prepareSwitch (rest : List SchedOp) :
    switchCalls (.prepareSwitch :: rest) = switchCalls rest + 1 :=
  List.countP_cons_of_pos rfl

theorem switchCalls_append_calls (ops : List SchedOp) (k : Nat) :
    switchCalls (ops ++ List.replicate k .prepareSwitch) = switchCalls ops + k := by
  rw [switchCalls, List.countP_append, List.countP_replicate]
  rfl

/-! ## Charging a task -/

namespace ScbaState

theorem tick_eq_some_iff {scba after : ScbaState} {exhausted : Bool} :
    scba.tick = some (after, exhausted) ↔
      ∃ consumed : U64, consumed.toNat = scba.budgetConsumed.toNat + 1 ∧
        after = { scba with budgetConsumed := consumed } ∧
        exhausted = decide (scba.budgetMax ≤ consumed) := by
  simp only [tick, Option.bind_eq_bind, Option.bind_eq_some_iff, checkedAdd_eq_some_iff]
  refine exists_congr fun consumed => and_congr_right fun _ => ?_
  simp only [Option.pure_def, Option.some.injEq, Prod.mk.injEq, eq_comm]

theorem resetEpoch_eq_some_iff {scba after : ScbaState} :
    scba.resetEpoch = some after ↔
      ∃ fences epoch : U64, fences.toNat = scba.fenceCount.toNat + 1 ∧
        epoch.toNat = scba.epoch.toNat + 1 ∧
        after = { scba with budgetConsumed := 0, fenceCount := fences, epoch := epoch } := by
  simp only [resetEpoch, Option.bind_eq_bind, Option.bind_eq_some_iff, checkedAdd_eq_some_iff]
  constructor
  · rintro ⟨fences, fencesEq, epoch, epochEq, returned⟩
    exact ⟨fences, epoch, fencesEq, epochEq, (Option.some.inj returned).symm⟩
  · rintro ⟨fences, epoch, fencesEq, epochEq, rfl⟩
    exact ⟨fences, fencesEq, epoch, epochEq, rfl⟩

structure Charged (scba after : ScbaState) (exhausted : Bool) : Prop where
  budgetMax : after.budgetMax = scba.budgetMax
  whenSpent : exhausted = true ↔ scba.budgetMax.toNat ≤ scba.budgetConsumed.toNat + 1
  budgetConsumed : after.budgetConsumed.toNat =
    if exhausted then 0 else scba.budgetConsumed.toNat + 1
  fenceCount : after.fenceCount.toNat = scba.fenceCount.toNat + exhausted.toNat
  epoch : after.epoch.toNat = scba.epoch.toNat + exhausted.toNat

theorem charged_of_charge {scba after : ScbaState} {exhausted : Bool}
    (charges : scba.charge = some (after, exhausted)) : scba.Charged after exhausted := by
  rw [charge, Option.bind_eq_bind, Option.bind_eq_some_iff] at charges
  obtain ⟨⟨ticked, spent⟩, tick, rest⟩ := charges
  obtain ⟨consumed, consumedEq, rfl, rfl⟩ := tick_eq_some_iff.mp tick
  have compare : scba.budgetMax ≤ consumed ↔
      scba.budgetMax.toNat ≤ scba.budgetConsumed.toNat + 1 := by
    rw [BitVec.le_def, consumedEq]
  by_cases spent : scba.budgetMax ≤ consumed
  · simp only [spent, decide_true, if_true, Option.bind_eq_bind, Option.bind_eq_some_iff] at rest
    obtain ⟨reset, resets, returned⟩ := rest
    obtain ⟨rfl, rfl⟩ := Prod.mk.inj (Option.some.inj returned)
    obtain ⟨fences, epoch, fencesEq, epochEq, rfl⟩ := resetEpoch_eq_some_iff.mp resets
    exact ⟨rfl, by simp [compare.mp spent], rfl, fencesEq, epochEq⟩
  · simp only [spent, decide_false, Bool.false_eq_true, if_false] at rest
    obtain ⟨rfl, rfl⟩ := Prod.mk.inj (Option.some.inj rest)
    exact ⟨rfl, by simp [← compare, spent], consumedEq, rfl, rfl⟩

theorem Charged.counters_le {scba after : ScbaState} {exhausted : Bool} {calls : Nat}
    (charged : scba.Charged after exhausted)
    (before : scba.budgetConsumed.toNat ≤ calls ∧ scba.fenceCount.toNat ≤ calls ∧
      scba.epoch.toNat ≤ calls) :
    after.budgetConsumed.toNat ≤ calls + 1 ∧ after.fenceCount.toNat ≤ calls + 1 ∧
      after.epoch.toNat ≤ calls + 1 := by
  obtain ⟨consumed, fences, epoch⟩ := before
  have fence : exhausted.toNat ≤ 1 := Bool.toNat_le exhausted
  rw [charged.fenceCount, charged.epoch, charged.budgetConsumed]
  split <;> omega

theorem charge_returns {scba : ScbaState} (consumed : scba.budgetConsumed.toNat + 1 < 2 ^ 64)
    (fences : scba.fenceCount.toNat + 1 < 2 ^ 64) (epoch : scba.epoch.toNat + 1 < 2 ^ 64) :
    ∃ after exhausted, scba.charge = some (after, exhausted) := by
  have ticks : scba.tick = some ({ scba with budgetConsumed := scba.budgetConsumed + 1 },
      decide (scba.budgetMax ≤ scba.budgetConsumed + 1)) := by
    rw [tick, checkedAdd_of_lt consumed]
    rfl
  have resets : ({ scba with budgetConsumed := scba.budgetConsumed + 1 } : ScbaState).resetEpoch =
      some { scba with
        budgetConsumed := 0, fenceCount := scba.fenceCount + 1, epoch := scba.epoch + 1 } := by
    rw [resetEpoch, checkedAdd_of_lt fences, checkedAdd_of_lt epoch]
    rfl
  by_cases spent : scba.budgetMax ≤ scba.budgetConsumed + 1
  · have charges : scba.charge = some ({ scba with
        budgetConsumed := 0, fenceCount := scba.fenceCount + 1, epoch := scba.epoch + 1 }, true) := by
      simp only [charge, ticks, decide_eq_true spent, Option.bind_eq_bind, Option.bind_some, if_true,
        resets]
      rfl
    exact ⟨_, _, charges⟩
  · have charges : scba.charge =
        some ({ scba with budgetConsumed := scba.budgetConsumed + 1 }, false) := by
      simp only [charge, ticks, decide_eq_false spent, Option.bind_eq_bind, Option.bind_some]
      rfl
    exact ⟨_, _, charges⟩

end ScbaState

/-! ## What one call of `prepare_switch` does -/

namespace Scheduler

theorem isReady_eq_some_iff {sched : Scheduler} {i : Nat} {answer : Bool} :
    sched.isReady i = some answer ↔
      ∃ task, sched.tasks[i]? = some task ∧ decide (task.state = .ready) = answer := by
  rw [isReady, Option.map_eq_some_iff]

theorem countFence_toNat {before after : U64} {needFence : Bool}
    (counted : countFence before needFence = some after) :
    after.toNat = before.toNat + needFence.toNat := by
  cases needFence with
  | true => exact (checkedAdd_eq_some_iff before 1 after).mp counted
  | false =>
      obtain rfl := Option.some.inj counted
      rfl

theorem countFence_returns {before : U64} (room : before.toNat + 1 < 2 ^ 64) (needFence : Bool) :
    ∃ after, countFence before needFence = some after := by
  cases needFence with
  | true => exact ⟨before + 1, checkedAdd_of_lt room⟩
  | false => exact ⟨before, rfl⟩

structure Charges (sched charged : Scheduler) (needFence : Bool) (old : Task) (scba : ScbaState) :
    Prop where
  found : sched.tasks[sched.current]? = some old
  charges : old.scba.charge = some (scba, needFence)
  tasks : charged.tasks = sched.tasks.set sched.current { old with scba, state := .ready }
  current : charged.current = sched.current
  totalFences : charged.stats.totalFences.toNat = sched.stats.totalFences.toNat + needFence.toNat
  totalSwitches : charged.stats.totalSwitches = sched.stats.totalSwitches

theorem charges_of_chargeCurrent {sched charged : Scheduler} {needFence : Bool}
    (charging : sched.chargeCurrent = some (charged, needFence)) :
    ∃ old scba, sched.Charges charged needFence old scba := by
  simp only [chargeCurrent, Option.bind_eq_bind, Option.bind_eq_some_iff] at charging
  obtain ⟨old, found, ⟨scba, spent⟩, charges, totalFences, fences, returned⟩ := charging
  obtain ⟨rfl, rfl⟩ := Prod.mk.inj (Option.some.inj returned)
  exact ⟨old, scba, found, charges, rfl, rfl, countFence_toNat fences, rfl⟩

theorem Charges.inside {sched charged : Scheduler} {needFence : Bool} {old : Task} {scba : ScbaState}
    (charges : sched.Charges charged needFence old scba) :
    sched.current < sched.tasks.length :=
  (List.getElem?_eq_some_iff.mp charges.found).1

theorem Charges.length {sched charged : Scheduler} {needFence : Bool} {old : Task} {scba : ScbaState}
    (charges : sched.Charges charged needFence old scba) :
    charged.tasks.length = sched.tasks.length := by
  rw [charges.tasks, List.length_set]

/-- The search finds the first ready task behind the old one, which is ready itself. -/
theorem switchFrom_eq {sched : Scheduler} {oldIdx : Nat} (oldReady : sched.isReady oldIdx = some true)
    (needFence : Bool) :
    ∃ k < sched.tasks.length,
      sched.switchFrom oldIdx needFence =
        sched.switchTo oldIdx ((oldIdx + 1 + k) % sched.tasks.length) needFence ∧
      sched.isReady ((oldIdx + 1 + k) % sched.tasks.length) = some true ∧
      ∀ j < k, sched.isReady ((oldIdx + 1 + j) % sched.tasks.length) = some false := by
  obtain ⟨old, found, -⟩ := isReady_eq_some_iff.mp oldReady
  have inside := (List.getElem?_eq_some_iff.mp found).1
  have tests : ∀ i < sched.tasks.length, sched.isReady i = some ((sched.isReady i).getD false) := by
    intro i iLt
    rw [isReady, List.getElem?_eq_getElem iLt]
    rfl
  have startLt : (oldIdx + 1) % sched.tasks.length < sched.tasks.length :=
    Nat.mod_lt _ (by omega)
  obtain ⟨k, kLt, searched, hit, misses⟩ := searchRing_first startLt tests inside
    (by rw [oldReady]; rfl)
  have position : ∀ j, ((oldIdx + 1) % sched.tasks.length + j) % sched.tasks.length =
      (oldIdx + 1 + j) % sched.tasks.length := fun j => Nat.mod_add_mod _ _ _
  have inRing : ∀ j, (oldIdx + 1 + j) % sched.tasks.length < sched.tasks.length :=
    fun j => Nat.mod_lt _ (by omega)
  rw [position] at searched hit
  refine ⟨k, kLt, ?_, by rw [tests _ (inRing k), hit], ?_⟩
  · simp only [switchFrom, searched, Option.bind_eq_bind, Option.bind_some]
  · intro j jLt
    have miss := misses j jLt
    rw [position] at miss
    rw [tests _ (inRing j), miss]

structure Switches (charged next : Scheduler) (oldIdx nextIdx : Nat) (task : Task) : Prop where
  found : charged.tasks[nextIdx]? = some task
  ready : task.state = .ready
  different : nextIdx ≠ oldIdx
  tasks : next.tasks = charged.tasks.set nextIdx { task with state := .running }
  current : next.current = nextIdx
  totalFences : next.stats.totalFences = charged.stats.totalFences
  totalSwitches : next.stats.totalSwitches.toNat = charged.stats.totalSwitches.toNat + 1

/-- All that a call of `prepare_switch` can do when it returns. -/
inductive Prepares (sched : Scheduler) : Scheduler → Option Switch → Prop
  | few (tasksFew : sched.tasks.length < 2) : Prepares sched sched none
  /-- No other task is ready. -/
  | stayed {charged : Scheduler} {needFence : Bool} {old : Task} {scba : ScbaState}
      (enough : 2 ≤ sched.tasks.length) (charges : sched.Charges charged needFence old scba)
      (alone : ∀ i, charged.isReady i = some true → i = sched.current) :
      Prepares sched charged none
  /-- The first ready task behind the current one becomes current. -/
  | switched {charged next : Scheduler} {needFence : Bool} {old task : Task} {scba : ScbaState}
      {k : Nat} (enough : 2 ≤ sched.tasks.length)
      (charges : sched.Charges charged needFence old scba)
      (switches : charged.Switches next sched.current
        ((sched.current + 1 + k) % sched.tasks.length) task)
      (first : ∀ j < k,
        charged.isReady ((sched.current + 1 + j) % sched.tasks.length) = some false) :
      Prepares sched next (some { oldIdx := sched.current, newRsp := task.rsp, needFence })

theorem Charges.oldReady {sched charged : Scheduler} {needFence : Bool} {old : Task}
    {scba : ScbaState} (charges : sched.Charges charged needFence old scba) :
    charged.isReady sched.current = some true := by
  rw [isReady, charges.tasks, List.getElem?_set_self charges.inside]
  rfl

theorem Charges.isReady_of_ne {sched charged : Scheduler} {needFence : Bool} {old : Task}
    {scba : ScbaState} (charges : sched.Charges charged needFence old scba) {i : Nat}
    (other : i ≠ sched.current) : charged.isReady i = sched.isReady i := by
  rw [isReady, charges.tasks, List.getElem?_set_ne (Ne.symm other), isReady]

theorem Switches.wasReady {charged next : Scheduler} {oldIdx nextIdx : Nat} {task : Task}
    (switches : charged.Switches next oldIdx nextIdx task) : charged.isReady nextIdx = some true :=
  isReady_eq_some_iff.mpr ⟨task, switches.found, decide_eq_true switches.ready⟩

theorem Switches.isReady_of_ne {charged next : Scheduler} {oldIdx nextIdx i : Nat} {task : Task}
    (switches : charged.Switches next oldIdx nextIdx task) (other : i ≠ nextIdx) :
    next.isReady i = charged.isReady i := by
  rw [isReady, switches.tasks, List.getElem?_set_ne (Ne.symm other), isReady]

/-- When the search comes back to the old task, no other is ready. -/
theorem Charges.alone_of_back {sched charged : Scheduler} {needFence : Bool} {old : Task}
    {scba : ScbaState} (charges : sched.Charges charged needFence old scba) {k : Nat}
    (kLt : k < sched.tasks.length)
    (back : (sched.current + 1 + k) % sched.tasks.length = sched.current)
    (first : ∀ j < k, charged.isReady ((sched.current + 1 + j) % sched.tasks.length) = some false)
    (i : Nat) (ready : charged.isReady i = some true) : i = sched.current := by
  have inside := charges.inside
  obtain ⟨task, found, -⟩ := isReady_eq_some_iff.mp ready
  have iLt : i < sched.tasks.length := by
    rw [← charges.length]
    exact (List.getElem?_eq_some_iff.mp found).1
  have wholeRound : k + 1 = sched.tasks.length := by
    by_contra short
    rw [Nat.add_assoc, Nat.add_comm 1 k] at back
    have offsets := RingQueues.offset_inj (by omega : k + 1 < sched.tasks.length)
      (by omega : 0 < sched.tasks.length) (back.trans (Nat.mod_eq_of_lt inside).symm)
    cases offsets
  have positive : NeZero sched.tasks.length := ⟨by omega⟩
  obtain ⟨j, jLt, slot⟩ := RingSlots.exists_offset (sched.current + 1)
    (⟨i, iLt⟩ : Fin sched.tasks.length)
  have position : (sched.current + 1 + j) % sched.tasks.length = i := congrArg Fin.val slot
  by_cases early : j < k
  · have missed := first j early
    rw [position, ready] at missed
    cases missed
  · obtain rfl : j = k := by omega
    rw [← position, back]

theorem prepares_of_prepareSwitch {sched next : Scheduler} {switch : Option Switch}
    (prepared : sched.prepareSwitch = some (next, switch)) : sched.Prepares next switch := by
  rw [prepareSwitch] at prepared
  split at prepared
  case isTrue tasksFew =>
    obtain ⟨rfl, rfl⟩ := Prod.mk.inj (Option.some.inj prepared)
    exact .few tasksFew
  case isFalse enough =>
    rw [Nat.not_lt] at enough
    rw [Option.bind_eq_bind, Option.bind_eq_some_iff] at prepared
    obtain ⟨⟨charged, needFence⟩, charging, switching⟩ := prepared
    obtain ⟨old, scba, charges⟩ := charges_of_chargeCurrent charging
    obtain ⟨k, kLt, found, ready, first⟩ := switchFrom_eq charges.oldReady needFence
    simp only [found, switchTo] at switching
    rw [charges.length] at kLt ready first switching
    split at switching
    case isTrue back =>
      obtain ⟨rfl, rfl⟩ := Prod.mk.inj (Option.some.inj switching)
      exact .stayed enough charges (charges.alone_of_back kLt back first)
    case isFalse different =>
      simp only [Option.bind_eq_bind, Option.bind_eq_some_iff] at switching
      obtain ⟨task, taskFound, totalSwitches, counted, returned⟩ := switching
      obtain ⟨rfl, rfl⟩ := Prod.mk.inj (Option.some.inj returned)
      obtain ⟨_, same, isReadyTask⟩ := isReady_eq_some_iff.mp ready
      obtain rfl := Option.some.inj (taskFound.symm.trans same)
      exact .switched enough charges ⟨taskFound, of_decide_eq_true isReadyTask, different, rfl, rfl,
        rfl, (checkedAdd_eq_some_iff _ _ _).mp counted⟩ first

/-! ## Calls that return -/

structure Counted (sched : Scheduler) (calls : Nat) : Prop where
  tasks : ∀ task ∈ sched.tasks, task.scba.budgetConsumed.toNat ≤ calls ∧
    task.scba.fenceCount.toNat ≤ calls ∧ task.scba.epoch.toNat ≤ calls
  totalFences : sched.stats.totalFences.toNat ≤ calls
  totalSwitches : sched.stats.totalSwitches.toNat ≤ calls

theorem switchTo_returns (sched : Scheduler) (oldIdx : Nat) {nextIdx : Nat} (needFence : Bool)
    (inside : nextIdx < sched.tasks.length)
    (room : sched.stats.totalSwitches.toNat + 1 < 2 ^ 64) :
    ∃ next switch, sched.switchTo oldIdx nextIdx needFence = some (next, switch) := by
  by_cases back : nextIdx = oldIdx
  · exact ⟨sched, none, if_pos back⟩
  · have returns : (sched.switchTo oldIdx nextIdx needFence).isSome := by
      rw [switchTo, if_neg back, List.getElem?_eq_getElem inside, checkedAdd_of_lt room]
      rfl
    obtain ⟨⟨next, switch⟩, returned⟩ := Option.isSome_iff_exists.mp returns
    exact ⟨next, switch, returned⟩

theorem chargeCurrent_returns {sched : Scheduler} {calls : Nat}
    (inside : sched.current < sched.tasks.length) (counted : sched.Counted calls)
    (room : calls + 1 < 2 ^ 64) :
    ∃ charged needFence, sched.chargeCurrent = some (charged, needFence) := by
  have found : sched.tasks[sched.current]? = some sched.tasks[sched.current] :=
    List.getElem?_eq_getElem inside
  obtain ⟨consumed, fences, epoch⟩ := counted.tasks _ (List.getElem_mem inside)
  have total := counted.totalFences
  generalize sched.tasks[sched.current] = old at found consumed fences epoch
  obtain ⟨scba, needFence, charges⟩ := ScbaState.charge_returns
    (by omega : old.scba.budgetConsumed.toNat + 1 < 2 ^ 64) (by omega) (by omega)
  obtain ⟨totalFences, counts⟩ := countFence_returns
    (by omega : sched.stats.totalFences.toNat + 1 < 2 ^ 64) needFence
  have returns : sched.chargeCurrent.isSome := by
    simp only [chargeCurrent, found, charges, counts, Option.bind_eq_bind, Option.bind_some]
    rfl
  obtain ⟨⟨charged, answer⟩, returned⟩ := Option.isSome_iff_exists.mp returns
  exact ⟨charged, answer, returned⟩

/-- The current task exists, unless there is none yet. -/
def Placed (sched : Scheduler) : Prop :=
  sched.current = 0 ∨ sched.current < sched.tasks.length

theorem Placed.inside {sched : Scheduler} (placed : sched.Placed)
    (enough : 2 ≤ sched.tasks.length) : sched.current < sched.tasks.length := by
  rcases placed with first | inside
  · omega
  · exact inside

theorem prepareSwitch_returns {sched : Scheduler} {calls : Nat} (placed : sched.Placed)
    (counted : sched.Counted calls) (room : calls + 1 < 2 ^ 64) :
    ∃ next switch, sched.prepareSwitch = some (next, switch) := by
  by_cases tasksFew : sched.tasks.length < 2
  · exact ⟨sched, none, if_pos tasksFew⟩
  · obtain ⟨charged, needFence, charging⟩ :=
      chargeCurrent_returns (placed.inside (Nat.not_lt.mp tasksFew)) counted room
    obtain ⟨old, scba, charges⟩ := charges_of_chargeCurrent charging
    obtain ⟨k, kLt, found, -⟩ := switchFrom_eq charges.oldReady needFence
    have total := counted.totalSwitches
    obtain ⟨next, switch, returned⟩ := charged.switchTo_returns sched.current needFence
      (Nat.mod_lt (sched.current + 1 + k) (by omega : 0 < charged.tasks.length))
      (by rw [charges.totalSwitches]; omega)
    refine ⟨next, switch, ?_⟩
    rw [prepareSwitch, if_neg tasksFew, charging]
    exact found.trans returned

theorem Charges.counted {sched charged : Scheduler} {needFence : Bool} {old : Task}
    {scba : ScbaState} {calls : Nat} (charges : sched.Charges charged needFence old scba)
    (counted : sched.Counted calls) : charged.Counted (calls + 1) := by
  have fence : needFence.toNat ≤ 1 := Bool.toNat_le needFence
  have spent := ScbaState.charged_of_charge charges.charges
  refine ⟨?_, ?_, ?_⟩
  · intro task member
    rw [charges.tasks] at member
    rcases List.mem_or_eq_of_mem_set member with unchanged | rfl
    · obtain ⟨consumed, fences, epoch⟩ := counted.tasks task unchanged
      omega
    · exact spent.counters_le (counted.tasks old (List.mem_of_getElem? charges.found))
  · rw [charges.totalFences]
    have total := counted.totalFences
    omega
  · rw [charges.totalSwitches]
    exact Nat.le_succ_of_le counted.totalSwitches

theorem Prepares.counted {sched next : Scheduler} {switch : Option Switch} {calls : Nat}
    (prepares : sched.Prepares next switch) (counted : sched.Counted calls) :
    next.Counted (calls + 1) := by
  cases prepares with
  | few =>
      refine ⟨?_, Nat.le_succ_of_le counted.totalFences, Nat.le_succ_of_le counted.totalSwitches⟩
      intro task member
      obtain ⟨consumed, fences, epoch⟩ := counted.tasks task member
      omega
  | stayed enough charges alone => exact charges.counted counted
  | switched enough charges switches first =>
      have afterCharge := charges.counted counted
      refine ⟨?_, by rw [switches.totalFences]; exact afterCharge.totalFences, ?_⟩
      · intro task member
        rw [switches.tasks] at member
        rcases List.mem_or_eq_of_mem_set member with unchanged | rfl
        · exact afterCharge.tasks task unchanged
        · have kept := afterCharge.tasks _ (List.mem_of_getElem? switches.found)
          exact kept
      · rw [switches.totalSwitches, charges.totalSwitches]
        exact Nat.succ_le_succ counted.totalSwitches

theorem Prepares.length {sched next : Scheduler} {switch : Option Switch}
    (prepares : sched.Prepares next switch) : next.tasks.length = sched.tasks.length := by
  cases prepares with
  | few => rfl
  | stayed enough charges alone => exact charges.length
  | switched enough charges switches first =>
      rw [switches.tasks, List.length_set, charges.length]

theorem Prepares.placed {sched next : Scheduler} {switch : Option Switch}
    (prepares : sched.Prepares next switch) (placed : sched.Placed) : next.Placed := by
  have length := prepares.length
  cases prepares with
  | few => exact placed
  | stayed enough charges alone =>
      rw [Placed, length, charges.current]
      exact placed
  | switched enough charges switches first =>
      refine Or.inr ?_
      rw [length, switches.current]
      exact Nat.mod_lt _ (by omega)

theorem new_counted : Scheduler.new.Counted 0 where
  tasks := nofun
  totalFences := le_refl _
  totalSwitches := le_refl _

theorem addTask_counted {sched : Scheduler} {calls : Nat} (counted : sched.Counted calls)
    (spec : TaskSpec) : (sched.addTask spec.make).Counted calls := by
  refine ⟨?_, counted.totalFences, counted.totalSwitches⟩
  intro task member
  rcases List.mem_append.mp member with earlier | added
  · exact counted.tasks task earlier
  · obtain rfl := List.mem_singleton.mp added
    cases spec <;> exact ⟨Nat.zero_le _, Nat.zero_le _, Nat.zero_le _⟩

theorem getElem?_concat_eq_some {α : Type} {items : List α} {item found : α} {i : Nat}
    (foundAt : (items ++ [item])[i]? = some found) :
    items[i]? = some found ∨ i = items.length ∧ item = found := by
  rcases Nat.lt_trichotomy i items.length with earlier | rfl | beyond
  · rw [List.getElem?_append_left earlier] at foundAt
    exact Or.inl foundAt
  · rw [List.getElem?_concat_length] at foundAt
    exact Or.inr ⟨rfl, Option.some.inj foundAt⟩
  · rw [List.getElem?_eq_none (by rw [List.length_append, List.length_singleton]; omega)] at foundAt
    cases foundAt

theorem addTask_placed {sched : Scheduler} (placed : sched.Placed) (task : Task) :
    (sched.addTask task).Placed := by
  rcases placed with first | inside
  · exact Or.inl first
  · refine Or.inr ?_
    simp only [addTask, List.length_append]
    omega

theorem perform_prepareSwitch {sched next : Scheduler} {answer : SchedAnswer}
    (performed : sched.perform .prepareSwitch = some (next, answer)) :
    ∃ switch, sched.prepareSwitch = some (next, switch) ∧ answer = .prepared switch := by
  rw [perform, Option.bind_eq_bind, Option.bind_eq_some_iff] at performed
  obtain ⟨⟨_, switch⟩, prepared, returned⟩ := performed
  obtain ⟨rfl, rfl⟩ := Prod.mk.inj (Option.some.inj returned)
  exact ⟨switch, prepared, rfl⟩

/-- Below the overflow of a counter every sequence of operations returns. -/
theorem run_perform_returns {sched : Scheduler} {calls : Nat} (placed : sched.Placed)
    (counted : sched.Counted calls) (ops : List SchedOp)
    (room : calls + switchCalls ops < 2 ^ 64) :
    ∃ final answers, run perform sched ops = some (final, answers) := by
  refine run_returns (fun rest state => state.Placed ∧
    ∃ calls, state.Counted calls ∧ calls + switchCalls rest < 2 ^ 64) ?_ ops sched
    ⟨placed, calls, counted, room⟩
  rintro op rest state ⟨placed, calls, counted, room⟩
  cases op with
  | addTask spec =>
      rw [switchCalls_addTask] at room
      exact ⟨_, .added, rfl, addTask_placed placed spec.make, calls, addTask_counted counted spec, room⟩
  | prepareSwitch =>
      rw [switchCalls_prepareSwitch] at room
      obtain ⟨next, switch, prepared⟩ := prepareSwitch_returns placed counted (by omega)
      have prepares := prepares_of_prepareSwitch prepared
      refine ⟨next, .prepared switch, ?_, prepares.placed placed, calls + 1,
        prepares.counted counted, by omega⟩
      rw [perform, prepared]
      rfl

/-- The invariant rule for calls of `prepare_switch` only. -/
theorem run_calls_induction {sched : Scheduler} {motive : Nat → Scheduler → Prop}
    (atStart : motive 0 sched)
    (kept : ∀ k state next switch, motive k state → state.prepareSwitch = some (next, switch) →
      motive (k + 1) next)
    {k : Nat} {later : Scheduler} {answers : List SchedAnswer}
    (ran : run perform sched (List.replicate k .prepareSwitch) = some (later, answers)) :
    motive k later := by
  induction k generalizing later answers with
  | zero =>
      obtain ⟨rfl, -⟩ := Prod.mk.inj (Option.some.inj ran)
      exact atStart
  | succ k inductionHypothesis =>
      rw [List.replicate_succ', run_concat_eq_some_iff] at ran
      obtain ⟨middle, earlier, answer, ranBefore, performed, -⟩ := ran
      obtain ⟨switch, prepared, -⟩ := perform_prepareSwitch performed
      exact kept k middle later switch (inductionHypothesis ranBefore) prepared

/-- The calls after a run that returned return too, below the overflow. -/
theorem run_calls_returns {sched middle : Scheduler} {calls : Nat} {ops : List SchedOp}
    {answers : List SchedAnswer} (placed : sched.Placed) (counted : sched.Counted calls)
    (ran : run perform sched ops = some (middle, answers)) (k : Nat)
    (room : calls + (switchCalls ops + k) < 2 ^ 64) :
    ∃ final later, run perform middle (List.replicate k .prepareSwitch) = some (final, later) := by
  rw [← switchCalls_append_calls] at room
  obtain ⟨final, all, wholeRan⟩ := run_perform_returns placed counted _ room
  obtain ⟨_, _, later, firstRan, laterRan, -⟩ := run_append_eq_some_iff.mp wholeRan
  obtain ⟨rfl, -⟩ := Prod.mk.inj (Option.some.inj (ran.symm.trans firstRan))
  exact ⟨final, later, laterRan⟩

end Scheduler

end AxiomKernel.Sched
