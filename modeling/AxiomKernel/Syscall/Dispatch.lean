import Mathlib
import AxiomKernel.Lib.Bytes
import AxiomKernel.Lib.EventRun
import AxiomKernel.Lib.LabelledRun
import AxiomKernel.Meal.Log
import AxiomKernel.Meal.History
import AxiomKernel.Meal.Runs
import AxiomKernel.Meal.Concurrent
import AxiomKernel.Sched.Scheduler
import AxiomKernel.Syscall.Entry
import AxiomKernel.Syscall.UserRuns

/-!
# The dispatcher and its audit trail

Model of `syscall_dispatch` and `user::notify_exit`.  A system call runs with
interrupts off, so nothing comes between its steps; what it can find taken are the
locks of `MEAL` and `SCHEDULER`, held by a task that was preempted.  `none` is a panic,
the overflow of the audit log's counter.

The audit trail of a user program is what its calls append to the log; together with the
runs of the stub it says what the log of a whole run holds.
-/

set_option autoImplicit false

namespace AxiomKernel.Syscall

open ByteStrings EventRuns LabelledRuns
open Meal (MealLog AppendCall LogCall Records)

/-! ## The dispatcher -/

/-- The statics a system call reads and writes. -/
structure Kernel where
  syscallCount : U64
  lastSyscallNr : U64
  lastSyscallRet : U64
  userExited : Bool
  meal : MealLog
  sched : Sched.Scheduler

/-- What a system call finds: the two locks and `TICKS`. -/
structure Moment where
  mealLocked : Bool
  schedLocked : Bool
  ticks : U64

namespace Kernel

/-- `meal::log`: one attempt to take the lock. -/
def log (kernel : Kernel) (moment : Moment) (call : LogCall) : Option Kernel :=
  if moment.mealLocked then some kernel
  else do
    let (meal, _) ← kernel.meal.append (call.appendCall moment.ticks)
    return { kernel with meal := meal }

def notifyExit (kernel : Kernel) (moment : Moment) (code : U64) : Option Kernel := do
  let logged ← kernel.log moment ⟨.processExited, 3, code, 0⟩
  return { logged with userExited := true }

/-- The `match` on the number of the call. -/
def serve (kernel : Kernel) (moment : Moment) (call : Call) : Option (Kernel × U64) :=
  if call.nr = 0 then some (kernel, 0)
  else if call.nr = 9 then
    some (kernel, if moment.schedLocked then -1 else kernel.sched.stats.totalFences)
  else if call.nr = 11 then do
    let exited ← kernel.notifyExit moment call.arg1
    return (exited, 0)
  else some (kernel, -38)

def syscallDispatch (kernel : Kernel) (moment : Moment) (call : Call) : Option (Kernel × U64) := do
  let counted := { kernel with
    syscallCount := kernel.syscallCount + 1
    lastSyscallNr := call.nr }
  let logged ← counted.log moment ⟨.syscallDispatched, 3, call.nr, 0⟩
  let (served, ret) ← logged.serve moment call
  return ({ served with lastSyscallRet := ret }, ret)

end Kernel

/-! ## What one call does -/

/-- What `notify_exit` appends to the audit log, for the call `Exit` only. -/
def Call.exitTrail (call : Call) (moment : Moment) : List AppendCall :=
  if call.nr = 11 then [⟨moment.ticks, .processExited, 3, call.arg1, 0⟩] else []

/-- What a call appends to the audit log: nothing when the lock of the log is taken. -/
def Call.trail (call : Call) (moment : Moment) : List AppendCall :=
  if moment.mealLocked then []
  else ⟨moment.ticks, .syscallDispatched, 3, call.nr, 0⟩ :: call.exitTrail moment

/-- The answer of a call, by its number. -/
def Call.answer (call : Call) (moment : Moment) (totalFences : U64) : U64 :=
  if call.nr = 0 ∨ call.nr = 11 then 0
  else if call.nr = 9 then if moment.schedLocked then -1 else totalFences
  else -38

theorem Kernel.log_cases {kernel logged : Kernel} {moment : Moment} {call : LogCall}
    (logs : kernel.log moment call = some logged) :
    ∃ meal seqs, logged = { kernel with meal := meal } ∧
      kernel.meal.appendAll
        (if moment.mealLocked then [] else [call.appendCall moment.ticks]) = some (meal, seqs) := by
  rw [Kernel.log] at logs
  split at logs
  case isTrue locked =>
    obtain rfl := Option.some.inj logs
    refine ⟨kernel.meal, [], rfl, ?_⟩
    rw [if_pos locked]
    rfl
  case isFalse free =>
    rw [Option.bind_eq_bind, Option.bind_eq_some_iff] at logs
    obtain ⟨⟨meal, seq⟩, appended, returned⟩ := logs
    obtain rfl := Option.some.inj returned
    refine ⟨meal, [seq], rfl, ?_⟩
    rw [if_neg free]
    exact run_cons_eq_some_iff.mpr ⟨meal, seq, [], appended, rfl, rfl⟩

theorem Kernel.serve_cases {kernel served : Kernel} {moment : Moment} {call : Call} {ret : U64}
    (serves : kernel.serve moment call = some (served, ret)) :
    ∃ meal seqs,
      served = { kernel with
        meal := meal
        userExited := kernel.userExited || decide (call.nr = 11) } ∧
      ret = call.answer moment kernel.sched.stats.totalFences ∧
      kernel.meal.appendAll (if moment.mealLocked then [] else call.exitTrail moment) =
        some (meal, seqs) := by
  -- all calls but `Exit` leave the statics alone
  have unchanged : call.nr ≠ 11 → served = kernel →
      ∃ meal seqs,
        served = { kernel with
          meal := meal
          userExited := kernel.userExited || decide (call.nr = 11) } ∧
        kernel.meal.appendAll (if moment.mealLocked then [] else call.exitTrail moment) =
          some (meal, seqs) := by
    intro notExit same
    refine ⟨kernel.meal, [], ?_, ?_⟩
    · rw [same, decide_eq_false notExit, Bool.or_false]
    · rw [Call.exitTrail, if_neg notExit, ite_self]
      rfl
  rw [Kernel.serve] at serves
  rw [Call.answer]
  by_cases yield : call.nr = 0
  · rw [if_pos yield] at serves
    obtain ⟨rfl, rfl⟩ := Prod.mk.inj (Option.some.inj serves)
    obtain ⟨meal, seqs, same, appended⟩ := unchanged (by rw [yield]; decide) rfl
    exact ⟨meal, seqs, same, by rw [if_pos (Or.inl yield)], appended⟩
  rw [if_neg yield] at serves
  by_cases query : call.nr = 9
  · rw [if_pos query] at serves
    obtain ⟨rfl, rfl⟩ := Prod.mk.inj (Option.some.inj serves)
    have notExit : call.nr ≠ 11 := by
      rw [query]
      decide
    obtain ⟨meal, seqs, same, appended⟩ := unchanged notExit rfl
    exact ⟨meal, seqs, same, by rw [if_neg (not_or.mpr ⟨yield, notExit⟩), if_pos query], appended⟩
  rw [if_neg query] at serves
  by_cases exit : call.nr = 11
  · rw [if_pos exit, Option.bind_eq_bind, Option.bind_eq_some_iff] at serves
    obtain ⟨exited, exits, returned⟩ := serves
    obtain ⟨rfl, rfl⟩ := Prod.mk.inj (Option.some.inj returned)
    rw [Kernel.notifyExit, Option.bind_eq_bind, Option.bind_eq_some_iff] at exits
    obtain ⟨logged, logs, returned⟩ := exits
    obtain rfl := Option.some.inj returned
    obtain ⟨meal, seqs, rfl, appended⟩ := Kernel.log_cases logs
    refine ⟨meal, seqs, ?_, by rw [if_pos (Or.inr exit)], ?_⟩
    · rw [decide_eq_true exit, Bool.or_true]
    · rw [Call.exitTrail, if_pos exit]
      exact appended
  · rw [if_neg exit] at serves
    obtain ⟨rfl, rfl⟩ := Prod.mk.inj (Option.some.inj serves)
    obtain ⟨meal, seqs, same, appended⟩ := unchanged exit rfl
    exact ⟨meal, seqs, same, by rw [if_neg (not_or.mpr ⟨yield, exit⟩), if_neg query], appended⟩

structure Kernel.Served (kernel after : Kernel) (moment : Moment) (call : Call) (answer : U64) :
    Prop where
  syscallCount : after.syscallCount = kernel.syscallCount + 1
  lastSyscallNr : after.lastSyscallNr = call.nr
  lastSyscallRet : after.lastSyscallRet = answer
  userExited : after.userExited = (kernel.userExited || decide (call.nr = 11))
  sched : after.sched = kernel.sched
  answered : answer = call.answer moment kernel.sched.stats.totalFences
  meal : ∃ seqs, kernel.meal.appendAll (call.trail moment) = some (after.meal, seqs)

theorem Kernel.served_of_dispatch {kernel after : Kernel} {moment : Moment} {call : Call}
    {answer : U64} (dispatched : kernel.syscallDispatch moment call = some (after, answer)) :
    kernel.Served after moment call answer := by
  rw [Kernel.syscallDispatch, Option.bind_eq_bind, Option.bind_eq_some_iff] at dispatched
  obtain ⟨logged, logs, dispatched⟩ := dispatched
  obtain ⟨meal, seqs, rfl, appended⟩ := Kernel.log_cases logs
  rw [Option.bind_eq_bind, Option.bind_eq_some_iff] at dispatched
  obtain ⟨⟨served, ret⟩, serves, returned⟩ := dispatched
  obtain ⟨rfl, rfl⟩ := Prod.mk.inj (Option.some.inj returned)
  obtain ⟨later, laterSeqs, rfl, answered, laterAppended⟩ := Kernel.serve_cases serves
  refine ⟨rfl, rfl, rfl, rfl, rfl, answered, seqs ++ laterSeqs, ?_⟩
  have split : call.trail moment =
      (if moment.mealLocked then [] else [⟨moment.ticks, .syscallDispatched, 3, call.nr, 0⟩]) ++
        if moment.mealLocked then [] else call.exitTrail moment := by
    rw [Call.trail]
    split <;> rfl
  rw [split]
  exact run_append_eq_some_iff.mpr ⟨meal, seqs, laterSeqs, appended, laterAppended, rfl⟩

theorem Kernel.log_returns (kernel : Kernel) (moment : Moment) (call : LogCall)
    (room : kernel.meal.total.toNat + 1 < 2 ^ 64) :
    ∃ meal, kernel.log moment call = some { kernel with meal := meal } ∧
      meal.total.toNat ≤ kernel.meal.total.toNat + 1 := by
  rw [Kernel.log]
  split
  case isTrue => exact ⟨kernel.meal, rfl, Nat.le_succ _⟩
  case isFalse =>
    obtain ⟨meal, appended, total⟩ := kernel.meal.append_returns (call.appendCall moment.ticks) room
    rw [appended]
    exact ⟨meal, rfl, total.le⟩

/-- Two more entries fit into the log: the call does not panic. -/
theorem Kernel.syscallDispatch_returns (kernel : Kernel) (moment : Moment) (call : Call)
    (room : kernel.meal.total.toNat + 2 < 2 ^ 64) :
    ∃ after answer, kernel.syscallDispatch moment call = some (after, answer) := by
  let counted : Kernel :=
    { kernel with syscallCount := kernel.syscallCount + 1, lastSyscallNr := call.nr }
  obtain ⟨meal, logs, total⟩ := counted.log_returns moment ⟨.syscallDispatched, 3, call.nr, 0⟩
    (Nat.lt_of_succ_lt room)
  have serves : ∀ logged : Kernel, logged.meal.total.toNat + 1 < 2 ^ 64 →
      ∃ served ret, logged.serve moment call = some (served, ret) := by
    intro logged fits
    rw [Kernel.serve]
    split
    · exact ⟨_, _, rfl⟩
    split
    · exact ⟨_, _, rfl⟩
    split
    · obtain ⟨meal, logs, _⟩ := logged.log_returns moment ⟨.processExited, 3, call.arg1, 0⟩ fits
      rw [Kernel.notifyExit, logs]
      exact ⟨_, _, rfl⟩
    · exact ⟨_, _, rfl⟩
  obtain ⟨served, ret, serving⟩ := serves { counted with meal := meal }
    (lt_of_le_of_lt (Nat.succ_le_succ total) room)
  rw [Kernel.syscallDispatch, Option.bind_eq_bind, logs, Option.bind_some, serving]
  exact ⟨_, _, rfl⟩

/-! ## Many calls -/

/-- One system call at a moment of its own. -/
def Kernel.respond (kernel : Kernel) (timed : Moment × Call) : Option (Kernel × U64) :=
  kernel.syscallDispatch timed.1 timed.2

/-- The statics and the audit log after a run of system calls. -/
structure Kernel.Answered (kernel : Kernel) (timed : List (Moment × Call)) (answers : List U64)
    (after : Kernel) : Prop where
  syscallCount : after.syscallCount = kernel.syscallCount + BitVec.ofNat 64 timed.length
  lastSyscallNr : after.lastSyscallNr =
    (timed.getLast?.map fun last => last.2.nr).getD kernel.lastSyscallNr
  lastSyscallRet : after.lastSyscallRet = answers.getLast?.getD kernel.lastSyscallRet
  userExited : after.userExited = true ↔
    kernel.userExited = true ∨ ∃ one ∈ timed, one.2.nr = 11
  sched : after.sched = kernel.sched
  answered : answers = timed.map fun one => one.2.answer one.1 kernel.sched.stats.totalFences
  meal : ∃ seqs, kernel.meal.appendAll (timed.flatMap fun one => one.2.trail one.1) =
    some (after.meal, seqs)

theorem Kernel.Answered.respond {start kernel after : Kernel} {timed : List (Moment × Call)}
    {answers : List U64} {one : Moment × Call} {answer : U64}
    (before : start.Answered timed answers kernel)
    (responds : kernel.respond one = some (after, answer)) :
    start.Answered (timed ++ [one]) (answers ++ [answer]) after := by
  have served := Kernel.served_of_dispatch responds
  obtain ⟨seqs, appended⟩ := before.meal
  obtain ⟨laterSeqs, laterAppended⟩ := served.meal
  constructor
  · rw [served.syscallCount, before.syscallCount, List.length_append, BitVec.ofNat_add,
      BitVec.add_assoc]
    rfl
  · rw [served.lastSyscallNr, List.getLast?_concat]
    rfl
  · rw [served.lastSyscallRet, List.getLast?_concat]
    rfl
  · rw [served.userExited, Bool.or_eq_true, before.userExited, decide_eq_true_eq]
    simp only [List.mem_append, List.mem_singleton, or_assoc]
    constructor
    · rintro (exited | ⟨other, member, exit⟩ | exit)
      · exact Or.inl exited
      · exact Or.inr ⟨other, Or.inl member, exit⟩
      · exact Or.inr ⟨one, Or.inr rfl, exit⟩
    · rintro (exited | ⟨other, member | rfl, exit⟩)
      · exact Or.inl exited
      · exact Or.inr (Or.inl ⟨other, member, exit⟩)
      · exact Or.inr (Or.inr exit)
  · exact served.sched.trans before.sched
  · rw [served.answered, before.answered, before.sched, List.map_append]
    rfl
  · refine ⟨seqs ++ laterSeqs, ?_⟩
    rw [List.flatMap_append, List.flatMap_singleton]
    exact run_append_eq_some_iff.mpr ⟨kernel.meal, seqs, laterSeqs, appended, laterAppended, rfl⟩

theorem Kernel.answered_of_run {kernel after : Kernel} {timed : List (Moment × Call)}
    {answers : List U64} (ran : run Kernel.respond kernel timed = some (after, answers)) :
    kernel.Answered timed answers after := by
  refine run_induction (motive := fun timed answers after => kernel.Answered timed answers after)
    ?_ ?_ ran
  · exact ⟨by simp, rfl, rfl, by simp, rfl, rfl, [], rfl⟩
  · intro timed answers kernel one answer after before responds
    exact before.respond responds

/-! ## The calls of a user program -/

/-- The kernel, and the moments at which the coming system calls are made. -/
structure Running where
  kernel : Kernel
  moments : Stream' Moment

def Running.dispatch (running : Running) (call : Call) : Option (Running × U64) := do
  let (kernel, answer) ← running.kernel.syscallDispatch running.moments.head call
  return (⟨kernel, running.moments.tail⟩, answer)

/-- The first calls with the moments at which they are made. -/
def Running.timed (running : Running) (calls : List Call) : List (Moment × Call) :=
  (running.moments.take calls.length).zip calls

theorem Running.run_respond {running after : Running} {calls : List Call} {answers : List U64}
    (ran : run Running.dispatch running calls = some (after, answers)) :
    run Kernel.respond running.kernel (running.timed calls) = some (after.kernel, answers) := by
  induction calls generalizing running answers with
  | nil =>
      obtain ⟨rfl, rfl⟩ := Prod.mk.inj (Option.some.inj ran)
      rfl
  | cons call rest inductionHypothesis =>
      obtain ⟨next, answer, later, dispatched, ranRest, rfl⟩ := run_cons_eq_some_iff.mp ran
      rw [Running.dispatch, Option.bind_eq_bind, Option.bind_eq_some_iff] at dispatched
      obtain ⟨⟨kernel, ret⟩, responds, returned⟩ := dispatched
      obtain ⟨rfl, rfl⟩ := Prod.mk.inj (Option.some.inj returned)
      exact run_cons_eq_some_iff.mpr
        ⟨kernel, ret, later, responds, inductionHypothesis ranRest, rfl⟩

/-- A kernel after booting, with all locks free at every moment to come. -/
def quietKernel : Running where
  kernel :=
    { syscallCount := 0
      lastSyscallNr := BitVec.allOnes 64
      lastSyscallRet := 0
      userExited := false
      meal := MealLog.new (Vector.replicate 32 0)
      sched := Sched.Scheduler.new }
  moments := Stream'.const ⟨false, false, 0⟩

end AxiomKernel.Syscall
