import Mathlib
import AxiomKernel.Ztdf.Driver

/-!
# Halting and the operation budget

`ztdf.rs` says that a violation halts the driver and that `op_budget` bounds the
operations before re-verification.  The checker keeps no mark of a halt, and `step`
never reads the budget: a checker answers an operation by its specification alone,
at every point of a run.  Here is when the two properties hold all the same.
-/

set_option autoImplicit false

namespace AxiomKernel.Ztdf

open ByteStrings MachineWords EventRuns

/-- No operation passes the checks of the specification. -/
def DriverSpec.PermitsNothing (mode : Arithmetic) (spec : DriverSpec) : Prop :=
  (∀ addr, spec.mmioAllowed mode addr ≠ some true) ∧
    (∀ irq, spec.irqAllowed irq = false) ∧ ∀ nr, spec.syscallAllowed nr = false

theorem DriverSpec.permitsNothing_iff (mode : Arithmetic) (spec : DriverSpec) :
    spec.PermitsNothing mode ↔ ∀ op, spec.permits mode op ≠ some true := by
  constructor
  · intro nothing op
    obtain ⟨noAddr, noIrq, noNr⟩ := nothing
    cases op with
    | mmioRead addr | mmioWrite addr => exact noAddr addr
    | handleIrq irq => simp [permits, noIrq irq]
    | syscall nr => simp [permits, noNr nr]
    | exit => simp [permits]
  · intro nothing
    refine ⟨fun addr => nothing (.mmioRead addr), ?_, ?_⟩
    · intro irq
      simpa [permits] using nothing (.handleIrq irq)
    · intro nr
      simpa [permits] using nothing (.syscall nr)

namespace ZtdfChecker

variable {mode : Arithmetic} {spec : DriverSpec} {ops : List DriverOp}
  {answers : List DriverResult} {final : ZtdfChecker}

theorem run_refuses_all (nothing : spec.PermitsNothing mode)
    (ran : run (step mode) (new spec) ops = some (final, answers)) :
    ∀ answer ∈ answers, answer ≠ .ok := by
  have refused := (spec.permitsNothing_iff mode).mp nothing
  have answered := (run_permits ran).2
  clear ran
  induction answered with
  | nil => simp
  | cons decided _ inductionHypothesis =>
      intro answer mem
      rcases List.mem_cons.mp mem with rfl | later
      · exact fun accepted => refused _ (decided.mp accepted)
      · exact inductionHypothesis answer later

/-- A permitted operation is let through again and again, until the counter is full. -/
theorem run_replicate {op : DriverOp} (permitted : spec.permits mode op = some true) (times : Nat)
    (counted : mode = .checked → times < 2 ^ 32) :
    run (step mode) (new spec) (List.replicate times op) =
      some (⟨spec, BitVec.ofNat 32 times⟩, List.replicate times .ok) := by
  induction times with
  | zero => rfl
  | succ times inductionHypothesis =>
      rw [List.replicate_succ', List.replicate_succ', run_concat_eq_some_iff]
      refine ⟨⟨spec, BitVec.ofNat 32 times⟩, List.replicate times .ok, .ok,
        inductionHypothesis fun checked => by have := counted checked; omega, ?_, rfl⟩
      rw [step_of_permitted permitted, performed_eq_some_iff]
      refine ⟨rfl, BitVec.ofNat 32 (times + 1), ?_, rfl⟩
      rw [BitVec.ofNat_add]
      cases mode with
      | wrapping => rfl
      | checked =>
          have room := counted rfl
          refine checkedAdd_of_lt ?_
          rw [BitVec.toNat_ofNat, Nat.mod_eq_of_lt (by omega)]
          exact room

/-- With checked arithmetic the counter is the number of operations let through. -/
theorem run_counts (ran : run (step .checked) (new spec) ops = some (final, answers)) :
    answers.count .ok = final.opsDone.toNat := by
  refine run_induction (motive := fun _ answers checker =>
    answers.count .ok = checker.opsDone.toNat) rfl ?_ ran
  intro _ answers checker op answer after counted stepped
  rw [List.count_append, counted]
  rcases step_cases stepped with ⟨_, rfl, done, added, rfl⟩ | ⟨_, rfl, rfl⟩
  · have summed := (checkedAdd_eq_some_iff _ _ _).mp added
    simpa using summed.symm
  · have notOk := op.refusal_ne_ok
    simp [notOk]

end ZtdfChecker

/-! ## A stopped driver -/

/-- After an answer other than `ok` there is no `ok`. -/
def StaysStopped (answers : List DriverResult) : Prop :=
  answers.Pairwise fun earlier later => earlier ≠ .ok → later ≠ .ok

instance (answers : List DriverResult) : Decidable (StaysStopped answers) :=
  inferInstanceAs (Decidable (List.Pairwise _ answers))

theorem stays_stopped_iff (mode : Arithmetic) (spec : DriverSpec) :
    (∀ ops final answers, run (ZtdfChecker.step mode) (ZtdfChecker.new spec) ops =
        some (final, answers) → StaysStopped answers) ↔
      spec.PermitsNothing mode := by
  constructor
  · intro stays
    rw [spec.permitsNothing_iff mode]
    intro op permitted
    have accepted := ZtdfChecker.run_replicate permitted 1 (fun _ => by decide)
    -- `exit` stops the driver and changes nothing, so `op` is answered as by a fresh checker
    have ran : run (ZtdfChecker.step mode) (ZtdfChecker.new spec) [.exit, op] =
        some (⟨spec, BitVec.ofNat 32 1⟩, [.stopped, .ok]) :=
      run_cons_eq_some_iff.mpr ⟨ZtdfChecker.new spec, .stopped, [.ok], rfl, accepted, rfl⟩
    have stopped := stays _ _ _ ran
    simp [StaysStopped] at stopped
  · intro nothing ops final answers ran
    have refused := ZtdfChecker.run_refuses_all nothing ran
    rw [StaysStopped, List.pairwise_iff_forall_sublist]
    intro earlier later both _
    exact refused later (both.subset (by simp))

theorem stopped_driver_resumes :
    run (ZtdfChecker.step .checked) (ZtdfChecker.new uartSpec)
        [.mmioWrite 0xFEE00000, .exit, .mmioRead 0x3F8] =
      some (⟨uartSpec, 1⟩, [.faultMmio 0xFEE00000, .stopped, .ok]) ∧
    ¬ StaysStopped [.faultMmio 0xFEE00000, .stopped, .ok] := by
  constructor
  · rfl
  · decide

/-! ## The budget -/

/-- At most the budget's number of `ok` answers; with budget zero nothing that the
specification permits is refused. -/
def BudgetKept (mode : Arithmetic) (spec : DriverSpec) (ops : List DriverOp)
    (answers : List DriverResult) : Prop :=
  (0 < spec.opBudget.toNat → answers.count .ok ≤ spec.opBudget.toNat) ∧
    (spec.opBudget = 0 →
      List.Forall₂ (fun op answer => spec.permits mode op = some true → answer = .ok) ops answers)

theorem budget_kept_iff (mode : Arithmetic) (spec : DriverSpec) :
    (∀ ops final answers, run (ZtdfChecker.step mode) (ZtdfChecker.new spec) ops =
        some (final, answers) → BudgetKept mode spec ops answers) ↔
      spec.opBudget = 0 ∨ spec.PermitsNothing mode ∨
        (mode = .checked ∧ spec.opBudget = BitVec.allOnes 32) := by
  constructor
  · intro kept
    by_contra outside
    rw [not_or, not_or, spec.permitsNothing_iff mode, not_forall_not] at outside
    obtain ⟨limited, ⟨op, permitted⟩, notFull⟩ := outside
    have positive : 0 < spec.opBudget.toNat :=
      Nat.pos_of_ne_zero fun isZero => limited (BitVec.toNat_inj.mp isZero)
    have room : mode = .checked → spec.opBudget.toNat + 1 < 2 ^ 32 := by
      intro checked
      have bound := spec.opBudget.isLt
      have notLast : spec.opBudget.toNat ≠ (BitVec.allOnes 32).toNat :=
        fun same => notFull ⟨checked, BitVec.toNat_inj.mp same⟩
      rw [BitVec.toNat_allOnes] at notLast
      omega
    -- one permitted operation, once more often than the budget allows
    have ran := ZtdfChecker.run_replicate permitted (spec.opBudget.toNat + 1) room
    have counted := (kept _ _ _ ran).1 positive
    rw [List.count_replicate_self] at counted
    omega
  · intro condition ops final answers ran
    refine ⟨?_, ?_⟩
    · intro positive
      rcases condition with unlimited | nothing | ⟨rfl, full⟩
      · rw [unlimited] at positive
        exact absurd positive (by decide)
      · rw [List.count_eq_zero_of_not_mem fun mem =>
          ZtdfChecker.run_refuses_all nothing ran .ok mem rfl]
        exact Nat.zero_le _
      · rw [ZtdfChecker.run_counts ran, full, BitVec.toNat_allOnes]
        have bound := final.opsDone.isLt
        omega
    · intro _
      exact (ZtdfChecker.run_permits ran).2.imp fun _ _ decided => decided.mpr

theorem budget_exceeded :
    run (ZtdfChecker.step .checked) (ZtdfChecker.new { uartSpec with opBudget := 1 })
        [.handleIrq 4, .syscall 1] =
      some (⟨{ uartSpec with opBudget := 1 }, 2⟩, [.ok, .ok]) ∧
    ¬ BudgetKept .checked { uartSpec with opBudget := 1 } [.handleIrq 4, .syscall 1] [.ok, .ok] := by
  constructor
  · rfl
  · intro kept
    have counted := kept.1 (by decide)
    revert counted
    decide

end AxiomKernel.Ztdf
