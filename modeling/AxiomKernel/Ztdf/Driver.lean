import Mathlib
import AxiomKernel.Lib.Bytes
import AxiomKernel.Lib.Words
import AxiomKernel.Lib.EventRun

/-!
# Drivers under the zero-trust checker

Model of `DriverSpec` and `ZtdfChecker` of `ztdf.rs`.  The two sums of the code,
the end of a region and the count of operations, are taken in either arithmetic:
wrapping, or checked, where a sum that does not fit is a panic (`none`).

`DriverSpec.Authorises` is what a specification is for: the operations it lists,
with the regions read over the numbers.  The checker stays inside it whatever the
arithmetic, and reaches all of it when no region ends beyond the address space.
-/

set_option autoImplicit false

namespace AxiomKernel.Ztdf

open ByteStrings MachineWords EventRuns

def maxMmio : Nat := 4
def maxIrqs : Nat := 4
def maxSyscalls : Nat := 8

structure MmioRegion where
  start : U64
  len : U64
  deriving DecidableEq

/-- `addr >= start && addr < start + len`: the sum is only taken from `start` on. -/
def MmioRegion.contains (mode : Arithmetic) (region : MmioRegion) (addr : U64) : Option Bool :=
  if region.start ≤ addr then
    (mode.add region.start region.len).map fun stop => decide (addr < stop)
  else some false

structure DriverSpec where
  driverId : U32
  mmio : Vector (Option MmioRegion) maxMmio
  allowedIrqs : Vector (Option U8) maxIrqs
  allowedSyscalls : Vector (Option U64) maxSyscalls
  opBudget : U32

namespace DriverSpec

def mmioAllowed (mode : Arithmetic) (spec : DriverSpec) (addr : U64) : Option Bool :=
  spec.mmio.toList.reduceOption.anyM fun region => region.contains mode addr

def irqAllowed (spec : DriverSpec) (irq : U8) : Bool :=
  spec.allowedIrqs.toList.reduceOption.any fun allowed => allowed == irq

def syscallAllowed (spec : DriverSpec) (nr : U64) : Bool :=
  spec.allowedSyscalls.toList.reduceOption.any fun allowed => allowed == nr

end DriverSpec

inductive DriverResult where
  | ok
  | faultMmio (addr : U64)
  | faultIrq (irq : U8)
  | faultSyscall (nr : U64)
  | stopped
  deriving DecidableEq

inductive DriverOp where
  | mmioRead (addr : U64)
  | mmioWrite (addr : U64)
  | handleIrq (irq : U8)
  | syscall (nr : U64)
  | exit
  deriving DecidableEq

structure ZtdfChecker where
  spec : DriverSpec
  opsDone : U32

namespace ZtdfChecker

def new (spec : DriverSpec) : ZtdfChecker where
  spec := spec
  opsDone := 0

/-- The end of `step`, after the match: one operation more is done. -/
def performed (mode : Arithmetic) (checker : ZtdfChecker) : Option (ZtdfChecker × DriverResult) :=
  (mode.add checker.opsDone 1).map fun done => ({ checker with opsDone := done }, .ok)

def step (mode : Arithmetic) (checker : ZtdfChecker) :
    DriverOp → Option (ZtdfChecker × DriverResult)
  | .mmioRead addr | .mmioWrite addr => do
      if !(← checker.spec.mmioAllowed mode addr) then return (checker, .faultMmio addr)
      checker.performed mode
  | .handleIrq irq =>
      if !checker.spec.irqAllowed irq then some (checker, .faultIrq irq)
      else checker.performed mode
  | .syscall nr =>
      if !checker.spec.syscallAllowed nr then some (checker, .faultSyscall nr)
      else checker.performed mode
  | .exit => some (checker, .stopped)

end ZtdfChecker

/-! ## What one step does -/

/-- Whether the specification lets the operation through; nothing else decides it. -/
def DriverSpec.permits (mode : Arithmetic) (spec : DriverSpec) : DriverOp → Option Bool
  | .mmioRead addr | .mmioWrite addr => spec.mmioAllowed mode addr
  | .handleIrq irq => some (spec.irqAllowed irq)
  | .syscall nr => some (spec.syscallAllowed nr)
  | .exit => some false

/-- The answer that names the operation it refuses. -/
def DriverOp.refusal : DriverOp → DriverResult
  | .mmioRead addr | .mmioWrite addr => .faultMmio addr
  | .handleIrq irq => .faultIrq irq
  | .syscall nr => .faultSyscall nr
  | .exit => .stopped

theorem DriverOp.refusal_ne_ok (op : DriverOp) : op.refusal ≠ .ok := by
  cases op <;> simp [refusal]

namespace ZtdfChecker

variable {mode : Arithmetic} {checker after : ZtdfChecker} {op : DriverOp} {answer : DriverResult}

theorem step_eq (mode : Arithmetic) (checker : ZtdfChecker) (op : DriverOp) :
    checker.step mode op = (checker.spec.permits mode op).bind fun permitted =>
      if permitted then checker.performed mode else some (checker, op.refusal) := by
  cases op with
  | mmioRead addr | mmioWrite addr =>
      simp only [step, DriverSpec.permits, DriverOp.refusal]
      cases checker.spec.mmioAllowed mode addr with
      | none => rfl
      | some allowed => cases allowed <;> rfl
  | handleIrq irq =>
      simp only [step, DriverSpec.permits, DriverOp.refusal, Option.bind_some]
      cases checker.spec.irqAllowed irq <;> rfl
  | syscall nr =>
      simp only [step, DriverSpec.permits, DriverOp.refusal, Option.bind_some]
      cases checker.spec.syscallAllowed nr <;> rfl
  | exit => rfl

theorem step_of_permitted (permitted : checker.spec.permits mode op = some true) :
    checker.step mode op = checker.performed mode := by
  rw [step_eq, permitted]
  rfl

theorem performed_eq_some_iff :
    checker.performed mode = some (after, answer) ↔
      answer = .ok ∧ ∃ done, mode.add checker.opsDone 1 = some done ∧
        after = { checker with opsDone := done } := by
  rw [performed, Option.map_eq_some_iff]
  constructor
  · intro returned
    obtain ⟨done, added, same⟩ := returned
    obtain ⟨rfl, rfl⟩ := Prod.mk.inj same
    exact ⟨rfl, done, added, rfl⟩
  · intro returned
    obtain ⟨rfl, done, added, rfl⟩ := returned
    exact ⟨done, added, rfl⟩

/-- A step lets a permitted operation through and counts it, or refuses and changes nothing. -/
theorem step_cases (stepped : checker.step mode op = some (after, answer)) :
    (checker.spec.permits mode op = some true ∧ answer = .ok ∧
      ∃ done, mode.add checker.opsDone 1 = some done ∧ after = { checker with opsDone := done }) ∨
    (checker.spec.permits mode op = some false ∧ answer = op.refusal ∧ after = checker) := by
  rw [step_eq] at stepped
  obtain ⟨permitted, decided, returned⟩ := Option.bind_eq_some_iff.mp stepped
  cases permitted with
  | true => exact Or.inl ⟨decided, performed_eq_some_iff.mp returned⟩
  | false =>
      obtain ⟨rfl, rfl⟩ := Prod.mk.inj (Option.some.inj returned)
      exact Or.inr ⟨decided, rfl, rfl⟩

theorem step_ok_iff_permitted (stepped : checker.step mode op = some (after, answer)) :
    answer = .ok ↔ checker.spec.permits mode op = some true := by
  rcases step_cases stepped with ⟨permitted, rfl, _⟩ | ⟨refused, rfl, _⟩
  · simp [permitted]
  · simp [refused, op.refusal_ne_ok]

theorem step_keeps_spec (stepped : checker.step mode op = some (after, answer)) :
    after.spec = checker.spec := by
  rcases step_cases stepped with ⟨_, _, done, _, rfl⟩ | ⟨_, _, rfl⟩ <;> rfl

/-- Along a run the answers are the ones the specification alone decides. -/
theorem run_permits {spec : DriverSpec} {ops : List DriverOp} {answers : List DriverResult}
    {final : ZtdfChecker} (ran : run (step mode) (new spec) ops = some (final, answers)) :
    final.spec = spec ∧
      List.Forall₂ (fun op answer => answer = .ok ↔ spec.permits mode op = some true)
        ops answers := by
  refine run_forall₂ (fun checker => checker.spec = spec) rfl ?_ ran
  intro checker op after answer same stepped
  have answered := step_ok_iff_permitted stepped
  rw [same] at answered
  exact ⟨(step_keeps_spec stepped).trans same, answered⟩

end ZtdfChecker

/-! ## The authority a specification gives -/

/-- The addresses of the region over the numbers. -/
def MmioRegion.Spans (region : MmioRegion) (addr : U64) : Prop :=
  region.start.toNat ≤ addr.toNat ∧ addr.toNat < region.start.toNat + region.len.toNat

/-- The operations that the specification lists. -/
def DriverSpec.Authorises (spec : DriverSpec) : DriverOp → Prop
  | .mmioRead addr | .mmioWrite addr => ∃ region, some region ∈ spec.mmio ∧ region.Spans addr
  | .handleIrq irq => some irq ∈ spec.allowedIrqs
  | .syscall nr => some nr ∈ spec.allowedSyscalls
  | .exit => False

theorem MmioRegion.spans_of_contains {mode : Arithmetic} {region : MmioRegion} {addr : U64}
    (contained : region.contains mode addr = some true) : region.Spans addr := by
  rw [contains] at contained
  split at contained
  case isFalse => simp at contained
  case isTrue above =>
    obtain ⟨stop, added, below⟩ := Option.map_eq_some_iff.mp contained
    have stopLe := Arithmetic.add_toNat_le added
    have addrLt : addr.toNat < stop.toNat := of_decide_eq_true below
    exact ⟨above, by omega⟩

theorem MmioRegion.contains_of_fits (mode : Arithmetic) {region : MmioRegion}
    (fits : region.start.toNat + region.len.toNat < 2 ^ 64) (addr : U64) :
    ∃ contained, region.contains mode addr = some contained ∧
      (contained = true ↔ region.Spans addr) := by
  rw [contains]
  split
  case isFalse below =>
    refine ⟨false, rfl, ?_⟩
    rw [BitVec.le_def] at below
    simp [Spans, below]
  case isTrue above =>
    refine ⟨_, by rw [mode.add_of_lt fits]; rfl, ?_⟩
    rw [BitVec.le_def] at above
    rw [decide_eq_true_iff, BitVec.lt_def, BitVec.toNat_add, Nat.mod_eq_of_lt fits]
    simp [Spans, above]

theorem anyM_eq_some_true {α : Type} {found : α → Option Bool} {items : List α}
    (any : items.anyM found = some true) : ∃ item ∈ items, found item = some true := by
  induction items with
  | nil => simp [List.anyM] at any
  | cons head rest inductionHypothesis =>
      rw [List.anyM, Option.bind_eq_bind, Option.bind_eq_some_iff] at any
      obtain ⟨foundHead, decided, anyRest⟩ := any
      cases foundHead with
      | true => exact ⟨head, List.mem_cons_self, decided⟩
      | false =>
          obtain ⟨item, mem, foundItem⟩ := inductionHypothesis anyRest
          exact ⟨item, List.mem_cons_of_mem head mem, foundItem⟩

theorem anyM_of_returns {α : Type} {found : α → Option Bool} (holds : α → Prop) {items : List α}
    (returns : ∀ item ∈ items, ∃ answer, found item = some answer ∧ (answer = true ↔ holds item)) :
    ∃ answer, items.anyM found = some answer ∧ (answer = true ↔ ∃ item ∈ items, holds item) := by
  induction items with
  | nil => exact ⟨false, rfl, by simp⟩
  | cons head rest inductionHypothesis =>
      obtain ⟨foundHead, decided, headHolds⟩ := returns head List.mem_cons_self
      obtain ⟨answer, anyRest, restHolds⟩ :=
        inductionHypothesis fun item mem => returns item (List.mem_cons_of_mem head mem)
      rw [List.anyM, decided]
      cases foundHead with
      | true => exact ⟨true, rfl, by simp [headHolds.mp rfl]⟩
      | false =>
          have headFails : ¬ holds head := fun held => Bool.false_ne_true (headHolds.mpr held)
          exact ⟨answer, anyRest, by simp [restHolds, headFails]⟩

namespace DriverSpec

theorem irqAllowed_iff (spec : DriverSpec) (irq : U8) :
    spec.irqAllowed irq = true ↔ some irq ∈ spec.allowedIrqs := by
  simp [irqAllowed, List.reduceOption_mem_iff, Vector.mem_toList_iff]

theorem syscallAllowed_iff (spec : DriverSpec) (nr : U64) :
    spec.syscallAllowed nr = true ↔ some nr ∈ spec.allowedSyscalls := by
  simp [syscallAllowed, List.reduceOption_mem_iff, Vector.mem_toList_iff]

theorem spans_of_mmioAllowed {mode : Arithmetic} {spec : DriverSpec} {addr : U64}
    (allowed : spec.mmioAllowed mode addr = some true) :
    ∃ region, some region ∈ spec.mmio ∧ region.Spans addr := by
  obtain ⟨region, mem, contained⟩ := anyM_eq_some_true allowed
  rw [List.reduceOption_mem_iff, Vector.mem_toList_iff] at mem
  exact ⟨region, mem, MmioRegion.spans_of_contains contained⟩

theorem authorises_of_permits {mode : Arithmetic} {spec : DriverSpec} {op : DriverOp}
    (permitted : spec.permits mode op = some true) : spec.Authorises op := by
  cases op with
  | mmioRead addr | mmioWrite addr => exact spans_of_mmioAllowed permitted
  | handleIrq irq => exact (spec.irqAllowed_iff irq).mp (Option.some.inj permitted)
  | syscall nr => exact (spec.syscallAllowed_iff nr).mp (Option.some.inj permitted)
  | exit => simp [permits] at permitted

/-- No region of the specification ends beyond the last address. -/
def Bounded (spec : DriverSpec) : Prop :=
  ∀ region, some region ∈ spec.mmio → region.start.toNat + region.len.toNat < 2 ^ 64

theorem permits_iff_authorises (mode : Arithmetic) {spec : DriverSpec} (bounded : spec.Bounded)
    (op : DriverOp) : spec.permits mode op = some true ↔ spec.Authorises op := by
  have mmio : ∀ addr, spec.mmioAllowed mode addr = some true ↔
      ∃ region, some region ∈ spec.mmio ∧ region.Spans addr := by
    intro addr
    refine ⟨spans_of_mmioAllowed, ?_⟩
    intro spanned
    have returns : ∀ region ∈ spec.mmio.toList.reduceOption, ∃ contained,
        region.contains mode addr = some contained ∧ (contained = true ↔ region.Spans addr) := by
      intro region mem
      rw [List.reduceOption_mem_iff, Vector.mem_toList_iff] at mem
      exact MmioRegion.contains_of_fits mode (bounded region mem) addr
    obtain ⟨answer, decided, holds⟩ := anyM_of_returns (MmioRegion.Spans · addr) returns
    rw [mmioAllowed, decided, Option.some.injEq, holds]
    simpa [List.reduceOption_mem_iff, Vector.mem_toList_iff] using spanned
  cases op with
  | mmioRead addr | mmioWrite addr => exact mmio addr
  | handleIrq irq => exact Option.some_inj.trans (spec.irqAllowed_iff irq)
  | syscall nr => exact Option.some_inj.trans (spec.syscallAllowed_iff nr)
  | exit => simp [permits, Authorises]

end DriverSpec

/-! ## Containment -/

/-- At every point of every run an operation answered `ok` lies inside the specification, and
one that is not leaves the checker as it was and is named by the answer. -/
theorem driver_contained (mode : Arithmetic) (spec : DriverSpec) (ops : List DriverOp)
    (checker after : ZtdfChecker) (answers : List DriverResult) (op : DriverOp)
    (answer : DriverResult)
    (ran : run (ZtdfChecker.step mode) (ZtdfChecker.new spec) ops = some (checker, answers))
    (stepped : checker.step mode op = some (after, answer)) :
    (answer = .ok → spec.Authorises op) ∧
      (answer ≠ .ok → after = checker ∧ answer = op.refusal) := by
  have same := (ZtdfChecker.run_permits ran).1
  rcases ZtdfChecker.step_cases stepped with ⟨permitted, answered, _⟩ | ⟨_, answered, unchanged⟩
  · rw [same] at permitted
    exact ⟨fun _ => DriverSpec.authorises_of_permits permitted,
      fun refused => absurd answered refused⟩
  · exact ⟨fun accepted => absurd (answered.symm.trans accepted) op.refusal_ne_ok,
      fun _ => ⟨unchanged, answered⟩⟩

/-- The specification of `uart-com1` in the source's demo. -/
def uartSpec : DriverSpec where
  driverId := 1
  mmio := #v[some ⟨0x3F8, 8⟩, none, none, none]
  allowedIrqs := #v[some 4, none, none, none]
  allowedSyscalls := #v[some 1, some 2, none, none, none, none, none, none]
  opBudget := 0

theorem driver_contained_uart :
    uartSpec.Authorises (.mmioWrite 0x3F8) ∧
      (ZtdfChecker.mk uartSpec 1).step .checked (.mmioWrite 0x400) =
        some (⟨uartSpec, 1⟩, (DriverOp.mmioWrite 0x400).refusal) := by
  have ran : run (ZtdfChecker.step .checked) (ZtdfChecker.new uartSpec) [.handleIrq 4] =
      some (⟨uartSpec, 1⟩, [.ok]) := rfl
  have writes : (ZtdfChecker.mk uartSpec 1).step .checked (.mmioWrite 0x3F8) =
      some (⟨uartSpec, 2⟩, .ok) := rfl
  have refuses : (ZtdfChecker.mk uartSpec 1).step .checked (.mmioWrite 0x400) =
      some (⟨uartSpec, 1⟩, .faultMmio 0x400) := rfl
  obtain ⟨_, named⟩ :=
    (driver_contained .checked uartSpec _ _ _ _ _ _ ran refuses).2 (by decide)
  rw [refuses, ← named]
  exact ⟨(driver_contained .checked uartSpec _ _ _ _ _ _ ran writes).1 rfl, rfl⟩

end AxiomKernel.Ztdf
