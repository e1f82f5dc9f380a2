import Mathlib
import AxiomKernel.Lib.Words
import AxiomKernel.Lib.EventRun
import AxiomKernel.Ztdf.Driver
import AxiomKernel.Ztdf.Halting

/-!
# Where the sums of the checker are exact

The checker takes two sums: the end of a region in 64 bits, and the count of
operations in 32.  A region that reaches the last address has no end in 64 bits,
and a driver without a budget can outlast the counter.  Both properties below hold
exactly when the sums that are taken fit: for an address these are the ends of the
regions up to the first that spans it.
-/

set_option autoImplicit false

namespace AxiomKernel.Ztdf

open ByteStrings MachineWords EventRuns

/-! ## The end of a region -/

instance (region : MmioRegion) (addr : U64) : Decidable (region.Spans addr) :=
  inferInstanceAs (Decidable (_ ∧ _))

/-- The end of the region is a 64-bit number. -/
def MmioRegion.HasEnd (region : MmioRegion) : Prop :=
  region.start.toNat + region.len.toNat < 2 ^ 64

instance (region : MmioRegion) : Decidable region.HasEnd := inferInstanceAs (Decidable (_ < _))

/-- The first of the listed regions, in slot order, that spans the address. -/
def DriverSpec.firstSpanning (spec : DriverSpec) (addr : U64) : Option MmioRegion :=
  spec.mmio.toList.reduceOption.find? fun region => region.Spans addr

/-- With checked sums a region without an end panics at the addresses it spans, and only
there. -/
theorem MmioRegion.contains_checked (region : MmioRegion) (addr : U64) :
    region.contains .checked addr =
      if region.Spans addr then (if region.HasEnd then some true else none) else some false := by
  have addrLt := addr.isLt
  by_cases hasEnd : region.HasEnd
  · obtain ⟨contained, decided, spans⟩ := contains_of_fits .checked hasEnd addr
    rw [decided, if_pos hasEnd]
    by_cases spanned : region.Spans addr
    · rw [if_pos spanned, spans.mpr spanned]
    · rw [if_neg spanned, Bool.eq_false_iff.mpr (mt spans.mp spanned)]
  · have overflows : ¬ region.start.toNat + region.len.toNat < 2 ^ 64 := hasEnd
    rw [if_neg hasEnd, contains]
    by_cases above : region.start ≤ addr
    · have spanned : region.Spans addr := ⟨above, by omega⟩
      have panics : Arithmetic.add .checked region.start region.len = none := if_neg overflows
      rw [if_pos above, if_pos spanned, panics]
      rfl
    · rw [if_neg above, if_neg (fun spanned => above spanned.1)]

/-- With wrapping sums a region without an end contains nothing: its end wraps to a number
below its start. -/
theorem MmioRegion.contains_wrapping_iff (region : MmioRegion) (addr : U64) :
    region.contains .wrapping addr = some true ↔ region.Spans addr ∧ region.HasEnd := by
  constructor
  · intro contained
    refine ⟨spans_of_contains contained, ?_⟩
    rw [contains] at contained
    split at contained
    case isFalse => simp at contained
    case isTrue above =>
      have below : addr < region.start + region.len :=
        of_decide_eq_true (Option.some.inj contained)
      have startLt := region.start.isLt
      have lenLt := region.len.isLt
      rw [BitVec.le_def] at above
      rw [BitVec.lt_def, BitVec.toNat_add] at below
      rw [HasEnd]
      omega
  · intro both
    obtain ⟨spanned, hasEnd⟩ := both
    obtain ⟨contained, decided, spans⟩ := contains_of_fits .wrapping hasEnd addr
    rw [decided, spans.mpr spanned]

theorem MmioRegion.contains_wrapping_isSome (region : MmioRegion) (addr : U64) :
    ∃ contained, region.contains .wrapping addr = some contained ∧
      (contained = true ↔ region.Spans addr ∧ region.HasEnd) := by
  have returns : (region.contains .wrapping addr).isSome = true := by
    rw [contains]
    split <;> rfl
  obtain ⟨contained, decided⟩ := Option.isSome_iff_exists.mp returns
  refine ⟨contained, decided, ?_⟩
  rw [← region.contains_wrapping_iff addr, decided, Option.some.injEq]

namespace DriverSpec

variable (spec : DriverSpec) (addr : U64)

theorem mmioAllowed_checked_iff :
    spec.mmioAllowed .checked addr = some true ↔
      ∃ region, spec.firstSpanning addr = some region ∧ region.HasEnd := by
  rw [mmioAllowed, firstSpanning]
  induction spec.mmio.toList.reduceOption with
  | nil => simp [List.anyM]
  | cons region rest inductionHypothesis =>
      rw [List.anyM, region.contains_checked addr]
      by_cases spanned : region.Spans addr
      · rw [if_pos spanned, List.find?_cons_of_pos (by simpa using spanned)]
        by_cases hasEnd : region.HasEnd <;> simp [hasEnd]
      · rw [if_neg spanned, List.find?_cons_of_neg (by simpa using spanned), ← inductionHypothesis]
        rfl

theorem mmioAllowed_wrapping_iff :
    spec.mmioAllowed .wrapping addr = some true ↔
      ∃ region, some region ∈ spec.mmio ∧ region.Spans addr ∧ region.HasEnd := by
  obtain ⟨answer, decided, holds⟩ := anyM_of_returns
    (fun region : MmioRegion => region.Spans addr ∧ region.HasEnd)
    (fun region (_ : region ∈ spec.mmio.toList.reduceOption) =>
      region.contains_wrapping_isSome addr)
  rw [mmioAllowed, decided, Option.some.injEq, holds]
  simp only [List.reduceOption_mem_iff, Vector.mem_toList_iff]

theorem firstSpanning_isSome_iff :
    (∃ region, spec.firstSpanning addr = some region) ↔
      ∃ region, some region ∈ spec.mmio ∧ region.Spans addr := by
  rw [← Option.isSome_iff_exists, firstSpanning, List.find?_isSome]
  simp only [List.reduceOption_mem_iff, Vector.mem_toList_iff, decide_eq_true_eq]

end DriverSpec

/-- At an address inside its regions a driver is not refused exactly when, with checked sums,
the first region that spans the address has its end in 64 bits, and, with wrapping sums, some
region that spans the address does. -/
theorem mmio_never_refused_iff (spec : DriverSpec) (addr : U64) :
    (((∃ region, some region ∈ spec.mmio ∧ region.Spans addr) →
        spec.mmioAllowed .checked addr = some true) ↔
      ∀ region, spec.firstSpanning addr = some region → region.HasEnd) ∧
    (((∃ region, some region ∈ spec.mmio ∧ region.Spans addr) →
        spec.mmioAllowed .wrapping addr = some true) ↔
      ((∃ region, some region ∈ spec.mmio ∧ region.Spans addr) →
        ∃ region, some region ∈ spec.mmio ∧ region.Spans addr ∧ region.HasEnd)) := by
  refine ⟨?_, by rw [spec.mmioAllowed_wrapping_iff addr]⟩
  rw [spec.mmioAllowed_checked_iff addr, ← spec.firstSpanning_isSome_iff addr]
  constructor
  · intro allowed region first
    obtain ⟨other, same, hasEnd⟩ := allowed ⟨region, first⟩
    rw [Option.some.inj (first.symm.trans same)]
    exact hasEnd
  · intro hasEnd ⟨region, first⟩
    exact ⟨region, first, hasEnd region first⟩

/-- One region: the last page of the address space. -/
def lastPageSpec : DriverSpec :=
  { uartSpec with mmio := #v[some ⟨0xFFFFFFFFFFFFF000, 0x1000⟩, none, none, none] }

/-- Its first address panics where sums are checked, and is refused where they wrap. -/
theorem last_page_refused :
    (∃ region, some region ∈ lastPageSpec.mmio ∧ region.Spans 0xFFFFFFFFFFFFF000) ∧
      lastPageSpec.mmioAllowed .checked 0xFFFFFFFFFFFFF000 = none ∧
      lastPageSpec.mmioAllowed .wrapping 0xFFFFFFFFFFFFF000 = some false := by
  refine ⟨⟨⟨0xFFFFFFFFFFFFF000, 0x1000⟩, ?_, by decide, by decide⟩, by decide, by decide⟩
  exact Vector.mem_iff_getElem.mpr ⟨0, by decide, rfl⟩

/-! ## The count of operations -/

/-- How many of the operations pass the checks of the specification. -/
def DriverSpec.permittedCount (mode : Arithmetic) (spec : DriverSpec) (ops : List DriverOp) : Nat :=
  ops.countP fun op => spec.permits mode op = some true

namespace ZtdfChecker

variable {mode : Arithmetic} {spec : DriverSpec} {ops : List DriverOp}
  {answers : List DriverResult} {final : ZtdfChecker}

/-- What a run that returns tells: no check panicked, the answers count the permitted
operations, and the counter has that number in 32 bits. -/
structure Tallied (mode : Arithmetic) (spec : DriverSpec) (ops : List DriverOp)
    (answers : List DriverResult) (checker : ZtdfChecker) : Prop where
  sameSpec : checker.spec = spec
  decided : ∀ op ∈ ops, spec.permits mode op ≠ none
  counted : answers.count .ok = spec.permittedCount mode ops
  stored : checker.opsDone = BitVec.ofNat 32 (spec.permittedCount mode ops)
  fits : mode = .checked → spec.permittedCount mode ops < 2 ^ 32

theorem Tallied.step {checker after : ZtdfChecker} {op : DriverOp} {answer : DriverResult}
    (tallied : Tallied mode spec ops answers checker)
    (stepped : checker.step mode op = some (after, answer)) :
    Tallied mode spec (ops ++ [op]) (answers ++ [answer]) after := by
  have decided : spec.permits mode op ≠ none → ∀ other ∈ ops ++ [op],
      spec.permits mode other ≠ none := by
    intro thisDecided other member
    rcases List.mem_append.mp member with earlier | last
    · exact tallied.decided other earlier
    · obtain rfl := List.mem_singleton.mp last
      exact thisDecided
  rcases step_cases stepped with ⟨permitted, rfl, done, added, rfl⟩ | ⟨refused, rfl, rfl⟩
  · rw [tallied.sameSpec] at permitted
    have oneMore : spec.permittedCount mode (ops ++ [op]) = spec.permittedCount mode ops + 1 := by
      simp [DriverSpec.permittedCount, permitted]
    refine ⟨tallied.sameSpec, decided (by simp [permitted]), ?_, ?_, ?_⟩
    · rw [List.count_append, tallied.counted, oneMore]
      rfl
    · rw [Arithmetic.eq_add added, tallied.stored, oneMore, BitVec.ofNat_add]
      rfl
    · rintro rfl
      have summed := (checkedAdd_eq_some_iff _ _ _).mp added
      have doneLt := done.isLt
      rw [tallied.stored, BitVec.toNat_ofNat, Nat.mod_eq_of_lt (tallied.fits rfl)] at summed
      rw [oneMore]
      exact summed ▸ doneLt
  · rw [tallied.sameSpec] at refused
    have noMore : spec.permittedCount mode (ops ++ [op]) = spec.permittedCount mode ops := by
      simp [DriverSpec.permittedCount, refused]
    have notOk := op.refusal_ne_ok
    refine ⟨tallied.sameSpec, decided (by simp [refused]), ?_, ?_, ?_⟩
    · rw [noMore, List.count_append, tallied.counted]
      simp [notOk]
    · rw [noMore, tallied.stored]
    · rw [noMore]
      exact tallied.fits

theorem run_tallied (ran : run (step mode) (new spec) ops = some (final, answers)) :
    Tallied mode spec ops answers final := by
  refine run_induction (motive := Tallied mode spec) ?_ ?_ ran
  · exact ⟨rfl, by simp, rfl, rfl, fun _ => Nat.two_pow_pos 32⟩
  · intro ops answers checker op answer after tallied stepped
    exact tallied.step stepped

/-- With room in the counter for every permitted operation, a run returns. -/
theorem run_returns_of_room (decided : ∀ op ∈ ops, spec.permits mode op ≠ none)
    (room : spec.permittedCount mode ops < 2 ^ 32) :
    ∃ final answers, run (step mode) (new spec) ops = some (final, answers) := by
  refine run_returns (fun ops checker => checker.spec = spec ∧
    (∀ op ∈ ops, spec.permits mode op ≠ none) ∧
    checker.opsDone.toNat + spec.permittedCount mode ops < 2 ^ 32) ?_ ops (new spec)
    ⟨rfl, decided, by simpa [new] using room⟩
  intro op rest checker ⟨sameSpec, allDecided, fits⟩
  obtain ⟨permitted, thisDecided⟩ := Option.ne_none_iff_exists'.mp (allDecided op List.mem_cons_self)
  have restDecided : ∀ later ∈ rest, spec.permits mode later ≠ none :=
    fun later member => allDecided later (List.mem_cons_of_mem op member)
  rw [step_eq, sameSpec, thisDecided, Option.bind_some]
  cases permitted with
  | true =>
      have oneMore : spec.permittedCount mode (op :: rest) = spec.permittedCount mode rest + 1 := by
        simp [DriverSpec.permittedCount, thisDecided]
      rw [oneMore] at fits
      have sum : checker.opsDone.toNat + (1 : U32).toNat < 2 ^ 32 := by
        show checker.opsDone.toNat + 1 < 2 ^ 32
        omega
      have stored : (checker.opsDone + 1).toNat = checker.opsDone.toNat + 1 := by
        rw [BitVec.toNat_add]
        exact Nat.mod_eq_of_lt sum
      refine ⟨{ checker with opsDone := checker.opsDone + 1 }, .ok, ?_, sameSpec, restDecided, ?_⟩
      · rw [performed, mode.add_of_lt sum]
        rfl
      · show (checker.opsDone + 1).toNat + spec.permittedCount mode rest < 2 ^ 32
        omega
  | false =>
      have noMore : spec.permittedCount mode (op :: rest) = spec.permittedCount mode rest := by
        simp [DriverSpec.permittedCount, thisDecided]
      rw [noMore] at fits
      exact ⟨checker, op.refusal, rfl, sameSpec, restDecided, fits⟩

end ZtdfChecker

/-- The counter is exact on a run exactly when no check panics and fewer than `2^32`
operations are let through. -/
theorem ops_done_exact_iff (mode : Arithmetic) (spec : DriverSpec) (ops : List DriverOp) :
    (∃ final answers, run (ZtdfChecker.step mode) (ZtdfChecker.new spec) ops =
        some (final, answers) ∧ final.opsDone.toNat = answers.count .ok) ↔
      (∀ op ∈ ops, spec.permits mode op ≠ none) ∧ spec.permittedCount mode ops < 2 ^ 32 := by
  constructor
  · intro ⟨final, answers, ran, same⟩
    have tallied := ZtdfChecker.run_tallied ran
    refine ⟨tallied.decided, ?_⟩
    rw [← tallied.counted, ← same]
    exact final.opsDone.isLt
  · intro ⟨decided, room⟩
    obtain ⟨final, answers, ran⟩ := ZtdfChecker.run_returns_of_room decided room
    have tallied := ZtdfChecker.run_tallied ran
    refine ⟨final, answers, ran, ?_⟩
    rw [tallied.stored, tallied.counted, BitVec.toNat_ofNat, Nat.mod_eq_of_lt room]

/-- The driver of the demo has no budget; after `2^32` interrupts its counter panics, or
is back at zero. -/
theorem uart_counter_overflows :
    uartSpec.opBudget = 0 ∧
      run (ZtdfChecker.step .checked) (ZtdfChecker.new uartSpec)
        (List.replicate (2 ^ 32) (.handleIrq 4)) = none ∧
      run (ZtdfChecker.step .wrapping) (ZtdfChecker.new uartSpec)
        (List.replicate (2 ^ 32) (.handleIrq 4)) =
          some (⟨uartSpec, 0⟩, List.replicate (2 ^ 32) .ok) := by
  have permitted : ∀ mode, uartSpec.permits mode (.handleIrq 4) = some true := by
    intro mode
    rfl
  refine ⟨rfl, ?_, ?_⟩
  · rw [Option.eq_none_iff_forall_not_mem]
    intro ⟨final, answers⟩ ran
    have fits := (ZtdfChecker.run_tallied ran).fits rfl
    rw [DriverSpec.permittedCount, List.countP_replicate,
      if_pos (decide_eq_true (permitted .checked))] at fits
    exact lt_irrefl _ fits
  · exact ZtdfChecker.run_replicate (permitted .wrapping) (2 ^ 32) (by simp)

end AxiomKernel.Ztdf
