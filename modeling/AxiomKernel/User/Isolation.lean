import Mathlib
import AxiomKernel.Lib.Bytes
import AxiomKernel.Lib.ByteMemory
import AxiomKernel.Lib.LabelledRun
import AxiomKernel.Lib.TwoRun
import AxiomKernel.Memory.FrameAllocator
import AxiomKernel.Memory.Paging
import AxiomKernel.Memory.Trampoline
import AxiomKernel.Memory.MappingRuns
import AxiomKernel.Memory.Heap
import AxiomKernel.User.ElfLoader
import AxiomKernel.User.Setup
import AxiomKernel.User.ElfFormat
import AxiomKernel.User.LoadPlan
import AxiomKernel.User.KernelHalf
import AxiomKernel.User.LoadedImage

/-!
# The address space after boot

Model of what `kernel_main` does with the mapper: the heap, the trampoline page, the user
program.  All of it is one run of `MapStep`s, so whatever file is loaded, user mode reaches no
frame of the heap and no page table, and no frame by two pages.
-/

set_option autoImplicit false

namespace AxiomKernel.User

open ByteStrings TwoRuns Memory ByteMemory LabelledRuns

variable {μ : Type}

/-- What `kernel_main` does with the mapper before user space is set up.  A trampoline page that
cannot be mapped is only reported; `others` is what the kernel writes to memory meanwhile. -/
def bootKernel (paging : Paging μ) (others : Memory → Memory) : StateT (Machine μ) Option Unit := do
  panicOr (← (initHeap paging).run).toOption
  let page ← panicOr ((VirtAddr.new 0x50000).map Page.containingAddress)
  let _ ← paging.map page trampolineFrame kernelFlags
  modify fun machine => { machine with memory := others machine.memory }

def bootMemory (paging : Paging μ) (physOffset : VirtAddr) (others : Memory → Memory)
    (elfProgram : List U8) : StateT (Machine μ) Option U64 := do
  bootKernel paging others
  setup paging physOffset elfProgram

/-! ## The user program -/

section

variable {paging : Paging μ} {physOffset : VirtAddr} {machine after : Machine μ}

theorem loadRequest_step {request : Request} {result : Except ElfError Unit}
    (returned : (loadRequest paging physOffset request).run.run machine = some (result, after)) :
    ∃ event, event ≠ MapEvent.work ∧ MapStep paging machine event after := by
  rcases (loadRequest_returns_iff ..).mp returned with
    ⟨_, _, rfl⟩ | ⟨frame, page, answer, _, ⟨failure, _, refused⟩ |
      ⟨mapped, kv, dstOff, contents, _, added, _, parsed, rfl⟩⟩
  · exact ⟨.refused, by simp, .exhausted machine⟩
  · exact ⟨.refused, by simp, .refused refused⟩
  · refine ⟨.granted ⟨page, frame, request.segment.flags⟩, by simp, ?_⟩
    refine MapStep.granted ⟨page, frame, request.segment.flags⟩ _ answer added ?_
    intro a outside
    exact Machine.filled_outside mapped (pageContents_length parsed) outside

theorem loadRequests_run {requests : List Request} {result : Except ElfError Unit}
    (returned : (forM requests (loadRequest paging physOffset)).run.run machine =
      some (result, after)) :
    ∃ events, MapEvent.work ∉ events ∧ Run (MapStep paging) machine events after := by
  induction requests generalizing machine with
  | nil =>
      obtain ⟨_, rfl⟩ := Prod.mk.inj (Option.some.inj returned)
      exact ⟨[], List.not_mem_nil, Run.nil machine⟩
  | cons request rest inductionHypothesis =>
      rw [List.forM_cons, run_bind, Option.bind_eq_some_iff] at returned
      obtain ⟨⟨first, between⟩, firstRan, restRan⟩ := returned
      obtain ⟨event, notWork, stepped⟩ := loadRequest_step firstRan
      cases first with
      | error failure =>
          obtain ⟨_, rfl⟩ := Prod.mk.inj (Option.some.inj restRan)
          exact ⟨[event], by simpa using notWork.symm, Run.single stepped⟩
      | ok _ =>
          obtain ⟨events, noWork, ran⟩ := inductionHypothesis restRan
          exact ⟨event :: events, by simp [notWork.symm, noWork], Run.cons stepped ran⟩

theorem load_run {bytes : List U8} {result : Except ElfError U64}
    (returned : (load paging physOffset bytes).run.run machine = some (result, after)) :
    ∃ events, MapEvent.work ∉ events ∧ Run (MapStep paging) machine events after := by
  rcases (load_returns_iff ..).mp returned with
    ⟨_, _, _, rfl⟩ | ⟨header, _, ⟨failure, ran, _⟩ | ⟨ran, _⟩⟩
  · exact ⟨[], List.not_mem_nil, Run.nil after⟩
  · exact loadRequests_run ran
  · exact loadRequests_run ran

theorem mapNewPage_returns {virt : U64} {flags : PageTableFlags} {dst : Nat}
    (returned : (mapNewPage paging physOffset virt flags).run machine = some (dst, after)) :
    ∃ page frame, paging.frames machine.allocated = some frame ∧
      paging.mapTo page frame flags { machine with allocated := machine.allocated + 1 } =
        (.ok (), after) ∧ dst = frame.startAddress.value := by
  simp only [mapNewPage, StateT.run_bind, paging.run_allocateFrame, run_panicOr, paging.run_map,
    Option.bind_eq_bind, Option.bind_some, Option.bind_eq_some_iff, Option.map_eq_some_iff]
    at returned
  obtain ⟨_, ⟨frame, answer, rfl⟩, _, ⟨address, _, rfl⟩, _, ⟨_, succeeded, rfl⟩, _, ⟨kv, seen, rfl⟩,
    final⟩ := returned
  obtain ⟨rfl, rfl⟩ := Prod.mk.inj (Option.some.inj final)
  refine ⟨Page.containingAddress address, frame, answer, ?_, windowAddress_frame seen⟩
  rcases outcome : paging.mapTo (Page.containingAddress address) frame flags
    { machine with allocated := machine.allocated + 1 } with ⟨failure | _, mapped⟩
  · rw [outcome] at succeeded
    cases succeeded
  · rfl

/-- Bytes stored from the start of a frame on. -/
theorem store_outside (memory : Memory) {frame : PhysFrame} {bytes : List U8}
    (fits : bytes.length ≤ 4096) {a : Nat} (outside : ¬ frame.Contains a) :
    writeBytes memory frame.startAddress.value bytes a = memory a := by
  rw [PhysFrame.Contains] at outside
  exact writeBytes_outside memory (by omega)

theorem installUserProgram_step {entry : U64}
    (returned : (installUserProgram paging physOffset).run machine = some (entry, after)) :
    ∃ mapping, MapStep paging machine (.granted mapping) after := by
  rw [installUserProgram, StateT.run_bind, Option.bind_eq_bind, Option.bind_eq_some_iff] at returned
  obtain ⟨⟨dst, mapped⟩, ran, stored⟩ := returned
  obtain ⟨page, frame, answer, added, rfl⟩ := mapNewPage_returns ran
  simp only [StateT.run_bind, run_store, Option.bind_eq_bind, Option.bind_some] at stored
  obtain ⟨_, rfl⟩ := Prod.mk.inj (Option.some.inj stored)
  refine ⟨⟨page, frame, _⟩, MapStep.granted ⟨page, frame, _⟩ _ answer added ?_⟩
  intro a outside
  rw [store_outside _ (by decide) outside, store_outside _ (List.length_replicate).le outside]

/-- The end of `setup`. -/
theorem mapUserStack_step {start entry : U64}
    (returned : (do mapUserStack paging physOffset; return start).run machine =
      some (entry, after)) :
    ∃ mapping, MapStep paging machine (.granted mapping) after := by
  rw [mapUserStack, bind_assoc, StateT.run_bind, Option.bind_eq_bind, Option.bind_eq_some_iff]
    at returned
  obtain ⟨⟨dst, mapped⟩, ran, stored⟩ := returned
  obtain ⟨page, frame, answer, added, rfl⟩ := mapNewPage_returns ran
  rw [StateT.run_bind, run_store, Option.bind_eq_bind, Option.bind_some] at stored
  obtain ⟨_, rfl⟩ := Prod.mk.inj (Option.some.inj stored)
  refine ⟨⟨page, frame, _⟩, MapStep.granted ⟨page, frame, _⟩ _ answer added ?_⟩
  intro a outside
  exact store_outside _ (List.length_replicate).le outside

theorem setup_run {elfProgram : List U8} {entry : U64}
    (returned : (setup paging physOffset elfProgram).run machine = some (entry, after)) :
    ∃ events, MapEvent.work ∉ events ∧ Run (MapStep paging) machine events after := by
  rw [setup, StateT.run_bind, Option.bind_eq_bind, Option.bind_eq_some_iff] at returned
  obtain ⟨⟨loaded, between⟩, loadRan, rest⟩ := returned
  obtain ⟨events, noWork, ran⟩ := load_run loadRan
  cases loaded with
  | ok ep =>
      obtain ⟨stack, stackStep⟩ := mapUserStack_step rest
      exact ⟨events ++ [.granted stack], by simp [noWork], ran.append (Run.single stackStep)⟩
  | error failure =>
      dsimp only at rest
      rw [StateT.run_bind, Option.bind_eq_bind, Option.bind_eq_some_iff] at rest
      obtain ⟨⟨start, installed⟩, programRan, rest⟩ := rest
      obtain ⟨code, codeStep⟩ := installUserProgram_step programRan
      obtain ⟨stack, stackStep⟩ := mapUserStack_step rest
      exact ⟨events ++ [.granted code, .granted stack], by simp [noWork],
        ran.append (Run.cons codeStep (Run.single stackStep))⟩

/-! ## Boot -/

theorem bootKernel_run {others : Memory → Memory} {ready : Machine μ}
    (returned : (bootKernel paging others).run machine = some ((), ready)) :
    ∃ frames : List PhysFrame, frames.length = heapPages.length ∧
      Run (MapStep paging) machine
        ((heapMappings heapPages frames).map .granted ++ [.shared, .work]) ready := by
  rw [bootKernel, StateT.run_bind, Option.bind_eq_bind, Option.bind_eq_some_iff] at returned
  obtain ⟨⟨heap, mapped⟩, heapRan, rest⟩ := returned
  rw [StateT.run_bind, run_panicOr, Option.bind_eq_bind, Option.bind_eq_some_iff] at rest
  obtain ⟨_, succeeded, rest⟩ := rest
  obtain ⟨_, isOk, rfl⟩ := Option.map_eq_some_iff.mp succeeded
  cases heap with
  | error failure => cases isOk
  | ok _ =>
      rw [initHeap_eq] at heapRan
      obtain ⟨frames, length, granted⟩ := mapHeapPages_returns heapRan
      rw [StateT.run_bind, run_panicOr, Option.bind_eq_bind, Option.bind_eq_some_iff] at rest
      obtain ⟨_, named, rest⟩ := rest
      obtain ⟨page, _, rfl⟩ := Option.map_eq_some_iff.mp named
      rw [StateT.run_bind, paging.run_map, Option.bind_eq_bind, Option.bind_some] at rest
      rcases shared : paging.mapTo page trampolineFrame kernelFlags mapped with ⟨result, between⟩
      rw [shared, StateT.run_modify] at rest
      obtain ⟨_, rfl⟩ := Prod.mk.inj (Option.some.inj rest)
      exact ⟨frames, length, granted.append (Run.cons (.shared rfl shared)
        (Run.single (.work between (others between.memory))))⟩

end

/-! ## A machine with enough frames -/

theorem mapHeapPages_windowFrames {limit : Nat} (fits : limit ≤ 2 ^ 35) (pages : List Page)
    (machine : Machine (Page → Option (PhysFrame × PageTableFlags)))
    (available : machine.allocated + pages.length ≤ limit) (distinct : pages.Nodup)
    (unmapped : ∀ page ∈ pages, machine.mapper page = none) :
    ∃ after, (forM pages (mapHeapPage (flatPaging (windowFrames limit)))).run.run machine =
        some (.ok (), after) ∧
      after.allocated = machine.allocated + pages.length ∧
      ∀ page, page ∉ pages → after.mapper page = machine.mapper page := by
  induction pages generalizing machine with
  | nil => exact ⟨machine, rfl, rfl, fun _ _ => rfl⟩
  | cons page rest inductionHypothesis =>
      rw [List.length_cons] at available
      rw [List.nodup_cons] at distinct
      have inside : machine.allocated < limit ∧ machine.allocated < 2 ^ 35 := ⟨by omega, by omega⟩
      obtain ⟨frame, answer⟩ : ∃ frame, windowFrames limit machine.allocated = some frame :=
        ⟨_, dif_pos inside⟩
      rcases flatPaging_mapTo_cases (windowFrames limit) page frame kernelFlags
        { machine with allocated := machine.allocated + 1 } with ⟨entry, mapped, _⟩ | ⟨_, granted⟩
      · cases (unmapped page List.mem_cons_self).symm.trans mapped
      · obtain ⟨after, ran, calls, others⟩ := inductionHypothesis
          { machine with
            allocated := machine.allocated + 1
            mapper := Function.update machine.mapper page (some (frame, kernelFlags)) }
          (by show machine.allocated + 1 + _ ≤ _; omega) distinct.2 (by
            intro other member
            have different : other ≠ page := fun same => distinct.1 (same ▸ member)
            show Function.update machine.mapper page _ other = none
            rw [Function.update_of_ne different]
            exact unmapped other (List.mem_cons_of_mem page member))
        refine ⟨after, ?_, by rw [calls, List.length_cons]; dsimp only; omega, ?_⟩
        · rw [List.forM_cons, run_bind, mapHeapPage, run_perform_bind, Paging.run_allocateFrame,
            Option.bind_some, show (flatPaging (windowFrames limit)).frames machine.allocated =
              some frame from answer]
          simp only [run_perform_bind, Paging.run_map, granted, Option.bind_some]
          exact ran
        · intro other notListed
          rw [List.mem_cons, not_or] at notListed
          rw [others other notListed.2]
          exact Function.update_of_ne notListed.1 _ _

theorem mapNewPage_windowFrames {limit : Nat} (fits : limit ≤ 2 ^ 35) {virt : U64}
    {address : VirtAddr} (isNew : VirtAddr.new virt = some address) (flags : PageTableFlags)
    (machine : Machine (Page → Option (PhysFrame × PageTableFlags)))
    (available : machine.allocated < limit)
    (unmapped : machine.mapper (Page.containingAddress address) = none) :
    ∃ dst entry after,
      (mapNewPage (flatPaging (windowFrames limit)) lowWindow virt flags).run machine =
        some (dst, after) ∧
      after.allocated = machine.allocated + 1 ∧
      after.mapper =
        Function.update machine.mapper (Page.containingAddress address) (some entry) := by
  have inside : machine.allocated < limit ∧ machine.allocated < 2 ^ 35 := ⟨by omega, by omega⟩
  obtain ⟨frame, answer, frameIs⟩ : ∃ frame, windowFrames limit machine.allocated = some frame ∧
      frame.startAddress.value = 4096 * machine.allocated := ⟨_, dif_pos inside, rfl⟩
  obtain ⟨kv, seen⟩ : ∃ kv, lowWindow.add (BitVec.ofNat 64 frame.startAddress.value) = some kv :=
    lowWindow_add (by omega)
  rcases flatPaging_mapTo_cases (windowFrames limit) (Page.containingAddress address) frame flags
    { machine with allocated := machine.allocated + 1 } with ⟨entry, mapped, _⟩ | ⟨_, granted⟩
  · cases unmapped.symm.trans mapped
  · refine ⟨windowAddress lowWindow.value kv.value, (frame, flags),
      { machine with
        allocated := machine.allocated + 1
        mapper := Function.update machine.mapper (Page.containingAddress address)
          (some (frame, flags)) }, ?_, rfl, rfl⟩
    simp only [mapNewPage, StateT.run_bind, Paging.run_allocateFrame, run_panicOr, Paging.run_map,
      Option.bind_eq_bind, Option.bind_some, Option.map_some, isNew,
      show (flatPaging (windowFrames limit)).frames machine.allocated = some frame from answer,
      granted, seen]
    rfl

theorem heapPages_length : heapPages.length ≤ 2048 := by
  refine (List.length_filterMap_le _ _).trans ?_
  rw [SteppedRanges.stepBy_length]
  decide

theorem userCode_canonical : Canonical USER_CODE_VIRT := by decide

theorem userStack_canonical : Canonical (USER_STACK_TOP - 4096) := by decide

def fallbackCodePage : Page := Page.containingAddress ⟨USER_CODE_VIRT, userCode_canonical⟩

def userStackPage : Page := Page.containingAddress ⟨USER_STACK_TOP - 4096, userStack_canonical⟩

theorem trampoline_canonical : Canonical 0x50000 := by decide

def trampolinePage : Page := Page.containingAddress ⟨0x50000, trampoline_canonical⟩

instance (page : Page) : Decidable (InHeap page) := inferInstanceAs (Decidable (_ ∧ _))

/-- Nothing is loaded from an empty file, and the built-in program is installed. -/
theorem setup_windowFrames
    (machine : Machine (Page → Option (PhysFrame × PageTableFlags)))
    (available : machine.allocated + 1 < 4096) (codeFree : machine.mapper fallbackCodePage = none)
    (stackFree : machine.mapper userStackPage = none) :
    ∃ booted, (setup (flatPaging (windowFrames 4096)) lowWindow []).run machine =
      some (USER_CODE_VIRT, booted) := by
  have refused : (load (flatPaging (windowFrames 4096)) lowWindow []).run.run machine =
      some (.error .tooShort, machine) := (load_returns_iff ..).mpr (Or.inl ⟨_, rfl, rfl, rfl⟩)
  have few : 4096 ≤ 2 ^ 35 := by decide
  obtain ⟨codeDst, codeEntry, coded, codeRan, codeCalls, codeMapper⟩ := mapNewPage_windowFrames few
    (dif_pos userCode_canonical)
    { present := true, writable := true, userAccessible := true, noExecute := false } machine
    (by omega) codeFree
  obtain ⟨filled, filledIs⟩ : ∃ filled : Machine (Page → Option (PhysFrame × PageTableFlags)),
      filled = { coded with memory := writeBytes (writeBytes coded.memory codeDst
        (List.replicate 4096 0xCC)) codeDst USER_PROGRAM } := ⟨_, rfl⟩
  have installed : (installUserProgram (flatPaging (windowFrames 4096)) lowWindow).run machine =
      some (USER_CODE_VIRT, filled) := by
    rw [installUserProgram, StateT.run_bind, codeRan, filledIs]
    rfl
  have apart : userStackPage ≠ fallbackCodePage := by decide
  obtain ⟨stackDst, stackEntry, stacked, stackRan, _⟩ := mapNewPage_windowFrames few
    (dif_pos userStack_canonical)
    { present := true, writable := true, userAccessible := true, noExecute := true } filled
    (by rw [filledIs]; show coded.allocated < 4096; omega) (by
      rw [filledIs]
      show coded.mapper userStackPage = none
      rw [codeMapper]
      exact (Function.update_of_ne apart _ _).trans stackFree)
  refine ⟨{ stacked with memory := writeBytes stacked.memory stackDst (List.replicate 4096 0) }, ?_⟩
  rw [setup, StateT.run_bind, refused, Option.bind_eq_bind, Option.bind_some]
  dsimp only
  rw [StateT.run_bind, installed, Option.bind_eq_bind, Option.bind_some, mapUserStack, bind_assoc,
    StateT.run_bind, stackRan, Option.bind_eq_bind, Option.bind_some, StateT.run_bind, run_store]
  rfl

end AxiomKernel.User
