import Mathlib
import AxiomKernel.Lib.Bytes
import AxiomKernel.Lib.ByteMemory
import AxiomKernel.Lib.LabelledRun
import AxiomKernel.Memory.FrameAllocator
import AxiomKernel.Memory.Paging

/-!
# Runs that map pages

What the kernel does to the address space while it boots, as steps: it takes a frame and
maps it somewhere, it fails to, it maps a frame of its choice for itself, or it writes
memory.  `Accounted` says who uses which frame, and holds along every run: the frames that
were taken and mapped stay mapped, are all different and hold no page table, and a page that
user mode may access is always one of them.
-/

set_option autoImplicit false

namespace AxiomKernel.Memory

open ByteStrings ByteMemory LabelledRuns

variable {μ : Type}

/-! ## Steps -/

structure Mapping where
  page : Page
  frame : PhysFrame
  flags : PageTableFlags

inductive MapEvent where
  /-- The next frame of the allocator is mapped, and may be filled. -/
  | granted (mapping : Mapping)
  /-- A frame was asked for, and nothing was mapped. -/
  | refused
  /-- A frame of the kernel's choice is mapped for the kernel, or not. -/
  | shared
  /-- The kernel writes memory. -/
  | work

def MapEvent.grants : MapEvent → List Mapping
  | granted mapping => [mapping]
  | refused => []
  | shared => []
  | work => []

theorem grants_map_granted (mappings : List Mapping) :
    (mappings.map MapEvent.granted).flatMap MapEvent.grants = mappings := by
  induction mappings with
  | nil => rfl
  | cons mapping rest inductionHypothesis =>
      rw [List.map_cons, List.flatMap_cons, inductionHypothesis]
      rfl

inductive MapStep (paging : Paging μ) : Machine μ → MapEvent → Machine μ → Prop
  | granted {machine mapped : Machine μ} (mapping : Mapping) (memory : Memory)
      (answer : paging.frames machine.allocated = some mapping.frame)
      (added : paging.mapTo mapping.page mapping.frame mapping.flags
        { machine with allocated := machine.allocated + 1 } = (.ok (), mapped))
      (written : ∀ a, ¬ mapping.frame.Contains a → memory a = mapped.memory a) :
      MapStep paging machine (.granted mapping) { mapped with memory := memory }
  | exhausted (machine : Machine μ) :
      MapStep paging machine .refused { machine with allocated := machine.allocated + 1 }
  | refused {machine after : Machine μ} {page : Page} {frame : PhysFrame} {flags : PageTableFlags}
      {failure : MapToError}
      (refused : paging.mapTo page frame flags
        { machine with allocated := machine.allocated + 1 } = (.error failure, after)) :
      MapStep paging machine .refused after
  | shared {machine after : Machine μ} {page : Page} {frame : PhysFrame} {flags : PageTableFlags}
      {result : Except MapToError Unit} (kernelOnly : flags.userAccessible = false)
      (mapped : paging.mapTo page frame flags machine = (result, after)) :
      MapStep paging machine .shared after
  | work (machine : Machine μ) (memory : Memory) :
      MapStep paging machine .work { machine with memory := memory }

/-! ## Who uses which frame -/

/-- The frames of `grants` were handed out once each.  Neither they nor the frames still to be
handed out hold page tables. -/
structure FramesApart (paging : Paging μ) (grants : List Mapping) (machine : Machine μ) :
    Prop where
  unused : paging.Fresh machine
  taken : ∀ grant ∈ grants, ∃ i < machine.allocated, paging.frames i = some grant.frame
  notTable : ∀ grant ∈ grants, grant.frame ∉ paging.tables machine.mapper
  framesDistinct : (grants.map Mapping.frame).Nodup

structure Accounted (paging : Paging μ) (grants : List Mapping) (machine : Machine μ) : Prop
    extends FramesApart paging grants machine where
  mapped : ∀ grant ∈ grants,
    paging.mappings machine.mapper grant.page = some (grant.frame, grant.flags)
  user : ∀ page frame flags, paging.mappings machine.mapper page = some (frame, flags) →
    flags.userAccessible = true → ⟨page, frame, flags⟩ ∈ grants

section

variable {paging : Paging μ} {grants : List Mapping} {machine after : Machine μ} {page : Page}
  {frame : PhysFrame} {flags : PageTableFlags} {result : Except MapToError Unit}

/-- A frame handed out before or after a call does not become a page table in it. -/
theorem mapTo_notTable (exactly : paging.MapsExactly)
    (ran : paging.mapTo page frame flags machine = (result, after)) {i : Nat} {other : PhysFrame}
    (answer : paging.frames i = some other) (notTable : other ∉ paging.tables machine.mapper)
    (outside : i < machine.allocated ∨ after.allocated ≤ i) :
    other ∉ paging.tables after.mapper := by
  intro isTable
  have taken := @Paging.MapsExactly.tablesTaken _ _ exactly page frame flags machine other
  rw [ran] at taken
  rcases taken isTable with old | ⟨j, later, upTo, sameFrame⟩
  · exact notTable old
  · have sameCall := exactly.framesDistinct answer sameFrame
    dsimp only at upTo
    omega

theorem FramesApart.mapTo (exactly : paging.MapsExactly)
    (apart : FramesApart paging grants machine)
    (ran : paging.mapTo page frame flags machine = (result, after)) :
    FramesApart paging grants after := by
  have callsGrow := exactly.callsGrow page frame flags machine
  rw [ran] at callsGrow
  refine ⟨?_, ?_, ?_, apart.framesDistinct⟩
  · intro i other later answer
    have unused := apart.unused i other (callsGrow.trans later) answer
    exact mapTo_notTable exactly ran answer unused (Or.inr later)
  · intro grant member
    obtain ⟨i, early, answer⟩ := apart.taken grant member
    exact ⟨i, early.trans_le callsGrow, answer⟩
  · intro grant member
    obtain ⟨i, early, answer⟩ := apart.taken grant member
    exact mapTo_notTable exactly ran answer (apart.notTable grant member) (Or.inl early)

theorem FramesApart.allocate (apart : FramesApart paging grants machine) :
    FramesApart paging grants { machine with allocated := machine.allocated + 1 } := by
  refine ⟨?_, ?_, apart.notTable, apart.framesDistinct⟩
  · intro i other later answer
    exact apart.unused i other (Nat.le_of_succ_le later) answer
  · intro grant member
    obtain ⟨i, early, answer⟩ := apart.taken grant member
    exact ⟨i, Nat.lt_succ_of_lt early, answer⟩

theorem FramesApart.grant (exactly : paging.MapsExactly) (apart : FramesApart paging grants machine)
    (mapping : Mapping) (answer : paging.frames machine.allocated = some mapping.frame) :
    FramesApart paging (grants ++ [mapping]) { machine with allocated := machine.allocated + 1 } := by
  have old := apart.allocate
  refine ⟨old.unused, ?_, ?_, ?_⟩
  · intro grant member
    rcases List.mem_append.mp member with earlier | isNew
    · exact old.taken grant earlier
    · obtain rfl := List.mem_singleton.mp isNew
      exact ⟨machine.allocated, Nat.lt_succ_self _, answer⟩
  · intro grant member
    rcases List.mem_append.mp member with earlier | isNew
    · exact old.notTable grant earlier
    · obtain rfl := List.mem_singleton.mp isNew
      exact apart.unused machine.allocated _ (Nat.le_refl _) answer
  · rw [List.map_append, List.nodup_append]
    refine ⟨apart.framesDistinct, List.nodup_singleton _, ?_⟩
    intro earlier listed frame isNew same
    obtain ⟨grant, member, rfl⟩ := List.mem_map.mp listed
    obtain ⟨i, early, taken⟩ := apart.taken grant member
    rw [same, List.mem_singleton.mp isNew] at taken
    have sameCall := exactly.framesDistinct taken answer
    omega

/-- A new mapping leaves the others. -/
theorem mapped_of_added (exactly : paging.MapsExactly)
    (ran : paging.mapTo page frame flags machine = (.ok (), after)) {other : Page}
    {entry : PhysFrame × PageTableFlags}
    (mapped : paging.mappings machine.mapper other = some entry) :
    paging.mappings after.mapper other = some entry := by
  obtain ⟨unmapped, mappings⟩ := exactly.added ran
  have different : other ≠ page := by
    intro same
    rw [same, unmapped] at mapped
    cases mapped
  rw [mappings, Function.update_of_ne different]
  exact mapped

theorem mapped_before (exactly : paging.MapsExactly)
    (ran : paging.mapTo page frame flags machine = (.ok (), after)) {other : Page}
    {entry : PhysFrame × PageTableFlags}
    (mapped : paging.mappings after.mapper other = some entry) :
    paging.mappings machine.mapper other = some entry ∨ other = page ∧ entry = (frame, flags) := by
  obtain ⟨_, mappings⟩ := exactly.added ran
  by_cases same : other = page
  · rw [mappings, same, Function.update_self] at mapped
    exact Or.inr ⟨same, (Option.some.inj mapped).symm⟩
  · rw [mappings, Function.update_of_ne same] at mapped
    exact Or.inl mapped

theorem Accounted.granted (exactly : paging.MapsExactly)
    (accounted : Accounted paging grants machine) {mapping : Mapping} {mapped : Machine μ}
    (answer : paging.frames machine.allocated = some mapping.frame)
    (added : paging.mapTo mapping.page mapping.frame mapping.flags
      { machine with allocated := machine.allocated + 1 } = (.ok (), mapped)) :
    Accounted paging (grants ++ [mapping]) mapped := by
  refine ⟨(accounted.toFramesApart.grant exactly mapping answer).mapTo exactly added, ?_, ?_⟩
  · intro grant member
    rcases List.mem_append.mp member with earlier | isNew
    · exact mapped_of_added exactly added (accounted.mapped grant earlier)
    · obtain rfl := List.mem_singleton.mp isNew
      rw [(exactly.added added).2, Function.update_self]
  · intro page frame flags isMapped isUser
    rw [List.mem_append, List.mem_singleton]
    rcases mapped_before exactly added isMapped with earlier | ⟨rfl, isNew⟩
    · exact Or.inl (accounted.user page frame flags earlier isUser)
    · obtain ⟨rfl, rfl⟩ := Prod.mk.inj isNew
      exact Or.inr rfl

theorem Accounted.shared (exactly : paging.MapsExactly) (accounted : Accounted paging grants machine)
    (kernelOnly : flags.userAccessible = false)
    (ran : paging.mapTo page frame flags machine = (result, after)) :
    Accounted paging grants after := by
  have apart := accounted.toFramesApart.mapTo exactly ran
  cases result with
  | error failure =>
      have same := exactly.refused ran
      exact ⟨apart, by rw [same]; exact accounted.mapped, by rw [same]; exact accounted.user⟩
  | ok _ =>
      refine ⟨apart, ?_, ?_⟩
      · intro grant member
        exact mapped_of_added exactly ran (accounted.mapped grant member)
      · intro other otherFrame otherFlags isMapped isUser
        rcases mapped_before exactly ran isMapped with earlier | ⟨_, isNew⟩
        · exact accounted.user other otherFrame otherFlags earlier isUser
        · obtain ⟨-, rfl⟩ := Prod.mk.inj isNew
          rw [kernelOnly] at isUser
          cases isUser

theorem Accounted.step (exactly : paging.MapsExactly) (accounted : Accounted paging grants machine)
    {event : MapEvent} (stepped : MapStep paging machine event after) :
    Accounted paging (grants ++ event.grants) after := by
  cases stepped with
  | granted mapping memory answer added written =>
      have mapped := accounted.granted exactly answer added
      exact ⟨⟨mapped.unused, mapped.taken, mapped.notTable, mapped.framesDistinct⟩, mapped.mapped,
        mapped.user⟩
  | exhausted =>
      rw [MapEvent.grants, List.append_nil]
      exact ⟨accounted.toFramesApart.allocate, accounted.mapped, accounted.user⟩
  | refused refused =>
      have same := exactly.refused refused
      rw [MapEvent.grants, List.append_nil]
      exact ⟨accounted.toFramesApart.allocate.mapTo exactly refused,
        by rw [same]; exact accounted.mapped, by rw [same]; exact accounted.user⟩
  | shared kernelOnly mapped =>
      rw [MapEvent.grants, List.append_nil]
      exact accounted.shared exactly kernelOnly mapped
  | work memory =>
      rw [MapEvent.grants, List.append_nil]
      exact ⟨⟨accounted.unused, accounted.taken, accounted.notTable, accounted.framesDistinct⟩,
        accounted.mapped, accounted.user⟩

theorem Accounted.run (exactly : paging.MapsExactly) (accounted : Accounted paging grants machine)
    {events : List MapEvent} (ran : Run (MapStep paging) machine events after) :
    Accounted paging (grants ++ events.flatMap MapEvent.grants) after := by
  refine Run.history (fun events state =>
    Accounted paging (grants ++ events.flatMap MapEvent.grants) state) ?_ ?_ ran
  · intro events state event next inductionHypothesis stepped
    rw [List.flatMap_append, List.flatMap_singleton, ← List.append_assoc]
    exact inductionHypothesis.step exactly stepped
  · rw [List.flatMap_nil, List.append_nil]
    exact accounted

/-! ## What a frame holds -/

theorem mapTo_memory (exactly : paging.MapsExactly)
    (ran : paging.mapTo page frame flags machine = (result, after)) {other : PhysFrame}
    (notTable : other ∉ paging.tables after.mapper) {a : Nat} (inside : other.Contains a) :
    after.memory a = machine.memory a := by
  have kept := @Paging.MapsExactly.writesTables _ _ exactly page frame flags machine a
  rw [ran] at kept
  apply kept
  intro table isTable
  refine PhysFrame.not_contains_of_ne ?_ inside
  intro same
  exact notTable (same ▸ isTable)

/-- Mapping other pages leaves a mapped frame as it is. -/
theorem Accounted.step_memory (exactly : paging.MapsExactly)
    (accounted : Accounted paging grants machine) {event : MapEvent}
    (stepped : MapStep paging machine event after) (notWork : event ≠ .work) {grant : Mapping}
    (member : grant ∈ grants) {a : Nat} (inside : grant.frame.Contains a) :
    after.memory a = machine.memory a := by
  have later := accounted.step exactly stepped
  have notTable := later.notTable grant (List.mem_append_left _ member)
  cases stepped with
  | granted mapping memory answer added written =>
      have different : grant.frame ≠ mapping.frame := by
        have distinct := later.framesDistinct
        rw [MapEvent.grants, List.map_append, List.nodup_append] at distinct
        exact distinct.2.2 _ (List.mem_map_of_mem member) _ (by simp)
      show memory a = machine.memory a
      rw [written a (PhysFrame.not_contains_of_ne different inside)]
      exact mapTo_memory exactly added notTable inside
  | exhausted => rfl
  | refused refused => exact mapTo_memory exactly refused notTable inside
  | shared kernelOnly mapped => exact mapTo_memory exactly mapped notTable inside
  | work memory => exact absurd rfl notWork

theorem Accounted.run_memory (exactly : paging.MapsExactly)
    (accounted : Accounted paging grants machine) {events : List MapEvent}
    (ran : Run (MapStep paging) machine events after) (noWork : MapEvent.work ∉ events)
    {grant : Mapping} (member : grant ∈ grants) {a : Nat} (inside : grant.frame.Contains a) :
    after.memory a = machine.memory a := by
  refine (Run.history (fun events state => Accounted paging
    (grants ++ events.flatMap MapEvent.grants) state ∧
      (MapEvent.work ∉ events → state.memory a = machine.memory a)) ?_ ?_ ran).2 noWork
  · intro events state event next inductionHypothesis stepped
    obtain ⟨accounted, kept⟩ := inductionHypothesis
    refine ⟨?_, ?_⟩
    · rw [List.flatMap_append, List.flatMap_singleton, ← List.append_assoc]
      exact accounted.step exactly stepped
    · intro noWork
      rw [List.mem_append, List.mem_singleton, not_or] at noWork
      rw [accounted.step_memory exactly stepped (Ne.symm noWork.2)
        (List.mem_append_left _ member) inside]
      exact kept noWork.1
  · rw [List.flatMap_nil, List.append_nil]
    exact ⟨accounted, fun _ => rfl⟩

end

end AxiomKernel.Memory
