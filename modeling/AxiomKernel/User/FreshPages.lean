import Mathlib
import AxiomKernel.Lib.ByteMemory
import AxiomKernel.Lib.TwoRun
import AxiomKernel.Memory.Paging
import AxiomKernel.User.ElfLoader
import AxiomKernel.User.Setup

/-!
# User pages do not depend on stale memory

Two machines that differ only in what free frames hold go through `setup` in
step, and end with the same bytes in every page `setup` mapped.  The relation
between the two runs is `Agree`; between mapping a frame and overwriting it the
frame is `pending`.
-/

set_option autoImplicit false

namespace AxiomKernel.User

open ByteStrings ByteMemory TwoRuns Memory

section TwoMachines

variable {μ : Type} (paging : Paging μ) (origin : μ)

/-- The frames whose contents are determined: page tables, and what was mapped
since the mapper was in state `origin`. -/
def Settled (mapper : μ) : Set PhysFrame :=
  {frame | frame ∈ paging.tables mapper ∨ ∃ page flags,
    paging.mappings mapper page = some (frame, flags) ∧
    paging.mappings origin page ≠ some (frame, flags)}

/-- Two machines agree on every settled frame except those still pending, and the
allocator will not hand out a settled frame. -/
structure Agree (pending : Set PhysFrame) (left right : Machine μ) : Prop where
  sameMapper : left.mapper = right.mapper
  sameCalls : left.allocated = right.allocated
  notFree : ∀ frame ∈ Settled paging origin left.mapper, ∀ i, left.allocated ≤ i →
    paging.frames i ≠ some frame
  same : ∀ frame ∈ Settled paging origin left.mapper, frame ∉ pending →
    SameOn left.memory right.memory frame

structure Holding (frame : PhysFrame) (left right : Machine μ) : Prop
    extends Agree paging origin ∅ left right where
  frameTaken : ∀ i, left.allocated ≤ i → paging.frames i ≠ some frame

variable {paging origin}

/-! ## One rule for each primitive -/

theorem allocateFrame_agree (sound : paging.Sound) :
    Both (Agree paging origin ∅) paging.allocateFrame fun result left right =>
      match result with
      | some frame => Holding paging origin frame left right
      | none => Agree paging origin ∅ left right := by
  intro left right related result leftAfter ran
  obtain ⟨rfl, rfl⟩ := Prod.mk.inj (Option.some.inj ran)
  refine ⟨{ right with allocated := right.allocated + 1 }, ?_, ?_⟩
  · rw [related.sameCalls]
    rfl
  · have advanced : Agree paging origin ∅ { left with allocated := left.allocated + 1 }
        { right with allocated := right.allocated + 1 } :=
      { sameMapper := related.sameMapper
        sameCalls := congrArg (· + 1) related.sameCalls
        notFree := fun frame settled i later =>
          related.notFree frame settled i (Nat.le_of_succ_le later)
        same := related.same }
    cases answer : paging.frames left.allocated with
    | none => exact advanced
    | some frame =>
        refine { advanced with frameTaken := ?_ }
        intro i later again
        have sameCall := sound.framesDistinct answer again
        change left.allocated + 1 ≤ i at later
        omega

theorem Agree.tablesSame {left right : Machine μ} (related : Agree paging origin ∅ left right) :
    ∀ table ∈ paging.tables left.mapper, SameOn left.memory right.memory table :=
  fun table member => related.same table (Or.inl member) (Set.notMem_empty table)

/-- What `map_to` leaves related, once it is known which frames it settled. -/
theorem mapTo_agree (sound : paging.Sound) {page : Page} {frame : PhysFrame} {flags : PageTableFlags}
    {left right : Machine μ} (related : Agree paging origin ∅ left right) {pending : Set PhysFrame}
    (settledBy : ∀ other ∈ Settled paging origin (paging.mapTo page frame flags left).2.mapper,
      other ∈ paging.tables (paging.mapTo page frame flags left).2.mapper ∨
        other ∈ Settled paging origin left.mapper ∨ other ∈ pending)
    (pendingTaken : ∀ other ∈ pending, ∀ i, left.allocated ≤ i → paging.frames i ≠ some other) :
    Agree paging origin pending (paging.mapTo page frame flags left).2
      (paging.mapTo page frame flags right).2 := by
  obtain ⟨-, sameMapper, sameCalls, newTablesSame⟩ :=
    sound.readsTables page frame flags related.sameMapper related.sameCalls related.tablesSame
  have callsGrow := sound.callsGrow page frame flags left
  refine ⟨sameMapper, sameCalls, ?_, ?_⟩
  · intro other settled i later
    rcases settledBy other settled with isTable | settledBefore | isPending
    · rcases sound.tablesTaken isTable with oldTable | ⟨call, _, earlier, answer⟩
      · exact related.notFree other (Or.inl oldTable) i (by omega)
      · intro again
        have sameCall := sound.framesDistinct answer again
        omega
    · exact related.notFree other settledBefore i (by omega)
    · exact pendingTaken other isPending i (by omega)
  · intro other settled notPending
    by_cases isTable : other ∈ paging.tables (paging.mapTo page frame flags left).2.mapper
    · exact newTablesSame other isTable
    · -- A settled frame without page tables is not written.
      have settledBefore : other ∈ Settled paging origin left.mapper := by
        rcases settledBy other settled with impossible | settledBefore | impossible
        · exact absurd impossible isTable
        · exact settledBefore
        · exact absurd impossible notPending
      intro address inside
      have outsideTables : ∀ table ∈ paging.tables (paging.mapTo page frame flags left).2.mapper,
          ¬ table.Contains address := by
        intro table member
        apply PhysFrame.not_contains_of_ne _ inside
        rintro rfl
        exact isTable member
      rw [sound.writesTables outsideTables, sound.writesTables (sameMapper ▸ outsideTables)]
      exact related.same other settledBefore (Set.notMem_empty other) address inside

theorem map_agree (sound : paging.Sound) (page : Page) (frame : PhysFrame)
    (flags : PageTableFlags) :
    Both (Holding paging origin frame) (paging.map page frame flags)
      (onOk (fun _ => Agree paging origin {frame}) (Agree paging origin ∅)) := by
  intro left right related result leftAfter ran
  have mapped : paging.mapTo page frame flags left = (result, leftAfter) := Option.some.inj ran
  have sameResult := (sound.readsTables page frame flags related.sameMapper related.sameCalls
    related.tablesSame).1
  refine ⟨(paging.mapTo page frame flags right).2, ?_, ?_⟩
  · have sameFirst : (paging.mapTo page frame flags right).1 = result := by
      rw [← sameResult, mapped]
    exact congrArg some (Prod.ext sameFirst rfl)
  · have afterEq : leftAfter = (paging.mapTo page frame flags left).2 := by rw [mapped]
    rw [afterEq]
    cases result with
    | ok _ =>
        obtain ⟨-, added⟩ := sound.added mapped
        refine mapTo_agree sound related.toAgree ?_ ?_
        · rintro other (isTable | ⟨otherPage, otherFlags, entry, isNew⟩)
          · exact Or.inl isTable
          · rw [← afterEq, added] at entry
            by_cases samePage : otherPage = page
            · rw [samePage, Function.update_self] at entry
              obtain ⟨rfl, rfl⟩ := Prod.mk.inj (Option.some.inj entry)
              exact Or.inr (Or.inr rfl)
            · rw [Function.update_of_ne samePage] at entry
              exact Or.inr (Or.inl (Or.inr ⟨otherPage, otherFlags, entry, isNew⟩))
        · rintro other rfl
          exact related.frameTaken
    | error failure =>
        have unchanged := sound.refused mapped
        refine mapTo_agree sound related.toAgree ?_ ?_
        · rintro other (isTable | ⟨otherPage, otherFlags, entry, isNew⟩)
          · exact Or.inl isTable
          · rw [← afterEq, unchanged] at entry
            exact Or.inr (Or.inl (Or.inr ⟨otherPage, otherFlags, entry, isNew⟩))
        · intro other impossible
          exact absurd impossible (Set.notMem_empty other)

/-- A store keeps the agreement and settles the pending frames it covers. -/
theorem store_agree {pending rest : Set PhysFrame} {base : Nat} {bytes : List U8}
    (covers : ∀ frame ∈ pending, frame ∉ rest → ∀ address, frame.Contains address →
      base ≤ address ∧ address < base + bytes.length) :
    Both (Agree paging origin pending) (store base bytes) fun _ => Agree paging origin rest := by
  intro left right related result leftAfter ran
  obtain ⟨rfl, rfl⟩ := Prod.mk.inj (Option.some.inj ran)
  refine ⟨_, rfl, related.sameMapper, related.sameCalls, related.notFree, ?_⟩
  intro frame settled notPending address inside
  apply writeBytes_congr
  intro outside
  apply related.same frame settled _ address inside
  intro wasPending
  have covered := covers frame wasPending notPending address inside
  omega

theorem overwrite_agree {dst : Nat} {frame : PhysFrame}
    (located : dst = frame.startAddress.value) (byte : U8) :
    Both (Agree paging origin {frame}) (store dst (List.replicate 4096 byte))
      fun _ => Agree paging origin ∅ := by
  apply store_agree
  rintro pendingFrame rfl _ address inside
  rw [located, List.length_replicate]
  exact inside

theorem write_agree (base : Nat) (bytes : List U8) :
    Both (Agree paging origin ∅) (store base bytes) fun _ => Agree paging origin ∅ := by
  apply store_agree
  intro frame impossible
  exact absurd impossible (Set.notMem_empty frame)

/-! ## The loader and `setup` -/

/-- Every way out of the loop body leaves the machines in agreement: without a
mapping, or with the mapped frame zeroed. -/
theorem loadPage_agree (sound : paging.Sound) (physOffset : VirtAddr) (segment : Segment)
    (vpage : U64) :
    Both (Agree paging origin ∅) (loadPage paging physOffset segment vpage).run
      (onOk (fun _ => Agree paging origin ∅) (Agree paging origin ∅)) := by
  rw [loadPage]
  refine (Both.perform (allocateFrame_agree sound)).bindExcept fun answer => ?_
  cases answer with
  | none => exact Both.throw _
  | some frame =>
      refine (Both.perform (Both.panicOr _)).bindExcept fun address => Both.assuming fun _ => ?_
      refine (Both.perform (map_agree sound _ frame _)).bindExcept fun mapped => ?_
      cases mapped with
      | error failure => exact Both.throw _
      | ok _ =>
          refine (Both.perform (Both.panicOr _)).bindExcept fun kv => Both.assuming fun seen => ?_
          refine (Both.perform (overwrite_agree (windowAddress_frame seen) 0)).bindExcept fun _ => ?_
          refine (Both.perform (Both.panicOr _)).bindExcept fun contents => Both.assuming fun _ => ?_
          exact Both.perform (write_agree _ _)

theorem load_agree (sound : paging.Sound) (physOffset : VirtAddr) (bytes : List U8) :
    Both (Agree paging origin ∅) (load paging physOffset bytes).run
      (onOk (fun _ => Agree paging origin ∅) (Agree paging origin ∅)) := by
  rw [load]
  refine (Both.stateless (elfHeader bytes)).bindExcept fun header => ?_
  have segments : Both (Agree paging origin ∅)
      ((List.range header.phnum).forM (loadSegment paging physOffset bytes header)).run
      (onOk (fun _ => Agree paging origin ∅) (Agree paging origin ∅)) := by
    apply Both.forM
    intro i _
    rw [loadSegment]
    refine (Both.stateless (programHeader bytes header i)).bindExcept fun parsed => ?_
    cases parsed with
    | none => exact Both.pureExcept _ fun _ _ related => related
    | some segment =>
        apply Both.forM
        intro vpage _
        exact loadPage_agree sound physOffset segment _
  exact segments.bindExcept fun _ => Both.pureExcept _ fun _ _ related => related

theorem mapNewPage_agree (sound : paging.Sound) (physOffset : VirtAddr) (virt : U64)
    (flags : PageTableFlags) :
    Both (Agree paging origin ∅) (mapNewPage paging physOffset virt flags) fun dst left right =>
      ∃ frame, dst = frame.startAddress.value ∧ Agree paging origin {frame} left right := by
  rw [mapNewPage]
  refine (allocateFrame_agree sound).bind fun answer => ?_
  refine (Both.panicOr answer).bind fun frame => Both.assuming fun handed => ?_
  rw [handed]
  refine (Both.panicOr _).bind fun address => Both.assuming fun _ => ?_
  refine (map_agree sound _ frame flags).bind fun mapped => ?_
  refine (Both.panicOr mapped.toOption).bind fun _ => Both.assuming fun succeeded => ?_
  cases mapped with
  | error failure => cases succeeded
  | ok _ =>
      refine (Both.panicOr _).bind fun kv => Both.assuming fun seen => ?_
      exact Both.pure _ fun _ _ related => ⟨frame, windowAddress_frame seen, related⟩

theorem setup_agree (sound : paging.Sound) (physOffset : VirtAddr) (elfProgram : List U8) :
    Both (Agree paging origin ∅) (setup paging physOffset elfProgram)
      fun _ => Agree paging origin ∅ := by
  have program : Both (Agree paging origin ∅) (installUserProgram paging physOffset)
      fun _ => Agree paging origin ∅ := by
    rw [installUserProgram]
    refine (mapNewPage_agree sound physOffset _ _).bind fun dst => Both.existing fun frame =>
      Both.assuming fun located => ?_
    refine (overwrite_agree located 0xCC).bind fun _ => ?_
    exact (write_agree dst USER_PROGRAM).bind fun _ => Both.pure _ fun _ _ related => related
  have stack : Both (Agree paging origin ∅) (mapUserStack paging physOffset)
      fun _ => Agree paging origin ∅ := by
    rw [mapUserStack]
    refine (mapNewPage_agree sound physOffset _ _).bind fun dst => Both.existing fun frame =>
      Both.assuming fun located => ?_
    exact overwrite_agree located 0
  have finish : ∀ entry : U64, Both (Agree paging origin ∅)
      (do mapUserStack paging physOffset; return entry) fun _ => Agree paging origin ∅ :=
    fun entry => stack.bind fun _ => Both.pure entry fun _ _ related => related
  rw [setup]
  refine (load_agree sound physOffset elfProgram).bind fun loaded => ?_
  cases loaded with
  | ok entry => exact (Both.pure entry fun _ _ related => related).bind finish
  | error failure => exact program.bind finish

/-! ## Free frames -/

/-- Two machines in the same state except for what the free frames hold: those that
`allocate_frame` has yet to hand out. -/
structure DifferInFreeFrames (paging : Paging μ) (left right : Machine μ) : Prop where
  sameMapper : left.mapper = right.mapper
  sameCalls : left.allocated = right.allocated
  sameInUse : ∀ address, (∀ i frame, left.allocated ≤ i → paging.frames i = some frame →
    ¬ frame.Contains address) → left.memory address = right.memory address

theorem DifferInFreeFrames.agree {left right : Machine μ}
    (differ : DifferInFreeFrames paging left right) (unused : paging.Fresh left) :
    Agree paging left.mapper ∅ left right := by
  have onlyTables : ∀ frame ∈ Settled paging left.mapper left.mapper,
      frame ∈ paging.tables left.mapper := by
    rintro frame (isTable | ⟨page, flags, mapped, notMapped⟩)
    · exact isTable
    · exact absurd mapped notMapped
  refine ⟨differ.sameMapper, differ.sameCalls, ?_, ?_⟩
  · intro frame settled i later free
    exact unused i frame later free (onlyTables frame settled)
  · intro frame settled _ address inside
    apply differ.sameInUse
    intro i freeFrame later free
    apply PhysFrame.not_contains_of_ne _ inside
    rintro rfl
    exact unused i frame later free (onlyTables frame settled)

/-- Whatever free frames held before, a run of `setup` that does not panic maps the
same pages and leaves the same byte everywhere in the pages it mapped. -/
theorem setup_independent_of_free_frames (sound : paging.Sound) (physOffset : VirtAddr)
    (elfProgram : List U8) {left right leftAfter : Machine μ} {entry : U64}
    (differ : DifferInFreeFrames paging left right) (unused : paging.Fresh left)
    (returned : (setup paging physOffset elfProgram).run left = some (entry, leftAfter)) :
    ∃ rightAfter, (setup paging physOffset elfProgram).run right = some (entry, rightAfter) ∧
      paging.mappings rightAfter.mapper = paging.mappings leftAfter.mapper ∧
      ∀ page frame flags, paging.mappings leftAfter.mapper page = some (frame, flags) →
        paging.mappings left.mapper page ≠ some (frame, flags) →
        ∀ address, frame.Contains address →
          leftAfter.memory address = rightAfter.memory address := by
  obtain ⟨rightAfter, rightReturned, related⟩ :=
    setup_agree sound physOffset elfProgram left right (differ.agree unused) entry leftAfter returned
  refine ⟨rightAfter, rightReturned, by rw [related.sameMapper], ?_⟩
  intro page frame flags mapped isNew
  exact related.same frame (Or.inr ⟨page, flags, mapped, isNew⟩) (Set.notMem_empty frame)

end TwoMachines

def bootMachine (stale : U8) : Machine (Page → Option (PhysFrame × PageTableFlags)) where
  mapper := fun _ => none
  allocated := 0
  memory := fun address => if 0x1000 ≤ address ∧ address < 0x2000 then stale else 0

/-- A two-byte program loaded over a frame that held `0xAA` bytes. -/
theorem setup_independent_of_free_frames_spin :
    ∃ entry leftAfter,
      (setup (flatPaging conventionalMemory.frame) ⟨0xFFFF800000000000, by decide⟩
        (oneSegmentElf 0x400000 [0xEB, 0xFE])).run (bootMachine 0) = some (entry, leftAfter) ∧
      ∃ rightAfter,
        (setup (flatPaging conventionalMemory.frame) ⟨0xFFFF800000000000, by decide⟩
          (oneSegmentElf 0x400000 [0xEB, 0xFE])).run (bootMachine 0xAA) = some (entry, rightAfter) ∧
        rightAfter.mapper = leftAfter.mapper ∧
        ∀ page frame flags, leftAfter.mapper page = some (frame, flags) → none ≠ some (frame, flags) →
          ∀ address, frame.Contains address →
            leftAfter.memory address = rightAfter.memory address := by
  have returns : ((setup (flatPaging conventionalMemory.frame) ⟨0xFFFF800000000000, by decide⟩
      (oneSegmentElf 0x400000 [0xEB, 0xFE])).run (bootMachine 0)).isSome := by decide +kernel
  obtain ⟨⟨entry, leftAfter⟩, returned⟩ := Option.isSome_iff_exists.mp returns
  have firstFrame : conventionalMemory.frame 0 = some ⟨⟨0x1000, by decide⟩, by decide⟩ := by
    decide +kernel
  have differ : DifferInFreeFrames (flatPaging conventionalMemory.frame) (bootMachine 0)
      (bootMachine 0xAA) := by
    refine ⟨rfl, rfl, ?_⟩
    intro address inUse
    have outside := inUse 0 _ (Nat.le_refl 0) firstFrame
    simp only [PhysFrame.Contains] at outside
    have notStale : ¬ (0x1000 ≤ address ∧ address < 0x2000) := by omega
    simp only [bootMachine, if_neg notStale]
  have unused : (flatPaging conventionalMemory.frame).Fresh (bootMachine 0) :=
    fun i frame _ _ impossible => absurd impossible (Set.notMem_empty frame)
  exact ⟨entry, leftAfter, returned, setup_independent_of_free_frames
    (flatPaging_sound conventionalMemory.frame_injective) _ _ differ unused returned⟩

end AxiomKernel.User
