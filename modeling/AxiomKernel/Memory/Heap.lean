import Mathlib
import AxiomKernel.Lib.Bytes
import AxiomKernel.Lib.Words
import AxiomKernel.Lib.SteppedRange
import AxiomKernel.Lib.LabelledRun
import AxiomKernel.Lib.TwoRun
import AxiomKernel.Memory.FrameAllocator
import AxiomKernel.Memory.Paging
import AxiomKernel.Memory.MappingRuns

/-!
# The kernel heap

Model of `init_heap` of `allocator.rs`: one frame for every page of the heap.  What the
allocator of the heap does with the region is not part of the model.
-/

set_option autoImplicit false

namespace AxiomKernel.Memory

open ByteStrings MachineWords SteppedRanges TwoRuns LabelledRuns

/-! ## The code -/

def HEAP_START : U64 := 0x444444440000

def HEAP_SIZE : U64 := 8 * 1024 * 1024

/-- `VirtAddr - u64` panics on overflow and when the difference is not canonical. -/
def VirtAddr.sub (base : VirtAddr) (offset : U64) : Option VirtAddr := do
  let difference ← checkedSub base.value offset
  VirtAddr.new difference

/-- `Page::range_inclusive` -/
def Page.rangeInclusive (first last : Page) : List Page :=
  (stepBy first.startAddress.value.toNat (last.startAddress.value.toNat + 1) 4096).filterMap
    fun address => (VirtAddr.new (BitVec.ofNat 64 address)).map Page.containingAddress

/-- `PRESENT | WRITABLE` -/
def kernelFlags : PageTableFlags :=
  { present := true, writable := true, userAccessible := false, noExecute := false }

section

variable {μ : Type} (paging : Paging μ)

/-- The body of the loop over the heap pages. -/
def mapHeapPage (page : Page) : ExceptT MapToError (StateT (Machine μ) Option) Unit := do
  match ← perform paging.allocateFrame with
  | none => throw .frameAllocationFailed
  | some frame =>
      match ← perform (paging.map page frame kernelFlags) with
      | .ok _ => return ()
      | .error failure => throw failure

/-- `init_heap`, up to the call that hands the region to the allocator. -/
def initHeap : ExceptT MapToError (StateT (Machine μ) Option) Unit := do
  let heapStart ← perform (panicOr (VirtAddr.new HEAP_START))
  let heapTop ← perform (panicOr (heapStart.add HEAP_SIZE))
  let heapEnd ← perform (panicOr (heapTop.sub 1))
  forM (Page.rangeInclusive (Page.containingAddress heapStart) (Page.containingAddress heapEnd))
    (mapHeapPage paging)

end

/-! ## The heap pages -/

theorem heapStart_canonical : Canonical HEAP_START := by decide

theorem heapTop_canonical : Canonical (HEAP_START + HEAP_SIZE) := by decide

theorem heapEnd_canonical : Canonical (HEAP_START + HEAP_SIZE - 1) := by decide

def heapPages : List Page :=
  Page.rangeInclusive (Page.containingAddress ⟨HEAP_START, heapStart_canonical⟩)
    (Page.containingAddress ⟨HEAP_START + HEAP_SIZE - 1, heapEnd_canonical⟩)

def InHeap (page : Page) : Prop :=
  HEAP_START.toNat ≤ page.startAddress.value.toNat ∧
    page.startAddress.value.toNat < HEAP_START.toNat + HEAP_SIZE.toNat

/-- Where a page of a range starts. -/
theorem start_of_rangeInclusive {first last page : Page} {address : Nat}
    (inRange : address ∈ stepBy first.startAddress.value.toNat
      (last.startAddress.value.toNat + 1) 4096)
    (isPage : (VirtAddr.new (BitVec.ofNat 64 address)).map Page.containingAddress = some page) :
    page.startAddress.value.toNat = address := by
  have firstAligned := first.aligned
  have lastLt := last.startAddress.value.isLt
  obtain ⟨above, below, step⟩ := (mem_stepBy_iff (by decide) ..).mp inRange
  obtain ⟨virt, isNew, rfl⟩ := Option.map_eq_some_iff.mp isPage
  have value : virt.value = BitVec.ofNat 64 address := by
    rw [VirtAddr.new] at isNew
    split at isNew
    case isTrue canonical => rw [← Option.some.inj isNew]
    case isFalse => cases isNew
  simp only [Page.containingAddress]
  rw [alignDown_toNat, value, BitVec.toNat_ofNat, Nat.mod_eq_of_lt (by omega)]
  omega

theorem mem_rangeInclusive_iff (first last page : Page) :
    page ∈ Page.rangeInclusive first last ↔
      first.startAddress.value.toNat ≤ page.startAddress.value.toNat ∧
        page.startAddress.value.toNat ≤ last.startAddress.value.toNat := by
  rw [Page.rangeInclusive, List.mem_filterMap]
  constructor
  · intro listed
    obtain ⟨address, inRange, isPage⟩ := listed
    obtain ⟨above, below, _⟩ := (mem_stepBy_iff (by decide) ..).mp inRange
    rw [start_of_rangeInclusive inRange isPage]
    omega
  · intro bounds
    refine ⟨page.startAddress.value.toNat, (mem_stepBy_iff (by decide) ..).mpr ?_, ?_⟩
    · exact ⟨bounds.1, by omega, Nat.dvd_sub page.aligned first.aligned⟩
    · rw [BitVec.ofNat_toNat, BitVec.setWidth_eq, VirtAddr.new, dif_pos page.startAddress.canonical,
        Option.map_some, containingAddress_start]

theorem rangeInclusive_nodup (first last : Page) : (Page.rangeInclusive first last).Nodup := by
  rw [Page.rangeInclusive, List.Nodup, List.pairwise_filterMap]
  refine (stepBy_nodup (by decide) _ _).imp_of_mem ?_
  intro address other inRange otherInRange different page isPage otherPage isOther same
  apply different
  rw [← start_of_rangeInclusive inRange isPage, same]
  exact start_of_rangeInclusive otherInRange isOther

theorem mem_heapPages_iff (page : Page) : page ∈ heapPages ↔ InHeap page := by
  have aligned := page.aligned
  have first : (alignDown HEAP_START).toNat = 0x444444440000 := by decide
  have last : (alignDown (HEAP_START + HEAP_SIZE - 1)).toNat = 0x444444C3F000 := by decide
  have start : HEAP_START.toNat = 0x444444440000 := rfl
  have size : HEAP_SIZE.toNat = 0x800000 := rfl
  rw [heapPages, mem_rangeInclusive_iff, InHeap, start, size]
  simp only [Page.containingAddress, first, last]
  omega

/-! ## The loop -/

section

variable {μ : Type} {paging : Paging μ} {machine after : Machine μ}

theorem initHeap_eq (paging : Paging μ) : initHeap paging = forM heapPages (mapHeapPage paging) := by
  have start : VirtAddr.new HEAP_START = some ⟨HEAP_START, heapStart_canonical⟩ :=
    dif_pos heapStart_canonical
  have top : VirtAddr.add ⟨HEAP_START, heapStart_canonical⟩ HEAP_SIZE =
      some ⟨HEAP_START + HEAP_SIZE, heapTop_canonical⟩ := by
    rw [VirtAddr.add, checkedAdd_of_lt (by decide), Option.bind_eq_bind, Option.bind_some]
    exact dif_pos heapTop_canonical
  have last : VirtAddr.sub ⟨HEAP_START + HEAP_SIZE, heapTop_canonical⟩ 1 =
      some ⟨HEAP_START + HEAP_SIZE - 1, heapEnd_canonical⟩ := by
    rw [VirtAddr.sub, checkedSub_of_le (by decide), Option.bind_eq_bind, Option.bind_some]
    exact dif_pos heapEnd_canonical
  rw [initHeap, start, perform_panicOr_bind, top, perform_panicOr_bind, last, perform_panicOr_bind,
    heapPages]

/-- All that one turn of the loop can do when it returns. -/
theorem mapHeapPage_returns {page : Page} {result : Except MapToError Unit}
    (returned : (mapHeapPage paging page).run.run machine = some (result, after)) :
    (∃ failure, result = .error failure) ∧ MapStep paging machine .refused after ∨
      result = .ok () ∧ ∃ frame, MapStep paging machine (.granted ⟨page, frame, kernelFlags⟩) after := by
  rw [mapHeapPage, run_perform_bind, paging.run_allocateFrame, Option.bind_some] at returned
  cases answer : paging.frames machine.allocated with
  | none =>
      rw [answer] at returned
      obtain ⟨rfl, rfl⟩ := Prod.mk.inj (Option.some.inj returned)
      exact Or.inl ⟨⟨_, rfl⟩, .exhausted machine⟩
  | some frame =>
      rw [answer] at returned
      simp only [run_perform_bind, paging.run_map, Option.bind_some] at returned
      rcases outcome : paging.mapTo page frame kernelFlags
        { machine with allocated := machine.allocated + 1 } with ⟨failure | _, mapped⟩
      · rw [outcome] at returned
        obtain ⟨rfl, rfl⟩ := Prod.mk.inj (Option.some.inj returned)
        exact Or.inl ⟨⟨failure, rfl⟩, .refused outcome⟩
      · rw [outcome] at returned
        obtain ⟨rfl, rfl⟩ := Prod.mk.inj (Option.some.inj returned)
        exact Or.inr ⟨rfl, frame, .granted ⟨page, frame, kernelFlags⟩ mapped.memory answer outcome
          fun _ _ => rfl⟩

/-- Pages of the heap with the frames they were given. -/
def heapMappings (pages : List Page) (frames : List PhysFrame) : List Mapping :=
  pages.zipWith (fun page frame => ⟨page, frame, kernelFlags⟩) frames

/-- When the loop ends well, every page has been granted. -/
theorem mapHeapPages_returns {pages : List Page}
    (returned : (forM pages (mapHeapPage paging)).run.run machine = some (.ok (), after)) :
    ∃ frames : List PhysFrame, frames.length = pages.length ∧
      Run (MapStep paging) machine ((heapMappings pages frames).map .granted) after := by
  induction pages generalizing machine with
  | nil =>
      obtain ⟨_, rfl⟩ := Prod.mk.inj (Option.some.inj returned)
      exact ⟨[], rfl, Run.nil machine⟩
  | cons page rest inductionHypothesis =>
      rw [List.forM_cons, run_bind, Option.bind_eq_some_iff] at returned
      obtain ⟨⟨first, between⟩, firstRan, restRan⟩ := returned
      rcases mapHeapPage_returns firstRan with ⟨⟨failure, rfl⟩, _⟩ | ⟨rfl, frame, granted⟩
      · cases restRan
      · obtain ⟨frames, length, ran⟩ := inductionHypothesis restRan
        exact ⟨frame :: frames, by rw [List.length_cons, List.length_cons, length],
          Run.cons granted ran⟩

theorem exists_mem_heapMappings {pages : List Page} {frames : List PhysFrame} {page : Page}
    (sameLength : frames.length = pages.length) (member : page ∈ pages) :
    ∃ frame, ⟨page, frame, kernelFlags⟩ ∈ heapMappings pages frames := by
  induction pages generalizing frames with
  | nil => cases member
  | cons first rest inductionHypothesis =>
      cases frames with
      | nil => cases sameLength
      | cons frame later =>
          rcases List.mem_cons.mp member with rfl | inRest
          · exact ⟨frame, List.mem_cons_self⟩
          · obtain ⟨found, listed⟩ := inductionHypothesis (Nat.succ.inj sameLength) inRest
            exact ⟨found, List.mem_cons_of_mem _ listed⟩

end

end AxiomKernel.Memory
