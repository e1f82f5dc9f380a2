import Mathlib
import AxiomKernel.Lib.Bytes
import AxiomKernel.Lib.TwoRun
import AxiomKernel.Memory.FrameAllocator
import AxiomKernel.Memory.Paging
import AxiomKernel.User.ElfLoader
import AxiomKernel.User.Setup
import AxiomKernel.User.ElfFormat
import AxiomKernel.User.LoadPlan
import AxiomKernel.User.FilePages
import AxiomKernel.User.KernelHalf
import AxiomKernel.User.LoadedImage

/-!
# Malformed files

Two things the loader does not do.  When it fails it does not unmap what it mapped
before; `load_keeps_mappings_iff` says for which files that shows.  And it adds
header fields before it checks them; `load_never_panics_iff` says which files it
survives, header by header.
-/

set_option autoImplicit false

namespace AxiomKernel.User

open ByteStrings TwoRuns Memory

/-! ## What a failed load leaves mapped -/

section

variable {μ : Type} (paging : Paging μ) (physOffset : VirtAddr) (bytes : List U8)

/-- A failed load leaves the mappings as they were. -/
def KeepsMappingsOnError (machine : Machine μ) : Prop :=
  ∀ failure after, (load paging physOffset bytes).run.run machine = some (.error failure, after) →
    paging.mappings after.mapper = paging.mappings machine.mapper

/-- The allocator has a frame for the page and `map_to` maps it; the frame then holds the bytes
of the image, and nothing else is written. -/
def GrantsPage (before after : Machine μ) (asked : ProgramHeader × Nat) : Prop :=
  PageLoadable asked ∧ ∃ frame page mapped, paging.frames before.allocated = some frame ∧
    page.startAddress.value.toNat = asked.2 ∧
    paging.mapTo page frame asked.1.pageFlags
      { before with allocated := before.allocated + 1 } = (.ok (), mapped) ∧
    (physOffset.add (BitVec.ofNat 64 frame.startAddress.value)).isSome ∧
    after.mapper = mapped.mapper ∧ after.allocated = mapped.allocated ∧
    (∀ k < 4096, asked.1.imageByte bytes (asked.2 + k) =
      some (after.memory (frame.startAddress.value + k))) ∧
    ∀ address, ¬ frame.Contains address → after.memory address = mapped.memory address

/-- The pages are granted one after the other. -/
def GrantsPages : List (ProgramHeader × Nat) → Machine μ → Machine μ → Prop
  | [], before, after => after = before
  | asked :: rest, before, after =>
      ∃ between, GrantsPage paging physOffset bytes before between asked ∧
        GrantsPages rest between after

/-- The allocator has no frame for the page, or `map_to` does not map it. -/
def RefusesPage (before : Machine μ) (asked : ProgramHeader × Nat) : Prop :=
  paging.frames before.allocated = none ∨
    ∃ frame page failure, paging.frames before.allocated = some frame ∧
      page.startAddress.value.toNat = asked.2 ∧
      (paging.mapTo page frame asked.1.pageFlags
        { before with allocated := before.allocated + 1 }).1 = .error failure

/-- At least one of the pages the file asks for is granted, and then the next one is refused, or
there is no other and the program header that ends the reading is refused. -/
def FailsAfterMapping (machine : Machine μ) : Prop :=
  IsExecutable bytes ∧ ∃ stop, ReadsUpTo bytes stop ∧
    ∃ granted rest between, askedPages bytes stop = granted ++ rest ∧ granted ≠ [] ∧
      GrantsPages paging physOffset bytes granted machine between ∧
      ((∃ next later, rest = next :: later ∧ RefusesPage paging between next) ∨
        (rest = [] ∧ stop < headerCount bytes ∧ HeaderSafe bytes stop))

end

section

variable {μ : Type} {paging : Paging μ} {physOffset : VirtAddr} {bytes : List U8} {stop : Nat}

theorem page_eq_some_iff (reads : ReadsUpTo bytes stop) {asked : ProgramHeader × Nat}
    (member : asked ∈ askedPages bytes stop) (page : Page) :
    (askedRequest bytes asked).page = some page ↔ page.startAddress.value.toNat = asked.2 := by
  constructor
  · exact reads.page_start member
  · intro start
    have pageLt := reads.page_lt member
    have value : BitVec.ofNat 64 asked.2 = page.startAddress.value := by
      rw [← start, BitVec.ofNat_toNat, BitVec.setWidth_eq]
    rw [askedRequest, Request.page, value, VirtAddr.new, dif_pos page.startAddress.canonical,
      Option.map_some, containingAddress_start]

/-- A turn of the page loop that ends well is a page granted. -/
theorem loadRequest_ok_iff (reads : ReadsUpTo bytes stop) {asked : ProgramHeader × Nat}
    (member : asked ∈ askedPages bytes stop) (before after : Machine μ) :
    (loadRequest paging physOffset (askedRequest bytes asked)).run.run before =
        some (.ok (), after) ↔
      GrantsPage paging physOffset bytes before after asked := by
  obtain ⟨fits, covered, aligned⟩ := reads.fits_of_mem member
  have pageFits := reads.page_lt member
  have image : ∀ {dstOff contents},
      pageContents (askedRequest bytes asked).segment (askedRequest bytes asked).vpage =
        some (dstOff, contents) → ∀ k < 4096, asked.1.imageByte bytes (asked.2 + k) =
          some (ByteMemory.writeBytes (fun _ => 0) dstOff contents k) :=
    fun parsed k inPage =>
      imageByte_pageContents fits.vaddrLt fits.fileszLt fits.inFile pageFits parsed inPage
  rw [loadRequest_returns_iff, GrantsPage]
  constructor
  · rintro (⟨-, impossible, -⟩ | ⟨frame, page, answer, requested, ⟨_, impossible, -⟩ |
      ⟨mapped, kv, dstOff, contents, -, added, seen, parsed, rfl⟩⟩)
    · cases impossible
    · cases impossible
    · have loadable : (askedRequest bytes asked).Loadable :=
        ⟨by rw [requested]; rfl, by rw [parsed]; rfl⟩
      refine ⟨(reads.loadable_iff member).mp loadable, frame, page, mapped, answer,
        (page_eq_some_iff reads member page).mp requested, added, by rw [seen]; rfl, rfl, rfl, ?_, ?_⟩
      · intro k inPage
        rw [image parsed k inPage, Machine.filled_inside mapped inPage]
      · intro address outside
        exact Machine.filled_outside mapped (pageContents_length parsed) outside
  · intro ⟨loadable, frame, page, mapped, answer, start, added, seen, mapper, calls, inside,
      outside⟩
    obtain ⟨kv, isSeen⟩ := Option.isSome_iff_exists.mp seen
    obtain ⟨⟨dstOff, contents⟩, parsed⟩ := Option.isSome_iff_exists.mp
      ((reads.loadable_iff member).mpr loadable).2
    refine Or.inr ⟨frame, page, answer, (page_eq_some_iff reads member page).mpr start,
      Or.inr ⟨mapped, kv, dstOff, contents, rfl, added, isSeen, parsed, ?_⟩⟩
    -- the frame's bytes are those of the image in both machines, the others as mapped
    obtain ⟨afterMapper, afterAllocated, afterMemory⟩ := after
    obtain rfl : afterMapper = mapped.mapper := mapper
    obtain rfl : afterAllocated = mapped.allocated := calls
    have memory : afterMemory = (Machine.filled mapped frame dstOff contents).memory := by
      funext address
      by_cases inFrame : frame.Contains address
      · obtain ⟨k, rfl⟩ : ∃ k, address = frame.startAddress.value + k :=
          ⟨_, (Nat.add_sub_of_le inFrame.1).symm⟩
        have inPage : k < 4096 := Nat.lt_of_add_lt_add_left inFrame.2
        rw [Machine.filled_inside mapped inPage]
        exact Option.some.inj ((inside k inPage).symm.trans (image parsed k inPage))
      · rw [Machine.filled_outside mapped (pageContents_length parsed) inFrame]
        exact outside address inFrame
    rw [memory]
    rfl

theorem loadRequest_refused_iff (reads : ReadsUpTo bytes stop) {asked : ProgramHeader × Nat}
    (member : asked ∈ askedPages bytes stop) (before : Machine μ) :
    (∃ failure after, (loadRequest paging physOffset (askedRequest bytes asked)).run.run before =
        some (.error failure, after)) ↔
      RefusesPage paging before asked := by
  constructor
  · intro ⟨failure, after, returned⟩
    rcases (loadRequest_returns_iff ..).mp returned with
      ⟨answer, -⟩ | ⟨frame, page, answer, requested, ⟨refusal, -, refused⟩ |
        ⟨_, _, _, _, impossible, -⟩⟩
    · exact Or.inl answer
    · exact Or.inr ⟨frame, page, refusal, answer, (page_eq_some_iff reads member page).mp requested,
        congrArg Prod.fst refused⟩
    · cases impossible
  · rintro (answer | ⟨frame, page, refusal, answer, start, refused⟩)
    · exact ⟨_, _, (loadRequest_returns_iff ..).mpr (Or.inl ⟨answer, rfl, rfl⟩)⟩
    · exact ⟨_, _, (loadRequest_returns_iff ..).mpr (Or.inr ⟨frame, page, answer,
        (page_eq_some_iff reads member page).mpr start, Or.inl ⟨refusal, rfl, Prod.ext refused rfl⟩⟩)⟩

theorem loadRequest_error_mappings (exactly : paging.MapsExactly) {request : Request}
    {before after : Machine μ} {failure : ElfError}
    (returned : (loadRequest paging physOffset request).run.run before =
      some (.error failure, after)) :
    paging.mappings after.mapper = paging.mappings before.mapper := by
  rcases (loadRequest_returns_iff ..).mp returned with
    ⟨-, -, rfl⟩ | ⟨frame, page, -, -, ⟨refusal, -, refused⟩ | ⟨_, _, _, _, impossible, -⟩⟩
  · rfl
  · have unchanged := exactly.refused refused
    exact unchanged
  · cases impossible

theorem loadRequests_ok_iff (reads : ReadsUpTo bytes stop) {pages : List (ProgramHeader × Nat)}
    (asked : pages ⊆ askedPages bytes stop) (before after : Machine μ) :
    (forM (pages.map (askedRequest bytes)) (loadRequest paging physOffset)).run.run before =
        some (.ok (), after) ↔
      GrantsPages paging physOffset bytes pages before after := by
  induction pages generalizing before with
  | nil =>
      rw [GrantsPages]
      constructor
      · intro returned
        exact (Prod.mk.inj (Option.some.inj returned)).2.symm
      · intro same
        rw [same]
        rfl
  | cons page rest inductionHypothesis =>
      rw [List.cons_subset] at asked
      rw [List.map_cons, List.forM_cons, run_bind, Option.bind_eq_some_iff, GrantsPages]
      constructor
      · intro ⟨⟨result, between⟩, firstRan, restRan⟩
        rcases result with failure | _
        · cases restRan
        · exact ⟨between, (loadRequest_ok_iff reads asked.1 before between).mp firstRan,
            (inductionHypothesis asked.2 between).mp restRan⟩
      · intro ⟨between, granted, restGranted⟩
        exact ⟨(.ok (), between), (loadRequest_ok_iff reads asked.1 before between).mpr granted,
          (inductionHypothesis asked.2 between).mpr restGranted⟩

/-- When the loop over the pages fails, the pages before some page were granted and the turn of
that page failed. -/
theorem loadRequests_error_iff (reads : ReadsUpTo bytes stop) {pages : List (ProgramHeader × Nat)}
    (asked : pages ⊆ askedPages bytes stop) (before after : Machine μ) (failure : ElfError) :
    (forM (pages.map (askedRequest bytes)) (loadRequest paging physOffset)).run.run before =
        some (.error failure, after) ↔
      ∃ granted next later between, pages = granted ++ next :: later ∧
        GrantsPages paging physOffset bytes granted before between ∧
        (loadRequest paging physOffset (askedRequest bytes next)).run.run between =
          some (.error failure, after) := by
  induction pages generalizing before with
  | nil =>
      constructor
      · intro returned
        cases returned
      · intro ⟨granted, next, later, between, impossible, _⟩
        cases (List.append_eq_nil_iff.mp impossible.symm).2
  | cons page rest inductionHypothesis =>
      rw [List.cons_subset] at asked
      rw [List.map_cons, List.forM_cons, run_bind, Option.bind_eq_some_iff]
      constructor
      · intro ⟨⟨result, between⟩, firstRan, restRan⟩
        rcases result with stopped | _
        · obtain ⟨same, rfl⟩ := Prod.mk.inj (Option.some.inj restRan)
          obtain rfl := Except.error.inj same
          exact ⟨[], page, rest, before, rfl, rfl, firstRan⟩
        · obtain ⟨granted, next, behind, middle, rfl, restGranted, failed⟩ :=
            (inductionHypothesis asked.2 between).mp restRan
          have firstGranted := (loadRequest_ok_iff reads asked.1 before between).mp firstRan
          exact ⟨page :: granted, next, behind, middle, rfl,
            ⟨between, firstGranted, restGranted⟩, failed⟩
      · intro ⟨granted, next, behind, middle, split, grants, failed⟩
        cases granted with
        | nil =>
            obtain ⟨rfl, -⟩ := List.cons.inj split
            obtain rfl : middle = before := grants
            exact ⟨_, failed, rfl⟩
        | cons earlier granted =>
            obtain ⟨rfl, restSplit⟩ := List.cons.inj split
            obtain ⟨between, firstGranted, restGranted⟩ := grants
            refine ⟨(.ok (), between),
              (loadRequest_ok_iff reads asked.1 before between).mpr firstGranted, ?_⟩
            exact (inductionHypothesis asked.2 between).mpr
              ⟨granted, next, behind, middle, restSplit, restGranted, failed⟩

/-- The two ways in which the load of an executable fails. -/
theorem load_error_iff (executable : IsExecutable bytes) (reads : ReadsUpTo bytes stop)
    (machine after : Machine μ) (failure : ElfError) :
    (load paging physOffset bytes).run.run machine = some (.error failure, after) ↔
      (∃ granted next later between, askedPages bytes stop = granted ++ next :: later ∧
        GrantsPages paging physOffset bytes granted machine between ∧
        (loadRequest paging physOffset (askedRequest bytes next)).run.run between =
          some (.error failure, after)) ∨
      (GrantsPages paging physOffset bytes (askedPages bytes stop) machine after ∧
        (plan bytes (fileHeader bytes)).2 = some (.error failure)) := by
  have parsed := (elfHeader_ok_iff bytes).mpr executable
  rw [load_returns_iff, ← loadRequests_error_iff reads (List.Subset.refl _),
    ← loadRequests_ok_iff reads (List.Subset.refl _), ← reads.plan_pages]
  constructor
  · rintro (⟨_, refused, -⟩ | ⟨header, accepted, ⟨stopped, ran, same⟩ |
      ⟨ran, ending, planned, same⟩⟩)
    · cases parsed.symm.trans refused
    · obtain rfl := eq_fileHeader accepted
      obtain rfl := Except.error.inj same
      exact Or.inl ran
    · obtain rfl := eq_fileHeader accepted
      rcases ending with stopped | _
      · obtain rfl := Except.error.inj same
        exact Or.inr ⟨ran, planned⟩
      · cases same
  · rintro (ran | ⟨ran, planned⟩)
    · exact Or.inr ⟨_, parsed, Or.inl ⟨_, ran, rfl⟩⟩
    · exact Or.inr ⟨_, parsed, Or.inr ⟨ran, _, planned, rfl⟩⟩

/-! ### The mappings of granted pages -/

theorem GrantsPage.mappings (exactly : paging.MapsExactly) {before after : Machine μ}
    {asked : ProgramHeader × Nat} (granted : GrantsPage paging physOffset bytes before after asked) :
    ∃ page entry, paging.mappings before.mapper page = none ∧
      paging.mappings after.mapper =
        Function.update (paging.mappings before.mapper) page (some entry) := by
  obtain ⟨-, frame, page, mapped, -, -, added, -, mapper, -⟩ := granted
  obtain ⟨unmapped, mappings⟩ := exactly.added added
  rw [← mapper] at mappings
  exact ⟨page, _, unmapped, mappings⟩

theorem GrantsPages.keeps (exactly : paging.MapsExactly) {pages : List (ProgramHeader × Nat)}
    {before after : Machine μ} (granted : GrantsPages paging physOffset bytes pages before after)
    {page : Page} (mapped : paging.mappings before.mapper page ≠ none) :
    paging.mappings after.mapper page ≠ none := by
  induction pages generalizing before with
  | nil =>
      obtain rfl : after = before := granted
      exact mapped
  | cons asked rest inductionHypothesis =>
      obtain ⟨between, first, later⟩ := granted
      obtain ⟨newPage, entry, unmapped, mappings⟩ := first.mappings exactly
      apply inductionHypothesis later
      have other : page ≠ newPage := by
        intro same
        rw [same] at mapped
        exact mapped unmapped
      rw [mappings, Function.update_of_ne other]
      exact mapped

/-- Nothing unmaps the first page that was granted. -/
theorem GrantsPages.changes (exactly : paging.MapsExactly) {pages : List (ProgramHeader × Nat)}
    (nonempty : pages ≠ []) {before after : Machine μ}
    (granted : GrantsPages paging physOffset bytes pages before after) :
    paging.mappings after.mapper ≠ paging.mappings before.mapper := by
  cases pages with
  | nil => exact absurd rfl nonempty
  | cons asked rest =>
      obtain ⟨between, first, later⟩ := granted
      obtain ⟨page, entry, unmapped, mappings⟩ := first.mappings exactly
      have mapped : paging.mappings between.mapper page ≠ none := by
        rw [mappings, Function.update_self]
        exact Option.some_ne_none entry
      intro same
      apply later.keeps exactly mapped
      rw [same]
      exact unmapped

end

/-- A file that announces two program headers and ends behind the first segment,
which lies at `USER_CODE_VIRT`. -/
def truncatedElf : List U8 := (oneSegmentElf USER_CODE_VIRT [0xEB, 0xFE]).set 56 2

def userCodePage : Page := ⟨⟨USER_CODE_VIRT, by decide⟩, by decide⟩

theorem run_truncated :
    ((load (flatPaging conventionalMemory.frame) lowWindow truncatedElf).run.run
        unmappedMachine).map
          (fun outcome => (outcome.1.toOption, (outcome.2.mapper userCodePage).isSome)) =
      some (none, true) := by
  decide +kernel

/-- The load fails, and the first segment stays mapped. -/
theorem truncated_stays_mapped :
    ∃ failure after, (load (flatPaging conventionalMemory.frame) lowWindow truncatedElf).run.run
        unmappedMachine = some (.error failure, after) ∧
      after.mapper ≠ unmappedMachine.mapper := by
  obtain ⟨⟨result, after⟩, returned, outcome⟩ := Option.map_eq_some_iff.mp run_truncated
  obtain ⟨failed, stillMapped⟩ := Prod.mk.inj outcome
  rcases result with failure | entry
  · refine ⟨failure, after, returned, ?_⟩
    intro unchanged
    rw [unchanged] at stillMapped
    cases stillMapped
  · cases failed

/-- On any machine, a load that fails leaves the mappings as they were unless it fails after a
page was mapped. -/
theorem load_keeps_mappings_iff {μ : Type} (paging : Paging μ) (exactly : paging.MapsExactly)
    (physOffset : VirtAddr) (bytes : List U8) (machine : Machine μ) :
    KeepsMappingsOnError paging physOffset bytes machine ↔
      ¬ FailsAfterMapping paging physOffset bytes machine := by
  constructor
  · intro keeps ⟨executable, stop, reads, granted, rest, between, split, nonempty, grants, ending⟩
    apply grants.changes exactly nonempty
    rcases ending with ⟨next, later, rfl, refuses⟩ | ⟨rfl, inTable, safe⟩
    · have member : next ∈ askedPages bytes stop := by
        rw [split]
        exact List.mem_append_right granted List.mem_cons_self
      obtain ⟨failure, after, failed⟩ := (loadRequest_refused_iff reads member between).mpr refuses
      have returned := (load_error_iff executable reads machine after failure).mpr
        (Or.inl ⟨granted, next, later, between, split, grants, failed⟩)
      rw [← loadRequest_error_mappings exactly failed]
      exact keeps failure after returned
    · rw [List.append_nil] at split
      rw [← split] at grants
      obtain ⟨failure, planned⟩ := reads.plan_error_iff.mpr ⟨inTable, safe⟩
      exact keeps failure between
        ((load_error_iff executable reads machine between failure).mpr (Or.inr ⟨grants, planned⟩))
  · intro staysWhole failure after returned
    rcases elfHeader_cases bytes with ⟨refusal, refused⟩ | parsed
    · rcases (load_returns_iff ..).mp returned with ⟨_, -, -, rfl⟩ | ⟨header, accepted, -⟩
      · rfl
      · cases refused.symm.trans accepted
    · have executable := (elfHeader_ok_iff bytes).mp parsed
      obtain ⟨stop, reads, -⟩ := exists_readsUpTo bytes
      rcases (load_error_iff executable reads machine after failure).mp returned with
        ⟨granted, next, later, between, split, grants, failed⟩ | ⟨grants, planned⟩
      · have member : next ∈ askedPages bytes stop := by
          rw [split]
          exact List.mem_append_right granted List.mem_cons_self
        by_cases nonempty : granted = []
        · subst nonempty
          obtain rfl : between = machine := grants
          exact loadRequest_error_mappings exactly failed
        · have refuses := (loadRequest_refused_iff reads member between).mp ⟨failure, after, failed⟩
          exact absurd ⟨executable, stop, reads, granted, _, between, split, nonempty, grants,
            Or.inl ⟨next, later, rfl, refuses⟩⟩ staysWhole
      · by_cases nonempty : askedPages bytes stop = []
        · rw [nonempty] at grants
          obtain rfl : after = machine := grants
          rfl
        · have ending := reads.plan_error_iff.mp ⟨failure, planned⟩
          exact absurd ⟨executable, stop, reads, askedPages bytes stop, [], after,
            (List.append_nil _).symm, nonempty, grants, Or.inr ⟨rfl, ending⟩⟩ staysWhole

/-- The file that fits into the free frames does not fail, the truncated one fails late. -/
theorem load_keeps_mappings_iff_conventional :
    ¬ FailsAfterMapping (flatPaging conventionalMemory.frame) lowWindow
        (oneSegmentElf 0x400000000FFE [0xEB, 0xFE, 0x90, 0x90]) unmappedMachine ∧
      FailsAfterMapping (flatPaging conventionalMemory.frame) lowWindow truncatedElf
        unmappedMachine := by
  have exactly := (flatPaging_sound conventionalMemory.frame_injective).toMapsExactly
  constructor
  · apply (load_keeps_mappings_iff _ exactly _ _ _).mp
    intro failure after returned
    have succeeds := load_returns_across_pages
    rw [returned] at succeeds
    cases succeeds
  · by_contra neverLate
    obtain ⟨failure, after, returned, changed⟩ := truncated_stays_mapped
    exact changed ((load_keeps_mappings_iff _ exactly _ _ _).mpr neverLate failure after returned)

/-- The first segment stays mapped, and the fallback of `setup` then panics on it. -/
theorem setup_panics_on_truncated :
    ¬ KeepsMappingsOnError (flatPaging conventionalMemory.frame) lowWindow truncatedElf
        unmappedMachine ∧
      ((setup (flatPaging conventionalMemory.frame) lowWindow truncatedElf).run
        unmappedMachine).isNone = true := by
  constructor
  · intro keeps
    obtain ⟨failure, after, returned, changed⟩ := truncated_stays_mapped
    exact changed (keeps failure after returned)
  · decide +kernel

/-! ## Files the loader survives -/

/-- Every frame of the allocator can be seen in the window. -/
def FramesInWindow {μ : Type} (paging : Paging μ) (physOffset : VirtAddr) : Prop :=
  ∀ i frame, paging.frames i = some frame →
    (physOffset.add (BitVec.ofNat 64 frame.startAddress.value)).isSome

/-- Whatever the mapper and the allocator answer, `load` returns. -/
def NeverPanics (bytes : List U8) : Prop :=
  ∀ (μ : Type) (paging : Paging μ) (physOffset : VirtAddr), FramesInWindow paging physOffset →
    ∀ machine, ((load paging physOffset bytes).run.run machine).isSome

/-! ### From headers to requests -/

/-- The requests of these program headers can be loaded, and reading them does not panic. -/
def PlanSafe (bytes : List U8) (indices : List Nat) : Prop :=
  (∀ request ∈ (planFrom bytes (fileHeader bytes) indices).1, request.Loadable) ∧
    (planFrom bytes (fileHeader bytes) indices).2.isSome

theorem addressable_iff {bytes : List U8} {header : ProgramHeader} (fits : header.Fits bytes) :
    header.Addressable ↔ ∀ request ∈ (header.segment bytes).requests, request.Loadable := by
  rw [ProgramHeader.Addressable, and_iff_right fits.pagesFit]
  constructor
  · intro pages request member
    obtain ⟨vpage, covered, aligned, rfl⟩ := (fits.mem_requests_iff request).mp member
    exact (fits.loadable_iff (fits.covers_lt covered aligned)).mpr (pages vpage covered aligned)
  · intro loadable vpage covered aligned
    exact (fits.loadable_iff (fits.covers_lt covered aligned)).mp
      (loadable _ ((fits.mem_requests_iff _).mpr ⟨vpage, covered, aligned, rfl⟩))

theorem planSafe_cons {bytes : List U8} {i : Nat} (listed : i < headerCount bytes)
    (rest : List Nat) :
    PlanSafe bytes (i :: rest) ↔
      HeaderSafe bytes i ∧ (¬ HeaderRefused bytes i → PlanSafe bytes rest) := by
  rw [PlanSafe, planFrom]
  rcases programHeader_cases listed with ⟨read, -, panics⟩ | ⟨⟨failure, read⟩, -, safe, refused⟩ |
    ⟨read, -, -, safe, accepted⟩ | ⟨read, -, -, fits, safeIff, accepted⟩
  · rw [read]
    simp [panics]
  · rw [read]
    simp [safe, refused]
  · rw [read, and_iff_right safe, imp_iff_right accepted]
    rfl
  · rw [read, imp_iff_right accepted, safeIff, addressable_iff fits, PlanSafe, ← and_assoc]
    simp only [List.forall_mem_append]

/-- The headers from `first` on: each one is safe unless one before it is refused. -/
theorem planSafe_range' (bytes : List U8) (count first : Nat)
    (listed : first + count ≤ headerCount bytes) :
    PlanSafe bytes (List.range' first count) ↔ ∀ i, first ≤ i → i < first + count →
      (∀ j, first ≤ j → j < i → ¬ HeaderRefused bytes j) → HeaderSafe bytes i := by
  induction count generalizing first with
  | zero =>
      refine ⟨fun _ i above below => by omega, fun _ => ⟨by simp [planFrom], rfl⟩⟩
  | succ count inductionHypothesis =>
      rw [List.range'_succ, planSafe_cons (by omega), inductionHypothesis (first + 1) (by omega)]
      constructor
      · intro both i above below accepted
        obtain ⟨safe, later⟩ := both
        rcases Nat.eq_or_lt_of_le above with rfl | afterFirst
        · exact safe
        · refine later (accepted first (le_refl _) afterFirst) i afterFirst (by omega) ?_
          intro j afterwards before
          exact accepted j (by omega) before
      · intro safe
        refine ⟨safe first (le_refl _) (by omega) (fun j above below => by omega), ?_⟩
        intro accepted i above below restAccepted
        refine safe i (by omega) (by omega) ?_
        intro j fromFirst before
        rcases Nat.eq_or_lt_of_le fromFirst with rfl | afterFirst
        · exact accepted
        · exact restAccepted j afterFirst before

/-! ### From requests to runs -/

theorem loadRequest_isSome {μ : Type} {paging : Paging μ} {physOffset : VirtAddr}
    (inWindow : FramesInWindow paging physOffset) {request : Request} (loadable : request.Loadable)
    (machine : Machine μ) :
    ((loadRequest paging physOffset request).run.run machine).isSome := by
  rw [Option.isSome_iff_exists]
  obtain ⟨page, requested⟩ := Option.isSome_iff_exists.mp loadable.1
  obtain ⟨⟨dstOff, contents⟩, parsed⟩ := Option.isSome_iff_exists.mp loadable.2
  cases answer : paging.frames machine.allocated with
  | none => exact ⟨_, (loadRequest_returns_iff ..).mpr (Or.inl ⟨answer, rfl, rfl⟩)⟩
  | some frame =>
      obtain ⟨kv, seen⟩ := Option.isSome_iff_exists.mp (inWindow _ frame answer)
      rcases outcome : paging.mapTo page frame request.segment.flags
        { machine with allocated := machine.allocated + 1 } with ⟨failure | _, mapped⟩
      · exact ⟨_, (loadRequest_returns_iff ..).mpr (Or.inr ⟨frame, page, answer, requested,
          Or.inl ⟨failure, rfl, outcome⟩⟩)⟩
      · exact ⟨_, (loadRequest_returns_iff ..).mpr (Or.inr ⟨frame, page, answer, requested,
          Or.inr ⟨mapped, kv, dstOff, contents, rfl, outcome, seen, parsed, rfl⟩⟩)⟩

theorem loadRequests_isSome {μ : Type} {paging : Paging μ} {physOffset : VirtAddr}
    (inWindow : FramesInWindow paging physOffset) {requests : List Request}
    (loadable : ∀ request ∈ requests, request.Loadable) (machine : Machine μ) :
    ((forM requests (loadRequest paging physOffset)).run.run machine).isSome := by
  induction requests generalizing machine with
  | nil => rfl
  | cons request rest inductionHypothesis =>
      obtain ⟨⟨result, between⟩, ran⟩ := Option.isSome_iff_exists.mp
        (loadRequest_isSome inWindow (loadable request List.mem_cons_self) machine)
      rw [List.forM_cons, run_bind, ran, Option.bind_some]
      rcases result with failure | _
      · rfl
      · exact inductionHypothesis
          (fun later member => loadable later (List.mem_cons_of_mem request member)) between

/-- The mapper that grants everything, with an allocator that always has a frame. -/
def grantingPaging : Paging Unit where
  frames := fun _ => some ⟨⟨0, by decide⟩, by decide⟩
  mapTo := fun _ _ _ machine => (.ok (), machine)
  mappings := fun _ _ => none
  tables := fun _ => ∅

theorem grantingPaging_inWindow : FramesInWindow grantingPaging lowWindow := by
  intro i frame answer
  obtain rfl := Option.some.inj answer
  rfl

/-- A run that nothing stops shows that every page could be loaded. -/
theorem loadable_of_granted {requests : List Request} {machine after : Machine Unit}
    {result : Except ElfError Unit}
    (returned : (forM requests (loadRequest grantingPaging lowWindow)).run.run machine =
      some (result, after)) :
    result = .ok () ∧ ∀ request ∈ requests, request.Loadable := by
  induction requests generalizing machine with
  | nil =>
      obtain ⟨rfl, -⟩ := Prod.mk.inj (Option.some.inj returned)
      exact ⟨rfl, by simp⟩
  | cons request rest inductionHypothesis =>
      rw [List.forM_cons, run_bind, Option.bind_eq_some_iff] at returned
      obtain ⟨⟨first, between⟩, firstRan, restRan⟩ := returned
      rcases (loadRequest_returns_iff ..).mp firstRan with
        ⟨impossible, -⟩ | ⟨frame, page, -, requested, ⟨failure, -, impossible⟩ |
          ⟨mapped, kv, dstOff, contents, rfl, -, -, parsed, rfl⟩⟩
      · cases impossible
      · cases impossible
      · obtain ⟨succeeded, loadable⟩ := inductionHypothesis restRan
        refine ⟨succeeded, ?_⟩
        intro other member
        rcases List.mem_cons.mp member with rfl | later
        · exact ⟨by rw [requested]; rfl, by rw [parsed]; rfl⟩
        · exact loadable other later

theorem neverPanics_iff_planSafe {bytes : List U8}
    (parsed : elfHeader bytes = some (.ok (fileHeader bytes))) :
    NeverPanics bytes ↔ PlanSafe bytes (List.range (headerCount bytes)) := by
  constructor
  · intro neverPanics
    obtain ⟨⟨result, after⟩, returned⟩ := Option.isSome_iff_exists.mp
      (neverPanics Unit grantingPaging lowWindow grantingPaging_inWindow ⟨(), 0, fun _ => 0⟩)
    rcases (load_returns_iff ..).mp returned with
      ⟨failure, refused, -⟩ | ⟨header, accepted, ⟨failure, ran, -⟩ | ⟨ran, ending, planned, -⟩⟩
    · cases parsed.symm.trans refused
    · cases (loadable_of_granted ran).1
    · obtain rfl := eq_fileHeader accepted
      exact ⟨(loadable_of_granted ran).2, Option.isSome_iff_exists.mpr ⟨ending, planned⟩⟩
  · intro ⟨loadable, readable⟩ μ paging physOffset inWindow machine
    obtain ⟨ending, planned⟩ := Option.isSome_iff_exists.mp readable
    obtain ⟨⟨result, after⟩, ran⟩ := Option.isSome_iff_exists.mp
      (loadRequests_isSome inWindow loadable machine)
    rw [Option.isSome_iff_exists]
    rcases result with failure | _
    · exact ⟨_, (load_returns_iff ..).mpr (Or.inr ⟨_, parsed, Or.inl ⟨failure, ran, rfl⟩⟩)⟩
    · exact ⟨_, (load_returns_iff ..).mpr (Or.inr ⟨_, parsed,
        Or.inr ⟨ran, ending, planned, rfl⟩⟩)⟩

/-- The loader survives exactly the files whose file header it refuses, and those
whose program headers are safe up to the first refused one. -/
theorem load_never_panics_iff (bytes : List U8) :
    NeverPanics bytes ↔ (∃ failure, elfHeader bytes = some (.error failure)) ∨
      ∀ i < headerCount bytes, (∀ j < i, ¬ HeaderRefused bytes j) → HeaderSafe bytes i := by
  rcases elfHeader_cases bytes with ⟨failure, refused⟩ | parsed
  · refine iff_of_true ?_ (Or.inl ⟨failure, refused⟩)
    intro μ paging physOffset _ machine
    exact Option.isSome_iff_exists.mpr
      ⟨_, (load_returns_iff ..).mpr (Or.inl ⟨failure, refused, rfl, rfl⟩)⟩
  · have accepted : ¬ ∃ failure, elfHeader bytes = some (.error failure) := by
      rintro ⟨failure, refused⟩
      cases parsed.symm.trans refused
    rw [neverPanics_iff_planSafe parsed, List.range_eq_range',
      planSafe_range' bytes _ 0 (by rw [Nat.zero_add]), or_iff_right accepted]
    simp only [Nat.zero_le, forall_const, Nat.zero_add]

/-- `patch` written over the file from `offset` on. -/
def patched (bytes : List U8) (offset : Nat) (patch : List U8) : List U8 :=
  bytes.take offset ++ patch ++ bytes.drop (offset + patch.length)

theorem not_neverPanics {bytes : List U8}
    (panicked : ((load grantingPaging lowWindow bytes).run.run ⟨(), 0, fun _ => 0⟩).isNone = true) :
    ¬ NeverPanics bytes := by
  intro neverPanics
  have returned := neverPanics Unit grantingPaging lowWindow grantingPaging_inWindow
    ⟨(), 0, fun _ => 0⟩
  rw [Option.isNone_iff_eq_none] at panicked
  rw [panicked] at returned
  cases returned

/-- `e_phoff` of all ones overflows; with `e_phentsize` zero a table at the end of the
file is read out of range; and an address between the halves is not canonical. -/
theorem load_panics_on_malformed :
    ¬ NeverPanics (patched (oneSegmentElf USER_CODE_VIRT [0xEB, 0xFE]) 32 (List.replicate 8 0xFF)) ∧
      ¬ NeverPanics (patched (patched (oneSegmentElf USER_CODE_VIRT [0xEB, 0xFE]) 32
        [122, 0, 0, 0, 0, 0, 0, 0]) 54 [0, 0]) ∧
      ¬ NeverPanics (oneSegmentElf 0x800000000000 [0xEB, 0xFE]) := by
  refine ⟨not_neverPanics ?_, not_neverPanics ?_, not_neverPanics ?_⟩ <;> decide +kernel

end AxiomKernel.User
