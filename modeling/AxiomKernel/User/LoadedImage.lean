import Mathlib
import AxiomKernel.Lib.Bytes
import AxiomKernel.Lib.SteppedRange
import AxiomKernel.Lib.ByteMemory
import AxiomKernel.Lib.TwoRun
import AxiomKernel.Memory.FrameAllocator
import AxiomKernel.Memory.Paging
import AxiomKernel.User.ElfLoader
import AxiomKernel.User.ElfFormat
import AxiomKernel.User.LoadPlan
import AxiomKernel.User.FilePages
import AxiomKernel.User.KernelHalf

/-!
# The image of a loaded file

What memory holds after `load` returned `Ok`.  `Fills` adds to `LoadsGrants` what
the granted frames hold and that nothing else was written; it is proved for one
request and carried through the run.  `ImageLoaded` says the result in the terms
of the file format.
-/

set_option autoImplicit false

namespace AxiomKernel.User

open ByteStrings SteppedRanges TwoRuns Memory ByteMemory

/-! ## The requests of a file whose headers are all read -/

/-- When the headers are read to the end, the requests are those of the `PT_LOAD`
headers in turn. -/
theorem plan_complete {bytes : List U8} (read : (plan bytes (fileHeader bytes)).2 = some (.ok ())) :
    (plan bytes (fileHeader bytes)).1 =
        (loadHeaders bytes).flatMap (fun header => (header.segment bytes).requests) ∧
      ∀ header ∈ loadHeaders bytes, header.Fits bytes := by
  obtain ⟨stop, reads, pages, ending⟩ := exists_readsUpTo bytes
  obtain rfl : stop = headerCount bytes := by
    rcases ending with ⟨atEnd, -⟩ | ⟨-, -, failure, refused⟩ | ⟨-, -, panics⟩
    · exact atEnd
    · cases read.symm.trans refused
    · cases read.symm.trans panics
  have allFit : ∀ header ∈ loadHeaders bytes, header.Fits bytes := by
    intro header member
    rw [loadHeaders, List.mem_filter, programHeaders, List.mem_map] at member
    obtain ⟨⟨i, listed, rfl⟩, isLoad⟩ := member
    have whole := (reads.read i (List.mem_range.mp listed)).2.2.2 (by simpa using isLoad)
    exact whole.2.2
  have allTaken : (programHeaders bytes).take (headerCount bytes) = programHeaders bytes := by
    apply List.take_of_length_le
    rw [programHeaders, List.length_map, List.length_range]
  refine ⟨?_, allFit⟩
  rw [pages, askedPages, allTaken, pagesOf, List.map_flatMap]
  apply List.flatMap_congr
  intro header member
  rw [(allFit header member).requests_eq, List.map_map]
  rfl

/-! ## What a run leaves in memory -/

section Runs

variable {μ : Type} (paging : Paging μ)

/-- The frames handed out between two machines. -/
def Paging.Taken (before after : Machine μ) (frame : PhysFrame) : Prop :=
  ∃ i, before.allocated ≤ i ∧ i < after.allocated ∧ paging.frames i = some frame

/-- The frame holds zeros with the segment's part of the page copied in. -/
def Grant.Filled (memory : Memory) (grant : Grant) : Prop :=
  ∃ dstOff contents,
    pageContents grant.request.segment grant.request.vpage = some (dstOff, contents) ∧
    ∀ k < 4096, memory (grant.frame.startAddress.value + k) =
      writeBytes (fun _ => 0) dstOff contents k

structure Fills (before after : Machine μ) (grants : List Grant) : Prop
    extends LoadsGrants paging before after grants where
  tablesTaken : ∀ table ∈ paging.tables after.mapper,
    table ∈ paging.tables before.mapper ∨ Paging.Taken paging before after table
  noTable : ∀ grant ∈ grants, grant.frame ∉ paging.tables after.mapper
  contents : ∀ grant ∈ grants, grant.Filled after.memory
  untouched : ∀ address, (∀ frame, Paging.Taken paging before after frame → ¬ frame.Contains address) →
    (∀ table ∈ paging.tables before.mapper, ¬ table.Contains address) →
    after.memory address = before.memory address

variable {paging} {physOffset : VirtAddr}

theorem fresh_step (exactly : paging.MapsExactly) {before after : Machine μ}
    (fresh : paging.Fresh before) (callsGrow : before.allocated ≤ after.allocated)
    (tablesTaken : ∀ table ∈ paging.tables after.mapper,
      table ∈ paging.tables before.mapper ∨ Paging.Taken paging before after table) :
    paging.Fresh after := by
  intro i frame later answer isTable
  rcases tablesTaken frame isTable with old | ⟨j, _, upTo, taken⟩
  · exact fresh i frame (callsGrow.trans later) answer old
  · have sameCall := exactly.framesDistinct answer taken
    omega

theorem Paging.Taken.mono {first before after last : Machine μ} {frame : PhysFrame}
    (taken : Paging.Taken paging before after frame) (earlier : first.allocated ≤ before.allocated)
    (later : after.allocated ≤ last.allocated) : Paging.Taken paging first last frame := by
  obtain ⟨i, fromFirst, upTo, answer⟩ := taken
  exact ⟨i, earlier.trans fromFirst, lt_of_lt_of_le upTo later, answer⟩

/-! ### One request -/

theorem Machine.filled_memory (mapped : Machine μ) (frame : PhysFrame) (dstOff : Nat)
    (contents : List U8) : (Machine.filled mapped frame dstOff contents).memory =
      writeBytes (writeBytes mapped.memory frame.startAddress.value (List.replicate 4096 0))
        (frame.startAddress.value + dstOff) contents := rfl

theorem Machine.filled_inside (mapped : Machine μ) {frame : PhysFrame} {dstOff k : Nat}
    {contents : List U8} (inPage : k < 4096) :
    (Machine.filled mapped frame dstOff contents).memory (frame.startAddress.value + k) =
      writeBytes (fun _ => 0) dstOff contents k := by
  rw [Machine.filled_memory, writeBytes_shift]
  apply writeBytes_congr
  intro _
  exact writeBytes_replicate mapped.memory 0 inPage

theorem Machine.filled_outside (mapped : Machine μ) {frame : PhysFrame} {dstOff address : Nat}
    {contents : List U8} (fits : dstOff + contents.length ≤ 4096)
    (outside : ¬ frame.Contains address) :
    (Machine.filled mapped frame dstOff contents).memory address = mapped.memory address := by
  rw [PhysFrame.Contains] at outside
  rw [Machine.filled_memory, writeBytes_outside _ (by omega), writeBytes_outside]
  rw [List.length_replicate]
  omega

/-- A granted request fills its frame and writes nothing else but page tables. -/
theorem Fills.granted (exactly : paging.MapsExactly) {request : Request} {page : Page}
    {frame : PhysFrame} {before mapped : Machine μ} {kv : VirtAddr} {dstOff : Nat}
    {contents : List U8} (fresh : paging.Fresh before)
    (answer : paging.frames before.allocated = some frame)
    (requested : request.page = some page)
    (added : paging.mapTo page frame request.segment.flags
      { before with allocated := before.allocated + 1 } = (.ok (), mapped))
    (seen : physOffset.add (BitVec.ofNat 64 frame.startAddress.value) = some kv)
    (parsed : pageContents request.segment request.vpage = some (dstOff, contents)) :
    Fills paging before (Machine.filled mapped frame dstOff contents) [⟨request, page, frame⟩] := by
  have loaded := LoadsGrants.granted exactly answer requested added seen parsed
  have newTables : ∀ table ∈ paging.tables mapped.mapper, table ∈ paging.tables before.mapper ∨
      ∃ i, before.allocated + 1 ≤ i ∧ i < mapped.allocated ∧ paging.frames i = some table := by
    intro table isTable
    have taken := @Paging.MapsExactly.tablesTaken _ _ exactly page frame request.segment.flags
      { before with allocated := before.allocated + 1 } table
    rw [added] at taken
    exact taken isTable
  have frameTaken : Paging.Taken paging before (Machine.filled mapped frame dstOff contents) frame :=
    (loaded.holds _ List.mem_cons_self).taken
  have noTable : frame ∉ paging.tables mapped.mapper := by
    intro isTable
    rcases newTables frame isTable with old | ⟨i, later, _, again⟩
    · exact fresh before.allocated frame (le_refl _) answer old
    · have sameCall := exactly.framesDistinct answer again
      omega
  refine { toLoadsGrants := loaded, tablesTaken := ?_, noTable := ?_, contents := ?_, untouched := ?_ }
  · intro table isTable
    rcases newTables table isTable with old | ⟨i, later, upTo, taken⟩
    · exact Or.inl old
    · exact Or.inr ⟨i, Nat.le_of_succ_le later, upTo, taken⟩
  · intro grant member
    obtain rfl := List.mem_singleton.mp member
    exact noTable
  · intro grant member
    obtain rfl := List.mem_singleton.mp member
    exact ⟨dstOff, contents, parsed, fun k inPage => Machine.filled_inside mapped inPage⟩
  · intro address notTaken notTable
    rw [Machine.filled_outside mapped (pageContents_length parsed) (notTaken frame frameTaken)]
    have kept := @Paging.MapsExactly.writesTables _ _ exactly page frame request.segment.flags
      { before with allocated := before.allocated + 1 } address
    rw [added] at kept
    apply kept
    intro table isTable
    rcases newTables table isTable with old | ⟨i, later, upTo, taken⟩
    · exact notTable table old
    · exact notTaken table ⟨i, Nat.le_of_succ_le later, upTo, taken⟩

/-! ### A run -/

theorem Fills.nil (machine : Machine μ) : Fills paging machine machine [] where
  toLoadsGrants := LoadsGrants.refused (le_refl _) rfl
  tablesTaken := fun _ isTable => Or.inl isTable
  noTable := by simp
  contents := by simp
  untouched := fun _ _ _ => rfl

/-- A later run takes other frames, so it leaves an earlier grant's frame alone. -/
theorem Fills.keeps (exactly : paging.MapsExactly) {before between after : Machine μ} {grant : Grant}
    {grants : List Grant} (first : Fills paging before between [grant])
    (rest : Fills paging between after grants) :
    grant.frame ∉ paging.tables after.mapper ∧
      ∀ k < 4096, after.memory (grant.frame.startAddress.value + k) =
        between.memory (grant.frame.startAddress.value + k) := by
  obtain ⟨i, _, early, answer⟩ := (first.holds grant List.mem_cons_self).taken
  have noTable := first.noTable grant List.mem_cons_self
  have notTaken : ¬ Paging.Taken paging between after grant.frame := by
    rintro ⟨j, late, _, again⟩
    have sameCall := exactly.framesDistinct answer again
    omega
  refine ⟨?_, ?_⟩
  · intro isTable
    rcases rest.tablesTaken _ isTable with old | taken
    · exact noTable old
    · exact notTaken taken
  · intro k inPage
    have inside : grant.frame.Contains (grant.frame.startAddress.value + k) :=
      ⟨Nat.le_add_right _ _, Nat.add_lt_add_left inPage _⟩
    apply rest.untouched
    · intro frame taken
      refine PhysFrame.not_contains_of_ne ?_ inside
      rintro rfl
      exact notTaken taken
    · intro table isTable
      refine PhysFrame.not_contains_of_ne ?_ inside
      rintro rfl
      exact noTable isTable

theorem Fills.cons (exactly : paging.MapsExactly) {before between after : Machine μ} {grant : Grant}
    {grants : List Grant} (first : Fills paging before between [grant])
    (rest : Fills paging between after grants) : Fills paging before after (grant :: grants) := by
  obtain ⟨noTable, sameBytes⟩ := first.keeps exactly rest
  refine { toLoadsGrants := first.toLoadsGrants.cons exactly rest.toLoadsGrants,
           tablesTaken := ?_, noTable := ?_, contents := ?_, untouched := ?_ }
  · intro table isTable
    rcases rest.tablesTaken table isTable with earlier | taken
    · rcases first.tablesTaken table earlier with old | taken
      · exact Or.inl old
      · exact Or.inr (taken.mono (le_refl _) rest.callsGrow)
    · exact Or.inr (taken.mono first.callsGrow (le_refl _))
  · intro other member
    rcases List.mem_cons.mp member with rfl | later
    · exact noTable
    · exact rest.noTable other later
  · intro other member
    rcases List.mem_cons.mp member with rfl | later
    · obtain ⟨dstOff, contents, parsed, filled⟩ := first.contents other List.mem_cons_self
      refine ⟨dstOff, contents, parsed, ?_⟩
      intro k inPage
      rw [sameBytes k inPage, filled k inPage]
    · exact rest.contents other later
  · intro address notTaken notTable
    have restKept : after.memory address = between.memory address := by
      apply rest.untouched
      · intro frame taken
        exact notTaken frame (taken.mono first.callsGrow (le_refl _))
      · intro table isTable
        rcases first.tablesTaken table isTable with old | taken
        · exact notTable table old
        · exact notTaken table (taken.mono (le_refl _) rest.callsGrow)
    rw [restKept]
    apply first.untouched address _ notTable
    intro frame taken
    exact notTaken frame (taken.mono (le_refl _) rest.callsGrow)

/-- A run over requests that returns `Ok` fills a frame for each of them. -/
theorem loadRequests_fills (exactly : paging.MapsExactly) {requests : List Request}
    {before after : Machine μ} (fresh : paging.Fresh before)
    (returned : (forM requests (loadRequest paging physOffset)).run.run before =
      some (.ok (), after)) :
    ∃ grants, requests = grants.map Grant.request ∧ Fills paging before after grants := by
  induction requests generalizing before with
  | nil =>
      obtain ⟨-, rfl⟩ := Prod.mk.inj (Option.some.inj returned)
      exact ⟨[], rfl, Fills.nil before⟩
  | cons request rest inductionHypothesis =>
      rw [List.forM_cons, run_bind, Option.bind_eq_some_iff] at returned
      obtain ⟨⟨first, between⟩, firstRan, restRan⟩ := returned
      rcases (loadRequest_returns_iff ..).mp firstRan with
        ⟨_, rfl, -⟩ | ⟨frame, page, answer, requested, ⟨failure, rfl, -⟩ |
          ⟨mapped, kv, dstOff, contents, rfl, added, seen, parsed, rfl⟩⟩
      · cases restRan
      · cases restRan
      · have filled := Fills.granted exactly fresh answer requested added seen parsed
        obtain ⟨grants, rfl, later⟩ := inductionHypothesis
          (fresh_step exactly fresh filled.callsGrow filled.tablesTaken) restRan
        exact ⟨⟨request, page, frame⟩ :: grants, rfl, filled.cons exactly later⟩

/-! ## The image -/

variable (paging)

/-- Between two machines the file was loaded: the newly mapped pages are those of
the `PT_LOAD` headers, which do not overlap; each has its header's flags and the
bytes of the image; and nothing else changed except in page tables. -/
structure ImageLoaded (bytes : List U8) (before after : Machine μ) : Prop where
  disjoint : (loadHeaders bytes).Pairwise fun header other =>
    ∀ address, header.Covers address → ¬ other.Covers address
  newPages : ∀ page,
    (paging.mappings before.mapper page = none ∧ paging.mappings after.mapper page ≠ none) ↔
      ∃ header ∈ loadHeaders bytes, header.Covers page.startAddress.value.toNat
  pages : ∀ header ∈ loadHeaders bytes, ∀ vpage, header.Covers vpage → 4096 ∣ vpage →
    ∃ page frame, page.startAddress.value.toNat = vpage ∧
      paging.mappings after.mapper page = some (frame, header.pageFlags) ∧
      Paging.Taken paging before after frame ∧
      ∀ k < 4096, header.imageByte bytes (vpage + k) =
        some (after.memory (frame.startAddress.value + k))
  kept : ∀ page entry, paging.mappings before.mapper page = some entry →
    paging.mappings after.mapper page = some entry
  untouched : ∀ address, (∀ frame, Paging.Taken paging before after frame → ¬ frame.Contains address) →
    (∀ table ∈ paging.tables before.mapper, ¬ table.Contains address) →
    after.memory address = before.memory address

variable {paging} {bytes : List U8} {before after : Machine μ} {grants : List Grant}

/-- The grants of a run over all requests of the file, one for each covered page. -/
structure FileGrants (paging : Paging μ) (bytes : List U8) (before after : Machine μ)
    (grants : List Grant) : Prop where
  filled : Fills paging before after grants
  requests : grants.map Grant.request =
    (loadHeaders bytes).flatMap fun header => (header.segment bytes).requests
  allFit : ∀ header ∈ loadHeaders bytes, header.Fits bytes

namespace FileGrants

variable (granted : FileGrants paging bytes before after grants)
include granted

theorem exists_grant {header : ProgramHeader} (member : header ∈ loadHeaders bytes) {vpage : Nat}
    (covered : header.Covers vpage) (aligned : 4096 ∣ vpage) :
    ∃ grant ∈ grants, grant.request = ⟨header.segment bytes, BitVec.ofNat 64 vpage⟩ ∧
      grant.page.startAddress.value.toNat = vpage := by
  have fits := granted.allFit header member
  have pageFits := fits.covers_lt covered aligned
  have requested : (⟨header.segment bytes, BitVec.ofNat 64 vpage⟩ : Request) ∈
      grants.map Grant.request := by
    rw [granted.requests, List.mem_flatMap]
    exact ⟨header, member, (fits.mem_requests_iff _).mpr ⟨vpage, covered, aligned, rfl⟩⟩
  obtain ⟨grant, inGrants, same⟩ := List.mem_map.mp requested
  have page := (granted.filled.holds grant inGrants).requested
  rw [same] at page
  exact ⟨grant, inGrants, same, page_toNat (by omega) aligned page⟩

theorem exists_header {grant : Grant} (inGrants : grant ∈ grants) :
    ∃ header ∈ loadHeaders bytes, header.Covers grant.page.startAddress.value.toNat := by
  have requested : grant.request ∈ grants.map Grant.request := List.mem_map_of_mem inGrants
  rw [granted.requests, List.mem_flatMap] at requested
  obtain ⟨header, member, inRequests⟩ := requested
  have fits := granted.allFit header member
  obtain ⟨vpage, covered, aligned, same⟩ := (fits.mem_requests_iff _).mp inRequests
  have pageFits := fits.covers_lt covered aligned
  have page := (granted.filled.holds grant inGrants).requested
  rw [same] at page
  refine ⟨header, member, ?_⟩
  rw [page_toNat (by omega) aligned page]
  exact covered

/-- No page is asked for twice, so no two headers cover the same address. -/
theorem disjoint : (loadHeaders bytes).Pairwise fun header other =>
    ∀ address, header.Covers address → ¬ other.Covers address := by
  have pages : (grants.map Grant.request).map Request.page = (grants.map Grant.page).map some := by
    rw [List.map_map, List.map_map]
    apply List.map_congr_left
    intro grant member
    exact (granted.filled.holds grant member).requested
  have distinct : ((grants.map Grant.request).map Request.page).Nodup := by
    rw [pages]
    exact granted.filled.pagesDistinct.map (Option.some_injective _)
  rw [granted.requests, List.map_flatMap, List.nodup_flatMap] at distinct
  refine distinct.2.imp_of_mem ?_
  intro header other member otherMember apart address covered otherCovered
  have aligned : 4096 ∣ address / 4096 * 4096 := Nat.dvd_mul_left _ _
  have pageOf : ∀ {candidate : ProgramHeader}, candidate ∈ loadHeaders bytes →
      candidate.Covers address →
      Request.page ⟨candidate.segment bytes, BitVec.ofNat 64 (address / 4096 * 4096)⟩ ∈
        (candidate.segment bytes).requests.map Request.page := by
    intro candidate inHeaders covers
    apply List.mem_map_of_mem
    refine ((granted.allFit candidate inHeaders).mem_requests_iff _).mpr ⟨_, ?_, aligned, rfl⟩
    rw [ProgramHeader.Covers, ProgramHeader.firstPage, ProgramHeader.pagesEnd] at covers ⊢
    omega
  exact apart (pageOf member covered) (pageOf otherMember otherCovered)

theorem imageLoaded : ImageLoaded paging bytes before after where
  disjoint := granted.disjoint
  newPages := by
    intro page
    rw [granted.filled.mappings]
    constructor
    · rintro ⟨unmapped, mapped⟩
      obtain ⟨entry, isEntry⟩ := Option.ne_none_iff_exists'.mp mapped
      obtain ⟨grant, inGrants, rfl⟩ := exists_grant_of_foldl isEntry (by rw [unmapped]; simp)
      exact granted.exists_header inGrants
    · rintro ⟨header, member, covered⟩
      obtain ⟨grant, inGrants, -, start⟩ := granted.exists_grant member covered page.aligned
      obtain rfl := Page.ext_toNat start
      refine ⟨(granted.filled.holds grant inGrants).unmapped, ?_⟩
      rw [foldl_install_of_mem granted.filled.pagesDistinct inGrants]
      simp
  pages := by
    intro header member vpage covered aligned
    have fits := granted.allFit header member
    obtain ⟨grant, inGrants, same, start⟩ := granted.exists_grant member covered aligned
    obtain ⟨dstOff, contents, parsed, filled⟩ := granted.filled.contents grant inGrants
    refine ⟨grant.page, grant.frame, start, ?_, (granted.filled.holds grant inGrants).taken, ?_⟩
    · rw [granted.filled.mappings, foldl_install_of_mem granted.filled.pagesDistinct inGrants, same]
      rfl
    · intro k inPage
      rw [same] at parsed
      rw [filled k inPage]
      exact imageByte_pageContents fits.vaddrLt fits.fileszLt fits.inFile
        (fits.covers_lt covered aligned) parsed inPage
  kept := by
    intro page entry mapped
    rw [granted.filled.mappings, foldl_install_of_notMem, mapped]
    intro isGranted
    obtain ⟨grant, inGrants, rfl⟩ := List.mem_map.mp isGranted
    rw [(granted.filled.holds grant inGrants).unmapped] at mapped
    cases mapped
  untouched := granted.filled.untouched

end FileGrants

/-- When `load` returns `Ok`, the file is loaded as the format says. -/
theorem load_builds_image {μ : Type} (paging : Paging μ) (exactly : paging.MapsExactly)
    (physOffset : VirtAddr) (bytes : List U8) (machine after : Machine μ) (entry : U64)
    (fresh : paging.Fresh machine)
    (returned : (load paging physOffset bytes).run.run machine = some (.ok entry, after)) :
    entry.toNat = entryPoint bytes ∧ ImageLoaded paging bytes machine after := by
  rcases (load_returns_iff ..).mp returned with
    ⟨failure, -, impossible, -⟩ | ⟨header, parsed, ⟨failure, -, impossible⟩ |
      ⟨ran, ending, planned, same⟩⟩
  · cases impossible
  · cases impossible
  · obtain rfl := eq_fileHeader parsed
    rcases ending with failure | _
    · cases same
    · obtain rfl := Except.ok.inj same
      obtain ⟨requests, allFit⟩ := plan_complete planned
      obtain ⟨grants, ofGrants, filled⟩ := loadRequests_fills exactly fresh ran
      have granted : FileGrants paging bytes machine after grants :=
        ⟨filled, ofGrants.symm.trans requests, allFit⟩
      refine ⟨?_, granted.imageLoaded⟩
      show (BitVec.ofNat 64 (entryPoint bytes)).toNat = entryPoint bytes
      rw [BitVec.toNat_ofNat]
      exact Nat.mod_eq_of_lt (numberAt_lt bytes 24 8)

end Runs

/-- A segment that starts two bytes before a page boundary and ends behind it. -/
theorem load_returns_across_pages :
    ((load (flatPaging conventionalMemory.frame) lowWindow
        (oneSegmentElf 0x400000000FFE [0xEB, 0xFE, 0x90, 0x90])).run.run unmappedMachine).map
          (fun outcome => outcome.1.toOption) = some (some 0x400000000FFE) := by
  decide +kernel

theorem load_builds_image_across_pages :
    ∃ after, (load (flatPaging conventionalMemory.frame) lowWindow
        (oneSegmentElf 0x400000000FFE [0xEB, 0xFE, 0x90, 0x90])).run.run unmappedMachine =
          some (.ok 0x400000000FFE, after) ∧
      ImageLoaded (flatPaging conventionalMemory.frame)
        (oneSegmentElf 0x400000000FFE [0xEB, 0xFE, 0x90, 0x90]) unmappedMachine after := by
  obtain ⟨⟨result, after⟩, returned, outcome⟩ :=
    Option.map_eq_some_iff.mp load_returns_across_pages
  rcases result with failure | entry
  · cases outcome
  · obtain rfl := Option.some.inj outcome
    have built := load_builds_image _ (flatPaging_sound conventionalMemory.frame_injective).toMapsExactly
      lowWindow _ unmappedMachine after _ (fun _ frame _ _ => Set.notMem_empty frame) returned
    exact ⟨after, returned, built.2⟩

end AxiomKernel.User
