import Mathlib
import AxiomKernel.Lib.Bytes
import AxiomKernel.Lib.SteppedRange
import AxiomKernel.Lib.TwoRun
import AxiomKernel.Memory.FrameAllocator
import AxiomKernel.Memory.Paging
import AxiomKernel.User.ElfLoader
import AxiomKernel.User.ElfFormat
import AxiomKernel.User.LoadPlan
import AxiomKernel.User.FilePages

/-!
# User pages in the kernel half

The loader takes the addresses of a segment as the file gives them, and
`VirtAddr::new` accepts both halves of the canonical address space.  This module
says exactly which files make it map a page of the kernel half for the user.
-/

set_option autoImplicit false

namespace AxiomKernel.User

open ByteStrings SteppedRanges TwoRuns Memory

/-! ## Every planned page is a user page -/

theorem programHeader_userAccessible {bytes : List U8} {header : ElfHeader} {i : Nat}
    {segment : Segment} (parsed : programHeader bytes header i = some (.ok (some segment))) :
    segment.flags.userAccessible = true := by
  rw [programHeader] at parsed
  obtain ⟨index, -, parsed⟩ := run_bind_eq_ok parsed
  obtain ⟨off, -, parsed⟩ := run_bind_eq_ok parsed
  obtain ⟨offEnd, -, parsed⟩ := run_bind_eq_ok parsed
  split at parsed
  case isTrue =>
    obtain ⟨_, thrown, -⟩ := run_bind_eq_ok parsed
    cases thrown
  case isFalse =>
    obtain ⟨pType, -, parsed⟩ := run_bind_eq_ok parsed
    split at parsed
    case isTrue => cases parsed
    case isFalse =>
      obtain ⟨pFlags, -, parsed⟩ := run_bind_eq_ok parsed
      obtain ⟨pOffset, -, parsed⟩ := run_bind_eq_ok parsed
      obtain ⟨pVaddr, -, parsed⟩ := run_bind_eq_ok parsed
      obtain ⟨pFilesz, -, parsed⟩ := run_bind_eq_ok parsed
      obtain ⟨pMemsz, -, parsed⟩ := run_bind_eq_ok parsed
      obtain ⟨pAlign, -, parsed⟩ := run_bind_eq_ok parsed
      obtain ⟨fileEnd, -, parsed⟩ := run_bind_eq_ok parsed
      split at parsed
      case isTrue =>
        obtain ⟨_, thrown, -⟩ := run_bind_eq_ok parsed
        cases thrown
      case isFalse =>
        obtain ⟨data, -, parsed⟩ := run_bind_eq_ok parsed
        obtain ⟨endAddr, -, parsed⟩ := run_bind_eq_ok parsed
        obtain ⟨endRounded, -, parsed⟩ := run_bind_eq_ok parsed
        obtain rfl := Option.some.inj (Except.ok.inj (Option.some.inj parsed))
        rfl

theorem planFrom_userAccessible (bytes : List U8) (header : ElfHeader) (indices : List Nat) :
    ∀ request ∈ (planFrom bytes header indices).1, request.segment.flags.userAccessible = true := by
  induction indices with
  | nil => simp [planFrom]
  | cons i rest inductionHypothesis =>
      rw [planFrom]
      cases parsed : programHeader bytes header i with
      | none => simp
      | some outcome =>
          rcases outcome with failure | _ | segment
          · simp
          · exact inductionHypothesis
          · intro request member
            rcases List.mem_append.mp member with own | later
            · obtain ⟨vpage, -, rfl⟩ := List.mem_map.mp own
              exact programHeader_userAccessible parsed
            · exact inductionHypothesis request later

/-! ## Files that reach the kernel half -/

/-- One of the pages the file asks for lies in the kernel half, and nothing before it
stops the loader: up to it all pages are different and loadable, there are no more
of them than frames fit into the window, and when it is the last one the header that
ends the reading does not make the loader panic. -/
def ReachesKernelHalf (bytes : List U8) : Prop :=
  IsExecutable bytes ∧ ∃ stop, ReadsUpTo bytes stop ∧
    ∃ earlier asked later, askedPages bytes stop = earlier ++ asked :: later ∧
      2 ^ 47 ≤ asked.2 ∧
      (∀ passed ∈ earlier ++ [asked], PageLoadable passed) ∧
      ((earlier ++ [asked]).map Prod.snd).Nodup ∧
      earlier.length < 2 ^ 35 ∧
      (later = [] → stop < headerCount bytes → HeaderSafe bytes stop)

/-- The same of the requests in the loader's plan. -/
def PlanReachesKernelHalf (bytes : List U8) : Prop :=
  ∃ earlier request rest page,
    (plan bytes (fileHeader bytes)).1 = earlier ++ request :: rest ∧
      request.page = some page ∧ 2 ^ 47 ≤ page.startAddress.value.toNat ∧
      (∀ passed ∈ earlier ++ [request], passed.Loadable) ∧
      ((earlier ++ [request]).map Request.page).Nodup ∧
      earlier.length < 2 ^ 35 ∧
      (rest = [] → (plan bytes (fileHeader bytes)).2.isSome)

/-- Whatever the machine, a run of `load` that returns maps user pages in the lower
half only. -/
def StaysInLowerHalf (bytes : List U8) : Prop :=
  ∀ (μ : Type) (paging : Paging μ), paging.Sound → paging.Obliging →
    ∀ (physOffset : VirtAddr) (machine after : Machine μ) (result : Except ElfError U64),
      (load paging physOffset bytes).run.run machine = some (result, after) →
      ∀ page frame flags, paging.mappings after.mapper page = some (frame, flags) →
        paging.mappings machine.mapper page ≠ some (frame, flags) →
        flags.userAccessible = true → page.startAddress.value.toNat + 4096 ≤ 2 ^ 47

/-! ## Pages and requests -/

section

variable {bytes : List U8} {stop : Nat} {pages : List (ProgramHeader × Nat)}

theorem loadable_map_iff (reads : ReadsUpTo bytes stop) (asked : pages ⊆ askedPages bytes stop) :
    (∀ request ∈ pages.map (askedRequest bytes), request.Loadable) ↔
      ∀ page ∈ pages, PageLoadable page := by
  rw [List.forall_mem_map]
  exact forall₂_congr fun page member => reads.loadable_iff (asked member)

/-- Loadable requests are for the same page exactly if they are for the same address. -/
theorem pages_nodup_iff (reads : ReadsUpTo bytes stop) (asked : pages ⊆ askedPages bytes stop)
    (loadable : ∀ page ∈ pages, PageLoadable page) :
    ((pages.map (askedRequest bytes)).map Request.page).Nodup ↔ (pages.map Prod.snd).Nodup := by
  have starts : ∀ page ∈ pages, ∃ address : Page, (askedRequest bytes page).page = some address ∧
      address.startAddress.value.toNat = page.2 := by
    intro page member
    have pageExists := ((reads.loadable_iff (asked member)).mpr (loadable page member)).1
    obtain ⟨address, requested⟩ := Option.isSome_iff_exists.mp pageExists
    exact ⟨address, requested, reads.page_start (asked member) requested⟩
  rw [List.map_map, List.Nodup, List.Nodup, List.pairwise_map, List.pairwise_map]
  refine List.Pairwise.iff_of_mem ?_
  intro left right leftMember rightMember
  obtain ⟨leftPage, leftRequested, leftStart⟩ := starts left leftMember
  obtain ⟨rightPage, rightRequested, rightStart⟩ := starts right rightMember
  rw [Function.comp, Function.comp, leftRequested, rightRequested, ne_eq, Option.some.injEq,
    ← leftStart, ← rightStart]
  refine not_congr ⟨?_, Page.ext_toNat⟩
  intro same
  rw [same]

theorem reachesKernelHalf_iff_plan (accepted : IsExecutable bytes) :
    ReachesKernelHalf bytes ↔ PlanReachesKernelHalf bytes := by
  constructor
  · intro ⟨_, stop, reads, earlier, asked, later, split, kernelHalf, loadable, distinct, fits,
      complete⟩
    have inAsked : earlier ++ [asked] ⊆ askedPages bytes stop := by
      rw [split, List.append_cons earlier asked later]
      exact List.subset_append_left _ _
    have member : asked ∈ askedPages bytes stop := inAsked (by simp)
    have mapped : (earlier ++ [asked]).map (askedRequest bytes) =
        earlier.map (askedRequest bytes) ++ [askedRequest bytes asked] := by simp
    have requests := (loadable_map_iff reads inAsked).mpr loadable
    have pages := (pages_nodup_iff reads inAsked loadable).mpr distinct
    rw [mapped] at requests pages
    obtain ⟨page, requested⟩ := Option.isSome_iff_exists.mp
      (requests (askedRequest bytes asked) (by simp)).1
    refine ⟨earlier.map (askedRequest bytes), askedRequest bytes asked,
      later.map (askedRequest bytes), page, ?_, requested, ?_, requests, pages, ?_, ?_⟩
    · rw [reads.plan_pages, split, List.map_append, List.map_cons]
    · rw [reads.page_start member requested]
      exact kernelHalf
    · rw [List.length_map]
      exact fits
    · intro nothing
      exact reads.plan_returns_iff.mpr (complete (List.map_eq_nil_iff.mp nothing))
  · intro ⟨earlier, request, rest, page, split, requested, kernelHalf, requests, pages, fits,
      complete⟩
    obtain ⟨stop, reads, planned, -⟩ := exists_readsUpTo bytes
    rw [planned] at split
    obtain ⟨earlierPages, laterPages, askedSplit, rfl, rest'⟩ := List.map_eq_append_iff.mp split
    obtain ⟨asked, later, rfl, rfl, rfl⟩ := List.map_eq_cons_iff.mp rest'
    have inAsked : earlierPages ++ [asked] ⊆ askedPages bytes stop := by
      rw [askedSplit, List.append_cons earlierPages asked later]
      exact List.subset_append_left _ _
    have member : asked ∈ askedPages bytes stop := inAsked (by simp)
    have mapped : (earlierPages ++ [asked]).map (askedRequest bytes) =
        earlierPages.map (askedRequest bytes) ++ [askedRequest bytes asked] := by simp
    rw [← mapped] at requests pages
    have loadable := (loadable_map_iff reads inAsked).mp requests
    refine ⟨accepted, stop, reads, earlierPages, asked, later, askedSplit, ?_, loadable,
      (pages_nodup_iff reads inAsked loadable).mp pages, ?_, ?_⟩
    · rw [← reads.page_start member requested]
      exact kernelHalf
    · rw [List.length_map] at fits
      exact fits
    · intro nothing
      exact reads.plan_returns_iff.mp (complete (by rw [nothing, List.map_nil]))

end

/-! ## A page that was mapped was reachable -/

theorem foldl_install_of_notMem {mappings : Page → Option (PhysFrame × PageTableFlags)}
    {grants : List Grant} {page : Page} (other : page ∉ grants.map Grant.page) :
    grants.foldl Grant.install mappings page = mappings page := by
  induction grants generalizing mappings with
  | nil => rfl
  | cons grant rest inductionHypothesis =>
      rw [List.map_cons, List.mem_cons, not_or] at other
      rw [List.foldl_cons, inductionHypothesis other.2, Grant.install,
        Function.update_of_ne other.1]

theorem exists_grant_of_foldl {mappings : Page → Option (PhysFrame × PageTableFlags)}
    {grants : List Grant} {page : Page} {entry : PhysFrame × PageTableFlags}
    (mapped : grants.foldl Grant.install mappings page = some entry)
    (isNew : mappings page ≠ some entry) : ∃ grant ∈ grants, grant.page = page := by
  by_contra noGrant
  apply isNew
  rw [← mapped, foldl_install_of_notMem]
  rw [List.mem_map]
  exact noGrant

theorem foldl_install_of_mem {mappings : Page → Option (PhysFrame × PageTableFlags)}
    {grants : List Grant} (distinct : (grants.map Grant.page).Nodup) {grant : Grant}
    (member : grant ∈ grants) :
    grants.foldl Grant.install mappings grant.page =
      some (grant.frame, grant.request.segment.flags) := by
  induction grants generalizing mappings with
  | nil => cases member
  | cons first rest inductionHypothesis =>
      rw [List.map_cons, List.nodup_cons] at distinct
      rcases List.mem_cons.mp member with rfl | later
      · rw [List.foldl_cons, foldl_install_of_notMem distinct.1, Grant.install,
          Function.update_self]
      · exact inductionHypothesis distinct.2 later

/-- There are at most as many grants as frames below `2^47`. -/
theorem LoadsGrants.length_le {μ : Type} {paging : Paging μ} {before after : Machine μ}
    {grants : List Grant} (loaded : LoadsGrants paging before after grants) :
    grants.length ≤ 2 ^ 35 := by
  have distinct : (grants.map fun grant => grant.frame.startAddress.value / 4096).Nodup := by
    have composed : (grants.map fun grant => grant.frame.startAddress.value / 4096) =
        (grants.map Grant.frame).map fun frame => frame.startAddress.value / 4096 := by
      rw [List.map_map]
      rfl
    rw [composed]
    refine loaded.framesDistinct.map ?_
    rintro ⟨⟨left, leftValid⟩, leftAligned⟩ ⟨⟨right, rightValid⟩, rightAligned⟩ same
    simp only [PhysFrame.mk.injEq, PhysAddr.mk.injEq] at same leftAligned rightAligned ⊢
    omega
  have below : ∀ value ∈ grants.map fun grant => grant.frame.startAddress.value / 4096,
      value < 2 ^ 35 := by
    intro value member
    obtain ⟨grant, inGrants, rfl⟩ := List.mem_map.mp member
    have inWindow := (loaded.holds grant inGrants).inWindow
    omega
  have counted := length_le_of_nodup_of_lt distinct below
  rwa [List.length_map] at counted

/-- When `load` returns, the mappings are those of granted first requests; if all
were granted, the result is how reading the headers ended. -/
theorem load_grants {μ : Type} {paging : Paging μ} (exactly : paging.MapsExactly)
    {physOffset : VirtAddr} {bytes : List U8} {header : ElfHeader} {machine after : Machine μ}
    {result : Except ElfError U64} (parsed : elfHeader bytes = some (.ok header))
    (returned : (load paging physOffset bytes).run.run machine = some (result, after)) :
    ∃ grants rest, (plan bytes header).1 = grants.map Grant.request ++ rest ∧
      LoadsGrants paging machine after grants ∧
      (rest = [] → ∃ ending, (plan bytes header).2 = some ending ∧
        result = ending.map fun _ => header.entry) := by
  rcases (load_returns_iff ..).mp returned with
    ⟨failure, refused, -⟩ | ⟨_, sameParse, ⟨failure, ran, -⟩ | ⟨ran, ending, planned, same⟩⟩
  · cases parsed.symm.trans refused
  · obtain rfl := Except.ok.inj (Option.some.inj (parsed.symm.trans sameParse))
    obtain ⟨grants, rest, split, loaded, ⟨impossible, -⟩ | ⟨-, remaining⟩⟩ :=
      loadRequests_grants exactly ran
    · cases impossible
    · exact ⟨grants, rest, split, loaded, fun none => absurd none remaining⟩
  · obtain rfl := Except.ok.inj (Option.some.inj (parsed.symm.trans sameParse))
    obtain ⟨grants, rest, split, loaded, -⟩ := loadRequests_grants exactly ran
    exact ⟨grants, rest, split, loaded, fun _ => ⟨ending, planned, same⟩⟩

/-- The requests up to a granted one are loadable and for different pages. -/
theorem LoadsGrants.upTo {μ : Type} {paging : Paging μ} {machine after : Machine μ}
    {before later : List Grant} {grant : Grant}
    (loaded : LoadsGrants paging machine after (before ++ grant :: later)) :
    (∀ passed ∈ before.map Grant.request ++ [grant.request], passed.Loadable) ∧
      ((before.map Grant.request ++ [grant.request]).map Request.page).Nodup := by
  have front : (before ++ [grant]).Sublist (before ++ grant :: later) := by simp
  have requests : before.map Grant.request ++ [grant.request] =
      (before ++ [grant]).map Grant.request := by simp
  have pages : ((before ++ [grant]).map Grant.request).map Request.page =
      ((before ++ [grant]).map Grant.page).map some := by
    rw [List.map_map, List.map_map]
    apply List.map_congr_left
    intro other inFront
    exact (loaded.holds other (front.subset inFront)).requested
  rw [requests, pages]
  constructor
  · intro request requested
    obtain ⟨other, inFront, rfl⟩ := List.mem_map.mp requested
    have held := loaded.holds other (front.subset inFront)
    exact ⟨by rw [held.requested]; rfl, held.filled⟩
  · exact (loaded.pagesDistinct.sublist (front.map _)).map (Option.some_injective _)

theorem reachesKernelHalf_of_mapped {μ : Type} {paging : Paging μ} (sound : paging.Sound)
    {physOffset : VirtAddr} {bytes : List U8} {machine after : Machine μ}
    {result : Except ElfError U64}
    (returned : (load paging physOffset bytes).run.run machine = some (result, after))
    {page : Page} {entry : PhysFrame × PageTableFlags}
    (mapped : paging.mappings after.mapper page = some entry)
    (isNew : paging.mappings machine.mapper page ≠ some entry)
    (kernelHalf : 2 ^ 47 ≤ page.startAddress.value.toNat) : ReachesKernelHalf bytes := by
  have parsed : elfHeader bytes = some (.ok (fileHeader bytes)) := by
    rcases (load_returns_iff ..).mp returned with ⟨failure, -, -, rfl⟩ | ⟨header, parsed, -⟩
    · exact absurd mapped isNew
    · rw [parsed, eq_fileHeader parsed]
  obtain ⟨grants, rest, split, loaded, complete⟩ :=
    load_grants sound.toMapsExactly parsed returned
  rw [loaded.mappings] at mapped
  obtain ⟨grant, member, rfl⟩ := exists_grant_of_foldl mapped isNew
  obtain ⟨before, later, rfl⟩ := List.append_of_mem member
  obtain ⟨loadable, distinct⟩ := loaded.upTo
  refine (reachesKernelHalf_iff_plan ((elfHeader_ok_iff bytes).mp parsed)).mpr
    ⟨before.map Grant.request, grant.request, later.map Grant.request ++ rest, grant.page, ?_,
      (loaded.holds grant member).requested, kernelHalf, loadable, distinct, ?_, ?_⟩
  · rw [split, List.map_append, List.map_cons, List.append_assoc, List.cons_append]
  · have bounded := loaded.length_le
    rw [List.length_append, List.length_cons] at bounded
    rw [List.length_map]
    omega
  · intro nothingLeft
    obtain ⟨ending, planned, -⟩ := complete (List.append_eq_nil_iff.mp nothingLeft).2
    rw [planned]
    rfl

/-! ## A reachable page is mapped on some machine -/

/-- Frames for the first `limit` calls, as far as the window reaches. -/
def windowFrames (limit : Nat) (i : Nat) : Option PhysFrame :=
  if inside : i < limit ∧ i < 2 ^ 35 then
    some ⟨⟨4096 * i, by omega⟩, Nat.dvd_mul_right 4096 i⟩
  else none

theorem windowFrames_injective {limit i j : Nat} {frame : PhysFrame}
    (first : windowFrames limit i = some frame) (second : windowFrames limit j = some frame) :
    i = j := by
  rw [windowFrames] at first second
  split at first
  case isFalse => cases first
  case isTrue =>
    split at second
    case isFalse => cases second
    case isTrue =>
      have same := (Option.some.inj first).trans (Option.some.inj second).symm
      simp only [PhysFrame.mk.injEq, PhysAddr.mk.injEq] at same
      omega

def lowWindow : VirtAddr := ⟨0, by decide⟩

theorem lowWindow_add {frame : PhysFrame} (inWindow : frame.startAddress.value < 2 ^ 47) :
    ∃ kv, lowWindow.add (BitVec.ofNat 64 frame.startAddress.value) = some kv := by
  have frameLt : frame.startAddress.value < 2 ^ 64 := lt_trans frame.startAddress.valid (by decide)
  have value : (BitVec.ofNat 64 frame.startAddress.value).toNat = frame.startAddress.value := by
    rw [BitVec.toNat_ofNat, Nat.mod_eq_of_lt frameLt]
  have canonical : Canonical (BitVec.ofNat 64 frame.startAddress.value) := by
    rw [Canonical, value]
    exact Or.inl inWindow
  refine ⟨⟨_, canonical⟩, ?_⟩
  have sum : MachineWords.checkedAdd lowWindow.value (BitVec.ofNat 64 frame.startAddress.value) =
      some (BitVec.ofNat 64 frame.startAddress.value) := by
    rw [MachineWords.checkedAdd_eq_some_iff]
    exact (Nat.zero_add _).symm
  rw [VirtAddr.add, sum, Option.bind_eq_bind, Option.bind_some, VirtAddr.new, dif_pos canonical]

theorem loadRequest_windowFrames {limit : Nat} {request : Request}
    {machine : Machine (Page → Option (PhysFrame × PageTableFlags))} {page : Page}
    (available : machine.allocated < limit) (fits : limit ≤ 2 ^ 35)
    (requested : request.page = some page)
    (filled : (pageContents request.segment request.vpage).isSome)
    (unmapped : machine.mapper page = none) :
    ∃ after entry,
      (loadRequest (flatPaging (windowFrames limit)) lowWindow request).run.run machine =
        some (.ok (), after) ∧
      after.allocated = machine.allocated + 1 ∧
      after.mapper = Function.update machine.mapper page (some entry) := by
  obtain ⟨⟨dstOff, contents⟩, parsed⟩ := Option.isSome_iff_exists.mp filled
  have inside : machine.allocated < limit ∧ machine.allocated < 2 ^ 35 :=
    ⟨available, lt_of_lt_of_le available fits⟩
  let frame : PhysFrame := ⟨⟨4096 * machine.allocated, by omega⟩, Nat.dvd_mul_right 4096 _⟩
  have answer : windowFrames limit machine.allocated = some frame := by
    rw [windowFrames, dif_pos inside]
  have inWindow : frame.startAddress.value < 2 ^ 47 := by
    show 4096 * machine.allocated < 2 ^ 47
    omega
  obtain ⟨kv, seen⟩ := lowWindow_add inWindow
  rcases flatPaging_mapTo_cases (windowFrames limit) page frame request.segment.flags
    { machine with allocated := machine.allocated + 1 } with ⟨entry, mapped, -⟩ | ⟨-, granted⟩
  · cases unmapped.symm.trans mapped
  · exact ⟨_, _, (loadRequest_returns_iff ..).mpr (Or.inr ⟨frame, page, answer, requested,
      Or.inr ⟨_, kv, dstOff, contents, rfl, granted, seen, parsed, rfl⟩⟩), rfl, rfl⟩

/-- All of a list of different loadable pages are mapped while there are frames. -/
theorem loadRequests_windowFrames {limit : Nat} (fits : limit ≤ 2 ^ 35) (requests : List Request)
    (machine : Machine (Page → Option (PhysFrame × PageTableFlags)))
    (available : machine.allocated + requests.length ≤ limit)
    (loadable : ∀ request ∈ requests, request.Loadable)
    (distinct : (requests.map Request.page).Nodup)
    (unmapped : ∀ request ∈ requests, ∀ page, request.page = some page → machine.mapper page = none) :
    ∃ after,
      (forM requests (loadRequest (flatPaging (windowFrames limit)) lowWindow)).run.run machine =
        some (.ok (), after) ∧
      after.allocated = machine.allocated + requests.length := by
  induction requests generalizing machine with
  | nil => exact ⟨machine, rfl, rfl⟩
  | cons request rest inductionHypothesis =>
      obtain ⟨pageExists, filled⟩ := loadable request List.mem_cons_self
      obtain ⟨page, requested⟩ := Option.isSome_iff_exists.mp pageExists
      rw [List.length_cons] at available
      rw [List.map_cons, List.nodup_cons] at distinct
      obtain ⟨between, entry, firstRan, calls, mapper⟩ := loadRequest_windowFrames
        (by omega : machine.allocated < limit) fits requested filled
        (unmapped request List.mem_cons_self page requested)
      have stillUnmapped : ∀ later ∈ rest, ∀ other, later.page = some other →
          between.mapper other = none := by
        intro later member other laterRequested
        have otherPage : other ≠ page := by
          rintro rfl
          apply distinct.1
          rw [requested, ← laterRequested]
          exact List.mem_map_of_mem member
        rw [mapper, Function.update_of_ne otherPage]
        exact unmapped later (List.mem_cons_of_mem request member) other laterRequested
      obtain ⟨after, restRan, afterCalls⟩ := inductionHypothesis between (by omega)
        (fun later member => loadable later (List.mem_cons_of_mem request member)) distinct.2
        stillUnmapped
      refine ⟨after, ?_, by rw [List.length_cons]; omega⟩
      rw [List.forM_cons, run_bind, firstRan]
      exact restRan

/-- When the frames run out after the first requests, nothing more is mapped. -/
theorem loadRequests_exhausted {limit : Nat} (request : Request) (rest : List Request)
    (machine : Machine (Page → Option (PhysFrame × PageTableFlags)))
    (exhausted : limit ≤ machine.allocated) :
    (forM (request :: rest) (loadRequest (flatPaging (windowFrames limit)) lowWindow)).run.run
        machine =
      some (.error .frameAllocFailed, { machine with allocated := machine.allocated + 1 }) := by
  have answer : windowFrames limit machine.allocated = none := by
    rw [windowFrames, dif_neg (by omega)]
  have stopped := (loadRequest_returns_iff (flatPaging (windowFrames limit)) lowWindow request
    machine _ _).mpr (Or.inl ⟨answer, rfl, rfl⟩)
  rw [List.forM_cons, run_bind, stopped]
  rfl

theorem mapped_of_loaded {μ : Type} {paging : Paging μ} (exactly : paging.MapsExactly)
    {physOffset : VirtAddr} {requests : List Request} {before after : Machine μ}
    (ran : (forM requests (loadRequest paging physOffset)).run.run before = some (.ok (), after))
    {request : Request} {page : Page} (requested : request.page = some page)
    (member : request ∈ requests) :
    ∃ frame, paging.mappings after.mapper page = some (frame, request.segment.flags) := by
  obtain ⟨grants, rest, split, loaded, ⟨-, rfl⟩ | ⟨⟨failure, impossible⟩, -⟩⟩ :=
    loadRequests_grants exactly ran
  · rw [split, List.append_nil] at member
    obtain ⟨grant, inGrants, rfl⟩ := List.mem_map.mp member
    obtain rfl := Option.some.inj ((loaded.holds grant inGrants).requested.symm.trans requested)
    exact ⟨grant.frame, by rw [loaded.mappings, foldl_install_of_mem loaded.pagesDistinct inGrants]⟩
  · cases impossible

def unmappedMachine : Machine (Page → Option (PhysFrame × PageTableFlags)) where
  mapper := fun _ => none
  allocated := 0
  memory := fun _ => 0

/-- With frames for exactly the pages up to the one in the kernel half, the loader
maps that page and returns. -/
theorem load_maps_kernelHalf {bytes : List U8} (reaches : ReachesKernelHalf bytes) :
    ∃ limit after result,
      (load (flatPaging (windowFrames limit)) lowWindow bytes).run.run unmappedMachine =
        some (result, after) ∧
      ∃ page frame flags, after.mapper page = some (frame, flags) ∧ flags.userAccessible = true ∧
        2 ^ 47 ≤ page.startAddress.value.toNat := by
  have accepted : IsExecutable bytes := reaches.1
  have parsed := (elfHeader_ok_iff bytes).mpr accepted
  obtain ⟨earlier, request, rest, page, split, requested, kernelHalf, loadable, distinct, fits,
    complete⟩ := (reachesKernelHalf_iff_plan accepted).mp reaches
  have fitsAll : earlier.length + 1 ≤ 2 ^ 35 := fits
  obtain ⟨between, frontRan, calls⟩ := loadRequests_windowFrames fitsAll (earlier ++ [request])
    unmappedMachine (by simp [unmappedMachine]) loadable distinct (fun _ _ _ _ => rfl)
  have mapped := mapped_of_loaded (flatPaging_sound windowFrames_injective).toMapsExactly
    frontRan requested (List.mem_append_right _ List.mem_cons_self)
  have userPage : request.segment.flags.userAccessible = true := by
    apply planFrom_userAccessible bytes (fileHeader bytes) (List.range (headerCount bytes))
    show request ∈ (plan bytes (fileHeader bytes)).1
    rw [split]
    exact List.mem_append_right _ List.mem_cons_self
  obtain ⟨frame, entry⟩ := mapped
  refine ⟨earlier.length + 1, ?_⟩
  cases rest with
  | nil =>
      obtain ⟨ending, planned⟩ := Option.isSome_iff_exists.mp (complete rfl)
      rw [← split] at frontRan
      exact ⟨between, _, (load_returns_iff ..).mpr (Or.inr ⟨_, parsed,
        Or.inr ⟨frontRan, ending, planned, rfl⟩⟩), page, frame, _, entry, userPage, kernelHalf⟩
  | cons next more =>
      have limitReached : earlier.length + 1 ≤ between.allocated := by
        rw [calls, List.length_append]
        exact Nat.le_add_left _ _
      have wholeRan : (forM (plan bytes (fileHeader bytes)).1
          (loadRequest (flatPaging (windowFrames (earlier.length + 1))) lowWindow)).run.run
            unmappedMachine =
          some (.error .frameAllocFailed, { between with allocated := between.allocated + 1 }) := by
        rw [split, List.append_cons, List.forM_append, run_bind, frontRan]
        exact loadRequests_exhausted next more between limitReached
      exact ⟨_, _, (load_returns_iff ..).mpr (Or.inr ⟨_, parsed, Or.inl ⟨_, wholeRan, rfl⟩⟩),
        page, frame, _, entry, userPage, kernelHalf⟩

/-- The loader keeps user pages out of the kernel half exactly for the files that do
not ask for a page there, or that stop the loader before it. -/
theorem load_stays_in_lower_half_iff (bytes : List U8) :
    StaysInLowerHalf bytes ↔ ¬ ReachesKernelHalf bytes := by
  constructor
  · intro stays reaches
    obtain ⟨limit, after, result, returned, page, frame, flags, mapped, userPage, kernelHalf⟩ :=
      load_maps_kernelHalf reaches
    have below := stays _ (flatPaging (windowFrames limit)) (flatPaging_sound windowFrames_injective)
      (flatPaging_obliging _) lowWindow unmappedMachine after result returned page frame flags mapped
      (by intro impossible; cases impossible) userPage
    omega
  · intro unreachable μ paging sound _ physOffset machine after result returned page frame flags
      mapped isNew _
    by_contra above
    refine unreachable (reachesKernelHalf_of_mapped sound returned mapped isNew ?_)
    obtain ⟨pageNumber, aligned⟩ := page.aligned
    omega

def firstKernelPage : Page := ⟨⟨0xFFFF800000000000, by decide⟩, by decide⟩

/-- A file whose segment lies there is loaded, and the user may execute the page. -/
theorem run_first_kernel_page :
    ((load (flatPaging conventionalMemory.frame) lowWindow
        (oneSegmentElf 0xFFFF800000000000 [0xEB, 0xFE])).run.run unmappedMachine).map
          (fun outcome => (outcome.1.toOption, outcome.2.mapper firstKernelPage)) =
      some (some 0xFFFF800000000000, some (⟨⟨0x1000, by decide⟩, by decide⟩,
        { present := true, writable := false, userAccessible := true, noExecute := false })) := by
  decide +kernel

theorem load_maps_first_kernel_page :
    ¬ StaysInLowerHalf (oneSegmentElf 0xFFFF800000000000 [0xEB, 0xFE]) := by
  intro stays
  obtain ⟨⟨result, after⟩, returned, outcome⟩ := Option.map_eq_some_iff.mp run_first_kernel_page
  have below := stays _ (flatPaging conventionalMemory.frame)
    (flatPaging_sound conventionalMemory.frame_injective) (flatPaging_obliging _) lowWindow
    unmappedMachine after result returned firstKernelPage _ _ (Prod.mk.inj outcome).2
    (by intro impossible; cases impossible) rfl
  exact absurd below (by decide)

end AxiomKernel.User
