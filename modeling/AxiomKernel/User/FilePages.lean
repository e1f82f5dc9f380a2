import Mathlib
import AxiomKernel.Lib.Bytes
import AxiomKernel.Lib.SteppedRange
import AxiomKernel.Memory.Paging
import AxiomKernel.User.ElfLoader
import AxiomKernel.User.ElfFormat
import AxiomKernel.User.LoadPlan

/-!
# The pages of a file

Which pages a file asks for, in the terms of the format: the program headers are read in
their order up to the first that is refused or stops the loader, and every `PT_LOAD` header
among them asks for the pages it covers.  `ReadsUpTo.plan_pages` says that this is what the
loader sets out to do.
-/

set_option autoImplicit false

namespace AxiomKernel.User

open ByteStrings SteppedRanges Memory

/-! ## Headers -/

/-- A `PT_LOAD` header that the loader accepts. -/
structure ProgramHeader.Fits (bytes : List U8) (header : ProgramHeader) : Prop where
  vaddrLt : header.vaddr < 2 ^ 64
  fileszLt : header.filesz < 2 ^ 64
  inFile : header.offset + header.filesz ≤ bytes.length
  pagesFit : header.vaddr + header.memsz + 4095 < 2 ^ 64

/-- The sums over the header's addresses fit, and its pages are canonical. -/
def ProgramHeader.Addressable (header : ProgramHeader) : Prop :=
  header.vaddr + header.memsz + 4095 < 2 ^ 64 ∧
    ∀ vpage, header.Covers vpage → 4096 ∣ vpage →
      Canonical (BitVec.ofNat 64 vpage) ∧ header.vaddr + header.filesz < 2 ^ 64

/-- Program header `i` makes the loader return an error. -/
def HeaderRefused (bytes : List U8) (i : Nat) : Prop :=
  let start := headerStart bytes i
  let header := programHeaderAt bytes start
  bytes.length < start + headerSize bytes ∨
    (header.type = 1 ∧ bytes.length < header.offset + header.filesz)

/-- Program header `i` does not make the loader panic. -/
def HeaderSafe (bytes : List U8) (i : Nat) : Prop :=
  let start := headerStart bytes i
  let header := programHeaderAt bytes start
  start + headerSize bytes < 2 ^ 64 ∧
    (bytes.length < start + headerSize bytes ∨
      (start + 4 ≤ bytes.length ∧
        (header.type ≠ 1 ∨
          (start + 56 ≤ bytes.length ∧ header.offset + header.filesz < 2 ^ 64 ∧
            (bytes.length < header.offset + header.filesz ∨ header.Addressable)))))

/-- Program header `i` is read to its end: it is inside the file, and so is the segment of a
`PT_LOAD` header. -/
def HeaderRead (bytes : List U8) (i : Nat) : Prop :=
  let start := headerStart bytes i
  let header := programHeaderAt bytes start
  start + headerSize bytes < 2 ^ 64 ∧ start + headerSize bytes ≤ bytes.length ∧
    start + 4 ≤ bytes.length ∧
    (header.type = 1 → start + 56 ≤ bytes.length ∧ header.offset + header.filesz < 2 ^ 64 ∧
      header.Fits bytes)

/-- The program headers before `stop` are read; `stop` is the first one that is not, or the end
of the table. -/
structure ReadsUpTo (bytes : List U8) (stop : Nat) : Prop where
  inTable : stop ≤ headerCount bytes
  read : ∀ i < stop, HeaderRead bytes i
  stops : stop < headerCount bytes → ¬ HeaderRead bytes stop

theorem ReadsUpTo.unique {bytes : List U8} {stop other : Nat} (reads : ReadsUpTo bytes stop)
    (otherReads : ReadsUpTo bytes other) : stop = other := by
  rcases Nat.lt_trichotomy stop other with before | same | after
  · have inTable := otherReads.inTable
    exact absurd (otherReads.read stop before) (reads.stops (by omega))
  · exact same
  · have inTable := reads.inTable
    exact absurd (reads.read other after) (otherReads.stops (by omega))

/-- How reading program header `i` can end. -/
theorem programHeader_cases {bytes : List U8} {i : Nat} (listed : i < headerCount bytes) :
    let header := programHeaderAt bytes (headerStart bytes i)
    let read := programHeader bytes (fileHeader bytes) i
    (read = none ∧ ¬ HeaderRead bytes i ∧ ¬ HeaderSafe bytes i) ∨
      ((∃ failure, read = some (.error failure)) ∧ ¬ HeaderRead bytes i ∧ HeaderSafe bytes i ∧
        HeaderRefused bytes i) ∨
      (read = some (.ok none) ∧ HeaderRead bytes i ∧ header.type ≠ 1 ∧ HeaderSafe bytes i ∧
        ¬ HeaderRefused bytes i) ∨
      (read = some (.ok (some (header.segment bytes))) ∧ HeaderRead bytes i ∧ header.type = 1 ∧
        header.Fits bytes ∧ (HeaderSafe bytes i ↔ header.Addressable) ∧
        ¬ HeaderRefused bytes i) := by
  obtain ⟨-, vaddrLt, fileszLt, -⟩ := programHeaderAt_lt bytes (headerStart bytes i)
  have readEq := programHeader_eq bytes listed
  rw [HeaderSafe, HeaderRefused, HeaderRead]
  dsimp only at readEq ⊢
  generalize programHeaderAt bytes (headerStart bytes i) = header at *
  generalize programHeader bytes (fileHeader bytes) i = read at *
  split_ifs at readEq with overflow outside noType otherType truncated fileOverflow outOfBounds
    wraps <;> subst readEq
  · exact Or.inl ⟨rfl, by omega, by omega⟩
  · exact Or.inr (Or.inl ⟨⟨_, rfl⟩, by omega, ⟨by omega, Or.inl outside⟩, Or.inl outside⟩)
  · exact Or.inl ⟨rfl, by omega, by omega⟩
  · exact Or.inr (Or.inr (Or.inl ⟨rfl, ⟨by omega, by omega, by omega,
      fun isLoad => absurd isLoad otherType⟩, otherType,
      ⟨by omega, Or.inr ⟨by omega, Or.inl otherType⟩⟩, by omega⟩))
  · exact Or.inl ⟨rfl, fun whole => by have := whole.2.2.2 (not_not.mp otherType); omega, by omega⟩
  · exact Or.inl ⟨rfl, fun whole => by have := whole.2.2.2 (not_not.mp otherType); omega, by omega⟩
  · have isLoad := not_not.mp otherType
    refine Or.inr (Or.inl ⟨⟨_, rfl⟩, ?_, ⟨by omega, Or.inr ⟨by omega, Or.inr ⟨by omega, by omega,
      Or.inl outOfBounds⟩⟩⟩, Or.inr ⟨isLoad, outOfBounds⟩⟩)
    intro whole
    exact absurd (whole.2.2.2 isLoad).2.2.inFile (Nat.not_le.mpr outOfBounds)
  · have isLoad := not_not.mp otherType
    refine Or.inl ⟨rfl, ?_, ?_⟩
    · intro whole
      exact absurd (whole.2.2.2 isLoad).2.2.pagesFit (Nat.not_lt.mpr wraps)
    · rintro ⟨-, outside' | ⟨-, otherType' | ⟨-, -, outOfBounds' | ⟨fits, -⟩⟩⟩⟩
      · exact outside outside'
      · exact otherType otherType'
      · exact outOfBounds outOfBounds'
      · omega
  · have isLoad := not_not.mp otherType
    have fits : header.Fits bytes := ⟨vaddrLt, fileszLt, by omega, by omega⟩
    refine Or.inr (Or.inr (Or.inr ⟨rfl, ⟨by omega, by omega, by omega,
      fun _ => ⟨by omega, by omega, fits⟩⟩, isLoad, fits, ?_, by omega⟩))
    constructor
    · rintro ⟨-, outside' | ⟨-, otherType' | ⟨-, -, outOfBounds' | addressable⟩⟩⟩
      · exact absurd outside' outside
      · exact absurd otherType' otherType
      · exact absurd outOfBounds' outOfBounds
      · exact addressable
    · intro addressable
      exact ⟨by omega, Or.inr ⟨by omega, Or.inr ⟨by omega, by omega, Or.inr addressable⟩⟩⟩

/-! ## Pages -/

/-- The pages the header covers, in ascending order. -/
def ProgramHeader.pages (header : ProgramHeader) : List Nat :=
  stepBy header.firstPage header.pagesEnd 4096

theorem ProgramHeader.mem_pages_iff (header : ProgramHeader) (vpage : Nat) :
    vpage ∈ header.pages ↔ header.Covers vpage ∧ 4096 ∣ vpage := by
  rw [pages, mem_stepBy_iff (by decide : 0 < 4096), Covers, firstPage]
  omega

/-- The pages that `PT_LOAD` headers ask for, each with its header. -/
def pagesOf (headers : List ProgramHeader) : List (ProgramHeader × Nat) :=
  (headers.filter fun header => header.type = 1).flatMap fun header =>
    header.pages.map fun vpage => (header, vpage)

/-- The pages that the program headers before `stop` ask for, in their order. -/
def askedPages (bytes : List U8) (stop : Nat) : List (ProgramHeader × Nat) :=
  pagesOf ((programHeaders bytes).take stop)

/-- The page exists, and the end of the file's part of the segment is an address. -/
def PageLoadable (asked : ProgramHeader × Nat) : Prop :=
  Canonical (BitVec.ofNat 64 asked.2) ∧ asked.1.vaddr + asked.1.filesz < 2 ^ 64

/-- What the loader works with for a page. -/
def askedRequest (bytes : List U8) (asked : ProgramHeader × Nat) : Request :=
  ⟨asked.1.segment bytes, BitVec.ofNat 64 asked.2⟩

theorem Page.ext_toNat {page other : Page}
    (same : page.startAddress.value.toNat = other.startAddress.value.toNat) : page = other := by
  obtain ⟨⟨value, canonical⟩, aligned⟩ := page
  obtain ⟨⟨otherValue, otherCanonical⟩, otherAligned⟩ := other
  obtain rfl : value = otherValue := BitVec.toNat_inj.mp same
  rfl

theorem page_toNat {segment : Segment} {vpage : Nat} (fits : vpage < 2 ^ 64)
    (aligned : 4096 ∣ vpage) {page : Page}
    (requested : Request.page ⟨segment, BitVec.ofNat 64 vpage⟩ = some page) :
    page.startAddress.value.toNat = vpage := by
  rw [Request.page, Option.map_eq_some_iff] at requested
  obtain ⟨address, isCanonical, rfl⟩ := requested
  rw [VirtAddr.new] at isCanonical
  split at isCanonical
  case isFalse => cases isCanonical
  case isTrue canonical =>
    obtain rfl := Option.some.inj isCanonical
    show (alignDown (BitVec.ofNat 64 vpage)).toNat = vpage
    rw [alignDown_toNat, BitVec.toNat_ofNat, Nat.mod_eq_of_lt fits, Nat.div_mul_cancel aligned]

namespace ProgramHeader.Fits

variable {bytes : List U8} {header : ProgramHeader} (fits : header.Fits bytes)
include fits

theorem covers_lt {address : Nat} (covered : header.Covers address) (aligned : 4096 ∣ address) :
    address + 4096 < 2 ^ 64 := by
  have pagesFit := fits.pagesFit
  obtain ⟨number, rfl⟩ := aligned
  rw [Covers, pagesEnd] at covered
  omega

theorem requests_eq :
    (header.segment bytes).requests =
      header.pages.map fun vpage => askedRequest bytes (header, vpage) := by
  have pagesFit := fits.pagesFit
  have start : (header.segment bytes).startPage.toNat = header.firstPage := by
    rw [segment, BitVec.toNat_ofNat, Nat.mod_eq_of_lt]
    rw [firstPage]
    omega
  have stop : (header.segment bytes).endPage.toNat = header.pagesEnd := by
    rw [segment, BitVec.toNat_ofNat, Nat.mod_eq_of_lt]
    rw [pagesEnd]
    omega
  rw [Segment.requests, start, stop]
  rfl

theorem mem_requests_iff (request : Request) :
    request ∈ (header.segment bytes).requests ↔ ∃ vpage, header.Covers vpage ∧ 4096 ∣ vpage ∧
      request = ⟨header.segment bytes, BitVec.ofNat 64 vpage⟩ := by
  rw [fits.requests_eq, List.mem_map]
  simp only [mem_pages_iff, and_assoc, askedRequest, eq_comm]

theorem loadable_iff {vpage : Nat} (pageFits : vpage + 4096 < 2 ^ 64) :
    (askedRequest bytes (header, vpage)).Loadable ↔ PageLoadable (header, vpage) := by
  have page : (askedRequest bytes (header, vpage)).page.isSome ↔
      Canonical (BitVec.ofNat 64 vpage) := by
    rw [askedRequest, Request.page, Option.isSome_map, VirtAddr.new]
    split
    case isTrue canonical => simp [canonical]
    case isFalse notCanonical => simp [notCanonical]
  have contents : (pageContents (header.segment bytes) (BitVec.ofNat 64 vpage)).isSome ↔
      header.vaddr + header.filesz < 2 ^ 64 := by
    rw [pageContents_segment fits.vaddrLt fits.fileszLt fits.inFile pageFits]
    dsimp only
    split_ifs with overflow copies
    · exact iff_of_false (by simp) (Nat.not_lt.mpr overflow)
    · exact iff_of_true rfl (Nat.not_le.mp overflow)
    · exact iff_of_true rfl (Nat.not_le.mp overflow)
  rw [Request.Loadable, page, PageLoadable]
  exact and_congr_right fun _ => contents

end ProgramHeader.Fits

/-! ## The loader's plan -/

/-- How reading the headers ends when `stop` is the first that is not read. -/
def EndsAt (bytes : List U8) (stop : Nat) (ending : Option (Except ElfError Unit)) : Prop :=
  (stop = headerCount bytes ∧ ending = some (.ok ())) ∨
    (stop < headerCount bytes ∧ HeaderSafe bytes stop ∧ ∃ failure, ending = some (.error failure)) ∨
    (stop < headerCount bytes ∧ ¬ HeaderSafe bytes stop ∧ ending = none)

/-- Read from header `first` on, the plan has the pages of the headers up to the first one that
is not read, and ends as that header says. -/
theorem planFrom_pages (bytes : List U8) (count first : Nat)
    (ends : first + count = headerCount bytes) :
    ∃ read, first + read ≤ headerCount bytes ∧
      (∀ i, first ≤ i → i < first + read → HeaderRead bytes i) ∧
      (first + read < headerCount bytes → ¬ HeaderRead bytes (first + read)) ∧
      (planFrom bytes (fileHeader bytes) (List.range' first count)).1 =
        (pagesOf ((List.range' first read).map fun i =>
          programHeaderAt bytes (headerStart bytes i))).map (askedRequest bytes) ∧
      EndsAt bytes (first + read)
        (planFrom bytes (fileHeader bytes) (List.range' first count)).2 := by
  induction count generalizing first with
  | zero =>
      exact ⟨0, ends.le, fun i above below => by omega, fun below => by omega, rfl,
        Or.inl ⟨ends, rfl⟩⟩
  | succ count inductionHypothesis =>
      have listed : first < headerCount bytes := by omega
      obtain ⟨read, inTable, readRest, stops, pages, ending⟩ :=
        inductionHypothesis (first + 1) (by omega)
      have next : first + 1 + read = first + (read + 1) := by omega
      rw [next] at inTable stops ending
      have readMore : HeaderRead bytes first →
          ∀ i, first ≤ i → i < first + (read + 1) → HeaderRead bytes i := by
        intro readFirst i above below
        rcases Nat.eq_or_lt_of_le above with rfl | later
        · exact readFirst
        · exact readRest i later (by omega)
      rw [List.range'_succ, planFrom]
      rcases programHeader_cases listed with
        ⟨outcome, notRead, panics⟩ | ⟨⟨failure, outcome⟩, notRead, safe, -⟩ |
          ⟨outcome, readFirst, otherType, -⟩ | ⟨outcome, readFirst, isLoad, fits, -⟩
      · rw [outcome]
        exact ⟨0, listed.le, fun i above below => by omega, fun _ => notRead, rfl,
          Or.inr (Or.inr ⟨listed, panics, rfl⟩)⟩
      · rw [outcome]
        exact ⟨0, listed.le, fun i above below => by omega, fun _ => notRead, rfl,
          Or.inr (Or.inl ⟨listed, safe, failure, rfl⟩)⟩
      · rw [outcome]
        refine ⟨read + 1, inTable, readMore readFirst, stops, ?_, ending⟩
        rw [pages, List.range'_succ, List.map_cons, pagesOf, pagesOf,
          List.filter_cons_of_neg (by simpa using otherType)]
      · rw [outcome]
        refine ⟨read + 1, inTable, readMore readFirst, stops, ?_, ending⟩
        show Segment.requests _ ++ (planFrom bytes (fileHeader bytes) _).1 = _
        rw [pages, fits.requests_eq, List.range'_succ, List.map_cons, pagesOf, pagesOf,
          List.filter_cons_of_pos (by simpa using isLoad), List.flatMap_cons, List.map_append,
          List.map_map]
        rfl

theorem take_programHeaders {bytes : List U8} {stop : Nat} (inTable : stop ≤ headerCount bytes) :
    (programHeaders bytes).take stop =
      (List.range' 0 stop).map fun i => programHeaderAt bytes (headerStart bytes i) := by
  rw [programHeaders, ← List.map_take, List.take_range, Nat.min_eq_left inTable,
    List.range_eq_range']

theorem exists_readsUpTo (bytes : List U8) :
    ∃ stop, ReadsUpTo bytes stop ∧
      (plan bytes (fileHeader bytes)).1 = (askedPages bytes stop).map (askedRequest bytes) ∧
      EndsAt bytes stop (plan bytes (fileHeader bytes)).2 := by
  obtain ⟨stop, inTable, read, stops, pages, ending⟩ :=
    planFrom_pages bytes (headerCount bytes) 0 (Nat.zero_add _)
  rw [Nat.zero_add] at inTable read stops ending
  rw [← List.range_eq_range'] at pages ending
  refine ⟨stop, ⟨inTable, fun i => read i (Nat.zero_le i), stops⟩, ?_, ending⟩
  rw [askedPages, take_programHeaders inTable]
  exact pages

namespace ReadsUpTo

variable {bytes : List U8} {stop : Nat} (reads : ReadsUpTo bytes stop)
include reads

/-- The loader sets out to load the pages the file asks for, in their order. -/
theorem plan_pages :
    (plan bytes (fileHeader bytes)).1 = (askedPages bytes stop).map (askedRequest bytes) := by
  obtain ⟨other, otherReads, pages, -⟩ := exists_readsUpTo bytes
  rw [reads.unique otherReads]
  exact pages

theorem plan_ends : EndsAt bytes stop (plan bytes (fileHeader bytes)).2 := by
  obtain ⟨other, otherReads, -, ending⟩ := exists_readsUpTo bytes
  rw [reads.unique otherReads]
  exact ending

theorem plan_returns_iff :
    (plan bytes (fileHeader bytes)).2.isSome ↔
      (stop < headerCount bytes → HeaderSafe bytes stop) := by
  rcases reads.plan_ends with ⟨atEnd, ending⟩ | ⟨-, safe, failure, ending⟩ | ⟨inTable, panics, ending⟩
  · simp [ending, atEnd]
  · simp [ending, safe]
  · simp [ending, panics, inTable]

theorem plan_error_iff :
    (∃ failure, (plan bytes (fileHeader bytes)).2 = some (.error failure)) ↔
      stop < headerCount bytes ∧ HeaderSafe bytes stop := by
  rcases reads.plan_ends with ⟨atEnd, ending⟩ | ⟨inTable, safe, failure, ending⟩ | ⟨-, panics, ending⟩
  · simp [ending, atEnd]
  · simp [ending, safe, inTable]
  · simp [ending, panics]

/-- The headers that ask for pages are accepted, and the pages are covered by them. -/
theorem fits_of_mem {asked : ProgramHeader × Nat} (member : asked ∈ askedPages bytes stop) :
    asked.1.Fits bytes ∧ asked.1.Covers asked.2 ∧ 4096 ∣ asked.2 := by
  rw [askedPages, pagesOf, List.mem_flatMap] at member
  obtain ⟨header, listed, ofHeader⟩ := member
  obtain ⟨vpage, isPage, rfl⟩ := List.mem_map.mp ofHeader
  rw [List.mem_filter, take_programHeaders reads.inTable, List.mem_map] at listed
  obtain ⟨⟨i, inRange, rfl⟩, isLoad⟩ := listed
  have below : i < stop := by
    have bounds := List.mem_range'_1.mp inRange
    omega
  have whole := (reads.read i below).2.2.2 (by simpa using isLoad)
  exact ⟨whole.2.2, (ProgramHeader.mem_pages_iff _ _).mp isPage⟩

theorem page_lt {asked : ProgramHeader × Nat} (member : asked ∈ askedPages bytes stop) :
    asked.2 + 4096 < 2 ^ 64 := by
  obtain ⟨fits, covered, aligned⟩ := reads.fits_of_mem member
  exact fits.covers_lt covered aligned

theorem loadable_iff {asked : ProgramHeader × Nat} (member : asked ∈ askedPages bytes stop) :
    (askedRequest bytes asked).Loadable ↔ PageLoadable asked :=
  (reads.fits_of_mem member).1.loadable_iff (reads.page_lt member)

theorem page_start {asked : ProgramHeader × Nat} (member : asked ∈ askedPages bytes stop)
    {page : Page} (requested : (askedRequest bytes asked).page = some page) :
    page.startAddress.value.toNat = asked.2 := by
  have pageLt := reads.page_lt member
  exact page_toNat (by omega) (reads.fits_of_mem member).2.2 requested

end ReadsUpTo

end AxiomKernel.User
