import Mathlib
import AxiomKernel.Lib.Bytes
import AxiomKernel.Lib.SteppedRange
import AxiomKernel.Lib.ByteMemory
import AxiomKernel.Lib.TwoRun
import AxiomKernel.Memory.Paging
import AxiomKernel.User.ElfLoader

/-!
# What a file asks the loader to do

The headers do not depend on the machine, so a file determines beforehand which
pages `load` will try to map, in which order, and how reading the headers ends.
`load_eq_plan` says that `load` works through this plan; `LoadsGrants` is what a
run that returns has done: it mapped the pages of some first requests.
-/

set_option autoImplicit false

namespace AxiomKernel.User

open ByteStrings SteppedRanges TwoRuns Memory ByteMemory

/-! ## The plan -/

structure Request where
  segment : Segment
  vpage : U64

def Segment.requests (segment : Segment) : List Request :=
  (stepBy segment.startPage.toNat segment.endPage.toNat 4096).map fun vpage =>
    ⟨segment, BitVec.ofNat 64 vpage⟩

/-- The requests of the program headers `indices`, and how reading them ends: a
panic (`none`), an error or the end of the headers. -/
def planFrom (bytes : List U8) (header : ElfHeader) :
    List Nat → List Request × Option (Except ElfError Unit)
  | [] => ([], some (.ok ()))
  | i :: rest =>
      match programHeader bytes header i with
      | none => ([], none)
      | some (.error failure) => ([], some (.error failure))
      | some (.ok none) => planFrom bytes header rest
      | some (.ok (some segment)) =>
          (segment.requests ++ (planFrom bytes header rest).1, (planFrom bytes header rest).2)

def plan (bytes : List U8) (header : ElfHeader) : List Request × Option (Except ElfError Unit) :=
  planFrom bytes header (List.range header.phnum)

/-- The page the request is for; `VirtAddr::new` panics when there is none. -/
def Request.page (request : Request) : Option Page :=
  (VirtAddr.new request.vpage).map Page.containingAddress

/-- The page exists and copying the segment's bytes into it does not panic. -/
def Request.Loadable (request : Request) : Prop :=
  request.page.isSome ∧ (pageContents request.segment request.vpage).isSome

section Loader

variable {μ : Type} (paging : Paging μ) (physOffset : VirtAddr)

def loadRequest (request : Request) : ExceptT ElfError (StateT (Machine μ) Option) Unit :=
  loadPage paging physOffset request.segment request.vpage

theorem forM_loadSegment_eq (bytes : List U8) (header : ElfHeader) (indices : List Nat) :
    forM indices (loadSegment paging physOffset bytes header) =
      (do
        forM (planFrom bytes header indices).1 (loadRequest paging physOffset)
        stateless (planFrom bytes header indices).2) := by
  induction indices with
  | nil => rfl
  | cons i rest inductionHypothesis =>
      rw [List.forM_cons, inductionHypothesis, loadSegment, planFrom]
      cases programHeader bytes header i with
      | none => rfl
      | some parsed =>
          cases parsed with
          | error failure => rfl
          | ok segment? =>
              cases segment? with
              | none => rfl
              | some segment =>
                  rw [stateless_ok_bind, List.forM_append, bind_assoc, Segment.requests,
                    List.forM_map]
                  rfl

theorem load_eq_plan (bytes : List U8) :
    load paging physOffset bytes =
      (do
        let header ← stateless (elfHeader bytes)
        forM (plan bytes header).1 (loadRequest paging physOffset)
        stateless (plan bytes header).2
        return header.entry) := by
  rw [load]
  congr 1
  funext header
  have segments := forM_loadSegment_eq paging physOffset bytes header (List.range header.phnum)
  rw [List.forM_eq_forM, segments, bind_assoc]
  rfl

/-- All the ways in which `load` returns. -/
theorem load_returns_iff (bytes : List U8) (machine after : Machine μ)
    (result : Except ElfError U64) :
    (load paging physOffset bytes).run.run machine = some (result, after) ↔
      (∃ failure, elfHeader bytes = some (.error failure) ∧ result = .error failure ∧
        after = machine) ∨
      ∃ header, elfHeader bytes = some (.ok header) ∧
        ((∃ failure, (forM (plan bytes header).1 (loadRequest paging physOffset)).run.run machine =
            some (.error failure, after) ∧ result = .error failure) ∨
          ((forM (plan bytes header).1 (loadRequest paging physOffset)).run.run machine =
            some (.ok (), after) ∧
            ∃ ending, (plan bytes header).2 = some ending ∧
              result = ending.map fun _ => header.entry)) := by
  rw [load_eq_plan]
  rcases elfHeader bytes with _ | failure | header
  · rw [stateless_panic_bind, run_stateless]
    simp
  · rw [stateless_error_bind, run_stateless]
    simp [eq_comm]
  · rw [stateless_ok_bind, run_bind, Option.bind_eq_some_iff]
    constructor
    · rintro ⟨⟨failure | _, between⟩, ran, rest⟩
      · obtain ⟨rfl, rfl⟩ := Prod.mk.inj (Option.some.inj rest)
        exact Or.inr ⟨header, rfl, Or.inl ⟨failure, ran, rfl⟩⟩
      · rw [run_bind, run_stateless, Option.bind_map, Option.bind_eq_some_iff] at rest
        obtain ⟨ending, planned, final⟩ := rest
        refine Or.inr ⟨header, rfl, Or.inr ?_⟩
        rcases ending with failure | _
        · obtain ⟨rfl, rfl⟩ := Prod.mk.inj (Option.some.inj final)
          exact ⟨ran, _, planned, rfl⟩
        · obtain ⟨rfl, rfl⟩ := Prod.mk.inj (Option.some.inj final)
          exact ⟨ran, _, planned, rfl⟩
    · rintro (⟨failure, impossible, -⟩ | ⟨_, same, stopped | ⟨ran, ending, planned, rfl⟩⟩)
      · cases impossible
      · obtain rfl := Except.ok.inj (Option.some.inj same)
        obtain ⟨failure, ran, rfl⟩ := stopped
        exact ⟨(.error failure, after), ran, rfl⟩
      · obtain rfl := Except.ok.inj (Option.some.inj same)
        refine ⟨(.ok (), after), ran, ?_⟩
        simp only [run_bind, run_stateless, planned, Option.map_some, Option.bind_some]
        rcases ending with failure | _ <;> rfl

/-! ## One request -/

/-- What a request that is granted `frame` leaves behind. -/
def Machine.filled (mapped : Machine μ) (frame : PhysFrame) (dstOff : Nat) (contents : List U8) :
    Machine μ :=
  { mapped with
    memory := writeBytes (writeBytes mapped.memory frame.startAddress.value (List.replicate 4096 0))
      (frame.startAddress.value + dstOff) contents }

/-- All that one turn of the page loop can do when it returns. -/
theorem loadRequest_returns_iff (request : Request) (machine after : Machine μ)
    (result : Except ElfError Unit) :
    (loadRequest paging physOffset request).run.run machine = some (result, after) ↔
      (paging.frames machine.allocated = none ∧ result = .error .frameAllocFailed ∧
        after = { machine with allocated := machine.allocated + 1 }) ∨
      ∃ frame page, paging.frames machine.allocated = some frame ∧ request.page = some page ∧
        ((∃ failure, result = .error .pageMapFailed ∧
            paging.mapTo page frame request.segment.flags
              { machine with allocated := machine.allocated + 1 } = (.error failure, after)) ∨
          ∃ mapped kv dstOff contents, result = .ok () ∧
            paging.mapTo page frame request.segment.flags
              { machine with allocated := machine.allocated + 1 } = (.ok (), mapped) ∧
            physOffset.add (BitVec.ofNat 64 frame.startAddress.value) = some kv ∧
            pageContents request.segment request.vpage = some (dstOff, contents) ∧
            after = Machine.filled mapped frame dstOff contents) := by
  simp only [loadRequest, loadPage, Machine.filled, run_perform_bind, paging.run_allocateFrame,
    Option.bind_some]
  generalize List.replicate 4096 (0 : U8) = zeros
  cases available : paging.frames machine.allocated with
  | none =>
      simp only [run_throw, Option.some.injEq, Prod.mk.injEq]
      constructor
      · rintro ⟨rfl, rfl⟩
        exact Or.inl ⟨trivial, rfl, rfl⟩
      · rintro (⟨-, rfl, rfl⟩ | ⟨frame, page, impossible, -⟩)
        · exact ⟨rfl, rfl⟩
        · cases impossible
  | some frame =>
      simp only [run_perform_bind, run_panicOr, Request.page, paging.run_map, Option.bind_map,
        Function.comp_def, Option.bind_some]
      cases VirtAddr.new request.vpage with
      | none => simp
      | some address =>
          simp only [Option.bind_some, Option.map_some, Option.some.injEq, reduceCtorEq, false_and,
            false_or]
          rcases outcome : paging.mapTo (Page.containingAddress address) frame request.segment.flags
            { machine with allocated := machine.allocated + 1 } with ⟨failure | _, mapped⟩
          · constructor
            · intro returned
              obtain ⟨rfl, rfl⟩ := Prod.mk.inj (Option.some.inj returned)
              exact ⟨frame, _, rfl, rfl, Or.inl ⟨failure, rfl, outcome⟩⟩
            · rintro ⟨_, _, rfl, rfl, ⟨_, rfl, same⟩ | ⟨_, _, _, _, _, same, _⟩⟩
              · obtain ⟨-, rfl⟩ := Prod.mk.inj (outcome.symm.trans same)
                rfl
              · cases outcome.symm.trans same
          · constructor
            · intro returned
              simp only [run_perform_bind, run_panicOr, run_store, run_perform, Option.bind_map,
                Function.comp_def, Option.bind_some, Option.map_some, Option.bind_eq_some_iff,
                Option.some.injEq, Prod.mk.injEq] at returned
              obtain ⟨kv, seen, ⟨dstOff, contents⟩, parsed, rfl, rfl⟩ := returned
              refine ⟨frame, _, rfl, rfl, Or.inr ⟨mapped, kv, dstOff, contents, rfl, outcome, seen,
                parsed, ?_⟩⟩
              rw [windowAddress_frame seen]
            · rintro ⟨_, _, rfl, rfl, ⟨_, _, same⟩ | ⟨_, kv, dstOff, contents, rfl, same, seen, parsed,
                rfl⟩⟩
              · cases outcome.symm.trans same
              · obtain ⟨-, rfl⟩ := Prod.mk.inj (outcome.symm.trans same)
                simp only [run_perform_bind, run_panicOr, run_store, run_perform, seen, parsed,
                  Option.map_some, Option.bind_some, windowAddress_frame seen]

end Loader

/-! ## A run over requests -/

structure Grant where
  request : Request
  page : Page
  frame : PhysFrame

def Grant.install (mappings : Page → Option (PhysFrame × PageTableFlags)) (grant : Grant) :
    Page → Option (PhysFrame × PageTableFlags) :=
  Function.update mappings grant.page (some (grant.frame, grant.request.segment.flags))

section Runs

variable {μ : Type} (paging : Paging μ)

/-- What one grant stands for between two machines. -/
structure Grant.Holds (before after : Machine μ) (grant : Grant) : Prop where
  requested : grant.request.page = some grant.page
  unmapped : paging.mappings before.mapper grant.page = none
  filled : (pageContents grant.request.segment grant.request.vpage).isSome
  inWindow : grant.frame.startAddress.value < 2 ^ 47
  taken : ∃ i, before.allocated ≤ i ∧ i < after.allocated ∧ paging.frames i = some grant.frame

/-- Between two machines exactly the pages of `grants` were mapped, in this order. -/
structure LoadsGrants (before after : Machine μ) (grants : List Grant) : Prop where
  callsGrow : before.allocated ≤ after.allocated
  holds : ∀ grant ∈ grants, grant.Holds paging before after
  pagesDistinct : (grants.map Grant.page).Nodup
  framesDistinct : (grants.map Grant.frame).Nodup
  mappings : paging.mappings after.mapper =
    grants.foldl Grant.install (paging.mappings before.mapper)

variable {paging} {physOffset : VirtAddr}

theorem LoadsGrants.refused {before after : Machine μ} (callsGrow : before.allocated ≤ after.allocated)
    (unchanged : paging.mappings after.mapper = paging.mappings before.mapper) :
    LoadsGrants paging before after [] where
  callsGrow := callsGrow
  holds := by simp
  pagesDistinct := List.nodup_nil
  framesDistinct := List.nodup_nil
  mappings := unchanged

theorem LoadsGrants.cons (exactly : paging.MapsExactly) {before between after : Machine μ}
    {grant : Grant} {grants : List Grant} (first : LoadsGrants paging before between [grant])
    (rest : LoadsGrants paging between after grants) :
    LoadsGrants paging before after (grant :: grants) := by
  have head := first.holds grant List.mem_cons_self
  have added : paging.mappings between.mapper = Grant.install (paging.mappings before.mapper) grant :=
    first.mappings
  have otherPage : ∀ later ∈ grants, later.page ≠ grant.page := by
    intro later member same
    have unmapped := (rest.holds later member).unmapped
    rw [added, same, Grant.install, Function.update_self] at unmapped
    cases unmapped
  have otherFrame : ∀ later ∈ grants, later.frame ≠ grant.frame := by
    intro later member same
    obtain ⟨i, _, early, answer⟩ := head.taken
    obtain ⟨j, late, _, laterAnswer⟩ := (rest.holds later member).taken
    rw [same] at laterAnswer
    have sameCall := exactly.framesDistinct answer laterAnswer
    omega
  refine ⟨first.callsGrow.trans rest.callsGrow, ?_, ?_, ?_, ?_⟩
  · intro other member
    rcases List.mem_cons.mp member with rfl | later
    · obtain ⟨i, from_, early, answer⟩ := head.taken
      exact { head with taken := ⟨i, from_, lt_of_lt_of_le early rest.callsGrow, answer⟩ }
    · have held := rest.holds other later
      obtain ⟨i, late, upTo, answer⟩ := held.taken
      have unmapped := held.unmapped
      rw [added, Grant.install, Function.update_of_ne (otherPage other later)] at unmapped
      exact ⟨held.requested, unmapped, held.filled, held.inWindow, i,
        first.callsGrow.trans late, upTo, answer⟩
  · rw [List.map_cons, List.nodup_cons]
    refine ⟨?_, rest.pagesDistinct⟩
    rw [List.mem_map]
    rintro ⟨later, member, same⟩
    exact otherPage later member same
  · rw [List.map_cons, List.nodup_cons]
    refine ⟨?_, rest.framesDistinct⟩
    rw [List.mem_map]
    rintro ⟨later, member, same⟩
    exact otherFrame later member same
  · rw [rest.mappings, added, List.foldl_cons]

/-- What `map_to` did for a granted request. -/
theorem LoadsGrants.granted (exactly : paging.MapsExactly) {request : Request} {page : Page}
    {frame : PhysFrame} {before mapped : Machine μ} {kv : VirtAddr} {dstOff : Nat}
    {contents : List U8} (answer : paging.frames before.allocated = some frame)
    (requested : request.page = some page)
    (added : paging.mapTo page frame request.segment.flags
      { before with allocated := before.allocated + 1 } = (.ok (), mapped))
    (seen : physOffset.add (BitVec.ofNat 64 frame.startAddress.value) = some kv)
    (parsed : pageContents request.segment request.vpage = some (dstOff, contents)) :
    LoadsGrants paging before (Machine.filled mapped frame dstOff contents)
      [⟨request, page, frame⟩] := by
  have callsGrow := exactly.callsGrow page frame request.segment.flags
    { before with allocated := before.allocated + 1 }
  rw [added] at callsGrow
  obtain ⟨unmapped, mappings⟩ := exactly.added added
  refine ⟨Nat.le_of_succ_le callsGrow, ?_, List.nodup_singleton _, List.nodup_singleton _, mappings⟩
  intro grant member
  obtain rfl := List.mem_singleton.mp member
  exact ⟨requested, unmapped, by rw [parsed]; rfl, frame_lt_of_seen seen, before.allocated,
    le_refl _, callsGrow, answer⟩

/-- One request either leaves the mappings alone and fails, or is granted. -/
theorem loadRequest_grants (exactly : paging.MapsExactly) {request : Request}
    {before after : Machine μ} {result : Except ElfError Unit}
    (returned : (loadRequest paging physOffset request).run.run before = some (result, after)) :
    ((∃ failure, result = .error failure) ∧ LoadsGrants paging before after []) ∨
      (result = .ok () ∧ ∃ page frame, LoadsGrants paging before after [⟨request, page, frame⟩]) := by
  rcases (loadRequest_returns_iff ..).mp returned with
    ⟨_, rfl, rfl⟩ | ⟨frame, page, answer, requested, ⟨failure, rfl, refused⟩ |
      ⟨mapped, kv, dstOff, contents, rfl, added, seen, parsed, rfl⟩⟩
  · exact Or.inl ⟨⟨_, rfl⟩, LoadsGrants.refused (Nat.le_succ _) rfl⟩
  · have callsGrow := exactly.callsGrow page frame request.segment.flags
      { before with allocated := before.allocated + 1 }
    rw [refused] at callsGrow
    have unchanged := exactly.refused refused
    exact Or.inl ⟨⟨_, rfl⟩, LoadsGrants.refused (Nat.le_of_succ_le callsGrow) unchanged⟩
  · exact Or.inr ⟨rfl, page, frame, .granted exactly answer requested added seen parsed⟩

/-- A run over requests that returns has granted the first of them, all when it
returns `Ok`. -/
theorem loadRequests_grants (exactly : paging.MapsExactly) {requests : List Request}
    {before after : Machine μ} {result : Except ElfError Unit}
    (returned : (forM requests (loadRequest paging physOffset)).run.run before =
      some (result, after)) :
    ∃ grants rest, requests = grants.map Grant.request ++ rest ∧
      LoadsGrants paging before after grants ∧
      (result = .ok () ∧ rest = [] ∨ (∃ failure, result = .error failure) ∧ rest ≠ []) := by
  induction requests generalizing before with
  | nil =>
      obtain ⟨rfl, rfl⟩ := Prod.mk.inj (Option.some.inj returned)
      exact ⟨[], [], rfl, LoadsGrants.refused (le_refl _) rfl, Or.inl ⟨rfl, rfl⟩⟩
  | cons request rest inductionHypothesis =>
      rw [List.forM_cons, run_bind, Option.bind_eq_some_iff] at returned
      obtain ⟨⟨first, between⟩, firstRan, restRan⟩ := returned
      rcases loadRequest_grants exactly firstRan with
        ⟨⟨failure, rfl⟩, refused⟩ | ⟨rfl, page, frame, granted⟩
      · obtain ⟨rfl, rfl⟩ := Prod.mk.inj (Option.some.inj restRan)
        exact ⟨[], request :: rest, rfl, refused, Or.inr ⟨⟨failure, rfl⟩, List.cons_ne_nil _ _⟩⟩
      · obtain ⟨grants, left, split, loaded, ending⟩ := inductionHypothesis restRan
        refine ⟨⟨request, page, frame⟩ :: grants, left, ?_, granted.cons exactly loaded, ending⟩
        rw [List.map_cons, List.cons_append, split]

end Runs

end AxiomKernel.User
