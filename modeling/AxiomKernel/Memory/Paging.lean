import Mathlib
import AxiomKernel.Lib.Bytes
import AxiomKernel.Lib.Words
import AxiomKernel.Lib.ByteMemory
import AxiomKernel.Lib.TwoRun
import AxiomKernel.Memory.FrameAllocator

/-!
# Virtual addresses, page mappings and the machine

The code that maps pages is generic in the mapper and the frame allocator, and
so is the model: `Paging` has the answers of `allocate_frame` in order and the
behaviour of `map_to` on a machine, and `Paging.Sound` says what the kernel
relies on.  The page tables of the mapper lie in physical memory.
-/

set_option autoImplicit false

namespace AxiomKernel.Memory

open ByteStrings MachineWords ByteMemory TwoRuns

/-! ## Virtual addresses and pages -/

/-- Bits 48 to 63 repeat bit 47. -/
def Canonical (address : U64) : Prop :=
  address.toNat < 2 ^ 47 ∨ 2 ^ 64 - 2 ^ 47 ≤ address.toNat

instance (address : U64) : Decidable (Canonical address) := inferInstanceAs (Decidable (_ ∨ _))

structure VirtAddr where
  value : U64
  canonical : Canonical value
  deriving DecidableEq

/-- `VirtAddr::new` panics on an address that is not canonical. -/
def VirtAddr.new (address : U64) : Option VirtAddr :=
  if canonical : Canonical address then some ⟨address, canonical⟩ else none

/-- `VirtAddr + u64` panics on overflow and when the sum is not canonical. -/
def VirtAddr.add (base : VirtAddr) (offset : U64) : Option VirtAddr := do
  let sum ← checkedAdd base.value offset
  VirtAddr.new sum

def alignDown (address : U64) : U64 := address &&& ~~~0xFFF

theorem alignDown_toNat (address : U64) :
    (alignDown address).toNat = address.toNat / 4096 * 4096 :=
  and_not_lowMask_toNat address 12

theorem alignDown_ofNat {address : Nat} (fits : address < 2 ^ 64) :
    alignDown (BitVec.ofNat 64 address) = BitVec.ofNat 64 (address / 4096 * 4096) := by
  have rounded : address / 4096 * 4096 < 2 ^ 64 := by omega
  rw [← BitVec.toNat_inj, alignDown_toNat, BitVec.toNat_ofNat, BitVec.toNat_ofNat,
    Nat.mod_eq_of_lt fits, Nat.mod_eq_of_lt rounded]

structure Page where
  startAddress : VirtAddr
  aligned : 4096 ∣ startAddress.value.toNat
  deriving DecidableEq

theorem alignDown_canonical {address : U64} (canonical : Canonical address) :
    Canonical (alignDown address) := by
  rw [Canonical, alignDown_toNat]
  rw [Canonical] at canonical
  omega

def Page.containingAddress (address : VirtAddr) : Page where
  startAddress := ⟨alignDown address.value, alignDown_canonical address.canonical⟩
  aligned := by
    rw [alignDown_toNat]
    exact Nat.dvd_mul_left _ _

theorem containingAddress_start (page : Page) :
    Page.containingAddress page.startAddress = page := by
  obtain ⟨⟨value, canonical⟩, aligned⟩ := page
  simp only [Page.containingAddress, Page.mk.injEq, VirtAddr.mk.injEq]
  rw [← BitVec.toNat_inj, alignDown_toNat]
  exact Nat.div_mul_cancel aligned

structure PageTableFlags where
  present : Bool
  writable : Bool
  userAccessible : Bool
  noExecute : Bool
  deriving DecidableEq

inductive MapToError where
  | frameAllocationFailed
  | parentEntryHugePage
  | pageAlreadyMapped
  deriving DecidableEq

/-! ## The machine -/

/-- The mapper's state, how often `allocate_frame` was called, and physical memory. -/
structure Machine (μ : Type) where
  mapper : μ
  allocated : Nat
  memory : Memory

structure Paging (μ : Type) where
  /-- What call number `i` of `allocate_frame` returns. -/
  frames : Nat → Option PhysFrame
  mapTo : Page → PhysFrame → PageTableFlags → Machine μ → Except MapToError Unit × Machine μ
  mappings : μ → Page → Option (PhysFrame × PageTableFlags)
  /-- The frames that hold the mapper's page tables. -/
  tables : μ → Set PhysFrame

namespace Paging

variable {μ : Type} (paging : Paging μ)

def allocateFrame : StateT (Machine μ) Option (Option PhysFrame) := fun machine =>
  some (paging.frames machine.allocated, { machine with allocated := machine.allocated + 1 })

def map (page : Page) (frame : PhysFrame) (flags : PageTableFlags) :
    StateT (Machine μ) Option (Except MapToError Unit) := fun machine =>
  some (paging.mapTo page frame flags machine)

end Paging

def store {μ : Type} (address : Nat) (bytes : List U8) : StateT (Machine μ) Option Unit :=
  fun machine => some ((), { machine with memory := writeBytes machine.memory address bytes })

namespace Paging

variable {μ : Type} (paging : Paging μ)

theorem run_allocateFrame (machine : Machine μ) :
    paging.allocateFrame.run machine = some (paging.frames machine.allocated,
      { machine with allocated := machine.allocated + 1 }) := rfl

theorem run_map (page : Page) (frame : PhysFrame) (flags : PageTableFlags) (machine : Machine μ) :
    (paging.map page frame flags).run machine = some (paging.mapTo page frame flags machine) := rfl

end Paging

theorem run_store {μ : Type} (address : Nat) (bytes : List U8) (machine : Machine μ) :
    (store address bytes).run machine =
      some ((), { machine with memory := writeBytes machine.memory address bytes }) := rfl

/-- The physical address behind `virt` in the window that maps all of physical
memory at `physOffset`. -/
def windowAddress (physOffset virt : U64) : Nat := virt.toNat - physOffset.toNat

theorem VirtAddr.add_frame {physOffset kv : VirtAddr} {frame : PhysFrame}
    (seen : physOffset.add (BitVec.ofNat 64 frame.startAddress.value) = some kv) :
    kv.value.toNat = physOffset.value.toNat + frame.startAddress.value := by
  have frameLt : frame.startAddress.value < 2 ^ 64 := lt_trans frame.startAddress.valid (by decide)
  rw [VirtAddr.add, Option.bind_eq_bind, Option.bind_eq_some_iff] at seen
  obtain ⟨sum, added, isCanonical⟩ := seen
  rw [checkedAdd_eq_some_iff, BitVec.toNat_ofNat, Nat.mod_eq_of_lt frameLt] at added
  rw [VirtAddr.new] at isCanonical
  split at isCanonical
  case isTrue canonical =>
    obtain rfl := Option.some.inj isCanonical
    exact added
  case isFalse => cases isCanonical

theorem windowAddress_frame {physOffset kv : VirtAddr} {frame : PhysFrame}
    (seen : physOffset.add (BitVec.ofNat 64 frame.startAddress.value) = some kv) :
    windowAddress physOffset.value kv.value = frame.startAddress.value := by
  rw [windowAddress, VirtAddr.add_frame seen, Nat.add_sub_cancel_left]

/-- Only the frames below `2^47` fit into the window: above them the address in the
window is not canonical. -/
theorem frame_lt_of_seen {physOffset kv : VirtAddr} {frame : PhysFrame}
    (seen : physOffset.add (BitVec.ofNat 64 frame.startAddress.value) = some kv) :
    frame.startAddress.value < 2 ^ 47 := by
  have sum := VirtAddr.add_frame seen
  have valid := frame.startAddress.valid
  have offsetCanonical := physOffset.canonical
  have kvCanonical := kv.canonical
  have kvLt := kv.value.isLt
  rw [Canonical] at offsetCanonical kvCanonical
  omega

/-! ## What the kernel relies on -/

def SameOn (left right : Memory) (frame : PhysFrame) : Prop :=
  ∀ address, frame.Contains address → left address = right address

/-- The allocator never hands out a frame twice, and `map_to` adds exactly the
given mapping or fails without mapping.  `map_to` may take frames for new page
tables; it writes page tables only. -/
structure Paging.MapsExactly {μ : Type} (paging : Paging μ) : Prop where
  framesDistinct : ∀ {i j frame}, paging.frames i = some frame → paging.frames j = some frame → i = j
  added : ∀ {page frame flags machine after},
    paging.mapTo page frame flags machine = (.ok (), after) →
      paging.mappings machine.mapper page = none ∧
      paging.mappings after.mapper =
        Function.update (paging.mappings machine.mapper) page (some (frame, flags))
  refused : ∀ {page frame flags machine failure after},
    paging.mapTo page frame flags machine = (.error failure, after) →
      paging.mappings after.mapper = paging.mappings machine.mapper
  callsGrow : ∀ page frame flags machine,
    machine.allocated ≤ (paging.mapTo page frame flags machine).2.allocated
  tablesTaken : ∀ {page frame flags machine table},
    table ∈ paging.tables (paging.mapTo page frame flags machine).2.mapper →
      table ∈ paging.tables machine.mapper ∨
      ∃ i, machine.allocated ≤ i ∧ i < (paging.mapTo page frame flags machine).2.allocated ∧
        paging.frames i = some table
  writesTables : ∀ {page frame flags machine address},
    (∀ table ∈ paging.tables (paging.mapTo page frame flags machine).2.mapper,
      ¬ table.Contains address) →
      (paging.mapTo page frame flags machine).2.memory address = machine.memory address

/-- Besides, `map_to` reads page tables only. -/
structure Paging.Sound {μ : Type} (paging : Paging μ) : Prop extends paging.MapsExactly where
  readsTables : ∀ page frame flags {left right : Machine μ},
    left.mapper = right.mapper → left.allocated = right.allocated →
    (∀ table ∈ paging.tables left.mapper, SameOn left.memory right.memory table) →
      (paging.mapTo page frame flags left).1 = (paging.mapTo page frame flags right).1 ∧
      (paging.mapTo page frame flags left).2.mapper =
        (paging.mapTo page frame flags right).2.mapper ∧
      (paging.mapTo page frame flags left).2.allocated =
        (paging.mapTo page frame flags right).2.allocated ∧
      ∀ table ∈ paging.tables (paging.mapTo page frame flags left).2.mapper,
        SameOn (paging.mapTo page frame flags left).2.memory
          (paging.mapTo page frame flags right).2.memory table

/-- No frame that is still to be handed out holds a page table. -/
def Paging.Fresh {μ : Type} (paging : Paging μ) (machine : Machine μ) : Prop :=
  ∀ i frame, machine.allocated ≤ i → paging.frames i = some frame →
    frame ∉ paging.tables machine.mapper

/-- `map_to` succeeds on an unmapped page when there are frames for new page tables. -/
def Paging.Obliging {μ : Type} (paging : Paging μ) : Prop :=
  ∀ page frame flags (machine : Machine μ), paging.mappings machine.mapper page = none →
    (∀ i, machine.allocated ≤ i → i < machine.allocated + 3 → (paging.frames i).isSome) →
    (paging.mapTo page frame flags machine).1 = .ok ()

/-! ## A mapper with its tables outside memory -/

/-- The mapper that keeps the mappings themselves: `map_to` refuses a mapped page and
takes no frames. -/
def flatPaging (frames : Nat → Option PhysFrame) :
    Paging (Page → Option (PhysFrame × PageTableFlags)) where
  frames := frames
  mapTo page frame flags machine :=
    match machine.mapper page with
    | some _ => (.error .pageAlreadyMapped, machine)
    | none =>
        (.ok (), { machine with mapper := Function.update machine.mapper page (some (frame, flags)) })
  mappings := id
  tables := fun _ => ∅

theorem flatPaging_mapTo_cases (frames : Nat → Option PhysFrame) (page : Page) (frame : PhysFrame)
    (flags : PageTableFlags) (machine : Machine (Page → Option (PhysFrame × PageTableFlags))) :
    (∃ entry, machine.mapper page = some entry ∧
      (flatPaging frames).mapTo page frame flags machine = (.error .pageAlreadyMapped, machine)) ∨
    (machine.mapper page = none ∧
      (flatPaging frames).mapTo page frame flags machine = (.ok (), { machine with
        mapper := Function.update machine.mapper page (some (frame, flags)) })) := by
  simp only [flatPaging]
  cases machine.mapper page with
  | none => exact Or.inr ⟨rfl, rfl⟩
  | some entry => exact Or.inl ⟨entry, rfl, rfl⟩

theorem flatPaging_sound {frames : Nat → Option PhysFrame}
    (distinct : ∀ {i j frame}, frames i = some frame → frames j = some frame → i = j) :
    (flatPaging frames).Sound where
  framesDistinct := distinct
  added := by
    intro page frame flags machine after mapped
    rcases flatPaging_mapTo_cases frames page frame flags machine with
      ⟨entry, _, refused⟩ | ⟨unmapped, added⟩
    · rw [refused] at mapped
      cases mapped
    · rw [added] at mapped
      obtain ⟨-, rfl⟩ := Prod.mk.inj mapped
      exact ⟨unmapped, rfl⟩
  refused := by
    intro page frame flags machine failure after mapped
    rcases flatPaging_mapTo_cases frames page frame flags machine with
      ⟨entry, _, refused⟩ | ⟨unmapped, added⟩
    · rw [refused] at mapped
      obtain ⟨-, rfl⟩ := Prod.mk.inj mapped
      rfl
    · rw [added] at mapped
      cases mapped
  callsGrow := by
    intro page frame flags machine
    rcases flatPaging_mapTo_cases frames page frame flags machine with
      ⟨entry, _, result⟩ | ⟨unmapped, result⟩ <;> rw [result]
  tablesTaken := by
    intro page frame flags machine table impossible
    cases impossible
  writesTables := by
    intro page frame flags machine address _
    rcases flatPaging_mapTo_cases frames page frame flags machine with
      ⟨entry, _, result⟩ | ⟨unmapped, result⟩ <;> rw [result]
  readsTables := by
    intro page frame flags left right sameMapper sameCalls _
    obtain ⟨mapper, allocated, memory⟩ := left
    obtain ⟨rightMapper, rightAllocated, rightMemory⟩ := right
    obtain rfl : mapper = rightMapper := sameMapper
    obtain rfl : allocated = rightAllocated := sameCalls
    simp only [flatPaging]
    cases mapper page with
    | none => exact ⟨rfl, rfl, rfl, fun table impossible => absurd impossible (Set.notMem_empty table)⟩
    | some entry =>
        exact ⟨rfl, rfl, rfl, fun table impossible => absurd impossible (Set.notMem_empty table)⟩

theorem flatPaging_obliging (frames : Nat → Option PhysFrame) : (flatPaging frames).Obliging := by
  intro page frame flags machine unmapped _
  rcases flatPaging_mapTo_cases frames page frame flags machine with
    ⟨entry, mapped, _⟩ | ⟨_, added⟩
  · cases unmapped.symm.trans mapped
  · rw [added]

end AxiomKernel.Memory
