import Mathlib
import AxiomKernel.Lib.Bytes
import AxiomKernel.Lib.Words
import AxiomKernel.Lib.SteppedRange

/-!
# Boot-time frame allocation

Model of `memory.rs`: the boot loader's memory map, the usable frames it lists
and `allocate_frame`, which recomputes the list and takes its `next`-th entry.
`handedOut_iff` says exactly which frames the first calls hand out.
-/

set_option autoImplicit false

namespace AxiomKernel.Memory

open ByteStrings MachineWords SteppedRanges Chunking

/-! ## Addresses and frames -/

structure PhysAddr where
  value : Nat
  valid : value < 2 ^ 52
  deriving DecidableEq

/-- `PhysAddr::new` panics on an address with one of the bits 52 to 63 set. -/
def PhysAddr.new (addr : Nat) : Option PhysAddr :=
  if valid : addr < 2 ^ 52 then some ⟨addr, valid⟩ else none

/-- A physical frame of 4 KiB, named by its first address. -/
structure PhysFrame where
  startAddress : PhysAddr
  aligned : 4096 ∣ startAddress.value
  deriving DecidableEq

/-- `PhysFrame::containing_address` rounds the address down. -/
def PhysFrame.containingAddress (address : PhysAddr) : PhysFrame where
  startAddress := ⟨address.value / 4096 * 4096,
    lt_of_le_of_lt (Nat.div_mul_le_self address.value 4096) address.valid⟩
  aligned := Dvd.intro_left (address.value / 4096) rfl

def PhysFrame.Contains (frame : PhysFrame) (address : Nat) : Prop :=
  frame.startAddress.value ≤ address ∧ address < frame.startAddress.value + 4096

theorem PhysFrame.not_contains_of_ne {frame other : PhysFrame} (different : frame ≠ other)
    {address : Nat} (inside : frame.Contains address) : ¬ other.Contains address := by
  obtain ⟨⟨start, valid⟩, aligned⟩ := frame
  obtain ⟨⟨otherStart, otherValid⟩, otherAligned⟩ := other
  simp only [ne_eq, PhysFrame.mk.injEq, PhysAddr.mk.injEq] at different
  simp only [PhysFrame.Contains] at inside aligned otherAligned ⊢
  omega

/-! ## The memory map -/

inductive MemoryRegionKind where
  | usable
  | bootloader
  | unknownUefi (tag : U32)
  | unknownBios (tag : U32)
  deriving DecidableEq

structure MemoryRegion where
  start : U64
  stop : U64
  kind : MemoryRegionKind
  deriving DecidableEq

namespace MemoryRegion

def Contains (region : MemoryRegion) (address : Nat) : Prop :=
  region.start.toNat ≤ address ∧ address < region.stop.toNat

instance (region : MemoryRegion) (address : Nat) : Decidable (region.Contains address) :=
  inferInstanceAs (Decidable (_ ∧ _))

def usableAddresses (region : MemoryRegion) : List Nat :=
  if region.kind = .usable then stepBy region.start.toNat region.stop.toNat 4096 else []

def frameCount (region : MemoryRegion) : Nat :=
  if region.kind = .usable then blockCount 4096 (region.stop.toNat - region.start.toNat) else 0

end MemoryRegion

/-- A memory map as the boot loader hands it over: every region is 4 KiB aligned
and no two regions share an address. -/
structure MemoryMap where
  regions : List MemoryRegion
  aligned : ∀ region ∈ regions, 4096 ∣ region.start.toNat ∧ 4096 ∣ region.stop.toNat
  disjoint : regions.Pairwise fun left right =>
    ∀ address, ¬(left.Contains address ∧ right.Contains address)

/-- The conventional memory of a PC below 640 KiB, free except for its first page. -/
def conventionalMemory : MemoryMap where
  regions := [⟨0x1000, 0x9F000, .usable⟩, ⟨0x9F000, 0x100000, .unknownBios 2⟩]
  aligned := by decide
  disjoint := by
    simp only [List.pairwise_cons, List.mem_singleton, forall_eq, MemoryRegion.Contains]
    simp
    omega

/-! ## The allocator -/

structure BootInfoFrameAllocator where
  memoryRegions : List MemoryRegion
  next : U64

namespace BootInfoFrameAllocator

def init (memoryRegions : List MemoryRegion) : BootInfoFrameAllocator := ⟨memoryRegions, 0⟩

/-- The addresses `usable_frames` runs over, before they become frames. -/
def usableAddresses (allocator : BootInfoFrameAllocator) : List Nat :=
  (allocator.memoryRegions.filter (·.kind = .usable)).flatMap fun region =>
    stepBy region.start.toNat region.stop.toNat 4096

/-- `nth` of the frames of `addresses`: the iterator turns every address it passes
into a frame, so an address that is not physical panics even when it is skipped. -/
def nthFrame : List Nat → Nat → Option (Option PhysFrame)
  | [], _ => some none
  | addr :: rest, n => do
      let address ← PhysAddr.new addr
      match n with
      | 0 => some (some (PhysFrame.containingAddress address))
      | n + 1 => nthFrame rest n

/-- `allocate_frame`; `none` is a panic, `some (none, _)` a `None` of the source. -/
def allocateFrame (allocator : BootInfoFrameAllocator) :
    Option (Option PhysFrame × BootInfoFrameAllocator) := do
  let frame ← nthFrame allocator.usableAddresses allocator.next.toNat
  let next ← checkedAdd allocator.next 1
  some (frame, { allocator with next := next })

/-- What `calls` calls in a row return; a panic ends the run. -/
def allocateFrames : Nat → BootInfoFrameAllocator → List (Option PhysFrame)
  | 0, _ => []
  | calls + 1, allocator =>
      match allocator.allocateFrame with
      | none => []
      | some (frame, allocator) => frame :: allocateFrames calls allocator

end BootInfoFrameAllocator

/-! ## One call -/

theorem PhysAddr.new_eq_some_iff (addr : Nat) (address : PhysAddr) :
    PhysAddr.new addr = some address ↔ address.value = addr := by
  rw [PhysAddr.new]
  split
  case isTrue valid =>
    rw [Option.some.injEq]
    constructor
    · rintro rfl
      rfl
    · rintro rfl
      rfl
  case isFalse invalid =>
    have bound := address.valid
    constructor
    · intro impossible
      cases impossible
    · intro impossible
      omega

open BootInfoFrameAllocator

/-- The `n`-th frame is returned exactly when there is one and every address up
to it is physical. -/
theorem nthFrame_eq_some_iff (addresses : List Nat) (n : Nat) (frame : PhysFrame) :
    nthFrame addresses n = some (some frame) ↔
      ∃ addr, addresses[n]? = some addr ∧ frame.startAddress.value = addr / 4096 * 4096 ∧
        ∀ passed ∈ addresses.take (n + 1), passed < 2 ^ 52 := by
  induction addresses generalizing n with
  | nil => simp [nthFrame]
  | cons addr rest inductionHypothesis =>
      rw [nthFrame, Option.bind_eq_bind, Option.bind_eq_some_iff]
      simp only [PhysAddr.new_eq_some_iff, List.take_succ_cons, List.forall_mem_cons]
      cases n with
      | zero =>
          simp only [Option.some.injEq, List.getElem?_cons_zero, List.take_zero, List.not_mem_nil,
            false_implies, implies_true, and_true, exists_eq_left']
          constructor
          · rintro ⟨address, rfl, rfl⟩
            exact ⟨rfl, address.valid⟩
          · rintro ⟨located, valid⟩
            refine ⟨⟨addr, valid⟩, rfl, ?_⟩
            obtain ⟨⟨value, valueValid⟩, aligned⟩ := frame
            simp only [PhysFrame.containingAddress, PhysFrame.mk.injEq, PhysAddr.mk.injEq]
            exact located.symm
      | succ n =>
          simp only [List.getElem?_cons_succ, inductionHypothesis]
          constructor
          · rintro ⟨address, rfl, found, located, aligned, passed⟩
            exact ⟨found, located, aligned, address.valid, passed⟩
          · rintro ⟨found, located, aligned, valid, passed⟩
            exact ⟨⟨addr, valid⟩, rfl, found, located, aligned, passed⟩

theorem nthFrame_panics_later {addresses : List Nat} {earlier later : Nat}
    (order : earlier ≤ later) (panics : nthFrame addresses earlier = none) :
    nthFrame addresses later = none := by
  induction addresses generalizing earlier later with
  | nil => cases panics
  | cons addr rest inductionHypothesis =>
      rw [nthFrame, Option.bind_eq_bind] at panics ⊢
      cases physical : PhysAddr.new addr with
      | none => rfl
      | some address =>
          rw [physical, Option.bind_some] at panics
          cases earlier with
          | zero => cases panics
          | succ earlier =>
              cases later with
              | zero => omega
              | succ later => exact inductionHypothesis (by omega) panics

theorem allocateFrame_eq_some_iff (allocator after : BootInfoFrameAllocator)
    (frame : Option PhysFrame) :
    allocator.allocateFrame = some (frame, after) ↔
      nthFrame allocator.usableAddresses allocator.next.toNat = some frame ∧
        after.memoryRegions = allocator.memoryRegions ∧
        after.next.toNat = allocator.next.toNat + 1 := by
  have one : (1 : U64).toNat = 1 := rfl
  simp only [allocateFrame, Option.bind_eq_bind, Option.bind_eq_some_iff, checkedAdd_eq_some_iff, one,
    Option.some.injEq, Prod.mk.injEq]
  constructor
  · rintro ⟨_, found, next, advanced, rfl, rfl⟩
    exact ⟨found, rfl, advanced⟩
  · rintro ⟨found, sameRegions, advanced⟩
    refine ⟨frame, found, after.next, advanced, rfl, ?_⟩
    rw [← sameRegions]

/-! ## A run of calls -/

theorem usableAddresses_eq (allocator : BootInfoFrameAllocator) :
    allocator.usableAddresses =
      allocator.memoryRegions.flatMap MemoryRegion.usableAddresses := by
  rw [BootInfoFrameAllocator.usableAddresses]
  induction allocator.memoryRegions with
  | nil => rfl
  | cons region rest inductionHypothesis =>
      rw [List.flatMap_cons, ← inductionHypothesis, MemoryRegion.usableAddresses]
      by_cases usable : region.kind = .usable
      · rw [List.filter_cons_of_pos (by simpa using usable), List.flatMap_cons, if_pos usable]
      · rw [List.filter_cons_of_neg (by simpa using usable), if_neg usable, List.nil_append]

/-- Call number `index` returns what stands at the `index`-th position from `next` on. -/
theorem getElem?_allocateFrames_eq_some_iff (calls : Nat) (allocator : BootInfoFrameAllocator)
    (index : Nat) (answer : Option PhysFrame) :
    (allocateFrames calls allocator)[index]? = some answer ↔
      index < calls ∧ allocator.next.toNat + index + 1 < 2 ^ 64 ∧
        nthFrame allocator.usableAddresses (allocator.next.toNat + index) = some answer := by
  induction calls generalizing allocator index with
  | zero => simp [allocateFrames]
  | succ calls inductionHypothesis =>
      rw [allocateFrames]
      cases step : allocator.allocateFrame with
      | none =>
          constructor
          · intro impossible
            simp at impossible
          · rintro ⟨_, bounded, found⟩
            -- Without a panic at `index` there is none at `next`, so this call returns.
            cases current : nthFrame allocator.usableAddresses allocator.next.toNat with
            | none =>
                rw [nthFrame_panics_later (Nat.le_add_right _ index) current] at found
                cases found
            | some currentFrame =>
                have advanced : (BitVec.ofNat 64 (allocator.next.toNat + 1)).toNat =
                    allocator.next.toNat + 1 := by
                  rw [BitVec.toNat_ofNat, Nat.mod_eq_of_lt (by omega)]
                have returns := (allocateFrame_eq_some_iff allocator
                  ⟨allocator.memoryRegions, BitVec.ofNat 64 (allocator.next.toNat + 1)⟩
                  currentFrame).mpr ⟨current, rfl, advanced⟩
                rw [step] at returns
                cases returns
      | some result =>
          obtain ⟨first, after⟩ := result
          obtain ⟨found, sameRegions, advanced⟩ := (allocateFrame_eq_some_iff ..).mp step
          have nextLt := after.next.isLt
          have sameAddresses : after.usableAddresses = allocator.usableAddresses := by
            rw [usableAddresses_eq, usableAddresses_eq, sameRegions]
          cases index with
          | zero =>
              simp only [List.getElem?_cons_zero, Nat.add_zero, found]
              exact ⟨fun same => ⟨by omega, by omega, same⟩, fun same => same.2.2⟩
          | succ index =>
              rw [List.getElem?_cons_succ, inductionHypothesis, sameAddresses, advanced,
                Nat.add_lt_add_iff_right, Nat.add_assoc allocator.next.toNat 1 index,
                Nat.add_comm 1 index]

theorem mem_allocateFrames_iff (calls : Nat) (allocator : BootInfoFrameAllocator)
    (frame : PhysFrame) :
    some frame ∈ allocateFrames calls allocator ↔
      ∃ index, allocator.next.toNat ≤ index ∧ index < allocator.next.toNat + calls ∧
        index + 1 < 2 ^ 64 ∧ nthFrame allocator.usableAddresses index = some (some frame) := by
  rw [List.mem_iff_getElem?]
  simp only [getElem?_allocateFrames_eq_some_iff]
  constructor
  · rintro ⟨index, below, bounded, found⟩
    exact ⟨allocator.next.toNat + index, by omega, by omega, bounded, found⟩
  · rintro ⟨index, above, below, bounded, found⟩
    have offset : allocator.next.toNat + (index - allocator.next.toNat) = index := by omega
    refine ⟨index - allocator.next.toNat, by omega, ?_⟩
    rw [offset]
    exact ⟨bounded, found⟩

/-! ## Which frames a memory map hands out -/

namespace MemoryRegion

/-- None of the addresses the region contributes panics. -/
def Physical (region : MemoryRegion) : Prop :=
  region.kind = .usable → region.start.toNat < region.stop.toNat → region.stop.toNat ≤ 2 ^ 52

theorem usableAddresses_length (region : MemoryRegion) :
    region.usableAddresses.length = region.frameCount := by
  rw [usableAddresses, frameCount]
  split
  case isTrue usable => exact stepBy_length ..
  case isFalse reserved => rfl

theorem getElem?_usableAddresses_eq_some_iff (region : MemoryRegion) (offset address : Nat) :
    region.usableAddresses[offset]? = some address ↔
      region.kind = .usable ∧ address = region.start.toNat + offset * 4096 ∧
        address < region.stop.toNat := by
  rw [usableAddresses]
  split
  case isTrue usable =>
    rw [getElem?_stepBy_eq_some_iff (by decide)]
    exact (and_iff_right usable).symm
  case isFalse reserved => simp [reserved]

theorem mem_usableAddresses_iff (region : MemoryRegion) (address : Nat) :
    address ∈ region.usableAddresses ↔
      region.kind = .usable ∧ region.Contains address ∧ 4096 ∣ address - region.start.toNat := by
  rw [usableAddresses, Contains]
  split
  case isTrue usable =>
    rw [mem_stepBy_iff (by decide), and_assoc, and_iff_right usable]
  case isFalse reserved => simp [reserved]

/-- An aligned region is physical exactly when each of its addresses is. -/
theorem physical_iff {region : MemoryRegion}
    (aligned : 4096 ∣ region.start.toNat ∧ 4096 ∣ region.stop.toNat) :
    region.Physical ↔ ∀ address ∈ region.usableAddresses, address < 2 ^ 52 := by
  constructor
  · intro physical address member
    obtain ⟨usable, ⟨above, below⟩, _⟩ := (region.mem_usableAddresses_iff address).mp member
    have bound := physical usable (by omega)
    omega
  · intro bounded usable nonempty
    obtain ⟨⟨first, startEq⟩, ⟨last, stopEq⟩⟩ := aligned
    have lastMember : region.stop.toNat - 4096 ∈ region.usableAddresses := by
      rw [mem_usableAddresses_iff, Contains]
      exact ⟨usable, ⟨by omega, by omega⟩, ⟨last - 1 - first, by omega⟩⟩
    have lastBound := bounded _ lastMember
    omega

end MemoryRegion

namespace MemoryMap

/-- The usable frame number `position` of the map is `frame`, and the regions
listed before its region are physical. -/
def ListsAt (map : MemoryMap) (frame : PhysFrame) (position : Nat) : Prop :=
  ∃ earlier region later, map.regions = earlier ++ region :: later ∧
    region.kind = .usable ∧ region.Contains frame.startAddress.value ∧
    (∀ passed ∈ earlier, passed.Physical) ∧
    position = (earlier.map MemoryRegion.frameCount).sum +
      (frame.startAddress.value - region.start.toNat) / 4096

variable (map : MemoryMap)

theorem addresses_nodup : (map.regions.flatMap MemoryRegion.usableAddresses).Nodup := by
  rw [List.nodup_flatMap]
  constructor
  · intro region _
    rw [MemoryRegion.usableAddresses]
    split
    case isTrue usable => exact stepBy_nodup (by decide) ..
    case isFalse reserved => exact List.nodup_nil
  · apply map.disjoint.imp
    intro left right disjoint address inLeft inRight
    rw [MemoryRegion.mem_usableAddresses_iff] at inLeft inRight
    exact disjoint address ⟨inLeft.2.1, inRight.2.1⟩

/-- Up to a physical address of `region` only the regions before it can panic. -/
theorem passed_physical_iff {earlier later : List MemoryRegion} {region : MemoryRegion}
    {offset address : Nat} (split : map.regions = earlier ++ region :: later)
    (located : region.usableAddresses[offset]? = some address) (physical : address < 2 ^ 52) :
    (∀ passed ∈ (map.regions.flatMap MemoryRegion.usableAddresses).take
        ((earlier.flatMap MemoryRegion.usableAddresses).length + offset + 1), passed < 2 ^ 52) ↔
      ∀ passed ∈ earlier, passed.Physical := by
  have inRegion := (List.getElem?_eq_some_iff.mp located).1
  obtain ⟨_, addressEq, _⟩ := (region.getElem?_usableAddresses_eq_some_iff ..).mp located
  have alignedEarlier : ∀ passed ∈ earlier,
      4096 ∣ passed.start.toNat ∧ 4096 ∣ passed.stop.toNat := by
    intro passed member
    exact map.aligned passed (by simp [split, member])
  have regionPart : ∀ passed ∈ region.usableAddresses.take (offset + 1), passed < 2 ^ 52 := by
    intro passed member
    obtain ⟨index, found⟩ := List.mem_iff_getElem?.mp member
    rw [List.getElem?_take] at found
    split at found
    case isTrue below =>
      obtain ⟨_, passedEq, _⟩ := (region.getElem?_usableAddresses_eq_some_iff ..).mp found
      have ordered : index * 4096 ≤ offset * 4096 := Nat.mul_le_mul_right _ (by omega)
      omega
    case isFalse => cases found
  have remainder : (earlier.flatMap MemoryRegion.usableAddresses).length + offset + 1 -
      (earlier.flatMap MemoryRegion.usableAddresses).length = offset + 1 := by omega
  have noSpill : offset + 1 - region.usableAddresses.length = 0 := by omega
  rw [split, List.flatMap_append, List.flatMap_cons, List.take_append, remainder,
    List.take_of_length_le (by omega), List.take_append, noSpill, List.take_zero, List.append_nil]
  constructor
  · intro bounded passed member
    rw [MemoryRegion.physical_iff (alignedEarlier passed member)]
    intro passedAddress inPassed
    apply bounded
    exact List.mem_append_left _ (List.mem_flatMap.mpr ⟨passed, member, inPassed⟩)
  · intro physicalEarlier passedAddress member
    rcases List.mem_append.mp member with inEarlier | inRegionPart
    · obtain ⟨passed, passedMember, inPassed⟩ := List.mem_flatMap.mp inEarlier
      exact (MemoryRegion.physical_iff (alignedEarlier passed passedMember)).mp
        (physicalEarlier passed passedMember) passedAddress inPassed
    · exact regionPart passedAddress inRegionPart

/-- The position `ListsAt` gives a frame is its position among the addresses. -/
theorem listsAt_iff (frame : PhysFrame) (position : Nat) :
    map.ListsAt frame position ↔
      (map.regions.flatMap MemoryRegion.usableAddresses)[position]? =
          some frame.startAddress.value ∧
        ∀ passed ∈ (map.regions.flatMap MemoryRegion.usableAddresses).take (position + 1),
          passed < 2 ^ 52 := by
  have physical := frame.startAddress.valid
  rw [getElem?_flatMap_eq_some_iff]
  constructor
  · rintro ⟨earlier, region, later, split, usable, ⟨above, below⟩, physicalEarlier, rfl⟩
    have inMap : region ∈ map.regions := by simp [split]
    have wholeFrames : (frame.startAddress.value - region.start.toNat) / 4096 * 4096 =
        frame.startAddress.value - region.start.toNat :=
      Nat.div_mul_cancel (Nat.dvd_sub frame.aligned (map.aligned region inMap).1)
    have located := (region.getElem?_usableAddresses_eq_some_iff
      ((frame.startAddress.value - region.start.toNat) / 4096) frame.startAddress.value).mpr
      ⟨usable, by omega, below⟩
    have counted : (earlier.flatMap MemoryRegion.usableAddresses).length =
        (earlier.map MemoryRegion.frameCount).sum := by
      rw [List.length_flatMap]
      simp only [MemoryRegion.usableAddresses_length]
    rw [← counted]
    exact ⟨⟨earlier, region, later, _, split, located, rfl⟩,
      (map.passed_physical_iff split located physical).mpr physicalEarlier⟩
  · rintro ⟨⟨earlier, region, later, offset, split, located, rfl⟩, passed⟩
    rw [map.passed_physical_iff split located physical] at passed
    obtain ⟨usable, addressEq, below⟩ := (region.getElem?_usableAddresses_eq_some_iff ..).mp located
    refine ⟨earlier, region, later, split, usable, ⟨by omega, below⟩, passed, ?_⟩
    have wholeFrames : (frame.startAddress.value - region.start.toNat) / 4096 = offset := by omega
    rw [wholeFrames, List.length_flatMap]
    simp only [MemoryRegion.usableAddresses_length]

theorem startAddress_eq_of_rounded {address : Nat} {frame : PhysFrame}
    (member : address ∈ map.regions.flatMap MemoryRegion.usableAddresses)
    (rounded : frame.startAddress.value = address / 4096 * 4096) :
    frame.startAddress.value = address := by
  obtain ⟨region, inMap, inRegion⟩ := List.mem_flatMap.mp member
  obtain ⟨_, ⟨above, _⟩, offset⟩ := (region.mem_usableAddresses_iff address).mp inRegion
  have aligned : 4096 ∣ address := (Nat.dvd_sub_iff_left above (map.aligned region inMap).1).mp offset
  rw [rounded, Nat.div_mul_cancel aligned]

/-- The first `calls` calls hand out exactly the frames the map lists at the
positions below `calls`. -/
theorem handedOut_iff (calls : Nat) (frame : PhysFrame) :
    some frame ∈ allocateFrames calls (init map.regions) ↔
      ∃ position < calls, map.ListsAt frame position := by
  have addressesEq := usableAddresses_eq (init map.regions)
  have start : (init map.regions).next.toNat = 0 := rfl
  rw [mem_allocateFrames_iff, addressesEq, start]
  simp only [nthFrame_eq_some_iff, listsAt_iff, Nat.zero_le, true_and, Nat.zero_add]
  constructor
  · rintro ⟨position, below, _, address, found, rounded, passed⟩
    rw [map.startAddress_eq_of_rounded (List.mem_of_getElem? found) rounded]
    exact ⟨position, below, found, passed⟩
  · rintro ⟨position, below, found, passed⟩
    have inRange := (List.getElem?_eq_some_iff.mp found).1
    -- Distinct physical addresses are few, so the counter does not wrap on the way.
    have few := length_le_of_nodup_of_lt (map.addresses_nodup.sublist (List.take_sublist _ _)) passed
    rw [List.length_take] at few
    refine ⟨position, below, ?_, _, found, ?_, passed⟩
    · have small : (2 : Nat) ^ 52 < 2 ^ 64 := by decide
      omega
    · exact (Nat.div_mul_cancel frame.aligned).symm

def frame (i : Nat) : Option PhysFrame :=
  (nthFrame (init map.regions).usableAddresses i).join

theorem frame_injective {i j : Nat} {frame : PhysFrame} (first : map.frame i = some frame)
    (second : map.frame j = some frame) : i = j := by
  have addressesEq : (init map.regions).usableAddresses =
      map.regions.flatMap MemoryRegion.usableAddresses := usableAddresses_eq (init map.regions)
  rw [MemoryMap.frame, addressesEq, Option.join_eq_some_iff, nthFrame_eq_some_iff] at first second
  obtain ⟨address, found, rounded, _⟩ := first
  obtain ⟨otherAddress, otherFound, otherRounded, _⟩ := second
  have sameAddress : address = otherAddress := by
    rw [← map.startAddress_eq_of_rounded (List.mem_of_getElem? found) rounded,
      ← map.startAddress_eq_of_rounded (List.mem_of_getElem? otherFound) otherRounded]
  apply (List.getElem?_inj (List.getElem?_eq_some_iff.mp found).1 map.addresses_nodup).mp
  rw [found, otherFound, sameAddress]

end MemoryMap

end AxiomKernel.Memory
