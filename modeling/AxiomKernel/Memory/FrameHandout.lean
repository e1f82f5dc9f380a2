import Mathlib
import AxiomKernel.Memory.FrameAllocator

/-!
# Frames are handed out once

`allocate_frame` recomputes the usable frames of the memory map and takes the
`next`-th.  Over any number of calls no frame comes twice, each lies inside a
usable region, and a `None` means that all of them are out, for good.
-/

set_option autoImplicit false

namespace AxiomKernel.Memory

open BootInfoFrameAllocator

/-- The iterator ends exactly when every address is physical and was passed. -/
theorem nthFrame_eq_some_none_iff (addresses : List Nat) (n : Nat) :
    nthFrame addresses n = some none ↔
      addresses.length ≤ n ∧ ∀ address ∈ addresses, address < 2 ^ 52 := by
  induction addresses generalizing n with
  | nil => simp [nthFrame]
  | cons addr rest inductionHypothesis =>
      rw [nthFrame, Option.bind_eq_bind, Option.bind_eq_some_iff]
      simp only [PhysAddr.new_eq_some_iff, List.forall_mem_cons, List.length_cons]
      cases n with
      | zero => simp
      | succ n =>
          rw [Nat.add_le_add_iff_right, and_left_comm, ← inductionHypothesis]
          constructor
          · intro found
            obtain ⟨address, rfl, ended⟩ := found
            exact ⟨address.valid, ended⟩
          · intro found
            exact ⟨⟨addr, found.1⟩, rfl, found.2⟩

theorem nthFrame_returns {addresses : List Nat}
    (physical : ∀ address ∈ addresses, address < 2 ^ 52) (n : Nat) :
    ∃ answer, nthFrame addresses n = some answer := by
  rcases Nat.lt_or_ge n addresses.length with inside | ended
  · have valid := physical addresses[n] (List.getElem_mem inside)
    refine ⟨some (PhysFrame.containingAddress ⟨addresses[n], valid⟩), ?_⟩
    rw [nthFrame_eq_some_iff]
    refine ⟨addresses[n], List.getElem?_eq_getElem inside, rfl, ?_⟩
    intro passed mem
    exact physical passed (List.mem_of_mem_take mem)
  · exact ⟨none, (nthFrame_eq_some_none_iff addresses n).mpr ⟨ended, physical⟩⟩

namespace MemoryMap

variable (map : MemoryMap)

/-- The frame lies entirely inside a usable region of the map. -/
def Usable (frame : PhysFrame) : Prop :=
  ∃ region ∈ map.regions, region.kind = .usable ∧
    region.start.toNat ≤ frame.startAddress.value ∧
    frame.startAddress.value + 4096 ≤ region.stop.toNat

theorem usable_iff (frame : PhysFrame) :
    map.Usable frame ↔
      frame.startAddress.value ∈ map.regions.flatMap MemoryRegion.usableAddresses := by
  rw [List.mem_flatMap, Usable]
  refine exists_congr fun region => and_congr_right fun inMap => ?_
  rw [MemoryRegion.mem_usableAddresses_iff, MemoryRegion.Contains]
  obtain ⟨startAligned, stopAligned⟩ := map.aligned region inMap
  have frameAligned := frame.aligned
  refine and_congr_right fun _ => ?_
  constructor
  · intro inside
    exact ⟨⟨inside.1, by omega⟩, Nat.dvd_sub frameAligned startAligned⟩
  · intro inside
    refine ⟨inside.1.1, ?_⟩
    omega

theorem getElem?_answers_eq_some_iff (calls index : Nat) (answer : Option PhysFrame) :
    (allocateFrames calls (init map.regions))[index]? = some answer ↔
      index < calls ∧ index + 1 < 2 ^ 64 ∧
        nthFrame (map.regions.flatMap MemoryRegion.usableAddresses) index = some answer := by
  have start : (init map.regions).next.toNat = 0 := rfl
  have addresses : (init map.regions).usableAddresses =
      map.regions.flatMap MemoryRegion.usableAddresses := usableAddresses_eq (init map.regions)
  rw [getElem?_allocateFrames_eq_some_iff, start, addresses, Nat.zero_add]

/-- A frame returned stands in the list of usable addresses at the number of the call. -/
theorem getElem?_of_returned {index : Nat} {frame : PhysFrame}
    (returned : nthFrame (map.regions.flatMap MemoryRegion.usableAddresses) index =
      some (some frame)) :
    (map.regions.flatMap MemoryRegion.usableAddresses)[index]? = some frame.startAddress.value := by
  obtain ⟨address, found, rounded, _⟩ := (nthFrame_eq_some_iff ..).mp returned
  rw [found, map.startAddress_eq_of_rounded (List.mem_of_getElem? found) rounded]

theorem answers_injective {calls i j : Nat} {frame : PhysFrame}
    (first : (allocateFrames calls (init map.regions))[i]? = some (some frame))
    (second : (allocateFrames calls (init map.regions))[j]? = some (some frame)) : i = j := by
  rw [getElem?_answers_eq_some_iff] at first second
  have firstFound := map.getElem?_of_returned first.2.2
  have secondFound := map.getElem?_of_returned second.2.2
  exact (List.getElem?_inj (List.getElem?_eq_some_iff.mp firstFound).1 map.addresses_nodup).mp
    (firstFound.trans secondFound.symm)

/-- What a `None` at call `i` says of the map and of the calls before it. -/
theorem returned_before_none {calls i : Nat} {frame : PhysFrame}
    (ended : (allocateFrames calls (init map.regions))[i]? = some none) (usable : map.Usable frame) :
    ∃ j < i, (allocateFrames calls (init map.regions))[j]? = some (some frame) := by
  obtain ⟨inCalls, bounded, passed⟩ := (map.getElem?_answers_eq_some_iff ..).mp ended
  obtain ⟨listed, physical⟩ := (nthFrame_eq_some_none_iff ..).mp passed
  obtain ⟨j, found⟩ := List.mem_iff_getElem?.mp ((map.usable_iff frame).mp usable)
  have inside := (List.getElem?_eq_some_iff.mp found).1
  refine ⟨j, by omega, (map.getElem?_answers_eq_some_iff ..).mpr ⟨by omega, by omega, ?_⟩⟩
  rw [nthFrame_eq_some_iff]
  refine ⟨_, found, (Nat.div_mul_cancel frame.aligned).symm, ?_⟩
  intro address mem
  exact physical address (List.mem_of_mem_take mem)

theorem none_after_none {calls i j : Nat} {answer : Option PhysFrame}
    (ended : (allocateFrames calls (init map.regions))[i]? = some none) (later : i ≤ j)
    (answered : (allocateFrames calls (init map.regions))[j]? = some answer) : answer = none := by
  rw [getElem?_answers_eq_some_iff] at ended answered
  obtain ⟨listed, physical⟩ := (nthFrame_eq_some_none_iff ..).mp ended.2.2
  have laterEnded := (nthFrame_eq_some_none_iff ..).mpr ⟨listed.trans later, physical⟩
  rw [answered.2.2] at laterEnded
  exact Option.some.inj laterEnded

theorem addresses_length :
    (map.regions.flatMap MemoryRegion.usableAddresses).length =
      (map.regions.map MemoryRegion.frameCount).sum := by
  rw [List.length_flatMap]
  simp only [MemoryRegion.usableAddresses_length]

/-- On a map of physical memory the calls return, the first `None` after the last frame. -/
theorem answers_of_physical (physical : ∀ region ∈ map.regions, region.Physical) {calls i : Nat}
    (few : calls < 2 ^ 64) (inCalls : i < calls) :
    ∃ answer, (allocateFrames calls (init map.regions))[i]? = some answer ∧
      (answer = none ↔ (map.regions.map MemoryRegion.frameCount).sum ≤ i) := by
  have addressesPhysical : ∀ address ∈ map.regions.flatMap MemoryRegion.usableAddresses,
      address < 2 ^ 52 := by
    intro address mem
    obtain ⟨region, inMap, inRegion⟩ := List.mem_flatMap.mp mem
    exact (MemoryRegion.physical_iff (map.aligned region inMap)).mp (physical region inMap)
      address inRegion
  obtain ⟨answer, returned⟩ := nthFrame_returns addressesPhysical i
  refine ⟨answer, (map.getElem?_answers_eq_some_iff ..).mpr ⟨inCalls, by omega, returned⟩, ?_⟩
  rw [← addresses_length]
  constructor
  · intro ended
    rw [ended] at returned
    exact ((nthFrame_eq_some_none_iff ..).mp returned).1
  · intro listed
    have ended := (nthFrame_eq_some_none_iff ..).mpr ⟨listed, addressesPhysical⟩
    rw [returned] at ended
    exact Option.some.inj ended

end MemoryMap

/-- Over any number of calls: the frames are distinct and usable; before a `None` each usable
frame has come exactly once, and after it nothing comes; and on physical memory, short of 2^64
calls, every call returns and the first `None` comes after the last frame. -/
theorem frames_handed_out_once (map : MemoryMap) (calls : Nat) :
    (∀ (i j : Nat) (frame : PhysFrame),
      (allocateFrames calls (init map.regions))[i]? = some (some frame) →
      (allocateFrames calls (init map.regions))[j]? = some (some frame) → i = j) ∧
    (∀ frame, some frame ∈ allocateFrames calls (init map.regions) → map.Usable frame) ∧
    (∀ i : Nat, (allocateFrames calls (init map.regions))[i]? = some none →
      (∀ frame, map.Usable frame →
        ∃! j : Nat, j < i ∧ (allocateFrames calls (init map.regions))[j]? = some (some frame)) ∧
      ∀ (j : Nat) (answer : Option PhysFrame), i ≤ j →
        (allocateFrames calls (init map.regions))[j]? = some answer → answer = none) ∧
    ((∀ region ∈ map.regions, region.Physical) → calls < 2 ^ 64 → ∀ i < calls,
      ∃ answer, (allocateFrames calls (init map.regions))[i]? = some answer ∧
        (answer = none ↔ (map.regions.map MemoryRegion.frameCount).sum ≤ i)) := by
  refine ⟨?_, ?_, ?_, ?_⟩
  · intro i j frame first second
    exact map.answers_injective first second
  · intro frame mem
    obtain ⟨index, returned⟩ := List.mem_iff_getElem?.mp mem
    have found := map.getElem?_of_returned ((map.getElem?_answers_eq_some_iff ..).mp returned).2.2
    exact (map.usable_iff frame).mpr (List.mem_of_getElem? found)
  · intro i ended
    refine ⟨?_, fun j answer later answered => map.none_after_none ended later answered⟩
    intro frame usable
    obtain ⟨j, before, returned⟩ := map.returned_before_none ended usable
    exact ⟨j, ⟨before, returned⟩, fun k again => map.answers_injective again.2 returned⟩
  · intro physical few i inCalls
    exact map.answers_of_physical physical few inCalls

end AxiomKernel.Memory
