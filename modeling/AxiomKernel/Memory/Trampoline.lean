import Mathlib
import AxiomKernel.Lib.Bytes
import AxiomKernel.Lib.Words
import AxiomKernel.Lib.ByteMemory
import AxiomKernel.Memory.FrameAllocator
import AxiomKernel.Memory.Paging
import AxiomKernel.Memory.Heap

/-!
# The trampoline page of the application processors

`kernel_main` identity-maps the physical page `0x50000` and `install_trampoline`
writes the start-up code and its control block there, while the frame allocator
treats that page like any other.  Both sides are put together here.
-/

set_option autoImplicit false

namespace AxiomKernel.Memory

open ByteStrings MachineWords ByteMemory BootInfoFrameAllocator

/-- The frame `kernel_main` maps at virtual `0x50000`. -/
def trampolineFrame : PhysFrame := PhysFrame.containingAddress ⟨0x50000, by decide⟩

def AP_TRAMPOLINE_BIN : List U8 :=
  [0xEB, 0x3E, 0x1F, 0x00, 0x08, 0x00, 0x05, 0x00, 0x00, 0x00, 0x00, 0x00, 0x00, 0x00, 0x00, 0x00,
   0xFF, 0xFF, 0x00, 0x00, 0x00, 0x9A, 0xCF, 0x00, 0xFF, 0xFF, 0x00, 0x00, 0x00, 0x92, 0xCF, 0x00,
   0xFF, 0xFF, 0x00, 0x00, 0x00, 0x9A, 0xAF, 0x00, 0x90, 0x90, 0x90, 0x90, 0x90, 0x90, 0x90, 0x90,
   0x90, 0x90, 0x90, 0x90, 0x90, 0x90, 0x90, 0x90, 0x90, 0x90, 0x90, 0x90, 0x90, 0x90, 0x90, 0x90,
   0x8C, 0xC8, 0x8E, 0xD8, 0x0F, 0x01, 0x16, 0x02, 0x00, 0x0F, 0x20, 0xC0, 0x0C, 0x01, 0x0F, 0x22,
   0xC0, 0x66, 0xEA, 0x80, 0x00, 0x05, 0x00, 0x08, 0x00, 0x90, 0x90, 0x90, 0x90, 0x90, 0x90, 0x90,
   0x90, 0x90, 0x90, 0x90, 0x90, 0x90, 0x90, 0x90, 0x90, 0x90, 0x90, 0x90, 0x90, 0x90, 0x90, 0x90,
   0x90, 0x90, 0x90, 0x90, 0x90, 0x90, 0x90, 0x90, 0x90, 0x90, 0x90, 0x90, 0x90, 0x90, 0x90, 0x90,
   0xB8, 0x10, 0x00, 0x00, 0x00, 0x8E, 0xD8, 0x8E, 0xC0, 0x8E, 0xD0, 0x0F, 0x20, 0xE0, 0x0F, 0xBA,
   0xE8, 0x05, 0x0F, 0x22, 0xE0, 0xA1, 0xE8, 0x0F, 0x05, 0x00, 0x0F, 0x22, 0xD8, 0xB9, 0x80, 0x00,
   0x00, 0xC0, 0x0F, 0x32, 0x0F, 0xBA, 0xE8, 0x08, 0x0F, 0x30, 0x0F, 0x20, 0xC0, 0x0D, 0x00, 0x00,
   0x00, 0x80, 0x0F, 0x22, 0xC0, 0xEA, 0xC0, 0x00, 0x05, 0x00, 0x18, 0x00, 0x90, 0x90, 0x90, 0x90,
   0x48, 0x8B, 0x24, 0x25, 0xF0, 0x0F, 0x05, 0x00, 0x48, 0x8B, 0x3C, 0x25, 0xE0, 0x0F, 0x05, 0x00,
   0x48, 0x8B, 0x04, 0x25, 0xF8, 0x0F, 0x05, 0x00, 0xFF, 0xD0, 0xF4, 0xEB, 0xFD]

/-- The effect of `install_trampoline` on physical memory; `apMain` is the address
of `ap_main`.  The read-back of the first bytes only prints. -/
def installTrampoline (physOffset cr3 : U64) (coreId : U32) (stackTop apMain : U64)
    (memory : Memory) : Option Memory := do
  let base ← checkedAdd physOffset 0x50000
  if 0xFE0 < AP_TRAMPOLINE_BIN.length then none
  let memory := writeBytes memory (windowAddress physOffset base) AP_TRAMPOLINE_BIN
  -- Control block, read by the 64-bit trampoline code.
  let coreIdAt ← checkedAdd base 0xFE0
  let memory := writeBytes memory (windowAddress physOffset coreIdAt) (toLeBytes 8 (coreId.setWidth 64))
  let cr3At ← checkedAdd base 0xFE8
  let memory := writeBytes memory (windowAddress physOffset cr3At) (toLeBytes 8 cr3)
  let stackTopAt ← checkedAdd base 0xFF0
  let memory := writeBytes memory (windowAddress physOffset stackTopAt) (toLeBytes 8 stackTop)
  let apMainAt ← checkedAdd base 0xFF8
  some (writeBytes memory (windowAddress physOffset apMainAt) (toLeBytes 8 apMain))

theorem AP_TRAMPOLINE_BIN_length : AP_TRAMPOLINE_BIN.length = 221 := by decide +kernel

theorem installTrampoline_outside {physOffset cr3 stackTop apMain : U64} {coreId : U32}
    {before after : Memory} {address : Nat}
    (installed : installTrampoline physOffset cr3 coreId stackTop apMain before = some after)
    (outside : ¬ trampolineFrame.Contains address) : after address = before address := by
  have range : address < 0x50000 ∨ 0x51000 ≤ address := by
    rw [PhysFrame.Contains, trampolineFrame] at outside
    simp only [PhysFrame.containingAddress] at outside
    omega
  have codeLength := AP_TRAMPOLINE_BIN_length
  have noAssert : ¬ 0xFE0 < AP_TRAMPOLINE_BIN.length := by omega
  simp only [installTrampoline, Option.bind_eq_bind, Option.bind_eq_some_iff, checkedAdd_eq_some_iff,
    windowAddress, if_neg noAssert, Option.some.injEq, BitVec.reduceToNat] at installed
  obtain ⟨base, baseEq, coreIdAt, coreIdEq, cr3At, cr3Eq, stackTopAt, stackTopEq, apMainAt,
    apMainEq, rfl⟩ := installed
  rw [writeBytes_outside, writeBytes_outside, writeBytes_outside, writeBytes_outside,
    writeBytes_outside]
  all_goals
    simp only [toLeBytes_length, codeLength]
    omega

/-! ## What the allocator hands out -/

/-- Nothing the kernel has been handed is overwritten when the processors start,
exactly as long as fewer frames were taken than the map lists up to the page. -/
theorem trampoline_frame_reserved_iff (map : MemoryMap) (calls : Nat) :
    (∀ frame, some frame ∈ allocateFrames calls (init map.regions) →
      frame ≠ trampolineFrame ∧
      ∀ (physOffset cr3 : U64) (coreId : U32) (stackTop apMain : U64) (before after : Memory),
        installTrampoline physOffset cr3 coreId stackTop apMain before = some after →
        ∀ address, frame.Contains address → after address = before address) ↔
      ∀ position, map.ListsAt trampolineFrame position → calls ≤ position := by
  constructor
  · intro reserved position listed
    by_contra reached
    have handedOut := (map.handedOut_iff calls trampolineFrame).mpr
      ⟨position, Nat.lt_of_not_le reached, listed⟩
    exact (reserved trampolineFrame handedOut).1 rfl
  · intro late frame handedOut
    have different : frame ≠ trampolineFrame := by
      rintro rfl
      obtain ⟨position, below, listed⟩ := (map.handedOut_iff calls trampolineFrame).mp handedOut
      exact absurd below (Nat.not_lt_of_le (late position listed))
    refine ⟨different, ?_⟩
    intro physOffset cr3 coreId stackTop apMain before after installed address inside
    exact installTrampoline_outside installed (PhysFrame.not_contains_of_ne different inside)

/-- `HEAP_SIZE` in pages: what `init_heap` takes before the processors start. -/
def HEAP_PAGES : Nat := HEAP_SIZE.toNat / 4096

/-- With the conventional memory usable the heap is given the trampoline frame, and
starting a processor overwrites its zeroed bytes. -/
theorem heap_takes_trampoline_frame :
    some trampolineFrame ∈ allocateFrames HEAP_PAGES (init conventionalMemory.regions) ∧
      (installTrampoline 0 0x2000 1 0x8000 0x9000 fun _ => 0).map (· 0x50000) = some 0xEB := by
  constructor
  · rw [MemoryMap.handedOut_iff]
    refine ⟨0x4F, by decide, [], ⟨0x1000, 0x9F000, .usable⟩,
      [⟨0x9F000, 0x100000, .unknownBios 2⟩], rfl, rfl, by decide, ?_, rfl⟩
    intro passed impossible
    cases impossible
  · decide +kernel

end AxiomKernel.Memory
