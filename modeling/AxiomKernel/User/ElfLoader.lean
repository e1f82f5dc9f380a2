import Mathlib
import AxiomKernel.Lib.Bytes
import AxiomKernel.Lib.Words
import AxiomKernel.Lib.Slices
import AxiomKernel.Lib.SteppedRange
import AxiomKernel.Lib.ByteMemory
import AxiomKernel.Lib.TwoRun
import AxiomKernel.Memory.Paging

/-!
# The ELF-64 loader

Model of `elf_loader.rs`.  Reading the headers does not touch the machine, so it
is separate from the page loop: `elfHeader` and `programHeader` return a value,
an `ElfError`, or `none` where the source panics on an overflow or an index.
-/

set_option autoImplicit false

namespace AxiomKernel.User

open ByteStrings ByteSlices MachineWords SteppedRanges TwoRuns Memory

def ELFMAG : List U8 := [0x7f, 0x45, 0x4c, 0x46]
def ELFCLASS64 : U8 := 2
def ELFDATA2LSB : U8 := 1
def EM_X86_64 : U16 := 62
def ET_EXEC : U16 := 2
def PT_LOAD : U32 := 1
def PF_X : U32 := 1
def PF_W : U32 := 2

inductive ElfError where
  | tooShort
  | badMagic
  | notElf64
  | notLittleEndian
  | notX86_64
  | notExecutable
  | badPhOffset
  | segmentOutOfBounds
  | pageMapFailed
  | frameAllocFailed
  deriving DecidableEq

/-! ## Headers -/

def readLe (w : Nat) (bytes : List U8) (offset : Nat) : Option (BitVec w) := do
  let field ← readRange bytes offset (offset + w / 8)
  some (fromLeBytes w field)

structure ElfHeader where
  entry : U64
  phoff : U64
  phentsize : U64
  phnum : Nat

def elfHeader (bytes : List U8) : Option (Except ElfError ElfHeader) := ExceptT.run do
  if bytes.length < 64 then throw .tooShort
  if (← readRange bytes 0 4) ≠ ELFMAG then throw .badMagic
  if (← readByte bytes 4) ≠ ELFCLASS64 then throw .notElf64
  if (← readByte bytes 5) ≠ ELFDATA2LSB then throw .notLittleEndian
  let eType ← readLe 16 bytes 16
  let eMachine ← readLe 16 bytes 18
  if eMachine ≠ EM_X86_64 then throw .notX86_64
  if eType ≠ ET_EXEC then throw .notExecutable
  let eEntry ← readLe 64 bytes 24
  let ePhoff ← readLe 64 bytes 32
  let ePhentsize ← readLe 16 bytes 54
  let ePhnum ← readLe 16 bytes 56
  return ⟨eEntry, ePhoff, ePhentsize.setWidth 64, ePhnum.toNat⟩

/-- A `PT_LOAD` segment: its flags, its file contents and where they go. -/
structure Segment where
  flags : PageTableFlags
  data : List U8
  vaddr : U64
  filesz : U64
  startPage : U64
  endPage : U64

def pageFlags (pFlags : U32) : PageTableFlags where
  present := true
  userAccessible := true
  writable := pFlags &&& PF_W ≠ 0
  noExecute := pFlags &&& PF_X = 0

/-- Program header `i`; `none` inside when it is not `PT_LOAD`. -/
def programHeader (bytes : List U8) (header : ElfHeader) (i : Nat) :
    Option (Except ElfError (Option Segment)) := ExceptT.run do
  let index ← checkedMul (BitVec.ofNat 64 i) header.phentsize
  let off ← checkedAdd header.phoff index
  let offEnd ← checkedAdd off header.phentsize
  if bytes.length < offEnd.toNat then throw .badPhOffset
  let pType ← readLe 32 bytes off.toNat
  if pType ≠ PT_LOAD then return none
  let pFlags ← readLe 32 bytes (off.toNat + 4)
  let pOffset ← readLe 64 bytes (off.toNat + 8)
  let pVaddr ← readLe 64 bytes (off.toNat + 16)
  let pFilesz ← readLe 64 bytes (off.toNat + 32)
  let pMemsz ← readLe 64 bytes (off.toNat + 40)
  -- `p_align` is only printed, but reading it can panic.
  let _pAlign ← readLe 64 bytes (off.toNat + 48)
  let fileEnd ← checkedAdd pOffset pFilesz
  if bytes.length < fileEnd.toNat then throw .segmentOutOfBounds
  let data ← readRange bytes pOffset.toNat fileEnd.toNat
  let endAddr ← checkedAdd pVaddr pMemsz
  let endRounded ← checkedAdd endAddr 0xFFF
  return some ⟨pageFlags pFlags, data, pVaddr, pFilesz, alignDown pVaddr, alignDown endRounded⟩

/-! ## Pages -/

/-- The part of the segment that falls into the page at `vpage`: the offset in the
page and the bytes. -/
def pageContents (segment : Segment) (vpage : U64) : Option (Nat × List U8) := do
  let pageEnd ← checkedAdd vpage 4096
  let fileEnd ← checkedAdd segment.vaddr segment.filesz
  let copyStart := if segment.vaddr ≤ vpage then vpage else segment.vaddr
  let copyEnd := if fileEnd ≤ pageEnd then fileEnd else pageEnd
  if copyStart < copyEnd then
    let srcOff := copyStart - segment.vaddr
    let dstOff := copyStart - vpage
    let len := copyEnd - copyStart
    let src ← readRange segment.data srcOff.toNat segment.data.length
    some (dstOff.toNat, src.take len.toNat)
  else
    some (0, [])

section Loader

variable {μ : Type} (paging : Paging μ) (physOffset : VirtAddr)

/-- One turn of the page loop.  Adding 4096 to `vpage` for the next turn cannot
overflow when `page_end` did not. -/
def loadPage (segment : Segment) (vpage : U64) :
    ExceptT ElfError (StateT (Machine μ) Option) Unit := do
  let some frame ← perform paging.allocateFrame | throw .frameAllocFailed
  let address ← perform (panicOr (VirtAddr.new vpage))
  let page := Page.containingAddress address
  let .ok () ← perform (paging.map page frame segment.flags) | throw .pageMapFailed
  let kv ← perform (panicOr (physOffset.add (BitVec.ofNat 64 frame.startAddress.value)))
  let base := windowAddress physOffset.value kv.value
  perform (store base (List.replicate 4096 0))
  let (dstOff, contents) ← perform (panicOr (pageContents segment vpage))
  perform (store (base + dstOff) contents)

/-- Program header `i`: nothing, or every page from `start_page` to `end_page`. -/
def loadSegment (bytes : List U8) (header : ElfHeader) (i : Nat) :
    ExceptT ElfError (StateT (Machine μ) Option) Unit := do
  let some segment ← stateless (programHeader bytes header i) | return ()
  (stepBy segment.startPage.toNat segment.endPage.toNat 4096).forM fun vpage =>
    loadPage paging physOffset segment (BitVec.ofNat 64 vpage)

def load (bytes : List U8) : ExceptT ElfError (StateT (Machine μ) Option) U64 := do
  let header ← stateless (elfHeader bytes)
  (List.range header.phnum).forM (loadSegment paging physOffset bytes header)
  return header.entry

end Loader

/-- A file with one readable and executable segment that holds `contents` at `vaddr`. -/
def oneSegmentElf (vaddr : U64) (contents : List U8) : List U8 :=
  ELFMAG ++ [2, 1, 1] ++ List.replicate 9 0 ++ leBytes 2 2 ++ leBytes 2 62 ++ leBytes 4 1 ++
    toLeBytes 8 vaddr ++ leBytes 8 64 ++ leBytes 8 0 ++ leBytes 4 0 ++ leBytes 2 64 ++
    leBytes 2 56 ++ leBytes 2 1 ++ List.replicate 6 0 ++
  leBytes 4 1 ++ leBytes 4 5 ++ leBytes 8 120 ++ toLeBytes 8 vaddr ++ leBytes 8 0 ++
    leBytes 8 contents.length ++ leBytes 8 contents.length ++ leBytes 8 4096 ++ contents

end AxiomKernel.User
