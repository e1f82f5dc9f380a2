import Mathlib
import AxiomKernel.Lib.Bytes
import AxiomKernel.Lib.TwoRun
import AxiomKernel.Memory.Paging
import AxiomKernel.User.ElfLoader

/-!
# Setting up user space

Model of `user::setup`: load the ELF program, or install the hand-coded program
when that fails, then map the user stack.
-/

set_option autoImplicit false

namespace AxiomKernel.User

open ByteStrings TwoRuns Memory

def USER_CODE_VIRT : U64 := 0x0000400000000000
def USER_STACK_TOP : U64 := 0x0000500000000000

def USER_PROGRAM : List U8 :=
  [0x48, 0x31, 0xC0,
   0x0F, 0x05,
   0x48, 0xC7, 0xC0, 0x09, 0x00, 0x00, 0x00,
   0x0F, 0x05,
   0x48, 0xC7, 0xC0, 0x0B, 0x00, 0x00, 0x00,
   0x48, 0x31, 0xFF,
   0x0F, 0x05,
   0xEB, 0xFE]

section Setup

variable {μ : Type} (paging : Paging μ) (physOffset : VirtAddr)

/-- What both branches below do first: map a new frame at `virt` and return where it
is seen in the window.  Every `expect` is a panic. -/
def mapNewPage (virt : U64) (flags : PageTableFlags) : StateT (Machine μ) Option Nat := do
  let frame ← panicOr (← paging.allocateFrame)
  let address ← panicOr (VirtAddr.new virt)
  panicOr (← paging.map (Page.containingAddress address) frame flags).toOption
  let kv ← panicOr (physOffset.add (BitVec.ofNat 64 frame.startAddress.value))
  return windowAddress physOffset.value kv.value

def installUserProgram : StateT (Machine μ) Option U64 := do
  let flags := { present := true, writable := true, userAccessible := true, noExecute := false }
  let dst ← mapNewPage paging physOffset USER_CODE_VIRT flags
  store dst (List.replicate 4096 0xCC)
  store dst USER_PROGRAM
  return USER_CODE_VIRT

def mapUserStack : StateT (Machine μ) Option Unit := do
  let stackFlags := { present := true, writable := true, userAccessible := true, noExecute := true }
  let dst ← mapNewPage paging physOffset (USER_STACK_TOP - 4096) stackFlags
  store dst (List.replicate 4096 0)

/-- `setup` for the embedded program `elfProgram`. -/
def setup (elfProgram : List U8) : StateT (Machine μ) Option U64 := do
  let entry ← match ← (load paging physOffset elfProgram).run with
    | .ok ep => pure ep
    | .error _ => installUserProgram paging physOffset
  mapUserStack paging physOffset
  return entry

end Setup

end AxiomKernel.User
