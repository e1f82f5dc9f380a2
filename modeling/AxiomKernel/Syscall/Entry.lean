import Mathlib
import AxiomKernel.Lib.Bytes
import AxiomKernel.Lib.Words
import AxiomKernel.Lib.ByteMemory
import AxiomKernel.Lib.StackWords
import AxiomKernel.Memory.Paging
import AxiomKernel.Sched.ContextSwitch
import AxiomKernel.User.Setup

/-!
# Entering and leaving the kernel

Model of `syscall_entry.s` instruction by instruction, of `syscall::init`, of the
segment selectors of `gdt.rs` and of `user::enter`, over a processor with its
privilege level, flags and the registers that `SYSCALL`, `SYSRET` and `IRET` use.
The stub is straight-line code around one call; `Returns` is what the System V
convention promises about the function that is called there.

`rip` is the address of the next instruction: at a `SYSCALL` it already points
behind it.
-/

set_option autoImplicit false

namespace AxiomKernel.Syscall

open ByteStrings MachineWords ByteMemory StackWords
open Sched (Reg)

/-! ## Segments -/

inductive Descriptor where
  | null
  | kernelCode
  | kernelData
  | tssLow
  | tssHigh
  | userData
  | userCode
  deriving DecidableEq

/-- The table in the order of the calls of `append`; the TSS takes two slots. -/
def gdt : List Descriptor :=
  [.null, .kernelCode, .kernelData, .tssLow, .tssHigh, .userData, .userCode]

def segmentSelector (index rpl : Nat) : U16 := BitVec.ofNat 16 (8 * index + rpl)

def selected (selector : U16) : Option Descriptor := gdt[selector.toNat / 8]?

def rpl (selector : U16) : Nat := selector.toNat % 4

def userDataSelector : U16 := segmentSelector 5 3

def userCodeSelector : U16 := segmentSelector 6 3

/-! ## The processor -/

structure Cpu extends Stack where
  reg : Reg → U64
  rip : U64
  rflags : U64
  cs : U16
  ss : U16

structure Msrs where
  efer : U64
  star : U64
  lstar : U64
  sfmask : U64

/-- The flags that `SYSRET` can set; bit 1 is always set. -/
def userFlags (image : U64) : U64 := image &&& 0x3C7FD7 ||| 2

/-- `IF`, bit 9. -/
def interruptsEnabled (rflags : U64) : Bool := rflags.getLsbD 9

/-- `TF`, bit 8. -/
def trapFlag (rflags : U64) : Bool := rflags.getLsbD 8

/-- `DF`, bit 10. -/
def directionFlag (rflags : U64) : Bool := rflags.getLsbD 10

/-- The flags a system call depends on.  `SFMASK` clears neither, the stub has no `cld`, and
privilege level 3 may set both. -/
structure CallFlags (rflags : U64) : Prop where
  trap : trapFlag rflags = false
  direction : directionFlag rflags = false

namespace Cpu

/-- The instruction `SYSCALL`.  `none` is an exception: `#UD`, or at privilege level 0 the trap
`#DB` behind the instruction when `TF` is still set; the IDT has no gate for it. -/
def syscall (cpu : Cpu) (msrs : Msrs) : Option Cpu :=
  if msrs.efer.getLsbD 0 ∧ trapFlag (cpu.rflags &&& ~~~msrs.sfmask) = false then
    some { cpu with
      reg := Function.update (Function.update cpu.reg .rcx cpu.rip) .r11 cpu.rflags
      rip := msrs.lstar
      rflags := cpu.rflags &&& ~~~msrs.sfmask
      cs := msrs.star.extractLsb' 32 16 &&& 0xFFFC
      ss := msrs.star.extractLsb' 32 16 + 8 }
  else none

/-- The instruction `SYSRET` with a 64-bit operand.  `none` is an exception, raised at
privilege level 0: `#UD`, or `#GP` when `rcx` is not canonical. -/
def sysretq (cpu : Cpu) (msrs : Msrs) : Option Cpu :=
  if msrs.efer.getLsbD 0 ∧ Memory.Canonical (cpu.reg .rcx) then
    some { cpu with
      rip := cpu.reg .rcx
      rflags := userFlags (cpu.reg .r11)
      cs := (msrs.star.extractLsb' 48 16 + 16) ||| 3
      ss := (msrs.star.extractLsb' 48 16 + 8) ||| 3 }
  else none

/-- The instruction `IRET` with a 64-bit operand, from privilege level 0. -/
def iretq (cpu : Cpu) : Option Cpu :=
  let (rip, frame) := cpu.toStack.pop
  let (cs, frame) := frame.pop
  let (rflags, frame) := frame.pop
  let (rsp, frame) := frame.pop
  let (ss, _) := frame.pop
  if Memory.Canonical rip then
    some { cpu with
      rip := rip
      cs := cs.setWidth 16
      rflags := rflags &&& 0x3D7FD7 ||| 2
      sp := rsp
      ss := ss.setWidth 16 }
  else none

end Cpu

/-! ## The stub -/

inductive Instr where
  /-- `movq %rsp, symbol(%rip)` -/
  | storeRsp (symbol : U64)
  /-- `movq symbol(%rip), %rsp` -/
  | loadRsp (symbol : U64)
  | push (source : Reg)
  | pop (target : Reg)
  | mov (source target : Reg)

def Cpu.exec (cpu : Cpu) : Instr → Cpu
  | .storeRsp symbol => { cpu with memory := storeWord cpu.memory symbol cpu.sp }
  | .loadRsp symbol => { cpu with sp := loadWord cpu.memory symbol }
  | .push source => { cpu with toStack := cpu.toStack.push (cpu.reg source) }
  | .pop target =>
      { cpu with
        toStack := cpu.toStack.pop.2
        reg := Function.update cpu.reg target cpu.toStack.pop.1 }
  | .mov source target => { cpu with reg := Function.update cpu.reg target (cpu.reg source) }

def STACK_SIZE : Nat := 64 * 1024

/-- Where the linker puts the statics of `syscall.rs` and the stub. -/
structure Places where
  /-- `SYSCALL_USER_RSP` -/
  userRsp : U64
  /-- `SYSCALL_KERNEL_RSP` -/
  kernelRsp : U64
  /-- `SYSCALL_STACK` -/
  stack : U64
  syscallEntry : U64

/-- What `init` stores in `SYSCALL_KERNEL_RSP`. -/
def Places.top (places : Places) : U64 :=
  (places.stack + BitVec.ofNat 64 STACK_SIZE) &&& ~~~0xF

def saveRegisters : List Instr :=
  [.push .rcx, .push .r11, .push .rbp, .push .rbx, .push .r12, .push .r13, .push .r14, .push .r15]

def marshalArguments : List Instr :=
  [.mov .rdx .rcx, .mov .rsi .rdx, .mov .rdi .rsi, .mov .rax .rdi]

def restoreRegisters : List Instr :=
  [.pop .r15, .pop .r14, .pop .r13, .pop .r12, .pop .rbx, .pop .rbp, .pop .r11, .pop .rcx]

/-- `syscall_entry` up to the call of `syscall_dispatch`. -/
def Places.prologue (places : Places) : List Instr :=
  [.storeRsp places.userRsp, .loadRsp places.kernelRsp] ++ saveRegisters ++ marshalArguments

/-- `syscall_entry` from the return of `syscall_dispatch` on, up to `sysretq`. -/
def Places.epilogue (places : Places) : List Instr :=
  restoreRegisters ++ [.loadRsp places.userRsp]

/-- From the instruction `SYSCALL` to the first instruction of `syscall_dispatch`. -/
def Cpu.enterKernel (cpu : Cpu) (places : Places) (msrs : Msrs) (returnAddress : U64) :
    Option Cpu := do
  let entered ← cpu.syscall msrs
  let ready := places.prologue.foldl Cpu.exec entered
  return { ready with toStack := ready.toStack.push returnAddress }

/-- From the return of `syscall_dispatch` to the next instruction of the user program. -/
def Cpu.leaveKernel (cpu : Cpu) (places : Places) (msrs : Msrs) : Option Cpu :=
  (places.epilogue.foldl Cpu.exec cpu).sysretq msrs

/-- The selectors for `SYSCALL` in bits 32 to 47, those for `SYSRET` from bit 48 on. -/
def starSelectors : U64 := ((0x0020 : U64) <<< 48) ||| ((0x0008 : U64) <<< 32)

/-- `syscall::init`: the model-specific registers and memory afterwards. -/
def init (places : Places) (msrs : Msrs) (memory : Memory) : Msrs × Memory :=
  ({ efer := msrs.efer ||| 1
     star := starSelectors
     lstar := places.syscallEntry
     sfmask := 0x200 },
    storeWord memory places.kernelRsp places.top)

/-- `user::enter`: five pushes and `iretq`. -/
def Cpu.enter (cpu : Cpu) (entry : U64) : Option Cpu :=
  iretq { cpu with
    toStack := cpu.toStack.pushAll [userDataSelector.setWidth 64, User.USER_STACK_TOP, 0x202,
      userCodeSelector.setWidth 64, entry] }

/-! ## Memory that belongs to the kernel -/

/-- The statics lie in the kernel's memory and do not overlap. -/
structure Layout extends Places where
  kernel : Set Nat
  stackFits : stack.toNat + STACK_SIZE < 2 ^ 64
  userRspFits : userRsp.toNat + 8 ≤ 2 ^ 64
  kernelRspFits : kernelRsp.toNat + 8 ≤ 2 ^ 64
  stackKernel : ∀ a, Span stack STACK_SIZE a → a ∈ kernel
  userRspKernel : ∀ a, Span userRsp 8 a → a ∈ kernel
  kernelRspKernel : ∀ a, Span kernelRsp 8 a → a ∈ kernel
  wordsApart : userRsp.toNat + 8 ≤ kernelRsp.toNat ∨ kernelRsp.toNat + 8 ≤ userRsp.toNat
  userRspOffStack : userRsp.toNat + 8 ≤ stack.toNat ∨ stack.toNat + STACK_SIZE ≤ userRsp.toNat
  kernelRspOffStack :
    kernelRsp.toNat + 8 ≤ stack.toNat ∨ stack.toNat + STACK_SIZE ≤ kernelRsp.toNat

theorem Layout.top_toNat (layout : Layout) :
    layout.top.toNat = (layout.stack.toNat + STACK_SIZE) / 16 * 16 := by
  have fits := layout.stackFits
  have sum : (layout.stack + BitVec.ofNat 64 STACK_SIZE).toNat =
      layout.stack.toNat + STACK_SIZE := by
    rw [BitVec.toNat_add, BitVec.toNat_ofNat, Nat.add_mod_mod, Nat.mod_eq_of_lt fits]
  rw [Places.top, ← sum]
  exact and_not_lowMask_toNat (layout.stack + BitVec.ofNat 64 STACK_SIZE) 4

/-- The stack pointer the stub loads is aligned, and the stack reaches at least
`STACK_SIZE - 15` bytes below it. -/
theorem Layout.top_bounds (layout : Layout) :
    layout.top.toNat % 16 = 0 ∧ layout.top.toNat ≤ layout.stack.toNat + STACK_SIZE ∧
      layout.stack.toNat + STACK_SIZE < layout.top.toNat + 16 := by
  rw [layout.top_toNat]
  omega

/-- The state that `init` leaves and that the stub relies on. -/
structure Configured (layout : Layout) (msrs : Msrs) (memory : Memory) : Prop where
  enabled : msrs.efer.getLsbD 0 = true
  star : msrs.star = starSelectors
  lstar : msrs.lstar = layout.syscallEntry
  sfmask : msrs.sfmask = 0x200
  kernelRsp : loadWord memory layout.kernelRsp = layout.top

theorem init_configured (layout : Layout) (msrs : Msrs) (memory : Memory) :
    Configured layout (init layout.toPlaces msrs memory).1 (init layout.toPlaces msrs memory).2 where
  enabled := by
    simp [init]
  star := rfl
  lstar := rfl
  sfmask := rfl
  kernelRsp := loadWord_storeWord memory layout.kernelRsp layout.top

theorem Configured.congr {layout : Layout} {msrs : Msrs} {memory after : Memory}
    (configured : Configured layout msrs memory)
    (same : ∀ a, Span layout.kernelRsp 8 a → after a = memory a) :
    Configured layout msrs after where
  enabled := configured.enabled
  star := configured.star
  lstar := configured.lstar
  sfmask := configured.sfmask
  kernelRsp := by
    rw [← configured.kernelRsp]
    exact loadWord_congr fun a above below => same a ⟨above, below⟩

/-! ## The convention for the call -/

def calleeSaved : List Reg := [.rbx, .rbp, .r12, .r13, .r14, .r15]

/-- What a function that keeps to the System V convention does between its first
instruction and the instruction behind the call.  It has the kernel's memory for its
own, except the frames of its callers and the two statics of the stub. -/
structure KeepsConvention (layout : Layout) (called returned : Cpu) : Prop where
  sp : returned.sp = called.sp + 8
  saved : ∀ r ∈ calleeSaved, returned.reg r = called.reg r
  frames : ∀ a, (called.sp + 8).toNat ≤ a → a < layout.top.toNat →
    returned.memory a = called.memory a
  userRsp : loadWord returned.memory layout.userRsp = loadWord called.memory layout.userRsp
  kernelRsp : loadWord returned.memory layout.kernelRsp = loadWord called.memory layout.kernelRsp
  outside : ∀ a, a ∉ layout.kernel → returned.memory a = called.memory a

/-- The convention demands that `DF` is clear at the call; of a function that is called with
`DF` set nothing is known. -/
def Returns (layout : Layout) (called returned : Cpu) : Prop :=
  directionFlag called.rflags = false → KeepsConvention layout called returned

/-! ## What the stub does -/

section Stub

variable {layout : Layout} {msrs : Msrs} {user called returned : Cpu} {returnAddress : U64}

/-- The words the stub pushes, the first pushed first. -/
def Cpu.pushed (user : Cpu) (returnAddress : U64) : List U64 :=
  [user.rip, user.rflags, user.reg .rbp, user.reg .rbx, user.reg .r12, user.reg .r13,
    user.reg .r14, user.reg .r15, returnAddress]

/-- Memory once the user's stack pointer is stored. -/
def Cpu.spSaved (user : Cpu) (layout : Layout) : Memory :=
  storeWord user.memory layout.userRsp user.sp

/-- The stack at the first instruction of `syscall_dispatch`. -/
def Cpu.kernelStack (user : Cpu) (layout : Layout) (returnAddress : U64) : Stack :=
  (Stack.mk layout.top (user.spSaved layout)).pushAll (user.pushed returnAddress)

/-- The processor at the first instruction of `syscall_dispatch`. -/
structure Dispatches (layout : Layout) (user called : Cpu) (returnAddress : U64) : Prop where
  stack : called.toStack = user.kernelStack layout returnAddress
  nr : called.reg .rdi = user.reg .rax
  arg1 : called.reg .rsi = user.reg .rdi
  arg2 : called.reg .rdx = user.reg .rsi
  arg3 : called.reg .rcx = user.reg .rdx
  saved : ∀ r ∈ calleeSaved, called.reg r = user.reg r
  rflags : called.rflags = user.rflags &&& ~~~0x200
  cs : called.cs = segmentSelector 1 0
  ss : called.ss = segmentSelector 2 0

theorem loadWord_spSaved (layout : Layout) (user : Cpu) :
    loadWord (user.spSaved layout) layout.kernelRsp = loadWord user.memory layout.kernelRsp := by
  have apart := layout.wordsApart
  refine loadWord_congr fun a above below => storeWord_outside user.memory ?_
  omega

theorem getLsbD_masked (rflags : U64) {bit : Nat} (inWord : bit < 64) (other : bit ≠ 9) :
    (rflags &&& ~~~0x200).getLsbD bit = rflags.getLsbD bit := by
  have mask : (0x200 : U64) = BitVec.twoPow 64 9 := rfl
  rw [BitVec.getLsbD_and, BitVec.getLsbD_not, mask, BitVec.getLsbD_twoPow]
  simp [inWord, other.symm]

theorem interruptsEnabled_masked (rflags : U64) :
    interruptsEnabled (rflags &&& ~~~0x200) = false := by
  rw [interruptsEnabled, BitVec.getLsbD_and, BitVec.getLsbD_not]
  simp

theorem trapFlag_masked (rflags : U64) : trapFlag (rflags &&& ~~~0x200) = trapFlag rflags :=
  getLsbD_masked rflags (by decide) (by decide)

theorem directionFlag_masked (rflags : U64) :
    directionFlag (rflags &&& ~~~0x200) = directionFlag rflags :=
  getLsbD_masked rflags (by decide) (by decide)

theorem enterKernel_traps (configured : Configured layout msrs user.memory)
    (returnAddress : U64) (trap : trapFlag user.rflags = true) :
    user.enterKernel layout.toPlaces msrs returnAddress = none := by
  have trapped : ¬ (msrs.efer.getLsbD 0 ∧ trapFlag (user.rflags &&& ~~~msrs.sfmask) = false) := by
    rw [configured.sfmask, trapFlag_masked, trap]
    simp
  rw [Cpu.enterKernel, Cpu.syscall, if_neg trapped]
  rfl

theorem enterKernel_dispatches (configured : Configured layout msrs user.memory)
    (noTrap : trapFlag user.rflags = false) (returnAddress : U64) :
    ∃ called, user.enterKernel layout.toPlaces msrs returnAddress = some called ∧
      Dispatches layout user called returnAddress := by
  have top : loadWord (user.spSaved layout) layout.kernelRsp = layout.top :=
    (loadWord_spSaved layout user).trans configured.kernelRsp
  rw [Cpu.spSaved] at top
  have runs : msrs.efer.getLsbD 0 ∧ trapFlag (user.rflags &&& ~~~msrs.sfmask) = false := by
    rw [configured.sfmask, trapFlag_masked]
    exact ⟨configured.enabled, noTrap⟩
  rw [Cpu.enterKernel, Cpu.syscall, if_pos runs]
  refine ⟨_, rfl, ?_⟩
  simp only [Places.prologue, saveRegisters, marshalArguments, List.cons_append, List.nil_append,
    List.foldl_cons, List.foldl_nil, Cpu.exec, top]
  constructor
  · simp only [Cpu.kernelStack, Cpu.spSaved, Cpu.pushed, Stack.pushAll, Function.update_apply,
      reduceCtorEq, if_true, if_false]
  · simp
  · simp
  · simp
  · simp
  · intro r saved
    simp only [calleeSaved, List.mem_cons, List.not_mem_nil, or_false] at saved
    rcases saved with rfl | rfl | rfl | rfl | rfl | rfl <;> simp
  · simp only [configured.sfmask]
  · simp only [configured.star]
    decide
  · simp only [configured.star]
    decide

namespace Dispatches

theorem sp_toNat (dispatches : Dispatches layout user called returnAddress) :
    called.sp.toNat = layout.top.toNat - 72 := by
  have bounds := layout.top_bounds
  rw [STACK_SIZE] at bounds
  rw [dispatches.stack, Cpu.kernelStack, Stack.pushAll_sp]
  refine BitVec.toNat_sub_of_le ?_
  change 72 ≤ layout.top.toNat
  omega

theorem sp_add (dispatches : Dispatches layout user called returnAddress) :
    (called.sp + 8).toNat = layout.top.toNat - 64 := by
  have bounds := layout.top_bounds
  have sp := dispatches.sp_toNat
  have isLt := layout.top.isLt
  rw [STACK_SIZE] at bounds
  rw [BitVec.toNat_add, sp]
  change (layout.top.toNat - 72 + 8) % 2 ^ 64 = layout.top.toNat - 64
  rw [Nat.mod_eq_of_lt (by omega)]
  omega

/-- Up to the call the stub has written its 72 bytes of stack and `SYSCALL_USER_RSP`. -/
theorem memory_outside (dispatches : Dispatches layout user called returnAddress) {a : Nat}
    (offStack : a < layout.top.toNat - 72 ∨ layout.top.toNat ≤ a)
    (offWord : a < layout.userRsp.toNat ∨ layout.userRsp.toNat + 8 ≤ a) :
    called.memory a = user.memory a := by
  have bounds := layout.top_bounds
  rw [STACK_SIZE] at bounds
  have pushes : called.memory a = user.spSaved layout a := by
    rw [dispatches.stack, Cpu.kernelStack]
    refine Stack.pushAll_outside (user.pushed returnAddress) ?_ offStack
    change 72 ≤ layout.top.toNat
    omega
  rw [pushes, Cpu.spSaved, storeWord_outside user.memory offWord]

theorem loadWord_userRsp (dispatches : Dispatches layout user called returnAddress) :
    loadWord called.memory layout.userRsp = user.sp := by
  have bounds := layout.top_bounds
  have off := layout.userRspOffStack
  rw [STACK_SIZE] at bounds off
  have kept : loadWord called.memory layout.userRsp =
      loadWord (user.spSaved layout) layout.userRsp := by
    refine loadWord_congr fun a above below => ?_
    rw [dispatches.stack, Cpu.kernelStack]
    refine Stack.pushAll_outside (user.pushed returnAddress) ?_ ?_
    · change 72 ≤ layout.top.toNat
      omega
    · change a < layout.top.toNat - 72 ∨ layout.top.toNat ≤ a
      omega
  rw [kept, Cpu.spSaved, loadWord_storeWord]

theorem loadWord_kernelRsp (dispatches : Dispatches layout user called returnAddress) :
    loadWord called.memory layout.kernelRsp = loadWord user.memory layout.kernelRsp := by
  have bounds := layout.top_bounds
  have off := layout.kernelRspOffStack
  have apart := layout.wordsApart
  rw [STACK_SIZE] at bounds off
  exact loadWord_congr fun a above below => dispatches.memory_outside (by omega) (by omega)

theorem memory_user (dispatches : Dispatches layout user called returnAddress) {a : Nat}
    (outside : a ∉ layout.kernel) : called.memory a = user.memory a := by
  have bounds := layout.top_bounds
  have notStack : ¬ Span layout.stack STACK_SIZE a := fun inside =>
    outside (layout.stackKernel a inside)
  have notWord : ¬ Span layout.userRsp 8 a := fun inside =>
    outside (layout.userRspKernel a inside)
  rw [Span, STACK_SIZE] at notStack
  rw [Span] at notWord
  rw [STACK_SIZE] at bounds
  exact dispatches.memory_outside (by omega) (by omega)

/-- The saved registers stand on the stack, above the return address. -/
theorem holds (dispatches : Dispatches layout user called returnAddress) :
    HoldsWords called.memory (called.sp + 8) [user.reg .r15, user.reg .r14, user.reg .r13,
      user.reg .r12, user.reg .rbx, user.reg .rbp, user.rflags, user.rip] := by
  have bounds := layout.top_bounds
  rw [STACK_SIZE] at bounds
  have room : 8 * (user.pushed returnAddress).length ≤ layout.top.toNat := by
    change 72 ≤ layout.top.toNat
    omega
  have all := Stack.pushAll_holds (user.pushed returnAddress)
    (Stack.mk layout.top (user.spSaved layout)) room
  have sp : called.sp = layout.top - BitVec.ofNat 64 (8 * (user.pushed returnAddress).length) := by
    rw [dispatches.stack, Cpu.kernelStack, Stack.pushAll_sp]
  rw [dispatches.stack] at sp ⊢
  rw [sp]
  exact all.2

/-- With `DF` clear in user mode the convention binds the dispatcher. -/
theorem keepsConvention (dispatches : Dispatches layout user called returnAddress)
    (direction : directionFlag user.rflags = false) (returns : Returns layout called returned) :
    KeepsConvention layout called returned := by
  apply returns
  rw [dispatches.rflags, directionFlag_masked, direction]

end Dispatches

/-- The next system call finds the stub configured as this one did. -/
theorem Configured.kept (configured : Configured layout msrs user.memory)
    (dispatches : Dispatches layout user called returnAddress)
    (returns : KeepsConvention layout called returned) : Configured layout msrs returned.memory where
  enabled := configured.enabled
  star := configured.star
  lstar := configured.lstar
  sfmask := configured.sfmask
  kernelRsp := by
    rw [returns.kernelRsp, dispatches.loadWord_kernelRsp, configured.kernelRsp]

/-- The user's processor state after a system call: all as before, but for the registers
the convention leaves to the callee. -/
structure Resumes (user resumed : Cpu) : Prop where
  rip : resumed.rip = user.rip
  sp : resumed.sp = user.sp
  rflags : resumed.rflags = user.rflags
  cs : resumed.cs = user.cs
  ss : resumed.ss = user.ss
  saved : ∀ r ∈ calleeSaved, resumed.reg r = user.reg r
  rcx : resumed.reg .rcx = user.rip
  r11 : resumed.reg .r11 = user.rflags

/-- A processor that runs the user program.  Nothing is assumed of `TF` and `DF`, which are the
program's to set; what depends on them asks for `CallFlags`. -/
structure Cpu.UserMode (cpu : Cpu) : Prop where
  cs : cpu.cs = userCodeSelector
  ss : cpu.ss = userDataSelector
  rflags : userFlags cpu.rflags = cpu.rflags

/-- The stub's second half, up to `sysretq`, has the user's state in its registers. -/
theorem epilogue_restores (dispatches : Dispatches layout user called returnAddress)
    (returns : KeepsConvention layout called returned) :
    ∃ reg, layout.epilogue.foldl Cpu.exec returned = { returned with sp := user.sp, reg := reg } ∧
      (∀ r ∈ calleeSaved, reg r = user.reg r) ∧ reg .rcx = user.rip ∧ reg .r11 = user.rflags ∧
      reg .rax = returned.reg .rax := by
  have bounds := layout.top_bounds
  rw [STACK_SIZE] at bounds
  have isLt := layout.top.isLt
  have bottom := dispatches.sp_add
  have held : HoldsWords returned.memory returned.sp [user.reg .r15, user.reg .r14,
      user.reg .r13, user.reg .r12, user.reg .rbx, user.reg .rbp, user.rflags, user.rip] := by
    rw [returns.sp]
    refine dispatches.holds.congr ?_ ?_
    · simp only [List.length_cons, List.length_nil]
      omega
    · intro a above below
      simp only [List.length_cons, List.length_nil] at below
      exact (returns.frames a above (by omega)).symm
  obtain ⟨r15, r14, r13, r12, rbx, rbp, r11, rcx, _⟩ := held
  have userRsp : loadWord returned.memory layout.userRsp = user.sp :=
    returns.userRsp.trans dispatches.loadWord_userRsp
  simp only [Places.epilogue, restoreRegisters, List.cons_append, List.nil_append,
    List.foldl_cons, List.foldl_nil, Cpu.exec, Stack.pop, r15, r14, r13, r12, rbx, rbp, r11, rcx,
    userRsp]
  refine ⟨_, rfl, ?_, ?_, ?_, ?_⟩
  · intro r saved
    simp only [calleeSaved, List.mem_cons, List.not_mem_nil, or_false] at saved
    rcases saved with rfl | rfl | rfl | rfl | rfl | rfl <;> simp
  · simp
  · simp
  · simp

theorem sysret_cs : (starSelectors.extractLsb' 48 16 + 16) ||| 3 = userCodeSelector := by
  decide

theorem sysret_ss : (starSelectors.extractLsb' 48 16 + 8) ||| 3 = userDataSelector := by
  decide

theorem leaveKernel_resumes (configured : Configured layout msrs user.memory)
    (mode : user.UserMode) (dispatches : Dispatches layout user called returnAddress)
    (returns : KeepsConvention layout called returned) (canonical : Memory.Canonical user.rip) :
    ∃ resumed, returned.leaveKernel layout.toPlaces msrs = some resumed ∧ Resumes user resumed ∧
      resumed.reg .rax = returned.reg .rax ∧ resumed.memory = returned.memory := by
  obtain ⟨reg, restored, saved, rcx, r11, rax⟩ := epilogue_restores dispatches returns
  rw [← rcx] at canonical
  rw [Cpu.leaveKernel, restored, Cpu.sysretq, if_pos ⟨configured.enabled, canonical⟩,
    configured.star, sysret_cs, sysret_ss]
  refine ⟨_, rfl, ?_, rax, rfl⟩
  constructor
  · exact rcx
  · rfl
  · exact (congrArg userFlags r11).trans mode.rflags
  · exact mode.cs.symm
  · exact mode.ss.symm
  · exact saved
  · exact rcx
  · exact r11

theorem leaveKernel_faults (dispatches : Dispatches layout user called returnAddress)
    (returns : KeepsConvention layout called returned)
    (notCanonical : ¬ Memory.Canonical user.rip) :
    returned.leaveKernel layout.toPlaces msrs = none := by
  obtain ⟨reg, restored, _, rcx, _⟩ := epilogue_restores dispatches returns
  rw [← rcx] at notCanonical
  rw [Cpu.leaveKernel, restored, Cpu.sysretq, if_neg fun both => notCanonical both.2]

end Stub

/-! ## One system call -/

/-- One system call from user mode.  With `TF` set the trap comes before the stub's first
instruction.  With `TF` and `DF` clear the dispatcher is called at privilege level 0 on an aligned
kernel stack, with interrupts off and the user's number and arguments.  Once it returns, whatever
it did to the other registers and to the kernel's memory, the user program goes on behind its
`SYSCALL` with everything the convention keeps, exactly when that address is canonical; if it is
not, `SYSRET` faults at privilege level 0, with the stack pointer of the user program. -/
theorem syscall_round_trip (layout : Layout) (msrs : Msrs) (user : Cpu) (returnAddress : U64)
    (configured : Configured layout msrs user.memory) (mode : user.UserMode) :
    (trapFlag user.rflags = true → user.enterKernel layout.toPlaces msrs returnAddress = none) ∧
    (CallFlags user.rflags →
      ∃ called, user.enterKernel layout.toPlaces msrs returnAddress = some called ∧
      selected called.cs = some .kernelCode ∧ rpl called.cs = 0 ∧
      selected called.ss = some .kernelData ∧
      interruptsEnabled called.rflags = false ∧
      (called.sp.toNat + 8) % 16 = 0 ∧
      layout.stack.toNat + STACK_SIZE - 88 < called.sp.toNat ∧
      called.sp.toNat + 72 ≤ layout.stack.toNat + STACK_SIZE ∧
      called.reg .rdi = user.reg .rax ∧ called.reg .rsi = user.reg .rdi ∧
      called.reg .rdx = user.reg .rsi ∧ called.reg .rcx = user.reg .rdx ∧
      (∀ a, a ∉ layout.kernel → called.memory a = user.memory a) ∧
      ∀ returned, Returns layout called returned →
        (Memory.Canonical user.rip →
          ∃ resumed, returned.leaveKernel layout.toPlaces msrs = some resumed ∧
            Resumes user resumed ∧ resumed.reg .rax = returned.reg .rax ∧
            (∀ a, a ∉ layout.kernel → resumed.memory a = user.memory a) ∧
            Configured layout msrs resumed.memory) ∧
        (¬ Memory.Canonical user.rip →
          returned.leaveKernel layout.toPlaces msrs = none ∧
          (layout.epilogue.foldl Cpu.exec returned).sp = user.sp)) := by
  refine ⟨enterKernel_traps configured returnAddress, ?_⟩
  intro flags
  obtain ⟨called, entered, dispatches⟩ :=
    enterKernel_dispatches configured flags.trap returnAddress
  have bounds := layout.top_bounds
  have sp := dispatches.sp_toNat
  have size : STACK_SIZE = 65536 := rfl
  have cs : selected called.cs = some .kernelCode ∧ rpl called.cs = 0 := by
    rw [dispatches.cs]
    decide
  have ss : selected called.ss = some .kernelData := by
    rw [dispatches.ss]
    decide
  refine ⟨called, entered, cs.1, cs.2, ss, ?_, by omega, by omega, by omega, dispatches.nr,
    dispatches.arg1, dispatches.arg2, dispatches.arg3, fun a => dispatches.memory_user, ?_⟩
  · rw [dispatches.rflags, interruptsEnabled_masked]
  intro returned returns
  have kept := dispatches.keepsConvention flags.direction returns
  constructor
  · intro canonical
    obtain ⟨resumed, left, resumes, rax, memory⟩ :=
      leaveKernel_resumes configured mode dispatches kept canonical
    refine ⟨resumed, left, resumes, rax, ?_, ?_⟩
    · intro a outside
      rw [memory, kept.outside a outside, dispatches.memory_user outside]
    · rw [memory]
      exact configured.kept dispatches kept
  · intro notCanonical
    obtain ⟨reg, restored, _⟩ := epilogue_restores dispatches kept
    refine ⟨leaveKernel_faults dispatches kept notCanonical, ?_⟩
    rw [restored]

/-- The two words at `0x1000` and `0x1008`, the stack from `0x2000` on. -/
def lowLayout : Layout where
  userRsp := 0x1000
  kernelRsp := 0x1008
  stack := 0x2000
  syscallEntry := 0x800
  kernel := { a | a < 0x20000 }
  stackFits := by decide
  userRspFits := by decide
  kernelRspFits := by decide
  stackKernel := fun _ inside => lt_of_lt_of_le inside.2 (by decide)
  userRspKernel := fun _ inside => lt_of_lt_of_le inside.2 (by decide)
  kernelRspKernel := fun _ inside => lt_of_lt_of_le inside.2 (by decide)
  wordsApart := by decide
  userRspOffStack := by decide
  kernelRspOffStack := by decide

/-- A processor at the end of booting, about to call `Exit`. -/
def bootCpu : Cpu where
  sp := 0x18000
  memory := fun _ => 0
  reg := Function.update (fun _ => 0) .rax 11
  rip := 0x900
  rflags := 0x2
  cs := segmentSelector 1 0
  ss := segmentSelector 2 0

def bootMsrs : Msrs where
  efer := 0x500
  star := 0
  lstar := 0
  sfmask := 0

/-- A user program behind its first `SYSCALL`. -/
def userCpu : Cpu :=
  { bootCpu with
    sp := 0x500000000000
    memory := (init lowLayout.toPlaces bootMsrs bootCpu.memory).2
    rip := 0x400000000005
    rflags := 0x202
    cs := userCodeSelector
    ss := userDataSelector }

/-- The call `Exit`, and the same call right behind a `popf` that sets `TF`. -/
theorem syscall_round_trip_exit :
    { userCpu with rflags := 0x302 }.enterKernel lowLayout.toPlaces
        (init lowLayout.toPlaces bootMsrs bootCpu.memory).1 0x820 = none ∧
    ∃ called, userCpu.enterKernel lowLayout.toPlaces
        (init lowLayout.toPlaces bootMsrs bootCpu.memory).1 0x820 = some called ∧
      interruptsEnabled called.rflags = false ∧ called.reg .rdi = 11 ∧
      ∀ returned, Returns lowLayout called returned →
        ∃ resumed, returned.leaveKernel lowLayout.toPlaces
            (init lowLayout.toPlaces bootMsrs bootCpu.memory).1 = some resumed ∧
          resumed.rip = 0x400000000005 := by
  have configured := init_configured lowLayout bootMsrs bootCpu.memory
  constructor
  · exact (syscall_round_trip lowLayout _ { userCpu with rflags := 0x302 } 0x820 configured
      ⟨rfl, rfl, by decide⟩).1 (by decide)
  · obtain ⟨called, entered, _, _, _, interrupts, _, _, _, nr, _, _, _, _, leaves⟩ :=
      (syscall_round_trip lowLayout _ userCpu 0x820 configured ⟨rfl, rfl, by decide⟩).2
        ⟨by decide, by decide⟩
    refine ⟨called, entered, interrupts, nr, ?_⟩
    intro returned returns
    obtain ⟨resumed, left, resumes, _⟩ := (leaves returned returns).1 (by decide)
    exact ⟨resumed, left, resumes.rip⟩

end AxiomKernel.Syscall
