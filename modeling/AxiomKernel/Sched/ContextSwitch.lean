import Mathlib
import AxiomKernel.Lib.Bytes
import AxiomKernel.Lib.ByteMemory
import AxiomKernel.Lib.StackWords

/-!
# The context switch

Model of `context_switch.s` over registers and memory, instruction by instruction,
and of the stack that `Task::new_with_budget` of `task.rs` builds for it.  The
routine is straight-line code, so only `ret` moves `rip`.

`FrameAt` is the layout the two files have to agree on: the routine leaves the
context of its caller in such a frame and takes the next one from another.
-/

set_option autoImplicit false

namespace AxiomKernel.Sched

open ByteStrings ByteMemory StackWords

/-! ## The machine -/

/-- The general registers; `rsp` is the stack pointer of the machine's stack. -/
inductive Reg where
  | rax | rbx | rcx | rdx | rsi | rdi | rbp | r8 | r9 | r10 | r11 | r12 | r13 | r14 | r15
  deriving DecidableEq

/-- `rflags` of privilege level 0: bit 1 is set, and of the rest only the flags that `popfq`
writes can be. -/
structure RFlags where
  value : U64
  canonical : value = value &&& 0x247FD5 ||| 2
  deriving DecidableEq

/-- What `popfq` makes of a word. -/
def RFlags.ofImage (image : U64) : RFlags where
  value := image &&& 0x247FD5 ||| 2
  canonical := by
    refine BitVec.eq_of_getLsbD_eq fun i bound => ?_
    simp only [BitVec.getLsbD_or, BitVec.getLsbD_and]
    cases image.getLsbD i <;> cases BitVec.getLsbD (0x247FD5 : U64) i <;>
      cases BitVec.getLsbD (2 : U64) i <;> rfl

theorem RFlags.ofImage_value (flags : RFlags) : RFlags.ofImage flags.value = flags := by
  obtain ⟨value, canonical⟩ := flags
  rw [ofImage, RFlags.mk.injEq]
  exact canonical.symm

/-- `IF`, bit 9. -/
def RFlags.interruptsEnabled (flags : RFlags) : Bool :=
  flags.value.getLsbD 9

structure Machine extends Stack where
  reg : Reg → U64
  rflags : RFlags
  rip : U64

inductive Instr where
  | pushfq
  | push (source : Reg)
  /-- `mov %rsp, (%base)` -/
  | storeRsp (base : Reg)
  /-- `mov %source, %rsp` -/
  | loadRsp (source : Reg)
  | pop (target : Reg)
  | popfq
  | ret

namespace Machine

def exec (machine : Machine) : Instr → Machine
  | .pushfq => { machine with toStack := machine.push machine.rflags.value }
  | .push source => { machine with toStack := machine.push (machine.reg source) }
  | .storeRsp base =>
      { machine with memory := storeWord machine.memory (machine.reg base) machine.sp }
  | .loadRsp source => { machine with sp := machine.reg source }
  | .pop target =>
      { machine with
        toStack := machine.pop.2
        reg := Function.update machine.reg target machine.pop.1 }
  | .popfq => { machine with toStack := machine.pop.2, rflags := RFlags.ofImage machine.pop.1 }
  | .ret => { machine with toStack := machine.pop.2, rip := machine.pop.1 }

end Machine

def saveRegisters : List Instr :=
  [.pushfq, .push .rbp, .push .rbx, .push .r12, .push .r13, .push .r14, .push .r15]

def restoreRegisters : List Instr :=
  [.pop .r15, .pop .r14, .pop .r13, .pop .r12, .pop .rbx, .pop .rbp, .popfq, .ret]

def contextSwitch : List Instr :=
  saveRegisters ++ [.storeRsp .rdi, .loadRsp .rsi] ++ restoreRegisters

/-- `call context_switch`: the return address is pushed and the routine runs. -/
def Machine.callContextSwitch (machine : Machine) (returnAddress : U64) : Machine :=
  contextSwitch.foldl Machine.exec { machine with toStack := machine.push returnAddress }

/-- `Task::new_with_budget`: a zeroed stack with an `InitCtx` 128 bytes below its top, and the
`rsp` of the task. -/
def newWithBudget (memory : Memory) (stack : U64) (stackSize : Nat) (entry : U64) :
    Memory × U64 :=
  let zeroed := writeBytes memory stack.toNat (List.replicate stackSize 0)
  let stackTop := stack + BitVec.ofNat 64 stackSize
  let ctxPtr := stackTop - 64 - 128
  (storeWords zeroed ctxPtr [0, 0, 0, 0, 0, 0, 0x200, entry], ctxPtr)

/-! ## Contexts and frames -/

/-- What a task finds again: the callee-saved registers, the flags, where it goes on and the
stack pointer there. -/
structure Context where
  r15 : U64
  r14 : U64
  r13 : U64
  r12 : U64
  rbx : U64
  rbp : U64
  rflags : RFlags
  rip : U64
  rsp : U64
  deriving DecidableEq

def Machine.context (machine : Machine) : Context where
  r15 := machine.reg .r15
  r14 := machine.reg .r14
  r13 := machine.reg .r13
  r12 := machine.reg .r12
  rbx := machine.reg .rbx
  rbp := machine.reg .rbp
  rflags := machine.rflags
  rip := machine.rip
  rsp := machine.sp

/-- The context of a task that has not run. -/
def Context.initial (rsp entry : U64) : Context where
  r15 := 0
  r14 := 0
  r13 := 0
  r12 := 0
  rbx := 0
  rbp := 0
  rflags := RFlags.ofImage 0x200
  rip := entry
  rsp := rsp

/-- The 64 bytes below the stack pointer of a context hold the rest of it. -/
def Context.FrameAt (context : Context) (memory : Memory) : Prop :=
  ∃ image, RFlags.ofImage image = context.rflags ∧
    HoldsWords memory (context.rsp - 64) [context.r15, context.r14, context.r13, context.r12,
      context.rbx, context.rbp, image, context.rip]

theorem sub_toNat {address amount : U64} (room : amount.toNat ≤ address.toNat) :
    (address - amount).toNat = address.toNat - amount.toNat :=
  BitVec.toNat_sub_of_le room

theorem Context.FrameAt.congr {context : Context} {left right : Memory}
    (frame : context.FrameAt left) (room : 64 ≤ context.rsp.toNat)
    (same : ∀ a, context.rsp.toNat - 64 ≤ a → a < context.rsp.toNat → left a = right a) :
    context.FrameAt right := by
  obtain ⟨image, flags, holds⟩ := frame
  have bottom : (context.rsp - 64).toNat = context.rsp.toNat - 64 := sub_toNat room
  have bound := context.rsp.isLt
  refine ⟨image, flags, holds.congr ?_ ?_⟩
  · simp only [List.length_cons, List.length_nil]
    omega
  · intro a above below
    simp only [List.length_cons, List.length_nil] at below
    exact same a (by omega) (by omega)

/-! ## What the routine does -/

namespace Machine

/-- The words on the stack when the routine stores `rsp`, the first pushed first. -/
def pushed (machine : Machine) (returnAddress : U64) : List U64 :=
  [returnAddress, machine.rflags.value, machine.reg .rbp, machine.reg .rbx, machine.reg .r12,
    machine.reg .r13, machine.reg .r14, machine.reg .r15]

/-- The memory between saving one context and loading the next. -/
def savedMemory (machine : Machine) (returnAddress : U64) : Memory :=
  storeWord (machine.pushAll (machine.pushed returnAddress)).memory (machine.reg .rdi)
    (machine.pushAll (machine.pushed returnAddress)).sp

theorem save_eq (machine : Machine) (returnAddress : U64) :
    saveRegisters.foldl exec { machine with toStack := machine.push returnAddress } =
      { machine with toStack := machine.pushAll (machine.pushed returnAddress) } := by
  simp only [saveRegisters, List.foldl_cons, List.foldl_nil, exec, pushed, Stack.pushAll]

theorem callContextSwitch_eq (machine : Machine) (returnAddress : U64) :
    machine.callContextSwitch returnAddress =
      restoreRegisters.foldl exec
        { machine with sp := machine.reg .rsi, memory := machine.savedMemory returnAddress } := by
  rw [callContextSwitch, contextSwitch, List.foldl_append, List.foldl_append, save_eq]
  simp only [List.foldl_cons, List.foldl_nil, exec, savedMemory]

theorem restore_memory (machine : Machine) :
    (restoreRegisters.foldl exec machine).memory = machine.memory := by
  simp only [restoreRegisters, List.foldl_cons, List.foldl_nil, exec, Stack.pop]

/-- The second half of the routine takes a context from its frame. -/
theorem restore_context {machine : Machine} {context : Context}
    (frame : context.FrameAt machine.memory) (top : machine.sp = context.rsp - 64) :
    (restoreRegisters.foldl exec machine).context = context := by
  obtain ⟨image, flags, holds⟩ := frame
  rw [← top] at holds
  obtain ⟨r15, r14, r13, r12, rbx, rbp, loaded, rip, _⟩ := holds
  have rsp : machine.sp + 8 + 8 + 8 + 8 + 8 + 8 + 8 + 8 = context.rsp := by
    rw [top]
    simp only [BitVec.add_assoc]
    exact BitVec.sub_add_cancel context.rsp 64
  simp only [restoreRegisters, List.foldl_cons, List.foldl_nil, exec, Stack.pop, Machine.context,
    Function.update_apply, reduceCtorEq, if_true, if_false, r15, r14, r13, r12, rbx, rbp, loaded,
    flags, rip, rsp]

theorem callContextSwitch_memory (machine : Machine) (returnAddress : U64) :
    (machine.callContextSwitch returnAddress).memory = machine.savedMemory returnAddress := by
  rw [callContextSwitch_eq, restore_memory]

/-- The routine writes 64 bytes below the stack pointer and the word `rdi` points to. -/
theorem savedMemory_outside {machine : Machine} {returnAddress : U64} {a : Nat}
    (room : 64 ≤ machine.sp.toNat)
    (offStack : a < machine.sp.toNat - 64 ∨ machine.sp.toNat ≤ a)
    (offSlot : a < (machine.reg .rdi).toNat ∨ (machine.reg .rdi).toNat + 8 ≤ a) :
    machine.savedMemory returnAddress a = machine.memory a := by
  rw [savedMemory, storeWord_outside _ offSlot]
  exact Stack.pushAll_outside (machine.pushed returnAddress) room offStack

/-- The first half of the routine leaves the context of the caller in a frame. -/
theorem frameAt_savedMemory {machine : Machine} {returnAddress : U64}
    (room : 64 ≤ machine.sp.toNat)
    (apart : (machine.reg .rdi).toNat + 8 ≤ machine.sp.toNat - 64 ∨
      machine.sp.toNat ≤ (machine.reg .rdi).toNat) :
    Context.FrameAt { machine.context with rip := returnAddress }
      (machine.savedMemory returnAddress) := by
  have holds := Stack.pushAll_holds (machine.pushed returnAddress) machine.toStack room
  have framed : Context.FrameAt { machine.context with rip := returnAddress }
      (machine.pushAll (machine.pushed returnAddress)).memory :=
    ⟨machine.rflags.value, machine.rflags.ofImage_value, holds⟩
  refine framed.congr room ?_
  intro a above below
  rw [savedMemory]
  have above' : machine.sp.toNat - 64 ≤ a := above
  have below' : a < machine.sp.toNat := below
  exact (storeWord_outside _ (by omega)).symm

theorem loadWord_savedMemory (machine : Machine) (returnAddress : U64) :
    loadWord (machine.savedMemory returnAddress) (machine.reg .rdi) = machine.sp - 64 := by
  rw [savedMemory, loadWord_storeWord, Stack.pushAll_sp]
  rfl

end Machine

/-! ## The first frame -/

theorem top_sub_toNat {stack amount : U64} {stackSize : Nat}
    (fits : stack.toNat + stackSize < 2 ^ 64) (room : amount.toNat ≤ stackSize) :
    (stack + BitVec.ofNat 64 stackSize - amount).toNat =
      stack.toNat + stackSize - amount.toNat := by
  have top : (stack + BitVec.ofNat 64 stackSize).toNat = stack.toNat + stackSize := by
    rw [BitVec.toNat_add, BitVec.toNat_ofNat, Nat.add_mod_mod, Nat.mod_eq_of_lt fits]
  rw [sub_toNat (by omega), top]

/-- The frame that `new_with_budget` builds is one the routine can load. -/
theorem frameAt_newWithBudget (memory : Memory) {stack : U64} {stackSize : Nat} (entry : U64)
    (large : 192 ≤ stackSize) (fits : stack.toNat + stackSize < 2 ^ 64) :
    (newWithBudget memory stack stackSize entry).2.toNat = stack.toNat + stackSize - 192 ∧
      Context.FrameAt
        (Context.initial ((newWithBudget memory stack stackSize entry).2 + 64) entry)
        (newWithBudget memory stack stackSize entry).1 := by
  have ctxPtr : (stack + BitVec.ofNat 64 stackSize - 64 - 128).toNat =
      stack.toNat + stackSize - 192 := by
    rw [sub_sub]
    exact top_sub_toNat fits large
  refine ⟨ctxPtr, 0x200, rfl, ?_⟩
  simp only [newWithBudget, Context.initial, BitVec.add_sub_cancel]
  refine storeWords_holds _ ?_
  rw [ctxPtr]
  simp only [List.length_cons, List.length_nil]
  omega

theorem newWithBudget_outside (memory : Memory) {stack : U64} {stackSize : Nat} (entry : U64)
    (large : 192 ≤ stackSize) (fits : stack.toNat + stackSize < 2 ^ 64) {a : Nat}
    (outside : a < stack.toNat ∨ stack.toNat + stackSize ≤ a) :
    (newWithBudget memory stack stackSize entry).1 a = memory a := by
  have ctxPtr := (frameAt_newWithBudget memory entry large fits).1
  simp only [newWithBudget] at ctxPtr ⊢
  rw [storeWords_outside, writeBytes_outside]
  · rwa [List.length_replicate]
  · simp only [List.length_cons, List.length_nil]
    omega
  · simp only [List.length_cons, List.length_nil]
    omega

end AxiomKernel.Sched
