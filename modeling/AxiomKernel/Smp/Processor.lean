import Mathlib
import AxiomKernel.Lib.Bytes
import AxiomKernel.Lib.Words
import AxiomKernel.Lib.ByteMemory

/-!
# An application processor

The part of a processor that the bytes of `AP_TRAMPOLINE_BIN` use, from real mode over
protected mode to long mode: the instructions with their encodings in each mode, segments
that come from a descriptor table in memory, and page tables below `cr3` once paging is
on.  What is not modelled here decodes to nothing and stops the processor.
-/

set_option autoImplicit false

namespace AxiomKernel.Smp

open ByteStrings MachineWords ByteMemory

/-! ## The processor -/

/-- How the code segment makes the processor decode. -/
inductive Mode where
  | real16
  | protected32
  | long64
  deriving DecidableEq

structure Segment where
  selector : U16
  base : Nat
  deriving DecidableEq

structure Ap where
  mode : Mode
  cs : Segment
  ds : Segment
  es : Segment
  ss : Segment
  ip : Nat
  rax : U64
  rcx : U64
  rdx : U64
  rsp : U64
  rdi : U64
  cr0 : U32
  cr3 : U64
  cr4 : U32
  efer : U64
  gdtBase : Nat
  gdtLimit : Nat
  memory : Memory

/-- The page tables below a `cr3`, as the processor reads them with an `EFER`: the physical
address behind a linear one, `none` a page fault. -/
abbrev Walk := U64 → U64 → Nat → Option Nat

namespace Ap

def eax (ap : Ap) : U32 := ap.rax.setWidth 32

/-- Writing a 32-bit register clears the upper half. -/
def setEax (ap : Ap) (value : U32) : Ap := { ap with rax := value.setWidth 64 }

/-- `CR0.PE` -/
def protection (ap : Ap) : Bool := ap.cr0.getLsbD 0

/-- `CR0.PG` -/
def paging (ap : Ap) : Bool := ap.cr0.getLsbD 31

def translate (ap : Ap) (walk : Walk) (linear : Nat) : Option Nat :=
  if ap.paging then walk ap.cr3 ap.efer linear else some linear

def readBytes (ap : Ap) (walk : Walk) (linear length : Nat) : Option (List U8) :=
  (List.range length).mapM fun i => (ap.translate walk (linear + i)).map ap.memory

def writeBytes (ap : Ap) (walk : Walk) (linear : Nat) : List U8 → Option Memory
  | [] => some ap.memory
  | byte :: rest => do
      let physical ← ap.translate walk linear
      let memory ← ap.writeBytes walk (linear + 1) rest
      some (Function.update memory physical byte)

end Ap

/-! ## Instructions -/

inductive ControlRegister where
  | cr0
  | cr3
  | cr4
  deriving DecidableEq

inductive SegmentRegister where
  | ds
  | es
  | ss
  deriving DecidableEq

inductive Instr where
  | jmpShort (displacement : Nat)
  /-- `mov ax, cs` -/
  | movAxCs
  /-- `mov ds, ax` and the like -/
  | movSegment (target : SegmentRegister)
  /-- `lgdt [address]` with a 16-bit operand -/
  | lgdt (address : Nat)
  /-- `mov eax, cr0` and the like -/
  | movFromControl (source : ControlRegister)
  /-- `mov cr0, eax` and the like -/
  | movToControl (target : ControlRegister)
  | orAl (immediate : U8)
  | orEax (immediate : U32)
  | movEax (immediate : U32)
  | movEcx (immediate : U32)
  /-- `mov eax, [address]` -/
  | loadEax (address : Nat)
  /-- `bts eax, bit` -/
  | bts (bit : Nat)
  | rdmsr
  | wrmsr
  | jmpFar (selector : U16) (offset : Nat)
  /-- `mov rsp, [address]` and the like -/
  | loadRsp (address : Nat)
  | loadRdi (address : Nat)
  | loadRax (address : Nat)
  /-- `call rax` -/
  | callRax
  | hlt
  deriving DecidableEq

def le16 (b0 b1 : Nat) : Nat := b0 + 256 * b1

def le32 (b0 b1 b2 b3 : Nat) : Nat := b0 + 256 * (b1 + 256 * (b2 + 256 * b3))

/-- The control register of a ModR/M byte with the operand `eax`. -/
def controlRegister : Nat → Option ControlRegister
  | 0xC0 => some .cr0
  | 0xD8 => some .cr3
  | 0xE0 => some .cr4
  | _ => none

/-- The segment register of a ModR/M byte with the operand `ax`. -/
def segmentRegister : Nat → Option SegmentRegister
  | 0xC0 => some .es
  | 0xD0 => some .ss
  | 0xD8 => some .ds
  | _ => none

def decode16 : List Nat → Option (Instr × Nat)
  | 0xEB :: rel :: _ => some (.jmpShort rel, 2)
  | 0x8C :: 0xC8 :: _ => some (.movAxCs, 2)
  | 0x8E :: modrm :: _ => (segmentRegister modrm).map fun target => (.movSegment target, 2)
  | 0x0F :: 0x01 :: 0x16 :: b0 :: b1 :: _ => some (.lgdt (le16 b0 b1), 5)
  | 0x0F :: 0x20 :: modrm :: _ =>
      (controlRegister modrm).map fun source => (.movFromControl source, 3)
  | 0x0F :: 0x22 :: modrm :: _ =>
      (controlRegister modrm).map fun target => (.movToControl target, 3)
  | 0x0C :: imm :: _ => some (.orAl (BitVec.ofNat 8 imm), 2)
  | 0x66 :: 0xEA :: b0 :: b1 :: b2 :: b3 :: s0 :: s1 :: _ =>
      some (.jmpFar (BitVec.ofNat 16 (le16 s0 s1)) (le32 b0 b1 b2 b3), 8)
  | _ => none

def decode32 : List Nat → Option (Instr × Nat)
  | 0xB8 :: b0 :: b1 :: b2 :: b3 :: _ => some (.movEax (BitVec.ofNat 32 (le32 b0 b1 b2 b3)), 5)
  | 0xB9 :: b0 :: b1 :: b2 :: b3 :: _ => some (.movEcx (BitVec.ofNat 32 (le32 b0 b1 b2 b3)), 5)
  | 0x0D :: b0 :: b1 :: b2 :: b3 :: _ => some (.orEax (BitVec.ofNat 32 (le32 b0 b1 b2 b3)), 5)
  | 0xA1 :: b0 :: b1 :: b2 :: b3 :: _ => some (.loadEax (le32 b0 b1 b2 b3), 5)
  | 0x8E :: modrm :: _ => (segmentRegister modrm).map fun target => (.movSegment target, 2)
  | 0x0F :: 0x20 :: modrm :: _ =>
      (controlRegister modrm).map fun source => (.movFromControl source, 3)
  | 0x0F :: 0x22 :: modrm :: _ =>
      (controlRegister modrm).map fun target => (.movToControl target, 3)
  | 0x0F :: 0xBA :: 0xE8 :: imm :: _ => some (.bts imm, 4)
  | 0x0F :: 0x32 :: _ => some (.rdmsr, 2)
  | 0x0F :: 0x30 :: _ => some (.wrmsr, 2)
  | 0xEA :: b0 :: b1 :: b2 :: b3 :: s0 :: s1 :: _ =>
      some (.jmpFar (BitVec.ofNat 16 (le16 s0 s1)) (le32 b0 b1 b2 b3), 7)
  | _ => none

def decode64 : List Nat → Option (Instr × Nat)
  | 0x48 :: 0x8B :: 0x24 :: 0x25 :: b0 :: b1 :: b2 :: b3 :: _ =>
      some (.loadRsp (le32 b0 b1 b2 b3), 8)
  | 0x48 :: 0x8B :: 0x3C :: 0x25 :: b0 :: b1 :: b2 :: b3 :: _ =>
      some (.loadRdi (le32 b0 b1 b2 b3), 8)
  | 0x48 :: 0x8B :: 0x04 :: 0x25 :: b0 :: b1 :: b2 :: b3 :: _ =>
      some (.loadRax (le32 b0 b1 b2 b3), 8)
  | 0xFF :: 0xD0 :: _ => some (.callRax, 2)
  | 0xF4 :: _ => some (.hlt, 1)
  | 0xEB :: rel :: _ => some (.jmpShort rel, 2)
  | _ => none

/-- The instruction at the start of a byte string, and its length. -/
def decode : Mode → List Nat → Option (Instr × Nat)
  | .real16 => decode16
  | .protected32 => decode32
  | .long64 => decode64

/-! ## Execution -/

namespace Ap

/-- The eight bytes of a segment descriptor; outside the table the access faults. -/
def descriptor (ap : Ap) (walk : Walk) (selector : U16) : Option (List U8) :=
  let index := selector.toNat / 8 * 8
  if ap.gdtLimit < index + 7 then none else ap.readBytes walk (ap.gdtBase + index) 8

end Ap

def descriptorBase (bytes : List U8) : Nat :=
  le32 (bytes.getD 2 0).toNat (bytes.getD 3 0).toNat (bytes.getD 4 0).toNat (bytes.getD 7 0).toNat

/-- The present bit. -/
def descriptorPresent (bytes : List U8) : Bool := (bytes.getD 5 0).getLsbD 7

/-- The bit that tells code from data. -/
def descriptorExecutable (bytes : List U8) : Bool := (bytes.getD 5 0).getLsbD 3

/-- How a code segment is decoded: the bits `L` and `D`. -/
def descriptorMode (bytes : List U8) (longActive : Bool) : Option Mode :=
  if (bytes.getD 6 0).getLsbD 5 && longActive then some .long64
  else if (bytes.getD 6 0).getLsbD 6 then some .protected32
  else none

namespace Ap

def loadSegment (ap : Ap) (walk : Walk) (selector : U16) : Option Segment :=
  if ap.protection then do
    let bytes ← ap.descriptor walk selector
    if descriptorPresent bytes then some ⟨selector, descriptorBase bytes⟩ else none
  else some ⟨selector, selector.toNat * 16⟩

def jmpFar (ap : Ap) (walk : Walk) (selector : U16) (offset : Nat) : Option Ap :=
  if ap.protection then do
    let bytes ← ap.descriptor walk selector
    if descriptorPresent bytes && descriptorExecutable bytes then
      let mode ← descriptorMode bytes (ap.efer.getLsbD 10)
      some { ap with mode := mode, cs := ⟨selector, descriptorBase bytes⟩, ip := offset }
    else none
  else none

/-- Turning paging on with `EFER.LME` activates long mode, and faults without `CR4.PAE`. -/
def writeCr0 (ap : Ap) (value : U32) : Option Ap :=
  if value.getLsbD 31 then
    if value.getLsbD 0 && (!ap.efer.getLsbD 8 || ap.cr4.getLsbD 5) then
      some { ap with
        cr0 := value
        efer := if ap.efer.getLsbD 8 then ap.efer ||| 0x400 else ap.efer }
    else none
  else some { ap with cr0 := value, efer := ap.efer &&& ~~~0x400 }

def readControl (ap : Ap) : ControlRegister → U32
  | .cr0 => ap.cr0
  | .cr3 => ap.cr3.setWidth 32
  | .cr4 => ap.cr4

def writeControl (ap : Ap) (value : U32) : ControlRegister → Option Ap
  | .cr0 => ap.writeCr0 value
  | .cr3 => some { ap with cr3 := value.setWidth 64 }
  | .cr4 => some { ap with cr4 := value }

def writeSegment (ap : Ap) (segment : Segment) : SegmentRegister → Ap
  | .ds => { ap with ds := segment }
  | .es => { ap with es := segment }
  | .ss => { ap with ss := segment }

/-- `IA32_EFER` -/
def EFER : U64 := 0xC0000080

/-- A write keeps the read-only bit `LMA`. -/
def writeEfer (ap : Ap) (value : U64) : Ap :=
  { ap with efer := value &&& ~~~0x400 ||| ap.efer &&& 0x400 }

/-- One instruction; `ip` is already behind it.  `none` is a fault. -/
def exec (ap : Ap) (walk : Walk) : Instr → Option Ap
  | .jmpShort displacement =>
      some { ap with ip := if displacement < 128 then ap.ip + displacement
        else ap.ip + displacement - 256 }
  | .movAxCs => some { ap with rax := ap.rax &&& ~~~0xFFFF ||| ap.cs.selector.setWidth 64 }
  | .movSegment target => do
      let segment ← ap.loadSegment walk (ap.rax.setWidth 16)
      some (ap.writeSegment segment target)
  | .lgdt address => do
      let bytes ← ap.readBytes walk (ap.ds.base + address) 6
      some { ap with
        gdtLimit := le16 (bytes.getD 0 0).toNat (bytes.getD 1 0).toNat
        gdtBase := le32 (bytes.getD 2 0).toNat (bytes.getD 3 0).toNat (bytes.getD 4 0).toNat 0 }
  | .movFromControl source => some (ap.setEax (ap.readControl source))
  | .movToControl target => ap.writeControl ap.eax target
  | .orAl immediate => some { ap with rax := ap.rax ||| immediate.setWidth 64 }
  | .orEax immediate => some (ap.setEax (ap.eax ||| immediate))
  | .movEax immediate => some (ap.setEax immediate)
  | .movEcx immediate => some { ap with rcx := immediate.setWidth 64 }
  | .loadEax address => do
      let bytes ← ap.readBytes walk (ap.ds.base + address) 4
      some (ap.setEax (fromLeBytes 32 bytes))
  | .bts bit => some (ap.setEax (ap.eax ||| BitVec.twoPow 32 bit))
  | .rdmsr =>
      if ap.rcx = EFER then
        some { ap with
          rax := (ap.efer.setWidth 32).setWidth 64
          rdx := (ap.efer >>> 32) }
      else none
  | .wrmsr =>
      if ap.rcx = EFER ∧ ap.paging = false then
        some (ap.writeEfer ((ap.rdx <<< 32) ||| ap.eax.setWidth 64))
      else none
  | .jmpFar selector offset => ap.jmpFar walk selector offset
  | .loadRsp address => do
      let bytes ← ap.readBytes walk address 8
      some { ap with rsp := fromLeBytes 64 bytes }
  | .loadRdi address => do
      let bytes ← ap.readBytes walk address 8
      some { ap with rdi := fromLeBytes 64 bytes }
  | .loadRax address => do
      let bytes ← ap.readBytes walk address 8
      some { ap with rax := fromLeBytes 64 bytes }
  | .callRax => do
      let memory ← ap.writeBytes walk (ap.rsp - 8).toNat (leBytes 8 ap.ip)
      some { ap with rsp := ap.rsp - 8, memory := memory, ip := ap.rax.toNat }
  | .hlt => some ap

/-- Fetch, decode and execute; no instruction here is longer than eight bytes. -/
def step (ap : Ap) (walk : Walk) : Option Ap := do
  let bytes ← ap.readBytes walk (ap.cs.base + ap.ip) 8
  let (instr, length) ← decode ap.mode (bytes.map BitVec.toNat)
  exec { ap with ip := ap.ip + length } walk instr

/-- `n` instructions from `time` on, among other processors: `memories` gives what each
instruction finds in memory. -/
def run (ap : Ap) (walk : Walk) (memories : Nat → Memory) : Nat → Nat → Option Ap
  | _, 0 => some ap
  | time, n + 1 => do
      let next ← step { ap with memory := memories time } walk
      next.run walk memories (time + 1) n

/-! ## What a run depends on, and what it writes -/

variable {ap next final : Ap} {walk : Walk} {memories : Nat → Memory}

theorem run_congr {memories' : Nat → Memory} {time n : Nat}
    (same : ∀ t, time ≤ t → t < time + n → memories' t = memories t) :
    ap.run walk memories' time n = ap.run walk memories time n := by
  induction n generalizing ap time with
  | zero => rfl
  | succ n inductionHypothesis =>
      have later : ∀ next : Ap,
          next.run walk memories' (time + 1) n = next.run walk memories (time + 1) n :=
        fun next => inductionHypothesis fun t from_ to_ => same t (by omega) (by omega)
      rw [run, run, same time (Nat.le_refl time) (by omega)]
      simp only [later]

theorem run_last {time n : Nat} (ran : ap.run walk memories time n = some next)
    (steps : step { next with memory := memories (time + n) } walk = some final) :
    ap.run walk memories time (n + 1) = some final := by
  induction n generalizing ap time with
  | zero =>
      obtain rfl := Option.some.inj ran
      rw [Nat.add_zero] at steps
      rw [run, steps]
      rfl
  | succ n inductionHypothesis =>
      rw [run] at ran
      obtain ⟨second, first, ran⟩ := Option.bind_eq_some_iff.mp ran
      rw [run, first]
      refine inductionHypothesis ran ?_
      rwa [Nat.add_assoc, Nat.add_comm 1 n]

theorem writeCr0_memory {value : U32} (written : ap.writeCr0 value = some next) :
    next.memory = ap.memory := by
  rw [writeCr0] at written
  split at written
  · split at written
    · obtain rfl := Option.some.inj written
      rfl
    · cases written
  · obtain rfl := Option.some.inj written
    rfl

theorem jmpFar_memory {selector : U16} {offset : Nat}
    (jumped : ap.jmpFar walk selector offset = some next) : next.memory = ap.memory := by
  rw [jmpFar] at jumped
  split at jumped
  · obtain ⟨bytes, _, jumped⟩ := Option.bind_eq_some_iff.mp jumped
    split at jumped
    · obtain ⟨mode, _, jumped⟩ := Option.bind_eq_some_iff.mp jumped
      obtain rfl := Option.some.inj jumped
      rfl
    · cases jumped
  · cases jumped

/-- Only the call writes to memory. -/
theorem exec_memory {instr : Instr} (executes : ap.exec walk instr = some next)
    (notCall : instr ≠ .callRax) : next.memory = ap.memory := by
  cases instr with
  | callRax => exact absurd rfl notCall
  | movSegment target =>
      obtain ⟨segment, _, written⟩ := Option.bind_eq_some_iff.mp executes
      obtain rfl := Option.some.inj written
      cases target <;> rfl
  | movToControl target =>
      cases target with
      | cr0 => exact writeCr0_memory executes
      | cr3 | cr4 =>
          obtain rfl := Option.some.inj executes
          rfl
  | rdmsr | wrmsr =>
      rw [exec] at executes
      split at executes
      · obtain rfl := Option.some.inj executes
        rfl
      · cases executes
  | jmpFar selector offset => exact jmpFar_memory executes
  | lgdt address | loadEax address | loadRsp address | loadRdi address | loadRax address =>
      obtain ⟨bytes, _, written⟩ := Option.bind_eq_some_iff.mp executes
      obtain rfl := Option.some.inj written
      rfl
  | _ =>
      obtain rfl := Option.some.inj executes
      rfl

end Ap

end AxiomKernel.Smp
