import Mathlib
import AxiomKernel.Lib.Bytes
import AxiomKernel.Lib.Words
import AxiomKernel.Lib.ByteMemory
import AxiomKernel.Lib.StackWords
import AxiomKernel.Memory.Trampoline
import AxiomKernel.Smp.Processor

/-!
# The trampoline's machine code

An application processor starts in real mode at the page `install_trampoline` wrote, and
the bytes there take it into long mode and call `ap_main`.  The bytes are disassembled,
and run instruction by instruction: first with the memory that other processors may change
under it, then on the page as it was installed.
-/

set_option autoImplicit false

namespace AxiomKernel.Smp

open ByteStrings MachineWords ByteMemory StackWords

/-! ## The disassembly -/

/-- An instruction of the trampoline: its offset in the page, its length and the mode it is
decoded in. -/
structure Line where
  offset : Nat
  length : Nat
  mode : Mode
  instr : Instr
  deriving DecidableEq

/-- 16-bit code: the descriptor table and protection. -/
def realCode : List Line :=
  [⟨0x00, 2, .real16, .jmpShort 0x3E⟩,
   ⟨0x40, 2, .real16, .movAxCs⟩,
   ⟨0x42, 2, .real16, .movSegment .ds⟩,
   ⟨0x44, 5, .real16, .lgdt 0x0002⟩,
   ⟨0x49, 3, .real16, .movFromControl .cr0⟩,
   ⟨0x4C, 2, .real16, .orAl 1⟩,
   ⟨0x4E, 3, .real16, .movToControl .cr0⟩,
   ⟨0x51, 8, .real16, .jmpFar 0x08 0x50080⟩]

/-- 32-bit code: the page tables and long mode. -/
def protectedCode : List Line :=
  [⟨0x80, 5, .protected32, .movEax 0x10⟩,
   ⟨0x85, 2, .protected32, .movSegment .ds⟩,
   ⟨0x87, 2, .protected32, .movSegment .es⟩,
   ⟨0x89, 2, .protected32, .movSegment .ss⟩,
   ⟨0x8B, 3, .protected32, .movFromControl .cr4⟩,
   ⟨0x8E, 4, .protected32, .bts 5⟩,
   ⟨0x92, 3, .protected32, .movToControl .cr4⟩,
   ⟨0x95, 5, .protected32, .loadEax 0x50FE8⟩,
   ⟨0x9A, 3, .protected32, .movToControl .cr3⟩,
   ⟨0x9D, 5, .protected32, .movEcx 0xC0000080⟩,
   ⟨0xA2, 2, .protected32, .rdmsr⟩,
   ⟨0xA4, 4, .protected32, .bts 8⟩,
   ⟨0xA8, 2, .protected32, .wrmsr⟩,
   ⟨0xAA, 3, .protected32, .movFromControl .cr0⟩,
   ⟨0xAD, 5, .protected32, .orEax 0x80000000⟩,
   ⟨0xB2, 3, .protected32, .movToControl .cr0⟩,
   ⟨0xB5, 7, .protected32, .jmpFar 0x18 0x500C0⟩]

/-- 64-bit code: the stack, the argument and the call. -/
def longCode : List Line :=
  [⟨0xC0, 8, .long64, .loadRsp 0x50FF0⟩,
   ⟨0xC8, 8, .long64, .loadRdi 0x50FE0⟩,
   ⟨0xD0, 8, .long64, .loadRax 0x50FF8⟩,
   ⟨0xD8, 2, .long64, .callRax⟩]

/-- Behind the call, which does not return: `hlt` in a loop. -/
def haltCode : List Line :=
  [⟨0xDA, 1, .long64, .hlt⟩,
   ⟨0xDB, 2, .long64, .jmpShort 0xFD⟩]

def startCode : List Line := realCode ++ (protectedCode ++ longCode)

def listing : List Line := startCode ++ haltCode

/-- The last of the 29 instructions is the only call. -/
theorem startCode_call :
    startCode.length = 29 ∧
      ∀ n, n < 28 → ∀ line ∈ startCode[n]?, line.instr ≠ .callRax := by
  decide

def codeBytes (offset length : Nat) : List U8 :=
  (Memory.AP_TRAMPOLINE_BIN.drop offset).take length

theorem listing_decodes : ∀ line ∈ listing,
    line.offset + line.length ≤ 221 ∧ line.length ≤ 8 ∧
      decode line.mode ((codeBytes line.offset line.length).map BitVec.toNat) =
        some (line.instr, line.length) := by
  decide +kernel

theorem decode_append {mode : Mode} {bytes : List Nat} {result : Instr × Nat}
    (decodes : decode mode bytes = some result) (rest : List Nat) :
    decode mode (bytes ++ rest) = some result := by
  cases mode with
  | real16 =>
      rw [decode] at decodes ⊢
      fun_cases decode16 bytes <;> simp_all [decode16]
  | protected32 =>
      rw [decode] at decodes ⊢
      fun_cases decode32 bytes <;> simp_all [decode32]
  | long64 =>
      rw [decode] at decodes ⊢
      fun_cases decode64 bytes <;> simp_all [decode64]

/-! ## The code in its page -/

theorem mapM_eq_some_map {α β : Type} {f : α → Option β} {g : α → β} (list : List α)
    (defined : ∀ x ∈ list, f x = some (g x)) : list.mapM f = some (list.map g) := by
  induction list with
  | nil => rfl
  | cons x rest inductionHypothesis =>
      rw [List.mapM_cons, defined x List.mem_cons_self,
        inductionHypothesis fun y member => defined y (List.mem_cons_of_mem x member)]
      rfl

/-- The processor finds the trampoline page where it is. -/
def Ap.Sees (ap : Ap) (walk : Walk) : Prop :=
  ∀ a, 0x50000 ≤ a → a < 0x51000 → ap.translate walk a = some a

/-- The code that `install_trampoline` copied. -/
def HoldsCode (memory : Memory) : Prop :=
  readBytes memory 0x50000 221 = Memory.AP_TRAMPOLINE_BIN

theorem HoldsCode.congr {left right : Memory} (code : HoldsCode left)
    (same : ∀ a, 0x50000 ≤ a → a < 0x50000 + 221 → right a = left a) : HoldsCode right := by
  rw [HoldsCode, ← code, readBytes, readBytes]
  refine List.map_congr_left fun i member => ?_
  have inCode := List.mem_range.mp member
  exact same (0x50000 + i) (by omega) (by omega)

theorem readBytes_code {memory : Memory} (code : HoldsCode memory) {k length : Nat}
    (inCode : k + length ≤ 221) :
    readBytes memory (0x50000 + k) length = codeBytes k length := by
  have whole : 221 = k + (length + (221 - (k + length))) := by omega
  rw [HoldsCode, whole, readBytes_append, readBytes_append] at code
  rw [codeBytes, ← code, List.drop_left' (by simp [readBytes]), List.take_left' (by simp [readBytes])]

namespace Ap

variable {ap next final : Ap} {walk : Walk}

theorem readBytes_page (sees : ap.Sees walk) {linear length : Nat} (above : 0x50000 ≤ linear)
    (below : linear + length ≤ 0x51000) :
    ap.readBytes walk linear length = some (StackWords.readBytes ap.memory linear length) := by
  refine mapM_eq_some_map (List.range length) fun i member => ?_
  have bound := List.mem_range.mp member
  rw [sees (linear + i) (by omega) (by omega)]
  rfl

theorem sees_of_walk
    (mapped : ∀ a, 0x50000 ≤ a → a < 0x51000 → walk ap.cr3 ap.efer a = some a) :
    ap.Sees walk := by
  intro a above below
  rw [translate, mapped a above below]
  exact ite_self (some a)

theorem sees_of_unpaged (unpaged : ap.paging = false) : ap.Sees walk := by
  intro a _ _
  rw [translate, unpaged]
  rfl

/-- The next instruction is the one in the listing. -/
structure At (ap : Ap) (line : Line) : Prop where
  mode : ap.mode = line.mode
  offset : ap.cs.base + ap.ip = 0x50000 + line.offset

/-- The processor goes through the lines from `time` on. -/
inductive Path (walk : Walk) (memories : Nat → Memory) : Nat → Ap → List Line → Ap → Prop
  | nil (time : Nat) (ap : Ap) : Path walk memories time ap [] ap
  | cons {time : Nat} {ap next final : Ap} {line : Line} {lines : List Line}
      (located : ap.At line)
      (executes : exec { ap with ip := ap.ip + line.length, memory := memories time } walk
        line.instr = some next)
      (steps : step { ap with memory := memories time } walk = some next)
      (continues : Path walk memories (time + 1) next lines final) :
      Path walk memories time ap (line :: lines) final

theorem Path.run_eq {memories : Nat → Memory} {time : Nat} {lines : List Line}
    (path : Path walk memories time ap lines final) :
    ap.run walk memories time lines.length = some final := by
  induction path with
  | nil time ap => rfl
  | cons _ _ steps _ inductionHypothesis =>
      rw [List.length_cons, Ap.run, steps]
      exact inductionHypothesis

/-- Where the processor is after some of the lines. -/
theorem Path.during {memories : Nat → Memory} {time n : Nat} {lines : List Line}
    (path : Path walk memories time ap lines final) {line : Line} (there : lines[n]? = some line) :
    ∃ mid next, ap.run walk memories time n = some mid ∧ mid.At line ∧
      exec { mid with ip := mid.ip + line.length, memory := memories (time + n) } walk
        line.instr = some next ∧
      step { mid with memory := memories (time + n) } walk = some next := by
  induction path generalizing n with
  | nil time ap => cases there
  | @cons time ap second final line' lines located executes steps _ inductionHypothesis =>
      cases n with
      | zero =>
          obtain rfl := Option.some.inj there
          exact ⟨ap, second, rfl, located, executes, steps⟩
      | succ n =>
          obtain ⟨mid, next, ran, atLine, executes', steps'⟩ := inductionHypothesis there
          rw [Nat.add_right_comm, Nat.add_assoc] at executes' steps'
          refine ⟨mid, next, ?_, atLine, executes', steps'⟩
          rw [run, steps]
          exact ran

/-- An instruction that is not a call leaves memory as it finds it. -/
theorem Path.memory_kept {memories : Nat → Memory} {time n : Nat} {lines : List Line}
    (path : Path walk memories time ap lines final) {line : Line} (there : lines[n]? = some line)
    (notCall : line.instr ≠ .callRax) :
    ∃ next, ap.run walk memories time (n + 1) = some next ∧ next.memory = memories (time + n) := by
  obtain ⟨mid, next, ran, _, executes, steps⟩ := path.during there
  exact ⟨next, run_last ran steps, exec_memory executes notCall⟩

/-- One instruction of the code, and those after it. -/
theorem path_line (line : Line) {memories : Nat → Memory} {time : Nat} {lines : List Line}
    (listed : line ∈ listing) (sees : ap.Sees walk) (code : HoldsCode (memories time))
    (located : ap.At line)
    (executes : exec { ap with ip := ap.ip + line.length, memory := memories time } walk
      line.instr = some next)
    (continues : Path walk memories (time + 1) next lines final) :
    Path walk memories time ap (line :: lines) final := by
  obtain ⟨inCode, short, decodes⟩ := listing_decodes line listed
  have fetched : readBytes { ap with memory := memories time } walk (ap.cs.base + ap.ip) 8 =
      some (codeBytes line.offset line.length ++
        StackWords.readBytes (memories time) (0x50000 + line.offset + line.length)
          (8 - line.length)) := by
    rw [located.offset, readBytes_page (by exact sees) (by omega) (by omega),
      ← readBytes_code code inCode, ← readBytes_append, Nat.add_sub_cancel' short]
  rw [← located.mode] at decodes
  refine Path.cons located executes ?_ continues
  rw [step, fetched, Option.bind_eq_bind, Option.bind_some, List.map_append,
    decode_append decodes]
  exact executes

end Ap

/-! ## The instructions that read the page -/

/-- The pseudo-descriptor that `lgdt` reads, and the segments it leads to: flat 32-bit code,
flat data and 64-bit code. -/
theorem code_tables :
    codeBytes 2 6 = [0x1F, 0x00, 0x08, 0x00, 0x05, 0x00] ∧
      codeBytes 16 8 = [0xFF, 0xFF, 0x00, 0x00, 0x00, 0x9A, 0xCF, 0x00] ∧
      codeBytes 24 8 = [0xFF, 0xFF, 0x00, 0x00, 0x00, 0x92, 0xCF, 0x00] ∧
      codeBytes 32 8 = [0xFF, 0xFF, 0x00, 0x00, 0x00, 0x9A, 0xAF, 0x00] := by
  decide

namespace Ap

variable {ap : Ap} {walk : Walk}

theorem readBytes_code (sees : ap.Sees walk) (code : HoldsCode ap.memory) {k length : Nat}
    (inCode : k + length ≤ 221) :
    ap.readBytes walk (0x50000 + k) length = some (codeBytes k length) := by
  rw [readBytes_page sees (by omega) (by omega), Smp.readBytes_code code inCode]

theorem exec_lgdt (sees : ap.Sees walk) (code : HoldsCode ap.memory)
    (ds : ap.ds.base = 0x50000) :
    ap.exec walk (.lgdt 2) = some { ap with gdtBase := 0x50008, gdtLimit := 0x1F } := by
  simp only [exec, ds]
  rw [readBytes_code sees code (k := 2) (by decide), code_tables.1]
  rfl

/-- The descriptor table of the page is loaded. -/
structure Table (ap : Ap) (walk : Walk) : Prop where
  sees : ap.Sees walk
  code : HoldsCode ap.memory
  gdtBase : ap.gdtBase = 0x50008
  gdtLimit : ap.gdtLimit = 0x1F

theorem Table.descriptor (table : ap.Table walk) {selector : U16}
    (inTable : selector.toNat < 0x20) :
    ap.descriptor walk selector = some (codeBytes (8 + selector.toNat / 8 * 8) 8) := by
  have inside : ¬ ap.gdtLimit < selector.toNat / 8 * 8 + 7 := by
    rw [table.gdtLimit]
    omega
  rw [Ap.descriptor, if_neg inside, table.gdtBase,
    ← readBytes_code table.sees table.code (by omega), ← Nat.add_assoc]

theorem Table.code32 (table : ap.Table walk) :
    ap.descriptor walk 0x08 = some [0xFF, 0xFF, 0x00, 0x00, 0x00, 0x9A, 0xCF, 0x00] := by
  rw [table.descriptor (by decide)]
  exact congrArg some code_tables.2.1

theorem Table.data (table : ap.Table walk) :
    ap.descriptor walk 0x10 = some [0xFF, 0xFF, 0x00, 0x00, 0x00, 0x92, 0xCF, 0x00] := by
  rw [table.descriptor (by decide)]
  exact congrArg some code_tables.2.2.1

theorem Table.code64 (table : ap.Table walk) :
    ap.descriptor walk 0x18 = some [0xFF, 0xFF, 0x00, 0x00, 0x00, 0x9A, 0xAF, 0x00] := by
  rw [table.descriptor (by decide)]
  exact congrArg some code_tables.2.2.2

theorem exec_jmpFar {selector : U16} {offset : Nat} {bytes : List U8} {mode : Mode}
    (protection : ap.protection = true) (found : ap.descriptor walk selector = some bytes)
    (present : descriptorPresent bytes = true) (executable : descriptorExecutable bytes = true)
    (flat : descriptorBase bytes = 0)
    (decoded : descriptorMode bytes (ap.efer.getLsbD 10) = some mode) :
    ap.exec walk (.jmpFar selector offset) =
      some { ap with mode := mode, cs := ⟨selector, 0⟩, ip := offset } := by
  simp only [exec, jmpFar, if_pos protection, found, Option.bind_eq_bind, Option.bind_some, present,
    executable, Bool.and_self, if_true, decoded, flat]

theorem exec_jmpFar_code32 (table : ap.Table walk) (protection : ap.protection = true)
    (offset : Nat) :
    ap.exec walk (.jmpFar 0x08 offset) =
      some { ap with mode := .protected32, cs := ⟨0x08, 0⟩, ip := offset } := by
  refine exec_jmpFar protection table.code32 (by decide) (by decide) (by decide) ?_
  rw [descriptorMode, if_neg (by simp)]
  exact if_pos (by decide)

theorem exec_jmpFar_code64 (table : ap.Table walk) (protection : ap.protection = true)
    (longActive : ap.efer.getLsbD 10 = true) (offset : Nat) :
    ap.exec walk (.jmpFar 0x18 offset) =
      some { ap with mode := .long64, cs := ⟨0x18, 0⟩, ip := offset } := by
  refine exec_jmpFar protection table.code64 (by decide) (by decide) (by decide) ?_
  rw [longActive]
  decide

/-- A data segment of protected mode. -/
theorem exec_movSegment (table : ap.Table walk) (protection : ap.protection = true)
    (selector : ap.rax.setWidth 16 = (0x10 : U16)) (target : SegmentRegister) :
    ap.exec walk (.movSegment target) = some (ap.writeSegment ⟨0x10, 0⟩ target) := by
  have present :
      descriptorPresent [0xFF, 0xFF, 0x00, 0x00, 0x00, 0x92, 0xCF, 0x00] = true := by
    decide
  simp only [exec, loadSegment, if_pos protection, selector, table.data, Option.bind_eq_bind,
    Option.bind_some, if_pos present]
  rfl

/-- A data segment of real mode. -/
theorem exec_movSegment_real (unprotected : ap.protection = false) (target : SegmentRegister) :
    ap.exec walk (.movSegment target) = some (ap.writeSegment
      ⟨ap.rax.setWidth 16, (ap.rax.setWidth 16).toNat * 16⟩ target) := by
  simp only [exec, loadSegment, unprotected, Bool.false_eq_true, if_false, Option.bind_eq_bind,
    Option.bind_some]

theorem exec_writeCr0_unpaged {value : U32} (eax : ap.eax = value)
    (unpaged : value.getLsbD 31 = false) :
    ap.exec walk (.movToControl .cr0) =
      some { ap with cr0 := value, efer := ap.efer &&& ~~~0x400 } := by
  simp only [exec, writeControl, writeCr0, eax, unpaged, Bool.false_eq_true, if_false]

/-- Paging on, with long mode enabled and `CR4.PAE` set. -/
theorem exec_writeCr0_paged {value : U32} (eax : ap.eax = value)
    (paged : value.getLsbD 31 = true) (protection : value.getLsbD 0 = true)
    (longEnabled : ap.efer.getLsbD 8 = true) (pae : ap.cr4.getLsbD 5 = true) :
    ap.exec walk (.movToControl .cr0) =
      some { ap with cr0 := value, efer := ap.efer ||| 0x400 } := by
  simp only [exec, writeControl, writeCr0, eax, paged, protection, longEnabled, pae, Bool.not_true,
    Bool.or_true, Bool.and_self, if_true]

theorem exec_rdmsr (efer : ap.rcx = EFER) :
    ap.exec walk .rdmsr = some { ap with
      rax := (ap.efer.setWidth 32).setWidth 64, rdx := ap.efer >>> 32 } := by
  rw [exec, if_pos efer]

theorem exec_wrmsr (efer : ap.rcx = EFER) (unpaged : ap.paging = false) :
    ap.exec walk .wrmsr =
      some (ap.writeEfer ((ap.rdx <<< 32) ||| ap.eax.setWidth 64)) := by
  rw [exec, if_pos ⟨efer, unpaged⟩]

/-- The low half of a word of the control block, with a flat data segment. -/
theorem exec_loadEax (sees : ap.Sees walk) (flat : ap.ds.base = 0) {address : U64}
    (above : 0x50000 ≤ address.toNat) (below : address.toNat + 8 ≤ 0x51000) :
    ap.exec walk (.loadEax address.toNat) =
      some (ap.setEax ((loadWord ap.memory address).setWidth 32)) := by
  have low : fromLeBytes 32 (StackWords.readBytes ap.memory address.toNat 4) =
      (loadWord ap.memory address).setWidth 32 := by
    have lowLength : (StackWords.readBytes ap.memory address.toNat 4).length = 4 := by
      simp [StackWords.readBytes]
    rw [loadWord, readBytes_append ap.memory address.toNat 4 4, fromLeBytes, fromLeBytes,
      BitVec.setWidth_ofNat_of_le (by decide), leNat_append, lowLength]
    apply BitVec.eq_of_toNat_eq
    rw [BitVec.toNat_ofNat, BitVec.toNat_ofNat]
    exact (Nat.add_mul_mod_self_left _ (256 ^ 4) _).symm
  rw [exec, flat, Nat.zero_add, readBytes_page sees above (by omega), Option.bind_eq_bind,
    Option.bind_some, low]

end Ap

/-! ## From real mode to `ap_main` -/

/-- The state in which a start-up interrupt with vector `0x50` leaves a processor. -/
structure Ap.Started (ap : Ap) : Prop where
  mode : ap.mode = .real16
  cs : ap.cs = ⟨0x5000, 0x50000⟩
  ip : ap.ip = 0
  unprotected : ap.protection = false
  unpaged : ap.paging = false

theorem or_set {w : Nat} (old : BitVec w) {mask : BitVec w} {i : Nat}
    (inMask : mask.getLsbD i = true) : (old ||| mask).getLsbD i = true := by
  rw [BitVec.getLsbD_or, inMask, Bool.or_true]

theorem or_clear {w : Nat} {old mask : BitVec w} {i : Nat} (clear : old.getLsbD i = false)
    (notInMask : mask.getLsbD i = false) : (old ||| mask).getLsbD i = false := by
  rw [BitVec.getLsbD_or, clear, notInMask, Bool.or_false]

theorem setWidth_ax (rax : U64) :
    (rax &&& ~~~0xFFFF ||| (0x5000 : U16).setWidth 64).setWidth 16 = (0x5000 : U16) := by
  rw [BitVec.setWidth_or, BitVec.setWidth_and]
  have cleared : (~~~(0xFFFF : U64)).setWidth 16 = 0#16 := by decide
  rw [cleared, BitVec.and_zero, BitVec.zero_or]
  decide

theorem Ap.real_part {ap : Ap} {walk : Walk} (started : ap.Started) {memories : Nat → Memory}
    (code : ∀ time, time < 29 → HoldsCode (memories time))
    {lines : List Line} {final : Ap}
    (continues : ∀ rax memory, Path walk memories 8 { ap with
      mode := .protected32
      cs := ⟨0x08, 0⟩
      ds := ⟨0x5000, 0x50000⟩
      ip := 0x50080
      rax := rax
      cr0 := ap.cr0 ||| 1
      efer := ap.efer &&& ~~~0x400
      gdtBase := 0x50008
      gdtLimit := 0x1F
      memory := memory } lines final) :
    Path walk memories 0 ap (realCode ++ lines) final := by
  obtain ⟨mode, cs, ds, es, ss, ip, rax, rcx, rdx, rsp, rdi, cr0, cr3, cr4, efer, gdtBase, gdtLimit,
    memory⟩ := ap
  obtain ⟨rfl, rfl, rfl, unprotected, unpaged⟩ := started
  have stillUnpaged : (cr0 ||| 1).getLsbD 31 = false :=
    or_clear unpaged (by decide)
  have protectionOn : (cr0 ||| 1).getLsbD 0 = true :=
    or_set _ (by decide)
  have eax : ((cr0.setWidth 64 ||| (1 : U8).setWidth 64 : U64)).setWidth 32 = cr0 ||| 1 := by
    rw [BitVec.setWidth_or, BitVec.setWidth_setWidth_of_le _ (by decide), BitVec.setWidth_eq]
    rfl
  refine path_line ⟨0x00, 2, .real16, .jmpShort 0x3E⟩ (by decide)
    (sees_of_unpaged unpaged) (code _ (by decide)) ⟨rfl, rfl⟩ rfl ?_
  dsimp only
  refine path_line ⟨0x40, 2, .real16, .movAxCs⟩ (by decide)
    (sees_of_unpaged unpaged) (code _ (by decide)) ⟨rfl, rfl⟩ rfl ?_
  dsimp only
  refine path_line ⟨0x42, 2, .real16, .movSegment .ds⟩ (by decide)
    (sees_of_unpaged unpaged) (code _ (by decide)) ⟨rfl, rfl⟩
    (exec_movSegment_real (by exact unprotected) .ds) ?_
  dsimp only [writeSegment]
  rw [setWidth_ax]
  refine path_line ⟨0x44, 5, .real16, .lgdt 2⟩ (by decide)
    (sees_of_unpaged unpaged) (code _ (by decide)) ⟨rfl, rfl⟩
    (exec_lgdt (sees_of_unpaged (by exact unpaged)) (by exact code _ (by decide)) rfl) ?_
  dsimp only
  refine path_line ⟨0x49, 3, .real16, .movFromControl .cr0⟩ (by decide)
    (sees_of_unpaged unpaged) (code _ (by decide)) ⟨rfl, rfl⟩ rfl ?_
  dsimp only [setEax, readControl]
  refine path_line ⟨0x4C, 2, .real16, .orAl 1⟩ (by decide)
    (sees_of_unpaged unpaged) (code _ (by decide)) ⟨rfl, rfl⟩ rfl ?_
  dsimp only
  refine path_line ⟨0x4E, 3, .real16, .movToControl .cr0⟩ (by decide)
    (sees_of_unpaged unpaged) (code _ (by decide)) ⟨rfl, rfl⟩
    (exec_writeCr0_unpaged eax stillUnpaged) ?_
  dsimp only
  refine path_line ⟨0x51, 8, .real16, .jmpFar 0x08 0x50080⟩ (by decide)
    (sees_of_unpaged stillUnpaged) (code _ (by decide)) ⟨rfl, rfl⟩
    (exec_jmpFar_code32 ⟨sees_of_unpaged (by exact stillUnpaged), by exact code _ (by decide), rfl, rfl⟩
      (by exact protectionOn) _) ?_
  exact continues _ _

theorem efer_longEnabled (efer : U64) :
    ((efer >>> 32) <<< 32 ||| (efer.setWidth 32 ||| BitVec.twoPow 32 8).setWidth 64) &&& ~~~0x400 |||
      efer &&& 0x400 = efer ||| 0x100 := by
  apply BitVec.eq_of_getLsbD_eq
  intro i inWord
  have lme : (0x100 : U64) = BitVec.twoPow 64 8 := by decide
  have lma : (0x400 : U64) = BitVec.twoPow 64 10 := by decide
  simp only [lme, lma, BitVec.getLsbD_or, BitVec.getLsbD_and, BitVec.getLsbD_not,
    BitVec.getLsbD_setWidth, BitVec.getLsbD_shiftLeft, BitVec.getLsbD_ushiftRight,
    BitVec.getLsbD_twoPow, inWord]
  by_cases low : i < 32
  · grind
  · grind

theorem setWidth_extend (value : U32) : (value.setWidth 64).setWidth 32 = value := by
  rw [BitVec.setWidth_setWidth_of_le value (by decide), BitVec.setWidth_eq]

theorem Ap.protected_part {ap : Ap} {walk : Walk} (mode : ap.mode = .protected32)
    (cs : ap.cs = ⟨0x08, 0⟩) (ip : ap.ip = 0x50080) (protection : ap.protection = true)
    (unpaged : ap.paging = false) {memories : Nat → Memory}
    (code : ∀ time, time < 29 → HoldsCode (memories time)) (gdtBase : ap.gdtBase = 0x50008)
    (gdtLimit : ap.gdtLimit = 0x1F) {cr3 : U32}
    (stored : (loadWord (memories 15) 0x50FE8).setWidth 32 = cr3)
    (mapped : ∀ a, 0x50000 ≤ a → a < 0x51000 →
      walk (cr3.setWidth 64) (ap.efer ||| 0x100 ||| 0x400) a = some a)
    {lines : List Line} {final : Ap}
    (continues : ∀ rax memory, Path walk memories 25 { ap with
      mode := .long64
      cs := ⟨0x18, 0⟩
      ds := ⟨0x10, 0⟩
      es := ⟨0x10, 0⟩
      ss := ⟨0x10, 0⟩
      ip := 0x500C0
      rax := rax
      rcx := EFER
      rdx := ap.efer >>> 32
      cr0 := ap.cr0 ||| 0x80000000
      cr3 := cr3.setWidth 64
      cr4 := ap.cr4 ||| BitVec.twoPow 32 5
      efer := ap.efer ||| 0x100 ||| 0x400
      memory := memory } lines final) :
    Path walk memories 8 ap (protectedCode ++ lines) final := by
  obtain ⟨apMode, apCs, ds, es, ss, apIp, rax, rcx, rdx, rsp, rdi, cr0, oldCr3, cr4, efer, apBase,
    apLimit, memory⟩ := ap
  subst mode cs ip gdtBase gdtLimit
  refine path_line ⟨0x80, 5, .protected32, .movEax 0x10⟩ (by decide)
    (sees_of_unpaged unpaged) (code _ (by decide)) ⟨rfl, by simp⟩ rfl ?_
  dsimp only [setEax]
  refine path_line ⟨0x85, 2, .protected32, .movSegment .ds⟩ (by decide)
    (sees_of_unpaged unpaged) (code _ (by decide)) ⟨rfl, by simp⟩
    (exec_movSegment ⟨sees_of_unpaged (by exact unpaged), by exact code _ (by decide), rfl, rfl⟩
      (by exact protection) rfl .ds) ?_
  dsimp only [writeSegment]
  refine path_line ⟨0x87, 2, .protected32, .movSegment .es⟩ (by decide)
    (sees_of_unpaged unpaged) (code _ (by decide)) ⟨rfl, by simp⟩
    (exec_movSegment ⟨sees_of_unpaged (by exact unpaged), by exact code _ (by decide), rfl, rfl⟩
      (by exact protection) rfl .es) ?_
  dsimp only [writeSegment]
  refine path_line ⟨0x89, 2, .protected32, .movSegment .ss⟩ (by decide)
    (sees_of_unpaged unpaged) (code _ (by decide)) ⟨rfl, by simp⟩
    (exec_movSegment ⟨sees_of_unpaged (by exact unpaged), by exact code _ (by decide), rfl, rfl⟩
      (by exact protection) rfl .ss) ?_
  dsimp only [writeSegment]
  refine path_line ⟨0x8B, 3, .protected32, .movFromControl .cr4⟩ (by decide)
    (sees_of_unpaged unpaged) (code _ (by decide)) ⟨rfl, by simp⟩ rfl ?_
  dsimp only [setEax, readControl]
  refine path_line ⟨0x8E, 4, .protected32, .bts 5⟩ (by decide)
    (sees_of_unpaged unpaged) (code _ (by decide)) ⟨rfl, by simp⟩ rfl ?_
  dsimp only [setEax, eax]
  refine path_line ⟨0x92, 3, .protected32, .movToControl .cr4⟩ (by decide)
    (sees_of_unpaged unpaged) (code _ (by decide)) ⟨rfl, by simp⟩ rfl ?_
  dsimp only [eax]
  rw [setWidth_extend, setWidth_extend]
  refine path_line ⟨0x95, 5, .protected32, .loadEax 0x50FE8⟩ (by decide)
    (sees_of_unpaged unpaged) (code _ (by decide)) ⟨rfl, by simp⟩
    (@exec_loadEax _ walk (sees_of_unpaged (by exact unpaged)) rfl 0x50FE8 (by decide) (by decide)) ?_
  dsimp only [setEax]
  rw [stored]
  refine path_line ⟨0x9A, 3, .protected32, .movToControl .cr3⟩ (by decide)
    (sees_of_unpaged unpaged) (code _ (by decide)) ⟨rfl, by simp⟩ rfl ?_
  dsimp only [eax]
  rw [setWidth_extend]
  refine path_line ⟨0x9D, 5, .protected32, .movEcx 0xC0000080⟩ (by decide)
    (sees_of_unpaged unpaged) (code _ (by decide)) ⟨rfl, by simp⟩ rfl ?_
  dsimp only
  refine path_line ⟨0xA2, 2, .protected32, .rdmsr⟩ (by decide)
    (sees_of_unpaged unpaged) (code _ (by decide)) ⟨rfl, by simp⟩ (exec_rdmsr rfl) ?_
  dsimp only
  refine path_line ⟨0xA4, 4, .protected32, .bts 8⟩ (by decide)
    (sees_of_unpaged unpaged) (code _ (by decide)) ⟨rfl, by simp⟩ rfl ?_
  dsimp only [setEax, eax]
  rw [setWidth_extend]
  refine path_line ⟨0xA8, 2, .protected32, .wrmsr⟩ (by decide)
    (sees_of_unpaged unpaged) (code _ (by decide)) ⟨rfl, by simp⟩ (exec_wrmsr rfl (by exact unpaged)) ?_
  dsimp only [writeEfer, eax]
  rw [setWidth_extend, efer_longEnabled]
  refine path_line ⟨0xAA, 3, .protected32, .movFromControl .cr0⟩ (by decide)
    (sees_of_unpaged unpaged) (code _ (by decide)) ⟨rfl, by simp⟩ rfl ?_
  dsimp only [setEax, readControl]
  refine path_line ⟨0xAD, 5, .protected32, .orEax 0x80000000⟩ (by decide)
    (sees_of_unpaged unpaged) (code _ (by decide)) ⟨rfl, by simp⟩ rfl ?_
  dsimp only [setEax, eax]
  rw [setWidth_extend]
  have paged : (cr0 ||| 0x80000000).getLsbD 31 = true :=
    or_set _ (by decide)
  have stillProtected : (cr0 ||| 0x80000000).getLsbD 0 = true := by
    rw [BitVec.getLsbD_or, show cr0.getLsbD 0 = true from protection, Bool.true_or]
  have longEnabled : (efer ||| 0x100).getLsbD 8 = true :=
    or_set _ (by decide)
  have longActive : (efer ||| 0x100 ||| 0x400).getLsbD 10 = true :=
    or_set _ (by decide)
  have pae : (cr4 ||| BitVec.twoPow 32 5).getLsbD 5 = true :=
    or_set _ (by decide)
  refine path_line ⟨0xB2, 3, .protected32, .movToControl .cr0⟩ (by decide)
    (sees_of_unpaged unpaged) (code _ (by decide)) ⟨rfl, by simp⟩
    (exec_writeCr0_paged (setWidth_extend _) paged stillProtected (by exact longEnabled)
      (by exact pae)) ?_
  dsimp only
  refine path_line ⟨0xB5, 7, .protected32, .jmpFar 0x18 0x500C0⟩ (by decide)
    (sees_of_walk mapped) (code _ (by decide)) ⟨rfl, by simp⟩
    (exec_jmpFar_code64 ⟨sees_of_walk (by exact mapped), by exact code _ (by decide), rfl, rfl⟩
      (by exact stillProtected) (by exact longActive) _) ?_
  exact continues _ _

theorem writeBytes_cons (memory : Memory) (base : Nat) (byte : U8) (rest : List U8) :
    ByteMemory.writeBytes memory base (byte :: rest) =
      Function.update (ByteMemory.writeBytes memory (base + 1) rest) base byte := by
  funext a
  by_cases here : a = base
  · subst here
    rw [Function.update_self, ByteMemory.writeBytes, if_pos (Nat.le_refl a), Nat.sub_self]
    rfl
  · rw [Function.update_of_ne here, ByteMemory.writeBytes, ByteMemory.writeBytes]
    by_cases above : base + 1 ≤ a
    · have next : a - base = a - (base + 1) + 1 := by omega
      rw [if_pos above, if_pos (by omega), next, List.getElem?_cons_succ]
    · rw [if_neg above, if_neg (by omega)]

theorem Ap.writeBytes_contiguous {ap : Ap} {walk : Walk} (bytes : List U8) {linear slot : Nat}
    (mapped : ∀ i, i < bytes.length → ap.translate walk (linear + i) = some (slot + i)) :
    ap.writeBytes walk linear bytes = some (ByteMemory.writeBytes ap.memory slot bytes) := by
  induction bytes generalizing linear slot with
  | nil =>
      have same : ByteMemory.writeBytes ap.memory slot [] = ap.memory := by
        funext a
        exact writeBytes_outside ap.memory (by simp; omega)
      rw [Ap.writeBytes, same]
  | cons byte rest inductionHypothesis =>
      have first : ap.translate walk linear = some slot := mapped 0 (Nat.zero_lt_succ _)
      have later := @inductionHypothesis (linear + 1) (slot + 1) fun i inRest => by
        rw [Nat.add_assoc, Nat.add_assoc, Nat.add_comm 1 i]
        exact mapped (i + 1) (Nat.succ_lt_succ inRest)
      rw [Ap.writeBytes, first, later, writeBytes_cons]
      rfl

theorem Ap.exec_load {ap : Ap} {walk : Walk} (sees : ap.Sees walk) {address : U64}
    (above : 0x50000 ≤ address.toNat) (below : address.toNat + 8 ≤ 0x51000) :
    ap.exec walk (.loadRsp address.toNat) = some { ap with rsp := loadWord ap.memory address } ∧
      ap.exec walk (.loadRdi address.toNat) =
        some { ap with rdi := loadWord ap.memory address } ∧
      ap.exec walk (.loadRax address.toNat) =
        some { ap with rax := loadWord ap.memory address } := by
  simp only [exec, readBytes_page sees above below, Option.bind_eq_bind, Option.bind_some, loadWord,
    and_self]

theorem Ap.long_part {ap : Ap} {walk : Walk} (mode : ap.mode = .long64) (cs : ap.cs.base = 0)
    (ip : ap.ip = 0x500C0) (sees : ap.Sees walk) {memories : Nat → Memory}
    (code : ∀ time, time < 29 → HoldsCode (memories time)) {stackTop coreId apMain : U64}
    (stackWord : loadWord (memories 25) 0x50FF0 = stackTop)
    (coreWord : loadWord (memories 26) 0x50FE0 = coreId)
    (mainWord : loadWord (memories 27) 0x50FF8 = apMain) {slot : Nat}
    (stack : ∀ i, i < 8 → ap.translate walk ((stackTop - 8).toNat + i) = some (slot + i)) :
    Path walk memories 25 ap longCode { ap with
      ip := apMain.toNat
      rax := apMain
      rsp := stackTop - 8
      rdi := coreId
      memory := ByteMemory.writeBytes (memories 28) slot (leBytes 8 0x500DA) } := by
  obtain ⟨apMode, ⟨selector, base⟩, ds, es, ss, apIp, rax, rcx, rdx, rsp, rdi, cr0, cr3, cr4, efer,
    gdtBase, gdtLimit, memory⟩ := ap
  subst mode cs ip stackWord coreWord mainWord
  refine path_line ⟨0xC0, 8, .long64, .loadRsp 0x50FF0⟩ (by decide) sees (code _ (by decide))
    ⟨rfl, by simp⟩ (@exec_load _ walk (by exact sees) 0x50FF0 (by decide) (by decide)).1 ?_
  dsimp only
  refine path_line ⟨0xC8, 8, .long64, .loadRdi 0x50FE0⟩ (by decide) sees (code _ (by decide))
    ⟨rfl, by simp⟩ (@exec_load _ walk (by exact sees) 0x50FE0 (by decide) (by decide)).2.1 ?_
  dsimp only
  refine path_line ⟨0xD0, 8, .long64, .loadRax 0x50FF8⟩ (by decide) sees (code _ (by decide))
    ⟨rfl, by simp⟩ (@exec_load _ walk (by exact sees) 0x50FF8 (by decide) (by decide)).2.2 ?_
  dsimp only
  refine path_line ⟨0xD8, 2, .long64, .callRax⟩ (by decide) sees (code _ (by decide))
    ⟨rfl, by simp⟩ ?_ (.nil _ _)
  rw [exec, writeBytes_contiguous _ (by rw [leBytes_length]; exact stack)]
  rfl

/-- The processor is about to run `ap_main`. -/
structure Ap.Entered (ap : Ap) (cr3 : U32) (stackTop coreId apMain : U64) : Prop where
  mode : ap.mode = .long64
  ip : ap.ip = apMain.toNat
  argument : ap.rdi = coreId
  stack : ap.rsp = stackTop - 8
  segments : ap.cs = ⟨0x18, 0⟩ ∧ ap.ds = ⟨0x10, 0⟩ ∧ ap.es = ⟨0x10, 0⟩ ∧ ap.ss = ⟨0x10, 0⟩
  tables : ap.cr3 = cr3.setWidth 64
  protection : ap.protection = true
  paging : ap.paging = true
  pae : ap.cr4.getLsbD 5 = true
  longEnabled : ap.efer.getLsbD 8 = true
  longActive : ap.efer.getLsbD 10 = true

theorem efer_longActive (efer : U64) : efer &&& ~~~0x400 ||| 0x100 ||| 0x400 = efer ||| 0x500 := by
  apply BitVec.eq_of_getLsbD_eq
  intro i inWord
  have lme : (0x100 : U64) = BitVec.twoPow 64 8 := by decide
  have lma : (0x400 : U64) = BitVec.twoPow 64 10 := by decide
  have both : (0x500 : U64) = BitVec.twoPow 64 8 ||| BitVec.twoPow 64 10 := by decide
  simp only [lme, lma, both, BitVec.getLsbD_or, BitVec.getLsbD_and, BitVec.getLsbD_not,
    BitVec.getLsbD_twoPow, inWord]
  grind

/-- What the code takes over is what stands in the control block at the moments it reads it. -/
theorem Ap.enters {ap : Ap} {walk : Walk} (started : ap.Started) {memories : Nat → Memory}
    (code : ∀ time, time < 29 → HoldsCode (memories time)) {cr3 : U32}
    {stackTop coreId apMain : U64}
    (cr3Word : (loadWord (memories 15) 0x50FE8).setWidth 32 = cr3)
    (stackWord : loadWord (memories 25) 0x50FF0 = stackTop)
    (coreWord : loadWord (memories 26) 0x50FE0 = coreId)
    (mainWord : loadWord (memories 27) 0x50FF8 = apMain)
    (mapped : ∀ a, 0x50000 ≤ a → a < 0x51000 →
      walk (cr3.setWidth 64) (ap.efer ||| 0x500) a = some a)
    {slot : Nat}
    (stack : ∀ i, i < 8 →
      walk (cr3.setWidth 64) (ap.efer ||| 0x500) ((stackTop - 8).toNat + i) = some (slot + i)) :
    ∃ final, Path walk memories 0 ap startCode final ∧
      final.Entered cr3 stackTop coreId apMain ∧
      final.memory = ByteMemory.writeBytes (memories 28) slot (leBytes 8 0x500DA) := by
  rw [← efer_longActive] at mapped stack
  have protectionOn : (ap.cr0 ||| 1).getLsbD 0 = true :=
    or_set _ (by decide)
  have stillUnpaged : (ap.cr0 ||| 1).getLsbD 31 = false :=
    or_clear started.unpaged (by decide)
  have paged : (ap.cr0 ||| 1 ||| 0x80000000).getLsbD 31 = true :=
    or_set _ (by decide)
  have stillProtected : (ap.cr0 ||| 1 ||| 0x80000000).getLsbD 0 = true := by
    rw [BitVec.getLsbD_or, protectionOn, Bool.true_or]
  have longEnabled : (ap.efer &&& ~~~0x400 ||| 0x100 ||| 0x400).getLsbD 8 = true := by
    rw [BitVec.getLsbD_or, or_set _ (by decide), Bool.true_or]
  have passed : Path walk memories 0 ap startCode { ap with
      mode := .long64
      cs := ⟨0x18, 0⟩
      ds := ⟨0x10, 0⟩
      es := ⟨0x10, 0⟩
      ss := ⟨0x10, 0⟩
      ip := apMain.toNat
      rax := apMain
      rcx := EFER
      rdx := (ap.efer &&& ~~~0x400) >>> 32
      rsp := stackTop - 8
      rdi := coreId
      cr0 := ap.cr0 ||| 1 ||| 0x80000000
      cr3 := cr3.setWidth 64
      cr4 := ap.cr4 ||| BitVec.twoPow 32 5
      efer := ap.efer &&& ~~~0x400 ||| 0x100 ||| 0x400
      gdtBase := 0x50008
      gdtLimit := 0x1F
      memory := ByteMemory.writeBytes (memories 28) slot (leBytes 8 0x500DA) } := by
    refine real_part started code fun rax memory => ?_
    refine protected_part rfl rfl rfl (by exact protectionOn) (by exact stillUnpaged) code rfl rfl
      cr3Word (by exact mapped) fun rax memory => ?_
    refine long_part rfl rfl rfl (sees_of_walk (by exact mapped)) code stackWord coreWord mainWord
      fun i inSlot => ?_
    rw [translate, if_pos (by exact paged)]
    exact stack i inSlot
  exact ⟨_, passed, ⟨rfl, rfl, rfl, rfl, ⟨rfl, rfl, rfl, rfl⟩, rfl, stillProtected, paged,
    or_set _ (by decide), longEnabled, or_set _ (by decide)⟩, rfl⟩

/-! ## After `install_trampoline` -/

/-- The page as `install_trampoline` leaves it. -/
structure Installed (memory : Memory) (cr3 coreId stackTop apMain : U64) : Prop where
  code : HoldsCode memory
  coreWord : loadWord memory 0x50FE0 = coreId
  cr3Word : loadWord memory 0x50FE8 = cr3
  stackWord : loadWord memory 0x50FF0 = stackTop
  mainWord : loadWord memory 0x50FF8 = apMain

theorem loadWord_writeBytes_same (memory : Memory) {base : Nat} {address : U64} (word : U64)
    (here : base = address.toNat) :
    loadWord (writeBytes memory base (toLeBytes 8 word)) address = word := by
  subst here
  exact loadWord_storeWord memory address word

theorem loadWord_writeBytes_other (memory : Memory) {base : Nat} {address : U64} (word : U64)
    (apart : address.toNat + 8 ≤ base ∨ base + 8 ≤ address.toNat) :
    loadWord (writeBytes memory base (toLeBytes 8 word)) address = loadWord memory address := by
  refine loadWord_congr fun a above below => ?_
  exact writeBytes_outside memory (by rw [toLeBytes_length]; omega)

/-- The control block behind the code. -/
def writeControlBlock (memory : Memory) (cr3 coreId stackTop apMain : U64) : Memory :=
  let memory := writeBytes memory 0x50FE0 (toLeBytes 8 coreId)
  let memory := writeBytes memory 0x50FE8 (toLeBytes 8 cr3)
  let memory := writeBytes memory 0x50FF0 (toLeBytes 8 stackTop)
  writeBytes memory 0x50FF8 (toLeBytes 8 apMain)

theorem writeControlBlock_outside (memory : Memory) {cr3 coreId stackTop apMain : U64} {a : Nat}
    (outside : a < 0x50FE0 ∨ 0x51000 ≤ a) :
    writeControlBlock memory cr3 coreId stackTop apMain a = memory a := by
  rw [writeControlBlock, writeBytes_outside, writeBytes_outside, writeBytes_outside,
    writeBytes_outside]
  all_goals
    rw [toLeBytes_length]
    omega

theorem installed_of_writes (memory : Memory) (cr3 coreId stackTop apMain : U64) :
    Installed (writeControlBlock (writeBytes memory 0x50000 Memory.AP_TRAMPOLINE_BIN) cr3 coreId
      stackTop apMain) cr3 coreId stackTop apMain := by
  have codeLength := Memory.AP_TRAMPOLINE_BIN_length
  refine ⟨?_, ?_, ?_, ?_, loadWord_writeBytes_same _ apMain rfl⟩
  · have copied := readBytes_writeBytes memory 0x50000 Memory.AP_TRAMPOLINE_BIN
    rw [codeLength] at copied
    refine HoldsCode.congr copied fun a above below => ?_
    exact writeControlBlock_outside _ (Or.inl (by omega))
  · rw [writeControlBlock, loadWord_writeBytes_other _ apMain (by decide),
      loadWord_writeBytes_other _ stackTop (by decide), loadWord_writeBytes_other _ cr3 (by decide)]
    exact loadWord_writeBytes_same _ coreId rfl
  · rw [writeControlBlock, loadWord_writeBytes_other _ apMain (by decide),
      loadWord_writeBytes_other _ stackTop (by decide)]
    exact loadWord_writeBytes_same _ cr3 rfl
  · rw [writeControlBlock, loadWord_writeBytes_other _ apMain (by decide)]
    exact loadWord_writeBytes_same _ stackTop rfl

theorem installTrampoline_writes {physOffset cr3 stackTop apMain : U64} {coreId : U32}
    {before after : Memory}
    (installs : Memory.installTrampoline physOffset cr3 coreId stackTop apMain before =
      some after) :
    after = writeControlBlock (writeBytes before 0x50000 Memory.AP_TRAMPOLINE_BIN) cr3
      (coreId.setWidth 64) stackTop apMain := by
  have codeLength := Memory.AP_TRAMPOLINE_BIN_length
  have noAssert : ¬ 0xFE0 < Memory.AP_TRAMPOLINE_BIN.length := by omega
  simp only [Memory.installTrampoline, Option.bind_eq_bind, Option.bind_eq_some_iff,
    checkedAdd_eq_some_iff, Memory.windowAddress, if_neg noAssert, Option.some.injEq,
    BitVec.reduceToNat] at installs
  obtain ⟨base, baseEq, coreIdAt, coreIdEq, cr3At, cr3Eq, stackTopAt, stackTopEq, apMainAt,
    apMainEq, rfl⟩ := installs
  have codeAt : base.toNat - physOffset.toNat = 0x50000 := by omega
  have coreAt : coreIdAt.toNat - physOffset.toNat = 0x50FE0 := by omega
  have tablesAt : cr3At.toNat - physOffset.toNat = 0x50FE8 := by omega
  have stackAt : stackTopAt.toNat - physOffset.toNat = 0x50FF0 := by omega
  have mainAt : apMainAt.toNat - physOffset.toNat = 0x50FF8 := by omega
  rw [codeAt, coreAt, tablesAt, stackAt, mainAt, writeControlBlock]

theorem installTrampoline_installed {physOffset cr3 stackTop apMain : U64} {coreId : U32}
    {before after : Memory}
    (installs : Memory.installTrampoline physOffset cr3 coreId stackTop apMain before =
      some after) :
    Installed after cr3 (coreId.setWidth 64) stackTop apMain := by
  rw [installTrampoline_writes installs]
  exact installed_of_writes before cr3 (coreId.setWidth 64) stackTop apMain

/-- With physical memory mapped at address 0 nothing overflows. -/
theorem installTrampoline_returns (cr3 : U64) (coreId : U32) (stackTop apMain : U64)
    (before : Memory) :
    ∃ after, Memory.installTrampoline 0 cr3 coreId stackTop apMain before = some after := by
  have codeLength := Memory.AP_TRAMPOLINE_BIN_length
  have noAssert : ¬ 0xFE0 < Memory.AP_TRAMPOLINE_BIN.length := by omega
  simp only [Memory.installTrampoline, Option.bind_eq_bind, Option.bind_eq_some_iff,
    checkedAdd_eq_some_iff, if_neg noAssert, Option.some.injEq]
  exact ⟨_, 0x50000, by decide, 0x50FE0, by decide, 0x50FE8, by decide, 0x50FF0, by decide, 0x50FF8,
    by decide, rfl⟩

theorem Installed.congr {left right : Memory} {cr3 coreId stackTop apMain : U64}
    (installed : Installed left cr3 coreId stackTop apMain)
    (same : ∀ a, 0x50000 ≤ a → a < 0x51000 → right a = left a) :
    Installed right cr3 coreId stackTop apMain := by
  have word : ∀ address : U64, 0x50000 ≤ address.toNat → address.toNat + 8 ≤ 0x51000 →
      loadWord right address = loadWord left address := by
    intro address above below
    exact loadWord_congr fun a fromHere toHere => same a (by omega) (by omega)
  refine ⟨?_, ?_, ?_, ?_, ?_⟩
  · exact installed.code.congr fun a above below => same a above (by omega)
  · rw [word _ (by decide) (by decide), installed.coreWord]
  · rw [word _ (by decide) (by decide), installed.cr3Word]
  · rw [word _ (by decide) (by decide), installed.stackWord]
  · rw [word _ (by decide) (by decide), installed.mainWord]

/-- A processor after INIT and a start-up interrupt with vector `0x50`. -/
def resetAp : Ap where
  mode := .real16
  cs := ⟨0x5000, 0x50000⟩
  ds := ⟨0, 0⟩
  es := ⟨0, 0⟩
  ss := ⟨0, 0⟩
  ip := 0
  rax := 0
  rcx := 0
  rdx := 0
  rsp := 0
  rdi := 0
  cr0 := 0x60000010
  cr3 := 0
  cr4 := 0
  efer := 0
  gdtBase := 0
  gdtLimit := 0xFFFF
  memory := fun _ => 0

end AxiomKernel.Smp
