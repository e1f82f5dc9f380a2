import Mathlib
import AxiomKernel.Lib.Bytes
import AxiomKernel.Lib.ByteMemory
import AxiomKernel.Lib.StackWords
import AxiomKernel.Lib.LabelledRun
import AxiomKernel.Memory.Trampoline
import AxiomKernel.Smp.Processor
import AxiomKernel.Smp.ApStart

/-!
# Starting the application processors

Model of the loop of `smp::init` together with the processors it starts.  The boot
processor stores the trampoline and its control block, sends INIT and two start-up
interrupts, and polls the processor's flag; meanwhile the processor executes the bytes of
the page, and then `ap_main`.  All of them share the memory and take their steps in any
order.  There is one control block for all processors, so what has to be shown is that none
of them takes another one's stack or number.
-/

set_option autoImplicit false

namespace AxiomKernel.Smp

open ByteStrings ByteMemory StackWords LabelledRuns

/-! ## The boot processor's loop -/

def MAX_CORES : Nat := 8

/-- What `init` works with: the page tables, the address of `AP_STACKS` and of `ap_main`, how
the processors walk the tables, and the registers that INIT leaves as they are. -/
structure Image where
  cr3 : U64
  apStacks : U64
  apMain : U64
  walk : Walk
  registers : U8 → Ap

namespace Image

/-- `AP_STACKS[core_id].as_ptr().add(16384)` -/
def stackTop (image : Image) (core : U8) : U64 :=
  image.apStacks + BitVec.ofNat 64 (core.toNat * 16384) + 16384

/-- The stores of one turn, by physical address: the two cleared bytes, and those of
`install_trampoline`. -/
def stores (image : Image) (core : U8) : List (Nat × List U8) :=
  [(0x0FFE, [0]), (0x50FFE, [0])] ++
    (Memory.AP_TRAMPOLINE_BIN.mapIdx fun i byte => (0x50000 + i, [byte])) ++
    [(0x50FE0, toLeBytes 8 ((core.setWidth 32).setWidth 64 : U64)),
      (0x50FE8, toLeBytes 8 image.cr3),
      (0x50FF0, toLeBytes 8 (image.stackTop core)),
      (0x50FF8, toLeBytes 8 image.apMain)]

end Image

def sendSipi (apicId sipiVec : U8) : List (U32 × U32) :=
  let high := apicId.setWidth 32 <<< 24
  [(high, 0x0000C500), (high, 0x00008500), (high, 0x00004600 ||| sipiVec.setWidth 32),
    (high, 0x00004600 ||| sipiVec.setWidth 32)]

/-- Where the boot processor is: at the head of the loop, storing, sending, polling the flag
for the `ms`-th time, or past the loop with the total it prints. -/
inductive Bsp where
  | next (rest : List U8)
  | storing (core : U8) (todo : List (Nat × List U8)) (rest : List U8)
  | sending (core : U8) (todo : List (U32 × U32)) (rest : List U8)
  | polling (core : U8) (ms : Nat) (rest : List U8)
  | done (total : U32)

/-- A processor: not touched yet, waiting for a start-up interrupt, in the trampoline, and in
`ap_main` before and after it is counted. -/
inductive Core where
  | off
  | waiting
  | booting (ap : Ap)
  | marked (ap : Ap)
  | halted (ap : Ap)

structure System where
  memory : Memory
  isOnline : Nat → Bool
  apsOnline : U32
  cores : U8 → Core
  bsp : Bsp

/-- A processor that a start-up interrupt takes out of INIT. -/
def Image.startUp (image : Image) (core vector : U8) : Ap :=
  { image.registers core with
    mode := .real16
    cs := ⟨vector.setWidth 16 <<< 8, vector.toNat * 4096⟩
    ip := 0
    cr0 := 0x60000010
    efer := 0 }

/-- The processor has come to `ap_main`. -/
def Image.AtMain (image : Image) (ap : Ap) : Prop :=
  ap.mode = .long64 ∧ ap.cs.base + ap.ip = image.apMain.toNat

instance (image : Image) (ap : Ap) : Decidable (image.AtMain ap) :=
  inferInstanceAs (Decidable (_ ∧ _))

namespace System

def setCore (system : System) (core : U8) (value : Core) : System :=
  { system with cores := Function.update system.cores core value }

/-- An interrupt command: INIT puts the target into its waiting state, and only there a
start-up interrupt is taken. -/
def deliver (image : Image) (system : System) (icr : U32 × U32) : System :=
  let target : U8 := (icr.1 >>> 24).setWidth 8
  let deliveryMode := (icr.2 >>> 8) &&& 7
  if deliveryMode = 5 then
    if icr.2.getLsbD 14 then system.setCore target .waiting else system
  else if deliveryMode = 6 then
    match system.cores target with
    | .waiting => system.setCore target (.booting (image.startUp target (icr.2.setWidth 8)))
    | _ => system
  else system

inductive Event where
  /-- The boot processor's next store, interrupt command or turn. -/
  | advance
  /-- It reads the flag, and polls again or leaves because the flag is set. -/
  | poll
  /-- It reads the flag unset for the last time. -/
  | giveUp (core : U8)
  /-- A processor's next instruction in the trampoline. -/
  | fetch (core : U8)
  /-- `ap_main` sets the flag. -/
  | mark (core : U8)
  /-- `ap_main` counts the processor. -/
  | count (core : U8)

def advance (image : Image) (system : System) : Option System :=
  match system.bsp with
  | .next [] => some { system with bsp := .done (1 + system.apsOnline) }
  | .next (core :: rest) =>
      if MAX_CORES ≤ core.toNat then some { system with bsp := .next rest }
      else some { system with bsp := .storing core (image.stores core) rest }
  | .storing core [] rest => some { system with bsp := .sending core (sendSipi core 0x50) rest }
  | .storing core ((address, bytes) :: todo) rest =>
      some { system with
        memory := writeBytes system.memory address bytes
        bsp := .storing core todo rest }
  | .sending core [] rest => some { system with bsp := .polling core 0 rest }
  | .sending core (icr :: todo) rest =>
      some { system.deliver image icr with bsp := .sending core todo rest }
  | .polling _ _ _ => none
  | .done _ => none

def poll (system : System) : Option System :=
  match system.bsp with
  | .polling core ms rest =>
      if system.isOnline core.toNat then some { system with bsp := .next rest }
      else if 200 ≤ ms + 1 then none
      else some { system with bsp := .polling core (ms + 1) rest }
  | _ => none

def giveUp (system : System) (given : U8) : Option System :=
  match system.bsp with
  | .polling core ms rest =>
      if core = given ∧ system.isOnline core.toNat = false ∧ 200 ≤ ms + 1 then
        some { system with bsp := .next rest }
      else none
  | _ => none

def fetch (image : Image) (system : System) (core : U8) : Option System :=
  match system.cores core with
  | .booting ap =>
      if image.AtMain ap then none
      else do
        let next ← Ap.step { ap with memory := system.memory } image.walk
        some { system.setCore core (.booting next) with memory := next.memory }
  | _ => none

/-- The first half of `ap_main`, for the argument in `rdi`. -/
def mark (image : Image) (system : System) (core : U8) : Option System :=
  match system.cores core with
  | .booting ap =>
      if image.AtMain ap then
        if ap.rdi.toNat < MAX_CORES then
          some { system.setCore core (.marked ap) with
            isOnline := Function.update system.isOnline ap.rdi.toNat true }
        else some (system.setCore core (.halted ap))
      else none
  | _ => none

def count (system : System) (core : U8) : Option System :=
  match system.cores core with
  | .marked ap =>
      some { system.setCore core (.halted ap) with apsOnline := system.apsOnline + 1 }
  | _ => none

def step (image : Image) (system : System) : Event → Option System
  | .advance => system.advance image
  | .poll => system.poll
  | .giveUp core => system.giveUp core
  | .fetch core => system.fetch image core
  | .mark core => system.mark image core
  | .count core => system.count core

/-- A step of the boot processor or of one of the others. -/
def Steps (image : Image) (system : System) (event : Event) (next : System) : Prop :=
  system.step image event = some next

/-- `init` after `parse_madt`: only the boot processor is online. -/
def start (memory : Memory) (apicIds : List U8) (bspId : U8) : System where
  memory := memory
  isOnline := fun core => core == 0
  apsOnline := 0
  cores := fun _ => .off
  bsp := if apicIds.length ≤ 1 then .done 1 else .next (apicIds.filter (· ≠ bspId))

end System

/-! ## A processor in the trampoline -/

/-- What the tables below `cr3` have to give: the page where it is, a place for the first
word of every stack that is not in the page, and `ap_main` somewhere else. -/
structure Image.Sound (image : Image) : Prop where
  page : ∀ a, 0x50000 ≤ a → a < 0x51000 →
    image.walk ((image.cr3.setWidth 32).setWidth 64) 0x500 a = some a
  stack : ∀ core : U8, core.toNat < MAX_CORES → ∃ slot,
    (slot + 8 ≤ 0x50000 ∨ 0x51000 ≤ slot) ∧ ∀ i, i < 8 →
      image.walk ((image.cr3.setWidth 32).setWidth 64) 0x500
        ((image.stackTop core - 8).toNat + i) = some (slot + i)
  mainOutside : image.apMain.toNat < 0x50000 ∨ 0x51000 ≤ image.apMain.toNat
  stacksFit : image.apStacks.toNat + MAX_CORES * 16384 < 2 ^ 64

namespace Image

/-- The argument of `ap_main`. -/
def coreId (core : U8) : U64 := (core.setWidth 32).setWidth 64

theorem coreId_toNat (core : U8) : (coreId core).toNat = core.toNat := by
  have bound := core.isLt
  rw [coreId, BitVec.toNat_setWidth, BitVec.toNat_setWidth]
  omega

/-- The page holds the code and the control block of this processor. -/
def Block (image : Image) (core : U8) (memory : Memory) : Prop :=
  Installed memory image.cr3 (coreId core) (image.stackTop core) image.apMain

/-- The processor is in `ap_main` with its own number, on its own stack. -/
def Inside (image : Image) (core : U8) (ap : Ap) : Prop :=
  ap.Entered (image.cr3.setWidth 32) (image.stackTop core) (coreId core) image.apMain

/-- After `n` instructions, and at each of them the processor has found the block of `owner`. -/
def BootingAt (image : Image) (owner core : U8) (n : Nat) (ap : Ap) : Prop :=
  n ≤ 29 ∧ ∃ memories : Nat → Memory, (∀ time, image.Block owner (memories time)) ∧
    (image.startUp core 0x50).run image.walk memories 0 n = some ap

/-- The processor has found its own block at every instruction so far. -/
def Booting (image : Image) (core : U8) (ap : Ap) : Prop :=
  ∃ n, image.BootingAt core core n ap

variable {image : Image} {owner core : U8} {memory : Memory} {ap : Ap} {n : Nat}

theorem startUp_started (image : Image) (core : U8) : (image.startUp core 0x50).Started := by
  refine ⟨rfl, rfl, rfl, ?_, ?_⟩
  · show (0x60000010 : U32).getLsbD 0 = false
    decide
  · show (0x60000010 : U32).getLsbD 31 = false
    decide

theorem startUp_efer (image : Image) (core : U8) :
    (image.startUp core 0x50).efer ||| 0x500 = 0x500 := by
  show (0 : U64) ||| 0x500 = 0x500
  decide

theorem BootingAt.start (core : U8) (block : image.Block owner memory) :
    image.BootingAt owner core 0 (image.startUp core 0x50) :=
  ⟨Nat.zero_le 29, fun _ => memory, fun _ => block, rfl⟩

theorem startUp_path (sound : image.Sound) (small : owner.toNat < MAX_CORES) (core : U8)
    {memories : Nat → Memory} (blocks : ∀ time, image.Block owner (memories time)) :
    ∃ final slot, Ap.Path image.walk memories 0 (image.startUp core 0x50) startCode final ∧
      image.Inside owner final ∧ (slot + 8 ≤ 0x50000 ∨ 0x51000 ≤ slot) ∧
      final.memory = writeBytes (memories 28) slot (leBytes 8 0x500DA) := by
  obtain ⟨slot, outside, mapped⟩ := sound.stack owner small
  have page := sound.page
  rw [← startUp_efer image core] at page mapped
  obtain ⟨final, path, entered, pushed⟩ := Ap.enters (startUp_started image core)
    (fun time _ => (blocks time).code) (congrArg _ (blocks 15).cr3Word) (blocks 25).stackWord
    (blocks 26).coreWord (blocks 27).mainWord page mapped
  exact ⟨final, slot, path, entered, outside, pushed⟩

theorem Inside.atMain (inside : image.Inside core ap) : image.AtMain ap := by
  refine ⟨inside.mode, ?_⟩
  rw [inside.segments.1, inside.ip, Nat.zero_add]

theorem not_atMain (sound : image.Sound) {line : Line} (listed : line ∈ listing)
    (located : ap.At line) : ¬ image.AtMain ap := by
  intro atMain
  have inCode := (listing_decodes line listed).1
  have outside := sound.mainOutside
  have here := located.offset
  rw [atMain.2] at here
  omega

theorem Block.of_write (block : image.Block core memory) {slot : Nat}
    (outside : slot + 8 ≤ 0x50000 ∨ 0x51000 ≤ slot) (word : Nat) :
    image.Block core (writeBytes memory slot (leBytes 8 word)) := by
  refine block.congr fun a above below => ?_
  exact writeBytes_outside memory (by rw [leBytes_length]; omega)

/-- A processor that finds the block again is in `ap_main`, or its next instruction does not
fault and leaves the block as it is. -/
theorem BootingAt.progress (sound : image.Sound) (small : owner.toNat < MAX_CORES)
    (booting : image.BootingAt owner core n ap) (block : image.Block owner memory) :
    n = 29 ∧ image.AtMain ap ∧ image.Inside owner ap ∨
      n < 29 ∧ ¬ image.AtMain ap ∧
        ∃ next, Ap.step { ap with memory := memory } image.walk = some next ∧
          image.BootingAt owner core (n + 1) next ∧ image.Block owner next.memory := by
  obtain ⟨bound, memories, blocks, ran⟩ := booting
  obtain ⟨codeLength, noCall⟩ := startCode_call
  -- the same run, with what is in memory now for the next instruction
  have blocks' : ∀ time, image.Block owner (Function.update memories n memory time) := by
    intro time
    by_cases now : time = n
    · rw [now, Function.update_self]
      exact block
    · rw [Function.update_of_ne now]
      exact blocks time
  have ran' : (image.startUp core 0x50).run image.walk (Function.update memories n memory) 0 n =
      some ap := by
    rw [← ran]
    exact Ap.run_congr fun t _ before => Function.update_of_ne (by omega) _ _
  obtain ⟨final, slot, path, inside, outside, pushed⟩ := startUp_path sound small core blocks'
  have ranAll := path.run_eq
  rw [codeLength] at ranAll
  rcases Nat.lt_or_eq_of_le bound with early | rfl
  · right
    have found : startCode[n]? = some (startCode.get ⟨n, by omega⟩) :=
      List.getElem?_eq_getElem (by omega)
    obtain ⟨mid, next, ranMid, located, executes, steps⟩ := path.during found
    obtain rfl := Option.some.inj (ran'.symm.trans ranMid)
    rw [Nat.zero_add, Function.update_self] at executes steps
    have listed : startCode.get ⟨n, by omega⟩ ∈ listing :=
      List.mem_append_left haltCode (List.get_mem startCode ⟨n, by omega⟩)
    have ranNext : (image.startUp core 0x50).run image.walk (Function.update memories n memory)
        0 (n + 1) = some next := by
      refine Ap.run_last ran' ?_
      rw [Nat.zero_add, Function.update_self]
      exact steps
    refine ⟨early, not_atMain sound listed located, next, steps,
      ⟨early, Function.update memories n memory, blocks', ranNext⟩, ?_⟩
    by_cases call : n = 28
    · subst call
      obtain rfl := Option.some.inj (ranAll.symm.trans ranNext)
      rw [pushed, Function.update_self]
      exact block.of_write outside 0x500DA
    · rw [Ap.exec_memory executes (noCall n (by omega) _ found)]
      exact block
  · left
    obtain rfl := Option.some.inj (ranAll.symm.trans ran')
    exact ⟨rfl, inside.atMain, inside⟩

theorem BootingAt.inside (sound : image.Sound) (small : owner.toNat < MAX_CORES)
    (booting : image.BootingAt owner core n ap) (atMain : image.AtMain ap) :
    image.Inside owner ap := by
  obtain ⟨bound, memories, blocks, ran⟩ := booting
  rcases progress sound small ⟨bound, memories, blocks, ran⟩ (blocks 0) with
    ⟨_, _, inside⟩ | ⟨_, notAt, _⟩
  · exact inside
  · exact absurd atMain notAt

/-- The next instruction of a processor that is not in `ap_main` yet. -/
theorem BootingAt.next (sound : image.Sound) (small : owner.toNat < MAX_CORES)
    (booting : image.BootingAt owner core n ap) (block : image.Block owner memory)
    (notAt : ¬ image.AtMain ap) {after : Ap}
    (steps : Ap.step { ap with memory := memory } image.walk = some after) :
    image.BootingAt owner core (n + 1) after ∧ image.Block owner after.memory := by
  rcases booting.progress sound small block with
    ⟨_, atMain, _⟩ | ⟨_, _, found, foundSteps, boots, kept⟩
  · exact absurd atMain notAt
  · obtain rfl := Option.some.inj (steps.symm.trans foundSteps)
    exact ⟨boots, kept⟩

theorem Inside.argument_toNat (inside : image.Inside owner ap) :
    ap.rdi.toNat = owner.toNat := by
  rw [inside.argument]
  exact coreId_toNat owner

end Image

/-! ## The stores of a turn -/

def write (memory : Memory) (store : Nat × List U8) : Memory :=
  writeBytes memory store.1 store.2

theorem writeBytes_cons_first (memory : Memory) (base : Nat) (byte : U8) (rest : List U8) :
    writeBytes (writeBytes memory base [byte]) (base + 1) rest =
      writeBytes memory base (byte :: rest) := by
  funext a
  rw [writeBytes_cons memory base byte rest]
  by_cases here : a = base
  · subst here
    rw [Function.update_self, writeBytes_outside _ (Or.inl (Nat.lt_succ_self a)), writeBytes_cons,
      Function.update_self]
  · rw [Function.update_of_ne here]
    refine writeBytes_congr fun _ => ?_
    exact writeBytes_outside memory (by simp; omega)

/-- Copying a string byte by byte. -/
theorem foldl_write_bytes (bytes : List U8) (memory : Memory) (base : Nat) :
    (bytes.mapIdx fun i byte => (base + i, [byte])).foldl write memory =
      writeBytes memory base bytes := by
  induction bytes generalizing memory base with
  | nil =>
      funext a
      exact (writeBytes_outside memory (by simp; omega)).symm
  | cons byte rest inductionHypothesis =>
      rw [List.mapIdx_cons, List.foldl_cons, ← writeBytes_cons_first]
      have next := inductionHypothesis (writeBytes memory base [byte]) (base + 1)
      simp only [Nat.add_assoc, Nat.add_comm 1] at next
      exact next

/-- Behind the two cleared bytes come the stores of `install_trampoline`. -/
theorem stores_installTrampoline (image : Image) (core : U8) {physOffset : U64}
    {before after : Memory}
    (installs : Memory.installTrampoline physOffset image.cr3 (core.setWidth 32)
      (image.stackTop core) image.apMain
        (write (write before (0x0FFE, [0])) (0x50FFE, [0])) = some after) :
    (image.stores core).foldl write before = after := by
  rw [installTrampoline_writes installs, ← foldl_write_bytes, Image.stores]
  simp only [List.cons_append, List.nil_append, List.foldl_cons, List.foldl_append]
  rfl

theorem stores_block (image : Image) (core : U8) (before : Memory) :
    image.Block core ((image.stores core).foldl write before) := by
  obtain ⟨after, installs⟩ := installTrampoline_returns image.cr3 (core.setWidth 32)
    (image.stackTop core) image.apMain (write (write before (0x0FFE, [0])) (0x50FFE, [0]))
  rw [stores_installTrampoline image core installs]
  exact installTrampoline_installed installs

/-! ## The interrupt commands of a turn -/

theorem icr_target (core : U8) : ((core.setWidth 32 <<< 24) >>> 24).setWidth 8 = core := by
  have bound := core.isLt
  apply BitVec.eq_of_toNat_eq
  rw [BitVec.toNat_setWidth, BitVec.toNat_ushiftRight, BitVec.toNat_shiftLeft,
    BitVec.toNat_setWidth, Nat.shiftLeft_eq, Nat.shiftRight_eq_div_pow]
  omega

namespace System

variable {image : Image} {system : System} {core : U8}

/-- INIT -/
theorem deliver_init :
    system.deliver image (core.setWidth 32 <<< 24, 0x0000C500) = system.setCore core .waiting := by
  dsimp only [deliver]
  rw [icr_target, if_pos (by decide), if_pos (by decide)]

/-- The end of INIT changes nothing. -/
theorem deliver_deassert :
    system.deliver image (core.setWidth 32 <<< 24, 0x00008500) = system := by
  dsimp only [deliver]
  rw [if_pos (by decide), if_neg (by decide)]

theorem deliver_startUp (waits : system.cores core = .waiting) :
    system.deliver image (core.setWidth 32 <<< 24, 0x00004600 ||| (0x50 : U8).setWidth 32) =
      system.setCore core (.booting (image.startUp core 0x50)) := by
  dsimp only [deliver]
  rw [icr_target, if_neg (by decide), if_pos (by decide), waits]
  rfl

theorem deliver_startUp_again (running : system.cores core ≠ .waiting) :
    system.deliver image (core.setWidth 32 <<< 24, 0x00004600 ||| (0x50 : U8).setWidth 32) =
      system := by
  dsimp only [deliver]
  rw [icr_target, if_neg (by decide), if_pos (by decide)]
  split
  case h_1 waits => exact absurd waits running
  case h_2 => rfl

theorem fetch_eq {ap after : Ap} (booting : system.cores core = .booting ap)
    (notAt : ¬ image.AtMain ap)
    (steps : Ap.step { ap with memory := system.memory } image.walk = some after) :
    system.fetch image core =
      some { system.setCore core (.booting after) with memory := after.memory } := by
  rw [fetch, booting]
  dsimp only
  rw [if_neg notAt, steps]
  rfl

/-! ### What a step can do -/

theorem poll_cases {next : System} (stepped : system.poll = some next) :
    ∃ core ms rest, system.bsp = .polling core ms rest ∧
      (system.isOnline core.toNat = true ∧ next = { system with bsp := .next rest } ∨
        ms + 1 < 200 ∧ next = { system with bsp := .polling core (ms + 1) rest }) := by
  rw [poll] at stepped
  split at stepped
  case h_1 core ms rest polls =>
    refine ⟨core, ms, rest, polls, ?_⟩
    split at stepped
    case isTrue online => exact Or.inl ⟨online, (Option.some.inj stepped).symm⟩
    case isFalse =>
      split at stepped
      case isTrue => cases stepped
      case isFalse early => exact Or.inr ⟨Nat.lt_of_not_le early, (Option.some.inj stepped).symm⟩
  case h_2 => cases stepped

theorem giveUp_cases {next : System} {given : U8} (stepped : system.giveUp given = some next) :
    ∃ ms rest, system.bsp = .polling given ms rest ∧ system.isOnline given.toNat = false ∧
      200 ≤ ms + 1 ∧ next = { system with bsp := .next rest } := by
  rw [giveUp] at stepped
  split at stepped
  case h_1 core ms rest polls =>
    split at stepped
    case isTrue last =>
      obtain ⟨rfl, unset, lastRead⟩ := last
      exact ⟨ms, rest, polls, unset, lastRead, (Option.some.inj stepped).symm⟩
    case isFalse => cases stepped
  case h_2 => cases stepped

theorem fetch_cases {next : System} (stepped : system.fetch image core = some next) :
    ∃ ap after, system.cores core = .booting ap ∧ ¬ image.AtMain ap ∧
      Ap.step { ap with memory := system.memory } image.walk = some after ∧
      next = { system.setCore core (.booting after) with memory := after.memory } := by
  rw [fetch] at stepped
  split at stepped
  case h_1 ap booting =>
    split at stepped
    case isTrue => cases stepped
    case isFalse notAt =>
      obtain ⟨after, steps, same⟩ := Option.bind_eq_some_iff.mp stepped
      exact ⟨ap, after, booting, notAt, steps, (Option.some.inj same).symm⟩
  case h_2 => cases stepped

theorem mark_cases {next : System} (stepped : system.mark image core = some next) :
    ∃ ap, system.cores core = .booting ap ∧ image.AtMain ap ∧
      next = if ap.rdi.toNat < MAX_CORES then
          { system.setCore core (.marked ap) with
            isOnline := Function.update system.isOnline ap.rdi.toNat true }
        else system.setCore core (.halted ap) := by
  rw [mark] at stepped
  split at stepped
  case h_1 ap booting =>
    split at stepped
    case isTrue atMain =>
      rw [← apply_ite some] at stepped
      exact ⟨ap, booting, atMain, (Option.some.inj stepped).symm⟩
    case isFalse => cases stepped
  case h_2 => cases stepped

theorem count_cases {next : System} (stepped : system.count core = some next) :
    ∃ ap, system.cores core = .marked ap ∧
      next = { system.setCore core (.halted ap) with apsOnline := system.apsOnline + 1 } := by
  rw [count] at stepped
  split at stepped
  case h_1 ap marked => exact ⟨ap, marked, (Option.some.inj stepped).symm⟩
  case h_2 => cases stepped

end System

end AxiomKernel.Smp
