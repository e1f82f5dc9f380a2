import Mathlib
import AxiomKernel.Lib.Bytes
import AxiomKernel.Lib.ByteMemory
import AxiomKernel.Lib.StackWords
import AxiomKernel.Lib.EventRun
import AxiomKernel.Lib.LabelledRun
import AxiomKernel.Memory.Paging
import AxiomKernel.Sched.ContextSwitch
import AxiomKernel.User.Setup
import AxiomKernel.Syscall.Entry

/-!
# Runs of a user program

The kernel enters the user program once, with `user::enter`; from then on the program
computes and makes system calls in any order.  `Process` is the machine a user program
is written for: a system call is one step that answers in `rax`.  There is no kernel
stack and no privilege level in it.  Every run of the processor through the stub is a run
of this machine.
-/

set_option autoImplicit false

namespace AxiomKernel.Syscall

open ByteStrings ByteMemory StackWords LabelledRuns
open Sched (Reg)

/-! ## The processor and the kernel -/

structure Call where
  nr : U64
  arg1 : U64
  arg2 : U64
  arg3 : U64
  deriving DecidableEq

inductive Event where
  | user
  | syscall (call : Call) (answer : U64)

def Event.call : Event → Option Call
  | .user => none
  | .syscall call _ => some call

def Event.answer : Event → Option U64
  | .user => none
  | .syscall _ answer => some answer

/-- The processor, and the kernel's state as the dispatcher sees it. -/
structure World (κ : Type) where
  cpu : Cpu
  kernel : κ

/-- The arguments in the registers of the System V convention. -/
def Cpu.arguments (cpu : Cpu) : Call where
  nr := cpu.reg .rdi
  arg1 := cpu.reg .rsi
  arg2 := cpu.reg .rdx
  arg3 := cpu.reg .rcx

section Runs

variable {κ : Type}

inductive Step (layout : Layout) (msrs : Msrs) (dispatch : κ → Call → Option (κ × U64)) :
    World κ → Event → World κ → Prop
  /-- The user program does what privilege level 3 lets it do: it cannot write the kernel's
  memory or change its segments and `IF`. -/
  | user {world : World κ} (cpu : Cpu) (mode : cpu.UserMode)
      (interrupts : interruptsEnabled cpu.rflags = interruptsEnabled world.cpu.rflags)
      (kept : ∀ a ∈ layout.kernel, cpu.memory a = world.cpu.memory a) :
      Step layout msrs dispatch world .user ⟨cpu, world.kernel⟩
  /-- The stub calls the dispatcher, which returns and leaves its answer in `rax`.  Only calls
  with `TF` and `DF` clear are steps: with `TF` set there is a double fault instead, and with
  `DF` set nothing is known of the dispatcher. -/
  | syscall {world : World κ} (flags : CallFlags world.cpu.rflags) (returnAddress : U64)
      (called returned resumed : Cpu) (kernel : κ)
      (entered : world.cpu.enterKernel layout.toPlaces msrs returnAddress = some called)
      (returns : Returns layout called returned)
      (served : dispatch world.kernel called.arguments = some (kernel, returned.reg .rax))
      (left : returned.leaveKernel layout.toPlaces msrs = some resumed) :
      Step layout msrs dispatch world (.syscall called.arguments (resumed.reg .rax))
        ⟨resumed, kernel⟩

/-! ## The machine of the user program -/

structure Process (layout : Layout) (κ : Type) where
  reg : Reg → U64
  rip : U64
  sp : U64
  rflags : U64
  memory : { a : Nat // a ∉ layout.kernel } → U8
  kernel : κ

inductive Process.Step {layout : Layout} (dispatch : κ → Call → Option (κ × U64)) :
    Process layout κ → Event → Process layout κ → Prop
  | user (before after : Process layout κ) (same : after.kernel = before.kernel)
      (interrupts : interruptsEnabled after.rflags = interruptsEnabled before.rflags) :
      Process.Step dispatch before .user after
  /-- The answer comes back in `rax`; `rcx` and `r11` and the registers of the arguments
  are lost, everything else is as before. -/
  | syscall (before : Process layout κ) (flags : CallFlags before.rflags) (call : Call) (kernel : κ)
      (reg : Reg → U64)
      (nr : call = ⟨before.reg .rax, before.reg .rdi, before.reg .rsi, before.reg .rdx⟩)
      (served : dispatch before.kernel call = some (kernel, reg .rax))
      (saved : ∀ r ∈ calleeSaved, reg r = before.reg r) :
      Process.Step dispatch before (.syscall call (reg .rax))
        { before with reg := reg, kernel := kernel }

/-- What the user program can see of a world. -/
def World.process (layout : Layout) (world : World κ) : Process layout κ where
  reg := world.cpu.reg
  rip := world.cpu.rip
  sp := world.cpu.sp
  rflags := world.cpu.rflags
  memory := fun a => world.cpu.memory a
  kernel := world.kernel

/-! ## Every step -/

/-- The user program runs, interrupts are on, and the stub finds what `init` left. -/
structure World.Ready (layout : Layout) (msrs : Msrs) (world : World κ) : Prop where
  mode : world.cpu.UserMode
  interrupts : interruptsEnabled world.cpu.rflags = true
  configured : Configured layout msrs world.cpu.memory

variable {layout : Layout} {msrs : Msrs} {dispatch : κ → Call → Option (κ × U64)}

theorem Resumes.userMode {user resumed : Cpu} (resumes : Resumes user resumed)
    (mode : user.UserMode) : resumed.UserMode where
  cs := resumes.cs.trans mode.cs
  ss := resumes.ss.trans mode.ss
  rflags := by
    rw [resumes.rflags]
    exact mode.rflags

/-- The step of a system call, with the parts of it that the user program depends on. -/
theorem Step.syscall_cases {world after : World κ} {call : Call} {answer : U64}
    (ready : world.Ready layout msrs)
    (stepped : Step layout msrs dispatch world (.syscall call answer) after) :
    CallFlags world.cpu.rflags ∧
      call = ⟨world.cpu.reg .rax, world.cpu.reg .rdi, world.cpu.reg .rsi, world.cpu.reg .rdx⟩ ∧
      dispatch world.kernel call = some (after.kernel, answer) ∧
      after.cpu.reg .rax = answer ∧ Resumes world.cpu after.cpu ∧
      Configured layout msrs after.cpu.memory ∧
      ∀ a, a ∉ layout.kernel → after.cpu.memory a = world.cpu.memory a := by
  cases stepped with
  | syscall flags returnAddress called returned resumed kernel entered returns served left =>
      obtain ⟨_, same, dispatches⟩ :=
        enterKernel_dispatches ready.configured flags.trap returnAddress
      obtain rfl := Option.some.inj (entered.symm.trans same)
      have kept := dispatches.keepsConvention flags.direction returns
      have canonical : Memory.Canonical world.cpu.rip := by
        by_contra notCanonical
        rw [leaveKernel_faults dispatches kept notCanonical] at left
        cases left
      obtain ⟨_, leaves, resumes, rax, memory⟩ :=
        leaveKernel_resumes ready.configured ready.mode dispatches kept canonical
      obtain rfl := Option.some.inj (left.symm.trans leaves)
      have call : called.arguments =
          ⟨world.cpu.reg .rax, world.cpu.reg .rdi, world.cpu.reg .rsi, world.cpu.reg .rdx⟩ := by
        rw [Cpu.arguments, dispatches.nr, dispatches.arg1, dispatches.arg2, dispatches.arg3]
      refine ⟨flags, call, rax ▸ served, rfl, resumes, ?_, ?_⟩
      · simp only [memory]
        exact ready.configured.kept dispatches kept
      · intro a outside
        simp only [memory]
        rw [kept.outside a outside, dispatches.memory_user outside]

theorem Step.ready {world after : World κ} {event : Event} (ready : world.Ready layout msrs)
    (stepped : Step layout msrs dispatch world event after) : after.Ready layout msrs := by
  cases event with
  | user =>
      cases stepped with
      | user cpu mode interrupts kept =>
          refine ⟨mode, interrupts.trans ready.interrupts, ?_⟩
          refine ready.configured.congr fun a inside => kept a (layout.kernelRspKernel a inside)
  | syscall call answer =>
      obtain ⟨_, _, _, _, resumes, configured, _⟩ := stepped.syscall_cases ready
      refine ⟨resumes.userMode ready.mode, ?_, configured⟩
      rw [resumes.rflags]
      exact ready.interrupts

theorem Step.process {world after : World κ} {event : Event} (ready : world.Ready layout msrs)
    (stepped : Step layout msrs dispatch world event after) :
    Process.Step dispatch (world.process layout) event (after.process layout) := by
  cases event with
  | user =>
      cases stepped with
      | user cpu mode interrupts kept => exact Process.Step.user _ _ rfl interrupts
  | syscall call answer =>
      obtain ⟨flags, nr, served, rfl, resumes, _, memory⟩ := stepped.syscall_cases ready
      have after_eq : after.process layout = { world.process layout with
          reg := after.cpu.reg, kernel := after.kernel } := by
        rw [World.process, World.process, resumes.rip, resumes.sp, resumes.rflags]
        congr 1
        funext a
        exact memory a.1 a.2
      rw [after_eq]
      exact Process.Step.syscall (world.process layout) flags call after.kernel after.cpu.reg nr
        served resumes.saved

/-- A system call of a ready world goes through when the dispatcher returns. -/
theorem World.Ready.advances {world : World κ} (ready : world.Ready layout msrs)
    (flags : CallFlags world.cpu.rflags) (returnAddress : U64) :
    ∃ called, world.cpu.enterKernel layout.toPlaces msrs returnAddress = some called ∧
      ∀ returned kernel, Returns layout called returned →
        dispatch world.kernel called.arguments = some (kernel, returned.reg .rax) →
        Memory.Canonical world.cpu.rip →
        ∃ after, after.kernel = kernel ∧ Step layout msrs dispatch world
          (.syscall called.arguments (returned.reg .rax)) after := by
  obtain ⟨called, entered, dispatches⟩ :=
    enterKernel_dispatches ready.configured flags.trap returnAddress
  refine ⟨called, entered, ?_⟩
  intro returned kernel returns served canonical
  have kept := dispatches.keepsConvention flags.direction returns
  obtain ⟨resumed, left, _, rax, _⟩ :=
    leaveKernel_resumes ready.configured ready.mode dispatches kept canonical
  have stepped := Step.syscall flags returnAddress called returned resumed kernel entered returns
    served left
  rw [rax] at stepped
  exact ⟨⟨resumed, kernel⟩, rfl, stepped⟩

/-- A dispatcher that only writes its answer to `rax` and returns. -/
theorem World.Ready.exists_syscall {world : World κ} {kernel : κ} {answer : U64}
    (ready : world.Ready layout msrs) (flags : CallFlags world.cpu.rflags)
    (canonical : Memory.Canonical world.cpu.rip)
    (served : dispatch world.kernel ⟨world.cpu.reg .rax, world.cpu.reg .rdi, world.cpu.reg .rsi,
      world.cpu.reg .rdx⟩ = some (kernel, answer)) :
    ∃ after, after.kernel = kernel ∧ Step layout msrs dispatch world
      (.syscall ⟨world.cpu.reg .rax, world.cpu.reg .rdi, world.cpu.reg .rsi, world.cpu.reg .rdx⟩
        answer) after := by
  obtain ⟨called, entered, dispatches⟩ := enterKernel_dispatches ready.configured flags.trap 0
  have call : called.arguments =
      ⟨world.cpu.reg .rax, world.cpu.reg .rdi, world.cpu.reg .rsi, world.cpu.reg .rdx⟩ := by
    rw [Cpu.arguments, dispatches.nr, dispatches.arg1, dispatches.arg2, dispatches.arg3]
  let returned : Cpu := { called with
    sp := called.sp + 8, reg := Function.update called.reg .rax answer }
  have kept : KeepsConvention layout called returned := by
    refine ⟨rfl, ?_, fun _ _ _ => rfl, rfl, rfl, fun _ _ => rfl⟩
    intro r saved
    refine Function.update_of_ne ?_ _ _
    rintro rfl
    simp [calleeSaved] at saved
  obtain ⟨resumed, left, _, rax, _⟩ :=
    leaveKernel_resumes ready.configured ready.mode dispatches kept canonical
  have answers : returned.reg .rax = answer := Function.update_self .rax answer called.reg
  have servedCall : dispatch world.kernel called.arguments = some (kernel, returned.reg .rax) := by
    rw [call, served, answers]
  have stepped := Step.syscall flags 0 called returned resumed kernel entered (fun _ => kept)
    servedCall left
  rw [rax, answers, call] at stepped
  exact ⟨⟨resumed, kernel⟩, rfl, stepped⟩

/-! ## Whole runs -/

theorem World.Ready.run {start final : World κ} {events : List Event}
    (ready : start.Ready layout msrs) (ran : Run (Step layout msrs dispatch) start events final) :
    final.Ready layout msrs :=
  Run.invariant (World.Ready layout msrs) (fun _ _ _ kept stepped => Step.ready kept stepped) ready
    ran

theorem World.Ready.run_process {start final : World κ} {events : List Event}
    (ready : start.Ready layout msrs) (ran : Run (Step layout msrs dispatch) start events final) :
    Run (Process.Step dispatch) (start.process layout) events (final.process layout) :=
  Run.simulation (World.Ready layout msrs) (World.process layout)
    (fun _ _ _ kept stepped => Step.ready kept stepped)
    (fun _ _ _ kept stepped => Step.process kept stepped) ready ran

theorem Process.run_kernel {before after : Process layout κ} {events : List Event}
    (ran : Run (Process.Step dispatch) before events after) :
    EventRuns.run dispatch before.kernel (events.filterMap Event.call) =
      some (after.kernel, events.filterMap Event.answer) := by
  induction ran with
  | nil state => rfl
  | cons stepped _ inductionHypothesis =>
      cases stepped with
      | user _ same interrupts =>
          rw [same] at inductionHypothesis
          exact inductionHypothesis
      | syscall flags call kernel reg nr served saved =>
          exact EventRuns.run_cons_eq_some_iff.mpr ⟨_, _, _, served, inductionHypothesis, rfl⟩

/-! ## The first entry -/

theorem entry_flags : userFlags (0x202 &&& 0x3D7FD7 ||| 2) = 0x202 &&& 0x3D7FD7 ||| 2 ∧
    interruptsEnabled (0x202 &&& 0x3D7FD7 ||| 2) = true ∧
    trapFlag (0x202 &&& 0x3D7FD7 ||| 2) = false ∧
    directionFlag (0x202 &&& 0x3D7FD7 ||| 2) = false := by
  decide

theorem enter_ready {boot : Cpu} {entry : U64} (configured : Configured layout msrs boot.memory)
    (room : 40 ≤ boot.sp.toNat)
    (offFrame : layout.kernelRsp.toNat + 8 ≤ boot.sp.toNat - 40 ∨
      boot.sp.toNat ≤ layout.kernelRsp.toNat)
    (canonical : Memory.Canonical entry) :
    ∃ cpu, boot.enter entry = some cpu ∧ cpu.rip = entry ∧ cpu.sp = User.USER_STACK_TOP ∧
      cpu.reg = boot.reg ∧ CallFlags cpu.rflags ∧
      ∀ kernel : κ, World.Ready layout msrs ⟨cpu, kernel⟩ := by
  have holds := Stack.pushAll_holds [userDataSelector.setWidth 64, User.USER_STACK_TOP, 0x202,
    userCodeSelector.setWidth 64, entry] boot.toStack room
  rw [← Stack.pushAll_sp] at holds
  obtain ⟨rip, cs, rflags, rsp, ss, _⟩ := holds
  rw [Cpu.enter, Cpu.iretq]
  simp only [Stack.pop, rip, cs, rflags, rsp, ss, if_pos canonical]
  obtain ⟨images, interrupts, noTrap, forwards⟩ := entry_flags
  refine ⟨_, rfl, rfl, rfl, rfl, ⟨noTrap, forwards⟩, fun kernel => ?_⟩
  refine ⟨⟨rfl, rfl, images⟩, interrupts, configured.congr ?_⟩
  intro a inside
  rw [Span] at inside
  refine Stack.pushAll_outside [userDataSelector.setWidth 64, User.USER_STACK_TOP, 0x202,
    userCodeSelector.setWidth 64, entry] room ?_
  change a < boot.sp.toNat - 40 ∨ boot.sp.toNat ≤ a
  omega

/-- The user program is entered with `TF` and `DF` clear.  From then on, whatever it computes and
whatever it calls, with both flags clear at each call: it stays at privilege level 3 with
interrupts on, its run is a run of the machine whose system calls are single steps, the
dispatcher has served exactly its calls in their order with the answers it got, and its next
call, again with both flags clear, reaches the dispatcher and comes back. -/
theorem system_calls_atomic (layout : Layout) (msrs : Msrs) (boot : Cpu) (entry : U64)
    (dispatch : κ → Call → Option (κ × U64)) (kernel : κ) (room : 40 ≤ boot.sp.toNat)
    (offFrame : layout.kernelRsp.toNat + 8 ≤ boot.sp.toNat - 40 ∨
      boot.sp.toNat ≤ layout.kernelRsp.toNat)
    (canonical : Memory.Canonical entry) :
    ∃ cpu, Cpu.enter { boot with memory := (init layout.toPlaces msrs boot.memory).2 } entry =
        some cpu ∧ cpu.rip = entry ∧ cpu.sp = User.USER_STACK_TOP ∧ CallFlags cpu.rflags ∧
      ∀ events final,
        Run (Step layout (init layout.toPlaces msrs boot.memory).1 dispatch) ⟨cpu, kernel⟩ events
            final →
          selected final.cpu.cs = some .userCode ∧ rpl final.cpu.cs = 3 ∧
          selected final.cpu.ss = some .userData ∧ rpl final.cpu.ss = 3 ∧
          interruptsEnabled final.cpu.rflags = true ∧
          Run (Process.Step dispatch) (World.process layout ⟨cpu, kernel⟩) events
            (final.process layout) ∧
          EventRuns.run dispatch kernel (events.filterMap Event.call) =
            some (final.kernel, events.filterMap Event.answer) ∧
          (CallFlags final.cpu.rflags → ∀ returnAddress, ∃ called,
            final.cpu.enterKernel layout.toPlaces (init layout.toPlaces msrs boot.memory).1
              returnAddress = some called ∧
            ∀ returned next, Returns layout called returned →
              dispatch final.kernel called.arguments = some (next, returned.reg .rax) →
              Memory.Canonical final.cpu.rip →
              ∃ after, after.kernel = next ∧
                Step layout (init layout.toPlaces msrs boot.memory).1 dispatch final
                  (.syscall called.arguments (returned.reg .rax)) after) := by
  have configured := init_configured layout msrs boot.memory
  let loaded : Cpu := { boot with memory := (init layout.toPlaces msrs boot.memory).2 }
  obtain ⟨cpu, entered, rip, sp, _, flags, ready⟩ :=
    @enter_ready κ layout _ loaded entry configured room offFrame canonical
  refine ⟨cpu, entered, rip, sp, flags, ?_⟩
  intro events final ran
  have finalReady := (ready kernel).run ran
  have refined := (ready kernel).run_process ran
  have segments : selected userCodeSelector = some .userCode ∧ rpl userCodeSelector = 3 ∧
      selected userDataSelector = some .userData ∧ rpl userDataSelector = 3 := by
    decide
  refine ⟨?_, ?_, ?_, ?_, finalReady.interrupts, refined, Process.run_kernel refined,
    finalReady.advances⟩
  · rw [finalReady.mode.cs, segments.1]
  · rw [finalReady.mode.cs, segments.2.1]
  · rw [finalReady.mode.ss, segments.2.2.1]
  · rw [finalReady.mode.ss, segments.2.2.2]

/-- A dispatcher that counts its calls and answers 0. -/
def countCalls (calls : Nat) (_ : Call) : Option (Nat × U64) := some (calls + 1, 0)

theorem system_calls_atomic_exit :
    ∃ cpu final, Cpu.enter { bootCpu with
        memory := (init lowLayout.toPlaces bootMsrs bootCpu.memory).2 } User.USER_CODE_VIRT =
          some cpu ∧
      Run (Step lowLayout (init lowLayout.toPlaces bootMsrs bootCpu.memory).1 countCalls) ⟨cpu, 0⟩
        [.syscall ⟨11, 0, 0, 0⟩ 0] final ∧
      rpl final.cpu.cs = 3 ∧ final.kernel = 1 := by
  let loaded : Cpu := { bootCpu with
    memory := (init lowLayout.toPlaces bootMsrs bootCpu.memory).2 }
  obtain ⟨cpu, entered, rip, _, flags, runs⟩ := system_calls_atomic lowLayout bootMsrs bootCpu
    User.USER_CODE_VIRT countCalls 0 (by decide) (by decide) (by decide)
  obtain ⟨_, again, _, _, reg, _, ready⟩ := @enter_ready Nat lowLayout _ loaded User.USER_CODE_VIRT
    (init_configured lowLayout bootMsrs bootCpu.memory) (by decide) (by decide) (by decide)
  obtain rfl := Option.some.inj (entered.symm.trans again)
  have served : countCalls 0 ⟨cpu.reg .rax, cpu.reg .rdi, cpu.reg .rsi, cpu.reg .rdx⟩ =
      some (1, 0) := rfl
  obtain ⟨final, kernel, stepped⟩ := (ready 0).exists_syscall flags (by rw [rip]; decide) served
  rw [reg] at stepped
  have ran := Run.cons stepped (Run.nil final)
  exact ⟨cpu, final, entered, ran, (runs _ final ran).2.1, kernel⟩

end Runs

end AxiomKernel.Syscall
