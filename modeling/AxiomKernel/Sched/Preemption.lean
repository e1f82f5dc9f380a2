import Mathlib
import AxiomKernel.Lib.Bytes
import AxiomKernel.Lib.Words
import AxiomKernel.Lib.ByteMemory
import AxiomKernel.Lib.StackWords
import AxiomKernel.Lib.LabelledRun
import AxiomKernel.Sched.Scheduler
import AxiomKernel.Sched.RoundRobin
import AxiomKernel.Sched.ContextSwitch
import AxiomKernel.Sched.TaskContexts

/-!
# Preemption

Model of `timer_interrupt_handler` of `interrupts.rs` with `perform_switch` of
`scheduler.rs`: the interrupt leaves its frame and the handler its registers on the stack
of the running task, `prepare_switch` chooses the next task unless the scheduler is locked,
and `context_switch` leaves the handler in the middle; the task goes on from there when it is
chosen again.  A task sees nothing of this.
-/

set_option autoImplicit false

namespace AxiomKernel.Sched

open ByteStrings MachineWords ByteMemory StackWords Scheduler LabelledRuns

/-! ## The interrupt -/

/-- The selectors of ring 0 that an interrupt saves. -/
def kernelCs : U64 := 0x08

def kernelSs : U64 := 0x10

/-- The registers a call may change; the convention `x86-interrupt` keeps them. -/
def scratch : List Reg := [.rax, .rcx, .rdx, .rsi, .rdi, .r8, .r9, .r10, .r11]

namespace Machine

/-- The stack pointer is aligned before the first word is pushed. -/
def alignedStack (machine : Machine) : Stack where
  sp := machine.sp &&& ~~~0xF
  memory := machine.memory

/-- The processor saves where it was, through an interrupt gate. -/
def interrupt (machine : Machine) : Machine :=
  { machine with
    toStack := machine.alignedStack.pushAll
      [kernelSs, machine.sp, machine.rflags.value, kernelCs, machine.rip]
    rflags := RFlags.ofImage (machine.rflags.value &&& ~~~0x200) }

def enterHandler (machine : Machine) : Machine :=
  (scratch.map Instr.push).foldl exec machine.interrupt

def iretq (machine : Machine) : Machine :=
  let (rip, stack) := machine.pop
  let (_, stack) := stack.pop
  let (image, stack) := stack.pop
  let (rsp, _) := stack.pop
  { machine with sp := rsp, rflags := RFlags.ofImage image, rip := rip }

def leaveHandler (machine : Machine) : Machine :=
  ((scratch.reverse.map Instr.pop).foldl exec machine).iretq

/-- What an interrupt leaves on the stack, the first pushed first. -/
def interruptWords (machine : Machine) : List U64 :=
  [kernelSs, machine.sp, machine.rflags.value, kernelCs, machine.rip] ++ scratch.map machine.reg

theorem enterHandler_eq (machine : Machine) :
    machine.enterHandler = { machine with
      toStack := machine.alignedStack.pushAll machine.interruptWords
      rflags := RFlags.ofImage (machine.rflags.value &&& ~~~0x200) } := by
  simp only [enterHandler, scratch, interrupt, interruptWords, List.map_cons, List.map_nil,
    List.foldl_cons, List.foldl_nil, exec, List.cons_append, List.nil_append, Stack.pushAll]

/-- The end of the handler restores everything, wherever the memory is as it left it. -/
theorem leaveHandler_restores {machine later : Machine} (sp : later.sp = machine.enterHandler.sp)
    (kept : ∀ reg, reg ∉ scratch → later.reg reg = machine.reg reg)
    (holds : HoldsWords later.memory machine.enterHandler.sp machine.interruptWords.reverse) :
    later.leaveHandler = { machine with memory := later.memory } := by
  rw [← sp] at holds
  have words : machine.interruptWords.reverse = [machine.reg .r11, machine.reg .r10,
      machine.reg .r9, machine.reg .r8, machine.reg .rdi, machine.reg .rsi, machine.reg .rdx,
      machine.reg .rcx, machine.reg .rax, machine.rip, kernelCs, machine.rflags.value, machine.sp,
      kernelSs] := rfl
  rw [words] at holds
  obtain ⟨r11, r10, r9, r8, rdi, rsi, rdx, rcx, rax, rip, _, image, rsp, _⟩ := holds
  have pops : scratch.reverse.map Instr.pop = [.pop .r11, .pop .r10, .pop .r9, .pop .r8, .pop .rdi,
      .pop .rsi, .pop .rdx, .pop .rcx, .pop .rax] := rfl
  rw [leaveHandler, pops]
  simp only [List.foldl_cons, List.foldl_nil, exec, Stack.pop, iretq, r11, r10, r9, r8, rdi, rsi,
    rdx, rcx, rax, rip, image, rsp, RFlags.ofImage_value]
  congr 1
  funext reg
  have callee : reg ∉ scratch → later.reg reg = machine.reg reg := kept reg
  cases reg <;> simp [scratch] at callee ⊢ <;> exact callee

theorem pops_memory (regs : List Reg) (machine : Machine) :
    ((regs.map Instr.pop).foldl exec machine).memory = machine.memory := by
  induction regs generalizing machine with
  | nil => rfl
  | cons reg regs inductionHypothesis =>
      rw [List.map_cons, List.foldl_cons, inductionHypothesis]
      rfl

theorem leaveHandler_memory (machine : Machine) : machine.leaveHandler.memory = machine.memory :=
  pops_memory scratch.reverse machine

theorem alignedStack_sp (machine : Machine) :
    machine.alignedStack.sp.toNat = machine.sp.toNat / 16 * 16 :=
  and_not_lowMask_toNat machine.sp 4

theorem interruptWords_length (machine : Machine) : machine.interruptWords.length = 14 := rfl

theorem enterHandler_sp {machine : Machine} (room : 128 ≤ machine.sp.toNat) :
    machine.enterHandler.sp.toNat = machine.sp.toNat / 16 * 16 - 112 := by
  rw [enterHandler_eq, Stack.pushAll_sp, interruptWords_length, BitVec.toNat_sub_of_le,
    alignedStack_sp]
  · rfl
  · rw [BitVec.le_def, alignedStack_sp]
    show 112 ≤ _
    omega

/-- The handler writes only below the stack pointer. -/
theorem enterHandler_outside {machine : Machine} {a : Nat} (room : 128 ≤ machine.sp.toNat)
    (outside : a + 127 < machine.sp.toNat ∨ machine.sp.toNat ≤ a) :
    machine.enterHandler.memory a = machine.memory a := by
  have sp := alignedStack_sp machine
  rw [enterHandler_eq]
  refine Stack.pushAll_outside machine.interruptWords ?_ ?_
  · rw [interruptWords_length]
    omega
  · rw [interruptWords_length]
    omega

theorem enterHandler_holds {machine : Machine} (room : 128 ≤ machine.sp.toNat) :
    HoldsWords machine.enterHandler.memory machine.enterHandler.sp
      machine.interruptWords.reverse := by
  have sp := alignedStack_sp machine
  have holds := Stack.pushAll_holds machine.interruptWords machine.alignedStack
    (by rw [interruptWords_length]; omega)
  rw [enterHandler_eq, Stack.pushAll_sp]
  exact holds

end Machine

/-! ## The tick -/

structure Kernel where
  machine : Machine
  sched : Scheduler
  ticks : U64
  /-- The running task holds `SCHEDULER`. -/
  locked : Bool

/-- `context_switch` stores the stack pointer of the old task in its `Task`. -/
def Scheduler.saveRsp (sched : Scheduler) (task : Nat) (rsp : U64) : Scheduler :=
  { sched with tasks := sched.tasks.modify task fun old => { old with rsp := rsp } }

namespace Kernel

/-- The arguments `context_switch(old_rsp_ptr, new_rsp)` of `perform_switch`; the fence before the
call changes no state. -/
def performSwitch (rspField : Nat → U64) (machine : Machine) (switch : Switch) : Machine :=
  { machine with
    reg := Function.update (Function.update machine.reg .rdi (rspField switch.oldIdx)) .rsi
      switch.newRsp }

/-- `timer_interrupt_handler`.  `rspField` is where the `rsp` of each task is stored, `handler` the
address behind the call of `context_switch`: a task that goes on there leaves the handler, a new
task starts at its entry. -/
def tick (rspField : Nat → U64) (handler : U64) (kernel : Kernel) : Option Kernel := do
  let entered := kernel.machine.enterHandler
  let ticks := kernel.ticks + 1
  if kernel.locked then some { kernel with machine := entered.leaveHandler, ticks := ticks }
  else
    let (sched, prepared) ← kernel.sched.prepareSwitch
    match prepared with
    | none => some { kernel with machine := entered.leaveHandler, sched := sched, ticks := ticks }
    | some switch =>
        let resumed := (performSwitch rspField entered switch).callContextSwitch handler
        some { kernel with
          machine := if resumed.rip = handler then resumed.leaveHandler else resumed
          sched := sched.saveRsp switch.oldIdx
            (loadWord resumed.memory (rspField switch.oldIdx))
          ticks := ticks }

inductive Event where
  | work
  | lock
  | unlock
  /-- A tick that finds the scheduler free. -/
  | tick
  /-- A tick while the running task holds the scheduler. -/
  | busyTick
  deriving DecidableEq

variable {n : Nat}

/-- The stack pointer of the running task is in its stack, with room for the handler. -/
def OnStack (places : Places (Fin n)) (task : Fin n) (sp : U64) : Prop :=
  (places.stack task).toNat + 192 ≤ sp.toNat ∧
    sp.toNat ≤ (places.stack task).toNat + places.stackSize task

def fieldOf (places : Places (Fin n)) (i : Nat) : U64 :=
  if inside : i < n then places.rspField ⟨i, inside⟩ else 0

inductive Step (layout : Layout (Fin n)) (handler : U64) : Kernel → Event → Kernel → Prop
  /-- The running task leaves alone what the others own, and stays on its stack. -/
  | work {kernel : Kernel} (running : Fin n) (current : kernel.sched.current = running)
      (machine : Machine)
      (kept : ∀ task ≠ running, ∀ a, layout.Owns task a →
        machine.memory a = kernel.machine.memory a)
      (onStack : OnStack layout.toPlaces running machine.sp) :
      Step layout handler kernel .work { kernel with machine := machine }
  | lock {kernel : Kernel} (free : kernel.locked = false) :
      Step layout handler kernel .lock { kernel with locked := true }
  | unlock {kernel : Kernel} (held : kernel.locked = true) :
      Step layout handler kernel .unlock { kernel with locked := false }
  | tick {kernel next : Kernel} (free : kernel.locked = false)
      (ticked : kernel.tick (fieldOf layout.toPlaces) handler = some next) :
      Step layout handler kernel .tick next
  | busyTick {kernel next : Kernel} (held : kernel.locked = true)
      (ticked : kernel.tick (fieldOf layout.toPlaces) handler = some next) :
      Step layout handler kernel .busyTick next

/-! ## Tasks that wait -/

/-- The machine and the tasks, as `TaskContexts` has them. -/
def system (machine : Machine) (running : Fin n) : System (Fin n) where
  machine := machine
  current := running
  live := Set.univ
  currentLive := Set.mem_univ running

/-- The task was interrupted in the state `machine`, and its stack has not changed since. -/
structure Interrupted (layout : Layout (Fin n)) (memory : Memory) (task : Fin n)
    (machine : Machine) : Prop where
  onStack : OnStack layout.toPlaces task machine.sp
  words : HoldsWords memory machine.enterHandler.sp machine.interruptWords.reverse
  above : ∀ a, Span (layout.stack task) (layout.stackSize task) a → machine.sp.toNat ≤ a →
    memory a = machine.memory a

/-- The context in which an interrupted task is left. -/
def handlerContext (handler : U64) (machine : Machine) : Context :=
  { machine.enterHandler.context with rip := handler }

/-- The task is suspended in the handler, or has not run yet. -/
inductive Waiting (layout : Layout (Fin n)) (handler : U64) (memory : Memory) (task : Fin n) :
    Context → Prop
  | interrupted (machine : Machine) (interrupted : Interrupted layout memory task machine) :
      Waiting layout handler memory task (handlerContext handler machine)
  | fresh {context : Context} (elsewhere : context.rip ≠ handler)
      (onStack : OnStack layout.toPlaces task context.rsp) :
      Waiting layout handler memory task context

def rspOf (kernel : Kernel) (task : Nat) : Option U64 := kernel.sched.tasks[task]?.map Task.rsp

structure Ready (layout : Layout (Fin n)) (handler : U64) (kernel : Kernel) (running : Fin n) :
    Prop where
  current : kernel.sched.current = running
  oneRunning : kernel.sched.OneRunning
  length : kernel.sched.tasks.length = n
  enough : 2 ≤ n
  onStack : OnStack layout.toPlaces running kernel.machine.sp
  waiting : ∀ task ≠ running, ∃ context,
    Saved layout (system kernel.machine running) task context ∧
      kernel.rspOf task = some (context.rsp - 64) ∧
      Waiting layout handler kernel.machine.memory task context

section

variable {layout : Layout (Fin n)} {handler : U64} {kernel next : Kernel}
  {memory memory' : Memory} {task : Fin n} {machine : Machine} {context : Context}

theorem Interrupted.congr (interrupted : Interrupted layout memory task machine)
    (same : ∀ a, layout.Owns task a → memory' a = memory a) :
    Interrupted layout memory' task machine := by
  obtain ⟨room, inside⟩ := interrupted.onStack
  have fits := layout.fits task
  have sp := Machine.enterHandler_sp (show 128 ≤ machine.sp.toNat by omega)
  refine ⟨⟨room, inside⟩, interrupted.words.congr ?_ ?_, ?_⟩
  · rw [List.length_reverse, Machine.interruptWords_length]
    omega
  · intro a above below
    rw [List.length_reverse, Machine.interruptWords_length] at below
    exact (same a (Or.inl ⟨by omega, by omega⟩)).symm
  · intro a inStack above
    rw [same a (Or.inl inStack)]
    exact interrupted.above a inStack above

theorem Waiting.congr (waiting : Waiting layout handler memory task context)
    (same : ∀ a, layout.Owns task a → memory' a = memory a) :
    Waiting layout handler memory' task context := by
  cases waiting with
  | interrupted machine interrupted => exact .interrupted machine (interrupted.congr same)
  | fresh elsewhere onStack => exact .fresh elsewhere onStack

/-- A task that is interrupted, in the memory the handler leaves. -/
theorem interrupted_of_enterHandler (onStack : OnStack layout.toPlaces task machine.sp)
    (same : ∀ a, machine.enterHandler.sp.toNat ≤ a →
      a < (layout.stack task).toNat + layout.stackSize task →
      memory a = machine.enterHandler.memory a) :
    Interrupted layout memory task machine := by
  obtain ⟨room, inside⟩ := onStack
  have fits := layout.fits task
  have roomy : 128 ≤ machine.sp.toNat := by omega
  have sp := Machine.enterHandler_sp roomy
  refine ⟨⟨room, inside⟩, (Machine.enterHandler_holds roomy).congr ?_ ?_, ?_⟩
  · rw [List.length_reverse, Machine.interruptWords_length]
    omega
  · intro a above below
    rw [List.length_reverse, Machine.interruptWords_length] at below
    exact (same a above (by omega)).symm
  · intro a inStack above
    rw [same a (by omega) inStack.2]
    exact Machine.enterHandler_outside roomy (Or.inr above)

end

/-! ## A tick -/

theorem set_rsp {tasks : List Task} {i : Nat} {old : Task} (found : tasks[i]? = some old)
    (state : TaskState) (scba : ScbaState) (j : Nat) :
    (tasks.set i { old with state, scba })[j]?.map Task.rsp = tasks[j]?.map Task.rsp := by
  have inside := (List.getElem?_eq_some_iff.mp found).1
  by_cases here : i = j
  · subst here
    rw [List.getElem?_set_self inside, found, Option.map_some, Option.map_some]
  · rw [List.getElem?_set_ne here]

/-- `prepare_switch` leaves the saved stack pointers, and returns that of the new task. -/
theorem prepares_rsp {sched after : Scheduler} {prepared : Option Switch}
    (prepares : sched.Prepares after prepared) :
    (∀ i : Nat, after.tasks[i]?.map Task.rsp = sched.tasks[i]?.map Task.rsp) ∧
      ∀ switch, prepared = some switch →
        sched.tasks[after.current]?.map Task.rsp = some switch.newRsp := by
  cases prepares with
  | few tasksFew =>
      refine ⟨fun i => rfl, ?_⟩
      intro switch impossible
      cases impossible
  | @stayed charged needFence old scba enough charges alone =>
      refine ⟨?_, ?_⟩
      · intro i
        rw [charges.tasks]
        exact set_rsp charges.found .ready scba i
      · intro switch impossible
        cases impossible
  | @switched charged next needFence old new scba k enough charges switches first =>
      have chargedRsp : ∀ i : Nat,
          charged.tasks[i]?.map Task.rsp = sched.tasks[i]?.map Task.rsp := by
        intro i
        rw [charges.tasks]
        exact set_rsp charges.found .ready scba i
      refine ⟨?_, ?_⟩
      · intro i
        rw [switches.tasks, ← chargedRsp i]
        exact set_rsp switches.found .running new.scba i
      · intro switch same
        cases same
        rw [switches.current, ← chargedRsp, switches.found]
        rfl

theorem saveRsp_rspOf (sched : Scheduler) {task : Nat} (inside : task < sched.tasks.length)
    (rsp : U64) (i : Nat) :
    (sched.saveRsp task rsp).tasks[i]?.map Task.rsp =
      if i = task then some rsp else sched.tasks[i]?.map Task.rsp := by
  rw [saveRsp, List.getElem?_modify]
  by_cases here : task = i
  · subst here
    rw [if_pos rfl, List.getElem?_eq_getElem inside]
    simp
  · rw [if_neg (Ne.symm here)]
    simp [here]

theorem saveRsp_oneRunning {sched : Scheduler} (oneRunning : sched.OneRunning) (task : Nat)
    (rsp : U64) : (sched.saveRsp task rsp).OneRunning := by
  refine ⟨by rw [saveRsp, List.length_modify]; exact oneRunning.inside, ?_⟩
  intro i new found
  rw [saveRsp, List.getElem?_modify] at found
  obtain ⟨old, foundOld, rfl⟩ := Option.map_eq_some_iff.mp found
  have running := oneRunning.running i old foundOld
  split
  · exact running
  · exact running

/-- What a tick does when the scheduler is free and has another task. -/
structure Switched (layout : Layout (Fin n)) (handler : U64) (kernel next : Kernel)
    (running target : Fin n) : Prop where
  isNext : target.val = (running.val + 1) % n
  other : target ≠ running
  current : next.sched.current = target
  length : next.sched.tasks.length = n
  oneRunning : next.sched.OneRunning
  /-- The old task is left in the handler. -/
  left : Saved layout (system next.machine target) running (handlerContext handler kernel.machine)
  leftRsp : next.rspOf running = some (kernel.machine.enterHandler.sp - 64)
  interrupted : Interrupted layout next.machine.memory running kernel.machine
  keptRsp : ∀ task ≠ running, next.rspOf task.val = kernel.rspOf task.val
  kept : ∀ task ≠ running, ∀ a, layout.Owns task a →
    next.machine.memory a = kernel.machine.memory a
  /-- The new task goes on where it was left, and leaves the handler if that is there. -/
  resumed : ∀ context, Saved layout (system kernel.machine running) target context →
    ∃ resumed : Machine, resumed.context = context ∧
      next.machine = if resumed.rip = handler then resumed.leaveHandler else resumed

section

variable {layout : Layout (Fin n)} {handler : U64} {kernel next : Kernel} {running target : Fin n}

theorem enterHandler_keeps {machine : Machine} (onStack : OnStack layout.toPlaces running machine.sp)
    {task : Fin n} (other : task ≠ running) {a : Nat} (owned : layout.Owns task a) :
    machine.enterHandler.memory a = machine.memory a := by
  obtain ⟨room, inside⟩ := onStack
  have foreign := layout.apart task running other a owned
  rw [Places.Owns, not_or, Span] at foreign
  exact Machine.enterHandler_outside (by omega) (by omega)

theorem switchTo_keeps {sys after : System (Fin n)} {task : Fin n} {returnAddress : U64}
    (stepped : Sched.Step layout sys (.switchTo target returnAddress) after)
    (other : task ≠ sys.current) {a : Nat} (owned : layout.Owns task a) :
    after.machine.memory a = sys.machine.memory a := by
  cases stepped with
  | switchTo _ _ live _ rdi rsi room inside =>
      rw [Machine.callContextSwitch_memory]
      exact switch_keeps rdi room inside other owned

theorem switchTo_above {sys after : System (Fin n)} {returnAddress : U64}
    (stepped : Sched.Step layout sys (.switchTo target returnAddress) after) {a : Nat}
    (above : sys.machine.sp.toNat ≤ a)
    (below : a < (layout.stack sys.current).toNat + layout.stackSize sys.current) :
    after.machine.memory a = sys.machine.memory a := by
  cases stepped with
  | switchTo _ _ live _ rdi rsi room inside =>
      have offSlot := mt (layout.fieldApart sys.current a) (not_not.mpr ⟨by omega, below⟩)
      rw [Span] at offSlot
      rw [Machine.callContextSwitch_memory]
      refine Machine.savedMemory_outside (by omega) (Or.inr above) ?_
      rw [rdi]
      omega

/-- The handler is work of the old task, and the switch finds the stack of the new one. -/
theorem performSwitch_steps (ready : Ready layout handler kernel running) {switch : Switch}
    (other : target ≠ running) (oldIdx : switch.oldIdx = running)
    (newRsp : kernel.rspOf target = some switch.newRsp) :
    let entered := performSwitch (fieldOf layout.toPlaces) kernel.machine.enterHandler switch
    Sched.Step layout (system kernel.machine running) .work (system entered running) ∧
    Sched.Step layout (system entered running) (.switchTo target handler)
      (system (entered.callContextSwitch handler) target) := by
  intro entered
  obtain ⟨room, inside⟩ := ready.onStack
  have fits := layout.fits running
  have sp := Machine.enterHandler_sp (show 128 ≤ kernel.machine.sp.toNat by omega)
  have works : Sched.Step layout (system kernel.machine running) .work (system entered running) := by
    refine Sched.Step.work entered ?_
    intro task _ different a owned
    exact enterHandler_keeps ⟨room, inside⟩ different owned
  refine ⟨works, Sched.Step.switchTo target handler (Set.mem_univ target) other ?_ ?_ ?_ ?_⟩
  · show fieldOf layout.toPlaces switch.oldIdx = layout.rspField running
    rw [oldIdx, fieldOf, dif_pos running.isLt]
  · obtain ⟨context, saved, rsp, _⟩ := ready.waiting target other
    rw [(saved.step works (by simp [Sched.Event.Resumes])).field]
    rw [newRsp] at rsp
    exact Option.some.inj rsp
  · show (layout.stack running).toNat + 64 ≤ kernel.machine.enterHandler.sp.toNat
    omega
  · show kernel.machine.enterHandler.sp.toNat ≤
      (layout.stack running).toNat + layout.stackSize running
    omega

theorem performSwitch_context (rspField : Nat → U64) (machine : Machine) (switch : Switch) :
    (performSwitch rspField machine switch).context = machine.context := by
  simp [performSwitch, Machine.context]

theorem succ_mod_ne {current : Nat} (enough : 2 ≤ n) (inside : current < n) :
    (current + 1) % n ≠ current := by
  by_cases last : current + 1 = n
  · rw [last, Nat.mod_self]
    omega
  · rw [Nat.mod_eq_of_lt (by omega)]
    omega

theorem tick_free {rspField : Nat → U64} (free : kernel.locked = false)
    (ticked : kernel.tick rspField handler = some next) :
    ∃ sched prepared, kernel.sched.prepareSwitch = some (sched, prepared) ∧
      next.locked = false ∧ ∀ switch, prepared = some switch → ∃ resumed : Machine,
        resumed = (performSwitch rspField kernel.machine.enterHandler
          switch).callContextSwitch handler ∧
        next.machine = (if resumed.rip = handler then resumed.leaveHandler else resumed) ∧
        next.sched = sched.saveRsp switch.oldIdx
          (loadWord resumed.memory (rspField switch.oldIdx)) := by
  simp only [tick, free, Bool.false_eq_true, if_false, Option.bind_eq_bind,
    Option.bind_eq_some_iff] at ticked
  obtain ⟨⟨sched, prepared⟩, preparing, ticked⟩ := ticked
  refine ⟨sched, prepared, preparing, ?_, ?_⟩
  · cases prepared with
    | none => rw [← Option.some.inj ticked]
    | some switch => rw [← Option.some.inj ticked]
  · intro switch same
    subst same
    have same := Option.some.inj ticked
    exact ⟨_, rfl, by rw [← same], by rw [← same]⟩

theorem switched_of_tick (ready : Ready layout handler kernel running) (free : kernel.locked = false)
    (ticked : kernel.tick (fieldOf layout.toPlaces) handler = some next) :
    next.locked = false ∧ ∃ target, Switched layout handler kernel next running target := by
  obtain ⟨sched, prepared, preparing, unlocked, resumes⟩ := tick_free free ticked
  have prepares := prepares_of_prepareSwitch preparing
  have advances := ready.oneRunning.advances (by rw [ready.length]; exact ready.enough) prepares
  obtain ⟨switch, rfl, oldIdx⟩ := advances.returned
  obtain ⟨keptRsp, newRsp⟩ := prepares_rsp prepares
  have targetIs := advances.current
  rw [ready.current, ready.length] at targetIs
  rw [ready.current] at oldIdx
  obtain ⟨target, targetVal⟩ : ∃ target : Fin n, target.val = (running.val + 1) % n :=
    ⟨⟨(running.val + 1) % n, Nat.mod_lt _ running.pos⟩, rfl⟩
  rw [← targetVal] at targetIs
  have other : target ≠ running := by
    intro same
    rw [same] at targetVal
    exact succ_mod_ne ready.enough running.isLt targetVal.symm
  obtain ⟨works, switches⟩ := performSwitch_steps ready other oldIdx
    (by rw [← targetIs]; exact newRsp switch rfl)
  obtain ⟨resumed, resumedIs, machine, nextSched⟩ := resumes switch rfl
  rw [← resumedIs] at switches
  rw [oldIdx, fieldOf, dif_pos running.isLt] at nextSched
  have left := saved_of_switchTo switches
  have memory : next.machine.memory = resumed.memory := by
    rw [machine]
    split
    · exact Machine.leaveHandler_memory resumed
    · rfl
  have schedLength : sched.tasks.length = n := advances.length.trans ready.length
  have rspOf : ∀ task, next.rspOf task = if task = running.val then
      some (loadWord resumed.memory (layout.rspField running)) else kernel.rspOf task := by
    intro task
    rw [Kernel.rspOf, nextSched, saveRsp_rspOf sched (by rw [schedLength]; exact running.isLt),
      keptRsp task, Kernel.rspOf]
  have kept : ∀ task ≠ running, ∀ a, layout.Owns task a →
      next.machine.memory a = kernel.machine.memory a := by
    intro task different a owned
    rw [memory]
    have switchKept : resumed.memory a = kernel.machine.enterHandler.memory a :=
      switchTo_keeps switches different owned
    rw [switchKept]
    exact enterHandler_keeps ready.onStack different owned
  refine ⟨unlocked, target, targetVal, other, ?_, ?_, ?_, ?_, ?_, ?_, ?_, kept, ?_⟩
  · rw [nextSched]
    exact targetIs
  · rw [nextSched, saveRsp, List.length_modify]
    exact schedLength
  · rw [nextSched]
    exact saveRsp_oneRunning advances.oneRunning _ _
  · have leftContext := performSwitch_context (fieldOf layout.toPlaces)
      kernel.machine.enterHandler switch
    simp only [system, leftContext] at left
    refine left.congr (Set.mem_univ running) other.symm ?_
    intro a _
    exact congrFun memory a
  · rw [rspOf, if_pos rfl]
    exact congrArg some left.field
  · refine interrupted_of_enterHandler ready.onStack ?_
    intro a above below
    rw [memory]
    exact switchTo_above switches above below
  · intro task different
    rw [rspOf, if_neg (Fin.val_ne_of_ne different)]
  · intro context saved
    exact ⟨resumed, (saved.step works (by simp [Sched.Event.Resumes])).resume switches, machine⟩

/-- A task that was interrupted goes on as it was. -/
theorem Switched.interrupted_resumes (switched : Switched layout handler kernel next running target)
    {machine : Machine}
    (saved : Saved layout (system kernel.machine running) target (handlerContext handler machine))
    (interrupted : Interrupted layout kernel.machine.memory target machine) :
    next.machine = { machine with memory := next.machine.memory } := by
  have later := interrupted.congr (switched.kept target switched.other)
  obtain ⟨resumed, context, machineIs⟩ := switched.resumed _ saved
  have rip : resumed.rip = handler := congrArg Context.rip context
  have sp : resumed.sp = machine.enterHandler.sp := congrArg Context.rsp context
  rw [if_pos rip] at machineIs
  have memory : next.machine.memory = resumed.memory := by
    rw [machineIs, Machine.leaveHandler_memory]
  rw [memory, machineIs]
  refine Machine.leaveHandler_restores sp ?_ (by rw [← memory]; exact later.words)
  intro reg callee
  have regs : machine.enterHandler.reg = machine.reg := by rw [Machine.enterHandler_eq]
  rw [← regs]
  cases reg with
  | r15 => exact congrArg Context.r15 context
  | r14 => exact congrArg Context.r14 context
  | r13 => exact congrArg Context.r13 context
  | r12 => exact congrArg Context.r12 context
  | rbx => exact congrArg Context.rbx context
  | rbp => exact congrArg Context.rbp context
  | _ => exact absurd (by decide) callee

theorem Switched.onStack (switched : Switched layout handler kernel next running target)
    {context : Context} (saved : Saved layout (system kernel.machine running) target context)
    (waiting : Waiting layout handler kernel.machine.memory target context) :
    OnStack layout.toPlaces target next.machine.sp := by
  cases waiting with
  | interrupted machine interrupted =>
      rw [switched.interrupted_resumes saved interrupted]
      exact interrupted.onStack
  | fresh elsewhere onStack =>
      obtain ⟨resumed, rfl, machineIs⟩ := switched.resumed context saved
      rw [if_neg (show resumed.rip ≠ handler from elsewhere)] at machineIs
      rw [machineIs]
      exact onStack

theorem Ready.switched (ready : Ready layout handler kernel running)
    (switched : Switched layout handler kernel next running target) :
    Ready layout handler next target := by
  refine ⟨switched.current, switched.oneRunning, switched.length, ready.enough, ?_, ?_⟩
  · obtain ⟨context, saved, _, waiting⟩ := ready.waiting target switched.other
    exact switched.onStack saved waiting
  · intro task notRunning
    by_cases wasRunning : task = running
    · subst wasRunning
      exact ⟨_, switched.left, switched.leftRsp, .interrupted _ switched.interrupted⟩
    · obtain ⟨context, saved, rsp, waiting⟩ := ready.waiting task wasRunning
      have kept := switched.kept task wasRunning
      exact ⟨context, saved.congr (Set.mem_univ task) notRunning kept,
        (switched.keptRsp task wasRunning).trans rsp, waiting.congr kept⟩

/-! ## The other steps -/

/-- A tick while the scheduler is held. -/
theorem enter_leaveHandler {machine : Machine} (room : 128 ≤ machine.sp.toNat) :
    machine.enterHandler.leaveHandler = { machine with memory := machine.enterHandler.memory } := by
  refine Machine.leaveHandler_restores rfl ?_ (Machine.enterHandler_holds room)
  intro reg _
  rw [Machine.enterHandler_eq]

theorem busyTick_eq {rspField : Nat → U64} (room : 128 ≤ kernel.machine.sp.toNat)
    (held : kernel.locked = true) (ticked : kernel.tick rspField handler = some next) :
    next = { kernel with
      machine := { kernel.machine with memory := kernel.machine.enterHandler.memory }
      ticks := kernel.ticks + 1 } := by
  rw [tick, if_pos held, enter_leaveHandler room] at ticked
  exact (Option.some.inj ticked).symm

/-- The running task stays, and what the others own is left alone. -/
structure Quiet (layout : Layout (Fin n)) (kernel next : Kernel) (running : Fin n) : Prop where
  sched : next.sched = kernel.sched
  onStack : OnStack layout.toPlaces running next.machine.sp
  kept : ∀ task ≠ running, ∀ a, layout.Owns task a →
    next.machine.memory a = kernel.machine.memory a

theorem quiet_of_step {event : Event} (ready : Ready layout handler kernel running)
    (stepped : Step layout handler kernel event next) (notTick : event ≠ .tick) :
    Quiet layout kernel next running := by
  cases stepped with
  | work current isCurrent machine kept onStack =>
      obtain rfl : current = running := Fin.ext (isCurrent.symm.trans ready.current)
      exact ⟨rfl, onStack, kept⟩
  | lock free => exact ⟨rfl, ready.onStack, fun _ _ _ _ => rfl⟩
  | unlock held => exact ⟨rfl, ready.onStack, fun _ _ _ _ => rfl⟩
  | tick free ticked => exact absurd rfl notTick
  | busyTick held ticked =>
      have room := ready.onStack.1
      have nextIs := busyTick_eq (by omega) held ticked
      refine ⟨by rw [nextIs], by rw [nextIs]; exact ready.onStack, ?_⟩
      intro task different a owned
      have memory : next.machine.memory = kernel.machine.enterHandler.memory := by rw [nextIs]
      rw [memory]
      exact enterHandler_keeps ready.onStack different owned

theorem Ready.quiet (ready : Ready layout handler kernel running)
    (quiet : Quiet layout kernel next running) : Ready layout handler next running := by
  refine ⟨by rw [quiet.sched]; exact ready.current, by rw [quiet.sched]; exact ready.oneRunning,
    by rw [quiet.sched]; exact ready.length, ready.enough, quiet.onStack, ?_⟩
  intro task notRunning
  obtain ⟨context, saved, rsp, waiting⟩ := ready.waiting task notRunning
  have kept := quiet.kept task notRunning
  exact ⟨context, saved.congr (Set.mem_univ task) notRunning kept,
    by rw [rspOf, quiet.sched]; exact rsp, waiting.congr kept⟩

theorem Ready.step {event : Event} (ready : Ready layout handler kernel running)
    (stepped : Step layout handler kernel event next) :
    ∃ target, Ready layout handler next target := by
  by_cases isTick : event = .tick
  · subst isTick
    cases stepped with
    | tick free ticked =>
        obtain ⟨_, target, switched⟩ := switched_of_tick ready free ticked
        exact ⟨target, ready.switched switched⟩
  · exact ⟨running, ready.quiet (quiet_of_step ready stepped isTick)⟩

/-! ## A full round -/

/-- While a task is suspended the others go round: after `ticks` ticks it is the turn of the task
that many places further. -/
structure Round (layout : Layout (Fin n)) (handler : U64) (kernel : Kernel) (task : Fin n)
    (machine : Machine) (running : Fin n) (ticks : Nat) : Prop where
  ready : Ready layout handler kernel running
  turn : running.val = (task.val + ticks) % n
  saved : Saved layout (system kernel.machine running) task (handlerContext handler machine)
  interrupted : Interrupted layout kernel.machine.memory task machine

theorem turn_ne {task running : Fin n} {ticks : Nat} (turn : running.val = (task.val + ticks) % n)
    (some : 0 < ticks) (fewer : ticks < n) : running ≠ task := by
  intro same
  rw [same] at turn
  have offsets := RingQueues.offset_inj fewer task.pos
    (turn.symm.trans (Nat.mod_eq_of_lt task.isLt).symm)
  omega

theorem Round.quiet {task : Fin n} {machine : Machine} {ticks : Nat}
    (round : Round layout handler kernel task machine running ticks)
    (quiet : Quiet layout kernel next running) :
    Round layout handler next task machine running ticks := by
  have kept := quiet.kept task round.saved.suspended
  exact ⟨round.ready.quiet quiet, round.turn,
    round.saved.congr (Set.mem_univ task) round.saved.suspended kept, round.interrupted.congr kept⟩

theorem Round.tick {task : Fin n} {machine : Machine} {ticks : Nat}
    (round : Round layout handler kernel task machine running ticks) (fewer : ticks + 1 < n)
    (switched : Switched layout handler kernel next running target) :
    Round layout handler next task machine target (ticks + 1) := by
  have turn : target.val = (task.val + (ticks + 1)) % n := by
    rw [switched.isNext, round.turn, Nat.mod_add_mod, Nat.add_assoc]
  have other := turn_ne turn (Nat.succ_pos ticks) fewer
  have kept := switched.kept task round.saved.suspended
  exact ⟨round.ready.switched switched, turn,
    round.saved.congr (Set.mem_univ task) other.symm kept, round.interrupted.congr kept⟩

theorem Round.run {task : Fin n} {machine : Machine} {between : List Event}
    (round : Round layout handler kernel task machine running 1)
    (ran : Run (Step layout handler) kernel between next)
    (fewer : between.count .tick + 1 < n) :
    ∃ later, Round layout handler next task machine later (between.count .tick + 1) := by
  refine Run.history (fun events state => events.count .tick + 1 < n →
    ∃ later, Round layout handler state task machine later (events.count .tick + 1)) ?_ ?_ ran fewer
  · intro events state event after inductionHypothesis stepped fewer
    rw [List.count_append] at fewer
    obtain ⟨current, round⟩ := inductionHypothesis (by omega)
    by_cases isTick : event = .tick
    · subst isTick
      rw [List.count_singleton_self] at fewer
      rw [List.count_append, List.count_singleton_self]
      cases stepped with
      | tick free ticked =>
          obtain ⟨_, target, switched⟩ := switched_of_tick round.ready free ticked
          exact ⟨target, round.tick fewer switched⟩
    · rw [List.count_append, List.count_singleton, if_neg (by simpa using isTick), Nat.add_zero]
      exact ⟨current, round.quiet (quiet_of_step round.ready stepped isTick)⟩
  · intro _
    exact ⟨running, round⟩

/-- The boot thread runs, and every other task is as `new_with_budget` made it. -/
structure Started (layout : Layout (Fin n)) (handler : U64) (kernel : Kernel) (running : Fin n) :
    Prop where
  current : kernel.sched.current = running
  oneRunning : kernel.sched.OneRunning
  length : kernel.sched.tasks.length = n
  enough : 2 ≤ n
  onStack : OnStack layout.toPlaces running kernel.machine.sp
  fresh : ∀ task ≠ running, ∃ memory entry, entry ≠ handler ∧ 320 ≤ layout.stackSize task ∧
    let made := newWithBudget memory (layout.stack task) (layout.stackSize task) entry
    kernel.rspOf task = some made.2 ∧
      loadWord kernel.machine.memory (layout.rspField task) = made.2 ∧
      ∀ a, Span (layout.stack task) (layout.stackSize task) a → kernel.machine.memory a = made.1 a

theorem Started.ready (started : Started layout handler kernel running) :
    Ready layout handler kernel running := by
  refine ⟨started.current, started.oneRunning, started.length, started.enough, started.onStack, ?_⟩
  intro task other
  obtain ⟨memory, entry, elsewhere, large, rsp, field, inStack⟩ := started.fresh task other
  have fits := layout.fits task
  obtain ⟨ctxPtr, frame⟩ := frameAt_newWithBudget memory entry
    (show 192 ≤ layout.stackSize task by omega) fits
  obtain ⟨made, madeIs⟩ : ∃ made,
      newWithBudget memory (layout.stack task) (layout.stackSize task) entry = made := ⟨_, rfl⟩
  rw [madeIs] at ctxPtr frame rsp field inStack
  have top : (made.2 + 64).toNat = (layout.stack task).toNat + layout.stackSize task - 128 := by
    rw [BitVec.toNat_add, ctxPtr, Nat.mod_eq_of_lt]
    · show _ + 64 = _
      omega
    · show _ + 64 < _
      omega
  have below : made.2 + 64 - 64 = made.2 := BitVec.add_sub_cancel made.2 64
  refine ⟨Context.initial (made.2 + 64) entry,
    ⟨Set.mem_univ task, other, ?_, ?_, ?_, frame.congr ?_ ?_⟩, ?_, .fresh elsewhere ⟨?_, ?_⟩⟩
  · exact field.trans below.symm
  · simp only [Context.initial]
    omega
  · simp only [Context.initial]
    omega
  · simp only [Context.initial]
    omega
  · intro a above under
    simp only [Context.initial] at above under
    exact (inStack a ⟨by omega, by omega⟩).symm
  · rw [rsp]
    exact congrArg some below.symm
  · simp only [Context.initial]
    omega
  · simp only [Context.initial]
    omega

theorem ready_of_run {before : List Event} (started : Started layout handler kernel running)
    (ran : Run (Step layout handler) kernel before next) :
    ∃ current, Ready layout handler next current := by
  refine Run.invariant (fun state => ∃ current, Ready layout handler state current)
    ?_ ⟨running, started.ready⟩ ran
  intro state event after kept stepped
  obtain ⟨current, ready⟩ := kept
  exact ready.step stepped

/-- A task that a tick interrupts, wherever it is, goes on after a full round of ticks with its
registers, flags and stack as they were, whatever the other tasks did in between. -/
theorem preempted_task_resumes {n : Nat} (layout : Layout (Fin n)) (handler : U64)
    (boot start final : Kernel) (bootTask running : Fin n) (before between : List Event)
    (started : Started layout handler boot bootTask)
    (ran : Run (Step layout handler) boot before start)
    (current : start.sched.current = running)
    (preempted : Run (Step layout handler) start (.tick :: (between ++ [.tick])) final)
    (round : between.count .tick + 2 = n) :
    final.sched.current = running ∧
      final.machine = { start.machine with memory := final.machine.memory } ∧
      ∀ a, Span (layout.stack running) (layout.stackSize running) a → start.machine.sp.toNat ≤ a →
        final.machine.memory a = start.machine.memory a := by
  obtain ⟨current', ready⟩ := ready_of_run started ran
  obtain rfl : current' = running := Fin.ext (ready.current.symm.trans current)
  cases preempted with
  | cons interrupts rest =>
      cases interrupts with
      | tick free ticked =>
          obtain ⟨_, target, switched⟩ := switched_of_tick ready free ticked
          obtain ⟨middle, others, lastStep⟩ := rest.of_append
          obtain ⟨last, waits⟩ := Round.run ⟨ready.switched switched, switched.isNext, switched.left,
            switched.interrupted⟩ others (by omega)
          cases lastStep with
          | cons returns done =>
              cases done
              cases returns with
              | tick free ticked =>
                  obtain ⟨_, back, resumes⟩ := switched_of_tick waits.ready free ticked
                  obtain rfl : back = current' := by
                    have turn := resumes.isNext
                    rw [waits.turn, Nat.mod_add_mod, Nat.add_assoc, Nat.add_assoc, round,
                      Nat.add_mod_right, Nat.mod_eq_of_lt current'.isLt] at turn
                    exact Fin.ext turn
                  refine ⟨resumes.current, resumes.interrupted_resumes waits.saved waits.interrupted,
                    ?_⟩
                  exact (waits.interrupted.congr (resumes.kept _ waits.saved.suspended)).above

end

/-! ## Two tasks -/

def twoPlaces : Places (Fin 2) where
  stack task := if task = 0 then 0x10000 else 0x20000
  stackSize _ := 0x1000
  rspField task := if task = 0 then 0x8000 else 0x8008

theorem twoPlaces_fits (task : Fin 2) :
    (twoPlaces.stack task).toNat + twoPlaces.stackSize task < 2 ^ 64 := by
  revert task
  decide

theorem twoPlaces_fieldApart (task : Fin 2) (a : Nat) (field : Span (twoPlaces.rspField task) 8 a) :
    ¬ Span (twoPlaces.stack task) (twoPlaces.stackSize task) a := by
  intro inStack
  fin_cases task <;> simp [twoPlaces, Span] at field inStack <;> omega

theorem twoPlaces_apart (task other : Fin 2) (different : task ≠ other) (a : Nat)
    (owned : twoPlaces.Owns task a) : ¬ twoPlaces.Owns other a := by
  intro foreign
  fin_cases task <;> fin_cases other <;>
    simp [twoPlaces, Places.Owns, Span] at different owned foreign <;> omega

def twoTasks : Layout (Fin 2) where
  toPlaces := twoPlaces
  fits := twoPlaces_fits
  fieldApart := twoPlaces_fieldApart
  apart := twoPlaces_apart

/-- The boot thread, and a task that starts at `0x5000`. -/
def twoTasksKernel : Kernel where
  machine := { bootMachine with
    memory := storeWord (newWithBudget (fun _ => 0) 0x20000 0x1000 0x5000).1 0x8008 0x20F40 }
  sched := (booted 0).addTask (Task.newWithBudget 1 0x20F40 10)
  ticks := 0
  locked := false

theorem twoTasksKernel_started : Started twoTasks 0x401000 twoTasksKernel 0 where
  current := rfl
  oneRunning := (booted_oneRunning 0).addTask
    (show TaskSpec.IsWithBudget (.withBudget 1 0x20F40 10) from ⟨_, _, _, rfl⟩)
  length := rfl
  enough := by decide
  onStack := by
    constructor <;> decide
  fresh := by
    intro task other
    obtain rfl : task = 1 := by omega
    refine ⟨fun _ => 0, 0x5000, by decide, by decide, rfl, ?_, ?_⟩
    · exact loadWord_storeWord _ _ _
    · intro a inStack
      simp only [twoTasks, twoPlaces, Span, Fin.isValue, one_ne_zero, if_false] at inStack
      refine storeWord_outside _ (Or.inr ?_)
      exact (show 0x8008 + 8 ≤ 0x20000 by decide).trans inStack.1

theorem exists_tick (kernel : Kernel) {sched : Scheduler} {switch : Switch}
    (rspField : Nat → U64) (handler : U64) (free : kernel.locked = false)
    (prepared : kernel.sched.prepareSwitch = some (sched, some switch)) :
    ∃ next rsp, kernel.tick rspField handler = some next ∧ next.locked = false ∧
      next.sched = sched.saveRsp switch.oldIdx rsp := by
  obtain ⟨next, ticked⟩ : ∃ next, kernel.tick rspField handler = some next := by
    simp only [tick, free, Bool.false_eq_true, if_false, prepared, Option.bind_eq_bind,
      Option.bind_some]
    exact ⟨_, rfl⟩
  obtain ⟨sched', prepared', same, unlocked, resumes⟩ := tick_free free ticked
  obtain ⟨rfl, rfl⟩ := Prod.mk.inj (Option.some.inj (same.symm.trans prepared))
  obtain ⟨resumed, _, _, nextSched⟩ := resumes switch rfl
  exact ⟨next, _, ticked, unlocked, nextSched⟩

/-- The scheduler after the first tick. -/
def twoTasksAway (rsp : U64) : Scheduler where
  tasks := [⟨0, .ready, rsp, { ScbaState.new (BitVec.allOnes 64) with budgetConsumed := 1 }⟩,
    ⟨1, .running, 0x20F40, ScbaState.new 10⟩]
  current := 1
  stats := ⟨0, 1⟩

/-- The same with the second task charged. -/
def twoTasksCharged (rsp : U64) : Scheduler :=
  { twoTasksAway rsp with
    tasks := [⟨0, .ready, rsp, { ScbaState.new (BitVec.allOnes 64) with budgetConsumed := 1 }⟩,
      ⟨1, .ready, 0x20F40, { ScbaState.new 10 with budgetConsumed := 1 }⟩] }

theorem twoTasksAway_prepareSwitch (rsp : U64) :
    (twoTasksAway rsp).prepareSwitch = (twoTasksCharged rsp).switchTo 1 0 false := by
  have charged : (twoTasksAway rsp).chargeCurrent = some (twoTasksCharged rsp, false) := rfl
  have found : RingSearch.searchRing 2 (twoTasksCharged rsp).isReady 0 2 0 = some (some 0) := rfl
  have length : (twoTasksAway rsp).tasks.length = 2 := rfl
  have chargedLength : (twoTasksCharged rsp).tasks.length = 2 := rfl
  have current : (twoTasksAway rsp).current = 1 := rfl
  simp only [prepareSwitch, length, Nat.lt_irrefl, if_false, charged, Option.bind_eq_bind,
    Option.bind_some, switchFrom, current, chargedLength, Nat.reduceAdd, Nat.mod_self, found]

/-- The boot thread is interrupted, the other task holds the scheduler during one tick, and the
next tick is the boot thread's turn again. -/
theorem preempted_task_resumes_two : ∃ final : Kernel,
    Run (Step twoTasks 0x401000) twoTasksKernel
      [.tick, .lock, .busyTick, .unlock, .tick] final ∧
    final.sched.current = 0 ∧
    final.machine = { twoTasksKernel.machine with memory := final.machine.memory } := by
  obtain ⟨away, rsp, ticked, free, awaySched⟩ := exists_tick twoTasksKernel
    (fieldOf twoTasks.toPlaces) 0x401000 rfl
    (show _ = some (twoTasksAway 0, some ⟨0, 0x20F40, false⟩) from rfl)
  obtain ⟨busy, busyTicked, busyIs⟩ : ∃ busy, tick (fieldOf twoTasks.toPlaces) 0x401000
      { away with locked := true } = some busy ∧ busy.locked = true ∧ busy.sched = away.sched := by
    rw [tick, if_pos rfl]
    exact ⟨_, rfl, rfl, rfl⟩
  obtain ⟨sched, switch, switches⟩ : ∃ sched switch,
      (twoTasksCharged rsp).switchTo 1 0 false = some (sched, some switch) := ⟨_, _, rfl⟩
  have prepared := (twoTasksAway_prepareSwitch rsp).trans switches
  rw [show twoTasksAway rsp = busy.sched from (busyIs.2.trans awaySched).symm] at prepared
  obtain ⟨final, _, returned, _⟩ := exists_tick { busy with locked := false }
    (fieldOf twoTasks.toPlaces) 0x401000 rfl prepared
  have ran : Run (Step twoTasks 0x401000) twoTasksKernel
      [.tick, .lock, .busyTick, .unlock, .tick] final :=
    .cons (.tick rfl ticked) (.cons (.lock free) (.cons (.busyTick rfl busyTicked)
      (.cons (.unlock busyIs.1) (.single (.tick rfl returned)))))
  have resumes := preempted_task_resumes twoTasks 0x401000 twoTasksKernel twoTasksKernel final 0 0 []
    [.lock, .busyTick, .unlock] twoTasksKernel_started (.nil _) rfl ran rfl
  exact ⟨final, ran, resumes.1, resumes.2.1⟩

end Kernel

end AxiomKernel.Sched
