import Mathlib
import AxiomKernel.Lib.LabelledRun
import AxiomKernel.Sched.ContextSwitch

/-!
# Tasks and their contexts

Any number of tasks with stacks of their own, switched by `context_switch(&old.rsp,
new.rsp)`.  Between two switches the running task changes registers and memory as
it likes, except the stacks and the saved `rsp` of the other tasks.  While a task is
suspended its frame stays as it is, whatever the others do; so it goes on where it
left, and a new task starts at its entry.
-/

set_option autoImplicit false

namespace AxiomKernel.Sched

open ByteStrings ByteMemory StackWords LabelledRuns

variable {ι : Type}

/-! ## The system -/

/-- The stack of each task, and the field `rsp` of its `Task`. -/
structure Places (ι : Type) where
  stack : ι → U64
  stackSize : ι → Nat
  rspField : ι → U64

def Places.Owns (places : Places ι) (task : ι) (a : Nat) : Prop :=
  Span (places.stack task) (places.stackSize task) a ∨ Span (places.rspField task) 8 a

structure Layout (ι : Type) extends Places ι where
  fits : ∀ task, (stack task).toNat + stackSize task < 2 ^ 64
  fieldApart : ∀ task a, Span (rspField task) 8 a → ¬ Span (stack task) (stackSize task) a
  apart : ∀ task other, task ≠ other → ∀ a, toPlaces.Owns task a → ¬ toPlaces.Owns other a

structure System (ι : Type) where
  machine : Machine
  current : ι
  /-- The tasks that exist. -/
  live : Set ι
  currentLive : current ∈ live

inductive Event (ι : Type) where
  | work
  | create (task : ι) (entry : U64)
  | switchTo (task : ι) (returnAddress : U64)

def Event.Resumes (event : Event ι) (task : ι) : Prop :=
  ∃ returnAddress, event = .switchTo task returnAddress

inductive Step (layout : Layout ι) : System ι → Event ι → System ι → Prop
  | work {sys : System ι} (machine : Machine)
      (kept : ∀ task ∈ sys.live, task ≠ sys.current → ∀ a, layout.Owns task a →
        machine.memory a = sys.machine.memory a) :
      Step layout sys .work { sys with machine := machine }
  | create {sys : System ι} (machine : Machine) (task : ι) (entry : U64)
      (fresh : task ∉ sys.live) (large : 192 ≤ layout.stackSize task)
      (built : machine.memory = storeWord
        (newWithBudget sys.machine.memory (layout.stack task) (layout.stackSize task) entry).1
        (layout.rspField task)
        (newWithBudget sys.machine.memory (layout.stack task) (layout.stackSize task) entry).2) :
      Step layout sys (.create task entry)
        { machine := machine
          current := sys.current
          live := insert task sys.live
          currentLive := Set.mem_insert_of_mem task sys.currentLive }
  | switchTo {sys : System ι} (task : ι) (returnAddress : U64) (live : task ∈ sys.live)
      (other : task ≠ sys.current)
      (rdi : sys.machine.reg .rdi = layout.rspField sys.current)
      (rsi : sys.machine.reg .rsi = loadWord sys.machine.memory (layout.rspField task))
      (room : (layout.stack sys.current).toNat + 64 ≤ sys.machine.sp.toNat)
      (inside : sys.machine.sp.toNat ≤
        (layout.stack sys.current).toNat + layout.stackSize sys.current) :
      Step layout sys (.switchTo task returnAddress)
        { machine := sys.machine.callContextSwitch returnAddress
          current := task
          live := sys.live
          currentLive := live }

theorem exists_switchTo (layout : Layout ι) (sys : System ι) {task : ι} (returnAddress : U64)
    (live : task ∈ sys.live) (other : task ≠ sys.current)
    (rdi : sys.machine.reg .rdi = layout.rspField sys.current)
    (rsi : sys.machine.reg .rsi = loadWord sys.machine.memory (layout.rspField task))
    (room : (layout.stack sys.current).toNat + 64 ≤ sys.machine.sp.toNat)
    (inside : sys.machine.sp.toNat ≤
      (layout.stack sys.current).toNat + layout.stackSize sys.current) :
    ∃ next, Step layout sys (.switchTo task returnAddress) next ∧ next.current = task ∧
      next.live = sys.live := by
  refine ⟨_, Step.switchTo task returnAddress live other rdi rsi room inside, ?_, ?_⟩
  · rfl
  · rfl

/-! ## Suspended tasks -/

/-- The task is not running, and its stack holds its context. -/
structure Saved (layout : Layout ι) (sys : System ι) (task : ι) (context : Context) : Prop where
  live : task ∈ sys.live
  suspended : task ≠ sys.current
  field : loadWord sys.machine.memory (layout.rspField task) = context.rsp - 64
  room : (layout.stack task).toNat + 64 ≤ context.rsp.toNat
  inside : context.rsp.toNat ≤ (layout.stack task).toNat + layout.stackSize task
  frame : context.FrameAt sys.machine.memory

section

variable {layout : Layout ι} {sys next : System ι} {task : ι} {context : Context}

theorem Saved.congr (saved : Saved layout sys task context) (live : task ∈ next.live)
    (suspended : task ≠ next.current)
    (same : ∀ a, layout.Owns task a → next.machine.memory a = sys.machine.memory a) :
    Saved layout next task context where
  live := live
  suspended := suspended
  field := by
    rw [← saved.field]
    exact loadWord_congr fun a above below => same a (Or.inr ⟨above, below⟩)
  room := saved.room
  inside := saved.inside
  frame := by
    have room := saved.room
    have inside := saved.inside
    refine saved.frame.congr (by omega) ?_
    intro a above below
    exact (same a (Or.inl ⟨by omega, by omega⟩)).symm

/-- A switch of `sys.current` writes only what `sys.current` owns. -/
theorem switch_keeps {returnAddress : U64}
    (rdi : sys.machine.reg .rdi = layout.rspField sys.current)
    (room : (layout.stack sys.current).toNat + 64 ≤ sys.machine.sp.toNat)
    (inside : sys.machine.sp.toNat ≤
      (layout.stack sys.current).toNat + layout.stackSize sys.current)
    (suspended : task ≠ sys.current) {a : Nat} (owned : layout.Owns task a) :
    sys.machine.savedMemory returnAddress a = sys.machine.memory a := by
  have foreign := layout.apart task sys.current suspended a owned
  rw [Places.Owns, not_or, Span, Span] at foreign
  refine Machine.savedMemory_outside (by omega) (by omega) ?_
  rw [rdi]
  omega

theorem create_keeps {entry : U64} {other : ι} (large : 192 ≤ layout.stackSize task)
    (different : other ≠ task) {a : Nat} (owned : layout.Owns other a) :
    storeWord
        (newWithBudget sys.machine.memory (layout.stack task) (layout.stackSize task) entry).1
        (layout.rspField task)
        (newWithBudget sys.machine.memory (layout.stack task) (layout.stackSize task) entry).2 a =
      sys.machine.memory a := by
  have foreign := layout.apart other task different a owned
  rw [Places.Owns, not_or, Span, Span] at foreign
  rw [storeWord_outside _ (by omega),
    newWithBudget_outside _ entry large (layout.fits task) (by omega)]

/-- A suspended task stays as it is in every step that does not resume it. -/
theorem Saved.step {event : Event ι} (saved : Saved layout sys task context)
    (stepped : Step layout sys event next) (notResumed : ¬ event.Resumes task) :
    Saved layout next task context := by
  cases stepped with
  | work machine kept =>
      exact saved.congr saved.live saved.suspended (kept task saved.live saved.suspended)
  | create machine created entry fresh large built =>
      have different : task ≠ created := fun same => fresh (same ▸ saved.live)
      refine saved.congr (Set.mem_insert_of_mem created saved.live) saved.suspended ?_
      intro a owned
      simp only [built]
      exact create_keeps large different owned
  | switchTo resumed returnAddress live other rdi rsi room inside =>
      have different : task ≠ resumed := fun same => notResumed ⟨returnAddress, by rw [same]⟩
      refine saved.congr saved.live different ?_
      intro a owned
      rw [Machine.callContextSwitch_memory]
      exact switch_keeps rdi room inside saved.suspended owned

theorem Saved.run {events : List (Event ι)} (saved : Saved layout sys task context)
    (ran : Run (Step layout) sys events next) (notResumed : ∀ event ∈ events, ¬ event.Resumes task) :
    Saved layout next task context := by
  induction ran with
  | nil sys => exact saved
  | cons stepped _ inductionHypothesis =>
      refine inductionHypothesis (saved.step stepped (notResumed _ List.mem_cons_self)) ?_
      intro event mem
      exact notResumed event (List.mem_cons_of_mem _ mem)

/-- Switching away saves the context, with the return address as the place to go on. -/
theorem saved_of_switchTo {returnAddress : U64}
    (stepped : Step layout sys (.switchTo task returnAddress) next) :
    Saved layout next sys.current { sys.machine.context with rip := returnAddress } := by
  cases stepped with
  | switchTo _ _ live other rdi rsi room inside =>
      have fieldApart := layout.fieldApart sys.current
      refine ⟨sys.currentLive, other.symm, ?_, room, inside, ?_⟩
      · rw [Machine.callContextSwitch_memory, ← rdi]
        exact Machine.loadWord_savedMemory sys.machine returnAddress
      · rw [Machine.callContextSwitch_memory]
        refine Machine.frameAt_savedMemory (by omega) ?_
        rw [rdi]
        -- a field of eight bytes outside the stack lies below or above the frame
        by_contra overlaps
        have first := fieldApart (layout.rspField sys.current).toNat
        have last := fieldApart ((layout.rspField sys.current).toNat + 7)
        simp only [Span] at first last
        omega

theorem saved_of_create {entry : U64} (stepped : Step layout sys (.create task entry) next) :
    Saved layout next task
      (Context.initial (layout.stack task + BitVec.ofNat 64 (layout.stackSize task) - 128) entry) := by
  cases stepped with
  | create machine _ _ fresh large built =>
      have fits := layout.fits task
      obtain ⟨ctxPtr, frame⟩ :=
        frameAt_newWithBudget sys.machine.memory entry large fits
      have rsp : (newWithBudget sys.machine.memory (layout.stack task) (layout.stackSize task)
          entry).2 + 64 = layout.stack task + BitVec.ofNat 64 (layout.stackSize task) - 128 := by
        simp only [newWithBudget]
        rw [sub_right_comm, sub_add_cancel]
      have rspToNat : (layout.stack task + BitVec.ofNat 64 (layout.stackSize task) - 128).toNat =
          (layout.stack task).toNat + layout.stackSize task - 128 :=
        top_sub_toNat fits ((show 128 ≤ 192 by decide).trans large)
      rw [rsp] at frame
      refine ⟨Set.mem_insert task _, ?_, ?_, ?_, ?_, ?_⟩
      · intro same
        exact fresh (same ▸ sys.currentLive)
      · simp only [built]
        rw [loadWord_storeWord, ← rsp]
        exact (BitVec.add_sub_cancel _ _).symm
      · simp only [Context.initial]
        omega
      · simp only [Context.initial]
        omega
      · simp only [built]
        refine frame.congr ?_ ?_
        · simp only [Context.initial]
          omega
        · intro a above below
          simp only [Context.initial] at above below
          refine (storeWord_outside _ ?_).symm
          by_contra overlaps
          exact layout.fieldApart task a ⟨by omega, by omega⟩ ⟨by omega, by omega⟩

/-- A switch to a suspended task gives it its context back. -/
theorem Saved.resume {returnAddress : U64} (saved : Saved layout sys task context)
    (stepped : Step layout sys (.switchTo task returnAddress) next) :
    next.machine.context = context := by
  cases stepped with
  | switchTo _ _ live other rdi rsi room inside =>
      have taskRoom := saved.room
      have taskInside := saved.inside
      simp only [Machine.callContextSwitch_eq]
      refine Machine.restore_context (saved.frame.congr (by omega) ?_) (rsi.trans saved.field)
      intro a above below
      exact (switch_keeps rdi room inside other (Or.inl ⟨by omega, by omega⟩)).symm

end

/-! ## Resumed and first started -/

/-- A task that is switched to again finds the registers it had when it called
`context_switch`, at its own return address; a task switched to for the first time starts at its
entry with its registers zero, interrupts enabled and the stack pointer in its own stack. -/
theorem contexts_preserved (layout : Layout ι) :
    (∀ (start away later resumed : System ι) (next : ι) (returnAddress again : U64)
      (events : List (Event ι)),
      Step layout start (.switchTo next returnAddress) away → Run (Step layout) away events later →
      (∀ event ∈ events, ¬ event.Resumes start.current) →
      Step layout later (.switchTo start.current again) resumed →
        resumed.machine.context = { start.machine.context with rip := returnAddress }) ∧
    (∀ (start built later started : System ι) (task : ι) (entry again : U64)
      (events : List (Event ι)),
      Step layout start (.create task entry) built → Run (Step layout) built events later →
      (∀ event ∈ events, ¬ event.Resumes task) →
      Step layout later (.switchTo task again) started →
        started.machine.context = Context.initial
          (layout.stack task + BitVec.ofNat 64 (layout.stackSize task) - 128) entry ∧
        started.machine.rflags.interruptsEnabled = true ∧
        Span (layout.stack task) (layout.stackSize task) started.machine.sp.toNat) := by
  constructor
  · intro start away later resumed next returnAddress again events departs ran kept returns
    exact ((saved_of_switchTo departs).run ran kept).resume returns
  · intro start built later started task entry again events creates ran kept starts
    have saved := (saved_of_create creates).run ran kept
    have resumed := saved.resume starts
    refine ⟨resumed, ?_, ?_⟩
    · have flags : started.machine.rflags = RFlags.ofImage 0x200 := congrArg Context.rflags resumed
      rw [flags]
      decide
    · have rsp : started.machine.sp =
          layout.stack task + BitVec.ofNat 64 (layout.stackSize task) - 128 :=
        congrArg Context.rsp resumed
      have room := saved.room
      simp only [Context.initial] at room
      have large : 192 ≤ layout.stackSize task := by
        cases creates
        assumption
      have rspToNat : (layout.stack task + BitVec.ofNat 64 (layout.stackSize task) - 128).toNat =
          (layout.stack task).toNat + layout.stackSize task - 128 :=
        top_sub_toNat (layout.fits task) ((show 128 ≤ 192 by decide).trans large)
      rw [← rsp] at rspToNat room
      exact ⟨by omega, by omega⟩

/-- A boot task with a page of stack and a task with the smallest stack there is. -/
def twoStacks : Layout Bool where
  stack task := if task then 0x20000 else 0x10000
  stackSize task := if task then 192 else 0x1000
  rspField task := if task then 0x8008 else 0x8000
  fits := by decide
  fieldApart := by
    intro task a field inStack
    cases task <;> simp [Span] at field inStack <;> omega
  apart := by
    intro task other different a owned foreign
    cases task <;> cases other <;> simp [Places.Owns, Span] at different owned foreign <;> omega

/-- Setting the arguments of `context_switch`. -/
def Machine.prepare (machine : Machine) (old new : U64) : Machine :=
  { machine with
    reg := Function.update (Function.update machine.reg .rdi old) .rsi
      (loadWord machine.memory new) }

def bootMachine : Machine where
  sp := 0x10800
  memory := fun _ => 0
  reg := fun _ => 7
  rflags := RFlags.ofImage 0
  rip := 0x1000

theorem contexts_preserved_two_tasks :
    ∃ start away later resumed : System Bool,
      Step twoStacks start (.switchTo true 0x401000) away ∧
      Run (Step twoStacks) away [.work] later ∧
      Step twoStacks later (.switchTo false 0x5040) resumed ∧
      away.machine.rip = 0x5000 ∧
      resumed.machine.context = { start.machine.context with rip := 0x401000 } := by
  obtain ⟨start, created, current, live, rdi, rsi, sp⟩ : ∃ start,
      Step twoStacks ⟨bootMachine, false, {false}, rfl⟩ (.create true 0x5000) start ∧
      start.current = false ∧ start.live = insert true {false} ∧
      start.machine.reg .rdi = 0x8000 ∧
      start.machine.reg .rsi = loadWord start.machine.memory 0x8008 ∧
      start.machine.sp = 0x10800 :=
    ⟨_, Step.create (Machine.prepare { bootMachine with memory := _ } 0x8000 0x8008) true 0x5000
      (by simp) (by decide) rfl, rfl, rfl, rfl, rfl, rfl⟩
  obtain ⟨away, departs, awayCurrent, awayLive⟩ : ∃ away,
      Step twoStacks start (.switchTo true 0x401000) away ∧ away.current = true ∧
      away.live = start.live :=
    exists_switchTo twoStacks start 0x401000 (by simp [live]) (by simp [current])
      (by rw [current]; exact rdi) rsi (by rw [current, sp]; decide) (by rw [current, sp]; decide)
  have started := (contexts_preserved twoStacks).2 _ _ _ _ true 0x5000 0x401000 [] created
    (Run.nil _) (by simp) departs
  have awaySp : away.machine.sp = 0x20040 := congrArg Context.rsp started.1
  obtain ⟨machine, task, tasks, taskLive⟩ := away
  obtain rfl : task = true := awayCurrent
  have works : Step twoStacks ⟨machine, true, tasks, taskLive⟩ .work
      ⟨machine.prepare 0x8008 0x8000, true, tasks, taskLive⟩ :=
    Step.work (machine.prepare 0x8008 0x8000) fun _ _ _ _ _ => rfl
  have room : 0x20000 + 64 ≤ machine.sp.toNat ∧ machine.sp.toNat ≤ 0x20000 + 192 := by
    rw [show machine.sp = 0x20040 from awaySp]
    decide
  have bootLive : start.current ∈ tasks := by
    rw [show tasks = start.live from awayLive]
    exact start.currentLive
  obtain ⟨resumed, returns, _⟩ := exists_switchTo twoStacks
    ⟨machine.prepare 0x8008 0x8000, true, tasks, taskLive⟩ 0x5040
    bootLive (by simp [current]) rfl (by rw [current]; rfl) room.1 room.2
  have preserved := (contexts_preserved twoStacks).1 _ _ _ _ true 0x401000 0x5040 [.work] departs
    (Run.cons works (Run.nil _)) (by simp [Event.Resumes]) returns
  rw [current] at returns
  exact ⟨start, _, _, resumed, departs, Run.cons works (Run.nil _), returns,
    congrArg Context.rip started.1, preserved⟩

end AxiomKernel.Sched
