import Mathlib
import AxiomKernel.Lib.Bytes
import AxiomKernel.Lib.ByteMemory
import AxiomKernel.Lib.LabelledRun
import AxiomKernel.Smp.Processor
import AxiomKernel.Smp.ApStart
import AxiomKernel.Smp.BringUp

/-!
# Turns of the boot processor

Runs of `Smp.BringUp`, put together from the boot processor's stores and commands, its
polls, and the instructions of a processor up to the end of `ap_main`.
-/

set_option autoImplicit false

namespace AxiomKernel.Smp

open ByteStrings ByteMemory LabelledRuns

namespace System

variable {image : Image} {system : System} {owner core : U8} {rest : List U8}

theorem run_stores (image : Image) (todo : List (Nat × List U8))
    (here : system.bsp = .storing core todo rest) :
    Run (Steps image) system (List.replicate (todo.length + 1) .advance)
      { system with
        memory := todo.foldl write system.memory
        bsp := .sending core (sendSipi core 0x50) rest } := by
  induction todo generalizing system with
  | nil =>
      refine Run.single ?_
      rw [Steps, step, advance, here]
      rfl
  | cons store todo inductionHypothesis =>
      have stepped : Steps image system .advance { system with
          memory := write system.memory store, bsp := .storing core todo rest } := by
        rw [Steps, step, advance, here]
        rfl
      exact Run.cons stepped (inductionHypothesis rfl)

theorem steps_icr (image : Image) {icr : U32 × U32} {todo : List (U32 × U32)}
    (here : system.bsp = .sending core (icr :: todo) rest) :
    Steps image system .advance { system.deliver image icr with
      bsp := .sending core todo rest } := by
  rw [Steps, step, advance, here]

theorem run_sends (image : Image)
    (here : system.bsp = .sending core (sendSipi core 0x50) rest) :
    Run (Steps image) system (List.replicate 5 .advance)
      { system.setCore core (.booting (image.startUp core 0x50)) with
        bsp := .polling core 0 rest } := by
  rw [sendSipi] at here
  have init := steps_icr image here
  rw [deliver_init] at init
  refine Run.cons init (Run.cons (steps_icr image rfl) ?_)
  rw [deliver_deassert]
  refine Run.cons (steps_icr image rfl) ?_
  rw [deliver_startUp (by exact Function.update_self core _ _)]
  refine Run.cons (steps_icr image rfl) ?_
  rw [deliver_startUp_again (by rw [setCore]; simp)]
  refine Run.single ?_
  simp only [Steps, step, advance, setCore, Function.update_idem]

theorem run_storing (image : Image) (todo : List (Nat × List U8))
    (here : system.bsp = .storing core todo rest)
    (block : image.Block core (todo.foldl write system.memory)) :
    ∃ events next, (∀ event ∈ events, event = .advance) ∧ Run (Steps image) system events next ∧
      next.bsp = .polling core 0 rest ∧
      next.cores = Function.update system.cores core (.booting (image.startUp core 0x50)) ∧
      next.isOnline = system.isOnline ∧ next.apsOnline = system.apsOnline ∧
      image.Block core next.memory := by
  refine ⟨_, _, ?_, (run_stores image todo here).append (run_sends image rfl), rfl, rfl, rfl, rfl,
    block⟩
  intro event member
  rcases List.mem_append.mp member with store | icr
  · exact List.eq_of_mem_replicate store
  · exact List.eq_of_mem_replicate icr

/-- A turn up to the first poll. -/
theorem run_turn (image : Image) (here : system.bsp = .next (core :: rest))
    (small : core.toNat < MAX_CORES) :
    ∃ events next, (∀ event ∈ events, event = .advance) ∧ Run (Steps image) system events next ∧
      next.bsp = .polling core 0 rest ∧
      next.cores = Function.update system.cores core (.booting (image.startUp core 0x50)) ∧
      next.isOnline = system.isOnline ∧ next.apsOnline = system.apsOnline ∧
      image.Block core next.memory := by
  have begins : Steps image system .advance { system with
      bsp := .storing core (image.stores core) rest } := by
    rw [Steps, step, advance, here]
    exact if_neg (Nat.not_le_of_lt small)
  have begun : ({ system with bsp := .storing core (image.stores core) rest } : System).bsp =
      .storing core (image.stores core) rest := rfl
  obtain ⟨events, next, advances, ran, after⟩ :=
    run_storing image (image.stores core) begun (stores_block image core system.memory)
  refine ⟨.advance :: events, next, ?_, Run.cons begins ran, after⟩
  intro event member
  exact (List.mem_cons.mp member).elim id (advances event)

/-- A wait for a processor that does not set its flag. -/
theorem run_giveUp (image : Image) {ms : Nat} (here : system.bsp = .polling core ms rest)
    (early : ms ≤ 199) (unset : system.isOnline core.toNat = false) :
    Run (Steps image) system (List.replicate (199 - ms) .poll ++ [.giveUp core])
      { system with bsp := .next rest } := by
  induction later : 199 - ms generalizing system ms with
  | zero =>
      refine Run.single ?_
      rw [Steps, step, giveUp, here]
      exact if_pos ⟨rfl, unset, by omega⟩
  | succ n inductionHypothesis =>
      have polls : Steps image system .poll { system with
          bsp := .polling core (ms + 1) rest } := by
        rw [Steps, step, poll, here]
        dsimp only
        rw [if_neg (by rw [unset]; decide), if_neg (by omega)]
      exact Run.cons polls (inductionHypothesis rfl (by omega) unset (by omega))

/-- A processor that finds one block all the way to `ap_main`. -/
theorem run_fetches (sound : image.Sound) (small : owner.toNat < MAX_CORES) {n : Nat} {ap : Ap}
    (found : system.cores core = .booting ap) (booting : image.BootingAt owner core n ap)
    (block : image.Block owner system.memory) :
    ∃ k after memory, Run (Steps image) system (List.replicate k (.fetch core))
        { system.setCore core (.booting after) with memory := memory } ∧
      image.AtMain after ∧ image.Inside owner after ∧ image.Block owner memory := by
  induction left : 29 - n generalizing system n ap with
  | zero =>
      rcases booting.progress sound small block with ⟨_, atMain, inside⟩ | ⟨early, _⟩
      · refine ⟨0, ap, system.memory, ?_, atMain, inside, block⟩
        rw [setCore, ← found, Function.update_eq_self]
        exact Run.nil system
      · omega
  | succ left inductionHypothesis =>
      rcases booting.progress sound small block with
        ⟨late, _⟩ | ⟨_, notAt, next, steps, nextBooting, nextBlock⟩
      · omega
      · obtain ⟨k, after, memory, ran, atMain, inside, afterBlock⟩ :=
          @inductionHypothesis { system.setCore core (.booting next) with memory := next.memory }
            (n + 1) next (Function.update_self core _ _) nextBooting nextBlock (by omega)
        refine ⟨k + 1, after, memory, ?_, atMain, inside, afterBlock⟩
        have fetched : Steps image system (.fetch core) _ := fetch_eq found notAt steps
        have whole := Run.cons fetched ran
        simp only [setCore, Function.update_idem] at whole
        exact whole

/-- `ap_main` -/
theorem run_main {ap : Ap} (found : system.cores core = .booting ap) (atMain : image.AtMain ap)
    (small : owner.toNat < MAX_CORES) (inside : image.Inside owner ap) :
    Run (Steps image) system [.mark core, .count core]
      { system.setCore core (.halted ap) with
        isOnline := Function.update system.isOnline owner.toNat true
        apsOnline := system.apsOnline + 1 } := by
  have argument : ap.rdi.toNat = owner.toNat := by
    rw [inside.argument]
    exact Image.coreId_toNat owner
  have marks : Steps image system (.mark core) { system.setCore core (.marked ap) with
      isOnline := Function.update system.isOnline owner.toNat true } := by
    rw [Steps, step, mark, found]
    dsimp only
    rw [if_pos atMain, argument, if_pos small]
  refine Run.cons marks (Run.single ?_)
  simp only [Steps, step, count, setCore, Function.update_self, Function.update_idem]

/-- A processor from the first instruction to the end of `ap_main`, under the block of
`owner`. -/
theorem run_core (sound : image.Sound) (small : owner.toNat < MAX_CORES)
    (found : system.cores core = .booting (image.startUp core 0x50))
    (block : image.Block owner system.memory) :
    ∃ events next ap,
      (∀ event ∈ events, event = .fetch core ∨ event = .mark core ∨ event = .count core) ∧
      Run (Steps image) system events next ∧ image.Inside owner ap ∧
      next.cores = Function.update system.cores core (.halted ap) ∧ next.bsp = system.bsp ∧
      next.isOnline = Function.update system.isOnline owner.toNat true ∧
      next.apsOnline = system.apsOnline + 1 ∧ image.Block owner next.memory := by
  obtain ⟨k, ap, memory, fetched, atMain, inside, afterBlock⟩ :=
    run_fetches sound small found (.start core block) block
  have arrived : ({ system.setCore core (.booting ap) with memory := memory } : System).cores core =
      .booting ap := Function.update_self core _ _
  refine ⟨_, _, ap, ?_, fetched.append (run_main arrived atMain small inside), inside, ?_, rfl, rfl,
    rfl, afterBlock⟩
  · intro event member
    rcases List.mem_append.mp member with fetch | inMain
    · exact Or.inl (List.eq_of_mem_replicate fetch)
    · simp only [List.mem_cons, List.not_mem_nil, or_false] at inMain
      exact Or.inr inMain
  · simp only [setCore, Function.update_idem]

theorem start_bsp (memory : Memory) {first : U8} (others : List U8) (notBsp : first ≠ 0) :
    (start memory (0 :: first :: others) 0).bsp =
      .next (first :: others.filter (· ≠ 0)) := by
  rw [start, if_neg (by simp), List.filter_cons_of_neg (by simp),
    List.filter_cons_of_pos (by simpa using notBsp)]

/-- The intended run with one application processor. -/
theorem run_one (sound : image.Sound) (memory : Memory) (small : core.toNat < MAX_CORES)
    (notBsp : core ≠ 0) :
    ∃ events system ap, Run (Steps image) (start memory [0, core] 0) events system ∧
      (∀ event ∈ events, ∀ given, event ≠ .giveUp given) ∧ system.cores core = .halted ap ∧
      system.bsp = .done 2 := by
  obtain ⟨turn, waiting, advances, started, polls, cores, _, count, block⟩ :=
    run_turn image (start_bsp memory [] notBsp) small
  have boots : waiting.cores core = .booting (image.startUp core 0x50) := by
    rw [cores, Function.update_self]
  obtain ⟨events, up, ap, ofCore, ran, _, upCores, upBsp, upFlags, upCount, _⟩ :=
    run_core sound small boots block
  have seen : Steps image up .poll { up with bsp := .next [] } := by
    rw [Steps, step, poll, upBsp, polls]
    exact if_pos (by rw [upFlags, Function.update_self])
  have summed : Steps image { up with bsp := .next [] } .advance
      { up with bsp := .done (1 + up.apsOnline) } := rfl
  refine ⟨_, _, ap, started.append (ran.append (Run.cons seen (Run.single summed))), ?_, ?_, ?_⟩
  · intro event member given
    rcases List.mem_append.mp member with inTurn | later
    · rw [advances event inTurn]
      exact Event.noConfusion
    · rcases List.mem_append.mp later with inCore | last
      · rcases ofCore event inCore with rfl | rfl | rfl <;> exact Event.noConfusion
      · simp only [List.mem_cons, List.not_mem_nil, or_false] at last
        rcases last with rfl | rfl <;> exact Event.noConfusion
  · show up.cores core = .halted ap
    rw [upCores, Function.update_self]
  · show Bsp.done (1 + up.apsOnline) = .done 2
    rw [upCount, count]
    rfl

end System

end AxiomKernel.Smp
