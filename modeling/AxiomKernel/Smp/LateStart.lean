import Mathlib
import AxiomKernel.Lib.Bytes
import AxiomKernel.Lib.ByteMemory
import AxiomKernel.Lib.LabelledRun
import AxiomKernel.Smp.Processor
import AxiomKernel.Smp.ApStart
import AxiomKernel.Smp.BringUp
import AxiomKernel.Smp.Turns
import AxiomKernel.Smp.OwnStacks

/-!
# A processor that is late

When the wait for a processor is over without its flag, the boot processor turns to the next one
and writes the control block anew.  Nothing stops the first processor.  This file follows it
through the wait for the next one: it finds the next one's block.
-/

set_option autoImplicit false

namespace AxiomKernel.Smp

open ByteStrings ByteMemory LabelledRuns

namespace System

/-- A step during the wait for `polled`: the boot processor stores nothing, and in the trampoline
go on `polled` itself and the late processor. -/
def Event.WithinWait (late polled : U8) : Event → Prop
  | .advance => False
  | .fetch core => core = late ∨ core = polled
  | _ => True

/-- Whose control block a processor finds during that wait. -/
def blockOwner (late polled core : U8) : U8 := if core = late then polled else core

theorem blockOwner_late (late polled : U8) : blockOwner late polled late = polled := if_pos rfl

theorem blockOwner_other {late core : U8} (other : core ≠ late) (polled : U8) :
    blockOwner late polled core = core := if_neg other

theorem blockOwner_ne {late polled : U8} (different : late ≠ polled) (core : U8) :
    blockOwner late polled core ≠ late := by
  by_cases isLate : core = late
  · rw [isLate, blockOwner_late]
    exact different.symm
  · rw [blockOwner_other isLate]
    exact isLate

/-- The late processor has found the block of `polled` so far, the others their own. -/
structure Overtaken (image : Image) (late polled : U8) (system : System) : Prop where
  block : image.Block polled system.memory
  small : ∀ core, system.cores core ≠ .off → (blockOwner late polled core).toNat < MAX_CORES
  booting : ∀ core ap, system.cores core = .booting ap →
    ∃ n, image.BootingAt (blockOwner late polled core) core n ap
  marked : ∀ core ap, system.cores core = .marked ap →
    image.Inside (blockOwner late polled core) ap
  halted : ∀ core ap, system.cores core = .halted ap →
    image.Inside (blockOwner late polled core) ap
  unset : system.isOnline late.toNat = false
  counted : system.apsOnline = BitVec.ofNat 32 (haltedCores system.cores).card

namespace Overtaken

variable {image : Image} {late polled : U8} {system next : System}

/-- A step of one processor. -/
theorem set_core (overtaken : Overtaken image late polled system) {core : U8} {value : Core}
    (nextCores : next.cores = Function.update system.cores core value)
    (on : system.cores core ≠ .off)
    (boots : ∀ ap, value = .booting ap →
      ∃ n, image.BootingAt (blockOwner late polled core) core n ap)
    (inMain : ∀ ap, value = .marked ap ∨ value = .halted ap →
      image.Inside (blockOwner late polled core) ap)
    (block : image.Block polled next.memory) (unset : next.isOnline late.toNat = false)
    (counted : next.apsOnline = BitVec.ofNat 32 (haltedCores next.cores).card) :
    Overtaken image late polled next := by
  refine ⟨block, ?_, ?_, ?_, ?_, unset, counted⟩
  · intro other otherOn
    by_cases own : other = core
    · rw [own]
      exact overtaken.small core on
    · rw [nextCores, Function.update_of_ne own] at otherOn
      exact overtaken.small other otherOn
  · rw [nextCores]
    exact CoresInv.update_forall overtaken.booting boots
  · rw [nextCores]
    exact CoresInv.update_forall overtaken.marked fun ap same => inMain ap (Or.inl same)
  · rw [nextCores]
    exact CoresInv.update_forall overtaken.halted fun ap same => inMain ap (Or.inr same)

theorem fetch (sound : image.Sound) (overtaken : Overtaken image late polled system) {core : U8}
    (goesOn : core = late ∨ core = polled) (stepped : system.fetch image core = some next) :
    Overtaken image late polled next := by
  have owner : blockOwner late polled core = polled := by
    rcases goesOn with rfl | rfl
    · exact blockOwner_late core polled
    · by_cases isLate : core = late
      · rw [isLate, blockOwner_late]
      · exact blockOwner_other isLate core
  obtain ⟨ap, after, booting, notAt, steps, rfl⟩ := fetch_cases stepped
  have on := Core.ne_off_of_booting booting
  have small := overtaken.small core on
  obtain ⟨n, boots⟩ := overtaken.booting core ap booting
  rw [owner] at small boots
  obtain ⟨afterBoots, afterBlock⟩ := boots.next sound small overtaken.block notAt steps
  refine overtaken.set_core rfl on ?_ ?_ afterBlock overtaken.unset ?_
  · intro same equal
    cases equal
    rw [owner]
    exact ⟨n + 1, afterBoots⟩
  · intro same impossible
    rcases impossible with marked | halted
    · cases marked
    · cases halted
  · refine overtaken.counted.trans ?_
    exact congrArg _ (congrArg _
      (CoresInv.haltedCores_update_same (by rw [booting]; rfl)).symm)

theorem mark (sound : image.Sound) (different : late ≠ polled)
    (overtaken : Overtaken image late polled system) {core : U8}
    (stepped : system.mark image core = some next) : Overtaken image late polled next := by
  obtain ⟨ap, booting, atMain, same⟩ := mark_cases stepped
  have on := Core.ne_off_of_booting booting
  have small := overtaken.small core on
  obtain ⟨n, boots⟩ := overtaken.booting core ap booting
  have inside := boots.inside sound small atMain
  rw [inside.argument_toNat, if_pos small] at same
  subst same
  refine overtaken.set_core rfl on ?_ ?_ overtaken.block ?_ ?_
  · intro same impossible
    cases impossible
  · intro same isMarked
    rcases isMarked with marked | halted
    · cases marked
      exact inside
    · cases halted
  · have number : late.toNat ≠ (blockOwner late polled core).toNat := fun same =>
      blockOwner_ne different core (BitVec.eq_of_toNat_eq same).symm
    exact (Function.update_of_ne number _ _).trans overtaken.unset
  · refine overtaken.counted.trans ?_
    exact congrArg _ (congrArg _
      (CoresInv.haltedCores_update_same (by rw [booting]; rfl)).symm)

theorem count (overtaken : Overtaken image late polled system) {core : U8}
    (stepped : system.count core = some next) : Overtaken image late polled next := by
  obtain ⟨ap, marked, rfl⟩ := count_cases stepped
  have on := Core.ne_off_of_isUp (by rw [marked]; rfl : (system.cores core).isUp = true)
  refine overtaken.set_core rfl on ?_ ?_ overtaken.block overtaken.unset ?_
  · intro same impossible
    cases impossible
  · intro same isHalted
    rcases isHalted with impossible | halted
    · cases impossible
    · cases halted
      exact overtaken.marked core _ marked
  · show system.apsOnline + 1 = BitVec.ofNat 32
      (haltedCores (Function.update system.cores core (.halted ap))).card
    rw [CoresInv.haltedCores_update_halted (by rw [marked]; rfl), overtaken.counted]
    exact (BitVec.ofNat_add _ _).symm

/-- The place of the boot processor does not matter. -/
theorem of_bsp (overtaken : Overtaken image late polled system) (bsp : Bsp) :
    Overtaken image late polled { system with bsp := bsp } :=
  ⟨overtaken.block, overtaken.small, overtaken.booting, overtaken.marked, overtaken.halted,
    overtaken.unset, overtaken.counted⟩

theorem poll (overtaken : Overtaken image late polled system)
    (stepped : system.poll = some next) : Overtaken image late polled next := by
  obtain ⟨core, ms, rest, _, ⟨_, rfl⟩ | ⟨_, rfl⟩⟩ := poll_cases stepped
  · exact overtaken.of_bsp _
  · exact overtaken.of_bsp _

theorem giveUp (overtaken : Overtaken image late polled system) {given : U8}
    (stepped : system.giveUp given = some next) : Overtaken image late polled next := by
  obtain ⟨ms, rest, _, _, _, rfl⟩ := giveUp_cases stepped
  exact overtaken.of_bsp _

theorem step (sound : image.Sound) (different : late ≠ polled)
    (overtaken : Overtaken image late polled system) {event : Event}
    (within : event.WithinWait late polled) (stepped : system.step image event = some next) :
    Overtaken image late polled next := by
  cases event with
  | advance => cases within
  | poll => exact overtaken.poll stepped
  | giveUp core => exact overtaken.giveUp stepped
  | fetch core => exact overtaken.fetch sound within stepped
  | mark core => exact overtaken.mark sound different stepped
  | count core => exact overtaken.count stepped

theorem run (sound : image.Sound) (different : late ≠ polled)
    (overtaken : Overtaken image late polled system) {events : List Event} {final : System}
    (ran : Run (Steps image) system events final)
    (within : ∀ event ∈ events, event.WithinWait late polled) :
    Overtaken image late polled final := by
  refine Run.history
    (fun events system => (∀ event ∈ events, event.WithinWait late polled) →
      Overtaken image late polled system) ?_ (fun _ => overtaken) ran within
  intro events system event next holds stepped within
  rw [List.forall_mem_append] at within
  exact (holds within.1).step sound different (within.2 event List.mem_cons_self) stepped

end Overtaken

/-! ## The wait for the next processor -/

namespace Inv

variable {image : Image} {ids : List U8} {events : List Event} {system : System} {late polled : U8}
  {ms : Nat} {rest : List U8}

theorem givenUp_of_booting (inv : Inv image ids events system)
    (polls : system.bsp = .polling polled ms rest) {ap : Ap}
    (booting : system.cores late = .booting ap) (different : late ≠ polled) :
    .giveUp late ∈ events := by
  by_contra notGivenUp
  obtain ⟨current, notLeft⟩ := inv.current_of_booting booting notGivenUp
  rw [polls] at current notLeft
  exact different ((List.mem_cons.mp current).resolve_right notLeft)

/-- A state that `late` is not in. -/
theorem inside_blockOwner {cores : U8 → Core} {state : Ap → Core} {ap : Ap}
    (found : cores late = .booting ap) (notState : ∀ ap', state ap' ≠ .booting ap)
    (own : ∀ core ap', cores core = state ap' → image.Inside core ap') :
    ∀ core ap', cores core = state ap' → image.Inside (blockOwner late polled core) ap' := by
  intro core ap' there
  have other : core ≠ late := by
    rintro rfl
    exact notState ap' (there.symm.trans found)
  rw [blockOwner_other other]
  exact own core ap' there

/-- A processor that has not executed an instruction yet will find the block of `polled`. -/
theorem overtaken (inv : Inv image ids events system) (noFirst : 0 ∉ ids)
    (polls : system.bsp = .polling polled ms rest)
    (started : system.cores late = .booting (image.startUp late 0x50)) :
    Overtaken image late polled system := by
  obtain ⟨small, block⟩ := inv.polling_block polls
  refine ⟨block, ?_, ?_, inside_blockOwner started (fun _ => Core.noConfusion) inv.cores.marked,
    inside_blockOwner started (fun _ => Core.noConfusion) inv.cores.halted, ?_, inv.cores.counted⟩
  · intro core on
    by_cases isLate : core = late
    · rw [isLate, blockOwner_late]
      exact small
    · rw [blockOwner_other isLate]
      exact (inv.touched core on).2.1
  · intro core ap booting
    by_cases isLate : core = late
    · rw [isLate, started] at booting
      cases booting
      rw [isLate, blockOwner_late]
      exact ⟨0, .start late block⟩
    · rw [blockOwner_other isLate]
      exact inv.cores.booting core ap booting
  · have on := Core.ne_off_of_booting started
    have notFirst : late ≠ 0 := fun same => noFirst (same ▸ (inv.touched late on).1)
    by_contra online
    have up := inv.up_of_online notFirst (Bool.not_eq_false _ ▸ online)
    rw [started] at up
    cases up

end Inv

end System

end AxiomKernel.Smp
