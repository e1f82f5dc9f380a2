import Mathlib
import AxiomKernel.Lib.Bytes
import AxiomKernel.Lib.ByteMemory
import AxiomKernel.Lib.LabelledRun
import AxiomKernel.Smp.Processor
import AxiomKernel.Smp.ApStart
import AxiomKernel.Smp.BringUp
import AxiomKernel.Smp.Turns

/-!
# Every processor on its own stack

What every order of the steps of `Smp.BringUp` keeps.  A processor reads the control block
while the boot processor waits for its flag, and the block is rewritten for the next one
when the wait is over; so the processors stay apart as long as none goes on after it has
been given up.
-/

set_option autoImplicit false

namespace AxiomKernel.Smp

open ByteStrings ByteMemory LabelledRuns

/-! ## What the processors keep -/

namespace Core

def isHalted : Core → Bool
  | .halted _ => true
  | _ => false

/-- The processor has set its flag. -/
def isUp : Core → Bool
  | .marked _ | .halted _ => true
  | _ => false

theorem ne_off_of_booting {core : Core} {ap : Ap} (booting : core = .booting ap) :
    core ≠ .off := by
  rw [booting]
  exact Core.noConfusion

theorem ne_off_of_isUp {core : Core} (up : core.isUp = true) : core ≠ .off := by
  intro off
  rw [off] at up
  cases up

end Core

def haltedCores (cores : U8 → Core) : Finset U8 :=
  Finset.univ.filter fun core => (cores core).isHalted

theorem haltedCores_toNat (cores : U8 → Core) :
    (BitVec.ofNat 32 (haltedCores cores).card).toNat = (haltedCores cores).card := by
  have bound := Finset.card_le_card_of_injOn (s := haltedCores cores)
    (t := Finset.range 256) BitVec.toNat (fun core _ => Finset.mem_coe.mpr
      (Finset.mem_range.mpr core.isLt)) fun _ _ _ _ same => BitVec.eq_of_toNat_eq same
  rw [Finset.card_range] at bound
  rw [BitVec.toNat_ofNat]
  omega

/-- The processors with their flags and their number. -/
structure CoresInv (image : Image) (cores : U8 → Core) (isOnline : Nat → Bool) (apsOnline : U32) :
    Prop where
  booting : ∀ core ap, cores core = .booting ap → image.Booting core ap
  marked : ∀ core ap, cores core = .marked ap → image.Inside core ap
  halted : ∀ core ap, cores core = .halted ap → image.Inside core ap
  flags : ∀ number, isOnline number = true ↔
    number = 0 ∨ ∃ core : U8, core.toNat = number ∧ (cores core).isUp = true
  counted : apsOnline = BitVec.ofNat 32 (haltedCores cores).card

namespace CoresInv

variable {image : Image} {cores : U8 → Core} {isOnline : Nat → Bool} {apsOnline : U32}
  {core : U8} {ap : Ap}

theorem mem_haltedCores : core ∈ haltedCores cores ↔ (cores core).isHalted = true := by
  rw [haltedCores, Finset.mem_filter]
  exact and_iff_right (Finset.mem_univ core)

theorem haltedCores_update_same {value : Core} (same : value.isHalted = (cores core).isHalted) :
    haltedCores (Function.update cores core value) = haltedCores cores := by
  ext other
  rw [mem_haltedCores, mem_haltedCores]
  by_cases here : other = core
  · rw [here, Function.update_self, same]
  · rw [Function.update_of_ne here]

theorem haltedCores_update_halted (before : (cores core).isHalted = false) :
    (haltedCores (Function.update cores core (.halted ap))).card = (haltedCores cores).card + 1 := by
  have added : haltedCores (Function.update cores core (.halted ap)) =
      insert core (haltedCores cores) := by
    ext other
    rw [Finset.mem_insert, mem_haltedCores, mem_haltedCores]
    by_cases here : other = core
    · rw [here, Function.update_self]
      exact iff_of_true rfl (Or.inl rfl)
    · rw [Function.update_of_ne here, or_iff_right here]
  rw [added, Finset.card_insert_of_notMem]
  rw [mem_haltedCores, before]
  decide

theorem isUp_update_same {value : Core} (same : value.isUp = (cores core).isUp) (other : U8) :
    (Function.update cores core value other).isUp = (cores other).isUp := by
  by_cases here : other = core
  · rw [here, Function.update_self, same]
  · rw [Function.update_of_ne here]

/-- What is said of one processor in one state holds after a step of `core` if it holds of its
new state. -/
theorem update_forall {value : Core} {state : Ap → Core} {holds : U8 → Ap → Prop}
    (old : ∀ other ap, cores other = state ap → holds other ap)
    (new : ∀ ap, value = state ap → holds core ap) :
    ∀ other ap, Function.update cores core value other = state ap → holds other ap := by
  intro other ap found
  by_cases here : other = core
  · rw [here, Function.update_self] at found
    rw [here]
    exact new ap found
  · rw [Function.update_of_ne here] at found
    exact old other ap found

/-- A step of a processor that has not set its flag, and does not set it. -/
theorem set_quiet (inv : CoresInv image cores isOnline apsOnline) {value : Core}
    (before : (cores core).isUp = false) (after : value.isUp = false)
    (boots : ∀ ap, value = .booting ap → image.Booting core ap) :
    CoresInv image (Function.update cores core value) isOnline apsOnline := by
  have notHalted : ∀ state : Core, state.isUp = false → state.isHalted = false := by
    intro state down
    cases state <;> first | rfl | exact down
  have same : value.isHalted = (cores core).isHalted := by
    rw [notHalted value after, notHalted (cores core) before]
  refine ⟨update_forall inv.booting boots, update_forall inv.marked ?_,
    update_forall inv.halted ?_, ?_, ?_⟩
  · rintro ap rfl
    cases after
  · rintro ap rfl
    cases after
  · intro number
    simp only [isUp_update_same (after.trans before.symm)]
    exact inv.flags number
  · rw [haltedCores_update_same same]
    exact inv.counted

theorem set_marked (inv : CoresInv image cores isOnline apsOnline)
    (before : cores core = .booting ap) (inside : image.Inside core ap) :
    CoresInv image (Function.update cores core (.marked ap))
      (Function.update isOnline core.toNat true) apsOnline := by
  refine ⟨update_forall inv.booting ?_, update_forall inv.marked ?_,
    update_forall inv.halted ?_, ?_, ?_⟩
  · intro ap impossible
    cases impossible
  · intro ap same
    cases same
    exact inside
  · intro ap impossible
    cases impossible
  · intro number
    by_cases own : number = core.toNat
    · rw [own, Function.update_self]
      exact iff_of_true rfl (Or.inr ⟨core, rfl, by rw [Function.update_self]; rfl⟩)
    · rw [Function.update_of_ne own, inv.flags number]
      refine or_congr_right (exists_congr fun other => and_congr_right fun named => ?_)
      have different : other ≠ core := fun same => own (by rw [← named, same])
      rw [Function.update_of_ne different]
  · rw [haltedCores_update_same (by rw [before]; rfl)]
    exact inv.counted

theorem set_halted (inv : CoresInv image cores isOnline apsOnline)
    (before : cores core = .marked ap) :
    CoresInv image (Function.update cores core (.halted ap)) isOnline (apsOnline + 1) := by
  refine ⟨update_forall inv.booting ?_, update_forall inv.marked ?_,
    update_forall inv.halted ?_, ?_, ?_⟩
  · intro ap impossible
    cases impossible
  · intro ap impossible
    cases impossible
  · intro ap same
    cases same
    exact inv.marked core _ before
  · intro number
    have sameUp : (Core.halted ap).isUp = (cores core).isUp := by
      rw [before]
      rfl
    simp only [isUp_update_same sameUp]
    exact inv.flags number
  · rw [haltedCores_update_halted (by rw [before]; rfl), inv.counted]
    exact (BitVec.ofNat_add _ _).symm

end CoresInv

/-! ## What every order of steps keeps -/

namespace Bsp

/-- The processors whose turn is not over. -/
def pending : Bsp → List U8
  | .next rest => rest
  | .storing core _ rest | .sending core _ rest | .polling core _ rest => core :: rest
  | .done _ => []

/-- The processors that no interrupt has been sent to. -/
def untouched : Bsp → List U8
  | .next rest => rest
  | .storing core _ rest => core :: rest
  | .sending _ _ rest | .polling _ _ rest => rest
  | .done _ => []

end Bsp

namespace System

/-- The boot processor's place in its loop, against the memory and the processors. -/
inductive Turn (image : Image) : System → Prop
  | next {system : System} {rest : List U8} (here : system.bsp = .next rest) : Turn image system
  | storing {system : System} {core : U8} {todo : List (Nat × List U8)} {rest : List U8}
      (here : system.bsp = .storing core todo rest) (small : core.toNat < MAX_CORES)
      (stored : List (Nat × List U8)) (before : Memory)
      (split : image.stores core = stored ++ todo)
      (memory : system.memory = stored.foldl write before) : Turn image system
  | sending {system : System} {core : U8} {todo : List (U32 × U32)} {rest : List U8}
      (here : system.bsp = .sending core todo rest) (small : core.toNat < MAX_CORES)
      (block : image.Block core system.memory) (left : todo <:+ sendSipi core 0x50)
      (first : todo = sendSipi core 0x50 → system.cores core = .off) : Turn image system
  | polling {system : System} {core : U8} {ms : Nat} {rest : List U8}
      (here : system.bsp = .polling core ms rest) (small : core.toNat < MAX_CORES)
      (block : image.Block core system.memory) : Turn image system
  | done {system : System} {total : U32} (here : system.bsp = .done total)
      (bounded : total.toNat ≤ 1 + (haltedCores system.cores).card) : Turn image system

structure Inv (image : Image) (ids : List U8) (events : List Event) (system : System) : Prop where
  cores : CoresInv image system.cores system.isOnline system.apsOnline
  suffix : system.bsp.pending <:+ ids
  past : ∀ core ∈ ids, core.toNat < MAX_CORES → core ∉ system.bsp.pending →
    .giveUp core ∈ events ∨ (system.cores core).isUp = true
  touched : ∀ core, system.cores core ≠ .off →
    core ∈ ids ∧ core.toNat < MAX_CORES ∧ core ∉ system.bsp.untouched
  turn : Turn image system

namespace Inv

variable {image : Image} {ids : List U8} {events : List Event} {system next : System}

/-- A step of the boot processor within a turn. -/
theorem same_pending (inv : Inv image ids events system) (event : Event)
    (sameCores : next.cores = system.cores) (sameFlags : next.isOnline = system.isOnline)
    (sameCount : next.apsOnline = system.apsOnline)
    (pending : next.bsp.pending = system.bsp.pending)
    (untouched : ∀ core ∈ next.bsp.untouched, core ∈ system.bsp.untouched)
    (turn : Turn image next) : Inv image ids (events ++ [event]) next := by
  refine ⟨?_, ?_, ?_, ?_, turn⟩
  · rw [sameCores, sameFlags, sameCount]
    exact inv.cores
  · rw [pending]
    exact inv.suffix
  · intro core listed small passed
    rw [pending] at passed
    rw [sameCores]
    exact (inv.past core listed small passed).imp_left (List.mem_append_left _)
  · intro core on
    rw [sameCores] at on
    obtain ⟨listed, small, notLeft⟩ := inv.touched core on
    exact ⟨listed, small, fun left => notLeft (untouched core left)⟩

/-- The boot processor goes on to the next turn. -/
theorem leave (inv : Inv image ids events system) (event : Event) (core : U8) {rest : List U8}
    (current : system.bsp.pending = core :: rest)
    (finished : core.toNat < MAX_CORES →
      .giveUp core ∈ events ++ [event] ∨ (system.cores core).isUp = true)
    (untouched : ∀ other ∈ rest, other ∈ system.bsp.untouched) :
    Inv image ids (events ++ [event]) { system with bsp := .next rest } := by
  refine ⟨inv.cores, ?_, ?_, ?_, .next rfl⟩
  · have suffix := inv.suffix
    rw [current] at suffix
    exact (List.suffix_cons core rest).trans suffix
  · intro other listed small passed
    by_cases own : other = core
    · rw [own] at small ⊢
      exact finished small
    · have notPending : other ∉ system.bsp.pending := by
        rw [current]
        exact List.not_mem_cons_of_ne_of_not_mem own passed
      exact (inv.past other listed small notPending).imp_left (List.mem_append_left _)
  · intro other on
    obtain ⟨listed, small, notLeft⟩ := inv.touched other on
    exact ⟨listed, small, fun left => notLeft (untouched other left)⟩

/-- A step of the processor whose turn it is. -/
theorem set_current (inv : Inv image ids events system) (event : Event) {core : U8} {value : Core}
    (nextCores : next.cores = Function.update system.cores core value)
    (sameFlags : next.isOnline = system.isOnline) (sameCount : next.apsOnline = system.apsOnline)
    (before : (system.cores core).isUp = false) (after : value.isUp = false)
    (boots : ∀ ap, value = .booting ap → image.Booting core ap)
    (small : core.toNat < MAX_CORES) (current : core ∈ system.bsp.pending)
    (pending : next.bsp.pending = system.bsp.pending)
    (untouched : ∀ other ∈ next.bsp.untouched, other ≠ core ∧ other ∈ system.bsp.untouched)
    (turn : Turn image next) : Inv image ids (events ++ [event]) next := by
  refine ⟨?_, ?_, ?_, ?_, turn⟩
  · rw [nextCores, sameFlags, sameCount]
    exact inv.cores.set_quiet before after boots
  · rw [pending]
    exact inv.suffix
  · intro other listed otherSmall passed
    rw [pending] at passed
    have different : other ≠ core := fun same => passed (same ▸ current)
    rw [nextCores, Function.update_of_ne different]
    exact (inv.past other listed otherSmall passed).imp_left (List.mem_append_left _)
  · intro other on
    by_cases own : other = core
    · rw [own]
      exact ⟨inv.suffix.subset current, small, fun left => (untouched core left).1 rfl⟩
    · rw [nextCores, Function.update_of_ne own] at on
      obtain ⟨listed, otherSmall, notLeft⟩ := inv.touched other on
      exact ⟨listed, otherSmall, fun left => notLeft (untouched other left).2⟩

theorem off_of_untouched (inv : Inv image ids events system) {core : U8}
    (untouched : core ∈ system.bsp.untouched) : system.cores core = .off := by
  by_contra on
  exact (inv.touched core on).2.2 untouched

theorem advance_next (inv : Inv image ids events system) {rest : List U8}
    (here : system.bsp = .next rest) (stepped : system.advance image = some next) :
    Inv image ids (events ++ [.advance]) next := by
  rw [System.advance, here] at stepped
  cases rest with
  | nil =>
      obtain rfl := Option.some.inj stepped
      refine inv.same_pending .advance rfl rfl rfl (by rw [here]; rfl) ?_ (.done rfl ?_)
      · intro core impossible
        cases impossible
      · rw [inv.cores.counted, BitVec.toNat_add, BitVec.toNat_ofNat]
        refine (Nat.mod_le _ _).trans (Nat.add_le_add_left (Nat.mod_le _ _) 1)
  | cons core rest =>
      dsimp only at stepped
      split at stepped
      case isTrue large =>
        obtain rfl := Option.some.inj stepped
        refine inv.leave .advance core (by rw [here]; rfl) ?_ ?_
        · intro small
          omega
        · intro other member
          rw [here]
          exact List.mem_cons_of_mem core member
      case isFalse notLarge =>
        obtain rfl := Option.some.inj stepped
        refine inv.same_pending .advance rfl rfl rfl (by rw [here]; rfl) ?_
          (.storing rfl (by omega) [] system.memory rfl rfl)
        intro other member
        rw [here]
        exact member

theorem advance_storing (inv : Inv image ids events system) {core : U8}
    {todo : List (Nat × List U8)} {rest : List U8} (here : system.bsp = .storing core todo rest)
    (small : core.toNat < MAX_CORES) {stored : List (Nat × List U8)} {before : Memory}
    (split : image.stores core = stored ++ todo)
    (memory : system.memory = stored.foldl write before)
    (stepped : system.advance image = some next) :
    Inv image ids (events ++ [.advance]) next := by
  rw [System.advance, here] at stepped
  cases todo with
  | nil =>
      obtain rfl := Option.some.inj stepped
      have block : image.Block core system.memory := by
        rw [memory, ← List.append_nil stored, ← split]
        exact stores_block image core before
      have off : system.cores core = .off :=
        inv.off_of_untouched (by rw [here]; exact List.mem_cons_self)
      refine inv.same_pending .advance rfl rfl rfl (by rw [here]; rfl) ?_
        (.sending rfl small block List.suffix_rfl fun _ => off)
      intro other member
      rw [here]
      exact List.mem_cons_of_mem core member
  | cons store todo =>
      obtain ⟨address, bytes⟩ := store
      obtain rfl := Option.some.inj stepped
      refine inv.same_pending .advance rfl rfl rfl (by rw [here]; rfl) ?_
        (.storing rfl small (stored ++ [(address, bytes)]) before ?_ ?_)
      · intro other member
        rw [here]
        exact member
      · rw [split, List.append_assoc]
        rfl
      · rw [List.foldl_append, ← memory]
        rfl

/-- The first command of a turn is INIT, the others are not. -/
theorem sendSipi_cases {core : U8} {icr : U32 × U32} {todo : List (U32 × U32)}
    (left : icr :: todo <:+ sendSipi core 0x50) :
    (icr :: todo = sendSipi core 0x50 ∧ icr = (core.setWidth 32 <<< 24, 0x0000C500)) ∨
      todo ≠ sendSipi core 0x50 ∧
        (icr = (core.setWidth 32 <<< 24, 0x00008500) ∨
          icr = (core.setWidth 32 <<< 24, 0x00004600 ||| (0x50 : U8).setWidth 32)) := by
  have short : todo ≠ sendSipi core 0x50 := by
    intro same
    have bound := left.length_le
    rw [same, List.length_cons] at bound
    omega
  rw [sendSipi] at left
  rcases List.suffix_cons_iff.mp left with whole | left
  · exact Or.inl ⟨whole, (List.cons.inj whole).1⟩
  · refine Or.inr ⟨short, ?_⟩
    have member := left.subset List.mem_cons_self
    simp only [List.mem_cons, List.not_mem_nil, or_false] at member
    exact member.imp_right fun startUp => startUp.elim id id

theorem advance_sending (nodup : ids.Nodup) (inv : Inv image ids events system) {core : U8}
    {todo : List (U32 × U32)} {rest : List U8} (here : system.bsp = .sending core todo rest)
    (small : core.toNat < MAX_CORES) (block : image.Block core system.memory)
    (left : todo <:+ sendSipi core 0x50)
    (first : todo = sendSipi core 0x50 → system.cores core = .off)
    (stepped : system.advance image = some next) :
    Inv image ids (events ++ [.advance]) next := by
  rw [System.advance, here] at stepped
  have current : core ∈ system.bsp.pending := by
    rw [here]
    exact List.mem_cons_self
  have notLater : core ∉ rest := by
    have suffix := inv.suffix
    rw [here] at suffix
    exact (List.nodup_cons.mp (nodup.sublist suffix.sublist)).1
  cases todo with
  | nil =>
      obtain rfl := Option.some.inj stepped
      refine inv.same_pending .advance rfl rfl rfl (by rw [here]; rfl) ?_ (.polling rfl small block)
      intro other member
      rw [here]
      exact member
  | cons icr todo =>
      obtain rfl := Option.some.inj stepped
      have left' : todo <:+ sendSipi core 0x50 := (List.suffix_cons icr todo).trans left
      have later : ∀ other ∈ rest, other ≠ core ∧ other ∈ system.bsp.untouched := by
        intro other member
        rw [here]
        exact ⟨fun same => notLater (same ▸ member), member⟩
      rcases sendSipi_cases left with ⟨whole, rfl⟩ | ⟨short, rfl | rfl⟩
      · rw [deliver_init]
        have off := first whole
        have shorter : todo ≠ sendSipi core 0x50 := fun same => by
          rw [← whole] at same
          exact (List.cons_ne_self _ todo) same.symm
        refine inv.set_current .advance rfl rfl rfl (by rw [off]; rfl) rfl ?_ small current
          (by rw [here]; rfl) later (.sending rfl small block left' fun same => absurd same shorter)
        intro ap impossible
        cases impossible
      · rw [deliver_deassert]
        exact inv.same_pending .advance rfl rfl rfl (by rw [here]; rfl)
          (fun other member => (later other member).2)
          (.sending rfl small block left' fun same => absurd same short)
      · by_cases waits : system.cores core = .waiting
        · rw [deliver_startUp waits]
          refine inv.set_current .advance rfl rfl rfl (by rw [waits]; rfl) rfl ?_ small current
            (by rw [here]; rfl) later (.sending rfl small block left' fun same => absurd same short)
          intro ap same
          cases same
          exact ⟨0, .start core block⟩
        · rw [deliver_startUp_again waits]
          exact inv.same_pending .advance rfl rfl rfl (by rw [here]; rfl)
            (fun other member => (later other member).2)
            (.sending rfl small block left' fun same => absurd same short)

theorem advance (nodup : ids.Nodup) (inv : Inv image ids events system)
    (stepped : system.advance image = some next) : Inv image ids (events ++ [.advance]) next := by
  cases inv.turn with
  | next here => exact inv.advance_next here stepped
  | storing here small stored before split memory =>
      exact inv.advance_storing here small split memory stepped
  | sending here small block left first =>
      exact inv.advance_sending nodup here small block left first stepped
  | polling here small block =>
      rw [System.advance, here] at stepped
      cases stepped
  | done here bounded =>
      rw [System.advance, here] at stepped
      cases stepped

/-- The flag of a processor other than the first is set by itself. -/
theorem up_of_online (inv : Inv image ids events system) {core : U8} (notFirst : core ≠ 0)
    (online : system.isOnline core.toNat = true) : (system.cores core).isUp = true := by
  rcases (inv.cores.flags core.toNat).mp online with zero | ⟨other, named, up⟩
  · exact absurd (BitVec.eq_of_toNat_eq zero) notFirst
  · rwa [BitVec.eq_of_toNat_eq named] at up

theorem polling_block (inv : Inv image ids events system) {polled : U8} {ms : Nat}
    {rest : List U8} (polls : system.bsp = .polling polled ms rest) :
    polled.toNat < MAX_CORES ∧ image.Block polled system.memory := by
  cases inv.turn with
  | polling here small block =>
      rw [polls] at here
      cases here
      exact ⟨small, block⟩
  | next here | storing here | sending here | done here =>
      rw [polls] at here
      cases here

theorem poll (noFirst : 0 ∉ ids) (inv : Inv image ids events system)
    (stepped : system.poll = some next) : Inv image ids (events ++ [.poll]) next := by
  obtain ⟨core, ms, rest, polls, answer⟩ := poll_cases stepped
  rcases answer with ⟨online, rfl⟩ | ⟨_, rfl⟩
  · refine inv.leave .poll core (by rw [polls]; rfl) ?_ ?_
    · intro _
      right
      refine inv.up_of_online ?_ online
      rintro rfl
      exact noFirst (inv.suffix.subset (by rw [polls]; exact List.mem_cons_self))
    · intro other member
      rw [polls]
      exact member
  · obtain ⟨small, block⟩ := inv.polling_block polls
    refine inv.same_pending .poll rfl rfl rfl (by rw [polls]; rfl) ?_ (.polling rfl small block)
    intro other member
    rw [polls]
    exact member

theorem giveUp (inv : Inv image ids events system) {given : U8}
    (stepped : system.giveUp given = some next) :
    Inv image ids (events ++ [.giveUp given]) next := by
  obtain ⟨ms, rest, polls, _, _, rfl⟩ := giveUp_cases stepped
  refine inv.leave (.giveUp given) given (by rw [polls]; rfl) ?_ ?_
  · intro _
    left
    exact List.mem_append_right _ List.mem_cons_self
  · intro other member
    rw [polls]
    exact member

/-- The boot processor's place is not touched by a step of another processor that writes no
memory. -/
theorem turn_of_core (inv : Inv image ids events system) (sameBsp : next.bsp = system.bsp)
    (sameMemory : next.memory = system.memory)
    (staysOff : ∀ core, system.cores core = .off → next.cores core = .off)
    (grows : (haltedCores system.cores).card ≤ (haltedCores next.cores).card) :
    Turn image next := by
  cases inv.turn with
  | next here => exact .next (sameBsp.trans here)
  | storing here small stored before split memory =>
      exact .storing (sameBsp.trans here) small stored before split (sameMemory.trans memory)
  | sending here small block left first =>
      exact .sending (sameBsp.trans here) small (sameMemory ▸ block) left
        fun whole => staysOff _ (first whole)
  | polling here small block => exact .polling (sameBsp.trans here) small (sameMemory ▸ block)
  | done here bounded =>
      exact .done (sameBsp.trans here) (bounded.trans (Nat.add_le_add_left grows 1))

/-- A step of `ap_main`. -/
theorem set_up (inv : Inv image ids events system) (event : Event) {core : U8} {value : Core}
    (nextCores : next.cores = Function.update system.cores core value)
    (on : system.cores core ≠ .off) (up : value.isUp = true)
    (coresInv : CoresInv image next.cores next.isOnline next.apsOnline)
    (sameBsp : next.bsp = system.bsp) (sameMemory : next.memory = system.memory)
    (grows : (haltedCores system.cores).card ≤ (haltedCores next.cores).card) :
    Inv image ids (events ++ [event]) next := by
  have others : ∀ other, other ≠ core → next.cores other = system.cores other := by
    intro other different
    rw [nextCores, Function.update_of_ne different]
  have own : next.cores core = value := by
    rw [nextCores, Function.update_self]
  refine ⟨coresInv, ?_, ?_, ?_, inv.turn_of_core sameBsp sameMemory ?_ grows⟩
  · rw [sameBsp]
    exact inv.suffix
  · intro other listed small passed
    rw [sameBsp] at passed
    by_cases here : other = core
    · right
      rw [here, own, up]
    · rw [others other here]
      exact (inv.past other listed small passed).imp_left (List.mem_append_left _)
  · intro other otherOn
    rw [sameBsp]
    by_cases here : other = core
    · rw [here]
      exact inv.touched core on
    · rw [others other here] at otherOn
      exact inv.touched other otherOn
  · intro other off
    rw [others other fun same => on (same ▸ off)]
    exact off

theorem mark (sound : image.Sound) (inv : Inv image ids events system) {core : U8}
    (stepped : system.mark image core = some next) :
    Inv image ids (events ++ [.mark core]) next := by
  obtain ⟨ap, booting, atMain, same⟩ := mark_cases stepped
  have on := Core.ne_off_of_booting booting
  have small := (inv.touched core on).2.1
  obtain ⟨n, boots⟩ := inv.cores.booting core ap booting
  have inside := boots.inside sound small atMain
  rw [inside.argument_toNat, if_pos small] at same
  subst same
  refine inv.set_up (.mark core) rfl on rfl (inv.cores.set_marked booting inside) rfl rfl ?_
  exact le_of_eq (congrArg _ (CoresInv.haltedCores_update_same (by rw [booting]; rfl)).symm)

theorem count (inv : Inv image ids events system) {core : U8}
    (stepped : system.count core = some next) :
    Inv image ids (events ++ [.count core]) next := by
  obtain ⟨ap, marked, rfl⟩ := count_cases stepped
  have on := Core.ne_off_of_isUp (by rw [marked]; rfl : (system.cores core).isUp = true)
  refine inv.set_up (.count core) rfl on rfl (inv.cores.set_halted marked) rfl rfl ?_
  refine (Nat.le_succ _).trans (le_of_eq ?_)
  exact (CoresInv.haltedCores_update_halted (by rw [marked]; rfl)).symm

/-- A processor in the trampoline that has not been given up is the one whose turn it is. -/
theorem current_of_booting (inv : Inv image ids events system) {core : U8} {ap : Ap}
    (booting : system.cores core = .booting ap) (notGivenUp : .giveUp core ∉ events) :
    core ∈ system.bsp.pending ∧ core ∉ system.bsp.untouched := by
  obtain ⟨listed, small, notLeft⟩ := inv.touched core (Core.ne_off_of_booting booting)
  refine ⟨?_, notLeft⟩
  by_contra passed
  rcases inv.past core listed small passed with givenUp | up
  · exact notGivenUp givenUp
  · rw [booting] at up
    cases up

/-- It finds its own control block, and the boot processor is not at its stores. -/
theorem booting_cases (inv : Inv image ids events system) {core : U8} {ap : Ap}
    (booting : system.cores core = .booting ap) (notGivenUp : .giveUp core ∉ events) :
    image.Block core system.memory ∧
      ∀ next : System, next.bsp = system.bsp → image.Block core next.memory →
        Turn image next := by
  obtain ⟨current, notLeft⟩ := inv.current_of_booting booting notGivenUp
  cases inv.turn with
  | next here =>
      rw [here] at current notLeft
      exact absurd current notLeft
  | storing here =>
      rw [here] at current notLeft
      exact absurd current notLeft
  | sending here small block left first =>
      rw [here] at current notLeft
      obtain rfl := (List.mem_cons.mp current).resolve_right notLeft
      refine ⟨block, fun next same nextBlock => .sending (same.trans here) small nextBlock left ?_⟩
      intro whole
      have off := first whole
      rw [booting] at off
      cases off
  | polling here small block =>
      rw [here] at current notLeft
      obtain rfl := (List.mem_cons.mp current).resolve_right notLeft
      exact ⟨block, fun next same nextBlock => .polling (same.trans here) small nextBlock⟩
  | done here =>
      rw [here] at current
      cases current

theorem fetch (sound : image.Sound) (inv : Inv image ids events system) {core : U8}
    (notGivenUp : .giveUp core ∉ events) (stepped : system.fetch image core = some next) :
    Inv image ids (events ++ [.fetch core]) next := by
  obtain ⟨ap, after, booting, notAt, steps, rfl⟩ := fetch_cases stepped
  obtain ⟨_, small, _⟩ := inv.touched core (Core.ne_off_of_booting booting)
  obtain ⟨current, notLeft⟩ := inv.current_of_booting booting notGivenUp
  obtain ⟨block, turn⟩ := inv.booting_cases booting notGivenUp
  obtain ⟨n, boots⟩ := inv.cores.booting core ap booting
  obtain ⟨afterBoots, afterBlock⟩ := boots.next sound small block notAt steps
  refine inv.set_current (.fetch core) rfl rfl rfl (by rw [booting]; rfl) rfl ?_ small current
    rfl ?_ (turn _ rfl afterBlock)
  · intro same equal
    cases equal
    exact ⟨n + 1, afterBoots⟩
  · intro other member
    exact ⟨fun same => notLeft (same ▸ member), member⟩

end Inv

/-- No processor goes on in the trampoline after its turn has been given up. -/
def Punctual (events : List Event) : Prop :=
  events.Pairwise fun earlier later => ∀ core, earlier = .giveUp core → later ≠ .fetch core

theorem inv_start (image : Image) (memory : Memory) (apicIds : List U8) (bspId : U8) :
    Inv image (start memory apicIds bspId).bsp.pending [] (start memory apicIds bspId) := by
  have noneHalted : haltedCores (start memory apicIds bspId).cores = ∅ :=
    Finset.filter_eq_empty_iff.mpr fun core _ => Bool.false_ne_true
  refine ⟨⟨?_, ?_, ?_, ?_, ?_⟩, List.suffix_rfl, ?_, ?_, ?_⟩
  · intro core ap impossible
    cases impossible
  · intro core ap impossible
    cases impossible
  · intro core ap impossible
    cases impossible
  · intro number
    simp only [start, beq_iff_eq, Core.isUp, Bool.false_eq_true, and_false, exists_false, or_false]
  · rw [noneHalted]
    rfl
  · intro core listed _ notListed
    exact absurd listed notListed
  · intro core on
    exact absurd rfl on
  · by_cases single : apicIds.length ≤ 1
    · exact .done (if_pos single) (Nat.le_add_right 1 _)
    · exact .next (if_neg single)

theorem pending_start (memory : Memory) {apicIds : List U8} (nodup : apicIds.Nodup) {bspId : U8}
    (bootsFirst : 0 ∈ apicIds → bspId = 0) :
    (start memory apicIds bspId).bsp.pending.Nodup ∧
      0 ∉ (start memory apicIds bspId).bsp.pending := by
  rw [start]
  split
  · exact ⟨List.nodup_nil, List.not_mem_nil⟩
  · refine ⟨nodup.filter _, fun listed => ?_⟩
    obtain ⟨isListed, different⟩ := List.mem_filter.mp listed
    rw [bootsFirst isListed] at different
    simp at different

theorem inv_step {image : Image} (sound : image.Sound) {ids : List U8} (nodup : ids.Nodup)
    (noFirst : 0 ∉ ids) {events : List Event} {system next : System} {event : Event}
    (inv : Inv image ids events system) (punctual : Punctual (events ++ [event]))
    (stepped : system.step image event = some next) :
    Inv image ids (events ++ [event]) next := by
  cases event with
  | advance => exact inv.advance nodup stepped
  | poll => exact inv.poll noFirst stepped
  | giveUp core => exact inv.giveUp stepped
  | fetch core =>
      refine inv.fetch sound ?_ stepped
      intro givenUp
      exact (List.pairwise_append.mp punctual).2.2 _ givenUp _ List.mem_cons_self core rfl rfl
  | mark core => exact inv.mark sound stepped
  | count core => exact inv.count stepped

theorem inv_run {image : Image} (sound : image.Sound) {memory : Memory} {apicIds : List U8}
    (nodup : apicIds.Nodup) {bspId : U8} (bootsFirst : 0 ∈ apicIds → bspId = 0)
    {events : List Event} {system : System}
    (ran : Run (Steps image) (start memory apicIds bspId) events system)
    (punctual : Punctual events) :
    Inv image (start memory apicIds bspId).bsp.pending events system := by
  obtain ⟨pendingNodup, noFirst⟩ := pending_start memory nodup bootsFirst
  refine Run.history
    (fun events system => Punctual events →
      Inv image (start memory apicIds bspId).bsp.pending events system) ?_ ?_ ran punctual
  · intro events system event next holds stepped punctual
    exact inv_step sound pendingNodup noFirst (holds (List.pairwise_append.mp punctual).1) punctual
      stepped
  · intro _
    exact inv_start image memory apicIds bspId

end System

/-! ## Every processor on its own stack -/

/-- The processor is in `ap_main`. -/
def System.InMain (system : System) (core : U8) (ap : Ap) : Prop :=
  system.cores core = .marked ap ∨ system.cores core = .halted ap

theorem System.isUp_iff {system : System} {core : U8} :
    (system.cores core).isUp = true ↔ ∃ ap, system.InMain core ap := by
  cases found : system.cores core <;> simp [InMain, found, Core.isUp]

theorem Image.stackTop_toNat {image : Image} {core : U8} (small : core.toNat < MAX_CORES)
    (fits : image.apStacks.toNat + MAX_CORES * 16384 < 2 ^ 64) :
    (image.stackTop core - 8).toNat + 8 = image.apStacks.toNat + (core.toNat + 1) * 16384 := by
  rw [MAX_CORES] at small fits
  rw [stackTop, BitVec.toNat_sub, BitVec.toNat_add, BitVec.toNat_add, BitVec.toNat_ofNat]
  simp only [BitVec.reduceToNat]
  omega

/-- A machine whose tables map every address to itself. -/
def flatImage : Image where
  cr3 := 0x2000
  apStacks := 0x100000
  apMain := 0x9000
  walk := fun _ _ a => some a
  registers := fun _ => resetAp

theorem flatImage_sound : flatImage.Sound := by
  refine ⟨fun _ _ _ => rfl, ?_, Or.inl (by decide), by decide⟩
  intro core small
  refine ⟨(flatImage.stackTop core - 8).toNat, Or.inr ?_, fun _ _ => rfl⟩
  have top := Image.stackTop_toNat small (by decide : flatImage.apStacks.toNat + _ < _)
  have base : flatImage.apStacks.toNat = 0x100000 := rfl
  omega

end AxiomKernel.Smp
