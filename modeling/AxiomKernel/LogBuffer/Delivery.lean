import Mathlib
import AxiomKernel.LogBuffer.Ring

/-!
# Delivery of the log

Each record at most once, in the order pushed, and all of them to a drain that asks
for all of at most 64: this holds of the runs in which the writer's laps ahead of the
reader never shrink from one read to the next, and no such drain finds `WRITE_HEAD`
wrapped.  `drain` has no overrun handling: after 65 pushes it starts at a slot that
the writer has already passed, and comes back to it at the end.
-/

set_option autoImplicit false

namespace AxiomKernel.LogBuffer

open ByteStrings EventRuns LappedRings

/-- Every drain that can deliver all that is undelivered does so. -/
def Complete (pushed : Nat) (delivered : List Nat) :
    List (Op LogEntry) → List (List Nat) → Prop
  | .push _ :: ops, _ :: answers => Complete (pushed + 1) delivered ops answers
  | .drain max :: ops, answer :: answers =>
      ((undelivered pushed delivered).length ≤ logCapacity →
        (undelivered pushed delivered).length ≤ max.toNat →
          answer = undelivered pushed delivered) ∧
      Complete pushed (delivered ++ answer) ops answers
  | _, _ => True

/-- The entries delivered, each with the number of its push. -/
structure InOrder (ops : List (Op LogEntry)) (answers : List (List (LogEntry × Nat))) : Prop where
  named : ∀ entry k, (entry, k) ∈ answers.flatten → (pushes ops)[k]? = some entry
  increasing : (answers.flatten.map Prod.snd).Pairwise (· < ·)
  complete : Complete 0 [] ops (answers.map (List.map Prod.snd))

theorem InOrder.sublist {ops : List (Op LogEntry)} {answers : List (List (LogEntry × Nat))}
    (inOrder : InOrder ops answers) : (answers.flatten.map Prod.fst).Sublist (pushes ops) :=
  sublist_of_increasing inOrder.named inOrder.increasing

/-- The reads of a drain are all equally many laps behind the writer, not fewer than the `lap` of
the read before; and a drain asked for all of at most 64 makes that many reads. -/
def LapsKept (pushed drained lap : Nat) : List (Op LogEntry) → Prop
  | [] => True
  | .push _ :: rest => LapsKept (pushed + 1) drained lap rest
  | .drain max :: rest =>
      (pushed - drained ≤ logCapacity → pushed - drained ≤ max.toNat →
        reads pushed drained max = pushed - drained) ∧
      match reads pushed drained max with
      | 0 => LapsKept pushed drained lap rest
      | count + 1 =>
          lap ≤ lapsAhead logCapacity pushed drained ∧
          lapsAhead logCapacity pushed (drained + count) = lapsAhead logCapacity pushed drained ∧
          LapsKept pushed (drained + (count + 1)) (lapsAhead logCapacity pushed drained) rest

/-! ## Growing numbers and kept laps -/

/-- The numbers delivered so far, the last of them `lap` laps behind the writer. -/
structure Delivered (pushed drained lap : Nat) (delivered : List Nat) : Prop where
  increasing : delivered.Pairwise (· < ·)
  below : ∀ k ∈ delivered, k < pushed
  length : delivered.length = drained
  behind : drained ≤ pushed
  next : ∀ laps, (∀ k ∈ delivered, k < drained + logCapacity * laps) ↔ lap ≤ laps

theorem delivered_nil : Delivered 0 0 0 [] where
  increasing := List.Pairwise.nil
  below := by simp
  length := rfl
  behind := le_rfl
  next := by simp

namespace Delivered

variable {pushed drained lap : Nat} {delivered : List Nat}

theorem push (sofar : Delivered pushed drained lap delivered) :
    Delivered (pushed + 1) drained lap delivered where
  increasing := sofar.increasing
  below k mem := Nat.lt_succ_of_lt (sofar.below k mem)
  length := sofar.length
  behind := Nat.le_succ_of_le sofar.behind
  next := sofar.next

theorem append_increasing_iff (sofar : Delivered pushed drained lap delivered) (count : Nat) :
    (delivered ++ (List.range' drained (count + 1)).map (lapped logCapacity pushed)).Pairwise
        (· < ·) ↔
      lap ≤ lapsAhead logCapacity pushed drained ∧
        lapsAhead logCapacity pushed (drained + count) = lapsAhead logCapacity pushed drained := by
  rw [List.pairwise_append, lapped_increasing_iff (by decide) drained count, ← sofar.next]
  constructor
  · intro both
    obtain ⟨_, same, less⟩ := both
    refine ⟨fun k mem => less k mem _ ?_, same⟩
    exact List.mem_map.mpr ⟨drained, by simp, rfl⟩
  · intro both
    obtain ⟨first, same⟩ := both
    refine ⟨sofar.increasing, same, ?_⟩
    intro k mem read readMem
    obtain ⟨position, positionMem, rfl⟩ := List.mem_map.mp readMem
    have bounds := List.mem_range'_1.mp positionMem
    have atLeast : lapsAhead logCapacity pushed (drained + count) ≤
        lapsAhead logCapacity pushed position := lapsAhead_anti (by omega)
    rw [same] at atLeast
    have rounds := Nat.mul_le_mul_left logCapacity atLeast
    have before := first k mem
    rw [lapped]
    omega

theorem append_below (sofar : Delivered pushed drained lap delivered) {count : Nat}
    (room : drained + count ≤ pushed) :
    ∀ k ∈ delivered ++ (List.range' drained count).map (lapped logCapacity pushed), k < pushed := by
  intro k mem
  rcases List.mem_append.mp mem with before | now
  · exact sofar.below k before
  · obtain ⟨position, positionMem, rfl⟩ := List.mem_map.mp now
    have bounds := List.mem_range'_1.mp positionMem
    exact lapped_lt (by omega)

theorem append_length (sofar : Delivered pushed drained lap delivered) (count : Nat) :
    (delivered ++ (List.range' drained count).map (lapped logCapacity pushed)).length =
      drained + count := by
  rw [List.length_append, sofar.length, List.length_map, List.length_range']

theorem append (sofar : Delivered pushed drained lap delivered) {count : Nat}
    (room : drained + (count + 1) ≤ pushed)
    (increasing : (delivered ++
      (List.range' drained (count + 1)).map (lapped logCapacity pushed)).Pairwise (· < ·)) :
    Delivered pushed (drained + (count + 1)) (lapsAhead logCapacity pushed drained)
      (delivered ++ (List.range' drained (count + 1)).map (lapped logCapacity pushed)) where
  increasing := increasing
  below := sofar.append_below room
  length := sofar.append_length (count + 1)
  behind := room
  next := by
    intro laps
    obtain ⟨_, same⟩ := (sofar.append_increasing_iff count).mp increasing
    -- the last read is the greatest number, and stands on the common lap
    have last : lapped logCapacity pushed (drained + count) =
        drained + count + logCapacity * lapsAhead logCapacity pushed drained := by
      rw [lapped, same]
    rw [List.range'_concat, List.map_append, ← List.append_assoc] at increasing ⊢
    rw [List.pairwise_append] at increasing
    simp only [Nat.one_mul, List.map_cons, List.map_nil, List.mem_singleton, forall_eq] at increasing
    have capacity : 0 < logCapacity := by decide
    constructor
    · intro bounded
      have lastBounded := bounded (lapped logCapacity pushed (drained + count)) (by simp)
      rw [last] at lastBounded
      by_contra fewer
      have rounds := Nat.mul_le_mul_left logCapacity (Nat.lt_of_not_le fewer)
      rw [Nat.mul_succ] at rounds
      omega
    · intro kept k mem
      have rounds := Nat.mul_le_mul_left logCapacity kept
      have lastLe : k ≤ lapped logCapacity pushed (drained + count) := by
        rcases List.mem_append.mp mem with before | now
        · exact (increasing.2.2 k before).le
        · simp at now
          exact now.le
      rw [last] at lastLe
      omega

/-- Given growing numbers, a drain delivers all that is undelivered when it makes as many reads
as there are undrained pushes. -/
theorem complete_iff (sofar : Delivered pushed drained lap delivered) (max : U64)
    (increasing : (delivered ++ (List.range' drained (reads pushed drained max)).map
      (lapped logCapacity pushed)).Pairwise (· < ·)) :
    ((undelivered pushed delivered).length ≤ logCapacity →
      (undelivered pushed delivered).length ≤ max.toNat →
        (List.range' drained (reads pushed drained max)).map (lapped logCapacity pushed) =
          undelivered pushed delivered) ↔
    (pushed - drained ≤ logCapacity → pushed - drained ≤ max.toNat →
      reads pushed drained max = pushed - drained) := by
  have undrained := length_undelivered sofar.increasing sofar.below
  rw [sofar.length] at undrained
  rw [undrained]
  refine imp_congr_right fun _ => imp_congr_right fun _ => ?_
  constructor
  · intro same
    rw [← undrained, ← same, List.length_map, List.length_range']
  · intro all
    have room := add_reads_le sofar.behind max
    have behind := sofar.behind
    refine (undelivered_eq increasing (sofar.append_below room) ?_).symm
    rw [sofar.append_length]
    omega

end Delivered

theorem numbers_inOrder_iff (ops : List (Op LogEntry)) {pushed drained lap : Nat}
    {delivered : List Nat} (sofar : Delivered pushed drained lap delivered) :
    ((delivered ++ (numbers pushed drained ops).flatten).Pairwise (· < ·) ∧
      Complete pushed delivered ops (numbers pushed drained ops)) ↔
    LapsKept pushed drained lap ops := by
  induction ops generalizing pushed drained lap delivered with
  | nil => simp [numbers, Complete, LapsKept, sofar.increasing]
  | cons op rest inductionHypothesis =>
      cases op with
      | push entry =>
          rw [numbers, Complete, LapsKept, ← inductionHypothesis sofar.push, List.flatten_cons,
            List.nil_append]
      | drain max =>
          rw [numbers, Complete, LapsKept, List.flatten_cons, ← List.append_assoc]
          have room := add_reads_le sofar.behind max
          have completes := sofar.complete_iff max
          revert completes room
          cases reads pushed drained max with
          | zero =>
              intro _ completes
              simp only [List.range'_zero, List.map_nil, List.append_nil] at completes ⊢
              rw [← inductionHypothesis sofar, ← completes sofar.increasing, and_left_comm]
              rfl
          | succ count =>
              intro room completes
              have grows := sofar.append_increasing_iff count
              by_cases increasing : (delivered ++ (List.range' drained (count + 1)).map
                  (lapped logCapacity pushed)).Pairwise (· < ·)
              · obtain ⟨first, same⟩ := grows.mp increasing
                have after := inductionHypothesis (sofar.append room increasing)
                rw [← completes increasing]
                simp only [first, same, true_and, ← after]
                exact and_left_comm
              · have notKept := fun kept => increasing (grows.mpr kept)
                refine iff_of_false ?_ ?_
                · intro both
                  exact increasing (List.pairwise_append.mp both.1).1
                · intro kept
                  exact notKept ⟨kept.2.1, kept.2.2.1⟩

/-! ## The property and its condition -/

theorem delivers_in_order_iff (ops : List (Op LogEntry))
    (nonEmpty : ∀ entry, Op.push entry ∈ ops → entry.kind ≠ .empty) :
    (∃ final numberedFinal answers,
      run Ring.step Ring.new ops = some (final, answers.map (List.map Prod.fst)) ∧
      run Ring.step Ring.new (number 0 ops) = some (numberedFinal, answers) ∧
      InOrder ops answers) ↔
    LapsKept 0 0 0 ops := by
  obtain ⟨final, numberedFinal, answers, ran, numberedRan, counted, named⟩ := Ring.runs ops nonEmpty
  have kept := numbers_inOrder_iff ops delivered_nil
  rw [List.nil_append, ← counted, ← List.map_flatten] at kept
  constructor
  · intro delivers
    obtain ⟨_, _, answers', _, numberedRan', inOrder⟩ := delivers
    rw [numberedRan, Option.some.injEq] at numberedRan'
    obtain ⟨_, rfl⟩ := Prod.mk.inj numberedRan'
    exact kept.mp ⟨inOrder.increasing, inOrder.complete⟩
  · intro condition
    obtain ⟨increasing, complete⟩ := kept.mpr condition
    exact ⟨final, numberedFinal, answers, ran, numberedRan, named, increasing, complete⟩

theorem delivers_in_order_iff_two :
    ∃ final numberedFinal answers,
      run Ring.step Ring.new [.push ⟨.scbaStatus, 5, 0⟩, .push ⟨.scbaStatus, 5, 0⟩, .drain 8] =
        some (final, answers.map (List.map Prod.fst)) ∧
      run Ring.step Ring.new
          (number 0 [.push ⟨.scbaStatus, 5, 0⟩, .push ⟨.scbaStatus, 5, 0⟩, .drain 8]) =
        some (numberedFinal, answers) ∧
      InOrder [.push ⟨.scbaStatus, 5, 0⟩, .push ⟨.scbaStatus, 5, 0⟩, .drain 8] answers := by
  refine (delivers_in_order_iff _ ?_).mpr ?_
  · intro entry mem
    simp at mem
    simp [mem]
  · simp [LapsKept, reads, lapsAhead, logCapacity]

/-- No drain finds more than 64 entries waiting, nor `WRITE_HEAD` wrapped. -/
def NeverOverrun (pushed drained : Nat) : List (Op LogEntry) → Prop
  | [] => True
  | .push _ :: rest => NeverOverrun (pushed + 1) drained rest
  | .drain max :: rest =>
      pushed < 2 ^ 64 ∧ pushed - drained ≤ logCapacity ∧
        NeverOverrun pushed (drained + reads pushed drained max) rest

theorem lapsKept_of_neverOverrun (ops : List (Op LogEntry)) {pushed drained : Nat}
    (never : NeverOverrun pushed drained ops) : LapsKept pushed drained 0 ops := by
  induction ops generalizing pushed drained with
  | nil => trivial
  | cons op rest inductionHypothesis =>
      cases op with
      | push entry => exact inductionHypothesis never
      | drain max =>
          rw [NeverOverrun] at never
          rw [LapsKept]
          obtain ⟨unwrapped, near, later⟩ := never
          have kept := inductionHypothesis later
          have sameLap : ∀ position, drained ≤ position →
              lapsAhead logCapacity pushed position = 0 := by
            intro position atLeast
            simp only [lapsAhead, logCapacity] at near ⊢
            omega
          refine ⟨?_, ?_⟩
          · intro _ asked
            rw [reads, Nat.mod_eq_of_lt unwrapped]
            exact Nat.min_eq_right asked
          · revert kept
            cases reads pushed drained max with
            | zero => exact id
            | succ count =>
                intro kept
                rw [sameLap drained le_rfl]
                exact ⟨le_rfl, sameLap (drained + count) (Nat.le_add_right _ _), kept⟩

/-- Sixty-five different records and a drain of all: the last one comes first, and again last. -/
def burst : List (Op LogEntry) :=
  (List.range 65).map (fun k => .push ⟨.scbaStatus, BitVec.ofNat 64 k, 0⟩) ++ [.drain 65]

theorem burst_delivers_twice :
    ∃ final answers, run Ring.step Ring.new burst = some (final, answers) ∧
      answers.flatten.head? = some ⟨.scbaStatus, 64, 0⟩ ∧
      answers.flatten.getLast? = some ⟨.scbaStatus, 64, 0⟩ ∧
      ¬ answers.flatten.Sublist (pushes burst) := by
  obtain ⟨final, ran⟩ := Ring.holds_new.run burst (by
    intro entry mem
    simp [burst] at mem
    obtain ⟨k, _, rfl⟩ := mem
    simp [Entry.kind])
  have delivered : (deliver [] 0 burst).flatten =
      ⟨.scbaStatus, 64, 0⟩ :: ((List.range 64).tail.map fun k => ⟨.scbaStatus, BitVec.ofNat 64 k, 0⟩) ++
        [⟨.scbaStatus, 64, 0⟩] := by
    decide +kernel
  refine ⟨final, _, ran, ?_, ?_, ?_⟩
  · rw [delivered]
    rfl
  · rw [delivered]
    rfl
  · intro sublist
    have nodup : (pushes burst).Nodup := by decide +kernel
    have once := nodup.sublist sublist
    rw [delivered] at once
    revert once
    decide +kernel

end AxiomKernel.LogBuffer
