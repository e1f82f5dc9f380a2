import Mathlib
import AxiomKernel.Lib.RingSlots
import AxiomKernel.Lib.RingQueue

/-!
# Searching round a ring

A loop that tests the positions of a ring one after the other and gives up when
it comes back to where it started.  A test may stop the loop (`none`).
-/

set_option autoImplicit false

namespace RingSearch

/-- The first position from `next` on that passes, or the answer that none does; each
turn of the loop takes one unit of fuel. -/
def searchRing (n : Nat) (test : Nat → Option Bool) (start : Nat) :
    Nat → Nat → Option (Option Nat)
  | 0, _ => none
  | fuel + 1, next => do
      if ← test next then return some next
      let next := (next + 1) % n
      if next = start then return none
      searchRing n test start fuel next

variable {n : Nat} {test : Nat → Option Bool} {start : Nat}

theorem searchRing_hit {fuel next : Nat} (passes : test next = some true) :
    searchRing n test start (fuel + 1) next = some (some next) := by
  rw [searchRing, passes]
  rfl

theorem searchRing_miss {fuel next : Nat} (fails : test next = some false)
    (notBack : (next + 1) % n ≠ start) :
    searchRing n test start (fuel + 1) next = searchRing n test start fuel ((next + 1) % n) := by
  rw [searchRing, fails]
  exact if_neg notBack

theorem searchRing_from (startLt : start < n) {k : Nat} (kLt : k < n)
    (passes : test ((start + k) % n) = some true)
    (fails : ∀ j < k, test ((start + j) % n) = some false) (fuel j : Nat) (jLe : j ≤ k)
    (enough : k - j < fuel) :
    searchRing n test start fuel ((start + j) % n) = some (some ((start + k) % n)) := by
  induction fuel generalizing j with
  | zero => omega
  | succ fuel inductionHypothesis =>
      rcases Nat.lt_or_eq_of_le jLe with before | rfl
      · have nextEq : ((start + j) % n + 1) % n = (start + (j + 1)) % n := by
          rw [Nat.mod_add_mod, Nat.add_assoc]
        have notBack : ((start + j) % n + 1) % n ≠ start := by
          rw [nextEq]
          intro back
          have offsets := RingQueues.offset_inj (by omega : j + 1 < n) (by omega : 0 < n)
            (back.trans (Nat.mod_eq_of_lt startLt).symm)
          cases offsets
        rw [searchRing_miss (fails j before) notBack, nextEq]
        exact inductionHypothesis (j + 1) before (by omega)
      · exact searchRing_hit passes

/-- The whole loop finds the first position that passes, when there is one. -/
theorem searchRing_first (startLt : start < n) {p : Nat → Bool}
    (tests : ∀ i < n, test i = some (p i)) {hit : Nat} (hitLt : hit < n) (passes : p hit = true) :
    ∃ k < n, searchRing n test start n start = some (some ((start + k) % n)) ∧
      p ((start + k) % n) = true ∧ ∀ j < k, p ((start + j) % n) = false := by
  have positive : NeZero n := ⟨by omega⟩
  have someOffset : ∃ k, k < n ∧ p ((start + k) % n) = true := by
    obtain ⟨k, kLt, slot⟩ := RingSlots.exists_offset start (⟨hit, hitLt⟩ : Fin n)
    have position : (start + k) % n = hit := congrArg Fin.val slot
    exact ⟨k, kLt, by rw [position, passes]⟩
  -- the least offset is the one the loop comes to first
  obtain ⟨kLt, found⟩ := Nat.find_spec someOffset
  have earlier : ∀ j < Nat.find someOffset, p ((start + j) % n) = false := by
    intro j jLt
    have missed := Nat.find_min someOffset jLt
    rw [not_and, Bool.not_eq_true] at missed
    exact missed (jLt.trans kLt)
  have atOffset : ∀ j, test ((start + j) % n) = some (p ((start + j) % n)) :=
    fun j => tests _ (Nat.mod_lt _ (by omega))
  have hits : test ((start + Nat.find someOffset) % n) = some true := by rw [atOffset, found]
  have misses : ∀ j < Nat.find someOffset, test ((start + j) % n) = some false := by
    intro j jLt
    rw [atOffset, earlier j jLt]
  have searched := searchRing_from startLt kLt hits misses n 0 (Nat.zero_le _) kLt
  rw [Nat.add_zero, Nat.mod_eq_of_lt startLt] at searched
  exact ⟨_, kLt, searched, found, earlier⟩

theorem existsUnique_turn (start : Nat) {i : Nat} (iLt : i < n) :
    ∃! k, (1 ≤ k ∧ k ≤ n) ∧ (start + k) % n = i := by
  have positive : NeZero n := ⟨by omega⟩
  obtain ⟨j, jLt, slot⟩ := RingSlots.exists_offset (start + 1) (⟨i, iLt⟩ : Fin n)
  have position : (start + 1 + j) % n = i := congrArg Fin.val slot
  refine ⟨j + 1, ⟨⟨by omega, by omega⟩, ?_⟩, ?_⟩
  · rw [← position, Nat.add_assoc, Nat.add_comm 1 j]
  · rintro k ⟨⟨kPos, kLe⟩, same⟩
    have sameOffset : (start + 1 + (k - 1)) % n = (start + 1 + j) % n := by
      rw [position, ← same]
      congr 1
      omega
    have offsets := RingQueues.offset_inj (by omega : k - 1 < n) jLt sameOffset
    omega

end RingSearch
