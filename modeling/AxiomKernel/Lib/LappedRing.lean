import Mathlib
import AxiomKernel.Lib.RingSlots

/-!
# A ring whose reader does not look at laps

`n` slots are written at one free-running position and read at another.  When
`written` items have been written, the slot of position `position` holds the last
item written to it, `lapsAhead` rounds later: item number `lapped`.  The numbers a
reader gets grow exactly as long as the laps do not shrink.
-/

set_option autoImplicit false

namespace LappedRings

open RingSlots

section Laps

variable (n written : Nat)

/-- How many whole rounds the writer is ahead of a reading position. -/
def lapsAhead (position : Nat) : Nat :=
  (written - 1 - position) / n

def lapped (position : Nat) : Nat :=
  position + n * lapsAhead n written position

variable {n written}

theorem lapped_lt {position : Nat} (behind : position < written) :
    lapped n written position < written := by
  have rounds := Nat.mul_div_le (written - 1 - position) n
  rw [lapped, lapsAhead]
  omega

theorem lapsAhead_anti {earlier later : Nat} (le : earlier ≤ later) :
    lapsAhead n written later ≤ lapsAhead n written earlier :=
  Nat.div_le_div_right (by omega)

/-- A slot holds the item written to it in the last round. -/
theorem Represents.lapped [NeZero n] {α : Type} {slots : Vector (Option α) n} {items : List α}
    (represented : Represents slots items) {position : Nat} (behind : position < items.length) :
    slots.get (Fin.ofNat n position) = items[lapped n items.length position]? := by
  have positive : 0 < n := Nat.pos_of_ne_zero (NeZero.ne n)
  have rounds := Nat.div_add_mod (items.length - 1 - position) n
  have rest := Nat.mod_lt (items.length - 1 - position) positive
  have sameSlot : Fin.ofNat n position =
      Fin.ofNat n (LappedRings.lapped n items.length position + n) := by
    refine Fin.ext ?_
    simp [LappedRings.lapped]
  have reached : items.length ≤ LappedRings.lapped n items.length position + n := by
    rw [LappedRings.lapped, lapsAhead]
    omega
  have inRound := lapped_lt (n := n) behind
  rw [sameSlot, represented _ reached (by omega), if_neg (by omega), Nat.add_sub_cancel]

/-- A batch of consecutive reads gives growing numbers when all are the same laps behind. -/
theorem lapped_increasing_iff (positive : 0 < n) (start count : Nat) :
    ((List.range' start (count + 1)).map (lapped n written)).Pairwise (· < ·) ↔
      lapsAhead n written (start + count) = lapsAhead n written start := by
  rw [List.pairwise_map]
  constructor
  · intro increasing
    refine Nat.le_antisymm (lapsAhead_anti (by omega)) ?_
    induction count with
    | zero => exact le_rfl
    | succ count inductionHypothesis =>
        rw [List.range'_concat, List.pairwise_append] at increasing
        have grows : lapped n written (start + count) < lapped n written (start + (count + 1)) :=
          increasing.2.2 _ (by simp) _ (by simp)
        refine (inductionHypothesis increasing.1).trans ?_
        by_contra fewer
        have shrinks : lapsAhead n written (start + (count + 1)) + 1 ≤
            lapsAhead n written (start + count) := by omega
        have oneRound := Nat.mul_le_mul_left n shrinks
        rw [lapped, lapped] at grows
        rw [Nat.mul_add] at oneRound
        omega
  · intro same
    have constant : ∀ position ∈ List.range' start (count + 1),
        lapsAhead n written position = lapsAhead n written start := by
      intro position mem
      have bounds := List.mem_range'_1.mp mem
      refine Nat.le_antisymm (lapsAhead_anti bounds.1) ?_
      rw [← same]
      exact lapsAhead_anti (by omega)
    refine (List.pairwise_lt_range' 1 Nat.one_pos).imp_of_mem ?_
    intro earlier later earlierMem laterMem less
    rw [lapped, lapped, constant earlier earlierMem, constant later laterMem]
    omega

end Laps

/-! ## Increasing numbers below a bound -/

theorem filter_range_of_increasing {numbers : List Nat} {bound : Nat}
    (increasing : numbers.Pairwise (· < ·)) (below : ∀ k ∈ numbers, k < bound) :
    ((List.range bound).filter fun k => numbers.contains k) = numbers := by
  have permuted : ((List.range bound).filter fun k => numbers.contains k).Perm numbers := by
    refine (List.perm_ext_iff_of_nodup (List.nodup_range.filter _)
      (increasing.imp Nat.ne_of_lt)).mpr ?_
    intro k
    simpa using below k
  exact permuted.eq_of_pairwise' (List.pairwise_lt_range.filter _) increasing

theorem sublist_range_of_increasing {numbers : List Nat} {bound : Nat}
    (increasing : numbers.Pairwise (· < ·)) (below : ∀ k ∈ numbers, k < bound) :
    numbers.Sublist (List.range bound) := by
  rw [← filter_range_of_increasing increasing below]
  exact List.filter_sublist

theorem eq_range_of_increasing {numbers : List Nat} {bound : Nat}
    (increasing : numbers.Pairwise (· < ·)) (below : ∀ k ∈ numbers, k < bound)
    (full : numbers.length = bound) : numbers = List.range bound :=
  (sublist_range_of_increasing increasing below).eq_of_length (by simp [full])

/-- Items picked at increasing positions are a subsequence. -/
theorem sublist_of_increasing {α : Type} {items : List α} {picked : List (α × Nat)}
    (named : ∀ item k, (item, k) ∈ picked → items[k]? = some item)
    (increasing : (picked.map Prod.snd).Pairwise (· < ·)) :
    (picked.map Prod.fst).Sublist items := by
  have below : ∀ k ∈ picked.map Prod.snd, k < items.length := by
    intro k mem
    obtain ⟨⟨item, _⟩, found, rfl⟩ := List.mem_map.mp mem
    exact (List.getElem?_eq_some_iff.mp (named item _ found)).1
  have values : picked.map Prod.fst = (picked.map Prod.snd).filterMap fun k => items[k]? := by
    rw [List.filterMap_map, ← List.filterMap_eq_map]
    refine List.filterMap_congr ?_
    intro pair mem
    exact (named pair.1 pair.2 mem).symm
  have whole := filterMap_range_getElem? items items.length
  rw [List.take_length] at whole
  have chosen := (sublist_range_of_increasing increasing below).filterMap fun k => items[k]?
  rw [whole, ← values] at chosen
  exact chosen

/-- The numbers below `written` that have not been delivered. -/
def undelivered (written : Nat) (delivered : List Nat) : List Nat :=
  (List.range written).filter fun k => !delivered.contains k

theorem length_undelivered {written : Nat} {delivered : List Nat}
    (increasing : delivered.Pairwise (· < ·)) (below : ∀ k ∈ delivered, k < written) :
    (undelivered written delivered).length = written - delivered.length := by
  have total := List.length_eq_length_filter_add (l := List.range written)
    (fun k => delivered.contains k)
  rw [filter_range_of_increasing increasing below, List.length_range] at total
  rw [undelivered]
  omega

/-- When a batch completes the numbers below the bound, it is what was missing. -/
theorem undelivered_eq {written : Nat} {delivered batch : List Nat}
    (increasing : (delivered ++ batch).Pairwise (· < ·))
    (below : ∀ k ∈ delivered ++ batch, k < written)
    (full : (delivered ++ batch).length = written) : undelivered written delivered = batch := by
  rw [undelivered, ← eq_range_of_increasing increasing below full, List.filter_append]
  have nodup : (delivered ++ batch).Nodup := increasing.imp Nat.ne_of_lt
  have apart := List.disjoint_of_nodup_append nodup
  rw [List.filter_eq_nil_iff.mpr (by simp), List.nil_append, List.filter_eq_self]
  intro k mem
  simpa using fun found => apart found mem

end LappedRings
