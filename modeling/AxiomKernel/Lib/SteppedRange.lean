import Mathlib
import AxiomKernel.Lib.Chunks

/-!
# Stepped ranges and their concatenation

`stepBy start stop step` lists `start`, `start + step`, … below `stop`.  A list
of lists put together is read back by position: `getElem?_flatMap_eq_some_iff`
says which of the lists a position falls in and where.
-/

set_option autoImplicit false

namespace SteppedRanges

open Chunking

/-- The elements of `(start..stop).step_by(step)`. -/
def stepBy (start stop step : Nat) : List Nat :=
  List.range' start (blockCount step (stop - start)) step

theorem stepBy_length (start stop step : Nat) :
    (stepBy start stop step).length = blockCount step (stop - start) := List.length_range'

theorem lt_blockCount_iff {step : Nat} (positive : 0 < step) (index length : Nat) :
    index < blockCount step length ↔ index * step < length := by
  rw [blockCount, Nat.lt_div_iff_mul_lt positive]
  omega

theorem getElem?_stepBy_eq_some_iff {step : Nat} (positive : 0 < step) (start stop index value : Nat) :
    (stepBy start stop step)[index]? = some value ↔
      value = start + index * step ∧ value < stop := by
  rw [stepBy, List.getElem?_eq_some_iff]
  simp only [List.getElem_range', List.length_range', Nat.mul_comm step index, exists_prop,
    lt_blockCount_iff positive]
  omega

theorem mem_stepBy_iff {step : Nat} (positive : 0 < step) (start stop value : Nat) :
    value ∈ stepBy start stop step ↔ start ≤ value ∧ value < stop ∧ step ∣ value - start := by
  rw [List.mem_iff_getElem?]
  constructor
  · rintro ⟨index, found⟩
    obtain ⟨located, below⟩ := (getElem?_stepBy_eq_some_iff positive ..).mp found
    refine ⟨by omega, below, index, ?_⟩
    rw [located, Nat.add_sub_cancel_left, Nat.mul_comm]
  · rintro ⟨above, below, index, located⟩
    refine ⟨index, (getElem?_stepBy_eq_some_iff positive ..).mpr ⟨?_, below⟩⟩
    rw [Nat.mul_comm, ← located]
    omega

theorem stepBy_nodup {step : Nat} (positive : 0 < step) (start stop : Nat) :
    (stepBy start stop step).Nodup := List.nodup_range' step (h := positive)

/-! ## Positions in a concatenation -/

variable {α β : Type}

/-- A position of the concatenation is a position in one of the lists, counted
from the end of the lists before it. -/
theorem getElem?_flatMap_eq_some_iff (items : List α) (expand : α → List β) (index : Nat)
    (value : β) :
    (items.flatMap expand)[index]? = some value ↔
      ∃ earlier item later offset, items = earlier ++ item :: later ∧
        (expand item)[offset]? = some value ∧
        index = (earlier.flatMap expand).length + offset := by
  induction items generalizing index with
  | nil => simp
  | cons head rest inductionHypothesis =>
      rw [List.flatMap_cons]
      constructor
      · intro found
        by_cases inHead : index < (expand head).length
        · rw [List.getElem?_append_left inHead] at found
          exact ⟨[], head, rest, index, rfl, found, by simp⟩
        · rw [List.getElem?_append_right (by omega)] at found
          obtain ⟨earlier, item, later, offset, split, located, position⟩ :=
            (inductionHypothesis _).mp found
          refine ⟨head :: earlier, item, later, offset, by rw [split, List.cons_append], located, ?_⟩
          rw [List.flatMap_cons, List.length_append]
          omega
      · rintro ⟨earlier, item, later, offset, split, located, position⟩
        cases earlier with
        | nil =>
            obtain ⟨rfl, rfl⟩ := List.cons.inj split
            rw [List.flatMap_nil, List.length_nil, Nat.zero_add] at position
            rw [position]
            have inHead := (List.getElem?_eq_some_iff.mp located).1
            rw [List.getElem?_append_left inHead, located]
        | cons first earlier =>
            obtain ⟨rfl, restSplit⟩ := List.cons.inj split
            rw [List.flatMap_cons, List.length_append] at position
            rw [List.getElem?_append_right (by omega)]
            exact (inductionHypothesis _).mpr
              ⟨earlier, item, later, offset, restSplit, located, by omega⟩

theorem length_le_of_nodup_of_lt {values : List Nat} {bound : Nat} (distinct : values.Nodup)
    (below : ∀ value ∈ values, value < bound) : values.length ≤ bound := by
  have contained : values ⊆ List.range bound := by
    intro value member
    exact List.mem_range.mpr (below value member)
  have counted := (List.subperm_of_subset distinct contained).length_le
  rwa [List.length_range] at counted

end SteppedRanges
