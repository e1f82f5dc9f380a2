import Mathlib

/-!
# Cutting a string into chunks

The chunks of a string all have one size, except that the last may be shorter.  A
loop over whole blocks followed by a step for the rest is a fold over the chunks
(`lastBlock_wholeBlocks`).
-/

set_option autoImplicit false

namespace Chunking

variable {α : Type}

def blockCount (size length : Nat) : Nat := (length + size - 1) / size

/-- Chunk `i` is the symbols from `i * size` on, `size` of them or what is left. -/
def chunks (size : Nat) (text : List α) : List (List α) :=
  (List.range (blockCount size text.length)).map fun i => (text.drop (i * size)).take size

theorem blockCount_zero (size : Nat) : blockCount size 0 = 0 := by
  rcases Nat.eq_zero_or_pos size with rfl | positive
  · rfl
  · rw [blockCount, Nat.zero_add]
    exact Nat.div_eq_of_lt (by omega)

theorem blockCount_step {size length : Nat} (positive : 0 < size) (nonempty : 0 < length) :
    blockCount size length = blockCount size (length - size) + 1 := by
  rw [blockCount, blockCount]
  by_cases long : size ≤ length
  · have shifted : length + size - 1 = (length - size + size - 1) + size := by omega
    rw [shifted, Nat.add_div_right _ positive]
  · have short : length - size = 0 := by omega
    rw [short, Nat.zero_add, Nat.div_eq_of_lt (show size - 1 < size by omega)]
    exact Nat.div_eq_of_lt_le (by omega) (by omega)

theorem le_blockCount_mul {size : Nat} (positive : 0 < size) (length : Nat) :
    length ≤ size * blockCount size length := by
  have rounded := Nat.div_add_mod (length + size - 1) size
  have small := Nat.mod_lt (length + size - 1) positive
  rw [blockCount]
  omega

theorem chunks_nil (size : Nat) : chunks size ([] : List α) = [] := by
  rw [chunks, List.length_nil, blockCount_zero, List.range_zero, List.map_nil]

theorem chunks_eq_cons {size : Nat} (positive : 0 < size) {text : List α} (nonempty : text ≠ []) :
    chunks size text = text.take size :: chunks size (text.drop size) := by
  have lengthPos : 0 < text.length := List.length_pos_iff.mpr nonempty
  rw [chunks, chunks, List.length_drop, blockCount_step positive lengthPos, List.range_succ_eq_map,
    List.map_cons, List.map_map, Nat.zero_mul, List.drop_zero]
  congr 1
  apply List.map_congr_left
  intro i _
  rw [Function.comp_apply, List.drop_drop, Nat.succ_mul, Nat.add_comm]

theorem chunks_length (size : Nat) (text : List α) :
    (chunks size text).length = blockCount size text.length := by
  rw [chunks, List.length_map, List.length_range]

theorem chunks_induction {size : Nat} (positive : 0 < size) {motive : List α → Prop}
    (empty : motive [])
    (step : ∀ text, text ≠ [] → motive (text.drop size) → motive text) (text : List α) :
    motive text := by
  induction bound : text.length using Nat.strongRecOn generalizing text with
  | ind length inductionHypothesis =>
      by_cases nonempty : text = []
      · rw [nonempty]
        exact empty
      · have lengthPos := List.length_pos_iff.mpr nonempty
        apply step text nonempty
        refine inductionHypothesis (text.drop size).length ?_ _ rfl
        rw [List.length_drop]
        omega

theorem flatten_chunks {size : Nat} (positive : 0 < size) (text : List α) :
    (chunks size text).flatten = text := by
  induction text using chunks_induction positive with
  | empty => rw [chunks_nil, List.flatten_nil]
  | step text nonempty inductionHypothesis =>
      rw [chunks_eq_cons positive nonempty, List.flatten_cons, inductionHypothesis,
        List.take_append_drop]

theorem length_le_of_mem_chunks {size : Nat} {text chunk : List α}
    (member : chunk ∈ chunks size text) : chunk.length ≤ size := by
  obtain ⟨i, _, rfl⟩ := List.mem_map.mp member
  exact List.length_take_le size _

/-! ## A loop over whole blocks -/

section Loop
variable {σ : Type}

/-- The loop `while offset + size <= len` and the offset it stops at.  Each turn advances the
offset, so the length bounds the number of turns. -/
def wholeBlocks (size : Nat) (step : σ → List α → σ) (text : List α) : Nat → σ → Nat → σ × Nat
  | 0, state, offset => (state, offset)
  | fuel + 1, state, offset =>
      if offset + size ≤ text.length then
        wholeBlocks size step text fuel (step state ((text.drop offset).take size)) (offset + size)
      else (state, offset)

/-- What follows the loop: the shorter last block, if any. -/
def lastBlock (step : σ → List α → σ) (text : List α) (reached : σ × Nat) : σ :=
  if reached.2 < text.length then step reached.1 (text.drop reached.2) else reached.1

/-- The loop with enough fuel and the last block go through the chunks in order. -/
theorem lastBlock_wholeBlocks {size : Nat} (positive : 0 < size) (step : σ → List α → Bool → σ)
    (text : List α) (fuel : Nat) (state : σ) (offset : Nat)
    (enough : text.length < offset + size * (fuel + 1)) :
    lastBlock (step · · false) text (wholeBlocks size (step · · true) text fuel state offset) =
      (chunks size (text.drop offset)).foldl
        (fun state block => step state block (block.length == size)) state := by
  -- less than a block is left
  have last : ∀ (state : σ) (offset : Nat), ¬ offset + size ≤ text.length →
      lastBlock (step · · false) text (state, offset) =
        (chunks size (text.drop offset)).foldl
          (fun state block => step state block (block.length == size)) state := by
    intro state offset short
    rw [lastBlock]
    split
    case isTrue more =>
      have restLength : (text.drop offset).length = text.length - offset := List.length_drop
      have nonempty : text.drop offset ≠ [] := by
        rw [← List.length_pos_iff]
        omega
      have nothingAfter : (text.drop offset).drop size = [] := List.drop_eq_nil_of_le (by omega)
      rw [chunks_eq_cons positive nonempty, List.take_of_length_le (by omega), nothingAfter,
        chunks_nil, List.foldl_cons, List.foldl_nil, beq_false_of_ne (by omega)]
    case isFalse none =>
      rw [List.drop_eq_nil_of_le (not_lt.mp none), chunks_nil, List.foldl_nil]
  induction fuel generalizing state offset with
  | zero => exact last state offset (by omega)
  | succ fuel inductionHypothesis =>
      rw [wholeBlocks]
      split
      case isTrue more =>
        have blockLength : ((text.drop offset).take size).length = size := by
          rw [List.length_take, List.length_drop]
          omega
        have nonempty : text.drop offset ≠ [] := by
          rw [← List.length_pos_iff, List.length_drop]
          omega
        rw [inductionHypothesis _ _ (by rw [Nat.mul_succ] at enough; omega),
          chunks_eq_cons positive nonempty, List.foldl_cons, List.drop_drop, blockLength,
          beq_self_eq_true]
      case isFalse short => exact last state offset short

end Loop

/-- Two folds over one list keep what every step keeps. -/
theorem foldl_related {σ τ : Type} (related : σ → τ → Prop) {left : σ → α → σ} {right : τ → α → τ}
    (items : List α)
    (kept : ∀ item ∈ items, ∀ s t, related s t → related (left s item) (right t item)) {s : σ}
    {t : τ} (start : related s t) : related (items.foldl left s) (items.foldl right t) := by
  induction items generalizing s t with
  | nil => exact start
  | cons item rest inductionHypothesis =>
      rw [List.foldl_cons, List.foldl_cons]
      refine inductionHypothesis ?_ (kept item List.mem_cons_self s t start)
      intro later mem
      exact kept later (List.mem_cons_of_mem item mem)

theorem blockCount_mono (size : Nat) {short long : Nat} (le : short ≤ long) :
    blockCount size short ≤ blockCount size long :=
  Nat.div_le_div_right (by omega)

end Chunking
