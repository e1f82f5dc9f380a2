import Mathlib
import AxiomKernel.Lib.Bytes

/-!
# Block iteration and its streaming form

A block iteration consumes a string in blocks of a fixed size.  The streaming
form keeps the unconsumed tail in a buffer of one block.  `Buffered` is the
representation invariant that ties a state, a buffer and a fill count to the
whole string consumed so far; the two rules `Buffered.extend` and
`Buffered.complete` are all a streaming loop needs.
-/

set_option autoImplicit false

namespace BlockStreams

open ByteStrings

section Iteration
variable {σ α : Type} {size : Nat} [Inhabited α]

def toBlock (size : Nat) (text : List α) : Vector α size :=
  Vector.ofFn fun i : Fin size => text.getD i.val default

def foldBlocks (step : σ → Vector α size → σ) : Nat → σ → List α → σ
  | 0, state, _ => state
  | count + 1, state, text =>
      foldBlocks step count (step state (toBlock size text)) (text.drop size)

theorem toBlock_toList (text : List α) (enough : size ≤ text.length) :
    (toBlock size text).toList = text.take size := by
  apply List.ext_getElem
  · simp [Nat.min_eq_left enough]
  · intro i leftBound rightBound
    have inText : i < text.length := by
      simp only [List.length_take] at rightBound
      omega
    simp [toBlock, List.getElem?_eq_getElem inText]

theorem toBlock_eq_of_toList {block : Vector α size} {text : List α}
    (same : block.toList = text.take size) : toBlock size text = block := by
  have enough : size ≤ text.length := by
    have lengths := congrArg List.length same
    simp only [Vector.length_toList, List.length_take] at lengths
    omega
  apply Vector.toList_inj.mp
  rw [toBlock_toList text enough, same]

theorem toBlock_append (front back : List α) (enough : size ≤ front.length) :
    toBlock size (front ++ back) = toBlock size front := by
  apply toBlock_eq_of_toList
  rw [toBlock_toList front enough, List.take_append_of_le_length enough]

theorem foldBlocks_append (step : σ → Vector α size → σ) (count : Nat) (state : σ)
    (front back : List α) (enough : count * size ≤ front.length) :
    foldBlocks step count state (front ++ back) = foldBlocks step count state front := by
  induction count generalizing state front with
  | zero => rfl
  | succ count inductionHypothesis =>
      have oneBlock : size ≤ front.length := by
        rw [Nat.succ_mul] at enough
        omega
      have remaining : count * size ≤ (front.drop size).length := by
        rw [Nat.succ_mul] at enough
        rw [List.length_drop]
        omega
      simp only [foldBlocks]
      rw [toBlock_append front back oneBlock, List.drop_append_of_le_length oneBlock,
        inductionHypothesis _ _ remaining]

theorem foldBlocks_add (step : σ → Vector α size → σ) (first second : Nat) (state : σ)
    (text : List α) :
    foldBlocks step (first + second) state text =
      foldBlocks step second (foldBlocks step first state text) (text.drop (first * size)) := by
  induction first generalizing state text with
  | zero => simp [foldBlocks]
  | succ first inductionHypothesis =>
      rw [Nat.succ_add, foldBlocks, inductionHypothesis, foldBlocks, List.drop_drop]
      congr 2
      rw [Nat.succ_mul, Nat.add_comm]

theorem foldBlocks_snoc (step : σ → Vector α size → σ) (count : Nat) (state : σ)
    (front : List α) (block : Vector α size) (exact : front.length = count * size) :
    foldBlocks step (count + 1) state (front ++ block.toList) =
      step (foldBlocks step count state front) block := by
  have lastBlock : toBlock size block.toList = block := by
    apply toBlock_eq_of_toList
    rw [List.take_of_length_le (by simp)]
  rw [foldBlocks_add, foldBlocks_append step count state front _ exact.ge, ← exact,
    List.drop_left]
  simp only [foldBlocks, lastBlock]

end Iteration

/-! ## The streaming buffer -/

section Streaming
variable {σ α : Type} {size : Nat} [Inhabited α]

/-- After consuming `text` from `initial`: `state` has absorbed every complete
block and the first `fill` cells of `buf` hold the incomplete rest. -/
structure Buffered (step : σ → Vector α size → σ) (initial : σ) (text : List α)
    (state : σ) (buf : Vector α size) (fill : Nat) : Prop where
  notFull : fill < size
  split : ∃ (count : Nat) (whole : List α),
    whole.length = count * size ∧
      text = whole ++ buf.toList.take fill ∧
      state = foldBlocks step count initial whole

variable {step : σ → Vector α size → σ} {initial state : σ} {text : List α}
  {buf : Vector α size} {fill : Nat}

theorem Buffered.start (step : σ → Vector α size → σ) (initial : σ) (buf : Vector α size)
    (positive : 0 < size) : Buffered step initial [] initial buf 0 :=
  ⟨positive, 0, [], by simp, by simp, rfl⟩

/-- A chunk that leaves room in the buffer is only stored. -/
theorem Buffered.extend (held : Buffered step initial text state buf fill) (chunk : List α)
    (room : fill + chunk.length < size) :
    Buffered step initial (text ++ chunk) state (copyFromSlice buf fill chunk)
      (fill + chunk.length) := by
  obtain ⟨count, whole, wholeLength, textSplit, absorbed⟩ := held.split
  refine ⟨room, count, whole, wholeLength, ?_, absorbed⟩
  rw [copyFromSlice_take buf fill chunk room.le, textSplit, List.append_assoc]

/-- A chunk that fills the buffer is absorbed as one block; what the buffer
holds afterwards no longer matters. -/
theorem Buffered.complete (held : Buffered step initial text state buf fill) (chunk : List α)
    (block next : Vector α size) (filled : block.toList = buf.toList.take fill ++ chunk) :
    Buffered step initial (text ++ chunk) (step state block) next 0 := by
  obtain ⟨count, whole, wholeLength, textSplit, absorbed⟩ := held.split
  refine ⟨by have := held.notFull; omega, count + 1, whole ++ block.toList, ?_, ?_, ?_⟩
  · simp [wholeLength, Nat.succ_mul]
  · rw [textSplit, filled]
    simp
  · rw [foldBlocks_snoc step count initial whole _ wholeLength, absorbed]

theorem Buffered.fill_eq (held : Buffered step initial text state buf fill) :
    fill = text.length % size := by
  obtain ⟨count, whole, wholeLength, textSplit, -⟩ := held.split
  have room := held.notFull
  have textLength : text.length = count * size + fill := by
    rw [textSplit]
    simp [wholeLength, Nat.min_eq_left room.le]
  rw [textLength, Nat.mul_comm, Nat.mul_add_mod, Nat.mod_eq_of_lt room]

/-- With an empty buffer the state is the iteration over the whole text. -/
theorem Buffered.closed (held : Buffered step initial text state buf 0) :
    foldBlocks step (text.length / size) initial text = state := by
  obtain ⟨count, whole, wholeLength, textSplit, absorbed⟩ := held.split
  have wholeText : text = whole := by simpa using textSplit
  have blocks : whole.length / size = count := by
    rw [wholeLength]
    exact Nat.mul_div_cancel count held.notFull
  rw [wholeText, blocks, absorbed]

end Streaming

end BlockStreams
