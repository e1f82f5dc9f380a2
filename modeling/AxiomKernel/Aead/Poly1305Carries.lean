import Mathlib
import AxiomKernel.Aead.Poly1305Conformance

/-!
# Poly1305: no carry is lost

`add_block` wraps and drops carries.  Here it is written once more with a check in
place of every operation whose carry the source drops, and the checks never fail:
the accumulator is at most `2^130 - 5` before a block, hence again after it.
-/

set_option autoImplicit false

namespace AxiomKernel.Aead

open ByteStrings MachineWords

/-! ## `add_block` with its carries checked -/

def checkedAddNumber (h : Accumulator) (n1 : U128) (carry : U64) : Option Accumulator := do
  let (newH1, c) := overflowingAdd h.h1 n1
  let newH0 ← checkedAdd h.h0 carry
  let newH0 ← checkedAdd newH0 (asU64 c)
  some { h0 := newH0, h1 := newH1 }

/-- `br_lo` is the low half of a product and wraps; its high half is `br_hi`. -/
def checkedMultiply (h : Accumulator) (r : U128) : Option (U128 × U128) := do
  let a := h.h0.setWidth 128
  let brLo := h.h1 * r
  let brHi ← checkedMulHigh h.h1 r
  let ar ← checkedMul a r
  let phi ← checkedAdd brHi ar
  some (brLo, phi)

def checkedFoldProduct (prodLo prodHi : U128) : Option Accumulator := do
  let carryBits := prodHi >>> 2
  let newH0 := (prodHi &&& 3).setWidth 64
  let fiveTimes ← checkedMul carryBits 5
  let (newH1, c) := overflowingAdd prodLo fiveTimes
  let newH0 ← checkedAdd newH0 (asU64 c)
  some { h0 := newH0, h1 := newH1 }

def checkedSubtractPrime (h : Accumulator) : Option Accumulator :=
  if h.h0 ≥ 4 || (h.h0 == 3 && h.h1 ≥ max128 - 3) then do
    let (newH1, borrow) := overflowingSub h.h1 (max128 - 4)
    let newH0 ← checkedSub h.h0 3
    let newH0 ← checkedSub newH0 (asU64 borrow)
    some { h0 := newH0, h1 := newH1 }
  else some h

def checkedAddBlock (r : U128) (h : Accumulator) (block : List U8) (full : Bool) :
    Option Accumulator := do
  let (n1, carry) := markBlock block full
  let added ← checkedAddNumber h n1 carry
  let (prodLo, prodHi) ← checkedMultiply added r
  let folded ← checkedFoldProduct prodLo prodHi
  checkedSubtractPrime folded

/-! ## The stages -/

theorem checkedAddNumber_eq {h : Accumulator} (n1 : U128) {carry : U64} (small : h.h0.toNat ≤ 3)
    (bit : carry.toNat ≤ 1) : checkedAddNumber h n1 carry = some (addNumber h n1 carry) := by
  have carryOut := Bool.toNat_le (overflowingAdd h.h1 n1).2
  have firstFits : h.h0.toNat + carry.toNat < 2 ^ 64 := by omega
  have secondFits : (h.h0 + carry).toNat + (asU64 (overflowingAdd h.h1 n1).2).toNat < 2 ^ 64 := by
    rw [BitVec.toNat_add, asU64_toNat]
    omega
  simp only [checkedAddNumber, checkedAdd_of_lt firstFits, Option.bind_eq_bind, Option.bind_some,
    checkedAdd_of_lt secondFits, addNumber]

theorem checkedMultiply_eq {h : Accumulator} {r : U128} (small : h.h0.toNat ≤ 7)
    (clamped : r.toNat < 2 ^ 124) : checkedMultiply h r = some (multiply h r) := by
  obtain ⟨arBound, brBound⟩ := products_le small clamped
  have arFits : (h.h0.setWidth 128).toNat * r.toNat < 2 ^ 128 := by
    rw [h0_wide]
    omega
  have phiFits : (mulHigh h.h1 r).toNat + (h.h0.setWidth 128 * r).toNat < 2 ^ 128 := by
    rw [mulHigh_toNat, BitVec.toNat_mul, Nat.mod_eq_of_lt arFits, h0_wide]
    omega
  simp only [checkedMultiply, checkedMulHigh_eq, checkedMul_of_lt arFits, Option.bind_eq_bind,
    Option.bind_some, checkedAdd_of_lt phiFits, multiply, overflowingAdd]

theorem checkedFoldProduct_eq (prodLo : U128) {prodHi : U128} (small : prodHi.toNat < 2 ^ 127) :
    checkedFoldProduct prodLo prodHi = some (foldProduct prodLo prodHi) := by
  have five : (5 : U128).toNat = 5 := rfl
  have fiveFits : (prodHi >>> 2).toNat * (5 : U128).toNat < 2 ^ 128 := by
    rw [BitVec.toNat_ushiftRight, Nat.shiftRight_eq_div_pow, five]
    omega
  have carryOut := Bool.toNat_le (overflowingAdd prodLo (prodHi >>> 2 * 5)).2
  have carryFits : ((prodHi &&& 3).setWidth 64).toNat +
      (asU64 (overflowingAdd prodLo (prodHi >>> 2 * 5)).2).toNat < 2 ^ 64 := by
    rw [lowTwoBits_toNat, asU64_toNat]
    omega
  simp only [checkedFoldProduct, checkedMul_of_lt fiveFits, Option.bind_eq_bind, Option.bind_some,
    checkedAdd_of_lt carryFits, foldProduct]

theorem checkedSubtractPrime_eq {h : Accumulator} (small : h.h0.toNat ≤ 4) :
    checkedSubtractPrime h = some (subtractPrime h) := by
  rw [checkedSubtractPrime, subtractPrime]
  by_cases exceeds : (h.h0 ≥ 4 || (h.h0 == 3 && h.h1 ≥ max128 - 3)) = true
  · have three : (3 : U64).toNat = 3 := rfl
    obtain ⟨highEnough, -⟩ := minusPrime_borrow ((exceedsPrime_iff h).mp exceeds).le
    have threeFits : (3 : U64).toNat ≤ h.h0.toNat := by
      rw [three]
      omega
    have borrowFits : (asU64 (overflowingSub h.h1 (max128 - 4)).2).toNat ≤ (h.h0 - 3).toNat := by
      rw [asU64_toNat, BitVec.toNat_sub, three]
      omega
    rw [if_pos exceeds, if_pos exceeds]
    simp only [checkedSub_of_le threeFits, Option.bind_eq_bind, Option.bind_some,
      checkedSub_of_le borrowFits]
  · rw [if_neg exceeds, if_neg exceeds]

/-! ## Blocks -/

/-- What one call of `add_block` keeps: no check fails, `br_hi` is the quotient, and the
accumulator stays at most `2^130 - 5`. -/
structure KeepsCarries (r : U128) (h : Accumulator) (block : List U8) (full : Bool) : Prop where
  checked : checkedAddBlock r h block full = some (addBlock r h block full)
  brHi : (mulHigh (addNumber h (markBlock block full).1 (markBlock block full).2).h1 r).toNat =
    (addNumber h (markBlock block full).1 (markBlock block full).2).h1.toNat * r.toNat / 2 ^ 128
  bounded : (addBlock r h block full).value ≤ 2 ^ 130 - 5
  highWord : (addBlock r h block full).h0.toNat ≤ 3

theorem addBlock_bounded {r : U128} {h : Accumulator} (block : List U8) (full : Bool)
    (clamped : r.toNat < 2 ^ 124) (short : block.length ≤ 16) (bounded : h.value ≤ Rfc8439.p) :
    (addBlock r h block full).value ≤ Rfc8439.p :=
  (addBlock_accumulates block full clamped short ⟨bounded, rfl⟩).bounded

theorem checkedAddBlock_eq {r : U128} {h : Accumulator} (block : List U8) (full : Bool)
    (clamped : r.toNat < 2 ^ 124) (short : block.length ≤ 16) (bounded : h.value ≤ Rfc8439.p) :
    checkedAddBlock r h block full = some (addBlock r h block full) := by
  have bit := (markBlock_value block full short).2
  have addedStage := checkedAddNumber_eq (markBlock block full).1 (h0_le_three bounded) bit
  have addedBound := (addMarked_value block full short bounded).2
  obtain ⟨-, foldedBound⟩ := multiplyFold_value addedBound clamped
  simp only [checkedAddBlock, addBlock, addedStage, Option.bind_eq_bind, Option.bind_some]
  generalize addNumber h (markBlock block full).1 (markBlock block full).2 = added at *
  have high : added.h0.toNat ≤ 7 := by
    rw [Accumulator.value] at addedBound
    omega
  have product := multiply_value added r high clamped
  have productBound : added.value * r.toNat < 2 ^ 131 * 2 ^ 124 :=
    Nat.mul_lt_mul'' addedBound clamped
  rw [checkedMultiply_eq high clamped, Option.bind_some, checkedFoldProduct_eq _ (by omega),
    Option.bind_some, checkedSubtractPrime_eq]
  rw [Accumulator.value] at foldedBound
  omega

theorem addBlock_keepsCarries {r : U128} {h : Accumulator} (block : List U8) (full : Bool)
    (clamped : r.toNat < 2 ^ 124) (short : block.length ≤ 16) (bounded : h.value ≤ Rfc8439.p) :
    KeepsCarries r h block full where
  checked := checkedAddBlock_eq block full clamped short bounded
  brHi := mulHigh_toNat _ r
  bounded := addBlock_bounded block full clamped short bounded
  highWord := h0_le_three (addBlock_bounded block full clamped short bounded)

/-! ## The run -/

/-- One more turn of the loop, from where the earlier turns left it. -/
theorem addFullBlocks_succ (r : U128) (msg : List U8) (turns : Nat) (h : Accumulator)
    (offset : Nat) :
    addFullBlocks r msg (turns + 1) h offset =
      if (addFullBlocks r msg turns h offset).2 + 16 ≤ msg.length then
        (addBlock r (addFullBlocks r msg turns h offset).1
            ((msg.drop (addFullBlocks r msg turns h offset).2).take 16) true,
          (addFullBlocks r msg turns h offset).2 + 16)
      else addFullBlocks r msg turns h offset := by
  induction turns generalizing h offset with
  | zero => rfl
  | succ turns inductionHypothesis =>
      rw [addFullBlocks]
      by_cases room : offset + 16 ≤ msg.length
      · have entered : addFullBlocks r msg (turns + 1) h offset =
            addFullBlocks r msg turns (addBlock r h ((msg.drop offset).take 16) true)
              (offset + 16) := by
          rw [addFullBlocks, if_pos room]
        rw [if_pos room, inductionHypothesis, entered]
      · have left : addFullBlocks r msg (turns + 1) h offset = (h, offset) := by
          rw [addFullBlocks, if_neg room]
        rw [left, if_neg room, if_neg room]

theorem addFullBlocks_bounded {r : U128} (clamped : r.toNat < 2 ^ 124) (msg : List U8)
    (turns : Nat) : (addFullBlocks r msg turns ⟨0, 0⟩ 0).1.value ≤ Rfc8439.p := by
  induction turns with
  | zero =>
      show Accumulator.value ⟨0, 0⟩ ≤ Rfc8439.p
      decide
  | succ turns inductionHypothesis =>
      rw [addFullBlocks_succ]
      split
      case isTrue =>
        exact addBlock_bounded _ true clamped (List.length_take_le 16 _) inductionHypothesis
      case isFalse => exact inductionHypothesis

/-- After any number of turns of the loop over the blocks, what the next turn does keeps its
carries, and so does the call for the rest of the message behind the loop. -/
theorem poly1305_keeps_carries (key : Bytes 32) (msg : List U8) (turns : Nat) :
    let r := loadLeU128 (clamp (copyFromSlice (Vector.replicate 16 0) 0 (slice key 0 16))).toList
    let reached := addFullBlocks r msg turns ⟨0, 0⟩ 0
    (reached.2 + 16 ≤ msg.length →
      addFullBlocks r msg (turns + 1) ⟨0, 0⟩ 0 =
        (addBlock r reached.1 ((msg.drop reached.2).take 16) true, reached.2 + 16) ∧
      KeepsCarries r reached.1 ((msg.drop reached.2).take 16) true) ∧
    (reached.2 < msg.length → msg.length < reached.2 + 16 →
      KeepsCarries r reached.1 (msg.drop reached.2) false) := by
  intro r reached
  have clamped : r.toNat < 2 ^ 124 := by
    rw [loadR_toNat key]
    exact clamp_lt _
  have bounded : reached.1.value ≤ Rfc8439.p := addFullBlocks_bounded clamped msg turns
  constructor
  · intro room
    refine ⟨?_, addBlock_keepsCarries _ true clamped (List.length_take_le 16 _) bounded⟩
    rw [addFullBlocks_succ, if_pos room]
  · intro _ last
    refine addBlock_keepsCarries _ false clamped ?_ bounded
    rw [List.length_drop]
    omega

/-- The key of the test vector of RFC 8439. -/
def rfcKey : Bytes 32 :=
  #v[0x85, 0xd6, 0xbe, 0x78, 0x57, 0x55, 0x6d, 0x33, 0x7f, 0x44, 0x52, 0xfe, 0x42, 0xd5, 0x06, 0xa8,
    0x01, 0x03, 0x80, 0x8a, 0xfb, 0x0d, 0xb2, 0xfd, 0x4a, 0xbf, 0xf6, 0xaf, 0x41, 0x49, 0xf5, 0x1b]

/-- 17 bytes: one turn, and one byte behind the loop. -/
theorem poly1305_keeps_carries_seventeen :
    let r := loadLeU128 (clamp (copyFromSlice (Vector.replicate 16 0) 0 (slice rfcKey 0 16))).toList
    r = 0x806d5400e52447c036d555408bed685 ∧
      KeepsCarries r ⟨0, 0⟩ (List.replicate 16 0xFF) true ∧
      KeepsCarries r (addBlock r ⟨0, 0⟩ (List.replicate 16 0xFF) true) [0xFF] false :=
  ⟨by decide +kernel, ((poly1305_keeps_carries rfcKey (List.replicate 17 0xFF) 0).1 (by decide)).2,
    (poly1305_keeps_carries rfcKey (List.replicate 17 0xFF) 1).2 (by decide) (by decide)⟩

end AxiomKernel.Aead
