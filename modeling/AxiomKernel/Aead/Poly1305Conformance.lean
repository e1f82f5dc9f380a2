import Mathlib
import AxiomKernel.Aead.Poly1305
import AxiomKernel.Aead.Rfc8439

/-!
# Poly1305 against RFC 8439

One value lemma for each stage of `add_block`, under the bounds the invariant
gives: the accumulator is at most `2^130 - 5` between blocks and `r` is below
`2^124`.  Together they say that a block is one step of the Horner evaluation
modulo the prime, with no carry lost.
-/

set_option autoImplicit false

namespace AxiomKernel.Aead

open ByteStrings MachineWords Chunking

def Accumulator.value (h : Accumulator) : Nat := h.h0.toNat * 2 ^ 128 + h.h1.toNat

/-! ## Loading -/

theorem andAssign_getElem (r : Bytes 16) {i j : Nat} (iLt : i < 16) (jLt : j < 16) (mask : U8) :
    (andAssign r i mask)[j] = if i = j then r[j] &&& mask else r[j] := by
  rw [andAssign, setIfInBounds_of_lt _ _ iLt, Vector.getElem_set, getElem!_pos r i iLt]
  split
  case isTrue same =>
    subst same
    rfl
  case isFalse => rfl

theorem clamp_toList (r : Bytes 16) :
    (clamp r).toList = List.zipWith (· &&& ·) r.toList
      [255, 255, 255, 15, 252, 255, 255, 15, 252, 255, 255, 15, 252, 255, 255, 15] := by
  have entries : ∀ i (bound : i < 16), (clamp r)[i] = r[i] &&&
      (#v[255, 255, 255, 15, 252, 255, 255, 15, 252, 255, 255, 15, 252, 255, 255, 15] : Bytes 16)[i] := by
    have whole : ∀ byte : U8, byte = byte &&& 255 := fun byte => (BitVec.and_allOnes).symm
    intro i bound
    have masked := fun (r : Bytes 16) {j : Nat} (jLt : j < 16) => andAssign_getElem r jLt bound
    rw [clamp, masked _ (by decide), masked _ (by decide), masked _ (by decide),
      masked _ (by decide), masked _ (by decide), masked _ (by decide), masked _ (by decide)]
    interval_cases i <;> first | rfl | exact whole _
  apply List.ext_getElem
  · simp
  · intro i leftBound rightBound
    have bound : i < 16 := by simpa using leftBound
    rw [Vector.getElem_toList, entries i bound, List.getElem_zipWith, Vector.getElem_toList]
    rfl

theorem clamp_leNat (r : Bytes 16) :
    leNat (clamp r).toList = Rfc8439.clamp (leNat r.toList) := by
  rw [clamp_toList, leNat_zipWith_and _ _ (by simp), Rfc8439.clamp]
  congr 1

theorem clamp_lt (r : Nat) : Rfc8439.clamp r < 2 ^ 124 :=
  Nat.lt_of_le_of_lt Nat.and_le_right (by norm_num)

theorem pow256_le {n : Nat} (short : n ≤ 16) : 256 ^ n ≤ 2 ^ 128 := by
  calc 256 ^ n ≤ 256 ^ 16 := Nat.pow_le_pow_right (by norm_num) short
    _ = 2 ^ 128 := by norm_num

theorem fromLeBytes_toNat (b : List U8) (short : b.length ≤ 16) :
    (fromLeBytes 128 b).toNat = leNat b := by
  rw [fromLeBytes, BitVec.toNat_ofNat,
    Nat.mod_eq_of_lt ((leNat_lt b).trans_le (pow256_le short))]

theorem loadLeU128_toNat (b : List U8) (short : b.length ≤ 16) :
    (loadLeU128 b).toNat = leNat b := by
  have padded : (b ++ List.replicate (16 - b.length) 0).length ≤ 16 := by
    rw [List.length_append, List.length_replicate]
    omega
  rw [loadLeU128, Nat.min_eq_left short, List.take_length, copyFromSlice_replicate _ _ short,
    fromLeBytes_toNat _ padded, leNat_append, leNat_replicate_zero, Nat.mul_zero, Nat.add_zero]

theorem asU64_toNat (flag : Bool) : (asU64 flag).toNat = flag.toNat := by
  cases flag <;> rfl

/-! ## The stages of `add_block` -/

theorem markerBit_toNat {length : Nat} (short : length < 16) :
    ((1 : U128) <<< (length * 8)).toNat = 2 ^ (8 * length) := by
  have below : 2 ^ (length * 8) < 2 ^ 128 := Nat.pow_lt_pow_right (by norm_num) (by omega)
  have oneWide : (1 : U128).toNat = 1 := rfl
  rw [BitVec.toNat_shiftLeft, Nat.shiftLeft_eq, Nat.mul_comm 8, oneWide, Nat.one_mul,
    Nat.mod_eq_of_lt below]

/-- Whatever the flag says, the marked block is the number of the RFC. -/
theorem markBlock_value (block : List U8) (full : Bool) (short : block.length ≤ 16) :
    (markBlock block full).1.toNat + (markBlock block full).2.toNat * 2 ^ 128 =
        Rfc8439.blockNumber block ∧
      (markBlock block full).2.toNat ≤ 1 := by
  have loaded := loadLeU128_toNat block short
  have one : (1 : U64).toNat = 1 := rfl
  rw [Rfc8439.blockNumber]
  by_cases whole : block.length = 16
  · -- the bit lies just above the low 128 bits
    have marked : markBlock block full = (loadLeU128 block, 1) := by
      cases full <;> simp [markBlock, whole]
    rw [marked, whole]
    simp only [loaded, one]
    omega
  · have partialBlock : block.length * 8 < 128 := by omega
    let bit : U128 := (1 : U128) <<< (block.length * 8)
    have marked : markBlock block full =
        ((overflowingAdd (loadLeU128 block) bit).1,
          asU64 (overflowingAdd (loadLeU128 block) bit).2) := by
      simp [markBlock, whole, partialBlock, bit]
    have bitValue : bit.toNat = 2 ^ (8 * block.length) := markerBit_toNat (by omega)
    have sum := overflowingAdd_toNat (loadLeU128 block) bit
    rw [loaded, bitValue] at sum
    rw [marked, asU64_toNat]
    exact ⟨sum, Bool.toNat_le _⟩

theorem addNumber_value (h : Accumulator) (n1 : U128) (carry : U64) (small : h.h0.toNat ≤ 3)
    (bit : carry.toNat ≤ 1) :
    (addNumber h n1 carry).value = h.value + (n1.toNat + carry.toNat * 2 ^ 128) ∧
      (addNumber h n1 carry).h0.toNat ≤ 5 := by
  have sum := overflowingAdd_toNat h.h1 n1
  have carryOut := Bool.toNat_le (overflowingAdd h.h1 n1).2
  simp only [addNumber, Accumulator.value, BitVec.toNat_add, asU64_toNat]
  omega

theorem h0_wide (h : Accumulator) : (h.h0.setWidth 128).toNat = h.h0.toNat := by
  have bound := h.h0.isLt
  rw [BitVec.toNat_setWidth, Nat.mod_eq_of_lt]
  omega

/-- The products `a * r` and `b * r` of the code. -/
theorem products_le {h : Accumulator} {r : U128} (small : h.h0.toNat ≤ 7)
    (clamped : r.toNat < 2 ^ 124) :
    h.h0.toNat * r.toNat ≤ 7 * 2 ^ 124 ∧ h.h1.toNat * r.toNat ≤ 2 ^ 128 * 2 ^ 124 :=
  ⟨Nat.mul_le_mul small clamped.le, Nat.mul_le_mul h.h1.isLt.le clamped.le⟩

/-- No carry of the wide product is lost. -/
theorem multiply_value (h : Accumulator) (r : U128) (small : h.h0.toNat ≤ 7)
    (clamped : r.toNat < 2 ^ 124) :
    (multiply h r).1.toNat + (multiply h r).2.toNat * 2 ^ 128 = h.value * r.toNat := by
  obtain ⟨arBound, brBound⟩ := products_le small clamped
  have split : h.value * r.toNat =
      h.h0.toNat * r.toNat * 2 ^ 128 + h.h1.toNat * r.toNat := by
    rw [Accumulator.value]
    ring
  rw [split]
  simp only [multiply, overflowingAdd, BitVec.toNat_add, BitVec.toNat_mul, h0_wide, mulHigh_toNat]
  generalize h.h0.toNat * r.toNat = ar at *
  generalize h.h1.toNat * r.toNat = br at *
  omega

theorem lowTwoBits_toNat (prodHi : U128) :
    ((prodHi &&& 3).setWidth 64).toNat = prodHi.toNat % 4 := by
  have three : (3 : U128).toNat = 2 ^ 2 - 1 := rfl
  rw [BitVec.toNat_setWidth, BitVec.toNat_and, three, Nat.and_two_pow_sub_one_eq_mod]
  omega

theorem foldProduct_value (prodLo prodHi : U128) (small : prodHi.toNat < 2 ^ 127) :
    (foldProduct prodLo prodHi).value =
      (prodLo.toNat + prodHi.toNat * 2 ^ 128) % 2 ^ 130 +
        5 * ((prodLo.toNat + prodHi.toNat * 2 ^ 128) / 2 ^ 130) := by
  have five : (5 : U128).toNat = 5 := rfl
  have folded : (prodHi >>> 2 * 5).toNat = prodHi.toNat / 4 * 5 := by
    rw [BitVec.toNat_mul, BitVec.toNat_ushiftRight, Nat.shiftRight_eq_div_pow, five]
    omega
  have sum := overflowingAdd_toNat prodLo (prodHi >>> 2 * 5)
  have carryOut := Bool.toNat_le (overflowingAdd prodLo (prodHi >>> 2 * 5)).2
  have loBound := prodLo.isLt
  have quotient : (prodLo.toNat + prodHi.toNat * 2 ^ 128) / 2 ^ 130 = prodHi.toNat / 4 := by omega
  have remainder : (prodLo.toNat + prodHi.toNat * 2 ^ 128) % 2 ^ 130 =
      prodHi.toNat % 4 * 2 ^ 128 + prodLo.toNat := by omega
  rw [folded] at sum
  rw [quotient, remainder]
  simp only [foldProduct, Accumulator.value, BitVec.toNat_add, asU64_toNat,
    lowTwoBits_toNat]
  omega

theorem prime_eq : Rfc8439.p = 3 * 2 ^ 128 + (2 ^ 128 - 5) := rfl

theorem h0_le_three {h : Accumulator} (bounded : h.value ≤ Rfc8439.p) : h.h0.toNat ≤ 3 := by
  rw [Accumulator.value, prime_eq] at bounded
  omega

/-- The condition of the source compares with `2^130 - 4`. -/
theorem exceedsPrime_iff (h : Accumulator) :
    (h.h0 ≥ 4 || (h.h0 == 3 && h.h1 ≥ max128 - 3)) = true ↔ Rfc8439.p < h.value := by
  have four : (4 : U64).toNat = 4 := rfl
  have three : (3 : U64).toNat = 3 := rfl
  have limit : (max128 - 3).toNat = 2 ^ 128 - 4 := rfl
  have h1Bound := h.h1.isLt
  simp only [Bool.or_eq_true, Bool.and_eq_true, decide_eq_true_eq, beq_iff_eq, ge_iff_le,
    BitVec.le_def, ← BitVec.toNat_inj, four, three, limit, Accumulator.value, prime_eq]
  omega

/-- The borrow of the low words fits into what the high word has above `3`. -/
theorem minusPrime_borrow {h : Accumulator} (large : Rfc8439.p ≤ h.value) :
    3 + (overflowingSub h.h1 (max128 - 4)).2.toNat ≤ h.h0.toNat ∧
      (overflowingSub h.h1 (max128 - 4)).1.toNat + (2 ^ 128 - 5) =
        h.h1.toNat + (overflowingSub h.h1 (max128 - 4)).2.toNat * 2 ^ 128 := by
  have prime : (max128 - 4).toNat = 2 ^ 128 - 5 := rfl
  have difference := overflowingSub_toNat h.h1 (max128 - 4)
  have borrowOut := Bool.toNat_le (overflowingSub h.h1 (max128 - 4)).2
  have h1Bound := h.h1.isLt
  have restBound := (overflowingSub h.h1 (max128 - 4)).1.isLt
  rw [prime] at difference
  rw [Accumulator.value, prime_eq] at large
  exact ⟨by omega, difference⟩

theorem minusPrime_value (h : Accumulator) (small : h.h0.toNat ≤ 4) (large : Rfc8439.p ≤ h.value) :
    Accumulator.value
        { h0 := h.h0 - 3 - asU64 (overflowingSub h.h1 (max128 - 4)).2
          h1 := (overflowingSub h.h1 (max128 - 4)).1 } =
      h.value - Rfc8439.p := by
  have three : (3 : U64).toNat = 3 := rfl
  obtain ⟨borrowFits, difference⟩ := minusPrime_borrow large
  rw [Accumulator.value, prime_eq] at large
  simp only [Accumulator.value, prime_eq, BitVec.toNat_sub, asU64_toNat, three]
  omega

theorem subtractPrime_value (h : Accumulator) (small : h.h0.toNat ≤ 4) :
    (subtractPrime h).value = if Rfc8439.p < h.value then h.value - Rfc8439.p else h.value := by
  rw [subtractPrime]
  simp only [exceedsPrime_iff]
  split
  case isTrue exceeds => exact minusPrime_value h small exceeds.le
  case isFalse => rfl

/-! ## Blocks -/

/-- The accumulator between blocks: at most the prime, and congruent to the
Horner value of the blocks so far. -/
structure Accumulates (h : Accumulator) (acc : Nat) : Prop where
  bounded : h.value ≤ Rfc8439.p
  congruent : h.value ≡ acc [MOD Rfc8439.p]

theorem blockNumber_lt (block : List U8) (short : block.length ≤ 16) :
    Rfc8439.blockNumber block < 2 ^ 129 := by
  have bytes := leNat_lt block
  have power : 2 ^ (8 * block.length) = 256 ^ block.length := by
    rw [Nat.pow_mul]
  have limit := pow256_le short
  rw [Rfc8439.blockNumber, power]
  omega

theorem fold_modEq (x : Nat) : x % 2 ^ 130 + 5 * (x / 2 ^ 130) ≡ x [MOD Rfc8439.p] := by
  have split : x = x % 2 ^ 130 + 5 * (x / 2 ^ 130) + Rfc8439.p * (x / 2 ^ 130) := by
    rw [Rfc8439.p]
    omega
  conv_rhs => rw [split]
  exact (Nat.ModEq.add_right_cancel' 0 (by simp [Nat.ModEq])).symm

/-- Multiplying by `r` and folding at bit 130 is multiplication modulo the prime, up to a little
more than one bit of it. -/
theorem multiplyFold_value {h : Accumulator} {r : U128} (small : h.value < 2 ^ 131)
    (clamped : r.toNat < 2 ^ 124) :
    (foldProduct (multiply h r).1 (multiply h r).2).value ≡ h.value * r.toNat [MOD Rfc8439.p] ∧
      (foldProduct (multiply h r).1 (multiply h r).2).value < 2 ^ 130 + 2 ^ 128 := by
  have product := multiply_value h r (by rw [Accumulator.value] at small; omega) clamped
  have productBound : h.value * r.toNat < 2 ^ 131 * 2 ^ 124 := Nat.mul_lt_mul'' small clamped
  have folded := foldProduct_value (multiply h r).1 (multiply h r).2 (by omega)
  have residue := fold_modEq (h.value * r.toNat)
  rw [product] at folded
  rw [← folded] at residue
  exact ⟨residue, by omega⟩

/-- The marked block is added to an accumulator that is at most the prime, with no carry lost. -/
theorem addMarked_value {h : Accumulator} (block : List U8) (full : Bool)
    (short : block.length ≤ 16) (bounded : h.value ≤ Rfc8439.p) :
    (addNumber h (markBlock block full).1 (markBlock block full).2).value =
        h.value + Rfc8439.blockNumber block ∧
      (addNumber h (markBlock block full).1 (markBlock block full).2).value < 2 ^ 131 := by
  obtain ⟨marked, bit⟩ := markBlock_value block full short
  have small : h.h0.toNat ≤ 3 := h0_le_three bounded
  obtain ⟨added, -⟩ := addNumber_value h (markBlock block full).1 (markBlock block full).2 small bit
  have number := blockNumber_lt block short
  rw [marked] at added
  rw [Rfc8439.p] at bounded
  exact ⟨added, by omega⟩

theorem addBlock_accumulates {r : U128} {h : Accumulator} {acc : Nat} (block : List U8)
    (full : Bool) (clamped : r.toNat < 2 ^ 124) (short : block.length ≤ 16)
    (held : Accumulates h acc) :
    Accumulates (addBlock r h block full)
      ((acc + Rfc8439.blockNumber block) * r.toNat % Rfc8439.p) := by
  obtain ⟨added, addedBound⟩ := addMarked_value block full short held.bounded
  obtain ⟨residue, nextBound⟩ := multiplyFold_value addedBound clamped
  rw [added] at residue
  have stages : addBlock r h block full =
      subtractPrime (foldProduct
        (multiply (addNumber h (markBlock block full).1 (markBlock block full).2) r).1
        (multiply (addNumber h (markBlock block full).1 (markBlock block full).2) r).2) := rfl
  rw [stages]
  generalize foldProduct _ _ = next at *
  have target : (h.value + Rfc8439.blockNumber block) * r.toNat ≡
      (acc + Rfc8439.blockNumber block) * r.toNat % Rfc8439.p [MOD Rfc8439.p] :=
    ((held.congruent.add_right _).mul_right _).trans (Nat.mod_modEq _ _).symm
  have reduced := subtractPrime_value next (by
    rw [Accumulator.value] at nextBound
    omega)
  constructor
  · rw [reduced, Rfc8439.p]
    split <;> omega
  · refine Nat.ModEq.trans ?_ (residue.trans target)
    rw [reduced]
    split
    case isTrue exceeds =>
      have restored : next.value - Rfc8439.p + Rfc8439.p = next.value := by omega
      conv_rhs => rw [← restored]
      simp [Nat.ModEq]
    case isFalse => rfl

/-- The specification's accumulator from any intermediate value on. -/
def hornerFrom (r acc : Nat) (msg : List U8) : Nat :=
  (chunks 16 msg).foldl (fun acc block => (acc + Rfc8439.blockNumber block) * r % Rfc8439.p) acc

/-- What follows the loop: the shorter last block, if any. -/
def addLastBlock (r : U128) (msg : List U8) (reached : Accumulator × Nat) : Accumulator :=
  if reached.2 < msg.length then addBlock r reached.1 (msg.drop reached.2) false else reached.1

theorem addFullBlocks_eq (r : U128) (msg : List U8) (fuel : Nat) (h : Accumulator) (offset : Nat) :
    addFullBlocks r msg fuel h offset =
      wholeBlocks 16 (addBlock r · · true) msg fuel h offset := by
  induction fuel generalizing h offset with
  | zero => rfl
  | succ fuel inductionHypothesis => rw [addFullBlocks, wholeBlocks, inductionHypothesis]

/-- The loop with enough fuel and the last block consume the whole message. -/
theorem addFullBlocks_accumulates {r : U128} (clamped : r.toNat < 2 ^ 124) (msg : List U8)
    (fuel : Nat) (h : Accumulator) (offset acc : Nat)
    (enough : msg.length < offset + 16 * (fuel + 1)) (held : Accumulates h acc) :
    Accumulates (addLastBlock r msg (addFullBlocks r msg fuel h offset))
      (hornerFrom r.toNat acc (msg.drop offset)) := by
  have blocks := lastBlock_wholeBlocks (by decide) (addBlock r) msg fuel h offset enough
  rw [addFullBlocks_eq, addLastBlock]
  rw [lastBlock] at blocks
  rw [blocks, hornerFrom]
  refine foldl_related Accumulates _ ?_ held
  intro block mem s t related
  exact addBlock_accumulates block _ clamped (length_le_of_mem_chunks mem) related

/-! ## The tag -/

/-- The closing condition compares with the prime itself. -/
theorem reachesPrime_iff (h : Accumulator) :
    (h.h0 > 3 || (h.h0 == 3 && h.h1 ≥ max128 - 4)) = true ↔ Rfc8439.p ≤ h.value := by
  have three : (3 : U64).toNat = 3 := rfl
  have limit : (max128 - 4).toNat = 2 ^ 128 - 5 := rfl
  have h1Bound := h.h1.isLt
  simp only [Bool.or_eq_true, Bool.and_eq_true, decide_eq_true_eq, beq_iff_eq, ge_iff_le,
    gt_iff_lt, BitVec.lt_def, BitVec.le_def, ← BitVec.toNat_inj, three, limit, Accumulator.value,
    prime_eq]
  omega

theorem reduceFully_value (h : Accumulator) (bounded : h.value < 2 ^ 130 + 2 ^ 128) :
    (reduceFully h).value = h.value % Rfc8439.p := by
  rw [reduceFully]
  simp only [reachesPrime_iff]
  split
  case isTrue reaches =>
    have small : h.h0.toNat ≤ 4 := by
      rw [Accumulator.value] at bounded
      omega
    have oneMore : h.value - Rfc8439.p < Rfc8439.p := by
      rw [Rfc8439.p] at reaches ⊢
      omega
    rw [minusPrime_value h small reaches, Nat.mod_eq_sub_mod reaches, Nat.mod_eq_of_lt oneMore]
  case isFalse below => rw [Nat.mod_eq_of_lt (not_le.mp below)]

theorem hornerFrom_lt (r acc : Nat) (msg : List U8) (bound : acc < Rfc8439.p) :
    hornerFrom r acc msg < Rfc8439.p := by
  rw [hornerFrom]
  generalize chunks 16 msg = blocks
  induction blocks generalizing acc with
  | nil => exact bound
  | cons block rest inductionHypothesis =>
      exact inductionHypothesis _ (Nat.mod_lt _ (by rw [Rfc8439.p]; norm_num))

/-- The closing reduction and addition, from any accumulator that stands for `acc`. -/
theorem tag_of_congruent {h : Accumulator} {acc : Nat} (bounded : h.value < 2 ^ 130 + 2 ^ 128)
    (congruent : h.value ≡ acc [MOD Rfc8439.p]) (reduced : acc < Rfc8439.p) (s : U128) :
    toLeBytes 16 (overflowingAdd (reduceFully h).h1 s).1 = leBytes 16 (acc + s.toNat) := by
  have residue : (reduceFully h).value = acc := by
    rw [reduceFully_value h bounded, congruent, Nat.mod_eq_of_lt reduced]
  rw [toLeBytes, ← residue]
  -- the high word and the last carry are multiples of `2^128`
  apply leBytes_congr
  have width : 256 ^ 16 = 2 ^ 128 := by norm_num
  rw [overflowingAdd, BitVec.toNat_add, width, Accumulator.value, Nat.ModEq]
  omega

theorem clampedKey_leNat (key : Bytes 32) :
    leNat (clamp (copyFromSlice (Vector.replicate 16 0) 0 (slice key 0 16))).toList =
      Rfc8439.clamp (leNat (key.toList.take 16)) := by
  have sliced : (slice key 0 16).length = 16 := slice_zero_length key (by decide)
  rw [clamp_leNat, copyFromSlice_replicate _ _ sliced.le, sliced, Nat.sub_self,
    List.replicate_zero, List.append_nil, slice_zero]

theorem secondHalf_leNat (key : Bytes 32) : leNat (slice key 16 16) = leNat (key.toList.drop 16) := by
  rw [slice, List.take_of_length_le (by simp)]

theorem loadR_toNat (key : Bytes 32) :
    (loadLeU128 (clamp (copyFromSlice (Vector.replicate 16 0) 0 (slice key 0 16))).toList).toNat =
      Rfc8439.clamp (leNat (key.toList.take 16)) := by
  rw [loadLeU128_toNat _ (by simp), clampedKey_leNat]

/-- `poly1305` computes the tag of RFC 8439, section 2.5. -/
theorem poly1305_eq_spec (key : Bytes 32) (msg : List U8) :
    (poly1305 key msg).toList = Rfc8439.poly1305 key.toList msg := by
  have loadedR := loadR_toNat key
  have loadedS : (loadLeU128 (slice key 16 16)).toNat = leNat (key.toList.drop 16) := by
    rw [loadLeU128_toNat _ (by simp [slice]), secondHalf_leNat]
  rw [poly1305]
  generalize loadLeU128 (clamp (copyFromSlice (Vector.replicate 16 0) 0 (slice key 0 16))).toList =
    r at *
  generalize loadLeU128 (slice key 16 16) = s at *
  have clamped : r.toNat < 2 ^ 124 := by
    rw [loadedR]
    exact clamp_lt _
  have start : Accumulates ⟨0, 0⟩ 0 := ⟨by decide, rfl⟩
  have accumulated := addFullBlocks_accumulates clamped msg msg.length ⟨0, 0⟩ 0 0 (by omega) start
  rw [List.drop_zero, addLastBlock] at accumulated
  generalize addFullBlocks r msg msg.length ⟨0, 0⟩ 0 = reached at *
  obtain ⟨h, offset⟩ := reached
  simp only [leArray_toList] at *
  generalize (if offset < msg.length then addBlock r h (msg.drop offset) false else h) = final at *
  have bounded : final.value < 2 ^ 130 + 2 ^ 128 :=
    accumulated.bounded.trans_lt (by rw [Rfc8439.p]; norm_num)
  have reduced := hornerFrom_lt r.toNat 0 msg (by rw [Rfc8439.p]; norm_num)
  have spec : hornerFrom r.toNat 0 msg = Rfc8439.accumulate r.toNat msg := rfl
  rw [Rfc8439.poly1305, ← loadedR, ← loadedS, ← spec]
  exact tag_of_congruent bounded accumulated.congruent reduced s

/-- The tag over the integers: one reduction of the whole polynomial, plus `s`, in 128 bits. -/
theorem poly1305_over_integers (key : Bytes 32) (msg : List U8) :
    (poly1305 key msg).toList =
      leBytes 16
        ((Rfc8439.horner (Rfc8439.clamp (leNat (key.toList.take 16))) msg % (2 ^ 130 - 5) +
          leNat (key.toList.drop 16)) % 2 ^ 128) := by
  have width : 256 ^ 16 = 2 ^ 128 := by norm_num
  rw [poly1305_eq_spec, Rfc8439.poly1305, Rfc8439.accumulate_eq_horner_mod]
  apply leBytes_congr
  rw [width]
  exact (Nat.mod_modEq _ _).symm

end AxiomKernel.Aead
