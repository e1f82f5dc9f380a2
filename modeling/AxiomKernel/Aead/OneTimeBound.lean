import Mathlib
import AxiomKernel.Lib.PolynomialHash
import AxiomKernel.Lib.Primality
import AxiomKernel.Aead.Poly1305Conformance

/-!
# The one-time bound of Poly1305

For a fixed `s`, two different messages and a tag difference, few clamped `r`
produce that difference.  The accumulators are values of the two message
polynomials in the field of `2^130 - 5` elements; a difference of tags modulo
`2^128` leaves eight differences of accumulators, and each is a polynomial
equation in `r`.
-/

set_option autoImplicit false

namespace AxiomKernel.Aead

open ByteStrings MachineWords Chunking PolynomialHash

instance : Fact (Nat.Prime Rfc8439.p) := ⟨Primality.prime_two_pow_130_sub_5⟩

/-! ## Keys -/

/-- The first key halves that `clamp` leaves alone, as numbers. -/
def clampedValues : Finset Nat :=
  (Finset.range (2 ^ 128)).filter fun r =>
    leNat (clamp (leArray 16 (BitVec.ofNat 128 r))).toList = r

def keyOf (r : Nat) (s : Bytes 16) : Bytes 32 :=
  leArray 16 (BitVec.ofNat 128 r) ++ s

theorem leNat_leArray (r : Nat) (bound : r < 2 ^ 128) :
    leNat (leArray 16 (BitVec.ofNat 128 r)).toList = r := by
  have width : 256 ^ 16 = 2 ^ 128 := by norm_num
  rw [leArray_toList, toLeBytes, leNat_leBytes, BitVec.toNat_ofNat, width, Nat.mod_mod,
    Nat.mod_eq_of_lt bound]

theorem mem_clampedValues_iff (r : Nat) :
    r ∈ clampedValues ↔ r < 2 ^ 128 ∧ Rfc8439.clamp r = r := by
  rw [clampedValues, Finset.mem_filter, Finset.mem_range]
  refine and_congr_right fun bound => ?_
  rw [clamp_leNat, leNat_leArray r bound]

/-- Clamping leaves 106 bits free. -/
theorem card_clampedValues : clampedValues.card = 2 ^ 106 := by
  have submasks : clampedValues =
      (Finset.range (2 ^ 128)).filter fun r => r &&& 0x0ffffffc0ffffffc0ffffffc0fffffff = r := by
    ext r
    rw [mem_clampedValues_iff, Finset.mem_filter, Finset.mem_range]
    rfl
  rw [submasks, card_submasks]
  decide +kernel

/-! ## Messages as coefficients -/

def coefficients (msg : List U8) : List (ZMod Rfc8439.p) :=
  (chunks 16 msg).map fun block => (Rfc8439.blockNumber block : ZMod Rfc8439.p)

theorem blockNumber_lt_prime (block : List U8) (short : block.length ≤ 16) :
    Rfc8439.blockNumber block < Rfc8439.p := by
  have bound := blockNumber_lt block short
  rw [Rfc8439.p]
  omega

/-- The marker shows the length, and the rest are the bytes. -/
theorem blockNumber_injective {left right : List U8}
    (same : Rfc8439.blockNumber left = Rfc8439.blockNumber right) : left = right := by
  have leftLt := leNat_lt left
  have rightLt := leNat_lt right
  have power : ∀ n, 2 ^ (8 * n) = 256 ^ n := fun n => by rw [Nat.pow_mul]
  rw [Rfc8439.blockNumber, Rfc8439.blockNumber, power, power] at same
  -- the longer block would have the larger number
  have ordered : ∀ m n : Nat, m < n → 2 * 256 ^ m ≤ 256 ^ n := by
    intro m n less
    calc 2 * 256 ^ m ≤ 256 * 256 ^ m := Nat.mul_le_mul_right _ (by norm_num)
      _ = 256 ^ (m + 1) := by rw [Nat.pow_succ, Nat.mul_comm]
      _ ≤ 256 ^ n := Nat.pow_le_pow_right (by norm_num) less
  have sameLength : left.length = right.length := by
    rcases lt_trichotomy left.length right.length with less | equal | greater
    · have := ordered _ _ less
      omega
    · exact equal
    · have := ordered _ _ greater
      omega
  apply leNat_injective sameLength
  rw [sameLength] at same
  omega

theorem cast_injective {left right : Nat} (leftLt : left < Rfc8439.p) (rightLt : right < Rfc8439.p)
    (same : (left : ZMod Rfc8439.p) = right) : left = right := by
  rwa [ZMod.natCast_eq_natCast_iff, Nat.ModEq, Nat.mod_eq_of_lt leftLt,
    Nat.mod_eq_of_lt rightLt] at same

theorem coefficients_ne_zero (msg : List U8) : ∀ c ∈ coefficients msg, c ≠ 0 := by
  intro c member zero
  obtain ⟨block, isChunk, rfl⟩ := List.mem_map.mp member
  have bound := blockNumber_lt_prime block (length_le_of_mem_chunks isChunk)
  have isZero : Rfc8439.blockNumber block = 0 :=
    cast_injective bound (by rw [Rfc8439.p]; norm_num) (by rw [zero, Nat.cast_zero])
  have positive : 0 < 2 ^ (8 * block.length) := by positivity
  rw [Rfc8439.blockNumber] at isZero
  omega

theorem coefficients_injective {left right : List U8}
    (same : coefficients left = coefficients right) : left = right := by
  have sameChunks : chunks 16 left = chunks 16 right := by
    apply List.ext_getElem
    · simpa [coefficients] using congrArg List.length same
    · intro i leftBound rightBound
      have entry := congrArg (fun cs => cs[i]?) same
      simp only [coefficients, List.getElem?_map, List.getElem?_eq_getElem leftBound,
        List.getElem?_eq_getElem rightBound, Option.map_some, Option.some.injEq] at entry
      have leftShort := length_le_of_mem_chunks (List.getElem_mem leftBound)
      have rightShort := length_le_of_mem_chunks (List.getElem_mem rightBound)
      exact blockNumber_injective (cast_injective (blockNumber_lt_prime _ leftShort)
        (blockNumber_lt_prime _ rightShort) entry)
  rw [← flatten_chunks (by norm_num : 0 < 16) left, sameChunks, flatten_chunks (by norm_num)]

theorem accumulate_eq_horner (r : Nat) (msg : List U8) :
    ((Rfc8439.accumulate r msg : Nat) : ZMod Rfc8439.p) =
      horner (r : ZMod Rfc8439.p) (coefficients msg) := by
  rw [Rfc8439.accumulate, horner, coefficients]
  generalize chunks 16 msg = blocks
  have general : ∀ acc : Nat,
      ((blocks.foldl (fun acc block => (acc + Rfc8439.blockNumber block) * r % Rfc8439.p) acc : Nat) :
        ZMod Rfc8439.p) =
      (blocks.map fun block => (Rfc8439.blockNumber block : ZMod Rfc8439.p)).foldl
        (fun acc c => (acc + c) * (r : ZMod Rfc8439.p)) (acc : ZMod Rfc8439.p) := by
    induction blocks with
    | nil => simp
    | cons block rest inductionHypothesis =>
        intro acc
        rw [List.foldl_cons, inductionHypothesis, List.map_cons, List.foldl_cons, ZMod.natCast_mod,
          Nat.cast_mul, Nat.cast_add]
  simpa using general 0

/-! ## Tags -/

def tagNumber (tag : Bytes 16) : U128 := fromLeBytes 128 tag.toList

theorem accumulate_lt (r : Nat) (msg : List U8) : Rfc8439.accumulate r msg < Rfc8439.p :=
  hornerFrom_lt r 0 msg (by rw [Rfc8439.p]; norm_num)

theorem tagNumber_poly1305 {r : Nat} (clamped : r ∈ clampedValues) (s : Bytes 16) (msg : List U8) :
    tagNumber (poly1305 (keyOf r s) msg) =
      BitVec.ofNat 128 (Rfc8439.accumulate r msg + leNat s.toList) := by
  obtain ⟨bound, fixed⟩ := (mem_clampedValues_iff r).mp clamped
  have first : (keyOf r s).toList.take 16 = (leArray 16 (BitVec.ofNat 128 r)).toList := by
    rw [keyOf, Vector.toList_append, List.take_left' (by simp)]
  have second : (keyOf r s).toList.drop 16 = s.toList := by
    rw [keyOf, Vector.toList_append, List.drop_left' (by simp)]
  rw [tagNumber, poly1305_eq_spec, Rfc8439.poly1305, first, second, leNat_leArray r bound, fixed,
    fromLeBytes, leNat_leBytes]
  apply BitVec.eq_of_toNat_eq
  have width : 256 ^ 16 = 2 ^ 128 := by norm_num
  rw [BitVec.toNat_ofNat, BitVec.toNat_ofNat, width, Nat.mod_mod]

/-- The accumulator differences that give one tag difference. -/
def candidates (d : U128) : Finset Int :=
  ({-4, -3, -2, -1, 0, 1, 2, 3} : Finset Int).image fun k => (d.toNat : Int) + k * 2 ^ 128

theorem card_candidates_le (d : U128) : (candidates d).card ≤ 8 :=
  Finset.card_image_le.trans (by decide)

theorem accumulate_difference_mem {r : Nat} (clamped : r ∈ clampedValues) (s : Bytes 16)
    (m m' : List U8) (d : U128)
    (differ : tagNumber (poly1305 (keyOf r s) m) - tagNumber (poly1305 (keyOf r s) m') = d) :
    (Rfc8439.accumulate r m : Int) - Rfc8439.accumulate r m' ∈ candidates d := by
  have bound := accumulate_lt r m
  have bound' := accumulate_lt r m'
  have numbers := congrArg BitVec.toNat differ
  rw [tagNumber_poly1305 clamped, tagNumber_poly1305 clamped, BitVec.toNat_sub, BitVec.toNat_ofNat,
    BitVec.toNat_ofNat] at numbers
  rw [Rfc8439.p] at bound bound'
  rw [candidates, Finset.mem_image]
  generalize Rfc8439.accumulate r m = acc at *
  generalize Rfc8439.accumulate r m' = acc' at *
  have dLt := d.isLt
  refine ⟨((acc : Int) - acc' - d.toNat) / 2 ^ 128, ?_, by omega⟩
  have lower : -4 ≤ ((acc : Int) - acc' - d.toNat) / 2 ^ 128 := by omega
  have upper : ((acc : Int) - acc' - d.toNat) / 2 ^ 128 ≤ 3 := by omega
  generalize ((acc : Int) - acc' - d.toNat) / 2 ^ 128 = k at *
  simp only [Finset.mem_insert, Finset.mem_singleton]
  omega

/-- One accumulator difference is a polynomial equation in `r`. -/
theorem card_accumulate_difference_le (m m' : List U8) (distinct : m ≠ m') (c : Int) :
    (clampedValues.filter fun r =>
        (Rfc8439.accumulate r m : Int) - Rfc8439.accumulate r m' = c).card ≤
      max (blockCount 16 m.length) (blockCount 16 m'.length) := by
  -- clamped values are below the prime, so distinct in the field
  have small : ∀ r ∈ clampedValues, r < Rfc8439.p := by
    intro r member
    have bound := ((mem_clampedValues_iff r).mp member).1
    rw [Rfc8439.p]
    omega
  rw [← Finset.card_image_of_injOn (f := fun r : Nat => (r : ZMod Rfc8439.p))]
  · have points := card_difference_le (coefficients_ne_zero m) (coefficients_ne_zero m')
      (fun same => distinct (coefficients_injective same)) (c : ZMod Rfc8439.p)
      ((clampedValues.filter fun r => (Rfc8439.accumulate r m : Int) - Rfc8439.accumulate r m' = c).image
        fun r : Nat => (r : ZMod Rfc8439.p)) ?_
    · simpa [coefficients, chunks_length] using points
    · intro x member
      obtain ⟨r, isMember, rfl⟩ := Finset.mem_image.mp member
      have difference := (Finset.mem_filter.mp isMember).2
      rw [← accumulate_eq_horner, ← accumulate_eq_horner, ← difference]
      push_cast
      rfl
  · intro left leftMember right rightMember same
    exact cast_injective (small left (Finset.mem_filter.mp leftMember).1)
      (small right (Finset.mem_filter.mp rightMember).1) same

/-- For every `s`, two distinct messages of at most `L` bytes and a tag
difference, at most `8⌈L/16⌉` of the `2^106` clamped values produce it. -/
theorem poly1305_almost_delta_universal (s : Bytes 16) (m m' : List U8) (L : Nat)
    (distinct : m ≠ m') (bound : m.length ≤ L) (bound' : m'.length ≤ L) (d : U128) :
    (clampedValues.filter fun r =>
        tagNumber (poly1305 (keyOf r s) m) - tagNumber (poly1305 (keyOf r s) m') = d).card ≤
      8 * ((L + 15) / 16) ∧
    clampedValues.card = 2 ^ 106 := by
  refine ⟨?_, card_clampedValues⟩
  have covered : (clampedValues.filter fun r =>
      tagNumber (poly1305 (keyOf r s) m) - tagNumber (poly1305 (keyOf r s) m') = d) ⊆
      (candidates d).biUnion fun c => clampedValues.filter fun r =>
        (Rfc8439.accumulate r m : Int) - Rfc8439.accumulate r m' = c := by
    intro r member
    rw [Finset.mem_filter] at member
    rw [Finset.mem_biUnion]
    refine ⟨_, accumulate_difference_mem member.1 s m m' d member.2, ?_⟩
    rw [Finset.mem_filter]
    exact ⟨member.1, rfl⟩
  have blocks : max (blockCount 16 m.length) (blockCount 16 m'.length) ≤ (L + 15) / 16 :=
    max_le (blockCount_mono 16 bound) (blockCount_mono 16 bound')
  have perCandidate := Finset.card_biUnion_le_card_mul (candidates d)
    (fun c => clampedValues.filter fun r =>
      (Rfc8439.accumulate r m : Int) - Rfc8439.accumulate r m' = c) ((L + 15) / 16)
    fun c _ => (card_accumulate_difference_le m m' distinct c).trans blocks
  exact (Finset.card_le_card covered).trans
    (perCandidate.trans (Nat.mul_le_mul_right _ (card_candidates_le d)))

theorem poly1305_almost_delta_universal_byte :
    (clampedValues.filter fun r =>
        tagNumber (poly1305 (keyOf r (Vector.replicate 16 0)) []) -
          tagNumber (poly1305 (keyOf r (Vector.replicate 16 0)) [0x41]) = 0).card ≤ 8 :=
  (poly1305_almost_delta_universal (Vector.replicate 16 0) [] [0x41] 1 (by decide) (by decide)
    (by decide) 0).1

end AxiomKernel.Aead
