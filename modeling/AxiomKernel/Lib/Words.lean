import Mathlib

/-!
# Machine words

Checked and overflowing arithmetic of bit vectors, with the carry stated over
the numbers, the larger and the smaller of two words, sums that wrap or stop the
program, the high half of a product by the schoolbook method on halves (wrapping
and checked), how
many numbers a bit mask leaves, and rounding down by clearing low bits.
-/

set_option autoImplicit false

namespace MachineWords

def checkedAdd {w : Nat} (left right : BitVec w) : Option (BitVec w) :=
  if left.toNat + right.toNat < 2 ^ w then some (left + right) else none

theorem checkedAdd_eq_some_iff {w : Nat} (left right sum : BitVec w) :
    checkedAdd left right = some sum ↔ sum.toNat = left.toNat + right.toNat := by
  rw [checkedAdd]
  split
  case isTrue fits =>
    rw [Option.some.injEq, ← BitVec.toNat_inj, BitVec.toNat_add, Nat.mod_eq_of_lt fits]
    exact eq_comm
  case isFalse wraps =>
    have bound := sum.isLt
    constructor
    · intro impossible
      simp at impossible
    · intro impossible
      omega

theorem checkedAdd_of_lt {w : Nat} {left right : BitVec w} (fits : left.toNat + right.toNat < 2 ^ w) :
    checkedAdd left right = some (left + right) :=
  if_pos fits

theorem exists_checkedAdd {w : Nat} {left right : BitVec w}
    (fits : left.toNat + right.toNat < 2 ^ w) :
    ∃ sum, checkedAdd left right = some sum ∧ sum.toNat = left.toNat + right.toNat := by
  have added := checkedAdd_of_lt fits
  exact ⟨_, added, (checkedAdd_eq_some_iff _ _ _).mp added⟩

theorem checkedAdd_ofNat {w left right : Nat} (leftLt : left < 2 ^ w) (rightLt : right < 2 ^ w) :
    checkedAdd (BitVec.ofNat w left) (BitVec.ofNat w right) =
      if left + right < 2 ^ w then some (BitVec.ofNat w (left + right)) else none := by
  rw [checkedAdd, BitVec.toNat_ofNat, BitVec.toNat_ofNat, Nat.mod_eq_of_lt leftLt,
    Nat.mod_eq_of_lt rightLt, BitVec.ofNat_add]

theorem toNat_ite_max {w : Nat} (left right : BitVec w) :
    (if left ≤ right then right else left).toNat = max left.toNat right.toNat := by
  by_cases below : left ≤ right
  · rw [if_pos below, max_eq_right (BitVec.le_def.mp below)]
  · rw [if_neg below, max_eq_left (le_of_not_ge (mt BitVec.le_def.mpr below))]

theorem toNat_ite_min {w : Nat} (left right : BitVec w) :
    (if left ≤ right then left else right).toNat = min left.toNat right.toNat := by
  by_cases below : left ≤ right
  · rw [if_pos below, min_eq_left (BitVec.le_def.mp below)]
  · rw [if_neg below, min_eq_right (le_of_not_ge (mt BitVec.le_def.mpr below))]

/-- How `+` treats a sum that does not fit: it wraps, or it is checked and stops the program. -/
inductive Arithmetic where
  | wrapping
  | checked
  deriving DecidableEq

def Arithmetic.add {w : Nat} : Arithmetic → BitVec w → BitVec w → Option (BitVec w)
  | .wrapping, left, right => some (left + right)
  | .checked, left, right => checkedAdd left right

theorem Arithmetic.add_toNat_le {w : Nat} {mode : Arithmetic} {left right sum : BitVec w}
    (added : mode.add left right = some sum) : sum.toNat ≤ left.toNat + right.toNat := by
  cases mode with
  | wrapping =>
      obtain rfl := Option.some.inj added
      rw [BitVec.toNat_add]
      exact Nat.mod_le _ _
  | checked => exact ((checkedAdd_eq_some_iff left right sum).mp added).le

theorem Arithmetic.add_of_lt {w : Nat} (mode : Arithmetic) {left right : BitVec w}
    (fits : left.toNat + right.toNat < 2 ^ w) : mode.add left right = some (left + right) := by
  cases mode with
  | wrapping => rfl
  | checked => exact checkedAdd_of_lt fits

theorem Arithmetic.eq_add {w : Nat} {mode : Arithmetic} {left right sum : BitVec w}
    (added : mode.add left right = some sum) : sum = left + right := by
  cases mode with
  | wrapping => exact (Option.some.inj added).symm
  | checked =>
      have exact := (checkedAdd_eq_some_iff left right sum).mp added
      have bound := sum.isLt
      rw [← BitVec.toNat_inj, BitVec.toNat_add, ← exact, Nat.mod_eq_of_lt bound]

def checkedMul {w : Nat} (left right : BitVec w) : Option (BitVec w) :=
  if left.toNat * right.toNat < 2 ^ w then some (left * right) else none

theorem checkedMul_ofNat {w left right : Nat} (fits : left * right < 2 ^ w) (leftLt : left < 2 ^ w)
    (rightLt : right < 2 ^ w) :
    checkedMul (BitVec.ofNat w left) (BitVec.ofNat w right) = some (BitVec.ofNat w (left * right)) := by
  rw [checkedMul, BitVec.toNat_ofNat, BitVec.toNat_ofNat, Nat.mod_eq_of_lt leftLt,
    Nat.mod_eq_of_lt rightLt, if_pos fits, BitVec.ofNat_mul]

theorem checkedMul_of_lt {w : Nat} {left right : BitVec w}
    (fits : left.toNat * right.toNat < 2 ^ w) : checkedMul left right = some (left * right) :=
  if_pos fits

def checkedSub {w : Nat} (left right : BitVec w) : Option (BitVec w) :=
  if right.toNat ≤ left.toNat then some (left - right) else none

theorem checkedSub_of_le {w : Nat} {left right : BitVec w} (fits : right.toNat ≤ left.toNat) :
    checkedSub left right = some (left - right) :=
  if_pos fits

/-- `overflowing_add`: the wrapped sum and whether it wrapped. -/
def overflowingAdd {w : Nat} (left right : BitVec w) : BitVec w × Bool :=
  (left + right, decide (2 ^ w ≤ left.toNat + right.toNat))

/-- `overflowing_sub`: the wrapped difference and whether it borrowed. -/
def overflowingSub {w : Nat} (left right : BitVec w) : BitVec w × Bool :=
  (left - right, decide (left.toNat < right.toNat))

theorem overflowingAdd_toNat {w : Nat} (left right : BitVec w) :
    (overflowingAdd left right).1.toNat + (overflowingAdd left right).2.toNat * 2 ^ w =
      left.toNat + right.toNat := by
  have leftLt := left.isLt
  have rightLt := right.isLt
  rw [overflowingAdd, BitVec.toNat_add]
  by_cases wraps : 2 ^ w ≤ left.toNat + right.toNat
  · rw [decide_eq_true wraps, Bool.toNat_true, Nat.one_mul, Nat.mod_eq_sub_mod wraps,
      Nat.mod_eq_of_lt (by omega)]
    omega
  · rw [decide_eq_false wraps, Bool.toNat_false, Nat.zero_mul, Nat.mod_eq_of_lt (by omega)]
    omega

theorem overflowingSub_toNat {w : Nat} (left right : BitVec w) :
    (overflowingSub left right).1.toNat + right.toNat =
      left.toNat + (overflowingSub left right).2.toNat * 2 ^ w := by
  have leftLt := left.isLt
  have rightLt := right.isLt
  rw [overflowingSub, BitVec.toNat_sub]
  by_cases borrows : left.toNat < right.toNat
  · rw [decide_eq_true borrows, Bool.toNat_true, Nat.one_mul, Nat.mod_eq_of_lt (by omega)]
    omega
  · rw [decide_eq_false borrows, Bool.toNat_false, Nat.zero_mul, Nat.mod_eq_sub_mod (by omega),
      Nat.mod_eq_of_lt (by omega)]
    omega

/-! ## The high half of a product -/

/-- The high 128 bits of a product, from four products of 64-bit halves. -/
def mulHigh (b r : BitVec 128) : BitVec 128 :=
  let blo := b.setWidth 64
  let bhi := (b >>> 64).setWidth 64
  let rlo := r.setWidth 64
  let rhi := (r >>> 64).setWidth 64
  let loLo := blo.setWidth 128 * rlo.setWidth 128
  let loHi := blo.setWidth 128 * rhi.setWidth 128
  let hiLo := bhi.setWidth 128 * rlo.setWidth 128
  let hiHi := bhi.setWidth 128 * rhi.setWidth 128
  let mid := (loLo >>> 64) + (loHi &&& 0xFFFFFFFFFFFFFFFF) + (hiLo &&& 0xFFFFFFFFFFFFFFFF)
  (mid >>> 64) + (loHi >>> 64) + (hiLo >>> 64) + hiHi

/-- Schoolbook multiplication of two-digit numbers in base `2^64`. -/
theorem mulHigh_digits (b0 b1 r0 r1 : Nat) :
    (b1 * 2 ^ 64 + b0) * (r1 * 2 ^ 64 + r0) / 2 ^ 128 =
      (b0 * r0 / 2 ^ 64 + b0 * r1 % 2 ^ 64 + b1 * r0 % 2 ^ 64) / 2 ^ 64 + b0 * r1 / 2 ^ 64 +
        b1 * r0 / 2 ^ 64 + b1 * r1 := by
  have expanded : (b1 * 2 ^ 64 + b0) * (r1 * 2 ^ 64 + r0) =
      b1 * r1 * 2 ^ 128 + (b0 * r1 + b1 * r0) * 2 ^ 64 + b0 * r0 := by ring
  rw [expanded]
  generalize b0 * r0 = loLo
  generalize b0 * r1 = loHi
  generalize b1 * r0 = hiLo
  generalize b1 * r1 = hiHi
  omega

theorem low_toNat (b : BitVec 128) :
    ((b.setWidth 64).setWidth 128).toNat = b.toNat % 2 ^ 64 := by
  simp only [BitVec.toNat_setWidth]
  omega

theorem high_toNat (b : BitVec 128) :
    (((b >>> 64).setWidth 64).setWidth 128).toNat = b.toNat / 2 ^ 64 := by
  have bound := b.isLt
  simp only [BitVec.toNat_setWidth, BitVec.toNat_ushiftRight, Nat.shiftRight_eq_div_pow]
  omega

theorem low_lt (b : BitVec 128) : ((b.setWidth 64).setWidth 128).toNat < 2 ^ 64 := by
  rw [low_toNat]
  exact Nat.mod_lt _ (by norm_num)

theorem high_lt (b : BitVec 128) : (((b >>> 64).setWidth 64).setWidth 128).toNat < 2 ^ 64 := by
  have bound := b.isLt
  rw [high_toNat]
  omega

theorem digitProduct_lt {x y : Nat} (xLt : x < 2 ^ 64) (yLt : y < 2 ^ 64) :
    x * y < 2 ^ 128 := by
  calc x * y < 2 ^ 64 * 2 ^ 64 := Nat.mul_lt_mul'' xLt yLt
    _ = 2 ^ 128 := by norm_num

theorem halfProduct_toNat {x y : BitVec 128} (xLt : x.toNat < 2 ^ 64) (yLt : y.toNat < 2 ^ 64) :
    (x * y).toNat = x.toNat * y.toNat := by
  rw [BitVec.toNat_mul, Nat.mod_eq_of_lt (digitProduct_lt xLt yLt)]

theorem lowMask_toNat (x : BitVec 128) :
    (x &&& 0xFFFFFFFFFFFFFFFF).toNat = x.toNat % 2 ^ 64 := by
  have mask : (0xFFFFFFFFFFFFFFFF : BitVec 128).toNat = 2 ^ 64 - 1 := rfl
  rw [BitVec.toNat_and, mask, Nat.and_two_pow_sub_one_eq_mod]

theorem highHalf_lt (b r : BitVec 128) : b.toNat * r.toNat / 2 ^ 128 < 2 ^ 128 := by
  rw [Nat.div_lt_iff_lt_mul (by norm_num)]
  exact Nat.mul_lt_mul'' b.isLt r.isLt

theorem mulHigh_toNat (b r : BitVec 128) :
    (mulHigh b r).toNat = b.toNat * r.toNat / 2 ^ 128 := by
  have b0Lt : b.toNat % 2 ^ 64 < 2 ^ 64 := Nat.mod_lt _ (by norm_num)
  have r0Lt : r.toNat % 2 ^ 64 < 2 ^ 64 := Nat.mod_lt _ (by norm_num)
  have digits := mulHigh_digits (b.toNat % 2 ^ 64) (b.toNat / 2 ^ 64) (r.toNat % 2 ^ 64)
    (r.toNat / 2 ^ 64)
  rw [Nat.div_add_mod', Nat.div_add_mod'] at digits
  -- the sums do not wrap, since the whole is below `2^128`
  have whole := highHalf_lt b r
  simp only [mulHigh, BitVec.toNat_add, BitVec.toNat_ushiftRight, Nat.shiftRight_eq_div_pow,
    lowMask_toNat]
  rw [halfProduct_toNat (low_lt b) (low_lt r), halfProduct_toNat (low_lt b) (high_lt r),
    halfProduct_toNat (high_lt b) (low_lt r), halfProduct_toNat (high_lt b) (high_lt r),
    low_toNat, low_toNat, high_toNat, high_toNat]
  have loLoLt := digitProduct_lt b0Lt r0Lt
  generalize b.toNat * r.toNat / 2 ^ 128 = quotient at *
  generalize b.toNat % 2 ^ 64 * (r.toNat % 2 ^ 64) = loLo at *
  generalize b.toNat % 2 ^ 64 * (r.toNat / 2 ^ 64) = loHi at *
  generalize b.toNat / 2 ^ 64 * (r.toNat % 2 ^ 64) = hiLo at *
  generalize b.toNat / 2 ^ 64 * (r.toNat / 2 ^ 64) = hiHi at *
  omega

/-- `mulHigh` with every sum and product checked. -/
def checkedMulHigh (b r : BitVec 128) : Option (BitVec 128) := do
  let blo := b.setWidth 64
  let bhi := (b >>> 64).setWidth 64
  let rlo := r.setWidth 64
  let rhi := (r >>> 64).setWidth 64
  let loLo ← checkedMul (blo.setWidth 128) (rlo.setWidth 128)
  let loHi ← checkedMul (blo.setWidth 128) (rhi.setWidth 128)
  let hiLo ← checkedMul (bhi.setWidth 128) (rlo.setWidth 128)
  let hiHi ← checkedMul (bhi.setWidth 128) (rhi.setWidth 128)
  let mid ← checkedAdd (loLo >>> 64) (loHi &&& 0xFFFFFFFFFFFFFFFF)
  let mid ← checkedAdd mid (hiLo &&& 0xFFFFFFFFFFFFFFFF)
  let high ← checkedAdd (mid >>> 64) (loHi >>> 64)
  let high ← checkedAdd high (hiLo >>> 64)
  checkedAdd high hiHi

/-- No product and no partial sum of the schoolbook method wraps. -/
theorem checkedMulHigh_eq (b r : BitVec 128) : checkedMulHigh b r = some (mulHigh b r) := by
  have whole := highHalf_lt b r
  have digits := mulHigh_digits (b.toNat % 2 ^ 64) (b.toNat / 2 ^ 64) (r.toNat % 2 ^ 64)
    (r.toNat / 2 ^ 64)
  rw [Nat.div_add_mod', Nat.div_add_mod'] at digits
  rw [digits, ← low_toNat, ← low_toNat, ← high_toNat, ← high_toNat,
    ← halfProduct_toNat (low_lt b) (low_lt r), ← halfProduct_toNat (low_lt b) (high_lt r),
    ← halfProduct_toNat (high_lt b) (low_lt r), ← halfProduct_toNat (high_lt b) (high_lt r)] at whole
  rw [checkedMulHigh, mulHigh, checkedMul_of_lt (digitProduct_lt (low_lt b) (low_lt r)),
    checkedMul_of_lt (digitProduct_lt (low_lt b) (high_lt r)),
    checkedMul_of_lt (digitProduct_lt (high_lt b) (low_lt r)),
    checkedMul_of_lt (digitProduct_lt (high_lt b) (high_lt r))]
  simp only [Option.bind_eq_bind, Option.bind_some]
  generalize (b.setWidth 64).setWidth 128 * (r.setWidth 64).setWidth 128 = loLo at *
  generalize (b.setWidth 64).setWidth 128 * ((r >>> 64).setWidth 64).setWidth 128 = loHi at *
  generalize ((b >>> 64).setWidth 64).setWidth 128 * (r.setWidth 64).setWidth 128 = hiLo at *
  generalize ((b >>> 64).setWidth 64).setWidth 128 * ((r >>> 64).setWidth 64).setWidth 128 = hiHi at *
  have loLoLt := loLo.isLt
  rw [checkedAdd_of_lt, Option.bind_some, checkedAdd_of_lt, Option.bind_some, checkedAdd_of_lt,
    Option.bind_some, checkedAdd_of_lt, Option.bind_some, checkedAdd_of_lt]
  -- each partial sum is at most the high half
  all_goals
    simp only [BitVec.toNat_add, BitVec.toNat_ushiftRight, Nat.shiftRight_eq_div_pow, lowMask_toNat]
    omega

/-! ## Counting masked numbers -/

/-- The number of numbers below `2^k` whose bits are all bits of `mask`. -/
def submaskCount : Nat → Nat → Nat
  | 0, _ => 1
  | k + 1, mask => (1 + mask % 2) * submaskCount k (mask / 2)

theorem and_eq_self_iff (n mask : Nat) :
    n &&& mask = n ↔ n % 2 < 1 + mask % 2 ∧ n / 2 &&& mask / 2 = n / 2 := by
  have low : (n &&& mask) % 2 = 1 ↔ n % 2 = 1 ∧ mask % 2 = 1 := Nat.and_mod_two_eq_one
  have high : (n &&& mask) / 2 = n / 2 &&& mask / 2 := Nat.and_div_two
  constructor
  · intro contained
    rw [contained] at low high
    omega
  · rintro ⟨lowBit, rest⟩
    rw [rest] at high
    omega

theorem card_submasks (k mask : Nat) :
    ((Finset.range (2 ^ k)).filter fun n => n &&& mask = n).card = submaskCount k mask := by
  induction k generalizing mask with
  | zero => simp [submaskCount, Finset.filter_singleton]
  | succ k inductionHypothesis =>
      rw [submaskCount, ← inductionHypothesis, ← Finset.card_range (1 + mask % 2),
        ← Finset.card_product]
      refine Finset.card_nbij' (fun n => (n % 2, n / 2)) (fun digits => 2 * digits.2 + digits.1)
        ?_ ?_ ?_ ?_
      · intro n member
        simp only [Finset.coe_filter, Finset.mem_range, Set.mem_ofPred_eq, and_eq_self_iff n mask,
          Nat.pow_succ] at member
        simp only [Finset.coe_product, Set.mem_prod, Finset.mem_coe, Finset.mem_range,
          Finset.mem_filter]
        exact ⟨member.2.1, by omega, member.2.2⟩
      · rintro ⟨bit, rest⟩ member
        simp only [Finset.coe_product, Set.mem_prod, Finset.mem_coe, Finset.mem_range,
          Finset.mem_filter] at member
        have restEq : (2 * rest + bit) / 2 = rest := by omega
        simp only [Finset.coe_filter, Finset.mem_range, Set.mem_ofPred_eq,
          and_eq_self_iff (2 * rest + bit) mask, Nat.pow_succ, restEq]
        exact ⟨by omega, by omega, member.2.2⟩
      · intro n _
        exact Nat.div_add_mod n 2
      · rintro ⟨bit, rest⟩ member
        simp only [Finset.coe_product, Set.mem_prod, Finset.mem_coe, Finset.mem_range] at member
        simp only [Prod.mk.injEq]
        omega

/-- Clearing the low `bits` bits rounds down to a multiple of `2 ^ bits`. -/
theorem and_not_lowMask_toNat {w : Nat} (word : BitVec w) (bits : Nat) :
    (word &&& ~~~BitVec.ofNat w (2 ^ bits - 1)).toNat = word.toNat / 2 ^ bits * 2 ^ bits := by
  have shifted : word &&& ~~~BitVec.ofNat w (2 ^ bits - 1) = (word >>> bits) <<< bits := by
    apply BitVec.eq_of_getLsbD_eq
    intro i bound
    simp only [BitVec.getLsbD_and, BitVec.getLsbD_not, BitVec.getLsbD_ofNat, bound, decide_true,
      Nat.testBit_two_pow_sub_one, Bool.true_and, BitVec.getLsbD_shiftLeft, BitVec.getLsbD_ushiftRight]
    by_cases low : i < bits
    · simp [low]
    · have position : bits + (i - bits) = i := by omega
      simp [low, position]
  have below : word.toNat / 2 ^ bits * 2 ^ bits < 2 ^ w :=
    lt_of_le_of_lt (Nat.div_mul_le_self _ _) word.isLt
  rw [shifted, BitVec.toNat_shiftLeft, BitVec.toNat_ushiftRight, Nat.shiftRight_eq_div_pow,
    Nat.shiftLeft_eq, Nat.mod_eq_of_lt below]

end MachineWords
