import Mathlib

/-!
# Primality certificates

Lucas' test with the prime factors of the predecessor given as a list, and the
certificate of `2^130 - 5`.
-/

set_option autoImplicit false

namespace Primality

/-- A number is prime when some residue has order one less than it. -/
theorem prime_of_factors (n : Nat) (a : ZMod n) (factors : List Nat)
    (product : factors.prod = n - 1) (primes : ∀ q ∈ factors, q.Prime)
    (fermat : a ^ (n - 1) = 1) (order : ∀ q ∈ factors, a ^ ((n - 1) / q) ≠ 1) : n.Prime := by
  apply lucas_primality n a fermat
  intro q prime divides
  rw [← product] at divides
  obtain ⟨factor, member, dividesFactor⟩ := (Nat.Prime.prime prime).dvd_prod_iff.mp divides
  have same : q = factor :=
    (Nat.prime_dvd_prime_iff_eq prime (primes factor member)).mp dividesFactor
  rw [same]
  exact order factor member

theorem prime_4024685905107147541 : Nat.Prime 4024685905107147541 := by
  apply prime_of_factors 4024685905107147541 2 [2, 2, 3, 3, 5, 13, 43, 4889, 37003, 221101]
  · norm_num
  · simp only [List.forall_mem_cons]
    norm_num
  · norm_num1
    reduce_mod_char
  · simp only [List.forall_mem_cons]
    refine ⟨?_, ?_, ?_, ?_, ?_, ?_, ?_, ?_, ?_, ?_, by simp⟩ <;> norm_num1 <;> reduce_mod_char <;>
      decide

theorem prime_897064739519922787230182993783 : Nat.Prime 897064739519922787230182993783 := by
  apply prime_of_factors 897064739519922787230182993783 5 [2, 73, 487, 3134801, 4024685905107147541]
  · norm_num
  · simp only [List.forall_mem_cons]
    exact ⟨by norm_num, by norm_num, by norm_num, by norm_num, prime_4024685905107147541, by simp⟩
  · norm_num1
    reduce_mod_char
  · simp only [List.forall_mem_cons]
    refine ⟨?_, ?_, ?_, ?_, ?_, by simp⟩ <;> norm_num1 <;> reduce_mod_char <;> decide

theorem prime_two_pow_130_sub_5 : Nat.Prime (2 ^ 130 - 5) := by
  have value : 2 ^ 130 - 5 = 1361129467683753853853498429727072845819 := by norm_num
  rw [value]
  apply prime_of_factors 1361129467683753853853498429727072845819 2
    [2, 23, 32985101, 897064739519922787230182993783]
  · norm_num
  · simp only [List.forall_mem_cons]
    exact ⟨by norm_num, by norm_num, by norm_num, prime_897064739519922787230182993783, by simp⟩
  · norm_num1
    reduce_mod_char
  · simp only [List.forall_mem_cons]
    refine ⟨?_, ?_, ?_, ?_, by simp⟩ <;> norm_num1 <;> reduce_mod_char <;> decide

end Primality
