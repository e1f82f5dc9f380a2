import Mathlib
import AxiomKernel.Tcd.Capability

/-!
# Attenuation along derivations

What `derive` keeps from parent to child, carried by induction over any number
of derivations, and its reading for the capabilities of a chain that starts
with `mint`.
-/

set_option autoImplicit false

namespace AxiomKernel.Tcd

open ByteStrings Crypto

/-- `descendant` carries no more authority than `ancestor`, and is `steps`
derivations deeper. -/
structure Attenuates (ancestor descendant : Capability) (steps : Nat) : Prop where
  objectId : descendant.objectId = ancestor.objectId
  rights : RightsSubset descendant.rights ancestor.rights
  expiresAt : descendant.expiresAt ≤ ancestor.expiresAt
  depth : descendant.depth.toNat = ancestor.depth.toNat + steps

theorem Attenuates.refl (cap : Capability) : Attenuates cap cap 0 :=
  ⟨rfl, RightsSubset.refl cap.rights, BitVec.le_refl cap.expiresAt, rfl⟩

theorem Attenuates.trans {first second third : Capability} {inner outer : Nat}
    (upper : Attenuates first second outer) (lower : Attenuates second third inner) :
    Attenuates first third (outer + inner) where
  objectId := lower.objectId.trans upper.objectId
  rights := lower.rights.trans upper.rights
  expiresAt := BitVec.le_trans lower.expiresAt upper.expiresAt
  depth := by
    rw [lower.depth, upper.depth]
    omega

theorem Capability.derive_attenuates {parent child : Capability} {k : Bytes 32} {now : U64}
    {newRights : U8} {newExpiresAt : U64}
    (success : parent.derive k now newRights newExpiresAt = some child) :
    Attenuates parent child 1 := by
  obtain ⟨_, permits, childOf, rights, expiresAt⟩ :=
    (parent.derive_eq_some_iff child k now newRights newExpiresAt).mp success
  refine ⟨childOf.objectId, ?_, ?_, childOf.depth⟩
  · rw [rights]
    exact permits.contained
  · rw [expiresAt]
    exact permits.notLater

/-! ## Any number of derivations -/

/-- `descendant` comes from `ancestor` by `steps` successful derivations. -/
inductive Descends (k : Bytes 32) (ancestor : Capability) : Nat → Capability → Prop
  | refl : Descends k ancestor 0 ancestor
  | derive {steps : Nat} {parent child : Capability} {now : U64} {newRights : U8}
      {newExpiresAt : U64} (earlier : Descends k ancestor steps parent)
      (success : parent.derive k now newRights newExpiresAt = some child) :
      Descends k ancestor (steps + 1) child

theorem Descends.attenuates {k : Bytes 32} {ancestor descendant : Capability} {steps : Nat}
    (descends : Descends k ancestor steps descendant) :
    Attenuates ancestor descendant steps := by
  induction descends with
  | refl => exact Attenuates.refl ancestor
  | derive _ success inductionHypothesis =>
      exact inductionHypothesis.trans (Capability.derive_attenuates success)

theorem Descends.authentic {k : Bytes 32} {ancestor descendant : Capability} {steps : Nat}
    (descends : Descends k ancestor steps descendant) (root : ancestor.Authentic k) :
    descendant.Authentic k := by
  cases descends with
  | refl => exact root
  | derive _ success => exact ((Capability.derive_eq_some_iff _ _ _ _ _ _).mp success).2.2.1.authentic

theorem hasDerive_iff (rights : U8) :
    rights &&& Rights.DERIVE ≠ 0 ↔ rights.getLsbD 3 = true := by
  revert rights
  decide

/-- An ancestor of a derived capability holds the DERIVE right, and the derived
capability is within the depth limit. -/
theorem Descends.limits {k : Bytes 32} {ancestor descendant : Capability} {steps : Nat}
    (descends : Descends k ancestor steps descendant) (proper : 0 < steps) :
    ancestor.rights &&& Rights.DERIVE ≠ 0 ∧ descendant.depth.toNat ≤ 64 := by
  cases descends with
  | refl => omega
  | derive earlier success =>
      obtain ⟨_, permits, childOf, _⟩ := (Capability.derive_eq_some_iff _ _ _ _ _ _).mp success
      constructor
      · -- the last parent has the right, and can only have it from the ancestor
        rw [hasDerive_iff]
        exact earlier.attenuates.rights 3 ((hasDerive_iff _).mp permits.derivable)
      · have limit := BitVec.not_lt.mp ((Capability.shallow_iff childOf.depth).mp permits.shallow)
        exact limit

/-! ## Chains from a minted root -/

def Derives (k : Bytes 32) (parent child : Capability) : Prop :=
  ∃ now newRights newExpiresAt, parent.derive k now newRights newExpiresAt = some child

theorem descends_of_isChain {k : Bytes 32} {chain : List Capability}
    (derived : chain.IsChain (Derives k)) {i : Nat} {ancestor : Capability}
    (first : chain[i]? = some ancestor) (steps : Nat) {descendant : Capability}
    (last : chain[i + steps]? = some descendant) : Descends k ancestor steps descendant := by
  induction steps generalizing descendant with
  | zero =>
      have same : ancestor = descendant := by simpa [first] using last
      rw [same]
      exact Descends.refl
  | succ steps inductionHypothesis =>
      obtain ⟨bound, found⟩ := List.getElem?_eq_some_iff.mp last
      have parentBound : i + steps < chain.length := by omega
      have parentFound := List.getElem?_eq_getElem parentBound
      obtain ⟨now, newRights, newExpiresAt, success⟩ :=
        List.isChain_iff_getElem.mp derived (i + steps) bound
      rw [← found]
      exact (inductionHypothesis parentFound).derive success

/-- Every capability of a chain is attenuated with respect to all its ancestors,
verifies exactly until it expires, and can be derived from exactly under the
documented conditions. -/
theorem derivation_chain_attenuates (k : Bytes 32) (objectId : U64) (rights : U8)
    (expiresAt : U64) (derived : List Capability)
    (chain : (Capability.mint k objectId rights expiresAt :: derived).IsChain (Derives k)) :
    (∀ (i j : Nat) (a c : Capability), i < j →
      (Capability.mint k objectId rights expiresAt :: derived)[i]? = some a →
      (Capability.mint k objectId rights expiresAt :: derived)[j]? = some c →
        c.objectId = a.objectId ∧ RightsSubset c.rights a.rights ∧ c.expiresAt ≤ a.expiresAt ∧
        a.rights &&& Rights.DERIVE ≠ 0 ∧ c.depth.toNat = a.depth.toNat + (j - i) ∧
        c.depth.toNat ≤ 64 ∧ ∀ t, c.verify k t = true → a.verify k t = true) ∧
    (∀ (i : Nat) (c : Capability),
      (Capability.mint k objectId rights expiresAt :: derived)[i]? = some c →
        (∀ t, c.verify k t = true ↔ t < c.expiresAt) ∧
        ∀ now newRights newExpiresAt, (c.derive k now newRights newExpiresAt).isSome = true ↔
          now < c.expiresAt ∧ c.rights &&& Rights.DERIVE ≠ 0 ∧
            RightsSubset newRights c.rights ∧ newExpiresAt ≤ c.expiresAt ∧ c.depth < 64) := by
  have authentic : ∀ (i : Nat) (c : Capability),
      (Capability.mint k objectId rights expiresAt :: derived)[i]? = some c → c.Authentic k := by
    intro i c found
    have descends := descends_of_isChain chain (i := 0) rfl i (by simpa using found)
    exact descends.authentic (Capability.mint_authentic k objectId rights expiresAt)
  have verifies : ∀ (i : Nat) (c : Capability),
      (Capability.mint k objectId rights expiresAt :: derived)[i]? = some c →
      ∀ t, c.verify k t = true ↔ t < c.expiresAt := by
    intro i c found t
    rw [c.verify_iff k t]
    exact ⟨fun both => both.1, fun live => ⟨live, authentic i c found⟩⟩
  constructor
  · intro i j a c iLt foundA foundC
    have placed : i + (j - i) = j := by omega
    have descends := descends_of_isChain chain foundA (j - i) (by rw [placed]; exact foundC)
    obtain ⟨derivable, bounded⟩ := descends.limits (by omega)
    have attenuates := descends.attenuates
    refine ⟨attenuates.objectId, attenuates.rights, attenuates.expiresAt, derivable,
      attenuates.depth, bounded, ?_⟩
    intro t verified
    rw [verifies i a foundA t]
    have live := BitVec.lt_def.mp ((verifies j c foundC t).mp verified)
    exact BitVec.lt_def.mpr (live.trans_le (BitVec.le_def.mp attenuates.expiresAt))
  · intro i c found
    refine ⟨verifies i c found, ?_⟩
    intro now newRights newExpiresAt
    rw [c.derive_isSome_iff k now newRights newExpiresAt]
    constructor
    · rintro ⟨_, permits⟩
      exact ⟨permits.live, permits.derivable, permits.contained, permits.notLater, permits.shallow⟩
    · rintro ⟨live, derivable, contained, notLater, shallow⟩
      exact ⟨authentic i c found, ⟨live, derivable, contained, notLater, shallow⟩⟩

/-! ## A chain of one derivation -/

def sampleKey : Bytes 32 := Vector.replicate 32 0x5A

/-- A root with the rights READ and DERIVE that expires at time 100. -/
def sampleRoot : Capability :=
  Capability.mint sampleKey 7 (Rights.READ ||| Rights.DERIVE) 100

theorem sampleRoot_permits : sampleRoot.Permits 3 Rights.READ 50 where
  live := by decide
  derivable := by decide
  contained := (rightsSubset_iff_mask _ _).mpr (by decide)
  notLater := by decide
  shallow := by decide

/-- The child of that root with the right READ, derived at time 3 to expire at 50. -/
theorem sampleRoot_derives :
    ∃ child, sampleRoot.derive sampleKey 3 Rights.READ 50 = some child := by
  rw [← Option.isSome_iff_exists, Capability.derive_isSome_iff]
  exact ⟨Capability.mint_authentic _ _ _ _, sampleRoot_permits⟩

theorem derivation_chain_attenuates_sample :
    ∃ child, sampleRoot.derive sampleKey 3 Rights.READ 50 = some child ∧
      child.depth.toNat = sampleRoot.depth.toNat + 1 ∧
      ∀ t, child.verify sampleKey t = true ↔ t < child.expiresAt := by
  obtain ⟨child, success⟩ := sampleRoot_derives
  have chain : [sampleRoot, child].IsChain (Derives sampleKey) :=
    List.isChain_pair.mpr ⟨_, _, _, success⟩
  obtain ⟨pairs, members⟩ := derivation_chain_attenuates sampleKey 7
    (Rights.READ ||| Rights.DERIVE) 100 [child] chain
  exact ⟨child, success, (pairs 0 1 sampleRoot child (by decide) rfl rfl).2.2.2.2.1,
    (members 1 child rfl).1⟩

end AxiomKernel.Tcd
