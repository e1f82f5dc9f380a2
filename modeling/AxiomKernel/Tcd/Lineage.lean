import Mathlib
import AxiomKernel.Lib.HashChain
import AxiomKernel.Tcd.Attenuation
import AxiomKernel.Tcd.Authority

/-!
# A capability and its lineage

A capability names its parent by the SHA-256 of the parent's MAC, and its own MAC
covers that name.  Unless one of the two hashes collides on what was hashed, the last
capability of a derivation chain determines the whole chain back to its root.
-/

set_option autoImplicit false

namespace AxiomKernel.Tcd

open ByteStrings Crypto HashChains

/-- A mint followed by any number of successful derivations, the root first. -/
structure DerivationChain (k : Bytes 32) (chain : List Capability) : Prop where
  minted : ∃ objectId rights expiresAt,
    chain.head? = some (Capability.mint k objectId rights expiresAt)
  derived : chain.IsChain (Derives k)

/-- What `derive` hashes along the chain: the MAC of every capability derived from. -/
def shaInputs (chain : List Capability) : List (List U8) :=
  chain.dropLast.map fun cap => cap.mac.toList

/-- What is put under the key: the serialisation of every capability. -/
def hmacInputs (chain : List Capability) : List (List U8) :=
  chain.map fun cap => cap.auth.toList

def Separates (hash : List U8 → Bytes 32) (inputs : List (List U8)) : Prop :=
  ∀ left ∈ inputs, ∀ right ∈ inputs, hash left = hash right → left = right

theorem DerivationChain.authentic {k : Bytes 32} {chain : List Capability}
    (whole : DerivationChain k chain) : ∀ cap ∈ chain, cap.Authentic k := by
  obtain ⟨objectId, rights, expiresAt, isRoot⟩ := whole.minted
  intro cap mem
  obtain ⟨i, found⟩ := List.mem_iff_getElem?.mp mem
  rw [List.head?_eq_getElem?] at isRoot
  exact (descends_of_isChain whole.derived isRoot i (by rw [Nat.zero_add]; exact found)).authentic
    (Capability.mint_authentic k objectId rights expiresAt)

theorem DerivationChain.root_depth {k : Bytes 32} {chain : List Capability}
    (whole : DerivationChain k chain) {root : Capability} (isRoot : chain.head? = some root) :
    root.depth = 0 ∧ root.parentHash = Vector.replicate 32 0 := by
  obtain ⟨objectId, rights, expiresAt, minted⟩ := whole.minted
  rw [minted] at isRoot
  obtain rfl := Option.some.inj isRoot
  exact ⟨rfl, rfl⟩

theorem Derives.childOf {k : Bytes 32} {parent child : Capability} (derives : Derives k parent child) :
    child.ChildOf k parent := by
  obtain ⟨now, newRights, newExpiresAt, success⟩ := derives
  exact ((Capability.derive_eq_some_iff ..).mp success).2.2.1

/-- Two authentic parents of one child are equal: their MACs by SHA-256, the rest by HMAC. -/
theorem parent_unique {k : Bytes 32} {parents : List Capability} {p q child : Capability}
    (sha : Separates sha256 (parents.map fun cap => cap.mac.toList))
    (hmac : Separates (hmacSha256 k.toList) (parents.map fun cap => cap.auth.toList))
    (pMem : p ∈ parents) (qMem : q ∈ parents) (pAuthentic : p.Authentic k)
    (qAuthentic : q.Authentic k) (fromP : Derives k p child) (fromQ : Derives k q child) :
    p = q := by
  have sameDigest : sha256 p.mac.toList = sha256 q.mac.toList := by
    rw [← fromP.childOf.parentHash, fromQ.childOf.parentHash]
  have sameMac : p.mac.toList = q.mac.toList :=
    sha _ (List.mem_map_of_mem pMem) _ (List.mem_map_of_mem qMem) sameDigest
  have sameTag : hmacSha256 k.toList p.auth.toList = hmacSha256 k.toList q.auth.toList := by
    rw [← pAuthentic, ← qAuthentic, Vector.toList_inj.mp sameMac]
  have sameAuth := hmac _ (List.mem_map_of_mem pMem) _ (List.mem_map_of_mem qMem) sameTag
  exact Capability.eq_of_auth pAuthentic qAuthentic (Vector.toList_inj.mp sameAuth)

/-- Two chains that end in the same capability are the same chain, and each member names its
parent. -/
theorem lineage_determined (k : Bytes 32) (left right : List Capability)
    (leftChain : DerivationChain k left) (rightChain : DerivationChain k right)
    (sha : Separates sha256 (shaInputs left ++ shaInputs right))
    (hmac : Separates (hmacSha256 k.toList) (hmacInputs left ++ hmacInputs right))
    (sameEnd : left.getLast? = right.getLast?) :
    left.length = right.length ∧ left = right ∧
      (∀ root, left.head? = some root → root.parentHash = Vector.replicate 32 0) ∧
      ∀ (i : Nat) (parent child : Capability), left[i]? = some parent → left[i + 1]? = some child →
        child.parentHash = sha256 parent.mac.toList := by
  have same : left = right := by
    refine eq_of_same_end (fun cap => cap.depth = 0) leftChain.derived rightChain.derived
      (fun first isFirst => (leftChain.root_depth isFirst).1)
      (fun first isFirst => (rightChain.root_depth isFirst).1) ?_ ?_ sameEnd
    · intro p pMem q qMem child fromP fromQ
      have parents : Separates (hmacSha256 k.toList)
          ((left.dropLast ++ right.dropLast).map fun cap => cap.auth.toList) := by
        intro first firstMem second secondMem
        have hashed : (left.dropLast ++ right.dropLast).map (fun cap => cap.auth.toList) ⊆
            hmacInputs left ++ hmacInputs right := by
          rw [hmacInputs, hmacInputs, ← List.map_append]
          exact List.map_subset _ ((left.dropLast_sublist.append right.dropLast_sublist).subset)
        exact hmac first (hashed firstMem) second (hashed secondMem)
      rw [shaInputs, shaInputs, ← List.map_append] at sha
      exact parent_unique sha parents (List.mem_append_left _ pMem) (List.mem_append_right _ qMem)
        (leftChain.authentic p (List.mem_of_mem_dropLast pMem))
        (rightChain.authentic q (List.mem_of_mem_dropLast qMem)) fromP fromQ
    · intro parent child isRoot derives
      have depth := derives.childOf.depth
      rw [isRoot] at depth
      simp at depth
  refine ⟨congrArg List.length same, same,
    fun root isRoot => (leftChain.root_depth isRoot).2, ?_⟩
  intro i parent child foundParent foundChild
  obtain ⟨inside, childEq⟩ := List.getElem?_eq_some_iff.mp foundChild
  obtain ⟨_, parentEq⟩ := List.getElem?_eq_some_iff.mp foundParent
  have derives := List.isChain_iff_getElem.mp leftChain.derived i inside
  rw [parentEq, childEq] at derives
  exact derives.childOf.parentHash

/-- The MACs of the sample root and its child are different. -/
theorem sampleRoot_mac_ne {child : Capability}
    (success : sampleRoot.derive sampleKey 3 Rights.READ 50 = some child) :
    hmacSha256 sampleKey.toList sampleRoot.auth.toList ≠
      hmacSha256 sampleKey.toList child.auth.toList := by
  obtain ⟨_, _, childOf, rights, expiresAt⟩ := (Capability.derive_eq_some_iff ..).mp success
  have depth : child.depth = 1 := BitVec.eq_of_toNat_eq childOf.depth
  have serialised : child.auth = authBytes sampleRoot.objectId Rights.READ 50 1
      (sha256 sampleRoot.mac.toList) := by
    rw [Capability.auth, childOf.objectId, rights, expiresAt, depth, childOf.parentHash]
  rw [serialised]
  decide +kernel

theorem lineage_determined_sample :
    ∃ child, DerivationChain sampleKey [sampleRoot, child] ∧
      child.parentHash = sha256 sampleRoot.mac.toList := by
  obtain ⟨child, success⟩ := sampleRoot_derives
  have chain : DerivationChain sampleKey [sampleRoot, child] :=
    ⟨⟨_, _, _, rfl⟩, List.isChain_pair.mpr ⟨_, _, _, success⟩⟩
  have sha : Separates sha256 (shaInputs [sampleRoot, child] ++ shaInputs [sampleRoot, child]) := by
    simp [Separates, shaInputs]
  have different := sampleRoot_mac_ne success
  have hmac : Separates (hmacSha256 sampleKey.toList)
      (hmacInputs [sampleRoot, child] ++ hmacInputs [sampleRoot, child]) := by
    simp [Separates, hmacInputs, different, different.symm]
  exact ⟨child, chain,
    (lineage_determined sampleKey _ _ chain chain sha hmac rfl).2.2.2 0 sampleRoot child rfl rfl⟩

end AxiomKernel.Tcd
