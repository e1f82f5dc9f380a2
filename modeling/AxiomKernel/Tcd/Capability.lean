import Mathlib
import AxiomKernel.Lib.Bytes
import AxiomKernel.Lib.Words
import AxiomKernel.Crypto.Sha256

/-!
# Temporal capabilities

Model of `axiom/capability.rs`: the 50-byte serialisation under the MAC, `mint`,
`verify` and `derive`.  `derive_eq_some_iff` is the specification of `derive`
that later modules use.
-/

set_option autoImplicit false

namespace AxiomKernel.Tcd

open ByteStrings MachineWords Crypto

namespace Rights

def READ : U8 := 0b00000001
def DERIVE : U8 := 0b00001000

end Rights

structure Capability where
  objectId : U64
  rights : U8
  expiresAt : U64
  depth : U8
  /-- SHA-256 of the parent's MAC; zero for a root. -/
  parentHash : Bytes 32
  mac : Bytes 32
  deriving DecidableEq

/-- Layout: object_id(8) | rights(1) | expires_at(8) | depth(1) | parent_hash(32). -/
def authBytes (objectId : U64) (rights : U8) (expiresAt : U64) (depth : U8)
    (parentHash : Bytes 32) : Bytes 50 :=
  let buf : Bytes 50 := Vector.replicate 50 0
  let buf := copyFromSlice buf 0 (toLeBytes 8 objectId)
  let buf := copyFromSlice buf 8 [rights]
  let buf := copyFromSlice buf 9 (toLeBytes 8 expiresAt)
  let buf := copyFromSlice buf 17 [depth]
  copyFromSlice buf 18 parentHash.toList

namespace Capability

def auth (cap : Capability) : Bytes 50 :=
  authBytes cap.objectId cap.rights cap.expiresAt cap.depth cap.parentHash

def mint (k : Bytes 32) (objectId : U64) (rights : U8) (expiresAt : U64) : Capability :=
  let parentHash : Bytes 32 := Vector.replicate 32 0
  let bytes := authBytes objectId rights expiresAt 0 parentHash
  let mac := hmacSha256 k.toList bytes.toList
  { objectId, rights, expiresAt, depth := 0, parentHash, mac }

/-- The expiry check, then the MAC check. -/
def verify (cap : Capability) (k : Bytes 32) (now : U64) : Bool :=
  if now ≥ cap.expiresAt then false
  else
    let bytes := authBytes cap.objectId cap.rights cap.expiresAt cap.depth cap.parentHash
    let expected := hmacSha256 k.toList bytes.toList
    ctEq32 expected cap.mac

def derive (cap : Capability) (k : Bytes 32) (now : U64) (newRights : U8)
    (newExpiresAt : U64) : Option Capability :=
  if !cap.verify k now then none
  else if cap.rights &&& Rights.DERIVE = 0 then none
  else if newRights &&& ~~~cap.rights ≠ 0 then none
  else if newExpiresAt > cap.expiresAt then none
  else do
    let depth ← checkedAdd cap.depth 1
    if depth > 64 then none
    else
      let parentHash := sha256 cap.mac.toList
      let bytes := authBytes cap.objectId newRights newExpiresAt depth parentHash
      let mac := hmacSha256 k.toList bytes.toList
      some
        { objectId := cap.objectId
          rights := newRights
          expiresAt := newExpiresAt
          depth
          parentHash
          mac }

end Capability

/-! ## Serialisation -/

theorem authBytes_injective {objectId objectId' : U64} {rights rights' : U8}
    {expiresAt expiresAt' : U64} {depth depth' : U8} {parentHash parentHash' : Bytes 32}
    (same : authBytes objectId rights expiresAt depth parentHash =
      authBytes objectId' rights' expiresAt' depth' parentHash') :
    objectId = objectId' ∧ rights = rights' ∧ expiresAt = expiresAt' ∧ depth = depth' ∧
      parentHash = parentHash' := by
  have field : ∀ offset length,
      slice (authBytes objectId rights expiresAt depth parentHash) offset length =
        slice (authBytes objectId' rights' expiresAt' depth' parentHash') offset length := by
    intro offset length
    rw [same]
  have objects := field 0 8
  have rightsBytes := field 8 1
  have expiries := field 9 8
  have depths := field 17 1
  have hashes := field 18 32
  simp (disch := simp) only [authBytes, slice_copyFromSlice_self, slice_copyFromSlice_other,
    List.cons.injEq, and_true] at objects rightsBytes expiries depths hashes
  exact ⟨toLeBytes_injective (by norm_num) objects, rightsBytes,
    toLeBytes_injective (by norm_num) expiries, depths, Vector.toList_inj.mp hashes⟩

/-! ## Rights as sets of bits -/

def RightsSubset (sub super : U8) : Prop :=
  ∀ bit, sub.getLsbD bit = true → super.getLsbD bit = true

theorem rightsSubset_iff_mask (sub super : U8) :
    RightsSubset sub super ↔ sub &&& ~~~super = 0 := by
  constructor
  · intro subset
    apply BitVec.eq_of_getLsbD_eq
    intro bit bound
    cases present : sub.getLsbD bit with
    | false => simp [present]
    | true => simp [present, subset bit present]
  · intro masked bit present
    have bound : bit < 8 := BitVec.lt_of_getLsbD present
    have cleared := congrArg (fun word : U8 => word.getLsbD bit) masked
    simpa [present, bound] using cleared

theorem RightsSubset.refl (rights : U8) : RightsSubset rights rights := fun _ present => present

theorem RightsSubset.trans {first second third : U8} (inner : RightsSubset first second)
    (outer : RightsSubset second third) : RightsSubset first third :=
  fun bit present => outer bit (inner bit present)

/-! ## Specifications -/

namespace Capability

def Authentic (k : Bytes 32) (cap : Capability) : Prop :=
  cap.mac = hmacSha256 k.toList cap.auth.toList

theorem verify_iff (cap : Capability) (k : Bytes 32) (now : U64) :
    cap.verify k now = true ↔ now < cap.expiresAt ∧ Authentic k cap := by
  rw [verify, Authentic, auth]
  split
  case isTrue expired => simp [BitVec.not_lt.mpr expired]
  case isFalse live =>
    rw [ctEq32_iff, eq_comm]
    simp [BitVec.not_le.mp live]

theorem mint_authentic (k : Bytes 32) (objectId : U64) (rights : U8) (expiresAt : U64) :
    Authentic k (mint k objectId rights expiresAt) := by
  simp only [Authentic, auth, mint]

/-- The checks of `derive` on the requested rights and expiry. -/
structure Permits (cap : Capability) (now : U64) (newRights : U8) (newExpiresAt : U64) : Prop where
  live : now < cap.expiresAt
  derivable : cap.rights &&& Rights.DERIVE ≠ 0
  contained : RightsSubset newRights cap.rights
  notLater : newExpiresAt ≤ cap.expiresAt
  shallow : cap.depth < 64

/-- The fields of a derived capability, relative to its parent. -/
structure ChildOf (k : Bytes 32) (child parent : Capability) : Prop where
  objectId : child.objectId = parent.objectId
  depth : child.depth.toNat = parent.depth.toNat + 1
  parentHash : child.parentHash = sha256 parent.mac.toList
  authentic : Authentic k child

theorem shallow_iff {parent child : U8} (step : child.toNat = parent.toNat + 1) :
    parent < 64 ↔ ¬ child > 64 := by
  have limit : (64 : U8).toNat = 64 := rfl
  simp only [BitVec.lt_def, gt_iff_lt, limit]
  omega

theorem derive_eq_some_iff (cap child : Capability) (k : Bytes 32) (now : U64) (newRights : U8)
    (newExpiresAt : U64) :
    cap.derive k now newRights newExpiresAt = some child ↔
      Authentic k cap ∧ Permits cap now newRights newExpiresAt ∧ ChildOf k child cap ∧
        child.rights = newRights ∧ child.expiresAt = newExpiresAt := by
  rw [derive]
  constructor
  · intro success
    split at success
    case isTrue => simp at success
    case isFalse verified =>
    split at success
    case isTrue => simp at success
    case isFalse derivable =>
    split at success
    case isTrue => simp at success
    case isFalse contained =>
    split at success
    case isTrue => simp at success
    case isFalse notLater =>
    obtain ⟨depth, added, success⟩ := Option.bind_eq_some_iff.mp success
    split at success
    case isTrue => simp at success
    case isFalse shallow =>
    rw [checkedAdd_eq_some_iff] at added
    obtain ⟨live, authentic⟩ := (cap.verify_iff k now).mp (by simpa using verified)
    rw [Option.some.injEq] at success
    subst success
    refine ⟨authentic, ⟨live, derivable, ?_, BitVec.not_lt.mp notLater, ?_⟩,
      ⟨rfl, added, rfl, ?_⟩, rfl, rfl⟩
    · rw [rightsSubset_iff_mask]
      exact not_not.mp contained
    · exact (shallow_iff added).mpr shallow
    · simp only [Authentic, auth]
  · rintro ⟨authentic, permits, childOf, rfl, rfl⟩
    have verified : cap.verify k now = true := (cap.verify_iff k now).mpr ⟨permits.live, authentic⟩
    have added : checkedAdd cap.depth 1 = some child.depth :=
      (checkedAdd_eq_some_iff _ _ _).mpr childOf.depth
    have shallow : ¬ child.depth > 64 := (shallow_iff childOf.depth).mp permits.shallow
    rw [if_neg (by simp [verified]), if_neg permits.derivable,
      if_neg (not_not.mpr ((rightsSubset_iff_mask _ _).mp permits.contained)),
      if_neg (BitVec.not_lt.mpr permits.notLater), added]
    simp only [Option.bind_eq_bind, Option.bind_some, if_neg shallow]
    have mac := childOf.authentic
    rw [Authentic, auth, childOf.objectId, childOf.parentHash] at mac
    rw [← mac, ← childOf.parentHash, ← childOf.objectId]

/-- `derive` succeeds exactly on an authentic capability that permits the request. -/
theorem derive_isSome_iff (cap : Capability) (k : Bytes 32) (now : U64) (newRights : U8)
    (newExpiresAt : U64) :
    (cap.derive k now newRights newExpiresAt).isSome = true ↔
      Authentic k cap ∧ Permits cap now newRights newExpiresAt := by
  rw [Option.isSome_iff_exists]
  constructor
  · rintro ⟨child, success⟩
    obtain ⟨authentic, permits, _⟩ := (derive_eq_some_iff cap child k now _ _).mp success
    exact ⟨authentic, permits⟩
  · rintro ⟨authentic, permits⟩
    have room : cap.depth.toNat + 1 < 256 := by
      have limit : (64 : U8).toNat = 64 := rfl
      have shallow := permits.shallow
      rw [BitVec.lt_def, limit] at shallow
      omega
    -- the child the code would build
    let parentHash := sha256 cap.mac.toList
    let depth : U8 := BitVec.ofNat 8 (cap.depth.toNat + 1)
    let bytes := authBytes cap.objectId newRights newExpiresAt depth parentHash
    refine ⟨⟨cap.objectId, newRights, newExpiresAt, depth, parentHash,
      hmacSha256 k.toList bytes.toList⟩, (derive_eq_some_iff cap _ k now _ _).mpr
        ⟨authentic, permits, ⟨rfl, ?_, rfl, ?_⟩, rfl, rfl⟩⟩
    · exact Nat.mod_eq_of_lt room
    · simp only [Authentic, auth, bytes]

end Capability

end AxiomKernel.Tcd
