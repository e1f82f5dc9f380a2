import Mathlib
import AxiomKernel.Tcd.Attenuation

/-!
# Authority over whole runs

The kernel answers `mint` calls and `derive` calls on values an adversary
presents.  A presented value is `Unforged` when a right MAC on it means that its
serialisation has been issued before; `Run` is every interleaving of calls under
that assumption.  Over every run each issued capability has its provenance: a
minted root and one successful derivation of the run per unit of depth.
-/

set_option autoImplicit false

namespace AxiomKernel.Tcd

open ByteStrings Crypto

inductive Call where
  | mint (objectId : U64) (rights : U8) (expiresAt : U64)
  | derive (presented : Capability) (now : U64) (newRights : U8) (newExpiresAt : U64)

def Call.issue (k : Bytes 32) : Call → Option Capability
  | .mint objectId rights expiresAt => some (Capability.mint k objectId rights expiresAt)
  | .derive presented now newRights newExpiresAt => presented.derive k now newRights newExpiresAt

/-- A right MAC can only stand on a serialisation that was issued. -/
def Unforged (k : Bytes 32) (issued : List Capability) (presented : Capability) : Prop :=
  presented.Authentic k → ∃ original ∈ issued, original.auth = presented.auth

/-- The assumption on the value a call presents. -/
def Call.Unforged (k : Bytes 32) (issued : List Capability) : Call → Prop
  | .mint _ _ _ => True
  | .derive presented _ _ _ => Tcd.Unforged k issued presented

/-- The runs of the kernel: the calls made and the capabilities issued, latest
first. -/
inductive Run (k : Bytes 32) : List Call → List Capability → Prop
  | start : Run k [] []
  | call {calls : List Call} {issued : List Capability} (earlier : Run k calls issued)
      (next : Call) (unforged : next.Unforged k issued) :
      Run k (next :: calls) ((next.issue k).toList ++ issued)

/-- `cap` was reached from the minted `root` by `steps` successful `derive`
calls among `calls`. -/
inductive Provenance (k : Bytes 32) (calls : List Call) (root : Capability) :
    Nat → Capability → Prop
  | minted {objectId : U64} {rights : U8} {expiresAt : U64}
      (called : Call.mint objectId rights expiresAt ∈ calls)
      (isRoot : root = Capability.mint k objectId rights expiresAt) : Provenance k calls root 0 root
  | derived {steps : Nat} {parent child : Capability} {now : U64} {newRights : U8}
      {newExpiresAt : U64} (earlier : Provenance k calls root steps parent)
      (called : Call.derive parent now newRights newExpiresAt ∈ calls)
      (success : parent.derive k now newRights newExpiresAt = some child) :
      Provenance k calls root (steps + 1) child

theorem Provenance.later {k : Bytes 32} {calls : List Call} {root cap : Capability} {steps : Nat}
    (provenance : Provenance k calls root steps cap) (next : Call) :
    Provenance k (next :: calls) root steps cap := by
  induction provenance with
  | minted called isRoot => exact .minted (List.mem_cons_of_mem next called) isRoot
  | derived _ called success inductionHypothesis =>
      exact .derived inductionHypothesis (List.mem_cons_of_mem next called) success

theorem Provenance.root_minted {k : Bytes 32} {calls : List Call} {root cap : Capability}
    {steps : Nat} (provenance : Provenance k calls root steps cap) :
    ∃ objectId rights expiresAt, Call.mint objectId rights expiresAt ∈ calls ∧
      root = Capability.mint k objectId rights expiresAt := by
  induction provenance with
  | minted called isRoot => exact ⟨_, _, _, called, isRoot⟩
  | derived _ _ _ inductionHypothesis => exact inductionHypothesis

theorem Provenance.descends {k : Bytes 32} {calls : List Call} {root cap : Capability}
    {steps : Nat} (provenance : Provenance k calls root steps cap) :
    Descends k root steps cap := by
  induction provenance with
  | minted => exact .refl
  | derived _ _ success inductionHypothesis => exact .derive inductionHypothesis success

theorem Provenance.depth_eq {k : Bytes 32} {calls : List Call} {root cap : Capability}
    {steps : Nat} (provenance : Provenance k calls root steps cap) :
    cap.depth.toNat = steps := by
  obtain ⟨objectId, rights, expiresAt, _, isRoot⟩ := provenance.root_minted
  have rootDepth : root.depth.toNat = 0 := by
    rw [isRoot]
    rfl
  rw [provenance.descends.attenuates.depth, rootDepth, Nat.zero_add]

theorem Provenance.authentic {k : Bytes 32} {calls : List Call} {root cap : Capability}
    {steps : Nat} (provenance : Provenance k calls root steps cap) : cap.Authentic k := by
  obtain ⟨objectId, rights, expiresAt, _, isRoot⟩ := provenance.root_minted
  apply provenance.descends.authentic
  rw [isRoot]
  exact Capability.mint_authentic k objectId rights expiresAt

theorem Capability.eq_of_auth {k : Bytes 32} {left right : Capability}
    (leftAuthentic : left.Authentic k) (rightAuthentic : right.Authentic k)
    (same : left.auth = right.auth) : left = right := by
  obtain ⟨objectId, rights, expiresAt, depth, parentHash⟩ := authBytes_injective same
  have mac : left.mac = right.mac := by
    rw [leftAuthentic, rightAuthentic, same]
  cases left with
  | mk =>
    cases right with
    | mk =>
      simp only [Capability.mk.injEq]
      exact ⟨objectId, rights, expiresAt, depth, parentHash, mac⟩

/-- An authentic presented value is one of the issued capabilities. -/
theorem mem_issued_of_unforged {k : Bytes 32} {issued : List Capability} {presented : Capability}
    (issuedAuthentic : ∀ cap ∈ issued, cap.Authentic k)
    (unforged : Unforged k issued presented) (authentic : presented.Authentic k) :
    presented ∈ issued := by
  obtain ⟨original, member, same⟩ := unforged authentic
  rw [← Capability.eq_of_auth (issuedAuthentic original member) authentic same]
  exact member

/-- Over every run, every issued capability has its provenance in the run. -/
theorem Run.provenance {k : Bytes 32} {calls : List Call} {issued : List Capability}
    (run : Run k calls issued) :
    ∀ cap ∈ issued, ∃ root steps, Provenance k calls root steps cap := by
  induction run with
  | start => simp
  | @call calls issued _ next unforged inductionHypothesis =>
      have issuedAuthentic : ∀ cap ∈ issued, cap.Authentic k := by
        intro cap member
        obtain ⟨root, steps, provenance⟩ := inductionHypothesis cap member
        exact provenance.authentic
      intro cap member
      rcases List.mem_append.mp member with fresh | earlier
      · rw [Option.mem_toList] at fresh
        cases next with
        | mint objectId rights expiresAt =>
            have isRoot : Capability.mint k objectId rights expiresAt = cap := by
              simpa [Call.issue] using fresh
            exact ⟨cap, 0, .minted List.mem_cons_self isRoot.symm⟩
        | derive presented now newRights newExpiresAt =>
            have success : presented.derive k now newRights newExpiresAt = some cap := fresh
            -- a derivation verifies what is presented, so it was issued earlier
            have authentic := ((presented.derive_eq_some_iff cap k now _ _).mp success).1
            obtain ⟨root, steps, provenance⟩ := inductionHypothesis presented
              (mem_issued_of_unforged issuedAuthentic unforged authentic)
            exact ⟨root, steps + 1,
              .derived (provenance.later _) List.mem_cons_self success⟩
      · obtain ⟨root, steps, provenance⟩ := inductionHypothesis cap earlier
        exact ⟨root, steps, provenance.later next⟩

/-- At every point of every run, a presented capability that verifies has the
fields of an issued one, and its authority is bounded by a minted root from
which the run derived it in exactly `depth ≤ 64` steps. -/
theorem accepted_capability_bounded (k : Bytes 32) (calls : List Call)
    (issued : List Capability) (run : Run k calls issued) (presented : Capability) (now : U64)
    (unforged : Unforged k issued presented) (accepted : presented.verify k now = true) :
    (∃ original ∈ issued, presented.objectId = original.objectId ∧
      presented.rights = original.rights ∧ presented.expiresAt = original.expiresAt ∧
      presented.depth = original.depth ∧ presented.parentHash = original.parentHash) ∧
    ∃ objectId rights expiresAt, Call.mint objectId rights expiresAt ∈ calls ∧
      objectId = presented.objectId ∧ RightsSubset presented.rights rights ∧
      presented.expiresAt ≤ expiresAt ∧ presented.depth.toNat ≤ 64 ∧
      Provenance k calls (Capability.mint k objectId rights expiresAt) presented.depth.toNat
        presented := by
  have authentic := ((presented.verify_iff k now).mp accepted).2
  have issuedAuthentic : ∀ cap ∈ issued, cap.Authentic k := by
    intro cap member
    obtain ⟨root, steps, provenance⟩ := run.provenance cap member
    exact provenance.authentic
  have member := mem_issued_of_unforged issuedAuthentic unforged authentic
  refine ⟨⟨presented, member, rfl, rfl, rfl, rfl, rfl⟩, ?_⟩
  obtain ⟨root, steps, provenance⟩ := run.provenance presented member
  obtain ⟨objectId, rights, expiresAt, called, isRoot⟩ := provenance.root_minted
  have attenuates := provenance.descends.attenuates
  have depthEq := provenance.depth_eq
  have bounded : presented.depth.toNat ≤ 64 := by
    rcases Nat.eq_zero_or_pos steps with zero | positive
    · omega
    · exact (provenance.descends.limits positive).2
  subst isRoot
  subst depthEq
  exact ⟨objectId, rights, expiresAt, called, attenuates.objectId.symm, attenuates.rights,
    attenuates.expiresAt, bounded, provenance⟩

theorem accepted_capability_bounded_sample :
    ∃ child, sampleRoot.derive sampleKey 3 Rights.READ 50 = some child ∧
      child.verify sampleKey 4 = true ∧
      ∃ objectId rights expiresAt, objectId = child.objectId ∧
        RightsSubset child.rights rights ∧ child.expiresAt ≤ expiresAt := by
  obtain ⟨child, success⟩ := sampleRoot_derives
  have derivation := (sampleRoot.derive_eq_some_iff child sampleKey 3 Rights.READ 50).mp success
  obtain ⟨_, _, childOf, rightsEq, expiresEq⟩ := derivation
  have accepted : child.verify sampleKey 4 = true := by
    rw [child.verify_iff]
    exact ⟨by rw [expiresEq]; decide, childOf.authentic⟩
  have minted : Run sampleKey [.mint 7 (Rights.READ ||| Rights.DERIVE) 100] [sampleRoot] :=
    Run.start.call (.mint 7 (Rights.READ ||| Rights.DERIVE) 100) trivial
  have derived := minted.call (.derive sampleRoot 3 Rights.READ 50)
    fun _ => ⟨sampleRoot, by simp, rfl⟩
  have issues : (Call.derive sampleRoot 3 Rights.READ 50).issue sampleKey = some child := success
  rw [issues] at derived
  obtain ⟨_, objectId, rights, expiresAt, _, sameObject, subset, notLater, _⟩ :=
    accepted_capability_bounded sampleKey _ _ derived child 4
      (fun _ => ⟨child, by simp, rfl⟩) accepted
  exact ⟨child, success, accepted, objectId, rights, expiresAt, sameObject, subset, notLater⟩

end AxiomKernel.Tcd
