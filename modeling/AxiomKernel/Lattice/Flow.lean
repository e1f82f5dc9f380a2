import Mathlib
import AxiomKernel.Lib.Bytes
import AxiomKernel.Lib.InformationFlow
import AxiomKernel.Lattice.SecurityLattice

/-!
# Information flow under the lattice checks

`may_read` and `may_write` are asked before every access.  With a lattice that
`verify` accepts, a trace of permitted accesses moves data only to labels that
dominate its own.
-/

set_option autoImplicit false

namespace AxiomKernel.Lattice

open ByteStrings InformationFlow

variable {S O : Type}

/-- The check made before an access. -/
def SecurityLattice.permits (lat : SecurityLattice) (subjectLabel : S → Label)
    (objectLabel : O → Label) : Access S O → Bool
  | .read s o => lat.mayRead (subjectLabel s) (objectLabel o)
  | .write s o => lat.mayWrite (subjectLabel s) (objectLabel o)

theorem SecurityLattice.permits_iff (lat : SecurityLattice) (subjectLabel : S → Label)
    (objectLabel : O → Label) (access : Access S O) :
    lat.permits subjectLabel objectLabel access = true ↔
      access.GoesUp (fun a b => lat.dominates a b = true) subjectLabel objectLabel := by
  cases access <;> rfl

theorem SecurityLattice.dominates_iff (lat : SecurityLattice) (a b : Label) :
    lat.dominates a b = true ↔
      ∃ (aLt : a.toNat < lat.count) (bLt : b.toNat < lat.count),
        lat.entry ⟨a.toNat, aLt⟩ ⟨b.toNat, bLt⟩ = true := by
  rw [SecurityLattice.dominates]
  split
  case isTrue inside =>
    constructor
    · intro entry
      exact ⟨inside.1, inside.2, entry⟩
    · rintro ⟨_, _, entry⟩
      exact entry
  case isFalse outside =>
    constructor
    · intro impossible
      cases impossible
    · rintro ⟨aLt, bLt, _⟩
      exact absurd ⟨aLt, bLt⟩ outside

theorem PassesChecks.dominates_trans {lat : SecurityLattice} (passes : PassesChecks lat)
    {a b c : Label} (upper : lat.dominates a b = true) (lower : lat.dominates b c = true) :
    lat.dominates a c = true := by
  obtain ⟨aLt, bLt, upperEntry⟩ := (lat.dominates_iff a b).mp upper
  obtain ⟨_, cLt, lowerEntry⟩ := (lat.dominates_iff b c).mp lower
  exact (lat.dominates_iff a c).mpr ⟨aLt, cLt, passes.transitive _ _ _ upperEntry lowerEntry⟩

theorem SecurityLattice.labels_lt_of_permits {lat : SecurityLattice} {subjectLabel : S → Label}
    {objectLabel : O → Label} {access : Access S O}
    (permitted : lat.permits subjectLabel objectLabel access = true) :
    (subjectLabel access.subject).toNat < lat.count ∧
      (objectLabel access.object).toNat < lat.count := by
  cases access with
  | read s o =>
      obtain ⟨subjectLt, objectLt, -⟩ := (lat.dominates_iff _ _).mp permitted
      exact ⟨subjectLt, objectLt⟩
  | write s o =>
      obtain ⟨objectLt, subjectLt, -⟩ := (lat.dominates_iff _ _).mp permitted
      exact ⟨subjectLt, objectLt⟩

theorem information_flows_up (lat : SecurityLattice) (accepted : lat.verify = some (true, ""))
    (subjectLabel : S → Label) (objectLabel : O → Label) (accesses : List (Access S O))
    (permitted : ∀ access ∈ accesses, lat.permits subjectLabel objectLabel access = true) :
    (∀ source target, Reaches accesses source target →
      lat.dominates (objectLabel target) (objectLabel source) = true) ∧
    ∀ access ∈ accesses, (subjectLabel access.subject).toNat < lat.count ∧
      (objectLabel access.object).toNat < lat.count := by
  have passes := (verify_accepts_iff lat).mp accepted
  have goesUp : ∀ access ∈ accesses,
      access.GoesUp (fun a b => lat.dominates a b = true) subjectLabel objectLabel :=
    fun access member => (lat.permits_iff ..).mp (permitted access member)
  constructor
  · rintro source target ⟨position, reached⟩
    exact reached.above (fun a b => lat.dominates a b = true) passes.dominates_trans goesUp
  · intro access member
    exact SecurityLattice.labels_lt_of_permits (permitted access member)

/-- The four levels of `default_blp`. -/
def SecurityLattice.defaultBlp : SecurityLattice where
  dom := Vector.ofFn fun i => Vector.ofFn fun j => decide (i.val < 4 ∧ j.val ≤ i.val)
  count := 4
  countLe := by decide
  bottom := 0
  top := 3

/-- Unclassified data goes through a confidential subject to a secret object. -/
theorem information_flows_up_defaultBlp :
    Reaches [Access.read () false, Access.write () true] false true ∧
      SecurityLattice.defaultBlp.dominates 2 0 = true := by
  have reached : Reaches [Access.read () false, Access.write () true] false true :=
    ⟨1, .direct (by decide : 0 < 1) rfl rfl⟩
  refine ⟨reached, ?_⟩
  exact (information_flows_up SecurityLattice.defaultBlp (by decide +kernel) (fun _ => 1)
    (fun secret => if secret then 2 else 0) [.read () false, .write () true]
    (by decide)).1 false true reached

end AxiomKernel.Lattice
