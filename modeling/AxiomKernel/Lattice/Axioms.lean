import Mathlib
import AxiomKernel.Lib.FinitePoset
import AxiomKernel.Lattice.SecurityLattice

/-!
# `verify` against the lattice axioms

`join` and `meet` return some common bound, so `verify` never tests that a
bound is least or greatest; it also takes `bottom` and `top` as raw indices.
This module states the documented axioms, and exactly when `verify` decides
them: the relations it lets through must interpolate and keep `bottom` and `top`
below `count`.
-/

set_option autoImplicit false

namespace AxiomKernel.Lattice

open FinitePosets

/-- The documented axioms, on the first `count` labels. -/
structure IsBoundedLattice (lat : SecurityLattice) : Prop where
  bottomLt : lat.bottom.toNat < lat.count
  topLt : lat.top.toNat < lat.count
  reflexive : ∀ a, lat.entry a a = true
  antisymmetric : ∀ a b, lat.entry a b = true → lat.entry b a = true → a = b
  transitive : ∀ a b c, lat.entry a b = true → lat.entry b c = true → lat.entry a c = true
  bottomLeast : ∀ a, lat.entry a ⟨lat.bottom.toNat, bottomLt⟩ = true
  topGreatest : ∀ a, lat.entry ⟨lat.top.toNat, topLt⟩ a = true
  joins : ∀ a b, ∃ j, lat.entry j a = true ∧ lat.entry j b = true ∧
    ∀ u, lat.entry u a = true → lat.entry u b = true → lat.entry u j = true
  meets : ∀ a b, ∃ m, lat.entry a m = true ∧ lat.entry b m = true ∧
    ∀ l, lat.entry a l = true → lat.entry b l = true → lat.entry m l = true

/-- The labels of a relation that passes, ordered by dominance. -/
def PassesChecks.OrderedLabel {lat : SecurityLattice} (_ : PassesChecks lat) : Type :=
  Fin lat.count

instance {lat : SecurityLattice} (passes : PassesChecks lat) : PartialOrder passes.OrderedLabel where
  le a b := lat.entry b a = true
  le_refl := passes.reflexive
  le_trans a b c lower upper := passes.transitive c b a upper lower
  le_antisymm a b below above := passes.antisymmetric a b above below

instance {lat : SecurityLattice} (passes : PassesChecks lat) : Finite passes.OrderedLabel :=
  inferInstanceAs (Finite (Fin lat.count))

/-- Two labels below two others have a label in between. -/
def LabelsInterpolate (lat : SecurityLattice) : Prop :=
  ∀ low low' high high', lat.entry high low = true → lat.entry high' low = true →
    lat.entry high low' = true → lat.entry high' low' = true →
    ∃ middle, lat.entry middle low = true ∧ lat.entry middle low' = true ∧
      lat.entry high middle = true ∧ lat.entry high' middle = true

theorem passesChecks_of_isBoundedLattice {lat : SecurityLattice}
    (lattice : IsBoundedLattice lat) : PassesChecks lat where
  reflexive := lattice.reflexive
  antisymmetric := lattice.antisymmetric
  transitive := lattice.transitive
  bottomBound a := by
    rw [SecurityLattice.access_entry a ⟨lat.bottom.toNat, lattice.bottomLt⟩, lattice.bottomLeast a]
  topBound a := by
    rw [SecurityLattice.access_entry ⟨lat.top.toNat, lattice.topLt⟩ a, lattice.topGreatest a]
  upperBounds a b := by
    obtain ⟨j, aboveA, aboveB, _⟩ := lattice.joins a b
    exact ⟨j, aboveA, aboveB⟩
  lowerBounds a b := by
    obtain ⟨m, belowA, belowB, _⟩ := lattice.meets a b
    exact ⟨m, belowA, belowB⟩

theorem IsBoundedLattice.interpolates {lat : SecurityLattice} (lattice : IsBoundedLattice lat) :
    LabelsInterpolate lat :=
  @interpolates_of_joins (passesChecks_of_isBoundedLattice lattice).OrderedLabel _ lattice.joins

/-- Among the relations that pass, interpolation and in-range bounds are what is
missing from a bounded lattice. -/
theorem PassesChecks.isBoundedLattice {lat : SecurityLattice} (passes : PassesChecks lat)
    (bottomLt : lat.bottom.toNat < lat.count) (topLt : lat.top.toNat < lat.count)
    (interpolates : LabelsInterpolate lat) : IsBoundedLattice lat := by
  have interpolates' : Interpolates passes.OrderedLabel := interpolates
  refine ⟨bottomLt, topLt, passes.reflexive, passes.antisymmetric, passes.transitive, ?_, ?_, ?_, ?_⟩
  · intro a
    simpa [SecurityLattice.access_entry a ⟨lat.bottom.toNat, bottomLt⟩] using passes.bottomBound a
  · intro a
    simpa [SecurityLattice.access_entry ⟨lat.top.toNat, topLt⟩ a] using passes.topBound a
  · intro a b
    obtain ⟨u, aboveA, aboveB⟩ := passes.upperBounds a b
    exact interpolates'.exists_join aboveA aboveB
  · intro a b
    obtain ⟨l, belowA, belowB⟩ := passes.lowerBounds a b
    exact interpolates'.exists_meet belowA belowB

/-- `verify` decides the axioms exactly on the matrices whose relation, when it
passes the seven loops, interpolates and has `bottom` and `top` below `count`. -/
theorem verify_decides_axioms_iff (lat : SecurityLattice) :
    (lat.verify = some (true, "") ↔ IsBoundedLattice lat) ↔
      (PassesChecks lat →
        lat.bottom.toNat < lat.count ∧ lat.top.toNat < lat.count ∧ LabelsInterpolate lat) := by
  rw [verify_accepts_iff]
  constructor
  · intro decides passes
    have lattice := decides.mp passes
    exact ⟨lattice.bottomLt, lattice.topLt, lattice.interpolates⟩
  · intro condition
    refine ⟨fun passes => ?_, passesChecks_of_isBoundedLattice⟩
    obtain ⟨bottomLt, topLt, interpolates⟩ := condition passes
    exact passes.isBoundedLattice bottomLt topLt interpolates

/-- Six labels: 0 below 1 and 2, both below 3 and 4, both below 5. -/
def crossed : SecurityLattice where
  dom := #v[
    #v[true, false, false, false, false, false, false, false],
    #v[true, true, false, false, false, false, false, false],
    #v[true, false, true, false, false, false, false, false],
    #v[true, true, true, true, false, false, false, false],
    #v[true, true, true, false, true, false, false, false],
    #v[true, true, true, true, true, true, false, false],
    #v[false, false, false, false, false, false, false, false],
    #v[false, false, false, false, false, false, false, false]]
  count := 6
  countLe := by decide
  bottom := 0
  top := 5

/-- The labels 1 and 2 have the common upper bounds 3, 4 and 5 and no least one;
`verify` accepts. -/
theorem verify_accepts_crossed :
    ¬ (crossed.verify = some (true, "") ↔ IsBoundedLattice crossed) := by
  have accepted : crossed.verify = some (true, "") := by decide +kernel
  have noJoin : ∀ a b : Fin crossed.count, a.val = 1 → b.val = 2 →
      ¬ ∃ j, crossed.entry j a = true ∧ crossed.entry j b = true ∧
        ∀ u, crossed.entry u a = true → crossed.entry u b = true → crossed.entry u j = true := by
    decide +kernel
  intro decides
  exact noJoin ⟨1, by decide⟩ ⟨2, by decide⟩ rfl rfl ((decides.mp accepted).joins _ _)

end AxiomKernel.Lattice
