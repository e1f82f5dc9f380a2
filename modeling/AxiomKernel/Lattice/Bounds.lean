import Mathlib
import AxiomKernel.Lib.Bytes
import AxiomKernel.Lib.FinitePoset
import AxiomKernel.Lattice.SecurityLattice
import AxiomKernel.Lattice.Flow

/-!
# What `join` and `meet` return

`join` takes the first common upper bound in the numbering of the labels, so it is
the least one exactly when the numbering goes up with dominance.  `meet` keeps the
higher of the candidates it compares, and ends with a maximal one in any numbering.
-/

set_option autoImplicit false

namespace AxiomKernel.Lattice

open ByteStrings FinitePosets

namespace SecurityLattice

/-- `l` is the least label that dominates both. -/
def IsJoin (lat : SecurityLattice) (a b l : Label) : Prop :=
  (lat.dominates l a = true ∧ lat.dominates l b = true) ∧
    ∀ u, lat.dominates u a = true → lat.dominates u b = true → lat.dominates u l = true

/-- `l` is the greatest label that both dominate. -/
def IsMeet (lat : SecurityLattice) (a b l : Label) : Prop :=
  (lat.dominates a l = true ∧ lat.dominates b l = true) ∧
    ∀ u, lat.dominates a u = true → lat.dominates b u = true → lat.dominates l u = true

/-- Both dominate `l`, and nothing else that both dominate dominates `l`. -/
def IsMaximalBelow (lat : SecurityLattice) (a b l : Label) : Prop :=
  (lat.dominates a l = true ∧ lat.dominates b l = true) ∧
    ∀ u, lat.dominates a u = true → lat.dominates b u = true → lat.dominates u l = true → u = l

variable {lat : SecurityLattice}

theorem label_of_lt {l : Label} (inside : l.toNat < lat.count) :
    lat.label ⟨l.toNat, inside⟩ = l := by
  rw [← BitVec.toNat_inj, label_toNat]

theorem mem_labels_of_lt {l : Label} (inside : l.toNat < lat.count) :
    l ∈ (List.finRange lat.count).map lat.label :=
  List.mem_map.mpr ⟨⟨l.toNat, inside⟩, List.mem_finRange _, label_of_lt inside⟩

theorem lt_of_dominates {a b : Label} (above : lat.dominates a b = true) :
    a.toNat < lat.count ∧ b.toNat < lat.count := by
  obtain ⟨aLt, bLt, -⟩ := (lat.dominates_iff a b).mp above
  exact ⟨aLt, bLt⟩

/-- `join` returns the common upper bound with the smallest number. -/
theorem join_eq_some_iff (a b l : Label) :
    lat.join a b = some l ↔ (lat.dominates l a = true ∧ lat.dominates l b = true) ∧
      ∀ u, u.toNat < l.toNat → ¬ (lat.dominates u a = true ∧ lat.dominates u b = true) := by
  rw [join, List.find?_eq_some_iff_getElem]
  simp only [Bool.and_eq_true, List.getElem_map, List.length_map, List.getElem_finRange,
    List.length_finRange, Bool.not_eq_true', Fin.cast_mk]
  constructor
  · intro first
    obtain ⟨common, i, inside, same, earlier⟩ := first
    refine ⟨common, ?_⟩
    intro u smaller both
    rw [← same, label_toNat] at smaller
    have skipped := earlier u.toNat smaller
    rw [label_of_lt (lt_of_dominates both.1).1, both.1, both.2] at skipped
    cases skipped
  · intro first
    obtain ⟨common, smallest⟩ := first
    have inside := (lt_of_dominates common.1).1
    refine ⟨common, l.toNat, inside, label_of_lt inside, ?_⟩
    intro j smaller
    have below : (lat.label ⟨j, smaller.trans inside⟩).toNat < l.toNat := by
      rw [label_toNat]
      exact smaller
    have notCommon := smallest _ below
    rw [← Bool.and_eq_true, Bool.not_eq_true] at notCommon
    exact notCommon

/-! ## The least upper bound -/

end SecurityLattice

theorem PassesChecks.dominates_refl {lat : SecurityLattice} (passes : PassesChecks lat) {l : Label}
    (inside : l.toNat < lat.count) : lat.dominates l l = true :=
  (lat.dominates_iff l l).mpr ⟨inside, inside, passes.reflexive _⟩

theorem PassesChecks.dominates_antisymm {lat : SecurityLattice} (passes : PassesChecks lat)
    {a b : Label} (above : lat.dominates a b = true) (below : lat.dominates b a = true) : a = b := by
  obtain ⟨aLt, bLt, aboveEntry⟩ := (lat.dominates_iff a b).mp above
  obtain ⟨_, _, belowEntry⟩ := (lat.dominates_iff b a).mp below
  have same : a.toNat = b.toNat :=
    Fin.mk.inj (passes.antisymmetric _ _ aboveEntry belowEntry)
  exact BitVec.toNat_inj.mp same

/-- `join` finds least upper bounds exactly when a label that dominates another never
has a smaller number. -/
theorem join_least_iff (lat : SecurityLattice) (accepted : lat.verify = some (true, "")) :
    (∀ a b l, a.toNat < lat.count → b.toNat < lat.count → lat.IsJoin a b l →
      lat.join a b = some l) ↔
      ∀ low high, lat.dominates high low = true → low.toNat ≤ high.toNat := by
  have passes := (verify_accepts_iff lat).mp accepted
  constructor
  · intro least low high above
    -- the least upper bound of a label with itself is the label
    have lowLt := (SecurityLattice.lt_of_dominates above).2
    have itself : lat.IsJoin low low low :=
      ⟨⟨passes.dominates_refl lowLt, passes.dominates_refl lowLt⟩, fun _ upper _ => upper⟩
    have found := least low low low lowLt lowLt itself
    by_contra smaller
    exact ((SecurityLattice.join_eq_some_iff low low low).mp found).2 high (by omega) ⟨above, above⟩
  · intro numbered a b l _ _ ⟨common, isLeast⟩
    refine (SecurityLattice.join_eq_some_iff a b l).mpr ⟨common, ?_⟩
    intro u smaller both
    have above := numbered l u (isLeast u both.1 both.2)
    omega

theorem dominates_defaultBlp {low high : Label}
    (above : SecurityLattice.defaultBlp.dominates high low = true) : low.toNat ≤ high.toNat := by
  obtain ⟨_, _, entry⟩ := (SecurityLattice.defaultBlp.dominates_iff high low).mp above
  simp only [SecurityLattice.entry, SecurityLattice.defaultBlp, Vector.get_ofFn] at entry
  exact (of_decide_eq_true entry).2

/-- The levels of `default_blp` are numbered from the bottom. -/
theorem join_least_defaultBlp :
    SecurityLattice.defaultBlp.verify = some (true, "") ∧
      ∀ a b l, a.toNat < 4 → b.toNat < 4 → SecurityLattice.defaultBlp.IsJoin a b l →
        SecurityLattice.defaultBlp.join a b = some l := by
  have accepted : SecurityLattice.defaultBlp.verify = some (true, "") := by decide +kernel
  exact ⟨accepted, (join_least_iff SecurityLattice.defaultBlp accepted).mpr
    fun _ _ => dominates_defaultBlp⟩

/-- Three levels numbered from the top. -/
def topFirst : SecurityLattice where
  dom := Vector.ofFn fun i => Vector.ofFn fun j => decide (j.val < 3 ∧ i.val ≤ j.val)
  count := 3
  countLe := by decide
  bottom := 2
  top := 0

/-- The least upper bound of levels 1 and 2 is 1, but `join` returns the top. -/
theorem join_topFirst :
    topFirst.verify = some (true, "") ∧ topFirst.IsJoin 1 2 1 ∧ topFirst.join 1 2 = some 0 := by
  refine ⟨by decide +kernel, ⟨by decide +kernel, ?_⟩, by decide +kernel⟩
  intro u aboveMiddle _
  exact aboveMiddle

/-! ## The greatest lower bound -/

/-- `meet` returns a maximal common lower bound, and the greatest one if there is one. -/
theorem meet_greatest (lat : SecurityLattice) (accepted : lat.verify = some (true, ""))
    (a b : Label) (aLt : a.toNat < lat.count) (bLt : b.toNat < lat.count) :
    ∃ m, lat.meet a b = some m ∧ lat.IsMaximalBelow a b m ∧ ∀ g, lat.IsMeet a b g → m = g := by
  have passes := (verify_accepts_iff lat).mp accepted
  have someBound := (SecurityLattice.meet_isSome_iff (⟨a.toNat, aLt⟩ : Fin lat.count)
    ⟨b.toNat, bLt⟩).mpr (passes.lowerBounds _ _)
  rw [SecurityLattice.label_of_lt aLt, SecurityLattice.label_of_lt bLt] at someBound
  obtain ⟨m, found⟩ := Option.isSome_iff_exists.mp someBound
  have held : MaximalAmong (fun l => lat.dominates a l && lat.dominates b l) lat.dominates
      ((List.finRange lat.count).map lat.label) m := by
    refine foldl_scanStep_maximal ?_ ?_ _ ((SecurityLattice.meet_eq_scan a b).symm.trans found)
    · intro x y z upper lower
      exact passes.dominates_trans upper lower
    · intro x y above below
      exact passes.dominates_antisymm above below
  have common : lat.dominates a m = true ∧ lat.dominates b m = true :=
    (Bool.and_eq_true _ _).mp held.isCandidate
  have maximal : lat.IsMaximalBelow a b m := by
    refine ⟨common, ?_⟩
    intro u aboveLeft aboveRight above
    exact held.maximal u (SecurityLattice.mem_labels_of_lt (SecurityLattice.lt_of_dominates above).1)
      ((Bool.and_eq_true _ _).mpr ⟨aboveLeft, aboveRight⟩) above
  refine ⟨m, found, maximal, ?_⟩
  intro g ⟨gCommon, greatest⟩
  exact (maximal.2 g gCommon.1 gCommon.2 (greatest m common.1 common.2)).symm

theorem meet_greatest_topFirst :
    topFirst.verify = some (true, "") ∧
      ∃ m, topFirst.meet 0 1 = some m ∧ topFirst.IsMaximalBelow 0 1 m ∧
        ∀ g, topFirst.IsMeet 0 1 g → m = g := by
  have accepted : topFirst.verify = some (true, "") := by decide +kernel
  exact ⟨accepted, meet_greatest topFirst accepted 0 1 (by decide) (by decide)⟩

end AxiomKernel.Lattice
