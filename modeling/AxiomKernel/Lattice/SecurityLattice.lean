import Mathlib
import AxiomKernel.Lib.Bytes
import AxiomKernel.Lib.FinitePoset

/-!
# The dynamic security lattice

Model of `lattice.rs`: the dominance matrix of up to eight labels, `dominates`,
the flow checks, `join`, `meet` and `verify`.

A label is its index, a `u8`.  The matrix is 8 by 8, so the loops over the first
`count` labels stay inside it; `bottom` and `top` are used as raw indices by
`verify`, and one of 8 or more stops it with a bounds panic (`none`).
-/

set_option autoImplicit false

namespace AxiomKernel.Lattice

open ByteStrings FinitePosets

abbrev Label := U8

/-- `dom[a][b]`: label `a` dominates label `b`. -/
structure SecurityLattice where
  dom : Vector (Vector Bool 8) 8
  count : Nat
  countLe : count ≤ 8
  bottom : U8
  top : U8

namespace SecurityLattice
variable (lat : SecurityLattice)

/-- The matrix entry of two labels that the loops range over. -/
def entry (a b : Fin lat.count) : Bool :=
  (lat.dom.get (a.castLE lat.countLe)).get (b.castLE lat.countLe)

def label (i : Fin lat.count) : Label := BitVec.ofNat 8 i.val

def dominates (a b : Label) : Bool :=
  if inside : a.toNat < lat.count ∧ b.toNat < lat.count then
    lat.entry ⟨a.toNat, inside.1⟩ ⟨b.toNat, inside.2⟩
  else false

def mayRead (subject obj : Label) : Bool := lat.dominates subject obj

def mayWrite (subject obj : Label) : Bool := lat.dominates obj subject

/-- The first label that dominates both. -/
def join (a b : Label) : Option Label :=
  ((List.finRange lat.count).map lat.label).find? fun l => lat.dominates l a && lat.dominates l b

/-- One iteration of the loop of `meet`. -/
def meetStep (a b : Label) (best : Option Label) (l : Label) : Option Label :=
  if lat.dominates a l && lat.dominates b l then
    some (match best with
      | none => l
      | some prev => if lat.dominates l prev then l else prev)
  else best

def meet (a b : Label) : Option Label :=
  ((List.finRange lat.count).map lat.label).foldl (lat.meetStep a b) none

/-- A matrix access with raw indices; `none` is the bounds panic. -/
def access (i j : Nat) : Option Bool :=
  if inside : i < 8 ∧ j < 8 then some ((lat.dom.get ⟨i, inside.1⟩).get ⟨j, inside.2⟩) else none

/-- Each `any` is a loop that returns at the first violation; the reasons are
the source's. -/
def verify : Option (Bool × String) := do
  let labels := List.finRange lat.count
  if labels.any fun i => !lat.entry i i then
    return (false, "reflexivity violated")
  if labels.any fun i => labels.any fun j => i != j && lat.entry i j && lat.entry j i then
    return (false, "antisymmetry violated")
  if labels.any fun i => labels.any fun j => labels.any fun k =>
      lat.entry i j && lat.entry j k && !lat.entry i k then
    return (false, "transitivity violated")
  let bot := lat.bottom.toNat
  if ← labels.anyM fun i => (lat.access i.val bot).map not then
    return (false, "bottom bound violated")
  let top := lat.top.toNat
  if ← labels.anyM fun i => (lat.access top i.val).map not then
    return (false, "top bound violated")
  if labels.any fun i => labels.any fun j => (lat.join (lat.label i) (lat.label j)).isNone then
    return (false, "join does not exist")
  if labels.any fun i => labels.any fun j => (lat.meet (lat.label i) (lat.label j)).isNone then
    return (false, "meet does not exist")
  return (true, "")

end SecurityLattice

/-! ## Labels as indices -/

namespace SecurityLattice
variable {lat : SecurityLattice}

theorem label_toNat (i : Fin lat.count) : (lat.label i).toNat = i.val := by
  have bound := lat.countLe
  rw [label, BitVec.toNat_ofNat, Nat.mod_eq_of_lt (by omega)]

theorem dominates_label (a b : Fin lat.count) :
    lat.dominates (lat.label a) (lat.label b) = lat.entry a b := by
  have inside : (lat.label a).toNat < lat.count ∧ (lat.label b).toNat < lat.count := by
    rw [label_toNat, label_toNat]
    exact ⟨a.isLt, b.isLt⟩
  rw [dominates, dif_pos inside]
  congr 1 <;> exact Fin.ext (label_toNat _)

theorem join_isSome_iff (a b : Fin lat.count) :
    (lat.join (lat.label a) (lat.label b)).isSome = true ↔
      ∃ u, lat.entry u a = true ∧ lat.entry u b = true := by
  rw [join, List.find?_isSome]
  simp [dominates_label]

theorem meet_eq_scan (a b : Label) :
    lat.meet a b = ((List.finRange lat.count).map lat.label).foldl
      (scanStep (fun l => lat.dominates a l && lat.dominates b l) lat.dominates) none := by
  have step : lat.meetStep a b =
      scanStep (fun l => lat.dominates a l && lat.dominates b l) lat.dominates := by
    funext best l
    cases best <;> rfl
  rw [meet, step]

theorem meet_isSome_iff (a b : Fin lat.count) :
    (lat.meet (lat.label a) (lat.label b)).isSome = true ↔
      ∃ l, lat.entry a l = true ∧ lat.entry b l = true := by
  rw [meet_eq_scan, foldl_scanStep_isSome_iff]
  simp [dominates_label]

theorem access_entry (a b : Fin lat.count) : lat.access a.val b.val = some (lat.entry a b) := by
  have bound := lat.countLe
  rw [access, dif_pos ⟨by omega, by omega⟩]
  rfl

end SecurityLattice

/-! ## What `verify` checks -/

/-- The relation the seven loops let through.  Bounds are looked up at the raw
indices, and joins and meets only have to be some common bound. -/
structure PassesChecks (lat : SecurityLattice) : Prop where
  reflexive : ∀ a, lat.entry a a = true
  antisymmetric : ∀ a b, lat.entry a b = true → lat.entry b a = true → a = b
  transitive : ∀ a b c, lat.entry a b = true → lat.entry b c = true → lat.entry a c = true
  bottomBound : ∀ a : Fin lat.count, lat.access a.val lat.bottom.toNat = some true
  topBound : ∀ a : Fin lat.count, lat.access lat.top.toNat a.val = some true
  upperBounds : ∀ a b, ∃ u, lat.entry u a = true ∧ lat.entry u b = true
  lowerBounds : ∀ a b, ∃ l, lat.entry a l = true ∧ lat.entry b l = true

theorem anyM_not_eq_some_false_iff {α : Type} (items : List α) (found : α → Option Bool) :
    items.anyM (fun item => (found item).map not) = some false ↔
      ∀ item ∈ items, found item = some true := by
  induction items with
  | nil => simp [List.anyM]
  | cons item rest inductionHypothesis =>
      rw [List.anyM, List.forall_mem_cons, ← inductionHypothesis]
      rcases found item with _ | _ | _ <;> simp

theorem check_accepts_iff (violated : Bool) (reason : String) (rest : Option (Bool × String)) :
    (if violated = true then pure (false, reason) else rest) = some (true, "") ↔
      violated = false ∧ rest = some (true, "") := by
  cases violated <;> simp

theorem checkM_accepts_iff (violated : Option Bool) (reason : String)
    (rest : Option (Bool × String)) :
    (do if ← violated then pure (false, reason) else rest) = some (true, "") ↔
      violated = some false ∧ rest = some (true, "") := by
  rcases violated with _ | _ | _ <;> simp

theorem verify_accepts_iff (lat : SecurityLattice) :
    lat.verify = some (true, "") ↔ PassesChecks lat := by
  rw [SecurityLattice.verify, check_accepts_iff, check_accepts_iff, check_accepts_iff,
    checkM_accepts_iff, checkM_accepts_iff, check_accepts_iff, check_accepts_iff,
    anyM_not_eq_some_false_iff, anyM_not_eq_some_false_iff]
  simp only [List.any_eq_false, List.mem_finRange, forall_const, Bool.and_eq_true, bne_iff_ne,
    Bool.not_eq_true, Bool.not_eq_false, Option.isNone_eq_false_iff, Bool.not_eq_true',
    SecurityLattice.join_isSome_iff, SecurityLattice.meet_isSome_iff]
  constructor
  · rintro ⟨reflexive, antisymmetric, transitive, bottomBound, topBound, upper, lower, _⟩
    refine ⟨reflexive, ?_, ?_, bottomBound, topBound, upper, lower⟩
    · intro a b above below
      by_contra distinct
      exact antisymmetric a b ⟨⟨distinct, above⟩, below⟩
    · intro a b c upper lower
      by_contra missing
      exact transitive a b c ⟨⟨upper, lower⟩, by simpa using missing⟩
  · intro passes
    refine ⟨passes.reflexive, ?_, ?_, passes.bottomBound, passes.topBound, passes.upperBounds,
      passes.lowerBounds, rfl⟩
    · rintro a b ⟨⟨distinct, above⟩, below⟩
      exact distinct (passes.antisymmetric a b above below)
    · rintro a b c ⟨⟨upper, lower⟩, missing⟩
      simp [passes.transitive a b c upper lower] at missing

end AxiomKernel.Lattice
