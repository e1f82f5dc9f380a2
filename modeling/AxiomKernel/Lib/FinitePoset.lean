import Mathlib

/-!
# Joins and meets in finite posets

A finite poset in which some pair has a common upper bound need not have a least
one.  What is missing is interpolation: two elements below two others have an
element in between.  With interpolation the minimal common upper bounds are
least.  A scan that keeps a candidate whenever it is above the best one so far ends
with a maximal candidate, whatever the order of the list.
-/

set_option autoImplicit false

namespace FinitePosets

variable {α : Type*}

/-- Between two elements and two elements above both there is an element. -/
def Interpolates (α : Type*) [LE α] : Prop :=
  ∀ low low' high high' : α, low ≤ high → low ≤ high' → low' ≤ high → low' ≤ high' →
    ∃ middle, low ≤ middle ∧ low' ≤ middle ∧ middle ≤ high ∧ middle ≤ high'

theorem Interpolates.dual [LE α] (interpolates : Interpolates α) : Interpolates αᵒᵈ := by
  intro low low' high high' first second third fourth
  obtain ⟨middle, above, above', below, below'⟩ := interpolates
    (OrderDual.ofDual high) (OrderDual.ofDual high') (OrderDual.ofDual low)
    (OrderDual.ofDual low') first third second fourth
  exact ⟨OrderDual.toDual middle, below, below', above, above'⟩

variable [PartialOrder α]

/-- With interpolation, elements with a common upper bound have a least one. -/
theorem Interpolates.exists_join [Finite α] (interpolates : Interpolates α) {left right upper : α}
    (leftLe : left ≤ upper) (rightLe : right ≤ upper) :
    ∃ join, left ≤ join ∧ right ≤ join ∧
      ∀ bound, left ≤ bound → right ≤ bound → join ≤ bound := by
  have nonempty : {bound | left ≤ bound ∧ right ≤ bound}.Nonempty := ⟨upper, leftLe, rightLe⟩
  obtain ⟨join, isBound, isMinimal⟩ := (Set.toFinite _).exists_minimal nonempty
  refine ⟨join, isBound.1, isBound.2, ?_⟩
  intro bound leftBound rightBound
  -- an element under both bounds is again a bound, so it is the minimal one
  obtain ⟨middle, leftMiddle, rightMiddle, middleJoin, middleBound⟩ :=
    interpolates left right join bound isBound.1 leftBound isBound.2 rightBound
  exact (isMinimal ⟨leftMiddle, rightMiddle⟩ middleJoin).trans middleBound

theorem Interpolates.exists_meet [Finite α] (interpolates : Interpolates α) {left right lower : α}
    (leftLe : lower ≤ left) (rightLe : lower ≤ right) :
    ∃ meet, meet ≤ left ∧ meet ≤ right ∧
      ∀ bound, bound ≤ left → bound ≤ right → bound ≤ meet :=
  @Interpolates.exists_join αᵒᵈ _ _ interpolates.dual left right lower leftLe rightLe

theorem interpolates_of_joins
    (joins : ∀ left right : α, ∃ join, left ≤ join ∧ right ≤ join ∧
      ∀ bound, left ≤ bound → right ≤ bound → join ≤ bound) : Interpolates α := by
  intro low low' high high' first second third fourth
  obtain ⟨join, aboveLow, aboveLow', least⟩ := joins low low'
  exact ⟨join, aboveLow, aboveLow', least high first third, least high' second fourth⟩

/-! ## Scanning a list for a maximal candidate -/

section Scan

variable {α : Type} (candidate : α → Bool) (above : α → α → Bool)

/-- Take the item when it is a candidate and above the best one so far. -/
def scanStep (best : Option α) (item : α) : Option α :=
  if candidate item then
    some (match best with
      | none => item
      | some prev => if above item prev then item else prev)
  else best

theorem foldl_scanStep_isSome_iff (items : List α) (best : Option α) :
    (items.foldl (scanStep candidate above) best).isSome = true ↔
      best.isSome = true ∨ ∃ item ∈ items, candidate item = true := by
  induction items generalizing best with
  | nil => simp
  | cons item rest inductionHypothesis =>
      rw [List.foldl_cons, inductionHypothesis]
      by_cases isCandidate : candidate item = true
      · simp [scanStep, isCandidate]
      · have kept : scanStep candidate above best item = best := by
          unfold scanStep
          rw [if_neg isCandidate]
        rw [kept]
        simp [isCandidate]

/-- A candidate among the items that no other candidate is above. -/
structure MaximalAmong (items : List α) (best : α) : Prop where
  member : best ∈ items
  isCandidate : candidate best = true
  maximal : ∀ item ∈ items, candidate item = true → above item best = true → item = best

variable {candidate above}

theorem MaximalAmong.concat {items : List α} {item best : α}
    (held : MaximalAmong candidate above items best)
    (last : candidate item = true → above item best = true → item = best) :
    MaximalAmong candidate above (items ++ [item]) best := by
  refine ⟨List.mem_append_left [item] held.member, held.isCandidate, ?_⟩
  intro other member otherCandidate otherAbove
  rcases List.mem_append.mp member with front | isLast
  · exact held.maximal other front otherCandidate otherAbove
  · obtain rfl := List.mem_singleton.mp isLast
    exact last otherCandidate otherAbove

theorem foldl_scanStep_maximal
    (transitive : ∀ x y z, above x y = true → above y z = true → above x z = true)
    (antisymmetric : ∀ x y, above x y = true → above y x = true → x = y)
    (items : List α) {best : α}
    (found : items.foldl (scanStep candidate above) none = some best) :
    MaximalAmong candidate above items best := by
  induction items using List.reverseRecOn generalizing best with
  | nil => cases found
  | append_singleton items item inductionHypothesis =>
      rw [List.foldl_append, List.foldl_cons, List.foldl_nil, scanStep.eq_def] at found
      by_cases isCandidate : candidate item = true
      · rw [if_pos isCandidate] at found
        cases earlier : items.foldl (scanStep candidate above) none with
        | none =>
            rw [earlier] at found
            obtain rfl := Option.some.inj found
            have noCandidate := (foldl_scanStep_isSome_iff candidate above items none).not.mp
              (by rw [earlier]; simp)
            refine ⟨by simp, isCandidate, ?_⟩
            intro other member otherCandidate _
            rcases List.mem_append.mp member with front | last
            · exact absurd (Or.inr ⟨other, front, otherCandidate⟩) noCandidate
            · exact List.mem_singleton.mp last
        | some prev =>
            rw [earlier] at found
            have held := inductionHypothesis earlier
            dsimp only at found
            by_cases higher : above item prev = true
            · rw [if_pos higher] at found
              obtain rfl := Option.some.inj found
              refine ⟨by simp, isCandidate, ?_⟩
              intro other member otherCandidate otherAbove
              rcases List.mem_append.mp member with front | last
              · -- above the item means above the previous best, which only itself is
                obtain rfl := held.maximal other front otherCandidate
                  (transitive _ _ _ otherAbove higher)
                exact antisymmetric _ _ otherAbove higher
              · exact List.mem_singleton.mp last
            · rw [if_neg higher] at found
              obtain rfl := Option.some.inj found
              exact held.concat fun _ itemAbove => absurd itemAbove higher
      · rw [if_neg isCandidate] at found
        have held := inductionHypothesis found
        exact held.concat fun itemCandidate _ => absurd itemCandidate isCandidate

end Scan

end FinitePosets
