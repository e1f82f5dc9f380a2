import Mathlib

/-!
# Hash-linked histories

Records carry a `link`, the digest of the record before them.  A history is a
linked list whose first link is a fixed root.  When digests do not collide on
the history, the linked lists of its records are exactly its contiguous blocks
(`linked_iff_infix`).  The last two sections say when the items left by a
deletion or a rearrangement are contiguous (`infix_iff_ordered_and_convex`).
-/

set_option autoImplicit false

namespace HashChains

section Chains
variable {E D : Type} (digest link : E → D) (root : D)

/-- Every record's link is the digest of the record before it. -/
def Linked (records : List E) : Prop :=
  records.IsChain fun earlier later => link later = digest earlier

/-- A linked list that starts at the root. -/
structure History (records : List E) : Prop where
  linked : Linked digest link records
  rooted : ∀ first, records.head? = some first → link first = root

/-- Digests separate the records from each other and from the root. -/
structure CollisionFree (records : List E) : Prop where
  separates : ∀ left ∈ records, ∀ right ∈ records, digest left = digest right → left = right
  avoidsRoot : ∀ record ∈ records, digest record ≠ root

variable {digest link root}

theorem History.nil : History digest link root [] :=
  ⟨List.isChain_nil, by simp⟩

theorem History.snoc {records : List E} {record : E} (history : History digest link root records)
    (tip : link record = (records.getLast?.map digest).getD root) :
    History digest link root (records ++ [record]) := by
  constructor
  · apply List.IsChain.append history.linked (List.isChain_singleton record)
    intro last lastMem first firstMem
    have firstEq : record = first := by simpa using firstMem
    have lastEq : records.getLast? = some last := lastMem
    rw [← firstEq, tip, lastEq]
    rfl
  · intro first isFirst
    cases records with
    | nil =>
        have firstEq : record = first := by simpa using isFirst
        rw [← firstEq, tip]
        rfl
    | cons head rest =>
        apply history.rooted first
        simpa using isFirst

theorem History.link_eq {before after : List E} {record : E}
    (history : History digest link root (before ++ record :: after)) :
    link record = (before.getLast?.map digest).getD root := by
  rcases before.eq_nil_or_concat with empty | ⟨front, last, nonempty⟩
  · subst empty
    exact history.rooted record rfl
  · subst nonempty
    have chained := history.linked
    rw [Linked, List.concat_eq_append, List.append_assoc, List.singleton_append] at chained
    have pair := (List.IsChain.right_of_append chained)
    simpa [List.concat_eq_append] using (List.isChain_cons_cons.mp pair).1

/-- Where digests do not collide, the linked lists of records of a history are
its contiguous blocks. -/
theorem linked_iff_infix {records block : List E} (history : History digest link root records)
    (free : CollisionFree digest root records) (members : ∀ record ∈ block, record ∈ records) :
    Linked digest link block ↔ block <:+: records := by
  constructor
  · intro linked
    induction block with
    | nil => exact List.nil_infix
    | cons first rest inductionHypothesis =>
        have firstMember := members first (by simp)
        cases rest with
        | nil =>
            obtain ⟨before, after, splitRecords⟩ := List.append_of_mem firstMember
            exact ⟨before, after, by simp [splitRecords]⟩
        | cons second tail =>
            have pair := List.isChain_cons_cons.mp linked
            obtain ⟨before, after, splitRecords⟩ := inductionHypothesis
              (fun record member => members record (by simp [member])) pair.2
            -- the second record's predecessor in the history can only be the first
            have placed : before ++ second :: (tail ++ after) = records := by
              simpa using splitRecords
            have linkEq := History.link_eq (placed ▸ history)
            rw [pair.1] at linkEq
            rcases before.eq_nil_or_concat with empty | ⟨front, last, nonempty⟩
            · subst empty
              exact absurd linkEq (free.avoidsRoot first firstMember)
            · subst nonempty
              have lastMember : last ∈ records := by
                rw [← placed]
                simp
              have same : first = last := by
                apply free.separates first firstMember last lastMember
                simpa using linkEq
              subst same
              exact ⟨front, after, by simpa using placed⟩
  · intro contiguous
    exact history.linked.infix contiguous

end Chains

/-! ## Survivors of a deletion -/

section Survivors
variable {α : Type} (keep : α → Bool)

def NoGap (items : List α) : Prop :=
  ∀ (i j k : Nat) (first middle last : α), i < j → j < k →
    items[i]? = some first → items[j]? = some middle → items[k]? = some last →
    keep first = true → keep last = true → keep middle = true

variable {keep}

theorem NoGap.tail {head : α} {rest : List α} (noGap : NoGap keep (head :: rest)) :
    NoGap keep rest := by
  intro i j k first middle last iLt jLt foundFirst foundMiddle foundLast
  exact noGap (i + 1) (j + 1) (k + 1) first middle last (by omega) (by omega)
    (by simpa using foundFirst) (by simpa using foundMiddle) (by simpa using foundLast)

/-- Behind a kept head the kept elements come first. -/
theorem filter_prefix_of_noGap (head : α) (rest : List α) (kept : keep head = true)
    (noGap : NoGap keep (head :: rest)) : rest.filter keep <+: rest := by
  induction rest generalizing head with
  | nil => simp
  | cons next tail inductionHypothesis =>
      cases nextKept : keep next with
      | true =>
          rw [List.filter_cons_of_pos nextKept]
          exact List.prefix_cons_inj next |>.mpr
            (inductionHypothesis next nextKept noGap.tail)
      | false =>
          have noneLeft : (next :: tail).filter keep = [] := by
            rw [List.filter_eq_nil_iff]
            intro item member itemKept
            rcases List.mem_cons.mp member with rfl | member
            · simp [nextKept] at itemKept
            · obtain ⟨k, kBound, kItem⟩ := List.getElem_of_mem member
              have middleKept := noGap 0 1 (k + 2) head next item (by omega) (by omega) rfl rfl
                (by simp [kBound, kItem]) kept itemKept
              simp [nextKept] at middleKept
          rw [noneLeft]
          exact List.nil_prefix

theorem filter_infix_of_noGap (items : List α) (noGap : NoGap keep items) :
    items.filter keep <:+: items := by
  induction items with
  | nil => simp
  | cons head rest inductionHypothesis =>
      cases kept : keep head with
      | true =>
          rw [List.filter_cons_of_pos kept]
          exact (List.prefix_cons_inj head |>.mpr
            (filter_prefix_of_noGap head rest kept noGap)).isInfix
      | false =>
          rw [List.filter_cons_of_neg (by simp [kept])]
          exact List.infix_cons (inductionHypothesis noGap.tail)

end Survivors

section Contiguous
variable {α : Type} [DecidableEq α] (rank : α → Nat)

theorem rank_injOn {items : List α}
    (increasing : items.Pairwise fun left right => rank left < rank right) :
    ∀ left ∈ items, ∀ right ∈ items, rank left = rank right → left = right := by
  intro left leftMember right rightMember same
  obtain ⟨i, iBound, rfl⟩ := List.getElem_of_mem leftMember
  obtain ⟨j, jBound, rfl⟩ := List.getElem_of_mem rightMember
  have before : ∀ m n (mBound : m < items.length) (nBound : n < items.length), m < n →
      rank items[m] < rank items[n] := List.pairwise_iff_getElem.mp increasing
  rcases lt_trichotomy i j with less | equal | greater
  · have := before i j iBound jBound less
    omega
  · subst equal
    rfl
  · have := before j i jBound iBound greater
    omega

/-- Items picked from a list that increases in `rank` form a contiguous block of
it exactly when they are in order and no item between two of them is left out. -/
theorem infix_iff_ordered_and_convex {items picked : List α}
    (increasing : items.Pairwise fun left right => rank left < rank right)
    (distinct : picked.Nodup) (members : ∀ item ∈ picked, item ∈ items) :
    picked <:+: items ↔
      (picked.Pairwise fun left right => rank left ≤ rank right) ∧
        ∀ low ∈ picked, ∀ high ∈ picked, ∀ item ∈ items,
          rank low < rank item → rank item < rank high → item ∈ picked := by
  constructor
  · rintro ⟨before, after, splitItems⟩
    have increasing' := increasing
    rw [← splitItems, List.append_assoc, List.pairwise_append, List.pairwise_append] at increasing'
    obtain ⟨_, ⟨inside, _, beforeAfter⟩, beforeInside⟩ := increasing'
    refine ⟨inside.imp fun less => le_of_lt less, ?_⟩
    intro low lowPicked high highPicked item member above below
    rw [← splitItems, List.append_assoc, List.mem_append, List.mem_append] at member
    rcases member with early | picked | late
    · have := beforeInside item early low (by simp [lowPicked])
      omega
    · exact picked
    · have := beforeAfter high highPicked item late
      omega
  · rintro ⟨ordered, convex⟩
    -- the picked items are the items kept by membership
    have itemsDistinct : items.Nodup := increasing.imp fun less same => by
      rw [same] at less
      omega
    have strictly : picked.Pairwise fun left right => rank left < rank right := by
      have both := ordered.and distinct
      refine both.imp_of_mem ?_
      rintro left right leftPicked rightPicked ⟨le, ne⟩
      refine lt_of_le_of_ne le fun same => ne ?_
      exact rank_injOn rank increasing left (members left leftPicked) right
        (members right rightPicked) same
    have kept : items.filter (fun item => decide (item ∈ picked)) = picked := by
      have perm : (items.filter (fun item => decide (item ∈ picked))).Perm picked := by
        rw [List.perm_ext_iff_of_nodup (itemsDistinct.filter _) distinct]
        intro item
        simp only [List.mem_filter, decide_eq_true_eq]
        exact ⟨fun both => both.2, fun isPicked => ⟨members item isPicked, isPicked⟩⟩
      refine perm.eq_of_pairwise ?_ (increasing.filter _) strictly
      intro left right _ _ less greater
      omega
    rw [← kept]
    apply filter_infix_of_noGap
    intro i j k first middle last iLt jLt foundFirst foundMiddle foundLast keptFirst keptLast
    simp only [decide_eq_true_eq] at keptFirst keptLast ⊢
    have rankLt : ∀ {m n : Nat} {x y : α}, m < n → items[m]? = some x → items[n]? = some y →
        rank x < rank y := by
      intro m n x y mLt foundX foundY
      obtain ⟨mBound, rfl⟩ := List.getElem?_eq_some_iff.mp foundX
      obtain ⟨nBound, rfl⟩ := List.getElem?_eq_some_iff.mp foundY
      exact List.pairwise_iff_getElem.mp increasing m n mBound nBound mLt
    exact convex first keptFirst last keptLast middle (List.mem_of_getElem? foundMiddle)
      (rankLt iLt foundFirst foundMiddle) (rankLt jLt foundMiddle foundLast)

end Contiguous

/-! ## Chains with the same end -/

section SameEnd
variable {E : Type} {parentOf : E → E → Prop}

theorem parentOf_last {front : List E} {last parent : E}
    (chain : (front ++ [last]).IsChain parentOf) (before : front.getLast? = some parent) :
    parentOf parent last := by
  rw [List.isChain_append] at chain
  exact chain.2.2 parent before last rfl

/-- Two chains from roots that end in the same element are equal, when a child has only one parent
among them and a root has none. -/
theorem eq_of_same_end (isRoot : E → Prop) {left right : List E} (leftChain : left.IsChain parentOf)
    (rightChain : right.IsChain parentOf)
    (leftRoot : ∀ first, left.head? = some first → isRoot first)
    (rightRoot : ∀ first, right.head? = some first → isRoot first)
    (unique : ∀ p ∈ left.dropLast, ∀ q ∈ right.dropLast, ∀ child,
      parentOf p child → parentOf q child → p = q)
    (rootless : ∀ parent child, isRoot child → ¬ parentOf parent child)
    (sameEnd : left.getLast? = right.getLast?) : left = right := by
  induction left using List.reverseRecOn generalizing right with
  | nil => exact (List.getLast?_eq_none_iff.mp sameEnd.symm).symm
  | append_singleton front last inductionHypothesis =>
      rw [List.getLast?_concat] at sameEnd
      obtain ⟨front', rfl⟩ := List.getLast?_eq_some_iff.mp sameEnd.symm
      rw [List.dropLast_concat, List.dropLast_concat] at unique
      congr 1
      cases leftBefore : front.getLast? with
      | none =>
          -- the left chain is its root alone, which nothing on the right can have derived
          obtain rfl := List.getLast?_eq_none_iff.mp leftBefore
          cases rightBefore : front'.getLast? with
          | none => exact (List.getLast?_eq_none_iff.mp rightBefore).symm
          | some q =>
              exact absurd (parentOf_last rightChain rightBefore) (rootless q last (leftRoot last rfl))
      | some p =>
          have derived := parentOf_last leftChain leftBefore
          cases rightBefore : front'.getLast? with
          | none =>
              obtain rfl := List.getLast?_eq_none_iff.mp rightBefore
              exact absurd derived (rootless p last (rightRoot last rfl))
          | some q =>
              have same : p = q := unique p (List.mem_of_getLast? leftBefore) q
                (List.mem_of_getLast? rightBefore) last derived
                (parentOf_last rightChain rightBefore)
              refine inductionHypothesis leftChain.left_of_append rightChain.left_of_append ?_ ?_ ?_
                (by rw [leftBefore, rightBefore, same])
              · intro first isFirst
                exact leftRoot first (by rw [List.head?_append, isFirst]; rfl)
              · intro first isFirst
                exact rightRoot first (by rw [List.head?_append, isFirst]; rfl)
              · intro p pMem q qMem
                exact unique p (List.mem_of_mem_dropLast pMem) q (List.mem_of_mem_dropLast qMem)

end SameEnd

end HashChains
