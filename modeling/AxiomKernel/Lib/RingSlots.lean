import Mathlib

/-!
# A ring of optional slots

A ring of `n` slots is written at a head that moves round; reading starts at
the head, so the oldest surviving item comes first.  `Represents` ties the
slots to the unbounded sequence of all items written, and `readRing_represents`
says that reading gives the last `n` of them in order.
-/

set_option autoImplicit false

namespace RingSlots

variable {α : Type} {n : Nat} [NeZero n]

def readRing (slots : Vector (Option α) n) (head : Nat) : List α :=
  (List.range n).filterMap fun i => slots.get (Fin.ofNat n (head + i))

/-- The slots hold the last `n` items of `items`: going round the ring once from
the position of the next write, a slot is empty or holds the item written one
round earlier. -/
def Represents (slots : Vector (Option α) n) (items : List α) : Prop :=
  ∀ position, items.length ≤ position → position < items.length + n →
    slots.get (Fin.ofNat n position) =
      if position < n then none else items[position - n]?

theorem represents_empty : Represents (Vector.replicate n (none : Option α)) [] := by
  intro position _ inRound
  have inFirst : position < n := by simpa using inRound
  rw [if_pos inFirst, Vector.get_eq_getElem, Vector.getElem_replicate]

theorem Represents.push {slots : Vector (Option α) n} {items : List α}
    (represented : Represents slots items) (item : α) :
    Represents (slots.set (Fin.ofNat n items.length) (some item)) (items ++ [item]) := by
  have positive : 0 < n := Nat.pos_of_ne_zero (NeZero.ne n)
  intro position lower upper
  rw [List.length_append, List.length_singleton] at lower upper
  rw [Vector.get_eq_getElem, Vector.getElem_set]
  by_cases written : position = items.length + n
  · -- one full round later: the slot just written
    subst written
    have sameSlot : (Fin.ofNat n items.length).val = (Fin.ofNat n (items.length + n)).val := by
      simp
    rw [if_pos sameSlot, if_neg (by omega), Nat.add_sub_cancel]
    simp
  · have otherSlot : (Fin.ofNat n items.length).val ≠ (Fin.ofNat n position).val := by
      intro same
      simp only [Fin.val_ofNat] at same
      have divides : n ∣ position - items.length :=
        (Nat.modEq_iff_dvd' (by omega)).mp same
      have small := Nat.le_of_dvd (by omega) divides
      omega
    rw [if_neg otherSlot, ← Vector.get_eq_getElem, represented position (by omega) (by omega)]
    split
    · rfl
    · rw [List.getElem?_append_left (by omega)]

theorem filterMap_range_getElem? (items : List α) (count : Nat) :
    (List.range count).filterMap (fun i => items[i]?) = items.take count := by
  induction count with
  | zero => simp
  | succ count inductionHypothesis =>
      rw [List.range_succ, List.filterMap_append, inductionHypothesis, List.take_add_one]
      cases found : items[count]? <;> simp [found]

/-- Reading from the head yields the last `n` items in the order written. -/
theorem readRing_represents {slots : Vector (Option α) n} {items : List α}
    (represented : Represents slots items) :
    readRing slots items.length = items.drop (items.length - n) := by
  have splitRange : List.range n = List.range (n - items.length) ++
      (List.range (n - (n - items.length))).map fun i => n - items.length + i := by
    rw [← List.range_add]
    congr 1
    omega
  rw [readRing, splitRange, List.filterMap_append, List.filterMap_map]
  have emptyFront : (List.range (n - items.length)).filterMap
      (fun i => slots.get (Fin.ofNat n (items.length + i))) = [] := by
    rw [List.filterMap_eq_nil_iff]
    intro i member
    have iBound := List.mem_range.mp member
    rw [represented _ (by omega) (by omega), if_pos (by omega)]
  have fullBack : (List.range (n - (n - items.length))).filterMap
      ((fun i => slots.get (Fin.ofNat n (items.length + i))) ∘ fun i => n - items.length + i) =
      (List.range (n - (n - items.length))).filterMap
        fun i => (items.drop (items.length - n))[i]? := by
    apply List.filterMap_congr
    intro i member
    have iBound := List.mem_range.mp member
    rw [Function.comp_apply, represented _ (by omega) (by omega), if_neg (by omega),
      List.getElem?_drop]
    congr 1
    omega
  rw [emptyFront, fullBack, filterMap_range_getElem?, List.nil_append,
    List.take_of_length_le (by rw [List.length_drop]; omega)]

theorem exists_offset (start : Nat) (slot : Fin n) :
    ∃ i < n, Fin.ofNat n (start + i) = slot := by
  have startLt := Nat.mod_lt start slot.pos
  refine ⟨(slot.val + (n - start % n)) % n, Nat.mod_lt _ slot.pos, Fin.ext ?_⟩
  have round : start % n + (slot.val + (n - start % n)) = slot.val + n := by omega
  rw [Fin.val_ofNat, Nat.add_mod_mod, ← Nat.mod_add_mod, round, Nat.add_mod_right,
    Nat.mod_eq_of_lt slot.isLt]

theorem mem_readRing_iff {slots : Vector (Option α) n} {head : Nat} {item : α} :
    item ∈ readRing slots head ↔ ∃ slot, slots.get slot = some item := by
  rw [readRing, List.mem_filterMap]
  constructor
  · rintro ⟨i, _, stored⟩
    exact ⟨_, stored⟩
  · rintro ⟨slot, stored⟩
    obtain ⟨i, iBound, rfl⟩ := exists_offset head slot
    exact ⟨i, List.mem_range.mpr iBound, stored⟩

theorem readRing_nodup {slots : Vector (Option α) n} (head : Nat)
    (once : ∀ left right item, slots.get left = some item → slots.get right = some item →
      left = right) : (readRing slots head).Nodup := by
  rw [readRing, List.Nodup, List.pairwise_filterMap]
  refine (List.pairwise_lt_range (n := n)).imp_of_mem ?_
  rintro i j iMember jMember iLt left leftStored right rightStored rfl
  have jBound := List.mem_range.mp jMember
  have sameSlot := congrArg Fin.val (once _ _ _ leftStored rightStored)
  simp only [Fin.val_ofNat] at sameSlot
  have divides : n ∣ head + j - (head + i) := (Nat.modEq_iff_dvd' (by omega)).mp sameSlot
  have small := Nat.le_of_dvd (by omega) divides
  omega

theorem Represents.once {slots : Vector (Option α) n} {items : List α}
    (represented : Represents slots items) (nodup : items.Nodup) {left right : Fin n} {item : α}
    (leftStored : slots.get left = some item) (rightStored : slots.get right = some item) :
    left = right := by
  have reachedAt : ∀ slot : Fin n, slots.get slot = some item →
      ∃ position, n ≤ position ∧ Fin.ofNat n position = slot ∧ items[position - n]? = some item := by
    intro slot stored
    obtain ⟨i, iBound, rfl⟩ := exists_offset items.length slot
    rw [represented _ (by omega) (by omega)] at stored
    split at stored
    case isTrue => simp at stored
    case isFalse late => exact ⟨items.length + i, by omega, rfl, stored⟩
  obtain ⟨p, pLower, rfl, foundLeft⟩ := reachedAt left leftStored
  obtain ⟨q, qLower, rfl, foundRight⟩ := reachedAt right rightStored
  have bound : p - n < items.length := (List.getElem?_eq_some_iff.mp foundLeft).1
  have same := (List.getElem?_inj bound nodup).mp (foundLeft.trans foundRight.symm)
  congr 1
  omega

end RingSlots
