import Mathlib

/-!
# A queue in a ring of optional slots

A queue of at most `n` items lies in `n` slots from `head` on, round the end of
the ring; the other slots are empty.  `Queued.push` and `Queued.pop` say that
writing behind the last item and taking out the first are the operations of a
queue.
-/

set_option autoImplicit false

namespace RingQueues

variable {α : Type} {n : Nat}

theorem get_set (slots : Vector (Option α) n) {i : Nat} (inside : i < n) (value : Option α)
    (slot : Fin n) :
    (slots.set i value inside).get slot = if i = slot.val then value else slots.get slot := by
  rw [Vector.get_eq_getElem, Vector.getElem_set, Vector.get_eq_getElem]

theorem offset_inj {head i j : Nat} (iLt : i < n) (jLt : j < n)
    (same : (head + i) % n = (head + j) % n) : i = j := by
  have congruent : i ≡ j [MOD n] := Nat.ModEq.add_left_cancel' head same
  rwa [Nat.ModEq, Nat.mod_eq_of_lt iLt, Nat.mod_eq_of_lt jLt] at congruent

variable [NeZero n]

/-- The items lie in order in the slots from `head` on, and no others are stored. -/
structure Queued (slots : Vector (Option α) n) (head : Nat) (items : List α) : Prop where
  bounded : items.length ≤ n
  stored : ∀ k < n, slots.get (Fin.ofNat n (head + k)) = items[k]?

theorem queued_nil (head : Nat) : Queued (Vector.replicate n (none : Option α)) head [] where
  bounded := Nat.zero_le n
  stored := by
    intro k _
    rw [Vector.get_eq_getElem, Vector.getElem_replicate, List.getElem?_nil]

theorem Queued.push {slots : Vector (Option α) n} {head tail : Nat} {items : List α}
    (queued : Queued slots head items) (room : items.length < n) (item : α) (inside : tail < n)
    (atTail : tail = (head + items.length) % n) :
    Queued (slots.set tail (some item) inside) head (items ++ [item]) where
  bounded := by
    rw [List.length_append]
    exact room
  stored := by
    intro k kLt
    rw [get_set]
    by_cases last : k = items.length
    · have sameSlot : tail = (Fin.ofNat n (head + k)).val := by rw [atTail, last, Fin.val_ofNat]
      rw [if_pos sameSlot, last, List.getElem?_concat_length]
    · have otherSlot : tail ≠ (Fin.ofNat n (head + k)).val := by
        rw [atTail, Fin.val_ofNat]
        intro same
        exact last (offset_inj kLt room same.symm)
      rw [if_neg otherSlot, queued.stored k kLt]
      by_cases earlier : k < items.length
      · rw [List.getElem?_append_left earlier]
      · rw [List.getElem?_eq_none (by omega),
          List.getElem?_eq_none (by rw [List.length_append, List.length_singleton]; omega)]

theorem Queued.front {slots : Vector (Option α) n} {head : Nat} {items : List α}
    (queued : Queued slots head items) : slots.get (Fin.ofNat n head) = items.head? := by
  rw [List.head?_eq_getElem?]
  exact queued.stored 0 (Nat.pos_of_ne_zero (NeZero.ne n))

theorem Queued.pop {slots : Vector (Option α) n} {head : Nat} {item : α} {rest : List α}
    (queued : Queued slots head (item :: rest)) (inside : head < n) :
    Queued (slots.set head none inside) ((head + 1) % n) rest where
  bounded := Nat.le_of_succ_le queued.bounded
  stored := by
    intro k kLt
    have bounded := queued.bounded
    rw [List.length_cons] at bounded
    have slotEq : Fin.ofNat n ((head + 1) % n + k) = Fin.ofNat n (head + (k + 1)) := by
      apply Fin.ext
      rw [Fin.val_ofNat, Fin.val_ofNat, Nat.mod_add_mod, Nat.add_assoc, Nat.add_comm 1 k]
    rw [slotEq, get_set, Fin.val_ofNat]
    by_cases wrapped : k + 1 = n
    · -- one round on: the slot just emptied, behind the last item
      rw [if_pos (by rw [wrapped, Nat.add_mod_right, Nat.mod_eq_of_lt inside]),
        List.getElem?_eq_none (by omega)]
    · have nextLt : k + 1 < n := by omega
      have otherSlot : head ≠ (head + (k + 1)) % n := by
        intro same
        have offsets := offset_inj (Nat.zero_lt_of_lt nextLt) nextLt
          ((Nat.mod_eq_of_lt inside).trans same)
        cases offsets
      rw [if_neg otherSlot]
      exact queued.stored (k + 1) nextLt

end RingQueues
