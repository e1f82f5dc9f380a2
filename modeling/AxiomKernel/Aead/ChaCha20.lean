import Mathlib
import AxiomKernel.Lib.Bytes
import AxiomKernel.Aead.Rfc8439

/-!
# The ChaCha20 block function

Model of `qr` and `chacha20_block` of `crypto_aead.rs`, and its agreement with
RFC 8439.
-/

set_option autoImplicit false

namespace AxiomKernel.Aead

open ByteStrings

/-- The quarter round, one assignment after the other. -/
def qr (s : Vector U32 16) (a b c d : Fin 16) : Vector U32 16 :=
  let s := s.set a (s[a] + s[b])
  let s := s.set d (s[d] ^^^ s[a])
  let s := s.set d (s[d].rotateLeft 16)
  let s := s.set c (s[c] + s[d])
  let s := s.set b (s[b] ^^^ s[c])
  let s := s.set b (s[b].rotateLeft 12)
  let s := s.set a (s[a] + s[b])
  let s := s.set d (s[d] ^^^ s[a])
  let s := s.set d (s[d].rotateLeft 8)
  let s := s.set c (s[c] + s[d])
  let s := s.set b (s[b] ^^^ s[c])
  s.set b (s[b].rotateLeft 7)

/-- `for i in 0..8 { s[4+i] = u32::from_le_bytes([key[o], .., key[o+3]]); }` with `o = 4 * i`. -/
def loadKey (key : Bytes 32) (s : Vector U32 16) : Vector U32 16 :=
  Nat.fold 8 (fun i bound s =>
    s.set (4 + i) (fromLeBytes 32 [key[i * 4], key[i * 4 + 1], key[i * 4 + 2], key[i * 4 + 3]])) s

def initState (key : Bytes 32) (counter : U32) (nonce : Bytes 12) : Vector U32 16 :=
  let s : Vector U32 16 := Vector.replicate 16 0
  let s := (((s.set 0 0x61707865).set 1 0x3320646e).set 2 0x79622d32).set 3 0x6b206574
  let s := loadKey key s
  let s := s.set 12 counter
  let s := s.set 13 (fromLeBytes 32 [nonce[0], nonce[1], nonce[2], nonce[3]])
  let s := s.set 14 (fromLeBytes 32 [nonce[4], nonce[5], nonce[6], nonce[7]])
  s.set 15 (fromLeBytes 32 [nonce[8], nonce[9], nonce[10], nonce[11]])

/-- The body of the round loop: columns, then diagonals. -/
def doubleRound (s : Vector U32 16) : Vector U32 16 :=
  let s := qr s 0 4 8 12
  let s := qr s 1 5 9 13
  let s := qr s 2 6 10 14
  let s := qr s 3 7 11 15
  let s := qr s 0 5 10 15
  let s := qr s 1 6 11 12
  let s := qr s 2 7 8 13
  qr s 3 4 9 14

/-- `for i in 0..16 { s[i] = s[i].wrapping_add(init[i]); }` -/
def addInit (init s : Vector U32 16) : Vector U32 16 :=
  Nat.fold 16 (fun i bound s => s.set i (s[i] + init[i])) s

def chacha20Block (key : Bytes 32) (counter : U32) (nonce : Bytes 12) : Bytes 64 :=
  let init := initState key counter nonce
  let s := Nat.fold 10 (fun _ _ s => doubleRound s) init
  let s := addInit init s
  Nat.fold 16 (fun i bound out => copyFromSlice out (i * 4) (toLeBytes 4 s[i]))
    (Vector.replicate 64 0)

/-! ## Agreement with RFC 8439 -/

/-- Four words of a state replaced. -/
def store (s : Vector U32 16) (a b c d : Fin 16) (x y z w : U32) : Vector U32 16 :=
  (((s.set a x).set b y).set c z).set d w

section QuarterRound
variable (s : Vector U32 16) {a b c d : Fin 16} (ab : a.val ≠ b.val) (ac : a.val ≠ c.val)
  (ad : a.val ≠ d.val) (bc : b.val ≠ c.val) (bd : b.val ≠ d.val) (cd : c.val ≠ d.val)
  (x y z w v : U32)

theorem store_self : store s a b c d s[a] s[b] s[c] s[d] = s := by
  simp [store]

include ab ac ad bc bd cd

theorem store_get : (store s a b c d x y z w)[a] = x ∧ (store s a b c d x y z w)[b] = y ∧
    (store s a b c d x y z w)[c] = z ∧ (store s a b c d x y z w)[d] = w := by
  simp [store, ab.symm, ac.symm, ad.symm, bc.symm, bd.symm, cd.symm]

theorem store_set :
    (store s a b c d x y z w).set a v = store s a b c d v y z w ∧
      (store s a b c d x y z w).set b v = store s a b c d x v z w ∧
      (store s a b c d x y z w).set c v = store s a b c d x y v w ∧
      (store s a b c d x y z w).set d v = store s a b c d x y z v := by
  simp only [store]
  refine ⟨?_, ?_, ?_, ?_⟩
  · rw [Vector.set_comm _ _ ad.symm, Vector.set_comm _ _ ac.symm, Vector.set_comm _ _ ab.symm,
      Vector.set_set]
  · rw [Vector.set_comm _ _ bd.symm, Vector.set_comm _ _ bc.symm, Vector.set_set]
  · rw [Vector.set_comm _ _ cd.symm, Vector.set_set]
  · rw [Vector.set_set]

theorem qr_eq_quarterRoundAt : qr s a b c d = Rfc8439.quarterRoundAt s a b c d := by
  have get := store_get s ab ac ad bc bd cd
  have set := store_set s ab ac ad bc bd cd
  -- every assignment turns one such state into another
  conv_lhs => rw [← store_self s (a := a) (b := b) (c := c) (d := d)]
  simp only [qr, get, set]
  simp only [store, Rfc8439.quarterRoundAt, Rfc8439.quarterRound, setIfInBounds_of_lt _ _ a.isLt,
    setIfInBounds_of_lt _ _ b.isLt, setIfInBounds_of_lt _ _ c.isLt, setIfInBounds_of_lt _ _ d.isLt,
    getElem!_pos s a.val a.isLt, getElem!_pos s b.val b.isLt, getElem!_pos s c.val c.isLt,
    getElem!_pos s d.val d.isLt]
  rfl

end QuarterRound

theorem doubleRound_eq_innerBlock (s : Vector U32 16) : doubleRound s = Rfc8439.innerBlock s := by
  simp (disch := decide) only [doubleRound, qr_eq_quarterRoundAt]
  rfl

theorem rounds_eq (s : Vector U32 16) (n : Nat) :
    Nat.fold n (fun _ _ s => doubleRound s) s = Rfc8439.innerBlock^[n] s := by
  induction n with
  | zero => rfl
  | succ n inductionHypothesis =>
      rw [Nat.fold_succ, inductionHypothesis, doubleRound_eq_innerBlock, Function.iterate_succ_apply']

theorem addInit_eq (init s : Vector U32 16) :
    addInit init s = Vector.zipWith (· + ·) init s := by
  have running : ∀ (j : Nat) (jBound : j < 16),
      (addInit init s)[j] = if j < 16 then init[j] + s[j] else s[j] := by
    unfold addInit
    refine forLoop_invariant _ _ (fun k (out : Vector U32 16) => ∀ (j : Nat) (jBound : j < 16),
      out[j] = if j < k then init[j] + s[j] else s[j]) ?_ ?_
    · simp
    · intro k kBound out earlier j jBound
      rw [Vector.getElem_set]
      by_cases last : k = j
      · subst last
        rw [if_pos rfl, earlier k kBound, if_neg (lt_irrefl k), if_pos (Nat.lt_succ_self k),
          BitVec.add_comm]
      · rw [if_neg last, earlier j jBound]
        simp only [show j < k + 1 ↔ j < k by omega]
  apply Vector.ext
  intro i bound
  rw [Vector.getElem_zipWith, running i bound, if_pos bound]

theorem word_eq {n : Nat} (bytes : Bytes n) (i : Nat) (bound : i * 4 + 3 < n) :
    fromLeBytes 32 [bytes[i * 4], bytes[i * 4 + 1], bytes[i * 4 + 2], bytes[i * 4 + 3]] =
      Rfc8439.word bytes.toList i := by
  rw [Rfc8439.word, Nat.mul_comm 4 i]
  exact congrArg (fromLeBytes 32) (slice_four bytes (i * 4) bound).symm

theorem loadKey_getElem (key : Bytes 32) (s : Vector U32 16) (t : Nat) (bound : t < 16) :
    (loadKey key s)[t] =
      if 4 ≤ t ∧ t < 12 then Rfc8439.word key.toList (t - 4) else s[t] := by
  unfold loadKey
  refine forLoop_invariant _ _ (fun k (out : Vector U32 16) => ∀ (t : Nat) (bound : t < 16),
    out[t] = if 4 ≤ t ∧ t < 4 + k then Rfc8439.word key.toList (t - 4) else s[t]) ?_ ?_ t bound
  · intro t _
    rw [if_neg (by omega)]
  · intro k kBound out earlier t tBound
    rw [Vector.getElem_set]
    by_cases last : 4 + k = t
    · subst last
      rw [if_pos rfl, if_pos (by omega), word_eq key k (by omega), Nat.add_sub_cancel_left]
    · rw [if_neg last, earlier t tBound]
      simp only [show (4 ≤ t ∧ t < 4 + (k + 1)) ↔ (4 ≤ t ∧ t < 4 + k) by omega]

theorem initState_eq (key : Bytes 32) (counter : U32) (nonce : Bytes 12) :
    initState key counter nonce = Rfc8439.initialState key counter nonce := by
  have nonceWord := word_eq nonce
  apply Vector.ext
  intro i bound
  simp only [initState, Vector.getElem_set, loadKey_getElem, nonceWord 0, nonceWord 1, nonceWord 2]
  interval_cases i <;> rfl

theorem chacha20Block_conforms (key : Bytes 32) (counter : U32) (nonce : Bytes 12) :
    (chacha20Block key counter nonce).toList = Rfc8439.chacha20Block key counter nonce := by
  have serialised := copyWords_toList (toLeBytes 4) (toLeBytes_length 4)
    (addInit (initState key counter nonce)
      (Nat.fold 10 (fun _ _ s => doubleRound s) (initState key counter nonce)))
    (Vector.replicate (16 * 4) 0)
  rw [rounds_eq, addInit_eq, initState_eq] at serialised
  rw [Rfc8439.chacha20Block, ← serialised, chacha20Block, rounds_eq, addInit_eq, initState_eq]

end AxiomKernel.Aead
