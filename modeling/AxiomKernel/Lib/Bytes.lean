import Mathlib

/-!
# Bytes, fixed arrays and slices

Machine words are bit vectors, a fixed array `[u8; n]` is a `Vector` and a
slice `&[u8]` is a list.  This module has the little-endian and big-endian
codecs between numbers and byte strings, the slice copy into a fixed array and
the accumulated exclusive-or comparison used for authentication tags.
-/

set_option autoImplicit false

namespace ByteStrings

abbrev U8 := BitVec 8
abbrev U16 := BitVec 16
abbrev U32 := BitVec 32
abbrev U64 := BitVec 64
abbrev U128 := BitVec 128

/-- The fixed array `[u8; n]`. -/
abbrev Bytes (n : Nat) := Vector U8 n

/-! ## Little-endian and big-endian numbers -/

/-- The low `n` base-256 digits of `value`, least significant first. -/
def leBytes : Nat → Nat → List U8
  | 0, _ => []
  | n + 1, value => BitVec.ofNat 8 value :: leBytes n (value / 256)

def beBytes (n value : Nat) : List U8 := (leBytes n value).reverse

/-- The number a byte string spells in base 256, least significant first. -/
def leNat : List U8 → Nat
  | [] => 0
  | byte :: rest => byte.toNat + 256 * leNat rest

/-- `to_le_bytes` of an `n`-byte word. -/
def toLeBytes {w : Nat} (n : Nat) (word : BitVec w) : List U8 := leBytes n word.toNat

def toBeBytes {w : Nat} (n : Nat) (word : BitVec w) : List U8 := beBytes n word.toNat

def fromLeBytes (w : Nat) (bytes : List U8) : BitVec w := BitVec.ofNat w (leNat bytes)

def fromBeBytes (w : Nat) (bytes : List U8) : BitVec w :=
  BitVec.ofNat w (leNat bytes.reverse)

@[simp] theorem leBytes_length (n value : Nat) : (leBytes n value).length = n := by
  induction n generalizing value with
  | zero => rfl
  | succ n inductionHypothesis => simp [leBytes, inductionHypothesis]

@[simp] theorem beBytes_length (n value : Nat) : (beBytes n value).length = n := by
  simp [beBytes]

@[simp] theorem toLeBytes_length {w : Nat} (n : Nat) (word : BitVec w) :
    (toLeBytes n word).length = n := leBytes_length n word.toNat

@[simp] theorem toBeBytes_length {w : Nat} (n : Nat) (word : BitVec w) :
    (toBeBytes n word).length = n := beBytes_length n word.toNat

def leArray {w : Nat} (n : Nat) (word : BitVec w) : Bytes n :=
  ⟨(toLeBytes n word).toArray, by simp⟩

@[simp] theorem leArray_toList {w : Nat} (n : Nat) (word : BitVec w) :
    (leArray n word).toList = toLeBytes n word := rfl

theorem leNat_lt (bytes : List U8) : leNat bytes < 256 ^ bytes.length := by
  induction bytes with
  | nil => simp [leNat]
  | cons byte rest inductionHypothesis =>
      have byteBound := byte.isLt
      simp only [leNat, List.length_cons, pow_succ]
      omega

theorem leNat_leBytes (n value : Nat) : leNat (leBytes n value) = value % 256 ^ n := by
  induction n generalizing value with
  | zero => simp [leBytes, leNat, Nat.mod_one]
  | succ n inductionHypothesis =>
      simp only [leBytes, leNat, inductionHypothesis, BitVec.toNat_ofNat]
      rw [Nat.pow_succ 256 n, Nat.mul_comm (256 ^ n) 256, Nat.mod_mul]

theorem leBytes_leNat (bytes : List U8) : leBytes bytes.length (leNat bytes) = bytes := by
  induction bytes with
  | nil => rfl
  | cons byte rest inductionHypothesis =>
      have byteBound := byte.isLt
      have quotient : (byte.toNat + 256 * leNat rest) / 256 = leNat rest := by omega
      have digit : BitVec.ofNat 8 (byte.toNat + 256 * leNat rest) = byte := by
        apply BitVec.eq_of_toNat_eq
        rw [BitVec.toNat_ofNat]
        omega
      simp only [List.length_cons, leNat, leBytes, quotient, digit, inductionHypothesis]

theorem fromBeBytes_toBeBytes {w n : Nat} (width : 2 ^ w ≤ 256 ^ n) (word : BitVec w) :
    fromBeBytes w (toBeBytes n word) = word := by
  have bound : word.toNat < 256 ^ n := lt_of_lt_of_le word.isLt width
  rw [fromBeBytes, toBeBytes, beBytes, List.reverse_reverse, leNat_leBytes, Nat.mod_eq_of_lt bound,
    BitVec.ofNat_toNat, BitVec.setWidth_eq]

theorem toBeBytes_fromBeBytes {w : Nat} {bytes : List U8} (width : 256 ^ bytes.length = 2 ^ w) :
    toBeBytes bytes.length (fromBeBytes w bytes) = bytes := by
  have bound : leNat bytes.reverse < 2 ^ w := by
    rw [← width, ← List.length_reverse]
    exact leNat_lt bytes.reverse
  have digits := leBytes_leNat bytes.reverse
  rw [List.length_reverse] at digits
  rw [toBeBytes, fromBeBytes, BitVec.toNat_ofNat, Nat.mod_eq_of_lt bound, beBytes, digits,
    List.reverse_reverse]

theorem leNat_append (front back : List U8) :
    leNat (front ++ back) = leNat front + 256 ^ front.length * leNat back := by
  induction front with
  | nil => simp [leNat]
  | cons byte rest inductionHypothesis =>
      simp only [List.cons_append, leNat, inductionHypothesis, List.length_cons, pow_succ]
      ring

theorem leNat_replicate_zero (n : Nat) : leNat (List.replicate n 0) = 0 := by
  induction n with
  | zero => rfl
  | succ n inductionHypothesis =>
      rw [List.replicate_succ, leNat, inductionHypothesis]
      rfl

/-- Masking byte by byte masks the number. -/
theorem leNat_zipWith_and (bytes masks : List U8) (sameLength : bytes.length = masks.length) :
    leNat (List.zipWith (· &&& ·) bytes masks) = leNat bytes &&& leNat masks := by
  induction bytes generalizing masks with
  | nil => simp [leNat]
  | cons byte rest inductionHypothesis =>
      cases masks with
      | nil => simp at sameLength
      | cons mask others =>
          have restLength : rest.length = others.length := by simpa using sameLength
          have split : ∀ (low : U8) (high : Nat), low.toNat + 256 * high = 2 ^ 8 * high + low.toNat := by
            intro low high
            omega
          rw [List.zipWith_cons_cons, leNat, leNat, leNat, inductionHypothesis others restLength,
            split, split, split, BitVec.toNat_and]
          apply Nat.eq_of_testBit_eq
          intro i
          rw [Nat.testBit_and, Nat.testBit_two_pow_mul_add _ (Nat.and_lt_two_pow _ mask.isLt),
            Nat.testBit_two_pow_mul_add _ byte.isLt, Nat.testBit_two_pow_mul_add _ mask.isLt]
          split <;> simp [Nat.testBit_and]

theorem leNat_injective {left right : List U8} (sameLength : left.length = right.length)
    (sameNumber : leNat left = leNat right) : left = right := by
  rw [← leBytes_leNat left, ← leBytes_leNat right, sameLength, sameNumber]

theorem leBytes_congr {n left right : Nat} (same : left ≡ right [MOD 256 ^ n]) :
    leBytes n left = leBytes n right := by
  apply leNat_injective (by simp)
  rw [leNat_leBytes, leNat_leBytes]
  exact same

theorem leBytes_injective {n left right : Nat} (leftBound : left < 256 ^ n)
    (rightBound : right < 256 ^ n) (same : leBytes n left = leBytes n right) :
    left = right := by
  have numbers := congrArg leNat same
  rwa [leNat_leBytes, leNat_leBytes, Nat.mod_eq_of_lt leftBound,
    Nat.mod_eq_of_lt rightBound] at numbers

theorem toLeBytes_injective {w n : Nat} (width : 2 ^ w ≤ 256 ^ n) {left right : BitVec w}
    (same : toLeBytes n left = toLeBytes n right) : left = right := by
  apply BitVec.eq_of_toNat_eq
  exact leBytes_injective (left.isLt.trans_le width) (right.isLt.trans_le width) same

/-! ## Counted loops -/

/-- The invariant rule for `for i in 0..n`: what holds before the loop at zero
and passes from each iteration to the next holds at `n` afterwards. -/
theorem forLoop_invariant {α : Type} {n : Nat} (body : (i : Nat) → i < n → α → α) (init : α)
    (Invariant : Nat → α → Prop) (start : Invariant 0 init)
    (iteration : ∀ i (bound : i < n) state,
      Invariant i state → Invariant (i + 1) (body i bound state)) :
    Invariant n (Nat.fold n body init) := by
  induction n with
  | zero => exact start
  | succ n inductionHypothesis =>
      rw [Nat.fold_succ]
      apply iteration n (Nat.lt_succ_self n)
      exact inductionHypothesis (fun i bound => body i (Nat.lt_succ_of_lt bound))
        fun i bound => iteration i (Nat.lt_succ_of_lt bound)

/-! ## Fixed arrays -/

section Arrays
variable {α : Type} {n : Nat}

theorem setIfInBounds_of_lt (buf : Vector α n) (x : α) {i : Nat} (inside : i < n) :
    buf.setIfInBounds i x = buf.set i x inside := by
  apply Vector.ext
  intro j jLt
  rw [Vector.getElem_setIfInBounds jLt, Vector.getElem_set]

/-- `buf[offset .. offset + src.len()].copy_from_slice(src)`; positions outside
the array are dropped, which no caller does. -/
def copyFromSlice (buf : Vector α n) (offset : Nat) (src : List α) : Vector α n :=
  Vector.ofFn fun i : Fin n =>
    if h : offset ≤ i.val ∧ i.val - offset < src.length then
      src.get ⟨i.val - offset, h.2⟩
    else buf.get i

theorem copyFromSlice_toList (buf : Vector α n) (offset : Nat) (src : List α)
    (fits : offset + src.length ≤ n) :
    (copyFromSlice buf offset src).toList =
      buf.toList.take offset ++ src ++ buf.toList.drop (offset + src.length) := by
  apply List.ext_getElem
  · simp
    omega
  · intro i leftBound rightBound
    have iBound : i < n := by simpa using leftBound
    simp only [copyFromSlice, Vector.getElem_toList, Vector.getElem_ofFn]
    by_cases before : i < offset
    · rw [dif_neg (by omega), List.getElem_append_left (by simp; omega),
        List.getElem_append_left (by simp; omega)]
      simp [Vector.get_eq_getElem]
    · by_cases inside : i - offset < src.length
      · rw [dif_pos ⟨by omega, inside⟩, List.getElem_append_left (by simp; omega),
          List.getElem_append_right (by simp; omega)]
        simp [Nat.min_eq_left (show offset ≤ n by omega)]
      · rw [dif_neg (by omega), List.getElem_append_right (by simp; omega)]
        simp only [Vector.get_eq_getElem, List.length_append, List.length_take,
          Vector.length_toList, List.getElem_drop, Vector.getElem_toList]
        congr 1
        omega

theorem copyFromSlice_take (buf : Vector α n) (offset : Nat) (src : List α)
    (fits : offset + src.length ≤ n) :
    (copyFromSlice buf offset src).toList.take (offset + src.length) =
      buf.toList.take offset ++ src := by
  rw [copyFromSlice_toList buf offset src fits]
  apply List.take_left'
  simp
  omega

/-- A copy to the start of the unwritten part moves the start of it along. -/
theorem copyFromSlice_fill (buf : Vector α n) (front src : List α) (filler : α) (spare : Nat)
    (before : buf.toList = front ++ List.replicate spare filler) (fits : src.length ≤ spare) :
    (copyFromSlice buf front.length src).toList =
      front ++ src ++ List.replicate (spare - src.length) filler := by
  have size : n = front.length + spare := by
    have lengths := congrArg List.length before
    simpa using lengths
  rw [copyFromSlice_toList buf front.length src (by omega), before, List.take_left' rfl,
    ← List.drop_drop, List.drop_left' rfl, List.drop_replicate]

theorem copyFromSlice_replicate (filler : α) (src : List α) (fits : src.length ≤ n) :
    (copyFromSlice (Vector.replicate n filler) 0 src).toList =
      src ++ List.replicate (n - src.length) filler :=
  copyFromSlice_fill (Vector.replicate n filler) [] src filler n
    (by rw [Vector.toList_replicate, List.nil_append]) fits

theorem copyFromSlice_fill_gap (buf : Vector α n) (front src : List α) (filler : α)
    (spare gap : Nat) (before : buf.toList = front ++ List.replicate spare filler)
    (fits : src.length + gap ≤ spare) :
    (copyFromSlice buf front.length src).toList =
      (front ++ src ++ List.replicate gap filler) ++
        List.replicate (spare - src.length - gap) filler := by
  rw [copyFromSlice_fill buf front src filler spare before (by omega), List.append_assoc _ _
    (List.replicate (spare - src.length - gap) filler), List.replicate_append_replicate]
  congr 2
  omega

/-- Writing encoded words one behind the other fills the array with their
concatenation. -/
theorem copyWords_toList {β : Type} {count width : Nat} (encode : β → List α)
    (widths : ∀ word, (encode word).length = width) (words : Vector β count)
    (buf : Vector α (count * width)) :
    (Nat.fold count (fun i bound out => copyFromSlice out (i * width) (encode words[i])) buf).toList =
      words.toList.flatMap encode := by
  have written : (Nat.fold count
      (fun i bound out => copyFromSlice out (i * width) (encode words[i])) buf).toList.take
        (count * width) = (words.toList.take count).flatMap encode := by
    refine forLoop_invariant _ _
      (fun k (out : Vector α (count * width)) =>
        out.toList.take (k * width) = (words.toList.take k).flatMap encode) ?_ ?_
    · simp
    · intro k kBound out sofar
      have fits : k * width + (encode words[k]).length ≤ count * width := by
        rw [widths, ← Nat.succ_mul]
        exact Nat.mul_le_mul_right width kBound
      have copied := copyFromSlice_take out (k * width) (encode words[k]) fits
      rw [widths] at copied
      rw [Nat.succ_mul, copied, sofar, List.take_add_one,
        List.getElem?_eq_getElem (by simpa using kBound)]
      simp
  rwa [List.take_of_length_le (by simp), List.take_of_length_le (by simp)] at written

def slice (buf : Vector α n) (offset length : Nat) : List α :=
  (buf.toList.drop offset).take length

theorem slice_zero (buf : Vector α n) (length : Nat) :
    slice buf 0 length = buf.toList.take length := by
  rw [slice, List.drop_zero]

theorem slice_zero_length {length : Nat} (buf : Vector α n) (fits : length ≤ n) :
    (slice buf 0 length).length = length := by
  rw [slice_zero, List.length_take, Vector.length_toList, Nat.min_eq_left fits]

theorem slice_four (buf : Vector α n) (offset : Nat) (bound : offset + 3 < n) :
    slice buf offset 4 = [buf[offset], buf[offset + 1], buf[offset + 2], buf[offset + 3]] := by
  apply List.ext_getElem
  · simp [slice]
    omega
  · intro i leftBound rightBound
    have small : i < 4 := by simpa using rightBound
    simp only [slice, List.getElem_take, List.getElem_drop, Vector.getElem_toList]
    interval_cases i <;> simp

theorem slice_copyFromSlice_self (buf : Vector α n) (offset length : Nat) (src : List α)
    (exact : src.length = length) (fits : offset + length ≤ n) :
    slice (copyFromSlice buf offset src) offset length = src := by
  subst exact
  rw [slice, copyFromSlice_toList buf offset src fits, List.append_assoc,
    List.drop_left' (by simp; omega), List.take_left' rfl]

theorem slice_copyFromSlice_other (buf : Vector α n) (offset start length : Nat)
    (src : List α) (fits : offset + src.length ≤ n)
    (apart : start + length ≤ offset ∨ offset + src.length ≤ start) :
    slice (copyFromSlice buf offset src) start length = slice buf start length := by
  apply List.ext_getElem?
  intro i
  simp only [slice, List.getElem?_take, List.getElem?_drop]
  split
  · rw [copyFromSlice_toList buf offset src fits, List.append_assoc]
    rcases apart with before | behind
    · rw [List.getElem?_append_left (by simp; omega), List.getElem?_take, if_pos (by omega)]
    · rw [List.getElem?_append_right (by simp; omega),
        List.getElem?_append_right (by simp; omega), List.getElem?_drop]
      congr 1
      simp
      omega
  · rfl

/-- The comparison loop `for i in 0..n { diff |= left[i] ^ right[i] }`. -/
def xorDiff (left right : Bytes n) : U8 :=
  Nat.fold n (fun i bound diff => diff ||| (left[i] ^^^ right[i])) 0

theorem xorDiff_eq_zero_iff (left right : Bytes n) : xorDiff left right = 0 ↔ left = right := by
  have running : xorDiff left right = 0#8 ↔ ∀ i (bound : i < n), left[i] = right[i] := by
    refine forLoop_invariant _ _
      (fun k diff => diff = 0#8 ↔ ∀ i (bound : i < n), i < k → left[i] = right[i]) ?_ ?_ |>.trans ?_
    · simp
    · intro k kBound diff earlier
      rw [BitVec.or_eq_zero_iff, BitVec.xor_eq_zero_iff, earlier]
      constructor
      · rintro ⟨before, last⟩ i bound iLe
        rcases Nat.lt_succ_iff_lt_or_eq.mp iLe with iLt | rfl
        · exact before i bound iLt
        · exact last
      · intro all
        exact ⟨fun i bound iLt => all i bound (by omega), all k kBound (by omega)⟩
    · exact ⟨fun all i bound => all i bound bound, fun all i bound _ => all i bound⟩
  constructor
  · intro zero
    exact Vector.ext (running.mp zero)
  · rintro rfl
    exact running.mpr fun i bound => rfl

end Arrays

end ByteStrings
