import Mathlib
import AxiomKernel.Aead.ChaCha20
import AxiomKernel.Aead.Poly1305Conformance

/-!
# ChaCha20-Poly1305

Model of `chacha20_poly1305_seal` and `chacha20_poly1305_open` of
`poly1305.rs`, and their conformance to RFC 8439, section 2.8.

The output slice is a list that is written in place.  `none` is a panic: an
index outside a slice, or the overflow of the block counter.
-/

set_option autoImplicit false

namespace AxiomKernel.Aead

open ByteStrings MachineWords Chunking

/-! ## The code -/

/-- `for i in 0..take { dst[pos + i] = src[pos + i] ^ ks[i]; }` -/
def xorBlock (src ks dst : List U8) (pos take : Nat) : Option (List U8) :=
  (List.range take).foldlM (fun dst i => do
    let byte ← src[pos + i]?
    let k ← ks[i]?
    if pos + i < dst.length then some (dst.set (pos + i) (byte ^^^ k)) else none) dst

/-- The loop `while pos < src.len()` of both functions.  Without fuel left the
loop has not returned. -/
def xorStream (key : Bytes 32) (nonce : Bytes 12) (src : List U8) :
    Nat → U32 → Nat → List U8 → Option (List U8)
  | 0, _, _, _ => none
  | fuel + 1, counter, pos, dst =>
      if pos < src.length then do
        let ks := chacha20Block key counter nonce
        let counter ← checkedAdd counter 1
        let take := min (src.length - pos) 64
        let dst ← xorBlock src ks.toList dst pos take
        xorStream key nonce src fuel counter (pos + take) dst
      else some dst

def pad16 (n : Nat) : Nat := (16 - n % 16) % 16

def macLen (aad ciphertext : List U8) : Nat :=
  aad.length + pad16 aad.length + ciphertext.length + pad16 ciphertext.length + 8 + 8

def macInput (aad ciphertext : List U8) : List U8 :=
  let buf : Bytes (macLen aad ciphertext) := Vector.replicate _ 0
  let off := 0
  let buf := copyFromSlice buf off aad
  let off := off + aad.length + pad16 aad.length
  let buf := copyFromSlice buf off ciphertext
  let off := off + ciphertext.length + pad16 ciphertext.length
  let buf := copyFromSlice buf off (toLeBytes 8 (BitVec.ofNat 64 aad.length))
  let off := off + 8
  (copyFromSlice buf off (toLeBytes 8 (BitVec.ofNat 64 ciphertext.length))).toList

def oneTimeKey (key : Bytes 32) (nonce : Bytes 12) : Bytes 32 :=
  copyFromSlice (Vector.replicate 32 0) 0 (slice (chacha20Block key 0 nonce) 0 32)

/-- The ciphertext buffer afterwards, and the tag. -/
def chacha20Poly1305Seal (key : Bytes 32) (nonce : Bytes 12) (aad plaintext ciphertext : List U8) :
    Option (List U8 × Bytes 16) := do
  let otk := oneTimeKey key nonce
  let ciphertext ← xorStream key nonce plaintext (plaintext.length + 1) 1 0 ciphertext
  some (ciphertext, poly1305 otk (macInput aad ciphertext))

/-- The answer, and the plaintext buffer afterwards. -/
def chacha20Poly1305Open (key : Bytes 32) (nonce : Bytes 12) (aad ciphertext : List U8)
    (tag : Bytes 16) (plaintext : List U8) : Option (Bool × List U8) :=
  let otk := oneTimeKey key nonce
  let expected := poly1305 otk (macInput aad ciphertext)
  if xorDiff expected tag ≠ 0 then some (false, plaintext)
  else do
    let plaintext ← xorStream key nonce ciphertext (ciphertext.length + 1) 1 0 plaintext
    some (true, plaintext)

/-! ## The key stream loop -/

theorem written_succ (front stretch back : List U8) (value old : U8) :
    (front ++ stretch ++ old :: back).set (front.length + stretch.length) value =
      front ++ (stretch ++ [value]) ++ back := by
  rw [← List.length_append, List.set_append_right _ _ le_rfl, Nat.sub_self, List.set_cons_zero]
  simp

theorem xorBlock_eq (src ks dst : List U8) (pos take : Nat) (inSrc : pos + take ≤ src.length)
    (inKs : take ≤ ks.length) (inDst : pos + take ≤ dst.length) :
    xorBlock src ks dst pos take =
      some (dst.take pos ++ (List.zipWith (· ^^^ ·) (src.drop pos) ks).take take ++
        dst.drop (pos + take)) := by
  induction take with
  | zero => simp [xorBlock]
  | succ take inductionHypothesis =>
      have earlier := inductionHypothesis (by omega) (by omega) (by omega)
      rw [xorBlock] at earlier ⊢
      rw [List.range_succ, List.foldlM_append, earlier]
      have srcByte := List.getElem?_eq_getElem (show pos + take < src.length by omega)
      have ksByte := List.getElem?_eq_getElem (show take < ks.length by omega)
      have next : (List.zipWith (· ^^^ ·) (src.drop pos) ks)[take]? =
          some (src[pos + take] ^^^ ks[take]) := by
        rw [List.getElem?_zipWith, List.getElem?_drop, srcByte, ksByte]
      have stretchLength :
          ((List.zipWith (· ^^^ ·) (src.drop pos) ks).take take).length = take := by
        simp only [List.length_take, List.length_zipWith, List.length_drop]
        omega
      have frontLength : (dst.take pos).length = pos := by
        rw [List.length_take]
        omega
      have room : pos + take < (dst.take pos ++
          (List.zipWith (· ^^^ ·) (src.drop pos) ks).take take ++ dst.drop (pos + take)).length := by
        rw [List.length_append, List.length_append, frontLength, stretchLength, List.length_drop]
        omega
      have written := written_succ (dst.take pos)
        ((List.zipWith (· ^^^ ·) (src.drop pos) ks).take take) (dst.drop (pos + take + 1))
        (src[pos + take] ^^^ ks[take]) dst[pos + take]
      rw [frontLength, stretchLength, ← List.drop_eq_getElem_cons] at written
      simp only [Option.bind_eq_bind, Option.bind_some, List.foldlM_cons, List.foldlM_nil,
        srcByte, ksByte, if_pos room, written]
      rw [List.take_add_one, next]
      rfl

theorem keyStream_succ (key : Bytes 32) (counter : U32) (nonce : Bytes 12) (count : Nat) :
    Rfc8439.keyStream key counter nonce (count + 1) =
      Rfc8439.chacha20Block key counter nonce ++
        Rfc8439.keyStream key (counter + 1) nonce count := by
  rw [Rfc8439.keyStream, List.range_succ_eq_map, List.flatMap_cons, List.flatMap_map,
    Rfc8439.keyStream]
  congr 1
  · simp
  · congr 1
    funext j
    congr 1
    rw [BitVec.add_assoc]
    congr 1
    rw [Nat.succ_eq_one_add, BitVec.ofNat_add]
    rfl

theorem chacha20Block_length (key : Bytes 32) (counter : U32) (nonce : Bytes 12) :
    (Rfc8439.chacha20Block key counter nonce).length = 64 := by
  rw [← chacha20Block_conforms, Vector.length_toList]

theorem keyStream_length (key : Bytes 32) (counter : U32) (nonce : Bytes 12) (count : Nat) :
    (Rfc8439.keyStream key counter nonce count).length = 64 * count := by
  induction count generalizing counter with
  | zero => rfl
  | succ count inductionHypothesis =>
      rw [keyStream_succ, List.length_append, chacha20Block_length, inductionHypothesis]
      omega

theorem zipWith_append_right (text front back : List U8) :
    List.zipWith (· ^^^ ·) text (front ++ back) =
      List.zipWith (· ^^^ ·) text front ++
        List.zipWith (· ^^^ ·) (text.drop front.length) back := by
  induction front generalizing text with
  | nil => simp
  | cons k rest inductionHypothesis =>
      cases text with
      | nil => simp
      | cons byte others => simp [inductionHypothesis]

/-- With enough fuel and counters, the loop fills the rest of the buffer with
the rest of the text under the key stream. -/
theorem xorStream_eq (key : Bytes 32) (nonce : Bytes 12) (src : List U8) (fuel : Nat)
    (counter : U32) (pos : Nat) (dst : List U8) (enough : src.length < pos + fuel)
    (inside : pos ≤ src.length) (sameLength : dst.length = src.length)
    (counters : counter.toNat + blockCount 64 (src.length - pos) < 2 ^ 32) :
    xorStream key nonce src fuel counter pos dst =
      some (dst.take pos ++ List.zipWith (· ^^^ ·) (src.drop pos)
        (Rfc8439.keyStream key counter nonce (blockCount 64 (src.length - pos)))) := by
  induction fuel generalizing counter pos dst with
  | zero => omega
  | succ fuel inductionHypothesis =>
      rw [xorStream]
      split
      case isFalse done =>
        have atEnd : pos = src.length := by omega
        rw [atEnd, ← sameLength, List.take_length, sameLength, List.drop_length, List.zipWith_nil_left,
          List.append_nil]
      case isTrue more =>
        have blocks := blockCount_step (by norm_num : 0 < 64) (Nat.sub_pos_of_lt more)
        have left : src.length - (pos + min (src.length - pos) 64) = src.length - pos - 64 := by omega
        -- the counter still has room
        have one : (1 : U32).toNat = 1 := rfl
        have next : checkedAdd counter 1 = some (counter + 1) := by
          rw [checkedAdd, if_pos]
          omega
        have nextCounter : (counter + 1).toNat = counter.toNat + 1 :=
          (checkedAdd_eq_some_iff counter 1 (counter + 1)).mp next
        have ksLength : (chacha20Block key counter nonce).toList.length = 64 := by simp
        have block := xorBlock_eq src (chacha20Block key counter nonce).toList dst pos
          (min (src.length - pos) 64) (by omega) (by omega) (by omega)
        have stretchLength : (List.zipWith (· ^^^ ·) (src.drop pos)
            (chacha20Block key counter nonce).toList).length = min (src.length - pos) 64 := by
          rw [List.length_zipWith, List.length_drop, ksLength]
        rw [List.take_of_length_le stretchLength.le] at block
        simp only [next, block, Option.bind_eq_bind, Option.bind_some]
        have frontLength : (dst.take pos ++ List.zipWith (· ^^^ ·) (src.drop pos)
            (chacha20Block key counter nonce).toList).length = pos + min (src.length - pos) 64 := by
          rw [List.length_append, stretchLength, List.length_take]
          omega
        rw [inductionHypothesis (counter + 1) _ _ (by omega) (by omega)
          (by rw [List.length_append, frontLength, List.length_drop]; omega)
          (by rw [left, nextCounter]; omega), List.take_left' frontLength, left, blocks,
          keyStream_succ, zipWith_append_right, ← chacha20Block_conforms, ksLength, List.drop_drop,
          List.append_assoc]
        -- a short last block leaves nothing behind it
        have rest : src.drop (pos + min (src.length - pos) 64) = src.drop (pos + 64) := by
          by_cases whole : 64 ≤ src.length - pos
          · rw [Nat.min_eq_right whole]
          · rw [List.drop_eq_nil_of_le (by omega), List.drop_eq_nil_of_le (by omega)]
        rw [rest]

/-- The most bytes one nonce can encrypt before the counter overflows. -/
def maxText : Nat := 64 * (2 ^ 32 - 2)

theorem xorStream_conforms (key : Bytes 32) (nonce : Bytes 12) (text buffer : List U8)
    (bounded : text.length ≤ maxText) (sameLength : buffer.length = text.length) :
    xorStream key nonce text (text.length + 1) 1 0 buffer =
      some (Rfc8439.chacha20Encrypt key 1 nonce text) := by
  have counters : (1 : U32).toNat + blockCount 64 (text.length - 0) < 2 ^ 32 := by
    have one : (1 : U32).toNat = 1 := rfl
    rw [one, blockCount]
    rw [maxText] at bounded
    omega
  rw [xorStream_eq key nonce text _ 1 0 buffer (by omega) (by omega) sameLength counters]
  rfl

/-! ## The MAC -/

/-- The copies follow each other, with the padding left as zeros in between. -/
theorem macInput_eq (aad ciphertext : List U8) :
    macInput aad ciphertext = Rfc8439.macData aad ciphertext := by
  have lengthField : ∀ n : Nat, toLeBytes 8 (BitVec.ofNat 64 n) = leBytes 8 n := by
    intro n
    rw [toLeBytes, BitVec.toNat_ofNat]
    exact leBytes_congr (Nat.mod_modEq n (2 ^ 64))
  have first := copyFromSlice_fill_gap
    (Vector.replicate (macLen aad ciphertext) (0 : U8)) [] aad 0
    (macLen aad ciphertext) (pad16 aad.length) (by rw [Vector.toList_replicate, List.nil_append])
    (by rw [macLen]; omega)
  have second := copyFromSlice_fill_gap _ _ ciphertext 0 _ (pad16 ciphertext.length) first
    (by rw [macLen]; omega)
  have third := copyFromSlice_fill_gap _ _ (leBytes 8 aad.length) 0 _ 0 second
    (by rw [macLen, leBytes_length]; omega)
  have fourth := copyFromSlice_fill_gap _ _ (leBytes 8 ciphertext.length) 0 _ 0 third
    (by rw [macLen, leBytes_length, leBytes_length]; omega)
  have full : macLen aad ciphertext - aad.length - pad16 aad.length - ciphertext.length -
      pad16 ciphertext.length - 8 - 0 - 8 - 0 = 0 := by
    rw [macLen]
    omega
  simp only [List.length_append, List.length_replicate, List.length_nil, leBytes_length, full,
    List.replicate_zero, List.append_nil, List.nil_append] at fourth
  simp only [macInput, lengthField, Nat.zero_add, fourth]
  rfl

theorem oneTimeKey_toList (key : Bytes 32) (nonce : Bytes 12) :
    (oneTimeKey key nonce).toList = Rfc8439.poly1305KeyGen key nonce := by
  have sliced : (slice (chacha20Block key 0 nonce) 0 32).length = 32 := by simp [slice]
  have filled := copyFromSlice_replicate (0 : U8) _ sliced.le
  rw [sliced, Nat.sub_self, List.replicate_zero, List.append_nil] at filled
  rw [oneTimeKey, Rfc8439.poly1305KeyGen, ← chacha20Block_conforms]
  exact filled

theorem tag_conforms (key : Bytes 32) (nonce : Bytes 12) (aad ciphertext : List U8) :
    (poly1305 (oneTimeKey key nonce) (macInput aad ciphertext)).toList =
      Rfc8439.aeadTag key nonce aad ciphertext := by
  rw [poly1305_eq_spec, oneTimeKey_toList, macInput_eq, Rfc8439.aeadTag]

/-! ## Seal and open -/

theorem seal_conforms (key : Bytes 32) (nonce : Bytes 12) (aad plaintext buffer : List U8)
    (bounded : plaintext.length ≤ maxText) (sameLength : buffer.length = plaintext.length) :
    ∃ tag, chacha20Poly1305Seal key nonce aad plaintext buffer =
        some (Rfc8439.chacha20Encrypt key 1 nonce plaintext, tag) ∧
      tag.toList = Rfc8439.aeadTag key nonce aad (Rfc8439.chacha20Encrypt key 1 nonce plaintext) := by
  refine ⟨_, ?_, tag_conforms key nonce aad (Rfc8439.chacha20Encrypt key 1 nonce plaintext)⟩
  rw [chacha20Poly1305Seal, xorStream_conforms key nonce plaintext buffer bounded sameLength]
  rfl

theorem open_conforms (key : Bytes 32) (nonce : Bytes 12) (aad ciphertext buffer : List U8)
    (tag : Bytes 16) (bounded : ciphertext.length ≤ maxText)
    (sameLength : buffer.length = ciphertext.length) :
    chacha20Poly1305Open key nonce aad ciphertext tag buffer =
      some (if tag.toList = Rfc8439.aeadTag key nonce aad ciphertext then
        (true, Rfc8439.chacha20Encrypt key 1 nonce ciphertext)
      else (false, buffer)) := by
  rw [chacha20Poly1305Open, xorStream_conforms key nonce ciphertext buffer bounded sameLength]
  simp only [xorDiff_eq_zero_iff, ne_eq]
  have sameTag : poly1305 (oneTimeKey key nonce) (macInput aad ciphertext) = tag ↔
      tag.toList = Rfc8439.aeadTag key nonce aad ciphertext := by
    rw [← Vector.toList_inj, tag_conforms]
    exact eq_comm
  simp only [sameTag]
  split <;> simp_all

theorem chacha20Encrypt_length (key : Bytes 32) (counter : U32) (nonce : Bytes 12)
    (text : List U8) :
    (Rfc8439.chacha20Encrypt key counter nonce text).length = text.length := by
  rw [Rfc8439.chacha20Encrypt, List.length_zipWith, keyStream_length]
  exact Nat.min_eq_left (le_blockCount_mul (by norm_num) text.length)

theorem zipWith_xor_cancel (text ks : List U8) (enough : text.length ≤ ks.length) :
    List.zipWith (· ^^^ ·) (List.zipWith (· ^^^ ·) text ks) ks = text := by
  induction text generalizing ks with
  | nil => rfl
  | cons byte rest inductionHypothesis =>
      cases ks with
      | nil => simp at enough
      | cons k others =>
          rw [List.zipWith_cons_cons, List.zipWith_cons_cons,
            inductionHypothesis others (by simpa using enough), BitVec.xor_assoc, BitVec.xor_self,
            BitVec.xor_zero]

theorem chacha20Encrypt_involutive (key : Bytes 32) (counter : U32) (nonce : Bytes 12)
    (text : List U8) :
    Rfc8439.chacha20Encrypt key counter nonce (Rfc8439.chacha20Encrypt key counter nonce text) =
      text := by
  have enough : text.length ≤
      (Rfc8439.keyStream key counter nonce (blockCount 64 text.length)).length := by
    rw [keyStream_length]
    exact le_blockCount_mul (by norm_num) text.length
  rw [Rfc8439.chacha20Encrypt, chacha20Encrypt_length, Rfc8439.chacha20Encrypt,
    zipWith_xor_cancel text _ enough]

/-- Both functions conform to the RFC on texts within the counter's range, and
a sealed text opens. -/
theorem chacha20Poly1305_conforms (key : Bytes 32) (nonce : Bytes 12)
    (aad text buffer : List U8) (bounded : text.length ≤ maxText)
    (sameLength : buffer.length = text.length) :
    (∃ tag, chacha20Poly1305Seal key nonce aad text buffer =
        some (Rfc8439.chacha20Encrypt key 1 nonce text, tag) ∧
      tag.toList = Rfc8439.aeadTag key nonce aad (Rfc8439.chacha20Encrypt key 1 nonce text)) ∧
    (∀ tag, chacha20Poly1305Open key nonce aad text tag buffer =
      some (if tag.toList = Rfc8439.aeadTag key nonce aad text then
        (true, Rfc8439.chacha20Encrypt key 1 nonce text)
      else (false, buffer))) ∧
    (∀ ciphertext tag, chacha20Poly1305Seal key nonce aad text buffer = some (ciphertext, tag) →
      ∀ output : List U8, output.length = ciphertext.length →
        chacha20Poly1305Open key nonce aad ciphertext tag output = some (true, text)) := by
  refine ⟨seal_conforms key nonce aad text buffer bounded sameLength,
    fun tag => open_conforms key nonce aad text buffer tag bounded sameLength, ?_⟩
  intro ciphertext tag sealed output outputLength
  obtain ⟨rfcTag, conforms, tagEq⟩ := seal_conforms key nonce aad text buffer bounded sameLength
  rw [conforms, Option.some.injEq, Prod.mk.injEq] at sealed
  obtain ⟨rfl, rfl⟩ := sealed
  have keptLength : (Rfc8439.chacha20Encrypt key 1 nonce text).length ≤ maxText := by
    rw [chacha20Encrypt_length]
    exact bounded
  rw [open_conforms key nonce aad _ output rfcTag keptLength outputLength, if_pos tagEq,
    chacha20Encrypt_involutive]

/-- One byte sealed under the zero key and opened again. -/
theorem chacha20Poly1305_conforms_byte :
    ∃ ciphertext tag,
      chacha20Poly1305Seal (Vector.replicate 32 0) (Vector.replicate 12 0) [] [0x41] [0] =
        some (ciphertext, tag) ∧
      chacha20Poly1305Open (Vector.replicate 32 0) (Vector.replicate 12 0) [] ciphertext tag [0] =
        some (true, [0x41]) := by
  obtain ⟨⟨tag, sealed, _⟩, _, opens⟩ := chacha20Poly1305_conforms (Vector.replicate 32 0)
    (Vector.replicate 12 0) [] [0x41] [0] (by decide) rfl
  refine ⟨_, tag, sealed, opens _ tag sealed [0] ?_⟩
  rw [chacha20Encrypt_length]
  rfl

/-! ## What the tag is computed over -/

/-- The length fields at the end tell where the parts before them end. -/
theorem macInput_injective {aad ct aad' ct' : List U8} (aadBound : aad.length < 2 ^ 64)
    (ctBound : ct.length < 2 ^ 64) (aadBound' : aad'.length < 2 ^ 64)
    (ctBound' : ct'.length < 2 ^ 64) (same : macInput aad ct = macInput aad' ct') :
    aad = aad' ∧ ct = ct' := by
  rw [macInput_eq, macInput_eq, Rfc8439.macData, Rfc8439.macData] at same
  obtain ⟨same, ctFields⟩ := List.append_inj' same (by rw [leBytes_length, leBytes_length])
  obtain ⟨same, aadFields⟩ := List.append_inj' same (by rw [leBytes_length, leBytes_length])
  have ctLength : ct.length = ct'.length := leBytes_injective ctBound ctBound' ctFields
  have aadLength : aad.length = aad'.length := leBytes_injective aadBound aadBound' aadFields
  obtain ⟨same, -⟩ := List.append_inj' same (by rw [Rfc8439.pad16, Rfc8439.pad16, ctLength])
  obtain ⟨same, sameCt⟩ := List.append_inj' same ctLength
  obtain ⟨sameAad, -⟩ := List.append_inj same aadLength
  exact ⟨sameAad, sameCt⟩

theorem open_refuses_iff (key : Bytes 32) (nonce : Bytes 12) (aad ct : List U8)
    (offered : Bytes 16) (output : List U8) :
    (∃ after, chacha20Poly1305Open key nonce aad ct offered output = some (false, after)) ↔
      offered ≠ poly1305 (oneTimeKey key nonce) (macInput aad ct) := by
  rw [chacha20Poly1305Open]
  by_cases matched : xorDiff (poly1305 (oneTimeKey key nonce) (macInput aad ct)) offered = 0
  · have same := (xorDiff_eq_zero_iff _ _).mp matched
    rw [if_neg (not_not.mpr matched)]
    refine iff_of_false ?_ (not_not.mpr same.symm)
    intro ⟨after, opened⟩
    obtain ⟨_, -, returned⟩ := Option.bind_eq_some_iff.mp opened
    cases returned
  · rw [if_pos matched]
    refine iff_of_true ⟨output, rfl⟩ ?_
    rintro rfl
    exact matched ((xorDiff_eq_zero_iff _ _).mpr rfl)

/-- Different data and ciphertexts give different MAC inputs, and `open` compares with
the tag that `seal` computes for the same data and ciphertext. -/
theorem mac_input_unambiguous (aad ct aad' ct' : List U8) (aadBound : aad.length < 2 ^ 64)
    (ctBound : ct.length < 2 ^ 64) (aadBound' : aad'.length < 2 ^ 64)
    (ctBound' : ct'.length < 2 ^ 64) :
    (macInput aad ct = macInput aad' ct' → aad = aad' ∧ ct = ct') ∧
      ∀ (key : Bytes 32) (nonce : Bytes 12) (plaintext buffer : List U8) (tag : Bytes 16),
        chacha20Poly1305Seal key nonce aad plaintext buffer = some (ct, tag) →
        tag = poly1305 (oneTimeKey key nonce) (macInput aad ct) ∧
        ∀ (offered : Bytes 16) (output : List U8),
          (∃ after, chacha20Poly1305Open key nonce aad ct offered output = some (false, after)) ↔
            offered ≠ tag := by
  refine ⟨macInput_injective aadBound ctBound aadBound' ctBound', ?_⟩
  intro key nonce plaintext buffer tag sealed
  obtain ⟨_, -, returned⟩ := Option.bind_eq_some_iff.mp sealed
  obtain ⟨rfl, rfl⟩ := Prod.mk.inj (Option.some.inj returned)
  exact ⟨rfl, fun offered output => open_refuses_iff key nonce aad _ offered output⟩

/-- A byte of data is not taken for a byte of ciphertext. -/
theorem mac_input_unambiguous_byte : macInput [0x41] [] ≠ macInput [] [0x41] := by
  intro same
  have parts := (mac_input_unambiguous [0x41] [] [] [0x41] (by decide) (by decide) (by decide)
    (by decide)).1 same
  cases parts.1

end AxiomKernel.Aead
