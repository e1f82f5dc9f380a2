import Mathlib
import AxiomKernel.Lib.Bytes
import AxiomKernel.Crypto.Sha256
import AxiomKernel.Crypto.Rfc5869
import AxiomKernel.Crypto.HmacConformance
import AxiomKernel.Aead.ChaCha20
import AxiomKernel.Aead.SealOpen

/-!
# Encrypt-then-HMAC

Model of `chacha20_xor`, `aead_seal` and `aead_open` of `crypto_aead.rs`.  The arrays
have fixed sizes and the text in them a length of its own; both functions look at the
first `len` bytes only.  `none` is a panic.
-/

set_option autoImplicit false

namespace AxiomKernel.Aead

open ByteStrings Crypto

/-! ## The code -/

def MAX_PT : Nat := 48

def TAG_LEN : Nat := 16

structure AeadCt where
  ct : Bytes MAX_PT
  len : Nat
  tag : Bytes TAG_LEN
  deriving DecidableEq

/-- What `chacha20_xor` leaves in `out`; more than 64 bytes of data fail its assertion. -/
def chacha20Xor (key : Bytes 32) (nonce : Bytes 12) (data out : List U8) : Option (List U8) :=
  if data.length ≤ 64 then
    let ks := chacha20Block key 1 nonce
    xorBlock data ks.toList out 0 data.length
  else none

/-- `nonce ∥ ct[..len]`, put together in a buffer of 60 bytes. -/
def authInput (nonce : Bytes 12) (ct : Bytes MAX_PT) (len : Nat) : List U8 :=
  let authIn : Bytes (12 + MAX_PT) := Vector.replicate (12 + MAX_PT) 0
  let authIn := copyFromSlice authIn 0 nonce.toList
  let authIn := copyFromSlice authIn 12 (slice ct 0 len)
  slice authIn 0 (12 + len)

/-- `h[..TAG_LEN]` as an array. -/
def truncateTag (h : Bytes 32) : Bytes TAG_LEN :=
  copyFromSlice (Vector.replicate TAG_LEN 0) 0 (slice h 0 TAG_LEN)

def aeadSeal (key : Bytes 32) (nonce : Bytes 12) (plaintext : List U8) : Option AeadCt :=
  let len := plaintext.length
  if len ≤ MAX_PT then do
    let ct : Bytes MAX_PT := Vector.replicate MAX_PT 0
    let written ← chacha20Xor key nonce plaintext (slice ct 0 len)
    let ct := copyFromSlice ct 0 written
    let h := hmacSha256 key.toList (authInput nonce ct len)
    some ⟨ct, len, truncateTag h⟩
  else none

def aeadOpen (key : Bytes 32) (nonce : Bytes 12) (c : AeadCt) :
    Option (Option (Bytes MAX_PT × Nat)) :=
  if c.len ≤ MAX_PT then
    let h := hmacSha256 key.toList (authInput nonce c.ct c.len)
    -- the comparison loop reads the first `TAG_LEN` bytes of `h`
    if xorDiff c.tag (truncateTag h) ≠ 0 then some none
    else do
      let pt : Bytes MAX_PT := Vector.replicate MAX_PT 0
      let written ← chacha20Xor key nonce (slice c.ct 0 c.len) (slice pt 0 c.len)
      some (some (copyFromSlice pt 0 written, c.len))
  else none

/-! ## The parts -/

/-- The text under the key stream. -/
def xored (key : Bytes 32) (nonce : Bytes 12) (text : List U8) : List U8 :=
  List.zipWith (· ^^^ ·) text (chacha20Block key 1 nonce).toList

theorem xored_length (key : Bytes 32) (nonce : Bytes 12) {text : List U8}
    (short : text.length ≤ 64) : (xored key nonce text).length = text.length := by
  rw [xored, List.length_zipWith, Vector.length_toList, Nat.min_eq_left short]

theorem xored_xored (key : Bytes 32) (nonce : Bytes 12) {text : List U8}
    (short : text.length ≤ 64) : xored key nonce (xored key nonce text) = text :=
  zipWith_xor_cancel _ _ (by rw [Vector.length_toList]; exact short)

theorem chacha20Xor_eq (key : Bytes 32) (nonce : Bytes 12) {data out : List U8}
    (short : data.length ≤ 64) (sameLength : out.length = data.length) :
    chacha20Xor key nonce data out = some (xored key nonce data) := by
  have keyStream : (chacha20Block key 1 nonce).toList.length = 64 := Vector.length_toList
  have written : (List.zipWith (· ^^^ ·) data (chacha20Block key 1 nonce).toList).length =
      data.length := xored_length key nonce short
  rw [chacha20Xor, if_pos short]
  dsimp only
  rw [xorBlock_eq _ _ _ _ _ (by omega) (by omega) (by omega), List.take_zero, List.nil_append,
    List.drop_zero, Nat.zero_add, List.drop_of_length_le (by omega), List.append_nil,
    List.take_of_length_le (by omega), xored]

theorem authInput_eq (nonce : Bytes 12) (ct : Bytes MAX_PT) {len : Nat} (fits : len ≤ MAX_PT) :
    authInput nonce ct len = nonce.toList ++ ct.toList.take len := by
  have text : (ct.toList.take len).length = len := by
    rw [← slice_zero, slice_zero_length ct fits]
  have front := copyFromSlice_take (Vector.replicate (12 + MAX_PT) 0) 0 nonce.toList
    (by rw [Vector.length_toList]; omega)
  rw [Vector.length_toList, Nat.zero_add, List.take_zero, List.nil_append] at front
  have whole := copyFromSlice_take (copyFromSlice (Vector.replicate (12 + MAX_PT) 0) 0 nonce.toList)
    12 (ct.toList.take len) (by rw [text]; omega)
  rw [text, front] at whole
  rw [authInput, slice_zero, slice_zero, whole]

theorem truncateTag_toList (h : Bytes 32) : (truncateTag h).toList = h.toList.take 16 := by
  have length : (slice h 0 TAG_LEN).length = TAG_LEN := slice_zero_length h (by decide)
  rw [truncateTag, copyFromSlice_replicate _ _ length.le, length, Nat.sub_self,
    List.replicate_zero, List.append_nil, slice_zero]
  rfl

/-- The tag of RFC 2104's HMAC over the nonce and the text, cut to 16 bytes. -/
def hmacTag (key : Bytes 32) (nonce : Bytes 12) (text : List U8) : List U8 :=
  (Rfc2104.hmac key.toList (nonce.toList ++ text)).take 16

theorem computedTag_toList (key : Bytes 32) (nonce : Bytes 12) (ct : Bytes MAX_PT) {len : Nat}
    (fits : len ≤ MAX_PT) :
    (truncateTag (hmacSha256 key.toList (authInput nonce ct len))).toList =
      hmacTag key nonce (ct.toList.take len) := by
  rw [truncateTag_toList, hmacSha256_conforms, authInput_eq nonce ct fits, hmacTag]

/-- The text under the key stream, in an array that is zero behind it. -/
def xorPadded (key : Bytes 32) (nonce : Bytes 12) (text : List U8) : Bytes MAX_PT :=
  copyFromSlice (Vector.replicate MAX_PT 0) 0 (xored key nonce text)

theorem xorPadded_toList (key : Bytes 32) (nonce : Bytes 12) {text : List U8}
    (fits : text.length ≤ MAX_PT) :
    (xorPadded key nonce text).toList =
      xored key nonce text ++ List.replicate (MAX_PT - text.length) 0 := by
  have limit : MAX_PT = 48 := rfl
  have length := xored_length key nonce (show text.length ≤ 64 by omega)
  rw [xorPadded, copyFromSlice_replicate _ _ (by omega), length]

/-! ## Seal and open -/

theorem aeadSeal_eq (key : Bytes 32) (nonce : Bytes 12) {plaintext : List U8}
    (fits : plaintext.length ≤ MAX_PT) :
    aeadSeal key nonce plaintext = some
      ⟨xorPadded key nonce plaintext, plaintext.length, truncateTag (hmacSha256 key.toList
        (authInput nonce (xorPadded key nonce plaintext) plaintext.length))⟩ := by
  have limit : MAX_PT = 48 := rfl
  rw [aeadSeal]
  dsimp only
  rw [if_pos fits, chacha20Xor_eq key nonce (by omega) (slice_zero_length _ fits)]
  rfl

theorem aeadOpen_eq (key : Bytes 32) (nonce : Bytes 12) (c : AeadCt) (fits : c.len ≤ MAX_PT) :
    aeadOpen key nonce c = some
      (if c.tag.toList = hmacTag key nonce (c.ct.toList.take c.len) then
        some (xorPadded key nonce (c.ct.toList.take c.len), c.len) else none) := by
  have limit : MAX_PT = 48 := rfl
  have length := slice_zero_length c.ct fits
  have same : c.tag = truncateTag (hmacSha256 key.toList (authInput nonce c.ct c.len)) ↔
      c.tag.toList = hmacTag key nonce (c.ct.toList.take c.len) := by
    rw [← computedTag_toList key nonce c.ct fits, Vector.toList_inj]
  rw [aeadOpen, if_pos fits]
  by_cases matched : c.tag.toList = hmacTag key nonce (c.ct.toList.take c.len)
  · rw [if_pos matched, if_neg (not_not.mpr ((xorDiff_eq_zero_iff _ _).mpr (same.mpr matched)))]
    dsimp only
    rw [chacha20Xor_eq key nonce (by omega) (by rw [length, slice_zero_length _ fits]), slice_zero]
    rfl
  · rw [if_neg matched, if_pos (mt (xorDiff_eq_zero_iff _ _).mp (mt same.mp matched))]

theorem take_xorPadded (key : Bytes 32) (nonce : Bytes 12) {text : List U8}
    (fits : text.length ≤ MAX_PT) :
    (xorPadded key nonce text).toList.take text.length = xored key nonce text := by
  have limit : MAX_PT = 48 := rfl
  have length := xored_length key nonce (show text.length ≤ 64 by omega)
  rw [xorPadded_toList key nonce fits, List.take_append_of_le_length length.ge,
    List.take_of_length_le length.le]

theorem aeadOpen_aeadSeal (key : Bytes 32) (nonce : Bytes 12) {plaintext : List U8}
    (fits : plaintext.length ≤ MAX_PT) :
    ∃ c pt, aeadSeal key nonce plaintext = some c ∧
      aeadOpen key nonce c = some (some (pt, plaintext.length)) ∧
      pt.toList = plaintext ++ List.replicate (MAX_PT - plaintext.length) 0 := by
  have limit : MAX_PT = 48 := rfl
  have short : plaintext.length ≤ 64 := by omega
  have length := xored_length key nonce short
  refine ⟨_, xorPadded key nonce ((xorPadded key nonce plaintext).toList.take plaintext.length),
    aeadSeal_eq key nonce fits, ?_, ?_⟩
  · rw [aeadOpen_eq key nonce _ fits]
    dsimp only
    rw [if_pos (computedTag_toList key nonce _ fits)]
  · rw [take_xorPadded key nonce fits, xorPadded_toList key nonce (by omega), length,
      xored_xored key nonce short]

theorem aeadOpen_isSome (key : Bytes 32) (nonce : Bytes 12) (c : AeadCt) (fits : c.len ≤ MAX_PT) :
    ∃ opened, aeadOpen key nonce c = some opened ∧
      (opened.isSome ↔ c.tag.toList = hmacTag key nonce (c.ct.toList.take c.len)) := by
  refine ⟨_, aeadOpen_eq key nonce c fits, ?_⟩
  by_cases matched : c.tag.toList = hmacTag key nonce (c.ct.toList.take c.len)
  · rw [if_pos matched]
    exact iff_of_true rfl matched
  · rw [if_neg matched]
    exact iff_of_false Bool.false_ne_true matched

theorem aeadOpen_tail_irrelevant (key : Bytes 32) (nonce : Bytes 12) (c : AeadCt)
    (fits : c.len ≤ MAX_PT) {ct : Bytes MAX_PT}
    (sameText : ct.toList.take c.len = c.ct.toList.take c.len) :
    aeadOpen key nonce { c with ct := ct } = aeadOpen key nonce c := by
  rw [aeadOpen_eq key nonce c fits, aeadOpen_eq key nonce { c with ct := ct } fits]
  dsimp only
  rw [sameText]

/-- A sealed text opens to itself, zero-padded.  A ciphertext opens exactly if its tag is
that of the nonce and its first `len` bytes, and what is behind them is not looked at. -/
theorem hmac_aead_correct (key : Bytes 32) (nonce : Bytes 12) :
    (∀ plaintext : List U8, plaintext.length ≤ MAX_PT →
      ∃ c pt, aeadSeal key nonce plaintext = some c ∧
        aeadOpen key nonce c = some (some (pt, plaintext.length)) ∧
        pt.toList = plaintext ++ List.replicate (MAX_PT - plaintext.length) 0) ∧
    ∀ c : AeadCt, c.len ≤ MAX_PT →
      (∃ opened, aeadOpen key nonce c = some opened ∧
        (opened.isSome ↔ c.tag.toList =
          (Rfc2104.hmac key.toList (nonce.toList ++ c.ct.toList.take c.len)).take 16)) ∧
      ∀ ct : Bytes MAX_PT, ct.toList.take c.len = c.ct.toList.take c.len →
        aeadOpen key nonce { c with ct := ct } = aeadOpen key nonce c := by
  refine ⟨fun plaintext fits => aeadOpen_aeadSeal key nonce fits, ?_⟩
  intro c fits
  exact ⟨aeadOpen_isSome key nonce c fits,
    fun ct sameText => aeadOpen_tail_irrelevant key nonce c fits sameText⟩

/-- One byte sealed and opened under the zero key. -/
theorem hmac_aead_correct_one_byte :
    [(0x41 : U8)].length ≤ MAX_PT ∧
    ∃ c pt, aeadSeal (Vector.replicate 32 0) (Vector.replicate 12 0) [0x41] = some c ∧
      aeadOpen (Vector.replicate 32 0) (Vector.replicate 12 0) c = some (some (pt, 1)) ∧
      pt.toList = [0x41] ++ List.replicate 47 0 :=
  ⟨by decide, (hmac_aead_correct (Vector.replicate 32 0) (Vector.replicate 12 0)).1 [0x41]
    (by decide)⟩

end AxiomKernel.Aead
