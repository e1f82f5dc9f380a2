import Mathlib
import AxiomKernel.Lib.Bytes
import AxiomKernel.Crypto.Sha256
import AxiomKernel.Crypto.Sha256Conformance
import AxiomKernel.Crypto.Rfc5869
import AxiomKernel.Crypto.HmacConformance

/-!
# The EIPC session key

Model of `hkdf_extract`, `hkdf_expand_32` and `eipc_session_key` of
`crypto_aead.rs`, and their conformance to RFC 5869.  The expansion copies the
context into a buffer of 128 bytes and drops what does not fit, so it is the
RFC's for contexts of at most 127 bytes (`hkdfExpand32_conforms`); the context of
a session key has 21.
-/

set_option autoImplicit false

namespace AxiomKernel.Aead

open ByteStrings Chunking Crypto

def hkdfExtract (salt : Bytes 32) (ikm : List U8) : Bytes 32 := hmacSha256 salt.toList ikm

def hkdfExpand32 (prk : Bytes 32) (info : List U8) : Bytes 32 :=
  let buf : Bytes 128 := Vector.replicate 128 0
  let len := min info.length 127
  let buf := copyFromSlice buf 0 (info.take len)
  let buf := buf.setIfInBounds len 0x01
  hmacSha256 prk.toList (slice buf 0 (len + 1))

/-- `b"AXIOM-EIPC-v1"` -/
def eipcLabel : List U8 :=
  [0x41, 0x58, 0x49, 0x4f, 0x4d, 0x2d, 0x45, 0x49, 0x50, 0x43, 0x2d, 0x76, 0x31]

def eipcSessionKey (capChainHash : Bytes 32) (sender receiver : U32) : Bytes 32 :=
  let prk := hkdfExtract (Vector.replicate 32 0) capChainHash.toList
  let info : Bytes 21 := Vector.replicate 21 0
  let info := copyFromSlice info 0 eipcLabel
  let info := copyFromSlice info 13 (toLeBytes 4 sender)
  let info := copyFromSlice info 17 (toLeBytes 4 receiver)
  hkdfExpand32 prk info.toList

/-! ## Extract and expand -/

theorem hkdfExtract_conforms (salt : Bytes 32) (ikm : List U8) :
    (hkdfExtract salt ikm).toList = Rfc5869.extract salt.toList ikm :=
  hmacSha256_conforms salt.toList ikm

/-- One block of output is `T(1)`, which is exactly the RFC's output at length 32. -/
theorem expand_32 (prk info : List U8) :
    Rfc5869.expand prk info 32 = Rfc2104.hmac prk (info ++ [0x01]) := by
  have count : blockCount 32 32 = 1 := by decide
  have blockLength : (Rfc2104.hmac prk (info ++ [0x01])).length = 32 := by
    rw [← hmacSha256_conforms, Vector.length_toList]
  rw [Rfc5869.expand, count, List.range_one, List.flatMap_singleton, Rfc5869.T, Rfc5869.T,
    List.nil_append]
  exact List.take_of_length_le blockLength.le

/-- The authenticated buffer is the context, cut to 127 bytes, and the counter byte. -/
theorem hkdfExpand32_eq (prk : Bytes 32) (info : List U8) :
    hkdfExpand32 prk info = hmacSha256 prk.toList (info.take 127 ++ [0x01]) := by
  have cut : info.take (min info.length 127) = info.take 127 := by
    rw [Nat.min_comm, ← List.take_take, List.take_length]
  have cutLength : (info.take 127).length = min info.length 127 := by
    rw [List.length_take, Nat.min_comm]
  have fits : (info.take 127).length ≤ 128 := by omega
  have spare : 128 - (info.take 127).length = (127 - (info.take 127).length) + 1 := by omega
  have written : slice ((copyFromSlice (Vector.replicate 128 0 : Bytes 128) 0
      (info.take 127)).setIfInBounds (info.take 127).length 0x01) 0 ((info.take 127).length + 1) =
        info.take 127 ++ [0x01] := by
    rw [slice, List.drop_zero, Vector.toList_setIfInBounds, copyFromSlice_replicate _ _ fits, spare,
      List.replicate_succ, List.set_append_right _ _ le_rfl, Nat.sub_self, List.set_cons_zero,
      List.take_length_add_append, List.take_one, List.head?_cons, Option.toList_some]
  rw [cutLength] at written
  rw [hkdfExpand32, cut]
  exact congrArg (hmacSha256 prk.toList) written

theorem hkdfExpand32_conforms (prk : Bytes 32) (info : List U8) (short : info.length ≤ 127) :
    (hkdfExpand32 prk info).toList = Rfc5869.expand prk.toList info 32 := by
  rw [hkdfExpand32_eq, List.take_of_length_le short, hmacSha256_conforms, expand_32]

/-- What a longer context has behind its first 127 bytes does not enter the key. -/
theorem hkdfExpand32_take (prk : Bytes 32) (info : List U8) :
    hkdfExpand32 prk (info.take 127) = hkdfExpand32 prk info := by
  rw [hkdfExpand32_eq, hkdfExpand32_eq, List.take_take, Nat.min_self]

/-! ## The session key -/

theorem sessionInfo_toList (sender receiver : U32) :
    (copyFromSlice (copyFromSlice (copyFromSlice (Vector.replicate 21 0 : Bytes 21) 0 eipcLabel) 13
        (toLeBytes 4 sender)) 17 (toLeBytes 4 receiver)).toList =
      eipcLabel ++ toLeBytes 4 sender ++ toLeBytes 4 receiver := by
  have labelLength : eipcLabel.length = 13 := rfl
  have labelFits : eipcLabel.length ≤ 21 := by decide
  have labelled := copyFromSlice_replicate (0 : U8) eipcLabel labelFits
  have fromSender := copyFromSlice_fill _ eipcLabel (toLeBytes 4 sender) 0 8 labelled (by simp)
  have complete := copyFromSlice_fill _ (eipcLabel ++ toLeBytes 4 sender) (toLeBytes 4 receiver) 0 4
    (by simpa using fromSender) (by simp)
  simpa [labelLength] using complete

/-- `hmac_sha256` is the HMAC of RFC 2104, with no overflow in its length counts below `2^61`
bytes, and `eipc_session_key` is the HKDF of RFC 5869. -/
theorem hmac_and_session_key_conform :
    (∀ key data : List U8, key.length < 2 ^ 61 → 64 + data.length < 2 ^ 61 →
      (hmacSha256 key data).toList = Rfc2104.hmac key data ∧
        ∀ inner : Bytes 32,
          Sha256.LengthsFit [key] ∧
            Sha256.LengthsFit [(keyPad 0x36 (normaliseKey key)).toList, data] ∧
            Sha256.LengthsFit [(keyPad 0x5c (normaliseKey key)).toList, inner.toList]) ∧
      ∀ (capChainHash : Bytes 32) (sender receiver : U32),
        (eipcSessionKey capChainHash sender receiver).toList =
          Rfc5869.hkdf (List.replicate 32 0) capChainHash.toList
            (eipcLabel ++ toLeBytes 4 sender ++ toLeBytes 4 receiver) 32 := by
  constructor
  · intro key data keyShort dataShort
    exact ⟨hmacSha256_conforms key data, hmacSha256_lengthsFit key data keyShort dataShort⟩
  · intro capChainHash sender receiver
    rw [eipcSessionKey, hkdfExpand32_conforms _ _ (by simp), sessionInfo_toList,
      hkdfExtract_conforms, Rfc5869.hkdf, Vector.toList_replicate]

theorem hmac_and_session_key_conform_long_key :
    (hmacSha256 (List.replicate 80 0xaa) (List.replicate 50 0xdd)).toList =
      Rfc2104.hmac (List.replicate 80 0xaa) (List.replicate 50 0xdd) :=
  (hmac_and_session_key_conform.1 (List.replicate 80 0xaa) (List.replicate 50 0xdd)
    (by simp) (by simp)).1

end AxiomKernel.Aead
