import Mathlib
import AxiomKernel.Lib.Bytes
import AxiomKernel.Crypto.Sha256
import AxiomKernel.Crypto.Sha256Conformance
import AxiomKernel.Crypto.Rfc5869

/-!
# The kernel's HMAC conforms to RFC 2104

The normalised key is the RFC's block key, the two pads are its exclusive ors,
and each hash of the code, fed in two updates, is the hash of the concatenation.
-/

set_option autoImplicit false

namespace AxiomKernel.Crypto

open ByteStrings

theorem keyPad_getElem (byte : U8) (k : Bytes 64) (i : Nat) (bound : i < 64) :
    (keyPad byte k)[i] = k[i] ^^^ byte := by
  unfold keyPad
  -- the loop has reached position `n`: behind it the pad is done, ahead it is still filled
  have entries := forLoop_invariant
    (fun i bound (pad : Bytes 64) => pad.set i (pad[i] ^^^ k[i])) (Vector.replicate 64 byte)
    (fun n pad => ∀ j (inside : j < 64), pad[j] = if j < n then k[j] ^^^ byte else byte) ?_ ?_
  · rw [entries i bound, if_pos bound]
  · intro j inside
    rw [if_neg (Nat.not_lt_zero j), Vector.getElem_replicate]
  · intro n nBound pad sofar j inside
    rw [Vector.getElem_set]
    by_cases last : n = j
    · subst last
      rw [if_pos rfl, if_pos (Nat.lt_succ_self n), sofar n inside, if_neg (Nat.lt_irrefl n),
        BitVec.xor_comm]
    · have sameSide : j < n + 1 ↔ j < n := by omega
      rw [if_neg last, sofar j inside]
      simp only [sameSide]

theorem keyPad_toList (byte : U8) (k : Bytes 64) :
    (keyPad byte k).toList = k.toList.map (· ^^^ byte) := by
  apply List.ext_getElem
  · simp
  · intro i leftBound _
    have bound : i < 64 := by simpa using leftBound
    rw [Vector.getElem_toList, keyPad_getElem byte k i bound, List.getElem_map,
      Vector.getElem_toList]

theorem normaliseKey_toList (key : List U8) :
    (normaliseKey key).toList = Rfc2104.blockKey key := by
  rw [normaliseKey, Rfc2104.blockKey]
  split
  case isTrue => rw [copyFromSlice_replicate _ _ (by simp), sha256_conforms]
  case isFalse short => exact copyFromSlice_replicate 0 key (not_lt.mp short)

/-- Two updates act as one on the concatenation. -/
theorem Sha256.two_updates (first second : List U8) :
    ((Sha256.new.update first).update second).finalize = sha256 (first ++ second) := by
  apply Vector.toList_inj.mp
  have streamed := Sha256.updates_conform [first, second]
  rw [sha256_conforms]
  simpa using streamed

theorem hmacSha256_conforms (key data : List U8) :
    (hmacSha256 key data).toList = Rfc2104.hmac key data := by
  rw [hmacSha256, Rfc2104.hmac, Rfc2104.ipad, Rfc2104.opad]
  simp only [Sha256.two_updates, sha256_conforms, keyPad_toList, normaliseKey_toList]

/-- The three hashes of `hmac_sha256` count their lengths without overflow. -/
theorem hmacSha256_lengthsFit (key data : List U8) (keyShort : key.length < 2 ^ 61)
    (dataShort : 64 + data.length < 2 ^ 61) (inner : Bytes 32) :
    Sha256.LengthsFit [key] ∧
      Sha256.LengthsFit [(keyPad 0x36 (normaliseKey key)).toList, data] ∧
      Sha256.LengthsFit [(keyPad 0x5c (normaliseKey key)).toList, inner.toList] := by
  refine ⟨Sha256.lengthsFit_of_short _ ?_, Sha256.lengthsFit_of_short _ ?_,
    Sha256.lengthsFit_of_short _ ?_⟩
  · simpa using keyShort
  · simpa using dataShort
  · simp

end AxiomKernel.Crypto
