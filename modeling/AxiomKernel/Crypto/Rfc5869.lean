import Mathlib
import AxiomKernel.Lib.Bytes
import AxiomKernel.Lib.Chunks
import AxiomKernel.Crypto.Fips180

/-!
# HMAC and HKDF

RFC 2104 and RFC 5869 over the SHA-256 of FIPS 180-4, written from the two
documents and not from the kernel.
-/

set_option autoImplicit false

namespace AxiomKernel.Rfc2104

open ByteStrings

def ipad : U8 := 0x36

def opad : U8 := 0x5c

/-- Zeros are appended to the key to fill one 64-byte block; a key that is longer than a block
is first replaced by its hash. -/
def blockKey (key : List U8) : List U8 :=
  let key := if key.length > 64 then Fips180.sha256 key else key
  key ++ List.replicate (64 - key.length) 0

def hmac (key text : List U8) : List U8 :=
  let k := blockKey key
  Fips180.sha256 (k.map (· ^^^ opad) ++ Fips180.sha256 (k.map (· ^^^ ipad) ++ text))

end AxiomKernel.Rfc2104

namespace AxiomKernel.Rfc5869

open ByteStrings Chunking

/-- Section 2.2. -/
def extract (salt ikm : List U8) : List U8 := Rfc2104.hmac salt ikm

/-- `T(i)` of section 2.3: the previous block, the context and the counter. -/
def T (prk info : List U8) : Nat → List U8
  | 0 => []
  | i + 1 => Rfc2104.hmac prk (T prk info i ++ info ++ [BitVec.ofNat 8 (i + 1)])

/-- The first `length` octets of `T(1) ‖ T(2) ‖ …`; the RFC allows at most `255 * 32`. -/
def expand (prk info : List U8) (length : Nat) : List U8 :=
  ((List.range (blockCount 32 length)).flatMap fun i => T prk info (i + 1)).take length

def hkdf (salt ikm info : List U8) (length : Nat) : List U8 :=
  expand (extract salt ikm) info length

end AxiomKernel.Rfc5869
