import Mathlib
import AxiomKernel.Lib.Bytes
import AxiomKernel.Lib.BlockStream

/-!
# SHA-256 as FIPS 180-4 states it

The standard's functions, constants, padding and hash computation, written
from the standard and not from the kernel.  The constants are the leading
fractional bits of square and cube roots of primes, computed by integer roots;
the schedule `W` is the standard's recurrence on the round number.
-/

set_option autoImplicit false

namespace AxiomKernel.Fips180

open ByteStrings BlockStreams

/-! ## Section 4.1.2: functions -/

def ch (x y z : U32) : U32 := (x &&& y) ^^^ (~~~x &&& z)

def maj (x y z : U32) : U32 := (x &&& y) ^^^ (x &&& z) ^^^ (y &&& z)

def bigSigma0 (x : U32) : U32 := x.rotateRight 2 ^^^ x.rotateRight 13 ^^^ x.rotateRight 22

def bigSigma1 (x : U32) : U32 := x.rotateRight 6 ^^^ x.rotateRight 11 ^^^ x.rotateRight 25

def smallSigma0 (x : U32) : U32 := x.rotateRight 7 ^^^ x.rotateRight 18 ^^^ (x >>> 3)

def smallSigma1 (x : U32) : U32 := x.rotateRight 17 ^^^ x.rotateRight 19 ^^^ (x >>> 10)

/-! ## Sections 4.2.2 and 5.3.3: constants -/

def primes : List Nat :=
  [2, 3, 5, 7, 11, 13, 17, 19, 23, 29, 31, 37, 41, 43, 47, 53, 59, 61, 67, 71, 73, 79, 83, 89,
    97, 101, 103, 107, 109, 113, 127, 131, 137, 139, 149, 151, 157, 163, 167, 173, 179, 181,
    191, 193, 197, 199, 211, 223, 227, 229, 233, 239, 241, 251, 257, 263, 269, 271, 277, 281,
    283, 293, 307, 311]

/-- The first thirty-two bits of the fractional part of the `k`-th root of
`p`: the integer root of `p * 2^(32 k)`, without the integer part. -/
def rootBits (k p : Nat) : U32 := BitVec.ofNat 32 (Nat.nthRoot k (p * 2 ^ (32 * k)))

def roundConstant (t : Nat) : U32 := rootBits 3 (primes.getD t 0)

def initialHash : Vector U32 8 := Vector.ofFn fun i : Fin 8 => rootBits 2 (primes.getD i.val 0)

/-! ## Section 5.1.1: padding -/

/-- The number of zero bytes between the byte `0x80` and the length field. -/
def paddingZeros (length : Nat) : Nat := (119 - length % 64) % 64

def pad (message : List U8) : List U8 :=
  message ++ ([0x80] ++ List.replicate (paddingZeros message.length) 0 ++
    beBytes 8 (8 * message.length))

/-- The zero count is the least one that leaves exactly eight bytes of the
last block for the length. -/
theorem paddingZeros_least (length zeros : Nat) (fills : (length + 1 + zeros) % 64 = 56) :
    (length + 1 + paddingZeros length) % 64 = 56 ∧ paddingZeros length ≤ zeros := by
  unfold paddingZeros
  omega

theorem pad_length_mod (message : List U8) : (pad message).length % 64 = 0 := by
  simp only [pad, List.length_append, List.length_cons, List.length_nil,
    List.length_replicate, beBytes_length]
  unfold paddingZeros
  omega

/-! ## Section 6.2.2: hash computation -/

def blockWord (block : Bytes 64) (t : Nat) : U32 :=
  fromBeBytes 32 ((block.toList.drop (4 * t)).take 4)

def W (block : Bytes 64) (t : Nat) : U32 :=
  if t < 16 then blockWord block t
  else
    smallSigma1 (W block (t - 2)) + W block (t - 7) + smallSigma0 (W block (t - 15)) +
      W block (t - 16)
termination_by t

structure Variables where
  a : U32
  b : U32
  c : U32
  d : U32
  e : U32
  f : U32
  g : U32
  h : U32

def round (block : Bytes 64) (t : Nat) (v : Variables) : Variables :=
  let t1 := v.h + bigSigma1 v.e + ch v.e v.f v.g + roundConstant t + W block t
  let t2 := bigSigma0 v.a + maj v.a v.b v.c
  ⟨t1 + t2, v.a, v.b, v.c, v.d + t1, v.e, v.f, v.g⟩

/-- The working variables after `count` rounds. -/
def rounds (block : Bytes 64) : Nat → Variables → Variables
  | 0, v => v
  | count + 1, v => round block count (rounds block count v)

def hashBlock (hash : Vector U32 8) (block : Bytes 64) : Vector U32 8 :=
  let v := rounds block 64
    ⟨hash[0]!, hash[1]!, hash[2]!, hash[3]!, hash[4]!, hash[5]!, hash[6]!, hash[7]!⟩
  #v[v.a + hash[0]!, v.b + hash[1]!, v.c + hash[2]!, v.d + hash[3]!,
    v.e + hash[4]!, v.f + hash[5]!, v.g + hash[6]!, v.h + hash[7]!]

/-- The digest: the padded message is hashed block by block from the initial
value and the eight final words are written big-endian. -/
def sha256 (message : List U8) : List U8 :=
  (foldBlocks hashBlock ((pad message).length / 64) initialHash (pad message)).toList.flatMap
    (toBeBytes 4)

end AxiomKernel.Fips180
