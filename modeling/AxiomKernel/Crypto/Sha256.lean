import Mathlib
import AxiomKernel.Lib.Bytes

/-!
# The kernel's SHA-256 and HMAC

Functional model of `crypto.rs`: the block compression, the streaming hasher
`Sha256` with its 64-byte buffer, the one-shot `sha256`, `hmac_sha256` and the
constant-time comparison.

A `for i in 0..n` loop over an array is `Nat.fold`.  The two length operations
of the hasher, `total_len += len` and `total_len * 8`, are taken modulo `2^64`
as the machine computes them; a build with overflow checks stops there instead,
and the conformance theorem states that below `2^61` bytes neither wraps.
-/

set_option autoImplicit false

namespace AxiomKernel.Crypto

open ByteStrings

def K : Vector U32 64 := #v[
  0x428a2f98, 0x71374491, 0xb5c0fbcf, 0xe9b5dba5,
  0x3956c25b, 0x59f111f1, 0x923f82a4, 0xab1c5ed5,
  0xd807aa98, 0x12835b01, 0x243185be, 0x550c7dc3,
  0x72be5d74, 0x80deb1fe, 0x9bdc06a7, 0xc19bf174,
  0xe49b69c1, 0xefbe4786, 0x0fc19dc6, 0x240ca1cc,
  0x2de92c6f, 0x4a7484aa, 0x5cb0a9dc, 0x76f988da,
  0x983e5152, 0xa831c66d, 0xb00327c8, 0xbf597fc7,
  0xc6e00bf3, 0xd5a79147, 0x06ca6351, 0x14292967,
  0x27b70a85, 0x2e1b2138, 0x4d2c6dfc, 0x53380d13,
  0x650a7354, 0x766a0abb, 0x81c2c92e, 0x92722c85,
  0xa2bfe8a1, 0xa81a664b, 0xc24b8b70, 0xc76c51a3,
  0xd192e819, 0xd6990624, 0xf40e3585, 0x106aa070,
  0x19a4c116, 0x1e376c08, 0x2748774c, 0x34b0bcb5,
  0x391c0cb3, 0x4ed8aa4a, 0x5b9cca4f, 0x682e6ff3,
  0x748f82ee, 0x78a5636f, 0x84c87814, 0x8cc70208,
  0x90befffa, 0xa4506ceb, 0xbef9a3f7, 0xc67178f2]

def H0 : Vector U32 8 := #v[
  0x6a09e667, 0xbb67ae85, 0x3c6ef372, 0xa54ff53a,
  0x510e527f, 0x9b05688c, 0x1f83d9ab, 0x5be0cd19]

/-! ## Compression -/

/-- The 16 big-endian words of the block, in a zeroed array of 64. -/
def loadWords (block : Bytes 64) : Vector U32 64 :=
  Nat.fold 16 (fun i bound w =>
    w.set i (fromBeBytes 32
      [block[i * 4], block[i * 4 + 1], block[i * 4 + 2], block[i * 4 + 3]]))
    (Vector.replicate 64 0)

/-- One step of the expansion loop `for i in 16..64`, at `i = j + 16`. -/
def expandWord (j : Nat) (bound : j < 48) (w : Vector U32 64) : Vector U32 64 :=
  let i := j + 16
  let s0 := w[i - 15].rotateRight 7 ^^^ w[i - 15].rotateRight 18 ^^^ (w[i - 15] >>> 3)
  let s1 := w[i - 2].rotateRight 17 ^^^ w[i - 2].rotateRight 19 ^^^ (w[i - 2] >>> 10)
  w.set i (w[i - 16] + s0 + w[i - 7] + s1)

/-- The expanded array `w` of the compression function. -/
def messageWords (block : Bytes 64) : Vector U32 64 :=
  Nat.fold 48 (fun j bound w => expandWord j bound w) (loadWords block)

structure Working where
  a : U32
  b : U32
  c : U32
  d : U32
  e : U32
  f : U32
  g : U32
  h : U32

/-- The body of the 64-round loop. -/
def compressRound (w : Vector U32 64) (i : Nat) (bound : i < 64) (v : Working) : Working :=
  let s1 := v.e.rotateRight 6 ^^^ v.e.rotateRight 11 ^^^ v.e.rotateRight 25
  let ch := (v.e &&& v.f) ^^^ (~~~v.e &&& v.g)
  let t1 := v.h + s1 + ch + K[i] + w[i]
  let s0 := v.a.rotateRight 2 ^^^ v.a.rotateRight 13 ^^^ v.a.rotateRight 22
  let maj := (v.a &&& v.b) ^^^ (v.a &&& v.c) ^^^ (v.b &&& v.c)
  let t2 := s0 + maj
  { h := v.g, g := v.f, f := v.e, e := v.d + t1, d := v.c, c := v.b, b := v.a, a := t1 + t2 }

def compressRounds (w : Vector U32 64) (v : Working) : Working :=
  Nat.fold 64 (fun i bound v => compressRound w i bound v) v

def compress (state : Vector U32 8) (block : Bytes 64) : Vector U32 8 :=
  let w := messageWords block
  let v := compressRounds w
    { a := state[0], b := state[1], c := state[2], d := state[3],
      e := state[4], f := state[5], g := state[6], h := state[7] }
  #v[state[0] + v.a, state[1] + v.b, state[2] + v.c, state[3] + v.d,
    state[4] + v.e, state[5] + v.f, state[6] + v.g, state[7] + v.h]

/-! ## The streaming hasher -/

/-- Between calls the buffer is never full, so `buf_len` is an index of it. -/
structure Sha256 where
  state : Vector U32 8
  buf : Bytes 64
  bufLen : Fin 64
  totalLen : U64

def Sha256.new : Sha256 :=
  { state := H0, buf := Vector.replicate 64 0, bufLen := 0, totalLen := 0 }

/-- One iteration of the `while !data.is_empty()` loop; the second component
is the remaining data. -/
def Sha256.absorb (hasher : Sha256) (data : List U8) : Sha256 × List U8 :=
  let space := 64 - hasher.bufLen.val
  let take := min space data.length
  let buf := copyFromSlice hasher.buf hasher.bufLen.val (data.take take)
  if full : hasher.bufLen.val + take = 64 then
    ({ hasher with state := compress hasher.state buf, buf := buf, bufLen := 0 },
      data.drop take)
  else
    ({ hasher with
        buf := buf
        bufLen := ⟨hasher.bufLen.val + take, by
          have := hasher.bufLen.isLt
          omega⟩ },
      data.drop take)

/-- The loop.  Every iteration on non-empty data consumes at least one byte, so
as many iterations as there are bytes always exhaust the data. -/
def Sha256.absorbAll : Nat → Sha256 → List U8 → Sha256
  | 0, hasher, _ => hasher
  | fuel + 1, hasher, data =>
      if data.isEmpty then hasher
      else Sha256.absorbAll fuel (hasher.absorb data).1 (hasher.absorb data).2

def Sha256.update (hasher : Sha256) (data : List U8) : Sha256 :=
  Sha256.absorbAll data.length
    { hasher with totalLen := hasher.totalLen + BitVec.ofNat 64 data.length } data

/-- `for i in from..to { buf[i] = 0; }` -/
def zeroRange (buf : Bytes 64) (start stop : Nat) : Bytes 64 :=
  copyFromSlice buf start (List.replicate (stop - start) 0)

def serialiseState (state : Vector U32 8) : Bytes 32 :=
  Nat.fold 8 (fun i bound out => copyFromSlice out (i * 4) (toBeBytes 4 state[i]))
    (Vector.replicate 32 0)

def Sha256.finalize (hasher : Sha256) : Bytes 32 :=
  let totalBits := hasher.totalLen * 8
  let buf := hasher.buf.set hasher.bufLen.val 0x80
  let bufLen := hasher.bufLen.val + 1
  let (state, buf, bufLen) :=
    if bufLen > 56 then
      (compress hasher.state (zeroRange buf bufLen 64), zeroRange buf bufLen 64, 0)
    else (hasher.state, buf, bufLen)
  let buf := zeroRange buf bufLen 56
  let buf := copyFromSlice buf 56 (toBeBytes 8 totalBits)
  serialiseState (compress state buf)

/-! ## Public functions -/

def sha256 (data : List U8) : Bytes 32 := (Sha256.new.update data).finalize

/-- `for i in 0..64 { pad[i] ^= k[i]; }` over an array filled with `byte`. -/
def keyPad (byte : U8) (k : Bytes 64) : Bytes 64 :=
  Nat.fold 64 (fun i bound pad => pad.set i (pad[i] ^^^ k[i])) (Vector.replicate 64 byte)

def normaliseKey (key : List U8) : Bytes 64 :=
  if key.length > 64 then copyFromSlice (Vector.replicate 64 0) 0 (sha256 key).toList
  else copyFromSlice (Vector.replicate 64 0) 0 key

def hmacSha256 (key data : List U8) : Bytes 32 :=
  let k := normaliseKey key
  let kIpad := keyPad 0x36 k
  let kOpad := keyPad 0x5c k
  let innerHash := ((Sha256.new.update kIpad.toList).update data).finalize
  ((Sha256.new.update kOpad.toList).update innerHash.toList).finalize

/-- Constant-time equality of two 32-byte tags. -/
def ctEq32 (a b : Bytes 32) : Bool := xorDiff a b == 0

theorem ctEq32_iff (a b : Bytes 32) : ctEq32 a b = true ↔ a = b := by
  rw [ctEq32, beq_iff_eq, xorDiff_eq_zero_iff]

end AxiomKernel.Crypto
