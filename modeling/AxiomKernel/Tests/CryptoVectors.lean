import Mathlib
import AxiomKernel.Lib.Bytes
import AxiomKernel.Lib.Words
import AxiomKernel.Lib.Chunks
import AxiomKernel.Crypto.Sha256
import AxiomKernel.Crypto.Sha256Conformance
import AxiomKernel.Crypto.HmacConformance
import AxiomKernel.Aead.Rfc8439
import AxiomKernel.Aead.Poly1305
import AxiomKernel.Aead.Poly1305Conformance

/-!
# The crypto copies of the host tests

`crypto_vectors.rs` cannot link the kernel and tests its own copies of SHA-256,
HMAC and Poly1305.  The copies differ from the kernel's functions: SHA-256 hashes
one slice in one call, HMAC concatenates what the kernel streams, and Poly1305
adds a block and its marker bit in two steps and does not subtract the prime
before the end.  They compute the same functions (`copies_agree`).

The lengths of the copied SHA-256 are taken modulo `2^64` as the kernel's are;
both count the same total, so they also leave that range together.
-/

set_option autoImplicit false

namespace AxiomKernel.CryptoVectors

open ByteStrings MachineWords Chunking

/-! ## SHA-256 and HMAC -/

def K256 : Vector U32 64 := Array.toVector #[
  0x428a2f98, 0x71374491, 0xb5c0fbcf, 0xe9b5dba5,
  0x3956c25b, 0x59f111f1, 0x923f82a4, 0xab1c5ed5,
  0xd807aa98, 0x12835b01, 0x243185be, 0x550c7dc3,
  0x72be5d74, 0x80deb1fe, 0x9bdc06a7, 0xc19bf174,
  0xe49b69c1, 0xefbe4786, 0x0fc19dc6, 0x240ca1cc,
  0x2de92c6f, 0x4a7484aa, 0x5cb0a9dc, 0x76f988da,
  0x983e5152, 0xa831c66d, 0xb00327c8, 0xbf597fc7,
  0xc6e00bf3, 0xd5a79147, 0x06ca6351, 0x14292967,
  0x27b70a85, 0x2e1b2138, 0x4d2c6dfc, 0x53380d13,
  0x650a7354, 0x766a0abb, 0x81c2c92e, 0x92722c85,
  0xa2bfe8a1, 0xa81a664b, 0xc24b8b70, 0xc76c51a3,
  0xd192e819, 0xd6990624, 0xf40e3585, 0x106aa070,
  0x19a4c116, 0x1e376c08, 0x2748774c, 0x34b0bcb5,
  0x391c0cb3, 0x4ed8aa4a, 0x5b9cca4f, 0x682e6ff3,
  0x748f82ee, 0x78a5636f, 0x84c87814, 0x8cc70208,
  0x90befffa, 0xa4506ceb, 0xbef9a3f7, 0xc67178f2]

def H0 : Vector U32 8 := Array.toVector #[
  0x6a09e667, 0xbb67ae85, 0x3c6ef372, 0xa54ff53a,
  0x510e527f, 0x9b05688c, 0x1f83d9ab, 0x5be0cd19]

/-- `for i in 0..16` of the copied compression. -/
def loadWords (block : Bytes 64) : Vector U32 64 :=
  Nat.fold 16 (fun i _ w =>
    w.setIfInBounds i (fromBeBytes 32
      [block[i * 4]!, block[i * 4 + 1]!, block[i * 4 + 2]!, block[i * 4 + 3]!]))
    (Vector.replicate 64 0)

/-- `for i in 16..64`, at `i = j + 16`. -/
def expandWord (j : Nat) (w : Vector U32 64) : Vector U32 64 :=
  let i := j + 16
  let s0 := w[i - 15]!.rotateRight 7 ^^^ w[i - 15]!.rotateRight 18 ^^^ (w[i - 15]! >>> 3)
  let s1 := w[i - 2]!.rotateRight 17 ^^^ w[i - 2]!.rotateRight 19 ^^^ (w[i - 2]! >>> 10)
  w.setIfInBounds i (w[i - 16]! + s0 + w[i - 7]! + s1)

/-- `for i in 0..64` on the working variables. -/
def compressRound (w : Vector U32 64) (i : Nat) (v : Crypto.Working) : Crypto.Working :=
  let s1 := v.e.rotateRight 6 ^^^ v.e.rotateRight 11 ^^^ v.e.rotateRight 25
  let ch := (v.e &&& v.f) ^^^ (~~~v.e &&& v.g)
  let t1 := v.h + s1 + ch + K256[i]! + w[i]!
  let s0 := v.a.rotateRight 2 ^^^ v.a.rotateRight 13 ^^^ v.a.rotateRight 22
  let maj := (v.a &&& v.b) ^^^ (v.a &&& v.c) ^^^ (v.b &&& v.c)
  let t2 := s0 + maj
  { h := v.g, g := v.f, f := v.e, e := v.d + t1, d := v.c, c := v.b, b := v.a, a := t1 + t2 }

def messageWords (block : Bytes 64) : Vector U32 64 :=
  Nat.fold 48 (fun j _ w => expandWord j w) (loadWords block)

def compressRounds (w : Vector U32 64) (v : Crypto.Working) : Crypto.Working :=
  Nat.fold 64 (fun i _ v => compressRound w i v) v

def compress (state : Vector U32 8) (block : Bytes 64) : Vector U32 8 :=
  let w := messageWords block
  let v := compressRounds w
    { a := state[0]!, b := state[1]!, c := state[2]!, d := state[3]!,
      e := state[4]!, f := state[5]!, g := state[6]!, h := state[7]! }
  #v[state[0]! + v.a, state[1]! + v.b, state[2]! + v.c, state[3]! + v.d,
    state[4]! + v.e, state[5]! + v.f, state[6]! + v.g, state[7]! + v.h]

theorem buffer_nonempty : 0 < 64 := by decide

/-- The locals of the copied `sha256` that its loop changes. -/
structure Locals where
  state : Vector U32 8
  buf : Bytes 64
  bufLen : Fin 64

/-- One turn of `while !d.is_empty()`, and the remaining data. -/
def Locals.absorb (l : Locals) (d : List U8) : Locals × List U8 :=
  let space := 64 - l.bufLen.val
  let take := min space d.length
  let buf := copyFromSlice l.buf l.bufLen.val (d.take take)
  if full : l.bufLen.val + take = 64 then
    ({ state := compress l.state buf, buf := buf, bufLen := ⟨0, buffer_nonempty⟩ }, d.drop take)
  else
    ({ l with
        buf := buf
        bufLen := ⟨l.bufLen.val + take, by
          have := l.bufLen.isLt
          omega⟩ },
      d.drop take)

def Locals.absorbAll : Nat → Locals → List U8 → Locals
  | 0, l, _ => l
  | fuel + 1, l, d =>
      if d.isEmpty then l else Locals.absorbAll fuel (l.absorb d).1 (l.absorb d).2

def sha256 (data : List U8) : Bytes 32 :=
  let total : U64 := 0 + BitVec.ofNat 64 data.length
  let start : Locals := { state := H0, buf := Vector.replicate 64 0, bufLen := ⟨0, buffer_nonempty⟩ }
  let l := Locals.absorbAll data.length start data
  let bits := total * 8
  let buf := l.buf.setIfInBounds l.bufLen.val 0x80
  let bufLen := l.bufLen.val + 1
  let (state, buf, bufLen) :=
    if bufLen > 56 then
      (compress l.state (Crypto.zeroRange buf bufLen 64), Crypto.zeroRange buf bufLen 64, 0)
    else (l.state, buf, bufLen)
  let buf := Crypto.zeroRange buf bufLen 56
  let buf := copyFromSlice buf 56 (toBeBytes 8 bits)
  Crypto.serialiseState (compress state buf)

def hmacSha256 (key data : List U8) : Bytes 32 :=
  let k : Bytes 64 := Vector.replicate 64 0
  let k := if key.length > 64 then copyFromSlice k 0 (sha256 key).toList else copyFromSlice k 0 key
  let ipad := Crypto.keyPad 0x36 k
  let opad := Crypto.keyPad 0x5c k
  let innerData := ipad.toList ++ data
  let inner := sha256 innerData
  let outerData := opad.toList ++ inner.toList
  sha256 outerData

/-! ## The copied SHA-256 is the kernel's -/

theorem loadWords_eq (block : Bytes 64) : loadWords block = Crypto.loadWords block := by
  unfold loadWords Crypto.loadWords
  congr 1
  funext i bound w
  rw [setIfInBounds_of_lt w _ (by omega), getElem!_pos block (i * 4) (by omega),
    getElem!_pos block (i * 4 + 1) (by omega), getElem!_pos block (i * 4 + 2) (by omega),
    getElem!_pos block (i * 4 + 3) (by omega)]

theorem expandWord_eq (j : Nat) (bound : j < 48) (w : Vector U32 64) :
    expandWord j w = Crypto.expandWord j bound w := by
  unfold expandWord Crypto.expandWord
  simp only
  rw [setIfInBounds_of_lt w _ (by omega), getElem!_pos w (j + 16 - 15) (by omega),
    getElem!_pos w (j + 16 - 2) (by omega), getElem!_pos w (j + 16 - 16) (by omega),
    getElem!_pos w (j + 16 - 7) (by omega)]

theorem compressRound_eq (w : Vector U32 64) (i : Nat) (bound : i < 64) (v : Crypto.Working) :
    compressRound w i v = Crypto.compressRound w i bound v := by
  have constants : K256 = Crypto.K := rfl
  unfold compressRound Crypto.compressRound
  rw [constants, getElem!_pos Crypto.K i bound, getElem!_pos w i bound]

theorem messageWords_eq (block : Bytes 64) : messageWords block = Crypto.messageWords block := by
  unfold messageWords Crypto.messageWords
  rw [loadWords_eq]
  congr 1
  funext j bound w
  exact expandWord_eq j bound w

theorem compressRounds_eq (w : Vector U32 64) (v : Crypto.Working) :
    compressRounds w v = Crypto.compressRounds w v := by
  unfold compressRounds Crypto.compressRounds
  congr 1
  funext i bound v
  exact compressRound_eq w i bound v

theorem compress_eq : compress = Crypto.compress := by
  funext state block
  have entries : ∀ i (inside : i < 8), state[i]! = state[i] := fun i inside =>
    getElem!_pos state i inside
  simp (disch := decide) only [compress, messageWords_eq, compressRounds_eq, entries]
  rfl

/-- The kernel's hasher with the same buffer. -/
def Locals.hasher (l : Locals) (total : U64) : Crypto.Sha256 := ⟨l.state, l.buf, l.bufLen, total⟩

theorem Locals.absorb_hasher (l : Locals) (total : U64) (d : List U8) :
    (l.hasher total).absorb d = ((l.absorb d).1.hasher total, (l.absorb d).2) := by
  have room := l.bufLen.isLt
  by_cases full : l.bufLen.val + min (64 - l.bufLen.val) d.length = 64
  · have kernel : (l.hasher total).absorb d = _ := dif_pos full
    have copy : l.absorb d = _ := dif_pos full
    rw [kernel, copy, compress_eq]
    rfl
  · have kernel : (l.hasher total).absorb d = _ := dif_neg full
    have copy : l.absorb d = _ := dif_neg full
    rw [kernel, copy]
    rfl

theorem Locals.absorbAll_hasher (fuel : Nat) (l : Locals) (total : U64) (d : List U8) :
    Crypto.Sha256.absorbAll fuel (l.hasher total) d =
      (Locals.absorbAll fuel l d).hasher total := by
  induction fuel generalizing l d with
  | zero => rfl
  | succ fuel inductionHypothesis =>
      rw [Crypto.Sha256.absorbAll, Locals.absorbAll, l.absorb_hasher, inductionHypothesis]
      split <;> rfl

theorem sha256_eq (data : List U8) : sha256 data = Crypto.sha256 data := by
  let total : U64 := 0 + BitVec.ofNat 64 data.length
  let start : Locals := { state := H0, buf := Vector.replicate 64 0, bufLen := ⟨0, buffer_nonempty⟩ }
  have absorbed : Crypto.Sha256.new.update data =
      (Locals.absorbAll data.length start data).hasher total :=
    Locals.absorbAll_hasher data.length start total data
  rw [Crypto.sha256, absorbed, sha256, compress_eq]
  generalize Locals.absorbAll data.length start data = l
  rw [setIfInBounds_of_lt _ _ l.bufLen.isLt]
  rfl

theorem hmacSha256_eq (key data : List U8) : hmacSha256 key data = Crypto.hmacSha256 key data := by
  rw [hmacSha256, Crypto.hmacSha256, Crypto.normaliseKey]
  simp only [sha256_eq, Crypto.Sha256.two_updates]

/-! ## Poly1305 -/

open Aead (Accumulator andAssign asU64 reduceFully)

def clampR (r : Bytes 16) : Bytes 16 :=
  let r := andAssign r 3 15
  let r := andAssign r 7 15
  let r := andAssign r 11 15
  let r := andAssign r 15 15
  let r := andAssign r 4 252
  let r := andAssign r 8 252
  andAssign r 12 252

/-- The first half of `process_block`: the block is added, then its marker. -/
def addMarked (h : Accumulator) (block : List U8) (full : Bool) : Accumulator :=
  let len := min block.length 16
  let tmp := copyFromSlice (Vector.replicate 16 0 : Bytes 16) 0 (block.take len)
  let n := fromLeBytes 128 tmp.toList
  let (newH1, c1) := overflowingAdd h.h1 n
  let carry := asU64 c1 + (if full && len == 16 then 1 else if !full then 0 else 0)
  if !full then
    if len < 16 then
      let bit := (1 : U128) <<< (len * 8)
      let (new2, c2) := overflowingAdd newH1 bit
      { h0 := h.h0 + carry + asU64 c2, h1 := new2 }
    else { h0 := h.h0 + carry, h1 := newH1 }
  else { h0 := h.h0 + carry, h1 := newH1 }

/-- The second half: the product with `r`, folded at bit 130. -/
def mulReduce (h : Accumulator) (r : U128) : Accumulator :=
  let hLo := h.h1
  let hHi := h.h0.setWidth 128
  let pLo := hLo * r
  let pHiApprox := hHi * r
  let carryBits128 := mulHigh hLo r
  let totalHi := carryBits128 + pHiApprox
  let reduceCarry := totalHi >>> 2
  let h0 := (totalHi &&& 3).setWidth 64
  let (newH1, c3) := overflowingAdd pLo (reduceCarry * 5)
  { h0 := h0 + asU64 c3, h1 := newH1 }

def processBlock (r : U128) (h : Accumulator) (block : List U8) (full : Bool) : Accumulator :=
  mulReduce (addMarked h block full) r

/-- The final reduction is the kernel's, `reduceFully`. -/
def poly1305 (key : Bytes 32) (msg : List U8) : Bytes 16 :=
  let rBytes := clampR (copyFromSlice (Vector.replicate 16 0) 0 (slice key 0 16))
  let r := fromLeBytes 128 rBytes.toList
  let s := fromLeBytes 128 (slice key 16 16)
  let reached := wholeBlocks 16 (processBlock r · · true) msg msg.length ⟨0, 0⟩ 0
  let h := lastBlock (processBlock r · · false) msg reached
  let h := reduceFully h
  let (tagVal, _) := overflowingAdd h.h1 s
  leArray 16 tagVal

/-! ## The copied Poly1305 is the kernel's -/

/-- Between blocks the copy exceeds the prime by a little, and no limb overflows. -/
structure Lazily (h : Accumulator) (acc : Nat) : Prop where
  bounded : h.value < 2 ^ 130 + 2 ^ 128
  congruent : h.value ≡ acc [MOD Rfc8439.p]

/-- The flag of the call says whether the block is whole; then block and marker together are
the number of the RFC. -/
theorem addMarked_value (h : Accumulator) (block : List U8) (bounded : h.value < 2 ^ 130 + 2 ^ 128)
    (short : block.length ≤ 16) :
    (addMarked h block (block.length == 16)).value = h.value + Rfc8439.blockNumber block := by
  have small : h.h0.toNat ≤ 4 := by
    rw [Accumulator.value] at bounded
    omega
  have loaded := Aead.loadLeU128_toNat block short
  have sum := overflowingAdd_toNat h.h1 (Aead.loadLeU128 block)
  have carry := Bool.toNat_le (overflowingAdd h.h1 (Aead.loadLeU128 block)).2
  have one : (1 : U64).toNat = 1 := rfl
  rw [Rfc8439.blockNumber]
  by_cases whole : block.length = 16
  · -- the marker goes into the carry
    have marked : addMarked h block (block.length == 16) =
        { h0 := h.h0 + (asU64 (overflowingAdd h.h1 (Aead.loadLeU128 block)).2 + 1)
          h1 := (overflowingAdd h.h1 (Aead.loadLeU128 block)).1 } := by
      simp [addMarked, Aead.loadLeU128, whole]
    rw [marked]
    simp only [Accumulator.value, BitVec.toNat_add, Aead.asU64_toNat, one, whole]
    omega
  · have partialBlock : block.length < 16 := by omega
    let bit : U128 := (1 : U128) <<< (block.length * 8)
    have bitValue : bit.toNat = 2 ^ (8 * block.length) := Aead.markerBit_toNat partialBlock
    have markedSum := overflowingAdd_toNat (overflowingAdd h.h1 (Aead.loadLeU128 block)).1 bit
    have markedCarry := Bool.toNat_le
      (overflowingAdd (overflowingAdd h.h1 (Aead.loadLeU128 block)).1 bit).2
    have marked : addMarked h block (block.length == 16) =
        { h0 := h.h0 + asU64 (overflowingAdd h.h1 (Aead.loadLeU128 block)).2 +
            asU64 (overflowingAdd (overflowingAdd h.h1 (Aead.loadLeU128 block)).1 bit).2
          h1 := (overflowingAdd (overflowingAdd h.h1 (Aead.loadLeU128 block)).1 bit).1 } := by
      simp [addMarked, Aead.loadLeU128, whole, partialBlock, Nat.min_eq_left short, bit]
    rw [marked]
    simp only [Accumulator.value, BitVec.toNat_add, Aead.asU64_toNat]
    omega

theorem mulReduce_eq (h : Accumulator) (r : U128) :
    mulReduce h r = Aead.foldProduct (Aead.multiply h r).1 (Aead.multiply h r).2 := rfl

theorem processBlock_lazily {r : U128} {h : Accumulator} {acc : Nat} (block : List U8)
    (clamped : r.toNat < 2 ^ 124) (short : block.length ≤ 16) (held : Lazily h acc) :
    Lazily (processBlock r h block (block.length == 16))
      ((acc + Rfc8439.blockNumber block) * r.toNat % Rfc8439.p) := by
  have added := addMarked_value h block held.bounded short
  have addedBound : (addMarked h block (block.length == 16)).value < 2 ^ 131 := by
    have number := Aead.blockNumber_lt block short
    have bounded := held.bounded
    omega
  obtain ⟨residue, nextBound⟩ := Aead.multiplyFold_value addedBound clamped
  rw [added] at residue
  rw [processBlock, mulReduce_eq]
  refine ⟨nextBound, residue.trans ?_⟩
  exact ((held.congruent.add_right _).mul_right _).trans (Nat.mod_modEq _ _).symm

theorem poly1305_eq_spec (key : Bytes 32) (msg : List U8) :
    (poly1305 key msg).toList = Rfc8439.poly1305 key.toList msg := by
  have clampEq : clampR = Aead.clamp := rfl
  have loadedR : (fromLeBytes 128 (clampR
      (copyFromSlice (Vector.replicate 16 0) 0 (slice key 0 16))).toList).toNat =
        Rfc8439.clamp (leNat (key.toList.take 16)) := by
    rw [Aead.fromLeBytes_toNat _ (by simp), clampEq, Aead.clampedKey_leNat]
  have loadedS : (fromLeBytes 128 (slice key 16 16)).toNat = leNat (key.toList.drop 16) := by
    rw [Aead.fromLeBytes_toNat _ (by simp [slice]), Aead.secondHalf_leNat]
  rw [poly1305]
  generalize fromLeBytes 128 (clampR
    (copyFromSlice (Vector.replicate 16 0) 0 (slice key 0 16))).toList = r at *
  generalize fromLeBytes 128 (slice key 16 16) = s at *
  have clamped : r.toNat < 2 ^ 124 := by
    rw [loadedR]
    exact Aead.clamp_lt _
  have blocks := lastBlock_wholeBlocks (show 0 < 16 by decide) (processBlock r) msg msg.length
    ⟨0, 0⟩ 0 (by omega)
  rw [List.drop_zero] at blocks
  have start : Lazily ⟨0, 0⟩ 0 := ⟨by decide, rfl⟩
  have accumulated : Lazily _ (Aead.hornerFrom r.toNat 0 msg) :=
    foldl_related Lazily (chunks 16 msg)
      (fun block mem _ _ held =>
        processBlock_lazily block clamped (length_le_of_mem_chunks mem) held) start
  rw [← blocks] at accumulated
  have reduced := Aead.hornerFrom_lt r.toNat 0 msg (by rw [Rfc8439.p]; norm_num)
  have spec : Aead.hornerFrom r.toNat 0 msg = Rfc8439.accumulate r.toNat msg := rfl
  rw [Rfc8439.poly1305, ← loadedR, ← loadedS, ← spec, leArray_toList]
  exact Aead.tag_of_congruent accumulated.bounded accumulated.congruent reduced s

theorem copies_agree :
    (∀ key data : List U8, hmacSha256 key data = Crypto.hmacSha256 key data) ∧
      ∀ (key : Bytes 32) (msg : List U8), poly1305 key msg = Aead.poly1305 key msg := by
  refine ⟨hmacSha256_eq, ?_⟩
  intro key msg
  apply Vector.toList_inj.mp
  rw [poly1305_eq_spec, Aead.poly1305_eq_spec]

end AxiomKernel.CryptoVectors
