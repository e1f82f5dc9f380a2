import Mathlib
import AxiomKernel.Lib.Bytes
import AxiomKernel.Lib.Words

/-!
# The Poly1305 code

Model of `clamp`, `load_le_u128` and `poly1305` of `poly1305.rs`.  The 130-bit
accumulator is the pair `h0 : u64`, `h1 : u128`; the closure `add_block` is cut
into its stages: mark the block, add it, multiply by `r`, fold the product at
bit 130, subtract the prime.
-/

set_option autoImplicit false

namespace AxiomKernel.Aead

open ByteStrings MachineWords

/-- `r[i] &= mask`. -/
def andAssign (r : Bytes 16) (i : Nat) (mask : U8) : Bytes 16 :=
  r.setIfInBounds i (r[i]! &&& mask)

def clamp (r : Bytes 16) : Bytes 16 :=
  let r := andAssign r 3 15
  let r := andAssign r 7 15
  let r := andAssign r 11 15
  let r := andAssign r 15 15
  let r := andAssign r 4 252
  let r := andAssign r 8 252
  andAssign r 12 252

def loadLeU128 (b : List U8) : U128 :=
  let len := min b.length 16
  fromLeBytes 128 (copyFromSlice (Vector.replicate 16 0 : Bytes 16) 0 (b.take len)).toList

def asU64 (flag : Bool) : U64 := BitVec.ofNat 64 flag.toNat

/-- The accumulator `h0 * 2^128 + h1`. -/
structure Accumulator where
  h0 : U64
  h1 : U128

/-- The block with its `1` bit: the low 128 bits and the part above them. -/
def markBlock (block : List U8) (full : Bool) : U128 × U64 :=
  let n := loadLeU128 block
  if full && block.length == 16 then (n, 1)
  else
    let pos := block.length * 8
    if pos < 128 then
      let (v, c) := overflowingAdd n ((1 : U128) <<< pos)
      (v, asU64 c)
    else (n, 1)

def addNumber (h : Accumulator) (n1 : U128) (carry : U64) : Accumulator :=
  let (newH1, c) := overflowingAdd h.h1 n1
  { h0 := h.h0 + carry + asU64 c, h1 := newH1 }

def multiply (h : Accumulator) (r : U128) : U128 × U128 :=
  let a := h.h0.setWidth 128
  let brLo := h.h1 * r
  let brHi := mulHigh h.h1 r
  let ar := a * r
  let (phi, _) := overflowingAdd brHi ar
  (brLo, phi)

/-- What is above bit 130 comes back five times. -/
def foldProduct (prodLo prodHi : U128) : Accumulator :=
  let carryBits := prodHi >>> 2
  let newH0 := (prodHi &&& 3).setWidth 64
  let (newH1, c) := overflowingAdd prodLo (carryBits * 5)
  { h0 := newH0 + asU64 c, h1 := newH1 }

def max128 : U128 := BitVec.allOnes 128

def subtractPrime (h : Accumulator) : Accumulator :=
  if h.h0 ≥ 4 || (h.h0 == 3 && h.h1 ≥ max128 - 3) then
    let (newH1, borrow) := overflowingSub h.h1 (max128 - 4)
    { h0 := h.h0 - 3 - asU64 borrow, h1 := newH1 }
  else h

def addBlock (r : U128) (h : Accumulator) (block : List U8) (full : Bool) : Accumulator :=
  let (n1, carry) := markBlock block full
  let (prodLo, prodHi) := multiply (addNumber h n1 carry) r
  subtractPrime (foldProduct prodLo prodHi)

/-- The loop over 16-byte blocks; the offset it stops at is the second
component.  Each iteration advances the offset, so the message length bounds
the number of iterations. -/
def addFullBlocks (r : U128) (msg : List U8) : Nat → Accumulator → Nat → Accumulator × Nat
  | 0, h, offset => (h, offset)
  | fuel + 1, h, offset =>
      if offset + 16 ≤ msg.length then
        addFullBlocks r msg fuel (addBlock r h ((msg.drop offset).take 16) true) (offset + 16)
      else (h, offset)

def reduceFully (h : Accumulator) : Accumulator :=
  let pLo := max128 - 4
  let pHi : U64 := 3
  if h.h0 > pHi || (h.h0 == pHi && h.h1 ≥ pLo) then
    let (newH1, borrow) := overflowingSub h.h1 pLo
    { h0 := h.h0 - pHi - asU64 borrow, h1 := newH1 }
  else h

def poly1305 (key : Bytes 32) (msg : List U8) : Bytes 16 :=
  let rBytes := clamp (copyFromSlice (Vector.replicate 16 0) 0 (slice key 0 16))
  let r := loadLeU128 rBytes.toList
  let s := loadLeU128 (slice key 16 16)
  let (h, offset) := addFullBlocks r msg msg.length ⟨0, 0⟩ 0
  let h := if offset < msg.length then addBlock r h (msg.drop offset) false else h
  let h := reduceFully h
  let (tagVal, _) := overflowingAdd h.h1 s
  leArray 16 tagVal

end AxiomKernel.Aead
