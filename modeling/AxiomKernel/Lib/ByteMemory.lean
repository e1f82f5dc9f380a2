import Mathlib
import AxiomKernel.Lib.Bytes

/-!
# A byte-addressed memory

A memory gives every address a byte.  The only way to change it is to write a
string of bytes from an address on; what a write leaves alone, and that a write
over two memories makes them equal where it writes, is stated here once.
-/

set_option autoImplicit false

namespace ByteMemory

open ByteStrings

abbrev Memory := Nat → U8

def writeBytes (memory : Memory) (base : Nat) (bytes : List U8) : Memory := fun address =>
  if base ≤ address then bytes[address - base]?.getD (memory address) else memory address

theorem writeBytes_outside (memory : Memory) {base address : Nat} {bytes : List U8}
    (outside : address < base ∨ base + bytes.length ≤ address) :
    writeBytes memory base bytes address = memory address := by
  rw [writeBytes]
  split
  case isTrue above =>
    have past : bytes.length ≤ address - base := by omega
    rw [List.getElem?_eq_none past, Option.getD_none]
  case isFalse below => rfl

/-- A byte after a write does not depend on the memory before, where the write
covers it; elsewhere it is the byte before. -/
theorem writeBytes_congr {left right : Memory} {base address : Nat} {bytes : List U8}
    (same : address < base ∨ base + bytes.length ≤ address → left address = right address) :
    writeBytes left base bytes address = writeBytes right base bytes address := by
  by_cases outside : address < base ∨ base + bytes.length ≤ address
  · rw [writeBytes_outside left outside, writeBytes_outside right outside, same outside]
  · have above : base ≤ address := by omega
    have covered : address - base < bytes.length := by omega
    rw [writeBytes, writeBytes, if_pos above, if_pos above, List.getElem?_eq_getElem covered,
      Option.getD_some, Option.getD_some]

theorem writeBytes_shift (memory : Memory) (base offset k : Nat) (bytes : List U8) :
    writeBytes memory (base + offset) bytes (base + k) =
      writeBytes (fun i => memory (base + i)) offset bytes k := by
  rw [writeBytes, writeBytes, Nat.add_sub_add_left]
  by_cases above : offset ≤ k
  · rw [if_pos above, if_pos (Nat.add_le_add_left above base)]
  · rw [if_neg above, if_neg (by omega)]

theorem writeBytes_replicate (memory : Memory) {base length k : Nat} (byte : U8) (inside : k < length) :
    writeBytes memory base (List.replicate length byte) (base + k) = byte := by
  rw [writeBytes, if_pos (Nat.le_add_right base k), Nat.add_sub_cancel_left,
    List.getElem?_replicate_of_lt inside, Option.getD_some]

end ByteMemory
