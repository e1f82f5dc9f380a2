import Mathlib
import AxiomKernel.Lib.Bytes

/-!
# Reading and writing slices

A program that indexes a byte slice out of range panics (`none`).  Each read is
characterised by `HasAt`: it returns exactly the value whose bytes stand at that
place.  `hasAt_append` puts fields together, so a record is read when its encoding
is there.  A program that writes a zeroed buffer from the front to the back leaves the
concatenation of what it writes (`Appends.bind`).
-/

set_option autoImplicit false

namespace ByteSlices

open ByteStrings

/-! ## Fields of a byte string -/

/-- `piece` stands in `bytes` at `start`. -/
def HasAt (bytes : List U8) (start : Nat) (piece : List U8) : Prop :=
  (bytes.drop start).take piece.length = piece

theorem hasAt_append (bytes : List U8) (start : Nat) (front back : List U8) :
    HasAt bytes start (front ++ back) ↔
      HasAt bytes start front ∧ HasAt bytes (start + front.length) back := by
  rw [HasAt, HasAt, HasAt, List.length_append, List.take_add, List.drop_drop]
  constructor
  · intro both
    have frontLength : ((bytes.drop start).take front.length).length = front.length := by
      have total := congrArg List.length both
      simp only [List.length_append, List.length_take, List.length_drop] at total ⊢
      omega
    exact List.append_inj both frontLength
  · intro ⟨atFront, atBack⟩
    rw [atFront, atBack]

theorem hasAt_self_append (piece rest : List U8) : HasAt (piece ++ rest) 0 piece := by
  rw [HasAt, List.drop_zero, List.take_left]

theorem HasAt.length_le {bytes : List U8} {start n : Nat} {piece : List U8}
    (held : HasAt bytes start piece) (size : piece.length = n) (positive : 0 < n) :
    start + n ≤ bytes.length := by
  have total := congrArg List.length held
  rw [List.length_take, List.length_drop] at total
  omega

/-- What stands at the beginning is followed by the rest. -/
theorem HasAt.eq_append {bytes piece : List U8} (held : HasAt bytes 0 piece) :
    bytes = piece ++ bytes.drop piece.length := by
  rw [HasAt, List.drop_zero] at held
  nth_rewrite 1 [← List.take_append_drop piece.length bytes]
  rw [held]

/-! ## Reads -/

/-- `bytes[index]`. -/
def readByte (bytes : List U8) (index : Nat) : Option U8 := bytes[index]?

/-- `bytes[start..stop]`. -/
def readRange (bytes : List U8) (start stop : Nat) : Option (List U8) :=
  if start ≤ stop ∧ stop ≤ bytes.length then some ((bytes.drop start).take (stop - start)) else none

theorem size_take_drop {bytes : List U8} {n start : Nat} (inside : start + n ≤ bytes.length) :
    ((bytes.drop start).take n).toArray.size = n := by
  simp only [List.size_toArray, List.length_take, List.length_drop]
  omega

/-- `bytes[start..start + n].try_into().unwrap()`, an array. -/
def readArray (n : Nat) (bytes : List U8) (start : Nat) : Option (Bytes n) :=
  if inside : start + n ≤ bytes.length then
    some ⟨((bytes.drop start).take n).toArray, size_take_drop inside⟩
  else none

/-- `u16::from_be_bytes([bytes[index], bytes[index + 1]])`. -/
def readU16 (bytes : List U8) (index : Nat) : Option U16 := do
  let high ← readByte bytes index
  let low ← readByte bytes (index + 1)
  some (fromBeBytes 16 [high, low])

theorem readByte_eq_some_iff (bytes : List U8) (index : Nat) (byte : U8) :
    readByte bytes index = some byte ↔ HasAt bytes index [byte] := by
  rw [readByte, HasAt, List.length_singleton]
  cases remaining : bytes.drop index with
  | nil =>
      have past : bytes.length ≤ index := List.drop_eq_nil_iff.mp remaining
      simp [List.getElem?_eq_none past]
  | cons head rest =>
      have found : bytes[index]? = some head := by
        have first := congrArg List.head? remaining
        rwa [List.head?_drop] at first
      rw [found]
      simp

theorem readArray_eq_some_iff {n : Nat} (bytes : List U8) (start : Nat) (array : Bytes n)
    (positive : 0 < n) :
    readArray n bytes start = some array ↔ HasAt bytes start array.toList := by
  rw [readArray]
  by_cases inside : start + n ≤ bytes.length
  · rw [dif_pos inside, Option.some.injEq, HasAt, Vector.length_toList]
    constructor
    · intro same
      rw [← same]
      rfl
    · intro same
      apply Vector.toList_inj.mp
      exact same
  · rw [dif_neg inside]
    refine iff_of_false (by simp) ?_
    intro held
    exact inside (held.length_le Vector.length_toList positive)

theorem readU16_eq_some_iff (bytes : List U8) (index : Nat) (word : U16) :
    readU16 bytes index = some word ↔ HasAt bytes index (toBeBytes 2 word) := by
  simp only [readU16, Option.bind_eq_bind, Option.bind_eq_some_iff, Option.some.injEq,
    readByte_eq_some_iff]
  constructor
  · intro ⟨high, highAt, low, lowAt, same⟩
    have spelled : toBeBytes 2 word = [high] ++ [low] := by
      rw [← same]
      exact toBeBytes_fromBeBytes (show 256 ^ [high, low].length = 2 ^ 16 by norm_num)
    rw [spelled, hasAt_append]
    exact ⟨highAt, lowAt⟩
  · intro held
    obtain ⟨high, low, spelled⟩ : ∃ high low, toBeBytes 2 word = [high] ++ [low] :=
      ⟨_, _, rfl⟩
    have value := fromBeBytes_toBeBytes (n := 2) (by decide) word
    rw [spelled] at held value
    obtain ⟨highAt, lowAt⟩ := (hasAt_append bytes index [high] [low]).mp held
    exact ⟨high, highAt, low, lowAt, value⟩

theorem HasAt.byte {bytes : List U8} {index : Nat} {byte : U8} (held : HasAt bytes index [byte]) :
    bytes.getD index 0 = byte := by
  have found := (readByte_eq_some_iff bytes index byte).mpr held
  rw [readByte] at found
  rw [List.getD_eq_getElem?_getD, found, Option.getD_some]

theorem exists_hasAt_byte {bytes : List U8} {index : Nat} (inside : index < bytes.length) :
    ∃ byte, HasAt bytes index [byte] := by
  refine ⟨bytes[index], (readByte_eq_some_iff ..).mp ?_⟩
  exact List.getElem?_eq_getElem inside

theorem exists_hasAt_u16 {bytes : List U8} {index : Nat} (inside : index + 1 < bytes.length) :
    ∃ word : U16, HasAt bytes index (toBeBytes 2 word) := by
  obtain ⟨high, highAt⟩ := exists_hasAt_byte (by omega : index < bytes.length)
  obtain ⟨low, lowAt⟩ := exists_hasAt_byte inside
  refine ⟨fromBeBytes 16 [high, low], (readU16_eq_some_iff ..).mp ?_⟩
  rw [readU16, (readByte_eq_some_iff ..).mpr highAt, (readByte_eq_some_iff ..).mpr lowAt]
  rfl

theorem exists_hasAt_array {bytes : List U8} {n start : Nat} (positive : 0 < n)
    (inside : start + n ≤ bytes.length) : ∃ array : Bytes n, HasAt bytes start array.toList := by
  refine ⟨⟨((bytes.drop start).take n).toArray, size_take_drop inside⟩,
    (readArray_eq_some_iff _ _ _ positive).mp ?_⟩
  rw [readArray, dif_pos inside]

theorem readRange_to_end {bytes : List U8} {start : Nat} (inside : start ≤ bytes.length) :
    readRange bytes start bytes.length = some (bytes.drop start) := by
  have whole : (bytes.drop start).take (bytes.length - start) = bytes.drop start :=
    List.take_of_length_le (by rw [List.length_drop])
  rw [readRange, if_pos ⟨inside, le_refl _⟩, whole]

/-! ## Writes -/

/-- `buffer[index] = byte`. -/
def writeByte (index : Nat) (byte : U8) (buffer : List U8) : Option (List U8) :=
  if index < buffer.length then some (buffer.set index byte) else none

/-- `buffer[start..stop].copy_from_slice(source)`; lengths that differ panic too. -/
def writeRange (start stop : Nat) (source buffer : List U8) : Option (List U8) :=
  if start ≤ stop ∧ stop ≤ buffer.length ∧ source.length = stop - start then
    some (buffer.take start ++ source ++ buffer.drop stop)
  else none

theorem writeRange_append {start stop : Nat} {source front back : List U8}
    (starts : front.length = start) (ends : start + source.length = stop)
    (fits : stop - start ≤ back.length) :
    writeRange start stop source (front ++ back) =
      some (front ++ source ++ back.drop (stop - start)) := by
  subst starts ends
  have inside : front.length ≤ front.length + source.length ∧
      front.length + source.length ≤ (front ++ back).length ∧
      source.length = front.length + source.length - front.length := by
    rw [List.length_append]
    omega
  rw [writeRange, if_pos inside, List.take_left, List.drop_length_add_append,
    Nat.add_sub_cancel_left]

/-- On a buffer that is zero from `start` on, the program writes `piece` up to `stop`. -/
structure Appends (start stop : Nat) (program : List U8 → Option (List U8)) (piece : List U8) :
    Prop where
  ends : start + piece.length = stop
  written : ∀ front room, front.length = start → piece.length ≤ room →
    program (front ++ List.replicate room 0) =
      some (front ++ piece ++ List.replicate (room - piece.length) 0)

theorem writeRange_appends {start place stop : Nat} {source : List U8} (after : start ≤ place)
    (ends : place + source.length = stop) :
    Appends start stop (writeRange place stop source)
      (List.replicate (place - start) 0 ++ source) where
  ends := by
    rw [List.length_append, List.length_replicate]
    omega
  written := by
    intro front room frontLength enough
    rw [List.length_append, List.length_replicate] at enough ⊢
    have gap : List.replicate room (0 : U8) =
        List.replicate (place - start) 0 ++ List.replicate (room - (place - start)) 0 := by
      rw [← List.replicate_add, Nat.add_sub_cancel' (by omega)]
    have placed : (front ++ List.replicate (place - start) (0 : U8)).length = place := by
      rw [List.length_append, List.length_replicate]
      omega
    have left : room - (place - start) - (stop - place) =
        room - (place - start + source.length) := by omega
    have fits : stop - place ≤ (List.replicate (room - (place - start)) (0 : U8)).length := by
      rw [List.length_replicate]
      omega
    rw [gap, ← List.append_assoc, writeRange_append placed ends fits, List.drop_replicate, left,
      List.append_assoc front]

theorem writeByte_eq_writeRange (index : Nat) (byte : U8) :
    writeByte index byte = writeRange index (index + 1) [byte] := by
  funext buffer
  rw [writeByte, writeRange]
  by_cases inside : index < buffer.length
  · rw [if_pos inside, if_pos ⟨by omega, inside, by simp⟩, List.set_eq_take_append_cons_drop,
      if_pos inside, List.append_assoc, List.singleton_append]
  · rw [if_neg inside, if_neg (by omega)]

theorem writeByte_appends {start index : Nat} {byte : U8} (after : start ≤ index) :
    Appends start (index + 1) (writeByte index byte)
      (List.replicate (index - start) 0 ++ [byte]) := by
  rw [writeByte_eq_writeRange]
  exact writeRange_appends after rfl

theorem Appends.bind {start middle stop : Nat} {first next : List U8 → Option (List U8)}
    {front back : List U8} (firstAppends : Appends start middle first front)
    (nextAppends : Appends middle stop next back) :
    Appends start stop (fun buffer => first buffer >>= next) (front ++ back) where
  ends := by
    have middleAt := firstAppends.ends
    have stopAt := nextAppends.ends
    rw [List.length_append]
    omega
  written := by
    intro before room beforeLength enough
    rw [List.length_append] at enough ⊢
    have middleAt : (before ++ front).length = middle := by
      rw [List.length_append, beforeLength, firstAppends.ends]
    rw [firstAppends.written before room beforeLength (by omega), Option.bind_eq_bind,
      Option.bind_some, nextAppends.written _ _ middleAt (by omega), List.append_assoc before,
      Nat.sub_sub]

theorem Appends.congr {start stop : Nat} {program : List U8 → Option (List U8)}
    {piece spelled : List U8} (appends : Appends start stop program piece)
    (same : piece = spelled) : Appends start stop program spelled := by
  rwa [← same]

/-- What is written into a buffer of zeros of that size. -/
theorem Appends.fills {stop : Nat} {program : List U8 → Option (List U8)} {piece : List U8}
    (appends : Appends 0 stop program piece) : program (List.replicate stop 0) = some piece := by
  have size : piece.length = stop := by rw [← appends.ends, Nat.zero_add]
  have written := appends.written [] stop rfl (by omega)
  rwa [List.nil_append, List.nil_append, size, Nat.sub_self, List.replicate_zero,
    List.append_nil] at written

end ByteSlices
