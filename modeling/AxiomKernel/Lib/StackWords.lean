import Mathlib
import AxiomKernel.Lib.Bytes
import AxiomKernel.Lib.ByteMemory

/-!
# Words on a stack

Little-endian 64-bit words in a byte memory, and a stack that grows downwards in
it.  `HoldsWords` says that a list of words stands at an address; pushing a list
leaves it there in reverse, popping takes it off again word by word, and each lemma
says which bytes are left alone.
-/

set_option autoImplicit false

namespace StackWords

open ByteStrings ByteMemory

/-! ## One word -/

/-- The address `a` is one of the `length` from `start` on. -/
def Span (start : U64) (length a : Nat) : Prop :=
  start.toNat ≤ a ∧ a < start.toNat + length

def readBytes (memory : Memory) (base length : Nat) : List U8 :=
  (List.range length).map fun i => memory (base + i)

theorem readBytes_append (memory : Memory) (base front back : Nat) :
    readBytes memory base (front + back) =
      readBytes memory base front ++ readBytes memory (base + front) back := by
  rw [readBytes, List.range_add, List.map_append, List.map_map]
  simp only [readBytes, Function.comp_def, Nat.add_assoc]

def storeWord (memory : Memory) (address word : U64) : Memory :=
  writeBytes memory address.toNat (toLeBytes 8 word)

def loadWord (memory : Memory) (address : U64) : U64 :=
  fromLeBytes 64 (readBytes memory address.toNat 8)

theorem readBytes_writeBytes (memory : Memory) (base : Nat) (bytes : List U8) :
    readBytes (writeBytes memory base bytes) base bytes.length = bytes := by
  refine List.ext_getElem (by simp [readBytes]) ?_
  intro i inRead inBytes
  simp [readBytes, writeBytes, inBytes]

theorem loadWord_storeWord (memory : Memory) (address word : U64) :
    loadWord (storeWord memory address word) address = word := by
  have read := readBytes_writeBytes memory address.toNat (toLeBytes 8 word)
  rw [toLeBytes_length] at read
  rw [loadWord, storeWord, read, fromLeBytes, toLeBytes, leNat_leBytes,
    Nat.mod_eq_of_lt (by have := word.isLt; omega), BitVec.ofNat_toNat, BitVec.setWidth_eq]

theorem loadWord_congr {left right : Memory} {address : U64}
    (same : ∀ a, address.toNat ≤ a → a < address.toNat + 8 → left a = right a) :
    loadWord left address = loadWord right address := by
  rw [loadWord, loadWord, readBytes, readBytes]
  congr 1
  refine List.map_congr_left ?_
  intro i mem
  have bound := List.mem_range.mp mem
  exact same _ (by omega) (by omega)

theorem storeWord_outside (memory : Memory) {address word : U64} {a : Nat}
    (outside : a < address.toNat ∨ address.toNat + 8 ≤ a) :
    storeWord memory address word a = memory a :=
  writeBytes_outside memory (by rwa [toLeBytes_length])

/-! ## A list of words -/

def HoldsWords (memory : Memory) (address : U64) : List U64 → Prop
  | [] => True
  | word :: rest => loadWord memory address = word ∧ HoldsWords memory (address + 8) rest

theorem add_eight_toNat {address : U64} {words : Nat}
    (fits : address.toNat + 8 * (words + 1) ≤ 2 ^ 64) (more : 0 < words) :
    (address + 8).toNat = address.toNat + 8 := by
  rw [BitVec.toNat_add]
  exact Nat.mod_eq_of_lt (by simp; omega)

theorem HoldsWords.congr {left right : Memory} {address : U64} {words : List U64}
    (holds : HoldsWords left address words) (fits : address.toNat + 8 * words.length ≤ 2 ^ 64)
    (same : ∀ a, address.toNat ≤ a → a < address.toNat + 8 * words.length → left a = right a) :
    HoldsWords right address words := by
  induction words generalizing address with
  | nil => trivial
  | cons word rest inductionHypothesis =>
      obtain ⟨first, later⟩ := holds
      rw [List.length_cons] at fits same
      have sameWord : loadWord left address = loadWord right address :=
        loadWord_congr fun a above below => same a above (by omega)
      refine ⟨sameWord.symm.trans first, ?_⟩
      rcases Nat.eq_zero_or_pos rest.length with none | more
      · rw [List.length_eq_zero_iff.mp none]
        trivial
      · have next := add_eight_toNat fits more
        exact inductionHypothesis later (by omega) fun a above below =>
          same a (by omega) (by omega)

theorem holdsWords_append {memory : Memory} {front back : List U64} {address : U64} :
    HoldsWords memory address (front ++ back) ↔
      HoldsWords memory address front ∧
        HoldsWords memory (address + BitVec.ofNat 64 (8 * front.length)) back := by
  induction front generalizing address with
  | nil => simp [HoldsWords]
  | cons word rest inductionHypothesis =>
      have shifted : address + BitVec.ofNat 64 (8 * (word :: rest).length) =
          address + 8 + BitVec.ofNat 64 (8 * rest.length) := by
        rw [List.length_cons, Nat.mul_add, Nat.add_comm, BitVec.ofNat_add, BitVec.add_assoc]
        rfl
      rw [List.cons_append, HoldsWords, HoldsWords, inductionHypothesis, shifted, and_assoc]

def storeWords (memory : Memory) (address : U64) : List U64 → Memory
  | [] => memory
  | word :: rest => storeWords (storeWord memory address word) (address + 8) rest

theorem storeWords_outside (words : List U64) {memory : Memory} {address : U64} {a : Nat}
    (fits : address.toNat + 8 * words.length ≤ 2 ^ 64)
    (outside : a < address.toNat ∨ address.toNat + 8 * words.length ≤ a) :
    storeWords memory address words a = memory a := by
  induction words generalizing memory address with
  | nil => rfl
  | cons word rest inductionHypothesis =>
      rw [List.length_cons] at fits outside
      have kept : storeWord memory address word a = memory a :=
        storeWord_outside memory (by omega)
      rw [storeWords]
      rcases Nat.eq_zero_or_pos rest.length with none | more
      · rw [List.length_eq_zero_iff.mp none]
        exact kept
      · have next := add_eight_toNat fits more
        rw [inductionHypothesis (by omega) (by omega), kept]

theorem storeWords_holds (words : List U64) {memory : Memory} {address : U64}
    (fits : address.toNat + 8 * words.length ≤ 2 ^ 64) :
    HoldsWords (storeWords memory address words) address words := by
  induction words generalizing memory address with
  | nil => trivial
  | cons word rest inductionHypothesis =>
      rw [List.length_cons] at fits
      rw [storeWords]
      rcases Nat.eq_zero_or_pos rest.length with none | more
      · rw [List.length_eq_zero_iff.mp none]
        exact ⟨loadWord_storeWord memory address word, trivial⟩
      · have next := add_eight_toNat fits more
        refine ⟨?_, inductionHypothesis (by omega)⟩
        -- the later words stand above the first
        have kept : loadWord (storeWords (storeWord memory address word) (address + 8) rest) address =
            loadWord (storeWord memory address word) address :=
          loadWord_congr fun a above below => storeWords_outside rest (by omega) (by omega)
        exact kept.trans (loadWord_storeWord memory address word)

/-! ## The stack -/

structure Stack where
  sp : U64
  memory : Memory

namespace Stack

def push (stack : Stack) (word : U64) : Stack where
  sp := stack.sp - 8
  memory := storeWord stack.memory (stack.sp - 8) word

def pop (stack : Stack) : U64 × Stack :=
  (loadWord stack.memory stack.sp, { stack with sp := stack.sp + 8 })

def pushAll (stack : Stack) : List U64 → Stack
  | [] => stack
  | word :: rest => (stack.push word).pushAll rest

theorem push_sp_toNat (stack : Stack) (word : U64) (room : 8 ≤ stack.sp.toNat) :
    (stack.push word).sp.toNat = stack.sp.toNat - 8 := by
  rw [push, BitVec.toNat_sub_of_le]
  · rfl
  · exact room

theorem sub_words_succ (sp : U64) (words : Nat) :
    sp - BitVec.ofNat 64 (8 * (words + 1)) = sp - 8 - BitVec.ofNat 64 (8 * words) := by
  rw [Nat.mul_add, Nat.add_comm, BitVec.ofNat_add, sub_add_eq_sub_sub]
  rfl

theorem pushAll_sp (words : List U64) (stack : Stack) :
    (stack.pushAll words).sp = stack.sp - BitVec.ofNat 64 (8 * words.length) := by
  induction words generalizing stack with
  | nil => simp [pushAll]
  | cons word rest inductionHypothesis =>
      rw [pushAll, inductionHypothesis, push, List.length_cons, sub_words_succ]

theorem pushAll_outside (words : List U64) {stack : Stack} {a : Nat}
    (room : 8 * words.length ≤ stack.sp.toNat)
    (outside : a < stack.sp.toNat - 8 * words.length ∨ stack.sp.toNat ≤ a) :
    (stack.pushAll words).memory a = stack.memory a := by
  induction words generalizing stack with
  | nil => rfl
  | cons word rest inductionHypothesis =>
      rw [List.length_cons] at room outside
      have lower := push_sp_toNat stack word (by omega)
      have kept : (stack.push word).memory a = stack.memory a :=
        storeWord_outside stack.memory (by
          have address : (stack.sp - 8).toNat = stack.sp.toNat - 8 := lower
          omega)
      rw [pushAll, inductionHypothesis (by omega) (by omega), kept]

theorem pushAll_holds (words : List U64) (stack : Stack)
    (room : 8 * words.length ≤ stack.sp.toNat) :
    HoldsWords (stack.pushAll words).memory (stack.sp - BitVec.ofNat 64 (8 * words.length))
      words.reverse := by
  induction words generalizing stack with
  | nil => trivial
  | cons word rest inductionHypothesis =>
      rw [List.length_cons] at room
      have lower := push_sp_toNat stack word (by omega)
      have later := inductionHypothesis (stack.push word) (by omega)
      have bottom : stack.sp - BitVec.ofNat 64 (8 * (word :: rest).length) =
          (stack.push word).sp - BitVec.ofNat 64 (8 * rest.length) :=
        sub_words_succ stack.sp rest.length
      rw [List.reverse_cons, pushAll, holdsWords_append, bottom, List.length_reverse,
        BitVec.sub_add_cancel]
      refine ⟨later, ?_, trivial⟩
      -- the words pushed afterwards stand below this one
      have kept : loadWord ((stack.push word).pushAll rest).memory (stack.push word).sp =
          loadWord (stack.push word).memory (stack.push word).sp :=
        loadWord_congr fun a above below => pushAll_outside rest (by omega) (Or.inr above)
      exact kept.trans (loadWord_storeWord stack.memory (stack.sp - 8) word)

end Stack

end StackWords
