import Mathlib
import AxiomKernel.Lib.TextPatterns
import AxiomKernel.Meal.Log
import AxiomKernel.Meal.History

/-!
# The archive on the host

Model of `MealLog::print_all` with the format string of its lines, and of
`parse_meal_entries` of `scripts/meal_persist.py`, which finds the lines in the
captured output with a regular expression.  Every printed line is read back to
the fields it was printed from.
-/

set_option autoImplicit false

namespace AxiomKernel.Meal

open ByteStrings TextPatterns RingSlots

/-! ## What the kernel prints -/

def AuditEvent.name : AuditEvent → String
  | .logInitialised => "LogInit"
  | .capabilityDerived => "CapDerived"
  | .capabilityExpired => "CapExpired"
  | .processCreated => "ProcCreated"
  | .processExited => "ProcExited"
  | .eipcSend => "EipcSend"
  | .eipcReceive => "EipcRecv"
  | .syscallDispatched => "Syscall"
  | .scbaFenceFired => "ScbaFence"
  | .driverLoaded => "DrvLoaded"
  | .driverFaultMmio => "DrvFaultMmio"
  | .driverFaultSyscall => "DrvFaultSys"
  | .driverStopped => "DrvStopped"
  | .latticeReconfigured => "LatticeReconf"
  | .memoryZeroed => "MemZeroed"
  | .bootComplete => "BootDone"

/-- A number under `{:0width}`; the width 0 is `{}`. -/
def zeroPadded (width n : Nat) : List Char := (Nat.toDigits 10 n).leftpad width '0'

/-- A byte under `{:02x}`. -/
def hexByte (b : U8) : List Char := (Nat.toDigits 16 b.toNat).leftpad 2 '0'

/-- The line of an entry without its line feed:
`  [{:02}] t={:04}  {:<12}  actor={}  val={:<8}  chain={:02x}{:02x}{:02x}{:02x}...`. -/
def entryFormat (sequence timestamp : Nat) (name : List Char) (actor valueA : Nat)
    (h0 h1 h2 h3 : U8) : List Char :=
  [' ', ' ', '['] ++ zeroPadded 2 sequence ++
    [']', ' ', 't', '='] ++ zeroPadded 4 timestamp ++
    [' ', ' '] ++ name.rightpad 12 ' ' ++
    [' ', ' ', 'a', 'c', 't', 'o', 'r', '='] ++ zeroPadded 0 actor ++
    [' ', ' ', 'v', 'a', 'l', '='] ++ (zeroPadded 0 valueA).rightpad 8 ' ' ++
    [' ', ' ', 'c', 'h', 'a', 'i', 'n', '='] ++
    (hexByte h0 ++ hexByte h1 ++ hexByte h2 ++ hexByte h3) ++ ['.', '.', '.']

def AuditEntry.line (e : AuditEntry) : List Char :=
  let h := e.selfHash
  entryFormat e.sequence.toNat e.timestamp.toNat e.eventType.name.toList e.actor.toNat
    e.valueA.toNat h[0] h[1] h[2] h[3]

def printEntries (entries : List AuditEntry) : List Char :=
  entries.flatMap fun e => e.line ++ ['\n']

def MealLog.printAll (log : MealLog) : List Char :=
  (List.range capacity).flatMap fun i =>
    -- `(write_head + i) % CAPACITY`
    let idx := Fin.ofNat capacity (log.writeHead.val + i)
    (log.entries.get idx).elim [] fun e => e.line ++ ['\n']

/-! ## What the script reads -/

def between (low high c : Char) : Bool := low.toNat ≤ c.toNat && c.toNat ≤ high.toNat

/-- The class `\s`. -/
def isSpace (c : Char) : Bool :=
  between '\t' '\r' c || between '\x1c' ' ' c ||
    c.toNat ∈ [0x85, 0xA0, 0x1680, 0x2000, 0x2001, 0x2002, 0x2003, 0x2004, 0x2005, 0x2006, 0x2007,
      0x2008, 0x2009, 0x200A, 0x2028, 0x2029, 0x202F, 0x205F, 0x3000]

/-- The class `\d` on ASCII; the text above is ASCII (`printEntries_ascii`). -/
def isDigit (c : Char) : Bool := between '0' '9' c

/-- The class `\w` on ASCII. -/
def isWord (c : Char) : Bool :=
  between '0' '9' c || between 'A' 'Z' c || between 'a' 'z' c || c == '_'

/-- The class `[0-9a-f]`. -/
def isHexDigit (c : Char) : Bool := between '0' '9' c || between 'a' 'f' c

def spaces : Piece Char := .run isSpace 1 false

def digits : Piece Char := .run isDigit 1 true

/-- The pattern `\s*\[(\d+)\]\s+t=(\d+)\s+(\w+)\s+actor=(\d+)\s+val=(\d+)\s+chain=([0-9a-f]+)`. -/
def pat : List (Piece Char) :=
  [.run isSpace 0 false, .literal ['['], digits, .literal [']'], spaces,
    .literal ['t', '='], digits, spaces, .run isWord 1 true, spaces,
    .literal ['a', 'c', 't', 'o', 'r', '='], digits, spaces,
    .literal ['v', 'a', 'l', '='], digits, spaces,
    .literal ['c', 'h', 'a', 'i', 'n', '='], .run isHexDigit 1 true]

structure ArchivedEntry where
  seq : Nat
  tick : Nat
  event : String
  actor : Nat
  value : Nat
  chain : String
  deriving DecidableEq

/-- `int` on a string of digits. -/
def int (s : List Char) : Nat := Nat.ofDigitChars 10 s 0

/-- The dictionary made of `m.groups()`; the pattern has six groups. -/
def ofGroups : List (List Char) → Option ArchivedEntry
  | [seq, t, name, actor, val, chain] =>
      some
        { seq := int seq
          tick := int t
          event := String.ofList name
          actor := int actor
          value := int val
          chain := String.ofList chain }
  | _ => none

/-- The body of the loop over the lines. -/
def parseLine (line : List Char) : Option ArchivedEntry := (search pat line).bind ofGroups

def parseMealEntries (log : List Char) : List ArchivedEntry := (splitLines log).filterMap parseLine

/-! ## The character classes -/

theorem between_iff (low high c : Char) :
    between low high c = true ↔ low.toNat ≤ c.toNat ∧ c.toNat ≤ high.toNat := by
  rw [between, Bool.and_eq_true, decide_eq_true_iff, decide_eq_true_iff]

theorem isDigit_eq (c : Char) : isDigit c = c.isDigit := by
  rw [Bool.eq_iff_iff, isDigit, between_iff, Char.isDigit_iff_toNat]

theorem isWord_of_isDigit {c : Char} (digit : isDigit c = true) : isWord c = true := by
  rw [isDigit] at digit
  rw [isWord, digit]
  rfl

theorem isWord_not_space (c : Char) (word : isWord c = true) : isSpace c = false := by
  rw [isWord] at word
  simp only [Bool.or_eq_true, between_iff, beq_iff_eq, ← Char.toNat_inj, Char.reduceToNat] at word
  rw [← Bool.not_eq_true, isSpace]
  simp only [Bool.or_eq_true, between_iff, decide_eq_true_iff, List.mem_cons, List.not_mem_nil,
    Char.reduceToNat, or_false]
  omega

theorem isDigit_not_space (c : Char) (digit : isDigit c = true) : isSpace c = false :=
  isWord_not_space c (isWord_of_isDigit digit)

theorem pat_separated : Separated ['.', '.', '.'] pat := by
  have digitsThenSpaces : StartsOutside isDigit spaces :=
    ⟨Nat.one_pos, rejects_symm isDigit_not_space⟩
  have wordThenSpaces : StartsOutside isWord spaces :=
    ⟨Nat.one_pos, rejects_symm isWord_not_space⟩
  have spacesThenWord : StartsOutside isSpace (.run isWord 1 true) :=
    ⟨Nat.one_pos, isWord_not_space⟩
  refine ⟨startsOutside_literal _ rfl, startsOutside_literal _ rfl, startsOutside_literal _ rfl,
    digitsThenSpaces, spacesThenWord, wordThenSpaces, startsOutside_literal _ rfl,
    digitsThenSpaces, startsOutside_literal _ rfl, digitsThenSpaces, startsOutside_literal _ rfl,
    ?_⟩
  -- behind the last digit of the chain stands a dot
  intro c isHead
  obtain rfl := Option.some.inj isHead
  rfl

/-! ## One line -/

theorem zeroPadded_fits (width n : Nat) : Fits digits (zeroPadded width n) := by
  constructor
  · have positive := @Nat.length_toDigits_pos 10 n
    rw [zeroPadded, List.leftpad, List.length_append]
    omega
  · intro c member
    rw [isDigit_eq]
    exact isDigit_of_mem_padded member

theorem spaces_fit (count : Nat) : Fits spaces (List.replicate count ' ' ++ [' ', ' ']) := by
  constructor
  · rw [List.length_append]
    exact Nat.le_add_left_of_le (by decide)
  · intro c member
    have space : c = ' ' := by
      rcases List.mem_append.mp member with padding | gap
      · exact List.eq_of_mem_replicate padding
      · simpa using gap
    rw [space]
    rfl

theorem hexByte_eq (b : U8) :
    hexByte b = [Nat.digitChar (b.toNat / 16), Nat.digitChar (b.toNat % 16)] :=
  toDigits_leftpad_two b.isLt

theorem isHexDigit_digitChar {n : Nat} (digit : n < 16) : isHexDigit (Nat.digitChar n) = true := by
  revert n
  decide

theorem chain_fits (h0 h1 h2 h3 : U8) :
    Fits (.run isHexDigit 1 true) (hexByte h0 ++ hexByte h1 ++ hexByte h2 ++ hexByte h3) := by
  have hexDigits : ∀ (b : U8), ∀ c ∈ hexByte b, isHexDigit c = true := by
    intro b c member
    have bound := b.isLt
    rw [hexByte_eq, List.mem_pair] at member
    rcases member with rfl | rfl
    · exact isHexDigit_digitChar (by omega)
    · exact isHexDigit_digitChar (by omega)
  constructor
  · rw [hexByte_eq h0]
    simp only [List.cons_append, List.length_cons]
    omega
  · intro c member
    simp only [List.mem_append] at member
    rcases member with ((first | second) | third) | fourth
    · exact hexDigits h0 c first
    · exact hexDigits h1 c second
    · exact hexDigits h2 c third
    · exact hexDigits h3 c fourth

/-- The formatted line cut at the pieces of the pattern. -/
def entryParts (sequence timestamp : Nat) (name : List Char) (actor valueA : Nat)
    (h0 h1 h2 h3 : U8) : List (List Char) :=
  [[' ', ' '], ['['], zeroPadded 2 sequence, [']'], [' '],
    ['t', '='], zeroPadded 4 timestamp, [' ', ' '], name,
    List.replicate (12 - name.length) ' ' ++ [' ', ' '],
    ['a', 'c', 't', 'o', 'r', '='], zeroPadded 0 actor, [' ', ' '],
    ['v', 'a', 'l', '='], zeroPadded 0 valueA,
    List.replicate (8 - (zeroPadded 0 valueA).length) ' ' ++ [' ', ' '],
    ['c', 'h', 'a', 'i', 'n', '='], hexByte h0 ++ hexByte h1 ++ hexByte h2 ++ hexByte h3]

section Line
variable (sequence timestamp : Nat) {name : List Char} (actor valueA : Nat) (h0 h1 h2 h3 : U8)

theorem entryFormat_eq_parts :
    entryFormat sequence timestamp name actor valueA h0 h1 h2 h3 =
      (entryParts sequence timestamp name actor valueA h0 h1 h2 h3).flatten ++ ['.', '.', '.'] := by
  simp only [entryFormat, entryParts, List.rightpad, List.flatten_cons, List.flatten_nil,
    List.append_assoc, List.append_nil, List.cons_append, List.nil_append]

theorem entryParts_fit (nonempty : 1 ≤ name.length) (word : ∀ c ∈ name, isWord c = true) :
    List.Forall₂ Fits pat (entryParts sequence timestamp name actor valueA h0 h1 h2 h3) := by
  have gap : Fits spaces [' ', ' '] := spaces_fit 0
  have oneSpace : Fits spaces [' '] := by
    refine ⟨le_rfl, ?_⟩
    intro c member
    rw [List.mem_singleton.mp member]
    rfl
  have margin : Fits (.run isSpace 0 false) [' ', ' '] := ⟨Nat.zero_le _, gap.2⟩
  have event : Fits (.run isWord 1 true) name := ⟨nonempty, word⟩
  rw [pat, entryParts]
  simp only [List.forall₂_cons, List.Forall₂.nil, and_true]
  exact ⟨margin, rfl, zeroPadded_fits 2 sequence, rfl, oneSpace, rfl, zeroPadded_fits 4 timestamp,
    gap, event, spaces_fit _, rfl, zeroPadded_fits 0 actor, gap, rfl, zeroPadded_fits 0 valueA,
    spaces_fit _, rfl, chain_fits h0 h1 h2 h3⟩

/-- The pattern finds the fields of a formatted line. -/
theorem search_entryFormat (nonempty : 1 ≤ name.length) (word : ∀ c ∈ name, isWord c = true) :
    search pat (entryFormat sequence timestamp name actor valueA h0 h1 h2 h3) =
      some [zeroPadded 2 sequence, zeroPadded 4 timestamp, name, zeroPadded 0 actor,
        zeroPadded 0 valueA, hexByte h0 ++ hexByte h1 ++ hexByte h2 ++ hexByte h3] := by
  apply search_of_match
  rw [entryFormat_eq_parts, matchPieces_of_fits pat_separated
    (entryParts_fit sequence timestamp actor valueA h0 h1 h2 h3 nonempty word)]
  rfl

end Line

theorem AuditEvent.name_word (event : AuditEvent) :
    1 ≤ event.name.toList.length ∧ ∀ c ∈ event.name.toList, isWord c = true := by
  rw [← List.all_eq_true]
  cases event <;> exact ⟨by decide, rfl⟩

/-- What the archive holds of an entry. -/
def AuditEntry.archived (e : AuditEntry) : ArchivedEntry :=
  { seq := e.sequence.toNat
    tick := e.timestamp.toNat
    event := e.eventType.name
    actor := e.actor.toNat
    value := e.valueA.toNat
    chain := String.ofList ((e.selfHash.toList.take 4).flatMap fun b =>
      [Nat.digitChar (b.toNat / 16), Nat.digitChar (b.toNat % 16)]) }

theorem parseLine_line (e : AuditEntry) : parseLine e.line = some e.archived := by
  obtain ⟨nonempty, word⟩ := e.eventType.name_word
  rw [parseLine, AuditEntry.line, search_entryFormat _ _ _ _ _ _ _ _ nonempty word,
    Option.bind_some, ofGroups, AuditEntry.archived, ← slice_zero,
    slice_four _ 0 (by decide)]
  simp only [int, zeroPadded, ofDigitChars_padded, String.ofList_toList, hexByte_eq,
    List.flatMap_cons, List.flatMap_nil, List.append_assoc, List.append_nil]

/-! ## The whole text -/

def isPrintable (c : Char) : Bool := between ' ' '~' c

theorem isPrintable_of_isWord {c : Char} (word : isWord c = true) : isPrintable c = true := by
  simp only [isWord, Bool.or_eq_true, between_iff, beq_iff_eq, ← Char.toNat_inj,
    Char.reduceToNat] at word
  simp only [isPrintable, between_iff, Char.reduceToNat]
  omega

theorem isWord_of_isHexDigit {c : Char} (hex : isHexDigit c = true) : isWord c = true := by
  simp only [isHexDigit, Bool.or_eq_true, between_iff, Char.reduceToNat] at hex
  simp only [isWord, Bool.or_eq_true, between_iff, Char.reduceToNat]
  omega

theorem isLineBreak_of_isPrintable {c : Char} (printable : isPrintable c = true) :
    isLineBreak c = false := by
  simp only [isPrintable, between_iff, Char.reduceToNat] at printable
  rw [← Bool.not_eq_true, isLineBreak]
  simp only [decide_eq_true_iff, List.mem_cons, List.not_mem_nil, or_false]
  omega

theorem entryFormat_printable (sequence timestamp : Nat) {name : List Char} (actor valueA : Nat)
    (h0 h1 h2 h3 : U8) (word : ∀ c ∈ name, isWord c = true) :
    (entryFormat sequence timestamp name actor valueA h0 h1 h2 h3).all isPrintable = true := by
  have ofName : name.all isPrintable = true :=
    List.all_eq_true.mpr fun c member => isPrintable_of_isWord (word c member)
  have ofNumber : ∀ width n, (zeroPadded width n).all isPrintable = true := fun width n =>
    List.all_eq_true.mpr fun c member =>
      isPrintable_of_isWord (isWord_of_isDigit ((zeroPadded_fits width n).2 c member))
  have ofChain : (hexByte h0 ++ hexByte h1 ++ hexByte h2 ++ hexByte h3).all isPrintable = true :=
    List.all_eq_true.mpr fun c member =>
      isPrintable_of_isWord (isWord_of_isHexDigit ((chain_fits h0 h1 h2 h3).2 c member))
  have ofPadding : ∀ count, (List.replicate count ' ').all isPrintable = true := fun count =>
    List.all_eq_true.mpr fun c member => by
      rw [List.eq_of_mem_replicate member]
      rfl
  rw [entryFormat, List.rightpad, List.rightpad]
  generalize hexByte h0 ++ hexByte h1 ++ hexByte h2 ++ hexByte h3 = chain at *
  simp only [List.all_append, ofName, ofNumber, ofPadding, ofChain, Bool.and_true]
  rfl

theorem AuditEntry.line_printable (e : AuditEntry) : ∀ c ∈ e.line, isPrintable c = true :=
  List.all_eq_true.mp (entryFormat_printable _ _ _ _ _ _ _ _ e.eventType.name_word.2)

/-- The kernel prints ASCII, on which the character classes above are those of the script. -/
theorem printEntries_ascii (entries : List AuditEntry) :
    ∀ c ∈ printEntries entries, c.toNat < 128 := by
  intro c member
  obtain ⟨e, -, inLine⟩ := List.mem_flatMap.mp member
  rcases List.mem_append.mp inLine with inText | feed
  · have printable := e.line_printable c inText
    simp only [isPrintable, between_iff, Char.reduceToNat] at printable
    omega
  · rw [List.mem_singleton.mp feed]
    decide

theorem splitLines_printEntries (entries : List AuditEntry) :
    splitLines (printEntries entries) = entries.map AuditEntry.line := by
  have text : printEntries entries = (entries.map AuditEntry.line).flatMap (· ++ ['\n']) := by
    rw [printEntries, List.flatMap_map]
  rw [text, splitLines_flatMap]
  intro line member c inLine
  obtain ⟨e, -, rfl⟩ := List.mem_map.mp member
  exact isLineBreak_of_isPrintable (e.line_printable c inLine)

theorem MealLog.printAll_eq (log : MealLog) : log.printAll = printEntries log.ringOrder := by
  rw [MealLog.printAll, printEntries, MealLog.ringOrder, readRing, List.filterMap_eq_flatMap_toList,
    List.flatMap_assoc]
  congr 1
  funext i
  show (log.entries.get (Fin.ofNat capacity (log.writeHead.val + i))).elim [] _ = _
  cases log.entries.get (Fin.ofNat capacity (log.writeHead.val + i)) with
  | none => rfl
  | some e => exact (List.append_nil _).symm

theorem parseMealEntries_printEntries (entries : List AuditEntry) :
    parseMealEntries (printEntries entries) = entries.map AuditEntry.archived := by
  rw [parseMealEntries, splitLines_printEntries]
  induction entries with
  | nil => rfl
  | cons e entries inductionHypothesis =>
      rw [List.map_cons, List.filterMap_cons_some (parseLine_line e), inductionHypothesis,
        List.map_cons]

/-- The archive reads back what the kernel prints: for any list of entries the fields of each,
in order and none missing.  What `print_all` prints is the list in the order of the ring. -/
theorem archive_reads_back :
    (∀ entries : List AuditEntry,
      parseMealEntries (printEntries entries) = entries.map AuditEntry.archived) ∧
    ∀ log : MealLog, parseMealEntries log.printAll = log.ringOrder.map AuditEntry.archived := by
  refine ⟨parseMealEntries_printEntries, ?_⟩
  intro log
  rw [MealLog.printAll_eq, parseMealEntries_printEntries]

end AxiomKernel.Meal
