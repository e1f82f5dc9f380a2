import Mathlib

/-!
# Text patterns

A pattern is a list of pieces, each a fixed word or a run of symbols of a class.  The
matcher is greedy and backtracks: a run takes as much as it can and gives symbols back
one at a time until the rest of the pattern matches.  In a separated pattern no run can
take a symbol of what follows it, so the cut of a text into fitting parts is the one the
matcher finds (`matchPieces_of_fits`).  At the end: the lines of a text, and numbers
read back from padded digits.
-/

set_option autoImplicit false

namespace TextPatterns

section Patterns
variable {α : Type}

inductive Piece (α : Type) where
  | literal (word : List α)
  | run (accepts : α → Bool) (atLeast : Nat) (captured : Bool)

/-! ## Separated patterns -/

/-- The part of a text a piece stands for. -/
def Fits : Piece α → List α → Prop
  | .literal word, part => part = word
  | .run accepts atLeast _, part =>
      atLeast ≤ part.length ∧ ∀ symbol ∈ part, accepts symbol = true

/-- No part the piece fits starts with a symbol of the class. -/
def StartsOutside (accepts : α → Bool) : Piece α → Prop
  | .literal word => ∃ symbol ∈ word.head?, accepts symbol = false
  | .run other atLeast _ => 0 < atLeast ∧ ∀ symbol, other symbol = true → accepts symbol = false

theorem startsOutside_literal {accepts : α → Bool} {symbol : α} (word : List α)
    (outside : accepts symbol = false) : StartsOutside accepts (.literal (symbol :: word)) :=
  ⟨symbol, rfl, outside⟩

/-- Classes without a common symbol, seen from the other one. -/
theorem rejects_symm {left right : α → Bool}
    (disjoint : ∀ symbol, left symbol = true → right symbol = false) (symbol : α)
    (accepted : right symbol = true) : left symbol = false := by
  rw [← Bool.not_eq_true]
  intro both
  rw [disjoint symbol both] at accepted
  exact Bool.false_ne_true accepted

/-- Every run is followed by a piece that starts outside it, the last by such a text. -/
def Separated (rest : List α) : List (Piece α) → Prop
  | [] => True
  | .literal _ :: pieces => Separated rest pieces
  | [.run accepts _ _] => ∀ symbol ∈ rest.head?, accepts symbol = false
  | .run accepts _ _ :: next :: pieces =>
      StartsOutside accepts next ∧ Separated rest (next :: pieces)

/-- The parts that the captured runs stand for. -/
def groupsOf : List (Piece α) → List (List α) → List (List α)
  | .literal _ :: pieces, _ :: parts => groupsOf pieces parts
  | .run _ _ captured :: pieces, part :: parts =>
      if captured then part :: groupsOf pieces parts else groupsOf pieces parts
  | _, _ => []

theorem StartsOutside.stops {accepts : α → Bool} {piece : Piece α} {part : List α}
    (outside : StartsOutside accepts piece) (fits : Fits piece part) (text : List α) :
    ∀ symbol ∈ (part ++ text).head?, accepts symbol = false := by
  cases piece with
  | literal word =>
      obtain ⟨first, isFirst, rejected⟩ := outside
      obtain rfl : part = word := fits
      intro symbol isHead
      rw [List.head?_append, Option.mem_def.mp isFirst] at isHead
      obtain rfl := Option.some.inj isHead
      exact rejected
  | run other atLeast captured =>
      obtain ⟨positive, disjoint⟩ := outside
      obtain ⟨long, inside⟩ := fits
      cases part with
      | nil =>
          rw [List.length_nil] at long
          omega
      | cons first more =>
          intro symbol isHead
          obtain rfl := Option.some.inj isHead
          exact disjoint _ (inside _ List.mem_cons_self)

theorem takeWhile_run {accepts : α → Bool} {part text : List α}
    (inside : ∀ symbol ∈ part, accepts symbol = true)
    (stops : ∀ symbol ∈ text.head?, accepts symbol = false) :
    (part ++ text).takeWhile accepts = part := by
  rw [List.takeWhile_append_of_pos inside]
  cases text with
  | nil => rw [List.takeWhile_nil, List.append_nil]
  | cons symbol rest =>
      have outside : accepts symbol = false := stops symbol rfl
      rw [List.takeWhile_cons, outside]
      exact List.append_nil part

/-! ## The matcher -/

variable [DecidableEq α]

/-- The captured groups of the first match at the front of the text. -/
def matchPieces : List (Piece α) → List α → Option (List (List α))
  | [], _ => some []
  | .literal word :: pieces, text =>
      if word <+: text then matchPieces pieces (text.drop word.length) else none
  | .run accepts atLeast captured :: pieces, text =>
      let longest := (text.takeWhile accepts).length
      (List.range (longest + 1 - atLeast)).findSome? fun givenBack =>
        (matchPieces pieces (text.drop (longest - givenBack))).map fun groups =>
          if captured then text.take (longest - givenBack) :: groups else groups

/-- The first match at any position of the text. -/
def search (pieces : List (Piece α)) (text : List α) : Option (List (List α)) :=
  text.tails.findSome? (matchPieces pieces)

theorem search_of_match {pieces : List (Piece α)} {text : List α} {groups : List (List α)}
    (matched : matchPieces pieces text = some groups) : search pieces text = some groups := by
  rw [search]
  cases text with
  | nil => rw [List.tails, List.findSome?_cons, matched]
  | cons symbol rest => rw [List.tails, List.findSome?_cons, matched]

theorem matchPieces_literal (word : List α) (pieces : List (Piece α)) (text : List α) :
    matchPieces (.literal word :: pieces) (word ++ text) = matchPieces pieces text := by
  rw [matchPieces, if_pos (List.prefix_append word text), List.drop_left]

/-- The longest run is tried first. -/
theorem matchPieces_run {accepts : α → Bool} {atLeast : Nat} (captured : Bool)
    {pieces : List (Piece α)} {part text : List α} {groups : List (List α)}
    (inside : ∀ symbol ∈ part, accepts symbol = true) (long : atLeast ≤ part.length)
    (stops : ∀ symbol ∈ text.head?, accepts symbol = false)
    (matched : matchPieces pieces text = some groups) :
    matchPieces (.run accepts atLeast captured :: pieces) (part ++ text) =
      some (if captured then part :: groups else groups) := by
  have tries : part.length + 1 - atLeast = part.length - atLeast + 1 := by omega
  rw [matchPieces, takeWhile_run inside stops, tries, List.range_succ_eq_map,
    List.findSome?_cons, Nat.sub_zero, List.drop_left, matched, List.take_left]
  rfl

/-- A text cut into parts that fit the pieces of a separated pattern is matched at this cut. -/
theorem matchPieces_of_fits {pieces : List (Piece α)} {parts : List (List α)} {rest : List α}
    (separated : Separated rest pieces) (fits : List.Forall₂ Fits pieces parts) :
    matchPieces pieces (parts.flatten ++ rest) = some (groupsOf pieces parts) := by
  induction fits with
  | nil => rfl
  | @cons piece part pieces parts fitsFirst fitsMore inductionHypothesis =>
      rw [List.flatten_cons, List.append_assoc]
      cases piece with
      | literal word =>
          obtain rfl : part = word := fitsFirst
          rw [matchPieces_literal, inductionHypothesis separated, groupsOf]
      | run accepts atLeast captured =>
          obtain ⟨long, inside⟩ := fitsFirst
          cases fitsMore with
          | nil =>
              exact matchPieces_run captured inside long separated (inductionHypothesis trivial)
          | @cons next nextPart pieces parts fitsNext fitsMore =>
              obtain ⟨outside, separatedMore⟩ := separated
              have stops := outside.stops fitsNext (parts.flatten ++ rest)
              rw [← List.append_assoc, ← List.flatten_cons] at stops
              exact matchPieces_run captured inside long stops (inductionHypothesis separatedMore)

end Patterns

/-! ## Lines -/

/-- The characters at which Python's `str.splitlines` breaks a line. -/
def isLineBreak (c : Char) : Bool :=
  c.toNat ∈ [0x0A, 0x0B, 0x0C, 0x0D, 0x1C, 0x1D, 0x1E, 0x85, 0x2028, 0x2029]

/-- `splitlines` from inside a line, with its characters so far.  A carriage return and the
line feed behind it are one break, and a break at the end starts no further line. -/
def splitLinesFrom : Bool → List Char → List Char → List (List Char)
  | _, current, [] => if current = [] then [] else [current]
  | afterReturn, current, c :: rest =>
      if afterReturn && c == '\n' then splitLinesFrom false current rest
      else if isLineBreak c then current :: splitLinesFrom (c == '\r') [] rest
      else splitLinesFrom false (current ++ [c]) rest

def splitLines (text : List Char) : List (List Char) := splitLinesFrom false [] text

theorem splitLinesFrom_line (current line rest : List Char)
    (unbroken : ∀ c ∈ line, isLineBreak c = false) :
    splitLinesFrom false current (line ++ '\n' :: rest) = (current ++ line) :: splitLines rest := by
  induction line generalizing current with
  | nil =>
      rw [List.append_nil]
      rfl
  | cons c line inductionHypothesis =>
      have kept := unbroken c List.mem_cons_self
      have more : ∀ c ∈ line, isLineBreak c = false :=
        fun c member => unbroken c (List.mem_cons_of_mem _ member)
      have step : splitLinesFrom false current (c :: (line ++ '\n' :: rest)) =
          splitLinesFrom false (current ++ [c]) (line ++ '\n' :: rest) := by
        rw [splitLinesFrom, kept]
        rfl
      rw [List.cons_append, step, inductionHypothesis _ more, List.append_assoc]
      rfl

/-- Lines that end in a line feed each are the lines of the text. -/
theorem splitLines_flatMap (lines : List (List Char))
    (unbroken : ∀ line ∈ lines, ∀ c ∈ line, isLineBreak c = false) :
    splitLines (lines.flatMap (· ++ ['\n'])) = lines := by
  induction lines with
  | nil => rfl
  | cons line lines inductionHypothesis =>
      have more : ∀ line ∈ lines, ∀ c ∈ line, isLineBreak c = false :=
        fun line member => unbroken line (List.mem_cons_of_mem _ member)
      rw [List.flatMap_cons, List.append_assoc, List.singleton_append, splitLines,
        splitLinesFrom_line [] line _ (unbroken line List.mem_cons_self), List.nil_append,
        inductionHypothesis more]

/-! ## Numbers -/

/-- Leading zeros do not change the number that is read. -/
theorem ofDigitChars_leftpad (width : Nat) (digits : List Char) :
    Nat.ofDigitChars 10 (digits.leftpad width '0') 0 = Nat.ofDigitChars 10 digits 0 := by
  rw [List.leftpad]
  generalize width - digits.length = zeros
  induction zeros with
  | zero => rw [List.replicate_zero, List.nil_append]
  | succ zeros inductionHypothesis =>
      rw [List.replicate_succ, List.cons_append, Nat.ofDigitChars_cons]
      exact inductionHypothesis

theorem ofDigitChars_padded (width n : Nat) :
    Nat.ofDigitChars 10 ((Nat.toDigits 10 n).leftpad width '0') 0 = n := by
  rw [ofDigitChars_leftpad, Nat.ofDigitChars_ten_toDigits]

theorem isDigit_of_mem_padded {width n : Nat} {c : Char}
    (member : c ∈ (Nat.toDigits 10 n).leftpad width '0') : c.isDigit = true := by
  rw [List.leftpad, List.mem_append] at member
  rcases member with zero | digit
  · rw [List.eq_of_mem_replicate zero]
    rfl
  · exact Nat.isDigit_of_mem_toDigits (by norm_num) (by norm_num) digit

/-- Two digits, the first of them zero if need be. -/
theorem toDigits_leftpad_two {base n : Nat} (twoDigits : n < base * base) :
    (Nat.toDigits base n).leftpad 2 '0' = [Nat.digitChar (n / base), Nat.digitChar (n % base)] := by
  by_cases small : n < base
  · rw [Nat.toDigits_of_lt_base small, Nat.div_eq_of_lt small, Nat.mod_eq_of_lt small]
    rfl
  · have large : 1 < base := by nlinarith
    have high : n / base < base := Nat.div_lt_of_lt_mul twoDigits
    rw [Nat.toDigits_of_base_le large (by omega), Nat.toDigits_of_lt_base high]
    rfl

end TextPatterns
