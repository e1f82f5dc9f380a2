import Mathlib
import AxiomKernel.Lib.Bytes
import AxiomKernel.Lib.Words

/-!
# The walk over the MADT

Model of the entry loop of `parse_madt` of `smp.rs`.  The table is the memory from
`madt_virt` on, which goes on behind the table; `reads` lists the offsets the loop
reads at.  The guard of the loop covers the two bytes of an entry's header, and the
body reads eight bytes of a local APIC entry, so the walk is right only when no such
entry is cut off by the end of the table.  Nor does the body look at the length of
the entry, so an entry that is too short for its fields must not look enabled.
-/

set_option autoImplicit false

namespace AxiomKernel.Smp

open ByteStrings MachineWords

/-! ## The code -/

/-- `read_unaligned` of a `u32`. -/
def readU32 (table : Nat → U8) (offset : Nat) : U32 :=
  fromLeBytes 32 [table offset, table (offset + 1), table (offset + 2), table (offset + 3)]

/-- The body of `if entry_type == 0`: the ids and the offsets read afterwards. -/
def localApic (table : Nat → U8) (entry : Nat) (ids : List U8) (reads : List Nat) :
    List U8 × List Nat :=
  let apicId := table (entry + 3)
  let flags := readU32 table (entry + 4)
  let reads := reads ++ [entry + 3, entry + 4, entry + 5, entry + 6, entry + 7]
  (if flags &&& 1 ≠ 0 then ids ++ [apicId] else ids, reads)

/-- The loop `while offset + 2 < madt_len`: the ids and the offsets read.  `none` is the
overflow of an addition, or a loop that has not ended. -/
def entryLoop (table : Nat → U8) (madtLen : U64) :
    Nat → U64 → List U8 → List Nat → Option (List U8 × List Nat)
  | 0, _, _, _ => none
  | fuel + 1, offset, ids, reads => do
      let headerEnd ← checkedAdd offset 2
      if headerEnd < madtLen then
        let entry := offset.toNat
        let entryType := table entry
        let entryLen := (table (entry + 1)).setWidth 64
        let reads := reads ++ [entry, entry + 1]
        if entryLen = 0 then some (ids, reads)
        else
          let pushed := if entryType = 0 then localApic table entry ids reads else (ids, reads)
          let offset ← checkedAdd offset entryLen
          entryLoop table madtLen fuel offset pushed.1 pushed.2
      else some (ids, reads)

/-- The loop over a table of `len` bytes.  Each turn advances the offset, so the length
bounds the number of turns. -/
def parseMadtEntries (table : Nat → U8) (len : U32) : Option (List U8 × List Nat) :=
  entryLoop table (len.setWidth 64) (len.toNat + 1) 44 [] []

/-! ## The entries of a table -/

def entryLength (table : Nat → U8) (entry : Nat) : Nat := (table (entry + 1)).toNat

/-- The offsets met by stepping by entry length, while the header of an entry is inside
the table.  A length of zero ends the table. -/
def entriesFrom (table : Nat → U8) (len offset : Nat) : List Nat :=
  if offset + 2 ≤ len ∧ entryLength table offset ≠ 0 then
    offset :: entriesFrom table len (offset + entryLength table offset)
  else []
termination_by len - offset
decreasing_by omega

/-- Bit 0 of the flags, a little-endian field at offset 4. -/
def Enabled (table : Nat → U8) (entry : Nat) : Prop := (table (entry + 4)).getLsbD 0 = true

instance (table : Nat → U8) (entry : Nat) : Decidable (Enabled table entry) :=
  inferInstanceAs (Decidable (_ = _))

/-- A local APIC entry: by its own length it has the eight bytes of the fields, and they are
inside the table. -/
def IsLocalApic (table : Nat → U8) (len entry : Nat) : Prop :=
  table entry = 0 ∧ 8 ≤ entryLength table entry ∧ entry + 8 ≤ len

instance (table : Nat → U8) (len entry : Nat) : Decidable (IsLocalApic table len entry) :=
  inferInstanceAs (Decidable (_ ∧ _))

/-- The APIC ids of the enabled local APIC entries, in table order. -/
def tableIds (table : Nat → U8) (len : Nat) : List U8 :=
  ((entriesFrom table len 44).filter fun entry =>
    IsLocalApic table len entry ∧ Enabled table entry).map fun entry => table (entry + 3)

/-- No entry of type 0 that the loop looks at is cut off by the end of the table. -/
def Untruncated (table : Nat → U8) (len offset : Nat) : Prop :=
  ∀ entry ∈ entriesFrom table len offset, table entry = 0 → entry + 2 < len → entry + 8 ≤ len

/-- No entry of type 0 that the loop looks at is enabled by a byte that is not its own. -/
def ShortDisabled (table : Nat → U8) (len offset : Nat) : Prop :=
  ∀ entry ∈ entriesFrom table len offset, table entry = 0 → entry + 2 < len →
    entryLength table entry < 8 → ¬ Enabled table entry

/-! ## The walk -/

variable {table : Nat → U8} {len : Nat}

theorem flags_enabled_iff (table : Nat → U8) (entry : Nat) :
    readU32 table (entry + 4) &&& 1 ≠ 0 ↔ Enabled table entry := by
  have bit (word : U32) : (word &&& 1 ≠ 0) ↔ word.getLsbD 0 = true := by
    rw [show (1 : U32) = BitVec.twoPow 32 0 from rfl, BitVec.and_twoPow]
    cases word.getLsbD 0 <;> decide
  have lowest : (readU32 table (entry + 4)).getLsbD 0 = (table (entry + 4)).getLsbD 0 := by
    rw [readU32, fromLeBytes, BitVec.getLsbD_ofNat, BitVec.getLsbD, Nat.testBit_zero,
      Nat.testBit_zero, leNat, ← Bool.decide_and, decide_eq_decide]
    omega
  rw [bit, lowest, Enabled]

theorem entriesFrom_of_header {offset : Nat} (inside : offset + 2 ≤ len)
    (positive : entryLength table offset ≠ 0) :
    entriesFrom table len offset =
      offset :: entriesFrom table len (offset + entryLength table offset) := by
  rw [entriesFrom, if_pos ⟨inside, positive⟩]

theorem entriesFrom_of_end {offset : Nat}
    (ended : ¬ (offset + 2 ≤ len ∧ entryLength table offset ≠ 0)) :
    entriesFrom table len offset = [] := by
  rw [entriesFrom, if_neg ended]

theorem le_of_mem_entriesFrom {offset entry : Nat} (member : entry ∈ entriesFrom table len offset) :
    offset ≤ entry := by
  induction offset using entriesFrom.induct table len with
  | case1 offset inside inductionHypothesis =>
      rw [entriesFrom_of_header inside.1 inside.2] at member
      rcases List.mem_cons.mp member with first | later
      · exact first.ge
      · have behind := inductionHypothesis later
        omega
  | case2 offset ended =>
      rw [entriesFrom_of_end ended] at member
      cases member

/-- What a turn pushes. -/
def pushedIds (table : Nat → U8) (entry : Nat) : List U8 :=
  if table entry = 0 ∧ Enabled table entry then [table (entry + 3)] else []

/-- What a turn reads. -/
def turnReads (table : Nat → U8) (entry : Nat) : List Nat :=
  [entry, entry + 1] ++
    if table entry = 0 then [entry + 3, entry + 4, entry + 5, entry + 6, entry + 7] else []

theorem turnReads_inside_iff {entry : Nat} (header : entry + 2 < len) :
    (∀ read ∈ turnReads table entry, read < len) ↔ (table entry = 0 → entry + 8 ≤ len) := by
  rw [turnReads]
  by_cases isLocalApic : table entry = 0
  · rw [if_pos isLocalApic]
    simp only [List.cons_append, List.nil_append, List.mem_cons, List.not_mem_nil, or_false,
      forall_eq_or_imp, forall_eq, isLocalApic, forall_const]
    omega
  · rw [if_neg isLocalApic]
    simp only [List.append_nil, List.mem_cons, List.not_mem_nil, or_false, forall_eq_or_imp,
      forall_eq, isLocalApic, false_implies, iff_true]
    omega

theorem pushed_eq (entry : Nat) (ids : List U8) (reads : List Nat) :
    (if table entry = 0 then localApic table entry ids (reads ++ [entry, entry + 1])
      else (ids, reads ++ [entry, entry + 1])) =
      (ids ++ pushedIds table entry, reads ++ turnReads table entry) := by
  rw [pushedIds, turnReads]
  by_cases isLocalApic : table entry = 0
  · rw [if_pos isLocalApic, if_pos isLocalApic, localApic, ← List.append_assoc]
    by_cases enabled : Enabled table entry
    · have flagSet := (flags_enabled_iff table entry).mpr enabled
      rw [if_pos flagSet, if_pos ⟨isLocalApic, enabled⟩]
    · have flagClear := mt (flags_enabled_iff table entry).mp enabled
      rw [if_neg flagClear, if_neg (fun both => enabled both.2), List.append_nil]
  · rw [if_neg isLocalApic, if_neg isLocalApic, if_neg (fun both => isLocalApic both.1),
      List.append_nil, List.append_nil]

theorem entryLoop_turn {madtLen offset : U64} (fuel : Nat) (ids : List U8) (reads : List Nat)
    (header : offset.toNat + 2 < madtLen.toNat)
    (positive : entryLength table offset.toNat ≠ 0)
    (fits : offset.toNat + 256 < 2 ^ 64) :
    ∃ next : U64, next.toNat = offset.toNat + entryLength table offset.toNat ∧
      entryLoop table madtLen (fuel + 1) offset ids reads =
        entryLoop table madtLen fuel next (ids ++ pushedIds table offset.toNat)
          (reads ++ turnReads table offset.toNat) := by
  have two : (2 : U64).toNat = 2 := rfl
  have lengthLt := (table (offset.toNat + 1)).isLt
  have lengthWide : ((table (offset.toNat + 1)).setWidth 64).toNat =
      entryLength table offset.toNat := by
    rw [BitVec.toNat_setWidth, entryLength, Nat.mod_eq_of_lt (by omega)]
  have lengthNe : (table (offset.toNat + 1)).setWidth 64 ≠ 0 := by
    intro zero
    rw [zero] at lengthWide
    exact positive lengthWide.symm
  have headerEnd : offset + 2 < madtLen := by
    rw [BitVec.lt_def, BitVec.toNat_add, two, Nat.mod_eq_of_lt (by omega)]
    exact header
  have nextFits : offset.toNat + ((table (offset.toNat + 1)).setWidth 64).toNat < 2 ^ 64 := by
    rw [lengthWide, entryLength]
    omega
  refine ⟨offset + (table (offset.toNat + 1)).setWidth 64, ?_, ?_⟩
  · rw [BitVec.toNat_add, Nat.mod_eq_of_lt nextFits, lengthWide]
  · rw [entryLoop, checkedAdd_of_lt (by rw [two]; omega)]
    simp only [Option.bind_eq_bind, Option.bind_some, if_pos headerEnd, if_neg lengthNe,
      checkedAdd_of_lt nextFits]
    rw [pushed_eq]

/-- What the loop pushes from an offset on. -/
def walkedIds (table : Nat → U8) (len offset : Nat) : List U8 :=
  ((entriesFrom table len offset).filter (· + 2 < len)).flatMap (pushedIds table)

theorem walkedIds_of_stopped {offset : Nat}
    (stopped : ∀ entry ∈ entriesFrom table len offset, ¬ entry + 2 < len) :
    walkedIds table len offset = [] ∧ Untruncated table len offset := by
  constructor
  · have nothing : (entriesFrom table len offset).filter (· + 2 < len) = [] := by
      rw [List.filter_eq_nil_iff]
      intro entry member
      simpa using stopped entry member
    rw [walkedIds, nothing, List.flatMap_nil]
  · intro entry member _ header
    exact absurd header (stopped entry member)

/-- From any offset on the loop ends, pushes the ids of the entries it looks at, and
reads inside the table exactly if no local APIC entry is cut off. -/
theorem entryLoop_walks (table : Nat → U8) (len : U32) (fuel : Nat) (offset : U64)
    (ids : List U8) (reads : List Nat) (positive : 0 < fuel)
    (enough : len.toNat < offset.toNat + fuel) (small : offset.toNat < 2 ^ 32 + 256) :
    ∃ more, entryLoop table (len.setWidth 64) fuel offset ids reads =
        some (ids ++ walkedIds table len.toNat offset.toNat, reads ++ more) ∧
      ((∀ read ∈ more, read < len.toNat) ↔ Untruncated table len.toNat offset.toNat) := by
  have wide : (len.setWidth 64).toNat = len.toNat := by
    rw [BitVec.toNat_setWidth, Nat.mod_eq_of_lt (by omega)]
  have lenLt := len.isLt
  have two : (2 : U64).toNat = 2 := rfl
  induction fuel generalizing offset ids reads with
  | zero => omega
  | succ fuel inductionHypothesis =>
      have headerFits : offset.toNat + (2 : U64).toNat < 2 ^ 64 := by
        rw [two]
        omega
      have headerEnd : offset + 2 < len.setWidth 64 ↔ offset.toNat + 2 < len.toNat := by
        rw [BitVec.lt_def, BitVec.toNat_add, Nat.mod_eq_of_lt headerFits, wide, two]
      by_cases header : offset.toNat + 2 < len.toNat
      · by_cases ended : entryLength table offset.toNat = 0
        · -- a length of zero leaves the loop after the header was read
          have noEntry : entriesFrom table len.toNat offset.toNat = [] :=
            entriesFrom_of_end fun inside => inside.2 ended
          have stopped : ∀ entry ∈ entriesFrom table len.toNat offset.toNat,
              ¬ entry + 2 < len.toNat := by simp [noEntry]
          obtain ⟨noIds, untruncated⟩ := walkedIds_of_stopped stopped
          have lengthZero : (table (offset.toNat + 1)).setWidth 64 = (0 : U64) := by
            rw [← BitVec.toNat_inj, BitVec.toNat_setWidth]
            exact Nat.mod_eq_of_lt (lt_of_eq_of_lt ended (by decide)) |>.trans ended
          refine ⟨[offset.toNat, offset.toNat + 1], ?_, iff_of_true ?_ untruncated⟩
          · rw [entryLoop, checkedAdd_of_lt headerFits, noIds, List.append_nil]
            simp only [Option.bind_eq_bind, Option.bind_some, if_pos (headerEnd.mpr header),
              if_pos lengthZero]
          · simp only [List.mem_cons, List.not_mem_nil, or_false, forall_eq_or_imp, forall_eq]
            omega
        · obtain ⟨next, nextAt, turned⟩ := entryLoop_turn fuel ids reads
            (by rw [wide]; exact header) ended (by omega)
          have advanced : 0 < entryLength table offset.toNat := Nat.pos_of_ne_zero ended
          have lengthLt : entryLength table offset.toNat < 256 := (table (offset.toNat + 1)).isLt
          obtain ⟨more, walked, inside⟩ := inductionHypothesis next
            (ids ++ pushedIds table offset.toNat) (reads ++ turnReads table offset.toNat)
            (by omega) (by omega) (by omega)
          have entries := entriesFrom_of_header (by omega : offset.toNat + 2 ≤ len.toNat) ended
          rw [← nextAt] at entries
          refine ⟨turnReads table offset.toNat ++ more, ?_, ?_⟩
          · rw [turned, walked, walkedIds, walkedIds, entries,
              List.filter_cons_of_pos (by simpa using header), List.flatMap_cons,
              List.append_assoc, List.append_assoc]
          · rw [List.forall_mem_append, inside, turnReads_inside_iff header, Untruncated,
              Untruncated, entries, List.forall_mem_cons]
            simp only [header, forall_const]
      · have stopped : ∀ entry ∈ entriesFrom table len.toNat offset.toNat,
            ¬ entry + 2 < len.toNat := by
          intro entry member
          have behind := le_of_mem_entriesFrom member
          omega
        obtain ⟨noIds, untruncated⟩ := walkedIds_of_stopped stopped
        refine ⟨[], ?_, iff_of_true (by simp) untruncated⟩
        rw [entryLoop, checkedAdd_of_lt headerFits, noIds, List.append_nil, List.append_nil]
        simp only [Option.bind_eq_bind, Option.bind_some, if_neg (mt headerEnd.mp header)]

/-- The entries whose ids the loop pushes. -/
def walkedEntries (table : Nat → U8) (len offset : Nat) : List Nat :=
  (entriesFrom table len offset).filter fun entry =>
    entry + 2 < len ∧ table entry = 0 ∧ Enabled table entry

theorem walkedIds_eq_map (offset : Nat) :
    walkedIds table len offset =
      (walkedEntries table len offset).map fun entry => table (entry + 3) := by
  rw [walkedIds, walkedEntries]
  induction entriesFrom table len offset with
  | nil => rfl
  | cons entry rest inductionHypothesis =>
      by_cases header : entry + 2 < len
      · rw [List.filter_cons_of_pos (by simpa using header), List.flatMap_cons,
          inductionHypothesis, pushedIds]
        by_cases pushed : table entry = 0 ∧ Enabled table entry
        · rw [if_pos pushed, List.filter_cons_of_pos (by simp [header, pushed]), List.map_cons,
            List.singleton_append]
        · rw [if_neg pushed, List.filter_cons_of_neg (by simpa [header] using pushed),
            List.nil_append]
      · rw [List.filter_cons_of_neg (by simpa using header),
          List.filter_cons_of_neg (by simp [header]), inductionHypothesis]

/-- Where no entry is cut off, the table's entries are those of the pushed ones that are long
enough. -/
theorem filter_walkedEntries (untruncated : Untruncated table len 44) :
    (entriesFrom table len 44).filter
        (fun entry => IsLocalApic table len entry ∧ Enabled table entry) =
      (walkedEntries table len 44).filter fun entry => 8 ≤ entryLength table entry := by
  rw [walkedEntries, List.filter_filter]
  apply List.filter_congr
  intro entry member
  have whole := untruncated entry member
  rw [← Bool.decide_and, decide_eq_decide, IsLocalApic]
  constructor
  · intro ⟨⟨isLocalApic, long, inTable⟩, enabled⟩
    exact ⟨long, by omega, isLocalApic, enabled⟩
  · intro ⟨long, header, isLocalApic, enabled⟩
    exact ⟨⟨isLocalApic, long, whole isLocalApic header⟩, enabled⟩

theorem walkedIds_eq_tableIds_iff (untruncated : Untruncated table len 44) :
    walkedIds table len 44 = tableIds table len ↔ ShortDisabled table len 44 := by
  rw [walkedIds_eq_map, tableIds, filter_walkedEntries untruncated]
  constructor
  · intro same entry member isLocalApic header short enabled
    -- an id more than the table has makes the lists differ in length
    have lengths := congrArg List.length same
    rw [List.length_map, List.length_map] at lengths
    have allLong := List.length_filter_eq_length_iff.mp lengths.symm
    have walked : entry ∈ walkedEntries table len 44 := by
      rw [walkedEntries, List.mem_filter]
      exact ⟨member, by simp [header, isLocalApic, enabled]⟩
    have long : 8 ≤ entryLength table entry := by simpa using allLong entry walked
    omega
  · intro disabled
    have allLong : (walkedEntries table len 44).filter (8 ≤ entryLength table ·) =
        walkedEntries table len 44 := by
      rw [List.filter_eq_self]
      intro entry walked
      rw [walkedEntries, List.mem_filter, decide_eq_true_eq] at walked
      obtain ⟨member, header, isLocalApic, enabled⟩ := walked
      by_contra short
      exact disabled entry member isLocalApic header (by simpa using short) enabled
    rw [allLong]

/-- The walk ends.  It stays inside the table and returns the table's ids exactly if no entry of
type 0 is cut off by the end of the table and none that is too short looks enabled. -/
theorem madt_walk_exact_iff (table : Nat → U8) (len : U32) :
    ∃ ids reads, parseMadtEntries table len = some (ids, reads) ∧
      ((∀ read ∈ reads, read < len.toNat) ∧ ids = tableIds table len.toNat ↔
        Untruncated table len.toNat 44 ∧ ShortDisabled table len.toNat 44) := by
  have start : (44 : U64).toNat = 44 := rfl
  obtain ⟨reads, walked, inside⟩ := entryLoop_walks table len (len.toNat + 1) 44 [] []
    (Nat.succ_pos _) (by omega) (by rw [start]; norm_num)
  rw [start, List.nil_append, List.nil_append] at walked
  rw [start] at inside
  refine ⟨_, reads, walked, ?_⟩
  rw [inside]
  exact and_congr_right fun untruncated => walkedIds_eq_tableIds_iff untruncated

/-- A local APIC entry of which the table holds the header and one more byte. -/
def truncatedTable (offset : Nat) : U8 :=
  if offset = 45 then 8 else if offset = 47 then 7 else if offset = 48 then 1 else 0

/-- An entry of type 0 with nothing but its header, in front of an I/O APIC entry. -/
def shortEntryTable (offset : Nat) : U8 :=
  if offset = 45 then 2 else if offset = 46 then 1 else if offset = 47 then 12
  else if offset = 48 then 5 else 0

/-- In the first table the id comes from behind the table, and so does the flag that enables
it; in the second both are bytes of the entry that follows. -/
theorem madt_walk_leaves_table :
    (parseMadtEntries truncatedTable 47 = some ([7], [44, 45, 47, 48, 49, 50, 51]) ∧
      tableIds truncatedTable 47 = []) ∧
    (parseMadtEntries shortEntryTable 58 =
        some ([12], [44, 45, 47, 48, 49, 50, 51, 46, 47]) ∧
      tableIds shortEntryTable 58 = []) := by
  refine ⟨⟨rfl, ?_⟩, rfl, ?_⟩
  · have entries : entriesFrom truncatedTable 47 44 = [44] := by
      rw [entriesFrom_of_header (by decide) (by decide), entriesFrom_of_end (by decide)]
    rw [tableIds, entries]
    rfl
  · have entries : entriesFrom shortEntryTable 58 44 = [44, 46] := by
      rw [entriesFrom_of_header (by decide) (by decide), entriesFrom_of_header (by decide) (by decide),
        entriesFrom_of_end (by decide)]
      rfl
    rw [tableIds, entries]
    rfl

end AxiomKernel.Smp
