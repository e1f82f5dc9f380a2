import Mathlib
import AxiomKernel.Lib.Bytes
import AxiomKernel.Lib.Words
import AxiomKernel.Lib.ByteMemory
import AxiomKernel.Lib.StackWords
import AxiomKernel.Smp.Madt

/-!
# Finding the processors

Model of `find_rsdp` and `parse_madt` of `smp.rs`: the RSDP comes from the boot loader or
from a scan of the EBDA and the BIOS area, its RSDT lists tables, and the first of them
that is an MADT is walked.  What the firmware describes with such tables is what
`parse_madt` returns, if the MADT is among the first 32 tables: no other is looked at.
-/

set_option autoImplicit false

namespace AxiomKernel.Smp

open ByteStrings MachineWords ByteMemory StackWords

/-! ## The code -/

/-- `b"RSD PTR "` -/
def RSDP_SIGNATURE : List U8 := [0x52, 0x53, 0x44, 0x20, 0x50, 0x54, 0x52, 0x20]

/-- `b"APIC"` -/
def MADT_SIGNATURE : List U8 := [0x41, 0x50, 0x49, 0x43]

def readU16 (memory : Memory) (address : Nat) : U16 :=
  fromLeBytes 16 [memory address, memory (address + 1)]

/-- The loop `while addr < end`.  `none` is the overflow of an addition, or a loop that has not
ended. -/
def scanLoop (memory : Memory) (physOffset stop : U64) : Nat → U64 → Option (Option U64)
  | 0, _ => none
  | fuel + 1, addr =>
      if addr < stop then do
        let virt ← checkedAdd physOffset addr
        if readBytes memory virt.toNat 8 = RSDP_SIGNATURE then return some addr
        let addr ← checkedAdd addr 16
        scanLoop memory physOffset stop fuel addr
      else some none

def findRsdp (memory : Memory) (physOffset : U64) : Option (Option U64) := do
  let ebdaPtr ← checkedAdd physOffset 0x40E
  let ebdaSeg : U64 := (readU16 memory ebdaPtr.toNat).setWidth 64
  let ebdaPhys := ebdaSeg <<< 4
  let ebdaEnd ← checkedAdd ebdaPhys 0x400
  match ← scanLoop memory physOffset ebdaEnd 65 ebdaPhys with
  | some addr => return some addr
  | none => scanLoop memory physOffset 0x100000 0x2001 0xE0000

/-- The loop over the entries of the RSDT, with those that are left. -/
def tableLoop (memory : Memory) (physOffset rsdtVirt : U64) : Nat → U64 → Option (Option U64)
  | 0, _ => some none
  | left + 1, i => do
      let first ← checkedAdd rsdtVirt 36
      let offset ← checkedMul i 4
      let entry ← checkedAdd first offset
      let tablePhys : U64 := (readU32 memory entry.toNat).setWidth 64
      if tablePhys = 0 then tableLoop memory physOffset rsdtVirt left (i + 1)
      else
        let tableVirt ← checkedAdd physOffset tablePhys
        if readBytes memory tableVirt.toNat 4 = MADT_SIGNATURE then return some tablePhys
        tableLoop memory physOffset rsdtVirt left (i + 1)

/-- The ids in the MADT at a physical address. -/
def readMadt (memory : Memory) (physOffset madtPhys : U64) : Option (List U8) := do
  let madtVirt ← checkedAdd physOffset madtPhys
  let madtLenPtr ← checkedAdd madtVirt 4
  let madtLen := readU32 memory madtLenPtr.toNat
  let (ids, _) ← parseMadtEntries (fun offset => memory (madtVirt.toNat + offset)) madtLen
  return ids

/-- The tables of the RSDP at a physical address. -/
def readRsdp (memory : Memory) (physOffset rsdpPhys : U64) : Option (List U8) := do
  let rsdpVirt ← checkedAdd physOffset rsdpPhys
  let rsdtPtr ← checkedAdd rsdpVirt 16
  let rsdtVirt ← checkedAdd physOffset ((readU32 memory rsdtPtr.toNat).setWidth 64)
  let rsdtLenPtr ← checkedAdd rsdtVirt 4
  let rsdtLen := (readU32 memory rsdtLenPtr.toNat).toNat
  let nEntries := (rsdtLen - 36) / 4
  match ← tableLoop memory physOffset rsdtVirt (min nEntries 32) 0 with
  | some madtPhys => readMadt memory physOffset madtPhys
  | none => return []

def parseMadt (memory : Memory) (physOffset : U64) (rsdpAddr : Option U64) : Option (List U8) := do
  let found ← match rsdpAddr with
    | some addr => some (some addr)
    | none => findRsdp memory physOffset
  match found with
  | some rsdpPhys => readRsdp memory physOffset rsdpPhys
  | none => return []

/-! ## The tables of the firmware -/

/-- An entry of an MADT.  The other kinds have any body that their length byte can count. -/
inductive MadtEntry where
  | localApic (uid apicId : U8) (flags : U32)
  | other (kind : U8) (body : List U8) (notLocalApic : kind ≠ 0) (fits : body.length + 2 < 256)

namespace MadtEntry

def bytes : MadtEntry → List U8
  | localApic uid apicId flags => [0, 8, uid, apicId] ++ toLeBytes 4 flags
  | other kind body _ _ => [kind, BitVec.ofNat 8 (body.length + 2)] ++ body

/-- The processor an entry stands for, if it is enabled. -/
def enabledId : MadtEntry → Option U8
  | localApic _ apicId flags => if flags &&& 1 ≠ 0 then some apicId else none
  | other _ _ _ _ => none

end MadtEntry

/-- Physical addresses at which the scan looks for an RSDP, in its order. -/
def rsdpCandidates (ebdaSeg : U16) : List Nat :=
  List.range' (ebdaSeg.toNat * 16) 64 16 ++ List.range' 0xE0000 0x2000 16

def isRsdp (memory : Memory) (physOffset : U64) (address : Nat) : Bool :=
  decide (readBytes memory (physOffset.toNat + address) 8 = RSDP_SIGNATURE)

structure AcpiTables where
  rsdp : U64
  rsdt : U32
  tables : List U32

/-- The tables are in memory, behind the offset at which the boot loader maps it. -/
structure AcpiTables.InMemory (acpi : AcpiTables) (memory : Memory) (physOffset : U64) : Prop where
  rsdpInWindow : physOffset.toNat + acpi.rsdp.toNat + 16 < 2 ^ 64
  rsdt : readU32 memory (physOffset.toNat + acpi.rsdp.toNat + 16) = acpi.rsdt
  rsdtLength : (readU32 memory (physOffset.toNat + acpi.rsdt.toNat + 4)).toNat =
    36 + 4 * acpi.tables.length
  tables : ∀ i table, acpi.tables[i]? = some table →
    readU32 memory (physOffset.toNat + acpi.rsdt.toNat + 36 + 4 * i) = table

def isMadt (memory : Memory) (physOffset : U64) (table : U32) : Bool :=
  decide (table ≠ 0 ∧ readBytes memory (physOffset.toNat + table.toNat) 4 = MADT_SIGNATURE)

/-- An MADT with these entries is in memory at a physical address. -/
structure MadtInMemory (memory : Memory) (physOffset : U64) (madt : U32)
    (entries : List MadtEntry) : Prop where
  length : (readU32 memory (physOffset.toNat + madt.toNat + 4)).toNat =
    44 + (entries.flatMap MadtEntry.bytes).length
  entries : readBytes memory (physOffset.toNat + madt.toNat + 44)
    (entries.flatMap MadtEntry.bytes).length = entries.flatMap MadtEntry.bytes

/-! ## The scan -/

section

variable {memory : Memory} {physOffset : U64}

theorem scanLoop_eq (memory : Memory) (window : physOffset.toNat + 2 ^ 33 < 2 ^ 64) {stop : U64}
    (count : Nat) (addr : U64) (stopIs : stop.toNat = addr.toNat + 16 * count) (small : stop.toNat < 2 ^ 32) :
    scanLoop memory physOffset stop (count + 1) addr =
      some (((List.range' addr.toNat count 16).find? (isRsdp memory physOffset)).map
        (BitVec.ofNat 64)) := by
  induction count generalizing addr with
  | zero =>
      have stopped : ¬ addr < stop := by
        rw [BitVec.lt_def]
        omega
      rw [scanLoop, if_neg stopped]
      rfl
  | succ count inductionHypothesis =>
      have running : addr < stop := by
        rw [BitVec.lt_def]
        omega
      have sixteen : (16 : U64).toNat = 16 := rfl
      obtain ⟨virt, added, virtIs⟩ : ∃ virt, checkedAdd physOffset addr = some virt ∧ _ :=
        exists_checkedAdd (by omega)
      obtain ⟨next, advanced, nextIs⟩ : ∃ next, checkedAdd addr 16 = some next ∧ _ :=
        exists_checkedAdd (by omega)
      rw [sixteen] at nextIs
      have later := inductionHypothesis next (by omega)
      rw [scanLoop, if_pos running, added, List.range'_succ]
      simp only [Option.bind_eq_bind, Option.bind_some, virtIs, advanced]
      by_cases found : readBytes memory (physOffset.toNat + addr.toNat) 8 = RSDP_SIGNATURE
      · rw [if_pos found, List.find?_cons_of_pos (by simpa [isRsdp] using found)]
        simp
      · rw [if_neg found, List.find?_cons_of_neg (by simpa [isRsdp] using found), ← nextIs]
        exact later

theorem findRsdp_eq (window : physOffset.toNat + 2 ^ 33 < 2 ^ 64) :
    findRsdp memory physOffset =
      some (((rsdpCandidates (readU16 memory (physOffset.toNat + 0x40E))).find?
        (isRsdp memory physOffset)).map (BitVec.ofNat 64)) := by
  obtain ⟨seg, segIs⟩ : ∃ seg, readU16 memory (physOffset.toNat + 0x40E) = seg := ⟨_, rfl⟩
  obtain ⟨ebdaPtr, added, ebdaPtrIs⟩ : ∃ ebdaPtr, checkedAdd physOffset 0x40E = some ebdaPtr ∧ _ :=
    exists_checkedAdd (by show _ + 0x40E < _; omega)
  have segRead : readU16 memory ebdaPtr.toNat = seg := by
    rw [ebdaPtrIs]
    exact segIs
  have segLt := seg.isLt
  have ebda : ((seg.setWidth 64 : U64) <<< 4).toNat = seg.toNat * 16 := by
    rw [BitVec.toNat_shiftLeft, BitVec.toNat_setWidth, Nat.shiftLeft_eq]
    omega
  obtain ⟨ebdaEnd, ended, ebdaEndIs⟩ :
      ∃ ebdaEnd, checkedAdd ((seg.setWidth 64 : U64) <<< 4) 0x400 = some ebdaEnd ∧ _ :=
    exists_checkedAdd (by rw [ebda]; show _ + 0x400 < _; omega)
  have ebdaEndNat : ebdaEnd.toNat = ((seg.setWidth 64 : U64) <<< 4).toNat + 16 * 64 := ebdaEndIs
  have inEbda := scanLoop_eq memory window 64 _ ebdaEndNat (by rw [ebdaEndNat]; omega)
  have inBios := scanLoop_eq memory window 0x2000 0xE0000
    (show (0x100000 : U64).toNat = (0xE0000 : U64).toNat + 16 * 0x2000 by simp) (by simp)
  have biosStart : (0xE0000 : U64).toNat = 0xE0000 := by simp
  rw [biosStart] at inBios
  rw [ebda] at inEbda
  rw [findRsdp, segIs, rsdpCandidates, List.find?_append, added]
  simp only [Option.bind_eq_bind, Option.bind_some, segRead, ended, inEbda, inBios]
  cases (List.range' (seg.toNat * 16) 64 16).find? (isRsdp memory physOffset) with
  | none => simp only [Option.map_none, Option.none_or]
  | some address => simp only [Option.map_some, Option.some_or, Option.pure_def]

/-- The RSDP that is found is the first with the signature, in the EBDA before the BIOS area. -/
theorem parseMadt_scan (memory : Memory) (window : physOffset.toNat + 2 ^ 33 < 2 ^ 64) :
    parseMadt memory physOffset none =
      (((rsdpCandidates (readU16 memory (physOffset.toNat + 0x40E))).find?
        (isRsdp memory physOffset)).elim (some []) fun address =>
          readRsdp memory physOffset (BitVec.ofNat 64 address)) := by
  rw [parseMadt, findRsdp_eq window]
  cases (rsdpCandidates (readU16 memory (physOffset.toNat + 0x40E))).find?
      (isRsdp memory physOffset) with
  | none => rfl
  | some address => rfl

end

/-! ## The tables -/

section

variable {memory : Memory} {physOffset : U64} {acpi : AcpiTables}

theorem setWidth_toNat (word : U32) : (word.setWidth 64 : U64).toNat = word.toNat := by
  have bound := word.isLt
  rw [BitVec.toNat_setWidth, Nat.mod_eq_of_lt (by omega)]

theorem setWidth_eq_zero_iff (word : U32) : (word.setWidth 64 : U64) = 0 ↔ word = 0 := by
  rw [← BitVec.toNat_inj, setWidth_toNat, ← BitVec.toNat_inj]
  rfl

theorem tableLoop_turn (window : physOffset.toNat + 2 ^ 33 < 2 ^ 64) {rsdtVirt : U64}
    (rsdtIs : rsdtVirt.toNat = physOffset.toNat + acpi.rsdt.toNat)
    (inMemory : acpi.InMemory memory physOffset) {i : U64} (small : i.toNat < 32) {table : U32}
    (listed : acpi.tables[i.toNat]? = some table) (left : Nat) :
    tableLoop memory physOffset rsdtVirt (left + 1) i =
      if isMadt memory physOffset table then some (some (table.setWidth 64))
      else tableLoop memory physOffset rsdtVirt left (i + 1) := by
  have rsdtLt := acpi.rsdt.isLt
  have tableLt := table.isLt
  have wide := setWidth_toNat table
  have four : (4 : U64).toNat = 4 := rfl
  obtain ⟨first, added, firstIs⟩ : ∃ first, checkedAdd rsdtVirt 36 = some first ∧ _ :=
    exists_checkedAdd (by show _ + 36 < _; omega)
  have firstNat : first.toNat = rsdtVirt.toNat + 36 := firstIs
  have product : (i * 4).toNat = 4 * i.toNat := by
    rw [BitVec.toNat_mul, four]
    omega
  have multiplied : checkedMul i 4 = some (i * 4) := checkedMul_of_lt (by rw [four]; omega)
  obtain ⟨entry, indexed, entryIs⟩ : ∃ entry, checkedAdd first (i * 4) = some entry ∧ _ :=
    exists_checkedAdd (by omega)
  obtain ⟨virt, mapped, virtIs⟩ :
      ∃ virt, checkedAdd physOffset (table.setWidth 64) = some virt ∧ _ :=
    exists_checkedAdd (by omega)
  have read : readU32 memory entry.toNat = table := by
    rw [entryIs, product, firstNat, rsdtIs]
    exact inMemory.tables i.toNat table listed
  rw [tableLoop, added, isMadt]
  simp only [Option.bind_eq_bind, Option.bind_some, multiplied, indexed, read, mapped, virtIs, wide,
    decide_eq_true_eq]
  by_cases zero : table = 0
  · rw [if_pos ((setWidth_eq_zero_iff table).mpr zero), if_neg (fun both => both.1 zero)]
  · rw [if_neg (mt (setWidth_eq_zero_iff table).mp zero)]
    by_cases signed : readBytes memory (physOffset.toNat + table.toNat) 4 = MADT_SIGNATURE
    · rw [if_pos signed, if_pos ⟨zero, signed⟩]
      rfl
    · rw [if_neg signed, if_neg (fun both => signed both.2)]

/-- The loop over the RSDT stops at the first MADT, if there is one. -/
theorem tableLoop_eq (window : physOffset.toNat + 2 ^ 33 < 2 ^ 64) {rsdtVirt : U64}
    (rsdtIs : rsdtVirt.toNat = physOffset.toNat + acpi.rsdt.toNat)
    (inMemory : acpi.InMemory memory physOffset) (left : Nat) (i : U64)
    (inside : i.toNat + left ≤ acpi.tables.length) (small : i.toNat + left ≤ 32) :
    tableLoop memory physOffset rsdtVirt left i =
      some ((((acpi.tables.drop i.toNat).take left).find? (isMadt memory physOffset)).map
        fun table => table.setWidth 64) := by
  induction left generalizing i with
  | zero => rfl
  | succ left inductionHypothesis =>
      have listed := List.getElem?_eq_getElem (by omega : i.toNat < acpi.tables.length)
      have one : (1 : U64).toNat = 1 := rfl
      have next : (i + 1).toNat = i.toNat + 1 := by
        rw [BitVec.toNat_add, one]
        omega
      have later := inductionHypothesis (i + 1) (by omega) (by omega)
      rw [next] at later
      rw [tableLoop_turn window rsdtIs inMemory (by omega) listed, later,
        List.drop_eq_getElem_cons (by omega : i.toNat < acpi.tables.length), List.take_succ_cons]
      cases found : isMadt memory physOffset acpi.tables[i.toNat] with
      | true =>
          rw [if_pos rfl, List.find?_cons_of_pos found]
          rfl
      | false => rw [if_neg (by decide), List.find?_cons_of_neg (by simp [found])]

end

/-! ## The entries -/

section

variable {table : Nat → U8} {len offset : Nat}

theorem walkedIds_turn (header : offset + 2 < len) (positive : entryLength table offset ≠ 0) :
    walkedIds table len offset =
      pushedIds table offset ++ walkedIds table len (offset + entryLength table offset) := by
  rw [walkedIds, walkedIds, entriesFrom_of_header (by omega) positive,
    List.filter_cons_of_pos (by simpa using header), List.flatMap_cons]

theorem walkedIds_end (stopped : len ≤ offset + 2) : walkedIds table len offset = [] := by
  refine (walkedIds_of_stopped ?_).1
  intro entry member
  have behind := le_of_mem_entriesFrom member
  omega

theorem readU32_eq (word : U32) (written : readBytes table offset 4 = toLeBytes 4 word) :
    readU32 table offset = word := by
  have bound := word.isLt
  have bytes : readU32 table offset = fromLeBytes 32 (readBytes table offset 4) := rfl
  rw [bytes, written, fromLeBytes, toLeBytes, leNat_leBytes, Nat.mod_eq_of_lt (by omega),
    BitVec.ofNat_toNat, BitVec.setWidth_eq]

/-- The walk reads an entry as it was written. -/
theorem entry_walked (entry : MadtEntry)
    (written : readBytes table offset entry.bytes.length = entry.bytes) :
    entryLength table offset = entry.bytes.length ∧
      pushedIds table offset = entry.enabledId.toList := by
  cases entry with
  | localApic uid apicId flags =>
      have bytes : readBytes table offset (4 + 4) = [0, 8, uid, apicId] ++ toLeBytes 4 flags :=
        written
      rw [readBytes_append] at bytes
      obtain ⟨front, back⟩ := List.append_inj bytes (by simp [readBytes])
      have header : [table offset, table (offset + 1), table (offset + 2), table (offset + 3)] =
          [0, 8, uid, apicId] := front
      simp only [List.cons.injEq, and_true] at header
      obtain ⟨kind, length, _, id⟩ := header
      have flagsRead := readU32_eq flags back
      refine ⟨by rw [entryLength, length]; rfl, ?_⟩
      simp only [pushedIds, kind, ← flags_enabled_iff, flagsRead, id, true_and, MadtEntry.enabledId]
      split <;> rfl
  | other kind body notLocalApic fits =>
      have bytes : readBytes table offset (2 + body.length) =
          [kind, BitVec.ofNat 8 (body.length + 2)] ++ body := by
        rw [Nat.add_comm]
        exact written
      rw [readBytes_append] at bytes
      obtain ⟨front, _⟩ := List.append_inj bytes (by simp [readBytes])
      have header : [table offset, table (offset + 1)] =
          [kind, BitVec.ofNat 8 (body.length + 2)] := front
      simp only [List.cons.injEq, and_true] at header
      obtain ⟨kindIs, length⟩ := header
      constructor
      · rw [entryLength, length, BitVec.toNat_ofNat, Nat.mod_eq_of_lt fits]
        rfl
      · rw [pushedIds, kindIs, if_neg (fun both => notLocalApic both.1)]
        rfl

theorem walkedIds_entries (entries : List MadtEntry) (offset : Nat)
    (written : readBytes table offset (entries.flatMap MadtEntry.bytes).length =
      entries.flatMap MadtEntry.bytes)
    (ends : len = offset + (entries.flatMap MadtEntry.bytes).length) :
    walkedIds table len offset = entries.filterMap MadtEntry.enabledId := by
  induction entries generalizing offset with
  | nil =>
      rw [List.flatMap_nil, List.length_nil] at ends
      exact walkedIds_end (by omega)
  | cons entry rest inductionHypothesis =>
      rw [List.flatMap_cons, List.length_append] at ends written
      rw [readBytes_append] at written
      obtain ⟨first, later⟩ := List.append_inj written (by simp [readBytes])
      obtain ⟨length, pushed⟩ := entry_walked entry first
      have header : 2 ≤ entry.bytes.length := by
        cases entry <;> simp [MadtEntry.bytes]
      have rest := inductionHypothesis (offset + entry.bytes.length) later (by omega)
      by_cases inside : offset + 2 < len
      · rw [walkedIds_turn inside (by omega), pushed, length, rest, List.filterMap_cons]
        cases entry.enabledId <;> rfl
      · -- an entry of two bytes at the end of the table is not looked at
        have none : entry.enabledId = none := by
          cases entry with
          | localApic uid apicId flags =>
              simp only [MadtEntry.bytes, List.length_append, List.length_cons] at ends
              omega
          | other kind body notLocalApic fits => rfl
        rw [walkedIds_end (by omega), List.filterMap_cons, none, ← rest, walkedIds_end (by omega)]

end

/-! ## The processors -/

section

variable {memory : Memory} {physOffset : U64} {acpi : AcpiTables}

theorem readMadt_eq (window : physOffset.toNat + 2 ^ 33 < 2 ^ 64) {madt : U32}
    {entries : List MadtEntry} (inMemory : MadtInMemory memory physOffset madt entries) :
    readMadt memory physOffset (madt.setWidth 64) =
      some (entries.filterMap MadtEntry.enabledId) := by
  have madtLt := madt.isLt
  have wide := setWidth_toNat madt
  obtain ⟨virt, mapped, virtIs⟩ :
      ∃ virt, checkedAdd physOffset (madt.setWidth 64) = some virt ∧ _ :=
    exists_checkedAdd (by omega)
  obtain ⟨lenPtr, added, lenPtrIs⟩ : ∃ lenPtr, checkedAdd virt 4 = some lenPtr ∧ _ :=
    exists_checkedAdd (by show _ + 4 < _; omega)
  have lenPtrNat : lenPtr.toNat = physOffset.toNat + madt.toNat + 4 := by
    rw [lenPtrIs, virtIs, wide]
    rfl
  have start : (44 : U64).toNat = 44 := rfl
  obtain ⟨reads, walked, _⟩ := entryLoop_walks (fun offset => memory (virt.toNat + offset))
    (readU32 memory lenPtr.toNat) ((readU32 memory lenPtr.toNat).toNat + 1) 44 [] []
    (Nat.succ_pos _) (by omega) (by rw [start]; norm_num)
  have written : readBytes (fun offset => memory (virt.toNat + offset)) 44
      (entries.flatMap MadtEntry.bytes).length = entries.flatMap MadtEntry.bytes := by
    have stored := inMemory.entries
    rw [← wide, ← virtIs] at stored
    rw [readBytes] at stored ⊢
    simpa only [Nat.add_assoc] using stored
  have ids := walkedIds_entries entries 44 written inMemory.length
  rw [← lenPtrNat] at ids
  rw [start, ids, List.nil_append] at walked
  rw [readMadt, mapped]
  simp only [Option.bind_eq_bind, Option.bind_some, added, parseMadtEntries, walked]
  rfl

/-- Of the tables of the RSDT the first 32 are looked at. -/
theorem readRsdp_eq (window : physOffset.toNat + 2 ^ 33 < 2 ^ 64)
    (inMemory : acpi.InMemory memory physOffset) :
    readRsdp memory physOffset acpi.rsdp =
      ((acpi.tables.take 32).find? (isMadt memory physOffset)).elim (some []) fun madt =>
        readMadt memory physOffset (madt.setWidth 64) := by
  have rsdtLt := acpi.rsdt.isLt
  have rsdtWide := setWidth_toNat acpi.rsdt
  have inWindow := inMemory.rsdpInWindow
  have zero : (0 : U64).toNat = 0 := rfl
  obtain ⟨rsdpVirt, mapped, rsdpVirtIs⟩ :
      ∃ virt, checkedAdd physOffset acpi.rsdp = some virt ∧ _ :=
    exists_checkedAdd (by omega)
  obtain ⟨rsdtPtr, added, rsdtPtrIs⟩ : ∃ ptr, checkedAdd rsdpVirt 16 = some ptr ∧ _ :=
    exists_checkedAdd (by show _ + 16 < _; omega)
  have rsdt : readU32 memory rsdtPtr.toNat = acpi.rsdt := by
    rw [rsdtPtrIs, rsdpVirtIs]
    exact inMemory.rsdt
  obtain ⟨rsdtVirt, rsdtMapped, rsdtVirtIs⟩ :
      ∃ virt, checkedAdd physOffset (acpi.rsdt.setWidth 64) = some virt ∧ _ :=
    exists_checkedAdd (by omega)
  obtain ⟨lenPtr, lenAdded, lenPtrIs⟩ : ∃ ptr, checkedAdd rsdtVirt 4 = some ptr ∧ _ :=
    exists_checkedAdd (by show _ + 4 < _; omega)
  have length : (readU32 memory lenPtr.toNat).toNat = 36 + 4 * acpi.tables.length := by
    rw [lenPtrIs, rsdtVirtIs, rsdtWide]
    exact inMemory.rsdtLength
  have counted : (36 + 4 * acpi.tables.length - 36) / 4 = acpi.tables.length := by omega
  have searched := tableLoop_eq window (rsdtVirtIs.trans (by rw [rsdtWide])) inMemory
    (min acpi.tables.length 32) 0 (by rw [zero]; omega) (by rw [zero]; omega)
  have looked : (acpi.tables.drop 0).take (min acpi.tables.length 32) = acpi.tables.take 32 := by
    rw [List.drop_zero, Nat.min_comm, ← List.take_eq_take_min]
  rw [zero, looked] at searched
  rw [readRsdp, mapped]
  simp only [Option.bind_eq_bind, Option.bind_some, added, rsdt, rsdtMapped, lenAdded, length,
    counted, searched]
  cases (acpi.tables.take 32).find? (isMadt memory physOffset) with
  | none => rfl
  | some madt => rfl

/-- `parse_madt` finds the processors the firmware's tables describe: the enabled ones, in their
order, of the first MADT among the first 32 tables of the RSDP that the boot loader found, and
no processor if there is none.  Without an RSDP from the boot loader it takes the first of the
places with the signature, and finds no processor if there is none. -/
theorem parse_madt_finds_processors (memory : Memory) (physOffset : U64)
    (window : physOffset.toNat + 2 ^ 33 < 2 ^ 64) :
    (∀ acpi : AcpiTables, acpi.InMemory memory physOffset → ∀ madt entries,
      (acpi.tables.take 32).find? (isMadt memory physOffset) = some madt →
      MadtInMemory memory physOffset madt entries →
      parseMadt memory physOffset (some acpi.rsdp) =
        some (entries.filterMap MadtEntry.enabledId)) ∧
    (∀ acpi : AcpiTables, acpi.InMemory memory physOffset →
      (∀ table ∈ acpi.tables.take 32, isMadt memory physOffset table = false) →
      parseMadt memory physOffset (some acpi.rsdp) = some []) ∧
    (∀ address, (rsdpCandidates (readU16 memory (physOffset.toNat + 0x40E))).find?
        (isRsdp memory physOffset) = some address →
      parseMadt memory physOffset none =
        parseMadt memory physOffset (some (BitVec.ofNat 64 address))) ∧
    ((∀ address ∈ rsdpCandidates (readU16 memory (physOffset.toNat + 0x40E)),
        isRsdp memory physOffset address = false) →
      parseMadt memory physOffset none = some []) := by
  have scanned := parseMadt_scan memory window
  refine ⟨?_, ?_, ?_, ?_⟩
  · intro acpi inMemory madt entries first madtInMemory
    have read := readRsdp_eq window inMemory
    rw [first] at read
    exact read.trans (readMadt_eq window madtInMemory)
  · intro acpi inMemory absent
    have read := readRsdp_eq window inMemory
    rw [List.find?_eq_none.mpr (by simpa using absent)] at read
    exact read
  · intro address found
    rw [found] at scanned
    exact scanned
  · intro absent
    rw [List.find?_eq_none.mpr (by simpa using absent)] at scanned
    exact scanned

end

/-- An RSDT of three tables, of which the first is a gap and the last the MADT. -/
def threeTables : AcpiTables where
  rsdp := 0xE0010
  rsdt := 0x7000
  tables := [0, 0x8000, 0x9000]

/-- Three processors, one of them disabled, and an I/O APIC between them. -/
def threeProcessors : List MadtEntry :=
  [.localApic 0 0 1, .localApic 1 1 0,
    .other 1 [0, 0, 0, 0, 0xC0, 0xFE, 0, 0, 0, 0] (by decide) (by decide), .localApic 2 2 1]

/-- The tables as they are in memory, which is mapped at `0x10000000000`. -/
def threeProcessorsMemory : Memory := fun address =>
  let physical := address - 0x10000000000
  if 0xE0010 ≤ physical then
    (RSDP_SIGNATURE ++ [0, 0, 0, 0, 0, 0, 0, 0] ++ toLeBytes 4 (0x7000 : U32)).getD
      (physical - 0xE0010) 0
  else if 0x9000 ≤ physical then
    (MADT_SIGNATURE ++ toLeBytes 4 (80 : U32) ++ List.replicate 36 0 ++
      threeProcessors.flatMap MadtEntry.bytes).getD (physical - 0x9000) 0
  else
    (List.replicate 4 0 ++ toLeBytes 4 (48 : U32) ++ List.replicate 28 0 ++
      toLeBytes 4 (0 : U32) ++ toLeBytes 4 (0x8000 : U32) ++ toLeBytes 4 (0x9000 : U32)).getD
      (physical - 0x7000) 0

theorem threeTables_inMemory : threeTables.InMemory threeProcessorsMemory 0x10000000000 where
  rsdpInWindow := by decide
  rsdt := by decide
  rsdtLength := by decide
  tables := by
    intro i table listed
    have inside : i < 3 := (List.getElem?_eq_some_iff.mp listed).1
    interval_cases i <;> cases listed <;> decide

theorem threeProcessors_inMemory :
    MadtInMemory threeProcessorsMemory 0x10000000000 0x9000 threeProcessors where
  length := by decide
  entries := by decide

theorem parse_madt_finds_processors_three :
    parseMadt threeProcessorsMemory 0x10000000000 (some 0xE0010) = some [0, 2] ∧
      parseMadt threeProcessorsMemory 0x10000000000 none = some [0, 2] := by
  obtain ⟨found, _, scanned, _⟩ := parse_madt_finds_processors threeProcessorsMemory 0x10000000000
    (by decide)
  have first := found threeTables threeTables_inMemory 0x9000 threeProcessors (by decide)
    threeProcessors_inMemory
  exact ⟨first, (scanned 0xE0010 (by decide)).trans first⟩

end AxiomKernel.Smp
