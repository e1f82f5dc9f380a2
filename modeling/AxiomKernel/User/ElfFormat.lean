import Mathlib
import AxiomKernel.Lib.Bytes
import AxiomKernel.Lib.Words
import AxiomKernel.Lib.Slices
import AxiomKernel.Lib.ByteMemory
import AxiomKernel.Lib.TwoRun
import AxiomKernel.Memory.Paging
import AxiomKernel.User.ElfLoader

/-!
# The ELF-64 file format

What a file says, in the terms of the format: the fields of its headers are
natural numbers, so sums of them do not wrap, and a program header covers pages
and gives their bytes.  `elfHeader_eq` and `programHeader_eq` say what the
loader makes of the headers in these terms, panics included.
-/

set_option autoImplicit false

namespace AxiomKernel.User

open ByteStrings ByteSlices MachineWords ByteMemory TwoRuns Memory

/-! ## Fields -/

/-- The little-endian number in the `width` bytes at `offset`. -/
def numberAt (bytes : List U8) (offset width : Nat) : Nat :=
  leNat ((bytes.drop offset).take width)

theorem numberAt_lt (bytes : List U8) (offset width : Nat) :
    numberAt bytes offset width < 256 ^ width := by
  have bound := leNat_lt ((bytes.drop offset).take width)
  have short : ((bytes.drop offset).take width).length ≤ width := List.length_take_le _ _
  exact lt_of_lt_of_le bound (Nat.pow_le_pow_right (by decide) short)

theorem readLe_of_le {w : Nat} {bytes : List U8} {offset : Nat}
    (inside : offset + w / 8 ≤ bytes.length) :
    readLe w bytes offset = some (BitVec.ofNat w (numberAt bytes offset (w / 8))) := by
  rw [readLe, readRange, if_pos ⟨Nat.le_add_right _ _, inside⟩, Nat.add_sub_cancel_left]
  rfl

theorem readLe_of_lt {w : Nat} {bytes : List U8} {offset : Nat}
    (outside : bytes.length < offset + w / 8) : readLe w bytes offset = none := by
  rw [readLe, readRange, if_neg (by omega)]
  rfl

/-! ## The file header -/

def entryPoint (bytes : List U8) : Nat := numberAt bytes 24 8
def headerTable (bytes : List U8) : Nat := numberAt bytes 32 8
def headerSize (bytes : List U8) : Nat := numberAt bytes 54 2
def headerCount (bytes : List U8) : Nat := numberAt bytes 56 2

def fileHeader (bytes : List U8) : ElfHeader where
  entry := BitVec.ofNat 64 (entryPoint bytes)
  phoff := BitVec.ofNat 64 (headerTable bytes)
  phentsize := BitVec.ofNat 64 (headerSize bytes)
  phnum := headerCount bytes

theorem headerSize_lt (bytes : List U8) : headerSize bytes < 2 ^ 16 := numberAt_lt bytes 54 2

theorem headerCount_lt (bytes : List U8) : headerCount bytes < 2 ^ 16 := numberAt_lt bytes 56 2

/-- An ELF-64 file, little-endian, an executable for x86-64. -/
structure IsExecutable (bytes : List U8) : Prop where
  long : 64 ≤ bytes.length
  magic : bytes.take 4 = [0x7f, 0x45, 0x4c, 0x46]
  class64 : bytes[4]? = some 2
  littleEndian : bytes[5]? = some 1
  machine : numberAt bytes 18 2 = 62
  executable : numberAt bytes 16 2 = 2

/-- Everything that reading the file header can do; it never panics. -/
theorem elfHeader_eq (bytes : List U8) :
    elfHeader bytes =
      if bytes.length < 64 then some (.error .tooShort)
      else if bytes.take 4 ≠ [0x7f, 0x45, 0x4c, 0x46] then some (.error .badMagic)
      else if bytes[4]? ≠ some 2 then some (.error .notElf64)
      else if bytes[5]? ≠ some 1 then some (.error .notLittleEndian)
      else if numberAt bytes 18 2 ≠ 62 then some (.error .notX86_64)
      else if numberAt bytes 16 2 ≠ 2 then some (.error .notExecutable)
      else some (.ok (fileHeader bytes)) := by
  rw [elfHeader]
  by_cases short : bytes.length < 64
  · rw [if_pos short, if_pos short]
    rfl
  · have magic : readRange bytes 0 4 = some (bytes.take 4) := by
      rw [readRange, if_pos ⟨by decide, by omega⟩]
      rfl
    have classRead : readByte bytes 4 = bytes[4]? := rfl
    have dataRead : readByte bytes 5 = bytes[5]? := rfl
    obtain ⟨eiClass, classIs⟩ : ∃ byte, bytes[4]? = some byte :=
      ⟨_, List.getElem?_eq_getElem (by omega)⟩
    obtain ⟨eiData, dataIs⟩ : ∃ byte, bytes[5]? = some byte :=
      ⟨_, List.getElem?_eq_getElem (by omega)⟩
    have size : (BitVec.ofNat 16 (numberAt bytes 54 2)).setWidth 64 =
        BitVec.ofNat 64 (headerSize bytes) := by
      have bound : numberAt bytes 54 2 < 2 ^ 16 := headerSize_lt bytes
      rw [← BitVec.toNat_inj, BitVec.toNat_setWidth, BitVec.toNat_ofNat, BitVec.toNat_ofNat,
        Nat.mod_eq_of_lt bound]
      rfl
    have count : (BitVec.ofNat 16 (numberAt bytes 56 2)).toNat = headerCount bytes := by
      rw [BitVec.toNat_ofNat]
      exact Nat.mod_eq_of_lt (headerCount_lt bytes)
    have half (offset : Nat) (word : U16) :
        BitVec.ofNat 16 (numberAt bytes offset 2) ≠ word ↔ numberAt bytes offset 2 ≠ word.toNat := by
      have bound : numberAt bytes offset 2 < 2 ^ 16 := numberAt_lt bytes offset 2
      rw [ne_eq, ← BitVec.toNat_inj, BitVec.toNat_ofNat, Nat.mod_eq_of_lt bound]
    rw [if_neg short, if_neg short]
    simp only [run_guard, run_lift_bind, magic, classRead, dataRead, classIs, dataIs,
      Option.bind_some, ExceptT.run_pure]
    simp (disch := omega) only [readLe_of_le, Option.bind_some, Nat.reduceDiv, size, count, half]
    simp only [ne_eq, Option.some.injEq]
    rfl

/-- Reading the file header never panics, and an accepted header has the file's fields. -/
theorem elfHeader_cases (bytes : List U8) :
    (∃ failure, elfHeader bytes = some (.error failure)) ∨
      elfHeader bytes = some (.ok (fileHeader bytes)) := by
  rw [elfHeader_eq]
  split_ifs
  · exact Or.inl ⟨_, rfl⟩
  · exact Or.inl ⟨_, rfl⟩
  · exact Or.inl ⟨_, rfl⟩
  · exact Or.inl ⟨_, rfl⟩
  · exact Or.inl ⟨_, rfl⟩
  · exact Or.inl ⟨_, rfl⟩
  · exact Or.inr rfl

theorem elfHeader_ok_iff (bytes : List U8) :
    elfHeader bytes = some (.ok (fileHeader bytes)) ↔ IsExecutable bytes := by
  rw [elfHeader_eq]
  constructor
  · intro accepted
    split_ifs at accepted with short magic class64 littleEndian machine executable
    · cases accepted
    · cases accepted
    · cases accepted
    · cases accepted
    · cases accepted
    · cases accepted
    · exact ⟨Nat.not_lt.mp short, not_not.mp magic, not_not.mp class64, not_not.mp littleEndian,
        not_not.mp machine, not_not.mp executable⟩
  · intro accepted
    rw [if_neg (Nat.not_lt.mpr accepted.long), if_neg (not_not.mpr accepted.magic),
      if_neg (not_not.mpr accepted.class64), if_neg (not_not.mpr accepted.littleEndian),
      if_neg (not_not.mpr accepted.machine), if_neg (not_not.mpr accepted.executable)]

theorem eq_fileHeader {bytes : List U8} {header : ElfHeader}
    (parsed : elfHeader bytes = some (.ok header)) : header = fileHeader bytes := by
  rcases elfHeader_cases bytes with ⟨failure, refused⟩ | accepted
  · cases parsed.symm.trans refused
  · exact Except.ok.inj (Option.some.inj (parsed.symm.trans accepted))

/-! ## Program headers -/

structure ProgramHeader where
  type : Nat
  flags : Nat
  offset : Nat
  vaddr : Nat
  filesz : Nat
  memsz : Nat

namespace ProgramHeader

variable (header : ProgramHeader)

/-- A user page, writable with `PF_W` and executable with `PF_X` only. -/
def pageFlags : PageTableFlags where
  present := true
  userAccessible := true
  writable := header.flags.testBit 1
  noExecute := !header.flags.testBit 0

/-- `p_vaddr` rounded down to a page. -/
def firstPage : Nat := header.vaddr / 4096 * 4096

/-- `p_vaddr + p_memsz` rounded up to a page. -/
def pagesEnd : Nat := (header.vaddr + header.memsz + 4095) / 4096 * 4096

def Covers (address : Nat) : Prop := header.firstPage ≤ address ∧ address < header.pagesEnd

/-- The byte at `address`: from the file as far as `p_filesz` reaches, then zero. -/
def imageByte (bytes : List U8) (address : Nat) : Option U8 :=
  if header.vaddr ≤ address ∧ address < header.vaddr + header.filesz then
    bytes[header.offset + (address - header.vaddr)]?
  else some 0

/-- What the loader works with. -/
def segment (bytes : List U8) : Segment where
  flags := header.pageFlags
  data := (bytes.drop header.offset).take header.filesz
  vaddr := BitVec.ofNat 64 header.vaddr
  filesz := BitVec.ofNat 64 header.filesz
  startPage := BitVec.ofNat 64 header.firstPage
  endPage := BitVec.ofNat 64 header.pagesEnd

end ProgramHeader

def programHeaderAt (bytes : List U8) (start : Nat) : ProgramHeader where
  type := numberAt bytes start 4
  flags := numberAt bytes (start + 4) 4
  offset := numberAt bytes (start + 8) 8
  vaddr := numberAt bytes (start + 16) 8
  filesz := numberAt bytes (start + 32) 8
  memsz := numberAt bytes (start + 40) 8

/-- Where program header `i` starts in the file. -/
def headerStart (bytes : List U8) (i : Nat) : Nat := headerTable bytes + i * headerSize bytes

def programHeaders (bytes : List U8) : List ProgramHeader :=
  (List.range (headerCount bytes)).map fun i => programHeaderAt bytes (headerStart bytes i)

/-- The `PT_LOAD` headers in the order of the file. -/
def loadHeaders (bytes : List U8) : List ProgramHeader :=
  (programHeaders bytes).filter fun header => header.type = 1

theorem programHeaderAt_lt (bytes : List U8) (start : Nat) :
    (programHeaderAt bytes start).offset < 2 ^ 64 ∧ (programHeaderAt bytes start).vaddr < 2 ^ 64 ∧
      (programHeaderAt bytes start).filesz < 2 ^ 64 ∧
      (programHeaderAt bytes start).memsz < 2 ^ 64 :=
  ⟨numberAt_lt bytes _ 8, numberAt_lt bytes _ 8, numberAt_lt bytes _ 8, numberAt_lt bytes _ 8⟩

/-! ## What the loader reads -/

theorem pageFlags_numberAt (bytes : List U8) (start : Nat) :
    pageFlags (BitVec.ofNat 32 (numberAt bytes (start + 4) 4)) =
      (programHeaderAt bytes start).pageFlags := by
  have writable (flags : U32) : (flags &&& PF_W ≠ 0) ↔ flags.getLsbD 1 = true := by
    rw [show PF_W = BitVec.twoPow 32 1 from rfl, BitVec.and_twoPow]
    cases flags.getLsbD 1 <;> decide
  have executable (flags : U32) : (flags &&& PF_X = 0) ↔ flags.getLsbD 0 = false := by
    rw [show PF_X = BitVec.twoPow 32 0 from rfl, BitVec.and_twoPow]
    cases flags.getLsbD 0 <;> decide
  simp only [pageFlags, ProgramHeader.pageFlags, writable, executable, BitVec.getLsbD_ofNat,
    programHeaderAt]
  generalize numberAt bytes (start + 4) 4 = flags
  cases flags.testBit 0 <;> cases flags.testBit 1 <;> rfl

/-- The position of program header `i`. -/
theorem headerPosition_eq {α : Type} (bytes : List U8) {i : Nat} (listed : i < headerCount bytes)
    (next : U64 → U64 → Option α) :
    ((checkedMul (BitVec.ofNat 64 i) (fileHeader bytes).phentsize).bind fun index =>
      (checkedAdd (fileHeader bytes).phoff index).bind fun off =>
        (checkedAdd off (fileHeader bytes).phentsize).bind fun offEnd => next off offEnd) =
      if 2 ^ 64 ≤ headerStart bytes i + headerSize bytes then none
      else next (BitVec.ofNat 64 (headerStart bytes i))
        (BitVec.ofNat 64 (headerStart bytes i + headerSize bytes)) := by
  have tableLt : headerTable bytes < 2 ^ 64 := numberAt_lt bytes 32 8
  have sizeLt := headerSize_lt bytes
  have countLt := headerCount_lt bytes
  have product : i * headerSize bytes ≤ (2 ^ 16 - 1) * (2 ^ 16 - 1) :=
    Nat.mul_le_mul (by omega) (by omega)
  have index : checkedMul (BitVec.ofNat 64 i) (fileHeader bytes).phentsize =
      some (BitVec.ofNat 64 (i * headerSize bytes)) :=
    checkedMul_ofNat (by omega) (by omega) (by omega)
  have offset : checkedAdd (fileHeader bytes).phoff (BitVec.ofNat 64 (i * headerSize bytes)) =
      if headerStart bytes i < 2 ^ 64 then some (BitVec.ofNat 64 (headerStart bytes i)) else none :=
    checkedAdd_ofNat tableLt (by omega)
  rw [index, Option.bind_some, offset]
  by_cases startFits : headerStart bytes i < 2 ^ 64
  · have ending : checkedAdd (BitVec.ofNat 64 (headerStart bytes i)) (fileHeader bytes).phentsize =
        if headerStart bytes i + headerSize bytes < 2 ^ 64 then
          some (BitVec.ofNat 64 (headerStart bytes i + headerSize bytes)) else none :=
      checkedAdd_ofNat startFits (by omega)
    rw [if_pos startFits, Option.bind_some, ending]
    by_cases endFits : headerStart bytes i + headerSize bytes < 2 ^ 64
    · rw [if_pos endFits, if_neg (Nat.not_le.mpr endFits), Option.bind_some]
    · rw [if_neg endFits, if_pos (Nat.not_lt.mp endFits), Option.bind_none]
  · rw [if_neg startFits, if_pos (by omega), Option.bind_none]

/-- The fields after the type are read whatever `e_phentsize` says. -/
theorem headerFields_eq {α : Type} (bytes : List U8) (start : Nat)
    (next : U32 → U64 → U64 → U64 → U64 → Option α) :
    ((readLe 32 bytes (start + 4)).bind fun pFlags =>
      (readLe 64 bytes (start + 8)).bind fun pOffset =>
        (readLe 64 bytes (start + 16)).bind fun pVaddr =>
          (readLe 64 bytes (start + 32)).bind fun pFilesz =>
            (readLe 64 bytes (start + 40)).bind fun pMemsz =>
              (readLe 64 bytes (start + 48)).bind fun _ =>
                next pFlags pOffset pVaddr pFilesz pMemsz) =
      if bytes.length < start + 56 then none
      else next (BitVec.ofNat 32 (programHeaderAt bytes start).flags)
        (BitVec.ofNat 64 (programHeaderAt bytes start).offset)
        (BitVec.ofNat 64 (programHeaderAt bytes start).vaddr)
        (BitVec.ofNat 64 (programHeaderAt bytes start).filesz)
        (BitVec.ofNat 64 (programHeaderAt bytes start).memsz) := by
  by_cases truncated : bytes.length < start + 56
  · have alignment : readLe 64 bytes (start + 48) = none := readLe_of_lt truncated
    rw [if_pos truncated, alignment]
    simp only [Option.bind_none, Option.bind_fun_none]
  · rw [if_neg truncated]
    simp (disch := omega) only [readLe_of_le, Option.bind_some]
    rfl

/-- The two range checks, on sums that must not overflow, and the segment. -/
theorem headerSegment_eq {bytes : List U8} {start : Nat} {header : ProgramHeader}
    (read : programHeaderAt bytes start = header) :
    ((checkedAdd (BitVec.ofNat 64 header.offset) (BitVec.ofNat 64 header.filesz)).bind fun fileEnd =>
      if bytes.length < fileEnd.toNat then some (.error ElfError.segmentOutOfBounds)
      else (readRange bytes (BitVec.ofNat 64 header.offset).toNat fileEnd.toNat).bind fun data =>
        (checkedAdd (BitVec.ofNat 64 header.vaddr) (BitVec.ofNat 64 header.memsz)).bind fun endAddr =>
          (checkedAdd endAddr 0xFFF).bind fun endRounded =>
            some (Except.ok (some ⟨pageFlags (BitVec.ofNat 32 header.flags), data,
              BitVec.ofNat 64 header.vaddr, BitVec.ofNat 64 header.filesz,
              alignDown (BitVec.ofNat 64 header.vaddr), alignDown endRounded⟩))) =
      if 2 ^ 64 ≤ header.offset + header.filesz then none
      else if bytes.length < header.offset + header.filesz then some (.error .segmentOutOfBounds)
      else if 2 ^ 64 ≤ header.vaddr + header.memsz + 4095 then none
      else some (.ok (some (header.segment bytes))) := by
  obtain ⟨offsetLt, vaddrLt, fileszLt, memszLt⟩ := programHeaderAt_lt bytes start
  have flags : pageFlags (BitVec.ofNat 32 (programHeaderAt bytes start).flags) =
    (programHeaderAt bytes start).pageFlags := pageFlags_numberAt bytes start
  rw [read] at offsetLt vaddrLt fileszLt memszLt flags
  rw [checkedAdd_ofNat offsetLt fileszLt, checkedAdd_ofNat vaddrLt memszLt, flags]
  by_cases fileOverflow : 2 ^ 64 ≤ header.offset + header.filesz
  · rw [if_pos fileOverflow, if_neg (by omega), Option.bind_none]
  rw [if_neg fileOverflow, if_pos (by omega), Option.bind_some, BitVec.toNat_ofNat,
    Nat.mod_eq_of_lt (by omega), BitVec.toNat_ofNat, Nat.mod_eq_of_lt (by omega)]
  by_cases outside : bytes.length < header.offset + header.filesz
  · rw [if_pos outside, if_pos outside]
  have data : readRange bytes header.offset (header.offset + header.filesz) =
      some ((bytes.drop header.offset).take header.filesz) := by
    rw [readRange, if_pos ⟨by omega, by omega⟩, Nat.add_sub_cancel_left]
  rw [if_neg outside, if_neg outside, data, Option.bind_some]
  by_cases endFits : header.vaddr + header.memsz < 2 ^ 64
  · have rounded : checkedAdd (BitVec.ofNat 64 (header.vaddr + header.memsz)) 0xFFF =
        if header.vaddr + header.memsz + 4095 < 2 ^ 64 then
          some (BitVec.ofNat 64 (header.vaddr + header.memsz + 4095)) else none :=
      checkedAdd_ofNat endFits (by decide)
    rw [if_pos endFits, Option.bind_some, rounded]
    by_cases roundFits : header.vaddr + header.memsz + 4095 < 2 ^ 64
    · rw [if_pos roundFits, if_neg (Nat.not_le.mpr roundFits), Option.bind_some,
        alignDown_ofNat vaddrLt, alignDown_ofNat roundFits]
      rfl
    · rw [if_neg roundFits, if_pos (Nat.not_lt.mp roundFits), Option.bind_none]
  · rw [if_neg endFits, if_pos (by omega), Option.bind_none]

/-- Everything that reading program header `i` can do. -/
theorem programHeader_eq (bytes : List U8) {i : Nat} (listed : i < headerCount bytes) :
    programHeader bytes (fileHeader bytes) i =
      let start := headerStart bytes i
      let header := programHeaderAt bytes start
      if 2 ^ 64 ≤ start + headerSize bytes then none
      else if bytes.length < start + headerSize bytes then some (.error .badPhOffset)
      else if bytes.length < start + 4 then none
      else if header.type ≠ 1 then some (.ok none)
      else if bytes.length < start + 56 then none
      else if 2 ^ 64 ≤ header.offset + header.filesz then none
      else if bytes.length < header.offset + header.filesz then some (.error .segmentOutOfBounds)
      else if 2 ^ 64 ≤ header.vaddr + header.memsz + 4095 then none
      else some (.ok (some (header.segment bytes))) := by
  simp only [programHeader, run_guard, run_lift_bind]
  rw [headerPosition_eq bytes listed]
  generalize headerStart bytes i = start
  by_cases overflow : 2 ^ 64 ≤ start + headerSize bytes
  · rw [if_pos overflow, if_pos overflow]
  rw [if_neg overflow, if_neg overflow, BitVec.toNat_ofNat, Nat.mod_eq_of_lt (by omega),
    BitVec.toNat_ofNat, Nat.mod_eq_of_lt (by omega)]
  by_cases outside : bytes.length < start + headerSize bytes
  · rw [if_pos outside, if_pos outside]
  rw [if_neg outside, if_neg outside]
  by_cases noType : bytes.length < start + 4
  · have type : readLe 32 bytes start = none := readLe_of_lt noType
    rw [if_pos noType, type, Option.bind_none]
  have type : readLe 32 bytes start = some (BitVec.ofNat 32 (programHeaderAt bytes start).type) :=
    readLe_of_le (Nat.not_lt.mp noType)
  have isLoad : BitVec.ofNat 32 (programHeaderAt bytes start).type ≠ PT_LOAD ↔
      (programHeaderAt bytes start).type ≠ 1 := by
    have typeLt : (programHeaderAt bytes start).type < 2 ^ 32 := numberAt_lt bytes start 4
    rw [ne_eq, ← BitVec.toNat_inj, BitVec.toNat_ofNat, Nat.mod_eq_of_lt typeLt]
    rfl
  rw [if_neg noType, type, Option.bind_some]
  by_cases otherType : (programHeaderAt bytes start).type ≠ 1
  · rw [if_pos otherType, if_pos (isLoad.mpr otherType)]
    rfl
  rw [if_neg otherType, if_neg (mt isLoad.mp otherType)]
  simp only [run_guard, run_lift_bind, ExceptT.run_pure]
  rw [headerFields_eq, ← headerSegment_eq rfl]
  rfl

/-! ## The bytes of a page -/

/-- The part of the segment that falls into a page, in numbers. -/
theorem pageContents_eq (segment : Segment) {vpage : U64} (pageFits : vpage.toNat + 4096 < 2 ^ 64) :
    pageContents segment vpage =
      let copyStart := max segment.vaddr.toNat vpage.toNat
      let copyEnd := min (segment.vaddr.toNat + segment.filesz.toNat) (vpage.toNat + 4096)
      if 2 ^ 64 ≤ segment.vaddr.toNat + segment.filesz.toNat then none
      else if copyStart < copyEnd then
        (readRange segment.data (copyStart - segment.vaddr.toNat) segment.data.length).map fun src =>
          (copyStart - vpage.toNat, src.take (copyEnd - copyStart))
      else some (0, []) := by
  have pageEnd : (vpage + 4096).toNat = vpage.toNat + 4096 := by
    rw [BitVec.toNat_add]
    exact Nat.mod_eq_of_lt pageFits
  rw [pageContents, checkedAdd_of_lt pageFits, Option.bind_eq_bind, Option.bind_some, checkedAdd]
  by_cases overflow : 2 ^ 64 ≤ segment.vaddr.toNat + segment.filesz.toNat
  · rw [if_pos overflow, if_neg (Nat.not_lt.mpr overflow)]
    rfl
  have fileEnd : (segment.vaddr + segment.filesz).toNat =
      segment.vaddr.toNat + segment.filesz.toNat := by
    rw [BitVec.toNat_add]
    exact Nat.mod_eq_of_lt (Nat.not_le.mp overflow)
  have copyStart := toNat_ite_max segment.vaddr vpage
  have copyEnd := toNat_ite_min (segment.vaddr + segment.filesz) (vpage + 4096)
  rw [if_neg overflow, if_pos (Nat.not_le.mp overflow), Option.bind_eq_bind, Option.bind_some]
  generalize (if segment.vaddr ≤ vpage then vpage else segment.vaddr) = start at copyStart ⊢
  generalize (if segment.vaddr + segment.filesz ≤ vpage + 4096 then segment.vaddr + segment.filesz
    else vpage + 4096) = stop at copyEnd ⊢
  rw [fileEnd, pageEnd] at copyEnd
  simp only [BitVec.lt_def, ← copyStart, ← copyEnd]
  by_cases copies : start.toNat < stop.toNat
  · have afterVaddr : segment.vaddr ≤ start := by rw [BitVec.le_def]; omega
    have afterPage : vpage ≤ start := by rw [BitVec.le_def]; omega
    rw [if_pos copies, if_pos copies, BitVec.toNat_sub_of_le afterVaddr,
      BitVec.toNat_sub_of_le afterPage, BitVec.toNat_sub_of_le (BitVec.le_of_lt copies),
      Option.map_eq_bind]
    rfl
  · rw [if_neg copies, if_neg copies]

/-- The copied part stays inside the page. -/
theorem pageContents_length {segment : Segment} {vpage : U64} {dstOff : Nat} {contents : List U8}
    (parsed : pageContents segment vpage = some (dstOff, contents)) :
    dstOff + contents.length ≤ 4096 := by
  have pageFits : vpage.toNat + 4096 < 2 ^ 64 := by
    rw [pageContents, Option.bind_eq_bind, Option.bind_eq_some_iff] at parsed
    obtain ⟨pageEnd, added, -⟩ := parsed
    have bound := pageEnd.isLt
    have sum : pageEnd.toNat = vpage.toNat + 4096 := (checkedAdd_eq_some_iff _ _ _).mp added
    omega
  rw [pageContents_eq segment pageFits] at parsed
  dsimp only at parsed
  split_ifs at parsed with overflow copies
  · obtain ⟨src, -, copied⟩ := Option.map_eq_some_iff.mp parsed
    obtain ⟨rfl, rfl⟩ := Prod.mk.inj copied
    have taken := List.length_take_le (min (segment.vaddr.toNat + segment.filesz.toNat)
      (vpage.toNat + 4096) - max segment.vaddr.toNat vpage.toNat) src
    omega
  · obtain ⟨rfl, rfl⟩ := Prod.mk.inj (Option.some.inj parsed)
    exact Nat.zero_le _

/-- The part of the file that falls into the page at `vpage`. -/
theorem pageContents_segment {bytes : List U8} {header : ProgramHeader} {vpage : Nat}
    (vaddrLt : header.vaddr < 2 ^ 64) (fileszLt : header.filesz < 2 ^ 64)
    (inside : header.offset + header.filesz ≤ bytes.length) (pageFits : vpage + 4096 < 2 ^ 64) :
    pageContents (header.segment bytes) (BitVec.ofNat 64 vpage) =
      let copyStart := max header.vaddr vpage
      let copyEnd := min (header.vaddr + header.filesz) (vpage + 4096)
      if 2 ^ 64 ≤ header.vaddr + header.filesz then none
      else if copyStart < copyEnd then
        some (copyStart - vpage, (bytes.drop (header.offset + (copyStart - header.vaddr))).take
          (copyEnd - copyStart))
      else some (0, []) := by
  have vpageNat : (BitVec.ofNat 64 vpage).toNat = vpage := by
    rw [BitVec.toNat_ofNat, Nat.mod_eq_of_lt (by omega)]
  have vaddrNat : (header.segment bytes).vaddr.toNat = header.vaddr := by
    rw [ProgramHeader.segment, BitVec.toNat_ofNat, Nat.mod_eq_of_lt vaddrLt]
  have fileszNat : (header.segment bytes).filesz.toNat = header.filesz := by
    rw [ProgramHeader.segment, BitVec.toNat_ofNat, Nat.mod_eq_of_lt fileszLt]
  have dataLength : (header.segment bytes).data.length = header.filesz := by
    simp only [ProgramHeader.segment, List.length_take, List.length_drop]
    omega
  rw [pageContents_eq _ (by rw [vpageNat]; exact pageFits), vpageNat, vaddrNat, fileszNat,
    dataLength]
  dsimp only
  split_ifs with overflow copies
  · rfl
  · have shorter : min (header.vaddr + header.filesz) (vpage + 4096) - max header.vaddr vpage ≤
        header.filesz - (max header.vaddr vpage - header.vaddr) := by
      omega
    rw [readRange, dataLength, if_pos (by omega), Option.map_some, ProgramHeader.segment,
      List.drop_take, List.drop_drop, List.take_take, List.take_take, min_eq_left shorter,
      min_eq_left shorter]
  · rfl

/-- A page that was zeroed before the file's part of it was copied in holds the
bytes of the image. -/
theorem imageByte_pageContents {bytes : List U8} {header : ProgramHeader} {vpage dstOff : Nat}
    {contents : List U8} (vaddrLt : header.vaddr < 2 ^ 64) (fileszLt : header.filesz < 2 ^ 64)
    (inside : header.offset + header.filesz ≤ bytes.length) (pageFits : vpage + 4096 < 2 ^ 64)
    (parsed : pageContents (header.segment bytes) (BitVec.ofNat 64 vpage) = some (dstOff, contents))
    {k : Nat} (inPage : k < 4096) :
    header.imageByte bytes (vpage + k) = some (writeBytes (fun _ => 0) dstOff contents k) := by
  rw [pageContents_segment vaddrLt fileszLt inside pageFits] at parsed
  rw [ProgramHeader.imageByte, writeBytes]
  dsimp only at parsed
  split_ifs at parsed with overflow copies
  · obtain ⟨rfl, rfl⟩ := Prod.mk.inj (Option.some.inj parsed)
    by_cases fromFile : header.vaddr ≤ vpage + k ∧ vpage + k < header.vaddr + header.filesz
    · have position : header.offset + (max header.vaddr vpage - header.vaddr) +
          (k - (max header.vaddr vpage - vpage)) = header.offset + (vpage + k - header.vaddr) := by
        omega
      rw [if_pos fromFile, if_pos (by omega), List.getElem?_take_of_lt (by omega),
        List.getElem?_drop, position, List.getElem?_eq_getElem (by omega), Option.getD_some]
    · rw [if_neg fromFile]
      by_cases afterStart : max header.vaddr vpage - vpage ≤ k
      · rw [if_pos afterStart, List.getElem?_take_eq_none (by omega), Option.getD_none]
      · rw [if_neg afterStart]
  · obtain ⟨rfl, rfl⟩ := Prod.mk.inj (Option.some.inj parsed)
    rw [if_neg (by omega), if_pos (Nat.zero_le k)]
    rfl

end AxiomKernel.User
