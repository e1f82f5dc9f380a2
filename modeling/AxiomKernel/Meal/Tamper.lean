import Mathlib
import AxiomKernel.Meal.History

/-!
# What `verify_chain` detects

An adversary who controls the slots and the head, but not the key, is accepted
exactly on contiguous blocks of the issued history.  Neither the chain tip, nor
the total, nor the genesis link of the first entry is compared, so a log cut at
either end, or emptied, still verifies; deletions between two surviving entries
and changes of order are detected.
-/

set_option autoImplicit false

namespace AxiomKernel.Meal

open ByteStrings Crypto HashChains RingSlots

theorem mem_ringOrder_iff {log : MealLog} {e : AuditEntry} :
    e ∈ log.ringOrder ↔ ∃ slot, log.entries.get slot = some e :=
  mem_readRing_iff

theorem Records.sequences_increasing {key : Bytes 32} {log : MealLog} {issued : List AuditEntry}
    (records : Records key log issued) :
    issued.Pairwise fun earlier later => earlier.sequence.toNat < later.sequence.toNat := by
  rw [List.pairwise_iff_getElem]
  intro i j iBound jBound iLt
  rw [records.sequences i _ (List.getElem?_eq_getElem iBound),
    records.sequences j _ (List.getElem?_eq_getElem jBound)]
  exact iLt

/-! ## Arbitrary slots under an intact key -/

/-- A list is a contiguous block of the history when each entry is the issued
entry whose sequence number follows on. -/
theorem Records.infix_iff_consecutive {key : Bytes 32} {log : MealLog} {issued : List AuditEntry}
    (records : Records key log issued) (block : List AuditEntry) :
    block <:+: issued ↔
      ∃ start, ∀ (i : Nat) (e : AuditEntry), block[i]? = some e →
        issued[start + i]? = some e ∧ e.sequence.toNat = start + i := by
  constructor
  · rintro ⟨before, after, splitIssued⟩
    refine ⟨before.length, ?_⟩
    intro i e found
    have iBound := (List.getElem?_eq_some_iff.mp found).1
    have placed : issued[before.length + i]? = some e := by
      rw [← splitIssued, List.append_assoc, List.getElem?_append_right (by omega),
        Nat.add_sub_cancel_left, List.getElem?_append_left iBound, found]
    exact ⟨placed, records.sequences _ e placed⟩
  · rintro ⟨start, consecutive⟩
    have same : block = (issued.drop start).take block.length := by
      apply List.ext_getElem?
      intro i
      by_cases inside : i < block.length
      · have found := List.getElem?_eq_getElem inside
        rw [List.getElem?_take_of_lt inside, List.getElem?_drop, found,
          (consecutive i _ found).1]
      · rw [List.getElem?_eq_none (by omega), List.getElem?_eq_none]
        rw [List.length_take]
        omega
    rw [same]
    exact (List.take_prefix _ _).isInfix.trans (List.drop_suffix _ _).isInfix

/-- The exact power of the verifier: with the key intact and MACs unforgeable,
arbitrary slots and an arbitrary head are accepted exactly when every stored
entry carries its MAC and ring order reads a contiguous block of the issued
history. -/
theorem verifyChain_accepts_iff_issued_block (key : Bytes 32) (log tampered : MealLog)
    (issued : List AuditEntry) (reached : Reached key log issued)
    (keyIntact : tampered.auditKey = log.auditKey)
    (unforgeable : ∀ slot e, tampered.entries.get slot = some e →
      tampered.verifyEntry e = true → ∃ original ∈ issued, e.authBytes = original.authBytes)
    (noCollision : NoCollision issued) :
    tampered.verifyChain.2 = true ↔
      (∀ slot e, tampered.entries.get slot = some e → tampered.verifyEntry e = true) ∧
        ∃ start, ∀ (i : Nat) (e : AuditEntry), tampered.ringOrder[i]? = some e →
          issued[start + i]? = some e ∧ e.sequence.toNat = start + i := by
  have records := reached.records
  have sameKey : tampered.auditKey = key := keyIntact.trans records.auditKey
  rw [← records.infix_iff_consecutive]
  -- either side makes every stored entry authentic, hence issued
  have authenticIssued : (∀ e ∈ tampered.ringOrder, tampered.verifyEntry e = true) →
      ∀ e ∈ tampered.ringOrder, e ∈ issued := by
    intro authentic e member
    obtain ⟨slot, stored⟩ := mem_ringOrder_iff.mp member
    obtain ⟨original, issuedOriginal, same⟩ := unforgeable slot e stored (authentic e member)
    have mac := (tampered.verifyEntry_iff e).mp (authentic e member)
    rw [sameKey] at mac
    rw [AuditEntry.eq_of_authBytes mac (records.macs original issuedOriginal) same]
    exact issuedOriginal
  constructor
  · intro accepted
    have authentic := (tampered.verifyChain_eq_true_iff.mp accepted).1
    refine ⟨fun slot e stored => authentic e (mem_ringOrder_iff.mpr ⟨slot, stored⟩), ?_⟩
    exact (records.accepts_iff_infix noCollision sameKey (authenticIssued authentic)).mp accepted
  · rintro ⟨authentic, block⟩
    have members := authenticIssued fun e member => by
      obtain ⟨slot, stored⟩ := mem_ringOrder_iff.mp member
      exact authentic slot e stored
    exact (records.accepts_iff_infix noCollision sameKey members).mpr block

/-! ## Deleting and moving stored entries -/

/-- The copy in which slot `i` holds what `σ` moves there, or nothing where
`deleted` says so; everything else is intact. -/
def MealLog.rearrange (log : MealLog) (σ : Equiv.Perm (Fin capacity))
    (deleted : Fin capacity → Bool) : MealLog :=
  { log with
    entries := Vector.ofFn fun slot =>
      if deleted slot then none else log.entries.get (σ slot) }

/-- At least one stored entry is deleted, or the order of reading changes. -/
def Tampers (log : MealLog) (σ : Equiv.Perm (Fin capacity)) (deleted : Fin capacity → Bool) :
    Prop :=
  (∃ slot, deleted slot = true ∧ (log.entries.get (σ slot)).isSome) ∨
    (log.rearrange σ deleted).ringOrder ≠ log.ringOrder

/-- Some entry is read before one that was issued earlier. -/
def ReadOutOfOrder (log : MealLog) : Prop :=
  ∃ first second, [first, second].Sublist log.ringOrder ∧
    second.sequence.toNat < first.sequence.toNat

/-- An entry of `log` is missing from the copy, and entries issued before and
after it are still there. -/
def InteriorGap (log copy : MealLog) : Prop :=
  ∃ low ∈ copy.ringOrder, ∃ high ∈ copy.ringOrder, ∃ missing ∈ log.ringOrder,
    missing ∉ copy.ringOrder ∧ low.sequence.toNat < missing.sequence.toNat ∧
      missing.sequence.toNat < high.sequence.toNat

theorem MealLog.rearrange_get {log : MealLog} {σ : Equiv.Perm (Fin capacity)}
    {deleted : Fin capacity → Bool} {slot : Fin capacity} {e : AuditEntry}
    (stored : (log.rearrange σ deleted).entries.get slot = some e) :
    log.entries.get (σ slot) = some e := by
  rw [MealLog.rearrange, Vector.get_eq_getElem, Vector.getElem_ofFn] at stored
  split at stored
  · simp at stored
  · exact stored

theorem Records.rearrange_nodup {key : Bytes 32} {log : MealLog} {issued : List AuditEntry}
    (records : Records key log issued) (σ : Equiv.Perm (Fin capacity))
    (deleted : Fin capacity → Bool) : (log.rearrange σ deleted).ringOrder.Nodup := by
  apply readRing_nodup
  intro left right e leftStored rightStored
  exact σ.injective (records.slots.once records.nodup (MealLog.rearrange_get leftStored)
    (MealLog.rearrange_get rightStored))

theorem MealLog.rearrange_auditKey (log : MealLog) (σ : Equiv.Perm (Fin capacity))
    (deleted : Fin capacity → Bool) : (log.rearrange σ deleted).auditKey = log.auditKey := by
  simp only [MealLog.rearrange]

theorem not_readOutOfOrder_iff (log : MealLog) :
    ¬ ReadOutOfOrder log ↔ log.ringOrder.Pairwise fun earlier later =>
      earlier.sequence.toNat ≤ later.sequence.toNat := by
  rw [List.pairwise_iff_forall_sublist, ReadOutOfOrder]
  constructor
  · intro none first second sublist
    by_contra greater
    exact none ⟨first, second, sublist, by omega⟩
  · rintro ordered ⟨first, second, sublist, greater⟩
    have := ordered sublist
    omega

theorem not_interiorGap_iff (log copy : MealLog) :
    ¬ InteriorGap log copy ↔
      ∀ low ∈ copy.ringOrder, ∀ high ∈ copy.ringOrder, ∀ e ∈ log.ringOrder,
        low.sequence.toNat < e.sequence.toNat → e.sequence.toNat < high.sequence.toNat →
        e ∈ copy.ringOrder := by
  constructor
  · intro noGap low lowMember high highMember e member above below
    by_contra absent
    exact noGap ⟨low, lowMember, high, highMember, e, member, absent, above, below⟩
  · rintro convex ⟨low, lowMember, high, highMember, e, member, absent, above, below⟩
    exact absent (convex low lowMember high highMember e member above below)

theorem Records.ringOrder_whole {key : Bytes 32} {log : MealLog} {issued : List AuditEntry}
    (records : Records key log issued) (few : issued.length ≤ capacity) :
    log.ringOrder = issued := by
  rw [records.ringOrder_eq, Nat.sub_eq_zero_of_le few, List.drop_zero]

/-- Before the ring wraps, a rearranged copy is accepted exactly when the
surviving entries are in order and without interior gap. -/
theorem Records.rearrange_accepts_iff {key : Bytes 32} {log : MealLog}
    {issued : List AuditEntry} (records : Records key log issued)
    (few : issued.length ≤ capacity) (noCollision : NoCollision issued)
    (σ : Equiv.Perm (Fin capacity)) (deleted : Fin capacity → Bool) :
    (log.rearrange σ deleted).verifyChain.2 = true ↔
      ¬ ReadOutOfOrder (log.rearrange σ deleted) ∧ ¬ InteriorGap log (log.rearrange σ deleted) := by
  have members : ∀ e ∈ (log.rearrange σ deleted).ringOrder, e ∈ issued := by
    intro e member
    obtain ⟨slot, stored⟩ := mem_ringOrder_iff.mp member
    rw [← records.ringOrder_whole few, mem_ringOrder_iff]
    exact ⟨σ slot, MealLog.rearrange_get stored⟩
  have sameKey : (log.rearrange σ deleted).auditKey = key :=
    (log.rearrange_auditKey σ deleted).trans records.auditKey
  rw [records.accepts_iff_infix noCollision sameKey members,
    infix_iff_ordered_and_convex (fun e => e.sequence.toNat) records.sequences_increasing
      (records.rearrange_nodup σ deleted) members, not_readOutOfOrder_iff, not_interiorGap_iff,
    records.ringOrder_whole few]

theorem verifyChain_rejects_reordering {key : Bytes 32} {log : MealLog}
    {issued : List AuditEntry} (reached : Reached key log issued)
    (few : issued.length ≤ capacity) (noCollision : NoCollision issued)
    (σ : Equiv.Perm (Fin capacity))
    (reordered : (log.rearrange σ fun _ => false).ringOrder ≠ log.ringOrder) :
    (log.rearrange σ fun _ => false).verifyChain.2 = false := by
  have records := reached.records
  -- the copy reads the same entries, so a contiguous block can only be the whole log
  have sameMembers : ∀ e, e ∈ (log.rearrange σ fun _ => false).ringOrder ↔ e ∈ issued := by
    intro e
    rw [← records.ringOrder_whole few, mem_ringOrder_iff, mem_ringOrder_iff]
    constructor
    · rintro ⟨slot, stored⟩
      exact ⟨σ slot, MealLog.rearrange_get stored⟩
    · rintro ⟨slot, stored⟩
      refine ⟨σ.symm slot, ?_⟩
      simpa [MealLog.rearrange, Vector.get_eq_getElem] using stored
  have perm : (log.rearrange σ fun _ => false).ringOrder.Perm issued :=
    (List.perm_ext_iff_of_nodup (records.rearrange_nodup σ _) records.nodup).mpr sameMembers
  have sameKey := (log.rearrange_auditKey σ fun _ => false).trans records.auditKey
  rw [← Bool.not_eq_true, records.accepts_iff_infix noCollision sameKey
    fun e member => (sameMembers e).mp member]
  intro block
  exact reordered ((block.eq_of_length perm.length_eq).trans (records.ringOrder_whole few).symm)

theorem verifyChain_accepts_emptied (log : MealLog) (σ : Equiv.Perm (Fin capacity)) :
    (log.rearrange σ fun _ => true).verifyChain = (0, true) := by
  have empty : (log.rearrange σ fun _ => true).ringOrder = [] := by
    rw [List.eq_nil_iff_forall_not_mem]
    intro e member
    obtain ⟨slot, stored⟩ := mem_ringOrder_iff.mp member
    simp [MealLog.rearrange, Vector.get_eq_getElem] at stored
  have accepted : (log.rearrange σ fun _ => true).verifyChain.2 = true := by
    rw [MealLog.verifyChain_eq_true_iff, empty]
    exact ⟨by simp, List.isChain_nil⟩
  refine Prod.ext ?_ accepted
  rw [MealLog.verifyChain_count _ accepted, empty, List.length_nil]

/-- Tampering with a log of 1 to 64 entries is reported exactly when two
surviving entries change order or an entry between two surviving ones is gone. -/
theorem verifyChain_detects_tampering_iff (key : Bytes 32) (log : MealLog)
    (issued : List AuditEntry) (reached : Reached key log issued)
    (size : 1 ≤ issued.length ∧ issued.length ≤ capacity) (noCollision : NoCollision issued)
    (σ : Equiv.Perm (Fin capacity)) (deleted : Fin capacity → Bool)
    (_ : Tampers log σ deleted) :
    (log.rearrange σ deleted).verifyChain.2 = false ↔
      ReadOutOfOrder (log.rearrange σ deleted) ∨ InteriorGap log (log.rearrange σ deleted) := by
  rw [← Bool.not_eq_true, reached.records.rearrange_accepts_iff size.2 noCollision]
  tauto

/-! ## A log with one entry -/

def kAudit : Bytes 32 :=
  #v[0xA1, 0xB2, 0xC3, 0xD4, 0xE5, 0xF6, 0x07, 0x18, 0x29, 0x3A, 0x4B, 0x5C, 0x6D, 0x7E, 0x8F,
    0x90, 0xA1, 0xB2, 0xC3, 0xD4, 0xE5, 0xF6, 0x07, 0x18, 0x29, 0x3A, 0x4B, 0x5C, 0x6D, 0x7E,
    0x8F, 0x90]

def bootCall : AppendCall :=
  { ticks := 0, event := .logInitialised, actor := 0, a := 0, b := 0 }

def bootEntry : AuditEntry := (MealLog.new kAudit).newEntry bootCall

def bootLog : MealLog :=
  { entries := (MealLog.new kAudit).entries.set 0 (some bootEntry) capacity_pos
    writeHead := ⟨1, by decide⟩
    total := 1
    chainTip := bootEntry.selfHash
    auditKey := kAudit }

theorem bootLog_reached : Reached kAudit bootLog [bootEntry] := by
  have success : (MealLog.new kAudit).append bootCall = some (bootLog, 0) := by
    have room : (MealLog.new kAudit).total.toNat + 1 < 2 ^ 64 := by decide
    rw [MealLog.append, if_pos room]
    rfl
  exact Reached.append Reached.start success

def genesisDigest : Bytes 32 :=
  #v[0xd5, 0x32, 0x73, 0x84, 0x3e, 0x6d, 0x11, 0xeb, 0x83, 0x99, 0xf8, 0xfc, 0xea, 0xf4, 0xad,
    0x05, 0xfd, 0xb3, 0x6a, 0x99, 0x09, 0xa4, 0x0b, 0xfc, 0xbc, 0x4f, 0xe9, 0x12, 0xb4, 0x1b,
    0x6e, 0xc6]

theorem sha256_genesis : sha256 genesis = genesisDigest := by decide +kernel

theorem noCollision_of_nodup {issued : List AuditEntry}
    (distinct : ((genesis :: issued.map fun e => e.authBytes.toList).map sha256).Nodup) :
    NoCollision issued :=
  fun _ leftMember _ rightMember same =>
    List.inj_on_of_nodup_map distinct leftMember rightMember same

def bootDigest : Bytes 32 :=
  #v[0xcf, 0x6b, 0x97, 0x53, 0xa2, 0xdb, 0x74, 0x1c, 0x4b, 0xc9, 0xf8, 0x17, 0x22, 0xeb, 0x10,
    0x70, 0x84, 0x48, 0x39, 0x3d, 0x61, 0xe7, 0xc9, 0xbb, 0x4b, 0xf0, 0x2d, 0x86, 0xf7, 0x2c,
    0x54, 0x42]

theorem bootEntry_selfHash : bootEntry.selfHash = bootDigest := by
  have serialised : bootEntry.authBytes.toList =
      List.replicate 48 0 ++ genesisDigest.toList := by
    rw [bootEntry, MealLog.newEntry_authBytes]
    simp only [MealLog.blankEntry, MealLog.new, sha256_genesis]
    decide +kernel
  rw [AuditEntry.selfHash, serialised]
  decide +kernel

theorem bootLog_noCollision : NoCollision [bootEntry] := by
  apply noCollision_of_nodup
  have digest : sha256 bootEntry.authBytes.toList = bootDigest := bootEntry_selfHash
  simp only [List.map_cons, List.map_nil, sha256_genesis, digest]
  decide

theorem bootLog_tampers : Tampers bootLog 1 fun _ => true := by
  refine Or.inl ⟨⟨0, by decide⟩, rfl, ?_⟩
  simp [bootLog, Vector.get_eq_getElem]

/-- Deleting the only entry goes unnoticed. -/
theorem verifyChain_misses_deletion :
    Reached kAudit bootLog [bootEntry] ∧ NoCollision [bootEntry] ∧
      (1 ≤ [bootEntry].length ∧ [bootEntry].length ≤ capacity) ∧
      Tampers bootLog 1 (fun _ => true) ∧
      (bootLog.rearrange 1 fun _ => true).verifyChain.2 ≠ false := by
  refine ⟨bootLog_reached, bootLog_noCollision, by decide, bootLog_tampers, ?_⟩
  rw [verifyChain_accepts_emptied]
  decide

theorem verifyChain_detects_tampering_iff_bootLog :
    (bootLog.rearrange 1 fun _ => true).verifyChain.2 = false ↔
      ReadOutOfOrder (bootLog.rearrange 1 fun _ => true) ∨
        InteriorGap bootLog (bootLog.rearrange 1 fun _ => true) :=
  verifyChain_detects_tampering_iff kAudit bootLog [bootEntry] bootLog_reached (by decide)
    bootLog_noCollision 1 (fun _ => true) bootLog_tampers

/-! ## A log with three entries -/

def exitCall : AppendCall :=
  { ticks := 5, event := .syscallDispatched, actor := 3, a := 11, b := 0 }

def exitedCall : AppendCall :=
  { ticks := 5, event := .processExited, actor := 3, a := 0, b := 0 }

def exitEntry : AuditEntry := bootLog.newEntry exitCall

/-- The log after the system call `Exit` was dispatched. -/
def exitLog : MealLog :=
  { entries := bootLog.entries.set 1 (some exitEntry)
    writeHead := ⟨2, by decide⟩
    total := 2
    chainTip := exitEntry.selfHash
    auditKey := kAudit }

def exitedEntry : AuditEntry := exitLog.newEntry exitedCall

/-- The log after the program has exited. -/
def exitedLog : MealLog :=
  { entries := exitLog.entries.set 2 (some exitedEntry)
    writeHead := ⟨3, by decide⟩
    total := 3
    chainTip := exitedEntry.selfHash
    auditKey := kAudit }

theorem exitedLog_reached : Reached kAudit exitedLog [bootEntry, exitEntry, exitedEntry] := by
  have dispatched : bootLog.append exitCall = some (exitLog, 1) := by
    have room : bootLog.total.toNat + 1 < 2 ^ 64 := by decide
    rw [MealLog.append, if_pos room]
    rfl
  have exited : exitLog.append exitedCall = some (exitedLog, 2) := by
    have room : exitLog.total.toNat + 1 < 2 ^ 64 := by decide
    rw [MealLog.append, if_pos room]
    rfl
  exact Reached.append (Reached.append bootLog_reached dispatched) exited

def exitDigest : Bytes 32 :=
  #v[0xda, 0xe6, 0x47, 0x68, 0x73, 0xd0, 0x14, 0x57, 0x3f, 0xf9, 0xae, 0x51, 0xeb, 0xba, 0xf4,
    0x15, 0x56, 0xfe, 0xef, 0xe7, 0xec, 0xc8, 0x32, 0x8c, 0x75, 0x2c, 0xca, 0x50, 0x81, 0xd8,
    0x11, 0xc5]

def exitedDigest : Bytes 32 :=
  #v[0xb8, 0xa6, 0x7b, 0x70, 0x0e, 0xbc, 0xda, 0x98, 0xa0, 0x59, 0x0d, 0x8c, 0x60, 0xea, 0x50,
    0xf2, 0xcc, 0xcf, 0xd5, 0x36, 0x6c, 0xd9, 0x53, 0x4b, 0x96, 0x82, 0xbf, 0x44, 0x4b, 0x93,
    0xed, 0xc4]

theorem exitEntry_selfHash : exitEntry.selfHash = exitDigest := by
  have serialised : exitEntry.authBytes.toList =
      [1, 0, 0, 0, 0, 0, 0, 0, 5, 0, 0, 0, 0, 0, 0, 0, 0, 3, 0, 0, 0, 0, 0, 0, 3, 0, 0, 0, 0, 0, 0, 0,
        11, 0, 0, 0, 0, 0, 0, 0, 0, 0, 0, 0, 0, 0, 0, 0] ++ bootDigest.toList := by
    rw [exitEntry, MealLog.newEntry_authBytes]
    simp only [MealLog.blankEntry, bootLog, bootEntry_selfHash]
    decide +kernel
  rw [AuditEntry.selfHash, serialised]
  decide +kernel

theorem exitedEntry_selfHash : exitedEntry.selfHash = exitedDigest := by
  have serialised : exitedEntry.authBytes.toList =
      [2, 0, 0, 0, 0, 0, 0, 0, 5, 0, 0, 0, 0, 0, 0, 0, 1, 1, 0, 0, 0, 0, 0, 0, 3, 0, 0, 0, 0, 0, 0, 0,
        0, 0, 0, 0, 0, 0, 0, 0, 0, 0, 0, 0, 0, 0, 0, 0] ++ exitDigest.toList := by
    rw [exitedEntry, MealLog.newEntry_authBytes]
    simp only [MealLog.blankEntry, exitLog, exitEntry_selfHash]
    decide +kernel
  rw [AuditEntry.selfHash, serialised]
  decide +kernel

theorem exitedLog_noCollision : NoCollision [bootEntry, exitEntry, exitedEntry] := by
  apply noCollision_of_nodup
  have boot : sha256 bootEntry.authBytes.toList = bootDigest := bootEntry_selfHash
  have exit : sha256 exitEntry.authBytes.toList = exitDigest := exitEntry_selfHash
  have exited : sha256 exitedEntry.authBytes.toList = exitedDigest := exitedEntry_selfHash
  simp only [List.map_cons, List.map_nil, sha256_genesis, boot, exit, exited]
  decide

/-- Of the three entries the one in `slot` is deleted. -/
def withoutSlot (slot : Fin capacity) : MealLog := exitedLog.rearrange 1 fun other => other == slot

theorem withoutSlot_issued {gone slot : Fin capacity} {e : AuditEntry}
    (stored : (withoutSlot gone).entries.get slot = some e) :
    e ∈ [bootEntry, exitEntry, exitedEntry] := by
  rw [← exitedLog_reached.records.ringOrder_whole (by decide)]
  exact mem_ringOrder_iff.mpr ⟨slot, MealLog.rearrange_get stored⟩

/-- The copy without the middle entry is rejected, the one without the first is accepted. -/
theorem verifyChain_accepts_iff_issued_block_exitedLog :
    (withoutSlot 1).verifyChain.2 = false ∧ (withoutSlot 0).verifyChain.2 = true := by
  have accepts := fun gone => verifyChain_accepts_iff_issued_block kAudit exitedLog (withoutSlot gone)
    [bootEntry, exitEntry, exitedEntry] exitedLog_reached rfl
    (fun slot e stored _ => ⟨e, withoutSlot_issued stored, rfl⟩) exitedLog_noCollision
  have middleGone : (withoutSlot 1).ringOrder = [bootEntry, exitedEntry] := by
    rfl
  have firstGone : (withoutSlot 0).ringOrder = [exitEntry, exitedEntry] := by
    rfl
  constructor
  · rw [← Bool.not_eq_true, accepts 1, middleGone]
    intro ⟨_, start, block⟩
    have first := (block 0 bootEntry rfl).2
    have second := (block 1 exitedEntry rfl).2
    have numbers : bootEntry.sequence.toNat = 0 ∧ exitedEntry.sequence.toNat = 2 := ⟨rfl, rfl⟩
    omega
  · rw [accepts 0, firstGone]
    refine ⟨?_, 1, ?_⟩
    · intro slot e stored
      rw [(withoutSlot 0).verifyEntry_iff e]
      exact exitedLog_reached.records.macs e (withoutSlot_issued stored)
    · intro i e found
      match i, found with
      | 0, found =>
          obtain rfl := Option.some.inj found
          exact ⟨rfl, rfl⟩
      | 1, found =>
          obtain rfl := Option.some.inj found
          exact ⟨rfl, rfl⟩

end AxiomKernel.Meal
