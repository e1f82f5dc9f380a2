import Mathlib
import AxiomKernel.Lib.Bytes
import AxiomKernel.Crypto.Sha256

/-!
# The MEAL audit log

Model of `meal.rs`: audit entries and their 80-byte serialisation, the ring of
64 slots with its write head, running total and chain tip, `append`,
`verify_entry` and `verify_chain`.

`TICKS` is read by `append`; its value is an argument here.  `total += 1` is the
only operation that can overflow, and a build with overflow checks stops there:
`append` is `none` in that case.
-/

set_option autoImplicit false

namespace AxiomKernel.Meal

open ByteStrings Crypto

inductive AuditEvent where
  | logInitialised
  | capabilityDerived
  | capabilityExpired
  | processCreated
  | processExited
  | eipcSend
  | eipcReceive
  | syscallDispatched
  | scbaFenceFired
  | driverLoaded
  | driverFaultMmio
  | driverFaultSyscall
  | driverStopped
  | latticeReconfigured
  | memoryZeroed
  | bootComplete
  deriving DecidableEq, Repr

def AuditEvent.asU16 : AuditEvent → U16
  | .logInitialised => 0x0000
  | .capabilityDerived => 0x0001
  | .capabilityExpired => 0x0002
  | .processCreated => 0x0100
  | .processExited => 0x0101
  | .eipcSend => 0x0200
  | .eipcReceive => 0x0201
  | .syscallDispatched => 0x0300
  | .scbaFenceFired => 0x0500
  | .driverLoaded => 0x0400
  | .driverFaultMmio => 0x0401
  | .driverFaultSyscall => 0x0402
  | .driverStopped => 0x0404
  | .latticeReconfigured => 0x0600
  | .memoryZeroed => 0x0700
  | .bootComplete => 0xFF00

theorem AuditEvent.asU16_injective {left right : AuditEvent}
    (same : left.asU16 = right.asU16) : left = right := by
  revert same
  cases left <;> cases right <;> decide

structure AuditEntry where
  sequence : U64
  timestamp : U64
  eventType : AuditEvent
  actor : U32
  valueA : U64
  valueB : U64
  prevHash : Bytes 32
  mac : Bytes 32
  deriving DecidableEq

/-- The fields covered by the MAC; bytes 18..24 and 28..32 stay zero. -/
def AuditEntry.authBytes (e : AuditEntry) : Bytes 80 :=
  let b : Bytes 80 := Vector.replicate 80 0
  let b := copyFromSlice b 0 (toLeBytes 8 e.sequence)
  let b := copyFromSlice b 8 (toLeBytes 8 e.timestamp)
  let b := copyFromSlice b 16 (toLeBytes 2 e.eventType.asU16)
  let b := copyFromSlice b 24 (toLeBytes 4 e.actor)
  let b := copyFromSlice b 32 (toLeBytes 8 e.valueA)
  let b := copyFromSlice b 40 (toLeBytes 8 e.valueB)
  copyFromSlice b 48 e.prevHash.toList

def AuditEntry.selfHash (e : AuditEntry) : Bytes 32 := sha256 e.authBytes.toList

/-- Two entries with the same serialisation agree in every field but the MAC. -/
theorem AuditEntry.authBytes_injective {left right : AuditEntry}
    (same : left.authBytes = right.authBytes) :
    left.sequence = right.sequence ∧ left.timestamp = right.timestamp ∧
      left.eventType = right.eventType ∧ left.actor = right.actor ∧
      left.valueA = right.valueA ∧ left.valueB = right.valueB ∧
      left.prevHash = right.prevHash := by
  -- every field is a slice of the serialisation
  have field : ∀ offset length,
      slice left.authBytes offset length = slice right.authBytes offset length := by
    intro offset length
    rw [same]
  have sequences := field 0 8
  have timestamps := field 8 8
  have events := field 16 2
  have actors := field 24 4
  have valuesA := field 32 8
  have valuesB := field 40 8
  have hashes := field 48 32
  simp (disch := simp) only [AuditEntry.authBytes, slice_copyFromSlice_self,
    slice_copyFromSlice_other] at sequences timestamps events actors valuesA valuesB hashes
  refine ⟨toLeBytes_injective (by norm_num) sequences, toLeBytes_injective (by norm_num) timestamps,
    AuditEvent.asU16_injective (toLeBytes_injective (by norm_num) events),
    toLeBytes_injective (by norm_num) actors, toLeBytes_injective (by norm_num) valuesA,
    toLeBytes_injective (by norm_num) valuesB, Vector.toList_inj.mp hashes⟩

/-! ## The log -/

def capacity : Nat := 64

structure MealLog where
  entries : Vector (Option AuditEntry) capacity
  writeHead : Fin capacity
  total : U64
  chainTip : Bytes 32
  auditKey : Bytes 32

/-- The bytes of `"AXIOM-MEAL-GENESIS-v4"`. -/
def genesis : List U8 :=
  [0x41, 0x58, 0x49, 0x4f, 0x4d, 0x2d, 0x4d, 0x45, 0x41, 0x4c, 0x2d, 0x47, 0x45, 0x4e, 0x45,
    0x53, 0x49, 0x53, 0x2d, 0x76, 0x34]

theorem capacity_pos : 0 < capacity := by decide

def MealLog.new (key : Bytes 32) : MealLog :=
  { entries := Vector.replicate capacity none
    writeHead := ⟨0, by decide⟩
    total := 0
    chainTip := sha256 genesis
    auditKey := key }

/-- The arguments of one `append`, with the tick count it reads. -/
structure AppendCall where
  ticks : U64
  event : AuditEvent
  actor : U32
  a : U64
  b : U64

/-- The entry `append` fills in, still with a zero MAC. -/
def MealLog.blankEntry (log : MealLog) (call : AppendCall) : AuditEntry :=
  { sequence := log.total
    timestamp := call.ticks
    eventType := call.event
    actor := call.actor
    valueA := call.a
    valueB := call.b
    prevHash := log.chainTip
    mac := Vector.replicate 32 0 }

def MealLog.newEntry (log : MealLog) (call : AppendCall) : AuditEntry :=
  let e := log.blankEntry call
  { e with mac := hmacSha256 log.auditKey.toList e.authBytes.toList }

/-- Store the entry, move the head, advance the chain; returns the sequence
number.  `none` is the overflow of `total`. -/
def MealLog.append (log : MealLog) (call : AppendCall) : Option (MealLog × U64) :=
  let seq := log.total
  let e := log.newEntry call
  if log.total.toNat + 1 < 2 ^ 64 then
    some
      ({ log with
          chainTip := e.selfHash
          entries := log.entries.set log.writeHead (some e)
          writeHead := ⟨(log.writeHead.val + 1) % capacity, Nat.mod_lt _ (by decide)⟩
          total := log.total + 1 },
        seq)
  else none

def MealLog.verifyEntry (log : MealLog) (e : AuditEntry) : Bool :=
  xorDiff (hmacSha256 log.auditKey.toList e.authBytes.toList) e.mac == 0

/-- The loop of `verify_chain` over the remaining offsets, with the digest of
the last entry seen and the number of entries counted. -/
def MealLog.verifyFrom (log : MealLog) :
    List Nat → Option (Bytes 32) → Nat → Nat × Bool
  | [], _, n => (n, true)
  | i :: rest, prev, n =>
      match log.entries.get ⟨(log.writeHead.val + i) % capacity, Nat.mod_lt _ (by decide)⟩ with
      | none => log.verifyFrom rest prev n
      | some e =>
          if !log.verifyEntry e then (n, false)
          else
            match prev with
            | none => log.verifyFrom rest (some e.selfHash) (n + 1)
            | some ph =>
                if e.prevHash ≠ ph then (n, false)
                else log.verifyFrom rest (some e.selfHash) (n + 1)

def MealLog.verifyChain (log : MealLog) : Nat × Bool :=
  log.verifyFrom (List.range capacity) none 0

end AxiomKernel.Meal
