import Mathlib
import AxiomKernel.Lib.Bytes
import AxiomKernel.Lib.EventRun
import AxiomKernel.Lib.LappedRing

/-!
# The log buffer

Model of `log_buffer.rs`: 64 entries, written at `WRITE_HEAD` and read at
`READ_HEAD`, two 64-bit counters that wrap.  `push` and `drain` only look at an
entry's kind, so the ring is generic in its entries: numbering the entries pushed
follows each of them through the ring, and changes nothing else.

`deliver` is the ring without slots: a list of all the entries pushed and a count of
the reads.  Without entries of kind `Empty` the ring delivers exactly that.
-/

set_option autoImplicit false

namespace AxiomKernel.LogBuffer

open ByteStrings EventRuns RingSlots LappedRings

def logCapacity : Nat := 64

instance : NeZero logCapacity := ⟨by decide⟩

inductive LogKind where
  | empty
  | scbaStatus
  deriving DecidableEq

structure LogEntry where
  kind : LogKind
  a : U64
  b : U64
  deriving DecidableEq

/-- What the ring asks of its entries. -/
class Entry (α : Type) where
  empty : α
  kind : α → LogKind
  kind_empty : kind empty = .empty

instance : Entry LogEntry where
  empty := ⟨.empty, 0, 0⟩
  kind := LogEntry.kind
  kind_empty := rfl

instance {α : Type} [Entry α] : Entry (α × Nat) where
  empty := (Entry.empty, 0)
  kind numbered := Entry.kind numbered.1
  kind_empty := Entry.kind_empty

/-- `ENTRIES`, `WRITE_HEAD` and `READ_HEAD`. -/
structure Ring (α : Type) where
  entries : Vector α logCapacity
  writeHead : U64
  readHead : U64

namespace Ring

variable {α : Type} [Entry α]

def new : Ring α where
  entries := Vector.replicate logCapacity Entry.empty
  writeHead := 0
  readHead := 0

def push (ring : Ring α) (entry : α) : Ring α where
  entries := ring.entries.set (Fin.ofNat logCapacity ring.writeHead.toNat) entry
  writeHead := ring.writeHead + 1
  readHead := ring.readHead

/-- The loop of `drain` with `remaining` turns left: the entries given to `f`, and `count`. -/
def drainLoop (ring : Ring α) (count : Nat) : Nat → Ring α × List α × Nat
  | 0 => (ring, [], count)
  | remaining + 1 =>
      if ring.writeHead ≤ ring.readHead then (ring, [], count)
      else
        let entry := ring.entries.get (Fin.ofNat logCapacity ring.readHead.toNat)
        if Entry.kind entry = .empty then (ring, [], count)
        else
          let (after, later, total) :=
            drainLoop { ring with readHead := ring.readHead + 1 } (count + 1) remaining
          (after, entry :: later, total)

def drain (ring : Ring α) (max : U64) : Ring α × List α × Nat :=
  ring.drainLoop 0 max.toNat

end Ring

inductive Op (α : Type) where
  | push (entry : α)
  | drain (max : U64)

/-- One call, answering the entries given to `f`. -/
def Ring.step {α : Type} [Entry α] (ring : Ring α) : Op α → Option (Ring α × List α)
  | .push entry => some (ring.push entry, [])
  | .drain max => some ((ring.drain max).1, (ring.drain max).2.1)

/-! ## The log without slots -/

/-- The number of reads of a `drain` after `pushed` pushes and `drained` reads: `READ_HEAD` is
compared with a `WRITE_HEAD` that has wrapped. -/
def reads (pushed drained : Nat) (max : U64) : Nat :=
  min max.toNat (pushed % 2 ^ 64 - drained)

theorem add_reads_le {pushed drained : Nat} (behind : drained ≤ pushed) (max : U64) :
    drained + reads pushed drained max ≤ pushed := by
  have wrapped := Nat.mod_le pushed (2 ^ 64)
  rw [reads]
  omega

section Deliver

variable {α β : Type}

/-- What consecutive reads find: each the last entry of its slot. -/
def batch (items : List α) (drained count : Nat) : List α :=
  (List.range' drained count).filterMap fun position =>
    items[lapped logCapacity items.length position]?

def deliver (items : List α) (drained : Nat) : List (Op α) → List (List α)
  | [] => []
  | .push entry :: rest => [] :: deliver (items ++ [entry]) drained rest
  | .drain max :: rest =>
      batch items drained (reads items.length drained max) ::
        deliver items (drained + reads items.length drained max) rest

theorem getElem?_lapped (items : List α) {position : Nat} (behind : position < items.length) :
    ∃ entry, items[lapped logCapacity items.length position]? = some entry :=
  ⟨_, List.getElem?_eq_getElem (lapped_lt behind)⟩

end Deliver

/-! ## The ring delivers the log -/

namespace Ring

variable {α : Type} [Entry α]

def occupied (entry : α) : Option α :=
  if Entry.kind entry = .empty then none else some entry

theorem occupied_of_kind {entry : α} (nonEmpty : Entry.kind entry ≠ .empty) :
    occupied entry = some entry :=
  if_neg nonEmpty

theorem of_occupied {entry stored : α} (found : occupied stored = some entry) :
    stored = entry ∧ Entry.kind stored ≠ .empty := by
  rw [occupied] at found
  split at found
  case isTrue => simp at found
  case isFalse nonEmpty => exact ⟨Option.some.inj found, nonEmpty⟩

/-- The ring after the pushes of `items` and `drained` reads. -/
structure Holds (ring : Ring α) (items : List α) (drained : Nat) : Prop where
  written : ring.writeHead = BitVec.ofNat 64 items.length
  read : ring.readHead = BitVec.ofNat 64 drained
  bounded : drained < 2 ^ 64
  behind : drained ≤ items.length
  stored : Represents (ring.entries.map occupied) items

theorem holds_new : (new : Ring α).Holds [] 0 where
  written := rfl
  read := rfl
  bounded := by decide
  behind := le_rfl
  stored := by
    rw [new, Vector.map_replicate, occupied, if_pos Entry.kind_empty]
    exact represents_empty

theorem Holds.push {ring : Ring α} {items : List α} {drained : Nat}
    (holds : ring.Holds items drained) {entry : α} (nonEmpty : Entry.kind entry ≠ .empty) :
    (ring.push entry).Holds (items ++ [entry]) drained where
  written := by
    have wraps : ring.writeHead + 1 = BitVec.ofNat 64 (items.length + 1) := by
      rw [holds.written, BitVec.ofNat_add]
      rfl
    rw [List.length_append, List.length_singleton]
    exact wraps
  read := holds.read
  bounded := holds.bounded
  behind := by
    have behind := holds.behind
    rw [List.length_append]
    omega
  stored := by
    -- the capacity divides 2^64, so a wrapped counter still names the slot
    have slot : Fin.ofNat logCapacity ring.writeHead.toNat = Fin.ofNat logCapacity items.length := by
      refine Fin.ext ?_
      rw [holds.written, BitVec.toNat_ofNat]
      exact Nat.mod_mod_of_dvd _ (by decide)
    have pushed := holds.stored.push entry
    simp only [Ring.push, slot, Vector.map_set, occupied_of_kind nonEmpty]
    exact pushed

theorem Holds.slot {ring : Ring α} {items : List α} {drained : Nat}
    (holds : ring.Holds items drained) (unread : drained < items.length) :
    items[lapped logCapacity items.length drained]? =
        some (ring.entries.get (Fin.ofNat logCapacity ring.readHead.toNat)) ∧
      Entry.kind (ring.entries.get (Fin.ofNat logCapacity ring.readHead.toNat)) ≠ .empty := by
  obtain ⟨entry, found⟩ := getElem?_lapped items unread
  have stored := LappedRings.Represents.lapped holds.stored unread
  rw [found, Vector.get_eq_getElem, Vector.getElem_map] at stored
  obtain ⟨same, nonEmpty⟩ := of_occupied stored
  rw [holds.read, BitVec.toNat_ofNat, Nat.mod_eq_of_lt holds.bounded, Vector.get_eq_getElem, same]
  rw [same] at nonEmpty
  exact ⟨found, nonEmpty⟩

theorem Holds.waits_iff {ring : Ring α} {items : List α} {drained : Nat}
    (holds : ring.Holds items drained) :
    ring.writeHead ≤ ring.readHead ↔ items.length % 2 ^ 64 - drained = 0 := by
  rw [BitVec.le_def, holds.written, holds.read, BitVec.toNat_ofNat, BitVec.toNat_ofNat,
    Nat.mod_eq_of_lt holds.bounded]
  omega

theorem Holds.readNext {ring : Ring α} {items : List α} {drained : Nat}
    (holds : ring.Holds items drained) (unread : drained < items.length % 2 ^ 64) :
    Holds { ring with readHead := ring.readHead + 1 } items (drained + 1) where
  written := holds.written
  read := by
    rw [holds.read, BitVec.ofNat_add]
    rfl
  bounded := by
    have wrapped := Nat.mod_lt items.length (Nat.two_pow_pos 64)
    omega
  behind := by
    have wrapped := Nat.mod_le items.length (2 ^ 64)
    omega
  stored := holds.stored

theorem Holds.drainLoop {ring : Ring α} {items : List α} {drained : Nat}
    (holds : ring.Holds items drained) (count remaining : Nat) :
    ∃ after, ring.drainLoop count remaining =
        (after, batch items drained (min remaining (items.length % 2 ^ 64 - drained)),
          count + min remaining (items.length % 2 ^ 64 - drained)) ∧
      after.Holds items (drained + min remaining (items.length % 2 ^ 64 - drained)) := by
  induction remaining generalizing ring drained count with
  | zero =>
      rw [Nat.zero_min]
      exact ⟨ring, rfl, holds⟩
  | succ remaining inductionHypothesis =>
      rw [Ring.drainLoop]
      by_cases waits : items.length % 2 ^ 64 - drained = 0
      · rw [if_pos (holds.waits_iff.mpr waits), waits, Nat.min_zero]
        exact ⟨ring, rfl, holds⟩
      · have unread : drained < items.length % 2 ^ 64 := by omega
        have wrapped := Nat.mod_le items.length (2 ^ 64)
        obtain ⟨found, nonEmpty⟩ := holds.slot (by omega)
        obtain ⟨after, drains, afterHolds⟩ :=
          inductionHypothesis (holds.readNext unread) (count + 1)
        have oneMore : min (remaining + 1) (items.length % 2 ^ 64 - drained) =
            min remaining (items.length % 2 ^ 64 - (drained + 1)) + 1 := by omega
        rw [if_neg fun stops => waits (holds.waits_iff.mp stops)]
        simp only [if_neg nonEmpty, drains, oneMore]
        refine ⟨after, ?_, ?_⟩
        · rw [batch, batch, List.range'_succ, List.filterMap_cons, found, Nat.add_assoc,
            Nat.add_comm 1]
        · rw [Nat.add_comm (min _ _) 1, ← Nat.add_assoc]
          exact afterHolds

/-- The ring delivers what the log without slots delivers. -/
theorem Holds.run {ring : Ring α} {items : List α} {drained : Nat}
    (holds : ring.Holds items drained) (ops : List (Op α))
    (nonEmpty : ∀ entry, Op.push entry ∈ ops → Entry.kind entry ≠ .empty) :
    ∃ final, EventRuns.run Ring.step ring ops = some (final, deliver items drained ops) := by
  induction ops generalizing ring items drained with
  | nil => exact ⟨ring, rfl⟩
  | cons op rest inductionHypothesis =>
      have later : ∀ entry, Op.push entry ∈ rest → Entry.kind entry ≠ .empty :=
        fun entry mem => nonEmpty entry (List.mem_cons_of_mem op mem)
      cases op with
      | push entry =>
          obtain ⟨final, ran⟩ :=
            inductionHypothesis (holds.push (nonEmpty entry List.mem_cons_self)) later
          exact ⟨final, run_cons_eq_some_iff.mpr ⟨_, _, _, rfl, ran, rfl⟩⟩
      | drain max =>
          obtain ⟨after, drains, afterHolds⟩ := holds.drainLoop 0 max.toNat
          obtain ⟨final, ran⟩ := inductionHypothesis afterHolds later
          refine ⟨final, run_cons_eq_some_iff.mpr ⟨after, _, _, ?_, ran, rfl⟩⟩
          rw [step, drain, drains]
          rfl

end Ring

/-! ## Numbered entries -/

section Numbered

variable {α : Type}

/-- The calls with every entry numbered, from `next` on. -/
def number (next : Nat) : List (Op α) → List (Op (α × Nat))
  | [] => []
  | .push entry :: rest => .push (entry, next) :: number (next + 1) rest
  | .drain max :: rest => .drain max :: number next rest

/-- The entries pushed. -/
def pushes : List (Op α) → List α
  | [] => []
  | .push entry :: rest => entry :: pushes rest
  | .drain _ :: rest => pushes rest

/-- The numbers of the entries delivered, from the counts alone. -/
def numbers (pushed drained : Nat) : List (Op α) → List (List Nat)
  | [] => []
  | .push _ :: rest => [] :: numbers (pushed + 1) drained rest
  | .drain max :: rest =>
      (List.range' drained (reads pushed drained max)).map (lapped logCapacity pushed) ::
        numbers pushed (drained + reads pushed drained max) rest

theorem zipIdx_concat (items : List α) (entry : α) :
    (items ++ [entry]).zipIdx = items.zipIdx ++ [(entry, items.length)] := by
  simp [List.zipIdx_append]

theorem batch_zipIdx_fst (items : List α) (drained count : Nat) :
    (batch items.zipIdx drained count).map Prod.fst = batch items drained count := by
  rw [batch, batch, List.map_filterMap, List.length_zipIdx]
  refine List.filterMap_congr fun position _ => ?_
  rw [List.getElem?_zipIdx, Option.map_map]
  simp [Function.comp_def]

theorem batch_zipIdx_snd (items : List α) {drained count : Nat}
    (behind : drained + count ≤ items.length) :
    (batch items.zipIdx drained count).map Prod.snd =
      (List.range' drained count).map (lapped logCapacity items.length) := by
  rw [batch, List.map_filterMap, List.length_zipIdx, ← List.filterMap_eq_map]
  refine List.filterMap_congr fun position mem => ?_
  have bounds := List.mem_range'_1.mp mem
  obtain ⟨entry, found⟩ := getElem?_lapped items (show position < items.length by omega)
  simp [List.getElem?_zipIdx, found]

theorem mem_batch_zipIdx {items : List α} {drained count : Nat} {entry : α} {k : Nat}
    (mem : (entry, k) ∈ batch items.zipIdx drained count) : items[k]? = some entry := by
  obtain ⟨position, _, found⟩ := List.mem_filterMap.mp mem
  exact List.mem_zipIdx_iff_getElem?.mp (List.mem_of_getElem? found)

theorem deliver_number_fst (ops : List (Op α)) (items : List α) (drained : Nat) :
    (deliver items.zipIdx drained (number items.length ops)).map (List.map Prod.fst) =
      deliver items drained ops := by
  induction ops generalizing items drained with
  | nil => rfl
  | cons op rest inductionHypothesis =>
      cases op with
      | push entry =>
          have later := inductionHypothesis (items ++ [entry]) drained
          rw [zipIdx_concat, List.length_append, List.length_singleton] at later
          rw [number, deliver, deliver, List.map_cons, List.map_nil, later]
      | drain max =>
          rw [number, deliver, deliver, List.map_cons, batch_zipIdx_fst, List.length_zipIdx,
            inductionHypothesis]

theorem deliver_number_snd (ops : List (Op α)) (items : List α) (drained : Nat)
    (behind : drained ≤ items.length) :
    (deliver items.zipIdx drained (number items.length ops)).map (List.map Prod.snd) =
      numbers items.length drained ops := by
  induction ops generalizing items drained with
  | nil => rfl
  | cons op rest inductionHypothesis =>
      cases op with
      | push entry =>
          have later := inductionHypothesis (items ++ [entry]) drained
            (by rw [List.length_append]; omega)
          rw [zipIdx_concat, List.length_append, List.length_singleton] at later
          rw [number, deliver, numbers, List.map_cons, List.map_nil, later]
      | drain max =>
          have kept := add_reads_le behind max
          rw [number, deliver, numbers, List.map_cons, List.length_zipIdx,
            batch_zipIdx_snd items kept, inductionHypothesis items _ kept]

/-- A number delivered with an entry is the number of the push that brought it. -/
theorem mem_deliver_number (ops : List (Op α)) (items : List α) (drained : Nat) {entry : α}
    {k : Nat} (mem : (entry, k) ∈ (deliver items.zipIdx drained (number items.length ops)).flatten) :
    (items ++ pushes ops)[k]? = some entry := by
  induction ops generalizing items drained with
  | nil => simp [number, deliver] at mem
  | cons op rest inductionHypothesis =>
      cases op with
      | push pushed =>
          have later := inductionHypothesis (items ++ [pushed]) drained
          rw [zipIdx_concat, List.length_append, List.length_singleton, List.append_assoc] at later
          exact later mem
      | drain max =>
          rw [number, deliver, List.flatten_cons, List.mem_append] at mem
          rcases mem with now | later
          · have found := mem_batch_zipIdx now
            rw [List.getElem?_append_left (List.getElem?_eq_some_iff.mp found).1]
            exact found
          · exact inductionHypothesis items _ later

theorem push_mem_number {ops : List (Op α)} {next k : Nat} {entry : α}
    (mem : Op.push (entry, k) ∈ number next ops) : Op.push entry ∈ ops := by
  induction ops generalizing next with
  | nil => simp [number] at mem
  | cons op rest inductionHypothesis =>
      cases op with
      | push pushed =>
          rw [number, List.mem_cons] at mem
          rcases mem with now | later
          · injection now with same
            injection same with sameEntry
            exact List.mem_cons.mpr (Or.inl (congrArg Op.push sameEntry))
          · exact List.mem_cons_of_mem _ (inductionHypothesis later)
      | drain max =>
          rw [number, List.mem_cons] at mem
          rcases mem with now | later
          · simp at now
          · exact List.mem_cons_of_mem _ (inductionHypothesis later)

end Numbered

/-- The run of the ring and its run on numbered entries: the same entries, each with the number
of its push, and the numbers are decided by the counts. -/
theorem Ring.runs {α : Type} [Entry α] (ops : List (Op α))
    (nonEmpty : ∀ entry, Op.push entry ∈ ops → Entry.kind entry ≠ .empty) :
    ∃ final numberedFinal answers,
      run Ring.step Ring.new ops = some (final, answers.map (List.map Prod.fst)) ∧
      run Ring.step Ring.new (number 0 ops) = some (numberedFinal, answers) ∧
      answers.map (List.map Prod.snd) = numbers 0 0 ops ∧
      ∀ entry k, (entry, k) ∈ answers.flatten → (pushes ops)[k]? = some entry := by
  obtain ⟨final, ran⟩ := Ring.holds_new.run ops nonEmpty
  obtain ⟨numberedFinal, numberedRan⟩ := (Ring.holds_new (α := α × Nat)).run (number 0 ops)
    (by
      intro entry mem
      exact nonEmpty entry.1 (push_mem_number (k := entry.2) mem))
  refine ⟨final, numberedFinal, _, ?_, numberedRan, deliver_number_snd ops [] 0 le_rfl, ?_⟩
  · rw [ran, ← deliver_number_fst ops [] 0]
    rfl
  · intro entry k mem
    exact mem_deliver_number ops [] 0 mem

end AxiomKernel.LogBuffer
