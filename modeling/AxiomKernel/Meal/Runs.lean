import Mathlib
import AxiomKernel.Lib.Bytes
import AxiomKernel.Lib.HashChain
import AxiomKernel.Lib.RingSlots
import AxiomKernel.Lib.EventRun
import AxiomKernel.Crypto.Sha256
import AxiomKernel.Meal.Log
import AxiomKernel.Meal.History

/-!
# Honest runs of the MEAL log

`appendAll` makes a sequence of `append` calls.  Below the overflow of `total`
it returns, the ring then holds the last 64 entries of the issued history, one
entry for each call, and `verify_chain` accepts it.
-/

set_option autoImplicit false

namespace AxiomKernel.Meal

open ByteStrings Crypto HashChains RingSlots EventRuns

def MealLog.appendAll (log : MealLog) (calls : List AppendCall) : Option (MealLog × List U64) :=
  run MealLog.append log calls

def MealLog.entryCount (log : MealLog) : U64 := log.total

structure AppendCall.Recorded (call : AppendCall) (e : AuditEntry) : Prop where
  timestamp : e.timestamp = call.ticks
  eventType : e.eventType = call.event
  actor : e.actor = call.actor
  valueA : e.valueA = call.a
  valueB : e.valueB = call.b

theorem MealLog.newEntry_recorded (log : MealLog) (call : AppendCall) :
    call.Recorded (log.newEntry call) :=
  ⟨rfl, rfl, rfl, rfl, rfl⟩

/-! ## One call -/

theorem MealLog.append_returns (log : MealLog) (call : AppendCall)
    (room : log.total.toNat + 1 < 2 ^ 64) :
    ∃ next, log.append call = some (next, log.total) ∧
      next.total.toNat = log.total.toNat + 1 := by
  refine ⟨_, if_pos room, ?_⟩
  have one : (1 : U64).toNat = 1 := rfl
  rw [BitVec.toNat_add, one, Nat.mod_eq_of_lt room]

theorem MealLog.append_seq {log next : MealLog} {call : AppendCall} {seq : U64}
    (success : log.append call = some (next, seq)) : seq = (log.newEntry call).sequence := by
  rw [MealLog.append] at success
  split at success
  case isTrue => exact (Prod.mk.inj (Option.some.inj success)).2.symm
  case isFalse => cases success

/-! ## Many calls -/

theorem MealLog.appendAll_returns (log : MealLog) (calls : List AppendCall)
    (room : log.total.toNat + calls.length < 2 ^ 64) :
    ∃ final seqs, log.appendAll calls = some (final, seqs) := by
  refine run_returns (fun rest state => state.total.toNat + rest.length < 2 ^ 64) ?_ calls log room
  intro call rest state ready
  rw [List.length_cons] at ready
  obtain ⟨next, success, total⟩ := state.append_returns call (by omega)
  exact ⟨next, state.total, success, by omega⟩

theorem appendAll_new_records {key : Bytes 32} {calls : List AppendCall} {log : MealLog}
    {seqs : List U64} (ran : (MealLog.new key).appendAll calls = some (log, seqs)) :
    ∃ issued, Records key log issued ∧ List.Forall₂ AppendCall.Recorded calls issued ∧
      seqs = issued.map AuditEntry.sequence := by
  refine run_induction (motive := fun calls seqs log => ∃ issued, Records key log issued ∧
    List.Forall₂ AppendCall.Recorded calls issued ∧ seqs = issued.map AuditEntry.sequence)
    ⟨[], records_new key, List.Forall₂.nil, rfl⟩ ?_ ran
  rintro calls seqs log call seq next ⟨issued, records, recorded, rfl⟩ success
  refine ⟨issued ++ [log.newEntry call], records.append success, ?_, ?_⟩
  · exact List.rel_append recorded (List.Forall₂.cons (log.newEntry_recorded call) List.Forall₂.nil)
  · rw [List.map_append, MealLog.append_seq success]
    rfl

theorem Records.appendAll {key : Bytes 32} {calls : List AppendCall} {log final : MealLog}
    {issued : List AuditEntry} {seqs : List U64} (records : Records key log issued)
    (ran : log.appendAll calls = some (final, seqs)) :
    ∃ added, Records key final (issued ++ added) ∧
      List.Forall₂ AppendCall.Recorded calls added := by
  refine run_induction (motive := fun calls _ log => ∃ added, Records key log (issued ++ added) ∧
    List.Forall₂ AppendCall.Recorded calls added) ⟨[], ?_, List.Forall₂.nil⟩ ?_ ran
  · rwa [List.append_nil]
  · intro calls _ log call _ next before success
    obtain ⟨added, records, recorded⟩ := before
    refine ⟨added ++ [log.newEntry call], ?_, ?_⟩
    · rw [← List.append_assoc]
      exact records.append success
    · exact List.rel_append recorded
        (List.Forall₂.cons (log.newEntry_recorded call) List.Forall₂.nil)

/-- A run from `MealLog::new` returns below the overflow of `total`, and only there. -/
theorem appendAll_new_returns_iff (key : Bytes 32) (calls : List AppendCall) :
    (∃ log seqs, (MealLog.new key).appendAll calls = some (log, seqs)) ↔
      calls.length < 2 ^ 64 := by
  constructor
  · rintro ⟨log, seqs, ran⟩
    obtain ⟨issued, records, recorded, -⟩ := appendAll_new_records ran
    rw [recorded.length_eq, ← records.total]
    exact log.total.isLt
  · intro bounded
    have none : (MealLog.new key).total.toNat = 0 := rfl
    exact (MealLog.new key).appendAll_returns calls (by omega)

/-! ## Verification -/

theorem Records.verifyChain_eq {key : Bytes 32} {log : MealLog} {issued : List AuditEntry}
    (records : Records key log issued) :
    log.verifyChain = (min issued.length capacity, true) := by
  have accepted : log.verifyChain.2 = true := by
    rw [log.verifyChain_eq_true_iff, records.ringOrder_eq]
    refine ⟨?_, records.history.linked.infix (List.drop_suffix _ issued).isInfix⟩
    intro e member
    rw [log.verifyEntry_iff e, records.auditKey]
    exact records.macs e (List.mem_of_mem_drop member)
  have count : log.verifyChain.1 = min issued.length capacity := by
    rw [log.verifyChain_count accepted, records.ringOrder_eq, List.length_drop]
    omega
  exact Prod.ext count accepted

theorem verifyChain_accepts_honest_log (key : Bytes 32) (calls : List AppendCall)
    (bounded : calls.length < 2 ^ 64) :
    ∃ log seqs, (MealLog.new key).appendAll calls = some (log, seqs) ∧
      log.verifyChain = (min calls.length 64, true) := by
  obtain ⟨log, seqs, ran⟩ := (appendAll_new_returns_iff key calls).mpr bounded
  obtain ⟨issued, records, recorded, -⟩ := appendAll_new_records ran
  refine ⟨log, seqs, ran, ?_⟩
  rw [records.verifyChain_eq, recorded.length_eq]
  rfl

theorem verifyChain_accepts_seventy_calls :
    ∃ log seqs, (MealLog.new (Vector.replicate 32 0)).appendAll
        (List.replicate 70 ⟨0, .logInitialised, 0, 0, 0⟩) = some (log, seqs) ∧
      log.verifyChain = (64, true) :=
  verifyChain_accepts_honest_log (Vector.replicate 32 0)
    (List.replicate 70 ⟨0, .logInitialised, 0, 0, 0⟩) (by decide)

/-! ## Contents of the ring -/

/-- The log holds the last entries of `issued`, the history of the calls, which
returned `seqs`. -/
structure HoldsLast (key : Bytes 32) (calls : List AppendCall) (seqs : List U64)
    (issued : List AuditEntry) (log : MealLog) : Prop where
  recorded : List.Forall₂ AppendCall.Recorded calls issued
  entryCount : log.entryCount.toNat = calls.length
  writeHead : log.writeHead.val = calls.length % 64
  ringOrder : log.ringOrder = issued.drop (calls.length - min calls.length 64)
  returned : seqs = issued.map AuditEntry.sequence
  sequences : log.ringOrder.map (fun e => e.sequence.toNat) =
    List.range' (calls.length - min calls.length 64) (min calls.length 64)
  timestamps : (calls.map AppendCall.ticks).Pairwise (· ≤ ·) →
    (log.ringOrder.map AuditEntry.timestamp).Pairwise (· ≤ ·)
  firstLink : ∀ e, issued[0]? = some e → e.prevHash = sha256 genesis
  links : ∀ i before e, issued[i]? = some before → issued[i + 1]? = some e →
    e.prevHash = before.selfHash
  chainTip : log.chainTip = (issued.getLast?.map AuditEntry.selfHash).getD (sha256 genesis)
  macs : ∀ e ∈ issued, e.mac = hmacSha256 key.toList e.authBytes.toList

theorem timestamps_eq {calls : List AppendCall} {issued : List AuditEntry}
    (recorded : List.Forall₂ AppendCall.Recorded calls issued) :
    issued.map AuditEntry.timestamp = calls.map AppendCall.ticks := by
  induction recorded with
  | nil => rfl
  | cons first _ inductionHypothesis =>
      rw [List.map_cons, List.map_cons, inductionHypothesis, first.timestamp]

theorem Records.sequences_eq_range {key : Bytes 32} {log : MealLog} {issued : List AuditEntry}
    (records : Records key log issued) :
    issued.map (fun e => e.sequence.toNat) = List.range issued.length := by
  apply List.ext_getElem?
  intro i
  rw [List.getElem?_map]
  cases found : issued[i]? with
  | none =>
      have beyond := List.getElem?_eq_none_iff.mp found
      rw [Option.map_none, List.getElem?_eq_none (by rwa [List.length_range])]
  | some e =>
      have bound := (List.getElem?_eq_some_iff.mp found).1
      rw [Option.map_some, List.getElem?_range bound, records.sequences i e found]

/-- What the ring holds after any number of calls. -/
theorem appendAll_holds_last (key : Bytes 32) (calls : List AppendCall) :
    ((∃ log seqs, (MealLog.new key).appendAll calls = some (log, seqs)) ↔ calls.length < 2 ^ 64) ∧
      ∀ log seqs, (MealLog.new key).appendAll calls = some (log, seqs) →
        ∃ issued, HoldsLast key calls seqs issued log := by
  refine ⟨appendAll_new_returns_iff key calls, ?_⟩
  intro log seqs ran
  obtain ⟨issued, records, recorded, sequences⟩ := appendAll_new_records ran
  have lengths : calls.length = issued.length := recorded.length_eq
  have ring : log.ringOrder = issued.drop (calls.length - min calls.length 64) := by
    rw [records.ringOrder_eq, lengths]
    congr 1
    have slots : capacity = 64 := rfl
    omega
  refine ⟨issued, recorded, ?_, ?_, ring, sequences, ?_, ?_,
    fun e first => ?_, fun i before e foundBefore found => ?_, records.chainTip, records.macs⟩
  · rw [MealLog.entryCount, records.total, lengths]
  · rw [records.writeHead, lengths]
    rfl
  · rw [ring, List.map_drop, records.sequences_eq_range, ← lengths, List.range_eq_range',
      List.drop_range']
    congr 1 <;> omega
  · intro monotone
    rw [ring, List.map_drop, timestamps_eq recorded]
    exact monotone.sublist (List.drop_sublist _ _)
  · exact records.history.rooted e (by rwa [List.head?_eq_getElem?])
  · obtain ⟨bound, rfl⟩ := List.getElem?_eq_some_iff.mp found
    obtain ⟨_, rfl⟩ := List.getElem?_eq_some_iff.mp foundBefore
    exact List.isChain_iff_getElem.mp records.history.linked i bound

end AxiomKernel.Meal
