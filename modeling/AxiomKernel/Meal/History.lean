import Mathlib
import AxiomKernel.Lib.HashChain
import AxiomKernel.Lib.RingSlots
import AxiomKernel.Meal.Log

/-!
# The issued history behind a MEAL log

The ring forgets, so what `append` has issued is kept beside the log as a list.
`Reached key log issued` is the set of runs from `MealLog::new`; `Records` is
what every run preserves, and ties the ring, the head, the total and the chain
tip to the issued list.  `verifyChain_eq_true_iff` says what `verify_chain`
checks of the entries it reads, for any log at all.
-/

set_option autoImplicit false

namespace AxiomKernel.Meal

open ByteStrings Crypto HashChains RingSlots

instance : NeZero capacity := ⟨by decide⟩

def MealLog.ringOrder (log : MealLog) : List AuditEntry :=
  readRing log.entries log.writeHead.val

theorem MealLog.verifyEntry_iff (log : MealLog) (e : AuditEntry) :
    log.verifyEntry e = true ↔ e.mac = hmacSha256 log.auditKey.toList e.authBytes.toList := by
  rw [MealLog.verifyEntry, beq_iff_eq, xorDiff_eq_zero_iff]
  exact eq_comm

/-- The MAC is a function of the other fields, so for entries that verify under
one key the serialisation determines the entry. -/
theorem AuditEntry.eq_of_authBytes {left right : AuditEntry} {key : Bytes 32}
    (leftMac : left.mac = hmacSha256 key.toList left.authBytes.toList)
    (rightMac : right.mac = hmacSha256 key.toList right.authBytes.toList)
    (same : left.authBytes = right.authBytes) : left = right := by
  obtain ⟨sequence, timestamp, eventType, actor, valueA, valueB, prevHash⟩ :=
    AuditEntry.authBytes_injective same
  have mac : left.mac = right.mac := by rw [leftMac, rightMac, same]
  cases left with
  | mk =>
    cases right with
    | mk =>
      simp only [AuditEntry.mk.injEq]
      exact ⟨sequence, timestamp, eventType, actor, valueA, valueB, prevHash, mac⟩

/-! ## What `verify_chain` checks -/

/-- The entry the loop compares with, if any, is the one before. -/
def FollowsLast (prev : Option (Bytes 32)) (block : List AuditEntry) : Prop :=
  ∀ ph first, prev = some ph → block.head? = some first → first.prevHash = ph

theorem MealLog.verifyFrom_empty (log : MealLog) {i : Nat} (rest : List Nat)
    (prev : Option (Bytes 32)) (n : Nat)
    (slot : log.entries.get (Fin.ofNat capacity (log.writeHead.val + i)) = none) :
    log.verifyFrom (i :: rest) prev n = log.verifyFrom rest prev n := by
  have visited : log.entries.get ⟨(log.writeHead.val + i) % capacity, Nat.mod_lt _ capacity_pos⟩ =
      none := slot
  rw [MealLog.verifyFrom, visited]

/-- A stored entry is accepted when its MAC and its link to `prev` are right. -/
theorem MealLog.verifyFrom_stored (log : MealLog) {i : Nat} (rest : List Nat)
    (prev : Option (Bytes 32)) (n : Nat) {e : AuditEntry}
    (slot : log.entries.get (Fin.ofNat capacity (log.writeHead.val + i)) = some e) :
    log.verifyFrom (i :: rest) prev n =
      if log.verifyEntry e = true ∧ ∀ ph, prev = some ph → e.prevHash = ph then
        log.verifyFrom rest (some e.selfHash) (n + 1)
      else (n, false) := by
  have visited : log.entries.get ⟨(log.writeHead.val + i) % capacity, Nat.mod_lt _ capacity_pos⟩ =
      some e := slot
  rw [MealLog.verifyFrom, visited]
  cases authentic : log.verifyEntry e with
  | false => simp [authentic]
  | true =>
      cases prev with
      | none => simp [authentic]
      | some ph => by_cases link : e.prevHash = ph <;> simp [authentic, link]

theorem MealLog.verifyFrom_eq_true_iff (log : MealLog) (offsets : List Nat)
    (prev : Option (Bytes 32)) (n : Nat) (block : List AuditEntry)
    (visited : block =
      offsets.filterMap fun i => log.entries.get (Fin.ofNat capacity (log.writeHead.val + i))) :
    ((log.verifyFrom offsets prev n).2 = true ↔
      (∀ e ∈ block, log.verifyEntry e = true) ∧
        Linked AuditEntry.selfHash AuditEntry.prevHash block ∧ FollowsLast prev block) ∧
    ((log.verifyFrom offsets prev n).2 = true →
      (log.verifyFrom offsets prev n).1 = n + block.length) := by
  induction offsets generalizing prev n block with
  | nil =>
      subst visited
      simp [MealLog.verifyFrom, Linked, FollowsLast]
  | cons i rest inductionHypothesis =>
      cases slot : log.entries.get (Fin.ofNat capacity (log.writeHead.val + i)) with
      | none =>
          rw [List.filterMap_cons, slot] at visited
          rw [log.verifyFrom_empty rest prev n slot]
          exact inductionHypothesis prev n block visited
      | some e =>
          rw [List.filterMap_cons, slot] at visited
          subst visited
          obtain ⟨checked, counted⟩ := inductionHypothesis (some e.selfHash) (n + 1) _ rfl
          rw [log.verifyFrom_stored rest prev n slot]
          split
          case isTrue accepted =>
            constructor
            · rw [checked]
              simp only [List.forall_mem_cons, Linked, FollowsLast, List.isChain_cons,
                List.head?_cons, Option.some.injEq]
              constructor
              · rintro ⟨macs, linked, follows⟩
                refine ⟨⟨accepted.1, macs⟩, ⟨?_, linked⟩, ?_⟩
                · intro next isNext
                  exact follows e.selfHash next rfl isNext
                · rintro ph first isPrev rfl
                  exact accepted.2 ph isPrev
              · rintro ⟨⟨_, macs⟩, ⟨heads, linked⟩, _⟩
                refine ⟨macs, linked, ?_⟩
                rintro ph next rfl isNext
                exact heads next isNext
            · intro success
              rw [counted success, List.length_cons]
              omega
          case isFalse refused =>
            refine ⟨⟨fun accepted => by simp at accepted, ?_⟩, fun accepted => by simp at accepted⟩
            rintro ⟨macs, _, follows⟩
            exact absurd ⟨macs e (by simp), fun ph isPrev => follows ph e isPrev rfl⟩ refused

/-- `verify_chain` accepts exactly when every visited entry has the right MAC
and each links to the one before it. -/
theorem MealLog.verifyChain_eq_true_iff (log : MealLog) :
    log.verifyChain.2 = true ↔
      (∀ e ∈ log.ringOrder, log.verifyEntry e = true) ∧
        Linked AuditEntry.selfHash AuditEntry.prevHash log.ringOrder := by
  have spec := (log.verifyFrom_eq_true_iff (List.range capacity) none 0 log.ringOrder rfl).1
  simpa [MealLog.verifyChain, FollowsLast] using spec

/-- On acceptance the count is the number of entries visited. -/
theorem MealLog.verifyChain_count (log : MealLog) (accepted : log.verifyChain.2 = true) :
    log.verifyChain.1 = log.ringOrder.length := by
  have spec := (log.verifyFrom_eq_true_iff (List.range capacity) none 0 log.ringOrder rfl).2
  rw [MealLog.verifyChain, spec accepted, Nat.zero_add]

/-! ## Runs -/

/-- The logs reached from `MealLog::new`, with the entries issued on the way. -/
inductive Reached (key : Bytes 32) : MealLog → List AuditEntry → Prop
  | start : Reached key (MealLog.new key) []
  | append {log next : MealLog} {issued : List AuditEntry} {call : AppendCall} {seq : U64}
      (earlier : Reached key log issued) (success : log.append call = some (next, seq)) :
      Reached key next (issued ++ [log.newEntry call])

/-- What the log knows of the entries issued so far. -/
structure Records (key : Bytes 32) (log : MealLog) (issued : List AuditEntry) : Prop where
  auditKey : log.auditKey = key
  total : log.total.toNat = issued.length
  writeHead : log.writeHead.val = issued.length % capacity
  chainTip : log.chainTip = (issued.getLast?.map AuditEntry.selfHash).getD (sha256 genesis)
  slots : Represents log.entries issued
  history : History AuditEntry.selfHash AuditEntry.prevHash (sha256 genesis) issued
  sequences : ∀ (i : Nat) (e : AuditEntry), issued[i]? = some e → e.sequence.toNat = i
  macs : ∀ e ∈ issued, e.mac = hmacSha256 key.toList e.authBytes.toList

theorem records_new (key : Bytes 32) : Records key (MealLog.new key) [] where
  auditKey := rfl
  total := rfl
  writeHead := rfl
  chainTip := rfl
  slots := represents_empty
  history := History.nil
  sequences := by simp
  macs := by simp

theorem AuditEntry.authBytes_withMac (e : AuditEntry) (mac : Bytes 32) :
    AuditEntry.authBytes { e with mac := mac } = e.authBytes := by
  simp only [AuditEntry.authBytes]

theorem MealLog.newEntry_authBytes (log : MealLog) (call : AppendCall) :
    (log.newEntry call).authBytes = (log.blankEntry call).authBytes :=
  AuditEntry.authBytes_withMac (log.blankEntry call) _

theorem MealLog.newEntry_mac (log : MealLog) (call : AppendCall) :
    (log.newEntry call).mac =
      hmacSha256 log.auditKey.toList (log.newEntry call).authBytes.toList := by
  rw [log.newEntry_authBytes call, MealLog.newEntry]

theorem Records.append {key : Bytes 32} {log next : MealLog} {issued : List AuditEntry}
    {call : AppendCall} {seq : U64} (records : Records key log issued)
    (success : log.append call = some (next, seq)) :
    Records key next (issued ++ [log.newEntry call]) := by
  rw [MealLog.append] at success
  split at success
  case isFalse => simp at success
  case isTrue room =>
    simp only [Option.some.injEq, Prod.mk.injEq] at success
    obtain ⟨nextEq, _⟩ := success
    subst nextEq
    refine ⟨records.auditKey, ?_, ?_, ?_, ?_, ?_, ?_, ?_⟩
    · have one : (1 : U64).toNat = 1 := rfl
      rw [BitVec.toNat_add, one, Nat.mod_eq_of_lt room, records.total, List.length_append,
        List.length_singleton]
    · simp only [records.writeHead, List.length_append, List.length_singleton]
      rw [Nat.mod_add_mod]
    · simp
    · have head : log.writeHead = Fin.ofNat capacity issued.length :=
        Fin.ext records.writeHead
      simp only [head]
      exact records.slots.push (log.newEntry call)
    · exact records.history.snoc records.chainTip
    · intro i e found
      rw [List.getElem?_append] at found
      split at found
      case isTrue => exact records.sequences i e found
      case isFalse =>
        obtain ⟨last, rfl⟩ : i - issued.length = 0 ∧ log.newEntry call = e := by
          rw [List.getElem?_singleton] at found
          split at found
          case isTrue atLast => exact ⟨atLast, by simpa using found⟩
          case isFalse => simp at found
        have sequence : (log.newEntry call).sequence = log.total := rfl
        rw [sequence, records.total]
        omega
    · intro e member
      rw [List.mem_append, List.mem_singleton] at member
      rcases member with member | rfl
      · exact records.macs e member
      · rw [log.newEntry_mac call, records.auditKey]

theorem Reached.records {key : Bytes 32} {log : MealLog} {issued : List AuditEntry}
    (reached : Reached key log issued) : Records key log issued := by
  induction reached with
  | start => exact records_new key
  | append _ success inductionHypothesis => exact inductionHypothesis.append success

theorem Records.ringOrder_eq {key : Bytes 32} {log : MealLog} {issued : List AuditEntry}
    (records : Records key log issued) :
    log.ringOrder = issued.drop (issued.length - capacity) := by
  rw [← readRing_represents records.slots, MealLog.ringOrder, records.writeHead, readRing, readRing]
  apply List.filterMap_congr
  intro i _
  congr 1
  apply Fin.ext
  simp [Nat.add_mod]

theorem Records.nodup {key : Bytes 32} {log : MealLog} {issued : List AuditEntry}
    (records : Records key log issued) : issued.Nodup := by
  rw [List.nodup_iff_getElem?_ne_getElem?]
  intro i j iLt jBound same
  have foundJ : issued[j]? = some (issued[j]) := List.getElem?_eq_getElem jBound
  have sequenceI := records.sequences i _ (same.trans foundJ)
  have sequenceJ := records.sequences j _ foundJ
  omega

/-! ## Digests -/

/-- SHA-256 has no collision among the serialised entries and the genesis string. -/
def NoCollision (issued : List AuditEntry) : Prop :=
  ∀ left ∈ genesis :: issued.map (fun e => e.authBytes.toList),
    ∀ right ∈ genesis :: issued.map (fun e => e.authBytes.toList),
      sha256 left = sha256 right → left = right

theorem authBytes_ne_genesis (e : AuditEntry) : e.authBytes.toList ≠ genesis := by
  intro same
  have lengths := congrArg List.length same
  rw [Vector.length_toList] at lengths
  exact absurd lengths (by decide)

theorem Records.collisionFree {key : Bytes 32} {log : MealLog} {issued : List AuditEntry}
    (records : Records key log issued) (noCollision : NoCollision issued) :
    CollisionFree AuditEntry.selfHash (sha256 genesis) issued where
  separates := by
    intro left leftMember right rightMember same
    have serialised : left.authBytes.toList = right.authBytes.toList :=
      noCollision _ (List.mem_cons_of_mem _ (List.mem_map.mpr ⟨left, leftMember, rfl⟩))
        _ (List.mem_cons_of_mem _ (List.mem_map.mpr ⟨right, rightMember, rfl⟩)) same
    exact AuditEntry.eq_of_authBytes (records.macs left leftMember)
      (records.macs right rightMember) (Vector.toList_inj.mp serialised)
  avoidsRoot := by
    intro e member same
    exact authBytes_ne_genesis e (noCollision _
      (List.mem_cons_of_mem _ (List.mem_map.mpr ⟨e, member, rfl⟩)) _ (by simp) same)

/-- When every visited entry is one of the issued, acceptance means that they
form a contiguous block of the history. -/
theorem Records.accepts_iff_infix {key : Bytes 32} {log tampered : MealLog}
    {issued : List AuditEntry} (records : Records key log issued)
    (noCollision : NoCollision issued) (sameKey : tampered.auditKey = key)
    (members : ∀ e ∈ tampered.ringOrder, e ∈ issued) :
    tampered.verifyChain.2 = true ↔ tampered.ringOrder <:+: issued := by
  have contiguous := linked_iff_infix records.history (records.collisionFree noCollision) members
  have authentic : ∀ e ∈ tampered.ringOrder, tampered.verifyEntry e = true := by
    intro e member
    rw [tampered.verifyEntry_iff e, sameKey]
    exact records.macs e (members e member)
  rw [tampered.verifyChain_eq_true_iff, contiguous]
  exact ⟨fun accepted => accepted.2, fun block => ⟨authentic, block⟩⟩

end AxiomKernel.Meal
