import Mathlib
import AxiomKernel.Lib.Bytes
import AxiomKernel.Lib.EventRun
import AxiomKernel.Meal.Log
import AxiomKernel.Meal.History
import AxiomKernel.Meal.Tamper

/-!
# Concurrent callers of `meal::log`

Tasks and interrupt handlers share `MEAL` behind a spin lock.  `log` makes one
attempt to take the lock and returns without a trace when somebody else holds
it; readers wait for the lock.  The agents' steps interleave in any order, and
`log_loses_nothing_iff` says in which orders the log records every call of `log`
that returned.
-/

set_option autoImplicit false

namespace AxiomKernel.Meal

open ByteStrings EventRuns

/-! ## Agents and the lock -/

structure LogCall where
  event : AuditEvent
  actor : U32
  a : U64
  b : U64

def LogCall.appendCall (call : LogCall) (ticks : U64) : AppendCall :=
  ⟨ticks, call.event, call.actor, call.a, call.b⟩

structure LogCall.RecordedBy (call : LogCall) (e : AuditEntry) : Prop where
  eventType : e.eventType = call.event
  actor : e.actor = call.actor
  valueA : e.valueA = call.a
  valueB : e.valueB = call.b

/-- Where an agent stands.  Calls of `log` are numbered in the order they begin. -/
inductive Phase where
  | outside
  /-- In `log`, with the guard, before `append`. -/
  | locked (id : Nat) (call : LogCall)
  /-- In `log`, after `append`, before the guard is dropped. -/
  | appended (id : Nat) (call : LogCall)
  | reading

inductive Action where
  /-- Enter `log` and `try_lock`. -/
  | attempt (call : LogCall)
  /-- The body of `append`, with the tick count it reads. -/
  | append (ticks : U64)
  /-- Drop the guard and return from `log`. -/
  | release
  /-- `MEAL.lock()` gets the lock; while it spins nothing changes. -/
  | lock
  | unlock

/-- What a step shows: an entry written, or a call that returned. -/
inductive Outcome where
  | silent
  | wrote (id : Nat) (e : AuditEntry)
  | returned (id : Nat) (call : LogCall)

structure System (τ : Type) where
  isLocked : Bool
  log : MealLog
  phase : τ → Phase
  calls : Nat

section Agents

variable {τ : Type}

def System.start (key : Bytes 32) : System τ where
  isLocked := false
  log := MealLog.new key
  phase := fun _ => .outside
  calls := 0

/-- The log after the body of `append`; `none` when `total` overflows. -/
def System.appendBody (system : System τ) (call : AppendCall) : Option MealLog :=
  (system.log.append call).map Prod.fst

variable [DecidableEq τ]

def System.moveTo (system : System τ) (agent : τ) (phase : Phase) : τ → Phase :=
  Function.update system.phase agent phase

/-- One action of one agent; `none` when the agent cannot make it. -/
def System.act (system : System τ) (agent : τ) (action : Action) : Option (System τ × Outcome) :=
  match action, system.phase agent with
  | .attempt call, .outside =>
      if system.isLocked then
        some ({ system with calls := system.calls + 1 }, .returned system.calls call)
      else
        some ({ system with
          isLocked := true
          phase := system.moveTo agent (.locked system.calls call)
          calls := system.calls + 1 }, .silent)
  | .append ticks, .locked id call => do
      let log ← system.appendBody (call.appendCall ticks)
      return ({ system with log := log, phase := system.moveTo agent (.appended id call) },
        .wrote id (system.log.newEntry (call.appendCall ticks)))
  | .release, .appended id call =>
      some ({ system with isLocked := false, phase := system.moveTo agent .outside },
        .returned id call)
  | .lock, .outside =>
      if system.isLocked then none
      else
        some ({ system with isLocked := true, phase := system.moveTo agent .reading }, .silent)
  | .unlock, .reading =>
      some ({ system with isLocked := false, phase := system.moveTo agent .outside }, .silent)
  | _, _ => none

/-- The agents' actions in the order of a schedule. -/
def System.interleave (system : System τ) (schedule : List (τ × Action)) :
    Option (System τ × List Outcome) :=
  run (fun system event => system.act event.1 event.2) system schedule

end Agents

/-! ## What is claimed of a run -/

def Outcome.entryOf (id : Nat) : Outcome → Option AuditEntry
  | .wrote writer e => if writer = id then some e else none
  | _ => none

def writes (outcomes : List Outcome) (id : Nat) : List AuditEntry :=
  outcomes.filterMap (Outcome.entryOf id)

/-- Every call that returned has written exactly one entry, with its values. -/
def EveryCallWrote (outcomes : List Outcome) : Prop :=
  ∀ id call, Outcome.returned id call ∈ outcomes →
    ∃ e, writes outcomes id = [e] ∧ call.RecordedBy e

def Outcome.entry : Outcome → Option AuditEntry
  | .wrote _ e => some e
  | _ => none

/-- The log records what was written, all of it in this order, and every call that returned has
written exactly one of the entries, with its values. -/
def EveryCallLogged (key : Bytes 32) (log : MealLog) (outcomes : List Outcome) : Prop :=
  Records key log (outcomes.filterMap Outcome.entry) ∧ EveryCallWrote outcomes

def Action.acquires : Action → Bool
  | .attempt _ | .lock => true
  | _ => false

def Action.releases : Action → Bool
  | .release | .unlock => true
  | _ => false

def acquisitions {τ : Type} (schedule : List (τ × Action)) : Nat :=
  schedule.countP fun event => event.2.acquires

def releases {τ : Type} (schedule : List (τ × Action)) : Nat :=
  schedule.countP fun event => event.2.releases

/-- No call of `log` begins between another agent's acquisition of the lock and the
release of it. -/
def NeverContended {τ : Type} (schedule : List (τ × Action)) : Prop :=
  ∀ before agent call after, schedule = before ++ (agent, Action.attempt call) :: after →
    acquisitions before = releases before

/-! ## Mutual exclusion -/

section Exclusion

variable {τ : Type}

/-- At most one agent is inside, and only while the lock is held. -/
structure System.Exclusive (system : System τ) : Prop where
  held : ∀ agent, system.phase agent ≠ .outside → system.isLocked = true
  alone : ∀ agent other, system.phase agent ≠ .outside → system.phase other ≠ .outside →
    agent = other

theorem System.Exclusive.others {system : System τ} (exclusive : system.Exclusive) {agent : τ}
    {phase : Phase} (stands : system.phase agent = phase) (inside : phase ≠ .outside) (other : τ)
    (different : other ≠ agent) : system.phase other = .outside := by
  rw [← stands] at inside
  by_contra otherInside
  exact different (exclusive.alone other agent otherInside inside)

theorem System.Exclusive.allOutside {system : System τ} (exclusive : system.Exclusive)
    (free : system.isLocked = false) (agent : τ) : system.phase agent = .outside := by
  by_contra inside
  rw [exclusive.held agent inside] at free
  cases free

end Exclusion

/-! ## The steps, case by case -/

section Steps

variable {τ : Type} [DecidableEq τ]

/-- All the steps an agent can make. -/
inductive System.Steps (system : System τ) (agent : τ) : Action → System τ → Outcome → Prop
  | lost (call : LogCall) (outside : system.phase agent = .outside)
      (held : system.isLocked = true) :
      Steps system agent (.attempt call) { system with calls := system.calls + 1 }
        (.returned system.calls call)
  | entered (call : LogCall) (outside : system.phase agent = .outside)
      (free : system.isLocked = false) :
      Steps system agent (.attempt call)
        { system with
          isLocked := true
          phase := system.moveTo agent (.locked system.calls call)
          calls := system.calls + 1 }
        .silent
  | wrote (ticks : U64) (id : Nat) (call : LogCall) (log : MealLog)
      (inside : system.phase agent = .locked id call)
      (success : system.appendBody (call.appendCall ticks) = some log) :
      Steps system agent (.append ticks)
        { system with log := log, phase := system.moveTo agent (.appended id call) }
        (.wrote id (system.log.newEntry (call.appendCall ticks)))
  | left (id : Nat) (call : LogCall) (inside : system.phase agent = .appended id call) :
      Steps system agent .release
        { system with isLocked := false, phase := system.moveTo agent .outside }
        (.returned id call)
  | locked (outside : system.phase agent = .outside) (free : system.isLocked = false) :
      Steps system agent .lock
        { system with isLocked := true, phase := system.moveTo agent .reading } .silent
  | unlocked (inside : system.phase agent = .reading) :
      Steps system agent .unlock
        { system with isLocked := false, phase := system.moveTo agent .outside } .silent

theorem System.steps_of_act {system after : System τ} {agent : τ} {action : Action}
    {outcome : Outcome} (stepped : system.act agent action = some (after, outcome)) :
    system.Steps agent action after outcome := by
  unfold System.act at stepped
  split at stepped
  case h_1 call outside =>
    split at stepped
    case isTrue held =>
      obtain ⟨rfl, rfl⟩ := Prod.mk.inj (Option.some.inj stepped)
      exact .lost call outside held
    case isFalse free =>
      obtain ⟨rfl, rfl⟩ := Prod.mk.inj (Option.some.inj stepped)
      exact .entered call outside (Bool.eq_false_of_not_eq_true free)
  case h_2 ticks id call inside =>
    rw [Option.bind_eq_bind, Option.bind_eq_some_iff] at stepped
    obtain ⟨log, success, returned⟩ := stepped
    obtain ⟨rfl, rfl⟩ := Prod.mk.inj (Option.some.inj returned)
    exact .wrote ticks id call log inside success
  case h_3 id call inside =>
    obtain ⟨rfl, rfl⟩ := Prod.mk.inj (Option.some.inj stepped)
    exact .left id call inside
  case h_4 outside =>
    split at stepped
    case isTrue => cases stepped
    case isFalse free =>
      obtain ⟨rfl, rfl⟩ := Prod.mk.inj (Option.some.inj stepped)
      exact .locked outside (Bool.eq_false_of_not_eq_true free)
  case h_5 inside =>
    obtain ⟨rfl, rfl⟩ := Prod.mk.inj (Option.some.inj stepped)
    exact .unlocked inside
  case h_6 => cases stepped

/-! ## Each step keeps mutual exclusion -/

theorem System.moveTo_self (system : System τ) (agent : τ) (phase : Phase) :
    system.moveTo agent phase agent = phase := by
  rw [System.moveTo, Function.update_self]

theorem System.moveTo_of_ne (system : System τ) {agent other : τ} (different : other ≠ agent)
    (phase : Phase) : system.moveTo agent phase other = system.phase other := by
  rw [System.moveTo, Function.update_of_ne different]

/-- When all others are outside, so is everybody but the agent that moved. -/
theorem System.eq_of_moveTo {system : System τ} {agent other : τ} {phase : Phase}
    (outside : ∀ other, other ≠ agent → system.phase other = .outside)
    (inside : system.moveTo agent phase other ≠ .outside) : other = agent := by
  by_contra different
  rw [system.moveTo_of_ne different] at inside
  exact inside (outside other different)

theorem System.Exclusive.moveTo {system : System τ} {agent : τ} {phase : Phase}
    (outside : ∀ other, other ≠ agent → system.phase other = .outside) {isLocked : Bool}
    (locked : phase ≠ .outside → isLocked = true) (log : MealLog) (calls : Nat) :
    System.Exclusive { isLocked, log, phase := system.moveTo agent phase, calls } where
  held := by
    intro other inside
    obtain rfl := System.eq_of_moveTo outside inside
    apply locked
    rwa [← system.moveTo_self other phase]
  alone := by
    intro first second firstInside secondInside
    rw [System.eq_of_moveTo outside firstInside, System.eq_of_moveTo outside secondInside]

/-- The others are outside whenever the lock is free or the agent is inside. -/
theorem System.Steps.exclusive {system after : System τ} {agent : τ} {action : Action}
    {outcome : Outcome} (exclusive : system.Exclusive)
    (stepped : system.Steps agent action after outcome) : after.Exclusive := by
  cases stepped with
  | lost call outside held => exact ⟨exclusive.held, exclusive.alone⟩
  | entered call outside free =>
      exact .moveTo (fun other _ => exclusive.allOutside free other) (fun _ => rfl) _ _
  | wrote ticks id call log inside success =>
      have held := exclusive.held agent (by simp [inside])
      exact .moveTo (exclusive.others inside nofun) (fun _ => held) _ _
  | left id call inside =>
      exact .moveTo (exclusive.others inside nofun) (fun moved => absurd rfl moved) _ _
  | locked outside free =>
      exact .moveTo (fun other _ => exclusive.allOutside free other) (fun _ => rfl) _ _
  | unlocked inside =>
      exact .moveTo (exclusive.others inside nofun) (fun moved => absurd rfl moved) _ _

end Steps

/-! ## Entries and returned calls -/

theorem writes_concat (outcomes : List Outcome) (outcome : Outcome) (id : Nat) :
    writes (outcomes ++ [outcome]) id = writes outcomes id ++ (outcome.entryOf id).toList := by
  rw [writes, List.filterMap_append, List.filterMap_cons, List.filterMap_nil]
  cases outcome.entryOf id <;> rfl

theorem writes_silent (outcomes : List Outcome) (id : Nat) :
    writes (outcomes ++ [.silent]) id = writes outcomes id := by
  rw [writes_concat]
  exact List.append_nil _

theorem writes_returned (outcomes : List Outcome) (caller : Nat) (call : LogCall) (id : Nat) :
    writes (outcomes ++ [.returned caller call]) id = writes outcomes id := by
  rw [writes_concat]
  exact List.append_nil _

theorem writes_wrote_self (outcomes : List Outcome) (id : Nat) (e : AuditEntry) :
    writes (outcomes ++ [.wrote id e]) id = writes outcomes id ++ [e] := by
  rw [writes_concat, Outcome.entryOf, if_pos rfl]
  rfl

theorem writes_wrote_other (outcomes : List Outcome) {writer id : Nat} (e : AuditEntry)
    (different : writer ≠ id) :
    writes (outcomes ++ [.wrote writer e]) id = writes outcomes id := by
  rw [writes_concat, Outcome.entryOf, if_neg different]
  exact List.append_nil _

theorem returned_mem_concat {outcomes : List Outcome} {outcome : Outcome} {id : Nat}
    {call : LogCall} :
    Outcome.returned id call ∈ outcomes ++ [outcome] ↔
      Outcome.returned id call ∈ outcomes ∨ Outcome.returned id call = outcome := by
  rw [List.mem_append, List.mem_singleton]

theorem everyCallWrote_silent (outcomes : List Outcome) :
    EveryCallWrote (outcomes ++ [.silent]) ↔ EveryCallWrote outcomes := by
  simp only [EveryCallWrote, returned_mem_concat, reduceCtorEq, or_false, writes_silent]

theorem everyCallWrote_wrote {outcomes : List Outcome} {id : Nat} (e : AuditEntry)
    (notReturned : ∀ call, Outcome.returned id call ∉ outcomes) :
    EveryCallWrote (outcomes ++ [.wrote id e]) ↔ EveryCallWrote outcomes := by
  simp only [EveryCallWrote, returned_mem_concat, reduceCtorEq, or_false]
  refine forall₂_congr fun caller call => imp_congr_right fun returned => ?_
  have different : id ≠ caller := by
    rintro rfl
    exact notReturned call returned
  rw [writes_wrote_other outcomes e different]

theorem everyCallWrote_returned (outcomes : List Outcome) (id : Nat) (call : LogCall) :
    EveryCallWrote (outcomes ++ [.returned id call]) ↔
      EveryCallWrote outcomes ∧ ∃ e, writes outcomes id = [e] ∧ call.RecordedBy e := by
  simp only [EveryCallWrote, returned_mem_concat, writes_returned]
  constructor
  · intro logged
    exact ⟨fun caller earlier member => logged caller earlier (Or.inl member),
      logged id call (Or.inr rfl)⟩
  · rintro ⟨logged, last⟩ caller earlier (member | same)
    · exact logged caller earlier member
    · obtain ⟨rfl, rfl⟩ := Outcome.returned.inj same
      exact last

/-! ## The bookkeeping of calls -/

/-- A call that is under way has not returned; it has written nothing before
`append` and its own entry after. -/
def Phase.Accounted (outcomes : List Outcome) (calls : Nat) : Phase → Prop
  | .outside | .reading => True
  | .locked id _ =>
      id < calls ∧ (∀ call, Outcome.returned id call ∉ outcomes) ∧ writes outcomes id = []
  | .appended id call =>
      id < calls ∧ (∀ other, Outcome.returned id other ∉ outcomes) ∧
        ∃ e, writes outcomes id = [e] ∧ call.RecordedBy e

/-- Outcomes belong to calls that have begun. -/
structure System.Accounts {τ : Type} (system : System τ) (outcomes : List Outcome) : Prop where
  returned : ∀ id call, Outcome.returned id call ∈ outcomes → id < system.calls
  unwritten : ∀ id, system.calls ≤ id → writes outcomes id = []
  phases : ∀ agent, (system.phase agent).Accounted outcomes system.calls

theorem LogCall.newEntry_recordedBy (log : MealLog) (call : LogCall) (ticks : U64) :
    call.RecordedBy (log.newEntry (call.appendCall ticks)) :=
  ⟨rfl, rfl, rfl, rfl⟩

theorem Phase.Accounted.lost {outcomes : List Outcome} {calls : Nat} {phase : Phase}
    (accounted : phase.Accounted outcomes calls) (call : LogCall) :
    phase.Accounted (outcomes ++ [.returned calls call]) (calls + 1) := by
  have stillOut : ∀ id, id < calls → (∀ other, Outcome.returned id other ∉ outcomes) →
      ∀ other, Outcome.returned id other ∉ outcomes ++ [.returned calls call] := by
    intro id before notReturned other member
    rcases returned_mem_concat.mp member with earlier | same
    · exact notReturned other earlier
    · exact absurd (Outcome.returned.inj same).1 (Nat.ne_of_lt before)
  cases phase with
  | outside => trivial
  | reading => trivial
  | locked id own =>
      obtain ⟨before, notReturned, nothing⟩ := accounted
      exact ⟨Nat.lt_succ_of_lt before, stillOut id before notReturned,
        by rw [writes_returned, nothing]⟩
  | appended id own =>
      obtain ⟨before, notReturned, entry, one, recorded⟩ := accounted
      exact ⟨Nat.lt_succ_of_lt before, stillOut id before notReturned, entry,
        by rw [writes_returned, one], recorded⟩

theorem System.Accounts.silent {τ : Type} {system after : System τ} {outcomes : List Outcome}
    (accounts : system.Accounts outcomes) (noFewer : system.calls ≤ after.calls)
    (phases : ∀ agent, (after.phase agent).Accounted (outcomes ++ [.silent]) after.calls) :
    after.Accounts (outcomes ++ [.silent]) := by
  refine ⟨?_, ?_, phases⟩
  · intro id call member
    rcases returned_mem_concat.mp member with earlier | impossible
    · exact lt_of_lt_of_le (accounts.returned id call earlier) noFewer
    · cases impossible
  · intro id later
    rw [writes_silent, accounts.unwritten id (noFewer.trans later)]

theorem System.Accounts.afterReturn {τ : Type} {system after : System τ} {outcomes : List Outcome}
    {id : Nat} {call : LogCall} (accounts : system.Accounts outcomes)
    (noFewer : system.calls ≤ after.calls) (begun : id < after.calls)
    (phases : ∀ agent, (after.phase agent).Accounted (outcomes ++ [.returned id call]) after.calls) :
    after.Accounts (outcomes ++ [.returned id call]) := by
  refine ⟨?_, ?_, phases⟩
  · intro other earlierCall member
    rcases returned_mem_concat.mp member with earlier | same
    · exact lt_of_lt_of_le (accounts.returned other earlierCall earlier) noFewer
    · rw [(Outcome.returned.inj same).1]
      exact begun
  · intro other later
    rw [writes_returned, accounts.unwritten other (noFewer.trans later)]

section Bookkeeping

variable {τ : Type} [DecidableEq τ]

theorem System.moveTo_accounted {system : System τ} {agent : τ} {phase : Phase}
    {outcomes : List Outcome} {calls : Nat}
    (outside : ∀ other, other ≠ agent → system.phase other = .outside)
    (accounted : phase.Accounted outcomes calls) (other : τ) :
    (system.moveTo agent phase other).Accounted outcomes calls := by
  by_cases same : other = agent
  · rw [same, system.moveTo_self]
    exact accounted
  · rw [system.moveTo_of_ne same, outside other same]
    trivial

theorem System.Steps.accounts {system after : System τ} {agent : τ} {action : Action}
    {outcome : Outcome} {outcomes : List Outcome} (exclusive : system.Exclusive)
    (accounts : system.Accounts outcomes) (stepped : system.Steps agent action after outcome) :
    after.Accounts (outcomes ++ [outcome]) := by
  have mine := accounts.phases agent
  cases stepped with
  | lost call outside held =>
      exact accounts.afterReturn (Nat.le_succ _) (Nat.lt_succ_self _)
        fun other => (accounts.phases other).lost call
  | entered call outside free =>
      refine accounts.silent (Nat.le_succ _)
        (System.moveTo_accounted (fun other _ => exclusive.allOutside free other) ?_)
      refine ⟨Nat.lt_succ_self _, ?_, by rw [writes_silent, accounts.unwritten _ (le_refl _)]⟩
      -- the number is new, so no call under it has returned
      intro other member
      exact absurd (accounts.returned _ other (by simpa using member)) (lt_irrefl _)
  | wrote ticks id call log inside success =>
      rw [inside] at mine
      obtain ⟨before, notReturned, nothing⟩ := mine
      refine ⟨?_, ?_, System.moveTo_accounted (exclusive.others inside nofun) ?_⟩
      · intro other earlier member
        exact accounts.returned other earlier (by simpa using member)
      · intro other later
        have different : id ≠ other := Nat.ne_of_lt (lt_of_lt_of_le before later)
        rw [writes_wrote_other outcomes _ different, accounts.unwritten other later]
      · refine ⟨before, ?_, _, by rw [writes_wrote_self, nothing]; rfl,
          LogCall.newEntry_recordedBy system.log call ticks⟩
        intro other member
        exact notReturned other (by simpa using member)
  | left id call inside =>
      rw [inside] at mine
      exact accounts.afterReturn (le_refl _) mine.1
        (System.moveTo_accounted (exclusive.others inside nofun) trivial)
  | locked outside free =>
      exact accounts.silent (le_refl _)
        (System.moveTo_accounted (fun other _ => exclusive.allOutside free other) trivial)
  | unlocked inside =>
      exact accounts.silent (le_refl _)
        (System.moveTo_accounted (exclusive.others inside nofun) trivial)

/-- A step loses a call only when the call begins while the lock is held. -/
theorem System.Steps.everyCallWrote_iff {system after : System τ} {agent : τ} {action : Action}
    {outcome : Outcome} {outcomes : List Outcome} (accounts : system.Accounts outcomes)
    (stepped : system.Steps agent action after outcome) :
    EveryCallWrote (outcomes ++ [outcome]) ↔
      EveryCallWrote outcomes ∧ ∀ call, action = .attempt call → system.isLocked = false := by
  have mine := accounts.phases agent
  cases stepped with
  | lost call outside held =>
      rw [everyCallWrote_returned, accounts.unwritten _ (le_refl _)]
      simp [held]
  | entered call outside free => simp [everyCallWrote_silent, free]
  | wrote ticks id call log inside success =>
      rw [inside] at mine
      simp [everyCallWrote_wrote _ mine.2.1]
  | left id call inside =>
      rw [inside] at mine
      simp [everyCallWrote_returned, mine.2.2]
  | locked outside free => simp [everyCallWrote_silent]
  | unlocked inside => simp [everyCallWrote_silent]

end Bookkeeping

/-! ## Contention -/

section Contention

variable {τ : Type}

theorem neverContended_nil : NeverContended ([] : List (τ × Action)) := by
  intro before agent call after impossible
  simp at impossible

theorem neverContended_concat (schedule : List (τ × Action)) (agent : τ) (action : Action) :
    NeverContended (schedule ++ [(agent, action)]) ↔
      NeverContended schedule ∧
        ∀ call, action = .attempt call → acquisitions schedule = releases schedule := by
  constructor
  · intro uncontended
    refine ⟨?_, ?_⟩
    · rintro before other call after rfl
      exact uncontended before other call (after ++ [(agent, action)]) (by simp)
    · rintro call rfl
      exact uncontended schedule agent call [] rfl
  · rintro ⟨uncontended, last⟩ before other call after split
    rcases List.eq_nil_or_concat after with rfl | ⟨front, final, rfl⟩
    · obtain ⟨rfl, same⟩ := List.append_inj' split rfl
      have attempted : action = .attempt call := (Prod.mk.inj (List.cons.inj same).1).2
      exact last call attempted
    · rw [List.concat_eq_append, ← List.cons_append, ← List.append_assoc] at split
      obtain ⟨rfl, -⟩ := List.append_inj' split rfl
      exact uncontended before other call front rfl

theorem acquisitions_concat (schedule : List (τ × Action)) (agent : τ) (action : Action) :
    acquisitions (schedule ++ [(agent, action)]) =
      acquisitions schedule + action.acquires.toNat := by
  rw [acquisitions, List.countP_append, List.countP_singleton]
  cases action.acquires <;> rfl

theorem releases_concat (schedule : List (τ × Action)) (agent : τ) (action : Action) :
    releases (schedule ++ [(agent, action)]) = releases schedule + action.releases.toNat := by
  rw [releases, List.countP_append, List.countP_singleton]
  cases action.releases <;> rfl

/-- What every interleaving keeps. -/
structure Interleaved (schedule : List (τ × Action)) (outcomes : List Outcome)
    (system : System τ) : Prop where
  exclusive : system.Exclusive
  accounts : system.Accounts outcomes
  logged : EveryCallWrote outcomes ↔ NeverContended schedule
  balance : NeverContended schedule →
    acquisitions schedule = releases schedule + system.isLocked.toNat

theorem interleaved_start (key : Bytes 32) :
    Interleaved [] [] (System.start key : System τ) where
  exclusive := ⟨fun _ inside => absurd rfl inside, fun _ _ inside => absurd rfl inside⟩
  accounts := ⟨by simp, fun _ _ => rfl, fun _ => trivial⟩
  logged := by simp [EveryCallWrote, neverContended_nil]
  balance := fun _ => rfl

variable [DecidableEq τ]

/-- An uncontended step acquires or releases the lock as its action says. -/
theorem System.Steps.balance {system after : System τ} {agent : τ} {action : Action}
    {outcome : Outcome} (exclusive : system.Exclusive)
    (uncontended : ∀ call, action = .attempt call → system.isLocked = false)
    (stepped : system.Steps agent action after outcome) :
    system.isLocked.toNat + action.acquires.toNat =
      action.releases.toNat + after.isLocked.toNat := by
  cases stepped with
  | lost call outside held =>
      rw [uncontended call rfl] at held
      cases held
  | entered call outside free => simp [free, Action.acquires, Action.releases]
  | wrote ticks id call log inside success => simp [Action.acquires, Action.releases]
  | left id call inside =>
      have held := exclusive.held agent (by simp [inside])
      simp [held, Action.acquires, Action.releases]
  | locked outside free => simp [free, Action.acquires, Action.releases]
  | unlocked inside =>
      have held := exclusive.held agent (by simp [inside])
      simp [held, Action.acquires, Action.releases]

theorem Interleaved.step {schedule : List (τ × Action)} {outcomes : List Outcome}
    {system after : System τ} {agent : τ} {action : Action} {outcome : Outcome}
    (interleaved : Interleaved schedule outcomes system)
    (stepped : system.Steps agent action after outcome) :
    Interleaved (schedule ++ [(agent, action)]) (outcomes ++ [outcome]) after := by
  -- up to here without contention, the counts tell whether the lock is held
  have free : NeverContended schedule →
      (system.isLocked = false ↔ acquisitions schedule = releases schedule) := by
    intro uncontended
    have balance := interleaved.balance uncontended
    cases held : system.isLocked <;> simp [held] at balance ⊢ <;> omega
  refine ⟨stepped.exclusive interleaved.exclusive,
    stepped.accounts interleaved.exclusive interleaved.accounts, ?_, ?_⟩
  · rw [stepped.everyCallWrote_iff interleaved.accounts, neverContended_concat,
      interleaved.logged]
    refine and_congr_right fun uncontended => ?_
    rw [free uncontended]
  · intro uncontended
    obtain ⟨before, last⟩ := (neverContended_concat schedule agent action).mp uncontended
    have lockFree : ∀ call, action = .attempt call → system.isLocked = false :=
      fun call attempted => (free before).mpr (last call attempted)
    have balance := interleaved.balance before
    have moved := stepped.balance interleaved.exclusive lockFree
    rw [acquisitions_concat, releases_concat]
    omega

theorem interleaved_of_run {key : Bytes 32} {schedule : List (τ × Action)} {system : System τ}
    {outcomes : List Outcome}
    (ran : (System.start key).interleave schedule = some (system, outcomes)) :
    Interleaved schedule outcomes system := by
  refine run_induction (motive := Interleaved) (interleaved_start key) ?_ ran
  intro schedule outcomes system event outcome after interleaved stepped
  exact interleaved.step (System.steps_of_act stepped)

theorem System.Steps.reached {key : Bytes 32} {system after : System τ} {agent : τ}
    {action : Action} {outcome : Outcome} {issued : List AuditEntry}
    (reached : Reached key system.log issued) (stepped : system.Steps agent action after outcome) :
    Reached key after.log (issued ++ outcome.entry.toList) := by
  cases stepped with
  | wrote ticks id call log inside success =>
      obtain ⟨⟨next, seq⟩, appended, rfl⟩ := Option.map_eq_some_iff.mp success
      exact reached.append appended
  | lost | entered | left | locked | unlocked =>
      simpa only [Outcome.entry, Option.toList_none, List.append_nil] using reached

/-- The entries written are the history of the log. -/
theorem interleave_reached {key : Bytes 32} {schedule : List (τ × Action)} {system : System τ}
    {outcomes : List Outcome}
    (ran : (System.start key).interleave schedule = some (system, outcomes)) :
    Reached key system.log (outcomes.filterMap Outcome.entry) := by
  refine run_induction (motive := fun _ outcomes system =>
    Reached key system.log (outcomes.filterMap Outcome.entry)) .start ?_ ran
  intro schedule outcomes system event outcome after reached stepped
  have extended := (System.steps_of_act stepped).reached reached
  rw [List.filterMap_append, List.filterMap_cons, List.filterMap_nil]
  cases shown : outcome.entry with
  | none => rwa [shown] at extended
  | some e => rwa [shown] at extended

/-- After an interleaving the log has an entry for every call of `log` that returned exactly
when no call began while the lock was held. -/
theorem log_loses_nothing_iff (key : Bytes 32) (schedule : List (τ × Action)) (system : System τ)
    (outcomes : List Outcome)
    (ran : (System.start key).interleave schedule = some (system, outcomes)) :
    EveryCallLogged key system.log outcomes ↔ NeverContended schedule := by
  have records := (interleave_reached ran).records
  rw [EveryCallLogged, and_iff_right records]
  exact (interleaved_of_run ran).logged

end Contention

/-- The page-fault handler's call. -/
def faultCall : LogCall := ⟨.processExited, 3, 0xFF, 0⟩

/-- A reader lets go of the lock before the handler's call begins. -/
def readerThenCall : List (Nat × Action) :=
  [(0, .lock), (0, .unlock), (1, .attempt faultCall), (1, .append 7), (1, .release)]

theorem log_loses_nothing_iff_after_reader :
    ∃ system outcomes,
      (System.start kAudit : System Nat).interleave readerThenCall = some (system, outcomes) ∧
      EveryCallLogged kAudit system.log outcomes := by
  obtain ⟨⟨system, outcomes⟩, ran⟩ : ∃ final,
      (System.start kAudit : System Nat).interleave readerThenCall = some final := ⟨_, rfl⟩
  refine ⟨system, outcomes, ran, (log_loses_nothing_iff kAudit _ system outcomes ran).mpr ?_⟩
  intro before agent call after split
  rw [readerThenCall] at split
  rcases before with _ | ⟨first, _ | ⟨second, _ | ⟨third, _ | ⟨fourth, _ | ⟨fifth, rest⟩⟩⟩⟩⟩ <;>
    simp at split
  obtain ⟨rfl, rfl, -⟩ := split
  rfl

/-- While the boot code holds the lock to print, the handler's call returns and the log is still
empty. -/
theorem log_drops_call_during_print :
    ∃ system, (System.start kAudit : System Nat).interleave [(0, .lock), (1, .attempt faultCall)] =
        some (system, [.silent, .returned 0 faultCall]) ∧
      system.log = MealLog.new kAudit ∧
      ¬ EveryCallLogged kAudit system.log [.silent, .returned 0 faultCall] := by
  refine ⟨_, rfl, rfl, ?_⟩
  intro logged
  obtain ⟨e, one, -⟩ := logged.2 0 faultCall (by simp)
  cases one

end AxiomKernel.Meal
