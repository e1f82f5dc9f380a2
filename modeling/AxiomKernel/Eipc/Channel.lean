import Mathlib
import AxiomKernel.Lib.Bytes
import AxiomKernel.Lib.EventRun
import AxiomKernel.Lib.RingQueue

/-!
# The EIPC channel

Model of `EipcMessage` and `EipcChannel` of `eipc.rs`: four slots with a head, a
tail and a count.  An index outside the slots is a panic, `none`.  The channel is
compared with a list of messages, the oldest first.
-/

set_option autoImplicit false

namespace AxiomKernel.Eipc

open ByteStrings EventRuns RingQueues

structure EipcMessage where
  senderId : U32
  seq : U32
  nonce : Bytes 12
  ct : Bytes 64
  ctLen : U64
  tag : Bytes 16
  deriving DecidableEq

def cap : Nat := 4

instance : NeZero cap := ⟨by decide⟩

structure EipcChannel where
  slots : Vector (Option EipcMessage) cap
  head : Nat
  tail : Nat
  count : Nat

namespace EipcChannel

def new : EipcChannel where
  slots := Vector.replicate cap none
  head := 0
  tail := 0
  count := 0

def enqueue (channel : EipcChannel) (msg : EipcMessage) : Option (EipcChannel × Bool) :=
  if cap ≤ channel.count then some (channel, false)
  else if inside : channel.tail < cap then
    some ({ channel with
      slots := channel.slots.set channel.tail (some msg) inside
      tail := (channel.tail + 1) % cap
      count := channel.count + 1 }, true)
  else none

def dequeue (channel : EipcChannel) : Option (EipcChannel × Option EipcMessage) :=
  if channel.count = 0 then some (channel, none)
  else if inside : channel.head < cap then
    some ({ channel with
      slots := channel.slots.set channel.head none inside
      head := (channel.head + 1) % cap
      count := channel.count - 1 }, channel.slots.get ⟨channel.head, inside⟩)
  else none

end EipcChannel

/-! ## The queue in the channel -/

/-- The channel holds the messages of `queue`, the oldest first. -/
structure EipcChannel.Holds (channel : EipcChannel) (queue : List EipcMessage) : Prop where
  headInside : channel.head < 4
  tailInside : channel.tail < 4
  tail : channel.tail = (channel.head + channel.count) % 4
  count : channel.count = queue.length
  queued : Queued channel.slots channel.head queue

namespace EipcChannel

theorem holds_new : new.Holds [] where
  headInside := by decide
  tailInside := by decide
  tail := rfl
  count := rfl
  queued := queued_nil 0

theorem enqueue_of_room (channel : EipcChannel) (msg : EipcMessage) (room : channel.count < cap)
    (inside : channel.tail < cap) :
    channel.enqueue msg = some ({ channel with
      slots := channel.slots.set channel.tail (some msg) inside
      tail := (channel.tail + 1) % cap
      count := channel.count + 1 }, true) := by
  rw [enqueue, if_neg (Nat.not_le.mpr room), dif_pos inside]

theorem dequeue_of_queued (channel : EipcChannel) (queued : channel.count ≠ 0)
    (inside : channel.head < cap) :
    channel.dequeue = some ({ channel with
      slots := channel.slots.set channel.head none inside
      head := (channel.head + 1) % cap
      count := channel.count - 1 }, channel.slots.get ⟨channel.head, inside⟩) := by
  rw [dequeue, if_neg queued, dif_pos inside]

theorem Holds.enqueue {channel : EipcChannel} {queue : List EipcMessage}
    (holds : channel.Holds queue) (msg : EipcMessage) :
    (queue.length = 4 ∧ channel.enqueue msg = some (channel, false)) ∨
      (queue.length < 4 ∧ ∃ next, channel.enqueue msg = some (next, true) ∧
        next.Holds (queue ++ [msg])) := by
  have bounded : queue.length ≤ 4 := holds.queued.bounded
  have count := holds.count
  rcases Nat.lt_or_eq_of_le bounded with room | full
  · have stores := channel.enqueue_of_room msg (by rw [count]; exact room) holds.tailInside
    have tail := holds.tail
    refine Or.inr ⟨room, _, stores, holds.headInside, Nat.mod_lt _ (by decide), ?_, ?_,
      holds.queued.push room msg holds.tailInside (by rw [tail, count]; rfl)⟩
    · simp only [cap]
      omega
    · rw [count, List.length_append, List.length_singleton]
  · exact Or.inl ⟨full, by rw [EipcChannel.enqueue, if_pos (by rw [count, full]; exact le_refl 4)]⟩

theorem Holds.dequeue {channel : EipcChannel} {queue : List EipcMessage}
    (holds : channel.Holds queue) :
    (queue = [] ∧ channel.dequeue = some (channel, none)) ∨
      ∃ oldest rest next, queue = oldest :: rest ∧
        channel.dequeue = some (next, some oldest) ∧ next.Holds rest := by
  have count := holds.count
  cases queue with
  | nil =>
      have nothing : channel.count = 0 := count
      exact Or.inl ⟨rfl, by rw [EipcChannel.dequeue, if_pos nothing]⟩
  | cons oldest rest =>
      rw [List.length_cons] at count
      have takes := channel.dequeue_of_queued (by omega) holds.headInside
      have slot : (⟨channel.head, holds.headInside⟩ : Fin cap) = Fin.ofNat cap channel.head :=
        Fin.ext (Nat.mod_eq_of_lt holds.headInside).symm
      have front := holds.queued.front
      rw [← slot, List.head?_cons] at front
      rw [front] at takes
      have tail := holds.tail
      have tailInside := holds.tailInside
      refine Or.inr ⟨oldest, rest, _, rfl, takes, Nat.mod_lt _ (by decide), tailInside, ?_, ?_,
        holds.queued.pop holds.headInside⟩
      · simp only [cap]
        omega
      · simp only [count, Nat.add_sub_cancel]

end EipcChannel

/-! ## Runs -/

inductive ChannelOp where
  | enqueue (msg : EipcMessage)
  | dequeue

inductive ChannelAnswer where
  | enqueued (accepted : Bool)
  | dequeued (msg : Option EipcMessage)

def EipcChannel.perform (channel : EipcChannel) : ChannelOp → Option (EipcChannel × ChannelAnswer)
  | .enqueue msg => do
      let (next, accepted) ← channel.enqueue msg
      return (next, .enqueued accepted)
  | .dequeue => do
      let (next, msg) ← channel.dequeue
      return (next, .dequeued msg)

/-- A list queue of capacity four, the oldest message first. -/
def fifoPerform (queue : List EipcMessage) :
    ChannelOp → Option (List EipcMessage × ChannelAnswer)
  | .enqueue msg =>
      if queue.length < 4 then some (queue ++ [msg], .enqueued true)
      else some (queue, .enqueued false)
  | .dequeue => some (queue.tail, .dequeued queue.head?)

def acceptedBy : ChannelOp × ChannelAnswer → Option EipcMessage
  | (.enqueue msg, .enqueued true) => some msg
  | _ => none

def ChannelAnswer.message : ChannelAnswer → Option EipcMessage
  | .dequeued msg => msg
  | .enqueued _ => none

def accepted (ops : List ChannelOp) (answers : List ChannelAnswer) : List EipcMessage :=
  (ops.zip answers).filterMap acceptedBy

def delivered (answers : List ChannelAnswer) : List EipcMessage :=
  answers.filterMap ChannelAnswer.message

/-- Each operation of the channel is that of the list queue. -/
theorem EipcChannel.Holds.perform {channel : EipcChannel} {queue : List EipcMessage}
    (holds : channel.Holds queue) (op : ChannelOp) :
    ∃ next later answer, channel.perform op = some (next, answer) ∧
      fifoPerform queue op = some (later, answer) ∧ next.Holds later := by
  cases op with
  | enqueue msg =>
      rcases holds.enqueue msg with ⟨full, refused⟩ | ⟨room, next, stored, nextHolds⟩
      · refine ⟨channel, queue, .enqueued false, ?_, ?_, holds⟩
        · rw [EipcChannel.perform, refused]
          rfl
        · rw [fifoPerform, if_neg (by omega)]
      · refine ⟨next, queue ++ [msg], .enqueued true, ?_, ?_, nextHolds⟩
        · rw [EipcChannel.perform, stored]
          rfl
        · rw [fifoPerform, if_pos room]
  | dequeue =>
      rcases holds.dequeue with ⟨rfl, nothing⟩ | ⟨oldest, rest, next, rfl, taken, nextHolds⟩
      · refine ⟨channel, [], .dequeued none, ?_, rfl, holds⟩
        rw [EipcChannel.perform, nothing]
        rfl
      · refine ⟨next, rest, .dequeued (some oldest), ?_, rfl, nextHolds⟩
        rw [EipcChannel.perform, taken]
        rfl

theorem fifoPerform_conserves {queue later : List EipcMessage} {op : ChannelOp}
    {answer : ChannelAnswer} (performed : fifoPerform queue op = some (later, answer)) :
    queue ++ (acceptedBy (op, answer)).toList = answer.message.toList ++ later := by
  cases op with
  | enqueue msg =>
      rw [fifoPerform] at performed
      split at performed
      case isTrue =>
        obtain ⟨rfl, rfl⟩ := Prod.mk.inj (Option.some.inj performed)
        rfl
      case isFalse =>
        obtain ⟨rfl, rfl⟩ := Prod.mk.inj (Option.some.inj performed)
        exact List.append_nil queue
  | dequeue =>
      obtain ⟨rfl, rfl⟩ := Prod.mk.inj (Option.some.inj performed)
      cases queue with
      | nil => rfl
      | cons oldest rest => exact List.append_nil (oldest :: rest)

/-- What was queued and what is accepted is delivered in this order or still queued. -/
theorem fifo_conserves {ops : List ChannelOp} {queue final : List EipcMessage}
    {answers : List ChannelAnswer} (ran : run fifoPerform queue ops = some (final, answers)) :
    queue ++ accepted ops answers = delivered answers ++ final := by
  induction ops generalizing queue answers with
  | nil =>
      obtain ⟨rfl, rfl⟩ := Prod.mk.inj (Option.some.inj ran)
      exact List.append_nil queue
  | cons op rest inductionHypothesis =>
      obtain ⟨next, answer, later, performed, ranRest, rfl⟩ := run_cons_eq_some_iff.mp ran
      have acceptedCons : accepted (op :: rest) (answer :: later) =
          (acceptedBy (op, answer)).toList ++ accepted rest later := by
        rw [accepted, List.zip_cons_cons, List.filterMap_cons]
        cases acceptedBy (op, answer) <;> rfl
      have deliveredCons : delivered (answer :: later) =
          answer.message.toList ++ delivered later := by
        rw [delivered, List.filterMap_cons]
        cases answer.message <;> rfl
      rw [acceptedCons, deliveredCons, ← List.append_assoc, fifoPerform_conserves performed,
        List.append_assoc, inductionHypothesis ranRest, List.append_assoc]

/-- Any sequence of operations from `EipcChannel::new` returns and answers as the list
queue does. -/
theorem channel_is_bounded_fifo (ops : List ChannelOp) :
    ∃ channel queue answers, run EipcChannel.perform EipcChannel.new ops = some (channel, answers) ∧
      run fifoPerform [] ops = some (queue, answers) ∧ channel.Holds queue ∧
      accepted ops answers = delivered answers ++ queue ∧
      (∀ msg, (queue.length = 4 ∧ channel.enqueue msg = some (channel, false)) ∨
        (queue.length < 4 ∧ ∃ next, channel.enqueue msg = some (next, true) ∧
          next.Holds (queue ++ [msg]))) ∧
      ((queue = [] ∧ channel.dequeue = some (channel, none)) ∨
        ∃ oldest rest next, queue = oldest :: rest ∧
          channel.dequeue = some (next, some oldest) ∧ next.Holds rest) := by
  obtain ⟨channel, queue, answers, channelRan, fifoRan, holds⟩ :=
    run_simulation EipcChannel.Holds (fun _ _ op holds => holds.perform op) ops
      EipcChannel.holds_new
  exact ⟨channel, queue, answers, channelRan, fifoRan, holds, fifo_conserves fifoRan,
    holds.enqueue, holds.dequeue⟩

end AxiomKernel.Eipc
