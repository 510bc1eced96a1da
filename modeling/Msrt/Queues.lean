import Msrt.PacketCodec
import Msrt.RingQueue

/-! # Engine queues

The three ring buffers of the engine: `EventQueue` refuses the seventeenth event, `AckState`
refuses the seventeenth key and restarts at position zero when it empties, `MessageState` drops its
oldest message to make room.  Over four event queues stands the scheduler, whose total is bounded
by the same sixteen entries; the bound is a field, so every scheduler that exists respects it.

A queued write is identified by its packet key alone: pushing a write whose key is already queued,
in whichever queue, replaces the queued one in place (`SchedulerState.replaceRedundantWrite`).
-/

namespace Msrt

/-! ## Events -/

/-- Fixed wire storage: at most `maxWireBytes` valid bytes. -/
structure WireBuffer where
  bytes : Bytes
  length_le : bytes.length ≤ maxWireBytes
  deriving DecidableEq

/-- Stores encoded bytes, as far as the storage goes. -/
def WireBuffer.store (bytes : Bytes) : WireBuffer :=
  ⟨bytes.take maxWireBytes, List.length_take_le _ _⟩

theorem WireBuffer.store_bytes {bytes : Bytes} (h : bytes.length ≤ maxWireBytes) :
    (store bytes).bytes = bytes := List.take_of_length_le h

/-- Why a write is queued, which decides its queue. -/
inductive WritePriority where
  | control
  | retransmit
  | newData
  deriving DecidableEq, Repr

/-- A write request: packet identity, encoded bytes, attempt count and priority. -/
structure WriteEvent where
  key : PacketKey
  wire : WireBuffer
  attempts : UInt8
  priority : WritePriority
  deriving DecidableEq

/-- Events produced by engine state. -/
inductive EngineOutput where
  | write (write : WriteEvent)
  | sendFailed (event : SendFailedEvent)
  deriving DecidableEq

/-! ## Event queue -/

/-- One of the four queues of the scheduler. -/
abbrev EventQueue := RingQueue EngineOutput maxEvents

/-- A write is redundant with one of the same key, whatever their bytes and priorities. -/
def isRedundantWrite (current incoming : WriteEvent) : Bool := current.key == incoming.key

/-- Whether a queued event is a write made redundant by `incoming`. -/
def EngineOutput.redundantFor (incoming : WriteEvent) : EngineOutput → Bool
  | .write current => isRedundantWrite current incoming
  | .sendFailed _ => false

namespace EventQueue

/-- The empty queue. -/
def new : EventQueue := RingQueue.empty (by decide)

/-- Appends an event; a full queue is an error. -/
def push (q : EventQueue) (event : EngineOutput) : Except Error EventQueue :=
  if h : q.len = maxEvents then .error .engine
  else .ok (q.pushBack event (Nat.lt_of_le_of_ne q.len_le h))

/-- Takes the oldest event. -/
def pop (q : EventQueue) : Option EngineOutput × EventQueue := RingQueue.pop q

/-- Replaces the first queued write with the key of `event`; `none` if there is none. -/
def replaceRedundantWrite (q : EventQueue) (event : EngineOutput) : Option EventQueue :=
  match event with
  | .sendFailed _ => none
  | .write write =>
    ((List.range q.len).find? (fun offset => (q.entry offset).any (·.redundantFor write))).map
      (fun offset => q.setAt offset (.write write))

theorem len_of_push {q q' : EventQueue} {event : EngineOutput} (h : push q event = .ok q') :
    q'.len = q.len + 1 := by
  unfold push at h
  split at h
  · cases h
  · obtain rfl := Except.ok.inj h
    rfl

theorem len_of_replaceRedundantWrite {q q' : EventQueue} {event : EngineOutput}
    (h : replaceRedundantWrite q event = some q') : q'.len = q.len := by
  cases event with
  | sendFailed => cases h
  | write w =>
    obtain ⟨offset, -, rfl⟩ := Option.map_eq_some_iff.mp h
    exact RingQueue.len_setAt _ _ _

/-- The search for a redundant write, over the list. -/
theorem replaceRedundantWrite_write (q : EventQueue) (write : WriteEvent) :
    replaceRedundantWrite q (.write write) =
      ((RingQueue.toList q).findIdx? (·.redundantFor write)).map
        (fun i => RingQueue.setAt q i (.write write)) := by
  rw [← RingQueue.find?_entry]
  rfl

end EventQueue

/-! ## Acknowledgement queue -/

/-- The keys of the packets that are still to be acknowledged. -/
abbrev AckState := RingQueue PacketKey maxPendingAcks

namespace AckState

/-- Nothing is to be acknowledged. -/
def new : AckState := RingQueue.empty (by decide)

/-- Queues a key; `none` when the queue is full. -/
def observe (a : AckState) (key : PacketKey) : Option AckState :=
  if h : a.len = maxPendingAcks then none
  else some (a.pushBack key (Nat.lt_of_le_of_ne a.len_le h))

/-- Whether an acknowledgement waits. -/
def isPending (a : AckState) : Bool := a.len != 0

/-- Takes the oldest key; a queue that empties restarts at position zero. -/
def pop (a : AckState) : Option PacketKey × AckState :=
  if a.len = 0 then (none, a)
  else
    let popped := RingQueue.pop a
    (popped.1, if h : popped.2.len = 0 then popped.2.rewind h else popped.2)

theorem fst_pop (a : AckState) : (pop a).1 = (RingQueue.toList a).head? := by
  by_cases h : a.len = 0
  · rw [pop, if_pos h, (RingQueue.toList_eq_nil_iff a).mpr h]
    rfl
  · rw [pop, if_neg h]
    exact RingQueue.fst_pop a

theorem toList_pop (a : AckState) : RingQueue.toList (pop a).2 = (RingQueue.toList a).tail := by
  by_cases h : a.len = 0
  · rw [pop, if_pos h, (RingQueue.toList_eq_nil_iff a).mpr h]
    rfl
  · rw [pop, if_neg h, ← RingQueue.toList_pop]
    dsimp only
    -- a queue that has just become empty restarts at position zero
    by_cases h0 : (RingQueue.pop a).2.len = 0
    · rw [dif_pos h0, RingQueue.toList_rewind, (RingQueue.toList_eq_nil_iff _).mpr h0]
    · rw [dif_neg h0]

end AckState

/-! ## Delivery queue -/

/-- The complete messages that wait for the application. -/
abbrev MessageState := RingQueue MessageEvent maxMessageEvents

namespace MessageState

/-- No message waits. -/
def new : MessageState := RingQueue.empty (by decide)

/-- Appends a message, dropping the oldest one when sixteen are waiting. -/
def push (m : MessageState) (message : MessageEvent) : MessageState :=
  if h : m.len = maxMessageEvents then m.overwriteOldest message h
  else m.pushBack message (Nat.lt_of_le_of_ne m.len_le h)

/-- Takes the oldest message. -/
def pop (m : MessageState) : Option MessageEvent × MessageState := RingQueue.pop m

end MessageState

/-! ## Scheduler -/

/-- The four queues of the scheduler. -/
inductive QueueKind where
  | control
  | retransmit
  | newData
  | local
  deriving DecidableEq, Repr

/-- The queue of an event: writes by their priority, send failures in the local one. -/
def queueForEvent : EngineOutput → QueueKind
  | .write write =>
    match write.priority with
    | .control => .control
    | .retransmit => .retransmit
    | .newData => .newData
  | .sendFailed _ => .local

/-- Fixed-capacity output scheduler. -/
structure SchedulerState where
  control : EventQueue
  retransmit : EventQueue
  newData : EventQueue
  localQueue : EventQueue
  len_le : control.len + retransmit.len + newData.len + localQueue.len ≤ maxEvents

namespace SchedulerState

/-- The scheduler with four empty queues. -/
def new : SchedulerState := ⟨.new, .new, .new, .new, by decide⟩

/-- The events of all four queues. -/
def len (s : SchedulerState) : Nat :=
  s.control.len + s.retransmit.len + s.newData.len + s.localQueue.len

/-- How many events still fit: the four queues share one bound. -/
def available (s : SchedulerState) : Nat := maxEvents - s.len

/-- Replaces the first queued write with the key of `event`, in whichever queue it stands. -/
def replaceRedundantWrite (s : SchedulerState) (event : EngineOutput) : Option SchedulerState :=
  match hc : s.control.replaceRedundantWrite event with
  | some q => some { s with
      control := q
      len_le := by rw [EventQueue.len_of_replaceRedundantWrite hc]; exact s.len_le }
  | none =>
    match hr : s.retransmit.replaceRedundantWrite event with
    | some q => some { s with
        retransmit := q
        len_le := by rw [EventQueue.len_of_replaceRedundantWrite hr]; exact s.len_le }
    | none =>
      match hn : s.newData.replaceRedundantWrite event with
      | some q => some { s with
          newData := q
          len_le := by rw [EventQueue.len_of_replaceRedundantWrite hn]; exact s.len_le }
      | none =>
        match hl : s.localQueue.replaceRedundantWrite event with
        | some q => some { s with
            localQueue := q
            len_le := by rw [EventQueue.len_of_replaceRedundantWrite hl]; exact s.len_le }
        | none => none

/-- Replaces a redundant write where it stands, else appends to the event's queue if there is room. -/
def push (s : SchedulerState) (event : EngineOutput) : Except Error SchedulerState :=
  match s.replaceRedundantWrite event with
  | some s' => .ok s'
  | none =>
    if h : s.len = maxEvents then .error .engine
    else
      have hlt : s.len < maxEvents := Nat.lt_of_le_of_ne s.len_le h
      match queueForEvent event with
      | .control =>
        match hq : s.control.push event with
        | .error e => .error e
        | .ok q => .ok { s with
            control := q
            len_le := by rw [EventQueue.len_of_push hq]; unfold len at hlt; omega }
      | .retransmit =>
        match hq : s.retransmit.push event with
        | .error e => .error e
        | .ok q => .ok { s with
            retransmit := q
            len_le := by rw [EventQueue.len_of_push hq]; unfold len at hlt; omega }
      | .newData =>
        match hq : s.newData.push event with
        | .error e => .error e
        | .ok q => .ok { s with
            newData := q
            len_le := by rw [EventQueue.len_of_push hq]; unfold len at hlt; omega }
      | .local =>
        match hq : s.localQueue.push event with
        | .error e => .error e
        | .ok q => .ok { s with
            localQueue := q
            len_le := by rw [EventQueue.len_of_push hq]; unfold len at hlt; omega }

/-- Pushes an event and ignores a full scheduler. -/
def pushIgnored (s : SchedulerState) (event : EngineOutput) : SchedulerState :=
  match s.push event with
  | .ok s' => s'
  | .error _ => s

theorem len_le_of_pop (q : EventQueue) : (EventQueue.pop q).2.len ≤ q.len := by
  show (RingQueue.pop q).2.len ≤ q.len
  rw [RingQueue.len_pop]
  exact Nat.sub_le _ _

/-- The scheduler once one control event has been taken. -/
def popControl (s : SchedulerState) : SchedulerState :=
  { s with
    control := s.control.pop.2
    len_le := by have := len_le_of_pop s.control; have := s.len_le; omega }

/-- The scheduler once one retransmission has been taken. -/
def popRetransmit (s : SchedulerState) : SchedulerState :=
  { s with
    retransmit := s.retransmit.pop.2
    len_le := by have := len_le_of_pop s.retransmit; have := s.len_le; omega }

/-- The scheduler once one local event has been taken. -/
def popLocal (s : SchedulerState) : SchedulerState :=
  { s with
    localQueue := s.localQueue.pop.2
    len_le := by have := len_le_of_pop s.localQueue; have := s.len_le; omega }

/-- The scheduler once one first transmission has been taken. -/
def popNewData (s : SchedulerState) : SchedulerState :=
  { s with
    newData := s.newData.pop.2
    len_le := by have := len_le_of_pop s.newData; have := s.len_le; omega }

/-- Control events first, then retransmissions, then local events. -/
def popUrgent (s : SchedulerState) : Option EngineOutput × SchedulerState :=
  match s.control.pop.1 with
  | some event => (some event, s.popControl)
  | none =>
    match s.popControl.retransmit.pop.1 with
    | some event => (some event, s.popControl.popRetransmit)
    | none => (s.popControl.popRetransmit.localQueue.pop.1, s.popControl.popRetransmit.popLocal)

end SchedulerState

end Msrt
