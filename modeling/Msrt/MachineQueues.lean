import Msrt.RingArray
import Msrt.MachineCodec
import Msrt.SchedulerSpec

/-! # Engine queues on the machine

The three ring buffers and the scheduler over four of them, with their heads, lengths and positions
computed by checked arithmetic.  A queued write owns an array of `maxWireBytes` bytes, of which `len`
are valid; the encoders fill it over zeros, so a `WireBuffer` fixes all of it (`WireBuffer.layout`).

Each operation on the layout of a queue succeeds with the layout of what the model's operation leaves.
-/

namespace Msrt

/-- The array a wire buffer is stored in. -/
def WireBuffer.layout (wire : WireBuffer) : Bytes :=
  Checked.fill (List.replicate maxWireBytes 0) wire.bytes

namespace Machine
open Checked
variable {t : Target}

/-! ## Events -/

/-- A write request: packet identity, wire storage with its valid length, attempts and priority. -/
structure WriteEvent where
  key : PacketKey
  bytes : Bytes
  len : Nat
  attempts : UInt8
  priority : WritePriority

/-- The valid bytes of a write. -/
def WriteEvent.asBytes (write : WriteEvent) : Checked t Bytes := do
  return (← splitAt write.bytes write.len).1

/-- Events produced by engine state. -/
inductive EngineOutput where
  | write (write : WriteEvent)
  | sendFailed (event : SendFailedEvent)

/-- A write is redundant with one of the same key, whatever their bytes and priorities. -/
def isRedundantWrite (current incoming : WriteEvent) : Bool := current.key == incoming.key

/-- The key of a queued write. -/
def EngineOutput.writeKey? : EngineOutput → Option PacketKey
  | .write w => some w.key
  | .sendFailed _ => none

/-- The queue of an event: writes by their priority, send failures in the local one. -/
def queueForEvent : EngineOutput → QueueKind
  | .write write =>
    match write.priority with
    | .control => .control
    | .retransmit => .retransmit
    | .newData => .newData
  | .sendFailed _ => .local

/-! ## Event queue -/

/-- One of the four queues of the scheduler, an array with head and length. -/
abbrev EventQueue := RingArray EngineOutput

namespace EventQueue

/-- The empty queue. -/
def new : EventQueue := RingArray.empty maxEvents

/-- Appends an event; a full queue is an error, not a panic. -/
def push (q : EventQueue) (event : EngineOutput) : Checked t (Except Error EventQueue) := do
  if q.len = maxEvents then
    return .error .engine
  else
    return .ok (← q.pushBack maxEvents event)

/-- Takes the oldest event. -/
def pop (q : EventQueue) : Checked t (Option EngineOutput × EventQueue) := RingArray.pop maxEvents q

/-- The search for a write with the key of `write`, in the last `remaining` offsets. -/
def replaceLoop (q : EventQueue) (write : WriteEvent) :
    Nat → Nat → Checked t (Option EventQueue)
  | 0, _ => pure none
  | remaining + 1, offset => do
    let i ← q.physicalIndex maxEvents offset
    match ← index q.cells i with
    | some (.write current) =>
      if isRedundantWrite current write then
        let cells ← set q.cells i (some (.write write))
        return some { q with cells }
      else
        replaceLoop q write remaining (← add offset 1)
    | _ => replaceLoop q write remaining (← add offset 1)

/-- Replaces the first queued write with the key of `event`; `none` if there is none. -/
def replaceRedundantWrite (q : EventQueue) (event : EngineOutput) :
    Checked t (Option EventQueue) :=
  match event with
  | .sendFailed _ => pure none
  | .write write => q.replaceLoop write q.len 0

end EventQueue

/-! ## Acknowledgement and delivery queues -/

/-- The keys of the packets that are still to be acknowledged. -/
abbrev AckState := RingArray PacketKey

namespace AckState

/-- Nothing is to be acknowledged. -/
def new : AckState := RingArray.empty maxPendingAcks

/-- Queues a key; `none` when the queue is full. -/
def observe (a : AckState) (key : PacketKey) : Checked t (Option AckState) := do
  if a.len = maxPendingAcks then
    return none
  else
    return some (← a.pushBack maxPendingAcks key)

/-- Whether an acknowledgement waits. -/
def isPending (a : AckState) : Bool := a.len != 0

/-- Takes the oldest key; a queue that empties restarts at position zero. -/
def pop (a : AckState) : Checked t (Option PacketKey × AckState) := do
  if a.len = 0 then
    return (none, a)
  else
    let popped ← RingArray.pop maxPendingAcks a
    if popped.2.len = 0 then
      return (popped.1, { popped.2 with head := 0 })
    else
      return popped

end AckState

/-- The complete messages that wait for the application. -/
abbrev MessageState := RingArray MessageEvent

namespace MessageState

/-- No message waits. -/
def new : MessageState := RingArray.empty maxMessageEvents

/-- Appends a message, dropping the oldest one when sixteen are waiting. -/
def push (m : MessageState) (message : MessageEvent) : Checked t MessageState :=
  if m.len = maxMessageEvents then m.overwriteOldest maxMessageEvents message
  else m.pushBack maxMessageEvents message

/-- Takes the oldest message. -/
def pop (m : MessageState) : Checked t (Option MessageEvent × MessageState) :=
  RingArray.pop maxMessageEvents m

end MessageState

/-! ## Scheduler -/

/-- The four queues.  Nothing here bounds their common length. -/
structure SchedulerState where
  control : EventQueue
  retransmit : EventQueue
  newData : EventQueue
  localQueue : EventQueue

namespace SchedulerState

/-- The scheduler with four empty queues. -/
def new : SchedulerState := ⟨.new, .new, .new, .new⟩

/-- The events of all four queues, three sums. -/
def len (s : SchedulerState) : Checked t Nat := do
  add (← add (← add s.control.len s.retransmit.len) s.newData.len) s.localQueue.len

/-- How many events still fit: a difference that needs the common bound. -/
def available (s : SchedulerState) : Checked t Nat := do
  sub maxEvents (← s.len)

/-- The events of the four queues. -/
def queued (s : SchedulerState) : List EngineOutput :=
  s.control.contents maxEvents ++ s.retransmit.contents maxEvents ++ s.newData.contents maxEvents ++
    s.localQueue.contents maxEvents

/-- Replaces the first queued write with the key of `event`, in whichever queue it stands. -/
def replaceRedundantWrite (s : SchedulerState) (event : EngineOutput) :
    Checked t (Option SchedulerState) := do
  match ← EventQueue.replaceRedundantWrite s.control event with
  | some q => return some { s with control := q }
  | none =>
    match ← EventQueue.replaceRedundantWrite s.retransmit event with
    | some q => return some { s with retransmit := q }
    | none =>
      match ← EventQueue.replaceRedundantWrite s.newData event with
      | some q => return some { s with newData := q }
      | none =>
        match ← EventQueue.replaceRedundantWrite s.localQueue event with
        | some q => return some { s with localQueue := q }
        | none => return none

/-- Replaces a redundant write where it stands, else appends to the event's queue if there is room. -/
def push (s : SchedulerState) (event : EngineOutput) : Checked t (Except Error SchedulerState) := do
  match ← s.replaceRedundantWrite event with
  | some s => return .ok s
  | none =>
    if (← s.len) = maxEvents then
      return .error .engine
    else
      match queueForEvent event with
      | .control => return (← EventQueue.push s.control event).map fun q => { s with control := q }
      | .retransmit =>
        return (← EventQueue.push s.retransmit event).map fun q => { s with retransmit := q }
      | .newData => return (← EventQueue.push s.newData event).map fun q => { s with newData := q }
      | .local =>
        return (← EventQueue.push s.localQueue event).map fun q => { s with localQueue := q }

/-- Pushes an event and ignores a full scheduler. -/
def pushIgnored (s : SchedulerState) (event : EngineOutput) : Checked t SchedulerState := do
  match ← s.push event with
  | .ok s => return s
  | .error _ => return s

/-- Control events first, then retransmissions, then local events. -/
def popUrgent (s : SchedulerState) : Checked t (Option EngineOutput × SchedulerState) := do
  let control ← EventQueue.pop s.control
  let s := { s with control := control.2 }
  match control.1 with
  | some event => return (some event, s)
  | none =>
    let retransmit ← EventQueue.pop s.retransmit
    let s := { s with retransmit := retransmit.2 }
    match retransmit.1 with
    | some event => return (some event, s)
    | none =>
      let popped ← EventQueue.pop s.localQueue
      return (popped.1, { s with localQueue := popped.2 })

/-- Takes one first transmission. -/
def popNewData (s : SchedulerState) : Checked t (Option EngineOutput × SchedulerState) := do
  let popped ← EventQueue.pop s.newData
  return (popped.1, { s with newData := popped.2 })

end SchedulerState

end Machine

/-! ## Layouts -/

open Checked
variable {t : Target}

theorem WireBuffer.length_layout (wire : WireBuffer) : wire.layout.length = maxWireBytes := by
  rw [layout, length_fill (by rw [List.length_replicate]; exact wire.length_le),
    List.length_replicate]

/-- The memory of a write. -/
def WriteEvent.layout (write : WriteEvent) : Machine.WriteEvent :=
  ⟨write.key, write.wire.layout, write.wire.bytes.length, write.attempts, write.priority⟩

/-- The memory of an event. -/
def EngineOutput.layout : EngineOutput → Machine.EngineOutput
  | .write w => .write w.layout
  | .sendFailed event => .sendFailed event

/-- The valid bytes of a queued write. -/
theorem WriteEvent.asBytes_layout (write : WriteEvent) :
    (write.layout.asBytes : Checked t Bytes) = pure write.wire.bytes := by
  unfold Machine.WriteEvent.asBytes layout
  dsimp only
  rw [splitAt_eq (by rw [WireBuffer.length_layout]; exact write.wire.length_le), pure_bind]
  dsimp only
  rw [WireBuffer.layout, take_fill]

theorem queueForEvent_layout (event : EngineOutput) :
    Machine.queueForEvent event.layout = queueForEvent event := by
  cases event with
  | write w => rfl
  | sendFailed event => rfl

namespace EventQueue

/-- The memory of an event queue. -/
def layout (q : EventQueue) : Machine.EventQueue := RingQueue.layout EngineOutput.layout q

theorem push_layout (q : EventQueue) (event : EngineOutput) :
    (Machine.EventQueue.push (layout q) event.layout : Checked t _) =
      pure ((push q event).map layout) := by
  unfold Machine.EventQueue.push push layout
  rw [RingQueue.layout_len]
  by_cases h : q.len = maxEvents
  · rw [if_pos h, dif_pos h]
    rfl
  · rw [if_neg h, dif_neg h, q.pushBack_layout _ (by decide), pure_bind]
    rfl

theorem pop_layout (q : EventQueue) :
    (Machine.EventQueue.pop (layout q) : Checked t _) =
      pure ((pop q).1.map EngineOutput.layout, layout (pop q).2) :=
  RingQueue.pop_layout _ q (by decide)

/-- The search goes over the offsets that are left. -/
theorem replaceLoop_layout (q : EventQueue) (write : WriteEvent) {remaining offset : Nat}
    (h : offset + remaining = q.len) :
    (Machine.EventQueue.replaceLoop (layout q) write.layout remaining offset : Checked t _) =
      pure (((List.range' offset remaining).find?
        fun offset => (q.entry offset).any (·.redundantFor write)).map
          fun offset => layout (q.setAt offset (.write write))) := by
  have hcap : q.len ≤ maxEvents := q.len_le
  have hevents : maxEvents = 16 := rfl
  induction remaining generalizing offset with
  | zero => rfl
  | succ remaining ih =>
    have hnext := ih (show offset + 1 + remaining = q.len by omega)
    unfold Machine.EventQueue.replaceLoop
    rw [layout, q.physicalIndex_layout _ (by decide) (by omega), pure_bind, q.index_layout, pure_bind,
      List.range'_succ, List.find?_cons]
    cases hentry : q.entry offset with
    | none =>
      simp only [Option.map_none, Option.any_none]
      rw [add_small (by omega), pure_bind]
      exact hnext
    | some event =>
      cases event with
      | sendFailed failed =>
        simp only [Option.map_some, EngineOutput.layout, Option.any_some, EngineOutput.redundantFor]
        rw [add_small (by omega), pure_bind]
        exact hnext
      | write current =>
        simp only [Option.map_some, EngineOutput.layout, Option.any_some, EngineOutput.redundantFor]
        have hsame : Machine.isRedundantWrite current.layout write.layout =
            isRedundantWrite current write := rfl
        rw [hsame]
        cases hred : isRedundantWrite current write with
        | true =>
          rw [if_pos rfl, q.set_layout, pure_bind]
          dsimp only [Option.map_some]
          rw [layout, q.layout_setAt _ (by omega)]
          rfl
        | false =>
          rw [if_neg (by simp), add_small (by omega), pure_bind]
          exact hnext

theorem replaceRedundantWrite_layout (q : EventQueue) (event : EngineOutput) :
    (Machine.EventQueue.replaceRedundantWrite (layout q) event.layout : Checked t _) =
      pure ((replaceRedundantWrite q event).map layout) := by
  cases event with
  | sendFailed failed => rfl
  | write w =>
    show Machine.EventQueue.replaceLoop (layout q) w.layout q.len 0 = _
    rw [replaceLoop_layout q w (Nat.zero_add _), ← List.range_eq_range']
    simp only [replaceRedundantWrite, Option.map_map, Function.comp_def]

end EventQueue

namespace AckState

/-- The memory of the acknowledgement queue. -/
def layout (a : AckState) : Machine.AckState := RingQueue.layout id a

theorem observe_layout (a : AckState) (key : PacketKey) :
    (Machine.AckState.observe (layout a) key : Checked t _) =
      pure ((observe a key).map layout) := by
  unfold Machine.AckState.observe observe layout
  rw [RingQueue.layout_len]
  by_cases h : a.len = maxPendingAcks
  · rw [if_pos h, dif_pos h]
    rfl
  · have hpush := RingQueue.pushBack_layout (t := t) id a (by decide) key
      (Nat.lt_of_le_of_ne a.len_le h)
    rw [if_neg h, dif_neg h, show key = id key from rfl, hpush, pure_bind]
    rfl

theorem pop_layout (a : AckState) :
    (Machine.AckState.pop (layout a) : Checked t _) = pure ((pop a).1, layout (pop a).2) := by
  have hpop := RingQueue.pop_layout (t := t) id a (by decide)
  unfold Machine.AckState.pop pop layout
  rw [RingQueue.layout_len]
  by_cases h : a.len = 0
  · rw [if_pos h, if_pos h]
  rw [if_neg h, if_neg h, hpop, pure_bind]
  dsimp only
  rw [RingQueue.layout_len, Option.map_id_fun, id_eq]
  by_cases hlast : (RingQueue.pop a).2.len = 0
  · rw [if_pos hlast, dif_pos hlast]
    simp only [RingQueue.layout, RingQueue.rewind, hlast]
  · rw [if_neg hlast, dif_neg hlast]

end AckState

namespace MessageState

/-- The memory of the delivery queue. -/
def layout (m : MessageState) : Machine.MessageState := RingQueue.layout id m

theorem push_layout (m : MessageState) (message : MessageEvent) :
    (Machine.MessageState.push (layout m) message : Checked t _) = pure (layout (push m message)) := by
  unfold Machine.MessageState.push push layout
  rw [RingQueue.layout_len]
  by_cases h : m.len = maxMessageEvents
  · rw [if_pos h, dif_pos h]
    exact RingQueue.overwriteOldest_layout id m (by decide) message h
  · rw [if_neg h, dif_neg h]
    exact RingQueue.pushBack_layout id m (by decide) message _

theorem pop_layout (m : MessageState) :
    (Machine.MessageState.pop (layout m) : Checked t _) = pure ((pop m).1, layout (pop m).2) := by
  have hpop := RingQueue.pop_layout (t := t) id m (by decide)
  rw [Option.map_id_fun, id_eq] at hpop
  exact hpop

end MessageState

namespace SchedulerState

/-- The memory of the scheduler. -/
def layout (s : SchedulerState) : Machine.SchedulerState :=
  ⟨s.control.layout, s.retransmit.layout, s.newData.layout, s.localQueue.layout⟩

theorem len_layout (s : SchedulerState) : (s.layout.len : Checked t Nat) = pure s.len := by
  have h := s.len_le
  have hevents : maxEvents = 16 := rfl
  unfold Machine.SchedulerState.len layout EventQueue.layout
  dsimp only
  simp only [RingQueue.layout_len]
  rw [add_small (by omega), pure_bind, add_small (by omega), pure_bind, add_small (by omega)]
  rfl

theorem available_layout (s : SchedulerState) :
    (s.layout.available : Checked t Nat) = pure s.available := by
  unfold Machine.SchedulerState.available
  rw [len_layout, pure_bind, sub_eq (show s.len ≤ maxEvents from s.len_le)]
  rfl

theorem replaceRedundantWrite_layout (s : SchedulerState) (event : EngineOutput) :
    (s.layout.replaceRedundantWrite event.layout : Checked t _) =
      pure ((s.replaceRedundantWrite event).map layout) := by
  unfold Machine.SchedulerState.replaceRedundantWrite layout
  dsimp only
  generalize hr : s.replaceRedundantWrite event = replaced
  unfold replaceRedundantWrite at hr
  rw [EventQueue.replaceRedundantWrite_layout, pure_bind]
  split at hr
  · rename_i hc
    rw [hc, ← hr]
    rfl
  rename_i hc
  rw [hc]
  dsimp only [Option.map_none]
  rw [EventQueue.replaceRedundantWrite_layout, pure_bind]
  split at hr
  · rename_i hq
    rw [hq, ← hr]
    rfl
  rename_i hq
  rw [hq]
  dsimp only [Option.map_none]
  rw [EventQueue.replaceRedundantWrite_layout, pure_bind]
  split at hr
  · rename_i hn
    rw [hn, ← hr]
    rfl
  rename_i hn
  rw [hn]
  dsimp only [Option.map_none]
  rw [EventQueue.replaceRedundantWrite_layout, pure_bind]
  split at hr
  · rename_i hl
    rw [hl, ← hr]
    rfl
  · rename_i hl
    rw [hl, ← hr]
    rfl

theorem push_layout (s : SchedulerState) (event : EngineOutput) :
    (s.layout.push event.layout : Checked t _) = pure ((s.push event).map layout) := by
  unfold Machine.SchedulerState.push
  generalize hr : s.push event = pushed
  unfold push at hr
  rw [replaceRedundantWrite_layout, pure_bind]
  split at hr
  · rename_i hreplaced
    rw [hreplaced, ← hr]
    rfl
  rename_i hreplaced
  rw [hreplaced]
  dsimp only [Option.map_none]
  rw [len_layout, pure_bind]
  by_cases hfull : s.len = maxEvents
  · rw [if_pos hfull]
    rw [dif_pos hfull] at hr
    rw [← hr]
    rfl
  rw [if_neg hfull, queueForEvent_layout]
  rw [dif_neg hfull] at hr
  -- the queue the event belongs to
  cases hkind : queueForEvent event <;> rw [hkind] at hr <;> dsimp only at hr ⊢ <;>
    rw [layout] <;> dsimp only <;> rw [EventQueue.push_layout, pure_bind] <;> split at hr <;>
    rename_i hq <;> rw [hq, ← hr] <;> rfl

theorem pushIgnored_layout (s : SchedulerState) (event : EngineOutput) :
    (s.layout.pushIgnored event.layout : Checked t _) = pure (s.pushIgnored event).layout := by
  unfold Machine.SchedulerState.pushIgnored pushIgnored
  rw [push_layout, pure_bind]
  cases s.push event with
  | ok s' => rfl
  | error e => rfl

theorem popUrgent_layout (s : SchedulerState) :
    (s.layout.popUrgent : Checked t _) =
      pure (s.popUrgent.1.map EngineOutput.layout, s.popUrgent.2.layout) := by
  unfold Machine.SchedulerState.popUrgent popUrgent
  rw [layout]
  dsimp only
  rw [EventQueue.pop_layout, pure_bind]
  dsimp only
  cases hc : s.control.pop.1 with
  | some event => rfl
  | none =>
    dsimp only [Option.map_none]
    rw [EventQueue.pop_layout, pure_bind]
    dsimp only
    have hretransmit : s.popControl.retransmit = s.retransmit := rfl
    rw [hretransmit]
    cases hr : s.retransmit.pop.1 with
    | some event => rfl
    | none =>
      dsimp only [Option.map_none]
      rw [EventQueue.pop_layout, pure_bind]
      rfl

theorem popNewData_layout (s : SchedulerState) :
    (s.layout.popNewData : Checked t _) =
      pure (s.newData.pop.1.map EngineOutput.layout, s.popNewData.layout) := by
  unfold Machine.SchedulerState.popNewData
  rw [layout]
  dsimp only
  rw [EventQueue.pop_layout, pure_bind]
  rfl

end SchedulerState

end Msrt
