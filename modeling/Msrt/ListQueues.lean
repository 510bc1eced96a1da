import Msrt.Queues
import Msrt.Simulation

/-! # The rings as list queues

Each of the three rings of the engine, driven by its own operations, next to the list it stands
for.

- `EventQueue.ring` against `EventQueue.fifo`: a list of at most sixteen events; replacing a write
  exchanges the first one of its key where it stands.
- `AckState.ring` against `AckState.fifo`: a list of at most sixteen keys.
- `MessageState.ring` against `MessageState.fifo`: a list whose oldest message makes room for the
  seventeenth.

The list automata know nothing of heads and physical positions.  `RingQueue.toList` is the
abstraction of all three, and one step of a ring is one step of its list (`ring_refines`), so every
run is.
-/

namespace Msrt

/-! ## Operations and their results -/

/-- The operations on an event queue. -/
inductive EventQueueOp where
  | push (event : EngineOutput)
  | pop
  | replaceRedundantWrite (event : EngineOutput)

/-- What they return. -/
inductive EventQueueResult where
  | pushed (result : Except Error Unit)
  | popped (event : Option EngineOutput)
  | replaced (done : Bool)

/-- The operations on a plain queue; `AckState::observe` is its push. -/
inductive QueueOp (α : Type) where
  | push (x : α)
  | pop

/-- What they return, with `ρ` the result of a push. -/
inductive QueueResult (ρ α : Type) where
  | pushed (result : ρ)
  | popped (x : Option α)

/-! ## The rings -/

namespace EventQueue

/-- The event queue as the scheduler drives it; a refused operation leaves it as it was. -/
def ring : Automaton EventQueue EventQueueOp EventQueueResult where
  step q
    | .push event =>
      match push q event with
      | .ok q' => (q', .pushed (.ok ()))
      | .error e => (q, .pushed (.error e))
    | .pop => ((pop q).2, .popped (pop q).1)
    | .replaceRedundantWrite event =>
      match replaceRedundantWrite q event with
      | some q' => (q', .replaced true)
      | none => (q, .replaced false)

/-- The list of events it stands for. -/
def fifo : Automaton (List EngineOutput) EventQueueOp EventQueueResult where
  step events
    | .push event =>
      if events.length = maxEvents then (events, .pushed (.error .engine))
      else (events ++ [event], .pushed (.ok ()))
    | .pop => (events.tail, .popped events.head?)
    | .replaceRedundantWrite (.sendFailed _) => (events, .replaced false)
    | .replaceRedundantWrite (.write write) =>
      match events.findIdx? (·.redundantFor write) with
      | some i => (events.set i (.write write), .replaced true)
      | none => (events, .replaced false)

end EventQueue

namespace AckState

/-- The acknowledgement queue as an automaton. -/
def ring : Automaton AckState (QueueOp PacketKey) (QueueResult Bool PacketKey) where
  step a
    | .push key =>
      match observe a key with
      | some a' => (a', .pushed true)
      | none => (a, .pushed false)
    | .pop => ((pop a).2, .popped (pop a).1)

/-- The list of keys it stands for: the seventeenth is refused. -/
def fifo : Automaton (List PacketKey) (QueueOp PacketKey) (QueueResult Bool PacketKey) where
  step keys
    | .push key =>
      if keys.length = maxPendingAcks then (keys, .pushed false)
      else (keys ++ [key], .pushed true)
    | .pop => (keys.tail, .popped keys.head?)

end AckState

namespace MessageState

/-- The delivery queue as an automaton. -/
def ring : Automaton MessageState (QueueOp MessageEvent) (QueueResult Unit MessageEvent) where
  step m
    | .push message => (push m message, .pushed ())
    | .pop => ((pop m).2, .popped (pop m).1)

/-- The list of messages it stands for: the oldest makes room for the seventeenth. -/
def fifo :
    Automaton (List MessageEvent) (QueueOp MessageEvent) (QueueResult Unit MessageEvent) where
  step messages
    | .push message =>
      if messages.length = maxMessageEvents then (messages.tail ++ [message], .pushed ())
      else (messages ++ [message], .pushed ())
    | .pop => (messages.tail, .popped messages.head?)

end MessageState

/-! ## One step -/

namespace EventQueue

theorem ring_refines : ring.Refines fifo RingQueue.toList := by
  intro q op
  cases op with
  | push event =>
    simp only [ring, fifo, push, RingQueue.length_toList]
    split
    · rfl
    · simp only [RingQueue.toList_pushBack]
  | pop =>
    simp only [ring, fifo, pop, RingQueue.fst_pop, RingQueue.toList_pop]
  | replaceRedundantWrite event =>
    cases event with
    | sendFailed e => rfl
    | write write =>
      simp only [ring, fifo, replaceRedundantWrite_write]
      cases (RingQueue.toList q).findIdx? (·.redundantFor write) with
      | none => rfl
      | some i => simp only [Option.map_some, RingQueue.toList_setAt]

end EventQueue

theorem AckState.ring_refines : ring.Refines fifo RingQueue.toList := by
  intro a op
  cases op with
  | push key =>
    simp only [ring, fifo, observe, RingQueue.length_toList]
    split
    · rfl
    · simp only [RingQueue.toList_pushBack]
  | pop =>
    simp only [ring, fifo, fst_pop, toList_pop]

theorem MessageState.ring_refines : ring.Refines fifo RingQueue.toList := by
  intro m op
  cases op with
  | push message =>
    simp only [ring, fifo, push, RingQueue.length_toList]
    split
    · simp only [RingQueue.toList_overwriteOldest]
    · simp only [RingQueue.toList_pushBack]
  | pop =>
    simp only [ring, fifo, pop, RingQueue.fst_pop, RingQueue.toList_pop]

/-! ## Whole runs -/

/-- A ring and a list automaton answer every run of operations alike, from empty on, and the ring
then holds the list: as long, never longer than the capacity. -/
def BehavesAs {α Op R : Type} {capacity : Nat} (ring : Automaton (RingQueue α capacity) Op R)
    (fifo : Automaton (List α) Op R) (new : RingQueue α capacity) : Prop :=
  ∀ ops, ring.trace new ops = fifo.trace [] ops ∧
    (ring.run new ops).toList = fifo.run [] ops ∧
    (ring.run new ops).len = (fifo.run [] ops).length ∧
    (fifo.run [] ops).length ≤ capacity

/-- A refinement along `toList` behaves as its list. -/
theorem behavesAs_of_refines {α Op R : Type} {capacity : Nat}
    {ring : Automaton (RingQueue α capacity) Op R} {fifo : Automaton (List α) Op R}
    (h : ring.Refines fifo RingQueue.toList) {new : RingQueue α capacity}
    (hnew : new.toList = []) : BehavesAs ring fifo new := by
  intro ops
  have hrun := h.run new ops
  have htrace := h.trace new ops
  rw [hnew] at hrun htrace
  have hlen : (ring.run new ops).len = (fifo.run [] ops).length := by
    rw [← hrun, RingQueue.length_toList]
  exact ⟨htrace, hrun, hlen, hlen ▸ (ring.run new ops).len_le⟩

/-- A list that is not empty has a head. -/
theorem head?_toList_ne_none {α : Type} {capacity : Nat} (q : RingQueue α capacity)
    (h : 0 < q.len) : q.toList.head? ≠ none := by
  intro hnone
  have hnil := (RingQueue.toList_eq_nil_iff q).mp (List.head?_eq_none_iff.mp hnone)
  omega

/-- **The three rings are list queues.**  For every list of operations from empty, each ring gives
the results its list gives, holds what the list holds and counts it, within sixteen entries; and
none of them, whatever it holds, pops nothing while its count is positive. -/
theorem rings_are_list_queues :
    BehavesAs EventQueue.ring EventQueue.fifo EventQueue.new ∧
    BehavesAs AckState.ring AckState.fifo AckState.new ∧
    BehavesAs MessageState.ring MessageState.fifo MessageState.new ∧
    (maxEvents = 16 ∧ maxPendingAcks = 16 ∧ maxMessageEvents = 16) ∧
    (∀ q : EventQueue, 0 < q.len → (EventQueue.pop q).1 ≠ none) ∧
    (∀ a : AckState, 0 < a.len → (AckState.pop a).1 ≠ none) ∧
    (∀ m : MessageState, 0 < m.len → (MessageState.pop m).1 ≠ none) := by
  refine ⟨behavesAs_of_refines EventQueue.ring_refines rfl,
    behavesAs_of_refines AckState.ring_refines rfl,
    behavesAs_of_refines MessageState.ring_refines rfl, ⟨rfl, rfl, rfl⟩, ?_, ?_, ?_⟩
  · intro q h
    rw [EventQueue.pop, RingQueue.fst_pop]
    exact head?_toList_ne_none q h
  · intro a h
    rw [AckState.fst_pop]
    exact head?_toList_ne_none a h
  · intro m h
    rw [MessageState.pop, RingQueue.fst_pop]
    exact head?_toList_ne_none m h

end Msrt
