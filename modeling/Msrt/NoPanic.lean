import Msrt.MachineInvariant
import Msrt.MachinePolling
import Msrt.Sessions

/-! # The protocol core never panics

A slot in memory (`PeerSlot.layout`) goes through a sequence of calls as the model's slot does, whatever
bytes and buffers the calls are handed (`SlotCall.after_layout`).  The engine of a live session is the
engine of a run, so the bounds its operations rest on hold when the next call is made.  Together: from
a fresh slot every sequence of calls succeeds, and the memory it leaves is sound.
-/

namespace Msrt
open Checked
variable {t : Target}

/-! ## The engine -/

theorem EngineState.layout_new (messageId : MessageId) :
    (EngineState.new messageId).layout .new = Machine.EngineState.new messageId := by
  have hqueue : EventQueue.layout .new = Machine.EventQueue.new :=
    RingQueue.empty_layout EngineOutput.layout (by decide)
  have hscheduler : SchedulerState.new.layout = Machine.SchedulerState.new := by
    rw [SchedulerState.layout, Machine.SchedulerState.new, ← hqueue]
    rfl
  have hrecovery : RecoveryState.new.layout = Machine.RecoveryState.new := by
    rw [RecoveryState.layout, Machine.RecoveryState.new, ← InFlightPackets.layout_new]
    rfl
  have hack : AckState.layout .new = Machine.AckState.new :=
    RingQueue.empty_layout _ (by decide)
  have hmessage : MessageState.layout .new = Machine.MessageState.new :=
    RingQueue.empty_layout _ (by decide)
  have hreassembly : ReassemblyState.new.layout = Machine.ReassemblyState.new := by
    rw [ReassemblyState.layout, Machine.ReassemblyState.new, ReassemblyState.new, List.map_replicate]
    rfl
  rw [Machine.EngineState.new, ← hscheduler, ← hrecovery, ← hack, ← hmessage, ← hreassembly]
  rfl

namespace Engine
variable (engine : Engine) (ingress : Machine.StreamingDecoder maxIngressBytes)

/-- The memory of an engine. -/
def layout : Machine.Engine := ⟨engine.config, engine.state.layout ingress⟩

theorem layout_new (config : EngineConfig) :
    (Engine.new config).layout .new = Machine.Engine.new config := by
  rw [layout, Machine.Engine.new, ← EngineState.layout_new]
  rfl

theorem send_layout {message : Bytes} (hlen : message.length ≤ t.isizeMax) :
    ((engine.layout ingress).send message : Checked t _) =
      pure ((engine.send message).1.layout ingress, (engine.send message).2) := by
  unfold Machine.Engine.send
  show (((engine.state.layout ingress).sendData engine.config message : Checked t _) >>= _) = _
  rw [engine.state.sendData_layout ingress engine.config hlen, pure_bind]
  rfl

theorem sendPing_layout :
    ((engine.layout ingress).sendPing : Checked t _) =
      pure (engine.sendPing.1.layout ingress, engine.sendPing.2) := by
  unfold Machine.Engine.sendPing
  show (((engine.state.layout ingress).sendPing engine.config : Checked t _) >>= _) = _
  rw [engine.state.sendPing_layout ingress engine.config, pure_bind]
  rfl

theorem poll_layout (nowMs : Nat) (txBuf : Bytes) :
    ((engine.layout ingress).poll nowMs txBuf : Checked t _) =
      pure ((engine.poll nowMs txBuf.length).1.layout ingress,
        (engine.poll nowMs txBuf.length).2) := by
  unfold Machine.Engine.poll
  show (((engine.state.layout ingress).poll engine.config nowMs txBuf : Checked t _) >>= _) = _
  rw [engine.state.poll_layout ingress engine.config nowMs txBuf, pure_bind]
  rfl

theorem receive_layout {bytes : Bytes} (hrange : engine.state.receive.InRange)
    (hstores : ingress.Stores engine.state.ingress) (hbytes : bytes.length ≤ t.isizeMax) :
    ∃ m', ((engine.layout ingress).receive bytes : Checked t _) =
        pure ((engine.receive bytes).1.layout m', (engine.receive bytes).2) ∧
      m'.Stores (engine.receive bytes).1.state.ingress := by
  obtain ⟨m', hreceived, hstores'⟩ :=
    EngineState.receiveBytes_layout engine.config hrange hstores hbytes
  refine ⟨m', ?_, hstores'⟩
  unfold Machine.Engine.receive
  show (((engine.state.layout ingress).receiveBytes engine.config bytes : Checked t _) >>= _) = _
  rw [hreceived, pure_bind]
  rfl

theorem ingress_send (message : Bytes) :
    (engine.send message).1.state.ingress = engine.state.ingress :=
  (engine.state.sendFragmentedMessage_frame .data message).ingress

theorem ingress_sendPing : engine.sendPing.1.state.ingress = engine.state.ingress :=
  (engine.state.queueLiveness_frame .ping .newData).ingress

theorem ingress_poll (nowMs txLen : Nat) :
    (engine.poll nowMs txLen).1.state.ingress = engine.state.ingress :=
  (engine.state.poll_frame nowMs txLen).ingress

end Engine

/-! ## The slot -/

namespace PeerSlot

/-- The memory of a slot; the buffer matters only while there is an engine. -/
def layout (slot : PeerSlot) (ingress : Machine.StreamingDecoder maxIngressBytes) :
    Machine.PeerSlot where
  config := slot.config
  engine := slot.engine.map (·.layout ingress)
  state := slot.state
  lastSeenMs := slot.lastSeenMs
  lastPingMs := slot.lastPingMs
  pendingPing := slot.pendingPing

theorem engine_layout (slot : PeerSlot) (ingress : Machine.StreamingDecoder maxIngressBytes) :
    (slot.layout ingress).engine = slot.engine.map (·.layout ingress) := rfl

/-- The buffer stores what the engine's decoder holds. -/
def Stored (slot : PeerSlot) (ingress : Machine.StreamingDecoder maxIngressBytes) : Prop :=
  ∀ engine, slot.engine = some engine → ingress.Stores engine.state.ingress

/-- The operation succeeds on the machine with the result of the model, and leaves its memory. -/
def Computes {ρ : Type} (x : Checked t (Machine.PeerSlot × ρ)) (result : PeerSlot × ρ) : Prop :=
  ∃ ingress, x = pure (result.1.layout ingress, result.2) ∧ result.1.Stored ingress

variable {slot : PeerSlot} {ingress : Machine.StreamingDecoder maxIngressBytes}

theorem stored_of_none (h : slot.engine = none) : slot.Stored ingress := by
  intro engine hengine
  rw [h] at hengine
  cases hengine

theorem stored_of_some {engine : Engine} (h : slot.engine = some engine)
    (hstores : ingress.Stores engine.state.ingress) : slot.Stored ingress := by
  intro engine' hengine
  rw [h] at hengine
  exact Option.some.inj hengine ▸ hstores

theorem connect_computes (slot : PeerSlot) (ingress : Machine.StreamingDecoder maxIngressBytes)
    (nowMs : Nat) :
    Computes (t := t) ((slot.layout ingress).connect nowMs) (slot.connect nowMs) := by
  have hlen : helloMessage.length ≤ t.isizeMax := Nat.le_trans (by decide) t.le_isizeMax
  refine ⟨.new, ?_, stored_of_some rfl ?_⟩
  · unfold Machine.PeerSlot.connect
    show ((Machine.Engine.new slot.config).send helloMessage >>= _) = _
    rw [← Engine.layout_new, Engine.send_layout _ _ hlen, pure_bind]
    rfl
  · rw [Engine.ingress_send]
    exact Machine.StreamingDecoder.stores_new

theorem send_computes (h : slot.Stored ingress) {message : Bytes}
    (hlen : message.length ≤ t.isizeMax) :
    Computes (t := t) ((slot.layout ingress).send message) (slot.send message) := by
  unfold Machine.PeerSlot.send send
  rw [engine_layout]
  cases hengine : slot.engine with
  | none => exact ⟨ingress, rfl, h⟩
  | some engine =>
    refine ⟨ingress, ?_, stored_of_some rfl ?_⟩
    · show ((engine.layout ingress).send message >>= _) = _
      rw [Engine.send_layout _ _ hlen, pure_bind]
      rfl
    · rw [Engine.ingress_send]
      exact h engine hengine

theorem noteReport_layout (nowMs : Nat) (report : ReceiveReport) :
    (slot.layout ingress).noteReport nowMs report = (slot.noteReport nowMs report).layout ingress := by
  unfold Machine.PeerSlot.noteReport noteReport
  dsimp only
  cases report.isPeerTraffic with
  | false =>
    by_cases hpong : report = .pong
    · rw [if_pos hpong, if_pos hpong]
      rfl
    · rw [if_neg hpong, if_neg hpong]
      rfl
  | true =>
    by_cases hpong : report = .pong
    · rw [if_pos hpong, if_pos hpong]
      rfl
    · rw [if_neg hpong, if_neg hpong]
      rfl

theorem engine_noteReport (nowMs : Nat) (report : ReceiveReport) :
    (slot.noteReport nowMs report).engine = slot.engine := by
  unfold noteReport
  dsimp only
  split <;> split <;> rfl

theorem receive_computes (h : slot.Stored ingress)
    (hrange : ∀ engine, slot.engine = some engine → engine.state.receive.InRange) (nowMs : Nat)
    {bytes : Bytes} (hlen : bytes.length ≤ t.isizeMax) :
    Computes (t := t) ((slot.layout ingress).receive nowMs bytes) (slot.receive nowMs bytes) := by
  unfold Machine.PeerSlot.receive receive
  rw [engine_layout]
  cases hengine : slot.engine with
  | none => exact ⟨ingress, rfl, h⟩
  | some engine =>
    obtain ⟨m', hreceived, hstores⟩ :=
      engine.receive_layout ingress (hrange engine hengine) (h engine hengine) hlen
    show Computes ((engine.layout ingress).receive bytes >>= _) _
    rw [hreceived, pure_bind]
    dsimp only
    have hslot : ({ slot.layout ingress with engine := some ((engine.receive bytes).1.layout m') } :
        Machine.PeerSlot) =
          ({ slot with engine := some (engine.receive bytes).1 } : PeerSlot).layout m' := rfl
    rw [hslot]
    cases (engine.receive bytes).2.isError with
    | true => exact ⟨m', rfl, stored_of_none rfl⟩
    | false =>
      refine ⟨m', ?_, ?_⟩
      · rw [if_neg (by simp), if_neg (by simp), noteReport_layout]
      · rw [if_neg (by simp)]
        exact stored_of_some (engine_noteReport nowMs _) hstores

theorem queuePingIfIdle_computes (h : slot.Stored ingress) (nowMs : Nat) :
    ((slot.layout ingress).queuePingIfIdle nowMs : Checked t _) =
        pure ((slot.queuePingIfIdle nowMs).1.layout ingress, (slot.queuePingIfIdle nowMs).2) ∧
      (slot.queuePingIfIdle nowMs).1.Stored ingress := by
  unfold Machine.PeerSlot.queuePingIfIdle queuePingIfIdle
  have hconnected : (slot.layout ingress).isConnected = slot.isConnected := rfl
  rw [hconnected]
  show (if (!slot.isConnected || slot.pendingPing ||
      decide (nowMs - slot.lastSeenMs < defaultPingIntervalMs) ||
      decide (nowMs - slot.lastPingMs < defaultPingIntervalMs)) = true then _ else _) = _ ∧ _
  by_cases hquiet : (!slot.isConnected || slot.pendingPing ||
      decide (nowMs - slot.lastSeenMs < defaultPingIntervalMs) ||
      decide (nowMs - slot.lastPingMs < defaultPingIntervalMs)) = true
  · rw [if_pos hquiet, if_pos hquiet]
    exact ⟨rfl, h⟩
  rw [if_neg hquiet, if_neg hquiet]
  rw [engine_layout]
  cases hengine : slot.engine with
  | none => exact ⟨rfl, h⟩
  | some engine =>
    have hstores : ingress.Stores engine.sendPing.1.state.ingress :=
      engine.ingress_sendPing ▸ h engine hengine
    show ((engine.layout ingress).sendPing >>= _) = _ ∧ _
    rw [engine.sendPing_layout ingress, pure_bind]
    dsimp only
    cases engine.sendPing.2 with
    | error e => exact ⟨rfl, stored_of_some rfl hstores⟩
    | ok u => exact ⟨rfl, stored_of_some rfl hstores⟩

theorem pollEngine_computes (h : slot.Stored ingress) (nowMs : Nat) (txBuf : Bytes) :
    Computes (t := t) ((slot.layout ingress).pollEngine nowMs txBuf)
      (slot.pollEngine nowMs txBuf.length) := by
  unfold Machine.PeerSlot.pollEngine pollEngine
  rw [engine_layout]
  cases hengine : slot.engine with
  | none => exact ⟨ingress, rfl, h⟩
  | some engine =>
    have hstores : ingress.Stores (engine.poll nowMs txBuf.length).1.state.ingress :=
      engine.ingress_poll nowMs txBuf.length ▸ h engine hengine
    show Computes ((engine.layout ingress).poll nowMs txBuf >>= _) _
    rw [engine.poll_layout ingress nowMs txBuf, pure_bind]
    dsimp only
    cases (engine.poll nowMs txBuf.length).2 with
    | error e => exact ⟨ingress, rfl, stored_of_none rfl⟩
    | ok result =>
      cases result with
      | idle => exact ⟨ingress, rfl, stored_of_some rfl hstores⟩
      | transmit bytes attempts => exact ⟨ingress, rfl, stored_of_some rfl hstores⟩
      | message message => exact ⟨ingress, rfl, stored_of_some rfl hstores⟩
      | sendFailed event => exact ⟨ingress, rfl, stored_of_none rfl⟩

theorem poll_computes (h : slot.Stored ingress) (nowMs : Nat) (txBuf : Bytes) :
    Computes (t := t) ((slot.layout ingress).poll nowMs txBuf) (slot.poll nowMs txBuf.length) := by
  obtain ⟨hping, hstored⟩ := queuePingIfIdle_computes (t := t) h nowMs
  unfold Machine.PeerSlot.poll poll
  rw [hping, pure_bind]
  rcases hq : slot.queuePingIfIdle nowMs with ⟨slot', e | ⟨⟩⟩
  · exact ⟨ingress, rfl, stored_of_none rfl⟩
  · rw [hq] at hstored
    exact pollEngine_computes hstored nowMs txBuf

theorem disconnectIfIdle_layout (nowMs timeoutMs : Nat) :
    (slot.layout ingress).disconnectIfIdle nowMs timeoutMs =
      ((slot.disconnectIfIdle nowMs timeoutMs).1.layout ingress,
        (slot.disconnectIfIdle nowMs timeoutMs).2) := by
  have hengine : (slot.layout ingress).engine.isSome = slot.engine.isSome := Option.isSome_map
  unfold Machine.PeerSlot.disconnectIfIdle disconnectIfIdle
  rw [hengine]
  show (if (slot.engine.isSome && decide (nowMs - slot.lastSeenMs ≥ timeoutMs)) = true then _
    else _) = _
  by_cases hidle : (slot.engine.isSome && decide (nowMs - slot.lastSeenMs ≥ timeoutMs)) = true
  · rw [if_pos hidle, if_pos hidle]
    rfl
  · rw [if_neg hidle, if_neg hidle]

theorem acceptPassive_layout (slot : PeerSlot) (ingress : Machine.StreamingDecoder maxIngressBytes)
    (nowMs : Nat) :
    (slot.layout ingress).acceptPassive nowMs = (slot.acceptPassive nowMs).layout .new := by
  unfold Machine.PeerSlot.acceptPassive
  show ({ slot.layout ingress with
    engine := some (.new slot.config)
    state := .connecting
    lastSeenMs := nowMs
    lastPingMs := nowMs
    pendingPing := false } : Machine.PeerSlot) = _
  rw [← Engine.layout_new]
  rfl

theorem stored_acceptPassive (slot : PeerSlot) (nowMs : Nat) :
    (slot.acceptPassive nowMs).Stored .new :=
  stored_of_some rfl Machine.StreamingDecoder.stores_new

theorem acceptPassiveIfNeeded_layout (h : slot.Stored ingress) (nowMs : Nat) :
    ∃ ingress', (slot.layout ingress).acceptPassiveIfNeeded nowMs =
        (slot.acceptPassiveIfNeeded nowMs).layout ingress' ∧
      (slot.acceptPassiveIfNeeded nowMs).Stored ingress' := by
  have hengine : (slot.layout ingress).engine.isNone = slot.engine.isNone := Option.isNone_map
  unfold Machine.PeerSlot.acceptPassiveIfNeeded acceptPassiveIfNeeded
  rw [hengine]
  cases slot.engine.isNone with
  | true =>
    rw [if_pos rfl, if_pos rfl, acceptPassive_layout]
    exact ⟨.new, rfl, slot.stored_acceptPassive nowMs⟩
  | false =>
    rw [if_neg (by simp), if_neg (by simp)]
    exact ⟨ingress, rfl, h⟩

end PeerSlot

/-! ## Sequences of calls -/

namespace Machine.SlotCall

/-- The operation of the model that a call is. -/
def op : SlotCall t → SlotOp
  | .connect nowMs => .connect nowMs
  | .acceptPassive nowMs => .acceptPassive nowMs
  | .acceptPassiveIfNeeded nowMs => .acceptPassiveIfNeeded nowMs
  | .disconnect => .disconnect
  | .send message => .send message.bytes
  | .receive nowMs bytes => .receive nowMs bytes.bytes
  | .poll nowMs txBuf => .poll nowMs txBuf.bytes.length
  | .disconnectIfIdle nowMs timeoutMs => .disconnectIfIdle nowMs timeoutMs

/-- **Every call succeeds** and leaves the memory of what the operation leaves. -/
theorem after_layout (call : SlotCall t) {slot : Msrt.PeerSlot}
    {ingress : StreamingDecoder maxIngressBytes} (h : slot.Stored ingress)
    (hrange : ∀ engine, slot.engine = some engine → engine.state.receive.InRange) :
    ∃ ingress', call.after (slot.layout ingress) = pure ((call.op.after slot).layout ingress') ∧
      (call.op.after slot).Stored ingress' := by
  -- a call that returns something besides the slot drops it
  have hdrop {ρ : Type} {x : Checked t (PeerSlot × ρ)} {result : Msrt.PeerSlot × ρ}
      (hx : Msrt.PeerSlot.Computes x result) :
      ∃ ingress', (x >>= fun r => pure r.1) = pure (result.1.layout ingress') ∧
        result.1.Stored ingress' := by
    obtain ⟨ingress', rfl, hstored⟩ := hx
    exact ⟨ingress', rfl, hstored⟩
  cases call with
  | connect nowMs => exact hdrop (slot.connect_computes ingress nowMs)
  | acceptPassive nowMs =>
    exact ⟨.new, congrArg pure (slot.acceptPassive_layout ingress nowMs),
      slot.stored_acceptPassive nowMs⟩
  | acceptPassiveIfNeeded nowMs =>
    obtain ⟨ingress', hslot, hstored⟩ := Msrt.PeerSlot.acceptPassiveIfNeeded_layout h nowMs
    exact ⟨ingress', congrArg pure hslot, hstored⟩
  | disconnect => exact ⟨ingress, rfl, Msrt.PeerSlot.stored_of_none rfl⟩
  | send message => exact hdrop (Msrt.PeerSlot.send_computes h message.length_le)
  | receive nowMs bytes => exact hdrop (Msrt.PeerSlot.receive_computes h hrange nowMs bytes.length_le)
  | poll nowMs txBuf => exact hdrop (Msrt.PeerSlot.poll_computes h nowMs txBuf.bytes)
  | disconnectIfIdle nowMs timeoutMs =>
    refine ⟨ingress, congrArg (fun r => pure r.1) (slot.disconnectIfIdle_layout nowMs timeoutMs), ?_⟩
    show (slot.disconnectIfIdle nowMs timeoutMs).1.Stored ingress
    unfold Msrt.PeerSlot.disconnectIfIdle
    split
    · exact Msrt.PeerSlot.stored_of_none rfl
    · exact h

end Machine.SlotCall

/-- A sequence of calls goes as the model's run of its operations. -/
theorem runCalls_layout (config : EngineConfig) (calls : List (Machine.SlotCall t)) :
    ∃ ingress, Machine.runCalls config calls =
        pure ((runPeer config (calls.map Machine.SlotCall.op)).slot.layout ingress) ∧
      (runPeer config (calls.map Machine.SlotCall.op)).slot.Stored ingress := by
  induction calls using List.reverseRecOn with
  | nil => exact ⟨.new, rfl, PeerSlot.stored_of_none rfl⟩
  | append_singleton calls call ih =>
    obtain ⟨ingress, hrun, hstored⟩ := ih
    have hpeer := peerRun_runPeer config (calls.map Machine.SlotCall.op)
    obtain ⟨ingress', hcall, hstored'⟩ := call.after_layout hstored fun engine hengine =>
      (hpeer.live engine hengine).2.2.inRange
    have hstep : runPeer config ((calls ++ [call]).map Machine.SlotCall.op) =
        (runPeer config (calls.map Machine.SlotCall.op)).step call.op := by
      rw [List.map_append, runPeer, List.foldl_append]
      rfl
    rw [hstep]
    refine ⟨ingress', ?_, hstored'⟩
    rw [Machine.runCalls, List.foldlM_append]
    show (Machine.runCalls config calls >>= _) = _
    rw [hrun, pure_bind, List.foldlM_cons, hcall, pure_bind]
    rfl

/-- **The protocol core never panics.**  From a fresh slot, under any configuration, every sequence of
calls succeeds on any target, and the engine of the slot it leaves keeps its bounds. -/
theorem calls_never_panic (config : EngineConfig) (calls : List (Machine.SlotCall t)) :
    ∃ slot, Machine.runCalls config calls = pure slot ∧
      ∀ engine, slot.engine = some engine → engine.state.Sound := by
  obtain ⟨ingress, hrun, hstored⟩ := runCalls_layout config calls
  refine ⟨_, hrun, ?_⟩
  intro engine hengine
  obtain ⟨modelled, hmodelled, rfl⟩ := Option.map_eq_some_iff.mp hengine
  have hlive := (peerRun_runPeer config (calls.map Machine.SlotCall.op)).live_engineRun
  exact (hlive modelled hmodelled).2.2.sound (hstored modelled hmodelled)

end Msrt
