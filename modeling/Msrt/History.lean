import Msrt.Engine

/-! # Runs and their history

A run of an engine is a sequence of `send`, `sendLog`, `sendPing`, `poll` and `receive` from a fresh
state.  Its history records every call with the state it met; one `receive` is recorded as the
calls of `receiveCompletePacket` it makes, one for each packet it takes off the stream
(`receiveCalls`).  What a run sent, transmitted, accepted or delivered is read off the history by
the `Call` functions below, so that theorems about whole runs speak of the program's own results.

`PacketRun` is the same machine one level down: one call at a time, with the ingress buffer changing
freely in between.  Every run is a packet run with the same history (`EngineRun.packetRun`), and
invariants are proved there, one call at a time.
-/

namespace Msrt

/-! ## Calls -/

/-- The calls a history records. -/
inductive CallOp where
  | send (packetType : PacketType) (message : Bytes)
  | sendPing
  | poll (nowMs txLen : Nat)
  | packet (bytes : Bytes)
  deriving DecidableEq

/-- A message an engine accepted for sending, under the id it returned. -/
structure SentMessage where
  packetType : PacketType
  messageId : MessageId
  bytes : Bytes
  deriving DecidableEq

/-- A call and the state it met. -/
structure Call where
  before : EngineState
  op : CallOp

namespace Call
variable (config : EngineConfig)

/-- The state the call left. -/
def after (call : Call) : EngineState :=
  match call.op with
  | .send packetType message => (call.before.sendFragmentedMessage config packetType message).1
  | .sendPing => (call.before.sendPing config).1
  | .poll nowMs txLen => (call.before.poll config nowMs txLen).1
  | .packet bytes => (call.before.receiveCompletePacket config bytes).1

/-- The result of a poll. -/
def polled (call : Call) : Option EnginePoll :=
  match call.op with
  | .poll nowMs txLen =>
    match (call.before.poll config nowMs txLen).2 with
    | .ok result => some result
    | .error _ => none
  | _ => none

/-- The message a `send` or `sendLog` accepted, with the id it returned. -/
def accepted (call : Call) : Option SentMessage :=
  match call.op with
  | .send packetType message =>
    match (call.before.sendFragmentedMessage config packetType message).2 with
    | .ok messageId => some ⟨packetType, messageId, message⟩
    | .error _ => none
  | _ => none

/-- The envelope a poll put on the wire. -/
def emitted (call : Call) : Option Bytes :=
  match call.polled config with
  | some (.transmit bytes _) => some bytes
  | _ => none

/-- The message a poll handed to the application. -/
def delivered (call : Call) : Option MessageEvent :=
  match call.polled config with
  | some (.message message) => some message
  | _ => none

/-- The failure a poll reported. -/
def reportedFailure (call : Call) : Option SendFailedEvent :=
  match call.polled config with
  | some (.sendFailed event) => some event
  | _ => none

/-- The fragment a packet handed to reassembly. -/
def observed (call : Call) : Option MessageFragment :=
  match call.op with
  | .packet bytes =>
    match decodePacketBytes bytes with
    | .data _ fragment =>
      if call.before.receive.isDuplicate fragment.key then none else some fragment
    | .log _ fragment => some fragment
    | _ => none
  | _ => none

/-- What reassembly makes of a fragment in the state the call met. -/
def reassembled (call : Call) (fragment : MessageFragment) : Option MessageEvent :=
  match (call.before.reassembly.observe fragment call.before.clock.nowMs).2 with
  | .ok message => message
  | .error _ => none

/-- The message a packet pushed into the delivery queue. -/
def pushed (call : Call) : Option MessageEvent :=
  match call.op with
  | .packet bytes =>
    match decodePacketBytes bytes with
    | .data _ fragment =>
      if call.before.receive.isDuplicate fragment.key then none
      else (call.reassembled fragment).map ({ · with packetType := .data })
    | .log _ fragment => (call.reassembled fragment).map ({ · with packetType := .log })
    | _ => none
  | _ => none

/-- The DATA fragment a packet call handed to reassembly and recorded as observed. -/
def acceptedFragment (call : Call) : Option MessageFragment :=
  match call.op with
  | .packet bytes =>
    match decodePacketBytes bytes with
    | .data _ fragment =>
      if call.before.receive.isDuplicate fragment.key then none
      else
        match (call.before.reassembly.observe fragment call.before.clock.nowMs).2 with
        | .ok _ => some fragment
        | .error _ => none
    | _ => none
  | _ => none

/-- The in-flight packet an ACK packet removed. -/
def acknowledged (call : Call) : Option PacketKey :=
  match call.op with
  | .packet bytes =>
    match decodePacketBytes bytes with
    | .ack key =>
      if (call.before.recovery.packets.any (fun p => p.key == key)) then some key else none
    | _ => none
  | _ => none

end Call

/-! ## The calls of a receive -/

namespace EngineState

/-- The packets the receive loop hands on, each with the state it meets. -/
def receiveLoopCalls (config : EngineConfig) : Nat → EngineState → Bytes → List Call
  | 0, _, _ => []
  | fuel + 1, st, input =>
    let fed := st.ingress.feed input config.integrity
    let st := { st with ingress := fed.1 }
    match fed.2 with
    | .error _ => []
    | .ok (.packet packetBytes _) =>
      match packetBytesTryFromSlice packetBytes with
      | .error _ => []
      | .ok packet =>
        let handled := st.receiveCompletePacket config packet
        ⟨st, .packet packet⟩ ::
          if handled.2.isError then [] else receiveLoopCalls config fuel handled.1 []
    | .ok (.needMore _) => []
    | .ok (.noise _) => receiveLoopCalls config fuel st []
    | .ok (.corrupted _) => receiveLoopCalls config fuel st []
    | .ok (.resync _) => receiveLoopCalls config fuel st []

/-- The packets a receive hands on, with the fuel of `receiveBytes`. -/
def receiveCalls (st : EngineState) (config : EngineConfig) (bytes : Bytes) : List Call :=
  receiveLoopCalls config (st.ingress.rest.length + bytes.length + 1) st bytes

end EngineState

/-! ## Runs -/

/-- The operations of an engine. -/
inductive EngineOp where
  | send (message : Bytes)
  | sendLog (message : Bytes)
  | sendPing
  | poll (nowMs txLen : Nat)
  | receive (bytes : Bytes)
  deriving DecidableEq

namespace EngineOp
variable (config : EngineConfig)

/-- The state an operation leaves. -/
def after (op : EngineOp) (st : EngineState) : EngineState :=
  match op with
  | .send message => (st.sendData config message).1
  | .sendLog message => (st.sendLog config message).1
  | .sendPing => (st.sendPing config).1
  | .poll nowMs txLen => (st.poll config nowMs txLen).1
  | .receive bytes => (st.receiveBytes config bytes).1

/-- The calls an operation makes. -/
def calls (op : EngineOp) (st : EngineState) : List Call :=
  match op with
  | .send message => [⟨st, .send .data message⟩]
  | .sendLog message => [⟨st, .send .log message⟩]
  | .sendPing => [⟨st, .sendPing⟩]
  | .poll nowMs txLen => [⟨st, .poll nowMs txLen⟩]
  | .receive bytes => st.receiveCalls config bytes

/-- Whether a receive reported an error. -/
def receiveFails (op : EngineOp) (st : EngineState) : Bool :=
  match op with
  | .receive bytes => (st.receiveBytes config bytes).2.isError
  | _ => false

/-- Whether a poll returned an error. -/
def pollFails (op : EngineOp) (st : EngineState) : Bool :=
  match op with
  | .poll nowMs txLen => !(st.poll config nowMs txLen).2.isOk
  | _ => false

end EngineOp

/-- The calls of a sequence of operations and the state it leaves. -/
def runOps (config : EngineConfig) : List EngineOp → EngineState → List Call × EngineState
  | [], st => ([], st)
  | op :: ops, st =>
    let rest := runOps config ops (op.after config st)
    (op.calls config st ++ rest.1, rest.2)

/-- The runs of an engine whose steps are all `allowed`, with their history. -/
inductive EngineRun (config : EngineConfig) (allowed : EngineState → EngineOp → Prop) :
    List Call → EngineState → Prop
  | new : EngineRun config allowed [] (.new config.initialMessageId)
  | step {calls st} (op : EngineOp) : EngineRun config allowed calls st → allowed st op →
      EngineRun config allowed (calls ++ op.calls config st) (op.after config st)

/-- The same machine one call at a time. -/
inductive PacketRun (config : EngineConfig) : List Call → EngineState → Prop
  | new : PacketRun config [] (.new config.initialMessageId)
  | call {calls st} (op : CallOp) : PacketRun config calls st →
      PacketRun config (calls ++ [⟨st, op⟩]) (Call.after config ⟨st, op⟩)
  | ingress {calls st} (ingress : StreamingDecoder maxIngressBytes) : PacketRun config calls st →
      PacketRun config calls { st with ingress }

section PacketRun
variable {config : EngineConfig} {calls : List Call} {st : EngineState}

theorem PacketRun.receiveLoop (h : PacketRun config calls st) (fuel : Nat) (input : Bytes)
    (report : ReceiveReport) :
    PacketRun config (calls ++ EngineState.receiveLoopCalls config fuel st input)
      (EngineState.receiveLoop config fuel st input report).1 := by
  -- the loop and its history unfold together; each round changes the ingress buffer first
  induction fuel generalizing calls st input report with
  | zero => simpa [EngineState.receiveLoopCalls, EngineState.receiveLoop] using h
  | succ fuel ih =>
    have hfed := h.ingress (st.ingress.feed input config.integrity).1
    unfold EngineState.receiveLoopCalls EngineState.receiveLoop
    dsimp only
    cases (st.ingress.feed input config.integrity).2 with
    | error e => simpa using hfed
    | ok outcome =>
      cases outcome with
      | needMore needed => simpa using hfed
      | noise skipped => exact ih hfed [] _
      | corrupted consumed => exact ih hfed [] _
      | resync skipped => exact ih hfed [] _
      | packet packetBytes consumed =>
        dsimp only
        cases packetBytesTryFromSlice packetBytes with
        | error e => simpa using hfed
        | ok packet =>
          have hcall := hfed.call (.packet packet)
          dsimp only
          split
          · exact hcall
          · have htail := ih hcall [] (EngineState.receiveCompletePacket
              { st with ingress := (st.ingress.feed input config.integrity).1 } config packet).2
            rw [List.append_assoc] at htail
            exact htail

theorem PacketRun.step (h : PacketRun config calls st) (op : EngineOp) :
    PacketRun config (calls ++ op.calls config st) (op.after config st) := by
  cases op with
  | send message => exact h.call (.send .data message)
  | sendLog message => exact h.call (.send .log message)
  | sendPing => exact h.call .sendPing
  | poll nowMs txLen => exact h.call (.poll nowMs txLen)
  | receive bytes => exact h.receiveLoop _ bytes _

/-- **Every run is a packet run with the same history.** -/
theorem EngineRun.packetRun {allowed : EngineState → EngineOp → Prop}
    (h : EngineRun config allowed calls st) : PacketRun config calls st := by
  induction h with
  | new => exact .new
  | step op _ _ ih => exact ih.step op

/-- A run of more restricted steps is a run. -/
theorem EngineRun.mono {allowed allowed' : EngineState → EngineOp → Prop}
    (h : EngineRun config allowed calls st) (hsub : ∀ st op, allowed st op → allowed' st op) :
    EngineRun config allowed' calls st := by
  induction h with
  | new => exact .new
  | step op _ hstep ih => exact ih.step op (hsub _ _ hstep)

/-- Every call of a receive handles a packet. -/
theorem op_of_mem_receiveLoopCalls {fuel : Nat} {input : Bytes} {call : Call}
    (h : call ∈ EngineState.receiveLoopCalls config fuel st input) :
    ∃ bytes, call.op = .packet bytes := by
  induction fuel generalizing st input with
  | zero => cases h
  | succ fuel ih =>
    unfold EngineState.receiveLoopCalls at h
    dsimp only at h
    split at h
    · cases h
    · split at h
      · cases h
      · rename_i packet _
        rcases List.mem_cons.mp h with rfl | h
        · exact ⟨packet, rfl⟩
        · split at h
          · cases h
          · exact ih h
    · cases h
    · exact ih h
    · exact ih h
    · exact ih h

/-- A poll among the calls of an operation is the operation itself. -/
theorem EngineOp.poll_of_mem_calls {op : EngineOp} {call : Call} {nowMs txLen : Nat}
    (h : call ∈ op.calls config st) (hop : call.op = .poll nowMs txLen) :
    op = .poll nowMs txLen ∧ call.before = st := by
  cases op with
  | receive bytes =>
    obtain ⟨packet, hpacket⟩ := op_of_mem_receiveLoopCalls h
    rw [hop] at hpacket
    cases hpacket
  | send | sendLog | sendPing =>
    rw [List.mem_singleton.mp h] at hop
    cases hop
  | poll nowMs' txLen' =>
    rw [List.mem_singleton.mp h] at hop ⊢
    obtain ⟨rfl, rfl⟩ := CallOp.poll.inj hop
    exact ⟨rfl, rfl⟩

/-- The poll of a run that no step of fails. -/
theorem EngineRun.poll_isOk_of_mem {allowed : EngineState → EngineOp → Prop}
    (h : EngineRun config allowed calls st)
    (hallowed : ∀ st op, allowed st op → op.pollFails config st = false) {call : Call}
    (hc : call ∈ calls) {nowMs txLen : Nat} (hop : call.op = .poll nowMs txLen) :
    (call.before.poll config nowMs txLen).2.isOk = true := by
  induction h with
  | new => cases hc
  | step op _ hstep ih =>
    rcases List.mem_append.mp hc with hc | hc
    · exact ih hc
    · obtain ⟨rfl, hbefore⟩ := EngineOp.poll_of_mem_calls hc hop
      rw [hbefore]
      simpa [EngineOp.pollFails] using hallowed _ _ hstep

end PacketRun

/-! ## Scripts -/

/-- A history around the entry at a position. -/
theorem split_at {α : Type*} {l : List α} {i : Nat} {a : α} (h : l[i]? = some a) :
    l = l.take i ++ a :: l.drop (i + 1) := by
  obtain ⟨hlt, rfl⟩ := List.getElem?_eq_some_iff.mp h
  rw [List.getElem_cons_drop, List.take_append_drop]

/-- Neither a poll nor a receive fails. -/
def NoError (config : EngineConfig) (st : EngineState) (op : EngineOp) : Prop :=
  op.pollFails config st = false ∧ op.receiveFails config st = false

/-- No step of the script fails. -/
def scriptSucceeds (config : EngineConfig) : List EngineOp → EngineState → Bool
  | [], _ => true
  | op :: ops, st => !op.pollFails config st && !op.receiveFails config st &&
      scriptSucceeds config ops (op.after config st)

theorem EngineRun.script {config : EngineConfig} {calls : List Call} {st : EngineState}
    {ops : List EngineOp} (hrun : EngineRun config (NoError config) calls st)
    (h : scriptSucceeds config ops st = true) :
    EngineRun config (NoError config) (calls ++ (runOps config ops st).1)
      (runOps config ops st).2 := by
  induction ops generalizing calls st with
  | nil =>
    rw [runOps, List.append_nil]
    exact hrun
  | cons op ops ih =>
    simp only [scriptSucceeds, Bool.and_eq_true, Bool.not_eq_true'] at h
    have hnext := ih (hrun.step op h.1) h.2
    rw [List.append_assoc] at hnext
    exact hnext

end Msrt
