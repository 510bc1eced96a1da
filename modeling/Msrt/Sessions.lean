import Msrt.Endpoint
import Msrt.Link

/-! # Sessions of a peer slot

A slot goes through sessions: `connect` and the passive accepts open one with a fresh engine, and
whatever fails drops it.  A `Peer` is a slot with its history: the calls of each session it had, and
the envelopes its polls returned.  Between opening and dropping, a slot operation is a sequence of
engine operations on the session (`SlotOp.engine_after`), so what holds of every run of an engine
holds of every live session (`Peer.Live.step`).
-/

namespace Msrt
open EngineState

/-! ## Operations -/

/-- The operations of a slot. -/
inductive SlotOp where
  | connect (nowMs : Nat)
  | acceptPassive (nowMs : Nat)
  | acceptPassiveIfNeeded (nowMs : Nat)
  | disconnect
  | send (message : Bytes)
  | receive (nowMs : Nat) (bytes : Bytes)
  | poll (nowMs txLen : Nat)
  | disconnectIfIdle (nowMs timeoutMs : Nat)
  deriving DecidableEq

namespace PeerSlot

/-- A poll at `nowMs` tries to queue a PING. -/
def pingDue (slot : PeerSlot) (nowMs : Nat) : Bool :=
  slot.isConnected && !slot.pendingPing &&
    decide (defaultPingIntervalMs ≤ nowMs - slot.lastSeenMs) &&
    decide (defaultPingIntervalMs ≤ nowMs - slot.lastPingMs)

end PeerSlot

namespace SlotOp

/-- The slot an operation leaves. -/
def after (op : SlotOp) (slot : PeerSlot) : PeerSlot :=
  match op with
  | .connect nowMs => (slot.connect nowMs).1
  | .acceptPassive nowMs => slot.acceptPassive nowMs
  | .acceptPassiveIfNeeded nowMs => slot.acceptPassiveIfNeeded nowMs
  | .disconnect => slot.disconnect
  | .send message => (slot.send message).1
  | .receive nowMs bytes => (slot.receive nowMs bytes).1
  | .poll nowMs txLen => (slot.poll nowMs txLen).1
  | .disconnectIfIdle nowMs timeoutMs => (slot.disconnectIfIdle nowMs timeoutMs).1

/-- The envelope an operation returned. -/
def transmitted (op : SlotOp) (slot : PeerSlot) : Option Bytes :=
  match op with
  | .poll nowMs txLen =>
    match (slot.poll nowMs txLen).2 with
    | .ok (.transmit bytes _) => some bytes
    | _ => none
  | _ => none

/-- The operation opens a session. -/
def opens (op : SlotOp) (slot : PeerSlot) : Bool :=
  match op with
  | .connect _ => true
  | .acceptPassive _ => true
  | .acceptPassiveIfNeeded _ => slot.engine.isNone
  | _ => false

/-- The engine an operation works on. -/
def base (op : SlotOp) (slot : PeerSlot) : Option Engine :=
  if op.opens slot then some (.new slot.config) else slot.engine

/-- The engine operations an operation makes. -/
def engineOps (op : SlotOp) (slot : PeerSlot) : List EngineOp :=
  match op with
  | .connect _ => [.send helloMessage]
  | .send message => [.send message]
  | .receive _ bytes => [.receive bytes]
  | .poll nowMs txLen =>
    (if slot.pingDue nowMs then [.sendPing] else []) ++
      if (slot.queuePingIfIdle nowMs).2.isOk then [.poll nowMs txLen] else []
  | _ => []

end SlotOp

/-- A slot makes the operation and keeps its engine.  It drops the engine when a receive, a poll or a
PING fails, and when a poll reports a message as failed; it sends no logs. -/
def EngineOp.keeps (config : EngineConfig) (op : EngineOp) (st : EngineState) : Bool :=
  match op with
  | .send _ => true
  | .sendLog _ => false
  | .sendPing => (st.sendPing config).2.isOk
  | .receive bytes => !(st.receiveBytes config bytes).2.isError
  | .poll nowMs txLen =>
    match (st.poll config nowMs txLen).2 with
    | .error _ | .ok (.sendFailed _) => false
    | .ok _ => true

/-- No operation of the list drops the session. -/
def keepsAll (config : EngineConfig) : List EngineOp → EngineState → Bool
  | [], _ => true
  | op :: ops, st => op.keeps config st && keepsAll config ops (op.after config st)

/-! ### A poll of a slot -/

namespace PeerSlot
variable {slot : PeerSlot} {nowMs txLen : Nat}

theorem queuePingIfIdle_of_not_due (h : slot.pingDue nowMs = false) :
    slot.queuePingIfIdle nowMs = (slot, .ok ()) := by
  apply if_pos
  simp only [pingDue, Bool.and_eq_false_iff, Bool.not_eq_false', decide_eq_false_iff_not,
    Nat.not_le] at h
  rcases h with ((h | h) | h) | h <;> simp [h]

theorem queuePingIfIdle_of_due {engine : Engine} (hengine : slot.engine = some engine)
    (h : slot.pingDue nowMs = true) :
    slot.queuePingIfIdle nowMs =
      match engine.sendPing with
      | (engine, .error e) => ({ slot with engine := some engine }, .error e)
      | (engine, .ok ()) =>
        ({ slot with engine := some engine, lastPingMs := nowMs, pendingPing := true }, .ok ()) := by
  simp only [pingDue, Bool.and_eq_true, Bool.not_eq_true', decide_eq_true_eq] at h
  obtain ⟨⟨⟨hconnected, hpending⟩, hseen⟩, hping⟩ := h
  unfold queuePingIfIdle
  rw [if_neg (by simp [hconnected, hpending]; omega), hengine]
  dsimp only
  rcases engine.sendPing with ⟨pinged, _ | _⟩ <;> rfl

theorem queuePingIfIdle_of_none (hengine : slot.engine = none) :
    slot.queuePingIfIdle nowMs = (slot, .ok ()) := by
  unfold queuePingIfIdle
  rw [hengine]
  split <;> rfl

/-- What the poll of an engine does to its slot. -/
theorem pollEngine_of_some {engine : Engine} (hengine : slot.engine = some engine) :
    slot.pollEngine nowMs txLen =
      match engine.poll nowMs txLen with
      | (_, .error e) => (slot.disconnect, .error e)
      | (engine, .ok (.message message)) =>
        ({ slot with engine := some engine, state := .connected, lastSeenMs := nowMs },
          .ok (.message message))
      | (_, .ok (.sendFailed event)) => (slot.disconnect, .ok (.sendFailed event))
      | (engine, .ok (.transmit bytes attempts)) =>
        ({ slot with engine := some engine }, .ok (.transmit bytes attempts))
      | (engine, .ok .idle) => ({ slot with engine := some engine }, .ok .idle) := by
  unfold pollEngine
  rw [hengine]
  dsimp only
  rcases engine.poll nowMs txLen with ⟨polled, _ | _ | _ | _ | _⟩ <;> rfl

/-- The session after a poll, if it is kept. -/
theorem engine_pollEngine {engine : Engine} (hengine : slot.engine = some engine) {engine' : Engine}
    (h : (slot.pollEngine nowMs txLen).1.engine = some engine') :
    engine' = (engine.poll nowMs txLen).1 ∧
      (EngineOp.poll nowMs txLen).keeps engine.config engine.state = true := by
  have hresult : (engine.state.poll engine.config nowMs txLen).2 = (engine.poll nowMs txLen).2 := rfl
  rw [pollEngine_of_some hengine] at h
  unfold EngineOp.keeps
  dsimp only
  rw [hresult]
  rcases hp : engine.poll nowMs txLen with ⟨polled, _ | _ | _ | _ | _⟩ <;> rw [hp] at h
  all_goals first | exact ⟨(Option.some.inj h).symm, rfl⟩ | cases h

theorem pollEngine_result {engine : Engine} (hengine : slot.engine = some engine) :
    (slot.pollEngine nowMs txLen).2 = (engine.poll nowMs txLen).2 := by
  rw [pollEngine_of_some hengine]
  rcases engine.poll nowMs txLen with ⟨polled, _ | _ | _ | _ | _⟩ <;> rfl

/-- The two ways of a poll: the PING finds no place and the session is dropped, or the engine is
polled, after a PING if one is due. -/
inductive PollPath (slot : PeerSlot) (engine : Engine) (nowMs txLen : Nat) : Prop
  | refused : slot.pingDue nowMs = true → engine.sendPing.2.isOk = false →
      (slot.poll nowMs txLen).2.isOk = false → (slot.poll nowMs txLen).1.engine = none →
      PollPath slot engine nowMs txLen
  | polled (ops : List EngineOp) (pinged : PeerSlot) (engine' : Engine) :
      (slot.pingDue nowMs = true → engine.sendPing.2.isOk = true) →
      ops = (if slot.pingDue nowMs then [.sendPing] else []) →
      SlotOp.engineOps (.poll nowMs txLen) slot = ops ++ [.poll nowMs txLen] →
      pinged.engine = some engine' →
      engine' = ⟨engine.config, (runOps engine.config ops engine.state).2⟩ →
      slot.poll nowMs txLen = pinged.pollEngine nowMs txLen →
      slot.queuePingIfIdle nowMs = (pinged, .ok ()) → PollPath slot engine nowMs txLen

variable (nowMs txLen) in
theorem pollPath {engine : Engine} (hengine : slot.engine = some engine) :
    PollPath slot engine nowMs txLen := by
  cases hdue : slot.pingDue nowMs with
  | false =>
    have hq := queuePingIfIdle_of_not_due hdue
    refine .polled [] slot engine (by simp [hdue]) (by simp [hdue]) ?_ hengine rfl
      (by rw [poll, hq]) hq
    simp only [SlotOp.engineOps, hdue, hq]
    rfl
  | true =>
    have hq := queuePingIfIdle_of_due hengine hdue
    rcases hping : engine.sendPing with ⟨engine', e | ⟨⟩⟩
    · rw [hping] at hq
      exact .refused hdue (by rw [hping]; rfl) (by rw [poll, hq]; rfl) (by rw [poll, hq]; rfl)
    · rw [hping] at hq
      refine .polled [.sendPing] _ engine' (fun _ => by rw [hping]; rfl) (by simp [hdue]) ?_ rfl ?_
        (by rw [poll, hq]) hq
      · simp only [SlotOp.engineOps, hdue, hq]
        rfl
      · rw [show engine' = engine.sendPing.1 by rw [hping]]
        rfl

end PeerSlot

theorem runOps_append (config : EngineConfig) (ops more : List EngineOp) (st : EngineState) :
    runOps config (ops ++ more) st =
      ((runOps config ops st).1 ++ (runOps config more (runOps config ops st).2).1,
        (runOps config more (runOps config ops st).2).2) := by
  induction ops generalizing st with
  | nil => rfl
  | cons op ops ih =>
    rw [List.cons_append, runOps, runOps, ih]
    simp only [List.append_assoc]

theorem keepsAll_append (config : EngineConfig) (ops more : List EngineOp) (st : EngineState) :
    keepsAll config (ops ++ more) st =
      (keepsAll config ops st && keepsAll config more (runOps config ops st).2) := by
  induction ops generalizing st with
  | nil => rfl
  | cons op ops ih => rw [List.cons_append, keepsAll, keepsAll, ih, Bool.and_assoc, runOps]

namespace PeerSlot
variable {slot : PeerSlot} {nowMs : Nat} {engine engine' : Engine}

/-- A session that a receive keeps took the bytes without an error. -/
theorem engine_receive {bytes : Bytes} (hengine : slot.engine = some engine)
    (h : (slot.receive nowMs bytes).1.engine = some engine') :
    engine' = (engine.receive bytes).1 ∧ (engine.receive bytes).2.isError = false := by
  simp only [receive, hengine] at h
  split at h
  · cases h
  · rename_i hok
    have hkept : ({ slot with engine := some (engine.receive bytes).1 }.noteReport nowMs
        (engine.receive bytes).2).engine = some (engine.receive bytes).1 := by
      unfold noteReport
      split <;> split <;> rfl
    rw [hkept] at h
    exact ⟨(Option.some.inj h).symm, Bool.eq_false_iff.mpr hok⟩

/-- A session that a poll keeps made the engine operations of the poll. -/
theorem engine_poll {txLen : Nat} (hengine : slot.engine = some engine)
    (h : (slot.poll nowMs txLen).1.engine = some engine') :
    engine' = ⟨engine.config,
      (runOps engine.config (SlotOp.engineOps (.poll nowMs txLen) slot) engine.state).2⟩ ∧
      keepsAll engine.config (SlotOp.engineOps (.poll nowMs txLen) slot) engine.state = true := by
  cases pollPath nowMs txLen hengine with
  | refused _ _ _ hdropped =>
    rw [hdropped] at h
    cases h
  | polled ops pinged polled hplace hpings hops hpinged hpolled hpoll =>
    rw [hpoll] at h
    obtain ⟨hengine', hkeeps⟩ := engine_pollEngine hpinged h
    have hping : keepsAll engine.config ops engine.state = true := by
      rw [hpings]
      split
      · rename_i hdue
        rw [keepsAll, keepsAll, Bool.and_true]
        exact hplace hdue
      · rfl
    refine ⟨?_, ?_⟩
    · rw [hengine', hpolled, hops, runOps_append]
      rfl
    · rw [hpolled] at hkeeps
      rw [hops, keepsAll_append, hping, keepsAll, keepsAll, hkeeps]
      rfl

end PeerSlot

/-! ### Every operation -/

namespace SlotOp
variable {op : SlotOp} {slot : PeerSlot}

/-- **A session that an operation keeps or opens has made the engine operations of that
operation**, and none of them drops a session. -/
theorem engine_after {engine' : Engine} (h : (op.after slot).engine = some engine') :
    ∃ engine, op.base slot = some engine ∧
      engine' = ⟨engine.config, (runOps engine.config (op.engineOps slot) engine.state).2⟩ ∧
      keepsAll engine.config (op.engineOps slot) engine.state = true := by
  cases op with
  | connect nowMs => exact ⟨_, rfl, (Option.some.inj h).symm, rfl⟩
  | acceptPassive nowMs => exact ⟨_, rfl, (Option.some.inj h).symm, rfl⟩
  | acceptPassiveIfNeeded nowMs =>
    cases hengine : slot.engine with
    | none =>
      simp only [after, PeerSlot.acceptPassiveIfNeeded, hengine, Option.isNone_none, if_true] at h
      refine ⟨.new slot.config, by simp [base, opens, hengine], ?_, rfl⟩
      exact (Option.some.inj h).symm
    | some engine =>
      simp only [after, PeerSlot.acceptPassiveIfNeeded, hengine, Option.isNone_some,
        Bool.false_eq_true, if_false] at h
      refine ⟨engine, by simp [base, opens, hengine], ?_, rfl⟩
      exact (Option.some.inj h).symm
  | disconnect => cases h
  | send message =>
    cases hengine : slot.engine with
    | none => simp [after, PeerSlot.send, hengine] at h
    | some engine =>
      simp only [after, PeerSlot.send, hengine] at h
      exact ⟨engine, hengine, (Option.some.inj h).symm, rfl⟩
  | disconnectIfIdle nowMs timeoutMs =>
    simp only [after, PeerSlot.disconnectIfIdle] at h
    split at h
    · cases h
    · exact ⟨engine', h, rfl, rfl⟩
  | receive nowMs bytes =>
    cases hengine : slot.engine with
    | none => simp [after, PeerSlot.receive, hengine] at h
    | some engine =>
      obtain ⟨hkept, hok⟩ := PeerSlot.engine_receive hengine h
      refine ⟨engine, hengine, hkept, ?_⟩
      have hok : (engine.state.receiveBytes engine.config bytes).2.isError = false := hok
      simp [engineOps, keepsAll, EngineOp.keeps, hok]
  | poll nowMs txLen =>
    cases hengine : slot.engine with
    | none =>
      simp only [after, PeerSlot.poll, PeerSlot.queuePingIfIdle_of_none hengine,
        PeerSlot.pollEngine, hengine] at h
      cases h
    | some engine =>
      exact ⟨engine, hengine, PeerSlot.engine_poll hengine h⟩

/-- No operation changes the configuration. -/
theorem config_after (op : SlotOp) (slot : PeerSlot) : (op.after slot).config = slot.config := by
  cases op with
  | connect | acceptPassive | disconnect => rfl
  | acceptPassiveIfNeeded nowMs =>
    simp only [after, PeerSlot.acceptPassiveIfNeeded]
    split <;> rfl
  | send message =>
    simp only [after, PeerSlot.send]
    split <;> rfl
  | disconnectIfIdle nowMs timeoutMs =>
    simp only [after, PeerSlot.disconnectIfIdle]
    split <;> rfl
  | receive nowMs bytes =>
    simp only [after, PeerSlot.receive]
    split
    · rfl
    · split
      · rfl
      · unfold PeerSlot.noteReport
        split <;> split <;> rfl
  | poll nowMs txLen =>
    have hpoll (slot : PeerSlot) : (slot.pollEngine nowMs txLen).1.config = slot.config := by
      unfold PeerSlot.pollEngine
      split
      · rfl
      · dsimp only
        split <;> rfl
    have hping : (slot.queuePingIfIdle nowMs).1.config = slot.config := by
      unfold PeerSlot.queuePingIfIdle
      split
      · rfl
      · split
        · rfl
        · dsimp only
          split <;> rfl
    simp only [after, PeerSlot.poll]
    split
    · rename_i hq
      rw [hq] at hping
      exact hping
    · rename_i hq
      rw [hq] at hping
      rw [hpoll]
      exact hping

end SlotOp

/-! ## Peers -/

/-- A slot and its history: the calls of every session it had, the newest first, and the envelopes
it transmitted. -/
structure Peer where
  slot : PeerSlot
  sessions : List (List Call)
  sent : List Bytes

namespace Peer

/-- The peer before its first operation. -/
def new (config : EngineConfig) : Peer := ⟨.new config, [], []⟩

/-- The calls of the newest session. -/
def calls (peer : Peer) : List Call := peer.sessions.headD []

/-- The sessions once an operation has opened one. -/
def opened (peer : Peer) (op : SlotOp) : List (List Call) :=
  if op.opens peer.slot then [] :: peer.sessions else peer.sessions

/-- The calls an operation makes. -/
def newCalls (peer : Peer) (op : SlotOp) : List Call :=
  match op.base peer.slot with
  | none => []
  | some engine => (runOps engine.config (op.engineOps peer.slot) engine.state).1

/-- The peer after one more operation. -/
def step (peer : Peer) (op : SlotOp) : Peer where
  slot := op.after peer.slot
  sessions :=
    match peer.opened op with
    | [] => []
    | calls :: sessions => (calls ++ peer.newCalls op) :: sessions
  sent := peer.sent ++ (op.transmitted peer.slot).toList

/-- The live session, if there is one, is the newest and satisfies `I`. -/
def Live (peer : Peer) (I : Party → Prop) : Prop :=
  ∀ engine, peer.slot.engine = some engine → engine.config = peer.slot.config ∧
    peer.sessions ≠ [] ∧ I ⟨peer.calls, engine.state⟩

theorem live_new (config : EngineConfig) (I : Party → Prop) : (new config).Live I := by
  intro engine h
  cases h

/-- An invariant of one operation is one of several. -/
theorem run_party {config : EngineConfig} (I : Party → Prop) {ops : List EngineOp} (party : Party)
    (h : I party) (hkeeps : keepsAll config ops party.state = true)
    (hstep : ∀ op ∈ ops, ∀ party, I party → op.keeps config party.state = true →
      I (party.step config op)) :
    I ⟨party.calls ++ (runOps config ops party.state).1, (runOps config ops party.state).2⟩ := by
  induction ops generalizing party with
  | nil =>
    rw [runOps, List.append_nil]
    exact h
  | cons op ops ih =>
    rw [keepsAll, Bool.and_eq_true] at hkeeps
    have hnext := ih _ (hstep op List.mem_cons_self party h hkeeps.1) hkeeps.2
      (fun op' hop => hstep op' (List.mem_cons_of_mem _ hop))
    rw [Party.step, List.append_assoc] at hnext
    exact hnext

/-- Only a receive makes the engine receive. -/
theorem receive_of_mem_engineOps {op : SlotOp} {slot : PeerSlot} {bytes : Bytes}
    (h : .receive bytes ∈ op.engineOps slot) : ∃ nowMs, op = .receive nowMs bytes := by
  cases op with
  | receive nowMs bytes' => exact ⟨nowMs, by rw [EngineOp.receive.inj (List.mem_singleton.mp h)]⟩
  | poll nowMs txLen =>
    simp only [SlotOp.engineOps] at h
    split at h <;> split at h <;> simp at h
  | connect | acceptPassive | acceptPassiveIfNeeded | disconnect | send | disconnectIfIdle =>
    simp [SlotOp.engineOps] at h

/-- The calls of the session an operation works on. -/
theorem calls_step {peer : Peer} {op : SlotOp} (h : peer.opened op ≠ []) :
    (peer.step op).calls = (peer.opened op).headD [] ++ peer.newCalls op := by
  cases hopened : peer.opened op with
  | nil => exact absurd hopened h
  | cons calls sessions => simp only [Peer.calls, step, hopened, List.headD_cons]

theorem sessions_step_ne_nil {peer : Peer} {op : SlotOp} (h : peer.opened op ≠ []) :
    (peer.step op).sessions ≠ [] := by
  cases hopened : peer.opened op with
  | nil => exact absurd hopened h
  | cons calls sessions => simp [step, hopened]

/-- **What holds of a fresh engine and is kept by engine operations holds of live sessions.** -/
theorem Live.step {peer : Peer} {I : Party → Prop} (h : peer.Live I) (op : SlotOp)
    (hnew : I (.new peer.slot.config))
    (hstep : ∀ eop ∈ op.engineOps peer.slot, ∀ party, I party →
      eop.keeps peer.slot.config party.state = true →
      I (party.step peer.slot.config eop)) : (peer.step op).Live I := by
  intro engine' hengine'
  obtain ⟨engine, hbase, rfl, hkeeps⟩ := SlotOp.engine_after hengine'
  have hbefore : engine.config = peer.slot.config ∧ peer.opened op ≠ [] ∧
      I ⟨(peer.opened op).headD [], engine.state⟩ := by
    unfold SlotOp.base at hbase
    unfold opened
    by_cases hopens : op.opens peer.slot = true
    · rw [if_pos hopens] at hbase ⊢
      obtain rfl := Option.some.inj hbase
      exact ⟨rfl, List.cons_ne_nil _ _, hnew⟩
    · rw [if_neg hopens] at hbase ⊢
      exact h engine hbase
  obtain ⟨hconfig, hopened, hI⟩ := hbefore
  refine ⟨hconfig.trans (SlotOp.config_after op peer.slot).symm, sessions_step_ne_nil hopened, ?_⟩
  rw [calls_step hopened, newCalls, hbase]
  rw [hconfig] at hkeeps
  dsimp only
  rw [hconfig]
  exact run_party I _ hI hkeeps hstep

end Peer

theorem PacketRun.runOps {config : EngineConfig} {calls : List Call} {st : EngineState}
    (h : PacketRun config calls st) (ops : List EngineOp) :
    PacketRun config (calls ++ (runOps config ops st).1) (runOps config ops st).2 := by
  induction ops generalizing calls st with
  | nil =>
    rw [Msrt.runOps, List.append_nil]
    exact h
  | cons op ops ih =>
    have hnext := ih (h.step op)
    rw [List.append_assoc] at hnext
    exact hnext

/-- The peers any sequence of operations leads to. -/
inductive PeerRun (config : EngineConfig) : Peer → Prop
  | new : PeerRun config (.new config)
  | step {peer : Peer} (op : SlotOp) : PeerRun config peer → PeerRun config (peer.step op)

section PeerRun
variable {config : EngineConfig} {peer : Peer}

theorem PeerRun.config_eq (h : PeerRun config peer) : peer.slot.config = config := by
  induction h with
  | new => rfl
  | step op _ ih => exact (SlotOp.config_after op _).trans ih

/-- **Every live session is a run of an engine** in which nothing has failed that drops it. -/
theorem PeerRun.live_engineRun (h : PeerRun config peer) : peer.Live (fun party =>
    EngineRun config (fun st op => op.keeps config st = true) party.calls party.state) := by
  induction h with
  | new => exact Peer.live_new _ _
  | step op hrun ih =>
    have hconfig := hrun.config_eq
    apply ih.step op (hconfig ▸ .new)
    intro eop _ party hparty hkeeps
    rw [hconfig] at hkeeps ⊢
    exact EngineRun.step eop hparty hkeeps

theorem PeerRun.live (h : PeerRun config peer) :
    peer.Live (fun party => PacketRun config party.calls party.state) := by
  intro engine hengine
  obtain ⟨hconfig, hsessions, hrun⟩ := h.live_engineRun engine hengine
  exact ⟨hconfig, hsessions, hrun.packetRun⟩

/-- The peer after a sequence of operations. -/
def runPeer (config : EngineConfig) (ops : List SlotOp) : Peer := ops.foldl Peer.step (.new config)

theorem peerRun_runPeer (config : EngineConfig) (ops : List SlotOp) :
    PeerRun config (runPeer config ops) := by
  induction ops using List.reverseRecOn with
  | nil => exact .new
  | append_singleton ops op ih =>
    rw [runPeer, List.foldl_append]
    exact ih.step op

end PeerRun

end Msrt
