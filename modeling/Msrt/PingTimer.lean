import Msrt.KeepAlive
import Msrt.SendMoves

/-! # When a silent peer is pinged again

A poll sets `pendingPing` with every PING it queues, and a receive clears it only if it reports a PONG.
Any well-formed packet shows that the peer is there, but it does not clear the flag: once the answer to a
PING is lost, the session never sends another one, however often the peer is heard from later.
`PingedSlot` follows the reports since the last PING of the session, and the flag is what they say
(`PendingReports`).
-/

namespace Msrt

namespace SlotOp

/-- The operation queues a PING. -/
def queuesPing (op : SlotOp) (slot : PeerSlot) : Bool :=
  match op with
  | .poll nowMs _ => slot.pingDue nowMs && slot.engine.any fun engine => engine.sendPing.2.isOk
  | _ => false

/-- What the operation reports of received bytes. -/
def report? (op : SlotOp) (slot : PeerSlot) : Option ReceiveReport :=
  match op with
  | .receive nowMs bytes => some (slot.receive nowMs bytes).2
  | _ => none

/-- The time the operation is given. -/
def time? : SlotOp → Option Nat
  | .connect nowMs | .acceptPassive nowMs | .acceptPassiveIfNeeded nowMs => some nowMs
  | .receive nowMs _ | .poll nowMs _ | .disconnectIfIdle nowMs _ => some nowMs
  | .disconnect | .send _ => none

end SlotOp

/-- A slot and, once its session has queued a PING, the reports of the receives since the last one. -/
structure PingedSlot where
  slot : PeerSlot
  reports : Option (List ReceiveReport)

namespace PingedSlot

/-- The slot without a session, and no PING. -/
def new (config : EngineConfig) : PingedSlot := ⟨.new config, none⟩

/-- One operation: a PING that is queued starts the reports anew, and a new session has none. -/
def step (p : PingedSlot) (op : SlotOp) : PingedSlot where
  slot := op.after p.slot
  reports :=
    if op.opens p.slot then none
    else if op.queuesPing p.slot then some []
    else p.reports.map fun reports => reports ++ (op.report? p.slot).toList

/-- The slot after a sequence of operations. -/
def run (config : EngineConfig) (ops : List SlotOp) : PingedSlot := ops.foldl step (new config)

/-- The last PING of the session, if there was one, has been answered. -/
def Answered (p : PingedSlot) : Prop := ∀ reports, p.reports = some reports → .pong ∈ reports

/-- The flag of a live session says whether a PING waits for its answer. -/
def PendingReports (p : PingedSlot) : Prop :=
  p.slot.hasSession = true → (p.slot.pendingPing = true ↔ ¬ p.Answered)

end PingedSlot

/-! ## The flag -/

namespace PeerSlot
variable {slot : PeerSlot} {nowMs txLen : Nat}

/-- A receive clears the flag exactly when it reports a PONG. -/
theorem pendingPing_receive {bytes : Bytes} (h : (slot.receive nowMs bytes).1.hasSession = true) :
    slot.hasSession = true ∧ ((slot.receive nowMs bytes).1.pendingPing = true ↔
      slot.pendingPing = true ∧ (slot.receive nowMs bytes).2 ≠ .pong) := by
  unfold receive at h ⊢
  cases hengine : slot.engine with
  | none =>
    rw [hengine] at h
    dsimp only at h
    rw [hasSession, hengine] at h
    cases h
  | some engine =>
    rw [hengine] at h
    dsimp only at h ⊢
    refine ⟨by rw [hasSession, hengine]; rfl, ?_⟩
    split at h
    · cases h
    · rename_i hfine
      rw [if_neg hfine]
      unfold noteReport
      dsimp only
      by_cases hpong : (engine.receive bytes).2 = .pong
      · rw [if_pos hpong]
        simp [hpong]
      · rw [if_neg hpong]
        split <;> simp [hpong]

/-- The poll of an engine leaves the PING timer alone. -/
theorem pingTimer_pollEngine (h : (slot.pollEngine nowMs txLen).1.hasSession = true) :
    (slot.pollEngine nowMs txLen).1.pendingPing = slot.pendingPing ∧
      (slot.pollEngine nowMs txLen).1.lastPingMs = slot.lastPingMs := by
  cases hengine : slot.engine with
  | none =>
    rw [pollEngine, hengine]
    exact ⟨rfl, rfl⟩
  | some engine =>
    rw [pollEngine_of_some hengine] at h ⊢
    rcases hpoll : engine.poll nowMs txLen with ⟨polled, e | ⟨bytes, attempts⟩ | message | event | _⟩
    · rw [hpoll] at h
      cases h
    · exact ⟨rfl, rfl⟩
    · exact ⟨rfl, rfl⟩
    · rw [hpoll] at h
      cases h
    · exact ⟨rfl, rfl⟩

/-- The slot with a PING queued. -/
theorem queuePingIfIdle_of_queues {engine : Engine} (hengine : slot.engine = some engine)
    (h : (SlotOp.poll nowMs txLen).queuesPing slot = true) :
    slot.queuePingIfIdle nowMs = ({ slot with
      engine := some engine.sendPing.1, lastPingMs := nowMs, pendingPing := true }, .ok ()) := by
  unfold SlotOp.queuesPing at h
  dsimp only at h
  rw [hengine, Bool.and_eq_true, Option.any_some] at h
  rw [queuePingIfIdle_of_due hengine h.1]
  rcases hping : engine.sendPing with ⟨pinged, e | ⟨⟩⟩
  · rw [hping] at h
    cases h.2
  · rfl

/-- A poll that keeps the session sets the flag exactly with a new PING. -/
theorem pendingPing_poll (h : (slot.poll nowMs txLen).1.hasSession = true) :
    slot.hasSession = true ∧ (slot.poll nowMs txLen).1.pendingPing =
      (if (SlotOp.poll nowMs txLen).queuesPing slot then true else slot.pendingPing) := by
  cases hengine : slot.engine with
  | none =>
    rw [poll, queuePingIfIdle_of_none hengine] at h
    dsimp only at h
    rw [pollEngine, hengine] at h
    rw [hasSession, hengine] at h
    cases h
  | some engine =>
    refine ⟨by rw [hasSession, hengine]; rfl, ?_⟩
    by_cases hqueues : (SlotOp.poll nowMs txLen).queuesPing slot = true
    · rw [if_pos hqueues]
      rw [poll, queuePingIfIdle_of_queues hengine hqueues] at h ⊢
      exact (pingTimer_pollEngine h).1
    · rw [if_neg hqueues]
      cases hdue : slot.pingDue nowMs with
      | false =>
        rw [poll, queuePingIfIdle_of_not_due hdue] at h ⊢
        exact (pingTimer_pollEngine h).1
      | true =>
        -- the PING is due but finds no place, and the session is dropped
        unfold SlotOp.queuesPing at hqueues
        dsimp only at hqueues
        rw [hdue, hengine, Bool.true_and, Option.any_some] at hqueues
        rw [poll, queuePingIfIdle_of_due hengine hdue] at h
        rcases hping : engine.sendPing with ⟨pinged, e | ⟨⟩⟩
        · rw [hping] at h
          cases h
        · rw [hping] at hqueues
          exact absurd rfl hqueues

end PeerSlot

/-! ## Runs -/

namespace PingedSlot
variable {p : PingedSlot}

theorem answered_of_none (h : p.reports = none) : p.Answered := by
  intro reports hreports
  rw [h] at hreports
  cases hreports

/-- One more report answers the PING if it is a PONG. -/
theorem answered_snoc {p' : PingedSlot} {report : ReceiveReport}
    (h : p'.reports = p.reports.map fun reports => reports ++ [report]) :
    p'.Answered ↔ p.Answered ∨ report = .pong := by
  unfold Answered
  rw [h]
  cases p.reports with
  | none => simp
  | some reports => simp [eq_comm]

/-- An operation that opens a session starts without a PING. -/
theorem pendingReports_of_opens {op : SlotOp} (hopens : op.opens p.slot = true)
    (hpending : (op.after p.slot).pendingPing = false) : (p.step op).PendingReports := by
  intro _
  have hnone : (p.step op).reports = none := if_pos hopens
  have hflag : (p.step op).slot.pendingPing = false := hpending
  rw [hflag]
  exact iff_of_false Bool.false_ne_true (not_not.mpr (answered_of_none hnone))

/-- An operation that neither opens a session nor queues a PING nor receives leaves the flag. -/
theorem pendingReports_of_quiet {op : SlotOp} (h : p.PendingReports)
    (hopens : op.opens p.slot = false) (hqueues : op.queuesPing p.slot = false)
    (hreport : op.report? p.slot = none)
    (hsame : (op.after p.slot).hasSession = true →
      p.slot.hasSession = true ∧ (op.after p.slot).pendingPing = p.slot.pendingPing) :
    (p.step op).PendingReports := by
  intro hsession
  obtain ⟨hbefore, hpending⟩ := hsame hsession
  have hreports : (p.step op).reports = p.reports := by
    simp [step, hopens, hqueues, hreport]
  have hflag : (p.step op).slot.pendingPing = p.slot.pendingPing := hpending
  rw [hflag, Answered, hreports]
  exact h hbefore

theorem PendingReports.step (h : p.PendingReports) (op : SlotOp) : (p.step op).PendingReports := by
  cases op with
  | connect nowMs => exact pendingReports_of_opens rfl rfl
  | acceptPassive nowMs => exact pendingReports_of_opens rfl rfl
  | acceptPassiveIfNeeded nowMs =>
    cases hengine : p.slot.engine with
    | none =>
      apply pendingReports_of_opens (by simp [SlotOp.opens, hengine])
      simp [SlotOp.after, PeerSlot.acceptPassiveIfNeeded, hengine, PeerSlot.acceptPassive]
    | some engine =>
      apply pendingReports_of_quiet h (by simp [SlotOp.opens, hengine]) rfl rfl
      intro _
      simp [SlotOp.after, PeerSlot.acceptPassiveIfNeeded, hengine, PeerSlot.hasSession]
  | disconnect =>
    apply pendingReports_of_quiet h rfl rfl rfl
    intro hsession
    exact absurd hsession Bool.false_ne_true
  | send message =>
    apply pendingReports_of_quiet h rfl rfl rfl
    intro hsession
    unfold SlotOp.after PeerSlot.send at hsession ⊢
    dsimp only at hsession ⊢
    cases hengine : p.slot.engine with
    | none =>
      rw [hengine] at hsession
      exact ⟨hsession, rfl⟩
    | some engine => exact ⟨by rw [PeerSlot.hasSession, hengine]; rfl, rfl⟩
  | receive nowMs bytes =>
    intro hsession
    obtain ⟨hbefore, hpending⟩ := PeerSlot.pendingPing_receive hsession
    have hanswered : (p.step (.receive nowMs bytes)).Answered ↔
        p.Answered ∨ (p.slot.receive nowMs bytes).2 = .pong := answered_snoc rfl
    rw [hanswered, not_or, ← h hbefore]
    exact hpending
  | poll nowMs txLen =>
    intro hsession
    obtain ⟨hbefore, hpending⟩ := PeerSlot.pendingPing_poll hsession
    -- a new PING starts the reports afresh
    by_cases hqueues : (SlotOp.poll nowMs txLen).queuesPing p.slot = true
    · have hreports : (p.step (.poll nowMs txLen)).reports = some [] := if_pos hqueues
      rw [if_pos hqueues] at hpending
      apply iff_of_true hpending
      intro hanswered
      cases hanswered [] hreports
    · refine pendingReports_of_quiet h rfl (Bool.eq_false_of_not_eq_true hqueues) rfl ?_
        hsession
      intro _
      rw [if_neg hqueues] at hpending
      exact ⟨hbefore, hpending⟩
  | disconnectIfIdle nowMs timeoutMs =>
    apply pendingReports_of_quiet h rfl rfl rfl
    intro hsession
    unfold SlotOp.after PeerSlot.disconnectIfIdle at hsession ⊢
    dsimp only at hsession ⊢
    split at hsession
    · cases hsession
    · rename_i hkept
      rw [if_neg hkept]
      exact ⟨hsession, rfl⟩

theorem pendingReports_run (config : EngineConfig) (ops : List SlotOp) :
    (run config ops).PendingReports := by
  induction ops using List.reverseRecOn with
  | nil =>
    intro hsession
    cases hsession
  | append_singleton ops op ih =>
    rw [run, List.foldl_append]
    exact ih.step op

end PingedSlot

/-! ## When the next PING comes -/

namespace PeerSlot
variable {slot : PeerSlot} {nowMs txLen : Nat}

/-- A poll at `nowMs` queues a new PING and moves the timer. -/
structure PollPings (slot : PeerSlot) (nowMs txLen : Nat) : Prop where
  queued : ∃ engine, (slot.queuePingIfIdle nowMs).1.engine = some engine ∧
    .write (livenessWrite engine.config.integrity .ping .newData) ∈ engine.state.scheduler.queued
  timer : (slot.queuePingIfIdle nowMs).1.lastPingMs = nowMs
  polled : (slot.poll nowMs txLen).1.hasSession = true → (slot.poll nowMs txLen).1.lastPingMs = nowMs

/-- The PING of a scheduler that has room is queued. -/
theorem mem_queued_sendPing {engine : Engine} (hroom : 0 < engine.state.scheduler.available) :
    engine.sendPing.2.isOk = true ∧
      .write (livenessWrite engine.config.integrity .ping .newData) ∈
        engine.sendPing.1.state.scheduler.queued := by
  cases hpush : engine.state.scheduler.push
      (.write (livenessWrite engine.config.integrity .ping .newData)) with
  | error e =>
    have hfull := (SchedulerState.push_eq_error hpush).1
    unfold SchedulerState.available at hroom
    omega
  | ok scheduler =>
    have hsent : engine.state.sendPing engine.config = ({ engine.state with scheduler }, .ok ()) := by
      unfold EngineState.sendPing EngineState.queueLiveness
      rw [encodeLivenessPacket_ok]
      dsimp only
      rw [livenessWrite] at hpush
      rw [hpush]
    have hpinged : engine.sendPing = (⟨engine.config, { engine.state with scheduler }⟩, .ok ()) := by
      rw [Engine.sendPing, hsent]
      rfl
    rw [hpinged]
    exact ⟨rfl, (SchedulerState.push_eq_ok hpush).mem_self⟩

/-- A silent peer is pinged exactly while no PING is pending. -/
theorem pollPings_iff {engine : Engine} (hengine : slot.engine = some engine)
    (hconnected : slot.state = .connected) (hseen : 5000 ≤ nowMs - slot.lastSeenMs)
    (hping : 5000 ≤ nowMs - slot.lastPingMs) (hroom : 0 < engine.state.scheduler.available) :
    slot.PollPings nowMs txLen ↔ slot.pendingPing = false := by
  constructor
  · intro hpings
    by_contra hpending
    have hdue : slot.pingDue nowMs = false := by simp [pingDue, hpending]
    have htimer := hpings.timer
    rw [queuePingIfIdle_of_not_due hdue] at htimer
    dsimp only at htimer
    omega
  · intro hpending
    obtain ⟨hok, hqueued⟩ := mem_queued_sendPing hroom
    have hqueues : (SlotOp.poll nowMs txLen).queuesPing slot = true := by
      simp [SlotOp.queuesPing, pingDue, isConnected, hconnected, hpending, hengine, hok,
        defaultPingIntervalMs, hseen, hping]
    have hpinged := queuePingIfIdle_of_queues hengine hqueues
    refine ⟨?_, ?_, ?_⟩
    · rw [hpinged]
      exact ⟨_, rfl, hqueued⟩
    · rw [hpinged]
    · intro hsession
      rw [poll, hpinged] at hsession ⊢
      exact (pingTimer_pollEngine hsession).2

end PeerSlot

/-- **A silent peer is pinged again exactly if its last PING has been answered**, or none was sent: in
every state of a run in which the peer is connected, both intervals have passed and the scheduler has a
free entry. -/
theorem pings_again_iff_answered (config : EngineConfig) (ops : List SlotOp) {nowMs : Nat} (txLen : Nat)
    {engine : Engine} (hengine : (PingedSlot.run config ops).slot.engine = some engine)
    (hconnected : (PingedSlot.run config ops).slot.state = .connected)
    (hseen : 5000 ≤ nowMs - (PingedSlot.run config ops).slot.lastSeenMs)
    (hping : 5000 ≤ nowMs - (PingedSlot.run config ops).slot.lastPingMs)
    (hroom : 0 < engine.state.scheduler.available) :
    (PingedSlot.run config ops).slot.PollPings nowMs txLen ↔ (PingedSlot.run config ops).Answered := by
  have hsession : (PingedSlot.run config ops).slot.hasSession = true := by
    rw [PeerSlot.hasSession, hengine]
    rfl
  have hpending := PingedSlot.pendingReports_run config ops hsession
  rw [PeerSlot.pollPings_iff hengine hconnected hseen hping hroom, ← Bool.not_eq_true, hpending, not_not]

/-! ### Scripts -/

/-- The envelope of an acknowledgement nobody waits for. -/
def strayAck : Bytes := envelope .default (ackPacketBytes .zero)

/-- A silent peer is pinged, and answers. -/
def answeredPingScript : List SlotOp :=
  [.acceptPassive 0, .receive 0 strayAck, .poll 5000 128,
    .receive 6000 (envelope .default [PacketType.pong.code])]

theorem answeredPingScript_silent :
    let p := PingedSlot.run .default answeredPingScript
    p.slot.state = .connected ∧ 5000 ≤ 11000 - p.slot.lastSeenMs ∧ 5000 ≤ 11000 - p.slot.lastPingMs ∧
      p.slot.engine.any (fun engine => 0 < engine.state.scheduler.available) = true ∧
      p.reports = some [.pong] := by
  decide +kernel

/-- The answered peer of the script is pinged again. -/
theorem pings_again_answered :
    (PingedSlot.run .default answeredPingScript).slot.PollPings 11000 128 := by
  obtain ⟨hconnected, hseen, hping, hroom, hreports⟩ := answeredPingScript_silent
  obtain ⟨engine, hengine, hroom⟩ := (Option.any_eq_true _ _).mp hroom
  refine (pings_again_iff_answered .default answeredPingScript 128 hengine hconnected hseen hping
    (of_decide_eq_true hroom)).mpr ?_
  intro reports hsome
  rw [hreports] at hsome
  obtain rfl := Option.some.inj hsome
  exact List.mem_singleton_self _

/-- A silent peer is pinged; its answer is lost, and later it is heard from. -/
def lostPongScript : List SlotOp :=
  [.acceptPassive 0, .receive 0 strayAck, .poll 5000 128, .receive 6000 strayAck]

theorem lostPongScript_silent :
    let p := PingedSlot.run .default lostPongScript
    (lostPongScript.filterMap SlotOp.time? ++ [11000]).Pairwise (· ≤ ·) ∧
      p.slot.state = .connected ∧ 5000 ≤ 11000 - p.slot.lastSeenMs ∧
      5000 ≤ 11000 - p.slot.lastPingMs ∧
      p.slot.engine.any (fun engine => 0 < engine.state.scheduler.available) = true ∧
      p.reports = some [.ack 0] ∧ (p.slot.queuePingIfIdle 11000).1.lastPingMs = 5000 := by
  decide +kernel

/-- A lost PONG switches the keep-alive off, although the peer is heard from behind it. -/
theorem not_pings_again : ¬ ∀ (config : EngineConfig) (ops : List SlotOp) (nowMs txLen : Nat)
    (engine : Engine), (ops.filterMap SlotOp.time? ++ [nowMs]).Pairwise (· ≤ ·) →
    (PingedSlot.run config ops).slot.engine = some engine →
    (PingedSlot.run config ops).slot.state = .connected →
    (∃ reports report, (PingedSlot.run config ops).reports = some reports ∧ report ∈ reports ∧
      report.isPeerTraffic = true) →
    5000 ≤ nowMs - (PingedSlot.run config ops).slot.lastSeenMs →
    5000 ≤ nowMs - (PingedSlot.run config ops).slot.lastPingMs →
    0 < engine.state.scheduler.available →
    (PingedSlot.run config ops).slot.PollPings nowMs txLen := by
  intro h
  obtain ⟨hsorted, hconnected, hseen, hping, hroom, hreports, htimer⟩ := lostPongScript_silent
  obtain ⟨engine, hengine, hroom⟩ := (Option.any_eq_true _ _).mp hroom
  have hpings := h .default lostPongScript 11000 128 engine hsorted hengine hconnected
    ⟨_, _, hreports, List.mem_singleton_self _, rfl⟩ hseen hping (of_decide_eq_true hroom)
  have hmoved := hpings.timer
  rw [htimer] at hmoved
  cases hmoved

end Msrt
