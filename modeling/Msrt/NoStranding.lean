import Msrt.QueuedWrites
import Msrt.Sessions

/-! # No packet is stranded

A packet that was never sent is not looked at by the retransmission timer, so it depends on the write
that was queued with it: as long as it is unsent, that write is still queued (`Backed`).  A slot drops
its session with the first poll that fails, which is what keeps the link between table and queue.

A packet that was sent is picked up by the first tick behind its timeout: its message is given up, or
the packet is queued again (`tick_rescues`), unless the scheduler has no place left at that moment
(`retransmitScheduler`).  Together these say that no packet of a live session is stranded
(`no_packet_stranded`).
-/

namespace Msrt
open EngineState

/-! ## Unsent packets -/

/-- Every unsent packet of a message other than zero has its first write in the queue. -/
def Backed (side : SendSide) : Prop :=
  ∀ p ∈ side.recovery.packets, p.messageId ≠ 0 → p.sent = false → p.attempts = 0 ∧
    ∃ w, .write w ∈ side.scheduler.queued ∧ w.priority = .newData ∧ w.key = p.key ∧ w.wire = p.wire

section Backed
variable {config : EngineConfig} {calls : List Call} {call : Call} {a b : SendSide}

/-- The zero key belongs to message zero. -/
theorem Tracks.key_ne_zero {p : InFlightPacket} (h : Tracks config calls p) (hid : p.messageId ≠ 0) :
    p.key ≠ .zero := by
  obtain ⟨c, -, m, -, -, i, -, hkey, -, hmessage, -⟩ := h
  intro hzero
  rw [hkey] at hzero
  exact hid (hmessage.trans (congrArg PacketKey.messageId hzero))

/-- Fewer packets and a queue that kept the writes of the unsent ones. -/
theorem Backed.of_kept (h : Backed a) (hpackets : ∀ p ∈ b.recovery.packets, p ∈ a.recovery.packets)
    (hwrites : ∀ p ∈ b.recovery.packets, p.messageId ≠ 0 → p.sent = false → ∀ w, w.key = p.key →
      .write w ∈ a.scheduler.queued → .write w ∈ b.scheduler.queued) : Backed b := by
  intro p hp hid hsent
  obtain ⟨hattempts, w, hw, hpriority, hkey, hwire⟩ := h p (hpackets p hp) hid hsent
  exact ⟨hattempts, w, hwrites p hp hid hsent w hkey hw, hpriority, hkey, hwire⟩

theorem Backed.move (hinv : QueueInv config calls a)
    (hdata : ∀ m, call.accepted config = some m → m.packetType = .data) (h : Backed a) (hmove : SendMove config call a b) : Backed b := by
  cases hmove with
  | liveness packetType priority _ hpushed =>
    refine h.of_kept (fun p hp => hp) fun p hp hid _ w hkey hw => hpushed.keeps hw ?_
    intro heq
    exact (hinv.tracks p hp).key_ne_zero hid (hkey.symm.trans (Option.some.inj heq).symm)
  | fragment m i haccepted hi hpushed htracked huntracked =>
    intro p hp hid hsent
    rcases (htracked (hdata m haccepted) p).mp hp with ⟨nowMs, rfl, -⟩ | ⟨hp, hne⟩
    · exact ⟨rfl, _, hpushed.mem_self, rfl, rfl, rfl⟩
    · obtain ⟨hattempts, w, hw, hpriority, hkey, hwire⟩ := h p hp hid hsent
      refine ⟨hattempts, w, hpushed.keeps hw fun heq => hne ?_, hpriority, hkey, hwire⟩
      exact hkey.symm.trans (Option.some.inj heq).symm
  | acked bytes key _ _ =>
    exact h.of_kept (fun p hp => (InFlightPackets.mem_applyAck.mp hp).1) fun _ _ _ _ _ _ hw => hw
  | marked nowMs txLen _ _ hpackets =>
    exact h.of_kept (fun p hp => hpackets ▸ hp) fun _ _ _ _ _ _ hw => hw
  | failed nowMs txLen q _ _ _ _ htried hpackets =>
    refine h.of_kept (fun p hp => ((hpackets p).mp hp).1) fun p _ _ _ w _ hw => htried.keeps hw ?_
    simp [EngineOutput.writeKey?]
  | requeued nowMs txLen q _ hq hleft htried =>
    -- the packet that is queued again was sent, so it is another one
    refine h.of_kept (fun p hp => hp) fun p hp _ hsent w hkey hw => htried.keeps hw ?_
    intro heq
    have hsame : p = q := packets_key_unique hp hq (hkey.symm.trans (Option.some.inj heq).symm)
    rw [hsame] at hsent
    simp [retryLeft, retransmitDue, hsent] at hleft

/-- A poll that does not fail takes the write of an unsent packet out by sending it. -/
theorem Backed.pollStep {nowMs txLen : Nat} {st st' : EngineState} {result : Except Error EnginePoll}
    (h : Backed st.sendSide)
    (hstep : PollStep config nowMs txLen st st' result) (hok : result.isOk = true) :
    Backed st'.sendSide := by
  intro p hp hid hsent
  cases hstep.keyStep p.key with
  | taken w hkey hqueued hrecovery _ =>
    have hp : p ∈ st'.recovery.packets := hp
    rw [hrecovery] at hp
    obtain ⟨q, -, hmark⟩ := mem_packets_noteWrite.mp hp
    by_cases hqkey : q.key = w.key
    · rw [if_pos hqkey] at hmark
      have hmarked : (w.mark nowMs q).sent = true := by
        unfold WriteEvent.mark
        split <;> rfl
      rw [hmark, hmarked] at hsent
      cases hsent
    · rw [if_neg hqkey] at hmark
      exact absurd (hmark ▸ hkey.symm) hqkey
  | dropped w _ _ _ hfails =>
    rw [hok] at hfails
    cases hfails
  | other hqueued hpackets _ =>
    obtain ⟨hattempts, w, hw, hpriority, hkey, hwire⟩ := h p ((hpackets p rfl).mp hp) hid hsent
    exact ⟨hattempts, w, (hqueued w hkey).mpr hw, hpriority, hkey, hwire⟩

theorem Backed.step (hinv : QueueInv config calls call.before.sendSide)
    (hdata : ∀ m, call.accepted config = some m → m.packetType = .data)
    (hpoll : ∀ nowMs txLen, call.op = .poll nowMs txLen →
      (call.before.poll config nowMs txLen).2.isOk = true)
    (h : Backed call.before.sendSide) : Backed (call.after config).sendSide := by
  have hcall : call ∈ calls ++ [call] := by simp
  have hmoves {side : SendSide} (hmoves : SendMoves config call call.before.sendSide side) :
      QueueInv config (calls ++ [call]) side ∧ Backed side :=
    hmoves.preserves (I := fun side => QueueInv config (calls ++ [call]) side ∧ Backed side)
      ⟨hinv.append [call], h⟩ fun a b hab hmove =>
      ⟨hab.1.move hcall hmove, hab.2.move hab.1 hdata hmove⟩
  cases call.sendMoves config with
  | quiet _ hquiet => exact (hmoves hquiet).2
  | polled nowMs txLen ticked hop _ hticked hstep =>
    exact (hmoves hticked).2.pollStep hstep (hpoll nowMs txLen hop)

/-- A run that sends DATA only and fails in no poll. -/
theorem PacketRun.backed {st : EngineState} (hrun : PacketRun config calls st)
    (hdata : ∀ call ∈ calls, ∀ m, call.accepted config = some m → m.packetType = .data)
    (hpoll : ∀ call ∈ calls, ∀ nowMs txLen, call.op = .poll nowMs txLen →
      (call.before.poll config nowMs txLen).2.isOk = true) : Backed st.sendSide := by
  induction hrun with
  | new =>
    intro p hp
    rw [show (EngineState.new config.initialMessageId).sendSide.recovery.packets = [] from
      InFlightPackets.toList_new] at hp
    cases hp
  | ingress ingress _ ih => exact ih hdata hpoll
  | @call calls st op hrun ih =>
    have hlast : (⟨st, op⟩ : Call) ∈ calls ++ [⟨st, op⟩] := by simp
    refine Backed.step hrun.queueInv (hdata _ hlast) (hpoll _ hlast) (ih ?_ ?_)
    · exact fun call hc => hdata call (List.mem_append_left _ hc)
    · exact fun call hc => hpoll call (List.mem_append_left _ hc)

/-- A session of a slot sends DATA only. -/
theorem accepted_data_of_keeps {op : EngineOp} {st : EngineState} (hkeeps : op.keeps config st = true)
    (hc : call ∈ op.calls config st) {m : SentMessage} (hm : call.accepted config = some m) :
    m.packetType = .data := by
  cases op with
  | sendLog message => cases hkeeps
  | send message =>
    obtain rfl := List.mem_singleton.mp hc
    simp only [Call.accepted] at hm
    split at hm
    · obtain rfl := Option.some.inj hm
      rfl
    · cases hm
  | sendPing | poll =>
    obtain rfl := List.mem_singleton.mp hc
    cases hm
  | receive bytes =>
    obtain ⟨packet, hop⟩ := op_of_mem_receiveLoopCalls hc
    simp [Call.accepted, hop] at hm

theorem pollFails_of_keeps {op : EngineOp} {st : EngineState} (hkeeps : op.keeps config st = true) :
    op.pollFails config st = false := by
  cases op with
  | poll nowMs txLen =>
    simp only [EngineOp.keeps, EngineOp.pollFails] at hkeeps ⊢
    cases hresult : (st.poll config nowMs txLen).2 with
    | error e =>
      rw [hresult] at hkeeps
      cases hkeeps
    | ok result => rfl
  | send | sendLog | sendPing | receive => rfl

/-- Every unsent packet of a session is backed. -/
theorem EngineRun.backed {st : EngineState}
    (hrun : EngineRun config (fun st op => op.keeps config st = true) calls st) :
    Backed st.sendSide := by
  refine hrun.packetRun.backed ?_ fun call hc nowMs txLen hop =>
    hrun.poll_isOk_of_mem (fun _ _ => pollFails_of_keeps) hc hop
  induction hrun with
  | new => simp
  | step op _ hkeeps ih =>
    intro call hc m hm
    rcases List.mem_append.mp hc with hc | hc
    · exact ih call hc m hm
    · exact accepted_data_of_keeps hkeeps hc hm

end Backed

/-! ## Sent packets -/

section Rescue
variable {config : EngineConfig} {calls : List Call} {st : EngineState} {nowMs txLen : Nat}
  {p : InFlightPacket}

variable (config st nowMs) in
/-- The scheduler as the tick finds it when it comes to queue the packet with `key` again. -/
def retransmitScheduler (key : PacketKey) : SchedulerState :=
  let st := st.advanceClock config nowMs
  let st := { st with recovery := (st.recovery.shouldTick nowMs).1 }
  let scan := st.recovery.packets.foldl (TickScan.visit config nowMs) .new
  let st := scan.failures.foldl failMessage st
  ((scan.retransmits.takeWhile fun p => p.key != key).foldl
    (queueRetransmit scan.failedMessages) st).scheduler

/-- A list around the element with a key of its own. -/
theorem split_at_key {α β : Type*} [BEq β] [LawfulBEq β] (f : α → β) {l : List α} {a : α}
    (hd : (l.map f).Nodup) (ha : a ∈ l) :
    ∃ rest, l = l.takeWhile (fun b => f b != f a) ++ a :: rest ∧ ∀ b ∈ rest, f b ≠ f a := by
  induction l with
  | nil => cases ha
  | cons b l ih =>
    rw [List.map_cons, List.nodup_cons] at hd
    by_cases hb : f b = f a
    · have heq : b = a := by
        rcases List.mem_cons.mp ha with rfl | ha
        · rfl
        · exact absurd (List.mem_map.mpr ⟨a, ha, hb.symm⟩) hd.1
      subst heq
      refine ⟨l, by simp, fun c hc hkey => hd.1 ?_⟩
      exact List.mem_map.mpr ⟨c, hc, hkey⟩
    · have hne : a ≠ b := fun h => hb (h ▸ rfl)
      obtain ⟨rest, hl, hrest⟩ := ih hd.2 ((List.mem_cons.mp ha).resolve_left hne)
      refine ⟨rest, ?_, hrest⟩
      rw [List.takeWhile_cons_of_pos (by simpa using hb), List.cons_append, ← hl]

theorem queued_foldl_queueRetransmit {failed : List (PacketType × MessageId)} {w : WriteEvent}
    {packets : List InFlightPacket} (hw : .write w ∈ st.scheduler.queued)
    (h : ∀ q ∈ packets, q.key ≠ w.key) :
    .write w ∈ (packets.foldl (queueRetransmit failed) st).scheduler.queued := by
  induction packets generalizing st with
  | nil => exact hw
  | cons q packets ih =>
    refine ih ?_ fun q' hq' => h q' (List.mem_cons_of_mem _ hq')
    unfold queueRetransmit
    split
    · exact hw
    · refine (SchedulerState.pushIgnored_tried _ _).keeps hw ?_
      intro heq
      exact h q List.mem_cons_self (Option.some.inj heq)

/-- **A tick behind the timeout of a packet gives its message up or queues the packet again**, unless
there is no place in the scheduler. -/
theorem tick_rescues (hp : p ∈ st.recovery.packets) (hdue : retransmitDue config nowMs p = true)
    (htick : st.recovery.lastTickMs ≠ some nowMs) :
    (∀ q ∈ (st.tickRetransmit config nowMs).recovery.packets, q.key ≠ p.key) ∨
      .write (retransmitWrite p) ∈ (st.tickRetransmit config nowMs).scheduler.queued ∨
      (retransmitScheduler config st nowMs p.key).len = maxEvents := by
  have hscan := scanned_tickScan config nowMs st
  have hcomplete := scanComplete_tickScan config nowMs st
  have hshould : (st.advanceClock config nowMs).recovery.shouldTick nowMs =
      ({ st.recovery with lastTickMs := some nowMs }, true) := if_neg htick
  rw [tickRetransmit_of_ne htick]
  unfold retransmitScheduler
  dsimp only
  rw [hshould]
  change _ ∨ _ ∨ (((st.tickScan config nowMs).retransmits.takeWhile fun q => q.key != p.key).foldl
    (queueRetransmit (st.tickScan config nowMs).failedMessages)
    ((st.tickScan config nowMs).failures.foldl failMessage { st.advanceClock config nowMs with
      recovery := { st.recovery with lastTickMs := some nowMs } })).scheduler.len = maxEvents
  generalize st.tickScan config nowMs = scan at hscan hcomplete ⊢
  by_cases hfailed : p.message ∈ scan.failedMessages
  · refine .inl ?_
    intro q hq hkey
    rw [recovery_foldl_queueRetransmit, packets_foldl_failMessage, ← hscan.failedMessages] at hq
    rw [packets_key_unique hq.1 hp hkey] at hq
    exact hq.2 hfailed
  · refine .inr ?_
    have hleft : retryLeft config nowMs p = true := by
      simp only [retryLeft, hdue, Bool.true_and, decide_eq_true_eq]
      by_contra hattempts
      refine hfailed (hcomplete.failed p hp ?_)
      simp only [retryLimitReached, hdue, Bool.true_and, decide_eq_true_eq]
      exact UInt8.not_lt.mp hattempts
    have hmem : p ∈ scan.retransmits := by
      rw [hcomplete.retransmits]
      exact List.mem_filter.mpr ⟨hp, hleft⟩
    have hnodup : (scan.retransmits.map InFlightPacket.key).Nodup := by
      rw [hcomplete.retransmits]
      exact st.recovery.inFlight.keys_nodup.sublist (List.filter_sublist.map _)
    obtain ⟨rest, hsplit, hrest⟩ := split_at_key InFlightPacket.key hnodup hmem
    -- the loop gets to the packet, queues it, and goes on with packets of other keys
    generalize hmoment : (scan.retransmits.takeWhile fun q => q.key != p.key).foldl
      (queueRetransmit scan.failedMessages) _ = moment
    have hqueue : queueRetransmit scan.failedMessages moment p = { moment with
        scheduler := moment.scheduler.pushIgnored (.write (retransmitWrite p)) } :=
      if_neg (by simpa [InFlightPacket.message] using hfailed)
    rcases SchedulerState.pushIgnored_tried moment.scheduler (.write (retransmitWrite p)) with
      hpushed | ⟨-, hfull⟩
    · refine .inl ?_
      rw [hsplit, List.foldl_append, hmoment, List.foldl_cons, hqueue]
      exact queued_foldl_queueRetransmit hpushed.mem_self hrest
    · exact .inr hfull

variable (config st nowMs txLen p) in
/-- What a poll does for a packet whose timeout has passed. -/
inductive Rescued : Prop
  | queued (w : WriteEvent) : .write w ∈ (st.poll config nowMs txLen).1.scheduler.queued →
      w.key = p.key → w.priority = .retransmit → Rescued
  | transmitted (attempts : UInt8) :
      (st.poll config nowMs txLen).2 = .ok (.transmit p.wire.bytes attempts) → Rescued
  | removed : (∀ q ∈ (st.poll config nowMs txLen).1.recovery.packets, q.key ≠ p.key) → Rescued
  | full : (retransmitScheduler config st nowMs p.key).len = maxEvents → Rescued

/-- Two queued writes with one key are the same. -/
theorem QueueInv.write_unique {side : SendSide} (h : QueueInv config calls side) {w w' : WriteEvent}
    (hw : .write w ∈ side.scheduler.queued) (hw' : .write w' ∈ side.scheduler.queued)
    (hkey : w.key = w'.key) : w = w' := by
  obtain ⟨rest, hrest⟩ := Multiset.exists_cons_of_mem hw
  have hnodup := h.nodup
  rw [SchedulerState.keys_of_queued_write hrest, Multiset.nodup_cons, hkey] at hnodup
  rw [hrest, Multiset.mem_cons] at hw'
  rcases hw' with hw' | hw'
  · exact (EngineOutput.write.inj hw').symm
  · refine absurd ?_ hnodup.1
    rw [Multiset.mem_filterMap]
    exact ⟨.write w', hw', rfl⟩

/-- **A poll that does not fail rescues the packet.** -/
theorem PacketRun.rescued (hrun : PacketRun config calls st) (hp : p ∈ st.recovery.packets)
    (hdue : retransmitDue config nowMs p = true) (htick : st.recovery.lastTickMs ≠ some nowMs)
    (hok : (st.poll config nowMs txLen).2.isOk = true) : Rescued config st nowMs txLen p := by
  have hstep : PollStep config nowMs txLen (st.tickRetransmit config nowMs)
      (st.poll config nowMs txLen).1 (st.poll config nowMs txLen).2 :=
    pollOutput_spec config _ nowMs txLen
  rcases tick_rescues hp hdue htick with hremoved | hqueued | hfull
  · refine .removed ?_
    intro q hq hkey
    cases hstep.keyStep p.key with
    | taken w _ _ hrecovery _ =>
      rw [hrecovery] at hq
      obtain ⟨q', hq', hsame, -⟩ := same_of_mem_noteWrite hq
      exact hremoved q' hq' (hsame.symm.trans hkey)
    | dropped w _ _ hrecovery _ => exact hremoved q (hrecovery ▸ hq) hkey
    | other _ hpackets _ => exact hremoved q ((hpackets q hkey).mp hq) hkey
  · cases hstep.keyStep p.key with
    | taken w hkey hcons _ hresult =>
      have hinv : QueueInv config (calls ++ [⟨st, .poll nowMs txLen⟩])
          (st.tickRetransmit config nowMs).sendSide :=
        (hrun.queueInv.append _).moves (by simp) (tickRetransmit_moves config st nowMs txLen)
      have hw : .write w ∈ (st.tickRetransmit config nowMs).scheduler.queued := by
        rw [hcons]
        exact Multiset.mem_cons_self _ _
      obtain rfl := hinv.write_unique hw hqueued hkey
      exact .transmitted _ hresult
    | dropped w _ _ _ hfails =>
      rw [hok] at hfails
      cases hfails
    | other hkept _ _ => exact .queued _ ((hkept _ rfl).mpr hqueued) rfl rfl
  · exact .full hfull

end Rescue

/-! ## Sessions -/

section Session
variable {config : EngineConfig} {peer : Peer} {engine : Engine}

/-- The poll of a slot is the poll of its engine, which the slot keeps unless it reports a failed
message. -/
theorem PeerSlot.pollEngine_of_isOk {slot : PeerSlot} {nowMs txLen : Nat}
    (hengine : slot.engine = some engine) (hok : (slot.pollEngine nowMs txLen).2.isOk = true) :
    (slot.pollEngine nowMs txLen).1.engine = some (engine.poll nowMs txLen).1 ∨
      (slot.pollEngine nowMs txLen).1.engine = none ∧
        ∃ event, (slot.pollEngine nowMs txLen).2 = .ok (.sendFailed event) := by
  rw [pollEngine_of_some hengine] at hok ⊢
  generalize engine.poll nowMs txLen = polled at hok ⊢
  obtain ⟨engine', e | result⟩ := polled
  · cases hok
  · cases result with
    | transmit | message | idle => exact .inl rfl
    | sendFailed event => exact .inr ⟨rfl, event, rfl⟩

/-- **No packet of a live session is stranded.**  An unsent packet still has its first write in the
queue; a packet that was sent is queued again, transmitted or given up by the first poll that ticks
behind its timeout, or the scheduler was full when its turn came. -/
theorem no_packet_stranded (hrun : PeerRun config peer) (hengine : peer.slot.engine = some engine) :
    Backed engine.state.sendSide ∧
      ∀ p ∈ engine.state.recovery.packets, p.sent = true → ∀ nowMs txLen,
        (peer.slot.poll nowMs txLen).2.isOk = true →
        engine.state.recovery.lastTickMs ≠ some nowMs →
        config.retransmitTimeoutMs ≤ nowMs - p.lastSentMs →
        ∃ pinged : Engine, (peer.slot.queuePingIfIdle nowMs).1.engine = some pinged ∧
          (peer.slot.poll nowMs txLen).2 = (pinged.poll nowMs txLen).2 ∧
          ((peer.slot.poll nowMs txLen).1.engine = some (pinged.poll nowMs txLen).1 ∨
            (peer.slot.poll nowMs txLen).1.engine = none ∧
              ∃ event, (peer.slot.poll nowMs txLen).2 = .ok (.sendFailed event)) ∧
          Rescued config pinged.state nowMs txLen p := by
  obtain ⟨hconfig, -, hsession⟩ := hrun.live_engineRun engine hengine
  rw [hrun.config_eq] at hconfig
  refine ⟨hsession.backed, ?_⟩
  intro p hp hsent nowMs txLen hok htick hage
  have hdue : retransmitDue config nowMs p = true := by
    simp only [retransmitDue, hsent, Bool.true_and, Bool.not_eq_true', decide_eq_false_iff_not]
    omega
  cases PeerSlot.pollPath nowMs txLen hengine with
  | refused _ _ hfails =>
    rw [hok] at hfails
    cases hfails
  | polled ops pinged polled _ hpings _ hpinged hpolled hpoll hqueue =>
    -- a PING goes to the scheduler alone, so the packet is still in flight when the poll ticks
    have hping : polled.config = config ∧ polled.state.recovery = engine.state.recovery := by
      rw [hpolled, hpings]
      refine ⟨hconfig, ?_⟩
      split
      · exact (queueLiveness_spec engine.config engine.state .ping .newData).2.1
      · rfl
    have hresult : (peer.slot.poll nowMs txLen).2 = (polled.poll nowMs txLen).2 := by
      rw [hpoll, PeerSlot.pollEngine_result hpinged]
    rw [hpoll] at hok
    refine ⟨polled, by rw [hqueue]; exact hpinged, hresult, ?_, ?_⟩
    · rw [hpoll]
      exact PeerSlot.pollEngine_of_isOk hpinged hok
    · have hpackets := hsession.packetRun.runOps ops
      rw [← hconfig, show (runOps engine.config ops engine.state).2 = polled.state by rw [hpolled],
        hconfig] at hpackets
      rw [PeerSlot.pollEngine_result hpinged] at hok
      refine hpackets.rescued ?_ hdue ?_ ?_
      · rw [hping.2]
        exact hp
      · rw [hping.2]
        exact htick
      · rw [← hping.1]
        exact hok

/-- A hello message is transmitted and waits for its acknowledgement past the timeout. -/
theorem no_packet_stranded_hello : ∃ (engine pinged : Engine) (p : InFlightPacket),
    (runPeer .default [.connect 0, .poll 0 128]).slot.engine = some engine ∧
      p ∈ engine.state.recovery.packets ∧ p.sent = true ∧ Backed engine.state.sendSide ∧
      Rescued .default pinged.state 60 128 p := by
  have hrun := peerRun_runPeer .default [.connect 0, .poll 0 128]
  have hsent : ((runPeer .default [.connect 0, .poll 0 128]).slot.engine.any fun engine =>
      engine.state.recovery.lastTickMs != some 60 && engine.state.recovery.packets.any fun p =>
        p.sent && decide (EngineConfig.default.retransmitTimeoutMs ≤ 60 - p.lastSentMs)) = true := by
    decide +kernel
  have hok : ((runPeer .default [.connect 0, .poll 0 128]).slot.poll 60 128).2.isOk = true := by
    decide +kernel
  obtain ⟨engine, hengine, hsent⟩ := (Option.any_eq_true _ _).mp hsent
  simp only [Bool.and_eq_true, bne_iff_ne, List.any_eq_true, decide_eq_true_eq] at hsent
  obtain ⟨htick, p, hp, hsent, hage⟩ := hsent
  obtain ⟨hbacked, hrescue⟩ := no_packet_stranded hrun hengine
  obtain ⟨pinged, -, -, -, hrescued⟩ := hrescue p hp hsent 60 128 hok htick hage
  exact ⟨engine, pinged, p, hengine, hp, hsent, hbacked, hrescued⟩

end Session

end Msrt
