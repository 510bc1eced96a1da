import Msrt.LinkDelivery
import Msrt.Retransmission

/-! # Acknowledgements

Every DATA packet that asks for an acknowledgement and is accepted, or recognised as a duplicate, is
answered once: the acknowledgements a run has returned, followed by those that wait, are the answered
packets in the order of their arrival (`acks_in_order`).

Over a link an acknowledgement is sound (`acknowledgement_sound`): when it takes a packet out of the
in-flight table, the other side has taken the fragment of that packet into reassembly.
-/

namespace Msrt
open EngineState

/-! ## What is answered -/

/-- The packet was accepted or recognised as a duplicate. -/
def ReceiveReport.isAnswered : ReceiveReport → Bool
  | .packet _ | .duplicate _ => true
  | _ => false

namespace Call
variable (config : EngineConfig)

/-- The report on a packet. -/
def report (call : Call) : Option ReceiveReport :=
  match call.op with
  | .packet bytes => some (call.before.receiveCompletePacket config bytes).2
  | _ => none

/-- The key of an ack-eliciting DATA packet that was accepted or recognised as a duplicate. -/
def answered (call : Call) : Option PacketKey :=
  match call.op with
  | .packet bytes =>
    match decodePacketBytes bytes with
    | .data _ fragment =>
      if fragment.ackEliciting && (call.before.receiveCompletePacket config bytes).2.isAnswered then
        some fragment.key
      else none
    | _ => none
  | _ => none

/-- The key of the ACK packet a poll returned. -/
def returnedAck (call : Call) : Option PacketKey := (call.emitted config).bind ackKey

/-- Neither a poll nor a packet failed. -/
structure Succeeds (call : Call) : Prop where
  poll : ∀ nowMs txLen, call.op = .poll nowMs txLen →
    (call.before.poll config nowMs txLen).2.isOk = true
  packet : ∀ report, call.report config = some report → report.isError = false

end Call

/-! ## One packet -/

section Packet
variable {config : EngineConfig}

/-- An acknowledgement is queued when it is asked for, and nothing else changes. -/
theorem acknowledge_exact {st st' : EngineState} {ackEliciting : Bool} {key : PacketKey}
    (h : st.acknowledge ackEliciting key = some st') :
    st' = { st with ack := st'.ack } ∧ RingQueue.toList st'.ack =
      RingQueue.toList st.ack ++ if ackEliciting then [key] else [] := by
  unfold acknowledge at h
  split at h
  · obtain ⟨ack, hack, rfl⟩ := Option.map_eq_some_iff.mp h
    refine ⟨rfl, ?_⟩
    unfold AckState.observe at hack
    split at hack
    · cases hack
    · obtain rfl := Option.some.inj hack
      rw [if_pos ‹_›]
      exact RingQueue.toList_pushBack ..
  · obtain rfl := Option.some.inj h
    rw [if_neg ‹_›, List.append_nil]
    exact ⟨rfl, rfl⟩

/-- What a DATA packet does to the queue of acknowledgements, by its report. -/
inductive DataAcks (st : EngineState) (fragment : MessageFragment) :
    EngineState × ReceiveReport → Prop
  | duplicate (ack : AckState) : RingQueue.toList ack = RingQueue.toList st.ack ++
        (if fragment.ackEliciting then [fragment.key] else []) →
      DataAcks st fragment ({ st with ack }, .duplicate fragment.packetIndex)
  | accepted (st' : EngineState) : RingQueue.toList st'.ack = RingQueue.toList st.ack ++
        (if fragment.ackEliciting then [fragment.key] else []) →
      DataAcks st fragment (st', .packet fragment.packetIndex)
  | refused (st' : EngineState) : st'.ack = st.ack →
      (st.reassembly.observe fragment st.clock.nowMs).2.isOk = false →
      DataAcks st fragment (st', .corrupted)
  | failed (st' : EngineState) (e : Error) : DataAcks st fragment (st', .error e)

theorem receiveData_acks (st : EngineState) (fragment : MessageFragment) :
    DataAcks st fragment (st.receiveData fragment) := by
  unfold receiveData
  split
  · split
    · exact .failed _ _
    · rename_i st' hack
      obtain ⟨hsame, hacks⟩ := acknowledge_exact hack
      rw [hsame]
      exact .duplicate _ hacks
  · rename_i hdup
    have hfresh : st.receive.isDuplicate fragment.key = false := by simpa using hdup
    obtain ⟨-, hreceive, hack, hok⟩ := reassemble_spec st .data fragment
    rcases hr : st.reassemble .data fragment with ⟨st₁, _ | _⟩
    · rw [hr] at hack hok
      exact .refused st₁ hack hok.symm
    · rw [hr] at hreceive hack
      dsimp only at hreceive hack ⊢
      -- the key was not recorded before, so the table accepts it
      obtain ⟨-, -, hacc⟩ := PacketDedup.observePacket_fresh (by decide) hfresh
      rw [← hreceive] at hacc
      rw [hacc]
      dsimp only
      split
      · exact .failed _ _
      · rename_i st₂ hack₂
        refine .accepted st₂ ?_
        rw [← hack]
        exact (acknowledge_exact hack₂).2

end Packet

/-! ## One call -/

namespace Call
variable {config : EngineConfig} {call : Call}

/-- A packet recognised as a duplicate changes the queue of acknowledgements and nothing else. -/
theorem after_of_duplicate {i : PacketIndex} (h : call.report config = some (.duplicate i)) :
    ∃ ack, call.after config = { call.before with ack } := by
  obtain ⟨st, op⟩ := call
  cases op with
  | send | sendPing | poll => cases h
  | packet bytes =>
    have h := Option.some.inj h
    simp only [after]
    unfold receiveCompletePacket at h ⊢
    cases hdec : decodePacketBytes bytes with
    | data header fragment =>
      rw [hdec] at h
      have hacks := receiveData_acks st fragment
      dsimp only at h ⊢
      generalize st.receiveData fragment = result at h hacks ⊢
      cases hacks with
      | duplicate ack _ => exact ⟨ack, rfl⟩
      | accepted | refused | failed => cases h
    | log header fragment =>
      rw [hdec] at h
      dsimp only [receiveLog] at h
      split at h <;> cases h
    | ping =>
      rw [hdec] at h
      dsimp only at h
      split at h <;> cases h
    | ack | pong | malformed =>
      rw [hdec] at h
      cases h

/-- A packet reported as corrupted is not taken into reassembly and not acknowledged. -/
theorem acks_of_corrupted (h : call.report config = some .corrupted) :
    call.acceptedFragment = none ∧ (call.after config).ack = call.before.ack := by
  obtain ⟨st, op⟩ := call
  cases op with
  | send | sendPing | poll => cases h
  | packet bytes =>
    have h := Option.some.inj h
    simp only [after, acceptedFragment]
    unfold receiveCompletePacket at h ⊢
    cases hdec : decodePacketBytes bytes with
    | data header fragment =>
      rw [hdec] at h
      have hacks := receiveData_acks st fragment
      dsimp only at h ⊢
      generalize st.receiveData fragment = result at h hacks ⊢
      cases hacks with
      | refused st' hack hok =>
        refine ⟨?_, hack⟩
        cases hobs : (st.reassembly.observe fragment st.clock.nowMs).2 with
        | error e => simp
        | ok event => rw [hobs] at hok; cases hok
      | duplicate | accepted | failed => cases h
    | log header fragment => exact ⟨rfl, (receiveLog_spec st fragment).2.2⟩
    | ping =>
      rw [hdec] at h
      dsimp only at h
      split at h <;> cases h
    | ack | pong | malformed => exact ⟨rfl, rfl⟩

theorem returnedAck_of_not_poll (h : ∀ nowMs txLen, call.op ≠ .poll nowMs txLen) :
    call.returnedAck config = none := by
  have hpolled : call.polled config = none := by
    unfold polled
    split
    · exact absurd ‹_› (h _ _)
    · rfl
  simp [returnedAck, emitted, hpolled]

/-- A packet queues the acknowledgement it asks for, and no other. -/
theorem acks_of_packet {st : EngineState} {bytes : Bytes}
    (hok : (st.receiveCompletePacket config bytes).2.isError = false) :
    RingQueue.toList (st.receiveCompletePacket config bytes).1.ack =
      RingQueue.toList st.ack ++ (answered config ⟨st, .packet bytes⟩).toList := by
  simp only [answered]
  cases hdec : decodePacketBytes bytes with
  | data header fragment =>
    simp only [receiveCompletePacket, hdec] at hok ⊢
    have hacks := receiveData_acks st fragment
    generalize st.receiveData fragment = result at hok hacks ⊢
    cases hacks with
    | duplicate ack hlist =>
      rw [hlist]
      cases fragment.ackEliciting <;> rfl
    | accepted st' hlist =>
      rw [hlist]
      cases fragment.ackEliciting <;> rfl
    | refused st' hack _ => simp [hack, ReceiveReport.isAnswered]
    | failed st' e => cases hok
  | log header fragment =>
    simp only [receiveCompletePacket, hdec]
    rw [(receiveLog_spec st fragment).2.2]
    simp
  | ping =>
    have hsame : (st.receiveCompletePacket config bytes).1 = (st.queueLiveness config .pong .control).1 :=
      after_ping config st hdec
    rw [hsame, (st.queueLiveness_frame .pong .control).ack]
    simp
  | ack | pong | malformed => simp [receiveCompletePacket, hdec]

theorem returnedAck_of_transmit {nowMs txLen : Nat} {bytes : Bytes} {attempts : UInt8}
    (hop : call.op = .poll nowMs txLen)
    (hres : (call.before.poll config nowMs txLen).2 = .ok (.transmit bytes attempts)) :
    call.returnedAck config = ackKey bytes := by
  simp [returnedAck, emitted, polled, hop, hres]

theorem returnedAck_eq_none {nowMs txLen : Nat} (hop : call.op = .poll nowMs txLen)
    (hres : ∀ bytes attempts,
      (call.before.poll config nowMs txLen).2 ≠ .ok (.transmit bytes attempts)) :
    call.returnedAck config = none := by
  simp only [returnedAck, emitted, polled, hop]
  rcases hr : (call.before.poll config nowMs txLen).2 with e | result
  · rfl
  · cases result with
    | transmit bytes attempts => exact absurd hr (hres bytes attempts)
    | message | sendFailed | idle => rfl

/-- A poll returns the acknowledgement that has waited longest, and no other. -/
theorem acks_of_poll {calls : List Call} {nowMs txLen : Nat}
    (hinv : QueueInv config calls call.before.sendSide) (hop : call.op = .poll nowMs txLen)
    (hok : (call.before.poll config nowMs txLen).2.isOk = true) :
    (call.returnedAck config).toList ++ RingQueue.toList (call.after config).ack =
      RingQueue.toList call.before.ack := by
  cases call.sendMoves config with
  | quiet hquiet => exact absurd hop (hquiet nowMs txLen)
  | polled nowMs' txLen' ticked hop' hack hmoves hstep =>
    obtain ⟨rfl, rfl⟩ := CallOp.poll.inj (hop'.symm.trans hop)
    have hinv := (hinv.append [call]).moves (by simp) hmoves
    rw [← hack]
    have hnone (hres : ∀ bytes attempts,
          (call.before.poll config nowMs' txLen').2 ≠ .ok (.transmit bytes attempts))
        (hsame : (call.after config).ack = ticked.ack) :
        (call.returnedAck config).toList ++ RingQueue.toList (call.after config).ack =
          RingQueue.toList ticked.ack := by
      rw [returnedAck_eq_none hop hres, hsame]
      rfl
    cases hstep with
    | ack key keys hcons hkeys _ _ _ hres =>
      cases henc : encodeAckPacket key txLen' config.integrity with
      | error e =>
        rw [hres, henc] at hok
        cases hok
      | ok wire =>
        rw [henc] at hres
        rw [returnedAck_of_transmit hop hres, encodeAckPacket_eq_ok henc, ackKey_ack, hcons, hkeys]
        rfl
    | transmit w hq _ _ hsame _ hres =>
      -- a queued write is a fragment, a PING or a PONG, and no acknowledgement
      have hw : .write w ∈ ticked.scheduler.queued := by
        rw [hq]
        exact Multiset.mem_cons_self _ _
      rw [returnedAck_of_transmit hop hres, (hinv.origin w hw).ackKey_eq_none, hsame]
      rfl
    | tooSmall w _ _ _ hsame _ hres => exact hnone (by simp [hres]) hsame
    | sendFailed event _ _ hsame _ hres => exact hnone (by simp [hres]) hsame
    | message message messages _ _ _ _ hsame hres => exact hnone (by simp [hres]) hsame
    | idle _ _ hsame _ hres => exact hnone (by simp [hres]) hsame

/-- **What a call returns and leaves waiting is what waited and what it answered.** -/
theorem acks_step {calls : List Call} (hinv : QueueInv config calls call.before.sendSide)
    (hok : call.Succeeds config) :
    (call.returnedAck config).toList ++ RingQueue.toList (call.after config).ack =
      RingQueue.toList call.before.ack ++ (call.answered config).toList := by
  obtain ⟨st, op⟩ := call
  have hquiet (hframe : SendFrame st (after config ⟨st, op⟩))
      (hop : ∀ nowMs txLen, op ≠ .poll nowMs txLen) (hnone : answered config ⟨st, op⟩ = none) :
      (returnedAck config ⟨st, op⟩).toList ++ RingQueue.toList (after config ⟨st, op⟩).ack =
        RingQueue.toList st.ack ++ (answered config ⟨st, op⟩).toList := by
    rw [returnedAck_of_not_poll hop, hnone, hframe.ack]
    simp
  cases op with
  | send packetType message =>
    exact hquiet (st.sendFragmentedMessage_frame packetType message) (by simp) rfl
  | sendPing => exact hquiet (st.queueLiveness_frame .ping .newData) (by simp) rfl
  | poll nowMs txLen =>
    rw [acks_of_poll hinv rfl (hok.poll nowMs txLen rfl)]
    simp [answered]
  | packet bytes =>
    rw [returnedAck_of_not_poll (by simp)]
    exact acks_of_packet (hok.packet _ rfl)

end Call

/-! ## Whole runs -/

section Run
variable {config : EngineConfig} {calls : List Call} {st : EngineState}

theorem PacketRun.acks (hrun : PacketRun config calls st)
    (hok : ∀ call ∈ calls, call.Succeeds config) :
    calls.filterMap (Call.returnedAck config) ++ RingQueue.toList st.ack =
      calls.filterMap (Call.answered config) := by
  induction hrun with
  | new => rfl
  | ingress ingress _ ih => exact ih hok
  | @call calls st op hrun ih =>
    have hstep := Call.acks_step hrun.queueInv (hok ⟨st, op⟩ (by simp))
    have hbefore := ih fun c hc => hok c (List.mem_append_left _ hc)
    rw [filterMap_snoc, filterMap_snoc, List.append_assoc, hstep, ← List.append_assoc, hbefore]

/-- No packet of a receive that does not report an error is reported as one. -/
theorem report_of_mem_receiveLoopCalls {fuel : Nat} {input : Bytes} {report : ReceiveReport}
    (h : (receiveLoop config fuel st input report).2.isError = false) {call : Call}
    (hc : call ∈ receiveLoopCalls config fuel st input) {r : ReceiveReport}
    (hr : call.report config = some r) : r.isError = false := by
  induction fuel generalizing st input report with
  | zero => cases hc
  | succ fuel ih =>
    unfold receiveLoop at h
    unfold receiveLoopCalls at hc
    dsimp only at h hc
    cases hfed : (st.ingress.feed input config.integrity).2 with
    | error e => simp [hfed] at hc
    | ok outcome =>
      simp only [hfed] at h hc
      cases outcome with
      | needMore needed => cases hc
      | noise skipped => exact ih h hc
      | corrupted consumed => exact ih h hc
      | resync skipped => exact ih h hc
      | packet packetBytes consumed =>
        dsimp only at h hc
        cases hpacket : packetBytesTryFromSlice packetBytes with
        | error e => simp [hpacket] at hc
        | ok packet =>
          simp only [hpacket] at h hc
          -- the loop ends with the first packet it reports as an error
          split at h
          · rename_i herror
            rw [herror] at h
            cases h
          · rename_i hfine
            rw [if_neg hfine] at hc
            rcases List.mem_cons.mp hc with rfl | hc
            · obtain rfl := Option.some.inj hr
              simpa using hfine
            · exact ih h hc

/-- In a run without errors every call succeeds. -/
theorem EngineRun.succeeds (hrun : EngineRun config (NoError config) calls st) :
    ∀ call ∈ calls, call.Succeeds config := by
  intro call hc
  refine ⟨fun nowMs txLen hop => hrun.poll_isOk_of_mem (fun _ _ h => h.1) hc hop, ?_⟩
  intro r hr
  induction hrun with
  | new => cases hc
  | @step calls st op _ hstep ih =>
    rcases List.mem_append.mp hc with hc | hc
    · exact ih hc
    · cases op with
      | receive bytes => exact report_of_mem_receiveLoopCalls hstep.2 hc hr
      | send | sendLog | sendPing | poll =>
        rw [List.mem_singleton.mp hc] at hr
        cases hr

/-- A poll that does not fail returns an acknowledgement as long as one waits. -/
theorem poll_returns_ack {key : PacketKey} {keys : List PacketKey}
    (hpending : RingQueue.toList st.ack = key :: keys) {nowMs txLen : Nat}
    (hok : (st.poll config nowMs txLen).2.isOk = true) :
    ∃ bytes, (st.poll config nowMs txLen).2 = .ok (.transmit bytes 0) ∧ ackKey bytes = some key := by
  have hframe : TickFrame (st.advanceClock config nowMs) (st.tickRetransmit config nowMs) :=
    st.tickRetransmit_frame nowMs
  have hack : (st.tickRetransmit config nowMs).ack = st.ack := hframe.ack
  have hlen : (st.tickRetransmit config nowMs).ack.len ≠ 0 := by
    rw [hack, ← RingQueue.length_toList, hpending]
    simp
  have hpoll : st.poll config nowMs txLen =
      (st.tickRetransmit config nowMs).pollPendingAck config txLen :=
    if_pos (by simpa [AckState.isPending] using hlen)
  rw [hpoll] at hok ⊢
  rw [← hack] at hpending
  unfold pollPendingAck at hok ⊢
  dsimp only at hok ⊢
  rw [(ack_pop_cons hpending).1] at hok ⊢
  dsimp only at hok ⊢
  cases henc : encodeAckPacket key txLen config.integrity with
  | error e =>
    rw [henc] at hok
    cases hok
  | ok bytes => exact ⟨bytes, rfl, by rw [encodeAckPacket_eq_ok henc, ackKey_ack]⟩

/-- **One acknowledgement per answered packet, in order.**  In every run without errors the
acknowledgements returned so far, followed by those that wait, are the answered packets in the order
of their arrival; a poll returns one as long as one waits; and a packet recognised as a duplicate
changes the queue of acknowledgements only. -/
theorem acks_in_order (hrun : EngineRun config (NoError config) calls st) :
    calls.filterMap (Call.returnedAck config) ++ RingQueue.toList st.ack =
        calls.filterMap (Call.answered config) ∧
      (∀ key keys nowMs txLen, RingQueue.toList st.ack = key :: keys →
        (st.poll config nowMs txLen).2.isOk = true →
        ∃ bytes, (st.poll config nowMs txLen).2 = .ok (.transmit bytes 0) ∧
          ackKey bytes = some key) ∧
      ∀ call ∈ calls, ∀ i, call.report config = some (.duplicate i) →
        ∃ ack, call.after config = { call.before with ack } :=
  ⟨hrun.packetRun.acks hrun.succeeds, fun _ _ _ _ hpending hok => poll_returns_ack hpending hok,
    fun _ _ _ h => Call.after_of_duplicate h⟩

/-- An envelope with the only packet of a message. -/
def singlePacket (integrity : IntegrityConfig) (id : MessageId) (message : Bytes) : Bytes :=
  envelope integrity (dataPacketBytes ⟨.ackEliciting, id, 0, message.length, 0⟩ message)

/-- A packet arrives twice and one of its acknowledgements is returned. -/
def repeatedScript : List EngineOp :=
  [.receive (singlePacket .default 5 [7]), .receive (singlePacket .default 5 [7]), .poll 0 128]

theorem repeatedScript_answers :
    let run := runOps .default repeatedScript (.new EngineConfig.default.initialMessageId)
    scriptSucceeds .default repeatedScript (.new EngineConfig.default.initialMessageId) = true ∧
      run.1.filterMap (Call.answered .default) = [⟨5, 0⟩, ⟨5, 0⟩] ∧
      run.1.filterMap (Call.returnedAck .default) = [⟨5, 0⟩] := by
  decide +kernel

/-- One acknowledgement of the packet was returned, the other waits. -/
theorem acks_in_order_repeated : ∃ (calls : List Call) (st : EngineState),
    EngineRun .default (NoError .default) calls st ∧
      calls.filterMap (Call.returnedAck .default) = [⟨5, 0⟩] ∧ RingQueue.toList st.ack = [⟨5, 0⟩] := by
  obtain ⟨hsucceeds, hanswered, hreturned⟩ := repeatedScript_answers
  have hrun := EngineRun.new.script hsucceeds
  rw [List.nil_append] at hrun
  refine ⟨_, _, hrun, hreturned, ?_⟩
  have hall := (acks_in_order hrun).1
  rw [hanswered, hreturned, List.singleton_append, List.cons.injEq] at hall
  exact hall.2

end Run

/-! ## Over a link -/

section Link
variable {config : EngineConfig} {calls : List Call} {st : EngineState}

/-- All transmissions of a packet carry the bytes that were stored for it. -/
theorem PacketRun.transmission_bytes (hrun : PacketRun config calls st)
    (hcount : sendCount calls < 2 ^ 32) {send : Call} (hsend : send ∈ calls) {m : SentMessage}
    (hm : send.accepted config = some m) {i : Nat} (hi : i < m.count config) {t : Transmission}
    (ht : t ∈ transmissions config (m.packetKey i) calls) : t.bytes = (m.wire config i).bytes := by
  obtain ⟨call, hc, htransmission⟩ := List.mem_filterMap.mp ht
  obtain ⟨before, after, rfl⟩ := List.append_of_mem hc
  cases call.sendMoves config with
  | quiet hquiet =>
    rw [transmission_of_not_poll _ hquiet] at htransmission
    cases htransmission
  | polled nowMs txLen ticked hop _ hmoves hstep =>
    have hinv := ((hrun.of_split rfl).queueInv.append [call]).moves (by simp) hmoves
    cases hstep.keyStep (m.packetKey i) with
    | taken w hkey hq _ hres =>
      rw [transmission_of_transmit _ hop hres] at htransmission
      split at htransmission
      · rename_i hdataKey
        obtain rfl := Option.some.inj htransmission
        have hw : .write w ∈ ticked.scheduler.queued := by
          rw [hq]
          exact Multiset.mem_cons_self _ _
        -- the write is a fragment of a message with the same id, so of the message itself
        obtain ⟨-, c, hc', m', hm', -, j, hj, hkey', hwire⟩ := (hinv.origin w hw).of_dataKey hdataKey
        have hc' : c ∈ before ++ call :: after := by
          rw [List.append_cons]
          exact List.mem_append_left _ hc'
        obtain rfl := hrun.accepted_unique hcount hc' hsend hm' hm
          (congrArg PacketKey.messageId hkey').symm
        have hmost := (accepted_valid hm).2
        unfold maxEvents at hmost
        rw [hwire, packetKey_inj (by omega) (by omega) hkey'.symm]
      · cases htransmission
    | dropped w _ _ _ hfails =>
      rw [transmission_eq_none hop fun bytes attempts hres => by rw [hres] at hfails; cases hfails]
        at htransmission
      cases htransmission
    | other _ _ hbytes =>
      rw [transmission_eq_none hop fun bytes attempts hres => hinv.dataKey_ne
        (hbytes bytes attempts hres)] at htransmission
      cases htransmission

/-- A packet that takes an in-flight packet out is its acknowledgement. -/
theorem acknowledged_of_removed {call : Call} {bytes : Bytes} (hop : call.op = .packet bytes)
    {p : InFlightPacket} (hp : p ∈ call.before.recovery.packets)
    (hgone : ∀ q ∈ (call.after config).recovery.packets, q.key ≠ p.key) :
    call.acknowledged = some p.key := by
  cases call.sendStep config with
  | untouched _ _ hrecovery =>
    rw [hrecovery] at hgone
    exact absurd rfl (hgone p hp)
  | liveness _ _ _ _ _ hrecovery =>
    rw [hrecovery] at hgone
    exact absurd rfl (hgone p hp)
  | sent m haccepted =>
    simp only [Call.accepted, hop] at haccepted
    cases haccepted
  | polled _ _ _ hop' =>
    rw [hop] at hop'
    cases hop'
  | acked _ key _ _ _ _ _ hrecovery hacknowledged =>
    have hkey : p.key = key := by
      by_contra hne
      rw [hrecovery] at hgone
      exact hgone p (InFlightPackets.mem_applyAck.mpr ⟨hp, hne⟩) rfl
    rw [hacknowledged, hkey, if_pos]
    exact List.any_eq_true.mpr ⟨p, hp, by simp [hkey]⟩

theorem sendCount_receiveCalls (config : EngineConfig) (st : EngineState) (bytes : Bytes) :
    sendCount (st.receiveCalls config bytes) = 0 := by
  apply List.countP_eq_zero.mpr
  intro call hc
  obtain ⟨packet, hop⟩ := op_of_mem_receiveLoopCalls hc
  simp [Call.isSend, hop]

variable {sender receiver : EngineConfig} {a b : Party}

/-- **Acknowledgements are sound.**  When a packet that `a` receives takes an entry out of the
in-flight table, `b` had taken into reassembly the fragment that all transmissions of the entry
carry.  A packet that `b` reports as corrupted is not acknowledged. -/
theorem acknowledgement_sound (hsame : sender.integrity = receiver.integrity)
    (hrun : LinkRun sender receiver (Carries receiver) a b) (hcount : sendCount a.calls < 2 ^ 32)
    {bytes : Bytes} (hcarries : Carries receiver b.calls bytes) {call : Call}
    (hc : call ∈ a.state.receiveCalls sender bytes) {p : InFlightPacket}
    (hp : p ∈ call.before.recovery.packets)
    (hgone : ∀ q ∈ (call.after sender).recovery.packets, q.key ≠ p.key) :
    (∃ header fragment, decodePacketBytes (envelopePacket p.wire.bytes) = .data header fragment ∧
      fragment.key = p.key ∧ (∀ t ∈ transmissions sender p.key a.calls, t.bytes = p.wire.bytes) ∧
      ∃ c ∈ b.calls, c.acceptedFragment = some fragment) ∧
    ∀ c ∈ b.calls, c.report receiver = some .corrupted →
      c.acceptedFragment = none ∧ (c.after receiver).ack = c.before.ack := by
  refine ⟨?_, fun c _ hcorrupted => Call.acks_of_corrupted hcorrupted⟩
  -- the receive belongs to the run: its packets are answers to what `b` has accepted by now
  have hrun' : LinkRun sender receiver (Carries receiver) (a.step sender (.receive bytes)) b :=
    hrun.left _ fun bytes' heq => EngineOp.receive.inj heq ▸ hcarries
  have hcount' : sendCount (a.step sender (.receive bytes)).calls < 2 ^ 32 := by
    have hnone := sendCount_receiveCalls sender a.state bytes
    unfold sendCount at hcount hnone ⊢
    rw [show (a.step sender (.receive bytes)).calls =
      a.calls ++ a.state.receiveCalls sender bytes from rfl, List.countP_append, hnone]
    exact hcount
  have hc' : call ∈ (a.step sender (.receive bytes)).calls := List.mem_append_right _ hc
  obtain ⟨packet, hop⟩ := op_of_mem_receiveLoopCalls hc
  have hkey := (hrun'.fed_back hsame).acknowledged hc' (acknowledged_of_removed hop hp hgone)
  obtain ⟨before, after, hsplit⟩ := List.append_of_mem hc'
  -- the entry goes back to a fragment of a DATA message that `a` sent
  obtain ⟨send, hsend, m, hm, hdata, i, hi, hpkey, -, -, hwire⟩ :=
    (hrun'.runs.1.of_split hsplit).queueInv.tracks p hp
  have hsend' : send ∈ (a.step sender (.receive bytes)).calls := by
    rw [hsplit]
    exact List.mem_append_left _ hsend
  obtain ⟨hvalid, hmost⟩ := accepted_valid hm
  have hown := (hrun'.fed hsame).ownFragments hrun'.runs.1 hcount' hsend' hm
  rw [hpkey] at hkey
  obtain ⟨c, hcb, haccepted⟩ := accepted_of_key hown hdata hmost hi hkey
  rcases SentMessage.decode_packet hvalid hi with ⟨-, header, hdec⟩ | ⟨hlog, -⟩
  · refine ⟨header, m.messageFragment sender i, ?_, hpkey.symm, ?_, c, hcb, haccepted⟩
    · rw [hwire, m.wire_bytes, envelopePacket_envelope _ (m.length_packet_le sender i), hdec]
    · intro t ht
      rw [hpkey] at ht
      have ht : t ∈ transmissions sender (m.packetKey i) (a.step sender (.receive bytes)).calls := by
        rw [transmissions, Party.step, List.filterMap_append]
        exact List.mem_append_left _ ht
      rw [hwire]
      exact hrun'.runs.1.transmission_bytes hcount' hsend' hm hi ht
  · rw [hdata] at hlog
    cases hlog

/-- A message of one packet is transmitted and received, and its acknowledgement is on the way. -/
def ackUnderwaySchedule : List LinkOp :=
  [.left (.send [7]), .left (.poll 0 128), .forward [0], .right (.poll 0 128)]

theorem ackUnderwaySchedule_removes :
    let link := runSchedule .default .default ackUnderwaySchedule
    sendCount link.1.calls = 1 ∧
      ∃ call ∈ link.1.state.receiveCalls .default (link.2.envelopes .default [0]).flatten,
        ∃ p ∈ call.before.recovery.packets,
          ∀ q ∈ (call.after .default).recovery.packets, q.key ≠ p.key := by
  decide +kernel

/-- The acknowledgement of the schedule answers the fragment that was taken into reassembly. -/
theorem acknowledgement_sound_one : ∃ (a b : Party) (p : InFlightPacket),
    LinkRun .default .default (Carries .default) a b ∧
      ∃ header fragment, decodePacketBytes (envelopePacket p.wire.bytes) = .data header fragment ∧
        ∃ c ∈ b.calls, c.acceptedFragment = some fragment := by
  obtain ⟨hcount, call, hc, p, hp, hgone⟩ := ackUnderwaySchedule_removes
  have hrun := linkRun_runSchedule .default .default ackUnderwaySchedule
  obtain ⟨⟨header, fragment, hdec, -, -, haccepted⟩, -⟩ := acknowledgement_sound rfl hrun
    (by rw [hcount]; decide) (carries_envelopes _ _ [0]) hc hp hgone
  exact ⟨_, _, p, hrun, header, fragment, hdec, haccepted⟩

end Link

end Msrt
