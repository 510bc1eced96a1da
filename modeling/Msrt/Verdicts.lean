import Msrt.Outgoing
import Msrt.SendLedger

/-! # Every reliable message gets a verdict

The in-flight table, the acknowledgements and the failure events of an engine are a ledger of
reliable sends (`sendLedger`), and every call is a move of the ledger or leaves it alone
(`sendLedger_step`) as long as the scheduler has room for the failures of the tick
(`Call.FailuresFit`).  The tick drops a failed message from the in-flight table before it queues the
failure and ignores a full scheduler, so without room the message vanishes.
-/

namespace Msrt
open EngineState

/-! ## The ledger of a run -/

/-- The call reported a failure of the message. -/
def Call.reportsFailure (config : EngineConfig) (id : MessageId) (call : Call) : Bool :=
  match call.reportedFailure config with
  | some event => event.messageId == id
  | none => false

/-- The failures of a message that are queued. -/
def queuedFailures (st : EngineState) (id : MessageId) : Nat :=
  st.scheduler.failures.countP (fun event => event.messageId = id)

/-- The failures of a message that polls have returned. -/
def returnedFailures (config : EngineConfig) (calls : List Call) (id : MessageId) : Nat :=
  calls.countP (Call.reportsFailure config id)

/-- The ledger of reliable sends of a run. -/
def sendLedger (config : EngineConfig) (calls : List Call) (st : EngineState) :
    SendLedger PacketKey MessageId where
  sent id := {key | ∃ call ∈ calls, ∃ m, call.accepted config = some m ∧ m.packetType = .data ∧
    m.messageId = id ∧ ∃ i < m.count config, key = m.packetKey i}
  inFlight := {key | ∃ p ∈ st.recovery.packets, p.key = key}
  acked := {key | ∃ call ∈ calls, call.acknowledged = some key}
  failed id := queuedFailures st id + returnedFailures config calls id

/-- The messages a tick at `nowMs` gives up. -/
def failingMessages (config : EngineConfig) (nowMs : Nat) (st : EngineState) :
    List (PacketType × MessageId) :=
  ((st.recovery.packets.filter (retryLimitReached config nowMs)).map InFlightPacket.message).dedup

/-- If the call runs a tick, the scheduler has room for the failures of the tick. -/
def Call.FailuresFit (config : EngineConfig) (call : Call) : Prop :=
  ∀ nowMs txLen, call.op = .poll nowMs txLen → call.before.recovery.lastTickMs ≠ some nowMs →
    (failingMessages config nowMs call.before).length ≤ call.before.scheduler.available

instance (config : EngineConfig) (call : Call) : Decidable (call.FailuresFit config) :=
  match hop : call.op with
  | .poll nowMs _ =>
    decidable_of_iff (call.before.recovery.lastTickMs ≠ some nowMs →
      (failingMessages config nowMs call.before).length ≤ call.before.scheduler.available)
      ⟨fun h _ _ heq hrun => by
          obtain ⟨rfl, rfl⟩ := CallOp.poll.inj (hop.symm.trans heq)
          exact h hrun,
        fun h => h _ _ hop⟩
  | .send _ _ => isTrue fun _ _ heq => by cases hop.symm.trans heq
  | .sendPing => isTrue fun _ _ heq => by cases hop.symm.trans heq
  | .packet _ => isTrue fun _ _ heq => by cases hop.symm.trans heq

section Ledger
variable {config : EngineConfig} {calls : List Call} {st : EngineState} {call : Call}

theorem sent_snoc_of_none (h : ∀ m, call.accepted config = some m → m.packetType ≠ .data)
    (st st' : EngineState) :
    (sendLedger config (calls ++ [call]) st').sent = (sendLedger config calls st).sent := by
  ext id key
  constructor
  · rintro ⟨c, hc, m, hm, hdata, hrest⟩
    rcases List.mem_append.mp hc with hc | hc
    · exact ⟨c, hc, m, hm, hdata, hrest⟩
    · rw [List.mem_singleton.mp hc] at hm
      exact absurd hdata (h m hm)
  · rintro ⟨c, hc, hrest⟩
    exact ⟨c, List.mem_append_left _ hc, hrest⟩

theorem acked_snoc (st st' : EngineState) :
    (sendLedger config (calls ++ [call]) st').acked =
      {key | call.acknowledged = some key} ∪ (sendLedger config calls st).acked := by
  ext key
  constructor
  · rintro ⟨c, hc, hack⟩
    rcases List.mem_append.mp hc with hc | hc
    · exact .inr ⟨c, hc, hack⟩
    · exact .inl (List.mem_singleton.mp hc ▸ hack)
  · rintro (hack | ⟨c, hc, hack⟩)
    · exact ⟨call, by simp, hack⟩
    · exact ⟨c, List.mem_append_left _ hc, hack⟩

theorem acked_snoc_of_none (h : call.acknowledged = none) (st st' : EngineState) :
    (sendLedger config (calls ++ [call]) st').acked = (sendLedger config calls st).acked := by
  rw [acked_snoc st st']
  simp [h]

theorem returnedFailures_snoc (id : MessageId) :
    returnedFailures config (calls ++ [call]) id =
      returnedFailures config calls id + if call.reportsFailure config id then 1 else 0 := by
  rw [returnedFailures, List.countP_append, List.countP_singleton]
  rfl

theorem reportsFailure_of_not_polled (h : call.polled config = none) (id : MessageId) :
    call.reportsFailure config id = false := by
  simp [Call.reportsFailure, Call.reportedFailure, h]

theorem failed_snoc_of_not_polled (h : call.polled config = none) {st st' : EngineState}
    (hfailures : st'.scheduler.failures = st.scheduler.failures) :
    (sendLedger config (calls ++ [call]) st').failed = (sendLedger config calls st).failed := by
  funext id
  show queuedFailures st' id + returnedFailures config (calls ++ [call]) id = _
  rw [returnedFailures_snoc, reportsFailure_of_not_polled h, queuedFailures, hfailures]
  rfl

/-- A call that touches no packet and no failure leaves the ledger alone. -/
theorem sendLedger_untouched (hunsent : call.Unsent config) {st st' : EngineState}
    (hfailures : st'.scheduler.failures = st.scheduler.failures)
    (hrecovery : st'.recovery = st.recovery) :
    sendLedger config (calls ++ [call]) st' = sendLedger config calls st := by
  refine SendLedger.ext ?_ ?_ ?_ ?_
  · exact sent_snoc_of_none (fun m hm => by rw [hunsent.accepted] at hm; cases hm) st st'
  · show {key | ∃ p ∈ st'.recovery.packets, p.key = key} = _
    rw [hrecovery]
    rfl
  · exact acked_snoc_of_none hunsent.acknowledged st st'
  · exact failed_snoc_of_not_polled hunsent.polled hfailures

/-! ### A message goes out -/

theorem mem_sent_messageId {id : MessageId} {key : PacketKey}
    (h : key ∈ (sendLedger config calls st).sent id) : key.messageId = id := by
  obtain ⟨c, -, m, -, -, hid, i, -, rfl⟩ := h
  exact hid

/-- What was sent under an id that was not sent before is the new message. -/
theorem sent_snoc {m : SentMessage} (haccepted : call.accepted config = some m)
    (hdata : m.packetType = .data) (st' : EngineState)
    (hunsent : (sendLedger config calls st).sent m.messageId = ∅) :
    (sendLedger config (calls ++ [call]) st').sent =
      ((sendLedger config calls st).send m.messageId
        {key | ∃ i < m.count config, key = m.packetKey i}).sent := by
  funext id
  by_cases hid : id = m.messageId
  · subst hid
    rw [SendLedger.sent_send_self]
    ext key
    constructor
    · rintro ⟨c, hc, m', hm', hdata', hid', hkey⟩
      rcases List.mem_append.mp hc with hc | hc
      · -- an earlier message with the same id is excluded: the id is fresh
        exfalso
        obtain ⟨i, hi, rfl⟩ := hkey
        have : m'.packetKey i ∈ (sendLedger config calls st).sent m.messageId :=
          ⟨c, hc, m', hm', hdata', hid', i, hi, rfl⟩
        rw [hunsent] at this
        exact this
      · rw [List.mem_singleton.mp hc, haccepted] at hm'
        obtain rfl := Option.some.inj hm'
        exact hkey
    · exact fun hkey => ⟨call, by simp, m, haccepted, hdata, rfl, hkey⟩
  · rw [SendLedger.sent_send_of_ne hid]
    ext key
    constructor
    · rintro ⟨c, hc, m', hm', hdata', hid', hkey⟩
      rcases List.mem_append.mp hc with hc | hc
      · exact ⟨c, hc, m', hm', hdata', hid', hkey⟩
      · rw [List.mem_singleton.mp hc, haccepted] at hm'
        obtain rfl := Option.some.inj hm'
        exact absurd hid'.symm hid
    · rintro ⟨c, hc, hrest⟩
      exact ⟨c, List.mem_append_left _ hc, hrest⟩

/-- The keys in flight after a reliable message was queued. -/
theorem inFlight_queueMessage {m : SentMessage} (hmode : m.mode = .reliable)
    (hroom : HasRoom m st.withNextId (m.count config)) (key : PacketKey) :
    (∃ p ∈ (st.withNextId.queueMessage config m).recovery.packets, p.key = key) ↔
      (∃ p ∈ st.recovery.packets, p.key = key) ∨ ∃ i < m.count config, key = m.packetKey i := by
  constructor
  · rintro ⟨p, hp, rfl⟩
    rcases (mem_packets_queueMessage hroom hmode).mp hp with ⟨i, hi, rfl⟩ | ⟨hp, -⟩
    · exact .inr ⟨i, hi, rfl⟩
    · rw [recovery_withNextId] at hp
      exact .inl ⟨p, hp, rfl⟩
  · intro hkey
    -- a packet of the message replaces one that was in flight under the same key
    by_cases hnew : ∃ i < m.count config, key = m.packetKey i
    · obtain ⟨i, hi, rfl⟩ := hnew
      exact ⟨_, (mem_packets_queueMessage hroom hmode).mpr (.inl ⟨i, hi, rfl⟩), rfl⟩
    · obtain ⟨p, hp, rfl⟩ := hkey.resolve_right hnew
      refine ⟨p, (mem_packets_queueMessage hroom hmode).mpr (.inr ⟨?_, ?_⟩), rfl⟩
      · rwa [recovery_withNextId]
      · intro i hi hk
        exact hnew ⟨i, hi, hk⟩

theorem sendLedger_sent {m : SentMessage} (haccepted : call.accepted config = some m)
    (hdata : m.packetType = .data) (hmode : m.mode = .reliable)
    (hpolled : call.polled config = none) (hacknowledged : call.acknowledged = none)
    (hroom : HasRoom m call.before.withNextId (m.count config))
    (hafter : call.after config = call.before.withNextId.queueMessage config m)
    (hunsent : (sendLedger config calls call.before).sent m.messageId = ∅) :
    sendLedger config (calls ++ [call]) (call.after config) =
      (sendLedger config calls call.before).send m.messageId
        {key | ∃ i < m.count config, key = m.packetKey i} := by
  refine SendLedger.ext ?_ ?_ ?_ ?_
  · exact sent_snoc haccepted hdata _ hunsent
  · ext key
    show (∃ p ∈ (call.after config).recovery.packets, p.key = key) ↔ _
    rw [hafter]
    exact inFlight_queueMessage hmode hroom key
  · exact acked_snoc_of_none hacknowledged call.before _
  · apply failed_snoc_of_not_polled hpolled
    rw [hafter, failures_queueMessage hroom, scheduler_withNextId]

/-! ### An acknowledgement -/

theorem sendLedger_acked {key : PacketKey} (haccepted : call.accepted config = none)
    (hpolled : call.polled config = none)
    (hscheduler : (call.after config).scheduler = call.before.scheduler)
    (hrecovery : (call.after config).recovery = call.before.recovery.applyAck key)
    (hacknowledged : call.acknowledged =
      if call.before.recovery.packets.any (fun p => p.key == key) then some key else none) :
    sendLedger config (calls ++ [call]) (call.after config) = sendLedger config calls call.before ∨
      SendLedger.Step (sendLedger config calls call.before)
        (sendLedger config (calls ++ [call]) (call.after config)) := by
  have hsent : (sendLedger config (calls ++ [call]) (call.after config)).sent =
      (sendLedger config calls call.before).sent :=
    sent_snoc_of_none (fun m hm => by rw [haccepted] at hm; cases hm) _ _
  have hfailed : (sendLedger config (calls ++ [call]) (call.after config)).failed =
      (sendLedger config calls call.before).failed :=
    failed_snoc_of_not_polled hpolled (by rw [hscheduler])
  have hflight : (sendLedger config (calls ++ [call]) (call.after config)).inFlight =
      (sendLedger config calls call.before).inFlight \ {key} := by
    ext k
    show (∃ p ∈ (call.after config).recovery.packets, p.key = k) ↔
      (∃ p ∈ call.before.recovery.packets, p.key = k) ∧ k ∉ ({key} : Set PacketKey)
    rw [hrecovery]
    constructor
    · rintro ⟨p, hp, rfl⟩
      obtain ⟨hp, hne⟩ := InFlightPackets.mem_applyAck.mp hp
      exact ⟨⟨p, hp, rfl⟩, hne⟩
    · rintro ⟨⟨p, hp, rfl⟩, hne⟩
      exact ⟨p, InFlightPackets.mem_applyAck.mpr ⟨hp, hne⟩, rfl⟩
  by_cases hkey : key ∈ (sendLedger config calls call.before).inFlight
  · obtain ⟨p, hp, hpk⟩ := hkey
    have hany : call.before.recovery.packets.any (fun p => p.key == key) = true :=
      List.any_eq_true.mpr ⟨p, hp, by simp [hpk]⟩
    rw [if_pos hany] at hacknowledged
    have hstep := SendLedger.Step.ack key (show key ∈ (sendLedger config calls call.before).inFlight
      from ⟨p, hp, hpk⟩)
    refine .inr ?_
    convert hstep using 1
    refine SendLedger.ext hsent hflight ?_ hfailed
    rw [acked_snoc call.before, hacknowledged]
    ext k
    simp [SendLedger.ack, eq_comm]
  · have hany : ¬ call.before.recovery.packets.any (fun p => p.key == key) = true := by
      intro h
      obtain ⟨p, hp, hpk⟩ := List.any_eq_true.mp h
      exact hkey ⟨p, hp, eq_of_beq hpk⟩
    rw [if_neg hany] at hacknowledged
    refine .inl (SendLedger.ext hsent ?_ (acked_snoc_of_none hacknowledged call.before _) hfailed)
    rw [hflight, Set.sdiff_singleton_eq_self hkey]

/-! ### A poll -/

variable (st) in
/-- A tracked packet is filed under the id of its key. -/
theorem mem_sent_of_tracks {p : InFlightPacket} (h : Tracks config calls p) :
    p.message = (.data, p.key.messageId) ∧
      p.key ∈ (sendLedger config calls st).sent p.key.messageId := by
  obtain ⟨c, hc, m, hm, hdata, i, hi, hkey, htype, hid, -⟩ := h
  have hkeyId : p.key.messageId = m.messageId := by rw [hkey]; rfl
  refine ⟨by rw [InFlightPacket.message, htype, hid, hkeyId], ?_⟩
  exact ⟨c, hc, m, hm, hdata, hkeyId.symm, i, hi, hkey⟩

/-- The failures of a message the result of a poll reports. -/
def resultFailures (id : MessageId) : Except Error EnginePoll → Nat
  | .ok (.sendFailed event) => if event.messageId = id then 1 else 0
  | _ => 0

/-- The action of a poll moves a failure from the queue to the caller, and nothing else. -/
theorem pollStep_ledger {nowMs txLen : Nat} {st st' : EngineState}
    {result : Except Error EnginePoll} (h : PollStep config nowMs txLen st st' result) :
    (∀ key, (∃ p ∈ st'.recovery.packets, p.key = key) ↔ ∃ p ∈ st.recovery.packets, p.key = key) ∧
      ∀ id, queuedFailures st' id + resultFailures id result = queuedFailures st id := by
  have hsame (hr : st'.recovery = st.recovery) (key : PacketKey) :
      (∃ p ∈ st'.recovery.packets, p.key = key) ↔ ∃ p ∈ st.recovery.packets, p.key = key := by
    rw [hr]
  have hfailures (hf : st'.scheduler.failures = st.scheduler.failures) (id : MessageId) :
      queuedFailures st' id = queuedFailures st id := by
    rw [queuedFailures, hf]
    rfl
  cases h with
  | ack key keys _ _ hscheduler hrecovery _ hres =>
    refine ⟨hsame hrecovery, ?_⟩
    intro id
    rw [hfailures (by rw [hscheduler]), hres]
    cases encodeAckPacket key txLen config.integrity <;> rfl
  | transmit write hq _ hrecovery _ _ hres =>
    refine ⟨?_, ?_⟩
    · intro key
      -- marking a packet as sent keeps its key
      rw [hrecovery]
      constructor
      · rintro ⟨p, hp, rfl⟩
        obtain ⟨q, hq, hkey, -⟩ := same_of_mem_noteWrite hp
        exact ⟨q, hq, hkey.symm⟩
      · rintro ⟨q, hq, rfl⟩
        obtain ⟨p, hp, hkey, -⟩ := mem_noteWrite_of_mem write nowMs hq
        exact ⟨p, hp, hkey⟩
    · intro id
      rw [hfailures (SchedulerState.failures_write hq).symm, hres]
      rfl
  | tooSmall write hq _ hrecovery _ _ hres =>
    refine ⟨hsame hrecovery, ?_⟩
    intro id
    rw [hfailures (SchedulerState.failures_write hq).symm, hres]
    rfl
  | sendFailed event hq hrecovery _ _ hres =>
    refine ⟨hsame hrecovery, ?_⟩
    intro id
    rw [hres, queuedFailures, queuedFailures, SchedulerState.failures_sendFailed hq,
      Multiset.countP_cons]
    rfl
  | message message messages _ _ hq hrecovery _ hres =>
    refine ⟨hsame hrecovery, ?_⟩
    intro id
    rw [hfailures (by rw [SchedulerState.failures, hq]; rfl), hres]
    rfl
  | idle hq hrecovery _ _ hres =>
    refine ⟨hsame hrecovery, ?_⟩
    intro id
    rw [hfailures (by rw [SchedulerState.failures, hq]; rfl), hres]
    rfl

/-- A scan gives up no more messages than there are to give up. -/
theorem length_failures_le {nowMs : Nat} {scan : TickScan}
    (h : Scanned config nowMs st.recovery.packets scan) :
    scan.failures.length ≤ (failingMessages config nowMs st).length := by
  have hlen : scan.failures.length = scan.failedMessages.length := by
    rw [h.failedMessages, List.length_map]
  rw [hlen]
  refine (List.subperm_of_subset h.nodup ?_).length_le
  intro message hm
  rw [h.failedMessages] at hm
  obtain ⟨p, hp, rfl⟩ := List.mem_map.mp hm
  obtain ⟨hmem, hlimit⟩ := h.failures p hp
  exact List.mem_dedup.mpr (List.mem_map.mpr ⟨p, List.mem_filter.mpr ⟨hmem, hlimit⟩, rfl⟩)

/-- Each message a scan gives up is one failure. -/
theorem countP_failures {nowMs : Nat} {scan : TickScan} (hinv : SenderInv config calls st)
    (h : Scanned config nowMs st.recovery.packets scan) (id : MessageId) :
    (scan.failures.map failureOf : Multiset SendFailedEvent).countP
      (fun event => event.messageId = id) =
        if (PacketType.data, id) ∈ scan.failedMessages then 1 else 0 := by
  have hmessage : ∀ p ∈ scan.failures, (decide ((failureOf p).messageId = id) = true ↔
      (p.message == (PacketType.data, id)) = true) := by
    intro p hp
    obtain ⟨c, -, m, -, -, i, -, -, htype, -⟩ := hinv.inFlight p (h.failures p hp).1
    simp [failureOf, InFlightPacket.message, htype]
  rw [Multiset.coe_countP, List.countP_map, Function.comp_def,
    List.countP_congr hmessage, ← Function.comp_def (· == (PacketType.data, id)), ← List.countP_map,
    ← h.failedMessages]
  exact h.nodup.count

/-- A message the scan gives up has a packet in flight. -/
theorem exists_inFlight_of_failed {nowMs : Nat} {scan : TickScan}
    (hinv : SenderInv config calls st) (h : Scanned config nowMs st.recovery.packets scan)
    {id : MessageId} (hid : (PacketType.data, id) ∈ scan.failedMessages) :
    ∃ key ∈ (sendLedger config calls st).sent id,
      key ∈ (sendLedger config calls st).inFlight := by
  rw [h.failedMessages] at hid
  obtain ⟨p, hp, hmessage⟩ := List.mem_map.mp hid
  have hmem := (h.failures p hp).1
  obtain ⟨hown, hsent⟩ := mem_sent_of_tracks st (hinv.inFlight p hmem)
  rw [hown] at hmessage
  obtain rfl := (Prod.mk.inj hmessage).2
  exact ⟨p.key, hsent, p, hmem, rfl⟩

/-- The keys in flight after a scan: those of the messages it did not give up. -/
theorem inFlight_scanned {ticked : EngineState} {scan : TickScan}
    (hinv : SenderInv config calls st)
    (hpackets : ∀ p, p ∈ ticked.recovery.packets ↔
      p ∈ st.recovery.packets ∧ p.message ∉ scan.failedMessages) (key : PacketKey) :
    (∃ p ∈ ticked.recovery.packets, p.key = key) ↔
      key ∈ ((sendLedger config calls st).fail
        {id | (PacketType.data, id) ∈ scan.failedMessages}).inFlight := by
  constructor
  · rintro ⟨p, hp, rfl⟩
    obtain ⟨hmem, hkept⟩ := (hpackets p).mp hp
    refine ⟨⟨p, hmem, rfl⟩, fun id hid hkey => hkept ?_⟩
    rw [(mem_sent_of_tracks st (hinv.inFlight p hmem)).1, mem_sent_messageId hkey]
    exact hid
  · rintro ⟨⟨p, hmem, rfl⟩, hkept⟩
    obtain ⟨hown, hsent⟩ := mem_sent_of_tracks st (hinv.inFlight p hmem)
    refine ⟨p, (hpackets p).mpr ⟨hmem, ?_⟩, rfl⟩
    intro hmessage
    rw [hown] at hmessage
    exact hkept _ hmessage hsent

/-- The failures of a message after a poll: what the tick left queued and what polls before this
one returned. -/
theorem failed_snoc_of_polled (calls : List Call) {nowMs txLen : Nat} {ticked : EngineState}
    (hop : call.op = .poll nowMs txLen)
    (hstep : PollStep config nowMs txLen ticked (call.after config)
      (call.before.poll config nowMs txLen).2) (id : MessageId) :
    (sendLedger config (calls ++ [call]) (call.after config)).failed id =
      queuedFailures ticked id + returnedFailures config calls id := by
  have hreports : (if call.reportsFailure config id then 1 else 0) =
      resultFailures id (call.before.poll config nowMs txLen).2 := by
    simp only [Call.reportsFailure, Call.reportedFailure, Call.polled, hop]
    rcases (call.before.poll config nowMs txLen).2 with e | result
    · rfl
    · cases result <;> simp [resultFailures]
  show queuedFailures _ id + returnedFailures config (calls ++ [call]) id = _
  rw [returnedFailures_snoc, hreports, ← (pollStep_ledger hstep).2 id]
  omega

theorem sendLedger_polled {nowMs txLen : Nat} {ticked : EngineState}
    (hinv : SenderInv config calls call.before) (hop : call.op = .poll nowMs txLen)
    (haccepted : call.accepted config = none) (hacknowledged : call.acknowledged = none)
    (hticked : Ticked config nowMs call.before ticked)
    (hstep : PollStep config nowMs txLen ticked (call.after config)
      (call.before.poll config nowMs txLen).2)
    (hfit : call.FailuresFit config) :
    SendLedger.Step (sendLedger config calls call.before)
      (sendLedger config (calls ++ [call]) (call.after config)) := by
  have hflight := (pollStep_ledger hstep).1
  have hfailed := failed_snoc_of_polled calls hop hstep
  have hsent : (sendLedger config (calls ++ [call]) (call.after config)).sent =
      (sendLedger config calls call.before).sent :=
    sent_snoc_of_none (fun m hm => by rw [haccepted] at hm; cases hm) _ _
  have hacked : (sendLedger config (calls ++ [call]) (call.after config)).acked =
      (sendLedger config calls call.before).acked := acked_snoc_of_none hacknowledged _ _
  cases hticked with
  | skipped _ hrecovery hscheduler =>
    -- a second poll in one millisecond runs no tick: nothing fails
    have hnone := SendLedger.Step.fail (l := sendLedger config calls call.before) ∅ (by simp)
    convert hnone using 1
    refine SendLedger.ext hsent ?_ hacked ?_
    · ext key
      refine (hflight key).trans ?_
      rw [hrecovery]
      simp [SendLedger.fail, sendLedger]
    · funext id
      rw [hfailed, queuedFailures, hscheduler]
      simp [SendLedger.fail, sendLedger, queuedFailures]
  | scanned scan hrun _ hscan hpackets _ hfailures =>
    have hroom : call.before.scheduler.len + scan.failures.length ≤ maxEvents := by
      have hlen := length_failures_le hscan
      have hav := hfit nowMs txLen hop hrun
      have hle : call.before.scheduler.len ≤ maxEvents := call.before.scheduler.len_le
      unfold SchedulerState.available at hav
      omega
    have hfail := SendLedger.Step.fail {id | (PacketType.data, id) ∈ scan.failedMessages}
      (fun id hid => exists_inFlight_of_failed hinv hscan hid)
    convert hfail using 1
    refine SendLedger.ext hsent ?_ hacked ?_
    · ext key
      exact (hflight key).trans (inFlight_scanned hinv hpackets key)
    · funext id
      rw [hfailed, queuedFailures, hfailures hroom, Multiset.countP_add, countP_failures hinv hscan]
      show _ = queuedFailures call.before id + returnedFailures config calls id + _
      by_cases hid : (PacketType.data, id) ∈ scan.failedMessages
      · simp [hid, queuedFailures]
        omega
      · simp [hid, queuedFailures]

/-! ### Every call -/

/-- **Every call is a move of the ledger or leaves it alone**, as long as the failures of its tick
fit the scheduler. -/
theorem sendLedger_step (hrun : PacketRun config calls call.before)
    (hcount : sendCount (calls ++ [call]) < 2 ^ 32) (hfit : call.FailuresFit config) :
    sendLedger config (calls ++ [call]) (call.after config) = sendLedger config calls call.before ∨
      SendLedger.Step (sendLedger config calls call.before)
        (sendLedger config (calls ++ [call]) (call.after config)) := by
  cases call.sendStep config with
  | untouched hunsent hscheduler hrecovery =>
    exact .inl (sendLedger_untouched hunsent (by rw [hscheduler]) hrecovery)
  | liveness _ _ _ hunsent hpushed hrecovery =>
    exact .inl (sendLedger_untouched hunsent hpushed.failures_eq hrecovery)
  | acked _ key _ _ haccepted hpolled hscheduler hrecovery hacknowledged =>
    exact sendLedger_acked haccepted hpolled hscheduler hrecovery hacknowledged
  | polled nowMs txLen ticked hop haccepted hacknowledged hticked _ _ hstep =>
    exact .inr (sendLedger_polled hrun.senderInv hop haccepted hacknowledged hticked hstep hfit)
  | sent m haccepted hvalid hid hpolled hacknowledged hroom hafter =>
    rcases hvalid.kind with hdata | hlog
    · -- the id is new, so nothing was ever filed under it
      have hunsent : (sendLedger config calls call.before).sent m.messageId = ∅ := by
        apply Set.eq_empty_of_forall_notMem
        rintro key ⟨c, hc, m', hm', -, hid', -⟩
        rw [sendCount, List.countP_append, List.countP_singleton,
          if_pos (isSend_of_accepted haccepted).1] at hcount
        exact hrun.idInv.fresh hcount hc hm' (hid'.trans hid)
      have hmode : m.mode = .reliable := by simp [SentMessage.mode, hdata]
      refine .inr ?_
      rw [sendLedger_sent haccepted hdata hmode hpolled hacknowledged hroom hafter hunsent]
      refine .send _ _ hunsent ⟨_, 0, m.count_pos config, rfl⟩ ?_
      intro other
      rw [Set.disjoint_left]
      rintro key ⟨i, -, rfl⟩ hother
      obtain rfl : m.messageId = other := mem_sent_messageId hother
      rw [hunsent] at hother
      exact hother
    · -- a LOG message is not part of the ledger
      have hmode : m.mode ≠ .reliable := by simp [SentMessage.mode, hlog]
      refine .inl (SendLedger.ext ?_ ?_ ?_ ?_)
      · refine sent_snoc_of_none ?_ _ _
        intro m' hm'
        rw [haccepted] at hm'
        obtain rfl := Option.some.inj hm'
        simp [hlog]
      · show {key | ∃ p ∈ (call.after config).recovery.packets, p.key = key} = _
        rw [hafter, recovery_queueMessage hroom hmode, recovery_withNextId]
        rfl
      · exact acked_snoc_of_none hacknowledged _ _
      · apply failed_snoc_of_not_polled hpolled
        rw [hafter, failures_queueMessage hroom, scheduler_withNextId]

theorem sendLedger_new :
    sendLedger config [] (.new config.initialMessageId) = SendLedger.empty := by
  have hpackets : (EngineState.new config.initialMessageId).recovery.packets = [] :=
    InFlightPackets.toList_new
  refine SendLedger.ext ?_ ?_ ?_ ?_
  · funext id
    simp [sendLedger, SendLedger.empty]
  · simp [sendLedger, SendLedger.empty, hpackets]
  · simp [sendLedger, SendLedger.empty]
  · funext id
    rfl

/-- The ledger of every run whose failures fit is sound. -/
theorem PacketRun.sendLedger_sound (hrun : PacketRun config calls st)
    (hcount : sendCount calls < 2 ^ 32) (hfit : ∀ call ∈ calls, call.FailuresFit config) :
    (sendLedger config calls st).Sound := by
  induction hrun with
  | new =>
    rw [sendLedger_new]
    exact SendLedger.sound_empty
  | ingress ingress _ ih => exact ih hcount hfit
  | @call calls st op hrun ih =>
    have hbefore : sendCount calls ≤ sendCount (calls ++ [⟨st, op⟩]) := by
      rw [sendCount, sendCount, List.countP_append]
      omega
    have hsound := ih (by omega) (fun c hc => hfit c (List.mem_append_left _ hc))
    rcases sendLedger_step hrun hcount (hfit _ (by simp)) with heq | hstep
    · rw [heq]
      exact hsound
    · exact hsound.step hstep

end Ledger

/-! ## The verdict -/

section Verdict
variable {config : EngineConfig} {calls : List Call} {st : EngineState}

/-- Some packet of the message is in flight. -/
def HasInFlight (st : EngineState) (m : SentMessage) : Prop :=
  ∃ p ∈ st.recovery.packets, p.packetType = .data ∧ p.messageId = m.messageId

/-- Every packet of the message was removed by an acknowledgement. -/
def AllAcknowledged (config : EngineConfig) (calls : List Call) (m : SentMessage) : Prop :=
  ∀ i < m.count config, ∃ call ∈ calls, call.acknowledged = some (m.packetKey i)

/-- Exactly one failure of the message is queued or has been returned. -/
def FailedOnce (config : EngineConfig) (calls : List Call) (st : EngineState)
    (m : SentMessage) : Prop :=
  queuedFailures st m.messageId + returnedFailures config calls m.messageId = 1

/-- What the ledger files under the id of an accepted message. -/
theorem mem_sent_iff (hrun : PacketRun config calls st) (hcount : sendCount calls < 2 ^ 32)
    {send : Call} (hsend : send ∈ calls) {m : SentMessage} (hm : send.accepted config = some m)
    (hdata : m.packetType = .data) {key : PacketKey} :
    key ∈ (sendLedger config calls st).sent m.messageId ↔ ∃ i < m.count config, key = m.packetKey i := by
  constructor
  · rintro ⟨c, hc, m', hm', -, hid, hkey⟩
    obtain rfl := hrun.accepted_unique hcount hc hsend hm' hm hid
    exact hkey
  · exact fun hkey => ⟨send, hsend, m, hm, hdata, rfl, hkey⟩

/-- **Every reliable message has exactly one verdict**, in every state of every run in which the
failures of each tick fit the scheduler: it has packets in flight, or all its packets were
acknowledged, or it failed once. -/
theorem reliable_verdict {allowed : EngineState → EngineOp → Prop}
    (hrun : EngineRun config allowed calls st) (hcount : sendCount calls < 2 ^ 32)
    (hfit : ∀ call ∈ calls, call.FailuresFit config)
    {send : Call} (hsend : send ∈ calls) {m : SentMessage} (hm : send.accepted config = some m)
    (hdata : m.packetType = .data) :
    ((HasInFlight st m ∧ ¬ AllAcknowledged config calls m ∧ ¬ FailedOnce config calls st m) ∨
      (¬ HasInFlight st m ∧ AllAcknowledged config calls m ∧ ¬ FailedOnce config calls st m) ∨
      (¬ HasInFlight st m ∧ ¬ AllAcknowledged config calls m ∧ FailedOnce config calls st m)) ∧
    returnedFailures config calls m.messageId ≤ 1 := by
  have hpackets := hrun.packetRun
  have hkey {key : PacketKey} : key ∈ (sendLedger config calls st).sent m.messageId ↔
      ∃ i < m.count config, key = m.packetKey i := mem_sent_iff hpackets hcount hsend hm hdata
  have hflight : HasInFlight st m ↔ ∃ key ∈ (sendLedger config calls st).sent m.messageId,
      key ∈ (sendLedger config calls st).inFlight := by
    constructor
    · rintro ⟨p, hp, -, hid⟩
      obtain ⟨hmessage, hsent⟩ := mem_sent_of_tracks st (hpackets.senderInv.inFlight p hp)
      have hkeyId : p.messageId = p.key.messageId := congrArg Prod.snd hmessage
      exact ⟨p.key, by rwa [← hid, hkeyId], p, hp, rfl⟩
    · rintro ⟨key, hsent, p, hp, rfl⟩
      obtain ⟨hmessage, -⟩ := mem_sent_of_tracks st (hpackets.senderInv.inFlight p hp)
      refine ⟨p, hp, congrArg Prod.fst hmessage, ?_⟩
      rw [show p.messageId = p.key.messageId from congrArg Prod.snd hmessage]
      exact mem_sent_messageId hsent
  have hacked : AllAcknowledged config calls m ↔
      ∀ key ∈ (sendLedger config calls st).sent m.messageId,
        key ∈ (sendLedger config calls st).acked := by
    constructor
    · intro h key hsent
      obtain ⟨i, hi, rfl⟩ := hkey.mp hsent
      exact h i hi
    · exact fun h i hi => h _ (hkey.mpr ⟨i, hi, rfl⟩)
  have hfailed : (sendLedger config calls st).failed m.messageId =
      queuedFailures st m.messageId + returnedFailures config calls m.messageId := rfl
  have hnone : (∀ key ∈ (sendLedger config calls st).sent m.messageId,
      key ∉ (sendLedger config calls st).inFlight) → ¬ HasInFlight st m := by
    intro h hin
    obtain ⟨key, hsent, hf⟩ := hflight.mp hin
    exact h key hsent hf
  -- the ledger has one verdict for a message with packets, and every message has a first one
  have hverdict := (hpackets.sendLedger_sound hcount hfit).verdict
    ⟨_, hkey.mpr ⟨0, m.count_pos config, rfl⟩⟩
  rw [hfailed, ← hflight, ← hacked] at hverdict
  unfold FailedOnce
  rcases hverdict with ⟨hin, hnot, hzero⟩ | ⟨hno, hall, hzero⟩ | ⟨hno, hnot, hone⟩
  · exact ⟨.inl ⟨hin, hnot, by omega⟩, by omega⟩
  · exact ⟨.inr (.inl ⟨hnone hno, hall, by omega⟩), by omega⟩
  · exact ⟨.inr (.inr ⟨hnone hno, hnot, hone⟩), by omega⟩

/-! ### Scripts -/

/-- One byte per fragment and no retransmission. -/
def oneAttempt : EngineConfig :=
  { EngineConfig.default with fragmentBytes := 1, maxRetransmitAttempts := 0 }

/-- A message is transmitted and times out. -/
def failingScript : List EngineOp := [.send [7], .poll 0 128, .poll 50 128]

theorem failingScript_fits :
    let run := runOps oneAttempt failingScript (.new oneAttempt.initialMessageId)
    scriptSucceeds oneAttempt failingScript (.new oneAttempt.initialMessageId) = true ∧
      sendCount run.1 = 1 ∧ (∀ call ∈ run.1, call.FailuresFit oneAttempt) ∧
      (run.1.any fun send =>
        match send.accepted oneAttempt with
        | some m => m.packetType == .data &&
            queuedFailures run.2 m.messageId + returnedFailures oneAttempt run.1 m.messageId == 1
        | none => false) = true := by
  decide +kernel

/-- The message of the script failed once, and has no other verdict. -/
theorem reliable_verdict_failing : ∃ (calls : List Call) (st : EngineState) (m : SentMessage),
    EngineRun oneAttempt (NoError oneAttempt) calls st ∧ FailedOnce oneAttempt calls st m ∧
      ¬ HasInFlight st m ∧ ¬ AllAcknowledged oneAttempt calls m ∧
      returnedFailures oneAttempt calls m.messageId ≤ 1 := by
  obtain ⟨hsucceeds, hcount, hfit, hany⟩ := failingScript_fits
  have hrun := EngineRun.new.script hsucceeds
  rw [List.nil_append] at hrun
  obtain ⟨send, hsend, hm⟩ := List.any_eq_true.mp hany
  split at hm
  · rename_i m haccepted
    rw [Bool.and_eq_true, beq_iff_eq, beq_iff_eq] at hm
    obtain ⟨hverdict, hreturned⟩ := reliable_verdict hrun (by rw [hcount]; decide) hfit hsend
      haccepted hm.1
    have hone : FailedOnce oneAttempt _ _ m := hm.2
    rcases hverdict with ⟨-, -, hnot⟩ | ⟨-, -, hnot⟩ | ⟨hno, hnotall, -⟩
    · exact absurd hone hnot
    · exact absurd hone hnot
    · exact ⟨_, _, m, hrun, hone, hno, hnotall, hreturned⟩
  · cases hm

/-- A message is transmitted, a log of sixteen packets fills the scheduler, and the message times
out. -/
def vanishingScript : List EngineOp :=
  [.send [7], .poll 0 128, .sendLog (List.replicate 16 0), .poll 50 128]

/-- Whether the message has none of the three verdicts. -/
def lacksVerdict (config : EngineConfig) (calls : List Call) (st : EngineState)
    (m : SentMessage) : Bool :=
  m.packetType == .data && m.messageId != 0 &&
    st.recovery.packets.all (fun p => p.messageId != m.messageId) &&
    (List.range (m.count config)).any (fun i => calls.all fun call =>
      call.acknowledged != some (m.packetKey i)) &&
    queuedFailures st m.messageId + returnedFailures config calls m.messageId == 0

theorem vanishingScript_lacksVerdict :
    let run := runOps oneAttempt vanishingScript (.new oneAttempt.initialMessageId)
    scriptSucceeds oneAttempt vanishingScript (.new oneAttempt.initialMessageId) = true ∧
      sendCount run.1 = 2 ∧ (run.1.any fun send =>
        match send.accepted oneAttempt with
        | some m => lacksVerdict oneAttempt run.1 run.2 m
        | none => false) = true := by
  decide +kernel

/-- A message can vanish without a verdict when the scheduler is full. -/
theorem not_reliable_verdict : ¬ ∀ (config : EngineConfig) (calls : List Call) (st : EngineState),
    EngineRun config (NoError config) calls st → sendCount calls < 2 ^ 32 →
    ∀ send ∈ calls, ∀ m, send.accepted config = some m → m.packetType = .data → m.messageId ≠ 0 →
    HasInFlight st m ∨ AllAcknowledged config calls m ∨ FailedOnce config calls st m := by
  intro h
  obtain ⟨hsucceeds, hcount, hlacks⟩ := vanishingScript_lacksVerdict
  obtain ⟨send, hsend, hm⟩ := List.any_eq_true.mp hlacks
  split at hm
  · rename_i m haccepted
    simp only [lacksVerdict, Bool.and_eq_true, beq_iff_eq, bne_iff_ne, List.all_eq_true,
      List.any_eq_true, List.mem_range] at hm
    obtain ⟨⟨⟨⟨hdata, hid⟩, hflight⟩, i, hi, hnone⟩, hfailed⟩ := hm
    rcases h _ _ _ (EngineRun.new.script hsucceeds) (by rw [List.nil_append, hcount]; decide) send
      hsend m haccepted hdata hid with ⟨p, hp, -, hpid⟩ | hacked | hone
    · exact hflight p hp hpid
    · obtain ⟨call, hc, hack⟩ := hacked i hi
      exact hnone call hc hack
    · have : queuedFailures _ m.messageId + returnedFailures oneAttempt _ m.messageId = 1 := hone
      rw [List.nil_append, hfailed] at this
      cases this
  · cases hm

end Verdict

end Msrt
