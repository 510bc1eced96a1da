import Msrt.Link

/-! # What arrives over a link

The guarantees of one direction of a link, from the sender's `send` to the receiver's delivery
queue.  What is delivered is a message the sender accepted (`delivered_genuine`); a message is pushed
again only after the receiver's duplicate table has turned over (`pushed_again_after_turnover`); and
a message whose packets were all acknowledged was pushed, as long as the receiver drops no
incomplete message (`acknowledged_pushed`).
-/

namespace Msrt
open EngineState

section Guarantees
variable {sender receiver : EngineConfig} {back : List Call → Bytes → Prop} {a b : Party}

/-- A fragment handed to reassembly is a fragment of a message of the other side. -/
theorem Origin.observed {other : EngineConfig} {otherCalls : List Call} {call : Call} {bytes : Bytes}
    (horigin : Origin other otherCalls bytes) (hop : call.op = .packet bytes)
    {fragment : MessageFragment} (h : call.observed = some fragment) :
    ∃ c ∈ otherCalls, ∃ m, c.accepted other = some m ∧
      ∃ i < m.count other, fragment = m.messageFragment other i := by
  unfold Call.observed at h
  rw [hop] at h
  dsimp only at h
  cases horigin with
  | @fragment c m i hc hm hi =>
    refine ⟨c, hc, m, hm, i, hi, ?_⟩
    rcases SentMessage.decode_packet (accepted_valid hm).1 hi with
      ⟨-, header, hdec⟩ | ⟨-, header, hdec⟩
    · rw [hdec] at h
      dsimp only at h
      split at h
      · cases h
      · exact (Option.some.inj h).symm
    · rw [hdec] at h
      exact (Option.some.inj h).symm
  | ack hkey => rw [decodePacketBytes_ackPacketBytes] at h; cases h
  | ping => rw [decodePacketBytes_ping] at h; cases h
  | pong => rw [decodePacketBytes_pong] at h; cases h

theorem op_of_observed {call : Call} {fragment : MessageFragment}
    (h : call.observed = some fragment) : ∃ bytes, call.op = .packet bytes := by
  unfold Call.observed at h
  split at h
  · rename_i bytes hop
    exact ⟨bytes, hop⟩
  · cases h

theorem op_of_acknowledged {call : Call} {key : PacketKey} (h : call.acknowledged = some key) :
    ∃ bytes, call.op = .packet bytes := by
  unfold Call.acknowledged at h
  split at h
  · rename_i bytes hop
    exact ⟨bytes, hop⟩
  · cases h

theorem Fed.observed {other : EngineConfig} {otherCalls : List Call} {party : Party}
    {integrity : IntegrityConfig} (hfed : Fed integrity (Origin other otherCalls) party) {call : Call}
    (hc : call ∈ party.calls) {fragment : MessageFragment} (h : call.observed = some fragment) :
    ∃ c ∈ otherCalls, ∃ m, c.accepted other = some m ∧
      ∃ i < m.count other, fragment = m.messageFragment other i := by
  obtain ⟨bytes, hop⟩ := op_of_observed h
  exact (hfed.handled call hc bytes hop).observed hop h

/-- Every fragment is filed under the message it belongs to. -/
theorem Fed.ownFragments {other : EngineConfig} {otherCalls : List Call} {otherState : EngineState}
    {integrity : IntegrityConfig} {party : Party}
    (hfed : Fed integrity (Origin other otherCalls) party)
    (hother : PacketRun other otherCalls otherState) (hcount : sendCount otherCalls < 2 ^ 32)
    {c : Call} (hc : c ∈ otherCalls) {m : SentMessage} (hm : c.accepted other = some m) :
    OwnFragments other m party.calls := by
  intro call hcall fragment hobserved hkey
  obtain ⟨c', hc', m', hm', i, hi, rfl⟩ := hfed.observed hcall hobserved
  obtain rfl := hother.accepted_unique hcount hc' hc hm' hm (congrArg MessageKey.messageId hkey)
  exact ⟨i, hi, rfl⟩

/-- What is pushed was handed to reassembly under its key. -/
theorem PacketRun.observed_of_pushed {config : EngineConfig} {calls : List Call} {st : EngineState}
    (h : PacketRun config calls st) {call : Call} (hc : call ∈ calls) {e : MessageEvent}
    (hpushed : call.pushed = some e) :
    ∃ fragment, call.observed = some fragment ∧ e.packetType = fragment.packetType ∧
      e.messageId = fragment.messageId := by
  obtain ⟨before, after, rfl⟩ := List.append_of_mem hc
  have hd := (h.of_split rfl).receiverInv.distinct
  have hkey {fragment : MessageFragment} (hp : call.pushed =
      (call.reassembled fragment).map ({ · with packetType := fragment.packetType })) :
      e.packetType = fragment.packetType ∧ e.messageId = fragment.messageId := by
    rw [hpushed] at hp
    obtain ⟨event, hevent, rfl⟩ := Option.map_eq_some_iff.mp hp.symm
    exact ⟨rfl, (key_of_reassembled hd hevent).2⟩
  cases call.receiveStep config with
  | untouched hsilent => rw [hsilent.pushed] at hpushed; cases hpushed
  | poll _ _ _ hsilent => rw [hsilent.pushed] at hpushed; cases hpushed
  | duplicate _ hsilent => rw [hsilent.pushed] at hpushed; cases hpushed
  | observed fragment hobserved hp => exact ⟨fragment, hobserved, hkey hp⟩
  | accepted fragment hobserved hp => exact ⟨fragment, hobserved, hkey hp⟩

/-- **Delivered content is genuine.**  Every message the receiver's poll returns has the packet
type, the id and the bytes of one message the sender had accepted under that id. -/
theorem delivered_genuine (hsame : sender.integrity = receiver.integrity)
    (hrun : LinkRun sender receiver back a b) (hcount : sendCount a.calls < 2 ^ 32)
    {nowMs txLen : Nat} {e : MessageEvent}
    (hpoll : (b.state.poll receiver nowMs txLen).2 = .ok (.message e)) :
    ∃ call ∈ a.calls, ∃ m, call.accepted sender = some m ∧ e.packetType = m.packetType ∧
      e.messageId = m.messageId ∧ e.asBytes = m.bytes := by
  obtain ⟨hleft, hright⟩ := hrun.runs
  have hfed := hrun.fed hsame
  -- the event was waiting in the delivery queue, so a packet pushed it
  have hmem := mem_message_of_poll hpoll
  obtain ⟨call, hc, hpushed⟩ := hright.receiverInv.messages e hmem
  obtain ⟨fragment, hobserved, htype, hid⟩ := hright.observed_of_pushed hc hpushed
  obtain ⟨c, hc', m, hm, i, hi, rfl⟩ := hfed.observed hc hobserved
  have hpushes : call.pushes m.messageKey = true := by
    simp only [Call.pushes, hpushed, htype, hid]
    simp [SentMessage.messageFragment, SentMessage.messageKey]
  obtain ⟨e', hpushed', htype', hid', hbytes⟩ := hright.pushed_genuine (accepted_valid hm).1
    (hfed.ownFragments hleft hcount hc' hm) hc hpushes
  rw [hpushed] at hpushed'
  obtain rfl := Option.some.inj hpushed'
  exact ⟨c, hc', m, hm, htype', hid', hbytes⟩

theorem poll_eq_of_delivered {config : EngineConfig} {st : EngineState} {nowMs txLen : Nat}
    {e : MessageEvent} (h : Call.delivered config ⟨st, .poll nowMs txLen⟩ = some e) :
    (st.poll config nowMs txLen).2 = .ok (.message e) := by
  rcases hp : (st.poll config nowMs txLen).2 with error | result
  · simp [Call.delivered, Call.polled, hp] at h
  · cases result with
    | message message => simpa [Call.delivered, Call.polled, hp] using h
    | transmit | sendFailed | idle => simp [Call.delivered, Call.polled, hp] at h

/-- One byte per fragment. -/
def tinyFragments : EngineConfig := { EngineConfig.default with fragmentBytes := 1 }

/-- A message of three packets.  The last one arrives first, the first one arrives in two chunks, and all
acknowledgements come back in one. -/
def threePacketSchedule : List LinkOp :=
  .left (.send [7, 8, 9]) :: List.replicate 3 (.left (.poll 0 128)) ++
  [.forward [2, 0], .forward [0, 1]] ++ List.replicate 4 (.right (.poll 0 128)) ++
  [.backward [3, 0, 1, 2]]

/-- The message is delivered by the receiver's next poll, with its bytes in order. -/
theorem delivered_genuine_three_packets : ∃ (a b : Party) (e : MessageEvent),
    LinkRun tinyFragments tinyFragments (Carries tinyFragments) a b ∧
      (b.state.poll tinyFragments 0 128).2 = .ok (.message e) ∧ e.asBytes = [7, 8, 9] ∧
      ∃ call ∈ a.calls, ∃ m, call.accepted tinyFragments = some m ∧ e.packetType = m.packetType ∧
        e.messageId = m.messageId ∧ e.asBytes = m.bytes := by
  have hrun := linkRun_runSchedule tinyFragments tinyFragments threePacketSchedule
  have hcount :
      sendCount (runSchedule tinyFragments tinyFragments threePacketSchedule).1.calls < 2 ^ 32 := by
    decide +kernel
  have hmessage : (Call.delivered tinyFragments
      ⟨(runSchedule tinyFragments tinyFragments threePacketSchedule).2.state, .poll 0 128⟩).any
        (fun e => e.asBytes == [7, 8, 9]) = true := by
    decide +kernel
  obtain ⟨e, hdelivered, hbytes⟩ := (Option.any_eq_true _ _).mp hmessage
  have hpoll := poll_eq_of_delivered hdelivered
  exact ⟨_, _, e, hrun, hpoll, beq_iff_eq.mp hbytes, delivered_genuine rfl hrun hcount hpoll⟩

/-- **A message is pushed again only after the duplicate table has turned over.**  Between two
pushes of one DATA message the receiver accepts at least sixteen DATA packets. -/
theorem pushed_again_after_turnover (hsame : sender.integrity = receiver.integrity)
    (hrun : LinkRun sender receiver back a b) (hcount : sendCount a.calls < 2 ^ 32)
    {send : Call} (hsend : send ∈ a.calls) {m : SentMessage} (hm : send.accepted sender = some m)
    (hdata : m.packetType = .data) {before mid after : List Call} {first second : Call}
    (hcalls : b.calls = before ++ first :: (mid ++ second :: after))
    (hfirst : first.pushes m.messageKey = true) (hsecond : second.pushes m.messageKey = true) :
    maxInFlightPackets ≤ (acceptedKeys mid).length := by
  obtain ⟨hleft, hright⟩ := hrun.runs
  have hown := (hrun.fed hsame).ownFragments hleft hcount hsend hm
  rw [hcalls] at hright hown
  exact hright.pushes_apart (accepted_valid hm).1 hdata hown hfirst hsecond

/-- A message of one packet is acknowledged, sixteen other packets are accepted, and the first
envelope arrives once more. -/
def turnoverSchedule : List LinkOp :=
  [.left (.send [7]), .left (.poll 0 128), .forward [0], .right (.poll 0 128), .backward [0],
    .left (.send (List.replicate 16 0))] ++ List.replicate 16 (.left (.poll 0 128)) ++
  [.forward ((List.range 16).map (· + 1)), .right (.poll 0 128), .forward [0]]

theorem turnoverSchedule_pushes :
    let link := runSchedule tinyFragments tinyFragments turnoverSchedule
    sendCount link.1.calls = 2 ∧ (link.1.calls.any fun call =>
      match call.accepted tinyFragments with
      | some m => m.packetType == .data && link.2.calls.countP (Call.pushes m.messageKey) == 2
      | none => false) = true := by
  decide +kernel

/-- The first message of the schedule, and its two pushes. -/
theorem exists_pushed_twice : ∃ a b : Party,
    LinkRun tinyFragments tinyFragments (Carries tinyFragments) a b ∧
      sendCount a.calls < 2 ^ 32 ∧ ∃ send ∈ a.calls, ∃ m, send.accepted tinyFragments = some m ∧
        m.packetType = .data ∧ b.calls.countP (Call.pushes m.messageKey) = 2 := by
  obtain ⟨hcount, hany⟩ := turnoverSchedule_pushes
  refine ⟨_, _, linkRun_runSchedule tinyFragments tinyFragments turnoverSchedule, ?_, ?_⟩
  · rw [hcount]
    decide
  · obtain ⟨send, hsend, hm⟩ := List.any_eq_true.mp hany
    split at hm
    · rename_i m haccepted
      rw [Bool.and_eq_true, beq_iff_eq, beq_iff_eq] at hm
      exact ⟨send, hsend, m, haccepted, hm.1, hm.2⟩
    · cases hm

/-- A DATA message can be pushed twice. -/
theorem not_pushed_at_most_once : ¬ ∀ (sender receiver : EngineConfig) (a b : Party),
    sender.integrity = receiver.integrity → LinkRun sender receiver (Carries receiver) a b →
    sendCount a.calls < 2 ^ 32 → ∀ send ∈ a.calls, ∀ m, send.accepted sender = some m →
    m.packetType = .data → b.calls.countP (Call.pushes m.messageKey) ≤ 1 := by
  intro h
  obtain ⟨a, b, hrun, hcount, send, hsend, m, hm, hdata, htwice⟩ := exists_pushed_twice
  have := h _ _ a b rfl hrun hcount send hsend m hm hdata
  omega

theorem exists_split_of_countP {α : Type*} {p : α → Bool} {l : List α} (h : 2 ≤ l.countP p) :
    ∃ before x mid y after, l = before ++ x :: (mid ++ y :: after) ∧ p x = true ∧ p y = true := by
  rw [List.countP_eq_length_filter] at h
  obtain ⟨x, y, rest, hfilter⟩ : ∃ x y rest, l.filter p = x :: y :: rest := by
    match hl : l.filter p, h with
    | x :: y :: rest, _ => exact ⟨x, y, rest, rfl⟩
  obtain ⟨before, tail, rfl, -, hx, hrest⟩ := List.filter_eq_cons_iff.mp hfilter
  obtain ⟨mid, after, rfl, -, hy, -⟩ := List.filter_eq_cons_iff.mp hrest
  exact ⟨before, x, mid, y, after, rfl, hx, hy⟩

/-- The two pushes of the schedule have sixteen acceptances in between. -/
theorem pushed_again_after_sixteen : ∃ (a b : Party) (m : SentMessage) (before mid after : List Call)
    (first second : Call),
    LinkRun tinyFragments tinyFragments (Carries tinyFragments) a b ∧
      b.calls = before ++ first :: (mid ++ second :: after) ∧
      first.pushes m.messageKey = true ∧ second.pushes m.messageKey = true ∧
      16 ≤ (acceptedKeys mid).length := by
  obtain ⟨a, b, hrun, hcount, send, hsend, m, hm, hdata, htwice⟩ := exists_pushed_twice
  obtain ⟨before, first, mid, second, after, hcalls, hfirst, hsecond⟩ :=
    exists_split_of_countP (Nat.le_of_eq htwice.symm)
  exact ⟨a, b, m, before, mid, after, first, second, hrun, hcalls, hfirst, hsecond,
    pushed_again_after_turnover rfl hrun hcount hsend hm hdata hcalls hfirst hsecond⟩

theorem packetType_of_acceptedFragment {call : Call} {fragment : MessageFragment}
    (config : EngineConfig) (h : call.acceptedFragment = some fragment) :
    fragment.packetType = .data ∧ call.observed = some fragment := by
  cases call.receiveStep config with
  | untouched hsilent => rw [hsilent.accepted] at h; cases h
  | poll _ _ _ hsilent => rw [hsilent.accepted] at h; cases h
  | duplicate _ hsilent => rw [hsilent.accepted] at h; cases h
  | observed _ _ _ _ hnone => rw [hnone] at h; cases h
  | accepted f hobserved _ _ haccepted hdata =>
    rw [haccepted] at h
    obtain rfl := Option.some.inj h
    exact ⟨hdata, hobserved⟩

/-- An acknowledgement of a fragment of `m` answers its acceptance. -/
theorem accepted_of_key {config : EngineConfig} {calls : List Call} {m : SentMessage}
    (hown : OwnFragments config m calls) (hdata : m.packetType = .data)
    (hcount : m.count config ≤ maxEvents) {i : Nat} (hi : i < m.count config)
    (hkey : m.packetKey i ∈ acceptedKeys calls) : Accepted config m calls i := by
  unfold maxEvents at hcount
  obtain ⟨call, hc, fragment, haccepted, hfragment⟩ := mem_acceptedKeys.mp hkey
  obtain ⟨hkind, hobserved⟩ := packetType_of_acceptedFragment config haccepted
  have hid : fragment.messageId = m.messageId := congrArg PacketKey.messageId hfragment
  obtain ⟨k, hk, rfl⟩ := hown call hc fragment hobserved (by
    rw [MessageFragment.messageKey, hkind, hid, SentMessage.messageKey, hdata])
  have hik : i = k := packetKey_inj (by omega) (by omega) hfragment.symm
  exact ⟨call, hc, hik ▸ haccepted⟩

/-- An acknowledgement handled by a side comes from an acceptance on the other side. -/
theorem Origin.acknowledged {other : EngineConfig} {otherCalls : List Call} {call : Call}
    {bytes : Bytes} (horigin : Origin other otherCalls bytes) (hop : call.op = .packet bytes)
    {key : PacketKey} (h : call.acknowledged = some key) : key ∈ acceptedKeys otherCalls := by
  unfold Call.acknowledged at h
  rw [hop] at h
  dsimp only at h
  cases horigin with
  | @fragment c m i hc hm hi =>
    rcases SentMessage.decode_packet (accepted_valid hm).1 hi with
      ⟨-, header, hdec⟩ | ⟨-, header, hdec⟩ <;> (rw [hdec] at h; cases h)
  | @ack key' hkey =>
    rw [decodePacketBytes_ackPacketBytes] at h
    dsimp only at h
    split at h
    · exact Option.some.inj h ▸ hkey
    · cases h
  | ping => rw [decodePacketBytes_ping] at h; cases h
  | pong => rw [decodePacketBytes_pong] at h; cases h

theorem Fed.acknowledged {other : EngineConfig} {otherCalls : List Call} {party : Party}
    {integrity : IntegrityConfig} (hfed : Fed integrity (Origin other otherCalls) party) {call : Call}
    (hc : call ∈ party.calls) {key : PacketKey} (h : call.acknowledged = some key) :
    key ∈ acceptedKeys otherCalls := by
  obtain ⟨bytes, hop⟩ := op_of_acknowledged h
  exact (hfed.handled call hc bytes hop).acknowledged hop h

/-- **No acknowledged message is lost** as long as the receiver drops no incomplete message: if
every packet of a DATA message was removed from the in-flight table by an acknowledgement, the
receiver pushed that message. -/
theorem acknowledged_pushed (hsame : sender.integrity = receiver.integrity)
    (hrun : LinkRun sender receiver (Carries receiver) a b) (hcount : sendCount a.calls < 2 ^ 32)
    (hyoung : ∀ call ∈ b.calls, call.expiresSlot receiver = false)
    (hroom : ∀ call ∈ b.calls, call.evictsSlot = false)
    {send : Call} (hsend : send ∈ a.calls) {m : SentMessage} (hm : send.accepted sender = some m)
    (hdata : m.packetType = .data)
    (hacked : ∀ i < m.count sender, ∃ call ∈ a.calls, call.acknowledged = some (m.packetKey i)) :
    ∃ call ∈ b.calls, ∃ e, call.pushed = some e ∧ e.packetType = .data ∧
      e.messageId = m.messageId ∧ e.asBytes = m.bytes := by
  obtain ⟨hleft, hright⟩ := hrun.runs
  obtain ⟨hvalid, hfragments⟩ := accepted_valid hm
  have hown := (hrun.fed hsame).ownFragments hleft hcount hsend hm
  have hall : ∀ i < m.count sender, Accepted sender m b.calls i := by
    intro i hi
    obtain ⟨call, hc, hack⟩ := hacked i hi
    exact accepted_of_key hown hdata hfragments hi ((hrun.fed_back hsame).acknowledged hc hack)
  obtain ⟨call, hc, hpushes⟩ := hright.pushed_of_accepted hvalid hdata hown hyoung hroom hall
  obtain ⟨e, hpushed, htype, hid, hbytes⟩ := hright.pushed_genuine hvalid hown hc hpushes
  exact ⟨call, hc, e, hpushed, htype.trans hdata, hid, hbytes⟩

/-- The three packets of the schedule were acknowledged, and so their message was pushed. -/
theorem acknowledged_pushed_three_packets : ∃ (a b : Party) (m : SentMessage),
    LinkRun tinyFragments tinyFragments (Carries tinyFragments) a b ∧ m.count tinyFragments = 3 ∧
      (∀ i < m.count tinyFragments, ∃ call ∈ a.calls, call.acknowledged = some (m.packetKey i)) ∧
      ∃ call ∈ b.calls, ∃ e, call.pushed = some e ∧ e.packetType = .data ∧
        e.messageId = m.messageId ∧ e.asBytes = m.bytes := by
  have hrun := linkRun_runSchedule tinyFragments tinyFragments threePacketSchedule
  have hcount :
      sendCount (runSchedule tinyFragments tinyFragments threePacketSchedule).1.calls < 2 ^ 32 := by
    decide +kernel
  have hkept : ((runSchedule tinyFragments tinyFragments threePacketSchedule).2.calls.all fun call =>
      !call.expiresSlot tinyFragments && !call.evictsSlot) = true := by
    decide +kernel
  have hsent : ((runSchedule tinyFragments tinyFragments threePacketSchedule).1.calls.any fun send =>
      match send.accepted tinyFragments with
      | some m => m.packetType == .data && m.count tinyFragments == 3 &&
          (List.range (m.count tinyFragments)).all fun i =>
            (runSchedule tinyFragments tinyFragments threePacketSchedule).1.calls.any fun call =>
              call.acknowledged == some (m.packetKey i)
      | none => false) = true := by
    decide +kernel
  obtain ⟨send, hsend, hm⟩ := List.any_eq_true.mp hsent
  split at hm
  · rename_i m haccepted
    simp only [Bool.and_eq_true, beq_iff_eq, List.all_eq_true, List.mem_range, List.any_eq_true] at hm
    obtain ⟨⟨hdata, hthree⟩, hacked⟩ := hm
    have hdrop := List.all_eq_true.mp hkept
    simp only [Bool.and_eq_true, Bool.not_eq_true'] at hdrop
    exact ⟨_, _, m, hrun, hthree, hacked, acknowledged_pushed rfl hrun hcount
      (fun c hc => (hdrop c hc).1) (fun c hc => (hdrop c hc).2) hsend haccepted hdata hacked⟩
  · cases hm

/-- Five messages of two packets each: the first packet of the fifth one evicts the first message,
whose second packet is accepted after that. -/
def evictionSchedule : List LinkOp :=
  List.replicate 5 (.left (.send [1, 2])) ++ List.replicate 10 (.left (.poll 0 128)) ++
  [.forward [0, 2, 4, 6, 8, 1]] ++ List.replicate 6 (.right (.poll 0 128)) ++
  [.backward [0, 5]]

theorem evictionSchedule_loses :
    let link := runSchedule tinyFragments tinyFragments evictionSchedule
    sendCount link.1.calls = 5 ∧
      (link.2.calls.all fun call => !call.expiresSlot tinyFragments) = true ∧
      (link.1.calls.any fun send =>
        match send.accepted tinyFragments with
        | some m => m.packetType == .data && ((List.range (m.count tinyFragments)).all fun i =>
            link.1.calls.any fun call => call.acknowledged == some (m.packetKey i)) &&
            link.2.calls.all fun call => !call.pushes m.messageKey
        | none => false) = true := by
  decide +kernel

/-- A message can be acknowledged and lost when the receiver evicts it. -/
theorem not_acknowledged_pushed : ¬ ∀ (sender receiver : EngineConfig) (a b : Party),
    sender.integrity = receiver.integrity → LinkRun sender receiver (Carries receiver) a b →
    sendCount a.calls < 2 ^ 32 → (∀ call ∈ b.calls, call.expiresSlot receiver = false) →
    ∀ send ∈ a.calls, ∀ m, send.accepted sender = some m → m.packetType = .data →
    (∀ i < m.count sender, ∃ call ∈ a.calls, call.acknowledged = some (m.packetKey i)) →
    ∃ call ∈ b.calls, call.pushes m.messageKey = true := by
  intro h
  obtain ⟨hcount, hyoung, hlost⟩ := evictionSchedule_loses
  obtain ⟨send, hsend, hm⟩ := List.any_eq_true.mp hlost
  split at hm
  · rename_i m haccepted
    simp only [Bool.and_eq_true, beq_iff_eq, List.all_eq_true, List.mem_range, List.any_eq_true,
      Bool.not_eq_true'] at hm hyoung
    obtain ⟨call, hc, hpushes⟩ := h _ _ _ _ rfl
      (linkRun_runSchedule tinyFragments tinyFragments evictionSchedule)
      (by rw [hcount]; decide) hyoung send hsend m haccepted hm.1.1 hm.1.2
    rw [hm.2 call hc] at hpushes
    cases hpushes
  · cases hm

end Guarantees

end Msrt
