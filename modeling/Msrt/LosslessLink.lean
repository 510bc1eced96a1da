import Msrt.Transfer

/-! # A link that loses nothing is a queue

One exchange moves the line of messages on by one fragment.  The sender transmits the first fragment that
is left (`transmitted`), the receiver gathers it or has the message (`arrived`), and the acknowledgement
takes it out of the table of the sender (`acked`).  So, where the receiver polls often enough, it hands
over the messages in the order in which they were accepted, each one once and as it was sent, and when
nothing waits any more it has handed over all of them (`delivered_in_order`).
-/

namespace Msrt
open EngineState

/-! ## One exchange -/

theorem SentMessage.writesFrom_of_lt {sender : EngineConfig} {m : SentMessage} {k : Nat}
    (h : k < m.count sender) : m.writesFrom sender k =
      .event (.write (m.writeEvent sender k)) :: m.writesFrom sender (k + 1) := by
  rw [writesFrom, writesFrom, show m.count sender - k = m.count sender - (k + 1) + 1 by omega,
    List.range'_succ]
  rfl

theorem SentMessage.writesFrom_of_eq {sender : EngineConfig} {m : SentMessage} {k : Nat}
    (h : k + 1 = m.count sender) : m.writesFrom sender (k + 1) = [] := by
  rw [writesFrom, h, Nat.sub_self]
  rfl

/-- A slot that is young enough stays. -/
theorem ReassemblyState.Holds.expire {r : ReassemblyState} {key : MessageKey} {slot : ReassemblySlot}
    {nowMs timeoutMs : Nat} (h : r.Holds key slot) (hyoung : nowMs - slot.updatedAtMs < timeoutMs) :
    (r.expire nowMs timeoutMs).Holds key slot := by
  refine ⟨List.mem_map.mpr ⟨slot, h.mem, ?_⟩, h.active, h.key_eq⟩
  rw [if_neg]
  simp only [Bool.and_eq_true, decide_eq_true_eq, not_and, Nat.not_le]
  exact fun _ => hyoung

theorem waitingList_eq_nil {st : EngineState} (h : st.waitingList = []) :
    RingQueue.toList st.ack = [] ∧ st.scheduler.urgent = [] ∧
      RingQueue.toList st.message = [] ∧ st.scheduler.events .newData = [] := by
  simp only [waitingList, List.append_eq_nil_iff, List.map_eq_nil_iff] at h
  exact ⟨h.1.1.1, h.1.1.2, h.1.2, h.2⟩

section Exchange
variable {sender receiver : EngineConfig} {m : SentMessage} {k txLen nowMs peerMs : Nat}
  {rest pending : List (SentMessage × Nat)} {t : Transfer}

/-- The line once one more fragment of its first message was exchanged. -/
def nextLine (sender : EngineConfig) (m : SentMessage) (k : Nat) (rest : List (SentMessage × Nat)) :
    List (SentMessage × Nat) :=
  if k + 1 < m.count sender then (m, k + 1) :: rest else rest

/-- The acknowledgement that answers a fragment. -/
def SentMessage.answer? (m : SentMessage) (k : Nat) : Option PacketKey :=
  if m.packetType = .data then some (m.packetKey k) else none

theorem InTransit.untransmitted (h : InTransit sender receiver pending t) :
    Untransmitted t.left.state := fun p hp => (h.inFlight p hp).1

/-- The other messages of the line have other ids. -/
theorem InTransit.id_ne (h : InTransit sender receiver ((m, k) :: rest) t) {x : SentMessage × Nat}
    (hx : x ∈ rest) : x.1.messageId ≠ m.messageId := by
  intro hid
  have hids := h.ids
  rw [List.map_cons, List.nodup_cons] at hids
  exact hids.1 (List.mem_map.mpr ⟨x, hx, hid⟩)

theorem mem_nextLine {x : SentMessage × Nat} (hx : x ∈ nextLine sender m k rest) :
    (x = (m, k + 1) ∧ k + 1 < m.count sender) ∨ x ∈ rest := by
  unfold nextLine at hx
  split at hx
  · rename_i hlt
    rcases List.mem_cons.mp hx with rfl | hx
    · exact .inl ⟨rfl, hlt⟩
    · exact .inr hx
  · exact .inr hx

/-- The sender transmits the first fragment that is left. -/
theorem InTransit.transmitted (h : InTransit sender receiver ((m, k) :: rest) t)
    (htx : maxWireBytes ≤ txLen) :
    t.left.emits sender nowMs txLen = some (envelope sender.integrity (m.packet sender k)) ∧
      (t.left.state.poll sender nowMs txLen).1.waitingList =
        (nextLine sender m k rest).flatMap (fun x => x.1.writesFrom sender x.2) := by
  have hlt := h.taken_lt (m, k) List.mem_cons_self
  have hwaiting := h.waiting
  rw [List.flatMap_cons, SentMessage.writesFrom_of_lt hlt, List.cons_append] at hwaiting
  obtain ⟨hwire, -, hrest⟩ :=
    @Untransmitted.seen txLen t.left sender nowMs h.untransmitted htx
  have hrest : (t.left.state.poll sender nowMs txLen).1.waitingList = _ := hrest
  rw [hwaiting] at hwire hrest
  refine ⟨?_, hrest.trans ?_⟩
  · rw [hwire, ← m.wire_bytes]
    rfl
  · rw [List.tail_cons, nextLine]
    by_cases hmore : k + 1 < m.count sender
    · rw [if_pos hmore, List.flatMap_cons]
    · have hlast : k + 1 = m.count sender := Nat.le_antisymm hlt (Nat.not_lt.mp hmore)
      rw [if_neg hmore, SentMessage.writesFrom_of_eq hlast, List.nil_append]

/-- What is in flight behind the transmission: the packet itself and packets that were not transmitted
yet, each one of a message in line. -/
theorem InTransit.inFlight_transmitted (h : InTransit sender receiver ((m, k) :: rest) t)
    (htx : maxWireBytes ≤ txLen) {p : InFlightPacket}
    (hp : p ∈ (t.left.state.poll sender nowMs txLen).1.recovery.packets)
    (hother : m.packetType = .data → p.key ≠ m.packetKey k) :
    p.sent = false ∧ ∃ x ∈ nextLine sender m k rest, x.1.packetType = .data ∧
      ∃ i, x.2 ≤ i ∧ i < x.1.count sender ∧ p.key = x.1.packetKey i := by
  have hlt := h.taken_lt (m, k) List.mem_cons_self
  have hwaiting := h.waiting
  rw [List.flatMap_cons, SentMessage.writesFrom_of_lt hlt, List.cons_append] at hwaiting
  obtain ⟨-, -, hrecovery⟩ :=
    @Untransmitted.poll_cons sender _ nowMs txLen h.untransmitted _ _ hwaiting htx
  rw [hrecovery] at hp
  obtain ⟨q, hq, hpq⟩ := mem_packets_noteWrite.mp hp
  rw [(h.untransmitted.tick sender nowMs).2] at hq
  obtain ⟨hunsent, x, hx, hdata, i, hle, hi, hkey⟩ := h.inFlight q hq
  -- a packet with the key of the fragment is the packet of a DATA message, and that is the first one
  have hnot : q.key ≠ m.packetKey k := by
    intro hsame
    have hmark : p.key = m.packetKey k := by
      rw [hpq, show (m.writeEvent sender k).key = m.packetKey k from rfl, if_pos hsame]
      exact (WriteEvent.mark_same _ nowMs q).1.trans hsame
    rcases List.mem_cons.mp hx with rfl | hx
    · exact hother hdata hmark
    · exact h.id_ne hx (congrArg PacketKey.messageId (hkey.symm.trans hsame))
  rw [show (m.writeEvent sender k).key = m.packetKey k from rfl, if_neg hnot] at hpq
  subst hpq
  refine ⟨hunsent, ?_⟩
  rcases List.mem_cons.mp hx with rfl | hx
  · have hne : k ≠ i := by
      rintro rfl
      exact hnot hkey
    have hle : k ≤ i := hle
    have hi : i < m.count sender := hi
    refine ⟨(m, k + 1), ?_, hdata, i, ?_, hi, hkey⟩
    · rw [nextLine, if_pos (by omega)]
      exact List.mem_cons_self
    · show k + 1 ≤ i
      omega
  · refine ⟨x, ?_, hdata, i, hle, hi, hkey⟩
    unfold nextLine
    split
    · exact List.mem_cons_of_mem _ hx
    · exact hx

theorem MessageState.toList_push_of_nil {queue : MessageState} {e : MessageEvent}
    (h : RingQueue.toList queue = []) : RingQueue.toList (MessageState.push queue e) = [e] := by
  have hlen : queue.len = 0 := (RingQueue.toList_eq_nil_iff queue).mp h
  have hroom : queue.len ≠ maxMessageEvents := by
    rw [hlen]
    decide
  rw [MessageState.push, dif_neg hroom, RingQueue.toList_pushBack, h, List.nil_append]

/-- What the receiver is left with once it took the fragment, and what it has to answer. -/
structure Arrived (sender receiver : EngineConfig) (m : SentMessage) (k : Nat) (b b' : EngineState)
    (message : Option MessageEvent) : Prop where
  clock : b'.clock = b.clock
  packets : b'.recovery.packets = b.recovery.packets
  rest : b'.ingress.rest = []
  waiting : b'.waitingList = answers (m.answer? k) message
  seen : ∀ key, b'.receive.isDuplicate key = true →
    b.receive.isDuplicate key = true ∨ key = m.packetKey k
  others : ∀ key slot, key ≠ m.messageKey → b'.reassembly.Holds key slot → b.reassembly.Holds key slot
  progress : (k + 1 < m.count sender ∧ message = none ∧ Gathered sender m b'.reassembly (k + 1) ∧
      ∀ slot, b'.reassembly.Holds m.messageKey slot → slot.updatedAtMs = b.clock.nowMs) ∨
    (k + 1 = m.count sender ∧ ∃ e, message = some e ∧ e.content = m)

/-- **The receiver takes the fragment**: it gathers it, or has the message. -/
theorem InTransit.arrived (hsame : sender.integrity = receiver.integrity)
    (h : InTransit sender receiver ((m, k) :: rest) t) :
    (t.right.state.receiveBytes receiver
        (envelope receiver.integrity (m.packet sender k))).2.isError = false ∧
      ∃ message, Arrived sender receiver m k t.right.state
        (t.right.state.receiveBytes receiver
          (envelope receiver.integrity (m.packet sender k))).1 message := by
  obtain ⟨hacks, hurgent, hmessages, hnewData⟩ := waitingList_eq_nil h.idle
  obtain ⟨send, hsend, hm⟩ := h.sent (m, k) List.mem_cons_self
  have hvalid := (accepted_valid hm).1
  have hlt : k < m.count sender := h.taken_lt (m, k) List.mem_cons_self
  have hd := h.run.runs.2.receiverInv.distinct
  have hnext := (h.gathered (m, k) List.mem_cons_self).observe hvalid hd hlt
    t.right.state.clock.nowMs
  have hothers : ∀ key slot, key ≠ m.messageKey → (t.right.state.reassembly.observe
      (m.messageFragment sender k) t.right.state.clock.nowMs).1.Holds key slot →
      t.right.state.reassembly.Holds key slot :=
    fun key slot hne hs => ReassemblyState.holds_of_observe hd hne hs
  have hkept : (t.right.state.reassembly.observe (m.messageFragment sender k)
      t.right.state.clock.nowMs).2.isOk = true := by
    generalize t.right.state.reassembly.observe (m.messageFragment sender k)
      t.right.state.clock.nowMs = observed at hnext
    cases hnext <;> rfl
  obtain ⟨herror, hheard⟩ := @receiveCompletePacket_heard sender receiver m t.right.state k hvalid hlt
    hacks (fun hdata => h.unseen (m, k) List.mem_cons_self hdata k (Nat.le_refl k) hlt) hkept
  have hlen := (Origin.fragment hsend hm hlt).length_le
  rw [hsame] at hlen
  have hportable : Portable receiver.integrity (m.packet sender k) := ⟨hlen.1, hlen.2.1, hlen.2.2⟩
  obtain ⟨ingress, hempty, hreceived, hreport⟩ := receiveBytes_envelope h.quiet hportable herror
  refine ⟨(ReceiveReport.isError_of_kind_eq hreport).trans herror, ?_⟩
  rw [hreceived]
  generalize (t.right.state.receiveCompletePacket receiver (m.packet sender k)).1 = heard at hheard ⊢
  -- the scheduler is as empty as it was
  have hwaiting {message : Option MessageEvent}
      (hmessage : RingQueue.toList heard.message = message.toList) :
      (heard.withIngress ingress).waitingList = answers (m.answer? k) message := by
    have hqueues : heard.scheduler = t.right.state.scheduler := hheard.frame.scheduler
    show (RingQueue.toList heard.ack).map Waiting.ack ++ heard.scheduler.urgent.map Waiting.event ++
      (RingQueue.toList heard.message).map Waiting.message ++
        (heard.scheduler.events .newData).map Waiting.event = _
    rw [hqueues, hurgent, hnewData, hheard.acks, hmessage, answers, SentMessage.answer?]
    split <;> cases message <;> rfl
  have hmessage := hheard.message
  have hreassembly := hheard.reassembly
  generalize t.right.state.reassembly.observe (m.messageFragment sender k)
    t.right.state.clock.nowMs = observed at hnext hothers hmessage hreassembly
  cases hnext with
  | more hmore hgathered hupdated =>
    refine ⟨none, hheard.frame.clock, congrArg _ hheard.frame.recovery, hempty, hwaiting ?_,
      hheard.seen, ?_, .inl ⟨hmore, rfl, ?_, ?_⟩⟩
    · rw [hmessage]
      exact hmessages
    · intro key slot hne hs
      exact hothers key slot hne (hreassembly ▸ hs)
    · show Gathered sender m heard.reassembly (k + 1)
      rw [hreassembly]
      exact hgathered
    · show ∀ slot, heard.reassembly.Holds m.messageKey slot → _
      rw [hreassembly]
      exact hupdated
  | last storage hlast hnone hbytes =>
    refine ⟨some (m.event storage), hheard.frame.clock, congrArg _ hheard.frame.recovery, hempty,
      hwaiting ?_, hheard.seen, ?_, .inr ⟨hlast, _, rfl, ?_⟩⟩
    · rw [hmessage]
      exact MessageState.toList_push_of_nil hmessages
    · intro key slot hne hs
      exact hothers key slot hne (hreassembly ▸ hs)
    · rw [MessageEvent.content, hbytes]
      rfl

/-- What the sender is left with once it took the acknowledgement. -/
structure Acked (sender : EngineConfig) (line : List (SentMessage × Nat)) (a a' : Party) : Prop where
  calls : ∀ call ∈ a.calls, call ∈ a'.calls
  waiting : a'.state.waitingList = line.flatMap fun x => x.1.writesFrom sender x.2
  inFlight : ∀ p ∈ a'.state.recovery.packets, p.sent = false ∧
    ∃ x ∈ line, x.1.packetType = .data ∧ ∃ i, x.2 ≤ i ∧ i < x.1.count sender ∧
      p.key = x.1.packetKey i
  rest : a'.state.ingress.rest = []

/-- **The acknowledgement takes the packet out of the table of the sender**; a LOG packet is not in
it. -/
theorem InTransit.acked (hsame : sender.integrity = receiver.integrity)
    (h : InTransit sender receiver ((m, k) :: rest) t) (htx : maxWireBytes ≤ txLen) :
    Acked sender (nextLine sender m k rest) t.left
      ((t.left.step sender (.poll nowMs txLen)).takes sender
        ((m.answer? k).map fun key => envelope receiver.integrity (ackPacketBytes key))) := by
  obtain ⟨-, hwaiting⟩ := @InTransit.transmitted sender receiver m k txLen nowMs rest t h htx
  have hinFlight := @InTransit.inFlight_transmitted sender receiver m k txLen nowMs rest t h htx
  have hrest : (t.left.state.poll sender nowMs txLen).1.ingress.rest = [] := by
    rw [(t.left.state.poll_frame nowMs txLen).ingress]
    exact h.rest
  by_cases hdata : m.packetType = .data
  · rw [SentMessage.answer?, if_pos hdata, Option.map_some, ← hsame]
    obtain ⟨ingress, hempty, hreceived, -⟩ := receiveBytes_ack sender hrest (m.packetKey k)
    have hstate : ((t.left.step sender (.poll nowMs txLen)).takes sender
        (some (envelope sender.integrity (ackPacketBytes (m.packetKey k))))).state = _ := hreceived
    refine ⟨?_, ?_, ?_, ?_⟩
    · intro call hc
      exact List.mem_append_left _ (List.mem_append_left _ hc)
    · rw [hstate]
      exact hwaiting
    · intro p hp
      rw [hstate] at hp
      have hp : p ∈ ((t.left.state.poll sender nowMs txLen).1.recovery.applyAck
        (m.packetKey k)).packets := hp
      obtain ⟨hp, hother⟩ := InFlightPackets.mem_applyAck.mp hp
      exact hinFlight hp fun _ => hother
    · rw [hstate]
      exact hempty
  · rw [SentMessage.answer?, if_neg hdata, Option.map_none]
    refine ⟨fun call hc => List.mem_append_left _ hc, hwaiting, ?_, hrest⟩
    exact fun p hp => hinFlight hp fun hyes => absurd hyes hdata

/-- The receiver once it polled twice at one time. -/
theorem polled_twice (config : EngineConfig) (party : Party) (nowMs txLen : Nat) :
    ((party.step config (.poll nowMs txLen)).step config (.poll nowMs txLen)).state.clock =
        ⟨nowMs⟩ ∧
      ((party.step config (.poll nowMs txLen)).step config (.poll nowMs txLen)).state.receive =
        party.state.receive ∧
      ((party.step config (.poll nowMs txLen)).step config (.poll nowMs txLen)).state.reassembly =
        party.state.reassembly.expire nowMs config.reassemblyTimeoutMs ∧
      ((party.step config (.poll nowMs txLen)).step config (.poll nowMs txLen)).state.ingress =
        party.state.ingress := by
  have hfirst : OutputFrame (party.state.advanceClock config nowMs)
      (party.step config (.poll nowMs txLen)).state := party.state.poll_frame nowMs txLen
  have hsecond : OutputFrame ((party.step config (.poll nowMs txLen)).state.advanceClock config nowMs)
      ((party.step config (.poll nowMs txLen)).step config (.poll nowMs txLen)).state :=
    (party.step config (.poll nowMs txLen)).state.poll_frame nowMs txLen
  refine ⟨hsecond.clock, hsecond.receive.trans hfirst.receive, ?_,
    hsecond.ingress.trans hfirst.ingress⟩
  rw [hsecond.reassembly]
  show (party.step config (.poll nowMs txLen)).state.reassembly.expire _ _ = _
  rw [hfirst.reassembly]
  exact expire_expire _ _ _

theorem Gathered.eq_nothing {r : ReassemblyState} (h : Gathered sender m r 0) :
    ∀ slot, ¬ r.Holds m.messageKey slot := by
  cases h with
  | nothing hnone => exact hnone
  | upTo slot hpos => exact absurd hpos (Nat.lt_irrefl 0)

theorem Gathered.expire {r : ReassemblyState} {i timeoutMs : Nat} (h : Gathered sender m r i)
    (hyoung : ∀ slot, r.Holds m.messageKey slot → nowMs - slot.updatedAtMs < timeoutMs) :
    Gathered sender m (r.expire nowMs timeoutMs) i := by
  cases h with
  | nothing hnone =>
    exact .nothing fun slot hs => hnone slot (ReassemblyState.holds_of_expire hs)
  | upTo slot hpos hslot hgenuine hgot =>
    exact .upTo slot hpos (hslot.expire (hyoung slot hslot)) hgenuine hgot

/-- The line behind an exchange has gathered what it should have. -/
theorem Arrived.gathered {b b' : EngineState} {message : Option MessageEvent}
    (h : Arrived sender receiver m k b b' message) {timeoutMs : Nat}
    (hprompt : peerMs - b.clock.nowMs < timeoutMs)
    (hothers : ∀ x ∈ rest, x.2 = 0 ∧ x.1.messageId ≠ m.messageId ∧
      Gathered sender x.1 b.reassembly 0) :
    ∀ x ∈ nextLine sender m k rest,
      Gathered sender x.1 (b'.reassembly.expire peerMs timeoutMs) x.2 := by
  intro x hx
  rcases mem_nextLine hx with ⟨rfl, hmore⟩ | hx
  · rcases h.progress with ⟨-, -, hgathered, hupdated⟩ | ⟨hlast, -⟩
    · apply hgathered.expire
      intro slot hslot
      rw [hupdated slot hslot]
      exact hprompt
    · omega
  · obtain ⟨hzero, hid, hnone⟩ := hothers x hx
    rw [hzero]
    refine .nothing fun slot hs => ?_
    refine hnone.eq_nothing slot (h.others _ slot ?_ (ReassemblyState.holds_of_expire hs))
    exact fun hkey => hid (congrArg MessageKey.messageId hkey)

/-- A key of the line is not the key of the fragment that was exchanged. -/
theorem InTransit.key_ne (h : InTransit sender receiver ((m, k) :: rest) t) {x : SentMessage × Nat}
    (hx : x ∈ nextLine sender m k rest) {i : Nat} (hle : x.2 ≤ i) (hi : i < x.1.count sender) :
    x.1.packetKey i ≠ m.packetKey k := by
  intro hkey
  rcases mem_nextLine hx with ⟨rfl, -⟩ | hx
  · obtain ⟨send, -, hm⟩ := h.sent (m, k) List.mem_cons_self
    have hcount : m.count sender ≤ maxEvents := (accepted_valid hm).2
    unfold maxEvents at hcount
    have hle : k + 1 ≤ i := hle
    have hi : i < m.count sender := hi
    have hsame : i = k := packetKey_inj (by omega) (by omega) hkey
    omega
  · exact h.id_ne hx (congrArg PacketKey.messageId hkey)

/-- The line has moved on, given what the sides are left with. -/
theorem InTransit.moved {t' : Transfer} {b : EngineState} {message : Option MessageEvent}
    (h : InTransit sender receiver ((m, k) :: rest) t)
    (harrived : Arrived sender receiver m k t.right.state b message)
    (hprompt : peerMs - t.right.state.clock.nowMs < receiver.reassemblyTimeoutMs)
    (hrun : LinkRun sender receiver (Carries receiver) t'.left t'.right)
    (hacked : Acked sender (nextLine sender m k rest) t.left t'.left)
    (hidle : t'.right.state.waitingList = []) (hunused : t'.right.state.recovery.packets = [])
    (hingress : t'.right.state.ingress = b.ingress) (hreceive : t'.right.state.receive = b.receive)
    (hreassembly : t'.right.state.reassembly =
      b.reassembly.expire peerMs receiver.reassemblyTimeoutMs)
    (haccepted : t'.accepted = t.accepted)
    (hdelivered : t'.delivered = t.delivered ++ message.toList) :
    InTransit sender receiver (nextLine sender m k rest) t' := by
  have hin : ∀ x ∈ nextLine sender m k rest, ∃ y ∈ (m, k) :: rest, y.1 = x.1 ∧ y.2 ≤ x.2 := by
    intro x hx
    rcases mem_nextLine hx with ⟨rfl, -⟩ | hx
    · exact ⟨_, List.mem_cons_self, rfl, Nat.le_succ k⟩
    · exact ⟨x, List.mem_cons_of_mem _ hx, rfl, Nat.le_refl _⟩
  refine ⟨hrun, ?_, ?_, ?_, ?_, ?_, hacked.waiting, hacked.inFlight, hacked.rest, hidle, hunused, ?_,
    ?_, ?_⟩
  · rw [haccepted, hdelivered, h.account, List.map_append, List.append_assoc, nextLine]
    congr 1
    rcases harrived.progress with ⟨hmore, rfl, -⟩ | ⟨hlast, e, rfl, rfl⟩
    · rw [if_pos hmore]
      rfl
    · rw [if_neg (by omega)]
      rfl
  · intro x hx
    obtain ⟨y, hy, hsame, -⟩ := hin x hx
    obtain ⟨send, hsend, hm⟩ := h.sent y hy
    exact ⟨send, hacked.calls send hsend, hsame ▸ hm⟩
  · have hids := h.ids
    unfold nextLine
    split
    · exact hids
    · exact (List.nodup_cons.mp hids).2
  · intro x hx
    rcases mem_nextLine hx with ⟨rfl, hmore⟩ | hx
    · exact hmore
    · exact h.taken_lt x (List.mem_cons_of_mem _ hx)
  · intro x hx
    refine h.taken_tail x ?_
    unfold nextLine at hx
    split at hx
    · exact hx
    · exact List.mem_of_mem_tail hx
  · rw [hingress]
    exact harrived.rest
  · intro x hx hdata i hle hi
    rw [hreceive, ← Bool.not_eq_true]
    intro hdup
    rcases harrived.seen _ hdup with hdup | hkey
    · obtain ⟨y, hy, hsame, hless⟩ := hin x hx
      rw [← hsame] at hdata hi hdup
      rw [h.unseen y hy hdata i (Nat.le_trans hless hle) hi] at hdup
      cases hdup
    · exact h.key_ne hx hle hi hkey
  · intro x hx
    rw [hreassembly]
    refine harrived.gathered hprompt ?_ x hx
    intro y hy
    have hzero : y.2 = 0 := h.taken_tail y hy
    refine ⟨hzero, h.id_ne hy, ?_⟩
    have hgathered := h.gathered y (List.mem_cons_of_mem _ hy)
    rwa [hzero] at hgathered

/-- **An exchange moves the line on by one fragment.** -/
theorem InTransit.exchange (hsame : sender.integrity = receiver.integrity)
    (h : InTransit sender receiver ((m, k) :: rest) t) (htx : maxWireBytes ≤ txLen) (nowMs : Nat)
    (hprompt : peerMs - t.right.state.clock.nowMs < receiver.reassemblyTimeoutMs) :
    InTransit sender receiver (nextLine sender m k rest)
        (t.exchange sender receiver txLen nowMs peerMs) ∧
      (t.exchange sender receiver txLen nowMs peerMs).right.state.clock = ⟨peerMs⟩ := by
  obtain ⟨-, message, harrived⟩ := h.arrived hsame
  obtain ⟨hemits, -⟩ := @InTransit.transmitted sender receiver m k txLen nowMs rest t h htx
  rw [hsame] at hemits
  have htaken : (t.transmit sender receiver txLen nowMs).right.state =
      (t.right.state.receiveBytes receiver (envelope receiver.integrity (m.packet sender k))).1 := by
    show (t.right.takes receiver (t.left.emits sender nowMs txLen)).state = _
    rw [hemits]
    rfl
  rw [← htaken] at harrived
  have hunused := harrived.packets.trans h.unused
  obtain ⟨hreplies, hidle⟩ := @reply_reply sender receiver txLen peerMs
    (t.transmit sender receiver txLen nowMs) (m.answer? k) message hunused harrived.waiting htx
  have hexchange : t.exchange sender receiver txLen nowMs peerMs = _ := hreplies
  have hrun : LinkRun sender receiver (Carries receiver)
      (t.exchange sender receiver txLen nowMs peerMs).left
      (t.exchange sender receiver txLen nowMs peerMs).right :=
    ((h.run.transmit nowMs txLen).reply peerMs txLen).reply peerMs txLen
  obtain ⟨hclock, hreceive, hreassembly, hingress⟩ := polled_twice receiver
    (t.transmit sender receiver txLen nowMs).right peerMs txLen
  rw [hexchange] at hrun ⊢
  refine ⟨h.moved harrived hprompt hrun (h.acked hsame htx) hidle ?_ hingress hreceive hreassembly rfl
    rfl, hclock⟩
  exact packets_poll_of_nil (packets_poll_of_nil hunused htx) htx

/-- With nothing in line an exchange exchanges nothing. -/
theorem InTransit.exchange_nil (h : InTransit sender receiver [] t) (htx : maxWireBytes ≤ txLen)
    (nowMs peerMs : Nat) :
    InTransit sender receiver [] (t.exchange sender receiver txLen nowMs peerMs) ∧
      (t.exchange sender receiver txLen nowMs peerMs).right.state.clock = ⟨peerMs⟩ := by
  have hempty : t.left.state.waitingList = [] := h.waiting
  obtain ⟨hemits, -, hwaiting⟩ :=
    @Untransmitted.seen txLen t.left sender nowMs h.untransmitted htx
  rw [hempty] at hemits hwaiting
  have hpackets := (@Untransmitted.poll_nil sender _ nowMs txLen h.untransmitted hempty htx).2.2
  have htaken : (t.transmit sender receiver txLen nowMs).right = t.right := by
    show t.right.takes receiver (t.left.emits sender nowMs txLen) = t.right
    rw [hemits]
    rfl
  obtain ⟨hreplies, hidle⟩ := @reply_reply sender receiver txLen peerMs
    (t.transmit sender receiver txLen nowMs) none none (by rw [htaken]; exact h.unused)
    (by rw [htaken]; exact h.idle) htx
  have hexchange : t.exchange sender receiver txLen nowMs peerMs = _ := hreplies
  have hrun : LinkRun sender receiver (Carries receiver)
      (t.exchange sender receiver txLen nowMs peerMs).left
      (t.exchange sender receiver txLen nowMs peerMs).right :=
    ((h.run.transmit nowMs txLen).reply peerMs txLen).reply peerMs txLen
  obtain ⟨hclock, -, -, hingress⟩ := polled_twice receiver
    (t.transmit sender receiver txLen nowMs).right peerMs txLen
  rw [hexchange] at hrun ⊢
  refine ⟨⟨hrun, ?_, ?_, List.nodup_nil, ?_, ?_, hwaiting, ?_, ?_, hidle, ?_, ?_, ?_, ?_⟩, hclock⟩
  · show t.accepted = (t.delivered ++ []).map MessageEvent.content ++ []
    rw [List.append_nil t.delivered]
    exact h.account
  · exact fun x hx => absurd hx List.not_mem_nil
  · exact fun x hx => absurd hx List.not_mem_nil
  · exact fun x hx => absurd hx List.not_mem_nil
  · intro p hp
    exact h.inFlight p (hpackets ▸ hp)
  · exact (congrArg StreamingDecoder.rest (t.left.state.poll_frame nowMs txLen).ingress).trans h.rest
  · exact packets_poll_of_nil (packets_poll_of_nil (by rw [htaken]; exact h.unused) htx) htx
  · refine (congrArg StreamingDecoder.rest hingress).trans ?_
    rw [htaken]
    exact h.quiet
  · exact fun x hx => absurd hx List.not_mem_nil
  · exact fun x hx => absurd hx List.not_mem_nil

end Exchange

/-! ## Whole transfers -/

/-- Nothing waits, nothing is in flight and no bytes are buffered. -/
structure AtRest (st : EngineState) : Prop where
  waiting : st.waitingList = []
  packets : st.recovery.packets = []
  rest : st.ingress.rest = []

section Run
variable {sender receiver : EngineConfig} {txLen : Nat} {pending : List (SentMessage × Nat)}
  {t : Transfer}

theorem InTransit.atRest (h : InTransit sender receiver [] t) :
    AtRest t.left.state ∧ AtRest t.right.state := by
  refine ⟨⟨h.waiting, ?_, h.rest⟩, h.idle, h.unused, h.quiet⟩
  apply List.eq_nil_iff_forall_not_mem.mpr
  intro p hp
  obtain ⟨-, x, hx, -⟩ := h.inFlight p hp
  cases hx

theorem inTransit_of_atRest {a b : Party} (hrun : LinkRun sender receiver (Carries receiver) a b)
    (ha : AtRest a.state) (hb : AtRest b.state) :
    InTransit sender receiver [] ⟨a, b, [], []⟩ := by
  refine ⟨hrun, rfl, ?_, List.nodup_nil, ?_, ?_, ha.waiting, ?_, ha.rest, hb.waiting, hb.packets,
    hb.rest, ?_, ?_⟩
  · exact fun x hx => absurd hx List.not_mem_nil
  · exact fun x hx => absurd hx List.not_mem_nil
  · exact fun x hx => absurd hx List.not_mem_nil
  · intro p hp
    rw [ha.packets] at hp
    cases hp
  · exact fun x hx => absurd hx List.not_mem_nil
  · exact fun x hx => absurd hx List.not_mem_nil

variable (sender) in
theorem sendCount_submit (t : Transfer) (op : EngineOp) {packetType : PacketType} {message : Bytes}
    (hcalls : op.calls sender t.left.state = [⟨t.left.state, .send packetType message⟩])
    (hkind : packetType = .data ∨ packetType = .log) :
    sendCount (t.submit sender op).left.calls = sendCount t.left.calls + 1 := by
  show sendCount (t.left.calls ++ op.calls sender t.left.state) = _
  rw [sendCount_append, hcalls]
  rcases hkind with rfl | rfl <;> rfl

theorem sendCount_transfer (t : Transfer) (nowMs peerMs : Nat) :
    sendCount (t.exchange sender receiver txLen nowMs peerMs).left.calls =
      sendCount t.left.calls := by
  show sendCount (Party.takes sender _ (Party.takes sender _ _)).calls = _
  rw [sendCount_takes, sendCount_takes]
  show sendCount (t.left.calls ++ _) = _
  rw [sendCount_append]
  rfl

theorem sendCount_step_le (t : Transfer) (op : TransferOp) :
    sendCount t.left.calls ≤ sendCount (t.step sender receiver txLen op).left.calls := by
  cases op with
  | send message =>
    exact (sendCount_submit sender t (.send message) rfl (.inl rfl)).symm ▸ Nat.le_succ _
  | sendLog message =>
    exact (sendCount_submit sender t (.sendLog message) rfl (.inr rfl)).symm ▸ Nat.le_succ _
  | exchange nowMs peerMs => exact (sendCount_transfer t nowMs peerMs).symm ▸ Nat.le_refl _

theorem sendCount_run_le (t : Transfer) (ops : List TransferOp) :
    sendCount t.left.calls ≤ sendCount (t.run sender receiver txLen ops).left.calls := by
  induction ops generalizing t with
  | nil => exact Nat.le_refl _
  | cons op ops ih => exact Nat.le_trans (sendCount_step_le t op) (ih _)

/-- **One step keeps the line in order.** -/
theorem InTransit.step (hsame : sender.integrity = receiver.integrity)
    (h : InTransit sender receiver pending t) (htx : maxWireBytes ≤ txLen) {op : TransferOp}
    {ops : List TransferOp}
    (hprompt : Prompt receiver.reassemblyTimeoutMs t.right.state.clock.nowMs (op :: ops))
    (hcount : sendCount (t.step sender receiver txLen op).left.calls < 2 ^ 32) :
    (∃ pending', InTransit sender receiver pending' (t.step sender receiver txLen op)) ∧
      Prompt receiver.reassemblyTimeoutMs
        (t.step sender receiver txLen op).right.state.clock.nowMs ops := by
  cases op with
  | send message =>
    have hone := sendCount_submit sender t (.send message) rfl (.inl rfl)
    exact ⟨h.submit hsame (hone ▸ hcount) (.inl rfl) (by simp) rfl rfl, hprompt⟩
  | sendLog message =>
    have hone := sendCount_submit sender t (.sendLog message) rfl (.inr rfl)
    exact ⟨h.submit hsame (hone ▸ hcount) (.inr rfl) (by simp) rfl rfl, hprompt⟩
  | exchange nowMs peerMs =>
    obtain ⟨hsoon, hrest⟩ := hprompt
    cases pending with
    | nil =>
      obtain ⟨hnext, hclock⟩ := h.exchange_nil htx nowMs peerMs
      exact ⟨⟨_, hnext⟩, hclock.symm ▸ hrest⟩
    | cons x rest =>
      obtain ⟨hnext, hclock⟩ := h.exchange hsame htx nowMs hsoon
      exact ⟨⟨_, hnext⟩, hclock.symm ▸ hrest⟩

/-- **Along every transfer the line is in order.** -/
theorem InTransit.run_ops (hsame : sender.integrity = receiver.integrity)
    (htx : maxWireBytes ≤ txLen) {ops more : List TransferOp}
    (h : InTransit sender receiver pending t)
    (hprompt : Prompt receiver.reassemblyTimeoutMs t.right.state.clock.nowMs (ops ++ more))
    (hcount : sendCount (t.run sender receiver txLen ops).left.calls < 2 ^ 32) :
    (∃ pending', InTransit sender receiver pending' (t.run sender receiver txLen ops)) ∧
      Prompt receiver.reassemblyTimeoutMs
        (t.run sender receiver txLen ops).right.state.clock.nowMs more := by
  induction ops generalizing pending t with
  | nil => exact ⟨⟨pending, h⟩, hprompt⟩
  | cons op ops ih =>
    have hfew : sendCount (t.step sender receiver txLen op).left.calls < 2 ^ 32 :=
      Nat.lt_of_le_of_lt (sendCount_run_le _ ops) hcount
    obtain ⟨⟨pending', hnext⟩, hrest⟩ := h.step hsame htx hprompt hfew
    exact ih hnext hrest hcount

/-- Exchanges at the given times of the sender and the receiver. -/
def exchanges (times : List (Nat × Nat)) : List TransferOp :=
  times.map fun x => .exchange x.1 x.2

theorem length_nextLine {m : SentMessage} {k : Nat} {rest : List (SentMessage × Nat)}
    (hlt : k < m.count sender) :
    ((nextLine sender m k rest).flatMap fun x => x.1.writesFrom sender x.2).length + 1 =
      (((m, k) :: rest).flatMap fun x => x.1.writesFrom sender x.2).length := by
  rw [List.flatMap_cons, SentMessage.writesFrom_of_lt hlt, List.cons_append, List.length_cons,
    nextLine]
  split
  · rw [List.flatMap_cons]
  · rename_i hmore
    have hlast : k + 1 = m.count sender := Nat.le_antisymm hlt (Nat.not_lt.mp hmore)
    rw [SentMessage.writesFrom_of_eq hlast, List.nil_append]

/-- **As many exchanges as there are writes that wait empty the line.** -/
theorem InTransit.drained (hsame : sender.integrity = receiver.integrity)
    (htx : maxWireBytes ≤ txLen) {times : List (Nat × Nat)} (h : InTransit sender receiver pending t)
    (hprompt : Prompt receiver.reassemblyTimeoutMs t.right.state.clock.nowMs (exchanges times))
    (henough : t.left.state.waitingList.length ≤ times.length) :
    InTransit sender receiver [] (t.run sender receiver txLen (exchanges times)) ∧
      (t.run sender receiver txLen (exchanges times)).accepted = t.accepted := by
  -- on the exchanges: each one takes a write off, and once the line is empty it stays empty
  induction times generalizing pending t with
  | nil =>
    cases pending with
    | nil => exact ⟨h, rfl⟩
    | cons x rest =>
      rw [h.waiting, ← length_nextLine (h.taken_lt x List.mem_cons_self)] at henough
      exact absurd henough (Nat.not_succ_le_zero _)
  | cons time times ih =>
    obtain ⟨hsoon, hrest⟩ := hprompt
    rw [List.length_cons] at henough
    cases pending with
    | nil =>
      obtain ⟨hnext, hclock⟩ := h.exchange_nil htx time.1 time.2
      have hless : (t.exchange sender receiver txLen time.1 time.2).left.state.waitingList.length ≤
          times.length := by
        rw [hnext.waiting]
        exact Nat.zero_le _
      exact ih hnext (hclock.symm ▸ hrest) hless
    | cons x rest =>
      obtain ⟨hnext, hclock⟩ := h.exchange hsame htx time.1 hsoon
      rw [h.waiting, ← length_nextLine (h.taken_lt x List.mem_cons_self)] at henough
      have hless : (t.exchange sender receiver txLen time.1 time.2).left.state.waitingList.length ≤
          times.length := by
        rw [hnext.waiting]
        exact Nat.le_of_succ_le_succ henough
      exact ih hnext (hclock.symm ▸ hrest) hless

theorem Transfer.run_append (t : Transfer) (ops more : List TransferOp) :
    t.run sender receiver txLen (ops ++ more) =
      (t.run sender receiver txLen ops).run sender receiver txLen more := List.foldl_append

/-- A transfer at its beginning. -/
def Transfer.start (a b : Party) : Transfer := ⟨a, b, [], []⟩

/-- **A link that loses nothing delivers in order.**  Whatever was lost before, from a state of the link
in which both sides are at rest: at every time of a transfer the receiver has handed over the first of
the accepted messages, DATA and LOG messages alike, in the order in which they were accepted, each one
once and as it was sent; and when the sides went on exchanging until nothing waited it has handed over
all of them, and both sides are at rest again. -/
theorem delivered_in_order (hsame : sender.integrity = receiver.integrity) {a b : Party}
    (hrun : LinkRun sender receiver (Carries receiver) a b) (ha : AtRest a.state) (hb : AtRest b.state)
    (htx : maxWireBytes ≤ txLen) (ops : List TransferOp) (times : List (Nat × Nat))
    (hprompt : Prompt receiver.reassemblyTimeoutMs b.state.clock.nowMs (ops ++ exchanges times))
    (hcount : sendCount
      ((Transfer.start a b).run sender receiver txLen ops).left.calls < 2 ^ 32) :
    ((Transfer.start a b).run sender receiver txLen ops).delivered.map MessageEvent.content <+:
        ((Transfer.start a b).run sender receiver txLen ops).accepted ∧
      (((Transfer.start a b).run sender receiver txLen ops).left.state.waitingList.length ≤
          times.length →
        ((Transfer.start a b).run sender receiver txLen (ops ++ exchanges times)).delivered.map
            MessageEvent.content =
          ((Transfer.start a b).run sender receiver txLen ops).accepted ∧
        AtRest ((Transfer.start a b).run sender receiver txLen
          (ops ++ exchanges times)).left.state ∧
        AtRest ((Transfer.start a b).run sender receiver txLen
          (ops ++ exchanges times)).right.state) := by
  have hstart : InTransit sender receiver [] (Transfer.start a b) := inTransit_of_atRest hrun ha hb
  obtain ⟨⟨pending, hline⟩, hrest⟩ := hstart.run_ops hsame htx hprompt hcount
  refine ⟨⟨pending.map Prod.fst, hline.account.symm⟩, ?_⟩
  intro henough
  obtain ⟨hdrained, haccepted⟩ := hline.drained hsame htx hrest henough
  rw [Transfer.run_append]
  refine ⟨?_, hdrained.atRest⟩
  rw [← haccepted, hdrained.account]
  exact (List.append_nil _).symm

/-- A message of three packets, a log of one and a message that is submitted while they are on the way. -/
def smallTransfer : List TransferOp :=
  [.send [1, 2, 3], .sendLog [9], .exchange 0 0, .exchange 10 10, .send [4, 5]]

/-- Four more exchanges hand over all of it. -/
theorem delivered_in_order_small :
    (((Transfer.start (.new tinyFragments) (.new tinyFragments)).run tinyFragments tinyFragments 128
      (smallTransfer ++ exchanges [(20, 20), (30, 30), (40, 40), (50, 50)])).delivered.map
        MessageEvent.content).map SentMessage.bytes = [[1, 2, 3], [9], [4, 5]] := by
  have hrun : LinkRun tinyFragments tinyFragments (Carries tinyFragments) (.new tinyFragments)
      (.new tinyFragments) := .new
  have hrest : AtRest (Party.new tinyFragments).state := by
    refine ⟨List.length_eq_zero_iff.mp ?_, ?_, ?_⟩ <;> decide +kernel
  have hall := (delivered_in_order rfl hrun hrest hrest (show maxWireBytes ≤ 128 by decide)
    smallTransfer [(20, 20), (30, 30), (40, 40), (50, 50)] (by decide) (by decide +kernel)).2
    (by decide +kernel)
  rw [hall.1]
  decide +kernel

end Run
end Msrt
