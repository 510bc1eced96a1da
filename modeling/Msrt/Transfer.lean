import Msrt.InOrder

/-! # Messages in line

Over a link that loses nothing the protocol should be a queue of messages.  This module says what that
means.  The application of the sender submits messages of either kind at any time (`TransferOp`), and in
between the sides exchange packets: the sender polls once, the receiver takes what it is sent and polls
twice, and the sender takes the answers (`Transfer.exchange`).

`InTransit` is what is to hold at every time: the messages that were accepted and not yet delivered
stand in line, the writes that wait at the sender are the fragments of theirs that were not transmitted
yet, in that order, and the receiver has gathered those fragments that were.  A message that is submitted
goes to the end of the line (`InTransit.submit`), and two polls of the receiver hand over what it has to
answer (`reply_reply`).
-/

namespace Msrt
open EngineState

/-! ## Polls while nothing is due -/

section Poll
variable {config : EngineConfig} {st : EngineState} {nowMs txLen : Nat}

/-- Nothing in flight was transmitted yet. -/
def Untransmitted (st : EngineState) : Prop := ∀ p ∈ st.recovery.packets, p.sent = false

theorem foldl_visit_of_unsent {packets : List InFlightPacket} (h : ∀ p ∈ packets, p.sent = false)
    (scan : TickScan) : packets.foldl (TickScan.visit config nowMs) scan = scan := by
  induction packets with
  | nil => rfl
  | cons p packets ih =>
    have hvisit : scan.visit config nowMs p = scan := by
      simp [TickScan.visit, retransmitDue, h p List.mem_cons_self]
    rw [List.foldl_cons, hvisit]
    exact ih fun q hq => h q (List.mem_cons_of_mem _ hq)

/-- The tick finds nothing to do. -/
theorem Untransmitted.tick (h : Untransmitted st) (config : EngineConfig) (nowMs : Nat) :
    (st.tickRetransmit config nowMs).waitingList = st.waitingList ∧
      (st.tickRetransmit config nowMs).recovery.packets = st.recovery.packets := by
  by_cases htick : st.recovery.lastTickMs = some nowMs
  · rw [tickRetransmit_of_eq htick]
    exact ⟨rfl, rfl⟩
  · have hscan : st.tickScan config nowMs = .new := foldl_visit_of_unsent h _
    rw [tickRetransmit_of_ne htick, hscan]
    exact ⟨rfl, rfl⟩

/-- A poll returns the first thing that waits. -/
theorem Untransmitted.poll_cons (h : Untransmitted st) {item : Waiting} {items : List Waiting}
    (hwaiting : st.waitingList = item :: items) (htx : maxWireBytes ≤ txLen) :
    (st.poll config nowMs txLen).2 = .ok (item.action config.integrity) ∧
      (st.poll config nowMs txLen).1.waitingList = items ∧
      (st.poll config nowMs txLen).1.recovery =
        item.note nowMs (st.tickRetransmit config nowMs).recovery := by
  have htakes := pollOutput_takes config (st.tickRetransmit config nowMs) nowMs htx
  have hlist := (h.tick config nowMs).1.trans hwaiting
  rw [EngineState.poll]
  cases htakes with
  | nothing hempty =>
    rw [hempty] at hlist
    cases hlist
  | one item' hitems hrecovery hresult =>
    rw [hitems] at hlist
    obtain ⟨rfl, hrest⟩ := List.cons.inj hlist
    exact ⟨hresult, hrest, hrecovery⟩

/-- With nothing waiting a poll is idle. -/
theorem Untransmitted.poll_nil (h : Untransmitted st) (hwaiting : st.waitingList = [])
    (htx : maxWireBytes ≤ txLen) :
    (st.poll config nowMs txLen).2 = .ok .idle ∧
      (st.poll config nowMs txLen).1.waitingList = [] ∧
      (st.poll config nowMs txLen).1.recovery.packets = st.recovery.packets := by
  have htakes := pollOutput_takes config (st.tickRetransmit config nowMs) nowMs htx
  obtain ⟨hsame, hpackets⟩ := h.tick config nowMs
  rw [EngineState.poll]
  cases htakes with
  | nothing _ hempty hrecovery hresult =>
    refine ⟨hresult, hempty, ?_⟩
    rw [hrecovery, hpackets]
  | one item hitems =>
    rw [hsame, hwaiting] at hitems
    cases hitems

end Poll

/-! ## Transfers -/

/-- A message as the receiver hands it over. -/
def MessageEvent.content (e : MessageEvent) : SentMessage := ⟨e.packetType, e.messageId, e.asBytes⟩

/-- The two sides, the messages that were accepted and the messages that were handed over. -/
structure Transfer where
  left : Party
  right : Party
  accepted : List SentMessage
  delivered : List MessageEvent

/-- What happens on the link. -/
inductive TransferOp where
  | send (message : Bytes)
  | sendLog (message : Bytes)
  | exchange (nowMs peerMs : Nat)

namespace Transfer
variable (sender receiver : EngineConfig) (txLen : Nat)

/-- The application of the sender submits a message. -/
def submit (op : EngineOp) (t : Transfer) : Transfer :=
  { t with
    left := t.left.step sender op
    accepted := t.accepted ++ (op.calls sender t.left.state).filterMap (Call.accepted sender) }

/-- The sender polls, and the receiver takes what is transmitted. -/
def transmit (nowMs : Nat) (t : Transfer) : Transfer :=
  { t with
    left := t.left.step sender (.poll nowMs txLen)
    right := t.right.takes receiver (t.left.emits sender nowMs txLen) }

/-- The receiver polls, and the sender takes what is transmitted. -/
def reply (peerMs : Nat) (t : Transfer) : Transfer :=
  { t with
    left := t.left.takes sender (t.right.emits receiver peerMs txLen)
    right := t.right.step receiver (.poll peerMs txLen)
    delivered := t.delivered ++
      (Call.delivered receiver ⟨t.right.state, .poll peerMs txLen⟩).toList }

/-- One packet, the acknowledgement that answers it and the message that it completes. -/
def exchange (nowMs peerMs : Nat) (t : Transfer) : Transfer :=
  ((t.transmit sender receiver txLen nowMs).reply sender receiver txLen peerMs).reply
    sender receiver txLen peerMs

/-- One step of a transfer. -/
def step (t : Transfer) : TransferOp → Transfer
  | .send message => t.submit sender (.send message)
  | .sendLog message => t.submit sender (.sendLog message)
  | .exchange nowMs peerMs => t.exchange sender receiver txLen nowMs peerMs

/-- The transfer after a list of steps. -/
def run (t : Transfer) (ops : List TransferOp) : Transfer :=
  ops.foldl (step sender receiver txLen) t

end Transfer

/-- Less than the reassembly timeout lies between the polls of the receiver. -/
def Prompt (timeoutMs : Nat) : Nat → List TransferOp → Prop
  | _, [] => True
  | clock, .exchange _ peerMs :: ops => peerMs - clock < timeoutMs ∧ Prompt timeoutMs peerMs ops
  | clock, .send _ :: ops => Prompt timeoutMs clock ops
  | clock, .sendLog _ :: ops => Prompt timeoutMs clock ops

instance decidablePrompt (timeoutMs : Nat) :
    (clock : Nat) → (ops : List TransferOp) → Decidable (Prompt timeoutMs clock ops)
  | _, [] => inferInstanceAs (Decidable True)
  | clock, .exchange _ peerMs :: ops =>
    @instDecidableAnd (peerMs - clock < timeoutMs) _ _ (decidablePrompt timeoutMs peerMs ops)
  | clock, .send _ :: ops => decidablePrompt timeoutMs clock ops
  | clock, .sendLog _ :: ops => decidablePrompt timeoutMs clock ops

/-! ## Messages in line -/

/-- The writes of the fragments of a message from fragment `taken` on. -/
def SentMessage.writesFrom (sender : EngineConfig) (m : SentMessage) (taken : Nat) : List Waiting :=
  (List.range' taken (m.count sender - taken)).map fun i => .event (.write (m.writeEvent sender i))

/-- The messages of `pending`, each one with the number of its fragments that were exchanged, are
accepted and not yet delivered. -/
structure InTransit (sender receiver : EngineConfig) (pending : List (SentMessage × Nat))
    (t : Transfer) : Prop where
  run : LinkRun sender receiver (Carries receiver) t.left t.right
  account : t.accepted = t.delivered.map MessageEvent.content ++ pending.map Prod.fst
  sent : ∀ x ∈ pending, ∃ send ∈ t.left.calls, send.accepted sender = some x.1
  ids : (pending.map fun x => x.1.messageId).Nodup
  taken_lt : ∀ x ∈ pending, x.2 < x.1.count sender
  taken_tail : ∀ x ∈ pending.tail, x.2 = 0
  waiting : t.left.state.waitingList = pending.flatMap fun x => x.1.writesFrom sender x.2
  inFlight : ∀ p ∈ t.left.state.recovery.packets, p.sent = false ∧
    ∃ x ∈ pending, x.1.packetType = .data ∧ ∃ i, x.2 ≤ i ∧ i < x.1.count sender ∧
      p.key = x.1.packetKey i
  rest : t.left.state.ingress.rest = []
  idle : t.right.state.waitingList = []
  unused : t.right.state.recovery.packets = []
  quiet : t.right.state.ingress.rest = []
  unseen : ∀ x ∈ pending, x.1.packetType = .data → ∀ i, x.2 ≤ i → i < x.1.count sender →
    t.right.state.receive.isDuplicate (x.1.packetKey i) = false
  gathered : ∀ x ∈ pending, Gathered sender x.1 t.right.state.reassembly x.2

/-! ## Submitting a message -/

/-- What is being reassembled was read off some packet. -/
theorem PacketRun.observed_of_holds {config : EngineConfig} {calls : List Call} {st : EngineState}
    (h : PacketRun config calls st) {key : MessageKey} {slot : ReassemblySlot}
    (hs : st.reassembly.Holds key slot) :
    ∃ call ∈ calls, ∃ fragment, call.observed = some fragment ∧ fragment.messageKey = key := by
  induction h with
  | new => exact absurd hs (ReassemblyState.not_holds_new key slot)
  | ingress ingress _ ih => exact ih hs
  | @call calls st op hrun ih =>
    have hbefore (hs : st.reassembly.Holds key slot) : ∃ call ∈ calls ++ [⟨st, op⟩], ∃ fragment,
        call.observed = some fragment ∧ fragment.messageKey = key := by
      obtain ⟨call, hc, hobserved⟩ := ih hs
      exact ⟨call, List.mem_append_left _ hc, hobserved⟩
    -- a slot of another key than the fragment's was there before
    have hhanded {fragment : MessageFragment} (hobserved : Call.observed ⟨st, op⟩ = some fragment)
        (hspec : Reassembled st fragment.packetType fragment (Call.after config ⟨st, op⟩)) :
        ∃ call ∈ calls ++ [⟨st, op⟩], ∃ fragment,
          call.observed = some fragment ∧ fragment.messageKey = key := by
      by_cases hkey : key = fragment.messageKey
      · exact ⟨_, List.mem_append_right _ (List.mem_singleton_self _), fragment, hobserved, hkey.symm⟩
      · rw [hspec.reassembly] at hs
        exact hbefore (ReassemblyState.holds_of_observe hrun.receiverInv.distinct hkey hs)
    cases Call.receiveStep config ⟨st, op⟩ with
    | untouched _ _ hsame => exact hbefore (hsame ▸ hs)
    | poll nowMs txLen _ _ _ hexpired =>
      rw [hexpired] at hs
      exact hbefore (ReassemblyState.holds_of_expire hs)
    | duplicate key' _ _ _ hsame => exact hbefore (hsame ▸ hs)
    | observed fragment hobserved _ hspec => exact hhanded hobserved hspec
    | accepted fragment hobserved _ hspec => exact hhanded hobserved hspec

section Submit
variable {sender receiver : EngineConfig} {a b : Party}

/-- No packet that the receiver read carries the id that is taken next. -/
theorem LinkRun.unread (hsame : sender.integrity = receiver.integrity)
    (h : LinkRun sender receiver (Carries receiver) a b) (hcount : sendCount a.calls + 1 < 2 ^ 32)
    {call : Call} (hc : call ∈ b.calls) {fragment : MessageFragment}
    (hobserved : call.observed = some fragment) :
    fragment.messageId ≠ NumberState.nextId a.state.numbers.messageIdState := by
  obtain ⟨send, hsend, m, hm, i, -, rfl⟩ := (h.fed hsame).observed hc hobserved
  exact h.runs.1.idInv.fresh hcount hsend hm

/-- The receiver knows no fragment of the next message, and does not collect it. -/
theorem LinkRun.unknown (hsame : sender.integrity = receiver.integrity)
    (h : LinkRun sender receiver (Carries receiver) a b) (hcount : sendCount a.calls + 1 < 2 ^ 32)
    {m : SentMessage} (hid : m.messageId = NumberState.nextId a.state.numbers.messageIdState) :
    (∀ i, b.state.receive.isDuplicate (m.packetKey i) = false) ∧
      ∀ slot, ¬ b.state.reassembly.Holds m.messageKey slot := by
  have hright := h.runs.2
  refine ⟨?_, ?_⟩
  · intro i
    by_contra hdup
    have hknown := hright.receiverInv.remembers.known _ (Bool.not_eq_false _ ▸ hdup)
    obtain ⟨call, hc, fragment, haccepted, hkey⟩ := mem_acceptedKeys.mp hknown
    have hobserved := (packetType_of_acceptedFragment receiver haccepted).2
    refine h.unread hsame hcount hc hobserved ?_
    rw [← hid]
    exact congrArg PacketKey.messageId hkey
  · intro slot hslot
    obtain ⟨call, hc, fragment, hobserved, hkey⟩ := hright.observed_of_holds hslot
    refine h.unread hsame hcount hc hobserved ?_
    rw [← hid]
    exact congrArg MessageKey.messageId hkey

/-- What is queued waits. -/
theorem mem_waitingList_of_queued {st : EngineState} {event : EngineOutput}
    (h : event ∈ st.scheduler.queued) : Waiting.event event ∈ st.waitingList := by
  simp only [SchedulerState.queued, Multiset.mem_add, Multiset.mem_coe] at h
  simp only [waitingList, SchedulerState.urgent, SchedulerState.events, List.mem_append,
    List.mem_map, Waiting.event.injEq, exists_eq_right, reduceCtorEq, and_false, exists_false,
    or_false, false_or]
  tauto

/-- The fragments of a message that was sent whole wait behind everything else. -/
theorem EngineState.SentWhole.waitingList {config : EngineConfig} {st st' : EngineState}
    {m : SentMessage} (h : SentWhole config st m st') : st'.waitingList = st.waitingList ++ m.writesFrom config 0 := by
  have hnew : RingQueue.toList st'.scheduler.newData = RingQueue.toList st.scheduler.newData ++
      ((List.range (m.count config)).map (m.writeEvent config)).map .write := h.queued.newData
  simp only [EngineState.waitingList, SchedulerState.urgent, SchedulerState.events, h.frame.ack,
    h.frame.message, h.queued.control, h.queued.retransmit, h.queued.localQueue, hnew,
    SentMessage.writesFrom, Nat.sub_zero, List.range_eq_range', List.map_append, List.map_map,
    List.append_assoc]
  rfl

theorem InTransit.idUnused {pending : List (SentMessage × Nat)} {t : Transfer}
    (h : InTransit sender receiver pending t) (hcount : sendCount t.left.calls + 1 < 2 ^ 32) :
    t.left.state.IdUnused (NumberState.nextId t.left.state.numbers.messageIdState) := by
  have hfresh : ∀ x ∈ pending, x.1.messageId ≠
      NumberState.nextId t.left.state.numbers.messageIdState := by
    intro x hx
    obtain ⟨send, hsend, hm⟩ := h.sent x hx
    exact h.run.runs.1.idInv.fresh hcount hsend hm
  refine ⟨?_, ?_⟩
  · intro w hw
    have hwaits := mem_waitingList_of_queued hw
    rw [h.waiting] at hwaits
    obtain ⟨x, hx, hwrite⟩ := List.mem_flatMap.mp hwaits
    obtain ⟨i, -, heq⟩ := List.mem_map.mp hwrite
    obtain rfl := EngineOutput.write.inj (Waiting.event.inj heq)
    exact hfresh x hx
  · intro p hp
    obtain ⟨-, x, hx, -, i, -, -, hkey⟩ := h.inFlight p hp
    rw [hkey]
    exact hfresh x hx

/-- A refused message uses up an id, and that is all. -/
theorem InTransit.refused {pending : List (SentMessage × Nat)} {t t' : Transfer}
    (h : InTransit sender receiver pending t) {numbers : NumberState}
    (hrun : LinkRun sender receiver (Carries receiver) t'.left t'.right)
    (hcalls : ∀ call ∈ t.left.calls, call ∈ t'.left.calls)
    (hstate : t'.left.state = t.left.state.withNumbers numbers) (hright : t'.right = t.right)
    (haccepted : t'.accepted = t.accepted) (hdelivered : t'.delivered = t.delivered) :
    InTransit sender receiver pending t' where
  run := hrun
  account := by rw [haccepted, hdelivered]; exact h.account
  sent x hx := by
    obtain ⟨send, hsend, hm⟩ := h.sent x hx
    exact ⟨send, hcalls send hsend, hm⟩
  ids := h.ids
  taken_lt := h.taken_lt
  taken_tail := h.taken_tail
  waiting := by rw [hstate]; exact h.waiting
  inFlight := by rw [hstate]; exact h.inFlight
  rest := by rw [hstate]; exact h.rest
  idle := by rw [hright]; exact h.idle
  unused := by rw [hright]; exact h.unused
  quiet := by rw [hright]; exact h.quiet
  unseen := by rw [hright]; exact h.unseen
  gathered := by rw [hright]; exact h.gathered

/-- An accepted message goes to the end of the line. -/
theorem InTransit.enqueued {pending : List (SentMessage × Nat)} {t t' : Transfer} {m : SentMessage}
    (hsame : sender.integrity = receiver.integrity) (h : InTransit sender receiver pending t)
    (hcount : sendCount t.left.calls + 1 < 2 ^ 32)
    (hid : m.messageId = NumberState.nextId t.left.state.numbers.messageIdState)
    (hkind : m.packetType = .data ∨ m.packetType = .log)
    (hrun : LinkRun sender receiver (Carries receiver) t'.left t'.right)
    (hcalls : ∀ call ∈ t.left.calls, call ∈ t'.left.calls)
    (hsent : ∃ send ∈ t'.left.calls, send.accepted sender = some m)
    (hwhole : SentWhole sender t.left.state m t'.left.state) (hright : t'.right = t.right)
    (haccepted : t'.accepted = t.accepted ++ [m]) (hdelivered : t'.delivered = t.delivered) :
    InTransit sender receiver (pending ++ [(m, 0)]) t' := by
  obtain ⟨hunseen, hnone⟩ := h.run.unknown hsame hcount hid
  have hunused := h.idUnused hcount
  refine ⟨hrun, ?_, ?_, ?_, ?_, ?_, ?_, ?_, ?_, ?_, ?_, ?_, ?_, ?_⟩
  · rw [haccepted, hdelivered, h.account, List.map_append, List.append_assoc]
    rfl
  · intro x hx
    rcases List.mem_append.mp hx with hx | hx
    · obtain ⟨send, hsend, hm⟩ := h.sent x hx
      exact ⟨send, hcalls send hsend, hm⟩
    · obtain rfl := List.mem_singleton.mp hx
      exact hsent
  · rw [List.map_append, List.map_singleton, List.nodup_append]
    refine ⟨h.ids, List.nodup_singleton _, ?_⟩
    intro id hold id' hnew
    obtain rfl := List.mem_singleton.mp hnew
    obtain ⟨x, hx, rfl⟩ := List.mem_map.mp hold
    obtain ⟨send, hsend, hm⟩ := h.sent x hx
    rw [hid]
    exact h.run.runs.1.idInv.fresh hcount hsend hm
  · intro x hx
    rcases List.mem_append.mp hx with hx | hx
    · exact h.taken_lt x hx
    · obtain rfl := List.mem_singleton.mp hx
      exact m.count_pos sender
  · intro x hx
    cases pending with
    | nil => cases hx
    | cons y pending =>
      rw [List.cons_append, List.tail_cons] at hx
      rcases List.mem_append.mp hx with hx | hx
      · exact h.taken_tail x hx
      · rw [List.mem_singleton.mp hx]
  · rw [hwhole.waitingList, h.waiting, List.flatMap_append, List.flatMap_singleton]
  · intro p hp
    have hold : p ∈ t.left.state.recovery.packets → p.sent = false ∧
        ∃ x ∈ pending ++ [(m, 0)], x.1.packetType = .data ∧ ∃ i, x.2 ≤ i ∧ i < x.1.count sender ∧
          p.key = x.1.packetKey i := by
      intro hp
      obtain ⟨hunsent, x, hx, hrest⟩ := h.inFlight p hp
      exact ⟨hunsent, x, List.mem_append_left _ hx, hrest⟩
    rcases hkind with hdata | hlog
    · rcases List.mem_append.mp ((hwhole.tracked hdata).mem_iff.mp hp) with hp | hp
      · exact hold hp
      · obtain ⟨i, hi, rfl⟩ := List.mem_map.mp hp
        exact ⟨rfl, _, List.mem_append_right _ (List.mem_singleton_self _), hdata, i, Nat.zero_le i,
          List.mem_range.mp hi, rfl⟩
    · rw [hwhole.untracked hlog] at hp
      exact hold hp
  · rw [hwhole.frame.ingress]
    exact h.rest
  · rw [hright]
    exact h.idle
  · rw [hright]
    exact h.unused
  · rw [hright]
    exact h.quiet
  · intro x hx
    rw [hright]
    rcases List.mem_append.mp hx with hx | hx
    · exact h.unseen x hx
    · obtain rfl := List.mem_singleton.mp hx
      exact fun _ i _ _ => hunseen i
  · intro x hx
    rw [hright]
    rcases List.mem_append.mp hx with hx | hx
    · exact h.gathered x hx
    · obtain rfl := List.mem_singleton.mp hx
      exact .nothing hnone

/-- What a send does to the messages that were accepted. -/
theorem Transfer.accepted_submit {t : Transfer} {op : EngineOp} {packetType : PacketType}
    {message : Bytes}
    (hcalls : op.calls sender t.left.state = [⟨t.left.state, .send packetType message⟩]) :
    (t.submit sender op).accepted = t.accepted ++
      (Call.accepted sender ⟨t.left.state, .send packetType message⟩).toList := by
  show t.accepted ++ _ = _
  rw [hcalls]
  cases haccepted : Call.accepted sender ⟨t.left.state, .send packetType message⟩ with
  | none => simp [haccepted]
  | some m => simp [haccepted]

/-- A message that is accepted is the last of the line. -/
theorem InTransit.submitted {pending : List (SentMessage × Nat)} {t : Transfer}
    (hsame : sender.integrity = receiver.integrity) (h : InTransit sender receiver pending t)
    (hcount : sendCount t.left.calls + 1 < 2 ^ 32) {packetType : PacketType} {message : Bytes}
    (hkind : packetType = .data ∨ packetType = .log) {op : EngineOp}
    (hreceive : ∀ bytes, op ≠ .receive bytes)
    (hcalls : op.calls sender t.left.state = [⟨t.left.state, .send packetType message⟩])
    (hafter : op.after sender t.left.state =
      (t.left.state.sendFragmentedMessage sender packetType message).1) {id : MessageId}
    (hresult : (t.left.state.sendFragmentedMessage sender packetType message).2 = .ok id) :
    InTransit sender receiver (pending ++ [(t.left.state.nextMessage packetType message, 0)])
      (t.submit sender op) := by
  obtain ⟨rfl, hwhole⟩ :=
    (sendFragmentedMessage_allOrNothing sender t.left.state hkind message).accepted id hresult
  have hsome : Call.accepted sender ⟨t.left.state, .send packetType message⟩ =
      some (t.left.state.nextMessage packetType message) := by
    simp only [Call.accepted, hresult]
    rfl
  have hid : (t.left.state.nextMessage packetType message).messageId =
      NumberState.nextId t.left.state.numbers.messageIdState := (isSend_of_accepted hsome).2
  refine h.enqueued hsame hcount hid hkind
    (h.run.left op fun bytes hop => absurd hop (hreceive bytes))
    (fun call hc => List.mem_append_left _ hc) ⟨_, ?_, hsome⟩ ?_ rfl ?_ rfl
  · refine List.mem_append_right _ ?_
    rw [hcalls]
    exact List.mem_singleton_self _
  · rw [show (t.submit sender op).left.state = _ from hafter]
    apply hwhole
    rw [hid]
    exact h.idUnused hcount
  · rw [Transfer.accepted_submit hcalls, hsome]
    rfl

/-- **Submitting a message puts it at the end of the line, or leaves the line as it is.** -/
theorem InTransit.submit {pending : List (SentMessage × Nat)} {t : Transfer}
    (hsame : sender.integrity = receiver.integrity) (h : InTransit sender receiver pending t)
    (hcount : sendCount t.left.calls + 1 < 2 ^ 32) {packetType : PacketType} {message : Bytes}
    (hkind : packetType = .data ∨ packetType = .log) {op : EngineOp}
    (hreceive : ∀ bytes, op ≠ .receive bytes)
    (hcalls : op.calls sender t.left.state = [⟨t.left.state, .send packetType message⟩])
    (hafter : op.after sender t.left.state =
      (t.left.state.sendFragmentedMessage sender packetType message).1) :
    ∃ pending', InTransit sender receiver pending' (t.submit sender op) := by
  cases hresult : (t.left.state.sendFragmentedMessage sender packetType message).2 with
  | error e =>
    have hall := sendFragmentedMessage_allOrNothing sender t.left.state hkind message
    have hnone : Call.accepted sender ⟨t.left.state, .send packetType message⟩ = none := by
      simp [Call.accepted, hresult]
    have hstate : (t.submit sender op).left.state =
        (t.left.state.sendFragmentedMessage sender packetType message).1 := hafter
    refine ⟨pending, h.refused (h.run.left op fun bytes hop => absurd hop (hreceive bytes))
      (fun call hc => List.mem_append_left _ hc) (hstate.trans (hall.refused e hresult)) rfl ?_ rfl⟩
    rw [Transfer.accepted_submit hcalls, hnone]
    exact List.append_nil _
  | ok id => exact ⟨_, h.submitted hsame hcount hkind hreceive hcalls hafter hresult⟩

end Submit

/-! ## Replies -/

namespace Waiting

/-- What the other side gets to see of it. -/
def wire? (integrity : IntegrityConfig) : Waiting → Option Bytes
  | .ack key => some (envelope integrity (ackPacketBytes key))
  | .event (.write write) => some write.wire.bytes
  | _ => none

/-- What the application gets to see of it. -/
def message? : Waiting → Option MessageEvent
  | .message e => some e
  | _ => none

end Waiting

section Replies
variable {sender receiver : EngineConfig} {txLen peerMs : Nat} {t : Transfer}

/-- A poll seen from outside, by what waits. -/
theorem Untransmitted.seen {party : Party} {config : EngineConfig} {nowMs : Nat}
    (h : Untransmitted party.state) (htx : maxWireBytes ≤ txLen) :
    party.emits config nowMs txLen =
        party.state.waitingList.head?.bind (Waiting.wire? config.integrity) ∧
      Call.delivered config ⟨party.state, .poll nowMs txLen⟩ =
        party.state.waitingList.head?.bind Waiting.message? ∧
      (party.step config (.poll nowMs txLen)).state.waitingList = party.state.waitingList.tail := by
  show _ ∧ _ ∧ (party.state.poll config nowMs txLen).1.waitingList = _
  cases hwaiting : party.state.waitingList with
  | nil =>
    obtain ⟨hresult, hempty, -⟩ := @Untransmitted.poll_nil config _ nowMs txLen h hwaiting htx
    simp [Party.emits, Call.emitted, Call.delivered, Call.polled, hresult, hempty]
  | cons item items =>
    obtain ⟨hresult, hitems, -⟩ := @Untransmitted.poll_cons config _ nowMs txLen h _ _ hwaiting htx
    refine ⟨?_, ?_, hitems⟩
    · cases item with
      | ack | message =>
        simp [Party.emits, Call.emitted, Call.polled, hresult, Waiting.action, Waiting.wire?]
      | event e =>
        cases e <;>
          simp [Party.emits, Call.emitted, Call.polled, hresult, Waiting.action, Waiting.wire?]
    · cases item with
      | ack | message =>
        simp [Call.delivered, Call.polled, hresult, Waiting.action, Waiting.message?]
      | event e =>
        cases e <;> simp [Call.delivered, Call.polled, hresult, Waiting.action, Waiting.message?]

/-- The side has no packets of its own in flight. -/
theorem untransmitted_of_nil {st : EngineState} (h : st.recovery.packets = []) :
    Untransmitted st := by
  intro p hp
  rw [h] at hp
  cases hp

theorem packets_poll_of_nil {config : EngineConfig} {st : EngineState} {nowMs : Nat}
    (h : st.recovery.packets = []) (htx : maxWireBytes ≤ txLen) :
    (st.poll config nowMs txLen).1.recovery.packets = [] := by
  have hnone := untransmitted_of_nil h
  have hticked := (hnone.tick config nowMs).2.trans h
  cases hwaiting : st.waitingList with
  | nil => exact (hnone.poll_nil hwaiting htx).2.2.trans h
  | cons item items =>
    obtain ⟨-, -, hrecovery⟩ := @Untransmitted.poll_cons config _ nowMs txLen hnone _ _ hwaiting htx
    apply List.eq_nil_iff_forall_not_mem.mpr
    intro p hp
    rw [hrecovery] at hp
    have hfold : p ∈ ([item].foldl (Waiting.note nowMs)
        (st.tickRetransmit config nowMs).recovery).packets := hp
    obtain ⟨q, hq, -⟩ := Waiting.mem_packets_foldl_note.mp hfold
    rw [hticked] at hq
    cases hq

/-- What waits at a receiver behind a packet: the acknowledgement and the message, if there is one. -/
def answers (acked : Option PacketKey) (message : Option MessageEvent) : List Waiting :=
  (acked.map Waiting.ack).toList ++ (message.map Waiting.message).toList

/-- **Two replies hand over the answers**, and nothing waits afterwards. -/
theorem reply_reply {acked : Option PacketKey} {message : Option MessageEvent}
    (hunused : t.right.state.recovery.packets = [])
    (hwaiting : t.right.state.waitingList = answers acked message) (htx : maxWireBytes ≤ txLen) :
    (t.reply sender receiver txLen peerMs).reply sender receiver txLen peerMs =
        { t with
          left := t.left.takes sender
            (acked.map fun key => envelope receiver.integrity (ackPacketBytes key))
          right := (t.right.step receiver (.poll peerMs txLen)).step receiver (.poll peerMs txLen)
          delivered := t.delivered ++ message.toList } ∧
      ((t.right.step receiver (.poll peerMs txLen)).step receiver
        (.poll peerMs txLen)).state.waitingList = [] := by
  have hfirst := @Untransmitted.seen txLen t.right receiver peerMs (untransmitted_of_nil hunused) htx
  have hnone : (t.right.step receiver (.poll peerMs txLen)).state.recovery.packets = [] :=
    packets_poll_of_nil hunused htx
  have hsecond := @Untransmitted.seen txLen (t.right.step receiver (.poll peerMs txLen)) receiver
    peerMs (untransmitted_of_nil hnone) htx
  rw [hfirst.2.2, hwaiting] at hsecond
  rw [hwaiting] at hfirst
  obtain ⟨hwire, hmessage, -⟩ := hfirst
  obtain ⟨hwire', hmessage', hempty⟩ := hsecond
  rw [hempty]
  simp only [Transfer.reply, hwire, hmessage, hwire', hmessage']
  rcases acked with _ | key <;> rcases message with _ | e <;>
    simp [answers, Waiting.wire?, Waiting.message?, Party.takes]

end Replies

end Msrt
