import Msrt.DedupWindow
import Msrt.History
import Msrt.PacketFormat
import Msrt.Polling
import Msrt.ReassemblySpec

/-! # What a call does to the receive side

The receive side of an engine is its duplicate table, its reassembly table, its pending
acknowledgements and its delivery queue.  One lemma says what they are after a call,
in terms of what the history records about the call (`Call.receiveStep`); invariants of runs are
derived from it and never open the operations.
-/

namespace Msrt
open EngineState

/-! ## One packet -/

/-- The fields a packet of the message path leaves alone. -/
structure MessageFrame (st st' : EngineState) : Prop where
  clock : st'.clock = st.clock
  numbers : st'.numbers = st.numbers
  scheduler : st'.scheduler = st.scheduler
  recovery : st'.recovery = st.recovery
  ingress : st'.ingress = st.ingress

theorem acknowledge_eq_some {st st' : EngineState} {ackEliciting : Bool} {key : PacketKey}
    (h : st.acknowledge ackEliciting key = some st') :
    (st' = st ∨ RingQueue.toList st'.ack = RingQueue.toList st.ack ++ [key]) ∧
      MessageFrame st st' ∧ st'.receive = st.receive ∧ st'.reassembly = st.reassembly ∧
      st'.message = st.message := by
  unfold acknowledge at h
  split at h
  · obtain ⟨ack, hack, rfl⟩ := Option.map_eq_some_iff.mp h
    refine ⟨.inr ?_, ⟨rfl, rfl, rfl, rfl, rfl⟩, rfl, rfl, rfl⟩
    unfold AckState.observe at hack
    split at hack
    · cases hack
    · obtain rfl := Option.some.inj hack
      exact RingQueue.toList_pushBack ..
  · obtain rfl := Option.some.inj h
    exact ⟨.inl rfl, ⟨rfl, rfl, rfl, rfl, rfl⟩, rfl, rfl, rfl⟩

/-- The delivery queue once reassembly has answered. -/
def deliver (message : MessageState) (packetType : PacketType) :
    Except Error (Option MessageEvent) → MessageState
  | .ok (some event) => MessageState.push message { event with packetType := packetType }
  | .ok none => message
  | .error _ => message

/-- What a packet does to the receive side once its fragment is handed to reassembly. -/
structure Reassembled (st : EngineState) (packetType : PacketType) (fragment : MessageFragment)
    (st' : EngineState) : Prop where
  frame : MessageFrame st st'
  reassembly : st'.reassembly = (st.reassembly.observe fragment st.clock.nowMs).1
  message : st'.message = deliver st.message packetType
    (st.reassembly.observe fragment st.clock.nowMs).2

theorem reassemble_spec (st : EngineState) (packetType : PacketType) (fragment : MessageFragment) :
    Reassembled st packetType fragment (st.reassemble packetType fragment).1 ∧
      (st.reassemble packetType fragment).1.receive = st.receive ∧
      (st.reassemble packetType fragment).1.ack = st.ack ∧
      ((st.reassemble packetType fragment).2.isOk =
        (st.reassembly.observe fragment st.clock.nowMs).2.isOk) := by
  unfold reassemble
  dsimp only
  cases hobs : (st.reassembly.observe fragment st.clock.nowMs).2 with
  | error e => exact ⟨⟨⟨rfl, rfl, rfl, rfl, rfl⟩, rfl, by rw [hobs]; rfl⟩, rfl, rfl, rfl⟩
  | ok event =>
    cases event with
    | none => exact ⟨⟨⟨rfl, rfl, rfl, rfl, rfl⟩, rfl, by rw [hobs]; rfl⟩, rfl, rfl, rfl⟩
    | some event => exact ⟨⟨⟨rfl, rfl, rfl, rfl, rfl⟩, rfl, by rw [hobs]; rfl⟩, rfl, rfl, rfl⟩

/-- What a DATA packet does. -/
inductive DataStep (st : EngineState) (fragment : MessageFragment) (st' : EngineState) : Prop
  | duplicate : st.receive.isDuplicate fragment.key = true → MessageFrame st st' →
      st'.receive = st.receive → st'.reassembly = st.reassembly → st'.message = st.message →
      (st'.ack = st.ack ∨ RingQueue.toList st'.ack = RingQueue.toList st.ack ++ [fragment.key]) →
      DataStep st fragment st'
  | refused : st.receive.isDuplicate fragment.key = false →
      (st.reassembly.observe fragment st.clock.nowMs).2.isOk = false →
      Reassembled st .data fragment st' → st'.receive = st.receive → st'.ack = st.ack →
      DataStep st fragment st'
  | accepted : st.receive.isDuplicate fragment.key = false →
      (st.reassembly.observe fragment st.clock.nowMs).2.isOk = true →
      Reassembled st .data fragment st' →
      st'.receive = (st.receive.observePacket fragment.key).1 →
      (st'.ack = st.ack ∨ RingQueue.toList st'.ack = RingQueue.toList st.ack ++ [fragment.key]) →
      DataStep st fragment st'

theorem receiveData_spec (st : EngineState) (fragment : MessageFragment) :
    DataStep st fragment (st.receiveData fragment).1 := by
  unfold receiveData
  split
  · rename_i hdup
    split
    · exact .duplicate hdup ⟨rfl, rfl, rfl, rfl, rfl⟩ rfl rfl rfl (.inl rfl)
    · rename_i st' hack
      obtain ⟨hacks, hframe, hreceive, hreassembly, hmessage⟩ := acknowledge_eq_some hack
      exact .duplicate hdup hframe hreceive hreassembly hmessage
        (hacks.imp_left (congrArg EngineState.ack))
  · rename_i hdup
    have hfresh : st.receive.isDuplicate fragment.key = false := by simpa using hdup
    obtain ⟨hspec, hreceive, hack, hok⟩ := reassemble_spec st .data fragment
    rcases hr : st.reassemble .data fragment with ⟨st₁, _ | _⟩
    · rw [hr] at hspec hreceive hack hok
      exact .refused hfresh hok.symm hspec hreceive hack
    · rw [hr] at hspec hreceive hack hok
      dsimp only at hspec hreceive hack hok ⊢
      -- nothing in between touches the window, so the key is as fresh as it was found
      obtain ⟨-, -, hacc⟩ := PacketDedup.observePacket_fresh (by decide) hfresh
      rw [← hreceive] at hacc
      rw [hacc]
      dsimp only
      split
      · refine .accepted hfresh hok.symm ⟨⟨hspec.frame.clock, hspec.frame.numbers,
          hspec.frame.scheduler, hspec.frame.recovery, hspec.frame.ingress⟩, hspec.reassembly,
          hspec.message⟩ (by rw [hreceive]) (.inl hack)
      · rename_i st₂ hack₂
        obtain ⟨hacks, hframe, hreceive₂, hreassembly, hmessage⟩ := acknowledge_eq_some hack₂
        refine .accepted hfresh hok.symm ⟨⟨hframe.clock.trans hspec.frame.clock,
          hframe.numbers.trans hspec.frame.numbers, hframe.scheduler.trans hspec.frame.scheduler,
          hframe.recovery.trans hspec.frame.recovery, hframe.ingress.trans hspec.frame.ingress⟩,
          hreassembly.trans hspec.reassembly, hmessage.trans hspec.message⟩
          (by rw [hreceive₂, hreceive]) ?_
        rcases hacks with rfl | hacks
        · exact .inl hack
        · rw [← hack]
          exact .inr hacks

theorem receiveData_frame (st : EngineState) (fragment : MessageFragment) :
    MessageFrame st (st.receiveData fragment).1 := by
  cases receiveData_spec st fragment with
  | duplicate _ hframe => exact hframe
  | refused _ _ hspec => exact hspec.frame
  | accepted _ _ hspec => exact hspec.frame

theorem receiveLog_spec (st : EngineState) (fragment : MessageFragment) :
    Reassembled st .log fragment (st.receiveLog fragment).1 ∧
      (st.receiveLog fragment).1.receive = st.receive ∧
      (st.receiveLog fragment).1.ack = st.ack := by
  obtain ⟨hspec, hreceive, hack, -⟩ := reassemble_spec st .log fragment
  unfold receiveLog
  rcases hr : st.reassemble .log fragment with ⟨st₁, _ | _⟩
  · rw [hr] at hspec hreceive hack
    exact ⟨hspec, hreceive, hack⟩
  · rw [hr] at hspec hreceive hack
    exact ⟨hspec, hreceive, hack⟩

/-! ## One call -/

theorem packetType_of_decode_data {bytes : Bytes} {header : DataHeader}
    {fragment : MessageFragment} (h : decodePacketBytes bytes = .data header fragment) :
    fragment.packetType = .data := by
  unfold decodePacketBytes at h
  split at h <;> try (split at h <;> cases h)
  · cases h
  · rename_i hdata
    simp only [dataFromPacketBytes, dataFragmentFromPacketBytes, Option.bind_eq_bind,
      Option.bind_eq_some_iff] at hdata
    obtain ⟨_, _, _, ⟨_, _, hfragment⟩, hpair⟩ := hdata
    obtain ⟨rfl, rfl⟩ := Prod.mk.inj (Option.some.inj hpair)
    split at hfragment
    · cases hfragment
    · exact congrArg MessageFragment.packetType (Option.some.inj hfragment).symm

theorem packetType_of_decode_log {bytes : Bytes} {header : LogHeader}
    {fragment : MessageFragment} (h : decodePacketBytes bytes = .log header fragment) :
    fragment.packetType = .log := by
  unfold decodePacketBytes at h
  split at h <;> try (split at h <;> cases h)
  · cases h
  · rename_i hlog
    simp only [logFromPacketBytes, logFragmentFromPacketBytes, Option.bind_eq_bind,
      Option.bind_eq_some_iff] at hlog
    obtain ⟨_, _, _, ⟨_, _, hfragment⟩, hpair⟩ := hlog
    obtain ⟨rfl, rfl⟩ := Prod.mk.inj (Option.some.inj hpair)
    split at hfragment
    · cases hfragment
    · exact congrArg MessageFragment.packetType (Option.some.inj hfragment).symm

namespace Call
variable (config : EngineConfig)

/-- The call hands nothing to reassembly. -/
structure Silent (call : Call) : Prop where
  observed : call.observed = none
  accepted : call.acceptedFragment = none
  pushed : call.pushed = none

/-- What a call does to the receive side. -/
inductive ReceiveStep (call : Call) : Prop
  | untouched : call.Silent →
      (call.after config).receive = call.before.receive →
      (call.after config).reassembly = call.before.reassembly →
      (call.after config).ack = call.before.ack →
      (call.after config).message = call.before.message → ReceiveStep call
  | poll (nowMs txLen : Nat) : call.op = .poll nowMs txLen → call.Silent →
      (call.after config).receive = call.before.receive →
      (call.after config).reassembly =
        call.before.reassembly.expire nowMs config.reassemblyTimeoutMs →
      RingQueue.toList (call.after config).ack <:+ RingQueue.toList call.before.ack →
      RingQueue.toList (call.after config).message <:+ RingQueue.toList call.before.message →
      ReceiveStep call
  | duplicate (key : PacketKey) : call.Silent →
      call.before.receive.isDuplicate key = true →
      (call.after config).receive = call.before.receive →
      (call.after config).reassembly = call.before.reassembly →
      ((call.after config).ack = call.before.ack ∨
        RingQueue.toList (call.after config).ack = RingQueue.toList call.before.ack ++ [key]) →
      (call.after config).message = call.before.message → ReceiveStep call
  | observed (fragment : MessageFragment) : call.observed = some fragment →
      call.pushed = (call.reassembled fragment).map ({ · with packetType := fragment.packetType }) →
      Reassembled call.before fragment.packetType fragment (call.after config) →
      call.acceptedFragment = none → (fragment.packetType = .data →
        (call.before.reassembly.observe fragment call.before.clock.nowMs).2.isOk = false) →
      (call.after config).receive = call.before.receive →
      (call.after config).ack = call.before.ack → ReceiveStep call
  | accepted (fragment : MessageFragment) : call.observed = some fragment →
      call.pushed = (call.reassembled fragment).map ({ · with packetType := fragment.packetType }) →
      Reassembled call.before fragment.packetType fragment (call.after config) →
      call.acceptedFragment = some fragment → fragment.packetType = .data →
      call.before.receive.isDuplicate fragment.key = false →
      (call.after config).receive = (call.before.receive.observePacket fragment.key).1 →
      ((call.after config).ack = call.before.ack ∨ RingQueue.toList (call.after config).ack =
        RingQueue.toList call.before.ack ++ [fragment.key]) → ReceiveStep call

theorem receiveStep_of_frame {call : Call} (hs : call.Silent)
    (h : SendFrame call.before (call.after config)) : ReceiveStep config call :=
  .untouched hs h.receive h.reassembly h.ack h.message

theorem receiveStep_poll (st : EngineState) (nowMs txLen : Nat) :
    ReceiveStep config ⟨st, .poll nowMs txLen⟩ := by
  obtain ⟨ticked, -, hframe, hstep⟩ := poll_spec config st nowMs txLen
  have hpoll : OutputFrame (st.advanceClock config nowMs) (st.poll config nowMs txLen).1 :=
    st.poll_frame nowMs txLen
  have hack : ticked.ack = st.ack := hframe.ack
  have hmessage : ticked.message = st.message := hframe.message
  exact .poll nowMs txLen rfl ⟨rfl, rfl, rfl⟩ hpoll.receive hpoll.reassembly
    (hack ▸ hstep.ack_suffix) (hmessage ▸ hstep.message_suffix)

theorem receiveStep_data (st : EngineState) {bytes : Bytes} {header : DataHeader}
    {fragment : MessageFragment} (hdec : decodePacketBytes bytes = .data header fragment) :
    ReceiveStep config ⟨st, .packet bytes⟩ := by
  have hkind := packetType_of_decode_data hdec
  have hafter : after config ⟨st, .packet bytes⟩ = (st.receiveData fragment).1 := by
    simp only [after, receiveCompletePacket, hdec]
  have hobserved (hfresh : st.receive.isDuplicate fragment.key = false) :
      observed ⟨st, .packet bytes⟩ = some fragment := by simp [observed, hdec, hfresh]
  have hpushed (hfresh : st.receive.isDuplicate fragment.key = false) :
      pushed ⟨st, .packet bytes⟩ = (reassembled ⟨st, .packet bytes⟩ fragment).map
        ({ · with packetType := fragment.packetType }) := by simp [pushed, hdec, hfresh, hkind]
  cases receiveData_spec st fragment with
  | duplicate hdup _ hreceive hreassembly hmessage hack =>
    refine .duplicate fragment.key ⟨?_, ?_, ?_⟩ hdup (hafter ▸ hreceive)
      (hafter ▸ hreassembly) (hafter ▸ hack) (hafter ▸ hmessage)
    · simp [observed, hdec, hdup]
    · simp [acceptedFragment, hdec, hdup]
    · simp [pushed, hdec, hdup]
  | refused hfresh hok hspec hreceive hack =>
    refine .observed fragment (hobserved hfresh) (hpushed hfresh) (hafter ▸ hkind ▸ hspec) ?_
      (fun _ => hok) (hafter ▸ hreceive) (hafter ▸ hack)
    cases hobs : (st.reassembly.observe fragment st.clock.nowMs).2 with
    | error e => simp [acceptedFragment, hdec, hfresh, hobs]
    | ok event => rw [hobs] at hok; cases hok
  | accepted hfresh hok hspec hreceive hack =>
    refine .accepted fragment (hobserved hfresh) (hpushed hfresh) (hafter ▸ hkind ▸ hspec) ?_
      hkind hfresh (hafter ▸ hreceive) (hafter ▸ hack)
    cases hobs : (st.reassembly.observe fragment st.clock.nowMs).2 with
    | error e => rw [hobs] at hok; cases hok
    | ok event => simp [acceptedFragment, hdec, hfresh, hobs]

theorem receiveStep_log (st : EngineState) {bytes : Bytes} {header : LogHeader}
    {fragment : MessageFragment} (hdec : decodePacketBytes bytes = .log header fragment) :
    ReceiveStep config ⟨st, .packet bytes⟩ := by
  have hkind := packetType_of_decode_log hdec
  have hafter : after config ⟨st, .packet bytes⟩ = (st.receiveLog fragment).1 := by
    simp only [after, receiveCompletePacket, hdec]
  obtain ⟨hspec, hreceive, hack⟩ := receiveLog_spec st fragment
  refine .observed fragment (by simp [observed, hdec]) (by simp [pushed, hdec, hkind])
    (hafter ▸ hkind ▸ hspec) (by simp [acceptedFragment, hdec]) ?_
    (hafter ▸ hreceive) (hafter ▸ hack)
  intro h
  rw [hkind] at h
  cases h

/-- A PING is answered, if there is room, and nothing else. -/
theorem after_ping (st : EngineState) {bytes : Bytes} (hdec : decodePacketBytes bytes = .ping) :
    after config ⟨st, .packet bytes⟩ = (st.queueLiveness config .pong .control).1 := by
  simp only [after, receiveCompletePacket, hdec, queuePong]
  rcases st.queueLiveness config .pong .control with ⟨st', _ | _⟩ <;> rfl

/-- **What a call does to the receive side.** -/
theorem receiveStep (call : Call) : ReceiveStep config call := by
  obtain ⟨st, op⟩ := call
  cases op with
  | send packetType message =>
    exact receiveStep_of_frame config ⟨rfl, rfl, rfl⟩
      (st.sendFragmentedMessage_frame packetType message)
  | sendPing =>
    exact receiveStep_of_frame config ⟨rfl, rfl, rfl⟩ (st.queueLiveness_frame .ping .newData)
  | poll nowMs txLen => exact receiveStep_poll config st nowMs txLen
  | packet bytes =>
    have hsilent (h : ∀ header fragment, decodePacketBytes bytes ≠ .data header fragment)
        (h' : ∀ header fragment, decodePacketBytes bytes ≠ .log header fragment) :
        Silent ⟨st, .packet bytes⟩ := by
      cases hdec : decodePacketBytes bytes with
      | data header fragment => exact absurd hdec (h header fragment)
      | log header fragment => exact absurd hdec (h' header fragment)
      | ack | ping | pong | malformed =>
        exact ⟨by simp [observed, hdec], by simp [acceptedFragment, hdec], by simp [pushed, hdec]⟩
    cases hdec : decodePacketBytes bytes with
    | data header fragment => exact receiveStep_data config st hdec
    | log header fragment => exact receiveStep_log config st hdec
    | ping =>
      apply receiveStep_of_frame config (hsilent (by simp [hdec]) (by simp [hdec]))
      rw [after_ping config st hdec]
      exact st.queueLiveness_frame .pong .control
    | ack key =>
      apply receiveStep_of_frame config (hsilent (by simp [hdec]) (by simp [hdec]))
      simp only [after, receiveCompletePacket, hdec]
      exact ⟨rfl, rfl, rfl, rfl, rfl, rfl⟩
    | pong | malformed =>
      apply receiveStep_of_frame config (hsilent (by simp [hdec]) (by simp [hdec]))
      simp only [after, receiveCompletePacket, hdec]
      exact .refl st

theorem mem_toList_push {message : MessageState} {event e : MessageEvent}
    (h : e ∈ RingQueue.toList (MessageState.push message event)) :
    e = event ∨ e ∈ RingQueue.toList message := by
  unfold MessageState.push at h
  split at h
  · rw [RingQueue.toList_overwriteOldest] at h
    rcases List.mem_append.mp h with h | h
    · exact .inr (List.mem_of_mem_tail h)
    · exact .inl (List.mem_singleton.mp h)
  · rw [RingQueue.toList_pushBack] at h
    rcases List.mem_append.mp h with h | h
    · exact .inr h
    · exact .inl (List.mem_singleton.mp h)

/-- What reassembly completes is pushed. -/
theorem mem_message_of_reassembled {call : Call} {st' : EngineState}
    {fragment : MessageFragment} {e : MessageEvent}
    (hspec : Reassembled call.before fragment.packetType fragment st')
    (he : e ∈ RingQueue.toList st'.message) :
    e ∈ RingQueue.toList call.before.message ∨
      (call.reassembled fragment).map ({ · with packetType := fragment.packetType }) = some e := by
  rw [hspec.message] at he
  unfold reassembled
  rcases hr : (call.before.reassembly.observe fragment call.before.clock.nowMs).2 with _ | _ | event
  · rw [hr] at he
    exact .inl he
  · rw [hr] at he
    exact .inl he
  · rw [hr] at he
    rcases mem_toList_push he with rfl | he
    · exact .inr rfl
    · exact .inl he

/-- The delivery queue holds nothing but what it held and what the call pushed. -/
theorem mem_message_after {call : Call} {e : MessageEvent}
    (he : e ∈ RingQueue.toList (call.after config).message) :
    e ∈ RingQueue.toList call.before.message ∨ call.pushed = some e := by
  cases call.receiveStep config with
  | untouched _ _ _ _ hmessage => exact .inl (hmessage ▸ he)
  | poll nowMs txLen _ _ _ _ _ hmessage => exact .inl (hmessage.subset he)
  | duplicate key _ _ _ _ _ hmessage => exact .inl (hmessage ▸ he)
  | observed fragment _ hpushed hspec =>
    rw [hpushed]
    exact mem_message_of_reassembled hspec he
  | accepted fragment _ hpushed hspec =>
    rw [hpushed]
    exact mem_message_of_reassembled hspec he

/-- What expiring slots and observing fragments keep, every call keeps. -/
theorem reassembly_after {I : ReassemblyState → Prop} {call : Call} (h : I call.before.reassembly)
    (hexpire : ∀ r nowMs, I r → I (r.expire nowMs config.reassemblyTimeoutMs))
    (hobserve : ∀ r fragment nowMs, I r → I (r.observe fragment nowMs).1) :
    I (call.after config).reassembly := by
  cases call.receiveStep config with
  | untouched _ _ hsame => exact hsame ▸ h
  | poll nowMs txLen _ _ _ hsame => exact hsame ▸ hexpire _ nowMs h
  | duplicate key _ _ _ hsame => exact hsame ▸ h
  | observed fragment _ _ hspec => exact hspec.reassembly ▸ hobserve _ fragment _ h
  | accepted fragment _ _ hspec => exact hspec.reassembly ▸ hobserve _ fragment _ h

/-- A pending acknowledgement was pending before, or answers a fragment that was accepted. -/
theorem mem_ack_after {call : Call} {key : PacketKey}
    (hkey : key ∈ RingQueue.toList (call.after config).ack) :
    key ∈ RingQueue.toList call.before.ack ∨ call.before.receive.isDuplicate key = true ∨
      ∃ fragment, call.acceptedFragment = some fragment ∧ fragment.key = key := by
  cases call.receiveStep config with
  | untouched _ _ _ hack => exact .inl (hack ▸ hkey)
  | poll nowMs txLen _ _ _ _ hack => exact .inl (hack.subset hkey)
  | duplicate key' _ hdup _ _ hack =>
    rcases hack with hack | hack
    · exact .inl (hack ▸ hkey)
    · rw [hack] at hkey
      rcases List.mem_append.mp hkey with hkey | hkey
      · exact .inl hkey
      · exact .inr (.inl (List.mem_singleton.mp hkey ▸ hdup))
  | observed fragment _ _ _ _ _ _ hack => exact .inl (hack ▸ hkey)
  | accepted fragment _ _ _ haccepted _ _ _ hack =>
    rcases hack with hack | hack
    · exact .inl (hack ▸ hkey)
    · rw [hack] at hkey
      rcases List.mem_append.mp hkey with hkey | hkey
      · exact .inl hkey
      · exact .inr (.inr ⟨fragment, haccepted, (List.mem_singleton.mp hkey).symm⟩)

end Call

/-! ## Rejected packets -/

namespace EngineState

/-- Why a packet is rejected: it is malformed, or it holds a fragment that declares too long a message
or another length than the message that is being reassembled. -/
def Rejects (st : EngineState) (packet : Bytes) : Prop :=
  decodePacketBytes packet = .malformed ∨ ∃ fragment : MessageFragment,
    ((∃ header, decodePacketBytes packet = .data header fragment) ∨
      ∃ header, decodePacketBytes packet = .log header fragment) ∧
    (maxMessageBytes < fragment.messageLen ∨
      ∃ slot, st.reassembly.Holds fragment.messageKey slot ∧ slot.expectedLen ≠ fragment.messageLen)

/-- A fragment that lies in its message either is taken or leaves the state as it was. -/
theorem reassemble_refused {st st' : EngineState} {packetType : PacketType}
    {fragment : MessageFragment} {e : Error}
    (h : st.reassemble packetType fragment = (st', .error e))
    (hfits : fragment.fragmentOffset + fragment.bytes.length ≤ fragment.messageLen) :
    st' = st ∧ (maxMessageBytes < fragment.messageLen ∨
      ∃ slot, st.reassembly.Holds fragment.messageKey slot ∧
        slot.expectedLen ≠ fragment.messageLen) := by
  unfold reassemble at h
  dsimp only at h
  cases hobs : (st.reassembly.observe fragment st.clock.nowMs).2 with
  | error e' =>
    obtain ⟨hsame, hwhy⟩ := ReassemblyState.observe_refused hobs hfits
    rw [hobs, hsame] at h
    exact ⟨(Prod.mk.inj h).1.symm, hwhy⟩
  | ok event =>
    rw [hobs] at h
    cases event with
    | none => cases h
    | some event => cases h

theorem receiveData_corrupted {st : EngineState} {fragment : MessageFragment}
    (h : (st.receiveData fragment).2 = .corrupted)
    (hfits : fragment.fragmentOffset + fragment.bytes.length ≤ fragment.messageLen) :
    (st.receiveData fragment).1 = st ∧ (maxMessageBytes < fragment.messageLen ∨
      ∃ slot, st.reassembly.Holds fragment.messageKey slot ∧
        slot.expectedLen ≠ fragment.messageLen) := by
  unfold receiveData at h ⊢
  split at h
  · split at h <;> cases h
  · rename_i hfresh
    rw [if_neg hfresh]
    rcases hr : st.reassemble .data fragment with ⟨st', e | ⟨⟩⟩
    · exact reassemble_refused hr hfits
    · -- once reassembly has taken the fragment, no answer is a rejection
      rw [hr] at h
      dsimp only at h
      split at h
      · cases h
      · cases h
      · split at h <;> cases h

theorem receiveLog_corrupted {st : EngineState} {fragment : MessageFragment}
    (h : (st.receiveLog fragment).2 = .corrupted)
    (hfits : fragment.fragmentOffset + fragment.bytes.length ≤ fragment.messageLen) :
    (st.receiveLog fragment).1 = st ∧ (maxMessageBytes < fragment.messageLen ∨
      ∃ slot, st.reassembly.Holds fragment.messageKey slot ∧
        slot.expectedLen ≠ fragment.messageLen) := by
  unfold receiveLog at h ⊢
  rcases hr : st.reassemble .log fragment with ⟨st', e | ⟨⟩⟩
  · exact reassemble_refused hr hfits
  · rw [hr] at h
    cases h

/-- **A rejected packet leaves no trace.** -/
theorem corrupted_unchanged (config : EngineConfig) (st : EngineState) (packet : Bytes)
    (h : (st.receiveCompletePacket config packet).2 = .corrupted) :
    (st.receiveCompletePacket config packet).1 = st ∧ st.Rejects packet := by
  unfold receiveCompletePacket at h ⊢
  cases hdec : decodePacketBytes packet with
  | data header fragment =>
    rw [hdec] at h
    have hpacket : (∃ header, decodePacketBytes packet = .data header fragment) ∨
        ∃ header, decodePacketBytes packet = .log header fragment := .inl ⟨header, hdec⟩
    obtain ⟨hsame, hwhy⟩ := receiveData_corrupted h (decodePacketBytes_fits hpacket)
    exact ⟨hsame, .inr ⟨fragment, hpacket, hwhy⟩⟩
  | log header fragment =>
    rw [hdec] at h
    have hpacket : (∃ header, decodePacketBytes packet = .data header fragment) ∨
        ∃ header, decodePacketBytes packet = .log header fragment := .inr ⟨header, hdec⟩
    obtain ⟨hsame, hwhy⟩ := receiveLog_corrupted h (decodePacketBytes_fits hpacket)
    exact ⟨hsame, .inr ⟨fragment, hpacket, hwhy⟩⟩
  | ack key =>
    rw [hdec] at h
    cases h
  | ping =>
    rw [hdec] at h
    dsimp only at h
    split at h <;> cases h
  | pong =>
    rw [hdec] at h
    cases h
  | malformed => exact ⟨rfl, .inl hdec⟩

/-- A DATA packet that declares 257 bytes. -/
theorem corrupted_unchanged_oversized :
    let packet : Bytes := [0x00, 0x01, 5, 0, 0, 0, 0, 0, 1, 1, 0, 0, 7]
    let st : EngineState := .new 0
    (st.receiveCompletePacket .default packet).2 = .corrupted ∧
      (st.receiveCompletePacket .default packet).1 = st ∧ st.Rejects packet := by
  intro packet st
  have hreport : (st.receiveCompletePacket .default packet).2 = .corrupted := by decide
  exact ⟨hreport, corrupted_unchanged .default st packet hreport⟩

end EngineState

end Msrt
