import Msrt.Receiving
import Msrt.Sending

/-! # One message at the receiver

The receiver's side of a message `m`, told from the history of its calls.  All that is assumed is
that every fragment handed to reassembly under the message's key is one of the message's own
(`OwnFragments`); then no slot mixes bytes of two messages, a completed slot is the message, and what
a slot holds was accepted since the message was last pushed.
-/

namespace Msrt

/-! ## The fragments the receiver reads -/

namespace SentMessage
variable {config : EngineConfig} {m : SentMessage}

/-- The key reassembly files the message under. -/
def messageKey (m : SentMessage) : MessageKey := ⟨m.packetType, m.messageId⟩

variable (config) in
/-- Fragment `i` as the receiver reads it. -/
def messageFragment (m : SentMessage) (i : Nat) : MessageFragment :=
  ⟨m.packetType, UInt16.ofNat i, m.packetType == .data, m.messageId, m.bytes.length,
    i * m.size config, m.fragment config i⟩

@[simp] theorem messageFragment_key (i : Nat) :
    (m.messageFragment config i).key = m.packetKey i := rfl

/-- **The packet of a fragment is read back as that fragment.** -/
theorem decode_packet (hm : m.Valid) {i : Nat} (hi : i < m.count config) :
    (m.packetType = .data ∧ ∃ header,
      decodePacketBytes (m.packet config i) = .data header (m.messageFragment config i)) ∨
    (m.packetType = .log ∧ ∃ header,
      decodePacketBytes (m.packet config i) = .log header (m.messageFragment config i)) := by
  have hlen := hm.length_le
  have hfit := fragment_fits hi
  unfold maxMessageBytes at hlen
  rcases hm.kind with hk | hk
  · refine .inl ⟨hk, ⟨.ackEliciting, m.messageId, UInt16.ofNat i, m.bytes.length,
      i * m.size config⟩, ?_⟩
    simp only [packet, messageFragment, hk]
    have hack : Flags.contains .ackEliciting .ackEliciting = true := by decide
    refine (decodePacketBytes_dataPacketBytes ?_ ?_).trans ?_
    · exact Nat.lt_of_le_of_lt hlen (by decide)
    · exact hfit
    · simp [DataHeader.fragment, DataHeader.isAckEliciting, hack]
  · refine .inr ⟨hk, ⟨m.messageId, UInt16.ofNat i, m.bytes.length, i * m.size config⟩, ?_⟩
    simp only [packet, messageFragment, hk]
    refine (decodePacketBytes_logPacketBytes ?_ ?_).trans rfl
    · exact Nat.lt_of_le_of_lt hlen (by decide)
    · exact hfit

/-- Byte `j` of fragment `i` is the byte of the message at that place. -/
theorem getElem?_fragment {i j : Nat} (hlo : i * m.size config ≤ j)
    (hhi : j < i * m.size config + (m.fragment config i).length) :
    (m.fragment config i)[j - i * m.size config]? = m.bytes[j]? := Chunks.getElem?_chunk hlo hhi

variable (config) in
/-- Every byte of the message lies in a fragment. -/
theorem fragment_of_byte {j : Nat} (hj : j < m.bytes.length) :
    j / m.size config < m.count config ∧ j / m.size config * m.size config ≤ j ∧
      j < j / m.size config * m.size config +
        (m.fragment config (j / m.size config)).length :=
  Chunks.mem_chunk (m.size_pos config) hj

/-- The last fragment ends where the message ends. -/
theorem exists_last_fragment (m : SentMessage) (config : EngineConfig) :
    ∃ i < m.count config, i * m.size config + (m.fragment config i).length = m.bytes.length := by
  have hcount := m.count_pos config
  have hlast : m.count config - 1 < m.count config := by omega
  refine ⟨m.count config - 1, hlast, (Chunks.chunk_last (m.size_pos config) hlast).mpr ?_⟩
  exact Nat.sub_add_cancel hcount

/-- Fragments do not overlap. -/
theorem fragment_unique {i k : Nat}
    (hlo : k * m.size config ≤ i * m.size config)
    (hhi : i * m.size config < k * m.size config + (m.fragment config k).length) : i = k :=
  Chunks.eq_of_start_mem (m.size_pos config) hlo hhi

end SentMessage

/-! ## What a call does to the slot of one message -/

namespace Call

/-- The call pushed a message under `key`. -/
def pushes (key : MessageKey) (call : Call) : Bool :=
  match call.pushed with
  | some e => e.packetType == key.packetType && e.messageId == key.messageId
  | none => false

/-- The call drops an incomplete message by age. -/
def expiresSlot (config : EngineConfig) (call : Call) : Bool :=
  match call.op with
  | .poll nowMs _ => call.before.reassembly.expires nowMs config.reassemblyTimeoutMs
  | _ => false

/-- The call drops an incomplete message to make room for another one. -/
def evictsSlot (call : Call) : Bool :=
  match call.observed with
  | some fragment => call.before.reassembly.evicts fragment
  | none => false

end Call

/-- The event a completed message is pushed as. -/
def SentMessage.event (m : SentMessage) (storage : Bytes) : MessageEvent :=
  ⟨m.packetType, m.messageId, storage, m.bytes.length⟩

section Slot
variable (sender config : EngineConfig) (m : SentMessage)

/-- Every fragment filed under the message's key is one of its own. -/
def OwnFragments (calls : List Call) : Prop :=
  ∀ call ∈ calls, ∀ fragment, call.observed = some fragment →
    fragment.messageKey = m.messageKey →
    ∃ i < m.count sender, fragment = m.messageFragment sender i

/-- What a call does to the slot of `m`. -/
inductive SlotStep (call : Call) : Prop
  | other : call.pushes m.messageKey = false →
      (∀ fragment, call.acceptedFragment = some fragment → fragment.messageKey ≠ m.messageKey) →
      (∀ s, (call.after config).reassembly.Holds m.messageKey s →
        call.before.reassembly.Holds m.messageKey s) →
      (call.expiresSlot config = false → call.evictsSlot = false → ∀ s, call.before.reassembly.Holds m.messageKey s →
        (call.after config).reassembly.Holds m.messageKey s) → SlotStep call
  | partly (i : Nat) (old slot : ReassemblySlot) : i < m.count sender →
      (call.before.reassembly.Holds m.messageKey old ∨
        ((∀ s, ¬ call.before.reassembly.Holds m.messageKey s) ∧
          old = .start m.messageKey m.bytes.length call.before.clock.nowMs)) →
      old.Written (m.messageFragment sender i) call.before.clock.nowMs slot →
      slot.isComplete = false →
      (∀ s, (call.after config).reassembly.Holds m.messageKey s ↔ s = slot ∧ s.active = true) →
      call.pushes m.messageKey = false →
      (m.packetType = .data →
        call.acceptedFragment = some (m.messageFragment sender i)) → SlotStep call
  | completed (i : Nat) (old slot : ReassemblySlot) : i < m.count sender →
      (call.before.reassembly.Holds m.messageKey old ∨
        ((∀ s, ¬ call.before.reassembly.Holds m.messageKey s) ∧
          old = .start m.messageKey m.bytes.length call.before.clock.nowMs)) →
      old.Written (m.messageFragment sender i) call.before.clock.nowMs slot →
      slot.isComplete = true →
      (∀ s, ¬ (call.after config).reassembly.Holds m.messageKey s) →
      call.pushed = some (m.event slot.bytes) →
      (m.packetType = .data →
        call.acceptedFragment = some (m.messageFragment sender i)) → SlotStep call

variable {sender config m}

/-- What is pushed carries the key of the fragment that completed it. -/
theorem key_of_reassembled {call : Call} {fragment : MessageFragment} {e : MessageEvent}
    (hd : call.before.reassembly.KeysDistinct) (h : call.reassembled fragment = some e) :
    e.packetType = fragment.packetType ∧ e.messageId = fragment.messageId := by
  unfold Call.reassembled at h
  rcases Nat.lt_or_ge maxMessageBytes fragment.messageLen with hover | hlen
  · rw [ReassemblyState.observe_oversized hover] at h
    cases h
  · obtain ⟨old, hat⟩ := ReassemblyState.observe_spec hd hlen call.before.clock.nowMs
    have hkey : old.key = fragment.messageKey := by
      rcases hat.slot_eq with hold | ⟨-, rfl⟩
      · exact hold.key_eq
      · rfl
    have hobs := old.observed fragment call.before.clock.nowMs
    rw [hat.result_eq] at h
    generalize old.observe fragment call.before.clock.nowMs = result at h hobs
    cases hobs with
    | refused e => cases h
    | partly slot => cases h
    | completed slot _ hw =>
      obtain rfl := Option.some.inj h
      have : slot.key = fragment.messageKey := hw.key.trans hkey
      exact ⟨congrArg MessageKey.packetType this, congrArg MessageKey.messageId this⟩

/-- A fragment of another message leaves the slot of `m` alone, unless it evicts it. -/
theorem slotStep_of_other_key {call : Call} (hd : call.before.reassembly.KeysDistinct)
    {fragment : MessageFragment} (hobserved : call.observed = some fragment)
    (hkey : fragment.messageKey ≠ m.messageKey)
    (hpushed : call.pushed =
      (call.reassembled fragment).map ({ · with packetType := fragment.packetType }))
    (hspec : Reassembled call.before fragment.packetType fragment (call.after config))
    (honly : ∀ f, call.acceptedFragment = some f → f = fragment) :
    SlotStep sender config m call := by
  have hevicts : call.evictsSlot = call.before.reassembly.evicts fragment := by
    unfold Call.evictsSlot
    rw [hobserved]
  refine .other ?_ ?_ ?_ ?_
  · cases hr : call.reassembled fragment with
    | none => simp [Call.pushes, hpushed, hr]
    | some e =>
      obtain ⟨htype, hid⟩ := key_of_reassembled hd hr
      simp only [Call.pushes, hpushed, hr, Option.map_some, hid, Bool.and_eq_false_iff,
        beq_eq_false_iff_ne]
      by_contra hboth
      push Not at hboth
      exact hkey (by rw [MessageFragment.messageKey, hboth.1, hboth.2])
  · intro f hf hfkey
    obtain rfl := honly f hf
    exact hkey hfkey
  · intro s hs
    rw [hspec.reassembly] at hs
    exact ReassemblyState.holds_of_observe hd (Ne.symm hkey) hs
  · intro _ hkept s hs
    rw [hspec.reassembly]
    rw [hevicts] at hkept
    exact ReassemblyState.holds_observe hd hkept (Ne.symm hkey) hs

/-- A fragment of `m` is never refused: it is written into the slot of `m`, or completes it. -/
theorem slotStep_of_own_key (hm : m.Valid) {call : Call}
    (hd : call.before.reassembly.KeysDistinct)
    (hlen : ∀ s, call.before.reassembly.Holds m.messageKey s → s.expectedLen = m.bytes.length)
    {i : Nat} (hi : i < m.count sender)
    (hpushed : call.pushed = (call.reassembled (m.messageFragment sender i)).map
      ({ · with packetType := (m.messageFragment sender i).packetType }))
    (hspec : Reassembled call.before (m.messageFragment sender i).packetType
      (m.messageFragment sender i) (call.after config))
    (haccepted : (m.messageFragment sender i).packetType = .data →
      (call.before.reassembly.observe (m.messageFragment sender i)
        call.before.clock.nowMs).2.isOk = true →
      call.acceptedFragment = some (m.messageFragment sender i)) :
    SlotStep sender config m call := by
  have hfits := SentMessage.fragment_fits hi
  have hbytes : m.bytes.length ≤ maxMessageBytes := hm.length_le
  obtain ⟨old, hat⟩ := ReassemblyState.observe_spec hd
    (show (m.messageFragment sender i).messageLen ≤ maxMessageBytes from hbytes)
    call.before.clock.nowMs
  have hexpected : old.expectedLen = m.bytes.length := by
    rcases hat.slot_eq with hold | ⟨-, rfl⟩
    · exact hlen old hold
    · rfl
  have hobs := old.observed (m.messageFragment sender i) call.before.clock.nowMs
  have hself := hat.self
  have hresult := hat.result_eq
  rw [← hspec.reassembly] at hself
  unfold Call.reassembled at hpushed
  generalize old.observe (m.messageFragment sender i) call.before.clock.nowMs = result
    at hself hresult hobs
  cases hobs with
  | refused e hcases =>
    -- each ground for refusing contradicts the length the slot was opened with
    rcases hcases with h | h | h
    · exact absurd hexpected h
    · change old.expectedLen < i * m.size sender + (m.fragment sender i).length at h
      omega
    · change maxMessageBytes < i * m.size sender + (m.fragment sender i).length at h
      omega
  | partly slot _ hw hcomplete =>
    refine .partly i old slot hi hat.slot_eq hw hcomplete hself ?_
      (fun hdata => haccepted hdata (by rw [hresult]; rfl))
    rw [hresult] at hpushed
    simp [Call.pushes, hpushed]
  | completed slot _ hw hcomplete =>
    refine .completed i old slot hi hat.slot_eq hw hcomplete ?_ ?_
      (fun hdata => haccepted hdata (by rw [hresult]; rfl))
    · intro s hs
      obtain ⟨rfl, hactive⟩ := (hself s).mp hs
      cases hactive
    · have holdkey : old.key = m.messageKey := by
        rcases hat.slot_eq with hold | ⟨-, rfl⟩
        · exact hold.key_eq
        · rfl
      rw [hresult] at hpushed
      rw [hpushed]
      simp only [Option.map_some, hw.key, holdkey, hw.expectedLen, hexpected]
      rfl

/-- What a fragment handed to reassembly does to the slot of `m`. -/
theorem slotStep_of_observed (hm : m.Valid) {call : Call}
    (hd : call.before.reassembly.KeysDistinct) (hown : OwnFragments sender m [call])
    (hlen : ∀ s, call.before.reassembly.Holds m.messageKey s → s.expectedLen = m.bytes.length)
    {fragment : MessageFragment} (hobserved : call.observed = some fragment)
    (hpushed : call.pushed =
      (call.reassembled fragment).map ({ · with packetType := fragment.packetType }))
    (hspec : Reassembled call.before fragment.packetType fragment (call.after config))
    (honly : ∀ f, call.acceptedFragment = some f → f = fragment)
    (haccepted : fragment.packetType = .data →
      (call.before.reassembly.observe fragment call.before.clock.nowMs).2.isOk = true →
      call.acceptedFragment = some fragment) : SlotStep sender config m call := by
  by_cases hkey : fragment.messageKey = m.messageKey
  · obtain ⟨i, hi, rfl⟩ := hown call (List.mem_singleton.mpr rfl) fragment hobserved hkey
    exact slotStep_of_own_key hm hd hlen hi hpushed hspec haccepted
  · exact slotStep_of_other_key hd hobserved hkey hpushed hspec honly

variable (config) in
/-- **What a call does to the slot of a message whose fragments are its own.** -/
theorem slotStep (hm : m.Valid) {call : Call} (hd : call.before.reassembly.KeysDistinct)
    (hown : OwnFragments sender m [call])
    (hlen : ∀ s, call.before.reassembly.Holds m.messageKey s → s.expectedLen = m.bytes.length) :
    SlotStep sender config m call := by
  have hquiet (hsilent : call.Silent) : call.pushes m.messageKey = false ∧
      ∀ f, call.acceptedFragment = some f → f.messageKey ≠ m.messageKey := by
    refine ⟨by simp [Call.pushes, hsilent.pushed], ?_⟩
    intro f hf
    rw [hsilent.accepted] at hf
    cases hf
  cases call.receiveStep config with
  | untouched hsilent _ hsame =>
    obtain ⟨hpushes, haccepted⟩ := hquiet hsilent
    exact .other hpushes haccepted (fun s hs => hsame ▸ hs) (fun _ _ s hs => hsame ▸ hs)
  | duplicate key hsilent _ _ hsame =>
    obtain ⟨hpushes, haccepted⟩ := hquiet hsilent
    exact .other hpushes haccepted (fun s hs => hsame ▸ hs) (fun _ _ s hs => hsame ▸ hs)
  | poll nowMs txLen hop hsilent _ hexpire =>
    obtain ⟨hpushes, haccepted⟩ := hquiet hsilent
    have hexpires : call.expiresSlot config =
        call.before.reassembly.expires nowMs config.reassemblyTimeoutMs := by
      simp [Call.expiresSlot, hop]
    refine .other hpushes haccepted ?_ ?_
    · intro s hs
      rw [hexpire] at hs
      exact ReassemblyState.holds_of_expire hs
    · intro hkept _ s hs
      rw [hexpire]
      exact ReassemblyState.holds_expire (hexpires ▸ hkept) hs
  | observed fragment hobserved hpushed hspec hnone hrefused =>
    refine slotStep_of_observed hm hd hown hlen hobserved hpushed hspec ?_ ?_
    · intro f hf
      rw [hnone] at hf
      cases hf
    · intro hdata hok
      rw [hrefused hdata] at hok
      cases hok
  | accepted fragment hobserved hpushed hspec haccepted =>
    refine slotStep_of_observed hm hd hown hlen hobserved hpushed hspec ?_ ?_
    · intro f hf
      rw [haccepted] at hf
      exact (Option.some.inj hf).symm
    · exact fun _ _ => haccepted

end Slot

/-! ## The receive side of a run -/

/-- The keys of the DATA fragments accepted so far. -/
def acceptedKeys (calls : List Call) : List PacketKey :=
  calls.filterMap (fun call => call.acceptedFragment.map MessageFragment.key)

theorem acceptedKeys_append (calls more : List Call) :
    acceptedKeys (calls ++ more) = acceptedKeys calls ++ acceptedKeys more :=
  List.filterMap_append

theorem mem_acceptedKeys {calls : List Call} {key : PacketKey} :
    key ∈ acceptedKeys calls ↔
      ∃ call ∈ calls, ∃ fragment, call.acceptedFragment = some fragment ∧ fragment.key = key := by
  simp [acceptedKeys, List.mem_filterMap]

/-- What the receive side of a run keeps. -/
structure ReceiverInv (calls : List Call) (st : EngineState) : Prop where
  distinct : st.reassembly.KeysDistinct
  remembers : st.receive.Remembers (acceptedKeys calls)
  spread : Spread maxInFlightPackets (acceptedKeys calls)
  acks : ∀ key ∈ RingQueue.toList st.ack, key ∈ acceptedKeys calls
  messages : ∀ e ∈ RingQueue.toList st.message, ∃ call ∈ calls, call.pushed = some e

theorem receiverInv_new (id : MessageId) : ReceiverInv [] (.new id) where
  distinct := ReassemblyState.keysDistinct_new
  remembers := PacketDedup.remembers_new
  spread := spread_nil _
  acks key h := by
    rw [show RingQueue.toList (EngineState.new id).ack = [] from RingQueue.toList_empty _] at h
    cases h
  messages e h := by
    rw [show RingQueue.toList (EngineState.new id).message = [] from RingQueue.toList_empty _] at h
    cases h

theorem keysDistinct_after (config : EngineConfig) {call : Call}
    (hd : call.before.reassembly.KeysDistinct) :
    (call.after config).reassembly.KeysDistinct := by
  apply Call.reassembly_after config hd
  · intro r nowMs hd
    exact ReassemblyState.keysDistinct_expire hd nowMs _
  · intro r fragment nowMs hd
    exact ReassemblyState.keysDistinct_observe hd fragment nowMs

/-- The duplicate table keeps up with the acceptances. -/
theorem remembers_after (config : EngineConfig) {calls : List Call} {call : Call}
    (hr : call.before.receive.Remembers (acceptedKeys calls))
    (hs : Spread maxInFlightPackets (acceptedKeys calls)) :
    (call.after config).receive.Remembers (acceptedKeys (calls ++ [call])) ∧
      Spread maxInFlightPackets (acceptedKeys (calls ++ [call])) := by
  have hnone (h : call.acceptedFragment = none) :
      acceptedKeys (calls ++ [call]) = acceptedKeys calls := by
    rw [acceptedKeys_append]
    simp [acceptedKeys, h]
  cases call.receiveStep config with
  | untouched hsilent hsame => rw [hsame, hnone hsilent.accepted]; exact ⟨hr, hs⟩
  | poll nowMs txLen _ hsilent hsame => rw [hsame, hnone hsilent.accepted]; exact ⟨hr, hs⟩
  | duplicate key hsilent _ hsame => rw [hsame, hnone hsilent.accepted]; exact ⟨hr, hs⟩
  | observed fragment _ _ _ haccepted _ hsame => rw [hsame, hnone haccepted]; exact ⟨hr, hs⟩
  | accepted fragment _ _ _ haccepted _ hfresh hobserve =>
    have hkeys : acceptedKeys (calls ++ [call]) = acceptedKeys calls ++ [fragment.key] := by
      rw [acceptedKeys_append]
      simp [acceptedKeys, haccepted]
    rw [hobserve, hkeys]
    exact ⟨hr.accept (by decide) hfresh, hr.spread hs hfresh⟩

theorem ReceiverInv.step {config : EngineConfig} {calls : List Call} {call : Call}
    (h : ReceiverInv calls call.before) :
    ReceiverInv (calls ++ [call]) (call.after config) := by
  obtain ⟨hremembers, hspread⟩ := remembers_after config h.remembers h.spread
  have hmore (key : PacketKey) (hkey : key ∈ acceptedKeys calls) :
      key ∈ acceptedKeys (calls ++ [call]) := by
    rw [acceptedKeys_append]
    exact List.mem_append_left _ hkey
  refine ⟨keysDistinct_after config h.distinct, hremembers, hspread, ?_,
    ?_⟩
  · intro key hkey
    rcases Call.mem_ack_after config hkey with hkey | hdup | ⟨fragment, haccepted, rfl⟩
    · exact hmore key (h.acks key hkey)
    · exact hmore key (h.remembers.known key hdup)
    · exact mem_acceptedKeys.mpr ⟨call, by simp, fragment, haccepted, rfl⟩
  · intro e he
    rcases Call.mem_message_after config he with he | hpushed
    · obtain ⟨c, hc, hpushed⟩ := h.messages e he
      exact ⟨c, List.mem_append_left _ hc, hpushed⟩
    · exact ⟨call, by simp, hpushed⟩

/-- **The receive side of every run.** -/
theorem PacketRun.receiverInv {config : EngineConfig} {calls : List Call} {st : EngineState}
    (h : PacketRun config calls st) : ReceiverInv calls st := by
  induction h with
  | new => exact receiverInv_new _
  | call op _ ih => exact ih.step
  | ingress ingress _ ih => exact ⟨ih.distinct, ih.remembers, ih.spread, ih.acks, ih.messages⟩

/-- A run up to one of its calls. -/
theorem PacketRun.of_split {config : EngineConfig} {calls before after : List Call} {call : Call}
    {st : EngineState} (h : PacketRun config calls st) (hsplit : calls = before ++ call :: after) :
    PacketRun config before call.before := by
  induction h generalizing after with
  | new =>
    have := congrArg List.length hsplit
    simp at this
  | @call calls st op hrun ih =>
    rcases List.eq_nil_or_concat after with rfl | ⟨rest, last, rfl⟩
    · obtain ⟨rfl, heq⟩ := List.append_inj' hsplit rfl
      obtain rfl := List.singleton_injective heq
      exact hrun
    · rw [List.concat_eq_append, ← List.cons_append, ← List.append_assoc] at hsplit
      exact ih (List.append_inj' hsplit rfl).1
  | ingress ingress _ ih => exact ih hsplit

/-- What one call establishes and every later call keeps holds at the end of the run. -/
theorem PacketRun.since {config : EngineConfig} {calls before after : List Call} {call : Call}
    {st : EngineState} {motive : List Call → EngineState → Prop} (h : PacketRun config calls st)
    (hsplit : calls = before ++ call :: after)
    (hstart : PacketRun config before call.before → motive [] (call.after config))
    (hcall : ∀ done c, c ∈ after → PacketRun config (before ++ call :: done) c.before →
      motive done c.before → motive (done ++ [c]) (c.after config))
    (hingress : ∀ done st ingress, motive done st → motive done { st with ingress }) :
    motive after st := by
  induction h generalizing after with
  | new =>
    have := congrArg List.length hsplit
    simp at this
  | @call calls st op hrun ih =>
    rcases List.eq_nil_or_concat after with rfl | ⟨done, last, rfl⟩
    · obtain ⟨rfl, heq⟩ := List.append_inj' hsplit rfl
      obtain rfl := List.singleton_injective heq
      exact hstart hrun
    · rw [List.concat_eq_append, ← List.cons_append, ← List.append_assoc] at hsplit
      obtain ⟨rfl, heq⟩ := List.append_inj' hsplit rfl
      obtain rfl := List.singleton_injective heq
      rw [List.concat_eq_append] at hcall ⊢
      refine hcall done _ (by simp) hrun (ih rfl ?_)
      intro done' c hc
      exact hcall done' c (List.mem_append_left _ hc)
  | ingress ingress _ ih => exact hingress _ _ _ (ih hsplit hcall)

/-! ## Genuine slots -/

section Genuine
variable {sender config : EngineConfig} {m : SentMessage} {calls : List Call} {st : EngineState}

/-- The slot collects `m` and has received nothing else. -/
structure Genuine (m : SentMessage) (slot : ReassemblySlot) : Prop where
  expectedLen : slot.expectedLen = m.bytes.length
  bytes : ∀ j, slot.Got j → slot.bytes[j]? = m.bytes[j]?

theorem not_got_start (key : MessageKey) (len nowMs j : Nat) :
    ¬ (ReassemblySlot.start key len nowMs).Got j := by
  intro h
  have hmem : true ∈ List.replicate maxMessageBytes false := List.mem_of_getElem? h
  cases List.eq_of_mem_replicate hmem

theorem genuine_start (m : SentMessage) (nowMs : Nat) :
    Genuine m (.start m.messageKey m.bytes.length nowMs) :=
  ⟨rfl, fun j h => absurd h (not_got_start _ _ _ j)⟩

theorem Genuine.written {old slot : ReassemblySlot} {i nowMs : Nat} (h : Genuine m old)
    (hw : old.Written (m.messageFragment sender i) nowMs slot) : Genuine m slot := by
  refine ⟨hw.expectedLen.trans h.expectedLen, ?_⟩
  intro j hgot
  rw [hw.bytes]
  split
  · rename_i hin
    exact SentMessage.getElem?_fragment hin.1 hin.2
  · rename_i hout
    rcases (hw.got j).mp hgot with hin | hgot
    · exact absurd hin hout
    · exact h.bytes j hgot

/-- A complete genuine slot is the message. -/
theorem Genuine.asBytes (hm : m.Valid) {slot : ReassemblySlot} (h : Genuine m slot)
    (hcomplete : slot.isComplete = true) : (m.event slot.bytes).asBytes = m.bytes :=
  ReassemblySlot.take_bytes hm.length_le h.expectedLen h.bytes hcomplete

theorem OwnFragments.left {more : List Call} (h : OwnFragments sender m (calls ++ more)) :
    OwnFragments sender m calls := fun call hc => h call (List.mem_append_left _ hc)

theorem OwnFragments.right {more : List Call} (h : OwnFragments sender m (calls ++ more)) :
    OwnFragments sender m more := fun call hc => h call (List.mem_append_right _ hc)

/-- The slot a fragment is written to is genuine, whether it was there or not. -/
theorem genuine_old {r : ReassemblyState} {old : ReassemblySlot} {nowMs : Nat}
    (hold : r.Holds m.messageKey old ∨ ((∀ s, ¬ r.Holds m.messageKey s) ∧
      old = .start m.messageKey m.bytes.length nowMs))
    (h : ∀ s, r.Holds m.messageKey s → Genuine m s) : Genuine m old := by
  rcases hold with hold | ⟨-, rfl⟩
  · exact h old hold
  · exact genuine_start m nowMs

/-- **No slot mixes bytes of two messages.** -/
theorem PacketRun.genuine (hm : m.Valid) (hrun : PacketRun config calls st)
    (hown : OwnFragments sender m calls) :
    ∀ slot, st.reassembly.Holds m.messageKey slot → Genuine m slot := by
  induction hrun with
  | new => exact fun slot h => absurd h (ReassemblyState.not_holds_new _ slot)
  | ingress ingress _ ih => exact ih hown
  | @call calls st op hrun ih =>
    have ih := ih hown.left
    intro slot hslot
    cases Msrt.slotStep config hm hrun.receiverInv.distinct hown.right
      (fun s hs => (ih s hs).expectedLen) with
    | other _ _ hback => exact ih slot (hback slot hslot)
    | partly i old new _ hold hw _ hself =>
      obtain ⟨rfl, -⟩ := (hself slot).mp hslot
      exact (genuine_old hold ih).written hw
    | completed i old new _ _ _ _ hnone => exact absurd hslot (hnone slot)

/-- What a call of a run does to the slot of the message. -/
theorem PacketRun.slotStep (hm : m.Valid) {before after : List Call} {call : Call}
    (hrun : PacketRun config (before ++ call :: after) st)
    (hown : OwnFragments sender m (before ++ call :: after)) :
    SlotStep sender config m call ∧
      ∀ slot, call.before.reassembly.Holds m.messageKey slot → Genuine m slot := by
  have hbefore := hrun.of_split rfl
  have hgenuine := hbefore.genuine hm hown.left
  refine ⟨Msrt.slotStep config hm hbefore.receiverInv.distinct ?_
    (fun s hs => (hgenuine s hs).expectedLen), hgenuine⟩
  exact fun c hc => hown c (List.mem_append_right _ (List.mem_singleton.mp hc ▸ List.mem_cons_self))

/-- **What is pushed under the key of the message is the message.** -/
theorem PacketRun.pushed_genuine (hm : m.Valid) (hrun : PacketRun config calls st)
    (hown : OwnFragments sender m calls) {call : Call} (hc : call ∈ calls)
    (hpushes : call.pushes m.messageKey = true) :
    ∃ e, call.pushed = some e ∧ e.packetType = m.packetType ∧ e.messageId = m.messageId ∧
      e.asBytes = m.bytes := by
  obtain ⟨before, after, rfl⟩ := List.append_of_mem hc
  obtain ⟨hstep, hgenuine⟩ := hrun.slotStep hm hown
  cases hstep with
  | other hnone => rw [hnone] at hpushes; cases hpushes
  | partly i old slot _ _ _ _ _ hnone => rw [hnone] at hpushes; cases hpushes
  | completed i old slot _ hold hw hcomplete _ hpushed =>
    exact ⟨_, hpushed, rfl, rfl, ((genuine_old hold hgenuine).written hw).asBytes hm hcomplete⟩

end Genuine

/-! ## How often a message is pushed -/

section Fresh
variable (sender config : EngineConfig) (m : SentMessage)

/-- Fragment `i` was accepted, and the message was not pushed since. -/
def AcceptedSince (calls : List Call) (i : Nat) : Prop :=
  ∃ before call after, calls = before ++ call :: after ∧
    call.acceptedFragment = some (m.messageFragment sender i) ∧
    ∀ c ∈ call :: after, c.pushes m.messageKey = false

variable {sender config m} {calls : List Call} {st : EngineState}

theorem AcceptedSince.snoc {i : Nat} {call : Call} (h : AcceptedSince sender m calls i)
    (hpushes : call.pushes m.messageKey = false) :
    AcceptedSince sender m (calls ++ [call]) i := by
  obtain ⟨before, c, after, rfl, haccepted, hnone⟩ := h
  refine ⟨before, c, after ++ [call], by simp, haccepted, ?_⟩
  intro c' hc'
  rw [← List.cons_append] at hc'
  rcases List.mem_append.mp hc' with hc' | hc'
  · exact hnone c' hc'
  · rw [List.mem_singleton.mp hc']
    exact hpushes

theorem acceptedSince_self {i : Nat} {call : Call}
    (h : call.acceptedFragment = some (m.messageFragment sender i))
    (hpushes : call.pushes m.messageKey = false) :
    AcceptedSince sender m (calls ++ [call]) i :=
  ⟨calls, call, [], rfl, h, fun c hc => by rwa [List.mem_singleton.mp hc]⟩

/-- What a slot holds was accepted since the message was last pushed. -/
theorem PacketRun.acceptedSince (hm : m.Valid) (hdata : m.packetType = .data)
    (hrun : PacketRun config calls st) (hown : OwnFragments sender m calls) :
    ∀ slot, st.reassembly.Holds m.messageKey slot → ∀ i, slot.Got (i * m.size sender) →
      AcceptedSince sender m calls i := by
  induction hrun with
  | new => exact fun slot h => absurd h (ReassemblyState.not_holds_new _ slot)
  | ingress ingress _ ih => exact ih hown
  | @call calls st op hrun ih =>
    have ih := ih hown.left
    have hgenuine := hrun.genuine hm hown.left
    intro slot hslot i hgot
    cases Msrt.slotStep config hm hrun.receiverInv.distinct hown.right
      (fun s hs => (hgenuine s hs).expectedLen) with
    | other hpushes _ hback => exact (ih slot (hback slot hslot) i hgot).snoc hpushes
    | partly k old new _ hold hw _ hself hpushes haccepted =>
      obtain ⟨rfl, -⟩ := (hself slot).mp hslot
      rcases (hw.got _).mp hgot with ⟨hlo, hhi⟩ | hgot
      · obtain rfl := SentMessage.fragment_unique hlo hhi
        exact acceptedSince_self (haccepted hdata) hpushes
      · rcases hold with hold | ⟨-, rfl⟩
        · exact (ih old hold i hgot).snoc hpushes
        · exact absurd hgot (not_got_start _ _ _ _)
    | completed k old new _ _ _ _ hnone => exact absurd hslot (hnone slot)

/-- When the message is pushed, each of its fragments was accepted since it was last pushed. -/
theorem PacketRun.accepted_at_push (hm : m.Valid) (hdata : m.packetType = .data)
    {before after : List Call} {call : Call} (hrun : PacketRun config (before ++ call :: after) st)
    (hown : OwnFragments sender m (before ++ call :: after))
    (hpushes : call.pushes m.messageKey = true) {i : Nat} (hi : i < m.count sender) :
    call.acceptedFragment = some (m.messageFragment sender i) ∨
      AcceptedSince sender m before i := by
  obtain ⟨hstep, hgenuine⟩ := hrun.slotStep hm hown
  cases hstep with
  | other hnone => rw [hnone] at hpushes; cases hpushes
  | partly k old slot _ _ _ _ _ hnone => rw [hnone] at hpushes; cases hpushes
  | completed k old slot hk hold hw hcomplete _ _ haccepted =>
    by_cases hne : m.bytes = []
    · have hone : m.count sender = 1 := by simp [SentMessage.count, fragmentCount, hne]
      obtain rfl : i = k := by omega
      exact .inl (haccepted hdata)
    · have hexpected := ((genuine_old hold hgenuine).written hw).expectedLen
      obtain ⟨-, hall⟩ := (slot.isComplete_iff (by rw [hexpected]; exact hm.length_le)).mp hcomplete
      have hgot := hall (i * m.size sender)
        (by rw [hexpected]; exact (SentMessage.offset_lt_iff sender hne i).mpr hi)
      rcases (hw.got _).mp hgot with ⟨hlo, hhi⟩ | hgot
      · obtain rfl := SentMessage.fragment_unique hlo hhi
        exact .inl (haccepted hdata)
      · rcases hold with hold | ⟨-, rfl⟩
        · exact .inr ((hrun.of_split rfl).acceptedSince hm hdata hown.left old hold i hgot)
        · exact absurd hgot (not_got_start _ _ _ _)

/-- The fragment that completed a message. -/
theorem PacketRun.accepted_of_push (hm : m.Valid) (hdata : m.packetType = .data)
    {before after : List Call} {call : Call} (hrun : PacketRun config (before ++ call :: after) st)
    (hown : OwnFragments sender m (before ++ call :: after))
    (hpushes : call.pushes m.messageKey = true) :
    ∃ i < m.count sender, call.acceptedFragment = some (m.messageFragment sender i) := by
  cases (hrun.slotStep hm hown).1 with
  | other hnone => rw [hnone] at hpushes; cases hpushes
  | partly k old slot _ _ _ _ _ hnone => rw [hnone] at hpushes; cases hpushes
  | completed k old slot hk _ _ _ _ _ haccepted => exact ⟨k, hk, haccepted hdata⟩

/-- A suffix without `x` of a list that ends in `x :: rest` lies inside `rest`. -/
theorem suffix_of_not_mem {α : Type*} {before rest before' suffix : List α} {x : α}
    (h : before ++ x :: rest = before' ++ suffix) (hx : x ∉ suffix) :
    ∃ mid, rest = mid ++ suffix := by
  rcases List.append_eq_append_iff.mp h with ⟨as, -, has⟩ | ⟨bs, -, hbs⟩
  · cases as with
    | nil =>
      rw [List.nil_append] at has
      exact absurd (has ▸ List.mem_cons_self) hx
    | cons a as =>
      obtain ⟨-, hrest⟩ := List.cons.inj has
      exact ⟨as, hrest⟩
  · exact absurd (hbs ▸ List.mem_append_right _ List.mem_cons_self) hx

/-- **A message is pushed again only after the duplicate table has turned over.** -/
theorem PacketRun.pushes_apart (hm : m.Valid) (hdata : m.packetType = .data)
    {before mid after : List Call} {first second : Call}
    (hrun : PacketRun config (before ++ first :: (mid ++ second :: after)) st)
    (hown : OwnFragments sender m (before ++ first :: (mid ++ second :: after)))
    (hfirst : first.pushes m.messageKey = true) (hsecond : second.pushes m.messageKey = true) :
    maxInFlightPackets ≤ (acceptedKeys mid).length := by
  obtain ⟨i, hi, haccepted⟩ := hrun.accepted_of_push hm hdata hown hfirst
  have hspread := hrun.receiverInv.spread
  have hsplit : before ++ first :: (mid ++ second :: after) =
      (before ++ first :: mid) ++ second :: after := by simp
  have hagain := (hsplit ▸ hrun).accepted_at_push hm hdata (hsplit ▸ hown) hsecond hi
  -- the fragment that completed the first push is accepted once more, up to the second push
  obtain ⟨mid₁, call, rest, heq, hcall⟩ : ∃ mid₁ call rest,
      mid ++ [second] = mid₁ ++ call :: rest ∧
        call.acceptedFragment = some (m.messageFragment sender i) := by
    rcases hagain with hagain | ⟨before', call, after', heq, hcall, hnone⟩
    · exact ⟨mid, second, [], rfl, hagain⟩
    · have hnot : first ∉ call :: after' := by
        intro hmem
        rw [hnone first hmem] at hfirst
        cases hfirst
      obtain ⟨mid₁, rfl⟩ := suffix_of_not_mem heq hnot
      exact ⟨mid₁, call, after' ++ [second], by simp, hcall⟩
  have hkeys : acceptedKeys (before ++ first :: (mid ++ second :: after)) =
      acceptedKeys before ++ m.packetKey i :: acceptedKeys mid₁ ++
        m.packetKey i :: acceptedKeys (rest ++ after) := by
    have : before ++ first :: (mid ++ second :: after) =
        before ++ (first :: (mid₁ ++ call :: (rest ++ after))) := by
      rw [show mid ++ second :: after = (mid ++ [second]) ++ after by simp, heq]
      simp
    rw [this]
    simp [acceptedKeys, haccepted, hcall]
  rw [hkeys] at hspread
  have hle : (acceptedKeys mid₁).length ≤ (acceptedKeys mid).length := by
    have hprefix : mid₁ <+: mid := by
      rcases List.eq_nil_or_concat rest with rfl | ⟨rest', last, rfl⟩
      · exact ⟨[], by rw [List.append_nil]; exact (List.append_inj' heq rfl).1.symm⟩
      · rw [List.concat_eq_append, ← List.cons_append, ← List.append_assoc] at heq
        exact ⟨call :: rest', (List.append_inj' heq rfl).1.symm⟩
    obtain ⟨t, rfl⟩ := hprefix
    rw [acceptedKeys_append, List.length_append]
    omega
  exact Nat.le_trans hspread.between hle

end Fresh

/-! ## When a message is pushed -/

section Collected
variable (sender : EngineConfig) (m : SentMessage)

/-- Fragment `i` was accepted. -/
def Accepted (calls : List Call) (i : Nat) : Prop :=
  ∃ call ∈ calls, call.acceptedFragment = some (m.messageFragment sender i)

/-- The slot has all of fragment `i`. -/
structure HasFragment (slot : ReassemblySlot) (i : Nat) : Prop where
  got : ∀ j, i * m.size sender ≤ j → j < i * m.size sender + (m.fragment sender i).length →
    slot.Got j
  last : i * m.size sender + (m.fragment sender i).length = m.bytes.length → slot.lastSeen = true

/-- The message was pushed, or its slot has every accepted fragment and is still incomplete. -/
def Collected (calls : List Call) (r : ReassemblyState) : Prop :=
  (∃ call ∈ calls, call.pushes m.messageKey = true) ∨
    (∀ slot, r.Holds m.messageKey slot → slot.isComplete = false) ∧
      ∀ i < m.count sender, Accepted sender m calls i →
        ∃ slot, r.Holds m.messageKey slot ∧ HasFragment sender m slot i

variable {sender m} {config : EngineConfig} {calls : List Call} {st : EngineState}

theorem HasFragment.written {old slot : ReassemblySlot} {i k nowMs : Nat}
    (h : HasFragment sender m old i)
    (hw : old.Written (m.messageFragment sender k) nowMs slot) : HasFragment sender m slot i :=
  ⟨fun j hlo hhi => (hw.got j).mpr (.inr (h.got j hlo hhi)),
    fun hend => hw.lastSeen.mpr (.inl (h.last hend))⟩

theorem hasFragment_self {old slot : ReassemblySlot} {i nowMs : Nat}
    (hw : old.Written (m.messageFragment sender i) nowMs slot)
    (hlen : old.expectedLen = m.bytes.length) : HasFragment sender m slot i :=
  ⟨fun j hlo hhi => (hw.got j).mpr (.inl ⟨hlo, hhi⟩),
    fun hend => hw.lastSeen.mpr (.inr (hend.trans hlen.symm))⟩

/-- A slot with every fragment is complete. -/
theorem isComplete_of_fragments (hm : m.Valid) {slot : ReassemblySlot} (hg : Genuine m slot)
    (h : ∀ i < m.count sender, HasFragment sender m slot i) : slot.isComplete = true := by
  rw [slot.isComplete_iff (by rw [hg.expectedLen]; exact hm.length_le), hg.expectedLen]
  obtain ⟨i, hi, hend⟩ := m.exists_last_fragment sender
  refine ⟨(h i hi).last hend, ?_⟩
  intro j hj
  obtain ⟨hlt, hlo, hhi⟩ := SentMessage.fragment_of_byte sender hj
  exact (h _ hlt).got j hlo hhi

theorem Accepted.of_snoc {i : Nat} {call : Call} (h : Accepted sender m (calls ++ [call]) i) :
    Accepted sender m calls i ∨ call.acceptedFragment = some (m.messageFragment sender i) := by
  obtain ⟨c, hc, haccepted⟩ := h
  rcases List.mem_append.mp hc with hc | hc
  · exact .inl ⟨c, hc, haccepted⟩
  · exact .inr (List.mem_singleton.mp hc ▸ haccepted)

/-- As long as no slot is dropped, nothing accepted is lost. -/
theorem PacketRun.collected (hm : m.Valid) (hdata : m.packetType = .data)
    (hrun : PacketRun config calls st) (hown : OwnFragments sender m calls)
    (hyoung : ∀ call ∈ calls, call.expiresSlot config = false)
    (hroom : ∀ call ∈ calls, call.evictsSlot = false) :
    Collected sender m calls st.reassembly := by
  induction hrun with
  | new =>
    refine .inr ⟨fun slot h => absurd h (ReassemblyState.not_holds_new _ slot), ?_⟩
    intro i _ h
    obtain ⟨call, hc, -⟩ := h
    cases hc
  | ingress ingress _ ih => exact ih hown hyoung hroom
  | @call calls st op hrun ih =>
    have hdistinct := hrun.receiverInv.distinct
    have hgenuine := hrun.genuine hm hown.left
    have hyoung' : Call.expiresSlot config ⟨st, op⟩ = false := hyoung _ (by simp)
    have hroom' : Call.evictsSlot ⟨st, op⟩ = false := hroom _ (by simp)
    rcases ih hown.left (fun c hc => hyoung c (List.mem_append_left _ hc))
      (fun c hc => hroom c (List.mem_append_left _ hc)) with
      ⟨call, hc, hpushes⟩ | ⟨hopen, hhas⟩
    · exact .inl ⟨call, List.mem_append_left _ hc, hpushes⟩
    · cases Msrt.slotStep config hm hdistinct hown.right
        (fun s hs => (hgenuine s hs).expectedLen) with
      | other _ hother hback hforth =>
        refine .inr ⟨fun slot h => hopen slot (hback slot h), ?_⟩
        intro i hi hacc
        rcases hacc.of_snoc with hacc | hacc
        · obtain ⟨slot, hslot, hfragment⟩ := hhas i hi hacc
          exact ⟨slot, hforth hyoung' hroom' slot hslot, hfragment⟩
        · exact absurd rfl (hother _ hacc)
      | partly k old slot hk hold hw hcomplete hself _ haccepted =>
        -- fragment `k` is written into the slot of the message, which stays open
        have hactive : slot.active = true := by
          rw [hw.active]
          rcases hold with hold | ⟨-, rfl⟩
          · exact hold.active
          · rfl
        have hslot := (hself slot).mpr ⟨rfl, hactive⟩
        refine .inr ⟨?_, ?_⟩
        · intro s hs
          rw [((hself s).mp hs).1]
          exact hcomplete
        · intro i hi hacc
          rcases hacc.of_snoc with hacc | hacc
          · obtain ⟨s, hs, hfragment⟩ := hhas i hi hacc
            rcases hold with hold | ⟨hnone, -⟩
            · obtain rfl := ReassemblyState.Holds.unique hdistinct hs hold
              exact ⟨slot, hslot, hfragment.written hw⟩
            · exact absurd hs (hnone s)
          · -- the fragment accepted now is the one that was written
            rw [haccepted hdata] at hacc
            have hoffset : k * m.size sender = i * m.size sender :=
              congrArg MessageFragment.fragmentOffset (Option.some.inj hacc)
            obtain rfl := Nat.eq_of_mul_eq_mul_right (m.size_pos sender) hoffset
            exact ⟨slot, hslot, hasFragment_self hw (genuine_old hold hgenuine).expectedLen⟩
      | completed k old slot _ _ _ _ _ hpushed =>
        refine .inl ⟨⟨st, op⟩, by simp, ?_⟩
        simp [Call.pushes, hpushed, SentMessage.event, SentMessage.messageKey]

/-- **A message whose fragments were all accepted was pushed.** -/
theorem PacketRun.pushed_of_accepted (hm : m.Valid) (hdata : m.packetType = .data)
    (hrun : PacketRun config calls st) (hown : OwnFragments sender m calls)
    (hyoung : ∀ call ∈ calls, call.expiresSlot config = false)
    (hroom : ∀ call ∈ calls, call.evictsSlot = false)
    (hall : ∀ i < m.count sender, Accepted sender m calls i) :
    ∃ call ∈ calls, call.pushes m.messageKey = true := by
  rcases hrun.collected hm hdata hown hyoung hroom with hpushed | ⟨hopen, hhas⟩
  · exact hpushed
  · have hdistinct := hrun.receiverInv.distinct
    obtain ⟨slot, hslot, -⟩ := hhas 0 (m.count_pos sender) (hall 0 (m.count_pos sender))
    have hcomplete := isComplete_of_fragments hm (hrun.genuine hm hown slot hslot)
      (fun i hi => by
        obtain ⟨s, hs, hfragment⟩ := hhas i hi (hall i hi)
        obtain rfl := ReassemblyState.Holds.unique hdistinct hs hslot
        exact hfragment)
    rw [hopen slot hslot] at hcomplete
    cases hcomplete

end Collected

end Msrt
