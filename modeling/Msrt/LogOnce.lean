import Msrt.FirstTransmissions
import Msrt.LinkDelivery

/-! # A LOG message is delivered at most once

The receiver keeps no record of LOG packets, so a LOG packet that arrives twice is assembled twice.  What
bounds its deliveries is the sender, which transmits a LOG packet once, and the link.  Over a link that
loses, delays and reorders envelopes but delivers none of them twice (`OnceRun`), every push of a message
uses up an arrival of its last fragment (`EndAccount`), and every arrival a transmission of it.  So no LOG
message is delivered twice, however the operations of the two sides interleave (`log_delivered_once`).
-/

namespace Msrt
open EngineState

/-! ## A link that delivers nothing twice -/

/-- The envelopes a side transmitted, in order. -/
def Party.emissions (config : EngineConfig) (party : Party) : List Bytes :=
  party.calls.filterMap (Call.emitted config)

/-- The interleavings of a sender and a receiver over a link that delivers each transmission at most
once, in any order; `arrived` are the envelopes the receiver was fed. -/
inductive OnceRun (sender receiver : EngineConfig) (back : List Call → Bytes → Prop) :
    Party → List Bytes → Party → Prop
  | new : OnceRun sender receiver back (.new sender) [] (.new receiver)
  | left {a b : Party} {arrived : List Bytes} (op : EngineOp) :
      OnceRun sender receiver back a arrived b →
      (∀ bytes, op = .receive bytes → back b.calls bytes) →
      OnceRun sender receiver back (a.step sender op) arrived b
  | right {a b : Party} {arrived : List Bytes} (op : EngineOp) :
      OnceRun sender receiver back a arrived b → (∀ bytes, op ≠ .receive bytes) →
      OnceRun sender receiver back a arrived (b.step receiver op)
  | arrive {a b : Party} {arrived : List Bytes} (envelopes : List Bytes) :
      OnceRun sender receiver back a arrived b →
      (arrived ++ envelopes).Subperm (a.emissions sender) →
      OnceRun sender receiver back a (arrived ++ envelopes)
        (b.step receiver (.receive envelopes.flatten))

section OnceRun
variable {sender receiver : EngineConfig} {back : List Call → Bytes → Prop} {a b : Party}
  {arrived : List Bytes}

theorem emissions_step (config : EngineConfig) (op : EngineOp) (party : Party) :
    (party.step config op).emissions config = party.emissions config ++
      (op.calls config party.state).filterMap (Call.emitted config) := List.filterMap_append

theorem OnceRun.subperm (h : OnceRun sender receiver back a arrived b) :
    arrived.Subperm (a.emissions sender) := by
  induction h with
  | new => exact List.Subperm.refl _
  | left op _ _ ih =>
    rw [emissions_step]
    exact ih.trans (List.sublist_append_left _ _).subperm
  | right op _ _ ih => exact ih
  | arrive envelopes _ hsub => exact hsub

/-- Such a link is a link. -/
theorem OnceRun.linkRun (h : OnceRun sender receiver back a arrived b) :
    LinkRun sender receiver back a b := by
  induction h with
  | new => exact .new
  | left op _ hback ih => exact ih.left op hback
  | right op _ hop ih => exact ih.right op fun bytes heq => absurd heq (hop bytes)
  | arrive envelopes _ hsub ih =>
    refine ih.right _ fun bytes heq => ?_
    obtain rfl := EngineOp.receive.inj heq
    refine ⟨envelopes, ?_, rfl⟩
    intro e he
    exact List.mem_filterMap.mp (hsub.subset (List.mem_append_right _ he))

end OnceRun

/-! ## What the receiver handles -/

/-- The packet a call handles. -/
def CallOp.packet? : CallOp → Option Bytes
  | .packet bytes => some bytes
  | _ => none

/-- The packets that were handled, in order. -/
def handled (calls : List Call) : List Bytes := calls.filterMap fun call => call.op.packet?

/-- The receive loop hands on the packets of a stream in order, and leaves those behind them. -/
theorem receiveLoop_handled {config : EngineConfig} {ok : Bytes → Prop}
    (hok : ∀ packet, ok packet → packet.length ≤ maxPacketLen ∧ packet.length ≤ maxWireBytes ∧
      (envelope config.integrity packet).length ≤ maxWireBytes)
    (fuel : Nat) (st : EngineState) {input : Bytes} (report : ReceiveReport)
    {buffered incoming : List Bytes} (hall : ∀ p ∈ buffered ++ incoming, ok p)
    (hrest : st.ingress.rest = packetStream config.integrity buffered)
    (hinput : input = packetStream config.integrity incoming) :
    ∃ left, (handled (receiveLoopCalls config fuel st input) ++ left).Sublist (buffered ++ incoming) ∧
      (receiveLoop config fuel st input report).1.ingress.rest = packetStream config.integrity left := by
  -- on the fuel: each round takes the first packet off the stream
  induction fuel generalizing st input report buffered incoming with
  | zero => exact ⟨buffered, List.sublist_append_left _ _, hrest⟩
  | succ fuel ih =>
    unfold receiveLoopCalls receiveLoop
    rcases Nat.lt_or_ge maxIngressBytes (st.ingress.rest.length + input.length) with hover | hfit
    · -- an overflow drops the input and keeps what was buffered
      rw [st.ingress.feed_overflow config.integrity hover]
      exact ⟨buffered, List.sublist_append_left _ _, st.ingress.rest_consumePending.trans hrest⟩
    · have hstream : st.ingress.rest ++ input =
          packetStream config.integrity (buffered ++ incoming) := by
        rw [hrest, hinput, packetStream_append]
      rcases feed_packetStream (fun p hp => ⟨(hok p hp).1, (hok p hp).2.2⟩) st.ingress hall hstream
        hfit with ⟨-, d, hfeed, hempty⟩ | ⟨packet, packets, d, consumed, hsplit, hfeed, hdrop⟩
      · rw [hfeed]
        exact ⟨[], List.nil_sublist _, hempty⟩
      · rw [hsplit] at hall ⊢
        have hstored := (hok packet (hall packet List.mem_cons_self)).2.1
        have hbytes : packetBytesTryFromSlice packet = .ok packet := if_neg (by omega)
        rw [hfeed]
        dsimp only
        rw [hbytes]
        have hingress := Call.ingress_after config ⟨{ st with ingress := d }, .packet packet⟩
        have hrest' : (receiveCompletePacket { st with ingress := d } config
            packet).1.ingress.rest = packetStream config.integrity packets := by
          rw [← hdrop]
          exact congrArg StreamingDecoder.rest hingress
        have htail : ∀ p ∈ packets ++ [], ok p := by
          rw [List.append_nil]
          exact fun p hp => hall p (List.mem_cons_of_mem _ hp)
        obtain ⟨left, hleft, hlast⟩ := ih (receiveCompletePacket { st with ingress := d } config packet).1
          (receiveCompletePacket { st with ingress := d } config packet).2 htail hrest'
          (packetStream_nil config.integrity).symm
        rw [List.append_nil] at hleft
        dsimp only
        split
        · exact ⟨packets, .refl _, hrest'⟩
        · exact ⟨left, hleft.cons_cons packet, hlast⟩

/-- The packets that were handled, with those that are buffered behind them, arrived in this order. -/
def Passed (integrity : IntegrityConfig) (packets : List Bytes) (party : Party) : Prop :=
  ∃ buffered, (handled party.calls ++ buffered).Sublist packets ∧
    party.state.ingress.rest = packetStream integrity buffered

section Passed
variable {config : EngineConfig} {packets : List Bytes} {party : Party}

/-- A call that handles no packet passes nothing. -/
theorem Passed.call (h : Passed config.integrity packets party) {op : CallOp}
    (hop : op.packet? = none) : Passed config.integrity packets
      ⟨party.calls ++ [⟨party.state, op⟩], Call.after config ⟨party.state, op⟩⟩ := by
  obtain ⟨buffered, hsub, hrest⟩ := h
  refine ⟨buffered, ?_, ?_⟩
  · rw [handled, filterMap_snoc, hop, Option.toList_none, List.append_nil]
    exact hsub
  · rw [← hrest]
    exact congrArg StreamingDecoder.rest (Call.ingress_after config ⟨party.state, op⟩)

theorem Passed.step (h : Passed config.integrity packets party) {op : EngineOp}
    (hop : ∀ bytes, op ≠ .receive bytes) : Passed config.integrity packets (party.step config op) := by
  cases op with
  | send message => exact h.call rfl
  | sendLog message => exact h.call rfl
  | sendPing => exact h.call rfl
  | poll nowMs txLen => exact h.call rfl
  | receive bytes => exact absurd rfl (hop bytes)

/-- What arrives goes behind what arrived. -/
theorem Passed.receive {ok : Bytes → Prop}
    (hok : ∀ packet, ok packet → packet.length ≤ maxPacketLen ∧ packet.length ≤ maxWireBytes ∧
      (envelope config.integrity packet).length ≤ maxWireBytes)
    (h : Passed config.integrity packets party) (hpackets : ∀ p ∈ packets, ok p)
    {incoming : List Bytes} (hincoming : ∀ p ∈ incoming, ok p) :
    Passed config.integrity (packets ++ incoming)
      (party.step config (.receive (packetStream config.integrity incoming))) := by
  obtain ⟨buffered, hsub, hrest⟩ := h
  have hall : ∀ p ∈ buffered ++ incoming, ok p := by
    intro p hp
    rcases List.mem_append.mp hp with hp | hp
    · exact hpackets p (hsub.subset (List.mem_append_right _ hp))
    · exact hincoming p hp
  obtain ⟨left, hleft, hrest'⟩ := receiveLoop_handled hok
    (party.state.ingress.rest.length + (packetStream config.integrity incoming).length + 1) party.state
    (.incomplete none) hall hrest rfl
  refine ⟨left, ?_, hrest'⟩
  have hmore := (List.Sublist.append_left hleft (handled party.calls))
  rw [← List.append_assoc, ← List.append_assoc] at hmore
  have hcalls : handled (party.step config (.receive (packetStream config.integrity incoming))).calls =
      handled party.calls ++ handled (receiveLoopCalls config (party.state.ingress.rest.length +
        (packetStream config.integrity incoming).length + 1) party.state
        (packetStream config.integrity incoming)) := List.filterMap_append
  rw [hcalls]
  exact hmore.trans (List.Sublist.append_right hsub incoming)

end Passed

section Arrivals
variable {sender receiver : EngineConfig} {back : List Call → Bytes → Prop} {a b : Party}
  {arrived : List Bytes}

/-- Envelopes that were transmitted, as packets. -/
theorem PacketRun.packets_of_emitted {config : EngineConfig} {calls : List Call} {st : EngineState}
    (hrun : PacketRun config calls st) {envelopes : List Bytes}
    (h : ∀ e ∈ envelopes, e ∈ calls.filterMap (Call.emitted config)) :
    ∃ packets : List Bytes, (∀ p ∈ packets, Origin config calls p) ∧
      envelopes = packets.map (envelope config.integrity) := by
  induction envelopes with
  | nil => exact ⟨[], by simp, rfl⟩
  | cons e envelopes ih =>
    obtain ⟨call, hc, he⟩ := List.mem_filterMap.mp (h e List.mem_cons_self)
    obtain ⟨packet, horigin, rfl⟩ := hrun.emitted_of_mem hc he
    obtain ⟨packets, hall, rfl⟩ := ih fun e' he' => h e' (List.mem_cons_of_mem _ he')
    exact ⟨packet :: packets, List.forall_mem_cons.mpr ⟨horigin, hall⟩, rfl⟩

/-- **What the receiver handles arrived, and in this order.** -/
theorem OnceRun.passed (hsame : sender.integrity = receiver.integrity)
    (h : OnceRun sender receiver back a arrived b) :
    ∃ packets : List Bytes, (∀ p ∈ packets, Origin sender a.calls p) ∧
      arrived = packets.map (envelope receiver.integrity) ∧
      Passed receiver.integrity packets b := by
  induction h with
  | new => exact ⟨[], by simp, rfl, [], .refl _, rfl⟩
  | left op _ _ ih =>
    obtain ⟨packets, hall, harrived, hpassed⟩ := ih
    exact ⟨packets, fun p hp => (hall p hp).append _, harrived, hpassed⟩
  | right op _ hop ih =>
    obtain ⟨packets, hall, harrived, hpassed⟩ := ih
    exact ⟨packets, hall, harrived, hpassed.step hop⟩
  | @arrive a b arrived envelopes hrun hsub ih =>
    obtain ⟨packets, hall, rfl, hpassed⟩ := ih
    obtain ⟨incoming, hincoming, rfl⟩ := hrun.linkRun.runs.1.packets_of_emitted
      (fun e he => hsub.subset (List.mem_append_right _ he))
    rw [hsame]
    refine ⟨packets ++ incoming, ?_, List.map_append.symm, ?_⟩
    · exact fun p hp => (List.mem_append.mp hp).elim (hall p) (hincoming p)
    · refine hpassed.receive ?_ hall hincoming
      intro p hp
      rw [← hsame]
      exact hp.length_le

/-- A packet is handled at most as often as it was transmitted. -/
theorem OnceRun.count_handled_le (hsame : sender.integrity = receiver.integrity)
    (h : OnceRun sender receiver back a arrived b) (packet : Bytes) :
    (handled b.calls).count packet ≤
      (a.emissions sender).count (envelope sender.integrity packet) := by
  obtain ⟨packets, -, harrived, buffered, hsub, -⟩ := h.passed hsame
  calc (handled b.calls).count packet
      ≤ packets.count packet := ((List.sublist_append_left _ _).trans hsub).count_le packet
    _ ≤ arrived.count (envelope sender.integrity packet) := by
        rw [harrived, hsame]
        exact List.count_le_count_map
    _ ≤ (a.emissions sender).count (envelope sender.integrity packet) := h.subperm.count_le _

end Arrivals

/-! ## Every push uses up a last fragment -/

/-- The fragment ends where its message ends. -/
def MessageFragment.reachesEnd (fragment : MessageFragment) : Bool :=
  fragment.fragmentOffset + fragment.bytes.length == fragment.messageLen

/-- The call handed a last fragment of the message to reassembly. -/
def Call.observesEnd (key : MessageKey) (call : Call) : Bool :=
  call.observed.any fun fragment => fragment.messageKey == key && fragment.reachesEnd

/-- The pushes under a key, and a slot of it that has seen the end, are paid for by last fragments. -/
structure EndAccount (key : MessageKey) (calls : List Call) (r : ReassemblyState) : Prop where
  pushed : calls.countP (Call.pushes key) ≤ calls.countP (Call.observesEnd key)
  seen : ∀ slot, r.Holds key slot → slot.lastSeen = true →
    calls.countP (Call.pushes key) < calls.countP (Call.observesEnd key)

section EndAccount
variable {config : EngineConfig} {key : MessageKey} {calls : List Call} {call : Call}
  {st : EngineState}

theorem countP_snoc {α : Type*} (p : α → Bool) (l : List α) (x : α) :
    (l ++ [x]).countP p = l.countP p + if p x then 1 else 0 := by
  rw [List.countP_append, List.countP_singleton]

/-- A call that pushes nothing under the key and gives it no slot. -/
theorem EndAccount.quiet (h : EndAccount key calls call.before.reassembly)
    (hpushes : call.pushes key = false)
    (hholds : ∀ slot, (call.after config).reassembly.Holds key slot → slot.lastSeen = true →
      call.before.reassembly.Holds key slot) :
    EndAccount key (calls ++ [call]) (call.after config).reassembly := by
  have hpushed := h.pushed
  refine ⟨?_, ?_⟩
  · rw [countP_snoc, countP_snoc, if_neg (by simp [hpushes])]
    omega
  · intro slot hslot hlast
    have hseen := h.seen slot (hholds slot hslot hlast) hlast
    rw [countP_snoc, countP_snoc, if_neg (by simp [hpushes])]
    omega

/-- A slot that has seen the end, seen by the fragment or before it. -/
theorem EndAccount.written (h : EndAccount key calls call.before.reassembly)
    {fragment : MessageFragment} (hobserved : call.observed = some fragment)
    (hkey : fragment.messageKey = key) {nowMs : Nat} {old slot : ReassemblySlot}
    (hold : call.before.reassembly.Holds key old ∨
      ((∀ s, ¬ call.before.reassembly.Holds key s) ∧ old = .start key fragment.messageLen nowMs))
    (hlen : old.expectedLen = fragment.messageLen) (hw : old.Written fragment nowMs slot)
    (hlast : slot.lastSeen = true) :
    calls.countP (Call.pushes key) < (calls ++ [call]).countP (Call.observesEnd key) := by
  rw [countP_snoc]
  rcases hw.lastSeen.mp hlast with hseen | hend
  · rcases hold with hold | ⟨-, rfl⟩
    · have := h.seen old hold hseen
      omega
    · cases hseen
  · have hends : call.observesEnd key = true := by
      simp [Call.observesEnd, hobserved, hkey, MessageFragment.reachesEnd, hend, hlen]
    have := h.pushed
    rw [if_pos hends]
    omega

/-- A fragment of the message itself. -/
theorem EndAccount.observed (h : EndAccount key calls call.before.reassembly)
    (hd : call.before.reassembly.KeysDistinct) {fragment : MessageFragment}
    (hobserved : call.observed = some fragment) (hkey : fragment.messageKey = key)
    (hpushed : call.pushed =
      (call.reassembled fragment).map ({ · with packetType := fragment.packetType }))
    (hspec : Reassembled call.before fragment.packetType fragment (call.after config)) :
    EndAccount key (calls ++ [call]) (call.after config).reassembly := by
  rcases Nat.lt_or_ge maxMessageBytes fragment.messageLen with hover | hlen
  · have hrefused : call.before.reassembly.observe fragment call.before.clock.nowMs =
        (call.before.reassembly, .error .engine) := ReassemblyState.observe_oversized hover _
    refine h.quiet ?_ ?_
    · simp [Call.pushes, hpushed, Call.reassembled, hrefused]
    · intro slot hslot _
      rw [hspec.reassembly, hrefused] at hslot
      exact hslot
  · obtain ⟨old, hat⟩ := ReassemblyState.observe_spec hd hlen call.before.clock.nowMs
    have hself := hat.self
    have hresult := hat.result_eq
    have hold := hat.slot_eq
    have hobs := old.observed fragment call.before.clock.nowMs
    rw [← hspec.reassembly, hkey] at hself
    rw [hkey] at hold
    unfold Call.reassembled at hpushed
    generalize old.observe fragment call.before.clock.nowMs = result at hself hresult hobs
    cases hobs with
    | refused e =>
      rw [hresult] at hpushed
      refine h.quiet (by simp [Call.pushes, hpushed]) ?_
      intro slot hslot hlast
      obtain ⟨rfl, -⟩ := (hself slot).mp hslot
      rcases hold with hold | ⟨-, rfl⟩
      · exact hold
      · cases hlast
    | partly slot hsame hw =>
      rw [hresult] at hpushed
      have hpushes : call.pushes key = false := by simp [Call.pushes, hpushed]
      have hcount := h.pushed
      refine ⟨?_, ?_⟩
      · rw [countP_snoc, countP_snoc, if_neg (by simp [hpushes])]
        omega
      · intro s hs hlast
        obtain ⟨rfl, -⟩ := (hself s).mp hs
        rw [countP_snoc, if_neg (by simp [hpushes])]
        exact h.written hobserved hkey hold hsame hw hlast
    | completed slot hsame hw hcomplete =>
      have hlast : slot.lastSeen = true := by
        rw [ReassemblySlot.isComplete, Bool.and_eq_true] at hcomplete
        exact hcomplete.1
      have hcount := h.written hobserved hkey hold hsame hw hlast
      refine ⟨?_, ?_⟩
      · rw [countP_snoc]
        split <;> omega
      · intro s hs
        obtain ⟨rfl, hactive⟩ := (hself s).mp hs
        cases hactive

/-- **A call keeps the account of last fragments.** -/
theorem EndAccount.step (h : EndAccount key calls call.before.reassembly)
    (hd : call.before.reassembly.KeysDistinct) :
    EndAccount key (calls ++ [call]) (call.after config).reassembly := by
  have hsilent (hquiet : call.Silent) : call.pushes key = false := by
    simp [Call.pushes, hquiet.pushed]
  have hfragment {fragment : MessageFragment} (hobserved : call.observed = some fragment)
      (hpushed : call.pushed =
        (call.reassembled fragment).map ({ · with packetType := fragment.packetType }))
      (hspec : Reassembled call.before fragment.packetType fragment (call.after config)) :
      EndAccount key (calls ++ [call]) (call.after config).reassembly := by
    by_cases hkey : fragment.messageKey = key
    · exact h.observed hd hobserved hkey hpushed hspec
    · refine h.quiet ?_ ?_
      · cases hr : call.reassembled fragment with
        | none => simp [Call.pushes, hpushed, hr]
        | some e =>
          obtain ⟨-, hid⟩ := key_of_reassembled hd hr
          by_contra hpushes
          simp only [Call.pushes, hpushed, hr, Option.map_some, hid, Bool.not_eq_false,
            Bool.and_eq_true, beq_iff_eq] at hpushes
          exact hkey (by rw [MessageFragment.messageKey, hpushes.1, hpushes.2])
      · intro slot hslot _
        rw [hspec.reassembly] at hslot
        exact ReassemblyState.holds_of_observe hd (Ne.symm hkey) hslot
  cases call.receiveStep config with
  | untouched hquiet _ hsame => exact h.quiet (hsilent hquiet) fun slot hslot _ => hsame ▸ hslot
  | duplicate _ hquiet _ _ hsame => exact h.quiet (hsilent hquiet) fun slot hslot _ => hsame ▸ hslot
  | poll nowMs txLen _ hquiet _ hexpire =>
    refine h.quiet (hsilent hquiet) fun slot hslot _ => ?_
    rw [hexpire] at hslot
    exact ReassemblyState.holds_of_expire hslot
  | observed fragment hobserved hpushed hspec => exact hfragment hobserved hpushed hspec
  | accepted fragment hobserved hpushed hspec => exact hfragment hobserved hpushed hspec

theorem PacketRun.endAccount (hrun : PacketRun config calls st) (key : MessageKey) :
    EndAccount key calls st.reassembly := by
  induction hrun with
  | new => exact ⟨Nat.le_refl _, fun slot h => absurd h (ReassemblyState.not_holds_new _ slot)⟩
  | ingress ingress _ ih => exact ih
  | call op hrun ih => exact ih.step hrun.receiverInv.distinct

end EndAccount

/-! ## A LOG packet is transmitted once -/

section Sender
variable {config : EngineConfig} {calls : List Call} {st : EngineState} {m m' : SentMessage} {i : Nat}

/-- The packets of a LOG message are its own. -/
theorem SentMessage.eq_of_packet (hm : m.Valid) (hlog : m.packetType ≠ .data) (hi : i < m.count config)
    (hm' : m'.Valid) {j : Nat} (hj : j < m'.count config)
    (h : envelope config.integrity (m'.packet config j) =
      envelope config.integrity (m.packet config i)) : m'.packetKey j = m.packetKey i := by
  rw [← m.wire_bytes, ← m'.wire_bytes] at h
  have hkey := m.logKey_wire hm hi hlog
  rw [← h] at hkey
  by_cases hdata : m'.packetType = .data
  · rw [logKey_of_dataKey (m'.dataKey_wire hm' hj hdata)] at hkey
    cases hkey
  · rw [m'.logKey_wire hm' hj hdata] at hkey
    exact Option.some.inj hkey

/-- A message has a LOG packet once, and another message does not have it. -/
theorem SentMessage.count_packets_le (hm : m.Valid) (hlog : m.packetType ≠ .data)
    (hi : i < m.count config) (hm' : m'.Valid) (hcount : m'.count config ≤ maxEvents) :
    (m'.packets config).count (envelope config.integrity (m.packet config i)) ≤
      if m'.messageId = m.messageId then 1 else 0 := by
  unfold maxEvents at hcount
  by_cases hmem : envelope config.integrity (m.packet config i) ∈ m'.packets config
  · obtain ⟨j, hj, hpacket⟩ := List.mem_map.mp hmem
    have hkey := eq_of_packet hm hlog hi hm' (List.mem_range.mp hj) hpacket
    have hid : m'.messageId = m.messageId := congrArg PacketKey.messageId hkey
    rw [if_pos hid, packets, ← hpacket, List.count, List.countP_map]
    -- the packets of one message are told apart by their index
    have hone : ∀ k ∈ List.range (m'.count config), ((· == envelope config.integrity
        (m'.packet config j)) ∘ fun i => envelope config.integrity (m'.packet config i)) k = true →
        (k == j) = true := by
      intro k hk hsame
      have hkj := (eq_of_packet hm hlog hi hm' (List.mem_range.mp hk)
        ((eq_of_beq hsame).trans hpacket)).trans hkey.symm
      rw [List.mem_range] at hk hj
      exact beq_iff_eq.mpr (packetKey_inj (by omega) (by omega) hkj)
    refine Nat.le_trans (List.countP_mono_left hone) ?_
    exact List.nodup_iff_count_le_one.mp List.nodup_range j
  · rw [List.count_eq_zero_of_not_mem hmem]
    exact Nat.zero_le _

theorem count_acceptedPackets_le (hm : m.Valid) (hlog : m.packetType ≠ .data)
    (hi : i < m.count config) (calls : List Call) :
    (acceptedPackets config calls).count (envelope config.integrity (m.packet config i)) ≤
      idUses config m.messageId calls := by
  induction calls using List.reverseRecOn with
  | nil => exact Nat.zero_le _
  | append_singleton calls call ih =>
    rw [acceptedPackets_snoc, List.count_append, idUses_snoc]
    refine Nat.add_le_add ih ?_
    cases haccepted : call.accepted config with
    | none => exact Nat.zero_le _
    | some m' =>
      obtain ⟨hm', hcount⟩ := accepted_valid haccepted
      rw [Option.toList_some, List.flatMap_singleton]
      refine Nat.le_trans (SentMessage.count_packets_le hm hlog hi hm' hcount) ?_
      simp [Call.usesId, haccepted]

/-- What is transmitted of a LOG message is transmitted for the first time. -/
theorem FirstLog.firstTransmission_of_emitted (h : FirstLog config calls st) {call : Call}
    (hc : call ∈ calls) {bytes : Bytes} (hlog : logKey bytes ≠ none)
    (hemitted : call.emitted config = some bytes) : call.firstTransmission config = some bytes := by
  obtain ⟨before, op⟩ := call
  cases op with
  | poll nowMs txLen =>
    rcases hres : (before.poll config nowMs txLen).2 with e | result
    · simp [Call.emitted, Call.polled, hres] at hemitted
    · cases result with
      | transmit wire attempts =>
        obtain rfl : wire = bytes := by simpa [Call.emitted, Call.polled, hres] using hemitted
        have hzero := h.logs _ hc nowMs txLen wire attempts rfl hres hlog
        have hfragment : carriesFragment wire = true := by
          rw [carriesFragment, Option.isSome_iff_ne_none.mpr hlog, Bool.or_true]
        simp only [Call.firstTransmission, hres, firstOf]
        exact if_pos ⟨hzero, hfragment⟩
      | sendFailed | message | idle => simp [Call.emitted, Call.polled, hres] at hemitted
  | send | sendPing | packet => cases hemitted

/-- **A LOG packet is transmitted at most once.** -/
theorem PacketRun.log_emitted_once (hrun : PacketRun config calls st)
    (hcount : sendCount calls < 2 ^ 32)
    (hids : ∀ call ∈ calls, ∀ m, call.accepted config = some m → m.messageId ≠ 0)
    (hm : m.Valid) (hlog : m.packetType ≠ .data) (hi : i < m.count config) :
    (calls.filterMap (Call.emitted config)).count
      (envelope config.integrity (m.packet config i)) ≤ 1 := by
  have h := hrun.firstLog hcount hids
  have hkey : logKey (envelope config.integrity (m.packet config i)) ≠ none := by
    rw [← m.wire_bytes, m.logKey_wire hm hi hlog]
    exact Option.some_ne_none _
  calc (calls.filterMap (Call.emitted config)).count (envelope config.integrity (m.packet config i))
      ≤ (firstTransmissions config calls).count (envelope config.integrity (m.packet config i)) := by
        rw [firstTransmissions, List.count_filterMap, List.count_filterMap]
        refine List.countP_mono_left fun call hc hemitted => ?_
        exact beq_iff_eq.mpr (h.firstTransmission_of_emitted hc hkey (eq_of_beq hemitted))
    _ ≤ (firstTransmissions config calls ++ st.scheduler.freshPackets).count
          (envelope config.integrity (m.packet config i)) :=
        (List.sublist_append_left _ _).count_le _
    _ ≤ (acceptedPackets config calls).count (envelope config.integrity (m.packet config i)) :=
        h.account.count_le _
    _ ≤ idUses config m.messageId calls := count_acceptedPackets_le hm hlog hi calls
    _ ≤ 1 := hrun.idUses_le_one hcount m.messageId

end Sender

/-! ## What is delivered was pushed -/

section Delivered
variable {config : EngineConfig} {calls : List Call} {call : Call} {st : EngineState}

theorem delivered_of_not_poll (h : ∀ nowMs txLen, call.op ≠ .poll nowMs txLen) :
    call.delivered config = none := by
  obtain ⟨before, op⟩ := call
  cases op with
  | poll nowMs txLen => exact absurd rfl (h nowMs txLen)
  | send | sendPing | packet => rfl

/-- A push goes behind what waits, over the oldest message where the queue is full. -/
theorem MessageState.toList_push_sublist (message : MessageState) (event : MessageEvent) :
    (RingQueue.toList (MessageState.push message event)).Sublist
      (RingQueue.toList message ++ [event]) := by
  unfold MessageState.push
  split
  · rw [RingQueue.toList_overwriteOldest]
    exact (List.tail_sublist _).append_right _
  · rw [RingQueue.toList_pushBack]

/-- What a poll delivers is taken from the front of the delivery queue. -/
theorem Call.delivered_poll (before : EngineState) (nowMs txLen : Nat) :
    (Call.delivered config ⟨before, .poll nowMs txLen⟩).toList ++
      RingQueue.toList (Call.after config ⟨before, .poll nowMs txLen⟩).message =
      RingQueue.toList before.message := by
  obtain ⟨ticked, -, hframe, hstep⟩ := poll_spec config before nowMs txLen
  have hmessage : ticked.message = before.message := hframe.message
  simp only [Call.delivered, Call.polled, Call.after]
  generalize before.poll config nowMs txLen = polled at hstep ⊢
  obtain ⟨st', result⟩ := polled
  rw [← hmessage]
  cases hstep with
  | ack key keys _ _ _ _ hsame hres =>
    obtain rfl : result = _ := hres
    rw [← show st'.message = ticked.message from hsame]
    cases encodeAckPacket key txLen config.integrity with
    | error e => rfl
    | ok wire => rfl
  | transmit _ _ _ _ _ hsame hres =>
    obtain rfl : result = _ := hres
    exact hsame
  | tooSmall _ _ _ _ _ hsame hres =>
    obtain rfl : result = _ := hres
    exact hsame
  | sendFailed _ _ _ _ hsame hres =>
    obtain rfl : result = _ := hres
    exact hsame
  | message e messages hcons htail _ _ _ hres =>
    obtain rfl : result = _ := hres
    show [e] ++ RingQueue.toList st'.message = _
    rw [hcons, htail]
    rfl
  | idle _ _ _ hsame hres =>
    obtain rfl : result = _ := hres
    exact hsame

/-- The delivery queue behind another call than a poll. -/
theorem Call.toList_message_sublist (config : EngineConfig) (call : Call)
    (hpoll : ∀ nowMs txLen, call.op ≠ .poll nowMs txLen) :
    (RingQueue.toList (call.after config).message).Sublist
      (RingQueue.toList call.before.message ++ call.pushed.toList) := by
  have hsame (h : (call.after config).message = call.before.message) :
      (RingQueue.toList (call.after config).message).Sublist
        (RingQueue.toList call.before.message ++ call.pushed.toList) := by
    rw [h]
    exact List.sublist_append_left _ _
  have hfragment {fragment : MessageFragment}
      (hpushed : call.pushed =
        (call.reassembled fragment).map ({ · with packetType := fragment.packetType }))
      (hspec : Reassembled call.before fragment.packetType fragment (call.after config)) :
      (RingQueue.toList (call.after config).message).Sublist
        (RingQueue.toList call.before.message ++ call.pushed.toList) := by
    rw [hspec.message, hpushed]
    unfold Call.reassembled
    rcases (call.before.reassembly.observe fragment call.before.clock.nowMs).2 with _ | _ | event
    · exact List.sublist_append_left _ _
    · exact List.sublist_append_left _ _
    · exact MessageState.toList_push_sublist _ _
  cases call.receiveStep config with
  | untouched _ _ _ _ hmessage => exact hsame hmessage
  | duplicate _ _ _ _ _ _ hmessage => exact hsame hmessage
  | poll nowMs txLen hop => exact absurd hop (hpoll nowMs txLen)
  | observed fragment _ hpushed hspec => exact hfragment hpushed hspec
  | accepted fragment _ hpushed hspec => exact hfragment hpushed hspec

/-- **What a run delivers, with what still waits, was pushed in this order.** -/
theorem PacketRun.delivered_sublist (hrun : PacketRun config calls st) :
    (calls.filterMap (Call.delivered config) ++ RingQueue.toList st.message).Sublist
      (calls.filterMap Call.pushed) := by
  induction hrun with
  | new => exact .refl _
  | ingress ingress _ ih => exact ih
  | @call calls st op _ ih =>
    rw [filterMap_snoc, filterMap_snoc]
    by_cases hpoll : ∃ nowMs txLen, op = .poll nowMs txLen
    · obtain ⟨nowMs, txLen, rfl⟩ := hpoll
      rw [List.append_assoc, Call.delivered_poll]
      exact ih.trans (List.sublist_append_left _ _)
    · have hnone : Call.delivered config ⟨st, op⟩ = none :=
        delivered_of_not_poll fun nowMs txLen hop => hpoll ⟨nowMs, txLen, hop⟩
      rw [hnone, Option.toList_none, List.append_nil]
      have hmessage := Call.toList_message_sublist config ⟨st, op⟩
        fun nowMs txLen hop => hpoll ⟨nowMs, txLen, hop⟩
      have hmore := hmessage.append_left (calls.filterMap (Call.delivered config))
      rw [← List.append_assoc] at hmore
      exact hmore.trans (ih.append_right _)

end Delivered

/-! ## At most once -/

section Once
variable {sender receiver : EngineConfig} {back : List Call → Bytes → Prop} {a b : Party}
  {arrived : List Bytes}

/-- A last fragment of a message that was handed to reassembly came in its last packet. -/
theorem OnceRun.packet_of_observesEnd (hsame : sender.integrity = receiver.integrity)
    (hrun : OnceRun sender receiver back a arrived b) (hcount : sendCount a.calls < 2 ^ 32)
    {send : Call} (hsend : send ∈ a.calls) {m : SentMessage} (hm : send.accepted sender = some m)
    {call : Call} (hc : call ∈ b.calls) (hend : call.observesEnd m.messageKey = true) :
    call.op = .packet (m.packet sender (m.count sender - 1)) := by
  obtain ⟨fragment, hobserved, hends⟩ := (Option.any_eq_true _ _).mp hend
  rw [Bool.and_eq_true, beq_iff_eq, MessageFragment.reachesEnd, beq_iff_eq] at hends
  obtain ⟨hkey, hreaches⟩ := hends
  obtain ⟨bytes, hop⟩ := op_of_observed hobserved
  have horigin := (hrun.linkRun.fed hsame).handled call hc bytes hop
  unfold Call.observed at hobserved
  rw [hop] at hobserved ⊢
  dsimp only at hobserved
  cases horigin with
  | @fragment c m' i hc' hm' hi =>
    have hfragment : fragment = m'.messageFragment sender i := by
      rcases SentMessage.decode_packet (accepted_valid hm').1 hi with
        ⟨-, header, hdec⟩ | ⟨-, header, hdec⟩
      · rw [hdec] at hobserved
        dsimp only at hobserved
        split at hobserved
        · cases hobserved
        · exact (Option.some.inj hobserved).symm
      · rw [hdec] at hobserved
        exact (Option.some.inj hobserved).symm
    subst hfragment
    obtain rfl := hrun.linkRun.runs.1.accepted_unique hcount hc' hsend hm' hm
      (congrArg MessageKey.messageId hkey)
    -- the fragment that ends where the message ends is the last one
    have hlast := (Chunks.chunk_last (m'.size_pos sender) hi).mp hreaches
    have hindex : i = m'.count sender - 1 := by
      have : i + 1 = m'.count sender := hlast
      omega
    rw [← hindex]
  | ack hkey' => rw [decodePacketBytes_ackPacketBytes] at hobserved; cases hobserved
  | ping => rw [decodePacketBytes_ping] at hobserved; cases hobserved
  | pong => rw [decodePacketBytes_pong] at hobserved; cases hobserved

/-- **A LOG message is pushed at most once.** -/
theorem OnceRun.log_pushed_once (hsame : sender.integrity = receiver.integrity)
    (hrun : OnceRun sender receiver back a arrived b) (hcount : sendCount a.calls < 2 ^ 32)
    (hids : ∀ call ∈ a.calls, ∀ m, call.accepted sender = some m → m.messageId ≠ 0)
    (id : MessageId) : b.calls.countP (Call.pushes ⟨.log, id⟩) ≤ 1 := by
  obtain ⟨hleft, hright⟩ := hrun.linkRun.runs
  refine Nat.le_trans (hright.endAccount ⟨.log, id⟩).pushed ?_
  by_cases hnone : ∀ call ∈ b.calls, call.observesEnd ⟨.log, id⟩ = false
  · rw [List.countP_eq_zero.mpr fun call hc => by simp [hnone call hc]]
    exact Nat.zero_le _
  · -- the message of the fragment
    push Not at hnone
    obtain ⟨call, hc, hend⟩ := hnone
    obtain ⟨fragment, hobserved, hkey⟩ := (Option.any_eq_true _ _).mp (Bool.eq_true_of_not_eq_false hend)
    rw [Bool.and_eq_true, beq_iff_eq] at hkey
    obtain ⟨send, hsend, m, hm, i, hi, rfl⟩ := (hrun.linkRun.fed hsame).observed hc hobserved
    have hkey : m.messageKey = ⟨.log, id⟩ := hkey.1
    have hlog : m.packetType ≠ .data := by
      rw [show m.packetType = .log from congrArg MessageKey.packetType hkey]
      exact PacketType.noConfusion
    have hpos := m.count_pos sender
    rw [← hkey]
    calc b.calls.countP (Call.observesEnd m.messageKey)
        ≤ (handled b.calls).count (m.packet sender (m.count sender - 1)) := by
          rw [handled, List.count_filterMap]
          refine List.countP_mono_left fun c hc' hc'' => ?_
          rw [hrun.packet_of_observesEnd hsame hcount hsend hm hc' hc'']
          exact beq_self_eq_true _
      _ ≤ (a.emissions sender).count
            (envelope sender.integrity (m.packet sender (m.count sender - 1))) :=
          hrun.count_handled_le hsame _
      _ ≤ 1 := hleft.log_emitted_once hcount hids (accepted_valid hm).1 hlog (by omega)

/-- **A LOG message is delivered at most once.**  Over a link that loses, delays and reorders envelopes
but delivers none of them twice, the LOG messages that the receiver delivers have distinct ids, however
the operations of the two sides interleave. -/
theorem log_delivered_once (hsame : sender.integrity = receiver.integrity)
    (hrun : OnceRun sender receiver back a arrived b) (hcount : sendCount a.calls < 2 ^ 32)
    (hids : ∀ call ∈ a.calls, ∀ m, call.accepted sender = some m → m.messageId ≠ 0) :
    (((b.calls.filterMap (Call.delivered receiver)).filter fun e => e.packetType == .log).map
      MessageEvent.messageId).Nodup := by
  rw [List.nodup_iff_count_le_one]
  intro id
  rw [List.count, List.countP_map, List.countP_filter]
  have hdelivered := hrun.linkRun.runs.2.delivered_sublist
  calc (b.calls.filterMap (Call.delivered receiver)).countP
        (fun e => ((· == id) ∘ MessageEvent.messageId) e && e.packetType == .log)
      ≤ (b.calls.filterMap Call.pushed).countP
        (fun e => ((· == id) ∘ MessageEvent.messageId) e && e.packetType == .log) :=
        ((List.sublist_append_left _ _).trans hdelivered).countP_le
    _ ≤ b.calls.countP (Call.pushes ⟨.log, id⟩) := by
        rw [List.countP_filterMap]
        refine List.countP_mono_left fun call _ hpushed => ?_
        cases hcall : call.pushed with
        | none => simp [hcall] at hpushed
        | some e => simpa [Call.pushes, hcall, and_comm] using hpushed
    _ ≤ 1 := hrun.log_pushed_once hsame hcount hids id

/-- A LOG message of two fragments is sent, and a DATA message behind it that is transmitted twice. -/
def logSender : Party :=
  [.sendLog [7, 8], .send [9], .poll 0 128, .poll 0 128, .poll 0 128, .poll 50 128].foldl
    (fun party op => party.step tinyFragments op) (.new tinyFragments)

/-- All of it arrives, last packet first, and the receiver polls. -/
def logReceiver : Party :=
  [.receive (logSender.emissions tinyFragments).reverse.flatten, .poll 0 128, .poll 0 128,
    .poll 0 128, .poll 0 128].foldl
    (fun party op => party.step tinyFragments op) (.new tinyFragments)

theorem logReceiver_delivers :
    (logSender.emissions tinyFragments).length = 4 ∧ sendCount logSender.calls < 2 ^ 32 ∧
      (logSender.calls.all fun call =>
        (call.accepted tinyFragments).all fun m => m.messageId != 0) = true ∧
      ((logReceiver.calls.filterMap (Call.delivered tinyFragments)).map
        fun e => (e.packetType, e.asBytes)) = [(.data, [9]), (.log, [7, 8])] := by
  decide +kernel

/-- The LOG message of the schedule is delivered once, out of order. -/
theorem log_delivered_once_reordered : ∃ (a b : Party) (arrived : List Bytes),
    OnceRun tinyFragments tinyFragments (fun _ _ => False) a arrived b ∧
      ((b.calls.filterMap (Call.delivered tinyFragments)).map fun e => (e.packetType, e.asBytes)) =
        [(.data, [9]), (.log, [7, 8])] ∧
      (((b.calls.filterMap (Call.delivered tinyFragments)).filter fun e => e.packetType == .log).map
        MessageEvent.messageId).Nodup := by
  obtain ⟨-, hcount, hall, hdelivered⟩ := logReceiver_delivers
  have hsent : OnceRun tinyFragments tinyFragments (fun _ _ => False) logSender [] (.new tinyFragments) :=
    (((((OnceRun.new.left (.sendLog [7, 8]) (by simp)).left (.send [9]) (by simp)).left
      (.poll 0 128) (by simp)).left (.poll 0 128) (by simp)).left (.poll 0 128) (by simp)).left
      (.poll 50 128) (by simp)
  have harrived := hsent.arrive (logSender.emissions tinyFragments).reverse
    (List.reverse_perm _).subperm
  have hrun : OnceRun tinyFragments tinyFragments (fun _ _ => False) logSender
      ([] ++ (logSender.emissions tinyFragments).reverse) logReceiver :=
    (((harrived.right (.poll 0 128) (by simp)).right (.poll 0 128) (by simp)).right
      (.poll 0 128) (by simp)).right (.poll 0 128) (by simp)
  refine ⟨logSender, logReceiver, _, hrun, hdelivered, log_delivered_once rfl hrun hcount ?_⟩
  intro call hc m hm
  have hid := List.all_eq_true.mp hall call hc
  rw [hm] at hid
  exact bne_iff_ne.mp hid

end Once

end Msrt
