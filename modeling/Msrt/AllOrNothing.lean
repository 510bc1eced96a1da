import Msrt.QueueOrder

/-! # A send is all or nothing

Whether a message is accepted depends on its length and on the free entries alone
(`sendFragmentedMessage_accepted_iff`), and a message that is refused costs one message id.  Of an
accepted message whose id no queued write and no in-flight packet carries, every fragment is appended to
the new data in order, a DATA fragment is tracked with the same bytes, and nothing else changes.
-/

namespace Msrt
open EngineState

/-! ## Writes behind new data -/

namespace SchedulerState
variable {s s' s'' : SchedulerState}

/-- The writes are appended to the new data, and the other queues are as before. -/
structure Appended (s : SchedulerState) (writes : List WriteEvent) (s' : SchedulerState) : Prop where
  newData : RingQueue.toList s'.newData = RingQueue.toList s.newData ++ writes.map .write
  control : s'.control = s.control
  retransmit : s'.retransmit = s.retransmit
  localQueue : s'.localQueue = s.localQueue

theorem Appended.refl (s : SchedulerState) : Appended s [] s :=
  ⟨(List.append_nil _).symm, rfl, rfl, rfl⟩

theorem Appended.trans {writes writes' : List WriteEvent} (h : Appended s writes s')
    (h' : Appended s' writes' s'') : Appended s (writes ++ writes') s'' where
  newData := by rw [h'.newData, h.newData, List.map_append, List.append_assoc]
  control := h'.control.trans h.control
  retransmit := h'.retransmit.trans h.retransmit
  localQueue := h'.localQueue.trans h.localQueue

/-- A write of a key that is not queued yet goes behind the new data. -/
theorem appended_pushIgnored {w : WriteEvent} (hpriority : w.priority = .newData)
    (hfresh : ∀ old, .write old ∈ s.queued → old.key ≠ w.key) (hroom : s.len < maxEvents) :
    Appended s [w] (s.pushIgnored (.write w)) := by
  have hnone : s.replaceRedundantWrite (.write w) = none := by
    cases hreplaced : s.replaceRedundantWrite (.write w) with
    | none => rfl
    | some s' =>
      obtain ⟨write, old, rest, hwrite, hkey, hqueued, -⟩ := replaceRedundantWrite_eq_some hreplaced
      obtain rfl := EngineOutput.write.inj hwrite
      exact absurd hkey (hfresh old (hqueued ▸ Multiset.mem_cons_self _ _))
  have hkind : queueForEvent (.write w) = .newData := by simp only [queueForEvent, hpriority]
  cases hpush : s.push (.write w) with
  | error e => exact absurd (push_eq_error hpush).1 (Nat.ne_of_lt hroom)
  | ok s' =>
    have hignored : s.pushIgnored (.write w) = s' := by rw [pushIgnored, hpush]
    rw [hignored]
    unfold push at hpush
    rw [hnone] at hpush
    dsimp only at hpush
    split at hpush
    · cases hpush
    · split at hpush
      · rename_i hcontrol
        cases hkind.symm.trans hcontrol
      · rename_i hretransmit
        cases hkind.symm.trans hretransmit
      · split at hpush
        · cases hpush
        · rename_i hq
          obtain rfl := Except.ok.inj hpush
          exact ⟨EventQueue.toList_of_push hq, rfl, rfl, rfl⟩
      · rename_i hlocal
        cases hkind.symm.trans hlocal

theorem Appended.len_eq {writes : List WriteEvent} (h : Appended s writes s') :
    s'.len = s.len + writes.length := by
  have hnew := congrArg List.length h.newData
  rw [List.length_append, List.length_map, RingQueue.length_toList, RingQueue.length_toList] at hnew
  unfold len
  rw [h.control, h.retransmit, h.localQueue]
  omega

theorem Appended.mem_queued {writes : List WriteEvent} {e : EngineOutput} (h : Appended s writes s')
    (he : e ∈ s'.queued) : e ∈ s.queued ∨ ∃ w ∈ writes, e = .write w := by
  simp only [queued, Multiset.mem_add, Multiset.mem_coe, h.newData, h.control, h.retransmit,
    h.localQueue, List.mem_append, List.mem_map] at he ⊢
  rcases he with ((he | he) | he | ⟨w, hw, rfl⟩) | he
  · exact .inl (.inl (.inl (.inl he)))
  · exact .inl (.inl (.inl (.inr he)))
  · exact .inl (.inl (.inr he))
  · exact .inr ⟨w, hw, rfl⟩
  · exact .inl (.inr he)

/-- Writes of distinct keys that are not queued yet go behind the new data in order. -/
theorem appended_foldl {writes : List WriteEvent} (hpriority : ∀ w ∈ writes, w.priority = .newData)
    (hkeys : (writes.map WriteEvent.key).Nodup)
    (hfresh : ∀ w ∈ writes, ∀ old, .write old ∈ s.queued → old.key ≠ w.key)
    (hroom : s.len + writes.length ≤ maxEvents) :
    Appended s writes ((writes.map EngineOutput.write).foldl pushIgnored s) := by
  induction writes generalizing s with
  | nil => exact .refl s
  | cons w writes ih =>
    rw [List.length_cons] at hroom
    rw [List.map_cons, List.nodup_cons] at hkeys
    have hfirst := appended_pushIgnored (hpriority w List.mem_cons_self)
      (hfresh w List.mem_cons_self) (by omega)
    have hlen := hfirst.len_eq
    rw [List.length_singleton] at hlen
    refine hfirst.trans (ih (fun w' hw' => hpriority w' (List.mem_cons_of_mem _ hw')) hkeys.2 ?_
      (by omega))
    intro w' hw' old hqueued
    rcases hfirst.mem_queued hqueued with hold | ⟨w'', hw'', hsame⟩
    · exact hfresh w' (List.mem_cons_of_mem _ hw') old hold
    · obtain rfl := List.mem_singleton.mp hw''
      obtain rfl := EngineOutput.write.inj hsame
      intro hkey
      exact hkeys.1 (List.mem_map.mpr ⟨w', hw', hkey.symm⟩)

end SchedulerState

/-! ## The slices of a message -/

namespace SentMessage
variable (m : SentMessage) (config : EngineConfig)

theorem flatMap_fragment (k : Nat) :
    (List.range k).flatMap (m.fragment config) = m.bytes.take (k * m.size config) := by
  induction k with
  | zero => rw [Nat.zero_mul, List.take_zero, List.range_zero, List.flatMap_nil]
  | succ k ih =>
    rw [List.range_succ, List.flatMap_append, ih, List.flatMap_singleton, Nat.add_mul, Nat.one_mul,
      List.take_add, fragment]

/-- **The fragments are the message.** -/
theorem flatMap_fragment_count :
    (List.range (m.count config)).flatMap (m.fragment config) = m.bytes := by
  rw [flatMap_fragment]
  apply List.take_of_length_le
  by_cases hne : m.bytes = []
  · simp [hne]
  · exact Nat.le_of_not_lt fun hlt =>
      Nat.lt_irrefl _ ((offset_lt_iff config hne (m.count config)).mp hlt)

/-- Every fragment but the last has the full size. -/
theorem length_fragment_eq {i : Nat} (hi : i + 1 < m.count config) :
    (m.fragment config i).length = m.size config := by
  have hoffset := offset_le hi
  rw [Nat.add_mul, Nat.one_mul] at hoffset
  rw [fragment, List.length_take, List.length_drop]
  omega

end SentMessage

/-! ## All or nothing -/

namespace EngineState
variable {config : EngineConfig} {st : EngineState}

/-- No queued write and no in-flight packet carries the id. -/
structure IdUnused (st : EngineState) (id : MessageId) : Prop where
  queued : ∀ w, .write w ∈ st.scheduler.queued → w.key.messageId ≠ id
  inFlight : ∀ p ∈ st.recovery.packets, p.key.messageId ≠ id

/-- What an accepted message leaves behind: all its fragments, cut from it one after the other, behind
the new data and, if it is a DATA message, in flight with the same bytes. -/
structure SentWhole (config : EngineConfig) (st : EngineState) (m : SentMessage) (st' : EngineState) :
    Prop where
  queued : st.scheduler.Appended ((List.range (m.count config)).map (m.writeEvent config)) st'.scheduler
  tracked : m.packetType = .data → st'.recovery.packets.Perm (st.recovery.packets ++
    (List.range (m.count config)).map (m.inFlightPacket config st.clock.nowMs))
  untracked : m.packetType = .log → st'.recovery = st.recovery
  lastTick : st'.recovery.lastTickMs = st.recovery.lastTickMs
  numbers : st'.numbers = st.numbers.allocMessageId.1
  frame : SendFrame st st'
  slices : (List.range (m.count config)).flatMap (m.fragment config) = m.bytes
  full : ∀ i, i + 1 < m.count config → (m.fragment config i).length = m.size config
  sealed : ∀ i, (m.wire config i).bytes = envelope config.integrity (m.packet config i) ∧
    (envelope config.integrity (m.packet config i)).length ≤ 128

/-- The outcome of a send of the message `m`. -/
structure AllOrNothing (config : EngineConfig) (st : EngineState) (m : SentMessage)
    (result : EngineState × Except Error MessageId) : Prop where
  accepted_iff : (∃ id, result.2 = .ok id) ↔ m.bytes.length ≤ 256 ∧
    m.count config ≤ st.scheduler.available ∧
    (m.packetType = .data → m.count config ≤ st.recovery.availableInFlight)
  refused : ∀ e, result.2 = .error e →
    result.1 = { st with numbers := st.numbers.allocMessageId.1 }
  accepted : ∀ id, result.2 = .ok id → id = m.messageId ∧
    (st.IdUnused id → SentWhole config st m result.1)

theorem mode_eq_reliable {m : SentMessage} (hm : m.packetType = .data ∨ m.packetType = .log) :
    m.mode = .reliable ↔ m.packetType = .data := by
  unfold SentMessage.mode
  rcases hm with h | h
  · simp [h]
  · simp [h]

/-- Whether there is room depends on the free entries. -/
theorem hasRoom_iff {m : SentMessage} (hm : m.packetType = .data ∨ m.packetType = .log) {k : Nat}
    (hk : 0 < k) : HasRoom m st k ↔ k ≤ st.scheduler.available ∧
      (m.packetType = .data → k ≤ st.recovery.availableInFlight) := by
  have havailable : k ≤ st.scheduler.available ↔ st.scheduler.len + k ≤ maxEvents := by
    unfold SchedulerState.available
    omega
  have hinFlight : k ≤ st.recovery.availableInFlight ↔
      st.recovery.inFlight.len + k ≤ maxInFlightPackets := by
    unfold RecoveryState.availableInFlight InFlightPackets.available
    omega
  rw [havailable, hinFlight, ← mode_eq_reliable hm]
  exact ⟨fun h => ⟨h.scheduler, h.inFlight⟩, fun h => ⟨h.1, h.2⟩⟩

/-- The writes of the fragments, for which there is room and which no queued write stands in for. -/
theorem appended_queueMessage {m : SentMessage} (hroom : HasRoom m st (m.count config))
    (hunused : st.IdUnused m.messageId) :
    st.scheduler.Appended ((List.range (m.count config)).map (m.writeEvent config))
      (st.queueMessage config m).scheduler := by
  have hcount := count_le_of_hasRoom hroom
  unfold maxEvents at hcount
  rw [queueMessage, scheduler_foldl_queueOne]
  have hmap : ((List.range (m.count config)).map fun i => EngineOutput.write (m.writeEvent config i)) =
      ((List.range (m.count config)).map (m.writeEvent config)).map .write := by
    rw [List.map_map]
    rfl
  rw [hmap]
  refine SchedulerState.appended_foldl ?_ ?_ ?_ ?_
  · intro w hw
    obtain ⟨i, -, rfl⟩ := List.mem_map.mp hw
    rfl
  · rw [List.map_map]
    refine List.Nodup.map_on ?_ List.nodup_range
    intro i hi j hj hkey
    rw [List.mem_range] at hi hj
    exact packetKey_inj (by omega) (by omega) hkey
  · intro w hw old hold hkey
    obtain ⟨i, -, rfl⟩ := List.mem_map.mp hw
    exact hunused.queued old hold (congrArg PacketKey.messageId hkey)
  · rw [List.length_map, List.length_range]
    exact hroom.scheduler

/-- A reliable message joins the packets in flight. -/
theorem packets_queueMessage_perm {m : SentMessage} (hroom : HasRoom m st (m.count config))
    (hunused : st.IdUnused m.messageId) (hmode : m.mode = .reliable) :
    (st.queueMessage config m).recovery.packets.Perm (st.recovery.packets ++
      (List.range (m.count config)).map (m.inFlightPacket config st.clock.nowMs)) := by
  have hcount := count_le_of_hasRoom hroom
  unfold maxEvents at hcount
  have hnodup : ∀ r : RecoveryState, r.packets.Nodup := fun r =>
    List.Nodup.of_map _ r.inFlight.keys_nodup
  rw [List.perm_ext_iff_of_nodup (hnodup _)]
  · intro p
    rw [mem_packets_queueMessage hroom hmode, List.mem_append, List.mem_map, or_comm]
    constructor
    · rintro (⟨hp, -⟩ | ⟨i, hi, rfl⟩)
      · exact .inl hp
      · exact .inr ⟨i, List.mem_range.mpr hi, rfl⟩
    · rintro (hp | ⟨i, hi, rfl⟩)
      · refine .inl ⟨hp, fun i _ hkey => hunused.inFlight p hp ?_⟩
        exact congrArg PacketKey.messageId hkey
      · exact .inr ⟨i, List.mem_range.mp hi, rfl⟩
  · refine List.Nodup.append (hnodup _) ?_ ?_
    · refine List.Nodup.map_on ?_ List.nodup_range
      intro i hi j hj hsame
      rw [List.mem_range] at hi hj
      exact packetKey_inj (by omega) (by omega) (congrArg InFlightPacket.key hsame)
    · intro p hp hnew
      obtain ⟨i, -, rfl⟩ := List.mem_map.mp hnew
      exact hunused.inFlight _ hp rfl

theorem lastTickMs_queueMessage {m : SentMessage} (hroom : HasRoom m st (m.count config)) :
    (st.queueMessage config m).recovery.lastTickMs = st.recovery.lastTickMs := by
  refine queueMessage_induction
    (motive := fun _ st' => st'.recovery.lastTickMs = st.recovery.lastTickMs) hroom rfl ?_
  intro i st₁ st₂ _ ih hq
  rw [hq.lastTick, ih]

theorem frame_queueMessage {m : SentMessage} (hroom : HasRoom m st (m.count config)) :
    SendFrame st (st.queueMessage config m) := by
  refine queueMessage_induction (motive := fun _ st' => SendFrame st st') hroom (.refl st) ?_
  intro i st₁ st₂ _ ih hq
  exact ih.trans hq.frame

/-- A message with an unused id and room for all fragments is sent whole. -/
theorem sentWhole_queueMessage {packetType : PacketType} {message : Bytes}
    (hm : (st.nextMessage packetType message).Valid)
    (hroom : HasRoom (st.nextMessage packetType message) st.withNextId
      ((st.nextMessage packetType message).count config))
    (hunused : st.IdUnused st.numbers.allocMessageId.2) :
    SentWhole config st (st.nextMessage packetType message)
      (st.withNextId.queueMessage config (st.nextMessage packetType message)) := by
  have hunused' : st.withNextId.IdUnused (st.nextMessage packetType message).messageId := by
    constructor
    · rw [scheduler_withNextId]
      exact hunused.queued
    · rw [recovery_withNextId]
      exact hunused.inFlight
  have hqueued := appended_queueMessage hroom hunused'
  rw [scheduler_withNextId] at hqueued
  have hmode := mode_eq_reliable hm.kind
  have hnumbers : ∀ numbers, SendFrame st (st.withNumbers numbers) :=
    fun numbers => ⟨rfl, rfl, rfl, rfl, rfl, rfl⟩
  refine ⟨hqueued, ?_, ?_, ?_, ?_, (hnumbers _).trans (frame_queueMessage hroom),
    SentMessage.flatMap_fragment_count _ config, ?_, ?_⟩
  · intro hdata
    have htracked := packets_queueMessage_perm hroom hunused' (hmode.mpr hdata)
    rwa [recovery_withNextId, clock_withNextId] at htracked
  · intro hlog
    rw [recovery_queueMessage hroom, recovery_withNextId]
    rw [Ne, hmode, hlog]
    exact PacketType.noConfusion
  · rw [lastTickMs_queueMessage hroom, recovery_withNextId]
  · rw [numbers_queueMessage hroom]
    rfl
  · intro i hi
    exact SentMessage.length_fragment_eq _ config hi
  · intro i
    refine ⟨SentMessage.wire_bytes _ config i, ?_⟩
    rw [length_envelope]
    exact SentMessage.length_envelope_packet_le _ config i

/-- Sending of either kind. -/
theorem sendFragmentedMessage_allOrNothing (config : EngineConfig) (st : EngineState)
    {packetType : PacketType} (hkind : packetType = .data ∨ packetType = .log) (message : Bytes) :
    AllOrNothing config st (st.nextMessage packetType message)
      (st.sendFragmentedMessage config packetType message) := by
  have hresult := sendFragmentedMessage_result config st packetType message
  have hroom : ∀ {k}, 0 < k → (HasRoom (st.nextMessage packetType message) st.withNextId k ↔
      k ≤ st.scheduler.available ∧
      (packetType = .data → k ≤ st.recovery.availableInFlight)) := by
    intro k hk
    rw [hasRoom_iff hkind hk, scheduler_withNextId, recovery_withNextId]
    rfl
  have hpos := (st.nextMessage packetType message).count_pos config
  have hroomy := @sendFragmentedMessage_of_hasRoom config st packetType message
  revert hresult hroomy
  generalize st.sendFragmentedMessage config packetType message = result
  intro hresult hroomy
  refine ⟨⟨?_, ?_⟩, ?_, ?_⟩
  · rintro ⟨id, hok⟩
    cases hresult with
    | unsupported e | refused e => cases hok
    | accepted hm hfits => exact ⟨hm.length_le, (hroom hpos).mp hfits⟩
  · rintro ⟨hlen, hfits⟩
    exact ⟨_, hroomy ⟨hkind, hlen⟩ ((hroom hpos).mpr hfits)⟩
  · intro e herror
    cases hresult with
    | unsupported e hdata hlog => exact absurd hkind (not_or.mpr ⟨hdata, hlog⟩)
    | refused e => rfl
    | accepted hm hfits => cases herror
  · intro id hok
    cases hresult with
    | unsupported e | refused e => cases hok
    | accepted hm hfits =>
      obtain rfl := Except.ok.inj hok
      exact ⟨rfl, fun hunused => sentWhole_queueMessage hm hfits hunused⟩

/-- **A send is all or nothing.**  In every state a DATA message is accepted exactly when it is short
enough and its fragments find room in the scheduler and in flight, a LOG message when they find room in
the scheduler; a refused message costs its id alone, and an accepted one under an unused id is sent
whole. -/
theorem send_all_or_nothing (config : EngineConfig) (st : EngineState) (message : Bytes) :
    AllOrNothing config st (st.nextMessage .data message) (st.sendData config message) ∧
      AllOrNothing config st (st.nextMessage .log message) (st.sendLog config message) :=
  ⟨sendFragmentedMessage_allOrNothing config st (.inl rfl) message,
    sendFragmentedMessage_allOrNothing config st (.inr rfl) message⟩

end EngineState

end Msrt
