import Msrt.SendMoves

/-! # What is queued, and what a poll transmits

No two queued writes share a packet key, and every queued write is a fragment of an accepted message
under the key of that fragment, or a PING or PONG under the zero key (`QueueInv`).  So the packet a
poll transmits tells which write it was: `dataKey` reads the key of a DATA packet off the bytes of
its envelope, and `transmissions` lists the transmissions of one key over a run.
-/

namespace Msrt
open EngineState

/-! ## Reading a transmitted envelope -/

/-- The packet inside an envelope. -/
def envelopePacket (bytes : Bytes) : Bytes :=
  candidatePacket (bytes.getD wirePacketLenOffset 0) bytes

theorem envelopePacket_envelope {packet : Bytes} (integrity : IntegrityConfig)
    (h : packet.length ≤ maxPacketLen) : envelopePacket (envelope integrity packet) = packet := by
  have hlen : (envelope integrity packet).getD wirePacketLenOffset 0 = UInt8.ofNat packet.length :=
    rfl
  have hread : candidatePacket (UInt8.ofNat packet.length) (envelope integrity packet ++ []) =
      packet := candidatePacket_envelope h []
  rw [List.append_nil] at hread
  rw [envelopePacket, hlen, hread]

/-- The key of the DATA packet inside an envelope. -/
def dataKey (bytes : Bytes) : Option PacketKey :=
  match decodePacketBytes (envelopePacket bytes) with
  | .data _ fragment => some fragment.key
  | _ => none

/-- The key of the ACK packet inside an envelope. -/
def ackKey (bytes : Bytes) : Option PacketKey :=
  match decodePacketBytes (envelopePacket bytes) with
  | .ack key => some key
  | _ => none

theorem dataKey_of_decode {packet : Bytes} {header : DataHeader} {fragment : MessageFragment}
    (integrity : IntegrityConfig) (hlen : packet.length ≤ maxPacketLen)
    (h : decodePacketBytes packet = .data header fragment) :
    dataKey (envelope integrity packet) = some fragment.key := by
  rw [dataKey, envelopePacket_envelope integrity hlen, h]

theorem dataKey_eq_none {packet : Bytes} (integrity : IntegrityConfig)
    (hlen : packet.length ≤ maxPacketLen)
    (h : ∀ header fragment, decodePacketBytes packet ≠ .data header fragment) :
    dataKey (envelope integrity packet) = none := by
  rw [dataKey, envelopePacket_envelope integrity hlen]
  split
  · rename_i header fragment hdec
    exact absurd hdec (h header fragment)
  · rfl

theorem dataKey_ack (integrity : IntegrityConfig) (key : PacketKey) :
    dataKey (envelope integrity (ackPacketBytes key)) = none :=
  dataKey_eq_none integrity (by rw [length_ackPacketBytes]; decide)
    (by simp [decodePacketBytes_ackPacketBytes])

theorem ackKey_ack (integrity : IntegrityConfig) (key : PacketKey) :
    ackKey (envelope integrity (ackPacketBytes key)) = some key := by
  rw [ackKey, envelopePacket_envelope integrity (by rw [length_ackPacketBytes]; decide),
    decodePacketBytes_ackPacketBytes]

namespace SentMessage
variable {m : SentMessage} {config : EngineConfig} {i : Nat}

theorem wire_bytes (m : SentMessage) (config : EngineConfig) (i : Nat) :
    (m.wire config i).bytes = envelope config.integrity (m.packet config i) := by
  apply WireBuffer.store_bytes
  rw [length_envelope]
  exact m.length_envelope_packet_le config i

/-- The envelope of a fragment of a DATA message carries the key of the fragment. -/
theorem dataKey_wire (hm : m.Valid) (hi : i < m.count config) (hdata : m.packetType = .data) :
    dataKey (m.wire config i).bytes = some (m.packetKey i) := by
  rw [m.wire_bytes]
  rcases decode_packet hm hi with ⟨-, header, hdec⟩ | ⟨hlog, -⟩
  · exact dataKey_of_decode config.integrity (m.length_packet_le config i) hdec
  · rw [hdata] at hlog
    cases hlog

theorem dataKey_wire_log (hm : m.Valid) (hi : i < m.count config) (hlog : m.packetType ≠ .data) :
    dataKey (m.wire config i).bytes = none := by
  rw [m.wire_bytes]
  rcases decode_packet hm hi with ⟨hdata, -⟩ | ⟨-, header, hdec⟩
  · exact absurd hdata hlog
  · exact dataKey_eq_none config.integrity (m.length_packet_le config i) (by simp [hdec])

theorem ackKey_wire (hm : m.Valid) (hi : i < m.count config) :
    ackKey (m.wire config i).bytes = none := by
  rw [m.wire_bytes, ackKey, envelopePacket_envelope config.integrity (m.length_packet_le config i)]
  rcases decode_packet hm hi with ⟨-, header, hdec⟩ | ⟨-, header, hdec⟩ <;> rw [hdec]

end SentMessage

/-! ## Where a queued write comes from -/

/-- A queued write is a fragment of an accepted message, or a PING or PONG. -/
inductive WriteOrigin (config : EngineConfig) (calls : List Call) (w : WriteEvent) : Prop
  | fragment (call : Call) (m : SentMessage) (i : Nat) : call ∈ calls →
      call.accepted config = some m → i < m.count config → w.key = m.packetKey i →
      w.wire = m.wire config i → WriteOrigin config calls w
  | liveness (packetType : PacketType) : packetType = .ping ∨ packetType = .pong →
      w.key = .zero → w.wire = .store (envelope config.integrity [packetType.code]) →
      WriteOrigin config calls w

section Origin
variable {config : EngineConfig} {calls : List Call} {w : WriteEvent}

theorem WriteOrigin.append (h : WriteOrigin config calls w) (more : List Call) :
    WriteOrigin config (calls ++ more) w := by
  cases h with
  | fragment call m i hc hm hi hkey hwire =>
    exact .fragment call m i (List.mem_append_left _ hc) hm hi hkey hwire
  | liveness packetType hkind hkey hwire => exact .liveness packetType hkind hkey hwire

/-- The envelope of a PING or a PONG is stored whole. -/
theorem store_liveness (integrity : IntegrityConfig) (packetType : PacketType) :
    (WireBuffer.store (envelope integrity [packetType.code])).bytes =
      envelope integrity [packetType.code] := by
  have htag := integrity.tagLen_le
  apply WireBuffer.store_bytes
  rw [length_envelope, wireHeaderLen_eq, List.length_singleton]
  unfold maxWireBytes
  omega

/-- The wire of a PING or a PONG carries neither DATA nor an acknowledgement. -/
theorem keys_liveness (integrity : IntegrityConfig) {packetType : PacketType}
    (hkind : packetType = .ping ∨ packetType = .pong) :
    dataKey (WireBuffer.store (envelope integrity [packetType.code])).bytes = none ∧
      ackKey (WireBuffer.store (envelope integrity [packetType.code])).bytes = none := by
  have hlen : (envelope integrity [packetType.code]).length ≤ maxWireBytes := by
    have htag := integrity.tagLen_le
    rw [length_envelope, wireHeaderLen_eq, List.length_singleton]
    unfold maxWireBytes
    omega
  have hone : ([packetType.code] : Bytes).length ≤ maxPacketLen := by
    rw [List.length_singleton]
    decide
  rw [WireBuffer.store_bytes hlen, dataKey, ackKey, envelopePacket_envelope integrity hone]
  rcases hkind with rfl | rfl
  · rw [decodePacketBytes_ping]
    exact ⟨rfl, rfl⟩
  · rw [decodePacketBytes_pong]
    exact ⟨rfl, rfl⟩

/-- A write that carries a DATA packet is a fragment of a DATA message, under the key of it. -/
theorem WriteOrigin.of_dataKey (h : WriteOrigin config calls w) {key : PacketKey}
    (hkey : dataKey w.wire.bytes = some key) :
    w.key = key ∧ ∃ call ∈ calls, ∃ m, call.accepted config = some m ∧ m.packetType = .data ∧
      ∃ i < m.count config, key = m.packetKey i ∧ w.wire = m.wire config i := by
  cases h with
  | liveness packetType hkind _ hwire =>
    rw [hwire, (keys_liveness config.integrity hkind).1] at hkey
    cases hkey
  | fragment call m i hc hm hi hwkey hwire =>
    have hvalid := (accepted_valid hm).1
    by_cases hdata : m.packetType = .data
    · rw [hwire, SentMessage.dataKey_wire hvalid hi hdata] at hkey
      obtain rfl := Option.some.inj hkey
      exact ⟨hwkey, call, hc, m, hm, hdata, i, hi, rfl, hwire⟩
    · rw [hwire, SentMessage.dataKey_wire_log hvalid hi hdata] at hkey
      cases hkey

theorem WriteOrigin.ackKey_eq_none (h : WriteOrigin config calls w) :
    ackKey w.wire.bytes = none := by
  cases h with
  | liveness packetType hkind _ hwire => rw [hwire, (keys_liveness config.integrity hkind).2]
  | fragment call m i hc hm hi _ hwire =>
    rw [hwire, SentMessage.ackKey_wire (accepted_valid hm).1 hi]

end Origin

/-! ## The invariant of the queue -/

/-- What the queue of a run keeps. -/
structure QueueInv (config : EngineConfig) (calls : List Call) (side : SendSide) : Prop where
  nodup : side.scheduler.keys.Nodup
  origin : ∀ w, .write w ∈ side.scheduler.queued → WriteOrigin config calls w
  tracks : ∀ p ∈ side.recovery.packets, Tracks config calls p

section QueueInv
variable {config : EngineConfig} {calls : List Call} {call : Call} {a b : SendSide}

theorem QueueInv.append (h : QueueInv config calls a) (more : List Call) :
    QueueInv config (calls ++ more) a :=
  ⟨h.nodup, fun w hw => (h.origin w hw).append more, fun p hp => (h.tracks p hp).append more⟩

theorem QueueInv.move (hcall : call ∈ calls) (h : QueueInv config calls a)
    (hmove : SendMove config call a b) : QueueInv config calls b := by
  cases hmove with
  | liveness packetType priority hkind hpushed =>
    refine ⟨hpushed.keys_nodup h.nodup, ?_, h.tracks⟩
    intro w hw
    rcases hpushed.mem hw with hw | hw
    · obtain rfl := EngineOutput.write.inj hw
      exact .liveness packetType hkind rfl rfl
    · exact h.origin w hw
  | fragment m i haccepted hi hpushed htracked huntracked =>
    refine ⟨hpushed.keys_nodup h.nodup, ?_, ?_⟩
    · intro w hw
      rcases hpushed.mem hw with hw | hw
      · obtain rfl := EngineOutput.write.inj hw
        exact .fragment call m i hcall haccepted hi rfl rfl
      · exact h.origin w hw
    · intro p hp
      by_cases hdata : m.packetType = .data
      · rcases (htracked hdata p).mp hp with ⟨nowMs, rfl, -⟩ | ⟨hp, -⟩
        · exact ⟨call, hcall, m, haccepted, hdata, i, hi, rfl, hdata, rfl, rfl⟩
        · exact h.tracks p hp
      · exact h.tracks p (huntracked hdata ▸ hp)
  | acked bytes key _ _ =>
    exact ⟨h.nodup, h.origin, fun p hp => h.tracks p (InFlightPackets.mem_applyAck.mp hp).1⟩
  | marked nowMs txLen _ _ hpackets => exact ⟨h.nodup, h.origin, hpackets ▸ h.tracks⟩
  | failed nowMs txLen p _ _ _ _ htried hpackets =>
    refine ⟨htried.keys_nodup h.nodup, ?_, fun q hq => h.tracks q ((hpackets q).mp hq).1⟩
    intro w hw
    rcases htried.mem_write h.nodup hw with he | ⟨hw, -⟩
    · cases he
    · exact h.origin w hw
  | requeued nowMs txLen p _ hp _ htried =>
    refine ⟨htried.keys_nodup h.nodup, ?_, h.tracks⟩
    intro w hw
    rcases htried.mem_write h.nodup hw with he | ⟨hw, -⟩
    · obtain rfl := EngineOutput.write.inj he
      -- what is queued again is the fragment that was tracked
      obtain ⟨c, hc, m, hm, -, i, hi, hkey, -, -, hwire⟩ := h.tracks p hp
      exact .fragment c m i hc hm hi hkey hwire
    · exact h.origin w hw

theorem QueueInv.moves (hcall : call ∈ calls) (h : QueueInv config calls a)
    (hmoves : SendMoves config call a b) : QueueInv config calls b :=
  hmoves.preserves h fun _ _ hinv hmove => hinv.move hcall hmove

end QueueInv

/-! ## What a poll takes out -/

section PollStep
variable {config : EngineConfig} {nowMs txLen : Nat} {st st' : EngineState}
  {result : Except Error EnginePoll}

/-- What a poll takes out of the queue, seen from one key. -/
inductive KeyStep (config : EngineConfig) (key : PacketKey) (nowMs : Nat) (st st' : EngineState)
    (result : Except Error EnginePoll) : Prop
  | taken (w : WriteEvent) : w.key = key → st.scheduler.queued = .write w ::ₘ st'.scheduler.queued →
      st'.recovery = st.recovery.noteWrite w nowMs →
      result = .ok (.transmit w.wire.bytes w.attempts) → KeyStep config key nowMs st st' result
  | dropped (w : WriteEvent) : w.key = key →
      st.scheduler.queued = .write w ::ₘ st'.scheduler.queued → st'.recovery = st.recovery →
      result.isOk = false → KeyStep config key nowMs st st' result
  | other : (∀ w : WriteEvent, w.key = key →
        (.write w ∈ st'.scheduler.queued ↔ .write w ∈ st.scheduler.queued)) →
      (∀ p : InFlightPacket, p.key = key → (p ∈ st'.recovery.packets ↔ p ∈ st.recovery.packets)) →
      (∀ bytes attempts, result = .ok (.transmit bytes attempts) →
        (∃ k, bytes = envelope config.integrity (ackPacketBytes k)) ∨
          ∃ w : WriteEvent, .write w ∈ st.scheduler.queued ∧ w.key ≠ key ∧ bytes = w.wire.bytes) →
      KeyStep config key nowMs st st' result

theorem packets_noteWrite_of_ne {r : RecoveryState} {w : WriteEvent} {key : PacketKey}
    (hne : w.key ≠ key) {p : InFlightPacket} (hp : p.key = key) :
    p ∈ (r.noteWrite w nowMs).packets ↔ p ∈ r.packets := by
  rw [mem_packets_noteWrite]
  constructor
  · rintro ⟨q, hq, rfl⟩
    by_cases hqk : q.key = w.key
    · rw [if_pos hqk, (w.mark_same nowMs q).1, hqk] at hp
      exact absurd hp hne
    · rwa [if_neg hqk]
  · intro hmem
    exact ⟨p, hmem, (if_neg (fun h => hne (h.symm.trans hp))).symm⟩

theorem mem_queued_of_cons {s s' : SchedulerState} {e : EngineOutput} {w : WriteEvent}
    (hq : s.queued = e ::ₘ s'.queued) (hne : e ≠ .write w) :
    .write w ∈ s'.queued ↔ .write w ∈ s.queued := by
  rw [hq, Multiset.mem_cons]
  exact ⟨.inr, fun h => h.resolve_left (Ne.symm hne)⟩

/-- **A poll transmits a write of the key, drops one, or leaves the key alone.** -/
theorem PollStep.keyStep (h : PollStep config nowMs txLen st st' result) (key : PacketKey) :
    KeyStep config key nowMs st st' result := by
  cases h with
  | ack k keys _ _ hscheduler hrecovery _ hres =>
    refine .other (by simp [hscheduler]) (by simp [hrecovery]) fun bytes attempts hok => .inl ⟨k, ?_⟩
    exact eq_envelope_of_transmit_ack (hres.symm.trans hok)
  | transmit w hq _ hrecovery _ _ hres =>
    by_cases hkey : w.key = key
    · exact .taken w hkey hq hrecovery hres
    · refine .other (fun w' hw' => mem_queued_of_cons hq ?_) ?_
        (fun bytes attempts hok => .inr ⟨w, ?_, hkey, ?_⟩)
      · intro heq
        exact hkey (EngineOutput.write.inj heq ▸ hw')
      · intro p hp
        rw [hrecovery]
        exact packets_noteWrite_of_ne hkey hp
      · rw [hq]
        exact Multiset.mem_cons_self _ _
      · rw [hok] at hres
        exact (EnginePoll.transmit.inj (Except.ok.inj hres)).1
  | tooSmall w hq _ hrecovery _ _ hres =>
    by_cases hkey : w.key = key
    · exact .dropped w hkey hq hrecovery (by rw [hres]; rfl)
    · refine .other (fun w' hw' => mem_queued_of_cons hq ?_) (by simp [hrecovery])
        (by simp [hres])
      intro heq
      exact hkey (EngineOutput.write.inj heq ▸ hw')
  | sendFailed event hq hrecovery _ _ hres =>
    exact .other (fun w' _ => mem_queued_of_cons hq (by simp)) (by simp [hrecovery]) (by simp [hres])
  | message message messages _ _ hq hrecovery _ hres =>
    exact .other (by simp [hq]) (by simp [hrecovery]) (by simp [hres])
  | idle hq hrecovery _ _ hres =>
    exact .other (by simp [hq]) (by simp [hrecovery]) (by simp [hres])

theorem QueueInv.pollStep {calls : List Call} (h : QueueInv config calls st.sendSide)
    (hstep : PollStep config nowMs txLen st st' result) : QueueInv config calls st'.sendSide := by
  have hsub (hle : st'.scheduler.queued ≤ st.scheduler.queued)
      (htracks : ∀ p ∈ st'.recovery.packets, Tracks config calls p) :
      QueueInv config calls st'.sendSide :=
    ⟨Multiset.nodup_of_le (Multiset.filterMap_le_filterMap _ hle) h.nodup,
      fun w hw => h.origin w (Multiset.mem_of_le hle hw), htracks⟩
  cases hstep with
  | ack key keys _ _ hscheduler hrecovery =>
    exact hsub (by rw [hscheduler]) (hrecovery ▸ h.tracks)
  | transmit w hq _ hrecovery =>
    apply hsub (by rw [hq]; exact Multiset.le_cons_self _ _)
    intro p hp
    rw [hrecovery] at hp
    obtain ⟨q, hq, hsame⟩ := same_of_mem_noteWrite hp
    exact (h.tracks q hq).of_same hsame
  | tooSmall w hq _ hrecovery =>
    exact hsub (by rw [hq]; exact Multiset.le_cons_self _ _) (hrecovery ▸ h.tracks)
  | sendFailed event hq hrecovery =>
    exact hsub (by rw [hq]; exact Multiset.le_cons_self _ _) (hrecovery ▸ h.tracks)
  | message message messages _ _ hq hrecovery => exact hsub (by rw [hq]) (hrecovery ▸ h.tracks)
  | idle hq hrecovery => exact hsub (by rw [hq]) (hrecovery ▸ h.tracks)

end PollStep

theorem QueueInv.step {config : EngineConfig} {calls : List Call} {call : Call}
    (h : QueueInv config calls call.before.sendSide) :
    QueueInv config (calls ++ [call]) (call.after config).sendSide := by
  have hcall : call ∈ calls ++ [call] := by simp
  cases call.sendMoves config with
  | quiet _ hmoves => exact (h.append [call]).moves hcall hmoves
  | polled nowMs txLen ticked _ _ hmoves hstep =>
    exact ((h.append [call]).moves hcall hmoves).pollStep hstep

/-- **The queue of every run is in order.** -/
theorem PacketRun.queueInv {config : EngineConfig} {calls : List Call} {st : EngineState}
    (h : PacketRun config calls st) : QueueInv config calls st.sendSide := by
  induction h with
  | new =>
    refine ⟨?_, ?_, ?_⟩
    · exact Multiset.nodup_zero
    · intro w hw
      rw [show (EngineState.new config.initialMessageId).sendSide.scheduler.queued = 0 from
        SchedulerState.queued_new] at hw
      cases hw
    · intro p hp
      rw [show (EngineState.new config.initialMessageId).sendSide.recovery.packets = [] from
        InFlightPackets.toList_new] at hp
      cases hp
  | ingress ingress _ ih => exact ih
  | call op _ ih => exact ih.step

/-! ## Transmissions -/

/-- One transmission of a packet: when, the reported attempts, and the bytes. -/
structure Transmission where
  nowMs : Nat
  attempts : UInt8
  bytes : Bytes
  deriving DecidableEq

/-- The transmission of the DATA packet with `key` a poll returned. -/
def Call.transmission (config : EngineConfig) (key : PacketKey) (call : Call) :
    Option Transmission :=
  match call.op with
  | .poll nowMs txLen =>
    match (call.before.poll config nowMs txLen).2 with
    | .ok (.transmit bytes attempts) =>
      if dataKey bytes = some key then some ⟨nowMs, attempts, bytes⟩ else none
    | _ => none
  | _ => none

/-- The transmissions of the DATA packet with `key`, in order. -/
def transmissions (config : EngineConfig) (key : PacketKey) (calls : List Call) :
    List Transmission :=
  calls.filterMap (Call.transmission config key)

theorem filterMap_snoc {α β : Type*} (f : α → Option β) (l : List α) (x : α) :
    (l ++ [x]).filterMap f = l.filterMap f ++ (f x).toList := by
  rw [List.filterMap_append]
  cases hx : f x <;> simp [hx]

theorem transmissions_snoc (config : EngineConfig) (key : PacketKey) (calls : List Call)
    (call : Call) : transmissions config key (calls ++ [call]) =
      transmissions config key calls ++ (call.transmission config key).toList :=
  filterMap_snoc _ _ _

theorem transmission_of_not_poll {config : EngineConfig} {call : Call} (key : PacketKey)
    (h : ∀ nowMs txLen, call.op ≠ .poll nowMs txLen) : call.transmission config key = none := by
  unfold Call.transmission
  split
  · rename_i nowMs txLen hop
    exact absurd hop (h nowMs txLen)
  · rfl

end Msrt
