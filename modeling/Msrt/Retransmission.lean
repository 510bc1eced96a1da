import Msrt.QueuedWrites

/-! # The discipline of retransmission

The transmissions of one packet over a run form a log (`transmissions`).  The in-flight entry of the
packet and its queued write are tied to that log (`KeyInv`): an entry that is not marked sent has an
empty log, an entry that is marked sent counts one attempt less than the log is long and remembers
the time of its last transmission, and a queued retransmission was due when it was queued.  So a
packet is transmitted at most once more than the configured number of attempts, with the same bytes
each time, numbered from zero, and never twice within the timeout (`transmissions_paced`).
-/

namespace Msrt
open EngineState

/-! ## Paced logs -/

/-- A log of transmissions of `bytes`: at most `1 + limit` of them, numbered from zero, each at least
`timeoutMs` after the one before. -/
structure Paced (timeoutMs limit : Nat) (bytes : Bytes) (log : List Transmission) : Prop where
  length_le : log.length ≤ 1 + limit
  same : ∀ t ∈ log, t.bytes = bytes
  numbered : log.map (fun t => t.attempts.toNat) = List.range log.length
  apart : log.IsChain (fun t t' => t.nowMs + timeoutMs ≤ t'.nowMs)

section Paced
variable {timeoutMs limit : Nat} {bytes : Bytes} {log : List Transmission}

theorem Paced.nil : Paced timeoutMs limit bytes [] := ⟨by simp, by simp, rfl, .nil⟩

theorem Paced.snoc {t : Transmission} (h : Paced timeoutMs limit bytes log)
    (hlen : log.length ≤ limit) (hbytes : t.bytes = bytes) (hattempts : t.attempts.toNat = log.length)
    (hapart : ∀ last, log.getLast? = some last → last.nowMs + timeoutMs ≤ t.nowMs) :
    Paced timeoutMs limit bytes (log ++ [t]) := by
  refine ⟨?_, ?_, ?_, ?_⟩
  · rw [List.length_append, List.length_singleton]
    omega
  · intro t' ht'
    rcases List.mem_append.mp ht' with ht' | ht'
    · exact h.same t' ht'
    · rw [List.mem_singleton.mp ht']
      exact hbytes
  · rw [List.map_append, h.numbered, List.length_append, List.length_singleton, List.range_succ]
    simp [hattempts]
  · refine List.isChain_append.mpr ⟨h.apart, by simp, ?_⟩
    intro last hlast t' ht'
    obtain rfl := Option.some.inj ht'
    exact hapart last hlast

end Paced

/-! ## Uses of a message id -/

/-- The call accepts a message under the id. -/
def Call.usesId (config : EngineConfig) (id : MessageId) (call : Call) : Bool :=
  (call.accepted config).any (fun m => m.messageId == id)

/-- How often a run accepts a message under the id. -/
def idUses (config : EngineConfig) (id : MessageId) (calls : List Call) : Nat :=
  calls.countP (Call.usesId config id)

theorem idUses_snoc (config : EngineConfig) (id : MessageId) (calls : List Call) (call : Call) :
    idUses config id (calls ++ [call]) =
      idUses config id calls + if call.usesId config id then 1 else 0 := by
  rw [idUses, List.countP_append, List.countP_singleton]
  rfl

theorem usesId_of_accepted {config : EngineConfig} {call : Call} {m : SentMessage}
    (h : call.accepted config = some m) : call.usesId config m.messageId = true := by
  simp [Call.usesId, h]

theorem idUses_pos {config : EngineConfig} {calls : List Call} {call : Call} {m : SentMessage}
    (hc : call ∈ calls) (h : call.accepted config = some m) :
    0 < idUses config m.messageId calls :=
  List.countP_pos_iff.mpr ⟨call, hc, usesId_of_accepted h⟩

/-- Fewer than `2 ^ 32` sends use no id twice. -/
theorem PacketRun.idUses_le_one {config : EngineConfig} {calls : List Call} {st : EngineState}
    (h : PacketRun config calls st) (hcount : sendCount calls < 2 ^ 32) (id : MessageId) :
    idUses config id calls ≤ 1 := by
  induction h with
  | new => exact Nat.zero_le _
  | ingress ingress _ ih => exact ih hcount
  | @call calls st op hrun ih =>
    rw [sendCount, List.countP_append, List.countP_singleton] at hcount
    rw [idUses_snoc]
    by_cases huses : Call.usesId config id ⟨st, op⟩ = true
    · -- the id is fresh, so no earlier call used it
      obtain ⟨m, hm, hid⟩ := (Option.any_eq_true _ _).mp huses
      obtain ⟨hsend, hnext⟩ := isSend_of_accepted hm
      rw [if_pos hsend] at hcount
      have hunused : idUses config id calls = 0 := by
        apply List.countP_eq_zero.mpr
        intro c hc hc'
        obtain ⟨m', hm', hid'⟩ := (Option.any_eq_true _ _).mp hc'
        apply hrun.idInv.fresh hcount hc hm'
        rw [eq_of_beq hid', ← eq_of_beq hid]
        exact hnext
      rw [hunused, if_pos huses]
    · rw [if_neg huses]
      exact ih (Nat.lt_of_le_of_lt (Nat.le_add_right _ _) hcount)

/-- The times of the polls of a run, in order. -/
def Call.pollTime (call : Call) : Option Nat :=
  match call.op with
  | .poll nowMs _ => some nowMs
  | _ => none

/-- The times of the polls, in order. -/
def pollTimes (calls : List Call) : List Nat := calls.filterMap Call.pollTime

/-! ## One packet -/

section Key
variable (config : EngineConfig) (m : SentMessage) (i : Nat)

/-- The packet is due once more: it has attempts left and its timeout passed at one of `times`. -/
structure Due (log : List Transmission) (times : List Nat) (last : Transmission) : Prop where
  getLast : log.getLast? = some last
  length_le : log.length ≤ config.maxRetransmitAttempts.toNat
  passed : ∃ t ∈ times, last.nowMs + config.retransmitTimeoutMs ≤ t

/-- How the queued write and the in-flight entry of a packet go with its log. -/
structure KeyInv (log : List Transmission) (times : List Nat) (side : SendSide) : Prop where
  queued : ∀ w : WriteEvent, .write w ∈ side.scheduler.queued → w.key = m.packetKey i →
    w.wire = m.wire config i ∧ w.attempts.toNat = log.length ∧
      (log = [] ∧ w.priority ≠ .retransmit ∨
        w.priority = .retransmit ∧ ∃ last, Due config log times last)
  inFlight : ∀ p ∈ side.recovery.packets, p.key = m.packetKey i → p.wire = m.wire config i ∧
    (p.sent = false ∧ log = [] ∧ p.attempts = 0 ∨
      p.sent = true ∧ p.attempts.toNat + 1 = log.length ∧
        ∃ last, log.getLast? = some last ∧ p.lastSentMs = last.nowMs)
  past : ∀ t ∈ log, t.nowMs ∈ times

variable {config m i} {log : List Transmission} {times : List Nat} {a b : SendSide} {call : Call}

theorem KeyInv.mono (h : KeyInv config m i log times a) {times' : List Nat}
    (hsub : ∀ t ∈ times, t ∈ times') : KeyInv config m i log times' a := by
  refine ⟨?_, h.inFlight, fun t ht => hsub _ (h.past t ht)⟩
  intro w hw hkey
  obtain ⟨hwire, hattempts, hcase⟩ := h.queued w hw hkey
  refine ⟨hwire, hattempts, hcase.imp_right fun ⟨hpriority, last, hdue⟩ => ?_⟩
  obtain ⟨t, ht, hpassed⟩ := hdue.passed
  exact ⟨hpriority, last, hdue.getLast, hdue.length_le, t, hsub t ht, hpassed⟩

theorem toNat_saturatingSucc {n limit : UInt8} (h : n < limit) :
    (saturatingSucc n).toNat = n.toNat + 1 := by
  have hlt : n.toNat < limit.toNat := UInt8.lt_iff_toNat_lt.mp h
  have hlimit := limit.toNat_lt
  have hne : n ≠ 255 := by
    rintro rfl
    exact absurd hlt (by show ¬ 255 < limit.toNat; omega)
  rw [saturatingSucc, if_neg hne, UInt8.toNat_add]
  show (n.toNat + 1) % 256 = n.toNat + 1
  omega

/-- A packet that is queued again is due once more. -/
theorem KeyInv.due (h : KeyInv config m i log times a) {nowMs : Nat} (hnow : nowMs ∈ times)
    (hlast : ∀ t ∈ times, t ≤ nowMs) {p : InFlightPacket} (hp : p ∈ a.recovery.packets)
    (hkey : p.key = m.packetKey i) (hleft : retryLeft config nowMs p = true) :
    (saturatingSucc p.attempts).toNat = log.length ∧ ∃ last, Due config log times last := by
  simp only [retryLeft, retransmitDue, Bool.and_eq_true, Bool.not_eq_true', decide_eq_true_eq,
    decide_eq_false_iff_not, Nat.not_lt] at hleft
  obtain ⟨⟨hsent, helapsed⟩, hattempts⟩ := hleft
  rcases (h.inFlight p hp hkey).2 with ⟨hunsent, -⟩ | ⟨-, hcount, last, hgetLast, hlastSent⟩
  · rw [hunsent] at hsent
    cases hsent
  · have hlt := UInt8.lt_iff_toNat_lt.mp hattempts
    have hpast := hlast _ (h.past last (List.mem_of_getLast? hgetLast))
    rw [toNat_saturatingSucc hattempts]
    exact ⟨hcount, last, hgetLast, by omega, nowMs, hnow, by omega⟩

/-- Every move keeps the packet in step with its log. -/
theorem KeyInv.move (hi : i < m.count config) (hid : m.messageId ≠ 0)
    (hown : ∀ m', call.accepted config = some m' → m'.messageId = m.messageId → m' = m ∧ log = [])
    (hnow : ∀ nowMs txLen, call.op = .poll nowMs txLen → nowMs ∈ times ∧ ∀ t ∈ times, t ≤ nowMs)
    (h : KeyInv config m i log times a) (hmove : SendMove config call a b) :
    KeyInv config m i log times b := by
  cases hmove with
  | liveness packetType priority hkind hpushed =>
    refine ⟨?_, h.inFlight, h.past⟩
    intro w hw hkey
    rcases hpushed.mem hw with hw | hw
    · obtain rfl := EngineOutput.write.inj hw
      exact absurd (congrArg PacketKey.messageId hkey).symm hid
    · exact h.queued w hw hkey
  | fragment m' j haccepted hj hpushed htracked huntracked =>
    have hcount := (accepted_valid haccepted).2
    unfold maxEvents at hcount
    -- a fragment under the packet's key is the fragment itself
    have hself (hkey : m'.packetKey j = m.packetKey i) : m' = m ∧ log = [] ∧ j = i := by
      obtain ⟨rfl, hlog⟩ := hown m' haccepted (congrArg PacketKey.messageId hkey)
      exact ⟨rfl, hlog, packetKey_inj (by omega) (by omega) hkey⟩
    refine ⟨?_, ?_, h.past⟩
    · intro w hw hkey
      rcases hpushed.mem hw with hw | hw
      · obtain rfl := EngineOutput.write.inj hw
        obtain ⟨rfl, rfl, rfl⟩ := hself hkey
        exact ⟨rfl, rfl, .inl ⟨rfl, by simp [SentMessage.writeEvent]⟩⟩
      · exact h.queued w hw hkey
    · intro p hp hkey
      by_cases hdata : m'.packetType = .data
      · rcases (htracked hdata p).mp hp with ⟨nowMs, rfl, -⟩ | ⟨hp, -⟩
        · obtain ⟨rfl, rfl, rfl⟩ := hself hkey
          exact ⟨rfl, .inl ⟨rfl, rfl, rfl⟩⟩
        · exact h.inFlight p hp hkey
      · exact h.inFlight p (huntracked hdata ▸ hp) hkey
  | acked bytes key _ _ =>
    exact ⟨h.queued, fun p hp => h.inFlight p (InFlightPackets.mem_applyAck.mp hp).1, h.past⟩
  | marked nowMs txLen _ _ hpackets =>
    exact ⟨h.queued, fun p hp => h.inFlight p (hpackets ▸ hp), h.past⟩
  | failed nowMs txLen p _ _ _ _ htried hpackets =>
    refine ⟨?_, fun q hq => h.inFlight q ((hpackets q).mp hq).1, h.past⟩
    intro w hw
    rcases htried with hpushed | ⟨rfl, -⟩
    · rcases hpushed.mem hw with hw | hw
      · cases hw
      · exact h.queued w hw
    · exact h.queued w hw
  | requeued nowMs txLen p hop hp hleft htried =>
    refine ⟨?_, h.inFlight, h.past⟩
    intro w hw hkey
    rcases htried with hpushed | ⟨rfl, -⟩
    · rcases hpushed.mem hw with hw | hw
      · obtain rfl := EngineOutput.write.inj hw
        obtain ⟨hmem, hlast⟩ := hnow nowMs txLen hop
        obtain ⟨hattempts, hdue⟩ := h.due hmem hlast hp hkey hleft
        exact ⟨(h.inFlight p hp hkey).1, hattempts, .inr ⟨rfl, hdue⟩⟩
      · exact h.queued w hw hkey
    · exact h.queued w hw hkey

/-- The write that is transmitted makes the log one longer. -/
theorem KeyInv.taken {st st' : EngineState} (h : KeyInv config m i log times st.sendSide)
    (hd : st.scheduler.keys.Nodup)
    (hpaced : Paced config.retransmitTimeoutMs config.maxRetransmitAttempts.toNat
      (m.wire config i).bytes log) {nowMs : Nat} (hnow : nowMs ∈ times)
    (hlast : ∀ t ∈ times, t ≤ nowMs) {w : WriteEvent} (hkey : w.key = m.packetKey i)
    (hq : st.scheduler.queued = .write w ::ₘ st'.scheduler.queued)
    (hrecovery : st'.recovery = st.recovery.noteWrite w nowMs) :
    KeyInv config m i (log ++ [⟨nowMs, w.attempts, w.wire.bytes⟩]) times st'.sendSide ∧
      Paced config.retransmitTimeoutMs config.maxRetransmitAttempts.toNat (m.wire config i).bytes
        (log ++ [⟨nowMs, w.attempts, w.wire.bytes⟩]) := by
  obtain ⟨hwire, hattempts, hcase⟩ :=
    h.queued w (by show _ ∈ st.scheduler.queued; rw [hq]; exact Multiset.mem_cons_self _ _) hkey
  have hgetLast : (log ++ [(⟨nowMs, w.attempts, w.wire.bytes⟩ : Transmission)]).getLast? =
      some ⟨nowMs, w.attempts, w.wire.bytes⟩ := by simp
  refine ⟨⟨?_, ?_, ?_⟩, ?_⟩
  · intro w' hw' hkey'
    -- no second write has the key
    rw [SchedulerState.keys_of_queued_write hq, Multiset.nodup_cons] at hd
    exact absurd (SchedulerState.mem_keys.mpr ⟨w', hw', hkey'.trans hkey.symm⟩) hd.1
  · intro p hp hpkey
    replace hp : p ∈ st'.recovery.packets := hp
    rw [hrecovery] at hp
    obtain ⟨q, hqmem, rfl⟩ := mem_packets_noteWrite.mp hp
    by_cases hqkey : q.key = w.key
    · rw [if_pos hqkey] at hpkey ⊢
      obtain ⟨hqwire, hqcase⟩ := h.inFlight q hqmem (hqkey.trans hkey)
      refine ⟨(w.mark_same nowMs q).2.2.2.trans hqwire, .inr ?_⟩
      rw [List.length_append, List.length_singleton]
      -- the first transmission sets the attempts, a later one counts them up
      rcases hcase with ⟨rfl, hfirst⟩ | ⟨hretry, last, hdue⟩
      · rcases hqcase with ⟨-, -, hzero⟩ | ⟨-, hcount, -⟩
        · unfold WriteEvent.mark
          split
          · exact absurd ‹_› hfirst
          · exact ⟨rfl, by rw [hzero]; rfl, _, hgetLast, rfl⟩
          · exact ⟨rfl, by rw [hzero]; rfl, _, hgetLast, rfl⟩
        · cases hcount
      · rcases hqcase with ⟨-, hnil, -⟩ | ⟨-, hcount, -⟩
        · rw [hnil] at hdue
          cases hdue.getLast
        · have hlt : q.attempts < config.maxRetransmitAttempts := by
            rw [UInt8.lt_iff_toNat_lt]
            have := hdue.length_le
            omega
          simp only [WriteEvent.mark, hretry]
          exact ⟨trivial, by rw [toNat_saturatingSucc hlt, hcount], _, hgetLast, rfl⟩
    · rw [if_neg hqkey] at hpkey
      exact absurd (hpkey.trans hkey.symm) hqkey
  · intro t ht
    rcases List.mem_append.mp ht with ht | ht
    · exact h.past t ht
    · rw [List.mem_singleton.mp ht]
      exact hnow
  · -- the timeout had passed when the write was queued, at a poll that is no later than this one
    refine hpaced.snoc ?_ (congrArg WireBuffer.bytes hwire) hattempts ?_
    · rcases hcase with ⟨rfl, -⟩ | ⟨-, last, hdue⟩
      · exact Nat.zero_le _
      · exact hdue.length_le
    · intro last hl
      rcases hcase with ⟨rfl, -⟩ | ⟨-, last', hdue⟩
      · cases hl
      · rw [hdue.getLast] at hl
        obtain rfl := Option.some.inj hl
        obtain ⟨t, ht, hpassed⟩ := hdue.passed
        exact Nat.le_trans hpassed (hlast t ht)

theorem KeyInv.other {st st' : EngineState} (h : KeyInv config m i log times st.sendSide)
    (hqueued : ∀ w : WriteEvent, w.key = m.packetKey i →
      (.write w ∈ st'.scheduler.queued ↔ .write w ∈ st.scheduler.queued))
    (hpackets : ∀ p : InFlightPacket, p.key = m.packetKey i →
      (p ∈ st'.recovery.packets ↔ p ∈ st.recovery.packets)) :
    KeyInv config m i log times st'.sendSide :=
  ⟨fun w hw hkey => h.queued w ((hqueued w hkey).mp hw) hkey,
    fun p hp hkey => h.inFlight p ((hpackets p hkey).mp hp) hkey, h.past⟩

end Key

/-! ## Whole runs -/

section Run
variable {config : EngineConfig} {calls : List Call} {st : EngineState}

theorem transmission_of_transmit {call : Call} {nowMs txLen : Nat} {bytes : Bytes}
    {attempts : UInt8} (key : PacketKey) (hop : call.op = .poll nowMs txLen)
    (hres : (call.before.poll config nowMs txLen).2 = .ok (.transmit bytes attempts)) :
    call.transmission config key =
      if dataKey bytes = some key then some ⟨nowMs, attempts, bytes⟩ else none := by
  simp only [Call.transmission, hop, hres]

theorem transmission_eq_none {call : Call} {nowMs txLen : Nat} {key : PacketKey}
    (hop : call.op = .poll nowMs txLen)
    (h : ∀ bytes attempts, (call.before.poll config nowMs txLen).2 = .ok (.transmit bytes attempts) →
      dataKey bytes ≠ some key) : call.transmission config key = none := by
  simp only [Call.transmission, hop]
  split
  · rename_i bytes attempts hres
    exact if_neg (h bytes attempts hres)
  · rfl

/-- What a poll transmits beside the writes of a key does not carry the key. -/
theorem QueueInv.dataKey_ne {side : SendSide} (h : QueueInv config calls side) {key : PacketKey}
    {bytes : Bytes} (hbytes : (∃ k, bytes = envelope config.integrity (ackPacketBytes k)) ∨
      ∃ w : WriteEvent, .write w ∈ side.scheduler.queued ∧ w.key ≠ key ∧ bytes = w.wire.bytes) :
    dataKey bytes ≠ some key := by
  rcases hbytes with ⟨k, rfl⟩ | ⟨w, hw, hne, rfl⟩
  · rw [dataKey_ack]
    simp
  · intro hkey
    exact hne ((h.origin w hw).of_dataKey hkey).1

/-- A write under the key of a message with a nonzero id uses the id. -/
theorem QueueInv.idUses_pos {side : SendSide} (h : QueueInv config calls side) {m : SentMessage}
    (hid : m.messageId ≠ 0) {w : WriteEvent} (hw : .write w ∈ side.scheduler.queued) {i : Nat}
    (hkey : w.key = m.packetKey i) : 0 < idUses config m.messageId calls := by
  cases h.origin w hw with
  | liveness packetType _ hzero _ =>
    rw [hzero] at hkey
    exact absurd (congrArg PacketKey.messageId hkey).symm hid
  | fragment call m' j hc hm' _ hkey' _ =>
    have hsame : m'.messageId = m.messageId :=
      congrArg PacketKey.messageId (hkey'.symm.trans hkey)
    rw [← hsame]
    exact Msrt.idUses_pos hc hm'

/-- What a run keeps about one packet of a DATA message. -/
structure PacketLog (config : EngineConfig) (m : SentMessage) (i : Nat) (calls : List Call)
    (st : EngineState) : Prop where
  key : KeyInv config m i (transmissions config (m.packetKey i) calls) (pollTimes calls) st.sendSide
  paced : Paced config.retransmitTimeoutMs config.maxRetransmitAttempts.toNat (m.wire config i).bytes
    (transmissions config (m.packetKey i) calls)
  used : transmissions config (m.packetKey i) calls ≠ [] → 0 < idUses config m.messageId calls

theorem pollTimes_snoc (calls : List Call) (call : Call) :
    pollTimes (calls ++ [call]) = pollTimes calls ++ call.pollTime.toList := filterMap_snoc _ _ _

/-- The time of the last poll is the latest. -/
theorem pollTimes_le_last {call : Call} {nowMs txLen : Nat}
    (hmono : (pollTimes (calls ++ [call])).Pairwise (· ≤ ·)) (hop : call.op = .poll nowMs txLen) :
    nowMs ∈ pollTimes (calls ++ [call]) ∧ ∀ t ∈ pollTimes (calls ++ [call]), t ≤ nowMs := by
  have htime : call.pollTime = some nowMs := by simp [Call.pollTime, hop]
  rw [pollTimes_snoc, htime, Option.toList_some] at hmono ⊢
  refine ⟨by simp, ?_⟩
  intro t ht
  rcases List.mem_append.mp ht with ht | ht
  · exact (List.pairwise_append.mp hmono).2.2 t ht nowMs (List.mem_singleton.mpr rfl)
  · exact Nat.le_of_eq (List.mem_singleton.mp ht)

/-- **A call keeps the log of a packet.** -/
theorem PacketLog.step {m : SentMessage} {i : Nat} {call : Call} (hm : m.Valid)
    (hdata : m.packetType = .data) (hid : m.messageId ≠ 0) (hi : i < m.count config)
    (hinv : QueueInv config calls call.before.sendSide)
    (hok : ∀ nowMs txLen, call.op = .poll nowMs txLen →
      (call.before.poll config nowMs txLen).2.isOk = true)
    (hmono : (pollTimes (calls ++ [call])).Pairwise (· ≤ ·))
    (hsame : ∀ m', call.accepted config = some m' → m'.messageId = m.messageId → m' = m)
    (honce : idUses config m.messageId (calls ++ [call]) ≤ 1)
    (h : PacketLog config m i calls call.before) :
    PacketLog config m i (calls ++ [call]) (call.after config) := by
  have hinv := hinv.append [call]
  have hcall : call ∈ calls ++ [call] := by simp
  have huses := idUses_snoc config m.messageId calls call
  -- the id is used once, so no transmission comes before the send
  have hown : ∀ m', call.accepted config = some m' → m'.messageId = m.messageId →
      m' = m ∧ transmissions config (m.packetKey i) calls = [] := by
    intro m' haccepted heq
    obtain rfl := hsame m' haccepted heq
    refine ⟨rfl, by_contra ?_⟩
    intro hne
    have hpos := h.used hne
    rw [if_pos (usesId_of_accepted haccepted)] at huses
    omega
  have hkey : KeyInv config m i (transmissions config (m.packetKey i) calls)
      (pollTimes (calls ++ [call])) call.before.sendSide :=
    h.key.mono fun t ht => by rw [pollTimes_snoc]; exact List.mem_append_left _ ht
  have hused (hne : transmissions config (m.packetKey i) calls ≠ []) :
      0 < idUses config m.messageId (calls ++ [call]) := by
    have := h.used hne
    omega
  have hnow (nowMs txLen : Nat) (hop : call.op = .poll nowMs txLen) :=
    pollTimes_le_last hmono hop
  have hmoves {b : SendSide} (hb : SendMoves config call call.before.sendSide b) :
      KeyInv config m i (transmissions config (m.packetKey i) calls)
        (pollTimes (calls ++ [call])) b :=
    hb.preserves hkey fun _ _ hkeep hmove => hkeep.move hi hid hown hnow hmove
  cases call.sendMoves config with
  | quiet hquiet hquietly =>
    have hlog : transmissions config (m.packetKey i) (calls ++ [call]) =
        transmissions config (m.packetKey i) calls := by
      rw [transmissions_snoc, transmission_of_not_poll _ hquiet]
      simp
    exact ⟨hlog ▸ hmoves hquietly, hlog ▸ h.paced, hlog ▸ hused⟩
  | polled nowMs txLen ticked hop _ hticked hstep =>
    have htickedInv := hinv.moves hcall hticked
    have htickedKey := hmoves hticked
    obtain ⟨hmem, hlast⟩ := hnow nowMs txLen hop
    cases hstep.keyStep (m.packetKey i) with
    | taken w hwkey hq hrecovery hres =>
      obtain ⟨hnext, hpaced⟩ := htickedKey.taken htickedInv.nodup h.paced hmem hlast hwkey hq hrecovery
      have hw : .write w ∈ ticked.scheduler.queued := by
        rw [hq]
        exact Multiset.mem_cons_self _ _
      have hwire := (htickedKey.queued w hw hwkey).1
      have hlog : transmissions config (m.packetKey i) (calls ++ [call]) =
          transmissions config (m.packetKey i) calls ++ [⟨nowMs, w.attempts, w.wire.bytes⟩] := by
        rw [transmissions_snoc, transmission_of_transmit _ hop hres, hwire,
          if_pos (SentMessage.dataKey_wire hm hi hdata)]
        rfl
      exact ⟨hlog ▸ hnext, hlog ▸ hpaced, fun _ => htickedInv.idUses_pos hid hw hwkey⟩
    | dropped w _ _ _ hfails =>
      -- a write is dropped only by a poll that fails
      rw [hok nowMs txLen hop] at hfails
      cases hfails
    | other hqueued hpackets hbytes =>
      have hlog : transmissions config (m.packetKey i) (calls ++ [call]) =
          transmissions config (m.packetKey i) calls := by
        rw [transmissions_snoc, transmission_eq_none hop fun bytes attempts hres =>
          htickedInv.dataKey_ne (hbytes bytes attempts hres)]
        simp
      exact ⟨hlog ▸ htickedKey.other hqueued hpackets, hlog ▸ h.paced, hlog ▸ hused⟩

theorem PacketRun.packetLog (hrun : PacketRun config calls st) {m : SentMessage} {i : Nat}
    (hm : m.Valid) (hdata : m.packetType = .data) (hid : m.messageId ≠ 0) (hi : i < m.count config)
    (hok : ∀ call ∈ calls, ∀ nowMs txLen, call.op = .poll nowMs txLen →
      (call.before.poll config nowMs txLen).2.isOk = true)
    (hmono : (pollTimes calls).Pairwise (· ≤ ·))
    (hsame : ∀ call ∈ calls, ∀ m', call.accepted config = some m' →
      m'.messageId = m.messageId → m' = m)
    (honce : idUses config m.messageId calls ≤ 1) : PacketLog config m i calls st := by
  induction hrun with
  | new =>
    refine ⟨⟨?_, ?_, by simp [transmissions]⟩, .nil, by simp [transmissions]⟩
    · intro w hw
      rw [show (EngineState.new config.initialMessageId).sendSide.scheduler.queued = 0 from
        SchedulerState.queued_new] at hw
      cases hw
    · intro p hp
      rw [show (EngineState.new config.initialMessageId).sendSide.recovery.packets = [] from
        InFlightPackets.toList_new] at hp
      cases hp
  | ingress ingress _ ih =>
    have h := ih hok hmono hsame honce
    exact ⟨h.key, h.paced, h.used⟩
  | @call calls st op hrun ih =>
    have hprefix : (pollTimes calls).Pairwise (· ≤ ·) := by
      rw [pollTimes, List.filterMap_append] at hmono
      exact (List.pairwise_append.mp hmono).1
    have hfewer : idUses config m.messageId calls ≤ 1 := by
      rw [idUses_snoc] at honce
      omega
    have h := ih (fun c hc => hok c (List.mem_append_left _ hc)) hprefix
      (fun c hc => hsame c (List.mem_append_left _ hc)) hfewer
    have hcall : (⟨st, op⟩ : Call) ∈ calls ++ [⟨st, op⟩] := by simp
    exact PacketLog.step hm hdata hid hi hrun.queueInv (hok _ hcall) hmono (hsame _ hcall) honce h

theorem mem_unique_of_countP {α : Type*} {p : α → Bool} {l : List α} (h : l.countP p ≤ 1)
    {x y : α} (hx : x ∈ l) (hy : y ∈ l) (hpx : p x = true) (hpy : p y = true) : x = y := by
  rw [List.countP_eq_length_filter] at h
  have hx' := List.mem_filter.mpr ⟨hx, hpx⟩
  have hy' := List.mem_filter.mpr ⟨hy, hpy⟩
  match hl : l.filter p, h with
  | [], _ =>
    rw [hl] at hx'
    cases hx'
  | [z], _ =>
    rw [hl] at hx' hy'
    exact (List.mem_singleton.mp hx').trans (List.mem_singleton.mp hy').symm

/-- With an id used once, the messages accepted under it are one message. -/
theorem accepted_eq_of_idUses {m m' : SentMessage} {call call' : Call} (hc : call ∈ calls)
    (hm : call.accepted config = some m) (hc' : call' ∈ calls)
    (hm' : call'.accepted config = some m') (hid : m'.messageId = m.messageId)
    (honce : idUses config m.messageId calls ≤ 1) : m' = m := by
  have heq := mem_unique_of_countP honce hc hc' (usesId_of_accepted hm)
    (hid ▸ usesId_of_accepted hm')
  rw [← heq, hm] at hm'
  exact (Option.some.inj hm').symm

/-- **Retransmission is paced.**  In every run whose polls do not fail and whose poll times do not
decrease, a packet of a DATA message with a nonzero id that is used once is transmitted at most once
more than the configured attempts, with the same bytes each time, numbered from zero, and at least
the timeout apart. -/
theorem transmissions_paced
    (hrun : EngineRun config (fun st op => op.pollFails config st = false) calls st)
    (hmono : (pollTimes calls).Pairwise (· ≤ ·)) {send : Call} (hsend : send ∈ calls)
    {m : SentMessage} (hm : send.accepted config = some m) (hdata : m.packetType = .data)
    (hid : m.messageId ≠ 0) (honce : idUses config m.messageId calls ≤ 1) {i : Nat}
    (hi : i < m.count config) :
    Paced config.retransmitTimeoutMs config.maxRetransmitAttempts.toNat
      (envelope config.integrity (m.packet config i))
      (transmissions config (m.packetKey i) calls) := by
  rw [← m.wire_bytes]
  exact (hrun.packetRun.packetLog (accepted_valid hm).1 hdata hid hi
    (fun call hc nowMs txLen hop => hrun.poll_isOk_of_mem (fun _ _ h => h) hc hop) hmono
    (fun call hc m' hm' hsame => accepted_eq_of_idUses hsend hm hc hm' hsame honce) honce).paced

/-- A message is transmitted, times out and is transmitted again. -/
def retryScript : List EngineOp := [.send [7], .poll 0 128, .poll 49 128, .poll 50 128]

theorem retryScript_retries :
    let run := runOps .default retryScript (.new EngineConfig.default.initialMessageId)
    scriptSucceeds .default retryScript (.new EngineConfig.default.initialMessageId) = true ∧
      (pollTimes run.1).Pairwise (· ≤ ·) ∧ (run.1.any fun send =>
        match send.accepted .default with
        | some m => m.packetType == .data && m.messageId != 0 &&
            idUses .default m.messageId run.1 == 1 &&
            (transmissions .default (m.packetKey 0) run.1).length == 2
        | none => false) = true := by
  decide +kernel

/-- The packet of the script is transmitted twice, at the pace of the configuration. -/
theorem transmissions_paced_twice : ∃ (calls : List Call) (st : EngineState) (m : SentMessage),
    EngineRun .default (fun st op => op.pollFails .default st = false) calls st ∧
      (transmissions .default (m.packetKey 0) calls).length = 2 ∧
      Paced 50 5 (envelope .default (m.packet .default 0))
        (transmissions .default (m.packetKey 0) calls) := by
  obtain ⟨hsucceeds, hmono, hany⟩ := retryScript_retries
  have hrun := EngineRun.new.script hsucceeds
  rw [List.nil_append] at hrun
  have hpolls := hrun.mono fun st op (h : NoError .default st op) => h.1
  obtain ⟨send, hsend, hm⟩ := List.any_eq_true.mp hany
  split at hm
  · rename_i m haccepted
    simp only [Bool.and_eq_true, beq_iff_eq, bne_iff_ne] at hm
    obtain ⟨⟨⟨hdata, hid⟩, honce⟩, hlen⟩ := hm
    exact ⟨_, _, m, hpolls, hlen, transmissions_paced hpolls hmono hsend haccepted hdata hid
      (Nat.le_of_eq honce) (m.count_pos .default)⟩
  · cases hm

end Run

end Msrt
