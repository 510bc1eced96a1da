import Mathlib.Data.Multiset.Defs
import Msrt.Retransmission
import Msrt.Verdicts

/-! # Released packets

An acknowledgement and the retry limit take a packet out of the in-flight table and leave the
scheduler as it is, so a write of the packet that was queued before stays queued and is transmitted
later.  That is the only way: a packet that is released while none of its writes is queued is never
transmitted again (`released_silent`).
-/

namespace Msrt
open EngineState

/-! ## Queued copies of a packet -/

/-- The key of the DATA packet a queued event would transmit. -/
def EngineOutput.dataKey? : EngineOutput → Option PacketKey
  | .write w => dataKey w.wire.bytes
  | .sendFailed _ => none

/-- A write that carries the DATA packet with `key` is queued. -/
def SchedulerState.HoldsCopy (s : SchedulerState) (key : PacketKey) : Prop :=
  ∃ e ∈ s.queued, e.dataKey? = some key

instance (s : SchedulerState) (key : PacketKey) : Decidable (s.HoldsCopy key) :=
  Multiset.decidableExistsMultiset

/-- The packet with `key` is neither in flight nor queued. -/
structure Gone (key : PacketKey) (side : SendSide) : Prop where
  noCopy : ¬ side.scheduler.HoldsCopy key
  notInFlight : ∀ p ∈ side.recovery.packets, p.key ≠ key

namespace Call
variable (config : EngineConfig)

/-- The call takes the packet with `key` out of the in-flight table. -/
def Releases (key : PacketKey) (call : Call) : Prop :=
  (∃ p ∈ call.before.recovery.packets, p.key = key) ∧
    ∀ p ∈ (call.after config).recovery.packets, p.key ≠ key

instance (key : PacketKey) (call : Call) : Decidable (call.Releases config key) :=
  inferInstanceAs (Decidable ((∃ p ∈ call.before.recovery.packets, p.key = key) ∧
    ∀ p ∈ (call.after config).recovery.packets, p.key ≠ key))

/-- The packets the call acknowledges or gives up. -/
def releasedKeys (call : Call) : List PacketKey :=
  match call.op with
  | .packet _ => call.acknowledged.toList
  | .poll nowMs _ =>
    if call.before.recovery.lastTickMs = some nowMs then []
    else (call.before.recovery.packets.filter fun p =>
      (failingMessages config nowMs call.before).contains p.message).map InFlightPacket.key
  | _ => []

/-- No write of a packet that the call acknowledges or gives up is queued. -/
def ReleasesClean (call : Call) : Prop :=
  ∀ key ∈ call.releasedKeys config, ¬ call.before.scheduler.HoldsCopy key

instance (call : Call) : Decidable (call.ReleasesClean config) :=
  inferInstanceAs (Decidable (∀ key ∈ call.releasedKeys config,
    ¬ call.before.scheduler.HoldsCopy key))

end Call

section Gone
variable {config : EngineConfig} {calls : List Call} {call : Call} {key : PacketKey}

/-- The wire of a tracked packet carries the packet under its key. -/
theorem Tracks.dataKey_eq {p : InFlightPacket} (h : Tracks config calls p) :
    dataKey p.wire.bytes = some p.key := by
  obtain ⟨c, -, m, hm, hdata, i, hi, hkey, -, -, hwire⟩ := h
  rw [hwire, hkey]
  exact SentMessage.dataKey_wire (accepted_valid hm).1 hi hdata

theorem Gone.of_subset {a b : SendSide} (h : Gone key a)
    (hqueued : ∀ e ∈ b.scheduler.queued, e ∈ a.scheduler.queued ∨ e.dataKey? ≠ some key)
    (hpackets : ∀ p ∈ b.recovery.packets, p ∈ a.recovery.packets ∨ p.key ≠ key) : Gone key b := by
  refine ⟨?_, fun p hp => (hpackets p hp).elim (h.notInFlight p) id⟩
  rintro ⟨e, he, hkey⟩
  exact (hqueued e he).elim (fun he => h.noCopy ⟨e, he, hkey⟩) (fun hne => hne hkey)

/-- A packet that is gone stays gone, unless its id is used again. -/
theorem Gone.move {a b : SendSide} (hinv : QueueInv config calls a)
    (hother : ∀ m, call.accepted config = some m → m.messageId ≠ key.messageId)
    (h : Gone key a) (hmove : SendMove config call a b) : Gone key b := by
  cases hmove with
  | liveness packetType priority hkind hpushed =>
    refine h.of_subset ?_ (fun p hp => .inl hp)
    intro e he
    rcases hpushed.mem he with rfl | he
    · right
      rw [EngineOutput.dataKey?, livenessWrite, (keys_liveness config.integrity hkind).1]
      simp
    · exact .inl he
  | fragment m i haccepted hi hpushed htracked huntracked =>
    have hvalid := (accepted_valid haccepted).1
    -- a key names its message, so a fragment of another id has another key
    have hne : m.packetKey i ≠ key := fun heq =>
      hother m haccepted (congrArg PacketKey.messageId heq)
    refine h.of_subset ?_ ?_
    · intro e he
      rcases hpushed.mem he with rfl | he
      · right
        show dataKey (m.wire config i).bytes ≠ some key
        by_cases hdata : m.packetType = .data
        · rw [SentMessage.dataKey_wire hvalid hi hdata]
          exact fun heq => hne (Option.some.inj heq)
        · rw [SentMessage.dataKey_wire_log hvalid hi hdata]
          simp
      · exact .inl he
    · intro p hp
      by_cases hdata : m.packetType = .data
      · rcases (htracked hdata p).mp hp with ⟨nowMs, rfl, -⟩ | ⟨hp, -⟩
        · exact .inr hne
        · exact .inl hp
      · exact .inl (huntracked hdata ▸ hp)
  | acked bytes k _ _ =>
    exact h.of_subset (fun e he => .inl he)
      (fun p hp => .inl (InFlightPackets.mem_applyAck.mp hp).1)
  | marked nowMs txLen _ _ hpackets =>
    exact h.of_subset (fun e he => .inl he) (fun p hp => .inl (hpackets ▸ hp))
  | failed nowMs txLen p _ _ _ _ htried hpackets =>
    refine h.of_subset ?_ (fun q hq => .inl ((hpackets q).mp hq).1)
    intro e he
    rcases htried with hpushed | ⟨rfl, -⟩
    · rcases hpushed.mem he with rfl | he
      · exact .inr (by simp [EngineOutput.dataKey?])
      · exact .inl he
    · exact .inl he
  | requeued nowMs txLen p _ hp _ htried =>
    refine h.of_subset ?_ (fun q hq => .inl hq)
    intro e he
    rcases htried with hpushed | ⟨rfl, -⟩
    · rcases hpushed.mem he with rfl | he
      · right
        show dataKey p.wire.bytes ≠ some key
        -- only what is in flight is queued again
        rw [(hinv.tracks p hp).dataKey_eq]
        exact fun heq => h.notInFlight p hp (Option.some.inj heq)
      · exact .inl he
    · exact .inl he

theorem Gone.moves {a b : SendSide} (hcall : call ∈ calls) (hinv : QueueInv config calls a)
    (hother : ∀ m, call.accepted config = some m → m.messageId ≠ key.messageId)
    (h : Gone key a) (hmoves : SendMoves config call a b) : Gone key b :=
  (hmoves.preserves (I := fun side => QueueInv config calls side ∧ Gone key side) ⟨hinv, h⟩
    fun _ _ hboth hmove =>
      ⟨hboth.1.move hcall hmove, hboth.2.move hboth.1 hother hmove⟩).2

/-- What a poll takes out of the queue of a packet that is gone is not the packet. -/
theorem Gone.pollStep {nowMs txLen : Nat} {ticked : EngineState} (hop : call.op = .poll nowMs txLen)
    (h : Gone key ticked.sendSide)
    (hstep : PollStep config nowMs txLen ticked (call.after config)
      (call.before.poll config nowMs txLen).2) :
    Gone key (call.after config).sendSide ∧ call.transmission config key = none := by
  have hsub {e : EngineOutput}
      (hq : ticked.scheduler.queued = e ::ₘ (call.after config).scheduler.queued) :
      ∀ e' ∈ (call.after config).sendSide.scheduler.queued,
        e' ∈ ticked.sendSide.scheduler.queued ∨ e'.dataKey? ≠ some key := by
    intro e' he'
    left
    show e' ∈ ticked.scheduler.queued
    rw [hq]
    exact Multiset.mem_cons_of_mem he'
  have hsilent {w : WriteEvent} (hw : .write w ∈ ticked.scheduler.queued) :
      dataKey w.wire.bytes ≠ some key := fun hkey => h.noCopy ⟨.write w, hw, hkey⟩
  cases hstep with
  | ack k keys _ _ hscheduler hrecovery _ hres =>
    refine ⟨h.of_subset (fun e he => .inl ?_) (fun p hp => .inl ?_),
      transmission_eq_none hop ?_⟩
    · rwa [sendSide, hscheduler] at he
    · rwa [sendSide, hrecovery] at hp
    · intro bytes attempts hok
      rw [eq_envelope_of_transmit_ack (hres.symm.trans hok), dataKey_ack]
      simp
  | transmit w hq _ hrecovery _ _ hres =>
    have hw : .write w ∈ ticked.scheduler.queued := by
      rw [hq]
      exact Multiset.mem_cons_self _ _
    refine ⟨h.of_subset (hsub hq) (fun p hp => .inr ?_),
      transmission_eq_none hop ?_⟩
    · rw [sendSide, hrecovery] at hp
      obtain ⟨q, hq, hkey, -⟩ := same_of_mem_noteWrite hp
      rw [hkey]
      exact h.notInFlight q hq
    · intro bytes attempts hok
      rw [hok] at hres
      obtain ⟨rfl, -⟩ := EnginePoll.transmit.inj (Except.ok.inj hres)
      exact hsilent hw
  | tooSmall w hq _ hrecovery _ _ hres =>
    refine ⟨h.of_subset (hsub hq) (fun p hp => .inl ?_), transmission_eq_none hop (by simp [hres])⟩
    rwa [sendSide, hrecovery] at hp
  | sendFailed event hq hrecovery _ _ hres =>
    refine ⟨h.of_subset (hsub hq) (fun p hp => .inl ?_), transmission_eq_none hop (by simp [hres])⟩
    rwa [sendSide, hrecovery] at hp
  | message message messages _ _ hq hrecovery _ hres =>
    refine ⟨h.of_subset (fun e he => .inl ?_) (fun p hp => .inl ?_),
      transmission_eq_none hop (by simp [hres])⟩
    · show e ∈ ticked.scheduler.queued
      rw [← hq]
      exact he
    · rwa [sendSide, hrecovery] at hp
  | idle hq hrecovery _ _ hres =>
    refine ⟨h.of_subset (fun e he => .inl ?_) (fun p hp => .inl ?_),
      transmission_eq_none hop (by simp [hres])⟩
    · show e ∈ ticked.scheduler.queued
      rw [← hq]
      exact he
    · rwa [sendSide, hrecovery] at hp

/-- A call keeps a packet gone, and does not transmit it. -/
theorem Gone.step (hinv : QueueInv config calls call.before.sendSide)
    (hother : ∀ m, call.accepted config = some m → m.messageId ≠ key.messageId)
    (h : Gone key call.before.sendSide) :
    Gone key (call.after config).sendSide ∧ call.transmission config key = none := by
  have hinv := hinv.append [call]
  have hcall : call ∈ calls ++ [call] := by simp
  cases call.sendMoves config with
  | quiet hquiet hmoves =>
    exact ⟨h.moves hcall hinv hother hmoves, transmission_of_not_poll key hquiet⟩
  | polled nowMs txLen ticked hop _ hmoves hstep =>
    exact (h.moves hcall hinv hother hmoves).pollStep hop hstep

/-! ### The call that releases a packet -/

/-- What is queued after a tick was queued before, or is a packet that is still in flight. -/
theorem mem_queued_tickRetransmit {st : EngineState} {nowMs : Nat} {e : EngineOutput}
    (he : e ∈ (st.tickRetransmit config nowMs).scheduler.queued) :
    e ∈ st.scheduler.queued ∨ (∃ event, e = .sendFailed event) ∨
      ∃ p ∈ (st.tickRetransmit config nowMs).recovery.packets, e = .write (retransmitWrite p) := by
  by_cases htick : st.recovery.lastTickMs = some nowMs
  · rw [tickRetransmit_of_eq htick] at he
    exact .inl he
  · rw [tickRetransmit_of_ne htick] at he ⊢
    have hscan := scanned_tickScan config nowMs st
    rcases mem_queued_foldl_queueRetransmit he with he | ⟨p, hp, hkept, rfl⟩
    · rcases mem_queued_foldl_failMessage he with he | ⟨p, -, rfl⟩
      · exact .inl he
      · exact .inr (.inl ⟨_, rfl⟩)
    · refine .inr (.inr ⟨p, ?_, rfl⟩)
      rw [recovery_foldl_queueRetransmit, packets_foldl_failMessage]
      refine ⟨hscan.retransmits p hp, fun hfailed => hkept ?_⟩
      show p.message ∈ (st.tickScan config nowMs).failedMessages
      rw [hscan.failedMessages]
      exact hfailed

/-- A packet the tick drops belongs to a message it gives up. -/
theorem mem_failingMessages {st ticked : EngineState} {nowMs : Nat}
    (h : Ticked config nowMs st ticked) {p : InFlightPacket} (hp : p ∈ st.recovery.packets)
    (hgone : p ∉ ticked.recovery.packets) :
    st.recovery.lastTickMs ≠ some nowMs ∧ p.message ∈ failingMessages config nowMs st := by
  cases h with
  | skipped _ hrecovery _ =>
    rw [hrecovery] at hgone
    exact absurd hp hgone
  | scanned scan hrun _ hscan hpackets =>
    have hmessage : p.message ∈ scan.failedMessages :=
      by_contra fun hkept => hgone ((hpackets p).mpr ⟨hp, hkept⟩)
    rw [hscan.failedMessages] at hmessage
    obtain ⟨q, hq, heq⟩ := List.mem_map.mp hmessage
    obtain ⟨hmem, hlimit⟩ := hscan.failures q hq
    refine ⟨hrun, List.mem_dedup.mpr (List.mem_map.mpr ⟨q, ?_, heq⟩)⟩
    exact List.mem_filter.mpr ⟨hmem, hlimit⟩

/-- A packet that is released while none of its writes is queued is gone. -/
theorem Call.Releases.gone (hinv : QueueInv config calls call.before.sendSide)
    (hreleases : call.Releases config key) (hclean : call.ReleasesClean config) :
    Gone key (call.after config).sendSide ∧ call.transmission config key = none := by
  obtain ⟨⟨p, hp, rfl⟩, hleft⟩ := hreleases
  cases call.sendStep config with
  | untouched _ _ hrecovery =>
    rw [hrecovery] at hleft
    exact absurd rfl (hleft p hp)
  | liveness _ _ _ _ _ hrecovery =>
    rw [hrecovery] at hleft
    exact absurd rfl (hleft p hp)
  | sent m _ _ _ _ _ hroom hafter =>
    -- a send adds entries and takes none out
    exfalso
    rw [hafter] at hleft
    by_cases hmode : m.mode = .reliable
    · obtain ⟨q, hq, hkey⟩ := (inFlight_queueMessage hmode hroom p.key).mpr (.inl ⟨p, hp, rfl⟩)
      exact hleft q hq hkey
    · refine hleft p ?_ rfl
      rw [recovery_queueMessage hroom hmode, recovery_withNextId]
      exact hp
  | acked bytes key hop hdec _ _ hscheduler hrecovery hacknowledged =>
    have hkey : p.key = key := by
      by_contra hne
      rw [hrecovery] at hleft
      exact hleft p (InFlightPackets.mem_applyAck.mpr ⟨hp, hne⟩) rfl
    have hany : call.before.recovery.packets.any (fun p => p.key == key) = true :=
      List.any_eq_true.mpr ⟨p, hp, by simp [hkey]⟩
    have hreleased : key ∈ call.releasedKeys config := by
      simp [Call.releasedKeys, hop, hacknowledged, hany]
    refine ⟨⟨?_, hleft⟩, transmission_of_not_poll _ (by simp [hop])⟩
    show ¬ (call.after config).scheduler.HoldsCopy p.key
    rw [hscheduler, hkey]
    exact hclean key hreleased
  | polled nowMs txLen _ hop =>
    have hstep : PollStep config nowMs txLen (call.before.tickRetransmit config nowMs)
        (call.after config) (call.before.poll config nowMs txLen).2 := by
      rw [show call.after config = (call.before.poll config nowMs txLen).1 by simp [Call.after, hop]]
      exact pollOutput_spec config _ nowMs txLen
    -- the action of the poll keeps the entries, so the tick took this one out
    have hkeys := (pollStep_ledger hstep).1 p.key
    have hgone : ∀ q ∈ (call.before.tickRetransmit config nowMs).recovery.packets,
        q.key ≠ p.key := by
      intro q hq hkey
      obtain ⟨q', hq', hkey'⟩ := hkeys.mpr ⟨q, hq, hkey⟩
      exact hleft q' hq' hkey'
    obtain ⟨hrun, hfailing⟩ := mem_failingMessages (tickRetransmit_spec config call.before nowMs) hp
      fun hmem => hgone p hmem rfl
    have hreleased : p.key ∈ call.releasedKeys config := by
      simp only [Call.releasedKeys, hop, if_neg hrun]
      refine List.mem_map_of_mem (List.mem_filter.mpr ⟨hp, ?_⟩)
      simpa using hfailing
    refine Gone.pollStep hop ⟨?_, hgone⟩ hstep
    rintro ⟨e, he, hkey⟩
    rcases mem_queued_tickRetransmit he with he | ⟨event, rfl⟩ | ⟨q, hq, rfl⟩
    · exact hclean p.key hreleased ⟨e, he, hkey⟩
    · cases hkey
    · -- a packet that is still in flight has another key
      have hmem : q ∈ call.before.recovery.packets := by
        cases tickRetransmit_spec config call.before nowMs with
        | skipped _ hrecovery _ => rwa [hrecovery] at hq
        | scanned scan _ _ _ hpackets => exact ((hpackets q).mp hq).1
      have hqkey : dataKey q.wire.bytes = some p.key := hkey
      rw [(hinv.tracks q hmem).dataKey_eq] at hqkey
      exact hgone q hq (Option.some.inj hqkey)

/-! ### Whole runs -/

theorem PacketRun.gone_of_releases {before after : List Call} {st : EngineState}
    (hrun : PacketRun config calls st) (hsplit : calls = before ++ call :: after)
    (hreleases : call.Releases config key) (hclean : ∀ c ∈ calls, c.ReleasesClean config)
    (hother : ∀ c ∈ after, ∀ m, c.accepted config = some m → m.messageId ≠ key.messageId) :
    Gone key st.sendSide ∧ ∀ c ∈ call :: after, c.transmission config key = none := by
  have hmem (c : Call) (hc : c ∈ call :: after) : c ∈ calls :=
    hsplit ▸ List.mem_append_right _ hc
  refine hrun.since (motive := fun done st => Gone key st.sendSide ∧
    ∀ c ∈ call :: done, c.transmission config key = none) hsplit ?_ ?_ (fun _ _ _ h => h)
  · intro hbefore
    have h := hreleases.gone hbefore.queueInv (hclean call (hmem call List.mem_cons_self))
    exact ⟨h.1, List.forall_mem_singleton.mpr h.2⟩
  · rintro done c hc hdone ⟨hgone, hsilent⟩
    have h := Gone.step hdone.queueInv (hother c hc) hgone
    refine ⟨h.1, ?_⟩
    intro c' hc'
    rw [← List.cons_append] at hc'
    rcases List.mem_append.mp hc' with hc' | hc'
    · exact hsilent c' hc'
    · rw [List.mem_singleton.mp hc']
      exact h.2

/-- With an id used once, no call behind the release of its packet uses it again. -/
theorem accepted_ne_of_idUses {before after : List Call} {m : SentMessage} {send : Call}
    (hsend : send ∈ before) (hm : send.accepted config = some m)
    (honce : idUses config m.messageId (before ++ call :: after) ≤ 1) :
    ∀ c ∈ after, ∀ m', c.accepted config = some m' → m'.messageId ≠ m.messageId := by
  intro c hc m' hm' heq
  have hfirst := idUses_pos hsend hm
  have hsecond := idUses_pos (List.mem_cons_of_mem call hc) hm'
  rw [heq] at hsecond
  rw [idUses, List.countP_append] at honce
  unfold idUses at hfirst hsecond
  omega

/-- **A released packet is not sent again**, in every run that releases packets only while none of
their writes is queued.  A packet that is in flight belongs to a DATA message of the run. -/
theorem released_silent {st : EngineState} {before after : List Call}
    (hrun : EngineRun config (fun st op => op.pollFails config st = false) (before ++ call :: after)
      st)
    (honce : ∀ id, idUses config id (before ++ call :: after) ≤ 1)
    (hclean : ∀ c ∈ before ++ call :: after, c.ReleasesClean config)
    (hreleases : call.Releases config key) :
    ∀ c ∈ call :: after, c.transmission config key = none := by
  have hpackets := hrun.packetRun
  obtain ⟨p, hp, hpkey⟩ := hreleases.1
  obtain ⟨send, hsend, m, hm, -, i, -, hkey, -⟩ := (hpackets.of_split rfl).queueInv.tracks p hp
  have hid : key.messageId = m.messageId := by
    rw [← hpkey, hkey]
    rfl
  refine (hpackets.gone_of_releases rfl hreleases hclean ?_).2
  rw [hid]
  exact accepted_ne_of_idUses hsend hm (honce m.messageId)

/-! ### Scripts -/

/-- The keys of the first and the second message of an engine, when each is one packet. -/
def firstKey : PacketKey := ⟨NumberState.nextId 0, 0⟩
/-- The key of the first packet of the second message, for a session that starts from id zero. -/
def secondKey : PacketKey := ⟨NumberState.nextId (NumberState.nextId 0), 0⟩

/-- The envelope of an acknowledgement. -/
def ackEnvelope (key : PacketKey) : Bytes := envelope .default (ackPacketBytes key)

/-- A message is transmitted and acknowledged. -/
def ackedScript : List EngineOp :=
  [.send [7], .poll 0 128, .receive (ackEnvelope firstKey), .poll 50 128]

theorem ackedScript_clean :
    let run := runOps .default ackedScript (.new EngineConfig.default.initialMessageId)
    scriptSucceeds .default ackedScript (.new EngineConfig.default.initialMessageId) = true ∧
      sendCount run.1 = 1 ∧ (∀ call ∈ run.1, call.ReleasesClean .default) ∧
      (run.1[2]?.any fun call => call.Releases .default firstKey) = true := by
  decide +kernel

/-- After its acknowledgement the packet of the script is not transmitted. -/
theorem released_silent_acked : ∃ (before after : List Call) (call : Call) (st : EngineState),
    EngineRun .default (fun st op => op.pollFails .default st = false) (before ++ call :: after) st ∧
      call.Releases .default firstKey ∧
      ∀ c ∈ call :: after, c.transmission .default firstKey = none := by
  obtain ⟨hsucceeds, hcount, hclean, hany⟩ := ackedScript_clean
  have hrun := (EngineRun.new.script hsucceeds).mono fun st op (h : NoError .default st op) => h.1
  obtain ⟨call, hget, hreleases⟩ := (Option.any_eq_true _ _).mp hany
  have honce := hrun.packetRun.idUses_le_one (by rw [List.nil_append, hcount]; decide)
  have hreleases := of_decide_eq_true hreleases
  rw [List.nil_append, split_at hget] at hrun honce
  rw [split_at hget] at hclean
  exact ⟨_, _, call, _, hrun, hreleases, released_silent hrun honce hclean hreleases⟩

/-- Two messages are transmitted and time out together; the second is acknowledged while its
retransmission waits behind that of the first. -/
def lateScript : List EngineOp :=
  [.send [7], .send [8], .poll 0 128, .poll 0 128, .poll 50 128, .receive (ackEnvelope secondKey),
    .poll 50 128]

theorem lateScript_transmits :
    let run := runOps .default lateScript (.new EngineConfig.default.initialMessageId)
    scriptSucceeds .default lateScript (.new EngineConfig.default.initialMessageId) = true ∧
      sendCount run.1 = 2 ∧ (run.1[5]?.any fun call => call.Releases .default secondKey) = true ∧
      ∃ c ∈ run.1.drop 6, c.transmission .default secondKey ≠ none := by
  decide +kernel

/-- A packet that was acknowledged can be transmitted again. -/
theorem not_released_silent : ¬ ∀ (config : EngineConfig) (before after : List Call) (call : Call)
    (st : EngineState) (key : PacketKey),
    EngineRun config (fun st op => op.pollFails config st = false) (before ++ call :: after) st →
    (∀ id, idUses config id (before ++ call :: after) ≤ 1) → call.Releases config key →
    ∀ c ∈ after, c.transmission config key = none := by
  intro h
  obtain ⟨hsucceeds, hcount, hany, c, hc, htransmits⟩ := lateScript_transmits
  have hrun := (EngineRun.new.script hsucceeds).mono fun st op (h : NoError .default st op) => h.1
  obtain ⟨call, hget, hreleases⟩ := (Option.any_eq_true _ _).mp hany
  have honce := hrun.packetRun.idUses_le_one (by rw [List.nil_append, hcount]; decide)
  rw [List.nil_append, split_at hget] at hrun honce
  exact htransmits (h _ _ _ call _ secondKey hrun honce (of_decide_eq_true hreleases) c hc)

end Gone

end Msrt
