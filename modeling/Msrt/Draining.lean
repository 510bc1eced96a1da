import Msrt.RetransmitTick
import Msrt.Sessions

/-! # Draining a peer at one instant

Every poll begins with a tick and may queue a PING, and either could refill what the polls take out.  At
one time neither does so twice: the tick runs once for each time, and a poll moves the PING timer or the
time of the last delivery to the present.  So behind the first poll the slot is `Settled`, every further
poll takes one thing out (`pendingWork_poll_lt`), and a poll that finds nothing leaves nothing to find.
-/

namespace Msrt

/-! ## One engine -/

/-- What waits in the engine: acknowledgements, events and complete messages. -/
def EngineState.waiting (st : EngineState) : Nat := st.ack.len + st.scheduler.len + st.message.len

theorem EventQueue.len_of_pop_none {q : EventQueue} (h : q.pop.1 = none) : q.len = 0 := by
  rw [← RingQueue.toList_eq_nil_iff]
  exact List.head?_eq_none_iff.mp ((RingQueue.fst_pop q).symm.trans h)

/-- Without urgent events there are events of new data alone. -/
theorem SchedulerState.len_of_popUrgent_none {s : SchedulerState} (h : s.popUrgent.1 = none) :
    s.len = s.popUrgent.2.newData.len := by
  unfold popUrgent at h ⊢
  split at h
  · cases h
  · rename_i hcontrol
    split at h
    · cases h
    · rename_i hretransmit
      have hc := EventQueue.len_of_pop_none hcontrol
      have hr : s.retransmit.len = 0 := EventQueue.len_of_pop_none hretransmit
      have hl : s.localQueue.len = 0 := EventQueue.len_of_pop_none h
      rw [len, hc, hr, hl]
      show 0 + 0 + s.newData.len + 0 = s.newData.len
      omega

namespace EngineState
variable {config : EngineConfig} {st : EngineState} {nowMs txLen : Nat}

/-- A poll that is idle found nothing. -/
theorem waiting_of_idle (h : (st.pollOutput config nowMs txLen).2 = .ok .idle) : st.waiting = 0 := by
  -- an event that is taken out is reported
  have hevent : ∀ (st : EngineState) (event : EngineOutput),
      (st.pollEvent event nowMs txLen).2 ≠ .ok .idle := by
    intro st event hidle
    cases event with
    | sendFailed event => cases hidle
    | write write =>
      unfold pollEvent pollWrite at hidle
      dsimp only at hidle
      split at hidle <;> cases hidle
  by_cases hack : AckState.isPending st.ack = true
  · rw [pollOutput, if_pos hack] at h
    have hpending : RingQueue.toList st.ack ≠ [] := fun hnil => by
      rw [AckState.isPending, (RingQueue.toList_eq_nil_iff st.ack).mp hnil] at hack
      cases hack
    obtain ⟨key, keys, hkeys⟩ := List.exists_cons_of_ne_nil hpending
    unfold pollPendingAck at h
    dsimp only at h
    rw [(ack_pop_cons hkeys).1] at h
    dsimp only at h
    split at h <;> cases h
  · have hacks : st.ack.len = 0 := by simpa [AckState.isPending] using hack
    unfold pollOutput at h
    rw [if_neg hack] at h
    dsimp only at h
    split at h
    · exact absurd h (hevent _ _)
    · rename_i hurgent
      have hlen := SchedulerState.len_of_popUrgent_none hurgent
      split at h
      · cases h
      · rename_i hdelivered
        have hmessages : st.message.len = 0 := by
          rw [← RingQueue.toList_eq_nil_iff]
          exact List.head?_eq_none_iff.mp ((RingQueue.fst_pop st.message).symm.trans hdelivered)
        unfold pollNewData at h
        dsimp only at h
        split at h
        · rename_i hnew
          rw [waiting, hacks, hlen, hmessages, EventQueue.len_of_pop_none hnew]
        · exact absurd h (hevent _ _)

/-- A step of a poll takes one thing out, unless it is idle. -/
theorem waiting_pollStep {st' : EngineState} {result : Except Error EnginePoll}
    (h : PollStep config nowMs txLen st st' result) :
    (result = .ok .idle ∧ st'.waiting = st.waiting) ∨
      (result ≠ .ok .idle ∧ st'.waiting + 1 = st.waiting) := by
  have hlen : ∀ {n} {α : Type} {q q' : RingQueue α n}, RingQueue.toList q' = RingQueue.toList q →
      q'.len = q.len := fun hsame => by
    rw [← RingQueue.length_toList, ← RingQueue.length_toList, hsame]
  have hcons : ∀ {n} {α : Type} {q q' : RingQueue α n} {x}, RingQueue.toList q = x :: RingQueue.toList q' →
      q'.len + 1 = q.len := fun hsame => by
    rw [← RingQueue.length_toList, ← RingQueue.length_toList, hsame, List.length_cons]
  have hqueued : ∀ {s s' : SchedulerState} {e}, s.queued = e ::ₘ s'.queued → s'.len + 1 = s.len :=
    fun hsame => by
      rw [← SchedulerState.card_queued, ← SchedulerState.card_queued, hsame, Multiset.card_cons]
  unfold waiting
  cases h with
  | ack key keys hold hnew hscheduler _ hmessage hresult =>
    have hone := hcons (hnew ▸ hold)
    refine .inr ⟨?_, by rw [hscheduler, hmessage]; omega⟩
    rw [hresult]
    cases encodeAckPacket key txLen config.integrity <;> exact nofun
  | transmit write hevents _ _ hack hmessage hresult =>
    have hone := hqueued hevents
    refine .inr ⟨by rw [hresult]; exact nofun, ?_⟩
    rw [hack, hlen hmessage]
    omega
  | tooSmall write hevents _ _ hack hmessage hresult =>
    have hone := hqueued hevents
    refine .inr ⟨by rw [hresult]; exact nofun, ?_⟩
    rw [hack, hlen hmessage]
    omega
  | sendFailed event hevents _ hack hmessage hresult =>
    have hone := hqueued hevents
    refine .inr ⟨by rw [hresult]; exact nofun, ?_⟩
    rw [hack, hlen hmessage]
    omega
  | message message messages hold hnew hevents _ hack hresult =>
    have hone := hcons (hnew ▸ hold)
    have hsame := congrArg Multiset.card hevents
    rw [SchedulerState.card_queued, SchedulerState.card_queued] at hsame
    refine .inr ⟨by rw [hresult]; exact nofun, ?_⟩
    rw [hack, hsame]
    omega
  | idle hevents _ hack hmessage hresult =>
    have hsame := congrArg Multiset.card hevents
    rw [SchedulerState.card_queued, SchedulerState.card_queued] at hsame
    exact .inl ⟨hresult, by rw [hack, hsame, hlen hmessage]⟩

theorem lastTickMs_tickRetransmit (config : EngineConfig) (st : EngineState) (nowMs : Nat) :
    (st.tickRetransmit config nowMs).recovery.lastTickMs = some nowMs := by
  by_cases htick : st.recovery.lastTickMs = some nowMs
  · rw [tickRetransmit_of_eq htick]
    exact htick
  · rw [tickRetransmit_of_ne htick, recovery_foldl_queueRetransmit, lastTick_foldl_failMessage]

theorem lastTickMs_noteWrite (r : RecoveryState) (write : WriteEvent) (nowMs : Nat) :
    (r.noteWrite write nowMs).lastTickMs = r.lastTickMs := by
  unfold RecoveryState.noteWrite
  split <;> rfl

/-- Every poll leaves the tick of its time behind. -/
theorem lastTickMs_poll (config : EngineConfig) (st : EngineState) (nowMs txLen : Nat) :
    (st.poll config nowMs txLen).1.recovery.lastTickMs = some nowMs := by
  have hticked := lastTickMs_tickRetransmit config st nowMs
  have hsame : (st.poll config nowMs txLen).1.recovery.lastTickMs =
      (st.tickRetransmit config nowMs).recovery.lastTickMs := by
    have hstep := pollOutput_spec config (st.tickRetransmit config nowMs) nowMs txLen
    unfold poll
    cases hstep with
    | ack _ _ _ _ _ hrecovery => rw [hrecovery]
    | transmit write _ _ hrecovery => rw [hrecovery, lastTickMs_noteWrite]
    | tooSmall _ _ _ hrecovery => rw [hrecovery]
    | sendFailed _ _ hrecovery => rw [hrecovery]
    | message _ _ _ _ _ hrecovery => rw [hrecovery]
    | idle _ hrecovery => rw [hrecovery]
  exact hsame.trans hticked

/-- A further poll at the time of the last tick: it is idle and there is nothing, or it takes one thing
out. -/
theorem waiting_poll (hticked : st.recovery.lastTickMs = some nowMs) (txLen : Nat) :
    ((st.poll config nowMs txLen).2 = .ok .idle ∧ st.waiting = 0 ∧
      (st.poll config nowMs txLen).1.waiting = 0) ∨
    ((st.poll config nowMs txLen).2 ≠ .ok .idle ∧
      (st.poll config nowMs txLen).1.waiting + 1 = st.waiting) := by
  have hstep := pollOutput_spec config (st.advanceClock config nowMs) nowMs txLen
  have hwaiting : (st.advanceClock config nowMs).waiting = st.waiting := rfl
  rw [poll, tickRetransmit_of_eq hticked]
  rcases waiting_pollStep hstep with ⟨hidle, hsame⟩ | ⟨hbusy, hone⟩
  · have hzero := waiting_of_idle hidle
    rw [hwaiting] at hsame hzero
    exact .inl ⟨hidle, hzero, hsame.trans hzero⟩
  · exact .inr ⟨hbusy, hone.trans hwaiting⟩

/-- After an idle poll there is nothing. -/
theorem waiting_poll_of_idle (h : (st.poll config nowMs txLen).2 = .ok .idle) :
    (st.poll config nowMs txLen).1.waiting = 0 := by
  have hstep := pollOutput_spec config (st.tickRetransmit config nowMs) nowMs txLen
  have hidle : ((st.tickRetransmit config nowMs).pollOutput config nowMs txLen).2 = .ok .idle := h
  rcases waiting_pollStep hstep with ⟨-, hsame⟩ | ⟨hbusy, -⟩
  · exact hsame.trans (waiting_of_idle hidle)
  · exact absurd hidle hbusy

end EngineState

/-! ## One slot -/

namespace PeerSlot
variable {slot : PeerSlot} {nowMs txLen : Nat}

/-- What waits for a poll of the slot. -/
def pendingWork (slot : PeerSlot) : Nat := slot.engine.elim 0 fun engine => engine.state.waiting

/-- The tick of the time has run, and no PING is due. -/
def Settled (slot : PeerSlot) (nowMs : Nat) : Prop :=
  ∀ engine, slot.engine = some engine →
    engine.state.recovery.lastTickMs = some nowMs ∧ slot.pingDue nowMs = false

theorem settled_of_none (h : slot.engine = none) : slot.Settled nowMs := by
  intro engine hengine
  rw [h] at hengine
  cases hengine

theorem pingDue_of_pending (h : slot.pendingPing = true) : slot.pingDue nowMs = false := by
  simp [pingDue, h]

theorem pingDue_of_seen (h : slot.lastSeenMs = nowMs) : slot.pingDue nowMs = false := by
  simp [pingDue, h, defaultPingIntervalMs]

theorem settled_pollEngine (hdue : slot.pingDue nowMs = false) :
    (slot.pollEngine nowMs txLen).1.Settled nowMs := by
  cases hengine : slot.engine with
  | none =>
    rw [pollEngine, hengine]
    exact settled_of_none hengine
  | some engine =>
    have hticked := EngineState.lastTickMs_poll engine.config engine.state nowMs txLen
    have hpolled : ∀ {next : PeerSlot} {polled : Engine}, (engine.poll nowMs txLen).1 = polled →
        next.engine = some polled → next.pingDue nowMs = false → next.Settled nowMs := by
      intro next polled hpolled hnext hnotDue other hother
      rw [hnext] at hother
      obtain rfl := Option.some.inj hother
      subst hpolled
      exact ⟨hticked, hnotDue⟩
    rw [pollEngine_of_some hengine]
    rcases hpoll : engine.poll nowMs txLen with ⟨polled, e | ⟨bytes, attempts⟩ | message | event | _⟩
    · exact settled_of_none rfl
    · exact hpolled (congrArg Prod.fst hpoll) rfl hdue
    · exact hpolled (congrArg Prod.fst hpoll) rfl (pingDue_of_seen rfl)
    · exact settled_of_none rfl
    · exact hpolled (congrArg Prod.fst hpoll) rfl hdue

/-- **Behind any poll the slot is settled at its time.** -/
theorem settled_poll (slot : PeerSlot) (nowMs txLen : Nat) :
    (slot.poll nowMs txLen).1.Settled nowMs := by
  cases hengine : slot.engine with
  | none =>
    rw [poll, queuePingIfIdle_of_none hengine]
    dsimp only
    rw [pollEngine, hengine]
    exact settled_of_none hengine
  | some engine =>
    cases pollPath nowMs txLen hengine with
    | refused _ _ _ hdropped => exact settled_of_none hdropped
    | polled ops pinged engine' hok _ _ _ _ hpoll hqueued =>
      rw [hpoll]
      apply settled_pollEngine
      cases hdue : slot.pingDue nowMs with
      | false =>
        rw [queuePingIfIdle_of_not_due hdue] at hqueued
        obtain rfl := congrArg Prod.fst hqueued
        exact hdue
      | true =>
        -- the PING that was due is now the one that waits for its answer
        rw [queuePingIfIdle_of_due hengine hdue] at hqueued
        have hsent := hok hdue
        rcases hping : engine.sendPing with ⟨engine', e | ⟨⟩⟩
        · rw [hping] at hsent
          cases hsent
        · rw [hping] at hqueued
          obtain rfl := congrArg Prod.fst hqueued
          exact pingDue_of_pending rfl

theorem poll_of_none (hengine : slot.engine = none) : slot.poll nowMs txLen = (slot, .ok .idle) := by
  rw [poll, queuePingIfIdle_of_none hengine]
  dsimp only
  rw [pollEngine, hengine]

theorem poll_of_settled {engine : Engine} (h : slot.Settled nowMs) (hengine : slot.engine = some engine) :
    slot.poll nowMs txLen = slot.pollEngine nowMs txLen := by
  rw [poll, queuePingIfIdle_of_not_due (h engine hengine).2]

theorem pendingWork_pollEngine_le {engine : Engine} (hengine : slot.engine = some engine) :
    (slot.pollEngine nowMs txLen).1.pendingWork ≤ (engine.poll nowMs txLen).1.state.waiting := by
  rw [pollEngine_of_some hengine]
  rcases engine.poll nowMs txLen with ⟨polled, e | ⟨bytes, attempts⟩ | message | event | _⟩
  · exact Nat.zero_le _
  · exact Nat.le_refl _
  · exact Nat.le_refl _
  · exact Nat.zero_le _
  · exact Nat.le_refl _

/-- **A poll of a settled slot**: it is idle and there was nothing, or there is less than before. -/
theorem pendingWork_poll (h : slot.Settled nowMs) (txLen : Nat) :
    ((slot.poll nowMs txLen).2 = .ok .idle ∧ slot.pendingWork = 0 ∧
      (slot.poll nowMs txLen).1.pendingWork = 0) ∨
    ((slot.poll nowMs txLen).2 ≠ .ok .idle ∧
      (slot.poll nowMs txLen).1.pendingWork < slot.pendingWork) := by
  cases hengine : slot.engine with
  | none =>
    have hzero : slot.pendingWork = 0 := by rw [pendingWork, hengine]; rfl
    rw [poll_of_none hengine]
    exact .inl ⟨rfl, hzero, hzero⟩
  | some engine =>
    have hwork : slot.pendingWork = engine.state.waiting := by rw [pendingWork, hengine]; rfl
    have hle := @pendingWork_pollEngine_le slot nowMs txLen engine hengine
    have hresult := @pollEngine_result slot nowMs txLen engine hengine
    have hengines : engine.poll nowMs txLen = (⟨engine.config,
        (engine.state.poll engine.config nowMs txLen).1⟩,
      (engine.state.poll engine.config nowMs txLen).2) := rfl
    rw [hengines] at hle hresult
    rw [poll_of_settled h hengine, hresult, hwork]
    rcases engine.state.waiting_poll (h engine hengine).1 txLen with
      ⟨hidle, hzero, hafter⟩ | ⟨hbusy, hone⟩
    · refine .inl ⟨hidle, hzero, Nat.le_zero.mp ?_⟩
      rw [← hafter]
      exact hle
    · refine .inr ⟨hbusy, ?_⟩
      dsimp only at hle
      omega

theorem pendingWork_of_idle (h : (slot.poll nowMs txLen).2 = .ok .idle) :
    (slot.poll nowMs txLen).1.pendingWork = 0 := by
  cases hengine : slot.engine with
  | none =>
    rw [poll_of_none hengine, pendingWork, hengine]
    rfl
  | some engine =>
    cases pollPath nowMs txLen hengine with
    | refused _ _ hrefused _ =>
      rw [h] at hrefused
      cases hrefused
    | polled ops pinged engine' _ _ _ hpinged _ hpoll _ =>
      rw [hpoll] at h ⊢
      rw [pollEngine_result hpinged] at h
      have hzero := EngineState.waiting_poll_of_idle h
      exact Nat.le_zero.mp (hzero ▸ pendingWork_pollEngine_le hpinged)

/-- The slot behind polls at one time, given the lengths of their buffers. -/
def drain (nowMs : Nat) (slot : PeerSlot) (txLens : List Nat) : PeerSlot :=
  txLens.foldl (fun slot txLen => (slot.poll nowMs txLen).1) slot

theorem settled_drain (h : slot.Settled nowMs) (txLens : List Nat) :
    (drain nowMs slot txLens).Settled nowMs := by
  induction txLens generalizing slot with
  | nil => exact h
  | cons txLen txLens ih => exact ih (settled_poll slot nowMs txLen)

/-- Where there is nothing, every poll is idle and nothing comes. -/
theorem idle_of_drained (h : slot.Settled nowMs) (hzero : slot.pendingWork = 0) (txLens : List Nat)
    (txLen : Nat) : ((drain nowMs slot txLens).poll nowMs txLen).2 = .ok .idle := by
  induction txLens generalizing slot with
  | nil =>
    rcases pendingWork_poll h txLen with ⟨hidle, -⟩ | ⟨-, hless⟩
    · exact hidle
    · omega
  | cons first txLens ih =>
    rcases pendingWork_poll h first with ⟨-, -, hafter⟩ | ⟨-, hless⟩
    · exact ih (settled_poll slot nowMs first) hafter
    · omega

/-- The polls of a settled slot come to an idle one. -/
theorem exists_idle (h : slot.Settled nowMs) (txLens : Nat → Nat) :
    ∃ k ≤ slot.pendingWork,
      ((drain nowMs slot ((List.range k).map txLens)).poll nowMs (txLens k)).2 = .ok .idle := by
  induction hwork : slot.pendingWork using Nat.strong_induction_on generalizing slot txLens with
  | _ work ih =>
    rcases pendingWork_poll h (txLens 0) with ⟨hidle, -⟩ | ⟨-, hless⟩
    · exact ⟨0, Nat.zero_le _, hidle⟩
    · rw [hwork] at hless
      obtain ⟨k, hk, hidle⟩ := ih _ hless (settled_poll slot nowMs (txLens 0))
        (fun i => txLens (i + 1)) rfl
      refine ⟨k + 1, by omega, ?_⟩
      rw [List.range_succ_eq_map, List.map_cons, List.map_map]
      exact hidle

/-- **Draining a peer at one instant ends.**  Behind the first poll every further one at the same time
takes something out until one is idle, which is at the latest when nothing is left; and from an idle poll
on all are idle. -/
theorem drain_ends (slot : PeerSlot) (nowMs first : Nat) :
    (∀ (txLens : List Nat) (txLen : Nat),
      ((drain nowMs (slot.poll nowMs first).1 txLens).poll nowMs txLen).2 ≠ .ok .idle →
      ((drain nowMs (slot.poll nowMs first).1 txLens).poll nowMs txLen).1.pendingWork <
        (drain nowMs (slot.poll nowMs first).1 txLens).pendingWork) ∧
    (∀ txLens : Nat → Nat, ∃ k ≤ (slot.poll nowMs first).1.pendingWork,
      ((drain nowMs (slot.poll nowMs first).1 ((List.range k).map txLens)).poll nowMs
        (txLens k)).2 = .ok .idle) ∧
    ((slot.poll nowMs first).2 = .ok .idle → ∀ (txLens : List Nat) (txLen : Nat),
      ((drain nowMs (slot.poll nowMs first).1 txLens).poll nowMs txLen).2 = .ok .idle) := by
  have hsettled := settled_poll slot nowMs first
  refine ⟨?_, exists_idle hsettled, ?_⟩
  · intro txLens txLen hbusy
    rcases pendingWork_poll (settled_drain hsettled txLens) txLen with ⟨hidle, -⟩ | ⟨-, hless⟩
    · exact absurd hidle hbusy
    · exact hless
  · intro hidle
    exact idle_of_drained hsettled (pendingWork_of_idle hidle)

end PeerSlot

end Msrt
