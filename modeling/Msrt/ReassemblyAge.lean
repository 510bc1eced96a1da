import Msrt.Retransmission
import Msrt.Sessions

/-! # The age of an incomplete message

The reassembly table stamps a slot with the clock of the engine, and the clock moves in `poll` only:
a fragment that arrives long after the last poll is stamped with the time of that poll, and one that
arrives before the first poll with zero.  So the slot of a message is dropped by the first poll that
comes a timeout after the last poll before its fragment, however late the fragment arrived
(`reassembly_kept_iff`).
-/

namespace Msrt
open EngineState

/-! ## Slots and their stamps -/

/-- The table has a slot for the message. -/
def ReassemblyState.Collects (r : ReassemblyState) (key : MessageKey) : Prop :=
  ∃ slot ∈ r.slots, slot.active = true ∧ slot.key = key

instance (r : ReassemblyState) (key : MessageKey) : Decidable (r.Collects key) :=
  inferInstanceAs (Decidable (∃ slot ∈ r.slots, slot.active = true ∧ slot.key = key))

theorem ReassemblyState.collects_iff {r : ReassemblyState} {key : MessageKey} :
    r.Collects key ↔ ∃ slot, r.Holds key slot :=
  ⟨fun ⟨slot, hmem, hactive, hkey⟩ => ⟨slot, hmem, hactive, hkey⟩,
    fun ⟨slot, h⟩ => ⟨slot, h.mem, h.active, h.key_eq⟩⟩

/-- The fragment the reassembly table took from a call. -/
def Call.tookFragment (call : Call) : Option MessageFragment :=
  call.observed.filter fun fragment =>
    (call.before.reassembly.observe fragment call.before.clock.nowMs).2.isOk

/-- The time of the last poll, zero when there was none. -/
def lastPoll (calls : List Call) : Nat := (pollTimes calls).getLastD 0

section Stamp
variable {config : EngineConfig} {calls : List Call} {st : EngineState}

/-- No call but a poll moves the clock. -/
theorem Call.clock_after (config : EngineConfig) (call : Call) :
    (call.after config).clock.nowMs = call.pollTime.getD call.before.clock.nowMs := by
  obtain ⟨st, op⟩ := call
  cases op with
  | send packetType message =>
    exact congrArg ClockState.nowMs (st.sendFragmentedMessage_frame packetType message).clock
  | sendPing => exact congrArg ClockState.nowMs (st.queueLiveness_frame .ping .newData).clock
  | poll nowMs txLen => exact congrArg ClockState.nowMs (st.poll_frame nowMs txLen).clock
  | packet bytes =>
    cases hdec : decodePacketBytes bytes with
    | ping =>
      rw [after_ping config st hdec]
      exact congrArg ClockState.nowMs (st.queueLiveness_frame .pong .control).clock
    | data header fragment =>
      simp only [after, receiveCompletePacket, hdec]
      exact congrArg ClockState.nowMs (receiveData_frame st fragment).clock
    | log header fragment =>
      simp only [after, receiveCompletePacket, hdec]
      exact congrArg ClockState.nowMs (receiveLog_spec st fragment).1.frame.clock
    | ack | pong | malformed =>
      simp only [after, receiveCompletePacket, hdec]
      rfl

/-- **The clock of an engine is the time of its last poll.** -/
theorem PacketRun.clock_eq (h : PacketRun config calls st) : st.clock.nowMs = lastPoll calls := by
  induction h with
  | new => rfl
  | ingress ingress _ ih => exact ih
  | @call calls st op _ ih =>
    rw [Call.clock_after, lastPoll, pollTimes, filterMap_snoc]
    cases ht : Call.pollTime ⟨st, op⟩ with
    | none => simpa [lastPoll, pollTimes] using ih
    | some nowMs => simp

/-- What a call does to the reassembly table. -/
inductive TableStep (config : EngineConfig) (call : Call) : Prop
  | same : call.observed = none → (call.after config).reassembly = call.before.reassembly →
      TableStep config call
  | expired (nowMs : Nat) : call.observed = none → (call.after config).reassembly =
      call.before.reassembly.expire nowMs config.reassemblyTimeoutMs → TableStep config call
  | observed (fragment : MessageFragment) : call.observed = some fragment →
      (call.after config).reassembly =
        (call.before.reassembly.observe fragment call.before.clock.nowMs).1 → TableStep config call

theorem Call.tableStep (config : EngineConfig) (call : Call) : TableStep config call := by
  cases call.receiveStep config with
  | untouched hsilent _ hsame => exact .same hsilent.observed hsame
  | duplicate key hsilent _ _ hsame => exact .same hsilent.observed hsame
  | poll nowMs txLen _ hsilent _ hexpire => exact .expired nowMs hsilent.observed hexpire
  | observed fragment hobserved _ hspec => exact .observed fragment hobserved hspec.reassembly
  | accepted fragment hobserved _ hspec => exact .observed fragment hobserved hspec.reassembly

theorem Call.tookFragment_eq_some {call : Call} {fragment : MessageFragment} :
    call.tookFragment = some fragment ↔ call.observed = some fragment ∧
      (call.before.reassembly.observe fragment call.before.clock.nowMs).2.isOk = true :=
  Option.filter_eq_some_iff

/-- The slot of the message whose fragment a call took carries the clock of that call. -/
theorem stamp_of_took {call : Call} (hd : call.before.reassembly.KeysDistinct)
    {fragment : MessageFragment} (htook : call.tookFragment = some fragment) {slot : ReassemblySlot}
    (hholds : (call.after config).reassembly.Holds fragment.messageKey slot) :
    slot.updatedAtMs = call.before.clock.nowMs := by
  obtain ⟨hobserved, hok⟩ := Call.tookFragment_eq_some.mp htook
  cases call.tableStep config with
  | same hnone | expired _ hnone =>
    rw [hnone] at hobserved
    cases hobserved
  | observed fragment' hobserved' hafter =>
    obtain rfl := Option.some.inj (hobserved'.symm.trans hobserved)
    rcases Nat.lt_or_ge maxMessageBytes fragment'.messageLen with hover | hle
    · rw [ReassemblyState.observe_oversized hover] at hok
      cases hok
    · obtain ⟨old, hat⟩ := ReassemblyState.observe_spec hd hle call.before.clock.nowMs
      rw [hafter] at hholds
      obtain ⟨hslot, hactive⟩ := (hat.self slot).mp hholds
      rw [hat.result_eq] at hok
      have hobs := old.observed fragment' call.before.clock.nowMs
      generalize old.observe fragment' call.before.clock.nowMs = result at hslot hok hobs
      cases hobs with
      | refused e => cases hok
      | completed slot' =>
        rw [hslot] at hactive
        cases hactive
      | partly slot' _ hw =>
        rw [hslot]
        exact hw.updatedAtMs

/-- A call that takes no fragment of a message leaves its slot alone, or drops it. -/
theorem holds_of_not_took {call : Call} (hd : call.before.reassembly.KeysDistinct) {key : MessageKey}
    (hcollects : call.before.reassembly.Collects key)
    (hother : ∀ fragment, call.tookFragment = some fragment → fragment.messageKey ≠ key)
    {slot : ReassemblySlot} (hholds : (call.after config).reassembly.Holds key slot) :
    call.before.reassembly.Holds key slot := by
  cases call.tableStep config with
  | same _ hafter =>
    rw [hafter] at hholds
    exact hholds
  | expired nowMs _ hafter =>
    rw [hafter] at hholds
    exact ReassemblyState.holds_of_expire hholds
  | observed fragment hobserved hafter =>
    rw [hafter] at hholds
    by_cases hkey : key = fragment.messageKey
    · -- the fragment was refused, and a refused fragment changes a slot that exists in nothing
      subst hkey
      rcases Nat.lt_or_ge maxMessageBytes fragment.messageLen with hover | hle
      · rwa [ReassemblyState.observe_oversized hover] at hholds
      obtain ⟨old, hat⟩ := ReassemblyState.observe_spec hd hle call.before.clock.nowMs
      have hrefused : (old.observe fragment call.before.clock.nowMs).2.isOk = false := by
        rw [← hat.result_eq, Bool.eq_false_iff]
        exact fun hok => hother fragment (Call.tookFragment_eq_some.mpr ⟨hobserved, hok⟩) rfl
      have hold : call.before.reassembly.Holds fragment.messageKey old := by
        obtain ⟨s, hs⟩ := ReassemblyState.collects_iff.mp hcollects
        exact hat.slot_eq.resolve_right fun h => h.1 s hs
      obtain ⟨hslot, -⟩ := (hat.self slot).mp hholds
      have hobs := old.observed fragment call.before.clock.nowMs
      generalize old.observe fragment call.before.clock.nowMs = result at hslot hrefused hobs
      cases hobs with
      | refused e =>
        rw [hslot]
        exact hold
      | completed | partly => cases hrefused
    · exact ReassemblyState.holds_of_observe hd hkey hholds

/-- **The stamp of an incomplete message is the time of the last poll before its last fragment.** -/
theorem PacketRun.updatedAtMs_eq (hrun : PacketRun config calls st) {earlier later : List Call}
    {call : Call} (hsplit : calls = earlier ++ call :: later) {fragment : MessageFragment}
    (htook : call.tookFragment = some fragment)
    (hlast : ∀ c ∈ later, ∀ f, c.tookFragment = some f → f.messageKey ≠ fragment.messageKey)
    (hthere : ∀ c ∈ later, c.before.reassembly.Collects fragment.messageKey)
    {slot : ReassemblySlot} (hholds : st.reassembly.Holds fragment.messageKey slot) :
    slot.updatedAtMs = lastPoll earlier := by
  refine hrun.since (motive := fun _ st => ∀ slot, st.reassembly.Holds fragment.messageKey slot →
    slot.updatedAtMs = lastPoll earlier) hsplit ?_ ?_ (fun _ _ _ h => h) slot hholds
  · intro hbefore slot hholds
    rw [stamp_of_took hbefore.receiverInv.distinct htook hholds]
    exact hbefore.clock_eq
  · intro done c hc hdone hkept slot hholds
    exact hkept slot (holds_of_not_took hdone.receiverInv.distinct (hthere c hc) (hlast c hc) hholds)

end Stamp

/-! ## Expiry in a session -/

/-- Whether a slot outlives a poll is a matter of its stamp. -/
theorem ReassemblyState.collects_expire {r : ReassemblyState} (hd : r.KeysDistinct)
    {key : MessageKey} {slot : ReassemblySlot} (hholds : r.Holds key slot) (nowMs timeoutMs : Nat) :
    (r.expire nowMs timeoutMs).Collects key ↔ nowMs - slot.updatedAtMs < timeoutMs := by
  constructor
  · intro hcollects
    obtain ⟨s, hs⟩ := collects_iff.mp hcollects
    obtain rfl := Holds.unique hd (holds_of_expire hs) hholds
    obtain ⟨old, hold, heq⟩ := List.mem_map.mp hs.mem
    have hactive := hs.active
    split at heq
    · rw [← heq] at hactive
      cases hactive
    · rename_i hyoung
      subst heq
      simpa [hactive] using hyoung
  · intro hyoung
    refine collects_iff.mpr ⟨slot, List.mem_map.mpr ⟨slot, hholds.mem, ?_⟩, hholds.active,
      hholds.key_eq⟩
    rw [if_neg]
    simp
    omega

/-- A poll that keeps the session does to the reassembly table what the engine's own poll does. -/
theorem PeerSlot.reassembly_poll {slot : PeerSlot} {engine engine' : Engine} {nowMs txLen : Nat}
    (hengine : slot.engine = some engine)
    (hkept : (slot.poll nowMs txLen).1.engine = some engine') :
    engine'.state.reassembly =
      engine.state.reassembly.expire nowMs engine.config.reassemblyTimeoutMs := by
  cases pollPath nowMs txLen hengine with
  | refused _ _ _ hdropped =>
    rw [hdropped] at hkept
    cases hkept
  | polled ops pinged polled _ hpings _ hpinged hpolled hpoll =>
    rw [hpoll] at hkept
    obtain ⟨rfl, -⟩ := engine_pollEngine hpinged hkept
    have hping : polled.state.reassembly = engine.state.reassembly := by
      rw [hpolled, hpings]
      split
      · exact (engine.state.queueLiveness_frame .ping .newData).reassembly
      · rfl
    have hconfig : polled.config = engine.config := by rw [hpolled]
    rw [← hping, ← hconfig]
    exact (polled.state.poll_frame nowMs txLen).reassembly

/-! ## Histories with their operations -/

/-- One more operation: the history of the newest session gets its calls. -/
def stampStep (run : Peer × List (SlotOp × Call)) (op : SlotOp) : Peer × List (SlotOp × Call) :=
  (run.1.step op,
    (if op.opens run.1.slot then [] else run.2) ++ (run.1.newCalls op).map fun call => (op, call))

/-- The calls of the newest session, each with the operation of the slot that made it. -/
def sessionHistory (config : EngineConfig) (ops : List SlotOp) : List (SlotOp × Call) :=
  (ops.foldl stampStep (.new config, [])).2

theorem foldl_stampStep_fst (config : EngineConfig) (ops : List SlotOp) :
    (ops.foldl stampStep (.new config, [])).1 = runPeer config ops := by
  induction ops using List.reverseRecOn with
  | nil => rfl
  | append_singleton ops op ih =>
    rw [runPeer, List.foldl_append, List.foldl_append]
    exact congrArg (Peer.step · op) ih

/-- Without the operations the history is that of the peer. -/
theorem sessionHistory_calls (config : EngineConfig) (ops : List SlotOp) :
    (sessionHistory config ops).map Prod.snd = (runPeer config ops).calls := by
  induction ops using List.reverseRecOn with
  | nil => rfl
  | append_singleton ops op ih =>
    have hlive := (peerRun_runPeer config ops).live
    have hpeer := foldl_stampStep_fst config ops
    have hstep : runPeer config (ops ++ [op]) = (runPeer config ops).step op := by
      rw [runPeer, List.foldl_append]
      rfl
    have hhistory : (sessionHistory config (ops ++ [op])).map Prod.snd =
        (if op.opens (runPeer config ops).slot then [] else (runPeer config ops).calls) ++
          (runPeer config ops).newCalls op := by
      rw [sessionHistory, List.foldl_append, List.foldl_cons, List.foldl_nil, stampStep, hpeer,
        List.map_append, List.map_map, ← ih]
      congr 1
      · split <;> rfl
      · exact List.map_id _
    rw [hhistory, hstep]
    generalize runPeer config ops = peer at hlive ⊢
    cases hopens : op.opens peer.slot with
    | true =>
      rw [Peer.calls_step (by simp [Peer.opened, hopens])]
      simp [Peer.opened, hopens]
    | false =>
      cases hsessions : peer.sessions with
      | cons calls sessions =>
        rw [Peer.calls_step (by simp [Peer.opened, hopens, hsessions])]
        simp [Peer.opened, hopens, Peer.calls, hsessions]
      | nil =>
        -- no session was ever opened, so there is no engine to call
        have hengine : peer.slot.engine = none := by
          cases hengine : peer.slot.engine with
          | none => rfl
          | some engine => exact absurd hsessions (hlive engine hengine).2.1
        simp [Peer.calls, Peer.step, Peer.opened, Peer.newCalls, SlotOp.base, hopens, hsessions,
          hengine]

/-- The last fragment of a message came in a receive at `t`, behind the calls `earlier` of the
session, and the message has been in the table since. -/
structure LastFragment (config : EngineConfig) (ops : List SlotOp) (earlier : List (SlotOp × Call))
    (t : Nat) (fragment : MessageFragment) : Prop where
  received : ∃ bytes call later,
    sessionHistory config ops = earlier ++ (.receive t bytes, call) :: later ∧
      call.tookFragment = some fragment ∧ ∀ entry ∈ later,
        entry.2.before.reassembly.Collects fragment.messageKey ∧
        ∀ f, entry.2.tookFragment = some f → f.messageKey ≠ fragment.messageKey
  collects : ∃ engine, (runPeer config ops).slot.engine = some engine ∧
    engine.state.reassembly.Collects fragment.messageKey

/-- **A poll keeps an incomplete message exactly when it comes less than the timeout after the last
poll before the message's last fragment**, whatever the time that fragment arrived. -/
theorem reassembly_kept_iff {config : EngineConfig} {ops : List SlotOp}
    {earlier : List (SlotOp × Call)} {t t' txLen : Nat} {fragment : MessageFragment}
    (hlast : LastFragment config ops earlier t fragment) {engine' : Engine}
    (hkept : (runPeer config (ops ++ [.poll t' txLen])).slot.engine = some engine') :
    engine'.state.reassembly.Collects fragment.messageKey ↔
      t' - lastPoll (earlier.map Prod.snd) < config.reassemblyTimeoutMs := by
  obtain ⟨⟨bytes, call, later, hhistory, htook, hlater⟩, engine, hengine, hcollects⟩ := hlast
  obtain ⟨hconfig, -, hrun⟩ := (peerRun_runPeer config ops).live engine hengine
  have hcalls := sessionHistory_calls config ops
  rw [hhistory, List.map_append, List.map_cons] at hcalls
  obtain ⟨slot, hholds⟩ := ReassemblyState.collects_iff.mp hcollects
  have hstamp : slot.updatedAtMs = lastPoll (earlier.map Prod.snd) := by
    refine hrun.updatedAtMs_eq hcalls.symm htook ?_ ?_ hholds
    · rintro c hc
      obtain ⟨entry, hentry, rfl⟩ := List.mem_map.mp hc
      exact (hlater entry hentry).2
    · rintro c hc
      obtain ⟨entry, hentry, rfl⟩ := List.mem_map.mp hc
      exact (hlater entry hentry).1
  rw [runPeer, List.foldl_append] at hkept
  have hconfig' : engine.config = config := hconfig.trans (peerRun_runPeer config ops).config_eq
  rw [PeerSlot.reassembly_poll hengine hkept, hconfig', ← hstamp]
  exact ReassemblyState.collects_expire hrun.receiverInv.distinct hholds t' _

/-! ### The first half of a message -/

/-- The first of two fragments of a message. -/
def firstHalf : MessageFragment := ⟨.data, 0, true, 5, 2, 0, [7]⟩

/-- The envelope of the first fragment of a message of two bytes. -/
def firstHalfEnvelope : Bytes :=
  envelope .default (dataPacketBytes ⟨.ackEliciting, 5, 0, 2, 0⟩ [7])

/-- The fragment arrives at `t`, in a session that was opened at `t`. -/
def arrival (t : Nat) : List SlotOp := [.acceptPassive t, .receive t firstHalfEnvelope]

theorem lastFragment_arrival {t : Nat}
    (hhistory : (sessionHistory .default (arrival t)).length = 1 ∧
      ((sessionHistory .default (arrival t))[0]?.any fun entry =>
        decide (some entry.1 = (arrival t)[1]?) && entry.2.tookFragment == some firstHalf) = true)
    (hcollects : ((runPeer .default (arrival t)).slot.engine.any fun engine =>
      decide (engine.state.reassembly.Collects firstHalf.messageKey)) = true) :
    LastFragment .default (arrival t) [] t firstHalf := by
  obtain ⟨hlength, hentry⟩ := hhistory
  obtain ⟨⟨op, call⟩, hget, hentry⟩ := (Option.any_eq_true _ _).mp hentry
  obtain ⟨engine, hengine, hcollects⟩ := (Option.any_eq_true _ _).mp hcollects
  simp only [Bool.and_eq_true, decide_eq_true_eq, beq_iff_eq] at hentry
  obtain ⟨hop, htook⟩ := hentry
  obtain rfl := Option.some.inj hop
  have hsplit := split_at hget
  rw [List.take_zero, List.drop_of_length_le (by omega)] at hsplit
  exact ⟨⟨firstHalfEnvelope, call, [], hsplit, htook, by simp⟩, engine, hengine,
    of_decide_eq_true hcollects⟩

/-- A fragment that arrives at 10 is still there at 20. -/
theorem reassembly_kept_early : ∃ engine',
    (runPeer .default (arrival 10 ++ [.poll 20 128])).slot.engine = some engine' ∧
      engine'.state.reassembly.Collects firstHalf.messageKey := by
  have hkept : (runPeer .default (arrival 10 ++ [.poll 20 128])).slot.engine.isSome = true := by
    decide +kernel
  obtain ⟨engine', hengine'⟩ := Option.isSome_iff_exists.mp hkept
  have hlast := lastFragment_arrival (t := 10) (by decide +kernel) (by decide +kernel)
  exact ⟨engine', hengine', (reassembly_kept_iff hlast hengine').mpr (by decide)⟩

/-- The times of a run. -/
def SlotOp.time : SlotOp → Option Nat
  | .connect nowMs | .acceptPassive nowMs | .acceptPassiveIfNeeded nowMs | .receive nowMs _
  | .poll nowMs _ | .disconnectIfIdle nowMs _ => some nowMs
  | .disconnect | .send _ => none

/-- A fragment can be dropped a millisecond after it arrived: in a session that was opened late and
has not been polled, its slot looks as old as the clock. -/
theorem not_reassembly_kept : ¬ ∀ (config : EngineConfig) (ops : List SlotOp)
    (earlier : List (SlotOp × Call)) (t t' txLen : Nat) (fragment : MessageFragment)
    (engine' : Engine), ((ops ++ [SlotOp.poll t' txLen]).filterMap SlotOp.time).Pairwise (· ≤ ·) →
    LastFragment config ops earlier t fragment → t' - t < config.reassemblyTimeoutMs →
    (runPeer config (ops ++ [.poll t' txLen])).slot.engine = some engine' →
    engine'.state.reassembly.Collects fragment.messageKey := by
  intro h
  have hdropped : ((runPeer .default (arrival 10000 ++ [.poll 10001 128])).slot.engine.any fun engine =>
      !decide (engine.state.reassembly.Collects firstHalf.messageKey)) = true := by
    decide +kernel
  obtain ⟨engine', hengine', hgone⟩ := (Option.any_eq_true _ _).mp hdropped
  have hlast := lastFragment_arrival (t := 10000) (by decide +kernel) (by decide +kernel)
  have hcollects := h .default (arrival 10000) [] 10000 10001 128 firstHalf engine' (by decide) hlast
    (by decide) hengine'
  simp [hcollects] at hgone

end Msrt
