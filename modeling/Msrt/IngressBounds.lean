import Msrt.ReceiveStream

/-! # Receiving ends and never clogs

The receive loop has no bound of its own: it goes on until the decoder asks for more bytes.  `ReceiveRun`
is the loop without fuel, round by round, and every receive is such a run (`receiveRun_receiveBytes`):
an answer that does not ask for more bytes takes some off what the buffer holds, at once or when the next
round begins.  What is left when the loop ends is the start of one envelope at most, so the buffer has
room again whatever was received before.
-/

namespace Msrt

/-! ## The decoder -/

namespace StreamingDecoder
variable {capacity : Nat} {integrity : IntegrityConfig}

/-- No more is left to consume than the buffer holds. -/
def PendingFits (d : StreamingDecoder capacity) : Prop := d.pendingConsume ≤ d.bytes.length

theorem pendingFits_of_zero {d : StreamingDecoder capacity} (h : d.pendingConsume = 0) :
    d.PendingFits := by
  rw [PendingFits, h]
  exact Nat.zero_le _

theorem pendingFits_decodeBuffer {d : StreamingDecoder capacity} (h : d.pendingConsume = 0) :
    (d.decodeBuffer integrity).1.PendingFits := by
  have hwait : d.PendingFits := pendingFits_of_zero h
  have hconsume (count : Nat) : (d.consume count).PendingFits := pendingFits_of_zero h
  unfold decodeBuffer
  split
  · exact hwait
  · split
    · exact hconsume _
    · split
      · exact hconsume _
      · split
        · exact hwait
        · split
          · exact hconsume _
          · split
            · exact hconsume _
            · dsimp only
              split
              · exact hconsume _
              · split
                · exact hwait
                · rename_i hlen
                  -- the length of the packet is noted only once all of it is there
                  split
                  · exact Nat.le_of_not_lt hlen
                  · exact Nat.le_of_not_lt hlen

theorem pendingFits_feed (d : StreamingDecoder capacity) (integrity : IntegrityConfig) (input : Bytes) :
    (d.feed input integrity).1.PendingFits := by
  have hpending := d.pendingConsume_consumePending
  unfold feed append
  dsimp only
  split
  · exact pendingFits_of_zero hpending
  · rename_i d' happend
    split at happend
    · cases happend
    · obtain rfl := Except.ok.inj happend
      exact pendingFits_decodeBuffer hpending

/-- An answer that does not ask for more bytes takes some off what the decoder holds. -/
theorem rest_feed_lt (d : StreamingDecoder capacity) (integrity : IntegrityConfig) (input : Bytes)
    {outcome : StreamDecodeOutcome} (houtcome : (d.feed input integrity).2 = .ok outcome)
    (hw : ∀ needed, outcome ≠ .needMore needed) :
    (d.feed input integrity).1.rest.length < d.rest.length + input.length := by
  rcases Nat.lt_or_ge capacity (d.rest.length + input.length) with hover | hfit
  · rw [d.feed_overflow integrity hover] at houtcome
    cases houtcome
  · obtain ⟨d', outcome', hfeed, hdec⟩ := d.feed_spec integrity hfit
    rw [hfeed] at houtcome ⊢
    obtain rfl := Except.ok.inj houtcome
    obtain ⟨hpos, hle, -⟩ := scansAs_classify hdec.outcome_eq.symm hw
    rw [hdec.rest_eq, List.length_drop, ← List.length_append]
    omega

theorem length_rest (d : StreamingDecoder capacity) :
    d.rest.length = d.bytes.length - d.pendingConsume := List.length_drop

/-- Feeding nothing is never refused, and it is answered by progress or by a wait. -/
theorem feed_nil (d : StreamingDecoder capacity) (integrity : IntegrityConfig) :
    ∃ d' outcome, d.feed [] integrity = (d', .ok outcome) ∧ d'.PendingFits ∧
      ((∃ needed, outcome = .needMore needed) ∨
        d'.bytes.length - d'.pendingConsume < d.bytes.length - d.pendingConsume) := by
  have hfit : d.rest.length + ([] : Bytes).length ≤ capacity := d.rest_length_le
  obtain ⟨d', outcome, hfeed, -⟩ := d.feed_spec integrity hfit
  have hsettled := d.pendingFits_feed integrity []
  have hless := d.rest_feed_lt integrity [] (congrArg Prod.snd hfeed)
  rw [hfeed] at hsettled hless
  refine ⟨d', outcome, hfeed, hsettled, ?_⟩
  by_cases hw : ∃ needed, outcome = .needMore needed
  · exact .inl hw
  · have hlt := hless fun needed h => hw ⟨needed, h⟩
    rw [length_rest, length_rest] at hlt
    exact .inr hlt

end StreamingDecoder

/-- Bytes that need more input are the start of one envelope at most. -/
theorem length_le_of_waiting {capacity : Nat} {integrity : IntegrityConfig} {s : Bytes}
    (h : (wireScanner capacity integrity).step s = none) : s.length ≤ 257 + integrity.tagLen := by
  have hnone : wireStep capacity integrity s = none := h
  match s, hnone with
  | [], _ => exact Nat.zero_le _
  | [_], _ => exact Nat.le_trans (by simp) (Nat.le_add_right _ _)
  | [_, _], _ => exact Nat.le_trans (by simp) (Nat.le_add_right _ _)
  | magic :: packetLen :: crc :: tail, hnone =>
    have hlen : packetLen.toNat < 256 := packetLen.toNat_lt
    by_contra hlong
    -- an envelope that is all there is answered one way or the other
    have hthere : ¬ (magic :: packetLen :: crc :: tail).length < candidateLen integrity packetLen := by
      unfold candidateLen
      rw [wireHeaderLen_eq]
      omega
    rw [wireStep.eq_def] at hnone
    dsimp only at hnone
    rw [if_neg hthere] at hnone
    by_cases hm : magic ≠ envelopeMagic
    · rw [if_pos hm] at hnone
      cases hnone
    · rw [if_neg hm] at hnone
      split at hnone <;> cases hnone

/-! ## The loop -/

/-- The receive loop round by round: it ends with an error, or when the decoder asks for more bytes. -/
inductive ReceiveRun (config : EngineConfig) :
    EngineState → Bytes → ReceiveReport → EngineState × ReceiveReport → Prop
  | refused {st input report d e} :
      st.ingress.feed input config.integrity = (d, .error e) →
      ReceiveRun config st input report ({ st with ingress := d }, .error e)
  | waits {st input report d needed} :
      st.ingress.feed input config.integrity = (d, .ok (.needMore needed)) →
      ReceiveRun config st input report
        ({ st with ingress := d }, EngineState.finalReport report needed)
  | noise {st input report d skipped result} :
      st.ingress.feed input config.integrity = (d, .ok (.noise skipped)) →
      ReceiveRun config { st with ingress := d } [] (.noise skipped) result →
      ReceiveRun config st input report result
  | resync {st input report d skipped result} :
      st.ingress.feed input config.integrity = (d, .ok (.resync skipped)) →
      ReceiveRun config { st with ingress := d } [] (.noise skipped) result →
      ReceiveRun config st input report result
  | corrupted {st input report d consumed result} :
      st.ingress.feed input config.integrity = (d, .ok (.corrupted consumed)) →
      ReceiveRun config { st with ingress := d } [] .corrupted result →
      ReceiveRun config st input report result
  | oversized {st input report d packetBytes consumed e} :
      st.ingress.feed input config.integrity = (d, .ok (.packet packetBytes consumed)) →
      packetBytesTryFromSlice packetBytes = .error e →
      ReceiveRun config st input report ({ st with ingress := d }, .error e)
  | failed {st input report d packetBytes consumed packet handled} :
      st.ingress.feed input config.integrity = (d, .ok (.packet packetBytes consumed)) →
      packetBytesTryFromSlice packetBytes = .ok packet →
      EngineState.receiveCompletePacket { st with ingress := d } config packet = handled →
      handled.2.isError = true → ReceiveRun config st input report handled
  | packet {st input report d packetBytes consumed packet handled result} :
      st.ingress.feed input config.integrity = (d, .ok (.packet packetBytes consumed)) →
      packetBytesTryFromSlice packetBytes = .ok packet →
      EngineState.receiveCompletePacket { st with ingress := d } config packet = handled →
      handled.2.isError = false → ReceiveRun config handled.1 [] handled.2 result →
      ReceiveRun config st input report result

namespace EngineState

/-- With more rounds than bytes the loop ends by itself. -/
theorem receiveRun_receiveLoop (config : EngineConfig) {fuel : Nat} (st : EngineState)
    (input : Bytes) (report : ReceiveReport)
    (hfuel : st.ingress.rest.length + input.length < fuel) :
    ReceiveRun config st input report (receiveLoop config fuel st input report) := by
  induction fuel generalizing st input report with
  | zero => omega
  | succ fuel ih =>
    have hless := fun outcome => @StreamingDecoder.rest_feed_lt _ st.ingress config.integrity input
      outcome
    unfold receiveLoop
    rcases hfeed : st.ingress.feed input config.integrity with ⟨d, result⟩
    rw [hfeed] at hless
    dsimp only at hless ⊢
    -- a round that goes on leaves fewer bytes than there are rounds left
    have hnext : ∀ (report : ReceiveReport) (outcome : StreamDecodeOutcome), result = .ok outcome →
        (∀ needed, outcome ≠ .needMore needed) → ∀ st' : EngineState, st'.ingress = d →
        ReceiveRun config st' [] report (receiveLoop config fuel st' [] report) := by
      intro report outcome hok hw st' hingress
      have hlt := hless outcome hok hw
      apply ih st' [] report
      rw [hingress, List.length_nil]
      omega
    cases result with
    | error e => exact .refused hfeed
    | ok outcome =>
      cases outcome with
      | needMore needed => exact .waits hfeed
      | noise skipped => exact .noise hfeed (hnext _ _ rfl (by simp) _ rfl)
      | corrupted consumed => exact .corrupted hfeed (hnext _ _ rfl (by simp) _ rfl)
      | resync skipped => exact .resync hfeed (hnext _ _ rfl (by simp) _ rfl)
      | packet packetBytes consumed =>
        dsimp only
        cases hslice : packetBytesTryFromSlice packetBytes with
        | error e => exact .oversized hfeed hslice
        | ok packet =>
          have hingress := ingress_receiveCompletePacket { st with ingress := d } config packet
          dsimp only
          split
          · rename_i herror
            exact .failed hfeed hslice rfl herror
          · rename_i hfine
            exact .packet hfeed hslice rfl (by simpa using hfine)
              (hnext _ _ rfl (by simp) _ hingress)

theorem receiveRun_receiveBytes (config : EngineConfig) (st : EngineState) (bytes : Bytes) :
    ReceiveRun config st bytes (.incomplete none) (st.receiveBytes config bytes) :=
  receiveRun_receiveLoop config st bytes _ (Nat.lt_succ_self _)

end EngineState

theorem EngineState.pendingFits_receiveLoop {config : EngineConfig} {fuel : Nat} {st : EngineState}
    {input : Bytes} {report : ReceiveReport} (h : st.ingress.PendingFits) :
    (receiveLoop config fuel st input report).1.ingress.PendingFits := by
  induction fuel generalizing st input report with
  | zero => exact h
  | succ fuel ih =>
    have hfed := st.ingress.pendingFits_feed config.integrity input
    unfold receiveLoop
    dsimp only
    cases (st.ingress.feed input config.integrity).2 with
    | error e => exact hfed
    | ok outcome =>
      cases outcome with
      | needMore needed => exact hfed
      | noise skipped => exact ih hfed
      | corrupted consumed => exact ih hfed
      | resync skipped => exact ih hfed
      | packet packetBytes consumed =>
        dsimp only
        cases packetBytesTryFromSlice packetBytes with
        | error e => exact hfed
        | ok packet =>
          have hingress := ingress_receiveCompletePacket
            { st with ingress := (st.ingress.feed input config.integrity).1 } config packet
          dsimp only
          split
          · exact hingress ▸ hfed
          · exact ih (hingress ▸ hfed)

/-- The ingress buffer of every run: only a receive touches it. -/
theorem EngineRun.pendingFits {config : EngineConfig} {allowed : EngineState → EngineOp → Prop}
    {calls : List Call} {st : EngineState} (h : EngineRun config allowed calls st) :
    st.ingress.PendingFits := by
  induction h with
  | new => exact Nat.zero_le _
  | @step calls st op _ _ ih =>
    cases op with
    | send message => exact (st.sendFragmentedMessage_frame .data message).ingress ▸ ih
    | sendLog message => exact (st.sendFragmentedMessage_frame .log message).ingress ▸ ih
    | sendPing => exact (st.queueLiveness_frame .ping .newData).ingress ▸ ih
    | poll nowMs txLen => exact (st.poll_frame nowMs txLen).ingress ▸ ih
    | receive bytes => exact EngineState.pendingFits_receiveLoop ih

/-- **Receiving ends and never clogs.**  An empty feed is never refused, and one that does not ask for
more bytes leaves fewer bytes to handle; so every receive is a finite run of the loop.  In every state
reached without an error report nothing is deferred, the buffer holds less than one envelope of the
greatest length, and there is room for a chunk of all the rest. -/
theorem receive_ends_unclogged (config : EngineConfig) :
    (∀ {capacity : Nat} (d : StreamingDecoder capacity) (integrity : IntegrityConfig),
      d.PendingFits → ∃ d' outcome, d.feed [] integrity = (d', .ok outcome) ∧ d'.PendingFits ∧
        ((∃ needed, outcome = .needMore needed) ∨
          d'.bytes.length - d'.pendingConsume < d.bytes.length - d.pendingConsume)) ∧
    (∀ (st : EngineState) (bytes : Bytes),
      ReceiveRun config st bytes (.incomplete none) (st.receiveBytes config bytes)) ∧
    ∀ (calls : List Call) (st : EngineState),
      EngineRun config (fun st op => op.receiveFails config st = false) calls st →
      st.ingress.pendingConsume = 0 ∧
      st.ingress.bytes.length ≤ 257 + config.integrity.tagLen ∧
      ∀ chunk : Bytes, chunk.length ≤ 2048 - 257 - config.integrity.tagLen →
        ∃ d outcome, st.ingress.feed chunk config.integrity = (d, .ok outcome) := by
  refine ⟨fun d integrity _ => d.feed_nil integrity,
    fun st bytes => st.receiveRun_receiveBytes config bytes, ?_⟩
  intro calls st hrun
  have hsettled := hrun.settled
  have hrest := StreamingDecoder.rest_of_no_pending hsettled.pending
  have hlen := length_le_of_waiting hsettled.waiting
  rw [hrest] at hlen
  refine ⟨hsettled.pending, hlen, ?_⟩
  intro chunk hchunk
  have htag := config.integrity.tagLen_le
  have hfit : st.ingress.rest.length + chunk.length ≤ maxIngressBytes := by
    have hmax : maxIngressBytes = 2048 := rfl
    rw [hrest]
    omega
  obtain ⟨d, outcome, hfeed, -⟩ := st.ingress.feed_spec config.integrity hfit
  exact ⟨d, outcome, hfeed⟩

end Msrt
