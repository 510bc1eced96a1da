import Msrt.Frames
import Msrt.History
import Msrt.StreamRecovery

/-! # Receiving does not depend on how the stream is cut

`receiveBytes` is the scan of the stream with the engine behind it: it hands the events of the scan
to the engine one after the other (`handleEvents`) and keeps what needs more input in the ingress
buffer (`receiveBytes_spec`).  The engine never looks at that buffer while it handles a packet, so
the scanner's independence of cuts carries over to whole engine states.
-/

namespace Msrt

namespace ReceiveReport

/-- A report without its byte counts. -/
def kind : ReceiveReport → ReceiveReport
  | .noise _ => .noise 0
  | .incomplete _ => .incomplete none
  | report => report

theorem isError_of_kind_eq {r r' : ReceiveReport} (h : r.kind = r'.kind) :
    r.isError = r'.isError := by
  cases r <;> cases r' <;> simp_all [kind, isError]

end ReceiveReport

namespace EngineState
variable (config : EngineConfig)

/-- The state with another ingress buffer. -/
def withIngress (st : EngineState) (ingress : StreamingDecoder maxIngressBytes) : EngineState :=
  { st with ingress }

/-! ## Handling events -/

/-- What the engine does with one event of the stream. -/
def handleEvent (st : EngineState) : WireEvent → EngineState × ReceiveReport
  | .packet packetBytes =>
    match packetBytesTryFromSlice packetBytes with
    | .error e => (st, .error e)
    | .ok packet => st.receiveCompletePacket config packet
  | .corrupted => (st, .corrupted)
  | .noise => (st, .noise 1)

/-- Handles events until one is an error; `none` if one is. -/
def handleEvents : EngineState → List WireEvent → Option (EngineState × List ReceiveReport)
  | st, [] => some (st, [])
  | st, event :: events =>
    if (st.handleEvent config event).2.isError then none
    else (handleEvents (st.handleEvent config event).1 events).map
      (fun r => (r.1, (st.handleEvent config event).2 :: r.2))

theorem handleEvents_append (st : EngineState) (events more : List WireEvent) :
    st.handleEvents config (events ++ more) =
      (st.handleEvents config events).bind (fun r =>
        (r.1.handleEvents config more).map (fun r' => (r'.1, r.2 ++ r'.2))) := by
  induction events generalizing st with
  | nil => simp [handleEvents]
  | cons event events ih =>
    rw [List.cons_append, handleEvents, handleEvents]
    split
    · rfl
    · rw [ih]
      cases handleEvents config (st.handleEvent config event).1 events with
      | none => rfl
      | some r => simp [Function.comp_def]

variable {config}

/-! ## The ingress buffer does not matter to a packet -/

theorem acknowledge_withIngress (st : EngineState) (ackEliciting : Bool) (key : PacketKey)
    (ingress : StreamingDecoder maxIngressBytes) :
    (st.withIngress ingress).acknowledge ackEliciting key =
      (st.acknowledge ackEliciting key).map (·.withIngress ingress) := by
  unfold acknowledge
  split
  · simp only [withIngress, Option.map_map]
    rfl
  · rfl

theorem reassemble_withIngress (st : EngineState) (packetType : PacketType)
    (fragment : MessageFragment) (ingress : StreamingDecoder maxIngressBytes) :
    (st.withIngress ingress).reassemble packetType fragment =
      ((st.reassemble packetType fragment).1.withIngress ingress,
        (st.reassemble packetType fragment).2) := by
  simp only [reassemble, withIngress]
  cases (st.reassembly.observe fragment st.clock.nowMs).2 with
  | error e => rfl
  | ok message => cases message <;> rfl

theorem receiveData_withIngress (st : EngineState) (fragment : MessageFragment)
    (ingress : StreamingDecoder maxIngressBytes) :
    (st.withIngress ingress).receiveData fragment =
      ((st.receiveData fragment).1.withIngress ingress, (st.receiveData fragment).2) := by
  unfold receiveData
  rw [reassemble_withIngress, acknowledge_withIngress]
  have hreceive : (st.withIngress ingress).receive = st.receive := rfl
  rw [hreceive]
  split
  · cases st.acknowledge fragment.ackEliciting fragment.key <;> rfl
  · rcases st.reassemble .data fragment with ⟨st', _ | _⟩
    · rfl
    · dsimp only
      have hreceive' : (st'.withIngress ingress).receive = st'.receive := rfl
      rw [hreceive']
      cases (st'.receive.observePacket fragment.key).2 with
      | error e => rfl
      | ok decision =>
        cases decision with
        | duplicate => rfl
        | accept =>
          have hack := acknowledge_withIngress
            { st' with receive := (st'.receive.observePacket fragment.key).1 }
            fragment.ackEliciting fragment.key ingress
          dsimp only [withIngress] at hack ⊢
          rw [hack]
          cases acknowledge { st' with receive := (st'.receive.observePacket fragment.key).1 }
            fragment.ackEliciting fragment.key <;> rfl

theorem receiveLog_withIngress (st : EngineState) (fragment : MessageFragment)
    (ingress : StreamingDecoder maxIngressBytes) :
    (st.withIngress ingress).receiveLog fragment =
      ((st.receiveLog fragment).1.withIngress ingress, (st.receiveLog fragment).2) := by
  unfold receiveLog
  rw [reassemble_withIngress]
  rcases st.reassemble .log fragment with ⟨st', _ | _⟩ <;> rfl

theorem queueLiveness_withIngress (st : EngineState) (packetType : PacketType)
    (priority : WritePriority) (ingress : StreamingDecoder maxIngressBytes) :
    (st.withIngress ingress).queueLiveness config packetType priority =
      ((st.queueLiveness config packetType priority).1.withIngress ingress,
        (st.queueLiveness config packetType priority).2) := by
  unfold queueLiveness
  cases encodeLivenessPacket packetType maxWireBytes config.integrity with
  | error e => rfl
  | ok wire =>
    dsimp only [withIngress]
    cases st.scheduler.push (.write ⟨.zero, .store wire, 0, priority⟩) <;> rfl

theorem receiveCompletePacket_withIngress (st : EngineState) (packet : Bytes)
    (ingress : StreamingDecoder maxIngressBytes) :
    (st.withIngress ingress).receiveCompletePacket config packet =
      ((st.receiveCompletePacket config packet).1.withIngress ingress,
        (st.receiveCompletePacket config packet).2) := by
  unfold receiveCompletePacket
  cases decodePacketBytes packet with
  | data _ fragment => exact receiveData_withIngress st fragment ingress
  | log _ fragment => exact receiveLog_withIngress st fragment ingress
  | ack key => rfl
  | ping =>
    dsimp only [queuePong]
    rw [queueLiveness_withIngress]
    rcases st.queueLiveness config .pong .control with ⟨st', _ | _⟩ <;> rfl
  | pong => rfl
  | malformed => rfl

theorem ingress_receiveCompletePacket (st : EngineState) (config : EngineConfig) (packet : Bytes) :
    (st.receiveCompletePacket config packet).1.ingress = st.ingress :=
  congrArg (fun result => result.1.ingress)
    (st.receiveCompletePacket_withIngress packet st.ingress)

theorem handleEvent_withIngress (st : EngineState) (event : WireEvent)
    (ingress : StreamingDecoder maxIngressBytes) :
    (st.withIngress ingress).handleEvent config event =
      ((st.handleEvent config event).1.withIngress ingress,
        (st.handleEvent config event).2) := by
  cases event with
  | packet packetBytes =>
    simp only [handleEvent]
    cases packetBytesTryFromSlice packetBytes with
    | error e => rfl
    | ok packet => exact receiveCompletePacket_withIngress st packet ingress
  | corrupted => rfl
  | noise => rfl

theorem handleEvents_withIngress (st : EngineState) (events : List WireEvent)
    (ingress : StreamingDecoder maxIngressBytes) :
    (st.withIngress ingress).handleEvents config events =
      (st.handleEvents config events).map (fun r => (r.1.withIngress ingress, r.2)) := by
  induction events generalizing st with
  | nil => rfl
  | cons event events ih =>
    rw [handleEvents, handleEvents, handleEvent_withIngress]
    dsimp only
    split
    · rfl
    · rw [ih]
      simp [Function.comp_def]

/-! ## The receive loop is the scan with the engine behind it -/

theorem handleEvents_noise (st : EngineState) (count : Nat) :
    st.handleEvents config (List.replicate count .noise) =
      some (st, List.replicate count (.noise 1)) := by
  induction count with
  | zero => rfl
  | succ count ih => simp [List.replicate_succ, handleEvents, handleEvent, ih,
      ReceiveReport.isError]

theorem handleEvents_singleton {st : EngineState} {event : WireEvent}
    (h : (st.handleEvent config event).2.isError = false) :
    st.handleEvents config [event] =
      some ((st.handleEvent config event).1, [(st.handleEvent config event).2]) := by
  simp [handleEvents, h]

theorem kind_finalReport (report : ReceiveReport) (additional : Option Nat) :
    (finalReport report additional).kind = report.kind := by
  cases report <;> rfl

/-- One round of the loop handles the events of one answer, or fails with them. -/
theorem receiveLoop_round (fuel : Nat) {st : EngineState} {input : Bytes} (report : ReceiveReport)
    {d : StreamingDecoder maxIngressBytes} {outcome : StreamDecodeOutcome}
    (hfeed : st.ingress.feed input config.integrity = (d, .ok outcome))
    (hw : ∀ needed, outcome ≠ .needMore needed) (hpos : 0 < outcome.taken) :
    (st.handleEvents config outcome.events = none ∧
      (receiveLoop config (fuel + 1) st input report).2.isError = true) ∨
    ∃ st' reports last next, st.handleEvents config outcome.events = some (st', reports) ∧
      reports.getLast? = some last ∧ last.kind = next.kind ∧
      receiveLoop config (fuel + 1) st input report =
        receiveLoop config fuel (st'.withIngress d) [] next := by
  have hnoise : ∀ count, 0 < count →
      (List.replicate count (ReceiveReport.noise 1)).getLast? = some (.noise 1) := by
    intro count hcount
    obtain ⟨n, rfl⟩ : ∃ n, count = n + 1 := ⟨count - 1, by omega⟩
    rw [List.replicate_succ', List.getLast?_append]
    rfl
  rw [receiveLoop, hfeed]
  cases outcome with
  | needMore needed => exact absurd rfl (hw needed)
  | noise skipped =>
    exact .inr ⟨st, _, .noise 1, .noise skipped, handleEvents_noise st skipped,
      hnoise skipped hpos, rfl, rfl⟩
  | resync skipped =>
    exact .inr ⟨st, _, .noise 1, .noise skipped, handleEvents_noise st skipped,
      hnoise skipped hpos, rfl, rfl⟩
  | corrupted consumed =>
    exact .inr ⟨st, _, .corrupted, .corrupted, handleEvents_singleton rfl, rfl, rfl, rfl⟩
  | packet packetBytes consumed =>
    show (st.handleEvents config [.packet packetBytes] = none ∧ _) ∨ _
    dsimp only
    cases hbytes : packetBytesTryFromSlice packetBytes with
    | error e => exact .inl ⟨by simp [handleEvents, handleEvent, hbytes, ReceiveReport.isError], rfl⟩
    | ok packet =>
      have hevent : st.handleEvent config (.packet packetBytes) =
          st.receiveCompletePacket config packet := by simp [handleEvent, hbytes]
      have hhandled : (st.withIngress d).receiveCompletePacket config packet = _ :=
        receiveCompletePacket_withIngress st packet d
      dsimp only [withIngress] at hhandled ⊢
      rw [hhandled]
      dsimp only
      cases herr : (st.receiveCompletePacket config packet).2.isError with
      | true => exact .inl ⟨by simp [handleEvents, hevent, herr], herr⟩
      | false =>
        refine .inr ⟨(st.receiveCompletePacket config packet).1,
          [(st.receiveCompletePacket config packet).2],
          (st.receiveCompletePacket config packet).2, (st.receiveCompletePacket config packet).2,
          ?_, rfl, rfl, rfl⟩
        rw [← hevent] at herr ⊢
        exact handleEvents_singleton herr

/-- What a receive that fits the buffer does with a stream: it fails with one of the events, or
handles them all and keeps what needs more input. -/
inductive Received (config : EngineConfig) (st : EngineState) (stream : Bytes)
    (report : ReceiveReport) : EngineState × ReceiveReport → Prop
  | failed {result} :
      st.handleEvents config
        ((wireScanner maxIngressBytes config.integrity).scan stream).1 = none →
      result.2.isError = true → Received config st stream report result
  | done (st' : EngineState) (reports : List ReceiveReport)
      (ingress : StreamingDecoder maxIngressBytes) (last : ReceiveReport) :
      st.handleEvents config
        ((wireScanner maxIngressBytes config.integrity).scan stream).1 = some (st', reports) →
      ingress.bytes = ((wireScanner maxIngressBytes config.integrity).scan stream).2 →
      ingress.pendingConsume = 0 → last.kind = (reports.getLast?.getD report).kind →
      Received config st stream report (st'.withIngress ingress, last)

theorem receiveLoop_spec {fuel : Nat} (st : EngineState) (input : Bytes) (report : ReceiveReport)
    (hfit : st.ingress.rest.length + input.length ≤ maxIngressBytes)
    (hfuel : st.ingress.rest.length + input.length < fuel) :
    Received config st (st.ingress.rest ++ input) report
      (receiveLoop config fuel st input report) := by
  induction fuel generalizing st input report with
  | zero => omega
  | succ fuel ih =>
    obtain ⟨d, outcome, hfeed, hdec⟩ := st.ingress.feed_spec config.integrity hfit
    by_cases hw : ∃ needed, outcome = .needMore needed
    · obtain ⟨needed, rfl⟩ := hw
      have hscan := Scanner.scan_of_none (classify_needMore hdec.outcome_eq.symm)
      obtain ⟨hbytes, hpending⟩ := hdec.waits rfl
      rw [receiveLoop, hfeed]
      refine .done st [] d _ ?_ ?_ hpending (kind_finalReport report needed)
      · rw [hscan]
        rfl
      · rw [hscan, hbytes]
    · have hw' : ∀ needed, outcome ≠ .needMore needed := fun needed h => hw ⟨needed, h⟩
      obtain ⟨hpos, hle, hscan⟩ := scansAs_classify hdec.outcome_eq.symm hw'
      have hrest : d.rest.length + outcome.taken = st.ingress.rest.length + input.length := by
        rw [hdec.rest_eq, List.length_drop, ← List.length_append]
        omega
      rcases receiveLoop_round fuel report hfeed hw' hpos with
        ⟨hnone, herr⟩ | ⟨st', reports, last, next, hsome, hlast, hkind, hloop⟩
      · refine .failed ?_ herr
        rw [hscan, handleEvents_append, hnone]
        rfl
      · have htail := ih (st'.withIngress d) [] next (by simp [withIngress]; omega)
          (by simp [withIngress]; omega)
        have hevents := handleEvents_append config st outcome.events
          ((wireScanner maxIngressBytes config.integrity).scan (d.rest ++ [])).1
        rw [hsome, Option.bind_some] at hevents
        -- the rest of the loop scans what the outcome left
        have hstream : (wireScanner maxIngressBytes config.integrity).scan (d.rest ++ []) =
            (wireScanner maxIngressBytes config.integrity).scan
              ((st.ingress.rest ++ input).drop outcome.taken) := by
          rw [List.append_nil, hdec.rest_eq]
        rw [hloop]
        generalize receiveLoop config fuel (st'.withIngress d) [] next = result at htail ⊢
        rcases htail with ⟨hnone, herr⟩ | ⟨st₂, reports₂, ingress, last₂, hsome₂, hbytes, hpend, hk⟩
        · refine .failed ?_ herr
          rw [handleEvents_withIngress, Option.map_eq_none_iff] at hnone
          rw [hscan, ← hstream, hevents]
          exact Option.map_eq_none_iff.mpr hnone
        · rw [handleEvents_withIngress] at hsome₂
          obtain ⟨⟨st₃, reports₃⟩, hsome₃, heq⟩ := Option.map_eq_some_iff.mp hsome₂
          obtain ⟨rfl, rfl⟩ := Prod.mk.inj heq
          refine .done st₃ (reports ++ reports₃) ingress last₂ ?_ ?_ hpend ?_
          · rw [hscan, ← hstream, hevents]
            exact Option.map_eq_some_iff.mpr ⟨_, hsome₃, rfl⟩
          · rw [hscan, ← hstream]
            exact hbytes
          · -- the last report is that of the later rounds, if they have one
            rw [hk, List.getLast?_append]
            cases reports₃.getLast? with
            | some r => rfl
            | none => simpa [hlast] using hkind.symm

theorem handleEvents_reports {st st' : EngineState} {events : List WireEvent}
    {reports : List ReceiveReport} (h : st.handleEvents config events = some (st', reports)) :
    ∀ report ∈ reports, report.isError = false := by
  induction events generalizing st reports with
  | nil =>
    obtain ⟨-, rfl⟩ := Prod.mk.inj (Option.some.inj h)
    simp
  | cons event events ih =>
    unfold handleEvents at h
    split at h
    · cases h
    · rename_i herr
      obtain ⟨⟨st₁, reports₁⟩, h₁, heq⟩ := Option.map_eq_some_iff.mp h
      obtain ⟨rfl, rfl⟩ := Prod.mk.inj heq
      intro report hmem
      rcases List.mem_cons.mp hmem with rfl | hmem
      · simpa using herr
      · exact ih h₁ report hmem

/-! ## One receive -/

theorem receiveBytes_spec (st : EngineState) {bytes : Bytes}
    (hfit : st.ingress.rest.length + bytes.length ≤ maxIngressBytes) :
    Received config st (st.ingress.rest ++ bytes) (.incomplete none)
      (st.receiveBytes config bytes) :=
  receiveLoop_spec st bytes _ hfit (Nat.lt_succ_self _)

theorem receiveBytes_overflow (st : EngineState) {bytes : Bytes}
    (h : maxIngressBytes < st.ingress.rest.length + bytes.length) :
    (st.receiveBytes config bytes).2 = .error .bufferTooSmall := by
  unfold receiveBytes receiveLoop
  rw [st.ingress.feed_overflow config.integrity h]

/-- A receive without an error fits, and has handled every event of the stream. -/
theorem receiveBytes_ok {st : EngineState} {bytes : Bytes}
    (h : (st.receiveBytes config bytes).2.isError = false) :
    st.ingress.rest.length + bytes.length ≤ maxIngressBytes ∧
    ∃ st' reports ingress,
      st.handleEvents config ((wireScanner maxIngressBytes config.integrity).scan
        (st.ingress.rest ++ bytes)).1 = some (st', reports) ∧
      ingress.bytes = ((wireScanner maxIngressBytes config.integrity).scan
        (st.ingress.rest ++ bytes)).2 ∧ ingress.pendingConsume = 0 ∧
      (st.receiveBytes config bytes).1 = st'.withIngress ingress ∧
      (st.receiveBytes config bytes).2.kind = (reports.getLast?.getD (.incomplete none)).kind := by
  rcases Nat.lt_or_ge maxIngressBytes (st.ingress.rest.length + bytes.length) with hover | hfit
  · rw [st.receiveBytes_overflow hover] at h
    cases h
  · refine ⟨hfit, ?_⟩
    have hspec : Received config st _ _ (st.receiveBytes config bytes) := st.receiveBytes_spec hfit
    generalize st.receiveBytes config bytes = result at h hspec ⊢
    rcases hspec with ⟨-, herr⟩ | ⟨st', reports, ingress, last, hsome, hbytes, hpend, hkind⟩
    · rw [herr] at h
      cases h
    · exact ⟨st', reports, ingress, hsome, hbytes, hpend, rfl, hkind⟩

/-- Handling every event of a stream that fits is a receive without an error. -/
theorem receiveBytes_of_handleEvents {st st' : EngineState} {bytes : Bytes}
    {reports : List ReceiveReport}
    (hfit : st.ingress.rest.length + bytes.length ≤ maxIngressBytes)
    (h : st.handleEvents config ((wireScanner maxIngressBytes config.integrity).scan
      (st.ingress.rest ++ bytes)).1 = some (st', reports)) :
    (st.receiveBytes config bytes).2.isError = false := by
  have hspec : Received config st _ _ (st.receiveBytes config bytes) := st.receiveBytes_spec hfit
  generalize st.receiveBytes config bytes = result at hspec ⊢
  rcases hspec with ⟨hnone, -⟩ | ⟨st₁, reports₁, ingress, last, hsome, -, -, hkind⟩
  · rw [hnone] at h
    cases h
  · rw [ReceiveReport.isError_of_kind_eq hkind]
    cases hl : reports₁.getLast? with
    | none => rfl
    | some r => exact handleEvents_reports hsome r (List.mem_of_getLast? hl)

/-- **A receive may be cut anywhere.** -/
theorem receiveBytes_append {st : EngineState} {a b : Bytes}
    (h : (st.receiveBytes config (a ++ b)).2.isError = false) :
    (st.receiveBytes config a).2.isError = false ∧
    ((st.receiveBytes config a).1.receiveBytes config b).2.isError = false ∧
    ((st.receiveBytes config a).1.receiveBytes config b).1 =
      (st.receiveBytes config (a ++ b)).1 := by
  obtain ⟨hfit, st', reports, ingress, hsome, hbytes, hpend, hstate, -⟩ := receiveBytes_ok h
  rw [← List.append_assoc, Scanner.scan_append] at hsome hbytes
  rw [handleEvents_append] at hsome
  obtain ⟨⟨st₁, reports₁⟩, hfirst, hrest⟩ := Option.bind_eq_some_iff.mp hsome
  obtain ⟨⟨st₂, reports₂⟩, hsecond, heq⟩ := Option.map_eq_some_iff.mp hrest
  obtain ⟨rfl, rfl⟩ := Prod.mk.inj heq
  rw [List.length_append] at hfit
  -- the first cut handles the events of its own scan
  have hok₁ := receiveBytes_of_handleEvents (by omega) hfirst
  obtain ⟨-, _, _, i₁, hsome₁, hbytes₁, hpend₁, hstate₁, -⟩ := receiveBytes_ok hok₁
  rw [hfirst] at hsome₁
  obtain ⟨rfl, -⟩ := Prod.mk.inj (Option.some.inj hsome₁)
  have hrest₁ : (st₁.withIngress i₁).ingress.rest =
      ((wireScanner maxIngressBytes config.integrity).scan (st.ingress.rest ++ a)).2 := by
    rw [← hbytes₁]
    exact StreamingDecoder.rest_of_no_pending hpend₁
  have hshort : ((wireScanner maxIngressBytes config.integrity).scan
      (st.ingress.rest ++ a)).2.length ≤ _ := Scanner.length_scan_snd_le _
  rw [List.length_append] at hshort
  -- the second cut starts with what the first one left
  have hsecond' : (st₁.withIngress i₁).handleEvents config
      ((wireScanner maxIngressBytes config.integrity).scan
        ((st₁.withIngress i₁).ingress.rest ++ b)).1 = some (st₂.withIngress i₁, reports₂) := by
    rw [hrest₁, handleEvents_withIngress, hsecond]
    rfl
  have hok₂ := receiveBytes_of_handleEvents (by rw [hrest₁]; omega) hsecond'
  obtain ⟨-, _, _, i₂, hsome₂, hbytes₂, hpend₂, hstate₂, -⟩ := receiveBytes_ok hok₂
  rw [hsecond'] at hsome₂
  obtain ⟨rfl, -⟩ := Prod.mk.inj (Option.some.inj hsome₂)
  rw [hrest₁] at hbytes₂
  refine ⟨hok₁, by rw [hstate₁]; exact hok₂, ?_⟩
  rw [hstate₁, hstate₂, hstate,
    StreamingDecoder.eq_of_bytes (hbytes₂.trans hbytes.symm) (hpend₂.trans hpend.symm)]
  rfl

/-! ## Chunk after chunk -/

variable (config) in
/-- One receive per chunk; `none` once one reports an error. -/
def receiveAll : EngineState → List Bytes → Option EngineState
  | st, [] => some st
  | st, chunk :: chunks =>
    if (st.receiveBytes config chunk).2.isError then none
    else receiveAll (st.receiveBytes config chunk).1 chunks

/-- Nothing is deferred, and the buffered bytes need more input. -/
structure Settled (config : EngineConfig) (st : EngineState) : Prop where
  pending : st.ingress.pendingConsume = 0
  waiting : (wireScanner maxIngressBytes config.integrity).step st.ingress.rest = none

theorem Settled.of_scan {st : EngineState} {ingress : StreamingDecoder maxIngressBytes}
    {stream : Bytes}
    (hbytes : ingress.bytes = ((wireScanner maxIngressBytes config.integrity).scan stream).2)
    (hpend : ingress.pendingConsume = 0) : Settled config (st.withIngress ingress) where
  pending := hpend
  waiting := by
    show (wireScanner maxIngressBytes config.integrity).step ingress.rest = none
    rw [StreamingDecoder.rest_of_no_pending hpend, hbytes]
    exact Scanner.step_scan_snd stream

/-- Every receive without an error settles the engine. -/
theorem settled_receiveBytes {st : EngineState} {bytes : Bytes}
    (h : (st.receiveBytes config bytes).2.isError = false) :
    Settled config (st.receiveBytes config bytes).1 := by
  obtain ⟨-, st', reports, ingress, -, hbytes, hpend, hstate, -⟩ := receiveBytes_ok h
  rw [hstate]
  exact .of_scan hbytes hpend

theorem receiveAll_spec {st st' : EngineState} {chunks : List Bytes} (hs : Settled config st)
    (h : receiveAll config st chunks = some st') :
    ∃ st₁ reports ingress,
      st.handleEvents config ((wireScanner maxIngressBytes config.integrity).scanChunks
        st.ingress.rest chunks).1 = some (st₁, reports) ∧
      ingress.bytes = ((wireScanner maxIngressBytes config.integrity).scanChunks
        st.ingress.rest chunks).2 ∧ ingress.pendingConsume = 0 ∧
      st' = st₁.withIngress ingress := by
  induction chunks generalizing st with
  | nil =>
    obtain rfl := Option.some.inj h
    exact ⟨st, [], st.ingress, rfl, (StreamingDecoder.rest_of_no_pending hs.pending).symm,
      hs.pending, rfl⟩
  | cons chunk chunks ih =>
    unfold receiveAll at h
    split at h
    · cases h
    · rename_i herr
      have hok : (st.receiveBytes config chunk).2.isError = false := by simpa using herr
      obtain ⟨-, st₁, reports₁, i₁, hsome, hbytes, hpend, hstate, -⟩ := receiveBytes_ok hok
      obtain ⟨st₂, reports₂, i₂, hsome₂, hbytes₂, hpend₂, rfl⟩ := ih (settled_receiveBytes hok) h
      have hrest : (st₁.withIngress i₁).ingress.rest = ((wireScanner maxIngressBytes
          config.integrity).scan (st.ingress.rest ++ chunk)).2 := by
        rw [← hbytes]
        exact StreamingDecoder.rest_of_no_pending hpend
      rw [hstate, hrest, handleEvents_withIngress] at hsome₂
      rw [hstate, hrest] at hbytes₂
      obtain ⟨⟨st₃, reports₃⟩, hsome₃, heq⟩ := Option.map_eq_some_iff.mp hsome₂
      obtain ⟨rfl, rfl⟩ := Prod.mk.inj heq
      refine ⟨st₃, reports₁ ++ reports₃, i₂, ?_, hbytes₂, hpend₂, rfl⟩
      rw [Scanner.scanChunks, handleEvents_append, hsome, Option.bind_some, hsome₃]
      rfl

/-- Two cuts of one stream leave the same state. -/
theorem receiveAll_unique {st st₁ st₂ : EngineState} {chunks chunks' : List Bytes}
    (hs : Settled config st) (hflat : chunks.flatten = chunks'.flatten)
    (h₁ : receiveAll config st chunks = some st₁) (h₂ : receiveAll config st chunks' = some st₂) :
    st₁ = st₂ := by
  obtain ⟨sta, _, ia, hsa, hba, hpa, rfl⟩ := receiveAll_spec hs h₁
  obtain ⟨stb, _, ib, hsb, hbb, hpb, rfl⟩ := receiveAll_spec hs h₂
  rw [Scanner.scanChunks_eq hs.waiting] at hsa hba hsb hbb
  rw [hflat, hsb] at hsa
  obtain ⟨rfl, -⟩ := Prod.mk.inj (Option.some.inj hsa)
  rw [hflat, ← hbb] at hba
  rw [StreamingDecoder.eq_of_bytes hba (hpa.trans hpb.symm)]

end EngineState

/-! ## Runs without an error report -/

theorem EngineState.settled_new (config : EngineConfig) (id : MessageId) :
    EngineState.Settled config (.new id) := ⟨rfl, rfl⟩

theorem EngineState.Settled.of_ingress {config : EngineConfig} {st st' : EngineState}
    (h : EngineState.Settled config st) (hi : st'.ingress = st.ingress) :
    EngineState.Settled config st' := ⟨by rw [hi]; exact h.pending, by rw [hi]; exact h.waiting⟩

theorem EngineRun.settled {config : EngineConfig} {calls : List Call} {st : EngineState}
    (h : EngineRun config (fun st op => op.receiveFails config st = false) calls st) :
    EngineState.Settled config st := by
  induction h with
  | new => exact EngineState.settled_new _ _
  | @step _ st op _ hok ih =>
    cases op with
    | send message => exact ih.of_ingress (st.sendFragmentedMessage_frame .data message).ingress
    | sendLog message => exact ih.of_ingress (st.sendFragmentedMessage_frame .log message).ingress
    | sendPing => exact ih.of_ingress (st.queueLiveness_frame .ping .newData).ingress
    | poll nowMs txLen => exact ih.of_ingress (st.poll_frame nowMs txLen).ingress
    | receive bytes => exact EngineState.settled_receiveBytes hok

/-- **Receiving does not depend on how the byte stream is cut.**  In every state reached without an
error report, a receive of `a ++ b` without an error may be made in two, and any two ways of cutting
one stream into receives without an error lead to the same state. -/
theorem receive_independent_of_cuts {config : EngineConfig} {calls : List Call} {st : EngineState}
    (hrun : EngineRun config (fun st op => op.receiveFails config st = false) calls st) :
    (∀ a b, (st.receiveBytes config (a ++ b)).2.isError = false →
      (st.receiveBytes config a).2.isError = false ∧
      ((st.receiveBytes config a).1.receiveBytes config b).2.isError = false ∧
      ((st.receiveBytes config a).1.receiveBytes config b).1 =
        (st.receiveBytes config (a ++ b)).1) ∧
    (∀ chunks chunks' st₁ st₂, chunks.flatten = chunks'.flatten →
      st.receiveAll config chunks = some st₁ → st.receiveAll config chunks' = some st₂ →
      st₁ = st₂) :=
  ⟨fun _ _ h => EngineState.receiveBytes_append h,
    fun _ _ _ _ hflat h₁ h₂ => EngineState.receiveAll_unique hrun.settled hflat h₁ h₂⟩

/-- A PING cut inside its header, on a fresh engine. -/
theorem receive_independent_of_cuts_ping :
    let config := EngineConfig.default
    let st := EngineState.new config.initialMessageId
    let a : Bytes := [0x7f, 0xa5, 0x01]
    let b := (envelope config.integrity [PacketType.ping.code]).drop 2
    (st.receiveBytes config (a ++ b)).2 = .ping ∧
      ((st.receiveBytes config a).1.receiveBytes config b).1 =
        (st.receiveBytes config (a ++ b)).1 := by
  have hping : ((EngineState.new EngineConfig.default.initialMessageId).receiveBytes
      EngineConfig.default ([0x7f, 0xa5, 0x01] ++
        (envelope EngineConfig.default.integrity [PacketType.ping.code]).drop 2)).2 = .ping := by
    decide +kernel
  refine ⟨hping, ((receive_independent_of_cuts .new).1 _ _ ?_).2.2⟩
  rw [hping]
  rfl

end Msrt
