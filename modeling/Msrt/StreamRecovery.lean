import Msrt.WireStream
import Msrt.PacketFormat

/-! # Recovering envelopes from a noisy stream

An envelope at the front of the stream is one event of the scan, whatever follows it
(`scan_envelope`); noise in which no magic is followed by a valid header is skipped without an
event (`scan_quiet`), also where a false header reaches into the envelope behind it.  So the
decoder returns the packets of a stream's envelopes, in order and nothing else.

The decoder is driven as its users drive it: `feedUntilNeedMore` hands it a chunk and then empty
input until it asks for more.
-/

namespace Msrt

/-! ## Envelopes at the front of a stream -/

section Envelope
variable {capacity : Nat} {integrity : IntegrityConfig} {packet : Bytes}

theorem toNat_packetLen (hp : packet.length ≤ maxPacketLen) :
    (UInt8.ofNat packet.length).toNat = packet.length := by
  rw [UInt8.toNat_ofNat']
  unfold maxPacketLen at hp
  omega

theorem length_envelope (integrity : IntegrityConfig) (packet : Bytes) :
    (envelope integrity packet).length = wireHeaderLen + packet.length + integrity.tagLen := by
  simp only [envelope, List.length_append, List.length_cons, IntegrityConfig.length_sealTag,
    wireHeaderLen_eq]
  omega

theorem candidateLen_envelope (hp : packet.length ≤ maxPacketLen) :
    candidateLen integrity (UInt8.ofNat packet.length) = (envelope integrity packet).length := by
  rw [candidateLen, toNat_packetLen hp, length_envelope]

theorem envelope_append (integrity : IntegrityConfig) (packet rest : Bytes) :
    envelope integrity packet ++ rest = envelopeMagic :: UInt8.ofNat packet.length ::
      headerCrc (UInt8.ofNat packet.length) :: (packet ++ integrity.sealTag (envelopeMagic ::
        UInt8.ofNat packet.length :: headerCrc (UInt8.ofNat packet.length) :: packet) ++ rest) := by
  simp [envelope, EnvelopeHeader.new]

theorem headerAccepted_envelope (hp : packet.length ≤ maxPacketLen)
    (hcap : (envelope integrity packet).length ≤ capacity) :
    headerAccepted capacity integrity (UInt8.ofNat packet.length)
      (headerCrc (UInt8.ofNat packet.length)) = true := by
  simp [headerAccepted, candidateLen_envelope hp, hcap]

theorem candidatePacket_envelope (hp : packet.length ≤ maxPacketLen) (rest : Bytes) :
    candidatePacket (UInt8.ofNat packet.length) (envelope integrity packet ++ rest) = packet := by
  rw [candidatePacket, toNat_packetLen hp, envelope_append]
  simp [wireHeaderLen_eq]

/-- The bytes the tag covers. -/
def authenticatedBytes (packet : Bytes) : Bytes :=
  envelopeMagic :: UInt8.ofNat packet.length :: headerCrc (UInt8.ofNat packet.length) :: packet

theorem envelope_eq (integrity : IntegrityConfig) (packet : Bytes) :
    envelope integrity packet =
      authenticatedBytes packet ++ integrity.sealTag (authenticatedBytes packet) := rfl

theorem candidateVerified_envelope (hp : packet.length ≤ maxPacketLen) (rest : Bytes) :
    candidateVerified integrity (UInt8.ofNat packet.length) (envelope integrity packet ++ rest) =
      true := by
  have hcut : candidateLen integrity (UInt8.ofNat packet.length) - integrity.tagLen =
      (authenticatedBytes packet).length := by
    rw [candidateLen_envelope hp, envelope_eq, List.length_append, IntegrityConfig.length_sealTag]
    omega
  unfold candidateVerified
  rw [hcut, candidateLen_envelope hp, List.take_left' rfl, envelope_eq, List.append_assoc,
    List.take_left' rfl, List.drop_left' rfl]
  exact integrity.verify_sealTag _

/-- An envelope at the front of the buffer is answered with its packet. -/
theorem classify_envelope (hp : packet.length ≤ maxPacketLen)
    (hcap : (envelope integrity packet).length ≤ capacity) (rest : Bytes) :
    classify capacity integrity (envelope integrity packet ++ rest) =
      .packet packet (envelope integrity packet).length := by
  rw [StreamingDecoder.classify_candidate capacity integrity (envelope_append integrity packet rest),
    headerAccepted_envelope hp hcap, candidateLen_envelope hp, candidateVerified_envelope hp,
    candidatePacket_envelope hp]
  simp

/-- **An envelope at the front of the stream is one event, whatever follows it.** -/
theorem scan_envelope (hp : packet.length ≤ maxPacketLen)
    (hcap : (envelope integrity packet).length ≤ capacity) (rest : Bytes) :
    (wireScanner capacity integrity).scan (envelope integrity packet ++ rest) =
      (.packet packet :: ((wireScanner capacity integrity).scan rest).1,
        ((wireScanner capacity integrity).scan rest).2) := by
  obtain ⟨-, -, hscan⟩ := scansAs_classify (classify_envelope hp hcap rest) (by simp)
  rw [hscan]
  show ([WireEvent.packet packet] ++ ((wireScanner capacity integrity).scan
      ((envelope integrity packet ++ rest).drop (envelope integrity packet).length)).1, _) = _
  rw [StreamDecodeOutcome.taken, List.drop_left' rfl]
  rfl

end Envelope

/-! ## Noise -/

section Noise
variable {capacity : Nat} {integrity : IntegrityConfig}

/-- No magic in `noise` is followed by a length byte and its checksum; the two following bytes may
belong to what stands behind the noise. -/
def NoFalseHeader (noise behind : Bytes) : Prop :=
  ∀ j < noise.length, ∀ packetLen crc, (noise ++ behind)[j]? = some envelopeMagic →
    (noise ++ behind)[j + 1]? = some packetLen → (noise ++ behind)[j + 2]? = some crc →
    crc ≠ headerCrc packetLen

/-- A magic stands at `j`, with a length byte and its checksum behind it. -/
def hasHeaderAt (s : Bytes) (j : Nat) : Bool :=
  s[j]? == some envelopeMagic && s[j + 1]?.any fun packetLen => s[j + 2]? == some (headerCrc packetLen)

theorem noFalseHeader_iff {noise behind : Bytes} : NoFalseHeader noise behind ↔
    ((List.range noise.length).any (hasHeaderAt (noise ++ behind))) = false := by
  rw [List.any_eq_false]
  constructor
  · intro h j hj hheader
    rw [hasHeaderAt, Bool.and_eq_true, beq_iff_eq, Option.any_eq_true] at hheader
    obtain ⟨hm, packetLen, hl, hc⟩ := hheader
    exact h j (List.mem_range.mp hj) packetLen _ hm hl (beq_iff_eq.mp hc) rfl
  · intro h j hj packetLen crc hm hl hc hcrc
    apply h j (List.mem_range.mpr hj)
    rw [hasHeaderAt, Bool.and_eq_true, beq_iff_eq, Option.any_eq_true]
    exact ⟨hm, packetLen, hl, beq_iff_eq.mpr (hcrc ▸ hc)⟩

instance (noise behind : Bytes) : Decidable (NoFalseHeader noise behind) :=
  decidable_of_iff _ noFalseHeader_iff.symm

theorem NoFalseHeader.tail {b : UInt8} {noise behind : Bytes}
    (h : NoFalseHeader (b :: noise) behind) : NoFalseHeader noise behind := by
  intro j hj packetLen crc hm hl hc
  exact h (j + 1) (by simpa using hj) packetLen crc (by simpa using hm) (by simpa using hl)
    (by simpa using hc)

theorem NoFalseHeader.rejected {noise behind rest : Bytes} {packetLen crc : UInt8}
    (h : NoFalseHeader (envelopeMagic :: noise) behind)
    (hrest : noise ++ behind = packetLen :: crc :: rest) :
    headerAccepted capacity integrity packetLen crc = false := by
  have hne := h 0 (by simp) packetLen crc (by simp) (by simp [hrest]) (by simp [hrest])
  simp [headerAccepted, hne]

/-- Quiet noise before something of at least two bytes is skipped. -/
theorem scan_quiet {noise behind : Bytes} (h : NoFalseHeader noise behind)
    (hb : 2 ≤ behind.length) :
    ((wireScanner capacity integrity).scan (noise ++ behind)).1 =
      List.replicate noise.length .noise ++
        ((wireScanner capacity integrity).scan behind).1 := by
  induction noise with
  | nil => rfl
  | cons b noise ih =>
    by_cases hm : b = envelopeMagic
    · subst hm
      -- the two bytes behind the false magic exist, and their checksum is wrong
      obtain ⟨packetLen, crc, rest, hrest⟩ :
          ∃ packetLen crc rest, noise ++ behind = packetLen :: crc :: rest := by
        match hs : noise ++ behind with
        | [] => simp [List.append_eq_nil_iff.mp hs] at hb
        | [x] =>
          have := congrArg List.length hs
          simp at this
          omega
        | packetLen :: crc :: rest => exact ⟨packetLen, crc, rest, rfl⟩
      rw [List.cons_append, hrest, scan_rejected rest (h.rejected hrest), ← hrest, ih h.tail]
      rfl
    · rw [List.cons_append, scan_noise hm, ih h.tail]
      rfl

/-- Quiet noise at the end of the stream is noise only. -/
theorem scan_quiet_end {noise : Bytes} (h : NoFalseHeader noise []) :
    ∀ event ∈ ((wireScanner capacity integrity).scan noise).1, event = .noise := by
  induction noise with
  | nil =>
    rw [Scanner.scan_of_none (show (wireScanner capacity integrity).step [] = none from rfl)]
    simp
  | cons b noise ih =>
    by_cases hm : b = envelopeMagic
    · subst hm
      match noise, h, ih with
      | [], _, _ => rw [Scanner.scan_of_none (classify_needMore rfl)]; simp
      | [_], _, _ => rw [Scanner.scan_of_none (classify_needMore rfl)]; simp
      | packetLen :: crc :: rest, h, ih =>
        rw [scan_rejected rest (h.rejected (List.append_nil _))]
        simpa using ih h.tail
    · rw [scan_noise hm]
      simpa using ih h.tail

end Noise

/-! ## Driving the decoder -/

/-- The packet an answer reports. -/
def StreamDecodeOutcome.packetBytes? : StreamDecodeOutcome → Option Bytes
  | .packet packetBytes _ => some packetBytes
  | _ => none

/-- The packet an event carries. -/
def WireEvent.packetBytes? : WireEvent → Option Bytes
  | .packet packetBytes => some packetBytes
  | .corrupted | .noise => none

namespace StreamingDecoder
variable {capacity : Nat} (integrity : IntegrityConfig)

/-- Feeds `input` and then nothing until the decoder asks for more; `none` on an error. -/
def drainLoop : Nat → StreamingDecoder capacity → Bytes →
    Option (StreamingDecoder capacity × List StreamDecodeOutcome)
  | 0, _, _ => none
  | fuel + 1, d, input =>
    match d.feed input integrity with
    | (_, .error _) => none
    | (d, .ok (.needMore _)) => some (d, [])
    | (d, .ok outcome) => (drainLoop fuel d []).map (fun r => (r.1, outcome :: r.2))

/-- One chunk, until the decoder asks for more. -/
def feedUntilNeedMore (d : StreamingDecoder capacity) (chunk : Bytes) :
    Option (StreamingDecoder capacity × List StreamDecodeOutcome) :=
  drainLoop integrity (d.rest.length + chunk.length + 1) d chunk

/-- Chunk after chunk. -/
def feedChunks : StreamingDecoder capacity → List Bytes →
    Option (StreamingDecoder capacity × List StreamDecodeOutcome)
  | d, [] => some (d, [])
  | d, chunk :: chunks => do
    let fed ← d.feedUntilNeedMore integrity chunk
    let tail ← feedChunks fed.1 chunks
    return (tail.1, fed.2 ++ tail.2)

/-- No chunk exceeds the capacity that is free when it is fed. -/
def ChunksFit : StreamingDecoder capacity → List Bytes → Prop
  | _, [] => True
  | d, chunk :: chunks => chunk.length ≤ capacity - d.rest.length ∧
    ∀ d' outcomes, d.feedUntilNeedMore integrity chunk = some (d', outcomes) → ChunksFit d' chunks

variable {integrity}

theorem drainLoop_needMore {fuel : Nat} {d d' : StreamingDecoder capacity} {input : Bytes}
    {needed : Option Nat} (h : d.feed input integrity = (d', .ok (.needMore needed))) :
    drainLoop integrity (fuel + 1) d input = some (d', []) := by
  rw [drainLoop, h]

theorem drainLoop_next {fuel : Nat} {d d' : StreamingDecoder capacity} {input : Bytes}
    {outcome : StreamDecodeOutcome} (h : d.feed input integrity = (d', .ok outcome))
    (hw : ∀ needed, outcome ≠ .needMore needed) :
    drainLoop integrity (fuel + 1) d input =
      (drainLoop integrity fuel d' []).map (fun r => (r.1, outcome :: r.2)) := by
  rw [drainLoop, h]
  cases outcome with
  | needMore needed => exact absurd rfl (hw needed)
  | packet | noise | corrupted | resync => rfl

variable (integrity) in
/-- Draining a chunk that fits is scanning it: it always ends with the decoder asking for more. -/
theorem drainLoop_spec {fuel : Nat} (d : StreamingDecoder capacity) (input : Bytes)
    (hfit : d.rest.length + input.length ≤ capacity)
    (hfuel : d.rest.length + input.length < fuel) :
    ∃ d' outcomes, drainLoop integrity fuel d input = some (d', outcomes) ∧
      outcomes.flatMap StreamDecodeOutcome.events =
        ((wireScanner capacity integrity).scan (d.rest ++ input)).1 ∧
      d'.rest = ((wireScanner capacity integrity).scan (d.rest ++ input)).2 := by
  -- the unaccounted bytes shrink with every answer, so the induction follows the fuel
  induction fuel generalizing d input with
  | zero => omega
  | succ fuel ih =>
    obtain ⟨d', outcome, hfeed, hdec⟩ := d.feed_spec integrity hfit
    by_cases hw : ∃ needed, outcome = .needMore needed
    · obtain ⟨needed, rfl⟩ := hw
      have hscan := Scanner.scan_of_none (classify_needMore hdec.outcome_eq.symm)
      obtain ⟨hbytes, hpending⟩ := hdec.waits rfl
      refine ⟨d', [], drainLoop_needMore hfeed, by rw [hscan]; rfl, ?_⟩
      rw [hscan, rest_of_no_pending hpending, hbytes]
    · have hw' : ∀ needed, outcome ≠ .needMore needed := fun needed h => hw ⟨needed, h⟩
      obtain ⟨hpos, hle, hscan⟩ := scansAs_classify hdec.outcome_eq.symm hw'
      have hrest : d'.rest.length + outcome.taken = d.rest.length + input.length := by
        rw [hdec.rest_eq, List.length_drop, ← List.length_append]
        omega
      obtain ⟨d'', outcomes, hloop, hevents, hrest'⟩ :=
        ih d' [] (by simp; omega) (by simp; omega)
      rw [List.append_nil, hdec.rest_eq] at hevents hrest'
      refine ⟨d'', outcome :: outcomes, ?_, ?_, ?_⟩
      · rw [drainLoop_next hfeed hw', hloop]
        rfl
      · rw [List.flatMap_cons, hevents, hscan]
      · rw [hrest', hscan]

theorem feedChunks_spec {d : StreamingDecoder capacity} {chunks : List Bytes}
    (hfit : ChunksFit integrity d chunks) :
    ∃ d' outcomes, feedChunks integrity d chunks = some (d', outcomes) ∧
      (outcomes.flatMap StreamDecodeOutcome.events, d'.rest) =
        (wireScanner capacity integrity).scanChunks d.rest chunks := by
  induction chunks generalizing d with
  | nil => exact ⟨d, [], rfl, rfl⟩
  | cons chunk chunks ih =>
    obtain ⟨hroom, htail⟩ := hfit
    have hle := d.rest_length_le
    obtain ⟨d₁, first, hfed, hevents, hrest⟩ := drainLoop_spec integrity d chunk
      (by omega) (Nat.lt_succ_self _)
    obtain ⟨d₂, others, hfed', hscan⟩ := ih (htail d₁ first hfed)
    refine ⟨d₂, first ++ others, ?_, ?_⟩
    · rw [feedChunks, feedUntilNeedMore, hfed, Option.bind_eq_bind, Option.bind_some, hfed']
      rfl
    · rw [Scanner.scanChunks, ← hrest, ← hevents, ← hscan, List.flatMap_append]

/-- Chunks that fit the free capacity together fit it one after the other. -/
theorem chunksFit_of_length {d : StreamingDecoder capacity} {chunks : List Bytes}
    (h : d.rest.length + chunks.flatten.length ≤ capacity) : ChunksFit integrity d chunks := by
  induction chunks generalizing d with
  | nil => trivial
  | cons chunk chunks ih =>
    rw [List.flatten_cons, List.length_append] at h
    refine ⟨by omega, ?_⟩
    intro d' outcomes hfed
    obtain ⟨d₁, _, hdrained, -, hrest⟩ :=
      drainLoop_spec integrity d chunk (by omega) (Nat.lt_succ_self _)
    rw [feedUntilNeedMore, hdrained] at hfed
    obtain ⟨rfl, -⟩ := Prod.mk.inj (Option.some.inj hfed)
    apply ih
    -- what is kept of a chunk is no longer than what was there
    have hle := (wireScanner capacity integrity).length_scan_snd_le (d.rest ++ chunk)
    rw [← hrest, List.length_append] at hle
    omega

end StreamingDecoder

/-! ## Recovery -/

/-- The packet bytes inside an envelope. -/
def packetOfEnvelope (integrity : IntegrityConfig) (bytes : Bytes) : Bytes :=
  (bytes.drop wireHeaderLen).take (bytes.length - wireHeaderLen - integrity.tagLen)

/-- A stream of noise blocks and envelopes, with noise at its end. -/
def noisyStream : List (Bytes × Bytes) → Bytes → Bytes
  | [], last => last
  | (noise, bytes) :: segments, last => noise ++ (bytes ++ noisyStream segments last)

theorem packetOfEnvelope_envelope (integrity : IntegrityConfig) (packet : Bytes) :
    packetOfEnvelope integrity (envelope integrity packet) = packet := by
  have hlen : (envelope integrity packet).length - wireHeaderLen - integrity.tagLen =
      packet.length := by
    rw [length_envelope]
    omega
  rw [packetOfEnvelope, hlen, envelope_eq, authenticatedBytes]
  simp [wireHeaderLen_eq]

/-- No noise block of the stream holds a false header. -/
def QuietStream : List (Bytes × Bytes) → Bytes → Prop
  | [], last => NoFalseHeader last []
  | (noise, bytes) :: segments, last =>
    NoFalseHeader noise (bytes ++ noisyStream segments last) ∧ QuietStream segments last

instance decidableQuietStream :
    (segments : List (Bytes × Bytes)) → (last : Bytes) → Decidable (QuietStream segments last)
  | [], last => inferInstanceAs (Decidable (NoFalseHeader last []))
  | (noise, bytes) :: segments, last =>
    have := decidableQuietStream segments last
    inferInstanceAs (Decidable
      (NoFalseHeader noise (bytes ++ noisyStream segments last) ∧ QuietStream segments last))

section Recovery
variable {capacity : Nat} {integrity : IntegrityConfig}

/-- The events that are not noise. -/
def signals (events : List WireEvent) : List WireEvent := events.filter (fun e => !(e == .noise))

theorem signals_append (l l' : List WireEvent) : signals (l ++ l') = signals l ++ signals l' :=
  List.filter_append ..

theorem signals_eq_nil {l : List WireEvent} (h : ∀ event ∈ l, event = .noise) : signals l = [] := by
  rw [signals, List.filter_eq_nil_iff]
  intro event hevent
  simp [h event hevent]

/-- The scan of a quiet noisy stream reports the packets of its envelopes. -/
theorem scan_noisyStream (hcap : 274 ≤ capacity) {segments : List (Bytes × Bytes)} {last : Bytes}
    (henc : ∀ s ∈ segments, Encoded integrity s.2) (hquiet : QuietStream segments last) :
    signals ((wireScanner capacity integrity).scan (noisyStream segments last)).1 =
      segments.map (fun s => .packet (packetOfEnvelope integrity s.2)) := by
  induction segments with
  | nil => exact signals_eq_nil (scan_quiet_end hquiet)
  | cons segment segments ih =>
    obtain ⟨noise, bytes⟩ := segment
    obtain ⟨hnoise, htail⟩ := hquiet
    obtain ⟨packet, rfl, hlen⟩ := (henc _ List.mem_cons_self).eq_envelope
    have hfits : (envelope integrity packet).length ≤ capacity := by
      have htag := integrity.tagLen_le
      unfold maxPacketLen at hlen
      rw [length_envelope, wireHeaderLen_eq]
      omega
    have hlong : 2 ≤ (envelope integrity packet ++ noisyStream segments last).length := by
      rw [List.length_append, length_envelope, wireHeaderLen_eq]
      omega
    have hskip : signals (List.replicate noise.length .noise) = [] :=
      signals_eq_nil (fun event h => List.eq_of_mem_replicate h)
    rw [noisyStream, scan_quiet hnoise hlong, signals_append, hskip, scan_envelope hlen hfits,
      List.nil_append, List.map_cons, packetOfEnvelope_envelope,
      ← ih (fun s hs => henc s (List.mem_cons_of_mem _ hs)) htail]
    rfl

theorem filterMap_packetBytes?_events (outcomes : List StreamDecodeOutcome) :
    (signals (outcomes.flatMap StreamDecodeOutcome.events)).filterMap WireEvent.packetBytes? =
      outcomes.filterMap StreamDecodeOutcome.packetBytes? := by
  induction outcomes with
  | nil => rfl
  | cons outcome outcomes ih =>
    have hnoise : ∀ n, signals (List.replicate n .noise) = [] := fun n =>
      signals_eq_nil (fun event h => List.eq_of_mem_replicate h)
    rw [List.flatMap_cons, signals_append, List.filterMap_append, ih]
    cases outcome with
    | noise n | resync n =>
      rw [StreamDecodeOutcome.events, hnoise]
      rfl
    | needMore | packet | corrupted => rfl

/-- **Every envelope of a noisy stream is recovered, in order, and nothing else.**  The noise holds
no false header, and the stream arrives in chunks that fit the decoder's free capacity. -/
theorem envelopes_recovered (integrity : IntegrityConfig) {capacity : Nat} (hcap : 274 ≤ capacity)
    (segments : List (Bytes × Bytes)) (last : Bytes)
    (henc : ∀ s ∈ segments, Encoded integrity s.2) (hquiet : QuietStream segments last)
    (chunks : List Bytes) (hstream : chunks.flatten = noisyStream segments last)
    (hfit : StreamingDecoder.ChunksFit integrity (.new : StreamingDecoder capacity) chunks) :
    ∃ d outcomes,
      StreamingDecoder.feedChunks integrity (.new : StreamingDecoder capacity) chunks =
        some (d, outcomes) ∧
      outcomes.filterMap StreamDecodeOutcome.packetBytes? =
        segments.map (fun s => packetOfEnvelope integrity s.2) ∧
      ∀ consumed, StreamDecodeOutcome.corrupted consumed ∉ outcomes := by
  obtain ⟨d, outcomes, hfed, hscan⟩ := StreamingDecoder.feedChunks_spec hfit
  have hevents : signals (outcomes.flatMap StreamDecodeOutcome.events) =
      segments.map (fun s => .packet (packetOfEnvelope integrity s.2)) := by
    rw [Scanner.scanChunks_eq rfl, hstream] at hscan
    rw [← scan_noisyStream hcap henc hquiet]
    exact congrArg (fun r => signals r.1) hscan
  refine ⟨d, outcomes, hfed, ?_, ?_⟩
  · rw [← filterMap_packetBytes?_events, hevents, List.filterMap_map]
    exact congrFun List.filterMap_eq_map' segments
  · intro consumed hmem
    have hcorrupt : WireEvent.corrupted ∈
        signals (outcomes.flatMap StreamDecodeOutcome.events) :=
      List.mem_filter.mpr
        ⟨List.mem_flatMap.mpr ⟨_, hmem, List.mem_singleton.mpr rfl⟩, rfl⟩
    rw [hevents] at hcorrupt
    obtain ⟨s, -, hs⟩ := List.mem_map.mp hcorrupt
    cases hs

/-- A PING behind a noise byte, and a DATA packet behind a magic with a wrong header and a magic right in
front of the envelope. -/
def twoSegments : List (Bytes × Bytes) :=
  [([0x00], envelope .crc16 [PacketType.ping.code]),
    ([envelopeMagic, 0x01, 0x00, envelopeMagic],
      envelope .crc16 (dataPacketBytes ⟨.ackEliciting, 1, 0, 2, 0⟩ [7, 8]))]

/-- The stream of these segments with a magic at its end, cut inside the first envelope, inside the false
header and inside the second envelope. -/
def twoSegmentChunks : List Bytes :=
  let stream := noisyStream twoSegments [envelopeMagic]
  [stream.take 4, (stream.take 9).drop 4, (stream.take 20).drop 9, stream.drop 20]

/-- Both packets are recovered in order. -/
theorem envelopes_recovered_two :
    ∃ d outcomes,
      StreamingDecoder.feedChunks .crc16 (.new : StreamingDecoder maxIngressBytes) twoSegmentChunks =
        some (d, outcomes) ∧
      outcomes.filterMap StreamDecodeOutcome.packetBytes? =
        [[PacketType.ping.code], dataPacketBytes ⟨.ackEliciting, 1, 0, 2, 0⟩ [7, 8]] ∧
      ∀ consumed, StreamDecodeOutcome.corrupted consumed ∉ outcomes := by
  have hfit : StreamingDecoder.ChunksFit .crc16 (.new : StreamingDecoder maxIngressBytes)
      twoSegmentChunks := StreamingDecoder.chunksFit_of_length (by decide +kernel)
  have henc : ∀ s ∈ twoSegments, Encoded .crc16 s.2 := by
    have hdata : encodeMessageFragment (PacketHeader.data 0 .ackEliciting 1 2 0) [7, 8] maxWireBytes
        .crc16 = .ok (envelope .crc16 (dataPacketBytes ⟨.ackEliciting, 1, 0, 2, 0⟩ [7, 8])) :=
      encodeMessageFragment_data (by decide) (by decide) (by decide) (by decide)
    intro s hs
    rcases List.mem_cons.mp hs with rfl | hs
    · exact .liveness (encodeLivenessPacket_ok .ping .crc16)
    · obtain rfl := List.mem_singleton.mp hs
      exact .fragment hdata
  obtain ⟨d, outcomes, hfed, hpackets, hclean⟩ := @envelopes_recovered .crc16 maxIngressBytes
    (by decide) twoSegments [envelopeMagic] henc (by decide +kernel) twoSegmentChunks
    (by decide +kernel) hfit
  refine ⟨d, outcomes, hfed, hpackets.trans ?_, hclean⟩
  simp only [twoSegments, List.map_cons, List.map_nil, packetOfEnvelope_envelope]

end Recovery

end Msrt
