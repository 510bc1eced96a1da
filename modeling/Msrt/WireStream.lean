import Msrt.StreamingDecoder
import Msrt.Scanner

/-! # The decoder reads a stream

`wireScanner` says what the decoder is for: it reads the byte stream from the front, drops one byte
where no envelope starts, and reports an envelope once all its bytes are there.  The decoder of
the program does the same in larger strides: it drops a run of noise at once and leaves a reported
envelope in its buffer until the next call.

The connection is `feed_spec`: a call of `feed` that fits the buffer answers `classify` of the
unaccounted bytes followed by the input, and leaves unaccounted what the answer does not take.  Each
answer is then a few steps of the scanner (`scan_of_classify_noise` and its siblings).
-/

namespace Msrt

/-- What is found along the stream; `noise` is one byte that starts no envelope. -/
inductive WireEvent where
  | packet (packetBytes : Bytes)
  | corrupted
  | noise
  deriving DecidableEq, Repr

section Classify
variable (capacity : Nat) (integrity : IntegrityConfig)

/-- Length of the candidate envelope whose header carries `packetLen`. -/
def candidateLen (packetLen : UInt8) : Nat := wireHeaderLen + packetLen.toNat + integrity.tagLen

/-- Whether the decoder takes a header as the start of an envelope. -/
def headerAccepted (packetLen crc : UInt8) : Bool :=
  crc == headerCrc packetLen && decide (candidateLen integrity packetLen ≤ capacity)

/-- Whether the complete candidate at the front of `s` carries a valid tag. -/
def candidateVerified (packetLen : UInt8) (s : Bytes) : Bool :=
  integrity.verify (s.take (candidateLen integrity packetLen - integrity.tagLen))
    ((s.take (candidateLen integrity packetLen)).drop
      (candidateLen integrity packetLen - integrity.tagLen))

/-- The packet of the complete candidate at the front of `s`. -/
def candidatePacket (packetLen : UInt8) (s : Bytes) : Bytes :=
  (s.drop wireHeaderLen).take packetLen.toNat

/-- Number of bytes before the first magic. -/
def noiseRun (s : Bytes) : Nat := (s.takeWhile (fun b => !(b == envelopeMagic))).length

/-- The answer of the decoder to a buffer that holds `s`. -/
def classify (s : Bytes) : StreamDecodeOutcome :=
  match s with
  | [] => .needMore none
  | magic :: tail =>
    if magic ≠ envelopeMagic then .noise (noiseRun s)
    else
      match tail with
      | packetLen :: crc :: _ =>
        if !headerAccepted capacity integrity packetLen crc then .resync 1
        else if s.length < candidateLen integrity packetLen then
          .needMore (some (candidateLen integrity packetLen - s.length))
        else if candidateVerified integrity packetLen s then
          .packet (candidatePacket packetLen s) (candidateLen integrity packetLen)
        else .corrupted (candidateLen integrity packetLen)
      | _ => .needMore (some (wireHeaderLen - s.length))

/-- The bytes an answer accounts for. -/
def StreamDecodeOutcome.taken : StreamDecodeOutcome → Nat
  | .needMore _ => 0
  | .packet _ consumed => consumed
  | .noise skipped => skipped
  | .corrupted consumed => consumed
  | .resync skipped => skipped

end Classify

/-! ## The decoder answers by `classify` -/

theorem noiseRun_cons_magic (s : Bytes) : noiseRun (envelopeMagic :: s) = 0 := by
  simp [noiseRun]

theorem noiseRun_cons_of_ne {b : UInt8} (hb : b ≠ envelopeMagic) (s : Bytes) :
    noiseRun (b :: s) = noiseRun s + 1 := by
  simp [noiseRun, hb]

theorem noiseRun_le (s : Bytes) : noiseRun s ≤ s.length :=
  (List.takeWhile_sublist _).length_le

theorem findMagic_eq (s : Bytes) :
    findMagic s = if noiseRun s < s.length then some (noiseRun s) else none := by
  induction s with
  | nil => rfl
  | cons b s ih =>
    by_cases hb : b = envelopeMagic
    · subst hb
      simp [findMagic, noiseRun_cons_magic, List.findIdx?_cons]
    · have hne : (b == envelopeMagic) = false := by simpa using hb
      unfold findMagic at ih ⊢
      rw [List.findIdx?_cons, hne, ih, noiseRun_cons_of_ne hb]
      by_cases hlt : noiseRun s < s.length <;> simp [hlt]

theorem findMagic_cons_magic {s tail : Bytes} (hs : s = envelopeMagic :: tail) :
    findMagic s = some 0 := by
  rw [findMagic_eq, hs, noiseRun_cons_magic, if_pos (by simp)]

namespace StreamingDecoder
variable {capacity : Nat} {integrity : IntegrityConfig}

@[simp] theorem bytes_consume (d : StreamingDecoder capacity) (count : Nat) :
    (d.consume count).bytes = d.bytes.drop count := by
  show d.bytes.drop (min count d.bytes.length) = d.bytes.drop count
  rcases Nat.le_total count d.bytes.length with h | h
  · rw [Nat.min_eq_left h]
  · rw [Nat.min_eq_right h, List.drop_length, List.drop_eq_nil_of_le h]

theorem pendingConsume_consume (d : StreamingDecoder capacity) (count : Nat) :
    (d.consume count).pendingConsume = d.pendingConsume := rfl

theorem bytes_consumePending (d : StreamingDecoder capacity) : d.consumePending.bytes = d.rest := by
  unfold consumePending rest
  split
  · rw [bytes_consume]
  · have h0 : d.pendingConsume = 0 := by omega
    rw [h0, List.drop_zero]

theorem pendingConsume_consumePending (d : StreamingDecoder capacity) :
    d.consumePending.pendingConsume = 0 := by
  unfold consumePending
  split
  · rfl
  · omega

theorem rest_of_no_pending {d : StreamingDecoder capacity} (h : d.pendingConsume = 0) :
    d.rest = d.bytes := by
  rw [rest, h, List.drop_zero]

/-- What one decoding attempt on a buffer with no deferred consumption does. -/
structure Decoded (integrity : IntegrityConfig) (s : Bytes) (d' : StreamingDecoder capacity)
    (outcome : StreamDecodeOutcome) : Prop where
  outcome_eq : outcome = classify capacity integrity s
  rest_eq : d'.rest = s.drop outcome.taken
  waits : ∀ {needed}, outcome = .needMore needed → d'.bytes = s ∧ d'.pendingConsume = 0

theorem decoded_consume {d : StreamingDecoder capacity} (outcome : StreamDecodeOutcome)
    (h : d.pendingConsume = 0) (ho : outcome = classify capacity integrity d.bytes)
    (hw : ∀ needed, outcome ≠ .needMore needed) :
    Decoded integrity d.bytes (d.consume outcome.taken) outcome where
  outcome_eq := ho
  rest_eq := by
    rw [rest_of_no_pending ((d.pendingConsume_consume outcome.taken).trans h), bytes_consume]
  waits hn := absurd hn (hw _)

theorem decoded_wait {d : StreamingDecoder capacity} (h : d.pendingConsume = 0)
    {needed : Option Nat}
    (ho : StreamDecodeOutcome.needMore needed = classify capacity integrity d.bytes) :
    Decoded integrity d.bytes d (.needMore needed) where
  outcome_eq := ho
  rest_eq := by rw [rest_of_no_pending h]; rfl
  waits _ := ⟨rfl, h⟩

theorem decoded_deferred {d : StreamingDecoder capacity} (outcome : StreamDecodeOutcome)
    (ho : outcome = classify capacity integrity d.bytes)
    (hw : ∀ needed, outcome ≠ .needMore needed) :
    Decoded integrity d.bytes { d with pendingConsume := outcome.taken } outcome where
  outcome_eq := ho
  rest_eq := rfl
  waits hn := absurd hn (hw _)

variable (capacity integrity) in
theorem classify_candidate {s rest : Bytes} {packetLen crc : UInt8}
    (hs : s = envelopeMagic :: packetLen :: crc :: rest) :
    classify capacity integrity s =
      if !headerAccepted capacity integrity packetLen crc then .resync 1
      else if s.length < candidateLen integrity packetLen then
        .needMore (some (candidateLen integrity packetLen - s.length))
      else if candidateVerified integrity packetLen s then
        .packet (candidatePacket packetLen s) (candidateLen integrity packetLen)
      else .corrupted (candidateLen integrity packetLen) := by
  subst hs
  simp only [classify, ne_eq, not_true_eq_false, if_false]

variable (capacity integrity) in
theorem classify_noise {s tail : Bytes} {b : UInt8} (hs : s = b :: tail) (hb : b ≠ envelopeMagic) :
    classify capacity integrity s = .noise (noiseRun s) := by
  subst hs
  simp [classify, hb]

theorem decodeBuffer_noise {d : StreamingDecoder capacity} (h : d.pendingConsume = 0)
    {b : UInt8} {tail : Bytes} (hs : d.bytes = b :: tail) (hb : b ≠ envelopeMagic) :
    Decoded integrity d.bytes (d.decodeBuffer integrity).1 (d.decodeBuffer integrity).2 := by
  have hclass := classify_noise capacity integrity hs hb
  have hpos : 0 < noiseRun d.bytes := by
    rw [hs, noiseRun_cons_of_ne hb]
    omega
  have hdec : d.decodeBuffer integrity = (d.consume (noiseRun d.bytes), .noise (noiseRun d.bytes)) := by
    unfold decodeBuffer
    rw [if_neg (by rw [hs]; simp), findMagic_eq]
    by_cases hlt : noiseRun d.bytes < d.bytes.length
    · rw [if_pos hlt]
      dsimp only
      rw [if_pos hpos]
    · have hall : noiseRun d.bytes = d.bytes.length := by
        have := noiseRun_le d.bytes
        omega
      rw [if_neg hlt, hall]
  rw [hdec]
  exact decoded_consume (.noise (noiseRun d.bytes)) h hclass.symm (by simp)

/-- A buffer that starts with a magic and holds no complete header waits. -/
theorem decodeBuffer_short {d : StreamingDecoder capacity} (h : d.pendingConsume = 0)
    {tail : Bytes} (hs : d.bytes = envelopeMagic :: tail) (hlen : d.bytes.length < wireHeaderLen) :
    Decoded integrity d.bytes (d.decodeBuffer integrity).1 (d.decodeBuffer integrity).2 := by
  have hclass : classify capacity integrity d.bytes =
      .needMore (some (wireHeaderLen - d.bytes.length)) := by
    rw [hs, wireHeaderLen_eq] at hlen
    rw [hs]
    match tail, hlen with
    | [], _ => simp [classify]
    | [_], _ => simp [classify]
  have hdec : d.decodeBuffer integrity =
      (d, .needMore (some (wireHeaderLen - d.bytes.length))) := by
    unfold decodeBuffer
    rw [if_neg (by rw [hs]; simp), findMagic_cons_magic hs]
    dsimp only
    rw [if_neg (by omega), if_pos hlen]
  rw [hdec]
  exact decoded_wait h hclass.symm

/-- What `decodeBuffer` does with a candidate header. -/
theorem decodeBuffer_candidate {d : StreamingDecoder capacity} (h : d.pendingConsume = 0)
    {packetLen crc : UInt8} {tail : Bytes}
    (hs : d.bytes = envelopeMagic :: packetLen :: crc :: tail) :
    Decoded integrity d.bytes (d.decodeBuffer integrity).1 (d.decodeBuffer integrity).2 := by
  have hheader : headerFromBytes (d.bytes.take wireHeaderLen) = some ⟨packetLen, crc⟩ := by
    rw [hs]
    rfl
  have hlen : ¬ d.bytes.length < wireHeaderLen := by
    rw [hs, wireHeaderLen_eq]
    simp
  have htotal : (EnvelopeHeader.mk packetLen crc).totalLen integrity.tagLen =
      candidateLen integrity packetLen := rfl
  have hclass := classify_candidate capacity integrity hs
  unfold decodeBuffer
  rw [if_neg (by rw [hs]; simp), findMagic_cons_magic hs]
  dsimp only
  rw [if_neg (by omega), if_neg hlen, hheader]
  dsimp only
  rw [htotal]
  -- the checks come in the order of the code: header CRC, capacity, length, tag
  by_cases hcrc : crc = headerCrc packetLen
  · rw [if_neg (by simp [EnvelopeHeader.hasValidHeaderCrc, hcrc])]
    by_cases hcap : candidateLen integrity packetLen ≤ capacity
    · have hacc : headerAccepted capacity integrity packetLen crc = true := by
        simp [headerAccepted, hcrc, hcap]
      rw [if_neg (by omega)]
      by_cases hshort : d.bytes.length < candidateLen integrity packetLen
      · rw [if_pos hshort]
        exact decoded_wait h (by simp [hclass, hacc, hshort])
      · rw [if_neg hshort]
        by_cases hv : candidateVerified integrity packetLen d.bytes = true
        · rw [if_neg (by simpa [candidateVerified] using hv)]
          exact decoded_deferred
            (.packet (candidatePacket packetLen d.bytes) (candidateLen integrity packetLen))
            (by simp [hclass, hacc, hshort, hv]) (by simp)
        · rw [if_pos (by simpa [candidateVerified] using hv)]
          exact decoded_deferred (.corrupted (candidateLen integrity packetLen))
            (by simp [hclass, hacc, hshort, hv]) (by simp)
    · have hacc : headerAccepted capacity integrity packetLen crc = false := by
        simp [headerAccepted, hcap]
      rw [if_pos (by omega)]
      exact decoded_consume (.resync 1) h (by simp [hclass, hacc]) (by simp)
  · have hacc : headerAccepted capacity integrity packetLen crc = false := by
      simp [headerAccepted, hcrc]
    rw [if_pos (by simpa [EnvelopeHeader.hasValidHeaderCrc] using hcrc)]
    exact decoded_consume (.resync 1) h (by simp [hclass, hacc]) (by simp)

theorem decodeBuffer_spec (d : StreamingDecoder capacity) (h : d.pendingConsume = 0) :
    Decoded integrity d.bytes (d.decodeBuffer integrity).1 (d.decodeBuffer integrity).2 := by
  have hsplit : d.bytes = [] ∨ ∃ b tail, d.bytes = b :: tail := by
    cases d.bytes <;> simp
  rcases hsplit with hs | ⟨b, tail, hs⟩
  · have hdec : d.decodeBuffer integrity = (d, .needMore none) := by
      unfold decodeBuffer
      rw [if_pos (by rw [hs]; rfl)]
    rw [hdec]
    exact decoded_wait h (by rw [hs]; rfl)
  · by_cases hb : b = envelopeMagic
    · subst hb
      match tail, hs with
      | [], hs => exact decodeBuffer_short h hs (by rw [hs]; decide)
      | [_], hs => exact decodeBuffer_short h hs (by rw [hs]; simp [wireHeaderLen_eq])
      | _ :: _ :: _, hs => exact decodeBuffer_candidate h hs
    · exact decodeBuffer_noise h hs hb

theorem eq_of_bytes {d d' : StreamingDecoder capacity} (hbytes : d.bytes = d'.bytes)
    (hpending : d.pendingConsume = d'.pendingConsume) : d = d' := by
  cases d
  cases d'
  cases hbytes
  cases hpending
  rfl

/-- Input that fits goes behind the bytes no outcome has accounted for. -/
theorem append_consumePending (d : StreamingDecoder capacity) {input : Bytes}
    (h : d.rest.length + input.length ≤ capacity) :
    ∃ e : StreamingDecoder capacity, d.consumePending.append input = .ok e ∧
      e.bytes = d.rest ++ input ∧ e.pendingConsume = 0 := by
  have hbytes := d.bytes_consumePending
  have hfits : ¬ d.consumePending.bytes.length + input.length > capacity := by
    rw [hbytes]
    omega
  unfold append
  rw [dif_neg hfits]
  exact ⟨_, rfl, congrArg (· ++ input) hbytes, d.pendingConsume_consumePending⟩

variable (integrity) in
/-- A call of `feed` that fits the buffer. -/
theorem feed_spec (d : StreamingDecoder capacity) {input : Bytes}
    (h : d.rest.length + input.length ≤ capacity) :
    ∃ d' outcome, d.feed input integrity = (d', .ok outcome) ∧
      Decoded integrity (d.rest ++ input) d' outcome := by
  obtain ⟨e, he, hb, hp⟩ := d.append_consumePending h
  refine ⟨_, _, by rw [feed, he], ?_⟩
  rw [← hb]
  exact decodeBuffer_spec e hp

variable (integrity) in
/-- A decoder goes on like a fresh one that is given what it has not accounted for. -/
theorem feed_eq_feed_new (d : StreamingDecoder capacity) {input : Bytes}
    (h : d.rest.length + input.length ≤ capacity) :
    d.feed input integrity = (new : StreamingDecoder capacity).feed (d.rest ++ input) integrity := by
  have hfresh : (new : StreamingDecoder capacity).rest = [] := rfl
  obtain ⟨e, he, hb, hp⟩ := d.append_consumePending h
  obtain ⟨e', he', hb', hp'⟩ := (new : StreamingDecoder capacity).append_consumePending
    (show _ + (d.rest ++ input).length ≤ capacity by rw [hfresh, List.length_append]; simpa using h)
  rw [hfresh, List.nil_append, ← hb] at hb'
  rw [feed, he, feed, he', eq_of_bytes hb' (hp'.trans hp.symm)]

variable (integrity) in
/-- A call of `feed` that does not fit drops its input and answers an error. -/
theorem feed_overflow (d : StreamingDecoder capacity) {input : Bytes}
    (h : capacity < d.rest.length + input.length) :
    d.feed input integrity = (d.consumePending, .error .bufferTooSmall) := by
  have hbytes := d.bytes_consumePending
  have hfits : d.consumePending.bytes.length + input.length > capacity := by
    rw [hbytes]
    omega
  unfold feed append
  simp only [dif_pos hfits]

theorem rest_length_le (d : StreamingDecoder capacity) : d.rest.length ≤ capacity := by
  rw [rest, List.length_drop]
  exact Nat.le_trans (Nat.sub_le _ _) d.length_le

theorem rest_consumePending (d : StreamingDecoder capacity) : d.consumePending.rest = d.rest := by
  rw [rest_of_no_pending d.pendingConsume_consumePending, bytes_consumePending]

end StreamingDecoder

/-! ## The scanner of the wire format -/

section Scan
variable (capacity : Nat) (integrity : IntegrityConfig)

/-- The event of a complete candidate. -/
def candidateEvent (packetLen : UInt8) (s : Bytes) : WireEvent :=
  if candidateVerified integrity packetLen s then .packet (candidatePacket packetLen s)
  else .corrupted

/-- One step along the stream: a byte that starts no envelope, or a complete candidate. -/
def wireStep : Bytes → Option (List WireEvent × Bytes)
  | [] => none
  | magic :: tail =>
    if magic ≠ envelopeMagic then some ([.noise], tail)
    else
      match tail with
      | packetLen :: crc :: _ =>
        if !headerAccepted capacity integrity packetLen crc then some ([.noise], tail)
        else if (magic :: tail).length < candidateLen integrity packetLen then none
        else
          some ([candidateEvent integrity packetLen (magic :: tail)],
            (magic :: tail).drop (candidateLen integrity packetLen))
      | _ => none

theorem candidateLen_pos (packetLen : UInt8) : 0 < candidateLen integrity packetLen := by
  unfold candidateLen
  rw [wireHeaderLen_eq]
  omega

variable {capacity integrity}

/-- A complete candidate is read from its own bytes only. -/
theorem candidateEvent_append {packetLen : UInt8} {s : Bytes}
    (h : candidateLen integrity packetLen ≤ s.length) (t : Bytes) :
    candidateEvent integrity packetLen (s ++ t) = candidateEvent integrity packetLen s := by
  have hpacket : candidatePacket packetLen (s ++ t) = candidatePacket packetLen s := by
    unfold candidateLen at h
    unfold candidatePacket
    rw [List.drop_append_of_le_length (by omega), List.take_append_of_le_length]
    rw [List.length_drop]
    omega
  have hverified : candidateVerified integrity packetLen (s ++ t) =
      candidateVerified integrity packetLen s := by
    unfold candidateVerified
    rw [List.take_append_of_le_length h, List.take_append_of_le_length (by omega)]
  rw [candidateEvent, candidateEvent, hpacket, hverified]

/-- The three ways a step can go. -/
theorem wireStep_cases {s : Bytes} {events : List WireEvent} {rest : Bytes}
    (h : wireStep capacity integrity s = some (events, rest)) :
    (∃ b, b ≠ envelopeMagic ∧ s = b :: rest ∧ events = [.noise]) ∨
    (∃ packetLen crc tail, s = envelopeMagic :: packetLen :: crc :: tail ∧
      headerAccepted capacity integrity packetLen crc = false ∧ rest = packetLen :: crc :: tail ∧
      events = [.noise]) ∨
    (∃ packetLen crc tail, s = envelopeMagic :: packetLen :: crc :: tail ∧
      headerAccepted capacity integrity packetLen crc = true ∧
      candidateLen integrity packetLen ≤ s.length ∧
      rest = s.drop (candidateLen integrity packetLen) ∧
      events = [candidateEvent integrity packetLen s]) := by
  match s, h with
  | magic :: tail, h =>
    rw [wireStep.eq_def] at h
    dsimp only at h
    by_cases hm : magic = envelopeMagic
    · subst hm
      rw [if_neg (by simp)] at h
      match tail, h with
      | packetLen :: crc :: tail, h =>
        dsimp only at h
        cases hacc : headerAccepted capacity integrity packetLen crc with
        | false =>
          simp only [hacc, Bool.not_false, if_true, Option.some.injEq, Prod.mk.injEq] at h
          exact .inr (.inl ⟨packetLen, crc, tail, rfl, hacc, h.2.symm, h.1.symm⟩)
        | true =>
          simp only [hacc, Bool.not_true, Bool.false_eq_true, if_false] at h
          split at h
          · cases h
          · simp only [Option.some.injEq, Prod.mk.injEq] at h
            exact .inr (.inr ⟨packetLen, crc, tail, rfl, hacc, by omega, h.2.symm, h.1.symm⟩)
    · rw [if_pos hm] at h
      simp only [Option.some.injEq, Prod.mk.injEq] at h
      exact .inl ⟨magic, hm, by rw [h.2], h.1.symm⟩

theorem wireStep_noise {b : UInt8} (hb : b ≠ envelopeMagic) (tail : Bytes) :
    wireStep capacity integrity (b :: tail) = some ([.noise], tail) := by
  rw [wireStep.eq_def]
  exact if_pos hb

theorem wireStep_rejected {packetLen crc : UInt8} (tail : Bytes)
    (h : headerAccepted capacity integrity packetLen crc = false) :
    wireStep capacity integrity (envelopeMagic :: packetLen :: crc :: tail) =
      some ([.noise], packetLen :: crc :: tail) := by
  simp [wireStep, h]

theorem wireStep_complete {packetLen crc : UInt8} {s t : Bytes}
    (hs : s = envelopeMagic :: packetLen :: crc :: t)
    (h : headerAccepted capacity integrity packetLen crc = true)
    (hlen : candidateLen integrity packetLen ≤ s.length) :
    wireStep capacity integrity s = some ([candidateEvent integrity packetLen s],
      s.drop (candidateLen integrity packetLen)) := by
  subst hs
  have hlen' : ¬ (envelopeMagic :: packetLen :: crc :: t).length <
      candidateLen integrity packetLen := by omega
  simp only [wireStep, ne_eq, not_true_eq_false, if_false, h, Bool.not_true, Bool.false_eq_true,
    hlen']

variable (capacity integrity)

/-- **The wire format as a scanner.** -/
def wireScanner : Scanner UInt8 WireEvent where
  step := wireStep capacity integrity
  shrinks h := by
    rcases wireStep_cases h with ⟨b, -, rfl, -⟩ | ⟨packetLen, crc, tail, rfl, -, rfl, -⟩ |
      ⟨packetLen, crc, tail, rfl, -, hlen, rfl, -⟩
    · simp
    · simp
    · rw [List.length_drop]
      have := candidateLen_pos integrity packetLen
      omega
  stable t h := by
    rcases wireStep_cases h with ⟨b, hb, rfl, rfl⟩ | ⟨packetLen, crc, tail, rfl, hacc, rfl, rfl⟩ |
      ⟨packetLen, crc, tail, hs, hacc, hlen, rfl, rfl⟩
    · exact wireStep_noise hb _
    · exact wireStep_rejected _ hacc
    · rw [wireStep_complete (t := tail ++ t) (by rw [hs]; rfl) hacc
          (by rw [List.length_append]; omega), candidateEvent_append hlen,
        List.drop_append_of_le_length hlen]

variable {capacity integrity}

theorem scan_noise {b : UInt8} (hb : b ≠ envelopeMagic) (tail : Bytes) :
    (wireScanner capacity integrity).scan (b :: tail) =
      (.noise :: ((wireScanner capacity integrity).scan tail).1,
        ((wireScanner capacity integrity).scan tail).2) :=
  Scanner.scan_of_some
    (show (wireScanner capacity integrity).step (b :: tail) = some ([.noise], tail) from
      wireStep_noise hb tail)

theorem scan_rejected {packetLen crc : UInt8} (tail : Bytes)
    (h : headerAccepted capacity integrity packetLen crc = false) :
    (wireScanner capacity integrity).scan (envelopeMagic :: packetLen :: crc :: tail) =
      (.noise :: ((wireScanner capacity integrity).scan (packetLen :: crc :: tail)).1,
        ((wireScanner capacity integrity).scan (packetLen :: crc :: tail)).2) :=
  Scanner.scan_of_some
    (show (wireScanner capacity integrity).step (envelopeMagic :: packetLen :: crc :: tail) =
        some ([.noise], packetLen :: crc :: tail) from
      wireStep_rejected tail h)

theorem scan_complete {packetLen crc : UInt8} {s t : Bytes}
    (hs : s = envelopeMagic :: packetLen :: crc :: t)
    (h : headerAccepted capacity integrity packetLen crc = true)
    (hlen : candidateLen integrity packetLen ≤ s.length) :
    (wireScanner capacity integrity).scan s =
      (candidateEvent integrity packetLen s ::
        ((wireScanner capacity integrity).scan (s.drop (candidateLen integrity packetLen))).1,
        ((wireScanner capacity integrity).scan (s.drop (candidateLen integrity packetLen))).2) :=
  Scanner.scan_of_some
    (show (wireScanner capacity integrity).step s = _ from wireStep_complete hs h hlen)

/-! ## Answers are steps of the scanner -/

/-- What an answer reports, byte by byte where it is noise. -/
def StreamDecodeOutcome.events : StreamDecodeOutcome → List WireEvent
  | .packet packetBytes _ => [.packet packetBytes]
  | .corrupted _ => [.corrupted]
  | .noise skipped | .resync skipped => List.replicate skipped .noise
  | .needMore _ => []

/-- The scan of a stream whose answer is `outcome`. -/
def ScansAs (capacity : Nat) (integrity : IntegrityConfig) (s : Bytes)
    (outcome : StreamDecodeOutcome) : Prop :=
  0 < outcome.taken ∧ outcome.taken ≤ s.length ∧
    (wireScanner capacity integrity).scan s =
      (outcome.events ++ ((wireScanner capacity integrity).scan (s.drop outcome.taken)).1,
        ((wireScanner capacity integrity).scan (s.drop outcome.taken)).2)

/-- A run of noise is skipped byte by byte. -/
theorem scan_drop_noiseRun (s : Bytes) :
    (wireScanner capacity integrity).scan s =
      (List.replicate (noiseRun s) .noise ++
        ((wireScanner capacity integrity).scan (s.drop (noiseRun s))).1,
        ((wireScanner capacity integrity).scan (s.drop (noiseRun s))).2) := by
  induction s with
  | nil => rfl
  | cons b s ih =>
    by_cases hb : b = envelopeMagic
    · subst hb
      rw [noiseRun_cons_magic, List.drop_zero]
      rfl
    · rw [noiseRun_cons_of_ne hb, List.drop_succ_cons, scan_noise hb, ih, List.replicate_succ,
        List.cons_append]

theorem classify_needMore {s : Bytes} {needed : Option Nat}
    (h : classify capacity integrity s = .needMore needed) :
    (wireScanner capacity integrity).step s = none := by
  show wireStep capacity integrity s = none
  match s, h with
  | [], _ => rfl
  | magic :: tail, h =>
    by_cases hm : magic = envelopeMagic
    · subst hm
      match tail, h with
      | [], _ => simp [wireStep]
      | [_], _ => simp [wireStep]
      | packetLen :: crc :: tail, h =>
        rw [StreamingDecoder.classify_candidate capacity integrity rfl] at h
        split at h
        · cases h
        · rename_i hacc
          split at h
          · rename_i hlen
            rw [wireStep.eq_def]
            dsimp only
            rw [if_neg (by simp), if_neg hacc, if_pos hlen]
          · split at h <;> cases h
    · rw [StreamingDecoder.classify_noise capacity integrity rfl hm] at h
      cases h

/-- **Every answer but `NeedMore` is a nonempty part of the scan.** -/
theorem scansAs_classify {s : Bytes} {outcome : StreamDecodeOutcome}
    (h : classify capacity integrity s = outcome) (hw : ∀ needed, outcome ≠ .needMore needed) :
    ScansAs capacity integrity s outcome := by
  match s, h with
  | [], h => exact absurd h.symm (hw none)
  | magic :: tail, h =>
    by_cases hm : magic = envelopeMagic
    · subst hm
      match tail, h with
      | [], h => exact absurd h.symm (hw _)
      | [_], h => exact absurd h.symm (hw _)
      | packetLen :: crc :: tail, h =>
        rw [StreamingDecoder.classify_candidate capacity integrity rfl] at h
        cases hacc : headerAccepted capacity integrity packetLen crc with
        | false =>
          simp only [hacc, Bool.not_false, if_true] at h
          subst h
          refine ⟨Nat.one_pos, by simp [StreamDecodeOutcome.taken], ?_⟩
          exact scan_rejected tail hacc
        | true =>
          simp only [hacc, Bool.not_true, Bool.false_eq_true, if_false] at h
          split at h
          · exact absurd h.symm (hw _)
          · rename_i hlen
            have hscan := scan_complete rfl hacc (Nat.le_of_not_lt hlen)
            unfold candidateEvent at hscan
            split at h
            · rename_i hv
              subst h
              rw [if_pos hv] at hscan
              exact ⟨candidateLen_pos _ _, Nat.le_of_not_lt hlen, hscan⟩
            · rename_i hv
              subst h
              rw [if_neg hv] at hscan
              exact ⟨candidateLen_pos _ _, Nat.le_of_not_lt hlen, hscan⟩
    · rw [StreamingDecoder.classify_noise capacity integrity rfl hm] at h
      subst h
      refine ⟨?_, noiseRun_le _, scan_drop_noiseRun _⟩
      show 0 < noiseRun (magic :: tail)
      rw [noiseRun_cons_of_ne hm]
      omega

end Scan

end Msrt
