import Msrt.MachineCodec

/-! # The streaming decoder on the machine

The decoder with the buffer it really owns: an array of `capacity` bytes of which the first `len` are
valid.  Bytes are consumed by moving the rest to the front, and what is left behind it is stale.

`Stores` relates such a buffer to the list of its valid bytes.  Every call of `feed` succeeds on a
buffer that stores a decoder and leaves one that stores what `StreamingDecoder.feed` leaves
(`Stores.feed`).
-/

namespace Msrt.Machine
open Checked
variable {t : Target}

/-- The decoder's buffer, the number of its valid bytes and the consumption deferred to the next
call. -/
structure StreamingDecoder (capacity : Nat) where
  bytes : Bytes
  len : Nat
  pendingConsume : Nat

namespace StreamingDecoder
variable {capacity : Nat}

/-- The decoder before any input. -/
def new : StreamingDecoder capacity := ⟨List.replicate capacity 0, 0, 0⟩

/-- Moves the buffer down by `count` bytes, or by all of them. -/
def consume (d : StreamingDecoder capacity) (count : Nat) :
    Checked t (StreamingDecoder capacity) := do
  let count := min count d.len
  let bytes ← moveToFront d.bytes count d.len
  let len ← sub d.len count
  return { d with bytes, len }

/-- Drops what the last call deferred. -/
def consumePending (d : StreamingDecoder capacity) : Checked t (StreamingDecoder capacity) :=
  if d.pendingConsume > 0 then { d with pendingConsume := 0 }.consume d.pendingConsume
  else pure d

/-- Copies input behind the valid bytes, if it fits. -/
def append (d : StreamingDecoder capacity) (bytes : Bytes) :
    Checked t (Except Error (StreamingDecoder capacity)) := do
  if (← add d.len bytes.length) > capacity then
    return .error .bufferTooSmall
  else
    let stop ← add d.len bytes.length
    let written ← write d.bytes d.len stop bytes
    return .ok { d with bytes := written, len := stop }

/-- What a complete candidate of `totalLen` bytes turns out to be. -/
def decodeCandidate (d : StreamingDecoder capacity) (integrity : Msrt.IntegrityConfig)
    (header : Msrt.EnvelopeHeader) (totalLen : Nat) :
    Checked t (StreamingDecoder capacity × StreamDecodeOutcome) := do
  let tagStart ← sub totalLen integrity.tagLen
  if !(← IntegrityConfig.verify integrity (← slice d.bytes 0 tagStart)
      (← slice d.bytes tagStart totalLen)) then
    return ({ d with pendingConsume := totalLen }, .corrupted totalLen)
  else
    let packetEnd ← add wireHeaderLen header.packetLen.toNat
    let packetBytes ← slice d.bytes wireHeaderLen packetEnd
    return ({ d with pendingConsume := totalLen }, .packet packetBytes totalLen)

/-- Attempts to decode one packet from the buffered bytes. -/
def decodeBuffer (d : StreamingDecoder capacity) (integrity : Msrt.IntegrityConfig) :
    Checked t (StreamingDecoder capacity × StreamDecodeOutcome) := do
  if d.len = 0 then
    return (d, .needMore none)
  else
    match findMagic (← slice d.bytes 0 d.len) with
    | none => return (← d.consume d.len, .noise d.len)
    | some offset =>
      if offset > 0 then
        return (← d.consume offset, .noise offset)
      else if d.len < wireHeaderLen then
        return (d, .needMore (some (← sub wireHeaderLen d.len)))
      else
        match headerFromBytes (← slice d.bytes 0 wireHeaderLen) with
        | none => return (← d.consume 1, .resync 1)
        | some header =>
          if !(← EnvelopeHeader.hasValidHeaderCrc header) then
            return (← d.consume 1, .resync 1)
          else
            let totalLen ← EnvelopeHeader.totalLen header integrity.tagLen
            if totalLen > capacity then
              return (← d.consume 1, .resync 1)
            else if d.len < totalLen then
              return (d, .needMore (some (← sub totalLen d.len)))
            else
              d.decodeCandidate integrity header totalLen

/-- Feeds bytes into the decoder and attempts to decode one packet. -/
def feed (d : StreamingDecoder capacity) (bytes : Bytes) (integrity : Msrt.IntegrityConfig) :
    Checked t (StreamingDecoder capacity × Except Error StreamDecodeOutcome) := do
  let d ← d.consumePending
  match ← d.append bytes with
  | .error e => return (d, .error e)
  | .ok d =>
    let (d, outcome) ← d.decodeBuffer integrity
    return (d, .ok outcome)

/-! ## The bytes a buffer stores -/

/-- The buffer holds the decoder's bytes, and stale ones behind them. -/
def Stores (m : StreamingDecoder capacity) (d : Msrt.StreamingDecoder capacity) : Prop :=
  ∃ stale : Bytes, d.bytes.length + stale.length = capacity ∧
    m = ⟨d.bytes ++ stale, d.bytes.length, d.pendingConsume⟩

theorem stores_new : (new : StreamingDecoder capacity).Stores .new :=
  ⟨List.replicate capacity 0, by simp [Msrt.StreamingDecoder.new], rfl⟩

namespace Stores
variable {m : StreamingDecoder capacity} {d : Msrt.StreamingDecoder capacity}

theorem consume (h : m.Stores d) (count : Nat) :
    ∃ m', (m.consume count : Checked t _) = pure m' ∧ m'.Stores (d.consume count) := by
  obtain ⟨stale, hlen, rfl⟩ := h
  have hcap : (d.bytes ++ stale).length = capacity := by rw [List.length_append, hlen]
  have hcount : min count d.bytes.length ≤ d.bytes.length := Nat.min_le_right _ _
  unfold StreamingDecoder.consume
  dsimp only
  rw [moveToFront_eq ⟨hcount, by omega⟩, pure_bind, sub_eq hcount, pure_bind, List.take_left]
  refine ⟨_, rfl, (d.bytes ++ stale).drop (d.bytes.length - min count d.bytes.length), ?_, ?_⟩
  · simp only [Msrt.StreamingDecoder.consume, List.length_drop, hcap]
    omega
  · simp only [Msrt.StreamingDecoder.consume, List.length_drop]

theorem consumePending (h : m.Stores d) :
    ∃ m', (m.consumePending : Checked t _) = pure m' ∧ m'.Stores d.consumePending := by
  obtain ⟨stale, hlen, rfl⟩ := h
  unfold StreamingDecoder.consumePending Msrt.StreamingDecoder.consumePending
  dsimp only
  by_cases hpending : d.pendingConsume > 0
  · rw [if_pos hpending, if_pos hpending]
    exact consume (d := { d with pendingConsume := 0 }) ⟨stale, hlen, rfl⟩ _
  · rw [if_neg hpending, if_neg hpending]
    exact ⟨_, rfl, stale, hlen, rfl⟩

/-- Input that does not fit is refused, and so is what would overflow the length. -/
theorem append (h : m.Stores d) (hcap : capacity ≤ 32767) {bytes : Bytes}
    (hbytes : bytes.length ≤ t.isizeMax) :
    (∃ e, (m.append bytes : Checked t _) = pure (.error e) ∧ d.append bytes = .error e) ∨
      ∃ m' d', (m.append bytes : Checked t _) = pure (.ok m') ∧ d.append bytes = .ok d' ∧
        m'.Stores d' := by
  obtain ⟨stale, hlen, rfl⟩ := h
  have hmax := t.isizeMax_add_le
  have hadd : (add d.bytes.length bytes.length : Checked t Nat) =
      pure (d.bytes.length + bytes.length) := add_eq (by omega)
  unfold StreamingDecoder.append Msrt.StreamingDecoder.append
  dsimp only
  rw [hadd, pure_bind]
  by_cases hfull : d.bytes.length + bytes.length > capacity
  · rw [if_pos hfull, dif_pos hfull]
    exact .inl ⟨_, rfl, rfl⟩
  · rw [if_neg hfull, dif_neg hfull, pure_bind, write_eq (by rw [List.length_append]; omega) rfl,
      pure_bind]
    refine .inr ⟨_, _, rfl, rfl, stale.drop bytes.length, ?_, ?_⟩
    · simp only [List.length_append, List.length_drop]
      omega
    · simp only [List.take_left, List.drop_length_add_append, List.length_append]

/-- What `decodeCandidate` makes of a buffer that holds the whole candidate. -/
theorem decodeCandidate (h : m.Stores d) (integrity : Msrt.IntegrityConfig)
    (header : Msrt.EnvelopeHeader) (hcap : capacity ≤ 32767)
    (hcomplete : header.totalLen integrity.tagLen ≤ d.bytes.length) :
    ∃ m', (m.decodeCandidate integrity header (header.totalLen integrity.tagLen) : Checked t _) =
        pure (m', if !integrity.verify
            (d.bytes.take (header.totalLen integrity.tagLen - integrity.tagLen))
            ((d.bytes.take (header.totalLen integrity.tagLen)).drop
              (header.totalLen integrity.tagLen - integrity.tagLen)) then
            .corrupted (header.totalLen integrity.tagLen)
          else .packet ((d.bytes.drop wireHeaderLen).take header.packetLen.toNat)
            (header.totalLen integrity.tagLen)) ∧
      m'.Stores { d with pendingConsume := header.totalLen integrity.tagLen } := by
  obtain ⟨stale, hlen, rfl⟩ := h
  have htotal : header.totalLen integrity.tagLen =
      wireHeaderLen + header.packetLen.toNat + integrity.tagLen := rfl
  generalize header.totalLen integrity.tagLen = totalLen at htotal hcomplete ⊢
  have hstores : Stores (⟨d.bytes ++ stale, d.bytes.length, totalLen⟩ : StreamingDecoder capacity)
      { d with pendingConsume := totalLen } := ⟨stale, hlen, rfl⟩
  -- every range the candidate is cut into lies in the valid bytes
  have hslice : ∀ low high, low ≤ high → high ≤ d.bytes.length →
      (slice (d.bytes ++ stale) low high : Checked t Bytes) =
        pure ((d.bytes.take high).drop low) := by
    intro low high hle hhigh
    rw [slice_eq ⟨hle, by rw [List.length_append]; omega⟩, List.take_append_of_le_length hhigh]
  unfold StreamingDecoder.decodeCandidate
  dsimp only
  rw [sub_eq (by omega), pure_bind, hslice _ _ (Nat.zero_le _) (by omega), pure_bind,
    hslice _ _ (Nat.sub_le _ _) hcomplete, pure_bind, List.drop_zero,
    IntegrityConfig.verify_eq (by rw [List.length_take]; omega), pure_bind]
  split
  · exact ⟨_, rfl, hstores⟩
  · rw [add_small (by omega), pure_bind, hslice _ _ (by omega) (by omega), pure_bind,
      List.drop_take, Nat.add_sub_cancel_left]
    exact ⟨_, rfl, hstores⟩

theorem decodeBuffer (h : m.Stores d) (integrity : Msrt.IntegrityConfig)
    (hcap : capacity ≤ 32767) :
    ∃ m', (m.decodeBuffer integrity : Checked t _) = pure (m', (d.decodeBuffer integrity).2) ∧
      m'.Stores (d.decodeBuffer integrity).1 := by
  have hconsume := fun count => h.consume (t := t) count
  have hcandidate := fun header => h.decodeCandidate (t := t) integrity header hcap
  obtain ⟨stale, hlen, rfl⟩ := h
  have hself : Stores (⟨d.bytes ++ stale, d.bytes.length, d.pendingConsume⟩ :
      StreamingDecoder capacity) d := ⟨stale, hlen, rfl⟩
  unfold StreamingDecoder.decodeBuffer Msrt.StreamingDecoder.decodeBuffer
  dsimp only
  by_cases hempty : d.bytes.length = 0
  · rw [if_pos hempty, if_pos hempty]
    exact ⟨_, rfl, hself⟩
  rw [if_neg hempty, if_neg hempty,
    slice_eq ⟨Nat.zero_le _, by rw [List.length_append]; omega⟩, pure_bind, List.drop_zero,
    List.take_left]
  -- a rejected byte, or a run of them, is consumed at once
  have hskip : ∀ count outcome, ∃ m', (do
      return (← StreamingDecoder.consume ⟨d.bytes ++ stale, d.bytes.length, d.pendingConsume⟩ count,
        outcome) : Checked t (StreamingDecoder capacity × StreamDecodeOutcome)) =
        pure (m', outcome) ∧ m'.Stores (d.consume count) := by
    intro count outcome
    obtain ⟨m', hm', hstores⟩ := hconsume count
    refine ⟨m', ?_, hstores⟩
    rw [hm', pure_bind]
  cases findMagic d.bytes with
  | none => exact hskip _ _
  | some offset =>
    dsimp only
    by_cases hoffset : offset > 0
    · rw [if_pos hoffset, if_pos hoffset]
      exact hskip _ _
    rw [if_neg hoffset, if_neg hoffset]
    by_cases hshort : d.bytes.length < wireHeaderLen
    · rw [if_pos hshort, if_pos hshort, sub_eq (Nat.le_of_lt hshort), pure_bind]
      exact ⟨_, rfl, hself⟩
    rw [if_neg hshort, if_neg hshort,
      slice_eq ⟨Nat.zero_le _, by rw [List.length_append]; omega⟩, pure_bind, List.drop_zero,
      List.take_append_of_le_length (by omega)]
    cases headerFromBytes (d.bytes.take wireHeaderLen) with
    | none => exact hskip _ _
    | some header =>
      dsimp only
      rw [EnvelopeHeader.hasValidHeaderCrc_eq, pure_bind]
      by_cases hcrc : (!header.hasValidHeaderCrc) = true
      · rw [if_pos hcrc, if_pos hcrc]
        exact hskip _ _
      rw [if_neg hcrc, if_neg hcrc, EnvelopeHeader.totalLen_eq, pure_bind]
      by_cases hlarge : header.totalLen integrity.tagLen > capacity
      · rw [if_pos hlarge, if_pos hlarge]
        exact hskip _ _
      rw [if_neg hlarge, if_neg hlarge]
      by_cases hmore : d.bytes.length < header.totalLen integrity.tagLen
      · rw [if_pos hmore, if_pos hmore, sub_eq (Nat.le_of_lt hmore), pure_bind]
        exact ⟨_, rfl, hself⟩
      rw [if_neg hmore, if_neg hmore]
      obtain ⟨m', hm', hstores⟩ := hcandidate header (Nat.le_of_not_lt hmore)
      refine ⟨m', ?_, ?_⟩
      · rw [hm']
        split <;> rfl
      · split <;> exact hstores

/-- **Feeding any bytes succeeds** and leaves a buffer that stores what the decoder keeps. -/
theorem feed (h : m.Stores d) (integrity : Msrt.IntegrityConfig) (hcap : capacity ≤ 32767)
    {bytes : Bytes} (hbytes : bytes.length ≤ t.isizeMax) :
    ∃ m', (m.feed bytes integrity : Checked t _) = pure (m', (d.feed bytes integrity).2) ∧
      m'.Stores (d.feed bytes integrity).1 := by
  obtain ⟨m₁, hm₁, h₁⟩ := h.consumePending (t := t)
  unfold StreamingDecoder.feed Msrt.StreamingDecoder.feed
  dsimp only
  rw [hm₁, pure_bind]
  rcases h₁.append hcap hbytes with ⟨e, hm, hd⟩ | ⟨m₂, d₂, hm, hd, h₂⟩
  · rw [hm, pure_bind, hd]
    exact ⟨m₁, rfl, h₁⟩
  · obtain ⟨m₃, hm₃, h₃⟩ := h₂.decodeBuffer (t := t) integrity hcap
    rw [hm, pure_bind, hd]
    refine ⟨m₃, ?_, h₃⟩
    dsimp only
    rw [hm₃, pure_bind]

end Stores

end StreamingDecoder

end Msrt.Machine
