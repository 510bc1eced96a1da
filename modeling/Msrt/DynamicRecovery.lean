import Mathlib.Data.Finset.Max
import Msrt.Checked
import Msrt.SaturatingWords

/-! # Dynamic recovery

The `dynamic-recovery` feature estimates the round-trip time from acknowledgements and derives the
retransmission timeout from it.

* The timeout is computed with saturating operations and a shift that may not fit, and is the exact
  formula clipped once (`toNat_timeoutMs`).
* The estimator is computed with plain operations, which stop the run when they overflow.  For samples
  below `2 ^ 61` they do not, and the estimates stay within the samples (`Within`): both averages
  round down, but an average of numbers at least `low` rounds down to a number at least `low`.
-/

namespace Msrt
open SaturatingWords

/-- Runtime configuration for dynamic packet recovery. -/
structure DynamicRecoveryConfig where
  initialRttMs : UInt64
  maxAckDelayMs : UInt64
  timerGranularityMs : UInt64
  maxBackoffExponent : UInt8
  deriving DecidableEq, Repr

/-- The default configuration. -/
def DynamicRecoveryConfig.default : DynamicRecoveryConfig := ⟨333, 25, 1, 16⟩

/-- Round-trip estimator and timeout calculator. -/
structure DynamicRecoveryState where
  latestRttMs : UInt64
  smoothedRttMs : Option UInt64
  rttVarMs : UInt64
  minRttMs : UInt64
  deriving DecidableEq, Repr

namespace DynamicRecoveryState
variable {t : Target}

/-- The estimator before its first sample. -/
def new (config : DynamicRecoveryConfig) : DynamicRecoveryState where
  latestRttMs := config.initialRttMs
  smoothedRttMs := none
  rttVarMs := config.initialRttMs / 2
  minRttMs := config.initialRttMs

/-- Records a round-trip sample. -/
def observeAck (s : DynamicRecoveryState) (rttSampleMs : UInt64) :
    Checked t DynamicRecoveryState := do
  let s := { s with latestRttMs := rttSampleMs, minRttMs := min s.minRttMs rttSampleMs }
  match s.smoothedRttMs with
  | none => pure { s with smoothedRttMs := some rttSampleMs, rttVarMs := rttSampleMs / 2 }
  | some smoothed =>
    let rttDelta := absDiff smoothed rttSampleMs
    let rttVar ← Checked.addWord (← Checked.mulWord 3 s.rttVarMs) rttDelta
    let rtt ← Checked.addWord (← Checked.mulWord 7 smoothed) rttSampleMs
    pure { s with smoothedRttMs := some (rtt / 8), rttVarMs := rttVar / 4 }

/-- The current best estimate. -/
def rttMs (s : DynamicRecoveryState) : UInt64 :=
  match s.smoothedRttMs with
  | some smoothed => smoothed
  | none => s.latestRttMs

/-- The timeout before any backoff: the estimate and four variations, which count at least as much
as the timer granularity. -/
def ptoBaseMs (s : DynamicRecoveryState) (config : DynamicRecoveryConfig) : UInt64 :=
  let granularity := max 1 config.timerGranularityMs
  saturatingAdd s.rttMs (max (saturatingMul s.rttVarMs 4) granularity)

/-- The timeout of a packet that was retransmitted `attempts` times. -/
def timeoutMs (s : DynamicRecoveryState) (config : DynamicRecoveryConfig) (attempts : UInt8) :
    UInt64 :=
  let exponent := min attempts config.maxBackoffExponent
  let backoff := (checkedShl 1 exponent.toNat).getD (-1)
  saturatingMul (saturatingAdd (s.ptoBaseMs config) config.maxAckDelayMs) backoff

/-! ## The timeout -/

/-- The timeout in unbounded arithmetic. -/
def exactTimeout (s : DynamicRecoveryState) (config : DynamicRecoveryConfig) (attempts : Nat) : Nat :=
  (s.rttMs.toNat + max (4 * s.rttVarMs.toNat) (max 1 config.timerGranularityMs.toNat) +
    config.maxAckDelayMs.toNat) * 2 ^ min attempts config.maxBackoffExponent.toNat

variable (s : DynamicRecoveryState) (config : DynamicRecoveryConfig)

theorem toNat_ptoBaseMs : (s.ptoBaseMs config).toNat =
    clip (s.rttMs.toNat + max (4 * s.rttVarMs.toNat) (max 1 config.timerGranularityMs.toNat)) := by
  have hvar : (saturatingMul s.rttVarMs 4).toNat = clip (4 * s.rttVarMs.toNat) := by
    rw [toNat_saturatingMul, Nat.mul_comm]
    rfl
  have hgranularity : (max 1 config.timerGranularityMs).toNat =
      clip (max 1 config.timerGranularityMs.toNat) := by
    have hlt := config.timerGranularityMs.toNat_lt
    rw [UInt64.toNat_max, clip_of_lt (by omega)]
    rfl
  unfold ptoBaseMs
  dsimp only
  rw [toNat_saturatingAdd, UInt64.toNat_max, hvar, hgranularity, clip_max, clip_add_right]

/-- **The timeout is the exact one, clipped once.** -/
theorem toNat_timeoutMs (attempts : UInt8) :
    (s.timeoutMs config attempts).toNat = clip (s.exactTimeout config attempts.toNat) := by
  unfold timeoutMs exactTimeout
  dsimp only
  rw [toNat_saturatingMul, toNat_saturatingAdd, toNat_ptoBaseMs, toNat_shiftOrMax,
    UInt8.toNat_min, clip_add_left, clip_mul]

theorem exactTimeout_pos (attempts : Nat) : 0 < s.exactTimeout config attempts := by
  unfold exactTimeout
  apply Nat.mul_pos
  · omega
  · exact Nat.two_pow_pos _

theorem exactTimeout_mono {attempts more : Nat} (h : attempts ≤ more) :
    s.exactTimeout config attempts ≤ s.exactTimeout config more := by
  unfold exactTimeout
  apply Nat.mul_le_mul_left
  apply Nat.pow_le_pow_right (by decide)
  exact min_le_min_right _ h

/-- **The timeout equals the documented formula with one final saturation**: it is at least one, grows
with the attempts and stops growing at the largest exponent. -/
theorem timeout_saturates_once :
    (∀ attempts : UInt8, (s.timeoutMs config attempts).toNat = min (2 ^ 64 - 1)
      ((s.rttMs.toNat + max (4 * s.rttVarMs.toNat) (max 1 config.timerGranularityMs.toNat) +
        config.maxAckDelayMs.toNat) * 2 ^ min attempts.toNat config.maxBackoffExponent.toNat)) ∧
    (∀ attempts, 1 ≤ s.timeoutMs config attempts) ∧
    (∀ attempts more, attempts ≤ more → s.timeoutMs config attempts ≤ s.timeoutMs config more) ∧
    ∀ attempts, config.maxBackoffExponent ≤ attempts →
      s.timeoutMs config attempts = s.timeoutMs config config.maxBackoffExponent := by
  refine ⟨s.toNat_timeoutMs config, ?_, ?_,
    ?_⟩
  · intro attempts
    have hpos := s.exactTimeout_pos config attempts.toNat
    rw [UInt64.le_iff_toNat_le, toNat_timeoutMs]
    show 1 ≤ min _ _
    omega
  · intro attempts more h
    rw [UInt64.le_iff_toNat_le, toNat_timeoutMs, toNat_timeoutMs]
    exact clip_mono (s.exactTimeout_mono config (UInt8.le_iff_toNat_le.mp h))
  · intro attempts h
    have hle := UInt8.le_iff_toNat_le.mp h
    apply UInt64.toNat_inj.mp
    rw [toNat_timeoutMs, toNat_timeoutMs, exactTimeout, exactTimeout, min_eq_right hle, min_self]

example : (new .default).timeoutMs .default 1 = 2044 := by decide

/-! ## The estimator -/

section Estimator
variable {s : DynamicRecoveryState} {low high r : UInt64}

/-- The state once all samples have been recorded, the oldest first. -/
def observeAcks (config : DynamicRecoveryConfig) (samples : List UInt64) :
    Checked t DynamicRecoveryState := samples.foldlM observeAck (new config)

/-- The estimates lie within bounds. -/
structure Within (low high : UInt64) (s : DynamicRecoveryState) : Prop where
  smoothed : ∃ smoothed, s.smoothedRttMs = some smoothed ∧ low ≤ smoothed ∧ smoothed ≤ high
  rttVar : s.rttVarMs ≤ high

/-- The first sample overwrites what the configuration said. -/
theorem observeAck_first (hfirst : s.smoothedRttMs = none) (r : UInt64) :
    (observeAck s r : Checked t _) =
      pure ⟨r, some r, r / 2, min s.minRttMs r⟩ := by
  unfold observeAck
  rw [hfirst]

/-- A later sample moves both averages, and nothing overflows. -/
theorem observeAck_later {smoothed : UInt64} (hsmoothed : s.smoothedRttMs = some smoothed)
    (hs : smoothed.toNat < 2 ^ 61) (hv : s.rttVarMs.toNat < 2 ^ 61) (hr : r.toNat < 2 ^ 61) :
    ∃ s' smoothed', (observeAck s r : Checked t _) = pure s' ∧ s'.smoothedRttMs = some smoothed' ∧
      smoothed'.toNat = (7 * smoothed.toNat + r.toNat) / 8 ∧
      s'.rttVarMs.toNat = (3 * s.rttVarMs.toNat +
        (max smoothed.toNat r.toNat - min smoothed.toNat r.toNat)) / 4 := by
  have hdelta := toNat_absDiff smoothed r
  obtain ⟨hthree, hthree'⟩ := Checked.mulWord_eq (t := t)
    (show (3 : UInt64).toNat * s.rttVarMs.toNat < 2 ^ 64 by show 3 * _ < _; omega)
  obtain ⟨hseven, hseven'⟩ := Checked.mulWord_eq (t := t)
    (show (7 : UInt64).toNat * smoothed.toNat < 2 ^ 64 by show 7 * _ < _; omega)
  replace hthree' : (3 * s.rttVarMs).toNat = 3 * s.rttVarMs.toNat := hthree'
  replace hseven' : (7 * smoothed).toNat = 7 * smoothed.toNat := hseven'
  obtain ⟨hsum, hsum'⟩ := Checked.addWord_eq (t := t) (a := 3 * s.rttVarMs)
    (b := absDiff smoothed r) (by omega)
  obtain ⟨hmean, hmean'⟩ := Checked.addWord_eq (t := t) (a := 7 * smoothed) (b := r) (by omega)
  refine ⟨⟨r, some ((7 * smoothed + r) / 8), (3 * s.rttVarMs + absDiff smoothed r) / 4,
    min s.minRttMs r⟩, (7 * smoothed + r) / 8, ?_, rfl, ?_, ?_⟩
  · unfold observeAck
    rw [hsmoothed]
    dsimp only
    rw [hthree, pure_bind, hsum, pure_bind, hseven, pure_bind, hmean, pure_bind]
  · rw [UInt64.toNat_div, hmean', hseven']
    rfl
  · rw [UInt64.toNat_div, hsum', hthree', hdelta]
    rfl

/-- **One sample keeps the estimates within its bounds.** -/
theorem within_observeAck (hhigh : high.toNat < 2 ^ 61)
    (h : s.smoothedRttMs = none ∨ Within low high s) (hlow : low ≤ r) (hr : r ≤ high) :
    ∃ s', (observeAck s r : Checked t _) = pure s' ∧ Within low high s' := by
  rw [UInt64.le_iff_toNat_le] at hlow hr
  rcases h with hfirst | ⟨⟨smoothed, hsmoothed, hs, hs'⟩, hv⟩
  · refine ⟨_, observeAck_first hfirst r, ⟨r, rfl, hlow, hr⟩, ?_⟩
    rw [UInt64.le_iff_toNat_le, UInt64.toNat_div]
    exact Nat.le_trans (Nat.div_le_self _ _) hr
  · rw [UInt64.le_iff_toNat_le] at hs hs' hv
    obtain ⟨s', smoothed', hstep, hsome, hmean, hvar⟩ :=
      observeAck_later (t := t) hsmoothed (r := r) (by omega) (by omega) (by omega)
    refine ⟨s', hstep, ⟨smoothed', hsome, ?_, ?_⟩, ?_⟩
    · rw [UInt64.le_iff_toNat_le]
      omega
    · rw [UInt64.le_iff_toNat_le]
      omega
    · rw [UInt64.le_iff_toNat_le]
      omega

/-- **So does every number of samples.** -/
theorem within_foldlM (hhigh : high.toNat < 2 ^ 61) {samples : List UInt64}
    (hsamples : ∀ r ∈ samples, low ≤ r ∧ r ≤ high) (h : Within low high s) :
    ∃ s', (samples.foldlM observeAck s : Checked t _) = pure s' ∧ Within low high s' := by
  induction samples generalizing s with
  | nil => exact ⟨s, rfl, h⟩
  | cons r samples ih =>
    obtain ⟨hlow, hr⟩ := hsamples r List.mem_cons_self
    obtain ⟨s', hstep, hwithin⟩ := within_observeAck (t := t) hhigh (.inr h) hlow hr
    rw [List.foldlM_cons, hstep, pure_bind]
    exact ih (fun r hr => hsamples r (List.mem_cons_of_mem _ hr)) hwithin

theorem within_observeAcks (config : DynamicRecoveryConfig) (hhigh : high.toNat < 2 ^ 61)
    {samples : List UInt64} (hne : samples ≠ [])
    (hsamples : ∀ r ∈ samples, low ≤ r ∧ r ≤ high) :
    ∃ s', (observeAcks config samples : Checked t _) = pure s' ∧ Within low high s' := by
  cases samples with
  | nil => exact absurd rfl hne
  | cons r samples =>
    obtain ⟨hlow, hr⟩ := hsamples r List.mem_cons_self
    obtain ⟨s', hstep, hwithin⟩ :=
      within_observeAck (t := t) (s := new config) hhigh (.inl rfl) hlow hr
    rw [observeAcks, List.foldlM_cons, hstep, pure_bind]
    exact within_foldlM hhigh (fun r hr => hsamples r (List.mem_cons_of_mem _ hr)) hwithin

/-! ### Equal samples -/

/-- Between equal samples the smoothed estimate stands still and the variance decays. -/
theorem observeAck_same (hsmoothed : s.smoothedRttMs = some r) (hr : r.toNat < 2 ^ 61)
    (hv : s.rttVarMs.toNat < 2 ^ 61) :
    ∃ s', (observeAck s r : Checked t _) = pure s' ∧ s'.smoothedRttMs = some r ∧
      s'.rttVarMs.toNat = 3 * s.rttVarMs.toNat / 4 := by
  obtain ⟨s', smoothed', hstep, hsome, hmean, hvar⟩ := observeAck_later (t := t) hsmoothed hr hv hr
  have hsame : smoothed' = r := by
    apply UInt64.toNat_inj.mp
    omega
  refine ⟨s', hstep, hsame ▸ hsome, ?_⟩
  omega

/-- The variance loses at least one with every sample until it is zero. -/
theorem rttVar_foldlM_replicate (hsmoothed : s.smoothedRttMs = some r) (hr : r.toNat < 2 ^ 61)
    (hv : s.rttVarMs.toNat < 2 ^ 61) (count : Nat) :
    ∃ s', ((List.replicate count r).foldlM observeAck s : Checked t _) = pure s' ∧
      s'.rttVarMs.toNat ≤ s.rttVarMs.toNat - count := by
  induction count generalizing s with
  | zero => exact ⟨s, rfl, Nat.le_refl _⟩
  | succ count ih =>
    obtain ⟨s₁, hstep, hsame, hvar⟩ := observeAck_same (t := t) hsmoothed hr hv
    obtain ⟨s₂, hrest, hle⟩ := ih hsame (by omega)
    refine ⟨s₂, ?_, by omega⟩
    rw [List.replicate_succ, List.foldlM_cons, hstep, pure_bind, hrest]

/-- A smallest and a largest sample. -/
theorem exists_extremes {samples : List UInt64} (hne : samples ≠ []) :
    ∃ low ∈ samples, ∃ high ∈ samples, ∀ r ∈ samples, low ≤ r ∧ r ≤ high := by
  have hnonempty : samples.toFinset.Nonempty := List.toFinset_nonempty_iff samples |>.mpr hne
  obtain ⟨low, hlow, hleast⟩ := samples.toFinset.exists_min_image UInt64.toNat hnonempty
  obtain ⟨high, hhigh, hmost⟩ := samples.toFinset.exists_max_image UInt64.toNat hnonempty
  refine ⟨low, List.mem_toFinset.mp hlow, high, List.mem_toFinset.mp hhigh, ?_⟩
  intro r hr
  rw [← List.mem_toFinset] at hr
  exact ⟨UInt64.le_iff_toNat_le.mpr (hleast r hr), UInt64.le_iff_toNat_le.mpr (hmost r hr)⟩

/-- Equal samples: the estimate is the sample, and the variance goes down to zero. -/
theorem observeAcks_same (config : DynamicRecoveryConfig) (hr : r.toNat < 2 ^ 61)
    {samples : List UInt64} (hne : samples ≠ []) (hsame : ∀ r' ∈ samples, r' = r)
    (hrun : (observeAcks config samples : Checked t _) = pure s) :
    s.smoothedRttMs = some r ∧
      (∃ s', (observeAck s r : Checked t _) = pure s' ∧ s'.rttVarMs ≤ s.rttVarMs) ∧
      ∃ enough, ∀ more, enough ≤ more → ∃ s',
        (observeAcks config (samples ++ List.replicate more r) : Checked t _) = pure s' ∧
          s'.rttVarMs = 0 := by
  have hbounds : ∀ r' ∈ samples, r ≤ r' ∧ r' ≤ r := by
    intro r' hr'
    rw [hsame r' hr']
    exact ⟨UInt64.le_refl r, UInt64.le_refl r⟩
  obtain ⟨s₁, hrun₁, ⟨smoothed, hsmoothed, hlow, hhigh⟩, hv⟩ :=
    within_observeAcks (t := t) config hr hne hbounds
  obtain rfl : s = s₁ := Except.ok.inj (hrun.symm.trans hrun₁)
  obtain rfl : smoothed = r := UInt64.le_antisymm hhigh hlow
  rw [UInt64.le_iff_toNat_le] at hv
  have hv' : s.rttVarMs.toNat < 2 ^ 61 := Nat.lt_of_le_of_lt hv hr
  refine ⟨hsmoothed, ?_, s.rttVarMs.toNat, ?_⟩
  · obtain ⟨s', hstep, -, hvar⟩ := observeAck_same (t := t) hsmoothed hr hv'
    refine ⟨s', hstep, ?_⟩
    rw [UInt64.le_iff_toNat_le]
    omega
  · intro more hmore
    obtain ⟨s', hrest, hle⟩ := rttVar_foldlM_replicate (t := t) hsmoothed hr hv' more
    refine ⟨s', ?_, ?_⟩
    · rw [observeAcks, List.foldlM_append, show samples.foldlM observeAck (new config) = pure s
        from hrun, pure_bind, hrest]
    · apply UInt64.toNat_inj.mp
      show s'.rttVarMs.toNat = 0
      omega

/-- **The estimator stays within what was observed**, for samples below `2 ^ 61`: nothing overflows,
the smoothed estimate lies between the smallest and the largest sample and the variance below the
largest.  Where all samples are equal the estimate is the sample, one sample more does not raise the
variance, and enough of them bring it to zero. -/
theorem rtt_within_samples (config : DynamicRecoveryConfig) {samples : List UInt64}
    (hne : samples ≠ []) (hsmall : ∀ r ∈ samples, r.toNat < 2 ^ 61) :
    ∃ s smoothed, (observeAcks config samples : Checked t _) = pure s ∧
      s.smoothedRttMs = some smoothed ∧
      (∃ low ∈ samples, ∃ high ∈ samples, (∀ r ∈ samples, low ≤ r ∧ r ≤ high) ∧
        low ≤ smoothed ∧ smoothed ≤ high ∧ s.rttVarMs ≤ high) ∧
      ∀ r, (∀ r' ∈ samples, r' = r) → smoothed = r ∧
        (∃ s', (observeAck s r : Checked t _) = pure s' ∧ s'.rttVarMs ≤ s.rttVarMs) ∧
        ∃ enough, ∀ more, enough ≤ more → ∃ s',
          (observeAcks config (samples ++ List.replicate more r) : Checked t _) = pure s' ∧
            s'.rttVarMs = 0 := by
  obtain ⟨low, hlow, high, hhigh, hbounds⟩ := exists_extremes hne
  obtain ⟨s, hrun, ⟨smoothed, hsmoothed, habove, hbelow⟩, hv⟩ :=
    within_observeAcks (t := t) config (hsmall high hhigh) hne hbounds
  refine ⟨s, smoothed, hrun, hsmoothed, ⟨low, hlow, high, hhigh, hbounds, habove, hbelow, hv⟩,
    ?_⟩
  intro r hsame
  have hr : r.toNat < 2 ^ 61 := hsame high hhigh ▸ hsmall high hhigh
  obtain ⟨hsome, hstep, hzero⟩ := observeAcks_same config hr hne hsame hrun
  exact ⟨Option.some.inj (hsmoothed.symm.trans hsome), hstep, hzero⟩

/-- Two samples, on a machine with 64-bit addresses. -/
theorem rtt_within_twenty_forty :
    ∃ s smoothed, (observeAcks .default [20, 40] : Checked ⟨64, by decide⟩ _) = pure s ∧
      s.smoothedRttMs = some smoothed ∧ 20 ≤ smoothed ∧ smoothed ≤ 40 ∧ s.rttVarMs ≤ 40 := by
  have hpair : ∀ r ∈ ([20, 40] : List UInt64), r = 20 ∨ r = 40 := by
    intro r hr
    simpa using hr
  have hsmall : ∀ r ∈ ([20, 40] : List UInt64), r.toNat < 2 ^ 61 := by
    intro r hr
    rcases hpair r hr with rfl | rfl
    · decide
    · decide
  have hall : ∀ r ∈ ([20, 40] : List UInt64), 20 ≤ r ∧ r ≤ 40 := by
    intro r hr
    rcases hpair r hr with rfl | rfl
    · decide
    · decide
  obtain ⟨s, smoothed, hrun, hsmoothed, ⟨low, hlow, high, hhigh, -, hlo, hhi, hv⟩, -⟩ :=
    rtt_within_samples (t := ⟨64, by decide⟩) .default (List.cons_ne_nil 20 [40]) hsmall
  exact ⟨s, smoothed, hrun, hsmoothed, UInt64.le_trans (hall low hlow).1 hlo,
    UInt64.le_trans hhi (hall high hhigh).2, UInt64.le_trans hv (hall high hhigh).2⟩

end Estimator

end DynamicRecoveryState

end Msrt
