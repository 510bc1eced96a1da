import Mathlib.Data.List.Basic

/-! # Incremental scanners

A scanner reads a growing sequence: one `step` either needs more input or takes a nonempty part off
the front and reports the events found there.  If a step that was possible stays the same step when
more input follows (`stable`), then scanning does not depend on how the input was cut: scanning
`s ++ t` is scanning `s` and then what was left of it followed by `t` (`scan_append`), and any list
of chunks gives the events of its concatenation (`scanChunks_eq`).
-/

universe u v

/-- One step of reading a sequence of `β`, reporting events in `ε`. -/
structure Scanner (β : Type u) (ε : Type v) where
  /-- The events found at the front and what remains, or `none` if more input is needed. -/
  step : List β → Option (List ε × List β)
  shrinks : ∀ {s events rest}, step s = some (events, rest) → rest.length < s.length
  stable : ∀ {s events rest} (t : List β),
    step s = some (events, rest) → step (s ++ t) = some (events, rest ++ t)

namespace Scanner
variable {β : Type u} {ε : Type v} (scanner : Scanner β ε)

/-- All events of a sequence, and the part at its end that needs more input. -/
def scan (s : List β) : List ε × List β :=
  match h : scanner.step s with
  | none => ([], s)
  | some (events, rest) =>
    have := scanner.shrinks h
    (events ++ (scan rest).1, (scan rest).2)
termination_by s.length

variable {scanner}

theorem scan_of_none {s : List β} (h : scanner.step s = none) : scanner.scan s = ([], s) := by
  rw [scan]
  split
  · rfl
  · rename_i h'
    rw [h] at h'
    cases h'

theorem scan_of_some {s rest : List β} {events : List ε}
    (h : scanner.step s = some (events, rest)) :
    scanner.scan s = (events ++ (scanner.scan rest).1, (scanner.scan rest).2) := by
  rw [scan]
  split
  · rename_i h'
    rw [h] at h'
    cases h'
  · rename_i h'
    rw [h] at h'
    cases h'
    rfl

variable (scanner) in
/-- Induction along a scan: a state that needs input, or one step and then the rest. -/
theorem scan_induction {motive : List β → Prop}
    (stop : ∀ s, scanner.step s = none → motive s)
    (next : ∀ s events rest, scanner.step s = some (events, rest) → motive rest → motive s)
    (s : List β) : motive s := by
  generalize hn : s.length = n
  induction n using Nat.strongRecOn generalizing s with
  | ind n ih =>
    cases hs : scanner.step s with
    | none => exact stop s hs
    | some p =>
      have hlt : p.2.length < s.length := scanner.shrinks hs
      exact next s p.1 p.2 hs (ih p.2.length (hn ▸ hlt) p.2 rfl)

/-- **Scanning does not depend on a cut.** -/
theorem scan_append (s t : List β) :
    scanner.scan (s ++ t) =
      ((scanner.scan s).1 ++ (scanner.scan ((scanner.scan s).2 ++ t)).1,
        (scanner.scan ((scanner.scan s).2 ++ t)).2) := by
  induction s using scan_induction scanner with
  | stop s hs => rw [scan_of_none hs, List.nil_append]
  | next s events rest hs ih =>
    rw [scan_of_some hs, scan_of_some (scanner.stable t hs), ih, List.append_assoc]

/-- What a scan leaves needs more input. -/
theorem step_scan_snd (s : List β) : scanner.step (scanner.scan s).2 = none := by
  induction s using scan_induction scanner with
  | stop s hs => rw [scan_of_none hs]; exact hs
  | next s events rest hs ih => rw [scan_of_some hs]; exact ih

theorem length_scan_snd_le (s : List β) : (scanner.scan s).2.length ≤ s.length := by
  induction s using scan_induction scanner with
  | stop s hs => exact Nat.le_of_eq (by rw [scan_of_none hs])
  | next s events rest hs ih =>
    rw [scan_of_some hs]
    exact Nat.le_trans ih (Nat.le_of_lt (scanner.shrinks hs))

variable (scanner)

/-- Scans chunk after chunk, each behind what the chunks before it left. -/
def scanChunks : List β → List (List β) → List ε × List β
  | carried, [] => ([], carried)
  | carried, chunk :: chunks =>
    let read := scanner.scan (carried ++ chunk)
    let tail := scanChunks read.2 chunks
    (read.1 ++ tail.1, tail.2)

variable {scanner}

/-- **Any cut of a sequence into chunks is scanned like the sequence.** -/
theorem scanChunks_eq {carried : List β} (h : scanner.step carried = none)
    (chunks : List (List β)) :
    scanner.scanChunks carried chunks = scanner.scan (carried ++ chunks.flatten) := by
  induction chunks generalizing carried with
  | nil => rw [scanChunks, List.flatten_nil, List.append_nil, scan_of_none h]
  | cons chunk chunks ih =>
    rw [scanChunks, ih (step_scan_snd _), List.flatten_cons, ← List.append_assoc,
      scan_append (carried ++ chunk)]

end Scanner
