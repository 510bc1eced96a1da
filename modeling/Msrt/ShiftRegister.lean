import Mathlib.Logic.Function.Iterate

/-! # Shift registers with feedback

A register of `width` cells is moved along by one cell at a time.  The bit that leaves it, combined
with a bit of the input, is fed back; fed back bits enter at the other end and are not mixed with
anything there, so the `n` cells filled last tell which `n` bits were fed back last.

This is all that is needed to see that a register finds bursts: inputs that differ, but only within
`width` consecutive bits, leave it in different states (`run_ne_of_burst`).  Nothing is said about
linear algebra: equal states are followed back cell by cell (`feedback_eq_of_agree`).

Programs feed several bits at once, by mixing a word into the register and moving it along without
input; that is the same as feeding the bits one by one (`iterate_mix`).
-/

/-- A register of `width` cells with states in `S`. -/
structure ShiftRegister (S : Type) (width : Nat) where
  /-- The bit that is about to leave. -/
  out : S → Bool
  /-- The register moved along, with a bit fed back. -/
  push : S → Bool → S
  /-- The two registers agree in the `n` cells filled last. -/
  Agree : Nat → S → S → Prop
  agree_refl : ∀ n c, Agree n c c
  agree_push : ∀ {n c c' f f'}, n < width → Agree (n + 1) (push c f) (push c' f') →
    f = f' ∧ Agree n c c'
  eq_of_agree : ∀ {c c'}, Agree (width - 1) c c' → out c = out c' → c = c'
  width_pos : 0 < width

namespace ShiftRegister
variable {S : Type} {width : Nat} (R : ShiftRegister S width)

/-- The register after one bit of input. -/
def step (c : S) (b : Bool) : S := R.push c (R.out c ^^ b)

/-- The contents after the bits have been pushed in, first to last. -/
def run (c : S) (bits : List Bool) : S := bits.foldl R.step c

/-- The bits fed back during a run. -/
def feedback : S → List Bool → List Bool
  | _, [] => []
  | c, b :: bits => (R.out c ^^ b) :: feedback (R.step c b) bits

variable {R} {c c' : S} {bits bits' : List Bool}

theorem run_append (c : S) (bits more : List Bool) :
    R.run c (bits ++ more) = R.run (R.run c bits) more := List.foldl_append

@[simp] theorem length_feedback (c : S) (bits : List Bool) :
    (R.feedback c bits).length = bits.length := by
  induction bits generalizing c with
  | nil => rfl
  | cons b bits ih => exact congrArg (· + 1) (ih _)

/-! ## What a state tells -/

/-- A bit of input can be taken back. -/
theorem step_injective (b : Bool) (h : R.step c b = R.step c' b) : c = c' := by
  have hagree : R.Agree (width - 1 + 1) (R.step c b) (R.step c' b) := h ▸ R.agree_refl _ _
  have hwidth := R.width_pos
  obtain ⟨hfed, hcells⟩ := R.agree_push (by omega) hagree
  exact R.eq_of_agree hcells (Bool.xor_left_inj.mp hfed)

/-- The same input keeps different states apart. -/
theorem run_injective (bits : List Bool) (h : R.run c bits = R.run c' bits) : c = c' := by
  induction bits generalizing c c' with
  | nil => exact h
  | cons b bits ih => exact step_injective b (ih h)

/-- **The cells filled last tell which bits were fed back last**, and the others what was there
before. -/
theorem feedback_eq_of_agree {n : Nat} (hlen : bits.length = bits'.length)
    (hwidth : n + bits.length ≤ width)
    (h : R.Agree (n + bits.length) (R.run c bits) (R.run c' bits')) :
    R.feedback c bits = R.feedback c' bits' ∧ R.Agree n c c' := by
  induction bits generalizing c c' bits' n with
  | nil =>
    obtain rfl := List.eq_nil_of_length_eq_zero hlen.symm
    exact ⟨rfl, h⟩
  | cons b bits ih =>
    obtain ⟨b', bits', rfl⟩ := List.exists_cons_of_length_eq_add_one hlen.symm
    have hcount : n + (b :: bits).length = n + 1 + bits.length := by
      rw [List.length_cons]
      omega
    rw [hcount] at hwidth h
    obtain ⟨hfed, hcells⟩ := ih (Nat.succ.inj hlen) hwidth h
    obtain ⟨hbit, hcells⟩ := R.agree_push (by omega) hcells
    exact ⟨congrArg₂ List.cons hbit hfed, hcells⟩

/-- The state a run starts from and the bits fed back tell the input. -/
theorem bits_eq_of_feedback_eq (h : R.feedback c bits = R.feedback c bits') : bits = bits' := by
  induction bits generalizing c bits' with
  | nil =>
    have hlen := congrArg List.length h
    rw [length_feedback, length_feedback] at hlen
    exact (List.eq_nil_of_length_eq_zero hlen.symm).symm
  | cons b bits ih =>
    cases bits' with
    | nil => cases h
    | cons b' bits' =>
      obtain ⟨hbit, hrest⟩ := List.cons.inj h
      obtain rfl : b = b' := Bool.xor_right_inj.mp hbit
      exact congrArg _ (ih hrest)

/-- **A register finds every burst no longer than itself.** -/
theorem run_ne_of_burst (c : S) (before after : List Bool) {burst burst' : List Bool}
    (hlen : burst.length = burst'.length) (hwidth : burst.length ≤ width) (hne : burst ≠ burst') :
    R.run c (before ++ burst ++ after) ≠ R.run c (before ++ burst' ++ after) := by
  intro h
  rw [run_append, run_append, run_append, run_append] at h
  have hend := run_injective after h
  have hagree : R.Agree (0 + burst.length) (R.run (R.run c before) burst)
      (R.run (R.run c before) burst') := hend ▸ R.agree_refl _ _
  obtain ⟨hfed, -⟩ := feedback_eq_of_agree hlen (by omega) hagree
  exact hne (bits_eq_of_feedback_eq hfed)

/-- Lists that differ only from `start` on. -/
theorem take_eq_of_window {α : Type} {l l' : List α} {start : Nat}
    (h : ∀ k, l[k]? ≠ l'[k]? → start ≤ k) : l.take start = l'.take start := by
  refine List.ext_getElem? ?_
  intro k
  rw [List.getElem?_take, List.getElem?_take]
  split
  · by_contra hdiff
    have := h k hdiff
    omega
  · rfl

/-- Lists that differ only up to `stop`. -/
theorem drop_eq_of_window {α : Type} {l l' : List α} {stop : Nat}
    (h : ∀ k, l[k]? ≠ l'[k]? → k < stop) : l.drop stop = l'.drop stop := by
  refine List.ext_getElem? ?_
  intro k
  rw [List.getElem?_drop, List.getElem?_drop]
  by_contra hdiff
  have := h (stop + k) hdiff
  omega

theorem run_ne_of_window (c : S) (start : Nat) (hlen : bits.length = bits'.length)
    (hne : bits ≠ bits')
    (hwindow : ∀ k, bits[k]? ≠ bits'[k]? → start ≤ k ∧ k < start + width) :
    R.run c bits ≠ R.run c bits' := by
  have hbefore := take_eq_of_window fun k hk => (hwindow k hk).1
  have hafter := drop_eq_of_window fun k hk => (hwindow k hk).2
  have hsplit (l : List Bool) :
      l = l.take start ++ (l.drop start).take width ++ l.drop (start + width) := by
    rw [← List.drop_drop, List.append_assoc, List.take_append_drop, List.take_append_drop]
  rw [hsplit bits, hsplit bits', ← hbefore, ← hafter]
  refine run_ne_of_burst c _ _ ?_ (List.length_take_le _ _) fun hsame => hne ?_
  · rw [List.length_take, List.length_take, List.length_drop, List.length_drop, hlen]
  · rw [hsplit bits, hsplit bits', hbefore, hafter, hsame]

/-! ## Several bits at once -/

/-- Words can be mixed into the register, ahead of the moves that carry their bits out. -/
structure Mixing (R : ShiftRegister S width) where
  mix : S → S → S
  slide : S → S
  out_mix : ∀ c v, R.out (mix c v) = (R.out c ^^ R.out v)
  push_mix : ∀ c v f, R.push (mix c v) f = mix (R.push c f) (slide v)

namespace Mixing
variable (M : Mixing R)

/-- The first `n` bits that leave a word. -/
def bitsOf : Nat → S → List Bool
  | 0, _ => []
  | n + 1, v => R.out v :: bitsOf n (M.slide v)

theorem step_mix (c v : S) : R.step (M.mix c v) false = M.mix (R.step c (R.out v)) (M.slide v) := by
  rw [step, step, M.out_mix, Bool.xor_false, M.push_mix]

/-- **Mixing a word in and moving on is feeding its bits.** -/
theorem iterate_mix (n : Nat) (c v : S) :
    (fun x => R.step x false)^[n] (M.mix c v) =
      M.mix (R.run c (M.bitsOf n v)) (M.slide^[n] v) := by
  induction n generalizing c v with
  | zero => rfl
  | succ n ih =>
    rw [Function.iterate_succ_apply, M.step_mix, ih, Function.iterate_succ_apply]
    rfl

end Mixing

/-! ## Registers in words -/

section Words
variable {w : Nat}

/-- The mask of a bit that is fed back. -/
def taps (poly : BitVec w) (f : Bool) : BitVec w := if f then poly else 0#w

theorem getLsbD_taps (poly : BitVec w) (f : Bool) (i : Nat) :
    (taps poly f).getLsbD i = (f && poly.getLsbD i) := by
  cases f with
  | false => simp [taps]
  | true => simp [taps]

/-- The register that moves towards the most significant bit. -/
def msbFirst (poly : BitVec w) (hw : 0 < w) (hpoly : poly.getLsbD 0 = true) :
    ShiftRegister (BitVec w) w where
  out c := c.getLsbD (w - 1)
  push c f := c <<< 1 ^^^ taps poly f
  Agree n c c' := ∀ i < n, c.getLsbD i = c'.getLsbD i
  agree_refl _ _ _ _ := rfl
  agree_push {n c c' f f'} hn h := by
    have hbit (c : BitVec w) (f : Bool) : (c <<< 1 ^^^ taps poly f).getLsbD 0 = f := by
      simp [getLsbD_taps, hpoly]
    have hzero := h 0 (by omega)
    rw [hbit, hbit] at hzero
    refine ⟨hzero, ?_⟩
    intro i hi
    have hnext := h (i + 1) (by omega)
    have hinside : i + 1 < w := by omega
    rw [hzero, BitVec.getLsbD_xor, BitVec.getLsbD_xor, Bool.xor_left_inj,
      BitVec.getLsbD_shiftLeft, BitVec.getLsbD_shiftLeft] at hnext
    simpa only [hinside, decide_true, Nat.not_lt.mpr (Nat.le_add_left 1 i), decide_false,
      Bool.not_false, Bool.true_and, Nat.add_sub_cancel] using hnext
  eq_of_agree {c c'} h hout := by
    apply BitVec.eq_of_getLsbD_eq
    intro i hi
    by_cases htop : i = w - 1
    · rw [htop]
      exact hout
    · exact h i (by omega)
  width_pos := hw

/-- The register that moves towards the least significant bit. -/
def lsbFirst (poly : BitVec w) (hw : 0 < w) (hpoly : poly.getLsbD (w - 1) = true) :
    ShiftRegister (BitVec w) w where
  out c := c.getLsbD 0
  push c f := c >>> 1 ^^^ taps poly f
  Agree n c c' := ∀ i < w, w ≤ i + n → c.getLsbD i = c'.getLsbD i
  agree_refl _ _ _ _ _ := rfl
  agree_push {n c c' f f'} hn h := by
    have hbit (c : BitVec w) (f : Bool) : (c >>> 1 ^^^ taps poly f).getLsbD (w - 1) = f := by
      have hout : c.getLsbD (1 + (w - 1)) = false := BitVec.getLsbD_of_ge _ _ (by omega)
      rw [BitVec.getLsbD_xor, getLsbD_taps, hpoly, BitVec.getLsbD_ushiftRight, hout, Bool.false_xor,
        Bool.and_true]
    have htop := h (w - 1) (by omega) (by omega)
    rw [hbit, hbit] at htop
    refine ⟨htop, ?_⟩
    intro i hi hlast
    have hnext := h (i - 1) (by omega) (by omega)
    rw [htop, BitVec.getLsbD_xor, BitVec.getLsbD_xor, Bool.xor_left_inj,
      BitVec.getLsbD_ushiftRight, BitVec.getLsbD_ushiftRight] at hnext
    rwa [show 1 + (i - 1) = i by omega] at hnext
  eq_of_agree {c c'} h hout := by
    apply BitVec.eq_of_getLsbD_eq
    intro i hi
    by_cases hzero : i = 0
    · rw [hzero]
      exact hout
    · exact h i hi (by omega)
  width_pos := hw

variable {poly : BitVec w} {hw : 0 < w}

/-- Words are mixed into a register by exclusive or. -/
def msbMixing (hpoly : poly.getLsbD 0 = true) : Mixing (msbFirst poly hw hpoly) where
  mix c v := c ^^^ v
  slide v := v <<< 1
  out_mix _ _ := BitVec.getLsbD_xor
  push_mix c v f := by
    show (c ^^^ v) <<< 1 ^^^ taps poly f = c <<< 1 ^^^ taps poly f ^^^ v <<< 1
    rw [BitVec.shiftLeft_xor_distrib, BitVec.xor_assoc, BitVec.xor_assoc, BitVec.xor_comm (v <<< 1)]

/-- The register that takes the least significant bit first mixes a word in bit by bit. -/
def lsbMixing (hpoly : poly.getLsbD (w - 1) = true) : Mixing (lsbFirst poly hw hpoly) where
  mix c v := c ^^^ v
  slide v := v >>> 1
  out_mix _ _ := BitVec.getLsbD_xor
  push_mix c v f := by
    show (c ^^^ v) >>> 1 ^^^ taps poly f = c >>> 1 ^^^ taps poly f ^^^ v >>> 1
    rw [BitVec.ushiftRight_xor_distrib, BitVec.xor_assoc, BitVec.xor_assoc,
      BitVec.xor_comm (v >>> 1)]

theorem msbMixing_bitsOf (hpoly : poly.getLsbD 0 = true) {n : Nat} (hn : n ≤ w) (v : BitVec w) :
    (@msbMixing w poly hw hpoly).bitsOf n v = (List.range n).map fun i => v.getLsbD (w - 1 - i) := by
  induction n generalizing v with
  | zero => rfl
  | succ n ih =>
    rw [Mixing.bitsOf, ih (by omega), List.range_succ_eq_map, List.map_cons, List.map_map]
    refine congrArg _ (List.map_congr_left ?_)
    intro i hi
    have hlt := List.mem_range.mp hi
    show (v <<< 1).getLsbD (w - 1 - i) = v.getLsbD (w - 1 - (i + 1))
    rw [BitVec.getLsbD_shiftLeft]
    simp only [show w - 1 - i < w by omega, show ¬ w - 1 - i < 1 by omega, decide_true, decide_false,
      Bool.not_false, Bool.true_and]
    congr 1

theorem lsbMixing_bitsOf (hpoly : poly.getLsbD (w - 1) = true) (n : Nat) (v : BitVec w) :
    (@lsbMixing w poly hw hpoly).bitsOf n v = (List.range n).map fun i => v.getLsbD i := by
  induction n generalizing v with
  | zero => rfl
  | succ n ih =>
    rw [Mixing.bitsOf, ih, List.range_succ_eq_map, List.map_cons, List.map_map]
    refine congrArg _ (List.map_congr_left ?_)
    intro i _
    show (v >>> 1).getLsbD i = v.getLsbD (i + 1)
    rw [BitVec.getLsbD_ushiftRight, Nat.add_comm]

theorem iterate_shiftLeft (n : Nat) (v : BitVec w) : (fun v : BitVec w => v <<< 1)^[n] v = v <<< n := by
  induction n generalizing v with
  | zero => exact (BitVec.shiftLeft_zero v).symm
  | succ n ih => rw [Function.iterate_succ_apply, ih, ← BitVec.shiftLeft_add, Nat.add_comm]

theorem iterate_ushiftRight (n : Nat) (v : BitVec w) :
    (fun v : BitVec w => v >>> 1)^[n] v = v >>> n := by
  induction n generalizing v with
  | zero => exact (BitVec.ushiftRight_zero v).symm
  | succ n ih => rw [Function.iterate_succ_apply, ih, ← BitVec.shiftRight_add, Nat.add_comm]

end Words

end ShiftRegister
