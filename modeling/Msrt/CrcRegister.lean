import Msrt.Integrity
import Msrt.ShiftRegister

/-! # The CRC loops as registers

Both CRC loops keep a shift register with feedback in a 64-bit word and mix whole bytes into it.  The
register has the width of the checksum, and it is fed with the bits of the bytes in the order in
which the loop takes them: most significant first (`setWidth_crcMsb`) or least significant first
(`crcLsb_setWidth`).  What the first loop shifts beyond its width never comes back, so it is cut off
at any time; the second one never has anything there.
-/

namespace Msrt
open ShiftRegister

/-! ## The bits of a message -/

/-- Which bit of a byte a CRC loop takes first. -/
inductive BitOrder where
  | msbFirst
  | lsbFirst
  deriving DecidableEq, Repr

namespace BitOrder

/-- The bits of one byte. -/
def byteBits (order : BitOrder) (b : UInt8) : List Bool :=
  match order with
  | msbFirst => (List.range 8).map fun i => b.toBitVec.getLsbD (7 - i)
  | lsbFirst => (List.range 8).map fun i => b.toBitVec.getLsbD i

/-- The bits of a byte string in processing order. -/
def bits (order : BitOrder) (bytes : Bytes) : List Bool := bytes.flatMap order.byteBits

variable {order : BitOrder}

@[simp] theorem length_byteBits (b : UInt8) : (order.byteBits b).length = 8 := by
  cases order with
  | msbFirst => rfl
  | lsbFirst => rfl

theorem bits_cons (b : UInt8) (bytes : Bytes) :
    order.bits (b :: bytes) = order.byteBits b ++ order.bits bytes := List.flatMap_cons

theorem bits_append (bytes more : Bytes) : order.bits (bytes ++ more) =
    order.bits bytes ++ order.bits more := List.flatMap_append

@[simp] theorem length_bits (bytes : Bytes) : (order.bits bytes).length = 8 * bytes.length := by
  induction bytes with
  | nil => rfl
  | cons b bytes ih =>
    rw [bits_cons, List.length_append, length_byteBits, ih, List.length_cons]
    omega

theorem byteBits_injective {b b' : UInt8} (h : order.byteBits b = order.byteBits b') : b = b' := by
  apply UInt8.eq_of_toBitVec_eq
  apply BitVec.eq_of_getLsbD_eq
  intro i hi
  cases order with
  | msbFirst =>
    unfold byteBits at h
    have hbit := List.map_inj_left.mp h (7 - i) (List.mem_range.mpr (by omega))
    rwa [show 7 - (7 - i) = i by omega] at hbit
  | lsbFirst =>
    unfold byteBits at h
    exact List.map_inj_left.mp h i (List.mem_range.mpr hi)

theorem bits_injective {bytes bytes' : Bytes} (h : order.bits bytes = order.bits bytes') :
    bytes = bytes' := by
  induction bytes generalizing bytes' with
  | nil =>
    have hlen := congrArg List.length h
    rw [length_bits, length_bits, List.length_nil] at hlen
    exact (List.eq_nil_of_length_eq_zero (by omega)).symm
  | cons b bytes ih =>
    cases bytes' with
    | nil =>
      have hlen := congrArg List.length h
      rw [length_bits, length_bits, List.length_nil, List.length_cons] at hlen
      omega
    | cons b' bytes' =>
      obtain ⟨hbyte, hrest⟩ := List.append_inj h (by rw [length_byteBits, length_byteBits])
      rw [byteBits_injective hbyte, ih hrest]

/-- The bits of a byte string with one byte exchanged. -/
theorem getElem?_bits_around (before after : Bytes) (b b' : UInt8) {k : Nat}
    (hk : k < 8 * before.length ∨ 8 * before.length + 8 ≤ k) :
    (order.bits (before ++ b :: after))[k]? = (order.bits (before ++ b' :: after))[k]? := by
  rw [bits_append, bits_append, bits_cons, bits_cons]
  rcases hk with hk | hk
  · rw [List.getElem?_append_left (by rwa [length_bits]),
      List.getElem?_append_left (by rwa [length_bits])]
  · have hbefore : (order.bits before).length ≤ k := by
      rw [length_bits]
      omega
    have hbyte (b : UInt8) : (order.byteBits b).length ≤ k - (order.bits before).length := by
      rw [length_bits, length_byteBits]
      omega
    rw [List.getElem?_append_right hbefore, List.getElem?_append_right (hbyte b),
      List.getElem?_append_right hbefore, List.getElem?_append_right (hbyte b'), length_byteBits,
      length_byteBits]

theorem bits_set_window {bytes : Bytes} {j k : Nat} {b : UInt8}
    (h : (order.bits bytes)[k]? ≠ (order.bits (bytes.set j b))[k]?) : 8 * j ≤ k ∧ k < 8 * j + 8 := by
  by_contra hout
  apply h
  by_cases hj : j < bytes.length
  · have hlen : (bytes.take j).length = j := List.length_take_of_le (Nat.le_of_lt hj)
    have hbytes : bytes = bytes.take j ++ bytes[j] :: bytes.drop (j + 1) := by
      rw [← List.drop_eq_getElem_cons hj, List.take_append_drop]
    rw [List.set_eq_take_append_cons_drop, if_pos hj]
    refine (congrArg (fun l => (order.bits l)[k]?) hbytes).trans ?_
    apply getElem?_bits_around
    rw [hlen]
    omega
  · rw [List.set_eq_of_length_le (Nat.not_lt.mp hj)]

end BitOrder

/-! ## The loops as registers -/

section Loops
variable {w : Nat}

theorem getLsbD_crcMask (hw : w ≤ 64) {i : Nat} (hi : i < 64) :
    (crcMask w).getLsbD i = decide (i < w) := by
  have hall : ∀ w ≤ 64, ∀ i < 64, (crcMask w).getLsbD i = decide (i < w) := by decide +kernel
  exact hall w hw i hi

theorem setWidth_and_crcMask (hw : w ≤ 64) (x : BitVec 64) :
    (x &&& crcMask w).setWidth w = x.setWidth w := by
  apply BitVec.eq_of_getLsbD_eq
  intro i hi
  simp only [BitVec.getLsbD_setWidth, BitVec.getLsbD_and, getLsbD_crcMask hw (show i < 64 by omega),
    hi, decide_true, Bool.and_true]

theorem getLsbD_wordOfByte (b : UInt8) (i : Nat) :
    (wordOfByte b).getLsbD i = b.toBitVec.getLsbD i := by
  rw [wordOfByte, BitVec.getLsbD_setWidth]
  by_cases hi : i < 64
  · rw [decide_eq_true hi, Bool.true_and]
  · rw [decide_eq_false hi, Bool.false_and, BitVec.getLsbD_of_ge _ _ (by omega)]

/-! ### Most significant bit first -/

section Msb

theorem and_topBit_ne_zero (x : BitVec 64) {i : Nat} (hi : i < 64) :
    x &&& 1#64 <<< i ≠ 0#64 ↔ x.getLsbD i = true := by
  rw [← BitVec.twoPow_eq, BitVec.and_twoPow]
  by_cases hbit : x.getLsbD i = true
  · rw [if_pos hbit]
    refine iff_of_true ?_ hbit
    intro hzero
    have htop := congrArg (BitVec.getLsbD · i) hzero
    simp [hi] at htop
  · rw [if_neg hbit]
    exact iff_of_false (fun h => h rfl) hbit

theorem setWidth_shiftLeft (hw : w ≤ 64) (x : BitVec 64) (n : Nat) :
    (x <<< n).setWidth w = x.setWidth w <<< n := by
  apply BitVec.eq_of_getLsbD_eq
  intro i hi
  have hi' : i < 64 := by omega
  have hsub : i - n < w := by omega
  simp only [BitVec.getLsbD_setWidth, BitVec.getLsbD_shiftLeft, hi, hi', hsub, decide_true,
    Bool.true_and]

variable {poly : BitVec 64} (hpoly : (poly.setWidth w).getLsbD 0 = true) (hw : 0 < w)

theorem setWidth_crcBitMsb (hle : w ≤ 64) (x : BitVec 64) :
    (crcBitMsb (1#64 <<< (w - 1)) poly x).setWidth w =
      (msbFirst (poly.setWidth w) hw hpoly).step (x.setWidth w) false := by
  have htest := and_topBit_ne_zero x (show w - 1 < 64 by omega)
  have hout : (x.setWidth w).getLsbD (w - 1) = x.getLsbD (w - 1) := by
    rw [BitVec.getLsbD_setWidth, decide_eq_true (by omega), Bool.true_and]
  show _ = x.setWidth w <<< 1 ^^^ taps (poly.setWidth w) ((x.setWidth w).getLsbD (w - 1) ^^ false)
  rw [hout, Bool.xor_false, ← setWidth_shiftLeft hle]
  unfold crcBitMsb
  by_cases hbit : x.getLsbD (w - 1) = true
  · rw [if_pos (htest.mpr hbit), hbit, BitVec.setWidth_xor]
    rfl
  · rw [if_neg fun h => hbit (htest.mp h), Bool.eq_false_iff.mpr hbit]
    exact (BitVec.xor_zero).symm

/-- One byte of the loop is eight bits of the register. -/
theorem setWidth_crcBitsMsb (hlow : 8 ≤ w) (hle : w ≤ 64) (c : BitVec 64) (b : UInt8) :
    (crcBitsMsb (c ^^^ (wordOfByte b <<< (w - 8))) (1#64 <<< (w - 1)) poly (crcMask w)).setWidth w =
      (msbFirst (poly.setWidth w) hw hpoly).run (c.setWidth w) (BitOrder.msbFirst.byteBits b) := by
  have hword : ∀ i < 8, ((wordOfByte b <<< (w - 8)).setWidth w).getLsbD (w - 1 - i) =
      b.toBitVec.getLsbD (7 - i) := by
    intro i hi
    have hpos : w - 1 - i - (w - 8) = 7 - i := by omega
    rw [BitVec.getLsbD_setWidth, BitVec.getLsbD_shiftLeft, hpos, getLsbD_wordOfByte]
    simp [show w - 1 - i < w by omega, show w - 1 - i < 64 by omega,
      show ¬ w - 1 - i < w - 8 by omega]
  have hgone : (wordOfByte b <<< (w - 8)).setWidth w <<< 8 = 0#w := by
    apply BitVec.eq_of_getLsbD_eq
    intro i hi
    rw [BitVec.getLsbD_shiftLeft, BitVec.getLsbD_setWidth, BitVec.getLsbD_shiftLeft]
    by_cases hlow : i < 8
    · simp [hlow]
    · simp [show i - 8 < w - 8 by omega]
  have hsemi : Function.Semiconj (BitVec.setWidth w) (crcBitMsb (1#64 <<< (w - 1)) poly)
      fun x => (msbFirst (poly.setWidth w) hw hpoly).step x false :=
    fun x => setWidth_crcBitMsb hpoly hw hle x
  have hloop := hsemi.iterate_right 8 (c ^^^ (wordOfByte b <<< (w - 8)))
  unfold crcBitsMsb
  rw [setWidth_and_crcMask hle, hloop, BitVec.setWidth_xor]
  refine ((msbMixing hpoly).iterate_mix 8 (c.setWidth w) _).trans ?_
  show _ ^^^ (fun v : BitVec w => v <<< 1)^[8] _ = _
  rw [iterate_shiftLeft, hgone, BitVec.xor_zero, msbMixing_bitsOf hpoly hlow]
  exact congrArg _ (List.map_congr_left fun i hi => hword i (List.mem_range.mp hi))

/-- **The loop from the most significant bit on is a register.** -/
theorem setWidth_crcMsb (hlow : 8 ≤ w) (hle : w ≤ 64) (initial : BitVec 64) (bytes : Bytes) :
    (crcMsb bytes w initial poly).setWidth w =
      (msbFirst (poly.setWidth w) hw hpoly).run (initial.setWidth w)
        (BitOrder.msbFirst.bits bytes) := by
  have hfold (c : BitVec 64) : (bytes.foldl (fun checksum b =>
      crcBitsMsb (checksum ^^^ (wordOfByte b <<< (w - 8))) (1#64 <<< (w - 1)) poly (crcMask w))
      c).setWidth w =
      (msbFirst (poly.setWidth w) hw hpoly).run (c.setWidth w) (BitOrder.msbFirst.bits bytes) := by
    induction bytes generalizing c with
    | nil => rfl
    | cons b bytes ih =>
      rw [List.foldl_cons, ih, setWidth_crcBitsMsb hpoly hw hlow hle, BitOrder.bits_cons, run_append]
  unfold crcMsb
  rw [setWidth_and_crcMask hle, hfold, setWidth_and_crcMask hle]

end Msb

/-! ### Least significant bit first -/

section Lsb
variable {poly : BitVec w} (hpoly : poly.getLsbD (w - 1) = true) (hw : 0 < w)

/-- A word of the register's width passes the mask. -/
theorem setWidth_and_crcMask_self (hle : w ≤ 64) (c : BitVec w) :
    c.setWidth 64 &&& crcMask w = c.setWidth 64 := by
  apply BitVec.eq_of_getLsbD_eq
  intro i hi
  rw [BitVec.getLsbD_and, getLsbD_crcMask hle hi, BitVec.getLsbD_setWidth]
  by_cases hin : i < w
  · rw [decide_eq_true hin, Bool.and_true]
  · rw [BitVec.getLsbD_of_ge c i (by omega), Bool.and_false, Bool.false_and]

theorem crcBitLsb_setWidth (hle : w ≤ 64) (c : BitVec w) :
    crcBitLsb (poly.setWidth 64) (c.setWidth 64) =
      ((lsbFirst poly hw hpoly).step c false).setWidth 64 := by
  have htest : c.setWidth 64 &&& 1#64 ≠ 0#64 ↔ c.getLsbD 0 = true := by
    have hbit := and_topBit_ne_zero (c.setWidth 64) (show 0 < 64 by omega)
    rwa [BitVec.shiftLeft_zero, BitVec.getLsbD_setWidth, decide_eq_true (by omega), Bool.true_and]
      at hbit
  have hshift : c.setWidth 64 >>> 1 = (c >>> 1).setWidth 64 := by
    apply BitVec.eq_of_getLsbD_eq
    intro i hi
    rw [BitVec.getLsbD_ushiftRight, BitVec.getLsbD_setWidth, BitVec.getLsbD_setWidth,
      BitVec.getLsbD_ushiftRight, decide_eq_true hi, Bool.true_and]
    by_cases hlast : 1 + i < 64
    · rw [decide_eq_true hlast, Bool.true_and]
    · rw [decide_eq_false hlast, Bool.false_and, BitVec.getLsbD_of_ge _ _ (by omega)]
  show _ = (c >>> 1 ^^^ taps poly (c.getLsbD 0 ^^ false)).setWidth 64
  rw [Bool.xor_false, BitVec.setWidth_xor, ← hshift]
  unfold crcBitLsb
  by_cases hbit : c.getLsbD 0 = true
  · rw [if_pos (htest.mpr hbit), hbit]
    rfl
  · rw [if_neg fun h => hbit (htest.mp h), Bool.eq_false_iff.mpr hbit]
    simp [taps]

theorem crcBitsLsb_setWidth (hlow : 8 ≤ w) (hle : w ≤ 64) (c : BitVec w) (b : UInt8) :
    crcBitsLsb (c.setWidth 64 ^^^ wordOfByte b) (poly.setWidth 64) (crcMask w) =
      ((lsbFirst poly hw hpoly).run c (BitOrder.lsbFirst.byteBits b)).setWidth 64 := by
  have hword : wordOfByte b = (b.toBitVec.setWidth w).setWidth 64 := by
    apply BitVec.eq_of_getLsbD_eq
    intro i hi
    rw [getLsbD_wordOfByte, BitVec.getLsbD_setWidth, BitVec.getLsbD_setWidth, decide_eq_true hi,
      Bool.true_and]
    by_cases hin : i < w
    · rw [decide_eq_true hin, Bool.true_and]
    · rw [decide_eq_false hin, Bool.false_and, BitVec.getLsbD_of_ge _ _ (by omega)]
  have hgone : b.toBitVec.setWidth w >>> 8 = 0#w := by
    apply BitVec.eq_of_getLsbD_eq
    intro i hi
    rw [BitVec.getLsbD_ushiftRight, BitVec.getLsbD_setWidth,
      BitVec.getLsbD_of_ge b.toBitVec _ (by omega), Bool.and_false, BitVec.getLsbD_zero]
  have hsemi : Function.Semiconj (BitVec.setWidth 64)
      (fun x => (lsbFirst poly hw hpoly).step x false) (crcBitLsb (poly.setWidth 64)) :=
    fun c => (crcBitLsb_setWidth hpoly hw hle c).symm
  have hloop := hsemi.iterate_right 8 (c ^^^ b.toBitVec.setWidth w)
  have hmixed : (fun x => (lsbFirst poly hw hpoly).step x false)^[8] (c ^^^ b.toBitVec.setWidth w) =
      (lsbFirst poly hw hpoly).run c (BitOrder.lsbFirst.byteBits b) := by
    refine ((lsbMixing hpoly).iterate_mix 8 c _).trans ?_
    show _ ^^^ (fun v : BitVec w => v >>> 1)^[8] _ = _
    rw [iterate_ushiftRight, hgone, BitVec.xor_zero, lsbMixing_bitsOf hpoly]
    refine congrArg _ (List.map_congr_left ?_)
    intro i hi
    have hlt := List.mem_range.mp hi
    rw [BitVec.getLsbD_setWidth, decide_eq_true (by omega), Bool.true_and]
  unfold crcBitsLsb
  rw [hword, ← BitVec.setWidth_xor, ← hloop, setWidth_and_crcMask_self hle, hmixed]

/-- **The loop from the least significant bit on is a register.** -/
theorem crcLsb_setWidth (hlow : 8 ≤ w) (hle : w ≤ 64) (initial : BitVec w) (bytes : Bytes) :
    crcLsb bytes w (initial.setWidth 64) (poly.setWidth 64) =
      ((lsbFirst poly hw hpoly).run initial (BitOrder.lsbFirst.bits bytes)).setWidth 64 := by
  have hfold (c : BitVec w) : bytes.foldl (fun checksum b =>
      crcBitsLsb (checksum ^^^ wordOfByte b) (poly.setWidth 64) (crcMask w)) (c.setWidth 64) =
      ((lsbFirst poly hw hpoly).run c (BitOrder.lsbFirst.bits bytes)).setWidth 64 := by
    induction bytes generalizing c with
    | nil => rfl
    | cons b bytes ih =>
      rw [List.foldl_cons, crcBitsLsb_setWidth hpoly hw hlow hle, ih, BitOrder.bits_cons, run_append]
  unfold crcLsb
  dsimp only
  rw [setWidth_and_crcMask_self hle, hfold, setWidth_and_crcMask_self hle]

end Lsb

end Loops

end Msrt
