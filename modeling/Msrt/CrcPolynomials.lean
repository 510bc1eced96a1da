import Msrt.BinaryRemainder
import Msrt.CrcRegister

/-! # The CRC loops as polynomial division

What the checksums mean.  The message is one polynomial over the field of two elements, its first
bit the leading coefficient; the loops that start empty and go from the most significant bit on leave
the remainder of the message times `X ^ w` (`toPoly_crcMsb`), for every width up to the word itself.

The loop that goes the other way computes the same checksums with everything read from the other
end: contents, polynomial and the bits of each byte (`crcLsb_mirror`).
-/

namespace Msrt
open Polynomial ShiftRegister

/-! ## Most significant bit first -/

/-- The polynomial of a byte string, the most significant bit of its first byte leading. -/
noncomputable def messagePoly (bytes : Bytes) : (ZMod 2)[X] :=
  bitsPoly (BitOrder.msbFirst.bits bytes)

section Loops
variable {w : Nat} {poly : BitVec w} (hpoly : poly.getLsbD 0 = true) (hw : 0 < w)

/-- The loop, started from words of the register's width. -/
theorem crcMsb_setWidth (hlow : 8 ≤ w) (hle : w ≤ 64) (initial : BitVec w) (bytes : Bytes) :
    (crcMsb bytes w (initial.setWidth 64) (poly.setWidth 64)).setWidth w =
      (msbFirst poly hw hpoly).run initial (BitOrder.msbFirst.bits bytes) := by
  have hround : ∀ c : BitVec w, (c.setWidth 64).setWidth w = c := by
    intro c
    rw [BitVec.setWidth_setWidth_of_le c hle, BitVec.setWidth_eq]
  have hpoly' : ((poly.setWidth 64).setWidth w).getLsbD 0 = true := by rwa [hround]
  have hloop := setWidth_crcMsb hpoly' hw hlow hle (initial.setWidth 64) bytes
  simp only [hround] at hloop
  exact hloop

include hpoly in
/-- **The loop from the most significant bit on computes a remainder.** -/
theorem toPoly_crcMsb (hlow : 8 ≤ w) (hle : w ≤ 64) (bytes : Bytes) :
    toPoly ((crcMsb bytes w 0 (poly.setWidth 64)).setWidth w) =
      (messagePoly bytes * X ^ w) %ₘ (X ^ w + toPoly poly) := by
  have hzero : (0 : BitVec 64) = (0#w).setWidth 64 := (BitVec.setWidth_zero 64 w).symm
  rw [hzero, crcMsb_setWidth hpoly (by omega) hlow hle, toPoly_run_zero]
  rfl

/-! ## Least significant bit first -/

/-- A byte with its bits in the opposite order. -/
def reverseBits (b : UInt8) : UInt8 := ⟨b.toBitVec.reverse⟩

theorem byteBits_reverseBits (b : UInt8) :
    BitOrder.msbFirst.byteBits (reverseBits b) = BitOrder.lsbFirst.byteBits b := by
  apply List.map_congr_left
  intro i hi
  have hlt := List.mem_range.mp hi
  show b.toBitVec.reverse.getLsbD (7 - i) = b.toBitVec.getLsbD i
  rw [BitVec.getLsbD_reverse, BitVec.getMsbD, show 8 - 1 - (7 - i) = i by omega,
    decide_eq_true (by omega), Bool.true_and]

theorem bits_map_reverseBits (bytes : Bytes) :
    BitOrder.msbFirst.bits (bytes.map reverseBits) = BitOrder.lsbFirst.bits bytes := by
  induction bytes with
  | nil => rfl
  | cons b bytes ih =>
    rw [List.map_cons, BitOrder.bits_cons, BitOrder.bits_cons, byteBits_reverseBits, ih]

include hpoly in
/-- **The loop from the least significant bit on is the mirror image** of the other one, with the
bits of every byte reversed. -/
theorem crcLsb_mirror (hlow : 8 ≤ w) (hle : w ≤ 64) (initial : BitVec w) (bytes : Bytes) :
    crcLsb bytes w (initial.reverse.setWidth 64) (poly.reverse.setWidth 64) =
      ((crcMsb (bytes.map reverseBits) w (initial.setWidth 64) (poly.setWidth 64)).setWidth
        w).reverse.setWidth 64 := by
  have hw : 0 < w := by omega
  have hmirror : poly.reverse.getLsbD (w - 1) = true := by rwa [getLsbD_reverse_last hw]
  rw [crcLsb_setWidth hmirror hw hlow hle, @run_reverse w poly hw hpoly hmirror,
    crcMsb_setWidth hpoly hw hlow hle, bits_map_reverseBits]

end Loops

/-! ## The four checksums -/

/-- **The checksums are polynomial remainders.**  For every byte string, the 8, 16 and 64-bit
checksums are the remainder of the message times `X ^ w` on division by the generator, and the
32-bit one is the complement of the reversal of what the other loop gives, from all ones, for the
message with each byte reversed. -/
theorem crc_polynomial_remainders (bytes : Bytes) :
    toPoly (Crc8.calculate bytes).toBitVec =
      (messagePoly bytes * X ^ 8) %ₘ (X ^ 8 + toPoly 0x07#8) ∧
    toPoly (Crc16.calculate bytes) =
      (messagePoly bytes * X ^ 16) %ₘ (X ^ 16 + toPoly 0x1021#16) ∧
    toPoly (Crc64.calculate bytes) =
      (messagePoly bytes * X ^ 64) %ₘ (X ^ 64 + toPoly 0x42f0e1eba9ea3693#64) ∧
    Crc32.calculate bytes =
      ~~~ ((crcMsb (bytes.map reverseBits) 32 0xffffffff 0x04c11db7).setWidth 32).reverse := by
  refine ⟨?_, ?_, ?_, ?_⟩
  · exact @toPoly_crcMsb 8 0x07#8 (by decide) (by decide) (by decide) bytes
  · exact @toPoly_crcMsb 16 0x1021#16 (by decide) (by decide) (by decide) bytes
  · have h := @toPoly_crcMsb 64 0x42f0e1eba9ea3693#64 (by decide) (by decide) (by decide) bytes
    rwa [BitVec.setWidth_eq] at h
  · have h := @crcLsb_mirror 32 0x04c11db7#32 (by decide) (by decide) (by decide)
      0xffffffff#32 bytes
    -- the polynomial of the code is the reversal of the one it is known by
    have hpoly : (0x04c11db7#32).reverse.setWidth 64 = 0xedb88320#64 := by decide +kernel
    have hones : (0xffffffff#32).reverse.setWidth 64 = 0xffffffff#64 := by decide +kernel
    rw [hpoly, hones] at h
    have hnot : ∀ c : BitVec 32, (~~~ c.setWidth 64).setWidth 32 = ~~~ c := by
      intro c
      rw [BitVec.setWidth_not (by decide), BitVec.setWidth_setWidth_of_le c (by decide),
        BitVec.setWidth_eq]
    show (~~~ crcLsb bytes 32 0xffffffff#64 0xedb88320#64).setWidth 32 = _
    rw [h, hnot]
    rfl

end Msrt
