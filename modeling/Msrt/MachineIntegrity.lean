import Msrt.Checked
import Msrt.Integrity

/-! # Integrity backends on the machine

The CRC loops and the SipHash tag once more, with the accesses and the word arithmetic of the
program checked: the positions its loops read, the widths it shifts by, the slices a tag is copied
into.  Loop counters that run to a constant are left to the unchecked definitions.

Both operations succeed on what the codec hands them: `sealTag` writes the tag at the start
of its output (`sealTag_eq`), `verify` answers what the unchecked definition answers (`verify_eq`).
-/

namespace Msrt.Machine
open Checked ByteWords
variable {t : Target}

/-! ## CRC loops -/

/-- The low `width` bits: a shift and a difference of words. -/
def crcMask (width : Nat) : Checked t (BitVec 64) := do
  if width = 64 then
    return BitVec.allOnes 64
  else
    subWord (← shl 1#64 width) 1#64

/-- The most-significant-first loop, with its shifts and its pass over the bytes. -/
def crcMsb (bytes : Bytes) (width : Nat) (initial poly : BitVec 64) : Checked t (BitVec 64) := do
  let topBit ← shl 1#64 (← sub width 1)
  let mask ← crcMask width
  let shift ← sub width 8
  let round (_ : Nat) (checksum : BitVec 64) (b : UInt8) : Checked t (BitVec 64) := do
    return crcBitsMsb (checksum ^^^ (← shl (wordOfByte b) shift)) topBit poly mask
  return (← foldCells round bytes bytes.length 0 (initial &&& mask)) &&& mask

/-- The least-significant-first loop, with its pass over the bytes. -/
def crcLsb (bytes : Bytes) (width : Nat) (initial poly : BitVec 64) : Checked t (BitVec 64) := do
  let mask ← crcMask width
  let round (_ : Nat) (checksum : BitVec 64) (b : UInt8) : Checked t (BitVec 64) :=
    return crcBitsLsb (checksum ^^^ wordOfByte b) poly mask
  return (← foldCells round bytes bytes.length 0 (initial &&& mask)) &&& mask

/-- CRC-8/ATM, the header check. -/
def Crc8.calculate (bytes : Bytes) : Checked t UInt8 := do
  return ⟨(← crcMsb bytes 8 0 0x07).setWidth 8⟩

/-- CRC-16/XMODEM. -/
def Crc16.calculate (bytes : Bytes) : Checked t (BitVec 16) := do
  return (← crcMsb bytes 16 0 0x1021).setWidth 16

/-- CRC-32/ISO-HDLC. -/
def Crc32.calculate (bytes : Bytes) : Checked t (BitVec 32) := do
  return (~~~ (← crcLsb bytes 32 0xffffffff 0xedb88320)).setWidth 32

/-- CRC-64/ECMA-182. -/
def Crc64.calculate (bytes : Bytes) : Checked t (BitVec 64) :=
  crcMsb bytes 64 0 0x42f0e1eba9ea3693

/-- Writes a CRC value of `len` bytes at the start of `out`. -/
def sealValue (len value : Nat) (out : Bytes) : Checked t Bytes := write out 0 len (leBytes len value)

/-- Compares a checksum with the first `len` bytes of a received tag; a shorter tag is refused. -/
def verifyValue (len value : Nat) (tag : Bytes) : Checked t Bool := do
  if tag.length < len then
    return false
  else
    return value == ofLeBytes (← readCells (tag.take len) len 0)

theorem crcMask_eq {width : Nat} (h : width ≤ 64) :
    (crcMask width : Checked t (BitVec 64)) = pure (Msrt.crcMask width) := by
  unfold crcMask Msrt.crcMask
  by_cases hw : width = 64
  · rw [if_pos hw, if_pos hw]
  · have hlt : width < 64 := by omega
    have hone : 1#64 ≤ 1#64 <<< width := by
      rw [BitVec.le_def, BitVec.toNat_shiftLeft, BitVec.toNat_ofNat, Nat.shiftLeft_eq]
      have hpow : 2 ^ width < 2 ^ 64 := Nat.pow_lt_pow_right (by decide) hlt
      have hpos : 0 < 2 ^ width := Nat.two_pow_pos width
      rw [Nat.mod_eq_of_lt (by omega), Nat.mod_eq_of_lt (by omega)]
      omega
    rw [if_neg hw, if_neg hw, shl_eq hlt, pure_bind, subWord, if_pos hone]

theorem crcMsb_eq {bytes : Bytes} (hlen : bytes.length ≤ 65535) {width : Nat} (hlow : 8 ≤ width)
    (hhigh : width ≤ 64) (initial poly : BitVec 64) :
    (crcMsb bytes width initial poly : Checked t (BitVec 64)) =
      pure (Msrt.crcMsb bytes width initial poly) := by
  unfold crcMsb
  rw [sub_eq (by omega), pure_bind, shl_eq (by omega), pure_bind, crcMask_eq hhigh, pure_bind,
    sub_eq hlow, pure_bind]
  dsimp only
  rw [foldCells_eq_foldl (f := fun checksum b => crcBitsMsb
    (checksum ^^^ (wordOfByte b <<< (width - 8))) (1#64 <<< (width - 1)) poly
    (Msrt.crcMask width)) ?_ hlen, pure_bind]
  · rfl
  · intro i acc b
    rw [shl_eq (by omega), pure_bind]

theorem crcLsb_eq {bytes : Bytes} (hlen : bytes.length ≤ 65535) {width : Nat} (h : width ≤ 64)
    (initial poly : BitVec 64) :
    (crcLsb bytes width initial poly : Checked t (BitVec 64)) =
      pure (Msrt.crcLsb bytes width initial poly) := by
  unfold crcLsb
  rw [crcMask_eq h, pure_bind]
  dsimp only
  rw [foldCells_eq_foldl (f := fun checksum b =>
    crcBitsLsb (checksum ^^^ wordOfByte b) poly (Msrt.crcMask width)) (fun _ _ _ => rfl) hlen,
    pure_bind]
  rfl

theorem sealValue_eq (len value : Nat) {out : Bytes} (h : len ≤ out.length) :
    (sealValue len value out : Checked t Bytes) =
      pure (fill out (Msrt.sealValue len value)) :=
  write_start (length_leBytes len value) h

theorem verifyValue_eq (len value : Nat) (tag : Bytes) :
    (verifyValue len value tag : Checked t Bool) = pure (Msrt.verifyValue len value tag) := by
  unfold verifyValue Msrt.verifyValue
  by_cases h : tag.length < len
  · rw [if_pos h, if_pos h]
  · rw [if_neg h, if_neg h, readCells_eq (by rw [List.length_take]; omega), pure_bind,
      List.drop_zero, List.take_take, Nat.min_self]

/-! ## SipHash-2-4-128 -/

namespace SipState

/-- The word of one eight-byte block. -/
def chunkWord (chunk : Bytes) : Checked t (BitVec 64) := do
  return BitVec.ofNat 64 (ofLeBytes (← readCells chunk 8 0))

/-- Compresses the full eight-byte blocks and returns the remaining tail. -/
def compressChunks (s : Msrt.SipState) : Bytes → Checked t (Msrt.SipState × Bytes)
  | b0 :: b1 :: b2 :: b3 :: b4 :: b5 :: b6 :: b7 :: rest => do
    let word ← chunkWord [b0, b1, b2, b3, b4, b5, b6, b7]
    compressChunks (s.compress word) rest
  | tail => pure (s, tail)

/-- The last word, shifted together byte by byte, and the two halves of the tag written out. -/
def finish (s : Msrt.SipState) (len : Nat) (tail : Bytes) : Checked t Bytes := do
  let round (i : Nat) (last : BitVec 64) (b : UInt8) : Checked t (BitVec 64) := do
    return last ||| (← shl (wordOfByte b) (← mul i 8))
  let last ← foldCells round tail tail.length 0 (BitVec.ofNat 64 len <<< 56)
  let s := s.compress last
  let s := Msrt.SipState.rounds 4 { s with v2 := s.v2 ^^^ 0xee }
  let left := s.v0 ^^^ s.v1 ^^^ s.v2 ^^^ s.v3
  let s := Msrt.SipState.rounds 4 { s with v1 := s.v1 ^^^ 0xdd }
  let right := s.v0 ^^^ s.v1 ^^^ s.v2 ^^^ s.v3
  let tag ← write (List.replicate 16 0) 0 8 (leBytes 8 left.toNat)
  write tag 8 16 (leBytes 8 right.toNat)

theorem compressChunks_eq (s : Msrt.SipState) (bytes : Bytes) :
    (compressChunks s bytes : Checked t (Msrt.SipState × Bytes)) = pure (s.compressChunks bytes) := by
  induction s, bytes using Msrt.SipState.compressChunks.induct with
  | case1 s b0 b1 b2 b3 b4 b5 b6 b7 rest ih =>
    unfold compressChunks chunkWord Msrt.SipState.compressChunks
    rw [readCells_eq (Nat.le_refl 8), pure_bind, pure_bind]
    exact ih
  | case2 s tail h =>
    rw [compressChunks, Msrt.SipState.compressChunks] <;> exact h

/-- Fewer than eight bytes are left over. -/
theorem length_tail_lt (s : Msrt.SipState) (bytes : Bytes) :
    (s.compressChunks bytes).2.length < 8 := by
  induction s, bytes using Msrt.SipState.compressChunks.induct with
  | case1 s b0 b1 b2 b3 b4 b5 b6 b7 rest ih =>
    unfold Msrt.SipState.compressChunks
    exact ih
  | case2 s tail h =>
    have hstop : s.compressChunks tail = (s, tail) := by
      rw [Msrt.SipState.compressChunks]
      exact h
    rw [hstop]
    match tail, h with
    | [], _ | [_], _ | [_, _], _ | [_, _, _], _ | [_, _, _, _], _ | [_, _, _, _, _], _
    | [_, _, _, _, _, _], _ | [_, _, _, _, _, _, _], _ => simp
    | b0 :: b1 :: b2 :: b3 :: b4 :: b5 :: b6 :: b7 :: rest, h =>
      exact (h b0 b1 b2 b3 b4 b5 b6 b7 rest rfl).elim

theorem write_halves {left right : Bytes} (hl : left.length = 8) (hr : right.length = 8) :
    (write (List.replicate 16 0) 0 8 left >>= fun tag => write tag 8 16 right : Checked t Bytes) =
      pure (left ++ right) := by
  rw [write_start hl (by decide), pure_bind, write_fill hl (by rw [hr]) (by decide), fill,
    List.drop_of_length_le (by simp [hl, hr]), List.append_nil]

theorem finish_eq (s : Msrt.SipState) (len : Nat) {tail : Bytes} (h : tail.length < 8) :
    (finish s len tail : Checked t Bytes) = pure (s.finish len tail) := by
  unfold finish
  dsimp only
  rw [foldCells_eq (f := fun last cell => last ||| (wordOfByte cell.1 <<< (cell.2 * 8))) ?_
    (by omega) _ (Nat.zero_add _), pure_bind]
  · rw [write_halves (length_leBytes _ _) (length_leBytes _ _)]
    rfl
  · intro i acc b hi
    rw [mul_small (by omega), pure_bind, shl_eq (by omega), pure_bind]

end SipState

/-- SipHash-2-4 with 128 bits of output. -/
def siphash24_128 (bytes : Bytes) (k0 k1 : BitVec 64) : Checked t Bytes := do
  let state : Msrt.SipState :=
    { v0 := k0 ^^^ 0x736f6d6570736575
      v1 := k1 ^^^ 0x646f72616e646f6d ^^^ 0xee
      v2 := k0 ^^^ 0x6c7967656e657261
      v3 := k1 ^^^ 0x7465646279746573 }
  let chunks ← SipState.compressChunks state bytes
  SipState.finish chunks.1 bytes.length chunks.2

namespace SipTag

/-- The two key words, read cell by cell. -/
def keys (tag : Msrt.SipTag) : Checked t (BitVec 64 × BitVec 64) := do
  let k0 ← readCells tag.key 8 0
  let k1 ← readCells tag.key 8 8
  return (BitVec.ofNat 64 (ofLeBytes k0), BitVec.ofNat 64 (ofLeBytes k1))

/-- The tag of a byte string. -/
def calculate (tag : Msrt.SipTag) (bytes : Bytes) : Checked t Bytes := do
  let (k0, k1) ← keys tag
  siphash24_128 bytes k0 k1

/-- Compares every tag byte and accumulates the differences, from position `i` on. -/
def diffLoop (expected tag : Bytes) : Nat → Nat → UInt8 → Checked t UInt8
  | 0, _, diff => pure diff
  | remaining + 1, i, diff => do
    let a ← index expected i
    let b ← index tag i
    diffLoop expected tag remaining (i + 1) (diff ||| (a ^^^ b))

/-- Compares the tag with a received one in a loop over all sixteen bytes. -/
def verify (tag : Msrt.SipTag) (bytes received : Bytes) : Checked t Bool := do
  if received.length < Msrt.SipTag.tagLen then
    return false
  else
    let expected ← calculate tag bytes
    let diff ← diffLoop expected (received.take Msrt.SipTag.tagLen) Msrt.SipTag.tagLen 0 0
    return diff == 0

theorem calculate_eq (tag : Msrt.SipTag) (bytes : Bytes) :
    (calculate tag bytes : Checked t Bytes) = pure (tag.calculate bytes) := by
  have hkey := tag.key_length
  have hk1 : (tag.key.drop 8).take 8 = tag.key.drop 8 :=
    List.take_of_length_le (by rw [List.length_drop]; omega)
  unfold calculate keys
  rw [readCells_eq (by omega), pure_bind, readCells_eq (by omega), pure_bind, pure_bind, hk1,
    List.drop_zero]
  unfold siphash24_128
  dsimp only
  rw [SipState.compressChunks_eq, pure_bind, SipState.finish_eq _ _ (SipState.length_tail_lt _ _)]
  rfl

theorem diffLoop_eq {expected tag : Bytes} {remaining i : Nat} (diff : UInt8)
    (he : i + remaining = expected.length) (ht : i + remaining = tag.length) :
    (diffLoop expected tag remaining i diff : Checked t UInt8) =
      pure ((List.zipWith (· ^^^ ·) (expected.drop i) (tag.drop i)).foldl (· ||| ·) diff) := by
  induction remaining generalizing i diff with
  | zero => rw [diffLoop, List.drop_of_length_le (by omega)]; rfl
  | succ remaining ih =>
    have hi : i < expected.length := by omega
    have hi' : i < tag.length := by omega
    rw [diffLoop, index_eq (List.getElem?_eq_getElem hi), pure_bind,
      index_eq (List.getElem?_eq_getElem hi'), pure_bind, ih _ (by omega) (by omega),
      List.drop_eq_getElem_cons hi, List.drop_eq_getElem_cons hi', List.zipWith_cons_cons,
      List.foldl_cons]

theorem verify_eq (tag : Msrt.SipTag) (bytes received : Bytes) :
    (verify tag bytes received : Checked t Bool) = pure (tag.verify bytes received) := by
  unfold verify Msrt.SipTag.verify
  by_cases h : received.length < Msrt.SipTag.tagLen
  · rw [if_pos h, if_pos h]
  · have hlen := Msrt.IntegrityConfig.length_calculate tag bytes
    rw [if_neg h, if_neg h, calculate_eq, pure_bind, diffLoop_eq, pure_bind]
    · rfl
    · rw [hlen]; rfl
    · rw [List.length_take]; omega

end SipTag

/-! ## The selected backend -/

namespace IntegrityConfig

/-- Writes the backend's tag to the front of the output. -/
def sealTag (integrity : Msrt.IntegrityConfig) (bytes out : Bytes) : Checked t Bytes := do
  match integrity with
  | .crc16 => sealValue 2 (← Crc16.calculate bytes).toNat out
  | .crc32 => sealValue 4 (← Crc32.calculate bytes).toNat out
  | .crc64 => sealValue 8 (← Crc64.calculate bytes).toNat out
  | .sipTag tag => write out 0 Msrt.SipTag.tagLen (← SipTag.calculate tag bytes)

/-- Whether the backend accepts the received tag. -/
def verify (integrity : Msrt.IntegrityConfig) (bytes tag : Bytes) : Checked t Bool := do
  match integrity with
  | .crc16 => verifyValue 2 (← Crc16.calculate bytes).toNat tag
  | .crc32 => verifyValue 4 (← Crc32.calculate bytes).toNat tag
  | .crc64 => verifyValue 8 (← Crc64.calculate bytes).toNat tag
  | .sipTag key => SipTag.verify key bytes tag

end IntegrityConfig

section
variable {bytes : Bytes} (hlen : bytes.length ≤ 65535)
include hlen

theorem Crc8.calculate_eq :
    (Crc8.calculate bytes : Checked t UInt8) = pure (Msrt.Crc8.calculate bytes) := by
  unfold calculate
  rw [crcMsb_eq hlen (by decide) (by decide), pure_bind]
  rfl

theorem Crc16.calculate_eq :
    (Crc16.calculate bytes : Checked t (BitVec 16)) = pure (Msrt.Crc16.calculate bytes) := by
  unfold calculate
  rw [crcMsb_eq hlen (by decide) (by decide), pure_bind]
  rfl

theorem Crc32.calculate_eq :
    (Crc32.calculate bytes : Checked t (BitVec 32)) = pure (Msrt.Crc32.calculate bytes) := by
  unfold calculate
  rw [crcLsb_eq hlen (by decide), pure_bind]
  rfl

theorem Crc64.calculate_eq :
    (Crc64.calculate bytes : Checked t (BitVec 64)) = pure (Msrt.Crc64.calculate bytes) :=
  crcMsb_eq hlen (by decide) (by decide) _ _

/-- **Sealing succeeds** on any output with room for the tag. -/
theorem IntegrityConfig.sealTag_eq (integrity : Msrt.IntegrityConfig) {out : Bytes}
    (h : integrity.tagLen ≤ out.length) :
    (sealTag integrity bytes out : Checked t Bytes) =
      pure (fill out (integrity.sealTag bytes)) := by
  unfold sealTag
  cases integrity with
  | crc16 => rw [Crc16.calculate_eq hlen, pure_bind]; exact sealValue_eq _ _ h
  | crc32 => rw [Crc32.calculate_eq hlen, pure_bind]; exact sealValue_eq _ _ h
  | crc64 => rw [Crc64.calculate_eq hlen, pure_bind]; exact sealValue_eq _ _ h
  | sipTag tag =>
    have htag : (tag.calculate bytes).length = Msrt.SipTag.tagLen :=
      Msrt.IntegrityConfig.length_calculate tag bytes
    dsimp only
    rw [SipTag.calculate_eq, pure_bind]
    exact write_start htag h

/-- **Verifying succeeds** with the answer of the unchecked backend. -/
theorem IntegrityConfig.verify_eq (integrity : Msrt.IntegrityConfig) (tag : Bytes) :
    (verify integrity bytes tag : Checked t Bool) = pure (integrity.verify bytes tag) := by
  unfold verify
  cases integrity with
  | crc16 => rw [Crc16.calculate_eq hlen, pure_bind]; exact verifyValue_eq _ _ _
  | crc32 => rw [Crc32.calculate_eq hlen, pure_bind]; exact verifyValue_eq _ _ _
  | crc64 => rw [Crc64.calculate_eq hlen, pure_bind]; exact verifyValue_eq _ _ _
  | sipTag key => exact SipTag.verify_eq key bytes tag

end

end Msrt.Machine
