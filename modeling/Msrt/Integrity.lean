import Mathlib.Logic.Function.Iterate
import Msrt.ByteWords
import Msrt.Core

/-! # Packet integrity backends

The CRC loops and the keyed SipHash-2-4-128 tag, on 64-bit words, and the configuration that
selects one of them.  Shifts drop the bits above the word, as in the program.

Everything above this layer uses two facts only: a tag has the backend's length
(`IntegrityConfig.length_sealTag`) and a sealed tag verifies (`IntegrityConfig.verify_sealTag`).
-/

namespace Msrt
open ByteWords

/-! ## CRC loops -/

/-- The low `width` bits. -/
def crcMask (width : Nat) : BitVec 64 :=
  if width = 64 then BitVec.allOnes 64 else (1#64 <<< width) - 1#64

/-- One bit of the most-significant-first loop. -/
def crcBitMsb (topBit poly checksum : BitVec 64) : BitVec 64 :=
  if checksum &&& topBit ≠ 0#64 then (checksum <<< 1) ^^^ poly else checksum <<< 1

/-- The eight bits of one byte, most significant first. -/
def crcBitsMsb (checksum topBit poly mask : BitVec 64) : BitVec 64 :=
  (crcBitMsb topBit poly)^[8] checksum &&& mask

/-- One bit of the least-significant-first loop. -/
def crcBitLsb (poly checksum : BitVec 64) : BitVec 64 :=
  if checksum &&& 1#64 ≠ 0#64 then (checksum >>> 1) ^^^ poly else checksum >>> 1

/-- The eight bits of one byte, least significant first. -/
def crcBitsLsb (checksum poly mask : BitVec 64) : BitVec 64 :=
  (crcBitLsb poly)^[8] checksum &&& mask

/-- A byte as a 64-bit word. -/
def wordOfByte (b : UInt8) : BitVec 64 := b.toBitVec.setWidth 64

/-- The most-significant-first loop: each byte enters at the top of the checksum. -/
def crcMsb (bytes : Bytes) (width : Nat) (initial poly : BitVec 64) : BitVec 64 :=
  let topBit := 1#64 <<< (width - 1)
  let mask := crcMask width
  let shift := width - 8
  bytes.foldl
    (fun checksum b => crcBitsMsb (checksum ^^^ (wordOfByte b <<< shift)) topBit poly mask)
    (initial &&& mask) &&& mask

/-- The least-significant-first loop: each byte enters at the bottom of the checksum. -/
def crcLsb (bytes : Bytes) (width : Nat) (initial poly : BitVec 64) : BitVec 64 :=
  let mask := crcMask width
  bytes.foldl (fun checksum b => crcBitsLsb (checksum ^^^ wordOfByte b) poly mask)
    (initial &&& mask) &&& mask

/-- CRC-8/ATM, the header check. -/
def Crc8.calculate (bytes : Bytes) : UInt8 := ⟨(crcMsb bytes 8 0 0x07).setWidth 8⟩

/-- CRC-16/XMODEM. -/
def Crc16.calculate (bytes : Bytes) : BitVec 16 := (crcMsb bytes 16 0 0x1021).setWidth 16

/-- CRC-32/ISO-HDLC. -/
def Crc32.calculate (bytes : Bytes) : BitVec 32 :=
  (~~~ (crcLsb bytes 32 0xffffffff 0xedb88320)).setWidth 32

/-- CRC-64/ECMA-182. -/
def Crc64.calculate (bytes : Bytes) : BitVec 64 := crcMsb bytes 64 0 0x42f0e1eba9ea3693

/-- Writes a CRC value of `len` bytes, least significant first. -/
def sealValue (len value : Nat) : Bytes := leBytes len value

/-- Compares a checksum with the first `len` bytes of a received tag; a shorter tag is refused. -/
def verifyValue (len value : Nat) (tag : Bytes) : Bool :=
  if tag.length < len then false else value == ofLeBytes (tag.take len)

/-! ## SipHash-2-4-128 -/

/-- The four words of the hash state. -/
structure SipState where
  v0 : BitVec 64
  v1 : BitVec 64
  v2 : BitVec 64
  v3 : BitVec 64
  deriving DecidableEq, Repr

namespace SipState

/-- One SipRound. -/
def round (s : SipState) : SipState :=
  let v0 := s.v0 + s.v1
  let v1 := s.v1.rotateLeft 13 ^^^ v0
  let v0 := v0.rotateLeft 32
  let v2 := s.v2 + s.v3
  let v3 := s.v3.rotateLeft 16 ^^^ v2
  let v0 := v0 + v3
  let v3 := v3.rotateLeft 21 ^^^ v0
  let v2 := v2 + v1
  let v1 := v1.rotateLeft 17 ^^^ v2
  let v2 := v2.rotateLeft 32
  ⟨v0, v1, v2, v3⟩

/-- `count` SipRounds. -/
def rounds (count : Nat) (s : SipState) : SipState := round^[count] s

/-- Takes in one word of the message, with two rounds. -/
def compress (s : SipState) (word : BitVec 64) : SipState :=
  let s := rounds 2 { s with v3 := s.v3 ^^^ word }
  { s with v0 := s.v0 ^^^ word }

/-- Compresses the full eight-byte blocks and returns the remaining tail. -/
def compressChunks (s : SipState) : Bytes → SipState × Bytes
  | b0 :: b1 :: b2 :: b3 :: b4 :: b5 :: b6 :: b7 :: rest =>
    compressChunks (s.compress (BitVec.ofNat 64 (ofLeBytes [b0, b1, b2, b3, b4, b5, b6, b7]))) rest
  | tail => (s, tail)

/-- Takes in the last word, which holds the tail bytes and the length, and reads off the tag. -/
def finish (s : SipState) (len : Nat) (tail : Bytes) : Bytes :=
  let last := tail.zipIdx.foldl (fun last bi => last ||| (wordOfByte bi.1 <<< (bi.2 * 8)))
    (BitVec.ofNat 64 len <<< 56)
  let s := s.compress last
  let s := rounds 4 { s with v2 := s.v2 ^^^ 0xee }
  let left := s.v0 ^^^ s.v1 ^^^ s.v2 ^^^ s.v3
  let s := rounds 4 { s with v1 := s.v1 ^^^ 0xdd }
  let right := s.v0 ^^^ s.v1 ^^^ s.v2 ^^^ s.v3
  leBytes 8 left.toNat ++ leBytes 8 right.toNat

end SipState

/-- SipHash-2-4 with 128 bits of output. -/
def siphash24_128 (bytes : Bytes) (k0 k1 : BitVec 64) : Bytes :=
  let state : SipState :=
    { v0 := k0 ^^^ 0x736f6d6570736575
      v1 := k1 ^^^ 0x646f72616e646f6d ^^^ 0xee
      v2 := k0 ^^^ 0x6c7967656e657261
      v3 := k1 ^^^ 0x7465646279746573 }
  let chunks := state.compressChunks bytes
  chunks.1.finish bytes.length chunks.2

/-- Keyed packet integrity tag backend. -/
structure SipTag where
  key : Bytes
  key_length : key.length = 16

namespace SipTag

/-- A tag has sixteen bytes. -/
def tagLen : Nat := 16

/-- The library default key. -/
def default : SipTag :=
  ⟨[0x6d, 0x73, 0x72, 0x74, 0x2d, 0x61, 0x65, 0x61, 0x64, 0x2d, 0x76, 0x31, 0x2d, 0x74, 0x61, 0x67],
    rfl⟩

/-- The two key words, little-endian. -/
def keys (t : SipTag) : BitVec 64 × BitVec 64 :=
  (BitVec.ofNat 64 (ofLeBytes (t.key.take 8)), BitVec.ofNat 64 (ofLeBytes (t.key.drop 8)))

/-- The tag of a byte string. -/
def calculate (t : SipTag) (bytes : Bytes) : Bytes := siphash24_128 bytes t.keys.1 t.keys.2

/-- Compares every tag byte and accumulates the differences. -/
def verify (t : SipTag) (bytes tag : Bytes) : Bool :=
  if tag.length < tagLen then false
  else (List.zipWith (· ^^^ ·) (t.calculate bytes) (tag.take tagLen)).foldl (· ||| ·) 0 == 0

end SipTag

/-! ## The selected backend -/

/-- Packet integrity backend selected by engine configuration. -/
inductive IntegrityConfig where
  | crc16
  | crc32
  | crc64
  | sipTag (tag : SipTag)

namespace IntegrityConfig

/-- CRC-16, unless configured otherwise. -/
def default : IntegrityConfig := .crc16

/-- The length of the backend's tag. -/
def tagLen : IntegrityConfig → Nat
  | crc16 => 2
  | crc32 => 4
  | crc64 => 8
  | sipTag _ => SipTag.tagLen

/-- The integrity tag for `bytes`. -/
def sealTag (integrity : IntegrityConfig) (bytes : Bytes) : Bytes :=
  match integrity with
  | crc16 => sealValue 2 (Crc16.calculate bytes).toNat
  | crc32 => sealValue 4 (Crc32.calculate bytes).toNat
  | crc64 => sealValue 8 (Crc64.calculate bytes).toNat
  | sipTag t => t.calculate bytes

/-- Whether `tag` matches `bytes`. -/
def verify (integrity : IntegrityConfig) (bytes tag : Bytes) : Bool :=
  match integrity with
  | crc16 => verifyValue 2 (Crc16.calculate bytes).toNat tag
  | crc32 => verifyValue 4 (Crc32.calculate bytes).toNat tag
  | crc64 => verifyValue 8 (Crc64.calculate bytes).toNat tag
  | sipTag t => t.verify bytes tag

theorem tagLen_le (integrity : IntegrityConfig) : integrity.tagLen ≤ 16 := by
  cases integrity <;> simp [tagLen, SipTag.tagLen]

theorem length_calculate (t : SipTag) (bytes : Bytes) : (t.calculate bytes).length = 16 := by
  simp [SipTag.calculate, siphash24_128, SipState.finish]

@[simp] theorem length_sealTag (integrity : IntegrityConfig) (bytes : Bytes) :
    (integrity.sealTag bytes).length = integrity.tagLen := by
  cases integrity with
  | sipTag t => exact length_calculate t bytes
  | _ => simp [sealTag, sealValue, tagLen]

theorem verifyValue_sealValue (len : Nat) {value : Nat} (h : value < 256 ^ len) :
    verifyValue len value (sealValue len value) = true := by
  have hlen : (leBytes len value).take len = leBytes len value :=
    List.take_of_length_le (by simp)
  simp [verifyValue, sealValue, hlen, ofLeBytes_leBytes_of_lt h]

/-- A list differs from itself nowhere. -/
theorem foldl_or_xor_self (bytes : Bytes) :
    (List.zipWith (· ^^^ ·) bytes bytes).foldl (· ||| ·) (0 : UInt8) = 0 := by
  induction bytes with
  | nil => rfl
  | cons b bytes ih => simpa using ih

/-- **A sealed tag verifies**, for every backend. -/
theorem verify_sealTag (integrity : IntegrityConfig) (bytes : Bytes) :
    integrity.verify bytes (integrity.sealTag bytes) = true := by
  cases integrity with
  | crc16 => exact verifyValue_sealValue 2 (Crc16.calculate bytes).isLt
  | crc32 => exact verifyValue_sealValue 4 (Crc32.calculate bytes).isLt
  | crc64 => exact verifyValue_sealValue 8 (Crc64.calculate bytes).isLt
  | sipTag t =>
    have hlen := length_calculate t bytes
    have htake : (t.calculate bytes).take SipTag.tagLen = t.calculate bytes :=
      List.take_of_length_le (Nat.le_of_eq hlen)
    simp only [verify, sealTag, SipTag.verify, htake, foldl_or_xor_self, hlen]
    rfl

end IntegrityConfig

end Msrt
