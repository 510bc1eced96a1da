import Msrt.Integrity
import Msrt.SipHash

/-! # The keyed tag is SipHash-2-4-128

`siphash24_128` compresses the full blocks of its input in a loop and what is left over in `finish`,
where the length is shifted in from the top.  Both together absorb exactly the words of the padded
input (`compress_all`), and the state they work on is the state of the hash function, field by
field (`SipState.toState`).  So the tag is the hash, and inputs that differ, be it by trailing zero
bytes alone, are absorbed as different words.
-/

namespace Msrt
open ByteWords

namespace SipState

/-- The four words, as the hash function names them. -/
def toState (s : SipState) : SipHash.State := ⟨s.v0, s.v1, s.v2, s.v3⟩

/-- The rounds of the code order their two independent halves differently. -/
theorem toState_round (s : SipState) : (round s).toState = SipHash.sipRound s.toState := rfl

theorem toState_rounds (count : Nat) (s : SipState) :
    (rounds count s).toState = SipHash.sipRound^[count] s.toState :=
  Function.Semiconj.iterate_right toState_round count s

theorem toState_compress (s : SipState) (word : BitVec 64) :
    (s.compress word).toState = SipHash.absorb 2 s.toState word := by
  have h := toState_rounds 2 { s with v3 := s.v3 ^^^ word }
  show SipHash.State.mk _ _ _ _ = _
  rw [SipHash.absorb, show SipHash.State.mk s.toState.v0 s.toState.v1 s.toState.v2
    (s.toState.v3 ^^^ word) = toState { s with v3 := s.v3 ^^^ word } from rfl, ← h]
  rfl

theorem toState_foldl_compress (s : SipState) (words : List (BitVec 64)) :
    (words.foldl compress s).toState = words.foldl (SipHash.absorb 2) s.toState := by
  induction words generalizing s with
  | nil => rfl
  | cons word words ih => rw [List.foldl_cons, List.foldl_cons, ih, toState_compress]

/-! ## What is absorbed -/

theorem compressChunks_of_length_lt (s : SipState) {bytes : Bytes} (h : bytes.length < 8) :
    s.compressChunks bytes = (s, bytes) := by
  unfold compressChunks
  split
  · simp only [List.length_cons] at h
    omega
  · rfl

theorem compressChunks_block (s : SipState) {block : Bytes} (h : block.length = 8)
    (rest : Bytes) :
    s.compressChunks (block ++ rest) = (s.compress (SipHash.leWord block)).compressChunks rest := by
  obtain ⟨b0, b1, b2, b3, b4, b5, b6, b7, rfl⟩ : ∃ b0 b1 b2 b3 b4 b5 b6 b7 : UInt8,
      block = [b0, b1, b2, b3, b4, b5, b6, b7] := by
    match block, h with
    | [b0, b1, b2, b3, b4, b5, b6, b7], _ => exact ⟨b0, b1, b2, b3, b4, b5, b6, b7, rfl⟩
  simp only [List.cons_append, List.nil_append]
  rw [compressChunks]
  rfl

/-- The loop over `chunks_exact(8)` absorbs the full blocks and leaves the rest. -/
theorem compressChunks_eq (s : SipState) (bytes : Bytes) :
    s.compressChunks bytes = ((SipHash.words bytes).foldl compress s, SipHash.tail bytes) := by
  induction bytes using SipHash.block_induction generalizing s with
  | short bytes h =>
    rw [compressChunks_of_length_lt s h, SipHash.words_of_length_lt h, SipHash.tail_of_length_lt h]
    rfl
  | block block rest h ih =>
    rw [compressChunks_block s h, ih, SipHash.words_block h, SipHash.tail_block h, List.foldl_cons]

/-- The word `finish` builds from the length and the bytes left over. -/
def lastWord (len : Nat) (tail : Bytes) : BitVec 64 :=
  tail.zipIdx.foldl (fun last bi => last ||| (wordOfByte bi.1 <<< (bi.2 * 8)))
    (BitVec.ofNat 64 len <<< 56)

/-- The loop of `finish` from position `index` on. -/
theorem foldl_or_bytes (tail : Bytes) (index : Nat) (last : BitVec 64) :
    (tail.zipIdx index).foldl (fun last bi => last ||| (wordOfByte bi.1 <<< (bi.2 * 8))) last =
      last ||| SipHash.leWord tail <<< (index * 8) := by
  induction tail generalizing index last with
  | nil => simp [SipHash.leWord_nil]
  | cons b tail ih =>
    rw [List.zipIdx_cons, List.foldl_cons, ih, SipHash.leWord_cons, BitVec.shiftLeft_or_distrib,
      ← BitVec.shiftLeft_add, BitVec.or_assoc, Nat.succ_mul, Nat.add_comm 8]
    rfl

theorem lastWord_eq (len : Nat) (tail : Bytes) :
    lastWord len tail = SipHash.leWord tail ||| BitVec.ofNat 64 len <<< 56 := by
  rw [lastWord, foldl_or_bytes, Nat.zero_mul, BitVec.shiftLeft_zero, BitVec.or_comm]

/-- **The loop and `finish` absorb the words of the padded input.** -/
theorem compress_all (s : SipState) (bytes : Bytes) :
    (s.compressChunks bytes).1.compress (lastWord bytes.length (s.compressChunks bytes).2) =
      (SipHash.message bytes).foldl compress s := by
  rw [compressChunks_eq, SipHash.message_eq, List.foldl_append, lastWord_eq]
  rfl

/-! ## The output -/

/-- Half of the tag. -/
def output (s : SipState) : Bytes := leBytes 8 (s.v0 ^^^ s.v1 ^^^ s.v2 ^^^ s.v3).toNat

/-- The hash function's last rounds, followed state by state. -/
theorem finalize_toState {s left right : SipState}
    (hleft : rounds 4 { s with v2 := s.v2 ^^^ 0xee } = left)
    (hright : rounds 4 { left with v1 := left.v1 ^^^ 0xdd } = right) :
    SipHash.finalize 4 s.toState = left.output ++ right.output := by
  have hl : SipHash.sipRound^[4] { s.toState with v2 := s.toState.v2 ^^^ 0xee } = left.toState := by
    rw [← hleft, toState_rounds]
    rfl
  have hr : SipHash.sipRound^[4] { left.toState with v1 := left.toState.v1 ^^^ 0xdd } =
      right.toState := by
    rw [← hright, toState_rounds]
    rfl
  rw [SipHash.finalize, hl]
  rw [hr]
  rfl

theorem finish_eq (s : SipState) (len : Nat) (tail : Bytes) :
    s.finish len tail = SipHash.finalize 4 (s.compress (lastWord len tail)).toState := by
  -- the two states of the code are those `finalize` passes through
  rw [finalize_toState rfl rfl]
  rfl

end SipState

/-- **The keyed tag hashes the standard padding of every input.**  `siphash24_128` is
SipHash-2-4-128 at every input and key, the zero bytes of the padding are as few as bring the length
to seven modulo eight, the words the code compresses are those of the padded input, and no two
inputs are absorbed as the same words. -/
theorem siphash24_128_eq_hash128 :
    (∀ (bytes : Bytes) (k0 k1 : BitVec 64),
      siphash24_128 bytes k0 k1 = SipHash.hash128 2 4 k0 k1 bytes) ∧
    (∀ bytes : Bytes, IsLeast {k | (bytes.length + k) % 8 = 7} (SipHash.zeros bytes.length)) ∧
    (∀ (s : SipState) (bytes : Bytes),
      (s.compressChunks bytes).1.compress
          (SipState.lastWord bytes.length (s.compressChunks bytes).2) =
        (SipHash.message bytes).foldl SipState.compress s) ∧
    Function.Injective SipHash.message := by
  refine ⟨?_, fun bytes => SipHash.zeros_isLeast bytes.length, SipState.compress_all,
    SipHash.message_injective⟩
  intro bytes k0 k1
  rw [siphash24_128, SipState.finish_eq, SipState.compress_all, SipState.toState_foldl_compress]
  rfl

end Msrt
