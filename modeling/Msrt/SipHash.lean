import Mathlib.Order.Bounds.Basic
import Mathlib.Logic.Function.Iterate
import Msrt.ByteWords

/-! # SipHash with 128-bit output

The hash function as its definition reads: the input is padded to whole 64-bit words, every word is
absorbed with `c` rounds, and each half of the output follows `d` further rounds.

- Padding: the fewest zero bytes that bring the length to seven modulo eight, and then one byte
  with the length modulo 256 (`pad`); the words absorbed are the little-endian words of the padded
  input (`message`).
- The words determine the input (`message_injective`): the padded bytes are read back from the
  words, and their last byte with their count gives the length.

Absorbing blockwise, with what is left over treated apart, is absorbing `message`: a block in front
is one word more (`words_block`), and the words of the padded input are those of its full blocks
and one last word (`message_eq`).
-/

namespace SipHash
open ByteWords

/-! ## Words -/

/-- The 64-bit word of a byte list, least significant byte first. -/
def leWord (bytes : List UInt8) : BitVec 64 := BitVec.ofNat 64 (ofLeBytes bytes)

theorem leWord_nil : leWord [] = 0#64 := rfl

theorem leWord_cons (b : UInt8) (bytes : List UInt8) :
    leWord (b :: bytes) = b.toBitVec.setWidth 64 ||| leWord bytes <<< 8 := by
  have hb : b.toNat < 2 ^ 8 := b.toNat_lt
  have hor : ofLeBytes (b :: bytes) = ofLeBytes bytes <<< 8 ||| b.toNat := by
    rw [← Nat.shiftLeft_add_eq_or_of_lt hb, ofLeBytes, Nat.shiftLeft_eq]
    omega
  apply BitVec.eq_of_getLsbD_eq
  intro i hi
  have hbyte : (b.toBitVec.setWidth 64).getLsbD i = b.toNat.testBit i := by
    rw [BitVec.getLsbD_setWidth]
    simp [hi, BitVec.getLsbD]
  rw [leWord, hor, BitVec.getLsbD_or, BitVec.getLsbD_shiftLeft, hbyte, leWord]
  simp only [BitVec.getLsbD_ofNat, Nat.testBit_or, Nat.testBit_shiftLeft, hi, decide_true,
    Bool.true_and]
  by_cases h8 : i < 8
  · simp [h8]
  · have hi' : i - 8 < 64 := by omega
    simp [h8, hi', Nat.le_of_not_lt h8, Bool.or_comm]

theorem leWord_append (xs ys : List UInt8) :
    leWord (xs ++ ys) = leWord xs ||| leWord ys <<< (8 * xs.length) := by
  induction xs with
  | nil => simp [leWord_nil]
  | cons b xs ih =>
    rw [List.cons_append, leWord_cons, leWord_cons, ih, BitVec.shiftLeft_or_distrib,
      ← BitVec.shiftLeft_add, BitVec.or_assoc, List.length_cons, Nat.mul_succ]

theorem leWord_replicate_zero (n : Nat) : leWord (List.replicate n 0) = 0#64 := by
  induction n with
  | zero => rfl
  | succ n ih =>
    rw [List.replicate_succ, leWord_cons, ih]
    rfl

/-- The bytes of a block are the bytes of its word. -/
theorem leBytes_leWord {block : List UInt8} (h : block.length = 8) :
    leBytes 8 (leWord block).toNat = block := by
  have hlt : ofLeBytes block < 2 ^ 64 := by
    have := ofLeBytes_lt block
    rw [h] at this
    exact this
  rw [leWord, BitVec.toNat_ofNat, Nat.mod_eq_of_lt hlt, ← h, leBytes_ofLeBytes]

/-- The little-endian words of the full eight-byte blocks. -/
def words (bytes : List UInt8) : List (BitVec 64) :=
  (List.range (bytes.length / 8)).map (fun i => leWord ((bytes.drop (8 * i)).take 8))

theorem words_of_length_lt {bytes : List UInt8} (h : bytes.length < 8) : words bytes = [] := by
  rw [words, Nat.div_eq_of_lt h]
  rfl

/-- A block in front is one word more. -/
theorem words_block {block : List UInt8} (h : block.length = 8) (rest : List UInt8) :
    words (block ++ rest) = leWord block :: words rest := by
  have hcount : (block ++ rest).length / 8 = rest.length / 8 + 1 := by
    rw [List.length_append, h]
    omega
  rw [words, hcount, List.range_succ_eq_map, List.map_cons, List.map_map]
  congr 1
  · rw [Nat.mul_zero, List.drop_zero, List.take_left' h]
  · apply List.map_congr_left
    intro i _
    have hdrop : (block ++ rest).drop (8 * (i + 1)) = rest.drop (8 * i) := by
      rw [Nat.mul_succ, Nat.add_comm, ← List.drop_drop, List.drop_left' h]
    exact congrArg (fun bs => leWord (List.take 8 bs)) hdrop

/-- Induction along the full blocks of a byte list. -/
theorem block_induction {motive : List UInt8 → Prop}
    (short : ∀ tail, tail.length < 8 → motive tail)
    (block : ∀ block rest, block.length = 8 → motive rest → motive (block ++ rest))
    (bytes : List UInt8) : motive bytes := by
  induction hn : bytes.length using Nat.strong_induction_on generalizing bytes with
  | _ n ih =>
    by_cases h : bytes.length < 8
    · exact short bytes h
    · have htake : (bytes.take 8).length = 8 := by
        rw [List.length_take]
        omega
      have hdrop : (bytes.drop 8).length < n := by
        rw [List.length_drop]
        omega
      rw [← List.take_append_drop 8 bytes]
      exact block _ _ htake (ih _ hdrop _ rfl)

/-- What follows the full blocks. -/
def tail (bytes : List UInt8) : List UInt8 := bytes.drop (8 * (bytes.length / 8))

theorem tail_of_length_lt {bytes : List UInt8} (h : bytes.length < 8) : tail bytes = bytes := by
  rw [tail, Nat.div_eq_of_lt h]
  rfl

theorem tail_block {block : List UInt8} (h : block.length = 8) (rest : List UInt8) :
    tail (block ++ rest) = tail rest := by
  have hcount : 8 * ((block ++ rest).length / 8) = 8 + 8 * (rest.length / 8) := by
    rw [List.length_append, h]
    omega
  rw [tail, hcount, ← List.drop_drop, List.drop_left' h, tail]

theorem length_tail (bytes : List UInt8) : (tail bytes).length = bytes.length % 8 := by
  rw [tail, List.length_drop]
  omega

/-- Words of a longer list: those of the full blocks, and those of the tail with what follows. -/
theorem words_append (xs ys : List UInt8) : words (xs ++ ys) = words xs ++ words (tail xs ++ ys) := by
  induction xs using block_induction with
  | short xs h => rw [words_of_length_lt h, tail_of_length_lt h, List.nil_append]
  | block block rest h ih =>
    rw [List.append_assoc, words_block h, words_block h, tail_block h, ih, List.cons_append]

/-- Whole blocks are read back from their words. -/
theorem flatMap_words {bytes : List UInt8} (h : bytes.length % 8 = 0) :
    (words bytes).flatMap (fun word => leBytes 8 word.toNat) = bytes := by
  induction bytes using block_induction with
  | short bytes hlt =>
    have hnil : bytes = [] := List.length_eq_zero_iff.mp (by omega)
    rw [hnil]
    rfl
  | block block rest hblock ih =>
    rw [words_block hblock, List.flatMap_cons, leBytes_leWord hblock, ih]
    rw [List.length_append, hblock] at h
    omega

/-! ## Padding -/

/-- The number of zero bytes a message of `len` bytes is padded with. -/
def zeros (len : Nat) : Nat := 7 - len % 8

/-- It is the fewest that bring the length to seven modulo eight. -/
theorem zeros_isLeast (len : Nat) : IsLeast {k | (len + k) % 8 = 7} (zeros len) := by
  constructor
  · show (len + (7 - len % 8)) % 8 = 7
    omega
  · intro k hk
    have hk' : (len + k) % 8 = 7 := hk
    show 7 - len % 8 ≤ k
    omega

/-- The padded message: zero bytes, and then the length modulo 256. -/
def pad (bytes : List UInt8) : List UInt8 :=
  bytes ++ (List.replicate (zeros bytes.length) 0 ++ [UInt8.ofNat bytes.length])

theorem length_pad (bytes : List UInt8) : (pad bytes).length = 8 * (bytes.length / 8 + 1) := by
  simp only [pad, zeros, List.length_append, List.length_replicate, List.length_singleton]
  omega

/-- **The padding can be taken off again.** -/
theorem pad_injective : Function.Injective pad := by
  intro xs ys h
  have hblocks := congrArg List.length h
  rw [length_pad, length_pad] at hblocks
  have hlast : UInt8.ofNat xs.length = UInt8.ofNat ys.length := by
    have hl := congrArg List.getLast? h
    simpa [pad, ← List.append_assoc] using hl
  have hmod : xs.length % 256 = ys.length % 256 := by
    have hn := congrArg UInt8.toNat hlast
    rwa [UInt8.toNat_ofNat', UInt8.toNat_ofNat'] at hn
  -- the block count gives the length up to its last three bits, the last byte gives those
  have hlen : xs.length = ys.length := by omega
  exact (List.append_inj h hlen).1

/-! ## The words absorbed -/

/-- The words of the padded message. -/
def message (bytes : List UInt8) : List (BitVec 64) := words (pad bytes)

/-- **Different inputs are absorbed as different words.** -/
theorem message_injective : Function.Injective message := by
  intro xs ys h
  apply pad_injective
  have hwhole : ∀ bytes, (pad bytes).length % 8 = 0 := by
    intro bytes
    rw [length_pad, Nat.mul_mod_right]
  rw [← flatMap_words (hwhole xs), ← flatMap_words (hwhole ys)]
  exact congrArg (List.flatMap (fun word => leBytes 8 word.toNat)) h

/-- The last word of a message of `len` bytes that ends in `rest` after its full blocks: the rest
in the low bytes and the length in the top one. -/
theorem leWord_last {rest : List UInt8} {len : Nat} (h : rest.length = len % 8) :
    leWord (rest ++ (List.replicate (zeros len) 0 ++ [UInt8.ofNat len])) =
      leWord rest ||| BitVec.ofNat 64 len <<< 56 := by
  have hbyte : leWord [UInt8.ofNat len] = (BitVec.ofNat 8 len).setWidth 64 := by
    rw [leWord_cons, leWord_nil, BitVec.zero_shiftLeft, BitVec.or_zero]
    rfl
  have htop : (BitVec.ofNat 8 len).setWidth 64 <<< 56 = BitVec.ofNat 64 len <<< 56 := by
    apply BitVec.eq_of_getLsbD_eq
    intro i hi
    rw [BitVec.getLsbD_shiftLeft, BitVec.getLsbD_shiftLeft, BitVec.getLsbD_setWidth,
      BitVec.getLsbD_ofNat, BitVec.getLsbD_ofNat]
    by_cases h56 : i < 56
    · simp [h56]
    · have h8 : i - 56 < 8 := by omega
      have h64 : i - 56 < 64 := by omega
      simp [h8, h64]
  -- the rest and the zeros fill the seven low bytes
  have hseven : 8 * zeros len + 8 * rest.length = 56 := by
    rw [zeros, h]
    omega
  rw [leWord_append, leWord_append, leWord_replicate_zero, BitVec.zero_or, hbyte,
    ← BitVec.shiftLeft_add, List.length_replicate, hseven, htop]

/-- **The words of a message**: those of its full blocks and one last word. -/
theorem message_eq (bytes : List UInt8) :
    message bytes = words bytes ++ [leWord (tail bytes) ||| BitVec.ofNat 64 bytes.length <<< 56] := by
  have hlen := length_tail bytes
  have hblock : (tail bytes ++ (List.replicate (zeros bytes.length) 0 ++
      [UInt8.ofNat bytes.length])).length = 8 := by
    simp only [List.length_append, List.length_replicate, List.length_singleton, hlen, zeros]
    omega
  have hone := words_block hblock []
  rw [List.append_nil] at hone
  rw [message, pad, words_append, hone, leWord_last hlen]
  rfl

/-! ## The hash function -/

/-- The four words of internal state. -/
structure State where
  v0 : BitVec 64
  v1 : BitVec 64
  v2 : BitVec 64
  v3 : BitVec 64

/-- One half of a round: two additions, two rotations and exclusive ors, and a half turn. -/
def halfRound (a b c d : BitVec 64) (s t : Nat) : State :=
  ⟨(a + b).rotateLeft 32, b.rotateLeft s ^^^ (a + b), c + d, d.rotateLeft t ^^^ (c + d)⟩

/-- SipRound: the second half takes `v2` and `v1`, `v0` and `v3` together. -/
def sipRound (s : State) : State :=
  let h := halfRound s.v0 s.v1 s.v2 s.v3 13 16
  let k := halfRound h.v2 h.v1 h.v0 h.v3 17 21
  ⟨k.v2, k.v1, k.v0, k.v3⟩

/-- The initial state of the keyed hash. -/
def init (k0 k1 : BitVec 64) : State :=
  ⟨k0 ^^^ 0x736f6d6570736575, k1 ^^^ 0x646f72616e646f6d ^^^ 0xee,
    k0 ^^^ 0x6c7967656e657261, k1 ^^^ 0x7465646279746573⟩

/-- Absorbs one word with `c` rounds. -/
def absorb (c : Nat) (s : State) (word : BitVec 64) : State :=
  let s := sipRound^[c] { s with v3 := s.v3 ^^^ word }
  { s with v0 := s.v0 ^^^ word }

/-- Eight bytes of output. -/
def output (s : State) : List UInt8 := leBytes 8 (s.v0 ^^^ s.v1 ^^^ s.v2 ^^^ s.v3).toNat

/-- The two halves of the hash, after `d` rounds each. -/
def finalize (d : Nat) (s : State) : List UInt8 :=
  let left := sipRound^[d] { s with v2 := s.v2 ^^^ 0xee }
  let right := sipRound^[d] { left with v1 := left.v1 ^^^ 0xdd }
  output left ++ output right

/-- SipHash-`c`-`d` with 128-bit output. -/
def hash128 (c d : Nat) (k0 k1 : BitVec 64) (bytes : List UInt8) : List UInt8 :=
  finalize d ((message bytes).foldl (absorb c) (init k0 k1))

end SipHash
