import Mathlib.Data.BitVec
import Mathlib.Logic.Function.Iterate

set_option autoImplicit false

/-!
# CRC-32 bit by bit and byte by byte

A shift of the remainder is linear in exclusive or, so eight of them are a word of a table of
256 and the remainder moved down by a byte.
-/
namespace Crc32

variable (poly : BitVec 32)

def shift (c : BitVec 32) : BitVec 32 := if c.getLsbD 0 then poly ^^^ c >>> 1 else c >>> 1

def bitwise (c : BitVec 32) (byte : UInt8) : BitVec 32 :=
  (shift poly)^[8] (c ^^^ BitVec.ofNat 32 byte.toNat)

/-- The word of the table at the low byte of `c`. -/
def entry (c : BitVec 32) : BitVec 32 := (shift poly)^[8] (c &&& 255#32)

def bytewise (c : BitVec 32) (byte : UInt8) : BitVec 32 :=
  entry poly (c ^^^ BitVec.ofNat 32 byte.toNat) ^^^ c >>> 8

variable {poly} {a b c : BitVec 32}

theorem shift_xor : shift poly (a ^^^ b) = shift poly a ^^^ shift poly b := by
  unfold shift
  rw [BitVec.getLsbD_xor, BitVec.ushiftRight_xor_distrib]
  apply BitVec.eq_of_getLsbD_eq
  intro i _
  cases a.getLsbD 0 <;> cases b.getLsbD 0 <;>
    simp only [Bool.xor_false, Bool.xor_true, Bool.not_false, Bool.not_true, Bool.false_eq_true,
      if_true, if_false, BitVec.getLsbD_xor] <;>
    cases poly.getLsbD i <;> cases (a >>> 1).getLsbD i <;> cases (b >>> 1).getLsbD i <;> rfl

theorem iterate_xor (n : ℕ) :
    (shift poly)^[n] (a ^^^ b) = (shift poly)^[n] a ^^^ (shift poly)^[n] b := by
  induction n with
  | zero => rfl
  | succ n ih => rw [Function.iterate_succ_apply', Function.iterate_succ_apply',
      Function.iterate_succ_apply', ih, shift_xor]

theorem iterate_clear {n : ℕ} (h : ∀ i < n, c.getLsbD i = false) :
    (shift poly)^[n] c = c >>> n := by
  induction n with
  | zero => rfl
  | succ n ih =>
    have hlow : (c >>> n).getLsbD 0 = false := by
      rw [BitVec.getLsbD_ushiftRight]
      exact h n (Nat.lt_succ_self n)
    rw [Function.iterate_succ_apply', ih fun i hi => h i (Nat.lt_succ_of_lt hi), shift, hlow,
      if_neg Bool.false_ne_true, ← BitVec.shiftRight_add]

theorem low_xor_high (c : BitVec 32) : (c &&& 255#32) ^^^ (c &&& ~~~255#32) = c := by
  apply BitVec.eq_of_getLsbD_eq
  intro i hi
  rw [BitVec.getLsbD_xor, BitVec.getLsbD_and, BitVec.getLsbD_and, BitVec.getLsbD_not]
  cases c.getLsbD i <;> cases (255#32).getLsbD i <;> simp [hi]

theorem low_bits (i : ℕ) : (255#32).getLsbD i = decide (i < 8) := by
  rw [BitVec.getLsbD_ofNat, show (255 : ℕ) = 2 ^ 8 - 1 from rfl, Nat.testBit_two_pow_sub_one]
  by_cases hi : i < 8
  · simp [hi]
    omega
  · simp [hi]

theorem high_shift (c : BitVec 32) : (c &&& ~~~255#32) >>> 8 = c >>> 8 := by
  apply BitVec.eq_of_getLsbD_eq
  intro i _
  rw [BitVec.getLsbD_ushiftRight, BitVec.getLsbD_ushiftRight, BitVec.getLsbD_and,
    BitVec.getLsbD_not, low_bits]
  by_cases hi : 8 + i < 32
  · simp [hi]
  · rw [BitVec.getLsbD_of_ge c (8 + i) (by omega), Bool.false_and]

theorem eight_shifts (c : BitVec 32) : (shift poly)^[8] c = entry poly c ^^^ c >>> 8 := by
  have hclear : ∀ i < 8, (c &&& ~~~255#32).getLsbD i = false := by
    intro i hi
    rw [BitVec.getLsbD_and, BitVec.getLsbD_not, low_bits]
    simp [hi]
  calc (shift poly)^[8] c
      = (shift poly)^[8] ((c &&& 255#32) ^^^ (c &&& ~~~255#32)) := by rw [low_xor_high]
    _ = entry poly c ^^^ (c &&& ~~~255#32) >>> 8 := by rw [iterate_xor, iterate_clear hclear]; rfl
    _ = entry poly c ^^^ c >>> 8 := by rw [high_shift]

theorem byte_shifted_out (byte : UInt8) : BitVec.ofNat 32 byte.toNat >>> 8 = 0#32 := by
  apply BitVec.eq_of_toNat_eq
  have hbyte := byte.toNat_lt
  rw [BitVec.toNat_ushiftRight, BitVec.toNat_ofNat, Nat.mod_eq_of_lt (by omega),
    Nat.shiftRight_eq_div_pow]
  exact Nat.div_eq_of_lt hbyte

/-- The table gives the remainder that the shifts give. -/
theorem bytewise_eq (c : BitVec 32) (byte : UInt8) : bytewise poly c byte = bitwise poly c byte := by
  rw [bitwise, eight_shifts, BitVec.ushiftRight_xor_distrib, byte_shifted_out, BitVec.xor_zero]
  rfl

theorem foldl_bytewise (c : BitVec 32) (data : List UInt8) :
    data.foldl (bytewise poly) c = data.foldl (bitwise poly) c := by
  have hstep : bytewise poly = bitwise poly := by
    funext c byte
    exact bytewise_eq c byte
  rw [hstep]

end Crc32
