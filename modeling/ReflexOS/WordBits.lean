import Mathlib.Data.BitVec

set_option autoImplicit false

/-!
# Single bits of a word

A bit is set, cleared or copied from another word, and every other bit stays.
-/
namespace WordBits

variable {w : ℕ}

def setBit (x : BitVec w) (i : ℕ) : BitVec w := x ||| 1#w <<< i

def clearBit (x : BitVec w) (i : ℕ) : BitVec w := x &&& ~~~(1#w <<< i)

/-- Bit `i` as a word. -/
def bitOf (x : BitVec w) (i : ℕ) : BitVec w := (x >>> i) &&& 1#w

/-- Bit `i` becomes the lowest bit of `b`. -/
def putBit (x : BitVec w) (i : ℕ) (b : BitVec w) : BitVec w := clearBit x i ||| b <<< i

lemma getLsbD_one_shiftLeft (i j : ℕ) :
    (1#w <<< i).getLsbD j = (decide (j < w) && decide (j = i)) := by
  rw [BitVec.getLsbD_shiftLeft, BitVec.getLsbD_one]
  rw [Bool.eq_iff_iff]
  simp only [Bool.and_eq_true, Bool.not_eq_true', decide_eq_true_eq, decide_eq_false_iff_not]
  omega

lemma setBit_self (x : BitVec w) {i : ℕ} (lt : i < w) : (setBit x i).getLsbD i = true := by
  rw [setBit, BitVec.getLsbD_or, getLsbD_one_shiftLeft]
  simp [lt]

lemma setBit_other (x : BitVec w) {i j : ℕ} (ne : j ≠ i) :
    (setBit x i).getLsbD j = x.getLsbD j := by
  rw [setBit, BitVec.getLsbD_or, getLsbD_one_shiftLeft]
  simp [ne]

lemma clearBit_self (x : BitVec w) (i : ℕ) : (clearBit x i).getLsbD i = false := by
  rw [clearBit, BitVec.getLsbD_and, BitVec.getLsbD_not, getLsbD_one_shiftLeft]
  by_cases lt : i < w <;> simp [lt]

lemma clearBit_other (x : BitVec w) {i j : ℕ} (ne : j ≠ i) :
    (clearBit x i).getLsbD j = x.getLsbD j := by
  rw [clearBit, BitVec.getLsbD_and, BitVec.getLsbD_not, getLsbD_one_shiftLeft]
  by_cases lt : j < w
  · simp [lt, ne]
  · simp [BitVec.getLsbD_of_ge x j (by omega)]

lemma getLsbD_bitOf_shiftLeft (x : BitVec w) (i j : ℕ) :
    (bitOf x i <<< i).getLsbD j = (decide (j = i) && x.getLsbD i) := by
  rw [BitVec.getLsbD_shiftLeft, bitOf, BitVec.getLsbD_and, BitVec.getLsbD_ushiftRight,
    BitVec.getLsbD_one]
  by_cases eq : j = i
  · subst eq
    by_cases lt : j < w
    · simp [lt, show 0 < w by omega]
    · simp [BitVec.getLsbD_of_ge x j (by omega)]
  · have : ¬(¬j < i ∧ 0 < w ∧ 0 = j - i) := by omega
    rw [Bool.eq_iff_iff]
    simp only [Bool.and_eq_true, Bool.not_eq_true', decide_eq_true_eq, decide_eq_false_iff_not, eq,
      false_and, iff_false]
    omega

lemma putBit_self (x y : BitVec w) (i : ℕ) :
    (putBit x i (bitOf y i)).getLsbD i = y.getLsbD i := by
  rw [putBit, BitVec.getLsbD_or, clearBit_self, getLsbD_bitOf_shiftLeft]
  simp

lemma putBit_other (x y : BitVec w) {i j : ℕ} (ne : j ≠ i) :
    (putBit x i (bitOf y i)).getLsbD j = x.getLsbD j := by
  rw [putBit, BitVec.getLsbD_or, clearBit_other x ne, getLsbD_bitOf_shiftLeft]
  simp [ne]

end WordBits
