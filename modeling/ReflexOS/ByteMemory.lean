import Mathlib.Algebra.Group.Nat.Defs
import Mathlib.Tactic.Common

set_option autoImplicit false

/-!
# Byte memory with little-endian words

Loads and stores of 32-bit words, and copies of byte ranges; every rule says what a store
leaves behind, or what it leaves alone.
-/
namespace ByteMemory

abbrev Memory := ℕ → UInt8

def load32 (m : Memory) (a : ℕ) : ℕ :=
  (m a).toNat + 2 ^ 8 * (m (a + 1)).toNat + 2 ^ 16 * (m (a + 2)).toNat +
    2 ^ 24 * (m (a + 3)).toNat

def store32 (m : Memory) (a v : ℕ) : Memory := fun x =>
  if x = a then UInt8.ofNat v
  else if x = a + 1 then UInt8.ofNat (v / 2 ^ 8)
  else if x = a + 2 then UInt8.ofNat (v / 2 ^ 16)
  else if x = a + 3 then UInt8.ofNat (v / 2 ^ 24)
  else m x

/-- `n` bytes from `src` to `dst`, read before the first is written. -/
def copyBytes (m : Memory) (dst src n : ℕ) : Memory := fun x =>
  if dst ≤ x ∧ x < dst + n then m (src + (x - dst)) else m x

variable {m m' : Memory} {a b v x dst src n : ℕ}

theorem load32_lt : load32 m a < 2 ^ 32 := by
  have h0 := (m a).toNat_lt
  have h1 := (m (a + 1)).toNat_lt
  have h2 := (m (a + 2)).toNat_lt
  have h3 := (m (a + 3)).toNat_lt
  unfold load32
  omega

theorem load32_congr (h : ∀ x, a ≤ x → x < a + 4 → m' x = m x) : load32 m' a = load32 m a := by
  unfold load32
  rw [h a (by omega) (by omega), h (a + 1) (by omega) (by omega), h (a + 2) (by omega) (by omega),
    h (a + 3) (by omega) (by omega)]

theorem store32_other (h : x < a ∨ a + 4 ≤ x) : store32 m a v x = m x := by
  unfold store32
  rw [if_neg (by omega), if_neg (by omega), if_neg (by omega), if_neg (by omega)]

theorem load32_store32 (h : v < 2 ^ 32) : load32 (store32 m a v) a = v := by
  simp only [load32, store32, if_true, Nat.add_eq_left, Nat.succ_ne_zero, if_false,
    Nat.add_left_cancel_iff, Nat.reduceEqDiff, UInt8.toNat_ofNat']
  omega

theorem load32_store32_other (h : a + 4 ≤ b ∨ b + 4 ≤ a) :
    load32 (store32 m a v) b = load32 m b :=
  load32_congr fun _ _ _ => store32_other (by omega)

theorem byte_load32 {j : ℕ} (h : j < 4) :
    UInt8.ofNat (load32 m a / 2 ^ (8 * j)) = m (a + j) := by
  have h0 := (m a).toNat_lt
  have h1 := (m (a + 1)).toNat_lt
  have h2 := (m (a + 2)).toNat_lt
  have h3 := (m (a + 3)).toNat_lt
  apply UInt8.toNat_inj.mp
  rw [UInt8.toNat_ofNat', load32]
  obtain rfl | rfl | rfl | rfl : j = 0 ∨ j = 1 ∨ j = 2 ∨ j = 3 := by omega
  all_goals simp only [Nat.mul_zero, Nat.mul_one, Nat.add_zero, Nat.reduceMul, Nat.reducePow]
  all_goals omega

theorem store32_load32 {j : ℕ} (h : j < 4) : store32 m a (load32 m' b) (a + j) = m' (b + j) := by
  rw [← @byte_load32 m' b j h]
  obtain rfl | rfl | rfl | rfl : j = 0 ∨ j = 1 ∨ j = 2 ∨ j = 3 := by omega
  all_goals simp [store32]

theorem copyBytes_other (h : x < dst ∨ dst + n ≤ x) : copyBytes m dst src n x = m x :=
  if_neg (by omega)

theorem copyBytes_copied {i : ℕ} (h : i < n) : copyBytes m dst src n (dst + i) = m (src + i) := by
  rw [copyBytes, if_pos (by omega), Nat.add_sub_cancel_left]

end ByteMemory
