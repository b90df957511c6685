import Mathlib.Tactic.Common
import Mathlib.Tactic.Ring

set_option autoImplicit false

/-!
# Little-endian numbers

A number as a fixed count of bytes, the low byte first, and back.
-/
namespace LittleEndian

def encode : ℕ → ℕ → List UInt8
  | 0, _ => []
  | w + 1, n => UInt8.ofNat n :: encode w (n / 256)

def decode : List UInt8 → ℕ
  | [] => 0
  | b :: bytes => b.toNat + 256 * decode bytes

variable {w n m : ℕ} {bytes : List UInt8}

@[simp] theorem length_encode (w n : ℕ) : (encode w n).length = w := by
  induction w generalizing n with
  | zero => rfl
  | succ w ih => rw [encode, List.length_cons, ih]

theorem decode_encode (h : n < 256 ^ w) : decode (encode w n) = n := by
  induction w generalizing n with
  | zero =>
    rw [Nat.pow_zero] at h
    simp only [encode, decode]
    omega
  | succ w ih =>
    have hdiv : n / 256 < 256 ^ w := by
      apply Nat.div_lt_of_lt_mul
      rwa [Nat.mul_comm, ← Nat.pow_succ]
    rw [encode, decode, ih hdiv, UInt8.toNat_ofNat']
    omega

theorem decode_lt (bytes : List UInt8) : decode bytes < 256 ^ bytes.length := by
  induction bytes with
  | nil => exact Nat.one_pos
  | cons b bytes ih =>
    have hb := b.toNat_lt
    rw [decode, List.length_cons, Nat.pow_succ]
    omega

theorem encode_decode (bytes : List UInt8) : encode bytes.length (decode bytes) = bytes := by
  induction bytes with
  | nil => rfl
  | cons b bytes ih =>
    have hb := b.toNat_lt
    have hlow : UInt8.ofNat (b.toNat + 256 * decode bytes) = b := by
      apply UInt8.toNat_inj.mp
      rw [UInt8.toNat_ofNat']
      omega
    have hrest : (b.toNat + 256 * decode bytes) / 256 = decode bytes := by omega
    rw [decode, List.length_cons, encode, hlow, hrest, ih]

theorem encode_inj (hn : n < 256 ^ w) (hm : m < 256 ^ w) : encode w n = encode w m ↔ n = m := by
  constructor
  · intro h
    rw [← decode_encode hn, h, decode_encode hm]
  · exact fun h => h ▸ rfl

/-- A number at the front of a record is what the record starts with. -/
theorem decode_take {rest : List UInt8} (h : n < 256 ^ w) :
    decode ((encode w n ++ rest).take w) = n := by
  rw [List.take_left' (length_encode w n), decode_encode h]

theorem drop_encode {rest : List UInt8} {k : ℕ} (h : w ≤ k) :
    (encode w n ++ rest).drop k = rest.drop (k - w) := by
  rw [List.drop_append, List.drop_of_length_le, length_encode, List.nil_append]
  rwa [length_encode]

/-- Records of a fixed width, one behind the other. -/
theorem drop_flatMap {α β : Type*} {f : α → List β} {k : ℕ} {xs : List α}
    (hf : ∀ x ∈ xs, (f x).length = k) (i : ℕ) :
    (xs.flatMap f).drop (i * k) = (xs.drop i).flatMap f := by
  induction i generalizing xs with
  | zero => rw [Nat.zero_mul, List.drop_zero, List.drop_zero]
  | succ i ih =>
    cases xs with
    | nil => simp only [List.flatMap_nil, List.drop_nil]
    | cons x xs =>
      obtain ⟨hx, hxs⟩ := List.forall_mem_cons.mp hf
      rw [List.flatMap_cons, Nat.succ_mul, Nat.add_comm, ← List.drop_drop, List.drop_left' hx,
        ih hxs, List.drop_succ_cons]

theorem length_flatMap_fixed {α β : Type*} {f : α → List β} {k : ℕ} {xs : List α}
    (hf : ∀ x ∈ xs, (f x).length = k) : (xs.flatMap f).length = xs.length * k := by
  induction xs with
  | nil => rw [List.flatMap_nil, List.length_nil, List.length_nil, Nat.zero_mul]
  | cons x xs ih =>
    obtain ⟨hx, hxs⟩ := List.forall_mem_cons.mp hf
    rw [List.flatMap_cons, List.length_append, hx, ih hxs, List.length_cons, Nat.succ_mul,
      Nat.add_comm]

theorem drop_flatMap_get {α β : Type*} {f : α → List β} {k : ℕ} {xs : List α}
    (hf : ∀ x ∈ xs, (f x).length = k) {i : ℕ} {x : α} (hx : xs[i]? = some x) :
    ∃ rest, (xs.flatMap f).drop (i * k) = f x ++ rest := by
  obtain ⟨hi, hget⟩ := List.getElem?_eq_some_iff.mp hx
  refine ⟨(xs.drop (i + 1)).flatMap f, ?_⟩
  rw [drop_flatMap hf, List.drop_eq_getElem_cons hi, hget, List.flatMap_cons]

end LittleEndian
