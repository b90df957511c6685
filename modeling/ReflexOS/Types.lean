import Mathlib.Algebra.Group.Int.Defs
import Mathlib.Algebra.Group.Nat.Defs
import Mathlib.Data.Int.Order.Basic
import Mathlib.Tactic.Common

set_option autoImplicit false

/-!
# Error codes and C integer conversions

`reflex_err_t` is a plain `int`; one path of the interpreter even returns a fault
enumerator through it, so the codes stay integers here.
-/
namespace ReflexOS

abbrev Err := ℤ

namespace Err
def ok : Err := 0
def fail : Err := -1
def noMem : Err := 0x101
def invalidArg : Err := 0x102
def invalidState : Err := 0x103
def invalidSize : Err := 0x104
def notFound : Err := 0x105
def notSupported : Err := 0x106
def timeout : Err := 0x107
def invalidResponse : Err := 0x108
def invalidCrc : Err := 0x109
def invalidVersion : Err := 0x10A
end Err

/-- Conversion to `uint32_t`. -/
def u32 (x : ℤ) : ℕ := (x % 2 ^ 32).toNat

/-- Conversion to `uint8_t`. -/
def u8 (x : ℤ) : ℕ := (x % 2 ^ 8).toNat

/-- Conversion to `uint16_t`. -/
def u16 (x : ℤ) : ℕ := (x % 2 ^ 16).toNat

/-- Conversion to `int8_t`. -/
def i8 (x : ℤ) : ℤ := (x + 2 ^ 7) % 2 ^ 8 - 2 ^ 7

/-- Conversion to `int16_t`. -/
def i16 (x : ℤ) : ℤ := (x + 2 ^ 15) % 2 ^ 16 - 2 ^ 15

/-- Conversion to `int32_t`. -/
def i32 (x : ℤ) : ℤ := (x + 2 ^ 31) % 2 ^ 32 - 2 ^ 31

theorem u32_lt (x : ℤ) : u32 x < 2 ^ 32 := by
  unfold u32
  omega

/-- The bytes of a C string, without its terminator. -/
abbrev CName := List UInt8

/-- The bytes of a string literal of the source. -/
def ascii (s : String) : CName := s.toList.map (fun c => UInt8.ofNat c.toNat)

theorem takeWhile_string {name : CName} (h : (0 : UInt8) ∉ name) (rest : List UInt8) :
    (name ++ rest).takeWhile (· ≠ 0) = name ++ rest.takeWhile (· ≠ 0) := by
  apply List.takeWhile_append_of_pos
  intro c hc
  simpa using ne_of_mem_of_not_mem hc h

/-- A C string ends at its terminator. -/
theorem takeWhile_terminated {name : CName} (h : (0 : UInt8) ∉ name) (rest : List UInt8) :
    (name ++ 0 :: rest).takeWhile (· ≠ 0) = name := by
  rw [takeWhile_string h, List.takeWhile_cons_of_neg (by decide), List.append_nil]

theorem takeWhile_pad (name : CName) (k : ℕ) :
    (name ++ List.replicate k 0).takeWhile (· ≠ 0) = name.takeWhile (· ≠ 0) := by
  rw [List.takeWhile_append]
  split
  · have hzeros : (List.replicate k (0 : UInt8)).takeWhile (· ≠ 0) = [] := by
      cases k <;> simp [List.replicate_succ]
    next hall =>
      rw [hzeros, List.append_nil]
      exact (List.IsPrefix.eq_of_length (List.takeWhile_prefix _) hall).symm
  · rfl

/-- What is taken of a padded name ends within the padding. -/
theorem take_pad {name rest : CName} {k n : ℕ} (hn : name.length ≤ n) (hk : n ≤ name.length + k) :
    (name ++ List.replicate k 0 ++ rest).take n = name ++ List.replicate (n - name.length) 0 := by
  have hlen : (name ++ List.replicate k 0).length = name.length + k := by
    rw [List.length_append, List.length_replicate]
  rw [List.take_append_of_le_length (hlen ▸ hk), List.take_append, List.take_of_length_le hn,
    List.take_replicate, Nat.min_eq_left (Nat.sub_le_iff_le_add'.mpr hk)]

theorem takeWhile_padded {name : CName} (h : (0 : UInt8) ∉ name) (k : ℕ) :
    (name ++ List.replicate k 0).takeWhile (· ≠ 0) = name := by
  rw [takeWhile_pad, ← List.append_nil name, takeWhile_string h]
  rfl

end ReflexOS
