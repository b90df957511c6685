import Mathlib.Data.List.Basic
import Mathlib.Tactic.Common

set_option autoImplicit false

/-!
# Decoding bytes that may not be UTF-8

What cannot belong to a character becomes U+FFFD, once for each longest start of one, and the
decoder goes on at the byte that did not fit.
-/
namespace Utf8Replace

/-- A character under way: how many bytes it is owed, the range of the next, and the bits so far. -/
structure Pending where
  owed : ℕ
  low : ℕ
  high : ℕ
  acc : ℕ
  above : 0x80 ≤ low

def between : Pending := ⟨0, 0x80, 0xBF, 0, Nat.le_refl _⟩

def replacement : Char := Char.ofNat 0xFFFD

/-- The first byte of a character. -/
def first (b : UInt8) : List Char × Pending :=
  let n := b.toNat
  if n < 0x80 then ([Char.ofNat n], between)
  else if 0xC2 ≤ n ∧ n ≤ 0xDF then ([], ⟨1, 0x80, 0xBF, n - 0xC0, by decide⟩)
  else if n = 0xE0 then ([], ⟨2, 0xA0, 0xBF, 0, by decide⟩)
  else if n = 0xED then ([], ⟨2, 0x80, 0x9F, 0xD, by decide⟩)
  else if 0xE1 ≤ n ∧ n ≤ 0xEF then ([], ⟨2, 0x80, 0xBF, n - 0xE0, by decide⟩)
  else if n = 0xF0 then ([], ⟨3, 0x90, 0xBF, 0, by decide⟩)
  else if 0xF1 ≤ n ∧ n ≤ 0xF3 then ([], ⟨3, 0x80, 0xBF, n - 0xF0, by decide⟩)
  else if n = 0xF4 then ([], ⟨3, 0x80, 0x8F, 4, by decide⟩)
  else ([replacement], between)

def step (p : Pending) (b : UInt8) : List Char × Pending :=
  if p.owed = 0 then first b
  else if p.low ≤ b.toNat ∧ b.toNat ≤ p.high then
    let acc := p.acc * 64 + (b.toNat - 0x80)
    if p.owed = 1 then ([Char.ofNat acc], between)
    else ([], ⟨p.owed - 1, 0x80, 0xBF, acc, Nat.le_refl _⟩)
  else (replacement :: (first b).1, (first b).2)

def decodeFrom (p : Pending) : List UInt8 → List Char
  | [] => if p.owed = 0 then [] else [replacement]
  | b :: bs => (step p b).1 ++ decodeFrom (step p b).2 bs

def decode (bs : List UInt8) : List Char := decodeFrom between bs

example : decode [0xC3, 0xA9, 0x21] = [Char.ofNat 0xE9, '!'] := by decide
example : decode [0xE2, 0x82, 0x41, 0xFF] = [replacement, 'A', replacement] := by decide

variable {b : UInt8} {bs : List UInt8}

theorem first_ascii (h : b.toNat < 0x80) : first b = ([Char.ofNat b.toNat], between) := if_pos h

/-- A byte of ASCII is a character of its own, whatever stands before it. -/
theorem decodeFrom_ascii (h : b.toNat < 0x80) (p : Pending) (before after : List UInt8) :
    decodeFrom p (before ++ b :: after) =
      decodeFrom p before ++ Char.ofNat b.toNat :: decode after := by
  induction before generalizing p with
  | nil =>
    have habove := p.above
    rw [List.nil_append, decodeFrom, decodeFrom, step, first_ascii h]
    by_cases howed : p.owed = 0
    · rw [if_pos howed, if_pos howed]
      rfl
    · rw [if_neg howed, if_neg howed, if_neg (by omega)]
      rfl
  | cons c before ih =>
    rw [List.cons_append, decodeFrom, decodeFrom, ih, List.append_assoc]

theorem decode_append_ascii (h : b.toNat < 0x80) (before after : List UInt8) :
    decode (before ++ b :: after) = decode before ++ Char.ofNat b.toNat :: decode after :=
  decodeFrom_ascii h between before after

theorem decode_ascii (h : ∀ b ∈ bs, b.toNat < 0x80) :
    decode bs = bs.map fun b => Char.ofNat b.toNat := by
  induction bs with
  | nil => rfl
  | cons b bs ih =>
    have hb : b.toNat < 0x80 := h b List.mem_cons_self
    calc
      decode (b :: bs) = decode [] ++ Char.ofNat b.toNat :: decode bs :=
        decode_append_ascii hb [] bs
      _ = (b :: bs).map fun b => Char.ofNat b.toNat := by
        rw [ih fun c hc => h c (List.mem_cons_of_mem b hc)]
        rfl

end Utf8Replace
