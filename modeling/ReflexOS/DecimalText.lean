import ReflexOS.PythonText

set_option autoImplicit false

/-!
# Decimal numbers as text

What `%d` prints and what `int` reads, of ASCII digits.
-/
namespace DecimalText
open PythonText

/-- `%d`. -/
def format (z : ℤ) : Text := (if z < 0 then ['-'] else []) ++ Nat.toDigits 10 z.natAbs

def digit (c : Char) : ℕ := c.toNat - '0'.toNat

/-- The digits after the first, an underscore between two of them at most. -/
def parseDigits (n : ℕ) : Text → Option ℕ
  | [] => some n
  | '_' :: c :: t => if c.isDigit then parseDigits (10 * n + digit c) t else none
  | c :: t => if c.isDigit then parseDigits (10 * n + digit c) t else none

def parseNat : Text → Option ℕ
  | [] => none
  | c :: t => if c.isDigit then parseDigits (digit c) t else none

/-- `int`. -/
def parse (t : Text) : Option ℤ :=
  match strip t with
  | '-' :: t => (parseNat t).map Int.negOfNat
  | '+' :: t => (parseNat t).map Int.ofNat
  | t => (parseNat t).map Int.ofNat

example : parse (text " -1_000 ") = some (-1000) := by decide
example : parse (text "1__0") = none := by decide

theorem digit_ne {c d : Char} (h : c.isDigit = true) (hd : d.isDigit = false) : c ≠ d := by
  rintro rfl
  rw [h] at hd
  cases hd

theorem digit_range {c : Char} (h : c.isDigit = true) : 48 ≤ c.toNat ∧ c.toNat ≤ 57 := by
  obtain ⟨hlow, hhigh⟩ := Bool.and_eq_true_iff.mp h
  exact ⟨UInt32.le_iff_toNat_le.mp (of_decide_eq_true hlow),
    UInt32.le_iff_toNat_le.mp (of_decide_eq_true hhigh)⟩

theorem digit_solid {c : Char} (h : c.isDigit = true) : isSpace c = false := by
  have hrange := digit_range h
  simp only [isSpace, Bool.or_eq_false_iff, Bool.and_eq_false_iff, decide_eq_false_iff_not,
    beq_eq_false_iff_ne]
  omega

theorem parseDigits_digits {t : Text} (h : ∀ c ∈ t, c.isDigit = true) (n : ℕ) :
    parseDigits n t = some (Nat.ofDigitChars 10 t n) := by
  induction t generalizing n with
  | nil => rfl
  | cons c t ih =>
    have hc := h c List.mem_cons_self
    have hne : c ≠ '_' := digit_ne hc (by decide)
    rw [parseDigits, if_pos hc, ih (fun d hd => h d (List.mem_cons_of_mem c hd)),
      Nat.ofDigitChars_cons]
    · rfl
    · intro d t heq
      exact absurd heq hne

theorem parseNat_digits (n : ℕ) : parseNat (Nat.toDigits 10 n) = some n := by
  have hdigits : ∀ c ∈ Nat.toDigits 10 n, c.isDigit = true := fun c hc =>
    Nat.isDigit_of_mem_toDigits (by decide) (by decide) hc
  have hvalue : Nat.ofDigitChars 10 (Nat.toDigits 10 n) 0 = n := Nat.ofDigitChars_ten_toDigits
  cases ht : Nat.toDigits 10 n with
  | nil => exact absurd ht Nat.toDigits_ne_nil
  | cons c t =>
    rw [ht] at hdigits hvalue
    rw [parseNat, if_pos (hdigits c List.mem_cons_self),
      parseDigits_digits fun d hd => hdigits d (List.mem_cons_of_mem c hd)]
    rw [Nat.ofDigitChars_cons, Nat.mul_zero, Nat.zero_add] at hvalue
    exact congrArg some hvalue

/-- What `%d` prints are digits, a minus sign before them at most. -/
theorem format_chars {z : ℤ} {c : Char} (h : c ∈ format z) : c = '-' ∨ c.isDigit = true := by
  rcases List.mem_append.mp h with h | h
  · split at h
    · exact .inl (List.mem_singleton.mp h)
    · cases h
  · exact .inr (Nat.isDigit_of_mem_toDigits (by decide) (by decide) h)

theorem format_solid {z : ℤ} : ∀ c ∈ format z, isSpace c = false := by
  intro c hc
  rcases format_chars hc with rfl | hdigit
  · decide
  · exact digit_solid hdigit

theorem format_ne_nil (z : ℤ) : format z ≠ [] := by
  intro h
  exact Nat.toDigits_ne_nil (List.append_eq_nil_iff.mp h).2

/-- `int` reads back what `%d` prints. -/
theorem parse_format (z : ℤ) : parse (format z) = some z := by
  rw [parse, strip_solid format_solid, format]
  by_cases hneg : z < 0
  · rw [if_pos hneg]
    simp only [List.cons_append, List.nil_append, parseNat_digits, Option.map_some,
      Int.negOfNat_eq, Int.ofNat_eq_natCast]
    congr 1
    omega
  · rw [if_neg hneg, List.nil_append]
    cases ht : Nat.toDigits 10 z.natAbs with
    | nil => exact absurd ht Nat.toDigits_ne_nil
    | cons c t =>
      have hdigit : c.isDigit = true :=
        Nat.isDigit_of_mem_toDigits (by decide) (by decide) (ht ▸ List.mem_cons_self)
      have hminus : c ≠ '-' := digit_ne hdigit (by decide)
      have hplus : c ≠ '+' := digit_ne hdigit (by decide)
      have hparse := parseNat_digits z.natAbs
      rw [ht] at hparse
      split
      next heq => exact absurd (List.cons.inj heq).1 hminus
      next heq => exact absurd (List.cons.inj heq).1 hplus
      next =>
        rw [hparse, Option.map_some, Int.ofNat_eq_natCast]
        congr 1
        omega

end DecimalText
