import Mathlib.Algebra.BigOperators.Fin
import Mathlib.Algebra.Order.Ring.Int
import Mathlib.Tactic.Common
import Mathlib.Tactic.Linarith
import Mathlib.Tactic.LinearCombination
import Mathlib.Tactic.Ring

set_option autoImplicit false

/-!
# Balanced ternary numerals

Digits -1, 0 and 1, least significant first: what they stand for, what a given number of them
can stand for, and how carries and repeated division produce them.
-/
namespace BalancedTernary

def value : List ℤ → ℤ
  | [] => 0
  | t :: ts => t + 3 * value ts

def Digit (t : ℤ) : Prop := -1 ≤ t ∧ t ≤ 1

def Digits (ts : List ℤ) : Prop := ∀ t ∈ ts, Digit t

/-- The largest number of `n` digits. -/
def top : ℕ → ℤ
  | 0 => 0
  | n + 1 => 3 * top n + 1

variable {ts us : List ℤ} {t u : ℤ} {n : ℕ}

theorem digits_cons : Digits (t :: ts) ↔ Digit t ∧ Digits ts := List.forall_mem_cons

theorem digits_reverse : Digits ts.reverse ↔ Digits ts := by simp [Digits]

theorem top_nonneg : 0 ≤ top n := by
  induction n with
  | zero => exact le_refl 0
  | succ n ih =>
    unfold top
    omega

theorem two_mul_top : 2 * top n + 1 = 3 ^ n := by
  induction n with
  | zero => rfl
  | succ n ih =>
    rw [top, pow_succ, ← ih]
    ring

theorem value_append : value (ts ++ us) = value ts + 3 ^ ts.length * value us := by
  induction ts with
  | nil => simp [value]
  | cons t ts ih =>
    rw [List.cons_append, value, ih, value, List.length_cons, pow_succ]
    ring

theorem value_ofFn (w : Fin n → ℤ) : value (List.ofFn w) = ∑ i, w i * 3 ^ i.val := by
  induction n with
  | zero => simp [value]
  | succ n ih =>
    rw [List.ofFn_succ, value, ih, Fin.sum_univ_succ, Finset.mul_sum]
    congr 1
    · simp
    · refine Finset.sum_congr rfl fun i _ => ?_
      rw [Fin.val_succ, pow_succ]
      ring

/-- `n` digits stay within the range of `n` digits. -/
theorem value_mem (h : Digits ts) : -top ts.length ≤ value ts ∧ value ts ≤ top ts.length := by
  induction ts with
  | nil => exact ⟨le_refl 0, le_refl 0⟩
  | cons t ts ih =>
    obtain ⟨⟨hlo, hhi⟩, hts⟩ := digits_cons.mp h
    obtain ⟨ihlo, ihhi⟩ := ih hts
    rw [List.length_cons, top, value]
    constructor <;> omega

/-- A number has one numeral of each length. -/
theorem eq_of_value (ht : Digits ts) (hu : Digits us) (hlen : ts.length = us.length)
    (hv : value ts = value us) : ts = us := by
  induction ts generalizing us with
  | nil => exact (List.length_eq_zero_iff.mp hlen.symm).symm
  | cons t ts ih =>
    cases us with
    | nil => cases hlen
    | cons u us =>
      obtain ⟨⟨htlo, hthi⟩, hts⟩ := digits_cons.mp ht
      obtain ⟨⟨hulo, huhi⟩, hus⟩ := digits_cons.mp hu
      simp only [value] at hv
      have htu : t = u := by omega
      rw [htu, ih hts hus (Nat.succ.inj hlen) (by omega)]

/-- A greater leading digit outweighs everything behind it. -/
theorem value_lead_lt (ht : Digits ts) (hu : Digits us) (hlen : ts.length = us.length)
    (htu : t < u) : value (ts ++ [t]) < value (us ++ [u]) := by
  have htmem := value_mem ht
  have humem := value_mem hu
  rw [hlen] at htmem
  rw [value_append, value_append, hlen, ← two_mul_top]
  simp only [value, mul_zero, add_zero]
  have hstep : (2 * top us.length + 1) * (t + 1) ≤ (2 * top us.length + 1) * u :=
    mul_le_mul_of_nonneg_left htu (by have := @top_nonneg us.length; omega)
  linarith [htmem.2, humem.1]

section Ripple

/-- A column sum split into the digit it leaves and the carry it passes on. -/
structure Carries (column : ℤ → ℤ × ℤ) : Prop where
  digit : ∀ s, -3 ≤ s → s ≤ 3 → Digit (column s).1
  carry : ∀ s, -3 ≤ s → s ≤ 3 → Digit (column s).2
  sum : ∀ s, -3 ≤ s → s ≤ 3 → s = (column s).1 + 3 * (column s).2

/-- Addition with a carry along the digits. -/
def ripple (column : ℤ → ℤ × ℤ) : List ℤ → List ℤ → ℤ → List ℤ × ℤ
  | a :: as, b :: bs, carry =>
    let c := column (a + b + carry)
    let rest := ripple column as bs c.2
    (c.1 :: rest.1, rest.2)
  | _, _, carry => ([], carry)

variable {column : ℤ → ℤ × ℤ} (hc : Carries column)
include hc

theorem ripple_spec {carry : ℤ} (ht : Digits ts) (hu : Digits us)
    (hlen : ts.length = us.length) (hcarry : Digit carry) :
    Digits (ripple column ts us carry).1 ∧ (ripple column ts us carry).1.length = us.length ∧
      value (ripple column ts us carry).1 + 3 ^ us.length * (ripple column ts us carry).2 =
        value ts + value us + carry := by
  induction ts generalizing us carry with
  | nil =>
    obtain rfl : us = [] := List.length_eq_zero_iff.mp hlen.symm
    simp [ripple, value, Digits]
  | cons t ts ih =>
    cases us with
    | nil => cases hlen
    | cons u us =>
      obtain ⟨⟨htlo, hthi⟩, hts⟩ := digits_cons.mp ht
      obtain ⟨⟨hulo, huhi⟩, hus⟩ := digits_cons.mp hu
      obtain ⟨hclo, hchi⟩ := hcarry
      have hlo : -3 ≤ t + u + carry := by omega
      have hhi : t + u + carry ≤ 3 := by omega
      obtain ⟨hdigits, hlength, hsum⟩ := ih hts hus (Nat.succ.inj hlen) (hc.carry _ hlo hhi)
      have hcol := hc.sum _ hlo hhi
      refine ⟨digits_cons.mpr ⟨hc.digit _ hlo hhi, hdigits⟩, congrArg Nat.succ hlength, ?_⟩
      simp only [ripple, value, List.length_cons, pow_succ]
      linear_combination 3 * hsum - hcol

/-- No carry is left exactly if the sum has a numeral of the same length. -/
theorem ripple_fits_iff (ht : Digits ts) (hu : Digits us) (hlen : ts.length = us.length) :
    (ripple column ts us 0).2 = 0 ↔
      -top us.length ≤ value ts + value us ∧ value ts + value us ≤ top us.length := by
  obtain ⟨hdigits, hlength, hsum⟩ :=
    ripple_spec hc ht hu hlen (show Digit (0 : ℤ) from ⟨by decide, by decide⟩)
  have hmem := value_mem hdigits
  rw [hlength] at hmem
  rw [← two_mul_top, add_zero] at hsum
  rw [← hsum]
  generalize (ripple column ts us 0).2 = c at *
  have htop := @top_nonneg us.length
  constructor
  · rintro rfl
    simpa using hmem
  · rintro ⟨hlo, hhi⟩
    rcases lt_trichotomy c 0 with hneg | hzero | hpos
    · have hm := mul_le_mul_of_nonneg_left (show c ≤ -1 by omega)
        (show 0 ≤ 2 * top us.length + 1 by omega)
      linarith [hmem.2]
    · exact hzero
    · have hm := mul_le_mul_of_nonneg_left (show 1 ≤ c by omega)
        (show 0 ≤ 2 * top us.length + 1 by omega)
      linarith [hmem.1]

end Ripple

section Extract

/-- A number split into its last digit and the number of the others. -/
structure Divides (split : ℤ → ℤ × ℤ) : Prop where
  digit : ∀ v, Digit (split v).1
  sum : ∀ v, v = (split v).1 + 3 * (split v).2

/-- The last `n` digits, and what is left. -/
def extract (split : ℤ → ℤ × ℤ) : ℕ → ℤ → List ℤ × ℤ
  | 0, v => ([], v)
  | n + 1, v =>
    let d := split v
    let rest := extract split n d.2
    (d.1 :: rest.1, rest.2)

variable {split : ℤ → ℤ × ℤ} (hs : Divides split)
include hs

theorem extract_spec (v : ℤ) :
    Digits (extract split n v).1 ∧ (extract split n v).1.length = n ∧
      value (extract split n v).1 + 3 ^ n * (extract split n v).2 = v := by
  induction n generalizing v with
  | zero => simp [extract, value, Digits]
  | succ n ih =>
    obtain ⟨hdigits, hlength, hsum⟩ := ih (split v).2
    refine ⟨digits_cons.mpr ⟨hs.digit v, hdigits⟩, congrArg Nat.succ hlength, ?_⟩
    simp only [extract, value, pow_succ]
    linear_combination 3 * hsum - hs.sum v

/-- Nothing is left exactly of the numbers `n` digits can stand for. -/
theorem extract_fits_iff (v : ℤ) : (extract split n v).2 = 0 ↔ -top n ≤ v ∧ v ≤ top n := by
  obtain ⟨hdigits, hlength, hsum⟩ := extract_spec hs (n := n) v
  have hmem := value_mem hdigits
  rw [hlength] at hmem
  rw [← two_mul_top] at hsum
  generalize (extract split n v).2 = c at *
  have htop := @top_nonneg n
  constructor
  · rintro rfl
    rw [mul_zero, add_zero] at hsum
    rwa [hsum] at hmem
  · rintro ⟨hlo, hhi⟩
    rcases lt_trichotomy c 0 with hneg | hzero | hpos
    · have hm := mul_le_mul_of_nonneg_left (show c ≤ -1 by omega)
        (show 0 ≤ 2 * top n + 1 by omega)
      linarith [hmem.2]
    · exact hzero
    · have hm := mul_le_mul_of_nonneg_left (show 1 ≤ c by omega)
        (show 0 ≤ 2 * top n + 1 by omega)
      linarith [hmem.1]

/-- The digits of a numeral are the ones extracted from its value. -/
theorem extract_value (ht : Digits ts) : extract split ts.length (value ts) = (ts, 0) := by
  obtain ⟨hdigits, hlength, hsum⟩ := extract_spec hs (n := ts.length) (value ts)
  have hzero := (extract_fits_iff hs (n := ts.length) (value ts)).mpr (value_mem ht)
  rw [hzero, mul_zero, add_zero] at hsum
  exact Prod.ext (eq_of_value hdigits ht hlength hsum) hzero

end Extract

end BalancedTernary
