import Mathlib.Data.List.GetD
import Mathlib.Logic.Function.Basic
import Mathlib.Tactic.Common

set_option autoImplicit false

/-!
# NOR flash

Bytes that an erase sets to `0xFF` and a program can only clear bits of. `Stored` says what
a range holds; every rule here moves it across an erase or a program.
-/
namespace NorFlash

abbrev Memory := ℕ → UInt8

def readBytes (F : Memory) (a : ℕ) : ℕ → List UInt8
  | 0 => []
  | n + 1 => F a :: readBytes F (a + 1) n

def program (F : Memory) (a : ℕ) (bytes : List UInt8) : Memory := fun x =>
  if a ≤ x ∧ x < a + bytes.length then F x &&& bytes.getD (x - a) 0xFF else F x

/-- A program that leaves its page of 256 bytes at the end goes on at the start of it. -/
def programPage (F : Memory) (a : ℕ) (bytes : List UInt8) : Memory := fun x =>
  if x / 256 = a / 256 ∧ (x % 256 + 256 - a % 256) % 256 < bytes.length then
    F x &&& bytes.getD ((x % 256 + 256 - a % 256) % 256) 0xFF
  else F x

def erase (F : Memory) (a n : ℕ) : Memory := fun x =>
  if a ≤ x ∧ x < a + n then 0xFF else F x

/-- The range from `a` on holds the bytes. -/
def Stored (F : Memory) : ℕ → List UInt8 → Prop
  | _, [] => True
  | a, b :: bytes => F a = b ∧ Stored F (a + 1) bytes

/-- A blank range. -/
abbrev blanks (n : ℕ) : List UInt8 := List.replicate n 0xFF

variable {F F' : Memory} {a n : ℕ} {xs ys : List UInt8}

theorem stored_append : Stored F a (xs ++ ys) ↔ Stored F a xs ∧ Stored F (a + xs.length) ys := by
  induction xs generalizing a with
  | nil => simp [Stored]
  | cons x xs ih =>
    rw [List.cons_append, Stored, Stored, ih, List.length_cons, and_assoc]
    rw [show a + 1 + xs.length = a + (xs.length + 1) by omega]

theorem stored_iff_get : Stored F a xs ↔ ∀ i (h : i < xs.length), F (a + i) = xs[i] := by
  induction xs generalizing a with
  | nil => simp [Stored]
  | cons x xs ih =>
    rw [Stored, ih]
    constructor
    · rintro ⟨h0, hs⟩ i hi
      cases i with
      | zero => exact h0
      | succ i =>
        have := hs i (by simpa using hi)
        rwa [Nat.add_right_comm] at this
    · intro h
      refine ⟨h 0 (by simp), fun i hi => ?_⟩
      have := h (i + 1) (by simpa using hi)
      rwa [← Nat.add_assoc, Nat.add_right_comm] at this

theorem Stored.congr (h : Stored F a xs) (hsame : ∀ x, a ≤ x → x < a + xs.length → F' x = F x) :
    Stored F' a xs := by
  rw [stored_iff_get] at h ⊢
  intro i hi
  rw [hsame (a + i) (by omega) (by omega), h i hi]

theorem readBytes_of_stored (h : Stored F a xs) : readBytes F a xs.length = xs := by
  induction xs generalizing a with
  | nil => rfl
  | cons x xs ih => rw [List.length_cons, readBytes, h.1, ih h.2]

theorem stored_blanks_split {k : ℕ} (h : Stored F a (blanks n)) (hk : k ≤ n) :
    Stored F a (blanks k) ∧ Stored F (a + k) (blanks (n - k)) := by
  have hsplit : blanks n = blanks k ++ blanks (n - k) := by
    rw [List.replicate_append_replicate, Nat.add_sub_cancel' hk]
  rw [hsplit, stored_append, List.length_replicate] at h
  exact h

theorem program_other {x : ℕ} (h : x < a ∨ a + xs.length ≤ x) : program F a xs x = F x := by
  rw [program, if_neg (by omega)]

/-- Within its page a program ends where it should. -/
theorem programPage_eq (h : a % 256 + xs.length ≤ 256) : programPage F a xs = program F a xs := by
  funext x
  unfold programPage program
  by_cases hx : a ≤ x ∧ x < a + xs.length
  · have hpage : x / 256 = a / 256 := by omega
    have hindex : (x % 256 + 256 - a % 256) % 256 = x - a := by omega
    rw [if_pos hx, if_pos ⟨hpage, by omega⟩, hindex]
  · rw [if_neg hx, if_neg (by omega)]

theorem program_append : program (program F a xs) (a + xs.length) ys = program F a (xs ++ ys) := by
  funext x
  unfold program
  rw [List.length_append]
  by_cases hx : a ≤ x ∧ x < a + xs.length
  · rw [if_neg (by omega), if_pos hx, if_pos (by omega), List.getD_append _ _ _ _ (by omega)]
  by_cases hy : a + xs.length ≤ x ∧ x < a + xs.length + ys.length
  · rw [if_pos hy, if_neg hx, if_pos (by omega), List.getD_append_right _ _ _ _ (by omega),
      Nat.sub_sub]
  · rw [if_neg hy, if_neg hx, if_neg (by omega)]

theorem program_nil : program F a [] = F := by
  funext x
  exact if_neg (by simp only [List.length_nil]; omega)

theorem erase_other {x : ℕ} (h : x < a ∨ a + n ≤ x) : erase F a n x = F x := by
  rw [erase, if_neg (by omega)]

theorem blank_and (b : UInt8) : (0xFF : UInt8) &&& b = b := by
  apply UInt8.toNat_inj.mp
  rw [UInt8.toNat_and]
  change 255 &&& b.toNat = b.toNat
  rw [Nat.and_comm]
  exact (Nat.and_two_pow_sub_one_eq_mod b.toNat 8).trans (Nat.mod_eq_of_lt b.toNat_lt)

theorem stored_program (h : Stored F a (blanks xs.length)) : Stored (program F a xs) a xs := by
  rw [stored_iff_get] at h ⊢
  intro i hi
  have hblank := h i (by simpa using hi)
  rw [List.getElem_replicate] at hblank
  rw [program, if_pos (by omega), Nat.add_sub_cancel_left, hblank, blank_and]
  simp [hi]

theorem Stored.program_other {b : ℕ} (h : Stored F a xs)
    (hdisj : a + xs.length ≤ b ∨ b + ys.length ≤ a) : Stored (program F b ys) a xs :=
  h.congr fun x _ _ => NorFlash.program_other (by omega)

theorem stored_erase {b k : ℕ} (hb : a ≤ b) (hk : b + k ≤ a + n) :
    Stored (erase F a n) b (blanks k) := by
  rw [stored_iff_get]
  intro i hi
  rw [List.length_replicate] at hi
  rw [erase, if_pos (by omega), List.getElem_replicate]

theorem Stored.erase_other {b : ℕ} (h : Stored F a xs)
    (hdisj : a + xs.length ≤ b ∨ b + n ≤ a) : Stored (erase F b n) a xs :=
  h.congr fun x _ _ => NorFlash.erase_other (by omega)

end NorFlash
