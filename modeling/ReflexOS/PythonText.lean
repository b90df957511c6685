import Mathlib.Data.List.DropRight
import Mathlib.Tactic.Common

set_option autoImplicit false

/-!
# Python strings

A string is the list of its code points. White space and line ends are those of `str.isspace`
and `str.splitlines`.
-/
namespace PythonText

abbrev Text := List Char

instance lawfulBEqText : LawfulBEq Text := inferInstance

def text (s : String) : Text := s.toList

def str (t : Text) : String := String.ofList t

def isSpace (c : Char) : Bool :=
  let n := c.toNat
  (9 ≤ n && n ≤ 13) || (28 ≤ n && n ≤ 32) || n == 0x85 || n == 0xA0 || n == 0x1680 ||
    (0x2000 ≤ n && n ≤ 0x200A) || n == 0x2028 || n == 0x2029 || n == 0x202F || n == 0x205F ||
    n == 0x3000

def isLineBreak (c : Char) : Bool :=
  let n := c.toNat
  (10 ≤ n && n ≤ 13) || (28 ≤ n && n ≤ 30) || n == 0x85 || n == 0x2028 || n == 0x2029

/-- `str.splitlines`; `acc` is the line so far, backwards. -/
def linesFrom (acc : Text) : Text → List Text
  | [] => if acc = [] then [] else [acc.reverse]
  | '\r' :: '\n' :: cs => acc.reverse :: linesFrom [] cs
  | c :: cs => if isLineBreak c then acc.reverse :: linesFrom [] cs else linesFrom (c :: acc) cs

def splitLines (t : Text) : List Text := linesFrom [] t

def strip (t : Text) : Text := (t.dropWhile isSpace).rdropWhile isSpace

/-- `str.split(None, 1)`. -/
def splitOnce (t : Text) : List Text :=
  let t := t.dropWhile isSpace
  let word := t.takeWhile fun c => !isSpace c
  let rest := (t.dropWhile fun c => !isSpace c).dropWhile isSpace
  if t = [] then [] else if rest = [] then [word] else [word, rest]

section Solid

variable {c : Char} (h : isSpace c = false)
include h

theorem mem_dropSpace (t : Text) : c ∈ t.dropWhile isSpace ↔ c ∈ t := by
  constructor
  · exact fun hc => (List.dropWhile_sublist _).mem hc
  · intro hc
    rw [← List.takeWhile_append_dropWhile (l := t) (p := isSpace), List.mem_append] at hc
    apply hc.resolve_left
    intro hspace
    rw [List.mem_takeWhile_imp hspace] at h
    cases h

theorem mem_strip (t : Text) : c ∈ strip t ↔ c ∈ t := by
  rw [strip, List.rdropWhile, List.mem_reverse, mem_dropSpace h, List.mem_reverse, mem_dropSpace h]

/-- Only white space stands between the parts. -/
theorem mem_splitOnce (t : Text) : c ∈ t ↔ ∃ part ∈ splitOnce t, c ∈ part := by
  have hparts : c ∈ t ↔ c ∈ (t.dropWhile isSpace).takeWhile (fun c => !isSpace c) ∨
      c ∈ ((t.dropWhile isSpace).dropWhile fun c => !isSpace c).dropWhile isSpace := by
    rw [mem_dropSpace h, ← List.mem_append, List.takeWhile_append_dropWhile, mem_dropSpace h]
  rw [hparts, splitOnce]
  split
  next hnil => simp [hnil]
  · split
    next hrest => simp [hrest]
    next => simp

end Solid

theorem length_splitOnce (t : Text) : (splitOnce t).length ≤ 2 := by
  unfold splitOnce
  dsimp only
  split
  · exact Nat.zero_le _
  · split
    · exact Nat.le_succ 1
    · exact Nat.le_refl 2

theorem strip_solid {t : Text} (h : ∀ c ∈ t, isSpace c = false) : strip t = t := by
  have hdrop : t.dropWhile isSpace = t := by
    cases t with
    | nil => rfl
    | cons c t =>
      apply List.dropWhile_cons_of_neg
      rw [h c List.mem_cons_self]
      exact Bool.false_ne_true
  rw [strip, hdrop, List.rdropWhile_eq_self_iff]
  intro hne
  rw [h _ (List.getLast_mem hne)]
  exact Bool.false_ne_true

end PythonText
