import ReflexOS.Types
import Mathlib.Algebra.GroupWithZero.Nat
import Mathlib.Data.Fintype.Pi

set_option autoImplicit false

/-!
# Balanced ternary words

A trit is stored as an `int`, so a word may hold digits outside -1, 0, +1; every
arithmetic helper checks its operands first. An operation that fails leaves its
destination alone, which the result type `Except` expresses.
-/
namespace ReflexOS.VmTernary

abbrev Trits (n : ℕ) := Fin n → ℤ
abbrev Tryte9 := Trits 9
abbrev Word18 := Trits 18

-- One constant each, so that a digit's index is the same term in every module.
instance neZeroTryte9 : NeZero 9 := ⟨by decide⟩
instance neZeroWord18 : NeZero 18 := ⟨by decide⟩

def Trits.toList {n : ℕ} (w : Trits n) : List ℤ := List.ofFn w

def Trits.ofList {n : ℕ} (l : List ℤ) : Trits n := fun i => l.getD i.val 0

def zeroWord : Word18 := fun _ => 0

def tritIsValid (value : ℤ) : Bool := decide (-1 ≤ value ∧ value ≤ 1)

def word18IsValid (w : Word18) : Bool := w.toList.all tritIsValid

/-- Most significant trit first, as the loop runs. -/
def compareTrits : List ℤ → List ℤ → ℤ
  | a :: as, b :: bs => if a < b then -1 else if b < a then 1 else compareTrits as bs
  | _, _ => 0

def word18Compare (lhs rhs : Word18) : Except Err ℤ :=
  if !word18IsValid lhs then .error Err.invalidArg
  else if !word18IsValid rhs then .error Err.invalidArg
  else .ok (compareTrits lhs.toList.reverse rhs.toList.reverse)

/-- The trit a column sum leaves and the carry it passes on. -/
def normalizeSum (sum : ℤ) : ℤ × ℤ :=
  if sum > 1 then (sum - 3, 1) else if sum < -1 then (sum + 3, -1) else (sum, 0)

def addTrits : List ℤ → List ℤ → ℤ → List ℤ × ℤ
  | a :: as, b :: bs, carry =>
    let column := normalizeSum (a + b + carry)
    let rest := addTrits as bs column.2
    (column.1 :: rest.1, rest.2)
  | _, _, carry => ([], carry)

def word18Add (lhs rhs : Word18) : Except Err Word18 :=
  if !word18IsValid lhs then .error Err.invalidArg
  else if !word18IsValid rhs then .error Err.invalidArg
  else
    let result := addTrits lhs.toList rhs.toList 0
    if result.2 = 0 then .ok (Trits.ofList result.1) else .error Err.invalidState

def word18Subtract (lhs rhs : Word18) : Except Err Word18 :=
  if !word18IsValid lhs then .error Err.invalidArg
  else if !word18IsValid rhs then .error Err.invalidArg
  else word18Add lhs (fun i => -rhs i)

def word18Select (selector : ℤ) (negative zero positive : Word18) : Except Err Word18 :=
  if !tritIsValid selector then .error Err.invalidArg
  else if !word18IsValid negative then .error Err.invalidArg
  else if !word18IsValid zero then .error Err.invalidArg
  else if !word18IsValid positive then .error Err.invalidArg
  else if selector = -1 then .ok negative
  else if selector = 0 then .ok zero
  else .ok positive

/-- One digit of the conversion, with C's truncating division: the trit and what remains. -/
def digit (remaining : ℤ) : ℤ × ℤ :=
  let remainder := remaining.tmod 3
  let quotient := remaining.tdiv 3
  if remainder = 2 then (-1, quotient + 1)
  else if remainder = -2 then (1, quotient - 1)
  else (remainder, quotient)

def digits : ℕ → ℤ → List ℤ × ℤ
  | 0, remaining => ([], remaining)
  | n + 1, remaining =>
    let d := digit remaining
    let rest := digits n d.2
    (d.1 :: rest.1, rest.2)

def word18FromInt32 (value : ℤ) : Except Err Word18 :=
  let result := digits 18 value
  if result.2 = 0 then .ok (Trits.ofList result.1) else .error Err.invalidSize

def tritsValue : List ℤ → ℤ → ℤ
  | [], _ => 0
  | t :: ts, place => t * place + tritsValue ts (place * 3)

def word18ToInt32 (value : Word18) : Except Err ℤ :=
  if !word18IsValid value then .error Err.invalidArg else .ok (tritsValue value.toList 1)

/-- The two bits of a packed trit; the code 3 is no trit. -/
def codeToTrit (code : ℕ) : Except Err ℤ :=
  match code % 4 with
  | 0 => .ok (-1)
  | 1 => .ok 0
  | 2 => .ok 1
  | _ => .error Err.invalidResponse

/-- Two bits a trit never straddle a byte, so each trit is read from one byte. -/
def unpackTrits (input : List UInt8) (start : ℕ) : ℕ → Except Err (List ℤ)
  | 0 => .ok []
  | n + 1 =>
    match input[start * 2 / 8]? with
    | none => .error Err.invalidSize
    | some byte =>
      match codeToTrit (byte.toNat / 2 ^ (start * 2 % 8)) with
      | .error e => .error e
      | .ok t =>
        match unpackTrits input (start + 1) n with
        | .error e => .error e
        | .ok ts => .ok (t :: ts)

def word18Unpack (input : List UInt8) : Except Err Word18 :=
  match unpackTrits input 0 18 with
  | .error e => .error e
  | .ok ts => .ok (Trits.ofList ts)

theorem unpackTrits_error {input : List UInt8} {start n : ℕ} {e : Err}
    (h : unpackTrits input start n = .error e) : e ≠ Err.ok := by
  induction n generalizing start e with
  | zero => cases h
  | succ n ih =>
    unfold unpackTrits at h
    split at h
    · cases h
      decide
    split at h
    next he =>
      cases h
      unfold codeToTrit at he
      split at he <;> cases he
      decide
    split at h
    next he =>
      cases h
      exact ih he
    · cases h

theorem word18Unpack_error {input : List UInt8} {e : Err}
    (h : word18Unpack input = .error e) : e ≠ Err.ok := by
  unfold word18Unpack at h
  split at h
  next he =>
    cases h
    exact unpackTrits_error he
  · cases h

theorem word18ToInt32_valid {w : Word18} (h : word18IsValid w = true) :
    word18ToInt32 w = .ok (tritsValue w.toList 1) := by
  simp [word18ToInt32, h]

theorem word18ToInt32_invalid {w : Word18} (h : word18IsValid w = false) :
    word18ToInt32 w = .error Err.invalidArg := by
  simp [word18ToInt32, h]

end ReflexOS.VmTernary
