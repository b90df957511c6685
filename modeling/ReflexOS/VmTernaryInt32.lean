import ReflexOS.VmTernaryWords

set_option autoImplicit false

/-!
# Words and 32-bit integers

The two conversions again with every intermediate value checked against the range of `int32_t`,
where a result `none` would be an overflow.
-/
namespace ReflexOS.VmTernary
open BalancedTernary

def int32 (x : ℤ) : Option ℤ := if -2 ^ 31 ≤ x ∧ x < 2 ^ 31 then some x else none

def checkedDigit (remaining : ℤ) : Option (ℤ × ℤ) := do
  let remainder ← int32 (remaining.tmod 3)
  let quotient ← int32 (remaining.tdiv 3)
  if remainder = 2 then
    let quotient ← int32 (quotient + 1)
    some (-1, quotient)
  else if remainder = -2 then
    let quotient ← int32 (quotient - 1)
    some (1, quotient)
  else some (remainder, quotient)

def fromInt32Loop : ℕ → ℤ → Option (List ℤ × ℤ)
  | 0, remaining => some ([], remaining)
  | n + 1, remaining => do
    let d ← checkedDigit remaining
    let rest ← fromInt32Loop n d.2
    some (d.1 :: rest.1, rest.2)

def word18FromInt32At (m : TritMemory) (value : Int32) (out : Option ℕ) :
    Option (Err × TritMemory) :=
  match out with
  | none => some (Err.invalidArg, m)
  | some out => do
    let result ← fromInt32Loop 18 value.toInt
    some (publish m out (if result.2 = 0 then .ok (Trits.ofList result.1)
      else .error Err.invalidSize))

def toInt32Loop : List ℤ → ℤ → ℤ → Option ℤ
  | [], result, _ => some result
  | t :: ts, result, place => do
    let term ← int32 (t * place)
    let result ← int32 (result + term)
    let place ← int32 (place * 3)
    toInt32Loop ts result place

def word18ToInt32At (m : TritMemory) (value : Option ℕ) : Option (Except Err ℤ) :=
  match value with
  | none => some (.error Err.invalidArg)
  | some value =>
    if !word18IsValid (loadWord m value) then some (.error Err.invalidArg)
    else (toInt32Loop (loadWord m value).toList 0 1).map .ok

variable {m : TritMemory} {v : ℤ} {w : Word18}

theorem int32_some (hlo : -2 ^ 31 ≤ v) (hhi : v < 2 ^ 31) : int32 v = some v :=
  if_pos ⟨hlo, hhi⟩

theorem divides_digit : Divides digit where
  digit v := by
    have hlo := Int.lt_tmod_of_pos v (b := 3) (by decide)
    have hhi := Int.tmod_lt_of_pos v (b := 3) (by decide)
    unfold digit Digit
    simp only
    split_ifs <;> simp only <;> omega
  sum v := by
    have hdiv := Int.tmod_add_mul_tdiv v 3
    unfold digit
    simp only
    split_ifs <;> simp only <;> omega

theorem digits_eq (n : ℕ) (v : ℤ) : digits n v = extract digit n v := by
  induction n generalizing v with
  | zero => rfl
  | succ n ih => simp only [digits, extract, ih]

/-- What remains is smaller than before, so no step leaves the range. -/
theorem digit_rest (hlo : -2 ^ 31 ≤ v) (hhi : v < 2 ^ 31) :
    -2 ^ 31 ≤ (digit v).2 ∧ (digit v).2 < 2 ^ 31 := by
  obtain ⟨hdlo, hdhi⟩ := divides_digit.digit v
  have hsum := divides_digit.sum v
  omega

theorem checkedDigit_eq (hlo : -2 ^ 31 ≤ v) (hhi : v < 2 ^ 31) :
    checkedDigit v = some (digit v) := by
  have hdiv := Int.tmod_add_mul_tdiv v 3
  have hmlo := Int.lt_tmod_of_pos v (b := 3) (by decide)
  have hmhi := Int.tmod_lt_of_pos v (b := 3) (by decide)
  have hup : int32 (v.tdiv 3 + 1) = some (v.tdiv 3 + 1) := int32_some (by omega) (by omega)
  have hdown : int32 (v.tdiv 3 - 1) = some (v.tdiv 3 - 1) := int32_some (by omega) (by omega)
  unfold checkedDigit digit
  rw [int32_some (by omega) (by omega), int32_some (by omega) (by omega)]
  simp only [Option.bind_eq_bind, Option.bind_some, hup, hdown]
  split_ifs <;> rfl

theorem fromInt32Loop_eq (n : ℕ) (hlo : -2 ^ 31 ≤ v) (hhi : v < 2 ^ 31) :
    fromInt32Loop n v = some (digits n v) := by
  induction n generalizing v with
  | zero => rfl
  | succ n ih =>
    obtain ⟨hrlo, hrhi⟩ := digit_rest hlo hhi
    simp only [fromInt32Loop, checkedDigit_eq hlo hhi, Option.bind_eq_bind, Option.bind_some,
      ih hrlo hrhi, digits]

theorem word18FromInt32At_eq (value : Int32) (out : ℕ) :
    word18FromInt32At m value out = some (publish m out (word18FromInt32 value.toInt)) := by
  have hloop := fromInt32Loop_eq 18 (Int32.le_toInt value) (Int32.toInt_lt value)
  simp only [word18FromInt32At, hloop, Option.bind_eq_bind, Option.bind_some, word18FromInt32]

theorem top_le_of_le {k n : ℕ} (h : k ≤ n) : top k ≤ top n := by
  induction n, h using Nat.le_induction with
  | base => exact le_refl _
  | succ n _ ih =>
    have := @top_nonneg n
    rw [top]
    omega

/-- After `k` trits the sum lies among the numbers of `k` digits. -/
theorem toInt32Loop_eq {ts : List ℤ} (hts : Digits ts) {k : ℕ} (hk : k + ts.length ≤ 18)
    (hlo : -top k ≤ v) (hhi : v ≤ top k) :
    toInt32Loop ts v (3 ^ k) = some (v + 3 ^ k * value ts) := by
  induction ts generalizing v k with
  | nil => simp [toInt32Loop, value]
  | cons t ts ih =>
    obtain ⟨⟨htlo, hthi⟩, hts'⟩ := digits_cons.mp hts
    rw [List.length_cons] at hk
    have hmax : top (k + 1) ≤ top 18 := top_le_of_le (by omega)
    have hbound : top 18 = 193710244 := by decide
    have hplace := @two_mul_top k
    have hplace' := @two_mul_top (k + 1)
    have hpos := @top_nonneg k
    rw [pow_succ] at hplace'
    have hterm : -3 ^ k ≤ t * 3 ^ k ∧ t * 3 ^ k ≤ 3 ^ k := by
      obtain rfl | rfl | rfl : t = -1 ∨ t = 0 ∨ t = 1 := by omega
      all_goals omega
    have htop : top (k + 1) = 3 * top k + 1 := rfl
    have hrest := @ih (v + t * 3 ^ k) hts' (k + 1) (by omega) (by omega) (by omega)
    rw [pow_succ] at hrest
    rw [toInt32Loop, int32_some (by omega) (by omega), int32_some (by omega) (by omega)]
    simp only [Option.bind_eq_bind, Option.bind_some]
    rw [int32_some (by omega) (by omega), Option.bind_some, hrest, value]
    congr 1
    ring

theorem tritsValue_eq (ts : List ℤ) (place : ℤ) : tritsValue ts place = place * value ts := by
  induction ts generalizing place with
  | nil => exact (mul_zero place).symm
  | cons t ts ih =>
    rw [tritsValue, ih, value]
    ring

theorem word18ToInt32_value (h : word18IsValid w = true) : word18ToInt32 w = .ok (wordValue w) := by
  rw [word18ToInt32_valid h, tritsValue_eq, one_mul, value_toList]

theorem word18ToInt32At_eq (p : ℕ) :
    word18ToInt32At m p = some (word18ToInt32 (loadWord m p)) := by
  cases hvalid : word18IsValid (loadWord m p) with
  | false => simp [word18ToInt32At, hvalid, word18ToInt32_invalid]
  | true =>
    have hloop := toInt32Loop_eq (v := 0) (word18IsValid_iff.mp hvalid) (k := 0)
      (by rw [toList_length]) (le_refl 0) (le_refl 0)
    rw [pow_zero, zero_add, one_mul, value_toList] at hloop
    rw [word18ToInt32_value hvalid]
    simp only [word18ToInt32At, hvalid, Bool.not_true, Bool.false_eq_true, if_false, hloop,
      Option.map_some]

theorem word18FromInt32_computes (v : ℤ) : Computes v (word18FromInt32 v) := by
  obtain ⟨hdigits, hlength, hsum⟩ := extract_spec divides_digit (n := 18) v
  have hfits := extract_fits_iff divides_digit (n := 18) v
  rw [← abs_le_word18Max] at hfits
  simp only [word18FromInt32, digits_eq]
  split_ifs with hrest
  · rw [hrest, mul_zero, add_zero] at hsum
    refine .fits _ (word18IsValid_iff.mpr ?_) ?_
    · rwa [toList_ofList hlength]
    · rw [← value_toList, toList_ofList hlength, hsum]
  · exact .overflows _ (by decide) fun hrange => hrest (hfits.mpr hrange)

theorem word18FromInt32_value (h : word18IsValid w = true) :
    word18FromInt32 (wordValue w) = .ok w := by
  obtain ⟨u, hu, hvalid, hvalue⟩ := (word18FromInt32_computes (wordValue w)).ok (wordValue_mem h)
  rw [hu, eq_of_wordValue hvalid h hvalue]

/-- The conversions succeed on the range a word has, and undo one another. -/
theorem int32_conversion_exact (m : TritMemory) :
    (∀ (value : Int32) (out : ℕ), ∃ r, word18FromInt32At m value out = some r ∧
      WordResult m out value.toInt r ∧
      (r.1 = Err.ok → word18ToInt32At r.2 out = some (.ok value.toInt))) ∧
    ∀ p, word18IsValid (loadWord m p) = true → ∃ value : Int32, |value.toInt| ≤ word18Max ∧
      word18ToInt32At m p = some (.ok value.toInt) ∧
      ∀ out : ℕ, ∃ m', word18FromInt32At m value out = some (Err.ok, m') ∧
        loadWord m' out = loadWord m p := by
  constructor
  · intro value out
    have hresult := (word18FromInt32_computes value.toInt).publish (m := m) out
    refine ⟨_, word18FromInt32At_eq value out, hresult, fun hok => ?_⟩
    obtain ⟨hvalid, hvalue⟩ := hresult.value hok
    rw [word18ToInt32At_eq, word18ToInt32_value hvalid, hvalue]
  · intro p hvalid
    have hrange := wordValue_mem hvalid
    have hmem := abs_le.mp hrange
    have hbound : word18Max = 193710244 := by decide
    have hint : (Int32.ofInt (wordValue (loadWord m p))).toInt = wordValue (loadWord m p) :=
      Int32.toInt_ofInt_of_le (by omega) (by omega)
    refine ⟨.ofInt (wordValue (loadWord m p)), ?_, ?_, fun out => ?_⟩
    · rwa [hint]
    · rw [word18ToInt32At_eq, word18ToInt32_value hvalid, hint]
    · refine ⟨storeWord m out (loadWord m p), ?_, loadWord_storeWord⟩
      rw [word18FromInt32At_eq, hint, word18FromInt32_value hvalid]
      rfl

end ReflexOS.VmTernary
