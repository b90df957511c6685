import ReflexOS.BalancedTernary
import ReflexOS.VmTernary

set_option autoImplicit false

/-!
# Word arithmetic is exact

The words live in a memory of trit cells, where the result of an operation may overlap either
operand or both. Operands are read to the end before the result is published.
-/
namespace ReflexOS.VmTernary
open BalancedTernary

/-- The integer a word stands for. -/
def wordValue (w : Word18) : ℤ := ∑ i, w i * 3 ^ i.val

def word18Max : ℤ := (3 ^ 18 - 1) / 2

abbrev TritMemory := ℕ → ℤ

def loadWord (m : TritMemory) (p : ℕ) : Word18 := fun i => m (p + i)

def storeWord (m : TritMemory) (p : ℕ) (w : Word18) : TritMemory := fun k =>
  if h : p ≤ k ∧ k < p + 18 then w ⟨k - p, by omega⟩ else m k

/-- The `memcpy` at the end of a conversion or an operation, which only a success reaches. -/
def publish (m : TritMemory) (out : ℕ) : Except Err Word18 → Err × TritMemory
  | .error e => (e, m)
  | .ok result => (Err.ok, storeWord m out result)

/-- A null pointer is `none`. -/
def word18AddAt (m : TritMemory) (lhs rhs out : Option ℕ) : Err × TritMemory :=
  match lhs, rhs, out with
  | some lhs, some rhs, some out => publish m out (word18Add (loadWord m lhs) (loadWord m rhs))
  | _, _, _ => (Err.invalidArg, m)

def word18SubtractAt (m : TritMemory) (lhs rhs out : Option ℕ) : Err × TritMemory :=
  match lhs, rhs, out with
  | some lhs, some rhs, some out =>
    publish m out (word18Subtract (loadWord m lhs) (loadWord m rhs))
  | _, _, _ => (Err.invalidArg, m)

/-- The result is one trit, which may be a trit of an operand. -/
def word18CompareAt (m : TritMemory) (lhs rhs out : Option ℕ) : Err × TritMemory :=
  match lhs, rhs, out with
  | some lhs, some rhs, some out =>
    match word18Compare (loadWord m lhs) (loadWord m rhs) with
    | .error e => (e, m)
    | .ok trit => (Err.ok, Function.update m out trit)
  | _, _, _ => (Err.invalidArg, m)

variable {m : TritMemory} {p : ℕ} {a b w : Word18}

theorem loadWord_storeWord : loadWord (storeWord m p w) p = w := by
  funext i
  simp [loadWord, storeWord]

theorem storeWord_frame {k : ℕ} (h : ¬(p ≤ k ∧ k < p + 18)) : storeWord m p w k = m k :=
  dif_neg h

theorem word18Max_eq : word18Max = top 18 := by decide

theorem abs_le_word18Max {v : ℤ} : |v| ≤ word18Max ↔ -top 18 ≤ v ∧ v ≤ top 18 := by
  rw [word18Max_eq, abs_le]

theorem value_toList : value w.toList = wordValue w := value_ofFn w

theorem toList_length {n : ℕ} (u : Trits n) : u.toList.length = n := List.length_ofFn

theorem word18IsValid_iff : word18IsValid w = true ↔ Digits w.toList := by
  simp [word18IsValid, tritIsValid, Digits, Digit, List.all_eq_true]

theorem toList_ofList {n : ℕ} {l : List ℤ} (h : l.length = n) :
    (Trits.ofList l : Trits n).toList = l := by
  refine List.ext_getElem (by rw [toList_length, h]) fun i h₁ h₂ => ?_
  simp [Trits.toList, Trits.ofList, h₂]

theorem toList_injective {n : ℕ} {u v : Trits n} (h : u.toList = v.toList) : u = v :=
  List.ofFn_injective h

theorem wordValue_mem (h : word18IsValid w = true) : |wordValue w| ≤ word18Max := by
  rw [abs_le_word18Max, ← value_toList]
  simpa [toList_length] using value_mem (word18IsValid_iff.mp h)

/-- A word has one valid form. -/
theorem eq_of_wordValue (ha : word18IsValid a = true) (hb : word18IsValid b = true)
    (h : wordValue a = wordValue b) : a = b := by
  refine toList_injective
    (eq_of_value (word18IsValid_iff.mp ha) (word18IsValid_iff.mp hb) ?_ ?_)
  · rw [toList_length, toList_length]
  · rw [value_toList, value_toList, h]

theorem carries_normalizeSum : Carries normalizeSum where
  digit s hlo hhi := by
    unfold normalizeSum Digit
    split_ifs <;> simp only <;> omega
  carry s hlo hhi := by
    unfold normalizeSum Digit
    split_ifs <;> simp only <;> omega
  sum s hlo hhi := by
    unfold normalizeSum
    split_ifs <;> simp only <;> omega

theorem addTrits_eq (as bs : List ℤ) (carry : ℤ) :
    addTrits as bs carry = ripple normalizeSum as bs carry := by
  induction as generalizing bs carry with
  | nil => cases bs <;> rfl
  | cons a as ih =>
    cases bs with
    | nil => rfl
    | cons b bs => simp only [addTrits, ripple, ih]

/-- What an operation does when its exact result is `v`. -/
inductive Computes (v : ℤ) : Except Err Word18 → Prop
  | fits (w : Word18) (valid : word18IsValid w = true) (value : wordValue w = v) :
      Computes v (.ok w)
  | overflows (e : Err) (failed : e ≠ Err.ok) (range : ¬|v| ≤ word18Max) : Computes v (.error e)

theorem Computes.ok {v : ℤ} {result : Except Err Word18} (h : Computes v result)
    (hrange : |v| ≤ word18Max) :
    ∃ w, result = .ok w ∧ word18IsValid w = true ∧ wordValue w = v := by
  cases h with
  | fits w valid value => exact ⟨w, rfl, valid, value⟩
  | overflows e failed range => exact absurd hrange range

theorem word18Add_computes (ha : word18IsValid a = true) (hb : word18IsValid b = true) :
    Computes (wordValue a + wordValue b) (word18Add a b) := by
  have hda := word18IsValid_iff.mp ha
  have hdb := word18IsValid_iff.mp hb
  have hlen : a.toList.length = b.toList.length := by rw [toList_length, toList_length]
  have hfits := ripple_fits_iff carries_normalizeSum hda hdb hlen
  obtain ⟨hdigits, hlength, hsum⟩ :=
    ripple_spec carries_normalizeSum hda hdb hlen
      (show Digit (0 : ℤ) from ⟨by decide, by decide⟩)
  rw [toList_length] at hlength
  rw [toList_length, value_toList, value_toList, ← abs_le_word18Max] at hfits
  rw [value_toList, value_toList, add_zero] at hsum
  simp only [word18Add, ha, hb, Bool.not_true, Bool.false_eq_true, if_false, addTrits_eq]
  split_ifs with hcarry
  · rw [hcarry, mul_zero, add_zero] at hsum
    refine .fits _ (word18IsValid_iff.mpr ?_) ?_
    · rwa [toList_ofList hlength]
    · rw [← value_toList, toList_ofList hlength, hsum]
  · exact .overflows _ (by decide) fun hrange => hcarry (hfits.mpr hrange)

theorem neg_valid (h : word18IsValid w = true) : word18IsValid (fun i => -w i) = true := by
  simp only [word18IsValid, Trits.toList, List.all_eq_true, List.mem_ofFn, tritIsValid,
    decide_eq_true_eq, forall_exists_index, forall_apply_eq_imp_iff] at h ⊢
  intro i
  have := h i
  omega

theorem wordValue_neg : wordValue (fun i => -w i) = -wordValue w := by
  simp [wordValue, Finset.sum_neg_distrib]

theorem word18Subtract_computes (ha : word18IsValid a = true) (hb : word18IsValid b = true) :
    Computes (wordValue a - wordValue b) (word18Subtract a b) := by
  have hadd := word18Add_computes ha (neg_valid hb)
  rw [wordValue_neg, ← sub_eq_add_neg] at hadd
  simpa [word18Subtract, ha, hb] using hadd

/-- The first difference from the top decides, as it decides the values. -/
theorem compareTrits_eq {as bs : List ℤ} (ha : Digits as) (hb : Digits bs)
    (hlen : as.length = bs.length) :
    compareTrits as bs = Int.sign (value as.reverse - value bs.reverse) := by
  induction as generalizing bs with
  | nil =>
    obtain rfl : bs = [] := List.length_eq_zero_iff.mp hlen.symm
    rfl
  | cons a as ih =>
    cases bs with
    | nil => cases hlen
    | cons b bs =>
      obtain ⟨-, has⟩ := digits_cons.mp ha
      obtain ⟨-, hbs⟩ := digits_cons.mp hb
      have hlen' : as.length = bs.length := Nat.succ.inj hlen
      have hrev : as.reverse.length = bs.reverse.length := by simpa using hlen'
      rw [compareTrits, List.reverse_cons, List.reverse_cons]
      split_ifs with hlt hgt
      · have := value_lead_lt (digits_reverse.mpr has) (digits_reverse.mpr hbs) hrev hlt
        exact (Int.sign_eq_neg_one_of_neg (by omega)).symm
      · have := value_lead_lt (digits_reverse.mpr hbs) (digits_reverse.mpr has) hrev.symm hgt
        exact (Int.sign_eq_one_of_pos (by omega)).symm
      · obtain rfl : a = b := by omega
        rw [ih has hbs hlen', value_append, value_append, hrev, add_sub_add_right_eq_sub]

theorem word18Compare_eq (ha : word18IsValid a = true) (hb : word18IsValid b = true) :
    word18Compare a b = .ok (Int.sign (wordValue a - wordValue b)) := by
  have hda := digits_reverse.mpr (word18IsValid_iff.mp ha)
  have hdb := digits_reverse.mpr (word18IsValid_iff.mp hb)
  have hcompare := compareTrits_eq hda hdb (by simp [toList_length])
  rw [List.reverse_reverse, List.reverse_reverse, value_toList, value_toList] at hcompare
  simp [word18Compare, ha, hb, hcompare]

/-- What an operation on words in memory does when its exact result is `v`. -/
structure WordResult (m : TritMemory) (out : ℕ) (v : ℤ) (r : Err × TritMemory) : Prop where
  ok_iff : r.1 = Err.ok ↔ |v| ≤ word18Max
  value : r.1 = Err.ok → word18IsValid (loadWord r.2 out) = true ∧ wordValue (loadWord r.2 out) = v
  frame : ∀ k, ¬(out ≤ k ∧ k < out + 18) → r.2 k = m k
  unchanged : r.1 ≠ Err.ok → r.2 = m

theorem Computes.publish {v : ℤ} {result : Except Err Word18} (h : Computes v result) (out : ℕ) :
    WordResult m out v (publish m out result) := by
  cases h with
  | fits w valid hvalue =>
    refine ⟨iff_of_true rfl (hvalue ▸ wordValue_mem valid), fun _ => ?_,
      fun k => storeWord_frame, fun h => absurd rfl h⟩
    rw [VmTernary.publish, loadWord_storeWord]
    exact ⟨valid, hvalue⟩
  | overflows e failed range =>
    exact ⟨iff_of_false failed range, fun h => absurd h failed, fun _ _ => rfl, fun _ => rfl⟩

/-- Sums, differences and comparisons are those of the integers, wherever the result goes. -/
theorem word_arithmetic_exact {lhs rhs : ℕ} (hl : word18IsValid (loadWord m lhs) = true)
    (hr : word18IsValid (loadWord m rhs) = true) (out : ℕ) :
    WordResult m out (wordValue (loadWord m lhs) + wordValue (loadWord m rhs))
        (word18AddAt m lhs rhs out) ∧
      WordResult m out (wordValue (loadWord m lhs) - wordValue (loadWord m rhs))
        (word18SubtractAt m lhs rhs out) ∧
      word18CompareAt m lhs rhs out = (Err.ok, Function.update m out
        (Int.sign (wordValue (loadWord m lhs) - wordValue (loadWord m rhs)))) := by
  refine ⟨(word18Add_computes hl hr).publish out, (word18Subtract_computes hl hr).publish out, ?_⟩
  simp only [word18CompareAt, word18Compare_eq hl hr]

/-- A word added to, taken from and compared with itself where it stands. -/
theorem word_arithmetic_exact_aliased :
    WordResult (fun k => if k = 5 then 1 else 0) 5 (1 + 1)
        (word18AddAt (fun k => if k = 5 then 1 else 0) (some 5) (some 5) (some 5)) ∧
      WordResult (fun k => if k = 5 then 1 else 0) 5 (1 - 1)
        (word18SubtractAt (fun k => if k = 5 then 1 else 0) (some 5) (some 5) (some 5)) ∧
      word18CompareAt (fun k => if k = 5 then 1 else 0) (some 5) (some 5) (some 5) =
        (Err.ok, Function.update (fun k => if k = 5 then 1 else 0) 5 (Int.sign (1 - 1))) := by
  have hone : wordValue (loadWord (fun k => if k = 5 then 1 else 0) 5) = 1 := by decide
  have h := @word_arithmetic_exact (fun k => if k = 5 then 1 else 0) 5 5 (by decide) (by decide) 5
  rwa [hone] at h

end ReflexOS.VmTernary
