import Mathlib.Tactic.Common
import Mathlib.Tactic.Ring

set_option autoImplicit false

/-!
# Streams cut into blocks

The full blocks of a stream and what is left behind them. A reader that is given the stream piece
by piece and works on a block as soon as it is full needs to keep the rest only.
-/
namespace BlockStream

variable {α β : Type*} {n : ℕ} {l m : List α}

def chunks (n : ℕ) (l : List α) : List (List α) :=
  (List.range (l.length / n)).map fun i => (l.drop (n * i)).take n

def rest (n : ℕ) (l : List α) : List α := l.drop (n * (l.length / n))

@[simp] theorem chunks_nil : chunks n ([] : List α) = [] := by simp [chunks]

@[simp] theorem rest_nil : rest n ([] : List α) = [] := by simp [rest]

theorem length_rest : (rest n l).length = l.length % n := by
  rw [rest, List.length_drop, Nat.mod_def]

theorem chunks_short (h : l.length < n) : chunks n l = [] := by
  rw [chunks, Nat.div_eq_of_lt h]
  rfl

theorem rest_short (h : l.length < n) : rest n l = l := by
  rw [rest, Nat.div_eq_of_lt h, Nat.mul_zero, List.drop_zero]

theorem div_block (hn : 0 < n) (h : l.length = n) : (l ++ m).length / n = m.length / n + 1 := by
  rw [List.length_append, h, Nat.add_comm, Nat.add_div_right _ hn]

theorem chunks_block (hn : 0 < n) (h : l.length = n) : chunks n (l ++ m) = l :: chunks n m := by
  rw [chunks, div_block hn h, List.range_succ_eq_map, List.map_cons, List.map_map]
  congr 1
  · rw [Nat.mul_zero, List.drop_zero, List.take_left' h]
  · refine List.map_congr_left fun i _ => ?_
    have hi : n * (i + 1) = l.length + n * i := by rw [h, Nat.mul_add_one, Nat.add_comm]
    simp only [Function.comp_apply, Nat.succ_eq_add_one, hi, List.drop_length_add_append]

theorem rest_block (hn : 0 < n) (h : l.length = n) : rest n (l ++ m) = rest n m := by
  have hi : n * (m.length / n + 1) = l.length + n * (m.length / n) := by
    rw [h, Nat.mul_add_one, Nat.add_comm]
  rw [rest, div_block hn h, hi, List.drop_length_add_append, rest]

/-- Where the stream goes on, only the rest counts. -/
theorem append_spec (hn : 0 < n) (l m : List α) :
    chunks n (l ++ m) = chunks n l ++ chunks n (rest n l ++ m) ∧
      rest n (l ++ m) = rest n (rest n l ++ m) := by
  induction hk : l.length / n generalizing l with
  | zero =>
    have hl : l.length < n := (Nat.div_eq_zero_iff_lt hn).mp hk
    rw [chunks_short hl, rest_short hl]
    exact ⟨rfl, rfl⟩
  | succ k ih =>
    have hl : n ≤ l.length := by
      by_contra hlt
      rw [Nat.div_eq_of_lt (by omega)] at hk
      cases hk
    have hblock : (l.take n).length = n := List.length_take_of_le hl
    have hdiv : (l.drop n).length / n = k := by
      rw [Nat.div_eq_sub_div hn hl, Nat.add_one_inj] at hk
      rw [List.length_drop, hk]
    obtain ⟨hchunks, hrest⟩ := ih (l.drop n) hdiv
    rw [← List.take_append_drop n l, List.append_assoc, chunks_block hn hblock,
      chunks_block hn hblock, rest_block hn hblock, rest_block hn hblock, hchunks, hrest]
    exact ⟨rfl, rfl⟩

theorem push_full {x : α} (hn : 0 < n) (h : (rest n l).length + 1 = n) :
    chunks n (l ++ [x]) = chunks n l ++ [rest n l ++ [x]] ∧ rest n (l ++ [x]) = [] := by
  obtain ⟨hchunks, hrest⟩ := append_spec hn l [x]
  have hlen : (rest n l ++ [x]).length = n := List.length_append.trans h
  have hcut := @chunks_block _ n _ [] hn hlen
  have hleft := @rest_block _ n _ [] hn hlen
  rw [List.append_nil] at hcut hleft
  rw [hchunks, hrest, hcut, hleft, chunks_nil]
  exact ⟨rfl, rest_nil⟩

theorem push_room {x : α} (hn : 0 < n) (h : (rest n l).length + 1 ≠ n) :
    chunks n (l ++ [x]) = chunks n l ∧ rest n (l ++ [x]) = rest n l ++ [x] := by
  obtain ⟨hchunks, hrest⟩ := append_spec hn l [x]
  have hlt : (rest n l ++ [x]).length < n := by
    have hmod := Nat.mod_lt l.length hn
    rw [length_rest] at h
    rw [List.length_append, length_rest, List.length_singleton]
    omega
  rw [hchunks, hrest, chunks_short hlt, rest_short hlt, List.append_nil]
  exact ⟨rfl, rfl⟩

section Spelled
variable {f : α → List β} {w : ℕ}

theorem length_flatMap_const (hf : ∀ x, (f x).length = w) (l : List α) :
    (l.flatMap f).length = w * l.length := by
  induction l with
  | nil => rfl
  | cons x l ih => rw [List.flatMap_cons, List.length_append, hf, ih, List.length_cons]; ring

theorem drop_flatMap (hf : ∀ x, (f x).length = w) (k : ℕ) (l : List α) :
    (l.flatMap f).drop (w * k) = (l.drop k).flatMap f := by
  induction k generalizing l with
  | zero => rfl
  | succ k ih =>
    cases l with
    | nil => simp
    | cons x l =>
      have hk : w * (k + 1) = (f x).length + w * k := by rw [hf]; ring
      rw [List.flatMap_cons, hk, List.drop_length_add_append, ih, List.drop_succ_cons]

theorem take_flatMap (hf : ∀ x, (f x).length = w) (k : ℕ) (l : List α) :
    (l.flatMap f).take (w * k) = (l.take k).flatMap f := by
  induction k generalizing l with
  | zero => simp
  | succ k ih =>
    cases l with
    | nil => simp
    | cons x l =>
      have hk : w * (k + 1) = (f x).length + w * k := by rw [hf]; ring
      rw [List.flatMap_cons, hk, List.take_length_add_append, ih, List.take_succ_cons,
        List.flatMap_cons]

/-- Blocks of a stream whose elements are spelled out by `w` others each. -/
theorem chunks_flatMap (hw : 0 < w) (hf : ∀ x, (f x).length = w) (n : ℕ) (l : List α) :
    chunks (w * n) (l.flatMap f) = (chunks n l).map (List.flatMap f) := by
  rw [chunks, chunks, length_flatMap_const hf, Nat.mul_div_mul_left _ _ hw, List.map_map]
  refine List.map_congr_left fun i _ => ?_
  rw [Nat.mul_assoc, drop_flatMap hf, take_flatMap hf]
  rfl

end Spelled

end BlockStream
