import Mathlib.Data.List.Basic
import Mathlib.Data.Nat.Basic
import Mathlib.Logic.Function.Basic
import Mathlib.Tactic.Common

set_option autoImplicit false

/-!
# Cutting a string in memory into tokens

A terminated string is cut in place, as `strtok` does it; the tokens are those of the list of
its characters.
-/
namespace StringTokens

variable {α : Type*} [DecidableEq α] (z d : α)

/-- The characters from `p` to the terminator, looking at `n` of them at most. -/
def stringAt (m : ℕ → α) : ℕ → ℕ → List α
  | 0, _ => []
  | n + 1, p => if m p = z then [] else m p :: stringAt m n (p + 1)

/-- The first place from `p` on that is not a delimiter. -/
def skipDelimiters (m : ℕ → α) : ℕ → ℕ → ℕ
  | 0, p => p
  | n + 1, p => if m p = d then skipDelimiters m n (p + 1) else p

/-- The first delimiter or terminator from `p` on. -/
def tokenEnd (m : ℕ → α) : ℕ → ℕ → ℕ
  | 0, p => p
  | n + 1, p => if m p = z ∨ m p = d then p else tokenEnd m n (p + 1)

/-- The next token from `p` on, the memory with its end marked, and where to go on. -/
def strtok (n : ℕ) (m : ℕ → α) (p : ℕ) : Option ℕ × (ℕ → α) × ℕ :=
  let t := skipDelimiters d m n p
  if m t = z then (none, m, t)
  else
    let e := tokenEnd z d m n t
    if m e = z then (some t, m, e) else (some t, Function.update m e z, e + 1)

/-- At most `k` tokens, the first being at hand; after each one the next is looked for. -/
def collect (n : ℕ) : ℕ → Option ℕ × (ℕ → α) × ℕ → List ℕ × (ℕ → α)
  | 0, (_, m, _) => ([], m)
  | _ + 1, (none, m, _) => ([], m)
  | k + 1, (some t, m, p) =>
    let rest := collect n k (strtok z d n m p)
    (t :: rest.1, rest.2)

/-- The tokens of a list of characters. -/
def tokens (s : List α) : List (List α) := (s.splitOn d).filter fun t => decide (t ≠ [])

/-- Memory holds the terminated string `s` at `p`. -/
def Holds (m : ℕ → α) : ℕ → List α → Prop
  | p, [] => m p = z
  | p, b :: s => m p = b ∧ b ≠ z ∧ Holds m (p + 1) s

section Tokens
variable {d}

@[simp] lemma tokens_nil : tokens d [] = [] := by
  simp [tokens]

@[simp] lemma tokens_delimiter (s : List α) : tokens d (d :: s) = tokens d s := by
  have split : List.splitOn d ([] ++ d :: s) = [] :: s.splitOn d :=
    List.splitOn_append_cons_self_of_not_mem List.not_mem_nil s
  rw [List.nil_append] at split
  simp [tokens, split]

lemma tokens_last {t : List α} (nonempty : t ≠ []) (free : d ∉ t) : tokens d t = [t] := by
  simp [tokens, List.splitOn_eq_singleton free, nonempty]

lemma tokens_cons {t : List α} (nonempty : t ≠ []) (free : d ∉ t) (s : List α) :
    tokens d (t ++ d :: s) = t :: tokens d s := by
  simp [tokens, List.splitOn_append_cons_self_of_not_mem free, nonempty]

end Tokens

section Holds
variable {z d} {m m' : ℕ → α}

omit [DecidableEq α] in
lemma Holds.congr {p : ℕ} {s : List α} (h : Holds z m p s)
    (same : ∀ b, p ≤ b → b ≤ p + s.length → m' b = m b) : Holds z m' p s := by
  induction s generalizing p with
  | nil => exact (same p le_rfl le_rfl).trans h
  | cons b s ih =>
    refine ⟨(same p le_rfl (Nat.le_add_right ..)).trans h.1, h.2.1, ih h.2.2 fun c low high => ?_⟩
    exact same c (by omega) (by simp only [List.length_cons]; omega)

lemma Holds.stringAt {p : ℕ} {s : List α} (h : Holds z m p s) {n : ℕ} (le : s.length < n) :
    stringAt z m n p = s := by
  induction s generalizing p n with
  | nil =>
    obtain ⟨n, rfl⟩ : ∃ k, n = k + 1 := ⟨n - 1, by omega⟩
    exact if_pos h
  | cons b s ih =>
    obtain ⟨n, rfl⟩ : ∃ k, n = k + 1 := ⟨n - 1, by omega⟩
    have rest := ih h.2.2 (n := n) (by simp only [List.length_cons] at le; omega)
    rw [StringTokens.stringAt, if_neg (h.1.trans_ne h.2.1), h.1, rest]

lemma Holds.skip {p : ℕ} {s : List α} (h : Holds z m p s) (ne : d ≠ z) {n : ℕ}
    (le : s.length ≤ n) : ∃ k s', skipDelimiters d m n p = p + k ∧ Holds z m (p + k) s' ∧
      tokens d s' = tokens d s ∧ s'.length ≤ s.length ∧ ∀ b s'', s' = b :: s'' → b ≠ d := by
  induction s generalizing p n with
  | nil =>
    refine ⟨0, [], ?_, h, rfl, le_rfl, by simp⟩
    cases n with
    | zero => rfl
    | succ n => exact if_neg (h.trans_ne ne.symm)
  | cons b s ih =>
    obtain ⟨n, rfl⟩ : ∃ k, n = k + 1 := ⟨n - 1, by simp only [List.length_cons] at le; omega⟩
    by_cases delimiter : b = d
    · obtain ⟨k, s', at', holds, same, short, first⟩ :=
        ih h.2.2 (n := n) (by simp only [List.length_cons] at le; omega)
      refine ⟨k + 1, s', ?_, ?_, ?_, ?_, first⟩
      · rw [skipDelimiters, if_pos (h.1.trans delimiter), at']
        omega
      · rwa [show p + (k + 1) = p + 1 + k by omega]
      · rw [same, delimiter, tokens_delimiter]
      · simp only [List.length_cons]
        omega
    · refine ⟨0, b :: s, if_neg (h.1.trans_ne delimiter), h, rfl, le_rfl, ?_⟩
      intro c s' eq
      rw [← (List.cons.inj eq).1]
      exact delimiter

lemma Holds.tokenEnd {p : ℕ} {s : List α} (h : Holds z m p s) {n : ℕ} (le : s.length ≤ n) :
    ∃ t s', s = t ++ s' ∧ tokenEnd z d m n p = p + t.length ∧ d ∉ t ∧
      Holds z m (p + t.length) s' ∧ (s' = [] ∨ ∃ s'', s' = d :: s'') := by
  induction s generalizing p n with
  | nil =>
    refine ⟨[], [], rfl, ?_, List.not_mem_nil, h, .inl rfl⟩
    cases n with
    | zero => rfl
    | succ n => exact if_pos (.inl h)
  | cons b s ih =>
    obtain ⟨n, rfl⟩ : ∃ k, n = k + 1 := ⟨n - 1, by simp only [List.length_cons] at le; omega⟩
    by_cases delimiter : b = d
    · exact ⟨[], b :: s, rfl, if_pos (.inr (h.1.trans delimiter)), List.not_mem_nil, h,
        .inr ⟨s, by rw [delimiter]⟩⟩
    · obtain ⟨t, s', eq, at', free, holds, stop⟩ :=
        ih h.2.2 (n := n) (by simp only [List.length_cons] at le; omega)
      refine ⟨b :: t, s', by rw [eq]; rfl, ?_, ?_, ?_, stop⟩
      · have go : ¬(m p = z ∨ m p = d) := by
          rw [h.1]
          exact fun stop => stop.elim h.2.1 delimiter
        rw [StringTokens.tokenEnd, if_neg go, at', List.length_cons]
        omega
      · exact fun mem => (List.mem_cons.1 mem).elim (fun eq => delimiter eq.symm) free
      · rwa [List.length_cons, show p + (t.length + 1) = p + 1 + t.length by omega]

end Holds

/-- A token is at hand, with the rest of the string where the search goes on; or none is. -/
def AtHand (n : ℕ) (r : Option ℕ × (ℕ → α) × ℕ) : List (List α) → Prop
  | [] => r.1 = none
  | t :: ts => ∃ q s, r.1 = some q ∧ Holds z r.2.1 q t ∧ q + t.length ≤ r.2.2 ∧
      t.length < n ∧ Holds z r.2.1 r.2.2 s ∧ s.length < n ∧ tokens d s = ts

section Strtok
variable {z d} (ne : d ≠ z) {m : ℕ → α} {n : ℕ}
include ne

/-- One search finds the first token, and writes beyond where it started only. -/
theorem strtok_atHand {p : ℕ} {s : List α} (h : Holds z m p s) (lt : s.length < n) :
    AtHand z d n (strtok z d n m p) (tokens d s) ∧
      ∀ b ≤ p, (strtok z d n m p).2.1 b = m b := by
  obtain ⟨k, s', skipped, holds, same, short, first⟩ := h.skip ne (Nat.le_of_lt lt)
  rw [← same]
  cases s' with
  | nil =>
    have stop : strtok z d n m p = (none, m, p + k) := by
      simp only [strtok, skipped]
      exact if_pos holds
    rw [stop]
    exact ⟨rfl, fun b _ => rfl⟩
  | cons b s'' =>
    have start : m (p + k) ≠ z := holds.1.trans_ne holds.2.1
    obtain ⟨t, rest, eq, ended, free, restHolds, stop⟩ :=
      holds.tokenEnd (d := d) (Nat.le_trans short (Nat.le_of_lt lt))
    have nonempty : t ≠ [] := by
      rintro rfl
      rcases stop with rfl | ⟨s3, rfl⟩
      · exact absurd eq (by simp)
      · exact first b s'' rfl (List.cons.inj eq).1
    have size : t.length + rest.length = (b :: s'').length := by rw [eq, List.length_append]
    have tokenHolds : ∀ m' : ℕ → α, m' (p + k + t.length) = z →
        (∀ c < p + k + t.length, m' c = m c) → Holds z m' (p + k) t := by
      intro m' last before
      rw [eq] at holds
      clear eq ended free restHolds stop nonempty size skipped start
      generalize p + k = a at holds last before
      induction t generalizing a with
      | nil => exact last
      | cons c t ih =>
        refine ⟨(before a (by simp)).trans holds.1, holds.2.1, ih (a + 1) holds.2.2 ?_ ?_⟩
        · rwa [List.length_cons, ← Nat.add_assoc, Nat.add_right_comm] at last
        · intro b' lt'
          exact before b' (by simp only [List.length_cons]; omega)
    have long : 0 < t.length := List.length_pos_iff.2 nonempty
    rcases stop with rfl | ⟨s3, rfl⟩
    · have found : strtok z d n m p = (some (p + k), m, p + k + t.length) := by
        simp only [strtok, skipped, if_neg start, ended]
        exact if_pos restHolds
      rw [found, eq, List.append_nil, tokens_last nonempty free]
      refine ⟨⟨p + k, [], rfl, tokenHolds m restHolds fun _ _ => rfl, le_rfl, by omega, restHolds,
        by simp only [List.length_nil]; omega, tokens_nil⟩, fun b _ => rfl⟩
    · have found : strtok z d n m p =
          (some (p + k), Function.update m (p + k + t.length) z, p + k + t.length + 1) := by
        simp only [strtok, skipped, if_neg start, ended]
        exact if_neg (restHolds.1.trans_ne ne)
      rw [found, eq, tokens_cons nonempty free]
      refine ⟨⟨p + k, s3, rfl, tokenHolds _ (Function.update_self ..) fun c lt' =>
        Function.update_of_ne (by omega) .., by simp, by omega, ?_, ?_, rfl⟩, fun b le =>
        Function.update_of_ne (by omega) ..⟩
      · exact restHolds.2.2.congr fun b low _ => Function.update_of_ne (by omega) ..
      · simp only [List.length_cons] at size short
        omega

/-- The searches together find the tokens, each still in place at the end. -/
theorem collect_atHand (k : ℕ) {r : Option ℕ × (ℕ → α) × ℕ} {ts : List (List α)}
    (h : AtHand z d n r ts) :
    (collect z d n k r).1.map (stringAt z (collect z d n k r).2 n) = ts.take k ∧
      ∀ b ≤ r.2.2, (collect z d n k r).2 b = r.2.1 b := by
  induction k generalizing r ts with
  | zero => exact ⟨by simp [collect], fun b _ => rfl⟩
  | succ k ih =>
    obtain ⟨found, m, p⟩ := r
    cases ts with
    | nil =>
      have none : found = none := h
      subst none
      exact ⟨by simp [collect], fun b _ => rfl⟩
    | cons t ts =>
      obtain ⟨q, s, rfl, holds, before, short, restHolds, restShort, restTokens⟩ := h
      obtain ⟨next, kept⟩ := strtok_atHand ne restHolds restShort
      rw [restTokens] at next
      obtain ⟨strings, same⟩ := ih next
      have start : p ≤ (strtok z d n m p).2.2 := by
        obtain ⟨j, s', skipped, -⟩ := restHolds.skip ne (Nat.le_of_lt restShort)
        have ended : ∀ n a, a ≤ tokenEnd z d m n a := by
          intro n
          induction n with
          | zero => exact fun a => le_rfl
          | succ n ih =>
            intro a
            rw [tokenEnd]
            split_ifs
            exacts [le_rfl, Nat.le_trans (Nat.le_succ a) (ih (a + 1))]
        have := ended n (p + j)
        simp only [strtok, skipped]
        split_ifs <;> dsimp only <;> omega
      have whole : ∀ b ≤ p, (collect z d n (k + 1) (some q, m, p)).2 b = m b := fun b le =>
        (same b (Nat.le_trans le start)).trans (kept b le)
      refine ⟨?_, whole⟩
      have here : stringAt z (collect z d n (k + 1) (some q, m, p)).2 n q = t :=
        (holds.congr fun b _ high => whole b (Nat.le_trans high before)).stringAt short
      rw [collect] at here ⊢
      rw [List.map_cons, here, List.take_succ_cons]
      exact congrArg _ strings

/-- A string is cut into its tokens, up to the number asked for. -/
theorem collect_tokens (k : ℕ) {p : ℕ} {s : List α} (h : Holds z m p s) (lt : s.length < n) :
    (collect z d n k (strtok z d n m p)).1.map
      (stringAt z (collect z d n k (strtok z d n m p)).2 n) = (tokens d s).take k :=
  (collect_atHand ne k (strtok_atHand ne h lt).1).1

end Strtok

end StringTokens
