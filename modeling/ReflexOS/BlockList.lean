import Mathlib.Data.List.Chain
import Mathlib.Tactic.Common

set_option autoImplicit false

/-!
# Blocks that tile a region

A region cut into blocks, each behind a header of `h` bytes, in use or free. Where the headers
and the payloads lie follows from the sizes; `Calm` is that no two free blocks are neighbours.
-/
namespace BlockList

structure Block where
  size : ℕ
  used : Bool
deriving DecidableEq

/-- The bytes the blocks occupy with their headers. -/
def spans (h : ℕ) : List Block → ℕ
  | [] => 0
  | b :: bs => h + b.size + spans h bs

/-- The addresses of the headers. -/
def headers (h : ℕ) : ℕ → List Block → List ℕ
  | _, [] => []
  | a, b :: bs => a :: headers h (a + (h + b.size)) bs

/-- The payloads in use, with their sizes. -/
def held (h : ℕ) : ℕ → List Block → List (ℕ × ℕ)
  | _, [] => []
  | a, b :: bs =>
    if b.used then (a + h, b.size) :: held h (a + (h + b.size)) bs
    else held h (a + (h + b.size)) bs

def freeBytes : List Block → ℕ
  | [] => 0
  | b :: bs => (if b.used then 0 else b.size) + freeBytes bs

def Calm (bs : List Block) : Prop := bs.IsChain fun b c => b.used = true ∨ c.used = true

/-- No header covers the address. -/
def OffHeaders (h a : ℕ) (bs : List Block) (x : ℕ) : Prop := ∀ k ∈ headers h a bs, x < k ∨ k + h ≤ x

variable {h a p n x k : ℕ} {b c : Block} {bs xs ys : List Block}

section Append

@[simp] theorem spans_nil : spans h [] = 0 := rfl

@[simp] theorem spans_cons : spans h (b :: bs) = h + b.size + spans h bs := rfl

@[simp] theorem spans_append : spans h (xs ++ ys) = spans h xs + spans h ys := by
  induction xs with
  | nil => simp
  | cons b xs ih => simp [ih, Nat.add_assoc]

@[simp] theorem freeBytes_cons :
    freeBytes (b :: bs) = (if b.used then 0 else b.size) + freeBytes bs := rfl

@[simp] theorem freeBytes_append : freeBytes (xs ++ ys) = freeBytes xs + freeBytes ys := by
  induction xs with
  | nil => simp [freeBytes]
  | cons b xs ih => simp [ih, Nat.add_assoc]

theorem headers_append :
    headers h a (xs ++ ys) = headers h a xs ++ headers h (a + spans h xs) ys := by
  induction xs generalizing a with
  | nil => rfl
  | cons b xs ih =>
    rw [List.cons_append, headers, ih, spans_cons, headers, List.cons_append, Nat.add_assoc]

theorem held_append : held h a (xs ++ ys) = held h a xs ++ held h (a + spans h xs) ys := by
  induction xs generalizing a with
  | nil => rfl
  | cons b xs ih =>
    rw [List.cons_append, held, ih, spans_cons, held, Nat.add_assoc a]
    split <;> simp

theorem held_used (hb : b.used = true) :
    held h a (b :: bs) = (a + h, b.size) :: held h (a + (h + b.size)) bs := if_pos hb

theorem held_free (hb : b.used = false) : held h a (b :: bs) = held h (a + (h + b.size)) bs :=
  if_neg (by simp [hb])

theorem freeBytes_le_spans : freeBytes bs ≤ spans h bs := by
  induction bs with
  | nil => exact le_refl 0
  | cons b bs ih =>
    rw [freeBytes_cons, spans_cons]
    split <;> omega

end Append

section Where

/-- Blocks cut up further have the old headers among theirs. -/
theorem OffHeaders.of_cut {cs : List Block} (hspan : spans h (c :: cs) = h + b.size)
    (hx : OffHeaders h a (xs ++ c :: (cs ++ ys)) x) : OffHeaders h a (xs ++ b :: ys) x := by
  intro k hk
  refine hx k ?_
  rw [headers_append, List.mem_append] at hk ⊢
  rcases hk with hk | hk
  · exact .inl hk
  · refine .inr ?_
    rw [← List.cons_append, headers_append, List.mem_append, hspan]
    rcases List.mem_cons.mp hk with rfl | hk
    · exact .inl List.mem_cons_self
    · exact .inr hk

theorem header_bounds (hk : k ∈ headers h a bs) : a ≤ k ∧ k + h ≤ a + spans h bs := by
  induction bs generalizing a with
  | nil => cases hk
  | cons b bs ih =>
    rw [spans_cons]
    rcases List.mem_cons.mp hk with rfl | hk
    · omega
    · have := ih hk
      omega

theorem OffHeaders.of_outside (hx : x < a ∨ a + spans h bs ≤ x) : OffHeaders h a bs x := by
  intro k hk
  have := header_bounds hk
  omega

theorem held_bounds (hp : (p, n) ∈ held h a bs) : a + h ≤ p ∧ p + n ≤ a + spans h bs := by
  induction bs generalizing a with
  | nil => cases hp
  | cons b bs ih =>
    rw [spans_cons]
    rw [held] at hp
    split at hp
    · rcases List.mem_cons.mp hp with hp | hp
      · cases hp
        omega
      · have := ih hp
        omega
    · have := ih hp
      omega

theorem exists_of_held (hp : (p, n) ∈ held h a bs) :
    ∃ xs b ys, bs = xs ++ b :: ys ∧ b.used = true ∧ p = a + spans h xs + h ∧ n = b.size := by
  induction bs generalizing a with
  | nil => cases hp
  | cons b bs ih =>
    have hrest : (p, n) ∈ held h (a + (h + b.size)) bs →
        ∃ xs c ys, b :: bs = xs ++ c :: ys ∧ c.used = true ∧ p = a + spans h xs + h ∧
          n = c.size := by
      intro hp
      obtain ⟨xs, c, ys, rfl, hc, rfl, rfl⟩ := ih hp
      exact ⟨b :: xs, c, ys, rfl, hc, by simp only [spans_cons]; omega, rfl⟩
    rw [held] at hp
    split at hp
    next hb =>
      rcases List.mem_cons.mp hp with hp | hp
      · cases hp
        exact ⟨[], b, bs, rfl, hb, rfl, rfl⟩
      · exact hrest hp
    · exact hrest hp

theorem held_of_mem (hb : b.used = true) :
    (a + spans h xs + h, b.size) ∈ held h a (xs ++ b :: ys) := by
  rw [held_append, held_used hb]
  simp

theorem held_apart {q m : ℕ} (hh : 0 < h) (hp : (p, n) ∈ held h a bs) (hq : (q, m) ∈ held h a bs) :
    (p = q ∧ n = m) ∨ p + n < q ∨ q + m < p := by
  induction bs generalizing a with
  | nil => cases hp
  | cons b bs ih =>
    rw [held] at hp hq
    split at hp
    next hb =>
      rw [if_pos hb] at hq
      rcases List.mem_cons.mp hp with hp | hp <;> rcases List.mem_cons.mp hq with hq | hq
      · cases hp
        cases hq
        exact .inl ⟨rfl, rfl⟩
      · cases hp
        have := held_bounds hq
        omega
      · cases hq
        have := held_bounds hp
        omega
      · exact ih hp hq
    next hb =>
      rw [if_neg hb] at hq
      exact ih hp hq

theorem held_off (hp : (p, n) ∈ held h a bs) (hlo : p ≤ x) (hhi : x < p + n) :
    OffHeaders h a bs x := by
  induction bs generalizing a with
  | nil => cases hp
  | cons b bs ih =>
    intro k hk
    rw [held] at hp
    rcases List.mem_cons.mp hk with rfl | hk
    · split at hp
      · rcases List.mem_cons.mp hp with hp | hp
        · cases hp
          exact .inr hlo
        · have := held_bounds hp
          omega
      · have := held_bounds hp
        omega
    · split at hp
      · rcases List.mem_cons.mp hp with hp | hp
        · cases hp
          have := header_bounds hk
          omega
        · exact ih hp k hk
      · exact ih hp k hk

end Where

/-- At most one block, and it is free. -/
def Spare (bs : List Block) : Prop := bs = [] ∨ ∃ c : Block, bs = [c] ∧ c.used = false

theorem Spare.held_eq (hs : Spare bs) : held h a bs = [] := by
  rcases hs with rfl | ⟨c, rfl, hc⟩
  · rfl
  · rw [held_free hc, held]

section Calm

theorem Spare.calm (hs : Spare bs) : Calm bs := by
  rcases hs with rfl | ⟨c, rfl, -⟩
  · exact List.IsChain.nil
  · exact List.IsChain.singleton c

theorem calm_append : Calm (xs ++ ys) ↔ Calm xs ∧ Calm ys ∧
    ∀ b ∈ xs.getLast?, ∀ c ∈ ys.head?, b.used = true ∨ c.used = true := List.isChain_append

/-- A block in use separates its neighbours. -/
theorem calm_used (hb : b.used = true) : Calm (xs ++ b :: ys) ↔ Calm xs ∧ Calm ys := by
  have hcons : Calm (b :: ys) ↔ Calm ys := by
    unfold Calm
    rw [List.isChain_cons]
    simp [hb]
  rw [calm_append, hcons]
  simp [hb]

/-- The neighbours of a free block are in use. -/
theorem calm_free (hb : b.used = false) (hc : Calm (xs ++ b :: ys)) :
    Calm xs ∧ Calm ys ∧ (∀ c ∈ xs.getLast?, c.used = true) ∧ ∀ c ∈ ys.head?, c.used = true := by
  rw [calm_append] at hc
  obtain ⟨hxs, hys, hedge⟩ := hc
  unfold Calm at hys
  rw [List.isChain_cons] at hys
  refine ⟨hxs, hys.2, fun c hcx => ?_, fun c hcy => ?_⟩
  · rcases hedge c hcx b rfl with hu | hu
    · exact hu
    · rw [hb] at hu
      cases hu
  · rcases hys.1 c hcy with hu | hu
    · rw [hb] at hu
      cases hu
    · exact hu

theorem calm_cons_free (hb : b.used = false) (hc : Calm (b :: bs)) :
    Calm bs ∧ ∀ c ∈ bs.head?, c.used = true := by
  obtain ⟨-, hbs, -, hu⟩ := calm_free hb (show Calm ([] ++ b :: bs) from hc)
  exact ⟨hbs, hu⟩

theorem Calm.cons (hc : Calm bs) (hu : ∀ c ∈ bs.head?, c.used = true) : Calm (b :: bs) :=
  List.isChain_cons.mpr ⟨fun c hcb => .inr (hu c hcb), hc⟩

/-- Between neighbours in use any blocks will do that are calm themselves. -/
theorem Calm.between (hx : Calm xs) (hy : Calm ys) (hxu : ∀ c ∈ xs.getLast?, c.used = true)
    (hyu : ∀ c ∈ ys.head?, c.used = true) (hbs : Calm bs) : Calm (xs ++ (bs ++ ys)) := by
  refine calm_append.mpr ⟨hx, calm_append.mpr ⟨hbs, hy, fun _ _ c hc => .inr (hyu c hc)⟩,
    fun b hb _ _ => .inl (hxu b hb)⟩

theorem Calm.single (hc : Calm bs) (hne : bs ≠ []) (hfree : held h a bs = []) :
    ∃ b, bs = [b] ∧ b.used = false := by
  cases bs with
  | nil => exact absurd rfl hne
  | cons b bs =>
    have hb : b.used = false := by
      by_contra hu
      rw [held_used (by simpa using hu)] at hfree
      cases hfree
    cases bs with
    | nil => exact ⟨b, rfl, hb⟩
    | cons c bs =>
      have hcu := (calm_cons_free hb hc).2 c rfl
      rw [held_free hb, held_used hcu] at hfree
      cases hfree

end Calm

end BlockList
