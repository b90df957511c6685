import Mathlib.Tactic.Common

set_option autoImplicit false

/-!
# Lines in a stream

Lines, each with its terminator behind it, one after the other: a stream can be cut up in one
way only.
-/
namespace LineStream

variable {α : Type*} (nl : α)

def join (lines : List (List α)) : List α := lines.flatMap fun l => l ++ [nl]

variable {nl} {xs ys : List (List α)} {l m rest : List α}

theorem join_cons : join nl (l :: xs) = l ++ nl :: join nl xs := by
  rw [join, List.flatMap_cons, List.append_assoc]
  rfl

theorem join_append : join nl (xs ++ ys) = join nl xs ++ join nl ys := List.flatMap_append

theorem join_singleton : join nl [l] = l ++ [nl] := List.flatMap_singleton _ _

/-- Two lines before the first terminator are one. -/
theorem append_cons_inj {a b : List α} (hl : nl ∉ l) (hm : nl ∉ m)
    (h : l ++ nl :: a = m ++ nl :: b) : l = m ∧ a = b := by
  induction l generalizing m with
  | nil =>
    cases m with
    | nil => exact ⟨rfl, (List.cons.inj h).2⟩
    | cons c m => exact absurd ((List.cons.inj h).1 ▸ List.mem_cons_self) hm
  | cons c l ih =>
    cases m with
    | nil => exact absurd ((List.cons.inj h).1 ▸ List.mem_cons_self) hl
    | cons d m =>
      obtain ⟨rfl, htail⟩ := List.cons.inj h
      obtain ⟨rfl, hab⟩ := ih (fun hc => hl (List.mem_cons_of_mem c hc))
        (fun hc => hm (List.mem_cons_of_mem c hc)) htail
      exact ⟨rfl, hab⟩

/-- Nothing is left over where the stream has been read to its end. -/
theorem eq_nil_of_join (h : nl ∉ rest) (hrest : rest = join nl xs) : xs = [] := by
  cases xs with
  | nil => rfl
  | cons l xs =>
    rw [join_cons] at hrest
    exact absurd (hrest ▸ List.mem_append_right l List.mem_cons_self) h

end LineStream
