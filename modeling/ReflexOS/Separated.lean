import Mathlib.Data.List.Basic

set_option autoImplicit false

/-!
# Runs of labels

A list read as labels between separators. A run of consecutive labels, joined again, is a
part of the list that begins and ends at a separator or at an end of the list.
-/
namespace Separated

variable {α : Type*} [BEq α] [LawfulBEq α] (sep : α)

def join (labels : List (List α)) : List α := [sep].intercalate labels

/-- `part` is a run of the labels of `xs` that follows the labels `before`. -/
def RunAfter (before : List (List α)) (part xs : List α) : Prop :=
  ∃ run after, xs.splitOn sep = before ++ (run ++ after) ∧ run ≠ [] ∧ join sep run = part

/-- Nothing, or a separator first. -/
def Closes (post : List α) : Prop := post = [] ∨ ∃ rest, post = sep :: rest

variable {sep}

omit [BEq α] [LawfulBEq α] in
theorem join_append {before after : List (List α)} (hb : before ≠ []) (ha : after ≠ []) :
    join sep (before ++ after) = join sep before ++ sep :: join sep after := by
  unfold join
  induction before with
  | nil => exact absurd rfl hb
  | cons label labels ih =>
    cases labels with
    | nil =>
      rw [List.singleton_append, List.intercalate_cons_of_ne_nil ha, List.intercalate_singleton]
      simp
    | cons next rest =>
      have hrest := ih (List.cons_ne_nil next rest)
      rw [List.cons_append] at hrest
      rw [List.cons_append, List.cons_append, List.intercalate_cons_cons, hrest,
        List.intercalate_cons_cons, List.append_assoc, List.append_assoc, List.append_assoc]

omit [BEq α] [LawfulBEq α] in
theorem join_closes {run : List (List α)} (hrun : run ≠ []) (after : List (List α)) :
    ∃ post, join sep (run ++ after) = join sep run ++ post ∧ Closes sep post := by
  cases after with
  | nil => exact ⟨[], by simp, .inl rfl⟩
  | cons label labels =>
    exact ⟨sep :: join sep (label :: labels), join_append hrun (by simp), .inr ⟨_, rfl⟩⟩

/-- The labels of a list that closes behind its part begin with those of the part. -/
theorem splitOn_closes (part : List α) {post : List α} (h : Closes sep post) :
    ∃ after, (part ++ post).splitOn sep = part.splitOn sep ++ after := by
  rcases h with rfl | ⟨rest, rfl⟩
  · exact ⟨[], by simp⟩
  · exact ⟨rest.splitOn sep, List.splitOn_append_cons_self part rest⟩

variable {part xs : List α}

theorem runAfter_nil_iff :
    RunAfter sep [] part xs ↔ ∃ post, xs = part ++ post ∧ Closes sep post := by
  constructor
  · rintro ⟨run, after, hsplit, hrun, rfl⟩
    obtain ⟨post, hjoin, hpost⟩ := @join_closes α sep run hrun after
    refine ⟨post, ?_, hpost⟩
    rw [← hjoin, ← List.nil_append (run ++ after), ← hsplit]
    exact (List.intercalate_splitOn sep).symm
  · rintro ⟨post, rfl, hpost⟩
    obtain ⟨after, hafter⟩ := splitOn_closes part hpost
    exact ⟨part.splitOn sep, after, hafter, List.splitOn_ne_nil _ _, List.intercalate_splitOn sep⟩

/-- A run that is not the first begins behind a separator. -/
theorem exists_runAfter_iff : (∃ before, before ≠ [] ∧ RunAfter sep before part xs) ↔
    ∃ pre post, xs = pre ++ sep :: (part ++ post) ∧ Closes sep post := by
  constructor
  · rintro ⟨before, hbefore, run, after, hsplit, hrun, rfl⟩
    obtain ⟨post, hjoin, hpost⟩ := @join_closes α sep run hrun after
    refine ⟨join sep before, post, ?_, hpost⟩
    rw [← hjoin, ← join_append hbefore (by simp [hrun]), ← hsplit]
    exact (List.intercalate_splitOn sep).symm
  · rintro ⟨pre, post, rfl, hpost⟩
    obtain ⟨after, hafter⟩ := splitOn_closes part hpost
    refine ⟨pre.splitOn sep, List.splitOn_ne_nil _ _, part.splitOn sep, after, ?_,
      List.splitOn_ne_nil _ _, List.intercalate_splitOn sep⟩
    rw [List.splitOn_append_cons_self, hafter]

end Separated
