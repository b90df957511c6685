import ReflexOS.Runs
import Mathlib.Data.List.Basic

set_option autoImplicit false

/-!
# Bounded mailboxes and what passes through a system

A mailbox holds a few items in the order they came in. Of a system whose every step only moves
items along, a run law follows from the step law: what was held and what came in is what went out
and what is held still.
-/
namespace Mailboxes
open Runs

structure Mailbox (α : Type*) (cap : ℕ) where
  items : List α
  fits : items.length ≤ cap

variable {α : Type*} {cap : ℕ}

def empty : Mailbox α cap := ⟨[], Nat.zero_le cap⟩

/-- The item at the end, unless the mailbox is full. -/
def Mailbox.send (q : Mailbox α cap) (x : α) : Option (Mailbox α cap) :=
  if h : q.items.length < cap then
    some ⟨q.items ++ [x], by rw [List.length_append, List.length_singleton]; omega⟩
  else none

def Mailbox.recv (q : Mailbox α cap) : Option (α × Mailbox α cap) :=
  match h : q.items with
  | [] => none
  | x :: xs => some (x, ⟨xs, by have := q.fits; rw [h, List.length_cons] at this; omega⟩)

variable {q q' : Mailbox α cap} {x : α}

theorem send_items (h : q.send x = some q') : q'.items = q.items ++ [x] := by
  unfold Mailbox.send at h
  split at h
  · cases h
    rfl
  · cases h

theorem recv_items (h : q.recv = some (x, q')) : q.items = x :: q'.items := by
  unfold Mailbox.recv at h
  split at h
  · cases h
  next hitems =>
    cases h
    exact hitems

section Passing

variable {S L : Type*} {step : S → L → S → Prop} {s u : S} {ls : List L}
  {held : S → List α} {arrived left : L → List α}

/-- Nothing is lost, duplicated or overtaken. -/
theorem passes_on (I : S → Prop) (hp : ∀ s l u, I s → step s l u → I u)
    (hstep : ∀ s l u, I s → step s l u → held s ++ arrived l = left l ++ held u)
    (h : Run step s ls u) (hs : I s) :
    held s ++ ls.flatMap arrived = ls.flatMap left ++ held u := by
  induction h with
  | nil s => simp
  | @cons s u v l ls h _ ih =>
    calc
      held s ++ (l :: ls).flatMap arrived = (held s ++ arrived l) ++ ls.flatMap arrived := by
        rw [List.flatMap_cons, List.append_assoc]
      _ = left l ++ (held u ++ ls.flatMap arrived) := by
        rw [hstep _ _ _ hs h, List.append_assoc]
      _ = (l :: ls).flatMap left ++ held v := by
        rw [ih (hp _ _ _ hs h), List.flatMap_cons, List.append_assoc]

/-- Some of it may be lost. -/
theorem passes_on_some (I : S → Prop) (hp : ∀ s l u, I s → step s l u → I u)
    (hstep : ∀ s l u, I s → step s l u → (left l ++ held u).Sublist (held s ++ arrived l))
    (h : Run step s ls u) (hs : I s) :
    (ls.flatMap left ++ held u).Sublist (held s ++ ls.flatMap arrived) := by
  induction h with
  | nil s => simp
  | @cons s u v l ls h _ ih =>
    have hrest := (ih (hp _ _ _ hs h)).append_left (left l)
    have hfirst := (hstep _ _ _ hs h).append_right (ls.flatMap arrived)
    rw [List.append_assoc, List.append_assoc] at hfirst
    rw [List.flatMap_cons, List.flatMap_cons, List.append_assoc]
    exact hrest.trans hfirst

end Passing

end Mailboxes
