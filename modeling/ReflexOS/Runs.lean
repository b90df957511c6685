import Mathlib.Tactic.Common

set_option autoImplicit false

/-!
# Finite runs of a labelled transition system

The induction over a run is done here once: an invariant of every step is an
invariant of every run, and a simulation of every step is a simulation of every run.
-/
namespace Runs

variable {S T L : Type*}

/-- A finite run, with the labels of its steps in order. -/
inductive Run (step : S → L → S → Prop) : S → List L → S → Prop where
  | nil (s : S) : Run step s [] s
  | cons {s u v : S} {l : L} {ls : List L} (h : step s l u) (t : Run step u ls v) :
      Run step s (l :: ls) v

variable {step : S → L → S → Prop} {s u v : S} {l : L} {ls ms : List L}

theorem Run.invariant (I : S → Prop) (hp : ∀ s l u, I s → step s l u → I u)
    (h : Run step s ls u) (hs : I s) : I u := by
  induction h with
  | nil _ => exact hs
  | cons h _ ih => exact ih (hp _ _ _ hs h)

theorem Run.append (h : Run step s ls u) (h' : Run step u ms v) :
    Run step s (ls ++ ms) v := by
  induction h with
  | nil _ => exact h'
  | cons h _ ih => exact .cons h (ih h')

theorem Run.split (h : Run step s (ls ++ ms) v) : ∃ u, Run step s ls u ∧ Run step u ms v := by
  induction ls generalizing s with
  | nil => exact ⟨s, .nil s, h⟩
  | cons l ls ih =>
    cases h with
    | cons h t =>
      obtain ⟨u, hrun, hrest⟩ := ih t
      exact ⟨u, .cons h hrun, hrest⟩

/-- What is computed along the labels stays related to the state. -/
theorem Run.foldl {A : Type*} (f : A → L → A) (R : S → A → Prop)
    (hp : ∀ s l u a, R s a → step s l u → R u (f a l)) (h : Run step s ls u) {a : A}
    (hs : R s a) : R u (ls.foldl f a) := by
  induction h generalizing a with
  | nil _ => exact hs
  | cons h _ ih => exact ih (hp _ _ _ _ hs h)

/-- What holds of the state and of the labels so far. -/
theorem Run.history (R : List L → S → Prop)
    (hp : ∀ ls s l u, R ls s → step s l u → R (ls ++ [l]) u) (h : Run step s ls u)
    (hs : R [] s) : R ls u := by
  have hall : ∀ before, R before s → R (before ++ ls) u := by
    clear hs
    induction h with
    | nil s =>
      intro before hs
      rwa [List.append_nil]
    | cons h _ ih =>
      intro before hs
      have hnext := ih (before ++ [_]) (hp _ _ _ _ hs h)
      rwa [List.append_assoc] at hnext
  exact hall [] hs
theorem Run.single (h : step s l u) : Run step s [l] u := .cons h (.nil u)

/-- Steps may be weakened as long as an invariant of the run is at hand. -/
theorem Run.mono {step' : S → L → S → Prop} (I : S → Prop)
    (hp : ∀ s l u, I s → step s l u → I u)
    (hi : ∀ s l u, I s → step s l u → step' s l u)
    (h : Run step s ls u) (hs : I s) : Run step' s ls u := by
  induction h with
  | nil s => exact .nil s
  | cons h _ ih => exact .cons (hi _ _ _ hs h) (ih (hp _ _ _ hs h))

/-- A relation that every step carries along is carried along a whole run. -/
theorem Run.simulation {step' : T → L → T → Prop} (R : S → T → Prop)
    (hp : ∀ s l u a, R s a → step s l u → ∃ b, step' a l b ∧ R u b)
    (h : Run step s ls u) {a : T} (hs : R s a) : ∃ b, Run step' a ls b ∧ R u b := by
  induction h generalizing a with
  | nil _ => exact ⟨a, .nil a, hs⟩
  | cons h _ ih =>
    obtain ⟨b, hb, hr⟩ := hp _ _ _ _ hs h
    obtain ⟨c, hc, hrc⟩ := ih hr
    exact ⟨c, .cons hb hc, hrc⟩

/-- The steps of a system that meet a condition on the state before them and their label. -/
def Guarded (guard : S → L → Prop) (step : S → L → S → Prop) : S → L → S → Prop :=
  fun s l u => guard s l ∧ step s l u

/-- Every step of the run satisfies `P` of the state before it, its label and the state after. -/
inductive Always (step : S → L → S → Prop) (P : S → L → S → Prop) : S → List L → S → Prop where
  | nil (s : S) : Always step P s [] s
  | cons {s u v : S} {l : L} {ls : List L} (h : step s l u) (hp : P s l u)
      (t : Always step P u ls v) : Always step P s (l :: ls) v

theorem Always.run {P : S → L → S → Prop} (h : Always step P s ls u) : Run step s ls u := by
  induction h with
  | nil s => exact .nil s
  | cons h _ _ ih => exact .cons h ih

/-- The property holds of the step at any place of the run. -/
theorem Always.at {P : S → L → S → Prop} (h : Always step P s (ls ++ l :: ms) v) :
    ∃ t u, Run step s ls t ∧ step t l u ∧ P t l u ∧ Always step P u ms v := by
  induction ls generalizing s with
  | nil =>
    cases h with
    | cons h hp t => exact ⟨s, _, .nil s, h, hp, t⟩
  | cons m ls ih =>
    cases h with
    | cons h hp t =>
      obtain ⟨t', u, hrun, hrest⟩ := ih t
      exact ⟨t', u, .cons h hrun, hrest⟩

/-- Two step properties that agree wherever an invariant holds agree along every run. -/
theorem Always.congr {P Q : S → L → S → Prop} (I : S → Prop)
    (hp : ∀ s l u, I s → step s l u → I u)
    (hpq : ∀ s l u, I s → step s l u → P s l u → Q s l u)
    (h : Always step P s ls u) (hs : I s) : Always step Q s ls u := by
  induction h with
  | nil s => exact .nil s
  | cons h hP _ ih => exact .cons h (hpq _ _ _ hs h hP) (ih (hp _ _ _ hs h))

/-- The same where only steps that satisfy the property keep the invariant. -/
theorem Always.iff_of_kept {P Q : S → L → S → Prop} (I : S → Prop)
    (hp : ∀ s l u, I s → step s l u → Q s l u → I u)
    (hpq : ∀ s l u, I s → step s l u → (P s l u ↔ Q s l u)) (hs : I s) :
    Always step P s ls u ↔ Always step Q s ls u := by
  constructor
  · intro h
    induction h with
    | nil s => exact .nil s
    | cons h hP _ ih =>
      have hQ := (hpq _ _ _ hs h).mp hP
      exact .cons h hQ (ih (hp _ _ _ hs h hQ))
  · intro h
    induction h with
    | nil s => exact .nil s
    | cons h hQ _ ih => exact .cons h ((hpq _ _ _ hs h).mpr hQ) (ih (hp _ _ _ hs h hQ))

section Machines

variable {I O : Type*}

/-- What a machine answers to a sequence of inputs. -/
def outputs (step : S → I → S × O) (s : S) : List I → List O
  | [] => []
  | i :: is => (step s i).2 :: outputs step (step s i).1 is

/-- Machines whose steps answer alike and stay related answer alike to every sequence. -/
theorem outputs_eq {step : S → I → S × O} {step' : T → I → T × O} (R : S → T → Prop)
    (hstep : ∀ s a i, R s a → R (step s i).1 (step' a i).1 ∧ (step s i).2 = (step' a i).2)
    {s : S} {a : T} (h : R s a) (is : List I) : outputs step s is = outputs step' a is := by
  induction is generalizing s a with
  | nil => rfl
  | cons i is ih =>
    obtain ⟨hnext, hout⟩ := hstep s a i h
    rw [outputs, outputs, hout, ih hnext]

end Machines

end Runs
