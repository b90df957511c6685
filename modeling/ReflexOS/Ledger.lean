import Mathlib.Data.List.Nodup
import Mathlib.Logic.Function.Basic

set_option autoImplicit false

/-!
# A ledger of allocations

Allocations are numbered as they are issued. Each is held by one holder or has been returned.
-/
namespace Allocations

/-- Who holds which allocation, how many there have been, and those given back, in order. -/
structure Ledger (ι : Type*) where
  held : ι → Option ℕ
  issued : ℕ
  returned : List ℕ

variable {ι : Type*}

/-- Nothing is returned twice, held twice, held after its return, or lost. -/
structure Ledger.Sound (L : Ledger ι) : Prop where
  once : L.returned.Nodup
  known : ∀ s ∈ L.returned, s < L.issued
  live : ∀ i s, L.held i = some s → s < L.issued ∧ s ∉ L.returned
  own : ∀ i j s, L.held i = some s → L.held j = some s → i = j
  accounted : ∀ s < L.issued, s ∉ L.returned → ∃ i, L.held i = some s

/-- The ledger before anything is issued. -/
def empty : Ledger ι := ⟨fun _ => none, 0, []⟩

lemma empty_sound : (empty (ι := ι)).Sound where
  once := List.nodup_nil
  known := fun _ h => absurd h List.not_mem_nil
  live := fun _ _ h => absurd h (by simp [empty])
  own := fun _ _ _ h => absurd h (by simp [empty])
  accounted := fun _ h => absurd h (Nat.not_lt_zero _)

variable [DecidableEq ι]

/-- A new allocation goes to `i`. -/
def Ledger.take (L : Ledger ι) (i : ι) : Ledger ι :=
  { L with held := Function.update L.held i (some L.issued), issued := L.issued + 1 }

/-- The holders in `is` give back what they hold. -/
def Ledger.giveBack (L : Ledger ι) (is : List ι) : Ledger ι :=
  { L with
    held := fun i => if i ∈ is then none else L.held i
    returned := L.returned ++ is.filterMap L.held }

variable {L : Ledger ι}

theorem Ledger.Sound.take (h : L.Sound) {i : ι} (none : L.held i = none) : (L.take i).Sound := by
  have fresh : ∀ j, L.held j ≠ some L.issued := fun j held =>
    absurd (h.live j _ held).1 (Nat.lt_irrefl _)
  have cases : ∀ j s, (L.take i).held j = some s →
      (j = i ∧ s = L.issued) ∨ (j ≠ i ∧ L.held j = some s) := by
    intro j s held
    by_cases eq : j = i
    · subst eq
      simp only [Ledger.take, Function.update_self, Option.some.injEq] at held
      exact .inl ⟨rfl, held.symm⟩
    · simp only [Ledger.take, Function.update_of_ne eq] at held
      exact .inr ⟨eq, held⟩
  refine ⟨h.once, fun s mem => Nat.lt_succ_of_lt (h.known s mem), ?_, ?_, ?_⟩
  · intro j s held
    rcases cases j s held with ⟨rfl, rfl⟩ | ⟨_, held⟩
    · exact ⟨Nat.lt_succ_self _, fun mem => absurd (h.known _ mem) (Nat.lt_irrefl _)⟩
    · exact ⟨Nat.lt_succ_of_lt (h.live j s held).1, (h.live j s held).2⟩
  · intro j k s held held'
    rcases cases j s held with ⟨jIs, sIs⟩ | ⟨_, jHeld⟩ <;>
      rcases cases k s held' with ⟨kIs, sIs'⟩ | ⟨_, kHeld⟩
    · rw [jIs, kIs]
    · exact absurd (sIs ▸ kHeld) (fresh k)
    · exact absurd (sIs' ▸ jHeld) (fresh j)
    · exact h.own j k s jHeld kHeld
  · intro s lt kept
    rcases Nat.lt_succ_iff_lt_or_eq.1 lt with lt | rfl
    · obtain ⟨j, held⟩ := h.accounted s lt kept
      have ne : j ≠ i := fun eq => by simp [eq, none] at held
      exact ⟨j, by simpa only [Ledger.take, Function.update_of_ne ne] using held⟩
    · exact ⟨i, by simp only [Ledger.take, Function.update_self]⟩

lemma mem_returned_giveBack {is : List ι} {s : ℕ} :
    s ∈ (L.giveBack is).returned ↔ s ∈ L.returned ∨ ∃ i ∈ is, L.held i = some s := by
  simp only [Ledger.giveBack, List.mem_append, List.mem_filterMap]

theorem Ledger.Sound.giveBack (h : L.Sound) {is : List ι} (distinct : is.Nodup) :
    (L.giveBack is).Sound := by
  have cases : ∀ j s, (L.giveBack is).held j = some s → j ∉ is ∧ L.held j = some s := by
    intro j s held
    by_cases mem : j ∈ is
    · simp only [Ledger.giveBack, if_pos mem, reduceCtorEq] at held
    · simp only [Ledger.giveBack, if_neg mem] at held
      exact ⟨mem, held⟩
  refine ⟨?_, ?_, ?_, ?_, ?_⟩
  · refine List.nodup_append.2 ⟨h.once, ?_, ?_⟩
    · exact distinct.filterMap fun i j s hi hj => h.own i j s hi hj
    · intro s mem s' mem' eq
      obtain ⟨i, -, held⟩ := List.mem_filterMap.1 mem'
      exact (h.live i s' held).2 (eq ▸ mem)
  · intro s mem
    rcases mem_returned_giveBack.1 mem with mem | ⟨i, -, held⟩
    · exact h.known s mem
    · exact (h.live i s held).1
  · intro j s held
    obtain ⟨out, held⟩ := cases j s held
    refine ⟨(h.live j s held).1, fun mem => ?_⟩
    rcases mem_returned_giveBack.1 mem with mem | ⟨i, isMem, held'⟩
    · exact (h.live j s held).2 mem
    · exact out (h.own i j s held' held ▸ isMem)
  · intro j k s held held'
    exact h.own j k s (cases j s held).2 (cases k s held').2
  · intro s lt kept
    obtain ⟨j, held⟩ := h.accounted s lt fun mem => kept (mem_returned_giveBack.2 (.inl mem))
    have out : j ∉ is := fun mem => kept (mem_returned_giveBack.2 (.inr ⟨j, mem, held⟩))
    exact ⟨j, by simpa only [Ledger.giveBack, if_neg out] using held⟩

end Allocations
