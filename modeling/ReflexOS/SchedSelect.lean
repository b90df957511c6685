import Mathlib.Tactic.Ring
import Mathlib.Tactic.Zify
import ReflexOS.SchedTasks

set_option autoImplicit false

/-!
# Scheduling decisions

What a scan of the table selects, and how long a task that is ready at the top priority can
be passed over.
-/
namespace ReflexOS.Sched
open Kernel

/-- A READY slot that no READY slot outranks. -/
structure TopReady (tasks : ℕ → Task) (count t : ℕ) : Prop where
  lt : t < count
  ready : (tasks t).state = .ready
  top : ∀ i < count, (tasks i).state = .ready → (tasks i).priority ≤ (tasks t).priority

/-- The slot of the `i`-th probe of a scan. -/
def scanSlot (count : ℕ) (start : ℤ) (i : ℕ) : ℕ := ((start % count).toNat + i) % count

/-- The probe at which a scan comes to slot `t`. -/
def scanDistance (count : ℕ) (start : ℤ) (t : ℕ) : ℕ := ((t - start) % (count : ℤ)).toNat

/-- What the scan has found after `k` probes. -/
def Scanned (tasks : ℕ → Task) (count : ℕ) (start : ℤ) (k : ℕ) : Option ℕ → Prop
  | none => ∀ i < k, (tasks (scanSlot count start i)).state ≠ .ready
  | some b => (tasks b).state = .ready ∧ ∃ j < k, b = scanSlot count start j ∧
      ∀ i < k, (tasks (scanSlot count start i)).state = .ready →
        (tasks (scanSlot count start i)).priority ≤ (tasks b).priority ∧
        (i < j → (tasks (scanSlot count start i)).priority < (tasks b).priority)

lemma Scanned.probe {tasks : ℕ → Task} {count : ℕ} {start : ℤ} {k : ℕ} {best : Option ℕ}
    (scanned : Scanned tasks count start k best) :
    Scanned tasks count start (k + 1)
      (selectProbe tasks count (start % count).toNat best k) := by
  have slot : ((start % (count : ℤ)).toNat + k) % count = scanSlot count start k := rfl
  simp only [selectProbe, slot]
  by_cases ready : (tasks (scanSlot count start k)).state = .ready
  swap
  · rw [if_pos ready]
    cases best with
    | none =>
      intro i lt
      rcases Nat.lt_succ_iff_lt_or_eq.1 lt with lt | rfl
      exacts [scanned i lt, ready]
    | some b =>
      obtain ⟨isReady, j, lt, eq, best⟩ := scanned
      refine ⟨isReady, j, by omega, eq, fun i iLt iReady => ?_⟩
      rcases Nat.lt_succ_iff_lt_or_eq.1 iLt with iLt | rfl
      exacts [best i iLt iReady, absurd iReady ready]
  rw [if_neg (not_not.2 ready)]
  cases best with
  | none =>
    refine ⟨ready, k, by omega, rfl, fun i lt iReady => ?_⟩
    rcases Nat.lt_succ_iff_lt_or_eq.1 lt with lt | rfl
    · exact absurd iReady (scanned i lt)
    · exact ⟨le_rfl, fun h => absurd h (lt_irrefl _)⟩
  | some b =>
    obtain ⟨isReady, j, jLt, eq, best⟩ := scanned
    dsimp only
    by_cases higher : (tasks b).priority < (tasks (scanSlot count start k)).priority
    · rw [if_pos higher]
      refine ⟨ready, k, by omega, rfl, fun i lt iReady => ?_⟩
      rcases Nat.lt_succ_iff_lt_or_eq.1 lt with lt | rfl
      · have := (best i lt iReady).1
        exact ⟨by omega, fun _ => by omega⟩
      · exact ⟨le_rfl, fun h => absurd h (lt_irrefl _)⟩
    · rw [if_neg higher]
      refine ⟨isReady, j, by omega, eq, fun i lt iReady => ?_⟩
      rcases Nat.lt_succ_iff_lt_or_eq.1 lt with lt | rfl
      exacts [best i lt iReady, ⟨by omega, fun h => by omega⟩]

section Scan
variable (tasks : ℕ → Task) {count : ℕ} (positive : 0 < count) (start : ℤ)
include positive

lemma scanSlot_lt (i : ℕ) : scanSlot count start i < count := Nat.mod_lt _ positive

lemma scanDistance_lt (t : ℕ) : scanDistance count start t < count := by
  have low := Int.emod_nonneg (t - start) (Int.natCast_ne_zero.2 positive.ne')
  have high := Int.emod_lt_of_pos (t - start) (Int.natCast_pos.2 positive)
  unfold scanDistance
  omega

/-- The probe of a slot meets it. -/
lemma scanSlot_scanDistance {t : ℕ} (lt : t < count) :
    scanSlot count start (scanDistance count start t) = t := by
  have beginLow := Int.emod_nonneg start (Int.natCast_ne_zero.2 positive.ne')
  have distanceLow := Int.emod_nonneg (t - start) (Int.natCast_ne_zero.2 positive.ne')
  zify [scanSlot, scanDistance]
  rw [Int.toNat_of_nonneg beginLow, Int.toNat_of_nonneg distanceLow, ← Int.add_emod,
    add_sub_cancel]
  exact Int.emod_eq_of_lt (Int.natCast_nonneg t) (Int.ofNat_lt.2 lt)

/-- After a scan that stopped `j` probes in, the next one is nearer to every later slot. -/
lemma scanDistance_next {j t : ℕ} (before : j < scanDistance count start t) :
    scanDistance count (scanSlot count start j + 1) t < scanDistance count start t := by
  have beginLow := Int.emod_nonneg start (Int.natCast_ne_zero.2 positive.ne')
  have distanceLow := Int.emod_nonneg (t - start) (Int.natCast_ne_zero.2 positive.ne')
  have distance : ((scanDistance count start t : ℕ) : ℤ) = (t - start) % count :=
    Int.toNat_of_nonneg distanceLow
  have slot : ((scanSlot count start j : ℕ) : ℤ) = (start + j) % count := by
    simp [scanSlot, Int.toNat_of_nonneg beginLow]
  have nearer : (t - ((scanSlot count start j : ℕ) + 1 : ℤ)) % (count : ℤ) =
      scanDistance count start t - j - 1 := by
    rw [slot, show (t : ℤ) - ((start + j) % count + 1) = t - 1 - (start + j) % count by ring,
      Int.sub_emod_emod, show (t : ℤ) - 1 - (start + j) = t - start - (j + 1) by ring,
      ← Int.emod_sub_emod, ← distance]
    have := scanDistance_lt positive start t
    rw [Int.emod_eq_of_lt (by omega) (by omega)]
    ring
  unfold scanDistance at nearer ⊢
  rw [nearer]
  omega

/-- The scan starts at the Euclidean remainder of its start. -/
lemma schedSelect_eq : schedSelect tasks count start =
    (List.range count).foldl (selectProbe tasks count (start % count).toNat) none := by
  have start_eq : (if start.tmod count < 0 then start.tmod count + count else start.tmod count) =
      start % count := by
    have nonneg := Int.emod_nonneg start (Int.natCast_ne_zero.2 positive.ne')
    have high := Int.emod_lt_of_pos start (Int.natCast_pos.2 positive)
    rw [Int.tmod_eq_emod]
    split_ifs <;> omega
  simp only [schedSelect, if_neg positive.ne', start_eq]

lemma schedSelect_scanned :
    Scanned tasks count start count (schedSelect tasks count start) := by
  have scan : ∀ k, Scanned tasks count start k
      ((List.range k).foldl (selectProbe tasks count (start % count).toNat) none) := by
    intro k
    induction k with
    | zero => exact fun i lt => absurd lt (Nat.not_lt_zero i)
    | succ k ih =>
      rw [List.range_succ, List.foldl_append]
      exact ih.probe
  rw [schedSelect_eq tasks positive]
  exact scan count

/-- A task at the top priority that is passed over is nearer to the start of the next scan. -/
lemma schedSelect_nearer {b t : ℕ} (selected : schedSelect tasks count start = some b)
    (top : TopReady tasks count t) (other : b ≠ t) :
    scanDistance count (b + 1) t < scanDistance count start t := by
  have scanned := schedSelect_scanned tasks positive start
  rw [selected] at scanned
  obtain ⟨isReady, j, lt, eq, best⟩ := scanned
  have met := scanSlot_scanDistance positive start top.lt
  have bound := best _ (scanDistance_lt positive start t) (by rw [met]; exact top.ready)
  have most := top.top b (by rw [eq]; exact scanSlot_lt positive start j) isReady
  have before : j < scanDistance count start t := by
    rcases lt_trichotomy j (scanDistance count start t) with before | same | after
    · exact before
    · exact absurd (by rw [eq, same, met]) other
    · have := bound.2 after
      rw [met] at this
      omega
  rw [eq]
  exact scanDistance_next positive start before

end Scan

lemma schedSelect_top (tasks : ℕ → Task) (count : ℕ) (start : ℤ) {b : ℕ}
    (selected : schedSelect tasks count start = some b) : TopReady tasks count b := by
  rcases Nat.eq_zero_or_pos count with rfl | positive
  · simp [schedSelect] at selected
  have scanned := schedSelect_scanned tasks positive start
  rw [selected] at scanned
  obtain ⟨isReady, j, lt, eq, best⟩ := scanned
  refine ⟨by rw [eq]; exact scanSlot_lt positive start j, isReady, fun i iLt iReady => ?_⟩
  have met := scanSlot_scanDistance positive start iLt
  simpa only [met] using
    (best _ (scanDistance_lt positive start i) (by rw [met]; exact iReady)).1

lemma schedSelect_none (tasks : ℕ → Task) (count : ℕ) (start : ℤ) :
    schedSelect tasks count start = none ↔ ∀ i < count, (tasks i).state ≠ .ready := by
  constructor
  · intro selected i lt
    have positive : 0 < count := by omega
    have scanned := schedSelect_scanned tasks positive start
    rw [selected] at scanned
    simpa only [scanSlot_scanDistance positive start lt] using
      scanned _ (scanDistance_lt positive start i)
  · intro idle
    cases selected : schedSelect tasks count start with
    | none => rfl
    | some b =>
      have top := schedSelect_top tasks count start selected
      exact absurd top.ready (idle b top.lt)

/-- A run of decisions over changing tables, each starting after the task chosen before. -/
structure Decisions (count : ℕ) (tables : ℕ → ℕ → Task) (start : ℤ)
    (chosen : ℕ → Option ℕ) : Prop where
  first : chosen 0 = schedSelect (tables 0) count start
  next : ∀ k, chosen (k + 1) = schedSelect (tables (k + 1)) count (afterCurrent (chosen k))

/-- Where the `k`-th decision starts its scan. -/
def decisionStart (start : ℤ) (chosen : ℕ → Option ℕ) : ℕ → ℤ
  | 0 => start
  | k + 1 => afterCurrent (chosen k)

section Fairness
variable {count : ℕ} {tables : ℕ → ℕ → Task} {start : ℤ} {chosen : ℕ → Option ℕ} {t : ℕ}

lemma Decisions.at (run : Decisions count tables start chosen) (k : ℕ) :
    chosen k = schedSelect (tables k) count (decisionStart start chosen k) := by
  cases k with
  | zero => exact run.first
  | succ k => exact run.next k

/-- Every decision that passes the task over brings the next scan nearer to it. -/
lemma Decisions.waiting (run : Decisions count tables start chosen) (lt : t < count) {k : ℕ}
    (stays : ∀ j < k, TopReady (tables j) count t) (passed : ∀ j < k, chosen j ≠ some t) :
    scanDistance count (decisionStart start chosen k) t + k ≤ scanDistance count start t := by
  induction k with
  | zero => exact le_rfl
  | succ k ih =>
    have nearer := ih (fun j jLt => stays j (by omega)) (fun j jLt => passed j (by omega))
    have top := stays k (by omega)
    cases decision : chosen k with
    | none =>
      rw [run.at k, schedSelect_none] at decision
      exact absurd top.ready (decision t lt)
    | some b =>
      have other : b ≠ t := fun eq => passed k (by omega) (by rw [decision, eq])
      have := schedSelect_nearer (tables k) (by omega) _ ((run.at k).symm.trans decision) top other
      simp only [decisionStart, decision, afterCurrent]
      omega

/-- A task that stays READY at the top priority is chosen within `count` decisions. -/
lemma Decisions.fair (run : Decisions count tables start chosen) (lt : t < count)
    (stays : ∀ k < count, (∀ j < k, chosen j ≠ some t) → TopReady (tables k) count t) :
    ∃ k < count, chosen k = some t := by
  by_contra never
  push Not at never
  have waited := run.waiting lt
    (fun k kLt => stays k kLt fun j jLt => never j (by omega)) never
  have positive : 0 < count := by omega
  have := scanDistance_lt positive start t
  omega

end Fairness

/-- A run of `pick_next`, on statics that anything may have happened to in between, in which
the task chosen is the current one of the next decision and has not been collected. -/
structure Picks (statics : ℕ → Statics) : Prop where
  next : ∀ k, (pickNext (statics (k + 1))).1.current = (pickNext (statics k)).2.2

lemma Picks.decisions {statics : ℕ → Statics} (run : Picks statics) :
    Decisions schedMaxTasks (fun k => (pickNext (statics k)).1.tasks)
      (afterCurrent (pickNext (statics 0)).1.current) fun k => (pickNext (statics k)).2.2 := by
  refine ⟨rfl, fun k => ?_⟩
  rw [← run.next k]
  rfl

/-- Selection takes a READY task of the highest READY priority, and round-robin decisions
leave no such task waiting for as long as there are slots. -/
theorem selection_fair :
    (∀ tasks count start,
      (schedSelect tasks count start = none ↔ ∀ i < count, (tasks i).state ≠ .ready) ∧
      ∀ b, schedSelect tasks count start = some b → TopReady tasks count b) ∧
    (∀ count tables start chosen, Decisions count tables start chosen → ∀ t < count,
      (∀ k < count, (∀ j < k, chosen j ≠ some t) → TopReady (tables k) count t) →
      ∃ k < count, chosen k = some t) ∧
    ∀ statics, Picks statics → ∀ t < schedMaxTasks,
      (∀ k < schedMaxTasks, (∀ j < k, (pickNext (statics j)).2.2 ≠ some t) →
        TopReady (pickNext (statics k)).1.tasks schedMaxTasks t) →
      ∃ k < schedMaxTasks, (pickNext (statics k)).2.2 = some t := by
  refine ⟨fun tasks count start => ⟨schedSelect_none tasks count start, fun b selected =>
    schedSelect_top tasks count start selected⟩, ?_, ?_⟩
  · intro count tables start chosen run t lt stays
    exact run.fair lt stays
  · intro statics run t lt stays
    exact run.decisions.fair lt stays

/-- The run of decisions over one table. -/
def roundRobin (tasks : ℕ → Task) (count : ℕ) (start : ℤ) : ℕ → Option ℕ
  | 0 => schedSelect tasks count start
  | k + 1 => schedSelect tasks count (afterCurrent (roundRobin tasks count start k))

lemma roundRobin_decisions (tasks : ℕ → Task) (count : ℕ) (start : ℤ) :
    Decisions count (fun _ => tasks) start (roundRobin tasks count start) :=
  ⟨rfl, fun _ => rfl⟩

theorem selection_fair_equals :
    ∃ k < 3, roundRobin (fun _ => { zeroTask with state := .ready }) 3 0 k = some 2 :=
  selection_fair.2.1 3 _ 0 _ (roundRobin_decisions _ 3 0) 2 (by decide)
    fun _ _ _ => ⟨by decide, rfl, fun _ _ _ => le_rfl⟩

end ReflexOS.Sched
