import Mathlib.Data.List.DropRight
import Mathlib.Algebra.Order.BigOperators.Group.List
import ReflexOS.GooseMetabolic

set_option autoImplicit false

/-!
# The mesh window over a run

Counting the window in progress with the last complete one looks back over at least one
window of ticks and over less than two.
-/
namespace ReflexOS.Goose

section Latest

variable {ds : List ℕ} {n m : ℕ}

theorem sum_rtake_le (h : n ≤ m) : (ds.rtake n).sum ≤ (ds.rtake m).sum := by
  have hsub : List.Sublist (ds.rtake n) (ds.rtake m) := by
    simp only [List.rtake]
    exact List.drop_sublist_drop_left ds (by omega)
  exact hsub.sum_le_sum fun d _ => Nat.zero_le d

theorem sum_rtake_concat (ds : List ℕ) (d n : ℕ) :
    ((ds ++ [d]).rtake (n + 1)).sum = (ds.rtake n).sum + d := by
  rw [List.rtake_concat_succ, List.sum_append, List.sum_singleton]

/-- The zero counts a sequence ends with. -/
def quietTicks (ds : List ℕ) : ℕ := (ds.rtakeWhile fun d => decide (d = 0)).length

theorem quietTicks_zero (ds : List ℕ) : quietTicks (ds ++ [0]) = quietTicks ds + 1 := by
  unfold quietTicks
  rw [List.rtakeWhile_concat_pos _ _ _ (by decide), List.length_append, List.length_singleton]

theorem quietTicks_pos (ds : List ℕ) {d : ℕ} (hd : d ≠ 0) : quietTicks (ds ++ [d]) = 0 := by
  unfold quietTicks
  rw [List.rtakeWhile_concat_neg _ _ _ (by simpa using hd), List.length_nil]

/-- The last counts exist and are zero when the sequence ends with that many zeros. -/
theorem le_quietTicks_iff : n ≤ quietTicks ds ↔ n ≤ ds.length ∧ ∀ d ∈ ds.rtake n, d = 0 := by
  induction ds using List.reverseRecOn generalizing n with
  | nil => simp [quietTicks]
  | append_singleton ds d ih =>
    cases n with
    | zero => simp
    | succ n =>
      rw [List.rtake_concat_succ, List.length_append, List.length_singleton]
      by_cases hd : d = 0
      · subst hd
        rw [quietTicks_zero, Nat.add_le_add_iff_right, Nat.add_le_add_iff_right, ih]
        simp only [List.mem_append, List.mem_singleton, or_imp, forall_and, forall_eq, and_true]
      · rw [quietTicks_pos ds hd]
        constructor
        · intro h
          omega
        · rintro ⟨-, hall⟩
          exact absurd (hall d (by simp)) hd

end Latest

def windowAtStart : MeshWindow := ⟨0, 0, 0, 0⟩

/-- The window after the ticks with these counts. -/
def windowAfter (isolatedTicks sparseThreshold : ℕ) (ds : List ℕ) : MeshWindow :=
  ds.foldl (fun w d => (policyMeshState w d isolatedTicks sparseThreshold).2) windowAtStart

/-- What the tick with count `d` is judged as, after the ticks `ds`. -/
def judgedAt (isolatedTicks sparseThreshold : ℕ) (ds : List ℕ) (d : ℕ) : ℤ :=
  (policyMeshState (windowAfter isolatedTicks sparseThreshold ds) d isolatedTicks
    sparseThreshold).1

/-- The sums over the span the window can look back on stay in a word. -/
def SumsFit (ticks : ℕ) (ds : List ℕ) : Prop :=
  ∀ pre, pre <+: ds → (pre.rtake (2 * ticks - 1)).sum < 2 ^ 32

theorem sumsFit_of_sum {ticks : ℕ} {ds : List ℕ} (h : ds.sum < 2 ^ 32) : SumsFit ticks ds := by
  intro pre hpre
  have hsub : List.Sublist (pre.rtake (2 * ticks - 1)) ds :=
    (List.drop_sublist _ pre).trans hpre.sublist
  exact lt_of_le_of_lt (hsub.sum_le_sum fun d _ => Nat.zero_le d) h

/-- Isolated after a span without arcs; otherwise connected when the span has heard enough,
and only when twice the span, less a tick, has. -/
structure SlidingJudgement (ticks sparseThreshold : ℕ) (ds : List ℕ) (state : ℤ) : Prop where
  isolated : state = -1 ↔ ticks ≤ ds.length ∧ ∀ d ∈ ds.rtake ticks, d = 0
  connected : state ≠ -1 → sparseThreshold ≤ (ds.rtake ticks).sum → state = 1
  heard : state = 1 → sparseThreshold ≤ (ds.rtake (2 * ticks - 1)).sum

/-- The window holds the counts of the ticks since it was last rolled over and, before them,
those of one span. -/
structure Holds (ticks : ℕ) (ds : List ℕ) (w : MeshWindow) : Prop where
  idle : w.idleTicks = quietTicks ds % 2 ^ 32
  phase : w.windowTicks = ds.length % ticks
  arcs : w.windowArcs = (ds.rtake (ds.length % ticks)).sum
  span : w.windowArcs + w.windowLast = (ds.rtake (ds.length % ticks + ticks)).sum

theorem holds_start (ticks : ℕ) : Holds ticks [] windowAtStart :=
  ⟨rfl, (Nat.zero_mod _).symm, by simp [windowAtStart], by simp [windowAtStart]⟩

section Advance

variable {ticks : ℕ} {ds : List ℕ} {w : MeshWindow} (d : ℕ)

theorem advance_idle (h : w.idleTicks = quietTicks ds % 2 ^ 32) :
    (if d = 0 then (w.idleTicks + 1) % 2 ^ 32 else 0) = quietTicks (ds ++ [d]) % 2 ^ 32 := by
  split
  next hd =>
    subst hd
    rw [quietTicks_zero, h, Nat.mod_add_mod]
  next hd => rw [quietTicks_pos ds hd, Nat.zero_mod]

theorem Holds.advance (h : Holds ticks ds w) (hmin : 2 ≤ ticks) (hmax : ticks < 2 ^ 32)
    (hfit : ((ds ++ [d]).rtake (2 * ticks - 1)).sum < 2 ^ 32) :
    Holds ticks (ds ++ [d]) (advanceWindow w d ticks) := by
  have hphase : ds.length % ticks < ticks := Nat.mod_lt _ (by omega)
  have harcs : (w.windowArcs + d) % 2 ^ 32 = w.windowArcs + d := by
    refine Nat.mod_eq_of_lt ?_
    rw [h.arcs, ← sum_rtake_concat]
    exact lt_of_le_of_lt (sum_rtake_le (by omega)) hfit
  have hticks : (w.windowTicks + 1) % 2 ^ 32 = ds.length % ticks + 1 := by
    rw [h.phase, Nat.mod_eq_of_lt (by omega)]
  have hlen : (ds ++ [d]).length % ticks = (ds.length % ticks + 1) % ticks := by
    rw [List.length_append, List.length_singleton, Nat.mod_add_mod]
  unfold advanceWindow
  rw [advance_idle d h.idle, harcs, hticks]
  dsimp only
  split
  next hroll =>
    -- the tick that completes a window: its arcs become the last ones
    have hfull : ds.length % ticks + 1 = ticks := by omega
    have hzero : (ds ++ [d]).length % ticks = 0 := by rw [hlen, hfull, Nat.mod_self]
    refine ⟨rfl, hzero.symm, ?_, ?_⟩
    · rw [hzero, List.rtake_zero, List.sum_nil]
    · rw [hzero, Nat.zero_add, Nat.zero_add]
      conv_rhs => rw [← hfull]
      rw [sum_rtake_concat, h.arcs]
  next hroll =>
    have hnext : (ds ++ [d]).length % ticks = ds.length % ticks + 1 := by
      rw [hlen, Nat.mod_eq_of_lt (by omega)]
    refine ⟨rfl, hnext.symm, ?_, ?_⟩
    · rw [hnext, sum_rtake_concat, h.arcs]
    · change w.windowArcs + d + w.windowLast = _
      rw [hnext, Nat.add_right_comm w.windowArcs, Nat.add_right_comm (ds.length % ticks),
        sum_rtake_concat, h.span]

end Advance

section Run

variable {isolatedTicks sparseThreshold : ℕ} {ds : List ℕ}

/-- The length of the window, floored. -/
def flooredTicks (isolatedTicks : ℕ) : ℕ := max 2 isolatedTicks

theorem policyMeshState_window (w : MeshWindow) (d : ℕ) :
    (policyMeshState w d isolatedTicks sparseThreshold).2 =
      advanceWindow w d (flooredTicks isolatedTicks) := by
  unfold policyMeshState flooredTicks
  dsimp only
  split
  · rw [Nat.max_eq_left (by omega)]
  · rw [Nat.max_eq_right (by omega)]

theorem windowAfter_concat (ds : List ℕ) (d : ℕ) :
    windowAfter isolatedTicks sparseThreshold (ds ++ [d]) =
      advanceWindow (windowAfter isolatedTicks sparseThreshold ds) d
        (flooredTicks isolatedTicks) := by
  unfold windowAfter
  rw [List.foldl_append]
  exact policyMeshState_window _ d

theorem judgedAt_eq (ds : List ℕ) (d : ℕ) :
    judgedAt isolatedTicks sparseThreshold ds d =
      let w := windowAfter isolatedTicks sparseThreshold (ds ++ [d])
      if flooredTicks isolatedTicks ≤ w.idleTicks then -1
      else if sparseThreshold ≤ (w.windowArcs + w.windowLast) % 2 ^ 32 then 1
      else 0 := by
  rw [windowAfter_concat]
  unfold judgedAt policyMeshState flooredTicks
  dsimp only
  split
  · rw [Nat.max_eq_left (by omega)]
  · rw [Nat.max_eq_right (by omega)]

theorem windowAfter_holds (hmax : isolatedTicks < 2 ^ 32)
    (hfit : SumsFit (flooredTicks isolatedTicks) ds) :
    Holds (flooredTicks isolatedTicks) ds (windowAfter isolatedTicks sparseThreshold ds) := by
  induction ds using List.reverseRecOn with
  | nil => exact holds_start _
  | append_singleton ds d ih =>
    rw [windowAfter_concat]
    have hticks : flooredTicks isolatedTicks < 2 ^ 32 := by
      unfold flooredTicks
      omega
    refine (ih fun pre hpre => hfit pre (hpre.trans (List.prefix_append _ _))).advance d
      (le_max_left _ _) hticks (hfit _ List.prefix_rfl)

/-- What a tick is judged as, in terms of the counts so far. -/
theorem judgedAt_counts {d : ℕ} (hmax : isolatedTicks < 2 ^ 32)
    (hfit : SumsFit (flooredTicks isolatedTicks) (ds ++ [d])) :
    judgedAt isolatedTicks sparseThreshold ds d =
      if flooredTicks isolatedTicks ≤ quietTicks (ds ++ [d]) % 2 ^ 32 then -1
      else if sparseThreshold ≤ ((ds ++ [d]).rtake ((ds ++ [d]).length %
        flooredTicks isolatedTicks + flooredTicks isolatedTicks)).sum then 1
      else 0 := by
  have h : Holds (flooredTicks isolatedTicks) (ds ++ [d])
      (windowAfter isolatedTicks sparseThreshold (ds ++ [d])) := windowAfter_holds hmax hfit
  have hphase : (ds ++ [d]).length % flooredTicks isolatedTicks < flooredTicks isolatedTicks :=
    Nat.mod_lt _ (by unfold flooredTicks; omega)
  have hword : ((ds ++ [d]).rtake ((ds ++ [d]).length % flooredTicks isolatedTicks +
      flooredTicks isolatedTicks)).sum < 2 ^ 32 :=
    lt_of_le_of_lt (sum_rtake_le (by omega)) (hfit _ List.prefix_rfl)
  rw [judgedAt_eq]
  dsimp only
  rw [h.idle, h.span, Nat.mod_eq_of_lt hword]

/-- The mesh is not judged isolated when the count of quiet ticks has come back to zero. -/
theorem isolation_missed {d : ℕ} (hmax : isolatedTicks < 2 ^ 32)
    (hfit : SumsFit (flooredTicks isolatedTicks) (ds ++ [d]))
    (hquiet : flooredTicks isolatedTicks ≤ quietTicks (ds ++ [d]))
    (hwrap : quietTicks (ds ++ [d]) % 2 ^ 32 < flooredTicks isolatedTicks) :
    ¬ SlidingJudgement (flooredTicks isolatedTicks) sparseThreshold (ds ++ [d])
      (judgedAt isolatedTicks sparseThreshold ds d) := by
  intro h
  have hneg := h.isolated.mpr (le_quietTicks_iff.mp hquiet)
  rw [judgedAt_counts hmax hfit, if_neg (by omega)] at hneg
  split at hneg <;> omega

end Run

/-- A tick is judged as over a sliding window exactly when the count of quiet ticks has not
just come back to zero. -/
theorem meshState_sliding_iff (isolatedTicks sparseThreshold : ℕ) (ds : List ℕ) (d : ℕ)
    (hmax : isolatedTicks < 2 ^ 32) (hfit : SumsFit (flooredTicks isolatedTicks) (ds ++ [d])) :
    SlidingJudgement (flooredTicks isolatedTicks) sparseThreshold (ds ++ [d])
        (judgedAt isolatedTicks sparseThreshold ds d) ↔
      (quietTicks (ds ++ [d]) < flooredTicks isolatedTicks ∨
        flooredTicks isolatedTicks ≤ quietTicks (ds ++ [d]) % 2 ^ 32) := by
  have hphase : (ds ++ [d]).length % flooredTicks isolatedTicks < flooredTicks isolatedTicks :=
    Nat.mod_lt _ (by unfold flooredTicks; omega)
  constructor
  · intro h
    by_contra hnot
    rw [not_or, not_lt, not_le] at hnot
    exact isolation_missed hmax hfit hnot.1 hnot.2 h
  · intro hcond
    rw [judgedAt_counts hmax hfit]
    have hidle : flooredTicks isolatedTicks ≤ quietTicks (ds ++ [d]) % 2 ^ 32 ↔
        flooredTicks isolatedTicks ≤ quietTicks (ds ++ [d]) := by
      have := Nat.mod_le (quietTicks (ds ++ [d])) (2 ^ 32)
      omega
    refine ⟨?_, ?_, ?_⟩
    · rw [← le_quietTicks_iff, ← hidle]
      split
      next h => exact ⟨fun _ => h, fun _ => rfl⟩
      next h =>
        refine ⟨fun hs => ?_, fun hq => absurd hq h⟩
        split at hs <;> omega
    · intro hne hsum
      rw [if_neg fun h => hne (if_pos h), if_pos]
      exact hsum.trans (sum_rtake_le (by omega))
    · intro hone
      split at hone
      · omega
      · split at hone
        next h => exact h.trans (sum_rtake_le (by omega))
        · omega

/-- One arc in three quiet ticks. -/
theorem meshState_sliding_arc :
    SlidingJudgement (flooredTicks 2) 1 ([0, 1] ++ [0]) (judgedAt 2 1 [0, 1] 0) :=
  (meshState_sliding_iff 2 1 [0, 1] 0 (by decide) (sumsFit_of_sum (by decide))).mpr
    (.inl (by decide))

theorem quietTicks_replicate (n : ℕ) : quietTicks (List.replicate n 0) = n := by
  induction n with
  | zero => rfl
  | succ n ih => rw [List.replicate_succ', quietTicks_zero, ih]

/-- After 2^32 ticks without an arc the mesh is not judged isolated. -/
theorem meshState_idle_wraps :
    ¬ SlidingJudgement (flooredTicks 20) 2 (List.replicate 4294967295 0 ++ [0])
      (judgedAt 20 2 (List.replicate 4294967295 0) 0) := by
  have hquiet : quietTicks (List.replicate 4294967295 0 ++ [0]) = 4294967296 := by
    rw [quietTicks_zero, quietTicks_replicate]
  have hsum : (List.replicate 4294967295 0 ++ [0]).sum = 0 := by
    refine List.sum_eq_zero fun d hd => ?_
    rcases List.mem_append.mp hd with h | h
    · exact List.eq_of_mem_replicate h
    · exact List.mem_singleton.mp h
  have hfloor : flooredTicks 20 = 20 := rfl
  refine isolation_missed (by decide) (sumsFit_of_sum (by rw [hsum]; decide)) ?_ ?_
  · rw [hquiet, hfloor]
    decide
  · rw [hquiet, hfloor]
    decide

end ReflexOS.Goose
