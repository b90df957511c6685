import ReflexOS.GoosePulse
import ReflexOS.Runs

set_option autoImplicit false

/-!
# The rhythm of a transition

A pulse evolves the target of a transition when the time since its last run has reached the
interval, which is scaled to microseconds in a word.
-/
namespace ReflexOS.Goose
open Runs

/-- The test a pulse makes before it calls the evolution function. -/
def due (F : Fabric) (now : ℕ) (t : Transition) : Bool :=
  (refreshTransition F t).cachedTarget.isSome && t.evolution.isSome &&
    decide (t.intervalMs * 1000 % 2 ^ 32 ≤ (now + 2 ^ 64 - t.lastRunUs) % 2 ^ 64)

/-- The transition after its turn. -/
def Transition.turned (t : Transition) (F : Fabric) (now : ℕ) : Transition :=
  let refreshed := refreshTransition F t
  if due F now t then { refreshed with lastRunUs := now } else refreshed

variable {W : Type*}

def Substrate.transition (S : Substrate W) (fid i : ℕ) : Option Transition :=
  (S.fields fid).transitions[i]?

/-- A pulse of the field at `now` calls the evolution function of transition `i`. -/
def evolves (B : Board W) (now fid i : ℕ) (S : Substrate W) : Bool :=
  let S := transitionsRun B now fid S i
  (S.transition fid i).any (due S.fabric now)

section Turn

variable (B : Board W) (S : Substrate W)

theorem refreshTransition_keeps (F : Fabric) (t : Transition) :
    (refreshTransition F t).evolution = t.evolution ∧
      (refreshTransition F t).intervalMs = t.intervalMs ∧
      (refreshTransition F t).lastRunUs = t.lastRunUs := by
  unfold refreshTransition
  split <;> exact ⟨rfl, rfl, rfl⟩

theorem turned_keeps (F : Fabric) (now : ℕ) (t : Transition) :
    (t.turned F now).intervalMs = t.intervalMs ∧
      (t.turned F now).lastRunUs = if due F now t then now else t.lastRunUs := by
  obtain ⟨-, hms, hlast⟩ := refreshTransition_keeps F t
  unfold Transition.turned
  dsimp only
  split
  · exact ⟨hms, rfl⟩
  · exact ⟨hms, hlast⟩

theorem transitionTurn_eq {now fid i : ℕ} {t : Transition} (ht : S.transition fid i = some t) :
    transitionTurn B now fid S i =
      match (refreshTransition S.fabric t).cachedTarget, t.evolution, due S.fabric now t with
      | some target, some fn, true =>
        storeTransition fid i ({ S with world := (B.evolve S.world fn).2 }.setState target
          (i8 (B.evolve S.world fn).1)) (t.turned S.fabric now)
      | _, _, _ => storeTransition fid i S (t.turned S.fabric now) := by
  obtain ⟨hfn, hms, hlast⟩ := refreshTransition_keeps S.fabric t
  unfold Substrate.transition at ht
  unfold transitionTurn Transition.turned due
  simp only [ht, hfn, hms, hlast]
  generalize t.intervalMs * 1000 % 2 ^ 32 = scaled
  generalize (now + 2 ^ 64 - t.lastRunUs) % 2 ^ 64 = elapsed
  cases htarget : (refreshTransition S.fabric t).cachedTarget with
  | none => simp
  | some target =>
    cases hevolution : t.evolution with
    | none => simp
    | some fn =>
      by_cases hdue : scaled ≤ elapsed
      · simp [hdue]
      · simp [hdue]

theorem storeTransition_transition (fid i : ℕ) (t : Transition) (f j : ℕ) :
    (storeTransition fid i S t).transition f j =
      if f = fid ∧ j = i then (S.transition fid i).map fun _ => t else S.transition f j := by
  unfold storeTransition Substrate.transition
  by_cases hf : f = fid
  · subst hf
    rw [setField_fields, List.getElem?_set]
    by_cases hj : j = i
    · subst hj
      rw [if_pos rfl, if_pos (And.intro rfl rfl)]
      by_cases hlt : j < (S.fields f).transitions.length
      · rw [if_pos hlt, List.getElem?_eq_getElem hlt, Option.map_some]
      · rw [if_neg hlt, List.getElem?_eq_none (by omega), Option.map_none]
    · rw [if_neg (Ne.symm hj), if_neg fun h => hj h.2]
  · rw [setField_other _ hf, if_neg fun h => hf h.1]

theorem transitionTurn_transition {now fid i : ℕ} {t : Transition}
    (ht : S.transition fid i = some t) (f j : ℕ) :
    (transitionTurn B now fid S i).transition f j =
      if f = fid ∧ j = i then some (t.turned S.fabric now) else S.transition f j := by
  rw [transitionTurn_eq B S ht]
  split
  · rw [storeTransition_transition]
    split
    · exact congrArg (Option.map fun _ => t.turned S.fabric now) ht
    · rfl
  · rw [storeTransition_transition, ht]
    rfl

theorem transitionTurn_none {now fid i : ℕ} (ht : S.transition fid i = none) :
    transitionTurn B now fid S i = S := by
  unfold Substrate.transition at ht
  simp only [transitionTurn, ht]

theorem transitionTurn_other {now fid i f j : ℕ} (h : ¬ (f = fid ∧ j = i)) :
    (transitionTurn B now fid S i).transition f j = S.transition f j := by
  cases ht : S.transition fid i with
  | none => rw [transitionTurn_none B S ht]
  | some t => rw [transitionTurn_transition B S ht, if_neg h]

theorem routeTurn_transition (fid i f j : ℕ) :
    (routeTurn B fid S i).transition f j = S.transition f j := by
  cases hr : (S.fields fid).routes[i]? with
  | none => rw [routeTurn_none B S hr]
  | some r =>
    unfold Substrate.transition
    rw [(routeTurn_touches B S hr).fields, storeRoute]
    by_cases hf : f = fid
    · subst hf
      rw [setField_fields]
    · rw [setField_other _ hf]

end Turn

section Pulse

variable (B : Board W) (S : Substrate W) (now fid : ℕ)

theorem transitionsRun_other {f j n : ℕ} (h : f = fid → n ≤ j) :
    (transitionsRun B now fid S n).transition f j = S.transition f j := by
  induction n with
  | zero => rfl
  | succ n ih =>
    rw [transitionsRun, transitionTurn_other B _ fun hj => ?_]
    · exact ih fun hf => by
        have := h hf
        omega
    · have := h hj.1
      omega

theorem transitionsRun_transition {i n : ℕ} {t : Transition} (ht : S.transition fid i = some t)
    (hn : i < n) :
    (transitionsRun B now fid S n).transition fid i =
      some (t.turned (transitionsRun B now fid S i).fabric now) := by
  induction n with
  | zero => omega
  | succ n ih =>
    rw [transitionsRun]
    by_cases hi : n = i
    · subst hi
      have hbefore : (transitionsRun B now fid S n).transition fid n = some t :=
        (transitionsRun_other B S now fid fun _ => le_refl n).trans ht
      rw [transitionTurn_transition B _ hbefore, if_pos ⟨rfl, rfl⟩]
    · rw [transitionTurn_other B _ fun h => hi h.2.symm]
      exact ih (by omega)

theorem routesRun_transition (n f j : ℕ) :
    (routesRun B fid S n).transition f j = S.transition f j := by
  induction n with
  | zero => rfl
  | succ n ih => exact (routeTurn_transition B _ fid n f j).trans ih

theorem processTransitions_transition {i : ℕ} {t : Transition} (f : ℕ) (lock : Bool)
    (ht : S.transition fid i = some t) :
    (processTransitions B lock now f S).2.transition fid i = some
      (if lock = true ∧ f = fid then t.turned (transitionsRun B now fid S i).fabric now else t) := by
  have hpulses : ∀ (T : Substrate W) (n : ℕ),
      (T.setField f { T.fields f with totalPulses := n }).transition fid i = T.transition fid i := by
    intro T n
    unfold Substrate.transition
    by_cases hf : fid = f
    · subst hf
      rw [setField_fields]
    · rw [setField_other _ hf]
  unfold processTransitions
  cases lock with
  | false => exact ht
  | true =>
    rw [if_neg (by decide)]
    refine (hpulses _ _).trans ?_
    rw [atTurn, routesRun_transition]
    by_cases hf : f = fid
    · subst hf
      rw [if_pos ⟨rfl, rfl⟩]
      exact transitionsRun_transition B S now f ht (List.getElem?_eq_some_iff.mp ht).1
    · rw [if_neg fun h => hf h.2]
      exact (transitionsRun_other B S now f fun h => absurd h.symm hf).trans ht

theorem evolves_eq {i : ℕ} {t : Transition} (ht : S.transition fid i = some t) :
    evolves B now fid i S = due (transitionsRun B now fid S i).fabric now t := by
  have hbefore := (transitionsRun_other B S now fid fun _ => le_refl i).trans ht
  unfold evolves
  dsimp only
  rw [hbefore]
  rfl

end Pulse

/-- The substrate, and the pulse times at which the evolution function of one transition was
called, the last one first. -/
structure Paced (W : Type*) where
  substrate : Substrate W
  runs : List ℕ

inductive RhythmOp where
  | pulse (lock : Bool) (now fid : ℕ)
  | other

/-- Pulses of any field, and between them anything that leaves the interval and the last run
of the transition alone. -/
inductive RhythmStep (B : Board W) (fid i : ℕ) : Paced W → RhythmOp → Paced W → Prop where
  | pulse (T : Paced W) (lock : Bool) (now f : ℕ) :
      RhythmStep B fid i T (.pulse lock now f)
        ⟨(processTransitions B lock now f T.substrate).2,
          if lock && decide (f = fid) && evolves B now fid i T.substrate then now :: T.runs
          else T.runs⟩
  | other (T : Paced W) (S : Substrate W) (t t' : Transition)
      (ht : T.substrate.transition fid i = some t) (ht' : S.transition fid i = some t')
      (hms : t'.intervalMs = t.intervalMs) (hlast : t'.lastRunUs = t.lastRunUs) :
      RhythmStep B fid i T .other { T with substrate := S }

/-- The clock is a word and, at a pulse of the field, not behind a run already made. -/
def Clocked (fid i : ℕ) (T : Paced W) : RhythmOp → Prop
  | .pulse _ now f => now < 2 ^ 64 ∧ (f = fid → T.runs ≠ [] →
      ∀ t, T.substrate.transition fid i = some t → t.lastRunUs ≤ now)
  | .other => True

/-- No two runs are less than the interval apart. -/
def Spaced (ms : ℕ) (runs : List ℕ) : Prop :=
  runs.Pairwise fun later earlier => earlier + ms * 1000 ≤ later

/-- The transition remembers the last run, and the runs are spaced. -/
structure Keeping (fid i ms : ℕ) (T : Paced W) : Prop where
  transition : ∃ t, T.substrate.transition fid i = some t ∧ t.intervalMs = ms ∧
    ∀ run ∈ T.runs, run ≤ t.lastRunUs
  spaced : Spaced ms T.runs

/-- The subtraction does not wrap on a clock that has not gone back. -/
theorem elapsed_eq {last now : ℕ} (hnow : now < 2 ^ 64) (hlast : last ≤ now) :
    (now + 2 ^ 64 - last) % 2 ^ 64 = now - last := by
  rw [show now + 2 ^ 64 - last = now - last + 2 ^ 64 by omega, Nat.add_mod_right,
    Nat.mod_eq_of_lt (by omega)]

section Run

variable {B : Board W} {fid i ms : ℕ} {T T' : Paced W}

/-- A run that is due comes an interval after the last one. -/
theorem Keeping.evolve (h : Keeping fid i ms T) (hword : ms * 1000 < 2 ^ 32) {t : Transition}
    (ht : T.substrate.transition fid i = some t) {F : Fabric} {now : ℕ} (hnow : now < 2 ^ 64)
    (hclock : T.runs ≠ [] → t.lastRunUs ≤ now) (hdue : due F now t = true) :
    Spaced ms (now :: T.runs) ∧ ∀ run ∈ now :: T.runs, run ≤ now := by
  obtain ⟨q, hq, hms, hruns⟩ := h.transition
  rw [ht, Option.some.injEq] at hq
  subst hq
  have hgap : ∀ run ∈ T.runs, run + ms * 1000 ≤ now := by
    intro run hrun
    have hlast := hclock (List.ne_nil_of_mem hrun)
    have hrun := hruns run hrun
    unfold due at hdue
    simp only [Bool.and_eq_true, decide_eq_true_eq] at hdue
    obtain ⟨-, hle⟩ := hdue
    rw [hms, Nat.mod_eq_of_lt hword, elapsed_eq hnow hlast] at hle
    omega
  refine ⟨List.pairwise_cons.mpr ⟨hgap, h.spaced⟩, fun run hrun => ?_⟩
  rcases List.mem_cons.mp hrun with rfl | hrun
  · exact le_refl _
  · have := hgap run hrun
    omega

theorem Keeping.step (hword : ms * 1000 < 2 ^ 32) (h : Keeping fid i ms T) {op : RhythmOp}
    (hstep : Guarded (Clocked fid i) (RhythmStep B fid i) T op T') : Keeping fid i ms T' := by
  obtain ⟨hclock, hstep⟩ := hstep
  obtain ⟨t, ht, hms, hruns⟩ := h.transition
  cases hstep with
  | pulse lock now f =>
    obtain ⟨hnow, hlast⟩ := hclock
    have hpulsed := processTransitions_transition B T.substrate now fid f lock ht
    obtain ⟨hms', hlast'⟩ := turned_keeps (transitionsRun B now fid T.substrate i).fabric now t
    by_cases hf : lock = true ∧ f = fid
    · obtain ⟨rfl, rfl⟩ := hf
      rw [if_pos ⟨rfl, rfl⟩] at hpulsed
      have hrun : (true && decide (f = f) && evolves B now f i T.substrate) =
          due (transitionsRun B now f T.substrate i).fabric now t := by
        rw [evolves_eq B T.substrate now f ht, decide_eq_true rfl]
        rfl
      rw [hrun]
      cases hdue : due (transitionsRun B now f T.substrate i).fabric now t with
      | false =>
        rw [hdue, if_neg Bool.false_ne_true] at hlast'
        exact ⟨⟨_, hpulsed, hms'.trans hms, fun run hr => (hruns run hr).trans_eq hlast'.symm⟩,
          h.spaced⟩
      | true =>
        rw [hdue, if_pos rfl] at hlast'
        obtain ⟨hspaced, hle⟩ := h.evolve hword ht hnow (fun hne => hlast rfl hne t ht) hdue
        exact ⟨⟨_, hpulsed, hms'.trans hms, fun run hr => (hle run hr).trans_eq hlast'.symm⟩,
          hspaced⟩
    · rw [if_neg hf] at hpulsed
      have hskip : (lock && decide (f = fid) && evolves B now fid i T.substrate) = false := by
        rw [Bool.and_eq_false_iff, Bool.and_eq_false_iff]
        refine .inl ?_
        cases lock with
        | false => exact .inl rfl
        | true => exact .inr (decide_eq_false fun he => hf ⟨rfl, he⟩)
      rw [hskip]
      exact ⟨⟨t, hpulsed, hms, hruns⟩, h.spaced⟩
  | other S q t' hq ht' hms' hlast' =>
    rw [ht, Option.some.injEq] at hq
    subst hq
    exact ⟨⟨t', ht', hms'.trans hms, fun run hr => (hruns run hr).trans_eq hlast'.symm⟩,
      h.spaced⟩

end Run

/-- Before its first run. -/
def Unrun (fid i ms : ℕ) (T : Paced W) : Prop :=
  T.runs = [] ∧ ∃ t, T.substrate.transition fid i = some t ∧ t.intervalMs = ms

theorem spaced_of_word (B : Board W) {fid i ms : ℕ} (hword : ms * 1000 < 2 ^ 32)
    {T₀ T : Paced W} {ops : List RhythmOp} (hstart : Unrun fid i ms T₀)
    (hrun : Run (Guarded (Clocked fid i) (RhythmStep B fid i)) T₀ ops T) : Spaced ms T.runs := by
  obtain ⟨hnone, t, ht, hms⟩ := hstart
  have h : Keeping fid i ms T₀ := by
    refine ⟨⟨t, ht, hms, ?_⟩, ?_⟩ <;> rw [hnone]
    · intro run hr
      cases hr
    · exact .nil
  exact (hrun.invariant (Keeping fid i ms) (fun _ _ _ hT hstep => hT.step hword hstep) h).spaced

section Wrap

variable (B : Board W) (w : W) (ms : ℕ)

/-- A resolved transition that last ran at `last`. -/
def resolvedTransition (last : ℕ) : Transition := ⟨ascii "rhythm", zeroCoord, some 0, ms, last, some 0, 0⟩

def rhythmSubstrate (last : ℕ) : Substrate W where
  fabric := blankFabric
  fields _ := ⟨ascii "rhythm", [], [resolvedTransition ms last], 0⟩
  globalFields := [0]
  world := w

theorem rhythmSubstrate_transition (last : ℕ) :
    (rhythmSubstrate w ms last).transition 0 0 = some (resolvedTransition ms last) := rfl

theorem rhythmSubstrate_evolves {last now : ℕ} (hnow : now < 2 ^ 64) (hlast : last ≤ now)
    (hgap : ms * 1000 % 2 ^ 32 ≤ now - last) :
    evolves B now 0 0 (rhythmSubstrate w ms last) = true := by
  have hle : ms * 1000 % 2 ^ 32 ≤ (now + 2 ^ 64 - last) % 2 ^ 64 := by
    rw [elapsed_eq hnow hlast]
    exact hgap
  rw [evolves_eq B _ now 0 (rhythmSubstrate_transition w ms last)]
  unfold due
  rw [Bool.and_eq_true]
  exact ⟨rfl, decide_eq_true hle⟩

/-- Two pulses run the transition as far apart as the wrapped product says. -/
theorem runs_wrapped : ∃ ops T,
    Run (Guarded (Clocked 0 0) (RhythmStep B 0 0)) ⟨rhythmSubstrate w ms 0, []⟩ ops T ∧
      T.runs = [2 * (ms * 1000 % 2 ^ 32), ms * 1000 % 2 ^ 32] := by
  have hlt : ms * 1000 % 2 ^ 32 < 2 ^ 32 := Nat.mod_lt _ (by decide)
  have hfirst := @rhythmSubstrate_evolves W B w ms 0 (ms * 1000 % 2 ^ 32) (by omega)
    (Nat.zero_le _) (by omega)
  have hsecond := @rhythmSubstrate_evolves W B w ms (ms * 1000 % 2 ^ 32)
    (2 * (ms * 1000 % 2 ^ 32)) (by omega) (by omega) (by omega)
  generalize ms * 1000 % 2 ^ 32 = k at hlt hfirst hsecond
  have hpulse := @RhythmStep.pulse W B 0 0 ⟨rhythmSubstrate w ms 0, []⟩ true k 0
  have hagain := @RhythmStep.pulse W B 0 0 ⟨rhythmSubstrate w ms k, [k]⟩ true (2 * k) 0
  dsimp only at hpulse hagain
  rw [hfirst] at hpulse
  rw [hsecond] at hagain
  have hturned := processTransitions_transition B (rhythmSubstrate w ms 0) k 0 0 true
    (rhythmSubstrate_transition w ms 0)
  obtain ⟨hms, hlast⟩ := turned_keeps
    (transitionsRun B k 0 (rhythmSubstrate w ms 0) 0).fabric k (resolvedTransition ms 0)
  rw [← evolves_eq B _ k 0 (rhythmSubstrate_transition w ms 0), hfirst] at hlast
  have hother := @RhythmStep.other W B 0 0
    ⟨(processTransitions B true k 0 (rhythmSubstrate w ms 0)).2, [k]⟩ (rhythmSubstrate w ms k)
    _ _ hturned (rhythmSubstrate_transition w ms k) hms.symm hlast.symm
  have hstart : Clocked 0 0 (⟨rhythmSubstrate w ms 0, []⟩ : Paced W) (.pulse true k 0) :=
    ⟨by omega, fun _ hne => absurd rfl hne⟩
  have hlater : Clocked 0 0 (⟨rhythmSubstrate w ms k, [k]⟩ : Paced W) (.pulse true (2 * k) 0) := by
    refine ⟨by omega, fun _ _ t ht => ?_⟩
    cases ht
    change k ≤ 2 * k
    omega
  exact ⟨[.pulse true k 0, .other, .pulse true (2 * k) 0], _,
    .cons ⟨hstart, hpulse⟩ (.cons ⟨trivial, hother⟩ (.single ⟨hlater, hagain⟩)), rfl⟩

end Wrap

/-- On a clock that does not go back behind a run, transitions of an interval never run too
early exactly when the interval in microseconds fits a word. -/
theorem evolution_spaced_iff (B : Board W) (w : W) (ms : ℕ) :
    (∀ fid i (T₀ T : Paced W) ops, Unrun fid i ms T₀ →
      Run (Guarded (Clocked fid i) (RhythmStep B fid i)) T₀ ops T → Spaced ms T.runs) ↔
      ms * 1000 < 2 ^ 32 := by
  constructor
  · intro h
    obtain ⟨ops, T, hrun, hruns⟩ := runs_wrapped B w ms
    have hspaced := h 0 0 _ T ops ⟨rfl, _, rhythmSubstrate_transition w ms 0, rfl⟩ hrun
    rw [hruns] at hspaced
    have hgap := List.rel_of_pairwise_cons hspaced List.mem_cons_self
    by_contra hword
    have hlt : ms * 1000 % 2 ^ 32 < 2 ^ 32 := Nat.mod_lt _ (by decide)
    omega
  · intro hword fid i T₀ T ops hstart hrun
    exact spaced_of_word B hword hstart hrun

/-- The shortest interval that wraps, 71 minutes, is run again after 704 microseconds. -/
theorem evolution_early : ∃ ops T,
    Run (Guarded (Clocked 0 0) (RhythmStep idleBoard 0 0))
      ⟨rhythmSubstrate () 4294968 0, []⟩ ops T ∧
      T.runs = [1408, 704] ∧ ¬ Spaced 4294968 T.runs := by
  obtain ⟨ops, T, hrun, hruns⟩ := runs_wrapped idleBoard () 4294968
  refine ⟨ops, T, hrun, hruns, ?_⟩
  rw [hruns]
  exact fun h => absurd (List.rel_of_pairwise_cons h List.mem_cons_self) (by decide)

end ReflexOS.Goose
