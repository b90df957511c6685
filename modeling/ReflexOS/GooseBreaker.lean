import ReflexOS.GooseNode
import ReflexOS.Runs

set_option autoImplicit false

/-!
# Runs of the circuit breaker

A tick is remembered by the raw assessment it made and the published state before and after it.
The counter of the breaker is the number of ticks that have waited at the published level.
-/
namespace ReflexOS.Goose
open VmTernary Runs

structure Tick where
  raw : ℤ
  before : ℤ
  after : ℤ
deriving DecidableEq

/-- The tick found a better state than level `s` and stayed there. -/
def Tick.waits (s : ℤ) (t : Tick) : Bool := decide (t.before = s ∧ t.after = s ∧ s < t.raw)

/-- The breaker with its ticks, the last one first. -/
structure Watched where
  breaker : Metabolism
  ticks : List Tick

inductive BreakerCall where
  | sync (freeBytes : ℕ) (stats : MeshStats) (F : Fabric)
  | override (vital : CName) (state : ℤ)
  | clear (F : Fabric)
  | init (atlas : Atlas) (lock : Bool) (F : Fabric)

/-- The assessment `goose_metabolic_sync` makes of the vitals it has just updated. -/
def assess (freeBytes : ℕ) (stats : MeshStats) (F : Fabric) (E : Metabolism) : ℤ :=
  let F := if E.overrideHeap.isNone then writeVital F E.heapCell (computeHeapState freeBytes) else F
  let F := (scanMesh stats F E).1
  rawMetabolic (readVital F E.overrideTemp E.tempCell 0) (readVital F E.overrideBatt E.battCell 1)
    (readVital F E.overrideHeap E.heapCell 1)

/-- The fabric is the one the call finds: what happens to it between two calls is left open. -/
def Watched.perform (B : Watched) : BreakerCall → Watched
  | .sync freeBytes stats F =>
    let E := (metabolicSync freeBytes stats F B.breaker).2
    ⟨E, ⟨assess freeBytes stats F B.breaker, B.breaker.metabolicState, E.metabolicState⟩ :: B.ticks⟩
  | .override vital state => ⟨(metabolicOverride vital state B.breaker).2, B.ticks⟩
  | .clear F => ⟨(metabolicClearOverrides F B.breaker).2, B.ticks⟩
  | .init atlas lock F => ⟨(metabolicInit atlas lock F B.breaker).2, B.ticks⟩

def BreakerStep (B : Watched) (c : BreakerCall) (B' : Watched) : Prop := B' = B.perform c

/-- The statics of the module when the system starts. -/
def metabolismAtStart : Metabolism where
  tempCell := none
  battCell := none
  meshCell := none
  heapCell := none
  metabolicCell := none
  overrideTemp := none
  overrideBatt := none
  overrideMesh := none
  overrideHeap := none
  lastRxTotal := 0
  meshWindow := ⟨0, 0, 0, 0⟩
  metabolicState := 1
  recoveryTicks := 0

/-- As many ticks as a recovery takes, but the one in progress, have waited at level `s`. -/
def Waited (s : ℤ) (ticks : List Tick) : Prop :=
  metabolicRecoveryTicks - 1 ≤ ticks.length ∧
    ∀ t ∈ ticks.take (metabolicRecoveryTicks - 1), t.before = s ∧ t.after = s ∧ s < t.raw

/-- What a tick that assesses `raw` may publish. -/
structure Regulated (B : Watched) (raw after : ℤ) : Prop where
  never_better : after ≤ raw
  drops : raw < B.breaker.metabolicState → after = raw
  one_level : B.breaker.metabolicState < after → after = B.breaker.metabolicState + 1
  rises_iff : B.breaker.metabolicState < after ↔
    B.breaker.metabolicState < raw ∧ Waited B.breaker.metabolicState B.ticks

theorem length_takeWhile_iff {α : Type*} {p : α → Bool} {n : ℕ} {l : List α} :
    n ≤ (l.takeWhile p).length ↔ n ≤ l.length ∧ ∀ x ∈ l.take n, p x = true := by
  induction l generalizing n with
  | nil => simp
  | cons a l ih =>
    cases n with
    | zero => simp
    | succ n =>
      cases ha : p a
      · simp [ha]
      · simp [ha, ih]

/-- What one assessment does to the level and to the counter. -/
theorem computeCircuitBreaker_cases (temp batt heap : ℤ) {E : Metabolism}
    (hs : IsTrit E.metabolicState) (hk : E.recoveryTicks < metabolicRecoveryTicks) :
    ∃ s k, (computeCircuitBreaker temp batt heap E).metabolicState = s ∧
      (computeCircuitBreaker temp batt heap E).recoveryTicks = k ∧
      (rawMetabolic temp batt heap < E.metabolicState ∧ s = rawMetabolic temp batt heap ∧ k = 0 ∨
        E.metabolicState < rawMetabolic temp batt heap ∧
          E.recoveryTicks + 1 < metabolicRecoveryTicks ∧ s = E.metabolicState ∧
          k = E.recoveryTicks + 1 ∨
        E.metabolicState < rawMetabolic temp batt heap ∧
          E.recoveryTicks + 1 = metabolicRecoveryTicks ∧ s = E.metabolicState + 1 ∧ k = 0 ∨
        rawMetabolic temp batt heap = E.metabolicState ∧ s = E.metabolicState ∧ k = 0) := by
  refine ⟨_, _, rfl, rfl, ?_⟩
  have hraw := rawMetabolic_isTrit temp batt heap
  have hwrap : (E.recoveryTicks + 1) % 2 ^ 32 = E.recoveryTicks + 1 := by
    simp only [metabolicRecoveryTicks] at hk
    omega
  unfold computeCircuitBreaker
  dsimp only
  rw [hwrap]
  split_ifs with hdrop hrise hready
  · exact .inl ⟨hdrop, rfl, rfl⟩
  · have hnext : IsTrit (E.metabolicState + 1) := by
      obtain ⟨hlo, -⟩ := hs
      obtain ⟨-, hhi⟩ := hraw
      constructor <;> omega
    exact .inr (.inr (.inl ⟨hrise, by omega, hnext.i8, rfl⟩))
  · exact .inr (.inl ⟨hrise, by omega, rfl, rfl⟩)
  · exact .inr (.inr (.inr ⟨by omega, rfl, rfl⟩))

theorem scanMesh_level (stats : MeshStats) (F : Fabric) (E : Metabolism) :
    (scanMesh stats F E).2.metabolicState = E.metabolicState ∧
      (scanMesh stats F E).2.recoveryTicks = E.recoveryTicks := by
  unfold scanMesh
  split <;> exact ⟨rfl, rfl⟩

theorem metabolicSync_cell {B : Watched} (freeBytes : ℕ) (stats : MeshStats) (F : Fabric) {v : ℕ}
    (hv : B.breaker.metabolicCell = some v) :
    ((metabolicSync freeBytes stats F B.breaker).1.cells v).state =
      (metabolicSync freeBytes stats F B.breaker).2.metabolicState := by
  have hkept : ∀ temp batt heap, ∀ E : Metabolism,
      (computeCircuitBreaker temp batt heap E).metabolicCell = E.metabolicCell := by
    intro temp batt heap E
    unfold computeCircuitBreaker
    dsimp only
    split_ifs <;> rfl
  have hscan : ∀ F : Fabric, (scanMesh stats F B.breaker).2.metabolicCell = some v := by
    intro F
    unfold scanMesh
    split <;> exact hv
  unfold metabolicSync
  dsimp only
  rw [hkept, hscan]
  exact setState_self _ _ _

/-- The level is a trit and the counter is the number of ticks that have waited there. -/
structure Counted (B : Watched) : Prop where
  level : IsTrit B.breaker.metabolicState
  below : B.breaker.recoveryTicks < metabolicRecoveryTicks
  streak : B.breaker.metabolicState < 1 → B.breaker.recoveryTicks =
    (B.ticks.takeWhile (Tick.waits B.breaker.metabolicState)).length

section Sync

variable {B : Watched} (h : Counted B) (freeBytes : ℕ) (stats : MeshStats) (F : Fabric)
include h

/-- A tick falls, waits, climbs one level or stays. -/
theorem Counted.sync_cases : ∃ raw s k, assess freeBytes stats F B.breaker = raw ∧
    (metabolicSync freeBytes stats F B.breaker).2.metabolicState = s ∧
    (metabolicSync freeBytes stats F B.breaker).2.recoveryTicks = k ∧ IsTrit raw ∧
    (raw < B.breaker.metabolicState ∧ s = raw ∧ k = 0 ∨
      B.breaker.metabolicState < raw ∧ B.breaker.recoveryTicks + 1 < metabolicRecoveryTicks ∧
        s = B.breaker.metabolicState ∧ k = B.breaker.recoveryTicks + 1 ∨
      B.breaker.metabolicState < raw ∧ B.breaker.recoveryTicks + 1 = metabolicRecoveryTicks ∧
        s = B.breaker.metabolicState + 1 ∧ k = 0 ∨
      raw = B.breaker.metabolicState ∧ s = B.breaker.metabolicState ∧ k = 0) := by
  obtain ⟨F', hF'⟩ : ∃ F', F' = if B.breaker.overrideHeap.isNone then
      writeVital F B.breaker.heapCell (computeHeapState freeBytes) else F := ⟨_, rfl⟩
  obtain ⟨hstate, hticks⟩ := scanMesh_level stats F' B.breaker
  obtain ⟨s, k, hs, hk, hcases⟩ := computeCircuitBreaker_cases
    (readVital (scanMesh stats F' B.breaker).1 B.breaker.overrideTemp B.breaker.tempCell 0)
    (readVital (scanMesh stats F' B.breaker).1 B.breaker.overrideBatt B.breaker.battCell 1)
    (readVital (scanMesh stats F' B.breaker).1 B.breaker.overrideHeap B.breaker.heapCell 1)
    (E := (scanMesh stats F' B.breaker).2) (hstate ▸ h.level) (hticks ▸ h.below)
  rw [hstate, hticks] at hcases
  refine ⟨_, s, k, rfl, ?_, ?_, rawMetabolic_isTrit _ _ _, ?_⟩
  · rw [metabolicSync, ← hF']
    exact hs
  · rw [metabolicSync, ← hF']
    exact hk
  · rw [assess, ← hF']
    exact hcases

theorem Counted.sync : Counted (B.perform (.sync freeBytes stats F)) := by
  obtain ⟨raw, s, k, hraw, hs, hk, htrit, hcases⟩ := h.sync_cases freeBytes stats F
  have hlevel := h.level
  obtain ⟨hlo, hhi⟩ := h.level
  obtain ⟨hrlo, hrhi⟩ := htrit
  have hpos : 0 < metabolicRecoveryTicks := by decide
  unfold Watched.perform
  dsimp only
  rw [hraw, hs]
  have htop : ∀ s' : ℤ, B.breaker.metabolicState ≠ s' →
      Tick.waits s' ⟨raw, B.breaker.metabolicState, s⟩ = false := by
    intro s' hne
    exact decide_eq_false fun hw => hne hw.1
  have hfresh : k = 0 → Tick.waits s ⟨raw, B.breaker.metabolicState, s⟩ = false →
      k = ((⟨raw, B.breaker.metabolicState, s⟩ :: B.ticks).takeWhile (Tick.waits s)).length := by
    intro hk0 hw
    rw [List.takeWhile_cons_of_neg (by simp [hw])]
    exact hk0
  refine ⟨?_, ?_, fun hlt => ?_⟩
  · change IsTrit (metabolicSync freeBytes stats F B.breaker).2.metabolicState
    rw [hs]
    rcases hcases with ⟨-, rfl, -⟩ | ⟨-, -, rfl, -⟩ | ⟨hrise, -, rfl, -⟩ | ⟨-, rfl, -⟩
    · exact ⟨hrlo, hrhi⟩
    · exact hlevel
    · constructor <;> omega
    · exact hlevel
  · change (metabolicSync freeBytes stats F B.breaker).2.recoveryTicks < metabolicRecoveryTicks
    rw [hk]
    rcases hcases with ⟨-, -, rfl⟩ | ⟨-, hk', -, rfl⟩ | ⟨-, -, -, rfl⟩ | ⟨-, -, rfl⟩
    · exact hpos
    · exact hk'
    · exact hpos
    · exact hpos
  · dsimp only at hlt ⊢
    rw [hs] at hlt
    rw [hk, hs]
    rcases hcases with ⟨hdrop, rfl, hk0⟩ | ⟨hrise, -, rfl, rfl⟩ | ⟨-, -, rfl, hk0⟩ |
      ⟨hsame, rfl, hk0⟩
    · exact hfresh hk0 (htop _ (by omega))
    · have hwait : Tick.waits B.breaker.metabolicState
          ⟨raw, B.breaker.metabolicState, B.breaker.metabolicState⟩ = true :=
        decide_eq_true ⟨rfl, rfl, hrise⟩
      rw [List.takeWhile_cons_of_pos hwait, List.length_cons, h.streak (by omega)]
    · exact hfresh hk0 (htop _ (by omega))
    · exact hfresh hk0 (decide_eq_false fun hw => absurd hw.2.2 (by dsimp only; omega))

theorem Counted.regulated : Regulated B (assess freeBytes stats F B.breaker)
    (metabolicSync freeBytes stats F B.breaker).2.metabolicState := by
  obtain ⟨raw, s, k, hraw, hs, -, ⟨-, hrhi⟩, hcases⟩ := h.sync_cases freeBytes stats F
  rw [hraw, hs]
  have hbelow := h.below
  have hwaited : B.breaker.metabolicState < raw → (Waited B.breaker.metabolicState B.ticks ↔
      metabolicRecoveryTicks ≤ B.breaker.recoveryTicks + 1) := by
    intro hrise
    rw [h.streak (by omega), ← Nat.sub_le_iff_le_add, length_takeWhile_iff]
    exact and_congr_right fun _ => forall₂_congr fun t _ => decide_eq_true_iff.symm
  refine ⟨by omega, fun hdrop => by omega, fun hup => by omega, ?_, ?_⟩
  · intro hup
    have hrise : B.breaker.metabolicState < raw := by omega
    exact ⟨hrise, (hwaited hrise).mpr (by omega)⟩
  · rintro ⟨hrise, hw⟩
    have := (hwaited hrise).mp hw
    omega

end Sync

theorem Counted.perform {B : Watched} (h : Counted B) (c : BreakerCall) :
    Counted (B.perform c) := by
  have htop : IsTrit 1 := by decide
  have hpos : 0 < metabolicRecoveryTicks := by decide
  cases c with
  | sync freeBytes stats F => exact h.sync freeBytes stats F
  | override vital state =>
    have hkept : (metabolicOverride vital state B.breaker).2.metabolicState =
        B.breaker.metabolicState ∧
        (metabolicOverride vital state B.breaker).2.recoveryTicks = B.breaker.recoveryTicks := by
      unfold metabolicOverride
      split
      · exact ⟨rfl, rfl⟩
      · split <;> exact ⟨rfl, rfl⟩
    obtain ⟨hstate, hticks⟩ := hkept
    refine ⟨?_, ?_, ?_⟩ <;> simp only [Watched.perform, hstate, hticks]
    · exact h.level
    · exact h.below
    · exact h.streak
  | clear F => exact ⟨htop, hpos, fun hlt => absurd hlt (lt_irrefl 1)⟩
  | init atlas lock F => exact ⟨htop, h.below, fun hlt => absurd hlt (lt_irrefl 1)⟩

theorem counted_start : Counted ⟨metabolismAtStart, []⟩ :=
  ⟨by decide, by decide, fun hlt => absurd hlt (lt_irrefl 1)⟩

/-- In every run of the module, a tick degrades at once and recovers level by level. -/
theorem breaker_regulated {cs : List BreakerCall} {B : Watched}
    (hrun : Run BreakerStep ⟨metabolismAtStart, []⟩ cs B) (freeBytes : ℕ) (stats : MeshStats)
    (F : Fabric) :
    Regulated B (assess freeBytes stats F B.breaker)
      (metabolicSync freeBytes stats F B.breaker).2.metabolicState ∧
      ∀ v, B.breaker.metabolicCell = some v →
        ((metabolicSync freeBytes stats F B.breaker).1.cells v).state =
          (metabolicSync freeBytes stats F B.breaker).2.metabolicState := by
  have h : Counted B := by
    refine hrun.invariant Counted ?_ counted_start
    rintro B c _ hB rfl
    exact hB.perform c
  exact ⟨h.regulated freeBytes stats F, fun v hv => metabolicSync_cell freeBytes stats F hv⟩

/-- The tick after a battery that reads low. -/
theorem breaker_regulated_low : ∃ B,
    Run BreakerStep ⟨metabolismAtStart, []⟩ [.override (ascii "battery") (-1)] B ∧
      Regulated B (assess 65536 ⟨0, 0, 0, 0, 0, 0⟩ coldFabric B.breaker)
        (metabolicSync 65536 ⟨0, 0, 0, 0, 0, 0⟩ coldFabric B.breaker).2.metabolicState :=
  ⟨_, .single rfl, (breaker_regulated (.single rfl) 65536 ⟨0, 0, 0, 0, 0, 0⟩ coldFabric).1⟩

end ReflexOS.Goose
