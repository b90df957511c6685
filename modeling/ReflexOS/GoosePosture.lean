import ReflexOS.GooseAtmosphere
import ReflexOS.Runs

set_option autoImplicit false

/-!
# The posture of the swarm

Arcs move the accumulator and publish its threshold; the decay only moves the accumulator.
-/
namespace ReflexOS.Goose
open VmTernary Runs

variable {W : Type*}

/-- A board's tapestry with its atmosphere. -/
abbrev Swarm (W : Type*) := Tapestry W × Atmosphere

inductive SwarmEvent where
  | arc (calls : RecvCalls) (src : Mac) (data : List UInt8)
  | sync

section Definitions

variable (atlas : Atlas) (hmac : List UInt8 → List UInt8) (localMac : Mac)

def swarmStep (s : Swarm W) : SwarmEvent → Swarm W
  | .arc calls src data => atmosphereRecv atlas hmac calls localMac src data s.1 s.2
  | .sync => (s.1, swarmSync s.2)

/-- Of the packets that are accepted, only POSTURE arcs. -/
def OnlyPosture : SwarmEvent → Prop
  | .arc _ src data => ∀ p, acceptArc hmac localMac src data = some p → p.op = arcOpPosture
  | .sync => True

def SwarmStep (s : Swarm W) (ev : SwarmEvent) (s' : Swarm W) : Prop :=
  OnlyPosture hmac localMac ev ∧ s' = swarmStep atlas hmac localMac s ev

/-- No arc takes the accumulator below zero, no decay takes it below the threshold. -/
def Steady (s : Swarm W) : SwarmEvent → Prop
  | .arc calls src data => ∀ p, acceptArc hmac localMac src data = some p →
      (replaySeenOrRecord s.2.replayCache src p.nonce calls.now).1 = false →
      0 ≤ s.2.swarmAccumulator + arcState p * postureWeight p
  | .sync => s.2.swarmAccumulator ≠ swarmThreshold

end Definitions

/-- The posture cell stands in the fabric with the state. -/
def ShowsPosture (F : Fabric) (state : ℤ) : Prop :=
  ∃ coord v, BoundTo F swarmPostureName coord v ∧ (F.cells v).state = state

structure Consensus (s : Swarm W) : Prop where
  shown : ShowsPosture s.1.substrate.fabric (postureOf s.2.swarmAccumulator)
  lower : -swarmAccumMax ≤ s.2.swarmAccumulator
  upper : s.2.swarmAccumulator ≤ swarmAccumMax
  settles : ∃ n, (swarmSync^[n] s.2).swarmAccumulator = 0

/-- As `goose_atmosphere_init` leaves it. -/
structure PostureSeeded (s : Swarm W) : Prop where
  shown : ShowsPosture s.1.substrate.fabric 0
  accumulator : s.2.swarmAccumulator = 0

section Decay

variable {A : Atmosphere}

theorem swarmSync_pos (h : 0 < A.swarmAccumulator) :
    (swarmSync A).swarmAccumulator = A.swarmAccumulator - 1 := if_pos h

theorem swarmSync_neg (h : A.swarmAccumulator < 0) : (swarmSync A).swarmAccumulator < 0 := by
  unfold swarmSync
  dsimp only
  rw [if_neg (by omega)]
  split <;> omega

theorem swarmSync_settles (h : 0 ≤ A.swarmAccumulator) :
    ∃ n, (swarmSync^[n] A).swarmAccumulator = 0 := by
  have hn : ∀ (n : ℕ) (A : Atmosphere), A.swarmAccumulator = n →
      (swarmSync^[n] A).swarmAccumulator = 0 := by
    intro n
    induction n with
    | zero => exact fun A hA => hA
    | succ n ih =>
      intro A hA
      rw [Function.iterate_succ_apply]
      apply ih
      rw [swarmSync_pos (by omega)]
      omega
  exact ⟨_, hn _ A (Int.toNat_of_nonneg h).symm⟩

theorem swarmSync_iterate_neg (h : A.swarmAccumulator < 0) (n : ℕ) :
    (swarmSync^[n] A).swarmAccumulator < 0 := by
  induction n generalizing A with
  | zero => exact h
  | succ n ih =>
    rw [Function.iterate_succ_apply]
    exact ih (swarmSync_neg h)

theorem settles_iff : (∃ n, (swarmSync^[n] A).swarmAccumulator = 0) ↔ 0 ≤ A.swarmAccumulator := by
  refine ⟨fun ⟨n, hn⟩ => ?_, swarmSync_settles⟩
  by_contra h
  have := swarmSync_iterate_neg (lt_of_not_ge h) n
  omega

theorem clampSwarm_bounds (x : ℤ) : -swarmAccumMax ≤ clampSwarm x ∧ clampSwarm x ≤ swarmAccumMax := by
  have hmax : swarmAccumMax = 100 := rfl
  unfold clampSwarm
  dsimp only
  split <;> split <;> omega

theorem clampSwarm_nonneg {x : ℤ} : 0 ≤ clampSwarm x ↔ 0 ≤ x := by
  have hmax : swarmAccumMax = 100 := rfl
  unfold clampSwarm
  dsimp only
  split <;> split <;> omega

/-- A decay changes the posture at the threshold only. -/
theorem postureOf_decay {x : ℤ} (h : 0 < x) : postureOf (x - 1) = postureOf x ↔ x ≠ swarmThreshold := by
  have hthreshold : swarmThreshold = 10 := rfl
  unfold postureOf
  split <;> split <;> omega

end Decay

section Publish

variable {F : Fabric} {state : ℤ}

theorem ShowsPosture.unique {state' : ℤ} (h : ShowsPosture F state) (h' : ShowsPosture F state') :
    state = state' := by
  obtain ⟨coord, v, hb, hv⟩ := h
  obtain ⟨coord', v', hb', hv'⟩ := h'
  have hcoord := Option.some.inj (hb.resolve.symm.trans hb'.resolve)
  subst hcoord
  have hcell := Option.some.inj (hb.getCell.symm.trans hb'.getCell)
  subst hcell
  exact hv.symm.trans hv'

theorem ShowsPosture.publish (h : ShowsPosture F state) (atlas : Atlas)
    (hmac : List UInt8 → List UInt8) (calls : RecvCalls) (M : Mesh) (accum : ℤ) :
    ShowsPosture (publishPosture atlas hmac calls F M accum).1 (postureOf accum) := by
  obtain ⟨coord, v, hb, -⟩ := h
  have hgot : gooniesResolveCell atlas hmac calls.lock calls.later F M swarmPostureName =
      (some v, F, M) := by
    rw [gooniesResolveCell_known hb.resolve, hb.getCell]
  have hpublish : (publishPosture atlas hmac calls F M accum).1 = F.setState v (postureOf accum) := by
    unfold publishPosture
    simp only [hgot]
  rw [hpublish]
  have hget := (getCellByCoord_setState v (postureOf accum) coord).trans hb.getCell
  refine ⟨coord, v, ⟨hb.resolve, hget⟩, ?_⟩
  unfold Fabric.setState
  dsimp only
  rw [Function.update_self]

end Publish

/-- What `Consensus` comes to. -/
structure InStep (s : Swarm W) : Prop where
  shown : ShowsPosture s.1.substrate.fabric (postureOf s.2.swarmAccumulator)
  lower : 0 ≤ s.2.swarmAccumulator
  upper : s.2.swarmAccumulator ≤ swarmAccumMax

theorem consensus_iff {s : Swarm W} : Consensus s ↔ InStep s := by
  have hmax : swarmAccumMax = 100 := rfl
  constructor
  · exact fun h => ⟨h.shown, settles_iff.mp h.settles, h.upper⟩
  · exact fun h => ⟨h.shown, by have := h.lower; omega, h.upper, swarmSync_settles h.lower⟩

section Step

variable {atlas : Atlas} {hmac : List UInt8 → List UInt8} {localMac : Mac} {s s' : Swarm W}

/-- A POSTURE arc is dropped, or it moves the accumulator and publishes its threshold. -/
theorem swarmStep_arc {calls : RecvCalls} {src : Mac} {data : List UInt8}
    (honly : OnlyPosture hmac localMac (.arc calls src data))
    (hs : s' = swarmStep atlas hmac localMac s (.arc calls src data)) :
    (s'.1 = s.1 ∧ s'.2.swarmAccumulator = s.2.swarmAccumulator ∧
      ∀ p, acceptArc hmac localMac src data = some p →
        (replaySeenOrRecord s.2.replayCache src p.nonce calls.now).1 = true) ∨
    ∃ p, acceptArc hmac localMac src data = some p ∧
      (replaySeenOrRecord s.2.replayCache src p.nonce calls.now).1 = false ∧
      s'.1.substrate.fabric = (publishPosture atlas hmac calls s.1.substrate.fabric s.1.mesh
        s'.2.swarmAccumulator).1 ∧
      s'.2.swarmAccumulator =
        clampSwarm (s.2.swarmAccumulator + arcState p * postureWeight p) := by
  subst hs
  cases hp : acceptArc hmac localMac src data with
  | none =>
    rw [swarmStep, atmosphereRecv_dropped hp]
    exact .inl ⟨rfl, rfl, nofun⟩
  | some p =>
    cases hseen : (replaySeenOrRecord s.2.replayCache src p.nonce calls.now).1 with
    | true =>
      rw [swarmStep, atmosphereRecv_replayed hp hseen]
      refine .inl ⟨rfl, rfl, fun q hq => ?_⟩
      cases hq
      exact hseen
    | false =>
      rw [swarmStep, atmosphereRecv_new hp hseen, handleArc_posture (honly p hp)]
      exact .inr ⟨p, rfl, hseen, rfl, rfl⟩

theorem InStep.step_iff (h : InStep s) {ev : SwarmEvent}
    (hs : SwarmStep atlas hmac localMac s ev s') : InStep s' ↔ Steady hmac localMac s ev := by
  obtain ⟨honly, hs⟩ := hs
  cases ev with
  | arc calls src data =>
    rcases swarmStep_arc honly hs with ⟨htapestry, hacc, hseen⟩ | ⟨p, hp, hnew, hfabric, hacc⟩
    · refine iff_of_true ⟨?_, hacc ▸ h.lower, hacc ▸ h.upper⟩ fun p hp hnew => ?_
      · rw [htapestry, hacc]
        exact h.shown
      · rw [hseen p hp] at hnew
        cases hnew
    · have hshown : ShowsPosture s'.1.substrate.fabric (postureOf s'.2.swarmAccumulator) := by
        rw [hfabric]
        exact h.shown.publish atlas hmac calls _ _
      constructor
      · intro h' q hq hq'
        rw [hp] at hq
        cases hq
        have hlower := h'.lower
        rw [hacc] at hlower
        exact clampSwarm_nonneg.mp hlower
      · intro hsteady
        refine ⟨hshown, ?_, ?_⟩
        · rw [hacc]
          exact clampSwarm_nonneg.mpr (hsteady p hp hnew)
        · rw [hacc]
          exact (clampSwarm_bounds _).2
  | sync =>
    subst hs
    have hlower := h.lower
    have hupper := h.upper
    by_cases hzero : s.2.swarmAccumulator = 0
    · have hsame : (swarmSync s.2).swarmAccumulator = s.2.swarmAccumulator := by
        unfold swarmSync
        simp [hzero]
      refine iff_of_true ⟨?_, hsame ▸ hlower, hsame ▸ hupper⟩ fun hten => ?_
      · change ShowsPosture _ (postureOf (swarmSync s.2).swarmAccumulator)
        rw [hsame]
        exact h.shown
      · rw [hzero] at hten
        cases hten
    · have hpos : 0 < s.2.swarmAccumulator := by omega
      have hdecay := swarmSync_pos hpos
      rw [Steady, ← postureOf_decay hpos]
      constructor
      · intro h'
        have hshown : ShowsPosture s.1.substrate.fabric
            (postureOf (swarmSync s.2).swarmAccumulator) := h'.shown
        rw [hdecay] at hshown
        exact hshown.unique h.shown
      · intro hsame
        refine ⟨?_, ?_, ?_⟩
        · change ShowsPosture _ (postureOf (swarmSync s.2).swarmAccumulator)
          rw [hdecay, hsame]
          exact h.shown
        · change 0 ≤ (swarmSync s.2).swarmAccumulator
          omega
        · change (swarmSync s.2).swarmAccumulator ≤ swarmAccumMax
          omega

end Step

theorem PostureSeeded.inStep {s : Swarm W} (h : PostureSeeded s) : InStep s := by
  have hacc := h.accumulator
  refine ⟨?_, hacc.ge, ?_⟩
  · rw [hacc]
    exact h.shown
  · rw [hacc]
    decide

/-- A board that `goose_atmosphere_init` has just seeded. -/
def seededSwarm : Swarm Unit :=
  let A : Atmosphere := ⟨emptyReplayCache, 0, 0, ⟨0, 0, 0, 0, 0, 0⟩⟩
  let started := atmosphereInit emptyAtlas true coldFabric A
  (⟨⟨started.1, fun _ => ⟨[], [], [], 0⟩, [], ()⟩, ⟨[], 0, 0, []⟩, [], 0⟩, started.2)

theorem seededSwarm_seeded : PostureSeeded seededSwarm := by
  refine ⟨⟨makeCoord 0 0 4, 2, ⟨?_, ?_⟩, ?_⟩, rfl⟩
  · decide +kernel
  · decide +kernel
  · decide +kernel

/-- A POSTURE arc of weight 4 for the state. -/
def posturePacket (state : UInt8) : ArcPacket :=
  ⟨gooseArcVersion, arcOpPosture, fun _ => 0, state, 0, 4, 0⟩

def postureMac : Mac := fun _ => 1

def postureArc (state : UInt8) : SwarmEvent :=
  .arc ⟨true, 1, 1⟩ postureMac (arcBytes (sealArc id (posturePacket state)))

theorem acceptArc_posture (state : UInt8) (hstate : -1 ≤ i8 state.toNat ∧ i8 state.toNat ≤ 1) :
    acceptArc id (fun _ => 0) postureMac (arcBytes (sealArc id (posturePacket state))) =
      some (sealArc id (posturePacket state)) :=
  acceptArc_sealed id (fun h => absurd (congrFun h 0) (by decide)) rfl hstate

end ReflexOS.Goose
