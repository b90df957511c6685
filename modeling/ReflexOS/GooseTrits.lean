import ReflexOS.GooseMetabolic
import ReflexOS.GooseSnapshot

set_option autoImplicit false

/-!
# Cells stay ternary

Whatever writes the state of a cell reads it from ternary data: other cells, clamped
orientations, or input that was tested on its way in.
-/
namespace ReflexOS.Goose
open VmTernary LinearProbing Runs

def IsTrit (z : ℤ) : Prop := -1 ≤ z ∧ z ≤ 1

instance (z : ℤ) : Decidable (IsTrit z) := inferInstanceAs (Decidable (_ ∧ _))

theorem IsTrit.i8 {z : ℤ} (h : IsTrit z) : i8 z = z := by
  obtain ⟨hlo, hhi⟩ := h
  unfold ReflexOS.i8
  omega

theorem IsTrit.cases {z : ℤ} (h : IsTrit z) : z = -1 ∨ z = 0 ∨ z = 1 := by
  obtain ⟨hlo, hhi⟩ := h
  omega

theorem IsTrit.mul {a b : ℤ} (ha : IsTrit a) (hb : IsTrit b) : IsTrit (a * b) := by
  rcases ha.cases with rfl | rfl | rfl
  · obtain ⟨hlo, hhi⟩ := hb
    constructor <;> omega
  · simp [IsTrit]
  · rw [one_mul]
    exact hb

/-- The states of the live cells are trits. -/
def TritCells (F : Fabric) : Prop := ∀ v < F.cellCount, IsTrit (F.cells v).state

/-- A pointer to a live cell, or none. -/
def Held (count : ℕ) (cell : Option ℕ) : Prop := ∀ v, cell = some v → v < count

theorem Held.mono {n m : ℕ} {cell : Option ℕ} (h : Held n cell) (hle : n ≤ m) : Held m cell :=
  fun v hv => lt_of_lt_of_le (h v hv) hle

theorem held_none (count : ℕ) : Held count none := fun _ h => nomatch h

/-- No cell goes away and no state leaves the trits. -/
structure Tame (F F' : Fabric) : Prop where
  count : F.cellCount ≤ F'.cellCount
  trits : TritCells F → TritCells F'

namespace Tame

variable {F F' F'' : Fabric}

theorem refl (F : Fabric) : Tame F F := ⟨le_refl _, id⟩

theorem trans (h : Tame F F') (h' : Tame F' F'') : Tame F F'' :=
  ⟨h.count.trans h'.count, fun ht => h'.trits (h.trits ht)⟩

theorem of_states (hcount : F'.cellCount = F.cellCount)
    (hstate : ∀ v, (F'.cells v).state = (F.cells v).state) : Tame F F' := by
  constructor
  · exact hcount.ge
  · intro ht v hv
    rw [hstate v]
    exact ht v (hcount ▸ hv)

theorem write (idx : ℕ) (c : Cell) (hc : TritCells F → IsTrit c.state) :
    Tame F { F with cells := Function.update F.cells idx c } := by
  constructor
  · exact le_refl _
  · intro ht v hv
    by_cases h : v = idx
    · subst h
      simpa using hc ht
    · simpa [h] using ht v hv

theorem setState (idx : ℕ) {state : ℤ} (hs : TritCells F → IsTrit state) :
    Tame F (F.setState idx state) := .write idx _ hs

end Tame

/-- A fabric operation that is tame and returns a live cell, if any. -/
structure Weaves (F : Fabric) (got : Option ℕ × Fabric) : Prop where
  tame : Tame F got.2
  held : Held got.2.cellCount got.1

section Weave

variable (atlas : Atlas) (lock : Bool) (F : Fabric)

theorem getCellByCoord_held (coord : Tryte9) : Held F.cellCount (getCellByCoord F coord) := by
  intro v h
  unfold getCellByCoord at h
  split at h
  · have hm := (find_some (latticeHash_lt (by decide) coord) h).2
    rw [slotMatches, Bool.and_eq_true] at hm
    exact of_decide_eq_true hm.1
  · cases h

/-- The slot is live once it is claimed, and the other cells are as before. -/
theorem claimSlot_live {F F' : Fabric} {idx : ℕ} (h : claimSlot F = some (idx, F')) :
    idx < F'.cellCount ∧ F.cellCount ≤ F'.cellCount ∧ F'.cells = F.cells ∧
      ∀ v < F'.cellCount, v ≠ idx → v < F.cellCount := by
  unfold claimSlot at h
  split at h
  · cases h
    refine ⟨Nat.lt_succ_self _, Nat.le_succ _, rfl, fun v hv hne => ?_⟩
    change v < F.cellCount + 1 at hv
    omega
  · obtain ⟨t, ht, hpair⟩ := Option.map_eq_some_iff.mp h
    cases hpair
    rw [evict_cellCount, evict_cells]
    exact ⟨lt_of_lt_of_le (findVictim_lt ht).1 (not_lt.mp ‹_›), le_refl _, rfl, fun v hv _ => hv⟩

theorem publish_weaves {F F' : Fabric} {idx : ℕ} (h : claimSlot F = some (idx, F'))
    (reg : Registry) (coord : Tryte9) (sys : Bool) :
    Weaves F (some idx, publish { F' with registry := reg } idx coord sys) := by
  obtain ⟨hlive, hcount, hcells, hold⟩ := claimSlot_live h
  refine ⟨⟨hcount, fun ht v hv => ?_⟩, fun v hv => ?_⟩
  · change IsTrit (Function.update F'.cells idx (freshCell coord sys) v).state
    by_cases hidx : v = idx
    · subst hidx
      rw [Function.update_self]
      change IsTrit 0
      decide
    · rw [Function.update_of_ne hidx, hcells]
      exact ht v (hold v hv hidx)
  · cases hv
    exact hlive

theorem allocLocked_weaves (name : Option CName) (coord : Tryte9) (sys ret : Bool) :
    Weaves F (allocLocked atlas lock F name coord sys ret) := by
  have hsame : Weaves F (none, F) := ⟨.refl F, held_none _⟩
  unfold allocLocked
  split
  · exact hsame
  cases hget : getCellByCoord F coord with
  | some e =>
    have hheld : Held F.cellCount (if ret = true then some e else none) := by
      split
      · exact hget ▸ getCellByCoord_held F coord
      · exact held_none _
    cases name with
    | none => exact ⟨.refl F, hheld⟩
    | some s => exact ⟨.of_states rfl fun _ => rfl, hheld⟩
  | none =>
    cases hclaim : claimSlot F with
    | none => exact hsame
    | some claimed =>
      obtain ⟨idx, F'⟩ := claimed
      cases name with
      | none => exact publish_weaves hclaim F'.registry coord sys
      | some s =>
        dsimp only
        split
        · -- The claim is given back.
          refine ⟨.of_states ?_ fun v => ?_, held_none _⟩
          · unfold claimSlot at hclaim
            split at hclaim
            · cases hclaim
              rw [if_pos ‹_›]
              rfl
            · obtain ⟨t, -, hpair⟩ := Option.map_eq_some_iff.mp hclaim
              cases hpair
              rw [if_neg ‹_›]
              exact evict_cellCount F _
          · rw [(claimSlot_live hclaim).2.2.1]
        · exact publish_weaves hclaim _ coord sys

theorem resolveCell_weaves (name : CName) : Weaves F (resolveCell atlas lock F name) := by
  unfold resolveCell
  split
  · exact ⟨.refl F, getCellByCoord_held F _⟩
  split
  · exact ⟨.refl F, held_none _⟩
  next e _ =>
    have hpaged := allocLocked_weaves atlas lock F (some name) e.coord true false
    dsimp only
    split
    · exact hpaged
    next idx hidx =>
      refine ⟨hpaged.tame.trans (.write idx _ fun ht => ?_), ?_⟩
      · have hstate : ∀ c : Cell, (setAgency c e.addr e.type).2.state = c.state := by
          intro c
          unfold setAgency
          split_ifs <;> rfl
        change IsTrit (setAgency _ _ _).2.state
        rw [hstate]
        exact ht idx (hpaged.held idx hidx)
      · intro v hv
        cases hv
        exact hpaged.held idx hidx

theorem fabricAllocInternal_weaves (name : Option CName) (coord : Tryte9) (sys ret : Bool) :
    Weaves F (fabricAllocInternal atlas lock F name coord sys ret) := by
  unfold fabricAllocInternal
  split
  · exact allocLocked_weaves atlas lock F name coord true ret
  have hpressed : Tame F (heapPressure atlas lock F).2 :=
    (resolveCell_weaves atlas lock F heapPressureName).tame
  dsimp only
  split
  · exact ⟨hpressed, held_none _⟩
  · have halloc := allocLocked_weaves atlas lock (heapPressure atlas lock F).2 name coord false ret
    exact ⟨hpressed.trans halloc.tame, halloc.held⟩

variable (hmac : List UInt8 → List UInt8) (now : ℕ) (M : Mesh)

theorem resolvePeer_weaves (name : CName) :
    Weaves F ((resolvePeer atlas hmac lock now F M name).1,
      (resolvePeer atlas hmac lock now F M name).2.1) := by
  have hphantom : ∀ coord, Weaves F (fabricAllocCell atlas lock F (some name) coord false) :=
    fun coord => fabricAllocInternal_weaves atlas lock F (some name) coord false false
  unfold resolvePeer
  dsimp only
  split
  next idx peer hidx _ =>
    refine ⟨(hphantom _).tame.trans (.write idx _ fun ht => ?_), fun v hv => ?_⟩
    · exact ht idx ((hphantom _).held idx hidx)
    · cases hv
      exact (hphantom _).held idx hidx
  next => exact hphantom _

theorem gooniesResolveCell_weaves (name : CName) :
    Weaves F ((gooniesResolveCell atlas hmac lock now F M name).1,
      (gooniesResolveCell atlas hmac lock now F M name).2.1) := by
  unfold gooniesResolveCell
  split
  · exact resolvePeer_weaves atlas lock F hmac now M name
  · exact resolveCell_weaves atlas lock F name

theorem seedSystemOnly_weaves (name : CName) (coord : Tryte9) {state : ℤ} (hs : IsTrit state) :
    Weaves F (seedSystemOnly atlas lock F name coord state) := by
  have hensured := fabricAllocInternal_weaves atlas lock F (some name) coord true true
  unfold seedSystemOnly fabricEnsureCell
  dsimp only
  split
  · exact hensured
  next v hv =>
    refine ⟨hensured.tame.trans (.write v _ fun _ => hs), fun w hw => ?_⟩
    cases hw
    exact hensured.held v hv

theorem seedVital_weaves (name : CName) (coord : Tryte9) {state : ℤ} (hs : IsTrit state) :
    Weaves F (seedVital atlas lock F name coord state) := by
  have hensured := fabricAllocInternal_weaves atlas lock F (some name) coord true true
  unfold seedVital fabricEnsureCell
  dsimp only
  split
  · exact hensured
  next v hv =>
    refine ⟨hensured.tame.trans (.setState v fun _ => hs), fun w hw => ?_⟩
    cases hw
    exact hensured.held v hv

/-- No cell survives a cold boot but those it seeds. -/
theorem fabricInit_tritCells (purpose : Bool) : TritCells (fabricInit atlas true purpose F) := by
  have hreset : TritCells (fabricReset true F) := by
    intro v hv
    exact absurd hv (Nat.not_lt_zero v)
  have hseed : ∀ (G : Fabric) (name : CName) (coord : Tryte9), TritCells G →
      TritCells (seedCell atlas G name coord) := by
    intro G name coord hG
    exact (fabricAllocInternal_weaves atlas true G (some name) coord true false).tame.trits hG
  have horigin := hseed _ seedLedIntent (makeCoord 0 0 1) (hseed _ seedOrigin (makeCoord 0 0 0) hreset)
  unfold fabricInit
  dsimp only
  split
  · have hensured := fabricAllocInternal_weaves atlas true (seedCell atlas (seedCell atlas
      (fabricReset true F) seedOrigin (makeCoord 0 0 0)) seedLedIntent (makeCoord 0 0 1))
      (some seedPurpose) (makeCoord 0 0 2) true true
    have htrit := hensured.tame.trits horigin
    unfold seedPurposeCell fabricEnsureCell
    dsimp only
    split
    · exact htrit
    · exact (Tame.write _ _ fun _ => (by decide : IsTrit 1)).trits htrit
  · exact horigin

end Weave

variable {W : Type*} {n m : ℕ}

structure RouteTernary (count : ℕ) (r : Route) : Prop where
  orientation : IsTrit r.orientation
  learned : IsTrit r.learnedOrientation
  source : Held count r.cachedSource
  sink : Held count r.cachedSink
  control : Held count r.cachedControl

structure FieldTernary (count : ℕ) (field : Field) : Prop where
  routes : ∀ r ∈ field.routes, RouteTernary count r
  transitions : ∀ t ∈ field.transitions, Held count t.cachedTarget

structure Ternary (S : Substrate W) : Prop where
  cells : TritCells S.fabric
  fields : ∀ f, FieldTernary S.fabric.cellCount (S.fields f)

theorem RouteTernary.mono {r : Route} (h : RouteTernary n r) (hle : n ≤ m) : RouteTernary m r :=
  ⟨h.orientation, h.learned, h.source.mono hle, h.sink.mono hle, h.control.mono hle⟩

theorem FieldTernary.mono {field : Field} (h : FieldTernary n field) (hle : n ≤ m) :
    FieldTernary m field :=
  ⟨fun r hr => (h.routes r hr).mono hle, fun t ht => (h.transitions t ht).mono hle⟩

theorem RouteTernary.refresh {F : Fabric} {r : Route} (h : RouteTernary F.cellCount r) :
    RouteTernary F.cellCount (refreshRoute F r) := by
  unfold refreshRoute
  split
  · exact ⟨h.orientation, h.learned, getCellByCoord_held F _, getCellByCoord_held F _,
      getCellByCoord_held F _⟩
  · exact h

theorem RouteTernary.effective {r : Route} (h : RouteTernary n r) :
    IsTrit (effectiveOrientation r) := by
  unfold effectiveOrientation
  split
  · exact h.learned
  · exact h.orientation

theorem RouteTernary.routeControl {F : Fabric} {r : Route} (h : RouteTernary F.cellCount r)
    (hF : TritCells F) : IsTrit (routeControl F r) := by
  unfold Goose.routeControl
  split
  · exact h.effective
  next c hc => exact hF c (h.control c hc)

theorem neuronQuorum_isTrit (F : Fabric) (sub : Option Field) : IsTrit (neuronQuorum F sub) := by
  unfold neuronQuorum
  split
  · decide
  · dsimp only
    split_ifs <;> decide

namespace Ternary

variable {S : Substrate W} (h : Ternary S)
include h

theorem onFabric {F : Fabric} (hF : Tame S.fabric F) : Ternary { S with fabric := F } :=
  ⟨hF.trits h.cells, fun f => (h.fields f).mono hF.count⟩

theorem setState (idx : ℕ) {state : ℤ} (hs : IsTrit state) : Ternary (S.setState idx state) :=
  h.onFabric (.setState idx fun _ => hs)

theorem world (w : W) : Ternary { S with world := w } := ⟨h.cells, h.fields⟩

theorem setField (fid : ℕ) {field : Field} (hf : FieldTernary S.fabric.cellCount field) :
    Ternary (S.setField fid field) := by
  refine ⟨h.cells, fun f => ?_⟩
  by_cases hfid : f = fid
  · subst hfid
    rw [setField_fields]
    exact hf
  · rw [setField_other S hfid]
    exact h.fields f

theorem startPulse (fid : ℕ) : Ternary (fieldStartPulse S fid) := by
  unfold fieldStartPulse
  split
  · exact ⟨h.cells, h.fields⟩
  · exact h

theorem storeRoute (fid i : ℕ) {r : Route} (hr : RouteTernary S.fabric.cellCount r) :
    Ternary (storeRoute fid i S r) := by
  refine h.setField fid ⟨fun r' hr' => ?_, (h.fields fid).transitions⟩
  rcases List.mem_or_eq_of_mem_set hr' with hmem | rfl
  · exact (h.fields fid).routes r' hmem
  · exact hr

theorem storeTransition (fid i : ℕ) {t : Transition} (ht : Held S.fabric.cellCount t.cachedTarget) :
    Ternary (storeTransition fid i S t) := by
  refine h.setField fid ⟨(h.fields fid).routes, fun t' ht' => ?_⟩
  rcases List.mem_or_eq_of_mem_set ht' with hmem | rfl
  · exact (h.fields fid).transitions t' hmem
  · exact ht

variable {B : Board W} (hB : ∀ w fn, IsTrit (B.evolve w fn).1)
include hB in
theorem transitionTurn (now fid i : ℕ) : Ternary (transitionTurn B now fid S i) := by
  unfold Goose.transitionTurn
  split
  · exact h
  next t ht =>
    have hheld : Held S.fabric.cellCount (refreshTransition S.fabric t).cachedTarget := by
      unfold refreshTransition
      split
      · exact getCellByCoord_held S.fabric _
      · exact (h.fields fid).transitions t (List.mem_of_getElem? ht)
    dsimp only
    split
    next target fn htarget _ =>
      split
      · have hstate := hB S.world fn
        rw [← hstate.i8] at hstate
        exact ((h.world _).setState target hstate).storeTransition fid i hheld
      · exact h.storeTransition fid i hheld
    next => exact h.storeTransition fid i hheld

theorem sampleHardware (src : ℕ) : Ternary (sampleHardware B S src) := by
  have hbit : ∀ p : Prop, [Decidable p] → IsTrit (if p then 1 else -1) := by
    intro p _
    split <;> decide
  unfold Goose.sampleHardware
  dsimp only
  split
  · split
    · exact h.setState src (hbit _)
    split
    · exact (h.world _).setState src (hbit _)
    · exact h
  · exact h

theorem sampleField (src : ℕ) : Ternary (sampleField S src) := by
  unfold Goose.sampleField
  dsimp only
  split
  · split
    · exact h
    next v hv =>
      obtain ⟨r, hr, hsource⟩ := Option.bind_eq_some_iff.mp hv
      obtain ⟨f, -, hroute⟩ := Option.bind_eq_some_iff.mp hr
      have hrt := (h.fields f).routes r (List.mem_of_getElem? hroute)
      exact h.setState src (h.cells v (hrt.source v hsource))
  · exact h.setState src (neuronQuorum_isTrit _ _)
  · exact h

theorem sampleSource (src : ℕ) : Ternary (sampleSource B S src) :=
  (h.sampleHardware src).sampleField src

theorem driveSink {r : Route} (hr : RouteTernary S.fabric.cellCount r) {src : ℕ}
    (hsrc : src < S.fabric.cellCount) (snk : ℕ) : Ternary (driveSink B S r src snk) := by
  have hproduct := (h.cells src hsrc).mul (hr.routeControl h.cells)
  rw [← hproduct.i8] at hproduct
  have hdriven := h.setState snk hproduct
  unfold Goose.driveSink
  dsimp only
  split
  · split
    · exact h
    · exact hdriven.world _
  · exact hdriven.world _

theorem routeTurn (fid i : ℕ) : Ternary (routeTurn B fid S i) := by
  unfold Goose.routeTurn
  split
  · exact h
  next r hr =>
    have hrt := ((h.fields fid).routes r (List.mem_of_getElem? hr)).refresh
    have hstored := h.storeRoute fid i hrt
    dsimp only
    split
    next src snk hsrc _ =>
      have hsampled := @sampleSource _ _ hstored B src
      have hcount : (Goose.sampleSource B (Goose.storeRoute fid i S (refreshRoute S.fabric r))
          src).fabric.cellCount = S.fabric.cellCount :=
        (sampleSource_touches B _ src).fabric.count
      split
      · exact hsampled.driveSink (hcount ▸ hrt) (hcount ▸ hrt.source src hsrc) snk
      · exact hsampled.world _
      · exact hsampled
    next => exact hstored

theorem routesRun (fid n : ℕ) : Ternary (routesRun B fid S n) := by
  induction n with
  | zero => exact h
  | succ n ih => exact ih.routeTurn fid n

include hB in
theorem transitionsRun (now fid n : ℕ) : Ternary (transitionsRun B now fid S n) := by
  induction n with
  | zero => exact h
  | succ n ih => exact ih.transitionTurn hB now fid n

include hB in
theorem processTransitions (lock : Bool) (now fid : ℕ) :
    Ternary (processTransitions B lock now fid S).2 := by
  unfold Goose.processTransitions
  split
  · exact h
  · have hturn : Ternary (atTurn B now fid S (S.fields fid).routes.length) :=
      (h.transitionsRun hB now fid _).routesRun fid _
    exact hturn.setField fid ⟨(hturn.fields fid).routes, (hturn.fields fid).transitions⟩

end Ternary

end ReflexOS.Goose
