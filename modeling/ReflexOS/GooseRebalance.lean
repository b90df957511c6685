import ReflexOS.GoosePulse

set_option autoImplicit false

/-!
# Rebalancing a field

The supervisor gives the blocked outputs of a field an orientation and pulses it again. The
loop counts the routes it visits.
-/
namespace ReflexOS.Goose

def maxRebalanceIterations : ℕ := 10

/-- From an intent to an output, both resolved, with no orientation. -/
def Blocked (F : Fabric) (r : Route) : Prop :=
  ∃ src snk, r.cachedSource = some src ∧ r.cachedSink = some snk ∧
    (F.cells src).type = .intent ∧ (F.cells snk).type = .hardwareOut ∧ r.orientation = 0

/-- One turn of the loop. -/
def rebalanceRoute (F : Fabric) (r : Route) : Route :=
  match r.cachedSource, r.cachedSink with
  | some src, some snk =>
    if (F.cells src).type = .intent ∧ (F.cells snk).type = .hardwareOut ∧ r.orientation = 0 then
      { r with orientation := 1 }
    else r
  | _, _ => r

/-- The loop with `visited` routes behind it, and whether it came to its end. -/
def rebalanceRoutes (F : Fabric) : ℕ → List Route → List Route × Bool
  | _, [] => ([], true)
  | visited, r :: routes =>
    if maxRebalanceIterations < visited then (r :: routes, false)
    else
      let rest := rebalanceRoutes F (visited + 1) routes
      (rebalanceRoute F r :: rest.1, rest.2)

variable {W : Type*}

/-- The error returned, the substrate, and the state of `system_balance`. -/
structure Rebalance (W : Type*) where
  err : Err
  substrate : Substrate W
  balance : ℤ

def Substrate.setRoutes (S : Substrate W) (fid : ℕ) (routes : List Route) : Substrate W :=
  S.setField fid { S.fields fid with routes := routes }

/-- `goose_supervisor_rebalance`; `lock` and `relock` are whether the loom was free for the
repair and for the pulse after it. -/
def supervisorRebalance (B : Board W) (lock relock : Bool) (now fid : ℕ) (S : Substrate W)
    (balance : ℤ) : Rebalance W :=
  if !lock then ⟨Err.ok, S, balance⟩
  else
    let walked := rebalanceRoutes S.fabric 0 (S.fields fid).routes
    let S := S.setRoutes fid walked.1
    if !walked.2 then ⟨Err.invalidState, S, -1⟩
    else
      let pulsed := processTransitions B relock now fid S
      ⟨pulsed.1, pulsed.2, balance⟩

/-- Every blocked route of the field, and no other route, gets an orientation, and the field
so repaired is pulsed. -/
structure Rebalanced (B : Board W) (relock : Bool) (now fid : ℕ) (S : Substrate W) (balance : ℤ)
    (out : Rebalance W) : Prop where
  propagated : ∃ routes, (out.err, out.substrate) =
      processTransitions B relock now fid (S.setRoutes fid routes) ∧ out.balance = balance
  repaired : ∀ (i : ℕ) (r : Route), (S.fields fid).routes[i]? = some r → Blocked S.fabric r →
    ∃ r' : Route, (out.substrate.fields fid).routes[i]? = some r' ∧ r'.orientation = 1
  unchanged : ∀ (f i : ℕ) (r : Route), (S.fields f).routes[i]? = some r → ¬ (f = fid ∧ Blocked S.fabric r) →
    ∃ r' : Route, (out.substrate.fields f).routes[i]? = some r' ∧ r'.orientation = r.orientation

section Loop

variable (F : Fabric)

theorem rebalanceRoute_orientation (r : Route) :
    (Blocked F r → (rebalanceRoute F r).orientation = 1) ∧
      (¬ Blocked F r → rebalanceRoute F r = r) := by
  unfold rebalanceRoute Blocked
  cases hsrc : r.cachedSource with
  | none => simp
  | some src =>
    cases hsnk : r.cachedSink with
    | none => simp
    | some snk =>
      dsimp only
      split
      next h => exact ⟨fun _ => rfl, fun hnot => absurd ⟨src, snk, rfl, rfl, h⟩ hnot⟩
      next h =>
        refine ⟨?_, fun _ => rfl⟩
        rintro ⟨src', snk', hs, hk, hblocked⟩
        cases hs
        cases hk
        exact absurd hblocked h

/-- The loop comes to its end exactly on the fields whose routes it may all visit. -/
theorem rebalanceRoutes_done_iff (routes : List Route) (visited : ℕ) :
    (rebalanceRoutes F visited routes).2 = true ↔
      routes = [] ∨ visited + routes.length ≤ maxRebalanceIterations + 1 := by
  induction routes generalizing visited with
  | nil => simp [rebalanceRoutes]
  | cons r routes ih =>
    rw [rebalanceRoutes]
    split
    next h => simp; omega
    next h =>
      dsimp only
      rw [ih]
      cases routes with
      | nil => simp; omega
      | cons q routes => simp; omega

theorem rebalanceRoutes_map {routes : List Route} {visited : ℕ}
    (h : (rebalanceRoutes F visited routes).2 = true) :
    (rebalanceRoutes F visited routes).1 = routes.map (rebalanceRoute F) := by
  induction routes generalizing visited with
  | nil => rfl
  | cons r routes ih =>
    rw [rebalanceRoutes] at h ⊢
    split at h
    · cases h
    next hv =>
      rw [if_neg hv]
      exact congrArg (rebalanceRoute F r :: ·) (ih h)

end Loop

section Pulse

variable (B : Board W) (S : Substrate W)

theorem refreshRoute_orientation (F : Fabric) (r : Route) :
    (refreshRoute F r).orientation = r.orientation := by
  unfold refreshRoute
  split <;> rfl

theorem routeTurn_orientations (fid i f : ℕ) :
    ((routeTurn B fid S i).fields f).routes.map Route.orientation =
      (S.fields f).routes.map Route.orientation := by
  cases hr : (S.fields fid).routes[i]? with
  | none => rw [routeTurn_none B S hr]
  | some r =>
    rw [(routeTurn_touches B S hr).fields, storeRoute]
    by_cases hf : f = fid
    · subst hf
      obtain ⟨hi, rfl⟩ := List.getElem?_eq_some_iff.mp hr
      rw [setField_fields, List.map_set, refreshRoute_orientation]
      refine List.ext_getElem? fun j => ?_
      rw [List.getElem?_set]
      split
      next hj =>
        subst hj
        simp [hi]
      · rfl
    · rw [setField_other _ hf]

theorem processTransitions_orientations (lock : Bool) (now fid f : ℕ) :
    ((processTransitions B lock now fid S).2.fields f).routes.map Route.orientation =
      (S.fields f).routes.map Route.orientation := by
  have hruns : ∀ n, ((atTurn B now fid S n).fields f).routes.map Route.orientation =
      (S.fields f).routes.map Route.orientation := by
    intro n
    induction n with
    | zero =>
      exact congrArg (List.map Route.orientation)
        ((transitionsRun_frame B S now fid (S.fields fid).transitions.length).2 f)
    | succ n ih => exact (routeTurn_orientations B _ fid n f).trans ih
  unfold processTransitions
  split
  · rfl
  · refine Eq.trans ?_ (hruns (S.fields fid).routes.length)
    by_cases hf : f = fid
    · subst hf
      dsimp only
      rw [setField_fields]
    · dsimp only
      rw [setField_other _ hf]

/-- A route keeps its orientation through a pulse. -/
theorem processTransitions_orientation (lock : Bool) (now fid : ℕ) {f i : ℕ} {r : Route}
    (hr : (S.fields f).routes[i]? = some r) :
    ∃ r', ((processTransitions B lock now fid S).2.fields f).routes[i]? = some r' ∧
      r'.orientation = r.orientation := by
  have h := congrArg (fun l : List ℤ => l[i]?) (processTransitions_orientations B S lock now fid f)
  rw [List.getElem?_map, List.getElem?_map, hr] at h
  exact Option.map_eq_some_iff.mp h

theorem setRoutes_fields (fid : ℕ) (routes : List Route) (f : ℕ) :
    ((S.setRoutes fid routes).fields f).routes =
      if f = fid then routes else (S.fields f).routes := by
  unfold Substrate.setRoutes
  split
  next hf =>
    subst hf
    rw [setField_fields]
  next hf => rw [setField_other _ hf]

end Pulse

section Rebalance

variable (B : Board W) (relock : Bool) (now fid : ℕ) (S : Substrate W) (balance : ℤ)

theorem rebalanced_of_short (h : (S.fields fid).routes.length ≤ maxRebalanceIterations + 1) :
    Rebalanced B relock now fid S balance
      (supervisorRebalance B true relock now fid S balance) := by
  have hdone : (rebalanceRoutes S.fabric 0 (S.fields fid).routes).2 = true :=
    (rebalanceRoutes_done_iff S.fabric _ 0).mpr (.inr (by omega))
  have hout : supervisorRebalance B true relock now fid S balance =
      ⟨(processTransitions B relock now fid (S.setRoutes fid
        ((S.fields fid).routes.map (rebalanceRoute S.fabric)))).1,
        (processTransitions B relock now fid (S.setRoutes fid
        ((S.fields fid).routes.map (rebalanceRoute S.fabric)))).2, balance⟩ := by
    unfold supervisorRebalance
    dsimp only
    rw [hdone, rebalanceRoutes_map S.fabric hdone]
    rfl
  rw [hout]
  refine ⟨⟨_, rfl, rfl⟩, ?_, ?_⟩
  · intro i r hr hblocked
    have hr' : ((S.setRoutes fid ((S.fields fid).routes.map
        (rebalanceRoute S.fabric))).fields fid).routes[i]? = some (rebalanceRoute S.fabric r) := by
      rw [setRoutes_fields, if_pos rfl, List.getElem?_map, hr]
      rfl
    obtain ⟨q, hq, ho⟩ := processTransitions_orientation B _ relock now fid hr'
    exact ⟨q, hq, ho.trans ((rebalanceRoute_orientation S.fabric r).1 hblocked)⟩
  · intro f i r hr hnot
    have hr' : ((S.setRoutes fid ((S.fields fid).routes.map
        (rebalanceRoute S.fabric))).fields f).routes[i]? = some r := by
      rw [setRoutes_fields]
      split
      next hf =>
        subst hf
        rw [List.getElem?_map, hr, Option.map_some,
          (rebalanceRoute_orientation S.fabric r).2 fun h => hnot ⟨rfl, h⟩]
      · exact hr
    exact processTransitions_orientation B _ relock now fid hr'

/-- A longer field is given up with an error instead of being pulsed. -/
theorem supervisorRebalance_refuses
    (h : maxRebalanceIterations + 1 < (S.fields fid).routes.length) :
    (supervisorRebalance B true relock now fid S balance).err = Err.invalidState := by
  have hdone : (rebalanceRoutes S.fabric 0 (S.fields fid).routes).2 = false := by
    rw [← Bool.not_eq_true, rebalanceRoutes_done_iff, not_or]
    refine ⟨fun hnil => ?_, by omega⟩
    rw [hnil] at h
    exact absurd h (by simp)
  unfold supervisorRebalance
  dsimp only
  rw [hdone]
  rfl

theorem not_rebalanced_of_long
    (h : maxRebalanceIterations + 1 < (S.fields fid).routes.length) :
    ¬ Rebalanced B relock now fid S balance
      (supervisorRebalance B true relock now fid S balance) := by
  rintro ⟨⟨routes, hpulsed, -⟩, -, -⟩
  have herr := congrArg Prod.fst hpulsed
  dsimp only at herr
  rw [supervisorRebalance_refuses B relock now fid S balance h] at herr
  unfold processTransitions at herr
  split at herr
  · exact absurd (show Err.invalidState = Err.timeout from herr) (by decide)
  · exact absurd (show Err.invalidState = Err.ok from herr) (by decide)

end Rebalance

/-- Twelve routes from one intent to one output. -/
def longField : Substrate Unit where
  fabric := { blankFabric with
    cells := fun v => if v = 0 then { zeroCell with state := 1, type := .intent }
      else { zeroCell with type := .hardwareOut } }
  fields _ := ⟨ascii "loom",
    List.replicate 12 { zeroRoute with cachedSource := some 0, cachedSink := some 1 }, [], 0⟩
  globalFields := [0]
  world := ()

end ReflexOS.Goose
