import ReflexOS.GooseAllocation

set_option autoImplicit false

/-!
# The pulse

One pass over a field: its transitions in order, then its routes in order. Callbacks,
pins, registers and the radio act on a world the board describes.
-/
namespace ReflexOS.Goose
open VmTernary

/-- The callback of a transition with its context, by address. -/
structure Transition where
  name : CName
  targetCoord : Tryte9
  evolution : Option ℕ
  intervalMs : ℕ
  lastRunUs : ℕ
  cachedTarget : Option ℕ
  cachedVersion : ℕ

structure Field where
  name : CName
  routes : List Route
  transitions : List Transition
  totalPulses : ℕ

structure Board (W : Type*) where
  gpioGetLevel : W → ℕ → Bool
  gpioSetLevel : W → ℕ → Bool → W
  mmioRead : W → ℕ → ℕ × W
  mmioWrite : W → ℕ → ℕ → W
  evolve : W → ℕ → ℤ × W
  emitArc : W → Cell → W
  emitSync : W → Cell → CName → W

/-- Fields live at addresses; `globalFields` lists those that pulse. -/
structure Substrate (W : Type*) where
  fabric : Fabric
  fields : ℕ → Field
  globalFields : List ℕ
  world : W

variable {W : Type*}

def Fabric.setState (F : Fabric) (idx : ℕ) (state : ℤ) : Fabric :=
  { F with cells := Function.update F.cells idx { F.cells idx with state := state } }

theorem getCellByCoord_recoat {F : Fabric} {cells : ℕ → Cell} (hc : ∀ v, (cells v).coord = (F.cells v).coord)
    (coord : Tryte9) : getCellByCoord { F with cells := cells } coord = getCellByCoord F coord := by
  have hmatch : slotMatches cells F.cellCount coord = slotMatches F.cells F.cellCount coord := by
    funext v
    rw [slotMatches, slotMatches, hc]
  unfold getCellByCoord latticeFind
  dsimp only
  rw [hmatch]

theorem getCellByCoord_setState {F : Fabric} (v : ℕ) (state : ℤ) (coord : Tryte9) :
    getCellByCoord (F.setState v state) coord = getCellByCoord F coord := by
  unfold Fabric.setState
  apply getCellByCoord_recoat
  intro w
  apply update_coord
  rfl

def Substrate.setState (S : Substrate W) (idx : ℕ) (state : ℤ) : Substrate W :=
  { S with fabric := S.fabric.setState idx state }

def Substrate.setField (S : Substrate W) (fid : ℕ) (field : Field) : Substrate W :=
  { S with fields := Function.update S.fields fid field }

def gooseNameHash (name : CName) : ℕ :=
  name.foldl (fun h c => (h ^^^ c.toNat) * 16777619 % 2 ^ 32) 2166136261

def findFieldByNameHash (S : Substrate W) (hash : ℕ) : Option ℕ :=
  S.globalFields.find? fun f => decide (gooseNameHash (S.fields f).name = hash)

/-- The sum over the resolved sources of a field, at strict majority. -/
def neuronQuorum (F : Fabric) (sub : Option Field) : ℤ :=
  match sub with
  | none => 0
  | some field =>
    let sources := field.routes.filterMap Route.cachedSource
    let sum := (sources.map fun v => (F.cells v).state).sum
    let threshold : ℤ := (sources.length / 2 : ℕ) + 1
    if sources.length = 0 then 0
    else if threshold ≤ sum then 1
    else if sum ≤ -threshold then -1
    else 0

def cellMask (c : Cell) : ℕ := if c.bitMask = 0 then 0xFFFFFFFF else c.bitMask

def refreshTransition (F : Fabric) (t : Transition) : Transition :=
  if t.cachedTarget.isNone || decide (t.cachedVersion ≠ F.version) then
    { t with cachedTarget := getCellByCoord F t.targetCoord, cachedVersion := F.version }
  else t

def storeTransition (fid i : ℕ) (S : Substrate W) (t : Transition) : Substrate W :=
  S.setField fid { S.fields fid with transitions := (S.fields fid).transitions.set i t }

def transitionTurn (B : Board W) (now fid : ℕ) (S : Substrate W) (i : ℕ) : Substrate W :=
  match (S.fields fid).transitions[i]? with
  | none => S
  | some t =>
    let t := refreshTransition S.fabric t
    match t.cachedTarget, t.evolution with
    | some target, some fn =>
      if t.intervalMs * 1000 % 2 ^ 32 ≤ (now + 2 ^ 64 - t.lastRunUs) % 2 ^ 64 then
        let evolved := B.evolve S.world fn
        storeTransition fid i ({ S with world := evolved.2 }.setState target (i8 evolved.1))
          { t with lastRunUs := now }
      else storeTransition fid i S t
    | _, _ => storeTransition fid i S t

/-- The cells of a route are looked up again when the fabric has changed. -/
def refreshRoute (F : Fabric) (r : Route) : Route :=
  if r.cachedSource.isNone || decide (r.cachedVersion ≠ F.version) then
    { r with
      cachedSource := getCellByCoord F r.sourceCoord
      cachedSink := getCellByCoord F r.sinkCoord
      cachedControl := getCellByCoord F r.controlCoord
      cachedVersion := F.version }
  else r

def storeRoute (fid i : ℕ) (S : Substrate W) (r : Route) : Substrate W :=
  S.setField fid { S.fields fid with routes := (S.fields fid).routes.set i r }

/-- Perception: the pin or register behind a source. -/
def sampleHardware (B : Board W) (S : Substrate W) (src : ℕ) : Substrate W :=
  let c := S.fabric.cells src
  if c.type = .hardwareIn ∧ c.hardwareAddr ≠ 0 then
    if c.hardwareAddr < 32 then
      S.setState src (if B.gpioGetLevel S.world c.hardwareAddr then 1 else -1)
    else if agencyMmioBase ≤ c.hardwareAddr then
      let read := B.mmioRead S.world c.hardwareAddr
      { S with world := read.2 }.setState src (if read.1 &&& cellMask c ≠ 0 then 1 else -1)
    else S
  else S

/-- Projection and aggregation: the field behind a source. -/
def sampleField (S : Substrate W) (src : ℕ) : Substrate W :=
  let c := S.fabric.cells src
  let sub := findFieldByNameHash S c.hardwareAddr
  match c.type with
  | .fieldProxy =>
    match (sub.bind fun f => (S.fields f).routes[0]?).bind Route.cachedSource with
    | none => S
    | some v => S.setState src (S.fabric.cells v).state
  | .neuron => S.setState src (neuronQuorum S.fabric (sub.map S.fields))
  | _ => S

def sampleSource (B : Board W) (S : Substrate W) (src : ℕ) : Substrate W :=
  sampleField (sampleHardware B S src) src

/-- What follows the dot of a name `peer.<peer>.<cell>`. -/
def peerCellName (F : Fabric) (coord : Tryte9) : Option CName :=
  match gooniesResolveNameByCoord F.registry coord with
  | none => none
  | some name =>
    if nsPeer.isPrefixOf name then
      match (name.drop nsPeer.length).dropWhile (fun c => decide (c ≠ 46)) with
      | [] => none
      | _ :: cell => some cell
    else none

def effectiveOrientation (r : Route) : ℤ :=
  if r.learnedOrientation ≠ 0 then r.learnedOrientation else r.orientation

/-- The multiplier of a route: the state of its control cell when there is one. -/
def routeControl (F : Fabric) (r : Route) : ℤ :=
  match r.cachedControl with
  | none => effectiveOrientation r
  | some c => (F.cells c).state

/-- The pin or register behind a local sink. -/
def actuate (B : Board W) (w : W) (c : Cell) : W :=
  if 0 < c.hardwareAddr ∧ c.hardwareAddr < 32 then
    B.gpioSetLevel w c.hardwareAddr (decide (c.state = 1))
  else if agencyMmioBase ≤ c.hardwareAddr then
    if c.state = 1 then
      let read := B.mmioRead w c.hardwareAddr
      B.mmioWrite read.2 c.hardwareAddr (read.1 ||| cellMask c)
    else if c.state = -1 then
      let read := B.mmioRead w c.hardwareAddr
      B.mmioWrite read.2 c.hardwareAddr (read.1 &&& (0xFFFFFFFF ^^^ cellMask c))
    else w
  else w

def driveSink (B : Board W) (S : Substrate W) (r : Route) (src snk : ℕ) : Substrate W :=
  let driven := S.setState snk (i8 ((S.fabric.cells src).state * routeControl S.fabric r))
  if (S.fabric.cells snk).peerId ≠ 0 then
    match peerCellName S.fabric r.sinkCoord with
    | none => S
    | some cell => { driven with world := B.emitSync driven.world (driven.fabric.cells snk) cell }
  else { driven with world := actuate B driven.world (driven.fabric.cells snk) }

def routeTurn (B : Board W) (fid : ℕ) (S : Substrate W) (i : ℕ) : Substrate W :=
  match (S.fields fid).routes[i]? with
  | none => S
  | some r =>
    let r := refreshRoute S.fabric r
    let S := storeRoute fid i S r
    match r.cachedSource, r.cachedSink with
    | some src, some snk =>
      let S := sampleSource B S src
      match r.coupling with
      | .software => driveSink B S r src snk
      | .radio => { S with world := B.emitArc S.world (S.fabric.cells src) }
      | _ => S
    | _, _ => S

/-- The first `n` transitions. -/
def transitionsRun (B : Board W) (now fid : ℕ) (S : Substrate W) : ℕ → Substrate W
  | 0 => S
  | n + 1 => transitionTurn B now fid (transitionsRun B now fid S n) n

/-- The first `n` routes. -/
def routesRun (B : Board W) (fid : ℕ) (S : Substrate W) : ℕ → Substrate W
  | 0 => S
  | n + 1 => routeTurn B fid (routesRun B fid S n) n

/-- The state a pulse has reached before its route `n`. -/
def atTurn (B : Board W) (now fid : ℕ) (S : Substrate W) (n : ℕ) : Substrate W :=
  routesRun B fid (transitionsRun B now fid S (S.fields fid).transitions.length) n

/-- `internal_process_transitions`; `lock` is whether the loom was free. -/
def processTransitions (B : Board W) (lock : Bool) (now fid : ℕ) (S : Substrate W) :
    Err × Substrate W :=
  if !lock then (Err.timeout, S)
  else
    let S := atTurn B now fid S (S.fields fid).routes.length
    (Err.ok, S.setField fid
      { S.fields fid with totalPulses := ((S.fields fid).totalPulses + 1) % 2 ^ 64 })

/-- A pulse changes the states of cells and nothing else in the fabric. -/
structure SameButStates (F F' : Fabric) : Prop where
  lattice : F'.lattice = F.lattice
  stable : F'.latticeStable = F.latticeStable
  count : F'.cellCount = F.cellCount
  version : F'.version = F.version
  registry : F'.registry = F.registry
  cells : ∀ v, F'.cells v = { F.cells v with state := (F'.cells v).state }

/-- A cell that takes its state from elsewhere when it is the source of a route. -/
def Sampled (c : Cell) : Prop :=
  c.type = .hardwareIn ∧ c.hardwareAddr ≠ 0 ∨ c.type = .fieldProxy ∨ c.type = .neuron

/-- The cells that a turn of the route may write. -/
def Worked (F : Fabric) (r : Route) (v : ℕ) : Prop :=
  r.cachedSource = some v ∧ Sampled (F.cells v) ∨ r.cachedSink = some v

namespace SameButStates

variable {F F' F'' : Fabric}

theorem refl (F : Fabric) : SameButStates F F := ⟨rfl, rfl, rfl, rfl, rfl, fun _ => rfl⟩

theorem trans (h : SameButStates F F') (h' : SameButStates F' F'') : SameButStates F F'' where
  lattice := h'.lattice.trans h.lattice
  stable := h'.stable.trans h.stable
  count := h'.count.trans h.count
  version := h'.version.trans h.version
  registry := h'.registry.trans h.registry
  cells v := by
    rw [h'.cells v, h.cells v]

theorem setState (F : Fabric) (idx : ℕ) (state : ℤ) : SameButStates F (F.setState idx state) where
  lattice := rfl
  stable := rfl
  count := rfl
  version := rfl
  registry := rfl
  cells v := by
    by_cases hv : v = idx
    · subst v
      simp [Fabric.setState]
    · simp [Fabric.setState, hv]

variable (h : SameButStates F F')
include h

theorem coord (v : ℕ) : (F'.cells v).coord = (F.cells v).coord := by rw [h.cells v]

theorem peerId (v : ℕ) : (F'.cells v).peerId = (F.cells v).peerId := by rw [h.cells v]

theorem getCell (c : Tryte9) : getCellByCoord F' c = getCellByCoord F c := by
  have hmatch : slotMatches F'.cells F'.cellCount c = slotMatches F.cells F.cellCount c := by
    funext v
    rw [slotMatches, slotMatches, h.count, h.coord v]
  rw [getCellByCoord, getCellByCoord, h.stable, latticeFind, latticeFind, hmatch, h.lattice]

theorem refreshRoute (r : Route) : refreshRoute F' r = refreshRoute F r := by
  simp only [Goose.refreshRoute, h.getCell, h.version]

theorem peerCellName (c : Tryte9) : peerCellName F' c = peerCellName F c := by
  rw [Goose.peerCellName, Goose.peerCellName, h.registry]

theorem type (v : ℕ) : (F'.cells v).type = (F.cells v).type := by rw [h.cells v]

theorem sampled (v : ℕ) : Sampled (F'.cells v) ↔ Sampled (F.cells v) := by
  rw [Sampled, Sampled, h.cells v]

theorem worked (r : Route) (v : ℕ) : Worked F' r v ↔ Worked F r v := by
  rw [Worked, Worked, h.sampled]

end SameButStates

/-- A remote sink is written only under its name `peer.<peer>.<cell>`. -/
def SinkWritable (F : Fabric) (coord : Tryte9) (snk : ℕ) : Prop :=
  (F.cells snk).peerId = 0 ∨ (peerCellName F coord).isSome

instance (F : Fabric) (coord : Tryte9) (snk : ℕ) : Decidable (SinkWritable F coord snk) :=
  inferInstanceAs (Decidable (_ ∨ _))

@[simp] theorem setField_fabric (S : Substrate W) (fid : ℕ) (field : Field) :
    (S.setField fid field).fabric = S.fabric := rfl

@[simp] theorem setField_fields (S : Substrate W) (fid : ℕ) (field : Field) :
    (S.setField fid field).fields fid = field := Function.update_self _ _ _

theorem setField_other (S : Substrate W) {fid f : ℕ} (hf : f ≠ fid) (field : Field) :
    (S.setField fid field).fields f = S.fields f := Function.update_of_ne hf _ _

@[simp] theorem setState_fabric (S : Substrate W) (idx : ℕ) (state : ℤ) :
    (S.setState idx state).fabric = S.fabric.setState idx state := rfl

@[simp] theorem setState_fields (S : Substrate W) (idx : ℕ) (state : ℤ) :
    (S.setState idx state).fields = S.fields := rfl

theorem setState_self (F : Fabric) (idx : ℕ) (state : ℤ) :
    ((F.setState idx state).cells idx).state = state := by simp [Fabric.setState]

theorem setState_other (F : Fabric) {idx v : ℕ} (hv : v ≠ idx) (state : ℤ) :
    (F.setState idx state).cells v = F.cells v := by simp [Fabric.setState, hv]

/-- `S'` differs from `S` in the world and in the states of the cells in `touched`. -/
structure Touches (touched : ℕ → Prop) (S S' : Substrate W) : Prop where
  fabric : SameButStates S.fabric S'.fabric
  fields : S'.fields = S.fields
  states : ∀ v, ¬ touched v → (S'.fabric.cells v).state = (S.fabric.cells v).state

namespace Touches

variable {touched touched' : ℕ → Prop} {S S' S'' : Substrate W}

theorem refl (touched : ℕ → Prop) (S : Substrate W) : Touches touched S S :=
  ⟨.refl _, rfl, fun _ _ => rfl⟩

theorem trans (h : Touches touched S S') (h' : Touches touched S' S'') :
    Touches touched S S'' :=
  ⟨h.fabric.trans h'.fabric, h'.fields.trans h.fields,
    fun v hv => (h'.states v hv).trans (h.states v hv)⟩

theorem mono (h : Touches touched S S') (hsub : ∀ v, touched v → touched' v) :
    Touches touched' S S' :=
  ⟨h.fabric, h.fields, fun v hv => h.states v fun ht => hv (hsub v ht)⟩

theorem setState (S : Substrate W) (idx : ℕ) (state : ℤ) :
    Touches (fun v => v = idx) S (S.setState idx state) :=
  ⟨.setState _ _ _, rfl, fun _ hv => congrArg Cell.state (setState_other _ hv state)⟩

theorem world (h : Touches touched S S') (w : W) : Touches touched S { S' with world := w } :=
  ⟨h.fabric, h.fields, h.states⟩

end Touches

section Turn

variable (B : Board W) (S : Substrate W)

theorem sampleHardware_touches (src : ℕ) :
    Touches (fun v => v = src ∧ Sampled (S.fabric.cells src)) S (sampleHardware B S src) := by
  unfold sampleHardware
  dsimp only
  split
  · rename_i hin
    split
    · exact (Touches.setState _ _ _).mono fun v hv => ⟨hv, .inl hin⟩
    split
    · exact ⟨.setState _ _ _, rfl,
        fun _ hv => congrArg Cell.state (setState_other _ (fun h => hv ⟨h, .inl hin⟩) _)⟩
    · exact .refl _ _
  · exact .refl _ _

theorem sampleField_touches (src : ℕ) :
    Touches (fun v => v = src ∧ Sampled (S.fabric.cells src)) S (sampleField S src) := by
  unfold sampleField
  dsimp only
  split
  · rename_i htype
    split
    · exact .refl _ _
    · exact (Touches.setState _ _ _).mono fun v hv => ⟨hv, .inr (.inl htype)⟩
  · rename_i htype
    exact (Touches.setState _ _ _).mono fun v hv => ⟨hv, .inr (.inr htype)⟩
  · exact .refl _ _

theorem sampleSource_touches (src : ℕ) :
    Touches (fun v => v = src ∧ Sampled (S.fabric.cells src)) S (sampleSource B S src) := by
  have hhardware := sampleHardware_touches B S src
  have hfield := sampleField_touches (sampleHardware B S src) src
  exact hhardware.trans (hfield.mono fun v hv => ⟨hv.1, (hhardware.fabric.sampled src).mp hv.2⟩)

theorem driveSink_touches (r : Route) (src snk : ℕ) :
    Touches (fun v => v = snk) S (driveSink B S r src snk) := by
  unfold driveSink
  dsimp only
  split
  · split
    · exact .refl _ _
    · exact (Touches.setState _ _ _).world _
  · exact (Touches.setState _ _ _).world _

theorem driveSink_state (r : Route) (src snk : ℕ) :
    ((driveSink B S r src snk).fabric.cells snk).state =
      if SinkWritable S.fabric r.sinkCoord snk then
        i8 ((S.fabric.cells src).state * routeControl S.fabric r)
      else (S.fabric.cells snk).state := by
  unfold driveSink
  dsimp only
  by_cases hp : (S.fabric.cells snk).peerId = 0
  · rw [if_neg (by simpa using hp), if_pos (.inl hp)]
    exact setState_self _ _ _
  · rw [if_pos hp]
    cases hn : peerCellName S.fabric r.sinkCoord with
    | none => simp [SinkWritable, hp, hn]
    | some cell =>
      rw [if_pos (.inr (by rw [hn]; rfl))]
      exact setState_self _ _ _

theorem routeTurn_none {fid i : ℕ} (hr : (S.fields fid).routes[i]? = none) :
    routeTurn B fid S i = S := by simp only [routeTurn, hr]

theorem transitionTurn_frame (now fid i : ℕ) :
    SameButStates S.fabric (transitionTurn B now fid S i).fabric ∧
      ∀ f, ((transitionTurn B now fid S i).fields f).routes = (S.fields f).routes := by
  have hstore : ∀ (T : Substrate W) (t : Transition) (f : ℕ),
      ((storeTransition fid i T t).fields f).routes = (T.fields f).routes := by
    intro T t f
    by_cases hf : f = fid
    · subst hf
      rw [storeTransition, setField_fields]
    · exact congrArg Field.routes (setField_other T hf _)
  unfold transitionTurn
  split
  · exact ⟨.refl _, fun _ => rfl⟩
  · dsimp only
    split
    · split
      · exact ⟨.setState _ _ _, hstore _ _⟩
      · exact ⟨.refl _, hstore _ _⟩
    · exact ⟨.refl _, hstore _ _⟩

/-- Once its route is refreshed, a turn touches the two cells of that route at most. -/
theorem routeTurn_touches {fid i : ℕ} {r : Route} (hr : (S.fields fid).routes[i]? = some r) :
    Touches (Worked S.fabric (refreshRoute S.fabric r))
      (storeRoute fid i S (refreshRoute S.fabric r)) (routeTurn B fid S i) := by
  let stored := storeRoute fid i S (refreshRoute S.fabric r)
  simp only [routeTurn, hr]
  cases hsrc : (refreshRoute S.fabric r).cachedSource with
  | none => exact .refl _ _
  | some src =>
    cases hsnk : (refreshRoute S.fabric r).cachedSink with
    | none => exact .refl _ _
    | some snk =>
      have hsample : Touches (Worked S.fabric (refreshRoute S.fabric r)) stored
          (sampleSource B stored src) := by
        refine (sampleSource_touches B stored src).mono fun v hv => .inl ?_
        rw [hv.1]
        exact ⟨hsrc, hv.2⟩
      dsimp only
      split
      · exact hsample.trans ((driveSink_touches B _ _ src snk).mono
          fun v hv => .inr (hv ▸ hsnk))
      · exact hsample.world _
      · exact hsample

/-- A turn refreshes its route and touches the two cells of that route at most. -/
theorem routeTurn_frame {fid i : ℕ} {r : Route} (hr : (S.fields fid).routes[i]? = some r) :
    SameButStates S.fabric (routeTurn B fid S i).fabric ∧
      ((routeTurn B fid S i).fields fid).routes =
        (S.fields fid).routes.set i (refreshRoute S.fabric r) ∧
      ∀ v, ¬ Worked S.fabric (refreshRoute S.fabric r) v →
        ((routeTurn B fid S i).fabric.cells v).state = (S.fabric.cells v).state := by
  have hturn := routeTurn_touches B S hr
  refine ⟨hturn.fabric, ?_, hturn.states⟩
  rw [hturn.fields]
  simp [storeRoute]

end Turn

section Pulse

variable (B : Board W) (S : Substrate W) (now fid : ℕ)

theorem transitionsRun_frame (n : ℕ) :
    SameButStates S.fabric (transitionsRun B now fid S n).fabric ∧
      ∀ f, ((transitionsRun B now fid S n).fields f).routes = (S.fields f).routes := by
  induction n with
  | zero => exact ⟨.refl _, fun _ => rfl⟩
  | succ n ih =>
    obtain ⟨hfab, hroutes⟩ := transitionTurn_frame B (transitionsRun B now fid S n) now fid n
    exact ⟨ih.1.trans hfab, fun f => (hroutes f).trans (ih.2 f)⟩

theorem routesRun_frame (n : ℕ) :
    SameButStates S.fabric (routesRun B fid S n).fabric ∧
      ∀ j, n ≤ j → ((routesRun B fid S n).fields fid).routes[j]? = (S.fields fid).routes[j]? := by
  induction n with
  | zero => exact ⟨.refl _, fun _ _ => rfl⟩
  | succ n ih =>
    cases hr : ((routesRun B fid S n).fields fid).routes[n]? with
    | none =>
      rw [routesRun, routeTurn_none B _ hr]
      exact ⟨ih.1, fun j hj => ih.2 j (by omega)⟩
    | some r =>
      obtain ⟨hfab, hroutes, -⟩ := routeTurn_frame B (routesRun B fid S n) hr
      refine ⟨ih.1.trans hfab, fun j hj => ?_⟩
      rw [routesRun, hroutes, List.getElem?_set_ne (by omega)]
      exact ih.2 j (by omega)

/-- A cell that no route from `n` on works on keeps its state from turn `n` on. -/
theorem routesRun_keeps {n v : ℕ}
    (hv : ∀ j, n ≤ j → ∀ r, (S.fields fid).routes[j]? = some r →
      ¬ Worked S.fabric (refreshRoute S.fabric r) v) (k : ℕ) :
    ((routesRun B fid S (n + k)).fabric.cells v).state =
      ((routesRun B fid S n).fabric.cells v).state := by
  induction k with
  | zero => rfl
  | succ k ih =>
    obtain ⟨hfab, hroutes⟩ := routesRun_frame B S fid (n + k)
    rw [← ih, ← Nat.add_assoc, routesRun]
    cases hr : ((routesRun B fid S (n + k)).fields fid).routes[n + k]? with
    | none => rw [routeTurn_none B _ hr]
    | some r =>
      obtain ⟨-, -, hstates⟩ := routeTurn_frame B (routesRun B fid S (n + k)) hr
      have hout := hv (n + k) (by omega) r (by rw [← hroutes _ (le_refl _), hr])
      exact hstates v (by rwa [hfab.refreshRoute, hfab.worked])

end Pulse

/-- The cell a route works with for one of its coordinates. -/
def tlbLookup (F : Fabric) (r : Route) (cached : Option ℕ) (coord : Tryte9) : Option ℕ :=
  if r.cachedSource.isNone || decide (r.cachedVersion ≠ F.version) then getCellByCoord F coord
  else cached

section Tlb

variable (F : Fabric) (r : Route)

theorem refreshRoute_source :
    (refreshRoute F r).cachedSource = tlbLookup F r r.cachedSource r.sourceCoord := by
  unfold refreshRoute tlbLookup
  split <;> rfl

theorem refreshRoute_sink :
    (refreshRoute F r).cachedSink = tlbLookup F r r.cachedSink r.sinkCoord := by
  unfold refreshRoute tlbLookup
  split <;> rfl

theorem refreshRoute_control :
    (refreshRoute F r).cachedControl = tlbLookup F r r.cachedControl r.controlCoord := by
  unfold refreshRoute tlbLookup
  split <;> rfl

theorem refreshRoute_keeps : (refreshRoute F r).coupling = r.coupling ∧
    (refreshRoute F r).sinkCoord = r.sinkCoord ∧
    effectiveOrientation (refreshRoute F r) = effectiveOrientation r := by
  unfold refreshRoute
  split <;> exact ⟨rfl, rfl, rfl⟩

theorem SameButStates.tlbLookup {F F' : Fabric} (h : SameButStates F F') (r : Route)
    (cached : Option ℕ) (coord : Tryte9) :
    tlbLookup F' r cached coord = tlbLookup F r cached coord := by
  rw [Goose.tlbLookup, Goose.tlbLookup, h.getCell, h.version]

end Tlb

theorem i8_eq_iff (a b : ℤ) : i8 a = i8 b ↔ (256 : ℤ) ∣ a - b := by
  unfold i8
  omega

/-- The source is sampled, the sink not yet driven. -/
def sampledAt (B : Board W) (now fid : ℕ) (S : Substrate W) (n : ℕ) (r : Route) (src : ℕ) :
    Substrate W :=
  let T := atTurn B now fid S n
  sampleSource B (storeRoute fid n T (refreshRoute T.fabric r)) src

/-- No cell at the zero coordinate changes what the route computes. On trits: the source is
zero, or that cell's state is the orientation. -/
def Ungated (F : Fabric) (r : Route) (src : ℕ) : Prop :=
  ∀ c, tlbLookup F r r.cachedControl zeroCoord = some c →
    (256 : ℤ) ∣ (F.cells src).state * ((F.cells c).state - effectiveOrientation r)

section Uncontrolled

variable (B : Board W) (now : ℕ) (S : Substrate W) (fid : ℕ) {before after : List Route}
  {r : Route} {src snk : ℕ}

theorem atTurn_frame (n : ℕ) : SameButStates S.fabric (atTurn B now fid S n).fabric ∧
    ∀ j, n ≤ j →
      ((atTurn B now fid S n).fields fid).routes[j]? = (S.fields fid).routes[j]? := by
  obtain ⟨hfab, hroutes⟩ := transitionsRun_frame B S now fid (S.fields fid).transitions.length
  obtain ⟨hfab', hroutes'⟩ := routesRun_frame B
    (transitionsRun B now fid S (S.fields fid).transitions.length) fid n
  exact ⟨hfab.trans hfab', fun j hj => by rw [atTurn, hroutes' j hj, hroutes]⟩

/-- A cell that no route from `n` on works on is left as turn `n` found it. -/
theorem processTransitions_keeps {n v : ℕ} (hn : n ≤ (S.fields fid).routes.length)
    (hv : ∀ j, n ≤ j → ∀ r, (S.fields fid).routes[j]? = some r →
      ¬ Worked S.fabric (refreshRoute S.fabric r) v) :
    ((processTransitions B true now fid S).2.fabric.cells v).state =
      ((atTurn B now fid S n).fabric.cells v).state := by
  obtain ⟨hfab, hkept⟩ := transitionsRun_frame B S now fid (S.fields fid).transitions.length
  obtain ⟨k, hk⟩ := Nat.exists_eq_add_of_le hn
  change ((atTurn B now fid S (S.fields fid).routes.length).fabric.cells v).state = _
  rw [hk]
  refine routesRun_keeps B _ fid (fun j hj r hr => ?_) k
  rw [hkept] at hr
  rw [hfab.refreshRoute, hfab.worked]
  exact hv j hj r hr

theorem sampledAt_frame (n : ℕ) (r : Route) (src : ℕ) :
    SameButStates S.fabric (sampledAt B now fid S n r src).fabric :=
  (atTurn_frame B now S fid n).1.trans
    (sampleSource_touches B (storeRoute fid n (atTurn B now fid S n) _) src).fabric

theorem software_turn {n : ℕ} (hr : (S.fields fid).routes[n]? = some r)
    (hsoft : r.coupling = .software)
    (hsrc : tlbLookup S.fabric r r.cachedSource r.sourceCoord = some src)
    (hsnk : tlbLookup S.fabric r r.cachedSink r.sinkCoord = some snk) :
    atTurn B now fid S (n + 1) =
      driveSink B (sampledAt B now fid S n r src) (refreshRoute S.fabric r) src snk := by
  obtain ⟨hfab, hroutes⟩ := atTurn_frame B now S fid n
  have hrefresh := hfab.refreshRoute r
  have hr' := (hroutes n (le_refl n)).trans hr
  change routeTurn B fid (atTurn B now fid S n) n = _
  simp only [routeTurn, hr', sampledAt, hrefresh, refreshRoute_source, refreshRoute_sink, hsrc,
    hsnk, (refreshRoute_keeps S.fabric r).1, hsoft]

/-- With or without a control cell, the multiplier is the orientation up to the width of a
state exactly if the route is not gated. -/
theorem ungated_iff {F : Fabric} (hctl : r.controlCoord = zeroCoord) :
    i8 ((F.cells src).state * routeControl F (refreshRoute F r)) =
        i8 ((F.cells src).state * effectiveOrientation r) ↔ Ungated F r src := by
  unfold routeControl Ungated
  rw [refreshRoute_control, hctl, (refreshRoute_keeps F r).2.2]
  cases tlbLookup F r r.cachedControl zeroCoord with
  | none => simp
  | some c =>
    rw [i8_eq_iff, ← Int.mul_sub]
    simp

/-- One pulse and a software route whose control coordinate was never assigned: its turn
leaves the sink at source times orientation exactly if the sink is writable and no cell at
the zero coordinate interferes, or the sink had that state before; and what the turn leaves
is what the pulse leaves when no later route works on the sink. -/
theorem uncontrolled_route_iff (hroutes : (S.fields fid).routes = before ++ r :: after)
    (hsoft : r.coupling = .software) (hctl : r.controlCoord = zeroCoord)
    (hsrc : tlbLookup S.fabric r r.cachedSource r.sourceCoord = some src)
    (hsnk : tlbLookup S.fabric r r.cachedSink r.sinkCoord = some snk) :
    let T := (sampledAt B now fid S before.length r src).fabric
    let expected := i8 ((T.cells src).state * effectiveOrientation r)
    (((atTurn B now fid S (before.length + 1)).fabric.cells snk).state = expected ↔
      if SinkWritable T r.sinkCoord snk then Ungated T r src else (T.cells snk).state = expected) ∧
    ((∀ r' ∈ after, tlbLookup S.fabric r' r'.cachedSource r'.sourceCoord ≠ some snk ∧
        tlbLookup S.fabric r' r'.cachedSink r'.sinkCoord ≠ some snk) →
      ((processTransitions B true now fid S).2.fabric.cells snk).state =
        ((atTurn B now fid S (before.length + 1)).fabric.cells snk).state) := by
  have hr : (S.fields fid).routes[before.length]? = some r := by simp [hroutes]
  have hsame := sampledAt_frame B now S fid before.length r src
  dsimp only
  constructor
  · rw [software_turn B now S fid hr hsoft hsrc hsnk, driveSink_state, ← hsame.refreshRoute,
      (refreshRoute_keeps _ r).2.1]
    split
    · exact ungated_iff hctl
    · rfl
  · intro hlater
    have hlen : before.length + 1 ≤ (S.fields fid).routes.length := by
      simp [hroutes]
    refine processTransitions_keeps B now S fid hlen fun j hj r' hr' hworked => ?_
    rw [hroutes, List.getElem?_append_right (by omega)] at hr'
    obtain ⟨i, hi⟩ : ∃ i, j - before.length = i + 1 := ⟨j - before.length - 1, by omega⟩
    rw [hi, List.getElem?_cons_succ] at hr'
    obtain ⟨hne, hne'⟩ := hlater r' (List.mem_of_getElem? hr')
    rw [← refreshRoute_source] at hne
    rw [← refreshRoute_sink] at hne'
    exact hworked.elim (fun hsrc => hne hsrc.1) hne'

end Uncontrolled

/-- A board without inputs. -/
def idleBoard : Board Unit where
  gpioGetLevel _ _ := false
  gpioSetLevel _ _ _ := ()
  mmioRead _ _ := (0, ())
  mmioWrite _ _ _ := ()
  evolve _ _ := (0, ())
  emitArc _ _ := ()
  emitSync _ _ _ := ()

def ledPin : ℕ := 15

/-- `led_service` after boot, with the LED intended on. -/
def ledRoute : Route :=
  { zeroRoute with
    name := ascii "led_path"
    sourceCoord := makeCoord 0 0 1
    sinkCoord := makeCoord 1 1 15
    orientation := 1
    coupling := .software }

def ledFabric : Fabric :=
  let F := (fabricEnsureCell emptyAtlas true coldFabric (some (ascii "led_phys"))
    (makeCoord 1 1 15) true).2
  { F with cells := Function.update F.cells 2 (setAgency (F.cells 2) ledPin .hardwareOut).2 }

def ledSubstrate : Substrate Unit where
  fabric := ledFabric.setState 1 1
  fields _ := ⟨ascii "led_agency", [ledRoute], [], 0⟩
  globalFields := [0]
  world := ()

theorem ledSubstrate_resolves :
    tlbLookup ledSubstrate.fabric ledRoute ledRoute.cachedSource ledRoute.sourceCoord = some 1 ∧
      tlbLookup ledSubstrate.fabric ledRoute ledRoute.cachedSink ledRoute.sinkCoord = some 2 := by
  decide +kernel

theorem uncontrolled_route_iff_led :
    ((processTransitions idleBoard true 0 0 ledSubstrate).2.fabric.cells 2).state =
      ((atTurn idleBoard 0 0 ledSubstrate 1).fabric.cells 2).state := by
  have hroutes : (ledSubstrate.fields 0).routes = [] ++ ledRoute :: [] := rfl
  exact (uncontrolled_route_iff idleBoard 0 ledSubstrate 0 hroutes rfl rfl
    ledSubstrate_resolves.1 ledSubstrate_resolves.2).2 (by simp)

/-- `sys.origin` sits at the zero coordinate with state 0 and holds the LED down. -/
theorem led_gated_by_origin :
    getCellByCoord ledSubstrate.fabric ledRoute.sourceCoord = some 1 ∧
      getCellByCoord ledSubstrate.fabric ledRoute.sinkCoord = some 2 ∧
      ledRoute.controlCoord = zeroCoord ∧
      ((processTransitions idleBoard true 0 0 ledSubstrate).2.fabric.cells 2).state ≠
        ((processTransitions idleBoard true 0 0 ledSubstrate).2.fabric.cells 1).state *
          effectiveOrientation ledRoute := by
  decide +kernel

end ReflexOS.Goose
