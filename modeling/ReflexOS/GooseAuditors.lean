import ReflexOS.GooseLearning
import ReflexOS.GooseLoom

set_option autoImplicit false

/-!
# The auditors of a pulse

Two passes of the supervisor recompute what a pulse drove. The one works with the control
cell of a route as the pulse does, the other with the orientation alone.
-/
namespace ReflexOS.Goose
open VmTernary

/-- The domain is a run of whole labels of the name. -/
def domainMatch (name domain : CName) : Bool :=
  (List.range (name.length + 1)).any fun p =>
    domain.isPrefixOf (name.drop p) && (decide (p = 0) || decide (name[p - 1]? = some 46)) &&
      match name[p + domain.length]? with
      | none => true
      | some c => decide (c = 46)

/-- An output that is not what the route computes from its cells as they stand. -/
def routeUnbalanced (F : Fabric) (r : Route) : Bool :=
  match r.cachedSource, r.cachedSink with
  | some src, some snk =>
    decide (r.cachedVersion = F.version) && decide ((F.cells src).type ≠ .hardwareIn) &&
      decide ((F.cells snk).state ≠ i8 ((F.cells src).state * routeControl F r)) &&
      decide ((F.cells snk).type = .hardwareOut)
  | _, _ => false

def touchesPurpose (reg : Registry) (purpose : CName) (r : Route) : Bool :=
  ((gooniesResolveNameByCoord reg r.sourceCoord).any fun name => domainMatch name purpose) ||
    (gooniesResolveNameByCoord reg r.sinkCoord).any fun name => domainMatch name purpose

def routeRewarded (F : Fabric) (purpose : CName) (r : Route) : Bool :=
  match r.cachedSource, r.cachedSink with
  | some src, some snk =>
    touchesPurpose F.registry purpose r && decide ((F.cells src).state ≠ 0) &&
      decide ((F.cells src).state = (F.cells snk).state)
  | _, _ => false

/-- An output that is not the source times the orientation, where that is not zero. -/
def routeStuck (F : Fabric) (purpose : CName) (r : Route) : Bool :=
  match r.cachedSource, r.cachedSink with
  | some src, some snk =>
    let expected := i8 ((F.cells src).state * effectiveOrientation r)
    touchesPurpose F.registry purpose r && decide ((F.cells snk).type = .hardwareOut) &&
      (decide ((F.cells snk).state ≠ expected) && decide (expected ≠ 0))
  | _, _ => false

def autoRewardThreshold : ℕ := 2
def autoPainStuckTicks : ℕ := 5

variable {W : Type*}

/-- `goose_supervisor_check_equilibrium`, with the state it leaves the balance of the system in. -/
def checkEquilibrium (S : Substrate W) (fid : ℕ) : Err × ℤ :=
  if (S.fields fid).routes.any (routeUnbalanced S.fabric) then (Err.fail, 0) else (Err.ok, 1)

def fieldStuck (S : Substrate W) (purpose : CName) (fid : ℕ) : Bool :=
  (S.fields fid).routes.any (routeStuck S.fabric purpose)

def rewardScore (S : Substrate W) (purpose : CName) (supervised : List ℕ) : ℕ :=
  (supervised.map fun fid => (S.fields fid).routes.countP (routeRewarded S.fabric purpose)).sum

/-- The ticks a field has been stuck for, as a byte. -/
def stuckTicks (S : Substrate W) (purpose : CName) (supervised : List ℕ) (ticks : ℕ → ℕ) (f : ℕ) :
    ℕ :=
  match supervised[f]? with
  | none => ticks f
  | some fid =>
    if f < maxSupervisedFields then
      if fieldStuck S purpose fid then (ticks f + 1) % 2 ^ 8 else 0
    else ticks f

def painTriggered (S : Substrate W) (purpose : CName) (supervised : List ℕ) (ticks : ℕ → ℕ) :
    Bool :=
  (List.range (min supervised.length maxSupervisedFields)).any fun f =>
    (supervised[f]?.any fun fid => fieldStuck S purpose fid) &&
      decide (autoPainStuckTicks ≤ stuckTicks S purpose supervised ticks f)

/-- A cell is set by its name. -/
def signal (atlas : Atlas) (paging : Bool) (name : CName) (state : ℤ) (F : Fabric) : Fabric :=
  let resolved := resolveCell atlas paging F name
  match resolved.1 with
  | none => resolved.2
  | some v => resolved.2.setState v state

/-- `goose_supervisor_evaluate`: the ticks of each field, and the fabric. -/
def supervisorEvaluate (atlas : Atlas) (paging : Bool) (purpose : CName) (supervised : List ℕ)
    (ticks : ℕ → ℕ) (S : Substrate W) : (ℕ → ℕ) × Substrate W :=
  if purpose = [] then (ticks, S)
  else
    let F := S.fabric
    let F := if autoRewardThreshold ≤ rewardScore S purpose supervised then
      signal atlas paging rewardName 1 F else F
    let F := if painTriggered S purpose supervised ticks then
      signal atlas paging painName (-1) F else F
    (stuckTicks S purpose supervised ticks, { S with fabric := F })

/-- What an evaluation does to the ticks of a field that is not stuck. -/
def countsStuck (S : Substrate W) (purpose : CName) (fid : ℕ) : Bool :=
  decide (purpose ≠ []) && fieldStuck S purpose fid

theorem supervisorEvaluate_ticks (atlas : Atlas) (paging : Bool) {purpose : CName}
    {supervised : List ℕ} (ticks : ℕ → ℕ) (S : Substrate W) {f fid : ℕ}
    (hfid : supervised[f]? = some fid) (hf : f < maxSupervisedFields) :
    (supervisorEvaluate atlas paging purpose supervised ticks S).1 f =
      if countsStuck S purpose fid then (ticks f + 1) % 2 ^ 8
      else if purpose = [] then ticks f else 0 := by
  unfold supervisorEvaluate countsStuck
  by_cases hpurpose : purpose = []
  · rw [if_pos hpurpose, if_pos hpurpose, decide_eq_false (not_not.mpr hpurpose)]
    rfl
  · rw [if_neg hpurpose, if_neg hpurpose, decide_eq_true hpurpose, Bool.true_and]
    change stuckTicks S purpose supervised ticks f = _
    rw [stuckTicks, hfid]
    exact if_pos hf

/-- The field a pulse has run over. -/
def pulsed (B : Board W) (now fid : ℕ) (S : Substrate W) : Substrate W :=
  (processTransitions B true now fid S).2

/-- Software routes with endpoints; each sink belongs to one route and is read by none. -/
structure AuditedField (S : Substrate W) (fid : ℕ) : Prop where
  software : ∀ r ∈ (S.fields fid).routes, r.coupling = .software
  resolved : ∀ r ∈ (S.fields fid).routes, (refreshRoute S.fabric r).cachedSource.isSome = true ∧
    (refreshRoute S.fabric r).cachedSink.isSome = true
  once : (S.fields fid).routes.Pairwise fun r r' =>
    (refreshRoute S.fabric r).cachedSink ≠ (refreshRoute S.fabric r').cachedSink
  apart : ∀ r ∈ (S.fields fid).routes, ∀ r' ∈ (S.fields fid).routes, ∀ v,
    (refreshRoute S.fabric r).cachedSink = some v →
      (refreshRoute S.fabric r').cachedSource ≠ some v ∧
        (refreshRoute S.fabric r').cachedControl ≠ some v

/-- The pulse writes the sink, and leaves the cells the route reads as the route has read them. -/
structure SteadyOutput (B : Board W) (now fid : ℕ) (S : Substrate W) (n : ℕ) (r : Route)
    (src snk : ℕ) : Prop where
  writable : SinkWritable S.fabric r.sinkCoord snk
  source : ((pulsed B now fid S).fabric.cells src).state =
    ((sampledAt B now fid S n r src).fabric.cells src).state
  control : ∀ c, (refreshRoute S.fabric r).cachedControl = some c →
    ((pulsed B now fid S).fabric.cells c).state =
      ((sampledAt B now fid S n r src).fabric.cells c).state

/-- Every route into an output of the hardware is steady. -/
def SteadyOutputs (B : Board W) (now fid : ℕ) (S : Substrate W) : Prop :=
  ∀ n r src snk, (S.fields fid).routes[n]? = some r →
    (refreshRoute S.fabric r).cachedSource = some src →
    (refreshRoute S.fabric r).cachedSink = some snk → (S.fabric.cells snk).type = .hardwareOut →
      SteadyOutput B now fid S n r src snk

/-- A control cell, where there is one, does not contradict what the orientation expects of an
output under the purpose. -/
def ControlHeeded (F : Fabric) (purpose : CName) (r : Route) : Prop :=
  ∀ src snk c, r.cachedSource = some src → r.cachedSink = some snk → r.cachedControl = some c →
    touchesPurpose F.registry purpose r = true → (F.cells snk).type = .hardwareOut →
      i8 ((F.cells src).state * effectiveOrientation r) ≠ 0 →
        i8 ((F.cells src).state * (F.cells c).state) =
          i8 ((F.cells src).state * effectiveOrientation r)

section Pulsed

variable (B : Board W) (now fid : ℕ) (S : Substrate W)

theorem pulsed_fabric : SameButStates S.fabric (pulsed B now fid S).fabric :=
  (atTurn_frame B now S fid (S.fields fid).routes.length).1

theorem atTurn_routes (n j : ℕ) : ((atTurn B now fid S n).fields fid).routes[j]? =
    if j < n then ((S.fields fid).routes[j]?).map (refreshRoute S.fabric)
    else (S.fields fid).routes[j]? := by
  induction n with
  | zero =>
    rw [if_neg (Nat.not_lt_zero j)]
    exact (atTurn_frame B now S fid 0).2 j (Nat.zero_le j)
  | succ n ih =>
    obtain ⟨hfab, hlater⟩ := atTurn_frame B now S fid n
    have hn := hlater n (Nat.le_refl n)
    change ((routeTurn B fid (atTurn B now fid S n) n).fields fid).routes[j]? = _
    cases hr : ((atTurn B now fid S n).fields fid).routes[n]? with
    | none =>
      rw [routeTurn_none B _ hr, ih]
      by_cases hj : j = n
      · rw [hj, if_neg (Nat.lt_irrefl n), if_pos (Nat.lt_succ_self n), ← hn, hr]
        rfl
      · have hiff : j < n ↔ j < n + 1 := by omega
        simp only [hiff]
    | some r =>
      rw [(routeTurn_frame B _ hr).2.1]
      by_cases hj : j = n
      · have hlt : n < ((atTurn B now fid S n).fields fid).routes.length :=
          (List.getElem?_eq_some_iff.mp hr).1
        rw [hj, if_pos (Nat.lt_succ_self n), List.getElem?_set_self hlt, ← hn, hr,
          hfab.refreshRoute]
        rfl
      · have hiff : j < n ↔ j < n + 1 := by omega
        rw [List.getElem?_set_ne (Ne.symm hj), ih]
        simp only [hiff]

theorem pulsed_routes : ((pulsed B now fid S).fields fid).routes =
    (S.fields fid).routes.map (refreshRoute S.fabric) := by
  have hroutes : ((pulsed B now fid S).fields fid).routes =
      ((atTurn B now fid S (S.fields fid).routes.length).fields fid).routes := by
    change (((atTurn B now fid S (S.fields fid).routes.length).setField fid _).fields fid).routes = _
    rw [setField_fields]
  apply List.ext_getElem?
  intro j
  rw [hroutes, atTurn_routes, List.getElem?_map]
  by_cases hj : j < (S.fields fid).routes.length
  · rw [if_pos hj]
  · rw [if_neg hj, List.getElem?_eq_none (Nat.le_of_not_lt hj)]
    rfl

end Pulsed

theorem SameButStates.writable {F F' : Fabric} (h : SameButStates F F') (coord : Tryte9) (snk : ℕ) :
    SinkWritable F' coord snk ↔ SinkWritable F coord snk := by
  rw [SinkWritable, SinkWritable, h.peerId, h.peerCellName]

section Audit

variable {B : Board W} {now fid n : ℕ} {S : Substrate W} {r : Route} {src snk : ℕ}

/-- An audited sink is left as its own route drove it. -/
theorem AuditedField.sink (h : AuditedField S fid) (hr : (S.fields fid).routes[n]? = some r)
    (hsrc : (refreshRoute S.fabric r).cachedSource = some src)
    (hsnk : (refreshRoute S.fabric r).cachedSink = some snk)
    (hsteady : SteadyOutput B now fid S n r src snk) :
    ((pulsed B now fid S).fabric.cells snk).state =
      i8 (((pulsed B now fid S).fabric.cells src).state *
        routeControl (pulsed B now fid S).fabric (refreshRoute S.fabric r)) := by
  obtain ⟨hlt, hget⟩ := List.getElem?_eq_some_iff.mp hr
  have hmem := List.mem_of_getElem? hr
  have hlater : ∀ j, n + 1 ≤ j → ∀ r', (S.fields fid).routes[j]? = some r' →
      ¬ Worked S.fabric (refreshRoute S.fabric r') snk := by
    intro j hj r' hr' hworked
    obtain ⟨hjlt, hjget⟩ := List.getElem?_eq_some_iff.mp hr'
    have honce := List.pairwise_iff_getElem.mp h.once n j hlt hjlt hj
    rw [hget, hjget, hsnk] at honce
    rcases hworked with hsource | hsink
    · exact (h.apart r hmem r' (List.mem_of_getElem? hr') snk hsnk).1 hsource.1
    · exact honce hsink.symm
  have hturn := software_turn B now S fid hr (h.software r hmem)
    ((refreshRoute_source _ r).symm.trans hsrc) ((refreshRoute_sink _ r).symm.trans hsnk)
  have hsame := sampledAt_frame B now S fid n r src
  have hcontrol : routeControl (pulsed B now fid S).fabric (refreshRoute S.fabric r) =
      routeControl (sampledAt B now fid S n r src).fabric (refreshRoute S.fabric r) := by
    unfold routeControl
    cases hctl : (refreshRoute S.fabric r).cachedControl with
    | none => rfl
    | some c => exact hsteady.control c hctl
  have hkeeps : ((pulsed B now fid S).fabric.cells snk).state = _ :=
    processTransitions_keeps B now S fid hlt hlater
  rw [hkeeps, hturn, driveSink_state, (refreshRoute_keeps _ r).2.1,
    if_pos ((hsame.writable _ _).mpr hsteady.writable), hsteady.source, hcontrol]

/-- It is enough that no route takes a sample into a cell that a route before it has read. -/
theorem AuditedField.steady (h : AuditedField S fid)
    (hwritable : ∀ r ∈ (S.fields fid).routes, ∀ snk,
      (refreshRoute S.fabric r).cachedSink = some snk → SinkWritable S.fabric r.sinkCoord snk)
    (hsampled : (S.fields fid).routes.Pairwise fun r r' => ∀ v,
      (refreshRoute S.fabric r').cachedSource = some v → Sampled (S.fabric.cells v) →
        (refreshRoute S.fabric r).cachedSource ≠ some v ∧
          (refreshRoute S.fabric r).cachedControl ≠ some v) : SteadyOutputs B now fid S := by
  intro n r src snk hr hsrc hsnk _
  obtain ⟨hlt, hget⟩ := List.getElem?_eq_some_iff.mp hr
  have hmem := List.mem_of_getElem? hr
  have hturn := software_turn B now S fid hr (h.software r hmem)
    ((refreshRoute_source _ r).symm.trans hsrc) ((refreshRoute_sink _ r).symm.trans hsnk)
  have hread : ∀ v, (refreshRoute S.fabric r).cachedSource = some v ∨
      (refreshRoute S.fabric r).cachedControl = some v →
      ((pulsed B now fid S).fabric.cells v).state =
        ((sampledAt B now fid S n r src).fabric.cells v).state := by
    intro v hv
    have hne : v ≠ snk := by
      intro heq
      have hapart := h.apart r hmem r hmem snk hsnk
      rw [heq] at hv
      exact hv.elim hapart.1 hapart.2
    have hlater : ∀ j, n + 1 ≤ j → ∀ r', (S.fields fid).routes[j]? = some r' →
        ¬ Worked S.fabric (refreshRoute S.fabric r') v := by
      intro j hj r' hr' hworked
      obtain ⟨hjlt, hjget⟩ := List.getElem?_eq_some_iff.mp hr'
      have hlast := List.pairwise_iff_getElem.mp hsampled n j hlt hjlt hj v
      rw [hget, hjget] at hlast
      rcases hworked with hsource | hsink
      · have hout := hlast hsource.1 hsource.2
        exact hv.elim hout.1 hout.2
      · have hapart := h.apart r' (List.mem_of_getElem? hr') r hmem v hsink
        exact hv.elim hapart.1 hapart.2
    have hkeeps : ((pulsed B now fid S).fabric.cells v).state = _ :=
      processTransitions_keeps B now S fid hlt hlater
    rw [hkeeps, hturn]
    exact (driveSink_touches B _ _ src snk).states v hne
  exact ⟨hwritable r hmem snk hsnk, hread src (.inl hsrc), fun c hc => hread c (.inr hc)⟩

theorem AuditedField.balanced (h : AuditedField S fid) (hsteady : SteadyOutputs B now fid S) :
    checkEquilibrium (pulsed B now fid S) fid = (Err.ok, 1) := by
  apply if_neg
  rw [pulsed_routes, List.any_eq_true]
  rintro ⟨r', hr', hunbalanced⟩
  obtain ⟨r, hr, rfl⟩ := List.mem_map.mp hr'
  obtain ⟨n, hn⟩ := List.mem_iff_getElem?.mp hr
  unfold routeUnbalanced at hunbalanced
  cases hsrc : (refreshRoute S.fabric r).cachedSource with
  | none => simp [hsrc] at hunbalanced
  | some src =>
    cases hsnk : (refreshRoute S.fabric r).cachedSink with
    | none => simp [hsrc, hsnk] at hunbalanced
    | some snk =>
      simp only [hsrc, hsnk, Bool.and_eq_true, decide_eq_true_eq] at hunbalanced
      obtain ⟨⟨-, hstate⟩, htype⟩ := hunbalanced
      rw [(pulsed_fabric B now fid S).type] at htype
      exact hstate (h.sink hn hsrc hsnk (hsteady n r src snk hn hsrc hsnk htype))

theorem AuditedField.stuck_iff (h : AuditedField S fid) (hsteady : SteadyOutputs B now fid S)
    (hr : r ∈ (S.fields fid).routes) (purpose : CName) :
    routeStuck (pulsed B now fid S).fabric purpose (refreshRoute S.fabric r) = false ↔
      ControlHeeded (pulsed B now fid S).fabric purpose (refreshRoute S.fabric r) := by
  obtain ⟨n, hn⟩ := List.mem_iff_getElem?.mp hr
  obtain ⟨hissrc, hissnk⟩ := h.resolved r hr
  obtain ⟨src, hsrc⟩ := Option.isSome_iff_exists.mp hissrc
  obtain ⟨snk, hsnk⟩ := Option.isSome_iff_exists.mp hissnk
  have hdriven : ((pulsed B now fid S).fabric.cells snk).type = .hardwareOut →
      ((pulsed B now fid S).fabric.cells snk).state =
        i8 (((pulsed B now fid S).fabric.cells src).state *
          routeControl (pulsed B now fid S).fabric (refreshRoute S.fabric r)) := by
    intro htype
    rw [(pulsed_fabric B now fid S).type] at htype
    exact h.sink hn hsrc hsnk (hsteady n r src snk hn hsrc hsnk htype)
  unfold routeStuck ControlHeeded
  simp only [hsrc, hsnk, Bool.and_eq_false_imp, Bool.and_eq_true, decide_eq_true_eq,
    decide_eq_false_iff_not, not_not]
  constructor
  · intro hfine src' snk' c hsrc' hsnk' hctl htouches htype hexpected
    obtain rfl := Option.some.inj hsrc'
    obtain rfl := Option.some.inj hsnk'
    have hstate := hdriven htype
    rw [routeControl, hctl] at hstate
    by_contra hne
    exact hexpected (hfine ⟨htouches, htype⟩ (by rw [hstate]; exact hne))
  · rintro hheeded ⟨htouches, htype⟩ hne
    by_contra hexpected
    have hstate := hdriven htype
    cases hctl : (refreshRoute S.fabric r).cachedControl with
    | none =>
      rw [routeControl, hctl] at hstate
      exact hne hstate
    | some c =>
      rw [routeControl, hctl] at hstate
      exact hne (hstate.trans (hheeded src snk c rfl rfl hctl htouches htype hexpected))

end Audit

theorem led_cells : (refreshRoute ledSubstrate.fabric ledRoute).cachedSource = some 1 ∧
    (refreshRoute ledSubstrate.fabric ledRoute).cachedSink = some 2 ∧
    (refreshRoute ledSubstrate.fabric ledRoute).cachedControl = some 0 := by
  decide +kernel

theorem led_audited : AuditedField ledSubstrate 0 := by
  obtain ⟨hsrc, hsnk, hctl⟩ := led_cells
  have hone : ∀ r ∈ (ledSubstrate.fields 0).routes, r = ledRoute := fun r => List.mem_singleton.mp
  refine ⟨fun r hr => ?_, fun r hr => ?_, List.pairwise_singleton _ _, fun r hr r' hr' v hv => ?_⟩
  · rw [hone r hr]
    rfl
  · rw [hone r hr, hsrc, hsnk]
    exact ⟨rfl, rfl⟩
  · rw [hone r hr, hsnk] at hv
    obtain rfl := Option.some.inj hv
    rw [hone r' hr', hsrc, hctl]
    decide

theorem led_steady : SteadyOutputs idleBoard 0 0 ledSubstrate := by
  apply led_audited.steady
  · intro r hr snk hsnk
    rw [List.mem_singleton.mp hr, led_cells.2.1] at hsnk
    obtain rfl := Option.some.inj hsnk
    exact .inl (by decide +kernel)
  · exact List.pairwise_singleton _ _

def resampledRoute (src snk : ℕ) (control : Option ℕ) : Route :=
  { zeroRoute with
    orientation := 1
    coupling := .software
    cachedSource := some src
    cachedSink := some snk
    cachedControl := control }

/-- The input on pin 5 controls the first route and is the source of the second. -/
def resampledSubstrate : Substrate Unit where
  fabric := { blankFabric with
    cells := fun v => match v with
      | 0 => { zeroCell with state := 1 }
      | 1 => { zeroCell with state := 1, type := .hardwareIn, hardwareAddr := 5 }
      | _ => { zeroCell with type := .hardwareOut } }
  fields _ := ⟨ascii "reflex", [resampledRoute 0 2 (some 1), resampledRoute 1 3 none], [], 0⟩
  globalFields := [0]
  world := ()

-- The hypothesis on the samples is needed: the pin reads low after the first route has used it.
example : (checkEquilibrium (pulsed idleBoard 0 0 resampledSubstrate) 0).1 = Err.fail := by
  decide +kernel

end ReflexOS.Goose
