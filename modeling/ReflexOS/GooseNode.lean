import ReflexOS.GooseSnapshotLoad

set_option autoImplicit false

/-!
# The node

A board's tapestry, atmosphere and metabolism, and what acts on them after a cold boot.
-/
namespace ReflexOS.Goose
open VmTernary Runs

variable {W : Type*}

structure Node (W : Type*) where
  tapestry : Tapestry W
  atmosphere : Atmosphere
  metabolism : Metabolism

/-- The vitals point to live cells, and what stands for a vital is a trit. -/
structure Metabolism.Ternary (count : ℕ) (E : Metabolism) : Prop where
  temp : Held count E.tempCell
  batt : Held count E.battCell
  mesh : Held count E.meshCell
  heap : Held count E.heapCell
  metabolic : Held count E.metabolicCell
  state : IsTrit E.metabolicState

structure Node.Ternary (N : Node W) : Prop where
  substrate : Goose.Ternary N.tapestry.substrate
  metabolism : N.metabolism.Ternary N.tapestry.substrate.fabric.cellCount

/-- A field as the code weaves it: ternary orientations, nothing cached. -/
structure FreshField where
  field : Field
  orientation : ∀ r ∈ field.routes, IsTrit r.orientation ∧ IsTrit r.learnedOrientation
  routes : ∀ r ∈ field.routes,
    r.cachedSource = none ∧ r.cachedSink = none ∧ r.cachedControl = none
  transitions : ∀ t ∈ field.transitions, t.cachedTarget = none

inductive NodeOp where
  | atmosphereInit (lock : Bool)
  | metabolicInit (lock : Bool)
  | seed (lock : Bool) (name : CName) (coord : Tryte9) (state : { z : ℤ // IsTrit z })
  | alloc (lock : Bool) (name : Option CName) (coord : Tryte9) (sys ret : Bool)
  | resolve (lock : Bool) (now : ℕ) (name : CName)
  /-- Agency, mask, type and peer of a cell. -/
  | bind (idx : ℕ) (type : CellType) (peerId hardwareAddr bitMask : ℕ)
  /-- A service or the supervisor publishes a reading. -/
  | publish (idx : ℕ) (state : { z : ℤ // IsTrit z })
  | weaveField (fid : ℕ) (field : FreshField)
  | startPulse (fid : ℕ)
  | supervise (fid : ℕ)
  | addPeer (now : ℕ) (name : CName) (mac : Mac)
  | pulse (lock : Bool) (now fid : ℕ)
  | recv (calls : RecvCalls) (localMac src : Mac) (data : List UInt8)
  | snapshotLoad (kv : CName → Option (List UInt8)) (lock : ℕ → Bool)
  | weaveLoom (calls : LoomCalls) (buffer : Option (List UInt8))
  | learn (paging lock : Bool)
  | metabolic (freeBytes : ℕ)
  | override (vital : CName) (state : ℤ)
  | clearOverrides
  | swarm
  | staleness (now : ℕ)

def Node.onSubstrate (N : Node W) (S : Substrate W) : Node W :=
  { N with tapestry := { N.tapestry with substrate := S } }

def Node.onFabric (N : Node W) (F : Fabric) : Node W :=
  N.onSubstrate { N.tapestry.substrate with fabric := F }

def nodeStep (atlas : Atlas) (hmac : List UInt8 → List UInt8) (B : Board W) (N : Node W) :
    NodeOp → Node W
  | .atmosphereInit lock =>
    let started := atmosphereInit atlas lock N.tapestry.substrate.fabric N.atmosphere
    { N.onFabric started.1 with atmosphere := started.2 }
  | .metabolicInit lock =>
    let started := metabolicInit atlas lock N.tapestry.substrate.fabric N.metabolism
    { N.onFabric started.1 with metabolism := started.2 }
  | .seed lock name coord state =>
    N.onFabric (seedSystemOnly atlas lock N.tapestry.substrate.fabric name coord state).2
  | .alloc lock name coord sys ret =>
    N.onFabric (fabricAllocInternal atlas lock N.tapestry.substrate.fabric name coord sys ret).2
  | .resolve lock now name =>
    let got := gooniesResolveCell atlas hmac lock now N.tapestry.substrate.fabric N.tapestry.mesh name
    { N with tapestry := N.tapestry.onFabric got.2 }
  | .bind idx type peerId hardwareAddr bitMask =>
    let F := N.tapestry.substrate.fabric
    let cell := { F.cells idx with
      type := type, peerId := peerId, hardwareAddr := hardwareAddr, bitMask := bitMask }
    N.onFabric { F with cells := Function.update F.cells idx cell }
  | .publish idx state => N.onFabric (N.tapestry.substrate.fabric.setState idx state)
  | .weaveField fid field => N.onSubstrate (N.tapestry.substrate.setField fid field.field)
  | .startPulse fid => N.onSubstrate (fieldStartPulse N.tapestry.substrate fid)
  | .supervise fid =>
    { N with tapestry := { N.tapestry with
      supervised := supervisorRegisterField N.tapestry.supervised fid } }
  | .addPeer now name mac =>
    let peers := (addPeer now N.tapestry.mesh.peers name mac).2
    { N with tapestry := { N.tapestry with mesh := { N.tapestry.mesh with peers := peers } } }
  | .pulse lock now fid => N.onSubstrate (processTransitions B lock now fid N.tapestry.substrate).2
  | .recv calls localMac src data =>
    let got := atmosphereRecv atlas hmac calls localMac src data N.tapestry N.atmosphere
    { N with tapestry := got.1, atmosphere := got.2 }
  | .snapshotLoad kv lock =>
    N.onSubstrate (snapshotLoad kv lock N.tapestry.supervised N.tapestry.substrate)
  | .weaveLoom calls buffer =>
    { N with tapestry := (weaveLoom atlas hmac calls N.tapestry buffer).2 }
  | .learn paging lock =>
    N.onSubstrate (learnSync atlas paging lock N.tapestry.supervised N.tapestry.substrate)
  | .metabolic freeBytes =>
    let synced := metabolicSync freeBytes N.atmosphere.meshStats N.tapestry.substrate.fabric
      N.metabolism
    { N.onFabric synced.1 with metabolism := synced.2 }
  | .override vital state => { N with metabolism := (metabolicOverride vital state N.metabolism).2 }
  | .clearOverrides =>
    let cleared := metabolicClearOverrides N.tapestry.substrate.fabric N.metabolism
    { N.onFabric cleared.1 with metabolism := cleared.2 }
  | .swarm => { N with atmosphere := swarmSync N.atmosphere }
  | .staleness now =>
    let checked := stalenessCheck now N.tapestry.substrate.fabric N.tapestry.mesh
    { N with tapestry := N.tapestry.onFabric checked }

def NodeStep (atlas : Atlas) (hmac : List UInt8 → List UInt8) (B : Board W) (N : Node W)
    (op : NodeOp) (N' : Node W) : Prop := nodeStep atlas hmac B N op = N'

def coldAtmosphere : Atmosphere := ⟨emptyReplayCache, 0, 0, ⟨0, 0, 0, 0, 0, 0⟩⟩

def coldMetabolism : Metabolism :=
  ⟨none, none, none, none, none, none, none, none, none, 0, ⟨0, 0, 0, 0⟩, 1, 0⟩

/-- After a cold boot: the retained memory held anything, and so may the stored peers. -/
def coldNode (atlas : Atlas) (purpose : Bool) (F : Fabric) (peers : List Peer) (w : W) : Node W where
  tapestry :=
    { substrate :=
        { fabric := fabricInit atlas true purpose F
          fields := fun _ => ⟨[], [], [], 0⟩
          globalFields := []
          world := w }
      mesh := ⟨peers, 0, 0, []⟩
      supervised := []
      activeLoomFragments := 0 }
  atmosphere := coldAtmosphere
  metabolism := coldMetabolism

section Passes

variable {n : ℕ}

theorem RouteTernary.learn {sig : Signals} {r : Route} (h : RouteTernary n r) :
    RouteTernary n (learnRoute sig r) := by
  have hlearned : ∀ (o k : ℤ), IsTrit o →
      RouteTernary n { r with learnedOrientation := o, hebbianCounter := k } := fun o k ho =>
    ⟨h.orientation, ho, h.source, h.sink, h.control⟩
  have hreward : ∀ m s k, RouteTernary n (rewardRoute m s k r) := by
    intro m s k
    unfold rewardRoute
    dsimp only
    split
    · exact h
    split_ifs
    all_goals first
      | exact hlearned 1 0 (by decide)
      | exact hlearned (-1) 0 (by decide)
      | exact hlearned r.learnedOrientation _ h.learned
  have hdecay : RouteTernary n (decayRoute r) := by
    unfold decayRoute
    split_ifs
    · exact hlearned r.learnedOrientation _ h.learned
    · exact hlearned r.learnedOrientation _ h.learned
    · exact h
  unfold learnRoute
  split
  · split
    · exact hreward _ _ _
    split
    · exact hdecay
    · exact h
  · exact h

theorem Ternary.learnFields {S : Substrate W} (h : Ternary S) (sig : Signals)
    (supervised : List ℕ) : Ternary (learnFields sig supervised S) := by
  unfold Goose.learnFields
  induction supervised generalizing S with
  | nil => exact h
  | cons f rest ih =>
    refine ih (h.setField f ⟨fun r hr => ?_, (h.fields f).transitions⟩)
    obtain ⟨r₀, hr₀, rfl⟩ := List.mem_map.mp hr
    exact ((h.fields f).routes r₀ hr₀).learn

theorem learnSignals_tame (atlas : Atlas) (paging : Bool) (F : Fabric) :
    Tame F (learnSignals atlas paging F).fabric := by
  have hpain := resolveCell_weaves atlas paging F painName
  have hreward := resolveCell_weaves atlas paging (resolveCell atlas paging F painName).2 rewardName
  unfold learnSignals
  dsimp only
  split
  · exact hpain.tame.trans hreward.tame
  · exact (hpain.tame.trans hreward.tame).trans (resolveCell_weaves atlas paging _ seedPurpose).tame

theorem Ternary.learnSync {S : Substrate W} (h : Ternary S) (atlas : Atlas) (paging lock : Bool)
    (supervised : List ℕ) : Ternary (learnSync atlas paging lock supervised S) := by
  have hsig := h.onFabric (learnSignals_tame atlas paging S.fabric)
  have hlearned := hsig.learnFields (learnSignals atlas paging S.fabric) supervised
  unfold Goose.learnSync
  dsimp only
  split
  · exact hsig
  split
  · split
    · exact hlearned.setState _ (by decide)
    · exact hlearned
  · exact hlearned

theorem restoreEntry_ternary {routes : List Route} (h : ∀ r ∈ routes, RouteTernary n r)
    (e : SnapEntry) : ∀ r ∈ restoreEntry routes e, RouteTernary n r := by
  unfold restoreEntry
  split
  · exact h
  next i _ =>
    intro r hr
    obtain ⟨j, hj⟩ := List.mem_iff_getElem?.mp hr
    rw [List.getElem?_modify] at hj
    obtain ⟨r₀, hr₀, hmod⟩ := Option.map_eq_some_iff.mp hj
    have hold := h r₀ (List.mem_of_getElem? hr₀)
    split at hmod
    · rw [← hmod]
      exact ⟨hold.orientation, policyClampLearnedOrientation_isTrit _, hold.source, hold.sink,
        hold.control⟩
    · rw [← hmod]
      exact hold

theorem restoreEntries_ternary {routes : List Route} (h : ∀ r ∈ routes, RouteTernary n r)
    (entries : List SnapEntry) : ∀ r ∈ entries.foldl restoreEntry routes, RouteTernary n r := by
  induction entries generalizing routes with
  | nil => exact h
  | cons e rest ih => exact ih (restoreEntry_ternary h e)

theorem Ternary.snapshotLoad {S : Substrate W} (h : Ternary S) (kv : CName → Option (List UInt8))
    (lock : ℕ → Bool) (supervised : List ℕ) : Ternary (snapshotLoad kv lock supervised S) := by
  have hfield : ∀ {S : Substrate W}, Ternary S → ∀ f, Ternary (snapshotLoadField kv lock S f) := by
    intro S hS f
    unfold snapshotLoadField
    dsimp only
    split
    · exact hS
    split
    · exact hS
    split
    · exact hS
    · exact hS.setField f ⟨restoreEntries_ternary (hS.fields f).routes _, (hS.fields f).transitions⟩
  unfold Goose.snapshotLoad
  induction supervised generalizing S with
  | nil => exact h
  | cons f rest ih => exact ih (hfield h f)

theorem resolveNames_tame (atlas : Atlas) (hmac : List UInt8 → List UInt8) (calls : LoomCalls)
    (buffer : List UInt8) (F : Fabric) (M : Mesh) (k : ℕ) :
    Tame F (resolveNames atlas hmac calls buffer F M k).fabric := by
  induction k with
  | zero => exact .refl F
  | succ k ih => exact ih.trans (gooniesResolveCell_weaves atlas _ _ hmac _ _ _).tame

/-- Each route of an accepted fragment passed the policy. -/
theorem loomRoute_ternary {buffer : List UInt8} {R : Resolved}
    (hok : loomRoutesError buffer R.cells = Err.ok) {i : ℕ} (hi : i < (loomHeader buffer).routeCount) :
    RouteTernary n (loomRoute buffer R i) := by
  obtain ⟨-, -, horient, -⟩ := loomRouteError_sound (loomRoutesError_ok hok hi)
  exact ⟨horient, (by decide : IsTrit 0), held_none _, held_none _, held_none _⟩

theorem weaveLoom_ternary (atlas : Atlas) (hmac : List UInt8 → List UInt8) (calls : LoomCalls)
    {T : Tapestry W} (h : Ternary T.substrate) (buffer : Option (List UInt8)) :
    Ternary (weaveLoom atlas hmac calls T buffer).2.substrate ∧
      T.substrate.fabric.cellCount ≤
        (weaveLoom atlas hmac calls T buffer).2.substrate.fabric.cellCount := by
  cases buffer with
  | none => exact ⟨h, le_refl _⟩
  | some buffer =>
    have htame := resolveNames_tame atlas hmac calls buffer T.substrate.fabric T.mesh
      (loomHeader buffer).cellCount
    have hresolved := h.onFabric htame
    by_cases hok : (weaveLoom atlas hmac calls T (some buffer)).1 = Err.ok
    · obtain ⟨-, hroutes, fid, -, hwoven⟩ := weaveLoom_woven hok
      have hfield : ∀ k, FieldTernary k (loomField buffer
          (resolveNames atlas hmac calls buffer T.substrate.fabric T.mesh
            (loomHeader buffer).cellCount)) := by
        intro k
        refine ⟨fun r hr => ?_, fun t ht => nomatch ht⟩
        obtain ⟨i, hi, rfl⟩ := List.mem_map.mp hr
        exact loomRoute_ternary hroutes (List.mem_range.mp hi)
      rw [hwoven]
      refine ⟨(hresolved.setField fid (hfield _)).startPulse fid, ?_⟩
      dsimp only
      rw [fieldStartPulse_fabric]
      exact htame.count
    · rw [weaveLoom_refused hok]
      split
      · exact ⟨hresolved, htame.count⟩
      · exact ⟨h, le_refl _⟩

theorem recvSync_ternary {S : Substrate W} (h : Ternary S) {p : ArcPacket} (hp : IsTrit (arcState p)) :
    Ternary (recvSync S p) ∧ (recvSync S p).fabric.cellCount = S.fabric.cellCount := by
  unfold recvSync
  split
  · exact ⟨h, rfl⟩
  · exact ⟨h.setState _ hp, rfl⟩

theorem answerQuery_tame (atlas : Atlas) (hmac : List UInt8 → List UInt8) (calls : RecvCalls)
    (F : Fabric) (M : Mesh) (p : ArcPacket) : Tame F (answerQuery atlas hmac calls F M p).1 := by
  unfold answerQuery
  split
  · exact .refl F
  · have hgot := fun name => gooniesResolveCell_weaves atlas calls.lock F hmac calls.later M name
    dsimp only
    split
    · exact (hgot _).tame
    · exact (hgot _).tame

theorem postureOf_isTrit (accum : ℤ) : IsTrit (postureOf accum) := by
  unfold postureOf
  split_ifs <;> decide

theorem publishPosture_tame (atlas : Atlas) (hmac : List UInt8 → List UInt8) (calls : RecvCalls)
    (F : Fabric) (M : Mesh) (accum : ℤ) :
    Tame F (publishPosture atlas hmac calls F M accum).1 := by
  have hgot := gooniesResolveCell_weaves atlas calls.lock F hmac calls.later M swarmPostureName
  unfold publishPosture
  dsimp only
  split
  · exact hgot.tame
  · exact hgot.tame.trans (.setState _ fun _ => postureOf_isTrit accum)

theorem mirrorState_tame (F : Fabric) (peerIdx : ℕ) (peerName : CName) (nameHash : ℕ) {state : ℤ}
    (hs : IsTrit state) : Tame F (mirrorState F peerIdx peerName nameHash state) := by
  unfold mirrorState
  split
  · exact .refl F
  split
  · exact .refl F
  split
  · exact .setState _ fun _ => hs
  · exact .refl F

theorem mmioSyncRecv_tame (now : ℕ) (F : Fabric) (M : Mesh) (mac : Mac) (nameHash : ℕ) {state : ℤ}
    (hs : IsTrit state) : Tame F (mmioSyncRecv now F M mac nameHash state).1 := by
  unfold mmioSyncRecv
  split
  · exact .refl F
  · exact mirrorState_tame F _ _ nameHash hs

theorem Tame.foldl {α : Type*} {f : Fabric → α → Fabric} (hf : ∀ F a, Tame F (f F a))
    (F : Fabric) (l : List α) : Tame F (l.foldl f F) := by
  induction l generalizing F with
  | nil => exact .refl F
  | cons a l ih => exact (hf F a).trans (ih _)

theorem resetPhantoms_tame (F : Fabric) (pid : ℕ) : Tame F (resetPhantoms F pid) := by
  refine Tame.foldl (fun F name => ?_) F _
  split
  · split
    · exact .refl F
    split
    · exact .setState _ fun _ => by decide
    · exact .refl F
  · exact .refl F

theorem stalenessCheck_tame (now : ℕ) (F : Fabric) (M : Mesh) :
    Tame F (stalenessCheck now F M).1 := by
  refine Tame.foldl (fun F p => ?_) F _
  split
  · exact resetPhantoms_tame F _
  · exact .refl F

/-- What passes the gates carries a trit. -/
theorem acceptArc_isTrit {hmac : List UInt8 → List UInt8} {localMac src : Mac} {data : List UInt8}
    {p : ArcPacket} (h : acceptArc hmac localMac src data = some p) : IsTrit (arcState p) := by
  unfold acceptArc at h
  dsimp only at h
  split_ifs at h with _ _ _ _ hrange
  cases h
  constructor <;> omega

theorem handleArc_ternary (atlas : Atlas) (hmac : List UInt8 → List UInt8) (calls : RecvCalls)
    (src : Mac) {p : ArcPacket} (hp : IsTrit (arcState p)) {T : Tapestry W} (A : Atmosphere)
    (h : Ternary T.substrate) :
    Ternary (handleArc atlas hmac calls src p T A).1.substrate ∧ T.substrate.fabric.cellCount ≤
      (handleArc atlas hmac calls src p T A).1.substrate.fabric.cellCount := by
  have hkeep : Ternary T.substrate ∧ T.substrate.fabric.cellCount ≤ T.substrate.fabric.cellCount :=
    ⟨h, le_refl _⟩
  have hfabric : ∀ got : Fabric × Mesh, Tame T.substrate.fabric got.1 →
      Ternary (T.onFabric got).substrate ∧
        T.substrate.fabric.cellCount ≤ (T.onFabric got).substrate.fabric.cellCount :=
    fun got hgot => ⟨h.onFabric hgot, hgot.count⟩
  unfold handleArc
  dsimp only
  split
  · exact ⟨(recvSync_ternary h hp).1, (recvSync_ternary h hp).2.ge⟩
  split
  · split
    · exact hkeep
    · exact hfabric _ (answerQuery_tame atlas hmac calls _ _ p)
  split
  · exact hkeep
  split
  · exact hfabric _ (publishPosture_tame atlas hmac calls _ _ _)
  split
  · exact hfabric _ (mmioSyncRecv_tame _ _ _ src _ hp)
  split
  · exact hkeep
  · exact hkeep

theorem atmosphereRecv_ternary (atlas : Atlas) (hmac : List UInt8 → List UInt8) (calls : RecvCalls)
    (localMac src : Mac) (data : List UInt8) {T : Tapestry W} (A : Atmosphere)
    (h : Ternary T.substrate) :
    Ternary (atmosphereRecv atlas hmac calls localMac src data T A).1.substrate ∧
      T.substrate.fabric.cellCount ≤
        (atmosphereRecv atlas hmac calls localMac src data T A).1.substrate.fabric.cellCount := by
  unfold atmosphereRecv
  split
  · exact ⟨h, le_refl _⟩
  next p hp =>
    dsimp only
    split
    · exact ⟨h, le_refl _⟩
    · exact handleArc_ternary atlas hmac calls src (acceptArc_isTrit hp) _ h

theorem Metabolism.Ternary.mono {n m : ℕ} {E : Metabolism} (h : E.Ternary n) (hle : n ≤ m) :
    E.Ternary m :=
  ⟨h.temp.mono hle, h.batt.mono hle, h.mesh.mono hle, h.heap.mono hle, h.metabolic.mono hle,
    h.state⟩

theorem writeVital_tame (F : Fabric) (cell : Option ℕ) {state : ℤ} (hs : IsTrit state) :
    Tame F (writeVital F cell state) := by
  unfold writeVital
  split
  · exact .refl F
  · exact .setState _ fun _ => hs

theorem computeHeapState_isTrit (freeBytes : ℕ) : IsTrit (computeHeapState freeBytes) := by
  unfold computeHeapState
  split_ifs <;> decide

theorem policyMeshState_isTrit (w : MeshWindow) (delta isolated sparse : ℕ) :
    IsTrit (policyMeshState w delta isolated sparse).1 := by
  unfold policyMeshState
  dsimp only
  split_ifs <;> decide

theorem rawMetabolic_isTrit (temp batt heap : ℤ) : IsTrit (rawMetabolic temp batt heap) := by
  unfold rawMetabolic
  dsimp only
  split_ifs <;> decide

/-- Recovery never climbs past the level it is heading for. -/
theorem computeCircuitBreaker_isTrit (temp batt heap : ℤ) {E : Metabolism}
    (h : IsTrit E.metabolicState) : IsTrit (computeCircuitBreaker temp batt heap E).metabolicState := by
  have hraw := rawMetabolic_isTrit temp batt heap
  unfold computeCircuitBreaker
  dsimp only
  split
  · exact hraw
  split
  · split
    · have hnext : IsTrit (E.metabolicState + 1) := by
        obtain ⟨hlo, -⟩ := h
        obtain ⟨-, hhi⟩ := hraw
        constructor <;> omega
      change IsTrit (i8 (E.metabolicState + 1))
      rw [hnext.i8]
      exact hnext
    · exact h
  · exact h

theorem computeCircuitBreaker_ternary (temp batt heap : ℤ) {E : Metabolism} (h : E.Ternary n) :
    (computeCircuitBreaker temp batt heap E).Ternary n := by
  have hstate := computeCircuitBreaker_isTrit temp batt heap h.state
  have hcells : ∀ E' : Metabolism, E'.tempCell = E.tempCell → E'.battCell = E.battCell →
      E'.meshCell = E.meshCell → E'.heapCell = E.heapCell → E'.metabolicCell = E.metabolicCell →
      IsTrit E'.metabolicState → E'.Ternary n := by
    intro E' ht hb hm hh hme hs
    exact ⟨ht ▸ h.temp, hb ▸ h.batt, hm ▸ h.mesh, hh ▸ h.heap, hme ▸ h.metabolic, hs⟩
  refine hcells _ ?_ ?_ ?_ ?_ ?_ hstate <;>
  · unfold computeCircuitBreaker
    dsimp only
    split_ifs <;> rfl

theorem scanMesh_ternary (stats : MeshStats) {F : Fabric} {E : Metabolism} (h : E.Ternary n) :
    Tame F (scanMesh stats F E).1 ∧ (scanMesh stats F E).2.Ternary n := by
  unfold scanMesh
  split
  · exact ⟨writeVital_tame F _ (policyMeshState_isTrit _ _ _ _),
      ⟨h.temp, h.batt, h.mesh, h.heap, h.metabolic, h.state⟩⟩
  · exact ⟨.refl F, h⟩

theorem metabolicSync_ternary (freeBytes : ℕ) (stats : MeshStats) {F : Fabric} {E : Metabolism}
    (h : E.Ternary n) : Tame F (metabolicSync freeBytes stats F E).1 ∧
      (metabolicSync freeBytes stats F E).2.Ternary n := by
  have hheap : Tame F (if E.overrideHeap.isNone then
      writeVital F E.heapCell (computeHeapState freeBytes) else F) := by
    split
    · exact writeVital_tame F _ (computeHeapState_isTrit freeBytes)
    · exact .refl F
  unfold metabolicSync
  dsimp only
  generalize (if E.overrideHeap.isNone then
    writeVital F E.heapCell (computeHeapState freeBytes) else F) = G at hheap ⊢
  have hscan : Tame G (scanMesh stats G E).1 ∧ (scanMesh stats G E).2.Ternary n :=
    scanMesh_ternary stats h
  have hbreaker := fun temp batt heap => computeCircuitBreaker_ternary temp batt heap hscan.2
  exact ⟨(hheap.trans hscan.1).trans (writeVital_tame _ _ (hbreaker _ _ _).state),
    hbreaker _ _ _⟩

theorem metabolicInit_ternary (atlas : Atlas) (lock : Bool) (F : Fabric) (E : Metabolism) :
    Tame F (metabolicInit atlas lock F E).1 ∧
      (metabolicInit atlas lock F E).2.Ternary (metabolicInit atlas lock F E).1.cellCount := by
  have htemp := resolveCell_weaves atlas lock F tempReadingName
  unfold metabolicInit
  dsimp only
  generalize resolveCell atlas lock F tempReadingName = temp at htemp ⊢
  have hbatt := seedVital_weaves atlas lock temp.2 batteryName (makeCoord (-1) 4 1)
    (by decide : IsTrit 1)
  generalize seedVital atlas lock temp.2 batteryName _ 1 = batt at hbatt ⊢
  have hmesh := seedVital_weaves atlas lock batt.2 meshHealthName (makeCoord (-1) 4 2)
    (by decide : IsTrit 0)
  generalize seedVital atlas lock batt.2 meshHealthName _ 0 = mesh at hmesh ⊢
  have hheap := seedVital_weaves atlas lock mesh.2 heapPressureName (makeCoord (-1) 4 (-1))
    (by decide : IsTrit 1)
  generalize seedVital atlas lock mesh.2 heapPressureName _ 1 = heap at hheap ⊢
  have hmetabolic := seedSystemOnly_weaves atlas lock heap.2 metabolicName (makeCoord 0 0 3)
    (by decide : IsTrit 1)
  have h3 := hheap.tame.trans hmetabolic.tame
  have h2 := hmesh.tame.trans h3
  have h1 := hbatt.tame.trans h2
  exact ⟨htemp.tame.trans h1, htemp.held.mono h1.count, hbatt.held.mono h2.count,
    hmesh.held.mono h3.count, hheap.held.mono hmetabolic.tame.count, hmetabolic.held,
    (by decide : IsTrit 1)⟩

theorem metabolicOverride_ternary (vital : CName) (state : ℤ) {E : Metabolism} (h : E.Ternary n) :
    (metabolicOverride vital state E).2.Ternary n := by
  unfold metabolicOverride
  split
  · exact h
  · split <;> exact ⟨h.temp, h.batt, h.mesh, h.heap, h.metabolic, h.state⟩

end Passes

section Step

variable (atlas : Atlas) (hmac : List UInt8 → List UInt8) {B : Board W}

theorem Node.Ternary.onSubstrate {N : Node W} (h : N.Ternary) {S : Substrate W}
    (hS : Goose.Ternary S) (hcount : N.tapestry.substrate.fabric.cellCount ≤ S.fabric.cellCount) :
    (N.onSubstrate S).Ternary := ⟨hS, h.metabolism.mono hcount⟩

theorem Node.Ternary.onFabric {N : Node W} (h : N.Ternary) {F : Fabric}
    (hF : Tame N.tapestry.substrate.fabric F) : (N.onFabric F).Ternary :=
  ⟨h.substrate.onFabric hF, h.metabolism.mono hF.count⟩

theorem FreshField.ternary (field : FreshField) (n : ℕ) : FieldTernary n field.field := by
  refine ⟨fun r hr => ?_, fun t ht => ?_⟩
  · obtain ⟨hsource, hsink, hcontrol⟩ := field.routes r hr
    obtain ⟨ho, hl⟩ := field.orientation r hr
    exact ⟨ho, hl, hsource ▸ held_none n, hsink ▸ held_none n, hcontrol ▸ held_none n⟩
  · exact field.transitions t ht ▸ held_none n

theorem snapshotLoad_fabric (kv : CName → Option (List UInt8)) (lock : ℕ → Bool)
    (supervised : List ℕ) (S : Substrate W) :
    (snapshotLoad kv lock supervised S).fabric = S.fabric := by
  unfold snapshotLoad
  induction supervised generalizing S with
  | nil => rfl
  | cons f rest ih =>
    refine (ih _).trans ?_
    unfold snapshotLoadField
    dsimp only
    split
    · rfl
    split
    · rfl
    split <;> rfl

theorem learnSync_count (paging lock : Bool) (supervised : List ℕ) (S : Substrate W) :
    S.fabric.cellCount ≤ (learnSync atlas paging lock supervised S).fabric.cellCount := by
  have hcount := (learnSignals_tame atlas paging S.fabric).count
  unfold learnSync
  dsimp only
  split
  · exact hcount
  have hlearned : S.fabric.cellCount ≤ (learnFields (learnSignals atlas paging S.fabric) supervised
      { S with fabric := (learnSignals atlas paging S.fabric).fabric }).fabric.cellCount := by
    rw [learnFields_fabric]
    exact hcount
  split
  · split
    · exact hlearned
    · exact hlearned
  · exact hlearned

theorem Node.Ternary.step (hB : ∀ w fn, IsTrit (B.evolve w fn).1) {N : Node W} (h : N.Ternary)
    (op : NodeOp) : (nodeStep atlas hmac B N op).Ternary := by
  have hS := h.substrate
  cases op with
  | atmosphereInit lock =>
    have hseed := seedSystemOnly_weaves atlas lock N.tapestry.substrate.fabric swarmPostureName
      (makeCoord 0 0 4) (by decide : IsTrit 0)
    exact ⟨hS.onFabric hseed.tame, h.metabolism.mono hseed.tame.count⟩
  | metabolicInit lock =>
    have hinit := metabolicInit_ternary atlas lock N.tapestry.substrate.fabric N.metabolism
    exact ⟨hS.onFabric hinit.1, hinit.2⟩
  | seed lock name coord state =>
    exact h.onFabric (seedSystemOnly_weaves atlas lock _ name coord state.property).tame
  | alloc lock name coord sys ret =>
    exact h.onFabric (fabricAllocInternal_weaves atlas lock _ name coord sys ret).tame
  | resolve lock now name =>
    have hgot := gooniesResolveCell_weaves atlas lock N.tapestry.substrate.fabric hmac now
      N.tapestry.mesh name
    exact ⟨hS.onFabric hgot.tame, h.metabolism.mono hgot.tame.count⟩
  | bind idx type peerId hardwareAddr bitMask =>
    refine h.onFabric (.of_states rfl fun v => ?_)
    by_cases hv : v = idx
    · subst hv
      simp
    · simp [hv]
  | publish idx state => exact h.onFabric (.setState idx fun _ => state.property)
  | weaveField fid field => exact h.onSubstrate (hS.setField fid (field.ternary _)) (le_refl _)
  | startPulse fid =>
    refine h.onSubstrate (hS.startPulse fid) ?_
    rw [fieldStartPulse_fabric]
  | supervise fid => exact ⟨hS, h.metabolism⟩
  | addPeer now name mac => exact ⟨hS, h.metabolism⟩
  | pulse lock now fid =>
    refine h.onSubstrate (hS.processTransitions hB lock now fid) ?_
    unfold processTransitions
    split
    · exact le_refl _
    · exact (atTurn_frame B now N.tapestry.substrate fid _).1.count.ge
  | recv calls localMac src data =>
    have hrecv := atmosphereRecv_ternary atlas hmac calls localMac src data N.atmosphere hS
    exact ⟨hrecv.1, h.metabolism.mono hrecv.2⟩
  | snapshotLoad kv lock =>
    refine h.onSubstrate (hS.snapshotLoad kv lock _) ?_
    rw [snapshotLoad_fabric]
  | weaveLoom calls buffer =>
    have hweave := weaveLoom_ternary atlas hmac calls hS buffer
    exact ⟨hweave.1, h.metabolism.mono hweave.2⟩
  | learn paging lock =>
    exact h.onSubstrate (hS.learnSync atlas paging lock _) (learnSync_count atlas paging lock _ _)
  | metabolic freeBytes =>
    have hsync := @metabolicSync_ternary _ freeBytes N.atmosphere.meshStats
      N.tapestry.substrate.fabric _ h.metabolism
    exact ⟨hS.onFabric hsync.1, hsync.2.mono hsync.1.count⟩
  | override vital state => exact ⟨hS, metabolicOverride_ternary vital state h.metabolism⟩
  | clearOverrides =>
    have hclear := writeVital_tame N.tapestry.substrate.fabric N.metabolism.metabolicCell
      (by decide : IsTrit 1)
    have hM := h.metabolism.mono hclear.count
    exact ⟨hS.onFabric hclear, hM.temp, hM.batt, hM.mesh, hM.heap, hM.metabolic,
      (by decide : IsTrit 1)⟩
  | swarm => exact ⟨hS, h.metabolism⟩
  | staleness now =>
    have hchecked := stalenessCheck_tame now N.tapestry.substrate.fabric N.tapestry.mesh
    exact ⟨hS.onFabric hchecked, h.metabolism.mono hchecked.count⟩

theorem coldNode_ternary (purpose : Bool) (F : Fabric) (peers : List Peer) (w : W) :
    (coldNode atlas purpose F peers w).Ternary := by
  refine ⟨⟨fabricInit_tritCells atlas F purpose, fun f => ?_⟩, ?_⟩
  · refine ⟨fun r hr => ?_, fun t ht => ?_⟩
    · cases hr
    · cases ht
  · exact ⟨held_none _, held_none _, held_none _, held_none _, held_none _, (by decide : IsTrit 1)⟩

/-- No live cell ever leaves the trits. -/
theorem cells_stay_ternary (hB : ∀ w fn, IsTrit (B.evolve w fn).1) (purpose : Bool) (F : Fabric)
    (peers : List Peer) (w : W) (ops : List NodeOp) (N : Node W)
    (hrun : Run (NodeStep atlas hmac B) (coldNode atlas purpose F peers w) ops N) (v : ℕ)
    (hv : v < N.tapestry.substrate.fabric.cellCount) :
    IsTrit (N.tapestry.substrate.fabric.cells v).state := by
  have hN : N.Ternary := by
    refine hrun.invariant Node.Ternary (fun N op N' h hstep => ?_)
      (coldNode_ternary atlas purpose F peers w)
    rw [← hstep]
    exact h.step atlas hmac hB op
  exact hN.substrate.cells v hv

end Step

/-- A publication on the seeds of a cold boot. -/
theorem cells_stay_ternary_idle :
    IsTrit ((nodeStep emptyAtlas (fun _ => []) idleBoard
      (coldNode emptyAtlas false blankFabric [] ()) (.publish 1 ⟨-1, by decide⟩)
      ).tapestry.substrate.fabric.cells 1).state := by
  refine cells_stay_ternary emptyAtlas (fun _ => []) (fun _ _ => ?_) false blankFabric [] ()
    [.publish 1 ⟨-1, by decide⟩] _ (.single rfl) 1 ?_
  · change IsTrit 0
    decide
  · change 1 < coldFabric.cellCount
    rw [coldFabric_seeds.1]
    decide

end ReflexOS.Goose
