import ReflexOS.GooseAtmosphere
import ReflexOS.GooseLearning

set_option autoImplicit false

/-!
# SYNC arcs and the cells they write

A SYNC arc goes to the slot its route has cached as the sink, whatever has been woven there since
a pulse last looked it up.
-/
namespace ReflexOS.Goose
open VmTernary Runs

variable {W : Type*}

inductive SyncOp where
  | board (op : LearnOp)
  | recv (calls : RecvCalls) (localMac src : Mac) (data : List UInt8)

/-- What a board does by itself, and the packets that reach it, in any order. -/
inductive SyncStep (atlas : Atlas) (hmac : List UInt8 → List UInt8) (B : Board W) :
    Tapestry W × Atmosphere → SyncOp → Tapestry W × Atmosphere → Prop where
  | board {T : Tapestry W} {op : LearnOp} {S : Substrate W} (A : Atmosphere)
      (h : LearnStep atlas B T.supervised T.substrate op S) :
      SyncStep atlas hmac B (T, A) (.board op) ({ T with substrate := S }, A)
  | recv (T : Tapestry W) (A : Atmosphere) (calls : RecvCalls) (localMac src : Mac)
      (data : List UInt8) : SyncStep atlas hmac B (T, A) (.recv calls localMac src data)
        (atmosphereRecv atlas hmac calls localMac src data T A)

/-- The packet is a SYNC arc that gets past every check. -/
def TakenSync (hmac : List UInt8 → List UInt8) (A : Atmosphere) (p : ArcPacket) : SyncOp → Prop
  | .recv calls localMac src data => acceptArc hmac localMac src data = some p ∧
      (replaySeenOrRecord A.replayCache src p.nonce calls.now).1 = false ∧ p.op = arcOpSync
  | .board _ => False

/-- Only cells that carry the sink coordinate of a radio route from `coord` change their state, and
no slot that was recycled since the route was looked up. -/
structure Confined (S S' : Substrate W) (coord : Tryte9) : Prop where
  sink : ∀ v, (S'.fabric.cells v).state ≠ (S.fabric.cells v).state →
    ∃ f ∈ S.globalFields, ∃ r ∈ (S.fields f).routes, r.coupling = .radio ∧
      r.sourceCoord = coord ∧ (S.fabric.cells v).coord = r.sinkCoord
  recycled : ∀ r v, radioRouteBySource S coord = some r → r.cachedSink = some v →
    (S.fabric.cells v).coord ≠ r.sinkCoord →
      (S'.fabric.cells v).state = (S.fabric.cells v).state

def SyncConfined (hmac : List UInt8 → List UInt8) (s : Tapestry W × Atmosphere) (op : SyncOp)
    (s' : Tapestry W × Atmosphere) : Prop :=
  ∀ p, TakenSync hmac s.2 p op → Confined s.1.substrate s'.1.substrate (arcCoord p)

/-- The slot cached as the sink still carries the sink coordinate, or the arc changes nothing. -/
def SinkKept (hmac : List UInt8 → List UInt8) (s : Tapestry W × Atmosphere) (op : SyncOp)
    (_ : Tapestry W × Atmosphere) : Prop :=
  ∀ p, TakenSync hmac s.2 p op → ∀ r v,
    radioRouteBySource s.1.substrate (arcCoord p) = some r → r.cachedSink = some v →
      (s.1.substrate.fabric.cells v).coord = r.sinkCoord ∨
        (s.1.substrate.fabric.cells v).state = arcState p

section Arc

variable {S : Substrate W} {p : ArcPacket} {r : Route} {coord : Tryte9}

theorem radioRouteBySource_some (h : radioRouteBySource S coord = some r) :
    ∃ f ∈ S.globalFields, r ∈ (S.fields f).routes ∧ r.coupling = .radio ∧
      r.sourceCoord = coord := by
  obtain ⟨f, hf, hr⟩ := List.mem_flatMap.mp (List.mem_of_find?_eq_some h)
  have hmatch := List.find?_some h
  rw [Bool.and_eq_true, decide_eq_true_eq, coordEqual_iff] at hmatch
  exact ⟨f, hf, hr, hmatch⟩

theorem setState_state (F : Fabric) (v w : ℕ) (state : ℤ) :
    ((F.setState v state).cells w).state = if w = v then state else (F.cells w).state := by
  unfold Fabric.setState
  dsimp only
  split
  next hw => rw [hw, Function.update_self]
  next hw => rw [Function.update_of_ne hw]

theorem recvSync_sink {v : ℕ} (hroute : radioRouteBySource S (arcCoord p) = some r)
    (hsink : r.cachedSink = some v) : recvSync S p = S.setState v (arcState p) := by
  rw [recvSync, hroute, Option.bind_some, hsink]

theorem confined_iff : Confined S (recvSync S p) (arcCoord p) ↔ ∀ r v,
    radioRouteBySource S (arcCoord p) = some r → r.cachedSink = some v →
      (S.fabric.cells v).coord = r.sinkCoord ∨ (S.fabric.cells v).state = arcState p := by
  constructor
  · intro h r v hroute hsink
    refine or_iff_not_imp_left.mpr fun hcoord => ?_
    have hsame := h.recycled r v hroute hsink hcoord
    rw [recvSync_sink hroute hsink, setState_fabric, setState_state, if_pos rfl] at hsame
    exact hsame.symm
  · intro h
    cases hcached : (radioRouteBySource S (arcCoord p)).bind Route.cachedSink with
    | none =>
      have hidle : recvSync S p = S := by rw [recvSync, hcached]
      rw [hidle]
      exact ⟨fun v hv => absurd rfl hv, fun _ _ _ _ _ => rfl⟩
    | some v =>
      obtain ⟨r, hroute, hsink⟩ := Option.bind_eq_some_iff.mp hcached
      have hkept := h r v hroute hsink
      rw [recvSync_sink hroute hsink]
      constructor
      · intro w hw
        rw [setState_fabric, setState_state] at hw
        split at hw
        next heq =>
          subst heq
          obtain ⟨f, hf, hr, hradio, hsource⟩ := radioRouteBySource_some hroute
          exact ⟨f, hf, r, hr, hradio, hsource, hkept.resolve_right fun he => hw he.symm⟩
        next => exact absurd rfl hw
      · intro r' v' hroute' hsink' hcoord
        rw [hroute, Option.some.injEq] at hroute'
        subst hroute'
        rw [hsink, Option.some.injEq] at hsink'
        subst hsink'
        rw [setState_fabric, setState_state, if_pos rfl]
        exact (hkept.resolve_left hcoord).symm

theorem handleArc_sync {atlas : Atlas} {hmac : List UInt8 → List UInt8} {calls : RecvCalls}
    {src : Mac} {T : Tapestry W} {A : Atmosphere} (hop : p.op = arcOpSync) :
    (handleArc atlas hmac calls src p T A).1 = { T with substrate := recvSync T.substrate p } := by
  rw [handleArc, if_pos hop]

end Arc

section Run

variable {atlas : Atlas} {hmac : List UInt8 → List UInt8} {B : Board W}
  {s s' : Tapestry W × Atmosphere}

theorem SyncStep.confined_iff {op : SyncOp} (hs : SyncStep atlas hmac B s op s') :
    SyncConfined hmac s op s' ↔ SinkKept hmac s op s' := by
  refine forall₂_congr fun p htaken => ?_
  cases hs with
  | board A h => cases htaken
  | recv T A calls localMac src data =>
    obtain ⟨haccept, hnew, hop⟩ := htaken
    dsimp only
    rw [atmosphereRecv_new haccept hnew, handleArc_sync hop]
    exact Goose.confined_iff

/-- The arcs of a run write no cell but their sinks exactly if every slot they reach through a
cached pointer is still the sink's. -/
theorem sync_confined_iff {ops : List SyncOp} :
    Always (SyncStep atlas hmac B) (SyncConfined hmac) s ops s' ↔
      Always (SyncStep atlas hmac B) (SinkKept hmac) s ops s' :=
  Always.iff_of_kept (fun _ => True) (fun _ _ _ _ _ _ => trivial)
    (fun _ _ _ _ hs => hs.confined_iff) trivial

end Run

/-- A reception leaves the fields alone, and cells keep their coordinates or the version grows. -/
structure Carried (T T' : Tapestry W) : Prop where
  fabric : Traced T.substrate.fabric T'.substrate.fabric
  fields : T'.substrate.fields = T.substrate.fields
  supervised : T'.supervised = T.supervised

section Recv

variable {atlas : Atlas} (hpressure : atlas heapPressureName = none) {F : Fabric}
  (hmac : List UInt8 → List UInt8) (calls : RecvCalls) (p : ArcPacket) (M : Mesh)

theorem setState_traced (F : Fabric) (v : ℕ) (state : ℤ) : Traced F (F.setState v state) :=
  (SameButStates.setState F v state).traced

theorem traced_refl (F : Fabric) : Traced F F := .inl ⟨rfl, fun _ => rfl⟩

theorem mmioSyncRecv_traced (now : ℕ) (F : Fabric) (mac : Mac) (nameHash : ℕ) (state : ℤ) :
    Traced F (mmioSyncRecv now F M mac nameHash state).1 := by
  unfold mmioSyncRecv
  split
  · exact traced_refl F
  · unfold mirrorState
    dsimp only
    split
    · exact traced_refl F
    split
    · exact traced_refl F
    split
    · exact setState_traced _ _ _
    · exact traced_refl F

include hpressure

theorem gooniesResolveCell_traced (lock : Bool) (now : ℕ) (name : CName)
    (hv : F.version + 1 < 2 ^ 32) :
    Traced F (gooniesResolveCell atlas hmac lock now F M name).2.1 := by
  cases hres : gooniesResolve F.registry name with
  | some coord =>
    rw [gooniesResolveCell_known hres]
    exact traced_refl F
  | none =>
    rcases @gooniesResolveCell_new atlas hmac lock now F M name hpressure hres with
      ⟨-, -, hsame⟩ | ⟨coord, sys, cells, -, -, hcoord, -, hfabric⟩
    · rw [hsame]
      exact traced_refl F
    · rw [hfabric]
      exact (allocLocked_traced atlas true (some name) coord sys false hv).cells cells hcoord

theorem answerQuery_traced (hv : F.version + 1 < 2 ^ 32) :
    Traced F (answerQuery atlas hmac calls F M p).1 := by
  unfold answerQuery
  split
  · exact traced_refl F
  next name _ =>
    have hlookup := gooniesResolveCell_traced hpressure hmac M calls.lock calls.later name hv
    dsimp only
    split
    · exact hlookup
    · exact hlookup

theorem publishPosture_traced (accum : ℤ) (hv : F.version + 1 < 2 ^ 32) :
    Traced F (publishPosture atlas hmac calls F M accum).1 := by
  have hlookup := gooniesResolveCell_traced hpressure hmac M calls.lock calls.later
    swarmPostureName hv
  unfold publishPosture
  dsimp only
  split
  · exact hlookup
  · exact hlookup.cells _ (update_coord rfl)

theorem atmosphereRecv_carried (localMac src : Mac) (data : List UInt8) (T : Tapestry W)
    (A : Atmosphere) (hv : T.substrate.fabric.version + 1 < 2 ^ 32) :
    Carried T (atmosphereRecv atlas hmac calls localMac src data T A).1 := by
  have hsame : Carried T T := ⟨traced_refl _, rfl, rfl⟩
  have hfabric : ∀ f : Fabric × Mesh, Traced T.substrate.fabric f.1 → Carried T (T.onFabric f) :=
    fun f h => ⟨h, rfl, rfl⟩
  unfold atmosphereRecv
  split
  · exact hsame
  next p _ =>
  dsimp only
  split
  · exact hsame
  unfold handleArc
  dsimp only
  split
  · refine ⟨?_, ?_, rfl⟩
    · unfold recvSync
      split
      · exact traced_refl _
      · exact setState_traced _ _ _
    · unfold recvSync
      split <;> rfl
  split
  · split
    · exact hsame
    · exact hfabric _ (answerQuery_traced hpressure hmac calls p _ hv)
  split
  · exact hsame
  split
  · exact hfabric _ (publishPosture_traced hpressure hmac calls _ _ hv)
  split
  · exact hfabric _ (mmioSyncRecv_traced _ _ _ _ _ _)
  split
  · exact ⟨traced_refl _, rfl, rfl⟩
  · exact hsame

end Recv

/-- Nothing has been woven since the route of a SYNC arc was last looked up, and the version
counter does not wrap. -/
def Current (hmac : List UInt8 → List UInt8) (s : Tapestry W × Atmosphere) : SyncOp → Prop
  | .board op => VersionRoom s.1.substrate op
  | .recv calls localMac src data => s.1.substrate.fabric.version + 1 < 2 ^ 32 ∧
      ∀ p, TakenSync hmac s.2 p (.recv calls localMac src data) →
        ∀ r, radioRouteBySource s.1.substrate (arcCoord p) = some r → r.cachedSink ≠ none →
          r.cachedVersion = s.1.substrate.fabric.version

/-- Where every arc comes before the next weave, from fields whose routes were never looked up on,
every slot reached through a cached pointer is the sink's. -/
theorem sinkKept_of_current {atlas : Atlas} {hmac : List UInt8 → List UInt8} {B : Board W}
    (hpressure : atlas heapPressureName = none) (hpain : atlas painName = none)
    (hreward : atlas rewardName = none) (hpurpose : atlas seedPurpose = none)
    {s s' : Tapestry W × Atmosphere} {ops : List SyncOp} (hnd : s.1.supervised.Nodup)
    (hfresh : ∀ f, ∀ r ∈ (s.1.substrate.fields f).routes, r.cachedSource = none ∧
      r.cachedSink = none)
    (hrun : Run (Guarded (Current hmac) (SyncStep atlas hmac B)) s ops s') :
    Always (SyncStep atlas hmac B) (SinkKept hmac) s ops s' := by
  have hsound : CachesSound s.1.substrate := fun f r hr => by
    obtain ⟨hsrc, hsnk⟩ := hfresh f r hr
    exact ⟨fun v hv => absurd (hsrc ▸ hv) (by simp), fun v hv => absurd (hsnk ▸ hv) (by simp)⟩
  clear hfresh
  induction hrun with
  | nil s => exact .nil s
  | cons hstep _ ih =>
    obtain ⟨hcurrent, hstep⟩ := hstep
    cases hstep with
    | board A h =>
      have hkept := hsound.kept hpressure hpain hreward hpurpose hnd hcurrent h
      exact .cons (.board A h) nofun (ih hnd hkept)
    | recv T A calls localMac src data =>
      have hcarried := atmosphereRecv_carried hpressure hmac calls localMac src data T A hcurrent.1
      refine .cons (.recv T A calls localMac src data) (fun p htaken r v hroute hsink => ?_)
        (ih (hcarried.supervised ▸ hnd) (hsound.frame hcarried.fabric fun f => by
          rw [hcarried.fields]))
      obtain ⟨f, -, hr, -⟩ := radioRouteBySource_some hroute
      have hversion := hcurrent.2 p htaken r hroute (by rw [hsink]; exact Option.some_ne_none v)
      exact .inl (((hsound f r hr).2 v hsink).2 hversion)

/-- A board whose field 0 pulses, before its first packet. -/
def listening (S : Substrate Unit) : Tapestry Unit × Atmosphere :=
  (⟨S, ⟨[], 0, 0, []⟩, [0], 0⟩, ⟨emptyReplayCache, 0, 0, ⟨0, 0, 0, 0, 0, 0⟩⟩)

theorem listening_run {S S' : Substrate Unit} {ops : List LearnOp}
    (h : Run (LearnStep emptyAtlas idleBoard [0]) S ops S') :
    Run (SyncStep emptyAtlas (fun _ => []) idleBoard) (listening S) (ops.map .board)
      (listening S') := by
  induction h with
  | nil S => exact .nil _
  | cons hstep _ ih => exact .cons (.board _ hstep) ih

/-- The route of what another board says of a page. -/
def pageRoute (t : ℕ) : Route :=
  { zeroRoute with
    sourceCoord := shadowCoord t
    sinkCoord := shadowCoord t
    coupling := .radio }

/-- A SYNC arc of state 1 for a page. -/
def pageArc (t : ℕ) : ArcPacket where
  version := gooseArcVersion
  op := arcOpSync
  coord i := if i = 0 then UInt32.ofNat t else if i = 8 then 1 else 0
  state := 1
  nameHash := 0
  nonce := 0
  aura := 0

theorem arcCoord_pageArc {t : ℕ} (ht : t < fabricMaxCells) :
    arcCoord (sealArc (fun _ => []) (pageArc t)) = shadowCoord t := by
  have hword : i32 (UInt32.ofNat t).toNat = t := by
    rw [UInt32.toNat_ofNat']
    unfold i32 fabricMaxCells at *
    omega
  funext i
  unfold arcCoord sealArc pageArc shadowCoord
  dsimp only
  split
  · exact hword
  split <;> decide

theorem arcState_pageArc (t : ℕ) : arcState (pageArc t) = 1 := by
  change i8 (1 : UInt8).toNat = 1
  decide

/-- A page is evicted between the pulse and the arc, and the arc writes the new tenant. -/
theorem sync_arc_writes_recycled_slot : ¬ ∀ fields : ℕ → Field,
    (∀ f, ∀ r ∈ (fields f).routes, r.cachedSource = none ∧ r.cachedSink = none) →
    ∀ ops s, Run (SyncStep emptyAtlas (fun _ => []) idleBoard)
        (listening (staleSubstrate fields rewardFabric)) ops s →
      ∀ op s', SyncStep emptyAtlas (fun _ => []) idleBoard s op s' →
        SyncConfined (fun _ => []) s op s' := by
  intro hall
  obtain ⟨ops, F, t, hrun, hF, hcount, h3, ht, hfree, hclaim⟩ := exists_recycling
  have hlt : t < fabricMaxCells := hcount ▸ ht
  obtain ⟨fields, r, hpulse, hroutes, -, hsnk, hsource, hsink, hradio⟩ :=
    @Paged.pulse F hF t h3 ht (pageRoute t) rfl rfl rfl nofun
  have hstart : ∀ f, ∀ r ∈ ((fun _ => ⟨[], [pageRoute t], [], 0⟩ : ℕ → Field) f).routes,
      r.cachedSource = none ∧ r.cachedSink = none := by
    intro f r hr
    rw [List.mem_singleton.mp hr]
    exact ⟨rfl, rfl⟩
  have hreach := listening_run (((hrun fun _ => ⟨[], [pageRoute t], [], 0⟩).append
    (.single (.pulse _ true 0 0))).append
      (.single (hpulse ▸ page_step hF.sound hfree hclaim fields)))
  obtain ⟨p, hp⟩ : ∃ p, p = sealArc (fun _ => []) (pageArc t) := ⟨_, rfl⟩
  have hcoord : arcCoord p = shadowCoord t := hp ▸ arcCoord_pageArc hlt
  have hstate : arcState p = 1 := hp ▸ arcState_pageArc t
  have haccept : acceptArc (fun _ => []) (fun _ => 0) (fun _ => 1) (arcBytes p) = some p :=
    hp ▸ acceptArc_sealed (fun _ => []) (by decide) rfl (by rw [arcState_pageArc]; decide)
  have htaken : TakenSync (fun _ => []) ⟨emptyReplayCache, 0, 0, ⟨0, 0, 0, 0, 0, 0⟩⟩ p
      (.recv ⟨true, 0, 0⟩ (fun _ => 0) (fun _ => 1) (arcBytes p)) :=
    ⟨haccept, by rw [replaySeenOrRecord]; rfl, by rw [hp]; rfl⟩
  have hstep : SyncStep emptyAtlas (fun _ => []) idleBoard (listening (staleSubstrate fields
      (publish (evict F t) t (shadowCoord fabricMaxCells) true)))
      (.recv ⟨true, 0, 0⟩ (fun _ => 0) (fun _ => 1) (arcBytes p)) _ := .recv _ _ _ _ _ _
  have hkept := hstep.confined_iff.mp (hall _ hstart _ _ hreach _ _ hstep) p htaken r t
  have hroute : radioRouteBySource (staleSubstrate fields
      (publish (evict F t) t (shadowCoord fabricMaxCells) true)) (arcCoord p) = some r := by
    unfold radioRouteBySource staleSubstrate
    rw [List.flatMap_singleton, hroutes, hcoord, List.find?_singleton, if_pos]
    rw [Bool.and_eq_true, decide_eq_true_eq, coordEqual_iff]
    exact ⟨hradio, hsource⟩
  have hcell : (publish (evict F t) t (shadowCoord fabricMaxCells) true).cells t =
      freshCell (shadowCoord fabricMaxCells) true := Function.update_self _ _ _
  have hor := hkept hroute hsnk
  change ((publish (evict F t) t (shadowCoord fabricMaxCells) true).cells t).coord = _ ∨
    ((publish (evict F t) t (shadowCoord fabricMaxCells) true).cells t).state = _ at hor
  rw [hcell, hsink, hstate] at hor
  rcases hor with hsame | hone
  · have := shadowCoord_inj hsame
    omega
  · cases hone

end ReflexOS.Goose
