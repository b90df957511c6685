import ReflexOS.GooseLoom
import ReflexOS.GooseMmioSync
import Mathlib.Tactic.FinCases

set_option autoImplicit false

/-!
# The atmosphere

What a board does with a packet from the air. An arc that is authentic, of this version,
ternary and new is handled by its operation.
-/
namespace ReflexOS.Goose
open VmTernary LittleEndian

def arcSize : ℕ := 55
def replayCacheSlots : ℕ := 64
def replayWindowUs : ℕ := 5000000
def queryIngressMinUs : ℕ := 100000
def swarmThreshold : ℤ := 10
def swarmAccumMax : ℤ := 100
def swarmWeightMax : ℕ := 4

def swarmPostureName : CName := ascii "sys.swarm.posture"

structure ReplayEntry where
  mac : Mac
  nonce : UInt32
  lastUs : ℕ

/-- The arcs received, by operation. -/
structure MeshStats where
  rxSync : ℕ
  rxQuery : ℕ
  rxDiscover : ℕ
  rxAdvertise : ℕ
  rxPosture : ℕ
  rxMmioSync : ℕ

structure Atmosphere where
  replayCache : ℕ → ReplayEntry
  lastQueryProcessedUs : ℕ
  swarmAccumulator : ℤ
  meshStats : MeshStats

def emptyReplayCache : ℕ → ReplayEntry := fun _ => ⟨fun _ => 0, 0, 0⟩

/-- Little endian, packed. -/
def parseArc (data : List UInt8) : ArcPacket where
  version := data.getD 0 0
  op := data.getD 1 0
  coord i := UInt32.ofNat (loomNumber data (2 + 4 * i) 4)
  state := data.getD 38 0
  nameHash := UInt32.ofNat (loomNumber data 39 4)
  nonce := UInt32.ofNat (loomNumber data 43 4)
  aura := UInt64.ofNat (loomNumber data 47 8)

/-- The coordinate words as the enumerators they hold. -/
def arcCoord (p : ArcPacket) : Tryte9 := fun i => i32 (p.coord i).toNat

def arcState (p : ArcPacket) : ℤ := i8 p.state.toNat

/-- The drops before the replay check; `localMac` is the board's own address. -/
def acceptArc (hmac : List UInt8 → List UInt8) (localMac src : Mac) (data : List UInt8) :
    Option ArcPacket :=
  if data.length ≠ arcSize then none
  else if src = localMac then none
  else
    let p := parseArc data
    if p.aura ≠ calculateAura hmac p then none
    else if p.version ≠ gooseArcVersion then none
    else if arcState p < -1 ∨ 1 < arcState p then none
    else some p

/-- A packet as it is sent. -/
def arcBytes (p : ArcPacket) : List UInt8 :=
  [p.version, p.op] ++ (List.ofFn fun i => encode 4 (p.coord i).toNat).flatten ++ [p.state] ++
    encode 4 p.nameHash.toNat ++ encode 4 p.nonce.toNat ++ encode 8 p.aura.toNat

theorem ofNat_decode_encode (x : UInt32) : UInt32.ofNat (decode (encode 4 x.toNat)) = x := by
  rw [decode_encode x.toNat_lt, UInt32.ofNat_toNat]

theorem parseArc_arcBytes (p : ArcPacket) : parseArc (arcBytes p) = p := by
  have hcoord : ∀ i : Fin 9, loomNumber (arcBytes p) (2 + 4 * i) 4 =
      decode (encode 4 (p.coord i).toNat) := by
    intro i
    fin_cases i <;> rfl
  have haura : UInt64.ofNat (decode (encode 8 p.aura.toNat)) = p.aura := by
    rw [decode_encode p.aura.toNat_lt, UInt64.ofNat_toNat]
  obtain ⟨version, op, coord, state, nameHash, nonce, aura⟩ := p
  unfold parseArc
  rw [ArcPacket.mk.injEq]
  refine ⟨rfl, rfl, funext fun i => ?_, rfl, ?_, ?_, ?_⟩
  · rw [hcoord, ofNat_decode_encode]
  · exact ofNat_decode_encode nameHash
  · exact ofNat_decode_encode nonce
  · exact haura

theorem length_arcBytes (p : ArcPacket) : (arcBytes p).length = arcSize := rfl

/-- A packet that a board of this version and key seals is accepted by the others. -/
theorem acceptArc_sealed (hmac : List UInt8 → List UInt8) {localMac src : Mac} (hsrc : src ≠ localMac)
    {p : ArcPacket} (hversion : p.version = gooseArcVersion)
    (hstate : -1 ≤ arcState p ∧ arcState p ≤ 1) :
    acceptArc hmac localMac src (arcBytes (sealArc hmac p)) = some (sealArc hmac p) := by
  have hstate' : ¬ (arcState (sealArc hmac p) < -1 ∨ 1 < arcState (sealArc hmac p)) := by
    change ¬ (arcState p < -1 ∨ 1 < arcState p)
    omega
  have haura : (sealArc hmac p).aura = calculateAura hmac (sealArc hmac p) := rfl
  have hversion' : (sealArc hmac p).version = gooseArcVersion := hversion
  unfold acceptArc
  rw [if_neg (not_not.mpr (length_arcBytes _)), if_neg hsrc]
  simp only [parseArc_arcBytes]
  rw [if_neg (not_not.mpr haura), if_neg (not_not.mpr hversion'), if_neg hstate']

/-- FNV-1a over the address, then the nonce. -/
def policyReplaySlot (nonce : UInt32) (mac : Mac) (slotCount : ℕ) : ℕ :=
  if slotCount = 0 then 0
  else
    let h := (List.ofFn mac).foldl (fun h b => (h ^^^ b.toUInt32) * 16777619) (2166136261 : UInt32)
    let h := (h ^^^ nonce) * 0x9E3779B1
    (h ^^^ (h >>> 16)).toNat % slotCount

def replaySeenOrRecord (cache : ℕ → ReplayEntry) (src : Mac) (nonce : UInt32) (now : ℕ) :
    Bool × (ℕ → ReplayEntry) :=
  let slot := policyReplaySlot nonce src replayCacheSlots
  let e := cache slot
  if e.lastUs ≠ 0 ∧ (now + 2 ^ 64 - e.lastUs) % 2 ^ 64 < replayWindowUs ∧ e.nonce = nonce ∧
      e.mac = src then (true, cache)
  else (false, Function.update cache slot ⟨src, nonce, now⟩)

/-- What the calls out of one reception meet: the loom, and the clock at the replay check and in
the handler. -/
structure RecvCalls where
  lock : Bool
  now : ℕ
  later : ℕ

variable {W : Type*}

def radioRouteBySource (S : Substrate W) (coord : Tryte9) : Option Route :=
  (S.globalFields.flatMap fun f => (S.fields f).routes).find? fun r =>
    decide (r.coupling = .radio) && coordEqual r.sourceCoord coord

def recvSync (S : Substrate W) (p : ArcPacket) : Substrate W :=
  match (radioRouteBySource S (arcCoord p)).bind Route.cachedSink with
  | none => S
  | some snk => S.setState snk (arcState p)

def advertisePacket (now : ℕ) (nameHash : UInt32) (c : Cell) : ArcPacket where
  version := gooseArcVersion
  op := arcOpAdvertise
  coord i := UInt32.ofInt (c.coord i)
  state := UInt8.ofInt c.state
  nameHash := nameHash
  nonce := UInt32.ofNat now
  aura := 0

def atmosphereAdvertise (hmac : List UInt8 → List UInt8) (now : ℕ) (M : Mesh) (nameHash : UInt32)
    (c : Cell) : Mesh :=
  { M with sent := M.sent ++ [sealArc hmac (advertisePacket now nameHash c)] }

/-- The first name with the hash is answered for, if its cell is there. -/
def answerQuery (atlas : Atlas) (hmac : List UInt8 → List UInt8) (calls : RecvCalls) (F : Fabric)
    (M : Mesh) (p : ArcPacket) : Fabric × Mesh :=
  match (registeredNames F.registry).find? fun s => decide (gooseNameHash s = p.nameHash.toNat) with
  | none => (F, M)
  | some name =>
    let got := gooniesResolveCell atlas hmac calls.lock calls.later F M name
    match got.1 with
    | none => (got.2.1, got.2.2)
    | some v =>
      (got.2.1, atmosphereAdvertise hmac calls.later got.2.2 p.nameHash (got.2.1.cells v))

def clampSwarm (acc : ℤ) : ℤ :=
  let acc := if swarmAccumMax < acc then swarmAccumMax else acc
  if acc < -swarmAccumMax then -swarmAccumMax else acc

def postureWeight (p : ArcPacket) : ℕ := min (p.nonce.toNat % 16) swarmWeightMax

def postureOf (accum : ℤ) : ℤ :=
  if swarmThreshold ≤ accum then 1 else if accum ≤ -swarmThreshold then -1 else 0

def publishPosture (atlas : Atlas) (hmac : List UInt8 → List UInt8) (calls : RecvCalls) (F : Fabric)
    (M : Mesh) (accum : ℤ) : Fabric × Mesh :=
  let got := gooniesResolveCell atlas hmac calls.lock calls.later F M swarmPostureName
  match got.1 with
  | none => (got.2.1, got.2.2)
  | some v => (got.2.1.setState v (postureOf accum), got.2.2)

def recvDiscover (now : ℕ) (M : Mesh) (src : Mac) (p : ArcPacket) : Mesh :=
  if discoverName p ≠ [] ∧ findPeerByMac M.peers src = 0 then
    { M with peers := (addPeer now M.peers (discoverName p) src).2 }
  else M

def Tapestry.onFabric (T : Tapestry W) (f : Fabric × Mesh) : Tapestry W :=
  { T with substrate := { T.substrate with fabric := f.1 }, mesh := f.2 }

/-- The handler of an accepted arc. -/
def handleArc (atlas : Atlas) (hmac : List UInt8 → List UInt8) (calls : RecvCalls) (src : Mac)
    (p : ArcPacket) (T : Tapestry W) (A : Atmosphere) : Tapestry W × Atmosphere :=
  let stats := A.meshStats
  if p.op = arcOpSync then
    ({ T with substrate := recvSync T.substrate p },
      { A with meshStats := { stats with rxSync := (stats.rxSync + 1) % 2 ^ 32 } })
  else if p.op = arcOpQuery then
    let A := { A with meshStats := { stats with rxQuery := (stats.rxQuery + 1) % 2 ^ 32 } }
    if (calls.now + 2 ^ 64 - A.lastQueryProcessedUs) % 2 ^ 64 < queryIngressMinUs then (T, A)
    else
      (T.onFabric (answerQuery atlas hmac calls T.substrate.fabric T.mesh p),
        { A with lastQueryProcessedUs := calls.now })
  else if p.op = arcOpAdvertise then
    (T, { A with meshStats := { stats with rxAdvertise := (stats.rxAdvertise + 1) % 2 ^ 32 } })
  else if p.op = arcOpPosture then
    let accum := clampSwarm (A.swarmAccumulator + arcState p * postureWeight p)
    (T.onFabric (publishPosture atlas hmac calls T.substrate.fabric T.mesh accum),
      { A with
        swarmAccumulator := accum
        meshStats := { stats with rxPosture := (stats.rxPosture + 1) % 2 ^ 32 } })
  else if p.op = arcOpMmioSync then
    (T.onFabric (mmioSyncRecv calls.later T.substrate.fabric T.mesh src p.nameHash.toNat (arcState p)),
      { A with meshStats := { stats with rxMmioSync := (stats.rxMmioSync + 1) % 2 ^ 32 } })
  else if p.op = arcOpDiscover then
    ({ T with mesh := recvDiscover calls.later T.mesh src p },
      { A with meshStats := { stats with rxDiscover := (stats.rxDiscover + 1) % 2 ^ 32 } })
  else (T, A)

/-- `atmosphere_recv_cb`. -/
def atmosphereRecv (atlas : Atlas) (hmac : List UInt8 → List UInt8) (calls : RecvCalls)
    (localMac src : Mac) (data : List UInt8) (T : Tapestry W) (A : Atmosphere) :
    Tapestry W × Atmosphere :=
  match acceptArc hmac localMac src data with
  | none => (T, A)
  | some p =>
    let replay := replaySeenOrRecord A.replayCache src p.nonce calls.now
    let A := { A with replayCache := replay.2 }
    if replay.1 then (T, A) else handleArc atlas hmac calls src p T A

section Recv

variable {atlas : Atlas} {hmac : List UInt8 → List UInt8} {calls : RecvCalls} {localMac src : Mac}
  {data : List UInt8} {p : ArcPacket} {T : Tapestry W} {A : Atmosphere}

theorem atmosphereRecv_dropped (h : acceptArc hmac localMac src data = none) :
    atmosphereRecv atlas hmac calls localMac src data T A = (T, A) := by
  rw [atmosphereRecv, h]

theorem atmosphereRecv_replayed (h : acceptArc hmac localMac src data = some p)
    (hseen : (replaySeenOrRecord A.replayCache src p.nonce calls.now).1 = true) :
    atmosphereRecv atlas hmac calls localMac src data T A = (T, { A with
      replayCache := (replaySeenOrRecord A.replayCache src p.nonce calls.now).2 }) := by
  rw [atmosphereRecv, h]
  exact if_pos hseen

theorem atmosphereRecv_new (h : acceptArc hmac localMac src data = some p)
    (hnew : (replaySeenOrRecord A.replayCache src p.nonce calls.now).1 = false) :
    atmosphereRecv atlas hmac calls localMac src data T A = handleArc atlas hmac calls src p T { A with
      replayCache := (replaySeenOrRecord A.replayCache src p.nonce calls.now).2 } := by
  rw [atmosphereRecv, h]
  exact if_neg (by rw [hnew]; decide)

theorem handleArc_posture (hop : p.op = arcOpPosture) :
    handleArc atlas hmac calls src p T A =
      (T.onFabric (publishPosture atlas hmac calls T.substrate.fabric T.mesh
          (clampSwarm (A.swarmAccumulator + arcState p * postureWeight p))),
        { A with
          swarmAccumulator := clampSwarm (A.swarmAccumulator + arcState p * postureWeight p)
          meshStats := { A.meshStats with rxPosture := (A.meshStats.rxPosture + 1) % 2 ^ 32 } }) := by
  have hsync : p.op ≠ arcOpSync := by
    rw [hop]
    decide
  have hquery : p.op ≠ arcOpQuery := by
    rw [hop]
    decide
  have hadvertise : p.op ≠ arcOpAdvertise := by
    rw [hop]
    decide
  rw [handleArc, if_neg hsync, if_neg hquery, if_neg hadvertise, if_pos hop]

end Recv

/-- `goose_supervisor_swarm_sync`. -/
def swarmSync (A : Atmosphere) : Atmosphere :=
  { A with
    swarmAccumulator :=
      if 0 < A.swarmAccumulator then A.swarmAccumulator - 1
      else if A.swarmAccumulator < -1 then A.swarmAccumulator + 1
      else A.swarmAccumulator }

/-- A cell of the supervisor or the mesh, which only the system writes. -/
def seedSystemOnly (atlas : Atlas) (lock : Bool) (F : Fabric) (name : CName) (coord : Tryte9)
    (state : ℤ) : Option ℕ × Fabric :=
  let ensured := fabricEnsureCell atlas lock F (some name) coord true
  match ensured.1 with
  | none => ensured
  | some v =>
    (some v, { ensured.2 with
      cells := Function.update ensured.2.cells v
        { ensured.2.cells v with type := .systemOnly, state := state } })

/-- `goose_atmosphere_init` but for the key and the radio. -/
def atmosphereInit (atlas : Atlas) (lock : Bool) (F : Fabric) (A : Atmosphere) :
    Fabric × Atmosphere :=
  ((seedSystemOnly atlas lock F swarmPostureName (makeCoord 0 0 4) 0).2,
    { A with replayCache := emptyReplayCache })

end ReflexOS.Goose
