import ReflexOS.GooseDiscovery

set_option autoImplicit false

/-!
# What goes out arrives

The six functions that put an arc on the air, each filling the packet and the arguments of its
aura by itself, and the receiver with the same key.
-/
namespace ReflexOS.Goose
open VmTernary

/-- `calculate_aura` on its own arguments. -/
def auraOf (hmac : List UInt8 → List UInt8) (version op : UInt8) (coord : Fin 9 → UInt32)
    (nameHash : UInt32) (state : UInt8) (nonce : UInt32) : UInt64 :=
  calculateAura hmac ⟨version, op, coord, state, nameHash, nonce, 0⟩

/-- The fields an initialiser does not name are zero. -/
def blankArc : ArcPacket := ⟨0, 0, fun _ => 0, 0, 0, 0, 0⟩

def coordWords (c : Tryte9) : Fin 9 → UInt32 := fun i => UInt32.ofInt (c i)

/-- The name's first eight bytes in a coordinate of zeros. -/
def nameCoord (name : CName) : Fin 9 → UInt32 := (discoverArc 0 name).coord

def emitDiscover (hmac : List UInt8 → List UInt8) (now : ℕ) (stored : Option (List UInt8))
    (mac : Mac) : ArcPacket :=
  let deviceName := advertisedName stored mac
  let nonce := UInt32.ofNat now
  let nhash := UInt32.ofNat (gooseNameHash deviceName)
  { blankArc with
    version := gooseArcVersion, op := arcOpDiscover, coord := nameCoord deviceName, state := 0
    nameHash := nhash, nonce := nonce
    aura := auraOf hmac gooseArcVersion arcOpDiscover (nameCoord deviceName) nhash 0 nonce }

def emitArc (hmac : List UInt8 → List UInt8) (now : ℕ) (source : Cell) : ArcPacket :=
  let nonce := UInt32.ofNat now
  { blankArc with
    version := gooseArcVersion, op := arcOpSync, coord := coordWords source.coord
    state := UInt8.ofInt source.state, nonce := nonce
    aura := auraOf hmac gooseArcVersion arcOpSync (coordWords source.coord) 0
      (UInt8.ofInt source.state) nonce }

def emitQuery (hmac : List UInt8 → List UInt8) (now : ℕ) (name : CName) : ArcPacket :=
  let nonce := UInt32.ofNat now
  let h := UInt32.ofNat (gooseNameHash name)
  let arc := { blankArc with
    version := gooseArcVersion, op := arcOpQuery, nameHash := h, nonce := nonce }
  { arc with aura := auraOf hmac gooseArcVersion arcOpQuery (fun _ => 0) h 0 nonce }

def emitAdvertise (hmac : List UInt8 → List UInt8) (now : ℕ) (nameHash : UInt32) (cell : Cell) :
    ArcPacket :=
  let nonce := UInt32.ofNat now
  let arc := { blankArc with
    version := gooseArcVersion, op := arcOpAdvertise, coord := coordWords cell.coord
    state := UInt8.ofInt cell.state, nameHash := nameHash, nonce := nonce }
  { arc with
    aura := auraOf hmac gooseArcVersion arcOpAdvertise arc.coord nameHash arc.state nonce }

def emitSyncArc (hmac : List UInt8 → List UInt8) (now : ℕ) (nameHash : UInt32) (state : ℤ) :
    ArcPacket :=
  let nonce := UInt32.ofNat now
  { blankArc with
    version := gooseArcVersion, op := arcOpMmioSync, coord := fun _ => 0
    state := UInt8.ofInt state, nameHash := nameHash, nonce := nonce
    aura := auraOf hmac gooseArcVersion arcOpMmioSync (fun _ => 0) nameHash (UInt8.ofInt state)
      nonce }

/-- The nonce of a POSTURE arc holds the weight in its last four bits. -/
def postureNonce (now weight : ℕ) : UInt32 :=
  (UInt32.ofNat now &&& 0xFFFFFFF0) ||| UInt32.ofNat (min weight swarmWeightMax &&& 0x0F)

def emitPosture (hmac : List UInt8 → List UInt8) (now : ℕ) (state : ℤ) (weight : ℕ) : ArcPacket :=
  let nonce := postureNonce now weight
  { blankArc with
    version := gooseArcVersion, op := arcOpPosture, coord := fun _ => 0
    state := UInt8.ofInt state, nonce := nonce
    aura := auraOf hmac gooseArcVersion arcOpPosture (fun _ => 0) 0 (UInt8.ofInt state) nonce }

/-- A call of an emit function with its arguments. -/
inductive Emission where
  | discover (stored : Option (List UInt8)) (mac : Mac)
  | sync (source : Cell)
  | query (name : CName)
  | advertise (nameHash : UInt32) (cell : Cell)
  | mmioSync (nameHash : UInt32) (state : ℤ)
  | posture (state : ℤ) (weight : ℕ)

def Emission.packet (hmac : List UInt8 → List UInt8) (now : ℕ) : Emission → ArcPacket
  | .discover stored mac => emitDiscover hmac now stored mac
  | .sync source => emitArc hmac now source
  | .query name => emitQuery hmac now name
  | .advertise nameHash cell => emitAdvertise hmac now nameHash cell
  | .mmioSync nameHash state => emitSyncArc hmac now nameHash state
  | .posture state weight => emitPosture hmac now state weight

/-- What an arc tells its receiver. -/
structure Told where
  op : UInt8
  coord : Tryte9
  nameHash : UInt32
  state : ℤ
  nonce : UInt32

/-- What the sender means to tell. -/
def Emission.means (now : ℕ) : Emission → Told
  | .discover stored mac =>
    ⟨arcOpDiscover, fun i => i32 (nameCoord (advertisedName stored mac) i).toNat,
      UInt32.ofNat (gooseNameHash (advertisedName stored mac)), 0, UInt32.ofNat now⟩
  | .sync source => ⟨arcOpSync, source.coord, 0, source.state, UInt32.ofNat now⟩
  | .query name =>
    ⟨arcOpQuery, zeroCoord, UInt32.ofNat (gooseNameHash name), 0, UInt32.ofNat now⟩
  | .advertise nameHash cell => ⟨arcOpAdvertise, cell.coord, nameHash, cell.state, UInt32.ofNat now⟩
  | .mmioSync nameHash state => ⟨arcOpMmioSync, zeroCoord, nameHash, state, UInt32.ofNat now⟩
  | .posture state weight => ⟨arcOpPosture, zeroCoord, 0, state, postureNonce now weight⟩

def ArcPacket.told (p : ArcPacket) : Told := ⟨p.op, arcCoord p, p.nameHash, arcState p, p.nonce⟩

/-- The state is a trit, the coordinate of a cell one of enumerators. -/
def Emission.Ternary : Emission → Prop
  | .discover _ _ | .query _ => True
  | .sync c | .advertise _ c =>
    (∀ i, -2 ^ 31 ≤ c.coord i ∧ c.coord i < 2 ^ 31) ∧ -1 ≤ c.state ∧ c.state ≤ 1
  | .mmioSync _ state | .posture state _ => -1 ≤ state ∧ state ≤ 1

section Agreement

variable {hmac : List UInt8 → List UInt8} {now : ℕ} {e : Emission}

theorem i8_ofInt {state : ℤ} (h : -1 ≤ state ∧ state ≤ 1) :
    i8 (UInt8.ofInt state).toNat = state := by
  have hbyte : (UInt8.ofInt state).toNat = (state % 2 ^ 8).toNat := by
    rw [UInt8.ofInt, UInt8.toNat_ofNat']
    omega
  rw [hbyte, i8]
  omega

theorem i32_ofInt {x : ℤ} (h : -2 ^ 31 ≤ x ∧ x < 2 ^ 31) : i32 (UInt32.ofInt x).toNat = x := by
  have hword : (UInt32.ofInt x).toNat = (x % 2 ^ 32).toNat := by
    rw [UInt32.ofInt, UInt32.toNat_ofNat']
    omega
  rw [hword, i32]
  omega

theorem atmosphereQuery_emits (M : Mesh) (name : CName) :
    (atmosphereQuery hmac now M name).sent = M.sent ++
      if queryThrottled M now then [] else [emitQuery hmac now name] := by
  unfold atmosphereQuery
  split
  · exact (List.append_nil _).symm
  · rfl

theorem atmosphereAdvertise_emits (M : Mesh) (nameHash : UInt32) (c : Cell) :
    (atmosphereAdvertise hmac now M nameHash c).sent =
      M.sent ++ [emitAdvertise hmac now nameHash c] := rfl

/-- Every emitter seals the fields it sends. -/
theorem packet_sealed (hmac : List UInt8 → List UInt8) (now : ℕ) (e : Emission) :
    e.packet hmac now = sealArc hmac (e.packet hmac now) ∧
      (e.packet hmac now).version = gooseArcVersion := by
  cases e <;> exact ⟨rfl, rfl⟩

theorem coord_told {c : Tryte9} (h : ∀ i, -2 ^ 31 ≤ c i ∧ c i < 2 ^ 31) :
    (fun i => i32 (coordWords c i).toNat) = c := by
  funext i
  exact i32_ofInt (h i)

theorem told_eq {p : ArcPacket} {t : Told} (hop : p.op = t.op) (hcoord : arcCoord p = t.coord)
    (hhash : p.nameHash = t.nameHash) (hstate : arcState p = t.state) (hnonce : p.nonce = t.nonce) :
    p.told = t := by
  rw [ArcPacket.told, hop, hcoord, hhash, hstate, hnonce]

theorem packet_told (h : e.Ternary) : (e.packet hmac now).told = e.means now := by
  have hzero : i8 (0 : UInt8).toNat = 0 := by decide
  have hblank : (fun _ : Fin 9 => i32 (0 : UInt32).toNat) = zeroCoord := by
    funext i
    exact (by decide : i32 (0 : UInt32).toNat = 0)
  cases e with
  | discover stored mac => exact told_eq rfl rfl rfl hzero rfl
  | sync source => exact told_eq rfl (coord_told h.1) rfl (i8_ofInt h.2) rfl
  | query name => exact told_eq rfl hblank rfl hzero rfl
  | advertise nameHash cell => exact told_eq rfl (coord_told h.1) rfl (i8_ofInt h.2) rfl
  | mmioSync nameHash state => exact told_eq rfl hblank rfl (i8_ofInt h) rfl
  | posture state weight => exact told_eq rfl hblank rfl (i8_ofInt h) rfl

theorem Emission.Ternary.state (h : e.Ternary) :
    -1 ≤ (e.means now).state ∧ (e.means now).state ≤ 1 := by
  cases e with
  | discover stored mac => exact (by decide : (-1 : ℤ) ≤ 0 ∧ (0 : ℤ) ≤ 1)
  | sync source => exact h.2
  | query name => exact (by decide : (-1 : ℤ) ≤ 0 ∧ (0 : ℤ) ≤ 1)
  | advertise nameHash cell => exact h.2
  | mmioSync nameHash state => exact h
  | posture state weight => exact h

theorem postureWeight_nonce {p : ArcPacket} {weight : ℕ} (h : p.nonce = postureNonce now weight) :
    postureWeight p = min weight swarmWeightMax := by
  have hmax : swarmWeightMax = 4 := rfl
  have hweight : min weight swarmWeightMax &&& 0x0F = min weight swarmWeightMax := by
    rw [show (0x0F : ℕ) = 2 ^ 4 - 1 from rfl, Nat.and_two_pow_sub_one_eq_mod]
    omega
  have hnonce : p.nonce.toNat % 2 ^ 4 = min weight swarmWeightMax := by
    rw [h, postureNonce, hweight, UInt32.toNat_or, UInt32.toNat_and, Nat.or_mod_two_pow,
      Nat.and_mod_two_pow, UInt32.toNat_ofNat', UInt32.toNat_ofNat',
      show UInt32.toNat 0xFFFFFFF0 % 2 ^ 4 = 0 from rfl, Nat.and_zero, Nat.zero_or]
    omega
  rw [postureWeight, show (16 : ℕ) = 2 ^ 4 from rfl, hnonce]
  omega

end Agreement

/-- A board that gets what another with its key emits authenticates it, and handles it as what the
sender meant. -/
theorem wire_agreement (hmac : List UInt8 → List UInt8) (localMac src : Mac) (now : ℕ)
    (e : Emission) (hsrc : src ≠ localMac) (hternary : e.Ternary) :
    ∃ p, acceptArc hmac localMac src (arcBytes (e.packet hmac now)) = some p ∧
      p.told = e.means now ∧
      (∀ (W : Type) (atlas : Atlas) (calls : RecvCalls) (T : Tapestry W) (A : Atmosphere),
        (replaySeenOrRecord A.replayCache src (e.means now).nonce calls.now).1 = false →
          atmosphereRecv atlas hmac calls localMac src (arcBytes (e.packet hmac now)) T A =
            handleArc atlas hmac calls src p T { A with replayCache :=
              (replaySeenOrRecord A.replayCache src (e.means now).nonce calls.now).2 }) ∧
      ∀ state weight, e = .posture state weight → postureWeight p = min weight swarmWeightMax := by
  obtain ⟨hsealed, hversion⟩ := packet_sealed hmac now e
  have htold : (e.packet hmac now).told = e.means now := packet_told hternary
  have hstate : -1 ≤ arcState (e.packet hmac now) ∧ arcState (e.packet hmac now) ≤ 1 := by
    rw [show arcState (e.packet hmac now) = (e.means now).state from congrArg Told.state htold]
    exact hternary.state
  have haccept := acceptArc_sealed hmac hsrc hversion hstate
  rw [← hsealed] at haccept
  refine ⟨_, haccept, htold, fun W atlas calls T A hnew => ?_, ?_⟩
  · rw [← htold] at hnew ⊢
    exact atmosphereRecv_new haccept hnew
  · rintro state weight rfl
    exact postureWeight_nonce rfl

/-- A POSTURE arc of weight 9 counts as one of weight 4. -/
theorem wire_agreement_posture :
    ∃ p, acceptArc id (fun _ => 0) (fun _ => 1)
        (arcBytes ((Emission.posture (-1) 9).packet id 1000)) = some p ∧ postureWeight p = 4 := by
  obtain ⟨p, haccept, -, -, hweight⟩ :=
    wire_agreement id (fun _ => 0) (fun _ => 1) 1000 (.posture (-1) 9)
      (fun h => absurd (congrFun h 0) (by decide)) ⟨by decide, by decide⟩
  exact ⟨p, haccept, hweight (-1) 9 rfl⟩

end ReflexOS.Goose
