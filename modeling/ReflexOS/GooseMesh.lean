import ReflexOS.GooseAura
import ReflexOS.GoosePulse

set_option autoImplicit false

/-!
# Peers, queries and the resolution of any name

A name outside the registry is looked for on the mesh when it begins with `peer.`, and in
the catalogue otherwise; both weave a cell for it.
-/
namespace ReflexOS.Goose
open VmTernary

def maxPeers : ℕ := 8
def peerNameMax : ℕ := 12
def queryEgressMinUs : ℕ := 100000

abbrev Mac := Fin 6 → UInt8

instance neZeroMac : NeZero 6 := ⟨by decide⟩

structure Peer where
  name : CName
  mac : Mac
  lastSeenUs : ℕ
  active : Bool
deriving DecidableEq

/-- What a board keeps of its mesh, and the arcs it has transmitted. -/
structure Mesh where
  peers : List Peer
  ghostCounter : ℕ
  lastQuerySentUs : ℕ
  sent : List ArcPacket

def queryPacket (now : ℕ) (name : CName) : ArcPacket where
  version := gooseArcVersion
  op := arcOpQuery
  coord := fun _ => 0
  state := 0
  nameHash := UInt32.ofNat (gooseNameHash name)
  nonce := UInt32.ofNat now
  aura := 0

def sealArc (hmac : List UInt8 → List UInt8) (p : ArcPacket) : ArcPacket :=
  { p with aura := calculateAura hmac p }

/-- The last query left less than the egress interval ago. -/
def queryThrottled (M : Mesh) (now : ℕ) : Bool :=
  decide (M.lastQuerySentUs ≠ 0 ∧ (now + 2 ^ 64 - M.lastQuerySentUs) % 2 ^ 64 < queryEgressMinUs)

def atmosphereQuery (hmac : List UInt8 → List UInt8) (now : ℕ) (M : Mesh) (name : CName) : Mesh :=
  if queryThrottled M now then M
  else { M with lastQuerySentUs := now, sent := M.sent ++ [sealArc hmac (queryPacket now name)] }

/-- The namespace of the phantoms: their last trit is -1. -/
def ghostCoord (ghostCounter : ℕ) : Tryte9 := fun i =>
  if i = 0 then 5 else if i = 6 then (ghostCounter % 256 : ℕ)
  else if i = 7 then (ghostCounter / 256 % 256 : ℕ) else if i = 8 then -1 else 0

/-- The peer a phantom's name `peer.<peer>.<cell>` stands for, counted from 1. -/
def phantomPeer (peers : List Peer) (name : CName) : Option ℕ :=
  let afterPeer := name.drop nsPeer.length
  if afterPeer.contains 46 then
    let peerName := (afterPeer.takeWhile fun c => decide (c ≠ 46)).take (peerNameMax - 1)
    (peers.findIdx? fun p => decide (p.name = peerName)).map (· + 1)
  else none

def resolvePeer (atlas : Atlas) (hmac : List UInt8 → List UInt8) (lock : Bool) (now : ℕ)
    (F : Fabric) (M : Mesh) (name : CName) : Option ℕ × Fabric × Mesh :=
  let M := atmosphereQuery hmac now M name
  let coord := ghostCoord M.ghostCounter
  let M := { M with ghostCounter := M.ghostCounter + 1 }
  let phantom := fabricAllocCell atlas lock F (some name) coord false
  match phantom.1, phantomPeer M.peers name with
  | some idx, some peer =>
    let cell := { phantom.2.cells idx with peerId := peer }
    (some idx, { phantom.2 with cells := Function.update phantom.2.cells idx cell }, M)
  | got, _ => (got, phantom.2, M)

/-- `goonies_resolve_cell` for any name. -/
def gooniesResolveCell (atlas : Atlas) (hmac : List UInt8 → List UInt8) (lock : Bool) (now : ℕ)
    (F : Fabric) (M : Mesh) (name : CName) : Option ℕ × Fabric × Mesh :=
  if (gooniesResolve F.registry name).isNone && nsPeer.isPrefixOf name then
    resolvePeer atlas hmac lock now F M name
  else
    let got := resolveCell atlas lock F name
    (got.1, got.2, M)

section Quiet

variable (atlas : Atlas)

/-- The registry does not take the name. -/
def Refuses (reg : Registry) (name : CName) (coord : Tryte9) (sys : Bool) : Prop :=
  (gooniesRegister atlas reg name coord sys).1 ≠ Err.ok

/-- An allocation under a new name gives up before it changes the fabric. -/
def AllocRefused (lock : Bool) (F : Fabric) (name : CName) (coord : Tryte9) (sys : Bool) : Prop :=
  lock = true → match getCellByCoord F coord with
    | some _ => Refuses atlas F.registry name coord sys
    | none =>
      if F.cellCount < fabricMaxCells then Refuses atlas F.registry name coord sys
      else ∀ t, findVictim F = some t → evict F t = F ∧ Refuses atlas F.registry name coord sys

/-- A lookup of the name changes no cell, no name and sends nothing. -/
def LookupQuiet (lock : Bool) (now : ℕ) (F : Fabric) (M : Mesh) (name : CName) : Prop :=
  (gooniesResolve F.registry name).isSome ∨
    if nsPeer.isPrefixOf name then
      queryThrottled M now ∧ ((heapPressure atlas lock F).1 = true ∨
        AllocRefused atlas lock F name (ghostCoord M.ghostCounter) false)
    else ∀ e, atlas name = some e → AllocRefused atlas lock F name e.coord true

/-- How an allocation under a new name can end. -/
inductive AllocEnd (F : Fabric) (name : CName) (coord : Tryte9) (sys : Bool) :
    Option ℕ × Fabric → Prop where
  | occupied (e : ℕ) (hget : getCellByCoord F coord = some e) :
      AllocEnd F name coord sys (none, { F with
        registry := (gooniesRegister atlas F.registry name coord sys).2 })
  | refused (hget : getCellByCoord F coord = none) (hroom : F.cellCount < fabricMaxCells)
      (hr : Refuses atlas F.registry name coord sys) : AllocEnd F name coord sys (none, F)
  | noVictim (hget : getCellByCoord F coord = none) (hfull : ¬ F.cellCount < fabricMaxCells)
      (hv : findVictim F = none) : AllocEnd F name coord sys (none, F)
  | victimLost (t : ℕ) (hget : getCellByCoord F coord = none)
      (hfull : ¬ F.cellCount < fabricMaxCells) (hv : findVictim F = some t)
      (hr : Refuses atlas (evict F t).registry name coord sys) :
      AllocEnd F name coord sys (none, evict F t)
  | woven (idx : ℕ) (G : Fabric) (hget : getCellByCoord F coord = none)
      (hroom : F.cellCount < fabricMaxCells → ¬ Refuses atlas F.registry name coord sys)
      (hfull : ¬ F.cellCount < fabricMaxCells → ∃ t, findVictim F = some t ∧
        ¬ Refuses atlas (evict F t).registry name coord sys)
      (hversion : G.version = (F.version + 1) % 2 ^ 32)
      (hcount : G.cellCount =
        if F.cellCount < fabricMaxCells then F.cellCount + 1 else F.cellCount) :
      AllocEnd F name coord sys (some idx, G)

variable {atlas}
variable {F : Fabric} {name : CName} {coord : Tryte9} {sys lock : Bool} {reg : Registry}

theorem gooniesRegister_unchanged_iff (hnew : registryFindName reg name = none) :
    (gooniesRegister atlas reg name coord sys).2 = reg ↔ Refuses atlas reg name coord sys := by
  constructor
  · intro h hok
    have hcount := congrArg Registry.count h
    unfold gooniesRegister at hok hcount
    rw [hnew] at hok hcount
    split at hok
    · simp [Err.noMem, Err.ok] at hok
    split at hok
    · simp [Err.invalidArg, Err.ok] at hok
    rw [if_neg ‹_›, if_neg ‹_›] at hcount
    dsimp only at hok hcount
    split at hok
    · simp [Err.notSupported, Err.ok] at hok
    rw [if_neg ‹_›] at hcount
    unfold registryAdd at hok hcount
    split at hok
    · simp [Err.noMem, Err.ok] at hok
    next hadd =>
      rw [hadd] at hcount
      split at hadd
      · cases hadd
      split at hadd <;> cases hadd
      exact absurd hcount (Nat.succ_ne_self _)
  · exact gooniesRegister_fail atlas reg name coord sys

theorem evict_version (F : Fabric) (t : ℕ) : (evict F t).version = F.version := by
  unfold evict forgetName
  dsimp only
  split <;> rfl

variable (atlas F name coord sys) in
theorem allocLocked_end :
    AllocEnd atlas F name coord sys (allocLocked atlas true F (some name) coord sys false) := by
  unfold allocLocked
  rw [if_neg (by simp)]
  cases hget : getCellByCoord F coord with
  | some e => exact .occupied e hget
  | none =>
    dsimp only
    by_cases hroom : F.cellCount < fabricMaxCells
    · have hclaim : claimSlot F = some (F.cellCount, { F with cellCount := F.cellCount + 1 }) :=
        if_pos hroom
      rw [hclaim]
      dsimp only
      split
      next hr =>
        rw [gooniesRegister_fail _ _ _ _ _ hr]
        exact .refused hget hroom hr
      next hr =>
        refine .woven _ _ hget (fun _ => hr) (fun hfull => absurd hroom hfull) rfl ?_
        rw [if_pos hroom]
        rfl
    · have hclaim : claimSlot F = (findVictim F).map fun t => (t, evict F t) := if_neg hroom
      rw [hclaim]
      cases hv : findVictim F with
      | none => exact .noVictim hget hroom hv
      | some t =>
        simp only [Option.map_some]
        split
        next hr =>
          rw [gooniesRegister_fail _ _ _ _ _ hr]
          exact .victimLost t hget hroom hv hr
        next hr =>
          refine .woven _ _ hget (fun h => absurd h hroom) (fun _ => ⟨t, hv, hr⟩) ?_ ?_
          · exact congrArg (fun n => (n + 1) % 2 ^ 32) (evict_version F t)
          · rw [if_neg hroom]
            exact evict_cellCount F t

theorem AllocEnd.counts {got : Option ℕ × Fabric} (hend : AllocEnd atlas F name coord sys got)
    {idx : ℕ} (hgot : got.1 = some idx) :
    got.2.version = (F.version + 1) % 2 ^ 32 ∧
      got.2.cellCount = if F.cellCount < fabricMaxCells then F.cellCount + 1 else F.cellCount := by
  cases hend with
  | woven i G _ _ _ hversion hcount => exact ⟨hversion, hcount⟩
  | occupied => cases hgot
  | refused => cases hgot
  | noVictim => cases hgot
  | victimLost => cases hgot

theorem allocLocked_some_version {idx : ℕ}
    (h : (allocLocked atlas lock F (some name) coord sys false).1 = some idx) :
    (allocLocked atlas lock F (some name) coord sys false).2.version ≠ F.version := by
  cases lock with
  | false => cases h
  | true =>
    rw [((allocLocked_end atlas F name coord sys).counts h).1]
    omega

/-- A finished weave shows in the version; one that is refused undoes its claim. -/
theorem allocLocked_unchanged_iff (hnew : registryFindName F.registry name = none) :
    (allocLocked atlas lock F (some name) coord sys false).2 = F ↔
      AllocRefused atlas lock F name coord sys := by
  unfold AllocRefused
  cases lock with
  | false => exact iff_of_true rfl fun hlock => nomatch hlock
  | true =>
    rw [forall_prop_of_true rfl]
    have hend := allocLocked_end atlas F name coord sys
    generalize allocLocked atlas true F (some name) coord sys false = got at hend
    cases hend with
    | occupied e hget =>
      rw [hget]
      dsimp only
      rw [← gooniesRegister_unchanged_iff hnew]
      constructor
      · exact congrArg Fabric.registry
      · intro h
        rw [h]
    | refused hget hroom hr =>
      rw [hget]
      dsimp only
      rw [if_pos hroom]
      exact iff_of_true rfl hr
    | noVictim hget hfull hv =>
      rw [hget]
      dsimp only
      rw [if_neg hfull, hv]
      exact iff_of_true rfl fun t ht => nomatch ht
    | victimLost t hget hfull hv hr =>
      rw [hget]
      dsimp only
      rw [if_neg hfull, hv]
      simp only [Option.some.injEq, forall_eq']
      exact ⟨fun h => ⟨h, h ▸ hr⟩, fun h => h.1⟩
    | woven idx G hget hroom hfull hversion _ =>
      rw [hget]
      dsimp only
      refine iff_of_false (fun h => ?_) fun h => ?_
      · rw [h] at hversion
        omega
      · split at h
        next hlt => exact hroom hlt h
        next hlt =>
          obtain ⟨t, hv, hno⟩ := hfull hlt
          obtain ⟨hsame, hr⟩ := h t hv
          rw [hsame] at hno
          exact hno hr

theorem registryFindName_none (h : gooniesResolve F.registry name = none) :
    registryFindName F.registry name = none := Option.map_eq_none_iff.mp h

/-- What a paged-in cell gets on top leaves the version alone. -/
theorem resolveCell_unchanged_iff (hnew : gooniesResolve F.registry name = none) :
    (resolveCell atlas lock F name).2 = F ↔
      ∀ e, atlas name = some e → AllocRefused atlas lock F name e.coord true := by
  unfold resolveCell
  rw [hnew]
  cases hat : atlas name with
  | none => simp
  | some e =>
    simp only [Option.some.injEq, forall_eq']
    rw [← allocLocked_unchanged_iff (registryFindName_none hnew)]
    cases hgot : (allocLocked atlas lock F (some name) e.coord true false).1 with
    | none => exact Iff.rfl
    | some idx =>
      have hversion : (allocLocked atlas lock F (some name) e.coord true false).2.version ≠
          F.version := allocLocked_some_version hgot
      constructor
      · exact fun h => absurd (congrArg Fabric.version h) hversion
      · exact fun h => absurd (congrArg Fabric.version h) hversion

theorem fabricAllocCell_version {idx : ℕ}
    (hheap : atlas heapPressureName = none)
    (h : (fabricAllocCell atlas lock F (some name) coord sys).1 = some idx) :
    (fabricAllocCell atlas lock F (some name) coord sys).2.version ≠ F.version := by
  unfold fabricAllocCell at h ⊢
  by_cases hr : Refused atlas lock F sys
  · rw [fabricAllocInternal_refused hheap hr] at h
    cases h
  · rw [fabricAllocInternal_free hheap hr] at h ⊢
    exact allocLocked_some_version h

theorem fabricAllocCell_unchanged_iff (hheap : atlas heapPressureName = none)
    (hnew : gooniesResolve F.registry name = none) :
    (fabricAllocCell atlas lock F (some name) coord false).2 = F ↔
      (heapPressure atlas lock F).1 = true ∨ AllocRefused atlas lock F name coord false := by
  have hF := heapPressure_fabric hheap lock F
  simp only [fabricAllocCell, fabricAllocInternal, hF, Bool.false_eq_true, if_false]
  cases (heapPressure atlas lock F).1 with
  | true => simp
  | false =>
    simp only [Bool.false_eq_true, if_false, false_or]
    exact allocLocked_unchanged_iff (registryFindName_none hnew)

variable {hmac : List UInt8 → List UInt8} {now : ℕ} {M : Mesh}

theorem atmosphereQuery_sent_iff :
    (atmosphereQuery hmac now M name).sent = M.sent ↔ queryThrottled M now = true := by
  unfold atmosphereQuery
  split
  next h => exact iff_of_true rfl h
  next h => exact iff_of_false (by simp) h

theorem atmosphereQuery_peers : (atmosphereQuery hmac now M name).peers = M.peers := by
  unfold atmosphereQuery
  split <;> rfl

theorem atmosphereQuery_ghostCounter :
    (atmosphereQuery hmac now M name).ghostCounter = M.ghostCounter := by
  unfold atmosphereQuery
  split <;> rfl

theorem resolvePeer_mesh : (resolvePeer atlas hmac lock now F M name).2.2 =
    { atmosphereQuery hmac now M name with
      ghostCounter := (atmosphereQuery hmac now M name).ghostCounter + 1 } := by
  unfold resolvePeer
  dsimp only
  split <;> rfl

theorem resolvePeer_unchanged_iff (hheap : atlas heapPressureName = none)
    (hnew : gooniesResolve F.registry name = none) :
    (resolvePeer atlas hmac lock now F M name).2.1 = F ↔
      (heapPressure atlas lock F).1 = true ∨
        AllocRefused atlas lock F name (ghostCoord M.ghostCounter) false := by
  rw [← fabricAllocCell_unchanged_iff hheap hnew]
  unfold resolvePeer
  dsimp only
  rw [atmosphereQuery_ghostCounter]
  split
  next idx peer hgot _ =>
    -- A phantom that was woven is not undone by what is written into it.
    have hversion := fabricAllocCell_version hheap hgot
    constructor
    · intro h
      have hv := congrArg Fabric.version h
      exact absurd hv hversion
    · intro h
      exact absurd (congrArg Fabric.version h) hversion
  next => exact Iff.rfl

/-- The lookups that leave no trace, where the heap cell's name is not in the catalogue. -/
theorem gooniesResolveCell_quiet_iff (hheap : atlas heapPressureName = none) :
    (gooniesResolveCell atlas hmac lock now F M name).2.1 = F ∧
      (gooniesResolveCell atlas hmac lock now F M name).2.2.peers = M.peers ∧
      (gooniesResolveCell atlas hmac lock now F M name).2.2.sent = M.sent ↔
    LookupQuiet atlas lock now F M name := by
  unfold gooniesResolveCell LookupQuiet
  cases hres : gooniesResolve F.registry name with
  | some coord => simp [resolveCell, hres]
  | none =>
    simp only [Option.isNone_none, Bool.true_and, Option.isSome_none, Bool.false_eq_true, false_or]
    split
    · rw [resolvePeer_unchanged_iff hheap hres, resolvePeer_mesh, atmosphereQuery_peers,
        atmosphereQuery_sent_iff]
      simp only [true_and]
      exact and_comm
    · simp only [and_true]
      exact resolveCell_unchanged_iff hres

end Quiet

end ReflexOS.Goose
