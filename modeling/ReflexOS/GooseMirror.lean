import ReflexOS.GooseMmioSync
import ReflexOS.GooseTables

set_option autoImplicit false

/-!
# What an MMIO_SYNC arc may change

The sender's index is the one its address has in the table, and the cell it reaches is
registered under the sender's name.
-/
namespace ReflexOS.Goose
open VmTernary Runs

section Peers
variable {now : ℕ} {peers : List Peer} {mac : Mac}

theorem findPeerByMac_eq_zero :
    findPeerByMac peers mac = 0 ↔ ∀ p ∈ peers, p.mac ≠ mac := by
  unfold findPeerByMac
  cases hf : peers.findIdx? fun p => decide (p.mac = mac) with
  | none =>
    have hnone := List.findIdx?_eq_none_iff.mp hf
    exact iff_of_true rfl fun p hp => of_decide_eq_false (hnone p hp)
  | some i =>
    obtain ⟨hi, hp, -⟩ := List.findIdx?_eq_some_iff_getElem.mp hf
    exact iff_of_false (Nat.succ_ne_zero i) fun h =>
      h _ (List.getElem_mem hi) (of_decide_eq_true hp)

/-- The peer at an index counted from 1. -/
theorem findPeerByMac_get (h : findPeerByMac peers mac ≠ 0) :
    ∃ p, peers[findPeerByMac peers mac - 1]? = some p ∧ p.mac = mac := by
  unfold findPeerByMac at h ⊢
  cases hf : peers.findIdx? fun p => decide (p.mac = mac) with
  | none =>
    rw [hf] at h
    exact absurd rfl h
  | some i =>
    obtain ⟨hi, hp, -⟩ := List.findIdx?_eq_some_iff_getElem.mp hf
    exact ⟨peers[i], List.getElem?_eq_getElem hi, of_decide_eq_true hp⟩

theorem findPeerByMac_congr {peers' : List Peer} (h : peers'.map Peer.mac = peers.map Peer.mac)
    (mac : Mac) : findPeerByMac peers' mac = findPeerByMac peers mac := by
  have hidx : ∀ L : List Peer, (L.findIdx? fun p => decide (p.mac = mac)) =
      (L.map Peer.mac).findIdx? fun m => decide (m = mac) := by
    intro L
    rw [List.findIdx?_map]
    rfl
  rw [findPeerByMac, findPeerByMac, hidx, hidx, h]

theorem map_modify_of_eq {α β : Type*} {g : α → β} {f : α → α} (hf : ∀ a, g (f a) = g a)
    (L : List α) (i : ℕ) : (L.modify i f).map g = L.map g := by
  apply List.ext_getElem?
  intro j
  rw [List.getElem?_map, List.getElem?_map, List.getElem?_modify]
  cases L[j]? with
  | none => rfl
  | some a =>
    by_cases hij : i = j
    · simp only [hij, if_true, Option.map_eq_map, Option.map_some, hf]
    · simp only [hij, if_false, Option.map_eq_map, Option.map_some]

theorem findIdx_of_unknown (h : findPeerByMac peers mac = 0) :
    (peers.findIdx? fun q => decide (q.mac = mac)) = none :=
  List.findIdx?_eq_none_iff.mpr fun q hq => decide_eq_false (findPeerByMac_eq_zero.mp h q hq)

theorem findPeerByMac_append (h : findPeerByMac peers mac = 0) (p : Peer) (hp : p.mac = mac) :
    findPeerByMac (peers ++ [p]) mac = peers.length + 1 := by
  rw [findPeerByMac, List.findIdx?_append, findIdx_of_unknown h, List.findIdx?_singleton,
    if_pos (by simp [hp])]
  exact congrArg (· + 1) (Nat.zero_add _)

theorem addPeer_unknown (h : findPeerByMac peers mac = 0) (now : ℕ) (name : CName) :
    addPeer now peers name mac =
      if name = [] then (Err.invalidArg, peers)
      else if peerNameMax ≤ name.length then (Err.invalidSize, peers)
      else if maxPeers ≤ peers.length then (Err.noMem, peers)
      else (Err.ok, peers ++ [⟨name, mac, now, true⟩]) := by
  rw [addPeer, findIdx_of_unknown h]

theorem addPeer_new (h : findPeerByMac peers mac = 0) {name : CName}
    (hok : (addPeer now peers name mac).1 = Err.ok) :
    (addPeer now peers name mac).2 = peers ++ [⟨name, mac, now, true⟩] := by
  rw [addPeer_unknown h] at hok ⊢
  split at hok
  · cases hok
  split at hok
  · cases hok
  split at hok
  · cases hok
  rw [if_neg ‹_›, if_neg ‹_›, if_neg ‹_›]

/-- Whoever is added goes behind the others, or is renamed in its place. -/
theorem addPeer_added {peers' : List Peer} {name : CName}
    (h : addPeer now peers name mac = (Err.ok, peers')) :
    (peers' = peers ++ [⟨name, mac, now, true⟩] ∧
        findPeerByMac peers' mac = peers.length + 1) ∨
      ∃ i < peers.length, peers' = peers.modify i (fun p => { p with name := name, active := true }) ∧
        findPeerByMac peers' mac = i + 1 := by
  by_cases hnew : findPeerByMac peers mac = 0
  · have hpeers := addPeer_new hnew (congrArg Prod.fst h)
    rw [h] at hpeers
    rw [show peers' = _ from hpeers]
    exact .inl ⟨rfl, findPeerByMac_append hnew _ rfl⟩
  · unfold addPeer at h
    split at h
    · cases h
    split at h
    · cases h
    split at h
    next i hi =>
      cases h
      obtain ⟨hlt, -, -⟩ := List.findIdx?_eq_some_iff_getElem.mp hi
      refine .inr ⟨i, hlt, rfl, ?_⟩
      rw [findPeerByMac_congr (map_modify_of_eq (by simp) peers i), findPeerByMac, hi]
    next hi =>
      rw [findPeerByMac, hi] at hnew
      exact absurd rfl hnew

theorem findPeerByMac_added {peers' : List Peer} {name : CName}
    (h : addPeer now peers name mac = (Err.ok, peers')) : findPeerByMac peers' mac ≠ 0 := by
  rcases addPeer_added h with ⟨-, hidx⟩ | ⟨i, -, -, hidx⟩
  · rw [hidx]
    exact Nat.succ_ne_zero _
  · rw [hidx]
    exact Nat.succ_ne_zero _

/-- The index is the sender's in the table it comes with. -/
theorem senderPeer_index {idx : ℕ} {peers' : List Peer}
    (h : senderPeer now peers mac = some (idx, peers')) :
    findPeerByMac peers' mac = idx ∧ idx ≠ 0 := by
  unfold senderPeer at h
  split at h
  next hnew =>
    dsimp only at h
    split at h
    next hok =>
      cases h
      rw [addPeer_new hnew hok, findPeerByMac_append hnew _ rfl, List.length_append]
      exact ⟨rfl, Nat.succ_ne_zero _⟩
    next => cases h
  next hknown =>
    cases h
    exact ⟨rfl, hknown⟩

end Peers

section Lookup
variable {F : Fabric}

theorem Tabled.lookup (h : Tabled F) (atlas : Atlas) (hmac : List UInt8 → List UInt8) (lock : Bool)
    (now : ℕ) (M : Mesh) (name : CName) :
    Tabled (gooniesResolveCell atlas hmac lock now F M name).2.1 := by
  unfold gooniesResolveCell
  split
  · have halloc := h.alloc atlas lock (some name)
      (ghostCoord (atmosphereQuery hmac now M name).ghostCounter) false false
    unfold resolvePeer
    dsimp only
    split
    · exact halloc.write rfl
    · exact halloc
  · exact h.resolveCell atlas lock name

theorem Tabled.resolved (h : Tabled F) {name : CName} {v : ℕ}
    (hres : (gooniesResolve F.registry name).bind (getCellByCoord F) = some v) :
    Registered F.registry name (F.cells v).coord ∧ v < F.cellCount := by
  obtain ⟨S, hS⟩ := h
  obtain ⟨coord, hcoord, hget⟩ := Option.bind_eq_some_iff.mp hres
  obtain ⟨hv, rfl⟩ := (hS.getCell_iff coord v).mp hget
  exact ⟨(hS.names.resolve_iff name _).mp hcoord, hS.live v hv⟩

end Lookup

/-- The cell stands for one with the hash, outside `sys.`, of the peer at the address. -/
def MirrorOf (F : Fabric) (peers : List Peer) (mac : Mac) (nameHash v : ℕ) : Prop :=
  ∃ p suffix, peers[findPeerByMac peers mac - 1]? = some p ∧ p.mac = mac ∧
    (F.cells v).peerId = findPeerByMac peers mac ∧ (F.cells v).peerId ≠ 0 ∧
    Registered F.registry (peerPrefix p.name ++ suffix) (F.cells v).coord ∧
    gooseNameHash suffix = nameHash ∧ ¬ nsSys.isPrefixOf suffix

section Arc
variable {F : Fabric} {peerIdx nameHash : ℕ} {peerName : CName} {state : ℤ}

theorem mirrorState_cases (h : Tabled F) :
    mirrorState F peerIdx peerName nameHash state = F ∨
      ∃ v suffix, mirrorState F peerIdx peerName nameHash state = F.setState v state ∧
        v < F.cellCount ∧ (F.cells v).peerId = peerIdx ∧
        Registered F.registry (peerPrefix peerName ++ suffix) (F.cells v).coord ∧
        gooseNameHash suffix = nameHash ∧ ¬ nsSys.isPrefixOf suffix := by
  unfold mirrorState
  cases hfind : (registeredNames F.registry).find? (namesRemote peerName nameHash) with
  | none => exact .inl rfl
  | some name =>
    dsimp only
    cases hres : (gooniesResolve F.registry name).bind (getCellByCoord F) with
    | none => exact .inl rfl
    | some v =>
      dsimp only
      split
      next hguard =>
        obtain ⟨hpeer, hsys⟩ := Bool.and_eq_true_iff.mp hguard
        have hnames : namesRemote peerName nameHash name = true := List.find?_some hfind
        obtain ⟨hbegins, hhash⟩ := Bool.and_eq_true_iff.mp hnames
        obtain ⟨hreg, hv⟩ := h.resolved hres
        have hname : peerPrefix peerName ++ remoteSuffix peerName name = name := by
          obtain ⟨suffix, rfl⟩ := List.isPrefixOf_iff_prefix.mp hbegins
          rw [remoteSuffix, List.drop_left]
        refine .inr ⟨v, remoteSuffix peerName name, rfl, hv, of_decide_eq_true hpeer, ?_,
          of_decide_eq_true hhash, ?_⟩
        · rwa [hname]
        · rw [Bool.not_eq_true'] at hsys
          rw [hsys]
          exact Bool.false_ne_true
      next => exact .inl rfl

theorem mmioSyncRecv_cases (h : Tabled F) (now : ℕ) (M : Mesh) (mac : Mac) (nameHash : ℕ) (state : ℤ) :
    (mmioSyncRecv now F M mac nameHash state).1 = F ∨
      ∃ v < F.cellCount, (mmioSyncRecv now F M mac nameHash state).1 = F.setState v state ∧
        MirrorOf F (mmioSyncRecv now F M mac nameHash state).2.peers mac nameHash v := by
  unfold mmioSyncRecv
  cases hsender : senderPeer now M.peers mac with
  | none => exact .inl rfl
  | some sender =>
    obtain ⟨peerIdx, peers⟩ := sender
    obtain ⟨hidx, hpos⟩ := senderPeer_index hsender
    dsimp only
    generalize hseen : (peers.modify (peerIdx - 1) fun p => { p with lastSeenUs := now, active := true }) =
      seen
    have hmacs : findPeerByMac seen mac = peerIdx := by
      rw [← hidx, ← hseen]
      exact findPeerByMac_congr (map_modify_of_eq (by simp) peers (peerIdx - 1)) mac
    obtain ⟨p, hp, hpmac⟩ := findPeerByMac_get (by rwa [hmacs] : findPeerByMac seen mac ≠ 0)
    rw [hmacs] at hp
    rw [hp, Option.map_some, Option.getD_some]
    obtain hsame | ⟨v, suffix, hset, hv, hpeer, hreg, hhash, hsys⟩ :=
      @mirrorState_cases F peerIdx nameHash p.name state h
    · exact .inl hsame
    · refine .inr ⟨v, hv, hset, p, suffix, ?_, hpmac, ?_, ?_, hreg, hhash, hsys⟩
      · rwa [hmacs]
      · rw [hmacs, hpeer]
      · rwa [hpeer]

end Arc

inductive MirrorOp where
  | arc (now : ℕ) (mac : Mac) (nameHash : ℕ) (state : ℤ)
  | addPeer (now : ℕ) (name : CName) (mac : Mac)
  | resolve (lock : Bool) (now : ℕ) (name : CName)
  | fabric (op : FabricOp)

inductive MirrorStep (atlas : Atlas) (hmac : List UInt8 → List UInt8) :
    Fabric × Mesh → MirrorOp → Fabric × Mesh → Prop where
  | arc (F : Fabric) (M : Mesh) (now : ℕ) (mac : Mac) (nameHash : ℕ) (state : ℤ) :
      MirrorStep atlas hmac (F, M) (.arc now mac nameHash state)
        (mmioSyncRecv now F M mac nameHash state)
  | addPeer (F : Fabric) (M : Mesh) (now : ℕ) (name : CName) (mac : Mac) :
      MirrorStep atlas hmac (F, M) (.addPeer now name mac)
        (F, { M with peers := (Goose.addPeer now M.peers name mac).2 })
  | resolve (F : Fabric) (M : Mesh) (lock : Bool) (now : ℕ) (name : CName) :
      MirrorStep atlas hmac (F, M) (.resolve lock now name)
        (gooniesResolveCell atlas hmac lock now F M name).2
  | fabric {F F' : Fabric} (M : Mesh) {op : FabricOp} (h : FabricStep atlas F op F') :
      MirrorStep atlas hmac (F, M) (.fabric op) (F', M)

section Run
variable {atlas : Atlas} {hmac : List UInt8 → List UInt8}

theorem Tabled.fabricStep {F F' : Fabric} {op : FabricOp} (h : Tabled F)
    (hs : FabricStep atlas F op F') : Tabled F' := by
  cases hs with
  | alloc lock name coord sys ret => exact h.alloc atlas lock name coord sys ret
  | write idx cell hc => exact h.write hc
  | boot cold purpose => exact fabricInit_tabled atlas cold purpose (.inr h)

theorem MirrorStep.tabled {s s' : Fabric × Mesh} {op : MirrorOp}
    (hs : MirrorStep atlas hmac s op s') (h : Tabled s.1) : Tabled s'.1 := by
  cases hs with
  | arc F M now mac nameHash state =>
    obtain hsame | ⟨v, -, hset, -⟩ := mmioSyncRecv_cases h now M mac nameHash state
    · rwa [hsame]
    · rw [hset]
      exact h.write rfl
  | addPeer => exact h
  | resolve F M lock now name => exact h.lookup atlas hmac lock now M name
  | fabric M hstep => exact h.fabricStep hstep

/-- An arc changes the state of at most one cell, and only of a phantom of its sender. -/
theorem arc_confined (purpose : Bool) (F₀ : Fabric) (M₀ : Mesh) (ops : List MirrorOp) (F : Fabric)
    (M : Mesh) (hrun : Run (MirrorStep atlas hmac) (fabricInit atlas true purpose F₀, M₀) ops (F, M))
    (now : ℕ) (mac : Mac) (nameHash : ℕ) (state : ℤ) :
    (mmioSyncRecv now F M mac nameHash state).1 = F ∨
      ∃ v < F.cellCount, (mmioSyncRecv now F M mac nameHash state).1 = F.setState v state ∧
        MirrorOf F (mmioSyncRecv now F M mac nameHash state).2.peers mac nameHash v := by
  have htabled : Tabled (F, M).1 := by
    apply hrun.invariant fun s => Tabled s.1
    · exact fun _ _ _ h hs => hs.tabled h
    · exact fabricInit_tabled atlas true purpose (.inl rfl)
  exact mmioSyncRecv_cases htabled now M mac nameHash state

end Run

def mirroredName : CName := ascii "peer.a.led"

/-- One peer, at address 0. -/
def pairedMesh : Mesh := ⟨[⟨ascii "a", fun _ => 0, 0, true⟩], 0, 0, []⟩

def mirroredFabric : Fabric × Mesh :=
  (gooniesResolveCell emptyAtlas (fun _ => []) true 0 coldFabric pairedMesh mirroredName).2

/-- The peer's arc sets the phantom of its cell. -/
theorem arc_confined_led : ∃ v < mirroredFabric.1.cellCount,
    (mmioSyncRecv 0 mirroredFabric.1 mirroredFabric.2 (fun _ => 0) (gooseNameHash (ascii "led")) 1).1 =
      mirroredFabric.1.setState v 1 ∧
    MirrorOf mirroredFabric.1 (mmioSyncRecv 0 mirroredFabric.1 mirroredFabric.2 (fun _ => 0)
      (gooseNameHash (ascii "led")) 1).2.peers (fun _ => 0) (gooseNameHash (ascii "led")) v := by
  have hrun : Run (MirrorStep emptyAtlas fun _ => []) (coldFabric, pairedMesh)
      [.resolve true 0 mirroredName] (mirroredFabric.1, mirroredFabric.2) :=
    .single (.resolve _ _ _ _ _)
  refine (arc_confined false blankFabric pairedMesh _ _ _ hrun 0 (fun _ => 0)
    (gooseNameHash (ascii "led")) 1).resolve_left fun hsame => ?_
  have hstate := congrArg (fun F => (F.cells 2).state) hsame
  revert hstate
  decide +kernel

end ReflexOS.Goose
