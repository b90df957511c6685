import ReflexOS.GooseDiscovery
import ReflexOS.GoosePhantomRuns

set_option autoImplicit false

/-!
# What is left of a peer that is silent

The cells of a peer go back to 0 once, as the peer turns silent, and only where a name still
leads to them. A warm boot leaves the cells and takes the names.
-/
namespace ReflexOS.Goose
open VmTernary Runs
open Kv hiding Entry

/-- The peer with this index, counted from 1, is marked as silent. -/
def Silent (peers : List Peer) (pid : ℕ) : Prop := ∃ p, peers[pid - 1]? = some p ∧ p.active = false

/-- The cells of silent peers read as 0. -/
def StaleZero (s : Fabric × Mesh) : Prop :=
  ∀ v, Live s.1 v → (s.1.cells v).peerId ≠ 0 → Silent s.2.peers (s.1.cells v).peerId →
    (s.1.cells v).state = 0

/-- Only phantoms have peers, and one that is not 0 has a peer that is heard and a name. -/
structure Settled (F : Fabric) (peers : List Peer) : Prop where
  tabled : Tabled F
  ghosts : ∀ v < F.cellCount, (F.cells v).peerId = 0 ∨ (F.cells v).coord 8 = -1
  heard : ∀ v, Live F v → (F.cells v).peerId ≠ 0 → (F.cells v).state ≠ 0 →
    ¬ Silent peers (F.cells v).peerId ∧
      ∃ name, nsPeer.isPrefixOf name ∧ Registered F.registry name (F.cells v).coord

/-- A boot finds no state in a cell of a peer. -/
def BootQuiet (s : Fabric × Mesh) : PhantomOp → Prop
  | .warmBoot _ _ => ∀ v, Live (fabricReset false s.1) v → (s.1.cells v).peerId ≠ 0 →
      (s.1.cells v).state = 0
  | _ => True

section Peers
variable {peers : List Peer} {pid : ℕ}

theorem Silent.of_modify {i : ℕ} {f : Peer → Peer} (hf : ∀ p, (f p).active = true)
    (h : Silent (peers.modify i f) pid) : Silent peers pid ∧ pid - 1 ≠ i := by
  obtain ⟨p, hp, hactive⟩ := h
  rw [List.getElem?_modify] at hp
  by_cases hi : i = pid - 1
  · subst hi
    cases hget : peers[pid - 1]? with
    | none => simp [hget] at hp
    | some q =>
      have hq : f q = p := by simpa [hget] using hp
      rw [← hq, hf] at hactive
      cases hactive
  · refine ⟨⟨p, ?_, hactive⟩, Ne.symm hi⟩
    simpa [hi] using hp

theorem Silent.of_addPeer {now : ℕ} {name : CName} {mac : Mac}
    (h : Silent (addPeer now peers name mac).2 pid) : Silent peers pid := by
  unfold addPeer at h
  split at h
  · exact h
  split at h
  · exact h
  split at h
  next i _ => exact (Silent.of_modify (fun _ => rfl) h).1
  next =>
    split at h
    · exact h
    · obtain ⟨p, hp, hactive⟩ := h
      rw [List.getElem?_append] at hp
      split at hp
      · exact ⟨p, hp, hactive⟩
      · have hmem := List.mem_of_getElem? hp
        rw [List.mem_singleton.mp hmem] at hactive
        cases hactive

/-- An arc makes nobody silent, and its sender is heard. -/
theorem Silent.of_recv {F : Fabric} {M : Mesh} {now nameHash : ℕ} {mac : Mac} {state : ℤ}
    (h : Silent (mmioSyncRecv now F M mac nameHash state).2.peers pid) :
    Silent M.peers pid ∧
      (pid ≠ 0 → pid ≠ findPeerByMac (mmioSyncRecv now F M mac nameHash state).2.peers mac ∨
        (mmioSyncRecv now F M mac nameHash state).1 = F) := by
  unfold mmioSyncRecv at h ⊢
  cases hsender : senderPeer now M.peers mac with
  | none =>
    rw [hsender] at h
    exact ⟨h, fun _ => .inr rfl⟩
  | some sender =>
    obtain ⟨peerIdx, peers'⟩ := sender
    obtain ⟨hidx, hpos⟩ := senderPeer_index hsender
    rw [hsender] at h
    dsimp only at h ⊢
    obtain ⟨hsilent, hne⟩ := h.of_modify fun _ => rfl
    refine ⟨?_, fun hpid => .inl ?_⟩
    · unfold senderPeer at hsender
      split at hsender
      · dsimp only at hsender
        split at hsender
        · cases hsender
          exact hsilent.of_addPeer
        · cases hsender
      · cases hsender
        exact hsilent
    · rw [findPeerByMac_congr (map_modify_of_eq (by simp) peers' (peerIdx - 1)), hidx]
      omega

theorem Silent.of_check {now : ℕ} {F : Fabric} {M : Mesh}
    (h : Silent (stalenessCheck now F M).2.peers pid) :
    Silent M.peers pid ∨ ∃ p, M.peers[pid - 1]? = some p ∧ peerStale now p = true := by
  obtain ⟨p, hp, hactive⟩ := h
  unfold stalenessCheck at hp
  rw [List.getElem?_map] at hp
  obtain ⟨q, hq, rfl⟩ := Option.map_eq_some_iff.mp hp
  by_cases hstale : peerStale now q = true
  · exact .inr ⟨q, hq, hstale⟩
  · rw [if_neg hstale] at hactive
    exact .inl ⟨q, hq, hactive⟩

end Peers

section Check
variable {F F' : Fabric} {v pid : ℕ}

/-- One element that sets a cell to 0 is enough. -/
theorem Hushed.foldl_zero {α : Type*} {f : Fabric → α → Fabric} (hf : ∀ F a, Hushed F (f F a))
    {a : α} {l : List α} (ha : a ∈ l)
    (hzero : ∀ G, Hushed F G → ((f G a).cells v).state = 0) :
    ((l.foldl f F).cells v).state = 0 := by
  induction l generalizing F with
  | nil => cases ha
  | cons b l ih =>
    rw [List.foldl_cons]
    rcases List.mem_cons.mp ha with rfl | ha
    · rcases (Hushed.foldl hf (f F a) l).hushed v with hsame | hset
      · rw [hsame]
        exact hzero F (.refl F)
      · exact hset
    · exact ih ha fun G hG => hzero G ((hf F b).trans hG)

theorem resetPhantoms_zero (h : Tabled F) (hlive : Live F v) (hpid : (F.cells v).peerId = pid)
    {name : CName} (hpeer : nsPeer.isPrefixOf name)
    (hname : Registered F.registry name (F.cells v).coord) :
    ((resetPhantoms F pid).cells v).state = 0 := by
  rw [resetPhantoms_eq]
  have hmem : name ∈ registeredNames F.registry := by
    obtain ⟨i, hi, hentry⟩ := hname
    refine List.mem_map.mpr ⟨i, List.mem_range.mpr hi, ?_⟩
    rw [hentry]
  have hres : gooniesResolve F.registry name = some (F.cells v).coord := by
    obtain ⟨S, hS⟩ := h
    exact (hS.names.resolve_iff _ _).mpr hname
  refine Hushed.foldl_zero (resetPhantom_hushed pid) hmem fun G hG => ?_
  have hget : getCellByCoord G (F.cells v).coord = some v := (hG.same.getCell _).trans hlive
  unfold resetPhantom
  rw [if_pos hpeer, hG.same.registry, hres, Option.bind_some, hget]
  dsimp only
  rw [if_pos ((hG.same.peerId v).trans hpid)]
  unfold Fabric.setState
  dsimp only
  rw [Function.update_self]

theorem Hushed.live (h : Hushed F F') : Live F' v ↔ Live F v := by
  unfold Live
  rw [h.same.getCell, h.same.coord]

theorem stalenessCheck_zero (h : Tabled F) (hlive : Live F v) (hpid : (F.cells v).peerId ≠ 0)
    {name : CName} (hpeer : nsPeer.isPrefixOf name)
    (hname : Registered F.registry name (F.cells v).coord) {M : Mesh} {now : ℕ} {p : Peer}
    (hp : M.peers[(F.cells v).peerId - 1]? = some p) (hstale : peerStale now p = true) :
    ((stalenessCheck now F M).1.cells v).state = 0 := by
  have hmem : (p, (F.cells v).peerId - 1) ∈ M.peers.zipIdx :=
    List.mem_zipIdx_iff_getElem?.mpr hp
  unfold stalenessCheck
  refine Hushed.foldl_zero (fun F p => ?_) hmem fun G hG => ?_
  · split
    · exact resetPhantoms_hushed F _
    · exact .refl F
  · dsimp only
    rw [if_pos hstale, Nat.sub_add_cancel (Nat.one_le_iff_ne_zero.mpr hpid)]
    refine resetPhantoms_zero (hG.same.tabled h) (hG.live.mpr hlive) (hG.same.peerId v) hpeer ?_
    rw [hG.same.registry, hG.same.coord]
    exact hname

end Check

section Steps
variable {atlas : Atlas} {hmac : List UInt8 → List UInt8} {F F' : Fabric} {peers peers' : List Peer}
  {M : Mesh}

theorem Settled.reads_zero (h : Settled F M.peers) : StaleZero (F, M) := by
  intro v hlive hpid hsilent
  by_contra hstate
  exact (h.heard v hlive hpid hstate).1 hsilent

theorem Settled.rewoven {added : Option CName} (h : Settled F peers) (hw : Rewoven added F F')
    (htabled : Tabled F') : Settled F' peers where
  tabled := htabled
  ghosts v hv := by
    rcases hw.slots v hv with hblank | ⟨hv', hsame⟩
    · exact hblank.2
    · rw [hsame]
      exact h.ghosts v hv'
  heard v hlive hpid hstate := by
    rcases hw.live v hlive with hblank | ⟨hlive', hsame, hnames⟩
    · exact absurd hblank.1 hstate
    · rw [hsame] at hpid hstate ⊢
      obtain ⟨hheard, name, hpeer, hname⟩ := h.heard v hlive' hpid hstate
      exact ⟨hheard, name, hpeer, hnames name hpeer hname⟩

/-- The names and coordinates stay, and so do the states of all cells but one that is heard. -/
theorem Settled.recv (h : Settled F M.peers) (now : ℕ) (mac : Mac) (nameHash : ℕ) (state : ℤ) :
    Settled (mmioSyncRecv now F M mac nameHash state).1
      (mmioSyncRecv now F M mac nameHash state).2.peers := by
  have hsilent := fun pid => @Silent.of_recv pid F M now nameHash mac state
  obtain hsame | ⟨v, -, hset, p, suffix, -, -, hpeerId, hpos, hname, -, -⟩ :=
    mmioSyncRecv_cases h.tabled now M mac nameHash state
  · rw [hsame]
    refine ⟨h.tabled, h.ghosts, fun w hlive hpid hstate => ?_⟩
    obtain ⟨hheard, hname⟩ := h.heard w hlive hpid hstate
    exact ⟨fun hs => hheard (hsilent _ hs).1, hname⟩
  · have hstates : SameButStates F (F.setState v state) := .setState F v state
    have hcell : ∀ w, w ≠ v → (F.setState v state).cells w = F.cells w := fun w hw =>
      Function.update_of_ne hw _ _
    rw [hset]
    refine ⟨h.tabled.write rfl, fun w hw => ?_, fun w hlive hpid hstate => ?_⟩
    · rw [hstates.peerId, hstates.coord]
      exact h.ghosts w hw
    · rw [Live, hstates.getCell, hstates.coord] at hlive
      rw [hstates.peerId] at hpid ⊢
      rw [hstates.coord, hstates.registry]
      by_cases hw : w = v
      · subst hw
        refine ⟨fun hs => ?_, peerPrefix p.name ++ suffix, ?_, hname⟩
        · rcases (hsilent _ hs).2 hpid with hne | hsame
          · exact hne hpeerId
          · -- An arc that changes nothing leaves the cell as it was heard before.
            rw [hset] at hsame
            rw [hsame] at hstate
            exact (h.heard w hlive hpid hstate).1 (hsilent _ hs).1
        · rw [peerPrefix, List.append_assoc, List.append_assoc]
          exact List.isPrefixOf_iff_prefix.mpr (List.prefix_append _ _)
      · rw [hcell w hw] at hstate
        obtain ⟨hheard, hname⟩ := h.heard w hlive hpid hstate
        exact ⟨fun hs => hheard (hsilent _ hs).1, hname⟩

theorem Settled.check (h : Settled F M.peers) (now : ℕ) :
    Settled (stalenessCheck now F M).1 (stalenessCheck now F M).2.peers := by
  have hhushed := stalenessCheck_hushed now F M
  refine ⟨hhushed.same.tabled h.tabled, fun v hv => ?_, fun v hlive hpid hstate => ?_⟩
  · rw [hhushed.same.count] at hv
    rw [hhushed.same.peerId, hhushed.same.coord]
    exact h.ghosts v hv
  · rw [hhushed.live] at hlive
    have hstate' : (F.cells v).state ≠ 0 := by
      rcases hhushed.hushed v with hsame | hset
      · rwa [hsame] at hstate
      · exact absurd hset hstate
    rw [hhushed.same.peerId] at hpid ⊢
    rw [hhushed.same.coord, hhushed.same.registry]
    obtain ⟨hheard, name, hpeer, hname⟩ := h.heard v hlive hpid hstate'
    refine ⟨fun hs => ?_, name, hpeer, hname⟩
    rcases hs.of_check with hs | ⟨p, hp, hstale⟩
    · exact hheard hs
    · exact hstate (stalenessCheck_zero h.tabled hlive hpid hpeer hname hp hstale)

theorem Settled.addPeer (h : Settled F peers) (now : ℕ) (name : CName) (mac : Mac) :
    Settled F (Goose.addPeer now peers name mac).2 :=
  ⟨h.tabled, h.ghosts, fun v hlive hpid hstate =>
    (h.heard v hlive hpid hstate).imp_left fun hheard hs => hheard hs.of_addPeer⟩

/-- Whatever is written into a cell that has no peer. -/
theorem Settled.mark (h : Settled F peers) {idx : ℕ} {cell : Cell}
    (hcoord : cell.coord = (F.cells idx).coord) (hnone : cell.peerId = 0) :
    Settled { F with cells := Function.update F.cells idx cell } peers := by
  refine ⟨h.tabled.write hcoord, fun v hv => ?_, fun v hlive hpid hstate => ?_⟩
  · dsimp only
    by_cases hv' : v = idx
    · rw [hv', Function.update_self]
      exact .inl hnone
    · rw [Function.update_of_ne hv']
      exact h.ghosts v hv
  · rw [live_recoat (update_coord hcoord)] at hlive
    dsimp only at hpid hstate ⊢
    by_cases hv' : v = idx
    · rw [hv', Function.update_self] at hpid
      exact absurd hnone hpid
    · rw [Function.update_of_ne hv'] at hpid hstate ⊢
      exact h.heard v hlive hpid hstate

/-- A boot that finds no state in a cell of a peer makes none. -/
theorem settled_boot {cold : Bool} (purpose : Bool) (h : cold = true ∨ Tabled F)
    (hghosts : ∀ v < (fabricReset cold F).cellCount,
      (F.cells v).peerId = 0 ∨ (F.cells v).coord 8 = -1)
    (hquiet : ∀ v, Live (fabricReset cold F) v → (F.cells v).peerId ≠ 0 → (F.cells v).state = 0) :
    Settled (fabricInit atlas cold purpose F) peers := by
  have hreset : Settled (fabricReset cold F) peers :=
    ⟨fabricReset_tabled cold h, hghosts, fun v hlive hpid hstate =>
      absurd (hquiet v hlive hpid) hstate⟩
  obtain ⟨F', hF', hwoven, hinit | ⟨idx, hidx, hcoord, hinit⟩⟩ := fabricInit_rewoven atlas purpose h
  · rw [hinit]
    exact hreset.rewoven hwoven hF'
  · rw [hinit]
    have hsettled := hreset.rewoven hwoven hF'
    refine hsettled.mark rfl ?_
    rcases hsettled.ghosts idx hidx with hzero | hghost
    · exact hzero
    · rw [hcoord] at hghost
      exact absurd hghost (by decide)

theorem PhantomStep.settled {s s' : Fabric × Mesh} {op : PhantomOp}
    (h : Settled s.1 s.2.peers) (hs : Guarded BootQuiet (PhantomStep atlas hmac) s op s') :
    Settled s'.1 s'.2.peers := by
  obtain ⟨hquiet, hs⟩ := hs
  have htabled := hs.tabled h.tabled
  cases hs with
  | arc F M now mac nameHash state => exact h.recv now mac nameHash state
  | addPeer F M now name mac => exact h.addPeer now name mac
  | resolve F M lock now name =>
    rw [gooniesResolveCell_peers]
    exact h.rewoven (h.tabled.rewoven_lookup atlas hmac lock now M name) htabled
  | alloc F M lock name coord sys ret hname =>
    exact h.rewoven (h.tabled.rewoven_unnamed atlas lock hname coord sys ret) htabled
  | staleness F M now => exact h.check now
  | warmBoot F M purpose store => exact settled_boot purpose (.inr h.tabled) h.ghosts hquiet

theorem coldBoard_settled (atlas : Atlas) (purpose : Bool) (F₀ : Fabric) (store : Store) :
    Settled (coldBoard atlas purpose F₀ store).1 (coldBoard atlas purpose F₀ store).2.peers := by
  refine settled_boot purpose (.inl rfl) (fun v hv => absurd hv (Nat.not_lt_zero v)) ?_
  intro v hlive
  obtain ⟨S, hS⟩ := @fabricReset_tabled F₀ true (.inl rfl)
  exact absurd (hS.live v (hS.live_iff.mp hlive)) (Nat.not_lt_zero v)

/-- Behind a check silent peers read as 0, in a run whose boots find no state in their cells. -/
theorem stale_zero (atlas : Atlas) (hmac : List UInt8 → List UInt8) (purpose : Bool) (F₀ : Fabric)
    (store : Store) (ops : List PhantomOp) (s : Fabric × Mesh)
    (hrun : Run (Guarded BootQuiet (PhantomStep atlas hmac)) (coldBoard atlas purpose F₀ store)
      ops s) (now : ℕ) : StaleZero (stalenessCheck now s.1 s.2) := by
  have hsettled : Settled s.1 s.2.peers := by
    apply hrun.invariant fun s => Settled s.1 s.2.peers
    · exact fun _ _ _ h hs => PhantomStep.settled h hs
    · exact coldBoard_settled atlas purpose F₀ store
  exact (hsettled.check now).reads_zero

end Steps

section Restart

def nullMac : Mac := fun _ => 0

def heardMesh : Mesh := { noPeers with peers := (addPeer 0 [] (ascii "0") nullMac).2 }

/-- A board with one peer, whose arc has set its phantom. -/
def heardBoard : Fabric × Mesh :=
  let found := gooniesResolveCell emptyAtlas (fun _ => []) true 0 coldFabric heardMesh
    (ascii "peer.0.led")
  mmioSyncRecv 0 found.2.1 found.2.2 nullMac (gooseNameHash (ascii "led")) 1

def heardOps : List PhantomOp :=
  [.addPeer 0 (ascii "0") nullMac, .resolve true 0 (ascii "peer.0.led"),
    .arc 0 nullMac (gooseNameHash (ascii "led")) 1]

theorem heardBoard_run : Run (Guarded BootQuiet (PhantomStep emptyAtlas fun _ => []))
    (coldBoard emptyAtlas false blankFabric freshStore) heardOps heardBoard := by
  rw [coldBoard_fresh]
  refine .cons ⟨trivial, .addPeer _ _ _ _ _⟩ (.cons ⟨trivial, .resolve _ _ _ _ _⟩ ?_)
  exact .single ⟨trivial, .arc _ _ _ _ _ _⟩

/-- The phantom is 1, and 0 behind a check that finds its peer stale. -/
theorem stale_zero_heard : (heardBoard.1.cells 2).state = 1 ∧
    Silent (stalenessCheck 5000000 heardBoard.1 heardBoard.2).2.peers 1 ∧
    StaleZero (stalenessCheck 5000000 heardBoard.1 heardBoard.2) := by
  refine ⟨by decide +kernel, ⟨⟨ascii "0", nullMac, 0, false⟩, by decide +kernel, rfl⟩, ?_⟩
  exact stale_zero emptyAtlas (fun _ => []) false blankFabric freshStore heardOps heardBoard
    heardBoard_run 5000000

theorem loadedPeers_inactive {n : ℕ} {bytes : List UInt8} {p : Peer}
    (hp : p ∈ loadedPeers n bytes) : p.active = false := by
  induction n generalizing bytes with
  | zero => cases hp
  | succ n ih =>
    rcases List.mem_cons.mp hp with rfl | hp
    · rfl
    · exact ih hp

theorem peersLoad_inactive {S : Store} {p : Peer} (hp : p ∈ peersLoad S) : p.active = false := by
  unfold peersLoad at hp
  split at hp
  · cases hp
  split at hp
  · cases hp
  split at hp
  · cases hp
  dsimp only at hp
  split at hp
  · cases hp
  · exact loadedPeers_inactive hp

/-- The peer of the board comes back from the store it was added to. -/
theorem heardMesh_restored : ∃ P p, Run (Guarded SaveRoom PeerStep) (mmioSyncInit freshStore)
    (numberedCalls 1) P ∧ P.peers = heardMesh.peers ∧ peersLoad P.store = [p] ∧
      p.active = false := by
  obtain ⟨P, hrun, hpeers⟩ := freshStore_run (by decide) (by decide : AllAdded [] (numberedCalls 1))
  have hone : addAll [] (numberedCalls 1) = heardMesh.peers := by decide +kernel
  rw [hone] at hpeers
  have hkept := hrun.invariant PeersKept (fun _ _ _ h hs => h.step hs)
    (peersKept_init blankFlash_holds.carries blankFlash_holds.initialized freshStore_empty)
  have hrestores : (peersLoad P.store).map Peer.identity = P.peers.map Peer.identity :=
    hkept.restores (by rw [hpeers]; decide)
  have hlength : (peersLoad P.store).length = 1 := by
    rw [← List.length_map Peer.identity, hrestores, hpeers]
    rfl
  obtain ⟨p, hp⟩ := List.length_eq_one_iff.mp hlength
  exact ⟨P, p, hrun, hpeers, hp, peersLoad_inactive (hp ▸ List.mem_singleton_self p)⟩

theorem stalenessCheck_silent {p : Peer} (hp : p.active = false) (now : ℕ) (F : Fabric) {M : Mesh}
    (hM : M.peers = [p]) : (stalenessCheck now F M).1 = F ∧
      (stalenessCheck now F M).2.peers = [p] := by
  have hstale : peerStale now p = false := by rw [peerStale, hp, Bool.false_and]
  unfold stalenessCheck
  rw [hM]
  simp [hstale]

/-- Behind a warm boot the phantom of the silent peer is still 1. -/
theorem phantom_outlives_boot : ¬ ∀ (atlas : Atlas) (hmac : List UInt8 → List UInt8)
    (purpose : Bool) (F₀ : Fabric) (store : Store) (ops : List PhantomOp) (s : Fabric × Mesh),
    Run (PhantomStep atlas hmac) (coldBoard atlas purpose F₀ store) ops s →
      ∀ now, StaleZero (stalenessCheck now s.1 s.2) := by
  intro hall
  obtain ⟨P, p, -, -, hload, hactive⟩ := heardMesh_restored
  have hrun : Run (PhantomStep emptyAtlas fun _ => [])
      (coldBoard emptyAtlas false blankFabric freshStore) heardOps heardBoard :=
    heardBoard_run.mono (fun _ => True) (fun _ _ _ _ _ => trivial) (fun _ _ _ _ hs => hs.2) trivial
  have hboot : PhantomStep emptyAtlas (fun _ => []) heardBoard (.warmBoot false P.store)
      (fabricInit emptyAtlas false false heardBoard.1, bootMesh P.store heardBoard.2.sent) :=
    .warmBoot _ _ _ _
  have hzero := hall _ _ _ _ _ _ _ (hrun.append (.single hboot)) 0
  obtain ⟨hfabric, hpeers⟩ := @stalenessCheck_silent p hactive 0
    (fabricInit emptyAtlas false false heardBoard.1) (bootMesh P.store heardBoard.2.sent) hload
  unfold StaleZero at hzero
  dsimp only at hzero
  rw [hfabric, hpeers] at hzero
  have hlive : Live (fabricInit emptyAtlas false false heardBoard.1) 2 := by
    unfold Live
    decide +kernel
  have hpid : ((fabricInit emptyAtlas false false heardBoard.1).cells 2).peerId = 1 := by
    decide +kernel
  have hstate : ((fabricInit emptyAtlas false false heardBoard.1).cells 2).state = 1 := by
    decide +kernel
  have hsilent : Silent [p] 1 := ⟨p, rfl, hactive⟩
  have hreads := hzero 2 hlive
  rw [hpid, hstate] at hreads
  exact absurd (hreads Nat.one_ne_zero hsilent) (by decide)

end Restart

end ReflexOS.Goose
