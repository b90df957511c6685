import ReflexOS.GooseLoom
import ReflexOS.GooseMirror

set_option autoImplicit false

/-!
# When a phantom is bound to its peer

A phantom takes its peer from the table as it is woven, and keeps it.
-/
namespace ReflexOS.Goose
open VmTernary

/-- The name of a cell on a peer. -/
def remoteName (peerName suffix : CName) : CName := peerPrefix peerName ++ suffix

section Orders
variable (atlas : Atlas) (hmac : List UInt8 → List UInt8) (lock : Bool) (now later : ℕ) (F : Fabric)
  (M : Mesh) (peerName suffix : CName) (mac : Mac)

def peersAdded : List Peer := (addPeer later M.peers peerName mac).2

def resolveThenAdd : Option ℕ × Fabric × Mesh :=
  let got := gooniesResolveCell atlas hmac lock now F M (remoteName peerName suffix)
  (got.1, got.2.1, { got.2.2 with peers := (addPeer later got.2.2.peers peerName mac).2 })

def addThenResolve : Option ℕ × Fabric × Mesh :=
  gooniesResolveCell atlas hmac lock now F { M with peers := peersAdded later M peerName mac }
    (remoteName peerName suffix)

end Orders

structure SyncArc where
  now : ℕ
  nameHash : ℕ
  state : ℤ

/-- Arcs of one sender, one after another. -/
def arcsFrom (mac : Mac) (s : Fabric × Mesh) (arcs : List SyncArc) : Fabric × Mesh :=
  arcs.foldl (fun s a => mmioSyncRecv a.now s.1 s.2 mac a.nameHash a.state) s

/-- The state of a resolved cell behind the arcs. -/
def stateAfter (mac : Mac) (got : Option ℕ × Fabric × Mesh) (arcs : List SyncArc) : Option ℤ :=
  got.1.map fun v => ((arcsFrom mac got.2 arcs).1.cells v).state

/-- The cell an arc is for, whoever the cell stands for. -/
def arcTarget (F : Fabric) (peerName : CName) (nameHash : ℕ) : Option ℕ :=
  ((registeredNames F.registry).find? (namesRemote peerName nameHash)).bind fun name =>
    if nsSys.isPrefixOf (remoteSuffix peerName name) then none
    else (gooniesResolve F.registry name).bind (getCellByCoord F)

def bindPhantom (F : Fabric) (v : ℕ) : Option ℕ → Fabric
  | none => F
  | some peer => { F with cells := Function.update F.cells v { F.cells v with peerId := peer } }

section Target
variable {F : Fabric} {peerIdx nameHash v : ℕ} {peerName : CName} {state : ℤ}

theorem mirrorState_eq : mirrorState F peerIdx peerName nameHash state =
    match arcTarget F peerName nameHash with
    | none => F
    | some v => if (F.cells v).peerId = peerIdx then F.setState v state else F := by
  unfold mirrorState arcTarget
  cases (registeredNames F.registry).find? (namesRemote peerName nameHash) with
  | none => rfl
  | some name =>
    rw [Option.bind_some]
    dsimp only
    cases hsys : nsSys.isPrefixOf (remoteSuffix peerName name) with
    | true =>
      rw [if_pos rfl]
      cases (gooniesResolve F.registry name).bind (getCellByCoord F) with
      | none => rfl
      | some v => simp only [Bool.not_true, Bool.and_false, Bool.false_eq_true, if_false]
    | false =>
      rw [if_neg Bool.false_ne_true]
      cases (gooniesResolve F.registry name).bind (getCellByCoord F) with
      | none => rfl
      | some v => simp only [Bool.not_false, Bool.and_true, decide_eq_true_eq]

theorem arcTarget_recoat {cells : ℕ → Cell} (hc : ∀ v, (cells v).coord = (F.cells v).coord)
    (peerName : CName) (nameHash : ℕ) :
    arcTarget { F with cells := cells } peerName nameHash = arcTarget F peerName nameHash := by
  have hget : getCellByCoord { F with cells := cells } = getCellByCoord F :=
    funext fun coord => getCellByCoord_recoat hc coord
  unfold arcTarget
  rw [hget]

theorem bindPhantom_target (F : Fabric) (v : ℕ) (peer : Option ℕ) (peerName : CName) (nameHash : ℕ) :
    arcTarget (bindPhantom F v peer) peerName nameHash = arcTarget F peerName nameHash := by
  cases peer with
  | none => rfl
  | some peer =>
    apply arcTarget_recoat
    intro w
    apply update_coord
    rfl

theorem arcTarget_setState (F : Fabric) (v : ℕ) (state : ℤ) (peerName : CName) (nameHash : ℕ) :
    arcTarget (F.setState v state) peerName nameHash = arcTarget F peerName nameHash := by
  unfold Fabric.setState
  apply arcTarget_recoat
  intro w
  apply update_coord
  rfl

theorem setState_peerId (F : Fabric) (v w : ℕ) (state : ℤ) :
    ((F.setState v state).cells w).peerId = (F.cells w).peerId := by
  unfold Fabric.setState
  dsimp only
  by_cases hw : w = v
  · rw [hw, Function.update_self]
  · rw [Function.update_of_ne hw]

/-- An arc leaves the cells' peers and the cells other arcs are for alone. -/
theorem mirrorState_keeps : (∀ w, ((mirrorState F peerIdx peerName nameHash state).cells w).peerId =
      (F.cells w).peerId) ∧
    ∀ peerName' nameHash', arcTarget (mirrorState F peerIdx peerName nameHash state) peerName' nameHash' =
      arcTarget F peerName' nameHash' := by
  rw [mirrorState_eq]
  cases arcTarget F peerName nameHash with
  | none => exact ⟨fun _ => rfl, fun _ _ => rfl⟩
  | some v =>
    dsimp only
    split
    · exact ⟨fun w => setState_peerId F v w state, arcTarget_setState F v state⟩
    · exact ⟨fun _ => rfl, fun _ _ => rfl⟩

theorem mirrorState_other (h : arcTarget F peerName nameHash ≠ some v ∨ (F.cells v).peerId ≠ peerIdx) :
    ((mirrorState F peerIdx peerName nameHash state).cells v).state = (F.cells v).state := by
  rw [mirrorState_eq]
  cases htarget : arcTarget F peerName nameHash with
  | none => rfl
  | some w =>
    dsimp only
    split
    next hpeer =>
      have hne : v ≠ w := by
        rintro rfl
        exact h.elim (fun hno => hno htarget) fun hno => hno hpeer
      unfold Fabric.setState
      dsimp only
      rw [Function.update_of_ne hne]
    next => rfl

def mirrorAll (peerIdx : ℕ) (peerName : CName) (F : Fabric) (arcs : List SyncArc) : Fabric :=
  arcs.foldl (fun F a => mirrorState F peerIdx peerName a.nameHash a.state) F

theorem mirrorAll_other (arcs : List SyncArc)
    (h : (∀ nameHash, arcTarget F peerName nameHash ≠ some v) ∨ (F.cells v).peerId ≠ peerIdx) :
    ((mirrorAll peerIdx peerName F arcs).cells v).state = (F.cells v).state := by
  induction arcs generalizing F with
  | nil => rfl
  | cons a arcs ih =>
    obtain ⟨hpeers, htargets⟩ := @mirrorState_keeps F peerIdx a.nameHash peerName a.state
    refine (ih ?_).trans (mirrorState_other (h.imp_left fun hno => hno a.nameHash))
    exact h.imp (fun hno nameHash => by rw [htargets]; exact hno nameHash)
      fun hno => by rw [hpeers]; exact hno

end Target

/-- The peer at the address has this index and this name. -/
def SenderIs (M : Mesh) (mac : Mac) (peerIdx : ℕ) (peerName : CName) : Prop :=
  findPeerByMac M.peers mac = peerIdx ∧ peerIdx ≠ 0 ∧
    (M.peers[peerIdx - 1]?).map Peer.name = some peerName

section Sender
variable {F : Fabric} {M : Mesh} {mac : Mac} {peerIdx : ℕ} {peerName : CName}

theorem SenderIs.recv (h : SenderIs M mac peerIdx peerName) (now nameHash : ℕ) (state : ℤ) :
    (mmioSyncRecv now F M mac nameHash state).1 = mirrorState F peerIdx peerName nameHash state ∧
      SenderIs (mmioSyncRecv now F M mac nameHash state).2 mac peerIdx peerName := by
  obtain ⟨hidx, hpos, hname⟩ := h
  have hsender : senderPeer now M.peers mac = some (peerIdx, M.peers) := by
    rw [senderPeer, hidx, if_neg hpos]
  unfold mmioSyncRecv
  rw [hsender]
  dsimp only
  generalize hseen : (M.peers.modify (peerIdx - 1) fun p =>
    { p with lastSeenUs := now, active := true }) = seen
  have hnames : (seen[peerIdx - 1]?).map Peer.name = some peerName := by
    rw [← List.getElem?_map, ← hseen, map_modify_of_eq (by simp), List.getElem?_map, hname]
  rw [hnames]
  refine ⟨rfl, ?_, hpos, hnames⟩
  rw [← hidx, ← hseen]
  exact findPeerByMac_congr (map_modify_of_eq (by simp) _ _) mac

theorem SenderIs.arcsFrom (h : SenderIs M mac peerIdx peerName) (arcs : List SyncArc) :
    (arcsFrom mac (F, M) arcs).1 = mirrorAll peerIdx peerName F arcs := by
  induction arcs generalizing F M with
  | nil => rfl
  | cons a arcs ih =>
    obtain ⟨hfabric, hsender⟩ := h.recv (F := F) a.now a.nameHash a.state
    have hrest := ih hsender (F := (mmioSyncRecv a.now F M mac a.nameHash a.state).1)
    rw [mirrorAll, List.foldl_cons, ← hfabric]
    exact hrest

end Sender

section Peers
variable {peers peers' : List Peer} {now : ℕ} {name peerName suffix : CName} {mac : Mac}

theorem addPeer_sender (h : addPeer now peers peerName mac = (Err.ok, peers')) {M : Mesh}
    (hM : M.peers = peers') : SenderIs M mac (findPeerByMac peers' mac) peerName := by
  have hpos := findPeerByMac_added h
  refine ⟨by rw [hM], hpos, ?_⟩
  rw [hM]
  rcases addPeer_added h with ⟨hpeers, hidx⟩ | ⟨i, hlt, hpeers, hidx⟩
  · rw [hidx, hpeers, Nat.add_sub_cancel, List.getElem?_concat_length]
    rfl
  · rw [hidx, hpeers, Nat.add_sub_cancel, List.getElem?_modify, List.getElem?_eq_getElem hlt]
    simp only [if_true, Option.map_eq_map, Option.map_some]

/-- A list that changes in one place: a search changes only by finding that place. -/
theorem findIdx?_modify_cases {α : Type*} (p : α → Bool) (f : α → α) (L : List α) (i : ℕ) :
    (L.modify i f).findIdx? p = L.findIdx? p ∨
      ((L.modify i f).findIdx? p = some i ↔ ¬ L.findIdx? p = some i) := by
  induction L generalizing i with
  | nil => exact .inl (by rw [List.modify_nil])
  | cons a L ih =>
    cases i with
    | zero =>
      rw [List.modify_zero_cons, List.findIdx?_cons, List.findIdx?_cons]
      cases p a <;> cases p (f a) <;> cases L.findIdx? p <;> simp
    | succ i =>
      rw [List.modify_succ_cons, List.findIdx?_cons, List.findIdx?_cons]
      cases p a with
      | true => exact .inl rfl
      | false =>
        have hsome : ∀ o : Option ℕ, o.map (· + 1) = some (i + 1) ↔ o = some i := by
          intro o
          cases o <;> simp
        simp only [Bool.false_eq_true, if_false, hsome]
        exact (ih i).imp_left fun h => congrArg (Option.map (· + 1)) h

/-- The name under which the peer of a remote name is looked for. -/
def boundName (peerName suffix : CName) : CName :=
  ((peerName ++ 46 :: suffix).takeWhile fun c => decide (c ≠ 46)).take (peerNameMax - 1)

theorem phantomPeer_remote (peers : List Peer) (peerName suffix : CName) :
    phantomPeer peers (remoteName peerName suffix) =
      (peers.findIdx? fun p => decide (p.name = boundName peerName suffix)).map (· + 1) := by
  have hdrop : (remoteName peerName suffix).drop nsPeer.length = peerName ++ 46 :: suffix := by
    rw [remoteName, peerPrefix, List.append_assoc, List.append_assoc, List.drop_left,
      List.singleton_append]
  unfold phantomPeer
  rw [hdrop]
  exact if_pos (by simp)

/-- An addition changes which peer a name stands for only from or to the one that is added. -/
theorem phantomPeer_added (h : addPeer now peers peerName mac = (Err.ok, peers')) (suffix : CName) :
    phantomPeer peers' (remoteName peerName suffix) = phantomPeer peers (remoteName peerName suffix) ∨
      (phantomPeer peers' (remoteName peerName suffix) = some (findPeerByMac peers' mac) ↔
        ¬ phantomPeer peers (remoteName peerName suffix) = some (findPeerByMac peers' mac)) := by
  rw [phantomPeer_remote, phantomPeer_remote]
  have hsome : ∀ (o : Option ℕ) (i : ℕ), o.map (· + 1) = some (i + 1) ↔ o = some i := by
    intro o i
    cases o <;> simp
  rcases addPeer_added h with ⟨hpeers, hidx⟩ | ⟨i, -, hpeers, hidx⟩
  · rw [hidx, hpeers, hsome, hsome, List.findIdx?_append]
    cases hf : peers.findIdx? fun p => decide (p.name = boundName peerName suffix) with
    | some i => exact .inl rfl
    | none =>
      rw [Option.none_or, List.findIdx?_singleton]
      split
      · exact .inr (iff_of_true (by simp) (by simp))
      · exact .inl rfl
  · rw [hidx, hpeers, hsome, hsome]
    exact (findIdx?_modify_cases _ _ peers i).imp_left fun heq => congrArg _ heq

theorem addPeer_failed (h : (addPeer now peers peerName mac).1 ≠ Err.ok) :
    (addPeer now peers peerName mac).2 = peers := by
  unfold addPeer at h ⊢
  split
  · rfl
  next hne =>
  rw [if_neg hne] at h
  split
  · rfl
  next hlen =>
  rw [if_neg hlen] at h
  split at h
  · exact absurd rfl h
  next hi =>
  split
  · rfl
  next hroom =>
  rw [if_neg hroom] at h
  exact absurd rfl h

end Peers

section Weave
variable {atlas : Atlas} {hmac : List UInt8 → List UInt8} {lock : Bool} {now : ℕ} {F : Fabric}
  {M : Mesh} {name : CName}

theorem allocLocked_fresh {name : Option CName} {coord : Tryte9} {sys : Bool} {v : ℕ}
    (h : (allocLocked atlas lock F name coord sys false).1 = some v) :
    (allocLocked atlas lock F name coord sys false).2.cells v = freshCell coord sys := by
  unfold allocLocked at h ⊢
  split at h
  · cases h
  rw [if_neg ‹_›]
  cases hget : getCellByCoord F coord with
  | some existing =>
    rw [hget] at h
    cases h
  | none =>
    rw [hget] at h
    cases hclaim : claimSlot F with
    | none =>
      rw [hclaim] at h
      cases h
    | some claimed =>
      rw [hclaim] at h
      dsimp only at h ⊢
      cases name with
      | none =>
        cases h
        exact Function.update_self _ _ _
      | some s =>
        dsimp only at h ⊢
        split at h
        · cases h
        next hok =>
          rw [if_neg hok]
          cases h
          exact Function.update_self _ _ _

theorem fabricAllocCell_fresh {coord : Tryte9} {sys : Bool} {v : ℕ}
    (h : (fabricAllocCell atlas lock F (some name) coord sys).1 = some v) :
    (fabricAllocCell atlas lock F (some name) coord sys).2.cells v = freshCell coord sys := by
  unfold fabricAllocCell fabricAllocInternal at h ⊢
  cases sys with
  | true =>
    rw [if_pos rfl] at h ⊢
    exact allocLocked_fresh h
  | false =>
    simp only [Bool.false_eq_true, if_false] at h ⊢
    split at h
    · cases h
    next hpress =>
      rw [if_neg hpress]
      exact allocLocked_fresh h

section Told
variable {W : Fabric} {v idx : ℕ} {peerName : CName} {coord : Tryte9} {before after : Option ℕ}

theorem bindPhantom_cell (W : Fabric) (v : ℕ) (peer : Option ℕ) :
    (bindPhantom W v peer).cells v = { W.cells v with peerId := peer.getD (W.cells v).peerId } := by
  cases peer with
  | none => rfl
  | some peer => exact Function.update_self _ _ _

/-- One arc of state 1 tells a phantom that is bound from one that is not. -/
theorem mirrorAll_one (hfresh : W.cells v = freshCell coord false) (hpos : idx ≠ 0) {nameHash : ℕ}
    (htarget : arcTarget W peerName nameHash = some v) (peer : Option ℕ) :
    ((mirrorAll idx peerName (bindPhantom W v peer) [⟨0, nameHash, 1⟩]).cells v).state =
      if peer = some idx then 1 else 0 := by
  have hpeerId : ((bindPhantom W v peer).cells v).peerId = idx ↔ peer = some idx := by
    rw [bindPhantom_cell, hfresh]
    cases peer with
    | none => exact iff_of_false (Ne.symm hpos) (by simp)
    | some peer => exact (Option.some.injEq _ _).symm.to_iff
  change ((mirrorState (bindPhantom W v peer) idx peerName nameHash 1).cells v).state = _
  by_cases hpeer : peer = some idx
  · rw [if_pos hpeer, mirrorState_eq, bindPhantom_target, htarget]
    dsimp only
    rw [if_pos (hpeerId.mpr hpeer)]
    unfold Fabric.setState
    dsimp only
    rw [Function.update_self]
  · rw [if_neg hpeer, mirrorState_other (.inr fun h => hpeer (hpeerId.mp h)), bindPhantom_cell, hfresh]
    rfl

/-- Of two bindings of which one is the sender's, no arc tells which, exactly if none is for the
phantom. -/
theorem phantom_told_iff (hfresh : W.cells v = freshCell coord false) (hpos : idx ≠ 0)
    (hone : after = some idx ↔ ¬ before = some idx) :
    (∀ arcs, ((mirrorAll idx peerName (bindPhantom W v before) arcs).cells v).state =
      ((mirrorAll idx peerName (bindPhantom W v after) arcs).cells v).state) ↔
    ∀ nameHash, arcTarget W peerName nameHash ≠ some v := by
  constructor
  · intro halike nameHash htarget
    have hequal := halike [⟨0, nameHash, 1⟩]
    rw [mirrorAll_one hfresh hpos htarget, mirrorAll_one hfresh hpos htarget] at hequal
    by_cases hbefore : before = some idx
    · rw [if_pos hbefore, if_neg fun h => hone.mp h hbefore] at hequal
      exact absurd hequal (by decide)
    · rw [if_neg hbefore, if_pos (hone.mpr hbefore)] at hequal
      exact absurd hequal (by decide)
  · intro hfar arcs
    have hstart : ∀ peer, ((mirrorAll idx peerName (bindPhantom W v peer) arcs).cells v).state = 0 := by
      intro peer
      rw [mirrorAll_other arcs (.inl fun nameHash => ?_), bindPhantom_cell, hfresh]
      · rfl
      · rw [bindPhantom_target]
        exact hfar nameHash
    rw [hstart, hstart]

end Told

/-- The phantom, bound if there is one. -/
def boundPhantom (woven : Option ℕ × Fabric) (peer : Option ℕ) : Fabric :=
  match woven.1 with
  | none => woven.2
  | some v => bindPhantom woven.2 v peer

theorem resolvePeer_eq : resolvePeer atlas hmac lock now F M name =
    ((fabricAllocCell atlas lock F (some name) (ghostCoord M.ghostCounter) false).1,
      boundPhantom (fabricAllocCell atlas lock F (some name) (ghostCoord M.ghostCounter) false)
        (phantomPeer M.peers name),
      { atmosphereQuery hmac now M name with ghostCounter := M.ghostCounter + 1 }) := by
  unfold resolvePeer
  dsimp only
  rw [atmosphereQuery_ghostCounter, atmosphereQuery_peers]
  generalize fabricAllocCell atlas lock F (some name) (ghostCoord M.ghostCounter) false = woven
  obtain ⟨idx, G⟩ := woven
  cases idx with
  | none => rfl
  | some v => cases phantomPeer M.peers name <;> rfl

theorem atmosphereQuery_setPeers (peers : List Peer) :
    atmosphereQuery hmac now { M with peers := peers } name =
      { atmosphereQuery hmac now M name with peers := peers } := by
  unfold atmosphereQuery queryThrottled
  split <;> rfl

theorem gooniesResolveCell_remote {peerName suffix : CName}
    (hnew : gooniesResolve F.registry (remoteName peerName suffix) = none) :
    gooniesResolveCell atlas hmac lock now F M (remoteName peerName suffix) =
      resolvePeer atlas hmac lock now F M (remoteName peerName suffix) := by
  have hprefix : nsPeer.isPrefixOf (remoteName peerName suffix) = true := by
    rw [List.isPrefixOf_iff_prefix, remoteName, peerPrefix, List.append_assoc, List.append_assoc]
    exact List.prefix_append _ _
  rw [gooniesResolveCell, hnew, hprefix]
  rfl

end Weave

section Binding
variable (atlas : Atlas) (hmac : List UInt8 → List UInt8) (lock : Bool) (now later : ℕ) (F : Fabric)
  (M : Mesh) (peerName suffix : CName) (mac : Mac)

/-- The fabric with the cell woven for the name, whoever the peers are. -/
def wovenPhantom : Option ℕ × Fabric :=
  fabricAllocCell atlas lock F (some (remoteName peerName suffix)) (ghostCoord M.ghostCounter) false

/-- Some arc of the peer is for the phantom. -/
def PhantomReached : Prop :=
  ∃ v nameHash, (wovenPhantom atlas lock F M peerName suffix).1 = some v ∧
    arcTarget (wovenPhantom atlas lock F M peerName suffix).2 peerName nameHash = some v

/-- Both orders weave the same cell, each with the peer of its moment. -/
theorem resolve_orders (hnew : gooniesResolve F.registry (remoteName peerName suffix) = none) :
    ∃ M' : Mesh, M'.peers = peersAdded later M peerName mac ∧
      resolveThenAdd atlas hmac lock now later F M peerName suffix mac =
        ((wovenPhantom atlas lock F M peerName suffix).1,
          boundPhantom (wovenPhantom atlas lock F M peerName suffix)
            (phantomPeer M.peers (remoteName peerName suffix)), M') ∧
      addThenResolve atlas hmac lock now later F M peerName suffix mac =
        ((wovenPhantom atlas lock F M peerName suffix).1,
          boundPhantom (wovenPhantom atlas lock F M peerName suffix)
            (phantomPeer (peersAdded later M peerName mac) (remoteName peerName suffix)), M') := by
  refine ⟨{ atmosphereQuery hmac now M (remoteName peerName suffix) with
    ghostCounter := M.ghostCounter + 1, peers := peersAdded later M peerName mac }, rfl, ?_, ?_⟩
  · unfold resolveThenAdd
    rw [gooniesResolveCell_remote hnew, resolvePeer_eq]
    dsimp only
    rw [atmosphereQuery_peers]
    rfl
  · unfold addThenResolve
    rw [gooniesResolveCell_remote hnew, resolvePeer_eq, atmosphereQuery_setPeers]
    rfl

/-- The two orders differ for some arc exactly if the name is new, the addition changes which peer it
stands for, and some arc of that peer is for the phantom. -/
theorem binding_order_free_iff :
    (∀ arcs, stateAfter mac (resolveThenAdd atlas hmac lock now later F M peerName suffix mac) arcs =
      stateAfter mac (addThenResolve atlas hmac lock now later F M peerName suffix mac) arcs) ↔
    (gooniesResolve F.registry (remoteName peerName suffix)).isSome ∨
      phantomPeer (peersAdded later M peerName mac) (remoteName peerName suffix) =
        phantomPeer M.peers (remoteName peerName suffix) ∨
      ¬ PhantomReached atlas lock F M peerName suffix := by
  cases hres : gooniesResolve F.registry (remoteName peerName suffix) with
  | some coord =>
    refine iff_of_true (fun arcs => ?_) (.inl rfl)
    rw [resolveThenAdd, addThenResolve, gooniesResolveCell_known hres, gooniesResolveCell_known hres]
    rfl
  | none =>
    obtain ⟨M', hpeers, hfirst, hlast⟩ :=
      resolve_orders atlas hmac lock now later F M peerName suffix mac hres
    rw [hfirst, hlast]
    by_cases hsame : phantomPeer (peersAdded later M peerName mac) (remoteName peerName suffix) =
        phantomPeer M.peers (remoteName peerName suffix)
    · rw [hsame]
      exact iff_of_true (fun _ => rfl) (.inr (.inl rfl))
    rw [or_iff_right (by simp), or_iff_right hsame]
    have hadd : addPeer later M.peers peerName mac = (Err.ok, peersAdded later M peerName mac) := by
      by_contra hfail
      have herr : (addPeer later M.peers peerName mac).1 ≠ Err.ok := fun hok =>
        hfail (Prod.ext hok rfl)
      exact hsame (congrArg (phantomPeer · _) (addPeer_failed herr))
    have hone := (phantomPeer_added hadd suffix).resolve_left hsame
    have hsender := addPeer_sender hadd hpeers
    cases hwoven : (wovenPhantom atlas lock F M peerName suffix).1 with
    | none =>
      refine iff_of_true (fun _ => rfl) ?_
      rintro ⟨v, nameHash, hv, -⟩
      rw [hwoven] at hv
      cases hv
    | some v =>
      have hfresh : (wovenPhantom atlas lock F M peerName suffix).2.cells v =
          freshCell (ghostCoord M.ghostCounter) false := fabricAllocCell_fresh hwoven
      have hstate : ∀ peer arcs, stateAfter mac (some v, boundPhantom
          (wovenPhantom atlas lock F M peerName suffix) peer, M') arcs =
            some ((mirrorAll (findPeerByMac (peersAdded later M peerName mac) mac) peerName
              (bindPhantom (wovenPhantom atlas lock F M peerName suffix).2 v peer) arcs).cells v).state := by
        intro peer arcs
        rw [boundPhantom, hwoven, stateAfter, Option.map_some, hsender.arcsFrom]
      simp only [hstate, Option.some.injEq]
      rw [phantom_told_iff hfresh hsender.2.1 hone]
      constructor
      · rintro hfar ⟨v', nameHash, hv', htarget⟩
        obtain rfl : v = v' := Option.some.inj (hwoven.symm.trans hv')
        exact hfar nameHash htarget
      · exact fun hfar nameHash htarget => hfar ⟨v, nameHash, hwoven, htarget⟩

variable {atlas lock F M peerName suffix}

/-- A phantom outside `sys.` is reached where no other name of the peer has the same hash. -/
theorem phantomReached_of_alone (hF : Tabled F) (hheap : atlas heapPressureName = none)
    (hnew : gooniesResolve F.registry (remoteName peerName suffix) = none)
    (hsys : ¬ nsSys.isPrefixOf suffix)
    (halone : ∀ n coord, gooniesResolve F.registry n = some coord →
      namesRemote peerName (gooseNameHash suffix) n = false)
    {v : ℕ} (hwoven : (wovenPhantom atlas lock F M peerName suffix).1 = some v) :
    PhantomReached atlas lock F M peerName suffix := by
  obtain ⟨S, hS⟩ := hF
  refine ⟨v, gooseNameHash suffix, hwoven, ?_⟩
  unfold wovenPhantom fabricAllocCell at hwoven ⊢
  by_cases hr : Refused atlas lock F false
  · rw [fabricAllocInternal_refused hheap hr] at hwoven
    cases hwoven
  rw [fabricAllocInternal_free hheap hr] at hwoven ⊢
  have hbound := hS.allocLocked_boundTo hnew hwoven
  obtain ⟨S', hW⟩ := hS.allocLocked atlas true (some (remoteName peerName suffix))
    (ghostCoord M.ghostCounter) false false
  have hother : ∀ n, n ≠ remoteName peerName suffix → gooniesResolve F.registry n = none →
      gooniesResolve (allocLocked atlas true F (some (remoteName peerName suffix))
        (ghostCoord M.ghostCounter) false false).2.registry n = none := by
    intro n hne hn
    refine hS.allocLocked_keeps (P := fun G => gooniesResolve G.registry n = none) hnew hn (fun _ => hn)
      (fun t _ _ _ => hS.resolve_evict_none hn t) (fun G S' hG hG' hP => ?_)
      (fun G S' idx hG hG' _ _ _ hP => ?_) true
    · exact (hG.names.resolve_register_other hG' hne).trans hP
    · exact (hG.names.resolve_register_other hG' hne).trans hP
  generalize (allocLocked atlas true F (some (remoteName peerName suffix)) (ghostCoord M.ghostCounter)
    false false).2 = W at hbound hW hother
  have hnamed : ∀ n ∈ registeredNames W.registry, gooniesResolve W.registry n ≠ none := by
    intro n hn
    obtain ⟨i, hi, rfl⟩ := List.mem_map.mp hn
    rw [gooniesResolve, (hW.names.find_iff _ i).mpr ⟨List.mem_range.mp hi, rfl⟩]
    exact Option.some_ne_none _
  have hself : namesRemote peerName (gooseNameHash suffix) (remoteName peerName suffix) = true := by
    rw [namesRemote, Bool.and_eq_true, List.isPrefixOf_iff_prefix, decide_eq_true_eq, remoteName,
      remoteSuffix, List.drop_left]
    exact ⟨List.prefix_append _ _, rfl⟩
  have hfind : (registeredNames W.registry).find? (namesRemote peerName (gooseNameHash suffix)) =
      some (remoteName peerName suffix) := by
    cases hf : (registeredNames W.registry).find? (namesRemote peerName (gooseNameHash suffix)) with
    | none =>
      obtain ⟨i, hi, he⟩ := (hW.names.resolve_iff _ _).mp hbound.resolve
      have hmem : remoteName peerName suffix ∈ registeredNames W.registry :=
        List.mem_map.mpr ⟨i, List.mem_range.mpr hi, by rw [he]⟩
      exact absurd hself (List.find?_eq_none.mp hf _ hmem)
    | some n =>
      by_contra hne
      have hn : n ≠ remoteName peerName suffix := fun h => hne (congrArg some h)
      have hmatch : namesRemote peerName (gooseNameHash suffix) n = true := List.find?_some hf
      cases hF : gooniesResolve F.registry n with
      | none => exact hnamed n (List.mem_of_find?_eq_some hf) (hother n hn hF)
      | some coord =>
        rw [halone n coord hF] at hmatch
        cases hmatch
  have hsuffix : remoteSuffix peerName (remoteName peerName suffix) = suffix := by
    rw [remoteSuffix, remoteName, List.drop_left]
  rw [arcTarget, hfind, Option.bind_some, hsuffix, if_neg hsys, hbound.resolve, Option.bind_some,
    hbound.getCell]

end Binding

/-- A phantom of "a", resolved before "a" is added. -/
theorem early_phantom_deaf : ¬ ∀ (F : Fabric) (M : Mesh) (peerName suffix : CName) (mac : Mac)
    (arcs : List SyncArc),
    stateAfter mac (resolveThenAdd emptyAtlas (fun _ => []) true 0 0 F M peerName suffix mac) arcs =
      stateAfter mac (addThenResolve emptyAtlas (fun _ => []) true 0 0 F M peerName suffix mac) arcs := by
  intro h
  have hsame := h coldFabric ⟨[], 0, 0, []⟩ (ascii "a") (ascii "led") (fun _ => 0)
    [⟨0, gooseNameHash (ascii "led"), 1⟩]
  revert hsame
  decide +kernel

end ReflexOS.Goose
