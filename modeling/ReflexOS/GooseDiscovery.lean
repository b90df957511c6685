import ReflexOS.GooseAtmosphere
import ReflexOS.GooseMirror

set_option autoImplicit false

/-!
# Two ways into the peer table

A DISCOVER arc registers its sender by name, an MMIO_SYNC arc by address, and each passes
over a sender that is known.
-/
namespace ReflexOS.Goose
open LittleEndian

/-- What a board advertises: its stored name, or one made of its address. -/
def advertisedName (stored : Option (List UInt8)) (mac : Mac) : CName :=
  match stored.map fun buf => buf.takeWhile (· ≠ 0) with
  | some (c :: name) => c :: name
  | _ => ascii "rx_" ++ hex2 (mac 4).toNat ++ hex2 (mac 5).toNat

/-- The first eight bytes of the coordinate; nothing is left of a longer name. -/
def nameField (name : CName) : List UInt8 := name.take 8 ++ List.replicate (8 - name.length) 0

/-- The packet of `goose_atmosphere_emit_discover`. -/
def discoverArc (now : ℕ) (name : CName) : ArcPacket where
  version := gooseArcVersion
  op := arcOpDiscover
  coord i :=
    if i = 0 then UInt32.ofNat (decode ((nameField name).take 4))
    else if i = 1 then UInt32.ofNat (decode ((nameField name).drop 4)) else 0
  state := 0
  nameHash := UInt32.ofNat (gooseNameHash name)
  nonce := UInt32.ofNat now
  aura := 0

section Advertised
variable {name : CName}

theorem length_nameField (name : CName) : (nameField name).length = 8 := by
  rw [nameField, List.length_append, List.length_take, List.length_replicate]
  omega

theorem encode_word {bytes : List UInt8} (h : bytes.length = 4) :
    encode 4 (UInt32.ofNat (decode bytes)).toNat = bytes := by
  have hlt := decode_lt bytes
  rw [h] at hlt
  have hword : decode bytes < 2 ^ 32 := lt_of_lt_of_eq hlt (by decide)
  rw [UInt32.toNat_ofNat', Nat.mod_eq_of_lt hword, ← h, encode_decode]

/-- A name arrives cut to eight bytes. -/
theorem discoverName_arc (hmac : List UInt8 → List UInt8) (now : ℕ) (hzero : (0 : UInt8) ∉ name) :
    discoverName (sealArc hmac (discoverArc now name)) = name.take 8 := by
  have hlen := length_nameField name
  change (encode 4 (UInt32.ofNat (decode ((nameField name).take 4))).toNat ++
    encode 4 (UInt32.ofNat (decode ((nameField name).drop 4))).toNat).takeWhile (· ≠ 0) = _
  rw [encode_word (by rw [List.length_take, hlen]; rfl),
    encode_word (by rw [List.length_drop, hlen]), List.take_append_drop]
  exact takeWhile_padded (fun h => hzero (List.mem_of_mem_take h)) _

theorem hex2_ne_zero (n : ℕ) : (0 : UInt8) ∉ hex2 n := by
  have hdigit : ∀ digit < 16, UInt8.ofNat (if digit < 10 then 48 + digit else 87 + digit) ≠ 0 := by
    decide
  rw [hex2, List.mem_map]
  rintro ⟨digit, hmem, hzero⟩
  refine hdigit digit ?_ hzero
  rcases List.mem_pair.mp hmem with rfl | rfl
  · exact Nat.mod_lt _ (by decide)
  · exact Nat.mod_lt _ (by decide)

theorem advertisedName_spec (stored : Option (List UInt8)) (mac : Mac) :
    advertisedName stored mac ≠ [] ∧ (0 : UInt8) ∉ advertisedName stored mac := by
  unfold advertisedName
  split
  next c name heq =>
    obtain ⟨buf, -, hbuf⟩ := Option.map_eq_some_iff.mp heq
    refine ⟨List.cons_ne_nil _ _, fun hmem => ?_⟩
    rw [← hbuf] at hmem
    have hnot := List.all_eq_true.mp List.all_takeWhile _ hmem
    exact of_decide_eq_true hnot rfl
  next =>
    refine ⟨List.cons_ne_nil _ _, fun hmem => ?_⟩
    rcases List.mem_append.mp hmem with hmem | hmem
    · rcases List.mem_append.mp hmem with hmem | hmem
      · revert hmem
        decide
      · exact hex2_ne_zero _ hmem
    · exact hex2_ne_zero _ hmem

theorem discoverName_advertised (hmac : List UInt8 → List UInt8) (now : ℕ)
    (stored : Option (List UInt8)) (mac : Mac) :
    discoverName (sealArc hmac (discoverArc now (advertisedName stored mac))) ≠ [] := by
  obtain ⟨hne, hzero⟩ := advertisedName_spec stored mac
  rw [discoverName_arc hmac now hzero]
  intro h
  exact hne ((List.take_eq_nil_iff.mp h).resolve_left (by decide))

theorem discoverName_length (p : ArcPacket) : (discoverName p).length ≤ 8 := by
  refine (List.takeWhile_sublist _).length_le.trans ?_
  rw [List.length_append, length_encode, length_encode]

theorem length_autoName (mac : Mac) : (autoName mac).length = 9 := rfl

end Advertised

/-- Name and address the table has for an address. -/
def peerEntry (peers : List Peer) (mac : Mac) : Option (CName × Mac) :=
  (peers.find? fun p => decide (p.mac = mac)).map fun p => (p.name, p.mac)

/-- At most the sender is added, and only one that is not known. -/
def Joins (peers peers' : List Peer) (src : Mac) : Prop :=
  ∃ added : List Peer, (peers'.map fun p => (p.name, p.mac)) =
      (peers ++ added).map (fun p => (p.name, p.mac)) ∧
    ∀ p ∈ added, p.mac = src ∧ findPeerByMac peers src = 0

section Joins
variable {peers peers' : List Peer} {src mac : Mac}

theorem peerEntry_congr (h : (peers'.map fun p => (p.name, p.mac)) = peers.map fun p => (p.name, p.mac))
    (mac : Mac) : peerEntry peers' mac = peerEntry peers mac := by
  have hfind : ∀ L : List Peer, peerEntry L mac =
      (L.map fun p => (p.name, p.mac)).find? fun e => decide (e.2 = mac) := by
    intro L
    rw [List.find?_map]
    rfl
  rw [hfind, hfind, h]

theorem peerEntry_none (h : findPeerByMac peers mac = 0) : peerEntry peers mac = none := by
  have hnone : (peers.find? fun p => decide (p.mac = mac)) = none :=
    List.find?_eq_none.mpr fun p hp => by
      rw [decide_eq_false (findPeerByMac_eq_zero.mp h p hp)]
      exact Bool.false_ne_true
  rw [peerEntry, hnone, Option.map_none]

theorem peerEntry_append (h : findPeerByMac peers mac = 0) (p : Peer) (hp : p.mac = mac) :
    peerEntry (peers ++ [p]) mac = some (p.name, mac) := by
  have hnone := peerEntry_none h
  rw [peerEntry, Option.map_eq_none_iff] at hnone
  rw [peerEntry, List.find?_append, hnone, List.find?_singleton, if_pos (by simp [hp])]
  exact congrArg (fun m => some (p.name, m)) hp

theorem Joins.refl (peers : List Peer) (src : Mac) : Joins peers peers src :=
  ⟨[], by rw [List.append_nil], nofun⟩

theorem Joins.entry (h : Joins peers peers' src) (hknown : findPeerByMac peers mac ≠ 0) :
    peerEntry peers' mac = peerEntry peers mac := by
  obtain ⟨added, hids, hadded⟩ := h
  have hnew : (added.find? fun p => decide (p.mac = mac)) = none := by
    refine List.find?_eq_none.mpr fun p hp => ?_
    obtain ⟨hsrc, hunknown⟩ := hadded p hp
    rw [decide_eq_false]
    · exact Bool.false_ne_true
    · intro hpm
      exact hknown (by rw [← hpm, hsrc, hunknown])
  rw [peerEntry_congr hids, peerEntry, peerEntry, List.find?_append, hnew, Option.or_none]

theorem Joins.known (h : Joins peers peers' src) (hknown : findPeerByMac peers mac ≠ 0) :
    findPeerByMac peers' mac ≠ 0 := by
  intro hzero
  have hnone := peerEntry_none hzero
  rw [h.entry hknown] at hnone
  obtain ⟨p, hp, hm⟩ := findPeerByMac_get hknown
  rw [peerEntry, Option.map_eq_none_iff, List.find?_eq_none] at hnone
  exact hnone p (List.mem_of_getElem? hp) (by simpa using hm)

variable {now : ℕ} {name : CName}

theorem addPeer_joins (h : findPeerByMac peers src = 0) :
    Joins peers (addPeer now peers name src).2 src := by
  rw [addPeer_unknown h]
  split
  · exact .refl peers src
  split
  · exact .refl peers src
  split
  · exact .refl peers src
  refine ⟨[⟨name, src, now, true⟩], rfl, fun p hp => ?_⟩
  rw [List.mem_singleton.mp hp]
  exact ⟨rfl, h⟩

/-- A new sender gets in where there is room and the name fits. -/
theorem addPeer_room (h : findPeerByMac peers src = 0) (hne : name ≠ [])
    (hlen : name.length < peerNameMax) (hroom : peers.length < maxPeers) :
    addPeer now peers name src = (Err.ok, peers ++ [⟨name, src, now, true⟩]) := by
  rw [addPeer_unknown h, if_neg hne, if_neg (Nat.not_le_of_lt hlen),
    if_neg (Nat.not_le_of_lt hroom)]

end Joins

/-- An accepted arc and what its handler meets. -/
structure Heard where
  calls : RecvCalls
  src : Mac
  packet : ArcPacket

section Hear
variable {W : Type*} (atlas : Atlas) (hmac : List UInt8 → List UInt8)

def hear (s : Tapestry W × Atmosphere) (e : Heard) : Tapestry W × Atmosphere :=
  handleArc atlas hmac e.calls e.src e.packet s.1 s.2

def hearAll (s : Tapestry W × Atmosphere) (es : List Heard) : Tapestry W × Atmosphere :=
  es.foldl (hear atlas hmac) s

variable {atlas hmac}

theorem gooniesResolveCell_peers {lock : Bool} {now : ℕ} {F : Fabric} {M : Mesh} {name : CName} :
    (gooniesResolveCell atlas hmac lock now F M name).2.2.peers = M.peers := by
  unfold gooniesResolveCell
  split
  · rw [resolvePeer_mesh]
    exact atmosphereQuery_peers
  · rfl

theorem answerQuery_peers {calls : RecvCalls} {F : Fabric} {M : Mesh} {p : ArcPacket} :
    (answerQuery atlas hmac calls F M p).2.peers = M.peers := by
  unfold answerQuery
  split
  · rfl
  · dsimp only
    split
    · exact gooniesResolveCell_peers
    · exact gooniesResolveCell_peers

theorem publishPosture_peers {calls : RecvCalls} {F : Fabric} {M : Mesh} {accum : ℤ} :
    (publishPosture atlas hmac calls F M accum).2.peers = M.peers := by
  unfold publishPosture
  dsimp only
  split
  · exact gooniesResolveCell_peers
  · exact gooniesResolveCell_peers

theorem mmioSyncRecv_joins (now : ℕ) (F : Fabric) (M : Mesh) (src : Mac) (nameHash : ℕ) (state : ℤ) :
    Joins M.peers (mmioSyncRecv now F M src nameHash state).2.peers src := by
  unfold mmioSyncRecv
  cases hsender : senderPeer now M.peers src with
  | none => exact .refl _ _
  | some sender =>
    obtain ⟨idx, peers⟩ := sender
    have hjoins : Joins M.peers peers src := by
      unfold senderPeer at hsender
      split at hsender
      next hnew =>
        dsimp only at hsender
        split at hsender
        · cases hsender
          exact addPeer_joins hnew
        · cases hsender
      · cases hsender
        exact .refl _ _
    obtain ⟨added, hids, hadded⟩ := hjoins
    exact ⟨added, (map_modify_of_eq (by simp) peers (idx - 1)).trans hids, hadded⟩

theorem hear_joins (s : Tapestry W × Atmosphere) (e : Heard) :
    Joins s.1.mesh.peers (hear atlas hmac s e).1.mesh.peers e.src := by
  obtain ⟨T, A⟩ := s
  have hkept : ∀ peers, peers = T.mesh.peers → Joins T.mesh.peers peers e.src :=
    fun peers h => h ▸ .refl _ _
  unfold hear handleArc
  dsimp only
  split
  · exact .refl _ _
  split
  · split
    · exact .refl _ _
    · exact hkept _ answerQuery_peers
  split
  · exact .refl _ _
  split
  · exact hkept _ publishPosture_peers
  split
  · exact mmioSyncRecv_joins _ _ _ _ _ _
  split
  · change Joins T.mesh.peers (recvDiscover e.calls.later T.mesh e.src e.packet).peers e.src
    unfold recvDiscover
    split
    next hnew => exact addPeer_joins hnew.2
    · exact .refl _ _
  · exact .refl _ _

theorem hearAll_entry {m : Mac} (es : List Heard) {s : Tapestry W × Atmosphere}
    (h : findPeerByMac s.1.mesh.peers m ≠ 0) :
    peerEntry (hearAll atlas hmac s es).1.mesh.peers m = peerEntry s.1.mesh.peers m := by
  induction es generalizing s with
  | nil => rfl
  | cons e es ih =>
    have hjoins := @hear_joins W atlas hmac s e
    exact (ih (hjoins.known h)).trans (hjoins.entry h)

variable {T : Tapestry W} {A : Atmosphere} {m : Mac} {d p : ArcPacket}
  (hnew : findPeerByMac T.mesh.peers m = 0) (hroom : T.mesh.peers.length < maxPeers)
include hnew hroom

theorem hear_discover (calls : RecvCalls) (hd : d.op = arcOpDiscover) (hname : discoverName d ≠ []) :
    (hear atlas hmac (T, A) ⟨calls, m, d⟩).1.mesh.peers =
      T.mesh.peers ++ [⟨discoverName d, m, calls.later, true⟩] := by
  have hlen : (discoverName d).length < peerNameMax :=
    lt_of_le_of_lt (discoverName_length d) (by decide)
  unfold hear handleArc
  dsimp only
  rw [hd, if_neg (by decide), if_neg (by decide), if_neg (by decide), if_neg (by decide),
    if_neg (by decide), if_pos rfl]
  change (recvDiscover calls.later T.mesh m d).peers = _
  rw [recvDiscover, if_pos ⟨hname, hnew⟩, addPeer_room hnew hname hlen hroom]

theorem hear_mmioSync (calls : RecvCalls) (hp : p.op = arcOpMmioSync) :
    peerEntry (hear atlas hmac (T, A) ⟨calls, m, p⟩).1.mesh.peers m = some (autoName m, m) := by
  have hadd := @addPeer_room T.mesh.peers m calls.later (autoName m) hnew (List.cons_ne_nil _ _)
    (by rw [length_autoName]; decide) hroom
  have hsender : senderPeer calls.later T.mesh.peers m = some (T.mesh.peers.length + 1,
      T.mesh.peers ++ [⟨autoName m, m, calls.later, true⟩]) := by
    rw [senderPeer, if_pos hnew, hadd]
    dsimp only
    rw [if_pos rfl, List.length_append]
    rfl
  unfold hear handleArc
  dsimp only
  rw [hp, if_neg (by decide), if_neg (by decide), if_neg (by decide), if_neg (by decide), if_pos rfl]
  change peerEntry (mmioSyncRecv calls.later T.substrate.fabric T.mesh m p.nameHash.toNat
    (arcState p)).2.peers m = _
  unfold mmioSyncRecv
  rw [hsender]
  dsimp only
  rw [peerEntry_congr (map_modify_of_eq (by simp) _ _)]
  exact peerEntry_append hnew _ rfl

/-- Whichever of a new sender's two arcs arrives first, the other one finds it known: the entries
differ for every advertised name, which has at most eight bytes. -/
theorem discovery_order_decides {s : ArcPacket} (hd : d.op = arcOpDiscover)
    (hname : discoverName d ≠ []) (hs : s.op = arcOpMmioSync) (others : List Heard)
    (c₁ c₂ c₃ c₄ : RecvCalls) :
    peerEntry (hearAll atlas hmac (T, A) (⟨c₁, m, d⟩ :: others ++ [⟨c₂, m, s⟩])).1.mesh.peers m =
        some (discoverName d, m) ∧
      peerEntry (hearAll atlas hmac (T, A) (⟨c₃, m, s⟩ :: others ++ [⟨c₄, m, d⟩])).1.mesh.peers m =
        some (autoName m, m) ∧
      some (discoverName d, m) ≠ some (autoName m, m) := by
  have hfirst : ∀ (e : Heard) (es : List Heard) (entry : CName × Mac),
      peerEntry (hear atlas hmac (T, A) e).1.mesh.peers m = some entry →
      peerEntry (hearAll atlas hmac (T, A) (e :: es)).1.mesh.peers m = some entry := by
    intro e es entry hentry
    refine (hearAll_entry es (s := hear atlas hmac (T, A) e) fun hzero => ?_).trans hentry
    rw [peerEntry_none hzero] at hentry
    cases hentry
  refine ⟨hfirst _ _ _ ?_, hfirst _ _ _ (hear_mmioSync hnew hroom c₃ hs), fun heq => ?_⟩
  · rw [hear_discover hnew hroom c₁ hd hname]
    exact peerEntry_append hnew _ rfl
  · have hlen := congrArg (fun e => e.map fun x => x.1.length) heq
    have hshort := discoverName_length d
    simp only [Option.map_some, Option.some.injEq, length_autoName] at hlen
    omega

end Hear

def bravoArc : ArcPacket := sealArc (fun _ => [])
  (discoverArc 0 (advertisedName (some (ascii "bravo" ++ [0])) fun _ => 0))
def bravoSync : ArcPacket := { bravoArc with op := arcOpMmioSync }
def bravoCalls : RecvCalls := ⟨true, 0, 0⟩
def silentAtmosphere : Atmosphere := ⟨emptyReplayCache, 0, 0, ⟨0, 0, 0, 0, 0, 0⟩⟩

/-- A board that advertises "bravo", on a board without peers. -/
theorem discovery_order_decides_bravo :
    peerEntry (hearAll emptyAtlas (fun _ => []) (loomTapestry coldFabric, silentAtmosphere)
      [⟨bravoCalls, fun _ => 0, bravoArc⟩, ⟨bravoCalls, fun _ => 0, bravoSync⟩]).1.mesh.peers
      (fun _ => 0) = some (ascii "bravo", fun _ => 0) := by
  have hname : discoverName bravoArc = ascii "bravo" := discoverName_arc _ _ (by decide)
  have horder := @discovery_order_decides Unit emptyAtlas (fun _ => []) (loomTapestry coldFabric)
    silentAtmosphere (fun _ => 0) bravoArc rfl (by decide) bravoSync rfl (discoverName_advertised _ _ _ _)
    rfl [] bravoCalls bravoCalls bravoCalls bravoCalls
  rw [hname] at horder
  exact horder.1

theorem bravo_registered_by_address : ¬ ∀ (T : Tapestry Unit) (A : Atmosphere) (m : Mac)
    (d s : ArcPacket) (others : List Heard) (c : RecvCalls), findPeerByMac T.mesh.peers m = 0 →
      T.mesh.peers.length < maxPeers → d.op = arcOpDiscover → discoverName d ≠ [] →
      s.op = arcOpMmioSync → (∀ e ∈ others, e.src ≠ m) →
      peerEntry (hearAll emptyAtlas (fun _ => []) (T, A)
          (⟨c, m, d⟩ :: others ++ [⟨c, m, s⟩])).1.mesh.peers m =
        peerEntry (hearAll emptyAtlas (fun _ => []) (T, A)
          (⟨c, m, s⟩ :: others ++ [⟨c, m, d⟩])).1.mesh.peers m := by
  intro h
  have hsame := h (loomTapestry coldFabric) silentAtmosphere (fun _ => 0) bravoArc bravoSync []
    bravoCalls rfl (by decide) rfl (by decide) rfl nofun
  revert hsame
  decide +kernel

end ReflexOS.Goose
