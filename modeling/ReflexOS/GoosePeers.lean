import ReflexOS.GooseMmioSync
import ReflexOS.KvMap
import ReflexOS.LittleEndian
import Mathlib.Data.List.GetD

set_option autoImplicit false

/-!
# Peers in the key-value store

The count and the records are two values. A record takes forty bytes, so the records of a
full table are longer than the store takes.
-/
namespace ReflexOS.Goose
open LittleEndian Runs
open Kv hiding Entry

def peersNamespace : CName := ascii "goose"
def peerCountKey : CName := ascii "peer_n"
def peersKey : CName := ascii "peers"

/-- `sizeof(reflex_peer_t)`. -/
def peerSize : ℕ := 40

/-- The bytes of a record behind the terminator of its name and between its fields. -/
structure PeerRest where
  name : Fin 12 → UInt8
  gap : Fin 6 → UInt8
  tail : Fin 7 → UInt8

def peerNameBytes (rest : PeerRest) (name : CName) : List UInt8 :=
  (name ++ 0 :: List.ofFn rest.name).take peerNameMax

def peerBytes (rest : PeerRest) (p : Peer) : List UInt8 :=
  peerNameBytes rest p.name ++ (List.ofFn p.mac ++ (List.ofFn rest.gap ++
    (encode 8 p.lastSeenUs ++ ([if p.active then 1 else 0] ++ List.ofFn rest.tail))))

def peersBlob (rests : ℕ → PeerRest) : List Peer → List UInt8
  | [] => []
  | p :: peers => peerBytes (rests 0) p ++ peersBlob (fun i => rests (i + 1)) peers

/-- A record that was loaded; it is marked as not seen. -/
def loadedPeer (bytes : List UInt8) : Peer where
  name := (bytes.take peerNameMax).takeWhile (· ≠ 0)
  mac i := bytes.getD (peerNameMax + i) 0
  lastSeenUs := 0
  active := false

def loadedPeers : ℕ → List UInt8 → List Peer
  | 0, _ => []
  | n + 1, bytes => loadedPeer bytes :: loadedPeers n (bytes.drop peerSize)

structure PeerTable where
  peers : List Peer
  store : Store

/-- `peers_save_nvs`; an error is logged only. -/
def peersSave (rests : ℕ → PeerRest) (P : PeerTable) : Store :=
  match kvOpen P.store peersNamespace with
  | .error _ => P.store
  | .ok ns =>
    let counted := kvWriteEntry P.store ns peerCountKey kvTypeBlob [UInt8.ofNat P.peers.length]
    if counted.1 = Err.ok ∧ UInt8.ofNat P.peers.length ≠ 0 then
      (kvWriteEntry counted.2 ns peersKey kvTypeBlob (peersBlob rests P.peers)).2
    else counted.2

/-- What `peers_load_nvs` puts into the zeroed table. -/
def peersLoad (S : Store) : List Peer :=
  match kvOpen S peersNamespace with
  | .error _ => []
  | .ok ns =>
    match kvGetBlob S ns peerCountKey 1 with
    | .error _ => []
    | .ok stored =>
      if stored.getD 0 0 = 0 then []
      else
        let count := min (stored.getD 0 0).toNat maxPeers
        match kvGetBlob S ns peersKey (count * peerSize) with
        | .error _ => []
        | .ok blob => loadedPeers count (blob ++ List.replicate (maxPeers * peerSize) 0)

/-- `goose_mmio_sync_init`. -/
def mmioSyncInit (S : Store) : PeerTable := ⟨peersLoad S, S⟩

/-- The first peer at the address already has the name. -/
def peerKnown (peers : List Peer) (name : CName) (mac : Mac) : Bool :=
  (peers.find? fun p => decide (p.mac = mac)).any fun p => decide (p.name = name)

/-- `goose_mmio_sync_add_peer` with what it saves. -/
def mmioSyncAddPeer (now : ℕ) (rests : ℕ → PeerRest) (P : PeerTable) (name : CName) (mac : Mac) :
    Err × PeerTable :=
  let added := addPeer now P.peers name mac
  if added.1 ≠ Err.ok then (added.1, P)
  else
    let P' : PeerTable := { P with peers := added.2 }
    if peerKnown P.peers name mac then (Err.ok, P')
    else (Err.ok, { P' with store := peersSave rests P' })

section Record

variable {rest : PeerRest} {p : Peer} {tail : List UInt8}

theorem length_peerNameBytes (rest : PeerRest) (name : CName) :
    (peerNameBytes rest name).length = peerNameMax := by
  have hmax : peerNameMax = 12 := rfl
  rw [peerNameBytes, List.length_take, List.length_append, List.length_cons, List.length_ofFn]
  omega

theorem length_peerBytes (rest : PeerRest) (p : Peer) : (peerBytes rest p).length = peerSize := by
  simp only [peerBytes, List.length_append, length_peerNameBytes, List.length_ofFn, length_encode,
    List.length_singleton]
  rfl

theorem takeWhile_peerNameBytes {name : CName} (hlen : name.length < peerNameMax)
    (hzero : (0 : UInt8) ∉ name) : (peerNameBytes rest name).takeWhile (· ≠ 0) = name := by
  have hcut : peerNameBytes rest name =
      name ++ 0 :: (List.ofFn rest.name).take (peerNameMax - name.length - 1) := by
    obtain ⟨k, hk⟩ : ∃ k, peerNameMax = name.length + (k + 1) := ⟨peerNameMax - name.length - 1, by omega⟩
    rw [peerNameBytes, hk, List.take_length_add_append, List.take_succ_cons]
    congr 3
    omega
  rw [hcut, takeWhile_terminated hzero]

/-- Name and address of a peer. -/
def Peer.identity (p : Peer) : CName × Mac := (p.name, p.mac)

theorem loadedPeer_identity (hlen : p.name.length < peerNameMax) (hzero : (0 : UInt8) ∉ p.name) :
    (loadedPeer (peerBytes rest p ++ tail)).identity = p.identity := by
  have hname : (peerBytes rest p ++ tail).take peerNameMax = peerNameBytes rest p.name := by
    rw [peerBytes, List.append_assoc, List.take_left' (length_peerNameBytes rest p.name)]
  refine Prod.ext ?_ (funext fun i => ?_)
  · change ((peerBytes rest p ++ tail).take peerNameMax).takeWhile (· ≠ 0) = p.name
    rw [hname, takeWhile_peerNameBytes hlen hzero]
  · change (peerBytes rest p ++ tail).getD (peerNameMax + i) 0 = p.mac i
    rw [peerBytes, List.append_assoc, List.getD_append_right _ _ _ _ (by
        rw [length_peerNameBytes]
        omega), length_peerNameBytes, Nat.add_sub_cancel_left, List.append_assoc,
      List.getD_append _ _ _ _ (by rw [List.length_ofFn]; exact i.isLt)]
    rw [List.getD_eq_getElem _ _ (by rw [List.length_ofFn]; exact i.isLt), List.getElem_ofFn]

end Record

section Blob

variable {peers : List Peer}

theorem length_peersBlob (rests : ℕ → PeerRest) (peers : List Peer) :
    (peersBlob rests peers).length = peers.length * peerSize := by
  induction peers generalizing rests with
  | nil => rw [peersBlob, List.length_nil, List.length_nil, Nat.zero_mul]
  | cons p peers ih =>
    rw [peersBlob, List.length_append, length_peerBytes, ih, List.length_cons, Nat.succ_mul,
      Nat.add_comm]

/-- What a name in the table is: a C string that fits its field, and not empty. -/
structure PeerNamed (p : Peer) : Prop where
  ne_nil : p.name ≠ []
  fits : p.name.length < peerNameMax
  terminated : (0 : UInt8) ∉ p.name

theorem loadedPeers_blob (rests : ℕ → PeerRest) (tail : List UInt8)
    (h : ∀ p ∈ peers, PeerNamed p) :
    (loadedPeers peers.length (peersBlob rests peers ++ tail)).map Peer.identity =
      peers.map Peer.identity := by
  induction peers generalizing rests with
  | nil => rfl
  | cons p peers ih =>
    have hp := h p List.mem_cons_self
    rw [List.length_cons, loadedPeers, List.map_cons, List.map_cons, peersBlob, List.append_assoc,
      loadedPeer_identity hp.fits hp.terminated, List.drop_left' (length_peerBytes (rests 0) p),
      ih _ fun q hq => h q (List.mem_cons_of_mem _ hq)]

theorem loadedPeers_get {n i : ℕ} (hi : i < n) (bytes : List UInt8) :
    (loadedPeers n bytes)[i]? = some (loadedPeer (bytes.drop (i * peerSize))) := by
  induction n generalizing i bytes with
  | zero => exact absurd hi (Nat.not_lt_zero i)
  | succ n ih =>
    cases i with
    | zero => rw [loadedPeers, List.getElem?_cons_zero, Nat.zero_mul, List.drop_zero]
    | succ i =>
      rw [loadedPeers, List.getElem?_cons_succ, ih (Nat.lt_of_succ_lt_succ hi), List.drop_drop,
        Nat.succ_mul, Nat.add_comm]

/-- A record that no blob reaches has no name. -/
theorem loadedPeers_beyond {blob : List UInt8} {n i : ℕ} (hi : i < n)
    (hlen : blob.length ≤ i * peerSize) (k : ℕ) :
    ∃ p, (loadedPeers n (blob ++ List.replicate k 0))[i]? = some p ∧ p.name = [] := by
  refine ⟨_, loadedPeers_get hi _, ?_⟩
  have hzeros : ∀ m, ((List.replicate m (0 : UInt8)).takeWhile (· ≠ 0)) = [] := by
    intro m
    cases m with
    | zero => rfl
    | succ m => exact List.takeWhile_cons_of_neg (by decide)
  change (((blob ++ List.replicate k 0).drop (i * peerSize)).take peerNameMax).takeWhile (· ≠ 0) = []
  rw [List.drop_append, List.drop_of_length_le hlen, List.nil_append, List.drop_replicate,
    List.take_replicate]
  exact hzeros _

end Blob

def peerCountId : UInt8 × CName := (nsHash peersNamespace, peerCountKey)
def peersId : UInt8 × CName := (nsHash peersNamespace, peersKey)

def peerCountEntry (peers : List Peer) : Kv.Entry :=
  ⟨nsHash peersNamespace, peerCountKey, kvTypeBlob, [UInt8.ofNat peers.length]⟩

def peersEntry (rests : ℕ → PeerRest) (peers : List Peer) : Kv.Entry :=
  ⟨nsHash peersNamespace, peersKey, kvTypeBlob, peersBlob rests peers⟩

section Entries

variable {peers : List Peer} {rests : ℕ → PeerRest}

@[simp] theorem peerCountEntry_id : (peerCountEntry peers).id = peerCountId := rfl

@[simp] theorem peersEntry_id : (peersEntry rests peers).id = peersId := rfl

theorem peersId_ne : peersId ≠ peerCountId := by decide

theorem peerCountEntry_sane (peers : List Peer) : (peerCountEntry peers).Sane where
  key_pos := (by decide : 1 ≤ peerCountKey.length)
  key_le := (by decide : peerCountKey.length ≤ kvKeyMax)
  val_le := (by decide : 1 ≤ kvValMax)

theorem peersEntry_sane (hfits : peers.length * peerSize ≤ kvValMax) :
    (peersEntry rests peers).Sane where
  key_pos := (by decide : 1 ≤ peersKey.length)
  key_le := (by decide : peersKey.length ≤ kvKeyMax)
  val_le := by
    rw [peersEntry, length_peersBlob]
    exact hfits

theorem ofNat_count {n : ℕ} (h : n ≤ maxPeers) : (UInt8.ofNat n).toNat = n := by
  rw [UInt8.toNat_ofNat']
  exact Nat.mod_eq_of_lt (lt_of_le_of_lt h (by decide))

theorem ofNat_count_ne (hne : peers ≠ []) (h : peers.length ≤ maxPeers) :
    UInt8.ofNat peers.length ≠ 0 := by
  intro hzero
  have hcount := ofNat_count h
  rw [hzero] at hcount
  exact hne (List.length_eq_zero_iff.mp hcount.symm)

end Entries

section Save

variable {P : PeerTable} {es : List Kv.Entry}

theorem peersSave_saves (hes : Carries P.store es) (hinit : P.store.initialized = true)
    (hne : P.peers ≠ []) (hfew : P.peers.length ≤ maxPeers) (rests : ℕ → PeerRest)
    (hcount : Takes P.store (peerCountEntry P.peers))
    (hrecords : Takes (kvWrite P.store (peerCountEntry P.peers)).2 (peersEntry rests P.peers)) :
    (peersSave rests P).initialized = true ∧ ∃ es', Carries (peersSave rests P) es' ∧
      lookup es' peerCountId = some (peerCountEntry P.peers) ∧
      (P.peers.length * peerSize ≤ kvValMax →
        lookup es' peersId = some (peersEntry rests P.peers)) := by
  have hkey : peerCountKey ≠ [] := by decide
  have hkey' : peersKey ≠ [] := by decide
  obtain ⟨hok, es₁, hes₁, hlook₁⟩ := hes.write_takes (peerCountEntry_sane P.peers) hcount
  have hinit₁ := (hes.write_initialized (e := peerCountEntry P.peers) hkey).trans hinit
  have hsave : peersSave rests P =
      (kvWrite (kvWrite P.store (peerCountEntry P.peers)).2 (peersEntry rests P.peers)).2 := by
    have hopen : kvOpen P.store peersNamespace = .ok (nsHash peersNamespace) := if_pos hinit
    unfold peersSave
    rw [hopen]
    exact if_pos ⟨hok, ofNat_count_ne hne hfew⟩
  rw [hsave]
  refine ⟨(hes₁.write_initialized hkey').trans hinit₁, ?_⟩
  by_cases hfits : P.peers.length * peerSize ≤ kvValMax
  · obtain ⟨-, es₂, hes₂, hlook₂⟩ := hes₁.write_takes (peersEntry_sane hfits) hrecords
    refine ⟨es₂, hes₂, ?_, fun _ => ?_⟩
    · rw [hlook₂, peersEntry_id, if_neg peersId_ne, hlook₁, peerCountEntry_id, if_pos rfl]
    · rw [hlook₂, peersEntry_id, if_pos rfl]
  · have hval : kvValMax < (peersEntry rests P.peers).val.length := by
      rw [peersEntry, length_peersBlob]
      exact Nat.lt_of_not_le hfits
    rw [kvWrite_invalid (.inr hval)]
    exact ⟨es₁, hes₁, by rw [hlook₁, peerCountEntry_id, if_pos rfl], fun h => absurd h hfits⟩

theorem peersLoad_counted {S : Store} {peers : List Peer} (hes : Carries S es)
    (hinit : S.initialized = true) (hne : peers ≠ []) (hfew : peers.length ≤ maxPeers)
    (hcount : lookup es peerCountId = some (peerCountEntry peers)) :
    peersLoad S = match kvGetBlob S (nsHash peersNamespace) peersKey (peers.length * peerSize) with
      | .error _ => []
      | .ok blob => loadedPeers peers.length (blob ++ List.replicate (maxPeers * peerSize) 0) := by
  have hopen : kvOpen S peersNamespace = .ok (nsHash peersNamespace) := if_pos hinit
  have hread : kvGetBlob S (nsHash peersNamespace) peerCountKey 1 =
      .ok [UInt8.ofNat peers.length] := hes.getBlob_some hcount le_rfl
  have hmin : min (UInt8.ofNat peers.length).toNat maxPeers = peers.length := by
    rw [ofNat_count hfew]
    exact Nat.min_eq_left hfew
  unfold peersLoad
  rw [hopen]
  dsimp only
  rw [hread]
  have hfirst : [UInt8.ofNat peers.length].getD 0 0 = UInt8.ofNat peers.length := rfl
  dsimp only
  rw [hfirst, if_neg (ofNat_count_ne hne hfew), hmin]

end Save

/-- The stored table has the names and addresses of the one in memory, in its order. -/
def Restores (P : PeerTable) : Prop :=
  (mmioSyncInit P.store).peers.map Peer.identity = P.peers.map Peer.identity

section Restore

variable {P : PeerTable} {es : List Kv.Entry}

theorem restores_of_saved (hes : Carries P.store es) (hinit : P.store.initialized = true)
    (hne : P.peers ≠ []) (hfew : P.peers.length ≤ maxPeers) (hnamed : ∀ p ∈ P.peers, PeerNamed p)
    {rests : ℕ → PeerRest} (hcount : lookup es peerCountId = some (peerCountEntry P.peers))
    (hrecords : lookup es peersId = some (peersEntry rests P.peers)) : Restores P := by
  have hread : kvGetBlob P.store (nsHash peersNamespace) peersKey (P.peers.length * peerSize) =
      .ok (peersBlob rests P.peers) :=
    hes.getBlob_some hrecords (length_peersBlob rests P.peers).le
  unfold Restores
  change (peersLoad P.store).map Peer.identity = _
  rw [peersLoad_counted hes hinit hne hfew hcount, hread]
  exact loadedPeers_blob rests _ hnamed

/-- A table whose records do not fit a value is counted, and its last peers are lost. -/
theorem not_restores_of_counted (hes : Carries P.store es) (hinit : P.store.initialized = true)
    (hfew : P.peers.length ≤ maxPeers) (hnamed : ∀ p ∈ P.peers, PeerNamed p)
    (hcount : lookup es peerCountId = some (peerCountEntry P.peers))
    (hlong : kvValMax < P.peers.length * peerSize) : ¬ Restores P := by
  have hpos : 6 < P.peers.length := by
    simp only [kvValMax, peerSize] at hlong
    omega
  have hne : P.peers ≠ [] := List.length_pos_iff.mp (Nat.zero_lt_of_lt hpos)
  intro hrestores
  unfold Restores at hrestores
  change (peersLoad P.store).map Peer.identity = _ at hrestores
  rw [peersLoad_counted hes hinit hne hfew hcount] at hrestores
  cases hblob : kvGetBlob P.store (nsHash peersNamespace) peersKey (P.peers.length * peerSize) with
  | error err =>
    rw [hblob] at hrestores
    exact hne (List.map_eq_nil_iff.mp hrestores.symm)
  | ok blob =>
    rw [hblob] at hrestores
    obtain ⟨p, hp, hname⟩ := loadedPeers_beyond hpos (hes.getBlob_length hblob)
      (maxPeers * peerSize)
    have hseventh := congrArg (·[6]?) hrestores
    simp only [List.getElem?_map, hp, Option.map_some, List.getElem?_eq_getElem hpos,
      Option.some.injEq] at hseventh
    exact (hnamed _ (List.getElem_mem hpos)).ne_nil ((congrArg Prod.fst hseventh).symm.trans hname)

end Restore

structure AddCall where
  now : ℕ
  rests : ℕ → PeerRest
  name : CName
  mac : Mac

/-- A call that succeeds. -/
def PeerStep (P : PeerTable) (c : AddCall) (P' : PeerTable) : Prop :=
  (0 : UInt8) ∉ c.name ∧ mmioSyncAddPeer c.now c.rests P c.name c.mac = (Err.ok, P')

/-- The store has room for the count and, where they fit a value, the records. -/
def SaveRoom (P : PeerTable) (c : AddCall) : Prop :=
  let peers := (addPeer c.now P.peers c.name c.mac).2
  Takes P.store (peerCountEntry peers) ∧
    Takes (kvWrite P.store (peerCountEntry peers)).2 (peersEntry c.rests peers)

section Add

variable {peers peers' : List Peer} {now : ℕ} {name : CName} {mac : Mac}

/-- A peer that is added is renamed in its place or goes behind the others. -/
theorem addPeer_cases (h : addPeer now peers name mac = (Err.ok, peers')) :
    name ≠ [] ∧ name.length < peerNameMax ∧
      ((∃ i p, peers[i]? = some p ∧ peers.find? (fun q => decide (q.mac = mac)) = some p ∧
        peers' = peers.modify i fun p => { p with name := name, active := true }) ∨
      peers.find? (fun q => decide (q.mac = mac)) = none ∧ peers.length < maxPeers ∧
        peers' = peers ++ [⟨name, mac, now, true⟩]) := by
  unfold addPeer at h
  split at h
  · cases h
  next hne =>
  split at h
  · cases h
  next hlen =>
  refine ⟨hne, Nat.lt_of_not_le hlen, ?_⟩
  have hfirst := @List.find?_eq_bind_findIdx?_getElem? _ peers fun q => decide (q.mac = mac)
  cases hfind : peers.findIdx? fun p => decide (p.mac = mac) with
  | some i =>
    rw [hfind] at h hfirst
    cases h
    obtain ⟨hi, -⟩ := List.findIdx?_eq_some_iff_getElem.mp hfind
    have hp : peers[i]? = some peers[i] := List.getElem?_eq_getElem hi
    exact .inl ⟨i, peers[i], hp, hfirst.trans hp, rfl⟩
  | none =>
    rw [hfind] at h hfirst
    dsimp only at h
    split at h
    · cases h
    next hroom =>
    cases h
    exact .inr ⟨hfirst, Nat.lt_of_not_le hroom, rfl⟩

/-- What every successful call leaves of the table. -/
theorem addPeer_keeps (h : addPeer now peers name mac = (Err.ok, peers'))
    (hzero : (0 : UInt8) ∉ name) (hnamed : ∀ p ∈ peers, PeerNamed p)
    (hfew : peers.length ≤ maxPeers) :
    peers' ≠ [] ∧ peers'.length ≤ maxPeers ∧ peers.length ≤ peers'.length ∧
      ∀ p ∈ peers', PeerNamed p := by
  obtain ⟨hne, hlen, ⟨i, p, hp, -, rfl⟩ | ⟨-, hroom, rfl⟩⟩ := addPeer_cases h
  · have hpos : 0 < peers.length := Nat.zero_lt_of_lt (List.getElem?_eq_some_iff.mp hp).1
    refine ⟨fun hnil => ?_, ?_, ?_, fun q hq => ?_⟩
    · have hlength := congrArg List.length hnil
      rw [List.length_modify, List.length_nil] at hlength
      omega
    · rwa [List.length_modify]
    · rw [List.length_modify]
    · obtain ⟨j, hj⟩ := List.mem_iff_getElem?.mp hq
      rw [List.getElem?_modify] at hj
      obtain ⟨r, hr, rfl⟩ := Option.map_eq_some_iff.mp hj
      have hrnamed := hnamed r (List.mem_of_getElem? hr)
      by_cases hij : i = j
      · rw [if_pos hij]
        exact ⟨hne, hlen, hzero⟩
      · rw [if_neg hij]
        exact hrnamed
  · refine ⟨List.append_ne_nil_of_right_ne_nil _ (List.cons_ne_nil _ _), ?_, ?_, fun q hq => ?_⟩
    · rw [List.length_append, List.length_singleton]
      omega
    · rw [List.length_append]
      omega
    · rcases List.mem_append.mp hq with hq | hq
      · exact hnamed q hq
      · rw [List.mem_singleton.mp hq]
        exact ⟨hne, hlen, hzero⟩

theorem addPeer_known (h : addPeer now peers name mac = (Err.ok, peers'))
    (hknown : peerKnown peers name mac = true) :
    peers'.map Peer.identity = peers.map Peer.identity := by
  obtain ⟨-, -, ⟨i, p, hp, hfirst, rfl⟩ | ⟨hnone, -⟩⟩ := addPeer_cases h
  · rw [peerKnown, hfirst, Option.any_some, decide_eq_true_iff] at hknown
    apply List.ext_getElem?
    intro j
    rw [List.getElem?_map, List.getElem?_map, List.getElem?_modify]
    by_cases hij : i = j
    · subst hij
      rw [hp]
      simp only [if_true, Option.map_some, Option.map_eq_map, Peer.identity, hknown]
    · simp only [hij, if_false, Option.map_eq_map, Option.map_id']
  · rw [peerKnown, hnone] at hknown
    cases hknown

end Add

/-- What holds of the table and the store behind every call: a table whose records fit a value
comes back, a larger one is counted. -/
structure PeersKept (P : PeerTable) : Prop where
  initialized : P.store.initialized = true
  few : P.peers.length ≤ maxPeers
  named : ∀ p ∈ P.peers, PeerNamed p
  stored : ∃ es, Carries P.store es ∧
    (kvValMax < P.peers.length * peerSize → lookup es peerCountId = some (peerCountEntry P.peers))
  restores : P.peers.length * peerSize ≤ kvValMax → Restores P

section Run

variable {P P' : PeerTable} {c : AddCall}

theorem PeersKept.step (h : PeersKept P) (hs : Guarded SaveRoom PeerStep P c P') : PeersKept P' := by
  obtain ⟨⟨hcount, hrecords⟩, hzero, hadd⟩ := hs
  obtain ⟨es, hes, hstored⟩ := h.stored
  obtain ⟨⟨err, peers'⟩, hadded⟩ : ∃ r, addPeer c.now P.peers c.name c.mac = r := ⟨_, rfl⟩
  rw [hadded] at hcount hrecords
  unfold mmioSyncAddPeer at hadd
  rw [hadded] at hadd
  dsimp only at hadd hcount hrecords
  split at hadd
  next herr => exact absurd (congrArg Prod.fst hadd) herr
  next hok =>
  rw [not_not] at hok
  subst hok
  obtain ⟨hne, hfew, hgrows, hnamed⟩ := addPeer_keeps hadded hzero h.named h.few
  split at hadd
  next hknown =>
    cases hadd
    have hids := addPeer_known hadded hknown
    have hlength : peers'.length = P.peers.length := by
      rw [← List.length_map Peer.identity, hids, List.length_map]
    refine ⟨h.initialized, hfew, hnamed, ⟨es, hes, fun hlong => ?_⟩, fun hfits => ?_⟩
    · rw [peerCountEntry, hlength]
      exact hstored (hlength ▸ hlong)
    · exact (h.restores (hlength ▸ hfits)).trans hids.symm
  next hnew =>
    cases hadd
    obtain ⟨hinit, es', hes', hcounted, hblob⟩ := peersSave_saves (P := ⟨peers', P.store⟩) hes
      h.initialized hne hfew c.rests hcount hrecords
    exact ⟨hinit, hfew, hnamed, ⟨es', hes', fun _ => hcounted⟩,
      fun hfits => restores_of_saved hes' hinit hne hfew hnamed hcounted (hblob hfits)⟩

theorem PeersKept.restores_iff (h : PeersKept P) :
    Restores P ↔ P.peers.length * peerSize ≤ kvValMax := by
  obtain ⟨es, hes, hstored⟩ := h.stored
  refine ⟨fun hrestores => ?_, h.restores⟩
  by_contra hlong
  exact not_restores_of_counted hes h.initialized h.few h.named (hstored (Nat.lt_of_not_le hlong))
    (Nat.lt_of_not_le hlong) hrestores

end Run

theorem peersKept_init {S : Store} {es : List Kv.Entry} (hes : Carries S es)
    (hinit : S.initialized = true) (hnone : peersLoad S = []) : PeersKept (mmioSyncInit S) := by
  have hempty : (mmioSyncInit S).peers = [] := hnone
  refine ⟨hinit, ?_, ?_, ⟨es, hes, ?_⟩, fun _ => rfl⟩
  · rw [hempty]
    exact Nat.zero_le _
  · rw [hempty]
    exact nofun
  · rw [hempty]
    exact fun hlong => absurd hlong (by decide)

/-- In a store with room, the table comes back from the store exactly if its records fit one
value. -/
theorem peers_restored_iff {S : Store} {es : List Kv.Entry} (hes : Carries S es)
    (hinit : S.initialized = true) (hnone : peersLoad S = []) {calls : List AddCall} {P : PeerTable}
    (hrun : Run (Guarded SaveRoom PeerStep) (mmioSyncInit S) calls P) :
    Restores P ↔ P.peers.length * peerSize ≤ kvValMax := by
  exact (hrun.invariant PeersKept (fun _ _ _ h hs => h.step hs)
    (peersKept_init hes hinit hnone)).restores_iff

section Fresh

/-- The calls one after another on a table all succeed. -/
def AllAdded : List Peer → List AddCall → Prop
  | _, [] => True
  | peers, c :: calls => (0 : UInt8) ∉ c.name ∧ (addPeer c.now peers c.name c.mac).1 = Err.ok ∧
      AllAdded (addPeer c.now peers c.name c.mac).2 calls

instance decidableAllAdded : ∀ peers calls, Decidable (AllAdded peers calls)
  | _, [] => .isTrue trivial
  | peers, c :: calls =>
    have := decidableAllAdded (addPeer c.now peers c.name c.mac).2 calls
    inferInstanceAs (Decidable ((0 : UInt8) ∉ c.name ∧
      (addPeer c.now peers c.name c.mac).1 = Err.ok ∧
        AllAdded (addPeer c.now peers c.name c.mac).2 calls))

def addAll (peers : List Peer) (calls : List AddCall) : List Peer :=
  calls.foldl (fun peers c => (addPeer c.now peers c.name c.mac).2) peers

theorem peersSave_roomy {P : PeerTable} {es : List Kv.Entry} (hes : Carries P.store es)
    (hinit : P.store.initialized = true) (hroom : P.store.writeOffset + 520 < kvSectorSize)
    (rests : ℕ → PeerRest) :
    Takes P.store (peerCountEntry P.peers) ∧
      Takes (kvWrite P.store (peerCountEntry P.peers)).2 (peersEntry rests P.peers) ∧
      (peersSave rests P).initialized = true ∧
      (peersSave rests P).writeOffset ≤ P.store.writeOffset + 520 ∧
      ∃ es', Carries (peersSave rests P) es' := by
  have hkey : peerCountKey ≠ [] := by decide
  have hkey' : peersKey ≠ [] := by decide
  obtain ⟨htakes, hle, es₁, hes₁⟩ := hes.write_roomy (e := peerCountEntry P.peers) hkey (by omega)
  have hinit₁ := (hes.write_initialized (e := peerCountEntry P.peers) hkey).trans hinit
  obtain ⟨htakes', hle', es₂, hes₂⟩ := hes₁.write_roomy (e := peersEntry rests P.peers) hkey'
    (by omega)
  have hinit₂ := (hes₁.write_initialized (e := peersEntry rests P.peers) hkey').trans hinit₁
  refine ⟨htakes, htakes', ?_⟩
  have hopen : kvOpen P.store peersNamespace = .ok (nsHash peersNamespace) := if_pos hinit
  have hsave : peersSave rests P = (kvWrite P.store (peerCountEntry P.peers)).2 ∨
      peersSave rests P =
        (kvWrite (kvWrite P.store (peerCountEntry P.peers)).2 (peersEntry rests P.peers)).2 := by
    unfold peersSave
    rw [hopen]
    dsimp only
    split
    · exact .inr rfl
    · exact .inl rfl
  rcases hsave with hsave | hsave
  · rw [hsave]
    exact ⟨hinit₁, by omega, es₁, hes₁⟩
  · rw [hsave]
    exact ⟨hinit₂, by omega, es₂, hes₂⟩

/-- A sector with enough room takes every save. -/
theorem run_of_allAdded {calls : List AddCall} {P : PeerTable} {es : List Kv.Entry}
    (hes : Carries P.store es) (hinit : P.store.initialized = true)
    (hroom : P.store.writeOffset + 520 * calls.length < kvSectorSize)
    (hadded : AllAdded P.peers calls) :
    ∃ P', Run (Guarded SaveRoom PeerStep) P calls P' ∧ P'.peers = addAll P.peers calls := by
  induction calls generalizing P es with
  | nil => exact ⟨P, .nil P, rfl⟩
  | cons c calls ih =>
    rw [List.length_cons] at hroom
    obtain ⟨hzero, hok, hrest⟩ := hadded
    let P₁ : PeerTable := ⟨(addPeer c.now P.peers c.name c.mac).2, P.store⟩
    have hroom₁ : P.store.writeOffset + 520 < kvSectorSize := lt_of_le_of_lt
      (Nat.add_le_add_left (Nat.le_mul_of_pos_right 520 (Nat.succ_pos calls.length)) _) hroom
    have hrest₁ : P.store.writeOffset + 520 * calls.length < kvSectorSize := by omega
    obtain ⟨htakes, htakes', hinit', hle, es', hes'⟩ :=
      @peersSave_roomy ⟨(addPeer c.now P.peers c.name c.mac).2, P.store⟩ es hes hinit hroom₁ c.rests
    change (peersSave c.rests P₁).writeOffset ≤ _ at hle
    have hroom₂ : (peersSave c.rests P₁).writeOffset + 520 * calls.length < kvSectorSize := by
      dsimp only at hle
      omega
    have hadd : mmioSyncAddPeer c.now c.rests P c.name c.mac =
        (Err.ok, if peerKnown P.peers c.name c.mac then P₁
          else { P₁ with store := peersSave c.rests P₁ }) := by
      unfold mmioSyncAddPeer
      dsimp only
      rw [if_neg (not_not.mpr hok)]
      split <;> rfl
    by_cases hknown : peerKnown P.peers c.name c.mac = true
    · rw [if_pos hknown] at hadd
      obtain ⟨P', hrun, hpeers⟩ := ih (P := P₁) hes hinit hrest₁ hrest
      exact ⟨P', .cons ⟨⟨htakes, htakes'⟩, hzero, hadd⟩ hrun, hpeers⟩
    · rw [if_neg hknown] at hadd
      obtain ⟨P', hrun, hpeers⟩ := ih (P := { P₁ with store := peersSave c.rests P₁ }) hes' hinit'
        hroom₂ hrest
      exact ⟨P', .cons ⟨⟨htakes, htakes'⟩, hzero, hadd⟩ hrun, hpeers⟩

end Fresh

def freshStore : Store := kvInit blankFlash

theorem freshStore_empty : peersLoad freshStore = [] := by
  have hopen : kvOpen freshStore peersNamespace = .ok (nsHash peersNamespace) :=
    if_pos blankFlash_holds.initialized
  have hread : kvGetBlob freshStore (nsHash peersNamespace) peerCountKey 1 = .error Err.notFound :=
    blankFlash_holds.getBlob _ _ _
  unfold peersLoad
  rw [hopen]
  dsimp only
  rw [hread]

/-- Peers "0", "1" and so on, each at its own address. -/
def numberedCalls (n : ℕ) : List AddCall := (List.range n).map fun i =>
  ⟨i, fun _ => ⟨fun _ => 0, fun _ => 0, fun _ => 0⟩, [UInt8.ofNat (48 + i)], fun _ => UInt8.ofNat i⟩

theorem freshStore_run {n : ℕ} (hn : n ≤ 7) (hadded : AllAdded [] (numberedCalls n)) :
    ∃ P, Run (Guarded SaveRoom PeerStep) (mmioSyncInit freshStore) (numberedCalls n) P ∧
      P.peers = addAll [] (numberedCalls n) := by
  have hoffset : freshStore.writeOffset = 8 := blankFlash_holds.offset
  have hlength : (numberedCalls n).length = n := by rw [numberedCalls, List.length_map, List.length_range]
  have hempty : (mmioSyncInit freshStore).peers = [] := freshStore_empty
  rw [← hempty] at hadded ⊢
  exact run_of_allAdded blankFlash_holds.carries blankFlash_holds.initialized (by
    change freshStore.writeOffset + _ < _
    rw [hoffset, hlength]
    simp only [kvSectorSize]
    omega) hadded

/-- Six peers come back. -/
theorem peers_restored_six : ∃ P, Run (Guarded SaveRoom PeerStep) (mmioSyncInit freshStore)
    (numberedCalls 6) P ∧ P.peers.length = 6 ∧ Restores P := by
  obtain ⟨P, hrun, hpeers⟩ := freshStore_run (by decide) (by decide : AllAdded [] (numberedCalls 6))
  have hlength : P.peers.length = 6 := by
    rw [hpeers]
    decide
  refine ⟨P, hrun, hlength, (peers_restored_iff blankFlash_holds.carries
    blankFlash_holds.initialized freshStore_empty hrun).mpr ?_⟩
  rw [hlength]
  decide

/-- Of seven peers the last one comes back without a name. -/
theorem seventh_peer_lost : ∃ P, Run PeerStep (mmioSyncInit freshStore) (numberedCalls 7) P ∧
    ¬ Restores P := by
  obtain ⟨P, hrun, hpeers⟩ := freshStore_run (le_refl 7) (by decide : AllAdded [] (numberedCalls 7))
  have hlength : P.peers.length = 7 := by
    rw [hpeers]
    decide
  have hkept := hrun.invariant PeersKept (fun _ _ _ h hs => h.step hs)
    (peersKept_init blankFlash_holds.carries blankFlash_holds.initialized freshStore_empty)
  refine ⟨P, hrun.mono (fun _ => True) (fun _ _ _ _ _ => trivial) (fun _ _ _ _ hs => hs.2) trivial,
    fun hrestores => ?_⟩
  have hfits := hkept.restores_iff.mp hrestores
  rw [hlength] at hfits
  exact absurd hfits (by decide)

end ReflexOS.Goose
