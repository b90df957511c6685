import ReflexOS.GooseMesh

set_option autoImplicit false

/-!
# Peers and the cells that stand for theirs
-/
namespace ReflexOS.Goose
open VmTernary

def mmioSyncStalenessUs : ℕ := 5000000

/-- Two lower-case digits. -/
def hex2 (n : ℕ) : CName := [n / 16 % 16, n % 16].map fun digit =>
  UInt8.ofNat (if digit < 10 then 48 + digit else 87 + digit)

/-- Counted from 1; 0 is no peer. -/
def findPeerByMac (peers : List Peer) (mac : Mac) : ℕ :=
  match peers.findIdx? fun p => decide (p.mac = mac) with
  | none => 0
  | some i => i + 1

def addPeer (now : ℕ) (peers : List Peer) (name : CName) (mac : Mac) : Err × List Peer :=
  if name = [] then (Err.invalidArg, peers)
  else if peerNameMax ≤ name.length then (Err.invalidSize, peers)
  else
    match peers.findIdx? fun p => decide (p.mac = mac) with
    | some i => (Err.ok, peers.modify i fun p => { p with name := name, active := true })
    | none =>
      if maxPeers ≤ peers.length then (Err.noMem, peers)
      else (Err.ok, peers ++ [⟨name, mac, now, true⟩])

/-- The name a peer gets that was never introduced. -/
def autoName (mac : Mac) : CName := ascii "auto_" ++ hex2 (mac 4).toNat ++ hex2 (mac 5).toNat

/-- The sender among the peers, added when it is new. -/
def senderPeer (now : ℕ) (peers : List Peer) (mac : Mac) : Option (ℕ × List Peer) :=
  if findPeerByMac peers mac = 0 then
    let added := addPeer now peers (autoName mac) mac
    if added.1 = Err.ok then some (added.2.length, added.2) else none
  else some (findPeerByMac peers mac, peers)

def registeredNames (reg : Registry) : List CName :=
  (List.range reg.count).map fun i => (reg.entries i).name

def peerPrefix (peerName : CName) : CName := nsPeer ++ peerName ++ [46]

def remoteSuffix (peerName name : CName) : CName := name.drop (peerPrefix peerName).length

def namesRemote (peerName : CName) (nameHash : ℕ) (name : CName) : Bool :=
  (peerPrefix peerName).isPrefixOf name &&
    decide (gooseNameHash (remoteSuffix peerName name) = nameHash)

/-- The first local name for the remote cell decides, also when it refuses. -/
def mirrorState (F : Fabric) (peerIdx : ℕ) (peerName : CName) (nameHash : ℕ) (state : ℤ) : Fabric :=
  match (registeredNames F.registry).find? (namesRemote peerName nameHash) with
  | none => F
  | some name =>
    match (gooniesResolve F.registry name).bind (getCellByCoord F) with
    | none => F
    | some v =>
      if (F.cells v).peerId = peerIdx && !nsSys.isPrefixOf (remoteSuffix peerName name) then
        F.setState v state
      else F

/-- `goose_mmio_sync_recv`. -/
def mmioSyncRecv (now : ℕ) (F : Fabric) (M : Mesh) (mac : Mac) (nameHash : ℕ) (state : ℤ) :
    Fabric × Mesh :=
  match senderPeer now M.peers mac with
  | none => (F, M)
  | some (peerIdx, peers) =>
    let peers := peers.modify (peerIdx - 1) fun p => { p with lastSeenUs := now, active := true }
    let peerName := (peers[peerIdx - 1]?.map Peer.name).getD []
    (mirrorState F peerIdx peerName nameHash state, { M with peers := peers })

def peerStale (now : ℕ) (p : Peer) : Bool :=
  p.active && decide (mmioSyncStalenessUs ≤ (now + 2 ^ 64 - p.lastSeenUs) % 2 ^ 64)

/-- The cells of a silent peer go back to 0. -/
def resetPhantoms (F : Fabric) (pid : ℕ) : Fabric :=
  (registeredNames F.registry).foldl (fun F name =>
    if nsPeer.isPrefixOf name then
      match (gooniesResolve F.registry name).bind (getCellByCoord F) with
      | none => F
      | some v => if (F.cells v).peerId = pid then F.setState v 0 else F
    else F) F

/-- `goose_mmio_sync_staleness_check`. -/
def stalenessCheck (now : ℕ) (F : Fabric) (M : Mesh) : Fabric × Mesh :=
  (M.peers.zipIdx.foldl (fun F p => if peerStale now p.1 then resetPhantoms F (p.2 + 1) else F) F,
    { M with peers := M.peers.map fun p => if peerStale now p then { p with active := false } else p })

end ReflexOS.Goose
