import ReflexOS.GooseAtmosphere
import ReflexOS.GooseMirror

set_option autoImplicit false

/-!
# Arcs over 802.15.4

A broadcast frame names its sender by a short address, from which each receive path builds
an address of six bytes again.
-/
namespace ReflexOS.Goose

def panId : ℕ := 0x4F52
def maxFrame : ℕ := 127
def fcsLen : ℕ := 2
def frameHdrLen : ℕ := 9
def maxRxPayload : ℕ := 114

/-- `s_local_addr` and `s_seq_num`. -/
structure Radio154 where
  localAddr : ℕ
  seqNum : UInt8

def shortAddr (mac : Mac) : ℕ := (mac 4).toNat * 256 + (mac 5).toNat

/-- `reflex_radio_init`. -/
def radioInit (mac : Mac) : Radio154 := ⟨shortAddr mac, 0⟩

def buildBroadcastFrame (R : Radio154) (payload : List UInt8) : List UInt8 :=
  [UInt8.ofNat (frameHdrLen + payload.length + fcsLen), 0x41, 0x88, R.seqNum,
    UInt8.ofNat (panId % 256), UInt8.ofNat (panId / 256), 0xFF, 0xFF,
    UInt8.ofNat (R.localAddr % 256), UInt8.ofNat (R.localAddr / 256)] ++ payload

/-- `reflex_radio_send` and the frame it transmits. -/
def radioSend (R : Radio154) (data : List UInt8) : Err × Radio154 × Option (List UInt8) :=
  if maxFrame < 1 + frameHdrLen + data.length + fcsLen then (Err.invalidSize, R, none)
  else (Err.ok, { R with seqNum := R.seqNum + 1 }, some (buildBroadcastFrame R data))

def srcAddrOf (low high : UInt8) : Mac := fun i => if i = 4 then low else if i = 5 then high else 0

/-- `own_mac_rx`: no length byte before the header, and `len` without the checksum. -/
def ownMacRx (R : Radio154) (psdu : List UInt8) (len : ℕ) : Option (Mac × List UInt8) :=
  if len ≤ frameHdrLen then none
  else if (psdu.getD 8 0).toNat * 256 + (psdu.getD 7 0).toNat = R.localAddr then none
  else
    let payloadLen := len - frameHdrLen
    if payloadLen = 0 ∨ maxRxPayload < payloadLen then none
    else some (srcAddrOf (psdu.getD 7 0) (psdu.getD 8 0), (psdu.drop frameHdrLen).take payloadLen)

/-- What the interrupt handler of the own MAC passes on of its buffer. -/
def ownMacReceived (R : Radio154) (rxBuf : List UInt8) : Option (Mac × List UInt8) :=
  let len := (rxBuf.getD 0 0).toNat
  if 3 ≤ len ∧ len ≤ 127 then ownMacRx R (rxBuf.drop 1) (len - 2) else none

/-- `esp_ieee802154_receive_done`. -/
def receiveDone (R : Radio154) (frame : List UInt8) : Option (Mac × List UInt8) :=
  let frameLen := (frame.getD 0 0).toNat
  if frameLen ≤ frameHdrLen + fcsLen then none
  else if (frame.getD 9 0).toNat * 256 + (frame.getD 8 0).toNat = R.localAddr then none
  else
    let payloadLen := frameLen - frameHdrLen - fcsLen
    if payloadLen = 0 ∨ maxRxPayload < payloadLen then none
    else some (srcAddrOf (frame.getD 8 0) (frame.getD 9 0),
      (frame.drop (1 + frameHdrLen)).take payloadLen)

/-- Which of the two drivers the build has. -/
inductive Driver where
  | ownMac
  | espIdf

def receive : Driver → Radio154 → List UInt8 → Option (Mac × List UInt8)
  | .ownMac => ownMacReceived
  | .espIdf => receiveDone

section Frame
variable {R S : Radio154} {payload : List UInt8}

theorem shortAddr_mod (mac : Mac) : UInt8.ofNat (shortAddr mac % 256) = mac 5 := by
  have hlow : shortAddr mac % 256 = (mac 5).toNat := by
    have := (mac 5).toNat_lt
    unfold shortAddr
    omega
  rw [hlow, UInt8.ofNat_toNat]

theorem shortAddr_div (mac : Mac) : UInt8.ofNat (shortAddr mac / 256) = mac 4 := by
  have hhigh : shortAddr mac / 256 = (mac 4).toNat := by
    have := (mac 5).toNat_lt
    unfold shortAddr
    omega
  rw [hhigh, UInt8.ofNat_toNat]

theorem frame_len (R : Radio154) (tail : List UInt8)
    (hlt : frameHdrLen + payload.length + fcsLen < 2 ^ 8) :
    ((buildBroadcastFrame R payload ++ tail).getD 0 0).toNat =
      frameHdrLen + payload.length + fcsLen := by
  change (UInt8.ofNat (frameHdrLen + payload.length + fcsLen)).toNat = _
  rw [UInt8.toNat_ofNat', Nat.mod_eq_of_lt hlt]

variable (hfits : payload.length ≤ maxRxPayload) (hpos : payload ≠ [])
include hfits hpos

/-- Either driver delivers a frame of another board, under the bytes of the short address in the
order they have in the frame. -/
theorem receive_frame (driver : Driver) (mac : Mac) (seq : UInt8) (tail : List UInt8)
    (hother : R.localAddr ≠ shortAddr mac) :
    receive driver R (buildBroadcastFrame ⟨shortAddr mac, seq⟩ payload ++ tail) =
      some (srcAddrOf (mac 5) (mac 4), payload) := by
  have hhdr : frameHdrLen = 9 := rfl
  have hfcs : fcsLen = 2 := rfl
  have hrx : maxRxPayload = 114 := rfl
  have hlen := @frame_len payload ⟨shortAddr mac, seq⟩ tail (by omega)
  have hcount : 0 < payload.length := List.length_pos_iff.mpr hpos
  have hself : (mac 4).toNat * 256 + (mac 5).toNat ≠ R.localAddr := Ne.symm hother
  generalize hframe : buildBroadcastFrame ⟨shortAddr mac, seq⟩ payload ++ tail = frame at hlen
  cases driver with
  | ownMac =>
    have hlow : (frame.drop 1).getD 7 0 = mac 5 := by
      rw [← hframe]
      exact shortAddr_mod mac
    have hhigh : (frame.drop 1).getD 8 0 = mac 4 := by
      rw [← hframe]
      exact shortAddr_div mac
    have hbody : (frame.drop 1).drop frameHdrLen = payload ++ tail := by
      rw [← hframe]
      rfl
    have hown : 3 ≤ (frame.getD 0 0).toNat ∧ (frame.getD 0 0).toNat ≤ 127 := by omega
    have hshort : ¬ (frame.getD 0 0).toNat - 2 ≤ frameHdrLen := by omega
    have hrest : (frame.getD 0 0).toNat - 2 - frameHdrLen = payload.length := by omega
    have hsize : ¬ (payload.length = 0 ∨ maxRxPayload < payload.length) := by omega
    simp only [receive, ownMacReceived, ownMacRx, if_pos hown, if_neg hshort, hlow, hhigh,
      if_neg hself, hrest, if_neg hsize, hbody, List.take_left']
  | espIdf =>
    have hlow : frame.getD 8 0 = mac 5 := by
      rw [← hframe]
      exact shortAddr_mod mac
    have hhigh : frame.getD 9 0 = mac 4 := by
      rw [← hframe]
      exact shortAddr_div mac
    have hbody : frame.drop (1 + frameHdrLen) = payload ++ tail := by
      rw [← hframe]
      rfl
    have hshort : ¬ (frame.getD 0 0).toNat ≤ frameHdrLen + fcsLen := by omega
    have hrest : (frame.getD 0 0).toNat - frameHdrLen - fcsLen = payload.length := by omega
    have hsize : ¬ (payload.length = 0 ∨ maxRxPayload < payload.length) := by omega
    simp only [receive, receiveDone, if_neg hshort, hlow, hhigh, if_neg hself, hrest,
      if_neg hsize, hbody, List.take_left']

end Frame

/-- The arc arrives, from an address that is the sender's in the peer table. -/
def Attributed (driver : Driver) (peers : List Peer) (sender : Radio154) (m r : Mac) (p : ArcPacket)
    (tail : List UInt8) : Prop :=
  ∃ frame src, (radioSend sender (arcBytes p)).2.2 = some frame ∧
    receive driver (radioInit r) (frame ++ tail) = some (src, arcBytes p) ∧
    findPeerByMac peers src = findPeerByMac peers m

section Identity
variable {peers peers' : List Peer} {now : ℕ} {name : CName} {m src : Mac}

theorem findPeerByMac_inj (h : findPeerByMac peers m ≠ 0) :
    findPeerByMac peers src = findPeerByMac peers m ↔ src = m := by
  constructor
  · intro heq
    obtain ⟨p, hp, hm⟩ := findPeerByMac_get h
    obtain ⟨q, hq, hsrc⟩ := findPeerByMac_get (heq ▸ h : findPeerByMac peers src ≠ 0)
    rw [heq, hp] at hq
    cases hq
    exact hsrc.symm.trans hm
  · exact fun h => h ▸ rfl

theorem srcAddrOf_eq_iff (m : Mac) : srcAddrOf (m 5) (m 4) = m ↔
    m 0 = 0 ∧ m 1 = 0 ∧ m 2 = 0 ∧ m 3 = 0 ∧ m 4 = m 5 := by
  constructor
  · intro h
    have hbyte := fun i => congrFun h i
    exact ⟨(hbyte 0).symm, (hbyte 1).symm, (hbyte 2).symm, (hbyte 3).symm, (hbyte 4).symm⟩
  · rintro ⟨h0, h1, h2, h3, h45⟩
    funext i
    fin_cases i
    · exact h0.symm
    · exact h1.symm
    · exact h2.symm
    · exact h3.symm
    · exact h45.symm
    · exact h45

/-- Where its address is in the table, an arc of another board is attributed to that peer exactly if
the address is zero but for its last two bytes, and these are equal. -/
theorem arc_attributed_iff (hadded : findPeerByMac peers m ≠ 0) {r : Mac}
    (hother : shortAddr r ≠ shortAddr m) (driver : Driver) (seq : UInt8) (p : ArcPacket)
    (tail : List UInt8) :
    Attributed driver peers { radioInit m with seqNum := seq } m r p tail ↔
      m 0 = 0 ∧ m 1 = 0 ∧ m 2 = 0 ∧ m 3 = 0 ∧ m 4 = m 5 := by
  have hlen : (arcBytes p).length = arcSize := length_arcBytes p
  have hfits : (arcBytes p).length ≤ maxRxPayload := by
    rw [hlen]
    decide
  have hsmall : ¬ maxFrame < 1 + frameHdrLen + (arcBytes p).length + fcsLen := by
    rw [hlen]
    decide
  have hsend : (radioSend { radioInit m with seqNum := seq } (arcBytes p)).2.2 =
      some (buildBroadcastFrame ⟨shortAddr m, seq⟩ (arcBytes p)) := by
    rw [radioSend, if_neg hsmall]
    rfl
  have hreceive := receive_frame (R := radioInit r) hfits (List.cons_ne_nil _ _) driver m seq tail hother
  rw [← srcAddrOf_eq_iff, ← findPeerByMac_inj hadded]
  constructor
  · rintro ⟨frame, src, hframe, hgot, hfound⟩
    cases hsend.symm.trans hframe
    cases hreceive.symm.trans hgot
    exact hfound
  · exact fun hfound => ⟨_, _, hsend, hreceive, hfound⟩

end Identity

def quietArc : ArcPacket := ⟨gooseArcVersion, arcOpMmioSync, fun _ => 0, 0, 0, 0, 0⟩

/-- The address 00:00:00:00:07:07 is its own short form. -/
theorem arc_attributed_twin :
    Attributed .espIdf (addPeer 0 [] (ascii "a") (srcAddrOf 7 7)).2 (radioInit (srcAddrOf 7 7))
      (srcAddrOf 7 7) (fun _ => 0) quietArc [0, 0] :=
  (arc_attributed_iff (m := srcAddrOf 7 7) (r := fun _ => 0)
    (findPeerByMac_added (rfl : addPeer 0 [] (ascii "a") (srcAddrOf 7 7) = (Err.ok, _)))
    (by decide) .espIdf 0 quietArc [0, 0]).mpr (by decide)

/-- A sender at 00:00:00:00:01:02, added under that address. -/
theorem swapped_address_unattributed : ¬ ∀ (driver : Driver) (now : ℕ) (peers peers' : List Peer)
    (name : CName) (m r : Mac), addPeer now peers name m = (Err.ok, peers') →
      shortAddr r ≠ shortAddr m → ∀ (seq : UInt8) (p : ArcPacket) (tail : List UInt8),
        Attributed driver peers' { radioInit m with seqNum := seq } m r p tail := by
  intro h
  obtain ⟨frame, src, hframe, hgot, hfound⟩ := h .espIdf 0 [] _ (ascii "a") (srcAddrOf 1 2)
    (fun _ => 0) rfl (by decide) 0 quietArc [0, 0]
  cases hframe
  have hsrc : receive .espIdf (radioInit fun _ => 0)
      (buildBroadcastFrame ⟨shortAddr (srcAddrOf 1 2), 0⟩ (arcBytes quietArc) ++ [0, 0]) =
      some (srcAddrOf 2 1, arcBytes quietArc) := by decide +kernel
  cases hsrc.symm.trans hgot
  revert hfound
  decide

end ReflexOS.Goose
