import ReflexOS.Radio802154
import ReflexOS.Runs

set_option autoImplicit false

/-!
# Sending over 802.15.4

Which payloads the limits of the two ends let through, and the one buffer every frame is built
in, with the transmissions of Reflex's own MAC.
-/
namespace ReflexOS.Goose
open Runs

section Delivery
variable {R S : Radio154} {payload : List UInt8}

theorem receive_frame_sent (hfits : payload.length ≤ maxRxPayload) (hpos : payload ≠ [])
    (driver : Driver) (tail : List UInt8) (hlocal : R.localAddr < 2 ^ 16)
    (hother : S.localAddr ≠ R.localAddr) :
    ∃ src, receive driver S (buildBroadcastFrame R payload ++ tail) = some (src, payload) := by
  let mac : Mac := srcAddrOf (UInt8.ofNat (R.localAddr / 256)) (UInt8.ofNat (R.localAddr % 256))
  have haddr : shortAddr mac = R.localAddr := by
    have hhigh : mac 4 = UInt8.ofNat (R.localAddr / 256) := rfl
    have hlow : mac 5 = UInt8.ofNat (R.localAddr % 256) := rfl
    rw [shortAddr, hhigh, hlow, UInt8.toNat_ofNat', UInt8.toNat_ofNat']
    omega
  have hreceive := receive_frame hfits hpos driver mac R.seqNum tail (haddr ▸ hother)
  rw [haddr] at hreceive
  exact ⟨_, hreceive⟩

theorem receive_frame_none (hlen : payload.length = 0 ∨ maxRxPayload < payload.length)
    (hlt : frameHdrLen + payload.length + fcsLen < 2 ^ 8) (driver : Driver) (tail : List UInt8) :
    receive driver S (buildBroadcastFrame R payload ++ tail) = none := by
  have hfirst := frame_len R tail hlt
  generalize buildBroadcastFrame R payload ++ tail = frame at hfirst
  cases driver with
  | ownMac =>
    have hrest : frameHdrLen + payload.length + fcsLen - 2 - frameHdrLen = payload.length := by
      simp only [fcsLen]
      omega
    simp only [receive, ownMacReceived, ownMacRx, hfirst, hrest, if_pos hlen, ite_self]
  | espIdf =>
    have hrest : frameHdrLen + payload.length + fcsLen - frameHdrLen - fcsLen =
        payload.length := by omega
    simp only [receive, receiveDone, hfirst, hrest, if_pos hlen, ite_self]

end Delivery

/-- What `radioSend` accepts arrives unchanged, whatever checksum follows the frame. -/
def Delivered (driver : Driver) (sender receiver : Radio154) (payload : List UInt8) : Prop :=
  ∀ frame, radioSend sender payload = (Err.ok, { sender with seqNum := sender.seqNum + 1 },
    some frame) → ∀ fcs, ∃ src, receive driver receiver (frame ++ fcs) = some (src, payload)

/-- Sending allows one byte more than receiving, and no byte at all. -/
theorem delivered_iff (driver : Driver) (sender receiver : Radio154)
    (hlocal : sender.localAddr < 2 ^ 16) (hother : receiver.localAddr ≠ sender.localAddr)
    (payload : List UInt8) :
    Delivered driver sender receiver payload ↔ payload.length ≠ 0 ∧ payload.length ≠ 115 := by
  have hmax : maxFrame = 127 := rfl
  have hhdr : frameHdrLen = 9 := rfl
  have hfcs : fcsLen = 2 := rfl
  have hrx : maxRxPayload = 114 := rfl
  constructor
  · intro h
    by_contra hbad
    have hsmall : ¬ maxFrame < 1 + frameHdrLen + payload.length + fcsLen := by omega
    obtain ⟨src, hreceive⟩ := h _ (if_neg hsmall) []
    rw [receive_frame_none (by omega) (by omega)] at hreceive
    cases hreceive
  · rintro ⟨hpos, hne⟩ frame hsend fcs
    unfold radioSend at hsend
    split at hsend
    · cases hsend
    next hsmall =>
      cases hsend
      exact receive_frame_sent (by omega) (mt List.length_eq_zero_iff.mpr hpos) driver fcs hlocal
        hother

theorem delivered_hello :
    Delivered .ownMac ⟨1, 0⟩ ⟨2, 0⟩ (ascii "hello") :=
  (delivered_iff .ownMac ⟨1, 0⟩ ⟨2, 0⟩ (by decide) (by decide) _).mpr (by decide)

/-- 115 bytes fill the frame of the sender, and the receiver drops it. -/
theorem full_frame_lost : ¬ ∀ (driver : Driver) (sender receiver : Radio154)
    (payload : List UInt8), sender.localAddr < 2 ^ 16 → receiver.localAddr < 2 ^ 16 →
      receiver.localAddr ≠ sender.localAddr → Delivered driver sender receiver payload := by
  intro h
  obtain ⟨src, hreceive⟩ := h .espIdf ⟨1, 0⟩ ⟨2, 0⟩ (List.replicate 115 7) (by decide) (by decide)
    (by decide) _ rfl []
  have hnone : receive .espIdf ⟨2, 0⟩
      (buildBroadcastFrame ⟨1, 0⟩ (List.replicate 115 7) ++ []) = none := by decide +kernel
  cases hnone.symm.trans hreceive

/-- Where a call of `reflex_radio_send` stands: before the test of `s_tx_busy`, before it is set,
before the frame is built, before the MAC is asked, before `s_tx_busy` is cleared. -/
inductive SendCall where
  | idle
  | test (data : List UInt8)
  | claim (data : List UInt8)
  | build (data : List UInt8)
  | transmit
  | release (result : Err)

/-- The statics of the radio and of the MAC, with the calls under way. -/
structure TxRadio where
  radio : Radio154
  txFrame : List UInt8
  txBusy : Bool
  txInFlight : Bool
  calls : ℕ → SendCall

inductive TxEvent where
  | call (i : ℕ) (data : List UInt8)
  | resume (i : ℕ)
  | complete

def TxRadio.setCall (s : TxRadio) (i : ℕ) (call : SendCall) : TxRadio :=
  { s with calls := Function.update s.calls i call }

/-- `reflex_802154_mac_transmit`, which runs with interrupts off. -/
def macTransmit (s : TxRadio) : Err × TxRadio :=
  if (s.txFrame.getD 0 0).toNat < 3 ∨ 127 < (s.txFrame.getD 0 0).toNat then (Err.invalidSize, s)
  else if s.txInFlight then (Err.invalidState, s)
  else (Err.ok, { s with txInFlight := true })

/-- The next statement of `reflex_radio_send` in call `i`. -/
def sendStep (s : TxRadio) (i : ℕ) : TxRadio :=
  match s.calls i with
  | .idle => s
  | .test data => s.setCall i (if s.txBusy then .idle else .claim data)
  | .claim data => { s.setCall i (.build data) with txBusy := true }
  | .build data =>
    { s.setCall i .transmit with
      txFrame := buildBroadcastFrame s.radio data ++
        s.txFrame.drop (buildBroadcastFrame s.radio data).length
      radio := { s.radio with seqNum := s.radio.seqNum + 1 } }
  | .transmit => (macTransmit s).2.setCall i (.release (macTransmit s).1)
  | .release _ => { s.setCall i .idle with txBusy := false }

/-- A call refused for its size has done nothing; a completion is TX_DONE or TX_ABORT. -/
def txStep (s : TxRadio) : TxEvent → TxRadio
  | .call i data =>
    if maxFrame < 1 + frameHdrLen + data.length + fcsLen then s else s.setCall i (.test data)
  | .resume i => sendStep s i
  | .complete => { s with txInFlight := false }

def TxStep (s : TxRadio) (ev : TxEvent) (s' : TxRadio) : Prop := txStep s ev = s'

def txInit (localAddr : ℕ) : TxRadio where
  radio := ⟨localAddr, 0⟩
  txFrame := List.replicate maxFrame 0
  txBusy := false
  txInFlight := false
  calls _ := .idle

/-- The event has a call build its frame. -/
def Builds (s : TxRadio) : TxEvent → Prop
  | .resume i => ∃ data, s.calls i = .build data
  | _ => False

/-- What the MAC reads while it transmits is left as it was handed over. -/
def FrameKept (s : TxRadio) (_ : TxEvent) (s' : TxRadio) : Prop :=
  s.txInFlight = true → s'.txFrame = s.txFrame

/-- A call has built its frame, or the MAC has it. -/
def TxRadio.Loaded (s : TxRadio) : Prop := s.txInFlight = true ∨ ∃ i, s.calls i = .transmit

/-- The frame in the buffer carries the last sequence number given out. -/
def Numbered (s : TxRadio) : Prop := s.Loaded → s.txFrame.getD 3 0 + 1 = s.radio.seqNum

section Steps
variable {s s' : TxRadio} {ev : TxEvent} {i : ℕ} {call : SendCall}

theorem txStep_frame (h : ¬ Builds s ev) : (txStep s ev).txFrame = s.txFrame := by
  cases ev with
  | call i data =>
    simp only [txStep]
    split <;> rfl
  | resume i =>
    show (sendStep s i).txFrame = s.txFrame
    unfold sendStep
    cases hcall : s.calls i with
    | idle => rfl
    | test data => rfl
    | claim data => rfl
    | build data => exact absurd ⟨data, hcall⟩ h
    | transmit =>
      simp only [macTransmit]
      split
      · rfl
      · split <;> rfl
    | release result => rfl
  | complete => rfl

theorem sendStep_build {data : List UInt8} (h : s.calls i = .build data) :
    (sendStep s i).txFrame.getD 3 0 = s.radio.seqNum ∧
      (sendStep s i).radio.seqNum = s.radio.seqNum + 1 := by
  have hstep : sendStep s i = { s.setCall i .transmit with
      txFrame := buildBroadcastFrame s.radio data ++
        s.txFrame.drop (buildBroadcastFrame s.radio data).length
      radio := { s.radio with seqNum := s.radio.seqNum + 1 } } := by
    simp only [sendStep, h]
  rw [hstep]
  exact ⟨rfl, rfl⟩

theorem Numbered.keep (h : Numbered s) (hframe : s'.txFrame = s.txFrame)
    (hradio : s'.radio = s.radio) (hloaded : s'.Loaded → s.Loaded) : Numbered s' := by
  intro hs'
  rw [hframe, hradio]
  exact h (hloaded hs')

theorem loaded_setCall (hcall : call ≠ .transmit) (hflight : s'.txInFlight = s.txInFlight)
    (hcalls : s'.calls = Function.update s.calls i call) (h : s'.Loaded) : s.Loaded := by
  rcases h with hs' | ⟨j, hj⟩
  · exact .inl (hflight ▸ hs')
  · refine .inr ⟨j, ?_⟩
    rw [hcalls] at hj
    by_cases hji : j = i
    · rw [hji, Function.update_self] at hj
      exact absurd hj hcall
    · rwa [Function.update_of_ne hji] at hj

theorem Numbered.sendStep (h : Numbered s) (i : ℕ) : Numbered (sendStep s i) := by
  cases hcall : s.calls i with
  | idle => simpa only [Goose.sendStep, hcall] using h
  | test data =>
    simp only [Goose.sendStep, hcall]
    refine h.keep rfl rfl (loaded_setCall ?_ rfl rfl)
    split <;> exact nofun
  | claim data =>
    simp only [Goose.sendStep, hcall]
    exact h.keep rfl rfl (@loaded_setCall s _ i (.build data) nofun rfl rfl)
  | build data =>
    obtain ⟨hframe, hseq⟩ := sendStep_build hcall
    intro _
    rw [hframe, hseq]
  | transmit =>
    have hloaded : s.Loaded := .inr ⟨i, hcall⟩
    simp only [Goose.sendStep, hcall, macTransmit]
    split
    · exact h.keep rfl rfl fun _ => hloaded
    · split
      · exact h.keep rfl rfl fun _ => hloaded
      · exact h.keep rfl rfl fun _ => hloaded
  | release result =>
    simp only [Goose.sendStep, hcall]
    exact h.keep rfl rfl (@loaded_setCall s _ i .idle nofun rfl rfl)

theorem Numbered.step (h : Numbered s) (ev : TxEvent) : Numbered (txStep s ev) := by
  cases ev with
  | call i data =>
    simp only [txStep]
    split
    · exact h
    · exact h.keep rfl rfl (@loaded_setCall s _ i (.test data) nofun rfl rfl)
  | resume i => exact h.sendStep i
  | complete =>
    refine h.keep rfl rfl ?_
    rintro (hflight | hcall)
    · cases hflight
    · exact .inr hcall

/-- A build changes the frame in flight: its sequence number is the next one. -/
theorem frameKept_iff (h : Numbered s) :
    FrameKept s ev (txStep s ev) ↔ ¬ (s.txInFlight = true ∧ Builds s ev) := by
  constructor
  · rintro hkept ⟨hflight, hbuilds⟩
    cases ev with
    | call i data => exact hbuilds
    | resume i =>
      obtain ⟨data, hcall⟩ := hbuilds
      have hold := h (.inl hflight)
      have hnew : (sendStep s i).txFrame.getD 3 0 = s.radio.seqNum := (sendStep_build hcall).1
      rw [show (sendStep s i).txFrame = s.txFrame from hkept hflight] at hnew
      rw [hnew] at hold
      simp at hold
    | complete => exact hbuilds
  · intro h hflight
    exact txStep_frame fun hbuilds => h ⟨hflight, hbuilds⟩

end Steps

/-- Along every run the frame in flight is left alone exactly if no call builds its frame while
one is in flight. -/
theorem frameKept_run_iff (localAddr : ℕ) (evs : List TxEvent) (s : TxRadio) :
    Always TxStep FrameKept (txInit localAddr) evs s ↔
      Always TxStep (fun s ev _ => ¬ (s.txInFlight = true ∧ Builds s ev)) (txInit localAddr) evs
        s := by
  refine Always.iff_of_kept Numbered ?_ ?_ ?_
  · rintro s ev _ h rfl -
    exact h.step ev
  · rintro s ev _ h rfl
    exact frameKept_iff h
  · rintro (hflight | ⟨i, hcall⟩)
    · cases hflight
    · cases hcall

theorem txStep_run (s : TxRadio) (evs : List TxEvent) : Run TxStep s evs (evs.foldl txStep s) := by
  induction evs generalizing s with
  | nil => exact .nil s
  | cons ev evs ih => exact .cons rfl (ih _)

theorem txStep_run_eq {s s' : TxRadio} {evs : List TxEvent} (h : Run TxStep s evs s') :
    evs.foldl txStep s = s' := by
  induction h with
  | nil s => rfl
  | cons h _ ih => rwa [List.foldl_cons, show txStep _ _ = _ from h]

/-- A call run to its end with nothing in between. -/
def sendCall (data : List UInt8) : List TxEvent := .call 0 data :: List.replicate 5 (.resume 0)

/-- The second of two sends in a row, up to where it builds its frame. -/
def secondSend : List TxEvent := sendCall [1] ++ [.call 0 [2], .resume 0, .resume 0]

theorem second_send_rebuilds : ¬ ∀ (localAddr : ℕ) (evs : List TxEvent) (s : TxRadio),
    Run TxStep (txInit localAddr) evs s →
      Always TxStep FrameKept (txInit localAddr) evs s := by
  intro h
  obtain ⟨t, u, hrun, hstep, hkept, -⟩ :=
    Always.at (h 1 (secondSend ++ [.resume 0]) _ (txStep_run _ _))
  cases txStep_run_eq hrun
  cases hstep
  have hbytes := congrArg (fun frame : List UInt8 => frame.getD 10 0) (hkept (by decide +kernel))
  revert hbytes
  decide +kernel

end ReflexOS.Goose
