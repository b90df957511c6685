import ReflexOS.Mailboxes
import ReflexOS.VmTernary
import Mathlib.Logic.Function.Basic

set_option autoImplicit false

/-!
# The message fabric

Eight nodes have an inbox each. Any task sends to any node and receives for any node, and nobody
waits: a full inbox refuses a message, or loses it without a word if it is telemetry.
-/
namespace ReflexOS.Core
open Mailboxes Runs VmTernary

def fabricQueueLen : ℕ := 32
def nodeMax : ℕ := 8

inductive Channel where
  | critical
  | system
  | telem
deriving DecidableEq, Repr

structure FabricMessage where
  toNode : ℕ
  fromNode : ℕ
  op : ℕ
  channel : Channel
  correlationId : ℕ
  payload : Word18

structure MessageFabric where
  inboxes : ℕ → Option (Mailbox FabricMessage fabricQueueLen)
  ready : Bool

/-- Before `reflex_fabric_init`. -/
def noFabric : MessageFabric := ⟨fun _ => none, false⟩

/-- The loop of `reflex_fabric_init`, with `left` inboxes still to be made. -/
def createInboxes (F : MessageFabric) (created : ℕ → Bool) : ℕ → Err × MessageFabric
  | 0 => (Err.ok, { F with ready := true })
  | left + 1 =>
    let node := nodeMax - (left + 1)
    if created node then
      createInboxes { F with inboxes := Function.update F.inboxes node (some Mailboxes.empty) }
        created left
    else (Err.noMem, { F with inboxes := Function.update F.inboxes node none })

/-- `created` says for which nodes there is room for an inbox. -/
def fabricInit (F : MessageFabric) (created : ℕ → Bool) : Err × MessageFabric :=
  createInboxes F created nodeMax

def fabricSend (F : MessageFabric) (msg : Option FabricMessage) : Err × MessageFabric :=
  if F.ready = false then (Err.invalidState, F)
  else
    match msg with
    | none => (Err.invalidArg, F)
    | some m =>
      if m.toNode < nodeMax then
        match (F.inboxes m.toNode).bind (·.send m) with
        | none => (if m.channel = .telem then Err.ok else Err.timeout, F)
        | some inbox =>
          (Err.ok, { F with inboxes := Function.update F.inboxes m.toNode (some inbox) })
      else (Err.invalidArg, F)

/-- `out` says whether the caller passed room for the message. -/
def fabricRecv (F : MessageFabric) (node : ℕ) (out : Bool) :
    Except Err FabricMessage × MessageFabric :=
  if F.ready = false then (.error Err.invalidState, F)
  else if node < nodeMax then
    if out then
      match (F.inboxes node).bind (·.recv) with
      | none => (.error Err.notFound, F)
      | some (m, inbox) =>
        (.ok m, { F with inboxes := Function.update F.inboxes node (some inbox) })
    else (.error Err.invalidArg, F)
  else (.error Err.invalidArg, F)

inductive FabricLabel where
  | send (msg : Option FabricMessage) (result : Err)
  | recv (node : ℕ) (out : Bool) (result : Except Err FabricMessage)

inductive FabricStep (F : MessageFabric) : FabricLabel → MessageFabric → Prop where
  | send (msg : Option FabricMessage) :
      FabricStep F (.send msg (fabricSend F msg).1) (fabricSend F msg).2
  | recv (node : ℕ) (out : Bool) :
      FabricStep F (.recv node out (fabricRecv F node out).1) (fabricRecv F node out).2

section Delivery

def MessageFabric.inbox (F : MessageFabric) (node : ℕ) : List FabricMessage :=
  match F.inboxes node with
  | some inbox => inbox.items
  | none => []

/-- The message of a send that reports success, if it is for the node. -/
def sentTo (node : ℕ) : FabricLabel → List FabricMessage
  | .send (some m) result => if result = Err.ok ∧ m.toNode = node then [m] else []
  | _ => []

def receivedAt (node : ℕ) : FabricLabel → List FabricMessage
  | .recv n _ (.ok m) => if n = node then [m] else []
  | _ => []

def lasting (ms : List FabricMessage) : List FabricMessage :=
  ms.filter fun m => decide (m.channel ≠ .telem)

variable {F F' : MessageFabric} {l : FabricLabel} {ls : List FabricLabel} {node : ℕ}

/-- A message is refused, or it is lost for being telemetry, or it is the last in its inbox. -/
theorem fabricSend_cases (F : MessageFabric) (m : FabricMessage) :
    (fabricSend F (some m)).1 ≠ Err.ok ∧ (fabricSend F (some m)).2 = F ∨
      m.channel = .telem ∧ fabricSend F (some m) = (Err.ok, F) ∨
      ∃ inbox inbox' : Mailbox FabricMessage fabricQueueLen,
        F.inboxes m.toNode = some inbox ∧ inbox'.items = inbox.items ++ [m] ∧
        fabricSend F (some m) =
          (Err.ok, { F with inboxes := Function.update F.inboxes m.toNode (some inbox') }) := by
  unfold fabricSend
  split
  · exact .inl ⟨(by decide : Err.invalidState ≠ Err.ok), rfl⟩
  dsimp only
  split
  · split
    next hnone =>
      by_cases htelem : m.channel = .telem
      · rw [if_pos htelem]
        exact .inr (.inl ⟨htelem, rfl⟩)
      · rw [if_neg htelem]
        exact .inl ⟨(by decide : Err.timeout ≠ Err.ok), rfl⟩
    next inbox' hsome =>
      obtain ⟨inbox, hinbox, hsend⟩ := Option.bind_eq_some_iff.mp hsome
      exact .inr (.inr ⟨inbox, inbox', hinbox, send_items hsend, rfl⟩)
  · exact .inl ⟨(by decide : Err.invalidArg ≠ Err.ok), rfl⟩

theorem fabricRecv_cases (F : MessageFabric) (n : ℕ) (out : Bool) :
    (∃ e, fabricRecv F n out = (.error e, F)) ∨
      ∃ (m : FabricMessage) (inbox inbox' : Mailbox FabricMessage fabricQueueLen),
        F.inboxes n = some inbox ∧ inbox.items = m :: inbox'.items ∧
        fabricRecv F n out =
          (.ok m, { F with inboxes := Function.update F.inboxes n (some inbox') }) := by
  unfold fabricRecv
  split
  · exact .inl ⟨_, rfl⟩
  split
  · split
    · split
      next => exact .inl ⟨_, rfl⟩
      next m inbox' hsome =>
        obtain ⟨inbox, hinbox, hrecv⟩ := Option.bind_eq_some_iff.mp hsome
        exact .inr ⟨m, inbox, inbox', hinbox, recv_items hrecv, rfl⟩
    · exact .inl ⟨_, rfl⟩
  · exact .inl ⟨_, rfl⟩

theorem inbox_update (F : MessageFabric) (n : ℕ) (inbox : Mailbox FabricMessage fabricQueueLen) :
    ({ F with inboxes := Function.update F.inboxes n (some inbox) } : MessageFabric).inbox node =
      if node = n then inbox.items else F.inbox node := by
  unfold MessageFabric.inbox
  by_cases hn : node = n
  · subst hn
    simp
  · simp [hn]

theorem inbox_of {inbox : Mailbox FabricMessage fabricQueueLen}
    (h : F.inboxes node = some inbox) : F.inbox node = inbox.items := by
  simp [MessageFabric.inbox, h]

/-- What a step does to one inbox, given what was sent to it and what was taken out of it. -/
inductive InboxMove (before : List FabricMessage) :
    List FabricMessage → List FabricMessage → List FabricMessage → Prop where
  | still : InboxMove before [] [] before
  | lost {m : FabricMessage} (h : m.channel = .telem) : InboxMove before [m] [] before
  | enters (m : FabricMessage) : InboxMove before [m] [] (before ++ [m])
  | leaves {m : FabricMessage} {after : List FabricMessage} (h : before = m :: after) :
      InboxMove before [] [m] after

theorem FabricStep.move (h : FabricStep F l F') :
    InboxMove (F.inbox node) (sentTo node l) (receivedAt node l) (F'.inbox node) := by
  cases h with
  | send msg =>
    cases msg with
    | none =>
      have hsame : (fabricSend F none).2 = F := by
        unfold fabricSend
        split <;> rfl
      rw [hsame]
      exact .still
    | some m =>
      rcases fabricSend_cases F m with
        ⟨hr, hsame⟩ | ⟨htelem, hsame⟩ | ⟨inbox, inbox', hin, hadd, hs⟩
      · have hnone : sentTo node (.send (some m) (fabricSend F (some m)).1) = [] :=
          if_neg fun hok => hr hok.1
        rw [hsame, hnone]
        exact .still
      · rw [hsame]
        by_cases hto : m.toNode = node
        · have hone : sentTo node (.send (some m) Err.ok) = [m] := if_pos ⟨rfl, hto⟩
          rw [hone]
          exact .lost htelem
        · have hnone : sentTo node (.send (some m) Err.ok) = [] := if_neg fun hok => hto hok.2
          rw [hnone]
          exact .still
      · rw [hs, inbox_update]
        by_cases hto : m.toNode = node
        · have hone : sentTo node (.send (some m) Err.ok) = [m] := if_pos ⟨rfl, hto⟩
          rw [hone, if_pos hto.symm, hadd, ← inbox_of (hto ▸ hin)]
          exact .enters m
        · have hnone : sentTo node (.send (some m) Err.ok) = [] := if_neg fun hok => hto hok.2
          rw [hnone, if_neg (Ne.symm hto)]
          exact .still
  | recv n out =>
    rcases fabricRecv_cases F n out with ⟨e, hsame⟩ | ⟨m, inbox, inbox', hin, hitems, hr⟩
    · rw [hsame]
      exact .still
    · rw [hr, inbox_update]
      by_cases hn : n = node
      · have hone : receivedAt node (.recv n out (.ok m)) = [m] := if_pos hn
        rw [hone, if_pos hn.symm]
        exact .leaves ((inbox_of (hn ▸ hin)).trans hitems)
      · have hnone : receivedAt node (.recv n out (.ok m)) = [] := if_neg hn
        rw [hnone, if_neg (Ne.symm hn)]
        exact .still

variable {before arrived left after : List FabricMessage}

theorem InboxMove.sublist (h : InboxMove before arrived left after) :
    (left ++ after).Sublist (before ++ arrived) := by
  cases h with
  | still => simp
  | lost _ => simp
  | enters m => simp
  | leaves h => simp [h]

theorem InboxMove.lasting (h : InboxMove before arrived left after) :
    lasting before ++ lasting arrived = lasting left ++ lasting after := by
  cases h with
  | still => simp [Core.lasting]
  | lost h => simp [Core.lasting, h]
  | enters m => simp [Core.lasting]
  | leaves h => simp [Core.lasting, ← List.filter_append, h]

/-- Where no telemetry comes in, nothing is lost. -/
theorem InboxMove.kept (h : InboxMove before arrived left after)
    (hall : ∀ m ∈ arrived, m.channel ≠ .telem) : before ++ arrived = left ++ after := by
  cases h with
  | still => simp
  | @lost m h => exact absurd h (hall m List.mem_cons_self)
  | enters m => rfl
  | leaves h => simp [h]

theorem FabricStep.ready (h : FabricStep F l F') : F'.ready = F.ready := by
  cases h with
  | send msg =>
    cases msg with
    | none =>
      unfold fabricSend
      split <;> rfl
    | some m =>
      rcases fabricSend_cases F m with ⟨-, hs⟩ | ⟨-, hs⟩ | ⟨inbox, inbox', -, -, hs⟩
      · rw [hs]
      · rw [hs]
      · rw [hs]
  | recv n out =>
    rcases fabricRecv_cases F n out with ⟨e, hr⟩ | ⟨m, inbox, inbox', -, -, hr⟩
    · rw [hr]
    · rw [hr]

theorem lasting_flatMap (f : FabricLabel → List FabricMessage) :
    lasting (ls.flatMap f) = ls.flatMap fun l => lasting (f l) := by
  induction ls with
  | nil => rfl
  | cons l ls ih =>
    rw [List.flatMap_cons, List.flatMap_cons, ← ih]
    exact List.filter_append (f l) (ls.flatMap f)

/-- What a node receives was sent to it and reported as sent, in that order and each message once.
Only telemetry is ever missing. -/
theorem fabric_delivers (h : Run FabricStep F ls F') (node : ℕ) :
    (ls.flatMap (receivedAt node) ++ F'.inbox node).Sublist
        (F.inbox node ++ ls.flatMap (sentTo node)) ∧
      lasting (F.inbox node) ++ lasting (ls.flatMap (sentTo node)) =
        lasting (ls.flatMap (receivedAt node)) ++ lasting (F'.inbox node) := by
  have hsome : ∀ (F : MessageFabric) l F', True → FabricStep F l F' →
      (receivedAt node l ++ F'.inbox node).Sublist (F.inbox node ++ sentTo node l) :=
    fun _ _ _ _ hstep => hstep.move.sublist
  have hlasting : ∀ (F : MessageFabric) l F', True → FabricStep F l F' →
      lasting (F.inbox node) ++ lasting (sentTo node l) =
        lasting (receivedAt node l) ++ lasting (F'.inbox node) :=
    fun _ _ _ _ hstep => hstep.move.lasting
  refine ⟨passes_on_some _ (fun _ _ _ _ _ => trivial) hsome h trivial, ?_⟩
  rw [lasting_flatMap, lasting_flatMap]
  exact @passes_on _ _ _ _ _ _ _ (fun F => lasting (F.inbox node)) _ _ _
    (fun _ _ _ _ _ => trivial) hlasting h trivial

def readyFabric : MessageFabric := (fabricInit noFabric fun _ => true).2

/-- A press of the button reaches the node of the VM, and the node finds nothing more. -/
theorem fabric_delivers_press :
    ∃ F' : MessageFabric, ∃ ls : List FabricLabel,
      ls.flatMap (receivedAt 7) = [⟨7, 2, 1, .system, 0, zeroWord⟩] ∧ F'.inbox 7 = [] ∧
        (ls.flatMap (receivedAt 7) ++ F'.inbox 7).Sublist
          (readyFabric.inbox 7 ++ ls.flatMap (sentTo 7)) := by
  have hrun : Run FabricStep readyFabric _ _ :=
    .cons (.send (some ⟨7, 2, 1, .system, 0, zeroWord⟩)) <|
    .cons (.recv 3 true) <|
    .cons (.recv 7 true) <|
    .cons (.recv 7 true) <|
    .nil _
  exact ⟨_, _, rfl, rfl, (fabric_delivers hrun 7).1⟩

end Delivery

end ReflexOS.Core
