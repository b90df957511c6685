import ReflexOS.Mailboxes
import ReflexOS.Types

set_option autoImplicit false

/-!
# The event bus

Any task may subscribe and publish at any time, handlers among them. One task takes the events
off the queue and goes over the table of subscribers, whose length it reads anew at every turn.
-/
namespace ReflexOS.Core
open Mailboxes Runs

inductive EventType where
  | bootComplete
  | serviceStarted
  | serviceStopped
  | serviceFailed
  | buttonPressed
  | buttonReleased
  | wifiConnected
  | wifiDisconnected
  | ipAcquired
  | custom
deriving DecidableEq, Repr

def eventMaxSubscribers : ℕ := 16
def eventQueueLen : ℕ := 10
def eventDataMax : ℕ := 32

/-- Handlers and their contexts are pointers; a null handler is no handler. -/
structure Subscriber where
  type : EventType
  handler : ℕ
  ctx : ℕ
deriving DecidableEq

structure QueuedEvent where
  type : EventType
  timestampMs : ℕ
  data : List UInt8
deriving DecidableEq

/-- `turn` is the event under delivery, with the index of the subscriber whose turn it is. -/
structure EventBus where
  subscribers : List Subscriber
  queue : Option (Mailbox QueuedEvent eventQueueLen)
  turn : Option (QueuedEvent × ℕ)

/-- `reflex_event_bus_init`; `created` says whether there was room for the queue. -/
def eventBusInit (created : Bool) : Err × EventBus :=
  if created then (Err.ok, ⟨[], some Mailboxes.empty, none⟩)
  else (Err.noMem, ⟨[], none, none⟩)

def eventSubscribe (B : EventBus) (type : EventType) (handler : Option ℕ) (ctx : ℕ) :
    Err × EventBus :=
  if B.queue.isNone then (Err.invalidState, B)
  else
    match handler with
    | none => (Err.invalidArg, B)
    | some handler =>
      if B.subscribers.length < eventMaxSubscribers then
        (Err.ok, { B with subscribers := B.subscribers ++ [⟨type, handler, ctx⟩] })
      else (Err.noMem, B)

/-- The event that is queued: the time cut to 32 bits and the data to the buffer's 32 bytes,
which are zero where no data was given. -/
def queuedEvent (type : EventType) (data : Option (List UInt8)) (len timeUs : ℕ) :
    QueuedEvent where
  type := type
  timestampMs := timeUs / 1000 % 2 ^ 32
  data :=
    let n := if eventDataMax < len then eventDataMax else len
    match data with
    | some bytes => bytes.take n
    | none => List.replicate n 0

def eventPublish (B : EventBus) (type : EventType) (data : Option (List UInt8))
    (len timeUs : ℕ) : Err × EventBus :=
  match B.queue with
  | none => (Err.invalidState, B)
  | some queue =>
    match queue.send (queuedEvent type data len timeUs) with
    | none => (Err.timeout, B)
    | some queue => (Err.ok, { B with queue := some queue })

inductive BusLabel where
  | subscribe (type : EventType) (handler : Option ℕ) (ctx : ℕ) (result : Err)
  | publish (type : EventType) (data : Option (List UInt8)) (len timeUs : ℕ) (result : Err)
  /-- The event task takes an event, passes a subscriber over or ends its round. -/
  | silent
  /-- The event task calls the handler of subscriber `index`. -/
  | call (index : ℕ) (event : QueuedEvent)

/-- The next step of `reflex_event_task`, if the queue lets it go on. -/
def eventTask (B : EventBus) : Option (BusLabel × EventBus) :=
  match B.turn with
  | some (event, i) =>
    match B.subscribers[i]? with
    | none => some (.silent, { B with turn := none })
    | some s =>
      some (if s.type = event.type then .call i event else .silent,
        { B with turn := some (event, i + 1) })
  | none =>
    match B.queue with
    | none => none
    | some queue =>
      match queue.recv with
      | none => none
      | some (event, queue) =>
        some (.silent, { B with queue := some queue, turn := some (event, 0) })

inductive BusStep (B : EventBus) : BusLabel → EventBus → Prop where
  | subscribe (type : EventType) (handler : Option ℕ) (ctx : ℕ) :
      BusStep B (.subscribe type handler ctx (eventSubscribe B type handler ctx).1)
        (eventSubscribe B type handler ctx).2
  | publish (type : EventType) (data : Option (List UInt8)) (len timeUs : ℕ) :
      BusStep B (.publish type data len timeUs (eventPublish B type data len timeUs).1)
        (eventPublish B type data len timeUs).2
  | task {l : BusLabel} {B' : EventBus} (h : eventTask B = some (l, B')) : BusStep B l B'

section Delivery

/-- The event under delivery, while subscriber `j` has not had its turn. -/
def EventBus.current (B : EventBus) (j : ℕ) : List QueuedEvent :=
  match B.turn with
  | some (event, i) => if i ≤ j then [event] else []
  | none => []

def EventBus.queued (B : EventBus) : List QueuedEvent :=
  match B.queue with
  | some queue => queue.items
  | none => []

/-- What subscriber `j` has still to hear of. -/
def EventBus.owed (B : EventBus) (j : ℕ) (type : EventType) : List QueuedEvent :=
  (B.current j ++ B.queued).filter fun event => decide (event.type = type)

/-- What a step adds for the subscribers to a type. -/
def accepted (type : EventType) : BusLabel → List QueuedEvent
  | .publish t data len timeUs result =>
    if result = Err.ok ∧ t = type then [queuedEvent t data len timeUs] else []
  | _ => []

def heard (j : ℕ) : BusLabel → List QueuedEvent
  | .call i event => if i = j then [event] else []
  | _ => []

variable {B B' : EventBus} {l : BusLabel} {ls : List BusLabel} {j : ℕ} {s : Subscriber}

theorem eventSubscribe_cases (B : EventBus) (type : EventType) (handler : Option ℕ) (ctx : ℕ) :
    (eventSubscribe B type handler ctx).2 = B ∨
      ∃ new, (eventSubscribe B type handler ctx).2 =
        { B with subscribers := B.subscribers ++ [new] } := by
  unfold eventSubscribe
  split
  · exact .inl rfl
  cases handler with
  | none => exact .inl rfl
  | some handler =>
    dsimp only
    split
    · exact .inr ⟨_, rfl⟩
    · exact .inl rfl

/-- An event is refused and forgotten, or it is the last in the queue. -/
theorem eventPublish_cases (B : EventBus) (type : EventType) (data : Option (List UInt8))
    (len timeUs : ℕ) :
    (eventPublish B type data len timeUs).1 ≠ Err.ok ∧
        (eventPublish B type data len timeUs).2 = B ∨
      ∃ queue queue' : Mailbox QueuedEvent eventQueueLen, B.queue = some queue ∧
        queue'.items = queue.items ++ [queuedEvent type data len timeUs] ∧
        eventPublish B type data len timeUs = (Err.ok, { B with queue := some queue' }) := by
  unfold eventPublish
  cases hqueue : B.queue with
  | none => exact .inl ⟨(by decide : Err.invalidState ≠ Err.ok), rfl⟩
  | some queue =>
    dsimp only
    cases hsend : queue.send (queuedEvent type data len timeUs) with
    | none => exact .inl ⟨(by decide : Err.timeout ≠ Err.ok), rfl⟩
    | some queue' => exact .inr ⟨queue, queue', rfl, send_items hsend, rfl⟩

/-- A turn of the event task: a handler's, the end of the round, or the next event's. -/
inductive TaskTurn (B : EventBus) : BusLabel → EventBus → Prop where
  | turn {event : QueuedEvent} {i : ℕ} {s : Subscriber} (ht : B.turn = some (event, i))
      (hs : B.subscribers[i]? = some s) :
      TaskTurn B (if s.type = event.type then .call i event else .silent)
        { B with turn := some (event, i + 1) }
  | finish {event : QueuedEvent} {i : ℕ} (ht : B.turn = some (event, i))
      (hs : B.subscribers[i]? = none) : TaskTurn B .silent { B with turn := none }
  | take {event : QueuedEvent} {queue queue' : Mailbox QueuedEvent eventQueueLen}
      (ht : B.turn = none) (hq : B.queue = some queue)
      (hitems : queue.items = event :: queue'.items) :
      TaskTurn B .silent { B with queue := some queue', turn := some (event, 0) }

theorem eventTask_turn (h : eventTask B = some (l, B')) : TaskTurn B l B' := by
  unfold eventTask at h
  split at h
  next event i ht =>
    split at h
    next hs =>
      cases h
      exact .finish ht hs
    next s hs =>
      cases h
      exact .turn ht hs
  next ht =>
    split at h
    · cases h
    next queue hq =>
      split at h
      · cases h
      next event queue' hrecv =>
        cases h
        exact .take ht hq (recv_items hrecv)

/-- A subscription stays where it is. -/
theorem BusStep.subscribed (h : BusStep B l B') (hj : B.subscribers[j]? = some s) :
    B'.subscribers[j]? = some s := by
  cases h with
  | subscribe type handler ctx =>
    rcases eventSubscribe_cases B type handler ctx with hsame | ⟨new, hnew⟩
    · rwa [hsame]
    · rw [hnew]
      dsimp only
      rwa [List.getElem?_append_left (List.getElem?_eq_some_iff.mp hj).1]
  | publish type data len timeUs =>
    rcases eventPublish_cases B type data len timeUs with ⟨-, hsame⟩ | ⟨q, q', -, -, hsent⟩
    · rwa [hsame]
    · rwa [hsent]
  | task h =>
    cases eventTask_turn h with
    | turn _ _ => exact hj
    | finish _ _ => exact hj
    | take _ _ _ => exact hj

theorem heard_turn (i : ℕ) (event : QueuedEvent) (type : EventType) :
    heard j (if type = event.type then .call i event else .silent) =
      if i = j ∧ type = event.type then [event] else [] := by
  by_cases ht : type = event.type
  · simp [heard, ht]
  · simp [heard, ht]

theorem accepted_turn (i : ℕ) (event : QueuedEvent) (type type' : EventType) :
    accepted type' (if type = event.type then .call i event else .silent) = [] := by
  split <;> rfl

/-- A subscriber is owed less by exactly what it is told. -/
theorem TaskTurn.owed (h : TaskTurn B l B') (hj : B.subscribers[j]? = some s) :
    B.owed j s.type ++ accepted s.type l = heard j l ++ B'.owed j s.type := by
  cases h with
  | @turn event i s' ht hs =>
    rw [accepted_turn, heard_turn, List.append_nil]
    simp only [EventBus.owed, EventBus.current, EventBus.queued, ht]
    rcases Nat.lt_trichotomy i j with hlt | rfl | hgt
    · have hnot : ¬ (i = j ∧ s'.type = event.type) := fun hcall => Nat.ne_of_lt hlt hcall.1
      rw [if_pos (Nat.le_of_lt hlt), if_neg hnot, if_pos (Nat.succ_le_of_lt hlt), List.nil_append]
    · obtain rfl : s = s' := Option.some.inj (hj.symm.trans hs)
      rw [if_pos (Nat.le_refl i), if_neg (Nat.not_succ_le_self i), List.nil_append,
        List.filter_append]
      congr 1
      by_cases htype : event.type = s.type
      · rw [if_pos ⟨rfl, htype.symm⟩]
        simp [htype]
      · rw [if_neg fun hcall => htype hcall.2.symm]
        simp [htype]
    · have hnot : ¬ (i = j ∧ s'.type = event.type) := fun hcall => Nat.ne_of_gt hgt hcall.1
      rw [if_neg (Nat.not_le.mpr hgt), if_neg hnot, if_neg (by omega), List.nil_append,
        List.nil_append]
  | @finish event i ht hs =>
    have hpast : ¬ i ≤ j := by
      have hlen := List.getElem?_eq_none_iff.mp hs
      have hin := (List.getElem?_eq_some_iff.mp hj).1
      omega
    simp only [EventBus.owed, EventBus.current, EventBus.queued, ht, if_neg hpast, accepted, heard,
      List.append_nil, List.nil_append]
  | @take event queue queue' ht hq hitems =>
    simp only [EventBus.owed, EventBus.current, EventBus.queued, ht, hq, hitems, accepted, heard,
      if_pos (Nat.zero_le j), List.append_nil, List.nil_append, List.singleton_append]

theorem BusStep.owed (h : BusStep B l B') (hj : B.subscribers[j]? = some s) :
    B.owed j s.type ++ accepted s.type l = heard j l ++ B'.owed j s.type := by
  cases h with
  | subscribe type handler ctx =>
    rcases eventSubscribe_cases B type handler ctx with hsame | ⟨new, hnew⟩
    · rw [hsame]
      exact List.append_nil _
    · rw [hnew]
      exact List.append_nil _
  | publish type data len timeUs =>
    rcases eventPublish_cases B type data len timeUs with
      ⟨hr, hsame⟩ | ⟨q, q', hq, hitems, hsent⟩
    · rw [hsame, accepted, if_neg fun hok => hr hok.1]
      exact List.append_nil _
    · have hone : accepted s.type (.publish type data len timeUs Err.ok) =
          [queuedEvent type data len timeUs].filter fun event => decide (event.type = s.type) := by
        by_cases hsame : type = s.type
        · simp [accepted, hsame, queuedEvent]
        · simp [accepted, hsame, queuedEvent]
      have hsilent : heard j (.publish type data len timeUs Err.ok) = [] := rfl
      rw [hsent]
      dsimp only
      rw [hone, hsilent, List.nil_append]
      simp only [EventBus.owed, EventBus.current, EventBus.queued, hq, hitems]
      rw [← List.append_assoc, List.filter_append, List.filter_append, List.filter_append]
  | task h => exact (eventTask_turn h).owed hj

end Delivery

end ReflexOS.Core
