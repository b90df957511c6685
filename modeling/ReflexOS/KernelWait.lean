import ReflexOS.KernelQueue
import ReflexOS.Runs

set_option autoImplicit false

/-!
# Blocking on a kernel queue

Tasks attempt, park when the attempt fails, and are made ready again by a peer.
-/
namespace ReflexOS.Kernel
open Runs

variable {α : Type*}

inductive TaskState where
  | free
  | ready
  | running
  | blocked
  | dead
deriving DecidableEq, Repr

/-- `call` is the queue operation the task has started and not finished. -/
structure Tcb (α : Type*) where
  state : TaskState
  wakeTick : ℕ
  blockedOn : Option ℕ
  wakeDeadlineValid : Bool
  call : Option (Request α)

def Tcb.runnable (t : Tcb α) : Bool := decide (t.state = .ready) || decide (t.state = .running)

def Tcb.calls (t : Tcb α) (send : Bool) : Bool := t.call.any fun req => req.isSend == send

def parkedOn (q : ℕ) (t : Tcb α) : Bool :=
  decide (t.state = .blocked) && decide (t.blockedOn = some q)

def readied (t : Tcb α) : Tcb α :=
  { t with blockedOn := none, wakeDeadlineValid := false, state := .ready }

def wakeOneWaiter (q : ℕ) : List (Tcb α) → List (Tcb α)
  | [] => []
  | t :: tasks => if parkedOn q t then readied t :: tasks else t :: wakeOneWaiter q tasks

/-- The task table and one queue. -/
structure KernelState (α : Type*) where
  queue : KQueue α
  tasks : List (Tcb α)

/-- One pass through the loop of an untimed `queue_wait` by task `i`: done, or parked. -/
def queueWait (q : ℕ) (K : KernelState α) (i : ℕ) (t : Tcb α) (req : Request α) : KernelState α :=
  match kqueueTry K.queue req with
  | some queue => ⟨queue, (wakeOneWaiter q K.tasks).set i { t with call := none }⟩
  | none =>
    { K with tasks := K.tasks.set i { t with
        blockedOn := some q
        wakeTick := 0
        wakeDeadlineValid := false
        state := .blocked
        call := some req } }

/-- Any task that is not parked may run next, with a new call or the one it has to retry. -/
inductive WaitStep (q : ℕ) : KernelState α → ℕ × Request α → KernelState α → Prop where
  | pass (K : KernelState α) (i : ℕ) (t : Tcb α) (req : Request α) (ht : K.tasks[i]? = some t)
      (hrun : t.runnable = true) (hcall : t.call = none ∨ t.call = some req) :
      WaitStep q K (i, req) (queueWait q K i t req)

/-- Parked with a call of the kind. -/
def parkedFor (q : ℕ) (send : Bool) (t : Tcb α) : Bool := parkedOn q t && t.calls send

/-- Made ready with a call of the kind and not yet back in it. -/
def wokenFor (send : Bool) (t : Tcb α) : Bool := t.runnable && t.calls send

/-- A task is parked although its operation would succeed, and nobody is on the way. -/
def LostWakeup (q : ℕ) (K : KernelState α) : Prop :=
  (∃ send, (∃ t ∈ K.tasks, parkedFor q send t = true) ∧ 0 < K.queue.supply send) ∧
    ∀ t ∈ K.tasks, ∀ send, wokenFor send t = false

/-- When the call succeeds and a task waits for what it provides, the first waiter in table
order is one of those. -/
def WakesPeer (q : ℕ) (K : KernelState α) (l : ℕ × Request α) : Prop :=
  (kqueueTry K.queue l.2).isSome = true →
    (∃ t ∈ K.tasks, parkedFor q (!l.2.isSend) t = true) →
    ∀ t, K.tasks.find? (parkedOn q) = some t → parkedFor q (!l.2.isSend) t = true

section Counting

variable {q : ℕ} {tasks : List (Tcb α)} {t : Tcb α} (p : Tcb α → Bool)

theorem wakeOneWaiter_none (h : tasks.find? (parkedOn q) = none) :
    wakeOneWaiter q tasks = tasks := by
  induction tasks with
  | nil => rfl
  | cons t tasks ih =>
    rw [List.find?_cons] at h
    split at h
    · cases h
    next hp =>
      rw [wakeOneWaiter, hp, if_neg (by simp), ih h]

/-- Waking replaces the first waiter by the same task made ready. -/
theorem wakeOneWaiter_countP (h : tasks.find? (parkedOn q) = some t) :
    (wakeOneWaiter q tasks).countP p + (if p t then 1 else 0) =
      tasks.countP p + (if p (readied t) then 1 else 0) := by
  induction tasks with
  | nil => cases h
  | cons u tasks ih =>
    rw [List.find?_cons] at h
    split at h
    next hp =>
      cases h
      rw [wakeOneWaiter, if_pos hp, List.countP_cons, List.countP_cons]
      omega
    next hp =>
      rw [wakeOneWaiter, hp, if_neg (by simp), List.countP_cons, List.countP_cons]
      have := ih h
      omega

/-- A task that is not parked keeps its place. -/
theorem wakeOneWaiter_getElem? {i : ℕ} (ht : tasks[i]? = some t) (hp : parkedOn q t = false) :
    (wakeOneWaiter q tasks)[i]? = some t := by
  induction tasks generalizing i with
  | nil => simp at ht
  | cons u tasks ih =>
    rw [wakeOneWaiter]
    cases i with
    | zero =>
      simp only [List.getElem?_cons_zero, Option.some.injEq] at ht
      subst u
      rw [hp, if_neg (by simp)]
      rfl
    | succ i =>
      rw [List.getElem?_cons_succ] at ht
      split
      · exact ht
      · exact ih ht

theorem set_countP {i : ℕ} (ht : tasks[i]? = some t) (t' : Tcb α) :
    (tasks.set i t').countP p + (if p t then 1 else 0) =
      tasks.countP p + (if p t' then 1 else 0) := by
  obtain ⟨hi, rfl⟩ := List.getElem?_eq_some_iff.mp ht
  have hmem : p tasks[i] = true → 0 < tasks.countP p := fun h =>
    List.countP_pos_iff.mpr ⟨tasks[i], List.getElem_mem hi, h⟩
  rw [List.countP_set hi]
  split <;> split <;> simp_all

end Counting

def parkedCount (q : ℕ) (K : KernelState α) (send : Bool) : ℕ :=
  K.tasks.countP (parkedFor q send)

/-- One if the first waiter is parked with a call of the kind. -/
def handed (q : ℕ) (K : KernelState α) (send : Bool) : ℕ :=
  match K.tasks.find? (parkedOn q) with
  | none => 0
  | some w => if parkedFor q send w then 1 else 0

def wokenCount (K : KernelState α) (send : Bool) : ℕ := K.tasks.countP (wokenFor send)

/-- While tasks are parked with a kind of call, whatever would let such calls succeed is
accounted for by woken tasks on their way to it. -/
structure Accounted (q : ℕ) (K : KernelState α) : Prop where
  bounded : K.queue.count ≤ K.queue.length
  supply : ∀ send, 0 < parkedCount q K send → K.queue.supply send ≤ wokenCount K send

section Step

variable {q : ℕ} {K : KernelState α} {i : ℕ} {t : Tcb α} {req : Request α}

theorem readied_parkedFor (q : ℕ) (t : Tcb α) (send : Bool) :
    parkedFor q send (readied t) = false := by simp [parkedFor, parkedOn, readied]

theorem readied_wokenFor (t : Tcb α) (send : Bool) : wokenFor send (readied t) = t.calls send := by
  simp [wokenFor, readied, Tcb.runnable, Tcb.calls]

theorem parkedOn_of_runnable (hrun : t.runnable = true) (q : ℕ) : parkedOn q t = false := by
  cases hs : t.state <;> simp_all [Tcb.runnable, parkedOn]

theorem parkedFor_of_runnable (hrun : t.runnable = true) (q : ℕ) (send : Bool) :
    parkedFor q send t = false := by rw [parkedFor, parkedOn_of_runnable hrun, Bool.false_and]

theorem calls_other (hcall : t.call = none ∨ t.call = some req) : t.calls (!req.isSend) = false := by
  rcases hcall with h | h <;> cases hs : req.isSend <;> simp [Tcb.calls, h, hs]

variable (ht : K.tasks[i]? = some t) (hrun : t.runnable = true)
include ht hrun

/-- An attempt that succeeds moves the first waiter from parked to woken. -/
theorem queueWait_done {queue : KQueue α} (hdone : kqueueTry K.queue req = some queue)
    (send : Bool) :
    (queueWait q K i t req).queue = queue ∧
      parkedCount q (queueWait q K i t req) send + handed q K send = parkedCount q K send ∧
      wokenCount (queueWait q K i t req) send + (if wokenFor send t then 1 else 0) =
        wokenCount K send + handed q K send := by
  have hkeep : (wakeOneWaiter q K.tasks)[i]? = some t :=
    wakeOneWaiter_getElem? ht (parkedOn_of_runnable hrun q)
  have hparked := set_countP (parkedFor q send) hkeep { t with call := none }
  have hwoken := set_countP (wokenFor send) hkeep { t with call := none }
  rw [parkedFor_of_runnable hrun, if_neg (by simp), if_neg (by simp [parkedFor, Tcb.calls])]
    at hparked
  rw [if_neg (by simp [wokenFor, Tcb.calls] : ¬ wokenFor send { t with call := none } = true)]
    at hwoken
  unfold queueWait
  rw [hdone]
  refine ⟨rfl, ?_⟩
  simp only [parkedCount, wokenCount, handed]
  cases hf : K.tasks.find? (parkedOn q) with
  | none =>
    rw [wakeOneWaiter_none hf] at hparked hwoken ⊢
    exact ⟨hparked, hwoken⟩
  | some w =>
    have hw : parkedOn q w = true := List.find?_some hf
    have hmoved := wakeOneWaiter_countP (parkedFor q send) hf
    have hmade := wakeOneWaiter_countP (wokenFor send) hf
    have hnot : wokenFor send w = false := by
      cases hr : w.runnable with
      | false => simp [wokenFor, hr]
      | true => simp [parkedOn_of_runnable hr q] at hw
    have hsame : parkedFor q send w = w.calls send := by rw [parkedFor, hw, Bool.true_and]
    rw [readied_parkedFor, if_neg Bool.false_ne_true, hsame] at hmoved
    rw [readied_wokenFor, hnot, if_neg Bool.false_ne_true] at hmade
    dsimp only
    rw [hsame]
    omega

variable (hcall : t.call = none ∨ t.call = some req)
include hcall

/-- An attempt that fails parks the task with its call. -/
theorem queueWait_park (hfail : kqueueTry K.queue req = none) (send : Bool) :
    (queueWait q K i t req).queue = K.queue ∧
      parkedCount q (queueWait q K i t req) send =
        parkedCount q K send + (if req.isSend = send then 1 else 0) ∧
      (send ≠ req.isSend →
        wokenCount (queueWait q K i t req) send = wokenCount K send) := by
  unfold queueWait
  rw [hfail]
  refine ⟨rfl, ?_, fun hne => ?_⟩
  · have hset := set_countP (parkedFor q send) ht
      { t with
        blockedOn := some q
        wakeTick := 0
        wakeDeadlineValid := false
        state := .blocked
        call := some req }
    rw [parkedFor_of_runnable hrun] at hset
    simpa [parkedCount, parkedFor, parkedOn, Tcb.calls] using hset
  · have hset := set_countP (wokenFor send) ht
      { t with
        blockedOn := some q
        wakeTick := 0
        wakeDeadlineValid := false
        state := .blocked
        call := some req }
    have hother : send = !req.isSend := by
      cases send <;> cases hs : req.isSend <;> simp_all
    subst hother
    have hcalls := calls_other hcall
    simpa [wokenCount, wokenFor, hcalls, Tcb.runnable] using hset

theorem Accounted.park (h : Accounted q K) (hfail : kqueueTry K.queue req = none) :
    Accounted q (queueWait q K i t req) := by
  have hqueue := (queueWait_park (q := q) ht hrun hcall hfail true).1
  refine ⟨hqueue ▸ h.bounded, fun send hpos => ?_⟩
  obtain ⟨-, hparked, hwoken⟩ := queueWait_park (q := q) ht hrun hcall hfail send
  rw [hqueue]
  by_cases hs : req.isSend = send
  · rw [← hs, kqueueTry_none hfail]
    exact Nat.zero_le _
  · rw [hwoken (Ne.symm hs)]
    rw [if_neg hs] at hparked
    exact h.supply send (by omega)

theorem Accounted.done (h : Accounted q K) (hguard : WakesPeer q K (i, req))
    {queue : KQueue α} (hdone : kqueueTry K.queue req = some queue) :
    Accounted q (queueWait q K i t req) := by
  obtain ⟨hbound, hused, hgiven⟩ := kqueueTry_some h.bounded hdone
  have hqueue := (queueWait_done (q := q) ht hrun hdone true).1
  refine ⟨hqueue ▸ hbound, fun send hpos => ?_⟩
  obtain ⟨-, hparked, hwoken⟩ := queueWait_done (q := q) ht hrun hdone send
  have hsupply := h.supply send (by omega)
  rw [hqueue]
  by_cases hs : send = req.isSend
  · -- one unit of the caller's kind is used, by at most one woken task
    subst hs
    split at hwoken <;> omega
  · have hother : send = !req.isSend := by
      cases send <;> cases hr : req.isSend <;> simp_all
    subst hother
    have hcaller : wokenFor (!req.isSend) t = false := by
      rw [wokenFor, calls_other hcall, Bool.and_false]
    rw [hcaller, if_neg Bool.false_ne_true] at hwoken
    -- the unit provided goes to a waiter, which the guard makes the first one
    have hhanded : handed q K (!req.isSend) = 1 := by
      obtain ⟨w, hw, hwp⟩ := List.countP_pos_iff.mp
        (show 0 < K.tasks.countP (parkedFor q (!req.isSend)) by
          unfold parkedCount at hparked hpos
          omega)
      have hon : parkedOn q w = true := by
        rw [parkedFor, Bool.and_eq_true] at hwp
        exact hwp.1
      obtain ⟨first, hfirst⟩ : ∃ first, K.tasks.find? (parkedOn q) = some first :=
        Option.isSome_iff_exists.mp (List.find?_isSome.mpr ⟨w, hw, hon⟩)
      have hkind := hguard (by rw [hdone]; rfl) ⟨w, hw, hwp⟩ first hfirst
      simp only [handed, hfirst, hkind, if_true]
    omega

end Step

theorem Accounted.not_lost {q : ℕ} {K : KernelState α} (h : Accounted q K) : ¬ LostWakeup q K := by
  rintro ⟨⟨send, hparked, hsupply⟩, hquiet⟩
  have hle := h.supply send (List.countP_pos_iff.mpr hparked)
  have hpos : 0 < wokenCount K send := by omega
  obtain ⟨t, ht, hwoken⟩ := List.countP_pos_iff.mp hpos
  rw [hquiet t ht send] at hwoken
  cases hwoken

/-- No task is in a queue operation. -/
structure Fresh (q : ℕ) (K : KernelState α) : Prop where
  bounded : K.queue.count ≤ K.queue.length
  idle : ∀ t ∈ K.tasks, t.call = none

theorem Fresh.accounted {q : ℕ} {K : KernelState α} (h : Fresh q K) : Accounted q K := by
  refine ⟨h.bounded, fun send hpos => ?_⟩
  obtain ⟨t, ht, hp⟩ := List.countP_pos_iff.mp hpos
  simp [parkedFor, Tcb.calls, h.idle t ht] at hp

/-- In a run in which every success that has a peer to wake finds that peer first in the
table, no wakeup is lost. -/
theorem no_lost_wakeup {q : ℕ} {K₀ K : KernelState α} {ls : List (ℕ × Request α)}
    (hinit : Fresh q K₀) (hrun : Run (Guarded (WakesPeer q) (WaitStep q)) K₀ ls K) :
    ¬ LostWakeup q K := by
  have hstep : ∀ (K : KernelState α) l K', Accounted q K → Guarded (WakesPeer q) (WaitStep q) K l K' →
      Accounted q K' := by
    rintro K l K' h ⟨hguard, hpass⟩
    cases hpass with
    | pass i t req ht hrun hcall =>
      cases hq : kqueueTry K.queue req with
      | none => exact h.park ht hrun hcall hq
      | some queue => exact h.done ht hrun hcall hguard hq
  exact (hrun.invariant (Accounted q) hstep hinit.accounted).not_lost

/-- A ready task, and an empty queue with room for one item, at address 1. -/
def idleTask : Tcb Unit := ⟨.ready, 0, none, false, none⟩

def slotQueue : KQueue Unit := ⟨fun _ => (), 1, 0, 0, 0⟩

def fourTasks : KernelState Unit := ⟨slotQueue, List.replicate 4 idleTask⟩

theorem fourTasks_fresh : Fresh 1 fourTasks := ⟨by decide, by decide⟩

/-- A receiver parks and the sender wakes it. -/
theorem no_lost_wakeup_handover :
    ¬ LostWakeup 1 (queueWait 1 (queueWait 1 fourTasks 0 idleTask .recv) 1 idleTask (.send ())) :=
  no_lost_wakeup fourTasks_fresh
    (.cons ⟨fun h => absurd h (by decide), .pass fourTasks 0 idleTask .recv rfl rfl (.inl rfl)⟩
      (.single ⟨fun _ _ t ht => by cases ht; decide, .pass _ 1 idleTask (.send ()) rfl rfl (.inl rfl)⟩))

/-- Two receivers park, the sender wakes the first and parks behind its item; a third receiver
takes the item and wakes the second receiver instead of the sender. -/
theorem sender_left_parked :
    ∃ ls K, Run (WaitStep 1) fourTasks ls K ∧ LostWakeup 1 K := by
  refine ⟨_, _, .cons (.pass _ 0 _ .recv rfl rfl (.inl rfl)) <|
    .cons (.pass _ 1 _ .recv rfl rfl (.inl rfl)) <|
    .cons (.pass _ 2 _ (.send ()) rfl rfl (.inl rfl)) <|
    .cons (.pass _ 2 _ (.send ()) rfl rfl (.inl rfl)) <|
    .cons (.pass _ 3 _ .recv rfl rfl (.inl rfl)) <|
    .cons (.pass _ 0 _ .recv rfl rfl (.inr rfl)) <|
    .single (.pass _ 1 _ .recv rfl rfl (.inr rfl)), ?_⟩
  refine ⟨⟨true, by decide, by decide⟩, by decide⟩

end ReflexOS.Kernel
