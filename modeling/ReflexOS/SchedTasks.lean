import ReflexOS.KernelWait

set_option autoImplicit false

/-!
# The cooperative scheduler

The task table and the operations on it. Slots are numbered, and a stack is named by the
allocation it came from.
-/
namespace ReflexOS.Sched
open Kernel

def schedMaxTasks : ℕ := 16
def schedNameMax : ℕ := 16
def schedTickHz : ℕ := 1000
def schedMinStack : ℕ := 1024
def schedWaitForever : ℕ := 2 ^ 32 - 1

/-- `reflex_tcb_t`. A saved context is remembered by the stack it continues on. -/
structure Task where
  context : Option ℕ
  state : TaskState
  priority : ℤ
  wakeTick : ℕ
  name : List UInt8
  stackBase : Option ℕ
  stackSize : ℕ
  entry : Option ℕ
  arg : ℕ
  started : Bool
  blockedOn : Option ℕ
  wakeDeadlineValid : Bool

/-- The statics of the scheduler. -/
structure Statics where
  tasks : ℕ → Task
  current : Option ℕ
  tickCount : ℕ
  started : Bool

def Statics.setTask (S : Statics) (i : ℕ) (t : Task) : Statics :=
  { S with tasks := Function.update S.tasks i t }

@[simp] lemma Statics.setTask_self (S : Statics) (i : ℕ) (t : Task) :
    (S.setTask i t).tasks i = t := by simp only [Statics.setTask, Function.update_self]

lemma Statics.setTask_ne (S : Statics) {i j : ℕ} (t : Task) (ne : j ≠ i) :
    (S.setTask i t).tasks j = S.tasks j := by
  simp only [Statics.setTask, Function.update_of_ne ne]

@[simp] lemma Statics.setTask_setTask (S : Statics) (i : ℕ) (t u : Task) :
    (S.setTask i t).setTask i u = S.setTask i u := by
  simp only [Statics.setTask, Function.update_idem]

@[simp] lemma Statics.setTask_current (S : Statics) (i : ℕ) (t : Task) :
    (S.setTask i t).current = S.current := rfl

@[simp] lemma Statics.setTask_started (S : Statics) (i : ℕ) (t : Task) :
    (S.setTask i t).started = S.started := rfl

@[simp] lemma Statics.setTask_tickCount (S : Statics) (i : ℕ) (t : Task) :
    (S.setTask i t).tickCount = S.tickCount := rfl

def findFreeSlot (tasks : ℕ → Task) : Option ℕ :=
  (List.range schedMaxTasks).find? fun i => decide ((tasks i).state = .free)

/-- What the caller of `reflex_sched_create_task` asks for. -/
structure TaskRequest where
  entry : Option ℕ
  name : List UInt8
  stackBytes : ℕ
  arg : ℕ
  priority : ℤ

/-- The slot of a new task; its context is left as it was. -/
def Task.create (t : Task) (req : TaskRequest) (stack : ℕ) : Task where
  context := t.context
  state := .ready
  priority := req.priority
  wakeTick := 0
  name := req.name.take (schedNameMax - 1)
  stackBase := some stack
  stackSize := max schedMinStack req.stackBytes
  entry := req.entry
  arg := req.arg
  started := false
  blockedOn := none
  wakeDeadlineValid := false

/-- `reflex_sched_create_task`; `malloc` is what the heap answers if it is asked. -/
def schedCreateTask (req : TaskRequest) (malloc : Option ℕ) (S : Statics) :
    Err × Option ℕ × Statics :=
  if req.entry = none then (Err.invalidArg, none, S)
  else
    match findFreeSlot S.tasks with
    | none => (Err.noMem, none, S)
    | some i =>
      match malloc with
      | none => (Err.noMem, none, S)
      | some stack => (Err.ok, some i, S.setTask i ((S.tasks i).create req stack))

/-- A task marked for collection. -/
def Task.retired (t : Task) : Task := { t with state := .dead }

/-- A slot returned. -/
def Task.reaped (t : Task) : Task :=
  { t with
    state := .free
    wakeTick := 0
    name := []
    stackBase := none
    stackSize := 0
    started := false
    blockedOn := none
    wakeDeadlineValid := false }

/-- `reflex_sched_reap` over the slots, with the stacks it frees. -/
def schedReap (slots : List ℕ) (tasks : ℕ → Task) : (ℕ → Task) × List ℕ :=
  (fun i => if i ∈ slots ∧ (tasks i).state = .dead then (tasks i).reaped else tasks i,
    slots.filterMap fun i => if (tasks i).state = .dead then (tasks i).stackBase else none)

/-- The part of `reflex_sched_yield` before the switch, standing on the stack `sp`; whether it
switches. -/
def schedYield (sp : Option ℕ) (S : Statics) : Statics × Bool :=
  if !S.started then (S, false)
  else
    match S.current with
    | none => (S, true)
    | some i =>
      let t := S.tasks i
      (S.setTask i { t with
        state := if t.state = .running then .ready else t.state
        context := sp }, true)

/-- `reflex_sched_delete_task`: the statics, the stacks freed, and whether it switches. -/
def schedDeleteTask (sp tcb : Option ℕ) (S : Statics) : Statics × List ℕ × Bool :=
  if tcb = none ∨ tcb = S.current then
    match S.current with
    | none => (S, [], false)
    | some i =>
      let yielded := schedYield sp (S.setTask i (S.tasks i).retired)
      (yielded.1, [], yielded.2)
  else
    match tcb with
    | none => (S, [], false)
    | some i =>
      let S := S.setTask i (S.tasks i).retired
      if S.started then (S, [], false)
      else
        let reaped := schedReap [i] S.tasks
        ({ S with tasks := reaped.1 }, reaped.2, false)

def schedSetPriority (i : ℕ) (priority : ℤ) (S : Statics) : Statics :=
  S.setTask i { S.tasks i with priority := priority }

/-- One probe of the scan. -/
def selectProbe (tasks : ℕ → Task) (count begin : ℕ) (best : Option ℕ) (i : ℕ) : Option ℕ :=
  let idx := (begin + i) % count
  if (tasks idx).state ≠ .ready then best
  else
    match best with
    | none => some idx
    | some b => if (tasks b).priority < (tasks idx).priority then some idx else best

/-- `reflex_sched_select`; the remainder is that of C. -/
def schedSelect (tasks : ℕ → Task) (count : ℕ) (start : ℤ) : Option ℕ :=
  if count = 0 then none
  else
    let begin := start.tmod count
    let begin := if begin < 0 then begin + count else begin
    (List.range count).foldl (selectProbe tasks count begin.toNat) none

/-- `(int32_t)(now - deadline) >= 0`. -/
def tickReached (now deadline : ℕ) : Bool :=
  decide ((now + 2 ^ 32 - deadline) % 2 ^ 32 < 2 ^ 31)

def shouldTimeWake (t : Task) (now : ℕ) : Bool :=
  decide (t.state = .blocked) && t.wakeDeadlineValid && tickReached now t.wakeTick

def Task.woken (t : Task) : Task :=
  { t with blockedOn := none, wakeDeadlineValid := false, state := .ready }

/-- The sweep of `pick_next`. -/
def sweep (now : ℕ) (tasks : ℕ → Task) : ℕ → Task :=
  fun i => if i < schedMaxTasks && shouldTimeWake (tasks i) now then (tasks i).woken else tasks i

/-- Where the scan of a decision starts. -/
def afterCurrent : Option ℕ → ℤ
  | none => 0
  | some i => i + 1

/-- `pick_next`: the statics, the stacks freed, and the slot chosen. -/
def pickNext (S : Statics) : Statics × List ℕ × Option ℕ :=
  let reaped := schedReap (List.range schedMaxTasks) S.tasks
  let current := S.current.filter fun i => !decide ((reaped.1 i).state = .free)
  let tasks := sweep S.tickCount reaped.1
  ({ S with tasks := tasks, current := current }, reaped.2,
    schedSelect tasks schedMaxTasks (afterCurrent current))

/-- The task chosen becomes the current one and runs, from its entry or its context. -/
def dispatch (i : ℕ) (S : Statics) : Statics :=
  { S.setTask i { S.tasks i with state := .running, started := true } with current := some i }

def msToTicks (ms : ℕ) : ℕ := min (ms * schedTickHz / 1000) (2 ^ 32 - 1)

/-- `reflex_sched_delay_ms` up to the switch; whether it switches. -/
def schedDelayMs (sp : Option ℕ) (ms : ℕ) (S : Statics) : Statics × Bool :=
  match S.current with
  | none => (S, false)
  | some i =>
    if !S.started then (S, false)
    else
      let ticks := if msToTicks ms = 0 then 1 else msToTicks ms
      schedYield sp (S.setTask i { S.tasks i with
        wakeTick := (S.tickCount + ticks) % 2 ^ 32
        wakeDeadlineValid := true
        state := .blocked })

def wakeOneWaiter (q : ℕ) (tasks : ℕ → Task) : ℕ → Task :=
  match (List.range schedMaxTasks).find? fun i =>
    decide ((tasks i).state = .blocked) && decide ((tasks i).blockedOn = some q) with
  | none => tasks
  | some i => Function.update tasks i (tasks i).woken

/-- The locals of `queue_wait`. -/
structure WaitCall where
  queue : ℕ
  forever : Bool
  deadline : ℕ
deriving DecidableEq

def queueWaitBegin (q timeoutMs : ℕ) (S : Statics) : WaitCall :=
  let forever := decide (timeoutMs = schedWaitForever)
  ⟨q, forever, if forever then 0 else (S.tickCount + msToTicks timeoutMs) % 2 ^ 32⟩

/-- One pass through the loop of `queue_wait`, `done` being what the queue answered: the
statics, and the result, or nothing when the caller is parked. -/
def queueWaitPass (sp : Option ℕ) (call : WaitCall) (done : Bool) (S : Statics) :
    Statics × Option Err :=
  if done then ({ S with tasks := wakeOneWaiter call.queue S.tasks }, some Err.ok)
  else
    match S.current with
    | none => (S, some Err.timeout)
    | some i =>
      if !S.started then (S, some Err.timeout)
      else if !call.forever && tickReached S.tickCount call.deadline then (S, some Err.timeout)
      else
        let parked := schedYield sp (S.setTask i { S.tasks i with
          blockedOn := some call.queue
          wakeTick := call.deadline
          wakeDeadlineValid := !call.forever
          state := .blocked })
        (parked.1, none)

/-- What `queue_wait` does when its caller is back on the processor. -/
def queueWaitResume (i : ℕ) (S : Statics) : Statics :=
  S.setTask i { S.tasks i with blockedOn := none, wakeDeadlineValid := false }

/-- A zeroed slot. -/
def zeroTask : Task := ⟨none, .free, 0, 0, [], none, 0, none, 0, false, none, false⟩

/-- The statics as `reflex_sched_init` leaves them before it creates the idle task. -/
def staticsAtInit : Statics := ⟨fun _ => zeroTask, none, 0, false⟩

end ReflexOS.Sched
