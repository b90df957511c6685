import ReflexOS.Ledger
import ReflexOS.Runs
import ReflexOS.SchedTasks

set_option autoImplicit false

/-!
# The scheduler running

The boot code, the scheduler loop, the tasks and the tick take turns on the statics. Real time
and real deadlines are kept beside them, for reference.
-/
namespace ReflexOS.Sched
open Kernel Runs Allocations

/-- A `queue_wait` in progress, with the real tick of its deadline. -/
structure Wait where
  call : WaitCall
  due : Option ℕ

/-- `sp` is the stack that execution stands on, none being that of the boot code and the loop.
`owner` is `next` in the frame that called the entry on a stack. -/
structure Machine where
  statics : Statics
  sp : Option ℕ
  owner : ℕ → ℕ
  waits : Option ℕ → Option Wait
  issued : ℕ
  freed : List ℕ
  now : ℕ
  lastSweep : ℕ
  due : ℕ → Option ℕ

inductive Act where
  | tick
  | start
  | schedule
  | create (req : TaskRequest) (memory : Bool)
  | delete (tcb : Option ℕ)
  | setPriority (i : ℕ) (priority : ℤ)
  | yield
  | delay (ms : ℕ)
  | wait (queue timeoutMs : ℕ)
  | attempt (done : Bool)
  | finish

namespace Machine

def boot : Machine where
  statics := staticsAtInit
  sp := none
  owner := fun _ => 0
  waits := fun _ => none
  issued := 0
  freed := []
  now := 0
  lastSweep := 0
  due := fun _ => none

def tick (M : Machine) : Machine :=
  { M with
    statics := { M.statics with tickCount := (M.statics.tickCount + 1) % 2 ^ 32 }
    now := M.now + 1 }

/-- `reflex_sched_start` up to its loop, the tick having been routed. -/
def start (M : Machine) : Machine :=
  { M with statics := { M.statics with started := true }, lastSweep := M.now }

/-- The task chosen runs: its entry on its own stack, or from the context it saved. -/
def switchTo (i : ℕ) (M : Machine) : Machine :=
  let t := M.statics.tasks i
  let M := { M with statics := dispatch i M.statics }
  if t.started then
    if (M.waits t.context).isSome then
      { M with statics := queueWaitResume i M.statics, sp := t.context }
    else { M with sp := t.context }
  else
    { M with
      sp := t.stackBase
      owner := t.stackBase.elim M.owner fun s => Function.update M.owner s i }

/-- The statics after the part of `pick_next` before the scan. -/
def swept (M : Machine) : Machine :=
  { M with
    statics := (pickNext M.statics).1
    freed := M.freed ++ (pickNext M.statics).2.1
    lastSweep := M.now }

/-- One turn of the scheduler loop. -/
def schedule (M : Machine) : Machine :=
  match (pickNext M.statics).2.2 with
  | none => M.swept
  | some i => M.swept.switchTo i

def create (req : TaskRequest) (memory : Bool) (M : Machine) : Machine :=
  let made := schedCreateTask req (if memory then some M.issued else none) M.statics
  { M with
    statics := made.2.2
    issued := if made.1 = Err.ok then M.issued + 1 else M.issued }

def delete (tcb : Option ℕ) (M : Machine) : Machine :=
  let deleted := schedDeleteTask M.sp tcb M.statics
  { M with
    statics := deleted.1
    freed := M.freed ++ deleted.2.1
    sp := if deleted.2.2 then none else M.sp }

def yield (M : Machine) : Machine :=
  let yielded := schedYield M.sp M.statics
  { M with statics := yielded.1, sp := if yielded.2 then none else M.sp }

/-- What the current task asks of the clock. -/
def ask (due : Option ℕ) (M : Machine) : ℕ → Option ℕ :=
  M.statics.current.elim M.due fun i => Function.update M.due i due

def delay (ms : ℕ) (M : Machine) : Machine :=
  let delayed := schedDelayMs M.sp ms M.statics
  { M with
    statics := delayed.1
    sp := if delayed.2 then none else M.sp
    due := if delayed.2 then M.ask (some (M.now + max 1 (msToTicks ms))) else M.due }

/-- `queue_wait` is called. -/
def wait (queue timeoutMs : ℕ) (M : Machine) : Machine :=
  let due := if timeoutMs = schedWaitForever then none else some (M.now + msToTicks timeoutMs)
  { M with
    waits := Function.update M.waits M.sp
      (some ⟨queueWaitBegin queue timeoutMs M.statics, due⟩) }

/-- One pass through the loop of the `queue_wait` in progress. -/
def attempt (done : Bool) (M : Machine) : Machine :=
  match M.waits M.sp with
  | none => M
  | some w =>
    let pass := queueWaitPass M.sp w.call done M.statics
    match pass.2 with
    | some _ => { M with statics := pass.1, waits := Function.update M.waits M.sp none }
    | none => { M with statics := pass.1, sp := none, due := M.ask w.due }

/-- What that pass reports to the caller, if it returns. -/
def report (done : Bool) (M : Machine) : Option Err :=
  (M.waits M.sp).bind fun w => (queueWaitPass M.sp w.call done M.statics).2

/-- The entry returns. -/
def finish (M : Machine) : Machine :=
  match M.sp with
  | none => M
  | some s =>
    let i := M.owner s
    { M with statics := M.statics.setTask i (M.statics.tasks i).retired, sp := none }

def step (M : Machine) : Act → Machine
  | .tick => M.tick
  | .start => M.start
  | .schedule => M.schedule
  | .create req memory => M.create req memory
  | .delete tcb => M.delete tcb
  | .setPriority i priority => { M with statics := schedSetPriority i priority M.statics }
  | .yield => M.yield
  | .delay ms => M.delay ms
  | .wait queue timeoutMs => M.wait queue timeoutMs
  | .attempt done => M.attempt done
  | .finish => M.finish

/-- The boot code or a task is executing. -/
def Executing (M : Machine) : Prop := M.statics.started = false ∨ M.sp ≠ none

/-- It is executing, and not inside `queue_wait`. -/
def Calling (M : Machine) : Prop := M.Executing ∧ M.waits M.sp = none

/-- A slot that holds a task which has not been deleted. -/
def Live (M : Machine) (i : ℕ) : Prop :=
  i < schedMaxTasks ∧ (M.statics.tasks i).state ≠ .free ∧ (M.statics.tasks i).state ≠ .dead

/-- Who may act. Tasks delete tasks that are alive. -/
def Enabled (M : Machine) : Act → Prop
  | .tick => True
  | .start => M.statics.started = false ∧ M.waits none = none
  | .schedule => M.statics.started = true ∧ M.sp = none
  | .delete tcb => M.Calling ∧ ∀ i, tcb = some i → M.Live i
  | .setPriority i _ => M.Calling ∧ i < schedMaxTasks
  | .attempt _ => M.Executing ∧ M.waits M.sp ≠ none
  | .finish => M.Calling ∧ M.sp ≠ none
  | .create _ _ | .yield | .delay _ | .wait _ _ => M.Calling

def Step (M : Machine) (a : Act) (M' : Machine) : Prop := M.Enabled a ∧ M' = M.step a

/-- Who holds which stack. -/
def ledger (M : Machine) : Ledger ℕ :=
  ⟨fun i => (M.statics.tasks i).stackBase, M.issued, M.freed⟩

end Machine
end ReflexOS.Sched
