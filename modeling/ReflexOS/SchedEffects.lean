import Mathlib.Tactic.Common
import ReflexOS.SchedMachine
import ReflexOS.SchedSelect

set_option autoImplicit false

/-!
# What each call of the scheduler does

The invariant of the slots, and the effects of the calls of a running task or of the boot code.
-/
namespace ReflexOS.Sched
open Kernel Runs Allocations

/-- What every slot satisfies. -/
structure SlotSound (M : Machine) (i : ℕ) (t : Task) : Prop where
  free : t.state = .free →
    t.stackBase = none ∧ t.started = false ∧ t.blockedOn = none ∧ t.wakeDeadlineValid = false
  owned : t.state ≠ .free → ∃ s, t.stackBase = some s
  unmarked : t.state = .ready ∨ t.state = .running →
    t.blockedOn = none ∧ t.wakeDeadlineValid = false
  unstarted : t.started = false → t.state ≠ .blocked ∧ t.state ≠ .running ∧
    ∀ s, t.stackBase = some s → M.waits (some s) = none
  saved : t.state = .ready ∨ t.state = .blocked → t.started = true → t.context = t.stackBase
  owner : t.started = true → ∀ s, t.stackBase = some s → M.owner s = i
  running : t.state = .running → M.sp = t.stackBase ∧ M.statics.current = some i

/-- The invariant of the scheduler. -/
structure Machine.Sound (M : Machine) : Prop where
  ledger : M.ledger.Sound
  slot : ∀ i, SlotSound M i (M.statics.tasks i)
  beyond : ∀ i, schedMaxTasks ≤ i → (M.statics.tasks i).state = .free
  onTask : ∀ s, M.sp = some s →
    ∃ i, M.statics.current = some i ∧ (M.statics.tasks i).state = .running
  boot : M.statics.started = false → M.sp = none ∧ M.statics.current = none
  fresh : ∀ s, M.issued ≤ s → M.waits (some s) = none

/-- A slot stays sound while what it refers to stays. -/
lemma SlotSound.mono {M M' : Machine} {i : ℕ} {t : Task} (h : SlotSound M i t)
    (owner : t.started = true → ∀ s, t.stackBase = some s → M'.owner s = M.owner s)
    (waits : t.started = false → ∀ s, t.stackBase = some s → M'.waits (some s) = M.waits (some s))
    (running : t.state = .running →
      M'.sp = M.sp ∧ M'.statics.current = M.statics.current) : SlotSound M' i t where
  free := h.free
  owned := h.owned
  unmarked := h.unmarked
  unstarted := fun off => ⟨(h.unstarted off).1, (h.unstarted off).2.1, fun s base =>
    (waits off s base).trans ((h.unstarted off).2.2 s base)⟩
  saved := h.saved
  owner := fun on s base => (owner on s base).trans (h.owner on s base)
  running := fun state => ⟨(running state).1.trans (h.running state).1,
    (running state).2.trans (h.running state).2⟩

lemma SlotSound.dead {M : Machine} {i : ℕ} {t : Task} (slot : SlotSound M i t)
    (owned : ∃ s, t.stackBase = some s) (context : Option ℕ) :
    SlotSound M i { t.retired with context := context } where
  free := fun state => by simp [Task.retired] at state
  owned := fun _ => owned
  unmarked := fun state => by simp [Task.retired] at state
  unstarted := fun off => ⟨by simp [Task.retired], by simp [Task.retired],
    (slot.unstarted off).2.2⟩
  saved := fun state => by simp [Task.retired] at state
  owner := slot.owner
  running := fun state => by simp [Task.retired] at state

lemma SlotSound.reaped (M : Machine) (i : ℕ) (t : Task) : SlotSound M i t.reaped where
  free := fun _ => ⟨rfl, rfl, rfl, rfl⟩
  owned := fun state => by simp [Task.reaped] at state
  unmarked := fun _ => ⟨rfl, rfl⟩
  unstarted := fun _ => ⟨by simp [Task.reaped], by simp [Task.reaped], fun s base => by
    simp [Task.reaped] at base⟩
  saved := fun state => by simp [Task.reaped] at state
  owner := fun on => by simp [Task.reaped] at on
  running := fun state => by simp [Task.reaped] at state

lemma SlotSound.woken {M : Machine} {i : ℕ} {t : Task} (slot : SlotSound M i t)
    (blocked : t.state = .blocked) : SlotSound M i t.woken where
  free := fun state => by simp [Task.woken] at state
  owned := fun _ => slot.owned (by simp [blocked])
  unmarked := fun _ => ⟨rfl, rfl⟩
  unstarted := fun off => absurd blocked (slot.unstarted off).1
  saved := fun _ on => slot.saved (.inr blocked) on
  owner := slot.owner
  running := fun state => by simp [Task.woken] at state

/-- The task that is executing. -/
structure Machine.On (M : Machine) (i s : ℕ) : Prop where
  sp : M.sp = some s
  current : M.statics.current = some i
  state : (M.statics.tasks i).state = .running
  base : (M.statics.tasks i).stackBase = some s
  began : (M.statics.tasks i).started = true
  started : M.statics.started = true
  owner : M.owner s = i
  lt : i < schedMaxTasks

section Sound
variable {M : Machine} (h : M.Sound)
include h

lemma Machine.Sound.on {s : ℕ} (sp : M.sp = some s) : ∃ i, M.On i s := by
  obtain ⟨i, current, state⟩ := h.onTask s sp
  have base : (M.statics.tasks i).stackBase = some s := by rw [← ((h.slot i).running state).1, sp]
  have began : (M.statics.tasks i).started = true := by
    cases began : (M.statics.tasks i).started with
    | true => rfl
    | false => exact absurd state ((h.slot i).unstarted began).2.1
  have started : M.statics.started = true := by
    cases started : M.statics.started with
    | true => rfl
    | false => exact absurd (h.boot started).1 (by simp [sp])
  refine ⟨i, sp, current, state, base, began, started, (h.slot i).owner began s base, ?_⟩
  by_contra above
  exact absurd (h.beyond i (by omega)) (by simp [state])

/-- The boot code executes, or a task does. -/
lemma Machine.Sound.executing (executing : M.Executing) :
    (M.statics.started = false ∧ M.sp = none ∧ M.statics.current = none) ∨ ∃ i s, M.On i s := by
  rcases executing with off | on
  · exact .inl ⟨off, h.boot off⟩
  · obtain ⟨s, sp⟩ := Option.ne_none_iff_exists'.1 on
    obtain ⟨i, on⟩ := h.on sp
    exact .inr ⟨i, s, on⟩

/-- Only the executing task is RUNNING. -/
lemma Machine.Sound.running_eq {i s j : ℕ} (on : M.On i s)
    (state : (M.statics.tasks j).state = .running) : j = i := by
  have := ((h.slot j).running state).2
  rw [on.current, Option.some.injEq] at this
  exact this.symm

/-- With nobody executing, no slot is RUNNING. -/
lemma Machine.Sound.not_running (off : M.sp = none) (j : ℕ) :
    (M.statics.tasks j).state ≠ .running := by
  intro state
  obtain ⟨s, base⟩ := (h.slot j).owned (by simp [state])
  have := ((h.slot j).running state).1
  simp [off, base] at this

lemma Machine.Sound.ledger_setTask {i : ℕ} {t : Task}
    (base : t.stackBase = (M.statics.tasks i).stackBase) :
    (Ledger.mk (fun j => ((M.statics.setTask i t).tasks j).stackBase) M.issued M.freed).Sound := by
  have same : (fun j => ((M.statics.setTask i t).tasks j).stackBase) =
      fun j => (M.statics.tasks j).stackBase := by
    funext j
    by_cases eq : j = i
    · subst eq
      rw [M.statics.setTask_self, base]
    · rw [M.statics.setTask_ne t eq]
  rw [same]
  exact h.ledger

lemma Machine.Sound.replace {i : ℕ} {t : Task} {issued : ℕ} {freed : List ℕ}
    (lt : i < schedMaxTasks) (idle : (M.statics.tasks i).state ≠ .running)
    (le : M.issued ≤ issued) (sound : SlotSound M i t)
    (ledger : (Ledger.mk (fun j => ((M.statics.setTask i t).tasks j).stackBase)
      issued freed).Sound) :
    Machine.Sound { M with
      statics := M.statics.setTask i t, issued := issued, freed := freed } where
  ledger := ledger
  slot := by
    intro j
    by_cases eq : j = i
    · subst eq
      exact (M.statics.setTask_self j t).symm ▸
        sound.mono (fun _ _ _ => rfl) (fun _ _ _ => rfl) fun _ => ⟨rfl, rfl⟩
    · exact (M.statics.setTask_ne t eq).symm ▸
        (h.slot j).mono (fun _ _ _ => rfl) (fun _ _ _ => rfl) fun _ => ⟨rfl, rfl⟩
  beyond := fun j above => by
    have ne : j ≠ i := by omega
    exact (M.statics.setTask_ne t ne).symm ▸ h.beyond j above
  onTask := fun s sp => by
    obtain ⟨j, current, state⟩ := h.onTask s sp
    have ne : j ≠ i := fun eq => idle (eq ▸ state)
    exact ⟨j, current, (M.statics.setTask_ne t ne).symm ▸ state⟩
  boot := h.boot
  fresh := fun s above => h.fresh s (le.trans above)

/-- A slot that is not RUNNING changes, keeping its stack. -/
lemma Machine.Sound.change {i : ℕ} {t : Task} (lt : i < schedMaxTasks)
    (idle : (M.statics.tasks i).state ≠ .running)
    (base : t.stackBase = (M.statics.tasks i).stackBase) (sound : SlotSound M i t) :
    Machine.Sound { M with statics := M.statics.setTask i t } :=
  h.replace lt idle le_rfl sound (h.ledger_setTask base)

lemma Machine.Sound.leave {i s : ℕ} (on : M.On i s) {t : Task} (due : ℕ → Option ℕ)
    (base : t.stackBase = some s) (idle : t.state ≠ .running) (sound : SlotSound M i t) :
    Machine.Sound { M with statics := M.statics.setTask i t, sp := none, due := due } where
  ledger := h.ledger_setTask (base.trans on.base.symm)
  slot := by
    intro j
    by_cases eq : j = i
    · subst eq
      exact (M.statics.setTask_self j t).symm ▸
        sound.mono (fun _ _ _ => rfl) (fun _ _ _ => rfl) fun state => absurd state idle
    · exact (M.statics.setTask_ne t eq).symm ▸ (h.slot j).mono
        (fun _ _ _ => rfl) (fun _ _ _ => rfl) fun state => absurd (h.running_eq on state) eq
  beyond := fun j above => by
    have ne : j ≠ i := fun eq => absurd on.lt (by omega)
    exact (M.statics.setTask_ne t ne).symm ▸ h.beyond j above
  onTask := fun s sp => absurd sp (by simp)
  boot := fun off => absurd (on.started.symm.trans off) (by decide)
  fresh := h.fresh

end Sound

/-- Either nothing is created, or a FREE slot takes the stack that the heap gave. -/
lemma schedCreateTask_cases (req : TaskRequest) (malloc : Option ℕ) (S : Statics) :
    (∃ e, e ≠ Err.ok ∧ schedCreateTask req malloc S = (e, none, S)) ∨
    ∃ i stack, malloc = some stack ∧ i < schedMaxTasks ∧ (S.tasks i).state = .free ∧
      schedCreateTask req malloc S =
        (Err.ok, some i, S.setTask i ((S.tasks i).create req stack)) := by
  unfold schedCreateTask
  by_cases entry : req.entry = none
  · exact .inl ⟨Err.invalidArg, by decide, if_pos entry⟩
  rw [if_neg entry]
  cases slot : findFreeSlot S.tasks with
  | none => exact .inl ⟨Err.noMem, by decide, rfl⟩
  | some i =>
    cases malloc with
    | none => exact .inl ⟨Err.noMem, by decide, rfl⟩
    | some stack =>
      have lt := List.mem_range.1 (List.mem_of_find?_eq_some slot)
      have free := List.find?_some slot
      exact .inr ⟨i, stack, rfl, lt, of_decide_eq_true free, rfl⟩

/-- A yield of the current task, once the scheduler runs. -/
lemma schedYield_current (sp : Option ℕ) {S : Statics} {i : ℕ} (started : S.started = true)
    (current : S.current = some i) :
    schedYield sp S = (S.setTask i { S.tasks i with
      state := if (S.tasks i).state = .running then .ready else (S.tasks i).state
      context := sp }, true) := by
  simp [schedYield, started, current]

/-- One waiter is made ready, or nobody waits. -/
lemma wakeOneWaiter_cases (q : ℕ) (tasks : ℕ → Task) :
    wakeOneWaiter q tasks = tasks ∨ ∃ i < schedMaxTasks, (tasks i).state = .blocked ∧
      (tasks i).blockedOn = some q ∧
      wakeOneWaiter q tasks = Function.update tasks i (tasks i).woken := by
  unfold wakeOneWaiter
  cases found : (List.range schedMaxTasks).find? fun i =>
    decide ((tasks i).state = .blocked) && decide ((tasks i).blockedOn = some q) with
  | none => exact .inl rfl
  | some i =>
    have waiting := List.find?_some found
    simp only [Bool.and_eq_true, decide_eq_true_eq] at waiting
    exact .inr ⟨i, List.mem_range.1 (List.mem_of_find?_eq_some found), waiting.1, waiting.2, rfl⟩

section On
variable {M : Machine} {i s : ℕ} (on : M.On i s)
include on

lemma Machine.On.parked {t : Task}
    (state : t.state = .ready ∨ t.state = .blocked) (base : t.stackBase = some s)
    (context : t.context = M.sp) (began : t.started = true)
    (marks : t.state = .ready → t.blockedOn = none ∧ t.wakeDeadlineValid = false) :
    SlotSound M i t where
  free := fun eq => by simp [eq] at state
  owned := fun _ => ⟨s, base⟩
  unmarked := fun eq => marks (eq.resolve_right fun eq => by simp [eq] at state)
  unstarted := fun off => absurd (off.symm.trans began) (by decide)
  saved := fun _ _ => by rw [context, on.sp, base]
  owner := fun _ s' base' => by
    rw [base, Option.some.injEq] at base'
    rw [← base', on.owner]
  running := fun eq => by simp [eq] at state

/-- What `reflex_sched_yield` does for the executing task. -/
lemma Machine.On.yield : M.yield = { M with
    statics := M.statics.setTask i { M.statics.tasks i with state := .ready, context := M.sp }
    sp := none } := by
  simp [Machine.yield, schedYield_current M.sp on.started on.current, on.state]

/-- What `reflex_sched_delay_ms` does for the executing task. -/
lemma Machine.On.delay (ms : ℕ) : M.delay ms = { M with
    statics := M.statics.setTask i { M.statics.tasks i with
      wakeTick := (M.statics.tickCount + max 1 (msToTicks ms)) % 2 ^ 32
      wakeDeadlineValid := true
      state := .blocked
      context := M.sp }
    sp := none
    due := Function.update M.due i (some (M.now + max 1 (msToTicks ms))) } := by
  have ticks : (if msToTicks ms = 0 then 1 else msToTicks ms) = max 1 (msToTicks ms) := by
    split <;> omega
  simp [Machine.delay, schedDelayMs, on.current, on.started, ticks, Machine.ask,
    schedYield_current M.sp (S := M.statics.setTask i _) on.started on.current]

lemma Machine.On.deleteSelf {tcb : Option ℕ} (self : tcb = none ∨ tcb = some i) :
    M.delete tcb = { M with
      statics := M.statics.setTask i { (M.statics.tasks i).retired with context := M.sp }
      sp := none } := by
  simp [Machine.delete, schedDeleteTask, on.current, self, Task.retired,
    schedYield_current M.sp (S := M.statics.setTask i _) on.started on.current]

lemma Machine.On.deleteOther {j : ℕ} (ne : j ≠ i) : M.delete (some j) = { M with
    statics := M.statics.setTask j (M.statics.tasks j).retired } := by
  simp [Machine.delete, schedDeleteTask, on.current, ne, on.started]

lemma Machine.On.finish : M.finish = { M with
    statics := M.statics.setTask i (M.statics.tasks i).retired, sp := none } := by
  simp [Machine.finish, on.sp, on.owner]

/-- A pass that fails parks its caller, or its deadline has been reached. -/
lemma Machine.On.attemptFails {w : Wait} (waits : M.waits M.sp = some w) :
    (w.call.forever = false ∧ tickReached M.statics.tickCount w.call.deadline = true ∧
      M.report false = some Err.timeout ∧
      M.attempt false = { M with waits := Function.update M.waits M.sp none }) ∨
    ((w.call.forever = true ∨ tickReached M.statics.tickCount w.call.deadline = false) ∧
      M.report false = none ∧
      M.attempt false = { M with
        statics := M.statics.setTask i { M.statics.tasks i with
          blockedOn := some w.call.queue
          wakeTick := w.call.deadline
          wakeDeadlineValid := !w.call.forever
          state := .blocked
          context := M.sp }
        sp := none
        due := Function.update M.due i w.due }) := by
  cases forever : w.call.forever <;>
    cases reached : tickReached M.statics.tickCount w.call.deadline
  case false.true =>
    refine .inl ⟨rfl, rfl, ?_, ?_⟩ <;>
      simp [Machine.report, Machine.attempt, waits, queueWaitPass, on.current, on.started,
        forever, reached]
  all_goals
    refine .inr ⟨by simp, ?_, ?_⟩ <;>
      simp [Machine.report, Machine.attempt, waits, queueWaitPass, on.current, on.started,
        forever, reached, Machine.ask,
        schedYield_current M.sp (S := M.statics.setTask i _) on.started on.current]

end On

lemma Machine.attemptSucceeds {M : Machine} {w : Wait} (waits : M.waits M.sp = some w) :
    M.report true = some Err.ok ∧ M.attempt true = { M with
      statics := { M.statics with tasks := wakeOneWaiter w.call.queue M.statics.tasks }
      waits := Function.update M.waits M.sp none } := by
  simp [Machine.report, Machine.attempt, waits, queueWaitPass]

/-- Before any task runs, a pass that fails returns. -/
lemma Machine.attemptBoot {M : Machine} {w : Wait} (waits : M.waits M.sp = some w)
    (current : M.statics.current = none) :
    M.report false = some Err.timeout ∧
      M.attempt false = { M with waits := Function.update M.waits M.sp none } := by
  simp [Machine.report, Machine.attempt, waits, queueWaitPass, current]

/-- How the executing task gives the processor away. -/
structure Machine.Leaves (M : Machine) (a : Act) (i s : ℕ) (t : Task) (due : ℕ → Option ℕ) :
    Prop where
  on : M.On i s
  base : t.stackBase = some s
  idle : t.state ≠ .running
  sound : SlotSound M i t
  others : ∀ j ≠ i, due j = M.due j
  mark : t.state = .blocked →
    (∃ ms, a = .delay ms ∧ t.wakeDeadlineValid = true ∧
      t.wakeTick = (M.statics.tickCount + max 1 (msToTicks ms)) % 2 ^ 32 ∧
      due i = some (M.now + max 1 (msToTicks ms))) ∨
    ∃ w, M.waits M.sp = some w ∧ t.wakeDeadlineValid = (!w.call.forever) ∧
      t.wakeTick = w.call.deadline ∧ due i = w.due

/-- Everything that a step can do. -/
inductive Machine.Does (M : Machine) : Act → Machine → Prop where
  | tick : M.Does .tick M.tick
  | start : M.Does .start M.start
  | schedule (started : M.statics.started = true) (off : M.sp = none) :
      M.Does .schedule M.schedule
  | nothing {a : Act} : M.Does a M
  | create {req : TaskRequest} {memory : Bool} {i : ℕ} (lt : i < schedMaxTasks)
      (free : (M.statics.tasks i).state = .free) :
      M.Does (.create req memory) { M with
        statics := M.statics.setTask i ((M.statics.tasks i).create req M.issued)
        issued := M.issued + 1 }
  | deleteBoot {i : ℕ} (off : M.statics.started = false) (live : M.Live i) :
      M.Does (.delete (some i)) { M with
        statics := M.statics.setTask i (M.statics.tasks i).retired.reaped
        freed := M.freed ++ (M.statics.tasks i).stackBase.toList }
  | deleteOther {i j s : ℕ} (on : M.On j s) (ne : i ≠ j) (live : M.Live i) :
      M.Does (.delete (some i)) { M with
        statics := M.statics.setTask i (M.statics.tasks i).retired }
  | setPriority {i : ℕ} {priority : ℤ} (lt : i < schedMaxTasks) :
      M.Does (.setPriority i priority) { M with
        statics := schedSetPriority i priority M.statics }
  | leave {a : Act} {i s : ℕ} {t : Task} {due : ℕ → Option ℕ} (leaves : M.Leaves a i s t due) :
      M.Does a { M with statics := M.statics.setTask i t, sp := none, due := due }
  | wait {queue timeoutMs : ℕ} : M.Does (.wait queue timeoutMs) (M.wait queue timeoutMs)
  | answer {done : Bool} :
      M.Does (.attempt done) { M with waits := Function.update M.waits M.sp none }
  | wake {i q : ℕ} (lt : i < schedMaxTasks) (blocked : (M.statics.tasks i).state = .blocked)
      (waits : (M.statics.tasks i).blockedOn = some q) :
      M.Does (.attempt true) { M with
        statics := M.statics.setTask i (M.statics.tasks i).woken
        waits := Function.update M.waits M.sp none }

section Does
variable {M : Machine} (h : M.Sound)
include h

/-- Deleting at boot collects the slot at once. -/
lemma Machine.Sound.deleteBoot {i : ℕ} (off : M.statics.started = false) (live : M.Live i) :
    M.delete (some i) = { M with
      statics := M.statics.setTask i (M.statics.tasks i).retired.reaped
      freed := M.freed ++ (M.statics.tasks i).stackBase.toList } := by
  obtain ⟨sp, current⟩ := h.boot off
  obtain ⟨s, base⟩ := (h.slot i).owned live.2.1
  have tasks : (schedReap [i] (M.statics.setTask i (M.statics.tasks i).retired).tasks).1 =
      (M.statics.setTask i (M.statics.tasks i).retired.reaped).tasks := by
    funext j
    by_cases eq : j = i
    · subst eq
      simp [schedReap, Task.retired]
    · simp [schedReap, eq, M.statics.setTask_ne _ eq]
  simp only [Machine.delete, schedDeleteTask, current, sp, reduceCtorEq, or_self, if_false,
    Statics.setTask_started, off, Bool.false_eq_true, tasks]
  simp [schedReap, Statics.setTask, Task.retired, base, current, off]

lemma Machine.Sound.doesDelete {tcb : Option ℕ} (calling : M.Calling)
    (live : ∀ i, tcb = some i → M.Live i) : M.Does (.delete tcb) (M.delete tcb) := by
  rcases h.executing calling.1 with ⟨off, sp, current⟩ | ⟨i, s, on⟩
  · cases tcb with
    | none =>
      have eq : M.delete none = M := by simp [Machine.delete, schedDeleteTask, current]
      rw [eq]
      exact .nothing
    | some j =>
      rw [h.deleteBoot off (live j rfl)]
      exact .deleteBoot off (live j rfl)
  by_cases self : tcb = none ∨ tcb = some i
  · rw [on.deleteSelf self]
    exact .leave ⟨on, on.base, by simp [Task.retired], (h.slot i).dead ⟨s, on.base⟩ _,
      fun _ _ => rfl, fun state => by simp [Task.retired] at state⟩
  · obtain ⟨j, rfl⟩ := Option.ne_none_iff_exists'.1 fun none => self (.inl none)
    have ne : j ≠ i := fun eq => self (.inr (by rw [eq]))
    rw [on.deleteOther ne]
    exact .deleteOther on ne (live j rfl)

lemma Machine.Sound.doesAttempt (executing : M.Executing) {w : Wait}
    (waits : M.waits M.sp = some w) (done : Bool) :
    M.Does (.attempt done) (M.attempt done) := by
  cases done with
  | true =>
    rw [(Machine.attemptSucceeds waits).2]
    rcases wakeOneWaiter_cases w.call.queue M.statics.tasks with
      eq | ⟨i, lt, blocked, on, eq⟩ <;> rw [eq]
    · exact .answer
    · exact .wake lt blocked on
  | false =>
    rcases h.executing executing with ⟨off, sp, current⟩ | ⟨i, s, on⟩
    · rw [(Machine.attemptBoot waits current).2]
      exact .answer
    rcases on.attemptFails waits with ⟨-, -, -, eq⟩ | ⟨-, -, eq⟩ <;> rw [eq]
    · exact .answer
    · exact .leave ⟨on, on.base, by simp,
        on.parked (.inr rfl) on.base rfl on.began fun state => by simp at state,
        fun _ ne => Function.update_of_ne ne ..,
        fun _ => .inr ⟨w, waits, rfl, rfl, Function.update_self ..⟩⟩

/-- Each call does one of these. -/
lemma Machine.Sound.does {a : Act} (enabled : M.Enabled a) : M.Does a (M.step a) := by
  cases a with
  | tick => exact .tick
  | start => exact .start
  | schedule => exact .schedule enabled.1 enabled.2
  | create req memory =>
    rcases schedCreateTask_cases req (if memory then some M.issued else none) M.statics with
      ⟨e, failed, eq⟩ | ⟨i, stack, malloc, lt, free, eq⟩
    · rw [show M.step (.create req memory) = M by simp [Machine.step, Machine.create, eq, failed]]
      exact .nothing
    · have stackEq : stack = M.issued := by
        cases memory <;> simp_all
      subst stackEq
      simp only [Machine.step, Machine.create, eq, if_pos]
      exact .create lt free
  | delete tcb => exact h.doesDelete enabled.1 enabled.2
  | setPriority i priority => exact .setPriority enabled.2
  | yield =>
    rcases h.executing enabled.1 with ⟨off, -⟩ | ⟨i, s, on⟩
    · rw [show M.step .yield = M by simp [Machine.step, Machine.yield, schedYield, off]]
      exact .nothing
    rw [show M.step .yield = _ from on.yield]
    exact .leave ⟨on, on.base, by simp,
      on.parked (.inl rfl) on.base rfl on.began fun _ => (h.slot i).unmarked (.inr on.state),
      fun _ _ => rfl, fun state => by simp at state⟩
  | delay ms =>
    rcases h.executing enabled.1 with ⟨-, -, current⟩ | ⟨i, s, on⟩
    · rw [show M.step (.delay ms) = M by simp [Machine.step, Machine.delay, schedDelayMs, current]]
      exact .nothing
    rw [show M.step (.delay ms) = _ from on.delay ms]
    exact .leave ⟨on, on.base, by simp,
      on.parked (.inr rfl) on.base rfl on.began fun state => by simp at state,
      fun _ ne => Function.update_of_ne ne ..,
      fun _ => .inl ⟨ms, rfl, rfl, rfl, Function.update_self ..⟩⟩
  | wait queue timeoutMs => exact .wait
  | attempt done =>
    obtain ⟨w, waits⟩ := Option.ne_none_iff_exists'.1 enabled.2
    exact h.doesAttempt enabled.1 waits done
  | finish =>
    obtain ⟨s, sp⟩ := Option.ne_none_iff_exists'.1 enabled.2
    obtain ⟨i, on⟩ := h.on sp
    rw [show M.step .finish = _ from on.finish]
    exact .leave ⟨on, on.base, by simp [Task.retired],
      (h.slot i).dead ⟨s, on.base⟩ (M.statics.tasks i).context, fun _ _ => rfl,
      fun state => by simp [Task.retired] at state⟩

end Does

end ReflexOS.Sched
