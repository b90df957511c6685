import ReflexOS.SchedSlots

set_option autoImplicit false

/-!
# Tasks by name and by priority

A task that is not deleted keeps its name, and its priority until it is set.
-/
namespace ReflexOS.Sched
open Kernel Runs

/-- A slot that holds a task which has not been deleted. -/
def Task.Alive (t : Task) : Prop := t.state ≠ .free ∧ t.state ≠ .dead

theorem Task.Alive.of_state {t : Task} {state : TaskState} (h : t.state = state)
    (hstate : state ≠ .free ∧ state ≠ .dead) : t.Alive := by
  subst h
  exact hstate

def schedFindIndex (tasks : ℕ → Task) (count : ℕ) (name : List UInt8) : Option ℕ :=
  (List.range count).find? fun i =>
    decide ((tasks i).state ≠ .free) && decide ((tasks i).state ≠ .dead) &&
      decide ((tasks i).name ≠ []) && decide ((tasks i).name = name)

def schedFindByName (name : List UInt8) (S : Statics) : Option ℕ :=
  schedFindIndex S.tasks schedMaxTasks name

def schedGetPriority (i : ℕ) (S : Statics) : ℤ := (S.tasks i).priority

/-- A task that is still there goes by its name at its priority. -/
structure Kept (t t' : Task) : Prop where
  alive : t'.Alive → t.Alive
  name : t'.Alive → t'.name = t.name
  priority : t'.Alive → t'.priority = t.priority

theorem Kept.refl (t : Task) : Kept t t := ⟨id, fun _ => rfl, fun _ => rfl⟩

theorem Kept.trans {t u w : Task} (h : Kept t u) (h' : Kept u w) : Kept t w :=
  ⟨fun hw => h.alive (h'.alive hw), fun hw => (h'.name hw).trans (h.name (h'.alive hw)),
    fun hw => (h'.priority hw).trans (h.priority (h'.alive hw))⟩

theorem Kept.gone {t t' : Task} (h : ¬ t'.Alive) : Kept t t' :=
  ⟨fun h' => absurd h' h, fun h' => absurd h' h, fun h' => absurd h' h⟩

/-- The tasks of a table are kept slot by slot. -/
def KeptAll (tasks tasks' : ℕ → Task) : Prop := ∀ i, Kept (tasks i) (tasks' i)

theorem KeptAll.refl (tasks : ℕ → Task) : KeptAll tasks tasks := fun i => .refl (tasks i)

theorem KeptAll.trans {tasks tasks' tasks'' : ℕ → Task} (h : KeptAll tasks tasks')
    (h' : KeptAll tasks' tasks'') : KeptAll tasks tasks'' := fun i => (h i).trans (h' i)

theorem KeptAll.setTask {S : Statics} {i : ℕ} {t : Task} (h : Kept (S.tasks i) t) :
    KeptAll S.tasks (S.setTask i t).tasks := by
  intro j
  by_cases hj : j = i
  · subst hj
    rw [S.setTask_self]
    exact h
  · rw [S.setTask_ne t hj]
    exact .refl _

theorem Task.retired_gone (t : Task) : ¬ t.retired.Alive := fun h => h.2 rfl

theorem Task.reaped_gone (t : Task) : ¬ t.reaped.Alive := fun h => h.1 rfl

theorem Task.woken_kept {t : Task} (h : t.state = .blocked) : Kept t t.woken :=
  ⟨fun _ => .of_state h (by decide), fun _ => rfl, fun _ => rfl⟩

theorem pickNext_kept (S : Statics) : KeptAll S.tasks (pickNext S).1.tasks := by
  intro i
  rcases pickNext_cases S i with ⟨-, -, heq⟩ | ⟨-, hwakes, heq⟩ | ⟨-, heq⟩
  · rw [heq]
    exact .gone (Task.reaped_gone _)
  · rw [heq]
    simp only [shouldTimeWake, Bool.and_eq_true, decide_eq_true_eq] at hwakes
    exact Task.woken_kept hwakes.1.1
  · rw [heq]
    exact .refl _

theorem Machine.switchTo_kept {M : Machine} {i : ℕ} (h : (M.statics.tasks i).Alive) :
    KeptAll M.statics.tasks (M.switchTo i).statics.tasks := by
  have hdispatch : KeptAll M.statics.tasks (dispatch i M.statics).tasks :=
    KeptAll.setTask ⟨fun _ => h, fun _ => rfl, fun _ => rfl⟩
  have hresume : KeptAll (dispatch i M.statics).tasks
      (queueWaitResume i (dispatch i M.statics)).tasks :=
    KeptAll.setTask ⟨id, fun _ => rfl, fun _ => rfl⟩
  unfold Machine.switchTo
  dsimp only
  split_ifs
  · exact hdispatch.trans hresume
  · exact hdispatch
  · exact hdispatch

theorem Machine.schedule_kept (M : Machine) :
    KeptAll M.statics.tasks M.schedule.statics.tasks := by
  have hswept : KeptAll M.statics.tasks M.swept.statics.tasks := pickNext_kept M.statics
  unfold Machine.schedule
  split
  · exact hswept
  next i hchosen =>
    apply hswept.trans
    apply Machine.switchTo_kept
    have hready : (M.swept.statics.tasks i).state = .ready := (pickNext_ready hchosen).2
    exact .of_state hready (by decide)

/-- What the executing task does to itself. -/
theorem Machine.On.kept {M : Machine} {i s : ℕ} (on : M.On i s) {t : Task}
    (hname : t.name = (M.statics.tasks i).name)
    (hpriority : t.priority = (M.statics.tasks i).priority) :
    KeptAll M.statics.tasks (M.statics.setTask i t).tasks := by
  apply KeptAll.setTask
  have halive : (M.statics.tasks i).Alive := .of_state on.state (by decide)
  exact ⟨fun _ => halive, fun _ => hname, fun _ => hpriority⟩

section Steps

variable {M : Machine} (h : M.Sound)
include h

theorem Machine.Sound.delete_kept {tcb : Option ℕ} (hcalling : M.Calling)
    (hlive : ∀ i, tcb = some i → M.Live i) :
    KeptAll M.statics.tasks (M.delete tcb).statics.tasks := by
  rcases h.executing hcalling.1 with ⟨hoff, -, hcurrent⟩ | ⟨i, s, on⟩
  · cases tcb with
    | none =>
      rw [show M.delete none = M by simp [Machine.delete, schedDeleteTask, hcurrent]]
      exact .refl _
    | some j =>
      rw [h.deleteBoot hoff (hlive j rfl)]
      exact KeptAll.setTask (.gone (Task.reaped_gone _))
  · by_cases hself : tcb = none ∨ tcb = some i
    · rw [on.deleteSelf hself]
      exact KeptAll.setTask (.gone fun hgone => hgone.2 rfl)
    · obtain ⟨j, rfl⟩ := Option.ne_none_iff_exists'.mp fun hnone => hself (.inl hnone)
      rw [on.deleteOther fun heq => hself (.inr (congrArg some heq))]
      exact KeptAll.setTask (.gone (Task.retired_gone _))

theorem Machine.Sound.attempt_kept (done : Bool) (hexecuting : M.Executing)
    (hwaits : M.waits M.sp ≠ none) :
    KeptAll M.statics.tasks (M.attempt done).statics.tasks := by
  obtain ⟨w, hw⟩ := Option.ne_none_iff_exists'.mp hwaits
  cases done with
  | true =>
    rw [(Machine.attemptSucceeds hw).2]
    rcases wakeOneWaiter_cases w.call.queue M.statics.tasks with
      heq | ⟨i, -, hblocked, -, heq⟩
    · change KeptAll M.statics.tasks (wakeOneWaiter w.call.queue M.statics.tasks)
      rw [heq]
      exact .refl _
    · change KeptAll M.statics.tasks (wakeOneWaiter w.call.queue M.statics.tasks)
      rw [heq]
      exact KeptAll.setTask (Task.woken_kept hblocked)
  | false =>
    rcases h.executing hexecuting with ⟨-, -, hcurrent⟩ | ⟨i, s, on⟩
    · rw [(Machine.attemptBoot hw hcurrent).2]
      exact .refl _
    · rcases on.attemptFails hw with ⟨-, -, -, heq⟩ | ⟨-, -, heq⟩ <;> rw [heq]
      · exact .refl _
      · exact on.kept rfl rfl

/-- Whatever is done but creating a task and setting a priority keeps the tasks. -/
theorem Machine.Sound.step_kept {a : Act} (henabled : M.Enabled a)
    (hcreate : ∀ req memory, a ≠ .create req memory) (hset : ∀ i p, a ≠ .setPriority i p) :
    KeptAll M.statics.tasks (M.step a).statics.tasks := by
  cases a with
  | tick | start | wait => exact .refl _
  | schedule => exact M.schedule_kept
  | create req memory => exact absurd rfl (hcreate req memory)
  | delete tcb => exact h.delete_kept henabled.1 henabled.2
  | setPriority i p => exact absurd rfl (hset i p)
  | yield =>
    rcases h.executing henabled.1 with ⟨hoff, -⟩ | ⟨i, s, on⟩
    · rw [show M.step .yield = M by simp [Machine.step, Machine.yield, schedYield, hoff]]
      exact .refl _
    · rw [show M.step .yield = _ from on.yield]
      exact on.kept rfl rfl
  | delay ms =>
    rcases h.executing henabled.1 with ⟨-, -, hcurrent⟩ | ⟨i, s, on⟩
    · rw [show M.step (.delay ms) = M by
        simp [Machine.step, Machine.delay, schedDelayMs, hcurrent]]
      exact .refl _
    · rw [show M.step (.delay ms) = _ from on.delay ms]
      exact on.kept rfl rfl
  | attempt done => exact h.attempt_kept done henabled.1 henabled.2
  | finish =>
    obtain ⟨s, hsp⟩ := Option.ne_none_iff_exists'.mp henabled.2
    obtain ⟨i, on⟩ := h.on hsp
    rw [show M.step .finish = _ from on.finish]
    exact KeptAll.setTask (.gone (Task.retired_gone _))

end Steps

/-- A new task takes a free slot under its name, cut to its buffer. -/
theorem Machine.create_cases (M : Machine) (req : TaskRequest) (memory : Bool) :
    (M.create req memory).statics = M.statics ∨
      ∃ i stack, (M.create req memory).statics =
        M.statics.setTask i ((M.statics.tasks i).create req stack) := by
  rcases schedCreateTask_cases req (if memory then some M.issued else none) M.statics with
    ⟨e, hfailed, heq⟩ | ⟨i, stack, -, -, -, heq⟩
  · exact .inl (by rw [Machine.create, heq])
  · exact .inr ⟨i, stack, by rw [Machine.create, heq]⟩

end ReflexOS.Sched
