import ReflexOS.SchedSlots

set_option autoImplicit false

/-!
# Deadlines across the counter's wrap

The counter has 32 bits; the deadlines below are real ticks.
-/
namespace ReflexOS.Sched
open Kernel Runs

/-- The delay or timeout asked for is under half the counter's range. -/
def Act.Short : Act → Prop
  | .delay ms => msToTicks ms < 2 ^ 31
  | .wait _ timeoutMs => timeoutMs = schedWaitForever ∨ msToTicks timeoutMs < 2 ^ 31
  | _ => True

lemma tickReached_of_le {now due : ℕ} (le : due ≤ now) (lt : now < due + 2 ^ 31) :
    tickReached (now % 2 ^ 32) (due % 2 ^ 32) = true := by
  unfold tickReached
  rw [decide_eq_true_eq]
  omega

lemma tickReached_of_lt {now due : ℕ} (lt : now < due) (le : due ≤ now + 2 ^ 31) :
    tickReached (now % 2 ^ 32) (due % 2 ^ 32) = false := by
  unfold tickReached
  rw [decide_eq_false_iff_not]
  omega

/-- The mark left for a real deadline, or for none. -/
def Marked (now : ℕ) (valid : Bool) (mark : ℕ) : Option ℕ → Prop
  | none => valid = false
  | some due => valid = true ∧ mark = due % 2 ^ 32 ∧ due < now + 2 ^ 31

lemma Marked.later {now now' mark : ℕ} {valid : Bool} {due : Option ℕ}
    (h : Marked now valid mark due) (le : now ≤ now') : Marked now' valid mark due := by
  cases due with
  | none => exact h
  | some due => exact ⟨h.1, h.2.1, h.2.2.trans_le (by omega)⟩

/-- A mark that the counter has reached is of a deadline that has come. -/
lemma Marked.due_le {now mark : ℕ} {due : Option ℕ} (h : Marked now true mark due)
    (reached : tickReached (now % 2 ^ 32) mark = true) : ∃ D, due = some D ∧ D ≤ now := by
  cases due with
  | none => exact absurd h (by simp [Marked])
  | some due =>
    refine ⟨due, rfl, ?_⟩
    by_contra early
    have := @tickReached_of_lt now due (by omega) h.2.2.le
    rw [h.2.1, this] at reached
    exact absurd reached (by decide)

/-- What the marks of the waiting tasks, and of the calls in progress, stand for. -/
structure Machine.Timed (M : Machine) : Prop where
  clock : M.statics.tickCount = M.now % 2 ^ 32
  slot : ∀ i, (M.statics.tasks i).state = .blocked →
    Marked M.now (M.statics.tasks i).wakeDeadlineValid (M.statics.tasks i).wakeTick (M.due i)
  call : ∀ sp w, M.waits sp = some w → Marked M.now (!w.call.forever) w.call.deadline w.due

/-- Time and the calls stay, and each waiting task is as it was or newly marked. -/
lemma Machine.Timed.change {M M' : Machine} (h : M.Timed) (now : M'.now = M.now)
    (tickCount : M'.statics.tickCount = M.statics.tickCount)
    (call : ∀ sp w, M'.waits sp = some w → M.waits sp = some w)
    (slot : ∀ i, (M'.statics.tasks i).state = .blocked →
      ((M.statics.tasks i).state = .blocked ∧
        (M'.statics.tasks i).wakeDeadlineValid = (M.statics.tasks i).wakeDeadlineValid ∧
        (M'.statics.tasks i).wakeTick = (M.statics.tasks i).wakeTick ∧ M'.due i = M.due i) ∨
      Marked M.now (M'.statics.tasks i).wakeDeadlineValid (M'.statics.tasks i).wakeTick
        (M'.due i)) : M'.Timed where
  clock := by rw [now, tickCount, h.clock]
  slot := fun i state => by
    rw [now]
    rcases slot i state with ⟨was, valid, mark, due⟩ | marked
    · rw [valid, mark, due]
      exact h.slot i was
    · exact marked
  call := fun sp w waits => by
    rw [now]
    exact h.call sp w (call sp w waits)

/-- The same when only slot `i` changes. -/
lemma Machine.Timed.setTask {M M' : Machine} (h : M.Timed) {i : ℕ} {t : Task}
    (statics : M'.statics = M.statics.setTask i t) (now : M'.now = M.now)
    (call : ∀ sp w, M'.waits sp = some w → M.waits sp = some w)
    (due : ∀ j ≠ i, M'.due j = M.due j)
    (slot : t.state = .blocked → Marked M.now t.wakeDeadlineValid t.wakeTick (M'.due i)) :
    M'.Timed := by
  refine h.change now (by rw [statics, M.statics.setTask_tickCount]) call fun j state => ?_
  rw [statics] at state ⊢
  by_cases eq : j = i
  · subst eq
    rw [M.statics.setTask_self] at state ⊢
    exact .inr (slot state)
  · rw [M.statics.setTask_ne t eq] at state ⊢
    exact .inl ⟨state, rfl, rfl, due j eq⟩

lemma Machine.schedule_clock (M : Machine) : M.schedule.now = M.now ∧
    M.schedule.statics.tickCount = M.statics.tickCount ∧ M.schedule.waits = M.waits ∧
    M.schedule.due = M.due := by
  unfold Machine.schedule
  cases (pickNext M.statics).2.2 with
  | none => exact ⟨rfl, rfl, rfl, rfl⟩
  | some i =>
    simp only [Machine.switchTo]
    split_ifs <;> exact ⟨rfl, rfl, rfl, rfl⟩

/-- After a scheduling pass a slot is as the sweep left it, or it was READY and now runs. -/
lemma Machine.schedule_slot (M : Machine) (i : ℕ) :
    M.schedule.statics.tasks i = M.swept.statics.tasks i ∨
    ((M.swept.statics.tasks i).state = .ready ∧
      (M.schedule.statics.tasks i).state = .running) := by
  unfold Machine.schedule
  cases chosen : (pickNext M.statics).2.2 with
  | none => exact .inl rfl
  | some j =>
    by_cases eq : i = j
    · subst eq
      refine .inr ⟨(pickNext_ready chosen).2, ?_⟩
      simp only [Machine.switchTo]
      split_ifs <;> simp [dispatch, queueWaitResume, Statics.setTask]
    · exact .inl ((M.swept.switchTo_frame j).1 i eq)

/-- Every step with short delays keeps the marks true. -/
theorem Machine.Timed.step {M : Machine} (h : M.Timed) (sound : M.Sound) {a : Act}
    (enabled : M.Enabled a) (short : a.Short) : (M.step a).Timed := by
  have cleared : ∀ sp w, Function.update M.waits M.sp none sp = some w →
      M.waits sp = some w := by
    intro sp w waits
    by_cases eq : sp = M.sp
    · subst eq
      simp at waits
    · rwa [Function.update_of_ne eq] at waits
  have does := sound.does enabled
  generalize M.step a = M' at does ⊢
  cases does with
  | tick =>
    refine ⟨?_, fun i state => (h.slot i state).later (Nat.le_succ _), fun sp w waits =>
      (h.call sp w waits).later (Nat.le_succ _)⟩
    simp only [Machine.tick, h.clock]
    omega
  | start =>
    exact h.change rfl rfl (fun _ _ waits => waits) fun i state => .inl ⟨state, rfl, rfl, rfl⟩
  | schedule =>
    obtain ⟨now, tickCount, waits, due⟩ := M.schedule_clock
    refine h.change now tickCount (fun sp w calls => by rwa [← waits]) fun i state => .inl ?_
    rcases M.schedule_slot i with eq | ⟨-, running⟩
    · rw [eq] at state ⊢
      rcases pickNext_cases M.statics i with ⟨-, -, eq⟩ | ⟨-, -, eq⟩ | ⟨-, eq⟩ <;>
        rw [show M.swept.statics.tasks i = _ from eq] at state ⊢
      · simp [Task.reaped] at state
      · simp [Task.woken] at state
      · exact ⟨state, rfl, rfl, congrFun due i⟩
    · exact absurd (running.symm.trans state) (by decide)
  | nothing => exact h
  | create =>
    exact h.setTask rfl rfl (fun _ _ waits => waits) (fun _ _ => rfl) fun state => by
      simp [Task.create] at state
  | deleteBoot =>
    exact h.setTask rfl rfl (fun _ _ waits => waits) (fun _ _ => rfl) fun state => by
      simp [Task.reaped] at state
  | deleteOther =>
    exact h.setTask rfl rfl (fun _ _ waits => waits) (fun _ _ => rfl) fun state => by
      simp [Task.retired] at state
  | @setPriority i priority =>
    exact h.setTask rfl rfl (fun _ _ waits => waits) (fun _ _ => rfl) fun state => h.slot i state
  | @leave _ i s t due leaves =>
    refine h.setTask rfl rfl (fun _ _ waits => waits) leaves.others fun state => ?_
    change Marked M.now t.wakeDeadlineValid t.wakeTick (due i)
    rcases leaves.mark state with ⟨ms, rfl, valid, mark, asked⟩ | ⟨w, waits, valid, mark, asked⟩
    · have lt : msToTicks ms < 2 ^ 31 := short
      rw [asked, mark, h.clock]
      exact ⟨valid, by omega, by omega⟩
    · rw [asked, mark, valid]
      exact h.call M.sp w waits
  | @wait queue timeoutMs =>
    refine ⟨h.clock, h.slot, fun sp w waits => ?_⟩
    by_cases eq : sp = M.sp
    swap
    · simp only [Machine.wait, Function.update_of_ne eq] at waits
      exact h.call sp w waits
    subst eq
    simp only [Machine.wait, Function.update_self, Option.some.injEq] at waits
    subst waits
    by_cases forever : timeoutMs = schedWaitForever
    · simp [queueWaitBegin, forever, Marked]
    · have lt : msToTicks timeoutMs < 2 ^ 31 := short.resolve_left forever
      simp only [queueWaitBegin, forever, decide_false, Bool.not_false, if_false, h.clock,
        Bool.false_eq_true]
      refine ⟨rfl, by omega, ?_⟩
      simp only [Machine.wait]
      omega
  | answer => exact h.change rfl rfl cleared fun i state => .inl ⟨state, rfl, rfl, rfl⟩
  | wake =>
    exact h.setTask rfl rfl cleared (fun _ _ => rfl) fun state => by simp [Task.woken] at state

/-- A task that waits leaves the wait deleted, woken by a peer, or by a sweep at its deadline. -/
lemma Machine.Timed.stepBlocked {M : Machine} (h : M.Timed) (sound : M.Sound) {a : Act}
    (enabled : M.Enabled a) {i : ℕ} (blocked : (M.statics.tasks i).state = .blocked) :
    ((M.step a).statics.tasks i).state = .blocked ∨ a = .delete (some i) ∨
    (a = .attempt true ∧ ∃ q, (M.statics.tasks i).blockedOn = some q) ∨
    (a = .schedule ∧ ∃ D, M.due i = some D ∧ D ≤ M.now) := by
  by_cases turn : a = .schedule
  · subst turn
    rcases pickNext_cases M.statics i with ⟨-, dead, -⟩ | ⟨-, wakes, -⟩ | ⟨-, eq⟩
    · exact absurd (blocked.symm.trans dead) (by decide)
    · simp only [shouldTimeWake, Bool.and_eq_true, decide_eq_true_eq] at wakes
      have marked := h.slot i blocked
      rw [wakes.1.2] at marked
      exact .inr (.inr (.inr ⟨rfl, marked.due_le (h.clock ▸ wakes.2)⟩))
    · have swept : (M.swept.statics.tasks i).state = .blocked :=
        (congrArg Task.state eq).trans blocked
      rcases M.schedule_slot i with eq | ⟨ready, -⟩
      · exact .inl ((congrArg Task.state eq).trans swept)
      · exact absurd (swept.symm.trans ready) (by decide)
  cases sound.stepSlot enabled turn (by simp [blocked] : (M.statics.tasks i).state ≠ .running) with
  | kept eq => exact .inl (by rw [eq, blocked])
  | priority p eq => exact .inl (by rw [eq]; exact blocked)
  | created free => exact absurd (blocked.symm.trans free) (by decide)
  | deleted act => exact .inr (.inl act)
  | woken act _ q waits => exact .inr (.inr (.inl ⟨act, q, waits⟩))

/-- The first sweep at or after a deadline makes the task ready. -/
lemma Machine.Timed.sweptReady {M : Machine} (h : M.Timed) (sound : M.Sound) {i D : ℕ}
    (blocked : (M.statics.tasks i).state = .blocked) (due : M.due i = some D)
    (before : M.lastSweep < D) (come : D ≤ M.now) (often : M.now ≤ M.lastSweep + 2 ^ 31) :
    (M.swept.statics.tasks i).state = .ready := by
  have marked := h.slot i blocked
  rw [due] at marked
  have wakes : shouldTimeWake (M.statics.tasks i) M.statics.tickCount = true := by
    simp only [shouldTimeWake, blocked, decide_true, marked.1, Bool.true_and, marked.2.1, h.clock]
    exact tickReached_of_le come (by omega)
  have lt : i < schedMaxTasks := by
    by_contra above
    exact absurd (sound.beyond i (by omega)) (by simp [blocked])
  rcases pickNext_cases M.statics i with ⟨-, dead, -⟩ | ⟨-, -, eq⟩ | ⟨left, -⟩
  · exact absurd (blocked.symm.trans dead) (by decide)
  · exact congrArg Task.state eq
  · exact absurd (wakes.symm.trans (left lt).2) (by decide)

/-- A task is told TIMEOUT only once its deadline has come. -/
lemma Machine.Timed.reportTimeout {M : Machine} (h : M.Timed) (sound : M.Sound)
    (started : M.statics.started = true) {done : Bool} (enabled : M.Enabled (.attempt done))
    (report : M.report done = some Err.timeout) :
    ∃ w D, M.waits M.sp = some w ∧ w.due = some D ∧ D ≤ M.now := by
  obtain ⟨w, waits⟩ := Option.ne_none_iff_exists'.1 enabled.2
  cases done with
  | true =>
    rw [(Machine.attemptSucceeds waits).1] at report
    exact absurd report (by decide)
  | false =>
    rcases sound.executing enabled.1 with ⟨off, -⟩ | ⟨i, s, on⟩
    · exact absurd (started.symm.trans off) (by decide)
    rcases on.attemptFails waits with ⟨finite, reached, -, -⟩ | ⟨-, parked, -⟩
    · have marked := h.call M.sp w waits
      rw [finite] at marked
      obtain ⟨D, due, le⟩ := marked.due_le (h.clock ▸ reached)
      exact ⟨w, D, waits, due, le⟩
    · rw [parked] at report
      exact absurd report (by simp)

/-- A step whose delay or timeout is short. -/
def Machine.ShortStep : Machine → Act → Machine → Prop :=
  Guarded (fun _ a => a.Short) Machine.Step

theorem Machine.run_timed {acts : List Act} {M : Machine}
    (run : Run Machine.ShortStep Machine.boot acts M) : M.Sound ∧ M.Timed := by
  refine run.invariant (fun M => M.Sound ∧ M.Timed) ?_ ⟨Machine.boot_sound, rfl, ?_, ?_⟩
  · rintro M a _ ⟨sound, timed⟩ ⟨short, enabled, rfl⟩
    exact ⟨sound.step enabled, timed.step sound enabled short⟩
  · intro i state
    simp [boot, staticsAtInit, zeroTask] at state
  · intro sp w waits
    simp [boot] at waits

/-- Waits across the wrap: a task leaves a wait for the clock's sake only at or after its
deadline, at the first sweep there, and is told TIMEOUT only there. -/
theorem timed_waits {acts : List Act} {M : Machine}
    (run : Run Machine.ShortStep Machine.boot acts M) :
    (∀ a M', M.Step a M' → ∀ i, (M.statics.tasks i).state = .blocked →
      (M'.statics.tasks i).state = .blocked ∨ a = .delete (some i) ∨
      (a = .attempt true ∧ ∃ q, (M.statics.tasks i).blockedOn = some q) ∨
      (a = .schedule ∧ ∃ D, M.due i = some D ∧ D ≤ M.now)) ∧
    (∀ i D, (M.statics.tasks i).state = .blocked → M.due i = some D → M.lastSweep < D →
      D ≤ M.now → M.now ≤ M.lastSweep + 2 ^ 31 → (M.swept.statics.tasks i).state = .ready) ∧
    ∀ done, M.statics.started = true → M.Enabled (.attempt done) →
      M.report done = some Err.timeout →
      ∃ w D, M.waits M.sp = some w ∧ w.due = some D ∧ D ≤ M.now := by
  obtain ⟨sound, timed⟩ := Machine.run_timed run
  refine ⟨?_, fun i D blocked due before come often =>
    timed.sweptReady sound blocked due before come often, fun done started enabled report =>
    timed.reportTimeout sound started enabled report⟩
  rintro a M' ⟨enabled, rfl⟩ i blocked
  exact timed.stepBlocked sound enabled blocked

/-- A task that sleeps for five ticks. -/
def sleeper : List Act :=
  [.create ⟨some 0, [], 0, 0, 0⟩ true, .start, .schedule, .delay 5, .tick, .tick, .tick, .tick,
    .tick]

lemma sleeper_run : Run Machine.ShortStep Machine.boot sleeper
    (sleeper.foldl Machine.step Machine.boot) := by
  have tick : ∀ M : Machine, M.ShortStep .tick M.tick := fun _ => ⟨trivial, trivial, rfl⟩
  refine .cons ⟨trivial, ⟨.inl rfl, rfl⟩, rfl⟩ (.cons ⟨trivial, ⟨rfl, rfl⟩, rfl⟩
    (.cons ⟨trivial, ⟨rfl, rfl⟩, rfl⟩ (.cons ⟨?_, ⟨.inr ?_, ?_⟩, rfl⟩
      (.cons (tick _) (.cons (tick _) (.cons (tick _) (.cons (tick _) (.cons (tick _)
        (.nil _)))))))))
  · show msToTicks 5 < 2 ^ 31
    decide
  all_goals decide +kernel

theorem timed_waits_sleeper :
    ((sleeper.foldl Machine.step Machine.boot).swept.statics.tasks 0).state = .ready :=
  (timed_waits sleeper_run).2.1 0 5 (by decide +kernel) (by decide +kernel) (by decide +kernel)
    (by decide +kernel) (by decide +kernel)

/-- Before the scheduler is started a wait of 100 ms ends at once. -/
theorem boot_wait_timeout : ∃ acts M, Run Machine.ShortStep Machine.boot acts M ∧
    M.Enabled (.attempt false) ∧ M.report false = some Err.timeout ∧
    ∃ w D, M.waits M.sp = some w ∧ w.due = some D ∧ M.now < D := by
  refine ⟨[.wait 0 100], Machine.boot.step (.wait 0 100), .cons ⟨.inr ?_, ⟨.inl rfl, rfl⟩, rfl⟩
    (.nil _), ⟨.inl rfl, ?_⟩, rfl, ?_⟩
  · decide
  · exact Option.some_ne_none _
  · exact ⟨_, 100, rfl, rfl, by decide⟩

end ReflexOS.Sched
