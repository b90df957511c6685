import ReflexOS.SchedEffects

set_option autoImplicit false

/-!
# Task slots over whole runs

Which stacks exist, who holds them, and where execution stands.
-/
namespace ReflexOS.Sched
open Kernel Runs Allocations

/-- What the part of a scheduling pass before the scan does to a slot: collected, woken by the
clock, or left alone. -/
lemma pickNext_cases (S : Statics) (i : ℕ) :
    (i < schedMaxTasks ∧ (S.tasks i).state = .dead ∧
      (pickNext S).1.tasks i = (S.tasks i).reaped) ∨
    (i < schedMaxTasks ∧ shouldTimeWake (S.tasks i) S.tickCount = true ∧
      (pickNext S).1.tasks i = (S.tasks i).woken) ∨
    ((i < schedMaxTasks → (S.tasks i).state ≠ .dead ∧
      shouldTimeWake (S.tasks i) S.tickCount = false) ∧
      (pickNext S).1.tasks i = S.tasks i) := by
  by_cases lt : i < schedMaxTasks
  swap
  · exact .inr (.inr ⟨fun h => absurd h lt, by simp [pickNext, sweep, schedReap, lt]⟩)
  by_cases dead : (S.tasks i).state = .dead
  · refine .inl ⟨lt, dead, ?_⟩
    simp [pickNext, sweep, schedReap, lt, dead, shouldTimeWake, Task.reaped]
  cases wakes : shouldTimeWake (S.tasks i) S.tickCount with
  | true => exact .inr (.inl ⟨lt, rfl, by simp [pickNext, sweep, schedReap, lt, dead, wakes]⟩)
  | false =>
    exact .inr (.inr ⟨fun _ => ⟨dead, rfl⟩, by simp [pickNext, sweep, schedReap, dead, wakes]⟩)

/-- The slots that a scheduling pass collects. -/
def Machine.deadSlots (M : Machine) : List ℕ :=
  (List.range schedMaxTasks).filter fun i => decide ((M.statics.tasks i).state = .dead)

lemma Machine.swept_ledger (M : Machine) : M.swept.ledger = M.ledger.giveBack M.deadSlots := by
  have held : M.swept.ledger.held = (M.ledger.giveBack M.deadSlots).held := by
    funext i
    simp only [Machine.ledger, Machine.swept, Ledger.giveBack, Machine.deadSlots, List.mem_filter,
      List.mem_range, decide_eq_true_eq]
    rcases pickNext_cases M.statics i with ⟨lt, dead, eq⟩ | ⟨lt, wakes, eq⟩ | ⟨left, eq⟩
    · simp [eq, lt, dead, Task.reaped]
    · simp only [shouldTimeWake, Bool.and_eq_true, decide_eq_true_eq] at wakes
      simp [eq, wakes.1.1, Task.woken]
    · rw [eq, if_neg fun dead => (left dead.1).1 dead.2]
  have returned : M.swept.ledger.returned = (M.ledger.giveBack M.deadSlots).returned := by
    simp [Machine.ledger, Machine.swept, Ledger.giveBack, Machine.deadSlots, pickNext, schedReap,
      List.filterMap_filter]
  have issued : M.swept.ledger.issued = (M.ledger.giveBack M.deadSlots).issued := rfl
  cases swept : M.swept.ledger
  cases given : M.ledger.giveBack M.deadSlots
  simp_all

lemma pickNext_ready {S : Statics} {i : ℕ} (chosen : (pickNext S).2.2 = some i) :
    i < schedMaxTasks ∧ ((pickNext S).1.tasks i).state = .ready := by
  have top := schedSelect_top (pickNext S).1.tasks schedMaxTasks
    (afterCurrent (pickNext S).1.current) chosen
  exact ⟨top.lt, top.ready⟩

/-- Running one task leaves the other slots and the freed stacks alone. -/
lemma Machine.switchTo_frame (M : Machine) (i : ℕ) :
    (∀ j ≠ i, (M.switchTo i).statics.tasks j = M.statics.tasks j) ∧
      (M.switchTo i).freed = M.freed := by
  unfold Machine.switchTo
  dsimp only
  refine ⟨fun j ne => ?_, by split_ifs <;> rfl⟩
  split_ifs <;> simp [dispatch, queueWaitResume, Statics.setTask, ne]

/-- What a step can do to a slot that is not RUNNING, scheduling passes apart. -/
inductive SlotStep (M : Machine) (a : Act) (i : ℕ) (t t' : Task) : Prop where
  | kept (eq : t' = t)
  | priority (p : ℤ) (eq : t' = { t with priority := p })
  | created (free : t.state = .free) (ready : t'.state = .ready)
  | deleted (act : a = .delete (some i)) (live : M.Live i)
      (gone : t'.state = .dead ∨ t'.state = .free)
  | woken (act : a = .attempt true) (blocked : t.state = .blocked) (q : ℕ)
      (waits : t.blockedOn = some q) (eq : t' = t.woken)

section Steps
variable {M : Machine} (h : M.Sound)
include h

lemma Machine.Sound.create {i : ℕ} (lt : i < schedMaxTasks)
    (free : (M.statics.tasks i).state = .free) (req : TaskRequest) : Machine.Sound { M with
      statics := M.statics.setTask i ((M.statics.tasks i).create req M.issued)
      issued := M.issued + 1 } := by
  have none := ((h.slot i).free free).1
  refine h.replace lt (by simp [free]) (Nat.le_succ _) ?_ ?_
  · exact
      { free := fun state => by simp [Task.create] at state
        owned := fun _ => ⟨M.issued, rfl⟩
        unmarked := fun _ => ⟨rfl, rfl⟩
        unstarted := fun _ => ⟨by simp [Task.create], by simp [Task.create], fun s base => by
          rw [← Option.some.inj base]
          exact h.fresh _ le_rfl⟩
        saved := fun _ on => by simp [Task.create] at on
        owner := fun on => by simp [Task.create] at on
        running := fun state => by simp [Task.create] at state }
  · have same : (fun j => ((M.statics.setTask i
        ((M.statics.tasks i).create req M.issued)).tasks j).stackBase) =
        Function.update (fun j => (M.statics.tasks j).stackBase) i (some M.issued) := by
      funext j
      by_cases eq : j = i
      · subst eq
        simp [Task.create]
      · simp [M.statics.setTask_ne _ eq, eq]
    rw [same]
    exact h.ledger.take none

lemma Machine.Sound.collect {i : ℕ} (off : M.statics.started = false) (live : M.Live i) :
    Machine.Sound { M with
      statics := M.statics.setTask i (M.statics.tasks i).retired.reaped
      freed := M.freed ++ (M.statics.tasks i).stackBase.toList } := by
  obtain ⟨s, base⟩ := (h.slot i).owned live.2.1
  have held : (fun j => ((M.statics.setTask i
      (M.statics.tasks i).retired.reaped).tasks j).stackBase) =
      fun j => if j ∈ [i] then none else (M.statics.tasks j).stackBase := by
    funext j
    by_cases eq : j = i
    · subst eq
      simp [Task.reaped]
    · simp [M.statics.setTask_ne _ eq, eq]
  have returned : (M.statics.tasks i).stackBase.toList =
      [i].filterMap fun j => (M.statics.tasks j).stackBase := by simp [base]
  refine h.replace live.1 (h.not_running (h.boot off).1 i) le_rfl (SlotSound.reaped M i _) ?_
  rw [held, returned]
  exact h.ledger.giveBack (List.nodup_singleton i)

lemma Machine.Sound.setPriority {i : ℕ} (lt : i < schedMaxTasks) (priority : ℤ) :
    Machine.Sound { M with statics := schedSetPriority i priority M.statics } := by
  have slot : SlotSound M i { M.statics.tasks i with priority := priority } :=
    let old := h.slot i
    ⟨old.free, old.owned, old.unmarked, old.unstarted, old.saved, old.owner, old.running⟩
  by_cases idle : (M.statics.tasks i).state = .running
  swap
  · exact h.change lt idle rfl slot
  refine ⟨h.ledger_setTask rfl, fun j => ?_, fun j above => ?_, fun s sp => ?_, h.boot, h.fresh⟩
  · by_cases eq : j = i
    · subst eq
      exact (M.statics.setTask_self j _).symm ▸
        slot.mono (fun _ _ _ => rfl) (fun _ _ _ => rfl) fun _ => ⟨rfl, rfl⟩
    · exact (M.statics.setTask_ne _ eq).symm ▸
        (h.slot j).mono (fun _ _ _ => rfl) (fun _ _ _ => rfl) fun _ => ⟨rfl, rfl⟩
  · have ne : j ≠ i := by omega
    exact (M.statics.setTask_ne _ ne).symm ▸ h.beyond j above
  · obtain ⟨k, on⟩ := h.on sp
    obtain rfl := h.running_eq on idle
    exact ⟨i, on.current, (M.statics.setTask_self i _).symm ▸ idle⟩

/-- The frame of a `queue_wait` on the stack that executes is no slot's that has not begun. -/
lemma Machine.Sound.frames (w : Option Wait) :
    Machine.Sound { M with waits := Function.update M.waits M.sp w } := by
  have other : ∀ s, M.sp = some s → ∀ i, (M.statics.tasks i).stackBase = some s →
      (M.statics.tasks i).started = true := by
    intro s sp i base
    obtain ⟨j, on⟩ := h.on sp
    obtain rfl := h.ledger.own i j s base on.base
    exact on.began
  refine ⟨h.ledger, fun i => ?_, h.beyond, h.onTask, h.boot, fun s above => ?_⟩
  · refine (h.slot i).mono (fun _ _ _ => rfl) (fun off s base => ?_) fun _ => ⟨rfl, rfl⟩
    have ne : some s ≠ M.sp := fun eq =>
      absurd (off.symm.trans (other s eq.symm i base)) (by decide)
    exact Function.update_of_ne ne _ _
  · have ne : some s ≠ M.sp := fun eq => by
      obtain ⟨j, on⟩ := h.on eq.symm
      exact absurd (h.ledger.live j s on.base).1 (Nat.not_lt.2 above)
    exact (Function.update_of_ne ne _ _).trans (h.fresh s above)

lemma Machine.Sound.swept (off : M.sp = none) (started : M.statics.started = true) :
    M.swept.Sound where
  ledger := by
    rw [M.swept_ledger]
    exact h.ledger.giveBack (List.nodup_range.filter _)
  slot := fun i => by
    have mono : ∀ t : Task, t.state ≠ .running → SlotSound M i t → SlotSound M.swept i t :=
      fun t idle sound => sound.mono (fun _ _ _ => rfl) (fun _ _ _ => rfl) fun state =>
        absurd state idle
    have idle := h.not_running off i
    rcases pickNext_cases M.statics i with ⟨-, -, eq⟩ | ⟨-, wakes, eq⟩ | ⟨-, eq⟩
    · rw [show M.swept.statics.tasks i = _ from eq]
      exact mono _ (by simp [Task.reaped]) (SlotSound.reaped M i _)
    · rw [show M.swept.statics.tasks i = _ from eq]
      simp only [shouldTimeWake, Bool.and_eq_true, decide_eq_true_eq] at wakes
      exact mono _ (by simp [Task.woken]) ((h.slot i).woken wakes.1.1)
    · rw [show M.swept.statics.tasks i = _ from eq]
      exact mono _ idle (h.slot i)
  beyond := fun i above => by
    rcases pickNext_cases M.statics i with ⟨lt, -⟩ | ⟨lt, -⟩ | ⟨-, eq⟩
    · exact absurd lt (Nat.not_lt.2 above)
    · exact absurd lt (Nat.not_lt.2 above)
    · rw [show M.swept.statics.tasks i = _ from eq]
      exact h.beyond i above
  onTask := fun s sp => absurd (off.symm.trans sp) (by simp)
  boot := fun off => absurd (started.symm.trans off) (by decide)
  fresh := h.fresh

lemma Machine.Sound.enter {i s : ℕ} {t : Task} {owner : ℕ → ℕ} (off : M.sp = none)
    (started : M.statics.started = true) (lt : i < schedMaxTasks)
    (base : (M.statics.tasks i).stackBase = some s) (same : t.stackBase = some s)
    (state : t.state = .running) (began : t.started = true)
    (marks : t.blockedOn = none ∧ t.wakeDeadlineValid = false) (owns : owner s = i)
    (others : ∀ s', s' ≠ s → owner s' = M.owner s') :
    Machine.Sound { M with
      statics := { M.statics.setTask i t with current := some i }
      sp := some s
      owner := owner } where
  ledger := h.ledger_setTask (same.trans base.symm)
  slot := fun j => by
    by_cases eq : j = i
    · subst eq
      rw [show ({ M.statics.setTask j t with current := some j } : Statics).tasks j = t from
        M.statics.setTask_self j t]
      exact
        { free := fun free => by simp [state] at free
          owned := fun _ => ⟨s, same⟩
          unmarked := fun _ => marks
          unstarted := fun off => absurd (off.symm.trans began) (by decide)
          saved := fun waiting => by simp [state] at waiting
          owner := fun _ s' base' => by
            rw [same, Option.some.injEq] at base'
            exact base' ▸ owns
          running := fun _ => ⟨same.symm, rfl⟩ }
    · rw [show ({ M.statics.setTask i t with current := some i } : Statics).tasks j = _ from
        M.statics.setTask_ne t eq]
      refine (h.slot j).mono (fun _ s' base' => others s' fun eq' => ?_) (fun _ _ _ => rfl)
        fun running => absurd running (h.not_running off j)
      exact eq (h.ledger.own j i s (eq' ▸ base') base)
  beyond := fun j above => by
    have ne : j ≠ i := by omega
    exact (M.statics.setTask_ne t ne).symm ▸ h.beyond j above
  onTask := fun _ _ => ⟨i, rfl, (M.statics.setTask_self i t).symm ▸ state⟩
  boot := fun off => absurd (started.symm.trans off) (by decide)
  fresh := h.fresh

/-- Whichever way a READY task is continued, it continues on its own stack. -/
lemma Machine.Sound.switchTo {i : ℕ} (off : M.sp = none) (started : M.statics.started = true)
    (lt : i < schedMaxTasks) (ready : (M.statics.tasks i).state = .ready) :
    (M.switchTo i).Sound ∧ (M.switchTo i).sp = (M.statics.tasks i).stackBase := by
  obtain ⟨s, base⟩ := (h.slot i).owned (by simp [ready])
  have marks := (h.slot i).unmarked (.inl ready)
  cases began : (M.statics.tasks i).started with
  | true =>
    have context := ((h.slot i).saved (.inl ready) began).trans base
    have owns := (h.slot i).owner began s base
    cases waits : M.waits (some s) with
    | none =>
      have eq : M.switchTo i = { M with
          statics := { M.statics.setTask i { M.statics.tasks i with
            state := .running, started := true } with current := some i }
          sp := some s } := by
        simp [Machine.switchTo, began, context, waits, dispatch]
      rw [eq]
      exact ⟨h.enter off started lt base base rfl rfl marks owns fun _ _ => rfl, base.symm⟩
    | some w =>
      have eq : M.switchTo i = { M with
          statics := { M.statics.setTask i { M.statics.tasks i with
            state := .running, started := true, blockedOn := none
            wakeDeadlineValid := false } with current := some i }
          sp := some s } := by
        simp [Machine.switchTo, began, context, waits, dispatch, queueWaitResume,
          Statics.setTask]
      rw [eq]
      exact ⟨h.enter off started lt base base rfl rfl ⟨rfl, rfl⟩ owns fun _ _ => rfl, base.symm⟩
  | false =>
    have eq : M.switchTo i = { M with
        statics := { M.statics.setTask i { M.statics.tasks i with
          state := .running, started := true } with current := some i }
        sp := some s
        owner := Function.update M.owner s i } := by
      simp [Machine.switchTo, began, base, dispatch]
    rw [eq]
    exact ⟨h.enter off started lt base base rfl rfl marks (Function.update_self ..)
      fun _ ne => Function.update_of_ne ne .., base.symm⟩

lemma Machine.Sound.schedule (started : M.statics.started = true) (off : M.sp = none) :
    M.schedule.Sound := by
  have swept := h.swept off started
  unfold Machine.schedule
  cases chosen : (pickNext M.statics).2.2 with
  | none => exact swept
  | some i =>
    have ready := pickNext_ready chosen
    exact (swept.switchTo off started ready.1 ready.2).1

theorem Machine.Sound.step {a : Act} (enabled : M.Enabled a) : (M.step a).Sound := by
  have does := h.does enabled
  generalize M.step a = M' at does ⊢
  cases does with
  | tick => exact ⟨h.ledger, fun i => (h.slot i).mono (fun _ _ _ => rfl) (fun _ _ _ => rfl)
      fun _ => ⟨rfl, rfl⟩, h.beyond, h.onTask, h.boot, h.fresh⟩
  | start =>
    exact ⟨h.ledger, fun i => (h.slot i).mono (fun _ _ _ => rfl) (fun _ _ _ => rfl)
      fun _ => ⟨rfl, rfl⟩, h.beyond, h.onTask, fun off => absurd off (by simp [Machine.start]),
      h.fresh⟩
  | schedule started off => exact h.schedule started off
  | nothing => exact h
  | create lt free => exact h.create lt free _
  | deleteBoot off live => exact h.collect off live
  | @deleteOther i _ _ on ne live =>
    exact h.change live.1 (fun state => ne (h.running_eq on state)) rfl
      ((h.slot i).dead ((h.slot i).owned live.2.1) _)
  | setPriority lt => exact h.setPriority lt _
  | leave leaves => exact h.leave leaves.on _ leaves.base leaves.idle leaves.sound
  | wait => exact h.frames _
  | answer => exact h.frames none
  | @wake i _ lt blocked =>
    exact (h.frames none).change lt (by simp [blocked]) rfl
      (((h.frames none).slot i).woken blocked)

/-- A slot that held a deleted task is FREE after the next pass, its stack freed. -/
lemma Machine.Sound.collected {i : ℕ}
    (gone : (M.statics.tasks i).state = .dead ∨ (M.statics.tasks i).state = .free) :
    (M.schedule.statics.tasks i).state = .free ∧
      ∀ s, (M.statics.tasks i).stackBase = some s → s ∈ M.schedule.freed := by
  have lt : (M.statics.tasks i).state = .dead → i < schedMaxTasks := fun dead => by
    by_contra above
    exact absurd (h.beyond i (by omega)) (by simp [dead])
  have free : ((pickNext M.statics).1.tasks i).state = .free := by
    rcases pickNext_cases M.statics i with ⟨-, -, eq⟩ | ⟨-, wakes, -⟩ | ⟨left, eq⟩
    · rw [eq]
      rfl
    · simp only [shouldTimeWake, Bool.and_eq_true, decide_eq_true_eq] at wakes
      simp [wakes.1.1] at gone
    · rw [eq]
      exact gone.resolve_left fun dead => (left (lt dead)).1 dead
  have freed : ∀ s, (M.statics.tasks i).stackBase = some s → s ∈ M.swept.freed := fun s base => by
    have dead := gone.resolve_right fun free => by simp [((h.slot i).free free).1] at base
    have mem : s ∈ M.swept.ledger.returned := by
      rw [M.swept_ledger, mem_returned_giveBack]
      exact .inr ⟨i, by simp [Machine.deadSlots, lt dead, dead], base⟩
    exact mem
  unfold Machine.schedule
  cases chosen : (pickNext M.statics).2.2 with
  | none => exact ⟨free, freed⟩
  | some j =>
    have ne : i ≠ j := fun eq => by
      have := (pickNext_ready chosen).2
      simp [← eq, free] at this
    have frame := M.swept.switchTo_frame j
    exact ⟨(frame.1 i ne).symm ▸ free, fun s base => frame.2.symm ▸ freed s base⟩

/-- Steps other than scheduling passes, on a slot that is not RUNNING. -/
theorem Machine.Sound.stepSlot {a : Act} (enabled : M.Enabled a) (turn : a ≠ .schedule) {i : ℕ}
    (idle : (M.statics.tasks i).state ≠ .running) :
    SlotStep M a i (M.statics.tasks i) ((M.step a).statics.tasks i) := by
  have does := h.does enabled
  generalize M.step a = M' at does ⊢
  cases does with
  | schedule => exact absurd rfl turn
  | tick | start | nothing | wait | answer => exact .kept rfl
  | @create _ _ j lt free =>
    by_cases same : i = j
    · subst same
      exact .created free (congrArg Task.state (M.statics.setTask_self i _))
    · exact .kept (M.statics.setTask_ne _ same)
  | @deleteBoot j off live =>
    by_cases same : i = j
    · subst same
      exact .deleted rfl live (.inr (congrArg Task.state (M.statics.setTask_self i _)))
    · exact .kept (M.statics.setTask_ne _ same)
  | @deleteOther j _ _ on ne live =>
    by_cases same : i = j
    · subst same
      exact .deleted rfl live (.inl (congrArg Task.state (M.statics.setTask_self i _)))
    · exact .kept (M.statics.setTask_ne _ same)
  | @setPriority j priority lt =>
    by_cases same : i = j
    · subst same
      exact .priority priority (M.statics.setTask_self i _)
    · exact .kept (M.statics.setTask_ne _ same)
  | leave leaves =>
    exact .kept (M.statics.setTask_ne _ fun same => idle (same ▸ leaves.on.state))
  | @wake j q lt blocked waits =>
    by_cases same : i = j
    · subst same
      exact .woken rfl blocked q waits (M.statics.setTask_self i _)
    · exact .kept (M.statics.setTask_ne _ same)

/-- A slot that is DEAD stays so until it is FREE. -/
theorem Machine.Sound.stepDead {a : Act} (enabled : M.Enabled a) {i : ℕ}
    (dead : (M.statics.tasks i).state = .dead) :
    ((M.step a).statics.tasks i).state = .dead ∨ ((M.step a).statics.tasks i).state = .free := by
  by_cases turn : a = .schedule
  · subst turn
    exact .inr (h.collected (.inl dead)).1
  cases h.stepSlot enabled turn (by simp [dead] : (M.statics.tasks i).state ≠ .running) with
  | kept eq => exact .inl (by rw [eq, dead])
  | priority p eq => exact .inl (by rw [eq]; exact dead)
  | created free => exact absurd (dead.symm.trans free) (by decide)
  | deleted _ live => exact absurd dead live.2.2
  | woken _ blocked => exact absurd (dead.symm.trans blocked) (by decide)

/-- Nothing is freed while a task executes. -/
theorem Machine.Sound.stepFreed {a : Act} (enabled : M.Enabled a) {s : ℕ} (sp : M.sp = some s) :
    (M.step a).freed = M.freed := by
  have does := h.does enabled
  generalize M.step a = M' at does ⊢
  cases does with
  | schedule _ off => exact absurd (sp.symm.trans off) (by simp)
  | deleteBoot off => exact absurd (sp.symm.trans (h.boot off).1) (by simp)
  | _ => rfl

end Steps

lemma Machine.boot_sound : Machine.boot.Sound where
  ledger := empty_sound
  slot := fun _ =>
    { free := fun _ => ⟨rfl, rfl, rfl, rfl⟩
      owned := fun state => absurd rfl state
      unmarked := fun _ => ⟨rfl, rfl⟩
      unstarted := fun _ => ⟨by simp [boot, staticsAtInit, zeroTask],
        by simp [boot, staticsAtInit, zeroTask], fun s base => rfl⟩
      saved := fun _ _ => rfl
      owner := fun on => by simp [boot, staticsAtInit, zeroTask] at on
      running := fun state => by simp [boot, staticsAtInit, zeroTask] at state }
  beyond := fun _ _ => rfl
  onTask := fun s sp => by simp [boot] at sp
  boot := fun _ => ⟨rfl, rfl⟩
  fresh := fun _ _ => rfl

theorem Machine.run_sound {acts : List Act} {M : Machine}
    (run : Run Machine.Step Machine.boot acts M) : M.Sound :=
  run.invariant Machine.Sound
    (fun _ _ _ sound taken => by rw [taken.2]; exact sound.step taken.1) Machine.boot_sound

/-- The idle task and one that returns from its entry at once. -/
def returningTask : List Act :=
  [.create ⟨some 0, [], 0, 0, 0⟩ true, .create ⟨some 1, [], 8192, 0, 10⟩ true, .start, .schedule,
    .finish, .schedule]

lemma returningTask_run : Run Machine.Step Machine.boot returningTask
    (returningTask.foldl Machine.step Machine.boot) := by
  refine .cons ⟨⟨.inl rfl, rfl⟩, rfl⟩ (.cons ⟨⟨.inl rfl, rfl⟩, rfl⟩ (.cons ⟨⟨rfl, rfl⟩, rfl⟩
    (.cons ⟨⟨rfl, rfl⟩, rfl⟩ (.cons ⟨⟨⟨.inr ?_, ?_⟩, ?_⟩, rfl⟩ (.cons ⟨⟨?_, ?_⟩, rfl⟩ (.nil _))))))
  all_goals decide +kernel

end ReflexOS.Sched
