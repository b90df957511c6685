import ReflexOS.Runs
import ReflexOS.VmState

set_option autoImplicit false

/-!
# The tasks of a VM runtime

The accesses of a task and of the calls that start and stop it to the shared runtime are the
steps, in any interleaving. Of the VM only its status is kept.
-/
namespace ReflexOS.VmTask
open Runs Vm

/-- The fields of the runtime that tasks and callers share; `handle` names a task. -/
structure Runtime where
  running : Bool
  stopRequested : Bool
  finished : Bool
  handle : Option ℕ
  status : Status

/-- Where a task stands in `reflex_vm_task_entry`, named by what it does next. -/
inductive Phase where
  | absent
  | testRunning
  | testStatus
  | clearRunning
  | slice
  | publish
  | testRequest
  | parked
  | clearHandle
  | deleteSelf
  | dead
deriving DecidableEq, Repr

def Stopped (status : Status) : Prop := status = .halted ∨ status = .faulted

inductive TaskStep (r : Runtime) : Phase → Runtime → Phase → Prop where
  | goOn (h : r.running = true) : TaskStep r .testRunning r .testStatus
  | told (h : r.running = false) : TaskStep r .testRunning r .publish
  | ended (h : Stopped r.status) : TaskStep r .testStatus r .clearRunning
  | enter (h : ¬ Stopped r.status) : TaskStep r .testStatus r .slice
  | clearRunning : TaskStep r .clearRunning { r with running := false } .publish
  | vmStep (status : Status) : TaskStep r .slice { r with status := status } .slice
  | sliceEnd : TaskStep r .slice r .testRunning
  | publish : TaskStep r .publish { r with finished := true } .testRequest
  | park (h : r.stopRequested = true) : TaskStep r .testRequest r .parked
  | alone (h : r.stopRequested = false) : TaskStep r .testRequest r .clearHandle
  | clearHandle : TaskStep r .clearHandle { r with handle := none } .deleteSelf
  | deleteSelf : TaskStep r .deleteSelf r .dead

/-- Where a call stands. A stop is followed by a start when the watchdog makes it. -/
inductive Call where
  | idle
  | startTest
  | startRunning
  | startRequest
  | startFinished
  | startLoad
  | startCreate
  | startUndo
  | startForget
  | watchdog
  | stopRequest (restart : Bool)
  | stopRunning (restart : Bool)
  | stopWait (restart : Bool)
  | stopFinished (restart : Bool)
  | stopTimeout (restart : Bool)
  | stopHandle (restart : Bool)
  | stopDoom (restart : Bool)
  | stopDrop (doomed : Option ℕ) (restart : Bool)
  | stopDelete (doomed : Option ℕ) (restart : Bool)
deriving DecidableEq, Repr

def afterStop (restart : Bool) : Call := if restart then .startTest else .idle

/-- The steps of a call but the creation and the deletion of a task. -/
inductive CallStep (r : Runtime) : Call → Runtime → Call → Prop where
  | refused (h : r.running = true) : CallStep r .startTest r .idle
  | invalid (h : r.running = false) : CallStep r .startTest r .idle
  | admitted (h : r.running = false) : CallStep r .startTest r .startRunning
  | startRunning : CallStep r .startRunning { r with running := true } .startRequest
  | startRequest : CallStep r .startRequest { r with stopRequested := false } .startFinished
  | startFinished : CallStep r .startFinished { r with finished := false } .startLoad
  | loaded : CallStep r .startLoad { r with status := .ready } .startCreate
  | loadFailed (status : Status) : CallStep r .startLoad { r with status := status } .idle
  | createFailed : CallStep r .startCreate r .startUndo
  | startUndo : CallStep r .startUndo { r with running := false } .startForget
  | startForget : CallStep r .startForget { r with handle := none } .idle
  | healthy (h : r.status ≠ .faulted) : CallStep r .watchdog r .idle
  | faulted (h : r.status = .faulted) : CallStep r .watchdog r (.stopRequest true)
  | stopRequest (b : Bool) :
      CallStep r (.stopRequest b) { r with stopRequested := true } (.stopRunning b)
  | stopRunning (b : Bool) : CallStep r (.stopRunning b) { r with running := false } (.stopWait b)
  /-- The wait ends at any time, also when it times out. -/
  | stopWait (b : Bool) : CallStep r (.stopWait b) r (.stopFinished b)
  | finished (b : Bool) (h : r.finished = true) : CallStep r (.stopFinished b) r (.stopHandle b)
  | unfinished (b : Bool) (h : r.finished = false) :
      CallStep r (.stopFinished b) r (.stopTimeout b)
  | timedOut (b : Bool) (h : r.handle ≠ none) : CallStep r (.stopTimeout b) r (afterStop b)
  | gone (b : Bool) (h : r.handle = none) : CallStep r (.stopTimeout b) r (.stopHandle b)
  | deleted (b : Bool) (h : r.handle = none) : CallStep r (.stopHandle b) r (afterStop b)
  | reap (b : Bool) (h : r.handle ≠ none) : CallStep r (.stopHandle b) r (.stopDoom b)
  | stopDoom (b : Bool) : CallStep r (.stopDoom b) r (.stopDrop r.handle b)
  | stopDrop (d : Option ℕ) (b : Bool) :
      CallStep r (.stopDrop d b) { r with handle := none } (.stopDelete d b)

/-- Callers and tasks are numbered. -/
structure State where
  runtime : Runtime
  tasks : ℕ → Phase
  created : ℕ
  calls : ℕ → Call

def taskDelete (tasks : ℕ → Phase) : Option ℕ → ℕ → Phase
  | some t => Function.update tasks t .dead
  | none => tasks

inductive Label where
  | begins (c : ℕ) (k : Call)
  | call (c : ℕ)
  | task (t : ℕ)

def entryPoints : List Call := [.startTest, .stopRequest false, .watchdog]

inductive Step (s : State) : Label → State → Prop where
  | begins {c : ℕ} {k : Call} (hidle : s.calls c = .idle) (hk : k ∈ entryPoints) :
      Step s (.begins c k) { s with calls := Function.update s.calls c k }
  | call {c : ℕ} {r : Runtime} {k : Call} (h : CallStep s.runtime (s.calls c) r k) :
      Step s (.call c) { s with runtime := r, calls := Function.update s.calls c k }
  | create {c : ℕ} (h : s.calls c = .startCreate) :
      Step s (.call c)
        { runtime := { s.runtime with handle := some s.created }
          tasks := Function.update s.tasks s.created .testRunning
          created := s.created + 1
          calls := Function.update s.calls c .idle }
  | delete {c : ℕ} {d : Option ℕ} {b : Bool} (h : s.calls c = .stopDelete d b) :
      Step s (.call c)
        { s with
          tasks := taskDelete s.tasks d
          calls := Function.update s.calls c (afterStop b) }
  | task {t : ℕ} {r : Runtime} {p : Phase} (h : TaskStep s.runtime (s.tasks t) r p) :
      Step s (.task t) { s with runtime := r, tasks := Function.update s.tasks t p }

/-- `reflex_vm_task_runtime_init`, before any call. -/
def initial : State where
  runtime := ⟨false, false, false, none, .ready⟩
  tasks := fun _ => .absent
  created := 0
  calls := fun _ => .idle

/-- In the loop that steps the VM. -/
def Phase.looping : Phase → Bool
  | .testRunning | .testStatus | .clearRunning | .slice => true
  | _ => false

def OneLoops (s : State) : Prop :=
  ∀ t t', (s.tasks t).looping = true → (s.tasks t').looping = true → t = t'

/-- Calls do not overlap, and a start is let through when no task is left, or a parked one. -/
def Careful (s : State) : Label → Prop
  | .begins _ _ => ∀ c, s.calls c = .idle
  | .call c => s.calls c = .startRunning →
      s.runtime.handle = none ∨ ∃ t, s.runtime.handle = some t ∧ s.tasks t = .parked
  | .task _ => True

/-- Before `finished` is published. -/
def Phase.live : Phase → Bool
  | .testRunning | .testStatus | .clearRunning | .slice | .publish => true
  | _ => false

/-- Past the loop, with the handle still to be read or cleared. -/
def Phase.leaving : Phase → Bool
  | .testRequest | .clearHandle => true
  | _ => false

def Phase.engaged (p : Phase) : Bool := p.live || p.leaving

def Call.reaping : Call → Bool
  | .stopHandle _ | .stopDoom _ | .stopDrop _ _ | .stopDelete _ _ => true
  | _ => false

def Call.starting : Call → Bool
  | .startRequest | .startFinished | .startLoad | .startCreate | .startUndo | .startForget => true
  | _ => false

def Call.deletes (k : Call) (t : ℕ) : Bool :=
  match k with
  | .stopDelete (some d) _ => d == t
  | _ => false

/-- What holds while one call is under way. -/
structure Safe (r : Runtime) (tasks : ℕ → Phase) (k : Call) : Prop where
  held : ∀ t, (tasks t).engaged = true →
    r.handle = some t ∨ (tasks t).leaving = true ∧ k.deletes t = true
  published : r.finished = true → ∀ t, (tasks t).live = false
  reaped : k.reaping = true → ∀ t, (tasks t).live = false
  empty : k.starting = true → ∀ t, (tasks t).engaged = false
  unfinished : k = .startLoad ∨ k = .startCreate → r.finished = false
  doomed : ∀ d b, k = .stopDrop d b → ∀ t, r.handle = some t → d = some t
  dropped : ∀ d b, k = .stopDelete d b → r.handle = none

section TaskSteps

variable {r r' : Runtime} {p p' : Phase}

theorem live_engaged (h : p.live = true) : p.engaged = true := by
  rw [Phase.engaged, h]
  rfl

theorem live_not_leaving (h : p.live = true) : p.leaving = false := by
  cases p <;> first | rfl | cases h

theorem TaskStep.live (h : TaskStep r p r' p') (hlive : p'.live = true) : p.live = true := by
  cases h <;> first | rfl | cases hlive

theorem TaskStep.engaged (h : TaskStep r p r' p') (hengaged : p'.engaged = true) :
    p.engaged = true := by
  cases h <;> first | rfl | cases hengaged

theorem TaskStep.leaving (h : TaskStep r p r' p') (hengaged : p'.engaged = true)
    (hleaving : p.leaving = true) : p'.leaving = true := by
  cases h <;> first | rfl | (cases hleaving; done) | cases hengaged

theorem TaskStep.handle (h : TaskStep r p r' p') :
    r'.handle = r.handle ∨ p.leaving = true ∧ r'.handle = none ∧ p'.engaged = false := by
  cases h <;> first | exact .inl rfl | exact .inr ⟨rfl, rfl, rfl⟩

theorem TaskStep.finished (h : TaskStep r p r' p') :
    r'.finished = r.finished ∨ p.live = true ∧ p'.live = false := by
  cases h <;> first | exact .inl rfl | exact .inr ⟨rfl, rfl⟩

end TaskSteps

section Safe

variable {r r' : Runtime} {tasks : ℕ → Phase} {k : Call} {t : ℕ} {p : Phase}

theorem Safe.initial : Safe initial.runtime initial.tasks .idle where
  held _ h := nomatch h
  published h := nomatch h
  reaped h := nomatch h
  empty h := nomatch h
  unfinished h := h.elim Call.noConfusion Call.noConfusion
  doomed _ _ h := nomatch h
  dropped _ _ h := nomatch h

theorem update_live (hp : p.live = true → (tasks t).live = true) {u : ℕ}
    (h : (tasks u).live = false) : (Function.update tasks t p u).live = false := by
  by_cases hu : u = t
  · subst u
    rw [Function.update_self]
    by_contra hlive
    rw [hp (Bool.not_eq_false _ ▸ hlive)] at h
    cases h
  · rwa [Function.update_of_ne hu]

theorem update_engaged (hp : p.engaged = true → (tasks t).engaged = true) {u : ℕ}
    (h : (tasks u).engaged = false) : (Function.update tasks t p u).engaged = false := by
  by_cases hu : u = t
  · subst u
    rw [Function.update_self]
    by_contra hengaged
    rw [hp (Bool.not_eq_false _ ▸ hengaged)] at h
    cases h
  · rwa [Function.update_of_ne hu]

/-- The handle is still that of every live task. -/
theorem Safe.live_handle (h : Safe r tasks k) (hlive : (tasks t).live = true) :
    r.handle = some t := by
  rcases h.held t (live_engaged hlive) with hhandle | ⟨hleaving, -⟩
  · exact hhandle
  · rw [live_not_leaving hlive] at hleaving
    cases hleaving

theorem Safe.deletes_handle (h : Safe r tasks k) (hd : k.deletes t = true) : r.handle = none := by
  unfold Call.deletes at hd
  split at hd
  next d b => exact h.dropped (some d) b rfl
  next => cases hd

theorem Safe.leaving_alone (h : Safe r tasks k) (ht : (tasks t).engaged = true) {u : ℕ}
    (hu : r.handle = some u) : u = t := by
  rcases h.held t ht with hhandle | ⟨-, hd⟩
  · exact Option.some.inj (hu.symm.trans hhandle)
  · rw [h.deletes_handle hd] at hu
    cases hu

theorem Safe.task (h : Safe r tasks k) (hstep : TaskStep r (tasks t) r' p) :
    Safe r' (Function.update tasks t p) k where
  held u hu := by
    by_cases hut : u = t
    · subst u
      rw [Function.update_self] at hu ⊢
      have ht := hstep.engaged hu
      rcases hstep.handle with hhandle | ⟨-, -, hp⟩
      · rw [hhandle]
        exact (h.held t ht).imp_right fun hd => ⟨hstep.leaving hu hd.1, hd.2⟩
      · rw [hp] at hu
        cases hu
    · rw [Function.update_of_ne hut] at hu ⊢
      rcases hstep.handle with hhandle | ⟨hleaving, -, -⟩
      · rw [hhandle]
        exact h.held u hu
      · rcases h.held u hu with hown | hd
        · have ht : (tasks t).engaged = true := by
            rw [Phase.engaged, hleaving, Bool.or_true]
          exact absurd (h.leaving_alone ht hown) hut
        · exact .inr hd
  published hf u := by
    rcases hstep.finished with hfinished | ⟨ht, hp⟩
    · exact update_live hstep.live (h.published (hfinished ▸ hf) u)
    · by_cases hut : u = t
      · rw [hut, Function.update_self, hp]
      · rw [Function.update_of_ne hut]
        by_contra hlive
        have hu := h.live_handle (Bool.not_eq_false _ ▸ hlive)
        exact hut (Option.some.inj (hu.symm.trans (h.live_handle ht)))
  reaped hk u := update_live hstep.live (h.reaped hk u)
  empty hk u := update_engaged hstep.engaged (h.empty hk u)
  unfinished hk := by
    rcases hstep.finished with hfinished | ⟨ht, -⟩
    · rw [hfinished]
      exact h.unfinished hk
    · have hk' : k.starting = true := by rcases hk with rfl | rfl <;> rfl
      have hempty := h.empty hk' t
      rw [live_engaged ht] at hempty
      cases hempty
  doomed d b hk u hu := by
    rcases hstep.handle with hhandle | ⟨-, hnone, -⟩
    · exact h.doomed d b hk u (hhandle ▸ hu)
    · rw [hnone] at hu
      cases hu
  dropped d b hk := by
    rcases hstep.handle with hhandle | ⟨-, hnone, -⟩
    · rw [hhandle]
      exact h.dropped d b hk
    · exact hnone

theorem not_live (h : (tasks t).engaged = false) : (tasks t).live = false := by
  rw [Phase.engaged, Bool.or_eq_false_iff] at h
  exact h.1

theorem Safe.plain (h : Safe r tasks k) {k' : Call} (hd : ∀ t, k.deletes t = false)
    (hhandle : r'.handle = r.handle) (hfinished : r'.finished = r.finished)
    (hreaping : k'.reaping = false) (hstarting : k'.starting = false) : Safe r' tasks k' where
  held t ht := by
    rw [hhandle]
    rcases h.held t ht with hown | ⟨-, hdeletes⟩
    · exact .inl hown
    · rw [hd t] at hdeletes
      cases hdeletes
  published hf := h.published (hfinished ▸ hf)
  reaped hk := by
    rw [hreaping] at hk
    cases hk
  empty hk := by
    rw [hstarting] at hk
    cases hk
  unfinished hk := by rcases hk with rfl | rfl <;> cases hstarting
  doomed d b hk := by
    subst hk
    cases hreaping
  dropped d b hk := by
    subst hk
    cases hreaping

/-- With no engaged task nothing else is relied on. -/
theorem Safe.of_empty {k' : Call} (he : ∀ t, (tasks t).engaged = false)
    (hreaping : k'.reaping = false)
    (hf : k' = .startLoad ∨ k' = .startCreate → r'.finished = false) : Safe r' tasks k' where
  held t ht := by
    rw [he t] at ht
    cases ht
  published _ t := not_live (he t)
  reaped _ t := not_live (he t)
  empty _ := he
  unfinished := hf
  doomed d b hk := by
    subst hk
    cases hreaping
  dropped d b hk := by
    subst hk
    cases hreaping

/-- No task is live when a stop takes the handle. -/
theorem Safe.reap (h : Safe r tasks k) {k' : Call} (hd : ∀ t, k.deletes t = false)
    (hlive : ∀ t, (tasks t).live = false) (hreaping : k'.reaping = true)
    (hdoomed : ∀ d b, k' = .stopDrop d b → d = r.handle) (hdelete : ∀ d b, k' ≠ .stopDelete d b) :
    Safe r tasks k' where
  held t ht := by
    rcases h.held t ht with hown | ⟨-, hdeletes⟩
    · exact .inl hown
    · rw [hd t] at hdeletes
      cases hdeletes
  published _ := hlive
  reaped _ := hlive
  empty hk := by cases k' <;> first | (cases hk; done) | cases hreaping
  unfinished hk := by rcases hk with rfl | rfl <;> cases hreaping
  doomed d b hk t ht := (hdoomed d b hk).trans ht
  dropped d b hk := absurd hk (hdelete d b)

theorem Safe.drop (h : Safe r tasks k) {d : Option ℕ} {b : Bool} (hk : k = .stopDrop d b) :
    Safe { r with handle := none } tasks (.stopDelete d b) where
  held t ht := by
    have hlive := h.reaped (by rw [hk]; rfl) t
    have hleaving : (tasks t).leaving = true := by
      rwa [Phase.engaged, hlive, Bool.false_or] at ht
    rcases h.held t ht with hown | ⟨-, hdeletes⟩
    · obtain rfl := h.doomed d b hk t hown
      exact .inr ⟨hleaving, beq_self_eq_true t⟩
    · rw [hk] at hdeletes
      cases hdeletes
  published _ := h.reaped (by rw [hk]; rfl)
  reaped _ := h.reaped (by rw [hk]; rfl)
  empty hk' := nomatch hk'
  unfinished hk' := hk'.elim Call.noConfusion Call.noConfusion
  doomed _ _ hk' := nomatch hk'
  dropped _ _ _ := rfl

/-- Where a start is let through, nothing of an earlier task is left to do. -/
theorem Safe.let_through (h : Safe r tasks .startRunning)
    (hc : r.handle = none ∨ ∃ t, r.handle = some t ∧ tasks t = .parked) (u : ℕ) :
    (tasks u).engaged = false := by
  by_contra hengaged
  have hu : (tasks u).engaged = true := Bool.not_eq_false _ ▸ hengaged
  rcases h.held u hu with hown | ⟨-, hd⟩
  · rcases hc with hnone | ⟨t, ht, hparked⟩
    · rw [hnone] at hown
      cases hown
    · obtain rfl := Option.some.inj (ht.symm.trans hown)
      rw [hparked] at hu
      cases hu
  · cases hd

theorem Safe.call (h : Safe r tasks k) {k' : Call}
    (hc : k = .startRunning → r.handle = none ∨ ∃ t, r.handle = some t ∧ tasks t = .parked)
    (hstep : CallStep r k r' k') : Safe r' tasks k' := by
  have hafter : ∀ b, (afterStop b).reaping = false ∧ (afterStop b).starting = false := by
    intro b
    cases b <;> exact ⟨rfl, rfl⟩
  cases hstep with
  | refused | invalid | admitted | loadFailed | healthy | faulted | stopRequest | stopRunning
  | stopWait | unfinished => exact h.plain (fun _ => rfl) rfl rfl rfl rfl
  | timedOut b _ | deleted b _ =>
    exact h.plain (fun _ => rfl) rfl rfl (hafter b).1 (hafter b).2
  | startRunning =>
    exact .of_empty (h.let_through (hc rfl)) rfl fun hk => hk.elim Call.noConfusion Call.noConfusion
  | startRequest | createFailed | startUndo | startForget =>
    exact .of_empty (h.empty rfl) rfl fun hk => hk.elim Call.noConfusion Call.noConfusion
  | startFinished => exact .of_empty (h.empty rfl) rfl fun _ => rfl
  | loaded => exact .of_empty (h.empty rfl) rfl fun _ => h.unfinished (.inl rfl)
  | finished b hf =>
    exact h.reap (fun _ => rfl) (h.published hf) rfl (fun _ _ => Call.noConfusion)
      fun _ _ => Call.noConfusion
  | gone b hnone =>
    refine h.reap (fun _ => rfl) (fun t => ?_) rfl (fun _ _ => Call.noConfusion)
      fun _ _ => Call.noConfusion
    by_contra hlive
    rw [h.live_handle (Bool.not_eq_false _ ▸ hlive)] at hnone
    cases hnone
  | reap b _ =>
    exact h.reap (fun _ => rfl) (h.reaped rfl) rfl (fun _ _ => Call.noConfusion)
      fun _ _ => Call.noConfusion
  | stopDoom b =>
    refine h.reap (fun _ => rfl) (h.reaped rfl) rfl (fun d b' hk => ?_)
      fun _ _ => Call.noConfusion
    cases hk
    rfl
  | stopDrop d b => exact h.drop rfl

theorem Safe.create (h : Safe r tasks .startCreate) (t : ℕ) :
    Safe { r with handle := some t } (Function.update tasks t .testRunning) .idle where
  held u hu := by
    by_cases hut : u = t
    · exact .inl (congrArg some hut.symm)
    · rw [Function.update_of_ne hut, h.empty rfl u] at hu
      cases hu
  published hf := by
    rw [h.unfinished (.inr rfl)] at hf
    cases hf
  reaped hk := nomatch hk
  empty hk := nomatch hk
  unfinished hk := hk.elim Call.noConfusion Call.noConfusion
  doomed _ _ hk := nomatch hk
  dropped _ _ hk := nomatch hk

theorem taskDelete_engaged {d : Option ℕ} (ht : (taskDelete tasks d t).engaged = true) :
    d ≠ some t ∧ (tasks t).engaged = true := by
  cases d with
  | none => exact ⟨(Option.some_ne_none t).symm, ht⟩
  | some u =>
    by_cases hut : t = u
    · subst u
      rw [taskDelete, Function.update_self] at ht
      cases ht
    · rw [taskDelete, Function.update_of_ne hut] at ht
      exact ⟨fun hsome => hut (Option.some.inj hsome).symm, ht⟩

theorem Safe.delete {d : Option ℕ} {b : Bool} (h : Safe r tasks (.stopDelete d b)) :
    Safe r (taskDelete tasks d) (afterStop b) := by
  refine .of_empty (fun t => ?_) (by cases b <;> rfl) fun hk => ?_
  · by_contra hengaged
    obtain ⟨hd, ht⟩ := taskDelete_engaged (Bool.not_eq_false _ ▸ hengaged)
    rcases h.held t ht with hown | ⟨-, hdeletes⟩
    · rw [h.dropped d b rfl] at hown
      cases hown
    · cases d with
      | none => cases hdeletes
      | some u => exact hd (congrArg some (beq_iff_eq.mp hdeletes))
  · cases b <;> exact hk.elim Call.noConfusion Call.noConfusion

end Safe

/-- At most one call is under way. -/
structure Managed (s : State) (c : ℕ) : Prop where
  others : ∀ c', c' ≠ c → s.calls c' = .idle
  safe : Safe s.runtime s.tasks (s.calls c)

section Managed

variable {s s' : State} {c : ℕ} {l : Label}

theorem Managed.caller (h : Managed s c) {c' : ℕ} (hbusy : s.calls c' ≠ .idle) : c' = c :=
  by_contra fun hne => hbusy (h.others c' hne)

theorem update_others {calls : ℕ → Call} (h : ∀ c', c' ≠ c → calls c' = .idle) (k : Call) :
    ∀ c', c' ≠ c → Function.update calls c k c' = .idle := by
  intro c' hc'
  rw [Function.update_of_ne hc']
  exact h c' hc'

theorem Managed.step (h : Managed s c) (hstep : Step s l s') (hcareful : Careful s l) :
    ∃ c', Managed s' c' := by
  cases hstep with
  | @begins c' k hidle hk =>
    refine ⟨c', update_others (fun c'' _ => hcareful c'') k, ?_⟩
    dsimp only
    rw [Function.update_self]
    have hsafe := h.safe
    rw [hcareful c] at hsafe
    simp only [entryPoints, List.mem_cons, List.not_mem_nil, or_false] at hk
    rcases hk with rfl | rfl | rfl <;> exact hsafe.plain (fun _ => rfl) rfl rfl rfl rfl
  | @call c' r k hcall =>
    obtain rfl : c' = c := h.caller fun hidle => by
      rw [hidle] at hcall
      cases hcall
    refine ⟨c', update_others h.others k, ?_⟩
    dsimp only
    rw [Function.update_self]
    exact h.safe.call hcareful hcall
  | @create c' hk =>
    obtain rfl : c' = c := h.caller (by rw [hk]; exact Call.noConfusion)
    refine ⟨c', update_others h.others .idle, ?_⟩
    dsimp only
    rw [Function.update_self]
    exact Safe.create (hk ▸ h.safe) _
  | @delete c' d b hk =>
    obtain rfl : c' = c := h.caller (by rw [hk]; exact Call.noConfusion)
    refine ⟨c', update_others h.others _, ?_⟩
    dsimp only
    rw [Function.update_self]
    exact Safe.delete (hk ▸ h.safe)
  | task htask => exact ⟨c, h.others, h.safe.task htask⟩

theorem looping_live {p : Phase} (h : p.looping = true) : p.live = true := by
  cases p <;> first | rfl | cases h

theorem Managed.oneLoops (h : Managed s c) : OneLoops s := by
  intro t t' ht ht'
  have hhandle := h.safe.live_handle (looping_live ht)
  exact Option.some.inj (hhandle.symm.trans (h.safe.live_handle (looping_live ht')))

end Managed

/-- In every run of careful calls at most one task is in the loop that steps the VM. -/
theorem one_live_task {ls : List Label} {s : State}
    (h : Run (Guarded Careful Step) initial ls s) : OneLoops s := by
  have hmanaged : ∃ c, Managed s c :=
    h.invariant (fun s => ∃ c, Managed s c)
      (fun _ _ _ ⟨_, hs⟩ hstep => hs.step hstep.2 hstep.1)
      ⟨0, fun _ _ => rfl, Safe.initial⟩
  obtain ⟨c, hc⟩ := hmanaged
  exact hc.oneLoops

section Runs

variable {s : State} {c t : ℕ} {r r' : Runtime} {k k' : Call}

/-- The state with caller `c` at `k`. -/
def State.within (s : State) (r : Runtime) (c : ℕ) (k : Call) : State :=
  { s with runtime := r, calls := Function.update s.calls c k }

@[simp] theorem within_calls (s : State) (r : Runtime) (c : ℕ) (k : Call) :
    (s.within r c k).calls c = k := by simp [State.within]

theorem step_within (h : CallStep r k r' k') :
    Step (s.within r c k) (.call c) (s.within r' c k') := by
  have hstep : Step (s.within r c k) (.call c) ((s.within r c k).within r' c k') :=
    .call ((within_calls s r c k).symm ▸ h)
  rwa [State.within, State.within, Function.update_idem] at hstep

theorem careful_within (h : k = .startRunning → r.handle = none) :
    Careful (s.within r c k) (.call c) := by
  intro hk
  refine .inl (h ?_)
  rwa [within_calls] at hk

/-- A start that finds `running` clear, and an image and a stack to be had. -/
def State.started (s : State) (c : ℕ) : State where
  runtime :=
    { running := true
      stopRequested := false
      finished := false
      handle := some s.created
      status := .ready }
  tasks := Function.update s.tasks s.created .testRunning
  created := s.created + 1
  calls := Function.update s.calls c .idle

theorem step_begins (hc : s.calls c = .idle) (hk : k ∈ entryPoints) :
    Step s (.begins c k) (s.within s.runtime c k) := .begins hc hk

theorem step_created (r : Runtime) : Step (s.within r c .startCreate) (.call c)
    { runtime := { r with handle := some s.created }
      tasks := Function.update s.tasks s.created .testRunning
      created := s.created + 1
      calls := Function.update s.calls c .idle } := by
  have hcreate := Step.create (s := s.within r c .startCreate) (c := c)
    (within_calls s r c .startCreate)
  rwa [State.within, Function.update_idem] at hcreate

theorem run_start (hc : s.calls c = .idle) (hr : s.runtime.running = false) :
    Run Step s (.begins c .startTest :: List.replicate 6 (.call c)) (s.started c) :=
  .cons (step_begins hc (by decide)) <| .cons (step_within (.admitted hr)) <|
    .cons (step_within .startRunning) <| .cons (step_within .startRequest) <|
    .cons (step_within .startFinished) <| .cons (step_within .loaded) <| .single (step_created _)

/-- The first start of all is a careful one. -/
theorem run_start_careful : Run (Guarded Careful Step) initial
    (.begins 0 .startTest :: List.replicate 6 (.call 0)) (initial.started 0) :=
  .cons ⟨fun _ => rfl, step_begins rfl (by decide)⟩ <|
    .cons ⟨careful_within fun _ => rfl, step_within (.admitted rfl)⟩ <|
    .cons ⟨careful_within fun _ => rfl, step_within .startRunning⟩ <|
    .cons ⟨careful_within fun _ => rfl, step_within .startRequest⟩ <|
    .cons ⟨careful_within fun _ => rfl, step_within .startFinished⟩ <|
    .cons ⟨careful_within fun _ => rfl, step_within .loaded⟩ <|
    .single ⟨careful_within fun _ => rfl, step_created _⟩

/-- A stop that gives up on its task. -/
def State.stopped (s : State) (c : ℕ) : State :=
  s.within { s.runtime with stopRequested := true, running := false } c .idle

theorem run_stop (hc : s.calls c = .idle) (hf : s.runtime.finished = false)
    (hh : s.runtime.handle ≠ none) :
    Run Step s (.begins c (.stopRequest false) :: List.replicate 5 (.call c)) (s.stopped c) := by
  exact .cons (step_begins hc (by decide)) <| .cons (step_within (.stopRequest false)) <|
    .cons (step_within (.stopRunning false)) <| .cons (step_within (.stopWait false)) <|
    .cons (step_within (.unfinished false hf)) <| .single (step_within (.timedOut false hh))

theorem run_enter (ht : s.tasks t = .testRunning) (hr : s.runtime.running = true)
    (hs : ¬ Stopped s.runtime.status) :
    Run Step s [.task t, .task t] { s with tasks := Function.update s.tasks t .slice } := by
  have htest : Step s (.task t) { s with tasks := Function.update s.tasks t .testStatus } :=
    .task (ht.symm ▸ .goOn hr)
  have henter := Step.task (s := { s with tasks := Function.update s.tasks t .testStatus })
    (t := t) (r := s.runtime) (p := .slice) (by
      dsimp only
      rw [Function.update_self]
      exact .enter hs)
  rw [Function.update_idem] at henter
  exact .cons htest (.single henter)

end Runs

theorem one_live_task_started : OneLoops (initial.started 0) := one_live_task run_start_careful

/-- The task is in its slice when a stop times out, and the next start finds `running` clear. -/
theorem two_live_tasks : ∃ ls s, Run Step initial ls s ∧ s.tasks 0 = .slice ∧
    s.tasks 1 = .slice ∧ ¬ OneLoops s := by
  have hready : ¬ Stopped .ready := fun h => h.elim Status.noConfusion Status.noConfusion
  have hfirst := run_start (s := initial) (c := 0) rfl rfl
  have hslice := run_enter (s := initial.started 0) (t := 0) rfl rfl hready
  have hstop := run_stop (c := 0) (s := { initial.started 0 with
    tasks := Function.update (initial.started 0).tasks 0 .slice }) rfl rfl
    (Option.some_ne_none 0)
  have hsecond := run_start (c := 0) (s := State.stopped { initial.started 0 with
    tasks := Function.update (initial.started 0).tasks 0 .slice } 0) rfl rfl
  have hboth := run_enter (t := 1) (s := State.started (State.stopped { initial.started 0 with
    tasks := Function.update (initial.started 0).tasks 0 .slice } 0) 0) rfl rfl hready
  refine ⟨_, _, hfirst.append (hslice.append (hstop.append (hsecond.append hboth))), rfl, rfl, ?_⟩
  intro h
  exact absurd (h 0 1 rfl rfl) (by decide)

end ReflexOS.VmTask
